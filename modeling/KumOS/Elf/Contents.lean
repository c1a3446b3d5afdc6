import KumOS.Elf.Fresh
import Mathlib.Order.Bounds.Defs

/-!
# What an image looks like when it is loaded

For a well-formed image with segments from 16 MB on, in pages that are not mapped, and
with frames enough, `elf_load_mem` succeeds, and memory is what the program headers say:
the bytes of the file, zeros behind them, in pages user code may write.  Segments may
share pages and come in any order: every step leaves what is loaded already alone.  All
this holds if CR3 has `page_dir`; a clone has to have the tables of the segments already
(`loaded_iff`), since `paging_map` does not enter a new one there.
-/

namespace KumOS.Elf

open Lib Paging Paging.Phys
open Vm (pageDirIdx pageTblIdx)

variable {i k n : Nat} {r : ElfResult} {C : Nat → Bool}
variable {pg x : Nat}

/-! ## Storing bytes -/

section

variable {im : Image} {clones : List Nat} {s s0 s' : Phys} {va p : Nat}

theorem load_poke (h : Owned im clones s) (hge : 0x1000000 ≤ va) (hva : va < 2 ^ 32)
    (hp : s.walk im.pageDir va % 2 = pagePresent) (b : UInt8) (hx1 : 0x1000000 ≤ x) (hx2 : x < 2 ^ 32)
    (hwk : ∀ y < 2 ^ 32, (s.poke (s.walk im.pageDir va / pageSize) (va % pageSize) b).walk im.pageDir y = s.walk im.pageDir y) :
    (s.poke (s.walk im.pageDir va / pageSize) (va % pageSize) b).load im.pageDir x =
      if x = va then some b else s.load im.pageDir x := by
  by_cases hpx : s.walk im.pageDir x % 2 = pagePresent
  · rw [load_eq (by rw [hwk x hx2]; exact hpx), load_eq hpx, hwk x hx2]
    by_cases hxv : x = va
    · rw [if_pos hxv, hxv, mem_poke_self, Function.update_self]
    rw [if_neg hxv]
    by_cases hf : s.walk im.pageDir x / pageSize = s.walk im.pageDir va / pageSize
    · -- the same frame is the same page, so another byte of it
      have hpg := h.page_inj hx1 hx2 hge hva hpx hp hf
      have hoff : x % pageSize ≠ va % pageSize := by
        intro ho
        unfold pageSize at hpg ho
        omega
      rw [hf, mem_poke_self, Function.update_of_ne hoff]
    · rw [mem_poke_ne s hf]
  · have hxv : x ≠ va := by
      rintro rfl
      exact hpx hp
    rw [if_neg hxv]
    unfold Phys.load Phys.translate
    rw [hwk x hx2, if_neg hpx]
    rfl

/-- Bytes that are stored to new pages are there afterwards, and nothing else has changed. -/
theorem Loading.storeBytes_all (h : Loading im clones s0 s) (h0 : SpaceOk im clones s0) (va : Nat)
    (src : Nat → UInt8) (hn : va + n ≤ 2 ^ 32) (hsh : ∀ k < n, Shares im s0 (va + k))
    (hnew : ∀ k < n, Unmapped s0 (va + k)) (hmap : ∀ k < n, s.walk im.pageDir (va + k) % 2 = pagePresent) :
    ∃ s', s.storeBytes va src n = some s' ∧ Loading im clones s0 s' ∧
      (∀ x < 2 ^ 32, s'.walk im.pageDir x = s.walk im.pageDir x) ∧ (∀ d, s'.word im.pageDir d = s.word im.pageDir d) ∧
      ∀ x, 0x1000000 ≤ x → x < 2 ^ 32 →
        s'.load im.pageDir x = if va ≤ x ∧ x < va + n then some (src (x - va)) else s.load im.pageDir x := by
  induction n with
  | zero =>
    refine ⟨s, rfl, h, fun _ _ => rfl, fun _ => rfl, fun x _ _ => ?_⟩
    rw [if_neg (by omega)]
  | succ n ih =>
    obtain ⟨s1, hs1, hl, hwk, hwd, hload⟩ := ih (by omega) (fun k hk => hsh k (by omega))
      (fun k hk => hnew k (by omega)) fun k hk => hmap k (by omega)
    have hu32 : u32 (va + n) = va + n := Nat.mod_eq_of_lt (by omega)
    have hshn := hsh n (Nat.lt_succ_self n)
    have hnewn := hnew n (Nat.lt_succ_self n)
    have hp : s1.walk im.pageDir (va + n) % 2 = pagePresent := by
      rw [hwk _ (by omega)]
      exact hmap n (Nat.lt_succ_self n)
    have hge : 0x1000000 ≤ va + n := by
      unfold Unmapped at hnewn
      rw [hshn.walk] at hnewn
      exact ge_of_unmapped h0.owned hnewn
    have hsm := hl.walk_shares h0 (by omega) hshn
    have hst : s1.store s1.active (va + n) (src n) =
        some (s1.poke (s1.walk im.pageDir (va + n) / pageSize) ((va + n) % pageSize) (src n)) := by
      rw [store_eq (by rw [hsm]; exact hp), hsm]
    obtain ⟨-, hwalk2, -⟩ := hl.owned.store hge (by omega) (store_eq hp (src n))
    refine ⟨_, ?_, (hl.store h0 (by omega) hnewn hst).1, fun x hx => (hwalk2 x hx).trans (hwk x hx), fun d => ?_,
      fun x hx1 hx2 => ?_⟩
    · rw [Phys.storeBytes, hs1, Option.bind_some, hu32]
      exact hst
    · have hpg := hl.owned.pageFrame hge (by omega) hp
      rw [word_congr (mem_poke_ne s1 hpg.ne_dir.symm _ _) d, hwd]
    · rw [load_poke hl.owned hge (by omega) hp _ hx1 hx2 hwalk2, hload x hx1 hx2]
      by_cases hxn : x = va + n
      · rw [if_pos hxn, if_pos (by omega), hxn, Nat.add_sub_cancel_left]
      rw [if_neg hxn]
      by_cases hin : va ≤ x ∧ x < va + n
      · rw [if_pos hin, if_pos (by omega)]
      · rw [if_neg hin, if_neg (by omega)]

/-! ## Mapping pages -/

section

variable (h : Loading im clones s0 s) (hva : va < 2 ^ 32) (hno : s.walk im.pageDir va % 2 ≠ pagePresent) (hp : s.pmm.Free p)
include h hva hno hp

theorem mapPage_untouched : Untouched im (fun pg => pg = va / pageSize) s (mapPage im s va p) := by
  have hge := ge_of_unmapped h.owned hno
  obtain ⟨h2, hspr, hwk, -⟩ := h.cleared hp
  have h1 : Untouched im (fun pg => pg = va / pageSize) s ((s.take p).zeroFrame p) := by
    intro x hx1 hx2 _
    refine ⟨hwk x hx2, fun hpr => mem_zeroFrame_ne _ ?_, fun hpr => s.pmm.take_refs_ne ?_⟩
    all_goals
      intro he
      exact (h.owned.pageFrame hx1 hx2 hpr).refs (by rw [he]; exact hp.zero)
  exact h1.trans (h2.owned.untouched_pagingMap hge hva (by decide) hspr rfl)

/-- Which tables there are after a page has been mapped, and what has been taken. -/
theorem mapPage_tables (hrm : s.word im.pageDir (pageDirIdx va) = 0 → ∃ t, (s.pmm.take p).Free t) :
    (s.word im.pageDir (pageDirIdx va) ≠ 0 ∧ (mapPage im s va p).pmm = s.pmm.take p ∧
      ∀ d, (mapPage im s va p).word im.pageDir d = s.word im.pageDir d) ∨
    (s.word im.pageDir (pageDirIdx va) = 0 ∧ (mapPage im s va p).word im.pageDir (pageDirIdx va) ≠ 0 ∧
      (∀ d, d ≠ pageDirIdx va → (mapPage im s va p).word im.pageDir d = s.word im.pageDir d) ∧
      ∃ t, (s.pmm.take p).Free t ∧ (mapPage im s va p).pmm = (s.pmm.take p).take t) := by
  have hge := ge_of_unmapped h.owned hno
  obtain ⟨h2, -, -, hwd⟩ := h.cleared hp
  have hpmm2 : ((s.take p).zeroFrame p).pmm = s.pmm.take p := rfl
  unfold mapPage
  generalize ((s.take p).zeroFrame p) = s2 at *
  rcases h2.owned.ptePtrAlloc hge hva with ⟨-, h0, hnn⟩ | ⟨s3, he, hg⟩
  · rw [hwd] at h0
    obtain ⟨t, ht⟩ := hrm h0
    rw [← hpmm2] at ht
    exact absurd ht (hnn t)
  have hdir := hg.word_pagingMap he (p * pageSize) (pageUser ||| pageWrite)
  have hpmm : (s2.pagingMap im va (p * pageSize) (pageUser ||| pageWrite)).pmm = s3.pmm := by
    rw [pagingMap_eq he]
    rfl
  by_cases h0 : s.word im.pageDir (pageDirIdx va) = 0
  · obtain ⟨t, ht, hs3⟩ := ptePtrAlloc_new h2.base (by rw [hwd]; exact h0) he
    have hgrow := ptePtrAlloc_grows (dir_held h2.owned) va
    rw [he] at hgrow
    refine .inr ⟨h0, by rw [hdir]; exact hg.table.ne, fun d hd => ?_, t, by rw [← hpmm2]; exact ht, ?_⟩
    · rw [hdir, hgrow.2.1 d hd, hwd]
    · rw [hpmm, hs3, ← hpmm2]
      rfl
  · have hsm := h2.owned.same_of_table he hva (by rw [hwd]; exact h0)
    refine .inl ⟨h0, by rw [hpmm, hsm, hpmm2], fun d => ?_⟩
    rw [hdir, hsm, hwd]

end

/-! ## Frames enough -/

/-- The pages of the address space. -/
def pageCount : Nat := 2 ^ 20

/-- One of the pages `C` is in table `d`. -/
def inTable (C : Nat → Bool) (d : Nat) : Bool := (List.range pageEntries).any fun j => C (d * pageEntries + j)

/-- The pages among `C` that are not mapped yet. -/
def missingPages (im : Image) (C : Nat → Bool) (s : Phys) : Nat :=
  tally (fun pg => C pg && !s.pagingIsMapped im (pg * pageSize)) pageCount

/-- The tables of `C` that are missing. -/
def missingTables (im : Image) (C : Nat → Bool) (s : Phys) : Nat :=
  tally (fun d => inTable C d && decide (s.word im.pageDir d = 0)) pageEntries

/-- The frames it takes to map the pages `C`. -/
def needed (im : Image) (C : Nat → Bool) (s : Phys) : Nat := missingPages im C s + missingTables im C s

theorem isMapped_eq_false : s.pagingIsMapped im va = false ↔ s.walk im.pageDir va % 2 ≠ pagePresent := by
  rw [Ne, ← isMapped_iff, Bool.not_eq_true]

theorem isMapped_congr (h : s'.walk im.pageDir x = s.walk im.pageDir x) :
    s'.pagingIsMapped im x = s.pagingIsMapped im x := by
  rw [Bool.eq_iff_iff, isMapped_iff, isMapped_iff, h]

theorem tally_pos {q : Nat → Bool} (hi : i < n) (hq : q i = true) : 0 < tally q n := by
  apply Nat.pos_of_ne_zero
  intro h0
  have := tally_eq_zero_iff.1 h0 i hi
  rw [hq] at this
  cases this

theorem inTable_of_page (hC : C (va / pageSize) = true) : inTable C (pageDirIdx va) = true := by
  refine List.any_eq_true.2 ⟨pageTblIdx va, List.mem_range.2 (pageTblIdx_lt va), ?_⟩
  have hpg : pageDirIdx va * pageEntries + pageTblIdx va = va / pageSize := by
    unfold pageDirIdx pageTblIdx pageEntries pageSize
    omega
  rw [hpg]
  exact hC

section

/-- The page itself, and its table if there is none, are among the frames that are needed. -/
theorem needed_page (hva : va < 2 ^ 32) (hC : C (va / pageSize) = true) (hno : s.walk im.pageDir va % 2 ≠ pagePresent) :
    1 ≤ needed im C s ∧ (s.word im.pageDir (pageDirIdx va) = 0 → 2 ≤ needed im C s) := by
  have hlt : va / pageSize < pageCount := by
    unfold pageSize pageCount
    omega
  have hpg : 0 < missingPages im C s := by
    refine tally_pos hlt ?_
    have hunmapped : s.pagingIsMapped im (va / pageSize * pageSize) = false := by
      rw [isMapped_eq_false, s.walk_page im.pageDir (Nat.mul_div_cancel _ (by decide : 0 < pageSize))]
      exact hno
    rw [hC, hunmapped]
    rfl
  have htb : s.word im.pageDir (pageDirIdx va) = 0 → 0 < missingTables im C s := by
    intro h0
    refine tally_pos (pageDirIdx_lt hva) ?_
    rw [inTable_of_page hC, decide_eq_true h0]
    rfl
  unfold needed
  exact ⟨by omega, fun h0 => by have := htb h0; omega⟩

/-- Every frame that is taken for a page or its table is one less that is needed. -/
theorem needed_mapPage (h : Loading im clones s0 s) (hva : va < 2 ^ 32) (hlt : ∀ pg, C pg = true → pg < pageCount)
    (hC : C (va / pageSize) = true) (hno : s.walk im.pageDir va % 2 ≠ pagePresent) (hp : s.pmm.Free p)
    (hrm : needed im C s ≤ s.pmm.freeFrames) :
    needed im C (mapPage im s va p) ≤ (mapPage im s va p).pmm.freeFrames ∧
      ∀ x < 2 ^ 32, (mapPage im s va p).walk im.pageDir x =
        if x / pageSize = va / pageSize then pteOf p (pageUser ||| pageWrite) else s.walk im.pageDir x := by
  obtain ⟨hone, htwo⟩ := needed_page hva hC hno
  have htk := Pmm.freeFrames_take hp
  have hmore : s.word im.pageDir (pageDirIdx va) = 0 → ∃ t, (s.pmm.take p).Free t := by
    intro h0
    obtain ⟨t, ht, -⟩ := pmmAlloc_some (show 0 < (s.pmm.take p).freeFrames by omega)
    exact ⟨t, ht⟩
  have hwk : ∀ x < 2 ^ 32, (mapPage im s va p).walk im.pageDir x =
      if x / pageSize = va / pageSize then pteOf p (pageUser ||| pageWrite) else s.walk im.pageDir x := by
    rcases (h.mapPage hva hno hp).2 with hw | ⟨-, h0, hnn⟩
    · exact hw
    · obtain ⟨t, ht⟩ := hmore h0
      exact absurd ht (hnn t)
  refine ⟨?_, hwk⟩
  -- one page less
  have hps : missingPages im C s = missingPages im C (mapPage im s va p) + 1 := by
    refine tally_set (hlt _ hC) (fun pg hpg => ?_) ?_ ?_
    · by_cases hCp : C pg = true
      · have hx : pg * pageSize < 2 ^ 32 := by
          have := hlt pg hCp
          unfold pageCount at this
          unfold pageSize
          omega
        have hsm : (mapPage im s va p).walk im.pageDir (pg * pageSize) = s.walk im.pageDir (pg * pageSize) := by
          rw [hwk _ hx, if_neg fun hc => hpg (page_addr.1 hc)]
        rw [isMapped_congr hsm]
      · rw [Bool.not_eq_true] at hCp
        rw [hCp]
        rfl
    · have hx : va / pageSize * pageSize < 2 ^ 32 := Nat.lt_of_le_of_lt (Nat.div_mul_le_self _ _) hva
      have hm : (mapPage im s va p).pagingIsMapped im (va / pageSize * pageSize) = true := by
        rw [isMapped_iff, hwk _ hx, if_pos (Nat.mul_div_cancel _ (by decide))]
        exact (pteOf_props hp.max (by decide)).1
      rw [hm, hC]
      rfl
    · have hm : s.pagingIsMapped im (va / pageSize * pageSize) = false := by
        rw [isMapped_eq_false, s.walk_page im.pageDir (Nat.mul_div_cancel _ (by decide : 0 < pageSize))]
        exact hno
      rw [hm, hC]
      rfl
  unfold needed at hrm ⊢
  rcases mapPage_tables h hva hno hp hmore with ⟨-, hpmm, hwords⟩ | ⟨h0, hne, hwords, t, ht, hpmm⟩
  · have htables : missingTables im C (mapPage im s va p) = missingTables im C s := by
      unfold missingTables
      simp only [hwords]
    rw [hpmm]
    omega
  -- and one table less
  have htables : missingTables im C s = missingTables im C (mapPage im s va p) + 1 := by
    refine tally_set (pageDirIdx_lt hva) (fun d hd => by rw [hwords d hd]) ?_ ?_
    · rw [decide_eq_false hne, Bool.and_false]
    · rw [inTable_of_page hC, decide_eq_true h0]
      rfl
  have htake2 := Pmm.freeFrames_take ht
  rw [hpmm]
  omega

theorem needed_congr (hlt : ∀ x < 2 ^ 32, s'.walk im.pageDir x = s.walk im.pageDir x)
    (hwd : ∀ d, s'.word im.pageDir d = s.word im.pageDir d) : needed im C s' = needed im C s := by
  have hps : missingPages im C s' = missingPages im C s := by
    refine tally_congr fun pg hpg => ?_
    rw [isMapped_congr (hlt _ ?_)]
    unfold pageCount at hpg
    unfold pageSize
    omega
  unfold needed
  rw [hps]
  unfold missingTables
  simp only [hwd]

/-- With frames enough the pages of a segment get mapped, and what is mapped already stays. -/
theorem Loading.elfPages_all (h : Loading im clones s0 s) (hlt : ∀ pg, C pg = true → pg < pageCount)
    (hn : va + n * pageSize ≤ 2 ^ 32) (hal : pageSize ∣ va) (hC : ∀ j < n, C (va / pageSize + j) = true)
    (hrm : needed im C s ≤ s.pmm.freeFrames) :
    ∃ s', Phys.elfPages im n va s = (true, s') ∧ Loading im clones s0 s' ∧ needed im C s' ≤ s'.pmm.freeFrames ∧
      (∀ x < 2 ^ 32, s.walk im.pageDir x % 2 = pagePresent → s'.walk im.pageDir x = s.walk im.pageDir x ∧
        (0x1000000 ≤ x → s'.load im.pageDir x = s.load im.pageDir x)) ∧
      ∀ x, va ≤ x → x < va + n * pageSize → s'.walk im.pageDir x % 2 = pagePresent := by
  induction n generalizing va s with
  | zero =>
    refine ⟨s, rfl, h, hrm, fun x _ _ => ⟨rfl, fun _ => rfl⟩, fun x h1 h2 => ?_⟩
    omega
  | succ n ih =>
    obtain ⟨hva, hnx⟩ := pages_succ hn
    have hpg : (va + pageSize) / pageSize = va / pageSize + 1 := Nat.add_div_right va (by decide)
    have hC0 : C (va / pageSize) = true := hC 0 (Nat.succ_pos n)
    have hC1 : ∀ j < n, C ((va + pageSize) / pageSize + j) = true := by
      intro j hj
      have := hC (j + 1) (by omega)
      rwa [hpg, show va / pageSize + 1 + j = va / pageSize + (j + 1) by omega]
    have hal1 : pageSize ∣ va + pageSize := Nat.dvd_add hal (Nat.dvd_refl _)
    -- the addresses of the first page
    have hfi : ∀ x, va ≤ x → x < va + pageSize → x / pageSize = va / pageSize := by
      intro x h1 h2
      unfold pageSize at *
      omega
    rcases round_cases im h.base n va with ⟨hm, he, -⟩ | ⟨hno, hnn, -, -⟩ | ⟨hno, p, hp, he, -⟩
    · obtain ⟨s', hs', hl, hr, hkp, hall⟩ := ih h hnx hal1 hC1 hrm
      refine ⟨s', by rw [he]; exact hs', hl, hr, hkp, fun x h1 h2 => ?_⟩
      by_cases hx : x < va + pageSize
      · have hpx : s.walk im.pageDir x % 2 = pagePresent := by
          rw [s.walk_page im.pageDir (hfi x h1 hx)]
          exact hm
        rw [(hkp x (by omega) hpx).1]
        exact hpx
      · exact hall x (by omega) (by rw [Nat.succ_mul] at h2; omega)
    · have := (needed_page hva hC0 hno).1
      have := Pmm.freeFrames_eq_zero.2 hnn
      omega
    obtain ⟨hroom1, hwalk1⟩ := needed_mapPage h hva hlt hC0 hno hp hrm
    have hunt := mapPage_untouched h hva hno hp
    obtain ⟨s', hs', hl, hr, hkp, hall⟩ := ih (h.mapPage hva hno hp).1 hnx hal1 hC1 hroom1
    have hot : ∀ x, s.walk im.pageDir x % 2 = pagePresent → x / pageSize ≠ va / pageSize := by
      intro x hpx hpage
      rw [s.walk_page im.pageDir hpage] at hpx
      exact hno hpx
    refine ⟨s', by rw [he]; exact hs', hl, hr, fun x hx hpx => ?_, fun x h1 h2 => ?_⟩
    · have hw1 : (Elf.mapPage im s va p).walk im.pageDir x = s.walk im.pageDir x := by
        rw [hwalk1 x hx, if_neg (hot x hpx)]
      obtain ⟨hw, hload⟩ := hkp x hx (by rw [hw1]; exact hpx)
      exact ⟨hw.trans hw1, fun hge => (hload hge).trans (hunt x hge hx (hot x hpx)).load⟩
    · by_cases hx : x < va + pageSize
      · have hpx : (Elf.mapPage im s va p).walk im.pageDir x % 2 = pagePresent := by
          rw [hwalk1 x (by omega), if_pos (hfi x h1 hx)]
          exact (pteOf_props hp.max (by decide)).1
        rw [(hkp x (by omega) hpx).1]
        exact hpx
      · exact hall x (by omega) (by rw [Nat.succ_mul] at h2; omega)

end

end

/-! ## Images -/

/-- A segment to load. -/
structure Segment (ph : Phdr) : Prop where
  type : ph.type = ptLoad
  mem : 0 < ph.memsz

instance (ph : Phdr) : Decidable (Segment ph) :=
  decidable_of_iff (ph.type = ptLoad ∧ 0 < ph.memsz) ⟨fun h => ⟨h.1, h.2⟩, fun h => ⟨h.type, h.mem⟩⟩

/-- An i386 executable that keeps to its file and to the addresses of user programs. -/
structure Executable (data : Bytes) (bufsz : Nat) : Prop where
  small : bufsz < 2 ^ 32
  size : elfHdrSize ≤ bufsz
  valid : elfValidate data = 0
  headers : ∀ i < elfPhnum data, data.get32 28 + i * data.get16 42 + elfPhdrSize ≤ bufsz
  segment : ∃ i < elfPhnum data, Segment (elfPhdr data i)
  file : ∀ i < elfPhnum data, Segment (elfPhdr data i) → (elfPhdr data i).offset + (elfPhdr data i).filesz ≤ bufsz
  fits : ∀ i < elfPhnum data, Segment (elfPhdr data i) → (elfPhdr data i).filesz ≤ (elfPhdr data i).memsz
  ge : ∀ i < elfPhnum data, Segment (elfPhdr data i) → 0x1000000 ≤ (elfPhdr data i).vaddr
  le : ∀ i < elfPhnum data, Segment (elfPhdr data i) → (elfPhdr data i).vaddr + (elfPhdr data i).memsz ≤ 0xC0000000
  disjoint : ∀ i < elfPhnum data, ∀ j < elfPhnum data, i ≠ j → Segment (elfPhdr data i) → Segment (elfPhdr data j) →
    (elfPhdr data i).vaddr + (elfPhdr data i).memsz ≤ (elfPhdr data j).vaddr ∨
      (elfPhdr data j).vaddr + (elfPhdr data j).memsz ≤ (elfPhdr data i).vaddr

/-- The pages of the segments. -/
def covered (data : Bytes) (pg : Nat) : Bool :=
  (List.range (elfPhnum data)).any fun i => decide (Segment (elfPhdr data i)) &&
    decide ((elfPhdr data i).vaddr / pageSize ≤ pg ∧
      pg ≤ ((elfPhdr data i).vaddr + (elfPhdr data i).memsz - 1) / pageSize)

/-- The byte a segment has at `k`: of the file, or zero. -/
def segmentByte (data : Bytes) (ph : Phdr) (k : Nat) : UInt8 := if k < ph.filesz then data (ph.offset + k) else 0

/-- No page of a segment is mapped, neither by `paging_map` nor for the processor. -/
def Vacant (im : Image) (s : Phys) (data : Bytes) : Prop :=
  ∀ i < elfPhnum data, Segment (elfPhdr data i) → ∀ k < (elfPhdr data i).memsz,
    s.translate im.pageDir ((elfPhdr data i).vaddr + k) = none ∧ s.translate s.active ((elfPhdr data i).vaddr + k) = none

/-- The image is loaded: what the call returns, and what is in memory afterwards. -/
structure Loaded (data : Bytes) (r : ElfResult) (s' : Phys) : Prop where
  error : r.error = 0
  entry : r.entry = data.get32 24
  base : IsLeast {v | ∃ i < elfPhnum data, Segment (elfPhdr data i) ∧ v = (elfPhdr data i).vaddr} r.loadBase
  last : IsGreatest {v | ∃ i < elfPhnum data, Segment (elfPhdr data i) ∧
    v = (elfPhdr data i).vaddr + (elfPhdr data i).memsz} r.loadEnd
  contents : ∀ i < elfPhnum data, Segment (elfPhdr data i) → ∀ k < (elfPhdr data i).memsz,
    s'.load s'.active ((elfPhdr data i).vaddr + k) = some (segmentByte data (elfPhdr data i) k)
  pages : ∀ i < elfPhnum data, Segment (elfPhdr data i) → ∀ k < (elfPhdr data i).memsz,
    ∃ p, s'.walk s'.active ((elfPhdr data i).vaddr + k) = pteOf p (pageUser ||| pageWrite)

section

variable {im : Image} {clones : List Nat} {s s0 s' : Phys} {data : Bytes} {bufsz : Nat} {ph : Phdr}

/-! ## One segment -/

/-- A segment in user addresses: it is loaded, and its pages are those it covers. -/
structure Placed (ph : Phdr) : Prop extends Segment ph where
  ge : 0x1000000 ≤ ph.vaddr
  le : ph.vaddr + ph.memsz ≤ 0xC0000000

theorem Placed.loads (h : Placed ph) : Phdr.Loads ph := by
  have := h.ge
  have := h.le
  have := h.mem
  exact ⟨h.type, by omega, by omega, by omega⟩

theorem Placed.pages (h : Placed ph) : pageSize ∣ Phdr.vstart ph ∧ 0x1000000 ≤ Phdr.vstart ph ∧
    Phdr.vstart ph ≤ ph.vaddr ∧ ph.vaddr + ph.memsz ≤ Phdr.vstart ph + Phdr.pages ph * pageSize ∧
    Phdr.vstart ph / pageSize = ph.vaddr / pageSize ∧
    Phdr.vstart ph / pageSize + Phdr.pages ph ≤ (ph.vaddr + ph.memsz - 1) / pageSize + 1 := by
  have hge := h.ge
  have hle := h.le
  unfold Phdr.pages Phdr.vstart pageAlign
  unfold u32 pageSize
  refine ⟨Nat.dvd_mul_left _ _, ?_⟩
  omega

theorem Placed.u32 (h : Placed ph) (hk : k ≤ ph.memsz) : u32 (ph.vaddr + k) = ph.vaddr + k := by
  have := h.le
  exact Nat.mod_eq_of_lt (by omega)

theorem copy_eq (hb : bufsz < 2 ^ 32) (hfl : ph.offset + ph.filesz ≤ bufsz) : ph.copy bufsz = ph.filesz := by
  have hoff : u32 (ph.offset + ph.filesz) = ph.offset + ph.filesz := Nat.mod_eq_of_lt (by omega)
  unfold Phdr.copy
  split
  · omega
  · rw [if_neg (by omega)]

/-- One segment is loaded, and leaves all other addresses alone. -/
theorem segment_loaded (h : Loading im clones s0 s) (h0 : SpaceOk im clones s0) (hpl : Placed ph)
    (hb : bufsz < 2 ^ 32) (hfl : ph.offset + ph.filesz ≤ bufsz) (hft : ph.filesz ≤ ph.memsz)
    (hlt : ∀ pg, C pg = true → pg < pageCount)
    (hC : ∀ pg, ph.vaddr / pageSize ≤ pg → pg ≤ (ph.vaddr + ph.memsz - 1) / pageSize → C pg = true)
    (hnew : ∀ k < ph.memsz, Unmapped s0 (ph.vaddr + k)) (hsh : ∀ k < ph.memsz, Shares im s0 (ph.vaddr + k))
    (hrm : needed im C s ≤ s.pmm.freeFrames) (r : ElfResult) :
    ∃ s', elfSegment im data bufsz ph r s = some (true, ElfResult.extend r ph, s') ∧ Loading im clones s0 s' ∧
      needed im C s' ≤ s'.pmm.freeFrames ∧
      (∀ x < 2 ^ 32, s.walk im.pageDir x % 2 = pagePresent → s'.walk im.pageDir x = s.walk im.pageDir x ∧
        (0x1000000 ≤ x → x < ph.vaddr ∨ ph.vaddr + ph.memsz ≤ x → s'.load im.pageDir x = s.load im.pageDir x)) ∧
      ∀ k < ph.memsz, s'.walk im.pageDir (ph.vaddr + k) % 2 = pagePresent ∧
        s'.load im.pageDir (ph.vaddr + k) = some (segmentByte data ph k) := by
  obtain ⟨hal, hvge, hvle, hvend, hvpg, hvcount⟩ := hpl.pages
  have hend := pages_end hpl.loads
  obtain ⟨s1, hps, hl1, hroom1, hkeep1, hall1⟩ := h.elfPages_all hlt (Nat.le_of_lt hend) hal
    (fun j hj => hC _ (by omega) (by omega)) hrm
  -- the bytes of the file
  obtain ⟨s2, hcpy, hl2, hwalk2, hword2, hload2⟩ := hl1.storeBytes_all h0 ph.vaddr (Phdr.bytes ph data)
    (n := ph.filesz) (by omega) (fun k hk => hsh k (by omega)) (fun k hk => hnew k (by omega))
    fun k hk => hall1 _ (by omega) (by omega)
  -- the zeros
  obtain ⟨s3, hset, hl3, hwalk3, hword3, hload3⟩ := hl2.storeBytes_all h0 (ph.vaddr + ph.filesz) (fun _ => 0)
    (n := ph.memsz - ph.filesz) (by omega) (fun k hk => by rw [Nat.add_assoc]; exact hsh _ (by omega))
    (fun k hk => by rw [Nat.add_assoc]; exact hnew _ (by omega)) fun k hk => by
      rw [hwalk2 _ (by omega)]
      exact hall1 _ (by omega) (by omega)
  have hseg : elfSegment im data bufsz ph r s = some (true, ElfResult.extend r ph, s3) := by
    rw [elfSegment_loads hpl.loads, hps, copy_eq hb hfl]
    show (s1.storeBytes _ _ _).bind _ = _
    rw [hcpy, Option.bind_some, hpl.u32 hft]
    show (s2.storeBytes _ _ _).map _ = _
    rw [hset]
    rfl
  have hwk : ∀ x < 2 ^ 32, s3.walk im.pageDir x = s1.walk im.pageDir x :=
    fun x hx => (hwalk3 x hx).trans (hwalk2 x hx)
  refine ⟨s3, hseg, hl3, ?_, fun x hx hpx => ⟨?_, fun hx1 hout => ?_⟩, fun k hk => ⟨?_, ?_⟩⟩
  · have hn : needed im C s3 = needed im C s1 := needed_congr hwk fun d => (hword3 d).trans (hword2 d)
    rw [hn, storeBytes_pmm hset, storeBytes_pmm hcpy]
    exact hroom1
  · rw [hwk x hx]
    exact (hkeep1 x hx hpx).1
  · rw [hload3 x hx1 hx, if_neg (by omega), hload2 x hx1 hx, if_neg (by omega)]
    exact (hkeep1 x hx hpx).2 hx1
  · rw [hwk _ (by omega)]
    exact hall1 _ (by omega) (by omega)
  · rw [hload3 _ (by omega) (by omega)]
    unfold segmentByte
    by_cases hkf : k < ph.filesz
    · rw [if_neg (by omega), hload2 _ (by omega) (by omega), if_pos (by omega), if_pos hkf, Nat.add_sub_cancel_left]
      have hoff : u32 (ph.offset + k) = ph.offset + k := Nat.mod_eq_of_lt (by omega)
      unfold Phdr.bytes
      rw [hoff]
    · rw [if_pos (by omega), if_neg hkf]

/-! ## The loop -/

theorem Executable.placed (h : Executable data bufsz) (hi : i < elfPhnum data) (hs : Segment (elfPhdr data i)) :
    Placed (elfPhdr data i) := ⟨hs, h.ge i hi hs, h.le i hi hs⟩

/-- The loop finds every header in the buffer. -/
theorem Executable.header (h : Executable data bufsz) (hi : i < elfPhnum data) :
    u32 (elfPhoff data i + elfPhdrSize) ≤ bufsz := by
  have hhd := h.headers i hi
  have hsmall := h.small
  have hoff : elfPhoff data i = data.get32 28 + i * data.get16 42 := Nat.mod_eq_of_lt (by omega)
  have hend : u32 (elfPhoff data i + elfPhdrSize) = elfPhoff data i + elfPhdrSize := Nat.mod_eq_of_lt (by omega)
  omega

theorem elfSegment_other (h : ¬ Segment ph) (r : ElfResult) (s : Phys) :
    elfSegment im data bufsz ph r s = some (true, r, s) := by
  unfold elfSegment
  by_cases htype : ph.type = ptLoad
  · have hmem : ph.memsz = 0 := Nat.eq_zero_of_not_pos fun hmem => h ⟨htype, hmem⟩
    rw [if_neg (not_not.2 htype), if_pos hmem]
  · rw [if_pos htype]

theorem covered_iff : covered data pg = true ↔ ∃ i < elfPhnum data, Segment (elfPhdr data i) ∧
    (elfPhdr data i).vaddr / pageSize ≤ pg ∧ pg ≤ ((elfPhdr data i).vaddr + (elfPhdr data i).memsz - 1) / pageSize := by
  unfold covered
  rw [List.any_eq_true]
  constructor
  · rintro ⟨i, hi, hc⟩
    rw [Bool.and_eq_true, decide_eq_true_eq, decide_eq_true_eq] at hc
    exact ⟨i, List.mem_range.1 hi, hc⟩
  · rintro ⟨i, hi, hc⟩
    refine ⟨i, List.mem_range.2 hi, ?_⟩
    rw [Bool.and_eq_true, decide_eq_true_eq, decide_eq_true_eq]
    exact hc

theorem Executable.covered_lt (h : Executable data bufsz) (hc : covered data pg = true) : pg < pageCount := by
  obtain ⟨i, hi, hs, -, hle⟩ := covered_iff.1 hc
  have := h.le i hi hs
  unfold pageCount pageSize at *
  omega

/-- The bounds of the segments among the first `i` headers. -/
structure Bounds (data : Bytes) (i : Nat) (r : ElfResult) : Prop where
  error : r.error = 0
  entry : r.entry = data.get32 24
  base_le : ∀ j < i, Segment (elfPhdr data j) → r.loadBase ≤ (elfPhdr data j).vaddr
  base_mem : r.loadBase = 0xFFFFFFFF ∨ ∃ j < i, Segment (elfPhdr data j) ∧ r.loadBase = (elfPhdr data j).vaddr
  le_last : ∀ j < i, Segment (elfPhdr data j) → (elfPhdr data j).vaddr + (elfPhdr data j).memsz ≤ r.loadEnd
  last_mem : r.loadEnd = 0 ∨ ∃ j < i, Segment (elfPhdr data j) ∧
    r.loadEnd = (elfPhdr data j).vaddr + (elfPhdr data j).memsz

theorem Bounds.start (data : Bytes) : Bounds data 0 (elfStart data) :=
  ⟨rfl, rfl, fun _ hj => absurd hj (Nat.not_lt_zero _), .inl rfl, fun _ hj => absurd hj (Nat.not_lt_zero _), .inl rfl⟩

theorem Bounds.skip (h : Bounds data i r) (hno : ¬ Segment (elfPhdr data i)) : Bounds data (i + 1) r := by
  have hold : ∀ j < i + 1, Segment (elfPhdr data j) → j < i := by
    intro j hj hs
    have : j ≠ i := by
      rintro rfl
      exact hno hs
    omega
  refine ⟨h.error, h.entry, fun j hj hs => h.base_le j (hold j hj hs) hs, h.base_mem.imp_right ?_,
    fun j hj hs => h.le_last j (hold j hj hs) hs, h.last_mem.imp_right ?_⟩
  all_goals
    rintro ⟨j, hj, hs⟩
    exact ⟨j, by omega, hs⟩

theorem Bounds.extend (h : Bounds data i r) (hpl : Placed (elfPhdr data i)) :
    Bounds data (i + 1) (ElfResult.extend r (elfPhdr data i)) := by
  have hu32 := hpl.u32 (Nat.le_refl (elfPhdr data i).memsz)
  unfold ElfResult.extend
  rw [hu32]
  refine ⟨h.error, h.entry, fun j hj hs => ?_, ?_, fun j hj hs => ?_, ?_⟩
  · simp only []
    by_cases hji : j = i
    · subst hji
      split <;> omega
    · have := h.base_le j (by omega) hs
      split <;> omega
  · split
    · exact .inr ⟨i, by omega, hpl.toSegment, rfl⟩
    · exact h.base_mem.imp_right fun ⟨j, hj, hs⟩ => ⟨j, by omega, hs⟩
  · simp only []
    by_cases hji : j = i
    · subst hji
      split <;> omega
    · have := h.le_last j (by omega) hs
      split <;> omega
  · simp only []
    split
    · exact .inr ⟨i, by omega, hpl.toSegment, rfl⟩
    · exact h.last_mem.imp_right fun ⟨j, hj, hs⟩ => ⟨j, by omega, hs⟩

/-- What the loop has done after `i` headers. -/
structure Partly (im : Image) (clones : List Nat) (s0 : Phys) (data : Bytes) (i : Nat) (r : ElfResult) (s : Phys) :
    Prop where
  loading : Loading im clones s0 s
  room : needed im (covered data) s ≤ s.pmm.freeFrames
  bounds : Bounds data i r
  bytes : ∀ j < i, Segment (elfPhdr data j) → ∀ k < (elfPhdr data j).memsz,
    s.walk im.pageDir ((elfPhdr data j).vaddr + k) % 2 = pagePresent ∧
      s.load im.pageDir ((elfPhdr data j).vaddr + k) = some (segmentByte data (elfPhdr data j) k)

theorem Vacant.unmapped (h : Vacant im s data) (hi : i < elfPhnum data) (hs : Segment (elfPhdr data i))
    (hk : k < (elfPhdr data i).memsz) : Unmapped s ((elfPhdr data i).vaddr + k) := unmapped_iff.2 (h i hi hs k hk).2

section

variable (h0 : SpaceOk im clones s0) (hx : Executable data bufsz) (hv : Vacant im s0 data)
include h0 hx hv

theorem Partly.step (hi : i < elfPhnum data)
    (hsh : Segment (elfPhdr data i) → ∀ k < (elfPhdr data i).memsz, Shares im s0 ((elfPhdr data i).vaddr + k))
    (h : Partly im clones s0 data i r s) :
    ∃ r' s', elfSegment im data bufsz (elfPhdr data i) r s = some (true, r', s') ∧
      Partly im clones s0 data (i + 1) r' s' := by
  by_cases hs : Segment (elfPhdr data i)
  · have hpl := hx.placed hi hs
    obtain ⟨s', he, hl, hrm, hkp, hnew⟩ := segment_loaded h.loading h0 hpl hx.small (hx.file i hi hs) (hx.fits i hi hs)
      (fun _ hc => hx.covered_lt hc) (fun pg h1 h2 => covered_iff.2 ⟨i, hi, hs, h1, h2⟩)
      (fun k hk => hv.unmapped hi hs hk) (hsh hs) h.room r
    refine ⟨_, s', he, hl, hrm, h.bounds.extend hpl, fun j hj hsj k hk => ?_⟩
    by_cases hji : j = i
    · subst hji
      exact hnew k hk
    -- an earlier segment, of other addresses
    obtain ⟨hp, hload⟩ := h.bytes j (by omega) hsj k hk
    have hgej := hx.ge j (by omega) hsj
    have hlej := hx.le j (by omega) hsj
    obtain ⟨hw, hsm⟩ := hkp _ (by omega) hp
    have hdis := hx.disjoint j (by omega) i hi hji hsj hs
    exact ⟨by rw [hw]; exact hp, by rw [hsm (by omega) (by omega)]; exact hload⟩
  · refine ⟨r, s, elfSegment_other hs r s, h.loading, h.room, h.bounds.skip hs, fun j hj hsj => ?_⟩
    have hne : j ≠ i := by
      rintro rfl
      exact hs hsj
    exact h.bytes j (by omega) hsj

theorem elfLoop_partly (hrm : needed im (covered data) s0 ≤ s0.pmm.freeFrames)
    (hsh : ∀ i < elfPhnum data, Segment (elfPhdr data i) → ∀ k < (elfPhdr data i).memsz,
      Shares im s0 ((elfPhdr data i).vaddr + k))
    (hn : n ≤ elfPhnum data) :
    ∃ r s, elfLoop im data bufsz n (elfStart data) s0 = some (true, r, s) ∧ Partly im clones s0 data n r s := by
  induction n with
  | zero =>
    exact ⟨elfStart data, s0, rfl, .start h0.owned, hrm, .start data, fun _ hj => absurd hj (Nat.not_lt_zero _)⟩
  | succ n ih =>
    obtain ⟨r, s, hs, hpart⟩ := ih (by omega)
    obtain ⟨r', s', he, hpart'⟩ := hpart.step h0 hx hv (by omega) (hsh n (by omega))
    refine ⟨r', s', ?_, hpart'⟩
    rw [elfLoop, hs]
    simp only []
    rw [if_neg (Nat.not_lt.2 (hx.header hn))]
    exact he

end

/-! ## The call -/

section

variable (h0 : SpaceOk im clones s0) (hx : Executable data bufsz) (hv : Vacant im s0 data)
include h0 hx hv

omit h0 in
theorem Executable.storesFresh : StoresFresh s0 data bufsz := by
  intro i hc hl va v hst
  have hseg : Segment (elfPhdr data i) := ⟨hl.type, Nat.pos_of_ne_zero hl.mem⟩
  have hpl := hx.placed hc.lt hseg
  have hft := hx.fits i hc.lt hseg
  have hcp := copy_eq hx.small (hx.file i hc.lt hseg)
  rcases hst with ⟨k, hk, rfl, -⟩ | ⟨k, hk, rfl, -⟩
  · rw [hpl.u32 (by omega)]
    exact hv.unmapped hc.lt hseg (by omega)
  · rw [hpl.u32 hft, Nat.add_assoc, hpl.u32 (by omega)]
    exact hv.unmapped hc.lt hseg (by omega)

theorem Executable.loading (hs : s0.elfLoadMem im data bufsz = some (r, s')) : Loading im clones s0 s' :=
  Loading.elfLoadMem h0 (hx.storesFresh hv) hs

/-- The bytes of a segment are found only where the directory in CR3 has the table. -/
theorem Loaded.shares (hs : s0.elfLoadMem im data bufsz = some (r, s')) (h : Loaded data r s') (hi : i < elfPhnum data)
    (hseg : Segment (elfPhdr data i)) (hk : k < (elfPhdr data i).memsz) :
    Shares im s0 ((elfPhdr data i).vaddr + k) := by
  by_contra hno
  have hle := hx.le i hi hseg
  have hload := h.contents i hi hseg k hk
  obtain ⟨pa, hpa, -⟩ := Option.map_eq_some_iff.1 hload
  have hp := (translate_eq_some hpa).1
  rw [(hx.loading h0 hv hs).walk_apart h0 (by omega) hno] at hp
  exact hv.unmapped hi hseg hk hp

theorem Partly.loaded (hsh : ∀ i < elfPhnum data, Segment (elfPhdr data i) → ∀ k < (elfPhdr data i).memsz,
      Shares im s0 ((elfPhdr data i).vaddr + k))
    (h : Partly im clones s0 data (elfPhnum data) r s) : r.loadBase ≠ 0xFFFFFFFF ∧ Loaded data r s := by
  obtain ⟨i, hi, hs⟩ := hx.segment
  have hpl := hx.placed hi hs
  have hbs := h.bounds.base_le i hi hs
  have hla := h.bounds.le_last i hi hs
  have hle := hpl.le
  have hmem := hpl.mem
  have hne : r.loadBase ≠ 0xFFFFFFFF := by omega
  have hne0 : r.loadEnd ≠ 0 := by omega
  have hwk : ∀ i < elfPhnum data, Segment (elfPhdr data i) → ∀ k < (elfPhdr data i).memsz,
      s.walk s.active ((elfPhdr data i).vaddr + k) = s.walk im.pageDir ((elfPhdr data i).vaddr + k) := by
    intro i hi hs k hk
    have := hx.le i hi hs
    exact h.loading.walk_shares h0 (by omega) (hsh i hi hs k hk)
  refine ⟨hne, h.bounds.error, h.bounds.entry, ⟨h.bounds.base_mem.resolve_left hne, ?_⟩,
    ⟨h.bounds.last_mem.resolve_left hne0, ?_⟩, fun i hi hs k hk => ?_, fun i hi hs k hk => ?_⟩
  · rintro v ⟨j, hj, hsj, rfl⟩
    exact h.bounds.base_le j hj hsj
  · rintro v ⟨j, hj, hsj, rfl⟩
    exact h.bounds.le_last j hj hsj
  · rw [← (h.bytes i hi hs k hk).2]
    unfold Phys.load Phys.translate
    rw [hwk i hi hs k hk]
  · have hle := hx.le i hi hs
    have hno : s0.walk im.pageDir ((elfPhdr data i).vaddr + k) % 2 ≠ pagePresent := by
      intro hp
      have hnn := (hv i hi hs k hk).1
      unfold Phys.translate at hnn
      rw [if_pos hp] at hnn
      cases hnn
    obtain ⟨p, -, hw⟩ := h.loading.fresh _ (by omega) hno (h.bytes i hi hs k hk).1
    exact ⟨p, (hwk i hi hs k hk).trans hw⟩

theorem Executable.loads (hrm : needed im (covered data) s0 ≤ s0.pmm.freeFrames)
    (hsh : ∀ i < elfPhnum data, Segment (elfPhdr data i) → ∀ k < (elfPhdr data i).memsz,
      Shares im s0 ((elfPhdr data i).vaddr + k)) :
    ∃ r s', s0.elfLoadMem im data bufsz = some (r, s') ∧ Partly im clones s0 data (elfPhnum data) r s' ∧
      Loaded data r s' := by
  obtain ⟨r, s', hlp, hpart⟩ := elfLoop_partly h0 hx hv hrm hsh (Nat.le_refl _)
  obtain ⟨hne, hloaded⟩ := hpart.loaded h0 hx hv hsh
  refine ⟨r, s', ?_, hpart, hloaded⟩
  have hvalid : ¬ elfValidate data < 0 := by
    rw [hx.valid]
    decide
  unfold elfStart at hlp
  unfold Phys.elfLoadMem
  rw [if_neg (Nat.not_lt.2 hx.size), if_neg hvalid, hlp]
  simp only [Option.map_some, if_true, if_neg hne]

end

/-- In every state that is reached from boot, a well-formed image whose pages are not mapped is loaded, if there are frames
enough, exactly if the directory in CR3 is `page_dir` or has the tables of its segments from there. -/
theorem loaded_iff (im : Image) (memKb : Nat) (mem : Nat → Bytes) (ops : List SystemOp) (clones : List Nat) (s : Phys)
    (hrun : Run (SystemStep im) ([], pagingInit im memKb mem) ops (clones, s)) (data : Bytes) (bufsz : Nat)
    (hx : Executable data bufsz) (hv : Vacant im s data) (hroom : needed im (covered data) s ≤ s.pmm.freeFrames) :
    (∃ r s', s.elfLoadMem im data bufsz = some (r, s') ∧ Loaded data r s') ↔
      ∀ i < elfPhnum data, Segment (elfPhdr data i) → ∀ k < (elfPhdr data i).memsz,
        Shares im s ((elfPhdr data i).vaddr + k) := by
  have h0 := (SystemOk.run hrun).toSpaceOk
  constructor
  · rintro ⟨r, s', hs, hl⟩ i hi hseg k hk
    exact hl.shares h0 hx hv hs hi hseg hk
  · intro hsh
    obtain ⟨r, s', hs, -, hl⟩ := hx.loads h0 hv hroom hsh
    exact ⟨r, s', hs, hl⟩

theorem needed_le_two {q : Nat} (h : ∀ pg, C pg = true → pg = q) : needed im C s ≤ 2 := by
  have hps : missingPages im C s ≤ 1 :=
    tally_le_one fun pg _ hpg => h pg (Bool.and_eq_true_iff.1 hpg).1
  have htables : missingTables im C s ≤ 1 := by
    refine tally_le_one (m := q / pageEntries) fun d _ hd => ?_
    obtain ⟨j, hj, hC⟩ := List.any_eq_true.1 (Bool.and_eq_true_iff.1 hd).1
    have hj := List.mem_range.1 hj
    have := h _ hC
    unfold pageEntries at *
    omega
  unfold needed
  omega

end

/-- One byte at 1 GB. -/
def sampleHigh : Bytes := sampleElf 0 0x40000000 1 1

theorem sampleHigh_first (hi : i < elfPhnum sampleHigh) :
    i = 0 ∧ elfPhdr sampleHigh i = ⟨ptLoad, 0, 0x40000000, 1, 1⟩ := by
  have hn : elfPhnum sampleHigh = 1 := by decide
  obtain rfl : i = 0 := by omega
  exact ⟨rfl, rfl⟩

theorem sampleHigh_executable : Executable sampleHigh 84 := by
  refine ⟨by decide, by decide, by decide, fun i hi => ?_, ⟨0, by decide, rfl, by decide⟩, fun i hi _ => ?_, fun i hi _ => ?_,
    fun i hi _ => ?_, fun i hi _ => ?_, fun i hi j hj hne => ?_⟩
  all_goals obtain ⟨rfl, -⟩ := sampleHigh_first hi
  · decide
  · decide
  · decide
  · decide
  · decide
  · exact absurd (sampleHigh_first hj).1.symm hne

theorem sampleHigh_vacant {im : Image} {s : Phys} (hK : s.word im.pageDir 256 = 0) (hact : s.word s.active 256 = 0) :
    Vacant im s sampleHigh := by
  intro i hi _ k hk
  rw [(sampleHigh_first hi).2] at hk ⊢
  have hk : k < 1 := hk
  obtain rfl : k = 0 := by omega
  have hnn : ∀ D, s.word D 256 = 0 → s.translate D 0x40000000 = none := by
    intro D hD
    have hidx : pageDirIdx 0x40000000 = 256 := by decide
    unfold Phys.translate Phys.walk
    simp only [hidx, hD]
    rfl
  exact ⟨hnn _ hK, hnn _ hact⟩

theorem sampleHigh_needed (im : Image) (s : Phys) : needed im (covered sampleHigh) s ≤ 2 := by
  refine needed_le_two (q := 0x40000) fun pg hc => ?_
  obtain ⟨i, hi, -, h1, h2⟩ := covered_iff.1 hc
  rw [(sampleHigh_first hi).2] at h1 h2
  unfold pageSize at h1 h2
  simp only [] at h1 h2
  omega

/-- After boot. -/
theorem loaded_iff_sample :
    Run (SystemStep sampleImage) ([], pagingInit sampleImage 32768 fun _ _ => 0) [] ([], sampleBoot) ∧
      ∃ r s', sampleBoot.elfLoadMem sampleImage sampleHigh 84 = some (r, s') ∧ Loaded sampleHigh r s' := by
  have hact : sampleBoot.active = sampleImage.pageDir := frameIdx_mul _
  have h0 : sampleBoot.word sampleImage.pageDir 256 = 0 := by
    unfold sampleBoot
    rw [pagingInit_dir, if_neg (by decide)]
  have hfr : 0x1B00 ≤ sampleBoot.pmm.freeFrames := sample_freeFrames
  have hneed := sampleHigh_needed sampleImage sampleBoot
  refine ⟨.nil, (loaded_iff sampleImage 32768 (fun _ _ => 0) [] [] sampleBoot .nil sampleHigh 84 sampleHigh_executable
    (sampleHigh_vacant h0 (by rw [hact]; exact h0)) (by omega)).2 fun _ _ _ _ _ => .inl hact⟩

/-- A clone of the directory is in CR3: the image is well formed, its page is not mapped, there are frames, and it is not
loaded. -/
theorem load_misses_clone : ∃ dir s,
    Run (SystemStep sampleImage) ([], pagingInit sampleImage 32768 fun _ _ => 0)
      [.space .clone, .space (.switch (dir * pageSize))] ([dir], s) ∧
      Executable sampleHigh 84 ∧ Vacant sampleImage s sampleHigh ∧
      needed sampleImage (covered sampleHigh) s ≤ s.pmm.freeFrames ∧
      ¬ ∃ r s', s.elfLoadMem sampleImage sampleHigh 84 = some (r, s') ∧ Loaded sampleHigh r s' := by
  have hsp : ∀ w op w', SpaceStep sampleImage w op w' → SystemStep sampleImage w (.space op) w' := fun _ _ _ hs => hs
  have hrun := sampleClone_run.map SystemOp.space hsp
  have hok := (SystemOk.run hrun).toSpaceOk
  have hK : sampleClone.word sampleImage.pageDir 256 = 0 := by decide +kernel
  have h0 : sampleClone.word sampleClone.active 256 = 0 := by decide +kernel
  have hfr := Pmm.four_le_freeFrames (p := sampleClone.pmm) (f := 0x501) (by decide +kernel) (by decide)
  have hact : sampleClone.active = 0x500 := frameIdx_mul _
  have hv := sampleHigh_vacant hK h0
  have hneed := sampleHigh_needed sampleImage sampleClone
  generalize sampleClone = s at *
  refine ⟨0x500, s, hrun, sampleHigh_executable, hv, by omega, ?_⟩
  rintro ⟨r, s', hs, hl⟩
  have hsh := hl.shares hok sampleHigh_executable hv hs (i := 0) (by decide) ⟨rfl, by decide⟩ (k := 0) (by decide)
  rcases hsh with hdir | ⟨-, hne⟩
  · have hD : s.active ∈ [0x500] := by
      rw [hact]
      exact List.mem_cons_self
    exact hok.owned.ne_image (u := .dir s.active) hD sampleImage.dir_image.2 hdir.symm
  · exact hne h0

end KumOS.Elf
