import KumOS.Elf.Touches
import KumOS.Paging.System

/-!
# What `elf_load_mem` leaves alone

A page that is mapped already is used as it is, and below 16 MB every page is mapped,
to a frame that `pmm_alloc` may well have handed out for something else, or may still
hand out.  So a load disturbs nothing if no byte of a segment is in a page that is mapped
(`undisturbed_iff`): all other pages get frames that were free, and these are in use from
then on.  What is stored goes through the directory in CR3, which may be a clone; there a
new page is found only in a table that `page_dir` has too.
-/

namespace KumOS.Elf

open Lib Paging Paging.Phys
open Lib.Logged (Spec after)
open Vm (pageDirIdx)

variable {n x : Nat} {src : Nat → UInt8}

/-! ## One page -/

/-- The page of `va` gets frame `p`, cleared. -/
def mapPage (im : Image) (s : Phys) (va p : Nat) : Phys :=
  (({ s with pmm := s.pmm.take p } : Phys).zeroFrame p).pagingMap im va (p * pageSize) (pageUser ||| pageWrite)

section

variable {im : Image} {clones : List Nat} {s s0 s1 s' : Phys} {va p : Nat}

theorem isMapped_iff : s.pagingIsMapped im va = true ↔ s.walk im.pageDir va % 2 = pagePresent := by
  rw [pagingIsMapped_eq]
  unfold Phys.translate
  split
  · rename_i h
    exact iff_of_true rfl h
  · rename_i h
    exact iff_of_false Bool.false_ne_true h

/-- One round of the loop over the pages: the page is mapped, there is no frame, or it gets one. -/
theorem round_cases (im : Image) (hbs : 0 < s.pmm.baseFrame) (n va : Nat) :
    (s.walk im.pageDir va % 2 = pagePresent ∧ elfPages im (n + 1) va s = elfPages im n (va + pageSize) s ∧
      pagesLog im (n + 1) va s = pagesLog im n (va + pageSize) s) ∨
    (s.walk im.pageDir va % 2 ≠ pagePresent ∧ (∀ i, ¬ s.pmm.Free i) ∧ elfPages im (n + 1) va s = (false, s) ∧
      pagesLog im (n + 1) va s = .pure (false, s)) ∨
    (s.walk im.pageDir va % 2 ≠ pagePresent ∧ ∃ p, s.pmm.Free p ∧
      elfPages im (n + 1) va s = elfPages im n (va + pageSize) (mapPage im s va p) ∧
      pagesLog im (n + 1) va s = after (.clear p :: tableTouch im ((s.take p).zeroFrame p) va)
        (pagesLog im n (va + pageSize) (mapPage im s va p))) := by
  rw [elfPages, pagesLog]
  by_cases hm : s.pagingIsMapped im va = true
  · rw [if_pos hm, if_pos hm]
    exact .inl ⟨isMapped_iff.1 hm, rfl, rfl⟩
  have hno : s.walk im.pageDir va % 2 ≠ pagePresent := fun h => hm (isMapped_iff.2 h)
  rw [if_neg hm, if_neg hm]
  rcases pmmAlloc_cases s.pmm with ⟨he, hnn⟩ | ⟨p, hp, -, he⟩
  · rw [he]
    exact .inr (.inl ⟨hno, hnn, rfl, rfl⟩)
  · rw [he]
    simp only [if_neg (hp.addr_ne hbs), frameIdx_mul]
    exact .inr (.inr ⟨hno, p, hp, rfl, rfl⟩)

/-- The table of a page: it is there, or it is made of a free frame. -/
theorem ptePtrAlloc_grows (hdir : ¬ s.pmm.Free im.pageDir) (va : Nat) :
    (∀ f, f ≠ im.pageDir → ¬ s.pmm.Free f → (s.ptePtrAlloc im va).2.mem f = s.mem f) ∧
    (∀ d, d ≠ pageDirIdx va → (s.ptePtrAlloc im va).2.word im.pageDir d = s.word im.pageDir d) ∧
    ∀ f i, (s.ptePtrAlloc im va).1 = some (f, i) →
      (s.word im.pageDir (pageDirIdx va) % 2 = pagePresent ∧ s.ptePtrAlloc im va = (some (f, i), s) ∧
        f = s.word im.pageDir (pageDirIdx va) / pageSize) ∨
      (s.pmm.Free f ∧ (s.ptePtrAlloc im va).2.word im.pageDir (pageDirIdx va) / pageSize = f) := by
  unfold ptePtrAlloc
  by_cases hp : s.word im.pageDir (pageDirIdx va) % 2 = pagePresent
  · rw [if_pos hp]
    refine ⟨fun _ _ _ => rfl, fun _ _ => rfl, fun f i he => .inl ⟨hp, ?_, ?_⟩⟩
    · cases he
      rfl
    · cases he
      rfl
  rw [if_neg hp]
  rcases pmmAlloc_cases s.pmm with ⟨he, -⟩ | ⟨t, ht, -, he⟩
  · rw [he, if_pos rfl]
    exact ⟨fun _ _ _ => rfl, fun _ _ => rfl, fun f i h => by cases h⟩
  rw [he]
  by_cases h0 : t * pageSize = 0
  · rw [if_pos h0]
    exact ⟨fun _ _ _ => rfl, fun _ _ => rfl, fun f i h => by cases h⟩
  simp only [if_neg h0, frameIdx_mul]
  have hor : t * pageSize ||| pagePresent ||| pageWrite = t * pageSize + 3 := or_present_write t
  have hlt : t * pageSize + 3 < 2 ^ 32 := by
    have := ht.max
    unfold pageSize
    omega
  have hdiv : (t * pageSize + 3) / pageSize = t := by
    unfold pageSize
    omega
  have hsf := word_setWord_self ((s.take t).zeroFrame t) (f := im.pageDir)
    (i := pageDirIdx va) hlt
  rw [hor]
  refine ⟨fun f hne hf => ?_, fun d hd => ?_, fun f i h => ?_⟩
  · refine (mem_setWord_ne _ hne _ _).trans (mem_zeroFrame_ne _ ?_)
    rintro rfl
    exact hf ht
  · rw [word_setWord_ne _ _ (.inr hd)]
    refine word_congr (mem_zeroFrame_ne _ ?_) d
    intro he
    exact hdir (by rw [he]; exact ht)
  · rw [hsf, hdiv] at h
    cases h
    exact .inr ⟨ht, by rw [hsf, hdiv]⟩

/-! ## The state during a load -/

/-- What holds of the state `s` while an image is loaded, `s0` being the state before the call. -/
structure Loading (im : Image) (clones : List Nat) (s0 s : Phys) : Prop where
  owned : Owned im clones s
  cr3 : s.active = s0.active
  takes : Takes s0 s
  /-- pages that were mapped are mapped as they were -/
  kept : ∀ x < 2 ^ 32, s0.walk im.pageDir x % 2 = pagePresent → s.walk im.pageDir x = s0.walk im.pageDir x
  /-- the others have frames that were free, for user code to write -/
  fresh : ∀ x < 2 ^ 32, s0.walk im.pageDir x % 2 ≠ pagePresent → s.walk im.pageDir x % 2 = pagePresent →
    ∃ p, s0.pmm.Free p ∧ s.walk im.pageDir x = pteOf p (pageUser ||| pageWrite)
  dir : ∀ d, s0.word im.pageDir d ≠ 0 → s.word im.pageDir d = s0.word im.pageDir d
  /-- a table is one of before, or made of a frame that was free -/
  tables : ∀ d, HasTable im clones s im.pageDir d → s.word im.pageDir d = s0.word im.pageDir d ∨
    s0.pmm.Free (s.word im.pageDir d / pageSize)
  /-- frames that were not free, apart from the directory and its tables -/
  mem : ∀ f, ¬ s0.pmm.Free f → f ≠ im.pageDir →
    (∀ d, HasTable im clones s0 im.pageDir d → s0.word im.pageDir d / pageSize ≠ f) → s.mem f = s0.mem f

theorem Loading.start (h : Owned im clones s) : Loading im clones s s :=
  ⟨h, rfl, fun _ hf => hf, fun _ _ _ => rfl, fun _ _ hn hp => absurd hp hn, fun _ _ => rfl, fun _ _ => .inl rfl,
    fun _ _ _ _ => rfl⟩

theorem dir_held (h : Owned im clones s) : ¬ s.pmm.Free im.pageDir := fun hf => by
  have := (h.free hf).1
  have := im.dir_image
  omega

theorem ge_of_unmapped (h : Owned im clones s) (hno : s.walk im.pageDir va % 2 ≠ pagePresent) : 0x1000000 ≤ va := by
  apply Nat.le_of_not_lt
  intro hlow
  apply hno
  rw [h.walk_low hlow]
  unfold pageSize pagePresent
  omega

section

variable (h : Loading im clones s0 s)
include h

/-- The frames of a state with one frame taken and cleared. -/
theorem Loading.cleared (hp : s.pmm.Free p) :
    Loading im clones s0 ((s.take p).zeroFrame p) ∧
      Spare im clones ((s.take p).zeroFrame p) p ∧
      (∀ x < 2 ^ 32, ((s.take p).zeroFrame p).walk im.pageDir x = s.walk im.pageDir x) ∧
      ∀ d, ((s.take p).zeroFrame p).word im.pageDir d = s.word im.pageDir d := by
  obtain ⟨hown1, hspare1⟩ := h.owned.take hp
  obtain ⟨hown2, hwk, hspare2⟩ := hown1.zeroSpare hspare1
  have hp0 := h.takes p hp
  have hne : im.pageDir ≠ p := fun he => dir_held h.owned (by rw [he]; exact hp)
  have hwd : ∀ d, ((s.take p).zeroFrame p).word im.pageDir d = s.word im.pageDir d :=
    fun d => word_congr (mem_zeroFrame_ne _ hne) d
  have hw : ∀ x < 2 ^ 32, ((s.take p).zeroFrame p).walk im.pageDir x =
      s.walk im.pageDir x := hwk
  refine ⟨⟨hown2, h.cr3, fun f hf => h.takes f (free_of_take hf), fun x hx hpr => ?_, fun x hx hno hpr => ?_,
    fun d h0 => (hwd d).trans (h.dir d h0), fun d ht => ?_, fun f hf hfd hft => ?_⟩, hspare2 p hspare1, hw, hwd⟩
  · rw [hw x hx]
    exact h.kept x hx hpr
  · rw [hw x hx] at hpr ⊢
    exact h.fresh x hx hno hpr
  · rw [hwd]
    exact h.tables d ⟨ht.dir, ht.own, ht.lt, by rw [← hwd]; exact ht.ne⟩
  · have hfp : f ≠ p := by
      rintro rfl
      exact hf hp0
    refine (mem_zeroFrame_ne _ hfp).trans ?_
    exact h.mem f hf hfd hft

theorem Loading.mapPage (hva : va < 2 ^ 32) (hno : s.walk im.pageDir va % 2 ≠ pagePresent)
    (hp : s.pmm.Free p) : Loading im clones s0 (Elf.mapPage im s va p) ∧
      ((∀ x < 2 ^ 32, (Elf.mapPage im s va p).walk im.pageDir x =
          if x / pageSize = va / pageSize then pteOf p (pageUser ||| pageWrite) else s.walk im.pageDir x) ∨
        Elf.mapPage im s va p = ((s.take p).zeroFrame p) ∧
          s.word im.pageDir (pageDirIdx va) = 0 ∧ ∀ t, ¬ (s.pmm.take p).Free t) := by
  have hge := ge_of_unmapped h.owned hno
  have hp0 := h.takes p hp
  obtain ⟨h2, hspr, hwalk2, hwd⟩ := h.cleared hp
  have hpmm2 : ((s.take p).zeroFrame p).pmm = s.pmm.take p := rfl
  unfold Elf.mapPage
  generalize ((s.take p).zeroFrame p) = s2 at *
  have hf : pageUser ||| pageWrite < 4096 := by decide
  obtain ⟨hgmem, hgword, hgtab⟩ := ptePtrAlloc_grows (dir_held h2.owned) va
  rcases h2.owned.ptePtrAlloc hge hva with ⟨he, h0, hnn⟩ | ⟨s3, he, hg⟩
  · -- no frame for the table, and nothing is entered
    have hsm : s2.pagingMap im va (p * pageSize) (pageUser ||| pageWrite) = s2 := by
      unfold pagingMap
      rw [he]
    rw [hsm]
    exact ⟨h2, .inr ⟨rfl, by rw [← hwd]; exact h0, by rw [← hpmm2]; exact hnn⟩⟩
  have htab : (s2.ptePtrAlloc im va).1 ≠ none := by
    rw [he]
    exact Option.some_ne_none _
  have hwk : ∀ x < 2 ^ 32, (s2.pagingMap im va (p * pageSize) (pageUser ||| pageWrite)).walk im.pageDir x =
      if x / pageSize = va / pageSize then pteOf p (pageUser ||| pageWrite) else s.walk im.pageDir x := by
    intro x hx
    rw [h2.owned.walk_pagingMap hge hva hf hspr htab hx, hwalk2 x hx]
  have hown := h2.owned.pagingMap hge hva hf hspr
  have hmap := pagingMap_eq he (p * pageSize) (pageUser ||| pageWrite)
  have hcr3 : (s2.pagingMap im va (p * pageSize) (pageUser ||| pageWrite)).active = s0.active :=
    (pagingMap_active s2 im va _ _).trans h2.cr3
  have htakes : Takes s0 (s2.pagingMap im va (p * pageSize) (pageUser ||| pageWrite)) := by
    exact h2.takes.trans (takes_pagingMap im s2 va _ _)
  -- the table is one of before, or its frame was free
  have hfe := hgtab _ _ (congrArg Prod.fst he)
  rw [he] at hgmem hgword hfe
  have hdir := hg.word_pagingMap he (p * pageSize) (pageUser ||| pageWrite)
  refine ⟨⟨hown, hcr3, htakes, fun x hx hpr => ?_, fun x hx hn hpr => ?_, fun d h0 => ?_, fun d ht => ?_,
    fun f hf hfd hft => ?_⟩, .inl hwk⟩
  · have hx0 := h.kept x hx hpr
    rw [hwk x hx, if_neg, hx0]
    intro hpg
    apply hno
    rw [← walk_page s im.pageDir hpg, hx0]
    exact hpr
  · rw [hwk x hx] at hpr ⊢
    by_cases hpg : x / pageSize = va / pageSize
    · rw [if_pos hpg]
      exact ⟨p, hp0, rfl⟩
    · rw [if_neg hpg] at hpr ⊢
      exact h.fresh x hx hn hpr
  · have h2d := h2.dir d h0
    rw [hdir, hg.dir d (by rw [h2d]; exact h0), h2d]
  · rw [hdir] at *
    by_cases hd : d = pageDirIdx va
    · rw [hd]
      rcases hfe with ⟨-, hs, -⟩ | ⟨hfr, -⟩
      · cases hs
        have ht3 := hg.table
        exact h2.tables _ ht3
      · exact .inr (h2.takes _ hfr)
    · have hw : s3.word im.pageDir d = s2.word im.pageDir d := hgword d hd
      rw [hw]
      refine h2.tables d ⟨ht.dir, ht.own, ht.lt, ?_⟩
      rw [← hw, ← hdir]
      exact ht.ne
  · rw [hmap]
    have hne3 : f ≠ s3.word im.pageDir (pageDirIdx va) / pageSize := by
      rintro rfl
      rcases hfe with ⟨-, hs, -⟩ | ⟨hfr, -⟩
      · cases hs
        rcases h2.tables _ hg.table with he0 | hfr
        · have ht0 : HasTable im clones s0 im.pageDir (pageDirIdx va) :=
            ⟨hg.table.dir, hg.table.own, hg.table.lt, by rw [← he0]; exact hg.table.ne⟩
          exact hft _ ht0 (by rw [he0])
        · exact hf hfr
      · exact hf (h2.takes _ hfr)
    refine (mem_setWord_ne s3 hne3 _ _).trans ((hgmem f hfd fun hfr => hf (h2.takes _ hfr)).trans ?_)
    exact h2.mem f hf hfd hft

theorem Loading.base : 0 < s.pmm.baseFrame := by
  rw [h.owned.base]
  decide

theorem Loading.elfPages (hn : va + n * pageSize ≤ 2 ^ 32) : Loading im clones s0 (elfPages im n va s).2 := by
  induction n generalizing va s with
  | zero => exact h
  | succ n ih =>
    obtain ⟨hva, hnx⟩ := pages_succ hn
    rcases round_cases im h.base n va with ⟨-, he, -⟩ | ⟨-, -, he, -⟩ | ⟨hno, p, hp, he, -⟩
    · rw [he]
      exact ih h hnx
    · rw [he]
      exact h
    · rw [he]
      exact ih (h.mapPage hva hno hp).1 hnx

/-- A clone has the new pages of the tables that it shares with `page_dir`, and no others. -/
theorem Loading.walk_clone (h0 : Owned im clones s0) {D : Nat} (hD : D ∈ clones) (hx : x < 2 ^ 32) : s.walk D x =
      if s0.word D (pageDirIdx x) = s0.word im.pageDir (pageDirIdx x) ∧ s0.word D (pageDirIdx x) ≠ 0 then
        s.walk im.pageDir x else s0.walk D x := by
  have hK : D ≠ im.pageDir := (h0.ne_image (u := .dir D) hD im.dir_image.2).symm
  have hwd : ∀ d, s.word D d = s0.word D d := by
    intro d
    refine word_congr (h.mem D (fun hf => h0.refs (.dir D) hD hf.zero) hK fun e ht => ?_) d
    exact (h0.dir_ne ht (.inr hD)).symm
  by_cases he : s0.word D (pageDirIdx x) = 0
  · have hze : ∀ t : Phys, t.word D (pageDirIdx x) = 0 → t.walk D x = 0 := by
      intro t ht
      unfold walk
      rw [ht]
      rfl
    rw [if_neg fun hc => hc.2 he, hze s (by rw [hwd]; exact he), hze s0 he]
  by_cases hdi : pageDirIdx x < 256
  · -- a table of `page_dir`
    have hsm := (h0.shared D hD _ hdi).resolve_left he
    have hdir := h.dir (pageDirIdx x) (by rw [← hsm]; exact he)
    rw [if_pos ⟨hsm, he⟩]
    unfold walk
    rw [hwd, hdir, hsm]
  -- a table of its own
  obtain ⟨ht, hne⟩ := h0.clone_table hD (by omega) (pageDirIdx_lt hx) he
  rw [if_neg fun hc => hne hc.1]
  refine walk_congr (hwd _) (word_congr (h.mem _ (fun hf => h0.refs (.table D _) ht hf.zero) ?_ fun e hte => ?_) _)
  · exact (h0.ne_image (u := .table D (pageDirIdx x)) ht im.dir_image.2).symm
  · exact h0.table_ne ht hte fun hc => hK hc.1.symm

theorem Loading.walk_shares (h0 : SpaceOk im clones s0) (hx : x < 2 ^ 32)
    (hsh : Shares im s0 x) : s.walk s.active x = s.walk im.pageDir x := by
  rw [h.cr3]
  rcases hsh with hK | hsh
  · rw [hK]
  · rcases h0.cr3 with hK | hD
    · rw [hK]
    · rw [h.walk_clone h0.owned hD hx, if_pos hsh]

theorem Loading.walk_apart (h0 : SpaceOk im clones s0) (hx : x < 2 ^ 32)
    (hsh : ¬ Shares im s0 x) : s.walk s.active x = s0.walk s0.active x := by
  have hD : s0.active ∈ clones := h0.cr3.resolve_left fun hK => hsh (.inl hK)
  rw [h.cr3, h.walk_clone h0.owned hD hx, if_neg fun hc => hsh (.inr hc)]

end

/-- The processor finds no page at `x`. -/
def Unmapped (s0 : Phys) (x : Nat) : Prop := s0.walk s0.active x % 2 ≠ pagePresent

theorem unmapped_iff : Unmapped s0 va ↔ s0.translate s0.active va = none := by
  unfold Unmapped Phys.translate
  split
  · rename_i hp
    exact iff_of_false (fun hn => hn hp) (Option.some_ne_none _)
  · rename_i hn
    exact iff_of_true hn rfl

section

variable (h : Loading im clones s0 s) (h0 : SpaceOk im clones s0) (hva : va < 2 ^ 32) (hno : Unmapped s0 va)
include h h0 hva hno

/-- A page that is found now and was not before is one that `page_dir` has got. -/
theorem Loading.found (hpr : s.walk s.active va % 2 = pagePresent) :
    s.walk s.active va = s.walk im.pageDir va ∧ s0.walk im.pageDir va % 2 ≠ pagePresent := by
  have hsh : Shares im s0 va := by
    by_contra hsh
    rw [h.walk_apart h0 hva hsh] at hpr
    exact hno hpr
  refine ⟨h.walk_shares h0 hva hsh, ?_⟩
  rw [← hsh.walk]
  exact hno

/-- A store to a page that was not mapped before: its frame is in use, and was free. -/
theorem Loading.store {b : UInt8} (hst : s.store s.active va b = some s') :
    Loading im clones s0 s' ∧ s0.pmm.Free (s.walk s.active va / pageSize) ∧
      ¬ s.pmm.Free (s.walk s.active va / pageSize) := by
  have hpr : s.walk s.active va % 2 = pagePresent := by
    obtain ⟨pa, hpa, -⟩ := Option.map_eq_some_iff.1 hst
    exact (translate_eq_some hpa).1
  obtain ⟨hsm, hnoK⟩ := h.found h0 hva hno hpr
  have hge := ge_of_unmapped h0.owned hnoK
  rw [store_eq hpr] at hst
  cases hst
  rw [hsm] at hpr ⊢
  have hfr : s0.pmm.Free (s.walk im.pageDir va / pageSize) := by
    obtain ⟨p, hp, hw⟩ := h.fresh va hva hnoK hpr
    rw [hw, (pteOf_props hp.max (by decide)).2.1]
    exact hp
  have hpg := h.owned.pageFrame hge hva hpr
  obtain ⟨hown, hwk, -⟩ := h.owned.store hge hva (store_eq (b := b) hpr)
  have hwd : ∀ e, (s.poke (s.walk im.pageDir va / pageSize) (va % pageSize) b).word im.pageDir e =
      s.word im.pageDir e := fun e => word_congr (mem_poke_ne s hpg.ne_dir.symm _ b) e
  refine ⟨⟨hown, h.cr3, h.takes, fun x hx hpx => ?_, fun x hx hn hpx => ?_, fun d hd => (hwd d).trans (h.dir d hd),
    fun d ht => ?_, fun f hf hfd hft => ?_⟩, hfr, fun hc => hpg.refs hc.zero⟩
  · rw [hwk x hx]
    exact h.kept x hx hpx
  · rw [hwk x hx] at hpx ⊢
    exact h.fresh x hx hn hpx
  · rw [hwd]
    exact h.tables d ⟨ht.dir, ht.own, ht.lt, by rw [← hwd]; exact ht.ne⟩
  · refine (mem_poke_ne s ?_ _ b).trans (h.mem f hf hfd hft)
    rintro rfl
    exact hf hfr

end

theorem u32_lt (x : Nat) : u32 x < 2 ^ 32 := Nat.mod_lt _ (by decide)

/-! ## What is stored -/

/-- A page that was mapped before is not stored to, nor is a frame that `pmm_alloc` may still hand out; and what is cleared
was free. -/
def Touch.Fresh (s0 : Phys) : Touch → Prop
  | .read _ => True
  | .clear f => s0.pmm.Free f
  | .table f => s0.pmm.Free f
  | .store _ va _ free => s0.translate s0.active va = none ∧ free = false

/-- The bytes of the segments are for addresses where no page is mapped. -/
def StoresFresh (s0 : Phys) (data : Bytes) (bufsz : Nat) : Prop :=
  ∀ i, Comes data bufsz i → Phdr.Loads (elfPhdr data i) → ∀ va v, Stores data bufsz (elfPhdr data i) va v → Unmapped s0 va

section

variable {data : Bytes} {bufsz : Nat} {ph : Phdr}

theorem Stores.lt {v : UInt8} (h : Stores data bufsz ph va v) : va < 2 ^ 32 := by
  rcases h with ⟨k, -, rfl, -⟩ | ⟨k, -, rfl, -⟩
  · exact u32_lt _
  · exact u32_lt _

/-- One byte for a page that was not mapped: the frame is that of a new page, so it is in use. -/
theorem Loading.storeLog {v : UInt8} (h : Loading im clones s0 s) (h0 : SpaceOk im clones s0) (hva : va < 2 ^ 32)
    (hno : Unmapped s0 va) : Spec (storeLog ph s va v) (Touch.Fresh s0) (Loading im clones s0) := by
  refine ⟨fun t ht => ?_, fun s1 h1 => (h.store h0 hva hno ((result_storeLog ph s va v).symm.trans h1)).1⟩
  unfold Elf.storeLog at ht
  cases hpa : s.translate s.active va with
  | none =>
    rw [hpa] at ht
    cases ht
  | some pa =>
    rw [hpa] at ht
    rw [List.mem_singleton.1 ht]
    obtain ⟨hpr, -, hfe⟩ := translate_eq_some hpa
    obtain ⟨-, hwas, hnot⟩ := h.store h0 hva hno (store_eq (b := 0) hpr)
    refine ⟨unmapped_iff.1 hno, ?_⟩
    rw [Bool.eq_false_iff, hfe]
    exact fun hfr => hnot ((Pmm.isFree_iff hwas.max).1 hfr)

theorem Loading.pagesLog (h : Loading im clones s0 s) (hl : Phdr.Loads ph) :
    Spec (pagesLog im (Phdr.pages ph) (Phdr.vstart ph) s) (Touch.Fresh s0) fun o => Loading im clones s0 o.2 where
  events := by
    intro t ht
    obtain ⟨f, rfl | rfl, hf⟩ := (pagesLog_takes _ _ h.takes).events t ht
    · exact hf
    · exact hf
  result := by
    intro o ho
    rw [result_pagesLog] at ho
    cases ho
    exact h.elfPages (Nat.le_of_lt (pages_end hl))

/-- While the bytes are stored where nothing was mapped, the load disturbs nothing. -/
theorem StoresFresh.elfLog (h : StoresFresh s0 data bufsz) (h0 : SpaceOk im clones s0) :
    Spec (elfLog im s0 data bufsz) (Touch.Fresh s0) fun o => Loading im clones s0 o.2 := by
  refine elfLog_spec (.start h0.owned) (fun _ _ => trivial) fun i r s1 hc h1 => ?_
  refine segmentLog_spec h1 (fun f _ t ht => ?_) (fun hl => h1.pagesLog hl) fun hl s2 h2 => ?_
  · obtain ⟨j, -, rfl⟩ := List.mem_map.1 ht
    trivial
  · exact bodyLog_spec h2 (fun _ _ => trivial) fun va v s3 hst h3 => h3.storeLog h0 hst.lt (h i hc hl va v hst)

theorem Loading.elfLoadMem (h0 : SpaceOk im clones s0) (h : StoresFresh s0 data bufsz) {r : ElfResult}
    (hs : s0.elfLoadMem im data bufsz = some (r, s')) : Loading im clones s0 s' :=
  (h.elfLog h0).result (r, s') ((result_elfLog im s0 data bufsz).trans hs)

end

/-- A load disturbs nothing: what it stores goes to new pages, and the pages, the frames in use and the tables of
before are as they were, but for the new entries. -/
structure Undisturbed (im : Image) (clones : List Nat) (s : Phys) (data : Bytes) (bufsz : Nat) : Prop where
  stores : ∀ t ∈ elfTouches im s data bufsz, t.Fresh s
  pages : ∀ r s', s.elfLoadMem im data bufsz = some (r, s') → ∀ D, D = im.pageDir ∨ D ∈ clones → ∀ x < 2 ^ 32,
    s.walk D x % 2 = pagePresent → s'.walk D x = s.walk D x
  memory : ∀ r s', s.elfLoadMem im data bufsz = some (r, s') → ∀ f, ¬ s.pmm.Free f → f ≠ im.pageDir →
    (∀ d, HasTable im clones s im.pageDir d → s.word im.pageDir d / pageSize ≠ f) → s'.mem f = s.mem f

theorem Loading.kept_dir (h : Loading im clones s0 s) (h0 : SpaceOk im clones s0) {D : Nat}
    (hD : D = im.pageDir ∨ D ∈ clones) (hx : x < 2 ^ 32) (hp : s0.walk D x % 2 = pagePresent) :
    s.walk D x = s0.walk D x := by
  rcases hD with rfl | hD
  · exact h.kept x hx hp
  rw [h.walk_clone h0.owned hD hx]
  split
  · rename_i hsh
    have hsm : s0.walk D x = s0.walk im.pageDir x := by
      unfold walk
      rw [hsh.1]
    rw [hsm] at hp ⊢
    exact h.kept x hx hp
  · rfl

end

end KumOS.Elf
