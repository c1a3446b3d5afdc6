import KumOS.Paging.Untouched

/-!
# The loops of `vmalloc` and `vmfree`

A round of the loop of `vmalloc` takes a frame, maps it and clears it.  It can fail
for want of a frame for the page, and it stops the machine for want of one for the
page's table (`starves` is either).  Both loops work on their own pages and leave
all others alone.
-/

namespace KumOS.Paging

open Lib
open Vm (pageDirIdx pageTblIdx)
open Phys (mapLoop storeBytes unmapLoop)

variable {done n p va virt : Nat}

namespace Phys

/-! ## Pages of a region -/

/-- The page of `x` is mapped writable, to a frame with one reference. -/
def Backed (im : Image) (s : Phys) (x : Nat) : Prop :=
  ∃ p < 65536, s.walk im.pageDir x = pteOf p pageWrite ∧ s.pmm.refs p = 1

/-- It is, and contains zeros. -/
def Blank (im : Image) (s : Phys) (x : Nat) : Prop :=
  Backed im s x ∧ ∀ o < pageSize, s.mem (s.walk im.pageDir x / pageSize) o = 0

/-- The page of `x` is mapped to frame `f`. -/
def MapsTo (im : Image) (s : Phys) (x f : Nat) : Prop :=
  s.walk im.pageDir x % 2 = pagePresent ∧ s.walk im.pageDir x / pageSize = f

section

variable {im : Image} {memKb : Nat} {s s' : Phys} {x : Nat}

theorem Backed.entry (h : Backed im s x) : s.walk im.pageDir x % 2 = pagePresent ∧
    s.pmm.refs (s.walk im.pageDir x / pageSize) = 1 := by
  obtain ⟨p, hp, hw, hr⟩ := h
  obtain ⟨hodd, hdiv, -, -⟩ := pteOf_props hp (show pageWrite < 4096 by decide)
  rw [hw, hdiv]
  exact ⟨hodd, hr⟩

theorem SamePage.backed (h : SamePage im s s' x) (hb : Backed im s x) : Backed im s' x := by
  obtain ⟨hpr, -⟩ := hb.entry
  have hrf := h.refs hpr
  obtain ⟨p, hp, hw, hr⟩ := hb
  obtain ⟨-, hdiv, -, -⟩ := pteOf_props hp (show pageWrite < 4096 by decide)
  rw [hw, hdiv] at hrf
  exact ⟨p, hp, h.walk.trans hw, hrf.trans hr⟩

/-! ## The loop of `vmalloc` -/

theorem storeBytes_unmapped (hva : va < 2 ^ 32) (hp : s.walk s.active va % 2 ≠ pagePresent) (src : Nat → UInt8)
    (n : Nat) : s.storeBytes va src (n + 1) = none := by
  induction n with
  | zero =>
    have hu32 : u32 (va + 0) = va := Nat.mod_eq_of_lt hva
    rw [storeBytes, storeBytes, Option.bind_some, hu32]
    unfold Phys.store translate
    rw [if_neg hp]
    rfl
  | succ n ih =>
    rw [storeBytes, ih]
    rfl

/-- What one round leaves: the page is there and blank. -/
structure Round (im : Image) (memKb : Nat) (s s' : Phys) (va : Nat) : Prop where
  ok : MemOk im memKb s'
  rest : SameRegions s s'
  other : Untouched im (fun pg => pg = va / pageSize) s s'
  page : Blank im s' va

section

variable (h : MemOk im memKb s)
include h

theorem MemOk.round (hp : s.pmm.Free p) (hge : 0x1000000 ≤ va) (hva : va < 2 ^ 32)
    (hal : pageSize ∣ va) (htab : ((s.take p).ptePtrAlloc im va).1 ≠ none) :
    ∃ s', (((s.take p).pagingMap im va (p * pageSize) pageWrite).kmemset va 0 pageSize =
      some s') ∧ Round im memKb s s' va ∧
      s'.pmm = ((s.take p).pagingMap im va (p * pageSize) pageWrite).pmm ∧
      ∀ d, s'.word im.pageDir d = ((s.take p).pagingMap im va (p * pageSize) pageWrite).word im.pageDir d := by
  have hf : pageWrite < 4096 := by decide
  obtain ⟨hok1, hspr⟩ := h.take hp
  have hsame1 : Untouched im (fun pg => pg = va / pageSize) s (s.take p) := h.owned.untouched_take hp
  have hrest1 : SameRegions s (s.take p) := ⟨rfl, rfl⟩
  have href1 : (s.take p).pmm.refs p = 1 := s.pmm.take_refs_self p
  generalize (s.take p) = s1 at *
  obtain ⟨hodd, hdiv, -, -⟩ := pteOf_props hspr.lt hf
  have hok2 := hok1.pagingMap hge hva hf hspr
  have hsame2 : Untouched im (fun pg => pg = va / pageSize) s1 (s1.pagingMap im va (p * pageSize) pageWrite) :=
    hok1.owned.untouched_pagingMap hge hva hf hspr rfl
  have hwk := hok1.owned.walk_pagingMap hge hva hf hspr htab hva
  rw [if_pos rfl] at hwk
  obtain ⟨-, hrest2⟩ := s1.pagingMap_rest im va (p * pageSize) pageWrite
  -- the frame is counted once, also after `paging_map` has taken one for a table
  have href2 : (s1.pagingMap im va (p * pageSize) pageWrite).pmm.refs p = 1 := by
    rcases pagingMap_pmm im s1 va (p * pageSize) pageWrite with hq | ⟨t, ht, hq⟩
    · rw [hq]
      exact href1
    rw [hq, s1.pmm.take_refs_ne, href1]
    rintro rfl
    have := ht.zero
    omega
  generalize s1.pagingMap im va (p * pageSize) pageWrite = s2 at *
  have hpr : s2.walk im.pageDir va % 2 = pagePresent := by
    rw [hwk]
    exact hodd
  obtain ⟨hown, hwalk3, hsame3⟩ := hok2.owned.untouched_fill hge hva hpr
    (fun _ => 0) pageSize
  refine ⟨_, hok2.owned.storeBytes_page hok2.cr3 hge hva hal hpr (fun _ => 0) (Nat.le_refl _), ⟨?_, ?_, ?_, ⟨p, hspr.lt,
    ?_, href2⟩, ?_⟩, rfl, fun d => ?_⟩
  · exact hok2.quiet hown hwalk3 hok2.pmm rfl
  · exact hrest1.trans hrest2
  · exact (hsame1.trans hsame2).trans (hsame3 rfl)
  · rw [hwalk3 va hva, hwk]
  · intro o ho
    rw [hwalk3 va hva, Phys.fill]
    simp only [Function.update_self, if_pos ho]
  · refine word_congr (mem_fill_ne s2 ?_ _ _) d
    exact (hok2.owned.pageFrame hge hva hpr).ne_dir.symm

/-- If the page could be written, there was a table for it. -/
theorem MemOk.round_table (hp : s.pmm.Free p) (hge : 0x1000000 ≤ va) (hva : va < 2 ^ 32)
    (hset : ((s.take p).pagingMap im va (p * pageSize) pageWrite).kmemset va 0 pageSize = some s') :
    ((s.take p).ptePtrAlloc im va).1 ≠ none := by
  obtain ⟨hok1, -⟩ := h.take hp
  generalize (s.take p) = s1 at *
  intro hnn
  rcases hok1.owned.ptePtrAlloc hge hva with ⟨he, h0, -⟩ | ⟨s2, he, -⟩
  · have hmap : s1.pagingMap im va (p * pageSize) pageWrite = s1 := by
      unfold Phys.pagingMap
      rw [he]
    have hno : s1.walk s1.active va % 2 ≠ pagePresent := by
      rw [hok1.cr3, hok1.owned.walk_eq hva, if_pos h0]
      decide
    rw [hmap] at hset
    have hstop := storeBytes_unmapped hva hno (fun _ => 0) 4095
    rw [show Phys.kmemset s1 va 0 pageSize = s1.storeBytes va (fun _ => 0) (4095 + 1) from rfl, hstop] at hset
    cases hset
  · rw [he] at hnn
    cases hnn

theorem MemOk.unmapLoop_spec (hge : 0x1000000 ≤ virt) (hal : pageSize ∣ virt) (hn : virt + n * pageSize < 2 ^ 32) :
    SameRegions s (unmapLoop im n virt s) ∧
      Untouched im (fun pg => virt / pageSize ≤ pg ∧ pg < virt / pageSize + n) s (unmapLoop im n virt s) ∧
      ∀ k < n, (unmapLoop im n virt s).walk im.pageDir (virt + k * pageSize) % 2 ≠ pagePresent := by
  induction n generalizing virt s with
  | zero => exact ⟨⟨rfl, rfl⟩, .refl im _ s, fun k hk => absurd hk (Nat.not_lt_zero k)⟩
  | succ n ih =>
    have hva : virt < 2 ^ 32 := by omega
    have hnx : u32 (virt + pageSize) = virt + pageSize := Nat.mod_eq_of_lt (by unfold pageSize at *; omega)
    have hdiv : (virt + pageSize) / pageSize = virt / pageSize + 1 := Nat.add_div_right virt (by decide)
    have hok := h.pagingUnmap hge hva
    have hfi := (h.owned.walk_pagingUnmap hge hva hva).1
    have hsame1 : Untouched im (fun pg => virt / pageSize ≤ pg ∧ pg < virt / pageSize + (n + 1)) s (s.pagingUnmap im virt) :=
      h.owned.untouched_pagingUnmap hge hva ⟨Nat.le_refl _, by omega⟩
    have hrest1 : SameRegions s (s.pagingUnmap im virt) := (s.pagingUnmap_rest im virt).2
    obtain ⟨hrs, hsm, hgone⟩ := ih hok (show 0x1000000 ≤ virt + pageSize by omega)
      ((Nat.dvd_add_right hal).2 (Nat.dvd_refl _)) (by rw [Nat.succ_mul] at hn; omega)
    rw [unmapLoop, hnx]
    refine ⟨hrest1.trans hrs, hsame1.trans (hsm.mono fun pg hpg => ⟨by omega, by omega⟩), fun k hk => ?_⟩
    cases k with
    | zero =>
      rw [Nat.zero_mul, Nat.add_zero]
      have hkp := hsm virt hge hva (by omega)
      rw [hkp.walk]
      exact hfi
    | succ k =>
      have := hgone k (by omega)
      rwa [Nat.add_assoc, Nat.add_comm pageSize, ← Nat.succ_mul] at this

theorem MemOk.pagingUnmap_refs (hge : 0x1000000 ≤ va) (hva : va < 2 ^ 32) (f : Nat) :
    (MapsTo im s va f ∧ (s.pagingUnmap im va).pmm.refs f = s.pmm.refs f - 1) ∨
      ¬ MapsTo im s va f ∧ (s.pagingUnmap im va).pmm.refs f = s.pmm.refs f := by
  rcases h.owned.pagingUnmap_cases hge hva with ⟨he, hno⟩ | ⟨ht, hu, he⟩
  · rw [he]
    exact .inr ⟨fun hc => hno hc.1, rfl⟩
  have hw : s.walk im.pageDir va = s.word (s.word im.pageDir (pageDirIdx va) / pageSize) (pageTblIdx va) := by
    rw [h.owned.walk_eq hva, if_neg ht.ne]
  have hlt : s.walk im.pageDir va / pageSize < 65536 := hw ▸ (h.owned.range _ hu).2
  have hrf : (s.pagingUnmap im va).pmm.refs f = (pmmFree s.pmm (s.walk im.pageDir va / pageSize * pageSize)).refs f := by
    rw [he, hw]
    rfl
  rw [hrf, pmmFree_refs, frameIdx_mul]
  by_cases hf : s.walk im.pageDir va / pageSize = f
  · exact .inl ⟨⟨hw ▸ h.owned.page _ _ _ hu, hf⟩, if_pos ⟨hf.symm, by omega⟩⟩
  · exact .inr ⟨fun hc => hf hc.2, if_neg fun hc => hf hc.1.symm⟩

/-- The counts: a page that was mapped has one reference less, and every other frame has its count. -/
theorem MemOk.unmapLoop_refs (hge : 0x1000000 ≤ virt) (hn : virt + n * pageSize < 2 ^ 32) (f : Nat) :
    ((∃ k < n, MapsTo im s (virt + k * pageSize) f) ∧ (unmapLoop im n virt s).pmm.refs f = s.pmm.refs f - 1) ∨
      (∀ k < n, ¬ MapsTo im s (virt + k * pageSize) f) ∧ (unmapLoop im n virt s).pmm.refs f = s.pmm.refs f := by
  induction n generalizing virt s with
  | zero => exact .inr ⟨fun k hk => absurd hk (Nat.not_lt_zero k), rfl⟩
  | succ n ih =>
    have hva : virt < 2 ^ 32 := by omega
    have hnx : u32 (virt + pageSize) = virt + pageSize := Nat.mod_eq_of_lt (by unfold pageSize at *; omega)
    have hb : ∀ k < n, virt + (k + 1) * pageSize < 2 ^ 32 := by
      intro k hk
      exact Nat.lt_of_le_of_lt (Nat.add_le_add_left (Nat.mul_le_mul_right _ (Nat.succ_le_succ (Nat.le_of_lt hk))) _) hn
    -- the pages after the first are as they were
    have hsm : ∀ k < n, MapsTo im (s.pagingUnmap im virt) (virt + pageSize + k * pageSize) f ↔
        MapsTo im s (virt + (k + 1) * pageSize) f := by
      intro k hk
      have hshift : virt + pageSize + k * pageSize = virt + (k + 1) * pageSize := by
        rw [Nat.succ_mul, Nat.add_assoc, Nat.add_comm pageSize]
      have hpg := h.owned.untouched_pagingUnmap hge hva rfl
        (virt + (k + 1) * pageSize) (by omega) (hb k hk) (by unfold pageSize; omega)
      unfold MapsTo
      rw [hshift, hpg.walk]
    have hrs := ih (h.pagingUnmap hge hva) (show 0x1000000 ≤ virt + pageSize by omega) (by rw [Nat.succ_mul] at hn; omega)
    rw [unmapLoop, hnx]
    rcases h.pagingUnmap_refs hge hva f with ⟨hpg, h1⟩ | ⟨hpg, h1⟩
    · rcases hrs with ⟨⟨k, hk, hto⟩, -⟩ | ⟨-, h2⟩
      · -- another page with the same frame
        have hto := (hsm k hk).1 hto
        have hinj := h.owned.page_inj hge hva (by omega)
          (hb k hk) hpg.1 hto.1 (hpg.2.trans hto.2.symm)
        unfold pageSize at hinj
        omega
      · exact .inl ⟨⟨0, Nat.succ_pos n, by rwa [Nat.zero_mul]⟩, h2.trans h1⟩
    rw [← h1]
    rcases hrs with ⟨⟨k, hk, hto⟩, h2⟩ | ⟨hno, h2⟩
    · exact .inl ⟨⟨k + 1, Nat.succ_lt_succ hk, (hsm k hk).1 hto⟩, h2⟩
    · refine .inr ⟨fun k hk => ?_, h2⟩
      cases k with
      | zero => rwa [Nat.zero_mul]
      | succ k =>
        have hk := Nat.lt_of_succ_lt_succ hk
        exact fun hto => hno k hk ((hsm k hk).2 hto)

theorem MemOk.mapLoop_spec (hge : 0x1000000 ≤ virt) (hlt : virt < 0x2000000)
    (hal : pageSize ∣ virt) (hdone : done + s.pmm.freeFrames ≤ 65536) {r : Bool}
    (hl : mapLoop im virt n done s = some (r, s')) :
    SameRegions s s' ∧ Untouched im (fun pg => virt / pageSize ≤ pg) s s' ∧
      (r = true → Untouched im (fun pg => virt / pageSize + done ≤ pg) s s' ∧
        ∀ k, done ≤ k → k < done + n → Blank im s' (virt + k * pageSize)) := by
  induction n generalizing done s with
  | zero =>
    cases hl
    exact ⟨⟨rfl, rfl⟩, .refl im _ _, fun _ => ⟨.refl im _ _, fun k h1 h2 => by omega⟩⟩
  | succ n ih =>
    rw [mapLoop] at hl
    rcases pmmAlloc_cases s.pmm with ⟨he, -⟩ | ⟨p, hp, -, he⟩
    · -- no frame: what has been mapped is unmapped
      rw [he] at hl
      cases hl
      obtain ⟨hrs, hsm, -⟩ := h.unmapLoop_spec (n := done) hge hal (by unfold pageSize; omega)
      exact ⟨hrs, hsm.mono fun pg hpg => hpg.1, fun hr => by cases hr⟩
    have hne := hp.addr_ne (by have := h.pmm.base; omega)
    have hlf := Pmm.freeFrames_take hp
    have hu32 : u32 (virt + done * pageSize) = virt + done * pageSize := Nat.mod_eq_of_lt (by unfold pageSize; omega)
    have hva : virt + done * pageSize < 2 ^ 32 := by
      unfold pageSize
      omega
    have hval : pageSize ∣ virt + done * pageSize := (Nat.dvd_add_right hal).2 (Nat.dvd_mul_left ..)
    have hpage : (virt + done * pageSize) / pageSize = virt / pageSize + done := Nat.add_mul_div_right _ _ (by decide)
    rw [he] at hl
    simp only [if_neg hne, hu32] at hl
    obtain ⟨s2, hset, hl⟩ := Option.bind_eq_some_iff.1 hl
    have htab := h.round_table hp (Nat.le_add_right_of_le hge) hva hset
    obtain ⟨s2', hset', hro, hpmm, -⟩ := h.round hp (Nat.le_add_right_of_le hge) hva hval htab
    obtain rfl : s2' = s2 := Option.some.inj (hset'.symm.trans hset)
    have hfr := pagingMap_freeFrames im (s.take p) (virt + done * pageSize) (p * pageSize) pageWrite
    rw [← hpmm] at hfr
    have hfr : s2'.pmm.freeFrames ≤ (s.pmm.take p).freeFrames := hfr
    obtain ⟨hrs, hsm, htrue⟩ := ih hro.ok (by omega) hl
    have hot := hro.other
    refine ⟨hro.rest.trans hrs, (hot.mono fun pg hpg => by omega).trans hsm, fun hr => ?_⟩
    obtain ⟨hsm, hblank⟩ := htrue hr
    refine ⟨(hot.mono fun pg hpg => by omega).trans (hsm.mono fun pg hpg => by omega), fun k h1 h2 => ?_⟩
    by_cases hk : k = done
    · subst hk
      have hpage := hsm _ (Nat.le_add_right_of_le hge) hva (by omega)
      refine ⟨hpage.backed hro.page.1, ?_⟩
      rw [hpage.walk, hpage.mem hro.page.1.entry.1]
      exact hro.page.2
    · exact hblank k (by omega) (by omega)

end

/-! ## Frames enough -/

/-- Some `pmm_alloc` in the loop of `vmalloc` returns 0, for a page or for a table. -/
def starves (im : Image) (virt : Nat) : Nat → Nat → Phys → Bool
  | 0, _, _ => false
  | n + 1, done, s =>
    let a := pmmAlloc s.pmm
    let s1 := { s with pmm := a.2 }
    let va := u32 (virt + done * pageSize)
    a.1 = 0 || (s1.ptePtrAlloc im va).1.isNone ||
      ((s1.pagingMap im va a.1 pageWrite).kmemset va 0 pageSize).any fun s2 => starves im virt n (done + 1) s2

/-- One round of a loop that has a frame `p`: it starves for want of a table, or later. -/
theorem MemOk.starves_succ (h : MemOk im memKb s) (hp : s.pmm.Free p)
    (he : pmmAlloc s.pmm = (p * pageSize, s.pmm.take p)) (hge : 0x1000000 ≤ virt) (hal : pageSize ∣ virt)
    (hva : virt + done * pageSize < 2 ^ 32) (htab : ((s.take p).ptePtrAlloc im (virt + done * pageSize)).1 ≠ none) :
    ∃ s', Round im memKb s s' (virt + done * pageSize) ∧
      starves im virt (n + 1) done s = starves im virt n (done + 1) s' ∧
      mapLoop im virt (n + 1) done s = mapLoop im virt n (done + 1) s' ∧
      s'.pmm = ((s.take p).pagingMap im (virt + done * pageSize) (p * pageSize) pageWrite).pmm ∧
      ∀ d, s'.word im.pageDir d = ((s.take p).pagingMap im (virt + done * pageSize)
        (p * pageSize) pageWrite).word im.pageDir d := by
  have hu32 : u32 (virt + done * pageSize) = virt + done * pageSize := Nat.mod_eq_of_lt hva
  have hval : pageSize ∣ virt + done * pageSize := (Nat.dvd_add_right hal).2 (Nat.dvd_mul_left ..)
  have hne := hp.addr_ne (by have := h.pmm.base; omega)
  obtain ⟨s', hset, hro, hpmm, hdir⟩ := h.round hp (Nat.le_add_right_of_le hge) hva hval htab
  refine ⟨s', hro, ?_, ?_, hpmm, hdir⟩
  · rw [starves, he]
    simp only [hu32, hset]
    rw [decide_eq_false hne, Option.isNone_eq_false_iff.2 (Option.isSome_iff_ne_none.2 htab)]
    rfl
  · rw [mapLoop, he]
    simp only [if_neg hne, hu32, hset]
    rfl

theorem MemOk.mapLoop_fed (h : MemOk im memKb s) (hge : 0x1000000 ≤ virt) (hal : pageSize ∣ virt)
    (hend : virt + (done + n) * pageSize < 2 ^ 32) (hfed : starves im virt n done s = false) :
    ∃ s', mapLoop im virt n done s = some (true, s') := by
  induction n generalizing done s with
  | zero => exact ⟨s, rfl⟩
  | succ n ih =>
    have hva : virt + done * pageSize < 2 ^ 32 := by
      refine Nat.lt_of_le_of_lt (Nat.add_le_add_left (Nat.mul_le_mul_right _ ?_) _) hend
      omega
    have hu32 : u32 (virt + done * pageSize) = virt + done * pageSize := Nat.mod_eq_of_lt hva
    rcases pmmAlloc_cases s.pmm with ⟨he, -⟩ | ⟨p, hp, -, he⟩
    · rw [starves, he] at hfed
      cases hfed
    have htab : ((s.take p).ptePtrAlloc im (virt + done * pageSize)).1 ≠ none := by
      intro hnn
      rw [starves, he] at hfed
      simp only [hu32, hnn] at hfed
      simp at hfed
    obtain ⟨s2, hro, hst, hml, -, -⟩ := h.starves_succ hp he hge hal hva htab
    rw [hst] at hfed
    rw [hml]
    refine ih hro.ok ?_ hfed
    rw [show done + 1 + n = done + (n + 1) by omega]
    exact hend

/-- How many of the four tables of `vmalloc`'s addresses are still to be made. -/
def missing (im : Image) (s : Phys) : Nat := tally (fun d => s.word im.pageDir (4 + d) = 0) 4

theorem missing_le (im : Image) (s : Phys) : missing im s ≤ 4 := tally_le _ _

theorem missing_congr (h : ∀ d, s'.word im.pageDir d = s.word im.pageDir d) : missing im s' = missing im s := by
  unfold missing
  simp only [h]

/-- `paging_map` takes a frame exactly when a table is missing. -/
theorem Owned.pagingMap_missing (h : Owned im [] s) (p flags : Nat) (hge : 0x1000000 ≤ va) (hva : va < 0x2000000)
    (htab : (s.ptePtrAlloc im va).1 ≠ none) :
    (s.pagingMap im va (p * pageSize) flags).pmm.freeFrames + missing im s =
      s.pmm.freeFrames + missing im (s.pagingMap im va (p * pageSize) flags) := by
  have hd : 4 ≤ pageDirIdx va ∧ pageDirIdx va < 8 := by
    unfold pageDirIdx
    omega
  have hlt : va < 2 ^ 32 := by omega
  rcases h.ptePtrAlloc hge hlt with ⟨he, -, -⟩ | ⟨s1, he, hg⟩
  · rw [he] at htab
    exact absurd rfl htab
  have hpmm : (s.pagingMap im va (p * pageSize) flags).pmm = s1.pmm := by
    rw [pagingMap_eq he]
    rfl
  rw [missing_congr (hg.word_pagingMap he _ _), hpmm]
  by_cases h0 : s.word im.pageDir (pageDirIdx va) = 0
  · obtain ⟨t, ht, hs1⟩ := ptePtrAlloc_new (by have := h.base; omega) h0 he
    obtain ⟨hwords, -⟩ := h.words_newTable ht
    have hmiss : missing im s = missing im s1 + 1 := by
      refine tally_set (i := pageDirIdx va - 4) (by omega) (fun j hj => ?_) ?_ ?_
      · rw [hs1, hwords, if_neg (by omega)]
      · rw [hs1, hwords, if_pos (by omega)]
        exact decide_eq_false (by unfold pageSize; omega)
      · rw [show 4 + (pageDirIdx va - 4) = pageDirIdx va by omega]
        exact decide_eq_true h0
    have hfr := Pmm.freeFrames_take ht
    have hq : s1.pmm = s.pmm.take t := by
      rw [hs1]
      rfl
    rw [hq, hmiss]
    omega
  · rw [h.same_of_table he hlt h0]

/-- With a frame for every page and for every table that is missing, the loop gets its frames. -/
theorem MemOk.fed (h : MemOk im memKb s) (hge : 0x1000000 ≤ virt) (hal : pageSize ∣ virt)
    (hend : virt + (done + n) * pageSize ≤ 0x2000000) (hfr : n + missing im s ≤ s.pmm.freeFrames) :
    starves im virt n done s = false := by
  induction n generalizing done s with
  | zero => rfl
  | succ n ih =>
    obtain ⟨p, hp, he⟩ := pmmAlloc_some (show 0 < s.pmm.freeFrames by omega)
    have hlf := Pmm.freeFrames_take hp
    have hva : virt + done * pageSize < 0x2000000 := by
      rw [Nat.add_mul, Nat.succ_mul] at hend
      have : 0 < pageSize := by decide
      omega
    have hlt : virt + done * pageSize < 2 ^ 32 := by omega
    obtain ⟨hok, hspr⟩ := h.take hp
    have hmiss : missing im (s.take p) = missing im s := rfl
    have htab : ((s.take p).ptePtrAlloc im (virt + done * pageSize)).1 ≠ none := by
      rcases hok.owned.ptePtrAlloc (Nat.le_add_right_of_le hge) hlt with ⟨-, h0, hno⟩ | ⟨s1, hpte, -⟩
      · -- the table is missing, so a frame was set aside for it
        have hpos : 0 < missing im s := by
          apply Nat.pos_of_ne_zero
          intro hz
          have hd : 4 ≤ pageDirIdx (virt + done * pageSize) ∧ pageDirIdx (virt + done * pageSize) < 8 := by
            unfold pageDirIdx
            omega
          have := tally_eq_zero_iff.1 hz (pageDirIdx (virt + done * pageSize) - 4) (by omega)
          rw [show 4 + (pageDirIdx (virt + done * pageSize) - 4) = pageDirIdx (virt + done * pageSize) by omega] at this
          exact of_decide_eq_false this h0
        have hz : (s.pmm.take p).freeFrames = 0 := Pmm.freeFrames_eq_zero.2 hno
        omega
      · rw [hpte]
        exact Option.some_ne_none _
    obtain ⟨s2, hro, hst, -, hpmm, hdir⟩ := h.starves_succ hp he hge hal hlt htab
    have hct := hok.owned.pagingMap_missing p pageWrite (Nat.le_add_right_of_le hge) hva htab
    rw [← missing_congr hdir, ← hpmm, hmiss] at hct
    have hct : s2.pmm.freeFrames + missing im s = (s.pmm.take p).freeFrames + missing im s2 := hct
    rw [hst]
    refine ih hro.ok ?_ (by omega)
    rw [show done + 1 + n = done + (n + 1) by omega]
    exact hend

theorem unmapLoop_freeFrames (im : Image) (n virt : Nat) (s : Phys) :
    s.pmm.freeFrames ≤ (unmapLoop im n virt s).pmm.freeFrames := by
  induction n generalizing virt s with
  | zero => exact Nat.le_refl _
  | succ n ih =>
    refine Nat.le_trans ?_ (ih _ _)
    rcases pagingUnmap_pmm im s virt with hq | ⟨addr, hq⟩
    · exact Nat.le_of_eq (congrArg Pmm.freeFrames hq.symm)
    rw [hq]
    have hol := pmmFree_only s.pmm addr
    refine tally_mono fun i _ hi => ?_
    unfold Pmm.isFree at hi ⊢
    rw [Bool.and_eq_true, decide_eq_true_eq] at hi ⊢
    rw [hol.base, hol.total]
    refine ⟨hi.1, ?_⟩
    rw [pmmFree_refs]
    split <;> omega

/-- A round of `vmalloc` uses up a frame for the page and at most one for a table. -/
theorem mapLoop_frames (hl : mapLoop im virt n done s = some (true, s')) :
    s.pmm.freeFrames ≤ s'.pmm.freeFrames + 2 * n := by
  induction n generalizing done s with
  | zero =>
    cases hl
    omega
  | succ n ih =>
    rw [mapLoop] at hl
    rcases pmmAlloc_cases s.pmm with ⟨he, -⟩ | ⟨p, hp, -, he⟩
    · simp [he] at hl
    by_cases h0 : p * pageSize = 0
    · simp [he, h0] at hl
    simp only [he, if_neg h0] at hl
    obtain ⟨s2, hset, hl⟩ := Option.bind_eq_some_iff.1 hl
    have hleft := Pmm.freeFrames_take hp
    have hnx := ih hl
    rw [storeBytes_pmm hset] at hnx
    rcases pagingMap_pmm im { s with pmm := s.pmm.take p } (u32 (virt + done * pageSize)) (p * pageSize) pageWrite with
      hq | ⟨t, ht, hq⟩
    · have hnx : (s.pmm.take p).freeFrames ≤ _ := hq ▸ hnx
      omega
    · have htab : (s.pmm.take p).freeFrames = ((s.pmm.take p).take t).freeFrames + 1 := Pmm.freeFrames_take ht
      have hnx : ((s.pmm.take p).take t).freeFrames ≤ _ := hq ▸ hnx
      omega

end

end Phys

end KumOS.Paging
