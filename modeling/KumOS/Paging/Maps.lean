import KumOS.Paging.Ownership

/-!
# The page tables are a map from pages to frames

Runs of `p := pmm_alloc()` with `paging_map(v, p, flags)`, and of `paging_unmap(v)`,
from 16 MB on.  When the frame is there (`pmm_alloc` did not return 0) every step
changes the translation of its page and of no other, and no frame is mapped twice
(`paging_refines_map`).  The map step of a failed `pmm_alloc` maps frame 0, so two
such steps map one frame to two pages (`failed_alloc_maps_frame_zero`).
-/

namespace KumOS.Paging

open Lib
open Vm (pageDirIdx pageTblIdx)

variable {s : Phys} {clones : List Nat} {dir flags t v x : Nat}

namespace Phys

variable {im : Image}

/-! ## Boot -/

theorem not_live_boot (im : Image) (memKb : Nat) (mem : Nat → Bytes) (u : Use) :
    ¬ Live im [] (pagingInit im memKb mem) u := by
  have htab : ∀ D d, ¬ HasTable im [] (pagingInit im memKb mem) D d := by
    intro D d ht
    obtain rfl : D = im.pageDir := ht.dir.resolve_right List.not_mem_nil
    have hown := ht.own
    rw [firstOwn_kernel] at hown
    refine ht.ne ?_
    rw [pagingInit_dir, if_neg (by omega)]
  cases u with
  | dir D => exact List.not_mem_nil
  | table D d => exact htab D d
  | page D d i => exact fun hu => htab D d hu.1

theorem pagingInit_owned (im : Image) (memKb : Nat) (mem : Nat → Bytes) : Owned im [] (pagingInit im memKb mem) where
  range := fun u hu => absurd hu (not_live_boot im memKb mem u)
  refs := fun u hu => absurd hu (not_live_boot im memKb mem u)
  inj := fun u _ hu => absurd hu (not_live_boot im memKb mem u)
  base := rfl
  held := fun f h1 h2 => by
    have : (pmmInit memKb).refs f = 1 := if_pos ⟨h1, h2⟩
    show (pmmInit memKb).refs f ≠ 0
    omega
  low := fun d hd => by rw [pagingInit_dir, if_pos hd]
  kern := fun t ht p hp => pagingInit_table im memKb mem ht hp
  table := fun D d ht => absurd ht (not_live_boot im memKb mem (.table D d))
  page := fun D d i hu => absurd hu (not_live_boot im memKb mem (.page D d i))
  shared := fun D hD => absurd hD List.not_mem_nil

/-! ## Steps -/

/-- `p := pmm_alloc(); paging_map(v, p, flags)` -/
def mapNew (im : Image) (s : Phys) (v flags : Nat) : Phys :=
  ({ s with pmm := (pmmAlloc s.pmm).2 }).pagingMap im v (pmmAlloc s.pmm).1 flags

/-- There is a page table for `v`, or a frame for one, once `p` is taken. -/
def TableFor (im : Image) (s : Phys) (v : Nat) : Prop :=
  (({ s with pmm := (pmmAlloc s.pmm).2 }).ptePtrAlloc im v).1 ≠ none

/-- A page from 16 MB on. -/
structure HighPage (v : Nat) : Prop where
  ge : 0x1000000 ≤ v
  lt : v < 2 ^ 32
  aligned : pageSize ∣ v

inductive PageOp
  | map (v flags : Nat)
  | unmap (v : Nat)

def PageStep (im : Image) (s : Phys) : PageOp → Phys → Prop
  | .map v flags, s' => HighPage v ∧ flags < 4096 ∧ s' = s.mapNew im v flags
  | .unmap v, s' => HighPage v ∧ s' = s.pagingUnmap im v

/-- The frame of a map step is there. -/
def GotFrame (s : Phys) : PageOp → Prop
  | .map _ _ => (pmmAlloc s.pmm).1 ≠ 0
  | .unmap _ => True

theorem Owned.alloc (h : Owned im clones s) (hgot : (pmmAlloc s.pmm).1 ≠ 0) :
    ∃ p, (pmmAlloc s.pmm).1 = p * pageSize ∧ Owned im clones { s with pmm := (pmmAlloc s.pmm).2 } ∧
      Spare im clones { s with pmm := (pmmAlloc s.pmm).2 } p := by
  rcases pmmAlloc_cases s.pmm with ⟨he, -⟩ | ⟨p, hp, -, he⟩
  · rw [he] at hgot
    exact absurd rfl hgot
  · rw [he]
    exact ⟨p, rfl, h.take hp⟩

theorem Owned.mapNew (h : Owned im clones s) (hv : HighPage v) (hf : flags < 4096)
    (hgot : (pmmAlloc s.pmm).1 ≠ 0) : Owned im clones (s.mapNew im v flags) := by
  obtain ⟨p, hp, hown, hspr⟩ := h.alloc hgot
  unfold Phys.mapNew
  rw [hp]
  exact hown.pagingMap hv.ge hv.lt hf hspr

/-! ## The map -/

/-- What the tables are for the steps that come next. -/
structure MapsPages (im : Image) (s : Phys) : Prop where
  map : ∀ v flags, HighPage v → flags < 4096 → (pmmAlloc s.pmm).1 ≠ 0 → TableFor im s v →
    (∀ o < 4096, (s.mapNew im v flags).pagingVirtToPhys im (v + o) = (pmmAlloc s.pmm).1 + o) ∧
      (s.mapNew im v flags).pagingIsMapped im v = true ∧
      ∀ x < 2 ^ 32, x / pageSize ≠ v / pageSize →
        (s.mapNew im v flags).translate im.pageDir x = s.translate im.pageDir x
  unmap : ∀ v, HighPage v → (s.pagingUnmap im v).pagingIsMapped im v = false ∧
    ∀ x < 2 ^ 32, x / pageSize ≠ v / pageSize →
      (s.pagingUnmap im v).translate im.pageDir x = s.translate im.pageDir x
  distinct : ∀ x y pa pb, 0x1000000 ≤ x → x < 2 ^ 32 → 0x1000000 ≤ y → y < 2 ^ 32 →
    s.translate im.pageDir x = some pa → s.translate im.pageDir y = some pb → frameIdx pa = frameIdx pb →
    x / pageSize = y / pageSize
  tables : ∀ x pa, 0x1000000 ≤ x → x < 2 ^ 32 → s.translate im.pageDir x = some pa →
    ∀ d < 1024, s.word im.pageDir d ≠ 0 → s.word im.pageDir d / pageSize ≠ frameIdx pa

theorem translate_congr {s' : Phys} (h : s'.walk dir x = s.walk dir x) : s'.translate dir x = s.translate dir x := by
  unfold translate
  rw [h]

theorem translate_of_walk {w : Nat} (h : s.walk dir x = w) (hp : w % 2 = pagePresent) :
    s.translate dir x = some (w / pageSize * pageSize + x % pageSize) := by
  unfold translate
  rw [h, if_pos hp]

theorem translate_eq_some {pa : Nat} (h : s.translate dir x = some pa) :
    s.walk dir x % 2 = pagePresent ∧ pa = s.walk dir x / pageSize * pageSize + x % pageSize ∧
      frameIdx pa = s.walk dir x / pageSize := by
  unfold translate at h
  split at h
  · rename_i hp
    cases h
    refine ⟨hp, rfl, ?_⟩
    unfold frameIdx pageSize
    omega
  · cases h

theorem Owned.walk_mapNew (h : Owned im clones s) (hv : HighPage v) (hf : flags < 4096)
    (hgot : (pmmAlloc s.pmm).1 ≠ 0) (htab : TableFor im s v) :
    ∃ p < 65536, (pmmAlloc s.pmm).1 = p * pageSize ∧ ∀ x < 2 ^ 32, (s.mapNew im v flags).walk im.pageDir x =
      if x / pageSize = v / pageSize then pteOf p flags else s.walk im.pageDir x := by
  obtain ⟨p, hp, hown, hspr⟩ := h.alloc hgot
  refine ⟨p, hspr.lt, hp, fun x hx => ?_⟩
  unfold Phys.mapNew
  rw [hp]
  exact hown.walk_pagingMap hv.ge hv.lt hf hspr htab hx

/-- A page that is mapped from 16 MB on is a use of its frame. -/
theorem Owned.live_of_translate (h : Owned im clones s) {pa : Nat} (hge : 0x1000000 ≤ x) (hx : x < 2 ^ 32)
    (ht : s.translate im.pageDir x = some pa) :
    Live im clones s (.page im.pageDir (pageDirIdx x) (pageTblIdx x)) ∧
      s.frameOf (.page im.pageDir (pageDirIdx x) (pageTblIdx x)) = frameIdx pa := by
  obtain ⟨hp, -, hfe⟩ := translate_eq_some ht
  rw [h.walk_eq hx] at hp hfe
  have hd : 4 ≤ pageDirIdx x := by
    unfold pageDirIdx
    omega
  by_cases h0 : s.word im.pageDir (pageDirIdx x) = 0
  · rw [if_pos h0] at hp
    cases hp
  rw [if_neg h0] at hp hfe
  refine ⟨⟨hasTable_kernel hd (pageDirIdx_lt hx) h0, pageTblIdx_lt x, fun hz => ?_⟩, hfe.symm⟩
  rw [hz] at hp
  cases hp

theorem Owned.mapsPages (h : Owned im [] s) : MapsPages im s where
  map := by
    intro v flags hv hf hgot htab
    obtain ⟨p, hlt, hp, hwk⟩ := h.walk_mapNew hv hf hgot htab
    obtain ⟨hodd, hdiv, -, -⟩ := pteOf_props hlt hf
    have hpg : ∀ o < 4096, (s.mapNew im v flags).translate im.pageDir (v + o) = some (p * pageSize + o) := by
      intro o ho
      have hal := hv.aligned
      have hlt := hv.lt
      have h1 : (v + o) / pageSize = v / pageSize := by
        unfold pageSize at hal ⊢
        omega
      have h2 : (v + o) % pageSize = o := by
        unfold pageSize at hal ⊢
        omega
      have hx : v + o < 2 ^ 32 := by
        unfold pageSize at hal
        omega
      have hw := hwk (v + o) hx
      rw [if_pos h1] at hw
      rw [translate_of_walk hw hodd, hdiv, h2]
    refine ⟨fun o ho => ?_, ?_, fun x hx hne => translate_congr ?_⟩
    · rw [pagingVirtToPhys_eq, hpg o ho, hp, Option.getD_some]
    · have h0 := hpg 0 (by decide)
      rw [Nat.add_zero] at h0
      rw [pagingIsMapped_eq, h0]
      rfl
    · rw [hwk x hx, if_neg hne]
  unmap := by
    intro v hv
    constructor
    · have hno := (h.walk_pagingUnmap hv.ge hv.lt hv.lt).1
      rw [pagingIsMapped_eq]
      unfold translate
      rw [if_neg hno]
      rfl
    · intro x hx hne
      exact translate_congr ((h.walk_pagingUnmap hv.ge hv.lt hx).2 hne)
  distinct := by
    intro x y pa pb hx1 hx2 hy1 hy2 hx hy he
    obtain ⟨hlx, hfx⟩ := h.live_of_translate hx1 hx2 hx
    obtain ⟨hly, hfy⟩ := h.live_of_translate hy1 hy2 hy
    have hu := h.inj _ _ hlx hly (by rw [hfx, hfy, he])
    injection hu with _ hd hi
    exact same_page.1 ⟨hd, hi⟩
  tables := by
    intro x pa hx1 hx2 hx d hd h0 he
    obtain ⟨hlx, hfx⟩ := h.live_of_translate hx1 hx2 hx
    by_cases hlow : d < 4
    · have hr := (h.range _ hlx).1
      have := kern_lt im hlow
      rw [h.low d hlow] at he
      unfold pageSize at he
      omega
    · have ht : Live im [] s (.table im.pageDir d) := hasTable_kernel (by omega) hd h0
      have hu := h.inj _ _ ht hlx (by rw [hfx]; exact he)
      cases hu

/-- As long as the frames are there, the tables are a map from pages to frames. -/
theorem paging_refines_map (im : Image) (memKb : Nat) (mem : Nat → Bytes) (ops : List PageOp) (s : Phys)
    (hrun : Run (fun s op s' => PageStep im s op s' ∧ GotFrame s op) (pagingInit im memKb mem) ops s) :
    MapsPages im s := by
  have h : Owned im [] s := by
    refine Run.invariant (Owned im []) (pagingInit_owned im memKb mem) ?_ hrun
    rintro s1 op s2 h ⟨hs, hgot⟩
    cases op with
    | map v flags =>
      obtain ⟨hv, hf, rfl⟩ := hs
      exact h.mapNew hv hf hgot
    | unmap v =>
      obtain ⟨hv, rfl⟩ := hs
      exact h.pagingUnmap hv.ge hv.lt
  exact h.mapsPages

/-- A machine with memory up to `0x502000`: two frames are free. -/
def sampleSmall : Phys := pagingInit sampleImage 5128 fun _ _ => 0

theorem highPage_sample : HighPage 0x1000000 ∧ HighPage 0x1001000 ∧ HighPage 0x1002000 := by
  refine ⟨⟨by decide, by decide, by decide⟩, ⟨by decide, by decide, by decide⟩, by decide, by decide, by decide⟩

/-- A run of one step. -/
theorem paging_refines_map_sample :
    Run (fun s op s' => PageStep sampleImage s op s' ∧ GotFrame s op) sampleSmall [.map 0x1000000 3]
      (sampleSmall.mapNew sampleImage 0x1000000 3) ∧ MapsPages sampleImage (sampleSmall.mapNew sampleImage 0x1000000 3) := by
  have hrun : Run (fun s op s' => PageStep sampleImage s op s' ∧ GotFrame s op) sampleSmall [.map 0x1000000 3]
      (sampleSmall.mapNew sampleImage 0x1000000 3) := by
    refine .single ⟨⟨highPage_sample.1, by decide, rfl⟩, ?_⟩
    show (pmmAlloc sampleSmall.pmm).1 ≠ 0
    decide +kernel
  exact ⟨hrun, paging_refines_map sampleImage 5128 _ _ _ hrun⟩

/-! ## Without a frame -/

/-- With its table in place `paging_map` only writes the entry. -/
theorem pagingMap_present {phys : Nat} (hp : s.word im.pageDir (pageDirIdx v) % 2 = pagePresent) :
    s.pagingMap im v phys flags =
      (s.setWord (s.word im.pageDir (pageDirIdx v) / pageSize) (pageTblIdx v)
        (phys / pageSize * pageSize ||| pagePresent ||| flags)).ask v (some flags) := by
  unfold Phys.pagingMap Phys.ptePtrAlloc
  rw [if_pos hp]

theorem pmm_take_free {p : Pmm} {i : Nat} {j : Nat} : (p.take i).Free j ↔ p.Free j ∧ j ≠ i := by
  by_cases hj : j = i
  · subst hj
    refine iff_of_false (fun h => ?_) fun h => h.2 rfl
    have := h.zero
    rw [p.take_refs_self] at this
    cases this
  · have hrf := p.take_refs_ne hj
    constructor
    · intro h
      exact ⟨⟨h.ge, h.lt, h.max, hrf.symm.trans h.zero⟩, hj⟩
    · intro h
      exact ⟨h.1.ge, h.1.lt, h.1.max, hrf.trans h.1.zero⟩

/-- On a machine with two free frames, the first map step takes both.  The next two get no frame, and both their
pages are mapped to frame 0. -/
theorem failed_alloc_maps_frame_zero : ∃ s,
    Run (PageStep sampleImage) sampleSmall [.map 0x1000000 3, .map 0x1001000 3, .map 0x1002000 3] s ∧
      s.translate sampleImage.pageDir 0x1001000 = some 0 ∧ s.translate sampleImage.pageDir 0x1002000 = some 0 := by
  obtain ⟨hv1, hv2, hv3⟩ := highPage_sample
  have hsp : ∀ s v, HighPage v → PageStep sampleImage s (.map v 3) (s.mapNew sampleImage v 3) :=
    fun s v hv => ⟨hv, by decide, rfl⟩
  refine ⟨_, ((Run.single (hsp _ _ hv1)).snoc (hsp _ _ hv2)).snoc (hsp _ _ hv3), ?_, ?_⟩
  · decide +kernel
  · decide +kernel

end Phys

end KumOS.Paging
