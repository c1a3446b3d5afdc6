import KumOS.Paging.Vmalloc

/-!
# The regions of `vmalloc`

The regions lie one behind the other from `VMALLOC_BASE` to `vmalloc_ptr`, those
given back included; the pages of an active region have frames of their own.  So
`vmalloc` and `vmfree` work on one region and leave all others alone
(`regions_exact`).

Neither `vnum_regions` nor `vmalloc_ptr` ever goes back.  With frames enough,
`vmalloc` succeeds exactly as long as there is an entry of `vregions` and address
space left behind every region there has ever been (`vmalloc_succeeds_iff`).
-/

namespace KumOS.Paging

open Lib
open Vm (pageDirIdx vmallocMaxRegions)
open List (mem_append mem_append_right mem_cons mem_cons_self mem_singleton not_mem_nil)

variable {r : VRegion} {n ptr : Nat}

namespace Phys

section

variable {im : Image} {memKb : Nat} {s s' : Phys} {x : Nat}

/-! ## The table of regions -/

theorem pageAlign_dvd (n : Nat) : pageSize ∣ pageAlign n := Nat.dvd_mul_left ..

/-- What `vmalloc` and `vmfree` keep. -/
structure RegionsOk (im : Image) (memKb : Nat) (s : Phys) : Prop where
  ok : MemOk im memKb s
  tiles : Tiles VRegion.virtStart VRegion.size vmallocBase s.vregions s.vmallocPtr
  aligned : ∀ r ∈ s.vregions, pageSize ∣ r.virtStart ∧ pageSize ∣ r.size
  ptr : pageSize ∣ s.vmallocPtr
  backed : ∀ r ∈ s.vregions, r.active = true → ∀ k, k * pageSize < r.size → Backed im s (r.virtStart + k * pageSize)

theorem RegionsOk.boot (im : Image) (memKb : Nat) (mem : Nat → Bytes) : RegionsOk im memKb (pagingInit im memKb mem) where
  ok := .boot im memKb mem
  tiles := rfl
  aligned := fun _ hr => absurd hr not_mem_nil
  ptr := show pageSize ∣ vmallocBase by decide
  backed := fun _ hr => absurd hr not_mem_nil

theorem RegionsOk.range (h : RegionsOk im memKb s) (hr : r ∈ s.vregions) :
    0x1000000 ≤ r.virtStart ∧ r.virtStart + r.size ≤ s.vmallocPtr ∧ s.vmallocPtr < 0x2000000 := by
  obtain ⟨h1, h2⟩ := h.tiles.mem hr
  exact ⟨h1, h2, h.ok.ptr.2⟩

/-- The pages of a region lie below `vmalloc_ptr`. -/
theorem RegionsOk.page (h : RegionsOk im memKb s) (hr : r ∈ s.vregions) {k : Nat} (hk : k * pageSize < r.size) :
    0x1000000 ≤ r.virtStart + k * pageSize ∧ r.virtStart + k * pageSize < 2 ^ 32 ∧
      (r.virtStart + k * pageSize) / pageSize < s.vmallocPtr / pageSize := by
  obtain ⟨h1, h2, h3⟩ := h.range hr
  have hp := h.ptr
  unfold pageSize at *
  omega

/-- Steps that touch pages from `vmalloc_ptr` on only keep the regions there are. -/
theorem RegionsOk.keep (h : RegionsOk im memKb s) (hok : MemOk im memKb s') (hrs : SameRegions s s')
    (hsm : Untouched im (fun pg => s.vmallocPtr / pageSize ≤ pg) s s') : RegionsOk im memKb s' := by
  obtain ⟨hregs, hptr⟩ := hrs
  refine ⟨hok, ?_, ?_, ?_, ?_⟩
  · rw [hregs, hptr]
    exact h.tiles
  · rw [hregs]
    exact h.aligned
  · rw [hptr]
    exact h.ptr
  · rw [hregs]
    intro r hr hact k hk
    obtain ⟨h1, h2, h3⟩ := h.page hr hk
    exact (hsm _ h1 h2 (by omega)).backed (h.backed r hr hact k hk)

/-- What `vmalloc` can do: nothing but using up frames, or a new region of blank pages. -/
inductive Allocated (im : Image) (memKb : Nat) (s : Phys) (n : Nat) : Nat → Phys → Prop
  | refused {s' : Phys} : RegionsOk im memKb s' → SameRegions s s' →
      Untouched im (fun pg => s.vmallocPtr / pageSize ≤ pg) s s' → Allocated im memKb s n 0 s'
  | granted {s' : Phys} : RegionsOk im memKb s' →
      s'.vregions = s.vregions ++ [⟨s.vmallocPtr, pageAlign n, true⟩] →
      s'.vmallocPtr = s.vmallocPtr + pageAlign n →
      Untouched im (fun pg => s.vmallocPtr / pageSize ≤ pg) s s' →
      (∀ k, k * pageSize < pageAlign n → Blank im s' (s.vmallocPtr + k * pageSize)) →
      Allocated im memKb s n s.vmallocPtr s'

theorem RegionsOk.vmalloc (h : RegionsOk im memKb s) {r : Nat} (hv : s.vmalloc im n = some (r, s')) :
    Allocated im memKb s n r s' := by
  have hok := (MemOk.steady im memKb).vmalloc h.ok hv
  unfold Phys.vmalloc at hv
  simp only [] at hv
  split at hv
  · cases hv
    exact .refused h ⟨rfl, rfl⟩ (.refl im _ _)
  split at hv
  · cases hv
    exact .refused h ⟨rfl, rfl⟩ (.refl im _ _)
  obtain ⟨⟨b, s1⟩, hl, hv⟩ := Option.map_eq_some_iff.1 hv
  have hmax : s.pmm.freeFrames ≤ 65536 := tally_le _ _
  obtain ⟨-, hct⟩ := (MemOk.steady im memKb).mapLoop h.ok h.ok.ptr.1 h.ok.ptr.2 (by omega) hl
  obtain ⟨hrs, hsm, htrue⟩ := h.ok.mapLoop_spec h.ok.ptr.1 h.ok.ptr.2 h.ptr (by omega) hl
  cases b with
  | false =>
    cases hv
    exact .refused (h.keep hok hrs hsm) hrs hsm
  | true =>
    cases hv
    obtain ⟨-, hblank⟩ := htrue rfl
    have hps := hct rfl
    have hsz := Nat.div_mul_cancel (pageAlign_dvd n)
    have hnx : u32 (s.vmallocPtr + pageAlign n) = s.vmallocPtr + pageAlign n := by
      have := h.ok.ptr.2
      refine Nat.mod_eq_of_lt ?_
      unfold pageSize at hsz hps
      omega
    have hnew : ∀ k, k * pageSize < pageAlign n → Blank im s1 (s.vmallocPtr + k * pageSize) := by
      intro k hk
      refine hblank k (Nat.zero_le k) ?_
      rw [Nat.zero_add]
      exact (Nat.lt_div_iff_mul_lt' (pageAlign_dvd n) k).2 (by rw [Nat.mul_comm]; exact hk)
    obtain ⟨hregs, -⟩ := hrs
    rw [hregs, hnx] at hok ⊢
    have hsame' : Untouched im (fun pg => s.vmallocPtr / pageSize ≤ pg) s
        { s1 with vregions := s.vregions ++ [⟨s.vmallocPtr, pageAlign n, true⟩],
                  vmallocPtr := s.vmallocPtr + pageAlign n } := hsm.of_eq rfl rfl
    refine .granted ⟨hok, ?_, ?_, ?_, ?_⟩ rfl rfl hsame' hnew
    · exact Tiles.append_iff.2 ⟨_, h.tiles, rfl, rfl⟩
    · intro q hq
      rcases mem_append.1 hq with hq | hq
      · exact h.aligned q hq
      · obtain rfl := mem_singleton.1 hq
        exact ⟨h.ptr, pageAlign_dvd n⟩
    · exact (Nat.dvd_add_right h.ptr).2 (pageAlign_dvd n)
    · intro q hq hact k hk
      rcases mem_append.1 hq with hq | hq
      · obtain ⟨h1, h2, h3⟩ := h.page hq hk
        exact (hsame' _ h1 h2 (by omega)).backed (h.backed q hq hact k hk)
      · obtain rfl := mem_singleton.1 hq
        exact (hnew k hk).1

/-! ## `vmfree` -/

theorem vmfree_other (hno : ∀ r ∈ s.vregions, r.active = true → r.virtStart ≠ ptr) : s.vmfree im ptr = s := by
  have hf : s.vregions.findIdx? (fun r => r.active && decide (r.virtStart = ptr)) = none := by
    refine List.findIdx?_eq_none_iff.2 fun r hr => ?_
    cases hact : r.active with
    | false => rfl
    | true => exact decide_eq_false (hno r hr hact)
  unfold Phys.vmfree
  rw [hf]

/-- The first active region at a pointer, and those around it. -/
theorem vmfree_first (im : Image) (hact : ∃ r ∈ s.vregions, r.active = true ∧ r.virtStart = ptr) :
    ∃ r l rs, s.vregions = l ++ r :: rs ∧ r.active = true ∧ r.virtStart = ptr ∧
      s.vmfree im ptr = { Phys.unmapLoop im (r.size / pageSize) ptr s with
        vregions := (Phys.unmapLoop im (r.size / pageSize) ptr s).vregions.set l.length { r with active := false } } := by
  cases hf : s.vregions.findIdx? (fun r => r.active && decide (r.virtStart = ptr)) with
  | none =>
    obtain ⟨r, hr, h1, h2⟩ := hact
    have := List.findIdx?_eq_none_iff.1 hf r hr
    rw [h1, Bool.true_and, decide_eq_false_iff_not] at this
    exact absurd h2 this
  | some i =>
    obtain ⟨hi, hpred, -⟩ := List.findIdx?_eq_some_iff_getElem.1 hf
    rw [Bool.and_eq_true, decide_eq_true_eq] at hpred
    refine ⟨s.vregions[i], s.vregions.take i, s.vregions.drop (i + 1), ?_, hpred.1, hpred.2, ?_⟩
    · rw [← List.drop_eq_getElem_cons hi, List.take_append_drop]
    · have hget : s.vregions.getD i ⟨0, 0, false⟩ = s.vregions[i] := by
        rw [List.getD_eq_getElem?_getD, List.getElem?_eq_getElem hi]
        rfl
      have hlen : (s.vregions.take i).length = i := List.length_take_of_le (Nat.le_of_lt hi)
      unfold Phys.vmfree
      rw [hf, hlen]
      simp only [hget]

/-- What `vmfree` does with an active region. -/
structure Freed (im : Image) (memKb : Nat) (s : Phys) (r : VRegion) (s' : Phys) : Prop where
  ok : RegionsOk im memKb s'
  regions : ∃ l rs, s.vregions = l ++ r :: rs ∧ s'.vregions = l ++ { r with active := false } :: rs
  ptr : s'.vmallocPtr = s.vmallocPtr
  gone : ∀ k, k * pageSize < r.size → s'.walk im.pageDir (r.virtStart + k * pageSize) % 2 ≠ pagePresent
  other : Untouched im (fun pg => r.virtStart / pageSize ≤ pg ∧ pg < r.virtStart / pageSize + r.size / pageSize) s s'
  free : ∀ k, k * pageSize < r.size → s'.pmm.refs (s.walk im.pageDir (r.virtStart + k * pageSize) / pageSize) = 0
  counts : ∀ f, (∀ k, k * pageSize < r.size → s.walk im.pageDir (r.virtStart + k * pageSize) / pageSize ≠ f) →
    s'.pmm.refs f = s.pmm.refs f

theorem RegionsOk.vmfree (h : RegionsOk im memKb s) (hact : ∃ r ∈ s.vregions, r.active = true ∧ r.virtStart = ptr) :
    ∃ r, r.active = true ∧ r.virtStart = ptr ∧ Freed im memKb s r (s.vmfree im ptr) := by
  obtain ⟨r, l, rs, hregs, hract, rfl, he⟩ := vmfree_first im hact
  refine ⟨r, hract, rfl, ?_⟩
  have hmem : r ∈ s.vregions := by
    rw [hregs]
    exact mem_append_right _ mem_cons_self
  obtain ⟨h1, h2, h3⟩ := h.range hmem
  obtain ⟨hal, hsz⟩ := h.aligned r hmem
  have hsize := Nat.div_mul_cancel hsz
  have hend : r.virtStart + r.size / pageSize * pageSize < 2 ^ 32 := by omega
  have hlt : ∀ k, k * pageSize < r.size ↔ k < r.size / pageSize := by
    intro k
    rw [Nat.lt_div_iff_mul_lt' hsz, Nat.mul_comm]
  have hok := (MemOk.steady im memKb).unmapLoop h.ok h1 hend
  obtain ⟨⟨hregs1, hptr1⟩, hsm, hgone⟩ := h.ok.unmapLoop_spec h1 hal hend
  have hrf := h.ok.unmapLoop_refs h1 hend
  generalize Phys.unmapLoop im (r.size / pageSize) r.virtStart s = s1 at *
  have hset : s1.vregions.set l.length { r with active := false } = l ++ { r with active := false } :: rs := by
    rw [hregs1, hregs]
    simp
  rw [hset] at he
  rw [he]
  have hsame' : Untouched im (fun pg => r.virtStart / pageSize ≤ pg ∧ pg < r.virtStart / pageSize + r.size / pageSize) s
      { s1 with vregions := l ++ { r with active := false } :: rs } := hsm.of_eq rfl rfl
  refine ⟨⟨?_, ?_, ?_, ?_, ?_⟩, ⟨l, rs, hregs, rfl⟩, hptr1, fun k hk => hgone k ((hlt k).1 hk), hsame', ?_, ?_⟩
  · exact hok.setRegions _ s1.vmallocPtr hok.ptr.1 hok.ptr.2
  · have htiles := h.tiles
    rw [hregs] at htiles
    have hone : Tiles VRegion.virtStart VRegion.size r.virtStart [{ r with active := false }] (r.virtStart + r.size) :=
      ⟨rfl, rfl⟩
    rw [hptr1]
    exact htiles.exchange hone
  · intro q hq
    rcases mem_append.1 hq with hq | hq
    · exact h.aligned q (by rw [hregs]; exact List.mem_append_left _ hq)
    · rcases mem_cons.1 hq with rfl | hq
      · exact ⟨hal, hsz⟩
      · exact h.aligned q (by rw [hregs]; exact mem_append_right _ (List.mem_cons_of_mem _ hq))
  · rw [hptr1]
    exact h.ptr
  · -- an active region is another one, and lies apart
    intro q hq hqact k hk
    have hqmem : q ∈ s.vregions ∧ (q.virtStart + q.size ≤ r.virtStart ∨ r.virtStart + r.size ≤ q.virtStart) := by
      have htiles := h.tiles
      rw [hregs] at htiles
      obtain ⟨hl, hr⟩ := htiles.around
      rcases mem_append.1 hq with hq | hq
      · exact ⟨by rw [hregs]; exact List.mem_append_left _ hq, .inl (hl.mem hq).2⟩
      · rcases mem_cons.1 hq with rfl | hq
        · cases hqact
        · exact ⟨by rw [hregs]; exact mem_append_right _ (List.mem_cons_of_mem _ hq), .inr (hr.mem hq).1⟩
    obtain ⟨hqmem, hapart⟩ := hqmem
    obtain ⟨hx1, hx2, -⟩ := h.page hqmem hk
    refine (hsame' _ hx1 hx2 ?_).backed (h.backed q hqmem hqact k hk)
    unfold pageSize at *
    omega
  · intro k hk
    obtain ⟨hpr, hone⟩ := (h.backed r hmem hract k hk).entry
    rcases hrf (s.walk im.pageDir (r.virtStart + k * pageSize) / pageSize) with ⟨-, hrf⟩ | ⟨hno, -⟩
    · rw [hone] at hrf
      exact hrf
    · exact absurd ⟨hpr, rfl⟩ (hno k ((hlt k).1 hk))
  · intro f hf
    rcases hrf f with ⟨⟨k, hk, hto⟩, -⟩ | ⟨-, hrf⟩
    · exact absurd hto.2 (hf k ((hlt k).2 hk))
    · exact hrf

/-- There is an entry for the region, and address space. -/
def Room (s : Phys) (n : Nat) : Prop := s.vregions.length < vmallocMaxRegions ∧ s.vmallocPtr + pageAlign n < vmallocEnd

instance (s : Phys) (n : Nat) : Decidable (Room s n) := inferInstanceAs (Decidable (_ ∧ _))

/-- `vmalloc` with frames enough: it succeeds if there is room. -/
theorem RegionsOk.vmalloc_fed (h : RegionsOk im memKb s) (hn : 1 ≤ n) (hmax : n ≤ 0x1000000)
    (hfed : Room s n → starves im s.vmallocPtr (pageAlign n / pageSize) 0 s = false) :
    ∃ r s', s.vmalloc im n = some (r, s') ∧ (r ≠ 0 ↔ Room s n) ∧ (¬ Room s n → s' = s) := by
  have hptr := h.ok.ptr
  have hsmall : pageAlign n ≤ 0x1001000 := by
    unfold pageAlign u32 pageSize
    omega
  have hnx : u32 (s.vmallocPtr + pageAlign n) = s.vmallocPtr + pageAlign n := Nat.mod_eq_of_lt (by omega)
  unfold Phys.vmalloc
  simp only []
  by_cases hrm : Room s n
  · obtain ⟨hlen, hspace⟩ := hrm
    rw [if_neg (by omega), hnx, if_neg (by omega)]
    have hend : s.vmallocPtr + (0 + pageAlign n / pageSize) * pageSize < 2 ^ 32 := by
      rw [Nat.zero_add, Nat.div_mul_cancel (pageAlign_dvd n)]
      omega
    obtain ⟨s1, hl⟩ := h.ok.mapLoop_fed hptr.1 h.ptr hend (hfed ⟨hlen, hspace⟩)
    rw [hl]
    refine ⟨_, _, rfl, ⟨fun _ => ⟨hlen, hspace⟩, fun _ => ?_⟩, fun hno => absurd ⟨hlen, hspace⟩ hno⟩
    omega
  by_cases hlen : n = 0 ∨ vmallocMaxRegions ≤ s.vregions.length
  · rw [if_pos hlen]
    exact ⟨0, s, rfl, ⟨absurd rfl, fun hr => absurd hr hrm⟩, fun _ => rfl⟩
  · rw [if_neg hlen, hnx, if_pos]
    · exact ⟨0, s, rfl, ⟨absurd rfl, fun hr => absurd hr hrm⟩, fun _ => rfl⟩
    · apply Nat.le_of_not_lt
      intro hspace
      exact hrm ⟨by omega, hspace⟩

/-! ## Runs -/

inductive VmOp
  | vmalloc (n : Nat)
  | vmfree (ptr : Nat)

/-- A call that returns. -/
def VmStep (im : Image) (s : Phys) : VmOp → Phys → Prop
  | .vmalloc n, s' => n < 2 ^ 32 ∧ ∃ r, s.vmalloc im n = some (r, s')
  | .vmfree ptr, s' => s' = s.vmfree im ptr

theorem Allocated.ok {r : Nat} (h : Allocated im memKb s n r s') : RegionsOk im memKb s' := by
  cases h with
  | refused hok _ _ => exact hok
  | granted hok _ _ _ _ => exact hok

theorem RegionsOk.step {op : VmOp} (h : RegionsOk im memKb s) (hs : VmStep im s op s') : RegionsOk im memKb s' := by
  cases op with
  | vmalloc n =>
    obtain ⟨-, r, hv⟩ := hs
    exact (h.vmalloc hv).ok
  | vmfree ptr =>
    obtain rfl := hs
    by_cases hact : ∃ r ∈ s.vregions, r.active = true ∧ r.virtStart = ptr
    · obtain ⟨r, -, -, hfreed⟩ := h.vmfree hact
      exact hfreed.ok
    · rw [vmfree_other fun r hr h1 h2 => hact ⟨r, hr, h1, h2⟩]
      exact h

theorem RegionsOk.run {mem : Nat → Bytes} {ops : List VmOp} (hrun : Run (VmStep im) (pagingInit im memKb mem) ops s) :
    RegionsOk im memKb s :=
  Run.invariant (RegionsOk im memKb) (.boot im memKb mem) (fun _ _ _ h hs => h.step hs) hrun

/-! ## Regions are private and exact -/

/-- The address `x` lies in the region. -/
def InRegion (r : VRegion) (x : Nat) : Prop := r.virtStart ≤ x ∧ x < r.virtStart + r.size

/-- Some page of the region has frame `f`. -/
def Backs (im : Image) (s : Phys) (r : VRegion) (f : Nat) : Prop :=
  ∃ x pa, InRegion r x ∧ s.translate im.pageDir x = some pa ∧ frameIdx pa = f

/-- What holds of the regions, and of the calls that come next. -/
structure RegionsExact (im : Image) (s : Phys) : Prop where
  place : ∀ r ∈ s.vregions, r.active = true → pageSize ∣ r.virtStart ∧ pageSize ∣ r.size ∧ 0 < r.size ∧
    vmallocBase ≤ r.virtStart ∧ r.virtStart + r.size ≤ vmallocEnd
  apart : s.vregions.Pairwise fun q r => q.active = true → r.active = true →
    q.virtStart + q.size ≤ r.virtStart ∨ r.virtStart + r.size ≤ q.virtStart
  /-- a page is writable, and has its frame for itself -/
  mapped : ∀ r ∈ s.vregions, r.active = true → ∀ x, InRegion r x → ∃ pa, s.translate im.pageDir x = some pa ∧
    s.effective im.pageDir x pageWrite = true ∧ ∀ y pb, 0x1000000 ≤ y → y < 2 ^ 32 →
      s.translate im.pageDir y = some pb → frameIdx pb = frameIdx pa → y / pageSize = x / pageSize
  /-- `vmalloc` returns zeros, and leaves the regions there are -/
  vmalloc : ∀ n r s', 1 ≤ n → n ≤ 0x1000000 → s.vmalloc im n = some (r, s') →
    (r ≠ 0 → ⟨r, pageAlign n, true⟩ ∈ s'.vregions ∧
      ∀ x, r ≤ x → x < r + pageAlign n → s'.load im.pageDir x = some 0) ∧
      ∀ q ∈ s.vregions, q.active = true → ∀ x, InRegion q x →
        s'.translate im.pageDir x = s.translate im.pageDir x ∧ s'.load im.pageDir x = s.load im.pageDir x
  /-- `vmalloc` returns, unless `pmm_alloc` runs out of frames -/
  returns : ∀ n, 1 ≤ n → n ≤ 0x1000000 →
    (Room s n → starves im s.vmallocPtr (pageAlign n / pageSize) 0 s = false) → ∃ r s', s.vmalloc im n = some (r, s')
  /-- `vmfree` of a region: its pages are gone and its frames free, everything else stays (below 16 MB
  lie the tables themselves) -/
  vmfree : ∀ r ∈ s.vregions, r.active = true →
    (∃ l rs, s.vregions = l ++ r :: rs ∧ (s.vmfree im r.virtStart).vregions = l ++ { r with active := false } :: rs) ∧
      (∀ x, InRegion r x → (s.vmfree im r.virtStart).translate im.pageDir x = none) ∧
      (∀ x < 2 ^ 32, ¬ InRegion r x → (s.vmfree im r.virtStart).translate im.pageDir x = s.translate im.pageDir x ∧
        (0x1000000 ≤ x → (s.vmfree im r.virtStart).load im.pageDir x = s.load im.pageDir x)) ∧
      (∀ f, Backs im s r f → (s.vmfree im r.virtStart).pmm.refs f = 0) ∧
      ∀ f, ¬ Backs im s r f → (s.vmfree im r.virtStart).pmm.refs f = s.pmm.refs f
  ignored : ∀ ptr, (∀ r ∈ s.vregions, r.active = true → r.virtStart ≠ ptr) → s.vmfree im ptr = s

theorem InRegion.page (h : InRegion r x) (hal : pageSize ∣ r.virtStart) :
    ∃ k, k * pageSize < r.size ∧ x / pageSize = (r.virtStart + k * pageSize) / pageSize := by
  obtain ⟨h1, h2⟩ := h
  refine ⟨(x - r.virtStart) / pageSize, ?_, ?_⟩
  all_goals
    unfold pageSize at *
    omega

section

variable (h : RegionsOk im memKb s)
include h

theorem RegionsOk.untouched_region
    (hsm : Untouched im (fun pg => s.vmallocPtr / pageSize ≤ pg) s s') {q : VRegion} (hq : q ∈ s.vregions)
    (hx : InRegion q x) : SamePage im s s' x := by
  obtain ⟨h1, h2, h3⟩ := h.range hq
  have hptr := h.ptr
  obtain ⟨hx1, hx2⟩ := hx
  refine hsm x (by omega) (by omega) ?_
  unfold pageSize at *
  omega

theorem RegionsOk.mapped_page (hr : r ∈ s.vregions) (hact : r.active = true)
    (hx : InRegion r x) : Backed im s x ∧ 0x1000000 ≤ x ∧ x < 2 ^ 32 := by
  obtain ⟨k, hk, hpg⟩ := hx.page (h.aligned r hr).1
  obtain ⟨h1, h2, h3⟩ := h.range hr
  obtain ⟨hx1, hx2⟩ := hx
  refine ⟨?_, by omega, by omega⟩
  obtain ⟨p, hp, hw, hrf⟩ := h.backed r hr hact k hk
  exact ⟨p, hp, (walk_page s im.pageDir hpg).trans hw, hrf⟩

theorem RegionsOk.exact (hpos : ∀ r ∈ s.vregions, 0 < r.size) : RegionsExact im s where
  place := by
    intro r hr _
    obtain ⟨h1, h2, h3⟩ := h.range hr
    refine ⟨(h.aligned r hr).1, (h.aligned r hr).2, hpos r hr, h1, ?_⟩
    unfold vmallocEnd
    omega
  apart := h.tiles.pairwise.imp fun hle _ _ => .inl hle
  mapped := by
    intro r hr hact x hx
    obtain ⟨hbk, hx1, hx2⟩ := h.mapped_page hr hact hx
    obtain ⟨hpr, -⟩ := hbk.entry
    obtain ⟨htr, hfr, -⟩ := translate_split hpr
    refine ⟨_, htr, ?_, fun y pb hy1 hy2 hy he => h.ok.owned.mapsPages.distinct y x pb _ hy1 hy2 hx1 hx2 hy htr he⟩
    -- the entry of the directory and that of the table are both writable
    have hdir := h.ok.owned.table im.pageDir _ (hasTable_of_walk hx1 hx2 hpr)
    obtain ⟨p, -, hw, -⟩ := hbk
    have hdirW : s.word im.pageDir (pageDirIdx x) / pageWrite % 2 = 1 := by
      unfold pageSize at hdir
      unfold pageWrite
      omega
    unfold Phys.effective
    rw [hdirW, hw, (pteOf_bits _ _).1]
    rfl
  vmalloc := by
    intro n r s' _ _ hv
    have hsm : ∀ {t : Phys}, Untouched im (fun pg => s.vmallocPtr / pageSize ≤ pg) s t → ∀ q ∈ s.vregions,
        q.active = true → ∀ x, InRegion q x →
          t.translate im.pageDir x = s.translate im.pageDir x ∧ t.load im.pageDir x = s.load im.pageDir x := by
      intro t ht q hq _ x hx
      have hp := h.untouched_region ht hq hx
      exact ⟨translate_congr hp.walk, hp.load⟩
    cases h.vmalloc hv with
    | refused _ _ hun => exact ⟨absurd rfl, hsm hun⟩
    | granted _ hregs _ hun hblank =>
      refine ⟨fun _ => ⟨?_, fun x hx1 hx2 => ?_⟩, hsm hun⟩
      · rw [hregs]
        exact mem_append_right _ mem_cons_self
      · obtain ⟨k, hk, hpg⟩ := InRegion.page (r := ⟨s.vmallocPtr, pageAlign n, true⟩) ⟨hx1, hx2⟩ h.ptr
        obtain ⟨hbacked, hze⟩ := hblank k hk
        have hw := walk_page s' im.pageDir hpg
        rw [load_eq (by rw [hw]; exact hbacked.entry.1), hw, hze _ (Nat.mod_lt _ (by decide))]
  returns := by
    intro n hn hmax hfed
    obtain ⟨r, s', hv, -⟩ := h.vmalloc_fed hn hmax hfed
    exact ⟨r, s', hv⟩
  vmfree := by
    intro r hr hact
    obtain ⟨q, hqact, hsr, hfreed⟩ := h.vmfree ⟨r, hr, hact, rfl⟩
    -- no two regions have the same start
    obtain rfl : q = r := by
      obtain ⟨l, rs, hregs, -⟩ := hfreed.regions
      have hq : q ∈ s.vregions := by
        rw [hregs]
        exact mem_append_right _ mem_cons_self
      have := hpos q hq
      have := hpos r hr
      rcases h.tiles.apart hq hr with he | hlt | hlt
      · exact he
      · omega
      · omega
    obtain ⟨hal, hsz⟩ := h.aligned q hr
    refine ⟨hfreed.regions, fun x hx => ?_, fun x hx2 hx => ?_, fun f hf => ?_, fun f hf => ?_⟩
    · obtain ⟨k, hk, hpg⟩ := hx.page hal
      have hgone := hfreed.gone k hk
      rw [← walk_page _ im.pageDir hpg] at hgone
      unfold translate
      rw [if_neg hgone]
    · by_cases hx1 : 0x1000000 ≤ x
      · have hp := hfreed.other x hx1 hx2 (by
          rintro ⟨ha, hb⟩
          refine hx ⟨?_, ?_⟩
          all_goals
            unfold pageSize at *
            omega)
        exact ⟨translate_congr hp.walk, fun _ => hp.load⟩
      · have hlow : x < 0x1000000 := by omega
        have hwalk := (hfreed.ok.ok.owned.walk_low hlow).trans (h.ok.owned.walk_low hlow).symm
        exact ⟨translate_congr hwalk, fun h1 => absurd h1 hx1⟩
    · obtain ⟨x, pa, hx, htr, rfl⟩ := hf
      obtain ⟨k, hk, hpg⟩ := hx.page hal
      have hfree := hfreed.free k hk
      rw [← walk_page s im.pageDir hpg] at hfree
      rw [(translate_eq_some htr).2.2]
      exact hfree
    · refine hfreed.counts f fun k hk he => hf ?_
      obtain ⟨hpr, -⟩ := (h.backed q hr hact k hk).entry
      obtain ⟨htr, hfr, -⟩ := translate_split hpr
      refine ⟨_, _, ⟨Nat.le_add_right .., by omega⟩, htr, hfr.trans he⟩
  ignored := fun ptr hno => vmfree_other hno

/-- The calls are for regions of 1 byte to 16 MB, so no region is empty. -/
theorem RegionsOk.nonempty_step {op : VmOp} (hs : VmStep im s op s')
    (hsz : ∀ n, op = .vmalloc n → 1 ≤ n ∧ n ≤ 0x1000000) (hpos : ∀ r ∈ s.vregions, 0 < r.size) :
    ∀ r ∈ s'.vregions, 0 < r.size := by
  intro r hr
  cases op with
  | vmalloc n =>
    obtain ⟨-, a, hv⟩ := hs
    cases h.vmalloc hv with
    | refused _ hrs _ =>
      rw [hrs.1] at hr
      exact hpos r hr
    | granted _ hregs _ _ _ =>
      rw [hregs] at hr
      rcases mem_append.1 hr with hr | hr
      · exact hpos r hr
      obtain rfl := mem_singleton.1 hr
      obtain ⟨h1, h2⟩ := hsz n rfl
      show 0 < pageAlign n
      unfold pageAlign u32 pageSize
      omega
  | vmfree ptr =>
    obtain rfl := hs
    by_cases hact : ∃ r ∈ s.vregions, r.active = true ∧ r.virtStart = ptr
    · obtain ⟨q, -, -, hfreed⟩ := h.vmfree hact
      obtain ⟨l, rs, hregs, hregs'⟩ := hfreed.regions
      rw [hregs'] at hr
      rw [hregs] at hpos
      rcases mem_append.1 hr with hr | hr
      · exact hpos r (List.mem_append_left _ hr)
      · rcases mem_cons.1 hr with rfl | hr
        · exact hpos q (mem_append_right _ mem_cons_self)
        · exact hpos r (mem_append_right _ (List.mem_cons_of_mem _ hr))
    · rw [vmfree_other fun r hr h1 h2 => hact ⟨r, hr, h1, h2⟩] at hr
      exact hpos r hr

end

/-- Over every run of `vmalloc` and `vmfree` the regions are private, and the calls exact. -/
theorem regions_exact (im : Image) (memKb : Nat) (mem : Nat → Bytes) (ops : List VmOp) (s : Phys)
    (hrun : Run (fun s op s' => VmStep im s op s' ∧ ∀ n, op = .vmalloc n → 1 ≤ n ∧ n ≤ 0x1000000)
      (pagingInit im memKb mem) ops s) : RegionsExact im s := by
  have h : RegionsOk im memKb s ∧ ∀ r ∈ s.vregions, 0 < r.size := by
    refine Run.invariant (fun s => RegionsOk im memKb s ∧ ∀ r ∈ s.vregions, 0 < r.size)
      ⟨.boot im memKb mem, fun _ hr => absurd hr not_mem_nil⟩ ?_ hrun
    rintro s1 op s2 ⟨hok, hpos⟩ ⟨hs, hsz⟩
    exact ⟨hok.step hs, hok.nonempty_step hs hsz hpos⟩
  exact h.1.exact h.2

end

theorem sample_fed (hn : 1 ≤ n) (hmax : n ≤ 0x800000) : ∃ r s',
    (pagingInit sampleImage 32768 fun _ _ => 0).vmalloc sampleImage n = some (r, s') ∧ r ≠ 0 := by
  have hok := RegionsOk.boot sampleImage 32768 fun _ _ => 0
  have hfr := sample_freeFrames
  have hrm : Room (pagingInit sampleImage 32768 fun _ _ => 0) n := by
    refine ⟨show 0 < 64 by decide, ?_⟩
    show vmallocBase + pageAlign n < vmallocEnd
    unfold vmallocBase vmallocEnd pageAlign u32 pageSize
    omega
  have hptr : (pagingInit sampleImage 32768 fun _ _ => 0).vmallocPtr = 0x1000000 := rfl
  generalize pagingInit sampleImage 32768 (fun _ _ => 0) = s at *
  have hmiss := missing_le sampleImage s
  have hps : pageAlign n / pageSize ≤ 0x800 := by
    unfold pageAlign u32 pageSize
    omega
  obtain ⟨r, s', hv, hr, -⟩ := hok.vmalloc_fed hn (by omega) fun _ => by
    refine hok.ok.fed hok.ok.ptr.1 hok.ptr ?_ (by omega)
    unfold pageAlign u32 pageSize
    omega
  exact ⟨r, s', hv, hr.2 hrm⟩

/-- A region of two pages on the machine with 32 MB. -/
theorem regions_exact_sample : ∃ r s', r ≠ 0 ∧
    (pagingInit sampleImage 32768 fun _ _ => 0).vmalloc sampleImage 0x1001 = some (r, s') ∧ RegionsExact sampleImage s' := by
  obtain ⟨r, s', hv, hr⟩ := sample_fed (n := 0x1001) (by decide) (by decide)
  refine ⟨r, s', hr, hv, regions_exact sampleImage 32768 (fun _ _ => 0) [.vmalloc 0x1001] s' ?_⟩
  refine .single ⟨⟨by decide, r, hv⟩, ?_⟩
  intro n hn
  cases hn
  decide

/-! ## When `vmalloc` succeeds -/

/-- With frames enough, `vmalloc` succeeds exactly when there is room behind all the regions there have been:
giving them back makes none. -/
theorem vmalloc_succeeds_iff (im : Image) (memKb : Nat) (mem : Nat → Bytes) (ops : List VmOp) (s : Phys)
    (hrun : Run (VmStep im) (pagingInit im memKb mem) ops s) (n : Nat) (hn : 1 ≤ n) (hmax : n ≤ 0x800000)
    (hfree : n / 4096 + 6 ≤ s.pmm.freeFrames) : ∃ r s', s.vmalloc im n = some (r, s') ∧ (r ≠ 0 ↔ Room s n) := by
  have h := RegionsOk.run hrun
  have hmiss := missing_le im s
  have hps : pageAlign n / pageSize ≤ n / 4096 + 1 := by
    unfold pageAlign u32 pageSize
    omega
  obtain ⟨r, s', hv, hr, -⟩ := h.vmalloc_fed hn (by omega) fun hrm => by
    refine h.ok.fed h.ok.ptr.1 h.ptr ?_ (by omega)
    rw [Nat.zero_add, Nat.div_mul_cancel (pageAlign_dvd n)]
    exact Nat.le_of_lt hrm.2
  exact ⟨r, s', hv, hr⟩

/-- On the machine with 32 MB a region is taken and given back: its addresses are used up, its frames are not. -/
theorem sample_returned (hn : 1 ≤ n) (hmax : n ≤ 0x800000) : ∃ s,
    Run (VmStep sampleImage) (pagingInit sampleImage 32768 fun _ _ => 0) [.vmalloc n, .vmfree 0x1000000] s ∧
      (∀ r ∈ s.vregions, r.active = false) ∧ s.vregions.length = 1 ∧ s.vmallocPtr = 0x1000000 + pageAlign n ∧
      2054 ≤ s.pmm.freeFrames := by
  obtain ⟨r, s1, hv, hr⟩ := sample_fed hn hmax
  have hok := RegionsOk.boot sampleImage 32768 fun _ _ => 0
  have hrun1 : Run (VmStep sampleImage) (pagingInit sampleImage 32768 fun _ _ => 0) [.vmalloc n] s1 :=
    .single ⟨by omega, r, hv⟩
  have hfr := sample_freeFrames
  have hptr : (pagingInit sampleImage 32768 fun _ _ => 0).vmallocPtr = 0x1000000 := rfl
  have hregs : (pagingInit sampleImage 32768 fun _ _ => 0).vregions = [] := rfl
  generalize pagingInit sampleImage 32768 (fun _ _ => 0) = s at *
  have hps : pageAlign n / pageSize ≤ 2048 := by
    unfold pageAlign u32 pageSize
    omega
  -- one region, and at most two frames for each of 2048 pages are used up
  have hlf : 2054 ≤ s1.pmm.freeFrames := by
    unfold Phys.vmalloc at hv
    split at hv
    · cases hv
      exact absurd rfl hr
    simp only [] at hv
    split at hv
    · cases hv
      exact absurd rfl hr
    obtain ⟨⟨b, s2⟩, hl, hv⟩ := Option.map_eq_some_iff.1 hv
    cases b with
    | false =>
      injection hv with hv0 _
      exact absurd hv0.symm hr
    | true =>
      have hus := mapLoop_frames hl
      injection hv with _ hs1
      have hq : s1.pmm = s2.pmm := by
        rw [← hs1]
      rw [hq]
      omega
  cases hok.vmalloc hv with
  | refused _ _ _ => exact absurd rfl hr
  | granted hok1 hregs1 hptr1 _ _ =>
    rw [hptr] at hptr1 hregs1
    rw [hregs] at hregs1
    have hactive : ∃ r ∈ s1.vregions, r.active = true ∧ r.virtStart = 0x1000000 :=
      ⟨_, by rw [hregs1]; exact mem_cons_self, rfl, rfl⟩
    obtain ⟨q, hqact, hq, hfreed⟩ := hok1.vmfree hactive
    obtain ⟨l, rs, hl, hl'⟩ := hfreed.regions
    have hone : l = [] ∧ rs = [] := by
      rw [hregs1, List.nil_append] at hl
      cases l with
      | nil =>
        injection hl with _ hrs
        exact ⟨rfl, hrs.symm⟩
      | cons a l => simp at hl
    obtain ⟨rfl, rfl⟩ := hone
    have hfree2 : s1.pmm.freeFrames ≤ (s1.vmfree sampleImage 0x1000000).pmm.freeFrames := by
      obtain ⟨_, _, _, -, -, -, he⟩ := vmfree_first sampleImage hactive
      rw [he]
      exact unmapLoop_freeFrames ..
    refine ⟨_, hrun1.snoc rfl, ?_, by rw [hl']; rfl, hfreed.ptr.trans hptr1, by omega⟩
    rw [hl']
    intro r hr
    obtain rfl := mem_singleton.1 hr
    rfl

/-- A page is taken, given back, and taken again at the next address. -/
theorem vmalloc_succeeds_iff_again : ∃ s r s',
    Run (VmStep sampleImage) (pagingInit sampleImage 32768 fun _ _ => 0) [.vmalloc 0x1000, .vmfree 0x1000000] s ∧
      s.vmalloc sampleImage 0x1000 = some (r, s') ∧ r ≠ 0 := by
  obtain ⟨s, hrun, -, hlen, hptr, hfree⟩ := sample_returned (n := 0x1000) (by decide) (by decide)
  obtain ⟨r, s', hv, hr⟩ := vmalloc_succeeds_iff sampleImage 32768 (fun _ _ => 0) _ s hrun 0x1000 (by decide) (by decide)
    (by omega)
  exact ⟨s, r, s', hrun, hv, hr.2 ⟨by rw [hlen]; decide, by rw [hptr]; decide⟩⟩

/-- 8 MB are taken and given back.  No region is active and there are frames for 8 MB, but the addresses are used up. -/
theorem freed_not_reusable : ∃ s,
    Run (VmStep sampleImage) (pagingInit sampleImage 32768 fun _ _ => 0) [.vmalloc 0x800000, .vmfree 0x1000000] s ∧
      (∀ r ∈ s.vregions, r.active = false) ∧ 0x800000 / 4096 + 6 ≤ s.pmm.freeFrames ∧
      s.vmalloc sampleImage 0x800000 = some (0, s) := by
  obtain ⟨s, hrun, hinactive, hlen, hptr, hfree⟩ := sample_returned (n := 0x800000) (by decide) (by decide)
  refine ⟨s, hrun, hinactive, hfree, ?_⟩
  unfold Phys.vmalloc
  simp only [hlen, hptr]
  rw [if_neg (by decide), if_pos (by decide)]

end Phys

end KumOS.Paging
