import KumOS.Paging.Allocators

/-!
# Requests of every size

The three allocators round a request up and compare sums, all in 32 bits.  What
they do right is said call by call for any request; the conditions under which
they do (`KmallocFits`, `HeapAllocFits`, and for `vmalloc` a size that is not
rounded to 0) are the places where none of the sums wraps around, and those
where a full table refuses the request before they matter.
-/

namespace KumOS.Syscall

open Lib Paging Paging.Vm
open Kmalloc (Heap Shape Blk extendHeap headerSize round8 kmalloc kmalloc_search mem_allocs)

variable {s s' : Vm} {h : Heap} {n : Nat}

/-- NULL or `n` bytes of the heap, whose end does not go back. -/
def KmallocRight (h : Heap) (n : Nat) : Prop :=
  ∃ p h', kmalloc h n = some (p, h') ∧ (p = 0 ∨ h.heapStart ≤ p ∧ p + n ≤ h.heapCap) ∧ h.heapEnd ≤ h'.heapEnd

def HeapAllocRight (s : Vm) (n : Nat) : Prop :=
  ∃ p s', s.heapAlloc n = some (p, s') ∧ (p = 0 ∨ heapVirtBase ≤ p ∧ p + n ≤ s'.heapBrkPtr) ∧
    s.heapBrkPtr ≤ s'.heapBrkPtr

def VmallocRight (s : Vm) (n : Nat) : Prop :=
  ∃ p s', s.vmalloc n = some (p, s') ∧ (p = 0 ∨ vmallocBase ≤ p ∧ p + n ≤ vmallocEnd) ∧ s.vmallocPtr ≤ s'.vmallocPtr

/-! ## Call by call -/

theorem kmalloc_right_iff {bs : List Blk} {fl : List Nat} (hs : Shape h bs fl) (h0 : 0 < n) (hn : n < 2 ^ 32) :
    KmallocRight h n ↔ KmallocFits h n := by
  have hend := hs.end_le
  have hcap := hs.cap_le
  constructor
  · intro hright
    by_contra hf
    -- more than the heap has: only NULL is right
    have hbig : h.heapCap < n := by
      unfold KmallocFits round8 u32 headerSize at hf
      omega
    have hwrong : ∀ {p h'}, kmalloc h n = some (p, h') → p = 0 := by
      intro p h' hk
      obtain ⟨q, k, hq, hin, -⟩ := hright
      cases hk.symm.trans hq
      omega
    rcases kmalloc_search hs (Nat.ne_of_gt h0) with ⟨b, -, -, hk⟩ | ⟨hno, hk⟩
    · have := hwrong hk
      unfold headerSize at this
      omega
    by_cases hfu : h.heapCap < u32 (h.heapEnd + u32 (headerSize + round8 n))
    · have hfr : 0xFFFFFFF9 ≤ n → h.freeList = 0 := by
        intro hlarge
        have hfl : fl = [] := by
          refine List.eq_nil_iff_forall_not_mem.2 fun b hb => ?_
          have := hno b hb
          unfold round8 u32 at this
          omega
        exact DList.nil_iff.1 (hfl ▸ hs.list)
      unfold KmallocFits at hf
      unfold round8 u32 headerSize at *
      omega
    · have he : (extendHeap h (round8 n)).1 = h.heapEnd := by simp [extendHeap, hfu]
      have hpos : 0 < h.heapEnd := by
        have := hs.layout.tiles.total
        have := hs.start_pos
        omega
      rw [he, if_neg (Nat.ne_of_gt hpos)] at hk
      have := hwrong hk
      unfold u32 headerSize at this
      omega
  · intro hf
    obtain ⟨p, h', hk, hres⟩ := kmalloc_fits hs hf
    rcases hres with ⟨rfl, rfl⟩ | ⟨-, bs', fl', hs', hsv⟩
    · exact ⟨0, _, hk, .inl rfl, Nat.le_refl _⟩
    -- the block served lies in the heap as it is now
    obtain ⟨c, hc, hreq, hcp⟩ := mem_allocs.1 (hsv.allocs.mem_iff.2 List.mem_cons_self)
    have hin := hs'.layout.tiles.mem hc
    have hfit := hs'.layout.fits c hc _ hreq
    have hend' := hs'.end_le
    have hgrow := hsv.heapEnd
    rw [hsv.heapCap] at hend'
    rw [hsv.heapStart] at hin
    unfold Blk.len at hin
    exact ⟨p, h', hk, .inr (by omega), by omega⟩

theorem heapAlloc_right_iff (hok : VmOk s) (h : BlocksBelow s) (h0 : 0 < n) (hn : n < 2 ^ 32) :
    HeapAllocRight s n ↔ HeapAllocFits s n := by
  have hbs := h.base
  have hlt := h.last
  have hpg := h.page
  have hwrong : ∀ {p s'}, s.heapAlloc n = some (p, s') → p ≠ 0 → s'.heapBrkPtr < p + n → ¬ HeapAllocRight s n := by
    rintro p s' ha hp hlt ⟨q, t, hq, hin, -⟩
    cases ha.symm.trans hq
    omega
  unfold heapVirtBase heapVirtMax pageSize at *
  rcases heapAlloc_cases hok (Nat.ne_of_gt h0) with ⟨i, k, b, hb, hu, hfit, ha⟩ | ⟨hno, ⟨hfu, ha⟩ | ⟨hlen, hmax, ha⟩⟩
  · obtain ⟨h1, h2⟩ := h.inside b hb
    unfold heapVirtBase at h1
    by_cases hsmall : n ≤ 0xFFFFFFF8
    · have hro : n ≤ round8 n := by
        unfold round8 u32
        omega
      refine iff_of_true ⟨_, _, ha, .inr ⟨h1, ?_⟩, Nat.le_refl _⟩ (.inl ⟨hsmall, by omega⟩)
      exact Nat.le_trans (Nat.add_le_add_left (Nat.le_trans hro hfit) _) h2
    refine iff_of_false (hwrong ha (by omega) (by show s.heapBrkPtr < _; omega)) ?_
    rintro (⟨h3, -⟩ | ⟨-, h3 | h3⟩)
    · exact hsmall h3
    · exact hsmall h3
    · rw [h3 b hb] at hu
      cases hu
  · refine iff_of_true ⟨0, s, ha, .inl rfl, Nat.le_refl _⟩ ?_
    by_cases hlen : heapMaxBlocks ≤ s.hblocks.length
    · refine .inr ⟨hlen, ?_⟩
      by_cases hsmall : n ≤ 0xFFFFFFF8
      · exact .inl hsmall
      -- rounded to 0, the request would fit any free block
      refine .inr fun b hb => ?_
      cases hu : b.used with
      | true => rfl
      | false =>
        have := hno b hb hu
        unfold round8 u32 at this
        omega
    · refine .inl ?_
      unfold heapVirtMax pageAlign pageSize round8 u32 at *
      omega
  · have hbrk : (s.withBlock (round8 n)).heapBrkPtr = pageAlign (u32 (s.heapBrkPtr + round8 n)) := rfl
    by_cases hsum : n ≤ 0xFFFFFFF8 ∧ s.heapBrkPtr + round8 n + 4095 < 2 ^ 32
    · have hnew : s.heapBrkPtr + n ≤ pageAlign (u32 (s.heapBrkPtr + round8 n)) := by
        unfold pageAlign pageSize round8 u32 at *
        omega
      exact iff_of_true ⟨_, _, ha, .inr ⟨hbs, hnew⟩, Nat.le_trans (Nat.le_add_right _ _) hnew⟩ (.inl hsum)
    · -- the new break is not above the old one
      have hnew : pageAlign (u32 (s.heapBrkPtr + round8 n)) ≤ s.heapBrkPtr := by
        unfold pageAlign pageSize round8 u32 at *
        omega
      refine iff_of_false (hwrong ha (by omega) (by rw [hbrk]; omega)) ?_
      rintro (hs | ⟨hs, -⟩)
      · exact hsum hs
      · omega

theorem vmalloc_right_iff {w : World} (hg : Good w) (h0 : 0 < n) (hn : n < 2 ^ 32) (hr : VmallocReaches w.vm n) :
    VmallocRight w.vm n ↔ n ≤ 0xFFFFF000 ∨ vmallocMaxRegions ≤ w.vm.vregions.length := by
  obtain ⟨hp1, hp2, -⟩ := hg.regions.ptr
  constructor
  · rintro ⟨p, s, hv, hin, -⟩
    by_contra hbad
    -- rounded to 0, the request is served with no page
    have hsz : pageAlign n = 0 := by
      unfold pageAlign pageSize u32
      omega
    have hptr : u32 w.vm.vmallocPtr = w.vm.vmallocPtr := Nat.mod_eq_of_lt (by omega)
    have hroom : ¬ vmallocEnd ≤ w.vm.vmallocPtr := Nat.not_le_of_lt hp2
    unfold Vm.vmalloc at hv
    rw [if_neg (by omega)] at hv
    simp only [hsz, Nat.add_zero, hptr, if_neg hroom, Nat.zero_div, mapLoop] at hv
    cases hv
    unfold vmallocBase vmallocEnd at *
    omega
  · intro hfit
    obtain ⟨p, s, hv, -, -, -, hres⟩ := vmalloc_good hg hr
    refine ⟨p, s, hv, ?_⟩
    rcases hres with ⟨rfl, hptr⟩ | ⟨rfl, ⟨-, hlen, -⟩, hptr, hlast⟩
    · exact ⟨.inl rfl, Nat.le_of_eq hptr.symm⟩
    have hro : n ≤ pageAlign n := by
      unfold pageAlign pageSize u32
      omega
    unfold vmallocBase
    exact ⟨.inr ⟨hp1, by omega⟩, by omega⟩

/-! ## Every run -/

/-- In every state reached by calls that fit none of them moves an end back, and each of the three
allocators handles a request of any size exactly if it fits; for `vmalloc`, where the kernel can
reach the page tables it needs. -/
theorem requests_right_iff (memKb : Nat) (mem : Bytes) (ops : List Op) (w : World)
    (hrun : Run (fun w op w' => Step w op w' ∧ Sized w op) ⟨boot memKb mem, []⟩ ops w) :
    (∀ op w', Step w op w' → Sized w op → Grows w.vm w'.vm) ∧
      ∀ n, 0 < n → n < 2 ^ 32 → (KmallocRight w.vm.km n ↔ KmallocFits w.vm.km n) ∧
        (HeapAllocRight w.vm n ↔ HeapAllocFits w.vm n) ∧
        (VmallocReaches w.vm n →
          (VmallocRight w.vm n ↔ n ≤ 0xFFFFF000 ∨ vmallocMaxRegions ≤ w.vm.vregions.length)) := by
  have hg : Good w := Run.invariant Good (boot_good memKb mem) (fun w1 op w2 h1 hs => (h1.step hs.1 hs.2).1) hrun
  refine ⟨fun op w' hs hm => (hg.step hs hm).2, fun n h0 hn => ⟨?_, ?_, ?_⟩⟩
  · obtain ⟨bs, fl, hs, -⟩ := hg.km
    exact kmalloc_right_iff hs h0 hn
  · exact heapAlloc_right_iff hg.vm hg.blocks h0 hn
  · exact vmalloc_right_iff hg h0 hn

theorem requests_right_iff_served :
    Run (fun w op w' => Step w op w' ∧ Sized w op) sampleBoot
      [.heapAlloc 0x80000, .heapFree 0x200000, .kmalloc 100] sampleServed ∧
      HeapAllocRight sampleServed.vm 0x90000 ∧ VmallocRight sampleServed.vm 100 := by
  have hrun : Run (fun w op w' => Step w op w' ∧ Sized w op) sampleBoot
      [.heapAlloc 0x80000, .heapFree 0x200000, .kmalloc 100] sampleServed :=
    sampleServed_run.map id fun _ _ _ h => ⟨h.1, h.2.1⟩
  have hall := (requests_right_iff _ _ _ _ hrun).2
  refine ⟨hrun, (hall _ (by decide) (by decide)).2.1.2 (.inl (by decide)),
    ((hall _ (by decide) (by decide)).2.2 fun _ d hd hstop _ => ?_).2 (.inl (by decide))⟩
  -- two frames, of the page and of its table, and the first free ones are `0x500` and `0x501`
  have hlow : 0x502 - 0x500 ≤ (pmmInit 32768).lowFrames := by
    refine le_tally (fun i h1 h2 => (Pmm.isFree_iff (by omega)).2 (pmmInit_free.2 ⟨h1, ?_⟩)) (by decide)
    exact Nat.lt_of_lt_of_le h2 (by decide)
  have hone : d = pageDirIdx 0x1000000 := by
    have hstop : d * 2 ^ 22 < 0x1001000 := hstop
    have hd : 4 ≤ d := hd
    show d = 4
    omega
  have hnone := framesBefore_self sampleServed.vm 0x1000000
  rw [← hone] at hnone
  exact .inr (by rw [show framesBefore sampleServed.vm sampleServed.vm.vmallocPtr d = 0 from hnone]; exact hlow)

/-- Sizes that are rounded to 0: after booting, `0x200010`, `0x200000` and `0x1000000` are returned. -/
theorem huge_requests_served : ¬ KmallocRight sampleBoot.vm.km 0xFFFFFFFF ∧
    ¬ HeapAllocRight sampleBoot.vm 0xFFFFFFFF ∧ ¬ VmallocRight sampleBoot.vm 0xFFFFFFFF := by
  have hk : Shape sampleBoot.vm.km [] [] := Kmalloc.kmallocInit_shape _ (by decide) (by decide) (by decide)
  have hg : Good sampleBoot := boot_good _ _
  refine ⟨fun hr => ?_, fun hr => ?_, fun hr => ?_⟩
  · refine absurd ((kmalloc_right_iff hk (by decide) (by decide)).1 hr) ?_
    unfold KmallocFits
    decide
  · refine absurd ((heapAlloc_right_iff hg.vm hg.blocks (by decide) (by decide)).1 hr) ?_
    unfold HeapAllocFits
    decide
  · refine absurd ((vmalloc_right_iff hg (by decide) (by decide) fun _ d h1 h2 => ?_).1 hr) (by decide)
    have hstop : d * 2 ^ 22 < 0x1000000 := h2
    have hfirst : 4 ≤ d := h1
    omega

end KumOS.Syscall
