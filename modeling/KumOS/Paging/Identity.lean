import KumOS.Paging.Permissions

/-!
# Frames at their physical address

`pte_ptr`, `paging_clone_dir` and `elf_load_mem` reach a frame at its physical
address.  The tables of the kernel image map the first 16 MB to themselves, and
`pmm_alloc` hands out every frame of the machine: so what it returns is mapped to
itself on machines with at most 16 MB (`identity_iff`), and from the 2817th frame on
it is not on larger ones (`frame_not_mapped`).
-/

namespace KumOS.Paging

open Lib
open Vm (pageDirIdx)

/-- The frames of a machine with `mem_kb` KB: below 1 MB the subtraction wraps. -/
theorem totalFrames_le_iff (memKb : Nat) : (pmmInit memKb).totalFrames ≤ 0xF00 ↔
    0x100000 ≤ u32 (memKb * 1024) ∧ u32 (memKb * 1024) < 0x1001000 := by
  unfold pmmInit
  simp only []
  unfold pmmMaxFrames frameIdx pageSize u32
  split <;> split <;> omega

namespace Phys

variable {im : Image} {memKb : Nat} {s : Phys}

theorem Owned.virtToPhys_low (h : Owned im [] s) {va : Nat} (hva : va < 0x1000000) : s.pagingVirtToPhys im va = va := by
  have hwk := h.walk_low hva
  have hodd : (va / pageSize * pageSize + 3) % 2 = pagePresent := by
    unfold pageSize pagePresent
    omega
  rw [pagingVirtToPhys_eq, translate_of_walk hwk hodd, Option.getD_some]
  unfold pageSize
  omega

/-- `n` calls of `pmm_alloc` after boot hand out the first `n` frames behind the kernel image. -/
theorem allocs_run (im : Image) (memKb : Nat) (mem : Nat → Bytes) {n : Nat}
    (hn : 0x500 + n ≤ 0x100 + (pmmInit memKb).totalFrames) :
    ∃ s, Run (MemStep im) (pagingInit im memKb mem) (List.replicate n .alloc) s ∧
      (∀ i, s.pmm.Free i ↔ 0x500 + n ≤ i ∧ i < 0x100 + (pmmInit memKb).totalFrames) ∧
      (∀ k < n, (0x500 + k) * pageSize ∈ s.pmm.handed) ∧ s.mem = (pagingInit im memKb mem).mem := by
  induction n with
  | zero => exact ⟨_, .nil, fun i => pmmInit_free, fun k hk => absurd hk (Nat.not_lt_zero k), rfl⟩
  | succ n ih =>
    obtain ⟨s, hrun, hfr, hhanded, hmem⟩ := ih (by omega)
    have halloc : pmmAlloc s.pmm = ((0x500 + n) * pageSize, s.pmm.take (0x500 + n)) := by
      refine pmmAlloc_first ((hfr _).2 ⟨Nat.le_refl _, by omega⟩) fun j hj h => ?_
      have := (hfr j).1 h
      omega
    have hsp : MemStep im s .alloc { s with pmm := s.pmm.take (0x500 + n) } := by
      show _ = _
      rw [halloc]
    refine ⟨{ s with pmm := s.pmm.take (0x500 + n) }, ?_, fun i => ?_, fun k hk => ?_, hmem⟩
    · rw [List.replicate_succ']
      exact hrun.snoc hsp
    · rw [pmm_take_free, hfr]
      omega
    · by_cases hkn : k = n
      · rw [hkn]
        exact List.mem_cons_self
      · exact List.mem_cons_of_mem _ (hhanded k (by omega))

/-- On a larger machine the frame at 16 MB is handed out, and nothing is mapped there. -/
theorem handed_not_mapped (im : Image) (memKb : Nat) (mem : Nat → Bytes) (hbig : 0xF00 < (pmmInit memKb).totalFrames) :
    ∃ s, Run (MemStep im) (pagingInit im memKb mem) (List.replicate 2817 .alloc) s ∧
      0x1000000 ∈ s.pmm.handed ∧ s.pagingVirtToPhys im 0x1000000 = 0 := by
  obtain ⟨s, hrun, -, hhanded, hmem⟩ := allocs_run im memKb mem (n := 2817) (by omega)
  refine ⟨s, hrun, hhanded 2816 (by decide), ?_⟩
  have hdi : pageDirIdx 0x1000000 = 4 := by decide
  have hwd : s.word im.pageDir 4 = 0 := by
    rw [word_congr (congrFun hmem _), pagingInit_dir, if_neg (by decide)]
  unfold pagingVirtToPhys ptePtr
  simp only [hdi, hwd]
  rw [if_neg (by decide)]

/-- On a machine with `mem_kb` KB every frame that `pmm_alloc` returns is mapped to itself, in every run, exactly if
the machine has at least 1 MB and no frame above 16 MB. -/
theorem identity_iff (im : Image) (memKb : Nat) (mem : Nat → Bytes) :
    (∀ ops s, Run (MemStep im) (pagingInit im memKb mem) ops s → ∀ f ∈ s.pmm.handed, s.pagingVirtToPhys im f = f) ↔
      0x100000 ≤ u32 (memKb * 1024) ∧ u32 (memKb * 1024) < 0x1001000 := by
  rw [← totalFrames_le_iff]
  constructor
  · intro h
    apply Nat.le_of_not_lt
    intro hbig
    obtain ⟨s, hrun, hf, h0⟩ := handed_not_mapped im memKb mem hbig
    have := h _ s hrun _ hf
    omega
  · intro hsmall ops s hrun f hf
    have hok := MemOk.run hrun
    obtain ⟨i, rfl, hi⟩ := hok.pmm.handed f hf
    refine hok.owned.virtToPhys_low ?_
    unfold pageSize
    omega

/-- With 32 MB the 2817th frame is not mapped. -/
theorem frame_not_mapped : ∃ s,
    Run (MemStep sampleImage) (pagingInit sampleImage 32768 fun _ _ => 0) (List.replicate 2817 .alloc) s ∧
      0x1000000 ∈ s.pmm.handed ∧ s.pagingVirtToPhys sampleImage 0x1000000 ≠ 0x1000000 := by
  obtain ⟨s, hrun, hf, h0⟩ := handed_not_mapped sampleImage 32768 (fun _ _ => 0) (by decide)
  refine ⟨s, hrun, hf, ?_⟩
  rw [h0]
  decide

end Phys

end KumOS.Paging
