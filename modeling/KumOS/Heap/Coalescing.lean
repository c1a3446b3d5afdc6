import KumOS.Heap.Runs

/-!
# What `kfree` merges

`coalesce` looks at the block behind the freed one only.  A free block in front
stays a block of its own, next to the new one, and nothing merges the two later:
no two free blocks meet as long as every block is freed before the one behind it.

    Coalesced w → Step w op w' → (Coalesced w' ↔ Tidy w op)      (step_coalesced_iff)
-/

namespace KumOS.Kmalloc

open Lib

variable {w w' : World} {bs : List Blk} {fl : List Nat} {n p : Nat}

/-- No free block is followed by another one. -/
def Coalesced (w : World) : Prop :=
  ∃ blocks fl, BlocksOk w blocks fl ∧ ∀ a ∈ fl, a + headerSize + size w.heap.mem a ∉ fl

/-- The block that ends where the block of pointer `p` starts is free. -/
def FreeBelow (w : World) (p : Nat) : Prop :=
  ∃ blocks fl, BlocksOk w blocks fl ∧ ∃ a ∈ fl, p = a + headerSize + size w.heap.mem a + headerSize

/-- What is freed has no free block in front of it. -/
def Tidy (w : World) : Op → Prop
  | .kfree p => ¬ FreeBelow w p
  | _ => True

/-! ## In terms of the blocks -/

/-- The free list of a heap in order is one list, whatever the blocks are read as. -/
theorem exists_blocksOk_iff (hi : Inv w) (hs : Shape w.heap bs fl) {P : List Nat → Prop} :
    (∃ blocks fl, BlocksOk w blocks fl ∧ P fl) ↔ P fl := by
  constructor
  · rintro ⟨blocks, fl', hok, hP⟩
    rwa [hs.list.seg.unique hok.list.seg]
  · intro hP
    obtain ⟨bs', fl', hs', hl⟩ := hi
    refine ⟨_, _, blocksOk hs' hl, ?_⟩
    rwa [hs'.list.seg.unique hs.list.seg]

theorem block_end (hs : Shape w.heap bs fl) {a : Blk} (ha : a ∈ bs) :
    a.addr + headerSize + size w.heap.mem a.addr = a.addr + a.len := by
  rw [(hs.header a ha).2, Blk.len, Nat.add_assoc]

theorem coalesced_iff (hi : Inv w) (hs : Shape w.heap bs fl) : Coalesced w ↔ Apart bs := by
  refine (exists_blocksOk_iff hi hs).trans ⟨fun h a ha c hc hfa hfc he => ?_, fun h x hx hy => ?_⟩
  · apply h a.addr (hs.mem_list.2 ⟨a, ha, hfa, rfl⟩)
    rw [block_end hs ha]
    exact hs.mem_list.2 ⟨c, hc, hfc, he⟩
  · obtain ⟨a, ha, hfa, rfl⟩ := hs.mem_list.1 hx
    obtain ⟨c, hc, hfc, he⟩ := hs.mem_list.1 hy
    rw [block_end hs ha] at he
    exact h a ha c hc hfa hfc he

theorem freeBelow_iff (hi : Inv w) (hs : Shape w.heap bs fl) :
    FreeBelow w p ↔ ∃ a ∈ bs, a.requested = none ∧ p = a.addr + a.len + headerSize := by
  refine (exists_blocksOk_iff hi hs).trans ⟨?_, ?_⟩
  · rintro ⟨x, hx, hp⟩
    obtain ⟨a, ha, hfa, rfl⟩ := hs.mem_list.1 hx
    rw [block_end hs ha] at hp
    exact ⟨a, ha, hfa, hp⟩
  · rintro ⟨a, ha, hfa, hp⟩
    refine ⟨a.addr, hs.mem_list.2 ⟨a, ha, hfa, rfl⟩, ?_⟩
    rw [block_end hs ha]
    exact hp

/-! ## Steps -/

theorem step_coalesced_iff (hi : Inv w) (hc : Coalesced w) {op : Op} (h : Step w op w') : Coalesced w' ↔ Tidy w op := by
  have hinv := step_inv hi h
  have hi' := hi
  obtain ⟨bs, fl, hs, hl⟩ := hi'
  have hap := (coalesced_iff hi hs).1 hc
  cases op with
  | kmalloc n =>
    obtain ⟨hmax, p, h', hk, rfl⟩ := h
    obtain ⟨p', h'', hk', hres⟩ := kmalloc_spec hs hmax
    cases hk.symm.trans hk'
    refine iff_of_true ?_ trivial
    rcases hres with ⟨-, rfl, -⟩ | ⟨-, bs', fl', hs', hsv⟩
    · exact (coalesced_iff hinv hs).2 hap
    · exact (coalesced_iff hinv hs').2 (hsv.apart hap)
  | kfree p =>
    obtain ⟨hp, rfl⟩ := h
    show _ ↔ ¬ FreeBelow w p
    rw [freeBelow_iff hi hs]
    by_cases h0 : p = 0
    · have hk : kfree w.heap p = w.heap := by simp [kfree, h0]
      have hs' : Shape (kfree w.heap p) bs fl := by rwa [hk]
      refine iff_of_true ((coalesced_iff hinv hs').2 hap) ?_
      rintro ⟨a, -, -, he⟩
      unfold headerSize at he
      omega
    · obtain ⟨k, hk⟩ := hp.resolve_left h0
      obtain ⟨bs', fl', hs', -, -, -, hiff⟩ := kfree_spec hs (hl.mem_iff.1 hk)
      rw [coalesced_iff hinv hs', hiff hap]
      simp
  | store x v =>
    obtain ⟨⟨e, he, h1, h2⟩, rfl⟩ := h
    obtain ⟨c, hc, -, hce⟩ := (live_iff hl).1 he
    rw [payloadLen_eq hs hc hce] at h2
    exact iff_of_true ((coalesced_iff hinv (store_shape hs hc (by omega) (by omega) v)).2 hap) trivial

/-! ## An empty heap -/

/-- With nothing in use and no two free blocks in a row there is one block at most. -/
theorem single_block {s e : Nat} (hl : Layout s e bs) (hnn : allocs bs = []) (hap : Apart bs) (hlt : s < e) :
    ∃ b, bs = [b] ∧ b.requested = none ∧ s + b.len = e := by
  have hfr : ∀ b ∈ bs, b.requested = none := by
    intro b hb
    cases hr : b.requested with
    | none => rfl
    | some n =>
      have he : (b.addr + headerSize, n) ∈ allocs bs := mem_allocs.2 ⟨b, hb, hr, rfl⟩
      simp [hnn] at he
  match bs, hl.tiles with
  | [], ht => exact absurd ht (Nat.ne_of_lt hlt)
  | [b], ht => exact ⟨b, rfl, hfr b (by simp), ht.2⟩
  | b :: c :: r, ht =>
    exact absurd (by rw [ht.1]; exact ht.2.1) (hap b (by simp) c (by simp) (hfr b (by simp)) (hfr c (by simp)))

theorem kmalloc_empty (hs : Shape w.heap bs fl) (hnn : allocs bs = []) (hap : Apart bs) (h0 : 0 < n)
    (hn : n + headerSize ≤ w.heap.heapEnd - w.heap.heapStart) : ∃ p h', kmalloc w.heap n = some (p, h') ∧ p ≠ 0 := by
  have hend := hs.end_le
  have hcap := hs.cap_le
  unfold headerSize at hn
  obtain ⟨b, rfl, hfr, hlen⟩ := single_block hs.layout hnn hap (by omega)
  have h8 := hs.layout.aligned b (by simp)
  obtain ⟨p, h', hk, hres⟩ := kmalloc_spec (n := n) hs (by omega)
  refine ⟨p, h', hk, ?_⟩
  rcases hres with ⟨-, -, hsmall⟩ | ⟨hp, -⟩
  · -- the one block is long enough
    have hb := hsmall (by omega) b.addr (hs.mem_list.2 ⟨b, by simp, hfr, rfl⟩)
    rw [(hs.header b (by simp)).2] at hb
    unfold Blk.len headerSize at hlen
    unfold round8 u32 at hb
    omega
  · exact hp

/-! ## Every run -/

/-- In every state reached by frees that find no free block in front, no two
free blocks meet and an empty heap serves any request its extent has room for;
a step from there keeps the free blocks apart exactly if it is such a step. -/
theorem frees_coalesce_iff (h : Heap) (start size : Nat) (h0 : 0 < start) (h8 : 8 ∣ start)
    (hmax : start + size ≤ 0x40000000) (ops : List Op) (w : World)
    (hrun : Run (fun w op w' => Step w op w' ∧ Tidy w op) ⟨kmallocInit h start size, []⟩ ops w) :
    Coalesced w ∧
      (w.live = [] → ∀ n, 0 < n → n + headerSize ≤ w.heap.heapEnd - w.heap.heapStart →
        ∃ p h', kmalloc w.heap n = some (p, h') ∧ p ≠ 0) ∧
      ∀ op w', Step w op w' → (Coalesced w' ↔ Tidy w op) := by
  have hs0 := kmallocInit_shape h h0 h8 hmax
  have hi0 : Inv ⟨kmallocInit h start size, []⟩ := ⟨[], [], hs0, .nil⟩
  obtain ⟨hi, hc⟩ : Inv w ∧ Coalesced w := by
    refine Run.invariant (fun w => Inv w ∧ Coalesced w) ⟨hi0, ?_⟩ ?_ hrun
    · exact (coalesced_iff hi0 hs0).2 (by simp [Apart])
    · rintro w1 op w2 ⟨hi, hc⟩ ⟨hsp, htidy⟩
      exact ⟨step_inv hi hsp, (step_coalesced_iff hi hc hsp).2 htidy⟩
  refine ⟨hc, ?_, fun op w' => step_coalesced_iff hi hc⟩
  intro hlv n h0 hn
  have hi' := hi
  obtain ⟨bs, fl, hs, hl⟩ := hi'
  rw [hlv] at hl
  exact kmalloc_empty hs hl.symm.eq_nil ((coalesced_iff hi hs).1 hc) h0 hn

/-- Freed from behind, the two blocks are one again, and serve a request of their size and the header between them. -/
theorem frees_coalesce_iff_behind : ∃ w, Run (fun w op w' => Step w op w' ∧ Tidy w op) ⟨bootHeap, []⟩
      [.kmalloc 8, .kmalloc 8, .kfree 0x200028, .kfree 0x200010] w ∧
    Coalesced w ∧ ∃ p h', kmalloc w.heap 32 = some (p, h') ∧ p ≠ 0 := by
  have h2 : Run (fun w op w' => Step w op w' ∧ Tidy w op) ⟨bootHeap, []⟩ [.kmalloc 8, .kmalloc 8]
      ⟨twoBlocks, [(0x200028, 8), (0x200010, 8)]⟩ :=
    .snoc (.single ⟨⟨by decide, 0x200010, _, rfl, rfl⟩, trivial⟩) ⟨⟨by decide, 0x200028, _, rfl, rfl⟩, trivial⟩
  have h3 : Run (fun w op w' => Step w op w' ∧ Tidy w op) ⟨bootHeap, []⟩ [.kmalloc 8, .kmalloc 8, .kfree 0x200028]
      ⟨kfree twoBlocks 0x200028, [(0x200010, 8)]⟩ := by
    refine h2.snoc ⟨⟨.inr ⟨8, by decide⟩, rfl⟩, ?_⟩
    rintro ⟨blocks, fl, hok, a, ha, -⟩
    have hfl : fl = [] := hok.list.seg.unique (q := 0) (show _ = 0 by decide +kernel)
    rw [hfl] at ha
    cases ha
  have h4 : Run (fun w op w' => Step w op w' ∧ Tidy w op) ⟨bootHeap, []⟩
      [.kmalloc 8, .kmalloc 8, .kfree 0x200028, .kfree 0x200010] ⟨kfree (kfree twoBlocks 0x200028) 0x200010, []⟩ := by
    refine h3.snoc ⟨⟨.inr ⟨8, by decide⟩, rfl⟩, ?_⟩
    rintro ⟨blocks, fl, hok, a, ha, hp⟩
    have hfl : fl = [0x200018] := by
      refine hok.list.seg.unique (q := 0) ⟨?_, ?_, ?_, show _ = 0 from ?_⟩ <;> decide +kernel
    rw [hfl] at ha
    obtain rfl := List.mem_singleton.1 ha
    revert hp
    decide +kernel
  obtain ⟨hc, hserve, -⟩ := frees_coalesce_iff ⟨0, 0, 0, 0, fun _ => 0⟩ 0x200000 (512 * 1024) (by decide) (by decide)
    (by decide) _ _ h4
  exact ⟨_, h4, hc, hserve rfl 32 (by decide) (by decide +kernel)⟩

/-- Freed in the order of their addresses, the two blocks stay two free blocks. -/
theorem freed_in_order_apart : ∃ w, Run Step ⟨bootHeap, []⟩ [.kmalloc 8, .kmalloc 8, .kfree 0x200010, .kfree 0x200028] w ∧
    w.live = [] ∧ ¬ Coalesced w := by
  refine ⟨⟨kfree (kfree twoBlocks 0x200010) 0x200028, []⟩, ?_, rfl, ?_⟩
  · have h2 : Run Step ⟨bootHeap, []⟩ [.kmalloc 8, .kmalloc 8] ⟨twoBlocks, [(0x200028, 8), (0x200010, 8)]⟩ :=
      .snoc (.single ⟨by decide, 0x200010, _, rfl, rfl⟩) ⟨by decide, 0x200028, _, rfl, rfl⟩
    have h3 : Run Step ⟨bootHeap, []⟩ [.kmalloc 8, .kmalloc 8, .kfree 0x200010]
        ⟨kfree twoBlocks 0x200010, [(0x200028, 8)]⟩ := h2.snoc ⟨.inr ⟨8, by decide⟩, rfl⟩
    exact h3.snoc ⟨.inr ⟨8, by decide⟩, rfl⟩
  · rintro ⟨blocks, fl, hok, h⟩
    have hfl : fl = [0x200018, 0x200000] := by
      refine hok.list.seg.unique (q := 0) ⟨?_, ?_, ?_, ?_, ?_, ?_, show _ = 0 from ?_⟩ <;> decide +kernel
    rw [hfl] at h
    exact h 0x200000 (by decide) (by decide +kernel)

end KumOS.Kmalloc
