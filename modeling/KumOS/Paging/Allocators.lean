import KumOS.Paging.Tables

/-!
# The three allocators together

`kmalloc`, `heap_alloc` and `vmalloc` in any order, from the configuration of
`kernel_main`.  `HEAP_VIRT_BASE` is the start of the `kmalloc` arena, so the
first block of `heap_alloc` lies over it (`heapAlloc_over_kmalloc`), and the
heap runs on into frames that `pmm_alloc` hands out.  `Sized` says of a call
when its sums do not wrap and the page tables can be reached, `Keeps` when it
does not bring a live block of `heap_alloc` together with another's memory;
both look at the state before the call.
-/

namespace KumOS.Paging

open Lib Kmalloc Vm

variable {s : Vm} {n p : Nat}

/-- The kernel's memory, and what the clients of `kmalloc` hold. -/
structure World where
  vm : Vm
  live : List (Nat × Nat)

variable {w : World}

inductive Op
  | kmalloc (n : Nat)
  | kfree (p : Nat)
  | heapAlloc (n : Nat)
  | heapFree (p : Nat)
  | vmalloc (n : Nat)
  | vmfree (p : Nat)

def Step (w : World) : Op → World → Prop
  | .kmalloc n, w' => ∃ p h, Kmalloc.kmalloc w.vm.km n = some (p, h) ∧
      w' = ⟨{ w.vm with km := h }, if p = 0 then w.live else (p, n) :: w.live⟩
  | .kfree p, w' => w' = ⟨{ w.vm with km := Kmalloc.kfree w.vm.km p }, w.live.filter fun e => e.1 ≠ p⟩
  | .heapAlloc n, w' => ∃ a s, w.vm.heapAlloc n = some (a, s) ∧ w' = { w with vm := s }
  | .heapFree p, w' => w' = { w with vm := w.vm.heapFree p }
  | .vmalloc n, w' => ∃ a s, w.vm.vmalloc n = some (a, s) ∧ w' = { w with vm := s }
  | .vmfree p, w' => ∃ s, w.vm.vmfree p = some s ∧ w' = { w with vm := s }

/-! ## Sharing -/

/-- `x` is in a live block of `kmalloc`, header included. -/
def InKmalloc (w : World) (x : Nat) : Prop :=
  ∃ e ∈ w.live, e.1 - headerSize ≤ x ∧ x < e.1 + payloadLen w.vm.ram e.1

def InHeap (w : World) (x : Nat) : Prop :=
  ∃ b ∈ w.vm.hblocks, b.used = true ∧ b.addr ≤ x ∧ x < b.addr + b.size

def InVmalloc (w : World) (x : Nat) : Prop :=
  ∃ r ∈ w.vm.vregions, r.active = true ∧ r.virtStart ≤ x ∧ x < r.virtStart + r.size

/-- No address is in live blocks of two allocators, and no frame behind a live
block of `heap_alloc` has been handed out. -/
structure NoSharing (w : World) : Prop where
  kmalloc_heap : ∀ x, ¬ (InKmalloc w x ∧ InHeap w x)
  kmalloc_vmalloc : ∀ x, ¬ (InKmalloc w x ∧ InVmalloc w x)
  heap_vmalloc : ∀ x, ¬ (InHeap w x ∧ InVmalloc w x)
  frames : ∀ x pa, InHeap w x → w.vm.translate x = some pa → pa / pageSize * pageSize ∉ w.vm.pmm.handed

/-! ## Which calls -/

/-- No sum wraps, or the heap is full up to its last header and the request is refused. -/
def KmallocFits (h : Heap) (n : Nat) : Prop :=
  n ≤ 0xFFFFFFF8 ∧ h.heapEnd + headerSize + round8 n < 2 ^ 32 ∨
    0xFFFFFFF1 ≤ n ∧ n ≤ 0xFFFFFFF8 ∧ h.heapCap < h.heapEnd + 8 ∨
    0xFFFFFFF9 ≤ n ∧ n < 2 ^ 32 ∧ h.heapCap < h.heapEnd + 16 ∧ h.freeList = 0

/-- No sum wraps, or there is no entry of `hblocks` left. -/
def HeapAllocFits (s : Vm) (n : Nat) : Prop :=
  n ≤ 0xFFFFFFF8 ∧ s.heapBrkPtr + round8 n + 4095 < 2 ^ 32 ∨
    heapMaxBlocks ≤ s.hblocks.length ∧ (n ≤ 0xFFFFFFF8 ∨ ∀ b ∈ s.hblocks, b.used = true)

/-- `vmalloc(n)` is not refused before it asks for frames. -/
def VmallocTries (s : Vm) (n : Nat) : Prop :=
  n ≠ 0 ∧ s.vregions.length < vmallocMaxRegions ∧ u32 (s.vmallocPtr + pageAlign n) < vmallocEnd

/-- The page tables of the region are frames the kernel can reach. -/
def VmallocReaches (s : Vm) (n : Nat) : Prop :=
  VmallocTries s n → TablesReach s s.vmallocPtr (s.vmallocPtr + pageAlign n)

def Sized (w : World) : Op → Prop
  | .kmalloc n => KmallocFits w.vm.km n
  | .kfree p => p = 0 ∨ ∃ n, (p, n) ∈ w.live
  | .heapAlloc n => HeapAllocFits w.vm n
  | .vmalloc n => VmallocReaches w.vm n
  | _ => True

/-- `[a, a + size)` is behind the blocks of `kmalloc` and off the frames handed out. -/
def Clear (w : World) (a size : Nat) : Prop :=
  w.vm.km.heapEnd ≤ a ∧ ∀ f ∈ w.vm.pmm.handed, f + pageSize ≤ a ∨ a + size ≤ f

def Keeps (w : World) : Op → Prop
  -- the arena does not grow into a live block
  | .kmalloc n => n ≠ 0 → w.vm.km.heapEnd + (headerSize + round8 n) ≤ w.vm.km.heapCap →
      ∀ b ∈ w.vm.hblocks, b.used = true → w.vm.km.heapEnd + (headerSize + round8 n) ≤ b.addr
  -- neither a free block that may be used again nor the end of the heap is somebody else's
  | .heapAlloc n => n ≠ 0 →
      (∀ b ∈ w.vm.hblocks, b.used = false → round8 n ≤ b.size → Clear w b.addr b.size) ∧
      ((∀ b ∈ w.vm.hblocks, b.used = false → b.size < round8 n) → w.vm.hblocks.length < heapMaxBlocks →
        pageAlign (u32 (w.vm.heapBrkPtr + round8 n)) < heapVirtMax → Clear w w.vm.heapBrkPtr (round8 n))
  -- no frame that may be handed out is behind a live block
  | .vmalloc n => VmallocTries w.vm n → ∀ b ∈ w.vm.hblocks, b.used = true → ∀ f, w.vm.pmm.Free f →
      f * pageSize + pageSize ≤ b.addr ∨ b.addr + b.size ≤ f * pageSize
  | _ => True

def FittingStep (w : World) (op : Op) (w' : World) : Prop := Step w op w' ∧ Sized w op ∧ Keeps w op

/-! ## The invariant -/

/-- The break is at a page below `HEAP_VIRT_MAX`, and the blocks lie below it. -/
structure BlocksBelow (s : Vm) : Prop where
  base : heapVirtBase ≤ s.heapBrkPtr
  last : s.heapBrkPtr < heapVirtMax
  page : pageSize ∣ s.heapBrkPtr
  inside : ∀ b ∈ s.hblocks, heapVirtBase ≤ b.addr ∧ b.addr + b.size ≤ s.heapBrkPtr

structure RegionsInside (s : Vm) : Prop where
  ptr : 0x1000000 ≤ s.vmallocPtr ∧ s.vmallocPtr < 0x2000000 ∧ 4096 ∣ s.vmallocPtr
  regions : ∀ r ∈ s.vregions, 0x1000000 ≤ r.virtStart ∧ r.virtStart + r.size ≤ 0x2000000

structure Good (w : World) : Prop where
  vm : VmOk w.vm
  low : TablesLow w.vm
  km : Kmalloc.Inv ⟨w.vm.km, w.live⟩
  start : w.vm.km.heapStart = 0x200000
  cap : w.vm.km.heapCap = 0x280000
  regions : RegionsInside w.vm
  blocks : BlocksBelow w.vm

/-- No end of an allocator goes back. -/
structure Grows (s s' : Vm) : Prop where
  heapEnd : s.km.heapEnd ≤ s'.km.heapEnd
  brk : s.heapBrkPtr ≤ s'.heapBrkPtr
  ptr : s.vmallocPtr ≤ s'.vmallocPtr

/-- The live blocks of `heap_alloc` have their memory for themselves. -/
def HeapClear (w : World) : Prop := ∀ b ∈ w.vm.hblocks, b.used = true → Clear w b.addr b.size

/-- A live block of `kmalloc` is in the arena, below `heap_end`. -/
theorem inKmalloc_arena (hg : Good w) {x : Nat} (hx : InKmalloc w x) : x < w.vm.km.heapEnd ∧ w.vm.km.heapEnd ≤ 0x280000 := by
  obtain ⟨bs, fl, hs, hl⟩ := hg.km
  obtain ⟨e, he, h1, h2⟩ := hx
  obtain ⟨c, hc, -, hce⟩ := (live_iff hl).1 he
  have hlen : payloadLen w.vm.ram e.1 = c.size := payloadLen_eq hs hc hce
  have hin : c.addr + c.len ≤ w.vm.km.heapEnd := (hs.layout.tiles.mem hc).2
  have hend := hs.end_le
  rw [hg.cap] at hend
  unfold Blk.len at hin
  exact ⟨by omega, hend⟩

theorem Good.noSharing (hg : Good w) (hc : HeapClear w) : NoSharing w := by
  have hheap : ∀ {x}, InHeap w x → x < 0x1000000 := by
    rintro x ⟨b, hb, -, -, h2⟩
    have := (hg.blocks.inside b hb).2
    have := hg.blocks.last
    unfold heapVirtMax at this
    omega
  have hvm : ∀ {x}, InVmalloc w x → 0x1000000 ≤ x := by
    rintro x ⟨r, hr, -, h1, -⟩
    have := hg.regions.regions r hr
    omega
  refine ⟨?_, ?_, ?_, ?_⟩
  · rintro x ⟨h1, b, hb, hu, h2, -⟩
    have := inKmalloc_arena hg h1
    have := (hc b hb hu).1
    omega
  · rintro x ⟨h1, h2⟩
    have := inKmalloc_arena hg h1
    have := hvm h2
    omega
  · rintro x ⟨h1, h2⟩
    have := hheap h1
    have := hvm h2
    omega
  · intro x pa hx ht hmem
    rw [translate_low hg.vm (hheap hx)] at ht
    cases ht
    obtain ⟨b, hb, hu, h1, h2⟩ := hx
    have := (hc b hb hu).2 _ hmem
    unfold pageSize at this
    omega

/-! ## Steps of `kmalloc` -/

theorem VmOk.of_km (h : VmOk s) {k : Heap} (hk : ∀ x, 0x500000 ≤ x → k.mem x = s.ram x) : VmOk { s with km := k } := by
  refine ⟨h.pmm, h.dir, h.tables, h.high, fun d p hp i hi => ?_⟩
  have hd : 0x500000 ≤ p := by
    obtain hd | hd := Nat.lt_or_ge d 4
    · have := h.dir d hd
      rw [show s.pageDir d = some (.frame p) from hp] at this
      cases this
    · obtain ⟨q, hq, hq1, -⟩ := h.high d _ hd hp
      cases hq
      exact hq1
  have hsm : Bytes.get32 k.mem (p + 4 * i) = s.ram.get32 (p + 4 * i) :=
    Bytes.get32_congr fun j _ => hk _ (by omega)
  show Bytes.get32 k.mem (p + 4 * i) % 2 = 1 → 0x500 ≤ Bytes.get32 k.mem (p + 4 * i) / 4096
  rw [hsm]
  exact h.entries d p hp i hi

/-- A request that fits is served or refused, and refused without a trace. -/
theorem kmalloc_fits {h : Heap} {bs : List Blk} {fl : List Nat} (hs : Shape h bs fl) (hf : KmallocFits h n) :
    ∃ p h', kmalloc h n = some (p, h') ∧
      (p = 0 ∧ h' = h ∨ p ≠ 0 ∧ ∃ bs' fl', Shape h' bs' fl' ∧ Served h h' bs bs' p n) := by
  have hend := hs.end_le
  have hcap := hs.cap_le
  by_cases hsum : n ≤ 0xFFFFFFF8 ∧ h.heapEnd + headerSize + round8 n < 2 ^ 32
  · have hro : n ≤ round8 n := by
      unfold round8 u32
      omega
    obtain ⟨p, h', hk, hres⟩ := kmalloc_cases hs hro (by omega)
    exact ⟨p, h', hk, hres.imp_left fun hr => ⟨hr.1, hr.2.1⟩⟩
  have hbig : 0xFFFFFFF1 ≤ n := by
    unfold KmallocFits at hf
    omega
  rcases kmalloc_search hs (show n ≠ 0 by omega) with ⟨b, hb, hfit, -⟩ | ⟨-, hk⟩
  · -- no block of the list is that large, and with the request rounded to 0 the list is empty
    exfalso
    obtain ⟨c, hc, -, rfl⟩ := hs.mem_list.1 hb
    have hin := hs.layout.tiles.mem hc
    have hne : h.freeList ≠ 0 := by
      intro hz
      rw [hs.list.seg.unique (q := 0) (show DSeg _ _ _ _ _ [] from hz)] at hb
      cases hb
    rw [(hs.header c hc).2] at hfit
    unfold KmallocFits at hf
    unfold Blk.len round8 u32 headerSize at *
    omega
  · have he : extendHeap h (round8 n) = (0, h) := by
      unfold extendHeap
      rw [if_pos]
      unfold KmallocFits at hf
      unfold round8 u32 headerSize at *
      omega
    rw [he, if_pos rfl] at hk
    exact ⟨0, h, hk, .inl ⟨rfl, rfl⟩⟩

/-- The arena stays where it is, or grows by the block. -/
theorem kmalloc_good (hg : Good w) {h : Heap} (hf : KmallocFits w.vm.km n) (hk : Kmalloc.kmalloc w.vm.km n = some (p, h)) :
    Good ⟨{ w.vm with km := h }, if p = 0 then w.live else (p, n) :: w.live⟩ ∧
      (h.heapEnd = w.vm.km.heapEnd ∨
        n ≠ 0 ∧ h.heapEnd = w.vm.km.heapEnd + (headerSize + round8 n) ∧ h.heapEnd ≤ w.vm.km.heapCap) := by
  obtain ⟨bs, fl, hs, hl⟩ := hg.km
  obtain ⟨p', h', hk', hres⟩ := kmalloc_fits hs hf
  cases hk.symm.trans hk'
  rcases hres with ⟨rfl, rfl⟩ | ⟨hp, bs', fl', hs', hsv⟩
  · exact ⟨hg, .inl rfl⟩
  have hend := hs'.end_le
  rw [hsv.heapCap] at hend
  have hend' := hend
  rw [hg.cap] at hend'
  rw [if_neg hp]
  refine ⟨⟨hg.vm.of_km fun x hx => ?_, hg.low, ⟨bs', fl', hs', (hl.cons _).trans hsv.allocs.symm⟩,
    hsv.heapStart.trans hg.start, hsv.heapCap.trans hg.cap, ⟨hg.regions.ptr, hg.regions.regions⟩,
    ⟨hg.blocks.base, hg.blocks.last, hg.blocks.page, hg.blocks.inside⟩⟩, ?_⟩
  · exact hsv.within x (hs'.layout.outside_out (by omega))
  · refine hsv.heapEnd.imp_right fun he => ⟨?_, he, hend⟩
    rintro rfl
    cases (show kmalloc w.vm.km 0 = some (0, w.vm.km) from rfl).symm.trans hk
    exact hp rfl

theorem kfree_good (hg : Good w) (hp : p = 0 ∨ ∃ n, (p, n) ∈ w.live) :
    Good ⟨{ w.vm with km := Kmalloc.kfree w.vm.km p }, w.live.filter fun e => e.1 ≠ p⟩ ∧
      (Kmalloc.kfree w.vm.km p).heapEnd = w.vm.km.heapEnd := by
  have hinv := (kfree_step hg.km hp).1
  have hregions : RegionsInside { w.vm with km := Kmalloc.kfree w.vm.km p } := ⟨hg.regions.ptr, hg.regions.regions⟩
  have hblocks : BlocksBelow { w.vm with km := Kmalloc.kfree w.vm.km p } :=
    ⟨hg.blocks.base, hg.blocks.last, hg.blocks.page, hg.blocks.inside⟩
  by_cases h0 : p = 0
  · have hk : Kmalloc.kfree w.vm.km p = w.vm.km := if_pos h0
    rw [hk] at hinv hregions hblocks ⊢
    exact ⟨⟨hg.vm, hg.low, hinv, hg.start, hg.cap, hregions, hblocks⟩, rfl⟩
  obtain ⟨n, hn⟩ := hp.resolve_left h0
  obtain ⟨bs, fl, hs, hl⟩ := hg.km
  obtain ⟨bs', fl', hs', hrel, -, -⟩ := kfree_spec hs (hl.mem_iff.1 hn)
  have hend := hs.end_le
  rw [hg.cap] at hend
  refine ⟨⟨hg.vm.of_km fun x hx => ?_, hg.low, hinv, hrel.heapStart.trans hg.start, hrel.heapCap.trans hg.cap,
    hregions, hblocks⟩, hrel.heapEnd⟩
  exact hrel.within x (hs.layout.outside_out (by omega))

/-! ## Steps of `heap_alloc` -/

/-- The pages below 16 MB are all mapped: `heap_grow` moves the break, and nothing else. -/
theorem heapGrow_eq (hok : VmOk s) (size : Nat) : s.heapGrow size =
    if heapVirtMax ≤ pageAlign (u32 (s.heapBrkPtr + size)) then some (false, s)
    else some (true, { s with heapBrkPtr := pageAlign (u32 (s.heapBrkPtr + size)) }) := by
  unfold heapGrow
  simp only []
  split
  · rfl
  rename_i hmax
  unfold heapVirtMax at hmax
  generalize pageAlign (u32 (s.heapBrkPtr + size)) = newBrk at hmax ⊢
  generalize pageAlign s.heapBrkPtr = addr
  have hlp : growLoop ((newBrk - addr) / pageSize) addr s = some (true, s) := by
    by_cases hle : newBrk ≤ addr
    · rw [Nat.sub_eq_zero_of_le hle]
      rfl
    · refine growLoop_low hok _ ?_
      unfold pageSize
      omega
  rw [hlp]
  rfl

theorem found {l : List HBlock} {q : HBlock → Bool} {i : Nat} (hi : l.findIdx? q = some i) :
    l.getD i ⟨0, 0, false⟩ ∈ l ∧ q (l.getD i ⟨0, 0, false⟩) = true := by
  obtain ⟨hlt, hq, -⟩ := List.findIdx?_eq_some_iff_getElem.1 hi
  rw [List.getD_eq_getElem?_getD, List.getElem?_eq_getElem hlt, Option.getD_some]
  exact ⟨List.getElem_mem hlt, hq⟩

/-- The state after `heap_alloc` has moved the break for a block of `size` bytes. -/
def Vm.withBlock (s : Vm) (size : Nat) : Vm := { s with
  hblocks := s.hblocks ++ [⟨s.heapBrkPtr, size, true⟩]
  heapBrkPtr := pageAlign (u32 (s.heapBrkPtr + size))
  heapBytesUsed := u32 (s.heapBytesUsed + size) }

/-- What `heap_alloc` does: a free block is used again, the request is refused, or the break moves. -/
theorem heapAlloc_cases (hok : VmOk s) (h0 : n ≠ 0) :
    (∃ i k, ∃ b ∈ s.hblocks, b.used = false ∧ round8 n ≤ b.size ∧ s.heapAlloc n = some (b.addr,
        { s with hblocks := s.hblocks.set i { b with used := true }, heapBytesUsed := k })) ∨
    (∀ b ∈ s.hblocks, b.used = false → b.size < round8 n) ∧
      ((heapMaxBlocks ≤ s.hblocks.length ∨ heapVirtMax ≤ pageAlign (u32 (s.heapBrkPtr + round8 n))) ∧
          s.heapAlloc n = some (0, s) ∨
        s.hblocks.length < heapMaxBlocks ∧ pageAlign (u32 (s.heapBrkPtr + round8 n)) < heapVirtMax ∧
          s.heapAlloc n = some (s.heapBrkPtr, s.withBlock (round8 n))) := by
  unfold Vm.heapAlloc
  rw [if_neg h0]
  simp only [heapGrow_eq hok]
  cases hi : s.hblocks.findIdx? fun b => !b.used && round8 n ≤ b.size with
  | some i =>
    obtain ⟨hmem, hq⟩ := found hi
    simp only [Bool.and_eq_true, Bool.not_eq_true', decide_eq_true_eq] at hq
    exact .inl ⟨_, _, _, hmem, hq.1, hq.2, rfl⟩
  | none =>
    refine .inr ⟨fun b hb hu => ?_, ?_⟩
    · have := List.findIdx?_eq_none_iff.1 hi b hb
      simpa [hu] using this
    · by_cases hlen : heapMaxBlocks ≤ s.hblocks.length
      · exact .inl ⟨.inl hlen, if_pos hlen⟩
      · by_cases hmax : heapVirtMax ≤ pageAlign (u32 (s.heapBrkPtr + round8 n))
        · refine .inl ⟨.inr hmax, ?_⟩
          simp only [if_neg hlen, if_pos hmax]
          rfl
        · refine .inr ⟨by omega, by omega, ?_⟩
          simp only [if_neg hlen, if_neg hmax]
          rfl

/-- The book-keeping of `heap_alloc` is all that changes. -/
theorem Good.of_blocks (hg : Good w) {hb : List HBlock} {brk k : Nat}
    (h : BlocksBelow { w.vm with hblocks := hb, heapBrkPtr := brk, heapBytesUsed := k }) :
    Good { w with vm := { w.vm with hblocks := hb, heapBrkPtr := brk, heapBytesUsed := k } } :=
  ⟨⟨hg.vm.pmm, hg.vm.dir, hg.vm.tables, hg.vm.high, hg.vm.entries⟩, hg.low, hg.km, hg.start, hg.cap,
    ⟨hg.regions.ptr, hg.regions.regions⟩, h⟩

/-- A mark in the table moves no block. -/
theorem Good.set (hg : Good w) {i k : Nat} {b : HBlock} (hb : b ∈ w.vm.hblocks) {used : Bool} :
    Good { w with vm := { w.vm with hblocks := w.vm.hblocks.set i { b with used := used }, heapBytesUsed := k } } := by
  refine hg.of_blocks ⟨hg.blocks.base, hg.blocks.last, hg.blocks.page, fun c hc => ?_⟩
  rcases List.mem_or_eq_of_mem_set hc with hc | rfl
  · exact hg.blocks.inside c hc
  · exact hg.blocks.inside b hb

/-- The new break is behind the block. -/
theorem Good.withBlock (hg : Good w) (hlen : w.vm.hblocks.length < heapMaxBlocks) (hf : HeapAllocFits w.vm n)
    (hmax : pageAlign (u32 (w.vm.heapBrkPtr + round8 n)) < heapVirtMax) :
    Good { w with vm := w.vm.withBlock (round8 n) } ∧
      w.vm.heapBrkPtr + round8 n ≤ pageAlign (u32 (w.vm.heapBrkPtr + round8 n)) := by
  have hbs := hg.blocks.base
  have hlt := hg.blocks.last
  obtain ⟨-, hsum⟩ := hf.resolve_right fun h => absurd h.1 (by omega)
  have hnew : w.vm.heapBrkPtr + round8 n ≤ pageAlign (u32 (w.vm.heapBrkPtr + round8 n)) ∧
      pageSize ∣ pageAlign (u32 (w.vm.heapBrkPtr + round8 n)) := by
    unfold pageAlign pageSize round8 u32 at *
    omega
  refine ⟨hg.of_blocks ⟨by show heapVirtBase ≤ pageAlign _; omega, hmax, hnew.2, fun c hc => ?_⟩, hnew.1⟩
  show heapVirtBase ≤ c.addr ∧ c.addr + c.size ≤ pageAlign (u32 (w.vm.heapBrkPtr + round8 n))
  rcases List.mem_append.1 hc with hc | hc
  · have := hg.blocks.inside c hc
    omega
  · obtain rfl := List.mem_singleton.1 hc
    exact ⟨hbs, hnew.1⟩

/-! ## Steps of `vmalloc` -/

theorem Safe.good (h : Safe w.vm s) (hg : Good w) (hlow : TablesLow s) : Good { w with vm := s } := by
  obtain ⟨hok, hram⟩ := h.ok hg.vm hlow
  obtain ⟨bs, fl, hs, hl⟩ := hg.km
  have hend := hs.end_le
  rw [hg.cap] at hend
  have hs' : Shape s.km bs fl := by
    rw [h.km]
    refine hs.congr fun y hy x _ hx => hram x ?_
    obtain ⟨c, hc, rfl⟩ := List.mem_map.1 hy
    have := (hs.layout.tiles.mem hc).2
    unfold Blk.len at this
    omega
  refine ⟨hok, hlow, ⟨bs, fl, hs', hl⟩, by rw [h.km]; exact hg.start, by rw [h.km]; exact hg.cap, ?_, ?_⟩
  · exact ⟨by rw [h.vmallocPtr]; exact hg.regions.ptr, by rw [h.vregions]; exact hg.regions.regions⟩
  · obtain ⟨h1, h2, h3, h4⟩ := hg.blocks
    exact ⟨by rwa [h.brk], by rwa [h.brk], by rwa [h.brk], by rwa [h.hblocks, h.brk]⟩

/-- What the calls of the virtual allocator leave of the others. -/
structure Beside (s s' : Vm) : Prop where
  heapEnd : s'.km.heapEnd = s.km.heapEnd
  hblocks : s'.hblocks = s.hblocks
  brk : s'.heapBrkPtr = s.heapBrkPtr

theorem Safe.beside {s' : Vm} (h : Safe s s') : Beside s s' := ⟨by rw [h.km], h.hblocks, h.brk⟩

/-- `vmalloc` returns NULL, or the region behind the last one; its frames were free. -/
theorem vmalloc_good (hg : Good w) (hr : VmallocReaches w.vm n) :
    ∃ a s, w.vm.vmalloc n = some (a, s) ∧ Good { w with vm := s } ∧ Beside w.vm s ∧
      (∀ f ∈ s.pmm.handed, f ∈ w.vm.pmm.handed ∨
        VmallocTries w.vm n ∧ ∃ i, w.vm.pmm.Free i ∧ f = i * pageSize) ∧
      (a = 0 ∧ s.vmallocPtr = w.vm.vmallocPtr ∨ a = w.vm.vmallocPtr ∧ VmallocTries w.vm n ∧
        s.vmallocPtr = w.vm.vmallocPtr + pageAlign n ∧ s.vmallocPtr < vmallocEnd) := by
  obtain ⟨hp1, hp2, hp3⟩ := hg.regions.ptr
  unfold vmalloc
  by_cases hearly : n = 0 ∨ vmallocMaxRegions ≤ w.vm.vregions.length
  · rw [if_pos hearly]
    exact ⟨0, _, rfl, hg, ⟨rfl, rfl, rfl⟩, fun f hf => .inl hf, .inl ⟨rfl, rfl⟩⟩
  rw [if_neg hearly]
  simp only []
  by_cases hfull : vmallocEnd ≤ u32 (w.vm.vmallocPtr + pageAlign n)
  · rw [if_pos hfull]
    exact ⟨0, _, rfl, hg, ⟨rfl, rfl, rfl⟩, fun f hf => .inl hf, .inl ⟨rfl, rfl⟩⟩
  rw [if_neg hfull]
  have htry : VmallocTries w.vm n := ⟨by omega, by omega, by omega⟩
  have hdvd : 4096 ∣ pageAlign n := ⟨_, Nat.mul_comm _ 4096⟩
  have hpages : pageAlign n / pageSize * 4096 = pageAlign n := Nat.div_mul_cancel hdvd
  have hmaxf : w.vm.pmm.freeFrames ≤ 65536 := tally_le _ _
  have hend : w.vm.vmallocPtr + (0 + pageAlign n / pageSize) * 4096 ≤ w.vm.vmallocPtr + pageAlign n :=
    Nat.le_of_eq (by rw [Nat.zero_add, hpages])
  obtain ⟨b, s, hl, hsafe, hlow, hct, hh⟩ := mapLoop_total hp1 (Nat.le_of_lt hp2) hp3 (pageAlign n / pageSize) hg.vm
    hg.low (by rwa [Nat.zero_add]) hend (by simpa using hr htry)
  rw [hl]
  have hhanded : ∀ f ∈ s.pmm.handed, f ∈ w.vm.pmm.handed ∨
      VmallocTries w.vm n ∧ ∃ i, w.vm.pmm.Free i ∧ f = i * pageSize := fun f hf => (hh f hf).imp_right fun h => ⟨htry, h⟩
  have hg1 := hsafe.good hg hlow
  cases b with
  | false => exact ⟨0, s, rfl, hg1, hsafe.beside, hhanded, .inl ⟨rfl, hsafe.vmallocPtr⟩⟩
  | true =>
    have hsum : u32 (w.vm.vmallocPtr + pageAlign n) = w.vm.vmallocPtr + pageAlign n := by
      have := hct rfl
      exact Nat.mod_eq_of_lt (by omega)
    have hlast : w.vm.vmallocPtr + pageAlign n < 0x2000000 := by
      unfold vmallocEnd at hfull
      omega
    refine ⟨_, _, rfl, ⟨⟨hg1.vm.pmm, hg1.vm.dir, hg1.vm.tables, hg1.vm.high, hg1.vm.entries⟩, hg1.low, hg1.km, hg1.start,
      hg1.cap, ⟨?_, fun r hr => ?_⟩, ⟨hg1.blocks.base, hg1.blocks.last, hg1.blocks.page, hg1.blocks.inside⟩⟩,
      ⟨hsafe.beside.1, hsafe.beside.2, hsafe.beside.3⟩, hhanded, .inr ⟨rfl, htry, hsum, by show u32 _ < _; rwa [hsum]⟩⟩
    · show 0x1000000 ≤ u32 _ ∧ u32 _ < 0x2000000 ∧ 4096 ∣ u32 _
      rw [hsum]
      omega
    · rcases List.mem_append.1 hr with hr | hr
      · exact hg1.regions.regions r hr
      · obtain rfl := List.mem_singleton.1 hr
        show 0x1000000 ≤ w.vm.vmallocPtr ∧ w.vm.vmallocPtr + pageAlign n ≤ 0x2000000
        omega

theorem vmfree_good (hg : Good w) (h : w.vm.vmfree p = some s) :
    Good { w with vm := s } ∧ Beside w.vm s ∧ s.vmallocPtr = w.vm.vmallocPtr ∧ s.pmm.handed = w.vm.pmm.handed := by
  unfold vmfree at h
  split at h
  · rename_i i hi
    obtain ⟨s1, hu, he⟩ := Option.map_eq_some_iff.1 h
    obtain ⟨hlt, hpred, -⟩ := List.findIdx?_eq_some_iff_getElem.1 hi
    have hget : w.vm.vregions.getD i ⟨0, 0, false⟩ = w.vm.vregions[i] := by
      rw [List.getD_eq_getElem?_getD, List.getElem?_eq_getElem hlt, Option.getD_some]
    have hmem : w.vm.vregions[i] ∈ w.vm.vregions := List.getElem_mem hlt
    rw [hget] at hu he
    generalize w.vm.vregions[i] = r at hu he hmem hpred
    obtain ⟨hr1, hr2⟩ := hg.regions.regions r hmem
    rw [Bool.and_eq_true, decide_eq_true_eq] at hpred
    have hbound : p + r.size / pageSize * 4096 < 2 ^ 32 := by
      unfold pageSize
      omega
    obtain ⟨s2, hu2, hdir, hh⟩ := unmapLoop_total (r.size / pageSize) hg.vm hg.low (by omega) hbound
    cases hu.symm.trans hu2
    have hsa : Safe w.vm s1 := unmapLoop_safe _ (by omega) hbound hu
    have hg1 := hsa.good hg fun d p hp => hg.low d p (by rwa [hdir] at hp)
    cases he
    refine ⟨⟨⟨hg1.vm.pmm, hg1.vm.dir, hg1.vm.tables, hg1.vm.high, hg1.vm.entries⟩, hg1.low, hg1.km, hg1.start, hg1.cap,
      ⟨hg1.regions.ptr, fun r' hr' => ?_⟩, ⟨hg1.blocks.base, hg1.blocks.last, hg1.blocks.page, hg1.blocks.inside⟩⟩,
      ⟨hsa.beside.1, hsa.beside.2, hsa.beside.3⟩, hsa.vmallocPtr, hh⟩
    rcases List.mem_or_eq_of_mem_set hr' with hr' | rfl
    · exact hg1.regions.regions r' hr'
    · exact ⟨hr1, hr2⟩
  · cases h
    exact ⟨hg, ⟨rfl, rfl, rfl⟩, rfl, rfl⟩

/-! ## Every run -/

theorem Beside.grows {s' : Vm} (h : Beside s s') (hptr : s.vmallocPtr ≤ s'.vmallocPtr) : Grows s s' :=
  ⟨Nat.le_of_eq h.heapEnd.symm, Nat.le_of_eq h.brk.symm, hptr⟩

theorem Good.step {w' : World} {op : Op} (hg : Good w) (h : Step w op w') (hf : Sized w op) :
    Good w' ∧ Grows w.vm w'.vm := by
  cases op with
  | kmalloc n =>
    obtain ⟨p, h', hk, rfl⟩ := h
    obtain ⟨hg', hend⟩ := kmalloc_good hg hf hk
    exact ⟨hg', by show w.vm.km.heapEnd ≤ h'.heapEnd; omega, Nat.le_refl _, Nat.le_refl _⟩
  | kfree p =>
    obtain rfl := h
    obtain ⟨hg', hend⟩ := kfree_good hg hf
    exact ⟨hg', Nat.le_of_eq hend.symm, Nat.le_refl _, Nat.le_refl _⟩
  | heapAlloc n =>
    obtain ⟨a, s, hs, rfl⟩ := h
    by_cases h0 : n = 0
    · cases hs.symm.trans (if_pos h0)
      exact ⟨hg, Nat.le_refl _, Nat.le_refl _, Nat.le_refl _⟩
    rcases heapAlloc_cases hg.vm h0 with ⟨i, k, b, hb, -, -, ha⟩ | ⟨-, ⟨-, ha⟩ | ⟨hlen, hmax, ha⟩⟩ <;> cases hs.symm.trans ha
    · exact ⟨hg.set hb, Nat.le_refl _, Nat.le_refl _, Nat.le_refl _⟩
    · exact ⟨hg, Nat.le_refl _, Nat.le_refl _, Nat.le_refl _⟩
    · obtain ⟨hg', hle⟩ := hg.withBlock hlen hf hmax
      exact ⟨hg', Nat.le_refl _, Nat.le_trans (Nat.le_add_right _ _) hle, Nat.le_refl _⟩
  | heapFree p =>
    obtain rfl := h
    unfold Vm.heapFree
    split
    · exact ⟨hg.set (found ‹_›).1, Nat.le_refl _, Nat.le_refl _, Nat.le_refl _⟩
    · exact ⟨hg, Nat.le_refl _, Nat.le_refl _, Nat.le_refl _⟩
  | vmalloc n =>
    obtain ⟨a, s, hs, rfl⟩ := h
    obtain ⟨a', s', hs', hg', hbe, -, hptr⟩ := vmalloc_good hg hf
    cases hs.symm.trans hs'
    exact ⟨hg', hbe.grows (by omega)⟩
  | vmfree p =>
    obtain ⟨s, hs, rfl⟩ := h
    obtain ⟨hg', hbe, hptr, -⟩ := vmfree_good hg hs
    exact ⟨hg', hbe.grows (Nat.le_of_eq hptr.symm)⟩

/-- No live block of `heap_alloc` gets another's memory. -/
theorem HeapClear.step {w' : World} {op : Op} (hg : Good w) (hc : HeapClear w) (h : Step w op w') (hf : Sized w op)
    (hk : Keeps w op) : HeapClear w' := by
  cases op with
  | kmalloc n =>
    obtain ⟨p, h', hm, rfl⟩ := h
    intro b hb hu
    refine ⟨?_, (hc b hb hu).2⟩
    show h'.heapEnd ≤ b.addr
    rcases (kmalloc_good hg hf hm).2 with he | ⟨h0, he, hcap⟩
    · rw [he]
      exact (hc b hb hu).1
    · rw [he] at hcap ⊢
      exact hk h0 hcap b hb hu
  | kfree p =>
    obtain rfl := h
    intro b hb hu
    exact ⟨by rw [(kfree_good hg hf).2]; exact (hc b hb hu).1, (hc b hb hu).2⟩
  | heapAlloc n =>
    obtain ⟨a, s, hs, rfl⟩ := h
    by_cases h0 : n = 0
    · cases hs.symm.trans (if_pos h0)
      exact hc
    obtain ⟨hold, hnew⟩ := hk h0
    rcases heapAlloc_cases hg.vm h0 with ⟨i, k, b, hb, hu, hfit, ha⟩ | ⟨hno, ⟨-, ha⟩ | ⟨hlen, hmax, ha⟩⟩ <;>
      cases hs.symm.trans ha
    · intro c hcm huc
      rcases List.mem_or_eq_of_mem_set hcm with hcm | rfl
      · exact hc c hcm huc
      · exact hold b hb hu hfit
    · exact hc
    · intro c hcm huc
      rcases List.mem_append.1 hcm with hcm | hcm
      · exact hc c hcm huc
      · obtain rfl := List.mem_singleton.1 hcm
        exact hnew hno hlen hmax
  | heapFree p =>
    obtain rfl := h
    unfold Vm.heapFree
    split
    · intro c hcm huc
      rcases List.mem_or_eq_of_mem_set hcm with hcm | rfl
      · exact hc c hcm huc
      · cases huc
    · exact hc
  | vmalloc n =>
    obtain ⟨a, s, hs, rfl⟩ := h
    obtain ⟨a', s', hs', -, hbe, hh, -⟩ := vmalloc_good hg hf
    cases hs.symm.trans hs'
    intro b hb hu
    rw [hbe.hblocks] at hb
    refine ⟨by rw [hbe.heapEnd]; exact (hc b hb hu).1, fun f hfm => ?_⟩
    rcases hh f hfm with hold | ⟨htry, i, hi, rfl⟩
    · exact (hc b hb hu).2 f hold
    · exact hk htry b hb hu i hi
  | vmfree p =>
    obtain ⟨s, hs, rfl⟩ := h
    obtain ⟨-, hbe, -, hh⟩ := vmfree_good hg hs
    intro b hb hu
    rw [hbe.hblocks] at hb
    exact ⟨by rw [hbe.heapEnd]; exact (hc b hb hu).1, by rw [hh]; exact (hc b hb hu).2⟩

theorem boot_good (memKb : Nat) (mem : Bytes) : Good ⟨boot memKb mem, []⟩ where
  vm := boot_ok memKb mem
  low := by
    intro d p hp
    have : (if d < 4 then some (Table.kern d) else none) = some (Table.frame p) := hp
    split at this <;> cases this
  km := ⟨[], [], kmallocInit_shape _ (by decide) (by decide) (by decide), .nil⟩
  start := rfl
  cap := rfl
  regions := ⟨show 0x1000000 ≤ 0x1000000 ∧ 0x1000000 < 0x2000000 ∧ 4096 ∣ 0x1000000 by omega, fun _ hr => by cases hr⟩
  blocks := ⟨Nat.le_refl _, show heapVirtBase < heapVirtMax by decide, show pageSize ∣ heapVirtBase by decide,
    fun _ hb => by cases hb⟩

/-- A run of calls that fit never shares memory. -/
theorem noSharing_of_run (memKb : Nat) (mem : Bytes) (ops : List Op) (w : World)
    (hrun : Run FittingStep ⟨boot memKb mem, []⟩ ops w) : NoSharing w := by
  have hinv : Good w ∧ HeapClear w := by
    refine Run.invariant (fun w => Good w ∧ HeapClear w) ⟨boot_good memKb mem, fun _ hb => by cases hb⟩ ?_ hrun
    rintro w1 op w2 ⟨hg, hc⟩ ⟨hs, hf, hk⟩
    exact ⟨(hg.step hs hf).1, hc.step hg hs hf hk⟩
  exact hinv.1.noSharing hinv.2

/-- `heap_alloc` without a free block that is large enough. -/
theorem heapAlloc_new (hok : VmOk s) (h0 : n ≠ 0) (hno : ∀ b ∈ s.hblocks, b.used = false → b.size < round8 n)
    (hlen : s.hblocks.length < heapMaxBlocks) (hmax : pageAlign (u32 (s.heapBrkPtr + round8 n)) < heapVirtMax) :
    s.heapAlloc n = some (s.heapBrkPtr, s.withBlock (round8 n)) := by
  rcases heapAlloc_cases hok h0 with ⟨-, -, b, hb, hu, hfit, -⟩ | ⟨-, ⟨hfu, -⟩ | ⟨-, -, ha⟩⟩
  · have := hno b hb hu
    omega
  · omega
  · exact ha

/-- A 32 MB machine, with zeros in memory. -/
def sampleBoot : World := ⟨boot 32768 fun _ => 0, []⟩

/-- A block of the size of the arena is given back, and one of `kmalloc` served .. -/
def sampleServed : World :=
  ⟨{ (sampleBoot.vm.withBlock 0x80000).heapFree 0x200000 with
      km := markUsed (unlink (extendHeap bootHeap 104).2 0x200000) 0x200000 }, [(0x200010, 100)]⟩

/-- .. and then one of `heap_alloc`, behind the arena. -/
def sampleApart : World := { sampleServed with vm := sampleServed.vm.withBlock 0x90000 }

theorem sampleServed_run : Run FittingStep sampleBoot [.heapAlloc 0x80000, .heapFree 0x200000, .kmalloc 100] sampleServed := by
  have h1 : FittingStep sampleBoot (.heapAlloc 0x80000) { sampleBoot with vm := sampleBoot.vm.withBlock 0x80000 } := by
    refine ⟨⟨_, _, heapAlloc_new (boot_ok _ _) (by decide) (fun b hb => by cases hb) (by decide) (by decide), rfl⟩,
      .inl (by decide), fun _ => ⟨fun b hb => absurd hb List.not_mem_nil, fun _ _ _ => ?_⟩⟩
    exact ⟨by decide, fun f hf => absurd hf List.not_mem_nil⟩
  have h2 : FittingStep { sampleBoot with vm := sampleBoot.vm.withBlock 0x80000 } (.heapFree 0x200000)
      { sampleBoot with vm := (sampleBoot.vm.withBlock 0x80000).heapFree 0x200000 } := ⟨rfl, trivial, trivial⟩
  have h3 : FittingStep { sampleBoot with vm := (sampleBoot.vm.withBlock 0x80000).heapFree 0x200000 } (.kmalloc 100)
      sampleServed := by
    refine ⟨⟨_, _, kmalloc_boot, rfl⟩, .inl (by decide), fun _ _ b hb hu => ?_⟩
    cases List.mem_singleton.1 hb
    cases hu
  exact ((Run.single h1).snoc h2).snoc h3

theorem noSharing_of_run_apart : Run FittingStep sampleBoot
      [.heapAlloc 0x80000, .heapFree 0x200000, .kmalloc 100, .heapAlloc 0x90000] sampleApart ∧ NoSharing sampleApart := by
  have hg : Good sampleServed :=
    Run.invariant Good (boot_good _ _) (fun _ _ _ hg hs => (hg.step hs.1 hs.2.1).1) sampleServed_run
  have hfree : ∀ b ∈ sampleServed.vm.hblocks, b.used = false → b.size < round8 0x90000 := by
    intro b hb _
    cases List.mem_singleton.1 hb
    decide
  have h4 : FittingStep sampleServed (.heapAlloc 0x90000) sampleApart := by
    refine ⟨⟨_, _, heapAlloc_new hg.vm (by decide) hfree (by decide) (by decide), rfl⟩, .inl (by decide), fun _ => ⟨?_, ?_⟩⟩
    · intro b hb hu hfit
      have := hfree b hb hu
      omega
    · obtain ⟨bs, fl, hs, -⟩ := hg.km
      have hend := hs.end_le
      rw [hg.cap] at hend
      exact fun _ _ _ => ⟨hend, fun f hf => absurd hf List.not_mem_nil⟩
  have hrun := sampleServed_run.snoc h4
  exact ⟨hrun, noSharing_of_run _ _ _ _ hrun⟩

/-- With a block of `heap_alloc` in use, and then one of `kmalloc`. -/
def sampleHeap : World := { sampleBoot with vm := sampleBoot.vm.withBlock 32 }
def sampleShared : World :=
  ⟨{ sampleHeap.vm with km := markUsed (unlink (extendHeap bootHeap 104).2 0x200000) 0x200000 }, [(0x200010, 100)]⟩

/-- `heap_alloc(32)` gives `0x200000` and the first `kmalloc` gives `0x200010`. -/
theorem heapAlloc_over_kmalloc :
    Run Step sampleBoot [.heapAlloc 32, .kmalloc 100] sampleShared ∧ ¬ NoSharing sampleShared := by
  have h1 : Run Step sampleBoot [.heapAlloc 32] sampleHeap :=
    .single ⟨_, _, heapAlloc_new (boot_ok _ _) (by decide) (fun b hb => by cases hb) (by decide) (by decide), rfl⟩
  have h2 : Step sampleHeap (.kmalloc 100) sampleShared := ⟨_, _, kmalloc_boot, rfl⟩
  refine ⟨h1.snoc h2, fun hns => ?_⟩
  -- the block of `kmalloc` is as long as asked for
  have hlen : 100 ≤ payloadLen (markUsed (unlink (extendHeap bootHeap 104).2 0x200000) 0x200000).mem 0x200010 := by
    obtain ⟨bs, fl, hs, hl⟩ := (kmalloc_step (w := ⟨bootHeap, []⟩)
      ⟨[], [], kmallocInit_shape _ (by decide) (by decide) (by decide), .nil⟩ (by decide) kmalloc_boot).1
    exact (blocksOk hs hl).live_fits (0x200010, 100) List.mem_cons_self
  refine hns.kmalloc_heap 0x200010 ⟨⟨(0x200010, 100), List.mem_cons_self, by decide, ?_⟩,
    ⟨0x200000, 32, true⟩, List.mem_cons_self, rfl, by decide, by decide⟩
  exact Nat.lt_add_of_pos_right (Nat.lt_of_lt_of_le (by decide) hlen)

end KumOS.Paging
