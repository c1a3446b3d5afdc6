import KumOS.Heap.Calls
import KumOS.Lib.Run

/-!
# Runs of the kernel heap

After `kmalloc_init`, any sequence of `kmalloc`, `kfree` and stores of the
clients into memory they hold.  The pointers handed out and not yet given back
(`live`) are recorded beside the heap; everything said about the blocks
(`HeapOk`) is said about the memory itself.
-/

namespace KumOS.Kmalloc

open Lib

variable {e : Nat × Nat} {bs : List Blk} {p : Nat} {h : Heap}

/-- The heap, and what the clients hold: pointers with the sizes asked for. -/
structure World where
  heap : Heap
  live : List (Nat × Nat)

variable {w : World}

/-- The length of the payload at pointer `p`, from its header. -/
def payloadLen (m : Bytes) (p : Nat) : Nat := size m (p - headerSize)

/-- Address `x` is in the payload of a live block. -/
def InPayload (w : World) (x : Nat) : Prop :=
  ∃ e ∈ w.live, e.1 ≤ x ∧ x < e.1 + payloadLen w.heap.mem e.1

inductive Op
  | kmalloc (n : Nat)
  | kfree (p : Nat)
  | store (x : Nat) (v : UInt8)

/-- Requests are at most `0x7FFFFFFF` bytes, `kfree` is given NULL or a live
pointer, and clients store into live payloads. -/
def Step (w : World) : Op → World → Prop
  | .kmalloc n, w' => n ≤ 0x7FFFFFFF ∧ ∃ p h, kmalloc w.heap n = some (p, h) ∧
      w' = ⟨h, if p = 0 then w.live else (p, n) :: w.live⟩
  | .kfree p, w' => (p = 0 ∨ ∃ n, (p, n) ∈ w.live) ∧
      w' = ⟨kfree w.heap p, w.live.filter fun e => e.1 ≠ p⟩
  | .store x v, w' => InPayload w x ∧ w' = { w with heap.mem := Function.update w.heap.mem x v }

/-! ## What holds of the heap -/

structure BlocksOk (w : World) (blocks fl : List Nat) : Prop where
  /-- the blocks fill the heap, by the sizes in their headers -/
  tiles : Tiles id (fun b => headerSize + size w.heap.mem b) w.heap.heapStart blocks w.heap.heapEnd
  marked : ∀ b ∈ blocks, magic w.heap.mem b = magicFree ∨ magic w.heap.mem b = magicUsed
  /-- the list runs through `fl` in both directions, no block twice -/
  list : FreeList w.heap.mem w.heap.freeList fl
  mem_list : ∀ b, b ∈ fl ↔ b ∈ blocks ∧ magic w.heap.mem b = magicFree
  live_block : ∀ e ∈ w.live, ∃ b ∈ blocks, e.1 = b + headerSize ∧ magic w.heap.mem b = magicUsed
  live_aligned : ∀ e ∈ w.live, 8 ∣ e.1
  live_fits : ∀ e ∈ w.live, e.2 ≤ payloadLen w.heap.mem e.1
  live_inside : ∀ e ∈ w.live, w.heap.heapStart ≤ e.1 ∧ e.1 + payloadLen w.heap.mem e.1 ≤ w.heap.heapCap
  live_disjoint : w.live.Pairwise fun e f =>
    e.1 + payloadLen w.heap.mem e.1 ≤ f.1 ∨ f.1 + payloadLen w.heap.mem f.1 ≤ e.1
  account : ∃ u f, kmallocUsed w.heap = some u ∧ kmallocFree w.heap = some f ∧
    u + f + headerSize * blocks.length = w.heap.heapEnd - w.heap.heapStart

def HeapOk (w : World) : Prop := ∃ blocks fl, BlocksOk w blocks fl

/-- The payloads live before and after have the same lengths and bytes. -/
def PayloadsKept (w w' : World) : Prop :=
  ∀ e ∈ w.live, e ∈ w'.live → payloadLen w'.heap.mem e.1 = payloadLen w.heap.mem e.1 ∧
    ∀ x, e.1 ≤ x → x < e.1 + payloadLen w.heap.mem e.1 → w'.heap.mem x = w.heap.mem x

/-! ## The invariant -/

/-- The memory holds blocks whose used ones are the live pointers. -/
def Inv (w : World) : Prop := ∃ bs fl, Shape w.heap bs fl ∧ w.live.Perm (allocs bs)

theorem tiles_addrs {m : Bytes} {a e : Nat} (ht : Tiles Blk.addr Blk.len a bs e)
    (hh : ∀ b ∈ bs, size m b.addr = b.size) : Tiles id (fun b => headerSize + size m b) a (addrs bs) e := by
  induction bs generalizing a with
  | nil => exact ht
  | cons b bs ih =>
    obtain ⟨rfl, h2⟩ := ht
    refine ⟨rfl, ?_⟩
    have hlen : headerSize + size m b.addr = b.len := by rw [hh b List.mem_cons_self, Blk.len]
    show Tiles _ _ (b.addr + (headerSize + size m b.addr)) (addrs bs) e
    rw [hlen]
    exact ih h2 fun c hc => hh c (List.mem_cons_of_mem _ hc)

section
variable {bs : List Blk} {fl : List Nat} (hs : Shape w.heap bs fl) (hl : w.live.Perm (allocs bs))
include hl

theorem live_iff : e ∈ w.live ↔ ∃ c ∈ bs, c.requested = some e.2 ∧ c.addr + headerSize = e.1 :=
  hl.mem_iff.trans mem_allocs

include hs

omit hl in
theorem payloadLen_eq {c : Blk} (hc : c ∈ bs) (he : c.addr + headerSize = e.1) :
    payloadLen w.heap.mem e.1 = c.size := by
  unfold payloadLen
  rw [← he, Nat.add_sub_cancel]
  exact (hs.header c hc).2

theorem live_disjoint : w.live.Pairwise fun e f =>
    e.1 + payloadLen w.heap.mem e.1 ≤ f.1 ∨ f.1 + payloadLen w.heap.mem f.1 ≤ e.1 := by
  have hsymm : ∀ {e f : Nat × Nat}, (e.1 + payloadLen w.heap.mem e.1 ≤ f.1 ∨ f.1 + payloadLen w.heap.mem f.1 ≤ e.1) →
      (f.1 + payloadLen w.heap.mem f.1 ≤ e.1 ∨ e.1 + payloadLen w.heap.mem e.1 ≤ f.1) := fun h => h.symm
  refine (hl.pairwise_iff hsymm).2 ?_
  unfold allocs
  rw [List.pairwise_filterMap]
  refine hs.layout.tiles.pairwise.imp_of_mem ?_
  intro c d hc hd hcd e he f hf
  obtain ⟨n, -, rfl⟩ := Option.map_eq_some_iff.1 he
  obtain ⟨k, -, rfl⟩ := Option.map_eq_some_iff.1 hf
  left
  rw [payloadLen_eq hs hc rfl]
  unfold Blk.len at hcd
  omega

theorem blocksOk : BlocksOk w (addrs bs) fl where
  tiles := tiles_addrs hs.layout.tiles fun b hb => (hs.header b hb).2
  marked := by
    intro a ha
    obtain ⟨b, hb, rfl⟩ := List.mem_map.1 ha
    rw [(hs.header b hb).1]
    cases hr : b.requested with
    | none => exact .inl (mark_free hr)
    | some n => exact .inr (mark_used hr)
  list := hs.list
  mem_list := by
    intro a
    rw [hs.mem_list]
    constructor
    · rintro ⟨b, hb, hfr, rfl⟩
      exact ⟨mem_addrs hb, (hs.header b hb).1.trans (mark_free hfr)⟩
    · rintro ⟨ha, hm⟩
      obtain ⟨b, hb, rfl⟩ := List.mem_map.1 ha
      rw [(hs.header b hb).1] at hm
      cases hr : b.requested with
      | none => exact ⟨b, hb, hr, rfl⟩
      | some n =>
        rw [mark_used hr] at hm
        exact absurd hm (by decide)
  live_block := by
    intro e he
    obtain ⟨c, hc, hr, hce⟩ := (live_iff hl).1 he
    exact ⟨c.addr, mem_addrs hc, hce.symm, (hs.header c hc).1.trans (mark_used hr)⟩
  live_aligned := by
    intro e he
    obtain ⟨c, hc, -, hce⟩ := (live_iff hl).1 he
    have := hs.layout.addr_dvd hs.start_dvd hc
    rw [← hce]
    unfold headerSize
    omega
  live_fits := by
    intro e he
    obtain ⟨c, hc, hr, hce⟩ := (live_iff hl).1 he
    rw [payloadLen_eq hs hc hce]
    exact hs.layout.fits c hc _ hr
  live_inside := by
    intro e he
    obtain ⟨c, hc, -, hce⟩ := (live_iff hl).1 he
    have hin := hs.layout.tiles.mem hc
    have hend := hs.end_le
    rw [payloadLen_eq hs hc hce, ← hce]
    unfold Blk.len at hin
    omega
  live_disjoint := live_disjoint hs hl
  account := by
    rw [addrs, List.length_map]
    exact hs.account

end

/-! ## Steps -/

theorem kmalloc_step (hi : Inv w) {n : Nat} (hmax : n ≤ 0x7FFFFFFF) (hk : kmalloc w.heap n = some (p, h)) :
    Inv ⟨h, if p = 0 then w.live else (p, n) :: w.live⟩ ∧
      PayloadsKept w ⟨h, if p = 0 then w.live else (p, n) :: w.live⟩ := by
  obtain ⟨bs, fl, hs, hl⟩ := hi
  obtain ⟨p', h', hk', hres⟩ := kmalloc_spec hs hmax
  obtain ⟨rfl, rfl⟩ : p' = p ∧ h' = h := by
    rw [hk'] at hk
    cases hk
    exact ⟨rfl, rfl⟩
  rcases hres with ⟨rfl, rfl, -⟩ | ⟨hp, bs', fl', hs', hsv⟩
  · exact ⟨⟨bs, fl, hs, hl⟩, fun e _ _ => ⟨rfl, fun x _ _ => rfl⟩⟩
  rw [if_neg hp]
  have hl' : ((p', n) :: w.live).Perm (allocs bs') := (hl.cons _).trans hsv.allocs.symm
  refine ⟨⟨bs', fl', hs', hl'⟩, ?_⟩
  intro e he _
  obtain ⟨c, hc, hr, hce⟩ := (live_iff hl).1 he
  have hc' : c ∈ bs' := hsv.kept c hc (by rw [hr]; simp)
  have hlen := payloadLen_eq hs hc hce
  refine ⟨(payloadLen_eq hs' hc' hce).trans hlen.symm, fun x h1 h2 => ?_⟩
  exact hsv.within x (hs'.layout.payload_out hc' (by omega) (by omega))

theorem allocs_nodup {fl : List Nat} (hs : Shape h bs fl) : ((allocs bs).map Prod.fst).Nodup := by
  unfold allocs
  rw [List.Nodup, List.pairwise_map, List.pairwise_filterMap]
  refine hs.layout.tiles.pairwise.imp ?_
  intro c d hcd e he f hf
  obtain ⟨n, -, rfl⟩ := Option.map_eq_some_iff.1 he
  obtain ⟨k, -, rfl⟩ := Option.map_eq_some_iff.1 hf
  unfold Blk.len headerSize at *
  omega

theorem kfree_step (hi : Inv w) (hp : p = 0 ∨ ∃ n, (p, n) ∈ w.live) :
    Inv ⟨kfree w.heap p, w.live.filter fun e => e.1 ≠ p⟩ ∧
      PayloadsKept w ⟨kfree w.heap p, w.live.filter fun e => e.1 ≠ p⟩ := by
  obtain ⟨bs, fl, hs, hl⟩ := hi
  by_cases h0 : p = 0
  · -- no live pointer is NULL
    have hall : (w.live.filter fun e => e.1 ≠ p) = w.live := by
      rw [List.filter_eq_self]
      intro e he
      obtain ⟨c, hc, -, hce⟩ := (live_iff hl).1 he
      have : e.1 ≠ p := by
        unfold headerSize at hce
        omega
      simpa using this
    have hk : kfree w.heap p = w.heap := by
      unfold kfree
      rw [if_pos h0]
    rw [hk, hall]
    exact ⟨⟨bs, fl, hs, hl⟩, fun e _ _ => ⟨rfl, fun x _ _ => rfl⟩⟩
  · obtain ⟨n, hn⟩ := hp.resolve_left h0
    obtain ⟨bs', fl', hs', hrel, hperm, hkt, -⟩ := kfree_spec hs (hl.mem_iff.1 hn)
    -- one live pointer goes, the others have another address
    have hfilter : ((allocs bs).filter fun e => e.1 ≠ p).Perm (allocs bs') := by
      have hnd : (((p, n) :: allocs bs').map Prod.fst).Nodup := (hperm.map _).nodup_iff.1 (allocs_nodup hs)
      have hpf := hperm.filter fun e => decide (e.1 ≠ p)
      have hsf : (((p, n) :: allocs bs').filter fun e => decide (e.1 ≠ p)) = allocs bs' := by
        rw [List.filter_cons_of_neg (by simp), List.filter_eq_self]
        intro e he
        rw [List.map_cons, List.nodup_cons] at hnd
        have : e.1 ≠ p := by
          intro hep
          exact hnd.1 (List.mem_map.2 ⟨e, he, hep⟩)
        simpa using this
      rwa [hsf] at hpf
    have hl' : (w.live.filter fun e => e.1 ≠ p).Perm (allocs bs') := (hl.filter _).trans hfilter
    refine ⟨⟨bs', fl', hs', hl'⟩, ?_⟩
    intro e he he'
    have hep : e.1 ≠ p := by simpa using (List.mem_filter.1 he').2
    obtain ⟨c, hc, hr, hce⟩ := (live_iff hl).1 he
    have hc' : c ∈ bs' := hkt c hc (by rw [hr]; simp) (by rw [hce]; exact hep)
    have hlen := payloadLen_eq hs hc hce
    refine ⟨(payloadLen_eq hs' hc' hce).trans hlen.symm,
      fun x h1 h2 => ?_⟩
    exact hrel.within x (hs.layout.payload_out hc (by omega) (by omega))

theorem store_step (hi : Inv w) {x : Nat} (hx : InPayload w x) (v : UInt8) :
    Inv { w with heap.mem := Function.update w.heap.mem x v } := by
  obtain ⟨bs, fl, hs, hl⟩ := hi
  obtain ⟨e, he, h1, h2⟩ := hx
  obtain ⟨c, hc, -, hce⟩ := (live_iff hl).1 he
  rw [payloadLen_eq hs hc hce] at h2
  exact ⟨bs, fl, store_shape hs hc (by omega) (by omega) v, hl⟩

theorem step_inv {w' : World} {op : Op} (hi : Inv w) (h : Step w op w') : Inv w' := by
  cases op with
  | kmalloc n =>
    obtain ⟨hmax, p, h', hk, rfl⟩ := h
    exact (kmalloc_step hi hmax hk).1
  | kfree p =>
    obtain ⟨hp, rfl⟩ := h
    exact (kfree_step hi hp).1
  | store x v =>
    obtain ⟨hx, rfl⟩ := h
    exact store_step hi hx v

theorem kmallocInit_shape (h : Heap) {start size : Nat} (h0 : 0 < start) (h8 : 8 ∣ start)
    (hmax : start + size ≤ 0x40000000) : Shape (kmallocInit h start size) [] [] := by
  have hcap : u32 (start + size) = start + size := Nat.mod_eq_of_lt (by omega)
  refine ⟨⟨h0, h8, ?_, ?_⟩, ⟨rfl, by simp, by simp⟩, by simp, DList.nil_iff.2 rfl, .nil⟩
  · show start ≤ u32 (start + size)
    omega
  · show u32 (start + size) ≤ _
    omega

/-! ## Every run -/

/-- In every state reached the heap is in order, `kmalloc` returns, and neither
`kmalloc` nor `kfree` changes a byte of a payload that stays live. -/
theorem heap_safe (h : Heap) (start size : Nat) (h0 : 0 < start) (h8 : 8 ∣ start) (hmax : start + size ≤ 0x40000000)
    (ops : List Op) (w : World) (hrun : Run Step ⟨kmallocInit h start size, []⟩ ops w) :
    HeapOk w ∧ (∀ n ≤ 0x7FFFFFFF, ∃ p h', kmalloc w.heap n = some (p, h')) ∧
      (∀ n w', Step w (.kmalloc n) w' → PayloadsKept w w') ∧
      ∀ p w', Step w (.kfree p) w' → PayloadsKept w w' := by
  have hinv : Inv w := by
    refine Run.invariant Inv ?_ (fun w1 op w2 => step_inv) hrun
    exact ⟨[], [], kmallocInit_shape h h0 h8 hmax, .nil⟩
  have hinv' := hinv
  obtain ⟨bs, fl, hs, hl⟩ := hinv'
  refine ⟨⟨_, _, blocksOk hs hl⟩, ?_, ?_, ?_⟩
  · intro n hn
    obtain ⟨p, h', hk, -⟩ := kmalloc_spec hs hn
    exact ⟨p, h', hk⟩
  · rintro n w' ⟨hn, p, h', hk, rfl⟩
    exact (kmalloc_step hinv hn hk).2
  · rintro p w' ⟨hp, rfl⟩
    exact (kfree_step hinv hp).2

/-- The heap of `kernel_main`, over a memory of zeros. -/
def bootHeap : Heap := kmallocInit ⟨0, 0, 0, 0, fun _ => 0⟩ 0x200000 (512 * 1024)

/-- The first request is served from the start of the arena. -/
theorem kmalloc_boot : kmalloc bootHeap 100 =
    some (0x200010, markUsed (unlink (extendHeap bootHeap 104).2 0x200000) 0x200000) := rfl

/-- The boot heap after two requests of 8 bytes. -/
def twoBlocks : Heap :=
  let one := markUsed (unlink (extendHeap bootHeap 8).2 0x200000) 0x200000
  markUsed (unlink (extendHeap one 8).2 0x200018) 0x200018

/-- A byte stored to the second block is there when the first has been given back. -/
theorem heap_safe_two : ∃ w w', Run Step ⟨bootHeap, []⟩ [.kmalloc 8, .kmalloc 8, .store 0x200028 7] w ∧ HeapOk w ∧
    Step w (.kfree 0x200010) w' ∧ w'.heap.mem 0x200028 = 7 := by
  have h2 : Run Step ⟨bootHeap, []⟩ [.kmalloc 8, .kmalloc 8] ⟨twoBlocks, [(0x200028, 8), (0x200010, 8)]⟩ :=
    .snoc (.single ⟨by decide, 0x200010, _, rfl, rfl⟩) ⟨by decide, 0x200028, _, rfl, rfl⟩
  have hin : InPayload ⟨twoBlocks, [(0x200028, 8), (0x200010, 8)]⟩ 0x200028 :=
    ⟨(0x200028, 8), by decide, by decide, by decide +kernel⟩
  have h3 : Run Step ⟨bootHeap, []⟩ [.kmalloc 8, .kmalloc 8, .store 0x200028 7]
      ⟨{ twoBlocks with mem := Function.update twoBlocks.mem 0x200028 7 }, [(0x200028, 8), (0x200010, 8)]⟩ :=
    h2.snoc ⟨hin, rfl⟩
  obtain ⟨hok, -, -, hfree⟩ := heap_safe ⟨0, 0, 0, 0, fun _ => 0⟩ 0x200000 (512 * 1024) (by decide) (by decide)
    (by decide) _ _ h3
  refine ⟨_, _, h3, hok, ⟨.inr ⟨8, by decide⟩, rfl⟩, ?_⟩
  exact (hfree _ _ ⟨.inr ⟨8, by decide⟩, rfl⟩ (0x200028, 8) (by decide) (by decide)).2 _ (by decide) (by decide +kernel)

end KumOS.Kmalloc
