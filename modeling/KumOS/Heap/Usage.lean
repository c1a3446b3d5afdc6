import KumOS.Heap.Runs

/-!
# What `kmalloc_used` counts

The bytes in use are the payloads of the live pointers.  A stretch of calls that only
adds live pointers to those there were (`Grown`) has raised the count by the payloads of
the new ones, and by nothing else.
-/

namespace KumOS.Kmalloc

open Lib

variable {w : World}
variable {m : Bytes} {l : List (Nat × Nat)} {e : Nat × Nat} {n : Nat}

/-- `kmalloc` and `kfree`, with the record of the live pointers. -/
def World.kmalloc (w : World) (n : Nat) : Option (Nat × World) :=
  (Kmalloc.kmalloc w.heap n).map fun r => (r.1, ⟨r.2, if r.1 = 0 then w.live else (r.1, n) :: w.live⟩)

def World.kfree (w : World) (p : Nat) : World := ⟨Kmalloc.kfree w.heap p, w.live.filter fun e => e.1 ≠ p⟩

/-- The payloads of the pointers in a list. -/
def payloads (m : Bytes) (l : List (Nat × Nat)) : Nat := (l.map fun e => payloadLen m e.1).sum

/-- The blocks that are not free are those with a pointer. -/
theorem sumSizes_used {bs : List Blk} (hh : ∀ b ∈ bs, size m b.addr = b.size) :
    sumSizes false bs = payloads m (allocs bs) := by
  induction bs with
  | nil => rfl
  | cons b bs ih =>
    have hrs := ih fun c hc => hh c (List.mem_cons_of_mem b hc)
    rw [sumSizes_cons, hrs]
    cases hr : b.requested with
    | none =>
      have hfr : b.isFree = true := by
        unfold Blk.isFree
        rw [hr]
        rfl
      rw [allocs_cons_free _ _ hr, hfr, if_neg (by decide), Nat.zero_add]
    | some n =>
      have hus : b.isFree = false := by
        unfold Blk.isFree
        rw [hr]
        rfl
      have hlen : payloadLen m (b.addr + headerSize) = b.size := by
        exact hh b List.mem_cons_self
      rw [allocs_cons_used _ _ hr, hus, if_pos rfl]
      show b.size + payloads m (allocs bs) = payloadLen m (b.addr + headerSize) + payloads m (allocs bs)
      rw [hlen]

theorem kmallocUsed_eq (hi : Inv w) : kmallocUsed w.heap = some (payloads w.heap.mem w.live) := by
  obtain ⟨bs, fl, hs, hl⟩ := hi
  rw [hs.used, sumSizes_used fun b hb => (hs.header b hb).2]
  unfold payloads
  rw [(hl.map _).sum_nat]

theorem live_nodup (hi : Inv w) : (w.live.map Prod.fst).Nodup := by
  obtain ⟨bs, fl, hs, hl⟩ := hi
  exact (hl.map Prod.fst).nodup_iff.2 (allocs_nodup hs)

theorem live_bounds (hi : Inv w) (he : e ∈ w.live) : e.1 ≠ 0 ∧ e.1 < 2 ^ 32 ∧ e.2 ≤ payloadLen w.heap.mem e.1 := by
  obtain ⟨bs, fl, hs, hl⟩ := hi
  have hb := blocksOk hs hl
  obtain ⟨h1, h2⟩ := hb.live_inside e he
  have hsr := hs.start_pos
  have hcap := hs.cap_le
  exact ⟨by omega, by omega, hb.live_fits e he⟩

/-! ## Growing -/

/-- The pointers live in `w0` are live in `w`, with the payloads they had; `news` are the others. -/
structure Grown (w0 w : World) (news : List (Nat × Nat)) : Prop where
  inv : Inv w
  live : w.live = news ++ w0.live
  len : ∀ e ∈ w0.live, payloadLen w.heap.mem e.1 = payloadLen w0.heap.mem e.1

theorem Grown.refl (hi : Inv w) : Grown w w [] := ⟨hi, rfl, fun _ _ => rfl⟩

section

variable {w0 : World} {news : List (Nat × Nat)}

theorem Grown.mem (h : Grown w0 w news) (he : e ∈ w0.live) : e ∈ w.live := by
  rw [h.live]
  exact List.mem_append_right _ he

/-- `kmalloc` returns: NULL with the heap as it was, or a new pointer. -/
theorem Grown.kmalloc (h : Grown w0 w news) (hn : n ≤ 0x7FFFFFFF) :
    w.kmalloc n = some (0, w) ∨ ∃ p w', w.kmalloc n = some (p, w') ∧ p ≠ 0 ∧ Grown w0 w' ((p, n) :: news) := by
  have hinv := h.inv
  obtain ⟨bs, fl, hs, -⟩ := hinv
  obtain ⟨p, h', hk, hres⟩ := kmalloc_spec hs hn
  have heq : w.kmalloc n = some (p, ⟨h', if p = 0 then w.live else (p, n) :: w.live⟩) := by
    unfold World.kmalloc
    rw [hk]
    rfl
  obtain ⟨hinv', hkt⟩ := kmalloc_step h.inv hn hk
  by_cases hp : p = 0
  · rcases hres with ⟨-, rfl, -⟩ | ⟨hne, -⟩
    · rw [hp, if_pos rfl] at heq
      exact .inl heq
    · exact absurd hp hne
  rw [if_neg hp] at heq hinv' hkt
  refine .inr ⟨p, _, heq, hp, hinv', ?_, fun e he => ?_⟩
  · rw [h.live]
    rfl
  · exact (hkt e (h.mem he) (List.mem_cons_of_mem _ (h.mem he))).1.trans (h.len e he)

theorem Grown.kfree {r : List (Nat × Nat)} {p : Nat} (h : Grown w0 w (l ++ (p, n) :: r)) :
    Grown w0 (w.kfree p) (l ++ r) := by
  have hlv : w.live = l ++ (p, n) :: (r ++ w0.live) := by
    rw [h.live, List.append_assoc, List.cons_append]
  have hmem : (p, n) ∈ w.live := by
    rw [hlv]
    simp
  obtain ⟨hinv, hkt⟩ := kfree_step h.inv (.inr ⟨n, hmem⟩)
  -- the other pointers are different ones
  have hnd := live_nodup h.inv
  rw [hlv, List.map_append, List.map_cons] at hnd
  have hot := (List.nodup_cons.1 (List.nodup_middle.1 hnd)).1
  have hne : ∀ e ∈ l ++ (r ++ w0.live), e.1 ≠ p := by
    intro e he hep
    refine hot ?_
    rw [← List.map_append]
    exact List.mem_map.2 ⟨e, he, hep⟩
  have hfilter : (w.live.filter fun e => e.1 ≠ p) = l ++ (r ++ w0.live) := by
    rw [hlv, List.filter_append, List.filter_cons_of_neg (by simp), ← List.filter_append, List.filter_eq_self]
    intro e he
    simpa using hne e he
  refine ⟨hinv, ?_, fun e he => ?_⟩
  · show (w.live.filter fun e => e.1 ≠ p) = _
    rw [hfilter, List.append_assoc]
  · refine (hkt e (h.mem he) ?_).1.trans (h.len e he)
    rw [hfilter]
    exact List.mem_append_right _ (List.mem_append_right _ he)

theorem Grown.store (h : Grown w0 w news) {x : Nat} (hx : InPayload w x) (v : UInt8) :
    Grown w0 { w with heap.mem := Function.update w.heap.mem x v } news := by
  have hinv := store_step h.inv hx v
  refine ⟨hinv, h.live, fun e he => ?_⟩
  refine Eq.trans ?_ (h.len e he)
  obtain ⟨bs, fl, hs, hl⟩ := h.inv
  obtain ⟨f, hf, h1, h2⟩ := hx
  obtain ⟨c, hc, -, hce⟩ := (live_iff hl).1 hf
  rw [payloadLen_eq hs hc hce] at h2
  have hs' : Shape { w.heap with mem := Function.update w.heap.mem x v } bs fl :=
    store_shape hs hc (by omega) (by omega) v
  obtain ⟨d, hd, -, hde⟩ := (live_iff hl).1 (h.mem he)
  have hnew : payloadLen (Function.update w.heap.mem x v) e.1 = d.size :=
    payloadLen_eq (w := { w with heap.mem := Function.update w.heap.mem x v }) hs' hd hde
  exact hnew.trans (payloadLen_eq hs hd hde).symm

/-- The count has gone up by the payloads of the new pointers. -/
theorem Grown.used (h0 : Inv w0) (h : Grown w0 w news) :
    ∃ u, kmallocUsed w0.heap = some u ∧ kmallocUsed w.heap = some (payloads w.heap.mem news + u) := by
  refine ⟨_, kmallocUsed_eq h0, ?_⟩
  rw [kmallocUsed_eq h.inv, h.live, payloads, List.map_append, List.sum_append, List.map_congr_left h.len]
  rfl

/-- So it is the same exactly if no new pointer to anything is left. -/
theorem Grown.used_eq_iff (h0 : Inv w0) (h : Grown w0 w news) (hpos : ∀ e ∈ news, 0 < e.2) :
    kmallocUsed w.heap = kmallocUsed w0.heap ↔ news = [] := by
  obtain ⟨u, hu0, hu⟩ := h.used h0
  rw [hu0, hu, Option.some.injEq]
  cases news with
  | nil =>
    refine iff_of_true ?_ rfl
    show 0 + u = u
    rw [Nat.zero_add]
  | cons e l =>
    have he : e ∈ w.live := by
      rw [h.live]
      exact List.mem_append_left _ List.mem_cons_self
    have hfit := (live_bounds h.inv he).2.2
    have hp := hpos e List.mem_cons_self
    have hsum : payloads w.heap.mem (e :: l) = payloadLen w.heap.mem e.1 + payloads w.heap.mem l := rfl
    refine iff_of_false ?_ (List.cons_ne_nil e l)
    omega

end

end KumOS.Kmalloc
