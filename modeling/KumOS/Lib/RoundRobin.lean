import Mathlib.Data.List.Rotate

/-!
# Round robin

Those who take turns stand in a ring.  A turn goes to the first one that wants it, and the
ring is turned until it stands at the end (`Served`).  So as many turns as there are
candidates go to each of them once, in their order (`Turns.order`).

`ring n i` is the ring of the numbers below `n` with `i` at the end.
-/

namespace Lib

section

variable {α : Type} {p : α → Bool} {l l' xs : List α} {x : α}

/-- From the ring `l`, `x` gets the turn and the ring becomes `l'`. -/
inductive Served (p : α → Bool) : List α → α → List α → Prop
  | next {skipped rest : List α} {x : α} (hs : ∀ y ∈ skipped, p y = false) (hx : p x = true) :
      Served p (skipped ++ x :: rest) x (rest ++ (skipped ++ [x]))

/-- One turn after the other. -/
inductive Turns (p : α → Bool) : List α → List α → List α → Prop
  | nil {l : List α} : Turns p l [] l
  | cons {l l1 l2 xs : List α} {x : α} : Served p l x l1 → Turns p l1 xs l2 → Turns p l (x :: xs) l2

/-- The candidate served goes from the front to the end of the candidates. -/
theorem Served.filter (h : Served p l x l') : ∃ rest, l.filter p = x :: rest ∧ l'.filter p = rest ++ [x] := by
  cases h with
  | @next skipped rest x hs hx =>
    have hnn : skipped.filter p = [] := by
      rw [List.filter_eq_nil_iff]
      intro y hy
      rw [hs y hy]
      exact Bool.false_ne_true
    refine ⟨rest.filter p, ?_, ?_⟩
    · rw [List.filter_append, hnn, List.filter_cons_of_pos hx, List.nil_append]
    · rw [List.filter_append, List.filter_append, hnn, List.filter_cons_of_pos hx, List.filter_nil, List.nil_append]

/-- The turns go to the candidates in their order. -/
theorem Turns.order (h : Turns p l xs l') (hlen : xs.length ≤ (l.filter p).length) :
    xs = (l.filter p).take xs.length := by
  induction h with
  | nil => simp
  | @cons l l1 l2 xs x hsv _ ih =>
    obtain ⟨rest, hl, hl1⟩ := hsv.filter
    rw [hl, List.length_cons, List.length_cons] at hlen
    rw [hl1, List.length_append, List.length_singleton, List.take_append_of_le_length (by omega)] at ih
    rw [hl, List.length_cons, List.take_succ_cons]
    exact congrArg (x :: ·) (ih (by omega))

end

/-- The numbers below `n` in cyclic order, beginning behind `i`. -/
def ring (n i : Nat) : List Nat := (List.range n).map fun d => (i + 1 + d) % n

@[simp] theorem length_ring (n i : Nat) : (ring n i).length = n := by
  unfold ring
  rw [List.length_map, List.length_range]

theorem ring_eq_rotate (n i : Nat) : ring n i = (List.range n).rotate (i + 1) := by
  unfold ring
  refine List.ext_getElem (by simp) fun d h1 h2 => ?_
  rw [List.getElem_rotate, List.getElem_map, List.getElem_range, List.getElem_range, List.length_range, Nat.add_comm]

theorem ring_perm (n i : Nat) : (ring n i).Perm (List.range n) := by
  rw [ring_eq_rotate]
  exact List.rotate_perm _ _

/-- Behind one of them the ring goes on as before. -/
theorem ring_split {n i x : Nat} {skipped rest : List Nat} (h : ring n i = skipped ++ x :: rest) :
    ring n x = rest ++ (skipped ++ [x]) := by
  have hpos : skipped.length < n := by
    have hlen := congrArg List.length h
    rw [length_ring, List.length_append, List.length_cons] at hlen
    omega
  have hx : x = (i + 1 + skipped.length) % n := by
    have hget : (ring n i)[skipped.length]? = some x := by
      rw [h, List.getElem?_append_right (Nat.le_refl _), Nat.sub_self, List.getElem?_cons_zero]
    unfold ring at hget
    rw [List.getElem?_map, List.getElem?_range hpos] at hget
    exact (Option.some.inj hget).symm
  have hturn : ring n x = (ring n i).rotate (skipped ++ [x]).length := by
    rw [ring_eq_rotate, ring_eq_rotate, List.rotate_rotate, ← List.rotate_mod _ (x + 1),
      ← List.rotate_mod _ (i + 1 + _), List.length_range, List.length_append, List.length_singleton, hx,
      Nat.mod_add_mod, Nat.add_assoc]
  rw [hturn, h, List.append_cons, List.rotate_append_length_eq]

end Lib
