import Mathlib.Logic.Function.Basic

/-!
# Loops with an early exit

`scan more body dir n i a` runs a loop body over the entries `dir i`, …,
`dir (i + n - 1)` of a table.  Consecutive stretches of the table can be scanned
one after the other (`scan_add`) and under other indices (`scan_shift`), so that
nested loops over blocks of entries are one loop; a search stops at the first
entry its body leaves at (`scan_search`).
-/

namespace Lib

/-- The body goes on with a new accumulator or leaves the loop with a result; the loop also ends
once `more` fails. -/
def scan {E A R : Type} (more : A → Bool) (body : E → A → A ⊕ R) (dir : Nat → E) :
    Nat → Nat → A → A ⊕ (Nat × R)
  | 0, _, a => .inl a
  | n + 1, i, a =>
    if more a then
      match body (dir i) a with
      | .inl a => scan more body dir n (i + 1) a
      | .inr r => .inr (i, r)
    else .inl a

section

variable {E A R : Type} (more : A → Bool) (body : E → A → A ⊕ R) (dir : Nat → E)

theorem scan_of_not_more (n i : Nat) {a : A} (h : more a = false) : scan more body dir n i a = .inl a := by
  cases n with
  | zero => rfl
  | succ n => simp [scan, h]

theorem scan_succ (n i : Nat) (a : A) :
    scan more body dir (n + 1) i a =
      if more a then
        match body (dir i) a with
        | .inl a => scan more body dir n (i + 1) a
        | .inr r => .inr (i, r)
      else .inl a := rfl

theorem scan_add (m n i : Nat) (a : A) :
    scan more body dir (m + n) i a =
      match scan more body dir m i a with
      | .inl a => scan more body dir n (i + m) a
      | .inr p => .inr p := by
  induction m generalizing i a with
  | zero =>
    rw [Nat.zero_add]
    rfl
  | succ m ih =>
    rw [Nat.succ_add, scan_succ, scan_succ]
    cases hm : more a with
    | false => exact (scan_of_not_more more body dir n _ hm).symm
    | true =>
      cases body (dir i) a with
      | inl a' =>
        have hi : i + (m + 1) = i + 1 + m := by omega
        rw [hi]
        exact ih (i + 1) a'
      | inr r => rfl

theorem scan_index_lt {n i j : Nat} {a : A} {r : R} (h : scan more body dir n i a = .inr (j, r)) : j < i + n := by
  induction n generalizing i a with
  | zero => cases h
  | succ n ih =>
    rw [scan_succ] at h
    cases hm : more a with
    | false => simp [hm] at h
    | true =>
      rw [hm, if_pos rfl] at h
      cases hb : body (dir i) a with
      | inl a' =>
        rw [hb] at h
        have := ih h
        omega
      | inr r' =>
        rw [hb] at h
        cases h
        omega

/-- The same entries under other indices. -/
theorem scan_shift {dir dir' : Nat → E} (k n i : Nat) (a : A) (h : ∀ j, i ≤ j → j < i + n → dir' j = dir (k + j)) :
    scan more body dir n (k + i) a =
      match scan more body dir' n i a with
      | .inl a => .inl a
      | .inr (j, r) => .inr (k + j, r) := by
  induction n generalizing i a with
  | zero => rfl
  | succ n ih =>
    rw [scan_succ, scan_succ, h i (Nat.le_refl i) (by omega)]
    cases more a with
    | false => rfl
    | true =>
      cases body (dir (k + i)) a with
      | inl a' =>
        exact ih (i + 1) a' fun j h1 h2 => h j (by omega) (by omega)
      | inr r => rfl

end

/-- A search loop stops at the first entry its body leaves at. -/
theorem scan_search {E R : Type} (body : E → Unit → Unit ⊕ R) (dir : Nat → E) (n i : Nat) :
    scan (fun _ => true) body dir n i () = .inl () ∧
      (∀ j, i ≤ j → j < i + n → body (dir j) () = .inl ()) ∨
    ∃ j r, i ≤ j ∧ j < i + n ∧ scan (fun _ => true) body dir n i () = .inr (j, r) ∧
      body (dir j) () = .inr r ∧ ∀ k, i ≤ k → k < j → body (dir k) () = .inl () := by
  induction n generalizing i with
  | zero => exact .inl ⟨rfl, fun j h1 h2 => by omega⟩
  | succ n ih =>
    unfold scan
    cases hb : body (dir i) () with
    | inr r => exact .inr ⟨i, r, Nat.le_refl i, by omega, rfl, hb, fun k h1 h2 => by omega⟩
    | inl u =>
      rcases ih (i + 1) with ⟨hend, hall⟩ | ⟨j, r, hij, hjn, hrun, hstop, hbf⟩
      · refine .inl ⟨hend, fun j h1 h2 => ?_⟩
        rcases Nat.eq_or_lt_of_le h1 with rfl | hlt
        · exact hb
        · exact hall j hlt (by omega)
      · refine .inr ⟨j, r, by omega, by omega, hrun, hstop, fun k h1 h2 => ?_⟩
        rcases Nat.eq_or_lt_of_le h1 with rfl | hlt
        · exact hb
        · exact hbf k hlt h2

end Lib
