import Mathlib.Data.List.Basic

/-!
# The states of a deterministic system

`stateAt step s ops k` is the state after the first `k` of the operations `ops`.
A property of all these states is proved from its value at the start and from one
step.
-/

namespace Lib

variable {S O : Type}

def stateAt (step : S → O → S) (s : S) (ops : List O) (k : Nat) : S := (ops.take k).foldl step s

variable {step : S → O → S} {s : S} {ops : List O} {k : Nat}

theorem stateAt_succ {op : O} (h : ops[k]? = some op) :
    stateAt step s ops (k + 1) = step (stateAt step s ops k) op := by
  unfold stateAt
  rw [List.take_add_one, h, List.foldl_append]
  rfl

theorem stateAt_stop (h : ops[k]? = none) : stateAt step s ops (k + 1) = stateAt step s ops k := by
  unfold stateAt
  rw [List.take_add_one, h]
  simp

theorem stateAt_of_length_le (h : ops.length ≤ k) : stateAt step s ops k = stateAt step s ops ops.length := by
  unfold stateAt
  rw [List.take_of_length_le h, List.take_length]

/-- What holds at the start and is kept by every step holds all the time. -/
theorem stateAt_always (P : Nat → S → Prop) (h0 : P 0 s)
    (hsp : ∀ k op, ops[k]? = some op → P k (stateAt step s ops k) →
      P (k + 1) (step (stateAt step s ops k) op)) (hstop : ∀ k t, ops[k]? = none → P k t → P (k + 1) t) :
    ∀ k, P k (stateAt step s ops k) := by
  intro k
  induction k with
  | zero => exact h0
  | succ k ih =>
    cases h : ops[k]? with
    | none =>
      rw [stateAt_stop h]
      exact hstop k _ h ih
    | some op =>
      rw [stateAt_succ h]
      exact hsp k op h ih

end Lib
