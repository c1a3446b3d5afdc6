import Mathlib.Data.List.Basic
import Mathlib.Logic.Function.Basic

/-!
# Ring buffers

Elements are stored at `head` and taken out at `tail`; both indices go round a
buffer of `n` cells, and `head = tail` means that nothing is stored, so one cell
always stays free.  `ringList` is what the buffer holds, oldest element first: a
store appends to it (`ringList_push`), and the element at `tail` is its head
(`ringList_pop`).
-/

namespace Lib

variable {α : Type}

/-- The number of elements stored. -/
def ringCount (n head tail : Nat) : Nat := (head + n - tail) % n

/-- The elements stored, oldest first. -/
def ringList (n : Nat) (buf : Nat → α) (head tail : Nat) : List α :=
  (List.range (ringCount n head tail)).map fun i => buf ((tail + i) % n)

section

variable {n head tail : Nat}

theorem mod_of_lt_two_mul {x : Nat} (hx : x < 2 * n) : x % n = if x < n then x else x - n := by
  by_cases h : x < n
  · rw [if_pos h, Nat.mod_eq_of_lt h]
  · rw [if_neg h, Nat.mod_eq_sub_mod (by omega), Nat.mod_eq_of_lt (by omega)]

theorem ringCount_eq (hh : head < n) (ht : tail < n) :
    ringCount n head tail = if tail ≤ head then head - tail else head + n - tail := by
  unfold ringCount
  rw [mod_of_lt_two_mul (by omega)]
  split <;> split <;> omega

theorem ringCount_lt (hh : head < n) : ringCount n head tail < n := Nat.mod_lt _ (by omega)

theorem ringCount_eq_zero_iff (hh : head < n) (ht : tail < n) : ringCount n head tail = 0 ↔ head = tail := by
  rw [ringCount_eq hh ht]
  split <;> omega

@[simp] theorem length_ringList (buf : Nat → α) :
    (ringList n buf head tail).length = ringCount n head tail := by simp [ringList]

section

variable (hh : head < n) (ht : tail < n)
include hh ht

theorem ringCount_push (hfr : ringCount n head tail + 1 < n) :
    ringCount n ((head + 1) % n) tail = ringCount n head tail + 1 := by
  have hct := ringCount_eq hh ht
  rw [ringCount_eq (Nat.mod_lt _ (by omega)) ht, hct, mod_of_lt_two_mul (by omega)]
  rw [hct] at hfr
  split at hfr <;> split <;> split <;> omega

theorem ringCount_pop (hne : head ≠ tail) : ringCount n head tail = ringCount n head ((tail + 1) % n) + 1 := by
  rw [ringCount_eq hh ht, ringCount_eq hh (Nat.mod_lt _ (by omega)),
    mod_of_lt_two_mul (by omega)]
  split <;> split <;> split <;> omega

/-- The cell at `head` is none of those in use. -/
theorem ring_index_ne_head {i : Nat} (hi : i < ringCount n head tail) : (tail + i) % n ≠ head := by
  have hlt : ringCount n head tail < n := ringCount_lt hh
  rw [ringCount_eq hh ht] at hi hlt
  rw [mod_of_lt_two_mul (by omega)]
  split at hi <;> split <;> omega

/-- The last element stored lies right below the new `head`. -/
theorem ring_index_head : (tail + ringCount n head tail) % n = head := by
  have hlt : ringCount n head tail < n := ringCount_lt hh
  rw [ringCount_eq hh ht] at hlt ⊢
  rw [mod_of_lt_two_mul (by omega)]
  split <;> split <;> omega

/-- A store appends the element. -/
theorem ringList_push (hfr : ringCount n head tail + 1 < n) (buf : Nat → α) (x : α) :
    ringList n (Function.update buf head x) ((head + 1) % n) tail = ringList n buf head tail ++ [x] := by
  unfold ringList
  rw [ringCount_push hh ht hfr, List.range_succ, List.map_append]
  congr 1
  · apply List.map_congr_left
    intro i hi
    exact Function.update_of_ne (ring_index_ne_head hh ht (List.mem_range.1 hi)) _ _
  · show [Function.update buf head x ((tail + ringCount n head tail) % n)] = [x]
    rw [ring_index_head hh ht, Function.update_self]

/-- The element at `tail` is the oldest. -/
theorem ringList_pop (hne : head ≠ tail) (buf : Nat → α) :
    ringList n buf head tail = buf tail :: ringList n buf head ((tail + 1) % n) := by
  unfold ringList
  rw [ringCount_pop hh ht hne, List.range_succ_eq_map, List.map_cons, List.map_map, Nat.add_zero,
    Nat.mod_eq_of_lt ht]
  congr 1
  apply List.map_congr_left
  intro i _
  show buf ((tail + (i + 1)) % n) = buf (((tail + 1) % n + i) % n)
  rw [Nat.mod_add_mod]
  congr 2
  omega

end

theorem ringList_self (hh : head < n) (buf : Nat → α) : ringList n buf head head = [] :=
  List.eq_nil_of_length_eq_zero (by rw [length_ringList, (ringCount_eq_zero_iff hh hh).2 rfl])

end

end Lib
