import Mathlib.Data.Nat.Count

/-!
# Counting slots

`tally p n` is the number of slots below `n` with `p` (`Nat.count`, for a Boolean test).  A table whose slots are
taken and given back one at a time counts them with it: setting one slot adds
one (`tally_set`), and a full or an empty table is one in which every or no slot
has `p`.
-/

namespace Lib

variable {b i m : Nat}

def tally (p : Nat → Bool) : Nat → Nat
  | 0 => 0
  | n + 1 => tally p n + if p n then 1 else 0

variable {p q : Nat → Bool} {n : Nat}

theorem tally_eq_count (p : Nat → Bool) (n : Nat) : tally p n = Nat.count (p · = true) n := by
  induction n with
  | zero => rw [Nat.count_zero, tally]
  | succ n ih => rw [Nat.count_succ, tally, ih]

theorem tally_congr (h : ∀ i < n, q i = p i) : tally q n = tally p n := by
  induction n with
  | zero => rfl
  | succ n ih =>
    unfold tally
    rw [ih fun i hi => h i (by omega), h n (by omega)]

theorem tally_le (p : Nat → Bool) (n : Nat) : tally p n ≤ n := by
  rw [tally_eq_count]
  exact Nat.count_le _

theorem tally_lt (hi : i < n) (h : p i = true) : tally p i < tally p n := by
  rw [tally_eq_count, tally_eq_count]
  exact Nat.count_strict_mono h hi

/-- A count that starts from `c` stays below a bound that no slot passes. -/
theorem tally_add_le {c : Nat} (hc : c ≤ b) (h : ∀ i < n, p i = true → c + tally p i < b) : c + tally p n ≤ b := by
  induction n with
  | zero => exact hc
  | succ n ih =>
    have hle := ih fun i hi => h i (by omega)
    unfold tally
    split
    · exact h n (Nat.lt_succ_self n) ‹_›
    · exact hle

theorem tally_mono (h : ∀ i < n, p i = true → q i = true) : tally p n ≤ tally q n := by
  rw [tally_eq_count, tally_eq_count]
  exact Nat.count_mono_left h

theorem le_tally {a : Nat} (h : ∀ i, a ≤ i → i < b → p i = true) (hb : b ≤ n) : b - a ≤ tally p n := by
  induction n generalizing b with
  | zero => omega
  | succ n ih =>
    unfold tally
    by_cases hbn : b = n + 1
    · have hle := ih (fun i h1 h2 => h i h1 (by omega)) (Nat.le_refl n)
      by_cases ha : a ≤ n
      · rw [h n ha (by omega), if_pos rfl]
        omega
      · omega
    · have hle := ih h (by omega)
      omega

/-- One slot more. -/
theorem tally_set (hi : i < n) (hne : ∀ j, j ≠ i → q j = p j) (hp : p i = false) (hq : q i = true) :
    tally q n = tally p n + 1 := by
  induction n with
  | zero => omega
  | succ n ih =>
    unfold tally
    by_cases hin : i = n
    · subst hin
      rw [tally_congr fun j hj => hne j (by omega), hp, hq]
      rfl
    · rw [ih (by omega), hne n (Ne.symm hin)]
      omega

/-- The slots below `m` and no others. -/
theorem tally_below (hm : m ≤ n) (h : ∀ i < n, p i = true ↔ i < m) : tally p n = m := by
  induction n generalizing m with
  | zero => exact (Nat.le_zero.1 hm).symm
  | succ n ih =>
    unfold tally
    by_cases hmn : m = n + 1
    · have hall : tally p n = n := ih (Nat.le_refl n) fun i hi => by rw [h i (by omega)]; omega
      rw [hall, if_pos ((h n (by omega)).2 (by omega)), hmn]
    · rw [ih (by omega) fun i hi => h i (by omega), if_neg fun hn => by have := (h n (by omega)).1 hn; omega]
      rfl

theorem tally_eq_iff : tally p n = n ↔ ∀ i < n, p i = true := by
  rw [tally_eq_count]
  exact Nat.count_iff_forall

theorem tally_eq_zero_iff : tally p n = 0 ↔ ∀ i < n, p i = false := by
  simp only [tally_eq_count, Nat.count_iff_forall_not, Bool.not_eq_true]

theorem tally_le_one (h : ∀ i < n, p i = true → i = m) : tally p n ≤ 1 := by
  by_cases hm : m < n ∧ p m = true
  · have hnn : tally (fun _ => false) n = 0 := tally_eq_zero_iff.2 fun _ _ => rfl
    have hset := tally_set hm.1 (fun j hj => decide_eq_false hj) rfl
      (decide_eq_true rfl)
    have hle := tally_mono fun i hi hp => decide_eq_true (h i hi hp)
    omega
  have hze : tally p n = 0 := by
    refine tally_eq_zero_iff.2 fun i hi => Bool.eq_false_iff.2 fun hp => hm ?_
    rw [← h i hi hp]
    exact ⟨hi, hp⟩
  omega

end Lib
