import KumOS.Kstring

/-!
# Bounded copies of the libc

`strncpy` and `strncat` leave their first loop with a count that is one too high if the
source ends it: one byte more is stored (`bounded_copies_iff`).
-/

namespace KumOS.User

open Fat12 (Name)

/-- `while (n-- && (*d++ = *s++));`: `n` after it, where `none` is `(size_t)-1`, and the bytes stored. -/
def copyLoop : Nat → Name → Option Nat × Name
  | 0, _ => (none, [])
  | n + 1, [] => (some n, [0])
  | n + 1, c :: s => if c = 0 then (some n, [0]) else ((copyLoop n s).1, c :: (copyLoop n s).2)

/-- `while (n-- != (size_t)-1) *d++ = 0;`, begun with `n`. -/
def padLoop : Nat → Name
  | 0 => [0]
  | n + 1 => 0 :: padLoop n

/-- The bytes `strncpy` stores, from `d` on. -/
def strncpy (s : Name) (n : Nat) : Name :=
  match copyLoop n s with
  | (none, bs) => bs
  | (some n, bs) => bs ++ padLoop n

/-- Where `strncat` begins to store, and the bytes. -/
def strncat (d s : Name) (n : Nat) : Nat × Name := (kstrlen d, (copyLoop n s).2 ++ [0])

theorem copyLoop_eq (s : Name) (n : Nat) : copyLoop n s =
    if n ≤ kstrlen s then (none, (cstr s).take n) else (some (n - kstrlen s - 1), cstr s ++ [0]) := by
  unfold kstrlen
  induction s generalizing n with
  | nil => cases n <;> rfl
  | cons c s ih =>
    cases n with
    | zero => rfl
    | succ n =>
      rw [copyLoop, cstr_cons]
      by_cases hc : c = 0
      · simp [hc]
      · rw [if_neg hc, if_neg hc, ih, List.length_cons]
        by_cases hn : n ≤ (cstr s).length
        · rw [if_pos hn, if_pos (by omega)]
          rfl
        · rw [if_neg hn, if_neg (by omega), show n + 1 - ((cstr s).length + 1) = n - (cstr s).length by omega]
          rfl

theorem padLoop_eq (n : Nat) : padLoop n = List.replicate (n + 1) 0 := by
  induction n with
  | zero => rfl
  | succ n ih => exact congrArg (List.cons 0) ih

/-- With a shorter source one zero more than `n` bytes are stored. -/
theorem strncpy_eq (s : Name) (n : Nat) : strncpy s n =
    if n ≤ kstrlen s then (cstr s).take n else cstr s ++ List.replicate (n + 1 - kstrlen s) 0 := by
  unfold strncpy
  rw [copyLoop_eq]
  by_cases hn : n ≤ kstrlen s
  · rw [if_pos hn, if_pos hn]
  · rw [if_neg hn, if_neg hn, show n + 1 - kstrlen s = n - kstrlen s - 1 + 1 + 1 by omega]
    dsimp only
    rw [padLoop_eq, List.append_assoc]
    rfl

/-- The buffer `b` after `strncpy(b, s, n)`. -/
def strncpyTo (b s : Name) (n : Nat) : Name := strncpy s n ++ b.drop (strncpy s n).length

/-- In a buffer that ends with a zero byte, also if that is not written. -/
theorem strncpyTo_spec {b s : Name} {n : Nat} (hb : b.drop n = [0]) (hn : s.length ≤ n) (h0 : 0 ∉ s) :
    (strncpyTo b s n).drop n = [0] ∧ cstr (strncpyTo b s n) = s := by
  unfold strncpyTo
  rw [strncpy_eq, kstrlen, cstr_eq_self h0]
  by_cases hfull : n ≤ s.length
  · obtain rfl := Nat.le_antisymm hn hfull
    rw [if_pos hfull, List.take_length, hb, List.drop_left, cstr_append_zero, cstr_eq_self h0]
    exact ⟨rfl, rfl⟩
  · have hlen : (s ++ List.replicate (n + 1 - s.length) 0).length = n + 1 := by
      rw [List.length_append, List.length_replicate]
      omega
    have hrest : b.drop (n + 1) = [] := by
      rw [← List.drop_drop, hb]
      rfl
    rw [if_neg hfull, hlen, hrest, List.append_nil, List.drop_append, List.drop_of_length_le hn, List.drop_replicate,
      show n + 1 - s.length = n - s.length + 1 by omega, Nat.add_sub_cancel_left]
    exact ⟨rfl, (cstr_append_zero s _).trans (cstr_eq_self h0)⟩

/-- **Both store what they should exactly if the source is as long as the bound.** -/
theorem bounded_copies_iff (d s : Name) (n : Nat) :
    (strncpy s n = (cstr s).take n ++ List.replicate (n - kstrlen s) 0 ∧
      strncat d s n = (kstrlen d, (cstr s).take (min n (kstrlen s)) ++ [0])) ↔ n ≤ kstrlen s := by
  unfold strncat
  rw [strncpy_eq, copyLoop_eq]
  constructor
  · rintro ⟨hcpy, -⟩
    by_contra hn
    rw [if_neg hn, List.take_of_length_le (by unfold kstrlen at hn; omega)] at hcpy
    have hlen := congrArg List.length (List.append_cancel_left hcpy)
    rw [List.length_replicate, List.length_replicate] at hlen
    omega
  · intro hn
    rw [if_pos hn, if_pos hn, Nat.min_eq_left hn, Nat.sub_eq_zero_of_le hn]
    exact ⟨(List.append_nil _).symm, rfl⟩

theorem copy_stores_three : strncpy [97] 2 = [97, 0, 0] ∧ strncat [98] [97] 2 = (1, [97, 0, 0]) := by
  decide

end KumOS.User
