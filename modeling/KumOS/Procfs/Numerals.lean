import KumOS.Procfs.Model
import Mathlib.Data.Nat.Digits.Lemmas

/-!
# Numerals

`kitoa` of `kstring.c` writes the digits into `tmp` from the last one on, and copies them back in
order: the numeral is the canonical one (`kitoa_canonical`).
-/

namespace KumOS.Procfs

open Fat12 (Name)

/-- The loop of `kitoa`, with room for so many more digits in `tmp`; `none` is a store behind it. -/
def kitoaLoop (base : Nat) : Nat → Nat → Option Name
  | _, 0 => some []
  | 0, _ + 1 => none
  | room + 1, val + 1 => (kitoaLoop base room ((val + 1) / base)).map (hexDigit ((val + 1) % base) :: ·)

/-- The bytes that `kitoa` writes to `buf`. -/
def kitoa (val : UInt32) (base : Nat) : Option Name :=
  if val = 0 then some [48, 0] else (kitoaLoop base 33 val.toNat).map fun tmp => tmp.reverse ++ [0]

/-- The digits of a numeral, in order. -/
def numeral (base val : Nat) : List Nat := if val = 0 then [0] else (Nat.digits base val).reverse

variable {base : Nat}

theorem kitoaLoop_eq (h2 : 2 ≤ base) {room val : Nat} (h : val < base ^ room) :
    kitoaLoop base room val = some ((Nat.digits base val).map hexDigit) := by
  induction room generalizing val with
  | zero =>
    obtain rfl : val = 0 := by rwa [Nat.pow_zero, Nat.lt_one_iff] at h
    rw [Nat.digits_zero]
    rfl
  | succ room ih =>
    cases val with
    | zero =>
      rw [Nat.digits_zero]
      rfl
    | succ val =>
      have hdiv : (val + 1) / base < base ^ room := Nat.div_lt_of_lt_mul (by rwa [← Nat.pow_succ'])
      rw [kitoaLoop, ih hdiv, Nat.digits_def' h2 (Nat.succ_pos val)]
      rfl

theorem val_lt_pow (h2 : 2 ≤ base) (val : UInt32) : val.toNat < base ^ 32 :=
  Nat.lt_of_lt_of_le val.toNat_lt (Nat.pow_le_pow_left h2 32)

theorem kitoa_eq (h2 : 2 ≤ base) (val : UInt32) :
    kitoa val base = some ((numeral base val.toNat).map hexDigit ++ [0]) := by
  have hlt : val.toNat < base ^ 33 := Nat.lt_trans (val_lt_pow h2 val) (Nat.pow_lt_pow_right h2 (by decide))
  unfold kitoa numeral
  by_cases h0 : val = 0
  · subst h0
    rfl
  · have hne : val.toNat ≠ 0 := fun hz => h0 (UInt32.toNat_inj.1 hz)
    rw [if_neg h0, if_neg hne, kitoaLoop_eq h2 hlt, List.map_reverse]
    rfl

theorem digitsLoop_eq (n : Nat) (tmp : Name) : digitsLoop n tmp = (Nat.digits 10 n).reverse.map hexDigit ++ tmp := by
  have hdigit : ∀ d < 10, UInt8.ofNat (48 + d) = hexDigit d := by decide +kernel
  induction n, tmp using digitsLoop.induct with
  | case1 tmp =>
    rw [digitsLoop, if_pos rfl, Nat.digits_zero]
    rfl
  | case2 n tmp hn ih =>
    rw [digitsLoop, if_neg hn, ih, Nat.digits_def' (by decide) (Nat.pos_of_ne_zero hn), hdigit _ (Nat.mod_lt _ (by decide))]
    simp

/-- **`kitoa` prints canonical numerals**, different ones for different values, and in base 10 those of `uint_to_str`. -/
theorem kitoa_canonical (base : Nat) (h2 : 2 ≤ base) (h16 : base ≤ 16) :
    (∀ val : UInt32, ∃ ds : List Nat, kitoa val base = some (ds.map hexDigit ++ [0]) ∧ (∀ d ∈ ds, d < base) ∧
      (val ≠ 0 → ds.head? ≠ some 0) ∧ Nat.ofDigits base ds.reverse = val.toNat ∧ ds.length ≤ 32) ∧
      Function.Injective (fun val => kitoa val base) ∧ ∀ val, kitoa val 10 = some (uintToStr val ++ [0]) := by
  have hlt : ∀ val, ∀ d ∈ numeral base val, d < base := by
    intro val d hd
    unfold numeral at hd
    split at hd
    · rw [List.mem_singleton.1 hd]
      omega
    · exact Nat.digits_lt_base h2 (List.mem_reverse.1 hd)
  have hval : ∀ val, Nat.ofDigits base (numeral base val).reverse = val := by
    intro val
    unfold numeral
    split
    · simp [*]
    · rw [List.reverse_reverse, Nat.ofDigits_digits]
  refine ⟨fun val => ⟨_, kitoa_eq h2 val, hlt _, fun h0 => ?_, hval _, ?_⟩, fun v w hvw => ?_, fun val => ?_⟩
  · have hne : val.toNat ≠ 0 := fun hz => h0 (UInt32.toNat_inj.1 hz)
    rw [numeral, if_neg hne, List.head?_reverse, List.getLast?_eq_some_getLast (Nat.digits_ne_nil_iff_ne_zero.2 hne)]
    exact fun hz => Nat.getLast_digit_ne_zero base hne (Option.some.inj hz)
  · unfold numeral
    split
    · decide
    · rw [List.length_reverse, Nat.digits_length_le_iff h2]
      exact val_lt_pow h2 val
  · -- the digits can be read off the text
    have hread : ∀ d < 16, (ascii "0123456789ABCDEF").idxOf (hexDigit d) = d := by decide +kernel
    have hback : ∀ val, ((numeral base val).map hexDigit).map (ascii "0123456789ABCDEF").idxOf = numeral base val := by
      intro val
      rw [List.map_map]
      exact (List.map_congr_left fun d hd => hread d (Nat.lt_of_lt_of_le (hlt val d hd) h16)).trans (List.map_id _)
    have htext : (numeral base v.toNat).map hexDigit = (numeral base w.toNat).map hexDigit := by
      simpa [kitoa_eq h2] using hvw
    apply UInt32.toNat_inj.1
    rw [← hval v.toNat, ← hback, htext, hback, hval]
  · rw [kitoa_eq (by decide)]
    unfold uintToStr numeral
    by_cases h0 : val = 0
    · subst h0
      rfl
    · have hne : val.toNat ≠ 0 := fun hz => h0 (UInt32.toNat_inj.1 hz)
      rw [if_neg h0, if_neg hne, digitsLoop_eq, List.append_nil]

theorem kitoa_canonical_hex : ∃ ds : List Nat, kitoa 255 16 = some (ds.map hexDigit ++ [0]) ∧ ∀ d ∈ ds, d < 16 := by
  obtain ⟨ds, htext, hlt, -⟩ := (kitoa_canonical 16 (by decide) (by decide)).1 255
  exact ⟨ds, htext, hlt⟩

end KumOS.Procfs
