import KumOS.Fat12.Model

/-!
# `kstring.c`: strings

A string in memory is given by the bytes it begins with; it ends at the first zero
byte, or, when the list has none, with the list.  `cstr` is the text of the string.
-/

namespace KumOS

open Fat12 (Name kstrncmp)

/-- What stands before the first zero byte. -/
def cstr (s : Name) : Name := s.takeWhile (· ≠ 0)

def kstrlen (s : Name) : Nat := (cstr s).length

def kstrcmp : Name → Name → Int
  | [], b => 0 - (b.headD 0).toNat
  | a :: as, b =>
    if a ≠ 0 ∧ a = b.headD 0 then kstrcmp as b.tail else a.toNat - (b.headD 0).toNat

@[simp] theorem cstr_nil : cstr [] = [] := rfl

theorem cstr_cons (c : UInt8) (s : Name) : cstr (c :: s) = if c = 0 then [] else c :: cstr s := by
  by_cases hc : c = 0 <;> simp [cstr, hc]

theorem cstr_eq_nil_iff (s : Name) : cstr s = [] ↔ s.headD 0 = 0 := by
  cases s with
  | nil => simp
  | cons c s => by_cases hc : c = 0 <;> simp [cstr_cons, hc]

theorem cstr_append {s t : Name} (h : 0 ∉ s) : cstr (s ++ t) = s ++ cstr t := by
  induction s with
  | nil => rfl
  | cons c s ih =>
    rw [List.mem_cons, not_or] at h
    rw [List.cons_append, cstr_cons, if_neg (Ne.symm h.1), ih h.2]
    rfl

theorem cstr_append_zero (s t : Name) : cstr (s ++ 0 :: t) = cstr s := by
  induction s with
  | nil => rfl
  | cons c s ih => rw [List.cons_append, cstr_cons, cstr_cons, ih]

theorem cstr_eq_self {s : Name} (h : 0 ∉ s) : cstr s = s := by
  have happend := cstr_append (t := []) h
  simpa using happend

theorem zero_not_mem_cstr (s : Name) : (0 : UInt8) ∉ cstr s := by
  induction s with
  | nil => simp
  | cons c s ih =>
    rw [cstr_cons]
    by_cases hc : c = 0
    · simp [hc]
    · simp [hc, ih, Ne.symm hc]

theorem toNat_sub_eq_zero {a b : UInt8} : (a.toNat : Int) - b.toNat = 0 ↔ a = b := by
  constructor
  · intro h
    apply UInt8.toNat_inj.1
    omega
  · rintro rfl
    omega

theorem kstrcmp_eq_zero_iff (a b : Name) : kstrcmp a b = 0 ↔ cstr a = cstr b := by
  induction a generalizing b with
  | nil =>
    have h0 : (0 : Int) - (b.headD 0).toNat = 0 ↔ b.headD 0 = 0 := by
      rw [← @toNat_sub_eq_zero (b.headD 0) 0]
      simp
    rw [kstrcmp, h0, cstr_nil, ← cstr_eq_nil_iff, eq_comm]
  | cons c as ih =>
    rw [kstrcmp]
    by_cases hc : c ≠ 0 ∧ c = b.headD 0
    · rw [if_pos hc, ih, cstr_cons, if_neg hc.1]
      cases b with
      | nil => exact absurd hc.2 hc.1
      | cons d bs =>
        obtain rfl : c = d := hc.2
        rw [cstr_cons, if_neg hc.1, List.cons_inj_right]
        rfl
    rw [if_neg hc, toNat_sub_eq_zero, cstr_cons]
    by_cases h0 : c = 0
    · rw [if_pos h0, h0, eq_comm, @eq_comm _ [], cstr_eq_nil_iff]
    have hne : c ≠ b.headD 0 := fun h => hc ⟨h0, h⟩
    rw [if_neg h0]
    refine iff_of_false hne fun h => hne ?_
    cases b with
    | nil => cases h
    | cons d bs =>
      rw [cstr_cons] at h
      split at h
      · cases h
      · exact (List.cons_eq_cons.1 h).1

/-- The comparison of `find_mount`: the path begins with the other string. -/
theorem kstrncmp_length_eq_zero_iff {p : Name} (hp : 0 ∉ p) (path : Name) :
    kstrncmp path p p.length = 0 ↔ p <+: path := by
  induction p generalizing path with
  | nil => simp [kstrncmp]
  | cons c p ih =>
    rw [List.mem_cons, not_or] at hp
    rw [List.length_cons, kstrncmp]
    cases path with
    | nil =>
      refine iff_of_false ?_ (by simp)
      show ¬ (((0 : UInt8).toNat : Int) - c.toNat = 0)
      rw [toNat_sub_eq_zero]
      exact hp.1
    | cons d path =>
      by_cases hd : d = c
      · rw [if_pos ⟨by rw [List.headD_cons, hd]; exact Ne.symm hp.1, hd⟩, List.cons_prefix_cons]
        simp [hd, ih hp.2]
      rw [if_neg fun h => hd h.2, List.cons_prefix_cons]
      rw [toNat_sub_eq_zero]
      simp [hd, Ne.symm hd]

end KumOS
