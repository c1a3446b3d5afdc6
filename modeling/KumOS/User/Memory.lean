import KumOS.Lib.Bytes
import Mathlib.Data.List.Sort

/-!
# Memory functions of the libc

`qsort` inserts one element after the other from the right, and so is stable (`qsort_sorts`).
`memmove` chooses its direction by the pointers, and copies as if through a temporary
(`memmove_copies`).
-/

namespace KumOS.User

open Lib

/-! ## `qsort` -/

/-- Element `i` of the array at `base`. -/
def elemAt (sz base : Nat) (m : Bytes) (i : Nat) : Fin sz → UInt8 := fun b => m (base + i * sz + b)

section

variable {sz : Nat} (cmp : (Fin sz → UInt8) → (Fin sz → UInt8) → Int) (base : Nat)

/-- `memcpy(arr + i * sz, e, sz)` -/
def setElem (m : Bytes) (i : Nat) (e : Fin sz → UInt8) : Bytes := fun x =>
  if h : base + i * sz ≤ x ∧ x < base + i * sz + sz then e ⟨x - (base + i * sz), by omega⟩ else m x

/-- The inner loop from `j` on, with the store behind it. -/
def insertLoop (tmp : Fin sz → UInt8) : Nat → Bytes → Bytes
  | 0, m => setElem base m 0 tmp
  | j + 1, m =>
    if 0 < cmp (elemAt sz base m j) tmp then insertLoop tmp j (setElem base m (j + 1) (elemAt sz base m j))
    else setElem base m (j + 1) tmp

/-- The memory after so many rounds of the outer loop. -/
def qsortLoop (m : Bytes) : Nat → Bytes
  | 0 => m
  | i + 1 => insertLoop cmp base (elemAt sz base (qsortLoop m i) (i + 1)) (i + 1) (qsortLoop m i)

/-- `none` for elements that do not fit into `tmp`. -/
def qsort (n : Nat) (m : Bytes) : Option Bytes :=
  if n < 2 then some m else if 256 < sz then none else some (qsortLoop cmp base m (n - 1))

end

/-- The first elements of the array. -/
def elems (sz base : Nat) (m : Bytes) : Nat → List (Fin sz → UInt8)
  | 0 => []
  | n + 1 => elems sz base m n ++ [elemAt sz base m n]

/-- Nothing but the first `n` elements changes. -/
def Inside (sz base n : Nat) (m m' : Bytes) : Prop := ∀ x, x < base ∨ base + n * sz ≤ x → m' x = m x

section

variable {sz : Nat} {cmp : (Fin sz → UInt8) → (Fin sz → UInt8) → Int} {base i j n : Nat} {m m' : Bytes}

theorem elemAt_setElem (e : Fin sz → UInt8) :
    elemAt sz base (setElem base m i e) j = if j = i then e else elemAt sz base m j := by
  funext b
  unfold elemAt setElem
  by_cases h : j = i
  · subst h
    rw [dif_pos (by omega), if_pos rfl]
    exact congrArg e (Fin.ext (Nat.add_sub_cancel_left ..))
  · have hlt : j < i → (j + 1) * sz ≤ i * sz := Nat.mul_le_mul_right sz
    have hgt : i < j → (i + 1) * sz ≤ j * sz := Nat.mul_le_mul_right sz
    rw [Nat.succ_mul] at hlt hgt
    rw [dif_neg (by omega), if_neg h]

theorem elems_setElem (hn : n ≤ i) (e : Fin sz → UInt8) : elems sz base (setElem base m i e) n = elems sz base m n := by
  induction n with
  | zero => rfl
  | succ n ih => rw [elems, elems, ih (by omega), elemAt_setElem, if_neg (by omega)]

theorem reverse_elems (sz base : Nat) (m : Bytes) (n : Nat) :
    (elems sz base m (n + 1)).reverse = elemAt sz base m n :: (elems sz base m n).reverse := List.reverse_concat ..

theorem Inside.elemAt (h : Inside sz base n m m') : elemAt sz base m' n = User.elemAt sz base m n :=
  funext fun b => h _ (.inr (by omega))

theorem setElem_inside (e : Fin sz → UInt8) : Inside sz base (i + 1) m (setElem base m i e) :=
  fun x hx => dif_neg (by rw [Nat.succ_mul] at hx; omega)

/-- From the last element to the first, the inner loop is an insertion. -/
theorem insertLoop_spec (tmp : Fin sz → UInt8) (j : Nat) (m : Bytes) :
    (elems sz base (insertLoop cmp base tmp j m) (j + 1)).reverse =
      (elems sz base m j).reverse.orderedInsert (fun a b => cmp b a ≤ 0) tmp ∧
      Inside sz base (j + 1) m (insertLoop cmp base tmp j m) := by
  induction j generalizing m with
  | zero =>
    refine ⟨?_, setElem_inside tmp⟩
    rw [insertLoop, reverse_elems, elemAt_setElem, if_pos rfl]
    rfl
  | succ j ih =>
    rw [insertLoop, reverse_elems, reverse_elems _ _ m, List.orderedInsert_cons]
    by_cases hc : 0 < cmp (elemAt sz base m j) tmp
    · obtain ⟨hel, hin⟩ := ih (setElem base m (j + 1) (elemAt sz base m j))
      rw [if_pos hc, if_neg (by omega), hel, elems_setElem (Nat.le_succ j), hin.elemAt, elemAt_setElem, if_pos rfl]
      refine ⟨rfl, fun x hx => ?_⟩
      rw [hin x (by rw [Nat.succ_mul] at hx; omega)]
      exact setElem_inside _ x hx
    · rw [if_neg hc, if_pos (by omega), elems_setElem (Nat.le_refl _), elemAt_setElem, if_pos rfl, reverse_elems]
      exact ⟨rfl, setElem_inside tmp⟩

theorem qsortLoop_spec (base : Nat) (m : Bytes) (i : Nat) :
    (elems sz base (qsortLoop cmp base m i) (i + 1)).reverse =
      (elems sz base m (i + 1)).reverse.insertionSort (fun a b => cmp b a ≤ 0) ∧
      Inside sz base (i + 1) m (qsortLoop cmp base m i) := by
  induction i with
  | zero => exact ⟨rfl, fun _ _ => rfl⟩
  | succ i ih =>
    obtain ⟨hel, hin⟩ := ih
    obtain ⟨hel1, hin1⟩ := insertLoop_spec (elemAt sz base (qsortLoop cmp base m i) (i + 1)) (i + 1)
      (qsortLoop cmp base m i)
    rw [qsortLoop, hel1, hel, hin.elemAt, reverse_elems _ _ m (i + 1), List.insertionSort_cons]
    refine ⟨rfl, fun x hx => ?_⟩
    rw [← hin x (by rw [Nat.succ_mul] at hx; omega), ← hin.elemAt]
    exact hin1 x hx

variable (cmp)

/-- **`qsort` is a stable sort**: any elements that are in order stay in their order.  No other bytes change. -/
theorem qsort_sorts (htotal : ∀ a b, cmp a b ≤ 0 ∨ cmp b a ≤ 0)
    (htrans : ∀ a b c, cmp a b ≤ 0 → cmp b c ≤ 0 → cmp a c ≤ 0) (hsz : sz ≤ 256) (base n : Nat) (m : Bytes) :
    ∃ m', qsort cmp base n m = some m' ∧ (elems sz base m' n).Perm (elems sz base m n) ∧
      (elems sz base m' n).Pairwise (cmp · · ≤ 0) ∧
      (∀ l : List (Fin sz → UInt8), l.Pairwise (cmp · · ≤ 0) → l.Sublist (elems sz base m n) → l.Sublist (elems sz base m' n)) ∧
      ∀ x, x < base ∨ base + n * sz ≤ x → m' x = m x := by
  have : Std.Total fun a b => cmp b a ≤ 0 := ⟨fun a b => htotal b a⟩
  have : IsTrans (Fin sz → UInt8) fun a b => cmp b a ≤ 0 := ⟨fun a b c hab hbc => htrans c b a hbc hab⟩
  unfold qsort
  by_cases hn : n < 2
  · refine ⟨m, if_pos hn, .refl _, ?_, fun _ _ h => h, fun _ _ => rfl⟩
    obtain rfl | rfl : n = 0 ∨ n = 1 := by omega
    · exact .nil
    · exact List.pairwise_singleton ..
  obtain ⟨hel, hin⟩ := qsortLoop_spec base m (n - 1)
  rw [show n - 1 + 1 = n by omega] at hel hin
  rw [if_neg hn, if_neg (by omega)]
  refine ⟨_, rfl, ?_, ?_, fun l hl hsub => ?_, hin⟩
  · have hperm := List.perm_insertionSort (fun a b => cmp b a ≤ 0) (elems sz base m n).reverse
    rw [← hel] at hperm
    exact (List.reverse_perm _).symm.trans (hperm.trans (List.reverse_perm _))
  · have hsorted := List.pairwise_insertionSort (fun a b => cmp b a ≤ 0) (elems sz base m n).reverse
    rwa [← hel, List.pairwise_reverse] at hsorted
  · have hstable := List.sublist_insertionSort (List.pairwise_reverse.2 hl) hsub.reverse
    rwa [← hel, List.reverse_sublist] at hstable

/-- Four records of two bytes, from address 1 on. -/
def sampleRecords : Bytes := .ofList [9, 2, 0, 1, 0, 2, 1, 1, 1]

/-- Sorted by their first bytes, the two records that begin with a 1 keep their order. -/
theorem qsort_sorts_records : ∃ m',
    qsort (fun a b : Fin 2 → UInt8 => (a 0).toNat - (b 0).toNat) 1 4 sampleRecords = some m' ∧
      (elems 2 1 m' 4).Pairwise (fun a b => ((a 0).toNat - (b 0).toNat : Int) ≤ 0) ∧
      [elemAt 2 1 sampleRecords 1, elemAt 2 1 sampleRecords 3].Sublist (elems 2 1 m' 4) ∧ m' 0 = 9 := by
  obtain ⟨m', hm', -, hsorted, hstable, hout⟩ := qsort_sorts (fun a b : Fin 2 → UInt8 => (a 0).toNat - (b 0).toNat)
    (by intro a b; omega) (by intro a b c; omega) (by decide) 1 4 sampleRecords
  exact ⟨m', hm', hsorted, hstable _ (by decide) (.cons _ (.cons_cons _ (.cons _ (.cons_cons _ .slnil)))),
    hout 0 (.inl (by decide))⟩

end

/-! ## `memmove` -/

section

variable {n d s : Nat}

/-- `while(n--)*d++=*s++;` -/
def copyUp : Nat → Nat → Nat → Bytes → Bytes
  | 0, _, _, m => m
  | n + 1, d, s, m => copyUp n (d + 1) (s + 1) (Function.update m d (m s))

/-- `d+=n; s+=n; while(n--)*--d=*--s;` -/
def copyDown : Nat → Nat → Nat → Bytes → Bytes
  | 0, _, _, m => m
  | n + 1, d, s, m => copyDown n d s (Function.update m (d + n) (m (s + n)))

def memmove (m : Bytes) (dst src n : Nat) : Bytes :=
  if dst < src ∨ u32 (src + n) ≤ dst then copyUp n dst src m else copyDown n dst src m

theorem copyUp_eq (h : d ≤ s ∨ s + n ≤ d) (m : Bytes) (x : Nat) :
    copyUp n d s m x = if d ≤ x ∧ x < d + n then m (s + (x - d)) else m x := by
  induction n generalizing d s m with
  | zero => exact (if_neg (by omega)).symm
  | succ n ih =>
    -- no later step reads the byte at `d`
    rw [copyUp, ih (by omega)]
    grind [Function.update_apply]

theorem copyDown_eq (h : s ≤ d) (m : Bytes) (x : Nat) :
    copyDown n d s m x = if d ≤ x ∧ x < d + n then m (s + (x - d)) else m x := by
  induction n generalizing m with
  | zero => exact (if_neg (by omega)).symm
  | succ n ih =>
    rw [copyDown, ih]
    grind [Function.update_apply]

/-- **`memmove` copies as if through a temporary**, for every overlap. -/
theorem memmove_copies (m : Bytes) {dst src : Nat} (hd : dst + n ≤ 2 ^ 32) (hs : src + n ≤ 2 ^ 32) :
    (∀ i < n, memmove m dst src n (dst + i) = m (src + i)) ∧
      ∀ x, x < dst ∨ dst + n ≤ x → memmove m dst src n x = m x := by
  have hcopy : ∀ x, memmove m dst src n x = if dst ≤ x ∧ x < dst + n then m (src + (x - dst)) else m x := by
    intro x
    unfold memmove u32
    by_cases h : dst < src ∨ (src + n) % 2 ^ 32 ≤ dst
    · -- if `src + n` wraps to 0, `dst` is not above `src`
      rw [if_pos h]
      exact copyUp_eq (by omega) m x
    · rw [if_neg h]
      exact copyDown_eq (by omega) m x
  refine ⟨fun i hi => ?_, fun x hx => (hcopy x).trans (if_neg (by omega))⟩
  rw [hcopy, if_pos (by omega), Nat.add_sub_cancel_left]

theorem memmove_copies_overlap : memmove (fun x => UInt8.ofNat x) 1 0 2 2 = 1 :=
  (memmove_copies (fun x => UInt8.ofNat x) (by decide) (by decide)).1 1 (by decide)

end

end KumOS.User
