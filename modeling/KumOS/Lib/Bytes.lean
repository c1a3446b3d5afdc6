import Mathlib.Algebra.Group.Int.Defs
import Mathlib.Algebra.Group.Nat.Defs
import Mathlib.Logic.Function.Basic

/-!
# Byte memories with little-endian fields

A memory or a buffer is a function from addresses to bytes.  `get16`/`put16`
and `get32`/`put32` read and write little-endian fields; a read over a write is
the value written, at the same address, or the old field, when the two do not
overlap.
-/

namespace Lib

variable {a n v x : Nat}

/-- Reduction to an unsigned 32-bit value. -/
def u32 (x : Nat) : Nat := x % 2 ^ 32

/-- An unsigned 32-bit value read as a signed one. -/
def i32 (x : Nat) : Int := if x < 2 ^ 31 then x else x - 2 ^ 32

theorem i32_of_lt (h : x < 2 ^ 31) : i32 x = x := if_pos h

abbrev Bytes := Nat → UInt8

variable {m' : Bytes}

namespace Bytes

def get16 (m : Bytes) (a : Nat) : Nat := (m a).toNat + 2 ^ 8 * (m (a + 1)).toNat

def get32 (m : Bytes) (a : Nat) : Nat := m.get16 a + 2 ^ 16 * m.get16 (a + 2)

def put8 (m : Bytes) (a v : Nat) : Bytes := Function.update m a (UInt8.ofNat v)

def put16 (m : Bytes) (a v : Nat) : Bytes := (m.put8 a v).put8 (a + 1) (v / 2 ^ 8)

def put32 (m : Bytes) (a v : Nat) : Bytes := (m.put16 a v).put16 (a + 2) (v / 2 ^ 16)

variable (m : Bytes)

theorem get16_lt (a : Nat) : m.get16 a < 2 ^ 16 := by
  have h0 := (m a).toNat_lt
  have h1 := (m (a + 1)).toNat_lt
  unfold get16
  omega

theorem get32_lt (a : Nat) : m.get32 a < 2 ^ 32 := by
  have h0 := m.get16_lt a
  have h1 := m.get16_lt (a + 2)
  unfold get32
  omega

/-! ## What a write leaves alone -/

@[simp] theorem put8_same (a v : Nat) : m.put8 a v a = UInt8.ofNat v := Function.update_self ..

theorem put8_ne (h : x ≠ a) : m.put8 a v x = m x := Function.update_of_ne h ..

theorem put16_of_out (h : x < a ∨ a + 2 ≤ x) : m.put16 a v x = m x := by
  unfold put16
  rw [put8_ne _ (by omega), put8_ne _ (by omega)]

theorem put32_of_out (h : x < a ∨ a + 4 ≤ x) : m.put32 a v x = m x := by
  unfold put32
  rw [put16_of_out _ (by omega), put16_of_out _ (by omega)]

theorem get16_congr {m : Bytes} (h : ∀ i < 2, m (a + i) = m' (a + i)) : m.get16 a = m'.get16 a := by
  have h0 : m a = m' a := h 0 (by omega)
  unfold get16
  rw [h0, h 1 (by omega)]

theorem get32_congr {m : Bytes} (h : ∀ i < 4, m (a + i) = m' (a + i)) : m.get32 a = m'.get32 a := by
  have h0 : m.get16 a = m'.get16 a := get16_congr fun i hi => h i (by omega)
  have h2 : m.get16 (a + 2) = m'.get16 (a + 2) := get16_congr fun i hi => by
    rw [Nat.add_assoc]
    exact h (2 + i) (by omega)
  unfold get32
  rw [h0, h2]

/-! ## A read over a write -/

theorem get16_put16_same (hv : v < 2 ^ 16) : (m.put16 a v).get16 a = v := by
  unfold get16 put16
  rw [put8_same, put8_ne _ (by omega), put8_same, UInt8.toNat_ofNat', UInt8.toNat_ofNat']
  omega

theorem get16_put16_ne {b : Nat} (h : b + 2 ≤ a ∨ a + 2 ≤ b) : (m.put16 a v).get16 b = m.get16 b :=
  get16_congr fun i hi => m.put16_of_out (by omega)

theorem get16_put16_mod : (m.put16 a v).get16 a = v % 2 ^ 16 := by
  unfold get16 put16
  rw [put8_same, put8_ne _ (by omega), put8_same, UInt8.toNat_ofNat', UInt8.toNat_ofNat']
  omega

theorem get32_put32_same (hv : v < 2 ^ 32) : (m.put32 a v).get32 a = v := by
  have hlow : (m.put32 a v).get16 a = v % 2 ^ 16 := by
    rw [put32, get16_put16_ne _ (by omega), get16_put16_mod]
  have hhigh : (m.put32 a v).get16 (a + 2) = v / 2 ^ 16 := get16_put16_same _ (by omega)
  rw [get32, hlow, hhigh]
  omega

theorem get32_put32_ne {b : Nat} (h : b + 4 ≤ a ∨ a + 4 ≤ b) : (m.put32 a v).get32 b = m.get32 b :=
  get32_congr fun i hi => m.put32_of_out (by omega)

/-- The bytes of a table of words. -/
def ofWords (w : Nat → Nat) : Bytes := fun x => UInt8.ofNat (w (x / 4) / 2 ^ (8 * (x % 4)))

theorem get32_ofWords {w : Nat → Nat} {i : Nat} (h : w i < 2 ^ 32) : (ofWords w).get32 (4 * i) = w i := by
  have hbyte : ∀ k < 4, (ofWords w (4 * i + k)).toNat = w i / 2 ^ (8 * k) % 2 ^ 8 := by
    intro k hk
    have h1 : (4 * i + k) / 4 = i := by omega
    have h2 : (4 * i + k) % 4 = k := by omega
    unfold ofWords
    rw [h1, h2, UInt8.toNat_ofNat']
  have h0 := hbyte 0 (by omega)
  have h1 := hbyte 1 (by omega)
  have h2 := hbyte 2 (by omega)
  have h3 := hbyte 3 (by omega)
  unfold get32 get16
  simp only [Nat.add_zero, Nat.mul_zero, Nat.mul_one, Nat.add_assoc, Nat.reduceAdd, Nat.reduceMul] at h0 h1 h2 h3 ⊢
  omega

/-! ## Copies of whole stretches -/

/-- `kmemcpy(m + a, src, n)` -/
def copy (m : Bytes) (a : Nat) (src : Bytes) (n : Nat) : Bytes :=
  fun x => if a ≤ x ∧ x < a + n then src (x - a) else m x

/-- `kmemset(m + a, v, n)` -/
def fill (m : Bytes) (a : Nat) (v : UInt8) (n : Nat) : Bytes := m.copy a (fun _ => v) n

/-- The memory as seen from the pointer `m + k`. -/
def drop (m : Bytes) (k : Nat) : Bytes := fun i => m (k + i)

/-- A buffer that holds the bytes of a list, and zeros behind them. -/
def ofList (l : List UInt8) : Bytes := fun i => l.getD i 0

/-- The first `n` bytes. -/
def toList (m : Bytes) (n : Nat) : List UInt8 := (List.range n).map m

theorem copy_of_in (src : Bytes) (h : a ≤ x ∧ x < a + n) : m.copy a src n x = src (x - a) := if_pos h

theorem copy_of_out (src : Bytes) (h : ¬ (a ≤ x ∧ x < a + n)) : m.copy a src n x = m x := if_neg h

@[simp] theorem length_toList (n : Nat) : (m.toList n).length = n := by simp [toList]

theorem toList_congr {m : Bytes} (h : ∀ i < n, m i = m' i) : m.toList n = m'.toList n :=
  List.map_congr_left fun i hi => h i (List.mem_range.1 hi)

theorem toList_add (k n : Nat) : m.toList (k + n) = m.toList k ++ (m.drop k).toList n := by
  rw [toList, List.range_add, List.map_append, List.map_map]
  rfl

theorem take_toList (k n : Nat) : (m.toList n).take k = m.toList (min n k) := by
  rw [toList, ← List.map_take, List.take_range, Nat.min_comm]
  rfl

/-- What a read at `pos` brings from a buffer with `size` bytes. -/
theorem copy_drop (src : Bytes) {size pos len : Nat} {out : List UInt8}
    (hout : out = ((src.toList size).drop pos).take len) :
    out.length = min len (size - pos) ∧
      m.copy 0 (src.drop pos) (min len (size - pos)) = m.copy 0 (.ofList out) out.length := by
  have hlen : out.length = min len (size - pos) := by
    rw [hout]
    simp
  refine ⟨hlen, funext fun x => ?_⟩
  rw [hlen]
  by_cases hx : 0 ≤ x ∧ x < 0 + min len (size - pos)
  · have hget : out.getD x 0 = src (pos + x) := by
      have hx' : x < out.length := by omega
      rw [List.getD_eq_getElem?_getD, List.getElem?_eq_getElem hx', Option.getD_some]
      simp only [hout, toList, List.getElem_take, List.getElem_drop, List.getElem_map, List.getElem_range]
    rw [copy_of_in _ _ hx, copy_of_in _ _ hx, Nat.sub_zero]
    exact hget.symm
  · rw [copy_of_out _ _ hx, copy_of_out _ _ hx]

theorem toList_ofList (l : List UInt8) : (ofList l).toList l.length = l := by
  apply List.ext_getElem
  · simp
  · intro i hi hi'
    simp [toList, ofList, hi']

theorem toList_copy_ofList (l : List UInt8) : (m.copy 0 (.ofList l) l.length).toList l.length = l := by
  have hby : (m.copy 0 (.ofList l) l.length).toList l.length = (ofList l).toList l.length := by
    apply toList_congr
    intro i hi
    rw [copy_of_in _ _ (by omega), Nat.sub_zero]
  rw [hby, toList_ofList]

theorem toList_copy_append (src : Bytes) (k n : Nat) :
    (m.copy k src n).toList (k + n) = m.toList k ++ src.toList n := by
  rw [toList_add]
  congr 1
  · apply toList_congr
    intro x hx
    exact copy_of_out _ _ (by omega)
  · apply toList_congr
    intro x hx
    show m.copy k src n (k + x) = src x
    rw [copy_of_in _ _ (by omega), Nat.add_sub_cancel_left]

end Bytes

end Lib
