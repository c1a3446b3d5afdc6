import KumOS.Lib.Bytes

/-!
# Big-endian fields

The fields of network headers have their most significant byte first.  As for
the little-endian ones, a read over a write is the value written, at the same
offset, or the old field, when the two do not overlap.
-/

namespace Lib.Bytes

variable {a v : Nat}

def getBe16 (m : Bytes) (a : Nat) : Nat := 2 ^ 8 * (m a).toNat + (m (a + 1)).toNat

def getBe32 (m : Bytes) (a : Nat) : Nat := 2 ^ 16 * m.getBe16 a + m.getBe16 (a + 2)

def putBe16 (m : Bytes) (a v : Nat) : Bytes := (m.put8 a (v / 2 ^ 8)).put8 (a + 1) v

def putBe32 (m : Bytes) (a v : Nat) : Bytes := (m.putBe16 a (v / 2 ^ 16)).putBe16 (a + 2) v

variable (m : Bytes)

/-! ## What a write leaves alone -/

theorem putBe16_of_out {x : Nat} (h : x < a ∨ a + 2 ≤ x) : m.putBe16 a v x = m x := by
  unfold putBe16
  rw [put8_ne _ (by omega), put8_ne _ (by omega)]

theorem putBe32_of_out {x : Nat} (h : x < a ∨ a + 4 ≤ x) : m.putBe32 a v x = m x := by
  unfold putBe32
  rw [putBe16_of_out _ (by omega), putBe16_of_out _ (by omega)]

theorem getBe16_congr {m m' : Bytes} (h : ∀ i < 2, m (a + i) = m' (a + i)) : m.getBe16 a = m'.getBe16 a := by
  have h0 : m a = m' a := h 0 (by omega)
  unfold getBe16
  rw [h0, h 1 (by omega)]

theorem getBe32_congr {m m' : Bytes} (h : ∀ i < 4, m (a + i) = m' (a + i)) : m.getBe32 a = m'.getBe32 a := by
  have h0 : m.getBe16 a = m'.getBe16 a := getBe16_congr fun i hi => h i (by omega)
  have h2 : m.getBe16 (a + 2) = m'.getBe16 (a + 2) := getBe16_congr fun i hi => by
    rw [Nat.add_assoc]
    exact h (2 + i) (by omega)
  unfold getBe32
  rw [h0, h2]

/-! ## A read beside a write -/

section

variable {b n : Nat}

theorem getBe16_put8_ne (h : b + 2 ≤ a ∨ a < b) : (m.put8 a v).getBe16 b = m.getBe16 b :=
  getBe16_congr fun i hi => m.put8_ne (by omega)

theorem getBe16_putBe16_ne (h : b + 2 ≤ a ∨ a + 2 ≤ b) : (m.putBe16 a v).getBe16 b = m.getBe16 b :=
  getBe16_congr fun i hi => m.putBe16_of_out (by omega)

theorem getBe16_putBe32_ne (h : b + 2 ≤ a ∨ a + 4 ≤ b) : (m.putBe32 a v).getBe16 b = m.getBe16 b :=
  getBe16_congr fun i hi => m.putBe32_of_out (by omega)

theorem getBe16_copy_ne (src : Bytes) (h : b + 2 ≤ a ∨ a + n ≤ b) : (m.copy a src n).getBe16 b = m.getBe16 b :=
  getBe16_congr fun i hi => m.copy_of_out src (by omega)

theorem getBe32_put8_ne (h : b + 4 ≤ a ∨ a < b) : (m.put8 a v).getBe32 b = m.getBe32 b :=
  getBe32_congr fun i hi => m.put8_ne (by omega)

theorem getBe32_putBe16_ne (h : b + 4 ≤ a ∨ a + 2 ≤ b) : (m.putBe16 a v).getBe32 b = m.getBe32 b :=
  getBe32_congr fun i hi => m.putBe16_of_out (by omega)

theorem getBe32_putBe32_ne (h : b + 4 ≤ a ∨ a + 4 ≤ b) : (m.putBe32 a v).getBe32 b = m.getBe32 b :=
  getBe32_congr fun i hi => m.putBe32_of_out (by omega)

theorem getBe32_copy_ne (src : Bytes) (h : b + 4 ≤ a ∨ a + n ≤ b) : (m.copy a src n).getBe32 b = m.getBe32 b :=
  getBe32_congr fun i hi => m.copy_of_out src (by omega)

end

/-! ## A read over a write -/

theorem getBe16_putBe16 : (m.putBe16 a v).getBe16 a = v % 2 ^ 16 := by
  unfold getBe16 putBe16
  rw [put8_same, put8_ne _ (by omega), put8_same, UInt8.toNat_ofNat', UInt8.toNat_ofNat']
  omega

theorem getBe32_putBe32 : (m.putBe32 a v).getBe32 a = v % 2 ^ 32 := by
  have hhigh : (m.putBe32 a v).getBe16 a = v / 2 ^ 16 % 2 ^ 16 := by
    rw [← m.getBe16_putBe16]
    exact getBe16_congr fun i hi => putBe16_of_out _ (by omega)
  have hlow : (m.putBe32 a v).getBe16 (a + 2) = v % 2 ^ 16 := getBe16_putBe16 _
  rw [getBe32, hhigh, hlow]
  omega

end Lib.Bytes
