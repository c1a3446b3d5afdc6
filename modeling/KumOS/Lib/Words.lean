import Mathlib.Algebra.Group.Int.Defs
import Mathlib.Algebra.Group.Nat.Defs
import Mathlib.Logic.Function.Basic

/-!
# A 32-bit byte-addressed memory and the words of a stack

`Ram` maps every 32-bit address to a byte; `load32`/`store32` read and write
little-endian words, with addresses wrapping modulo 2^32.  `Words m a ws` says
that the words `ws` lie from address `a` upwards: it is the view of a stack
from its top, and `Words.push`/`Words.pop` are what a push and a pop do to it.
Stores that touch none of these bytes (`Apart`) keep it.
-/

namespace Lib

abbrev Word := BitVec 32

variable {a b : Word} {ws : List Word}

def Ram : Type := Word → BitVec 8

variable {m : Ram}

namespace Ram

def load32 (m : Ram) (a : Word) : Word := m (a + 3#32) ++ m (a + 2#32) ++ m (a + 1#32) ++ m a

def store32 (m : Ram) (a v : Word) : Ram := fun x =>
  if x = a then v.extractLsb' 0 8
  else if x = a + 1#32 then v.extractLsb' 8 8
  else if x = a + 2#32 then v.extractLsb' 16 8
  else if x = a + 3#32 then v.extractLsb' 24 8
  else m x

end Ram

open Ram

/-! ## Loads and stores -/

/-- The byte ranges `[a, a + n)` and `[b, b + k)` have no address in common. -/
def Apart (a : Word) (n : Nat) (b : Word) (k : Nat) : Prop :=
  ∀ i < n, ∀ j < k, a + BitVec.ofNat 32 i ≠ b + BitVec.ofNat 32 j

theorem load32_store32_same (m : Ram) (a v : Word) : load32 (store32 m a v) a = v := by
  have h1 : a + 1#32 ≠ a := by grind
  have h2 : a + 2#32 ≠ a := by grind
  have h21 : a + 2#32 ≠ a + 1#32 := by grind
  have h3 : a + 3#32 ≠ a := by grind
  have h31 : a + 3#32 ≠ a + 1#32 := by grind
  have h32 : a + 3#32 ≠ a + 2#32 := by grind
  simp only [load32, store32, if_true, h1, h2, h21, h3, h31, h32, if_false]
  rw [BitVec.extractLsb'_append_extractLsb'_eq_extractLsb' (by rfl),
    BitVec.extractLsb'_append_extractLsb'_eq_extractLsb' (by rfl),
    BitVec.extractLsb'_append_extractLsb'_eq_extractLsb' (by rfl)]
  exact BitVec.extractLsb'_eq_self

theorem load32_congr {m' : Ram} (h : ∀ i < 4, m (a + BitVec.ofNat 32 i) = m' (a + BitVec.ofNat 32 i)) :
    load32 m a = load32 m' a := by
  have h0 : m a = m' a := by simpa using h 0 (by omega)
  unfold load32
  rw [h 3 (by omega), h 2 (by omega), h 1 (by omega), h0]

theorem store32_of_ne {v x : Word} (h : ∀ i < 4, a + BitVec.ofNat 32 i ≠ x) : store32 m a v x = m x := by
  have h0 : x ≠ a := by simpa using (h 0 (by omega)).symm
  unfold store32
  rw [if_neg h0, if_neg (h 1 (by omega)).symm, if_neg (h 2 (by omega)).symm,
    if_neg (h 3 (by omega)).symm]

theorem apart_of_le {n k : Nat} (h : a.toNat + n ≤ b.toNat) (hb : b.toNat + k ≤ 2 ^ 32) : Apart a n b k := by
  intro i hi j hj he
  have := congrArg BitVec.toNat he
  simp only [BitVec.toNat_add, BitVec.toNat_ofNat] at this
  omega

/-! ## The words of a stack -/

/-- From address `a` upwards lie the words `ws`. -/
def Words (m : Ram) : Word → List Word → Prop
  | _, [] => True
  | a, w :: ws => load32 m a = w ∧ Words m (a + 4#32) ws

instance Words.decidable (m : Ram) : (a : Word) → (ws : List Word) → Decidable (Words m a ws)
  | _, [] => inferInstanceAs (Decidable True)
  | a, w :: ws =>
    have := Words.decidable m (a + 4#32) ws
    inferInstanceAs (Decidable (load32 m a = w ∧ Words m (a + 4#32) ws))

theorem Words.nil (m : Ram) (a : Word) : Words m a [] := trivial

theorem Words.congr {m' : Ram} (h : ∀ i < 4 * ws.length, m (a + BitVec.ofNat 32 i) = m' (a + BitVec.ofNat 32 i))
    (hw : Words m a ws) : Words m' a ws := by
  induction ws generalizing a with
  | nil => trivial
  | cons w ws ih =>
    obtain ⟨h1, h2⟩ := hw
    simp only [List.length_cons] at h
    refine ⟨?_, ih (fun i hi => ?_) h2⟩
    · rw [← h1]
      exact (load32_congr fun i hi => h i (by omega)).symm
    · have := h (4 + i) (by omega)
      rwa [BitVec.ofNat_add, ← BitVec.add_assoc] at this

/-- A store apart from the words keeps them. -/
theorem Words.store {v : Word} (hw : Words m a ws) (h : Apart b 4 a (4 * ws.length)) : Words (store32 m b v) a ws :=
  hw.congr fun j hj => (store32_of_ne fun i hi => h i hi j hj).symm

/-- A push: the word goes below the ones already there. -/
theorem Words.push (hw : Words m a ws) (hlen : ws.length < 2 ^ 30) (v : Word) :
    Words (store32 m (a - 4#32) v) (a - 4#32) (v :: ws) := by
  refine ⟨load32_store32_same .., ?_⟩
  rw [BitVec.sub_add_cancel]
  exact hw.store fun i hi j hj he => by bv_omega

/-- The memory after the words `vs` have been pushed one after the other. -/
def pushWords (m : Ram) (a : Word) : List Word → Ram
  | [] => m
  | v :: vs => pushWords (store32 m (a - 4#32) v) (a - 4#32) vs

theorem Words.pushWords (vs : List Word) (hw : Words m a ws) (hlen : ws.length + vs.length < 2 ^ 30) :
    Words (Lib.pushWords m a vs) (a - BitVec.ofNat 32 (4 * vs.length)) (vs.reverse ++ ws) := by
  induction vs generalizing m a ws with
  | nil => simpa [Lib.pushWords] using hw
  | cons v vs ih =>
    simp only [List.length_cons] at hlen
    have h := ih (hw.push (by omega) v) (by simp; omega)
    have ha : a - BitVec.ofNat 32 (4 * (v :: vs).length) =
        a - 4#32 - BitVec.ofNat 32 (4 * vs.length) := by
      rw [List.length_cons, Nat.mul_add, BitVec.ofNat_add]
      grind
    rw [ha]
    simpa [Lib.pushWords] using h

/-- Words that the pushed ones do not reach stay. -/
theorem Words.pushWords_apart (vs : List Word) (hw : Words m b ws)
    (h : Apart (a - BitVec.ofNat 32 (4 * vs.length)) (4 * vs.length) b (4 * ws.length)) :
    Words (Lib.pushWords m a vs) b ws := by
  induction vs generalizing m a with
  | nil => exact hw
  | cons v vs ih =>
    have ha : BitVec.ofNat 32 (4 * (v :: vs).length) = BitVec.ofNat 32 (4 * vs.length) + 4#32 := by
      rw [List.length_cons, Nat.mul_add, BitVec.ofNat_add]
    simp only [List.length_cons] at h
    apply ih
    · apply hw.store
      intro i hi j hj he
      apply h (4 * vs.length + i) (by omega) j hj
      rw [← he, BitVec.ofNat_add]
      grind
    · intro i hi j hj he
      apply h i (by omega) j hj
      grind

/-- The word `i` places up. -/
theorem Words.get (hw : Words m a ws) (i : Nat) (hi : i < ws.length) :
    load32 m (a + BitVec.ofNat 32 (4 * i)) = ws[i] := by
  induction ws generalizing a i with
  | nil => simp at hi
  | cons w ws ih =>
    cases i with
    | zero => simpa using hw.1
    | succ i =>
      have := ih hw.2 i (by simpa using hi)
      rw [BitVec.add_assoc, ← BitVec.ofNat_add] at this
      simpa [Nat.mul_add, Nat.add_comm] using this

theorem Words.of_get (h : ∀ i (hi : i < ws.length), load32 m (a + BitVec.ofNat 32 (4 * i)) = ws[i]) : Words m a ws := by
  induction ws generalizing a with
  | nil => trivial
  | cons w ws ih =>
    refine ⟨?_, ih fun i hi => ?_⟩
    · rw [← BitVec.add_zero a]
      exact h 0 (Nat.succ_pos _)
    · rw [BitVec.add_assoc, ← BitVec.ofNat_add, Nat.add_comm 4]
      exact h (i + 1) (Nat.succ_lt_succ hi)

end Lib
