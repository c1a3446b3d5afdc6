import Mathlib.Algebra.GroupWithZero.Nat
import Mathlib.Data.List.Basic

/-!
# Tilings of an interval

`Tiles start len a bs e`: the items `bs`, each occupying `len` addresses from
its `start`, follow one another without a gap from `a` to `e`.  An item may be
exchanged for any items that tile the same stretch (`Tiles.exchange`): cutting
an item in two, joining two and changing what an item carries are all that.
-/

namespace Lib

variable {β : Type} (start len : β → Nat)
variable {l r : List β} {b : β}

def Tiles : Nat → List β → Nat → Prop
  | a, [], e => a = e
  | a, b :: bs, e => start b = a ∧ Tiles (a + len b) bs e

namespace Tiles

variable {start len} {a e : Nat} {bs : List β}

theorem append_iff : Tiles start len a (l ++ r) e ↔ ∃ m, Tiles start len a l m ∧ Tiles start len m r e := by
  induction l generalizing a with
  | nil =>
    constructor
    · intro h
      exact ⟨a, rfl, h⟩
    · rintro ⟨m, rfl, h⟩
      exact h
  | cons b l ih =>
    constructor
    · rintro ⟨h1, h2⟩
      obtain ⟨m, h3, h4⟩ := ih.1 h2
      exact ⟨m, ⟨h1, h3⟩, h4⟩
    · rintro ⟨m, ⟨h1, h3⟩, h4⟩
      exact ⟨h1, ih.2 ⟨m, h3, h4⟩⟩

/-- Around an item: the items before it end at its start, those after it begin at its end. -/
theorem around (h : Tiles start len a (l ++ b :: r) e) :
    Tiles start len a l (start b) ∧ Tiles start len (start b + len b) r e := by
  obtain ⟨m, h1, h2, h3⟩ := append_iff.1 h
  subst h2
  exact ⟨h1, h3⟩

theorem exchange {ms : List β} (h : Tiles start len a (l ++ b :: r) e)
    (hm : Tiles start len (start b) ms (start b + len b)) : Tiles start len a (l ++ (ms ++ r)) e := by
  obtain ⟨h1, h2⟩ := h.around
  exact append_iff.2 ⟨_, h1, append_iff.2 ⟨_, hm, h2⟩⟩

section

variable (h : Tiles start len a bs e)
include h

theorem total : a + (bs.map len).sum = e := by
  induction bs generalizing a with
  | nil => simpa [Tiles] using h
  | cons b bs ih =>
    obtain ⟨-, h2⟩ := h
    have := ih h2
    simp only [List.map_cons, List.sum_cons]
    omega

theorem mem (hb : b ∈ bs) : a ≤ start b ∧ start b + len b ≤ e := by
  obtain ⟨l, r, rfl⟩ := List.append_of_mem hb
  obtain ⟨h1, h2⟩ := h.around
  have := h1.total
  have := h2.total
  omega

/-- Of two items the earlier one ends before the later one begins. -/
theorem pairwise : bs.Pairwise fun x y => start x + len x ≤ start y := by
  induction bs generalizing a with
  | nil => exact List.Pairwise.nil
  | cons b bs ih =>
    obtain ⟨rfl, h2⟩ := h
    exact List.pairwise_cons.2 ⟨fun y hy => (h2.mem hy).1, ih h2⟩

theorem apart {x y : β} (hx : x ∈ bs) (hy : y ∈ bs) :
    x = y ∨ start x + len x ≤ start y ∨ start y + len y ≤ start x := by
  obtain ⟨l, r, rfl⟩ := List.append_of_mem hx
  obtain ⟨hl, hr⟩ := h.around
  rcases List.mem_append.1 hy with hy | hy
  · exact .inr (.inr (hl.mem hy).2)
  · rcases List.mem_cons.1 hy with rfl | hy
    · exact .inl rfl
    · exact .inr (.inl (hr.mem hy).1)

end

/-- What follows an item: the end, or the next item. -/
theorem next {b : β} {l r : List β} (h : Tiles start len a (l ++ b :: r) e) :
    (r = [] ∧ start b + len b = e) ∨ ∃ c r', r = c :: r' ∧ start c = start b + len b := by
  obtain ⟨-, h2⟩ := h.around
  cases r with
  | nil => exact .inl ⟨rfl, h2⟩
  | cons c r => exact .inr ⟨c, r, rfl, h2.1⟩

end Tiles

end Lib
