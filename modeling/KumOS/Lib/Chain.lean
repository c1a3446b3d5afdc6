import Mathlib.Data.List.Nodup

/-!
# Singly linked chains in a table

`Linked next stop a cs`: following the table `next` from `a` visits the cells
`cs` in order and then arrives at `stop`.  A chain depends on the entries of its
own cells only (`Linked.congr`), and grows at its far end by linking a fresh
cell behind the last one (`Linked.snoc`).
-/

namespace Lib

variable {α : Type}

def Linked (next : α → α) (stop : α) : α → List α → Prop
  | a, [] => a = stop
  | a, c :: cs => a = c ∧ Linked next stop (next c) cs

variable {next next' : α → α} {stop a : α} {cs ds : List α}

theorem Linked.congr (h : Linked next stop a cs) (hn : ∀ c ∈ cs, next' c = next c) : Linked next' stop a cs := by
  induction cs generalizing a with
  | nil => exact h
  | cons c cs ih =>
    refine ⟨h.1, ?_⟩
    rw [hn c List.mem_cons_self]
    exact ih h.2 fun x hx => hn x (List.mem_cons_of_mem c hx)

theorem linked_append : Linked next stop a (cs ++ ds) ↔ ∃ b, Linked next b a cs ∧ Linked next stop b ds := by
  induction cs generalizing a with
  | nil => simp [Linked]
  | cons c cs ih => simp [Linked, ih, and_assoc]

/-- The entry of a cell on the chain is the next cell, or the stop value. -/
theorem Linked.next_mem (h : Linked next stop a cs) {c : α} (hc : c ∈ cs) : next c ∈ cs ∨ next c = stop := by
  induction cs generalizing a with
  | nil => cases hc
  | cons d ds ih =>
    rcases List.mem_cons.1 hc with rfl | hc
    · cases ds with
      | nil => exact .inr h.2
      | cons e es => exact .inl (by rw [h.2.1]; simp)
    · rcases ih h.2 hc with hm | he
      · exact .inl (List.mem_cons_of_mem d hm)
      · exact .inr he

/-- A fresh cell linked behind the last one. -/
theorem Linked.snoc {p c : α} (h : Linked next stop a (cs ++ [p]))
    (hcs : ∀ x ∈ cs, next' x = next x) (hp : next' p = c) (hc : next' c = stop) :
    Linked next' stop a (cs ++ [p] ++ [c]) := by
  obtain ⟨b, hb, hbp, -⟩ := linked_append.1 h
  rw [List.append_assoc]
  exact linked_append.2 ⟨b, hb.congr hcs, hbp, hp, hc⟩

end Lib
