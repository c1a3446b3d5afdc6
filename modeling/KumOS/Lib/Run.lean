import Mathlib.Logic.Function.Basic

/-!
# Runs of a transition system

`Run step s ops s'`: the operations `ops`, one after the other, can lead from
`s` to `s'`.  The step relation may be partial (an operation its guard refuses,
a call that does not return) and need not be deterministic.
-/

namespace Lib

variable {S O : Type}

inductive Run (step : S → O → S → Prop) (s : S) : List O → S → Prop
  | nil : Run step s [] s
  | snoc {ops : List O} {s1 s2 : S} {op : O} :
      Run step s ops s1 → step s1 op s2 → Run step s (ops ++ [op]) s2

variable {step : S → O → S → Prop} {s s' : S} {ops : List O}

/-- What holds at the start and is kept by every step holds at the end of every run. -/
theorem Run.invariant (I : S → Prop) (h0 : I s) (hsp : ∀ s1 op s2, I s1 → step s1 op s2 → I s2)
    (h : Run step s ops s') : I s' := by
  induction h with
  | nil => exact h0
  | snoc _ hs ih => exact hsp _ _ _ ih hs

/-- The same for a property of the operations made so far and the state reached. -/
theorem Run.invariant_hist (I : List O → S → Prop) (h0 : I [] s)
    (hsp : ∀ done s1 op s2, I done s1 → step s1 op s2 → I (done ++ [op]) s2) (h : Run step s ops s') : I ops s' := by
  induction h with
  | nil => exact h0
  | snoc _ hs ih => exact hsp _ _ _ _ ih hs

theorem Run.append {ops' : List O} {s'' : S} (h : Run step s ops s') (h' : Run step s' ops' s'') :
    Run step s (ops ++ ops') s'' := by
  induction h' with
  | nil => simpa using h
  | snoc _ hs ih =>
    rw [← List.append_assoc]
    exact .snoc ih hs

/-- A deterministic system is in one state after given operations. -/
theorem Run.unique (hsp : ∀ s1 op s2 s3, step s1 op s2 → step s1 op s3 → s2 = s3) {s'' : S}
    (h : Run step s ops s') (h' : Run step s ops s'') : s' = s'' := by
  induction h generalizing s'' with
  | nil =>
    generalize hnil : ([] : List O) = ops at h'
    cases h' with
    | nil => rfl
    | snoc _ _ => simp at hnil
  | snoc hrun hs ih =>
    rename_i done s1 s2 op
    generalize hops : done ++ [op] = ops at h'
    cases h' with
    | nil => simp at hops
    | snoc hrun' hs' =>
      obtain ⟨rfl, hop⟩ := List.append_inj' hops rfl
      obtain rfl := List.singleton_inj.1 hop
      obtain rfl := ih hrun'
      exact hsp _ _ _ _ hs hs'

/-- A run is one of a system that can do the same. -/
theorem Run.map {O' : Type} {step' : S → O' → S → Prop} (f : O → O') (hf : ∀ s1 op s2, step s1 op s2 → step' s1 (f op) s2)
    (h : Run step s ops s') : Run step' s (ops.map f) s' := by
  induction h with
  | nil => exact .nil
  | snoc _ hs ih =>
    rw [List.map_append]
    exact .snoc ih (hf _ _ _ hs)

theorem Run.single {op : O} (h : step s op s') : Run step s [op] s' := .snoc .nil h

/-- A run that is computed. -/
theorem Run.of_foldlM {f : S → O → Option S} (hf : ∀ s1 op s2, f s1 op = some s2 → step s1 op s2)
    (h : ops.foldlM f s = some s') : Run step s ops s' := by
  induction ops generalizing s with
  | nil =>
    cases h
    exact .nil
  | cons op ops ih =>
    obtain ⟨s1, h1, hrs⟩ := Option.bind_eq_some_iff.1 h
    exact (Run.single (hf _ _ _ h1)).append (ih hrs)

/-- A call whose result is known returns it with some state. -/
theorem exists_of_map_fst {α β : Type} {o : Option (α × β)} {a : α} (h : o.map Prod.fst = some a) :
    ∃ b, o = some (a, b) := by
  obtain ⟨⟨_, b⟩, ho, rfl⟩ := Option.map_eq_some_iff.1 h
  exact ⟨b, ho⟩

end Lib
