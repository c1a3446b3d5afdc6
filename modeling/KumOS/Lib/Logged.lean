import Mathlib.Data.List.Basic

/-!
# Computations that record events

A computation records what it does, one event after the other, and may stop in the middle
(`none`); the events up to there are kept.  `Spec` says what holds of every event and of the
result, and has a rule for each way to build a computation.
-/

namespace Lib

/-- The events, and the result if the computation has come to its end. -/
structure Logged (ε α : Type) where
  events : List ε
  result : Option α

namespace Logged

variable {ε α β : Type} {a : α} {e : ε} {es : List ε} {x : Logged ε α} {f : α → Logged ε β}
variable {P : ε → Prop} {Q : α → Prop} {R : β → Prop}

def pure (a : α) : Logged ε α := ⟨[], some a⟩

/-- The machine stops. -/
def stop : Logged ε α := ⟨[], none⟩

/-- `es` is recorded before what `x` records. -/
def after (es : List ε) (x : Logged ε α) : Logged ε α := ⟨es ++ x.events, x.result⟩

def bind (x : Logged ε α) (f : α → Logged ε β) : Logged ε β :=
  match x.result with
  | none => ⟨x.events, none⟩
  | some a => ⟨x.events ++ (f a).events, (f a).result⟩

@[simp] theorem result_pure : (pure a : Logged ε α).result = some a := rfl

@[simp] theorem result_after : (after es x).result = x.result := rfl

@[simp] theorem result_bind : (x.bind f).result = x.result.bind fun a => (f a).result := by
  unfold bind
  cases x.result with
  | none => rfl
  | some a => rfl

theorem mem_after : e ∈ (after es x).events ↔ e ∈ es ∨ e ∈ x.events := List.mem_append

theorem mem_bind : e ∈ (x.bind f).events ↔ e ∈ x.events ∨ ∃ a, x.result = some a ∧ e ∈ (f a).events := by
  unfold bind
  cases x.result with
  | none => simp
  | some a => simp

theorem events_bind (ha : x.result = some a) : (x.bind f).events = x.events ++ (f a).events := by
  unfold bind
  rw [ha]

/-- All events satisfy `P`, and the result `Q`. -/
structure Spec (x : Logged ε α) (P : ε → Prop) (Q : α → Prop) : Prop where
  events : ∀ e ∈ x.events, P e
  result : ∀ a, x.result = some a → Q a

theorem Spec.mono {P' : ε → Prop} {Q' : α → Prop} (h : Spec x P Q) (hP : ∀ e, P e → P' e) (hQ : ∀ a, Q a → Q' a) :
    Spec x P' Q' where
  events := fun e he => hP e (h.events e he)
  result := fun a ha => hQ a (h.result a ha)

theorem Spec.pure (h : Q a) : Spec (pure a) P Q where
  events := fun _ he => absurd he List.not_mem_nil
  result := fun _ ha => by
    cases ha
    exact h

theorem Spec.stop : Spec (stop : Logged ε α) P Q where
  events := fun _ he => absurd he List.not_mem_nil
  result := fun _ ha => by cases ha

theorem Spec.after (hes : ∀ e ∈ es, P e) (h : Spec x P Q) : Spec (after es x) P Q where
  events := fun e he => (mem_after.1 he).elim (hes e) (h.events e)
  result := h.result

theorem Spec.bind (h : Spec x P Q) (hf : ∀ a, x.result = some a → Q a → Spec (f a) P R) : Spec (x.bind f) P R where
  events := by
    intro e he
    rcases mem_bind.1 he with he | ⟨a, ha, he⟩
    · exact h.events e he
    · exact (hf a ha (h.result a ha)).events e he
  result := by
    intro b hb
    rw [result_bind] at hb
    obtain ⟨a, ha, hb⟩ := Option.bind_eq_some_iff.1 hb
    exact (hf a ha (h.result a ha)).result b hb

end Logged

end Lib
