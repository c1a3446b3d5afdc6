import KumOS.Lib.Run
import KumOS.Pipes.Slices

/-!
# Tasks inside `pipe_write` and `pipe_read`

Any number of tasks call the functions of `pipe.c`; the processor changes hands
only in `sched_yield`, so a run is a sequence of whole slices.  Beside the table
and the calls that are blocked, the state records the history the results speak
about: how often a pipe was created in each slot, what has been stored into and
taken out of the pipe of each slot since then, and what each task has moved in
its present call.
-/

namespace KumOS.Pipes

open Lib
open Function (update update_self update_of_ne)

variable {i inst k len t u : Nat} {out : Outcome}
variable {id : Int}

/-- The locals of a call that has yielded.  `inst` tells which pipe of slot `i` the call was made on;
the code does not know it. -/
inductive Call (α : Type) where
  | write (i inst : Nat) (src : List α) (written : Nat)
  | read (i inst len nread : Nat)

def Call.slot {α : Type} : Call α → Nat
  | .write i _ _ _ => i
  | .read i _ _ _ => i

structure Sys (α : Type) where
  pipes : Table α
  /-- the call each task is blocked in -/
  calls : Nat → Option (Call α)
  /-- how many pipes have been created in each slot -/
  inst : Nat → Nat
  /-- what has been stored into the pipe of each slot -/
  putIn : Nat → List α
  /-- what has been taken out of the pipe of each slot -/
  takenOut : Nat → List α
  /-- what each task has stored or taken out in its present or last call -/
  moved : Nat → List α

variable {α : Type}
variable {s' : Sys α} {c : Call α}
variable {s : Sys α} {src : List α} {p : Pipe α}

/-- The state after `pipe_init`. -/
def Sys.init [Inhabited α] : Sys α where
  pipes := pipeInit
  calls := fun _ => none
  inst := fun _ => 0
  putIn := fun _ => []
  takenOut := fun _ => []
  moved := fun _ => []

/-- What a call returns at the end of a slice, if it does. -/
def Outcome.value : Outcome → Option Int
  | .ret n => some n
  | .yield _ => none

/-- The call a task is blocked in after a slice. -/
def Outcome.blocked (call : Nat → Call α) : Outcome → Option (Call α)
  | .ret _ => none
  | .yield count => some (call count)

/-- The state after a slice of `pipe_write` by task `t` in slot `i`. -/
def Sys.stored (s : Sys α) (t i : Nat) (stored : List α) (p : Pipe α) (call : Option (Call α)) :
    Sys α :=
  { s with
    pipes := update s.pipes i p
    calls := update s.calls t call
    putIn := update s.putIn i (s.putIn i ++ stored)
    moved := update s.moved t (s.moved t ++ stored) }

/-- The state after a slice of `pipe_read` by task `t` in slot `i`. -/
def Sys.taken (s : Sys α) (t i : Nat) (taken : List α) (p : Pipe α) (call : Option (Call α)) :
    Sys α :=
  { s with
    pipes := update s.pipes i p
    calls := update s.calls t call
    takenOut := update s.takenOut i (s.takenOut i ++ taken)
    moved := update s.moved t (s.moved t ++ taken) }

section

variable (s : Sys α) (t i : Nat) (bytes : List α) (p : Pipe α) (call : Option (Call α))

@[simp] theorem stored_pipe : (s.stored t i bytes p call).pipes i = p := update_self ..

@[simp] theorem stored_call : (s.stored t i bytes p call).calls t = call := update_self ..

theorem stored_call_ne (h : u ≠ t) : (s.stored t i bytes p call).calls u = s.calls u :=
  update_of_ne h ..

@[simp] theorem taken_call : (s.taken t i bytes p call).calls t = call := update_self ..

@[simp] theorem taken_moved : (s.taken t i bytes p call).moved t = s.moved t ++ bytes :=
  update_self ..

end

/-- Task `t` goes on with a `pipe_write`. -/
def Sys.runWrite (s : Sys α) (t i inst : Nat) (src : List α) (written : Nat) : Option Int × Sys α :=
  let (out, stored, p) := writeSlice (src.drop written) written (s.pipes i)
  (out.value, s.stored t i stored p (out.blocked (.write i inst src)))

/-- Task `t` goes on with a `pipe_read`. -/
def Sys.runRead (s : Sys α) (t i inst len nread : Nat) : Option Int × Sys α :=
  let (out, taken, p) := readSlice (len - nread) nread (s.pipes i)
  (out.value, s.taken t i taken p (out.blocked (.read i inst len)))

theorem runWrite_eq {stored : List α} (hrun : writeSlice (src.drop k) k (s.pipes i) = (out, stored, p)) :
    s.runWrite t i inst src k = (out.value, s.stored t i stored p (out.blocked (.write i inst src))) := by
  rw [Sys.runWrite, hrun]

theorem runRead_eq {taken : List α} (hrun : readSlice (len - k) k (s.pipes i) = (out, taken, p)) :
    s.runRead t i inst len k = (out.value, s.taken t i taken p (out.blocked (.read i inst len))) := by
  rw [Sys.runRead, hrun]

def Sys.run (s : Sys α) (t : Nat) : Call α → Option Int × Sys α
  | .write i inst src written => s.runWrite t i inst src written
  | .read i inst len nread => s.runRead t i inst len nread

def Sys.create [Inhabited α] (s : Sys α) : Option Int × Sys α :=
  match freeSlot s.pipes with
  | none => (some (-1), s)
  | some i =>
    (some i, { s with
      pipes := (pipeCreate s.pipes).2
      inst := update s.inst i (s.inst i + 1)
      putIn := update s.putIn i []
      takenOut := update s.takenOut i [] })

inductive Op (α : Type) where
  | create
  | closeRead (id : Int)
  | closeWrite (id : Int)
  | write (t : Nat) (id : Int) (src : List α)
  | read (t : Nat) (id : Int) (len : Nat)
  | resume (t : Nat)

variable {op : Op α}

/-- The call that runs in a step: one that passes its entry checks, or one that yielded before. -/
def Sys.running (s : Sys α) : Op α → Option (Nat × Call α)
  | .write t id src =>
    match pipeGet s.pipes id with
    | none => none
    | some i => if (s.pipes i).readers = 0 then none else some (t, .write i (s.inst i) src 0)
  | .read t id len => (pipeGet s.pipes id).map fun i => (t, .read i (s.inst i) len 0)
  | .resume t => (s.calls t).map (t, ·)
  | _ => none

/-- A new call of task `t` has moved nothing yet. -/
def Sys.begin (s : Sys α) (t : Nat) : Sys α := { s with moved := update s.moved t [] }

/-- The first slice of a call of task `t`, or the -1 of a call that fails its entry checks. -/
def Sys.start (s : Sys α) (t : Nat) (call : Option (Nat × Call α)) : Option Int × Sys α :=
  match call with
  | none => (some (-1), s)
  | some (_, c) => (s.begin t).run t c

/-- One step; `none` for a step that cannot be made.  A task makes no other call while it is inside
one, and lengths are `uint32_t` values. -/
def step [Inhabited α] (s : Sys α) (op : Op α) : Option (Option Int × Sys α) :=
  match op with
  | .create => some s.create
  | .closeRead id => some (none, { s with pipes := pipeCloseRead s.pipes id })
  | .closeWrite id => some (none, { s with pipes := pipeCloseWrite s.pipes id })
  | .write t _ src =>
    if (s.calls t).isNone ∧ src.length < 2 ^ 32 then some (s.start t (s.running op)) else none
  | .read t _ len =>
    if (s.calls t).isNone ∧ len < 2 ^ 32 then some (s.start t (s.running op)) else none
  | .resume t => (s.calls t).map fun c => s.run t c

def Step [Inhabited α] (s : Sys α) (op : Op α) (s' : Sys α) : Prop := ∃ r, step s op = some (r, s')

theorem Step.of_eq [Inhabited α] {r : Option Int × Sys α} (h : step s op = some r) : Step s op r.2 := ⟨r.1, h⟩

theorem pipeGet_eq {ps : Table α} (h : pipeGet ps id = some i) : i = id.toNat := by
  unfold pipeGet at h
  split at h
  · cases h
  · exact (Option.some.inj h).symm

/-- The call that runs was blocked, or it begins. -/
theorem running_cases (h : s.running op = some (t, c)) : (op = .resume t ∧ s.calls t = some c) ∨
    (∃ id src, op = .write t id src ∧ c = .write id.toNat (s.inst id.toNat) src 0) ∨
    ∃ id len, op = .read t id len ∧ c = .read id.toNat (s.inst id.toNat) len 0 := by
  cases op with
  | write u id src =>
    unfold Sys.running at h
    cases hget : pipeGet s.pipes id with
    | none => simp [hget] at h
    | some i =>
      obtain rfl := pipeGet_eq hget
      simp only [hget] at h
      split at h
      · cases h
      · cases h
        exact .inr (.inl ⟨id, src, rfl, rfl⟩)
  | read u id len =>
    obtain ⟨i, hget, heq⟩ := Option.map_eq_some_iff.1 h
    obtain rfl := pipeGet_eq hget
    cases heq
    exact .inr (.inr ⟨id, len, rfl, rfl⟩)
  | resume u =>
    obtain ⟨d, hca, heq⟩ := Option.map_eq_some_iff.1 h
    cases heq
    exact .inl ⟨rfl, hca⟩
  | _ => cases h

/-- What a step can do. -/
inductive Effect [Inhabited α] (s : Sys α) (op : Op α) : Option Int → Sys α → Prop
  | fail {r : Option Int} : s.running op = none → Effect s op r s
  | create {r : Option Int} {i : Nat} : op = .create → freeSlot s.pipes = some i → Effect s op r { s with
      pipes := update s.pipes i fresh
      inst := update s.inst i (s.inst i + 1)
      putIn := update s.putIn i []
      takenOut := update s.takenOut i [] }
  | close {r : Option Int} {i : Nat} {p : Pipe α} : s.running op = none → (RingOk (s.pipes i) → RingOk p) →
      unread p = unread (s.pipes i) → Effect s op r { s with pipes := update s.pipes i p }
  | run {t : Nat} {c : Call α} {r : Option Int} {s0 s' : Sys α} : s.running op = some (t, c) →
      (s0 = s ∧ s.calls t = some c ∨ s0 = s.begin t ∧ s.calls t = none) → s0.run t c = (r, s') → Effect s op r s'

theorem step_effect [Inhabited α] {r : Option Int} (h : step s op = some (r, s')) : Effect s op r s' := by
  have hstart : ∀ t, (s.calls t).isNone → ((∃ id src, op = .write t id src) ∨ ∃ id len, op = .read t id len) →
      s.start t (s.running op) = (r, s') → Effect s op r s' := by
    intro t hid hop hsr
    cases hrun : s.running op with
    | none =>
      rw [hrun] at hsr
      cases hsr
      exact .fail hrun
    | some uc =>
      obtain rfl : uc.1 = t := by
        rcases running_cases hrun with ⟨rfl, -⟩ | ⟨_, _, rfl, -⟩ | ⟨_, _, rfl, -⟩ <;>
          rcases hop with ⟨_, _, heq⟩ | ⟨_, _, heq⟩ <;> cases heq <;> rfl
      rw [hrun] at hsr
      exact .run hrun (.inr ⟨rfl, Option.isNone_iff_eq_none.1 hid⟩) hsr
  cases op with
  | create =>
    simp only [step, Sys.create, pipeCreate] at h
    cases hsl : freeSlot s.pipes with
    | none =>
      simp only [hsl] at h
      cases h
      exact .fail rfl
    | some i =>
      simp only [hsl] at h
      cases h
      exact .create rfl hsl
  | closeRead id =>
    cases h
    unfold pipeCloseRead
    split
    · exact .fail rfl
    · exact .close rfl RingOk.closeRead (unread_closeRead _)
  | closeWrite id =>
    cases h
    unfold pipeCloseWrite
    split
    · exact .fail rfl
    · exact .close rfl RingOk.closeWrite (unread_closeWrite _)
  | write t id src =>
    simp only [step] at h
    split at h
    · rename_i hguard
      exact hstart t hguard.1 (.inl ⟨id, src, rfl⟩) (Option.some.inj h)
    · cases h
  | read t id len =>
    simp only [step] at h
    split at h
    · rename_i hguard
      exact hstart t hguard.1 (.inr ⟨id, len, rfl⟩) (Option.some.inj h)
    · cases h
  | resume t =>
    obtain ⟨c, hca, hrun⟩ := Option.map_eq_some_iff.1 h
    refine .run ?_ (.inl ⟨rfl, hca⟩) hrun
    show (s.calls t).map _ = _
    rw [hca]
    rfl

/-! ## The invariant of a run -/

/-- What a task has moved so far in a call. -/
def CallOk (moved : List α) : Call α → Prop
  | .write _ _ src written => moved.length = written ∧ moved <+: src
  | .read _ _ len nread => moved.length = nread ∧ nread ≤ len

structure Fifo (s : Sys α) : Prop where
  ring : ∀ i, RingOk (s.pipes i)
  /-- the bytes taken out and then the unread ones are those put in -/
  bytes : ∀ i, s.takenOut i ++ unread (s.pipes i) = s.putIn i
  calls : ∀ t c, s.calls t = some c → CallOk (s.moved t) c

theorem Fifo.init [Inhabited α] : Fifo (Sys.init : Sys α) where
  ring := fun _ => ringOk_cleared
  bytes := by
    intro i
    show [] ++ unread (cleared : Pipe α) = []
    rw [unread_cleared]
    rfl
  calls := fun _ _ h => by cases h

/-- Only task `t` has moved bytes or is in another call. -/
theorem slice_calls {C : List α → Call α → Prop} (h : ∀ t c, s.calls t = some c → C (s.moved t) c)
    (htasks : ∀ u, u ≠ t → s'.moved u = s.moved u ∧ s'.calls u = s.calls u)
    (hca : ∀ c, s'.calls t = some c → C (s'.moved t) c) (u : Nat) (c : Call α) (hc : s'.calls u = some c) :
    C (s'.moved u) c := by
  by_cases hu : u = t
  · rw [hu] at hc ⊢
    exact hca c hc
  · rw [(htasks u hu).1]
    exact h u c ((htasks u hu).2.symm.trans hc)

/-- A slice of task `t` touches slot `i` only. -/
theorem Fifo.slice (h : Fifo s) (hpipes : s'.pipes = update s.pipes i p) (hring : RingOk p)
    (hsl : s'.takenOut i ++ unread p = s'.putIn i)
    (hot : ∀ j, j ≠ i → s'.takenOut j = s.takenOut j ∧ s'.putIn j = s.putIn j)
    (htasks : ∀ u, u ≠ t → s'.moved u = s.moved u ∧ s'.calls u = s.calls u)
    (hca : ∀ c, s'.calls t = some c → CallOk (s'.moved t) c) : Fifo s' where
  ring := by
    intro j
    rw [hpipes]
    by_cases hj : j = i
    · rw [hj, update_self]
      exact hring
    · rw [update_of_ne hj]
      exact h.ring j
  bytes := by
    intro j
    rw [hpipes]
    by_cases hj : j = i
    · rw [hj, update_self]
      exact hsl
    · rw [update_of_ne hj, (hot j hj).1, (hot j hj).2]
      exact h.bytes j
  calls := slice_calls h.calls htasks hca

/-- A call of task `t` has returned `n`: the number of bytes it moved, and these are all it was to
move unless the ring was full with no reader left, or empty with no writer left. -/
def Returned (s : Sys α) (t : Nat) (n : Int) : Call α → Prop
  | .write i _ src _ =>
    n = i32 (s.moved t).length ∧ s.moved t <+: src ∧
      ((s.moved t).length < src.length → pipeFree (s.pipes i) = 0 ∧ (s.pipes i).readers = 0)
  | .read i _ len _ =>
    n = i32 (s.moved t).length ∧ (s.moved t).length ≤ len ∧
      ((s.moved t).length < len → (s.pipes i).head = (s.pipes i).tail ∧ (s.pipes i).writers = 0)

section

variable (h : Fifo s)
include h

theorem runWrite_spec {written : Nat} (hc : CallOk (s.moved t) (.write i inst src written)) :
    ∃ r s', s.runWrite t i inst src written = (r, s') ∧ Fifo s' ∧
      ∀ n, r = some n → Returned s' t n (.write i inst src written) := by
  obtain ⟨hct, hpre⟩ := hc
  obtain ⟨out, stored, p, hrun, hok, -, hun, hstored, hout⟩ :=
    writeSlice_spec (h.ring i) (src.drop written) written
  have hsplit : src = s.moved t ++ src.drop written := by
    rw [← hct]
    exact (List.prefix_iff_eq_append.1 hpre).symm
  have hall : s.moved t ++ stored <+: src := by
    rw [hsplit]
    exact (List.prefix_append_right_inj _).2 hstored
  have hlen : written + stored.length = (s.moved t ++ stored).length := by
    rw [List.length_append, hct]
  rw [hlen] at hout
  refine ⟨out.value, _, runWrite_eq hrun, ?_, fun n hn => ?_⟩
  · refine h.slice rfl hok ?_ (fun j hj => ⟨rfl, update_of_ne hj _ _⟩)
      (fun u hu => ⟨update_of_ne hu _ _, update_of_ne hu _ _⟩) fun c hc => ?_
    · show s.takenOut i ++ unread p = update s.putIn i (s.putIn i ++ stored) i
      rw [update_self, hun, ← List.append_assoc, h.bytes i]
    · change update s.calls t (out.blocked (.write i inst src)) t = some c at hc
      rw [update_self] at hc
      show CallOk (update s.moved t (s.moved t ++ stored) t) c
      rw [update_self]
      rcases hout with ⟨rfl, -⟩ | ⟨rfl, -⟩
      · cases hc
      · cases hc
        exact ⟨rfl, hall⟩
  · show n = i32 (update s.moved t (s.moved t ++ stored) t).length ∧
      update s.moved t (s.moved t ++ stored) t <+: src ∧
      ((update s.moved t (s.moved t ++ stored) t).length < src.length →
        pipeFree (update s.pipes i p i) = 0 ∧ (update s.pipes i p i).readers = 0)
    rw [update_self, update_self]
    rcases hout with ⟨rfl, hend⟩ | ⟨rfl, -⟩
    · cases hn
      refine ⟨rfl, hall, fun hlt => ?_⟩
      rcases hend with heq | hstop
      · rw [heq, ← hsplit] at hlt
        exact absurd hlt (Nat.lt_irrefl _)
      · exact hstop
    · cases hn

theorem runRead_spec {nread : Nat} (hc : CallOk (s.moved t) (.read i inst len nread)) :
    ∃ r s', s.runRead t i inst len nread = (r, s') ∧ Fifo s' ∧
      ∀ n, r = some n → Returned s' t n (.read i inst len nread) := by
  obtain ⟨hct, hle⟩ := hc
  obtain ⟨out, taken, p, hrun, hok, -, hun, htaken, hout⟩ :=
    readSlice_spec (h.ring i) (len - nread) nread
  have hlen : nread + taken.length = (s.moved t ++ taken).length := by
    rw [List.length_append, hct]
  have hall : (s.moved t ++ taken).length ≤ len := by omega
  rw [hlen] at hout
  refine ⟨out.value, _, runRead_eq hrun, ?_, fun n hn => ?_⟩
  · refine h.slice rfl hok ?_ (fun j hj => ⟨update_of_ne hj _ _, rfl⟩)
      (fun u hu => ⟨update_of_ne hu _ _, update_of_ne hu _ _⟩) fun c hc => ?_
    · show update s.takenOut i (s.takenOut i ++ taken) i ++ unread p = s.putIn i
      rw [update_self, List.append_assoc, ← hun, h.bytes i]
    · change update s.calls t (out.blocked (.read i inst len)) t = some c at hc
      rw [update_self] at hc
      show CallOk (update s.moved t (s.moved t ++ taken) t) c
      rw [update_self]
      rcases hout with ⟨rfl, -⟩ | ⟨rfl, -⟩
      · cases hc
      · cases hc
        exact ⟨rfl, hall⟩
  · show n = i32 (update s.moved t (s.moved t ++ taken) t).length ∧
      (update s.moved t (s.moved t ++ taken) t).length ≤ len ∧
      ((update s.moved t (s.moved t ++ taken) t).length < len →
        (update s.pipes i p i).head = (update s.pipes i p i).tail ∧
          (update s.pipes i p i).writers = 0)
    rw [update_self, update_self]
    rcases hout with ⟨rfl, hend⟩ | ⟨rfl, -⟩
    · cases hn
      refine ⟨rfl, hall, fun hlt => ?_⟩
      rcases hend with heq | hstop
      · omega
      · exact hstop
    · cases hn

theorem run_spec (hc : CallOk (s.moved t) c) :
    ∃ r s', s.run t c = (r, s') ∧ Fifo s' ∧ ∀ n, r = some n → Returned s' t n c := by
  cases c with
  | write i inst src written => exact runWrite_spec h hc
  | read i inst len nread => exact runRead_spec h hc

/-! ## Steps -/

theorem Fifo.begin (hid : s.calls t = none) : Fifo (s.begin t) := by
  refine ⟨h.ring, h.bytes, slice_calls h.calls (fun u hu => ⟨update_of_ne hu _ _, rfl⟩) fun c hc => ?_⟩
  change s.calls t = some c at hc
  rw [hid] at hc
  cases hc

/-- One step keeps the invariant, and a call that returns has moved what it says. -/
theorem step_spec [Inhabited α] {r : Option Int} (hsp : step s op = some (r, s')) :
    Fifo s' ∧ ∀ t c n, s.running op = some (t, c) → r = some n → Returned s' t n c := by
  cases step_effect hsp with
  | fail hno =>
    refine ⟨h, fun t c n hc => ?_⟩
    rw [hno] at hc
    cases hc
  | create hop hsl =>
    refine ⟨h.slice rfl ringOk_fresh ?_ (fun j hj => ⟨update_of_ne hj _ _, update_of_ne hj _ _⟩)
      (fun u _ => ⟨rfl, rfl⟩) (h.calls 0), fun t c n hc => ?_⟩
    · simp only [update_self, unread_fresh]
      rfl
    · rw [hop] at hc
      cases hc
  | @close _ i p hno hok hun =>
    refine ⟨h.slice rfl (hok (h.ring i)) ?_ (fun j _ => ⟨rfl, rfl⟩) (fun u _ => ⟨rfl, rfl⟩)
      (h.calls 0), fun t c n hc => ?_⟩
    · rw [hun]
      exact h.bytes i
    · rw [hno] at hc
      cases hc
  | @run t c _ s0 _ hc hs0 hrun =>
    have hok : Fifo s0 ∧ CallOk (s0.moved t) c := by
      rcases hs0 with ⟨rfl, hca⟩ | ⟨rfl, hid⟩
      · exact ⟨h, h.calls t c hca⟩
      refine ⟨h.begin hid, ?_⟩
      show CallOk (update s.moved t [] t) c
      rw [update_self]
      rcases running_cases hc with ⟨-, hca⟩ | ⟨id, src, -, rfl⟩ | ⟨id, len, -, rfl⟩
      · rw [hid] at hca
        cases hca
      · exact ⟨rfl, List.nil_prefix⟩
      · exact ⟨rfl, Nat.zero_le _⟩
    obtain ⟨r', s1, hrun1, hF, hret⟩ := run_spec hok.1 hok.2
    rw [hrun] at hrun1
    cases hrun1
    refine ⟨hF, fun u d n hd hn => ?_⟩
    rw [hc] at hd
    cases hd
    exact hret n hn

end

theorem run_fifo [Inhabited α] {ops : List (Op α)} (hrun : Run Step Sys.init ops s) : Fifo s := by
  refine Run.invariant Fifo .init ?_ hrun
  rintro s1 op s2 h ⟨r, hsp⟩
  exact (step_spec h hsp).1

/-- **Pipes are lossless queues.**  In every state the tasks can reach, the indices of a pipe are in
range, at most 4095 bytes are unread, and what has been taken out of the pipe followed by what is
unread is what has been put in.  A call that returns gives the number of bytes it moved, read as an
`int`; it moved less than it was to only if the ring was full with no reader left, or empty with no
writer left. -/
theorem pipes_lossless [Inhabited α] {ops : List (Op α)} {s : Sys α} (hrun : Run Step Sys.init ops s) :
    (∀ i, (s.pipes i).head < 4096 ∧ (s.pipes i).tail < 4096 ∧ (unread (s.pipes i)).length ≤ 4095 ∧
      s.takenOut i ++ unread (s.pipes i) = s.putIn i) ∧
    ∀ op n s' t c, step s op = some (some n, s') → s.running op = some (t, c) → Returned s' t n c := by
  have h := run_fifo hrun
  refine ⟨fun i => ?_, fun op n s' t c hsp hc => (step_spec h hsp).2 t c n hc rfl⟩
  exact ⟨(h.ring i).head, (h.ring i).tail, (h.ring i).length_le, h.bytes i⟩

theorem step_write [Inhabited α] (hid : (s.calls t).isNone) (hlen : src.length < 2 ^ 32) :
    step s (.write t id src) = some (s.start t (s.running (.write t id src))) :=
  if_pos ⟨hid, hlen⟩

theorem step_read [Inhabited α] (hid : (s.calls t).isNone) (hlen : len < 2 ^ 32) :
    step s (.read t id len) = some (s.start t (s.running (.read t id len))) :=
  if_pos ⟨hid, hlen⟩

/-- One pipe, in slot 0. -/
def onePipe [Inhabited α] : Sys α := Sys.init.create.2

theorem run_onePipe [Inhabited α] : Run Step Sys.init [.create] (onePipe : Sys α) :=
  .single ⟨some 0, rfl⟩

/-- The same after task 0 has written three bytes. -/
def threeBytes : Sys UInt8 := (onePipe.start 0 (onePipe.running (.write 0 0 [1, 2, 3]))).2

theorem run_threeBytes : Run Step Sys.init [.create, .write 0 0 [1, 2, 3]] threeBytes :=
  .snoc run_onePipe (.of_eq (step_write rfl (by decide)))

set_option maxRecDepth 4000 in
theorem pipes_lossless_three_bytes : ∃ s s' : Sys UInt8,
    Run Step Sys.init [.create, .write 0 0 [1, 2, 3]] s ∧ step s (.read 1 0 2) = some (some 2, s') ∧
    s'.moved 1 = [1, 2] ∧ Returned s' 1 2 (.read 0 1 2 0) := by
  have hrd : step threeBytes (.read 1 0 2) =
      some (some 2, (threeBytes.start 1 (threeBytes.running (.read 1 0 2))).2) :=
    step_read rfl (by decide)
  exact ⟨_, _, run_threeBytes, hrd, by decide,
    (pipes_lossless run_threeBytes).2 _ _ _ _ _ hrd rfl⟩

/-! ## A call for very many bytes -/

/-- Task 0 is blocked in a write of `src` to pipe 0 after `k` bytes, `n` of them unread, and task 1 is in no call. -/
structure Pumped [Inhabited α] (s : Sys α) (src : List α) (k n : Nat) : Prop where
  fifo : Fifo s
  writer : s.calls 0 = some (.write 0 1 src k)
  idle : s.calls 1 = none
  waiting : (unread (s.pipes 0)).length = n
  ends : SameEnds fresh (s.pipes 0)
  more : k < src.length

/-- A slice of the write on an empty pipe fills it. -/
theorem runWrite_full [Inhabited α] (hring : RingOk (s.pipes 0)) (hem : (unread (s.pipes 0)).length = 0)
    (hen : SameEnds fresh (s.pipes 0)) (hid : s.calls 1 = none) (hmore : k + 4095 < src.length) :
    ∃ s', s.runWrite 0 0 1 src k = (none, s') ∧ (Fifo s' → Pumped s' src (k + 4095) 4095) := by
  obtain ⟨out, stored, p, hrun, hok, hen', hun, -, hout⟩ := writeSlice_spec hring (src.drop k) k
  rw [List.length_eq_zero_iff.1 hem, List.nil_append] at hun
  have hfu : stored.length = 4095 ∧ out = .yield (k + 4095) := by
    have hle := hok.length_le
    rw [hun] at hle
    rcases hout with ⟨-, heq | ⟨-, hnn⟩⟩ | ⟨hyield, -, hfu, -⟩
    · have := congrArg List.length heq
      rw [List.length_drop] at this
      omega
    · rw [hen'.readers, hen.readers] at hnn
      cases hnn
    · rw [hok.free_eq_zero_iff, hun] at hfu
      exact ⟨hfu, hfu ▸ hyield⟩
  obtain ⟨hlen, rfl⟩ := hfu
  refine ⟨_, runWrite_eq hrun, fun hF => ⟨hF, stored_call .., ?_, ?_, ?_, hmore⟩⟩
  · exact (stored_call_ne _ _ _ _ _ _ (by decide)).trans hid
  · rw [stored_pipe, hun, hlen]
  · exact ⟨hen'.writers.trans hen.writers, hen'.readers.trans hen.readers, hen'.used.trans hen.used⟩

section

variable [Inhabited α]

theorem Pumped.step_resume {n : Nat} (h : Pumped s src k n) : step s (.resume 0) = some (s.runWrite 0 0 1 src k) := by
  simp only [step, h.writer, Option.map_some, Sys.run]

theorem Pumped.last (h : Pumped s src k 0) (hla : src.length ≤ k + 4095) :
    ∃ s', step s (.resume 0) = some (some (i32 src.length), s') ∧ s'.moved 0 = src := by
  have hmore := h.more
  obtain ⟨hct, hpre⟩ := h.fifo.calls 0 _ h.writer
  have hlen : (src.drop k).length = src.length - k := List.length_drop
  have hfit : (unread (s.pipes 0)).length + (src.drop k).length ≤ 4095 := by rw [h.waiting]; omega
  obtain ⟨p, hrun, -⟩ := writeSlice_fits (h.fifo.ring 0) k hfit
  rw [hlen, show k + (src.length - k) = src.length by omega] at hrun
  refine ⟨_, h.step_resume.trans (congrArg some (runWrite_eq hrun)), ?_⟩
  show update s.moved 0 (s.moved 0 ++ src.drop k) 0 = src
  rw [update_self, ← hct]
  exact List.prefix_iff_eq_append.1 hpre

/-- Task 1 reads all that is unread. -/
theorem Pumped.drain (h : Pumped s src k 4095) : ∃ s', Step s (.read 1 0 4095) s' ∧ Pumped s' src k 0 := by
  obtain ⟨out, taken, p, hrun, hok, hen, hun, -, hout⟩ := readSlice_spec (h.fifo.ring 0) 4095 0
  have hlen : taken.length + (unread p).length = 4095 := by rw [← List.length_append, ← hun, h.waiting]
  have hall : (unread p).length = 0 ∧ out.blocked (Call.read (α := α) 0 (s.inst 0) 4095) = none := by
    rcases hout with ⟨rfl, heq | ⟨-, hnn⟩⟩ | ⟨-, hlt, hem, -⟩
    · exact ⟨by omega, rfl⟩
    · rw [hen.writers, h.ends.writers] at hnn
      cases hnn
    · rw [hok.empty_iff.1 hem, List.length_nil] at hlen
      omega
  have hget : pipeGet s.pipes 0 = some 0 := by
    refine if_neg ?_
    rintro (h0 | h0 | h0)
    · omega
    · omega
    · cases h.ends.used.symm.trans h0
  have hsp : step s (.read 1 0 4095) = some ((s.begin 1).runRead 1 0 (s.inst 0) 4095 0) := by
    rw [step_read (by rw [h.idle]; rfl) (by decide)]
    simp only [Sys.running, hget, Option.map_some]
    rfl
  rw [runRead_eq hrun, hall.2] at hsp
  refine ⟨_, .of_eq hsp, (step_spec h.fifo hsp).1, ?_, taken_call .., ?_, ?_, h.more⟩
  · exact h.writer
  · exact hall.1
  · exact ⟨hen.writers.trans h.ends.writers, hen.readers.trans h.ends.readers, hen.used.trans h.ends.used⟩

theorem Pumped.round (h : Pumped s src k 0) (hmore : k + 4095 < src.length) :
    ∃ s', Run Step s [.resume 0, .read 1 0 4095] s' ∧ Pumped s' src (k + 4095) 0 := by
  obtain ⟨s1, hrun, h1⟩ := runWrite_full (h.fifo.ring 0) h.waiting h.ends h.idle hmore
  have hsp := h.step_resume
  rw [hrun] at hsp
  obtain ⟨s2, hsp2, h2⟩ := (h1 (step_spec h.fifo hsp).1).drain
  exact ⟨s2, .snoc (.single (.of_eq hsp)) hsp2, h2⟩

/-- Slice by slice, all of `src` goes through the pipe. -/
theorem Pumped.all (n : Nat) (h : Pumped s src k 0) (hn : src.length ≤ k + n) :
    ∃ ops s1 s2 c, Run Step s ops s1 ∧ s1.running (.resume 0) = some (0, c) ∧
      step s1 (.resume 0) = some (some (i32 src.length), s2) ∧ s2.moved 0 = src := by
  induction n using Nat.strongRecOn generalizing s k with
  | ind n ih =>
    by_cases hla : src.length ≤ k + 4095
    · obtain ⟨s2, hsp, hmoved⟩ := h.last hla
      refine ⟨[], s, s2, .write 0 1 src k, .nil, ?_, hsp, hmoved⟩
      rw [Sys.running, h.writer, Option.map_some]
    · obtain ⟨s', hro, h'⟩ := h.round (by omega)
      obtain ⟨ops, s1, s2, c, hrun, hc, hsp, hmoved⟩ := ih (n - 4095) (by omega) h' (by omega)
      exact ⟨_, s1, s2, c, hro.append hrun, hc, hsp, hmoved⟩

/-- A write of more than 4095 bytes begins. -/
theorem pumped_start (hmore : 4095 < src.length) (hlen : src.length < 2 ^ 32) :
    ∃ s, Run Step Sys.init [.create, .write 0 0 src, .read 1 0 4095] s ∧ Pumped s src 4095 0 := by
  obtain ⟨s1, hrun, h1⟩ := runWrite_full (s := (onePipe : Sys α).begin 0) ringOk_fresh
    (congrArg List.length unread_fresh) (.refl fresh) rfl (show 0 + 4095 < src.length by omega)
  have hsp : step (onePipe : Sys α) (.write 0 0 src) = some (none, s1) :=
    (step_write rfl hlen).trans (congrArg some hrun)
  obtain ⟨s2, hsp2, h2⟩ := (h1 (step_spec (run_fifo run_onePipe) hsp).1).drain
  exact ⟨s2, .snoc (.snoc run_onePipe (.of_eq hsp)) hsp2, h2⟩

end

/-- The result of `pipe_write` is an `int`: for 2³¹ bytes it is not the number of bytes stored. -/
theorem long_write_returns_negative : ∃ (ops : List (Op UInt8)) (s s' : Sys UInt8) (c : Call UInt8),
    Run Step Sys.init ops s ∧ s.running (.resume 0) = some (0, c) ∧
    step s (.resume 0) = some (some (-2147483648), s') ∧ (s'.moved 0).length = 2147483648 := by
  obtain ⟨src, hsrc⟩ : ∃ src : List UInt8, src.length = 2147483648 :=
    ⟨List.replicate 2147483648 0, List.length_replicate⟩
  obtain ⟨s0, hsr, h⟩ := pumped_start (by omega : 4095 < src.length) (by omega)
  obtain ⟨ops, s, s', c, hrun, hc, hsp, hmoved⟩ := h.all src.length (by omega)
  refine ⟨_, s, s', c, hsr.append hrun, hc, ?_, by rw [hmoved, hsrc]⟩
  rw [hsp, hsrc]
  rfl

end KumOS.Pipes
