import KumOS.Sched.ExitStatus

/-!
# `signal.c`

A set of pending signals and a table of handlers for each of sixteen slots.  The slot
of a task is found by its pid: `i` for pid `i + 1`, and 0 for every pid above sixteen.
A handler is called by the kernel; a call is recorded and taken to return with the
signals and the tasks as they were.
-/

namespace KumOS.Signals

open Lib X86 Sched

variable {s : TaskTable} {pid : Int} {x : Word}
variable {j k : Nat}

def sigint : Nat := 2
def sigkill : Nat := 9
def sigterm : Nat := 15
def sigchld : Nat := 17
def sigcont : Nat := 18
def nsig : Nat := 32

def sigDfl : Word := 0#32
def sigIgn : Word := 1#32

/-- `sigset_t` -/
structure SigSet where
  pending : Word
  blocked : Word
  handlers : Nat → Word

/-- `1u << sig` -/
def sigBit (sig : Nat) : Word := BitVec.twoPow 32 sig

structure SigState where
  table : TaskTable
  /-- `proc_signals` -/
  sets : Nat → SigSet
  /-- history: the calls of handlers, with the pid of the task, the latest first -/
  calls : List (Int × Nat × Word)
  /-- history: the handler the task has asked for last, `SIG_DFL` before -/
  wanted : Int → Nat → Word

namespace SigState

def setSet (w : SigState) (i : Nat) (set : SigSet) : SigState := { w with sets := Function.update w.sets i set }

end SigState

/-- `signal_init()` -/
def signalInit (s : TaskTable) : SigState where
  table := s
  sets := fun _ => ⟨0#32, 0#32, fun _ => 0#32⟩
  calls := []
  wanted := fun _ _ => sigDfl

/-- The loop of each function for the slot of a pid; `idx` starts at 0. -/
def sigIdx (s : TaskTable) (pid : Int) : Nat :=
  ((List.range schedMaxTasks).find? fun i : Nat => (schedGetTask s ((i : Int) + 1)).any fun t => t.pid = pid).getD 0

/-- `signal_send(pid, sig)`; `saved` is the stack pointer if the caller is switched away from. -/
def signalSend (w : SigState) (pid sig : Int) (saved : Word) : Int × SigState :=
  if sig ≤ 0 ∨ (nsig : Int) ≤ sig then (-1, w)
  else if sig = sigkill then
    match schedGetTaskIdx w.table pid with
    | none => (-1, w)
    | some _ => (0, { w with table := schedExitCode w.table (-1) saved })
  else
    match schedGetTaskIdx w.table pid with
    | none => (-1, w)
    | some i =>
      let idx := sigIdx w.table pid
      let set := w.sets idx
      let w1 := w.setSet idx { set with pending := set.pending ||| sigBit sig.toNat }
      if sig = sigint ∨ sig = sigterm ∨ sig = sigkill then
        (0, { w1 with table := w1.table.setState i .zombie })
      else (0, w1)

/-- `signal_set_handler(sig, handler)` -/
def signalSetHandler (w : SigState) (sig : Int) (handler : Word) : Int × SigState :=
  if sig ≤ 0 ∨ (nsig : Int) ≤ sig then (-1, w)
  else
    let pid := w.table.cur.pid
    let idx := sigIdx w.table pid
    let set := w.sets idx
    let w1 := w.setSet idx { set with handlers := Function.update set.handlers sig.toNat handler }
    (0, { w1 with wanted := Function.update w.wanted pid (Function.update (w.wanted pid) sig.toNat handler) })

/-- The signals a task with this slot is to handle. -/
def SigSet.visible (set : SigSet) : Word := set.pending &&& ~~~set.blocked

/-- The loop of `signal_check` over the signals left. -/
def checkLoop (idx : Nat) (pending saved : Word) : List Nat → SigState → SigState
  | [], w => w
  | sig :: rest, w =>
    if pending &&& sigBit sig = 0#32 then checkLoop idx pending saved rest w
    else
      let set := w.sets idx
      let w1 := w.setSet idx { set with pending := set.pending &&& ~~~sigBit sig }
      let h := set.handlers sig
      if h = sigIgn then checkLoop idx pending saved rest w1
      else if h = sigDfl then
        if sig = sigchld ∨ sig = sigcont then checkLoop idx pending saved rest w1
        else { w1 with table := schedExitCode w1.table (128 + sig) saved }
      else checkLoop idx pending saved rest { w1 with calls := (w1.table.cur.pid, sig, h) :: w1.calls }

/-- `signal_check()` -/
def signalCheck (w : SigState) (saved : Word) : SigState :=
  let idx := sigIdx w.table w.table.cur.pid
  let pending := (w.sets idx).visible
  if pending = 0#32 then w else checkLoop idx pending saved (List.range' 1 (nsig - 1)) w

/-- `signal_pending()` -/
def signalPending (w : SigState) : Bool := (w.sets (sigIdx w.table w.table.cur.pid)).visible ≠ 0#32

/-! ## Steps -/

inductive SigOp
  | sched (op : Op)
  | send (pid sig : Int) (saved : Word)
  | setHandler (sig : Int) (handler : Word)
  | check (saved : Word)

def signalPerform (w : SigState) : SigOp → SigState
  | .sched op => { w with table := perform w.table op }
  | .send pid sig saved => (signalSend w pid sig saved).2
  | .setHandler sig handler => (signalSetHandler w sig handler).2
  | .check saved => signalCheck w saved

/-! ## The slot of a task -/

/-- `pid - 1` for the first sixteen pids, and 0 for all others. -/
def sigSlot (pid : Int) : Nat := if 1 ≤ pid ∧ pid ≤ 16 then (pid - 1).toNat else 0

/-- A task that has not exited. -/
def Live (s : TaskTable) (pid : Int) : Prop := ∃ i < s.taskCount, (s.tasks i).pid = pid ∧ ¬ (s.tasks i).Ended

theorem Live.found (h : Live s pid) : ∃ j, schedGetTaskIdx s pid = some j := by
  obtain ⟨i, hi, hp, hst⟩ := h
  exact schedGetTaskIdx_found hi hp fun hd => hst (.inr hd)

/-- The loop's test at `i` can only succeed for pid `i + 1`. -/
theorem sigIdx_test (hj : schedGetTaskIdx s pid = some j) (i : Nat) :
    ((schedGetTask s ((i : Int) + 1)).any fun t => decide (t.pid = pid)) = true ↔ (i : Int) + 1 = pid := by
  show ((schedGetTaskIdx s _).map s.tasks).any _ = true ↔ _
  constructor
  · intro h
    obtain ⟨t, ht, hp⟩ := (Option.any_eq_true _ _).1 h
    obtain ⟨k, hk, rfl⟩ := Option.map_eq_some_iff.1 ht
    rw [decide_eq_true_eq] at hp
    rw [← hp]
    exact (schedGetTaskIdx_some hk).2.1.symm
  · intro h
    rw [h, hj]
    show decide _ = true
    rw [decide_eq_true_eq]
    exact (schedGetTaskIdx_some hj).2.1

theorem sigIdx_eq (hj : schedGetTaskIdx s pid = some j) : sigIdx s pid = sigSlot pid := by
  unfold sigIdx sigSlot
  by_cases hp : 1 ≤ pid ∧ pid ≤ 16
  · have hfn : (List.range schedMaxTasks).find?
        (fun i : Nat => (schedGetTask s ((i : Int) + 1)).any fun t => decide (t.pid = pid)) = some (pid - 1).toNat := by
      refine List.find?_range_eq_some.2 ⟨(sigIdx_test hj _).2 (by omega), List.mem_range.2 (by unfold schedMaxTasks; omega),
        fun k hk => ?_⟩
      rw [Bool.not_eq_true', Bool.eq_false_iff, Ne, sigIdx_test hj]
      omega
    rw [hfn, if_pos hp]
    rfl
  have hnn : (List.range schedMaxTasks).find?
      (fun i : Nat => (schedGetTask s ((i : Int) + 1)).any fun t => decide (t.pid = pid)) = none := by
    refine List.find?_eq_none.2 fun k hk => ?_
    have hk := List.mem_range.1 hk
    unfold schedMaxTasks at hk
    rw [sigIdx_test hj]
    omega
  rw [hnn, if_neg hp]
  rfl

/-! ## Bits -/

theorem sigBit_test (hk : k < 32) : x &&& sigBit k = 0#32 ↔ x.getLsbD k = false := by
  unfold sigBit
  constructor
  · intro h
    have hb := congrArg (fun y => y.getLsbD k) h
    simpa [hk] using hb
  · intro h
    apply BitVec.eq_of_getLsbD_eq
    intro j hj
    simp only [BitVec.getLsbD_and, BitVec.getLsbD_twoPow, BitVec.getLsbD_zero]
    by_cases hjk : k = j
    · rw [← hjk, h, Bool.false_and]
    · simp [hjk]

theorem getLsbD_insert (hk : k < 32) (j : Nat) : (x ||| sigBit k).getLsbD j = (x.getLsbD j || decide (j = k)) := by
  unfold sigBit
  by_cases hjk : j = k
  · subst hjk
    simp [hk]
  · simp [hjk, Ne.symm hjk]

theorem getLsbD_erase (k j : Nat) : (x &&& ~~~sigBit k).getLsbD j = (x.getLsbD j && decide (j ≠ k)) := by
  unfold sigBit
  rw [BitVec.getLsbD_and, BitVec.getLsbD_not, BitVec.getLsbD_twoPow]
  by_cases hj : j < 32
  · by_cases hjk : j = k
    · subst hjk
      simp [hj]
    · simp [hj, hjk, Ne.symm hjk]
  · rw [BitVec.getLsbD_of_ge _ _ (by omega)]
    rfl

end KumOS.Signals
