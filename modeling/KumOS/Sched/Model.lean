import KumOS.Lib.Run
import KumOS.X86.SwitchContext

/-!
# `sched.c`: the task table

The sixteen slots, the counters and the operations on them.  `kmalloc`'s answer
for a new stack is an argument of the operation that asks for it; a task switch
stores the stack pointer of the running code (`saved`) into the slot it leaves.
-/

namespace KumOS.Sched

open Lib X86

/-- `task_state_t`; `TASK_RUNNING` is 0, the state of a zeroed slot. -/
inductive TaskState
  | running | ready | sleeping | dead | zombie
deriving DecidableEq

/-- `task_t`, the fields `sched.c` works with. -/
structure Task where
  esp : Word
  stack : Word
  stackSize : Word
  state : TaskState
  pid : Int
  parentPid : Int
  exitCode : Int
  name : List UInt8
  ticks : Word
  sleepUntil : Word
  kumLevel : Int

/-- A slot after `kmemset(tasks, 0, ..)`. -/
def Task.zero : Task where
  esp := 0#32
  stack := 0#32
  stackSize := 0#32
  state := .running
  pid := 0
  parentPid := 0
  exitCode := 0
  name := []
  ticks := 0#32
  sleepUntil := 0#32
  kumLevel := 0

def schedStackSize : Word := 4096#32
def schedMaxTasks : Nat := 16
def schedQuantum : Word := 10#32

structure TaskTable where
  tasks : Nat → Task
  taskCount : Nat
  currentIdx : Nat
  nextPid : Int
  tickAccum : Word
  /-- `tick_count` of `timer.c` -/
  tickCount : Word
  /-- `tss.esp0` -/
  tssEsp0 : Word
  mem : Ram
  /-- history: `pick_next` has taken its last line, `return 0` -/
  fellBack : Bool

namespace TaskTable

def setTask (s : TaskTable) (i : Nat) (t : Task) : TaskTable := { s with tasks := Function.update s.tasks i t }

def setState (s : TaskTable) (i : Nat) (st : TaskState) : TaskTable := s.setTask i { s.tasks i with state := st }

/-- The running task's slot. -/
def cur (s : TaskTable) : Task := s.tasks s.currentIdx

section
variable (s : TaskTable) (i j : Nat) (t : Task) (st : TaskState)

@[simp] theorem setTask_self : (s.setTask i t).tasks i = t := Function.update_self ..
theorem setTask_ne (h : j ≠ i) : (s.setTask i t).tasks j = s.tasks j := Function.update_of_ne h ..
@[simp] theorem setTask_currentIdx : (s.setTask i t).currentIdx = s.currentIdx := rfl

/-- A field that is the same in the new task is the same in all slots. -/
theorem setTask_field {β : Type} (f : Task → β) (h : f t = f (s.tasks i)) : f ((s.setTask i t).tasks j) = f (s.tasks j) := by
  by_cases hj : j = i
  · subst hj
    rw [setTask_self, h]
  · rw [setTask_ne s i j t hj]

theorem setTask_pid (h : t.pid = (s.tasks i).pid) : ((s.setTask i t).tasks j).pid = (s.tasks j).pid :=
  s.setTask_field i j t Task.pid h

end

end TaskTable

/-- `next_pid++` on a 32-bit `int`. -/
def incInt (x : Int) : Int := (x + 1 + 2 ^ 31) % 2 ^ 32 - 2 ^ 31

/-! ## Start -/

/-- The static variables before `sched_init`. -/
def atBoot (tickCount tssEsp0 : Word) (mem : Ram) : TaskTable where
  tasks := fun _ => Task.zero
  taskCount := 0
  currentIdx := 0
  nextPid := 1
  tickAccum := 0#32
  tickCount := tickCount
  tssEsp0 := tssEsp0
  mem := mem
  fellBack := false

def kshellName : List UInt8 := [107, 115, 104, 101, 108, 108]
def idleName : List UInt8 := [105, 100, 108, 101]

/-- `sched_init`; `idleStack` is what `kmalloc` returns, `idleTask` the address of `idle_task`. -/
def schedInit (s : TaskTable) (idleStack : Option Word) (idleTask : Word) : TaskTable :=
  let kshell : Task := { Task.zero with pid := s.nextPid, state := .running, kumLevel := 1, name := kshellName }
  let s1 : TaskTable := { s with
    tasks := Function.update (fun _ => Task.zero) 0 kshell
    taskCount := 1
    currentIdx := 0
    tickAccum := 0#32
    nextPid := incInt s.nextPid }
  match idleStack with
  | none => s1
  | some stack =>
    let ts := taskSetupStack s1.mem stack schedStackSize idleTask
    let idle : Task := { Task.zero with
      pid := s1.nextPid, state := .ready, stack := stack, stackSize := schedStackSize, kumLevel := 1,
      name := idleName, esp := ts.esp }
    { s1.setTask 1 idle with nextPid := incInt s1.nextPid, mem := ts.mem, taskCount := 2 }

/-! ## Spawning -/

/-- The slot test of `sched_spawn`. -/
def reusable (t : Task) : Bool := t.state = .dead || t.state = .zombie || t.pid = 0

/-- The slot `sched_spawn` takes: the first reusable one, else `task_count`. -/
def findSlot (s : TaskTable) : Nat :=
  ((List.range schedMaxTasks).find? fun i => reusable (s.tasks i)).getD s.taskCount

/-- `sched_spawn`; `stack` is `kmalloc`'s answer.  Gives the result and the new state.  The name is one that
fits: `kstrcpy` would write 32 bytes and more over `name[32]` and the fields behind it. -/
def schedSpawn (s : TaskTable) (name : List UInt8) (entry : Word) (kumLevel : Int) (stack : Option Word) :
    Int × TaskTable :=
  if schedMaxTasks ≤ s.taskCount then (-1, s)
  else
    match stack with
    | none => (-1, s)
    | some stack =>
      let slot := findSlot s
      if schedMaxTasks ≤ slot then (-1, s)
      else
        let ts := taskSetupStack s.mem stack schedStackSize entry
        let t : Task := { s.tasks slot with
          pid := s.nextPid, state := .ready, stack := stack, stackSize := schedStackSize, ticks := 0#32,
          exitCode := 0, kumLevel := kumLevel, parentPid := s.cur.pid, name := name, esp := ts.esp }
        (s.nextPid, { s.setTask slot t with
          nextPid := incInt s.nextPid
          mem := ts.mem
          taskCount := if s.taskCount ≤ slot then slot + 1 else s.taskCount })

/-! ## Switching -/

/-- A sleeping task whose deadline has passed is made ready. -/
def wake (now : Word) (t : Task) : Task :=
  if t.state = .sleeping ∧ t.sleepUntil ≤ now then { t with state := .ready } else t

def runnable (t : Task) : Bool := t.state = .ready || t.state = .running

/-- The do-while loop of `pick_next`: `n` rounds are left, the next one looks at `i`. -/
def pickLoop : (n i : Nat) → TaskTable → Option Nat × TaskTable
  | 0, _, s => (none, s)
  | n + 1, i, s =>
    let s1 := s.setTask i (wake s.tickCount (s.tasks i))
    if runnable (s1.tasks i) then (some i, s1) else pickLoop n ((i + 1) % s.taskCount) s1

/-- `pick_next`: one round per task, starting after the current one. -/
def pickNext (s : TaskTable) : Nat × TaskTable :=
  match pickLoop s.taskCount ((s.currentIdx + 1) % s.taskCount) s with
  | (some i, s1) => (i, s1)
  | (none, s1) => (0, { s1 with fellBack := true })

/-- The switch both `sched_yield` and `sched_tick` make to slot `next`; the
code resumed goes on behind `switch_context`. -/
def switchTo (s : TaskTable) (next : Nat) (saved : Word) : TaskTable :=
  let prev := s.currentIdx
  let prevState := if s.cur.state = .running then .ready else s.cur.state
  let s1 := (s.setState prev prevState).setState next .running
  let s2 := s1.setTask prev { s1.tasks prev with esp := saved }
  { s2 with currentIdx := next, tssEsp0 := (s2.tasks next).stack + (s2.tasks next).stackSize }

/-- The lines `sched_yield` and `sched_tick` share: pick a task and switch to
it, unless it is the running one. -/
def reschedule (s : TaskTable) (saved : Word) : TaskTable :=
  let p := pickNext s
  if p.1 = p.2.currentIdx then p.2 else switchTo p.2 p.1 saved

def schedYield (s : TaskTable) (saved : Word) : TaskTable := reschedule s saved

/-- The state before `sched_exit_code`'s `sched_yield`.  The stack is given
back to `kmalloc` in both branches. -/
def exitTask (s : TaskTable) (code : Int) : TaskTable :=
  let hasParent := (List.range s.taskCount).any fun i =>
    (s.tasks i).pid = s.cur.parentPid && (s.tasks i).state ≠ .dead && (s.tasks i).state ≠ .zombie
  s.setTask s.currentIdx { s.cur with
    exitCode := code, state := if hasParent then .zombie else .dead, stack := 0#32 }

def schedExitCode (s : TaskTable) (code : Int) (saved : Word) : TaskTable := schedYield (exitTask s code) saved

def schedExit (s : TaskTable) (saved : Word) : TaskTable := schedExitCode s 0 saved

def sleepTask (s : TaskTable) (ms : Word) : TaskTable :=
  s.setTask s.currentIdx { s.cur with
    state := .sleeping, sleepUntil := s.tickCount + ms * 100#32 / 1000#32 }

def schedSleep (s : TaskTable) (ms saved : Word) : TaskTable := schedYield (sleepTask s ms) saved

/-- The wake-up loop of `sched_tick` over the slots `i, i+1, ..` (`n` of them). -/
def wakeLoop : (n i : Nat) → TaskTable → TaskTable
  | 0, _, s => s
  | n + 1, i, s => wakeLoop n (i + 1) (s.setTask i (wake s.tickCount (s.tasks i)))

/-- `sched_tick` up to its quantum test. -/
def countTick (s : TaskTable) : TaskTable :=
  let s1 := { s.setTask s.currentIdx { s.cur with ticks := s.cur.ticks + 1#32 } with
    tickAccum := s.tickAccum + 1#32 }
  wakeLoop s1.taskCount 0 s1

def schedTick (s : TaskTable) (saved : Word) : TaskTable :=
  let s1 := countTick s
  if schedQuantum ≤ s1.tickAccum then reschedule { s1 with tickAccum := 0#32 } saved else s1

/-- `timer_callback`'s `tick_count++`. -/
def timerAdvance (s : TaskTable) : TaskTable := { s with tickCount := s.tickCount + 1#32 }

/-! ## Waiting -/

/-- One pass of `sched_waitpid`'s loop: `some` result, or `none` when it goes on to `sched_yield`. -/
def schedWaitpidPass (s : TaskTable) (pid : Int) : Option Int × TaskTable :=
  match (List.range s.taskCount).find? fun i => (s.tasks i).pid = pid with
  | some i =>
    if (s.tasks i).state = .zombie ∨ (s.tasks i).state = .dead then
      (some (s.tasks i).exitCode, s.setState i .dead)
    else (none, s)
  | none => (some 0, s)

/-- One pass of `sched_wait`'s loop: the pid reaped with its exit code, -1 when
there is no child left, or `none` when it goes on to `sched_yield`. -/
def schedWaitPass (s : TaskTable) : Option (Int × Option Int) × TaskTable :=
  let myPid := s.cur.pid
  match (List.range s.taskCount).find? fun i =>
      (s.tasks i).parentPid = myPid && ((s.tasks i).state = .zombie || (s.tasks i).state = .dead) with
  | some i => (some ((s.tasks i).pid, some (s.tasks i).exitCode), s.setState i .dead)
  | none =>
    if (List.range s.taskCount).any fun i => (s.tasks i).parentPid = myPid && (s.tasks i).state ≠ .dead
    then (none, s) else (some (-1, none), s)

/-- The slot `sched_get_task(pid)` points to. -/
def schedGetTaskIdx (s : TaskTable) (pid : Int) : Option Nat :=
  (List.range s.taskCount).find? fun i => (s.tasks i).pid = pid && (s.tasks i).state ≠ .dead

/-- `sched_get_task`: a dead task is not found. -/
def schedGetTask (s : TaskTable) (pid : Int) : Option Task :=
  ((List.range s.taskCount).find? fun i => (s.tasks i).pid = pid && (s.tasks i).state ≠ .dead).map s.tasks

/-! ## Steps -/

inductive Op
  | spawn (name : List UInt8) (entry : Word) (kumLevel : Int) (stack : Option Word)
  | yield (saved : Word)
  | sleep (ms saved : Word)
  | exitCode (code : Int) (saved : Word)
  | tick (saved : Word)
  | timer
  | waitpid (pid : Int)
  | wait

def perform (s : TaskTable) : Op → TaskTable
  | .spawn name entry kumLevel stack => (schedSpawn s name entry kumLevel stack).2
  | .yield saved => schedYield s saved
  | .sleep ms saved => schedSleep s ms saved
  | .exitCode code saved => schedExitCode s code saved
  | .tick saved => schedTick s saved
  | .timer => timerAdvance s
  | .waitpid pid => (schedWaitpidPass s pid).2
  | .wait => (schedWaitPass s).2

/-- The slot `sched_init` gives the idle task. -/
def idleIdx : Nat := 1

/-- The idle task never exits or sleeps: its loop is `hlt`. -/
def Allowed (s : TaskTable) : Op → Prop
  | .sleep _ _ => s.currentIdx ≠ idleIdx
  | .exitCode _ _ => s.currentIdx ≠ idleIdx
  | _ => True

def Step (s : TaskTable) (op : Op) (s' : TaskTable) : Prop := Allowed s op ∧ s' = perform s op

end KumOS.Sched
