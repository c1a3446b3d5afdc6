import KumOS.Sched.ExitStatus

/-!
# Children: waiting for them, and their slots

A wait marks the child it returns dead, but both `sched_wait` and `sched_waitpid` take
dead children for terminated ones: as long as the slot has not been given to a new task,
`sched_wait` returns the same child again (`wait_once_iff`).  And `sched_spawn` looks at
`task_count`, which never falls, before it looks for a slot, and takes zombies for free
slots (`spawn_reuses_iff`).
-/

namespace KumOS.Sched

open Lib X86
open TaskTable (setState setTask_ne setTask_self)

/-! ## What has been returned -/

/-- The slot `sched_wait` finds: the first child of the running task that has terminated. -/
def endedChild (s : TaskTable) : Option Nat :=
  (List.range s.taskCount).find? fun i =>
    (s.tasks i).parentPid = s.cur.pid && ((s.tasks i).state = .zombie || (s.tasks i).state = .dead)

/-- The slot whose exit code `sched_waitpid(pid)` returns. -/
def endedTask (s : TaskTable) (pid : Int) : Option Nat :=
  ((List.range s.taskCount).find? fun i => (s.tasks i).pid = pid).filter fun i =>
    (s.tasks i).state = .zombie || (s.tasks i).state = .dead

/-- The scheduler with a record of spawns and waits. -/
structure Family where
  table : TaskTable
  /-- parent and child, for every spawn -/
  children : List (Int × Int)
  /-- caller and child, for every child `sched_wait` has returned -/
  waited : List (Int × Int)
  /-- the tasks `sched_waitpid` has found terminated -/
  reaped : List Int

namespace Family

def start (s : TaskTable) : Family := ⟨s, [], [], []⟩

def perform (f : Family) (op : Op) : Family where
  table := Sched.perform f.table op
  children := match op with
    | .spawn name entry kumLevel stack =>
      let pid := (schedSpawn f.table name entry kumLevel stack).1
      if pid = -1 then f.children else (f.table.cur.pid, pid) :: f.children
    | _ => f.children
  waited := match op with
    | .wait => match endedChild f.table with
      | some i => (f.table.cur.pid, (f.table.tasks i).pid) :: f.waited
      | none => f.waited
    | _ => f.waited
  reaped := match op with
    | .waitpid pid => match endedTask f.table pid with
      | some _ => pid :: f.reaped
      | none => f.reaped
    | _ => f.reaped

def Step (f : Family) (op : Op) (f' : Family) : Prop := Allowed f.table op ∧ f' = f.perform op

theorem run_perform {f f0 : Family} {ops : List Op} (h : Run Step f0 ops f) (op : Op) (ha : Allowed f.table op) :
    Run Step f0 (ops ++ [op]) (f.perform op) := .snoc h ⟨ha, rfl⟩

/-- A wait of either kind has returned `c`. -/
def Returned (f : Family) (c : Int) : Prop := c ∈ f.reaped ∨ ∃ p, (p, c) ∈ f.waited

/-- All children of the running task have been returned. -/
def AllReturned (f : Family) : Prop := ∀ c, (f.table.cur.pid, c) ∈ f.children → f.Returned c

/-- A call of `sched_wait` that ends now returns a child it has not returned before, and -1 if there is none left. -/
structure WaitsOnce (f : Family) : Prop where
  once : ∀ c code, (schedWaitPass f.table).1 = some (c, some code) → (f.table.cur.pid, c) ∉ f.waited
  last : f.AllReturned → (schedWaitPass f.table).1 = some (-1, none)

end Family

variable {s : TaskTable} {i : Nat}

/-- What a pass of `sched_wait` does. -/
theorem schedWaitPass_eq (s : TaskTable) : schedWaitPass s =
    match endedChild s with
    | some i => (some ((s.tasks i).pid, some (s.tasks i).exitCode), s.setState i .dead)
    | none =>
      if (List.range s.taskCount).any fun i => (s.tasks i).parentPid = s.cur.pid && (s.tasks i).state ≠ .dead
      then (none, s) else (some (-1, none), s) := rfl

theorem schedWaitPass_table (s : TaskTable) : (schedWaitPass s).2 =
    match endedChild s with
    | some i => s.setState i .dead
    | none => s := by
  rw [schedWaitPass_eq]
  cases endedChild s with
  | some i => rfl
  | none =>
    dsimp only
    split
    · rfl
    · rfl

theorem schedWaitpidPass_table (s : TaskTable) (pid : Int) : (schedWaitpidPass s pid).2 =
    match endedTask s pid with
    | some i => s.setState i .dead
    | none => s := by
  unfold schedWaitpidPass endedTask
  cases (List.range s.taskCount).find? fun i => (s.tasks i).pid = pid with
  | none => rfl
  | some i =>
    dsimp only
    by_cases h : (s.tasks i).state = .zombie ∨ (s.tasks i).state = .dead
    · rw [if_pos h, Option.filter_some_pos (by simpa using h)]
    · rw [if_neg h, Option.filter_some_neg (by simpa using h)]

theorem endedChild_some (h : endedChild s = some i) :
    i < s.taskCount ∧ (s.tasks i).parentPid = s.cur.pid ∧ (s.tasks i).Ended := by
  have hp := List.find?_some h
  simp only [Bool.and_eq_true, Bool.or_eq_true, decide_eq_true_eq] at hp
  exact ⟨List.mem_range.1 (List.mem_of_find?_eq_some h), hp.1, hp.2⟩

theorem endedTask_some {pid : Int} (h : endedTask s pid = some i) :
    i < s.taskCount ∧ (s.tasks i).pid = pid ∧ (s.tasks i).Ended := by
  obtain ⟨hf, hended⟩ := Option.filter_eq_some_iff.1 h
  have hp := List.find?_some hf
  rw [decide_eq_true_eq] at hp
  rw [Bool.or_eq_true, decide_eq_true_eq, decide_eq_true_eq] at hended
  exact ⟨List.mem_range.1 (List.mem_of_find?_eq_some hf), hp, hended⟩

/-! ## The record is right -/

/-- The children in the table are on record, and those that have been returned are dead. -/
structure Recorded (s : TaskTable) (children : List (Int × Int)) (returned : Int → Prop) : Prop where
  known : ∀ i < s.taskCount, (s.tasks i).parentPid = 0 ∨ ((s.tasks i).parentPid, (s.tasks i).pid) ∈ children
  dead : ∀ i < s.taskCount, returned (s.tasks i).pid → (s.tasks i).state = .dead
  old : ∀ c, returned c → c < s.nextPid

section

variable {s' : TaskTable} {children : List (Int × Int)} {returned returned' : Int → Prop}

section

variable (h : Recorded s children returned)
include h

theorem Recorded.kept (hnx : s'.nextPid = s.nextPid)
    (hs : s'.taskCount = s.taskCount ∧ ∀ i, Kept (s.tasks i) (s'.tasks i)) : Recorded s' children returned := by
  obtain ⟨hc, hk⟩ := hs
  refine ⟨fun i hi => ?_, fun i hi hr => ?_, fun c hr => ?_⟩
  · rw [(hk i).pid, (hk i).parentPid]
    exact h.known i (hc ▸ hi)
  · rw [(hk i).pid] at hr
    have hdd := h.dead i (hc ▸ hi) hr
    rw [(hk i).ended (.inr hdd), hdd]
  · rw [hnx]
    exact h.old c hr

/-- A wait returns the task in slot `i`. -/
theorem Recorded.reap (hb : Base s) (hi : i < s.taskCount)
    (hret : ∀ c, returned' c → c = (s.tasks i).pid ∨ returned c) : Recorded (s.setState i .dead) children returned' := by
  have hpid : ∀ j, ((s.setState i .dead).tasks j).pid = (s.tasks j).pid := fun j => s.setTask_field i j _ Task.pid rfl
  have hparent : ∀ j, ((s.setState i .dead).tasks j).parentPid = (s.tasks j).parentPid :=
    fun j => s.setTask_field i j _ Task.parentPid rfl
  refine ⟨fun j hj => ?_, fun j hj hr => ?_, fun c hr => ?_⟩
  · rw [hpid, hparent]
    exact h.known j hj
  · rw [hpid] at hr
    unfold setState
    by_cases hji : j = i
    · rw [hji, setTask_self]
    rw [setTask_ne _ _ _ _ hji]
    rcases hret _ hr with heq | hold
    · exact absurd (hb.pid_inj j hj i hi heq) hji
    · exact h.dead j hj hold
  · rcases hret c hr with rfl | hold
    · exact hb.pid_lt i hi
    · exact h.old c hold

theorem Recorded.spawn (hb : Base s) (hrm : s.taskCount < schedMaxTasks) {t : Task}
    {stack : Word} (ht : NewTask s stack t) (hnx : s'.nextPid = s.nextPid + 1)
    (htasks : s'.tasks = (s.setTask (findSlot s) t).tasks)
    (hct : s'.taskCount = if s.taskCount ≤ findSlot s then findSlot s + 1 else s.taskCount) :
    Recorded s' ((s.cur.pid, s.nextPid) :: children) returned := by
  obtain ⟨hsl, -⟩ := findSlot_spec hb hrm
  have hold : ∀ i < s'.taskCount, i ≠ findSlot s → i < s.taskCount := by
    intro i hi hne
    rw [hct] at hi
    split at hi <;> omega
  refine ⟨fun i hi => ?_, fun i hi hr => ?_, fun c hr => ?_⟩
  · rw [htasks]
    by_cases his : i = findSlot s
    · rw [his, setTask_self, ht.pid, ht.parentPid]
      exact .inr List.mem_cons_self
    · rw [setTask_ne _ _ _ _ his]
      exact (h.known i (hold i hi his)).imp_right (List.mem_cons_of_mem _)
  · rw [htasks] at hr ⊢
    by_cases his : i = findSlot s
    · rw [his, setTask_self, ht.pid] at hr
      exact absurd (h.old _ hr) (Int.lt_irrefl _)
    · rw [setTask_ne _ _ _ _ his] at hr ⊢
      exact h.dead i (hold i hi his) hr
  · have := h.old c hr
    omega

theorem Recorded.exitTask (hinv : Inv s) (code : Int) : Recorded (exitTask s code) children returned := by
  have hpid : ∀ j, ((Sched.exitTask s code).tasks j).pid = (s.tasks j).pid :=
    fun j => s.setTask_field s.currentIdx j _ Task.pid rfl
  have hparent : ∀ j, ((Sched.exitTask s code).tasks j).parentPid = (s.tasks j).parentPid :=
    fun j => s.setTask_field s.currentIdx j _ Task.parentPid rfl
  refine ⟨fun j hj => ?_, fun j hj hr => ?_, fun c hr => h.old c hr⟩
  · rw [hpid, hparent]
    exact h.known j hj
  · rw [hpid] at hr
    have hdd := h.dead j hj hr
    have hne : j ≠ s.currentIdx := by
      rintro rfl
      have hrun : (s.tasks s.currentIdx).state = .running := hinv.cur_running
      rw [hrun] at hdd
      cases hdd
    have hsm : (Sched.exitTask s code).tasks j = s.tasks j := setTask_ne _ _ _ _ hne
    rw [hsm]
    exact hdd

end

end

theorem Family.recorded_step {f f' : Family} {op : Op} (hinv : Inv f.table) (hlo : 3 ≤ f.table.nextPid)
    (hmax : op.isSpawn = true → f.table.nextPid < 2 ^ 31 - 1) (hs : f.Step op f')
    (h : Recorded f.table f.children f.Returned) : Recorded f'.table f'.children f'.Returned := by
  obtain ⟨ha, rfl⟩ := hs
  cases op with
  | spawn name entry kumLevel stack =>
    show Recorded (schedSpawn f.table name entry kumLevel stack).2
      (if (schedSpawn f.table name entry kumLevel stack).1 = -1 then f.children
        else (f.table.cur.pid, (schedSpawn f.table name entry kumLevel stack).1) :: f.children) f.Returned
    rcases schedSpawn_cases f.table name entry kumLevel stack with he | ⟨stk, t, mem, -, hrm, ht, he⟩
    · rw [he, if_pos rfl]
      exact h
    rw [he, if_neg (show ¬ f.table.nextPid = -1 by omega)]
    refine h.spawn hinv.toBase hrm ht ?_ ?_ ?_
    · exact incInt_eq (by omega) (hmax rfl)
    · rfl
    · rfl
  | yield saved => exact h.kept (reschedule_nextPid _ saved) (reschedule_kept hinv.toBase saved)
  | sleep ms saved => exact h.kept (reschedule_nextPid _ saved) (schedSleep_kept hinv ha ms saved)
  | exitCode code saved =>
    have hb : Base (Sched.exitTask f.table code) := hinv.setCur _ rfl fun he => absurd he ha
    exact (h.exitTask hinv code).kept (reschedule_nextPid _ saved) (reschedule_kept hb saved)
  | tick saved => exact h.kept (schedTick_nextPid _ saved) (schedTick_kept hinv saved)
  | timer => exact ⟨h.known, h.dead, h.old⟩
  | waitpid pid =>
    have htb : (f.perform (.waitpid pid)).table = _ := schedWaitpidPass_table f.table pid
    rw [htb]
    cases hend : endedTask f.table pid with
    | none =>
      have hret : (f.perform (.waitpid pid)).Returned = f.Returned := by
        unfold Family.Returned Family.perform
        simp only [hend]
      rw [hret]
      exact h
    | some i =>
      obtain ⟨hi, hp, -⟩ := endedTask_some hend
      refine h.reap hinv.toBase hi fun c hc => ?_
      unfold Family.Returned Family.perform at hc
      simp only [hend, List.mem_cons] at hc
      rw [hp]
      exact or_assoc.1 hc
  | wait =>
    have htb : (f.perform .wait).table = _ := schedWaitPass_table f.table
    rw [htb]
    cases hend : endedChild f.table with
    | none =>
      have hret : (f.perform .wait).Returned = f.Returned := by
        unfold Family.Returned Family.perform
        simp only [hend]
      rw [hret]
      exact h
    | some i =>
      refine h.reap hinv.toBase (endedChild_some hend).1 fun c hc => ?_
      unfold Family.Returned Family.perform at hc
      simp only [hend, List.mem_cons, Prod.mk.injEq] at hc
      rcases hc with hc | ⟨p, ⟨-, hc⟩ | hc⟩
      · exact .inr (.inl hc)
      · exact .inl hc
      · exact .inr (.inr ⟨p, hc⟩)

/-- Nothing is on record after `sched_init`. -/
theorem schedInit_recorded (tickCount tssEsp0 : Word) (mem : Ram) (idleStack idleTask : Word) {returned : Int → Prop}
    (hno : ∀ c, ¬ returned c) : Recorded (schedInit (atBoot tickCount tssEsp0 mem) (some idleStack) idleTask) [] returned := by
  refine ⟨fun i hi => .inl ?_, fun _ _ h => (hno _ h).elim, fun _ h => (hno _ h).elim⟩
  have hi : i < 2 := hi
  obtain rfl | rfl : i = 0 ∨ i = 1 := by omega
  · rfl
  · rfl

/-! ## Waiting -/

/-- No child is left: the last lines of `sched_wait` return -1. -/
theorem schedWaitPass_last (hend : endedChild s = none)
    (hno : ∀ i < s.taskCount, (s.tasks i).parentPid = s.cur.pid → (s.tasks i).state = .dead) :
    (schedWaitPass s).1 = some (-1, none) := by
  have hany : ((List.range s.taskCount).any fun i =>
      (s.tasks i).parentPid = s.cur.pid && (s.tasks i).state ≠ .dead) = false := by
    rw [List.any_eq_false]
    intro i hi h
    simp only [Bool.and_eq_true, decide_eq_true_eq] at h
    exact h.2 (hno i (List.mem_range.1 hi) h.1)
  rw [schedWaitPass_eq, hend]
  simp only [hany]
  rfl

/-- The table is in order, and the record right, in every state reached. -/
theorem Family.run {tickCount tssEsp0 : Word} {mem : Ram} {idleStack idleTask : Word} {ops : List Op} {f : Family}
    (hrun : Run Family.Step (.start (schedInit (atBoot tickCount tssEsp0 mem) (some idleStack) idleTask)) ops f)
    (hn : spawns ops < 2 ^ 31 - 3) : Inv f.table ∧ Recorded f.table f.children f.Returned := by
  have hpid := schedInit_nextPid tickCount tssEsp0 mem idleStack idleTask
  have hno : ∀ c, ¬ (Family.start (schedInit (atBoot tickCount tssEsp0 mem) (some idleStack) idleTask)).Returned c := by
    rintro c (h | ⟨p, h⟩)
    · exact List.not_mem_nil h
    · exact List.not_mem_nil h
  obtain ⟨hinv, -, -, hrec⟩ := run_rule_over Family.table (fun _ _ _ h => ⟨h.1, congrArg Family.table h.2⟩)
    (schedInit_inv ..) (by rw [Family.start, hpid]; decide) hrun
    (by rw [Family.start, hpid]; omega) (schedInit_recorded _ _ _ _ _ hno)
    (fun h1 op h2 hinv hlo hmax hs h => Family.recorded_step hinv (by rw [Family.start, hpid] at hlo; exact hlo) hmax hs h)
  exact ⟨hinv, hrec⟩

/-- In every state reached from `sched_init`, a call of `sched_wait` that ends does so as it should exactly if the first
terminated child in the table is a zombie, or one that `sched_wait` has not returned while others have not been returned
at all. -/
theorem wait_once_iff (tickCount tssEsp0 : Word) (mem : Ram) (idleStack idleTask : Word) (ops : List Op) (f : Family)
    (hrun : Run Family.Step (.start (schedInit (atBoot tickCount tssEsp0 mem) (some idleStack) idleTask)) ops f)
    (hn : spawns ops < 2 ^ 31 - 3) :
    f.WaitsOnce ↔ ∀ i, endedChild f.table = some i → (f.table.tasks i).state = .zombie ∨
      (f.table.cur.pid, (f.table.tasks i).pid) ∉ f.waited ∧ ¬ f.AllReturned := by
  obtain ⟨hinv, hrec⟩ := Family.run hrun hn
  -- once all children have been returned, those in the table are dead
  have hgone : f.AllReturned → ∀ i < f.table.taskCount, (f.table.tasks i).parentPid = f.table.cur.pid →
      (f.table.tasks i).state = .dead := by
    intro hall i hi hp
    have hpos := hinv.pid_pos _ hinv.cur_lt
    rcases hrec.known i hi with h0 | hmem
    · rw [hp] at h0
      exact absurd h0 (by unfold TaskTable.cur; omega)
    · rw [hp] at hmem
      exact hrec.dead i hi (hall _ hmem)
  cases hend : endedChild f.table with
  | none =>
    refine iff_of_true ⟨fun c code hc => ?_, fun hall => schedWaitPass_last hend (hgone hall)⟩ fun i hi => nomatch hi
    rw [schedWaitPass_eq, hend] at hc
    dsimp only at hc
    split at hc
    · cases hc
    · cases hc
  | some i =>
    obtain ⟨hi, hp, hended⟩ := endedChild_some hend
    have hpass : (schedWaitPass f.table).1 = some ((f.table.tasks i).pid, some (f.table.tasks i).exitCode) := by
      rw [schedWaitPass_eq, hend]
    constructor
    · rintro ⟨honce, hla⟩ j hj
      cases hj
      rcases hended with hz | hd
      · exact .inl hz
      · refine .inr ⟨honce _ _ hpass, fun hall => ?_⟩
        rw [hla hall] at hpass
        simp at hpass
    · intro h
      rcases h i rfl with hz | ⟨hnew, hlf⟩
      · -- a zombie has not been returned
        have hdd : (f.table.tasks i).state ≠ .dead := by
          rw [hz]
          exact fun he => nomatch he
        refine ⟨fun c code hc hmem => hdd ?_, fun hall => absurd (hgone hall i hi hp) hdd⟩
        rw [hpass] at hc
        cases hc
        exact hrec.dead i hi (.inr ⟨_, hmem⟩)
      · refine ⟨fun c code hc => ?_, fun hall => absurd hall hlf⟩
        rw [hpass] at hc
        cases hc
        exact hnew

/-- The child of the shell has exited, and the shell runs again. -/
def sampleOrphan : Family :=
  [.spawn [] 0#32 0 (some 0x300000#32), .yield 0#32, .yield 0#32, .exitCode 7 0#32].foldl Family.perform (.start sampleInit)

theorem sampleOrphan_run : Run Family.Step (.start sampleInit)
    [.spawn [] 0#32 0 (some 0x300000#32), .yield 0#32, .yield 0#32, .exitCode 7 0#32] sampleOrphan :=
  have h1 := Family.run_perform (.nil : Run Family.Step (.start sampleInit) [] _) (.spawn [] 0#32 0 (some 0x300000#32)) trivial
  have h3 := Family.run_perform (Family.run_perform h1 (.yield 0#32) trivial) (.yield 0#32) trivial
  Family.run_perform h3 (.exitCode 7 0#32) (show 2 ≠ idleIdx by decide)

theorem wait_once_iff_sample : sampleOrphan.WaitsOnce :=
  (wait_once_iff _ _ _ _ _ _ _ sampleOrphan_run (by decide)).2 fun i hi => .inl (by
    have hsl : endedChild sampleOrphan.table = some 2 := by decide
    rw [hsl] at hi
    cases hi
    decide)

/-- The shell has waited for its child, and the next call returns it again. -/
theorem wait_returns_twice :
    Run Family.Step (.start sampleInit)
      [.spawn [] 0#32 0 (some 0x300000#32), .yield 0#32, .yield 0#32, .exitCode 7 0#32, .wait] (sampleOrphan.perform .wait) ∧
      (schedWaitPass sampleOrphan.table).1 = some (3, some 7) ∧
      (schedWaitPass (sampleOrphan.perform .wait).table).1 = some (3, some 7) ∧ ¬ (sampleOrphan.perform .wait).WaitsOnce := by
  have hagain : (schedWaitPass (sampleOrphan.perform .wait).table).1 = some (3, some 7) := by decide
  refine ⟨sampleOrphan_run.snoc ⟨trivial, rfl⟩, by decide, hagain, fun h => ?_⟩
  exact h.once 3 7 hagain (by decide)

/-! ## Slots -/

/-- `sched_spawn` has succeeded, in a slot that was never used or whose task is dead, and has left the others alone. -/
structure Reuses (s : TaskTable) (pid : Int) (s' : TaskTable) : Prop where
  success : 0 < pid
  slot : ∃ slot < schedMaxTasks, (s'.tasks slot).pid = pid ∧ ((s.tasks slot).state = .dead ∨ (s.tasks slot).pid = 0) ∧
    ∀ j, j ≠ slot → s'.tasks j = s.tasks j

/-- `findSlot` passes no slot that can be reused. -/
theorem findSlot_le (h : reusable (s.tasks i) = true) (hi : i < schedMaxTasks) : findSlot s ≤ i := by
  unfold findSlot
  cases hf : (List.range schedMaxTasks).find? fun i => reusable (s.tasks i) with
  | none => exact absurd h (List.find?_eq_none.1 hf i (List.mem_range.2 hi))
  | some j =>
    obtain ⟨-, -, hbf⟩ := List.find?_range_eq_some.1 hf
    apply Nat.le_of_not_lt
    intro hlt
    have hno := hbf i hlt
    rw [h] at hno
    cases hno

/-- The slot taken, in a table in order, is that of a zombie exactly if there is a zombie before any dead task. -/
theorem findSlot_free_iff (hb : Base s) (hrm : s.taskCount < schedMaxTasks) :
    ((s.tasks (findSlot s)).state = .dead ∨ (s.tasks (findSlot s)).pid = 0) ↔
      ∀ i < s.taskCount, (s.tasks i).state = .zombie → ∃ j < i, (s.tasks j).state = .dead := by
  obtain ⟨hle, hreuse⟩ := findSlot_spec hb hrm
  constructor
  · intro hfr i hi hz
    have hsl : findSlot s ≤ i := findSlot_le ((reusable_iff _).2 (.inr (.inl hz))) (by have := hb.count_le; omega)
    have hpos := hb.pid_pos (findSlot s) (by omega)
    have hdd : (s.tasks (findSlot s)).state = .dead := hfr.resolve_right (by omega)
    refine ⟨findSlot s, Nat.lt_of_le_of_ne hsl fun he => ?_, hdd⟩
    rw [he, hz] at hdd
    cases hdd
  · intro h
    rcases (reusable_iff _).1 hreuse with hd | hz | hp
    · exact .inl hd
    · by_cases hlt : findSlot s < s.taskCount
      · obtain ⟨j, hj, hd⟩ := h _ hlt hz
        have := findSlot_le ((reusable_iff _).2 (.inl hd)) (by omega)
        omega
      · exact .inr (hb.unused _ (by omega) (by omega))
    · exact .inr hp

/-- `sched_spawn` with a stack and fewer than 16 tasks. -/
theorem schedSpawn_room (hb : Base s) (hrm : s.taskCount < schedMaxTasks) (name : List UInt8) (entry : Word) (kumLevel : Int)
    (stack : Word) : ∃ t, t.pid = s.nextPid ∧ (schedSpawn s name entry kumLevel (some stack)).1 = s.nextPid ∧
      (schedSpawn s name entry kumLevel (some stack)).2.tasks = (s.setTask (findSlot s) t).tasks := by
  obtain ⟨hsl, -⟩ := findSlot_spec hb hrm
  unfold schedSpawn
  rw [if_neg (Nat.not_le.2 hrm)]
  dsimp only
  rw [if_neg (by omega)]
  exact ⟨_, rfl, rfl, rfl⟩

/-- In every state reached from `sched_init`, `sched_spawn` reuses a slot as it should, where `kmalloc` succeeds, exactly
if there have never been 16 tasks and no zombie stands before the first dead task. -/
theorem spawn_reuses_iff (tickCount tssEsp0 : Word) (mem : Ram) (idleStack idleTask : Word) (ops : List Op) (s : TaskTable)
    (hrun : Run Step (schedInit (atBoot tickCount tssEsp0 mem) (some idleStack) idleTask) ops s)
    (hn : spawns ops < 2 ^ 31 - 3) (name : List UInt8) (entry : Word) (kumLevel : Int) (stack : Word) :
    Reuses s (schedSpawn s name entry kumLevel (some stack)).1 (schedSpawn s name entry kumLevel (some stack)).2 ↔
      s.taskCount < schedMaxTasks ∧
        ∀ i < s.taskCount, (s.tasks i).state = .zombie → ∃ j < i, (s.tasks j).state = .dead := by
  obtain ⟨hinv, hlo, -⟩ := run_inv (schedInit_inv ..) (schedInit_nextPid ..) hrun hn
  by_cases hrm : s.taskCount < schedMaxTasks
  · rw [← findSlot_free_iff hinv.toBase hrm, and_iff_right hrm]
    obtain ⟨hsl, -⟩ := findSlot_spec hinv.toBase hrm
    obtain ⟨t, ht, hpid, htasks⟩ := schedSpawn_room hinv.toBase hrm name entry kumLevel stack
    rw [hpid]
    constructor
    · rintro ⟨-, slot, hlt, hp, hfr, -⟩
      -- only the new task has the new pid
      have hnew : slot = findSlot s := by
        apply Classical.byContradiction
        intro hne
        rw [htasks, setTask_ne _ _ _ _ hne] at hp
        by_cases hus : slot < s.taskCount
        · have := hinv.pid_lt slot hus
          omega
        · have := hinv.unused slot (by omega) hlt
          omega
      rw [← hnew]
      exact hfr
    · intro hfr
      refine ⟨by omega, findSlot s, by omega, ?_, hfr, fun j hj => ?_⟩
      · rw [htasks, setTask_self, ht]
      · rw [htasks, setTask_ne _ _ _ _ hj]
  · have hfa : schedSpawn s name entry kumLevel (some stack) = (-1, s) := if_pos (Nat.le_of_not_lt hrm)
    rw [hfa]
    exact iff_of_false (fun h => absurd h.success (show ¬ (0 : Int) < -1 by decide)) fun h => hrm h.1

/-- The shell has waited for its child: the slot is used again. -/
theorem spawn_reuses_iff_sample :
    Reuses (schedWaitPass sampleOrphan.table).2 (schedSpawn (schedWaitPass sampleOrphan.table).2 [] 0#32 0 (some 0x300000#32)).1
      (schedSpawn (schedWaitPass sampleOrphan.table).2 [] 0#32 0 (some 0x300000#32)).2 :=
  (spawn_reuses_iff 0#32 0#32 (fun _ => 0#8) 0x200010#32 0x100000#32
    [.spawn [] 0#32 0 (some 0x300000#32), .yield 0#32, .yield 0#32, .exitCode 7 0#32, .wait] _
    (run_perform (run_perform sampleChild_run (.exitCode 7 0#32) (show 2 ≠ idleIdx by decide)) .wait trivial)
    (by decide) [] 0#32 0 0x300000#32).2 (by decide)

/-- Fourteen tasks besides the shell and the idle task; the first one runs. -/
def sampleCrowd : List Op :=
  (List.range 14).map (fun k => .spawn [] 0#32 0 (some (BitVec.ofNat 32 (0x300000 + 0x1010 * k)))) ++ [.yield 0#32, .yield 0#32]

theorem sampleCrowd_run : Run Step sampleInit sampleCrowd (sampleCrowd.foldl perform sampleInit) := by
  refine run_foldl fun op hop s => ?_
  unfold sampleCrowd at hop
  simp only [List.mem_append, List.mem_map, List.mem_cons, List.not_mem_nil, or_false] at hop
  rcases hop with ⟨k, -, rfl⟩ | rfl | rfl
  · trivial
  · trivial
  · trivial

/-- One of sixteen tasks has exited and been waited for, and no task can be started any more. -/
theorem dead_slot_unused : ∃ ops s, Run Step sampleInit ops s ∧ (s.tasks 2).state = .dead ∧ 2 < s.taskCount ∧
    (schedSpawn s [] 0#32 0 (some 0x400000#32)).1 = -1 := by
  refine ⟨_, _, run_perform (run_perform sampleCrowd_run (.exitCode 0 0#32) ?_) (.waitpid 3) trivial, ?_, ?_, ?_⟩
  · show (sampleCrowd.foldl perform sampleInit).currentIdx ≠ idleIdx
    decide +kernel
  · decide +kernel
  · decide +kernel
  · decide +kernel

end KumOS.Sched
