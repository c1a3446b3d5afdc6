import KumOS.Sched.Runs

/-!
# The exit status and who waits for it

`sched_exit_code` leaves the code in the slot of the task, where a wait finds it
until `sched_spawn` takes the slot.  `sc_exit` gets the code from the user and
drops it: it calls `sched_exit`, which exits with 0.
-/

namespace KumOS.Sched

open Lib X86
open TaskTable (setState setTask_ne setTask_self)

variable {s : TaskTable} {code p : Int} {t : Task}
variable {pid : Int} {i : Nat} {t' : Task} {s' : TaskTable}

/-- `sc_exit(code)` -/
def scExit (s : TaskTable) (_code : Word) (saved : Word) : TaskTable := schedExit s saved

/-- A task that has exited, reaped or not. -/
def Task.Ended (t : Task) : Prop := t.state = .zombie ∨ t.state = .dead

/-! ## What `sched_get_task` finds -/

theorem schedGetTaskIdx_some (h : schedGetTaskIdx s pid = some i) :
    i < s.taskCount ∧ (s.tasks i).pid = pid ∧ (s.tasks i).state ≠ .dead := by
  have hi := List.mem_range.1 (List.mem_of_find?_eq_some h)
  have hp := List.find?_some h
  simp only [Bool.and_eq_true, decide_eq_true_eq, ne_eq] at hp
  exact ⟨hi, hp.1, hp.2⟩

theorem schedGetTaskIdx_found (hi : i < s.taskCount) (hp : (s.tasks i).pid = pid)
    (hst : (s.tasks i).state ≠ .dead) : ∃ j, schedGetTaskIdx s pid = some j := by
  cases hf : schedGetTaskIdx s pid with
  | some j => exact ⟨j, rfl⟩
  | none =>
    have := List.find?_eq_none.1 hf i (List.mem_range.2 hi)
    simp [hp, hst] at this

/-! ## What a switch leaves of a slot -/

/-- Apart from its stack pointer a slot changes from ready to running and back. -/
structure Kept (t t' : Task) : Prop where
  pid : t'.pid = t.pid
  parentPid : t'.parentPid = t.parentPid
  exitCode : t'.exitCode = t.exitCode
  stack : t'.stack = t.stack
  ended : t.Ended → t'.state = t.state
  live : ¬ t.Ended → ¬ t'.Ended

theorem Kept.refl (t : Task) : Kept t t := ⟨rfl, rfl, rfl, rfl, fun _ => rfl, id⟩

theorem Kept.trans {t'' : Task} (h : Kept t t') (h' : Kept t' t'') : Kept t t'' where
  pid := h'.pid.trans h.pid
  parentPid := h'.parentPid.trans h.parentPid
  exitCode := h'.exitCode.trans h.exitCode
  stack := h'.stack.trans h.stack
  ended := by
    intro he
    have h1 := h.ended he
    refine (h'.ended ?_).trans h1
    unfold Task.Ended
    rw [h1]
    exact he
  live := fun he => h'.live (h.live he)

theorem Kept.of_state (he : t' = { t with state := t'.state, esp := t'.esp }) (hlv : ¬ t.Ended)
    (hst : ¬ t'.Ended) : Kept t t' := by
  refine ⟨?_, ?_, ?_, ?_, fun h => absurd h hlv, fun _ => hst⟩ <;> rw [he]

theorem Woken.kept {s1 : TaskTable} (h : Woken s s1) (i : Nat) : Kept (s.tasks i) (s1.tasks i) := by
  rcases h.task i with h1 | ⟨hs, h1⟩
  · rw [h1]
    exact .refl _
  rw [h1]
  refine ⟨rfl, rfl, rfl, rfl, fun he => ?_, fun _ he => ?_⟩
  · unfold Task.Ended at he
    rw [hs] at he
    simp at he
  · unfold Task.Ended at he
    simp at he

theorem switchTo_kept {next : Nat} (hne : next ≠ s.currentIdx) (hr : ¬ (s.tasks next).Ended) (saved : Word)
    (i : Nat) : Kept (s.tasks i) ((switchTo s next saved).tasks i) := by
  have hnx := switchTo_next s saved hne
  have hpv := switchTo_prev s saved hne
  by_cases h1 : i = next
  · subst h1
    refine .of_state ?_ hr ?_
    · simp only [switchTo, setState]
      rw [setTask_ne _ _ _ _ hne, setTask_self, setTask_ne _ _ _ _ hne]
    · unfold Task.Ended
      rw [hnx]
      simp
  by_cases h2 : i = s.currentIdx
  · subst h2
    have hts : (switchTo s next saved).tasks s.currentIdx =
        { s.tasks s.currentIdx with state := ((switchTo s next saved).tasks s.currentIdx).state, esp := saved } := by
      simp only [switchTo, setState]
      rw [setTask_self, setTask_ne _ _ _ _ hne.symm, setTask_self]
    by_cases hrun : s.cur.state = .running
    · rw [if_pos hrun] at hpv
      have hrun : (s.tasks s.currentIdx).state = .running := hrun
      refine .of_state ?_ ?_ ?_
      · rw [hts]
      · unfold Task.Ended
        rw [hrun]
        simp
      · unfold Task.Ended
        rw [hpv]
        simp
    rw [if_neg hrun] at hpv
    have hst : ((switchTo s next saved).tasks s.currentIdx).state = (s.tasks s.currentIdx).state := hpv
    refine ⟨?_, ?_, ?_, ?_, fun _ => hst, fun hl he => hl ?_⟩
    · rw [hts]
    · rw [hts]
    · rw [hts]
    · rw [hts]
    · unfold Task.Ended at he ⊢
      rwa [hst] at he
  · have hts : (switchTo s next saved).tasks i = s.tasks i := by
      simp only [switchTo, setState]
      rw [setTask_ne _ _ _ _ h2, setTask_ne _ _ _ _ h1, setTask_ne _ _ _ _ h2]
    rw [hts]
    exact .refl _

theorem not_ended_of_runnable (h : runnable t = true) : ¬ t.Ended := by
  rintro (he | he)
  · rcases (runnable_iff t).1 h with hr | hr <;> rw [he] at hr <;> cases hr
  · rcases (runnable_iff t).1 h with hr | hr <;> rw [he] at hr <;> cases hr

theorem reschedule_kept (hb : Base s) (saved : Word) :
    (reschedule s saved).taskCount = s.taskCount ∧ ∀ i, Kept (s.tasks i) ((reschedule s saved).tasks i) := by
  obtain ⟨next, s1, hp, hw, -, hrun, -⟩ := pickNext_spec hb
  unfold reschedule
  rw [hp]
  simp only []
  split
  · exact ⟨hw.taskCount, hw.kept⟩
  · rename_i hne
    exact ⟨hw.taskCount, fun i => (hw.kept i).trans (switchTo_kept hne (not_ended_of_runnable hrun) saved i)⟩

theorem setCur_kept (h : Kept s.cur t) (i : Nat) : Kept (s.tasks i) ((s.setTask s.currentIdx t).tasks i) := by
  by_cases hi : i = s.currentIdx
  · subst hi
    rw [setTask_self]
    exact h
  · rw [setTask_ne _ _ _ _ hi]
    exact .refl _

theorem schedSleep_kept (h : Inv s) (hid : s.currentIdx ≠ idleIdx) (ms saved : Word) :
    (schedSleep s ms saved).taskCount = s.taskCount ∧ ∀ i, Kept (s.tasks i) ((schedSleep s ms saved).tasks i) := by
  have hb : Base (sleepTask s ms) := h.setCur _ rfl fun he => absurd he hid
  have hset : ∀ i, Kept (s.tasks i) ((sleepTask s ms).tasks i) := by
    refine setCur_kept ⟨rfl, rfl, rfl, rfl, fun he => ?_, fun _ he => ?_⟩
    · unfold Task.Ended at he
      rw [h.cur_running] at he
      simp at he
    · unfold Task.Ended at he
      simp at he
  obtain ⟨hc, hk⟩ := reschedule_kept hb saved
  exact ⟨hc, fun i => (hset i).trans (hk i)⟩

theorem countTick_kept (s : TaskTable) :
    (countTick s).taskCount = s.taskCount ∧ ∀ i, Kept (s.tasks i) ((countTick s).tasks i) := by
  have hset : ∀ i, Kept (s.tasks i) ((s.setTask s.currentIdx { s.cur with ticks := s.cur.ticks + 1#32 }).tasks i) :=
    setCur_kept ⟨rfl, rfl, rfl, rfl, fun _ => rfl, id⟩
  have hw := woken_wakeLoop (s.setTask s.currentIdx { s.cur with ticks := s.cur.ticks + 1#32 }).taskCount 0
    { s.setTask s.currentIdx { s.cur with ticks := s.cur.ticks + 1#32 } with tickAccum := s.tickAccum + 1#32 }
  exact ⟨hw.taskCount, fun i => (hset i).trans (hw.kept i)⟩

theorem schedTick_kept (h : Inv s) (saved : Word) :
    (schedTick s saved).taskCount = s.taskCount ∧ ∀ i, Kept (s.tasks i) ((schedTick s saved).tasks i) := by
  obtain ⟨hc, hk⟩ := countTick_kept s
  unfold schedTick
  simp only []
  split
  · obtain ⟨hc', hk'⟩ := reschedule_kept ((countTick_inv h).of_tickAccum 0#32) saved
    exact ⟨hc'.trans hc, fun i => (hk i).trans (hk' i)⟩
  · exact ⟨hc, hk⟩

/-! ## What a spawn does -/

/-- The slot of a new task. -/
structure NewTask (s : TaskTable) (stack : Word) (t : Task) : Prop where
  pid : t.pid = s.nextPid
  parentPid : t.parentPid = s.cur.pid
  state : t.state = .ready
  stack : t.stack = stack

/-- `sched_spawn` fails and leaves the table, or fills the slot it has found. -/
theorem schedSpawn_cases (s : TaskTable) (name : List UInt8) (entry : Word) (kumLevel : Int) (stack : Option Word) :
    schedSpawn s name entry kumLevel stack = (-1, s) ∨
      ∃ stk t mem, stack = some stk ∧ s.taskCount < schedMaxTasks ∧ NewTask s stk t ∧
        schedSpawn s name entry kumLevel stack = (s.nextPid, { s.setTask (findSlot s) t with
          nextPid := incInt s.nextPid, mem := mem
          taskCount := if s.taskCount ≤ findSlot s then findSlot s + 1 else s.taskCount }) := by
  unfold schedSpawn
  split
  · exact .inl rfl
  cases stack with
  | none => exact .inl rfl
  | some stk =>
    simp only []
    split
    · exact .inl rfl
    · exact .inr ⟨stk, _, _, rfl, by omega, ⟨rfl, rfl, rfl, rfl⟩, rfl⟩

/-! ## The code in the slot -/

/-- Whoever has the pid `p` has exited with `code`. -/
def ExitedWith (s : TaskTable) (p code : Int) : Prop :=
  ∀ i < s.taskCount, (s.tasks i).pid = p → (s.tasks i).Ended ∧ (s.tasks i).exitCode = code

/-- The current task has not exited, so it is not `p`. -/
theorem ExitedWith.cur_ne (h : Inv s) (he : ExitedWith s p code) : s.cur.pid ≠ p := by
  intro hp
  have hend := (he _ h.cur_lt hp).1
  have hrun : (s.tasks s.currentIdx).state = .running := h.cur_running
  unfold Task.Ended at hend
  rw [hrun] at hend
  simp at hend

section

variable (h : ExitedWith s p code)
include h

theorem ExitedWith.kept
    (hs : s'.taskCount = s.taskCount ∧ ∀ i, Kept (s.tasks i) (s'.tasks i)) : ExitedWith s' p code := by
  obtain ⟨hc, hk⟩ := hs
  intro i hi hp
  rw [hc] at hi
  rw [(hk i).pid] at hp
  obtain ⟨hend, hcode⟩ := h i hi hp
  refine ⟨?_, (hk i).exitCode.trans hcode⟩
  unfold Task.Ended
  rw [(hk i).ended hend]
  exact hend

theorem ExitedWith.setTask {j : Nat} (ht : t.pid ≠ p) : ExitedWith (s.setTask j t) p code := by
  intro i hi hp
  by_cases hij : i = j
  · rw [hij, setTask_self] at hp
    exact absurd hp ht
  · rw [setTask_ne _ _ _ _ hij] at hp ⊢
    exact h i hi hp

theorem ExitedWith.reap (j : Nat) : ExitedWith (s.setState j .dead) p code := by
  intro i hi hp
  by_cases hij : i = j
  · subst hij
    unfold setState at hp ⊢
    rw [setTask_self] at hp ⊢
    exact ⟨.inr rfl, (h i hi hp).2⟩
  · unfold setState at hp ⊢
    rw [setTask_ne _ _ _ _ hij] at hp ⊢
    exact h i hi hp

theorem ExitedWith.spawn (hb : Base s) (hp : p < s.nextPid) (name : List UInt8)
    (entry : Word) (kumLevel : Int) (stack : Option Word) :
    ExitedWith (schedSpawn s name entry kumLevel stack).2 p code := by
  rcases schedSpawn_cases s name entry kumLevel stack with he | ⟨stk, t, mem, -, hrm, ht, he⟩
  · rw [he]
    exact h
  rw [he]
  obtain ⟨hsl, -⟩ := findSlot_spec hb hrm
  intro i hi hpi
  have hi : i < if s.taskCount ≤ findSlot s then findSlot s + 1 else s.taskCount := hi
  by_cases his : i = findSlot s
  · rw [his, setTask_self, ht.pid] at hpi
    omega
  · rw [setTask_ne _ _ _ _ his] at hpi ⊢
    exact h i (by split at hi <;> omega) hpi

end

theorem ExitedWith.perform (hinv : Inv s) (h : ExitedWith s p code) (hp : p < s.nextPid) {op : Op}
    (ha : Allowed s op) : ExitedWith (perform s op) p code := by
  have hne := h.cur_ne hinv
  cases op with
  | spawn name entry kumLevel stack => exact h.spawn hinv.toBase hp name entry kumLevel stack
  | yield saved => exact h.kept (reschedule_kept hinv.toBase saved)
  | sleep ms saved => exact h.kept (schedSleep_kept hinv ha ms saved)
  | exitCode c saved =>
    have hb : Base (exitTask s c) := hinv.setCur _ rfl fun he => absurd he ha
    have hset : ExitedWith (exitTask s c) p code := h.setTask hne
    exact hset.kept (reschedule_kept hb saved)
  | tick saved => exact h.kept (schedTick_kept hinv saved)
  | timer => exact h
  | waitpid q =>
    show ExitedWith (schedWaitpidPass s q).2 p code
    unfold schedWaitpidPass
    split
    · split
      · exact h.reap _
      · exact h
    · exact h
  | wait =>
    show ExitedWith (schedWaitPass s).2 p code
    unfold schedWaitPass
    simp only []
    split
    · exact h.reap _
    · split <;> exact h

/-- `sched_exit_code` leaves its code. -/
theorem exitedWith_exit (h : Inv s) (hid : s.currentIdx ≠ idleIdx) (code : Int) (saved : Word) :
    ExitedWith (schedExitCode s code saved) s.cur.pid code := by
  have hb : Base (exitTask s code) := h.setCur _ rfl fun he => absurd he hid
  refine ExitedWith.kept ?_ (reschedule_kept hb saved)
  intro i hi hp
  by_cases hij : i = s.currentIdx
  · subst hij
    unfold exitTask
    rw [setTask_self]
    refine ⟨?_, rfl⟩
    split
    · exact .inl rfl
    · exact .inr rfl
  · have hts : (exitTask s code).tasks i = s.tasks i := setTask_ne _ _ _ _ hij
    rw [hts] at hp
    exact absurd (h.pid_inj i hi _ h.cur_lt hp) hij

/-! ## The wait -/

/-- The first pass of `sched_waitpid` returns: the code, or 0 when the slot has been taken. -/
theorem ExitedWith.waitpid (h : ExitedWith s p code) :
    (schedWaitpidPass s p).1 = some (if ∃ i < s.taskCount, (s.tasks i).pid = p then code else 0) := by
  unfold schedWaitpidPass
  cases hf : (List.range s.taskCount).find? fun i => (s.tasks i).pid = p with
  | none =>
    have hno : ¬ ∃ i < s.taskCount, (s.tasks i).pid = p := by
      rintro ⟨i, hi, hp⟩
      have := List.find?_eq_none.1 hf i (List.mem_range.2 hi)
      simp [hp] at this
    rw [if_neg hno]
  | some i =>
    have hp := List.find?_some hf
    rw [decide_eq_true_eq] at hp
    have hi := List.mem_range.1 (List.mem_of_find?_eq_some hf)
    obtain ⟨hend, hcode⟩ := h i hi hp
    have hend : (s.tasks i).state = .zombie ∨ (s.tasks i).state = .dead := hend
    simp only [if_pos hend, hcode]
    rw [if_pos ⟨i, hi, hp⟩]

/-- What `sched_wait` reports for `p`. -/
theorem ExitedWith.wait {r : Int} (h : ExitedWith s p code) (hw : (schedWaitPass s).1 = some (p, some r)) :
    r = code := by
  unfold schedWaitPass at hw
  simp only [] at hw
  split at hw
  · rename_i i hf
    have hi := List.mem_range.1 (List.mem_of_find?_eq_some hf)
    simp only [Option.some.injEq, Prod.mk.injEq] at hw
    exact hw.2.symm.trans (h i hi hw.1).2
  · split at hw
    · cases hw
    · cases hw

/-- Over a run of the others' operations, while pids are not given out again. -/
theorem ExitedWith.run {ops : List Op} (hinv : Inv s) (hpos : 0 < s.nextPid) (h : ExitedWith s p code)
    (hp : p < s.nextPid) (hrun : Run Step s ops s') (hn : s.nextPid + spawns ops < 2 ^ 31) :
    ExitedWith s' p code := by
  refine (run_rule (P := fun s1 => ExitedWith s1 p code) hinv hpos hrun hn h ?_).2.2.2
  intro s1 op hinv1 hlo ha h1
  exact h1.perform hinv1 (by omega) ha

/-- The code given to `SYS_EXIT` is reported to whoever waits exactly if it is 0. -/
theorem exit_status_iff (tickCount tssEsp0 : Word) (mem : Ram) (idleStack idleTask : Word) (before : List Op) (s : TaskTable)
    (hbefore : Run Step (schedInit (atBoot tickCount tssEsp0 mem) (some idleStack) idleTask) before s)
    (hidle : s.currentIdx ≠ idleIdx) (code saved : Word) (ops : List Op) (s' : TaskTable)
    (hrun : Run Step (scExit s code saved) ops s') (hn : spawns before + spawns ops < 2 ^ 31 - 3) :
    ((schedWaitpidPass s' s.cur.pid).1 = some code.toInt ↔ code = 0#32) ∧
      ∀ r, (schedWaitPass s').1 = some (s.cur.pid, some r) → (r = code.toInt ↔ code = 0#32) := by
  obtain ⟨hinv, hlo, hhi⟩ := run_inv (schedInit_inv ..) (schedInit_nextPid ..) hbefore (by omega)
  have hnx : (scExit s code saved).nextPid = s.nextPid := reschedule_nextPid _ saved
  have hexit : ExitedWith (scExit s code saved) s.cur.pid 0 := exitedWith_exit hinv hidle 0 saved
  have hinv' : Inv (scExit s code saved) := schedExitCode_inv hinv hidle 0 saved
  have h := hexit.run hinv' (by rw [hnx]; omega)
    (by rw [hnx]; exact hinv.pid_lt _ hinv.cur_lt) hrun (by rw [hnx]; omega)
  have hze : (0 : Int) = code.toInt ↔ code = 0#32 := by
    rw [← BitVec.toInt_inj, eq_comm]
    rfl
  constructor
  · rw [h.waitpid, ite_self, Option.some.injEq]
    exact hze
  · intro r hr
    rw [h.wait hr]
    exact hze

/-- **What has exited stays so.**  Whatever the others do, the task is not run again, and a wait gives its code as long
as no other task has the slot. -/
theorem exited_for_good {tickCount tssEsp0 : Word} {mem : Ram} {idleStack idleTask : Word} {before ops : List Op}
    {s s' : TaskTable} (hbefore : Run Step (schedInit (atBoot tickCount tssEsp0 mem) (some idleStack) idleTask) before s)
    (hidle : s.currentIdx ≠ idleIdx) (code : Int) (saved : Word) (hrun : Run Step (schedExitCode s code saved) ops s')
    (hn : spawns before + spawns ops < 2 ^ 31 - 3) :
    s'.cur.pid ≠ s.cur.pid ∧ ExitedWith s' s.cur.pid code ∧
      (schedWaitpidPass s' s.cur.pid).1 =
        some (if ∃ i < s'.taskCount, (s'.tasks i).pid = s.cur.pid then code else 0) ∧
      ∀ r, (schedWaitPass s').1 = some (s.cur.pid, some r) → r = code := by
  obtain ⟨hinv, hlo, hhi⟩ := run_inv (schedInit_inv ..) (schedInit_nextPid ..) hbefore (by omega)
  have hnx : (schedExitCode s code saved).nextPid = s.nextPid := reschedule_nextPid _ saved
  have hlt : s.cur.pid < s.nextPid := hinv.pid_lt _ hinv.cur_lt
  obtain ⟨hinv', -, -, h⟩ := run_rule (P := fun s1 => ExitedWith s1 s.cur.pid code)
    (schedExitCode_inv hinv hidle code saved) (by omega) hrun (by omega) (exitedWith_exit hinv hidle code saved)
    fun s1 op h1 hpid ha he => he.perform h1 (by omega) ha
  exact ⟨h.cur_ne hinv', h, h.waitpid, fun r => h.wait⟩

/-- The shell has started a child, which is running. -/
def sampleChild : TaskTable :=
  schedYield (schedYield (schedSpawn sampleInit [] 0#32 0 (some 0x300000#32)).2 0#32) 0#32

theorem sampleChild_run : Run Step sampleInit [.spawn [] 0#32 0 (some 0x300000#32), .yield 0#32, .yield 0#32] sampleChild :=
  run_perform (run_perform (run_perform .nil (.spawn [] 0#32 0 (some 0x300000#32)) trivial) (.yield 0#32) trivial)
    (.yield 0#32) trivial

theorem sampleChild_trio : Trio sampleChild 2 .ready .ready .running 4 :=
  ((sampleInit_shell.spawn [] 0#32 0 0x300000#32).toIdle 0#32).toChild 0#32

theorem exit_status_iff_zero : (schedWaitpidPass (scExit sampleChild 0#32 0#32) sampleChild.cur.pid).1 = some 0 := by
  have hid : sampleChild.currentIdx ≠ idleIdx := by
    decide
  exact (exit_status_iff 0#32 0#32 _ 0x200010#32 0x100000#32 _ sampleChild sampleChild_run hid 0#32 0#32 [] _ .nil
    (by decide)).1.2 rfl

theorem exited_for_good_seven : (schedWaitpidPass (schedExitCode sampleChild 7 0#32) 3).1 = some 7 :=
  (exited_for_good sampleChild_run (by decide) 7 0#32 .nil (by decide)).2.2.1

/-- The child exits with 7 while the shell is alive, and the shell's `waitpid` gives 0. -/
theorem exit_status_lost : (sampleChild.tasks 0).pid = sampleChild.cur.parentPid ∧ (sampleChild.tasks 0).state = .ready ∧
    (schedWaitpidPass (scExit sampleChild 7#32 0#32) sampleChild.cur.pid).1 = some 0 := by
  refine ⟨rfl, sampleChild_trio.shell_state, ?_⟩
  rfl

end KumOS.Sched
