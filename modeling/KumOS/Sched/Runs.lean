import KumOS.Sched.Invariant

/-!
# Runs of the scheduler

The invariant holds after `sched_init`, every operation keeps it, and `next_pid`
counts the spawns from 3 on: the table is in order as long as that counter is
below `2^31`.  `pids_overflow` is a run that reaches the limit.
-/

namespace KumOS.Sched

open Lib X86
open TaskTable (setTask setTask_ne setTask_self)

variable {s s0 : TaskTable} {k : Int} {ops : List Op}

/-! ## `next_pid` -/

theorem pickLoop_woken (n : Nat) : ∀ (i : Nat) (s : TaskTable), Woken s (pickLoop n i s).2 := by
  induction n with
  | zero => intro i s; exact Woken.refl s
  | succ n ih =>
    intro i s
    unfold pickLoop
    simp only []
    split
    · exact woken_wake s i
    · exact (woken_wake s i).trans (ih _ _)

theorem pickNext_woken (s : TaskTable) : ∃ s1 fell, Woken s s1 ∧ (pickNext s).2 = { s1 with fellBack := fell } := by
  have hw := pickLoop_woken s.taskCount ((s.currentIdx + 1) % s.taskCount) s
  unfold pickNext
  split
  · rename_i i s1 heq
    rw [heq] at hw
    exact ⟨s1, s1.fellBack, hw, rfl⟩
  · rename_i s1 heq
    rw [heq] at hw
    exact ⟨s1, true, hw, rfl⟩

section

variable {β : Type} {g : TaskTable → β}

/-- A value that does not depend on the tasks, on who runs, and on `tick_accum`. -/
def Global (g : TaskTable → β) : Prop := ∀ (s : TaskTable) tasks cur tss acc fell,
  g { s with tasks := tasks, currentIdx := cur, tssEsp0 := tss, tickAccum := acc, fellBack := fell } = g s

theorem Woken.global (hg : Global g) {s1 : TaskTable} (h : Woken s s1) : g s1 = g s := by
  obtain ⟨f, rfl, -⟩ := h
  exact hg s f s.currentIdx s.tssEsp0 s.tickAccum s.fellBack

theorem reschedule_global (hg : Global g) (s : TaskTable) (saved : Word) : g (reschedule s saved) = g s := by
  obtain ⟨s1, fell, hw, hpick⟩ := pickNext_woken s
  have hpicked : g (pickNext s).2 = g s := by
    rw [hpick]
    exact (hg s1 s1.tasks s1.currentIdx s1.tssEsp0 s1.tickAccum fell).trans (hw.global hg)
  unfold reschedule
  dsimp only
  split
  · exact hpicked
  · exact (hg (pickNext s).2 _ _ _ (pickNext s).2.tickAccum (pickNext s).2.fellBack).trans hpicked

theorem countTick_global (hg : Global g) (s : TaskTable) : g (countTick s) = g s := by
  unfold countTick
  rw [(woken_wakeLoop _ _ _).global hg]
  exact hg s _ s.currentIdx s.tssEsp0 _ s.fellBack

theorem schedTick_global (hg : Global g) (s : TaskTable) (saved : Word) : g (schedTick s saved) = g s := by
  unfold schedTick
  dsimp only
  split
  · rw [reschedule_global hg]
    exact (hg (countTick s) _ _ _ 0#32 _).trans (countTick_global hg s)
  · exact countTick_global hg s

end

theorem reschedule_nextPid (s : TaskTable) (saved : Word) : (reschedule s saved).nextPid = s.nextPid :=
  reschedule_global (g := TaskTable.nextPid) (fun _ _ _ _ _ _ => rfl) s saved

theorem schedTick_nextPid (s : TaskTable) (saved : Word) : (schedTick s saved).nextPid = s.nextPid :=
  schedTick_global (g := TaskTable.nextPid) (fun _ _ _ _ _ _ => rfl) s saved

def Op.isSpawn : Op → Bool
  | .spawn .. => true
  | _ => false

/-- The number of `sched_spawn` calls. -/
def spawns (ops : List Op) : Nat := ops.countP Op.isSpawn

theorem perform_nextPid (s : TaskTable) (op : Op) : (perform s op).nextPid = s.nextPid ∨
    op.isSpawn = true ∧ (perform s op).nextPid = incInt s.nextPid := by
  cases op with
  | spawn name entry kumLevel stack =>
    exact (schedSpawn_nextPid s name entry kumLevel stack).imp id fun h => ⟨rfl, h⟩
  | yield saved => exact .inl (reschedule_nextPid s saved)
  | sleep ms saved | exitCode code saved => exact .inl (reschedule_nextPid _ saved)
  | tick saved => exact .inl (schedTick_nextPid s saved)
  | timer => exact .inl rfl
  | waitpid pid =>
    left
    show (schedWaitpidPass s pid).2.nextPid = s.nextPid
    unfold schedWaitpidPass
    split
    · split <;> rfl
    · rfl
  | wait =>
    left
    show (schedWaitPass s).2.nextPid = s.nextPid
    unfold schedWaitPass
    simp only []
    split
    · rfl
    · split <;> rfl

/-! ## Every run -/

theorem schedInit_inv (tickCount tssEsp0 : Word) (mem : Ram) (idleStack idleTask : Word) :
    Inv (schedInit (atBoot tickCount tssEsp0 mem) (some idleStack) idleTask) := by
  have h0 : incInt 1 = 2 := by decide
  have h1 : incInt 2 = 3 := by decide
  simp only [schedInit, atBoot, setTask, h0, h1]
  refine ⟨⟨?_, ?_, ?_, ?_, ?_, ?_, ?_, ?_, rfl, ?_, ?_⟩, rfl⟩ <;>
    simp only [schedMaxTasks, idleIdx] at *
  · omega
  · omega
  · omega
  · exact .inl rfl
  · intro i hi
    obtain rfl | rfl : i = 0 ∨ i = 1 := by omega
    all_goals simp
  · intro i hi j hj
    obtain rfl | rfl : i = 0 ∨ i = 1 := by omega
    all_goals obtain rfl | rfl : j = 0 ∨ j = 1 := by omega
    all_goals simp
  · intro i hi
    obtain rfl | rfl : i = 0 ∨ i = 1 := by omega
    all_goals simp
  · intro i hi _
    rw [Function.update_of_ne (by omega), Function.update_of_ne (by omega)]
    rfl
  · intro i hi hi'
    obtain rfl : i = 1 := by omega
    simp
  · intro h
    cases h

theorem schedInit_nextPid (tickCount tssEsp0 : Word) (mem : Ram) (idleStack idleTask : Word) :
    (schedInit (atBoot tickCount tssEsp0 mem) (some idleStack) idleTask).nextPid = 3 := rfl

theorem run_perform (h : Run Step s0 ops s) (op : Op) (ha : Allowed s op) :
    Run Step s0 (ops ++ [op]) (perform s op) := .snoc h ⟨ha, rfl⟩

theorem run_foldl (h : ∀ op ∈ ops, ∀ s, Allowed s op) : Run Step s ops (ops.foldl perform s) := by
  induction ops generalizing s with
  | nil => exact .nil
  | cons op ops ih =>
    have hop : Run Step s [op] (perform s op) := .single ⟨h op List.mem_cons_self s, rfl⟩
    exact hop.append (ih fun op' hop' => h op' (List.mem_cons_of_mem _ hop'))

/-- One step keeps the invariant while the pid counter has room. -/
theorem perform_inv (h : Inv s) (hpos : 0 < s.nextPid) {op : Op} (ha : Allowed s op)
    (hmax : op.isSpawn = true → s.nextPid < 2 ^ 31 - 1) : Inv (perform s op) := by
  cases op with
  | spawn name entry kumLevel stack => exact schedSpawn_inv h hpos (hmax rfl) name entry kumLevel stack
  | yield saved => exact schedYield_inv h.toBase saved
  | sleep ms saved => exact schedYield_inv (Base.setCur h.toBase _ (by rfl) fun he => absurd he ha) saved
  | exitCode code saved => exact schedExitCode_inv h ha code saved
  | tick saved => exact schedTick_inv h saved
  | timer => exact h.congr ⟨rfl, rfl, rfl, rfl, fun _ => rfl, fun _ => rfl⟩
  | waitpid pid => exact schedWaitpidPass_inv h pid
  | wait => exact schedWaitPass_inv h

/-- The rule for runs of a system with a task table in it: what every step keeps while the table is in order and the
pid counter has room. -/
theorem run_rule_over {S : Type} {step : S → Op → S → Prop} (table : S → TaskTable)
    (htb : ∀ h1 op h2, step h1 op h2 → Step (table h1) op (table h2)) {P : S → Prop} {h0 h : S}
    (hinv0 : Inv (table h0)) (hpos : 0 < (table h0).nextPid) (hrun : Run step h0 ops h)
    (hn : (table h0).nextPid + spawns ops < 2 ^ 31) (hP : P h0)
    (hsp : ∀ h1 op h2, Inv (table h1) → (table h0).nextPid ≤ (table h1).nextPid →
      (op.isSpawn = true → (table h1).nextPid < 2 ^ 31 - 1) → step h1 op h2 → P h1 → P h2) :
    Inv (table h) ∧ (table h0).nextPid ≤ (table h).nextPid ∧ (table h).nextPid ≤ (table h0).nextPid + spawns ops ∧ P h := by
  refine Run.invariant_hist (fun ops h => (table h0).nextPid + spawns ops < 2 ^ 31 → Inv (table h) ∧
    (table h0).nextPid ≤ (table h).nextPid ∧ (table h).nextPid ≤ (table h0).nextPid + spawns ops ∧ P h) ?_ ?_ hrun hn
  · intro _
    exact ⟨hinv0, Int.le_refl _, by omega, hP⟩
  · intro done h1 op h2 ih hs hn
    have hct : spawns (done ++ [op]) = spawns done + if op.isSpawn = true then 1 else 0 := by
      simp [spawns, List.countP_append, List.countP_cons]
    rw [hct] at hn ⊢
    obtain ⟨hinv, hlo, hhi, hP1⟩ := ih (by omega)
    have hmax : op.isSpawn = true → (table h1).nextPid < 2 ^ 31 - 1 := by
      intro hop
      rw [if_pos hop] at hn
      omega
    have hP2 := hsp h1 op h2 hinv hlo hmax hs hP1
    obtain ⟨ha, he2⟩ := htb h1 op h2 hs
    rw [he2]
    refine ⟨perform_inv hinv (by omega) ha hmax, ?_⟩
    rcases perform_nextPid (table h1) op with he | ⟨hop, he⟩
    · rw [he]
      exact ⟨hlo, by omega, hP2⟩
    · rw [he, incInt_eq (by omega) (hmax hop), if_pos hop]
      exact ⟨by omega, by omega, hP2⟩

/-- The rule for runs: what every operation keeps on a table in order, while the pid counter has room. -/
theorem run_rule {P : TaskTable → Prop} (h0 : Inv s0) (hpos : 0 < s0.nextPid) (hrun : Run Step s0 ops s)
    (hn : s0.nextPid + spawns ops < 2 ^ 31) (hP : P s0)
    (hsp : ∀ s1 op, Inv s1 → s0.nextPid ≤ s1.nextPid → Allowed s1 op → P s1 → P (perform s1 op)) :
    Inv s ∧ s0.nextPid ≤ s.nextPid ∧ s.nextPid ≤ s0.nextPid + spawns ops ∧ P s := by
  refine run_rule_over id (fun _ _ _ h => h) h0 hpos hrun hn hP ?_
  rintro s1 op s2 hinv hlo - ⟨ha, rfl⟩ h1
  exact hsp s1 op hinv hlo ha h1

/-- The invariant together with the count of pids given out. -/
theorem run_inv (h0 : Inv s0) (hpid : s0.nextPid = 3) (hrun : Run Step s0 ops s) (hn : spawns ops < 2 ^ 31 - 3) :
    Inv s ∧ 3 ≤ s.nextPid ∧ s.nextPid ≤ 3 + spawns ops := by
  obtain ⟨hinv, hlo, hhi, -⟩ := run_rule (P := fun _ => True) h0 (by omega) hrun (by omega) trivial
    fun _ _ _ _ _ _ => trivial
  rw [hpid] at hlo hhi
  exact ⟨hinv, hlo, hhi⟩

theorem tableOk_of_run (tickCount tssEsp0 : Word) (mem : Ram) (idleStack idleTask : Word) (ops : List Op)
    (s : TaskTable) (hrun : Run Step (schedInit (atBoot tickCount tssEsp0 mem) (some idleStack) idleTask) ops s)
    (hn : spawns ops < 2 ^ 31 - 3) : TableOk s :=
  (run_inv (schedInit_inv ..) (schedInit_nextPid ..) hrun hn).1.tableOk

/-- The scheduler as `sched_init` leaves it, with a stack at `0x200010` for the idle task. -/
def sampleInit : TaskTable := schedInit (atBoot 0#32 0#32 fun _ => 0#8) (some 0x200010#32) 0x100000#32

theorem tableOk_of_run_sleep : Run Step sampleInit [.sleep 50#32 0x9000#32]
      (schedSleep sampleInit 50#32 0x9000#32) ∧ TableOk (schedSleep sampleInit 50#32 0x9000#32) := by
  have hrun : Run Step sampleInit [.sleep 50#32 0x9000#32] (schedSleep sampleInit 50#32 0x9000#32) :=
    .single ⟨Nat.zero_ne_one, rfl⟩
  exact ⟨hrun, tableOk_of_run _ _ _ _ _ _ _ hrun (by decide)⟩

/-! ## The pid limit -/

/-- Three slots in use, the shell in slot 0, the idle task in slot 1 and a child
in slot 2; the shell and the idle task have their pids from `sched_init`. -/
structure Trio (s : TaskTable) (cur : Nat) (shell idle child : TaskState) (nextPid : Int) : Prop where
  currentIdx : s.currentIdx = cur
  taskCount : s.taskCount = 3
  shell_state : (s.tasks 0).state = shell
  idle_state : (s.tasks 1).state = idle
  child_state : (s.tasks 2).state = child
  shell_pid : (s.tasks 0).pid = 1
  idle_pid : (s.tasks 1).pid = 2
  nextPid : s.nextPid = nextPid

theorem wake_runnable (now : Word) (t : Task) (h : runnable t = true) : wake now t = t := by
  unfold wake
  rw [if_neg]
  rintro ⟨hs, -⟩
  rcases (runnable_iff t).1 h with h | h <;> rw [h] at hs <;> cases hs

/-- A switch to the next slot, when the task in it can run. -/
theorem reschedule_succ {j : Nat} (htc : 0 < s.taskCount) (hj : (s.currentIdx + 1) % s.taskCount = j)
    (hr : runnable (s.tasks j) = true) (hne : j ≠ s.currentIdx) (saved : Word) :
    reschedule s saved = switchTo s j saved := by
  obtain ⟨n, hn⟩ := Nat.exists_eq_succ_of_ne_zero (Nat.ne_of_gt htc)
  have hsm : s.setTask j (s.tasks j) = s := by
    unfold setTask
    rw [Function.update_eq_self]
  have hpick : pickLoop s.taskCount j s = (some j, s) := by
    rw [hn, pickLoop]
    simp only [wake_runnable _ _ hr, hsm, hr, if_true]
  have hnx : pickNext s = (j, s) := by
    unfold pickNext
    rw [hj, hpick]
  unfold reschedule
  rw [hnx]
  exact if_neg hne

theorem Trio.toIdle {c : TaskState} (h : Trio s 0 .running .ready c k) (saved : Word) :
    Trio (schedYield s saved) 1 .ready .running c k := by
  have hcur := h.currentIdx
  have hne : 1 ≠ s.currentIdx := by omega
  have hsw : schedYield s saved = switchTo s 1 saved :=
    reschedule_succ (by rw [h.taskCount]; omega) (by rw [hcur, h.taskCount])
      ((runnable_iff _).2 (.inl h.idle_state)) hne saved
  have hp := switchTo_prev s saved hne
  rw [TaskTable.cur, hcur, h.shell_state] at hp
  rw [hsw]
  exact ⟨rfl, h.taskCount, hp, switchTo_next s saved hne,
    (switchTo_other s 1 saved 2 (by omega) (by omega)).trans h.child_state,
    (switchTo_pid s 1 saved 0).trans h.shell_pid, (switchTo_pid s 1 saved 1).trans h.idle_pid, h.nextPid⟩

theorem Trio.toChild (h : Trio s 1 .ready .running .ready k) (saved : Word) :
    Trio (schedYield s saved) 2 .ready .ready .running k := by
  have hcur := h.currentIdx
  have hne : 2 ≠ s.currentIdx := by omega
  have hsw : schedYield s saved = switchTo s 2 saved :=
    reschedule_succ (by rw [h.taskCount]; omega) (by rw [hcur, h.taskCount])
      ((runnable_iff _).2 (.inl h.child_state)) hne saved
  have hp := switchTo_prev s saved hne
  rw [TaskTable.cur, hcur, h.idle_state] at hp
  rw [hsw]
  exact ⟨rfl, h.taskCount, (switchTo_other s 2 saved 0 (by omega) (by omega)).trans h.shell_state, hp,
    switchTo_next s saved hne, (switchTo_pid s 2 saved 0).trans h.shell_pid,
    (switchTo_pid s 2 saved 1).trans h.idle_pid, h.nextPid⟩

theorem Trio.childExits (h : Trio s 2 .ready .ready .running k) (code : Int) (saved : Word) :
    ∃ c, (c = .dead ∨ c = .zombie) ∧ Trio (schedExitCode s code saved) 0 .running .ready c k := by
  have hcur := h.currentIdx
  obtain ⟨c, hc, he⟩ : ∃ c, (c = .dead ∨ c = .zombie) ∧ exitTask s code =
      s.setTask 2 { s.tasks 2 with exitCode := code, state := c, stack := 0#32 } := by
    refine ⟨_, ?_, by rw [exitTask, TaskTable.cur, hcur]⟩
    split
    · exact .inr rfl
    · exact .inl rfl
  have h0 : (exitTask s code).tasks 0 = s.tasks 0 := by rw [he]; exact setTask_ne _ _ _ _ (by omega)
  have h1 : (exitTask s code).tasks 1 = s.tasks 1 := by rw [he]; exact setTask_ne _ _ _ _ (by omega)
  have h2 : ((exitTask s code).tasks 2).state = c := by rw [he, setTask_self]
  have hcur' : (exitTask s code).currentIdx = 2 := hcur
  have htc : (exitTask s code).taskCount = 3 := h.taskCount
  have hnp : (exitTask s code).nextPid = k := h.nextPid
  have hne : 0 ≠ (exitTask s code).currentIdx := by omega
  have hsw : schedExitCode s code saved = switchTo (exitTask s code) 0 saved :=
    reschedule_succ (by omega) (by rw [hcur', htc])
      ((runnable_iff _).2 (.inl (by rw [h0, h.shell_state]))) hne saved
  have hp := switchTo_prev (exitTask s code) saved hne
  rw [TaskTable.cur, hcur', h2, if_neg (by rcases hc with rfl | rfl <;> simp)] at hp
  rw [hsw]
  refine ⟨c, hc, rfl, htc, switchTo_next _ saved hne, ?_, hp, ?_, ?_, hnp⟩
  · rw [switchTo_other _ 0 saved 1 (by omega) (by omega), h1]
    exact h.idle_state
  · rw [switchTo_pid, h0]
    exact h.shell_pid
  · rw [switchTo_pid, h1]
    exact h.idle_pid

/-- The shell is running and slot 2 is the first one free. -/
structure Shell (s : TaskTable) (nextPid : Int) : Prop where
  currentIdx : s.currentIdx = 0
  taskCount : s.taskCount = 2 ∨ s.taskCount = 3
  shell_state : (s.tasks 0).state = .running
  idle_state : (s.tasks 1).state = .ready
  free : reusable (s.tasks 2) = true
  shell_pid : (s.tasks 0).pid = 1
  idle_pid : (s.tasks 1).pid = 2
  nextPid : s.nextPid = nextPid

theorem Trio.shell {c : TaskState} (h : Trio s 0 .running .ready c k) (hc : c = .dead ∨ c = .zombie) :
    Shell s k where
  currentIdx := h.currentIdx
  taskCount := .inr h.taskCount
  shell_state := h.shell_state
  idle_state := h.idle_state
  free := (reusable_iff _).2 (by rw [h.child_state]; exact hc.imp id .inl)
  shell_pid := h.shell_pid
  idle_pid := h.idle_pid
  nextPid := h.nextPid

theorem Shell.spawn (h : Shell s k) (name : List UInt8) (entry : Word) (kumLevel : Int) (stack : Word) :
    Trio (schedSpawn s name entry kumLevel (some stack)).2 0 .running .ready .ready (incInt k) := by
  have hfr : ∀ i < 2, reusable (s.tasks i) = false := by
    intro i hi
    rw [Bool.eq_false_iff, Ne, reusable_iff]
    obtain rfl | rfl : i = 0 ∨ i = 1 := by omega
    · rw [h.shell_state, h.shell_pid]
      simp
    · rw [h.idle_state, h.idle_pid]
      simp
  have hsl : findSlot s = 2 := by
    unfold findSlot
    rw [List.find?_range_eq_some.2 ⟨h.free, by decide, fun j hj => by rw [hfr j hj]; rfl⟩]
    rfl
  have hrm : ¬ schedMaxTasks ≤ s.taskCount := by
    unfold schedMaxTasks
    have := h.taskCount
    omega
  unfold schedSpawn
  rw [if_neg hrm]
  simp only [hsl]
  rw [if_neg (by decide)]
  have h0 : ∀ t, (s.setTask 2 t).tasks 0 = s.tasks 0 := fun t => setTask_ne _ _ _ _ (by omega)
  have h1 : ∀ t, (s.setTask 2 t).tasks 1 = s.tasks 1 := fun t => setTask_ne _ _ _ _ (by omega)
  refine ⟨h.currentIdx, ?_, ?_, ?_, ?_, ?_, ?_, congrArg incInt h.nextPid⟩
  · show (if s.taskCount ≤ 2 then 2 + 1 else s.taskCount) = 3
    have := h.taskCount
    split <;> omega
  · simp only [h0, h.shell_state]
  · simp only [h1, h.idle_state]
  · simp only [setTask_self]
  · simp only [h0, h.shell_pid]
  · simp only [h1, h.idle_pid]

/-- The shell starts a child, both it and the idle task give way to the child,
and the child exits. -/
def childCycle : List Op :=
  [.spawn [] 0#32 0 (some 0x300000#32), .yield 0#32, .yield 0#32, .exitCode 0 0#32]

theorem Shell.cycle (h : Shell s k) : ∃ s', Run Step s childCycle s' ∧ Shell s' (incInt k) := by
  have h1 := h.spawn [] 0#32 0 0x300000#32
  have h2 := h1.toIdle 0#32
  have h3 := h2.toChild 0#32
  obtain ⟨c, hc, h4⟩ := h3.childExits 0 0#32
  have hrun := run_perform (run_perform (run_perform (.nil (s := s)) (.spawn [] 0#32 0 (some 0x300000#32)) trivial)
    (.yield 0#32) trivial) (.yield 0#32) trivial
  have hallow : Allowed (schedYield (schedYield (schedSpawn s [] 0#32 0 (some 0x300000#32)).2 0#32) 0#32)
      (.exitCode 0 0#32) := by
    show (schedYield _ _).currentIdx ≠ idleIdx
    rw [h3.currentIdx]
    decide
  exact ⟨_, run_perform hrun (.exitCode 0 0#32) hallow, h4.shell hc⟩

theorem Shell.cycles (n : Nat) (h : Shell s 3) (hn : n < 2 ^ 31 - 3) :
    ∃ ops s', Run Step s ops s' ∧ spawns ops = n ∧ Shell s' (3 + n) := by
  induction n with
  | zero => exact ⟨[], s, .nil, rfl, h⟩
  | succ n ih =>
    obtain ⟨ops, s1, hrun, hct, h1⟩ := ih (by omega)
    obtain ⟨s2, hrun2, h2⟩ := h1.cycle
    refine ⟨ops ++ childCycle, s2, hrun.append hrun2, ?_, ?_⟩
    · rw [spawns, List.countP_append]
      exact congrArg (· + 1) hct
    · rw [incInt_eq (by omega) (by omega)] at h2
      rwa [Int.natCast_add, ← Int.add_assoc]

theorem sampleInit_shell : Shell sampleInit 3 :=
  ⟨rfl, .inl rfl, rfl, rfl, rfl, rfl, rfl, rfl⟩

/-- `2^31 - 3` spawns take `next_pid` to the end of the `int` range. -/
theorem pids_overflow : ∃ ops s, Run Step sampleInit ops s ∧ spawns ops < 2 ^ 31 ∧ ¬ TableOk s := by
  obtain ⟨ops, s, hrun, hct, h⟩ := sampleInit_shell.cycles (2 ^ 31 - 4) (by omega)
  have h1 := h.spawn [] 0#32 0 0x300000#32
  refine ⟨_, _, run_perform hrun (.spawn [] 0#32 0 (some 0x300000#32)) trivial, ?_, ?_⟩
  · rw [spawns, List.countP_append]
    have : spawns ops + 1 < 2 ^ 31 := by omega
    exact this
  · intro (hok : TableOk (schedSpawn s [] 0#32 0 (some 0x300000#32)).2)
    have hlt := hok.pid_lt 0 (by rw [h1.taskCount]; omega)
    rw [h1.shell_pid, h1.nextPid] at hlt
    revert hlt
    decide

end KumOS.Sched
