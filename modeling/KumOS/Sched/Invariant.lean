import KumOS.Sched.Model

/-!
# The task table over whole runs

`TableOk` is what every operation relies on: one running task, the current one,
in a table whose live part has distinct pids.  The invariant that carries it
(`Inv`) adds that the idle task can always run, so `pick_next` finds a task
before it comes round to the current one, and that the slots from `task_count`
on are unused, so a new task never leaves a gap.

    Run Step (schedInit .. (some idleStack) ..) ops s → spawns ops < 2^31 - 3 → TableOk s
-/

namespace KumOS.Sched

open Lib X86
open TaskTable (setState setTask_currentIdx setTask_ne setTask_pid setTask_self)

variable {s : TaskTable}
variable {s' s1 : TaskTable}

/-- What holds of the task table between two operations. -/
structure TableOk (s : TaskTable) : Prop where
  cur_lt : s.currentIdx < s.taskCount
  count_le : s.taskCount ≤ schedMaxTasks
  running_iff : ∀ i < s.taskCount, (s.tasks i).state = .running ↔ i = s.currentIdx
  pid_pos : ∀ i < s.taskCount, 0 < (s.tasks i).pid
  pid_inj : ∀ i < s.taskCount, ∀ j < s.taskCount, (s.tasks i).pid = (s.tasks j).pid → i = j
  pid_lt : ∀ i < s.taskCount, (s.tasks i).pid < s.nextPid
  no_fallback : s.fellBack = false

/-- The part of the invariant that does not speak of the current task's state. -/
structure Base (s : TaskTable) : Prop where
  cur_lt : s.currentIdx < s.taskCount
  count_le : s.taskCount ≤ schedMaxTasks
  two_le : 2 ≤ s.taskCount
  idle : (s.tasks idleIdx).state = .ready ∨ (s.tasks idleIdx).state = .running
  pid_pos : ∀ i < s.taskCount, 0 < (s.tasks i).pid
  pid_inj : ∀ i < s.taskCount, ∀ j < s.taskCount, (s.tasks i).pid = (s.tasks j).pid → i = j
  pid_lt : ∀ i < s.taskCount, (s.tasks i).pid < s.nextPid
  unused : ∀ i, s.taskCount ≤ i → i < schedMaxTasks → (s.tasks i).pid = 0
  no_fallback : s.fellBack = false
  others : ∀ i < s.taskCount, i ≠ s.currentIdx → (s.tasks i).state ≠ .running
  cur_idle : s.currentIdx = idleIdx → (s.tasks idleIdx).state = .running

/-- Between two operations. -/
structure Inv (s : TaskTable) : Prop extends Base s where
  cur_running : s.cur.state = .running

theorem Inv.tableOk (h : Inv s) : TableOk s where
  cur_lt := h.cur_lt
  count_le := h.count_le
  running_iff := by
    intro i hi
    constructor
    · intro hr
      apply Classical.byContradiction
      intro hne
      exact h.others i hi hne hr
    · rintro rfl
      exact h.cur_running
  pid_pos := h.pid_pos
  pid_inj := h.pid_inj
  pid_lt := h.pid_lt
  no_fallback := h.no_fallback

/-! ## Waking -/

/-- `s1` is `s` with some sleeping tasks made ready. -/
def Woken (s s1 : TaskTable) : Prop :=
  ∃ f : Nat → Task, s1 = { s with tasks := f } ∧
    ∀ i, f i = s.tasks i ∨ ((s.tasks i).state = .sleeping ∧ f i = { s.tasks i with state := .ready })

theorem Woken.refl (s : TaskTable) : Woken s s := ⟨s.tasks, rfl, fun _ => .inl rfl⟩

theorem Woken.trans {s2 : TaskTable} (h : Woken s s1) (h' : Woken s1 s2) : Woken s s2 := by
  obtain ⟨f, rfl, hf⟩ := h
  obtain ⟨g, rfl, hg⟩ := h'
  refine ⟨g, rfl, fun i => ?_⟩
  rcases hg i with h1 | ⟨hs, h1⟩
  · rcases hf i with h2 | ⟨hs, h2⟩
    · exact .inl (h1.trans h2)
    · exact .inr ⟨hs, h1.trans h2⟩
  simp only at hs h1
  rcases hf i with h2 | ⟨hs', h2⟩
  · rw [h2] at hs h1
    exact .inr ⟨hs, h1⟩
  · rw [h2] at hs
    cases hs

theorem woken_wake (s : TaskTable) (i : Nat) : Woken s (s.setTask i (wake s.tickCount (s.tasks i))) := by
  refine ⟨_, rfl, fun j => ?_⟩
  by_cases hj : j = i
  · subst hj
    rw [Function.update_self]
    unfold wake
    split
    · rename_i h
      exact .inr ⟨h.1, rfl⟩
    · exact .inl rfl
  · exact .inl (Function.update_of_ne hj _ _)

theorem woken_wakeLoop (n i : Nat) (s : TaskTable) : Woken s (wakeLoop n i s) := by
  induction n generalizing i s with
  | zero => exact Woken.refl s
  | succ n ih => exact (woken_wake s i).trans (ih (i + 1) _)

section
variable {s1 : TaskTable} (h : Woken s s1)
include h

theorem Woken.currentIdx : s1.currentIdx = s.currentIdx := by
  obtain ⟨f, rfl, -⟩ := h
  rfl

theorem Woken.taskCount : s1.taskCount = s.taskCount := by
  obtain ⟨f, rfl, -⟩ := h
  rfl

theorem Woken.task (i : Nat) : s1.tasks i = s.tasks i ∨
    ((s.tasks i).state = .sleeping ∧ s1.tasks i = { s.tasks i with state := .ready }) := by
  obtain ⟨f, rfl, hf⟩ := h
  exact hf i

theorem Woken.pid (i : Nat) : (s1.tasks i).pid = (s.tasks i).pid := by
  rcases h.task i with h1 | ⟨-, h1⟩ <;> rw [h1]

theorem Woken.running (i : Nat) : (s1.tasks i).state = .running ↔ (s.tasks i).state = .running := by
  rcases h.task i with h1 | ⟨hs, h1⟩
  · rw [h1]
  · rw [h1, hs]
    simp

theorem Woken.runnable (i : Nat) (hr : runnable (s.tasks i) = true) : runnable (s1.tasks i) = true := by
  rcases h.task i with h1 | ⟨-, h1⟩
  · rwa [h1]
  · rw [h1]
    rfl

end

theorem runnable_iff (t : Task) : runnable t = true ↔ t.state = .ready ∨ t.state = .running := by
  simp [runnable]

/-- An operation that leaves every task its pid has to say which tasks can run. -/
theorem Base.of_pids (hb : Base s) (hct : s1.taskCount = s.taskCount) (hnx : s1.nextPid = s.nextPid)
    (hfell : s1.fellBack = s.fellBack) (hpid : ∀ i, (s1.tasks i).pid = (s.tasks i).pid)
    (hcur : s1.currentIdx < s.taskCount)
    (hid : (s1.tasks idleIdx).state = .ready ∨ (s1.tasks idleIdx).state = .running)
    (hothers : ∀ i < s.taskCount, i ≠ s1.currentIdx → (s1.tasks i).state ≠ .running)
    (hcidle : s1.currentIdx = idleIdx → (s1.tasks idleIdx).state = .running) : Base s1 := by
  rw [← hct] at hcur hothers
  exact
    { cur_lt := hcur
      count_le := hct ▸ hb.count_le
      two_le := hct ▸ hb.two_le
      idle := hid
      pid_pos := fun i hi => by rw [hpid]; exact hb.pid_pos i (hct ▸ hi)
      pid_inj := fun i hi j hj he => hb.pid_inj i (hct ▸ hi) j (hct ▸ hj) (by rwa [hpid, hpid] at he)
      pid_lt := fun i hi => by rw [hpid, hnx]; exact hb.pid_lt i (hct ▸ hi)
      unused := fun i h1 h2 => by rw [hpid]; exact hb.unused i (hct ▸ h1) h2
      no_fallback := hfell.trans hb.no_fallback
      others := hothers
      cur_idle := hcidle }

theorem Woken.base (h : Woken s s1) (hb : Base s) : Base s1 := by
  have hid := h.runnable idleIdx ((runnable_iff _).2 hb.idle)
  have hpid := h.pid
  have hrun := h.running
  obtain ⟨f, rfl, -⟩ := h
  exact hb.of_pids rfl rfl rfl hpid hb.cur_lt ((runnable_iff _).1 hid)
    (fun i hi hne hr => hb.others i hi hne ((hrun i).1 hr)) fun hc => (hrun _).2 (hb.cur_idle hc)

/-! ## `pick_next` -/

/-- Steps from slot `i` up to slot `j`, going round at `n`. -/
def dist (n i j : Nat) : Nat := if i ≤ j then j - i else j + n - i

theorem succ_mod (n i : Nat) (hi : i < n) : (i + 1) % n = if i + 1 = n then 0 else i + 1 := by
  split
  · rename_i h
    rw [h, Nat.mod_self]
  · exact Nat.mod_eq_of_lt (by omega)

/-- The loop stops at a runnable task no later than at any task `j` it would
reach that is runnable already. -/
theorem pickLoop_spec (n : Nat) : ∀ (s : TaskTable) (i j : Nat), i < s.taskCount → j < s.taskCount →
    runnable (s.tasks j) = true → dist s.taskCount i j < n →
    ∃ next s1, pickLoop n i s = (some next, s1) ∧ Woken s s1 ∧ next < s.taskCount ∧
      runnable (s1.tasks next) = true ∧ dist s.taskCount i next ≤ dist s.taskCount i j := by
  induction n with
  | zero => intro s i j _ _ _ hd; omega
  | succ n ih =>
    intro s i j hi hj hr hd
    have hw := woken_wake s i
    unfold pickLoop
    generalize hs1 : s.setTask i (wake s.tickCount (s.tasks i)) = s1 at hw
    have htc : s1.taskCount = s.taskCount := by rw [← hs1]; rfl
    by_cases hri : runnable (s1.tasks i) = true
    · rw [if_pos hri]
      exact ⟨i, s1, rfl, hw, hi, hri, by simp [dist]⟩
    rw [if_neg hri]
    have hij : i ≠ j := by
      rintro rfl
      exact hri (hw.runnable i hr)
    -- one slot further on, the distances are one less
    have hsp : ∀ k, k < s.taskCount → k ≠ i → dist s.taskCount ((i + 1) % s.taskCount) k + 1 =
        dist s.taskCount i k := by
      intro k hk hki
      rw [succ_mod _ _ hi]
      unfold dist
      split <;> split <;> split <;> omega
    have hlt : (i + 1) % s.taskCount < s1.taskCount := by
      rw [htc]
      exact Nat.mod_lt _ (by omega)
    have hj1 := hsp j hj (Ne.symm hij)
    obtain ⟨next, s2, hp, hw2, hn, hrn, hdn⟩ := ih s1 ((i + 1) % s.taskCount) j hlt (by omega)
      (hw.runnable j hr) (by rw [htc]; omega)
    rw [htc] at hn hdn
    refine ⟨next, s2, hp, hw.trans hw2, hn, hrn, ?_⟩
    by_cases hni : next = i
    · subst hni
      simp [dist]
    · have := hsp next hn hni
      omega

/-- `pick_next` finds a task: not the current one, unless that is the idle task. -/
theorem pickNext_spec (hb : Base s) :
    ∃ next s1, pickNext s = (next, s1) ∧ Woken s s1 ∧ next < s.taskCount ∧
      runnable (s1.tasks next) = true ∧ (next = s.currentIdx → s.currentIdx = idleIdx) := by
  have hc := hb.cur_lt
  have h2 := hb.two_le
  have hmod := succ_mod s.taskCount s.currentIdx hc
  obtain ⟨next, s1, hp, hw, hn, hrn, hd⟩ := pickLoop_spec s.taskCount s
    ((s.currentIdx + 1) % s.taskCount) idleIdx (Nat.mod_lt _ (by omega)) (by unfold idleIdx; omega)
    ((runnable_iff _).2 hb.idle) (by
      rw [hmod]
      unfold dist idleIdx
      split <;> split <;> omega)
  refine ⟨next, s1, ?_, hw, hn, hrn, ?_⟩
  · unfold pickNext
    rw [hp]
  · rintro rfl
    rw [hmod] at hd
    unfold dist idleIdx at hd
    unfold idleIdx
    split at hd <;> split at hd <;> split at hd <;> omega

/-! ## Switching -/

section
variable (s : TaskTable) (next : Nat) (saved : Word)

/-- A switch changes `state` and `esp` only. -/
theorem switchTo_field {β : Type} (f : Task → β) (hstate : ∀ t st, f { t with state := st } = f t)
    (hesp : ∀ t e, f { t with esp := e } = f t) (i : Nat) : f ((switchTo s next saved).tasks i) = f (s.tasks i) := by
  have hset : ∀ (s : TaskTable) j st, f ((s.setState j st).tasks i) = f (s.tasks i) :=
    fun s j st => s.setTask_field j i _ f (hstate _ _)
  unfold switchTo
  rw [TaskTable.setTask_field _ _ _ _ f (hesp _ _), hset, hset]

theorem switchTo_pid (i : Nat) : ((switchTo s next saved).tasks i).pid = (s.tasks i).pid :=
  switchTo_field s next saved Task.pid (fun _ _ => rfl) (fun _ _ => rfl) i

theorem switchTo_other (i : Nat) (h1 : i ≠ next) (h2 : i ≠ s.currentIdx) :
    ((switchTo s next saved).tasks i).state = (s.tasks i).state := by
  simp only [switchTo, setState]
  rw [setTask_ne _ _ _ _ h2, setTask_ne _ _ _ _ h1, setTask_ne _ _ _ _ h2]

variable {next} (hne : next ≠ s.currentIdx)
include hne

theorem switchTo_next : ((switchTo s next saved).tasks next).state = .running := by
  simp only [switchTo, setState]
  rw [setTask_ne _ _ _ _ hne, setTask_self]

theorem switchTo_prev : ((switchTo s next saved).tasks s.currentIdx).state =
    if s.cur.state = .running then .ready else s.cur.state := by
  simp only [switchTo, setState]
  rw [setTask_self, setTask_ne _ _ _ _ hne.symm, setTask_self]

end

theorem switchTo_inv (hb : Base s) {next : Nat} (hn : next < s.taskCount) (hne : next ≠ s.currentIdx)
    (saved : Word) : Inv (switchTo s next saved) := by
  have hpid := switchTo_pid s next saved
  have hnx := switchTo_next s saved hne
  have hpv := switchTo_prev s saved hne
  have hot := switchTo_other s next saved
  refine ⟨hb.of_pids rfl rfl rfl hpid hn ?_ ?_ ?_, hnx⟩
  · by_cases h1 : idleIdx = next
    · rw [h1]
      exact .inr hnx
    · by_cases h2 : idleIdx = s.currentIdx
      · have := hb.cur_idle h2.symm
        rw [h2] at this ⊢
        rw [hpv, TaskTable.cur, this]
        exact .inl rfl
      · rw [hot _ h1 h2]
        exact hb.idle
  · intro i hi hic hr
    by_cases h2 : i = s.currentIdx
    · rw [h2, hpv] at hr
      split at hr
      · cases hr
      · contradiction
    · rw [hot i hic h2] at hr
      exact hb.others i hi h2 hr
  · rintro rfl
    exact hnx

theorem reschedule_inv (hb : Base s) (saved : Word) : Inv (reschedule s saved) := by
  obtain ⟨next, s1, hp, hw, hn, -, hid⟩ := pickNext_spec hb
  have hb1 := hw.base hb
  have hcur := hw.currentIdx
  unfold reschedule
  rw [hp]
  by_cases he : next = s1.currentIdx
  · -- only the idle task picks itself, and it is running
    have hc := hid (he.trans hcur)
    rw [if_pos he]
    refine ⟨hb1, ?_⟩
    rw [TaskTable.cur, hcur, hc]
    exact (hw.running _).2 (hb.cur_idle hc)
  · rw [if_neg he]
    exact switchTo_inv hb1 (hw.taskCount ▸ hn) he saved

theorem schedYield_inv (hb : Base s) (saved : Word) : Inv (schedYield s saved) :=
  reschedule_inv hb saved

/-! ## The operations -/

theorem Base.setCur (hb : Base s) (t : Task) (hp : t.pid = s.cur.pid)
    (hid : s.currentIdx = idleIdx → t.state = .running) : Base (s.setTask s.currentIdx t) := by
  refine hb.of_pids rfl rfl rfl (fun j => setTask_pid s s.currentIdx j t hp) hb.cur_lt ?_
    (fun i hi hne => ?_) fun h => ?_
  · by_cases h : s.currentIdx = idleIdx
    · rw [← h, setTask_self]
      exact .inr (hid h)
    · rw [setTask_ne _ _ _ _ (Ne.symm h)]
      exact hb.idle
  · rw [setTask_ne s s.currentIdx i t hne]
    exact hb.others i hi hne
  · rw [setTask_currentIdx] at h
    rw [← h, setTask_self]
    exact hid h

theorem schedExitCode_inv (h : Inv s) (hc : s.currentIdx ≠ idleIdx) (code : Int) (saved : Word) :
    Inv (schedExitCode s code saved) := by
  have hb : Base (exitTask s code) := Base.setCur h.toBase _ (by rfl) fun he => absurd he hc
  exact schedYield_inv hb saved

/-- What the invariant reads is the same. -/
structure SameView (s s' : TaskTable) : Prop where
  taskCount : s'.taskCount = s.taskCount
  currentIdx : s'.currentIdx = s.currentIdx
  nextPid : s'.nextPid = s.nextPid
  fellBack : s'.fellBack = s.fellBack
  pid : ∀ i, (s'.tasks i).pid = (s.tasks i).pid
  state : ∀ i, (s'.tasks i).state = (s.tasks i).state

theorem Base.congr (h : Base s) (hv : SameView s s') : Base s' := by
  refine h.of_pids hv.taskCount hv.nextPid hv.fellBack hv.pid (hv.currentIdx ▸ h.cur_lt) ?_ (fun i hi hne => ?_)
    fun hc => ?_
  · rw [hv.state]
    exact h.idle
  · rw [hv.currentIdx] at hne
    rw [hv.state]
    exact h.others i hi hne
  · rw [hv.currentIdx] at hc
    rw [hv.state]
    exact h.cur_idle hc

theorem Inv.congr (h : Inv s) (hv : SameView s s') : Inv s' := by
  refine ⟨h.toBase.congr hv, ?_⟩
  rw [TaskTable.cur, hv.currentIdx, hv.state]
  exact h.cur_running

theorem sameView_setTask {i : Nat} {t : Task} (hp : t.pid = (s.tasks i).pid) (hst : t.state = (s.tasks i).state) :
    SameView s (s.setTask i t) := by
  refine ⟨rfl, rfl, rfl, rfl, fun j => setTask_pid s i j t hp, fun j => ?_⟩
  by_cases hj : j = i
  · subst hj
    rw [setTask_self, hst]
  · rw [setTask_ne _ _ _ _ hj]

theorem Base.of_tickAccum (hb : Base s) (w : Word) : Base { s with tickAccum := w } :=
  hb.congr ⟨rfl, rfl, rfl, rfl, fun _ => rfl, fun _ => rfl⟩

theorem countTick_inv (h : Inv s) : Inv (countTick s) := by
  have hb1 := (h.setCur { s.cur with ticks := s.cur.ticks + 1#32 } (by rfl) fun _ => h.cur_running).of_tickAccum
    (s.tickAccum + 1#32)
  have hw := woken_wakeLoop (s.setTask s.currentIdx { s.cur with ticks := s.cur.ticks + 1#32 }).taskCount 0
    { s.setTask s.currentIdx { s.cur with ticks := s.cur.ticks + 1#32 } with tickAccum := s.tickAccum + 1#32 }
  refine ⟨hw.base hb1, ?_⟩
  have hc : (countTick s).currentIdx = s.currentIdx := hw.currentIdx
  rw [TaskTable.cur, hc]
  refine (hw.running s.currentIdx).2 ?_
  simp only [setTask_self]
  exact h.cur_running

theorem schedTick_inv (h : Inv s) (saved : Word) : Inv (schedTick s saved) := by
  have h1 := countTick_inv h
  unfold schedTick
  simp only []
  split
  · exact reschedule_inv (h1.of_tickAccum 0#32) saved
  · exact h1

/-- A reaping pass marks a task dead that is a zombie or dead already. -/
theorem reap_inv (h : Inv s) (i : Nat) (hst : (s.tasks i).state = .zombie ∨ (s.tasks i).state = .dead) :
    Inv (s.setState i .dead) := by
  have hpid := fun j => setTask_pid s i j { s.tasks i with state := .dead } rfl
  have hne : ∀ j, (s.tasks j).state = .running ∨ (s.tasks j).state = .ready → j ≠ i := by
    rintro j hj rfl
    rcases hj with hj | hj <;> rw [hj] at hst <;> simp at hst
  have hcur := hne _ (.inl h.cur_running)
  have hid := hne _ h.idle.symm
  unfold setState
  refine ⟨h.of_pids rfl rfl rfl hpid h.cur_lt ?_ (fun j hj hjc => ?_) fun hc => ?_, ?_⟩
  · rw [setTask_ne _ _ _ _ hid]
    exact h.idle
  · by_cases hji : j = i
    · rw [hji, setTask_self]
      simp
    · rw [setTask_ne _ _ _ _ hji]
      exact h.others j hj hjc
  · rw [setTask_ne _ _ _ _ hid]
    exact h.cur_idle hc
  · rw [TaskTable.cur, setTask_currentIdx, setTask_ne _ _ _ _ hcur]
    exact h.cur_running

theorem schedWaitpidPass_inv (h : Inv s) (pid : Int) : Inv (schedWaitpidPass s pid).2 := by
  unfold schedWaitpidPass
  split
  · rename_i i _
    split
    · rename_i hst
      exact reap_inv h i hst
    · exact h
  · exact h

theorem schedWaitPass_inv (h : Inv s) : Inv (schedWaitPass s).2 := by
  unfold schedWaitPass
  simp only []
  split
  · rename_i i hf
    have := List.find?_some hf
    simp only [Bool.and_eq_true, Bool.or_eq_true, decide_eq_true_eq] at this
    exact reap_inv h i this.2
  · split <;> exact h

/-! ## Spawning -/

theorem incInt_eq {x : Int} (h0 : 0 ≤ x) (h : x < 2 ^ 31 - 1) : incInt x = x + 1 := by
  unfold incInt
  omega

theorem reusable_iff (t : Task) : reusable t = true ↔ t.state = .dead ∨ t.state = .zombie ∨ t.pid = 0 := by
  simp only [reusable, Bool.or_eq_true, decide_eq_true_eq, or_assoc]

/-- With room in the table the slot taken is a reusable one at most at `task_count`. -/
theorem findSlot_spec (hb : Base s) (hrm : s.taskCount < schedMaxTasks) :
    findSlot s ≤ s.taskCount ∧ reusable (s.tasks (findSlot s)) = true := by
  have hend : reusable (s.tasks s.taskCount) = true :=
    (reusable_iff _).2 (.inr (.inr (hb.unused _ (Nat.le_refl _) hrm)))
  unfold findSlot
  rcases hf : (List.range schedMaxTasks).find? fun i => reusable (s.tasks i) with - | i
  · exact ⟨Nat.le_refl _, hend⟩
  obtain ⟨hi, -, hbf⟩ := List.find?_range_eq_some.1 hf
  refine ⟨?_, hi⟩
  -- a slot beyond `task_count` would have been passed over
  apply Nat.le_of_not_lt
  intro hlt
  have := hbf _ hlt
  rw [hend] at this
  cases this

/-- A new ready task with the next pid, in a reusable slot. -/
theorem fill_inv (h : Inv s) (hpos : 0 < s.nextPid) (hmax : s.nextPid < 2 ^ 31 - 1)
    (hrm : s.taskCount < schedMaxTasks) {slot : Nat} (hsl : slot ≤ s.taskCount)
    (hre : reusable (s.tasks slot) = true) (t : Task) (hst : t.state = .ready) (hpid : t.pid = s.nextPid)
    (mem : Ram) : Inv { s.setTask slot t with
      nextPid := incInt s.nextPid, mem := mem
      taskCount := if s.taskCount ≤ slot then slot + 1 else s.taskCount } := by
  rw [reusable_iff] at hre
  have hinc := incInt_eq (Int.le_of_lt hpos) hmax
  -- neither the current nor the idle task is in that slot
  have hne : ∀ i < s.taskCount, ((s.tasks i).state = .ready ∨ (s.tasks i).state = .running) → i ≠ slot := by
    rintro i hi hr rfl
    have hp := h.pid_pos i hi
    rcases hr with hr | hr <;> rw [hr] at hre <;> simp at hre <;> omega
  have hcur := hne _ h.cur_lt (.inr h.cur_running)
  have hid := hne idleIdx (by have := h.two_le; unfold idleIdx; omega) h.idle
  have hold : ∀ i, i < (if s.taskCount ≤ slot then slot + 1 else s.taskCount) → i ≠ slot → i < s.taskCount := by
    intro i hi hi'
    split at hi <;> omega
  have hct : s.taskCount ≤ (if s.taskCount ≤ slot then slot + 1 else s.taskCount) := by split <;> omega
  have hts : ∀ i, i ≠ slot → (s.setTask slot t).tasks i = s.tasks i := fun i hi => setTask_ne _ _ _ _ hi
  have hsf : (s.setTask slot t).tasks slot = t := setTask_self ..
  exact
    { cur_lt := Nat.lt_of_lt_of_le h.cur_lt hct
      count_le := by
        show (if s.taskCount ≤ slot then slot + 1 else s.taskCount) ≤ schedMaxTasks
        split <;> omega
      two_le := Nat.le_trans h.two_le hct
      idle := by
        rw [hts _ hid]
        exact h.idle
      pid_pos := by
        intro i hi
        by_cases his : i = slot
        · rwa [his, hsf, hpid]
        · rw [hts i his]
          exact h.pid_pos i (hold i hi his)
      pid_inj := by
        intro i hi j hj
        by_cases his : i = slot <;> by_cases hjs : j = slot
        · intro _
          rw [his, hjs]
        · rw [his, hsf, hts j hjs, hpid]
          intro he
          have := h.pid_lt j (hold j hj hjs)
          omega
        · rw [hjs, hsf, hts i his, hpid]
          intro he
          have := h.pid_lt i (hold i hi his)
          omega
        · rw [hts i his, hts j hjs]
          exact h.pid_inj i (hold i hi his) j (hold j hj hjs)
      pid_lt := by
        intro i hi
        show ((s.setTask slot t).tasks i).pid < incInt s.nextPid
        by_cases his : i = slot
        · rw [his, hsf, hpid]
          omega
        · rw [hts i his]
          have := h.pid_lt i (hold i hi his)
          omega
      unused := by
        intro i hi hi'
        have hle : (if s.taskCount ≤ slot then slot + 1 else s.taskCount) ≤ i := hi
        rw [hts i (by split at hle <;> omega)]
        exact h.unused i (by omega) hi'
      no_fallback := h.no_fallback
      others := by
        intro i hi hic
        by_cases his : i = slot
        · rw [his, hsf, hst]
          simp
        · rw [hts i his]
          exact h.others i (hold i hi his) hic
      cur_idle := by
        intro hc
        rw [hts _ hid]
        exact h.cur_idle hc
      cur_running := by
        show ((s.setTask slot t).tasks s.currentIdx).state = .running
        rw [hts _ hcur]
        exact h.cur_running }

theorem schedSpawn_inv (h : Inv s) (hpos : 0 < s.nextPid) (hmax : s.nextPid < 2 ^ 31 - 1) (name : List UInt8)
    (entry : Word) (kumLevel : Int) (stack : Option Word) : Inv (schedSpawn s name entry kumLevel stack).2 := by
  unfold schedSpawn
  by_cases hrm : schedMaxTasks ≤ s.taskCount
  · rw [if_pos hrm]
    exact h
  rw [if_neg hrm]
  cases stack with
  | none => exact h
  | some stack =>
    obtain ⟨hle, hre⟩ := findSlot_spec h.toBase (by omega)
    simp only []
    rw [if_neg (by omega)]
    exact fill_inv h hpos hmax (by omega) hle hre _ rfl rfl _

theorem schedSpawn_nextPid (s : TaskTable) (name : List UInt8) (entry : Word) (kumLevel : Int)
    (stack : Option Word) : (schedSpawn s name entry kumLevel stack).2.nextPid = s.nextPid ∨
      (schedSpawn s name entry kumLevel stack).2.nextPid = incInt s.nextPid := by
  unfold schedSpawn
  split
  · exact .inl rfl
  cases stack with
  | none => exact .inl rfl
  | some stack =>
    simp only []
    split
    · exact .inl rfl
    · exact .inr rfl

end KumOS.Sched
