import KumOS.Sched.Runs

/-!
# Suspended tasks over whole runs

`sched_yield` and `sched_tick` leave a task inside `switch_context` and resume another one
there.  What a task needs to go on is on its stack, at `tasks[i].esp`: four registers and the
return address.  As long as the stacks are disjoint and nobody stores into these words, the
order in which other tasks run makes no difference:

    a task switched in has the context it was last suspended with     (switched_in_resumes)

A switch is one step here: the lines of C that pick the next task, and `switch_context` on the
processor.  Between two switches the running task may do anything else.
-/

namespace KumOS.Sched

open Lib Lib.Ram X86

variable {a b : Word} {s : TaskTable} {n : Nat}

/-- What a call of `switch_context` returns with: the stack pointer is the one before the call. -/
structure Context where
  eip : Word
  esp : Word
  ebp : Word
  ebx : Word
  esi : Word
  edi : Word

/-- The caller's context, at the first instruction of `switch_context`. -/
def callContext (c : Cpu) : Context := ⟨c.top, c.esp + 4#32, c.ebp, c.ebx, c.esi, c.edi⟩

/-- The context execution goes on with, after the `ret` of `switch_context`. -/
def resumedContext (c : Cpu) : Context := ⟨c.eip, c.esp, c.ebp, c.ebx, c.esi, c.edi⟩

/-- The words kept on the stack, from `tasks[i].esp` upwards. -/
def Context.words (x : Context) : List Word := [x.edi, x.esi, x.ebx, x.ebp, x.eip]

/-- Where things lie in memory: the array `tasks`, whose elements have 276 bytes and begin with
`esp`, and the addresses of each started task's stack. -/
structure Layout where
  started : Nat → Prop
  tasksAddr : Word
  stack : Nat → Word → Prop
  slot : ∀ i, started i → i < schedMaxTasks
  inside : tasksAddr.toNat + 276 * schedMaxTasks ≤ 2 ^ 32
  disjoint : ∀ i j a, started i → started j → stack i a → stack j a → i = j
  outside : ∀ i a, started i → stack i a → ∀ k < 276 * schedMaxTasks, a ≠ tasksAddr + BitVec.ofNat 32 k

/-- `&tasks[i].esp` -/
def Layout.espAddr (l : Layout) (i : Nat) : Word := l.tasksAddr + BitVec.ofNat 32 (276 * i)

/-- The processor and the scheduler's table.  The table's own `mem` plays no part. -/
structure Kernel where
  cpu : Cpu
  table : TaskTable

/-- A started task that does not run: its words lie on its stack. -/
structure Suspended (l : Layout) (k : Kernel) (i : Nat) (x : Context) : Prop where
  words : Words k.cpu.mem (k.table.tasks i).esp x.words
  esp : x.esp = (k.table.tasks i).esp + 20#32
  own : ∀ b < 20, l.stack i ((k.table.tasks i).esp + BitVec.ofNat 32 b)

/-- Every started task but the running one is suspended, with the contexts given, and the table's `esp`
fields are the words in memory. -/
structure Settled (l : Layout) (ctx : Nat → Context) (k : Kernel) : Prop where
  current : l.started k.table.currentIdx
  suspended : ∀ i, l.started i → i ≠ k.table.currentIdx → Suspended l k i (ctx i)
  linked : ∀ i, l.started i → load32 k.cpu.mem (l.espAddr i) = (k.table.tasks i).esp

/-- The table in which `sched_yield` or `sched_tick` picks the next task. -/
inductive Caller where
  | yield
  | tick
  deriving DecidableEq

def Caller.table : Caller → TaskTable → TaskTable
  | .yield, s => s
  | .tick, s => { countTick s with tickAccum := 0#32 }

/-- The scheduler's side of the switch; `sched_tick` goes that far only at the end of a quantum. -/
def Caller.perform : Caller → TaskTable → Word → TaskTable
  | .yield => schedYield
  | .tick => schedTick

def Caller.due : Caller → TaskTable → Prop
  | .yield, _ => True
  | .tick, s => schedQuantum ≤ (countTick s).tickAccum

inductive Event where
  /-- the running task works -/
  | work
  /-- task `i` was suspended with the context `x` -/
  | switch (i : Nat) (x : Context)

/-- What happens between two states. -/
inductive Switching (l : Layout) : Kernel → Event → Kernel → Prop
  /-- Anything but a switch: the registers, the memory and the table change, except for the `esp` fields
  and the words of the suspended tasks. -/
  | work {k k' : Kernel} (current : k'.table.currentIdx = k.table.currentIdx)
      (esp : ∀ i, l.started i → (k'.table.tasks i).esp = (k.table.tasks i).esp)
      (fields : ∀ i, l.started i → load32 k'.cpu.mem (l.espAddr i) = load32 k.cpu.mem (l.espAddr i))
      (words : ∀ i, l.started i → i ≠ k.table.currentIdx → ∀ b < 20,
        k'.cpu.mem ((k.table.tasks i).esp + BitVec.ofNat 32 b) = k.cpu.mem ((k.table.tasks i).esp + BitVec.ofNat 32 b)) :
      Switching l k .work k'
  /-- A switch to another started task.  The processor is at the first instruction of `switch_context`,
  on the running task's stack, with the arguments `&tasks[prev].esp` and `tasks[next].esp`. -/
  | switch {k : Kernel} (caller : Caller) {next : Nat} {back : Word} (due : caller.due k.table)
      (picked : (pickNext (caller.table k.table)).1 = next) (other : next ≠ k.table.currentIdx)
      (started : l.started next)
      (args : Stack k.cpu [back, l.espAddr k.table.currentIdx, ((pickNext (caller.table k.table)).2.tasks next).esp])
      (own : ∀ b < 20, l.stack k.table.currentIdx (k.cpu.esp - 16#32 + BitVec.ofNat 32 b)) :
      Switching l k (.switch k.table.currentIdx (callContext k.cpu))
        ⟨run switchContext k.cpu, caller.perform k.table (k.cpu.esp - 16#32)⟩

/-- The contexts the tasks were last suspended with. -/
def contexts (ctx : Nat → Context) (events : List Event) : Nat → Context :=
  events.foldl (fun ctx e => match e with
    | .work => ctx
    | .switch i x => Function.update ctx i x) ctx

/-! ## The scheduler's side -/

theorem Woken.esp {s1 : TaskTable} (h : Woken s s1) (i : Nat) : (s1.tasks i).esp = (s.tasks i).esp := by
  rcases h.task i with h1 | ⟨-, h1⟩ <;> rw [h1]

theorem pickNext_esp (s : TaskTable) (i : Nat) : ((pickNext s).2.tasks i).esp = (s.tasks i).esp := by
  obtain ⟨s1, fell, hw, hpick⟩ := pickNext_woken s
  rw [hpick]
  exact hw.esp i

theorem Caller.table_esp (caller : Caller) (s : TaskTable) (i : Nat) : ((caller.table s).tasks i).esp = (s.tasks i).esp := by
  cases caller with
  | yield => rfl
  | tick =>
    show ((countTick s).tasks i).esp = _
    unfold countTick
    rw [(woken_wakeLoop _ _ _).esp i]
    exact s.setTask_field s.currentIdx i _ Task.esp rfl

/-- A switch stores `saved` in the slot it leaves and changes no other `esp`. -/
theorem switchTo_esp (s : TaskTable) (next : Nat) (saved : Word) (i : Nat) :
    ((switchTo s next saved).tasks i).esp = if i = s.currentIdx then saved else (s.tasks i).esp := by
  have hstate : ∀ (s : TaskTable) j st, ((s.setState j st).tasks i).esp = (s.tasks i).esp :=
    fun s j _ => s.setTask_field j i _ Task.esp rfl
  unfold switchTo
  by_cases hi : i = s.currentIdx
  · rw [if_pos hi, hi, TaskTable.setTask_self]
  · rw [if_neg hi, TaskTable.setTask_ne _ _ _ _ hi, hstate, hstate]

theorem Caller.perform_switch {caller : Caller} {next : Nat} (hdue : caller.due s)
    (hpick : (pickNext (caller.table s)).1 = next) (hne : next ≠ s.currentIdx) (saved : Word) :
    (caller.perform s saved).currentIdx = next ∧
      ∀ i, ((caller.perform s saved).tasks i).esp = if i = s.currentIdx then saved else (s.tasks i).esp := by
  have hcur : (pickNext (caller.table s)).2.currentIdx = s.currentIdx := by
    obtain ⟨s1, fell, hw, hpick⟩ := pickNext_woken (caller.table s)
    rw [hpick]
    refine hw.currentIdx.trans ?_
    cases caller with
    | yield => rfl
    | tick => exact (woken_wakeLoop _ _ _).currentIdx
  have heq : caller.perform s saved = switchTo (pickNext (caller.table s)).2 next saved := by
    have hperform : caller.perform s saved = reschedule (caller.table s) saved := by
      cases caller with
      | yield => rfl
      | tick => exact if_pos hdue
    rw [hperform]
    unfold reschedule
    dsimp only
    rw [hpick, hcur, if_neg hne]
  rw [heq]
  refine ⟨rfl, fun i => ?_⟩
  rw [switchTo_esp, hcur, pickNext_esp, caller.table_esp]

/-! ## The processor's side -/

section

variable {l : Layout} {i j : Nat}

theorem Layout.espAddr_toNat (l : Layout) (hi : l.started i) {p : Nat} (hp : p < 4) :
    (l.espAddr i + BitVec.ofNat 32 p).toNat = l.tasksAddr.toNat + 276 * i + p := by
  have hin := l.inside
  have hli := l.slot i hi
  unfold Layout.espAddr
  rw [BitVec.toNat_add, BitVec.toNat_add, BitVec.toNat_ofNat, BitVec.toNat_ofNat,
    Nat.mod_eq_of_lt (a := 276 * i) (by omega), Nat.mod_eq_of_lt (by omega),
    Nat.mod_eq_of_lt (by omega), Nat.mod_eq_of_lt (by omega)]

/-- A stack does not meet an `esp` field. -/
theorem Layout.stack_apart (l : Layout) (hi : l.started i) (hj : l.started j)
    (hown : ∀ b < n, l.stack i (a + BitVec.ofNat 32 b)) : Apart (l.espAddr j) 4 a n := by
  intro p hp b hb heq
  have hlj := l.slot j hj
  unfold schedMaxTasks at hlj
  refine l.outside i _ hi (hown b hb) (276 * j + p) (by unfold schedMaxTasks; omega) ?_
  rw [← heq]
  unfold Layout.espAddr
  rw [BitVec.ofNat_add, BitVec.add_assoc]

theorem Layout.stacks_apart (l : Layout) (hi : l.started i) (hj : l.started j) (hne : i ≠ j) {k : Nat}
    (hown : ∀ p < n, l.stack i (a + BitVec.ofNat 32 p)) (hown' : ∀ p < k, l.stack j (b + BitVec.ofNat 32 p)) :
    Apart a n b k := by
  intro p hp q hq heq
  refine hne (l.disjoint i j _ hi hj (hown p hp) ?_)
  rw [heq]
  exact hown' q hq

end

/-! ## Runs -/

variable {l : Layout} {ctx : Nat → Context} {k k' : Kernel}

theorem Settled.work (h : Settled l ctx k) (hsp : Switching l k .work k') : Settled l ctx k' := by
  cases hsp with
  | work current esp fields words =>
    refine ⟨current ▸ h.current, fun i hi hne => ?_, fun i hi => ?_⟩
    · rw [current] at hne
      have hs := h.suspended i hi hne
      refine ⟨?_, ?_, ?_⟩
      · rw [esp i hi]
        exact hs.words.congr fun b hb => (words i hi hne b hb).symm
      · rw [esp i hi]
        exact hs.esp
      · rw [esp i hi]
        exact hs.own
    · rw [fields i hi, esp i hi]
      exact h.linked i hi

/-- A switch resumes the next task with its context, and suspends the running one with that of the
call. -/
theorem Settled.switch (h : Settled l ctx k) {i : Nat} {x : Context} (hsp : Switching l k (.switch i x) k') :
    resumedContext k'.cpu = ctx k'.table.currentIdx ∧ Settled l (Function.update ctx i x) k' := by
  cases hsp with
  | @switch caller next back due picked other started args own =>
  have hnew : ((pickNext (caller.table k.table)).2.tasks next).esp = (k.table.tasks next).esp :=
    (pickNext_esp _ _).trans (caller.table_esp _ _)
  rw [hnew] at args
  obtain ⟨hcur, hesp⟩ := Caller.perform_switch due picked other (k.cpu.esp - 16#32)
  generalize caller.perform k.table (k.cpu.esp - 16#32) = table at hcur hesp ⊢
  have hs := h.suspended next started other
  have hown16 : ∀ b < 16, l.stack k.table.currentIdx (k.cpu.esp - 16#32 + BitVec.ofNat 32 b) :=
    fun b hb => own b (by omega)
  obtain ⟨⟨hedi, hesi, hebx, hebp, heip⟩, hnesp, -, hmem⟩ :=
    run_switchContext k.cpu back (l.espAddr k.table.currentIdx) (k.table.tasks next).esp _ _ _ _ _ args hs.words
      (l.stacks_apart h.current started (Ne.symm other) hown16 hs.own) (l.stack_apart started h.current hs.own)
  refine ⟨?_, ?_⟩
  · rw [hcur]
    unfold resumedContext
    rw [hedi, hesi, hebx, hebp, heip, hnesp, ← hs.esp]
  -- the words of the call lie on the stack left, and everything else is where it was
  refine ⟨by rw [hcur]; exact started, fun j hj hne => ?_, fun j hj => ?_⟩
  · by_cases hpv : j = k.table.currentIdx
    · subst hpv
      have hbk : Words k.cpu.mem k.cpu.esp [k.cpu.top] := ⟨rfl, trivial⟩
      have hpushed := hbk.pushWords [k.cpu.ebp, k.cpu.ebx, k.cpu.esi, k.cpu.edi] (by simp)
      have hesp' := hesp k.table.currentIdx
      rw [if_pos rfl] at hesp'
      rw [Function.update_self]
      refine ⟨?_, ?_, ?_⟩
      · rw [hmem, hesp']
        exact hpushed.store (l.stack_apart h.current h.current own)
      · show k.cpu.esp + 4#32 = (table.tasks _).esp + 20#32
        grind
      · rw [hesp']
        exact own
    · have hsj := h.suspended j hj hpv
      have hesp' := hesp j
      rw [if_neg hpv] at hesp'
      rw [Function.update_of_ne hpv]
      refine ⟨?_, ?_, ?_⟩
      · rw [hmem, hesp']
        refine (hsj.words.pushWords_apart [k.cpu.ebp, k.cpu.ebx, k.cpu.esi, k.cpu.edi] ?_).store ?_
        · exact l.stacks_apart h.current hj (Ne.symm hpv) hown16 hsj.own
        · exact l.stack_apart hj h.current hsj.own
      · rw [hesp']
        exact hsj.esp
      · rw [hesp']
        exact hsj.own
  · rw [hmem, hesp j]
    by_cases hpv : j = k.table.currentIdx
    · rw [if_pos hpv, hpv, load32_store32_same]
    rw [if_neg hpv, ← h.linked j hj]
    have hfield : Words k.cpu.mem (l.espAddr j) [load32 k.cpu.mem (l.espAddr j)] := ⟨rfl, trivial⟩
    have hkt := hfield.pushWords_apart [k.cpu.ebp, k.cpu.ebx, k.cpu.esi, k.cpu.edi] fun p hp q hq he =>
      l.stack_apart h.current hj hown16 q hq p hp he.symm
    refine (hkt.store fun p hp q hq heq => ?_).1
    have hnat := congrArg BitVec.toNat heq
    change q < 4 at hq
    rw [l.espAddr_toNat h.current hp, l.espAddr_toNat hj hq] at hnat
    omega

theorem Settled.run {events : List Event} (h : Settled l ctx k) (hrun : Run (Switching l) k events k') :
    Settled l (contexts ctx events) k' := by
  refine hrun.invariant_hist (fun events k' => Settled l (contexts ctx events) k') h fun done k1 e k2 hk1 hsp => ?_
  unfold contexts
  rw [List.foldl_append]
  cases e with
  | work => exact hk1.work hsp
  | switch i x => exact (hk1.switch hsp).2

/-- Whenever a task is switched in, it goes on with the context it was last suspended with: return
address, stack pointer, `ebp`, `ebx`, `esi` and `edi`. -/
theorem switched_in_resumes (l : Layout) (ctx : Nat → Context) (k0 k k' : Kernel) (events : List Event) (i : Nat)
    (x : Context) (h0 : Settled l ctx k0) (hrun : Run (Switching l) k0 events k)
    (hstep : Switching l k (.switch i x) k') : resumedContext k'.cpu = contexts ctx events k'.table.currentIdx :=
  ((h0.run hrun).switch hstep).1

/-- Two stacks of a page each, at 0x9000 and 0xA000; `tasks` is at 0x1000. -/
def sampleLayout : Layout where
  started i := i < 2
  tasksAddr := 0x1000#32
  stack i a := a.toNat / 4096 = 9 + i
  slot i hi := by unfold schedMaxTasks; omega
  inside := by decide
  disjoint i j a _ _ hi hj := by omega
  outside i a hi ha k hk heq := by
    unfold schedMaxTasks at hk
    rw [heq, BitVec.toNat_add, BitVec.toNat_ofNat, BitVec.toNat_ofNat] at ha
    omega

instance (i : Nat) : Decidable (sampleLayout.started i) := inferInstanceAs (Decidable (i < 2))

instance (i : Nat) (a : Word) : Decidable (sampleLayout.stack i a) := inferInstanceAs (Decidable (a.toNat / 4096 = 9 + i))

/-- What task 1 was suspended with. -/
def sampleContext : Context := ⟨0x100500#32, 0xAF00#32, 1#32, 2#32, 3#32, 4#32⟩

/-- Task 0 is about to switch to task 1. -/
def sampleKernel : Kernel where
  cpu := { sampleSwitch with
    esp := 0x9EF4#32
    mem := pushWords (store32 (pushWords (fun _ => 0#8) 0xAF00#32 sampleContext.words.reverse) 0x1114#32 0xAEEC#32)
      0x9F00#32 [0xAEEC#32, 0x1000#32, 0x100600#32] }
  table := { atBoot 0#32 0#32 fun _ => 0#8 with
    tasks := Function.update (fun _ => Task.zero) 1 { Task.zero with state := .ready, esp := 0xAEEC#32 }
    taskCount := 2 }

theorem sampleKernel_settled : Settled sampleLayout (fun _ => sampleContext) sampleKernel where
  current := by decide
  suspended i hi hne := by
    obtain rfl : i = 1 := by
      change i < 2 at hi
      change i ≠ 0 at hne
      omega
    exact ⟨by decide +kernel, by decide, by decide +kernel⟩
  linked i hi := by
    obtain rfl | rfl : i = 0 ∨ i = 1 := by
      change i < 2 at hi
      omega
    · decide +kernel
    · decide +kernel

/-- Task 1 runs, and is about to switch back. -/
def sampleBack : Kernel where
  cpu :=
    let c := run switchContext sampleKernel.cpu
    { c with
      ebx := 7#32
      esp := 0xAEE4#32
      mem := pushWords c.mem 0xAEF0#32 [0x9EE4#32, 0x1114#32, 0x100700#32] }
  table := schedYield sampleKernel.table 0x9EE4#32

theorem sampleBack_run : Run (Switching sampleLayout) sampleKernel [.switch 0 (callContext sampleKernel.cpu), .work]
    sampleBack := by
  have hswitch : Switching sampleLayout sampleKernel (.switch 0 (callContext sampleKernel.cpu))
      ⟨run switchContext sampleKernel.cpu, schedYield sampleKernel.table 0x9EE4#32⟩ :=
    .switch .yield trivial (show (pickNext sampleKernel.table).1 = 1 by decide +kernel) (by decide) (by decide)
      (show Stack sampleKernel.cpu [0x100600#32, _, _] by decide +kernel) (by decide +kernel)
  refine (Run.single hswitch).snoc (.work rfl (fun _ _ => rfl) (fun i hi => ?_) fun i hi hne => ?_)
  · obtain rfl | rfl : i = 0 ∨ i = 1 := by
      change i < 2 at hi
      omega
    · decide +kernel
    · decide +kernel
  · obtain rfl : i = 0 := by
      change i < 2 at hi
      change i ≠ 1 at hne
      omega
    decide +kernel

/-- Task 0 goes on behind its call. -/
theorem switched_in_resumes_sample : resumedContext (run switchContext sampleBack.cpu) = callContext sampleKernel.cpu :=
  switched_in_resumes sampleLayout (fun _ => sampleContext) sampleKernel sampleBack _ _ 1 _ sampleKernel_settled sampleBack_run
    (.switch .yield trivial (show (pickNext sampleBack.table).1 = 0 by decide +kernel) (by decide) (by decide)
      (show Stack sampleBack.cpu [0x100700#32, _, _] by decide +kernel) (by decide +kernel))

end KumOS.Sched
