import KumOS.X86.Machine

/-!
# First resumption of a task: the spawn functions against `switch_context`

Five C functions prepare the stack of a task that has never run
(`task_setup_stack`, `user_task_setup`, `elf_spawn`, `sc_execve`, `sc_fork`);
`switch_context` (`boot/sched_switch.asm`) resumes it: four registers are popped
and `ret` takes the next word as the instruction pointer.  The prepared frames
are interrupt-return frames, with the entry point thirteen or fifteen words
further up.
-/

namespace KumOS.X86

open Lib Lib.Ram Instr

def switchContext : List Instr :=
  [load .eax .esp 4#32, load .ecx .esp 8#32, pushR .ebp, pushR .ebx, pushR .esi, pushR .edi,
    store .eax .esp, mov .esp .ecx, popR .edi, popR .esi, popR .ebx, popR .ebp, ret]

/-! ## The stacks the spawn functions build -/

/-- A stack being prepared: `*--sp = w` for each of `ws` from `top` down. -/
structure TaskStack where
  mem : Ram
  esp : Word

def pushFrame (m : Ram) (top : Word) (ws : List Word) : TaskStack :=
  ⟨pushWords m top ws, top - BitVec.ofNat 32 (4 * ws.length)⟩

/-- The words `task_setup_stack` stores, in the order of its stores. -/
def kernelFrame (top entry : Word) : List Word :=
  [0x10#32, top - 4#32 + 20#32, 0x202#32, 0x08#32, entry] ++ List.replicate 8 0#32 ++ [0x10#32]

/-- The words of a ring 3 frame, in the order of the stores. -/
def userFrame (entry userEsp : Word) : List Word :=
  [0x23#32, userEsp, 0x202#32, 0x1B#32, entry] ++ List.replicate 8 0#32 ++ [0x23#32, 0#32, 0#32]

/-- `task_setup_stack` of `sched_spawn`: `t->stack`, `t->stack_size` and `entry`. -/
def taskSetupStack (m : Ram) (stack stackSize entry : Word) : TaskStack :=
  pushFrame m (stack + stackSize) (kernelFrame (stack + stackSize) entry)

/-- `user_task_setup` of `user_spawn`. -/
def userTaskSetup (m : Ram) (stack stackSize entry userEsp : Word) : TaskStack :=
  pushFrame m (stack + stackSize) (userFrame entry userEsp)

/-- `ELF_USER_STACK_TOP - 4`. -/
def elfUserEsp : Word := 0x40000000#32 - 4#32

/-- The stack `elf_spawn` builds on its 8192-byte `kstack`. -/
def elfSpawnStack (m : Ram) (kstack entry : Word) : TaskStack :=
  pushFrame m (kstack + 8192#32) (userFrame entry elfUserEsp)

/-- The stack `sc_execve` builds for the current task. -/
def scExecveStack (m : Ram) (stack stackSize entry : Word) : TaskStack :=
  pushFrame m (stack + stackSize) (userFrame entry elfUserEsp)

/-- The stack `sc_fork` builds for the child: the eip word is 0. -/
def scForkStack (m : Ram) (childKstack parentEsp : Word) : TaskStack :=
  pushFrame m (childKstack + 4096#32) (userFrame 0#32 parentEsp)

/-- A task prepared by one of the five functions, with the arguments the frame is made of. -/
inductive Launch
  | schedSpawn (stack stackSize entry : Word)
  | userSpawn (stack stackSize entry userEsp : Word)
  | elfSpawn (kstack entry : Word)
  | scExecve (stack stackSize entry : Word)
  /-- `userEip`: where the parent returns to in user mode -/
  | scFork (childKstack parentEsp userEip : Word)

namespace Launch

def build (m : Ram) : Launch → TaskStack
  | schedSpawn stack size entry => taskSetupStack m stack size entry
  | userSpawn stack size entry userEsp => userTaskSetup m stack size entry userEsp
  | elfSpawn kstack entry => elfSpawnStack m kstack entry
  | scExecve stack size entry => scExecveStack m stack size entry
  | scFork kstack parentEsp _ => scForkStack m kstack parentEsp

/-- End of the task's stack area. -/
def stackTop : Launch → Word
  | schedSpawn stack size _ => stack + size
  | userSpawn stack size _ _ => stack + size
  | elfSpawn kstack _ => kstack + 8192#32
  | scExecve stack size _ => stack + size
  | scFork kstack _ _ => kstack + 4096#32

/-- The stores, in order. -/
def frame : Launch → List Word
  | schedSpawn stack size entry => kernelFrame (stack + size) entry
  | userSpawn _ _ entry userEsp => userFrame entry userEsp
  | elfSpawn _ entry => userFrame entry elfUserEsp
  | scExecve _ _ entry => userFrame entry elfUserEsp
  | scFork _ parentEsp _ => userFrame 0#32 parentEsp

theorem build_eq (m : Ram) (l : Launch) : l.build m = pushFrame m l.stackTop l.frame := by
  cases l <;> rfl

/-- `t->esp`. -/
def esp (l : Launch) : Word := l.stackTop - BitVec.ofNat 32 (4 * l.frame.length)

/-- Where the task is to start. -/
def entry : Launch → Word
  | schedSpawn _ _ entry => entry
  | userSpawn _ _ entry _ => entry
  | elfSpawn _ entry => entry
  | scExecve _ _ entry => entry
  | scFork _ _ userEip => userEip

/-- The code selector, the data and stack selector and the stack pointer the frame holds. -/
def frameCs : Launch → BitVec 16
  | schedSpawn .. => 0x08#16
  | _ => 0x1B#16

def frameDs : Launch → BitVec 16
  | schedSpawn .. => 0x10#16
  | _ => 0x23#16

def frameEsp : Launch → Word
  | schedSpawn stack size _ => stack + size - 4#32 + 20#32
  | userSpawn _ _ _ userEsp => userEsp
  | elfSpawn .. => elfUserEsp
  | scExecve .. => elfUserEsp
  | scFork _ parentEsp _ => parentEsp

end Launch

/-- The stack a spawn function leaves holds its frame, last store on top. -/
theorem build_words (m : Ram) (l : Launch) :
    Words (l.build m).mem (l.build m).esp l.frame.reverse ∧ (l.build m).esp = l.esp := by
  rw [Launch.build_eq]
  refine ⟨?_, rfl⟩
  have hlen : l.frame.length < 2 ^ 30 := by
    cases l <;> simp [Launch.frame, kernelFrame, userFrame]
  have h := Words.pushWords l.frame (Words.nil m l.stackTop) (by simpa using hlen)
  rw [List.append_nil] at h
  exact h

/-! ## `switch_context` -/

/-- `switch_context` called with `old_esp` and `new_esp` on the stack, resuming
a stack it does not itself write to: the registers and the instruction pointer
come from the first five words of the new stack. -/
theorem run_switchContext (c : Cpu) (back oldEsp newEsp w0 w1 w2 w3 w4 : Word)
    (hargs : Stack c [back, oldEsp, newEsp]) (hfe : Words c.mem newEsp [w0, w1, w2, w3, w4])
    (hsave : Apart (c.esp - 16#32) 16 newEsp 20) (hold : Apart oldEsp 4 newEsp 20) :
    ((run switchContext c).edi = w0 ∧ (run switchContext c).esi = w1 ∧ (run switchContext c).ebx = w2 ∧
      (run switchContext c).ebp = w3 ∧ (run switchContext c).eip = w4) ∧
    (run switchContext c).esp = newEsp + 20#32 ∧ (run switchContext c).cs = c.cs ∧
    (run switchContext c).mem =
      store32 (pushWords c.mem c.esp [c.ebp, c.ebx, c.esi, c.edi]) oldEsp (c.esp - 16#32) := by
  obtain ⟨-, hold', hnew', -⟩ := hargs
  have h8 : c.esp + 8#32 = c.esp + 4#32 + 4#32 := by grind
  have h16 : c.esp - 4#32 - 4#32 - 4#32 - 4#32 = c.esp - 16#32 := by grind
  -- the four pushes and the store of the old stack pointer leave the frame alone
  have hkp := (hfe.pushWords_apart [c.ebp, c.ebx, c.esi, c.edi] hsave).store
    (v := c.esp - 4#32 - 4#32 - 4#32 - 4#32) hold
  simp only [pushWords, Words] at hkp
  obtain ⟨h0, h1, h2, h3, h4, -⟩ := hkp
  simp only [run, switchContext, List.foldl, exec, Cpu.push, Cpu.drop, Cpu.top, Cpu.setReg, Cpu.reg, h8,
    hold', hnew', h0, h1, h2, h3, h4, true_and, and_true, pushWords]
  refine ⟨by grind, ?_⟩
  rw [h16]

/-! ## What is reached -/

/-- Where execution stands once `ret` has been taken: there, or, if `ret` led to
one of the kernel's interrupt returns (`irets`, by address), after that one. -/
def reached (irets : Word → Option (List Instr)) (c : Cpu) : Cpu :=
  match irets c.eip with
  | some is => run is c
  | none => c

/-- The task runs at its entry point, with the selectors and the stack pointer
that its frame holds. -/
structure StartsAt (l : Launch) (c : Cpu) : Prop where
  eip : c.eip = l.entry
  cs : c.cs = l.frameCs
  ss : c.ss = l.frameDs
  ds : c.ds = l.frameDs
  esp : c.esp = l.frameEsp

/-- The five words on top of a new stack; `ret` takes the last. -/
theorem frame_top (l : Launch) : ∃ w0 w1 w2 w3 ws, l.frame.reverse = w0 :: w1 :: w2 :: w3 :: 0#32 :: ws := by
  cases l <;> exact ⟨_, _, _, _, _, rfl⟩

theorem not_startsAt (l : Launch) (c : Cpu) (hcs : c.cs = 0x08#16) (hesp : c.esp = l.esp + 20#32) : ¬ StartsAt l c := by
  intro h
  have hcs' := h.cs
  rw [hcs] at hcs'
  cases l with
  | schedSpawn stack size entry =>
    -- `ret` leaves the stack pointer inside the frame, below the value stored there
    have hesp' := h.esp
    rw [hesp] at hesp'
    simp only [Launch.esp, Launch.frameEsp, Launch.stackTop, Launch.frame, kernelFrame,
      List.length_append, List.length_cons, List.length_nil, List.length_replicate] at hesp'
    grind
  | userSpawn | elfSpawn | scExecve | scFork => exact absurd hcs' (by simp [Launch.frameCs])

/-- A new task is resumed with its frame as built, from kernel code whose stack
and saved stack pointer lie elsewhere. -/
structure Resumes (l : Launch) (c : Cpu) (back oldEsp : Word) : Prop where
  args : Stack c [back, oldEsp, l.esp]
  frame : Words c.mem l.esp l.frame.reverse
  cs : c.cs = 0x08#16
  stack_apart : Apart (c.esp - 16#32) 16 l.esp 20
  old_apart : Apart oldEsp 4 l.esp 20

theorem Resumes.switchContext {l : Launch} {c : Cpu} {back oldEsp : Word} (h : Resumes l c back oldEsp) :
    (run switchContext c).eip = 0#32 ∧ (run switchContext c).esp = l.esp + 20#32 ∧
      (run switchContext c).cs = 0x08#16 := by
  obtain ⟨w0, w1, w2, w3, ws, hrev⟩ := frame_top l
  have hf := h.frame
  rw [hrev] at hf
  obtain ⟨h0, h1, h2, h3, h4, -⟩ := hf
  obtain ⟨⟨-, -, -, -, heip⟩, hesp, hcs, -⟩ := run_switchContext c back oldEsp l.esp w0 w1 w2 w3 0#32 h.args
    ⟨h0, h1, h2, h3, h4, trivial⟩ h.stack_apart h.old_apart
  exact ⟨heip, hesp, hcs.trans h.cs⟩

/-- **First resumption.**  Whatever the stack and the entry, `ret` goes to
address 0: no task starts at its entry point with the state of its frame.  The
image is linked at 0x100000, so no interrupt return is at address 0. -/
theorem launch_never_starts (l : Launch) (c : Cpu) (back oldEsp : Word) (h : Resumes l c back oldEsp)
    (irets : Word → Option (List Instr)) (hlink : ∀ a, irets a ≠ none → 0x100000 ≤ a.toNat) :
    (run switchContext c).eip = 0#32 ∧ ¬ StartsAt l (reached irets (run switchContext c)) := by
  obtain ⟨heip, hesp, hcs⟩ := h.switchContext
  refine ⟨heip, ?_⟩
  have hnn : irets 0#32 = none := by
    apply Classical.byContradiction
    intro hne
    exact absurd (hlink 0#32 hne) (by decide)
  simp only [reached, heip, hnn]
  exact not_startsAt l _ hcs hesp

/-- `sched_spawn` with the stack at 0x200010 and the entry point 0x101000. -/
def sampleLaunch : Launch := .schedSpawn 0x200010#32 4096#32 0x101000#32

/-- `switch_context(0x110000, t->esp)` called for `sampleLaunch` on a stack at 0x9000. -/
def sampleSwitch : Cpu where
  eax := 0#32
  ecx := 0#32
  edx := 0#32
  ebx := 0#32
  esp := 0x9000#32 - 12#32
  ebp := 0#32
  esi := 0#32
  edi := 0#32
  eip := 0x100500#32
  eflags := 0x202#32
  cs := 0x08#16
  ss := 0x10#16
  ds := 0x10#16
  es := 0x10#16
  fs := 0x10#16
  gs := 0x10#16
  mem := pushWords (sampleLaunch.build fun _ => 0#8).mem 0x9000#32
    [sampleLaunch.esp, 0x110000#32, 0x100500#32]

theorem sampleSwitch_resumes : Resumes sampleLaunch sampleSwitch 0x100500#32 0x110000#32 where
  args := Words.pushWords [sampleLaunch.esp, 0x110000#32, 0x100500#32] (Words.nil _ 0x9000#32) (by decide)
  frame := (build_words (fun _ => 0#8) sampleLaunch).1.pushWords_apart _
    (apart_of_le (by decide) (by decide))
  cs := rfl
  stack_apart := apart_of_le (by decide) (by decide)
  old_apart := apart_of_le (by decide) (by decide)

theorem launch_never_starts_sample :
    (run switchContext sampleSwitch).eip = 0#32 ∧
      ¬ StartsAt sampleLaunch (reached (fun _ => none) (run switchContext sampleSwitch)) :=
  launch_never_starts sampleLaunch sampleSwitch 0x100500#32 0x110000#32 sampleSwitch_resumes
    (fun _ => none) (fun _ h => absurd rfl h)

/-- The task spawned with entry 0x101000 is resumed at 0. -/
theorem sampleLaunch_at_zero :
    sampleLaunch.entry = 0x101000#32 ∧ (reached (fun _ => none) (run switchContext sampleSwitch)).eip = 0#32 ∧
      ¬ StartsAt sampleLaunch (reached (fun _ => none) (run switchContext sampleSwitch)) := by
  have heip : (reached (fun _ => none) (run switchContext sampleSwitch)).eip = 0#32 :=
    sampleSwitch_resumes.switchContext.1
  refine ⟨rfl, heip, fun h => ?_⟩
  have := h.eip.symm.trans heip
  revert this
  decide

end KumOS.X86
