import KumOS.X86.IsrStubs

/-!
# `isr128`: the system call entry

`int 0x80` enters `isr128`, which saves edx, ecx, ebx and the four data segment
selectors, reloads the arguments of `syscall_dispatch` from the stack and calls
it.  Above the seven saved words lies the processor's frame, whose first word
is the interrupted eip: eax itself is never saved.
-/

namespace KumOS.X86

open Lib Lib.Ram Instr

/-- `isr128` up to the reload of its arguments. -/
def isr128Save : List Instr :=
  [pushR .edx, pushR .ecx, pushR .ebx, pushS .ds, pushS .es, pushS .fs, pushS .gs, movAxI 0x10#16,
    movSAx .ds, movSAx .es, movSAx .fs, movSAx .gs]

/-- The reload and the four pushes before `call syscall_dispatch`. -/
def isr128Args : List Instr :=
  [load .eax .esp 28#32, load .ebx .esp 24#32, load .ecx .esp 20#32, load .edx .esp 16#32,
    pushR .edx, pushR .ecx, pushR .ebx, pushR .eax]

def isr128Exit : List Instr :=
  [addEsp 16#32, popS .gs, popS .fs, popS .es, popS .ds, popR .ebx, popR .ecx, popR .edx, iret]

def isr128 (back : Word) (syscallDispatch : Cpu → Cpu) : List Instr :=
  isr128Save ++ (isr128Args ++ call back syscallDispatch :: isr128Exit)

/-- The parameters of `syscall_dispatch`. -/
structure SyscallArgs where
  num : Word
  a : Word
  b : Word
  c : Word
deriving DecidableEq

/-- The parameters of a C function entered in state `c` (cdecl). -/
def syscallArgs (c : Cpu) : SyscallArgs where
  num := load32 c.mem (c.esp + 4#32)
  a := load32 c.mem (c.esp + 8#32)
  b := load32 c.mem (c.esp + 12#32)
  c := load32 c.mem (c.esp + 16#32)

/-- State at the first instruction of `syscall_dispatch`. -/
def dispatchEntry (esp0 stub back : Word) (c : Cpu) : Cpu :=
  (run isr128Args (run isr128Save (deliver esp0 none stub c))).push back

/-- `int 0x80` in state `c`, up to the instruction `iret` returns to. -/
def int80 (esp0 stub back : Word) (syscallDispatch : Cpu → Cpu) (c : Cpu) : Cpu :=
  run (isr128 back syscallDispatch) (deliver esp0 none stub c)

/-! ## The stack at `syscall_dispatch` -/

/-- The words `isr128` saves over the processor's frame. -/
def savedFrame (c : Cpu) : List Word :=
  [c.gs.setWidth 32, c.fs.setWidth 32, c.es.setWidth 32, c.ds.setWidth 32, c.ebx, c.ecx, c.edx] ++
    trapFrame c

theorem deliver_eq (esp0 stub : Word) (c : Cpu) :
    deliver esp0 none stub c =
      { c with
        esp := kernelStack esp0 c - BitVec.ofNat 32 (4 * (trapFrame c).length)
        mem := pushWords c.mem (kernelStack esp0 c) (trapFrame c).reverse
        ss := if fromUser c then 0x10#16 else c.ss
        eip := stub
        cs := 0x08#16
        eflags := c.eflags &&& ~~~0x200#32 } := by
  by_cases hu : fromUser c <;>
    simp only [deliver, Cpu.push, trapFrame, kernelStack, pushWords, hu, if_true, if_false,
      List.reverse_cons, List.reverse_nil, List.nil_append, List.append_nil, List.cons_append,
      List.length_cons, List.length_nil] <;>
    congr 1 <;> grind

theorem isr128Save_mem (c : Cpu) : (run isr128Save c).mem =
    pushWords c.mem c.esp [c.edx, c.ecx, c.ebx, c.ds.setWidth 32, c.es.setWidth 32,
      c.fs.setWidth 32, c.gs.setWidth 32] := by
  simp only [run, isr128Save, List.foldl, exec, Cpu.push, Cpu.setSeg, Cpu.reg, Cpu.seg, pushWords]

theorem isr128Save_esp (c : Cpu) : (run isr128Save c).esp = c.esp - 28#32 := by
  simp only [run, isr128Save, List.foldl, exec, Cpu.push, Cpu.setSeg, Cpu.reg, Cpu.seg]
  grind

theorem isr128Save_stack (esp0 stub : Word) (c : Cpu) :
    Stack (run isr128Save (deliver esp0 none stub c)) (savedFrame c) := by
  have hlen := trapFrame_length_le c
  have h1 : Words (deliver esp0 none stub c).mem (deliver esp0 none stub c).esp (trapFrame c) := by
    have h := Words.pushWords (trapFrame c).reverse (Words.nil c.mem (kernelStack esp0 c))
      (by simp; omega)
    rw [deliver_eq]
    simpa using h
  have h2 := Words.pushWords [c.edx, c.ecx, c.ebx, c.ds.setWidth 32, c.es.setWidth 32,
    c.fs.setWidth 32, c.gs.setWidth 32] h1 (by simp; omega)
  unfold Stack
  rw [isr128Save_mem, isr128Save_esp]
  rw [deliver_eq] at h2 ⊢
  exact h2

/-- The four arguments `isr128` pushes: the word above the saved registers is
the interrupted eip, and ebx and edx are loaded from each other's place. -/
theorem dispatchEntry_stack (esp0 stub back : Word) (c : Cpu) :
    Stack (dispatchEntry esp0 stub back c) ([back, c.eip, c.edx, c.ecx, c.ebx] ++ savedFrame c) := by
  have hlen := trapFrame_length_le c
  have h := isr128Save_stack esp0 stub c
  have hl : (savedFrame c).length = 7 + (trapFrame c).length := by simp [savedFrame]; omega
  have ht : 3 ≤ (trapFrame c).length := by simp [trapFrame]
  have h28 := h.get 7 (by omega)
  have h24 := h.get 6 (by omega)
  have h20 := h.get 5 (by omega)
  have h16 := h.get 4 (by omega)
  have h4 := (((h.push c.ebx (by omega)).push c.ecx (by simp; omega)).push c.edx
    (by simp; omega)).push c.eip (by simp; omega)
  have h5 := h4.push back (by simp; omega)
  refine h5.of_eq ?_ ?_ <;>
    simp only [dispatchEntry, run_cons, isr128Args, exec, Cpu.push, Cpu.setReg, Cpu.reg, h28, h24, h20, h16] <;>
    rfl

theorem dispatchEntry_args (esp0 stub back : Word) (c : Cpu) :
    syscallArgs (dispatchEntry esp0 stub back c) = ⟨c.eip, c.edx, c.ecx, c.ebx⟩ := by
  have h := dispatchEntry_stack esp0 stub back c
  have h1 := h.get 1 (by simp)
  have h2 := h.get 2 (by simp)
  have h3 := h.get 3 (by simp)
  have h4 := h.get 4 (by simp)
  simp only [syscallArgs, SyscallArgs.mk.injEq]
  exact ⟨h1, h2, h3, h4⟩

/-! ## The return -/

/-- What the caller of `int 0x80` finds: the result in eax, and ebx, ecx, edx
and the data segment selectors as before. -/
structure SyscallReturn (result : Word) (c c' : Cpu) : Prop where
  eax : c'.eax = result
  ebx : c'.ebx = c.ebx
  ecx : c'.ecx = c.ecx
  edx : c'.edx = c.edx
  ds : c'.ds = c.ds
  es : c'.es = c.es
  fs : c'.fs = c.fs
  gs : c'.gs = c.gs
  eip : c'.eip = c.eip

theorem isr128Exit_return (c d : Cpu) (h : Words d.mem (d.esp + 16#32) (savedFrame c)) :
    SyscallReturn d.eax c (run isr128Exit d) := by
  obtain ⟨hgs, hfs, hes, hds, hebx, hecx, hedx, heip, -, -, -⟩ := h
  have hrun : run isr128Exit d = execIret { d with
      esp := d.esp + 16#32 + 4#32 + 4#32 + 4#32 + 4#32 + 4#32 + 4#32 + 4#32
      gs := c.gs, fs := c.fs, es := c.es, ds := c.ds, ebx := c.ebx, ecx := c.ecx, edx := c.edx } := by
    simp only [run, isr128Exit, List.foldl, exec, Cpu.drop, Cpu.top, Cpu.setReg, Cpu.setSeg, hgs, hfs,
      hes, hds, hebx, hecx, hedx, selector_setWidth]
  obtain ⟨eip, eax, ebx, ecx, edx, ds, es, fs, gs⟩ := execIret_regs { d with
      esp := d.esp + 16#32 + 4#32 + 4#32 + 4#32 + 4#32 + 4#32 + 4#32 + 4#32
      gs := c.gs, fs := c.fs, es := c.es, ds := c.ds, ebx := c.ebx, ecx := c.ecx, edx := c.edx }
  rw [hrun]
  exact ⟨eax, ebx, ecx, edx, ds, es, fs, gs, eip.trans heip⟩

theorem int80_return (esp0 stub back : Word) (syscallDispatch : Cpu → Cpu) (c : Cpu)
    (hd : ReturnsTo syscallDispatch (dispatchEntry esp0 stub back c) 4 (4 + (savedFrame c).length)) :
    SyscallReturn (syscallDispatch (dispatchEntry esp0 stub back c)).eax c
      (int80 esp0 stub back syscallDispatch c) := by
  apply isr128Exit_return
  exact hd.stack [c.eip, c.edx, c.ecx, c.ebx] rfl (by omega) (dispatchEntry_stack esp0 stub back c)

/-- **System calls.**  The return is always right; the arguments are those of
the caller exactly when the interrupted eip equals eax and ebx equals edx. -/
theorem int80_contract_iff (esp0 stub back : Word) (syscallDispatch : Cpu → Cpu) (c : Cpu)
    (hd : ReturnsTo syscallDispatch (dispatchEntry esp0 stub back c) 4 (4 + (savedFrame c).length)) :
    (syscallArgs (dispatchEntry esp0 stub back c) = ⟨c.eax, c.ebx, c.ecx, c.edx⟩ ∧
      SyscallReturn (syscallDispatch (dispatchEntry esp0 stub back c)).eax c
        (int80 esp0 stub back syscallDispatch c)) ↔ (c.eip = c.eax ∧ c.ebx = c.edx) := by
  rw [dispatchEntry_args, SyscallArgs.mk.injEq]
  constructor
  · rintro ⟨⟨heip, hedx, -, -⟩, -⟩
    exact ⟨heip, hedx.symm⟩
  · rintro ⟨heip, hebx⟩
    exact ⟨⟨heip, hebx.symm, rfl, hebx⟩, int80_return esp0 stub back syscallDispatch c hd⟩

theorem int80_contract_iff_sample :
    (syscallArgs (dispatchEntry 0#32 0x102000#32 0x102040#32 sampleCpu) =
        ⟨sampleCpu.eax, sampleCpu.ebx, sampleCpu.ecx, sampleCpu.edx⟩ ∧
      SyscallReturn (returnOnly (dispatchEntry 0#32 0x102000#32 0x102040#32 sampleCpu)).eax sampleCpu
        (int80 0#32 0x102000#32 0x102040#32 returnOnly sampleCpu)) ↔
    (sampleCpu.eip = sampleCpu.eax ∧ sampleCpu.ebx = sampleCpu.edx) :=
  int80_contract_iff 0#32 0x102000#32 0x102040#32 returnOnly sampleCpu (returnOnly_returnsTo _ _ _)

/-- System call 5 at 0x100123: `syscall_dispatch` gets the address as its number. -/
theorem int80_num_is_eip :
    (syscallArgs (dispatchEntry 0#32 0x102000#32 0x102040#32 sampleCpu)).num = 0x100123#32 ∧
    syscallArgs (dispatchEntry 0#32 0x102000#32 0x102040#32 sampleCpu) ≠
      ⟨sampleCpu.eax, sampleCpu.ebx, sampleCpu.ecx, sampleCpu.edx⟩ := by
  decide

end KumOS.X86
