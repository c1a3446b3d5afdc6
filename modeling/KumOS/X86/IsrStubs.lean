import KumOS.X86.Machine

/-!
# `boot/isr_stubs.asm`: the interrupt stubs and what their C handlers read

`isr_common` and `irq_common` save the registers and call `isr_handler` /
`irq_handler`, whose parameter is a `registers_t` passed by value: its first
word is the word above the return address.  `handlerFrame` is the stack at that
point.
-/

namespace KumOS.X86

open Lib Lib.Ram Instr

/-! ## The stubs -/

/-- The macro `ISR_NOERR n`. -/
def isrNoerr (n : Word) : List Instr := [cli, pushI 0#32, pushI n]

/-- The macro `ISR_ERR n`: the processor has pushed an error code. -/
def isrErr (n : Word) : List Instr := [cli, pushI n]

/-- The macro `IRQ k, n`. -/
def irq (n : Word) : List Instr := [cli, pushI 0#32, pushI n]

/-- The vectors declared with `ISR_ERR`. -/
def hasErr (n : Nat) : Bool := n = 8 || n = 10 || n = 11 || n = 12 || n = 13 || n = 14 || n = 17

/-- The stub the gate of vector `n` points to (`isr0`..`isr31`, `irq0`..`irq15`). -/
def vectorStub (n : Nat) : List Instr :=
  if hasErr n then isrErr (BitVec.ofNat 32 n)
  else if n < 32 then isrNoerr (BitVec.ofNat 32 n)
  else irq (BitVec.ofNat 32 n)

/-- `isr_common` up to its `call`. -/
def isrCommonEntry : List Instr :=
  [pusha, movAxS .ds, pushR .eax, movAxI 0x10#16, movSAx .ds, movSAx .es, movSAx .fs, movSAx .gs,
    pushR .esp]

/-- `isr_common` after its `call`. -/
def isrCommonExit : List Instr :=
  [popR .eax, popR .eax, movSAx .ds, movSAx .es, movSAx .fs, movSAx .gs, popa, addEsp 8#32, iret]

def isrCommon (back : Word) (isrHandler : Cpu → Cpu) : List Instr :=
  isrCommonEntry ++ call back isrHandler :: isrCommonExit

/-- `irq_common` is `isr_common` with the other handler. -/
def irqCommon (back : Word) (irqHandler : Cpu → Cpu) : List Instr :=
  isrCommonEntry ++ call back irqHandler :: isrCommonExit

/-- `registers_t` (`idt.h`). -/
structure Registers where
  ds : Word
  edi : Word
  esi : Word
  ebp : Word
  espDummy : Word
  ebx : Word
  edx : Word
  ecx : Word
  eax : Word
  intNo : Word
  errCode : Word
  eip : Word
  cs : Word
  eflags : Word
  esp : Word
  ss : Word

/-- The packed struct at address `a`. -/
def registersAt (m : Ram) (a : Word) : Registers where
  ds := load32 m a
  edi := load32 m (a + 4#32)
  esi := load32 m (a + 8#32)
  ebp := load32 m (a + 12#32)
  espDummy := load32 m (a + 16#32)
  ebx := load32 m (a + 20#32)
  edx := load32 m (a + 24#32)
  ecx := load32 m (a + 28#32)
  eax := load32 m (a + 32#32)
  intNo := load32 m (a + 36#32)
  errCode := load32 m (a + 40#32)
  eip := load32 m (a + 44#32)
  cs := load32 m (a + 48#32)
  eflags := load32 m (a + 52#32)
  esp := load32 m (a + 56#32)
  ss := load32 m (a + 60#32)

/-- The parameter `registers_t r` of a handler entered in state `c` (cdecl: by
value, above the return address). -/
def handlerParam (c : Cpu) : Registers := registersAt c.mem (c.esp + 4#32)

/-! ## From the interrupt to the handler -/

/-- Where the processor starts pushing. -/
def kernelStack (esp0 : Word) (c : Cpu) : Word := if fromUser c then esp0 else c.esp

/-- The words the processor pushes, top first (the error code apart). -/
def trapFrame (c : Cpu) : List Word :=
  [c.eip, c.cs.setWidth 32, c.eflags] ++ if fromUser c then [c.esp, c.ss.setWidth 32] else []

/-- The error code that vector `n` has: the processor pushes `e`, or the stub 0. -/
def pushedErr (n : Nat) (e : Word) : Word := if hasErr n then e else 0#32

/-- State after the stub of vector `n`, at `isr_common` / `irq_common`. -/
def atCommon (esp0 e stub : Word) (n : Nat) (c : Cpu) : Cpu :=
  run (vectorStub n) (deliver esp0 (if hasErr n then some e else none) stub c)

/-- The stack pointer when `pusha` starts. -/
def pushaEsp (esp0 : Word) (c : Cpu) : Word :=
  kernelStack esp0 c - BitVec.ofNat 32 (4 * ((trapFrame c).length + 2))

/-- State at the first instruction of the C handler. -/
def handlerEntry (esp0 e stub back : Word) (n : Nat) (c : Cpu) : Cpu :=
  (run isrCommonEntry (atCommon esp0 e stub n c)).push back

/-- The whole interrupt, from the interrupted instruction to the one `iret` returns to. -/
def interrupt (esp0 e stub back : Word) (n : Nat) (handler : Cpu → Cpu) (c : Cpu) : Cpu :=
  run (if n < 32 then isrCommon back handler else irqCommon back handler) (atCommon esp0 e stub n c)

theorem atCommon_eq (esp0 e stub : Word) (n : Nat) (c : Cpu) :
    atCommon esp0 e stub n c =
      { c with
        esp := pushaEsp esp0 c
        mem := pushWords c.mem (kernelStack esp0 c) ((trapFrame c).reverse ++ [pushedErr n e, BitVec.ofNat 32 n])
        ss := if fromUser c then 0x10#16 else c.ss
        eip := stub
        cs := 0x08#16
        eflags := c.eflags &&& ~~~0x200#32 } := by
  have hcli : c.eflags &&& ~~~0x200#32 &&& ~~~0x200#32 = c.eflags &&& ~~~0x200#32 := by
    rw [BitVec.and_assoc, BitVec.and_self]
  by_cases hu : fromUser c <;> by_cases he : hasErr n = true <;> by_cases hn : n < 32 <;>
    simp only [atCommon, deliver, vectorStub, isrErr, isrNoerr, irq, run, List.foldl, exec, Cpu.push,
      pushaEsp, trapFrame, kernelStack, pushedErr, pushWords, hu, he, hn, if_true, if_false,
      List.reverse_cons, List.reverse_nil, List.nil_append, List.append_nil, List.cons_append,
      List.length_cons, List.length_nil, hcli, Bool.false_eq_true] <;>
    congr 1 <;> grind

/-- The words on the stack when the C handler is entered, its return address on top. -/
def handlerFrame (esp0 e back : Word) (n : Nat) (c : Cpu) : List Word :=
  [back, pushaEsp esp0 c - 36#32, setLow c.eax c.ds, c.edi, c.esi, c.ebp, pushaEsp esp0 c, c.ebx,
    c.edx, c.ecx, c.eax, BitVec.ofNat 32 n, pushedErr n e] ++ trapFrame c

theorem trapFrame_length_le (c : Cpu) : (trapFrame c).length ≤ 5 := by
  unfold trapFrame
  split <;> simp

theorem isrCommonEntry_mem (c : Cpu) : (run isrCommonEntry c).mem =
    pushWords c.mem c.esp [c.eax, c.ecx, c.edx, c.ebx, c.esp, c.ebp, c.esi, c.edi,
      setLow c.eax c.ds, c.esp - 36#32] := by
  have h : c.esp - 36#32 = c.esp - 4#32 - 4#32 - 4#32 - 4#32 - 4#32 - 4#32 - 4#32 - 4#32 - 4#32 := by
    grind
  rw [h]
  simp only [run, isrCommonEntry, List.foldl, exec, Cpu.push, Cpu.setSeg, Cpu.reg, Cpu.seg, pushWords]

theorem isrCommonEntry_esp (c : Cpu) : (run isrCommonEntry c).esp = c.esp - 40#32 := by
  simp only [run, isrCommonEntry, List.foldl, exec, Cpu.push, Cpu.setSeg, Cpu.reg, Cpu.seg]
  grind

theorem isrCommonEntry_cs (c : Cpu) : (run isrCommonEntry c).cs = c.cs := by
  simp only [run, isrCommonEntry, List.foldl, exec, Cpu.push, Cpu.setSeg, Cpu.reg, Cpu.seg]

theorem handlerEntry_stack (esp0 e stub back : Word) (n : Nat) (c : Cpu) :
    Stack (handlerEntry esp0 e stub back n c) (handlerFrame esp0 e back n c) := by
  have hlen := trapFrame_length_le c
  -- the processor's words, the stub's two, then those of `isr_common`
  have h1 : Words (atCommon esp0 e stub n c).mem (atCommon esp0 e stub n c).esp
      (BitVec.ofNat 32 n :: pushedErr n e :: trapFrame c) := by
    have h := Words.pushWords ((trapFrame c).reverse ++ [pushedErr n e, BitVec.ofNat 32 n])
      (Words.nil c.mem (kernelStack esp0 c)) (by simp; omega)
    rw [atCommon_eq]
    simpa [pushaEsp, Nat.add_assoc] using h
  have h2 := Words.pushWords [c.eax, c.ecx, c.edx, c.ebx, pushaEsp esp0 c, c.ebp, c.esi, c.edi,
    setLow c.eax c.ds, pushaEsp esp0 c - 36#32] h1 (by simp; omega)
  have h3 : Stack (run isrCommonEntry (atCommon esp0 e stub n c))
      ((handlerFrame esp0 e back n c).tail) := by
    unfold Stack
    rw [isrCommonEntry_mem, isrCommonEntry_esp]
    rw [atCommon_eq] at h2 ⊢
    exact h2
  exact h3.push back (by simp [handlerFrame]; omega)

/-- The struct the handler reads starts one word below the saved `ds`: at the
stack pointer pushed last. -/
theorem handlerParam_eq (esp0 e stub back : Word) (n : Nat) (c : Cpu) :
    let r := handlerParam (handlerEntry esp0 e stub back n c)
    r.ds = pushaEsp esp0 c - 36#32 ∧ r.edi = setLow c.eax c.ds ∧ r.esi = c.edi ∧ r.ebp = c.esi ∧
      r.espDummy = c.ebp ∧ r.ebx = pushaEsp esp0 c ∧ r.edx = c.ebx ∧ r.ecx = c.edx ∧
      r.eax = c.ecx ∧ r.intNo = c.eax ∧ r.errCode = BitVec.ofNat 32 n ∧ r.eip = pushedErr n e ∧
      r.cs = c.eip ∧ r.eflags = c.cs.setWidth 32 := by
  have h := handlerEntry_stack esp0 e stub back n c
  have hget := h.get
  have hlen : (handlerFrame esp0 e back n c).length = 13 + (trapFrame c).length := by
    simp [handlerFrame]
    omega
  have htrap : 3 ≤ (trapFrame c).length := by simp [trapFrame]
  have hoff : ∀ a : Word, ∀ k l : Nat, a + BitVec.ofNat 32 k + BitVec.ofNat 32 l =
      a + BitVec.ofNat 32 (k + l) := by
    intro a k l
    rw [BitVec.add_assoc, ← BitVec.ofNat_add]
  simp only [handlerParam, registersAt, hoff]
  refine ⟨hget 1 (by omega), hget 2 (by omega), hget 3 (by omega), hget 4 (by omega),
    hget 5 (by omega), hget 6 (by omega), hget 7 (by omega), hget 8 (by omega), hget 9 (by omega),
    hget 10 (by omega), hget 11 (by omega), hget 12 (by omega), hget 13 (by omega),
    hget 14 (by omega)⟩

/-! ## From the handler back to the interrupted code -/

/-- The general-purpose registers and eip have the values they had in `c`. -/
structure Resumed (c c' : Cpu) : Prop where
  eax : c'.eax = c.eax
  ecx : c'.ecx = c.ecx
  edx : c'.edx = c.edx
  ebx : c'.ebx = c.ebx
  esp : c'.esp = c.esp
  ebp : c'.ebp = c.ebp
  esi : c'.esi = c.esi
  edi : c'.edi = c.edi
  eip : c'.eip = c.eip

/-- The exit code on a stack that still has the frame of `handlerFrame`. -/
theorem isrCommonExit_resumed (c d : Cpu) (w dsw espD n err : Word) (hcs : d.cs = 0x08#16)
    (hesp : ¬ fromUser c → d.esp + 60#32 = c.esp)
    (h : Stack d ([w, dsw, c.edi, c.esi, c.ebp, espD, c.ebx, c.edx, c.ecx, c.eax, n, err] ++ trapFrame c)) :
    Resumed c (run isrCommonExit d) := by
  have h8 : ∀ a : Word, a + 8#32 = a + 4#32 + 4#32 := by intro a; grind
  obtain ⟨-, -, hedi, hesi, hebp, -, hebx, hedx, hecx, heax, -, -, heip, hcs', hfl, hrs⟩ := h
  simp only [run, isrCommonExit, List.foldl, exec, execIret, Cpu.drop, Cpu.top, Cpu.setReg, Cpu.setSeg,
    h8, hedi, hesi, hebp, hebx, hedx, hecx, heax, heip, hcs', hfl, hcs, selector_setWidth]
  by_cases hu : fromUser c
  · rw [if_pos hu] at hrs
    obtain ⟨hesp', -, -⟩ := hrs
    have hne : ¬ (c.cs &&& 3#16 = 0x08#16 &&& 3#16) := by simpa [fromUser] using hu
    rw [if_neg hne]
    exact ⟨rfl, rfl, rfl, rfl, hesp', rfl, rfl, rfl, rfl⟩
  have heq : c.cs &&& 3#16 = 0x08#16 &&& 3#16 := by simpa [fromUser] using hu
  rw [if_pos heq]
  refine ⟨rfl, rfl, rfl, rfl, ?_, rfl, rfl, rfl, rfl⟩
  rw [← hesp hu]
  simp only [BitVec.add_assoc]
  rfl

/-- A handler that comes back with the frame as it was lets the interrupted code go on. -/
theorem interrupt_resumed (esp0 e stub back : Word) (n : Nat) (handler : Cpu → Cpu) (c : Cpu)
    (hh : ReturnsTo handler (handlerEntry esp0 e stub back n c) 0 (12 + (trapFrame c).length)) :
    Resumed c (interrupt esp0 e stub back n handler c) := by
  have hrun : interrupt esp0 e stub back n handler c =
      run isrCommonExit (handler (handlerEntry esp0 e stub back n c)) := by
    simp only [interrupt, isrCommon, irqCommon, ite_self, run_append, run_cons, exec]
    rfl
  have hst := hh.stack [] rfl (by simp; omega) (handlerEntry_stack esp0 e stub back n c)
  have hesp : (handlerEntry esp0 e stub back n c).esp = pushaEsp esp0 c - 40#32 - 4#32 := by
    simp only [handlerEntry, Cpu.push, isrCommonEntry_esp, atCommon_eq]
  rw [hrun]
  refine isrCommonExit_resumed c _ _ _ _ _ _ ?_ ?_ (by simpa [Stack] using hst)
  · rw [hh.cs]
    simp only [handlerEntry, Cpu.push, isrCommonEntry_cs, atCommon_eq]
  · intro hu
    rw [hh.esp, hesp]
    simp only [pushaEsp, kernelStack, trapFrame, if_neg hu, List.append_nil, List.length_cons,
      List.length_nil]
    grind

/-! ## The frame contract -/

/-- What the C handlers take their parameter to be: the vector, the error code
and the state the interrupt found. -/
structure FrameContract (n : Nat) (err : Word) (c : Cpu) (r : Registers) : Prop where
  intNo : r.intNo = BitVec.ofNat 32 n
  errCode : r.errCode = err
  eip : r.eip = c.eip
  cs : r.cs = c.cs.setWidth 32
  eflags : r.eflags = c.eflags
  eax : r.eax = c.eax
  ecx : r.ecx = c.ecx
  edx : r.edx = c.edx
  ebx : r.ebx = c.ebx
  ebp : r.ebp = c.ebp
  esi : r.esi = c.esi
  edi : r.edi = c.edi
  ds : r.ds.setWidth 16 = c.ds

/-- The interrupts on which reading every word one place too low goes unnoticed. -/
structure SkewHidden (esp0 e : Word) (n : Nat) (c : Cpu) : Prop where
  eax : c.eax = BitVec.ofNat 32 n
  ecx : c.ecx = BitVec.ofNat 32 n
  edx : c.edx = BitVec.ofNat 32 n
  ebx : c.ebx = BitVec.ofNat 32 n
  pushaEsp : pushaEsp esp0 c = BitVec.ofNat 32 n
  err : pushedErr n e = BitVec.ofNat 32 n
  eip : c.eip = BitVec.ofNat 32 n
  cs : c.cs.setWidth 32 = BitVec.ofNat 32 n
  eflags : c.eflags = BitVec.ofNat 32 n
  edi : c.edi = setLow c.eax c.ds
  esi : c.esi = c.edi
  ebp : c.ebp = c.esi
  ds : (KumOS.X86.pushaEsp esp0 c - 36#32).setWidth 16 = c.ds

theorem frameContract_iff (esp0 e stub back : Word) (n : Nat) (c : Cpu) :
    FrameContract n (pushedErr n e) c (handlerParam (handlerEntry esp0 e stub back n c)) ↔ SkewHidden esp0 e n c := by
  obtain ⟨hds, hedi, hesi, hebp, -, hebx, hedx, hecx, heax, hint, herr, heip, hcs, hfl⟩ :=
    handlerParam_eq esp0 e stub back n c
  constructor
  · intro h
    have eax : c.eax = BitVec.ofNat 32 n := hint.symm.trans h.intNo
    have ecx : c.ecx = BitVec.ofNat 32 n := (heax.symm.trans h.eax).trans eax
    have edx : c.edx = BitVec.ofNat 32 n := (hecx.symm.trans h.ecx).trans ecx
    have ebx : c.ebx = BitVec.ofNat 32 n := (hedx.symm.trans h.edx).trans edx
    have err : pushedErr n e = BitVec.ofNat 32 n := (herr.symm.trans h.errCode).symm
    have eip : c.eip = BitVec.ofNat 32 n := (h.eip.symm.trans heip).trans err
    have cs : c.cs.setWidth 32 = BitVec.ofNat 32 n := (h.cs.symm.trans hcs).trans eip
    exact ⟨eax, ecx, edx, ebx, (hebx.symm.trans h.ebx).trans ebx, err, eip, cs,
      (h.eflags.symm.trans hfl).trans cs, h.edi.symm.trans hedi, h.esi.symm.trans hesi,
      h.ebp.symm.trans hebp, hds ▸ h.ds⟩
  · intro h
    exact ⟨hint.trans h.eax, herr.trans h.err.symm, heip.trans (h.err.trans h.eip.symm),
      hcs.trans (h.eip.trans h.cs.symm), hfl.trans (h.cs.trans h.eflags.symm),
      heax.trans (h.ecx.trans h.eax.symm), hecx.trans (h.edx.trans h.ecx.symm),
      hedx.trans (h.ebx.trans h.edx.symm), hebx.trans (h.pushaEsp.trans h.ebx.symm),
      hebp.trans h.ebp.symm, hesi.trans h.esi.symm, hedi.trans h.edi.symm, hds ▸ h.ds⟩

/-- `irq_handler`'s `irq`: the line whose handler it runs and acknowledges. -/
def irqLine (r : Registers) : BitVec 8 := (r.intNo - 32#32).setWidth 8

/-- The line of vector `n` is served just if the interrupted eax ends in `n`. -/
theorem irqLine_iff (esp0 e stub back : Word) (n : Nat) (c : Cpu) :
    irqLine (handlerParam (handlerEntry esp0 e stub back n c)) = BitVec.ofNat 8 n - 32#8 ↔
      c.eax.setWidth 8 = BitVec.ofNat 8 n := by
  have hint := (handlerParam_eq esp0 e stub back n c).2.2.2.2.2.2.2.2.2.1
  rw [irqLine, hint]
  bv_omega

/-- **Interrupt frames.**  The return to the interrupted code is always right;
what the handler reads is right only on the interrupts of `SkewHidden`. -/
theorem interrupt_contract_iff (esp0 e stub back : Word) (n : Fin 48) (c : Cpu) (handler : Cpu → Cpu)
    (hh : ReturnsTo handler (handlerEntry esp0 e stub back n c) 0 (12 + (trapFrame c).length)) :
    (FrameContract n (pushedErr n e) c (handlerParam (handlerEntry esp0 e stub back n c)) ∧
      Resumed c (interrupt esp0 e stub back n handler c)) ↔ SkewHidden esp0 e n c := by
  rw [frameContract_iff]
  exact ⟨fun h => h.1, fun h => ⟨h, interrupt_resumed esp0 e stub back n handler c hh⟩⟩

/-- Kernel code at 0x100123 with 5 in eax, all other registers 0. -/
def sampleCpu : Cpu where
  eax := 5#32
  ecx := 0#32
  edx := 0#32
  ebx := 0#32
  esp := 0x9000#32
  ebp := 0#32
  esi := 0#32
  edi := 0#32
  eip := 0x100123#32
  eflags := 0x202#32
  cs := 0x08#16
  ss := 0x10#16
  ds := 0x10#16
  es := 0x10#16
  fs := 0x10#16
  gs := 0x10#16
  mem := fun _ => 0#8

/-- A C function that only returns. -/
def returnOnly (c : Cpu) : Cpu := c.drop

theorem returnOnly_returnsTo (c : Cpu) (lo n : Nat) : ReturnsTo returnOnly c lo n :=
  ⟨rfl, rfl, fun _ _ _ => rfl⟩

theorem interrupt_contract_iff_timer :
    (FrameContract 32 0#32 sampleCpu
        (handlerParam (handlerEntry 0#32 0#32 0x101000#32 0x101100#32 32 sampleCpu)) ∧
      Resumed sampleCpu (interrupt 0#32 0#32 0x101000#32 0x101100#32 32 returnOnly sampleCpu)) ↔
    SkewHidden 0#32 0#32 32 sampleCpu :=
  interrupt_contract_iff 0#32 0#32 0x101000#32 0x101100#32 32 sampleCpu returnOnly
    (returnOnly_returnsTo _ _ _)

/-- The timer interrupt (vector 32) over code with 5 in eax: `irq_handler` reads int_no 5. -/
theorem timer_frame_skewed :
    (handlerParam (handlerEntry 0#32 0#32 0x101000#32 0x101100#32 32 sampleCpu)).intNo = 5#32 ∧
    ¬ FrameContract 32 (pushedErr 32 0#32) sampleCpu
      (handlerParam (handlerEntry 0#32 0#32 0x101000#32 0x101100#32 32 sampleCpu)) := by
  have hint := (handlerParam_eq 0#32 0#32 0x101000#32 0x101100#32 32 sampleCpu).2.2.2.2.2.2.2.2.2.1
  refine ⟨hint, fun h => ?_⟩
  have := h.intNo.symm.trans hint
  revert this
  decide

end KumOS.X86
