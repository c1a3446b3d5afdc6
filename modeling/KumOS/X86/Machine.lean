import KumOS.Lib.Words

/-!
# The processor state and the instructions of `boot/*.asm`

A 32-bit register file, the segment selectors and the memory; one constructor
of `Instr` per instruction form that `boot/isr_stubs.asm` and
`boot/sched_switch.asm` use, with `exec` as its effect.  A C function reached
by `call` is a function on processor states: it receives the state at its first
instruction (return address on top of the stack) and gives the one after its
`ret`.  `deliver` is what the processor itself does when it takes an interrupt.
-/

namespace KumOS.X86

open Lib Lib.Ram

variable {ws : List Word}

structure Cpu where
  eax : Word
  ecx : Word
  edx : Word
  ebx : Word
  esp : Word
  ebp : Word
  esi : Word
  edi : Word
  eip : Word
  eflags : Word
  cs : BitVec 16
  ss : BitVec 16
  ds : BitVec 16
  es : BitVec 16
  fs : BitVec 16
  gs : BitVec 16
  mem : Ram

variable {c : Cpu}

inductive Reg
  | eax | ecx | edx | ebx | esp | ebp | esi | edi
deriving DecidableEq

inductive Seg
  | ds | es | fs | gs
deriving DecidableEq

namespace Cpu

def reg (c : Cpu) : Reg → Word
  | .eax => c.eax
  | .ecx => c.ecx
  | .edx => c.edx
  | .ebx => c.ebx
  | .esp => c.esp
  | .ebp => c.ebp
  | .esi => c.esi
  | .edi => c.edi

def setReg (c : Cpu) (r : Reg) (v : Word) : Cpu :=
  match r with
  | .eax => { c with eax := v }
  | .ecx => { c with ecx := v }
  | .edx => { c with edx := v }
  | .ebx => { c with ebx := v }
  | .esp => { c with esp := v }
  | .ebp => { c with ebp := v }
  | .esi => { c with esi := v }
  | .edi => { c with edi := v }

def seg (c : Cpu) : Seg → BitVec 16
  | .ds => c.ds
  | .es => c.es
  | .fs => c.fs
  | .gs => c.gs

def setSeg (c : Cpu) (s : Seg) (v : BitVec 16) : Cpu :=
  match s with
  | .ds => { c with ds := v }
  | .es => { c with es := v }
  | .fs => { c with fs := v }
  | .gs => { c with gs := v }

def push (c : Cpu) (v : Word) : Cpu :=
  { c with esp := c.esp - 4#32, mem := store32 c.mem (c.esp - 4#32) v }

/-- The word on top of the stack. -/
def top (c : Cpu) : Word := load32 c.mem c.esp

/-- The stack pointer moved up over the top word. -/
def drop (c : Cpu) : Cpu := { c with esp := c.esp + 4#32 }

end Cpu

/-- `mov ax, v`: the upper half of `eax` stays. -/
def setLow (r : Word) (v : BitVec 16) : Word := r.extractLsb' 16 16 ++ v

/-- A selector pushed as a word comes back from its low half. -/
theorem selector_setWidth (s : BitVec 16) : (s.setWidth 32).setWidth 16 = s := by
  ext i hi
  simp

inductive Instr
  /-- `push r`, `push dword v`, `push s` -/
  | pushR (r : Reg)
  | pushI (v : Word)
  | pushS (s : Seg)
  | popR (r : Reg)
  | popS (s : Seg)
  | pusha
  | popa
  /-- `mov r, [b + off]` -/
  | load (r b : Reg) (off : Word)
  /-- `mov [b], r` -/
  | store (b r : Reg)
  | mov (r r' : Reg)
  /-- `mov ax, v`, `mov ax, s`, `mov s, ax` -/
  | movAxI (v : BitVec 16)
  | movAxS (s : Seg)
  | movSAx (s : Seg)
  | addEsp (v : Word)
  | cli
  /-- `call f`, the next instruction being at `back` -/
  | call (back : Word) (f : Cpu → Cpu)
  | ret
  | iret

open Instr

/-- The processor takes eip, cs and eflags from the stack, and when the
selector returned to has another privilege level than `cs`, esp and ss too. -/
def execIret (c : Cpu) : Cpu :=
  let c1 := { c.drop.drop.drop with
    eip := c.top
    cs := c.drop.top.setWidth 16
    eflags := c.drop.drop.top }
  if c1.cs &&& 3#16 = c.cs &&& 3#16 then c1
  else { c1 with esp := c1.top, ss := c1.drop.top.setWidth 16 }

/-- `iret` keeps the registers other than esp and takes eip from the top. -/
theorem execIret_regs (c : Cpu) : (execIret c).eip = c.top ∧ (execIret c).eax = c.eax ∧
    (execIret c).ebx = c.ebx ∧ (execIret c).ecx = c.ecx ∧ (execIret c).edx = c.edx ∧
    (execIret c).ds = c.ds ∧ (execIret c).es = c.es ∧ (execIret c).fs = c.fs ∧
    (execIret c).gs = c.gs := by
  unfold execIret
  simp only []
  split
  · exact ⟨rfl, rfl, rfl, rfl, rfl, rfl, rfl, rfl, rfl⟩
  · exact ⟨rfl, rfl, rfl, rfl, rfl, rfl, rfl, rfl, rfl⟩

def exec (c : Cpu) : Instr → Cpu
  | pushR r => c.push (c.reg r)
  | pushI v => c.push v
  | pushS s => c.push ((c.seg s).setWidth 32)
  | popR r => c.drop.setReg r c.top
  | popS s => c.drop.setSeg s (c.top.setWidth 16)
  | pusha =>
    (((((((c.push c.eax).push c.ecx).push c.edx).push c.ebx).push c.esp).push c.ebp).push c.esi).push c.edi
  | popa =>
    let c1 := c.drop.setReg .edi c.top
    let c2 := c1.drop.setReg .esi c1.top
    let c3 := c2.drop.setReg .ebp c2.top
    let c4 := c3.drop
    let c5 := c4.drop.setReg .ebx c4.top
    let c6 := c5.drop.setReg .edx c5.top
    let c7 := c6.drop.setReg .ecx c6.top
    c7.drop.setReg .eax c7.top
  | load r b off => c.setReg r (load32 c.mem (c.reg b + off))
  | store b r => { c with mem := store32 c.mem (c.reg b) (c.reg r) }
  | mov r r' => c.setReg r (c.reg r')
  | movAxI v => { c with eax := setLow c.eax v }
  | movAxS s => { c with eax := setLow c.eax (c.seg s) }
  | movSAx s => c.setSeg s (c.eax.setWidth 16)
  | addEsp v => { c with esp := c.esp + v }
  | cli => { c with eflags := c.eflags &&& ~~~0x200#32 }
  | call back f => f (c.push back)
  | ret => { c.drop with eip := c.top }
  | iret => execIret c

def run (is : List Instr) (c : Cpu) : Cpu := is.foldl exec c

theorem run_append (is js : List Instr) (c : Cpu) : run (is ++ js) c = run js (run is c) :=
  List.foldl_append

theorem run_cons (i : Instr) (is : List Instr) (c : Cpu) : run (i :: is) c = run is (exec c i) := rfl

/-! ## Interrupts -/

/-- The interrupted code runs outside ring 0, so the processor first changes
to the kernel stack of the task state segment. -/
def fromUser (c : Cpu) : Prop := c.cs &&& 3#16 ≠ 0#16

instance (c : Cpu) : Decidable (fromUser c) := inferInstanceAs (Decidable (_ ≠ _))

/-- `deliver esp0 err stub c`: the processor enters the interrupt gate of
`idt_set` (selector 0x08) with handler address `stub`.  `esp0` is the kernel
stack of the task state segment, `err` the error code of the vectors that have one. -/
def deliver (esp0 : Word) (err : Option Word) (stub : Word) (c : Cpu) : Cpu :=
  let c1 := if fromUser c then
      (({ c with esp := esp0, ss := 0x10#16 }).push (c.ss.setWidth 32)).push c.esp
    else c
  let c2 := ((c1.push c.eflags).push (c.cs.setWidth 32)).push c.eip
  let c3 := match err with
    | some e => c2.push e
    | none => c2
  { c3 with eip := stub, cs := 0x08#16, eflags := c.eflags &&& ~~~0x200#32 }

/-! ## The words on the stack -/

/-- The words `ws` lie on the stack, `ws`'s head on top. -/
def Stack (c : Cpu) (ws : List Word) : Prop := Words c.mem c.esp ws

instance (c : Cpu) (ws : List Word) : Decidable (Stack c ws) := inferInstanceAs (Decidable (Words c.mem c.esp ws))

theorem Stack.push (h : Stack c ws) (v : Word) (hlen : ws.length < 2 ^ 30) : Stack (c.push v) (v :: ws) :=
  Words.push h hlen v

theorem Stack.get (h : Stack c ws) (i : Nat) (hi : i < ws.length) :
    load32 c.mem (c.esp + BitVec.ofNat 32 (4 * i)) = ws[i] :=
  Words.get h i hi

/-- `Stack` depends on the stack pointer and the memory only. -/
theorem Stack.of_eq {c' : Cpu} (h : Stack c ws) (he : c'.esp = c.esp) (hm : c'.mem = c.mem) : Stack c' ws := by
  unfold Stack
  rw [he, hm]
  exact h

/-- A C function `f` called in state `c` returns to its caller: `ret` has taken
the return address, the code segment is as before, and so are the words `i`
above the return address with `lo ≤ i < n` (the first `lo` are its arguments,
which belong to the callee). -/
structure ReturnsTo (f : Cpu → Cpu) (c : Cpu) (lo n : Nat) : Prop where
  esp : (f c).esp = c.esp + 4#32
  cs : (f c).cs = c.cs
  words : ∀ i, lo ≤ i → i < n → load32 (f c).mem (c.esp + BitVec.ofNat 32 (4 * (i + 1))) =
    load32 c.mem (c.esp + BitVec.ofNat 32 (4 * (i + 1)))

/-- After the call and the removal of its arguments the caller finds its stack again. -/
theorem ReturnsTo.stack {f : Cpu → Cpu} {lo n : Nat} (h : ReturnsTo f c lo n) (args : List Word) {back : Word}
    (hargs : args.length = lo) (hws : lo + ws.length ≤ n) (hs : Stack c (back :: args ++ ws)) :
    Words (f c).mem ((f c).esp + BitVec.ofNat 32 (4 * lo)) ws := by
  apply Words.of_get
  intro i hi
  have hg := hs.get (1 + args.length + i) (by simp; omega)
  rw [List.getElem_append_right (by simp; omega)] at hg
  simp only [List.length_cons, show 1 + args.length + i - (args.length + 1) = i by omega] at hg
  have hw := h.words (lo + i) (by omega) (by omega)
  rw [show 4 * (lo + i + 1) = 4 * (1 + args.length + i) by omega, hg] at hw
  rw [← hw, h.esp]
  congr 1
  rw [BitVec.add_assoc, BitVec.add_assoc, ← BitVec.ofNat_add, ← BitVec.ofNat_add]
  congr 2
  omega

end KumOS.X86
