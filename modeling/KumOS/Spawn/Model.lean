import KumOS.Heap.Usage
import KumOS.Paging.Regions
import KumOS.Sched.ExitStatus

/-!
# The four ways to start a task

`sched_spawn`, `user_spawn`, `elf_spawn` and `sc_fork` with the memory they take: kernel
stacks from `kmalloc`, pages and regions from the paging code, a slot of the task table.
The three parts of the kernel are modelled side by side.  A call that does not return
(`none`) is one in which `vmalloc` stops the machine.
-/

namespace KumOS.Spawn

open Lib X86 Kmalloc Paging Sched

/-- The heap, the paging code and the task table. -/
structure Kernel where
  world : Kmalloc.World
  phys : Phys
  table : TaskTable

namespace Kernel

def kmalloc (k : Kernel) (n : Nat) : Option (Nat × Kernel) :=
  (k.world.kmalloc n).map fun r => (r.1, { k with world := r.2 })

def kfree (k : Kernel) (p : Nat) : Kernel := { k with world := k.world.kfree p }

/-- `if (t->stack) kfree(t->stack);` -/
def freeStack (k : Kernel) (t : Task) : Kernel := if t.stack = 0#32 then k else k.kfree t.stack.toNat

def spawnStackSize : Nat := 4096

/-- `sched_spawn` with its `kmalloc`. -/
def schedSpawn (k : Kernel) (name : List UInt8) (entry : Word) (kumLevel : Int) : Option (Int × Kernel) :=
  if schedMaxTasks ≤ k.table.taskCount then some (-1, k)
  else
    (k.kmalloc spawnStackSize).map fun (stack, k1) =>
      if stack = 0 then (-1, k1)
      else if schedMaxTasks ≤ findSlot k1.table then (-1, k1.kfree stack)
      else
        let r := Sched.schedSpawn k1.table name entry kumLevel (some (BitVec.ofNat 32 stack))
        (r.1, { k1 with table := r.2 })

/-! ## `user_spawn` -/

def userStackSize : Nat := 8192

/-- The loop over the pages of the user stack. -/
def mapUser (im : Image) (ustack : Nat) : Nat → Phys → Phys
  | 0, s => s
  | n + 1, s =>
    let s1 := mapUser im ustack n s
    let virt := u32 (ustack + n * pageSize)
    let phys := s1.pagingVirtToPhys im virt
    if phys = 0 then s1 else s1.pagingMap im virt phys (pageWrite ||| pageUser)

/-- What follows the call of `sched_spawn`. -/
def userSpawned (im : Image) (kstack ustack : Nat) (entry : Word) (pid : Int) (k : Kernel) : Int × Kernel :=
  if pid < 0 then (-1, { k.kfree kstack with phys := k.phys.vmfree im ustack })
  else
    match schedGetTaskIdx k.table pid with
    | none => (pid, k)
    | some i =>
      let t := k.table.tasks i
      let ts := userTaskSetup k.table.mem t.stack t.stackSize entry (BitVec.ofNat 32 (ustack + userStackSize - 4))
      (pid, { k with table := { k.table.setTask i { t with esp := ts.esp } with mem := ts.mem } })

def userSpawn (im : Image) (k : Kernel) (name : List UInt8) (entry : Word) : Option (Int × Kernel) :=
  (k.kmalloc spawnStackSize).bind fun (kstack, k1) =>
    if kstack = 0 then some (-1, k1)
    else
      (k1.phys.vmalloc im userStackSize).bind fun (ustack, s1) =>
        if ustack = 0 then some (-1, { k1.kfree kstack with phys := s1 })
        else
          let k2 : Kernel := { k1 with phys := mapUser im ustack (userStackSize / pageSize) s1 }
          (k2.schedSpawn name entry 0).map fun (pid, k3) => userSpawned im kstack ustack entry pid k3

/-! ## `elf_spawn` -/

def elfUserStackTop : Nat := 0x40000000
def elfUserStackSize : Nat := 16384
def elfKstackSize : Nat := 8192

/-- What follows the call of `sched_spawn`: the task gets `kstack` for the stack it has. -/
def elfSpawned (kstack : Nat) (esp : Word) (pid : Int) (k : Kernel) : Int × Kernel :=
  if pid < 0 then (-1, k.kfree kstack)
  else
    match schedGetTaskIdx k.table pid with
    | none => (pid, k)
    | some i =>
      let t := k.table.tasks i
      let k1 := k.freeStack t
      (pid, { k1 with table := k1.table.setTask i { t with
        stack := BitVec.ofNat 32 kstack, stackSize := BitVec.ofNat 32 elfKstackSize, esp := esp } })

/-- `res` is `none` for NULL; `placeholder` is the address of `elf_placeholder`. -/
def elfSpawn (im : Image) (k : Kernel) (name : List UInt8) (res : Option ElfResult) (placeholder : Word) :
    Option (Int × Kernel) :=
  match res with
  | none => some (-1, k)
  | some res =>
    if res.error ≠ 0 then some (-1, k)
    else
      match k.phys.elfPages im (elfUserStackSize / pageSize) (elfUserStackTop - elfUserStackSize) with
      | (false, s1) => some (-1, { k with phys := s1 })
      | (true, s1) =>
        let k1 : Kernel := { k with phys := s1 }
        (k1.kmalloc elfKstackSize).bind fun (kstack, k2) =>
          if kstack = 0 then some (-1, k2)
          else
            let ts := elfSpawnStack k2.table.mem (BitVec.ofNat 32 kstack) (BitVec.ofNat 32 res.entry)
            let k3 : Kernel := { k2 with table := { k2.table with mem := ts.mem } }
            (k3.schedSpawn name placeholder 0).map fun (pid, k4) => elfSpawned kstack ts.esp pid k4

/-! ## `sc_fork` -/

/-- What follows the call of `sched_spawn`. -/
def scForked (childDir childKstack : Nat) (pid : Int) (k : Kernel) : Int × Kernel :=
  if pid < 0 then (-1, { k.kfree childKstack with phys := k.phys.pagingFreeUser childDir })
  else
    match schedGetTaskIdx k.table pid with
    | none => (-1, k)
    | some i =>
      let t := k.table.tasks i
      let parent := k.table.cur
      let k1 := k.freeStack t
      let ts := scForkStack k1.table.mem (BitVec.ofNat 32 childKstack) parent.esp
      (pid, { k1 with table := { k1.table.setTask i { t with
        parentPid := parent.pid, stack := BitVec.ofNat 32 childKstack, stackSize := BitVec.ofNat 32 spawnStackSize,
        esp := ts.esp } with mem := ts.mem } })

/-- `sc_fork()`; the failures return `(uint32_t)-1`. -/
def scFork (im : Image) (k : Kernel) : Option (Int × Kernel) :=
  let c := k.phys.pagingCloneDir im
  let k1 : Kernel := { k with phys := c.2 }
  if c.1 = 0 then some (-1, k1)
  else
    (k1.kmalloc spawnStackSize).bind fun (childKstack, k2) =>
      if childKstack = 0 then some (-1, { k2 with phys := k2.phys.pagingFreeUser c.1 })
      else
        (k2.schedSpawn k2.table.cur.name 0#32 k2.table.cur.kumLevel).map fun (pid, k3) => scForked c.1 childKstack pid k3

/-! ## The end of a task -/

/-- `sched_exit_code` with its `kfree`. -/
def exitCode (k : Kernel) (code : Int) (saved : Word) : Kernel :=
  { k.freeStack k.table.cur with table := schedExitCode k.table code saved }

end Kernel

/-- One of the four, with its arguments. -/
inductive Spawner
  | schedSpawn (name : List UInt8) (entry : Word) (kumLevel : Int)
  | userSpawn (name : List UInt8) (entry : Word)
  | elfSpawn (name : List UInt8) (res : Option ElfResult) (placeholder : Word)
  | scFork

def Spawner.call (im : Image) (k : Kernel) : Spawner → Option (Int × Kernel)
  | schedSpawn name entry kumLevel => k.schedSpawn name entry kumLevel
  | userSpawn name entry => k.userSpawn im name entry
  | elfSpawn name res placeholder => k.elfSpawn im name res placeholder
  | scFork => k.scFork im

def Spawner.isUser : Spawner → Bool
  | userSpawn .. => true
  | _ => false

/-! ## Steps that take and give no memory -/

inductive QuietOp
  | sched (op : Sched.Op)
  | store (x : Nat) (v : UInt8)

/-- An operation of the scheduler that neither starts nor ends a task, or a store into memory that is in use. -/
def QuietStep (k : Kernel) : QuietOp → Kernel → Prop
  | .sched op, k' => (∀ name entry level stack, op ≠ .spawn name entry level stack) ∧
      (∀ code saved, op ≠ .exitCode code saved) ∧ Allowed k.table op ∧ k' = { k with table := perform k.table op }
  | .store x v, k' => InPayload k.world x ∧
      k' = { k with world := { k.world with heap.mem := Function.update k.world.heap.mem x v } }

end KumOS.Spawn
