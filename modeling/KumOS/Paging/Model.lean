import KumOS.Heap.Runs

/-!
# `paging.c`: frames, page tables, `heap_alloc` and `vmalloc`

The frame allocator, the page directory with its tables, and the two virtual
allocators on top, with the memory they share with `kmalloc`.  `page_dir` and
`kern_tables` are arrays of the kernel image; a further page table lies in a
frame, and the code reaches it through its physical address, that is, through
whatever is mapped there.  An access to an address that is not mapped stops the
machine (`none`).
-/

namespace KumOS.Paging

open Lib Kmalloc

def pageSize : Nat := 0x1000
def pageEntries : Nat := 1024
def pagePresent : Nat := 1
def pageWrite : Nat := 2
def heapVirtBase : Nat := 0x00200000
def heapVirtMax : Nat := 0x01000000
def vmallocBase : Nat := 0x01000000
def vmallocEnd : Nat := 0x02000000

/-- `PAGE_ALIGN(a)` -/
def pageAlign (a : Nat) : Nat := u32 (a + pageSize - 1) / pageSize * pageSize

/-! ## Frames -/

def pmmMaxFrames : Nat := 65536

structure Pmm where
  /-- `pmm_refs` -/
  refs : Nat → Nat
  totalFrames : Nat
  usedFrames : Nat
  baseFrame : Nat
  /-- history: every address `pmm_alloc` has returned -/
  handed : List Nat

def frameIdx (phys : Nat) : Nat := phys / pageSize

def pmmInit (memKb : Nat) : Pmm :=
  let start := 0x00100000
  let end0 := u32 (memKb * 1024)
  let end1 := if pmmMaxFrames * pageSize < end0 then pmmMaxFrames * pageSize else end0
  let base := frameIdx start
  let total0 := u32 (end1 + 2 ^ 32 - start) / pageSize
  let total := if pmmMaxFrames - base < total0 then pmmMaxFrames - base else total0
  let kernEnd := frameIdx 0x00500000
  { refs := fun f =>
      if base ≤ f ∧ f < kernEnd then 1 else if base ≤ f ∧ f < base + total then 0 else 0xFF
    totalFrames := total
    usedFrames := kernEnd - base
    baseFrame := base
    handed := [] }

def pmmAlloc (p : Pmm) : Nat × Pmm :=
  match (List.range' p.baseFrame p.totalFrames).find? fun i => i < pmmMaxFrames && p.refs i = 0 with
  | some i => (u32 (i * pageSize), { p with
      refs := Function.update p.refs i 1
      usedFrames := u32 (p.usedFrames + 1)
      handed := u32 (i * pageSize) :: p.handed })
  | none => (0, p)

def pmmFree (p : Pmm) (addr : Nat) : Pmm :=
  let idx := frameIdx addr
  if pmmMaxFrames ≤ idx ∨ p.refs idx = 0 then p
  else
    let left := p.refs idx - 1
    { p with
      refs := Function.update p.refs idx left
      usedFrames := if left = 0 ∧ p.usedFrames ≠ 0 then p.usedFrames - 1 else p.usedFrames }

def pmmRef (p : Pmm) (addr : Nat) : Pmm :=
  let idx := frameIdx addr
  if idx < pmmMaxFrames ∧ p.refs idx < 254 then { p with refs := Function.update p.refs idx (p.refs idx + 1) } else p

def pmmRefcount (p : Pmm) (addr : Nat) : Nat :=
  let idx := frameIdx addr
  if idx < pmmMaxFrames then p.refs idx else 0

/-! ## Page tables -/

/-- The table an entry of `page_dir` points to. -/
inductive Table
  | kern (t : Nat)
  | frame (phys : Nat)
deriving DecidableEq

/-- `hblock_t` -/
structure HBlock where
  addr : Nat
  size : Nat
  used : Bool

/-- `vregion_t` -/
structure VRegion where
  virtStart : Nat
  size : Nat
  active : Bool

structure Vm where
  /-- the kernel heap, with the physical memory -/
  km : Heap
  pmm : Pmm
  pageDir : Nat → Option Table
  kernTables : Nat → Nat → Nat
  /-- `hblocks[0 .. hnum_blocks)` -/
  hblocks : List HBlock
  heapBrkPtr : Nat
  heapBytesUsed : Nat
  /-- `vregions[0 .. vnum_regions)` -/
  vregions : List VRegion
  vmallocPtr : Nat

namespace Vm

def ram (s : Vm) : Bytes := s.km.mem

def setRam (s : Vm) (m : Bytes) : Vm := { s with km := { s.km with mem := m } }

def pageDirIdx (a : Nat) : Nat := a / 2 ^ 22
def pageTblIdx (a : Nat) : Nat := a / pageSize % pageEntries

/-- The table entry the processor finds for the linear address `va`; 0 without a table. -/
def walk (s : Vm) (va : Nat) : Nat :=
  match s.pageDir (pageDirIdx va) with
  | none => 0
  | some (.kern t) => s.kernTables t (pageTblIdx va)
  | some (.frame p) => s.ram.get32 (p + 4 * pageTblIdx va)

/-- The physical address of `va`. -/
def translate (s : Vm) (va : Nat) : Option Nat :=
  if s.walk va % 2 = pagePresent then some (s.walk va / pageSize * pageSize + va % pageSize) else none

/-- `kmemset((void *)va, 0, PAGE_SIZE)` for a page address `va`. -/
def zeroPage (s : Vm) (va : Nat) : Option Vm :=
  (s.translate va).map fun pa => s.setRam fun x => if pa ≤ x ∧ x < pa + pageSize then 0 else s.ram x

/-- Where a table entry is: in `kern_tables`, or at a linear address. -/
inductive Pte
  | kern (t i : Nat)
  | ram (va : Nat)

def entry (t : Table) (ti : Nat) : Pte :=
  match t with
  | .kern t => .kern t ti
  | .frame phys => .ram (phys + 4 * ti)

def readPte (s : Vm) : Pte → Option Nat
  | .kern t i => some (s.kernTables t i)
  | .ram va => (s.translate va).map s.ram.get32

def writePte (s : Vm) (w : Nat) : Pte → Option Vm
  | .kern t i => some { s with kernTables := Function.update s.kernTables t (Function.update (s.kernTables t) i w) }
  | .ram va => (s.translate va).map fun pa => s.setRam (s.ram.put32 pa w)

/-- `pte_ptr(virt, 0)` -/
def ptePtr (s : Vm) (virt : Nat) : Option Pte := (s.pageDir (pageDirIdx virt)).map fun t => entry t (pageTblIdx virt)

/-- `pte_ptr(virt, 1)`: a missing table is allocated. -/
def ptePtrAlloc (s : Vm) (virt : Nat) : Option (Option Pte × Vm) :=
  match s.pageDir (pageDirIdx virt) with
  | some t => some (some (entry t (pageTblIdx virt)), s)
  | none =>
    let a := pmmAlloc s.pmm
    let s1 := { s with pmm := a.2 }
    if a.1 = 0 then some (none, s1)
    else
      (s1.zeroPage a.1).map fun s2 =>
        (some (entry (.frame a.1) (pageTblIdx virt)),
          { s2 with pageDir := Function.update s2.pageDir (pageDirIdx virt) (some (.frame a.1)) })

def pagingMap (s : Vm) (virt phys flags : Nat) : Option Vm :=
  match s.ptePtrAlloc virt with
  | none => none
  | some (none, s1) => some s1
  | some (some pte, s1) => s1.writePte (phys / pageSize * pageSize ||| pagePresent ||| flags) pte

def pagingUnmap (s : Vm) (virt : Nat) : Option Vm :=
  match s.ptePtr virt with
  | none => some s
  | some pte =>
    match s.readPte pte with
    | none => none
    | some e =>
      if e % 2 ≠ pagePresent then some s
      else { s with pmm := pmmFree s.pmm (e / pageSize * pageSize) }.writePte 0 pte

def pagingIsMapped (s : Vm) (virt : Nat) : Option Bool :=
  match s.ptePtr virt with
  | none => some false
  | some pte => (s.readPte pte).map fun e => e % 2 = pagePresent

/-! ## `heap_alloc` -/

def heapMaxBlocks : Nat := 512

/-- The loop of `heap_grow` over the pages `addr, addr + PAGE_SIZE, ..` (`n` of them). -/
def growLoop : Nat → Nat → Vm → Option (Bool × Vm)
  | 0, _, s => some (true, s)
  | n + 1, addr, s =>
    match s.pagingIsMapped addr with
    | none => none
    | some true => growLoop n (addr + pageSize) s
    | some false =>
      let a := pmmAlloc s.pmm
      let s1 := { s with pmm := a.2 }
      if a.1 = 0 then some (false, s1)
      else
        match s1.pagingMap addr a.1 pageWrite with
        | none => none
        | some s2 =>
          match s2.zeroPage addr with
          | none => none
          | some s3 => growLoop n (addr + pageSize) s3

def heapGrow (s : Vm) (size : Nat) : Option (Bool × Vm) :=
  let newBrk := pageAlign (u32 (s.heapBrkPtr + size))
  if heapVirtMax ≤ newBrk then some (false, s)
  else
    let addr := pageAlign s.heapBrkPtr
    (growLoop ((newBrk - addr) / pageSize) addr s).map fun r =>
      if r.1 then (true, { r.2 with heapBrkPtr := newBrk }) else r

/-- The address returned (0 for NULL) and the new state. -/
def heapAlloc (s : Vm) (n : Nat) : Option (Nat × Vm) :=
  if n = 0 then some (0, s)
  else
    let size := round8 n
    match s.hblocks.findIdx? fun b => !b.used && size ≤ b.size with
    | some i =>
      let b := s.hblocks.getD i ⟨0, 0, false⟩
      some (b.addr, { s with
        hblocks := s.hblocks.set i { b with used := true }
        heapBytesUsed := u32 (s.heapBytesUsed + b.size) })
    | none =>
      if heapMaxBlocks ≤ s.hblocks.length then some (0, s)
      else
        (s.heapGrow size).map fun r =>
          if r.1 then (s.heapBrkPtr, { r.2 with
            hblocks := r.2.hblocks ++ [⟨s.heapBrkPtr, size, true⟩]
            heapBytesUsed := u32 (r.2.heapBytesUsed + size) })
          else (0, r.2)

def heapFree (s : Vm) (ptr : Nat) : Vm :=
  match s.hblocks.findIdx? fun b => b.addr = ptr && b.used with
  | some i =>
    let b := s.hblocks.getD i ⟨0, 0, false⟩
    { s with
      hblocks := s.hblocks.set i { b with used := false }
      heapBytesUsed := if b.size ≤ s.heapBytesUsed then s.heapBytesUsed - b.size else s.heapBytesUsed }
  | none => s

/-! ## `vmalloc` -/

def vmallocMaxRegions : Nat := 64

/-- `paging_unmap` of the `n` pages from `virt` on. -/
def unmapLoop : Nat → Nat → Vm → Option Vm
  | 0, _, s => some s
  | n + 1, virt, s =>
    match s.pagingUnmap virt with
    | none => none
    | some s1 => unmapLoop n (u32 (virt + pageSize)) s1

/-- The loop of `vmalloc`: `done` pages are mapped, `n` are left. -/
def mapLoop (virt : Nat) : Nat → Nat → Vm → Option (Bool × Vm)
  | 0, _, s => some (true, s)
  | n + 1, done, s =>
    let a := pmmAlloc s.pmm
    let s1 := { s with pmm := a.2 }
    if a.1 = 0 then (unmapLoop done virt s1).map fun s2 => (false, s2)
    else
      match s1.pagingMap (u32 (virt + done * pageSize)) a.1 pageWrite with
      | none => none
      | some s2 =>
        match s2.zeroPage (u32 (virt + done * pageSize)) with
        | none => none
        | some s3 => mapLoop virt n (done + 1) s3

def vmalloc (s : Vm) (n : Nat) : Option (Nat × Vm) :=
  if n = 0 ∨ vmallocMaxRegions ≤ s.vregions.length then some (0, s)
  else
    let size := pageAlign n
    if vmallocEnd ≤ u32 (s.vmallocPtr + size) then some (0, s)
    else
      (mapLoop s.vmallocPtr (size / pageSize) 0 s).map fun r =>
        if r.1 then (s.vmallocPtr, { r.2 with
          vregions := r.2.vregions ++ [⟨s.vmallocPtr, size, true⟩]
          vmallocPtr := u32 (s.vmallocPtr + size) })
        else (0, r.2)

def vmfree (s : Vm) (ptr : Nat) : Option Vm :=
  match s.vregions.findIdx? fun r => r.active && r.virtStart = ptr with
  | some i =>
    let r := s.vregions.getD i ⟨0, 0, false⟩
    (unmapLoop (r.size / pageSize) ptr s).map fun s1 =>
      { s1 with vregions := s1.vregions.set i { r with active := false } }
  | none => some s

end Vm

/-! ## Boot -/

/-- The state `kernel_main` reaches through `kmalloc_init(0x200000, 512*1024)`,
`paging_init(mem_kb)` and `demand_paging_init()`, over any memory. -/
def boot (memKb : Nat) (mem : Bytes) : Vm where
  km := kmallocInit ⟨0, 0, 0, 0, mem⟩ 0x00200000 (512 * 1024)
  pmm := pmmInit memKb
  pageDir := fun di => if di < 4 then some (.kern di) else none
  kernTables := fun t p => (t * pageEntries + p) * pageSize ||| pagePresent ||| pageWrite
  hblocks := []
  heapBrkPtr := heapVirtBase
  heapBytesUsed := 0
  vregions := []
  vmallocPtr := vmallocBase

end KumOS.Paging
