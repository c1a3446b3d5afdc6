import KumOS.Paging.Loader

/-!
# `swap.c` and the page fault handler

Pages that are written to `swap_buf` and brought back, copy-on-write marks, and the
handler of exception 14, which tries its ways to resolve a fault one after the
other.  A fault none of them resolves stops the machine (`none`).
-/

namespace KumOS.Paging

open Lib

def pageCow : Nat := 0x200

/-- `e & ~bits` -/
def clearBits (e bits : Nat) : Nat := e &&& (2 ^ 32 - 1 - bits)

/-- `addr & ~0xFFF` -/
def pageOf (addr : Nat) : Nat := addr / pageSize * pageSize

/-! ## `swap.c` -/

def swapSlots : Nat := 256

/-- The fields of `swap_entry_t` that are read. -/
structure SwapEntry where
  virtAddr : Nat
  used : Bool

structure Swap where
  /-- `swap_table[0 .. SWAP_SLOTS)` -/
  table : Nat → SwapEntry
  ready : Bool
  /-- `swap_used` -/
  used : Nat
  /-- the pages of `swap_buf` -/
  buf : Nat → Bytes

/-- `swap_init()`; `mounted` is the answer of `fat12_mounted()`. -/
def swapInit (t : Swap) (mounted : Bool) : Int × Swap :=
  if mounted then (0, { table := fun _ => ⟨0, false⟩, ready := true, used := 0, buf := fun _ _ => 0 }) else (-1, t)

namespace Swap

def allocSlot (t : Swap) : Option Nat := (List.range swapSlots).find? fun i => !(t.table i).used

/-- The slot of a page; the loops of `swap_out`, `swap_in` and `swap_is_swapped`. -/
def find (t : Swap) (virt : Nat) : Option Nat :=
  (List.range swapSlots).find? fun i => (t.table i).used && (t.table i).virtAddr = virt

def isSwapped (t : Swap) (virt : Nat) : Bool := (t.find (pageOf virt)).isSome

/-- A page is entered into a slot, and a slot is given up. -/
def enter (t : Swap) (slot virt : Nat) (page : Bytes) : Swap where
  table := Function.update t.table slot ⟨virt, true⟩
  ready := t.ready
  used := u32 (t.used + 1)
  buf := Function.update t.buf slot page

def leave (t : Swap) (slot : Nat) : Swap :=
  { t with
    table := Function.update t.table slot { t.table slot with used := false }
    used := u32 (t.used + 2 ^ 32 - 1) }

end Swap

/-- The state of the paging code with the swap area and the counters of the handler. -/
structure Pager where
  phys : Phys
  swap : Swap
  faultCount : Nat
  cowCount : Nat

namespace Phys

/-- The page at `va`, read through the directory in CR3. -/
def readPage (s : Phys) (va : Nat) : Option Bytes := (s.translate s.active va).map fun pa => s.mem (frameIdx pa)

/-- `kmemcpy((void *)phys, page, PAGE_SIZE)` -/
def loadFrame (s : Phys) (f : Nat) (page : Bytes) : Phys := { s with mem := Function.update s.mem f page }

end Phys

namespace Pager

variable (im : Image)

def swapOut (w : Pager) (virt : Nat) : Option (Int × Pager) :=
  let va := pageOf virt
  if !w.swap.ready then some (-1, w)
  else if (w.swap.find va).isSome then some (0, w)
  else
    match w.swap.allocSlot with
    | none => some (-1, w)
    | some slot =>
      (w.phys.readPage va).map fun page =>
        let s1 := w.phys.pagingUnmap im va
        let s2 := { s1 with pmm := pmmFree s1.pmm (s1.pagingVirtToPhys im va) }
        (0, { w with phys := s2, swap := w.swap.enter slot va page })

def swapIn (w : Pager) (virt : Nat) : Int × Pager :=
  let va := pageOf virt
  if !w.swap.ready then (-1, w)
  else
    match w.swap.find va with
    | none => (-1, w)
    | some i =>
      let a := pmmAlloc w.phys.pmm
      let s1 := { w.phys with pmm := a.2 }
      if a.1 = 0 then (-1, { w with phys := s1 })
      else
        let s2 := (s1.loadFrame (frameIdx a.1) (w.swap.buf i)).pagingMap im va a.1 (pageWrite ||| pageUser)
        (0, { w with phys := s2, swap := w.swap.leave i })

end Pager

/-! ## Copy-on-write marks -/

/-- `vmalloc_copy_on_write(virt)` -/
def Phys.vmallocCopyOnWrite (im : Image) (s : Phys) (virt : Nat) : Nat × Phys :=
  match s.ptePtr im (pageOf virt) with
  | none => (0, s)
  | some (f, i) =>
    let e := s.word f i
    if e % 2 ≠ pagePresent then (0, s)
    else (1, ({ s with pmm := pmmRef s.pmm (e / pageSize * pageSize) }).setWord f i (clearBits e pageWrite ||| pageCow))

/-! ## `page_fault_handler` -/

namespace Pager

/-- `fault_count++`, and `cow_count++` for a page that was marked. -/
def counted (w : Pager) (cow : Bool) : Pager :=
  { w with
    faultCount := u32 (w.faultCount + 1)
    cowCount := if cow then u32 (w.cowCount + 1) else w.cowCount }

variable (im : Image)

/-- A page of the kernel heap gets a new frame.  The inner `none` is no frame. -/
def faultHeap (w : Pager) (page : Nat) : Option (Option Pager) :=
  let a := pmmAlloc w.phys.pmm
  let s1 := { w.phys with pmm := a.2 }
  if a.1 = 0 then some none
  else ((s1.pagingMap im page a.1 pageWrite).kmemset page 0 pageSize).map fun s2 =>
    some (({ w with phys := s2 }).counted false)

/-- A page that is marked gets a frame of its own, or the one it has if nobody shares that. -/
def faultCow (w : Pager) (page : Nat) : Option Pager :=
  match w.phys.ptePtr im page with
  | none => none
  | some (f, i) =>
    let e := w.phys.word f i
    if e / pageCow % 2 ≠ 1 then none
    else
      let old := e / pageSize * pageSize
      if 1 < pmmRefcount w.phys.pmm old then
        let a := pmmAlloc w.phys.pmm
        if a.1 = 0 then none
        else
          let s1 := ({ w.phys with pmm := a.2 }).copyFrame (frameIdx a.1) (e / pageSize)
          let s2 := ({ s1 with pmm := pmmFree s1.pmm old }).setWord f i (a.1 ||| pagePresent ||| pageWrite)
          some (({ w with phys := s2 }).counted true)
      else some (({ w with phys := w.phys.setWord f i (clearBits e pageCow ||| pageWrite) }).counted true)

/-- A page that was swapped out is brought back. -/
def faultSwap (w : Pager) (page : Nat) : Option Pager :=
  if w.swap.isSwapped page then
    match w.swapIn im page with
    | (0, w1) => some (w1.counted false)
    | _ => none
  else none

/-- The fault at `addr`; `present` and `write` are bits 0 and 1 of the error code. -/
def pageFaultHandler (w : Pager) (addr : Nat) (present write : Bool) : Option Pager :=
  let page := pageOf addr
  if !present && heapVirtBase ≤ addr && addr < heapVirtMax then
    match w.faultHeap im page with
    | none => none
    | some (some w1) => some w1
    | some none => w.faultSwap im page
  else if present && write then w.faultCow im page
  else if !present then w.faultSwap im page
  else none

end Pager

end KumOS.Paging
