import KumOS.Lib.Bytes

/-!
# `kmalloc.c`

The kernel heap: blocks with a 16-byte header, in the memory they manage, and a
doubly linked list of the free ones.  Addresses and sizes are 32-bit values;
every sum is reduced as the machine does it.  The loops over the list and over
the blocks depend on the memory alone, so one that has not ended after `2^32`
rounds never ends: `none` is a call that does not return.
-/

namespace KumOS.Kmalloc

open Lib

def magicFree : Nat := 0xDEADBEEF
def magicUsed : Nat := 0xCAFEBABE
def minSplit : Nat := 16
/-- `sizeof(block_t)` -/
def headerSize : Nat := 16

/-! ## `block_t` -/

/-- Word `k` of the header at `b`: magic, size, prev, next. -/
def field (m : Bytes) (b k : Nat) : Nat := m.get32 (b + 4 * k)
def setField (m : Bytes) (b k v : Nat) : Bytes := m.put32 (b + 4 * k) v

def magic (m : Bytes) (b : Nat) : Nat := field m b 0
def size (m : Bytes) (b : Nat) : Nat := field m b 1
def prev (m : Bytes) (b : Nat) : Nat := field m b 2
def next (m : Bytes) (b : Nat) : Nat := field m b 3
def setMagic (m : Bytes) (b v : Nat) : Bytes := setField m b 0 v
def setSize (m : Bytes) (b v : Nat) : Bytes := setField m b 1 v
def setPrev (m : Bytes) (b v : Nat) : Bytes := setField m b 2 v
def setNext (m : Bytes) (b v : Nat) : Bytes := setField m b 3 v

structure Heap where
  freeList : Nat
  heapStart : Nat
  heapEnd : Nat
  heapCap : Nat
  mem : Bytes

def kmallocInit (h : Heap) (start size : Nat) : Heap :=
  { h with heapStart := start, heapEnd := start, heapCap := u32 (start + size), freeList := 0 }

/-! ## The free list -/

/-- `if (p) p->next = v; else free_list = v;` -/
def setNextOrHead (h : Heap) (p v : Nat) : Heap :=
  if p ≠ 0 then { h with mem := setNext h.mem p v } else { h with freeList := v }

/-- `if (n) n->prev = v;` -/
def setPrevIf (h : Heap) (n v : Nat) : Heap :=
  if n ≠ 0 then { h with mem := setPrev h.mem n v } else h

/-- The two lines that take `b` out of the free list (in `kmalloc`, twice, and in `coalesce`). -/
def unlink (h : Heap) (b : Nat) : Heap :=
  let h1 := setNextOrHead h (prev h.mem b) (next h.mem b)
  setPrevIf h1 (next h1.mem b) (prev h1.mem b)

/-- The lines that put `b` at the front of the free list (in `extend_heap` and `kfree`). -/
def pushFree (h : Heap) (b : Nat) : Heap :=
  let h1 := setPrevIf { h with mem := setNext (setPrev h.mem b 0) b h.freeList } h.freeList b
  { h1 with freeList := b }

/-- `extend_heap`; the address of the new block, 0 when there is no room. -/
def extendHeap (h : Heap) (need : Nat) : Nat × Heap :=
  let total := u32 (headerSize + need)
  if h.heapCap < u32 (h.heapEnd + total) then (0, h)
  else
    let b := h.heapEnd
    let h1 := pushFree { h with mem := setSize (setMagic h.mem b magicFree) b need } b
    (b, { h1 with heapEnd := u32 (h1.heapEnd + total) })

def coalesce (h : Heap) (b : Nat) : Heap :=
  let nx := u32 (b + headerSize + size h.mem b)
  if nx < h.heapEnd ∧ magic h.mem nx = magicFree then
    unlink { h with mem := setSize h.mem b (u32 (size h.mem b + (headerSize + size h.mem nx))) } nx
  else h

/-! ## `kmalloc` and `kfree` -/

/-- The search of `kmalloc`: the first block of the list that is large enough, 0 at the list's end. -/
def firstFit : Nat → Bytes → Nat → Nat → Option Nat
  | 0, _, _, _ => none
  | fuel + 1, m, b, want =>
    if b = 0 then some 0
    else if size m b < want then firstFit fuel m (next m b) want
    else some b

/-- The split branch: the rest of block `b` takes its place in the list. -/
def splitBlock (h : Heap) (b want : Nat) : Heap :=
  let sp := u32 (b + headerSize + want)
  let m1 := setMagic h.mem sp magicFree
  let m2 := setSize m1 sp (u32 (size m1 b + 2 ^ 33 - want - headerSize))
  let m3 := setPrev m2 sp (prev m2 b)
  let m4 := setNext m3 sp (next m3 b)
  let h1 := setNextOrHead { h with mem := m4 } (prev m4 b) sp
  let h2 := setPrevIf h1 (next h1.mem b) sp
  { h2 with mem := setSize h2.mem b want }

def markUsed (h : Heap) (b : Nat) : Heap :=
  { h with mem := setPrev (setNext (setMagic h.mem b magicUsed) b 0) b 0 }

/-- `(n + 7) & ~7u` -/
def round8 (n : Nat) : Nat := u32 (n + 7) / 8 * 8

/-- The pointer returned (0 for NULL) and the new state. -/
def kmalloc (h : Heap) (n : Nat) : Option (Nat × Heap) :=
  if n = 0 then some (0, h)
  else
    let want := round8 n
    match firstFit (2 ^ 32) h.mem h.freeList want with
    | none => none
    | some b =>
      if b ≠ 0 then
        let h1 := if u32 (want + headerSize + minSplit) ≤ size h.mem b then splitBlock h b want else unlink h b
        some (u32 (b + headerSize), markUsed h1 b)
      else
        let e := extendHeap h want
        if e.1 = 0 then some (0, e.2)
        else some (u32 (e.1 + headerSize), markUsed (unlink e.2 e.1) e.1)

def kfree (h : Heap) (ptr : Nat) : Heap :=
  if ptr = 0 then h
  else
    let b := u32 (ptr + 2 ^ 32 - headerSize)
    if magic h.mem b ≠ magicUsed then h
    else coalesce (pushFree { h with mem := setMagic h.mem b magicFree } b) b

/-! ## Statistics -/

def usedLoop : Nat → Bytes → Nat → Nat → Nat → Option Nat
  | 0, _, _, _, _ => none
  | fuel + 1, m, heapEnd, pos, used =>
    if pos < heapEnd then
      let used1 := if magic m pos = magicUsed then u32 (used + size m pos) else used
      usedLoop fuel m heapEnd (u32 (pos + (headerSize + size m pos))) used1
    else some used

def kmallocUsed (h : Heap) : Option Nat := usedLoop (2 ^ 32) h.mem h.heapEnd h.heapStart 0

def freeLoop : Nat → Bytes → Nat → Nat → Option Nat
  | 0, _, _, _ => none
  | fuel + 1, m, b, fr => if b = 0 then some fr else freeLoop fuel m (next m b) (u32 (fr + size m b))

def kmallocFree (h : Heap) : Option Nat := freeLoop (2 ^ 32) h.mem h.freeList 0

end KumOS.Kmalloc
