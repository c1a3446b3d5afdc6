import KumOS.Lib.Bytes
import KumOS.Lib.Ring

/-!
# `pipe.c`: pipes between tasks

The table `pipes[PIPE_MAX]` is a function of the slot number.  The code only moves
the bytes of a pipe, so the model leaves open what they are (`α`); the kernel's
pipes are those with `α = UInt8`.

`pipe_write` and `pipe_read` give up the processor only in `sched_yield`.  A slice
(`writeSlice`, `readSlice`) is what a call does between two of these points: it
begins at the test of the inner loop, where the call also goes on after a yield,
and ends when the call returns or yields again.
-/

namespace KumOS.Pipes

open Lib

/-- `pipe_t`.  The counters of open ends are never negative. -/
structure Pipe (α : Type) where
  buf : Nat → α
  head : Nat
  tail : Nat
  writers : Nat
  readers : Nat
  used : Bool

abbrev Table (α : Type) := Nat → Pipe α

variable {α : Type}

/-! ## The table -/

/-- A slot cleared by `kmemset`. -/
def cleared [Inhabited α] : Pipe α where
  buf := fun _ => default
  head := 0
  tail := 0
  writers := 0
  readers := 0
  used := false

def pipeInit [Inhabited α] : Table α := fun _ => cleared

/-- The slot `pipe_create` takes: the first that is not in use. -/
def freeSlot (ps : Table α) : Option Nat := (List.range 16).find? fun i => !(ps i).used

/-- A slot as `pipe_create` leaves it. -/
def fresh [Inhabited α] : Pipe α := { cleared with used := true, writers := 1, readers := 1 }

def pipeCreate [Inhabited α] (ps : Table α) : Int × Table α :=
  match freeSlot ps with
  | none => (-1, ps)
  | some i => (i, Function.update ps i fresh)

def pipeGet (ps : Table α) (id : Int) : Option Nat :=
  if id < 0 ∨ 16 ≤ id ∨ (ps id.toNat).used = false then none else some id.toNat

/-- The last lines of `pipe_close_read` and `pipe_close_write`. -/
def Pipe.release (p : Pipe α) : Pipe α :=
  if p.readers = 0 ∧ p.writers = 0 then { p with used := false } else p

def Pipe.closeRead (p : Pipe α) : Pipe α :=
  { p with readers := if 0 < p.readers then p.readers - 1 else p.readers }.release

def Pipe.closeWrite (p : Pipe α) : Pipe α :=
  { p with writers := if 0 < p.writers then p.writers - 1 else p.writers }.release

def pipeCloseRead (ps : Table α) (id : Int) : Table α :=
  if id < 0 ∨ 16 ≤ id then ps else Function.update ps id.toNat (ps id.toNat).closeRead

def pipeCloseWrite (ps : Table α) (id : Int) : Table α :=
  if id < 0 ∨ 16 ≤ id then ps else Function.update ps id.toNat (ps id.toNat).closeWrite

/-! ## The ring -/

/-- `pipe_avail`; the subtraction is one of `uint32_t`. -/
def pipeAvail (p : Pipe α) : Nat := u32 (p.head + (2 ^ 32 - p.tail) + 4096) % 4096

def pipeFree (p : Pipe α) : Nat := 4096 - 1 - pipeAvail p

/-- The two statements of `pipe_write` that store a byte. -/
def Pipe.put (p : Pipe α) (x : α) : Pipe α :=
  { p with buf := Function.update p.buf p.head x, head := (p.head + 1) % 4096 }

/-- The pipe after the byte at `tail` has been taken out. -/
def Pipe.advance (p : Pipe α) : Pipe α := { p with tail := (p.tail + 1) % 4096 }

/-! ## Calls in progress -/

/-- How a slice of a call ends: the call returns, or it yields after `count` bytes in all. -/
inductive Outcome where
  | ret (n : Int)
  | yield (count : Nat)
  deriving DecidableEq, Repr

/-- A slice of `pipe_write` with the bytes of the list still to be stored.  Besides the outcome and
the pipe, the bytes the slice stores are recorded. -/
def writeSlice : List α → Nat → Pipe α → Outcome × List α × Pipe α
  | [], written, p => (.ret (i32 written), [], p)
  | x :: xs, written, p =>
    if pipeFree p = 0 then
      if p.readers = 0 then (.ret (i32 written), [], p) else (.yield written, [], p)
    else
      let (out, stored, p) := writeSlice xs (written + 1) (p.put x)
      (out, x :: stored, p)

/-- A slice of `pipe_read` with `n` bytes still to come.  Besides the outcome and the pipe, the bytes
the slice takes out are recorded. -/
def readSlice : Nat → Nat → Pipe α → Outcome × List α × Pipe α
  | 0, nread, p => (.ret (i32 nread), [], p)
  | n + 1, nread, p =>
    if p.head = p.tail then
      if p.writers = 0 then (.ret (i32 nread), [], p) else (.yield nread, [], p)
    else
      let (out, taken, p') := readSlice n (nread + 1) p.advance
      (out, p.buf p.tail :: taken, p')

/-- `pipe_write` by a task nothing else runs beside: `none` when the call then never returns. -/
def pipeWrite (ps : Table α) (id : Int) (src : List α) : Option (Int × Table α) :=
  match pipeGet ps id with
  | none => some (-1, ps)
  | some i =>
    if (ps i).readers = 0 then some (-1, ps)
    else
      match writeSlice src 0 (ps i) with
      | (.ret n, _, p) => some (n, Function.update ps i p)
      | (.yield _, _, _) => none

/-- `pipe_read` by a task nothing else runs beside, with the bytes put into the buffer. -/
def pipeRead (ps : Table α) (id : Int) (len : Nat) : Option (Int × List α × Table α) :=
  match pipeGet ps id with
  | none => some (-1, [], ps)
  | some i =>
    match readSlice len 0 (ps i) with
    | (.ret n, taken, p) => some (n, taken, Function.update ps i p)
    | (.yield _, _, _) => none

end KumOS.Pipes
