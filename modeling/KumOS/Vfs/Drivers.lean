import KumOS.Fat12.Runs
import KumOS.Fs.Table

/-!
# The drivers of `vfs.c`: `/mem`, `/disk` and `/dev`

Each driver has its own part of the state.  A function returns `none` when the code
would copy past the end of one of its buffers, or does not come back (a corrupt
volume, a line that is never ended on the keyboard).  The buffer of a caller is
given by its bytes; a read returns them as it leaves them.
-/

namespace KumOS.Vfs

open Lib
open Fat12 (Name fat12Read fat12Write fat12Delete fat12List upper)
open Fs (fsFind fsCreate fsWrite fsDelete)
open Function (update)

/-- The bits of the `flags` of `vfs_open`; `O_RDONLY` is the absence of the first two. -/
structure Flags where
  wronly : Bool := false
  rdwr : Bool := false
  creat : Bool := false
  trunc : Bool := false
  append : Bool := false
  deriving DecidableEq, Repr

/-- The types of `vfs_stat_t` and of descriptors; `unset` is that of a cleared table. -/
inductive FileType where
  | unset
  | file
  | dir
  | dev
  | pipe
  deriving DecidableEq, Repr

structure Stat where
  size : Nat
  type : FileType
  name : Name

/-- The number of a slot that is in use. -/
def slotOf (used : Nat → Bool) (n : Nat) (d : Int) : Option Nat :=
  if d < 0 ∨ n ≤ d ∨ used d.toNat = false then none else some d.toNat

/-! ## `/mem` -/

/-- `mem_open[]`; `f` is the slot of the file pointed to. -/
structure MemSlot where
  f : Nat
  pos : Nat
  used : Bool

structure Mem where
  slots : Nat → MemSlot
  fs : Fs.State

def Mem.used (m : Mem) (d : Nat) : Bool := (m.slots d).used

def Mem.file (m : Mem) (d : Nat) : Fs.File := m.fs.files (m.slots d).f

/-- The file `mem_vfs_open` works on, created if that is asked for. -/
def memTarget (fs : Fs.State) (path : Name) (flags : Flags) : Option (Option Nat × Fs.State) :=
  match fsFind fs path with
  | some i => some (some i, fs)
  | none =>
    if flags.creat then
      match fsCreate fs path [] 0 with
      | none => none
      | some (r, fs) => if r < 0 then some (none, fs) else some (fsFind fs path, fs)
    else some (none, fs)

/-- The file emptied for `O_TRUNC`. -/
def memTruncate (fs : Fs.State) (path : Name) (flags : Flags) : Option Fs.State :=
  if flags.trunc then (fsWrite fs path []).map Prod.snd else some fs

def memFreeSlot (m : Mem) : Option Nat := (List.range 16).find? fun d => !m.used d

def memVfsOpen (m : Mem) (path : Name) (flags : Flags) : Option (Int × Mem) :=
  match memTarget m.fs path flags with
  | none => none
  | some (none, fs) => some (-1, { m with fs := fs })
  | some (some i, fs) =>
    match memTruncate fs path flags with
    | none => none
    | some fs =>
      match memFreeSlot m with
      | none => some (-1, { m with fs := fs })
      | some d =>
        some (d, {
          slots := update m.slots d
            ⟨i, if flags.append then (fs.files i).size else 0, true⟩
          fs := fs })

def memVfsClose (m : Mem) (d : Int) : Mem :=
  if 0 ≤ d ∧ d < 16 then
    { m with slots := update m.slots d.toNat { m.slots d.toNat with used := false } }
  else m

/-- The length `mem_vfs_read` copies; the difference is one of `uint32_t`. -/
def readLen (size pos len : Nat) : Nat :=
  let avail := u32 (size + 2 ^ 32 - pos)
  if avail < len then avail else len

def memVfsRead (m : Mem) (d : Int) (buf : Bytes) (len : Nat) : Option (Int × Bytes × Mem) :=
  match slotOf m.used 16 d with
  | none => some (-1, buf, m)
  | some d =>
    let pos := (m.slots d).pos
    let n := readLen (m.file d).size pos len
    if 0 < n ∧ 4096 < pos + n then none
    else
      some (i32 n, buf.copy 0 ((m.file d).data.drop pos) n,
        { m with slots := update m.slots d { m.slots d with pos := u32 (pos + n) } })

def memVfsWrite (m : Mem) (d : Int) (buf : Bytes) (len : Nat) : Option (Int × Mem) :=
  match slotOf m.used 16 d with
  | none => some (-1, m)
  | some d =>
    let pos := (m.slots d).pos
    let keep := if pos < (m.file d).size then pos else (m.file d).size
    if u32 (keep + len) < 4095 then
      -- the sum has wrapped: the copy runs over `tmp`
      if 4096 ≤ keep + len then none
      else
        match fsWrite m.fs (m.file d).name ((m.file d).data.toList keep ++ buf.toList len) with
        | none => none
        | some (_, fs) =>
          some (i32 len, {
            slots := update m.slots d { m.slots d with pos := u32 (pos + len) }
            fs := fs })
    else some (i32 len, m)

def memVfsStat (m : Mem) (path : Name) : Option Stat :=
  (fsFind m.fs path).map fun i => ⟨(m.fs.files i).size, .file, (m.fs.files i).name⟩

def memVfsUnlink (m : Mem) (path : Name) : Int × Mem :=
  ((fsDelete m.fs path).1, { m with fs := (fsDelete m.fs path).2 })

/-- `mem_vfs_readdir` lists nothing. -/
def memVfsReaddir (buf : Bytes) : Int × Bytes := (0, update buf 0 0)

/-! ## `/disk` -/

/-- `disk_open[]` -/
structure DiskSlot where
  name : Name
  buf : Bytes
  size : Nat
  pos : Nat
  writable : Bool
  used : Bool

structure Disk where
  slots : Nat → DiskSlot
  fat : Fat12.State

def Disk.used (k : Disk) (d : Nat) : Bool := (k.slots d).used

/-- The loop that copies a path to `upper[64]`. -/
def diskName (path : Name) : Name := ((cstr path).take 63).map upper

def diskFreeSlot (k : Disk) : Option Nat := (List.range 8).find? fun d => !k.used d

/-- The slot of a file of which `n` bytes have been read. -/
def openedSlot (path : Name) (flags : Flags) (buf : Bytes) (n : Nat) : DiskSlot where
  name := diskName path
  buf := buf
  size := if flags.trunc then 0 else n
  pos := if flags.trunc then 0 else if flags.append then n else 0
  writable := flags.wronly || flags.rdwr || flags.creat
  used := true

def diskVfsOpen (k : Disk) (path : Name) (flags : Flags) : Option (Int × Disk) :=
  if !k.fat.mounted then some (-1, k)
  else
    match diskFreeSlot k with
    | none => some (-1, k)
    | some d =>
      match fat12Read k.fat (diskName path) 4096 with
      | none => none
      | some (n, out, fat) =>
        let buf := (k.slots d).buf.copy 0 (.ofList out) out.length
        if n < 0 then
          if flags.creat then
            match fat12Write fat (diskName path) (fun _ => 0) 0 with
            | none => none
            | some (_, fat) =>
              some (d, ⟨update k.slots d (openedSlot path flags buf 0), fat⟩)
          else some (-1, { k with fat := fat })
        else some (d, ⟨update k.slots d (openedSlot path flags buf n.toNat), fat⟩)

def Disk.release (k : Disk) (d : Nat) (fat : Fat12.State) : Disk where
  slots := update k.slots d { k.slots d with used := false }
  fat := fat

def diskVfsClose (k : Disk) (d : Int) : Option Disk :=
  match slotOf k.used 8 d with
  | none => some k
  | some d =>
    if (k.slots d).writable ∧ 0 < (k.slots d).size then
      (fat12Write k.fat (k.slots d).name (k.slots d).buf (UInt32.ofNat (k.slots d).size)).map
        fun r => k.release d r.2
    else some (k.release d k.fat)

def diskVfsRead (k : Disk) (d : Int) (buf : Bytes) (len : Nat) : Option (Int × Bytes × Disk) :=
  match slotOf k.used 8 d with
  | none => some (-1, buf, k)
  | some d =>
    let pos := (k.slots d).pos
    let n := readLen (k.slots d).size pos len
    if 0 < n ∧ 4096 < pos + n then none
    else
      some (i32 n, buf.copy 0 ((k.slots d).buf.drop pos) n,
        { k with slots := update k.slots d { k.slots d with pos := u32 (pos + n) } })

/-- The slot after `n` bytes have been copied to its buffer. -/
def DiskSlot.put (sl : DiskSlot) (buf : Bytes) (n : Nat) : DiskSlot :=
  let pos := u32 (sl.pos + n)
  { sl with buf := sl.buf.copy sl.pos buf n, pos := pos, size := if sl.size < pos then pos else sl.size }

def diskVfsWrite (k : Disk) (d : Int) (buf : Bytes) (len : Nat) : Option (Int × Disk) :=
  match slotOf k.used 8 d with
  | none => some (-1, k)
  | some d =>
    let pos := (k.slots d).pos
    let n := if 4096 ≤ u32 (pos + len) then u32 (4096 + 2 ^ 32 - pos - 1) else len
    if 0 < n ∧ 4096 < pos + n then none
    else some (i32 n, { k with slots := update k.slots d ((k.slots d).put buf n) })

def diskVfsStat (k : Disk) (path : Name) : Option Stat × Disk :=
  if !k.fat.mounted then (none, k)
  else
    let (_, entries, fat) := fat12List k.fat 64
    ((entries.find? fun e => kstrcmp e.name (diskName path) == 0).map
      fun e => ⟨e.size, .file, e.name⟩, { k with fat := fat })

def diskVfsUnlink (k : Disk) (path : Name) : Int × Disk :=
  ((fat12Delete k.fat (diskName path)).1, { k with fat := (fat12Delete k.fat (diskName path)).2 })

/-- The loop of `disk_vfs_readdir`: a name and a newline for every entry, as long as there is room. -/
def listNames (sz : Nat) : List Fat12.Entry → Nat → Bytes → Nat × Bytes
  | [], pos, buf => (pos, buf)
  | e :: es, pos, buf =>
    if pos + 20 < sz then
      listNames sz es (pos + kstrlen e.name + 1) (buf.copy pos (.ofList (cstr e.name ++ [10])) (kstrlen e.name + 1))
    else (pos, buf)

def diskVfsReaddir (k : Disk) (buf : Bytes) (sz : Nat) : Int × Bytes × Disk :=
  if !k.fat.mounted then (0, buf, k)
  else
    let (_, entries, fat) := fat12List k.fat 64
    let r := listNames sz entries 0 buf
    (r.1, update r.2 r.1 0, { k with fat := fat })

/-! ## `/dev` -/

structure Dev where
  /-- the keys that will be typed -/
  keys : List UInt8
  /-- the characters given to `vga_putchar` -/
  screen : List UInt8

/-- "stdin" -/
def stdinName : Name := [115, 116, 100, 105, 110]

/-- "tty" -/
def ttyName : Name := [116, 116, 121]

/-- "stdout" -/
def stdoutName : Name := [115, 116, 100, 111, 117, 116]

/-- "stderr" -/
def stderrName : Name := [115, 116, 100, 101, 114, 114]

/-- "null" -/
def nullName : Name := [110, 117, 108, 108]

def devVfsOpen (path : Name) : Int :=
  if kstrcmp path stdinName = 0 ∨ kstrcmp path ttyName = 0 then 0
  else if kstrcmp path stdoutName = 0 then 1
  else if kstrcmp path stderrName = 0 then 2
  else if kstrcmp path nullName = 0 then 3
  else -1

/-- `keyboard_getline` with `i` characters in the line. -/
def keyboardGetline (maxlen : Int) :
    List UInt8 → Nat → Bytes → List UInt8 → Option (Int × Bytes × Dev)
  | [], _, _, _ => none
  | c :: keys, i, out, screen =>
    if c = 0 then keyboardGetline maxlen keys i out screen
    else if c = 10 then some (i, update out i 0, ⟨keys, screen ++ [10]⟩)
    else if c = 8 then
      if 0 < i then keyboardGetline maxlen keys (i - 1) out (screen ++ [8])
      else keyboardGetline maxlen keys i out screen
    else if i < maxlen - 1 then
      keyboardGetline maxlen keys (i + 1) (update out i c) (screen ++ [c])
    else keyboardGetline maxlen keys i out screen

/-- `dev_vfs_read`.  For a length of `2 ^ 31` the `maxlen - 1` of `keyboard_getline` overflows. -/
def devVfsRead (v : Dev) (d : Int) (buf : Bytes) (len : Nat) : Option (Int × Bytes × Dev) :=
  if d = 0 then
    if len = 2 ^ 31 then none else keyboardGetline (i32 len) v.keys 0 buf v.screen
  else if d = 3 then some (0, buf, v)
  else some (-1, buf, v)

def devVfsWrite (v : Dev) (d : Int) (buf : Bytes) (len : Nat) : Int × Dev :=
  if d = 1 ∨ d = 2 then (i32 len, { v with screen := v.screen ++ buf.toList len })
  else if d = 3 then (i32 len, v)
  else (-1, v)

/-- `dev_vfs_stat` copies the path to a field of 64 bytes. -/
def devVfsStat (path : Name) : Option Stat :=
  if 64 ≤ kstrlen path then none else some ⟨0, .dev, cstr path⟩

end KumOS.Vfs
