import KumOS.Pipes.Model
import KumOS.Vfs.Drivers

/-!
# `vfs.c`: descriptors and mounts

The state holds the descriptor table, the mount table, the three drivers of `vfs.c`
and the pipes.  Further drivers may be mounted (the kernel mounts `/proc` and
`/ext2`); they are given by their functions on a state `X` of their own, which is
all that they change.

Paths are copied to buffers of 128 bytes; a call that would copy more has no result.
A call on a pipe is one of a task that runs alone: `none` when it then blocks for
ever.
-/

namespace KumOS.Vfs

open Lib
open Fat12 (Name kstrncmp)
open Pipes (pipeCreate pipeCloseRead pipeCloseWrite pipeRead pipeWrite)

/-- `vfs_ops_t` of a driver outside `vfs.c`; a null pointer is `none`. -/
structure Ops (X : Type) where
  openFn : Option (Name → Flags → X → Int × X)
  closeFn : Option (Int → X → X)
  readFn : Option (Int → Bytes → Nat → X → Int × Bytes × X)
  writeFn : Option (Int → Bytes → Nat → X → Int × X)
  statFn : Option (Name → X → Option Stat × X)
  readdirFn : Option (Name → Bytes → Nat → X → Int × Bytes × X)
  unlinkFn : Option (Name → X → Int × X)

inductive Driver (X : Type) where
  | mem
  | disk
  | dev
  | other (ops : Ops X)

/-- `vfs_mount_t` -/
structure Mount (X : Type) where
  path : Name
  ops : Driver X
  active : Bool

/-- `vfs_fd_t`; `pipeEnd` is 0 for the read end. -/
structure Fd where
  used : Bool
  flags : Flags
  pos : Nat
  type : FileType
  mountIdx : Int
  fdData : Int
  pipeId : Int
  pipeEnd : Nat
  deriving DecidableEq, Repr

structure State (X : Type) where
  fds : Nat → Fd
  mounts : List (Mount X)
  mem : Mem
  disk : Disk
  dev : Dev
  pipes : Pipes.Table UInt8
  cwd : Name
  /-- the state of the other drivers -/
  ext : X

variable {X : Type}

/-! ## Mounts -/

/-- The loop of `find_mount` from mount `i` on, with the best mount so far and the length of its
path. -/
def findLoop (path : Name) : List (Mount X) → Nat → Option Nat × Nat → Option Nat × Nat
  | [], _, best => best
  | m :: ms, i, best =>
    findLoop path ms (i + 1)
      (if m.active ∧ kstrncmp path m.path m.path.length = 0 ∧ best.2 < m.path.length then
        (some i, m.path.length)
      else best)

/-- A string without a slash at its front. -/
def skipSlash : Name → Name
  | [] => []
  | c :: cs => if c = 47 then cs else c :: cs

/-- The mount of a path, and the rest of the path behind it. -/
def findMount (mounts : List (Mount X)) (path : Name) : Option (Nat × Name) :=
  match findLoop path mounts 0 (none, 0) with
  | (none, _) => none
  | (some i, len) => some (i, skipSlash (path.drop len))

/-- The driver of a mount. -/
def State.driver (s : State X) (midx : Int) : Option (Driver X) :=
  if midx < 0 then none else (s.mounts[midx.toNat]?).map Mount.ops

def vfsMount (s : State X) (path : Name) (ops : Driver X) : Option (Int × State X) :=
  if 8 ≤ s.mounts.length then some (-1, s)
  else if 32 ≤ kstrlen path then none
  else some (0, { s with mounts := s.mounts ++ [⟨cstr path, ops, true⟩] })

/-- "/mem" -/
def memPath : Name := [47, 109, 101, 109]

/-- "/disk" -/
def diskPath : Name := [47, 100, 105, 115, 107]

/-- "/dev" -/
def devPath : Name := [47, 100, 101, 118]

/-- The mounts of `vfs_init`. -/
def initMounts : List (Mount X) := [⟨memPath, .mem, true⟩, ⟨diskPath, .disk, true⟩, ⟨devPath, .dev, true⟩]

/-! ## Calls of a driver -/

def Driver.open (dr : Driver X) (s : State X) (path : Name) (flags : Flags) :
    Option (Int × State X) :=
  match dr with
  | .mem => (memVfsOpen s.mem path flags).map fun r => (r.1, { s with mem := r.2 })
  | .disk => (diskVfsOpen s.disk path flags).map fun r => (r.1, { s with disk := r.2 })
  | .dev => some (devVfsOpen path, s)
  | .other o =>
    match o.openFn with
    | none => some (-1, s)
    | some f => some ((f path flags s.ext).1, { s with ext := (f path flags s.ext).2 })

def Driver.hasClose : Driver X → Bool
  | .other o => o.closeFn.isSome
  | _ => true

def Driver.close (dr : Driver X) (s : State X) (d : Int) : Option (State X) :=
  match dr with
  | .mem => some { s with mem := memVfsClose s.mem d }
  | .disk => (diskVfsClose s.disk d).map fun k => { s with disk := k }
  | .dev => some s
  | .other o =>
    match o.closeFn with
    | none => some s
    | some f => some { s with ext := f d s.ext }

def Driver.read (dr : Driver X) (s : State X) (d : Int) (buf : Bytes) (len : Nat) :
    Option (Int × Bytes × State X) :=
  match dr with
  | .mem => (memVfsRead s.mem d buf len).map fun r => (r.1, r.2.1, { s with mem := r.2.2 })
  | .disk => (diskVfsRead s.disk d buf len).map fun r => (r.1, r.2.1, { s with disk := r.2.2 })
  | .dev => (devVfsRead s.dev d buf len).map fun r => (r.1, r.2.1, { s with dev := r.2.2 })
  | .other o =>
    match o.readFn with
    | none => some (-1, buf, s)
    | some f =>
      some ((f d buf len s.ext).1, (f d buf len s.ext).2.1, { s with ext := (f d buf len s.ext).2.2 })

def Driver.write (dr : Driver X) (s : State X) (d : Int) (buf : Bytes) (len : Nat) :
    Option (Int × State X) :=
  match dr with
  | .mem => (memVfsWrite s.mem d buf len).map fun r => (r.1, { s with mem := r.2 })
  | .disk => (diskVfsWrite s.disk d buf len).map fun r => (r.1, { s with disk := r.2 })
  | .dev => some ((devVfsWrite s.dev d buf len).1, { s with dev := (devVfsWrite s.dev d buf len).2 })
  | .other o =>
    match o.writeFn with
    | none => some (-1, s)
    | some f => some ((f d buf len s.ext).1, { s with ext := (f d buf len s.ext).2 })

def Driver.hasStat : Driver X → Bool
  | .other o => o.statFn.isSome
  | _ => true

/-- The inner `none` is the result -1. -/
def Driver.stat (dr : Driver X) (s : State X) (path : Name) : Option (Option Stat × State X) :=
  match dr with
  | .mem => some (memVfsStat s.mem path, s)
  | .disk => some ((diskVfsStat s.disk path).1, { s with disk := (diskVfsStat s.disk path).2 })
  | .dev => (devVfsStat path).map fun st => (some st, s)
  | .other o =>
    match o.statFn with
    | none => some (none, s)
    | some f => some ((f path s.ext).1, { s with ext := (f path s.ext).2 })

def Driver.unlink (dr : Driver X) (s : State X) (path : Name) : Int × State X :=
  match dr with
  | .mem => ((memVfsUnlink s.mem path).1, { s with mem := (memVfsUnlink s.mem path).2 })
  | .disk => ((diskVfsUnlink s.disk path).1, { s with disk := (diskVfsUnlink s.disk path).2 })
  | .dev => (-1, s)
  | .other o =>
    match o.unlinkFn with
    | none => (-1, s)
    | some f => ((f path s.ext).1, { s with ext := (f path s.ext).2 })

/-- Without the function `vfs_readdir` returns an empty list. -/
def Driver.readdir (dr : Driver X) (s : State X) (path : Name) (buf : Bytes) (sz : Nat) : Int × Bytes × State X :=
  match dr with
  | .mem => ((memVfsReaddir buf).1, (memVfsReaddir buf).2, s)
  | .disk => ((diskVfsReaddir s.disk buf sz).1, (diskVfsReaddir s.disk buf sz).2.1,
      { s with disk := (diskVfsReaddir s.disk buf sz).2.2 })
  | .dev => (0, Function.update buf 0 0, s)
  | .other o =>
    match o.readdirFn with
    | none => (0, Function.update buf 0 0, s)
    | some f => ((f path buf sz s.ext).1, (f path buf sz s.ext).2.1, { s with ext := (f path buf sz s.ext).2.2 })

/-! ## Opening -/

def State.fdUsed (s : State X) (fd : Nat) : Bool := (s.fds fd).used

def State.setFd (s : State X) (fd : Nat) (e : Fd) : State X :=
  { s with fds := Function.update s.fds fd e }

/-- A string in a buffer of `VFS_MAX_PATH` bytes. -/
def fits (path : Name) : Option Name := if 128 ≤ path.length then none else some path

/-- `resolved` in `vfs_open`, `vfs_stat` and `vfs_unlink`. -/
def resolve (path : Name) : Option Name :=
  fits (if path.headD 0 = 47 then cstr path else diskPath ++ 47 :: cstr path)

/-- Whether `vfs_open` looks for the file in `/mem`: no mount, or a driver that does not know it. -/
def probe (s : State X) (found : Option (Nat × Name)) (flags : Flags) : Option (Bool × State X) :=
  match found with
  | none => some (true, s)
  | some (i, rest) =>
    match s.driver i with
    | none => none
    | some dr =>
      if dr.hasStat then
        match dr.stat s rest with
        | none => none
        | some (st, s) => some (st.isNone && !flags.creat, s)
      else some (false, s)

/-- The lines of `vfs_open` that look in `/mem`.  `local` is set as soon as a mount is found, also
when the file is not there and the mount stays as it was. -/
def lookInMem (s : State X) (path : Name) (found : Option (Nat × Name)) :
    Option (Option (Nat × Name) × State X) :=
  match fits (memPath ++ 47 :: skipSlash (cstr path)) with
  | none => none
  | some p =>
    match findMount s.mounts p with
    | none => some (found, s)
    | some (i, rest) =>
      let kept := found.map fun m => (m.1, rest)
      match s.driver i with
      | none => none
      | some dr =>
        if dr.hasStat then
          match dr.stat s rest with
          | none => none
          | some (some _, s) => some (some (i, rest), s)
          | some (none, s) => some (kept, s)
        else some (kept, s)

/-- The mount and the local path `vfs_open` settles on. -/
def select (s : State X) (path : Name) (flags : Flags) : Option (Option (Nat × Name) × State X) :=
  match resolve path with
  | none => none
  | some resolved =>
    match probe s (findMount s.mounts resolved) flags with
    | none => none
    | some (true, s) => lookInMem s path (findMount s.mounts resolved)
    | some (false, s) => some (findMount s.mounts resolved, s)

def allocFd (s : State X) : Option Nat := (List.range' 3 29).find? fun fd => !s.fdUsed fd

/-- The last lines of `vfs_open`, with the result of the driver. -/
def finishOpen (s : State X) (midx : Nat) (dr : Driver X) (flags : Flags) (data : Int) :
    Option (Int × State X) :=
  match allocFd s with
  | none =>
    if dr.hasClose then (dr.close s data).map fun s => (-1, s) else none
  | some fd =>
    some (fd, s.setFd fd
      { s.fds fd with
        used := true
        flags := flags
        pos := 0
        type := .file
        mountIdx := midx
        fdData := data
        pipeId := -1 })

def vfsOpen (s : State X) (path : Name) (flags : Flags) : Option (Int × State X) :=
  match select s path flags with
  | none => none
  | some (none, s) => some (-1, s)
  | some (some (midx, rest), s) =>
    match s.driver midx with
    | none => none
    | some dr =>
      match dr.open s rest flags with
      | none => none
      | some (data, s) => if data < 0 then some (-1, s) else finishOpen s midx dr flags data

/-! ## Descriptors -/

/-- The number of an open descriptor. -/
def State.fdOf (s : State X) (fd : Int) : Option Nat := slotOf s.fdUsed 32 fd

def vfsClose (s : State X) (fd : Int) : Option (Int × State X) :=
  match s.fdOf fd with
  | none => some (-1, s)
  | some fd =>
    let e := s.fds fd
    if e.type = .pipe then
      let pipes := if e.pipeEnd = 0 then pipeCloseRead s.pipes e.pipeId else pipeCloseWrite s.pipes e.pipeId
      some (0, { s with pipes := pipes }.setFd fd { e with used := false })
    else
      match s.driver e.mountIdx with
      | none => some (0, s.setFd fd { e with used := false })
      | some dr => (dr.close s e.fdData).map fun s => (0, s.setFd fd { e with used := false })

/-- `pos` counts the bytes moved through the descriptor. -/
def State.advance (s : State X) (fd : Nat) (n : Int) : State X :=
  if 0 < n then s.setFd fd { s.fds fd with pos := u32 ((s.fds fd).pos + n.toNat) } else s

/-- `vfs_read`: the result and the caller's buffer. -/
def vfsRead (s : State X) (fd : Int) (buf : Bytes) (len : UInt32) : Option (Int × Bytes × State X) :=
  match s.fdOf fd with
  | none => some (-1, buf, s)
  | some fd =>
    let e := s.fds fd
    if e.type = .pipe then
      (pipeRead s.pipes e.pipeId len.toNat).map fun r =>
        (r.1, buf.copy 0 (.ofList r.2.1) r.2.1.length, { s with pipes := r.2.2 })
    else
      match s.driver e.mountIdx with
      | none => some (-1, buf, s)
      | some dr =>
        (dr.read s e.fdData buf len.toNat).map fun r => (r.1, r.2.1, r.2.2.advance fd r.1)

def vfsWrite (s : State X) (fd : Int) (buf : Bytes) (len : UInt32) : Option (Int × State X) :=
  match s.fdOf fd with
  | none => some (-1, s)
  | some fd =>
    let e := s.fds fd
    if e.type = .pipe then
      (pipeWrite s.pipes e.pipeId (buf.toList len.toNat)).map fun r => (r.1, { s with pipes := r.2 })
    else
      match s.driver e.mountIdx with
      | none => some (-1, s)
      | some dr => (dr.write s e.fdData buf len.toNat).map fun r => (r.1, r.2.advance fd r.1)

def vfsStat (s : State X) (path : Name) : Option (Option Stat × State X) :=
  match resolve path with
  | none => none
  | some resolved =>
    match findMount s.mounts resolved with
    | none => some (none, s)
    | some (i, rest) =>
      match s.driver i with
      | none => none
      | some dr => dr.stat s rest

def vfsUnlink (s : State X) (path : Name) : Option (Int × State X) :=
  match resolve path with
  | none => none
  | some resolved =>
    match findMount s.mounts resolved with
    | none => some (-1, s)
    | some (i, rest) => (s.driver i).map fun dr => dr.unlink s rest

/-! ## The current directory -/

/-- `resolved` in `vfs_readdir`. -/
def resolveCwd (cwd path : Name) : Option Name :=
  fits (if path.headD 0 = 47 then cstr path else cwd ++ 47 :: cstr path)

def vfsReaddir (s : State X) (path : Name) (buf : Bytes) (sz : Nat) : Option (Int × Bytes × State X) :=
  match resolveCwd s.cwd path with
  | none => none
  | some resolved =>
    match findMount s.mounts resolved with
    | none => some (0, Function.update buf 0 0, s)
    | some (i, rest) => (s.driver i).map fun dr => dr.readdir s rest buf sz

/-- `cwd` after `vfs_chdir`: an absolute path is cut at 127 bytes. -/
def chdirTo (cwd path : Name) : Option Name :=
  if path.headD 0 = 47 then some ((cstr path).take 127) else fits (cwd ++ 47 :: cstr path)

def vfsChdir (s : State X) (path : Name) : Option (Int × State X) :=
  (chdirTo s.cwd path).map fun c => (0, { s with cwd := c })

/-- `vfs_getcwd`: the result and the caller's buffer.  For a size of 0 the whole memory is written. -/
def vfsGetcwd (s : State X) (buf : Bytes) (sz : Nat) : Option (Int × Bytes) :=
  if sz = 0 then none
  else
    let text := s.cwd.take (sz - 1)
    some (text.length, buf.copy 0 (.ofList text) sz)

/-! ## Pipes -/

/-- The entry of an end of pipe `id`. -/
def Fd.toPipe (e : Fd) (id : Int) (pipeEnd : Nat) (flags : Flags) : Fd :=
  { e with used := true, type := .pipe, pipeId := id, pipeEnd := pipeEnd, mountIdx := -1, flags := flags }

/-- `vfs_pipe`: the result and `fds[2]`.  `alloc_fd` does not reserve what it finds. -/
def vfsPipe (s : State X) (fds : Int × Int) : Int × (Int × Int) × State X :=
  let (id, pipes) := pipeCreate s.pipes
  let s := { s with pipes := pipes }
  if id < 0 then (-1, fds, s)
  else
    match allocFd s with
    | none => (-1, fds, { s with pipes := pipeCloseWrite (pipeCloseRead s.pipes id) id })
    | some r =>
      match allocFd s with
      | none =>
        (-1, fds, { s with pipes := pipeCloseWrite (pipeCloseRead s.pipes id) id }.setFd r
          { s.fds r with used := false })
      | some w =>
        let s := s.setFd r ((s.fds r).toPipe id 0 {})
        let s := s.setFd w ((s.fds w).toPipe id 1 { wronly := true })
        (0, (r, w), s)

def vfsDup2 (s : State X) (oldfd newfd : Int) : Option (Int × State X) :=
  match s.fdOf oldfd with
  | none => some (-1, s)
  | some old =>
    if newfd < 0 ∨ 32 ≤ newfd then some (-1, s)
    else
      let copy (s : State X) := (newfd, s.setFd newfd.toNat (s.fds old))
      if s.fdUsed newfd.toNat then (vfsClose s newfd).map fun r => copy r.2 else some (copy s)

/-! ## Booting -/

/-- A cleared entry of `fd_table`. -/
def Fd.cleared : Fd where
  used := false
  flags := {}
  pos := 0
  type := .unset
  mountIdx := 0
  fdData := 0
  pipeId := 0
  pipeEnd := 0

/-- The tables after `vfs_init`, beside the files, the volume, the keyboard and the other drivers. -/
def vfsInit (fs : Fs.State) (fat : Fat12.State) (dev : Dev) (ext : X) : State X where
  fds := fun _ => .cleared
  mounts := initMounts
  mem := ⟨fun _ => ⟨0, 0, false⟩, fs⟩
  disk := ⟨fun _ => ⟨[], fun _ => 0, 0, 0, false, false⟩, fat⟩
  dev := dev
  pipes := Pipes.pipeInit
  cwd := diskPath
  ext := ext

/-- Entry `i` of `fd_table` after `vfs_init_stdio`. -/
def stdioFd (mounts : List (Mount X)) (e : Fd) (i : Nat) : Fd :=
  { e with
    used := true
    type := .dev
    mountIdx := ((findMount mounts devPath).map fun m => (m.1 : Int)).getD (-1)
    fdData := i
    flags := if i = 0 then {} else { wronly := true } }

def vfsInitStdio (s : State X) : State X :=
  { s with fds := fun i => if i < 3 then stdioFd s.mounts (s.fds i) i else s.fds i }

def vfsIsatty (s : State X) (fd : Int) : Int :=
  match s.fdOf fd with
  | none => 0
  | some fd => if (s.fds fd).type = .dev ∧ (s.fds fd).fdData < 3 then 1 else 0

end KumOS.Vfs
