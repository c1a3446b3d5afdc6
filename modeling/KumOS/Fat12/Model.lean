import KumOS.Lib.Bytes
import KumOS.Lib.Scan

/-!
# `fat12.c`: a FAT12 volume behind the ATA driver

The driver's globals are the fields of `State`; the disks are a store of
512-byte sectors, in which `ok` says whether a transfer to a sector succeeds (a
failed transfer leaves the disk as it was).  A function that may not come back
(a loop over a corrupt chain, a division by zero in `fat12_mount`) returns an
`Option`, with `none` for that case.  Byte values are combined by `%`, `/` and
`+` where the source masks and shifts disjoint bits.
-/

namespace KumOS.Fat12

open Lib

/-! ## The disks -/

structure Ata where
  ok : Int → Nat → Bool
  /-- the bytes of a sector, by drive and sector number -/
  sector : Int → Nat → Bytes

def Ata.put (a : Ata) (drive : Int) (lba : Nat) (buf : Bytes) : Ata :=
  { a with sector := fun d l => if d = drive ∧ l = lba then buf else a.sector d l }

/-- The fields of `bpb_t` that the code reads back. -/
structure Bpb where
  bytesPerSector : Nat
  sectorsPerCluster : Nat
  reservedSectors : Nat
  fatCount : Nat
  rootEntryCount : Nat
  totalSectors16 : Nat
  sectorsPerFat : Nat
  totalSectors32 : Nat
  fsType : List UInt8
  deriving DecidableEq, Repr

/-- `bpb_t` is packed: each field lies right behind the one before it. -/
def Bpb.decode (m : Bytes) : Bpb where
  bytesPerSector := m.get16 11
  sectorsPerCluster := (m 13).toNat
  reservedSectors := m.get16 14
  fatCount := (m 16).toNat
  rootEntryCount := m.get16 17
  totalSectors16 := m.get16 19
  sectorsPerFat := m.get16 22
  totalSectors32 := m.get32 32
  fsType := (m.drop 54).toList 8

structure State where
  drive : Int
  mounted : Bool
  bpb : Bpb
  fatStart : Nat
  rootStart : Nat
  dataStart : Nat
  rootSectors : Nat
  totalClusters : Nat
  /-- `g_fat` -/
  fat : Bytes
  fatDirty : Bool
  /-- `g_sector` -/
  sector : Bytes
  /-- the 450 bytes behind `g_bpb`, which `fat12_mount` overwrites with those of the boot sector -/
  behind : Bytes
  /-- where `g_mounted` is among them, if the linker puts it there -/
  mountedAt : Option Nat
  ata : Ata

def ataRead (s : State) (drive : Int) (lba : Nat) : Option Bytes :=
  if s.ata.ok drive (u32 lba) then some (s.ata.sector drive (u32 lba)) else none

def ataWrite (s : State) (drive : Int) (lba : Nat) (buf : Bytes) : Option State :=
  if s.ata.ok drive (u32 lba) then some { s with ata := s.ata.put drive (u32 lba) buf } else none

/-- `ata_write` of the sectors `content k, content (k + 1), …` from `lba + k` on, until one fails. -/
def writeSectors (drive : Int) (content : Nat → Bytes) (lba : Nat) :
    Nat → Nat → State → Bool × State
  | 0, _, s => (true, s)
  | n + 1, k, s =>
    match ataWrite s drive (lba + k) (content k) with
    | none => (false, s)
    | some s => writeSectors drive content lba n (k + 1) s

/-- The same run of `sects` sectors written several times, one copy behind the other. -/
def writeCopies (drive : Int) (content : Nat → Bytes) (lba sects : Nat) :
    Nat → Nat → State → Bool × State
  | 0, _, s => (true, s)
  | n + 1, copy, s =>
    match writeSectors drive content (lba + copy * sects) sects 0 s with
    | (false, s) => (false, s)
    | (true, s) => writeCopies drive content lba sects n (copy + 1) s

/-! ## The allocation table -/

def clusterToLba (s : State) (cluster : Nat) : Nat :=
  u32 (s.dataStart + (cluster + 2 ^ 32 - 2) * s.bpb.sectorsPerCluster)

/-- `fat_get`: twelve bits per entry, two entries in three bytes. -/
def fatGet (fat : Bytes) (n : Nat) : Nat :=
  let val := fat.get16 (n + n / 2)
  if n % 2 = 1 then val / 2 ^ 4 else val % 2 ^ 12

/-- The table after `fat_set(n, val)`. -/
def fatPut (fat : Bytes) (n val : Nat) : Bytes :=
  let idx := n + n / 2
  if n % 2 = 1 then
    (fat.put8 idx ((fat idx).toNat % 16 + val % 16 * 16)).put8 (idx + 1) (val / 16 % 256)
  else
    (fat.put8 idx (val % 256)).put8 (idx + 1) ((fat (idx + 1)).toNat / 16 * 16 + val / 256 % 16)

def fatSet (s : State) (n val : Nat) : State :=
  { s with fat := fatPut s.fat n val, fatDirty := true }

/-- The loop of `fat_alloc`; its `uint16_t` counter wraps.  After `2 ^ 16` rounds it has come back
to a value it had before. -/
def allocLoop (fat : Bytes) (totalClusters : Nat) : Nat → Nat → Option (Option Nat)
  | 0, _ => none
  | fuel + 1, i =>
    if i < u32 (totalClusters + 2) then
      if fatGet fat i = 0 then some (some i)
      else allocLoop fat totalClusters fuel ((i + 1) % 2 ^ 16)
    else some none

/-- `fat_alloc`: the first free cluster, or 0. -/
def fatAlloc (s : State) : Option (Nat × State) :=
  match allocLoop s.fat s.totalClusters (0x10001) 2 with
  | none => none
  | some none => some (0, s)
  | some (some i) => some (i, fatSet s i 0xFFF)

/-- `fat_flush`; `false` for -1. -/
def fatFlush (s : State) : Bool × State :=
  if !s.fatDirty then (true, s)
  else
    match writeCopies s.drive (fun k => s.fat.drop (512 * k)) s.fatStart s.bpb.sectorsPerFat
        s.bpb.fatCount 0 s with
    | (false, s) => (false, s)
    | (true, s) => (true, { s with fatDirty := false })

/-! ## Names -/

/-- Strings are lists of bytes, read as C strings: they end at the first zero byte. -/
abbrev Name := List UInt8

def upper (c : UInt8) : UInt8 := if 97 ≤ c ∧ c ≤ 122 then c - 32 else c

/-- The first loop of `name_to_83` with `j` places left: the characters stored and what remains. -/
def baseLoop : Nat → Name → List UInt8 × Name
  | 0, name => ([], name)
  | _ + 1, [] => ([], [])
  | j + 1, c :: cs =>
    if c = 0 ∨ c = 46 then ([], c :: cs)
    else (upper c :: (baseLoop j cs).1, (baseLoop j cs).2)

/-- The second loop, behind the dot. -/
def extLoop : Nat → Name → List UInt8
  | 0, _ => []
  | _ + 1, [] => []
  | j + 1, c :: cs => if c = 0 then [] else upper c :: extLoop j cs

/-- `l` in a field of `n` bytes that was filled with blanks. -/
def blankPad (n : Nat) (l : List UInt8) : List UInt8 := l ++ List.replicate (n - l.length) 32

def nameTo83 (name : Name) : List UInt8 :=
  let (base, rest) := baseLoop 8 name
  let ext := if rest.headD 0 = 46 then extLoop 3 rest.tail else []
  blankPad 8 base ++ blankPad 3 ext

def nameFrom83 (raw : List UInt8) : Name :=
  let base := (raw.take 8).takeWhile (· ≠ 32)
  if raw.getD 8 0 ≠ 32 then base ++ 46 :: ((raw.drop 8).take 3).takeWhile (· ≠ 32) else base

def kstrncmp : List UInt8 → List UInt8 → Nat → Int
  | _, _, 0 => 0
  | a, b, n + 1 =>
    if a.headD 0 ≠ 0 ∧ a.headD 0 = b.headD 0 then kstrncmp a.tail b.tail n
    else (a.headD 0).toNat - (b.headD 0).toNat

/-! ## Mounting -/

/-- The loop of `fat12_mount` that fills `g_fat`; `false` when a sector cannot be read. -/
def readFat (drive : Int) : Nat → Nat → State → Bool × State
  | 0, _, s => (true, s)
  | n + 1, k, s =>
    match ataRead s drive (s.fatStart + k) with
    | none => (false, s)
    | some sec => readFat drive n (k + 1) { s with fat := s.fat.copy (512 * k) sec 512 }

/-- `fs_type` names a FAT volume. -/
def Bpb.named (b : Bpb) : Bool :=
  kstrncmp b.fsType [70, 65, 84, 49, 50] 5 = 0 ∨ kstrncmp b.fsType [70, 65, 84, 32, 32, 32] 5 = 0

/-- The checks on a boot sector without such a name. -/
def Bpb.sizesOk (b : Bpb) : Bool :=
  b.bytesPerSector = 512 ∧ 1 ≤ b.fatCount ∧ b.fatCount ≤ 2 ∧ b.rootEntryCount ≠ 0

/-- The geometry variables, computed from the boot sector. -/
def setGeometry (s : State) (b : Bpb) : State :=
  let fatStart := b.reservedSectors
  let rootStart := u32 (fatStart + b.fatCount * b.sectorsPerFat)
  let rootSectors := (b.rootEntryCount * 32 + 511) / 512
  let dataStart := u32 (rootStart + rootSectors)
  let total := if b.totalSectors16 ≠ 0 then b.totalSectors16 else b.totalSectors32
  { s with
    fatStart := fatStart
    rootStart := rootStart
    rootSectors := rootSectors
    dataStart := dataStart
    totalClusters := u32 (total + 2 ^ 32 - dataStart) / b.sectorsPerCluster }

def fat12Mount (s : State) (drive : Int) : Option (Int × State) :=
  let s := { s with mounted := false, drive := drive }
  match ataRead s drive 0 with
  | none => some (-1, s)
  | some sec =>
    let b := Bpb.decode sec
    -- 512 bytes are read to the 62 of `g_bpb`
    let s := { s with
      bpb := b
      behind := sec.drop 62
      mounted := s.mountedAt.any fun o => sec.get32 (62 + o) ≠ 0 }
    if !b.named && !b.sizesOk then some (-1, s)
    else if b.sectorsPerCluster = 0 then none
    else
      match readFat drive b.sectorsPerFat 0 (setGeometry s b) with
      | (false, s) => some (-1, s)
      | (true, s) => some (0, { s with mounted := true, fatDirty := false })

/-! ## The root directory -/

/-- The fields of `dirent_t` that the code reads; `name` and `ext` are read as eleven bytes. -/
structure Dirent where
  name : List UInt8
  attr : Nat
  startCluster : Nat
  fileSize : Nat
  deriving DecidableEq, Repr

def Dirent.decode (dir : Bytes) : Dirent where
  name := dir.toList 11
  attr := (dir 11).toNat
  startCluster := dir.get16 26
  fileSize := dir.get32 28

/-- The first byte of the name marks free entries. -/
def Dirent.first (de : Dirent) : UInt8 := de.name.headD 0

def direntFree : UInt8 := 0xE5
def direntEnd : UInt8 := 0

/-- How a loop over the root directory ends: at its end, out of the body at entry `index` of root
sector `sector`, or because a sector cannot be read. -/
inductive Walk (A R : Type) where
  | done (a : A)
  | left (sector index : Nat) (r : R)
  | failed (a : A)

def sectorEntry (sec : Bytes) (i : Nat) : Dirent := .decode (sec.drop (32 * i))

/-- The loop over the root sectors, with the loop over the sixteen entries of each inside it. -/
def walkRoot {A R : Type} (more : A → Bool) (body : Dirent → A → A ⊕ R) :
    Nat → Nat → A → State → Walk A R × State
  | 0, _, a, s => (.done a, s)
  | n + 1, k, a, s =>
    if more a then
      match ataRead s s.drive (s.rootStart + k) with
      | none => (.failed a, s)
      | some sec =>
        match scan more body (sectorEntry sec) 16 0 a with
        | .inl a => walkRoot more body n (k + 1) a { s with sector := sec }
        | .inr (i, r) => (.left k i r, { s with sector := sec })
    else (.done a, s)

/-- `fat12_entry_t` -/
structure Entry where
  name : Name
  size : Nat
  startCluster : Nat
  attr : Nat
  isDir : Bool
  deriving DecidableEq, Repr

def Entry.ofDirent (de : Dirent) : Entry where
  name := nameFrom83 de.name
  size := de.fileSize
  startCluster := de.startCluster
  attr := de.attr
  isDir := de.attr / 16 % 2 = 1

/-- `ATTR_VOLUME`, `ATTR_SYSTEM` or `ATTR_HIDDEN` -/
def Dirent.unlisted (de : Dirent) : Bool :=
  de.attr / 8 % 2 = 1 ∨ de.attr / 4 % 2 = 1 ∨ de.attr / 2 % 2 = 1

def listBody (de : Dirent) (es : List Entry) : List Entry ⊕ List Entry :=
  if de.first = direntEnd then .inr es
  else if de.first = direntFree ∨ de.unlisted then .inl es
  else .inl (es ++ [.ofDirent de])

/-- `fat12_list`: the count returned and the entries filled in. -/
def fat12List (s : State) (max : Int) : Int × List Entry × State :=
  if !s.mounted then (-1, [], s)
  else
    match walkRoot (fun es : List Entry => decide ((es.length : Int) < max)) listBody
        s.rootSectors 0 [] s with
    | (.done es, s) | (.left _ _ es, s) | (.failed es, s) => (es.length, es, s)

/-- `dirfind_t` of an entry that was found. -/
structure DirFind where
  sector : Nat
  index : Nat
  de : Dirent

def findBody (want : List UInt8) (de : Dirent) (_ : Unit) : Unit ⊕ Option Dirent :=
  if de.first = direntEnd then .inr none
  else if de.first = direntFree then .inl ()
  else if kstrncmp de.name want 11 = 0 then .inr (some de)
  else .inl ()

def fat12Find (s : State) (name : Name) : Option DirFind × State :=
  match walkRoot (fun _ => true) (findBody (nameTo83 name)) s.rootSectors 0 () s with
  | (.left k i (some de), s) => (some ⟨s.rootStart + k, i, de⟩, s)
  | (_, s) => (none, s)

/-! ## Reading -/

/-- The value of a `uint32_t` returned as an `int`. -/
def toInt (n : Nat) : Int := if n < 2 ^ 31 then n else n - 2 ^ 32

/-- The sectors of one cluster; `false` when one cannot be read.  `out` is what has been copied to
the caller's buffer. -/
def readCluster : Nat → Nat → List UInt8 → Nat → State → Bool × List UInt8 × Nat × State
  | 0, _, out, remaining, s => (true, out, remaining, s)
  | n + 1, lba, out, remaining, s =>
    if 0 < remaining then
      match ataRead s s.drive lba with
      | none => (false, out, remaining, s)
      | some sec =>
        let take := if 512 < remaining then 512 else remaining
        readCluster n (lba + 1) (out ++ sec.toList take) (remaining - take) { s with sector := sec }
    else (true, out, remaining, s)

def readLoop : Nat → Nat → List UInt8 → Nat → State → Option (List UInt8 × State)
  | 0, _, _, _, _ => none
  | fuel + 1, cluster, out, remaining, s =>
    if 2 ≤ cluster ∧ cluster ≤ 0xFEF ∧ 0 < remaining then
      match readCluster s.bpb.sectorsPerCluster (clusterToLba s cluster) out remaining s with
      | (false, out, _, s) => some (out, s)
      | (true, out, remaining, s) => readLoop fuel (fatGet s.fat cluster) out remaining s
    else some (out, s)

/-- `remaining` at the start of the loop. -/
def readLen (fileSize bufsz : Nat) : Nat := if bufsz < fileSize then bufsz else fileSize

/-- The part of `fat12_read` behind `fat12_find`.  A round of the loop copies a byte, or the clusters
have no sectors and `2 ^ 16` rounds are a cycle. -/
def readFile (s : State) (de : Dirent) (bufsz : Nat) : Option (Int × List UInt8 × State) :=
  match readLoop (readLen de.fileSize bufsz + 0x10001) de.startCluster []
      (readLen de.fileSize bufsz) s with
  | none => none
  | some (out, s) => some (toInt out.length, out, s)

/-- `fat12_read`: the result and the bytes copied to the buffer. -/
def fat12Read (s : State) (name : Name) (bufsz : UInt32) : Option (Int × List UInt8 × State) :=
  if !s.mounted then some (-1, [], s)
  else
    match fat12Find s name with
    | (none, s) => some (-1, [], s)
    | (some f, s) => readFile s f.de bufsz.toNat

/-! ## Deleting and writing -/

/-- The loop of `fat12_delete` over the chain.  Every round clears an entry, and a cleared entry ends
the loop, so 0x1000 rounds suffice. -/
def freeLoop : Nat → Nat → State → State
  | 0, _, s => s
  | fuel + 1, cluster, s =>
    if 2 ≤ cluster ∧ cluster ≤ 0xFEF then
      freeLoop fuel (fatGet s.fat cluster) (fatSet s cluster 0)
    else s

def fat12Delete (s : State) (name : Name) : Int × State :=
  if !s.mounted then (-1, s)
  else
    match fat12Find s name with
    | (none, s) => (-1, s)
    | (some f, s) =>
      let s := (fatFlush (freeLoop 0x1000 f.de.startCluster s)).2
      match ataRead s s.drive f.sector with
      | none => (-1, s)
      | some sec =>
        let s := { s with sector := sec.put8 (32 * f.index) direntFree.toNat }
        match ataWrite s s.drive f.sector s.sector with
        | none => (-1, s)
        | some s => (0, s)

/-- The sectors of one cluster, taken from `buf` at `pos` on and padded with zeros; `false` when one
cannot be written. -/
def writeCluster (buf : Bytes) : Nat → Nat → Nat → Nat → State → Bool × Nat × Nat × State
  | 0, _, pos, remaining, s => (true, pos, remaining, s)
  | n + 1, lba, pos, remaining, s =>
    if 0 < remaining then
      let take := if 512 < remaining then 512 else remaining
      let s := { s with sector := (s.sector.fill 0 0 512).copy 0 (buf.drop pos) take }
      match ataWrite s s.drive lba s.sector with
      | none => (false, pos, remaining, s)
      | some s => writeCluster buf n (lba + 1) (pos + take) (remaining - take) s
    else (true, pos, remaining, s)

/-- The loop of `fat12_write` over the clusters: the state in which it returns -1, or the first and
the last cluster of the new chain. -/
def writeLoop (buf : Bytes) :
    Nat → Nat → Nat → Nat → Nat → State → Option (Except State (Nat × Nat × State))
  | 0, _, _, _, _, _ => none
  | fuel + 1, first, prev, pos, remaining, s =>
    if 0 < remaining then
      match fatAlloc s with
      | none => none
      | some (0, s) => some (.error s)
      | some (c, s) =>
        let s := if prev ≠ 0 then fatSet s prev c else s
        match writeCluster buf s.bpb.sectorsPerCluster (clusterToLba s c) pos remaining s with
        | (false, _, _, s) => some (.error s)
        | (true, pos, remaining, s) =>
          writeLoop buf fuel (if first = 0 then c else first) c pos remaining s
    else some (.ok (first, prev, s))

/-- The data of a file: the first cluster and the state after its chain is complete.  Every round of
the loop takes a free cluster. -/
def writeData (s : State) (buf : Bytes) (size : Nat) : Option (Except State (Nat × State)) :=
  if size = 0 then some (.ok (0, s))
  else
    match writeLoop buf (s.totalClusters + 2) 0 0 0 size s with
    | none => none
    | some (.error s) => some (.error s)
    | some (.ok (first, prev, s)) => some (.ok (first, fatSet s prev 0xFFF))

/-- The sector with a new entry `i` in it. -/
def putDirent (sec : Bytes) (i : Nat) (name : List UInt8) (cluster size : Nat) : Bytes :=
  let dir := 32 * i
  let sec := sec.fill dir 0 32
  let sec := sec.copy dir (.ofList name) 11
  let sec := sec.put8 (dir + 11) 0x20
  let sec := sec.put16 (dir + 26) cluster
  let sec := sec.put32 (dir + 28) size
  let sec := sec.put16 (dir + 24) 0x4A21
  sec.put16 (dir + 22) 0

/-- An entry that took the place of the end marker moves the marker behind itself. -/
def markEnd (sec : Bytes) (i : Nat) (first : UInt8) : Bytes :=
  if first = direntEnd ∧ i + 1 < 16 then sec.put8 (32 * (i + 1)) direntEnd.toNat else sec

def slotBody (de : Dirent) (_ : Unit) : Unit ⊕ UInt8 :=
  if de.first = direntFree ∨ de.first = direntEnd then .inr de.first else .inl ()

/-- The last part of `fat12_write`: the entry goes to the first free place of the directory. -/
def addEntry (s : State) (name : List UInt8) (cluster size : Nat) : Int × State :=
  match walkRoot (fun _ => true) slotBody s.rootSectors 0 () s with
  | (.left k i first, s) =>
    let s := { s with sector := markEnd (putDirent s.sector i name cluster size) i first }
    match ataWrite s s.drive (s.rootStart + k) s.sector with
    | none => (-1, s)
    | some s => (0, s)
  | (_, s) => (-1, s)

def fat12Write (s : State) (name : Name) (buf : Bytes) (size : UInt32) : Option (Int × State) :=
  if !s.mounted then some (-1, s)
  else
    match writeData (fat12Delete s name).2 buf size.toNat with
    | none => none
    | some (.error s) => some (-1, s)
    | some (.ok (cluster, s)) =>
      match fatFlush s with
      | (false, s) => some (-1, s)
      | (true, s) => some (addEntry s (nameTo83 name) cluster size.toNat)

/-! ## Formatting -/

/-- The characters of the label that go into `volume_label`. -/
def labelChars : Option Name → List UInt8
  | none => []
  | some label => ((label.takeWhile (· ≠ 0)).take 11).map upper

def bootSector (label : Option Name) : Bytes :=
  let boot : Bytes := fun _ => 0
  let boot := ((boot.put8 0 0xEB).put8 1 0x3C).put8 2 0x90
  let boot := boot.copy 3 (.ofList [75, 85, 77, 79, 83, 49, 46, 48]) 8
  let boot := boot.put16 11 512
  let boot := boot.put8 13 1
  let boot := boot.put16 14 1
  let boot := boot.put8 16 2
  let boot := boot.put16 17 224
  let boot := boot.put16 19 2880
  let boot := boot.put8 21 0xF0
  let boot := boot.put16 22 9
  let boot := boot.put16 24 18
  let boot := boot.put16 26 2
  let boot := boot.put8 38 0x29
  let boot := boot.put32 39 0x4B554D4F
  let boot := boot.fill 43 32 11
  let boot := boot.copy 43 (.ofList (labelChars label)) (labelChars label).length
  let boot := boot.copy 54 (.ofList [70, 65, 84, 49, 50, 32, 32, 32]) 8
  (boot.put8 510 0x55).put8 511 0xAA

/-- Sector `k` of an empty table. -/
def emptyFat (k : Nat) : Bytes :=
  let fat : Bytes := fun _ => 0
  if k = 0 then ((fat.put8 0 0xF0).put8 1 0xFF).put8 2 0xFF else fat

def fat12Format (s : State) (drive : Int) (label : Option Name) : Option (Int × State) :=
  match ataWrite s drive 0 (bootSector label) with
  | none => some (-1, s)
  | some s =>
    match writeCopies drive emptyFat 1 9 2 0 s with
    | (false, s) => some (-1, s)
    | (true, s) =>
      match writeSectors drive (fun _ _ => 0) 19 14 0 s with
      | (false, s) => some (-1, s)
      | (true, s) => fat12Mount s drive

end KumOS.Fat12
