import KumOS.Kstring

/-!
# `ext2.c`

Reading an ext2 volume from drive 0.  A transfer that fails leaves the buffer as it is; here
they succeed.  The loops have fuel and give `none` without it; so does a division by zero, which
stops the machine.
-/

namespace KumOS.Ext2

open Lib
open Fat12 (Name kstrncmp)

/-- The fields of `ext2_super_t` that are used. -/
structure Super where
  logBlockSize : Nat
  inodesPerGroup : Nat
  magic : Nat
  inodeSize : Nat

def Super.decode (b : Bytes) : Super := ⟨b.get32 24, b.get32 40, b.get16 56, b.get16 88⟩

structure State where
  /-- the sectors of the drive -/
  sector : Nat → Bytes
  sb : Super
  /-- `bgd.bg_inode_table` -/
  inodeTable : Nat
  blockSize : Nat
  lbaBase : Nat
  mounted : Bool
  /-- what a block buffer on the stack holds before it is filled -/
  stack : Bytes

/-- The sector of the first group descriptor, from the start of the volume. -/
def bgdLba (blockSize : Nat) : Nat := if blockSize = 1024 then 4 else blockSize / 512

def ext2Init (s : State) (lbaStart : Nat) : Int × State :=
  let sb := Super.decode (s.sector (u32 (lbaStart + 2)))
  let s := { s with lbaBase := lbaStart, sb := sb }
  if sb.magic ≠ 0xEF53 then (-1, s)
  else
    -- the processor shifts by the count modulo 32
    let blockSize := u32 (1024 * 2 ^ (sb.logBlockSize % 32))
    let bgd := s.sector (u32 (lbaStart + bgdLba blockSize))
    (0, { s with blockSize := blockSize, inodeTable := bgd.get32 8, mounted := true })

def readBlock (s : State) (blk : Nat) : Bytes := fun i =>
  if i < s.blockSize / 512 * 512 then s.sector (u32 (s.lbaBase + blk * (s.blockSize / 512) + i / 512)) (i % 512)
  else s.stack i

/-- `read_inode`: the bytes of an `ext2_inode_t`. -/
def readInode (s : State) (ino : Nat) : Option Bytes :=
  let perBlock := s.blockSize / s.sb.inodeSize
  if s.sb.inodeSize = 0 ∨ s.sb.inodesPerGroup = 0 ∨ perBlock = 0 then none
  else
    let idx := u32 (ino + 2 ^ 32 - 1) % s.sb.inodesPerGroup
    some ((readBlock s (u32 (s.inodeTable + idx / perBlock))).drop (idx % perBlock * s.sb.inodeSize))

/-- `i_size` -/
def iSize (inode : Bytes) : Nat := inode.get32 4

/-- `i_block[n]` -/
def iBlock (inode : Bytes) (n : Nat) : Nat := inode.get32 (40 + 4 * n)

def getBlock (s : State) (inode : Bytes) (n : Nat) : Nat :=
  if n < 12 then iBlock inode n
  else if n < 12 + s.blockSize / 4 then (readBlock s (iBlock inode 12)).get32 (4 * (n - 12))
  else 0

/-- The loops over the blocks of a file: `pos` is `read` or `done`, and `body` gives its next value,
or leaves the function. -/
def blockLoop {A R : Type} (s : State) (inode : Bytes) (size : Nat) (body : Bytes → Nat → A → Option ((Nat × A) ⊕ R)) :
    Nat → Nat → Nat → A → Option (A ⊕ R)
  | 0, _, _, _ => none
  | fuel + 1, b, pos, a =>
    if pos < size then
      if getBlock s inode b = 0 then some (.inl a)
      else
        match body (readBlock s (getBlock s inode b)) pos a with
        | none => none
        | some (.inr r) => some (.inr r)
        | some (.inl (pos, a)) => blockLoop s inode size body fuel (b + 1) pos a
    else some (.inl a)

/-- Rounds enough: behind the indirect block `get_block` gives 0. -/
def rounds (s : State) : Nat := s.blockSize / 4 + 13

/-- `min(size - pos, block_size)` as the loops compute it. -/
def chunk (s : State) (size pos : Nat) : Nat := if s.blockSize < size - pos then s.blockSize else size - pos

/-! ## Directories -/

/-- The loops over the entries of a block. -/
def entryLoop {A R : Type} (blk : Bytes) (bsz : Nat) (body : Nat → A → A ⊕ R) : Nat → Nat → A → Option (A ⊕ R)
  | 0, _, _ => none
  | fuel + 1, off, a =>
    if off < bsz then
      if blk.get16 (off + 4) = 0 then some (.inl a)
      else
        match body off a with
        | .inr r => some (.inr r)
        | .inl a => entryLoop blk bsz body fuel (off + blk.get16 (off + 4)) a
    else some (.inl a)

def matchEntry (blk : Bytes) (name : Name) (off : Nat) (_ : Unit) : Unit ⊕ Nat :=
  if blk.get32 off ≠ 0 ∧ (blk (off + 6)).toNat = kstrlen name ∧
    kstrncmp ((blk.drop (off + 8)).toList (kstrlen name)) name (kstrlen name) = 0 then .inr (blk.get32 off) else .inl ()

def lookupDir (s : State) (dirIno : Nat) (name : Name) : Option Nat :=
  (readInode s dirIno).bind fun inode =>
    (blockLoop s inode (iSize inode) (fun blk pos a =>
        (entryLoop blk (chunk s (iSize inode) pos) (matchEntry blk name) 4097 0 a).map
          (Sum.map (u32 (pos + s.blockSize), ·) id)) (rounds s) 0 0 ()).map fun
      | .inl _ => 0
      | .inr ino => ino

/-- The loop of `path_to_ino` over the parts of a path; `part` has been read of the current one. -/
def partLoop (s : State) : Nat → Name → Name → Option Nat
  | ino, part, [] => if part = [] then some ino else lookupDir s ino part
  | ino, part, c :: p =>
    if c = 47 then (lookupDir s ino part).bind fun ino => if ino = 0 then some 0 else partLoop s ino [] p
    else partLoop s ino (part ++ [c]) p

def pathToIno (s : State) (path : Name) : Option Nat :=
  if cstr path = [] ∨ cstr path = [47] then some 2
  else partLoop s 2 [] (if (cstr path).head? = some 47 then (cstr path).tail else cstr path)

/-- What `ext2_list_dir` does with an entry. -/
def listEntry (blk : Bytes) (sz off : Nat) (out : Name) : Name ⊕ Empty :=
  let name := (blk.drop (off + 8)).toList (blk (off + 6)).toNat
  .inl (if blk.get32 off ≠ 0 ∧ name ≠ [] ∧ name ≠ [46] ∧ name ≠ [46, 46] ∧ out.length + name.length + 2 < sz then
    out ++ name ++ [10] else out)

/-- `ext2_list_dir`: the result and the text before the zero. -/
def ext2ListDir (s : State) (path : Name) (sz : Nat) : Option (Int × Name) :=
  if !s.mounted then some (-1, [])
  else
    (pathToIno s path).bind fun ino =>
      if ino = 0 then some (-1, [])
      else
        (readInode s ino).bind fun inode =>
          (blockLoop s inode (iSize inode) (fun blk pos out =>
              (entryLoop blk s.blockSize (listEntry blk sz) 4097 0 out).map
                (Sum.map (u32 (pos + s.blockSize), ·) id)) (rounds s) 0 0 []).map fun
            | .inl out => (out.length, out)

/-! ## Files -/

/-- The loop of `ext2_read_file` and `e2_read`: what is copied to the buffer. -/
def copyLoop (s : State) (inode : Bytes) (sz : Nat) : Option (List UInt8) :=
  let total := if iSize inode < sz then iSize inode else sz
  (blockLoop (R := Empty) s inode total (fun blk done out =>
      some (.inl (done + chunk s total done, out ++ blk.toList (chunk s total done)))) (rounds s) 0 0 []).map fun
    | .inl out => out

def ext2ReadFile (s : State) (path : Name) (sz : Nat) : Option (Int × List UInt8) :=
  if !s.mounted then some (-1, [])
  else
    (pathToIno s path).bind fun ino =>
      if ino = 0 then some (-1, [])
      else (readInode s ino).bind fun inode => (copyLoop s inode sz).map fun out => (out.length, out)

end KumOS.Ext2
