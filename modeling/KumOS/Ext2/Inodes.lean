import KumOS.Ext2.Model

/-!
# Mounting, and finding an inode

`ext2_init` compares the magic number only, and keeps the descriptor of the first group:
`mount_relied_iff` and `inode_found_iff` say what follows for the fields and for the inodes.
-/

namespace KumOS.Ext2

open Lib

variable {s : State} {blk i : Nat}

/-- What the other calls rely on. -/
structure Relied (s : State) : Prop where
  blockSize : s.blockSize = 1024 ∨ s.blockSize = 2048 ∨ s.blockSize = 4096
  inodeSize : s.sb.inodeSize ≠ 0 ∧ s.sb.inodeSize ≤ s.blockSize
  perGroup : s.sb.inodesPerGroup ≠ 0

/-- No call divides by zero, and blocks, inodes and directory entries lie inside the buffers of 4096 bytes.  Each
call reads its blocks anew, so `records` is said of every block: the bytes behind the buffer make no difference. -/
structure Safe (s : State) : Prop where
  divides : ∀ ino, readInode s ino ≠ none
  block : s.blockSize / 512 * 512 ≤ 4096
  inode : ∀ idx < s.sb.inodesPerGroup, idx % (s.blockSize / s.sb.inodeSize) * s.sb.inodeSize + 128 ≤ 4096
  records : ∀ blk blk' : Bytes, (∀ i < 4096, blk' i = blk i) →
    (∀ bsz ≤ s.blockSize, ∀ name, entryLoop blk' bsz (matchEntry blk' name) 4097 0 () =
      entryLoop blk bsz (matchEntry blk name) 4097 0 ()) ∧
    ∀ sz out, entryLoop blk' s.blockSize (listEntry blk' sz) 4097 0 out =
      entryLoop blk s.blockSize (listEntry blk sz) 4097 0 out

theorem Relied.readInode (h : Relied s) (ino : Nat) : ∃ inode, readInode s ino = some inode := by
  have hpos := Nat.div_pos h.inodeSize.2 (Nat.pos_of_ne_zero h.inodeSize.1)
  have hno : ¬ (s.sb.inodeSize = 0 ∨ s.sb.inodesPerGroup = 0 ∨ s.blockSize / s.sb.inodeSize = 0) := by
    rintro (h0 | h0 | h0)
    · exact h.inodeSize.1 h0
    · exact h.perGroup h0
    · exact Nat.ne_of_gt hpos h0
  exact ⟨_, if_neg hno⟩

section

variable {blk' blk : Bytes} {off bsz : Nat} {A R : Type}

theorem entryLoop_congr {body' body : Nat → A → A ⊕ R} (hlen : ∀ off < bsz, blk'.get16 (off + 4) = blk.get16 (off + 4))
    (hbody : ∀ off < bsz, ∀ a, body' off a = body off a) (fuel off : Nat) (a : A) :
    entryLoop blk' bsz body' fuel off a = entryLoop blk bsz body fuel off a := by
  induction fuel generalizing off a with
  | zero => rfl
  | succ fuel ih =>
    unfold entryLoop
    by_cases hoff : off < bsz
    · rw [if_pos hoff, if_pos hoff, hlen off hoff, hbody off hoff]
      simp only [ih]
    · rw [if_neg hoff, if_neg hoff]

variable (h : ∀ i < 4096, blk' i = blk i) (hoff : off < 2048)
include h hoff

/-- The name of an entry in the first 2048 bytes ends before the buffer does. -/
theorem toList_entry :
    (blk'.drop (off + 8)).toList (blk (off + 6)).toNat = (blk.drop (off + 8)).toList (blk (off + 6)).toNat := by
  have hlt := (blk (off + 6)).toNat_lt
  exact Bytes.toList_congr fun i hi => h _ (by omega)

theorem matchEntry_congr (name : Fat12.Name) (u : Unit) : matchEntry blk' name off u = matchEntry blk name off u := by
  have hname := toList_entry h hoff
  have hino : blk'.get32 off = blk.get32 off := Bytes.get32_congr fun i hi => h _ (by omega)
  unfold matchEntry
  rw [hino, h (off + 6) (by omega)]
  by_cases hn : (blk (off + 6)).toNat = kstrlen name
  · rw [← hn, hname]
  · simp only [hn, false_and, and_false]

theorem listEntry_congr (sz : Nat) (out : Fat12.Name) : listEntry blk' sz off out = listEntry blk sz off out := by
  have hino : blk'.get32 off = blk.get32 off := Bytes.get32_congr fun i hi => h _ (by omega)
  unfold listEntry
  rw [hino, h (off + 6) (by omega), toList_entry h hoff]

end

/-- A block with an entry at 4092, whose length stands behind the buffer, and what may stand there. -/
def strayBlock : Bytes := (Bytes.put16 (fun _ => 0) 4 4092).put8 4092 1
def strayBytes : Bytes := ((strayBlock.put16 4096 8).put8 4098 1).put8 4100 97

/-- Blocks of 4096 bytes leave no room behind an entry at their end. -/
theorem records_iff (hb : s.blockSize = 1024 ∨ s.blockSize = 2048 ∨ s.blockSize = 4096) :
    (∀ blk blk' : Bytes, (∀ i < 4096, blk' i = blk i) →
      (∀ bsz ≤ s.blockSize, ∀ name, entryLoop blk' bsz (matchEntry blk' name) 4097 0 () =
        entryLoop blk bsz (matchEntry blk name) 4097 0 ()) ∧
      ∀ sz out, entryLoop blk' s.blockSize (listEntry blk' sz) 4097 0 out =
        entryLoop blk s.blockSize (listEntry blk sz) 4097 0 out) ↔ s.blockSize ≤ 2048 := by
  constructor
  · intro h
    by_contra hbig
    have hsame : ∀ i < 4096, strayBytes i = strayBlock i := by
      intro i hi
      unfold strayBytes
      rw [Bytes.put8_ne _ (by omega), Bytes.put8_ne _ (by omega), Bytes.put16_of_out _ (by omega)]
    have hno := (h strayBlock strayBytes hsame).1 4096 (by omega) [97]
    revert hno
    decide +kernel
  · intro hsmall blk blk' h
    have hlen : ∀ off < 2048, blk'.get16 (off + 4) = blk.get16 (off + 4) := by
      intro off hoff
      exact Bytes.get16_congr fun i hi => h _ (by omega)
    refine ⟨fun bsz hbsz name => ?_, fun sz out => ?_⟩
    · exact entryLoop_congr (fun off hoff => hlen off (by omega)) (fun off hoff => matchEntry_congr h (by omega) name) 4097 0 ()
    · exact entryLoop_congr (fun off hoff => hlen off (by omega)) (fun off hoff => listEntry_congr h (by omega) sz) 4097 0 out

theorem shifted_size : ∀ k < 32, ((u32 (1024 * 2 ^ k) = 1024 ∨ u32 (1024 * 2 ^ k) = 2048 ∨ u32 (1024 * 2 ^ k) = 4096) ∧
    u32 (1024 * 2 ^ k) ≤ 2048 ↔ k ≤ 1) ∧ (k ≤ 1 → u32 (1024 * 2 ^ k) = 1024 * 2 ^ k) := by
  decide +kernel

/-- A drive whose sectors hold the magic number and zeros. -/
def blankDrive : State := ⟨fun _ => Bytes.put16 (fun _ => 0) 56 0xEF53, ⟨0, 0, 0, 0⟩, 0, 1024, 0, false, fun _ => 0⟩

/-- Two groups of eight inodes, the tables at blocks 5 and 7; the first inode of the second is of a file of one byte. -/
def twoGroups : State := { blankDrive with
  sector := fun
    | 2 => ((Bytes.put16 (fun _ => 0) 56 0xEF53).put32 40 8).put16 88 128
    | 4 => (Bytes.put32 (fun _ => 0) 8 5).put32 40 7
    | 14 => Bytes.put32 (fun _ => 0) 4 1
    | _ => fun _ => 0 }

/-- Byte `x` of the volume. -/
def State.byte (s : State) (x : Nat) : UInt8 := s.sector (u32 (s.lbaBase + x / 512)) (x % 512)

/-- `bg_inode_table` of group `g`. -/
def State.tableOf (s : State) (g : Nat) : Nat := Bytes.get32 s.byte (512 * bgdLba s.blockSize + 32 * g + 8)

/-- Byte `i` of the inode at index `idx` of the table at block `table`. -/
def State.inodeByte (s : State) (table idx i : Nat) : UInt8 := s.byte (table * s.blockSize + idx * s.sb.inodeSize + i)

theorem readBlock_byte (hb : 512 ∣ s.blockSize) (hi : i < s.blockSize) :
    readBlock s (u32 blk) i = s.byte (blk * s.blockSize + i) := by
  obtain ⟨n, hn⟩ := hb
  have hdiv : s.blockSize / 512 = n := by omega
  unfold readBlock State.byte
  rw [if_pos (by omega), hdiv, hn]
  have hx : (blk * (512 * n) + i) / 512 = blk * n + i / 512 := by
    rw [Nat.mul_left_comm]
    omega
  have hmod : (blk * (512 * n) + i) % 512 = i % 512 := by
    rw [Nat.mul_left_comm]
    omega
  have hwrap : blk * n = blk % 2 ^ 32 * n + 2 ^ 32 * (blk / 2 ^ 32 * n) := by
    rw [← Nat.mul_assoc, ← Nat.add_mul, Nat.mod_add_div]
  rw [hx, hmod, hwrap]
  refine congrArg (s.sector · (i % 512)) ?_
  unfold u32
  omega

theorem readInode_byte (hb : s.blockSize = 1024 ∨ s.blockSize = 2048 ∨ s.blockSize = 4096)
    (hdvd : s.sb.inodeSize ∣ s.blockSize) {ino : Nat} (h1 : 1 ≤ ino) (hlt : ino < 2 ^ 32) {inode : Bytes}
    (hread : readInode s ino = some inode) (hi : i < s.sb.inodeSize) :
    inode i = s.inodeByte s.inodeTable ((ino - 1) % s.sb.inodesPerGroup) i := by
  have hidx : u32 (ino + 2 ^ 32 - 1) = ino - 1 := by
    unfold u32
    omega
  obtain ⟨k, hk⟩ := hdvd
  have hper : s.blockSize / s.sb.inodeSize = k := by rw [hk, Nat.mul_div_cancel_left _ (by omega)]
  have hpos : 0 < k := Nat.pos_of_ne_zero fun h0 => by rw [h0] at hk; omega
  unfold readInode at hread
  dsimp only at hread
  split at hread <;> cases hread
  unfold State.inodeByte
  rw [hidx, hper]
  generalize (ino - 1) % s.sb.inodesPerGroup = idx
  have hin : idx % k * s.sb.inodeSize + i < s.blockSize := by
    have hle := Nat.mul_le_mul_right s.sb.inodeSize (Nat.mod_lt idx hpos)
    rw [Nat.succ_mul, Nat.mul_comm k, ← hk] at hle
    omega
  have hplace : (s.inodeTable + idx / k) * s.blockSize + (idx % k * s.sb.inodeSize + i) =
      s.inodeTable * s.blockSize + idx * s.sb.inodeSize + i := by
    have hsplit : idx / k * s.blockSize + idx % k * s.sb.inodeSize = idx * s.sb.inodeSize := by
      rw [hk, Nat.mul_comm s.sb.inodeSize k, ← Nat.mul_assoc, ← Nat.add_mul, Nat.div_add_mod']
    rw [Nat.add_mul]
    omega
  rw [← hplace]
  exact readBlock_byte (by omega) hin

theorem State.byte_sector (s : State) (b : Nat) {x : Nat} (hx : x < 512) :
    s.byte (512 * b + x) = s.sector (u32 (s.lbaBase + b)) x := by
  unfold State.byte
  rw [Nat.mul_add_div (by decide), Nat.mul_add_mod, Nat.div_eq_of_lt hx, Nat.mod_eq_of_lt hx, Nat.add_zero]

theorem ext2Init_table {s0 : State} {lbaStart : Nat} (h : ext2Init s0 lbaStart = (0, s)) : s.inodeTable = s.tableOf 0 := by
  have hbgd : s.inodeTable = (s.sector (u32 (s.lbaBase + bgdLba s.blockSize))).get32 8 := by
    unfold ext2Init at h
    dsimp only at h
    split at h <;> cases h
    rfl
  rw [hbgd, State.tableOf, Nat.mul_zero, Nat.add_zero]
  simp (disch := decide) only [Bytes.get32, Bytes.get16, Nat.add_assoc, Nat.reduceAdd, State.byte_sector]

/-- `read_inode` gives an inode of another group than the first exactly if the inode at the same index of the
first has the same bytes; it gives none where a group has no inodes. -/
theorem inode_found_iff {s0 : State} {lbaStart : Nat} (hinit : ext2Init s0 lbaStart = (0, s))
    (hb : s.blockSize = 1024 ∨ s.blockSize = 2048 ∨ s.blockSize = 4096) (hdvd : s.sb.inodeSize ∣ s.blockSize)
    {ino g idx : Nat} (h1 : 1 ≤ ino) (hlt : ino < 2 ^ 32) (hg : g = (ino - 1) / s.sb.inodesPerGroup)
    (hidx : idx = (ino - 1) % s.sb.inodesPerGroup) :
    (readInode s ino = none ↔ s.sb.inodesPerGroup = 0) ∧
    ((∀ inode, readInode s ino = some inode → ∀ i < min 128 s.sb.inodeSize, inode i = s.inodeByte (s.tableOf g) idx i) ↔
      g = 0 ∨ ∀ i < min 128 s.sb.inodeSize, s.inodeByte (s.tableOf 0) idx i = s.inodeByte (s.tableOf g) idx i) := by
  have hpos : 0 < s.blockSize := by omega
  have hsz : s.sb.inodeSize ≠ 0 := Nat.ne_of_gt (Nat.pos_of_dvd_of_pos hdvd hpos)
  have hnone : readInode s ino = none ↔ s.sb.inodesPerGroup = 0 := by
    constructor
    · intro hno
      by_contra hper
      obtain ⟨inode, hsome⟩ := Relied.readInode ⟨hb, ⟨hsz, Nat.le_of_dvd hpos hdvd⟩, hper⟩ ino
      rw [hsome] at hno
      cases hno
    · intro hper
      exact if_pos (.inr (.inl hper))
  have hrd : ∀ inode, readInode s ino = some inode → ∀ i < min 128 s.sb.inodeSize,
      inode i = s.inodeByte (s.tableOf 0) idx i := by
    intro inode hread i hi
    rw [readInode_byte hb hdvd h1 hlt hread (by omega), ext2Init_table hinit, hidx]
  refine ⟨hnone, fun h => ?_, ?_⟩
  · by_cases hper : s.sb.inodesPerGroup = 0
    · rw [hper, Nat.div_zero] at hg
      exact .inl hg
    · obtain ⟨inode, hread⟩ := Option.ne_none_iff_exists'.1 (mt hnone.1 hper)
      exact .inr fun i hi => (hrd inode hread i hi).symm.trans (h inode hread i hi)
  · rintro (rfl | h) inode hread i hi
    · exact hrd inode hread i hi
    · exact (hrd inode hread i hi).trans (h i hi)

theorem inode_found_iff_root : ∃ inode, readInode (ext2Init twoGroups 0).2 2 = some inode ∧ ∀ i < 128, inode i =
    (ext2Init twoGroups 0).2.inodeByte ((ext2Init twoGroups 0).2.tableOf 0) 1 i := by
  have h := inode_found_iff (show ext2Init twoGroups 0 = (0, _) from rfl) (by decide) (by decide) (show 1 ≤ 2 by decide)
    (by decide) (show 0 = 1 / 8 from rfl) (show 1 = 1 % 8 from rfl)
  obtain ⟨inode, hread⟩ := Option.ne_none_iff_exists'.1 (mt h.1.1 (by decide))
  exact ⟨inode, hread, h.2.2 (.inl rfl) inode hread⟩

theorem inode_of_first_group : (ext2Init twoGroups 0).1 = 0 ∧
    (readInode (ext2Init twoGroups 0).2 9).map iSize = some 0 ∧
    iSize ((ext2Init twoGroups 0).2.inodeByte ((ext2Init twoGroups 0).2.tableOf 1) 0) = 1 := by
  decide +kernel

end KumOS.Ext2
