import KumOS.Ext2.Inodes
import Mathlib.Data.List.GetD

/-!
# The blocks of a file

The loops over blocks end because `get_block` knows the direct and the single-indirect blocks
only (`walks_end`); where these are there, a read is exact (`read_exact`).
-/

namespace KumOS.Ext2

open Lib
open Fat12 (Name)

variable {s : State} {inode : Bytes} {A R : Type} {body : Bytes → Nat → A → Option ((Nat × A) ⊕ R)} {b fuel off pos size : Nat}

/-! ## Termination -/

theorem getBlock_lt (h : getBlock s inode b ≠ 0) : b < 12 + s.blockSize / 4 := by
  unfold getBlock at h
  split at h
  · omega
  · split at h <;> omega

theorem blockLoop_ends (hbody : ∀ blk pos a, body blk pos a ≠ none) (hb : b ≤ s.blockSize / 4 + 12)
    (hfuel : s.blockSize / 4 + 12 < fuel + b) (a : A) : blockLoop s inode size body fuel b pos a ≠ none := by
  induction fuel generalizing b pos a with
  | zero => omega
  | succ fuel ih =>
    unfold blockLoop
    split
    · split
      · exact Option.some_ne_none _
      have hlt := getBlock_lt ‹_›
      split
      · exact absurd ‹_› (hbody _ _ _)
      · exact Option.some_ne_none _
      · exact ih (by omega) (by omega) _
    · exact Option.some_ne_none _

theorem entryLoop_ends {blk : Bytes} {body : Nat → A → A ⊕ R} (hfuel : size - off < fuel) (a : A) :
    entryLoop blk size body fuel off a ≠ none := by
  induction fuel generalizing off a with
  | zero => omega
  | succ fuel ih =>
    unfold entryLoop
    split
    · split
      · exact Option.some_ne_none _
      split
      · exact Option.some_ne_none _
      · exact ih (by omega) _
    · exact Option.some_ne_none _

theorem Relied.blockSize_le (h : Relied s) : s.blockSize ≤ 4096 := by
  have := h.blockSize
  omega

theorem lookupDir_ends (h : Relied s) (ino : Nat) (name : Name) : lookupDir s ino name ≠ none := by
  have hb := h.blockSize_le
  obtain ⟨inode, hread⟩ := h.readInode ino
  unfold lookupDir
  rw [hread, Option.bind_some, ne_eq, Option.map_eq_none_iff]
  refine blockLoop_ends (fun blk pos a => ?_) (Nat.zero_le _) (by unfold rounds; omega) _
  rw [ne_eq, Option.map_eq_none_iff]
  refine entryLoop_ends ?_ a
  unfold chunk
  split <;> omega

theorem pathToIno_ends (h : Relied s) (path : Name) : pathToIno s path ≠ none := by
  have hparts : ∀ p ino part, partLoop s ino part p ≠ none := by
    intro p
    induction p with
    | nil =>
      intro ino part
      rw [partLoop]
      split
      · exact Option.some_ne_none _
      · exact lookupDir_ends h ino part
    | cons c p ih =>
      intro ino part
      obtain ⟨next, hnx⟩ := Option.ne_none_iff_exists'.1 (lookupDir_ends h ino part)
      rw [partLoop, hnx, Option.bind_some]
      split
      · split
        · exact Option.some_ne_none _
        · exact ih _ _
      · exact ih _ _
  unfold pathToIno
  split
  · exact Option.some_ne_none _
  · exact hparts _ _ _

theorem copyLoop_ends (inode : Bytes) (sz : Nat) : copyLoop s inode sz ≠ none := by
  unfold copyLoop
  rw [ne_eq, Option.map_eq_none_iff]
  exact blockLoop_ends (fun _ _ _ => Option.some_ne_none _) (Nat.zero_le _) (by unfold rounds; omega) _

/-- **Every walk ends**, whatever the volume holds. -/
theorem walks_end (h : Relied s) (ino : Nat) (name path : Name) (sz : Nat) :
    lookupDir s ino name ≠ none ∧ pathToIno s path ≠ none ∧ ext2ListDir s path sz ≠ none ∧ ext2ReadFile s path sz ≠ none := by
  have hb := h.blockSize_le
  obtain ⟨found, hfo⟩ := Option.ne_none_iff_exists'.1 (pathToIno_ends h path)
  obtain ⟨inode, hread⟩ := h.readInode found
  refine ⟨lookupDir_ends h ino name, pathToIno_ends h path, ?_, ?_⟩
  · unfold ext2ListDir
    rw [hfo, Option.bind_some]
    split
    · exact Option.some_ne_none _
    split
    · exact Option.some_ne_none _
    rw [hread, Option.bind_some, ne_eq, Option.map_eq_none_iff]
    refine blockLoop_ends (fun blk pos out => ?_) (Nat.zero_le _) (by unfold rounds; omega) _
    rw [ne_eq, Option.map_eq_none_iff]
    exact entryLoop_ends (by omega) out
  · unfold ext2ReadFile
    rw [hfo, Option.bind_some]
    split
    · exact Option.some_ne_none _
    split
    · exact Option.some_ne_none _
    · rw [hread, Option.bind_some, ne_eq, Option.map_eq_none_iff]
      exact copyLoop_ends _ sz

/-- The root directory has the file "a": twelve times block 7, and one byte of block 9, whose number is in block 8. -/
def sampleVolume : State where
  sector := fun
    | 10 => ((List.range 12).foldl (fun m i => m.put32 (296 + 4 * i) 7)
        (((Bytes.put32 (fun _ => 0) 132 1024).put32 168 6).put32 260 12289)).put32 344 8
    | 12 => ((Bytes.put32 (fun _ => 0) 0 3).put32 4 (1024 + 65536)).put8 8 97
    | 14 | 15 => fun _ => 120
    | 16 => Bytes.put32 (fun _ => 0) 0 9
    | 18 => fun _ => 121
    | _ => fun _ => 0
  sb := ⟨0, 8, 0xEF53, 128⟩
  inodeTable := 5
  blockSize := 1024
  lbaBase := 0
  mounted := true
  stack := fun _ => 0

theorem relied_sampleVolume : Relied sampleVolume := ⟨.inl rfl, by decide, by decide⟩

theorem walks_end_sample : lookupDir sampleVolume 2 [97] ≠ none :=
  (walks_end relied_sampleVolume 2 [97] [97] 4).1

/-! ## Reading -/

/-- The block numbers of a file as ext2 has them: twelve in the inode, then those in the block of the thirteenth. -/
def fileBlocks (s : State) (inode : Bytes) : List Nat :=
  (List.range 12).map (fun i => inode.get32 (40 + 4 * i)) ++
    (List.range (s.blockSize / 4)).map fun i => (Bytes.drop s.byte (inode.get32 88 * s.blockSize)).get32 (4 * i)

/-- The blocks of a file, one behind the other. -/
def content (s : State) (inode : Bytes) : Bytes := fun x =>
  s.byte ((fileBlocks s inode).getD (x / s.blockSize) 0 * s.blockSize + x % s.blockSize)

theorem readBlock_get32 (hb : 512 ∣ s.blockSize) (inode : Bytes) (a : Nat) (hi : i < s.blockSize) :
    readBlock s (inode.get32 a) i = s.byte (inode.get32 a * s.blockSize + i) := by
  have hu : u32 (inode.get32 a) = inode.get32 a := Nat.mod_eq_of_lt (Bytes.get32_lt inode a)
  rw [← readBlock_byte hb hi, hu]

theorem getBlock_eq (hb : 512 ∣ s.blockSize) (inode : Bytes) (n : Nat) :
    getBlock s inode n = (fileBlocks s inode).getD n 0 := by
  unfold getBlock fileBlocks
  by_cases hn : n < 12
  · rw [if_pos hn, List.getD_append _ _ _ _ (by simpa using hn)]
    simp [hn, iBlock]
  rw [if_neg hn, List.getD_append_right _ _ _ _ (by simpa using hn), List.length_map, List.length_range]
  by_cases hin : n < 12 + s.blockSize / 4
  · have hword : (readBlock s (iBlock inode 12)).get32 (4 * (n - 12)) =
        (Bytes.drop s.byte (inode.get32 88 * s.blockSize)).get32 (4 * (n - 12)) := by
      refine Bytes.get32_congr fun i hi => readBlock_get32 hb inode 88 ?_
      omega
    rw [if_pos hin, hword]
    simp [show n - 12 < s.blockSize / 4 by omega]
  · rw [if_neg hin, List.getD_eq_default _ _ (by simp; omega)]

theorem readBlock_content (hb : 512 ∣ s.blockSize) (inode : Bytes) (b : Nat) {x : Nat} (hx : x < s.blockSize) :
    readBlock s (getBlock s inode b) x = content s inode (b * s.blockSize + x) := by
  have hpos : 0 < s.blockSize := by omega
  have hlt : getBlock s inode b < 2 ^ 32 := by
    unfold getBlock
    split
    · exact Bytes.get32_lt ..
    · split
      · exact Bytes.get32_lt ..
      · decide
  have hread : readBlock s (u32 (getBlock s inode b)) x = _ := readBlock_byte hb hx
  rw [u32, Nat.mod_eq_of_lt hlt, getBlock_eq hb] at hread
  rw [getBlock_eq hb, hread]
  unfold content
  rw [Nat.mul_comm b, Nat.mul_add_div hpos, Nat.mul_add_mod, Nat.div_eq_of_lt hx, Nat.mod_eq_of_lt hx, Nat.add_zero]

/-- The loop in a file with `k` blocks: `pos` and `a` before each round, and the rounds that leave the function. -/
theorem blockLoop_eq (k : Nat) (pos : Nat → Nat) (a : Nat → A) (step : Nat → Option R) (h0 : pos 0 = 0) {a0 : A} (ha : a 0 = a0)
    (hro : ∀ b < k, pos b < size ∧ getBlock s inode b ≠ 0 ∧ body (readBlock s (getBlock s inode b)) (pos b) (a b) =
      some ((step b).elim (.inl (pos (b + 1), a (b + 1))) .inr)) (hend : size ≤ pos k) :
    blockLoop s inode size body (rounds s) 0 0 a0 = some (((List.range k).findSome? step).elim (.inl (a k)) .inr) := by
  have hk : k ≤ s.blockSize / 4 + 12 := by
    by_contra hk
    have := getBlock_lt (hro (s.blockSize / 4 + 12) (by omega)).2.1
    omega
  -- by induction on the rounds that are left
  have hlp : ∀ n b fuel, b + n = k → blockLoop s inode size body (fuel + 1 + n) b (pos b) (a b) =
      some (((List.range' b n).findSome? step).elim (.inl (a k)) .inr) := by
    intro n
    induction n with
    | zero =>
      intro b fuel hb
      obtain rfl : b = k := hb
      rw [Nat.add_zero, blockLoop, if_neg (Nat.not_lt.2 hend)]
      rfl
    | succ n ih =>
      intro b fuel hb
      obtain ⟨hlt, hne, hbody⟩ := hro b (by omega)
      rw [← Nat.add_assoc, blockLoop, if_pos hlt, if_neg hne, hbody, List.range'_succ, List.findSome?_cons]
      cases step b with
      | none => exact ih (b + 1) fuel (by omega)
      | some r => rfl
  obtain ⟨fuel, hfuel⟩ := Nat.exists_eq_add_of_le hk
  have hall := hlp k 0 fuel (Nat.zero_add k)
  rwa [← List.range_eq_range', h0, ha, show fuel + 1 + k = rounds s by unfold rounds; omega] at hall

theorem copyLoop_eq {sz total : Nat} (htotal : total = min (iSize inode) sz) (hpos : 0 < s.blockSize) (hdvd : 512 ∣ s.blockSize)
    (hblocks : ∀ b, b * s.blockSize < total → (fileBlocks s inode).getD b 0 ≠ 0) :
    copyLoop s inode sz = some ((content s inode).toList total) := by
  have hmin : (if iSize inode < sz then iSize inode else sz) = total := by
    split <;> omega
  have hk : ∀ b, b < (total + s.blockSize - 1) / s.blockSize ↔ b * s.blockSize < total := by
    intro b
    rw [← Nat.succ_le_iff, Nat.le_div_iff_mul_le hpos, Nat.succ_mul]
    omega
  have hall := hk ((total + s.blockSize - 1) / s.blockSize)
  unfold copyLoop
  simp only [hmin]
  -- after `b` rounds the first `b` blocks are copied, or everything is
  rw [blockLoop_eq ((total + s.blockSize - 1) / s.blockSize) (fun b => min (b * s.blockSize) total)
    (fun b => (content s inode).toList (min (b * s.blockSize) total)) (fun _ => none) (by simp) (by simp; rfl)
    (fun b hb => ?_) (by omega)]
  · rw [List.findSome?_eq_none_iff.2 fun _ _ => rfl, Nat.min_eq_right (by omega)]
    rfl
  · have hlt := (hk b).1 hb
    have hnx : b * s.blockSize + chunk s total (b * s.blockSize) = min ((b + 1) * s.blockSize) total := by
      rw [Nat.add_mul, Nat.one_mul, chunk]
      split <;> omega
    have hblock : (readBlock s (getBlock s inode b)).toList (chunk s total (b * s.blockSize)) =
        ((content s inode).drop (b * s.blockSize)).toList (chunk s total (b * s.blockSize)) := by
      refine Bytes.toList_congr fun x hx => ?_
      have hxb : x < s.blockSize := by
        unfold chunk at hx
        split at hx <;> omega
      exact readBlock_content hdvd inode b hxb
    rw [Nat.min_eq_left (Nat.le_of_lt hlt)]
    refine ⟨hlt, by rw [getBlock_eq hdvd]; exact hblocks b hlt, ?_⟩
    rw [hblock, ← Bytes.toList_add, hnx]
    rfl

/-- **File reads are exact**: the bytes of the direct blocks, and of those in the indirect one behind them. -/
theorem read_exact (h : Relied s) (hm : s.mounted = true) {path : Name} {ino sz total : Nat} (hpath : pathToIno s path = some ino)
    (hino : ino ≠ 0) (hread : readInode s ino = some inode) (htotal : total = min (iSize inode) sz)
    (hblocks : ∀ b, b * s.blockSize < total → (fileBlocks s inode).getD b 0 ≠ 0) :
    ext2ReadFile s path sz = some ((total : Int), (content s inode).toList total) := by
  have hpos : 0 < s.blockSize := by
    have := h.blockSize
    omega
  have hb : 512 ∣ s.blockSize := by
    have := h.blockSize
    omega
  unfold ext2ReadFile
  rw [if_neg (by simp [hm]), hpath, Option.bind_some, if_neg hino, hread, Option.bind_some, copyLoop_eq htotal hpos hb hblocks,
    Option.map_some, Bytes.length_toList]

/-- A read that goes on behind the twelfth block. -/
theorem read_exact_indirect : ∃ out, ext2ReadFile sampleVolume [97] 20000 = some (12289, out) ∧
    out[12287]? = some 120 ∧ out[12288]? = some 121 := by
  have hpath : pathToIno sampleVolume [97] = some 3 := by decide +kernel
  have hread : readInode sampleVolume 3 = some ((readBlock sampleVolume 5).drop 256) := by
    unfold readInode
    exact if_neg (by decide)
  have hsz : 12289 = min (iSize ((readBlock sampleVolume 5).drop 256)) 20000 := by decide +kernel
  have hblocks : ∀ b < 13, (fileBlocks sampleVolume ((readBlock sampleVolume 5).drop 256)).getD b 0 ≠ 0 := by decide +kernel
  refine ⟨_, read_exact relied_sampleVolume rfl hpath (by decide) hread hsz fun b hb => hblocks b ?_, ?_, ?_⟩
  · change b * 1024 < 12289 at hb
    omega
  · simp only [Bytes.toList, List.getElem?_map, List.getElem?_range (show 12287 < 12289 by decide)]
    decide +kernel
  · simp only [Bytes.toList, List.getElem?_map, List.getElem?_range (show 12288 < 12289 by decide)]
    decide +kernel

end KumOS.Ext2
