import KumOS.Ext2.Files
import KumOS.Fat12.Directory
import KumOS.Lib.Tiling
import Mathlib.Order.Monotone.Basic

/-!
# Directories

`ext2_list_dir` and `lookup_dir` walk the records of a directory separately.  In a directory that
is in order both see the same records (`listing_and_lookup`).
-/

namespace KumOS.Ext2

open Lib
open Fat12 (Name)

/-- A directory record and where it begins in its block; one without an inode is deleted. -/
structure Rec where
  off : Nat
  inode : Nat
  recLen : Nat
  name : Name

/-- The block holds the record. -/
structure Rec.In (r : Rec) (blk : Bytes) : Prop where
  inode : blk.get32 r.off = r.inode
  recLen : blk.get16 (r.off + 4) = r.recLen
  nameLen : (blk (r.off + 6)).toNat = r.name.length
  name : (blk.drop (r.off + 8)).toList r.name.length = r.name
  ne_nil : r.name ≠ []
  fits : 8 + r.name.length ≤ r.recLen

/-- The block consists of the records. -/
structure Laid (blk : Bytes) (bs : Nat) (rs : List Rec) : Prop where
  tiles : Tiles Rec.off Rec.recLen 0 rs bs
  records : ∀ r ∈ rs, r.In blk

/-- The names in use, but "." and "..", each with the end of its line. -/
def listing (rs : List Rec) : Name :=
  rs.flatMap fun r => if r.inode ≠ 0 ∧ r.name ≠ [46] ∧ r.name ≠ [46, 46] then r.name ++ [10] else []

/-- The inode of the first record in use with the name. -/
def inodeOf (rs : List Rec) (n : Name) : Option Nat := (rs.find? fun r => r.inode ≠ 0 ∧ r.name = n).map Rec.inode

theorem listing_append (rs rs' : List Rec) : listing (rs ++ rs') = listing rs ++ listing rs' := List.flatMap_append

variable {s : State} {inode blk blk' : Bytes} {rs : List Rec} {r : Rec} {n : Name} {a bs fuel k sz : Nat}

/-! ## The records of a block -/

theorem Rec.In.congr (h : r.In blk) (heq : ∀ x < r.off + r.recLen, blk' x = blk x) : r.In blk' := by
  have hfit := h.fits
  refine ⟨?_, ?_, ?_, ?_, h.ne_nil, hfit⟩
  · rw [← h.inode]
    exact Bytes.get32_congr fun i hi => heq _ (by omega)
  · rw [← h.recLen]
    exact Bytes.get16_congr fun i hi => heq _ (by omega)
  · rw [heq _ (by omega), h.nameLen]
  · exact (Bytes.toList_congr fun x hx => heq (r.off + 8 + x) (by omega)).trans h.name

theorem listEntry_eq (h : r.In blk) (out : Name) (hsz : (out ++ listing [r]).length + 1 < sz) :
    listEntry blk sz r.off out = .inl (out ++ listing [r]) := by
  unfold listEntry
  simp only [h.inode, h.nameLen, h.name]
  simp only [listing, List.flatMap_cons, List.flatMap_nil, List.append_nil] at hsz ⊢
  by_cases hshown : r.inode ≠ 0 ∧ r.name ≠ [46] ∧ r.name ≠ [46, 46]
  · simp only [if_pos hshown, List.length_append, List.length_singleton] at hsz
    rw [if_pos hshown, if_pos ⟨hshown.1, h.ne_nil, hshown.2.1, hshown.2.2, by omega⟩, List.append_assoc]
  · rw [if_neg hshown, if_neg fun hc => hshown ⟨hc.1, hc.2.2.1, hc.2.2.2.1⟩, List.append_nil]

theorem matchEntry_eq (h : r.In blk) (hn : 0 ∉ n) :
    matchEntry blk n r.off () = if r.inode ≠ 0 ∧ r.name = n then .inr r.inode else .inl () := by
  have hlenn : kstrlen n = n.length := by rw [kstrlen, cstr_eq_self hn]
  unfold matchEntry
  simp only [h.inode, h.nameLen, hlenn]
  refine if_congr (and_congr_right fun _ => ⟨fun ⟨hl, hcmp⟩ => ?_, ?_⟩) rfl rfl
  · rwa [← hl, h.name, Fat12.kstrncmp_eq_zero_iff rfl hl.symm fun c hc h0 => hn (h0 ▸ hc)] at hcmp
  · rintro rfl
    rw [h.name, Fat12.kstrncmp_eq_zero_iff rfl rfl fun c hc h0 => hn (h0 ▸ hc)]
    exact ⟨rfl, rfl⟩

section

variable {A R : Type} {body : Nat → A → A ⊕ R}

theorem entryLoop_end (x : A) : entryLoop blk bs body (fuel + 1) bs x = some (.inl x) := if_neg (Nat.lt_irrefl bs)

/-- One round of either walk. -/
theorem entryLoop_record (h : r.In blk) (hle : r.off + r.recLen ≤ bs) (x : A) : entryLoop blk bs body (fuel + 1) r.off x =
    (body r.off x).elim (entryLoop blk bs body fuel (r.off + r.recLen)) (some ∘ .inr) := by
  have hfit := h.fits
  rw [entryLoop, if_pos (by omega), h.recLen, if_neg (by omega)]
  cases body r.off x <;> rfl

end

section

variable (h : Tiles Rec.off Rec.recLen a rs bs) (hin : ∀ r ∈ rs, r.In blk) (hfuel : bs - a < fuel)
include h hin hfuel

theorem entryLoop_list (out : Name) (hsz : (out ++ listing rs).length + 1 < sz) :
    entryLoop blk bs (listEntry blk sz) fuel a out = some (.inl (out ++ listing rs)) := by
  induction rs generalizing a out fuel with
  | nil =>
    obtain ⟨fuel, rfl⟩ := Nat.exists_eq_add_of_lt hfuel
    obtain rfl : a = bs := h
    rw [entryLoop_end, listing, List.flatMap_nil, List.append_nil]
  | cons r rs ih =>
    obtain ⟨fuel, rfl⟩ := Nat.exists_eq_add_of_lt hfuel
    have hle := h.mem List.mem_cons_self
    obtain ⟨hr, hin⟩ := List.forall_mem_cons.1 hin
    obtain ⟨rfl, h⟩ := h
    have hfit := hr.fits
    have hsplit : listing (r :: rs) = listing [r] ++ listing rs := listing_append [r] rs
    rw [hsplit, ← List.append_assoc] at hsz ⊢
    rw [List.length_append] at hsz
    rw [entryLoop_record hr hle.2, listEntry_eq hr out (by omega)]
    exact ih h hin (by omega) _ (by rwa [List.length_append])

theorem entryLoop_match (hn : 0 ∉ n) :
    entryLoop blk bs (matchEntry blk n) fuel a () = some ((inodeOf rs n).elim (.inl ()) .inr) := by
  induction rs generalizing a fuel with
  | nil =>
    obtain ⟨fuel, rfl⟩ := Nat.exists_eq_add_of_lt hfuel
    obtain rfl : a = bs := h
    exact entryLoop_end ()
  | cons r rs ih =>
    obtain ⟨fuel, rfl⟩ := Nat.exists_eq_add_of_lt hfuel
    have hle := h.mem List.mem_cons_self
    obtain ⟨hr, hin⟩ := List.forall_mem_cons.1 hin
    obtain ⟨rfl, h⟩ := h
    have hfit := hr.fits
    rw [entryLoop_record hr hle.2, matchEntry_eq hr hn, inodeOf, List.find?_cons]
    by_cases hfound : r.inode ≠ 0 ∧ r.name = n
    · rw [if_pos hfound, decide_eq_true hfound]
      rfl
    · rw [if_neg hfound, decide_eq_false hfound]
      exact ih h hin (by omega)

end

/-! ## Whole directories -/

/-- A directory of `k` blocks; block `b` has the records `recs b`. -/
structure Directory (s : State) (inode : Bytes) (k : Nat) (recs : Nat → List Rec) : Prop where
  size : iSize inode = k * s.blockSize
  block : ∀ b < k, (fileBlocks s inode).getD b 0 ≠ 0
  laid : ∀ b < k, Laid ((content s inode).drop (b * s.blockSize)) s.blockSize (recs b)

section

variable {recs : Nat → List Rec} {b ino : Nat} (h : Directory s inode k recs) (hr : Relied s)
include h hr

/-- Block `b` as both walks come to it. -/
theorem Directory.round (hb : b < k) : b * s.blockSize < iSize inode ∧ getBlock s inode b ≠ 0 ∧
    chunk s (iSize inode) (b * s.blockSize) = s.blockSize ∧ u32 (b * s.blockSize + s.blockSize) = (b + 1) * s.blockSize ∧
    Laid (readBlock s (getBlock s inode b)) s.blockSize (recs b) := by
  have hbs := hr.blockSize
  have hdvd : 512 ∣ s.blockSize := by omega
  have hle := Nat.mul_le_mul_right s.blockSize (show b + 1 ≤ k from hb)
  have hlt : iSize inode < 2 ^ 32 := Bytes.get32_lt _ 4
  rw [Nat.succ_mul] at hle ⊢
  rw [h.size] at hlt ⊢
  refine ⟨by omega, ?_, ?_, Nat.mod_eq_of_lt (by omega), (h.laid b hb).tiles, fun r hr => ?_⟩
  · rw [getBlock_eq hdvd]
    exact h.block b hb
  · unfold chunk
    split <;> omega
  · have hle := (h.laid b hb).tiles.mem hr
    exact ((h.laid b hb).records r hr).congr fun x hx => readBlock_content hdvd inode b (by omega)

theorem Directory.lookup (hread : readInode s ino = some inode) (hn : 0 ∉ n) :
    lookupDir s ino n = some ((inodeOf ((List.range k).flatMap recs) n).getD 0) := by
  unfold lookupDir
  rw [hread, Option.bind_some, blockLoop_eq k (· * s.blockSize) (fun _ => ()) (fun b => inodeOf (recs b) n)
    (Nat.zero_mul _) rfl (fun b hb => ?_) (Nat.le_of_eq h.size)]
  · rw [inodeOf, List.find?_flatMap, List.map_findSome?]
    show _ = some (((List.range k).findSome? fun b => inodeOf (recs b) n).getD 0)
    cases (List.range k).findSome? fun b => inodeOf (recs b) n <;> rfl
  · obtain ⟨hlt, hne, hchunk, hnx, hlaid⟩ := h.round hr hb
    have hbs := hr.blockSize_le
    refine ⟨hlt, hne, ?_⟩
    rw [hchunk, entryLoop_match hlaid.tiles hlaid.records (by omega) hn, hnx]
    cases inodeOf (recs b) n <;> rfl

theorem Directory.list {path : Name} (hm : s.mounted = true) (hpath : pathToIno s path = some ino) (hino : ino ≠ 0)
    (hread : readInode s ino = some inode) {out : Name} (hout : out = listing ((List.range k).flatMap recs))
    (hsz : out.length + 1 < sz) : ext2ListDir s path sz = some ((out.length : Int), out) := by
  have hnx : ∀ b, listing ((List.range (b + 1)).flatMap recs) =
      listing ((List.range b).flatMap recs) ++ listing (recs b) := by
    intro b
    rw [List.range_succ, List.flatMap_append, List.flatMap_singleton, listing_append]
  have hmono : Monotone fun b => (listing ((List.range b).flatMap recs)).length := by
    refine monotone_nat_of_le_succ fun b => ?_
    rw [hnx, List.length_append]
    exact Nat.le_add_right _ _
  unfold ext2ListDir
  rw [if_neg (by simp [hm]), hpath, Option.bind_some, if_neg hino, hread, Option.bind_some, blockLoop_eq k (· * s.blockSize)
    (fun b => listing ((List.range b).flatMap recs)) (fun _ => none) (Nat.zero_mul _) (show listing [] = [] from rfl)
    (fun b hb => ?_) (Nat.le_of_eq h.size)]
  · rw [List.findSome?_eq_none_iff.2 fun _ _ => rfl, hout]
    rfl
  · obtain ⟨hlt, hne, -, hpos, hlaid⟩ := h.round hr hb
    have hbs := hr.blockSize_le
    have hle := hmono (show b + 1 ≤ k from hb)
    dsimp only at hle
    rw [← hout, hnx] at hle
    refine ⟨hlt, hne, ?_⟩
    rw [entryLoop_list hlaid.tiles hlaid.records (by omega) _ (by omega), ← hnx, hpos]
    rfl

end

/-- **Listing and lookup agree**: both see the records in use, in their order. -/
theorem listing_and_lookup {recs : Nat → List Rec} {path : Name} {ino : Nat} (hr : Relied s) (hm : s.mounted = true)
    (hpath : pathToIno s path = some ino) (hino : ino ≠ 0) (hread : readInode s ino = some inode)
    (h : Directory s inode k recs) (hrs : rs = (List.range k).flatMap recs) (hsz : (listing rs).length + 1 < sz) :
    ext2ListDir s path sz = some (((listing rs).length : Int), listing rs) ∧
    ∀ n, 0 ∉ n → lookupDir s ino n = some ((inodeOf rs n).getD 0) ∧
      (lookupDir s ino n ≠ some 0 ↔ ∃ r ∈ rs, r.inode ≠ 0 ∧ r.name = n) := by
  refine ⟨h.list hr hm hpath hino hread (congrArg listing hrs) hsz, fun n hn => ?_⟩
  rw [h.lookup hr hread hn, ← hrs]
  refine ⟨rfl, ?_⟩
  unfold inodeOf
  cases hfound : rs.find? fun r => r.inode ≠ 0 ∧ r.name = n with
  | none =>
    have hnone := List.find?_eq_none.1 hfound
    simp only [decide_eq_true_eq] at hnone
    exact iff_of_false (fun hne => hne rfl) fun ⟨r, hmem, hr⟩ => hnone r hmem hr
  | some r =>
    have hr : r.inode ≠ 0 ∧ r.name = n := by simpa using List.find?_some hfound
    exact iff_of_true (fun heq => hr.1 (Option.some.inj heq)) ⟨r, List.mem_of_find?_eq_some hfound, hr⟩

/-- The root directory of `sampleVolume`. -/
theorem listing_and_lookup_root : ext2ListDir sampleVolume [47] 8 = some (2, [97, 10]) ∧
    lookupDir sampleVolume 2 [97] = some 3 ∧ lookupDir sampleVolume 2 [98] = some 0 := by
  have hin : Rec.In ⟨0, 3, 1024, [97]⟩ ((content sampleVolume ((readBlock sampleVolume 5).drop 128)).drop (0 * 1024)) := by
    constructor <;> decide +kernel
  have hdir : Directory sampleVolume ((readBlock sampleVolume 5).drop 128) 1 fun _ => [⟨0, 3, 1024, [97]⟩] := by
    refine ⟨by decide +kernel, by decide +kernel, fun b hb => ?_⟩
    obtain rfl := Nat.lt_one_iff.1 hb
    exact ⟨⟨rfl, Nat.zero_add 1024⟩, List.forall_mem_singleton.2 hin⟩
  obtain ⟨hlist, hlookup⟩ : ext2ListDir sampleVolume [47] 8 = _ ∧ _ :=
    listing_and_lookup relied_sampleVolume rfl rfl (by decide) rfl hdir rfl (by decide)
  exact ⟨hlist, (hlookup [97] (by decide)).1, (hlookup [98] (by decide)).1⟩

end KumOS.Ext2
