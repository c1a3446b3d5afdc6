import KumOS.Paging.Accounting
import KumOS.Paging.Faults
import KumOS.Paging.Permissions

/-!
# Copy-on-write

`vmalloc_copy_on_write` marks a page and counts a reference to its frame; the write
fault that follows gives the page a copy, or takes the mark off if nobody else has
the frame.  Two things go wrong.  The copy is entered without `PAGE_USER`, whatever
the page had.  And the reference of a mark is not seen by `pmm_used_frames`: for an
identity-mapped page whose frame is free it is the first one.  These are all
(`cow_faithful_iff`).
-/

namespace KumOS.Paging

open Lib
open Vm (pageDirIdx pageTblIdx)

variable {e j k off on : Nat}

/-! ## Entries -/

theorem bit_toNat (x k : Nat) : x / 2 ^ k % 2 = (x.testBit k).toNat := (Nat.toNat_testBit x k).symm

theorem bit_same (hoff : (2 ^ 32 - 1 - off).testBit k = true) (hon : on.testBit k = false) :
    (clearBits e off ||| on) / 2 ^ k % 2 = e / 2 ^ k % 2 := by
  unfold clearBits
  rw [bit_toNat, bit_toNat, Nat.testBit_or, Nat.testBit_and, hoff, hon, Bool.and_true, Bool.or_false]

theorem bit_set (hon : on.testBit k = true) : (clearBits e off ||| on) / 2 ^ k % 2 = 1 := by
  rw [bit_toNat, Nat.testBit_or, hon, Bool.or_true]
  rfl

theorem bit_cleared (hoff : (2 ^ 32 - 1 - off).testBit k = false) (hon : on.testBit k = false) :
    (clearBits e off ||| on) / 2 ^ k % 2 = 0 := by
  unfold clearBits
  rw [bit_toNat, Nat.testBit_or, Nat.testBit_and, hoff, hon, Bool.and_false, Bool.or_false]
  rfl

theorem frame_same (he : e < 2 ^ 32) (hoff : (2 ^ 32 - 1 - off) / 2 ^ 12 = 2 ^ 20 - 1) (hon : on < 2 ^ 12) :
    (clearBits e off ||| on) / pageSize = e / pageSize := by
  unfold clearBits
  show _ / 2 ^ 12 = e / 2 ^ 12
  rw [← Nat.shiftRight_eq_div_pow, ← Nat.shiftRight_eq_div_pow, Nat.shiftRight_or_distrib, Nat.shiftRight_and_distrib,
    Nat.shiftRight_eq_div_pow, Nat.shiftRight_eq_div_pow, Nat.shiftRight_eq_div_pow, hoff, Nat.div_eq_of_lt hon,
    Nat.and_two_pow_sub_one_eq_mod, Nat.or_zero]
  omega

theorem entry_lt (off : Nat) (he : e < 2 ^ 32) (hon : on < 2 ^ 32) : clearBits e off ||| on < 2 ^ 32 := by
  exact Nat.or_lt_two_pow (Nat.lt_of_le_of_lt Nat.and_le_left he) hon

theorem unmarked_entry (he : e < 2 ^ 32) :
    (clearBits e pageCow ||| pageWrite) % 2 = e % 2 ∧ (clearBits e pageCow ||| pageWrite) / pageSize = e / pageSize ∧
      (clearBits e pageCow ||| pageWrite) / pageUser % 2 = e / pageUser % 2 ∧
      (clearBits e pageCow ||| pageWrite) / pageCow % 2 = 0 ∧ (clearBits e pageCow ||| pageWrite) / pageWrite % 2 = 1 := by
  have hp : (clearBits e pageCow ||| pageWrite) / 2 ^ 0 % 2 = e / 2 ^ 0 % 2 := bit_same (by decide) (by decide)
  rw [Nat.pow_zero, Nat.div_one, Nat.div_one] at hp
  exact ⟨hp, frame_same he (by decide) (by decide), bit_same (k := 2) (by decide) (by decide),
    bit_cleared (k := 9) (by decide) (by decide), bit_set (k := 1) (by decide)⟩

namespace Phys

/-! ## Tables -/

/-- The directory and its tables are in use, and no two of them are one frame. -/
structure Tables (im : Image) (s : Phys) : Prop where
  dir : s.pmm.refs im.pageDir ≠ 0
  held : ∀ d < 1024, s.word im.pageDir d % 2 = pagePresent → s.pmm.refs (s.word im.pageDir d / pageSize) ≠ 0
  ne_dir : ∀ d < 1024, s.word im.pageDir d % 2 = pagePresent → s.word im.pageDir d / pageSize ≠ im.pageDir
  inj : ∀ d < 1024, ∀ e < 1024, s.word im.pageDir d % 2 = pagePresent → s.word im.pageDir e % 2 = pagePresent →
    s.word im.pageDir d / pageSize = s.word im.pageDir e / pageSize → d = e

section

variable {im : Image} {s s' : Phys}

/-- Where the paging code keeps its frames apart, tables are. -/
theorem Owned.tables {clones : List Nat} (h : Owned im clones s) : Tables im s := by
  have hinUse := h.inUse
  have hlow : ∀ d < 4, s.word im.pageDir d / pageSize = im.kernTables + d := by
    intro d hd
    rw [h.low d hd]
    unfold pageSize
    omega
  have hhigh : ∀ d, 4 ≤ d → d < 1024 → s.word im.pageDir d % 2 = pagePresent → HasTable im clones s im.pageDir d :=
    fun d hd hlt hp => hasTable_kernel hd hlt (odd_ne_zero hp)
  have hrg : ∀ d, HasTable im clones s im.pageDir d → 0x500 ≤ s.word im.pageDir d / pageSize :=
    fun d ht => (h.range (.table im.pageDir d) ht).1
  have himg := im.tables_image
  refine ⟨hinUse.dir, fun d hd hp => hinUse.tables d hd (odd_ne_zero hp), fun d hd hp => ?_, fun d hd e he hp hq heq => ?_⟩
  · by_cases hd4 : d < 4
    · rw [hlow d hd4]
      have := im.apart
      omega
    · have := hrg d (hhigh d (by omega) hd hp)
      have := im.dir_image
      omega
  · by_cases hd4 : d < 4
    · by_cases he4 : e < 4
      · rw [hlow d hd4, hlow e he4] at heq
        omega
      · have := hrg e (hhigh e (by omega) he hq)
        rw [← heq, hlow d hd4] at this
        omega
    · by_cases he4 : e < 4
      · have := hrg d (hhigh d (by omega) hd hp)
        rw [heq, hlow e he4] at this
        omega
      · have hu := h.inj (.table im.pageDir d) (.table im.pageDir e) (hhigh d (by omega) hd hp) (hhigh e (by omega) he hq) heq
        injection hu

/-- A change that leaves the directory, and keeps its tables in use. -/
theorem Tables.congr (h : Tables im s) (hdir : ∀ d, s'.word im.pageDir d = s.word im.pageDir d)
    (hrf : ∀ f, s.pmm.refs f ≠ 0 → s'.pmm.refs f ≠ 0) : Tables im s' := by
  refine ⟨hrf _ h.dir, fun d hd hp => ?_, fun d hd hp => ?_, fun d hd e he hp hq heq => ?_⟩
  · rw [hdir] at hp ⊢
    exact hrf _ (h.held d hd hp)
  · rw [hdir] at hp ⊢
    exact h.ne_dir d hd hp
  · rw [hdir] at hp heq
    rw [hdir] at hq heq
    exact h.inj d hd e he hp hq heq

/-- The entry of the page of `u` is written, in a table that is there. -/
theorem Tables.walk_setWord (h : Tables im s) {u w : Nat} (hu : u < 2 ^ 32)
    (hp : s.word im.pageDir (pageDirIdx u) % 2 = pagePresent) (hw : w < 2 ^ 32) {x : Nat} (hx : x < 2 ^ 32) :
    (s.setWord (s.word im.pageDir (pageDirIdx u) / pageSize) (pageTblIdx u) w).walk im.pageDir x =
      if x / pageSize = u / pageSize then w else s.walk im.pageDir x := by
  have hdu := pageDirIdx_lt hu
  have hdir : ∀ d, (s.setWord (s.word im.pageDir (pageDirIdx u) / pageSize) (pageTblIdx u) w).word im.pageDir d =
      s.word im.pageDir d := fun d => s.word_setWord_ne w (.inl (h.ne_dir _ hdu hp).symm)
  unfold Phys.walk
  simp only [hdir]
  by_cases hxu : x / pageSize = u / pageSize
  · obtain ⟨hd, hi⟩ := same_page.2 hxu
    rw [if_pos hxu, hd, hi, if_pos hp]
    exact s.word_setWord_self hw
  rw [if_neg hxu]
  by_cases hpx : s.word im.pageDir (pageDirIdx x) % 2 = pagePresent
  · rw [if_pos hpx, if_pos hpx]
    refine s.word_setWord_ne w ?_
    by_cases htab : s.word im.pageDir (pageDirIdx x) / pageSize = s.word im.pageDir (pageDirIdx u) / pageSize
    · refine .inr fun hi => hxu (same_page.1 ⟨?_, hi⟩)
      exact h.inj _ (pageDirIdx_lt hx) _ hdu hpx hp htab
    · exact .inl htab
  · rw [if_neg hpx, if_neg hpx]

/-! ## Marks -/

/-- One call of `vmalloc_copy_on_write`. -/
def mark (im : Image) (s : Phys) (u : Nat) : Phys := (s.vmallocCopyOnWrite im u).2

def marks (im : Image) (s : Phys) (us : List Nat) : Phys := us.foldl (mark im) s

/-- The page of `u` is mapped to a managed frame nobody refers to. -/
def Stray (im : Image) (s : Phys) (u : Nat) : Prop :=
  s.walk im.pageDir u % 2 = pagePresent ∧ s.pmm.Managed (s.walk im.pageDir u / pageSize) ∧
    s.pmm.refs (s.walk im.pageDir u / pageSize) = 0

instance (im : Image) (s : Phys) (u : Nat) : Decidable (Stray im s u) := inferInstanceAs (Decidable (_ ∧ _ ∧ _))

/-- How many of the marks are for such a page. -/
def strays (im : Image) (s : Phys) : List Nat → Nat
  | [] => 0
  | u :: us => (if Stray im s u then 1 else 0) + strays im (s.mark im u) us

theorem pageOf_div (u : Nat) : pageOf u / pageSize = u / pageSize := Nat.mul_div_cancel _ (by decide)

theorem pageOf_index (u : Nat) : pageDirIdx (pageOf u) = pageDirIdx u ∧ pageTblIdx (pageOf u) = pageTblIdx u :=
  same_page.2 (pageOf_div u)

/-- A mark does nothing, or changes one entry and counts one reference. -/
theorem mark_cases (im : Image) (s : Phys) (u : Nat) :
    (s.mark im u = s ∧ s.walk im.pageDir u % 2 ≠ pagePresent) ∨
      s.word im.pageDir (pageDirIdx u) % 2 = pagePresent ∧ s.walk im.pageDir u % 2 = pagePresent ∧
        s.mark im u = ({ s with pmm := pmmRef s.pmm (s.walk im.pageDir u / pageSize * pageSize) }).setWord
          (s.word im.pageDir (pageDirIdx u) / pageSize) (pageTblIdx u)
          (clearBits (s.walk im.pageDir u) pageWrite ||| pageCow) := by
  obtain ⟨hd, hi⟩ := pageOf_index u
  unfold mark vmallocCopyOnWrite ptePtr Phys.walk
  simp only [hd, hi]
  by_cases hp : s.word im.pageDir (pageDirIdx u) % 2 = pagePresent
  · simp only [if_pos hp]
    by_cases hq : s.word (s.word im.pageDir (pageDirIdx u) / pageSize) (pageTblIdx u) % 2 = pagePresent
    · rw [if_neg fun hne => hne hq]
      exact .inr ⟨hp, hq, rfl⟩
    · rw [if_pos hq]
      exact .inl ⟨rfl, hq⟩
  · simp only [if_neg hp]
    exact .inl ⟨trivial, by decide⟩

theorem walk_lt (s : Phys) (D x : Nat) : s.walk D x < 2 ^ 32 := by
  unfold Phys.walk
  simp only []
  split
  · exact s.word_lt _ _
  · decide

theorem Tables.mark (h : Tables im s) {u : Nat} (hu : u < 2 ^ 32) : Tables im (s.mark im u) ∧
    ∀ x < 2 ^ 32, (s.mark im u).walk im.pageDir x % 2 = s.walk im.pageDir x % 2 := by
  rcases mark_cases im s u with ⟨he, -⟩ | ⟨hp, hpr, he⟩
  · rw [he]
    exact ⟨h, fun _ _ => rfl⟩
  have hlt := walk_lt s im.pageDir u
  have hodd : (clearBits (s.walk im.pageDir u) pageWrite ||| pageCow) / 2 ^ 0 % 2 = s.walk im.pageDir u / 2 ^ 0 % 2 :=
    bit_same (by decide) (by decide)
  rw [Nat.pow_zero, Nat.div_one, Nat.div_one] at hodd
  have hrf : ∀ f, s.pmm.refs f ≠ 0 → (pmmRef s.pmm (s.walk im.pageDir u / pageSize * pageSize)).refs f ≠ 0 := by
    intro f hf
    rw [pmmRef_refs]
    split <;> omega
  have h1 : Tables im ({ s with pmm := pmmRef s.pmm (s.walk im.pageDir u / pageSize * pageSize) } : Phys) :=
    h.congr (fun _ => rfl) hrf
  have hwk := fun x hx => h1.walk_setWord hu hp (entry_lt pageWrite hlt (by decide : pageCow < 2 ^ 32)) (x := x) hx
  rw [he]
  refine ⟨h1.congr (fun d => ?_) fun _ hf => hf, fun x hx => ?_⟩
  · exact word_setWord_ne _ _ (.inl (h.ne_dir _ (pageDirIdx_lt hu) hp).symm)
  · refine (congrArg (· % 2) (hwk x hx)).trans ?_
    by_cases hxu : x / pageSize = u / pageSize
    · obtain ⟨hd, hi⟩ := same_page.2 hxu
      have hsm : s.walk im.pageDir x = s.walk im.pageDir u := by
        unfold Phys.walk
        rw [hd, hi]
      simp only [if_pos hxu]
      rw [hsm]
      exact hodd
    · simp only [if_neg hxu]
      rfl

theorem mark_behind (im : Image) (u : Nat) (h : s.pmm.Behind j) :
    (s.mark im u).pmm.Behind (j + if Stray im s u then 1 else 0) := by
  rcases mark_cases im s u with ⟨he, hno⟩ | ⟨-, hpr, he⟩
  · rw [he, if_neg fun hc => hno hc.1]
    exact h
  rw [he]
  by_cases hst : Stray im s u
  · rw [if_pos hst]
    exact h.stray (by rw [frameIdx_mul]; exact hst.2.1) (by rw [frameIdx_mul]; exact hst.2.2)
  rw [if_neg hst]
  refine h.ref fun hm h0 => hst ?_
  rw [frameIdx_mul] at hm h0
  exact ⟨hpr, hm, h0⟩

theorem marks_spec {us : List Nat} (hus : ∀ u ∈ us, u < 2 ^ 32) (h : Tables im s) (hj : s.pmm.Behind j) :
    Tables im (s.marks im us) ∧ (∀ x < 2 ^ 32, (s.marks im us).walk im.pageDir x % 2 = s.walk im.pageDir x % 2) ∧
      (s.marks im us).pmm.Behind (j + strays im s us) := by
  induction us generalizing s j with
  | nil => exact ⟨h, fun _ _ => rfl, hj⟩
  | cons u us ih =>
    obtain ⟨h1, hw1⟩ := h.mark (hus u List.mem_cons_self)
    obtain ⟨h2, hw2, hj2⟩ := ih (fun x hx => hus x (List.mem_cons_of_mem _ hx)) h1 (mark_behind im u hj)
    refine ⟨h2, fun x hx => (hw2 x hx).trans (hw1 x hx), ?_⟩
    rw [strays, ← Nat.add_assoc]
    exact hj2

end

end Phys

/-! ## The fault -/

namespace Pager

/-- A write fault at `v`, with the state before and after it. -/
structure Faithful (im : Image) (s s' : Phys) (v : Nat) : Prop where
  present : s'.walk im.pageDir v % 2 = pagePresent
  writable : s'.walk im.pageDir v / pageWrite % 2 = 1
  contents : ∀ o < pageSize, s'.mem (s'.walk im.pageDir v / pageSize) o = s.mem (s.walk im.pageDir v / pageSize) o
  user : s'.walk im.pageDir v / pageUser % 2 = s.walk im.pageDir v / pageUser % 2
  unmarked : s'.walk im.pageDir v / pageCow % 2 = 0
  others : ∀ x < 2 ^ 32, x / pageSize ≠ v / pageSize → s'.walk im.pageDir x = s.walk im.pageDir x
  used : s'.pmm.usedFrames = s'.pmm.heldFrames

open Phys

variable {im : Image} {w w' : Pager} {v : Nat}

/-- What the fault of a shared page makes: the new frame `p`, with what the old one contains. -/
def copied (im : Image) (s : Phys) (v p : Nat) : Phys :=
  (({ s with pmm := pmmFree (s.pmm.take p) (s.walk im.pageDir v / pageSize * pageSize) } : Phys).copyFrame p
    (s.walk im.pageDir v / pageSize)).setWord (s.word im.pageDir (pageDirIdx v) / pageSize) (pageTblIdx v) (p * pageSize + 3)

theorem faultCow_cases (hb : 0 < w.phys.pmm.baseFrame) (hf : w.pageFaultHandler im v true true = some w') :
    w.phys.word im.pageDir (pageDirIdx v) % 2 = pagePresent ∧ w.phys.walk im.pageDir v / pageCow % 2 = 1 ∧
      ((1 < pmmRefcount w.phys.pmm (w.phys.walk im.pageDir v / pageSize * pageSize) ∧
        ∃ p, w.phys.pmm.Free p ∧ w'.phys = copied im w.phys v p) ∨
      (¬ 1 < pmmRefcount w.phys.pmm (w.phys.walk im.pageDir v / pageSize * pageSize) ∧
        w'.phys = w.phys.setWord (w.phys.word im.pageDir (pageDirIdx v) / pageSize) (pageTblIdx v)
          (clearBits (w.phys.walk im.pageDir v) pageCow ||| pageWrite))) := by
  obtain ⟨hd, hi⟩ := pageOf_index v
  have hf : w.faultCow im (pageOf v) = some w' := hf
  unfold faultCow ptePtr at hf
  unfold copied Phys.walk
  simp only [hd, hi] at hf ⊢
  by_cases hp : w.phys.word im.pageDir (pageDirIdx v) % 2 = pagePresent
  · simp only [if_pos hp] at hf ⊢
    refine ⟨hp, ?_⟩
    generalize w.phys.word (w.phys.word im.pageDir (pageDirIdx v) / pageSize) (pageTblIdx v) = e at *
    by_cases hcow : e / pageCow % 2 ≠ 1
    · rw [if_pos hcow] at hf
      cases hf
    rw [if_neg hcow] at hf
    refine ⟨Decidable.of_not_not hcow, ?_⟩
    by_cases hone : 1 < pmmRefcount w.phys.pmm (e / pageSize * pageSize)
    · rw [if_pos hone] at hf
      rcases pmmAlloc_cases w.phys.pmm with ⟨he, -⟩ | ⟨p, hpf, -, he⟩
      · rw [he, if_pos rfl] at hf
        cases hf
      rw [he, if_neg (hpf.addr_ne hb)] at hf
      simp only [frameIdx_mul, or_present_write] at hf
      cases hf
      exact .inl ⟨hone, p, hpf, rfl⟩
    · rw [if_neg hone] at hf
      cases hf
      exact .inr ⟨hone, rfl⟩
  · rw [if_neg hp] at hf
    cases hf

section

variable {s : Phys} {p : Nat}

/-- The frame of a shared page is not the one that is handed out. -/
theorem shared_refs (hone : 1 < pmmRefcount s.pmm (s.walk im.pageDir v / pageSize * pageSize)) (hfr : s.pmm.Free p) :
    1 < s.pmm.refs (s.walk im.pageDir v / pageSize) ∧ s.walk im.pageDir v / pageSize ≠ p := by
  generalize s.walk im.pageDir v / pageSize = old at *
  have hold : 1 < s.pmm.refs old := by
    unfold pmmRefcount at hone
    simp only [frameIdx_mul] at hone
    split at hone <;> omega
  refine ⟨hold, ?_⟩
  rintro rfl
  have := hfr.zero
  omega

/-- Only the entry of `v` changes. -/
theorem copied_walk (hT : Tables im s) (hv : v < 2 ^ 32) (hp : s.word im.pageDir (pageDirIdx v) % 2 = pagePresent)
    (hone : 1 < pmmRefcount s.pmm (s.walk im.pageDir v / pageSize * pageSize)) (hfr : s.pmm.Free p) {x : Nat}
    (hx : x < 2 ^ 32) : (copied im s v p).walk im.pageDir x =
      if x / pageSize = v / pageSize then p * pageSize + 3 else s.walk im.pageDir x := by
  obtain ⟨hold, hpo⟩ := shared_refs hone hfr
  have hmax := hfr.max
  have hdp : im.pageDir ≠ p := fun he => hT.dir (by rw [he]; exact hfr.zero)
  unfold copied
  generalize s.walk im.pageDir v / pageSize = old at *
  have hcp : ∀ f, f ≠ p → (({ s with pmm := pmmFree (s.pmm.take p) (old * pageSize) } : Phys).copyFrame p old).mem f =
      s.mem f := fun f hf => mem_copyFrame_ne _ hf old
  have hdir : ∀ d, (({ s with pmm := pmmFree (s.pmm.take p) (old * pageSize) } : Phys).copyFrame p old).word im.pageDir d =
      s.word im.pageDir d := word_congr (hcp _ hdp)
  have hT1 : Tables im (({ s with pmm := pmmFree (s.pmm.take p) (old * pageSize) } : Phys).copyFrame p old) := by
    refine hT.congr hdir fun f hf => ?_
    show (pmmFree (s.pmm.take p) (old * pageSize)).refs f ≠ 0
    rw [pmmFree_refs, frameIdx_mul]
    by_cases hfo : f = old
    · rw [hfo, s.pmm.take_refs_ne hpo]
      split <;> omega
    · rw [if_neg fun hc => hfo hc.1]
      exact take_refs_ne_zero hf
  have hset := hT1.walk_setWord (w := p * pageSize + 3) hv (by rw [hdir]; exact hp) (by unfold pageSize; omega) hx
  rw [hdir] at hset
  refine hset.trans ?_
  by_cases hxv : x / pageSize = v / pageSize
  · rw [if_pos hxv, if_pos hxv]
  rw [if_neg hxv, if_neg hxv]
  unfold Phys.walk
  simp only [hdir]
  by_cases hpx : s.word im.pageDir (pageDirIdx x) % 2 = pagePresent
  · rw [if_pos hpx, if_pos hpx]
    refine word_congr (hcp _ fun he => ?_) _
    exact hT.held _ (pageDirIdx_lt hx) hpx (by rw [he]; exact hfr.zero)
  · rw [if_neg hpx, if_neg hpx]

theorem copy_entry (p : Nat) : (p * pageSize + 3) % 2 = pagePresent ∧ (p * pageSize + 3) / pageWrite % 2 = 1 ∧
    (p * pageSize + 3) / pageUser % 2 = 0 ∧ (p * pageSize + 3) / pageCow % 2 = 0 ∧ (p * pageSize + 3) / pageSize = p := by
  unfold pageSize pagePresent pageWrite pageUser pageCow
  omega

/-- A page that is shared gets a copy, without `PAGE_USER`. -/
theorem copied_iff (hT : Tables im s) (hj : s.pmm.Behind j) (hv : v < 2 ^ 32)
    (hp : s.word im.pageDir (pageDirIdx v) % 2 = pagePresent)
    (hone : 1 < pmmRefcount s.pmm (s.walk im.pageDir v / pageSize * pageSize)) (hfr : s.pmm.Free p) :
    Faithful im s (copied im s v p) v ↔ j = 0 ∧ s.walk im.pageDir v / pageUser % 2 = 0 := by
  obtain ⟨hold, hpo⟩ := shared_refs hone hfr
  have hwk := fun x hx => copied_walk hT hv hp hone hfr (x := x) hx
  have hsf := hwk v hv
  rw [if_pos rfl] at hsf
  obtain ⟨h1, h2, h3, h4, h5⟩ := copy_entry p
  have hj' : (copied im s v p).pmm.Behind j := by
    refine (hj.take hfr).free_shared ?_
    rw [frameIdx_mul, s.pmm.take_refs_ne hpo]
    omega
  constructor
  · intro hfaith
    have huser := hfaith.user
    rw [hsf, h3] at huser
    exact ⟨hj'.exact_iff.1 hfaith.used, huser.symm⟩
  · rintro ⟨rfl, huser⟩
    refine ⟨by rw [hsf]; exact h1, by rw [hsf]; exact h2, fun o _ => ?_, by rw [hsf, h3, huser], by rw [hsf]; exact h4,
      fun x hx hne => ?_, hj'.used⟩
    · have htp : p ≠ s.word im.pageDir (pageDirIdx v) / pageSize := by
        intro he
        exact hT.held _ (pageDirIdx_lt hv) hp (by rw [← he]; exact hfr.zero)
      rw [hsf, h5]
      unfold copied
      rw [mem_setWord_ne _ htp, mem_copyFrame_self]
    · rw [hwk x hx, if_neg hne]

end

theorem kept_iff (hT : Tables im w.phys) (hj : w.phys.pmm.Behind j) (hv : v < 2 ^ 32)
    (hp : w.phys.word im.pageDir (pageDirIdx v) % 2 = pagePresent)
    (hpr : w.phys.walk im.pageDir v % 2 = pagePresent) (hcow : w.phys.walk im.pageDir v / pageCow % 2 = 1) :
    Faithful im w.phys (w.phys.setWord (w.phys.word im.pageDir (pageDirIdx v) / pageSize) (pageTblIdx v)
        (clearBits (w.phys.walk im.pageDir v) pageCow ||| pageWrite)) v ↔
      j = 0 ∧ w.phys.walk im.pageDir v / pageSize ≠ w.phys.word im.pageDir (pageDirIdx v) / pageSize := by
  have hlt := walk_lt w.phys im.pageDir v
  obtain ⟨h1, h2, h3, h4, h5⟩ := unmarked_entry hlt
  have hnew := entry_lt pageCow hlt (by decide : pageWrite < 2 ^ 32)
  have hwk := fun x hx => hT.walk_setWord hv hp hnew (x := x) hx
  have hsf := hwk v hv
  rw [if_pos rfl] at hsf
  constructor
  · intro hfaith
    refine ⟨hj.exact_iff.1 hfaith.used, fun hown => ?_⟩
    -- the page has its own entry among its contents
    have hcont := hfaith.contents
    rw [hsf, h2, hown] at hcont
    have hti := pageTblIdx_lt v
    have hwd : (w.phys.setWord (w.phys.word im.pageDir (pageDirIdx v) / pageSize) (pageTblIdx v)
        (clearBits (w.phys.walk im.pageDir v) pageCow ||| pageWrite)).word
        (w.phys.word im.pageDir (pageDirIdx v) / pageSize) (pageTblIdx v) =
        w.phys.word (w.phys.word im.pageDir (pageDirIdx v) / pageSize) (pageTblIdx v) := by
      refine Bytes.get32_congr fun k hk => hcont _ ?_
      unfold pageSize
      omega
    rw [word_setWord_self _ hnew, ← (table_of_walk hpr).2.2] at hwd
    rw [hwd] at h4
    omega
  · rintro ⟨rfl, hown⟩
    refine ⟨by rw [hsf, h1]; exact hpr, by rw [hsf]; exact h5, fun o _ => ?_, by rw [hsf, h3], by rw [hsf]; exact h4,
      fun x hx hne => ?_, hj.used⟩
    · rw [hsf, h2, mem_setWord_ne _ hown]
    · rw [hwk x hx, if_neg hne]

/-- The fault is resolved as it should be exactly when every mark was for a frame that had a reference or is not
managed, and the page, if it is shared, is none of user code.  (A page that is not shared must not be the table
that maps it.) -/
theorem cow_faithful_iff (im : Image) (w : Pager) (hT : Tables im w.phys) (hE : w.phys.pmm.Exact) (us : List Nat)
    (hus : ∀ u ∈ us, u < 2 ^ 32) (v : Nat) (hv : v < 2 ^ 32) (hmapped : w.phys.walk im.pageDir v % 2 = pagePresent)
    (w' : Pager) (hf : ({ w with phys := w.phys.marks im us } : Pager).pageFaultHandler im v true true = some w') :
    Faithful im (w.phys.marks im us) w'.phys v ↔ strays im w.phys us = 0 ∧
      if 1 < pmmRefcount (w.phys.marks im us).pmm ((w.phys.marks im us).walk im.pageDir v / pageSize * pageSize) then
        (w.phys.marks im us).walk im.pageDir v / pageUser % 2 = 0
      else (w.phys.marks im us).walk im.pageDir v / pageSize ≠
        (w.phys.marks im us).word im.pageDir (pageDirIdx v) / pageSize := by
  obtain ⟨hT1, hodd, hj⟩ := marks_spec hus hT hE
  rw [Nat.zero_add] at hj
  have hpr : (w.phys.marks im us).walk im.pageDir v % 2 = pagePresent := (hodd v hv).trans hmapped
  obtain ⟨hp, hcow, hcases⟩ := faultCow_cases hj.base hf
  rcases hcases with ⟨hone, p, hfr, he⟩ | ⟨hone, he⟩
  · rw [he, if_pos hone]
    exact copied_iff hT1 hj hv hp hone hfr
  · rw [he, if_neg hone]
    exact kept_iff hT1 hj hv hp hpr hcow

end Pager

/-! ## On the machine with 32 MB -/

namespace Pager

open Phys

/-- The paging code in state `s`, with an empty swap area. -/
def sampleOf (s : Phys) : Pager := ⟨s, ⟨fun _ => ⟨0, false⟩, true, 0, fun _ _ => 0⟩, 0, 0⟩

/-- A page of the kernel image. -/
theorem cow_faithful_iff_kernel : ∃ w', ({ sampleOf (pagingInit sampleImage 32768 fun _ _ => 0) with
      phys := (pagingInit sampleImage 32768 fun _ _ => 0).marks sampleImage [0x300000] } : Pager).pageFaultHandler
        sampleImage 0x300000 true true = some w' ∧
    Faithful sampleImage ((pagingInit sampleImage 32768 fun _ _ => 0).marks sampleImage [0x300000]) w'.phys 0x300000 := by
  have hown := pagingInit_owned sampleImage 32768 fun _ _ => 0
  have hso : (({ sampleOf (pagingInit sampleImage 32768 fun _ _ => 0) with
      phys := (pagingInit sampleImage 32768 fun _ _ => 0).marks sampleImage [0x300000] } : Pager).pageFaultHandler
        sampleImage 0x300000 true true).isSome = true := by decide +kernel
  obtain ⟨w', hf⟩ := Option.isSome_iff_exists.1 hso
  refine ⟨w', hf, (cow_faithful_iff sampleImage (sampleOf _) hown.tables (pmmInit_exact (by decide) (by decide))
    [0x300000] ?_ 0x300000 (by decide) (by decide +kernel) w' hf).2 ?_⟩
  · intro u hu
    rw [List.mem_singleton.1 hu]
    decide
  · decide +kernel

/-- A user page that is marked and written to is no user page any more. -/
theorem cow_drops_user : ∃ w', ({ sampleOf (sampleUser 0x40000000) with
      phys := (sampleUser 0x40000000).marks sampleImage [0x40000000] } : Pager).pageFaultHandler
        sampleImage 0x40000000 true true = some w' ∧
    (sampleUser 0x40000000).walk sampleImage.pageDir 0x40000000 / pageUser % 2 = 1 ∧
    ((sampleUser 0x40000000).marks sampleImage [0x40000000]).walk sampleImage.pageDir 0x40000000 / pageUser % 2 = 1 ∧
    w'.phys.walk sampleImage.pageDir 0x40000000 / pageUser % 2 = 0 := by
  have hend : (({ sampleOf (sampleUser 0x40000000) with
      phys := (sampleUser 0x40000000).marks sampleImage [0x40000000] } : Pager).pageFaultHandler
        sampleImage 0x40000000 true true).map (fun w => w.phys.walk sampleImage.pageDir 0x40000000 / pageUser % 2) =
      some 0 := by decide +kernel
  obtain ⟨w', hf, hw⟩ := Option.map_eq_some_iff.1 hend
  exact ⟨w', hf, by decide +kernel, by decide +kernel, hw⟩

end Pager

end KumOS.Paging
