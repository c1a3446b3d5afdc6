import Mathlib.Order.Monotone.Basic
import KumOS.Paging.Spaces

/-!
# `paging_clone_dir` and `paging_free_user`

What a clone is made of: the frames it takes are free ones, each is taken once
(`Taken`), and they are the new directory, its tables from index 256 on and the
pages in these.  `paging_free_user` gives back the same frames.  Frames that are
in use are not written, so the directory that is cloned and its pages stay as they
are.
-/

namespace KumOS.Paging

open Lib
open Vm (pageDirIdx)
open List (append_nil length_append mem_append_left mem_append_right mem_singleton)

variable {s s' s0 s1 s2 : Phys} {fs : List Nat} {dir f j n w : Nat}
variable {i p tbl va : Nat} {gs : List Nat}

namespace Phys

/-! ## What a directory owns -/

/-- The frames in the first `n` entries of a table. -/
def pages (s : Phys) (tbl : Nat) : Nat → List Nat
  | 0 => []
  | n + 1 => s.pages tbl n ++ if s.word tbl n = 0 then [] else [s.word tbl n / pageSize]

/-- The tables in the entries `256, .., 256 + n - 1` of a directory, with their pages. -/
def owned (s : Phys) (dir : Nat) : Nat → List Nat
  | 0 => []
  | n + 1 => s.owned dir n ++
      if s.word dir (256 + n) = 0 then []
      else s.pages (s.word dir (256 + n) / pageSize) pageEntries ++ [s.word dir (256 + n) / pageSize]

theorem pages_congr (h : ∀ j < n, s'.word tbl j = s.word tbl j) : s'.pages tbl n = s.pages tbl n := by
  induction n with
  | zero => rfl
  | succ n ih =>
    unfold pages
    rw [ih fun j hj => h j (by omega), h n (by omega)]

theorem pages_pmm (s : Phys) (p : Pmm) (tbl n : Nat) : ({ s with pmm := p }).pages tbl n = s.pages tbl n :=
  pages_congr fun _ _ => rfl

theorem mem_pages (hj : j < n) (h0 : s.word tbl j ≠ 0) : s.word tbl j / pageSize ∈ s.pages tbl n := by
  induction n with
  | zero => omega
  | succ n ih =>
    unfold pages
    by_cases hjn : j = n
    · subst hjn
      rw [if_neg h0]
      exact mem_append_right _ (mem_singleton.2 rfl)
    · exact mem_append_left _ (ih (by omega))

theorem owned_congr (hdir : ∀ i < n, s'.word dir (256 + i) = s.word dir (256 + i))
    (htbl : ∀ i < n, s.word dir (256 + i) ≠ 0 →
      s'.mem (s.word dir (256 + i) / pageSize) = s.mem (s.word dir (256 + i) / pageSize)) :
    s'.owned dir n = s.owned dir n := by
  induction n with
  | zero => rfl
  | succ n ih =>
    unfold owned
    rw [ih (fun i hi => hdir i (by omega)) (fun i hi => htbl i (by omega)), hdir n (by omega)]
    by_cases h0 : s.word dir (256 + n) = 0
    · rw [if_pos h0, if_pos h0]
    · rw [if_neg h0, if_neg h0, pages_congr fun j _ => word_congr (htbl n (by omega) h0) j]

/-! ## `paging_free_user` -/

theorem freeTbl_eq (s : Phys) (tbl n : Nat) : freeTbl tbl n s = { s with pmm := pmmFreeAll s.pmm (s.pages tbl n) } := by
  induction n with
  | zero => rfl
  | succ n ih =>
    unfold freeTbl pages
    simp only [ih, word_pmm]
    by_cases h0 : s.word tbl n = 0
    · rw [if_pos h0, if_pos h0, append_nil]
    · rw [if_neg h0, if_neg h0, pmmFreeAll_append]
      rfl

theorem freeDir_eq (s : Phys) (dir n : Nat) : freeDir dir n s = { s with pmm := pmmFreeAll s.pmm (s.owned dir n) } := by
  induction n with
  | zero => rfl
  | succ n ih =>
    unfold freeDir owned
    simp only [ih, freeTbl_eq, word_pmm, pages_pmm]
    by_cases h0 : s.word dir (256 + n) = 0
    · rw [if_pos h0, if_pos h0, append_nil]
    · rw [if_neg h0, if_neg h0, pmmFreeAll_append, pmmFreeAll_append]
      rfl

theorem pagingFreeUser_eq (s : Phys) (dir : Nat) : s.pagingFreeUser (dir * pageSize) =
    { s with pmm := pmmFreeAll s.pmm (s.owned dir (pageEntries - 256) ++ [dir]) } := by
  unfold pagingFreeUser
  simp only [frameIdx_mul, freeDir_eq]
  rw [pmmFreeAll_append]
  rfl

/-! ## Taking frames -/

/-- From `s` to `s'` the frames `fs` are taken, and nothing is written but these and `w`. -/
structure Ext (w : Nat) (s : Phys) (fs : List Nat) (s' : Phys) : Prop where
  taken : Taken s.pmm fs s'.pmm
  mem : ∀ f, f ∉ fs → f ≠ w → s'.mem f = s.mem f
  rest : s' = { s with mem := s'.mem, pmm := s'.pmm }

theorem Ext.refl (w : Nat) (s : Phys) : Ext w s [] s := ⟨.nil _, fun _ _ _ => rfl, rfl⟩

/-- The second part may write `v`, if that is a frame the first has taken. -/
theorem Ext.trans {v : Nat} (h : Ext w s fs s1) (h' : Ext v s1 gs s2) (hv : v = w ∨ v ∈ fs) :
    Ext w s (fs ++ gs) s2 := by
  refine ⟨h.taken.trans h'.taken, fun f hf hw => ?_, ?_⟩
  · have hfs : f ∉ fs := fun hm => hf (mem_append_left _ hm)
    have hgs : f ∉ gs := fun hm => hf (mem_append_right _ hm)
    have hfv : f ≠ v := by
      rintro rfl
      rcases hv with hv | hv
      · exact hw hv
      · exact hfs hv
    rw [h'.mem f hgs hfv, h.mem f hfs hw]
  · rw [h'.rest, h.rest]

section

variable (h : Ext w s fs s') (hf : s.pmm.refs f ≠ 0)
include h hf

/-- A frame that has a reference is not one of those taken. -/
theorem Ext.not_mem : f ∉ fs := fun hm => hf (h.taken.free f hm).zero

theorem Ext.held : s'.pmm.refs f ≠ 0 := by
  rw [h.taken.refs f, if_neg (h.not_mem hf)]
  exact hf

theorem Ext.kept (hw : f ≠ w) : s'.mem f = s.mem f := h.mem f (h.not_mem hf) hw

end

/-- A frame that was taken is in use, and is not one that was before. -/
theorem Ext.of_mem (h : Ext w s fs s') (hf : f ∈ fs) : s'.pmm.refs f ≠ 0 ∧ ∀ g, s.pmm.refs g ≠ 0 → f ≠ g := by
  constructor
  · rw [h.taken.refs f, if_pos hf]
    decide
  · rintro g hg rfl
    exact h.not_mem hg hf

/-- What is in use in `s` is as it was in `s0`, when it was in use there. -/
structure Keeps (s0 s : Phys) : Prop where
  mem : ∀ f, s0.pmm.refs f ≠ 0 → s.mem f = s0.mem f
  refs : ∀ f, s0.pmm.refs f ≠ 0 → s.pmm.refs f ≠ 0

theorem Keeps.refl (s : Phys) : Keeps s s := ⟨fun _ _ => rfl, fun _ h => h⟩

theorem Keeps.ext (h : Keeps s0 s) (h' : Ext w s fs s') (hw : s0.pmm.refs w = 0) : Keeps s0 s' where
  mem := by
    intro f hf
    have hne : f ≠ w := by
      rintro rfl
      exact hf hw
    rw [h'.mem f (h'.not_mem (h.refs f hf)) hne, h.mem f hf]
  refs := fun f hf => h'.held (h.refs f hf)

theorem Keeps.word (h : Keeps s0 s) (hf : s0.pmm.refs f ≠ 0) (i : Nat) : s.word f i = s0.word f i := word_congr (h.mem f hf) i

/-! ## One table -/

theorem cloneEntry_cases (hb : 0 < s.pmm.baseFrame) (src dst j : Nat) :
    (s.word src j = 0 ∧ cloneEntry src dst j s = s) ∨
    (s.word src j ≠ 0 ∧ s.pmm.freeFrames = 0 ∧ cloneEntry src dst j s = s) ∨
    ∃ p, s.word src j ≠ 0 ∧ s.pmm.Free p ∧ cloneEntry src dst j s =
      (({ s with pmm := s.pmm.take p }).copyFrame p (s.word src j / pageSize)).setWord dst j
        (p * pageSize + s.word src j % pageSize) := by
  unfold cloneEntry
  by_cases h0 : s.word src j = 0
  · rw [if_pos h0]
    exact .inl ⟨h0, rfl⟩
  rw [if_neg h0]
  rcases pmmAlloc_cases s.pmm with ⟨he, hno⟩ | ⟨p, hp, -, he⟩
  · rw [he]
    exact .inr (.inl ⟨h0, Pmm.freeFrames_eq_zero.2 hno, rfl⟩)
  have hne := hp.addr_ne (by omega)
  refine .inr (.inr ⟨p, h0, hp, ?_⟩)
  rw [he]
  simp only [if_neg hne, frameIdx_mul, or_mod]

/-- Entry `j` of the copy `dst` of table `src`.  A page that was in use in `s0` has been copied. -/
structure EntryCopy (s0 s' : Phys) (src dst j : Nat) : Prop where
  zero : s0.word src j = 0 → s'.word dst j = 0
  flags : s'.word dst j ≠ 0 → s'.word dst j % pageSize = s0.word src j % pageSize
  data : s'.word dst j ≠ 0 → s0.pmm.refs (s0.word src j / pageSize) ≠ 0 →
    s'.mem (s'.word dst j / pageSize) = s0.mem (s0.word src j / pageSize)

theorem EntryCopy.congr {src dst : Nat} (h : EntryCopy s0 s src dst j) (hw : s'.word dst j = s.word dst j)
    (hm : s.word dst j ≠ 0 → s'.mem (s.word dst j / pageSize) = s.mem (s.word dst j / pageSize)) :
    EntryCopy s0 s' src dst j where
  zero := fun h0 => hw.trans (h.zero h0)
  flags := fun hne => by
    rw [hw] at hne ⊢
    exact h.flags hne
  data := fun hne hr => by
    rw [hw] at hne ⊢
    rw [hm hne]
    exact h.data hne hr

/-- The entries of table `src` that are not 0. -/
def inTable (s : Phys) (src j : Nat) : Bool := s.word src j ≠ 0

/-- The first `n` entries of table `src` have been copied into `dst`, with the frames `fs`. -/
structure TblCopy (s0 s s' : Phys) (src dst n : Nat) (fs : List Nat) : Prop where
  ext : Ext dst s fs s'
  pages : s'.pages dst n = fs
  rest : ∀ j, n ≤ j → s'.word dst j = 0
  entry : ∀ j < n, EntryCopy s0 s' src dst j
  /-- the copies are made in order, as long as there are frames -/
  got : ∀ j < n, s0.word src j ≠ 0 → (s'.word dst j ≠ 0 ↔ tally (s0.inTable src) j < s.pmm.freeFrames)
  count : fs.length = min (tally (s0.inTable src) n) s.pmm.freeFrames

section

variable {src dst : Nat}

theorem tally_inTable_succ (s : Phys) (src n : Nat) :
    tally (s.inTable src) (n + 1) = tally (s.inTable src) n + if s.word src n = 0 then 0 else 1 := by
  show tally (s.inTable src) n + (if s.inTable src n then 1 else 0) = _
  unfold inTable
  by_cases h0 : s.word src n = 0 <;> simp [h0]

/-- Entry `n` is empty, or there is no frame left for a copy. -/
theorem TblCopy.skip (h : TblCopy s0 s s1 src dst n fs) (hskip : s0.word src n = 0 ∨ s1.pmm.freeFrames = 0) :
    TblCopy s0 s s1 src dst (n + 1) fs := by
  have hz := h.rest n (Nat.le_refl n)
  have hlf := h.ext.taken.left
  have hct := h.count
  have hnx := tally_inTable_succ s0 src n
  refine ⟨h.ext, ?_, fun j hj => h.rest j (by omega), fun j hj => ?_, fun j hj hne => ?_, ?_⟩
  · rw [Phys.pages, hz, if_pos rfl, append_nil]
    exact h.pages
  · by_cases hjn : j = n
    · subst hjn
      exact ⟨fun _ => hz, absurd hz, absurd hz⟩
    · exact h.entry j (by omega)
  · by_cases hjn : j = n
    · subst hjn
      refine iff_of_false (fun hne => hne hz) ?_
      omega
    · exact h.got j (by omega) hne
  · rcases hskip with h0 | hnn
    · rw [hnx, if_pos h0, hct, Nat.add_zero]
    · rw [hnx]
      split <;> omega

/-- What a copied entry does to the frames: `p` is the copy, and the entry points to it. -/
structure Copies (s1 : Phys) (src dst n p : Nat) (s2 : Phys) : Prop where
  ext : Ext dst s1 [p] s2
  page : s2.mem p = s1.mem (s1.word src n / pageSize)
  div : s2.word dst n / pageSize = p
  mod : s2.word dst n % pageSize = s1.word src n % pageSize
  other : ∀ j, j ≠ n → s2.word dst j = s1.word dst j

theorem copies_of_free (hp : s1.pmm.Free p) (hne : p ≠ dst) : Copies s1 src dst n p
    ((({ s1 with pmm := s1.pmm.take p }).copyFrame p (s1.word src n / pageSize)).setWord dst n
      (p * pageSize + s1.word src n % pageSize)) := by
  have hwlt : p * pageSize + s1.word src n % pageSize < 2 ^ 32 := by
    have := hp.max
    unfold pageSize at this ⊢
    omega
  refine ⟨⟨.single hp, fun f hf hd => ?_, rfl⟩, ?_, ?_, ?_, fun j hj => ?_⟩
  · rw [mem_setWord_ne _ hd, mem_copyFrame_ne _ fun hfp => hf (mem_singleton.2 hfp)]
  · rw [mem_setWord_ne _ hne, mem_copyFrame_self]
  · rw [word_setWord_self _ hwlt]
    unfold pageSize
    omega
  · rw [word_setWord_self _ hwlt]
    unfold pageSize
    omega
  · rw [word_setWord_ne _ _ (.inr hj)]
    exact word_congr (mem_copyFrame_ne _ (Ne.symm hne) _) j

/-- Entry `n` is copied to the free frame `p`. -/
theorem TblCopy.copy (h : TblCopy s0 s s1 src dst n fs) (hk : Keeps s0 s1) (hdst : s.pmm.refs dst ≠ 0)
    (hsrc : s0.pmm.refs src ≠ 0) (h0 : s0.word src n ≠ 0) (hp : s1.pmm.Free p) (hpos : 0 < p)
    (hc : Copies s1 src dst n p s2) : TblCopy s0 s s2 src dst (n + 1) (fs ++ [p]) := by
  obtain ⟨-, hpfs⟩ := h.ext.taken.free_of hp
  have hsm : s1.word src n = s0.word src n := hk.word hsrc n
  have hfr := Pmm.freeFrames_take hp
  have hlf := h.ext.taken.left
  have hct := h.count
  have hsf : s2.word dst n ≠ 0 := by
    intro hz
    have := hc.div
    rw [hz, Nat.zero_div] at this
    omega
  refine ⟨h.ext.trans hc.ext (.inl rfl), ?_, fun j hj => ?_, fun j hj => ?_, fun j hj hne => ?_, ?_⟩
  · rw [Phys.pages, pages_congr fun j hj => hc.other j (by omega), h.pages, if_neg hsf, hc.div]
  · rw [hc.other j (by omega)]
    exact h.rest j (by omega)
  · by_cases hjn : j = n
    · subst hjn
      refine ⟨fun hz => absurd hz h0, fun _ => ?_, fun _ hr => ?_⟩
      · rw [hc.mod, hsm]
      · rw [hc.div, hc.page, hsm, hk.mem _ hr]
    · refine (h.entry j (by omega)).congr (hc.other j hjn) fun hne => ?_
      -- a copy made before is neither `p` nor the table
      have hin : s1.word dst j / pageSize ∈ fs := by
        rw [← h.pages]
        exact mem_pages (by omega) hne
      refine hc.ext.mem _ (fun hm => ?_) fun hd => h.ext.not_mem hdst (hd ▸ hin)
      rw [mem_singleton.1 hm] at hin
      exact hpfs hin
  · by_cases hjn : j = n
    · subst hjn
      refine iff_of_true hsf ?_
      omega
    · rw [hc.other j hjn]
      exact h.got j (by omega) hne
  · rw [length_append, List.length_singleton, tally_inTable_succ, if_neg h0]
    omega

theorem cloneTbl_spec (hk : Keeps s0 s) (hb : 0 < s.pmm.baseFrame) (hsrc : s0.pmm.refs src ≠ 0)
    (hdst0 : s0.pmm.refs dst = 0) (hdst : s.pmm.refs dst ≠ 0) (hze : ∀ j, s.word dst j = 0) (n : Nat) :
    ∃ fs, TblCopy s0 s (cloneTbl src dst n s) src dst n fs := by
  induction n with
  | zero =>
    exact ⟨[], .refl dst s, rfl, fun j _ => hze j, fun j hj => absurd hj (Nat.not_lt_zero j),
      fun j hj => absurd hj (Nat.not_lt_zero j), (Nat.zero_min _).symm⟩
  | succ n ih =>
    obtain ⟨fs, h⟩ := ih
    rw [cloneTbl]
    generalize cloneTbl src dst n s = s1 at h ⊢
    have hk1 : Keeps s0 s1 := hk.ext h.ext hdst0
    have hb1 : 0 < s1.pmm.baseFrame := by
      rw [h.ext.taken.base]
      exact hb
    have hsm : s1.word src n = s0.word src n := hk1.word hsrc n
    rcases cloneEntry_cases hb1 src dst n with ⟨h0, he⟩ | ⟨h0, hnn, he⟩ | ⟨p, h0, hp, he⟩
    · rw [he]
      exact ⟨fs, h.skip (.inl (hsm ▸ h0))⟩
    · rw [he]
      exact ⟨fs, h.skip (.inr hnn)⟩
    have hne : p ≠ dst := by
      rintro rfl
      exact h.ext.held hdst hp.zero
    rw [he]
    exact ⟨fs ++ [p], h.copy hk1 hdst hsrc (hsm ▸ h0) hp (Nat.lt_of_lt_of_le hb1 hp.ge) (copies_of_free hp hne)⟩

end

/-! ## The directory -/

section

variable {im : Image}

/-- The frames asked for by the first `n` entries of the directory: one for a table, one for each of its pages. -/
def demand (im : Image) (s : Phys) : Nat → Nat
  | 0 => 0
  | n + 1 => demand im s n +
      if n < 256 ∨ s.word im.pageDir n = 0 then 0
      else 1 + tally (s.inTable (s.word im.pageDir n / pageSize)) pageEntries

theorem demand_mono (im : Image) (s : Phys) : Monotone (demand im s) :=
  monotone_nat_of_le_succ fun _ => Nat.le_add_right _ _

theorem demand_lt {m : Nat} (h : m < n) (hm : 256 ≤ m) (h0 : s.word im.pageDir m ≠ 0) :
    demand im s m < demand im s n := by
  refine Nat.lt_of_lt_of_le ?_ (demand_mono im s h)
  rw [demand, if_neg (by omega)]
  omega

theorem mem_owned_table (hi : 256 ≤ i) (hn : i < 256 + n) (h0 : s.word dir i ≠ 0) :
    s.word dir i / pageSize ∈ s.owned dir n := by
  induction n with
  | zero => omega
  | succ n ih =>
    unfold owned
    by_cases hin : i = 256 + n
    · subst hin
      rw [if_neg h0]
      exact mem_append_right _ (mem_append_right _ (mem_singleton.2 rfl))
    · exact mem_append_left _ (ih (by omega))

theorem mem_owned_page (hi : 256 ≤ i) (hn : i < 256 + n) (h0 : s.word dir i ≠ 0) (hj : j < pageEntries)
    (hj0 : s.word (s.word dir i / pageSize) j ≠ 0) :
    s.word (s.word dir i / pageSize) j / pageSize ∈ s.owned dir n := by
  induction n with
  | zero => omega
  | succ n ih =>
    unfold owned
    by_cases hin : i = 256 + n
    · subst hin
      rw [if_neg h0]
      exact mem_append_right _ (mem_append_left _ (mem_pages hj hj0))
    · exact mem_append_left _ (ih (by omega))

/-- The table in entry `i` of the new directory. -/
structure TableOf (im : Image) (s0 s s' : Phys) (dir i : Nat) : Prop where
  ne : s'.word dir i ≠ 0
  flags : s'.word dir i % pageSize = s0.word im.pageDir i % pageSize
  entry : ∀ j < pageEntries, EntryCopy s0 s' (s0.word im.pageDir i / pageSize) (s'.word dir i / pageSize) j
  got : ∀ j < pageEntries, s0.word (s0.word im.pageDir i / pageSize) j ≠ 0 →
    (s'.word (s'.word dir i / pageSize) j ≠ 0 ↔
      demand im s0 i + 1 + tally (s0.inTable (s0.word im.pageDir i / pageSize)) j < s.pmm.freeFrames)

/-- The first `n` entries of `page_dir` have been copied to the directory `dir`, with the frames `fs`. -/
structure DirCopy (im : Image) (s0 s s' : Phys) (dir n : Nat) (fs : List Nat) : Prop where
  ext : Ext dir s fs s'
  owned : (s'.owned dir (n - 256)).Perm fs
  rest : ∀ i, n ≤ i → s'.word dir i = 0
  low : ∀ i < n, i < 256 → s'.word dir i = s0.word im.pageDir i
  empty : ∀ i < n, 256 ≤ i → s0.word im.pageDir i = 0 → s'.word dir i = 0
  table : ∀ i < n, 256 ≤ i → s0.word im.pageDir i ≠ 0 → TableOf im s0 s s' dir i
  count : fs.length = min (demand im s0 n) s.pmm.freeFrames

theorem cloneDirEntry_cases (hb : 0 < s.pmm.baseFrame) (dir i : Nat) :
    (s.word im.pageDir i = 0 ∧ cloneDirEntry im dir i s = (true, s)) ∨
    (s.word im.pageDir i ≠ 0 ∧ i < 256 ∧
      cloneDirEntry im dir i s = (true, s.setWord dir i (s.word im.pageDir i))) ∨
    (s.word im.pageDir i ≠ 0 ∧ 256 ≤ i ∧ s.pmm.freeFrames = 0 ∧
      cloneDirEntry im dir i s = (false, { s with pmm := pmmFree s.pmm (dir * pageSize) })) ∨
    ∃ t s2, s.word im.pageDir i ≠ 0 ∧ 256 ≤ i ∧ s.pmm.Free t ∧
      s2 = cloneTbl (s.word im.pageDir i / pageSize) t pageEntries (({ s with pmm := s.pmm.take t }).zeroFrame t) ∧
      cloneDirEntry im dir i s = (true, s2.setWord dir i (t * pageSize + s2.word im.pageDir i % pageSize)) := by
  unfold cloneDirEntry
  by_cases h0 : s.word im.pageDir i = 0
  · rw [if_pos h0]
    exact .inl ⟨h0, rfl⟩
  rw [if_neg h0]
  by_cases hi : i < 256
  · rw [if_pos hi]
    exact .inr (.inl ⟨h0, hi, rfl⟩)
  rw [if_neg hi]
  rcases pmmAlloc_cases s.pmm with ⟨he, hno⟩ | ⟨t, ht, -, he⟩
  · rw [he]
    exact .inr (.inr (.inl ⟨h0, by omega, Pmm.freeFrames_eq_zero.2 hno, rfl⟩))
  · rw [he]
    simp only [if_neg (ht.addr_ne hb), frameIdx_mul, or_mod]
    exact .inr (.inr (.inr ⟨t, _, h0, by omega, ht, rfl, rfl⟩))

/-- The loop over the directory starts from `s`: the new directory is taken and cleared, and what the old one is
made of is in use. -/
structure Starts (im : Image) (s0 s : Phys) (dir : Nat) : Prop where
  keeps : Keeps s0 s
  base : 0 < s.pmm.baseFrame
  fresh : s0.pmm.refs dir = 0
  held : s.pmm.refs dir ≠ 0
  zero : ∀ i, s.word dir i = 0
  source : s0.pmm.refs im.pageDir ≠ 0
  tables : ∀ i < pageEntries, s0.word im.pageDir i ≠ 0 → s0.pmm.refs (s0.word im.pageDir i / pageSize) ≠ 0

section

variable (h : DirCopy im s0 s s1 dir n fs)
include h

theorem DirCopy.keeps (hst : Starts im s0 s dir) : Keeps s0 s1 :=
  hst.keeps.ext h.ext hst.fresh

theorem DirCopy.skip (h0 : s0.word im.pageDir n = 0) : DirCopy im s0 s s1 dir (n + 1) fs := by
  have hz := h.rest n (Nat.le_refl n)
  refine ⟨h.ext, ?_, fun i hi => h.rest i (by omega), fun i hi hlt => ?_, fun i hi hge he => ?_, fun i hi hge hne => ?_, ?_⟩
  · by_cases hn : n < 256
    · rw [show n + 1 - 256 = n - 256 by omega]
      exact h.owned
    · rw [show n + 1 - 256 = n - 256 + 1 by omega, Phys.owned, show 256 + (n - 256) = n by omega, if_pos hz,
        append_nil]
      exact h.owned
  · by_cases hin : i = n
    · rw [hin, hz, h0]
    · exact h.low i (by omega) hlt
  · by_cases hin : i = n
    · rw [hin, hz]
    · exact h.empty i (by omega) hge he
  · by_cases hin : i = n
    · rw [hin] at hne
      exact absurd h0 hne
    · exact h.table i (by omega) hge hne
  · rw [demand, if_pos (.inr h0), h.count, Nat.add_zero]

theorem DirCopy.share (hn : n < 256) : DirCopy im s0 s (s1.setWord dir n (s0.word im.pageDir n)) dir (n + 1) fs := by
  have hext : Ext dir s1 [] (s1.setWord dir n (s0.word im.pageDir n)) :=
    ⟨.nil _, fun f _ hd => mem_setWord_ne _ hd _ _, rfl⟩
  refine ⟨?_, ?_, fun i hi => ?_, fun i hi hlt => ?_, fun i hi hge => by omega, fun i hi hge => by omega, ?_⟩
  · have := h.ext.trans hext (.inl rfl)
    rwa [append_nil] at this
  · have := h.owned
    rw [show n - 256 = 0 by omega] at this
    rw [show n + 1 - 256 = 0 by omega]
    exact this
  · rw [word_setWord_ne _ _ (.inr (by omega))]
    exact h.rest i (by omega)
  · by_cases hin : i = n
    · rw [hin, word_setWord_self _ (word_lt _ _ _)]
    · rw [word_setWord_ne _ _ (.inr hin)]
      exact h.low i (by omega) hlt
  · rw [demand, if_pos (.inl hn), h.count, Nat.add_zero]

/-- What stays of the first `n` entries while the next table is made. -/
theorem DirCopy.kept (hdir : s.pmm.refs dir ≠ 0) (hext : Ext dir s1 gs s2)
    (hot : ∀ i, i ≠ n → s2.word dir i = s1.word dir i) :
    s2.owned dir (n - 256) = s1.owned dir (n - 256) ∧
      ∀ i < n, 256 ≤ i → s0.word im.pageDir i ≠ 0 → TableOf im s0 s s2 dir i := by
  -- the tables and pages made so far are in use, so nothing is written there
  have hmem : ∀ f ∈ s1.owned dir (n - 256), s2.mem f = s1.mem f := by
    intro f hf
    obtain ⟨h1, h2⟩ := h.ext.of_mem (h.owned.mem_iff.1 hf)
    exact hext.kept h1 (h2 dir hdir)
  constructor
  · refine owned_congr (fun i hi => hot _ (by omega)) fun i hi hne => ?_
    exact hmem _ (mem_owned_table (by omega) (by omega) hne)
  · intro i hi hge hne
    have ht := h.table i hi hge hne
    have hw : s2.word dir i = s1.word dir i := hot i (by omega)
    have htbl : ∀ j, s2.word (s1.word dir i / pageSize) j = s1.word (s1.word dir i / pageSize) j :=
      word_congr (hmem _ (mem_owned_table hge (by omega) ht.ne))
    refine ⟨by rw [hw]; exact ht.ne, by rw [hw]; exact ht.flags, fun j hj => ?_, fun j hj hj0 => ?_⟩
    · rw [hw]
      refine (ht.entry j hj).congr (htbl j) fun hj0 => ?_
      exact hmem _ (mem_owned_page hge (by omega) ht.ne hj hj0)
    · rw [hw, htbl j]
      exact ht.got j hj hj0

/-- A table of the new directory: the frame `t`, and the frames `gs` for its pages. -/
theorem DirCopy.copy (hst : Starts im s0 s dir) (hn : 256 ≤ n)
    (hlt : n < pageEntries) (h0 : s0.word im.pageDir n ≠ 0) {t : Nat} (ht : s1.pmm.Free t)
    (hs2 : s2 = cloneTbl (s0.word im.pageDir n / pageSize) t pageEntries (({ s1 with pmm := s1.pmm.take t }).zeroFrame t)) :
    ∃ gs, DirCopy im s0 s (s2.setWord dir n (t * pageSize + s2.word im.pageDir n % pageSize)) dir (n + 1) gs := by
  have hk := h.keeps hst
  have hdir := hst.held
  have hdt : dir ≠ t := by
    rintro rfl
    exact h.ext.held hdir ht.zero
  have ht0 : s0.pmm.refs t = 0 := by
    by_contra hne
    exact hk.refs t hne ht.zero
  -- the frame of the table is taken and cleared ..
  have hext1 : Ext dir s1 [t] (({ s1 with pmm := s1.pmm.take t }).zeroFrame t) := by
    refine ⟨.single ht, fun f hf _ => ?_, rfl⟩
    exact mem_zeroFrame_ne _ fun hft => hf (mem_singleton.2 hft)
  have hlf : s1.pmm.freeFrames = (({ s1 with pmm := s1.pmm.take t }).zeroFrame t).pmm.freeFrames + 1 :=
    Pmm.freeFrames_take ht
  have hdirT : (({ s1 with pmm := s1.pmm.take t }).zeroFrame t).mem dir = s1.mem dir := mem_zeroFrame_ne _ hdt
  have hkT : Keeps s0 (({ s1 with pmm := s1.pmm.take t }).zeroFrame t) := hk.ext hext1 hst.fresh
  have hze : ∀ j, (({ s1 with pmm := s1.pmm.take t }).zeroFrame t).word t j = 0 := word_zeroFrame_self _ t
  have hbT : (({ s1 with pmm := s1.pmm.take t }).zeroFrame t).pmm.baseFrame = s.pmm.baseFrame := h.ext.taken.base
  generalize ({ s1 with pmm := s1.pmm.take t }).zeroFrame t = sT at hs2 hext1 hlf hdirT hkT hze hbT
  have htT : sT.pmm.refs t ≠ 0 := (hext1.of_mem (mem_singleton.2 rfl)).1
  have hdirheld : sT.pmm.refs dir ≠ 0 := hext1.held (h.ext.held hdir)
  -- .. and its entries are filled in ..
  obtain ⟨gs, hgs⟩ := cloneTbl_spec hkT (hbT ▸ hst.base) (hst.tables n hlt h0) ht0 htT hze pageEntries
  rw [← hs2] at hgs
  have hk2 : Keeps s0 s2 := hkT.ext hgs.ext ht0
  have hflags : s2.word im.pageDir n = s0.word im.pageDir n := hk2.word hst.source n
  have hdir2 : s2.mem dir = s1.mem dir := (hgs.ext.kept hdirheld hdt).trans hdirT
  rw [hflags]
  have hwlt : t * pageSize + s0.word im.pageDir n % pageSize < 2 ^ 32 := by
    have := ht.max
    unfold pageSize at this ⊢
    omega
  generalize hw : t * pageSize + s0.word im.pageDir n % pageSize = w at hwlt ⊢
  have hwmod : w % pageSize = s0.word im.pageDir n % pageSize := by
    rw [← hw]
    unfold pageSize
    omega
  have hwdiv : w / pageSize = t := by
    rw [← hw]
    unfold pageSize
    omega
  have hwne : w ≠ 0 := by
    rintro rfl
    have := ht.ge
    have := hst.base
    have := h.ext.taken.base
    unfold pageSize at hwdiv
    omega
  -- .. before the directory points to it
  have hext : Ext dir s1 ([t] ++ gs) (s2.setWord dir n w) := by
    have hset : Ext dir s2 [] (s2.setWord dir n w) := ⟨.nil _, fun f _ hd => mem_setWord_ne _ hd _ _, rfl⟩
    have := (hext1.trans hgs.ext (.inr (mem_singleton.2 rfl))).trans hset (.inl rfl)
    rwa [append_nil] at this
  have hsf : (s2.setWord dir n w).word dir n = w := word_setWord_self _ hwlt
  have hot : ∀ i, i ≠ n → (s2.setWord dir n w).word dir i = s1.word dir i := by
    intro i hi
    rw [word_setWord_ne _ _ (.inr hi)]
    exact word_congr hdir2 i
  have htbl : ∀ j, (s2.setWord dir n w).word t j = s2.word t j := fun j => word_setWord_ne _ _ (.inl (Ne.symm hdt))
  obtain ⟨howned, htables⟩ := h.kept hdir hext hot
  have hct := h.count
  have hleft1 := h.ext.taken.left
  refine ⟨fs ++ ([t] ++ gs), h.ext.trans hext (.inl rfl), ?_, fun i hi => ?_, fun i hi hlt => ?_, fun i hi hge he => ?_,
    fun i hi hge hne => ?_, ?_⟩
  · rw [show n + 1 - 256 = n - 256 + 1 by omega, Phys.owned, show 256 + (n - 256) = n by omega, hsf, if_neg hwne,
      hwdiv, howned, pages_congr fun j _ => htbl j, hgs.pages]
    exact h.owned.append List.perm_append_comm
  · rw [hot i (by omega)]
    exact h.rest i (by omega)
  · rw [hot i (by omega)]
    exact h.low i (by omega) hlt
  · by_cases hin : i = n
    · rw [hin] at he
      exact absurd he h0
    · rw [hot i hin]
      exact h.empty i (by omega) hge he
  · by_cases hin : i = n
    · subst hin
      refine ⟨by rw [hsf]; exact hwne, by rw [hsf]; exact hwmod, fun j hj => ?_, fun j hj hj0 => ?_⟩
      · rw [hsf, hwdiv]
        refine (hgs.entry j hj).congr (htbl j) fun hj0 => ?_
        have hin : s2.word t j / pageSize ∈ gs := by
          rw [← hgs.pages]
          exact mem_pages hj hj0
        exact mem_setWord_ne _ ((hgs.ext.of_mem hin).2 dir hdirheld) _ _
      · rw [hsf, hwdiv, htbl j, hgs.got j hj hj0]
        omega
    · exact htables i (by omega) hge hne
  · have hcount2 := hgs.count
    rw [length_append, length_append, List.length_singleton, demand, if_neg (by omega)]
    omega

end

/-- The loop copies every entry, or it stops at one for whose table no frame is left and gives the directory back. -/
theorem cloneDir_run (hst : Starts im s0 s dir) (hn : n ≤ pageEntries) :
    (∃ s' fs, cloneDir im dir n s = (true, s') ∧ DirCopy im s0 s s' dir n fs ∧
      ∀ i < n, 256 ≤ i → s0.word im.pageDir i ≠ 0 → demand im s0 i < s.pmm.freeFrames) ∨
    ∃ m t fs, 256 ≤ m ∧ m < n ∧ s0.word im.pageDir m ≠ 0 ∧ t.pmm.freeFrames = 0 ∧ DirCopy im s0 s t dir m fs ∧
      cloneDir im dir n s = (false, { t with pmm := pmmFree t.pmm (dir * pageSize) }) := by
  induction n with
  | zero =>
    refine .inl ⟨s, [], rfl, ⟨.refl dir s, .nil, fun i _ => hst.zero i, ?_, ?_, ?_, (Nat.zero_min _).symm⟩, ?_⟩
    all_goals exact fun i hi => absurd hi (Nat.not_lt_zero i)
  | succ n ih =>
    rcases ih (by omega) with ⟨s1, fs, hs1, h1, hrm⟩ | ⟨m, t, fs, hm, hmn, h⟩
    · have hk1 := h1.keeps hst
      have hb1 : 0 < s1.pmm.baseFrame := h1.ext.taken.base ▸ hst.base
      have hsm : s1.word im.pageDir n = s0.word im.pageDir n := hk1.word hst.source n
      have hnx : (256 ≤ n → s0.word im.pageDir n ≠ 0 → demand im s0 n < s.pmm.freeFrames) → ∀ i < n + 1, 256 ≤ i →
          s0.word im.pageDir i ≠ 0 → demand im s0 i < s.pmm.freeFrames := by
        intro hroom' i hi
        by_cases hin : i = n
        · rw [hin]
          exact hroom'
        · exact hrm i (by omega)
      rw [cloneDir, hs1]
      rcases cloneDirEntry_cases hb1 dir n with ⟨h0, he⟩ | ⟨h0, hlt, he⟩ | ⟨h0, hge, hnn, he⟩ |
        ⟨t, s2, h0, hge, ht, hs2, he⟩
      · rw [hsm] at h0
        exact .inl ⟨s1, fs, he, h1.skip h0, hnx fun _ hne => absurd h0 hne⟩
      · rw [hsm] at he
        exact .inl ⟨_, fs, he, h1.share hlt, hnx fun hge => by omega⟩
      · exact .inr ⟨n, s1, fs, hge, Nat.lt_succ_self n, hsm ▸ h0, hnn, h1, he⟩
      rw [hsm] at h0 hs2
      obtain ⟨gs, h2⟩ := h1.copy hst hge hn h0 ht hs2
      have hct := h1.count
      have hlf := h1.ext.taken.left
      have hso := Pmm.freeFrames_take ht
      exact .inl ⟨_, gs, he, h2, hnx fun _ _ => by omega⟩
    · right
      refine ⟨m, t, fs, hm, by omega, h.1, h.2.1, h.2.2.1, ?_⟩
      rw [cloneDir, h.2.2.2]

end

/-! ## The clone -/

/-- The frames of the directory, of all page tables and of the pages mapped from index 256 on are in use. -/
structure InUse (im : Image) (s : Phys) : Prop where
  base : s.pmm.baseFrame = 0x100
  dir : s.pmm.refs im.pageDir ≠ 0
  tables : ∀ i < 1024, s.word im.pageDir i ≠ 0 → s.pmm.refs (s.word im.pageDir i / pageSize) ≠ 0
  pages : ∀ i, 256 ≤ i → i < 1024 → s.word im.pageDir i ≠ 0 → ∀ j < 1024,
    s.word (s.word im.pageDir i / pageSize) j % 2 = pagePresent →
      s.pmm.refs (s.word (s.word im.pageDir i / pageSize) j / pageSize) ≠ 0

/-- What `paging_clone_dir` makes: the directory `dir`, and the frames `fs` for its tables and pages.  `s1` is
where the loop starts. -/
structure Cloned (im : Image) (s s1 : Phys) (dir : Nat) (fs : List Nat) (s' : Phys) : Prop where
  free : s.pmm.Free dir
  start : s1.pmm = s.pmm.take dir
  ext : Ext dir s (dir :: fs) s'
  copy : DirCopy im s s1 s' dir pageEntries fs

section

variable {im : Image}

/-- The ways a `paging_clone_dir` can end; `s1` is where its loop starts. -/
theorem pagingCloneDir_cases (h : InUse im s) :
    (s.pmm.freeFrames = 0 ∧ s.pagingCloneDir im = (0, s)) ∨
    ∃ dir s1, s.pmm.Free dir ∧ s1.pmm = s.pmm.take dir ∧ Ext dir s [dir] s1 ∧
      ((∃ s' fs, s.pagingCloneDir im = (dir * pageSize, s') ∧ DirCopy im s s1 s' dir pageEntries fs ∧
        ∀ i < pageEntries, 256 ≤ i → s.word im.pageDir i ≠ 0 → demand im s i < s1.pmm.freeFrames) ∨
      ∃ m t fs, 256 ≤ m ∧ m < pageEntries ∧ s.word im.pageDir m ≠ 0 ∧ t.pmm.freeFrames = 0 ∧
        DirCopy im s s1 t dir m fs ∧
        s.pagingCloneDir im = (0, { t with pmm := pmmFree t.pmm (dir * pageSize) })) := by
  have hb : 0 < s.pmm.baseFrame := by
    have := h.base
    omega
  unfold pagingCloneDir
  rcases pmmAlloc_cases s.pmm with ⟨he, hno⟩ | ⟨dir, hfr, -, he⟩
  · rw [he, if_pos rfl]
    exact .inl ⟨Pmm.freeFrames_eq_zero.2 hno, rfl⟩
  rw [he]
  simp only [if_neg (hfr.addr_ne hb), frameIdx_mul]
  have hext : Ext dir s [dir] (({ s with pmm := s.pmm.take dir }).zeroFrame dir) :=
    ⟨.single hfr, fun f _ hne => mem_zeroFrame_ne _ hne, rfl⟩
  have hst : Starts im s (({ s with pmm := s.pmm.take dir }).zeroFrame dir) dir :=
    ⟨(Keeps.refl s).ext hext hfr.zero, hb, hfr.zero, (hext.of_mem (mem_singleton.2 rfl)).1,
      word_zeroFrame_self _ dir, h.dir, h.tables⟩
  refine .inr ⟨dir, _, hfr, rfl, hext, ?_⟩
  rcases cloneDir_run hst (Nat.le_refl pageEntries) with ⟨s', fs, hlp, hcp, hrm⟩ |
    ⟨m, t, fs, hm, hlt, h0, hnn, hcp, hlp⟩
  · rw [hlp]
    exact .inl ⟨s', fs, rfl, hcp, hrm⟩
  · rw [hlp]
    exact .inr ⟨m, t, fs, hm, hlt, h0, hnn, hcp, rfl⟩

theorem pagingCloneDir_spec (h : InUse im s) {d : Nat} (hc : s.pagingCloneDir im = (d, s')) (hd : d ≠ 0) :
    ∃ dir s1 fs, d = dir * pageSize ∧ Cloned im s s1 dir fs s' := by
  rcases pagingCloneDir_cases h with ⟨-, he⟩ | ⟨dir, s1, hfr, hpmm, hext, ⟨s2, fs, he, hcp, -⟩ |
    ⟨m, t, fs, -, -, -, -, -, he⟩⟩
  · rw [he] at hc
    exact absurd (Prod.mk.inj hc).1.symm hd
  · obtain ⟨rfl, rfl⟩ := Prod.mk.inj (he.symm.trans hc)
    exact ⟨dir, s1, fs, rfl, hfr, hpmm, hext.trans hcp.ext (.inl rfl), hcp⟩
  · rw [he] at hc
    exact absurd (Prod.mk.inj hc).1.symm hd

theorem pagingCloneDir_fail (h : InUse im s) (hc : s.pagingCloneDir im = (0, s')) :
    Keeps s s' ∧ s'.pmm.baseFrame = s.pmm.baseFrame ∧ s' = { s with mem := s'.mem, pmm := s'.pmm } := by
  rcases pagingCloneDir_cases h with ⟨-, he⟩ | ⟨dir, s1, hfr, hpmm, hext, ⟨s2, fs, he, -⟩ |
    ⟨m, t, fs, -, -, -, -, hcp, he⟩⟩
  · rw [he] at hc
    cases hc
    exact ⟨.refl s, rfl, rfl⟩
  · have hne := hfr.addr_ne (by have := h.base; omega)
    rw [he] at hc
    exact absurd (Prod.mk.inj hc).1 hne
  obtain rfl := (Prod.mk.inj (he.symm.trans hc)).2
  have hall := hext.trans hcp.ext (.inl rfl)
  have hkt := (Keeps.refl s).ext hall hfr.zero
  refine ⟨⟨hkt.mem, fun f hf => ?_⟩, ?_, ?_⟩
  · -- the frame that is given back was free
    have hfd : f ≠ dir := by
      rintro rfl
      exact hf hfr.zero
    rw [pmmFree_refs, frameIdx_mul, if_neg fun hc => hfd hc.1]
    exact hkt.refs f hf
  · exact (pmmFree_only _ _).base.trans hall.taken.base
  · rw [hall.rest]

/-- With a frame for everything it asks for, `paging_clone_dir` succeeds. -/
theorem pagingCloneDir_some (h : InUse im s) (hfr : demand im s pageEntries < s.pmm.freeFrames) :
    (s.pagingCloneDir im).1 ≠ 0 := by
  rcases pagingCloneDir_cases h with ⟨hnn, -⟩ | ⟨dir, s1, hdir, hpmm, -, ⟨s2, fs, he, -⟩ |
    ⟨m, t, fs, hm, hlt, h0, hnn, hcp, -⟩⟩
  · omega
  · rw [he]
    exact hdir.addr_ne (by have := h.base; omega)
  -- the frames would have run out at table `m`
  have hlf := Pmm.freeFrames_take hdir
  have hct := hcp.count
  have hrs := hcp.ext.taken.left
  have hmore := demand_lt hlt hm h0
  rw [hpmm] at hct hrs
  omega

/-! ### When a frame is missing -/

/-- Every page of the directory from index 256 on has a copy in the directory `dir`. -/
def Complete (im : Image) (s : Phys) (dir : Nat) (s' : Phys) : Prop :=
  ∀ i < pageEntries, 256 ≤ i → s.word im.pageDir i ≠ 0 → ∀ j < pageEntries,
    s.word (s.word im.pageDir i / pageSize) j ≠ 0 →
      s'.word dir i ≠ 0 ∧ s'.word (s'.word dir i / pageSize) j ≠ 0

/-- A clone that fails gives back what it took, and one that does not has every page. -/
def CloneSafe (im : Image) (s : Phys) : Prop :=
  ∀ d s', s.pagingCloneDir im = (d, s') →
    (d = 0 → s'.pmm.refs = s.pmm.refs ∧ s'.pmm.usedFrames = s.pmm.usedFrames) ∧
    (d ≠ 0 → Complete im s (frameIdx d) s')

theorem demand_le_of {b : Nat}
    (h : ∀ i < n, 256 ≤ i → s.word im.pageDir i ≠ 0 → demand im s i < b ∧
      ∀ j < pageEntries, s.word (s.word im.pageDir i / pageSize) j ≠ 0 →
        demand im s i + 1 + tally (s.inTable (s.word im.pageDir i / pageSize)) j < b) :
    demand im s n ≤ b := by
  induction n with
  | zero => exact Nat.zero_le b
  | succ n ih =>
    have hle := ih fun i hi => h i (by omega)
    rw [demand]
    split
    · exact hle
    rename_i hno
    rw [not_or] at hno
    obtain ⟨htb, hps⟩ := h n (Nat.lt_succ_self n) (by omega) hno.2
    rw [← Nat.add_assoc]
    exact tally_add_le htb fun j hj hp => hps j hj (of_decide_eq_true hp)

/-- A clone for which the loop comes to its end has every page just if there was a frame for each. -/
theorem complete_iff (h : DirCopy im s s1 s' dir pageEntries fs)
    (hrm : ∀ i < pageEntries, 256 ≤ i → s.word im.pageDir i ≠ 0 → demand im s i < s1.pmm.freeFrames) :
    Complete im s dir s' ↔ demand im s pageEntries ≤ s1.pmm.freeFrames := by
  constructor
  · intro hc
    refine demand_le_of fun i hi hge hne => ⟨hrm i hi hge hne, fun j hj hj0 => ?_⟩
    exact ((h.table i hi hge hne).got j hj hj0).1 (hc i hi hge hne j hj hj0).2
  · intro hle i hi hge hne j hj hj0
    have ht := h.table i hi hge hne
    refine ⟨ht.ne, (ht.got j hj hj0).2 ?_⟩
    have hpg := tally_lt (p := s.inTable (s.word im.pageDir i / pageSize)) hj (decide_eq_true hj0)
    have hnx := demand_mono im s (show i + 1 ≤ pageEntries from hi)
    rw [demand, if_neg (by omega)] at hnx
    omega

/-- The loop has stopped at a table; `fs` are the frames taken so far, which stay taken. -/
theorem restored_iff {t : Phys} (h : Taken s.pmm (dir :: fs) t.pmm) (hus : s.pmm.usedFrames ≤ pmmMaxFrames) :
    ((pmmFree t.pmm (dir * pageSize)).refs = s.pmm.refs ∧
      (pmmFree t.pmm (dir * pageSize)).usedFrames = s.pmm.usedFrames) ↔ fs = [] := by
  constructor
  · rintro ⟨hrf, -⟩
    by_contra hne
    obtain ⟨f, hf⟩ := List.exists_mem_of_ne_nil fs hne
    have hfd : f ≠ dir := by
      rintro rfl
      exact (List.nodup_cons.1 h.nodup).1 hf
    have hkt := congrFun hrf f
    rw [pmmFree_refs, frameIdx_mul, if_neg fun hc => hfd hc.1, h.refs f, if_pos (List.mem_cons_of_mem _ hf),
      (h.free f (List.mem_cons_of_mem _ hf)).zero] at hkt
    cases hkt
  · rintro rfl
    obtain ⟨hrf, hct⟩ := h.restore (List.Perm.refl [dir])
    refine ⟨hrf, hct ?_⟩
    unfold pmmMaxFrames at hus
    show s.pmm.usedFrames + 1 < 2 ^ 32
    omega

/-- A frame for the directory and too few for the rest: a page is left out, or what was taken stays taken. -/
theorem not_cloneSafe (h : InUse im s) (hus : s.pmm.usedFrames ≤ pmmMaxFrames) (htwo : 1 < s.pmm.freeFrames)
    (hfew : s.pmm.freeFrames ≤ demand im s pageEntries) : ¬ CloneSafe im s := by
  intro hs
  rcases pagingCloneDir_cases h with ⟨hnn, -⟩ | ⟨dir, s1, hfr, hpmm, hext, hcs⟩
  · omega
  have hne := hfr.addr_ne (by have := h.base; omega)
  have hone := Pmm.freeFrames_take hfr
  rw [← hpmm] at hone
  rcases hcs with ⟨s', fs, he, hcp, hrm⟩ | ⟨m, t, fs, -, -, -, hnn, hcp, he⟩
  · have hc := (hs _ _ he).2 hne
    rw [frameIdx_mul, complete_iff hcp hrm] at hc
    omega
  have htaken : Taken s.pmm (dir :: fs) t.pmm := (hext.trans hcp.ext (.inl rfl)).taken
  have hlf := hcp.ext.taken.left
  rw [(restored_iff htaken hus).1 ((hs _ _ he).1 rfl), List.length_nil] at hlf
  omega

/-- **A clone is safe just if there is a frame for everything it asks for, or none but for the directory.**  With
fewer frames it stops at a table and keeps the tables and pages it has made, or it leaves out pages and succeeds. -/
theorem clone_safe_iff (h : InUse im s) (hused : s.pmm.usedFrames ≤ pmmMaxFrames) :
    CloneSafe im s ↔ s.pmm.freeFrames ≤ 1 ∨ demand im s pageEntries < s.pmm.freeFrames := by
  constructor
  · intro hs
    by_contra hno
    exact not_cloneSafe h hused (by omega) (by omega) hs
  · intro hframes d s' hc
    rcases pagingCloneDir_cases h with ⟨hnn, he⟩ | ⟨dir, s1, hfr, hpmm, hext, hcs⟩
    · rw [he] at hc
      cases hc
      exact ⟨fun _ => ⟨rfl, rfl⟩, absurd rfl⟩
    have hne := hfr.addr_ne (by have := h.base; omega)
    have hone := Pmm.freeFrames_take hfr
    rw [← hpmm] at hone
    rcases hcs with ⟨s2, fs, he, hcp, hrm⟩ | ⟨m, t, fs, hm, hlt, h0, hnn, hcp, he⟩
    · obtain ⟨rfl, rfl⟩ := Prod.mk.inj (he.symm.trans hc)
      refine ⟨fun hd => absurd hd hne, fun _ => ?_⟩
      rw [frameIdx_mul, complete_iff hcp hrm]
      rcases hframes with hle | hle
      · -- without a frame for a table there is no table
        refine demand_le_of fun i hi hge hi0 => ?_
        have := hrm i hi hge hi0
        omega
      · omega
    · obtain ⟨rfl, rfl⟩ := Prod.mk.inj (he.symm.trans hc)
      have htaken : Taken s.pmm (dir :: fs) t.pmm := (hext.trans hcp.ext (.inl rfl)).taken
      refine ⟨fun _ => (restored_iff htaken hused).2 ?_, absurd rfl⟩
      have hct := hcp.count
      have hlf := hcp.ext.taken.left
      have hmore := demand_lt hlt hm h0
      exact List.length_eq_zero_iff.1 (by omega)

theorem Cloned.keeps (h : Cloned im s s1 dir fs s') : Keeps s s' :=
  (Keeps.refl s).ext h.ext h.free.zero

theorem Keeps.walk (hk : Keeps s s') (h : InUse im s) (hva : va < 2 ^ 32) :
    s'.walk im.pageDir va = s.walk im.pageDir va := by
  have hdi : pageDirIdx va < 1024 := pageDirIdx_lt hva
  unfold Phys.walk
  rw [hk.word h.dir]
  by_cases hp : s.word im.pageDir (pageDirIdx va) % 2 = pagePresent
  · have hne : s.word im.pageDir (pageDirIdx va) ≠ 0 := by
      intro h0
      rw [h0] at hp
      cases hp
    rw [if_pos hp, if_pos hp, hk.word (h.tables _ hdi hne)]
  · rw [if_neg hp, if_neg hp]

theorem InUse.page (h : InUse im s) {pa : Nat} (hva : va < 2 ^ 32) (hdi : 256 ≤ pageDirIdx va)
    (ht : s.translate im.pageDir va = some pa) : s.pmm.refs (frameIdx pa) ≠ 0 := by
  unfold translate walk at ht
  by_cases hp : s.word im.pageDir (pageDirIdx va) % 2 = pagePresent
  · rw [if_pos hp] at ht
    have hne : s.word im.pageDir (pageDirIdx va) ≠ 0 := by
      intro h0
      rw [h0] at hp
      cases hp
    split at ht
    · rename_i hpp
      have hpg := h.pages _ hdi (pageDirIdx_lt hva) hne _ (pageTblIdx_lt va) hpp
      cases ht
      have hidx : ∀ x, frameIdx (x / pageSize * pageSize + va % pageSize) = x / pageSize := by
        intro x
        unfold frameIdx pageSize
        omega
      rw [hidx]
      exact hpg
    · cases ht
  · rw [if_neg hp, if_neg (by decide)] at ht
    cases ht

/-- A clone leaves the directory it is made from alone, and giving it back restores the allocator. -/
theorem clone_free_restores (h : InUse im s) {d : Nat} (hc : s.pagingCloneDir im = (d, s')) (hd : d ≠ 0) :
    (∀ va < 2 ^ 32, s'.translate im.pageDir va = s.translate im.pageDir va) ∧
      (∀ va < 2 ^ 32, 256 ≤ pageDirIdx va → ∀ pa, s.translate im.pageDir va = some pa →
        s'.mem (frameIdx pa) = s.mem (frameIdx pa)) ∧
      (s'.pagingFreeUser d).pmm.refs = s.pmm.refs ∧
      (s.pmm.usedFrames ≤ pmmMaxFrames → (s'.pagingFreeUser d).pmm.usedFrames = s.pmm.usedFrames) := by
  obtain ⟨dir, s1, fs, rfl, hcl⟩ := pagingCloneDir_spec h hc hd
  have hk := hcl.keeps
  have hperm : (s'.owned dir (pageEntries - 256) ++ [dir]).Perm (dir :: fs) :=
    (hcl.copy.owned.append_right [dir]).trans List.perm_append_comm
  rw [pagingFreeUser_eq]
  obtain ⟨hrf, hus⟩ := hcl.ext.taken.restore hperm
  refine ⟨fun va hva => ?_, fun va hva hdi pa ht => hk.mem _ (h.page hva hdi ht), hrf, fun hct => hus ?_⟩
  · unfold translate
    rw [hk.walk h hva]
  · -- there are not that many frames
    have hlen := hcl.ext.taken.left
    have hmax : s.pmm.freeFrames ≤ 65536 := tally_le _ _
    unfold pmmMaxFrames at hct
    omega

end

/-! ## At boot, and with one page -/

theorem pagingInit_inUse (im : Image) (memKb : Nat) (mem : Nat → Bytes) : InUse im (pagingInit im memKb mem) := by
  have hheld : ∀ f, 0x100 ≤ f ∧ f < 0x500 → (pagingInit im memKb mem).pmm.refs f ≠ 0 := by
    intro f hf
    have hone : (pmmInit memKb).refs f = 1 := if_pos hf
    show (pmmInit memKb).refs f ≠ 0
    omega
  refine ⟨rfl, hheld _ im.dir_image, fun i _ hne => ?_, fun i hi _ hne => ?_⟩
  · rw [pagingInit_dir] at hne ⊢
    by_cases hi : i < 4
    · have hdiv : ((im.kernTables + i) * pageSize + 3) / pageSize = im.kernTables + i := by
        unfold pageSize
        omega
      have := im.tables_image
      rw [if_pos hi, hdiv]
      exact hheld _ ⟨by omega, by omega⟩
    · rw [if_neg hi] at hne
      exact absurd rfl hne
  · rw [pagingInit_dir, if_neg (by omega)] at hne
    exact absurd rfl hne

/-- One page in the entry 256 of the directory, and two frames that are free. -/
def sampleShort : Phys :=
  ((⟨fun _ _ => 0, ⟨fun f => if f = 0x600 ∨ f = 0x601 then 0 else 1, 0xFF00, 0, 0x100, []⟩, 0, [], 0, fun _ => none⟩ :
    Phys).setWord sampleImage.pageDir 256 0x501003).setWord 0x501 0 0x502003

/-- The new directory and its table take the two frames; the page has no copy, and the clone succeeds. -/
theorem clone_leaves_out_page : InUse sampleImage sampleShort ∧ ¬ CloneSafe sampleImage sampleShort := by
  have hin : InUse sampleImage sampleShort := ⟨rfl, by decide +kernel, by decide +kernel, by decide +kernel⟩
  have hrf : ∀ f, sampleShort.pmm.refs f = if f = 0x600 ∨ f = 0x601 then 0 else 1 := fun _ => rfl
  have h600 : sampleShort.pmm.Free 0x600 := ⟨by decide, by decide, by decide, rfl⟩
  have h601 : (sampleShort.pmm.take 0x600).Free 0x601 := ⟨by decide, by decide, by decide, rfl⟩
  have hnn : ((sampleShort.pmm.take 0x600).take 0x601).freeFrames = 0 := by
    refine Pmm.freeFrames_eq_zero.2 fun f hf => ?_
    have hz := hf.zero
    by_cases h1 : f = 0x601
    · rw [h1, Pmm.take_refs_self] at hz
      cases hz
    rw [Pmm.take_refs_ne _ h1] at hz
    by_cases h0 : f = 0x600
    · rw [h0, Pmm.take_refs_self] at hz
      cases hz
    · rw [Pmm.take_refs_ne _ h0, hrf, if_neg (by omega)] at hz
      cases hz
  have htwo : sampleShort.pmm.freeFrames = 2 := by
    rw [Pmm.freeFrames_take h600, Pmm.freeFrames_take h601, hnn]
  -- the table and its page
  have hdemand : demand sampleImage sampleShort pageEntries = 2 := by decide +kernel
  exact ⟨hin, not_cloneSafe hin (by decide) (by omega) (by omega)⟩

/-- The same page, with a third frame free. -/
def sampleEnough : Phys := { sampleShort with pmm := pmmFree sampleShort.pmm 0x602000 }

theorem sampleEnough_spec : InUse sampleImage sampleEnough ∧
    demand sampleImage sampleEnough pageEntries < sampleEnough.pmm.freeFrames := by
  refine ⟨⟨rfl, by decide +kernel, by decide +kernel, by decide +kernel⟩, ?_⟩
  have hdemand : demand sampleImage sampleEnough pageEntries = 2 := by decide +kernel
  have h600 : sampleEnough.pmm.Free 0x600 := ⟨by decide, by decide, by decide, rfl⟩
  have h601 : (sampleEnough.pmm.take 0x600).Free 0x601 := ⟨by decide, by decide, by decide, rfl⟩
  have h602 : ((sampleEnough.pmm.take 0x600).take 0x601).Free 0x602 := ⟨by decide, by decide, by decide, rfl⟩
  rw [hdemand, Pmm.freeFrames_take h600, Pmm.freeFrames_take h601, Pmm.freeFrames_take h602]
  omega

theorem clone_safe_iff_page : CloneSafe sampleImage sampleEnough :=
  (clone_safe_iff sampleEnough_spec.1 (by decide)).2 (.inr sampleEnough_spec.2)

/-- The page at 1 GB is as before, and the frames of its copy are free again. -/
theorem clone_free_restores_page : ∃ d s', d ≠ 0 ∧ sampleEnough.pagingCloneDir sampleImage = (d, s') ∧
    s'.translate sampleImage.pageDir 0x40000000 = some 0x502000 ∧ s'.mem 0x502 = sampleEnough.mem 0x502 ∧
    (s'.pagingFreeUser d).pmm.refs = sampleEnough.pmm.refs := by
  obtain ⟨hin, hroom⟩ := sampleEnough_spec
  have hd := pagingCloneDir_some hin hroom
  have ht : sampleEnough.translate sampleImage.pageDir 0x40000000 = some 0x502000 := by decide +kernel
  cases hclone : sampleEnough.pagingCloneDir sampleImage with
  | mk d s' =>
    rw [hclone] at hd
    obtain ⟨hwalk, hpage, hrefs, -⟩ := clone_free_restores hin hclone hd
    exact ⟨d, s', hd, rfl, (hwalk _ (by decide)).trans ht, hpage _ (by decide) (by decide) _ ht, hrefs⟩

/-! ## The regions stay -/

theorem cloneTbl_rest (src dst n : Nat) (s : Phys) : SameRegions s (cloneTbl src dst n s) := by
  induction n with
  | zero => exact ⟨rfl, rfl⟩
  | succ n ih =>
    refine ih.trans ?_
    show SameRegions _ (cloneEntry src dst n _)
    unfold cloneEntry
    simp only []
    split
    · exact ⟨rfl, rfl⟩
    · split <;> exact ⟨rfl, rfl⟩

theorem cloneDirEntry_rest (im : Image) (newDir i : Nat) (s : Phys) : SameRegions s (cloneDirEntry im newDir i s).2 := by
  unfold cloneDirEntry
  simp only []
  split
  · exact ⟨rfl, rfl⟩
  split
  · exact ⟨rfl, rfl⟩
  split
  · exact ⟨rfl, rfl⟩
  · have hset : ∀ s2 : Phys, SameRegions s s2 → ∀ v, SameRegions s (s2.setWord newDir i v) := fun _ h _ => h
    have hze : SameRegions s (({ s with pmm := (pmmAlloc s.pmm).2 } : Phys).zeroFrame (frameIdx (pmmAlloc s.pmm).1)) :=
      ⟨rfl, rfl⟩
    exact hset _ (hze.trans (cloneTbl_rest _ _ pageEntries _)) _

theorem cloneDir_rest (im : Image) (newDir n : Nat) (s : Phys) : SameRegions s (cloneDir im newDir n s).2 := by
  induction n with
  | zero => exact ⟨rfl, rfl⟩
  | succ n ih =>
    rw [cloneDir]
    generalize cloneDir im newDir n s = c at ih
    obtain ⟨b, s1⟩ := c
    cases b with
    | false => exact ih
    | true => exact ih.trans (cloneDirEntry_rest im newDir n s1)

theorem pagingCloneDir_rest (im : Image) (s : Phys) : SameRegions s (s.pagingCloneDir im).2 := by
  unfold pagingCloneDir
  simp only []
  split
  · exact ⟨rfl, rfl⟩
  have h := cloneDir_rest im (frameIdx (pmmAlloc s.pmm).1) pageEntries
    (({ s with pmm := (pmmAlloc s.pmm).2 } : Phys).zeroFrame (frameIdx (pmmAlloc s.pmm).1))
  generalize cloneDir im (frameIdx (pmmAlloc s.pmm).1) pageEntries _ = c at h
  obtain ⟨b, s1⟩ := c
  cases b <;> exact h

end Phys

end KumOS.Paging
