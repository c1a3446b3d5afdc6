import KumOS.Paging.Clone

/-!
# Who owns a frame

Directories, tables and pages are made from one pool of frames.  `Owned` says that
no frame of the pool has two uses, and that a frame in use is counted; the first
16 MB are mapped to themselves by the tables of the kernel image.  Every step of
the paging code that maps a frame of its own restores it.  So the tables are a
map from pages to frames: a step changes the translation of one page.
-/

namespace KumOS.Paging

open Lib
open Vm (pageDirIdx pageTblIdx)

variable {d flags i p t va x : Nat}

/-- What a frame is used for: a cloned directory, table `d` of directory `D`, page `i` of that table. -/
inductive Use
  | dir (D : Nat)
  | table (D d : Nat)
  | page (D d i : Nat)
deriving DecidableEq

namespace Phys

def frameOf (s : Phys) : Use → Nat
  | .dir D => D
  | .table D d => s.word D d / pageSize
  | .page D d i => s.word (s.word D d / pageSize) i / pageSize

/-- `page_dir` has its own tables from 16 MB on, a clone from 1 GB on. -/
def firstOwn (im : Image) (D : Nat) : Nat := if D = im.pageDir then 4 else 256

/-- Directory `D` has a table of its own in entry `d`. -/
structure HasTable (im : Image) (clones : List Nat) (s : Phys) (D d : Nat) : Prop where
  dir : D = im.pageDir ∨ D ∈ clones
  own : firstOwn im D ≤ d
  lt : d < 1024
  ne : s.word D d ≠ 0

def Live (im : Image) (clones : List Nat) (s : Phys) : Use → Prop
  | .dir D => D ∈ clones
  | .table D d => HasTable im clones s D d
  | .page D d i => HasTable im clones s D d ∧ i < 1024 ∧ s.word (s.word D d / pageSize) i ≠ 0

/-- A frame in use is one of the pool, is counted, and has one use. -/
structure Tracked (im : Image) (clones : List Nat) (s : Phys) : Prop where
  range : ∀ u, Live im clones s u → 0x500 ≤ s.frameOf u ∧ s.frameOf u < 65536
  refs : ∀ u, Live im clones s u → s.pmm.refs (s.frameOf u) ≠ 0
  inj : ∀ u v, Live im clones s u → Live im clones s v → s.frameOf u = s.frameOf v → u = v

structure Owned (im : Image) (clones : List Nat) (s : Phys) : Prop extends Tracked im clones s where
  base : s.pmm.baseFrame = 0x100
  /-- the frames of the kernel image are never free -/
  held : ∀ f, 0x100 ≤ f → f < 0x500 → s.pmm.refs f ≠ 0
  /-- the first 16 MB are mapped to themselves -/
  low : ∀ d < 4, s.word im.pageDir d = (im.kernTables + d) * pageSize + 3
  kern : ∀ t < 4, ∀ p < 1024, s.word (im.kernTables + t) p = (t * 1024 + p) * pageSize + 3
  /-- an entry is present or 0 -/
  table : ∀ D d, HasTable im clones s D d → s.word D d % pageSize = 3
  page : ∀ D d i, Live im clones s (.page D d i) → s.word (s.word D d / pageSize) i % 2 = pagePresent
  /-- below 1 GB a clone has the tables of `page_dir` -/
  shared : ∀ D ∈ clones, ∀ d < 256, s.word D d = 0 ∨ s.word D d = s.word im.pageDir d

section

variable {im : Image} {clones : List Nat} {s s' : Phys}

/-- The uses of `s'` are uses of `s`, or new ones with frames that `s` did not use. -/
theorem Tracked.transfer {clones' : List Nat} (h : Tracked im clones s) (new : Use → Prop)
    (hold : ∀ u, Live im clones' s' u → ¬ new u → Live im clones s u ∧ s'.frameOf u = s.frameOf u)
    (hrf : ∀ u, Live im clones s u → ¬ new u → s'.pmm.refs (s.frameOf u) ≠ 0)
    (hnew : ∀ u, Live im clones' s' u → new u → 0x500 ≤ s'.frameOf u ∧ s'.frameOf u < 65536 ∧
      s'.pmm.refs (s'.frameOf u) ≠ 0 ∧ ∀ v, Live im clones s v → ¬ new v → s.frameOf v ≠ s'.frameOf u)
    (hinj : ∀ u v, Live im clones' s' u → Live im clones' s' v → new u → new v → s'.frameOf u = s'.frameOf v → u = v) :
    Tracked im clones' s' := by
  refine ⟨fun u hu => ?_, fun u hu => ?_, fun u v hu hv he => ?_⟩
  · by_cases hn : new u
    · exact ⟨(hnew u hu hn).1, (hnew u hu hn).2.1⟩
    · rw [(hold u hu hn).2]
      exact h.range u (hold u hu hn).1
  · by_cases hn : new u
    · exact (hnew u hu hn).2.2.1
    · rw [(hold u hu hn).2]
      exact hrf u (hold u hu hn).1 hn
  · by_cases hnu : new u
    · by_cases hnv : new v
      · exact hinj u v hu hv hnu hnv he
      · rw [(hold v hv hnv).2] at he
        exact absurd he.symm ((hnew u hu hnu).2.2.2 v (hold v hv hnv).1 hnv)
    · rw [(hold u hu hnu).2] at he
      by_cases hnv : new v
      · exact absurd he ((hnew v hv hnv).2.2.2 u (hold u hu hnu).1 hnu)
      · rw [(hold v hv hnv).2] at he
        exact h.inj u v (hold u hu hnu).1 (hold v hv hnv).1 he

theorem firstOwn_kernel (im : Image) : firstOwn im im.pageDir = 4 := if_pos rfl

theorem Owned.ne_image (h : Owned im clones s) {u : Use} (hu : Live im clones s u) {f : Nat} (hf : f < 0x500) :
    f ≠ s.frameOf u := by
  have := (h.range u hu).1
  omega

theorem Owned.dir_ne (h : Owned im clones s) {D D' : Nat} (ht : HasTable im clones s D d)
    (hD : D' = im.pageDir ∨ D' ∈ clones) : D' ≠ s.word D d / pageSize := by
  have hlv : Live im clones s (.table D d) := ht
  rcases hD with rfl | hD
  · exact h.ne_image hlv im.dir_image.2
  · intro he
    have := h.inj (.dir D') (.table D d) hD hlv he
    cases this

theorem Owned.table_ne (h : Owned im clones s) {D D' d' : Nat} (ht : HasTable im clones s D d)
    (ht' : HasTable im clones s D' d') (hne : ¬ (D' = D ∧ d' = d)) :
    s.word D' d' / pageSize ≠ s.word D d / pageSize := by
  intro he
  have := h.inj (.table D' d') (.table D d) ht' ht he
  cases this
  exact hne ⟨rfl, rfl⟩

theorem kern_lt (im : Image) (ht : t < 4) : im.kernTables + t < 0x500 := by
  have := im.tables_image
  omega

/-! ## Steps that change some entries -/

/-- The entries of directories and tables are what they were, those of the uses in `new` apart. -/
structure SameUses (im : Image) (clones : List Nat) (new : Use → Prop) (s s' : Phys) : Prop where
  dir : ∀ D d, D = im.pageDir ∨ D ∈ clones → ¬ new (.table D d) → s'.word D d = s.word D d
  page : ∀ D d i, HasTable im clones s D d → ¬ new (.page D d i) →
    s'.word (s.word D d / pageSize) i = s.word (s.word D d / pageSize) i
  kern : ∀ t < 4, ∀ p, s'.word (im.kernTables + t) p = s.word (im.kernTables + t) p
  table_page : ∀ D d i, new (.table D d) → new (.page D d i)

section

variable {new : Use → Prop} {D : Nat}

theorem SameUses.pte (h : SameUses im clones new s s') (ht : HasTable im clones s D d) (hn : ¬ new (.page D d i)) :
    s'.word (s'.word D d / pageSize) i = s.word (s.word D d / pageSize) i := by
  rw [h.dir D d ht.dir fun hc => hn (h.table_page D d i hc)]
  exact h.page D d i ht hn

theorem SameUses.hasTable (h : SameUses im clones new s s') (hn : ¬ new (.table D d)) :
    HasTable im clones s' D d ↔ HasTable im clones s D d := by
  constructor
  · intro ht
    exact ⟨ht.dir, ht.own, ht.lt, h.dir D d ht.dir hn ▸ ht.ne⟩
  · intro ht
    exact ⟨ht.dir, ht.own, ht.lt, (h.dir D d ht.dir hn).symm ▸ ht.ne⟩

theorem SameUses.live (h : SameUses im clones new s s') (u : Use) (hn : ¬ new u) :
    Live im clones s' u ↔ Live im clones s u := by
  cases u with
  | dir D => exact Iff.rfl
  | table D d => exact h.hasTable hn
  | page D d i =>
    have hHas := h.hasTable fun hc => hn (h.table_page D d i hc)
    constructor
    · rintro ⟨ht, hi, hne⟩
      have ht := hHas.1 ht
      exact ⟨ht, hi, h.pte ht hn ▸ hne⟩
    · rintro ⟨ht, hi, hne⟩
      exact ⟨hHas.2 ht, hi, (h.pte ht hn).symm ▸ hne⟩

theorem SameUses.frameOf (h : SameUses im clones new s s') (u : Use) (hn : ¬ new u) (hu : Live im clones s u) :
    s'.frameOf u = s.frameOf u := by
  cases u with
  | dir D => rfl
  | table D d => exact congrArg (· / pageSize) (h.dir D d (HasTable.dir hu) hn)
  | page D d i => exact congrArg (· / pageSize) (h.pte hu.1 hn)

/-- At most one use is new, and has a frame that was not used. -/
theorem Owned.change (h : Owned im clones s) (hsm : SameUses im clones new s s')
    (hbs : s'.pmm.baseFrame = s.pmm.baseFrame) (hheld : ∀ f, 0x100 ≤ f → f < 0x500 → s'.pmm.refs f ≠ 0)
    (hrf : ∀ u, Live im clones s u → ¬ new u → s'.pmm.refs (s.frameOf u) ≠ 0)
    (hnew : ∀ u, Live im clones s' u → new u → 0x500 ≤ s'.frameOf u ∧ s'.frameOf u < 65536 ∧
      s'.pmm.refs (s'.frameOf u) ≠ 0 ∧ ∀ v, Live im clones s v → ¬ new v → s.frameOf v ≠ s'.frameOf u)
    (hone : ∀ u v, Live im clones s' u → Live im clones s' v → new u → new v → u = v)
    (htb : ∀ D d, HasTable im clones s' D d → new (.table D d) → s'.word D d % pageSize = 3)
    (hpg : ∀ D d i, Live im clones s' (.page D d i) → new (.page D d i) →
      s'.word (s'.word D d / pageSize) i % 2 = pagePresent)
    (hlow : ∀ d < 4, ¬ new (.table im.pageDir d))
    (hsh : ∀ D ∈ clones, ∀ d < 256, s'.word D d = 0 ∨ s'.word D d = s'.word im.pageDir d) : Owned im clones s' := by
  have htracked : Tracked im clones s' := by
    refine h.toTracked.transfer new (fun u hu hn => ?_) hrf hnew fun u v hu hv hnu hnv _ => hone u v hu hv hnu hnv
    have hu := (hsm.live u hn).1 hu
    exact ⟨hu, hsm.frameOf u hn hu⟩
  refine ⟨htracked, hbs.trans h.base, hheld, fun d hd => ?_, fun t ht p hp => ?_, fun D d ht => ?_, fun D d i hu => ?_, hsh⟩
  · rw [hsm.dir _ _ (.inl rfl) (hlow d hd)]
    exact h.low d hd
  · rw [hsm.kern t ht]
    exact h.kern t ht p hp
  · by_cases hn : new (.table D d)
    · exact htb D d ht hn
    · rw [hsm.dir D d ht.dir hn]
      exact h.table D d ((hsm.hasTable hn).1 ht)
  · by_cases hn : new (.page D d i)
    · exact hpg D d i hu hn
    · have hu := (hsm.live _ hn).1 hu
      rw [hsm.pte hu.1 hn]
      exact h.page D d i hu

end

/-- A change that leaves the entries of directories and tables, and the counts of frames in use. -/
theorem Owned.congr (h : Owned im clones s) (s' : Phys) (hdir : ∀ D, D = im.pageDir ∨ D ∈ clones → s'.mem D = s.mem D)
    (hkern : ∀ t < 4, s'.mem (im.kernTables + t) = s.mem (im.kernTables + t))
    (htb : ∀ D d, HasTable im clones s D d → s'.mem (s.word D d / pageSize) = s.mem (s.word D d / pageSize))
    (hbs : s'.pmm.baseFrame = s.pmm.baseFrame) (hheld : ∀ f, 0x100 ≤ f → f < 0x500 → s'.pmm.refs f ≠ 0)
    (hrf : ∀ u, Live im clones s u → s'.pmm.refs (s.frameOf u) ≠ 0) :
    Owned im clones s' ∧ (∀ u, Live im clones s' u ↔ Live im clones s u) ∧
      ∀ u, Live im clones s u → s'.frameOf u = s.frameOf u := by
  have hw : ∀ D d, D = im.pageDir ∨ D ∈ clones → s'.word D d = s.word D d := fun D d hD => word_congr (hdir D hD) d
  have hsm : SameUses im clones (fun _ => False) s s' :=
    ⟨fun D d hD _ => hw D d hD, fun D d i ht _ => word_congr (htb D d ht) i, fun t ht p => word_congr (hkern t ht) p,
      fun _ _ _ hn => hn⟩
  refine ⟨h.change hsm hbs hheld (fun u hu _ => hrf u hu) (fun _ _ hn => hn.elim) (fun _ _ _ _ hn => hn.elim)
    (fun _ _ _ hn => hn.elim) (fun _ _ _ _ hn => hn.elim) (fun _ _ hn => hn) fun D hD d hd => ?_,
    fun u => hsm.live u id, fun u hu => hsm.frameOf u id hu⟩
  rw [hw D d (.inr hD), hw _ d (.inl rfl)]
  exact h.shared D hD d hd

/-! ## Frames that are handed out -/

/-- A frame that `pmm_alloc` has handed out and that is not used yet. -/
structure Spare (im : Image) (clones : List Nat) (s : Phys) (p : Nat) : Prop where
  ge : 0x500 ≤ p
  lt : p < 65536
  refs : s.pmm.refs p ≠ 0
  unused : ∀ u, Live im clones s u → s.frameOf u ≠ p

theorem Owned.free (h : Owned im clones s) (hp : s.pmm.Free p) :
    0x500 ≤ p ∧ ∀ u, Live im clones s u → s.frameOf u ≠ p := by
  constructor
  · have hge := hp.ge
    rw [h.base] at hge
    apply Nat.le_of_not_lt
    intro hlt
    exact h.held p hge hlt hp.zero
  · rintro u hu rfl
    exact h.refs u hu hp.zero

theorem take_refs_ne_zero {p : Pmm} {f : Nat} (hf : p.refs f ≠ 0) : (p.take i).refs f ≠ 0 := by
  by_cases hfi : f = i
  · rw [hfi, p.take_refs_self]
    decide
  · rw [p.take_refs_ne hfi]
    exact hf

theorem Owned.take (h : Owned im clones s) (hp : s.pmm.Free p) :
    Owned im clones (s.take p) ∧ Spare im clones (s.take p) p := by
  obtain ⟨hge, hunused⟩ := h.free hp
  obtain ⟨hown, hlv, -⟩ := h.congr (s.take p) (fun _ _ => rfl) (fun _ _ => rfl)
    (fun _ _ _ => rfl) rfl (fun f h1 h2 => take_refs_ne_zero (h.held f h1 h2)) fun u hu => take_refs_ne_zero (h.refs u hu)
  refine ⟨hown, hge, hp.max, ?_, fun u hu => hunused u ((hlv u).1 hu)⟩
  rw [Pmm.take_refs_self]
  decide

/-! ## Table entries -/

section

variable {w : Nat} {q : Pmm}

/-- What changes when entry `i` of table `d` of `page_dir` is written. -/
theorem Owned.words_setPte (h : Owned im clones s) (ht : HasTable im clones s im.pageDir d) (hw : w < 2 ^ 32) :
    let s' := ({ s with pmm := q }).setWord (s.word im.pageDir d / pageSize) i w
    (∀ D e, D = im.pageDir ∨ D ∈ clones → s'.word D e = s.word D e) ∧ SameUses im clones (· = .page im.pageDir d i) s s' ∧
      s'.word (s.word im.pageDir d / pageSize) i = w := by
  intro s'
  have hdir : ∀ D e, D = im.pageDir ∨ D ∈ clones → s'.word D e = s.word D e :=
    fun D e hD => word_setWord_ne _ _ (.inl (h.dir_ne ht hD))
  refine ⟨hdir, ⟨fun D e hD _ => hdir D e hD, fun D e j hte hne => ?_, fun t htt p => ?_, fun _ _ _ hc => nomatch hc⟩,
    word_setWord_self _ hw⟩
  · refine word_setWord_ne _ _ ?_
    by_cases hde : D = im.pageDir ∧ e = d
    · exact .inr fun hj => hne (by rw [hde.1, hde.2, hj])
    · exact .inl (h.table_ne ht hte hde)
  · exact word_setWord_ne _ _ (.inl (h.ne_image (u := .table im.pageDir d) ht (kern_lt im htt)))

theorem Owned.setPte (h : Owned im clones s) (ht : HasTable im clones s im.pageDir d) (hw : w < 2 ^ 32)
    (hnew : w ≠ 0 → w % 2 = pagePresent ∧ 0x500 ≤ w / pageSize ∧ w / pageSize < 65536 ∧ q.refs (w / pageSize) ≠ 0 ∧
      ∀ u, Live im clones s u → u ≠ .page im.pageDir d i → s.frameOf u ≠ w / pageSize)
    (hbs : q.baseFrame = s.pmm.baseFrame) (hheld : ∀ f, 0x100 ≤ f → f < 0x500 → q.refs f ≠ 0)
    (hrf : ∀ u, Live im clones s u → u ≠ .page im.pageDir d i → q.refs (s.frameOf u) ≠ 0) :
    Owned im clones (({ s with pmm := q }).setWord (s.word im.pageDir d / pageSize) i w) := by
  obtain ⟨hdir, hsm, hsf⟩ := h.words_setPte ht hw
  generalize hs' : ({ s with pmm := q }).setWord (s.word im.pageDir d / pageSize) i w = s' at *
  have hpmm : s'.pmm = q := by rw [← hs']; rfl
  have hpte : s'.word (s'.word im.pageDir d / pageSize) i = w := by
    rw [hdir _ _ (.inl rfl)]
    exact hsf
  have het : s'.frameOf (.page im.pageDir d i) = w / pageSize := congrArg (· / pageSize) hpte
  have hentry0 : Live im clones s' (.page im.pageDir d i) → w ≠ 0 := by
    rintro ⟨-, -, hne⟩
    rwa [hpte] at hne
  refine h.change hsm (by rw [hpmm, hbs]) (by rwa [hpmm]) (by rwa [hpmm]) ?_ ?_ (fun _ _ _ hc => nomatch hc) ?_
    (fun _ _ hc => nomatch hc) fun D hD e he => ?_
  · rintro u hu rfl
    obtain ⟨-, h1, h2, h3, h4⟩ := hnew (hentry0 hu)
    rw [het, hpmm]
    exact ⟨h1, h2, h3, h4⟩
  · rintro u v - - rfl rfl
    rfl
  · rintro D e j hu ⟨⟩
    rw [hpte]
    exact (hnew (hentry0 hu)).1
  · rw [hdir D e (.inr hD), hdir _ e (.inl rfl)]
    exact h.shared D hD e he

end

/-! ## New tables -/

/-- The frame `t` becomes table `d` of `page_dir`. -/
def newTable (im : Image) (s : Phys) (d t : Nat) : Phys :=
  (({ s with pmm := s.pmm.take t }).zeroFrame t).setWord im.pageDir d (t * pageSize + 3)

section

theorem Owned.words_newTable (h : Owned im clones s) (ht : s.pmm.Free t) :
    (∀ e, (s.newTable im d t).word im.pageDir e = if e = d then t * pageSize + 3 else s.word im.pageDir e) ∧
      (∀ D ∈ clones, (s.newTable im d t).mem D = s.mem D) ∧
      SameUses im clones (fun u => u = .table im.pageDir d ∨ ∃ j, u = .page im.pageDir d j) s (s.newTable im d t) ∧
      ∀ j, (s.newTable im d t).word t j = 0 := by
  obtain ⟨hge, hunused⟩ := h.free ht
  have hK : im.pageDir ≠ t := by
    have := im.dir_image
    omega
  have hmem : ∀ f, f ≠ t → f ≠ im.pageDir → (s.newTable im d t).mem f = s.mem f := by
    intro f hft hfK
    unfold newTable
    rw [mem_setWord_ne _ hfK, mem_zeroFrame_ne _ hft]
  have hclone : ∀ D ∈ clones, (s.newTable im d t).mem D = s.mem D := by
    intro D hD
    have hlv : Live im clones s (.dir D) := hD
    exact hmem D (hunused _ hlv) (h.ne_image hlv im.dir_image.2).symm
  have hdir : ∀ e, (s.newTable im d t).word im.pageDir e = if e = d then t * pageSize + 3 else s.word im.pageDir e := by
    intro e
    unfold newTable
    by_cases he : e = d
    · rw [if_pos he, he, word_setWord_self]
      have := ht.max
      unfold pageSize
      omega
    · rw [if_neg he, word_setWord_ne _ _ (.inr he)]
      exact word_congr (mem_zeroFrame_ne _ hK) e
  refine ⟨hdir, hclone, ⟨fun D e hD hn => ?_, fun D e j hte _ => ?_, fun k hk p => ?_, ?_⟩, fun j => ?_⟩
  · rcases hD with rfl | hD
    · rw [hdir, if_neg fun he => hn (.inl (by rw [he]))]
    · exact word_congr (hclone D hD) e
  · have hlv : Live im clones s (.table D e) := hte
    exact word_congr (hmem _ (hunused _ hlv) (h.ne_image hlv im.dir_image.2).symm) j
  · have hk := kern_lt im hk
    have := im.apart
    exact word_congr (hmem _ (by omega) (by omega)) p
  · rintro D e j (⟨⟨⟩⟩ | ⟨_, ⟨⟩⟩)
    exact .inr ⟨j, rfl⟩
  · unfold newTable
    rw [word_setWord_ne _ _ (.inl (Ne.symm hK)), word_zeroFrame_self]

theorem Owned.newTable (h : Owned im clones s) (ht : s.pmm.Free t) (hd : 4 ≤ d) (hlt : d < 1024)
    (h0 : s.word im.pageDir d = 0) :
    Owned im clones (s.newTable im d t) ∧ HasTable im clones (s.newTable im d t) im.pageDir d ∧
      (∀ D e, HasTable im clones (s.newTable im d t) D e → HasTable im clones s D e ∨ D = im.pageDir ∧ e = d) ∧
      ∀ p, Spare im clones s p → Spare im clones (s.newTable im d t) p := by
  obtain ⟨hge, hunused⟩ := h.free ht
  obtain ⟨hdir, hclone, hsm, hze⟩ := h.words_newTable ht
  have hpmm : (s.newTable im d t).pmm = s.pmm.take t := rfl
  generalize s.newTable im d t = s' at *
  have hsf : s'.word im.pageDir d = t * pageSize + 3 := by rw [hdir, if_pos rfl]
  have hdiv : s'.word im.pageDir d / pageSize = t := by
    rw [hsf]
    unfold pageSize
    omega
  have hnopage : ∀ j, ¬ Live im clones s' (.page im.pageDir d j) := by
    rintro j ⟨-, -, hj⟩
    rw [hdiv] at hj
    exact hj (hze j)
  have hfe : s'.frameOf (.table im.pageDir d) = t := hdiv
  -- the new table has no pages, so it is the one new use
  have hone : ∀ u, Live im clones s' u → (u = .table im.pageDir d ∨ ∃ j, u = .page im.pageDir d j) →
      u = .table im.pageDir d := by
    rintro u hu (rfl | ⟨j, rfl⟩)
    · rfl
    · exact absurd hu (hnopage j)
  have hold : ∀ u, Live im clones s' u → u ≠ .table im.pageDir d → Live im clones s u ∧ s'.frameOf u = s.frameOf u := by
    intro u hu hn
    have hn := fun hc => hn (hone u hu hc)
    have hu := (hsm.live u hn).1 hu
    exact ⟨hu, hsm.frameOf u hn hu⟩
  refine ⟨h.change hsm (by rw [hpmm]; rfl) (fun f h1 h2 => ?_) (fun u hu _ => ?_) (fun u hu hn => ?_)
    (fun u v hu hv hnu hnv => (hone u hu hnu).trans (hone v hv hnv).symm) (fun D e hte hn => ?_)
    (fun D e j hu hn => nomatch hone _ hu hn) ?_ fun D hD e he => ?_,
    ⟨.inl rfl, ?_, hlt, ?_⟩, fun D e hte => ?_, fun p hp => ⟨hp.ge, hp.lt, ?_, fun u hu => ?_⟩⟩
  · rw [hpmm]
    exact take_refs_ne_zero (h.held f h1 h2)
  · rw [hpmm]
    exact take_refs_ne_zero (h.refs u hu)
  · rw [hone u hu hn, hfe, hpmm, Pmm.take_refs_self]
    exact ⟨hge, ht.max, by decide, fun v hv _ => hunused v hv⟩
  · cases hone (.table D e) hte hn
    rw [hsf]
    unfold pageSize
    omega
  · rintro e he (⟨⟨⟩⟩ | ⟨_, ⟨⟩⟩)
    omega
  · -- a clone cannot have had an entry that `page_dir` has not
    rw [word_congr (hclone D hD), hdir]
    rcases h.shared D hD e he with hz | hs
    · exact .inl hz
    by_cases hed : e = d
    · rw [hs, hed]
      exact .inl h0
    · rw [if_neg hed]
      exact .inr hs
  · rw [firstOwn_kernel]
    exact hd
  · omega
  · by_cases hut : Use.table D e = .table im.pageDir d
    · cases hut
      exact .inr ⟨rfl, rfl⟩
    · exact .inl (hold (.table D e) hte hut).1
  · rw [hpmm]
    exact take_refs_ne_zero hp.refs
  · by_cases hut : u = .table im.pageDir d
    · rw [hut, hfe]
      rintro rfl
      exact hp.refs ht.zero
    · rw [(hold u hu hut).2]
      exact hp.unused u (hold u hu hut).1

end

/-! ## Walks -/

/-- An entry of `page_dir` is present or 0. -/
theorem Owned.dir_present (h : Owned im clones s) (hd : d < 1024) (h0 : s.word im.pageDir d ≠ 0) :
    s.word im.pageDir d % 2 = pagePresent := by
  by_cases hlow : d < 4
  · rw [h.low d hlow]
    unfold pageSize pagePresent
    omega
  have := h.table im.pageDir d ⟨.inl rfl, by rw [firstOwn_kernel]; omega, hd, h0⟩
  unfold pageSize at this
  unfold pagePresent
  omega

theorem Owned.walk_eq (h : Owned im clones s) (hva : va < 2 ^ 32) : s.walk im.pageDir va =
    if s.word im.pageDir (pageDirIdx va) = 0 then 0
    else s.word (s.word im.pageDir (pageDirIdx va) / pageSize) (pageTblIdx va) := by
  unfold walk
  by_cases h0 : s.word im.pageDir (pageDirIdx va) = 0
  · rw [if_pos h0, h0, if_neg (by decide)]
  · rw [if_neg h0, if_pos (h.dir_present (pageDirIdx_lt hva) h0)]

theorem Owned.walk_low (h : Owned im clones s) (hva : va < 0x1000000) :
    s.walk im.pageDir va = va / pageSize * pageSize + 3 := by
  have hd : pageDirIdx va < 4 := by
    unfold pageDirIdx
    omega
  have hdiv : ((im.kernTables + pageDirIdx va) * pageSize + 3) / pageSize = im.kernTables + pageDirIdx va := by
    unfold pageSize
    omega
  rw [h.walk_eq (by omega), h.low _ hd, if_neg (by omega), hdiv, h.kern _ hd _ (pageTblIdx_lt va)]
  unfold pageDirIdx pageTblIdx pageEntries pageSize
  omega

theorem hasTable_kernel (hd : 4 ≤ d) (hlt : d < 1024) (h0 : s.word im.pageDir d ≠ 0) :
    HasTable im clones s im.pageDir d := ⟨.inl rfl, by rw [firstOwn_kernel]; exact hd, hlt, h0⟩

theorem SameUses.walk {new : Use → Prop} (hsm : SameUses im clones new s s') (h : Owned im clones s)
    (h' : Owned im clones s') (hva : va < 2 ^ 32) (hn : ¬ new (.page im.pageDir (pageDirIdx va) (pageTblIdx va))) :
    s'.walk im.pageDir va = s.walk im.pageDir va := by
  rw [h'.walk_eq hva, h.walk_eq hva, hsm.dir _ _ (.inl rfl) fun hc => hn (hsm.table_page _ _ _ hc)]
  by_cases h0 : s.word im.pageDir (pageDirIdx va) = 0
  · rw [if_pos h0, if_pos h0]
  rw [if_neg h0, if_neg h0]
  by_cases hlow : pageDirIdx va < 4
  · have hdiv : s.word im.pageDir (pageDirIdx va) / pageSize = im.kernTables + pageDirIdx va := by
      rw [h.low _ hlow]
      unfold pageSize
      omega
    rw [hdiv, hsm.kern _ hlow]
  · exact hsm.page _ _ _ (hasTable_kernel (by omega) (pageDirIdx_lt hva) h0) hn

theorem Owned.walk_setPte (h : Owned im clones s) {w : Nat} {q : Pmm} (ht : HasTable im clones s im.pageDir d)
    (hw : w < 2 ^ 32) (h' : Owned im clones (({ s with pmm := q }).setWord (s.word im.pageDir d / pageSize) i w))
    (hva : va < 2 ^ 32) :
    (({ s with pmm := q }).setWord (s.word im.pageDir d / pageSize) i w).walk im.pageDir va =
      if pageDirIdx va = d ∧ pageTblIdx va = i then w else s.walk im.pageDir va := by
  obtain ⟨hdir, hsm, hsf⟩ := h.words_setPte ht hw
  by_cases hc : pageDirIdx va = d ∧ pageTblIdx va = i
  · rw [if_pos hc, h'.walk_eq hva, hdir _ _ (.inl rfl), hc.1, hc.2, if_neg ht.ne, hsf]
  · rw [if_neg hc]
    refine hsm.walk h h' hva ?_
    rintro ⟨⟩
    exact hc ⟨rfl, rfl⟩

theorem Owned.walk_newTable (h : Owned im clones s) (ht : s.pmm.Free t) (h0 : s.word im.pageDir d = 0)
    (h' : Owned im clones (s.newTable im d t)) (hva : va < 2 ^ 32) :
    (s.newTable im d t).walk im.pageDir va = s.walk im.pageDir va := by
  obtain ⟨hdir, -, hsm, hze⟩ := h.words_newTable ht
  by_cases hdi : pageDirIdx va = d
  · have hdiv : (t * pageSize + 3) / pageSize = t := by
      unfold pageSize
      omega
    rw [h'.walk_eq hva, h.walk_eq hva, hdir, if_pos hdi, if_neg (by omega), hdiv, hze, hdi, if_pos h0]
  · refine hsm.walk h h' hva ?_
    rintro (⟨⟨⟩⟩ | ⟨_, ⟨⟩⟩)
    exact hdi rfl

/-! ## `paging_map` -/

/-- A table for `va` is there, or has been made: nothing else has changed. -/
structure Grown (im : Image) (clones : List Nat) (s s1 : Phys) (va : Nat) : Prop where
  owned : Owned im clones s1
  table : HasTable im clones s1 im.pageDir (pageDirIdx va)
  walk : ∀ x < 2 ^ 32, s1.walk im.pageDir x = s.walk im.pageDir x
  spare : ∀ p, Spare im clones s p → Spare im clones s1 p
  clones : ∀ D ∈ clones, ∀ e, s1.word D e = s.word D e
  dir : ∀ e, s.word im.pageDir e ≠ 0 → s1.word im.pageDir e = s.word im.pageDir e
  rest : s1 = { s with mem := s1.mem, pmm := s1.pmm }

theorem Owned.ptePtrAlloc (h : Owned im clones s) (hge : 0x1000000 ≤ va) (hva : va < 2 ^ 32) :
    (s.ptePtrAlloc im va = (none, s) ∧ s.word im.pageDir (pageDirIdx va) = 0 ∧ ∀ t, ¬ s.pmm.Free t) ∨
      ∃ s1, s.ptePtrAlloc im va = (some (s1.word im.pageDir (pageDirIdx va) / pageSize, pageTblIdx va), s1) ∧
        Grown im clones s s1 va := by
  have hd : 4 ≤ pageDirIdx va := by
    unfold pageDirIdx
    omega
  have hlt := pageDirIdx_lt hva
  unfold Phys.ptePtrAlloc
  simp only []
  by_cases h0 : s.word im.pageDir (pageDirIdx va) = 0
  · rw [h0, if_neg (by decide)]
    rcases pmmAlloc_cases s.pmm with ⟨he, hno⟩ | ⟨t, ht, -, he⟩
    · rw [he, if_pos rfl]
      exact .inl ⟨rfl, rfl, hno⟩
    have hne := ht.addr_ne (by have := h.base; omega)
    rw [he]
    simp only [if_neg hne, frameIdx_mul, or_present_write]
    obtain ⟨hown, htab, -, hspr⟩ := h.newTable ht hd hlt h0
    obtain ⟨hdir, hclone, -⟩ := h.words_newTable ht
    refine .inr ⟨s.newTable im (pageDirIdx va) t, rfl, hown, htab, fun x hx => h.walk_newTable ht h0 hown hx, hspr,
      fun D hD e => word_congr (hclone D hD) e, fun e he => ?_, rfl⟩
    rw [hdir, if_neg]
    rintro rfl
    exact he h0
  · rw [if_pos (h.dir_present hlt h0)]
    exact .inr ⟨s, rfl, h, hasTable_kernel hd hlt h0, fun _ _ => rfl, fun _ hp => hp, fun _ _ _ => rfl, fun _ _ => rfl, rfl⟩

/-- The entry `paging_map` writes. -/
def pteOf (p flags : Nat) : Nat := p * pageSize + (pagePresent ||| flags)

theorem pteOf_eq (p : Nat) (hf : flags < 4096) :
    p * pageSize / pageSize * pageSize ||| pagePresent ||| flags = pteOf p flags := by
  have hlt : pagePresent ||| flags < 4096 := Nat.or_lt_two_pow (n := 12) (by decide) hf
  rw [Nat.mul_div_cancel _ (by decide : 0 < pageSize), Nat.or_assoc]
  exact or_flags p hlt

theorem pteOf_props (hp : p < 65536) (hf : flags < 4096) : pteOf p flags % 2 = pagePresent ∧
    pteOf p flags / pageSize = p ∧ pteOf p flags % pageSize = pagePresent ||| flags ∧ pteOf p flags < 2 ^ 32 := by
  have hlt : pagePresent ||| flags < 4096 := Nat.or_lt_two_pow (n := 12) (by decide) hf
  have hodd : (pagePresent ||| flags) % 2 = 1 := by
    have := Nat.or_mod_two_pow (a := pagePresent) (b := flags) (n := 1)
    rw [this]
    rcases Nat.mod_two_eq_zero_or_one flags with hm | hm <;> rw [hm] <;> rfl
  unfold pteOf pagePresent pageSize at *
  omega

section

variable {s1 : Phys}
  (he : s.ptePtrAlloc im va = (some (s1.word im.pageDir (pageDirIdx va) / pageSize, pageTblIdx va), s1))
include he

theorem pagingMap_eq (addr flags : Nat) : s.pagingMap im va addr flags =
    (s1.setWord (s1.word im.pageDir (pageDirIdx va) / pageSize) (pageTblIdx va)
      (addr / pageSize * pageSize ||| pagePresent ||| flags)).ask va (some flags) := by
  unfold Phys.pagingMap
  rw [he]

/-- The entry goes to a table, not to the directory. -/
theorem Grown.word_pagingMap (hg : Grown im clones s s1 va) (addr flags d : Nat) :
    (s.pagingMap im va addr flags).word im.pageDir d = s1.word im.pageDir d := by
  rw [pagingMap_eq he]
  exact word_setWord_ne _ _ (.inl (hg.owned.dir_ne hg.table (.inl rfl)))

theorem Owned.same_of_table (h : Owned im clones s) (hva : va < 2 ^ 32)
    (h0 : s.word im.pageDir (pageDirIdx va) ≠ 0) : s1 = s := by
  unfold Phys.ptePtrAlloc at he
  rw [if_pos (h.dir_present (pageDirIdx_lt hva) h0)] at he
  injection he with _ hs1
  exact hs1.symm

end

section

variable (h : Owned im clones s)
include h

/-- `paging_map` of a spare frame: without a table nothing happens, otherwise the entry is written. -/
theorem Owned.pagingMap_cases (hge : 0x1000000 ≤ va) (hva : va < 2 ^ 32) (hf : flags < 4096) :
    (s.pagingMap im va (p * pageSize) flags = s ∧ (s.ptePtrAlloc im va).1 = none) ∨
      ∃ s1, Grown im clones s s1 va ∧ (s.ptePtrAlloc im va).1 ≠ none ∧ s.pagingMap im va (p * pageSize) flags =
        (s1.setWord (s1.word im.pageDir (pageDirIdx va) / pageSize) (pageTblIdx va) (pteOf p flags)).ask va (some flags) := by
  rcases h.ptePtrAlloc hge hva with ⟨he, -, -⟩ | ⟨s1, he, hg⟩
  · refine .inl ⟨?_, by rw [he]⟩
    unfold Phys.pagingMap
    rw [he]
  · refine .inr ⟨s1, hg, by rw [he]; exact Option.some_ne_none _, ?_⟩
    rw [pagingMap_eq he, ← pteOf_eq p hf]

theorem Owned.ask (va : Nat) (f : Option Nat) : Owned im clones (s.ask va f) :=
  (h.congr (s.ask va f) (fun _ _ => rfl) (fun _ _ => rfl) (fun _ _ _ => rfl) rfl h.held h.refs).1

/-- A spare frame is put into the entry of `va`. -/
theorem Owned.enter (hf : flags < 4096)
    (ht : HasTable im clones s im.pageDir (pageDirIdx va)) (hp : Spare im clones s p) :
    Owned im clones (s.setWord (s.word im.pageDir (pageDirIdx va) / pageSize) (pageTblIdx va) (pteOf p flags)) := by
  obtain ⟨hodd, hdiv, -, hw⟩ := pteOf_props hp.lt hf
  refine h.setPte ht hw (fun _ => ?_) rfl h.held fun u hu _ => h.refs u hu
  rw [hdiv]
  exact ⟨hodd, hp.ge, hp.lt, hp.refs, fun u hu _ => hp.unused u hu⟩

theorem Owned.pagingMap (hge : 0x1000000 ≤ va) (hva : va < 2 ^ 32) (hf : flags < 4096)
    (hp : Spare im clones s p) : Owned im clones (s.pagingMap im va (p * pageSize) flags) := by
  rcases h.pagingMap_cases hge hva hf with ⟨he, -⟩ | ⟨s1, hg, -, he⟩
  · rw [he]
    exact h
  · rw [he]
    exact (hg.owned.enter hf hg.table (hg.spare p hp)).ask va _

/-- What `paging_map` leaves of the directories. -/
theorem Owned.pagingMap_clone (hge : 0x1000000 ≤ va) (hva : va < 2 ^ 32)
    (hf : flags < 4096) : (∀ D ∈ clones, ∀ e, (s.pagingMap im va (p * pageSize) flags).word D e = s.word D e) ∧
      ∀ e, s.word im.pageDir e ≠ 0 → (s.pagingMap im va (p * pageSize) flags).word im.pageDir e = s.word im.pageDir e := by
  rcases h.pagingMap_cases hge hva hf with ⟨he, -⟩ | ⟨t, hg, -, he⟩
  · rw [he]
    exact ⟨fun _ _ _ => rfl, fun _ _ => rfl⟩
  rw [he]
  refine ⟨fun D hD e => ?_, fun e h0 => ?_⟩
  · exact (t.word_setWord_ne _ (.inl (hg.owned.dir_ne hg.table (.inr hD)))).trans (hg.clones D hD e)
  · exact (t.word_setWord_ne _ (.inl (hg.owned.dir_ne hg.table (.inl rfl)))).trans (hg.dir e h0)

end

/-- Two addresses are in the same page if their indices agree. -/
theorem same_page {y : Nat} :
    pageDirIdx x = pageDirIdx y ∧ pageTblIdx x = pageTblIdx y ↔ x / pageSize = y / pageSize := by
  unfold pageDirIdx pageTblIdx pageEntries pageSize
  omega

/-- The walks after `paging_map` with a table. -/
theorem Owned.walk_pagingMap (h : Owned im clones s) (hge : 0x1000000 ≤ va) (hva : va < 2 ^ 32)
    (hf : flags < 4096) (hp : Spare im clones s p) (htab : (s.ptePtrAlloc im va).1 ≠ none) (hx : x < 2 ^ 32) :
    (s.pagingMap im va (p * pageSize) flags).walk im.pageDir x =
      if x / pageSize = va / pageSize then pteOf p flags else s.walk im.pageDir x := by
  rcases h.pagingMap_cases hge hva hf with ⟨-, hno⟩ | ⟨s1, hg, -, he⟩
  · exact absurd hno htab
  have hown := hg.owned.enter hf hg.table (hg.spare p hp)
  have hwk := hg.owned.walk_setPte hg.table (pteOf_props hp.lt hf).2.2.2 hown hx
  rw [he]
  refine hwk.trans ?_
  rw [hg.walk x hx]
  by_cases hxy : x / pageSize = va / pageSize
  · rw [if_pos hxy, if_pos (same_page.2 hxy)]
  · rw [if_neg hxy, if_neg fun hc => hxy (same_page.1 hc)]

/-! ## `paging_unmap` -/

/-- The frame of a use is given back. -/
def giveBack (s : Phys) (u : Use) : Phys := { s with pmm := pmmFree s.pmm (s.frameOf u * pageSize) }

/-- `paging_unmap` of a page from 16 MB on: it is not mapped, or its entry is cleared and its frame given back. -/
theorem Owned.pagingUnmap_cases (h : Owned im clones s) (hge : 0x1000000 ≤ va) (hva : va < 2 ^ 32) :
    (s.pagingUnmap im va = s ∧ s.walk im.pageDir va % 2 ≠ pagePresent) ∨
      HasTable im clones s im.pageDir (pageDirIdx va) ∧
        Live im clones s (.page im.pageDir (pageDirIdx va) (pageTblIdx va)) ∧
        s.pagingUnmap im va = ((s.giveBack (.page im.pageDir (pageDirIdx va) (pageTblIdx va))).setWord
          (s.word im.pageDir (pageDirIdx va) / pageSize) (pageTblIdx va) 0).ask va none := by
  have hd : 4 ≤ pageDirIdx va := by
    unfold pageDirIdx
    omega
  have hlt := pageDirIdx_lt hva
  rw [h.walk_eq hva]
  unfold Phys.pagingUnmap Phys.ptePtr
  by_cases h0 : s.word im.pageDir (pageDirIdx va) = 0
  · rw [h0, if_neg (by decide), if_pos rfl]
    exact .inl ⟨rfl, by decide⟩
  rw [if_pos (h.dir_present hlt h0), if_neg h0]
  simp only []
  by_cases hpr : s.word (s.word im.pageDir (pageDirIdx va) / pageSize) (pageTblIdx va) % 2 = pagePresent
  · have ht : HasTable im clones s im.pageDir (pageDirIdx va) := hasTable_kernel hd hlt h0
    rw [if_neg fun hne => hne hpr]
    refine .inr ⟨ht, ⟨ht, pageTblIdx_lt va, fun hz => ?_⟩, rfl⟩
    rw [hz] at hpr
    cases hpr
  · rw [if_pos hpr]
    exact .inl ⟨rfl, hpr⟩

theorem Owned.leave (h : Owned im clones s) (ht : HasTable im clones s im.pageDir d)
    (hu : Live im clones s (.page im.pageDir d i)) :
    Owned im clones ((s.giveBack (.page im.pageDir d i)).setWord (s.word im.pageDir d / pageSize) i 0) := by
  have hrg := h.range _ hu
  have hrf : ∀ f, f ≠ s.frameOf (.page im.pageDir d i) →
      (pmmFree s.pmm (s.frameOf (.page im.pageDir d i) * pageSize)).refs f = s.pmm.refs f := by
    intro f hf
    rw [pmmFree_refs, frameIdx_mul, if_neg fun hc => hf hc.1]
  refine h.setPte ht (by decide) (absurd rfl) ?_ (fun f h1 h2 => ?_) fun u hl hne => ?_
  · exact (pmmFree_only _ _).base
  · rw [hrf f (by omega)]
    exact h.held f h1 h2
  · rw [hrf _ fun he => hne (h.inj u _ hl hu he)]
    exact h.refs u hl

theorem Owned.pagingUnmap (h : Owned im clones s) (hge : 0x1000000 ≤ va) (hva : va < 2 ^ 32) :
    Owned im clones (s.pagingUnmap im va) := by
  rcases h.pagingUnmap_cases hge hva with ⟨he, -⟩ | ⟨ht, hu, he⟩
  · rw [he]
    exact h
  · rw [he]
    exact (h.leave ht hu).ask va none

theorem Owned.walk_pagingUnmap (h : Owned im clones s) (hge : 0x1000000 ≤ va) (hva : va < 2 ^ 32)
    (hx : x < 2 ^ 32) : ((s.pagingUnmap im va).walk im.pageDir va % 2 ≠ pagePresent) ∧
      (x / pageSize ≠ va / pageSize → (s.pagingUnmap im va).walk im.pageDir x = s.walk im.pageDir x) := by
  rcases h.pagingUnmap_cases hge hva with ⟨he, hno⟩ | ⟨ht, hu, he⟩
  · rw [he]
    exact ⟨hno, fun _ => rfl⟩
  have hwk : ∀ y < 2 ^ 32, (s.pagingUnmap im va).walk im.pageDir y =
      if pageDirIdx y = pageDirIdx va ∧ pageTblIdx y = pageTblIdx va then 0 else s.walk im.pageDir y := by
    intro y hy
    rw [he]
    exact h.walk_setPte ht (by decide) (h.leave ht hu) hy
  constructor
  · rw [hwk va hva, if_pos ⟨rfl, rfl⟩]
    decide
  · intro hne
    rw [hwk x hx, if_neg fun hc => hne (same_page.1 hc)]

end

end Phys

end KumOS.Paging
