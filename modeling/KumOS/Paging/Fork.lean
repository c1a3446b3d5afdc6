import KumOS.Paging.Maps

/-!
# `fork` and user memory

The pages a process may use are those mapped with `PAGE_USER`.  A clone shares the
tables of the entries below 256, and it skips a page when there is no frame for its
copy.  So it isolates user memory exactly when every user page is mapped from 1 GB
on and had a frame for its copy (`clone_isolates_iff`).  The user stack of
`elf_spawn` ends at 1 GB: a store to it through one directory is seen through the
other (`stack_store_visible`).
-/

namespace KumOS.Paging

open Lib
open Vm (pageDirIdx pageTblIdx)
open Function (update update_self update_of_ne)

variable {f v x : Nat}

namespace Phys

/-! ## Loads and stores -/

/-- The byte `x` of frame `f` is written. -/
def poke (s : Phys) (f x : Nat) (b : UInt8) : Phys :=
  { s with mem := update s.mem f (update (s.mem f) x b) }

section

variable {s t : Phys} {D va : Nat}

theorem mem_poke_ne (s : Phys) {g : Nat} (h : g ≠ f) (x : Nat) (b : UInt8) : (s.poke f x b).mem g = s.mem g :=
  show update s.mem f _ g = _ from update_of_ne h ..

theorem mem_poke_self (s : Phys) (f x : Nat) (b : UInt8) : (s.poke f x b).mem f = update (s.mem f) x b :=
  show update s.mem f _ f = _ from update_self ..

theorem word_poke_ne (s : Phys) {i : Nat} (hx : x / 4 ≠ i) (b : UInt8) (g : Nat) :
    (s.poke f x b).word g i = s.word g i := by
  by_cases hg : g = f
  · subst hg
    have hbyte : ∀ k < 4, (s.poke g x b).mem g (4 * i + k) = s.mem g (4 * i + k) := by
      intro k hk
      rw [mem_poke_self, update_of_ne (by omega)]
    exact Bytes.get32_congr hbyte
  · exact word_congr (s.mem_poke_ne hg x b) i

section

variable (hp : s.walk D va % 2 = pagePresent)
include hp

theorem translate_split : s.translate D va = some (s.walk D va / pageSize * pageSize + va % pageSize) ∧
      frameIdx (s.walk D va / pageSize * pageSize + va % pageSize) = s.walk D va / pageSize ∧
      (s.walk D va / pageSize * pageSize + va % pageSize) % pageSize = va % pageSize := by
  refine ⟨translate_of_walk rfl hp, ?_, ?_⟩
  · unfold frameIdx pageSize
    omega
  · unfold pageSize
    omega

theorem load_eq : s.load D va = some (s.mem (s.walk D va / pageSize) (va % pageSize)) := by
  obtain ⟨ht, hf, ho⟩ := translate_split hp
  unfold load
  rw [ht, Option.map_some, hf, ho]

theorem store_eq (b : UInt8) : s.store D va b = some (s.poke (s.walk D va / pageSize) (va % pageSize) b) := by
  obtain ⟨ht, hf, ho⟩ := translate_split hp
  unfold store poke
  rw [ht, Option.map_some, hf, ho]

end

theorem walk_congr (hdir : t.word D (pageDirIdx va) = s.word D (pageDirIdx va))
    (htbl : t.word (s.word D (pageDirIdx va) / pageSize) (pageTblIdx va) =
      s.word (s.word D (pageDirIdx va) / pageSize) (pageTblIdx va)) : t.walk D va = s.walk D va := by
  unfold walk
  simp only []
  rw [hdir, htbl]

/-- A load depends on the directory, the table and the page. -/
theorem load_congr (hdir : t.mem D = s.mem D)
    (htbl : t.mem (s.word D (pageDirIdx va) / pageSize) = s.mem (s.word D (pageDirIdx va) / pageSize))
    (hpg : t.mem (s.walk D va / pageSize) = s.mem (s.walk D va / pageSize)) : t.load D va = s.load D va := by
  have hw : t.walk D va = s.walk D va := walk_congr (word_congr hdir _) (word_congr htbl _)
  by_cases hp : s.walk D va % 2 = pagePresent
  · rw [load_eq hp, load_eq (by rw [hw]; exact hp), hw, hpg]
  · unfold load translate
    rw [hw, if_neg hp]
    rfl

end

/-! ## Isolation -/

/-- A page that is mapped with `PAGE_USER`. -/
structure UserPage (im : Image) (s : Phys) (va : Nat) : Prop where
  lt : va < 2 ^ 32
  present : s.walk im.pageDir va % 2 = pagePresent
  user : s.walk im.pageDir va / pageUser % 2 = 1

/-- User memory of `page_dir` in `s` and of the directory `dir`, its clone in `s'`: the same pages with the same
contents, and a store to one is not seen in the other. -/
structure Isolated (im : Image) (s s' : Phys) (dir : Nat) : Prop where
  flags : ∀ va, UserPage im s va → s'.walk dir va % pageSize = s.walk im.pageDir va % pageSize
  contents : ∀ va, UserPage im s va → s'.load dir va = s.load im.pageDir va
  parent : ∀ va wa b t, UserPage im s va → UserPage im s wa → s'.store im.pageDir va b = some t →
    t.load dir wa = s'.load dir wa
  child : ∀ va wa b t, UserPage im s va → UserPage im s wa → s'.store dir va b = some t →
    t.load im.pageDir wa = s'.load im.pageDir wa

/-- There is a frame for the copy of the page of `va`, after everything that is copied before it. -/
def FrameForCopy (im : Image) (s : Phys) (va : Nat) : Prop :=
  demand im s (pageDirIdx va) + 2 +
    tally (s.inTable (s.word im.pageDir (pageDirIdx va) / pageSize)) (pageTblIdx va) < s.pmm.freeFrames

section

variable {im : Image} {s s1 s' : Phys} {dir va : Nat} {fs : List Nat}

theorem table_of_walk {D : Nat} (hp : s.walk D va % 2 = pagePresent) :
    s.word D (pageDirIdx va) ≠ 0 ∧ s.word D (pageDirIdx va) % 2 = pagePresent ∧
      s.walk D va = s.word (s.word D (pageDirIdx va) / pageSize) (pageTblIdx va) := by
  unfold walk at hp ⊢
  by_cases hd : s.word D (pageDirIdx va) % 2 = pagePresent
  · refine ⟨fun h0 => ?_, hd, if_pos hd⟩
    rw [h0] at hd
    cases hd
  · rw [if_neg hd] at hp
    cases hp

theorem odd_ne_zero (h : x % 2 = pagePresent) : x ≠ 0 := by
  rintro rfl
  cases h

/-- A page with a frame for its copy has been copied, to frames of the clone. -/
structure CopyOf (im : Image) (s s' : Phys) (dir : Nat) (fs : List Nat) (va : Nat) : Prop where
  flags : s'.walk dir va % pageSize = s.walk im.pageDir va % pageSize
  data : s'.mem (s'.walk dir va / pageSize) = s.mem (s.walk im.pageDir va / pageSize)
  table : s'.word dir (pageDirIdx va) / pageSize ∈ fs
  page : s'.walk dir va / pageSize ∈ fs

section

variable (h : InUse im s) (hcl : Cloned im s s1 dir fs s')
include h hcl

theorem Cloned.copy_or_skip (hu : UserPage im s va) (hdi : 256 ≤ pageDirIdx va) :
    (FrameForCopy im s va ∧ CopyOf im s s' dir fs va) ∨ (¬ FrameForCopy im s va ∧ s'.walk dir va = 0) := by
  have hlt : pageDirIdx va < pageEntries := pageDirIdx_lt hu.lt
  have hti : pageTblIdx va < pageEntries := pageTblIdx_lt va
  obtain ⟨hne, hodd, hwk⟩ := table_of_walk hu.present
  have hpte := hu.present
  rw [hwk] at hpte
  have ht := hcl.copy.table _ hlt hdi hne
  have hgot := ht.got _ hti (odd_ne_zero hpte)
  have het := ht.entry _ hti
  have hflags := ht.flags
  have hodd' : s'.word dir (pageDirIdx va) % 2 = pagePresent := by
    unfold pageSize at hflags
    omega
  have hwalk' : s'.walk dir va = s'.word (s'.word dir (pageDirIdx va) / pageSize) (pageTblIdx va) := if_pos hodd'
  have hlf := Pmm.freeFrames_take hcl.free
  rw [hcl.start] at hgot
  by_cases hfe : FrameForCopy im s va
  · have hcopied := hgot.2 (by unfold FrameForCopy at hfe; omega)
    refine .inl ⟨hfe, ?_, ?_, ?_, ?_⟩
    · rw [hwalk', hwk]
      exact het.flags hcopied
    · rw [hwalk', hwk]
      exact het.data hcopied (h.pages _ hdi hlt hne _ hti hpte)
    · exact hcl.copy.owned.mem_iff.1 (mem_owned_table hdi (by omega) ht.ne)
    · rw [hwalk']
      exact hcl.copy.owned.mem_iff.1 (mem_owned_page hdi (by omega) ht.ne hti hcopied)
  · refine .inr ⟨hfe, ?_⟩
    by_contra hcopied
    apply hfe
    unfold FrameForCopy
    omega

/-- What the source directory needs for a page from 1 GB on is in use, so it is no frame of the clone. -/
theorem Cloned.source_apart (hu : UserPage im s va) (hdi : 256 ≤ pageDirIdx va) (hf : f ∈ dir :: fs) :
    im.pageDir ≠ f ∧ s.word im.pageDir (pageDirIdx va) / pageSize ≠ f ∧ s.walk im.pageDir va / pageSize ≠ f := by
  obtain ⟨hne, -, hwk⟩ := table_of_walk hu.present
  have hpte := hu.present
  rw [hwk] at hpte
  have hlt := pageDirIdx_lt hu.lt
  have hapart : ∀ g, s.pmm.refs g ≠ 0 → g ≠ f := by
    rintro g hg rfl
    exact hcl.ext.not_mem hg hf
  refine ⟨hapart _ h.dir, hapart _ (h.tables _ hlt hne), ?_⟩
  rw [hwk]
  exact hapart _ (h.pages _ hdi hlt hne _ (pageTblIdx_lt va) hpte)

/-- With a copy of every user page, stores do not reach the other side. -/
theorem isolated_of_copies (hall : ∀ va, UserPage im s va → 256 ≤ pageDirIdx va ∧ FrameForCopy im s va) :
    Isolated im s s' dir := by
  have hcp : ∀ va, UserPage im s va → CopyOf im s s' dir fs va := by
    intro va hu
    obtain ⟨hdi, hfe⟩ := hall va hu
    rcases hcl.copy_or_skip h hu hdi with ⟨-, hc⟩ | ⟨hno, -⟩
    · exact hc
    · exact absurd hfe hno
  have hpresent : ∀ va, UserPage im s va → s'.walk dir va % 2 = pagePresent := by
    intro va hu
    have h1 := (hcp va hu).flags
    have h2 := hu.present
    unfold pageSize at h1
    omega
  have hwk : ∀ va, UserPage im s va → s'.walk im.pageDir va = s.walk im.pageDir va :=
    fun va hu => hcl.keeps.walk h hu.lt
  refine ⟨fun va hu => (hcp va hu).flags, fun va hu => ?_, fun va wa b t hu hw hst => ?_, fun va wa b t hu hw hst => ?_⟩
  · rw [load_eq (hpresent va hu), load_eq hu.present, (hcp va hu).data]
  · -- the store goes to a frame that was in use, the load to frames of the clone
    rw [store_eq (by rw [hwk va hu]; exact hu.present), hwk va hu] at hst
    cases hst
    have hapart := fun f hf => (hcl.source_apart h hu (hall va hu).1 (f := f) hf).2.2.symm
    refine load_congr (mem_poke_ne _ (hapart _ List.mem_cons_self) _ _)
      (mem_poke_ne _ (hapart _ (List.mem_cons_of_mem _ (hcp wa hw).table)) _ _)
      (mem_poke_ne _ (hapart _ (List.mem_cons_of_mem _ (hcp wa hw).page)) _ _)
  · rw [store_eq (hpresent va hu)] at hst
    cases hst
    obtain ⟨h1, h2, h3⟩ := hcl.source_apart h hw (hall wa hw).1 (List.mem_cons_of_mem _ (hcp va hu).page)
    refine load_congr (mem_poke_ne _ h1 _ _) (mem_poke_ne _ ?_ _ _) (mem_poke_ne _ ?_ _ _)
    · rw [hcl.keeps.word h.dir]
      exact h2
    · rw [hwk wa hw]
      exact h3

end

/-! ## Shared tables -/

/-- Below 1 GB the clone has the tables of `page_dir`. -/
theorem Cloned.walk_low (h : InUse im s) (hcl : Cloned im s s1 dir fs s') (hva : va < 2 ^ 32) (hdi : pageDirIdx va < 256) :
    s'.walk dir va = s'.walk im.pageDir va := by
  have hlow := hcl.copy.low _ (pageDirIdx_lt hva) hdi
  have hK := hcl.keeps.word h.dir (pageDirIdx va)
  unfold walk
  rw [hlow, hK]

theorem walk_same_page (s : Phys) (D va : Nat) (hx : x < pageSize) :
    s.walk D (va / pageSize * pageSize + x) = s.walk D va ∧ (va / pageSize * pageSize + x) % pageSize = x ∧
      pageDirIdx (va / pageSize * pageSize + x) = pageDirIdx va := by
  have hpg : (va / pageSize * pageSize + x) / pageSize = va / pageSize := by
    unfold pageSize at hx ⊢
    omega
  obtain ⟨hdi, hti⟩ := same_page.2 hpg
  refine ⟨?_, ?_, hdi⟩
  · unfold walk
    rw [hdi, hti]
  · unfold pageSize at hx ⊢
    omega

/-- A store to a user page below 1 GB is seen through the clone. -/
theorem Cloned.store_visible (h : InUse im s) (hcl : Cloned im s s1 dir fs s') (hu : UserPage im s va)
    (hdi : pageDirIdx va < 256) :
    ∃ wa b t, wa / pageSize = va / pageSize ∧ UserPage im s wa ∧ s'.store im.pageDir wa b = some t ∧
      t.load dir wa ≠ s'.load dir wa := by
  -- a byte of the page that is in neither of the two entries the walk reads, in case the page is one of the tables
  obtain ⟨x, hx, hx1, hx2⟩ : ∃ x, x < pageSize ∧ x / 4 ≠ pageDirIdx va ∧ x / 4 ≠ pageTblIdx va := by
    by_cases h0 : 0 ≠ pageDirIdx va ∧ 0 ≠ pageTblIdx va
    · exact ⟨0, by decide, h0.1, h0.2⟩
    · by_cases h1 : 1 ≠ pageDirIdx va ∧ 1 ≠ pageTblIdx va
      · exact ⟨4, by decide, h1.1, h1.2⟩
      · refine ⟨8, by decide, ?_, ?_⟩ <;> omega
  obtain ⟨hwk, hoff, hidx⟩ := walk_same_page s im.pageDir va hx
  have hlt : va / pageSize * pageSize + x < 2 ^ 32 := by
    have := hu.lt
    unfold pageSize at hx ⊢
    omega
  have hpg : (va / pageSize * pageSize + x) / pageSize = va / pageSize := by
    unfold pageSize at hx ⊢
    omega
  have hti : pageTblIdx (va / pageSize * pageSize + x) = pageTblIdx va := (same_page.2 hpg).2
  have huw : UserPage im s (va / pageSize * pageSize + x) :=
    ⟨hlt, by rw [hwk]; exact hu.present, by rw [hwk]; exact hu.user⟩
  generalize va / pageSize * pageSize + x = wa at *
  have hK : s'.walk im.pageDir wa = s.walk im.pageDir wa := hcl.keeps.walk h hlt
  have hC : s'.walk dir wa = s'.walk im.pageDir wa := hcl.walk_low h hlt (by rw [hidx]; exact hdi)
  have hpK : s'.walk im.pageDir wa % 2 = pagePresent := by
    rw [hK]
    exact huw.present
  have hpC : s'.walk dir wa % 2 = pagePresent := by
    rw [hC]
    exact hpK
  refine ⟨wa, s'.mem (s'.walk dir wa / pageSize) x + 1, _, hpg, huw, store_eq hpK _, ?_⟩
  rw [hoff, ← hC]
  generalize hb : s'.mem (s'.walk dir wa / pageSize) x + 1 = b
  have hsm : (s'.poke (s'.walk dir wa / pageSize) x b).walk dir wa = s'.walk dir wa := by
    refine walk_congr (word_poke_ne _ ?_ _ _) (word_poke_ne _ ?_ _ _)
    · rw [hidx]
      exact hx1
    · rw [hti]
      exact hx2
  rw [load_eq hpC, load_eq (by rw [hsm]; exact hpC), hsm, hoff, mem_poke_self, update_self, ← hb]
  intro heq
  have hone := Option.some.inj heq
  simp at hone

/-- A clone isolates user memory exactly when every user page is mapped from 1 GB on and had a frame for its copy. -/
theorem clone_isolates_iff (h : InUse im s) {d : Nat} (hc : s.pagingCloneDir im = (d, s')) (hd : d ≠ 0) :
    Isolated im s s' (frameIdx d) ↔ ∀ va, UserPage im s va → 256 ≤ pageDirIdx va ∧ FrameForCopy im s va := by
  obtain ⟨dir, s1, fs, rfl, hcl⟩ := pagingCloneDir_spec h hc hd
  rw [frameIdx_mul]
  constructor
  · intro hiso va hu
    have hdi : 256 ≤ pageDirIdx va := by
      apply Nat.le_of_not_lt
      intro hlow
      obtain ⟨wa, b, t, -, hw, hst, hne⟩ := hcl.store_visible h hu hlow
      exact hne (hiso.parent wa wa b t hw hw hst)
    rcases hcl.copy_or_skip h hu hdi with ⟨hfe, -⟩ | ⟨-, h0⟩
    · exact ⟨hdi, hfe⟩
    -- a page that was skipped is not mapped in the clone
    have hflags := hiso.flags va hu
    have hp := hu.present
    unfold pageSize pagePresent at *
    omega
  · exact isolated_of_copies h hcl

/-! ## The user stack -/

theorem Owned.inUse {clones : List Nat} (h : Owned im clones s) : InUse im s := by
  have himage : ∀ f, 0x100 ≤ f ∧ f < 0x500 → s.pmm.refs f ≠ 0 := fun f hf => h.held f hf.1 hf.2
  refine ⟨h.base, himage _ im.dir_image, fun i hi h0 => ?_, fun i hge hi h0 j hj hp => ?_⟩
  · by_cases hlow : i < 4
    · have hdiv : ((im.kernTables + i) * pageSize + 3) / pageSize = im.kernTables + i := by
        unfold pageSize
        omega
      have := im.tables_image
      rw [h.low i hlow, hdiv]
      exact himage _ ⟨by omega, by omega⟩
    · exact h.refs (.table im.pageDir i) (hasTable_kernel (by omega) hi h0)
  · exact h.refs (.page im.pageDir i j) ⟨hasTable_kernel (by omega) hi h0, hj, odd_ne_zero hp⟩

end

/-- A machine with 32 MB on which one user page has been mapped. -/
def sampleUser (v : Nat) : Phys :=
  (pagingInit sampleImage 32768 fun _ _ => 0).mapNew sampleImage v (pageWrite ||| pageUser)

theorem sample_free {i : Nat} : (pmmInit 32768).Free i ↔ 0x500 ≤ i ∧ i < 0x2000 := by
  have htotal : (pmmInit 32768).totalFrames = 0x1F00 := by decide
  rw [pmmInit_free, htotal]

theorem sample_freeFrames : 0x1B00 ≤ (pagingInit sampleImage 32768 fun _ _ => 0).pmm.freeFrames := by
  refine le_tally (a := 0x500) (b := 0x2000) (fun i h1 h2 => ?_) (by decide)
  exact (Pmm.isFree_iff (by omega)).2 (sample_free.2 ⟨h1, h2⟩)

theorem sample_alloc : (pmmAlloc (pagingInit sampleImage 32768 fun _ _ => 0).pmm).1 = 0x500 * pageSize := by decide +kernel

theorem sampleUser_spec (hv : HighPage v) (htab : TableFor sampleImage (pagingInit sampleImage 32768 fun _ _ => 0) v) :
    Owned sampleImage [] (sampleUser v) ∧
      ∀ x < 2 ^ 32, UserPage sampleImage (sampleUser v) x ↔ x / pageSize = v / pageSize := by
  have hboot := pagingInit_owned sampleImage 32768 fun _ _ => 0
  have hne : (pmmAlloc (pagingInit sampleImage 32768 fun _ _ => 0).pmm).1 ≠ 0 := by
    rw [sample_alloc]
    decide
  have huser0 : ∀ x < 2 ^ 32, (pagingInit sampleImage 32768 fun _ _ => 0).walk sampleImage.pageDir x / pageUser % 2 = 0 := by
    intro x hx
    by_cases hlow : x < 0x1000000
    · rw [hboot.walk_low hlow]
      unfold pageSize pageUser
      omega
    have hd : 4 ≤ pageDirIdx x := by
      unfold pageDirIdx
      omega
    rw [hboot.walk_eq hx, if_pos (by rw [pagingInit_dir, if_neg (by omega)])]
    rfl
  obtain ⟨p, -, hp, hwk⟩ := hboot.walk_mapNew hv (show pageWrite ||| pageUser < 4096 by decide) hne htab
  obtain rfl : 0x500 = p := Nat.eq_of_mul_eq_mul_right (by decide) (sample_alloc.symm.trans hp)
  unfold sampleUser
  refine ⟨hboot.mapNew hv (by decide) hne, fun x hx => ?_⟩
  by_cases hxv : x / pageSize = v / pageSize
  · refine iff_of_true ⟨hx, ?_, ?_⟩ hxv
    · rw [hwk x hx, if_pos hxv]
      decide
    · rw [hwk x hx, if_pos hxv]
      decide
  · refine iff_of_false (fun hu => ?_) hxv
    have huser := hu.user
    rw [hwk x hx, if_neg hxv, huser0 x hx] at huser
    cases huser

theorem sampleUser_clone (hown : Owned sampleImage [] (sampleUser v)) (hdemand : demand sampleImage (sampleUser v) pageEntries ≤ 2)
    (hfr : ∀ i < 4, (sampleUser v).pmm.isFree (0x502 + i) = true) :
    3 < (sampleUser v).pmm.freeFrames ∧ ((sampleUser v).pagingCloneDir sampleImage).1 ≠ 0 := by
  have hfour := Pmm.four_le_freeFrames hfr (by decide)
  exact ⟨hfour, pagingCloneDir_some hown.inUse (by omega)⟩

/-- A user page at 1 GB is isolated. -/
theorem clone_isolates_iff_sample : ∃ d s', d ≠ 0 ∧ (sampleUser 0x40000000).pagingCloneDir sampleImage = (d, s') ∧
    UserPage sampleImage (sampleUser 0x40000000) 0x40000000 ∧
      Isolated sampleImage (sampleUser 0x40000000) s' (frameIdx d) := by
  obtain ⟨hown, huser⟩ := sampleUser_spec (v := 0x40000000) ⟨by decide, by decide, by decide⟩
    (by unfold TableFor; decide +kernel)
  obtain ⟨hfr, hd⟩ := sampleUser_clone hown (by decide +kernel) (by decide +kernel)
  have hdemand : demand sampleImage (sampleUser 0x40000000) 256 = 0 := by decide +kernel
  generalize sampleUser 0x40000000 = s at *
  generalize hc : s.pagingCloneDir sampleImage = r at hd ⊢
  obtain ⟨d, s'⟩ := r
  refine ⟨d, s', hd, rfl, (huser _ (by decide)).2 rfl, (clone_isolates_iff hown.inUse hc hd).2 fun va hu => ?_⟩
  obtain ⟨hdi, hti⟩ := same_page.2 ((huser va hu.lt).1 hu)
  have h256 : pageDirIdx 0x40000000 = 256 ∧ pageTblIdx 0x40000000 = 0 := by decide
  refine ⟨by omega, ?_⟩
  unfold FrameForCopy
  rw [hdi, hti, h256.1, h256.2, hdemand]
  show 0 + 2 + 0 < _
  omega

/-- The first page of the user stack that `elf_spawn` maps: a store to it through `page_dir` is seen through the
clone. -/
theorem stack_store_visible : ∃ d s', d ≠ 0 ∧ (sampleUser 0x3FFFC000).pagingCloneDir sampleImage = (d, s') ∧
    ∃ va b t, va / pageSize = 0x3FFFC000 / pageSize ∧ UserPage sampleImage (sampleUser 0x3FFFC000) va ∧
      s'.store sampleImage.pageDir va b = some t ∧ t.load (frameIdx d) va ≠ s'.load (frameIdx d) va := by
  obtain ⟨hown, huser⟩ := sampleUser_spec (v := 0x3FFFC000) ⟨by decide, by decide, by decide⟩
    (by unfold TableFor; decide +kernel)
  obtain ⟨-, hd⟩ := sampleUser_clone hown (by decide +kernel) (by decide +kernel)
  generalize sampleUser 0x3FFFC000 = s at *
  generalize hc : s.pagingCloneDir sampleImage = r at hd ⊢
  obtain ⟨d, s'⟩ := r
  refine ⟨d, s', hd, rfl, ?_⟩
  obtain ⟨dir, s1, fs, rfl, hcl⟩ := pagingCloneDir_spec hown.inUse hc hd
  rw [frameIdx_mul]
  exact hcl.store_visible hown.inUse ((huser _ (by decide)).2 rfl) (by decide)

end Phys

end KumOS.Paging
