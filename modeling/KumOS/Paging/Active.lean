import KumOS.Paging.Fork

/-!
# The directory in CR3

`paging_map`, `paging_is_mapped` and `paging_virt_to_phys` walk `page_dir`, the
processor walks the directory in CR3.  The ownership invariant of
`KumOS.Paging.Ownership` holds along every run that also clones and switches
(`Owned.clone`), and it decides when the two agree: where they have the same table
(`Shares`), and where neither maps the page (`active_iff`).
-/

namespace KumOS.Paging

open Lib
open Vm (pageDirIdx pageTblIdx)

variable {D d flags p va : Nat} {u : Use}

/-- The directory a use belongs to. -/
def Use.owner : Use → Nat
  | .dir D => D
  | .table D _ => D
  | .page D _ _ => D

namespace Phys

/-! ## The uses of a clone -/

/-- The pages in the first `n` entries of table `d`. -/
def pageUses (s : Phys) (D d : Nat) : Nat → List Use
  | 0 => []
  | n + 1 => s.pageUses D d n ++ if s.word (s.word D d / pageSize) n = 0 then [] else [.page D d n]

/-- The tables in the entries `256, .., 256 + n - 1`, with their pages: the uses of the frames in `owned`. -/
def uses (s : Phys) (D : Nat) : Nat → List Use
  | 0 => []
  | n + 1 => s.uses D n ++
      if s.word D (256 + n) = 0 then [] else s.pageUses D (256 + n) pageEntries ++ [.table D (256 + n)]

section

variable {s : Phys}

theorem map_pageUses (s : Phys) (D d n : Nat) :
    (s.pageUses D d n).map s.frameOf = s.pages (s.word D d / pageSize) n := by
  induction n with
  | zero => rfl
  | succ n ih =>
    unfold pageUses pages
    rw [List.map_append, ih]
    split <;> rfl

theorem map_uses (s : Phys) (D n : Nat) : (s.uses D n).map s.frameOf = s.owned D n := by
  induction n with
  | zero => rfl
  | succ n ih =>
    unfold uses owned
    rw [List.map_append, ih]
    split
    · rfl
    · rw [List.map_append, map_pageUses]
      rfl

theorem mem_pageUses {n i : Nat} (hi : i < n) (h0 : s.word (s.word D d / pageSize) i ≠ 0) :
    Use.page D d i ∈ s.pageUses D d n := by
  induction n with
  | zero => omega
  | succ n ih =>
    unfold pageUses
    by_cases hin : i = n
    · subst hin
      rw [if_neg h0]
      exact List.mem_append_right _ (List.mem_singleton.2 rfl)
    · exact List.mem_append_left _ (ih (by omega))

theorem mem_uses {n : Nat} (hd : 256 ≤ d) (hn : d < 256 + n) (h0 : s.word D d ≠ 0)
    (hu : u ∈ s.pageUses D d pageEntries ++ [.table D d]) : u ∈ s.uses D n := by
  induction n with
  | zero => omega
  | succ n ih =>
    unfold uses
    by_cases hdn : d = 256 + n
    · subst hdn
      rw [if_neg h0]
      exact List.mem_append_right _ hu
    · exact List.mem_append_left _ (ih (by omega))

end

section

variable {im : Image} {clones : List Nat} {s s1 s' : Phys} {dir : Nat} {fs : List Nat}

section

variable (h : Owned im clones s) (hk : Keeps s s')
include h hk

theorem Owned.kept_dir (hD : D = im.pageDir ∨ D ∈ clones) : s'.mem D = s.mem D := by
  rcases hD with rfl | hD
  · exact hk.mem _ h.inUse.dir
  · exact hk.mem _ (h.refs (.dir D) hD)

theorem Owned.kept_kern {t : Nat} (ht : t < 4) : s'.mem (im.kernTables + t) = s.mem (im.kernTables + t) := by
  have := im.tables_image
  exact hk.mem _ (h.held _ (by omega) (by omega))

theorem Owned.kept_table (ht : HasTable im clones s D d) :
    s'.mem (s.word D d / pageSize) = s.mem (s.word D d / pageSize) := hk.mem _ (h.refs (.table D d) ht)

end

theorem own_clone (hK : dir ≠ im.pageDir) (ht : HasTable im (dir :: clones) s' dir d) : 256 ≤ d := by
  have := ht.own
  unfold firstOwn at this
  rwa [if_neg hK] at this

/-- What a clone uses is in the list, so it has one use for each of its frames. -/
theorem mem_uses_of_live (hK : dir ≠ im.pageDir) (hu : Live im (dir :: clones) s' u) (ho : u.owner = dir) :
    u ∈ .dir dir :: s'.uses dir (pageEntries - 256) := by
  cases u with
  | dir D =>
    obtain rfl : D = dir := ho
    exact List.mem_cons_self
  | table D d =>
    obtain rfl : D = dir := ho
    have ht : HasTable im (D :: clones) s' D d := hu
    have hlt := ht.lt
    refine List.mem_cons_of_mem _ (mem_uses (own_clone hK ht) (by unfold pageEntries; omega) ht.ne ?_)
    exact List.mem_append_right _ (List.mem_singleton.2 rfl)
  | page D d i =>
    obtain rfl : D = dir := ho
    obtain ⟨ht, hi, h0⟩ := hu
    have hlt := ht.lt
    refine List.mem_cons_of_mem _ (mem_uses (own_clone hK ht) (by unfold pageEntries; omega) ht.ne ?_)
    exact List.mem_append_left _ (mem_pageUses hi h0)

theorem Cloned.frames (hcl : Cloned im s s1 dir fs s') :
    ((Use.dir dir :: s'.uses dir (pageEntries - 256)).map s'.frameOf).Perm (dir :: fs) := by
  rw [List.map_cons, map_uses]
  exact hcl.copy.owned.cons dir

section

variable (h : Owned im clones s) (hcl : Cloned im s s1 dir fs s')
include h hcl

theorem Cloned.live_old (hu : Live im (dir :: clones) s' u) (ho : u.owner ≠ dir) :
    Live im clones s u ∧ s'.frameOf u = s.frameOf u := by
  have hk := hcl.keeps
  -- the directories that were there have their entries
  have hdir : ∀ {D}, D = im.pageDir ∨ D ∈ dir :: clones → D ≠ dir → D = im.pageDir ∨ D ∈ clones := by
    intro D hD hne
    rcases hD with hD | hD
    · exact .inl hD
    · exact .inr ((List.mem_cons.1 hD).resolve_left hne)
  have hwd : ∀ {D}, D = im.pageDir ∨ D ∈ clones → ∀ d, s'.word D d = s.word D d :=
    fun hD d => word_congr (h.kept_dir hk hD) d
  have htab : ∀ {D d}, HasTable im (dir :: clones) s' D d → D ≠ dir → HasTable im clones s D d := by
    intro D d ht hne
    have hD := hdir ht.dir hne
    exact ⟨hD, ht.own, ht.lt, hwd hD d ▸ ht.ne⟩
  cases u with
  | dir D => exact ⟨(List.mem_cons.1 hu).resolve_left ho, rfl⟩
  | table D d =>
    have ht := htab hu ho
    exact ⟨ht, congrArg (· / pageSize) (hwd ht.dir d)⟩
  | page D d i =>
    obtain ⟨ht', hi, h0⟩ := hu
    have ht := htab ht' ho
    have hpg : s'.word (s'.word D d / pageSize) i = s.word (s.word D d / pageSize) i := by
      rw [hwd ht.dir d]
      exact word_congr (h.kept_table hk ht) i
    rw [hpg] at h0
    exact ⟨⟨ht, hi, h0⟩, congrArg (· / pageSize) hpg⟩

theorem Cloned.owner_ne (hD : D = im.pageDir ∨ D ∈ clones) : D ≠ dir := by
  rintro rfl
  rcases hD with rfl | hD
  · exact h.inUse.dir hcl.free.zero
  · exact h.refs (.dir D) hD hcl.free.zero

theorem Owned.tracked_clone : Tracked im (dir :: clones) s' := by
  have hK : dir ≠ im.pageDir := (hcl.owner_ne h (.inl rfl)).symm
  have hfe : ∀ u, Live im (dir :: clones) s' u → u.owner = dir → s'.frameOf u ∈ dir :: fs := fun u hu ho =>
    hcl.frames.mem_iff.1 (List.mem_map_of_mem (mem_uses_of_live hK hu ho))
  refine h.toTracked.transfer (·.owner = dir) (fun u hu ho => hcl.live_old h hu ho)
    (fun u hu _ => hcl.keeps.refs _ (h.refs u hu)) (fun u hu ho => ?_) fun u v hu hv hou hov he => ?_
  · have hm := hfe u hu ho
    have hfr := hcl.ext.taken.free _ hm
    obtain ⟨hge, hunused⟩ := h.free hfr
    exact ⟨hge, hfr.max, (hcl.ext.of_mem hm).1, fun v hv _ => hunused v hv⟩
  · -- every frame was taken once
    have hnd : ((Use.dir dir :: s'.uses dir (pageEntries - 256)).map s'.frameOf).Nodup :=
      hcl.frames.nodup_iff.2 hcl.ext.taken.nodup
    exact List.inj_on_of_nodup_map hnd (mem_uses_of_live hK hu hou) (mem_uses_of_live hK hv hov) he

/-- A new directory has the entries of `page_dir` below 1 GB, and tables with the same flags from there on. -/
theorem Owned.clone : Owned im (dir :: clones) s' := by
  have hk := hcl.keeps
  have hK : dir ≠ im.pageDir := (hcl.owner_ne h (.inl rfl)).symm
  have hwd : ∀ {D}, D = im.pageDir ∨ D ∈ clones → ∀ d, s'.word D d = s.word D d :=
    fun hD d => word_congr (h.kept_dir hk hD) d
  -- the table a new one was made from
  have hsource : ∀ {d}, HasTable im (dir :: clones) s' dir d →
      HasTable im clones s im.pageDir d ∧ TableOf im s s1 s' dir d := by
    intro d ht
    have hd := own_clone hK ht
    have hne : s.word im.pageDir d ≠ 0 := fun h0 => ht.ne (hcl.copy.empty d ht.lt hd h0)
    exact ⟨hasTable_kernel (by omega) ht.lt hne, hcl.copy.table d ht.lt hd hne⟩
  refine ⟨h.tracked_clone hcl, hcl.ext.taken.base.trans h.base, fun f h1 h2 => hk.refs f (h.held f h1 h2), fun d hd => ?_,
    fun t ht p hp => ?_, fun D d ht => ?_, fun D d i hu => ?_, fun D hD d hd => ?_⟩
  · rw [hwd (.inl rfl)]
    exact h.low d hd
  · rw [word_congr (h.kept_kern hk ht)]
    exact h.kern t ht p hp
  · by_cases hDdir : D = dir
    · subst hDdir
      obtain ⟨hsrc, htab⟩ := hsource ht
      rw [htab.flags]
      exact h.table _ d hsrc
    · obtain ⟨ht', -⟩ := hcl.live_old h (u := .table D d) ht hDdir
      rw [hwd (HasTable.dir ht')]
      exact h.table D d ht'
  · by_cases hDdir : D = dir
    · subst hDdir
      obtain ⟨ht, hi, h0⟩ := hu
      obtain ⟨hsrc, htab⟩ := hsource ht
      have het := htab.entry i hi
      have hne : s.word (s.word im.pageDir d / pageSize) i ≠ 0 := fun hz => h0 (het.zero hz)
      have hodd := h.page im.pageDir d i ⟨hsrc, hi, hne⟩
      have hflags := het.flags h0
      unfold pageSize at *
      omega
    · obtain ⟨hu', -⟩ := hcl.live_old h hu hDdir
      rw [hwd hu'.1.dir, word_congr (h.kept_table hk hu'.1)]
      exact h.page D d i hu'
  · rw [hwd (.inl rfl)]
    by_cases hDdir : D = dir
    · rw [hDdir]
      exact .inr (hcl.copy.low d (by unfold pageEntries; omega) hd)
    · have hD := (List.mem_cons.1 hD).resolve_left hDdir
      rw [hwd (.inr hD)]
      exact h.shared D hD d hd

end

/-- What is kept by something that makes no new use, such as a clone that failed. -/
theorem Owned.kept (h : Owned im clones s) (hk : Keeps s s') (hbs : s'.pmm.baseFrame = s.pmm.baseFrame) :
    Owned im clones s' :=
  (h.congr s' (fun _ hD => h.kept_dir hk hD) (fun _ ht => h.kept_kern hk ht) (fun _ _ ht => h.kept_table hk ht) hbs
    (fun f h1 h2 => hk.refs f (h.held f h1 h2)) fun u hu => hk.refs _ (h.refs u hu)).1

/-! ## Translations of a clone -/

theorem live_of_own {pa : Nat} (ht : HasTable im clones s D (pageDirIdx va)) (htr : s.translate D va = some pa) :
    Live im clones s (.page D (pageDirIdx va) (pageTblIdx va)) ∧
      s.frameOf (.page D (pageDirIdx va) (pageTblIdx va)) = frameIdx pa := by
  obtain ⟨hp, -, hfe⟩ := translate_eq_some htr
  obtain ⟨-, -, hwk⟩ := table_of_walk hp
  rw [hwk] at hp hfe
  exact ⟨⟨ht, pageTblIdx_lt va, odd_ne_zero hp⟩, hfe.symm⟩

theorem Owned.clone_table (h : Owned im clones s) (hD : D ∈ clones) (hd : 256 ≤ d) (hlt : d < 1024)
    (h0 : s.word D d ≠ 0) : HasTable im clones s D d ∧ s.word D d ≠ s.word im.pageDir d := by
  have hDK : D ≠ im.pageDir := (h.ne_image (u := .dir D) hD im.dir_image.2).symm
  have ht : HasTable im clones s D d := by
    refine ⟨.inr hD, ?_, hlt, h0⟩
    unfold firstOwn
    rwa [if_neg hDK]
  refine ⟨ht, fun he => ?_⟩
  exact h.table_ne (hasTable_kernel (by omega) hlt (he ▸ h0)) ht (fun hc => hDK hc.1) (by rw [he])

/-- With another table than `page_dir`, a clone has the page in another frame. -/
theorem Owned.frames_differ (h : Owned im clones s) {pa pb : Nat} (hD : D ∈ clones) (hva : va < 2 ^ 32)
    (hne : s.word D (pageDirIdx va) ≠ s.word im.pageDir (pageDirIdx va)) (hpa : s.translate D va = some pa)
    (hpb : s.translate im.pageDir va = some pb) : frameIdx pa ≠ frameIdx pb := by
  have hDK : D ≠ im.pageDir := (h.ne_image (u := .dir D) hD im.dir_image.2).symm
  have hD0 := (table_of_walk (translate_eq_some hpa).1).1
  have hK0 := (table_of_walk (translate_eq_some hpb).1).1
  have hdi : 256 ≤ pageDirIdx va := by
    apply Nat.le_of_not_lt
    intro hlow
    exact (h.shared D hD _ hlow).elim hD0 hne
  have hlt := pageDirIdx_lt hva
  obtain ⟨htD, -⟩ := h.clone_table hD hdi hlt hD0
  obtain ⟨hla, hfa⟩ := live_of_own htD hpa
  obtain ⟨hlb, hfb⟩ := live_of_own (hasTable_kernel (by omega) hlt hK0) hpb
  intro he
  have hu := h.inj _ _ hla hlb (by rw [hfa, hfb, he])
  injection hu with hDK'
  exact hDK hDK'

/-- `paging_is_mapped` and `paging_virt_to_phys` tell what the processor finds. -/
def Agrees (im : Image) (s : Phys) (va : Nat) : Prop :=
  s.pagingIsMapped im va = (s.translate s.active va).isSome ∧
    s.pagingVirtToPhys im va = (s.translate s.active va).getD 0

/-- The directory in CR3 is `page_dir`, or has the same table for `va`. -/
def Shares (im : Image) (s : Phys) (va : Nat) : Prop :=
  s.active = im.pageDir ∨
    s.word s.active (pageDirIdx va) = s.word im.pageDir (pageDirIdx va) ∧ s.word s.active (pageDirIdx va) ≠ 0

theorem Shares.walk (h : Shares im s va) : s.walk s.active va = s.walk im.pageDir va := by
  rcases h with h | ⟨h, -⟩
  · rw [h]
  · unfold Phys.walk
    rw [h]

/-- The states of a run: the invariant, and CR3 holds a directory. -/
structure SpaceOk (im : Image) (clones : List Nat) (s : Phys) : Prop where
  owned : Owned im clones s
  cr3 : s.active = im.pageDir ∨ s.active ∈ clones

theorem SpaceOk.agrees_iff (h : SpaceOk im clones s) (hva : va < 2 ^ 32) :
    Agrees im s va ↔ Shares im s va ∨ (s.translate im.pageDir va = none ∧ s.translate s.active va = none) := by
  unfold Agrees
  rw [pagingIsMapped_eq, pagingVirtToPhys_eq]
  constructor
  · rintro ⟨hso, hget⟩
    by_cases hs : Shares im s va
    · exact .inl hs
    right
    have hcl : s.active ∈ clones := h.cr3.resolve_left fun hK => hs (.inl hK)
    cases hK : s.translate im.pageDir va with
    | none =>
      rw [hK] at hso
      exact ⟨rfl, Option.isSome_eq_false_iff.1 hso.symm |> Option.isNone_iff_eq_none.1⟩
    | some pb =>
      cases hC : s.translate s.active va with
      | none =>
        rw [hK, hC] at hso
        cases hso
      | some pa =>
        rw [hK, hC] at hget
        have hC0 := (table_of_walk (translate_eq_some hC).1).1
        refine absurd (congrArg frameIdx hget.symm) (h.owned.frames_differ hcl hva (fun he => hs (.inr ⟨he, hC0⟩)) hC hK)
  · rintro (hs | ⟨hK, hC⟩)
    · have htr : s.translate s.active va = s.translate im.pageDir va := by
        unfold translate
        rw [hs.walk]
      rw [htr]
      exact ⟨rfl, rfl⟩
    · rw [hK, hC]
      exact ⟨rfl, rfl⟩

/-- `paging_map` maps the page for the processor exactly if the directory in CR3 has the table. -/
theorem SpaceOk.maps_iff (h : SpaceOk im clones s) (hge : 0x1000000 ≤ va) (hva : va < 2 ^ 32) (hf : flags < 4096)
    (hp : Spare im clones s p) (htab : (s.ptePtrAlloc im va).1 ≠ none) : let s' := s.pagingMap im va (p * pageSize) flags
    s'.translate s'.active va = some (p * pageSize + va % pageSize) ↔ Shares im s va := by
  obtain ⟨hclone, hdir⟩ := h.owned.pagingMap_clone hge hva hf
  have hwk := h.owned.walk_pagingMap hge hva hf hp htab hva
  have hown := h.owned.pagingMap hge hva hf hp
  rw [if_pos rfl] at hwk
  intro s'
  have hact : s'.active = s.active := s.pagingMap_active im va (p * pageSize) flags
  obtain ⟨hodd, hdiv, -, -⟩ := pteOf_props hp.lt hf
  have hK : s'.translate im.pageDir va = some (p * pageSize + va % pageSize) := by
    rw [translate_of_walk hwk hodd, hdiv]
  rw [hact]
  by_cases hs : Shares im s va
  · refine iff_of_true ?_ hs
    rcases hs with hs | ⟨he, h0⟩
    · rw [hs]
      exact hK
    rcases h.cr3 with hc | hc
    · rw [hc]
      exact hK
    have hsm : s'.word s.active (pageDirIdx va) = s'.word im.pageDir (pageDirIdx va) := by
      rw [hclone _ hc, hdir _ (he ▸ h0), he]
    have hw : s'.walk s.active va = s'.walk im.pageDir va := by
      unfold Phys.walk
      rw [hsm]
    rw [← hK]
    unfold translate
    rw [hw]
  · refine iff_of_false (fun hC => ?_) hs
    have hcl : s.active ∈ clones := h.cr3.resolve_left fun hc => hs (.inl hc)
    have hC0 := (table_of_walk (translate_eq_some hC).1).1
    rw [hclone _ hcl] at hC0
    refine hown.frames_differ hcl hva (fun he => ?_) hC hK rfl
    by_cases hdi : pageDirIdx va < 256
    · exact hs (.inr ⟨(h.owned.shared _ hcl _ hdi).resolve_left hC0, hC0⟩)
    · exact (hown.clone_table hcl (by omega) (pageDirIdx_lt hva) (by rw [hclone _ hcl]; exact hC0)).2 he

/-! ## Runs -/

inductive SpaceOp
  | alloc
  | map (v p flags : Nat)
  | unmap (v : Nat)
  | clone
  | switch (d : Nat)

/-- One call.  The frames that are mapped have been handed out by `pmm_alloc` and are not in use, `paging_switch` is
for the kernel's directory and for those that `paging_clone_dir` has returned. -/
def SpaceStep (im : Image) (w : List Nat × Phys) : SpaceOp → List Nat × Phys → Prop
  | .alloc, w' => w' = (w.1, { w.2 with pmm := (pmmAlloc w.2.pmm).2 })
  | .map v p flags, w' => 0x1000000 ≤ v ∧ v < 2 ^ 32 ∧ flags < 4096 ∧ Spare im w.1 w.2 p ∧
      w' = (w.1, w.2.pagingMap im v (p * pageSize) flags)
  | .unmap v, w' => 0x1000000 ≤ v ∧ v < 2 ^ 32 ∧ w' = (w.1, w.2.pagingUnmap im v)
  | .clone, w' => ∃ d s', w.2.pagingCloneDir im = (d, s') ∧ w' = (if d = 0 then w.1 else frameIdx d :: w.1, s')
  | .switch d, w' => (d = im.pageDir * pageSize ∨ ∃ D ∈ w.1, d = D * pageSize) ∧ w' = (w.1, w.2.pagingSwitch d)

theorem SpaceOk.step {w w' : List Nat × Phys} {op : SpaceOp} (h : SpaceOk im w.1 w.2) (hs : SpaceStep im w op w') :
    SpaceOk im w'.1 w'.2 := by
  cases op with
  | alloc =>
    obtain rfl := hs
    refine ⟨?_, h.cr3⟩
    rcases pmmAlloc_cases w.2.pmm with ⟨he, -⟩ | ⟨p, hp, -, he⟩
    · rw [he]
      exact h.owned
    · rw [he]
      exact (h.owned.take hp).1
  | map v p flags =>
    obtain ⟨hge, hlt, hf, hp, rfl⟩ := hs
    refine ⟨h.owned.pagingMap hge hlt hf hp, ?_⟩
    rw [pagingMap_active]
    exact h.cr3
  | unmap v =>
    obtain ⟨hge, hlt, rfl⟩ := hs
    refine ⟨h.owned.pagingUnmap hge hlt, ?_⟩
    rw [pagingUnmap_active]
    exact h.cr3
  | clone =>
    obtain ⟨d, s', hc, rfl⟩ := hs
    by_cases hd : d = 0
    · subst hd
      obtain ⟨hk, hbs, hrs⟩ := pagingCloneDir_fail h.owned.inUse hc
      refine ⟨h.owned.kept hk hbs, ?_⟩
      rw [hrs]
      exact h.cr3
    obtain ⟨dir, s1, fs, rfl, hcl⟩ := pagingCloneDir_spec h.owned.inUse hc hd
    rw [if_neg hd, frameIdx_mul]
    refine ⟨h.owned.clone hcl, ?_⟩
    rw [hcl.ext.rest]
    exact h.cr3.imp_right (List.mem_cons_of_mem _)
  | switch d =>
    obtain ⟨hd, rfl⟩ := hs
    refine ⟨(h.owned.congr (w.2.pagingSwitch d) (fun _ _ => rfl) (fun _ _ => rfl) (fun _ _ _ => rfl) rfl h.owned.held
      h.owned.refs).1, ?_⟩
    show frameIdx d = _ ∨ frameIdx d ∈ _
    rcases hd with rfl | ⟨D, hD, rfl⟩
    · rw [frameIdx_mul]
      exact .inl rfl
    · rw [frameIdx_mul]
      exact .inr hD

theorem SpaceOk.boot (im : Image) (memKb : Nat) (mem : Nat → Bytes) : SpaceOk im [] (pagingInit im memKb mem) :=
  ⟨pagingInit_owned im memKb mem, .inl (frameIdx_mul im.pageDir)⟩

/-- In every state of a run, what the paging functions do and tell is what the processor finds exactly where the
directory in CR3 has the table that `page_dir` has. -/
theorem active_iff (im : Image) (memKb : Nat) (mem : Nat → Bytes) (ops : List SpaceOp) (clones : List Nat) (s : Phys)
    (hrun : Run (SpaceStep im) ([], pagingInit im memKb mem) ops (clones, s)) :
    (∀ va < 2 ^ 32, Agrees im s va ↔
      Shares im s va ∨ (s.translate im.pageDir va = none ∧ s.translate s.active va = none)) ∧
    ∀ va p flags, 0x1000000 ≤ va → va < 2 ^ 32 → flags < 4096 → Spare im clones s p → (s.ptePtrAlloc im va).1 ≠ none →
      ((s.pagingMap im va (p * pageSize) flags).translate (s.pagingMap im va (p * pageSize) flags).active va =
        some (p * pageSize + va % pageSize) ↔ Shares im s va) := by
  have h : SpaceOk im clones s :=
    Run.invariant (fun w : List Nat × Phys => SpaceOk im w.1 w.2) (SpaceOk.boot im memKb mem)
      (fun _ _ _ h hs => h.step hs) hrun
  exact ⟨fun va hva => h.agrees_iff hva, fun va p flags hge hva hf hp htab => h.maps_iff hge hva hf hp htab⟩

end

/-- After boot the directory is cloned, and CR3 is switched to the clone. -/
def sampleClone : Phys :=
  ((pagingInit sampleImage 32768 fun _ _ => 0).pagingCloneDir sampleImage).2.pagingSwitch (0x500 * pageSize)

theorem sampleClone_run : Run (SpaceStep sampleImage) ([], pagingInit sampleImage 32768 fun _ _ => 0)
    [.clone, .switch (0x500 * pageSize)] ([0x500], sampleClone) := by
  have hd : ((pagingInit sampleImage 32768 fun _ _ => 0).pagingCloneDir sampleImage).1 = 0x500 * pageSize := by
    decide +kernel
  unfold sampleClone
  generalize hc : (pagingInit sampleImage 32768 fun _ _ => 0).pagingCloneDir sampleImage = r at hd ⊢
  obtain ⟨d, s'⟩ := r
  obtain rfl : d = 0x500 * pageSize := hd
  have hclone : SpaceStep sampleImage ([], pagingInit sampleImage 32768 fun _ _ => 0) .clone ([0x500], s') := by
    refine ⟨_, _, hc, ?_⟩
    rw [if_neg (by decide), frameIdx_mul]
  exact (Run.single hclone).snoc ⟨.inr ⟨0x500, List.mem_cons_self, rfl⟩, rfl⟩

/-- The run above: the clone has the table of an address below 16 MB. -/
theorem active_iff_sample : ∃ dir s, Run (SpaceStep sampleImage) ([], pagingInit sampleImage 32768 fun _ _ => 0)
    [.clone, .switch (dir * pageSize)] ([dir], s) ∧ s.active = dir ∧
      (Agrees sampleImage s 0x1000 ↔ Shares sampleImage s 0x1000 ∨
        (s.translate sampleImage.pageDir 0x1000 = none ∧ s.translate s.active 0x1000 = none)) := by
  exact ⟨0x500, sampleClone, sampleClone_run, frameIdx_mul _, (active_iff _ _ _ _ _ _ sampleClone_run).1 0x1000 (by decide)⟩

/-- In the clone, the page at 1 GB that `paging_map` maps is not there. -/
theorem map_misses_clone : ∃ dir p clones s,
    Run (SpaceStep sampleImage) ([], pagingInit sampleImage 32768 fun _ _ => 0)
      [.clone, .switch (dir * pageSize), .alloc, .map 0x40000000 p 3] (clones, s) ∧
      s.pagingIsMapped sampleImage 0x40000000 = true ∧ s.translate s.active 0x40000000 = none := by
  have hok : SpaceOk sampleImage [0x500] sampleClone :=
    Run.invariant (fun w : List Nat × Phys => SpaceOk sampleImage w.1 w.2) (SpaceOk.boot sampleImage 32768 _)
      (fun _ _ _ h hs => h.step hs) sampleClone_run
  have hgot : (pmmAlloc sampleClone.pmm).1 = 0x501 * pageSize := by decide +kernel
  obtain ⟨p, hp, -, hspr⟩ := hok.owned.alloc (by rw [hgot]; decide)
  obtain rfl : 0x501 = p := Nat.eq_of_mul_eq_mul_right (by decide) (hgot.symm.trans hp)
  have halloc := sampleClone_run.snoc (show SpaceStep sampleImage _ .alloc ([0x500], _) from rfl)
  refine ⟨0x500, 0x501, [0x500], _, halloc.snoc ⟨by decide, by decide, by decide, hspr, rfl⟩, ?_, ?_⟩
  · decide +kernel
  · decide +kernel

end Phys

end KumOS.Paging
