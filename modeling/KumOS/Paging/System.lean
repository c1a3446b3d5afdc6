import KumOS.Paging.Active
import KumOS.Paging.Permissions

/-!
# Runs of the memory code

Pages are mapped and unmapped, regions allocated, programs loaded, directories
cloned, switched to and given back.  The ownership invariant of
`KumOS.Paging.Ownership` holds along every such run, whatever directory CR3 holds
(`SystemOk.run`): a store from 16 MB on goes to the frame of a page, in the tables
of `page_dir` or in those a clone has of its own.
-/

namespace KumOS.Paging

open Lib
open Vm (pageDirIdx pageTblIdx)

variable {f va : Nat} {u : Use} {w w' : List Nat × Phys}

namespace Phys

section

variable {im : Image} {clones : List Nat} {s s' : Phys} {D : Nat}

/-! ## Stores through any directory -/

/-- The directory whose tables map `va` in the space of `D`. -/
def tablesOf (im : Image) (D va : Nat) : Nat := if pageDirIdx va < 256 then im.pageDir else D

theorem Owned.page_of (h : Owned im clones s) (hD : D = im.pageDir ∨ D ∈ clones) {pa : Nat}
    (hge : 0x1000000 ≤ va) (hva : va < 2 ^ 32) (htr : s.translate D va = some pa) :
    Live im clones s (.page (tablesOf im D va) (pageDirIdx va) (pageTblIdx va)) ∧
      s.frameOf (.page (tablesOf im D va) (pageDirIdx va) (pageTblIdx va)) = frameIdx pa := by
  unfold tablesOf
  rcases hD with rfl | hD
  · rw [ite_self]
    exact h.live_of_translate hge hva htr
  have h0 := (table_of_walk (translate_eq_some htr).1).1
  by_cases hdi : pageDirIdx va < 256
  · -- the table is one of `page_dir`
    rw [if_pos hdi]
    refine h.live_of_translate hge hva ?_
    have he := (h.shared D hD _ hdi).resolve_left h0
    rw [← htr]
    unfold translate walk
    rw [he]
  · rw [if_neg hdi]
    exact live_of_own (h.clone_table hD (by omega) (pageDirIdx_lt hva) h0).1 htr

theorem Owned.storeTo (h : Owned im clones s) (hD : D = im.pageDir ∨ D ∈ clones) {b : UInt8}
    (hge : 0x1000000 ≤ va) (hva : va < 2 ^ 32) (hst : s.store D va b = some s') :
    Owned im clones s' ∧ (∀ x < 2 ^ 32, s'.walk im.pageDir x = s.walk im.pageDir x) ∧ s' = { s with mem := s'.mem } := by
  cases htr : s.translate D va with
  | none =>
    unfold Phys.store at hst
    rw [htr] at hst
    cases hst
  | some pa =>
    obtain ⟨hlv, hfe⟩ := h.page_of hD hge hva htr
    obtain ⟨hp, -, hidx⟩ := translate_eq_some htr
    obtain ⟨hown, hwk⟩ := h.pokePage hlv (va % pageSize) b
    rw [store_eq hp] at hst
    cases hst
    rw [hfe, hidx] at hown hwk
    exact ⟨hown, hwk, rfl⟩

/-! ## Giving a directory back -/

/-- The frames that `paging_free_user` frees are those the clone uses. -/
theorem live_of_uses (hD : D ∈ clones) (hK : D ≠ im.pageDir) {n : Nat} (hn : n ≤ pageEntries - 256)
    (hu : u ∈ s.uses D n) : Live im clones s u ∧ u.owner = D := by
  have hps : ∀ d m, m ≤ pageEntries → HasTable im clones s D d → ∀ v ∈ s.pageUses D d m,
      Live im clones s v ∧ v.owner = D := by
    intro d m hm ht v hv
    induction m with
    | zero => exact absurd hv List.not_mem_nil
    | succ m ih =>
      rcases List.mem_append.1 hv with hv | hv
      · exact ih (by omega) hv
      by_cases h0 : s.word (s.word D d / pageSize) m = 0
      · rw [if_pos h0] at hv
        exact absurd hv List.not_mem_nil
      · rw [if_neg h0] at hv
        obtain rfl := List.mem_singleton.1 hv
        exact ⟨⟨ht, by unfold pageEntries at hm; omega, h0⟩, rfl⟩
  induction n with
  | zero => exact absurd hu List.not_mem_nil
  | succ n ih =>
    rcases List.mem_append.1 hu with hu | hu
    · exact ih (by omega) hu
    by_cases h0 : s.word D (256 + n) = 0
    · rw [if_pos h0] at hu
      exact absurd hu List.not_mem_nil
    have ht : HasTable im clones s D (256 + n) := by
      refine ⟨.inr hD, ?_, by unfold pageEntries at hn; omega, h0⟩
      unfold firstOwn
      rw [if_neg hK]
      omega
    rw [if_neg h0] at hu
    rcases List.mem_append.1 hu with hu | hu
    · exact hps _ _ (Nat.le_refl _) ht u hu
    · obtain rfl := List.mem_singleton.1 hu
      exact ⟨ht, rfl⟩

theorem Owned.freed (h : Owned im clones s) (hD : D ∈ clones) (hf : f ∈ s.owned D (pageEntries - 256) ++ [D]) :
    ∃ u, Live im clones s u ∧ u.owner = D ∧ s.frameOf u = f := by
  have hK : D ≠ im.pageDir := (h.ne_image (u := .dir D) hD im.dir_image.2).symm
  rcases List.mem_append.1 hf with hf | hf
  · rw [← map_uses] at hf
    obtain ⟨u, hu, rfl⟩ := List.mem_map.1 hf
    obtain ⟨hlv, ho⟩ := live_of_uses hD hK (Nat.le_refl _) hu
    exact ⟨u, hlv, ho, rfl⟩
  · obtain rfl := List.mem_singleton.1 hf
    exact ⟨.dir f, hD, rfl, rfl⟩

theorem pmmFreeAll_base (p : Pmm) (fs : List Nat) : (pmmFreeAll p fs).baseFrame = p.baseFrame := by
  induction fs generalizing p with
  | nil => rfl
  | cons g gs ih =>
    refine (ih (pmmFree p (g * pageSize))).trans ?_
    unfold pmmFree
    simp only []
    split <;> rfl

theorem pmmFreeAll_other (p : Pmm) {fs : List Nat} (hf : f ∉ fs) : (pmmFreeAll p fs).refs f = p.refs f := by
  induction fs generalizing p with
  | nil => rfl
  | cons g gs ih =>
    rw [List.mem_cons, not_or] at hf
    refine (ih (pmmFree p (g * pageSize)) hf.2).trans ?_
    rw [pmmFree_refs, frameIdx_mul, if_neg fun hc => hf.1 hc.1]

section

variable (h : Owned im clones s) (hD : D ∈ clones)
include h hD

/-- Without `D` there are the uses of the others. -/
theorem Owned.live_rest (hu : Live im (clones.filter (· ≠ D)) s u) : Live im clones s u ∧ u.owner ≠ D := by
  have hK : D ≠ im.pageDir := (h.ne_image (u := .dir D) hD im.dir_image.2).symm
  have hmem : ∀ E, E ∈ clones.filter (· ≠ D) → E ∈ clones ∧ E ≠ D := by
    intro E hE
    rwa [List.mem_filter, decide_eq_true_eq] at hE
  have htb : ∀ E e, HasTable im (clones.filter (· ≠ D)) s E e → HasTable im clones s E e ∧ E ≠ D := by
    intro E e ht
    rcases ht.dir with rfl | hE
    · exact ⟨⟨.inl rfl, ht.own, ht.lt, ht.ne⟩, hK.symm⟩
    · exact ⟨⟨.inr (hmem E hE).1, ht.own, ht.lt, ht.ne⟩, (hmem E hE).2⟩
  cases u with
  | dir E => exact hmem E hu
  | table E e => exact htb E e hu
  | page E e i => exact ⟨⟨(htb E e hu.1).1, hu.2⟩, (htb E e hu.1).2⟩

theorem Owned.drop : Owned im (clones.filter (· ≠ D)) s where
  range u hu := h.range u (h.live_rest hD hu).1
  refs u hu := h.refs u (h.live_rest hD hu).1
  inj u v hu hv := h.inj u v (h.live_rest hD hu).1 (h.live_rest hD hv).1
  base := h.base
  held := h.held
  low := h.low
  kern := h.kern
  table E e ht := h.table E e (h.live_rest hD (u := .table E e) ht).1
  page E e i hu := h.page E e i (h.live_rest hD hu).1
  shared E hE := h.shared E (List.mem_filter.1 hE).1

theorem Owned.freeUser : Owned im (clones.filter (· ≠ D)) (s.pagingFreeUser (D * pageSize)) := by
  have hdrop := h.drop hD
  have hfreed := fun f hf => h.freed hD (f := f) hf
  rw [pagingFreeUser_eq]
  generalize s.owned D (pageEntries - 256) ++ [D] = fs at hfreed ⊢
  refine (hdrop.congr { s with pmm := pmmFreeAll s.pmm fs } (fun _ _ => rfl) (fun _ _ => rfl) (fun _ _ _ => rfl)
    (pmmFreeAll_base s.pmm fs) (fun f h1 h2 => ?_) fun u hu => ?_).1
  · have hf : f ∉ fs := by
      intro hf
      obtain ⟨u, hu, -, he⟩ := hfreed f hf
      have := (h.range u hu).1
      omega
    rw [pmmFreeAll_other s.pmm hf]
    exact h.held f h1 h2
  · have hf : s.frameOf u ∉ fs := by
      intro hf
      obtain ⟨hlv, hne⟩ := h.live_rest hD hu
      obtain ⟨v, hv, ho, he⟩ := hfreed _ hf
      rw [h.inj v u hv hlv he] at ho
      exact hne ho
    rw [pmmFreeAll_other s.pmm hf]
    exact hdrop.refs u hu

end

theorem pagingFreeUser_rest (s : Phys) (D : Nat) : (s.pagingFreeUser (D * pageSize)).active = s.active ∧
    SameRegions s (s.pagingFreeUser (D * pageSize)) := by
  rw [pagingFreeUser_eq]
  generalize pmmFreeAll s.pmm (s.owned D (pageEntries - 256) ++ [D]) = p
  exact ⟨rfl, rfl, rfl⟩

/-! ## Runs -/

/-- What holds in every state of a run. -/
structure SystemOk (im : Image) (clones : List Nat) (s : Phys) : Prop extends SpaceOk im clones s where
  ptr : 0x1000000 ≤ s.vmallocPtr ∧ s.vmallocPtr < 0x2000000

theorem SystemOk.of_owned (h : SystemOk im clones s) (hown : Owned im clones s') (hact : s'.active = s.active)
    (hreg : SameRegions s s') : SystemOk im clones s' :=
  ⟨⟨hown, by rw [hact]; exact h.cr3⟩, by rw [hreg.2]; exact h.ptr⟩

theorem SystemOk.steady (im : Image) (clones : List Nat) : Steady im (SystemOk im clones) where
  base h := by
    rw [h.owned.base]
    decide
  ptr h := h.ptr
  map {s va p flags} h hge hva hf hp := by
    obtain ⟨hown, hspr⟩ := h.owned.take hp
    obtain ⟨hact, hreg⟩ := pagingMap_rest (s.take p) im va (p * pageSize) flags
    exact h.of_owned (hown.pagingMap hge hva hf hspr) hact hreg
  mapCleared {s va p flags} h hge hva hf hp := by
    obtain ⟨hown, hspr⟩ := h.owned.take hp
    obtain ⟨hown, -, hspare2⟩ := hown.zeroSpare hspr
    obtain ⟨hact, hreg⟩ := pagingMap_rest ((s.take p).zeroFrame p) im va (p * pageSize) flags
    exact h.of_owned (hown.pagingMap hge hva hf (hspare2 p hspr)) hact hreg
  unmap {s va} h hge hva := by
    obtain ⟨hact, hreg⟩ := s.pagingUnmap_rest im va
    exact h.of_owned (h.owned.pagingUnmap hge hva) hact hreg
  store {s s' va b} h hge hva hst := by
    obtain ⟨hown, -, hrs⟩ := h.owned.storeTo h.cr3 hge hva hst
    refine h.of_owned hown ?_ ?_
    · rw [hrs]
      rfl
    · rw [hrs]
      exact ⟨rfl, rfl⟩
  regions {s} rs ptr h hge hlt :=
    ⟨⟨(h.owned.congr { s with vregions := rs, vmallocPtr := ptr } (fun _ _ => rfl) (fun _ _ => rfl) (fun _ _ _ => rfl)
      rfl h.owned.held h.owned.refs).1, h.cr3⟩, hge, hlt⟩

inductive SystemOp
  | space (op : SpaceOp)
  | vmalloc (n : Nat)
  | elfLoadMem (data : Bytes) (bufsz : Nat)
  | freeUser (D : Nat)

/-- One call.  A directory is given back when CR3 holds another. -/
def SystemStep (im : Image) (w : List Nat × Phys) : SystemOp → List Nat × Phys → Prop
  | .space op, w' => SpaceStep im w op w'
  | .vmalloc n, w' => n < 2 ^ 32 ∧ ∃ r s', w.2.vmalloc im n = some (r, s') ∧ w' = (w.1, s')
  | .elfLoadMem data bufsz, w' => bufsz < 2 ^ 32 ∧ ElfHigh data bufsz ∧
      ∃ r s', w.2.elfLoadMem im data bufsz = some (r, s') ∧ w' = (w.1, s')
  | .freeUser D, w' => D ∈ w.1 ∧ w.2.active ≠ D ∧ w' = (w.1.filter (· ≠ D), w.2.pagingFreeUser (D * pageSize))

theorem SpaceStep.regions {op : SpaceOp} (h : SpaceOk im w.1 w.2) (hs : SpaceStep im w op w') :
    w'.2.vmallocPtr = w.2.vmallocPtr := by
  cases op with
  | alloc =>
    obtain rfl := hs
    rfl
  | map v p flags =>
    obtain ⟨-, -, -, -, rfl⟩ := hs
    exact (w.2.pagingMap_rest im v _ flags).2.2
  | unmap v =>
    obtain ⟨-, -, rfl⟩ := hs
    exact (w.2.pagingUnmap_rest im v).2.2
  | clone =>
    obtain ⟨d, s', hc, rfl⟩ := hs
    by_cases hd : d = 0
    · subst hd
      obtain ⟨-, -, hrs⟩ := pagingCloneDir_fail h.owned.inUse hc
      rw [hrs]
    · obtain ⟨dir, s1, fs, rfl, hcl⟩ := pagingCloneDir_spec h.owned.inUse hc hd
      rw [hcl.ext.rest]
  | switch d =>
    obtain ⟨-, rfl⟩ := hs
    rfl

theorem SystemOk.step {op : SystemOp} (h : SystemOk im w.1 w.2) (hs : SystemStep im w op w') :
    SystemOk im w'.1 w'.2 := by
  cases op with
  | space op => exact ⟨h.toSpaceOk.step hs, by rw [SpaceStep.regions h.toSpaceOk hs]; exact h.ptr⟩
  | vmalloc n =>
    obtain ⟨-, r, s', hv, rfl⟩ := hs
    exact (SystemOk.steady im w.1).vmalloc h hv
  | elfLoadMem data bufsz =>
    obtain ⟨-, hhigh, r, s', he, rfl⟩ := hs
    exact (SystemOk.steady im w.1).elfLoadMem h hhigh he
  | freeUser D =>
    obtain ⟨hD, hact, rfl⟩ := hs
    obtain ⟨hsm, hreg⟩ := w.2.pagingFreeUser_rest D
    refine ⟨⟨h.owned.freeUser hD, ?_⟩, by rw [hreg.2]; exact h.ptr⟩
    rw [hsm]
    refine h.cr3.imp_right fun hcr3 => ?_
    rw [List.mem_filter, decide_eq_true_eq]
    exact ⟨hcr3, hact⟩

theorem SystemOk.run {memKb : Nat} {mem : Nat → Bytes} {ops : List SystemOp}
    (hrun : Run (SystemStep im) ([], pagingInit im memKb mem) ops (clones, s)) : SystemOk im clones s :=
  Run.invariant (fun w : List Nat × Phys => SystemOk im w.1 w.2)
    ⟨SpaceOk.boot im memKb mem, (by decide : 0x1000000 ≤ vmallocBase), (by decide : vmallocBase < 0x2000000)⟩
    (fun _ _ _ h hs => h.step hs) hrun

/-! ## Address spaces -/

/-- Directory `D` maps `va`, from 16 MB on, to `pa`. -/
def Maps (im : Image) (clones : List Nat) (s : Phys) (D va pa : Nat) : Prop :=
  (D = im.pageDir ∨ D ∈ clones) ∧ 0x1000000 ≤ va ∧ va < 2 ^ 32 ∧ s.translate D va = some pa

/-- **Address spaces are apart.**  Two pages are in one frame just if they are one page of one directory, or one below
1 GB; and the frame is counted, and no directory's and no table's. -/
theorem spaces_apart {memKb : Nat} {mem : Nat → Bytes} {ops : List SystemOp}
    (hrun : Run (SystemStep im) ([], pagingInit im memKb mem) ops (clones, s)) :
    (∀ D E va vb pa pb, Maps im clones s D va pa → Maps im clones s E vb pb →
      (frameIdx pa = frameIdx pb ↔ va / pageSize = vb / pageSize ∧ (D = E ∨ va < 0x40000000))) ∧
    ∀ D va pa, Maps im clones s D va pa → s.pmm.refs (frameIdx pa) ≠ 0 ∧ frameIdx pa ∉ im.pageDir :: clones ∧
      ∀ E d, HasTable im clones s E d → frameIdx pa ≠ s.word E d / pageSize := by
  have h := (SystemOk.run hrun).owned
  constructor
  · rintro D E va vb pa pb ⟨hD, hva, hva', hpa⟩ ⟨hE, hvb, hvb', hpb⟩
    obtain ⟨hla, hfa⟩ := h.page_of hD hva hva' hpa
    obtain ⟨hlb, hfb⟩ := h.page_of hE hvb hvb' hpb
    have hlow : va < 0x40000000 ↔ pageDirIdx va < 256 := by
      unfold pageDirIdx
      omega
    have hone := (⟨h.inj _ _ hla hlb, congrArg s.frameOf⟩ : s.frameOf _ = s.frameOf _ ↔ _)
    rw [← hfa, ← hfb, hone, Use.page.injEq, ← same_page, hlow]
    unfold tablesOf
    grind
  · rintro D va pa ⟨hD, hva, hva', hpa⟩
    obtain ⟨hlv, hfa⟩ := h.page_of hD hva hva' hpa
    rw [← hfa]
    refine ⟨h.refs _ hlv, fun hm => ?_, fun E d hd he => ?_⟩
    · rcases List.mem_cons.1 hm with hm | hm
      · exact h.ne_image hlv im.dir_image.2 hm.symm
      · cases h.inj _ (.dir _) hlv hm rfl
    · cases h.inj _ (.table E d) hlv hd he

/-- The page at 1 GB is mapped after boot. -/
theorem spaces_apart_one_page : ∃ s, Run (SystemStep sampleImage) ([], pagingInit sampleImage 32768 fun _ _ => 0)
    [.space .alloc, .space (.map 0x40000000 0x500 3)] ([], s) ∧ s.pmm.refs (frameIdx (0x500 * pageSize)) ≠ 0 := by
  obtain ⟨p, hp, -, hspr⟩ := (pagingInit_owned sampleImage 32768 fun _ _ => 0).alloc (by rw [sample_alloc]; decide)
  obtain rfl : 0x500 = p := Nat.eq_of_mul_eq_mul_right (by decide) (sample_alloc.symm.trans hp)
  have halloc := Run.single (show SystemStep sampleImage ([], pagingInit sampleImage 32768 fun _ _ => 0)
    (.space .alloc) _ from rfl)
  have hrun := halloc.snoc (show SystemStep _ _ (.space (.map 0x40000000 0x500 3)) ([], _) from
    ⟨by decide, by decide, by decide, hspr, rfl⟩)
  have hmap := (spaces_apart hrun).2 sampleImage.pageDir 0x40000000 (0x500 * pageSize)
  exact ⟨_, hrun, (hmap ⟨.inl rfl, by decide, by decide, by decide +kernel⟩).1⟩

end

end Phys

end KumOS.Paging
