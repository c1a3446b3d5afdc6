import KumOS.Paging.Loader
import KumOS.Paging.Fork

/-!
# Requested and effective permissions

What the callers of `paging_map` keep: the ownership invariant, CR3, the allocator's
frames, and for every page that is mapped the flags that were asked for.  A table
made by `pte_ptr` is entered into `page_dir` without `PAGE_USER`, so exactly the
pages asked for without it get the permissions that were asked for
(`permissions_iff`).
-/

namespace KumOS.Paging

open Lib
open Vm (pageDirIdx)
open Function (update update_self update_of_ne)

variable {bufsz flags i n p va : Nat} {src : Nat → UInt8} {r : ElfResult} {data : Bytes}
variable {D d memKb virt : Nat} {b : Bool} {r' : ElfResult}

/-! ## The allocator -/

/-- The frames that have been handed out are those of the machine. -/
structure FramesOk (memKb : Nat) (p : Pmm) : Prop where
  base : p.baseFrame = 0x100
  total : p.totalFrames = (pmmInit memKb).totalFrames
  handed : ∀ f ∈ p.handed, ∃ i, f = i * pageSize ∧ i < 0x100 + (pmmInit memKb).totalFrames

theorem FramesOk.init (memKb : Nat) : FramesOk memKb (pmmInit memKb) := ⟨rfl, rfl, fun _ hf => absurd hf List.not_mem_nil⟩

theorem FramesOk.take {p : Pmm} (h : FramesOk memKb p) (hi : p.Free i) : FramesOk memKb (p.take i) := by
  refine ⟨h.base, h.total, fun f hf => ?_⟩
  rcases List.mem_cons.1 hf with rfl | hf
  · have hlt := hi.lt
    rw [h.base, h.total] at hlt
    exact ⟨i, rfl, hlt⟩
  · exact h.handed f hf

theorem FramesOk.free {p : Pmm} (h : FramesOk memKb p) (addr : Nat) : FramesOk memKb (pmmFree p addr) := by
  have hol := pmmFree_only p addr
  refine ⟨hol.base.trans h.base, hol.total.trans h.total, fun f hf => ?_⟩
  rw [pmmFree_handed] at hf
  exact h.handed f hf

namespace Phys

section

variable {im : Image} {clones : List Nat} {s s' : Phys}

/-- `paging_map` takes at most one frame, for the table. -/
theorem pagingMap_pmm (im : Image) (s : Phys) (va phys flags : Nat) :
    (s.pagingMap im va phys flags).pmm = s.pmm ∨
      ∃ t, s.pmm.Free t ∧ (s.pagingMap im va phys flags).pmm = s.pmm.take t := by
  unfold pagingMap ptePtrAlloc
  by_cases hp : s.word im.pageDir (pageDirIdx va) % 2 = pagePresent
  · rw [if_pos hp]
    exact .inl rfl
  rw [if_neg hp]
  rcases pmmAlloc_cases s.pmm with ⟨he, -⟩ | ⟨t, ht, -, he⟩
  · rw [he]
    exact .inl rfl
  rw [he]
  refine .inr ⟨t, ht, ?_⟩
  by_cases h0 : t * pageSize = 0
  · simp only [if_pos h0]
  · simp only [if_neg h0]
    rfl

theorem pagingMap_freeFrames (im : Image) (s : Phys) (va phys flags : Nat) :
    (s.pagingMap im va phys flags).pmm.freeFrames ≤ s.pmm.freeFrames := by
  rcases pagingMap_pmm im s va phys flags with hq | ⟨t, ht, hq⟩
  · exact Nat.le_of_eq (congrArg Pmm.freeFrames hq)
  · have := Pmm.freeFrames_take ht
    rw [hq]
    omega

theorem pagingUnmap_pmm (im : Image) (s : Phys) (va : Nat) :
    (s.pagingUnmap im va).pmm = s.pmm ∨ ∃ addr, (s.pagingUnmap im va).pmm = pmmFree s.pmm addr := by
  unfold pagingUnmap
  split
  · exact .inl rfl
  simp only []
  split
  · exact .inl rfl
  · exact .inr ⟨_, rfl⟩

/-! ## Writes to pages -/

section

variable (h : Owned im clones s)
include h

/-- A frame that is neither a directory nor a table may be written. -/
theorem Owned.write (s' : Phys) {f : Nat} (hf : 0x500 ≤ f) (hdirs : ∀ D ∈ clones, D ≠ f)
    (htab : ∀ D d, HasTable im clones s D d → s.word D d / pageSize ≠ f) (hpmm : s'.pmm = s.pmm)
    (hmem : ∀ g, g ≠ f → s'.mem g = s.mem g) :
    Owned im clones s' ∧ (∀ x < 2 ^ 32, s'.walk im.pageDir x = s.walk im.pageDir x) ∧
      ∀ p, Spare im clones s p → Spare im clones s' p := by
  have hK : s'.mem im.pageDir = s.mem im.pageDir := by
    have := im.dir_image
    exact hmem _ (by omega)
  have hkern : ∀ t < 4, s'.mem (im.kernTables + t) = s.mem (im.kernTables + t) := by
    intro t ht
    have := kern_lt im ht
    exact hmem _ (by omega)
  have hdir : ∀ D, D = im.pageDir ∨ D ∈ clones → s'.mem D = s.mem D := by
    rintro D (rfl | hD)
    · exact hK
    · exact hmem D (hdirs D hD)
  obtain ⟨hown, hlv, hfe⟩ := h.congr s' hdir hkern (fun D d ht => hmem _ (htab D d ht)) (by rw [hpmm])
    (by rw [hpmm]; exact h.held) (by rw [hpmm]; exact h.refs)
  refine ⟨hown, fun x hx => walk_congr (word_congr hK _) ?_, fun p hp => ⟨hp.ge, hp.lt, by rw [hpmm]; exact hp.refs,
    fun u hu => ?_⟩⟩
  · by_cases h0 : s.word im.pageDir (pageDirIdx x) = 0
    · rw [h0]
      exact word_congr (hmem 0 (by omega)) _
    · by_cases hlow : pageDirIdx x < 4
      · have hdiv : s.word im.pageDir (pageDirIdx x) / pageSize = im.kernTables + pageDirIdx x := by
          rw [h.low _ hlow]
          unfold pageSize
          omega
        rw [hdiv]
        exact word_congr (hkern _ hlow) _
      · exact word_congr (hmem _ (htab _ _ (hasTable_kernel (by omega) (pageDirIdx_lt hx) h0))) _
  · have hu := (hlv u).1 hu
    rw [hfe u hu]
    exact hp.unused u hu

theorem Owned.zeroSpare (hp : Spare im clones s p) :
    Owned im clones (s.zeroFrame p) ∧ (∀ x < 2 ^ 32, (s.zeroFrame p).walk im.pageDir x = s.walk im.pageDir x) ∧
      ∀ q, Spare im clones s q → Spare im clones (s.zeroFrame p) q :=
  h.write (s.zeroFrame p) hp.ge (fun D hD => hp.unused (.dir D) hD) (fun D d ht => hp.unused (.table D d) ht) rfl
    fun _ hg => mem_zeroFrame_ne _ hg

theorem Owned.page_alone (hlv : Live im clones s (.page D d i)) :
    (∀ E ∈ clones, E ≠ s.frameOf (.page D d i)) ∧
      ∀ E e, HasTable im clones s E e → s.word E e / pageSize ≠ s.frameOf (.page D d i) := by
  constructor
  · intro E hE he
    have hu := h.inj (.dir E) _ hE hlv he
    cases hu
  · intro E e ht he
    have hu := h.inj (.table E e) _ ht hlv he
    cases hu

theorem Owned.pokePage (hlv : Live im clones s (.page D d i)) (o : Nat) (b : UInt8) :
    Owned im clones (s.poke (s.frameOf (.page D d i)) o b) ∧
      ∀ x < 2 ^ 32, (s.poke (s.frameOf (.page D d i)) o b).walk im.pageDir x = s.walk im.pageDir x := by
  obtain ⟨hdirs, htab⟩ := h.page_alone hlv
  obtain ⟨hown, hwk, -⟩ := h.write (s.poke (s.frameOf (.page D d i)) o b) (h.range _ hlv).1 hdirs htab rfl
    fun g hg => mem_poke_ne s hg _ b
  exact ⟨hown, hwk⟩

theorem Owned.store {b : UInt8} (hge : 0x1000000 ≤ va) (hva : va < 2 ^ 32)
    (hst : s.store im.pageDir va b = some s') : Owned im clones s' ∧
      (∀ x < 2 ^ 32, s'.walk im.pageDir x = s.walk im.pageDir x) ∧ s' = { s with mem := s'.mem } := by
  cases htr : s.translate im.pageDir va with
  | none =>
    unfold Phys.store at hst
    rw [htr] at hst
    cases hst
  | some pa =>
    obtain ⟨hp, -, hfe⟩ := translate_eq_some htr
    obtain ⟨hlv, hfr⟩ := h.live_of_translate hge hva htr
    rw [store_eq hp] at hst
    cases hst
    rw [hfe] at hfr
    obtain ⟨hown, hwk⟩ := h.pokePage hlv (va % pageSize) b
    rw [hfr] at hown hwk
    exact ⟨hown, hwk, rfl⟩

end

end

/-! ## The invariant -/

/-- What the callers of `paging_map` keep. -/
structure MemOk (im : Image) (memKb : Nat) (s : Phys) : Prop where
  owned : Owned im [] s
  cr3 : s.active = im.pageDir
  pmm : FramesOk memKb s.pmm
  ptr : 0x1000000 ≤ s.vmallocPtr ∧ s.vmallocPtr < 0x2000000
  /-- a page that `paging_map` has mapped has the flags that were asked for -/
  asked : ∀ pg flags, s.asked pg = some flags → 0x1000 ≤ pg ∧ pg < 2 ^ 20 ∧ flags < 4096 ∧
    ∃ p < 65536, s.walk im.pageDir (pg * pageSize) = pteOf p flags

section

variable {im : Image} {memKb : Nat} {s s' : Phys}

theorem MemOk.boot (im : Image) (memKb : Nat) (mem : Nat → Bytes) : MemOk im memKb (pagingInit im memKb mem) :=
  ⟨pagingInit_owned im memKb mem, frameIdx_mul im.pageDir, .init memKb,
    ⟨(by decide : 0x1000000 ≤ vmallocBase), (by decide : vmallocBase < 0x2000000)⟩, fun _ _ h => by cases h⟩

section

variable (h : MemOk im memKb s)
include h

theorem MemOk.quiet (hown : Owned im [] s')
    (hwk : ∀ x < 2 ^ 32, s'.walk im.pageDir x = s.walk im.pageDir x) (hpmm : FramesOk memKb s'.pmm)
    (hrs : s' = { s with mem := s'.mem, pmm := s'.pmm }) : MemOk im memKb s' := by
  refine ⟨hown, ?_, hpmm, ?_, fun pg flags hf => ?_⟩
  · rw [hrs]
    exact h.cr3
  · rw [hrs]
    exact h.ptr
  · rw [hrs] at hf
    obtain ⟨h1, h2, h3, p, hp, hw⟩ := h.asked pg flags hf
    refine ⟨h1, h2, h3, p, hp, ?_⟩
    rw [hwk _ (by unfold pageSize; omega)]
    exact hw

theorem MemOk.setRegions (rs : List VRegion) (ptr : Nat) (hge : 0x1000000 ≤ ptr)
    (hlt : ptr < 0x2000000) : MemOk im memKb { s with vregions := rs, vmallocPtr := ptr } :=
  ⟨(h.owned.congr { s with vregions := rs, vmallocPtr := ptr } (fun _ _ => rfl) (fun _ _ => rfl) (fun _ _ _ => rfl) rfl
    h.owned.held h.owned.refs).1, h.cr3, h.pmm, ⟨hge, hlt⟩, h.asked⟩

theorem MemOk.take (hp : s.pmm.Free p) : MemOk im memKb (s.take p) ∧ Spare im [] (s.take p) p := by
  obtain ⟨hown, hspr⟩ := h.owned.take hp
  exact ⟨h.quiet hown (fun _ _ => rfl) (h.pmm.take hp) rfl, hspr⟩

/-- `pmm_alloc` -/
theorem MemOk.alloc : MemOk im memKb { s with pmm := (pmmAlloc s.pmm).2 } := by
  rcases pmmAlloc_cases s.pmm with ⟨he, -⟩ | ⟨p, hp, -, he⟩
  · rw [he]
    exact h
  · rw [he]
    exact (h.take hp).1

theorem MemOk.zeroSpare (hp : Spare im [] s p) : MemOk im memKb (s.zeroFrame p) ∧ Spare im [] (s.zeroFrame p) p := by
  obtain ⟨hown, hwk, hspr⟩ := h.owned.zeroSpare hp
  exact ⟨h.quiet hown hwk h.pmm rfl, hspr p hp⟩

end

theorem page_addr {pg : Nat} : pg * pageSize / pageSize = va / pageSize ↔ pg = va / pageSize := by
  rw [Nat.mul_div_cancel _ (by decide : 0 < pageSize)]

theorem MemOk.pagingMap (h : MemOk im memKb s) (hge : 0x1000000 ≤ va) (hva : va < 2 ^ 32) (hf : flags < 4096)
    (hp : Spare im [] s p) : MemOk im memKb (s.pagingMap im va (p * pageSize) flags) := by
  rcases h.owned.pagingMap_cases hge hva hf with ⟨he, -⟩ | ⟨s1, hg, htab, he⟩
  · rw [he]
    exact h
  have hown := h.owned.pagingMap hge hva hf hp
  have hwk := fun x hx => h.owned.walk_pagingMap hge hva hf hp htab (x := x) hx
  have hpmm : FramesOk memKb (s.pagingMap im va (p * pageSize) flags).pmm := by
    rcases pagingMap_pmm im s va (p * pageSize) flags with hq | ⟨t, ht, hq⟩
    · rw [hq]
      exact h.pmm
    · rw [hq]
      exact h.pmm.take ht
  have hptr : (s.pagingMap im va (p * pageSize) flags).vmallocPtr = s.vmallocPtr := by
    rw [he, hg.rest]
    rfl
  have hasked : (s.pagingMap im va (p * pageSize) flags).asked =
      update s.asked (va / pageSize) (some flags) := by
    rw [he, hg.rest]
    rfl
  refine ⟨hown, (s.pagingMap_active ..).trans h.cr3, hpmm, by rw [hptr]; exact h.ptr, fun pg fl hpg => ?_⟩
  rw [hasked] at hpg
  by_cases hpage : pg = va / pageSize
  · rw [hpage, update_self] at hpg
    obtain rfl := Option.some.inj hpg
    refine ⟨by unfold pageSize at hpage; omega, by unfold pageSize at hpage; omega, hf, p, hp.lt, ?_⟩
    rw [hwk _ (by unfold pageSize at *; omega), if_pos (page_addr.2 hpage)]
  rw [update_of_ne hpage] at hpg
  obtain ⟨h1, h2, h3, q, hq, hw⟩ := h.asked pg fl hpg
  refine ⟨h1, h2, h3, q, hq, ?_⟩
  rw [hwk _ (by unfold pageSize; omega), if_neg fun hc => hpage (page_addr.1 hc)]
  exact hw

theorem MemOk.pagingUnmap (h : MemOk im memKb s) (hge : 0x1000000 ≤ va) (hva : va < 2 ^ 32) :
    MemOk im memKb (s.pagingUnmap im va) := by
  have hown := h.owned.pagingUnmap hge hva
  have hpmm : FramesOk memKb (s.pagingUnmap im va).pmm := by
    rcases pagingUnmap_pmm im s va with hq | ⟨addr, hq⟩
    · rw [hq]
      exact h.pmm
    · rw [hq]
      exact h.pmm.free addr
  have hwk := fun x hx => (h.owned.walk_pagingUnmap hge hva (x := x) hx).2
  rcases h.owned.pagingUnmap_cases hge hva with ⟨he, -⟩ | ⟨-, -, he⟩
  · rw [he]
    exact h
  have hptr : (s.pagingUnmap im va).vmallocPtr = s.vmallocPtr := by
    rw [he]
    rfl
  have hasked : (s.pagingUnmap im va).asked = update s.asked (va / pageSize) none := by
    rw [he]
    rfl
  refine ⟨hown, (s.pagingUnmap_active ..).trans h.cr3, hpmm, by rw [hptr]; exact h.ptr, fun pg fl hpg => ?_⟩
  rw [hasked] at hpg
  by_cases hpage : pg = va / pageSize
  · rw [hpage, update_self] at hpg
    cases hpg
  rw [update_of_ne hpage] at hpg
  obtain ⟨h1, h2, h3, q, hq, hw⟩ := h.asked pg fl hpg
  refine ⟨h1, h2, h3, q, hq, ?_⟩
  rw [hwk _ (by unfold pageSize; omega) fun hc => hpage (page_addr.1 hc)]
  exact hw

/-! ## Steps on pages from 16 MB on -/

/-- What is kept when such a page gets a frame, loses it, or is stored to. -/
structure Steady (im : Image) (Q : Phys → Prop) : Prop where
  base : ∀ {s}, Q s → 0 < s.pmm.baseFrame
  ptr : ∀ {s}, Q s → 0x1000000 ≤ s.vmallocPtr ∧ s.vmallocPtr < 0x2000000
  map : ∀ {s va p flags}, Q s → 0x1000000 ≤ va → va < 2 ^ 32 → flags < 4096 → s.pmm.Free p →
    Q (({ s with pmm := s.pmm.take p } : Phys).pagingMap im va (p * pageSize) flags)
  mapCleared : ∀ {s va p flags}, Q s → 0x1000000 ≤ va → va < 2 ^ 32 → flags < 4096 → s.pmm.Free p →
    Q ((({ s with pmm := s.pmm.take p } : Phys).zeroFrame p).pagingMap im va (p * pageSize) flags)
  unmap : ∀ {s va}, Q s → 0x1000000 ≤ va → va < 2 ^ 32 → Q (s.pagingUnmap im va)
  store : ∀ {s s' va b}, Q s → 0x1000000 ≤ va → va < 2 ^ 32 → s.store s.active va b = some s' → Q s'
  regions : ∀ {s} rs ptr, Q s → 0x1000000 ≤ ptr → ptr < 0x2000000 → Q { s with vregions := rs, vmallocPtr := ptr }

theorem MemOk.steady (im : Image) (memKb : Nat) : Steady im (MemOk im memKb) where
  base h := by
    have := h.pmm.base
    omega
  ptr h := h.ptr
  map h hge hva hf hp := by
    obtain ⟨hok, hspr⟩ := h.take hp
    exact hok.pagingMap hge hva hf hspr
  mapCleared h hge hva hf hp := by
    obtain ⟨hok, hspr⟩ := h.take hp
    obtain ⟨hok, hspr⟩ := hok.zeroSpare hspr
    exact hok.pagingMap hge hva hf hspr
  unmap h hge hva := h.pagingUnmap hge hva
  store {s s' va b} h hge hva hst := by
    rw [h.cr3] at hst
    obtain ⟨hown, hwk, hrs⟩ := h.owned.store hge hva hst
    have hpmm : s'.pmm = s.pmm := by rw [hrs]
    refine h.quiet hown hwk (by rw [hpmm]; exact h.pmm) ?_
    rw [hrs]
  regions rs ptr h hge hlt := h.setRegions rs ptr hge hlt

section

variable {Q : Phys → Prop}

theorem storeBytes_rest (h : s.storeBytes va src n = some s') : s' = { s with mem := s'.mem } := by
  induction n generalizing s' with
  | zero =>
    cases h
    rfl
  | succ n ih =>
    obtain ⟨s1, h1, h2⟩ := Option.bind_eq_some_iff.1 h
    obtain ⟨pa, -, rfl⟩ := Option.map_eq_some_iff.1 h2
    rw [ih h1]

theorem storeBytes_pmm (h : s.storeBytes va src n = some s') : s'.pmm = s.pmm := by
  rw [storeBytes_rest h]

section

variable (hQ : Steady im Q)
include hQ

theorem Steady.storeBytes (h : Q s) (hge : 0x1000000 ≤ va) (hn : va + n ≤ 2 ^ 32)
    (hst : s.storeBytes va src n = some s') : Q s' := by
  induction n generalizing s' with
  | zero =>
    cases hst
    exact h
  | succ n ih =>
    obtain ⟨s1, h1, hst⟩ := Option.bind_eq_some_iff.1 hst
    have hu32 : u32 (va + n) = va + n := Nat.mod_eq_of_lt (by omega)
    exact hQ.store (ih (by omega) h1) (by omega) (by omega) hst

/-! ## `vmalloc` -/

theorem Steady.unmapLoop (h : Q s) (hge : 0x1000000 ≤ virt)
    (hn : virt + n * pageSize < 2 ^ 32) : Q (unmapLoop im n virt s) := by
  induction n generalizing virt s with
  | zero => exact h
  | succ n ih =>
    have hnx : u32 (virt + pageSize) = virt + pageSize := Nat.mod_eq_of_lt (by unfold pageSize at *; omega)
    rw [Phys.unmapLoop, hnx]
    refine ih (hQ.unmap h hge ?_) ?_ ?_
    · unfold pageSize at hn
      omega
    · omega
    · unfold pageSize at *
      omega

/-- Every page takes a frame, so the loop ends long before the addresses wrap. -/
theorem Steady.mapLoop {done : Nat} (h : Q s) (hge : 0x1000000 ≤ virt)
    (hlt : virt < 0x2000000) (hdone : done + s.pmm.freeFrames ≤ 65536) {r : Bool}
    (hl : mapLoop im virt n done s = some (r, s')) : Q s' ∧ (r = true → done + n ≤ 65536) := by
  induction n generalizing done s with
  | zero =>
    cases hl
    exact ⟨h, fun _ => by omega⟩
  | succ n ih =>
    rw [Phys.mapLoop] at hl
    rcases pmmAlloc_cases s.pmm with ⟨he, -⟩ | ⟨p, hp, -, he⟩
    · rw [he] at hl
      simp only [if_pos] at hl
      cases hl
      refine ⟨hQ.unmapLoop h hge ?_, nofun⟩
      unfold pageSize
      omega
    have hne := hp.addr_ne (hQ.base h)
    have hlf := Pmm.freeFrames_take hp
    have hu32 : u32 (virt + done * pageSize) = virt + done * pageSize := Nat.mod_eq_of_lt (by unfold pageSize; omega)
    rw [he] at hl
    simp only [if_neg hne, hu32] at hl
    obtain ⟨s2, hset, hl⟩ := Option.bind_eq_some_iff.1 hl
    have hva : virt + done * pageSize < 2 ^ 32 - pageSize := by
      unfold pageSize
      omega
    have hmap := hQ.map h (Nat.le_add_right_of_le hge) (by omega : virt + done * pageSize < 2 ^ 32)
      (show pageWrite < 4096 by decide) hp
    have hok := hQ.storeBytes hmap (Nat.le_add_right_of_le hge) (by omega) hset
    have hfr := pagingMap_freeFrames im (s.take p) (virt + done * pageSize) (p * pageSize) pageWrite
    rw [← storeBytes_pmm hset] at hfr
    have hfr : s2.pmm.freeFrames ≤ (s.pmm.take p).freeFrames := hfr
    obtain ⟨hres, hct⟩ := ih hok (by omega) hl
    exact ⟨hres, fun hr => by have := hct hr; omega⟩

theorem Steady.vmalloc (h : Q s) {r : Nat} (hv : s.vmalloc im n = some (r, s')) : Q s' := by
  unfold Phys.vmalloc at hv
  simp only [] at hv
  split at hv
  · cases hv
    exact h
  split at hv
  · cases hv
    exact h
  rename_i hend
  obtain ⟨⟨b, s1⟩, hl, hv⟩ := Option.map_eq_some_iff.1 hv
  have hmax : s.pmm.freeFrames ≤ 65536 := tally_le _ _
  obtain ⟨hptr, hptr2⟩ := hQ.ptr h
  obtain ⟨hok, hct⟩ := hQ.mapLoop h hptr hptr2 (by omega) hl
  cases b with
  | false =>
    cases hv
    exact hok
  | true =>
    cases hv
    -- the pages were there, so the new pointer has not wrapped
    have hps := hct rfl
    have hsz : pageAlign n / pageSize * pageSize = pageAlign n := by
      unfold pageAlign
      rw [Nat.mul_div_cancel _ (by decide : 0 < pageSize)]
    have hnx : u32 (s.vmallocPtr + pageAlign n) = s.vmallocPtr + pageAlign n := by
      refine Nat.mod_eq_of_lt ?_
      unfold pageSize at hsz hps
      omega
    have hend : s.vmallocPtr + pageAlign n < 0x2000000 := by
      rw [hnx] at hend
      exact Nat.lt_of_not_le hend
    have hset := hQ.regions (s1.vregions ++ [⟨s.vmallocPtr, pageAlign n, true⟩])
      (s.vmallocPtr + pageAlign n) hok (by omega) hend
    rw [hnx]
    exact hset

/-! ## `elf_load_mem` -/

theorem Steady.elfPages (h : Q s) (hge : 0x1000000 ≤ va) (hn : va + n * pageSize ≤ 2 ^ 32) :
    Q (elfPages im n va s).2 := by
  induction n generalizing va s with
  | zero => exact h
  | succ n ih =>
    obtain ⟨hva, hnx⟩ := pages_succ hn
    rw [Phys.elfPages]
    split
    · exact ih h (by omega) hnx
    rcases pmmAlloc_cases s.pmm with ⟨he, -⟩ | ⟨p, hp, -, he⟩
    · rw [he]
      exact h
    · rw [he]
      simp only [if_neg (hp.addr_ne (hQ.base h)), frameIdx_mul]
      exact ih (hQ.mapCleared h hge hva (by decide) hp) (by omega) hnx

end

/-- The segment lies above 16 MB and does not wrap. -/
structure Phdr.High (ph : Phdr) (bufsz : Nat) : Prop where
  ge : 0x1000000 ≤ ph.vaddr
  mem : ph.vaddr + ph.memsz ≤ 2 ^ 32
  file : ph.vaddr + ph.copy bufsz ≤ 2 ^ 32

theorem Steady.elfSegment (hQ : Steady im Q) (h : Q s) {ph : Phdr} (hhigh : Phdr.Loads ph → Phdr.High ph bufsz)
    (hs : elfSegment im data bufsz ph r s = some (b, r', s')) : Q s' := by
  rcases elfSegment_cases hs with ⟨-, rfl, -⟩ | ⟨hl, he, -⟩ | ⟨hl, s1, s2, he, hcpy, hset, -⟩
  · exact h
  all_goals
    have hh := hhigh hl
    have hge := hh.ge
    have hmem := hh.mem
    have hsr : 0x1000000 ≤ Phdr.vstart ph := by
      unfold Phdr.vstart pageSize
      omega
    have hps := hQ.elfPages h hsr (Nat.le_of_lt (pages_end hl))
    rw [he] at hps
  · exact hps
  · have hok2 := hQ.storeBytes hps hge hh.file hcpy
    by_cases hf : ph.filesz < ph.memsz
    · have hu32 : u32 (ph.vaddr + ph.filesz) = ph.vaddr + ph.filesz := Nat.mod_eq_of_lt (by omega)
      rw [hu32] at hset
      exact hQ.storeBytes hok2 (by omega) (by omega) hset
    · rw [Nat.sub_eq_zero_of_le (Nat.le_of_not_lt hf)] at hset
      cases hset
      exact hok2

/-- The segments of an image that are loaded lie above 16 MB. -/
def ElfHigh (data : Bytes) (bufsz : Nat) : Prop :=
  ∀ i < elfPhnum data, u32 (elfPhoff data i + elfPhdrSize) ≤ bufsz → Phdr.Loads (elfPhdr data i) →
    Phdr.High (elfPhdr data i) bufsz

theorem Steady.elfLoadMem (hQ : Steady im Q) (h : Q s) (hhigh : ElfHigh data bufsz)
    (hs : s.elfLoadMem im data bufsz = some (r, s')) : Q s' := by
  refine Elf.elfLoadMem_rule hs h fun i hc s1 s2 r r' b h1 hseg => ?_
  exact hQ.elfSegment h1 (hhigh i hc.lt hc.header) hseg

end

/-! ## Runs -/

inductive MemOp
  | alloc
  | map (v p flags : Nat)
  | unmap (v : Nat)
  | vmalloc (n : Nat)
  | elfLoadMem (data : Bytes) (bufsz : Nat)

/-- One call.  What is mapped lies above 16 MB, and a frame that is mapped has been handed out and is not in use. -/
def MemStep (im : Image) (s : Phys) : MemOp → Phys → Prop
  | .alloc, s' => s' = { s with pmm := (pmmAlloc s.pmm).2 }
  | .map v p flags, s' => 0x1000000 ≤ v ∧ v < 2 ^ 32 ∧ flags < 4096 ∧ Spare im [] s p ∧
      s' = s.pagingMap im v (p * pageSize) flags
  | .unmap v, s' => 0x1000000 ≤ v ∧ v < 2 ^ 32 ∧ s' = s.pagingUnmap im v
  | .vmalloc n, s' => n < 2 ^ 32 ∧ ∃ r, s.vmalloc im n = some (r, s')
  | .elfLoadMem data bufsz, s' => bufsz < 2 ^ 32 ∧ ElfHigh data bufsz ∧ ∃ r, s.elfLoadMem im data bufsz = some (r, s')

theorem MemOk.step {op : MemOp} (h : MemOk im memKb s) (hs : MemStep im s op s') : MemOk im memKb s' := by
  cases op with
  | alloc =>
    obtain rfl := hs
    exact h.alloc
  | map v p flags =>
    obtain ⟨hge, hlt, hf, hp, rfl⟩ := hs
    exact h.pagingMap hge hlt hf hp
  | unmap v =>
    obtain ⟨hge, hlt, rfl⟩ := hs
    exact h.pagingUnmap hge hlt
  | vmalloc n =>
    obtain ⟨-, r, hv⟩ := hs
    exact (MemOk.steady im memKb).vmalloc h hv
  | elfLoadMem data bufsz =>
    obtain ⟨-, hhigh, r, he⟩ := hs
    exact (MemOk.steady im memKb).elfLoadMem h hhigh he

theorem MemOk.run {mem : Nat → Bytes} {ops : List MemOp}
    (hrun : Run (MemStep im) (pagingInit im memKb mem) ops s) : MemOk im memKb s :=
  Run.invariant (MemOk im memKb) (MemOk.boot im memKb mem) (fun _ _ _ h hs => h.step hs) hrun

/-! ## Permissions -/

theorem pteOf_bits (p flags : Nat) :
    pteOf p flags / pageWrite % 2 = flags / pageWrite % 2 ∧ pteOf p flags / pageUser % 2 = flags / pageUser % 2 := by
  have hhalf : (pagePresent ||| flags) / 2 = flags / 2 := by
    rw [Nat.or_div_two]
    exact Nat.zero_or _
  unfold pteOf pageWrite pageUser pageSize
  omega

/-- What a page that `paging_map` has mapped allows: never user accesses, and writes as asked for. -/
theorem MemOk.effective (h : MemOk im memKb s) (hva : va < 2 ^ 32)
    (hasked : s.asked (va / pageSize) = some flags) : s.effective s.active va pageUser = false ∧
      s.effective s.active va pageWrite = decide (flags / pageWrite % 2 = 1) := by
  obtain ⟨hge, -, hf, p, hp, hwk⟩ := h.asked _ _ hasked
  obtain ⟨hodd, -, -, -⟩ := pteOf_props hp hf
  have hpg := (walk_same_page s im.pageDir va (show 0 < pageSize by decide)).1
  rw [Nat.add_zero, hwk] at hpg
  -- the entry of the directory is the one `pte_ptr` has made
  have hdi : 4 ≤ pageDirIdx va := by
    unfold pageDirIdx
    unfold pageSize at hge
    omega
  have hne := (table_of_walk (hpg ▸ hodd)).1
  have hdir := h.owned.table im.pageDir _ (hasTable_kernel hdi (pageDirIdx_lt hva) hne)
  have hdirU : s.word im.pageDir (pageDirIdx va) / pageUser % 2 = 0 := by
    unfold pageSize at hdir
    unfold pageUser
    omega
  have hdirW : s.word im.pageDir (pageDirIdx va) / pageWrite % 2 = 1 := by
    unfold pageSize at hdir
    unfold pageWrite
    omega
  unfold Phys.effective
  rw [h.cr3, ← hpg, hdirU, hdirW, (pteOf_bits _ _).1]
  exact ⟨rfl, Bool.true_and _⟩

/-- The permissions of a page that was mapped with `flags` are those asked for. -/
def AsAsked (s : Phys) (va flags : Nat) : Prop :=
  s.effective s.active va pageUser = decide (flags / pageUser % 2 = 1) ∧
    s.effective s.active va pageWrite = decide (flags / pageWrite % 2 = 1)

/-- Exactly the pages mapped without `PAGE_USER` get the permissions that were asked for. -/
theorem permissions_iff (im : Image) (memKb : Nat) (mem : Nat → Bytes) (ops : List MemOp) (s : Phys)
    (hrun : Run (MemStep im) (pagingInit im memKb mem) ops s) (va flags : Nat) (hva : va < 2 ^ 32)
    (hasked : s.asked (va / pageSize) = some flags) : AsAsked s va flags ↔ flags / pageUser % 2 = 0 := by
  obtain ⟨huser, hwr⟩ := (MemOk.run hrun).effective hva hasked
  unfold AsAsked
  rw [huser, hwr]
  constructor
  · rintro ⟨hu, -⟩
    have := of_decide_eq_false hu.symm
    omega
  · intro hu
    exact ⟨(decide_eq_false (by omega)).symm, rfl⟩

end

/-- `p := pmm_alloc()` and `paging_map(0x40000000, p, flags)` on the machine with 32 MB. -/
theorem sample_map_run (hf : flags < 4096) (hasked : (({ pagingInit sampleImage 32768 (fun _ _ => 0) with
      pmm := (pmmAlloc (pagingInit sampleImage 32768 fun _ _ => 0).pmm).2 } : Phys).pagingMap sampleImage 0x40000000
        (0x500 * pageSize) flags).asked (0x40000000 / pageSize) = some flags) : ∃ p s,
    Run (MemStep sampleImage) (pagingInit sampleImage 32768 fun _ _ => 0) [.alloc, .map 0x40000000 p flags] s ∧
      s.asked (0x40000000 / pageSize) = some flags := by
  obtain ⟨p, hp, -, hspr⟩ := (pagingInit_owned sampleImage 32768 fun _ _ => 0).alloc (by rw [sample_alloc]; decide)
  obtain rfl : 0x500 = p := Nat.eq_of_mul_eq_mul_right (by decide) (sample_alloc.symm.trans hp)
  generalize pagingInit sampleImage 32768 (fun _ _ => 0) = s0 at hspr hasked ⊢
  have halloc := Run.single (show MemStep sampleImage s0 .alloc _ from rfl)
  exact ⟨0x500, _, halloc.snoc ⟨by decide, by decide, hf, hspr, rfl⟩, hasked⟩

/-- A page mapped with `PAGE_WRITE`. -/
theorem permissions_iff_sample : ∃ p s,
    Run (MemStep sampleImage) (pagingInit sampleImage 32768 fun _ _ => 0) [.alloc, .map 0x40000000 p pageWrite] s ∧
      s.asked (0x40000000 / pageSize) = some pageWrite ∧ AsAsked s 0x40000000 pageWrite := by
  obtain ⟨p, s, hrun, hasked⟩ := sample_map_run (show pageWrite < 4096 by decide) (by decide +kernel)
  exact ⟨p, s, hrun, hasked, (permissions_iff _ _ _ _ _ hrun _ _ (by decide) hasked).2 (by decide)⟩

/-- A page mapped for user code cannot be accessed by it. -/
theorem user_page_denied : ∃ p s,
    Run (MemStep sampleImage) (pagingInit sampleImage 32768 fun _ _ => 0)
      [.alloc, .map 0x40000000 p (pageUser ||| pageWrite)] s ∧
      s.asked (0x40000000 / pageSize) = some (pageUser ||| pageWrite) ∧ s.effective s.active 0x40000000 pageUser = false := by
  obtain ⟨p, s, hrun, hasked⟩ := sample_map_run (show pageUser ||| pageWrite < 4096 by decide) (by decide +kernel)
  exact ⟨p, s, hrun, hasked, ((MemOk.run hrun).effective (by decide) hasked).1⟩

end Phys

end KumOS.Paging
