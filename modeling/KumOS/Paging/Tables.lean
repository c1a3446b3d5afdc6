import KumOS.Paging.Frames

/-!
# Frames and page tables below and above 5 MB

The kernel image and the `kmalloc` arena lie below 5 MB, the frames
`pmm_alloc` hands out above.  `VmOk` says so of the frame counts and of the
table entries, with the first 16 MB mapped to themselves.  Every change the
virtual allocators make keeps it and writes no byte below 5 MB (`Safe`), as
long as the page tables themselves are below 16 MB, where the code that fills
them in can reach them.
-/

namespace KumOS.Paging

open Lib Kmalloc Vm
open Function (update update_self update_of_ne)

variable {s s' s2 : Vm} {d pa va virt : Nat} {p : Pmm}
variable {m : Bytes} {a phys : Nat} {t : Table}

/-! ## Frames -/

structure PmmOk (p : Pmm) : Prop where
  base : p.baseFrame = 0x100
  /-- the frames of the kernel and of the arena are never free -/
  held : ∀ f, 0x100 ≤ f → f < 0x500 → p.refs f ≠ 0
  handed : ∀ a ∈ p.handed, 0x500000 ≤ a ∧ a < 2 ^ 28 ∧ 4096 ∣ a

theorem pmmInit_ok (memKb : Nat) : PmmOk (pmmInit memKb) where
  base := rfl
  held := by
    intro f h1 h2
    have hf : frameIdx 0x00100000 ≤ f ∧ f < frameIdx 0x00500000 := ⟨h1, h2⟩
    show (if frameIdx 0x00100000 ≤ f ∧ f < frameIdx 0x00500000 then 1 else _) ≠ 0
    rw [if_pos hf]
    omega
  handed := by
    intro a ha
    cases ha

theorem pmmAlloc_mem (h : (pmmAlloc p).1 ≠ 0) : (pmmAlloc p).1 ∈ (pmmAlloc p).2.handed := by
  rcases pmmAlloc_cases p with ⟨he, -⟩ | ⟨i, -, -, he⟩
  · rw [he] at h
    exact absurd rfl h
  · rw [he]
    exact List.mem_cons_self

theorem pmmAlloc_dvd (p : Pmm) : 4096 ∣ (pmmAlloc p).1 ∧ (pmmAlloc p).1 < 2 ^ 32 := by
  rcases pmmAlloc_cases p with ⟨he, -⟩ | ⟨i, hi, -, he⟩
  · rw [he]
    omega
  have hmax := hi.max
  rw [he]
  unfold pageSize
  omega

theorem pmmAlloc_handed (p : Pmm) : ∀ a ∈ p.handed, a ∈ (pmmAlloc p).2.handed := by
  intro a ha
  rcases pmmAlloc_cases p with ⟨he, -⟩ | ⟨i, -, -, he⟩
  · rw [he]
    exact ha
  · rw [he]
    exact List.mem_cons_of_mem _ ha

theorem pmmAlloc_ok (h : PmmOk p) : PmmOk (pmmAlloc p).2 := by
  rcases pmmAlloc_cases p with ⟨he, -⟩ | ⟨i, hi, -, he⟩
  · rw [he]
    exact h
  rw [he]
  have hbs : 0x100 ≤ i := h.base ▸ hi.ge
  have hmax := hi.max
  -- a free frame is not one of those held
  have hge : 0x500 ≤ i := by
    apply Nat.le_of_not_lt
    intro hlt
    exact h.held i hbs hlt hi.zero
  refine ⟨h.base, ?_, ?_⟩
  · intro f h1 h2
    rw [Pmm.take_refs_ne p (by omega)]
    exact h.held f h1 h2
  · intro a ha
    rcases List.mem_cons.1 ha with rfl | ha
    · unfold pageSize
      omega
    · exact h.handed a ha

theorem pmmFree_ok (h : PmmOk p) {addr : Nat} (ha : 0x500 ≤ frameIdx addr) : PmmOk (pmmFree p addr) := by
  unfold pmmFree
  simp only []
  split
  · exact h
  refine ⟨h.base, fun f h1 h2 => ?_, h.handed⟩
  show update p.refs (frameIdx addr) _ f ≠ 0
  rw [update_of_ne (by omega)]
  exact h.held f h1 h2

/-! ## Tables -/

structure VmOk (s : Vm) : Prop where
  pmm : PmmOk s.pmm
  /-- the first 16 MB are mapped to themselves -/
  dir : ∀ t < 4, s.pageDir t = some (.kern t)
  tables : ∀ t < 4, ∀ p < 1024, s.kernTables t p = (t * 1024 + p) * 4096 + 3
  /-- the other tables are in frames above 5 MB .. -/
  high : ∀ d t, 4 ≤ d → s.pageDir d = some t → ∃ p, t = .frame p ∧ 0x500000 ≤ p ∧ 4096 ∣ p
  /-- .. and map to such frames -/
  entries : ∀ d p, s.pageDir d = some (.frame p) → ∀ i < 1024,
    s.ram.get32 (p + 4 * i) % 2 = 1 → 0x500 ≤ s.ram.get32 (p + 4 * i) / 4096

/-- Every page table is where the first 16 MB are mapped. -/
def TablesLow (s : Vm) : Prop := ∀ d p, s.pageDir d = some (.frame p) → p < 0x1000000

theorem flags_eq (x : Nat) : x * 4096 ||| pagePresent ||| pageWrite = x * 4096 + 3 := by
  rw [Nat.or_assoc]
  exact or_flags x (by decide)

theorem boot_ok (memKb : Nat) (mem : Bytes) : VmOk (boot memKb mem) where
  pmm := pmmInit_ok memKb
  dir := by
    intro t ht
    show (if t < 4 then some (Table.kern t) else none) = _
    rw [if_pos ht]
  tables := fun t _ p _ => flags_eq (t * 1024 + p)
  high := by
    intro d t hd hs
    have : (if d < 4 then some (Table.kern d) else none) = some t := hs
    rw [if_neg (by omega)] at this
    cases this
  entries := by
    intro d p hs
    have : (if d < 4 then some (Table.kern d) else none) = some (Table.frame p) := hs
    split at this <;> cases this

theorem idx_lt (va : Nat) : pageTblIdx va < 1024 := Nat.mod_lt _ (by decide)

theorem translate_low (h : VmOk s) (hva : va < 0x1000000) : s.translate va = some va := by
  have hd : pageDirIdx va < 4 := by
    unfold pageDirIdx
    omega
  have hw : s.walk va = (pageDirIdx va * 1024 + pageTblIdx va) * 4096 + 3 := by
    unfold walk
    rw [h.dir _ hd]
    exact h.tables _ hd _ (idx_lt va)
  unfold Vm.translate
  rw [hw]
  unfold pagePresent pageSize pageDirIdx pageTblIdx pageEntries pageSize
  rw [if_pos (by omega)]
  congr 1
  omega

theorem translate_high (h : VmOk s) (hva : 0x1000000 ≤ va) (ht : s.translate va = some pa) : 0x500000 ≤ pa := by
  have hd : 4 ≤ pageDirIdx va := by
    unfold pageDirIdx
    omega
  unfold Vm.translate at ht
  split at ht
  · rename_i hp
    cases ht
    unfold walk at hp ⊢
    cases hs : s.pageDir (pageDirIdx va) with
    | none =>
      rw [hs] at hp
      cases hp
    | some t =>
      obtain ⟨p, rfl, -, -⟩ := h.high _ t hd hs
      rw [hs] at hp
      have := h.entries _ p hs _ (idx_lt va) hp
      simp only [pageSize]
      omega
  · cases ht

theorem translate_ge (h : VmOk s) (hva : 0x500000 ≤ va) (ht : s.translate va = some pa) : 0x500000 ≤ pa := by
  by_cases hlow : va < 0x1000000
  · rw [translate_low h hlow] at ht
    cases ht
    exact hva
  · exact translate_high h (by omega) ht

/-! ## Safe changes -/

structure Safe (s s' : Vm) : Prop where
  /-- page tables are never taken away -/
  mono : ∀ d t, s.pageDir d = some t → s'.pageDir d = some t
  km : s'.km = { s.km with mem := s'.km.mem }
  hblocks : s'.hblocks = s.hblocks
  brk : s'.heapBrkPtr = s.heapBrkPtr
  vregions : s'.vregions = s.vregions
  vmallocPtr : s'.vmallocPtr = s.vmallocPtr
  handed : ∀ a ∈ s.pmm.handed, a ∈ s'.pmm.handed
  ok : VmOk s → TablesLow s' → VmOk s' ∧ ∀ x < 0x500000, s'.ram x = s.ram x

theorem Safe.refl (s : Vm) : Safe s s where
  mono := fun _ _ h => h
  km := rfl
  hblocks := rfl
  brk := rfl
  vregions := rfl
  vmallocPtr := rfl
  handed := fun _ h => h
  ok := fun h _ => ⟨h, fun _ _ => rfl⟩

theorem TablesLow.of_mono (h : TablesLow s') (hm : ∀ d t, s.pageDir d = some t → s'.pageDir d = some t) : TablesLow s :=
  fun d p hp => h d p (hm d _ hp)

theorem Safe.trans {s1 : Vm} (h : Safe s s1) (h' : Safe s1 s2) : Safe s s2 where
  mono := fun d t ht => h'.mono d t (h.mono d t ht)
  km := by rw [h'.km, h.km]
  hblocks := h'.hblocks.trans h.hblocks
  brk := h'.brk.trans h.brk
  vregions := h'.vregions.trans h.vregions
  vmallocPtr := h'.vmallocPtr.trans h.vmallocPtr
  handed := fun a ha => h'.handed a (h.handed a ha)
  ok := by
    intro hok hlow
    obtain ⟨h1, hr1⟩ := h.ok hok (hlow.of_mono h'.mono)
    obtain ⟨h2, hr2⟩ := h'.ok h1 hlow
    exact ⟨h2, fun x hx => (hr2 x hx).trans (hr1 x hx)⟩

theorem pmm_safe (hh : ∀ a ∈ s.pmm.handed, a ∈ p.handed) (hp : VmOk s → TablesLow s → PmmOk p) :
    Safe s { s with pmm := p } where
  mono := fun _ _ h => h
  km := rfl
  hblocks := rfl
  brk := rfl
  vregions := rfl
  vmallocPtr := rfl
  handed := hh
  ok := fun h hl => ⟨⟨hp h hl, h.dir, h.tables, h.high, h.entries⟩, fun _ _ => rfl⟩

theorem pmmAlloc_safe (s : Vm) : Safe s { s with pmm := (pmmAlloc s.pmm).2 } := 
  pmm_safe (pmmAlloc_handed s.pmm) fun h _ => pmmAlloc_ok h.pmm

/-- A change of the memory above 5 MB that leaves good entries in the tables. -/
theorem ram_safe
    (hm : VmOk s → TablesLow s → (∀ x < 0x500000, m x = s.ram x) ∧
      ∀ d p, s.pageDir d = some (.frame p) → ∀ i < 1024,
        m.get32 (p + 4 * i) % 2 = 1 → 0x500 ≤ m.get32 (p + 4 * i) / 4096) :
    Safe s (s.setRam m) where
  mono := fun _ _ h => h
  km := rfl
  hblocks := rfl
  brk := rfl
  vregions := rfl
  vmallocPtr := rfl
  handed := fun _ h => h
  ok := by
    intro h hl
    obtain ⟨h1, h2⟩ := hm h hl
    exact ⟨⟨h.pmm, h.dir, h.tables, h.high, h2⟩, h1⟩

/-! ## Clearing a page -/

theorem get32_zero (h : ∀ i < 4, m (a + i) = 0) : m.get32 a = 0 := by
  have hz : m.get32 a = Bytes.get32 (fun _ => 0) a := Bytes.get32_congr h
  exact hz

/-- A word of a table after the page at `pa` is cleared. -/
theorem get32_cleared (m : Bytes) (hpa : 4096 ∣ pa) (ha : 4 ∣ a) :
    Bytes.get32 (fun x => if pa ≤ x ∧ x < pa + pageSize then 0 else m x) a =
      if pa ≤ a ∧ a < pa + pageSize then 0 else m.get32 a := by
  unfold pageSize
  split
  · refine get32_zero fun i hi => ?_
    rw [if_pos (by omega)]
  · refine Bytes.get32_congr fun i hi => ?_
    rw [if_neg (by omega)]

theorem translate_dvd (hva : 4096 ∣ va) (h : s.translate va = some pa) : 4096 ∣ pa := by
  unfold Vm.translate pageSize at h
  split at h
  · cases h
    omega
  · cases h

theorem VmOk.frame_dvd (h : VmOk s) {f : Nat} (hf : s.pageDir d = some (.frame f)) : 4096 ∣ f := by
  obtain hd | hd := Nat.lt_or_ge d 4
  · rw [h.dir d hd] at hf
    cases hf
  · obtain ⟨q, hq, -, hdvd⟩ := h.high d _ hd hf
    cases hq
    exact hdvd

theorem zeroPage_safe (hva : 4096 ∣ va) (hhigh : VmOk s → 0x500000 ≤ va) (h : s.zeroPage va = some s') : Safe s s' := by
  obtain ⟨pa, hpa, rfl⟩ := Option.map_eq_some_iff.1 h
  refine ram_safe fun hok hlow => ⟨fun x hx => ?_, fun d p hp i hi => ?_⟩
  · have := translate_ge hok (hhigh hok) hpa
    rw [if_neg (by omega)]
  · have hdvd := translate_dvd hva hpa
    have hframe := hok.frame_dvd hp
    rw [get32_cleared _ hdvd (by omega)]
    split
    · omega
    · exact hok.entries d p hp i hi

/-! ## Table entries -/

theorem high_table (hok : VmOk s) (hlow : TablesLow s) (hd : 4 ≤ d) (ht : s.pageDir d = some t) :
    ∃ p, t = .frame p ∧ 0x500000 ≤ p ∧ 4096 ∣ p ∧ p + 4096 ≤ 0x1000000 := by
  obtain ⟨p, rfl, h1, h2⟩ := hok.high d t hd ht
  have := hlow d p ht
  exact ⟨p, rfl, h1, h2, by omega⟩

theorem writePte_safe {i w : Nat} (hd : 4 ≤ d) (hi : i < 1024) (ht : s.pageDir d = some t) (hw : w < 2 ^ 32)
    (hgood : VmOk s → TablesLow s → w % 2 = 1 → 0x500 ≤ w / 4096) (h : s.writePte w (entry t i) = some s') :
    Safe s s' := by
  cases t with
  | kern t =>
    -- no table of the kernel image serves these addresses
    cases h
    refine ⟨fun _ _ h => h, rfl, rfl, rfl, rfl, rfl, fun _ h => h, fun hok _ => ?_⟩
    obtain ⟨p, hp, -⟩ := hok.high d _ hd ht
    cases hp
  | frame p =>
    obtain ⟨pa, hpa, rfl⟩ := Option.map_eq_some_iff.1 h
    refine ram_safe fun hok hlow => ?_
    obtain ⟨q, hq, hq1, hq2, hq3⟩ := high_table hok hlow hd ht
    cases hq
    rw [translate_low hok (by omega)] at hpa
    cases hpa
    refine ⟨fun x hx => s.ram.put32_of_out (by omega), fun d' p' hp' j hj => ?_⟩
    have hdvd := hok.frame_dvd hp'
    by_cases he : p' + 4 * j = p + 4 * i
    · rw [he, Bytes.get32_put32_same _ hw]
      exact hgood hok hlow
    · rw [Bytes.get32_put32_ne _ (by omega)]
      exact hok.entries d' p' hp' j hj

theorem pageDirIdx_ge (h : 0x1000000 ≤ virt) : 4 ≤ pageDirIdx virt := by
  unfold pageDirIdx
  omega

/-- A frame handed out is cleared and becomes the table of an address range that had none. -/
theorem newTable_safe (hd : 4 ≤ d) (hs : s.pageDir d = none) (hph : phys ∈ s.pmm.handed) (hdvd : 4096 ∣ phys)
    (hz : s.zeroPage phys = some s2) : Safe s { s2 with pageDir := update s2.pageDir d (some (.frame phys)) } := by
  have hzsafe : Safe s s2 := zeroPage_safe hdvd (fun h => (h.pmm.handed _ hph).1) hz
  obtain ⟨pa, hpa, rfl⟩ := Option.map_eq_some_iff.1 hz
  have hne : ∀ d' t, s.pageDir d' = some t → d' ≠ d := by
    rintro d' t ht rfl
    rw [hs] at ht
    cases ht
  have hmono : ∀ d' t, s.pageDir d' = some t → update s.pageDir d (some (.frame phys)) d' = some t := by
    intro d' t ht
    rw [update_of_ne (hne d' t ht)]
    exact ht
  refine ⟨hmono, rfl, rfl, rfl, rfl, rfl, fun _ h => h, fun hok hlow => ?_⟩
  obtain ⟨hok2, hram⟩ := hzsafe.ok hok (hlow.of_mono hmono)
  obtain ⟨hp1, -, -⟩ := hok.pmm.handed _ hph
  -- the table is below 16 MB, so it is its own frame that was cleared
  have hp2 : phys < 0x1000000 := by
    refine hlow d phys ?_
    show update s.pageDir d (some (Table.frame phys)) d = _
    rw [update_self]
  rw [translate_low hok hp2] at hpa
  cases hpa
  have hcases : ∀ d' t, update s.pageDir d (some (.frame phys)) d' = some t →
      (d' = d ∧ t = .frame phys) ∨ s.pageDir d' = some t := by
    intro d' t ht
    by_cases hdd : d' = d
    · subst hdd
      rw [update_self] at ht
      cases ht
      exact .inl ⟨rfl, rfl⟩
    · rw [update_of_ne hdd] at ht
      exact .inr ht
  refine ⟨⟨hok2.pmm, fun t ht => hmono t _ (hok.dir t ht), hok2.tables, fun d' t hd' ht => ?_, fun d' p hp i hi => ?_⟩,
    hram⟩
  · rcases hcases d' t ht with ⟨-, rfl⟩ | ht
    · exact ⟨phys, rfl, hp1, hdvd⟩
    · exact hok.high d' t hd' ht
  · rcases hcases d' _ hp with ⟨-, he⟩ | hp
    · cases he
      have hze := get32_cleared s.ram hdvd (a := phys + 4 * i) (by omega)
      rw [if_pos (by unfold pageSize; omega)] at hze
      intro hodd
      have : (0 : Nat) % 2 = 1 := hze ▸ hodd
      omega
    · exact hok2.entries d' p hp i hi

/-- `pte_ptr` gives an entry of the table of its address, a new one if there was none. -/
theorem ptePtrAlloc_safe {r : Option Pte} (hv : 0x1000000 ≤ virt) (h : s.ptePtrAlloc virt = some (r, s')) :
    Safe s s' ∧ ∀ pte, r = some pte → ∃ t, s'.pageDir (pageDirIdx virt) = some t ∧ pte = entry t (pageTblIdx virt) := by
  unfold ptePtrAlloc at h
  cases hs : s.pageDir (pageDirIdx virt) with
  | some t =>
    rw [hs] at h
    cases h
    exact ⟨.refl s, fun pte hp => ⟨t, hs, by cases hp; rfl⟩⟩
  | none =>
    rw [hs] at h
    simp only [] at h
    split at h
    · cases h
      exact ⟨pmmAlloc_safe s, fun pte hp => by cases hp⟩
    rename_i hne
    obtain ⟨s2, hz, he⟩ := Option.map_eq_some_iff.1 h
    cases he
    refine ⟨(pmmAlloc_safe s).trans ?_, fun pte hp => ⟨.frame (pmmAlloc s.pmm).1, update_self .., ?_⟩⟩
    · exact newTable_safe (pageDirIdx_ge hv) hs (pmmAlloc_mem hne)
        (pmmAlloc_dvd s.pmm).1 hz
    · cases hp
      rfl

theorem pagingMap_safe (hv : 0x1000000 ≤ virt) (hlt : phys < 2 ^ 32) (hp : phys ∈ s.pmm.handed)
    (h : s.pagingMap virt phys pageWrite = some s') : Safe s s' := by
  unfold pagingMap at h
  cases hr : s.ptePtrAlloc virt with
  | none =>
    rw [hr] at h
    cases h
  | some r =>
    obtain ⟨r, s1⟩ := r
    obtain ⟨hsa, het⟩ := ptePtrAlloc_safe hv hr
    rw [hr] at h
    cases r with
    | none =>
      cases h
      exact hsa
    | some pte =>
      obtain ⟨t, ht, rfl⟩ := het pte rfl
      have hw : phys / pageSize * pageSize ||| pagePresent ||| pageWrite = phys / 4096 * 4096 + 3 := flags_eq _
      refine hsa.trans (writePte_safe (pageDirIdx_ge hv) (idx_lt virt) ht (by omega) (fun hok _ _ => ?_) h)
      have := (hok.pmm.handed _ (hsa.handed _ hp)).1
      omega

theorem pagingUnmap_safe (hv : 0x1000000 ≤ virt) (h : s.pagingUnmap virt = some s') : Safe s s' := by
  unfold pagingUnmap ptePtr at h
  cases hs : s.pageDir (pageDirIdx virt) with
  | none =>
    rw [hs] at h
    cases h
    exact .refl s
  | some t =>
    rw [hs, Option.map_some] at h
    simp only [] at h
    cases he : s.readPte (entry t (pageTblIdx virt)) with
    | none =>
      rw [he] at h
      cases h
    | some e =>
      rw [he] at h
      simp only [] at h
      split at h
      · cases h
        exact .refl s
      rename_i hpres
      have hfr : Safe s { s with pmm := pmmFree s.pmm (e / pageSize * pageSize) } := by
        refine pmm_safe (fun a ha => by rwa [pmmFree_handed]) fun hok hlow => ?_
        -- the entry is one of a table that maps above 5 MB
        obtain ⟨p, rfl, h1, h2, h3⟩ := high_table hok hlow (pageDirIdx_ge hv) hs
        have hi := idx_lt virt
        have hrd : s.ram.get32 (p + 4 * pageTblIdx virt) = e := by
          have hr : (s.translate (p + 4 * pageTblIdx virt)).map s.ram.get32 = some e := he
          rw [translate_low hok (by omega)] at hr
          cases hr
          rfl
        have hge := hok.entries _ p hs _ hi
        unfold pagePresent at hpres
        refine pmmFree_ok hok.pmm ?_
        unfold frameIdx pageSize
        omega
      exact hfr.trans
        (writePte_safe (pageDirIdx_ge hv) (idx_lt virt) hs (by omega) (fun _ _ h0 => by omega) h)

/-! ## The loops -/

theorem unmapLoop_safe (n : Nat) : ∀ {virt : Nat} {s s' : Vm}, 0x1000000 ≤ virt → virt + n * 4096 < 2 ^ 32 →
    unmapLoop n virt s = some s' → Safe s s' := by
  induction n with
  | zero =>
    intro virt s s' _ _ h
    cases h
    exact .refl s
  | succ n ih =>
    intro virt s s' hv hlt h
    unfold unmapLoop at h
    cases hu : s.pagingUnmap virt with
    | none =>
      rw [hu] at h
      cases h
    | some s1 =>
      rw [hu] at h
      have hnx : u32 (virt + pageSize) = virt + 4096 := by
        unfold u32 pageSize
        omega
      exact (pagingUnmap_safe hv hu).trans (ih (by omega) (by omega) h)

/-- With the tables below 16 MB every entry can be read and cleared. -/
theorem pagingUnmap_total (hok : VmOk s) (hlow : TablesLow s) (hv : 0x1000000 ≤ virt) :
    ∃ s', s.pagingUnmap virt = some s' ∧ s'.pageDir = s.pageDir ∧ s'.pmm.handed = s.pmm.handed := by
  unfold pagingUnmap ptePtr
  cases ht : s.pageDir (pageDirIdx virt) with
  | none => exact ⟨s, rfl, rfl, rfl⟩
  | some t =>
    obtain ⟨p, rfl, h1, h2, h3⟩ := high_table hok hlow (pageDirIdx_ge hv) ht
    have hi := idx_lt virt
    have htr : s.translate (p + 4 * pageTblIdx virt) = some (p + 4 * pageTblIdx virt) := translate_low hok (by omega)
    have hrd : s.readPte (entry (.frame p) (pageTblIdx virt)) = some (s.ram.get32 (p + 4 * pageTblIdx virt)) := by
      show (s.translate _).map _ = _
      rw [htr]
      rfl
    simp only [Option.map_some, hrd]
    split
    · exact ⟨s, rfl, rfl, rfl⟩
    · have hwr : ∀ q : Pmm, ({ s with pmm := q } : Vm).writePte 0 (entry (.frame p) (pageTblIdx virt)) =
          some (({ s with pmm := q } : Vm).setRam (s.ram.put32 (p + 4 * pageTblIdx virt) 0)) := by
        intro q
        show (s.translate _).map _ = _
        rw [htr]
        rfl
      exact ⟨_, hwr _, rfl, pmmFree_handed s.pmm _⟩

theorem unmapLoop_total (n : Nat) : ∀ {virt : Nat} {s : Vm}, VmOk s → TablesLow s → 0x1000000 ≤ virt →
    virt + n * 4096 < 2 ^ 32 →
    ∃ s', unmapLoop n virt s = some s' ∧ s'.pageDir = s.pageDir ∧ s'.pmm.handed = s.pmm.handed := by
  induction n with
  | zero => exact fun _ _ _ _ => ⟨_, rfl, rfl, rfl⟩
  | succ n ih =>
    intro virt s hok hlow hv hlt
    obtain ⟨s1, hu, hd, hh⟩ := pagingUnmap_total hok hlow hv
    have hlow1 : TablesLow s1 := fun d p hp => hlow d p (by rwa [hd] at hp)
    have hnx : u32 (virt + pageSize) = virt + 4096 := by
      unfold u32 pageSize
      omega
    obtain ⟨s2, hl, hd2, hh2⟩ := ih ((pagingUnmap_safe hv hu).ok hok hlow1).1 hlow1
      (Nat.le_add_right_of_le hv) (show virt + 4096 + n * 4096 < 2 ^ 32 by omega)
    refine ⟨s2, ?_, hd2.trans hd, hh2.trans hh⟩
    unfold unmapLoop
    rw [hu, hnx]
    exact hl

/-! ## Frames for the tables

`pmm_alloc` takes the frames from below.  A request that maps the pages from `v` on asks for
the frame of a missing table after those of the pages before it, so it can be said beforehand
whether the kernel will be able to reach the tables.
-/

/-- The frames taken before the one of table `d`: for the pages from `v` on, and for tables. -/
def framesBefore (s : Vm) (v d : Nat) : Nat :=
  (d * 2 ^ 22 - v) / pageSize + tally (fun e => pageDirIdx v ≤ e && (s.pageDir e).isNone) d

/-- A table that is missing for the pages from `v` to `stop` gets a frame below 16 MB, or there
is no frame left when its first page asks for one. -/
def TablesReach (s : Vm) (v stop : Nat) : Prop :=
  ∀ d, pageDirIdx v ≤ d → d * 2 ^ 22 < stop → s.pageDir d = none →
    s.pmm.freeFrames ≤ framesBefore s v d ∨ framesBefore s v d + 2 ≤ s.pmm.lowFrames

theorem framesBefore_self (s : Vm) (v : Nat) : framesBefore s v (pageDirIdx v) = 0 := by
  have hno : tally (fun e => pageDirIdx v ≤ e && (s.pageDir e).isNone) (pageDirIdx v) = 0 := by
    refine tally_eq_zero_iff.2 fun e he => ?_
    rw [decide_eq_false (Nat.not_le_of_lt he), Bool.false_and]
  unfold framesBefore
  rw [hno]
  unfold pageDirIdx pageSize
  omega

/-- A page is mapped at `v`, with `m` frames. -/
theorem framesBefore_next {v m : Nat} (hv : 4096 ∣ v) (hd : pageDirIdx v < d)
    (hother : ∀ e, e ≠ pageDirIdx v → s'.pageDir e = s.pageDir e) (hself : s'.pageDir (pageDirIdx v) ≠ none)
    (hm : m = if s.pageDir (pageDirIdx v) = none then 2 else 1) :
    framesBefore s v d = framesBefore s' (v + 4096) d + m := by
  have hpages : (d * 2 ^ 22 - v) / pageSize = (d * 2 ^ 22 - (v + 4096)) / pageSize + 1 := by
    unfold pageDirIdx at hd
    unfold pageSize
    omega
  have hnx : pageDirIdx v ≤ pageDirIdx (v + 4096) ∧ pageDirIdx (v + 4096) ≤ pageDirIdx v + 1 := by
    unfold pageDirIdx
    omega
  have hne : ∀ e, e ≠ pageDirIdx v → (decide (pageDirIdx v ≤ e) && (s.pageDir e).isNone) =
      (decide (pageDirIdx (v + 4096) ≤ e) && (s'.pageDir e).isNone) := by
    intro e he
    rw [hother e he]
    congr 1
    exact decide_eq_decide.2 (by omega)
  have hgone : (decide (pageDirIdx (v + 4096) ≤ pageDirIdx v) && (s'.pageDir (pageDirIdx v)).isNone) = false := by
    rw [Option.isNone_eq_false_iff.2 (Option.isSome_iff_ne_none.2 hself), Bool.and_false]
  unfold framesBefore
  rw [hpages]
  by_cases hmiss : s.pageDir (pageDirIdx v) = none
  · have hset := tally_set hd hne hgone (by rw [hmiss, decide_eq_true (Nat.le_refl _)]; rfl)
    rw [if_pos hmiss] at hm
    omega
  · have heq : tally (fun e => pageDirIdx v ≤ e && (s.pageDir e).isNone) d =
        tally (fun e => pageDirIdx (v + 4096) ≤ e && (s'.pageDir e).isNone) d := by
      refine tally_congr fun e _ => ?_
      by_cases he : e = pageDirIdx v
      · rw [he, hgone, Option.isNone_eq_false_iff.2 (Option.isSome_iff_ne_none.2 hmiss), Bool.and_false]
      · exact hne e he
    rw [if_neg hmiss] at hm
    omega

theorem TablesReach.next {v stop m : Nat} (h : TablesReach s v stop) (hv : 4096 ∣ v)
    (hother : ∀ e, e ≠ pageDirIdx v → s'.pageDir e = s.pageDir e) (hself : s'.pageDir (pageDirIdx v) ≠ none)
    (hm : m = if s.pageDir (pageDirIdx v) = none then 2 else 1)
    (hfree : s.pmm.freeFrames = s'.pmm.freeFrames + m) (hlow : s.pmm.lowFrames ≤ s'.pmm.lowFrames + m) :
    TablesReach s' (v + 4096) stop := by
  intro d hd hstop hnone
  have hne : d ≠ pageDirIdx v := by
    rintro rfl
    exact hself hnone
  have hlt : pageDirIdx v < d := by
    unfold pageDirIdx at *
    omega
  have hnext := framesBefore_next hv hlt hother hself hm
  have := h d (Nat.le_of_lt hlt) hstop (by rw [← hother d hne, hnone])
  omega

/-- An entry of a table below 16 MB is written where the processor looks for it. -/
theorem writePte_total {w : Nat} (hok : VmOk s) (hlow : TablesLow s) (hv : 0x1000000 ≤ virt) (hw : w < 2 ^ 32)
    (ht : s.pageDir (pageDirIdx virt) = some t) :
    ∃ m, s.writePte w (entry t (pageTblIdx virt)) = some (s.setRam m) ∧ (s.setRam m).walk virt = w := by
  obtain ⟨p, rfl, h1, h2, h3⟩ := high_table hok hlow (pageDirIdx_ge hv) ht
  have hi := idx_lt virt
  refine ⟨s.ram.put32 (p + 4 * pageTblIdx virt) w, ?_, ?_⟩
  · show (s.translate _).map _ = _
    rw [translate_low hok (by omega)]
    rfl
  · have hdir : (s.setRam (s.ram.put32 (p + 4 * pageTblIdx virt) w)).pageDir = s.pageDir := rfl
    unfold walk
    rw [hdir, ht]
    exact Bytes.get32_put32_same _ hw

/-- `paging_map` finds the table, or takes for it the first free frame, below 16 MB. -/
theorem pagingMap_total (hok : VmOk s) (hlow : TablesLow s) (hv : 0x1000000 ≤ virt) (hlt : phys < 2 ^ 32)
    (hroom : s.pageDir (pageDirIdx virt) = none → 0 < s.pmm.lowFrames) :
    ∃ s', s.pagingMap virt phys pageWrite = some s' ∧ s'.walk virt % 2 = 1 ∧
      (s.pageDir (pageDirIdx virt) ≠ none ∧ s'.pageDir = s.pageDir ∧ s'.pmm = s.pmm ∨
        s.pageDir (pageDirIdx virt) = none ∧ ∃ j, s.pmm.Free j ∧ j < 0x1000 ∧
          s.pmm.lowFrames = (s.pmm.take j).lowFrames + 1 ∧ s'.pmm = s.pmm.take j ∧
          s'.pageDir = update s.pageDir (pageDirIdx virt) (some (.frame (j * pageSize)))) := by
  have hw : phys / pageSize * pageSize ||| pagePresent ||| pageWrite = phys / 4096 * 4096 + 3 := flags_eq _
  have hbits : phys / 4096 * 4096 + 3 < 2 ^ 32 ∧ (phys / 4096 * 4096 + 3) % 2 = 1 := by omega
  unfold pagingMap
  rw [hw]
  generalize phys / 4096 * 4096 + 3 = w at hbits
  cases ht : s.pageDir (pageDirIdx virt) with
  | some t =>
    obtain ⟨m, hwr, hwalk⟩ := writePte_total hok hlow hv hbits.1 ht
    have hpte : s.ptePtrAlloc virt = some (some (entry t (pageTblIdx virt)), s) := by
      unfold ptePtrAlloc
      rw [ht]
    rw [hpte]
    exact ⟨_, hwr, hwalk ▸ hbits.2, .inl ⟨Option.some_ne_none t, rfl, rfl⟩⟩
  | none =>
    rcases pmmAlloc_cases s.pmm with ⟨-, hno⟩ | ⟨j, hj, hfirst, ha⟩
    · have hle : s.pmm.lowFrames = 0 := tally_eq_zero_iff.2 fun i hi => by
        rw [Bool.eq_false_iff, Ne, Pmm.isFree_iff (by omega)]
        exact hno i
      have := hroom ht
      omega
    have hlk := Pmm.lowFrames_take hj hfirst
    have hpos := hroom ht
    have hjl : j * pageSize < 0x1000000 := by
      unfold pageSize
      omega
    have hne : j * pageSize ≠ 0 := hj.addr_ne (by rw [hok.pmm.base]; decide)
    obtain ⟨s1, hpte, hdir, hpmm⟩ : ∃ s1 : Vm, s.ptePtrAlloc virt =
          some (some (entry (.frame (j * pageSize)) (pageTblIdx virt)), s1) ∧
        s1.pageDir = update s.pageDir (pageDirIdx virt) (some (.frame (j * pageSize))) ∧ s1.pmm = s.pmm.take j := by
      have htr : ({ s with pmm := s.pmm.take j } : Vm).translate (j * pageSize) = some (j * pageSize) :=
        show s.translate (j * pageSize) = _ from translate_low hok hjl
      unfold ptePtrAlloc zeroPage
      rw [ht]
      simp only [ha, if_neg hne, htr]
      exact ⟨_, rfl, rfl, rfl⟩
    have hlow1 : TablesLow s1 := by
      intro d p hp
      rw [hdir] at hp
      by_cases hd : d = pageDirIdx virt
      · rw [hd, update_self] at hp
        cases hp
        exact hjl
      · rw [update_of_ne hd] at hp
        exact hlow d p hp
    obtain ⟨m, hwr, hwalk⟩ := writePte_total ((ptePtrAlloc_safe hv hpte).1.ok hok hlow1).1 hlow1 hv hbits.1
      (by rw [hdir, update_self])
    rw [hpte]
    exact ⟨_, hwr, hwalk ▸ hbits.2, .inr ⟨rfl, j, hj, by omega, by omega, hpmm, hdir⟩⟩

/-- One page of `vmalloc`, with the frame that `pmm_alloc` gives for it. -/
theorem mapPage_total {i v stop : Nat} (hok : VmOk s) (hlow : TablesLow s) (hv : 0x1000000 ≤ v) (hdvd : 4096 ∣ v)
    (hstop : v < stop) (hreach : TablesReach s v stop) (hi : s.pmm.Free i) (hfirst : ∀ j, j < i → ¬ s.pmm.Free j) :
    ∃ s2 s3 fs, ({ s with pmm := s.pmm.take i } : Vm).pagingMap v (i * pageSize) pageWrite = some s2 ∧
      s2.zeroPage v = some s3 ∧ Safe s s3 ∧ TablesLow s3 ∧ Taken s.pmm (i :: fs) s3.pmm ∧
      TablesReach s3 (v + 4096) stop := by
  have hphys : i * pageSize < 2 ^ 32 := by
    have := hi.max
    unfold pageSize
    omega
  have hsafe : Safe s { s with pmm := s.pmm.take i } := by
    have := pmmAlloc_safe s
    rwa [pmmAlloc_first hi hfirst] at this
  have htk := Pmm.freeFrames_take hi
  have hlk := Pmm.lowFrames_take hi hfirst
  -- the frame of the page is followed by that of its table, if that is missing
  have hroom : s.pageDir (pageDirIdx v) = none → 2 ≤ s.pmm.lowFrames := by
    intro hnone
    have := hreach _ (Nat.le_refl _) (by unfold pageDirIdx; omega) hnone
    rw [framesBefore_self] at this
    omega
  obtain ⟨s2, hmap, hwalk, hcase⟩ := pagingMap_total (hsafe.ok hok hlow).1 hlow hv hphys
    (fun hnone => by have := hroom hnone; show 0 < (s.pmm.take i).lowFrames; omega)
  obtain ⟨s3, hz, hdir, hpmm⟩ : ∃ s3, s2.zeroPage v = some s3 ∧ s3.pageDir = s2.pageDir ∧ s3.pmm = s2.pmm := by
    have htr : s2.translate v = some (s2.walk v / pageSize * pageSize + v % pageSize) := if_pos hwalk
    unfold zeroPage
    rw [htr]
    exact ⟨_, rfl, rfl, rfl⟩
  have hall : Safe s s3 := (hsafe.trans (pagingMap_safe hv hphys List.mem_cons_self hmap)).trans
    (zeroPage_safe hdvd (fun _ => by omega) hz)
  rcases hcase with ⟨hsome, hd2, hp2⟩ | ⟨hnone, j, hj, hjl, hlj, hp2, hd2⟩
  · have hd : s3.pageDir = s.pageDir := hdir.trans hd2
    have hp : s3.pmm = s.pmm.take i := hpmm.trans hp2
    refine ⟨s2, s3, [], hmap, hz, hall, fun d p he => hlow d p (by rwa [hd] at he), hp ▸ .single hi, ?_⟩
    refine hreach.next hdvd (fun e _ => by rw [hd]) (by rwa [hd]) (if_neg hsome).symm ?_ ?_ <;> rw [hp] <;> omega
  · have hd : s3.pageDir = update s.pageDir (pageDirIdx v) (some (.frame (j * pageSize))) := hdir.trans hd2
    have hp : s3.pmm = (s.pmm.take i).take j := hpmm.trans hp2
    have htj := Pmm.freeFrames_take hj
    refine ⟨s2, s3, [j], hmap, hz, hall, fun d p he => ?_, hp ▸ (Taken.single hi).trans (.single hj), ?_⟩
    · rw [hd] at he
      by_cases hde : d = pageDirIdx v
      · rw [hde, update_self] at he
        cases he
        unfold pageSize
        omega
      · rw [update_of_ne hde] at he
        exact hlow d p he
    · refine hreach.next hdvd (fun e he => by rw [hd, update_of_ne he])
        (by rw [hd, update_self]; exact Option.some_ne_none _) (if_pos hnone).symm ?_ ?_ <;> rw [hp]
      · exact htk.trans (congrArg (· + 1) htj)
      · have hlj : (s.pmm.take i).lowFrames = ((s.pmm.take i).take j).lowFrames + 1 := hlj
        omega

/-- The loop of `vmalloc` returns, and its new frames are some that were free. -/
theorem mapLoop_total (hv : 0x1000000 ≤ virt) (hend : virt ≤ 0x2000000) (hdvd : 4096 ∣ virt) {stop : Nat} (n : Nat) :
    ∀ {done : Nat} {s : Vm}, VmOk s → TablesLow s → done + s.pmm.freeFrames ≤ 65536 →
      virt + (done + n) * 4096 ≤ stop → TablesReach s (virt + done * 4096) stop →
      ∃ b s', mapLoop virt n done s = some (b, s') ∧ Safe s s' ∧ TablesLow s' ∧ (b = true → n ≤ s.pmm.freeFrames) ∧
        ∀ a ∈ s'.pmm.handed, a ∈ s.pmm.handed ∨ ∃ f, s.pmm.Free f ∧ a = f * pageSize := by
  induction n with
  | zero => exact fun {_ s} _ hlow _ _ _ => ⟨true, s, rfl, .refl s, hlow, fun _ => Nat.zero_le _, fun _ ha => .inl ha⟩
  | succ n ih =>
    intro done s hok hlow hdone hstop hreach
    have haddr : u32 (virt + done * pageSize) = virt + done * 4096 := by
      unfold u32 pageSize
      omega
    unfold mapLoop
    simp only [haddr]
    rcases pmmAlloc_cases s.pmm with ⟨ha, -⟩ | ⟨i, hi, hfirst, ha⟩ <;> rw [ha]
    · -- out of frames: the pages mapped so far are taken back
      obtain ⟨s2, hu, hd, hh⟩ := unmapLoop_total done hok hlow hv (by omega)
      refine ⟨false, s2, by rw [if_pos rfl, hu]; rfl, unmapLoop_safe done hv (by omega) hu, ?_, Bool.noConfusion, ?_⟩
      · exact fun d p hp => hlow d p (by rwa [hd] at hp)
      · exact fun a ha => .inl (by rwa [hh] at ha)
    have hrest : virt + (done + 1 + n) * 4096 ≤ stop := by rwa [Nat.add_right_comm, Nat.add_assoc done]
    obtain ⟨s2, s3, fs, hmap, hz, hsafe, hlow3, htaken, hnext⟩ := mapPage_total hok hlow (Nat.le_add_right_of_le hv)
      (by omega) (show virt + done * 4096 < stop by omega) hreach hi hfirst
    have hleft := htaken.left
    rw [List.length_cons] at hleft
    have hgo : virt + done * 4096 + 4096 = virt + (done + 1) * 4096 := by omega
    rw [hgo] at hnext
    obtain ⟨b, s', hl, hs', hlow', hb, hh⟩ := @ih (done + 1) s3 (hsafe.ok hok hlow3).1 hlow3 (by omega) hrest hnext
    have hne : i * pageSize ≠ 0 := hi.addr_ne (by rw [hok.pmm.base]; decide)
    simp only [if_neg hne, hmap, hz]
    refine ⟨b, s', hl, hsafe.trans hs', hlow', fun ht => by have := hb ht; omega, fun a ha => ?_⟩
    rcases hh a ha with ha | ⟨f, hf, rfl⟩
    · exact (htaken.handed a ha).imp_right fun ⟨f, hf, he⟩ => ⟨f, htaken.free f hf, he⟩
    · exact .inr ⟨f, (htaken.free_of hf).1, rfl⟩

/-- `heap_grow` finds every page mapped. -/
theorem growLoop_low (hok : VmOk s) (n : Nat) : ∀ {addr : Nat}, addr + n * 4096 ≤ 0x1000000 →
    growLoop n addr s = some (true, s) := by
  induction n with
  | zero => intro addr _; rfl
  | succ n ih =>
    intro addr hlt
    have hd : pageDirIdx addr < 4 := by
      unfold pageDirIdx
      omega
    have hmp : s.pagingIsMapped addr = some true := by
      unfold pagingIsMapped ptePtr
      rw [hok.dir _ hd]
      show some (decide (s.kernTables _ _ % 2 = pagePresent)) = some true
      rw [hok.tables _ hd _ (idx_lt addr)]
      congr 1
      rw [decide_eq_true_eq]
      unfold pagePresent
      omega
    unfold growLoop
    rw [hmp]
    exact ih (by unfold pageSize; omega)

end KumOS.Paging
