import KumOS.Paging.Allocators

/-!
# `malloc` of the user library and `SYS_SBRK`

`malloc` takes the answer of `sbrk(0)` for the start of its memory and asks for more with
`sbrk(size)`, as if each request moved one break.  `sc_sbrk` answers the first from
`heap_brk`, which is below `HEAP_VIRT_MAX`, and the second from `vmalloc`, which gives
regions from `VMALLOC_BASE` on.  The address `malloc` returns first is in no region the
kernel has given (`malloc_granted_iff`).
-/

namespace KumOS.Syscall

open Lib Paging Paging.Vm
open Kmalloc (round8)
open Option (map_eq_some_iff)

variable {s s' : Vm} {n virt : Nat}
variable {a r : Nat} {w w' : World}

/-- `sc_sbrk(inc)` -/
def scSbrk (s : Vm) (inc : Nat) : Option (Nat × Vm) :=
  if inc = 0 then some (s.heapBrkPtr, s)
  else (s.vmalloc inc).map fun r => (if r.1 ≠ 0 then r.1 else 0xFFFFFFFF, r.2)

/-- A process over the kernel. -/
structure Process where
  world : World
  /-- `_heap_ptr` -/
  heapPtr : Nat
  /-- history: the regions given for its requests, with their sizes -/
  granted : List (Nat × Nat)
  /-- history: what `malloc` has returned other than NULL, with the sizes asked for -/
  results : List (Nat × Nat)

variable {u u' : Process}

/-- `malloc(n)`: the pointer returned (0 for NULL) and the new state.  Other tasks may run
between its two system calls; the second one finds `w2`. -/
def Process.malloc (u : Process) (w2 : World) (n : Nat) : Option (Nat × Process) :=
  if n = 0 then some (0, u)
  else
    let size := round8 n
    (if u.heapPtr = 0 then scSbrk u.world.vm 0 else some (u.heapPtr, u.world.vm)).bind fun (heapPtr, s1) =>
      let u1 := { u with world := { u.world with vm := s1 }, heapPtr := heapPtr }
      if u.heapPtr = 0 ∧ (heapPtr = 0 ∨ heapPtr = 0xFFFFFFFF) then some (0, u1)
      else
        (scSbrk w2.vm size).map fun (r, s2) =>
          let u2 := { u1 with world := { w2 with vm := s2 } }
          if r = 0xFFFFFFFF then (0, u2)
          else (heapPtr, { u2 with
            heapPtr := u32 (heapPtr + size)
            granted := if size = 0 then u2.granted else (r, pageAlign size) :: u2.granted
            results := (heapPtr, n) :: u2.results })

inductive ProcessOp
  /-- `malloc(n)`, with what the other tasks do between its system calls -/
  | malloc (n : Nat) (others : List Op)
  | other (op : Op)

def ProcessStep (u : Process) : ProcessOp → Process → Prop
  | .malloc n others, u' => n < 2 ^ 32 ∧ ∃ w2 r, Run Step u.world others w2 ∧ u.malloc w2 n = some (r, u')
  | .other op, u' => ∃ w, Step u.world op w ∧ u' = { u with world := w }

/-! ## Where the two allocators are -/

/-- What the page tables have nothing to do with: the ends of the allocators. -/
structure SameEnds (s s' : Vm) : Prop where
  brk : s'.heapBrkPtr = s.heapBrkPtr
  ptr : s'.vmallocPtr = s.vmallocPtr
  heapEnd : s'.km.heapEnd = s.km.heapEnd
  hblocks : s'.hblocks = s.hblocks

theorem SameEnds.refl (s : Vm) : SameEnds s s := ⟨rfl, rfl, rfl, rfl⟩

theorem SameEnds.trans {s1 : Vm} (h : SameEnds s s1) (h' : SameEnds s1 s') : SameEnds s s' :=
  ⟨h'.brk.trans h.brk, h'.ptr.trans h.ptr, h'.heapEnd.trans h.heapEnd, h'.hblocks.trans h.hblocks⟩

theorem SameEnds.of_pmm {p : Pmm} (h : SameEnds { s with pmm := p } s') : SameEnds s s' :=
  ⟨h.brk, h.ptr, h.heapEnd, h.hblocks⟩

theorem zeroPage_ends {va : Nat} (h : s.zeroPage va = some s') : SameEnds s s' ∧ s'.pmm = s.pmm := by
  obtain ⟨pa, -, rfl⟩ := map_eq_some_iff.1 h
  exact ⟨⟨rfl, rfl, rfl, rfl⟩, rfl⟩

theorem writePte_ends {w : Nat} {pte : Pte} (h : s.writePte w pte = some s') : SameEnds s s' ∧ s'.pmm = s.pmm := by
  cases pte with
  | kern t i =>
    cases h
    exact ⟨⟨rfl, rfl, rfl, rfl⟩, rfl⟩
  | ram va =>
    obtain ⟨pa, -, rfl⟩ := map_eq_some_iff.1 h
    exact ⟨⟨rfl, rfl, rfl, rfl⟩, rfl⟩

theorem pmmAlloc_left (p : Pmm) : (pmmAlloc p).2.freeFrames ≤ p.freeFrames := by
  rcases pmmAlloc_cases p with ⟨he, -⟩ | ⟨i, hi, -, he⟩
  · exact Nat.le_of_eq (congrArg (fun r => r.2.freeFrames) he)
  · rw [he, Pmm.freeFrames_take hi]
    exact Nat.le_succ _

theorem pagingMap_ends {phys flags : Nat} (h : s.pagingMap virt phys flags = some s') :
    SameEnds s s' ∧ s'.pmm.freeFrames ≤ s.pmm.freeFrames := by
  unfold pagingMap at h
  have halloc : ∀ {pte s1}, s.ptePtrAlloc virt = some (pte, s1) → SameEnds s s1 ∧ s1.pmm.freeFrames ≤ s.pmm.freeFrames := by
    intro pte s1 hp
    unfold ptePtrAlloc at hp
    split at hp
    · cases hp
      exact ⟨.refl s, Nat.le_refl _⟩
    simp only [] at hp
    split at hp
    · cases hp
      exact ⟨⟨rfl, rfl, rfl, rfl⟩, pmmAlloc_left s.pmm⟩
    obtain ⟨s2, hz, he⟩ := map_eq_some_iff.1 hp
    cases he
    obtain ⟨⟨hb, hv, hk, hl⟩, hpmm⟩ := zeroPage_ends hz
    refine ⟨⟨hb, hv, hk, hl⟩, ?_⟩
    rw [hpmm]
    exact pmmAlloc_left s.pmm
  split at h
  · cases h
  · rename_i s1 hp
    cases h
    exact halloc hp
  · rename_i pte s1 hp
    obtain ⟨hen, hle⟩ := halloc hp
    obtain ⟨hends', hpmm⟩ := writePte_ends h
    exact ⟨hen.trans hends', by rw [hpmm]; exact hle⟩

theorem pagingUnmap_ends (h : s.pagingUnmap virt = some s') : SameEnds s s' := by
  unfold pagingUnmap at h
  split at h
  · cases h
    exact .refl s
  split at h
  · cases h
  · split at h
    · cases h
      exact .refl s
    · exact (writePte_ends h).1.of_pmm

theorem unmapLoop_ends (n : Nat) : ∀ {virt : Nat} {s s' : Vm}, unmapLoop n virt s = some s' → SameEnds s s' := by
  induction n with
  | zero =>
    intro virt s s' h
    cases h
    exact .refl s
  | succ n ih =>
    intro virt s s' h
    unfold unmapLoop at h
    split at h
    · cases h
    · rename_i s1 hu
      exact (pagingUnmap_ends hu).trans (ih h)

theorem growLoop_ends (n : Nat) : ∀ {addr : Nat} {s : Vm} {r : Bool × Vm}, growLoop n addr s = some r → SameEnds s r.2 := by
  induction n with
  | zero =>
    intro addr s r h
    cases h
    exact .refl s
  | succ n ih =>
    intro addr s r h
    unfold growLoop at h
    split at h
    · cases h
    · exact ih h
    simp only [] at h
    split at h
    · cases h
      exact ⟨rfl, rfl, rfl, rfl⟩
    split at h
    · cases h
    rename_i s2 hm
    split at h
    · cases h
    · rename_i s3 hz
      exact (pagingMap_ends hm).1.of_pmm.trans ((zeroPage_ends hz).1.trans (ih h))

theorem mapLoop_ends (n : Nat) : ∀ {done : Nat} {s : Vm} {r : Bool × Vm}, mapLoop virt n done s = some r →
    SameEnds s r.2 ∧ (r.1 = true → n ≤ s.pmm.freeFrames) := by
  induction n with
  | zero =>
    intro done s r h
    cases h
    exact ⟨.refl s, fun _ => Nat.zero_le _⟩
  | succ n ih =>
    intro done s r h
    unfold mapLoop at h
    rcases pmmAlloc_cases s.pmm with ⟨he, -⟩ | ⟨i, hi, -, he⟩
    · rw [he] at h
      obtain ⟨s2, hu, rfl⟩ := map_eq_some_iff.1 h
      exact ⟨(unmapLoop_ends _ hu).of_pmm, Bool.noConfusion⟩
    rw [he] at h
    simp only [] at h
    split at h
    · obtain ⟨s2, hu, rfl⟩ := map_eq_some_iff.1 h
      exact ⟨(unmapLoop_ends _ hu).of_pmm, Bool.noConfusion⟩
    split at h
    · cases h
    rename_i s2 hm
    split at h
    · cases h
    rename_i s3 hz
    obtain ⟨hmends, hlf⟩ := pagingMap_ends hm
    obtain ⟨hzends, hpmm⟩ := zeroPage_ends hz
    obtain ⟨hen, hct⟩ := ih h
    refine ⟨hmends.of_pmm.trans (hzends.trans hen), fun hr => ?_⟩
    have htk := Pmm.freeFrames_take hi
    have hn := hct hr
    rw [hpmm] at hn
    have hlf : s2.pmm.freeFrames ≤ (s.pmm.take i).freeFrames := hlf
    omega

/-- `heap_brk` is below `HEAP_VIRT_MAX`, and `vmalloc_ptr` between its bounds. -/
structure Ends (s : Vm) : Prop where
  brk : s.heapBrkPtr < heapVirtMax
  base : vmallocBase ≤ s.vmallocPtr
  last : s.vmallocPtr < vmallocEnd

theorem Ends.same (h : Ends s) (hs : SameEnds s s') : Ends s' :=
  ⟨by rw [hs.brk]; exact h.brk, by rw [hs.ptr]; exact h.base, by rw [hs.ptr]; exact h.last⟩

/-- What `vmalloc` has done when it returns: no more frames than 65536, so `vmalloc_ptr` has not wrapped. -/
theorem Ends.vmalloc_cases (h : Ends s) (hv : s.vmalloc n = some (a, s')) :
    a = 0 ∧ SameEnds s s' ∨ a = s.vmallocPtr ∧ s.vregions.length < vmallocMaxRegions ∧
      s.vmallocPtr + pageAlign n < vmallocEnd ∧ s'.vmallocPtr = s.vmallocPtr + pageAlign n ∧
      SameEnds s { s' with vmallocPtr := s.vmallocPtr } := by
  unfold Vm.vmalloc at hv
  split at hv
  · cases hv
    exact .inl ⟨rfl, .refl s⟩
  simp only [] at hv
  split at hv
  · cases hv
    exact .inl ⟨rfl, .refl s⟩
  obtain ⟨⟨b, s1⟩, hl, he⟩ := map_eq_some_iff.1 hv
  obtain ⟨hen, hct⟩ := mapLoop_ends _ hl
  cases b with
  | false =>
    cases he
    exact .inl ⟨rfl, hen⟩
  | true =>
    cases he
    have hn := Nat.le_trans (hct rfl) (tally_le _ 65536)
    have hsum : u32 (s.vmallocPtr + pageAlign n) = s.vmallocPtr + pageAlign n := by
      have hla := h.last
      unfold vmallocEnd pageAlign u32 pageSize at *
      omega
    exact .inr ⟨rfl, by omega, by omega, hsum, hen.brk, rfl, hen.heapEnd, hen.hblocks⟩

/-- Whatever the size, also one that wraps: the regions start at `VMALLOC_BASE` or above. -/
theorem Ends.vmalloc (h : Ends s) (hv : s.vmalloc n = some (a, s')) : Ends s' ∧ (a ≠ 0 → vmallocBase ≤ a) := by
  rcases h.vmalloc_cases hv with ⟨rfl, hen⟩ | ⟨rfl, -, hlt, hptr, hen⟩
  · exact ⟨h.same hen, absurd rfl⟩
  · refine ⟨⟨(h.same hen).brk, ?_, ?_⟩, fun _ => h.base⟩ <;> rw [hptr]
    · exact Nat.le_add_right_of_le h.base
    · exact hlt

theorem Ends.heapAlloc (h : Ends s) (ha : s.heapAlloc n = some (a, s')) : Ends s' := by
  unfold Vm.heapAlloc at ha
  split at ha
  · cases ha
    exact h
  simp only [] at ha
  split at ha
  · cases ha
    exact ⟨h.brk, h.base, h.last⟩
  split at ha
  · cases ha
    exact h
  obtain ⟨⟨b, s1⟩, hg, he⟩ := map_eq_some_iff.1 ha
  have h1 : Ends s1 := by
    unfold heapGrow at hg
    simp only [] at hg
    split at hg
    · cases hg
      exact h
    rename_i hmax
    obtain ⟨⟨c, s2⟩, hl, hg⟩ := map_eq_some_iff.1 hg
    have h2 := h.same (growLoop_ends _ hl)
    cases c with
    | false =>
      cases hg
      exact h2
    | true =>
      cases hg
      exact ⟨Nat.lt_of_not_le hmax, h2.base, h2.last⟩
  cases b with
  | false =>
    cases he
    exact h1
  | true =>
    cases he
    exact ⟨h1.brk, h1.base, h1.last⟩

theorem vmfree_ends {p : Nat} (hs : s.vmfree p = some s') : SameEnds s s' := by
  unfold Vm.vmfree at hs
  split at hs
  · obtain ⟨s1, hu, rfl⟩ := map_eq_some_iff.1 hs
    exact (unmapLoop_ends _ hu).trans ⟨rfl, rfl, rfl, rfl⟩
  · cases hs
    exact .refl s

theorem Ends.step {op : Op} (h : Ends w.vm) (hs : Step w op w') : Ends w'.vm := by
  cases op with
  | kmalloc n =>
    obtain ⟨p, k, -, rfl⟩ := hs
    exact ⟨h.brk, h.base, h.last⟩
  | kfree p =>
    obtain rfl := hs
    exact ⟨h.brk, h.base, h.last⟩
  | heapAlloc n =>
    obtain ⟨a, s, hs, rfl⟩ := hs
    exact h.heapAlloc hs
  | heapFree p =>
    obtain rfl := hs
    unfold Vm.heapFree
    split
    · exact ⟨h.brk, h.base, h.last⟩
    · exact h
  | vmalloc n =>
    obtain ⟨a, s, hs, rfl⟩ := hs
    exact (h.vmalloc hs).1
  | vmfree p =>
    obtain ⟨s, hs, rfl⟩ := hs
    exact h.same (vmfree_ends hs)

theorem Ends.run {ops : List Op} (h : Ends w.vm) (hrun : Run Step w ops w') : Ends w'.vm :=
  Run.invariant (fun w => Ends w.vm) h (fun _ _ _ h1 hs => h1.step hs) hrun

theorem boot_ends (memKb : Nat) (mem : Bytes) : Ends (boot memKb mem) :=
  ⟨show heapVirtBase < heapVirtMax by decide, Nat.le_refl _, show vmallocBase < vmallocEnd by decide⟩

/-! ## The first result -/

/-- The bytes of every block `malloc` has returned are in regions the kernel has given, and in no other block. -/
structure Sound (u : Process) : Prop where
  inside : ∀ e ∈ u.results, ∀ i < e.2, ∃ g ∈ u.granted, g.1 ≤ u32 (e.1 + i) ∧ u32 (e.1 + i) < g.1 + g.2
  apart : u.results.Pairwise fun e f => ∀ i < e.2, ∀ j < f.2, u32 (e.1 + i) ≠ u32 (f.1 + j)

/-- Nothing returned yet, or a block that starts below every region. -/
structure Low (u : Process) : Prop where
  ends : Ends u.world.vm
  granted : ∀ g ∈ u.granted, vmallocBase ≤ g.1
  first : (u.results = [] ∧ u.heapPtr < heapVirtMax) ∨ ∃ e ∈ u.results, e.1 < heapVirtMax ∧ 0 < e.2

/-- What `sc_sbrk` does. -/
theorem scSbrk_spec (h : Ends s) {inc : Nat} (hs : scSbrk s inc = some (r, s')) :
    Ends s' ∧ (inc ≠ 0 → r ≠ 0xFFFFFFFF → vmallocBase ≤ r) := by
  unfold scSbrk at hs
  split at hs
  · rename_i h0
    cases hs
    exact ⟨h, absurd h0⟩
  obtain ⟨⟨a, s1⟩, hv, he⟩ := map_eq_some_iff.1 hs
  cases he
  obtain ⟨hen, hbs⟩ := h.vmalloc hv
  refine ⟨hen, fun _ hr => ?_⟩
  split at hr
  · rename_i ha
    rw [if_pos ha]
    exact hbs ha
  · exact absurd rfl hr

theorem Low.malloc (h : Low u) {w2 : World} (hw2 : Ends w2.vm) (hm : u.malloc w2 n = some (r, u')) : Low u' := by
  unfold Process.malloc at hm
  split at hm
  · cases hm
    exact h
  rename_i hn
  obtain ⟨⟨p, s1⟩, hq, hm⟩ := Option.bind_eq_some_iff.1 hm
  -- the query leaves the kernel, and gives an address below `HEAP_VIRT_MAX`
  have hquery : s1 = u.world.vm ∧ (u.results = [] → p < heapVirtMax) := by
    split at hq
    · cases hq
      exact ⟨rfl, fun _ => h.ends.brk⟩
    cases hq
    refine ⟨rfl, fun hnil => ?_⟩
    rcases h.first with ⟨-, hlt⟩ | ⟨e, he, -⟩
    · exact hlt
    · rw [hnil] at he
      cases he
  obtain ⟨rfl, hlt⟩ := hquery
  have hfi : ∀ {rest : List (Nat × Nat)}, rest = u.results →
      ∃ e ∈ (p, n) :: rest, e.1 < heapVirtMax ∧ 0 < e.2 := by
    rintro rest rfl
    rcases h.first with ⟨hnil, -⟩ | ⟨e, he, hlow⟩
    · exact ⟨(p, n), List.mem_cons_self, hlt hnil, Nat.pos_of_ne_zero hn⟩
    · exact ⟨e, List.mem_cons_of_mem _ he, hlow⟩
  have hnn : (u.results = [] ∧ p < heapVirtMax) ∨ ∃ e ∈ u.results, e.1 < heapVirtMax ∧ 0 < e.2 :=
    h.first.imp (fun hnil => ⟨hnil.1, hlt hnil.1⟩) id
  simp only [] at hm
  split at hm
  · cases hm
    exact ⟨h.ends, h.granted, hnn⟩
  obtain ⟨⟨r2, s2⟩, hs, he⟩ := map_eq_some_iff.1 hm
  obtain ⟨hen, hbs⟩ := scSbrk_spec hw2 hs
  split at he
  · cases he
    exact ⟨hen, h.granted, hnn⟩
  rename_i hr
  cases he
  refine ⟨hen, fun g hg => ?_, .inr (hfi rfl)⟩
  split at hg
  · exact h.granted g hg
  rename_i hsz
  rcases List.mem_cons.1 hg with rfl | hg
  · exact hbs hsz hr
  · exact h.granted g hg

theorem Low.step {op : ProcessOp} (h : Low u) (hs : ProcessStep u op u') : Low u' := by
  cases op with
  | malloc n others =>
    obtain ⟨-, w2, r, hrun, hm⟩ := hs
    exact h.malloc (h.ends.run hrun) hm
  | other op =>
    obtain ⟨w, hw, rfl⟩ := hs
    exact ⟨h.ends.step hw, h.granted, h.first⟩

/-- The first block that `malloc` returns is outside of all the regions, so what `malloc` returns is the kernel's grant
exactly as long as it returns nothing. -/
theorem malloc_granted_iff (memKb : Nat) (mem : Bytes) (before : List Op) (w : World)
    (hbefore : Run Step ⟨boot memKb mem, []⟩ before w) (ops : List ProcessOp) (u : Process)
    (hrun : Run ProcessStep ⟨w, 0, [], []⟩ ops u) : Sound u ↔ u.results = [] := by
  have hsr : Low ⟨w, 0, [], []⟩ :=
    ⟨(boot_ends memKb mem).run hbefore, fun g hg => absurd hg List.not_mem_nil, .inl ⟨rfl, show 0 < heapVirtMax by decide⟩⟩
  have hlow : Low u := Run.invariant Low hsr (fun _ _ _ h1 hs => h1.step hs) hrun
  constructor
  · intro hsound
    rcases hlow.first with ⟨hnil, -⟩ | ⟨e, he, hlt, hpos⟩
    · exact hnil
    obtain ⟨g, hg, hge, -⟩ := hsound.inside e he 0 hpos
    have hbs := hlow.granted g hg
    have hu32 : u32 (e.1 + 0) = e.1 := Nat.mod_eq_of_lt (by unfold heapVirtMax at hlt; omega)
    rw [hu32] at hge
    exact absurd (Nat.le_trans hbs hge) (Nat.not_le_of_lt hlt)
  · intro hnil
    refine ⟨fun e he => ?_, ?_⟩
    · rw [hnil] at he
      cases he
    · rw [hnil]
      exact .nil

/-- More than `vmalloc` has. -/
theorem malloc_granted_iff_null : ∃ u, Run ProcessStep ⟨sampleBoot, 0, [], []⟩ [.malloc 0x2000000 []] u ∧ Sound u := by
  have hrun : Run ProcessStep ⟨sampleBoot, 0, [], []⟩ [.malloc 0x2000000 []] ⟨sampleBoot, 0x200000, [], []⟩ :=
    .single ⟨by decide, sampleBoot, 0, .nil, rfl⟩
  exact ⟨_, hrun, (malloc_granted_iff 32768 (fun _ => 0) [] sampleBoot .nil _ _ hrun).2 rfl⟩

/-- `malloc(16)` on the machine with 32 MB. -/
theorem malloc_below_grant : ∃ u, Run ProcessStep ⟨sampleBoot, 0, [], []⟩ [.malloc 16 []] u ∧
    u.results = [(0x200000, 16)] ∧ u.granted = [(0x1000000, 0x1000)] ∧ ¬ Sound u := by
  have h : (Process.malloc ⟨sampleBoot, 0, [], []⟩ sampleBoot 16).map (fun r => (r.2.results, r.2.granted)) =
      some ([(0x200000, 16)], [(0x1000000, 0x1000)]) := by decide +kernel
  obtain ⟨⟨r, u⟩, hm, h⟩ := map_eq_some_iff.1 h
  simp only [Prod.mk.injEq] at h
  obtain ⟨hresults, hgranted⟩ := h
  refine ⟨u, .single ⟨by decide, sampleBoot, r, .nil, hm⟩, hresults, hgranted, fun hsound => ?_⟩
  obtain ⟨g, hg, hge, -⟩ := hsound.inside (0x200000, 16) (by rw [hresults]; exact List.mem_cons_self) 0 (by decide)
  rw [hgranted] at hg
  obtain rfl := List.mem_singleton.1 hg
  exact absurd hge (by decide)

end KumOS.Syscall
