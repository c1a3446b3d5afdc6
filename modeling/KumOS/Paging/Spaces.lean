import KumOS.Paging.Frames

/-!
# `paging.c`: address spaces

The page directory and its tables as words in physical memory: mapping and
unmapping, the directory in CR3, `paging_clone_dir` and `paging_free_user`.  The
code takes every frame to be reachable at its physical address, and so does this
model: what the code reads and writes through such an address is the frame
itself.  (`KumOS.Paging.Model` has the accesses go through the mapping.)  A store
through a virtual address goes where the directory in CR3 maps it, or stops the
machine (`none`).
-/

namespace KumOS.Paging

open Lib
open Vm (pageDirIdx pageTblIdx)
open Function (update update_self update_of_ne)

variable {f g : Nat}

def pageUser : Nat := 4

/-- The frames of `page_dir` and `kern_tables`, arrays of the kernel image. -/
structure Image where
  pageDir : Nat
  kernTables : Nat
  dir_image : 0x100 ≤ pageDir ∧ pageDir < 0x500
  tables_image : 0x100 ≤ kernTables ∧ kernTables + 4 ≤ 0x500
  apart : pageDir < kernTables ∨ kernTables + 4 ≤ pageDir

structure Phys where
  /-- the bytes of every frame -/
  mem : Nat → Bytes
  pmm : Pmm
  cr3 : Nat
  /-- `vregions[0 .. vnum_regions)` -/
  vregions : List VRegion
  vmallocPtr : Nat
  /-- history: the flags `paging_map` last asked for, for every page it has mapped -/
  asked : Nat → Option Nat

namespace Phys

/-- Entry `i` of the table in frame `f`. -/
def word (s : Phys) (f i : Nat) : Nat := (s.mem f).get32 (4 * i)

def setWord (s : Phys) (f i w : Nat) : Phys :=
  { s with mem := update s.mem f ((s.mem f).put32 (4 * i) w) }

/-- `kmemset((void *)phys, 0, PAGE_SIZE)` -/
def zeroFrame (s : Phys) (f : Nat) : Phys := { s with mem := update s.mem f fun _ => 0 }

/-- Frame `f` has been handed out. -/
abbrev take (s : Phys) (f : Nat) : Phys := { s with pmm := s.pmm.take f }

/-- `kmemcpy((void *)dst, (void *)src, PAGE_SIZE)` -/
def copyFrame (s : Phys) (dst src : Nat) : Phys := { s with mem := update s.mem dst (s.mem src) }

/-- The history after `paging_map` or `paging_unmap` of the page of `virt`. -/
def ask (s : Phys) (virt : Nat) (flags : Option Nat) : Phys :=
  { s with asked := update s.asked (virt / pageSize) flags }

/-! ## What the processor finds -/

/-- The table entry for `va` in the directory of frame `dir`; 0 without a table. -/
def walk (s : Phys) (dir va : Nat) : Nat :=
  let e := s.word dir (pageDirIdx va)
  if e % 2 = pagePresent then s.word (e / pageSize) (pageTblIdx va) else 0

/-- The physical address of `va`. -/
def translate (s : Phys) (dir va : Nat) : Option Nat :=
  if s.walk dir va % 2 = pagePresent then some (s.walk dir va / pageSize * pageSize + va % pageSize) else none

/-- A page may be accessed if the directory and the table entry both allow it. -/
def effective (s : Phys) (dir va bit : Nat) : Bool :=
  s.word dir (pageDirIdx va) / bit % 2 = 1 && s.walk dir va / bit % 2 = 1

/-- The directory in CR3. -/
def active (s : Phys) : Nat := frameIdx s.cr3

/-- The byte at `va`, and a store there. -/
def load (s : Phys) (dir va : Nat) : Option UInt8 :=
  (s.translate dir va).map fun pa => s.mem (frameIdx pa) (pa % pageSize)

def store (s : Phys) (dir va : Nat) (b : UInt8) : Option Phys :=
  (s.translate dir va).map fun pa =>
    { s with mem := update s.mem (frameIdx pa) (update (s.mem (frameIdx pa)) (pa % pageSize) b) }

section

variable (im : Image)

/-! ## Mapping -/

/-- `pte_ptr(virt, 0)`: the frame of the table and the index of the entry. -/
def ptePtr (s : Phys) (virt : Nat) : Option (Nat × Nat) :=
  let e := s.word im.pageDir (pageDirIdx virt)
  if e % 2 = pagePresent then some (e / pageSize, pageTblIdx virt) else none

/-- `pte_ptr(virt, 1)` -/
def ptePtrAlloc (s : Phys) (virt : Nat) : Option (Nat × Nat) × Phys :=
  let di := pageDirIdx virt
  if s.word im.pageDir di % 2 = pagePresent then
    (some (s.word im.pageDir di / pageSize, pageTblIdx virt), s)
  else
    let a := pmmAlloc s.pmm
    let s1 := { s with pmm := a.2 }
    if a.1 = 0 then (none, s1)
    else
      let s2 := (s1.zeroFrame (frameIdx a.1)).setWord im.pageDir di (a.1 ||| pagePresent ||| pageWrite)
      (some (s2.word im.pageDir di / pageSize, pageTblIdx virt), s2)

def pagingMap (s : Phys) (virt phys flags : Nat) : Phys :=
  match s.ptePtrAlloc im virt with
  | (none, s1) => s1
  | (some (f, i), s1) => (s1.setWord f i (phys / pageSize * pageSize ||| pagePresent ||| flags)).ask virt (some flags)

def pagingUnmap (s : Phys) (virt : Nat) : Phys :=
  match s.ptePtr im virt with
  | none => s
  | some (f, i) =>
    let e := s.word f i
    if e % 2 ≠ pagePresent then s
    else (({ s with pmm := pmmFree s.pmm (e / pageSize * pageSize) }).setWord f i 0).ask virt none

def pagingVirtToPhys (s : Phys) (virt : Nat) : Nat :=
  match s.ptePtr im virt with
  | none => 0
  | some (f, i) =>
    let e := s.word f i
    if e % 2 ≠ pagePresent then 0 else e / pageSize * pageSize + virt % pageSize

def pagingIsMapped (s : Phys) (virt : Nat) : Bool :=
  match s.ptePtr im virt with
  | none => false
  | some (f, i) => s.word f i % 2 = pagePresent

/-! ## Directories -/

def pagingSwitch (s : Phys) (dirPhys : Nat) : Phys := { s with cr3 := dirPhys }

/-- Entry `j` of a table that is copied. -/
def cloneEntry (src dst j : Nat) (s : Phys) : Phys :=
  let e := s.word src j
  if e = 0 then s
  else
    let a := pmmAlloc s.pmm
    let s1 := { s with pmm := a.2 }
    if a.1 = 0 then s1
    else (s1.copyFrame (frameIdx a.1) (e / pageSize)).setWord dst j (a.1 ||| e % pageSize)

/-- The first `n` entries. -/
def cloneTbl (src dst : Nat) : Nat → Phys → Phys
  | 0, s => s
  | n + 1, s => cloneEntry src dst n (cloneTbl src dst n s)

/-- Entry `i` of the directory that is copied; `false` when there is no frame for its table. -/
def cloneDirEntry (newDir i : Nat) (s : Phys) : Bool × Phys :=
  let e := s.word im.pageDir i
  if e = 0 then (true, s)
  else if i < 256 then (true, s.setWord newDir i e)
  else
    let a := pmmAlloc s.pmm
    let s1 := { s with pmm := a.2 }
    if a.1 = 0 then (false, { s1 with pmm := pmmFree s1.pmm (newDir * pageSize) })
    else
      let s2 := cloneTbl (e / pageSize) (frameIdx a.1) pageEntries (s1.zeroFrame (frameIdx a.1))
      (true, s2.setWord newDir i (a.1 ||| s2.word im.pageDir i % pageSize))

/-- The first `n` entries. -/
def cloneDir (newDir : Nat) : Nat → Phys → Bool × Phys
  | 0, s => (true, s)
  | n + 1, s =>
    match cloneDir newDir n s with
    | (false, s1) => (false, s1)
    | (true, s1) => cloneDirEntry im newDir n s1

/-- The physical address of the new directory, 0 on failure. -/
def pagingCloneDir (s : Phys) : Nat × Phys :=
  let a := pmmAlloc s.pmm
  let s1 := { s with pmm := a.2 }
  if a.1 = 0 then (0, s1)
  else
    match cloneDir im (frameIdx a.1) pageEntries (s1.zeroFrame (frameIdx a.1)) with
    | (false, s2) => (0, s2)
    | (true, s2) => (a.1, s2)

end

/-- The pages of the first `n` entries of a table are given back. -/
def freeTbl (tbl : Nat) : Nat → Phys → Phys
  | 0, s => s
  | n + 1, s =>
    let s1 := freeTbl tbl n s
    let e := s1.word tbl n
    if e = 0 then s1 else { s1 with pmm := pmmFree s1.pmm (e / pageSize * pageSize) }

/-- The tables of the entries `256, .., 256 + n - 1` are given back, with their pages. -/
def freeDir (dir : Nat) : Nat → Phys → Phys
  | 0, s => s
  | n + 1, s =>
    let s1 := freeDir dir n s
    let e := s1.word dir (256 + n)
    if e = 0 then s1
    else
      let s2 := freeTbl (e / pageSize) pageEntries s1
      { s2 with pmm := pmmFree s2.pmm (e / pageSize * pageSize) }

def pagingFreeUser (s : Phys) (dirPhys : Nat) : Phys :=
  let s1 := freeDir (frameIdx dirPhys) (pageEntries - 256) s
  { s1 with pmm := pmmFree s1.pmm dirPhys }

end Phys

/-- `paging_init(mem_kb)`, over any memory. -/
def pagingInit (im : Image) (memKb : Nat) (mem : Nat → Bytes) : Phys where
  mem := fun f =>
    if f = im.pageDir then
      .ofWords fun d => if d < 4 then (im.kernTables + d) * pageSize ||| pagePresent ||| pageWrite else 0
    else if im.kernTables ≤ f ∧ f < im.kernTables + 4 then
      .ofWords fun p => ((f - im.kernTables) * pageEntries + p) * pageSize ||| pagePresent ||| pageWrite
    else mem f
  pmm := pmmInit memKb
  cr3 := im.pageDir * pageSize
  vregions := []
  vmallocPtr := vmallocBase
  asked := fun _ => none

/-! ## Reading back -/

theorem or_mod (x y : Nat) : x * pageSize ||| y % pageSize = x * pageSize + y % pageSize :=
  or_flags x (Nat.mod_lt y (by decide))

theorem pageDirIdx_lt {va : Nat} (h : va < 2 ^ 32) : pageDirIdx va < 1024 := by
  unfold pageDirIdx
  omega

theorem pageTblIdx_lt (va : Nat) : pageTblIdx va < 1024 := Nat.mod_lt _ (by decide)

namespace Phys

variable (s : Phys)

theorem word_lt (f i : Nat) : s.word f i < 2 ^ 32 := Bytes.get32_lt _ _

theorem word_congr {s s' : Phys} (h : s'.mem f = s.mem f) (i : Nat) : s'.word f i = s.word f i := by
  unfold word
  rw [h]

theorem word_pmm (p : Pmm) (f i : Nat) : ({ s with pmm := p }).word f i = s.word f i := rfl

theorem mem_setWord_self (f i w : Nat) : (s.setWord f i w).mem f = (s.mem f).put32 (4 * i) w :=
  show update s.mem f _ f = _ from update_self ..

theorem mem_setWord_ne (h : g ≠ f) (i w : Nat) : (s.setWord f i w).mem g = s.mem g :=
  show update s.mem f _ g = _ from update_of_ne h ..

theorem word_setWord_self {i w : Nat} (hw : w < 2 ^ 32) : (s.setWord f i w).word f i = w := by
  unfold word
  rw [mem_setWord_self]
  exact Bytes.get32_put32_same _ hw

theorem word_setWord_ne {i j : Nat} (w : Nat) (h : g ≠ f ∨ j ≠ i) : (s.setWord f i w).word g j = s.word g j := by
  by_cases hg : g = f
  · subst hg
    unfold word
    rw [mem_setWord_self]
    exact Bytes.get32_put32_ne _ (by omega)
  · exact word_congr (s.mem_setWord_ne hg i w) j

theorem mem_zeroFrame_ne (h : g ≠ f) : (s.zeroFrame f).mem g = s.mem g :=
  show update s.mem f _ g = _ from update_of_ne h ..

theorem word_zeroFrame_self (f i : Nat) : (s.zeroFrame f).word f i = 0 := by
  have hz : (s.zeroFrame f).mem f = fun _ => 0 := update_self ..
  unfold word
  rw [hz]
  rfl

theorem mem_copyFrame_self (dst src : Nat) : (s.copyFrame dst src).mem dst = s.mem src :=
  show update s.mem dst _ dst = _ from update_self ..

theorem mem_copyFrame_ne {dst : Nat} (h : g ≠ dst) (src : Nat) : (s.copyFrame dst src).mem g = s.mem g :=
  show update s.mem dst _ g = _ from update_of_ne h ..

/-- `paging_virt_to_phys` and `paging_is_mapped` walk `page_dir`. -/
theorem pagingIsMapped_eq (im : Image) (va : Nat) : s.pagingIsMapped im va = (s.translate im.pageDir va).isSome := by
  unfold pagingIsMapped ptePtr translate walk
  by_cases hd : s.word im.pageDir (pageDirIdx va) % 2 = pagePresent
  · simp only [if_pos hd]
    split <;> simp_all
  · simp only [if_neg hd]
    rfl

theorem pagingVirtToPhys_eq (im : Image) (va : Nat) : s.pagingVirtToPhys im va = (s.translate im.pageDir va).getD 0 := by
  unfold pagingVirtToPhys ptePtr translate walk
  by_cases hd : s.word im.pageDir (pageDirIdx va) % 2 = pagePresent
  · simp only [if_pos hd]
    split <;> simp_all
  · simp only [if_neg hd]
    rfl

/-- Nothing but memory and frames has changed. -/
def SameRegions (s s' : Phys) : Prop := s'.vregions = s.vregions ∧ s'.vmallocPtr = s.vmallocPtr

theorem SameRegions.trans {s s1 s' : Phys} (h : SameRegions s s1) (h' : SameRegions s1 s') : SameRegions s s' :=
  ⟨h'.1.trans h.1, h'.2.trans h.2⟩

/-- Only `paging_switch` loads CR3, and only `vmalloc` and `vmfree` work on the regions. -/
theorem pagingMap_rest (im : Image) (va phys flags : Nat) : (s.pagingMap im va phys flags).active = s.active ∧
    SameRegions s (s.pagingMap im va phys flags) := by
  have hptr : (s.ptePtrAlloc im va).2.active = s.active ∧ SameRegions s (s.ptePtrAlloc im va).2 := by
    unfold ptePtrAlloc
    simp only []
    split
    · exact ⟨rfl, rfl, rfl⟩
    · split <;> exact ⟨rfl, rfl, rfl⟩
  unfold pagingMap
  generalize s.ptePtrAlloc im va = r at hptr
  obtain ⟨o, s1⟩ := r
  cases o with
  | none | some e => exact hptr

theorem pagingMap_active (im : Image) (va phys flags : Nat) : (s.pagingMap im va phys flags).active = s.active :=
  (s.pagingMap_rest im va phys flags).1

theorem pagingUnmap_rest (im : Image) (va : Nat) : (s.pagingUnmap im va).active = s.active ∧
    SameRegions s (s.pagingUnmap im va) := by
  unfold pagingUnmap
  split
  · exact ⟨rfl, rfl, rfl⟩
  · simp only []
    split <;> exact ⟨rfl, rfl, rfl⟩

theorem pagingUnmap_active (im : Image) (va : Nat) : (s.pagingUnmap im va).active = s.active :=
  (s.pagingUnmap_rest im va).1

end Phys

/-! ## Boot -/

theorem or_present_write (x : Nat) : x * pageSize ||| pagePresent ||| pageWrite = x * pageSize + 3 := by
  rw [Nat.or_assoc]
  exact or_flags x (by decide)

theorem pagingInit_dir (im : Image) (memKb : Nat) (mem : Nat → Bytes) (d : Nat) :
    (pagingInit im memKb mem).word im.pageDir d = if d < 4 then (im.kernTables + d) * pageSize + 3 else 0 := by
  have hm : (pagingInit im memKb mem).mem im.pageDir =
      .ofWords fun d => if d < 4 then (im.kernTables + d) * pageSize ||| pagePresent ||| pageWrite else 0 := if_pos rfl
  have hlt : (if d < 4 then (im.kernTables + d) * pageSize + 3 else 0) < 2 ^ 32 := by
    have := im.tables_image
    unfold pageSize
    split <;> omega
  unfold Phys.word
  rw [hm]
  simp only [or_present_write]
  exact Bytes.get32_ofWords hlt

theorem pagingInit_table (im : Image) (memKb : Nat) (mem : Nat → Bytes) {t p : Nat} (ht : t < 4) (hp : p < 1024) :
    (pagingInit im memKb mem).word (im.kernTables + t) p = (t * 1024 + p) * pageSize + 3 := by
  have hne : im.kernTables + t ≠ im.pageDir := by
    have := im.apart
    omega
  have hm : (pagingInit im memKb mem).mem (im.kernTables + t) =
      .ofWords fun p => ((im.kernTables + t - im.kernTables) * pageEntries + p) * pageSize ||| pagePresent ||| pageWrite :=
    (if_neg hne).trans (if_pos ⟨by omega, by omega⟩)
  have hlt : (t * 1024 + p) * pageSize + 3 < 2 ^ 32 := by
    unfold pageSize
    omega
  unfold Phys.word
  rw [hm]
  simp only [or_present_write, Nat.add_sub_cancel_left]
  exact Bytes.get32_ofWords hlt

/-- `page_dir` and `kern_tables` at 4 MB. -/
def sampleImage : Image := ⟨0x400, 0x401, by decide, by decide, by decide⟩

end KumOS.Paging
