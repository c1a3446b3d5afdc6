import KumOS.Paging.Spaces

/-!
# `vmalloc` and `elf_load_mem`

The callers of `paging_map` that also write the pages they map.  They write through
virtual addresses, so they stop the machine (`none`) at a page that is not mapped.
-/

namespace KumOS.Paging

open Lib
open Vm (vmallocMaxRegions)

namespace Phys

/-- `n` bytes are written at `va`, one after the other. -/
def storeBytes (s : Phys) (va : Nat) (src : Nat → UInt8) : Nat → Option Phys
  | 0 => some s
  | n + 1 => (s.storeBytes va src n).bind fun s1 => s1.store s1.active (u32 (va + n)) (src n)

def kmemcpy (s : Phys) (va : Nat) (src : Nat → UInt8) (n : Nat) : Option Phys :=
  s.storeBytes va src n

def kmemset (s : Phys) (va : Nat) (b : UInt8) (n : Nat) : Option Phys :=
  s.storeBytes va (fun _ => b) n

section

variable (im : Image)

/-! ## `vmalloc` and `vmfree` -/

/-- `paging_unmap` of the `n` pages from `virt` on. -/
def unmapLoop : Nat → Nat → Phys → Phys
  | 0, _, s => s
  | n + 1, virt, s => unmapLoop n (u32 (virt + pageSize)) (s.pagingUnmap im virt)

/-- The loop of `vmalloc`: `done` pages are mapped, `n` are left. -/
def mapLoop (virt : Nat) : Nat → Nat → Phys → Option (Bool × Phys)
  | 0, _, s => some (true, s)
  | n + 1, done, s =>
    let a := pmmAlloc s.pmm
    let s1 := { s with pmm := a.2 }
    if a.1 = 0 then some (false, unmapLoop im done virt s1)
    else
      let va := u32 (virt + done * pageSize)
      ((s1.pagingMap im va a.1 pageWrite).kmemset va 0 pageSize).bind fun s2 => mapLoop virt n (done + 1) s2

/-- The address returned (0 for NULL) and the new state. -/
def vmalloc (s : Phys) (n : Nat) : Option (Nat × Phys) :=
  if n = 0 ∨ vmallocMaxRegions ≤ s.vregions.length then some (0, s)
  else
    let size := pageAlign n
    if vmallocEnd ≤ u32 (s.vmallocPtr + size) then some (0, s)
    else
      (mapLoop im s.vmallocPtr (size / pageSize) 0 s).map fun r =>
        if r.1 then (s.vmallocPtr, { r.2 with
          vregions := r.2.vregions ++ [⟨s.vmallocPtr, size, true⟩]
          vmallocPtr := u32 (s.vmallocPtr + size) })
        else (0, r.2)

/-- The region that is given back is the first active one at `ptr`; any other pointer is ignored. -/
def vmfree (s : Phys) (ptr : Nat) : Phys :=
  match s.vregions.findIdx? fun r => r.active && r.virtStart = ptr with
  | some i =>
    let r := s.vregions.getD i ⟨0, 0, false⟩
    let s1 := unmapLoop im (r.size / pageSize) ptr s
    { s1 with vregions := s1.vregions.set i { r with active := false } }
  | none => s

end

end Phys

/-! ## ELF images -/

/-- `elf_load_result_t` -/
structure ElfResult where
  entry : Nat
  loadBase : Nat
  loadEnd : Nat
  error : Int

/-- The fields of `elf32_phdr_t` that are read. -/
structure Phdr where
  type : Nat
  offset : Nat
  vaddr : Nat
  filesz : Nat
  memsz : Nat

def elfMagic : Nat := 0x464C457F
def etExec : Nat := 2
def em386 : Nat := 3
def ptLoad : Nat := 1

/-- `sizeof(elf32_hdr_t)`, `sizeof(elf32_phdr_t)` -/
def elfHdrSize : Nat := 52
def elfPhdrSize : Nat := 32

/-- The fields of `elf32_hdr_t`, at their offsets. -/
def elfPhnum (data : Bytes) : Nat := data.get16 44

def elfValidate (hdr : Bytes) : Int :=
  if hdr.get32 0 ≠ elfMagic then -1
  else if (hdr 4).toNat ≠ 1 then -2
  else if hdr.get16 18 ≠ em386 then -2
  else if hdr.get16 16 ≠ etExec then -2
  else if elfPhnum hdr = 0 then -2
  else 0

/-- The offset of program header `i`, and the header.  (What is behind the buffer may be any bytes; addresses wrap.) -/
def elfPhoff (data : Bytes) (i : Nat) : Nat := u32 (data.get32 28 + i * data.get16 42)

def elfField (data : Bytes) (off : Nat) : Nat := Bytes.get32 (fun x => data (u32 x)) off

def elfPhdr (data : Bytes) (i : Nat) : Phdr where
  type := elfField data (elfPhoff data i)
  offset := elfField data (elfPhoff data i + 4)
  vaddr := elfField data (elfPhoff data i + 8)
  filesz := elfField data (elfPhoff data i + 16)
  memsz := elfField data (elfPhoff data i + 20)

/-- The bytes of the file that are copied. -/
def Phdr.copy (ph : Phdr) (bufsz : Nat) : Nat :=
  if ph.filesz = 0 then 0
  else if bufsz < u32 (ph.offset + ph.filesz) then u32 (bufsz + 2 ^ 32 - ph.offset)
  else ph.filesz

namespace Phys

variable (im : Image)

/-- The loop over the pages of a segment; `false` when there is no frame. -/
def elfPages : Nat → Nat → Phys → Bool × Phys
  | 0, _, s => (true, s)
  | n + 1, va, s =>
    if s.pagingIsMapped im va then elfPages n (va + pageSize) s
    else
      let a := pmmAlloc s.pmm
      let s1 := { s with pmm := a.2 }
      if a.1 = 0 then (false, s1)
      else elfPages n (va + pageSize) ((s1.zeroFrame (frameIdx a.1)).pagingMap im va a.1 (pageUser ||| pageWrite))

theorem pages_succ {va n : Nat} (hn : va + (n + 1) * pageSize ≤ 2 ^ 32) :
    va < 2 ^ 32 ∧ va + pageSize + n * pageSize ≤ 2 ^ 32 := by
  unfold pageSize at hn ⊢
  omega

/-- One segment: `true` to go on with the next header, `false` to return. -/
def elfSegment (data : Bytes) (bufsz : Nat) (ph : Phdr) (r : ElfResult) (s : Phys) : Option (Bool × ElfResult × Phys) :=
  if ph.type ≠ ptLoad then some (true, r, s)
  else if ph.memsz = 0 then some (true, r, s)
  else if ph.vaddr < 0x100000 then some (true, r, s)
  else if 0xC0000000 ≤ ph.vaddr then some (true, r, s)
  else if 0x100000 ≤ ph.vaddr ∧ ph.vaddr < 0x500000 then some (false, { r with error := -2 }, s)
  else
    let vstart := ph.vaddr / pageSize * pageSize
    let vend := pageAlign (u32 (ph.vaddr + ph.memsz))
    match elfPages im ((vend - vstart) / pageSize) vstart s with
    | (false, s1) => some (false, { r with error := -3 }, s1)
    | (true, s1) =>
      (s1.kmemcpy ph.vaddr (fun k => data (u32 (ph.offset + k))) (ph.copy bufsz)).bind fun s2 =>
        (if ph.filesz < ph.memsz then s2.kmemset (u32 (ph.vaddr + ph.filesz)) 0 (ph.memsz - ph.filesz)
          else some s2).map fun s3 =>
            (true, { r with
              loadBase := if ph.vaddr < r.loadBase then ph.vaddr else r.loadBase
              loadEnd := if r.loadEnd < u32 (ph.vaddr + ph.memsz) then u32 (ph.vaddr + ph.memsz) else r.loadEnd }, s3)

/-- The first `n` program headers. -/
def elfLoop (data : Bytes) (bufsz : Nat) : Nat → ElfResult → Phys → Option (Bool × ElfResult × Phys)
  | 0, r, s => some (true, r, s)
  | n + 1, r, s =>
    match elfLoop data bufsz n r s with
    | some (true, r1, s1) =>
      if bufsz < u32 (elfPhoff data n + elfPhdrSize) then some (true, r1, s1)
      else elfSegment im data bufsz (elfPhdr data n) r1 s1
    | stop => stop

def elfLoadMem (s : Phys) (data : Bytes) (bufsz : Nat) : Option (ElfResult × Phys) :=
  if bufsz < elfHdrSize then some (⟨0, 0, 0, -1⟩, s)
  else if elfValidate data < 0 then some (⟨0, 0, 0, -2⟩, s)
  else
    (elfLoop im data bufsz (elfPhnum data) ⟨data.get32 24, 0xFFFFFFFF, 0, 0⟩ s).map fun o =>
      if o.1 then (if o.2.1.loadBase = 0xFFFFFFFF then { o.2.1 with error := -2 } else o.2.1, o.2.2) else o.2

/-! ## One segment -/

/-- The headers that are not skipped or refused. -/
structure Phdr.Loads (ph : Phdr) : Prop where
  type : ph.type = ptLoad
  mem : ph.memsz ≠ 0
  ge : 0x500000 ≤ ph.vaddr
  lt : ph.vaddr < 0xC0000000

/-- The first page of a segment, and how many the loop takes. -/
def Phdr.vstart (ph : Phdr) : Nat := ph.vaddr / pageSize * pageSize

def Phdr.pages (ph : Phdr) : Nat := (pageAlign (u32 (ph.vaddr + ph.memsz)) - ph.vaddr / pageSize * pageSize) / pageSize

/-- The bytes of the file, as the segment is copied. -/
def Phdr.bytes (ph : Phdr) (data : Bytes) (k : Nat) : UInt8 := data (u32 (ph.offset + k))

/-- The result after a segment has been loaded. -/
def ElfResult.extend (r : ElfResult) (ph : Phdr) : ElfResult := { r with
  loadBase := if ph.vaddr < r.loadBase then ph.vaddr else r.loadBase
  loadEnd := if r.loadEnd < u32 (ph.vaddr + ph.memsz) then u32 (ph.vaddr + ph.memsz) else r.loadEnd }

section

variable {im} {data : Bytes} {bufsz : Nat} {ph : Phdr} {r r' : ElfResult} {s s' : Phys} {b : Bool}

theorem pages_end (h : Phdr.Loads ph) : Phdr.vstart ph + Phdr.pages ph * pageSize < 2 ^ 32 := by
  have hlt := h.lt
  have hend : pageAlign (u32 (ph.vaddr + ph.memsz)) < 2 ^ 32 := by
    have : u32 (u32 (ph.vaddr + ph.memsz) + pageSize - 1) < 2 ^ 32 := Nat.mod_lt _ (by decide)
    exact Nat.lt_of_le_of_lt (Nat.div_mul_le_self _ _) this
  unfold Phdr.vstart Phdr.pages
  unfold pageSize at *
  omega

/-- A header that is not loaded: the next one, or an error. -/
theorem elfSegment_skip (h : ¬ Phdr.Loads ph) : elfSegment im data bufsz ph r s = some (true, r, s) ∨
    elfSegment im data bufsz ph r s = some (false, { r with error := -2 }, s) := by
  unfold elfSegment
  by_cases h1 : ph.type ≠ ptLoad
  · exact .inl (if_pos h1)
  by_cases h2 : ph.memsz = 0
  · exact .inl (by rw [if_neg h1, if_pos h2])
  by_cases h3 : ph.vaddr < 0x100000
  · exact .inl (by rw [if_neg h1, if_neg h2, if_pos h3])
  by_cases h4 : 0xC0000000 ≤ ph.vaddr
  · exact .inl (by rw [if_neg h1, if_neg h2, if_neg h3, if_pos h4])
  by_cases h5 : 0x100000 ≤ ph.vaddr ∧ ph.vaddr < 0x500000
  · exact .inr (by rw [if_neg h1, if_neg h2, if_neg h3, if_neg h4, if_pos h5])
  exact absurd ⟨Decidable.of_not_not h1, h2, by omega, by omega⟩ h

/-- A header that is loaded: its pages, the bytes of the file, and zeros. -/
theorem elfSegment_loads (h : Phdr.Loads ph) : elfSegment im data bufsz ph r s =
    match elfPages im (Phdr.pages ph) (Phdr.vstart ph) s with
    | (false, s1) => some (false, { r with error := -3 }, s1)
    | (true, s1) => (s1.kmemcpy ph.vaddr (Phdr.bytes ph data) (ph.copy bufsz)).bind fun s2 =>
        (s2.kmemset (u32 (ph.vaddr + ph.filesz)) 0 (ph.memsz - ph.filesz)).map fun s3 =>
          (true, ElfResult.extend r ph, s3) := by
  have hge := h.ge
  have hlt := h.lt
  have hset : ∀ s2 : Phys, (if ph.filesz < ph.memsz then
      s2.kmemset (u32 (ph.vaddr + ph.filesz)) 0 (ph.memsz - ph.filesz) else some s2) =
      s2.kmemset (u32 (ph.vaddr + ph.filesz)) 0 (ph.memsz - ph.filesz) := by
    intro s2
    by_cases hf : ph.filesz < ph.memsz
    · exact if_pos hf
    · rw [if_neg hf, Nat.sub_eq_zero_of_le (Nat.le_of_not_lt hf)]
      rfl
  unfold elfSegment
  rw [if_neg (not_not_intro h.type), if_neg h.mem, if_neg (by omega), if_neg (by omega), if_neg (by omega)]
  simp only [hset]
  rfl

theorem elfSegment_cases (hs : elfSegment im data bufsz ph r s = some (b, r', s')) :
    (¬ Phdr.Loads ph ∧ s' = s ∧ (b = true ∧ r' = r ∨ b = false ∧ r' = { r with error := -2 })) ∨
    (Phdr.Loads ph ∧ elfPages im (Phdr.pages ph) (Phdr.vstart ph) s = (false, s') ∧ b = false ∧
      r' = { r with error := -3 }) ∨
    (Phdr.Loads ph ∧ ∃ s1 s2, elfPages im (Phdr.pages ph) (Phdr.vstart ph) s = (true, s1) ∧
      s1.kmemcpy ph.vaddr (Phdr.bytes ph data) (ph.copy bufsz) = some s2 ∧
      s2.kmemset (u32 (ph.vaddr + ph.filesz)) 0 (ph.memsz - ph.filesz) = some s' ∧ b = true ∧
      r' = ElfResult.extend r ph) := by
  by_cases h : Phdr.Loads ph
  · rw [elfSegment_loads h] at hs
    generalize elfPages im (Phdr.pages ph) (Phdr.vstart ph) s = o at hs
    obtain ⟨ok, s1⟩ := o
    cases ok with
    | false =>
      cases hs
      exact .inr (.inl ⟨h, rfl, rfl, rfl⟩)
    | true =>
      obtain ⟨s2, hcpy, hs⟩ := Option.bind_eq_some_iff.1 hs
      obtain ⟨s3, hset, hs⟩ := Option.map_eq_some_iff.1 hs
      cases hs
      exact .inr (.inr ⟨h, s1, s2, rfl, hcpy, hset, rfl, rfl⟩)
  · have hskip : elfSegment im data bufsz ph r s = _ ∨ elfSegment im data bufsz ph r s = _ := elfSegment_skip h
    rcases hskip with he | he
    all_goals
      rw [he] at hs
      cases hs
    · exact .inl ⟨h, rfl, .inl ⟨rfl, rfl⟩⟩
    · exact .inl ⟨h, rfl, .inr ⟨rfl, rfl⟩⟩

end

/-! ## The regions -/

theorem elfPages_rest (n va : Nat) (s : Phys) :
    (elfPages im n va s).2.active = s.active ∧ SameRegions s (elfPages im n va s).2 := by
  induction n generalizing va s with
  | zero => exact ⟨rfl, rfl, rfl⟩
  | succ n ih =>
    rw [elfPages]
    split
    · exact ih _ _
    simp only []
    split
    · exact ⟨rfl, rfl, rfl⟩
    obtain ⟨hact, hreg⟩ := pagingMap_rest (({ s with pmm := (pmmAlloc s.pmm).2 } : Phys).zeroFrame
      (frameIdx (pmmAlloc s.pmm).1)) im va (pmmAlloc s.pmm).1 (pageUser ||| pageWrite)
    obtain ⟨hact2, hreg2⟩ := ih (va + pageSize) ((({ s with pmm := (pmmAlloc s.pmm).2 } : Phys).zeroFrame
      (frameIdx (pmmAlloc s.pmm).1)).pagingMap im va (pmmAlloc s.pmm).1 (pageUser ||| pageWrite))
    exact ⟨hact2.trans hact, SameRegions.trans hreg hreg2⟩

end Phys

end KumOS.Paging

namespace KumOS.Elf

open Lib Paging Paging.Phys

/-- What the loop over the headers starts with. -/
def elfStart (data : Bytes) : ElfResult := ⟨data.get32 24, 0xFFFFFFFF, 0, 0⟩

/-- A header that makes the call return. -/
structure Refused (ph : Phdr) : Prop where
  type : ph.type = ptLoad
  mem : ph.memsz ≠ 0
  ge : 0x100000 ≤ ph.vaddr
  lt : ph.vaddr < 0x500000

/-- The loop may come to header `i`: the file passes the checks, the loop takes the header to be in the buffer, and none
before it is refused. -/
structure Comes (data : Bytes) (bufsz i : Nat) : Prop where
  size : elfHdrSize ≤ bufsz
  valid : 0 ≤ elfValidate data
  lt : i < elfPhnum data
  header : u32 (elfPhoff data i + elfPhdrSize) ≤ bufsz
  earlier : ∀ j < i, u32 (elfPhoff data j + elfPhdrSize) ≤ bufsz → ¬ Refused (elfPhdr data j)

variable {im : Image} {bufsz i n : Nat} {s s' s1 : Phys} {data : Bytes} {ph : Phdr} {r r' : ElfResult} {b : Bool}
variable {Q : Phys → Prop}

/-- A header after which the call returns is refused, or there was no frame. -/
theorem elfSegment_stops (hs : elfSegment im data bufsz ph r s = some (false, r', s')) :
    Refused ph ∧ r' = { r with error := -2 } ∨ Phdr.Loads ph ∧ r' = { r with error := -3 } ∧
      elfPages im (Phdr.pages ph) (Phdr.vstart ph) s = (false, s') := by
  rcases elfSegment_cases hs with ⟨hl, -, ⟨hb, -⟩ | ⟨-, hr⟩⟩ | ⟨hl, he, -, hr⟩ | ⟨-, _, _, -, -, -, hb, -⟩
  · cases hb
  · refine .inl ⟨?_, hr⟩
    unfold elfSegment at hs
    by_cases h1 : ph.type ≠ ptLoad
    · rw [if_pos h1] at hs
      cases hs
    by_cases h2 : ph.memsz = 0
    · rw [if_neg h1, if_pos h2] at hs
      cases hs
    by_cases h3 : ph.vaddr < 0x100000
    · rw [if_neg h1, if_neg h2, if_pos h3] at hs
      cases hs
    refine ⟨Decidable.of_not_not h1, h2, Nat.le_of_not_lt h3, Nat.lt_of_not_le fun hge => ?_⟩
    by_cases h4 : 0xC0000000 ≤ ph.vaddr
    · rw [if_neg h1, if_neg h2, if_neg h3, if_pos h4] at hs
      cases hs
    · exact hl ⟨Decidable.of_not_not h1, h2, hge, Nat.lt_of_not_le h4⟩
  · exact .inr ⟨hl, hr, he⟩
  · cases hb

theorem Refused.elfSegment (h : Refused ph) : elfSegment im data bufsz ph r s = some (false, { r with error := -2 }, s) := by
  have hge := h.ge
  have hlt := h.lt
  unfold Phys.elfSegment
  rw [if_neg (not_not_intro h.type), if_neg h.mem, if_neg (by omega), if_neg (by omega), if_pos ⟨hge, hlt⟩]

/-- One round of the loop. -/
theorem elfLoop_succ (hs : elfLoop im data bufsz (n + 1) r s = some (b, r', s')) :
    elfLoop im data bufsz n r s = some (false, r', s') ∧ b = false ∨ ∃ r1 s1,
      elfLoop im data bufsz n r s = some (true, r1, s1) ∧
        (bufsz < u32 (elfPhoff data n + elfPhdrSize) ∧ (b, r', s') = (true, r1, s1) ∨
          u32 (elfPhoff data n + elfPhdrSize) ≤ bufsz ∧
            elfSegment im data bufsz (elfPhdr data n) r1 s1 = some (b, r', s')) := by
  rw [elfLoop] at hs
  cases hlp : elfLoop im data bufsz n r s with
  | none =>
    rw [hlp] at hs
    cases hs
  | some o =>
    obtain ⟨go, r1, s1⟩ := o
    rw [hlp] at hs
    cases go with
    | false =>
      cases hs
      exact .inl ⟨rfl, rfl⟩
    | true =>
      simp only [] at hs
      split at hs
      · rename_i hout
        cases hs
        exact .inr ⟨r', s', rfl, .inl ⟨hout, rfl⟩⟩
      · rename_i hin
        exact .inr ⟨r1, s1, rfl, .inr ⟨Nat.le_of_not_lt hin, hs⟩⟩

/-- A loop that goes on has met no header that is refused. -/
theorem elfLoop_true (hs : elfLoop im data bufsz n r s = some (true, r', s')) :
    ∀ j < n, u32 (elfPhoff data j + elfPhdrSize) ≤ bufsz → ¬ Refused (elfPhdr data j) := by
  induction n generalizing r' s' with
  | zero => exact fun j hj => absurd hj (Nat.not_lt_zero j)
  | succ n ih =>
    intro j hj hin href
    rcases elfLoop_succ hs with ⟨-, hb⟩ | ⟨r1, s1, hlp, hrd⟩
    · cases hb
    by_cases hjn : j = n
    · subst hjn
      rcases hrd with ⟨hout, -⟩ | ⟨-, hseg⟩
      · omega
      · rw [href.elfSegment] at hseg
        cases hseg
    · exact ih hlp j (by omega) hin href

/-- A loop that stops has met one, or there was no frame. -/
theorem elfLoop_stops (hs : elfLoop im data bufsz n r s = some (false, r', s')) :
    (∃ j < n, u32 (elfPhoff data j + elfPhdrSize) ≤ bufsz ∧ Refused (elfPhdr data j) ∧ r'.error = -2) ∨ r'.error = -3 := by
  induction n with
  | zero => cases hs
  | succ n ih =>
    rcases elfLoop_succ hs with ⟨hlp, -⟩ | ⟨r1, s1, -, ⟨-, he⟩ | ⟨hin, hseg⟩⟩
    · exact (ih hlp).imp_left fun ⟨j, hj, hrd⟩ => ⟨j, by omega, hrd⟩
    · cases he
    · rcases elfSegment_stops hseg with ⟨href, he⟩ | ⟨-, he, -⟩
      · exact .inl ⟨n, Nat.lt_succ_self n, hin, href, by rw [he]⟩
      · exact .inr (by rw [he])

/-- What the segments keep holds after the loop. -/
theorem elfLoop_rule (h0 : Q s) (hsz : elfHdrSize ≤ bufsz) (hvalid : 0 ≤ elfValidate data)
    (hseg : ∀ i < n, Comes data bufsz i → ∀ s1 s2 r r' b, Q s1 →
      elfSegment im data bufsz (elfPhdr data i) r s1 = some (b, r', s2) → Q s2)
    (hn : n ≤ elfPhnum data) (hs : elfLoop im data bufsz n (elfStart data) s = some (b, r, s')) : Q s' := by
  induction n generalizing b r s' with
  | zero =>
    cases hs
    exact h0
  | succ n ih =>
    have hprev : ∀ b r s', elfLoop im data bufsz n (elfStart data) s = some (b, r, s') → Q s' :=
      fun _ _ _ => ih (fun i hi => hseg i (by omega)) (by omega)
    rcases elfLoop_succ hs with ⟨hlp, -⟩ | ⟨r1, s1, hlp, ⟨-, he⟩ | ⟨hin, he⟩⟩
    · exact hprev _ _ _ hlp
    · cases he
      exact hprev _ _ _ hlp
    · exact hseg n (Nat.lt_succ_self n) ⟨hsz, hvalid, hn, hin, elfLoop_true hlp⟩ s1 s' r1 r b (hprev _ _ _ hlp) he

section

variable (hs : s.elfLoadMem im data bufsz = some (r, s'))
include hs

/-- A call that returns: at once, or with what the loop has left. -/
theorem elfLoadMem_cases :
    ((bufsz < elfHdrSize ∨ elfValidate data < 0) ∧ s' = s ∧ r.error ≠ 0) ∨
    (elfHdrSize ≤ bufsz ∧ 0 ≤ elfValidate data ∧ ∃ b r1,
      elfLoop im data bufsz (elfPhnum data) (elfStart data) s = some (b, r1, s') ∧
      r = if b then (if r1.loadBase = 0xFFFFFFFF then { r1 with error := -2 } else r1) else r1) := by
  unfold Phys.elfLoadMem at hs
  split at hs
  · rename_i hsz
    cases hs
    exact .inl ⟨.inl hsz, rfl, by decide⟩
  rename_i hsz
  split at hs
  · rename_i hval
    cases hs
    exact .inl ⟨.inr hval, rfl, by decide⟩
  rename_i hval
  obtain ⟨⟨b, r1, s1⟩, hlp, hs⟩ := Option.map_eq_some_iff.1 hs
  refine .inr ⟨Nat.le_of_not_lt hsz, Int.not_lt.1 hval, b, r1, ?_⟩
  cases b with
  | false | true =>
    cases hs
    exact ⟨hlp, rfl⟩

theorem elfLoadMem_rule (h0 : Q s)
    (hseg : ∀ i, Comes data bufsz i → ∀ s1 s2 r r' b, Q s1 →
      elfSegment im data bufsz (elfPhdr data i) r s1 = some (b, r', s2) → Q s2) : Q s' := by
  rcases elfLoadMem_cases hs with ⟨-, rfl, -⟩ | ⟨hsz, hvalid, b, r1, hlp, -⟩
  · exact h0
  · exact elfLoop_rule h0 hsz hvalid (fun i _ => hseg i) (Nat.le_refl _) hlp

end

end KumOS.Elf
