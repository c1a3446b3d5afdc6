import KumOS.Lib.Logged
import KumOS.Paging.Untouched

/-!
# What `elf_load_mem` reads and writes

The loader once more, with a record of its accesses up to its return or up to the page fault
that stops the machine: bytes of the buffer, frames it clears, bytes it stores.  (The entries
`paging_map` makes and the counts of `pmm_alloc` are theirs.)  But for the record it is the
loader (`result_elfLog`).

The sums in the checks wrap: a header may be taken from outside the buffer, the bytes of a
segment too, and a segment may run past 0xC0000000.  And nothing compares `filesz` with
`memsz`.  A file for which none of this happens is loaded within the buffer and its segments,
whatever is in memory, and only such a file is (`touches_iff`).
-/

namespace KumOS.Elf

open Lib Paging Paging.Phys
open Lib.Logged (Spec after mem_after mem_bind)
open Vm (pageDirIdx)
open List (mem_map mem_range not_mem_nil)
open Phdr (vstart)

variable {bufsz i n off va : Nat} {ph : Phdr} {data : Bytes} {r r' : ElfResult} {b : Bool}

/-! ## The accesses -/

inductive Touch
  /-- a byte of the buffer is read -/
  | read (off : Nat)
  /-- a frame is taken for a page, and cleared -/
  | clear (frame : Nat)
  /-- a frame is taken for a table, and cleared -/
  | table (frame : Nat)
  /-- a byte of segment `ph` is stored, into a frame that `pmm_alloc` may still hand out (`free`) or not -/
  | store (ph : Phdr) (va frame : Nat) (free : Bool)

variable {t : Touch} {P : Touch → Prop} {Q : Phys → Prop}

/-- A field of four bytes; addresses wrap. -/
def field (off : Nat) : List Touch := (List.range 4).map fun j => .read (u32 (off + j))

/-- One byte is stored, if its page is mapped. -/
def storeLog (ph : Phdr) (s : Phys) (va : Nat) (b : UInt8) : Logged Touch Phys :=
  match s.translate s.active va with
  | none => .stop
  | some pa => after [.store ph va (frameIdx pa) (s.pmm.isFree (frameIdx pa))]
      (.pure { s with mem := Function.update s.mem (frameIdx pa) (Function.update (s.mem (frameIdx pa)) (pa % pageSize) b) })

/-- `n` bytes are stored at `va`; before byte `k` the bytes `rd k` of the buffer are read. -/
def storesLog (ph : Phdr) (rd : Nat → List Touch) (s : Phys) (va : Nat) (src : Nat → UInt8) : Nat → Logged Touch Phys
  | 0 => .pure s
  | n + 1 => (storesLog ph rd s va src n).bind fun s1 => after (rd n) (storeLog ph s1 (u32 (va + n)) (src n))

/-- The two calls `kmemcpy(ph->vaddr, data + ph->offset, copy)` and `kmemset(ph->vaddr + ph->filesz, 0, ..)`. -/
def bodyLog (data : Bytes) (bufsz : Nat) (ph : Phdr) (s : Phys) : Logged Touch Phys :=
  (storesLog ph (fun k => [.read (u32 (ph.offset + k))]) s ph.vaddr (Phdr.bytes ph data) (ph.copy bufsz)).bind fun s1 =>
    if ph.filesz < ph.memsz then
      storesLog ph (fun _ => []) s1 (u32 (ph.vaddr + ph.filesz)) (fun _ => 0) (ph.memsz - ph.filesz)
    else .pure s1

section

variable (im : Image)

/-- `pte_ptr(va, 1)` -/
def tableTouch (s : Phys) (va : Nat) : List Touch :=
  if s.word im.pageDir (pageDirIdx va) % 2 = pagePresent then []
  else if (pmmAlloc s.pmm).1 = 0 then []
  else [.table (frameIdx (pmmAlloc s.pmm).1)]

/-- The loop over the pages of a segment. -/
def pagesLog : Nat → Nat → Phys → Logged Touch (Bool × Phys)
  | 0, _, s => .pure (true, s)
  | n + 1, va, s =>
    if s.pagingIsMapped im va then pagesLog n (va + pageSize) s
    else
      let a := pmmAlloc s.pmm
      let s1 := { s with pmm := a.2 }
      if a.1 = 0 then .pure (false, s1)
      else
        let s2 := s1.zeroFrame (frameIdx a.1)
        after (.clear (frameIdx a.1) :: tableTouch im s2 va)
          (pagesLog n (va + pageSize) (s2.pagingMap im va a.1 (pageUser ||| pageWrite)))

/-- The header at `off`, field by field as they are looked at, and the segment. -/
def segmentLog (data : Bytes) (bufsz off : Nat) (ph : Phdr) (r : ElfResult) (s : Phys) :
    Logged Touch (Bool × ElfResult × Phys) :=
  after (field off) <|
  if ph.type ≠ ptLoad then .pure (true, r, s)
  else after (field (off + 20)) <|
  if ph.memsz = 0 then .pure (true, r, s)
  else after (field (off + 8)) <|
  if ph.vaddr < 0x100000 then .pure (true, r, s)
  else if 0xC0000000 ≤ ph.vaddr then .pure (true, r, s)
  else if 0x100000 ≤ ph.vaddr ∧ ph.vaddr < 0x500000 then .pure (false, { r with error := -2 }, s)
  else
    (pagesLog im (Phdr.pages ph) (vstart ph) s).bind fun (ok, s1) =>
      if ok = false then .pure (false, { r with error := -3 }, s1)
      else after (field (off + 16) ++ if ph.filesz = 0 then [] else field (off + 4)) <|
        (bodyLog data bufsz ph s1).bind fun s2 => .pure (true, ElfResult.extend r ph, s2)

/-- The first `n` program headers. -/
def loopLog (data : Bytes) (bufsz : Nat) (s : Phys) : Nat → Logged Touch (Bool × ElfResult × Phys)
  | 0 => .pure (true, elfStart data, s)
  | n + 1 => (loopLog data bufsz s n).bind fun (go, r, s1) =>
    if go = false then .pure (false, r, s1)
    else if bufsz < u32 (elfPhoff data n + elfPhdrSize) then .pure (true, r, s1)
    else segmentLog im data bufsz (elfPhoff data n) (elfPhdr data n) r s1

/-- `elf_load_mem(data, bufsz)`; of the file header any byte may be read. -/
def elfLog (s : Phys) (data : Bytes) (bufsz : Nat) : Logged Touch (ElfResult × Phys) :=
  if bufsz < elfHdrSize then .pure (⟨0, 0, 0, -1⟩, s)
  else after ((List.range elfHdrSize).map .read) <|
  if elfValidate data < 0 then .pure (⟨0, 0, 0, -2⟩, s)
  else (loopLog im data bufsz s (elfPhnum data)).bind fun (go, r, s1) =>
    .pure (if go then (if r.loadBase = 0xFFFFFFFF then { r with error := -2 } else r) else r, s1)

def elfTouches (s : Phys) (data : Bytes) (bufsz : Nat) : List Touch := (elfLog im s data bufsz).events

end

/-! ## The record does not change the loader -/

section

variable {im : Image} {s s' s1 : Phys}

theorem result_storeLog (ph : Phdr) (s : Phys) (va : Nat) (b : UInt8) :
    (storeLog ph s va b).result = s.store s.active va b := by
  unfold storeLog Phys.store
  cases s.translate s.active va with
  | none => rfl
  | some pa => rfl

theorem result_storesLog (ph : Phdr) (rd : Nat → List Touch) (s : Phys) (va : Nat) (src : Nat → UInt8) (n : Nat) :
    (storesLog ph rd s va src n).result = s.storeBytes va src n := by
  induction n with
  | zero => rfl
  | succ n ih => simp only [storesLog, Logged.result_bind, Logged.result_after, result_storeLog, ih, storeBytes]

theorem result_bodyLog : (bodyLog data bufsz ph s).result =
    (s.kmemcpy ph.vaddr (Phdr.bytes ph data) (ph.copy bufsz)).bind fun s1 =>
      s1.kmemset (u32 (ph.vaddr + ph.filesz)) 0 (ph.memsz - ph.filesz) := by
  unfold bodyLog kmemcpy kmemset
  rw [Logged.result_bind, result_storesLog]
  congr 1
  funext s1
  split
  · exact result_storesLog ..
  · rename_i hf
    rw [Nat.sub_eq_zero_of_le (Nat.le_of_not_lt hf)]
    rfl

theorem result_pagesLog (n va : Nat) (s : Phys) : (pagesLog im n va s).result = some (elfPages im n va s) := by
  induction n generalizing va s with
  | zero => rfl
  | succ n ih =>
    rw [pagesLog, elfPages]
    split
    · exact ih _ _
    simp only []
    split
    · rfl
    · exact ih _ _

theorem segmentLog_loads (hl : Phdr.Loads ph) : segmentLog im data bufsz off ph r s =
    after (field off) (after (field (off + 20)) (after (field (off + 8))
      ((pagesLog im (Phdr.pages ph) (vstart ph) s).bind fun (ok, s1) =>
        if ok = false then .pure (false, { r with error := -3 }, s1)
        else after (field (off + 16) ++ if ph.filesz = 0 then [] else field (off + 4)) <|
          (bodyLog data bufsz ph s1).bind fun s2 => .pure (true, ElfResult.extend r ph, s2)))) := by
  have hge := hl.ge
  have hlt := hl.lt
  unfold segmentLog
  rw [if_neg (not_not_intro hl.type), if_neg hl.mem, if_neg (by omega), if_neg (by omega), if_neg (by omega)]

/-- The fields of a header that are looked at, if there are frames enough. -/
def fieldsRead (ph : Phdr) : List Nat :=
  0 :: if ph.type ≠ ptLoad then []
  else 20 :: if ph.memsz = 0 then []
  else 8 :: if ph.vaddr < 0x500000 ∨ 0xC0000000 ≤ ph.vaddr then []
  else 16 :: if ph.filesz = 0 then [] else [4]

/-- A header that is not loaded: its fields are looked at. -/
theorem segmentLog_skip (hl : ¬ Phdr.Loads ph) : ∃ o, segmentLog im data bufsz off ph r s =
      after ((fieldsRead ph).flatMap fun f => field (off + f)) (.pure o) ∧
    elfSegment im data bufsz ph r s = some o ∧ o.2.2 = s := by
  unfold segmentLog elfSegment fieldsRead
  by_cases h1 : ph.type ≠ ptLoad
  · simp only [if_pos h1]
    exact ⟨_, rfl, rfl, rfl⟩
  by_cases h2 : ph.memsz = 0
  · simp only [if_neg h1, if_pos h2]
    exact ⟨_, rfl, rfl, rfl⟩
  have hout : ph.vaddr < 0x500000 ∨ 0xC0000000 ≤ ph.vaddr := by
    by_contra hin
    exact hl ⟨Decidable.of_not_not h1, h2, by omega, by omega⟩
  simp only [if_neg h1, if_neg h2, if_pos hout]
  split
  · exact ⟨_, rfl, rfl, rfl⟩
  split
  · exact ⟨_, rfl, rfl, rfl⟩
  · have hkernel : 0x100000 ≤ ph.vaddr ∧ ph.vaddr < 0x500000 := by omega
    simp only [if_pos hkernel]
    exact ⟨_, rfl, rfl, rfl⟩

theorem result_segmentLog : (segmentLog im data bufsz off ph r s).result = elfSegment im data bufsz ph r s := by
  by_cases hl : Phdr.Loads ph
  · rw [segmentLog_loads hl, elfSegment_loads hl]
    simp only [Logged.result_after, Logged.result_bind, result_pagesLog, Option.bind_some]
    generalize elfPages im (Phdr.pages ph) (vstart ph) s = o
    obtain ⟨ok, s1⟩ := o
    cases ok with
    | false => rfl
    | true =>
      simp only [Bool.true_eq_false, if_false, Logged.result_after, Logged.result_bind, result_bodyLog, Option.bind_assoc,
        Option.map_eq_bind]
      rfl
  · obtain ⟨o, he, hseg, -⟩ := segmentLog_skip hl
    rw [he, hseg]
    rfl

theorem result_loopLog (n : Nat) : (loopLog im data bufsz s n).result = elfLoop im data bufsz n (elfStart data) s := by
  induction n with
  | zero => rfl
  | succ n ih =>
    rw [loopLog, Logged.result_bind, ih, elfLoop]
    cases elfLoop im data bufsz n (elfStart data) s with
    | none => rfl
    | some o =>
      obtain ⟨go, r1, s1⟩ := o
      cases go with
      | false => rfl
      | true =>
        simp only [Option.bind_some, Bool.true_eq_false, if_false]
        split
        · rfl
        · exact result_segmentLog

theorem result_elfLog (im : Image) (s : Phys) (data : Bytes) (bufsz : Nat) :
    (elfLog im s data bufsz).result = s.elfLoadMem im data bufsz := by
  unfold elfLog Phys.elfLoadMem
  split
  · rfl
  rw [Logged.result_after]
  split
  · rfl
  rw [Logged.result_bind, result_loopLog]
  unfold elfStart
  cases elfLoop im data bufsz (elfPhnum data) ⟨data.get32 24, 0xFFFFFFFF, 0, 0⟩ s with
  | none => rfl
  | some o =>
    obtain ⟨go, r1, s1⟩ := o
    cases go with
    | false => rfl
    | true => rfl

/-! ## The rules -/

/-- Byte `b` is stored at `va` when the segment is loaded: a byte of the file, or a zero. -/
def Stores (data : Bytes) (bufsz : Nat) (ph : Phdr) (va : Nat) (b : UInt8) : Prop :=
  (∃ k < ph.copy bufsz, va = u32 (ph.vaddr + k) ∧ b = Phdr.bytes ph data k) ∨
    ∃ k < ph.memsz - ph.filesz, va = u32 (u32 (ph.vaddr + ph.filesz) + k) ∧ b = 0

theorem fieldsRead_loads (hl : Phdr.Loads ph) : fieldsRead ph = 0 :: 20 :: 8 :: 16 :: if ph.filesz = 0 then [] else [4] := by
  have hge := hl.ge
  have hlt := hl.lt
  unfold fieldsRead
  rw [if_neg (not_not_intro hl.type), if_neg hl.mem, if_neg (by omega)]

/-- What a store keeps holds after all of them. -/
theorem storesLog_spec {rd : Nat → List Touch} {src : Nat → UInt8} (h : Q s) (hrd : ∀ k < n, ∀ t ∈ rd k, P t)
    (hst : ∀ k < n, ∀ s1, Q s1 → Spec (storeLog ph s1 (u32 (va + k)) (src k)) P Q) :
    Spec (storesLog ph rd s va src n) P Q := by
  induction n with
  | zero => exact .pure h
  | succ n ih =>
    refine .bind (ih (fun k hk => hrd k (by omega)) fun k hk => hst k (by omega)) fun s1 _ h1 => ?_
    exact .after (hrd n (Nat.lt_succ_self n)) (hst n (Nat.lt_succ_self n) s1 h1)

theorem bodyLog_spec (h : Q s) (hrd : ∀ k < ph.copy bufsz, P (.read (u32 (ph.offset + k))))
    (hst : ∀ va b s1, Stores data bufsz ph va b → Q s1 → Spec (storeLog ph s1 va b) P Q) :
    Spec (bodyLog data bufsz ph s) P Q := by
  refine .bind (Q := Q) (storesLog_spec h (fun k hk t ht => ?_) fun k hk s1 => hst _ _ s1 (.inl ⟨k, hk, rfl, rfl⟩))
    fun s1 _ h1 => ?_
  · rw [List.mem_singleton.1 ht]
    exact hrd k hk
  split
  · exact storesLog_spec h1 (fun _ _ t ht => absurd ht not_mem_nil) fun k hk s2 => hst _ _ s2 (.inr ⟨k, hk, rfl, rfl⟩)
  · exact .pure h1

/-- A header: its fields, the frames for its pages, and the bytes of its segment. -/
theorem segmentLog_spec (h : Q s) (hfields : ∀ f ∈ fieldsRead ph, ∀ t ∈ field (off + f), P t)
    (hpages : Phdr.Loads ph → Spec (pagesLog im (Phdr.pages ph) (vstart ph) s) P fun o => Q o.2)
    (hbody : Phdr.Loads ph → ∀ s1, Q s1 → Spec (bodyLog data bufsz ph s1) P Q) :
    Spec (segmentLog im data bufsz off ph r s) P fun o => Q o.2.2 := by
  by_cases hl : Phdr.Loads ph
  · rw [segmentLog_loads hl]
    rw [fieldsRead_loads hl] at hfields
    simp only [List.forall_mem_cons, Nat.add_zero] at hfields
    obtain ⟨h0, h20, h8, h16, h4⟩ := hfields
    refine .after h0 (.after h20 (.after h8 (.bind (hpages hl) fun ⟨ok, s1⟩ _ h1 => ?_)))
    cases ok with
    | false => exact .pure h1
    | true =>
      refine .after (fun t ht => ?_) (.bind (hbody hl s1 h1) fun s2 _ h2 => .pure h2)
      rcases List.mem_append.1 ht with ht | ht
      · exact h16 t ht
      · split at ht
        · cases ht
        · rename_i hf
          rw [if_neg hf] at h4
          exact h4 4 List.mem_cons_self t ht
  · obtain ⟨⟨b, r', s'⟩, he, -, rfl⟩ := segmentLog_skip hl
    rw [he]
    refine .after (fun t ht => ?_) (.pure h)
    obtain ⟨f, hf, ht⟩ := List.mem_flatMap.1 ht
    exact hfields f hf t ht

theorem loopLog_spec (h : Q s) (hsz : elfHdrSize ≤ bufsz) (hvalid : 0 ≤ elfValidate data) (hn : n ≤ elfPhnum data)
    (hseg : ∀ i r s1, Comes data bufsz i → Q s1 →
      Spec (segmentLog im data bufsz (elfPhoff data i) (elfPhdr data i) r s1) P fun o => Q o.2.2) :
    Spec (loopLog im data bufsz s n) P fun o => Q o.2.2 := by
  induction n with
  | zero => exact .pure h
  | succ n ih =>
    refine .bind (ih (by omega)) fun ⟨go, r1, s1⟩ hlp h1 => ?_
    cases go with
    | false => exact .pure h1
    | true =>
      simp only [Bool.true_eq_false, if_false]
      split
      · exact .pure h1
      · rename_i hin
        rw [result_loopLog] at hlp
        exact hseg n r1 s1 ⟨hsz, hvalid, hn, Nat.le_of_not_lt hin, elfLoop_true hlp⟩ h1

/-- What every segment keeps holds of the call. -/
theorem elfLog_spec (h : Q s) (hrd : ∀ off < bufsz, P (.read off))
    (hseg : ∀ i r s1, Comes data bufsz i → Q s1 →
      Spec (segmentLog im data bufsz (elfPhoff data i) (elfPhdr data i) r s1) P fun o => Q o.2.2) :
    Spec (elfLog im s data bufsz) P fun o => Q o.2 := by
  unfold elfLog
  split
  · exact .pure h
  rename_i hsz
  refine .after (fun t ht => ?_) ?_
  · obtain ⟨off, hoff, rfl⟩ := mem_map.1 ht
    have := mem_range.1 hoff
    exact hrd off (by omega)
  split
  · exact .pure h
  rename_i hvalid
  exact .bind (loopLog_spec h (Nat.le_of_not_lt hsz) (Int.not_lt.1 hvalid) (Nat.le_refl _) hseg) fun o _ ho => .pure ho

/-! ## What is among the accesses -/

/-- The accesses for a header that the loop has come to. -/
theorem mem_elfTouches (hc : Comes data bufsz i) (hlp : elfLoop im data bufsz i (elfStart data) s = some (true, r, s1))
    (ht : t ∈ (segmentLog im data bufsz (elfPhoff data i) (elfPhdr data i) r s1).events) :
    t ∈ elfTouches im s data bufsz := by
  have hloop : ∀ n, i < n → t ∈ (loopLog im data bufsz s n).events := by
    intro n hn
    induction n with
    | zero => exact absurd hn (Nat.not_lt_zero i)
    | succ n ih =>
      rw [loopLog, mem_bind]
      by_cases hi : i = n
      · subst hi
        refine .inr ⟨_, (result_loopLog i).trans hlp, ?_⟩
        simp only [Bool.true_eq_false, if_false]
        rw [if_neg (Nat.not_lt.2 hc.header)]
        exact ht
      · exact .inl (ih (by omega))
  unfold elfTouches elfLog
  rw [if_neg (Nat.not_lt.2 hc.size), if_neg (Int.not_lt.2 hc.valid), mem_after, mem_bind]
  exact .inr (.inl (hloop _ hc.lt))

theorem mem_storesLog (ph : Phdr) (rd : Nat → List Touch) {src : Nat → UInt8} (hs : s.storeBytes va src n = some s')
    {k : Nat} (hk : k < n) : (∀ t ∈ rd k, t ∈ (storesLog ph rd s va src n).events) ∧
      ∃ f b, .store ph (u32 (va + k)) f b ∈ (storesLog ph rd s va src n).events := by
  induction n generalizing s' with
  | zero => exact absurd hk (Nat.not_lt_zero k)
  | succ n ih =>
    obtain ⟨s1, h1, hst⟩ := Option.bind_eq_some_iff.1 hs
    simp only [storesLog, mem_bind]
    by_cases hkn : k = n
    · subst hkn
      have h2 := (result_storesLog ph rd s va src k).trans h1
      obtain ⟨pa, hpa, -⟩ := Option.map_eq_some_iff.1 hst
      refine ⟨fun t ht => .inr ⟨s1, h2, mem_after.2 (.inl ht)⟩, frameIdx pa,
        s1.pmm.isFree (frameIdx pa), .inr ⟨s1, h2, mem_after.2 (.inr ?_)⟩⟩
      unfold storeLog
      rw [hpa]
      exact List.mem_cons_self
    · obtain ⟨hrd, f, b, hmem⟩ := ih h1 (by omega)
      exact ⟨fun t ht => .inl (hrd t ht), f, b, .inl hmem⟩

/-- The call comes to every header it may come to, and through its segment, unless it runs out of frames. -/
theorem loop_of_returns (hs : s.elfLoadMem im data bufsz = some (r, s')) (herr : r.error ≠ -3) (hc : Comes data bufsz i) :
    ∃ r1 s1 b r2 s2, elfLoop im data bufsz i (elfStart data) s = some (true, r1, s1) ∧
      elfSegment im data bufsz (elfPhdr data i) r1 s1 = some (b, r2, s2) ∧ (b = false → r2.error ≠ -3) := by
  rcases elfLoadMem_cases hs with ⟨hbad, -⟩ | ⟨-, -, b, r1, hlp, hr⟩
  · have := hc.size
    have := hc.valid
    omega
  have hstop : b = false → r1.error ≠ -3 := by
    rintro rfl
    rw [hr] at herr
    exact herr
  clear hr hs
  have hlt := hc.lt
  -- from the end of the loop back to the header
  generalize elfPhnum data = n at hlp hlt
  induction n generalizing b r1 s' with
  | zero => exact absurd hlt (Nat.not_lt_zero i)
  | succ n ih =>
    by_cases hin : i = n
    · subst hin
      rcases elfLoop_succ hlp with ⟨hlp0, rfl⟩ | ⟨r0, s0, hlp, ⟨hout, -⟩ | ⟨-, hseg⟩⟩
      · rcases elfLoop_stops hlp0 with ⟨j, hj, hin, href, -⟩ | he
        · exact absurd href (hc.earlier j hj hin)
        · exact absurd he (hstop rfl)
      · have := hc.header
        omega
      · exact ⟨r0, s0, b, r1, s', hlp, hseg, hstop⟩
    · rcases elfLoop_succ hlp with ⟨hlp0, rfl⟩ | ⟨r0, s0, hlp, -⟩
      · exact ih false r1 hstop hlp0 (by omega)
      · exact ih true r0 (fun hb => by cases hb) hlp (by omega)

/-- A call that returns, not for want of frames, has read and stored all that its headers say. -/
theorem touches_of_returns (hs : s.elfLoadMem im data bufsz = some (r, s')) (herr : r.error ≠ -3) (hc : Comes data bufsz i) :
    (∀ f ∈ fieldsRead (elfPhdr data i), ∀ t ∈ field (elfPhoff data i + f), t ∈ elfTouches im s data bufsz) ∧
    (Phdr.Loads (elfPhdr data i) →
      (∀ k < (elfPhdr data i).copy bufsz, .read (u32 ((elfPhdr data i).offset + k)) ∈ elfTouches im s data bufsz) ∧
      ∀ va v, Stores data bufsz (elfPhdr data i) va v →
        ∃ f b, .store (elfPhdr data i) va f b ∈ elfTouches im s data bufsz) := by
  obtain ⟨r1, s1, b, r2, s2, hlp, hseg, hb⟩ := loop_of_returns hs herr hc
  have hmem : ∀ t, t ∈ (segmentLog im data bufsz (elfPhoff data i) (elfPhdr data i) r1 s1).events →
      t ∈ elfTouches im s data bufsz := fun t => mem_elfTouches hc hlp
  generalize elfTouches im s data bufsz = ts at hmem ⊢
  generalize elfPhdr data i = ph at hmem hseg ⊢
  generalize elfPhoff data i = off at hmem ⊢
  by_cases hl : Phdr.Loads ph
  · rcases elfSegment_cases hseg with ⟨hn, -⟩ | ⟨-, -, rfl, rfl⟩ | ⟨-, s3, s4, hps, hcpy, hset, -, -⟩
    · exact absurd hl hn
    · exact absurd rfl (hb rfl)
    rw [segmentLog_loads hl] at hmem
    have hrest : ∀ t, t ∈ (field (off + 16) ++ if ph.filesz = 0 then [] else field (off + 4)) ∨
        t ∈ (bodyLog data bufsz ph s3).events → t ∈ ts := by
      intro t ht
      refine hmem t (mem_after.2 (.inr (mem_after.2 (.inr (mem_after.2 (.inr (mem_bind.2 (.inr ⟨(true, s3), ?_, ?_⟩))))))))
      · rw [result_pagesLog, hps]
      · simp only [Bool.true_eq_false, if_false]
        exact mem_after.2 (ht.imp_right fun ht => mem_bind.2 (.inl ht))
    have hcopy := fun k (hk : k < ph.copy bufsz) =>
      mem_storesLog ph (fun k => [.read (u32 (ph.offset + k))]) hcpy hk
    refine ⟨fun f hf t ht => ?_, fun _ => ⟨fun k hk => ?_, fun va v hv => ?_⟩⟩
    · rw [fieldsRead_loads hl] at hf
      rcases List.mem_cons.1 hf with rfl | hf
      · exact hmem t (mem_after.2 (.inl ht))
      rcases List.mem_cons.1 hf with rfl | hf
      · exact hmem t (mem_after.2 (.inr (mem_after.2 (.inl ht))))
      rcases List.mem_cons.1 hf with rfl | hf
      · exact hmem t (mem_after.2 (.inr (mem_after.2 (.inr (mem_after.2 (.inl ht))))))
      rcases List.mem_cons.1 hf with rfl | hf
      · exact hrest t (.inl (List.mem_append_left _ ht))
      · split at hf
        · cases hf
        · rename_i h0
          rw [List.mem_singleton.1 hf] at ht
          exact hrest t (.inl (List.mem_append_right _ (by rw [if_neg h0]; exact ht)))
    · exact hrest _ (.inr (mem_bind.2 (.inl ((hcopy k hk).1 _ List.mem_cons_self))))
    · rcases hv with ⟨k, hk, rfl, -⟩ | ⟨k, hk, rfl, -⟩
      · obtain ⟨f, b, hin⟩ := (hcopy k hk).2
        exact ⟨f, b, hrest _ (.inr (mem_bind.2 (.inl hin)))⟩
      · obtain ⟨f, b, hin⟩ := (mem_storesLog ph (fun _ => []) hset hk).2
        refine ⟨f, b, hrest _ (.inr (mem_bind.2 (.inr ⟨s4, (result_storesLog ..).trans hcpy, ?_⟩)))⟩
        rw [if_pos (by omega)]
        exact hin
  · refine ⟨fun f hf t ht => hmem t ?_, fun h => absurd h hl⟩
    obtain ⟨o, he, -⟩ := segmentLog_skip hl
    rw [he, mem_after]
    exact .inl (List.mem_flatMap.2 ⟨f, hf, ht⟩)

/-! ## Frames -/

variable {s0 : Phys} {f : Nat}

/-- The loader takes frames and gives none back. -/
def Takes (s s' : Phys) : Prop := ∀ f, s'.pmm.Free f → s.pmm.Free f

theorem Takes.trans (h : Takes s s1) (h' : Takes s1 s') : Takes s s' := fun f hf => h f (h' f hf)

theorem Takes.of_eq (h : s'.pmm = s.pmm) : Takes s s' := fun f hf => by rwa [h] at hf

theorem free_of_take {p : Pmm} (h : (p.take i).Free f) : p.Free f := by
  have hne : f ≠ i := by
    rintro rfl
    have := h.zero
    rw [p.take_refs_self] at this
    omega
  have hz := h.zero
  rw [p.take_refs_ne hne] at hz
  exact ⟨h.ge, h.lt, h.max, hz⟩

theorem takes_pagingMap (im : Image) (s : Phys) (va phys flags : Nat) : Takes s (s.pagingMap im va phys flags) := by
  rcases pagingMap_pmm im s va phys flags with hq | ⟨t, -, hq⟩
  · exact Takes.of_eq hq
  · intro f hf
    rw [hq] at hf
    exact free_of_take hf

/-- A frame that was free is taken. -/
def Touch.Claims (p : Pmm) (t : Touch) : Prop := ∃ f, (t = .clear f ∨ t = .table f) ∧ p.Free f

theorem tableTouch_claims (ht : t ∈ tableTouch im s va) : t.Claims s.pmm := by
  unfold tableTouch at ht
  split at ht
  · cases ht
  split at ht
  · cases ht
  rename_i h0
  rcases pmmAlloc_cases s.pmm with ⟨he, -⟩ | ⟨i, hi, -, he⟩
  · rw [he] at h0
    exact absurd rfl h0
  · rw [he, frameIdx_mul] at ht
    exact ⟨i, .inr (List.mem_singleton.1 ht), hi⟩

theorem pagesLog_takes (n va : Nat) (h : Takes s0 s) :
    Spec (pagesLog im n va s) (fun t => t.Claims s0.pmm) fun o => Takes s0 o.2 := by
  induction n generalizing va s with
  | zero => exact .pure h
  | succ n ih =>
    rw [pagesLog]
    split
    · exact ih _ h
    simp only []
    rcases pmmAlloc_cases s.pmm with ⟨he, -⟩ | ⟨p, hp, -, he⟩
    · rw [he]
      exact .pure h
    rw [he]
    have hone : Takes s0 ((s.take p).zeroFrame p) := fun f hf => h f (free_of_take hf)
    split
    · exact .pure hone
    · rw [frameIdx_mul]
      refine .after (fun t ht => ?_) (ih _ (hone.trans (takes_pagingMap im _ va _ _)))
      rcases List.mem_cons.1 ht with rfl | ht
      · exact ⟨p, .inl rfl, h p hp⟩
      · obtain ⟨f, hft, hf⟩ := tableTouch_claims ht
        exact ⟨f, hft, hone f hf⟩

theorem storeLog_takes {v : UInt8} (h : Takes s0 s) (hP : ∀ f b, P (.store ph va f b)) :
    Spec (storeLog ph s va v) P (Takes s0) := by
  unfold storeLog
  split
  · exact .stop
  · refine .after (fun t ht => ?_) (.pure h)
    rw [List.mem_singleton.1 ht]
    exact hP ..

/-! ## What is allowed -/

/-- The segment is loaded, ends below 0xC0000000, and `va` is in it. -/
def InSegment (ph : Phdr) (va : Nat) : Prop :=
  Phdr.Loads ph ∧ ph.vaddr + ph.memsz ≤ 0xC0000000 ∧ ph.vaddr ≤ va ∧ va < ph.vaddr + ph.memsz

/-- Inside the buffer, a frame that was free before the call, or inside the segment. -/
def Touch.Within (p : Pmm) (bufsz : Nat) : Touch → Prop
  | .read off => off < bufsz
  | .clear f => p.Free f
  | .table f => p.Free f
  | .store ph va _ _ => InSegment ph va

/-- The bytes of the file that are copied are in the buffer and in the segment, and if any byte is stored, the segment
ends below 0xC0000000. -/
structure SegmentInside (bufsz : Nat) (ph : Phdr) : Prop where
  file : ph.filesz ≠ 0 → ph.offset ≤ bufsz ∧ (ph.offset + ph.filesz ≤ bufsz ∨ bufsz < u32 (ph.offset + ph.filesz))
  mem : min ph.filesz (bufsz - ph.offset) ≤ ph.memsz
  user : 0 < min ph.filesz (bufsz - ph.offset) ∨ ph.filesz < ph.memsz → ph.vaddr + ph.memsz ≤ 0xC0000000

/-- Header `i` is in the buffer as far as it is looked at, and its segment keeps inside its bounds. -/
structure HeaderInside (data : Bytes) (bufsz i : Nat) : Prop where
  fields : ∀ f ∈ fieldsRead (elfPhdr data i), ∀ j < 4, u32 (elfPhoff data i + f + j) < bufsz
  segment : Phdr.Loads (elfPhdr data i) → SegmentInside bufsz (elfPhdr data i)

/-- The sum in the check may wrap. -/
theorem reads_inside (hb : bufsz < 2 ^ 32) (hoff : ph.offset < 2 ^ 32) :
    (∀ k < ph.copy bufsz, u32 (ph.offset + k) < bufsz) ↔
      (ph.filesz ≠ 0 → ph.offset ≤ bufsz ∧ (ph.offset + ph.filesz ≤ bufsz ∨ bufsz < u32 (ph.offset + ph.filesz))) := by
  unfold Phdr.copy
  by_cases h0 : ph.filesz = 0
  · rw [if_pos h0]
    exact iff_of_true (fun k hk => absurd hk (Nat.not_lt_zero k)) fun hne => absurd h0 hne
  rw [if_neg h0]
  by_cases hlt : bufsz < u32 (ph.offset + ph.filesz)
  · rw [if_pos hlt]
    constructor
    · intro h _
      refine ⟨Nat.le_of_not_lt fun hgt => ?_, .inr hlt⟩
      have := h 0 (by unfold u32; omega)
      unfold u32 at this
      omega
    · intro h k hk
      have := (h h0).1
      unfold u32 at hk ⊢
      omega
  · rw [if_neg hlt]
    constructor
    · intro h _
      have h1 := h 0 (Nat.pos_of_ne_zero h0)
      have hend : ph.offset + ph.filesz < 2 ^ 32 := by
        apply Nat.lt_of_not_le
        intro hge
        have := h (2 ^ 32 - 1 - ph.offset) (by omega)
        unfold u32 at this
        omega
      unfold u32 at h1 hlt
      omega
    · intro h k hk
      have := h h0
      unfold u32 at *
      omega

theorem copy_min (hb : bufsz < 2 ^ 32)
    (hf : ph.filesz ≠ 0 → ph.offset ≤ bufsz ∧ (ph.offset + ph.filesz ≤ bufsz ∨ bufsz < u32 (ph.offset + ph.filesz))) :
    ph.copy bufsz = min ph.filesz (bufsz - ph.offset) := by
  unfold Phdr.copy
  split
  · omega
  · split
    · unfold u32 at *
      omega
    · unfold u32 at *
      omega

/-- What is stored for a segment is inside it. -/
theorem SegmentInside.stores (h : SegmentInside bufsz ph) (hb : bufsz < 2 ^ 32) (hl : Phdr.Loads ph) {v : UInt8}
    (hst : Stores data bufsz ph va v) : InSegment ph va := by
  have hmem := h.mem
  have huser := h.user
  have hlt := hl.lt
  rcases hst with ⟨k, hk, rfl, -⟩ | ⟨k, hk, rfl, -⟩
  · rw [copy_min hb h.file] at hk
    have hend := huser (.inl (by omega))
    have hu32 : u32 (ph.vaddr + k) = ph.vaddr + k := Nat.mod_eq_of_lt (by omega)
    exact ⟨hl, hend, by omega, by omega⟩
  · have hend := huser (.inr (by omega))
    have hu32 : u32 (u32 (ph.vaddr + ph.filesz) + k) = ph.vaddr + ph.filesz + k := by
      unfold u32
      omega
    exact ⟨hl, hend, by omega, by omega⟩

theorem segmentInside_of_stores (data : Bytes) (hb : bufsz < 2 ^ 32) (hoff : ph.offset < 2 ^ 32)
    (hrd : ∀ k < ph.copy bufsz, u32 (ph.offset + k) < bufsz)
    (hst : ∀ va v, Stores data bufsz ph va v → InSegment ph va) : SegmentInside bufsz ph := by
  have hfile := (reads_inside hb hoff).1 hrd
  have hin := fun k hk => hst _ _ (.inl ⟨k, hk, rfl, rfl⟩)
  rw [copy_min hb hfile] at hin
  refine ⟨hfile, Nat.le_of_not_lt fun hgt => ?_, ?_⟩
  · -- the byte behind the segment
    obtain ⟨-, hend, -, hlt⟩ := hin ph.memsz hgt
    unfold u32 at hlt
    omega
  · rintro (hpos | hpos)
    · exact (hin 0 hpos).2.1
    · exact (hst _ _ (.inr ⟨0, by omega, rfl, rfl⟩)).2.1

/-! ## A machine with all pages mapped -/

theorem elfPages_mapped (h : ∀ j < n, s.pagingIsMapped im (va + j * pageSize) = true) : elfPages im n va s = (true, s) := by
  induction n generalizing va with
  | zero => rfl
  | succ n ih =>
    have h0 := h 0 (Nat.succ_pos n)
    rw [Nat.zero_mul, Nat.add_zero] at h0
    rw [elfPages, if_pos h0]
    refine ih fun j hj => ?_
    have := h (j + 1) (by omega)
    rwa [Nat.succ_mul, Nat.add_comm (j * pageSize), ← Nat.add_assoc] at this

/-- Every page is mapped, to one frame that is neither the directory nor a table. -/
structure Full (im : Image) (s : Phys) : Prop where
  cr3 : s.active = im.pageDir
  dir : s.mem im.pageDir = fun _ => 1
  table : s.mem 0x1010 = fun _ => 3

def fullState (im : Image) : Phys where
  mem := fun f _ => if f = 0x1010 then 3 else 1
  pmm := pmmInit 0
  cr3 := im.pageDir * pageSize
  vregions := []
  vmallocPtr := 0
  asked := fun _ => none

theorem fullState_full (im : Image) : Full im (fullState im) := by
  have := im.dir_image
  refine ⟨frameIdx_mul _, funext fun o => ?_, rfl⟩
  exact if_neg (by omega)

theorem Full.walk (h : Full im s) (va : Nat) : s.walk im.pageDir va = 0x3030303 := by
  have hd : s.word im.pageDir (pageDirIdx va) = 0x1010101 := by
    unfold word Bytes.get32 Bytes.get16
    rw [h.dir]
    dsimp only
    decide
  have ht : s.word 0x1010 (Vm.pageTblIdx va) = 0x3030303 := by
    unfold word Bytes.get32 Bytes.get16
    rw [h.table]
    dsimp only
    decide
  unfold Phys.walk
  simp only [hd]
  exact ht

theorem Full.mapped (h : Full im s) (va : Nat) : s.pagingIsMapped im va = true := by
  rw [pagingIsMapped_eq]
  unfold Phys.translate
  rw [h.walk, if_pos (by decide)]
  rfl

theorem Full.elfPages (h : Full im s) (n va : Nat) : elfPages im n va s = (true, s) :=
  elfPages_mapped fun _ _ => h.mapped _

theorem Full.storeBytes (h : Full im s) (va : Nat) (src : Nat → UInt8) (n : Nat) :
    ∃ s', s.storeBytes va src n = some s' ∧ Full im s' := by
  induction n with
  | zero => exact ⟨s, rfl, h⟩
  | succ n ih =>
    obtain ⟨s1, h1, hf⟩ := ih
    have hne := im.dir_image
    have hwk := hf.walk (u32 (va + n))
    rw [Phys.storeBytes, h1, Option.bind_some, hf.cr3, store_eq (by rw [hwk]; decide), hwk]
    refine ⟨_, rfl, hf.cr3, (mem_poke_ne s1 ?_ _ _).trans hf.dir, (mem_poke_ne s1 ?_ _ _).trans hf.table⟩
    · unfold pageSize
      omega
    · decide

theorem Full.elfSegment (h : Full im s) (hr : r.error ≠ -3) :
    ∃ b r' s', elfSegment im data bufsz ph r s = some (b, r', s') ∧ r'.error ≠ -3 ∧ Full im s' := by
  by_cases hl : Phdr.Loads ph
  · obtain ⟨s1, h1, hf1⟩ := h.storeBytes ph.vaddr (Phdr.bytes ph data) (ph.copy bufsz)
    obtain ⟨s2, h2, hf2⟩ := hf1.storeBytes (u32 (ph.vaddr + ph.filesz)) (fun _ => 0) (ph.memsz - ph.filesz)
    refine ⟨true, ElfResult.extend r ph, s2, ?_, hr, hf2⟩
    rw [elfSegment_loads hl, h.elfPages]
    unfold kmemcpy kmemset
    simp only [h1, Option.bind_some, h2, Option.map_some]
  · have hskip : Phys.elfSegment im data bufsz ph r s = _ ∨ Phys.elfSegment im data bufsz ph r s = _ := elfSegment_skip hl
    rcases hskip with he | he
    · exact ⟨_, _, _, he, hr, h⟩
    · exact ⟨_, _, _, he, (by decide : (-2 : Int) ≠ -3), h⟩

theorem Full.elfLoop (h : Full im s) (data : Bytes) (bufsz n : Nat) :
    ∃ b r' s', elfLoop im data bufsz n (elfStart data) s = some (b, r', s') ∧ r'.error ≠ -3 ∧ Full im s' := by
  induction n with
  | zero => exact ⟨true, elfStart data, s, rfl, (by decide : (0 : Int) ≠ -3), h⟩
  | succ n ih =>
    obtain ⟨b, r1, s1, hlp, hr, hf⟩ := ih
    rw [Phys.elfLoop, hlp]
    cases b with
    | false => exact ⟨_, _, _, rfl, hr, hf⟩
    | true =>
      simp only []
      split
      · exact ⟨_, _, _, rfl, hr, hf⟩
      · exact hf.elfSegment hr

theorem Full.elfLoadMem (h : Full im s) (data : Bytes) (bufsz : Nat) :
    ∃ r s', s.elfLoadMem im data bufsz = some (r, s') ∧ r.error ≠ -3 := by
  unfold Phys.elfLoadMem
  split
  · exact ⟨_, _, rfl, by decide⟩
  split
  · exact ⟨_, _, rfl, by decide⟩
  obtain ⟨b, r, s', hlp, hr, -⟩ := h.elfLoop data bufsz (elfPhnum data)
  unfold elfStart at hlp
  rw [hlp]
  cases b with
  | false => exact ⟨_, _, rfl, hr⟩
  | true =>
    refine ⟨_, _, rfl, ?_⟩
    simp only []
    split
    · exact (by decide : (-2 : Int) ≠ -3)
    · exact hr

end

/-! ## Samples -/

/-- A file with one program header, right behind the file header. -/
def sampleElf (offset vaddr filesz memsz : Nat) : Bytes :=
  ((((((((((((Bytes.put32 (fun _ => 0) 0 elfMagic).put8 4 1).put16 16 etExec).put16 18 em386).put32 24 vaddr).put32 28
    elfHdrSize).put16 42 elfPhdrSize).put16 44 1).put32 52 ptLoad).put32 56 offset).put32 60 vaddr).put32 68 filesz).put32
    72 memsz

/-- The machine with 32 MB after `paging_init`. -/
def sampleBoot : Phys := pagingInit sampleImage 32768 fun _ _ => 0

end KumOS.Elf
