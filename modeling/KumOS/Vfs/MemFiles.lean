import KumOS.Vfs.Frames

/-!
# Descriptors of `/mem` and the files they were opened on

A slot of `mem_open` points into the table of files, whose slots are used again after a
deletion.  As long as no file of another name is created in a slot that is pointed to
(`Careful`), every descriptor stays with the file it was opened on (`Tied`).
-/

namespace KumOS.Vfs

open Lib
open Fat12 (Name)
open Fs (fsFind freeFile lookup Wf)
open Function (update update_self update_of_ne)
open Option (map_eq_some_iff)
open State (ref_congr ref_of_driver)

variable {X : Type}
variable {buf buf' : Bytes} {d fd : Int} {fs fs' : Fs.State} {path : Name} {len : Nat}
  {dr : Driver X} {flags : Flags} {c : Call} {m : Mem}

/-- The call may create a file of this name. -/
def Creates (s : State X) (c : Call) (name : Name) : Prop :=
  match c with
  | .vfsOpen path flags =>
    flags.creat = true ∧ ∃ midx s1, select s path flags = some (some (midx, name), s1) ∧
      s.driver midx = some .mem
  | .vfsWrite fd _ _ =>
    ∃ k d i, s.fdOf fd = some k ∧ s.ref (s.fds k) = .mem d ∧ slotOf s.mem.used 16 d = some i ∧
      name = (s.mem.file i).name
  | .fsCreate n _ _ => name = n
  | .fsWrite n _ => name = n
  | _ => False

/-- No file is created in a slot that was of another name and is still pointed to. -/
def Careful (s : State X) (c : Call) : Prop :=
  ∀ name, Creates s c name → fsFind s.mem.fs name = none →
    ∀ d, (s.mem.slots d).used = true → freeFile s.mem.fs = some (s.mem.slots d).f →
      (s.mem.file d).name = cstr name

/-! ## The names in the table -/

section

variable {m' : Mem} {r : Int}

theorem memTarget_names {i : Option Nat} (h : memTarget fs path flags = some (i, fs')) (f : Nat) :
    (fs'.files f).name = (fs.files f).name ∨
      flags.creat = true ∧ fsFind fs path = none ∧ freeFile fs = some f ∧ (fs'.files f).name = cstr path := by
  rcases memTarget_spec h with ⟨rfl, -⟩ | ⟨hcr, hnn, -, j, hfr, hput⟩
  · exact .inl rfl
  by_cases hf : f = j
  · subst hf
    exact .inr ⟨hcr, hnn, hfr, hput.name⟩
  · exact .inl (congrArg Fs.File.name (hput.other f hf))

/-- The file of a name that `mem_vfs_open` works on. -/
theorem memTarget_find {i : Nat} (h : memTarget fs path flags = some (some i, fs')) : fsFind fs' path = some i := by
  rcases memTarget_spec h with ⟨rfl, hfn | ⟨-, -, hi⟩⟩ | ⟨-, -, hi, -⟩
  · exact hfn
  · cases hi
  · exact hi.symm

theorem memTruncate_names {i : Nat} (hfn : fsFind fs path = some i)
    (h : memTruncate fs path flags = some fs') (f : Nat) : (fs'.files f).name = (fs.files f).name := by
  unfold memTruncate at h
  split at h
  · obtain ⟨⟨r, fs1⟩, hwr, rfl⟩ := map_eq_some_iff.1 h
    rcases Fs.fsWrite_names hwr f with hsm | ⟨hnn, -⟩
    · exact hsm
    · rw [hfn] at hnn
      cases hnn
  · cases h
    rfl

theorem memVfsOpen_names (h : memVfsOpen m path flags = some (r, m')) (f : Nat) :
    (m'.fs.files f).name = (m.fs.files f).name ∨
      flags.creat = true ∧ fsFind m.fs path = none ∧ freeFile m.fs = some f ∧
        (m'.fs.files f).name = cstr path := by
  obtain ⟨i, fs, htarget, hcs⟩ := memVfsOpen_cases h
  have hnames := memTarget_names htarget f
  rcases hcs with ⟨-, -, rfl⟩ | ⟨j, fs', rfl, htr, hend⟩
  · exact hnames
  rw [← memTruncate_names (memTarget_find htarget) htr f] at hnames
  rcases hend with ⟨-, rfl⟩ | ⟨d, -, -, rfl⟩
  · exact hnames
  · exact hnames

/-- The slot that is opened points to the file of the name. -/
theorem memVfsOpen_file (hw : Wf m.fs) {d : Nat} (h : memVfsOpen m path flags = some ((d : Int), m')) :
    (m'.slots d).used = true ∧ d < 16 ∧ (m.slots d).used = false ∧ (m'.file d).name = cstr path := by
  obtain ⟨i, fs, htarget, ⟨-, hneg, -⟩ | ⟨f, fs', rfl, htr, ⟨hneg, -⟩ | ⟨e, hsl, hd, rfl⟩⟩⟩ :=
    memVfsOpen_cases h
  · omega
  · omega
  obtain rfl : d = e := by omega
  have hfn := memTarget_find htarget
  obtain ⟨-, -, hnm⟩ := (Fs.fsFind_eq_some_iff (memTarget_wf hw htarget)).1 hfn
  rw [← memTruncate_names hfn htr f] at hnm
  obtain ⟨hlt, hfr⟩ := freeSlot_of_find hsl
  refine ⟨?_, hlt, hfr, ?_⟩
  · simp only [update_self]
  · simp only [Mem.file, update_self]
    exact hnm

end

section

variable {s s' : State X} {r : Int}

theorem vfsUnlink_names (h : vfsUnlink s path = some (r, s')) (f : Nat) :
    (s'.mem.fs.files f).name = (s.mem.fs.files f).name := by
  rcases vfsUnlink_cases h with rfl | ⟨dr, rest, hdv⟩
  · rfl
  cases dr.unlink_changes hdv with
  | mem hmem =>
    subst hmem
    exact Fs.fsDelete_names s.mem.fs rest f
  | disk _ => rfl
  | dev v => rfl
  | other o ext => rfl

/-- Opening creates a file only for `O_CREAT` on `/mem`. -/
theorem Driver.open_names (h : dr.open s path flags = some (r, s')) (f : Nat) :
    (s'.mem.fs.files f).name = (s.mem.fs.files f).name ∨
      dr = .mem ∧ flags.creat = true ∧ fsFind s.mem.fs path = none ∧ freeFile s.mem.fs = some f ∧
        (s'.mem.fs.files f).name = cstr path := by
  cases dr.open_changes h with
  | mem hmem =>
    rcases memVfsOpen_names hmem f with hsm | hcreated
    · exact .inl hsm
    · exact .inr ⟨rfl, hcreated⟩
  | disk _ | dev v | other o ext => exact .inl rfl

/-- A slot of the table gets a name only when a file is created in it. -/
theorem call_names (h : call s c = some (r, s')) (f : Nat) :
    (s'.mem.fs.files f).name = (s.mem.fs.files f).name ∨
      ∃ name, Creates s c name ∧ fsFind s.mem.fs name = none ∧ freeFile s.mem.fs = some f ∧
        (s'.mem.fs.files f).name = cstr name := by
  cases c with
  | vfsOpen path flags =>
    obtain ⟨m, s1, hsel, hlk, hcs⟩ := vfsOpen_cases h
    rcases hcs with ⟨-, -, rfl⟩ | ⟨midx, rest, dr, data, s2, rfl, hdr, hopen, hend⟩
    · refine .inl ?_
      rw [hlk.mem]
    have hfs : s'.mem.fs = s2.mem.fs := by
      rcases hend with ⟨-, -, rfl⟩ | ⟨-, hfinish⟩
      · rfl
      · rcases finishOpen_cases hfinish with ⟨-, -, hclo⟩ | ⟨fd, -, -, rfl⟩
        · exact dr.close_fs hclo
        · rfl
    have hdr' : s.driver midx = some dr := by
      unfold State.driver at hdr ⊢
      rw [← hlk.mounts]
      exact hdr
    rw [hfs]
    rcases dr.open_names hopen f with hsm | ⟨rfl, hcr, hnn, hfr, hnm⟩
    · rw [hlk.mem] at hsm
      exact .inl hsm
    · rw [hlk.mem] at hnn hfr
      exact .inr ⟨rest, ⟨hcr, midx, s1, hsel, hdr'⟩, hnn, hfr, hnm⟩
  | vfsClose fd =>
    refine .inl ?_
    rw [vfsClose_fs h]
  | vfsRead fd buf len =>
    obtain ⟨⟨n, b, s1⟩, hrd, heq⟩ := map_eq_some_iff.1 h
    cases heq
    refine .inl ?_
    rw [vfsRead_fs hrd]
  | vfsWrite fd buf len =>
    rcases vfsWrite_cases h with ⟨-, pipes, rfl⟩ | ⟨k, dr, s1, hk, hpp, hdr, hwr, rfl⟩
    · exact .inl rfl
    rw [(advance_files s1 k r).1]
    by_cases hne : dr = .mem
    · subst hne
      obtain ⟨⟨r', m⟩, hmem, heq⟩ := map_eq_some_iff.1 hwr
      cases heq
      rcases memVfsWrite_moves hmem with rfl | ⟨i, pos, fs, w, data, hd, hfs, rfl⟩
      · exact .inl rfl
      · rcases Fs.fsWrite_names hfs f with hsm | hcreated
        · exact .inl hsm
        · exact .inr ⟨_, ⟨k, _, i, hk, ref_of_driver hdr hpp, hd, rfl⟩, hcreated⟩
    · refine .inl ?_
      rw [(Driver.write_files hne hwr).1]
  | vfsStat path =>
    obtain ⟨⟨st, s1⟩, hstat, heq⟩ := map_eq_some_iff.1 h
    cases heq
    refine .inl ?_
    rw [(vfsStat_looked hstat).mem]
  | vfsUnlink path => exact .inl (vfsUnlink_names h f)
  | vfsPipe =>
    cases h
    refine .inl ?_
    rw [vfsPipe_mem]
  | vfsDup2 oldfd newfd =>
    rcases vfsDup2_cases h with ⟨-, -, rfl⟩ | ⟨old, new, -, -, -, -, hcs⟩
    · exact .inl rfl
    rcases hcs with ⟨-, rfl⟩ | ⟨-, r1, s1, hclo, rfl⟩
    · exact .inl rfl
    · refine .inl ?_
      show (s1.mem.fs.files f).name = _
      rw [vfsClose_fs hclo]
  | fsCreate name data exec =>
    obtain ⟨⟨n, fs⟩, hfs, heq⟩ := map_eq_some_iff.1 h
    cases heq
    rcases Fs.fsCreate_names hfs f with hsm | hcreated
    · exact .inl hsm
    · exact .inr ⟨name, rfl, hcreated⟩
  | fsWrite name data =>
    obtain ⟨⟨n, fs⟩, hfs, heq⟩ := map_eq_some_iff.1 h
    cases heq
    rcases Fs.fsWrite_names hfs f with hsm | hcreated
    · exact .inl hsm
    · exact .inr ⟨name, rfl, hcreated⟩
  | fsDelete name =>
    cases h
    exact .inl (Fs.fsDelete_names s.mem.fs name f)
  | fat12 op | fat12Format drive label =>
    obtain ⟨p, -, heq⟩ := map_eq_some_iff.1 h
    cases heq
    exact .inl rfl

end

/-! ## Descriptors and their files -/

/-- The local name `vfs_open` gives to the driver. -/
def openName (s : State X) (path : Name) (flags : Flags) : Name :=
  match select s path flags with
  | some (some (_, rest), _) => cstr rest
  | _ => []

/-- The names the descriptors were opened on, after a call with result `r`. -/
def Call.opened (c : Call) (s : State X) (r : Int) (names : Nat → Name) : Nat → Name :=
  match c with
  | .vfsOpen path flags =>
    if 0 ≤ r then update names r.toNat (openName s path flags) else names
  | _ => names

/-- Every descriptor of `/mem` has a slot of its own, and the file that slot points to has the name
the descriptor was opened on. -/
structure Tied (s : State X) (names : Nat → Name) : Prop where
  slot : ∀ fd < 32, (s.fds fd).used = true → ∀ d, s.ref (s.fds fd) = .mem d →
    ∃ i : Nat, d = i ∧ i < 16 ∧ (s.mem.slots i).used = true ∧ (s.mem.file i).name = names fd
  distinct : ∀ fd < 32, ∀ fd' < 32, (s.fds fd).used = true → (s.fds fd').used = true →
    ∀ d, s.ref (s.fds fd) = .mem d → s.ref (s.fds fd') = .mem d → fd = fd'

/-- What the calls other than `vfs_open` and `vfs_dup2` do to the descriptors of `/mem`: some may be
closed, the others keep their slots. -/
structure MemKept (s s' : State X) : Prop where
  fds : ∀ k < 32, (s'.fds k).used = true → ∀ d, s'.ref (s'.fds k) = .mem d →
    (s.fds k).used = true ∧ s.ref (s.fds k) = .mem d
  slots : ∀ k < 32, (s'.fds k).used = true → ∀ i : Nat, s'.ref (s'.fds k) = .mem i →
    (s.mem.slots i).used = true → (s'.mem.slots i).used = true ∧ (s'.mem.slots i).f = (s.mem.slots i).f

section

variable {s s' : State X} {names : Nat → Name} {r : Int}

theorem Tied.kept (h : Tied s names) (hkt : MemKept s s') (hnames : ∀ i, (s.mem.slots i).used = true →
      (s'.mem.fs.files (s.mem.slots i).f).name = (s.mem.file i).name) : Tied s' names where
  slot := by
    intro fd hfd hus d href
    obtain ⟨hused0, href0⟩ := hkt.fds fd hfd hus d href
    obtain ⟨i, rfl, hi, hsl, hnm⟩ := h.slot fd hfd hused0 d href0
    obtain ⟨hslot', hf⟩ := hkt.slots fd hfd hus i href hsl
    refine ⟨i, rfl, hi, hslot', ?_⟩
    unfold Mem.file
    rw [hf, hnames i hsl, hnm]
  distinct := by
    intro fd hfd fd' hfd' hus hused' d href href'
    obtain ⟨hused0, href0⟩ := hkt.fds fd hfd hus d href
    obtain ⟨hused0', href0'⟩ := hkt.fds fd' hfd' hused' d href'
    exact h.distinct fd hfd fd' hfd' hused0 hused0' d href0 href0'

/-- A careful call leaves the names of the files that are pointed to. -/
theorem names_of_careful (hca : call s c = some (r, s')) (hcareful : Careful s c) (i : Nat)
    (hus : (s.mem.slots i).used = true) : (s'.mem.fs.files (s.mem.slots i).f).name = (s.mem.file i).name := by
  rcases call_names hca (s.mem.slots i).f with hsm | ⟨name, hcreates, hnn, hfr, hnm⟩
  · exact hsm
  · rw [hnm]
    exact (hcareful name hcreates hnn i hus hfr).symm

theorem memKept_of_eq (hfds : s'.fds = s.fds) (hmt : s'.mounts = s.mounts)
    (hss : s'.mem.slots = s.mem.slots) : MemKept s s' := by
  refine ⟨fun k _ hus d href => ?_, fun k _ _ i _ hi => ?_⟩
  · rw [hfds] at hus href
    rw [ref_congr hmt] at href
    exact ⟨hus, href⟩
  · rw [hss]
    exact ⟨hi, rfl⟩

/-! ### Reading and writing -/

theorem slot_moved (slots : Nat → MemSlot) (j p i : Nat) :
    (update slots j { slots j with pos := p } i).used = (slots i).used ∧
      (update slots j { slots j with pos := p } i).f = (slots i).f := by
  by_cases hi : i = j
  · subst hi
    rw [update_self]
    exact ⟨rfl, rfl⟩
  · rw [update_of_ne hi]
    exact ⟨rfl, rfl⟩

/-- A read or write through descriptor `k` that leaves the drivers' slots in place. -/
theorem memKept_advance {s1 : State X} {k : Nat} (htab : SameTables s s1)
    (hss : ∀ i, (s1.mem.slots i).used = (s.mem.slots i).used ∧ (s1.mem.slots i).f = (s.mem.slots i).f) :
    MemKept s (s1.advance k r) := by
  have het : ∀ j, ((s1.advance k r).fds j).used = (s.fds j).used ∧
      (s1.advance k r).ref ((s1.advance k r).fds j) = s.ref (s.fds j) := by
    intro j
    obtain ⟨pos, hav⟩ := advance_eq s1 k r
    have hm : (s1.advance k r).mounts = s.mounts := by
      rw [hav]
      exact htab.mounts
    rw [ref_congr hm, hav, htab.fds]
    exact ⟨rfl, rfl⟩
  refine ⟨fun j _ hus d href => ?_, fun j _ _ i _ hi => ?_⟩
  · rw [(het j).1] at hus
    rw [(het j).2] at href
    exact ⟨hus, href⟩
  · rw [(advance_files s1 k r).1, (hss i).1, (hss i).2]
    exact ⟨hi, rfl⟩

theorem Driver.read_slots (h : dr.read s d buf len = some (r, buf', s')) (i : Nat) :
    (s'.mem.slots i).used = (s.mem.slots i).used ∧ (s'.mem.slots i).f = (s.mem.slots i).f := by
  cases dr.read_changes h with
  | mem hrd =>
    rcases memVfsRead_cases hrd with rfl | ⟨j, pos, -, rfl⟩
    · exact ⟨rfl, rfl⟩
    · exact slot_moved _ j pos i
  | disk _ | dev v | other o ext => exact ⟨rfl, rfl⟩

theorem Driver.write_slots (h : dr.write s d buf len = some (r, s')) (i : Nat) :
    (s'.mem.slots i).used = (s.mem.slots i).used ∧ (s'.mem.slots i).f = (s.mem.slots i).f := by
  cases dr.write_changes h with
  | mem hwr =>
    rcases memVfsWrite_moves hwr with rfl | ⟨j, pos, fs, -, -, -, -, rfl⟩
    · exact ⟨rfl, rfl⟩
    · exact slot_moved _ j pos i
  | disk _ | dev v | other o ext => exact ⟨rfl, rfl⟩

theorem vfsRead_memKept {len : UInt32} (h : vfsRead s fd buf len = some (r, buf', s')) : MemKept s s' := by
  rcases vfsRead_cases h with ⟨pipes, rfl⟩ | ⟨k, dr, s1, -, -, -, hrd, rfl⟩
  · exact memKept_of_eq rfl rfl rfl
  · exact memKept_advance (dr.read_changes hrd).sameTables (dr.read_slots hrd)

theorem vfsWrite_memKept {len : UInt32} (h : vfsWrite s fd buf len = some (r, s')) : MemKept s s' := by
  rcases vfsWrite_cases h with ⟨-, pipes, rfl⟩ | ⟨k, dr, s1, -, -, -, hwr, rfl⟩
  · exact memKept_of_eq rfl rfl rfl
  · exact memKept_advance (dr.write_changes hwr).sameTables (dr.write_slots hwr)

/-! ### Closing -/

theorem Tied.memKept_close (h : Tied s names) (hclo : vfsClose s fd = some (r, s')) : MemKept s s' := by
  obtain ⟨hspares, hfds⟩ := vfsClose_spares hclo
  have hmt := (vfsClose_keeps hclo).mounts
  -- the descriptor that is closed is not in use afterwards
  have hclosed : ∀ k, s.fdOf fd = some k → (s'.fds k).used = false := by
    intro k hk
    rcases vfsClose_cases hclo with ⟨hnn, -⟩ | ⟨j, hj, hcs⟩
    · rw [hnn] at hk
      cases hk
    obtain rfl : j = k := Option.some.inj (hj.symm.trans hk)
    rcases hcs with ⟨-, pipes, rfl⟩ | ⟨dr, s1, -, -, -, rfl⟩
    · rw [setFd_self]
    · rw [setFd_self]
  have hbk : ∀ k, (s'.fds k).used = true → s.fdOf fd ≠ some k ∧ s'.fds k = s.fds k := by
    intro k hus
    have hne : s.fdOf fd ≠ some k := by
      intro hk
      rw [hclosed k hk] at hus
      cases hus
    exact ⟨hne, hfds k hne⟩
  refine ⟨fun k _ hus d href => ?_, fun k hk hus i href hi => ?_⟩
  · obtain ⟨-, hsm⟩ := hbk k hus
    rw [hsm] at hus href
    rw [ref_congr hmt] at href
    exact ⟨hus, href⟩
  · obtain ⟨hne, hsm⟩ := hbk k hus
    rw [hsm] at hus href
    rw [ref_congr hmt] at href
    have hsl : s'.mem.slots i = s.mem.slots i := by
      apply hspares.mem i hi
      intro hcref
      -- a slot belongs to one descriptor
      cases hfd : s.fdOf fd with
      | none =>
        unfold Call.ref Call.fd at hcref
        simp [hfd] at hcref
      | some j =>
        rw [Call.ref_of_fd (c := .vfsClose fd) hfd] at hcref
        obtain ⟨-, hj, hjused⟩ := slotOf_eq_some_iff.1 hfd
        obtain rfl := h.distinct j hj k hk hjused hus i hcref href
        exact hne hfd
    rw [hsl]
    exact ⟨hi, rfl⟩

theorem vfsPipe_memKept (s : State X) : MemKept s (vfsPipe s (0, 0)).2.2 := by
  have hmem := vfsPipe_mem s (0, 0)
  refine ⟨fun k _ hus d href => ?_, fun k _ _ i _ hi => ?_⟩
  · cases hsl : Pipes.freeSlot s.pipes with
    | none =>
      rw [vfsPipe_no_slot hsl] at hus href
      exact ⟨hus, href⟩
    | some i =>
      cases hfd : allocFd s with
      | none =>
        rw [vfsPipe_no_fd hsl hfd] at hus href
        exact ⟨hus, href⟩
      | some fd =>
        rw [vfsPipe_done hsl hfd] at hus href
        by_cases hk : k = fd
        · subst hk
          rw [setFd_self] at href
          cases href
        · rw [setFd_ne _ _ hk] at hus href
          exact ⟨hus, href⟩
  · rw [hmem]
    exact ⟨hi, rfl⟩

/-! ### Opening -/

theorem vfsOpen_fds (h : vfsOpen s path flags = some (r, s')) :
    (r = -1 ∧ s'.fds = s.fds) ∨
    ∃ (fd midx : Nat) (rest : Name) (dr : Driver X) (data : Int) (s1 s2 : State X),
      r = fd ∧ allocFd s = some fd ∧ select s path flags = some (some (midx, rest), s1) ∧
      s.driver midx = some dr ∧ s1.mem = s.mem ∧ dr.open s1 rest flags = some (data, s2) ∧ 0 ≤ data ∧
      s'.mem = s2.mem ∧ s'.fds = update s.fds fd (openedFd (s.fds fd) midx flags data) := by
  obtain ⟨m, s1, hsel, hlk, hcs⟩ := vfsOpen_cases h
  rcases hcs with ⟨-, rfl, rfl⟩ | ⟨midx, rest, dr, data, s2, rfl, hdr, hopen, hend⟩
  · exact .inl ⟨rfl, hlk.fds⟩
  have hfds2 : s2.fds = s.fds := (dr.open_spec hopen).1.fds.trans hlk.fds
  have hdr' : s.driver midx = some dr := by
    unfold State.driver at hdr ⊢
    rw [← hlk.mounts]
    exact hdr
  rcases hend with ⟨-, rfl, rfl⟩ | ⟨hpos, hfinish⟩
  · exact .inl ⟨rfl, hfds2⟩
  rcases finishOpen_cases hfinish with ⟨-, rfl, hclo⟩ | ⟨fd, hfd, rfl, rfl⟩
  · exact .inl ⟨rfl, (dr.close_spec hclo).1.fds.trans hfds2⟩
  refine .inr ⟨fd, midx, rest, dr, data, s1, s2, rfl, ?_, hsel, hdr', hlk.mem, hopen, hpos, rfl, ?_⟩
  · rw [← allocFd_congr hfds2]
    exact hfd
  · show update s2.fds fd (openedFd (s2.fds fd) midx flags data) = _
    rw [hfds2]

theorem Tied.open (h : Tied s names) (hw : Wf s.mem.fs) (hcareful : Careful s (.vfsOpen path flags))
    (hopen : vfsOpen s path flags = some (r, s')) : Tied s' ((Call.vfsOpen path flags).opened s r names) := by
  have hca : call s (.vfsOpen path flags) = some (r, s') := hopen
  have hnames := names_of_careful hca hcareful
  have hmt := (vfsOpen_keeps hopen).mounts
  obtain ⟨hspares, -⟩ := vfsOpen_spares hopen .none
  have hss : ∀ i : Nat, (s.mem.slots i).used = true → s'.mem.slots i = s.mem.slots i :=
    fun i hi => hspares.mem i hi nofun
  rcases vfsOpen_fds hopen with ⟨rfl, hfds⟩ |
    ⟨fd, midx, rest, dr, data, s1, s2, rfl, hfd, hsel, hdr, hmem1, hdopen, hpos, hmem2, hfds⟩
  · refine h.kept ⟨fun k _ hus d href => ?_, fun k _ _ i _ hi => ?_⟩ hnames
    · rw [hfds] at hus href
      rw [ref_congr hmt] at href
      exact ⟨hus, href⟩
    · rw [hss i hi]
      exact ⟨hi, rfl⟩
  have hod : (Call.vfsOpen path flags).opened s fd names =
      update names fd (cstr rest) := by
    unfold Call.opened openName
    simp only [hsel, Int.natCast_nonneg, if_true, Int.toNat_natCast]
  have hold : ∀ k, k ≠ fd → s'.fds k = s.fds k := by
    intro k hk
    rw [hfds, update_of_ne hk]
  -- the new descriptor, if it is one of `/mem`
  have hnew : ∀ d, s'.ref (s'.fds fd) = .mem d → ∃ i : Nat, d = i ∧ i < 16 ∧
      (s'.mem.slots i).used = true ∧ (s'.mem.file i).name = cstr rest ∧
      (s.mem.slots i).used = false := by
    intro d href
    rw [ref_congr hmt, hfds, update_self,
      ref_of_driver hdr (fun hpp => by cases hpp)] at href
    by_cases hne : dr = .mem
    · subst hne
      cases href
      obtain ⟨i, rfl⟩ := Int.eq_ofNat_of_zero_le hpos
      obtain ⟨⟨r', m⟩, hmem, heq⟩ := map_eq_some_iff.1 hdopen
      cases heq
      rw [hmem1] at hmem
      obtain ⟨hus, hi, hfr, hnm⟩ := memVfsOpen_file hw hmem
      rw [hmem2]
      exact ⟨i, rfl, hi, hus, hnm, hfr⟩
    · exact absurd href (Driver.refOf_ne_mem hne _ _)
  have hused_old : ∀ k < 32, k ≠ fd → (s'.fds k).used = true → ∀ d, s'.ref (s'.fds k) = .mem d →
      ∃ i : Nat, d = i ∧ i < 16 ∧ (s.mem.slots i).used = true ∧ (s.mem.file i).name = names k ∧
        (s.fds k).used = true ∧ s.ref (s.fds k) = .mem d := by
    intro k hk hne hus d href
    rw [hold k hne] at hus href
    rw [ref_congr hmt] at href
    obtain ⟨i, hd, hi, hsl, hnm⟩ := h.slot k hk hus d href
    exact ⟨i, hd, hi, hsl, hnm, hus, href⟩
  -- the slot of the new descriptor was free, that of an old one was not
  have hother : ∀ k < 32, k ≠ fd → (s'.fds k).used = true → ∀ d, s'.ref (s'.fds fd) = .mem d → s'.ref (s'.fds k) ≠ .mem d := by
    intro k hk hne hus d href href'
    obtain ⟨i, rfl, -, -, -, hfr⟩ := hnew d href
    obtain ⟨j, hj, -, hsl, -⟩ := hused_old k hk hne hus _ href'
    obtain rfl : i = j := by omega
    rw [hfr] at hsl
    cases hsl
  rw [hod]
  refine ⟨fun k hk hus d href => ?_, fun k hk k' hk' hus hused' d href href' => ?_⟩
  · by_cases hne : k = fd
    · subst hne
      obtain ⟨i, hd, hi, hsl, hnm, -⟩ := hnew d href
      refine ⟨i, hd, hi, hsl, ?_⟩
      rw [update_self]
      exact hnm
    · obtain ⟨i, hd, hi, hsl, hnm, -⟩ := hused_old k hk hne hus d href
      refine ⟨i, hd, hi, ?_, ?_⟩
      · rw [hss i hsl]
        exact hsl
      · unfold Mem.file
        rw [update_of_ne hne, hss i hsl, hnames i hsl]
        exact hnm
  · by_cases hne : k = fd
    · by_cases hne' : k' = fd
      · rw [hne, hne']
      · subst hne
        exact absurd href' (hother k' hk' hne' hused' d href)
    by_cases hne' : k' = fd
    · subst hne'
      exact absurd href (hother k hk hne hus d href')
    · obtain ⟨-, -, -, -, -, hused0, href0⟩ := hused_old k hk hne hus d href
      obtain ⟨-, -, -, -, -, hused0', href0'⟩ := hused_old k' hk' hne' hused' d href'
      exact h.distinct k hk k' hk' hused0 hused0' d href0 href0'

/-! ## Runs -/

/-- Every call but `vfs_dup2` keeps the descriptors with their files, if it is careful. -/
theorem Tied.step (h : Tied s names) (hw : Wf s.mem.fs) (hca : call s c = some (r, s'))
    (hdup : ∀ oldfd newfd, c ≠ .vfsDup2 oldfd newfd) (hcareful : Careful s c) : Tied s' (c.opened s r names) := by
  have hnames := names_of_careful hca hcareful
  cases c with
  | vfsOpen path flags => exact h.open hw hcareful hca
  | vfsClose fd => exact h.kept (h.memKept_close hca) hnames
  | vfsRead fd buf len =>
    obtain ⟨⟨n, b, s1⟩, hrd, heq⟩ := map_eq_some_iff.1 hca
    cases heq
    exact h.kept (vfsRead_memKept hrd) hnames
  | vfsWrite fd buf len => exact h.kept (vfsWrite_memKept hca) hnames
  | vfsStat path =>
    obtain ⟨⟨st, s1⟩, hstat, heq⟩ := map_eq_some_iff.1 hca
    cases heq
    have hlk := vfsStat_looked hstat
    exact h.kept (memKept_of_eq hlk.fds hlk.mounts (congrArg Mem.slots hlk.mem)) hnames
  | vfsUnlink path =>
    obtain ⟨hspares, hfds⟩ := vfsUnlink_spares hca .none
    refine h.kept ⟨fun k _ hus d href => ?_, fun k _ _ i _ hi => ?_⟩ hnames
    · rw [hfds] at hus href
      rw [ref_congr (vfsUnlink_keeps hca).mounts] at href
      exact ⟨hus, href⟩
    · rw [hspares.mem i hi nofun]
      exact ⟨hi, rfl⟩
  | vfsPipe =>
    cases hca
    exact h.kept (vfsPipe_memKept s) hnames
  | vfsDup2 oldfd newfd => exact absurd rfl (hdup oldfd newfd)
  | fsCreate name data exec | fsWrite name data | fat12 op | fat12Format drive label =>
    obtain ⟨p, -, heq⟩ := map_eq_some_iff.1 hca
    cases heq
    exact h.kept (memKept_of_eq rfl rfl rfl) hnames
  | fsDelete name =>
    cases hca
    exact h.kept (memKept_of_eq rfl rfl rfl) hnames

/-- The descriptors of a booted kernel are those of the console. -/
theorem tied_boot (extra : List (Mount X)) (fs : Fs.State) (fat : Fat12.State) (dev : Dev) (ext : X)
    (names : Nat → Name) : Tied (boot extra fs fat dev ext) names := by
  have hno : ∀ fd, ((boot extra fs fat dev ext).fds fd).used = true →
      ∀ d, (boot extra fs fat dev ext).ref ((boot extra fs fat dev ext).fds fd) ≠ .mem d := by
    intro fd hus d href
    rw [boot_fds] at hus href
    split at hus
    · rename_i hlt
      rw [if_pos hlt] at href
      cases href
    · cases hus
  refine ⟨fun fd _ hus d href => absurd href (hno fd hus d), fun fd _ fd' _ hus _ d href => ?_⟩
  exact absurd href (hno fd hus d)

/-- A careful call, with the names the descriptors were opened on. -/
def CarefulStep (t : State X × (Nat → Name)) (c : Call) (t' : State X × (Nat → Name)) : Prop :=
  ∃ r, call t.1 c = some (r, t'.1) ∧ t'.2 = c.opened t.1 r t.2 ∧
    (∀ oldfd newfd, c ≠ .vfsDup2 oldfd newfd) ∧ Careful t.1 c

theorem tied_run {extra : List (Mount X)} (hw : Wf fs) {fat : Fat12.State} {dev : Dev} {ext : X}
    {cs : List Call} {t : State X × (Nat → Name)}
    (hrun : Run CarefulStep (boot extra fs fat dev ext, fun _ => []) cs t) :
    Ready (initMounts ++ extra) t.1 ∧ Tied t.1 t.2 := by
  refine hrun.invariant (fun t => Ready (initMounts ++ extra) t.1 ∧ Tied t.1 t.2)
    ⟨ready_boot extra hw fat dev ext, tied_boot extra fs fat dev ext _⟩ ?_
  rintro ⟨s, names⟩ c ⟨s', names'⟩ ⟨hry, htied⟩ ⟨r, hca, hod, hdup, hcareful⟩
  rw [hod]
  exact ⟨hry.keeps (call_keeps hry.slots hca), htied.step hry.files hca hdup hcareful⟩

end

/-! ## Use of a descriptor -/

section

variable {s s' : State X} {k i : Nat} {len : UInt32} {r : Int}

/-- A write through slot `i` of `/mem` changes only the file of the name its file has. -/
theorem vfsWrite_other (hw : Wf s.mem.fs) (hk : s.fdOf fd = some k) (href : s.ref (s.fds k) = .mem i)
    (hi : slotOf s.mem.used 16 i = some i) (h : vfsWrite s fd buf len = some (r, s')) {other : Name}
    (hot : cstr other ≠ (s.mem.file i).name) : lookup s'.mem.fs other = lookup s.mem.fs other := by
  rcases vfsWrite_cases h with ⟨-, pipes, rfl⟩ | ⟨k', dr, s1, hk', hpp, hdr, hwr, rfl⟩
  · rfl
  obtain rfl : k = k' := Option.some.inj (hk.symm.trans hk')
  rw [ref_of_driver hdr hpp] at href
  rw [(advance_files s1 k r).1]
  by_cases hne : dr = .mem
  · subst hne
    obtain ⟨⟨r', m⟩, hmem, heq⟩ := map_eq_some_iff.1 hwr
    cases heq
    have hd : (s.fds k).fdData = i := Ref.mem.inj href
    rw [← hd] at hi
    rcases memVfsWrite_cases hi hmem with ⟨-, -, rfl⟩ | ⟨-, -, w, fs, hfs, rfl⟩
    · rfl
    rcases Fs.fsWrite_spec hw hfs with ⟨-, rfl, -⟩ | ⟨-, j, hput⟩
    · rfl
    · have hnm : cstr (s.mem.file i).name = (s.mem.file i).name := cstr_eq_self (hw.name _)
      rw [hput.lookup hw, hnm, if_neg hot]
  · exact absurd href (Driver.refOf_ne_mem hne _ _)

/-- The difference is taken in 32 bits: a byte is left from every position behind the end. -/
theorem readLen_one {size pos : Nat} (hpos : size < pos) (hlt : pos < size + 2 ^ 32) : readLen size pos 1 = 1 := by
  have havail : u32 (size + 2 ^ 32 - pos) = size + 2 ^ 32 - pos := by
    unfold u32
    omega
  unfold readLen
  exact if_neg (by omega)

/-- Descriptor `k` is open on slot `i` of `/mem`. -/
structure OnMem (s : State X) (k i : Nat) : Prop where
  lt : k < 32
  used : (s.fds k).used = true
  type : (s.fds k).type ≠ .pipe
  driver : s.driver (s.fds k).mountIdx = some .mem
  data : (s.fds k).fdData = i
  slot : i < 16
  slotUsed : (s.mem.slots i).used = true

theorem OnMem.fdOf (h : OnMem s k i) : s.fdOf (k : Int) = some k :=
  slotOf_eq_some_iff.2 ⟨rfl, h.lt, h.used⟩

theorem OnMem.slotOf (h : OnMem s k i) : slotOf s.mem.used 16 (s.fds k).fdData = some i := by
  rw [h.data]
  exact slotOf_eq_some_iff.2 ⟨rfl, h.slot, h.slotUsed⟩

theorem onMem_of_ref (hk : s.fdOf fd = some k) (href : s.ref (s.fds k) = .mem i) (hi : i < 16)
    (hsl : (s.mem.slots i).used = true) : OnMem s k i := by
  obtain ⟨-, hlt, hus⟩ := slotOf_eq_some_iff.1 hk
  unfold State.ref at href
  split at href
  · cases href
  rename_i hpp
  cases hdr : s.driver (s.fds k).mountIdx with
  | none => simp [hdr] at href
  | some dr =>
    simp only [hdr] at href
    by_cases hne : dr = .mem
    · subst hne
      exact ⟨hlt, hus, hpp, hdr, Ref.mem.inj href, hi, hsl⟩
    · exact absurd href (Driver.refOf_ne_mem hne _ _)

theorem OnMem.vfsRead_eq (h : OnMem s k i) (buf : Bytes) (len : UInt32) : vfsRead s k buf len =
    (memVfsRead s.mem (s.fds k).fdData buf len.toNat).map fun r =>
      (r.1, r.2.1, { s with mem := r.2.2 }.advance k r.1) := by
  unfold vfsRead Driver.read
  simp only [h.fdOf, h.type, h.driver, if_false, Option.map_map]
  rfl

/-- A read within the file gives the bytes from the position on. -/
theorem OnMem.read (h : OnMem s k i) (hw : Wf s.mem.fs)
    (hpos : (s.mem.slots i).pos ≤ (s.mem.file i).size) (buf : Bytes) (len : UInt32) {out : List UInt8}
    (hout : out = ((s.mem.file i).contents.drop (s.mem.slots i).pos).take len.toNat) :
    vfsRead s k buf len = some ((out.length : Int), buf.copy 0 (.ofList out) out.length,
      { s with mem := { s.mem with
        slots := update s.mem.slots i
          { s.mem.slots i with pos := (s.mem.slots i).pos + out.length } } }.advance k out.length) := by
  obtain ⟨hn, hcp⟩ := buf.copy_drop (s.mem.file i).data hout
  rw [← hn] at hcp
  have hsz : (s.mem.file i).size ≤ 4095 := hw.size (s.mem.slots i).f
  have hlen : readLen (s.mem.file i).size (s.mem.slots i).pos len.toNat = out.length := hn ▸ readLen_eq hpos (by omega)
  have hu : u32 ((s.mem.slots i).pos + out.length) = (s.mem.slots i).pos + out.length := by
    unfold u32
    omega
  rw [h.vfsRead_eq]
  unfold memVfsRead
  simp only [h.slotOf, hlen, i32_of_lt (show out.length < 2 ^ 31 by omega), hu, hcp]
  rw [if_neg (by omega)]
  rfl

end

/-- **A descriptor of `/mem` stays with its file**, in every run in which no file of another name is
created in a slot that is still pointed to: a write through it changes no other file, and a read from
within the file gives bytes of it. -/
theorem mem_descriptor_keeps_file {extra : List (Mount X)} {fs : Fs.State} (hw : Wf fs)
    {fat : Fat12.State} {dev : Dev} {ext : X} {cs : List Call} {s : State X} {names : Nat → Name}
    (hrun : Run CarefulStep (boot extra fs fat dev ext, fun _ => []) cs (s, names)) {fd d : Int}
    {k : Nat} (hk : s.fdOf fd = some k) (href : s.ref (s.fds k) = .mem d) :
    (∀ buf len r s', vfsWrite s fd buf len = some (r, s') → ∀ other, cstr other ≠ names k →
      lookup s'.mem.fs other = lookup s.mem.fs other) ∧
    (∀ buf len r buf' s', vfsRead s fd buf len = some (r, buf', s') →
      (s.mem.slots d.toNat).pos ≤ (s.mem.file d.toNat).size →
      (s.mem.file d.toNat).name = names k ∧ 0 ≤ r ∧
        buf'.toList r.toNat = ((s.mem.file d.toNat).contents.drop (s.mem.slots d.toNat).pos).take len.toNat) := by
  obtain ⟨hry, htied⟩ := tied_run hw hrun
  obtain ⟨-, hlt, hus⟩ := slotOf_eq_some_iff.1 hk
  obtain ⟨i, rfl, hi, hsl, hnm⟩ := htied.slot k hlt hus d href
  have hi16 : slotOf s.mem.used 16 i = some i := slotOf_eq_some_iff.2 ⟨rfl, hi, hsl⟩
  have hname' : (s.mem.file i).name = names k := hnm
  constructor
  · intro buf len r s' hwr other hot
    rw [← hname'] at hot
    exact vfsWrite_other hry.files hk href hi16 hwr hot
  · intro buf len r buf' s' hrd hpos
    have hon := onMem_of_ref hk href hi hsl
    have hsc := hon.read hry.files hpos buf len rfl
    obtain rfl : fd = k := (slotOf_eq_some_iff.1 hk).1
    rw [hrd] at hsc
    obtain ⟨rfl, hb⟩ := Prod.mk.inj (Option.some.inj hsc)
    obtain ⟨rfl, -⟩ := Prod.mk.inj hb
    exact ⟨hnm, Int.natCast_nonneg _, Bytes.toList_copy_ofList _ _⟩

/-- "/mem/a" -/
def memA : Name := memPath ++ 47 :: [97]

/-- Writing to the new file "a" leaves "b". -/
theorem mem_descriptor_keeps_file_new : ∃ (s s' : State Unit) (names : Nat → Name),
    Run CarefulStep (bareBoot, fun _ => []) [.vfsOpen memA { creat := true }] (s, names) ∧
    names 3 = [97] ∧ vfsWrite s 3 (fun _ => 120) 1 = some (1, s') ∧
    lookup s'.mem.fs [98] = lookup s.mem.fs [98] := by
  obtain ⟨s, hopen, s', hwr, hk, href⟩ : ∃ s : State Unit,
      vfsOpen bareBoot memA { creat := true } = some (3, s) ∧ ∃ s',
      vfsWrite s 3 (fun _ => 120) 1 = some (1, s') ∧ s.fdOf 3 = some 3 ∧ s.ref (s.fds 3) = .mem 0 :=
    ⟨_, rfl, _, rfl, rfl, rfl⟩
  have hsp : CarefulStep (bareBoot, fun _ => []) (.vfsOpen memA { creat := true })
      (s, (Call.vfsOpen memA { creat := true }).opened bareBoot 3 fun _ => []) :=
    ⟨3, hopen, rfl, (fun _ _ h => by cases h), fun _ _ _ _ hus => by cases hus⟩
  exact ⟨s, s', _, .single hsp, rfl, hwr,
    (mem_descriptor_keeps_file Fs.wf_cleared (.single hsp) hk href).1 _ _ _ _ hwr [98] (by decide)⟩

/-- "a" is opened and unlinked, and "b" is created in its place: the descriptor of "a" reads and
writes "b". -/
theorem descriptor_of_other_file : ∃ (s1 s2 s3 s4 s5 : State Unit) (buf : Bytes),
    vfsOpen bareBoot memA { creat := true } = some (3, s1) ∧
    vfsUnlink s1 memA = some (0, s2) ∧
    call s2 (.fsCreate [98] [120, 121] 0) = some (0, s3) ∧
    lookup s3.mem.fs [98] = some [120, 121] ∧
    vfsRead s3 3 (fun _ => 0) 16 = some (2, buf, s4) ∧ buf.toList 2 = [120, 121] ∧
    vfsWrite s3 3 (fun _ => 122) 1 = some (1, s5) ∧ lookup s5.mem.fs [98] = some [122] := by
  obtain ⟨s1, s2, s3, s5, hopen, hunlink, hcreate, hb, hwr, hb', hrd⟩ :
      ∃ s1 s2 s3 s5 : State Unit, vfsOpen bareBoot memA { creat := true } = some (3, s1) ∧
      vfsUnlink s1 memA = some (0, s2) ∧ call s2 (.fsCreate [98] [120, 121] 0) = some (0, s3) ∧
      lookup s3.mem.fs [98] = some [120, 121] ∧ vfsWrite s3 3 (fun _ => 122) 1 = some (1, s5) ∧
      lookup s5.mem.fs [98] = some [122] ∧
      (vfsRead s3 3 (fun _ => 0) 16).map (fun r => (r.1, r.2.1.toList 2)) = some (2, [120, 121]) :=
    ⟨_, _, _, _, rfl, rfl, rfl, rfl, rfl, rfl, by decide +kernel⟩
  obtain ⟨⟨_, buf, s4⟩, hrd, he⟩ := map_eq_some_iff.1 hrd
  obtain ⟨rfl, hbuf⟩ := Prod.mk.inj he
  exact ⟨s1, s2, s3, s4, s5, buf, hopen, hunlink, hcreate, hb, hrd, hbuf, hwr, hb'⟩

/-- A read through descriptor `k`, open on slot `i`, copies and returns no more than the file has
behind the position. -/
def StopsAtEnd (s : State X) (k i : Nat) (buf : Bytes) (len : UInt32) : Prop :=
  ∃ (n : Nat) (buf' : Bytes) (s' : State X), vfsRead s k buf len = some ((n : Int), buf', s') ∧
    n ≤ (s.mem.file i).size - (s.mem.slots i).pos ∧ ∀ x, n ≤ x → buf' x = buf x

/-- **Reads on `/mem` stop at the end of the file** just if the position lies within the file.
(The other positions named here are none of `uint32_t`.) -/
theorem mem_read_stops_iff {extra : List (Mount X)} {fs : Fs.State} (hw : Wf fs) {fat : Fat12.State}
    {dev : Dev} {ext : X} {cs : List Call} {s : State X}
    (hrun : Run CallStep (boot extra fs fat dev ext) cs s) {k i : Nat} (h : OnMem s k i) :
    (∀ buf len, StopsAtEnd s k i buf len) ↔
      (s.mem.slots i).pos ≤ (s.mem.file i).size ∨ (s.mem.file i).size + 2 ^ 32 ≤ (s.mem.slots i).pos := by
  have hfiles := ((ready_boot extra hw fat dev ext).run hrun).files
  constructor
  · intro hstops
    by_contra hno
    rw [not_or, Nat.not_le, Nat.not_le] at hno
    obtain ⟨n, buf', s', hrd, hle, -⟩ := hstops (fun _ => 0) 1
    have hone := readLen_one hno.1 hno.2
    rw [h.vfsRead_eq, memVfsRead, h.slotOf] at hrd
    obtain ⟨⟨r, b, m⟩, hmem, heq⟩ := map_eq_some_iff.1 hrd
    simp only [show (1 : UInt32).toNat = 1 from rfl, hone] at hmem
    split at hmem
    · cases hmem
    have hr : i32 1 = r := congrArg Prod.fst (Option.some.inj hmem)
    have hn : r = n := congrArg Prod.fst heq
    have : i32 1 = 1 := rfl
    omega
  · rintro (hpos | hfar) buf len
    · refine ⟨_, _, _, h.read hfiles hpos buf len rfl, ?_, fun x hx => Bytes.copy_of_out _ _ (by omega)⟩
      rw [List.length_take, List.length_drop, Fs.File.contents, Bytes.length_toList]
      omega
    · have hze : readLen (s.mem.file i).size (s.mem.slots i).pos len.toNat = 0 := by
        have havail : u32 ((s.mem.file i).size + 2 ^ 32 - (s.mem.slots i).pos) = 0 := by
          rw [Nat.sub_eq_zero_of_le hfar]
          rfl
        unfold readLen
        simp only [havail]
        split <;> omega
      refine ⟨0, buf.copy 0 ((s.mem.file i).data.drop (s.mem.slots i).pos) 0, ?_⟩
      rw [h.vfsRead_eq, memVfsRead, h.slotOf]
      simp only [hze]
      exact ⟨_, rfl, Nat.zero_le _, fun x _ => Bytes.copy_of_out _ _ (by omega)⟩

/-- "xy" is opened for reading. -/
theorem mem_read_stops_iff_xy : ∃ s : State Unit,
    Run CallStep (boot [] Fs.cleared Fat12.initial ⟨[], []⟩ ()) [.fsCreate [97] [120, 121] 0, .vfsOpen memA {}] s ∧
      lookup s.mem.fs [97] = some [120, 121] ∧ ∀ buf len, StopsAtEnd s 3 0 buf len := by
  obtain ⟨s1, s, hcreate, hopen, htext, hon, hpos⟩ : ∃ s1 s : State Unit,
      call bareBoot (.fsCreate [97] [120, 121] 0) = some (0, s1) ∧ vfsOpen s1 memA {} = some (3, s) ∧
      lookup s.mem.fs [97] = some [120, 121] ∧ OnMem s 3 0 ∧ (s.mem.slots 0).pos = 0 :=
    ⟨_, _, rfl, rfl, rfl, ⟨by decide, rfl, nofun, rfl, rfl, by decide, rfl⟩, rfl⟩
  have hrun : Run CallStep bareBoot [.fsCreate [97] [120, 121] 0, .vfsOpen memA {}] s :=
    .snoc (.single ⟨0, hcreate⟩) ⟨3, hopen⟩
  have hrun : Run CallStep (boot [] Fs.cleared Fat12.initial ⟨[], []⟩ ()) _ s := hrun
  exact ⟨s, hrun, htext, (mem_read_stops_iff Fs.wf_cleared hrun hon).2 (.inl (by rw [hpos]; exact Nat.zero_le _))⟩

/-- "xy" is opened for appending, and the shell empties it: a read gives a byte. -/
theorem read_behind_end : ∃ (s1 s2 s3 s4 : State Unit) (buf : Bytes),
    call bareBoot (.fsCreate [97] [120, 121] 0) = some (0, s1) ∧
    vfsOpen s1 memA { append := true } = some (3, s2) ∧ call s2 (.fsWrite [97] []) = some (0, s3) ∧
    lookup s3.mem.fs [97] = some [] ∧ OnMem s3 3 0 ∧ vfsRead s3 3 (fun _ => 0) 1 = some (1, buf, s4) := by
  obtain ⟨s1, s2, s3, hcreate, hopen, hwr, hem, hon, hrd⟩ : ∃ s1 s2 s3 : State Unit,
      call bareBoot (.fsCreate [97] [120, 121] 0) = some (0, s1) ∧
      vfsOpen s1 memA { append := true } = some (3, s2) ∧ call s2 (.fsWrite [97] []) = some (0, s3) ∧
      lookup s3.mem.fs [97] = some [] ∧ OnMem s3 3 0 ∧ (vfsRead s3 3 (fun _ => 0) 1).map Prod.fst = some 1 :=
    ⟨_, _, _, rfl, rfl, rfl, rfl, ⟨by decide, rfl, nofun, rfl, rfl, by decide, rfl⟩, by decide +kernel⟩
  obtain ⟨⟨buf, s4⟩, hrd⟩ := exists_of_map_fst hrd
  exact ⟨s1, s2, s3, s4, buf, hcreate, hopen, hwr, hem, hon, hrd⟩

end KumOS.Vfs
