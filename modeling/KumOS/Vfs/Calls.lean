import KumOS.Vfs.PipeEnds

/-!
# What the calls of `vfs.c` can do

Each call is taken apart once: how `vfs_open` comes to its mount, what opening and
closing do to the slots of the drivers, and which parts of the state the other calls
touch.  The results about descriptors and files argue from these lemmas.
-/

namespace KumOS.Vfs

open Lib
open Fat12 (Name)
open Function (update update_self update_of_ne)
open Option (map_eq_some_iff)

variable {X : Type}
variable {d fd r : Int} {s s' : State X} {flags : Flags} {path : Name} {k k' : Disk}
  {buf buf' : Bytes} {m m' : Mem} {len n : Nat}
variable {dr : Driver X} {found : Option (Nat × Name)} {S : Type}

/-! ## Calls of a driver -/

/-- A call of a driver changes its own part of the state; that of `/mem` and `/disk` as `mem` and
`disk` tell. -/
inductive Driver.Changes (s : State X) (mem : Mem → Prop) (disk : Disk → Prop) : Driver X → State X → Prop
  | mem {m : Mem} (h : mem m) : Changes s mem disk .mem { s with mem := m }
  | disk {k : Disk} (h : disk k) : Changes s mem disk .disk { s with disk := k }
  | dev (v : Dev) : Changes s mem disk .dev { s with dev := v }
  | other (o : Ops X) (ext : X) : Changes s mem disk (.other o) { s with ext := ext }

section

variable {dr : Driver X}

theorem Driver.open_changes (h : dr.open s path flags = some (r, s')) :
    dr.Changes s (fun m => memVfsOpen s.mem path flags = some (r, m))
      (fun k => diskVfsOpen s.disk path flags = some (r, k)) s' := by
  cases dr with
  | mem =>
    obtain ⟨p, hopen, heq⟩ := map_eq_some_iff.1 h
    cases heq
    exact .mem hopen
  | disk =>
    obtain ⟨p, hopen, heq⟩ := map_eq_some_iff.1 h
    cases heq
    exact .disk hopen
  | dev =>
    cases h
    exact .dev s.dev
  | other o =>
    simp only [Driver.open] at h
    split at h
    · cases h
      exact .other o s.ext
    · cases h
      exact .other o _

theorem Driver.close_changes (h : dr.close s d = some s') :
    dr.Changes s (fun m => memVfsClose s.mem d = m) (fun k => diskVfsClose s.disk d = some k) s' := by
  cases dr with
  | mem =>
    cases h
    exact .mem rfl
  | disk =>
    obtain ⟨k, hclo, rfl⟩ := map_eq_some_iff.1 h
    exact .disk hclo
  | dev =>
    cases h
    exact .dev s.dev
  | other o =>
    simp only [Driver.close] at h
    split at h
    · cases h
      exact .other o s.ext
    · cases h
      exact .other o _

theorem Driver.read_changes (h : dr.read s d buf len = some (r, buf', s')) :
    dr.Changes s (fun m => memVfsRead s.mem d buf len = some (r, buf', m))
      (fun k => diskVfsRead s.disk d buf len = some (r, buf', k)) s' := by
  cases dr with
  | mem =>
    obtain ⟨p, hrd, heq⟩ := map_eq_some_iff.1 h
    cases heq
    exact .mem hrd
  | disk =>
    obtain ⟨p, hrd, heq⟩ := map_eq_some_iff.1 h
    cases heq
    exact .disk hrd
  | dev =>
    obtain ⟨p, -, heq⟩ := map_eq_some_iff.1 h
    cases heq
    exact .dev _
  | other o =>
    simp only [Driver.read] at h
    split at h
    · cases h
      exact .other o s.ext
    · cases h
      exact .other o _

theorem Driver.write_changes (h : dr.write s d buf len = some (r, s')) :
    dr.Changes s (fun m => memVfsWrite s.mem d buf len = some (r, m))
      (fun k => diskVfsWrite s.disk d buf len = some (r, k)) s' := by
  cases dr with
  | mem =>
    obtain ⟨p, hwr, heq⟩ := map_eq_some_iff.1 h
    cases heq
    exact .mem hwr
  | disk =>
    obtain ⟨p, hwr, heq⟩ := map_eq_some_iff.1 h
    cases heq
    exact .disk hwr
  | dev =>
    cases h
    exact .dev _
  | other o =>
    simp only [Driver.write] at h
    split at h
    · cases h
      exact .other o s.ext
    · cases h
      exact .other o _

theorem Driver.unlink_changes (h : dr.unlink s path = (r, s')) :
    dr.Changes s (fun m => m = ⟨s.mem.slots, (Fs.fsDelete s.mem.fs path).2⟩)
      (fun k => (diskVfsUnlink s.disk path).2 = k) s' := by
  cases dr with
  | mem =>
    cases h
    exact .mem rfl
  | disk =>
    cases h
    exact .disk rfl
  | dev =>
    cases h
    exact .dev s.dev
  | other o =>
    simp only [Driver.unlink] at h
    split at h
    · cases h
      exact .other o s.ext
    · cases h
      exact .other o _

/-- `vfs_unlink` finds no mount, or calls its driver. -/
theorem vfsUnlink_cases (h : vfsUnlink s path = some (r, s')) :
    s' = s ∨ ∃ (dr : Driver X) (rest : Name), dr.unlink s rest = (r, s') := by
  unfold vfsUnlink at h
  cases hres : resolve path with
  | none => simp [hres] at h
  | some resolved =>
    simp only [hres] at h
    cases hm : findMount s.mounts resolved with
    | none =>
      simp only [hm] at h
      cases h
      exact .inl rfl
    | some ir =>
      simp only [hm] at h
      obtain ⟨dr, -, heq⟩ := map_eq_some_iff.1 h
      exact .inr ⟨dr, ir.2, heq⟩

end

/-! ## Looking for a file -/

/-- What a look at the files leaves as it is: all but the sector buffer of the volume and the state
of the other drivers. -/
structure Looked (s s' : State X) : Prop where
  fds : s'.fds = s.fds
  mounts : s'.mounts = s.mounts
  mem : s'.mem = s.mem
  slots : s'.disk.slots = s.disk.slots
  fat : ∃ sec, s'.disk.fat = { s.disk.fat with sector := sec }
  dev : s'.dev = s.dev
  pipes : s'.pipes = s.pipes

theorem Looked.refl (s : State X) : Looked s s := ⟨rfl, rfl, rfl, rfl, ⟨s.disk.fat.sector, rfl⟩, rfl, rfl⟩

theorem Looked.trans {s'' : State X} (h : Looked s s') (h' : Looked s' s'') : Looked s s'' := by
  obtain ⟨sec, hsec⟩ := h.fat
  obtain ⟨sec', hsec'⟩ := h'.fat
  refine ⟨h'.fds.trans h.fds, h'.mounts.trans h.mounts, h'.mem.trans h.mem, h'.slots.trans h.slots,
    ⟨sec', ?_⟩, h'.dev.trans h.dev, h'.pipes.trans h.pipes⟩
  rw [hsec', hsec]

theorem Driver.stat_looked {st : Option Stat} (h : dr.stat s path = some (st, s')) : Looked s s' := by
  cases dr with
  | mem =>
    cases h
    exact .refl s
  | disk =>
    cases h
    unfold diskVfsStat
    split
    · exact ⟨rfl, rfl, rfl, rfl, ⟨s.disk.fat.sector, rfl⟩, rfl, rfl⟩
    · exact ⟨rfl, rfl, rfl, rfl, Fat12.fat12List_state s.disk.fat 64, rfl, rfl⟩
  | dev =>
    obtain ⟨st', -, hst⟩ := map_eq_some_iff.1 h
    cases hst
    exact .refl s
  | other o =>
    unfold Driver.stat at h
    cases hf : o.statFn with
    | none =>
      simp only [hf] at h
      cases h
      exact .refl s
    | some f =>
      simp only [hf] at h
      cases h
      exact ⟨rfl, rfl, rfl, rfl, ⟨_, rfl⟩, rfl, rfl⟩

theorem probe_looked {b : Bool} (h : probe s found flags = some (b, s')) : Looked s s' := by
  unfold probe at h
  cases found with
  | none =>
    cases h
    exact .refl s
  | some m =>
    obtain ⟨i, rest⟩ := m
    cases hdr : s.driver i with
    | none => simp [hdr] at h
    | some dr =>
      simp only [hdr] at h
      split at h
      · cases hst : dr.stat s rest with
        | none => simp [hst] at h
        | some r =>
          simp only [hst] at h
          cases h
          exact dr.stat_looked hst
      · cases h
        exact .refl s

theorem lookInMem_looked {m : Option (Nat × Name)} (h : lookInMem s path found = some (m, s')) : Looked s s' := by
  unfold lookInMem at h
  cases hfit : fits (memPath ++ 47 :: skipSlash (cstr path)) with
  | none => simp [hfit] at h
  | some p =>
    simp only [hfit] at h
    cases hm : findMount s.mounts p with
    | none =>
      simp only [hm] at h
      cases h
      exact .refl s
    | some ir =>
      obtain ⟨i, rest⟩ := ir
      simp only [hm] at h
      cases hdr : s.driver i with
      | none => simp [hdr] at h
      | some dr =>
        simp only [hdr] at h
        split at h
        · cases hst : dr.stat s rest with
          | none => simp [hst] at h
          | some r =>
            obtain ⟨st, s1⟩ := r
            have hlk := dr.stat_looked hst
            cases st with
            | none | some st =>
              simp only [hst] at h
              cases h
              exact hlk
        · cases h
          exact .refl s

theorem select_looked {m : Option (Nat × Name)} (h : select s path flags = some (m, s')) : Looked s s' := by
  unfold select at h
  cases hres : resolve path with
  | none => simp [hres] at h
  | some resolved =>
    simp only [hres] at h
    cases hprobe : probe s (findMount s.mounts resolved) flags with
    | none => simp [hprobe] at h
    | some r =>
      obtain ⟨b, s1⟩ := r
      have hlk := probe_looked hprobe
      cases b with
      | true =>
        simp only [hprobe] at h
        exact hlk.trans (lookInMem_looked h)
      | false =>
        simp only [hprobe] at h
        cases h
        exact hlk

/-! ## Opening -/

/-- The ways a `vfs_open` can end, with the state in which its driver is called and the one the
driver leaves. -/
theorem vfsOpen_cases (h : vfsOpen s path flags = some (r, s')) :
    ∃ m s1, select s path flags = some (m, s1) ∧ Looked s s1 ∧
      (m = none ∧ r = -1 ∧ s' = s1 ∨
        ∃ midx rest dr data s2, m = some (midx, rest) ∧ s1.driver midx = some dr ∧
          dr.open s1 rest flags = some (data, s2) ∧
          (data < 0 ∧ r = -1 ∧ s' = s2 ∨
            0 ≤ data ∧ finishOpen s2 midx dr flags data = some (r, s'))) := by
  unfold vfsOpen at h
  cases hsel : select s path flags with
  | none => simp [hsel] at h
  | some ms =>
    obtain ⟨m, s1⟩ := ms
    refine ⟨m, s1, rfl, select_looked hsel, ?_⟩
    cases m with
    | none =>
      simp only [hsel] at h
      cases h
      exact .inl ⟨rfl, rfl, rfl⟩
    | some mr =>
      obtain ⟨midx, rest⟩ := mr
      simp only [hsel] at h
      cases hdr : s1.driver midx with
      | none => simp [hdr] at h
      | some dr =>
        simp only [hdr] at h
        cases hopen : dr.open s1 rest flags with
        | none => simp [hopen] at h
        | some ds =>
          obtain ⟨data, s2⟩ := ds
          simp only [hopen] at h
          refine .inr ⟨midx, rest, dr, data, s2, rfl, hdr, hopen, ?_⟩
          split at h
          · rename_i hneg
            cases h
            exact .inl ⟨hneg, rfl, rfl⟩
          · rename_i hpos
            exact .inr ⟨Int.not_lt.1 hpos, h⟩

/-- The entry `vfs_open` makes. -/
def openedFd (e : Fd) (midx : Nat) (flags : Flags) (data : Int) : Fd :=
  { e with
    used := true
    flags := flags
    pos := 0
    type := .file
    mountIdx := midx
    fdData := data
    pipeId := -1 }

theorem finishOpen_cases {midx : Nat} {data : Int} (h : finishOpen s midx dr flags data = some (r, s')) :
    (allocFd s = none ∧ r = -1 ∧ dr.close s data = some s') ∨
    ∃ fd, allocFd s = some fd ∧ r = fd ∧
      s' = s.setFd fd (openedFd (s.fds fd) midx flags data) := by
  unfold finishOpen at h
  cases hfd : allocFd s with
  | none =>
    simp only [hfd] at h
    split at h
    · obtain ⟨s1, hclo, heq⟩ := map_eq_some_iff.1 h
      cases heq
      exact .inl ⟨rfl, rfl, hclo⟩
    · cases h
  | some fd =>
    simp only [hfd] at h
    cases h
    exact .inr ⟨fd, rfl, rfl, rfl⟩

/-! ## Slots of the drivers -/

theorem freeSlot_of_find {used : Nat → Bool} {d : Nat}
    (h : ((List.range n).find? fun d => !used d) = some d) : d < n ∧ used d = false := by
  have hmem := List.mem_of_find?_eq_some h
  have hfr := List.find?_some h
  exact ⟨List.mem_range.1 hmem, by simpa using hfr⟩

/-- The ways a `mem_vfs_open` can end, with the files after each of its steps. -/
theorem memVfsOpen_cases (h : memVfsOpen m path flags = some (r, m')) :
    ∃ i fs, memTarget m.fs path flags = some (i, fs) ∧
      (i = none ∧ r = -1 ∧ m' = { m with fs := fs } ∨
        ∃ f fs', i = some f ∧ memTruncate fs path flags = some fs' ∧
          (r = -1 ∧ m' = { m with fs := fs' } ∨
            ∃ d : Nat, memFreeSlot m = some d ∧ r = d ∧
              m' = ⟨update m.slots d ⟨f, if flags.append then (fs'.files f).size else 0, true⟩, fs'⟩)) := by
  unfold memVfsOpen at h
  cases htarget : memTarget m.fs path flags with
  | none => simp [htarget] at h
  | some t =>
    obtain ⟨i, fs⟩ := t
    refine ⟨i, fs, rfl, ?_⟩
    cases i with
    | none =>
      simp only [htarget] at h
      cases h
      exact .inl ⟨rfl, rfl, rfl⟩
    | some f =>
      simp only [htarget] at h
      cases htr : memTruncate fs path flags with
      | none => simp [htr] at h
      | some fs' =>
        refine .inr ⟨f, fs', rfl, rfl, ?_⟩
        simp only [htr] at h
        cases hsl : memFreeSlot m with
        | none =>
          simp only [hsl] at h
          cases h
          exact .inl ⟨rfl, rfl⟩
        | some d =>
          simp only [hsl] at h
          cases h
          exact .inr ⟨d, rfl, rfl, rfl⟩

/-- Opening takes a free slot of the table, or none. -/
def TakesSlot {S : Type} (used : S → Bool) (n : Nat) (slots slots' : Nat → S) (r : Int) : Prop :=
  (r = -1 ∧ slots' = slots) ∨
    ∃ (d : Nat) (sl : S), r = d ∧ d < n ∧ used (slots d) = false ∧ used sl = true ∧
      slots' = update slots d sl

theorem TakesSlot.kept {used : S → Bool} {d : Nat} {slots slots' : Nat → S} (h : TakesSlot used n slots slots' r)
    (hd : used (slots d) = true) : slots' d = slots d := by
  rcases h with ⟨-, rfl⟩ | ⟨e, sl, -, -, hfr, -, rfl⟩
  · rfl
  refine update_of_ne ?_ _ _
  rintro rfl
  rw [hfr] at hd
  cases hd

theorem TakesSlot.taken {used : S → Bool} {slots slots' : Nat → S} (h : TakesSlot used n slots slots' r)
    (hr : 0 ≤ r) : ∃ d : Nat, r = d ∧ d < n ∧ used (slots d) = false ∧ used (slots' d) = true := by
  rcases h with ⟨rfl, -⟩ | ⟨d, sl, rfl, hd, hfr, hus, rfl⟩
  · omega
  · exact ⟨d, rfl, hd, hfr, by rw [update_self]; exact hus⟩

theorem memVfsOpen_slots (h : memVfsOpen m path flags = some (r, m')) :
    TakesSlot MemSlot.used 16 m.slots m'.slots r := by
  obtain ⟨i, fs, -, ⟨-, rfl, rfl⟩ | ⟨f, fs', -, -, ⟨rfl, rfl⟩ | ⟨d, hsl, rfl, rfl⟩⟩⟩ := memVfsOpen_cases h
  · exact .inl ⟨rfl, rfl⟩
  · exact .inl ⟨rfl, rfl⟩
  · obtain ⟨hd, hfr⟩ := freeSlot_of_find hsl
    exact .inr ⟨d, _, rfl, hd, hfr, rfl, rfl⟩

/-- `disk_vfs_open` takes a free slot for what it has read, or fails. -/
theorem diskVfsOpen_cases (h : diskVfsOpen k path flags = some (r, k')) :
    r = -1 ∧ k'.slots = k.slots ∨ ∃ d buf n, diskFreeSlot k = some d ∧ r = d ∧ n ≤ 4096 ∧
      k'.slots = update k.slots d (openedSlot path flags buf n) := by
  unfold diskVfsOpen at h
  split at h
  · cases h
    exact .inl ⟨rfl, rfl⟩
  cases hsl : diskFreeSlot k with
  | none =>
    simp only [hsl] at h
    cases h
    exact .inl ⟨rfl, rfl⟩
  | some d =>
    simp only [hsl] at h
    cases hrd : Fat12.fat12Read k.fat (diskName path) 4096 with
    | none => simp [hrd] at h
    | some r' =>
      obtain ⟨n, out, fat⟩ := r'
      simp only [hrd] at h
      split at h
      · split at h
        · cases hwr : Fat12.fat12Write fat (diskName path) (fun _ => 0) 0 with
          | none => simp [hwr] at h
          | some w =>
            simp only [hwr] at h
            cases h
            exact .inr ⟨d, _, 0, rfl, rfl, Nat.zero_le _, rfl⟩
        · cases h
          exact .inl ⟨rfl, rfl⟩
      · cases h
        exact .inr ⟨d, _, _, rfl, rfl, Fat12.fat12Read_le hrd, rfl⟩

theorem diskVfsOpen_slots (h : diskVfsOpen k path flags = some (r, k')) :
    TakesSlot DiskSlot.used 8 k.slots k'.slots r := by
  refine (diskVfsOpen_cases h).imp_right ?_
  rintro ⟨d, buf, n, hsl, hr, -, hss⟩
  obtain ⟨hd, hfr⟩ := freeSlot_of_find hsl
  exact ⟨d, _, hr, hd, hfr, rfl, hss⟩

theorem memVfsRead_cases (h : memVfsRead m d buf len = some (r, buf', m')) :
    m' = m ∨ ∃ i pos, slotOf m.used 16 d = some i ∧
      m' = ⟨update m.slots i { m.slots i with pos := pos }, m.fs⟩ := by
  unfold memVfsRead at h
  split at h
  · cases h
    exact .inl rfl
  rename_i i hd
  simp only at h
  split at h
  · cases h
  · cases h
    exact .inr ⟨i, _, hd, rfl⟩

theorem diskVfsRead_cases (h : diskVfsRead k d buf len = some (r, buf', k')) :
    k' = k ∨ ∃ i sl, slotOf k.used 8 d = some i ∧ k' = ⟨update k.slots i sl, k.fat⟩ := by
  unfold diskVfsRead at h
  split at h
  · cases h
    exact .inl rfl
  rename_i i hd
  simp only at h
  split at h
  · cases h
  · cases h
    exact .inr ⟨i, _, hd, rfl⟩

/-- What is written to `/disk` stays in the slot, and within its buffer, until it is closed. -/
theorem diskVfsWrite_moves (h : diskVfsWrite k d buf len = some (r, k')) : k' = k ∨ ∃ i n, slotOf k.used 8 d = some i ∧
    (0 < n → (k.slots i).pos + n ≤ 4096) ∧ k' = ⟨update k.slots i ((k.slots i).put buf n), k.fat⟩ := by
  unfold diskVfsWrite at h
  split at h
  · cases h
    exact .inl rfl
  rename_i i hd
  simp only at h
  generalize (if 4096 ≤ u32 ((k.slots i).pos + len) then u32 (4096 + 2 ^ 32 - (k.slots i).pos - 1)
    else len) = n at h
  split at h
  · cases h
  · cases h
    exact .inr ⟨i, n, hd, by omega, rfl⟩

/-- `disk_vfs_close` writes the file back, or not, and releases the slot. -/
theorem diskVfsClose_cases (h : diskVfsClose k d = some k') : slotOf k.used 8 d = none ∧ k' = k ∨
    ∃ i fat, slotOf k.used 8 d = some i ∧ k' = k.release i fat ∧ (fat = k.fat ∨ ∃ r, Fat12.fat12Write k.fat
      (k.slots i).name (k.slots i).buf (UInt32.ofNat (k.slots i).size) = some (r, fat)) := by
  unfold diskVfsClose at h
  cases hd : slotOf k.used 8 d with
  | none =>
    simp only [hd] at h
    exact .inl ⟨rfl, (Option.some.inj h).symm⟩
  | some i =>
    simp only [hd] at h
    split at h
    · obtain ⟨⟨r, fat⟩, hwr, rfl⟩ := map_eq_some_iff.1 h
      exact .inr ⟨i, fat, rfl, rfl, .inr ⟨r, hwr⟩⟩
    · exact .inr ⟨i, k.fat, rfl, (Option.some.inj h).symm, .inl rfl⟩

/-! ## Calls on a descriptor -/

theorem vfsClose_cases (h : vfsClose s fd = some (r, s')) : s.fdOf fd = none ∧ s' = s ∨ ∃ k, s.fdOf fd = some k ∧
    (((s.fds k).type = .pipe ∨ s.driver (s.fds k).mountIdx = none) ∧
        (∃ pipes, s' = { s with pipes := pipes }.setFd k { s.fds k with used := false }) ∨
      ∃ dr s1, (s.fds k).type ≠ .pipe ∧ s.driver (s.fds k).mountIdx = some dr ∧
        dr.close s (s.fds k).fdData = some s1 ∧ s' = s1.setFd k { s.fds k with used := false }) := by
  unfold vfsClose at h
  cases hk : s.fdOf fd with
  | none =>
    simp only [hk] at h
    cases h
    exact .inl ⟨rfl, rfl⟩
  | some k =>
    simp only [hk] at h
    refine .inr ⟨k, rfl, ?_⟩
    split at h
    · rename_i hpp
      cases h
      exact .inl ⟨.inl hpp, _, rfl⟩
    rename_i hpp
    cases hdr : s.driver (s.fds k).mountIdx with
    | none =>
      simp only [hdr] at h
      cases h
      exact .inl ⟨.inr rfl, s.pipes, rfl⟩
    | some dr =>
      simp only [hdr] at h
      obtain ⟨s1, hclo, heq⟩ := map_eq_some_iff.1 h
      cases heq
      exact .inr ⟨dr, s1, hpp, rfl, hclo, rfl⟩

/-- A read that does not come to a driver changes the pipes at most. -/
theorem vfsRead_cases {len : UInt32} (h : vfsRead s fd buf len = some (r, buf', s')) :
    (∃ pipes, s' = { s with pipes := pipes }) ∨
      ∃ k dr s1, s.fdOf fd = some k ∧ (s.fds k).type ≠ .pipe ∧ s.driver (s.fds k).mountIdx = some dr ∧
        dr.read s (s.fds k).fdData buf len.toNat = some (r, buf', s1) ∧ s' = s1.advance k r := by
  unfold vfsRead at h
  cases hk : s.fdOf fd with
  | none =>
    simp only [hk] at h
    cases h
    exact .inl ⟨s.pipes, rfl⟩
  | some k =>
    simp only [hk] at h
    split at h
    · obtain ⟨p, -, heq⟩ := map_eq_some_iff.1 h
      cases heq
      exact .inl ⟨_, rfl⟩
    rename_i hpp
    cases hdr : s.driver (s.fds k).mountIdx with
    | none =>
      simp only [hdr] at h
      cases h
      exact .inl ⟨s.pipes, rfl⟩
    | some dr =>
      simp only [hdr] at h
      obtain ⟨⟨n, b, s1⟩, hrd, heq⟩ := map_eq_some_iff.1 h
      cases heq
      exact .inr ⟨k, dr, s1, rfl, hpp, hdr, hrd, rfl⟩

theorem vfsWrite_cases {len : UInt32} (h : vfsWrite s fd buf len = some (r, s')) :
    (∀ k, s.fdOf fd = some k → (s.fds k).type = .pipe ∨ s.driver (s.fds k).mountIdx = none) ∧
        (∃ pipes, s' = { s with pipes := pipes }) ∨
      ∃ k dr s1, s.fdOf fd = some k ∧ (s.fds k).type ≠ .pipe ∧ s.driver (s.fds k).mountIdx = some dr ∧
        dr.write s (s.fds k).fdData buf len.toNat = some (r, s1) ∧ s' = s1.advance k r := by
  unfold vfsWrite at h
  cases hk : s.fdOf fd with
  | none =>
    simp only [hk] at h
    cases h
    refine .inl ⟨?_, s.pipes, rfl⟩
    rintro _ ⟨⟩
  | some k =>
    simp only [hk] at h
    split at h
    · rename_i hpp
      obtain ⟨p, -, heq⟩ := map_eq_some_iff.1 h
      cases heq
      refine .inl ⟨?_, _, rfl⟩
      rintro _ ⟨⟩
      exact .inl hpp
    rename_i hpp
    cases hdr : s.driver (s.fds k).mountIdx with
    | none =>
      simp only [hdr] at h
      cases h
      refine .inl ⟨?_, s.pipes, rfl⟩
      rintro _ ⟨⟩
      exact .inr hdr
    | some dr =>
      simp only [hdr] at h
      obtain ⟨⟨n, s1⟩, hwr, heq⟩ := map_eq_some_iff.1 h
      cases heq
      exact .inr ⟨k, dr, s1, rfl, hpp, hdr, hwr, rfl⟩

end KumOS.Vfs
