import KumOS.Vfs.DiskReads

/-!
# Which calls change the files

For opens without `O_CREAT` and `O_TRUNC`, for reads, writes and closes: the exact
condition under which the call leaves the contents of all files as they were.
`vfs_write` does not look at the flags of its descriptor, and `disk_vfs_close` writes
back whatever a writable slot holds.
-/

namespace KumOS.Vfs

open Lib
open Fat12 (Name Files Stores nameTo83 fat12Write readAnswer)
open Fs (fsFind freeFile lookup stored Put Wf)
open Function (update update_self update_eq_self)

variable {X : Type}
variable {s s' : State X} {d drive fd r : Int} {files : Files} {i : Nat} {buf : Bytes}
  {mounts : List (Mount X)} {flags : Flags} {name path : Name} {fat fat' : Fat12.State}
  {len : UInt32}
variable {fs : Fs.State} {drive' : Int} {k : Disk} {dr : Driver X}

/-- All files of `/mem` and of the volume have the contents they had. -/
structure Unchanged (s s' : State X) : Prop where
  mem : ∀ name, lookup s'.mem.fs name = lookup s.mem.fs name
  disk : ∀ name bufsz, readAnswer s'.disk.fat name bufsz = readAnswer s.disk.fat name bufsz

theorem unchanged_of_eq (hfs : s'.mem.fs = s.mem.fs) (hfat : s'.disk.fat = s.disk.fat) : Unchanged s s' := by
  refine ⟨fun name => ?_, fun name bufsz => ?_⟩
  · rw [hfs]
  · rw [hfat]

theorem Unchanged.trans {s'' : State X} (h : Unchanged s s') (h' : Unchanged s' s'') : Unchanged s s'' :=
  ⟨fun name => (h'.mem name).trans (h.mem name),
    fun name bufsz => (h'.disk name bufsz).trans (h.disk name bufsz)⟩

theorem Unchanged.symm (h : Unchanged s s') : Unchanged s' s :=
  ⟨fun name => (h.mem name).symm, fun name bufsz => (h.disk name bufsz).symm⟩

/-! ## The files as maps -/

/-- Putting a text under a name changes nothing just if it was there. -/
theorem lookup_put_iff {fs' : Fs.State} (hw : Wf fs) {data : Name} (h : Put fs name data i fs') :
    (∀ other, lookup fs' other = lookup fs other) ↔ lookup fs name = some (stored data) := by
  constructor
  · intro hsm
    rw [← hsm name, h.lookup hw, if_pos rfl]
  · intro hold other
    rw [h.lookup hw]
    split
    · rename_i hnm
      rw [Fs.lookup, Fs.fsFind_congr hnm hw, ← Fs.lookup, hold]
    · rfl

/-- What `fat12_read` answers determines the file. -/
theorem readAnswer_eq_iff {files' : Files} (hS : Stores drive fat files) (hS' : Stores drive' fat' files')
    (name : Name) :
    (∀ bufsz, readAnswer fat' name bufsz = readAnswer fat name bufsz) ↔
      files' (nameTo83 name) = files (nameTo83 name) := by
  constructor
  · intro h
    cases hold : files (nameTo83 name) with
    | some data =>
      rw [← contains_iff hS']
      intro bufsz
      rw [h bufsz, hS.readAnswer_eq, hold]
    | none =>
      cases hnew : files' (nameTo83 name) with
      | none => rfl
      | some data =>
        have hcn : Contains fat name data := by
          intro bufsz
          rw [← h bufsz, hS'.readAnswer_eq, hnew]
        rw [contains_iff hS, hold] at hcn
        cases hcn
  · intro h bufsz
    rw [hS.readAnswer_eq, hS'.readAnswer_eq, h]

/-- Replacing one file of a volume changes nothing just if it was the same. -/
theorem readAnswer_update_iff (hS : Stores drive fat files) {file : Option (List UInt8)}
    (hS' : Stores drive' fat' (update files (nameTo83 name) file)) :
    (∀ other bufsz, readAnswer fat' other bufsz = readAnswer fat other bufsz) ↔ files (nameTo83 name) = file := by
  constructor
  · intro h
    have hsm := (readAnswer_eq_iff hS hS' name).1 (h name)
    rw [update_self] at hsm
    exact hsm.symm
  · intro h other
    rw [readAnswer_eq_iff hS hS' other, ← h, update_eq_self]

theorem Looked.unchanged (h : Looked s s') (hv : HasFiles s.disk.fat) : Unchanged s s' := by
  obtain ⟨drive, files, hS⟩ := hv
  refine ⟨fun name => ?_, fun name => ?_⟩
  · rw [h.mem]
  · rw [readAnswer_eq_iff hS (h.stores hS)]

/-! ## Reading -/

theorem vfsRead_unchanged {buf' : Bytes} (h : vfsRead s fd buf len = some (r, buf', s')) : Unchanged s s' := by
  rcases vfsRead_cases h with ⟨pipes, rfl⟩ | ⟨k, dr, s1, -, -, -, hrd, rfl⟩
  · exact unchanged_of_eq rfl rfl
  obtain ⟨hfs, hfat⟩ := dr.read_files hrd
  obtain ⟨hmem, hdk⟩ := advance_files s1 k r
  apply unchanged_of_eq
  · rw [hmem, hfs]
  · rw [hdk, hfat]

/-! ## Writing -/

/-- The text a write to slot `i` of `/mem` puts under the name of its file. -/
def memText (m : Mem) (i : Nat) (buf : Bytes) (len : UInt32) : Name :=
  (m.file i).data.toList (keepLen m i) ++ buf.toList len.toNat

/-- A write to slot `i` of `/mem` that changes the files. -/
def MemChanges (m : Mem) (i : Nat) (buf : Bytes) (len : UInt32) : Prop :=
  keepLen m i + len.toNat < 4095 ∧
    (fsFind m.fs (m.file i).name ≠ none ∨ freeFile m.fs ≠ none) ∧
    lookup m.fs (m.file i).name ≠ some (stored (memText m i buf len))

/-- A `vfs_write` that changes the files: through a slot of `/mem`. -/
def WriteChanges (s : State X) (fd : Int) (buf : Bytes) (len : UInt32) : Prop :=
  ∃ k d i, s.fdOf fd = some k ∧ s.ref (s.fds k) = .mem d ∧ slotOf s.mem.used 16 d = some i ∧
    MemChanges s.mem i buf len

theorem memVfsWrite_unchanged_iff {m m' : Mem} (hw : Wf m.fs) (hd : slotOf m.used 16 d = some i)
    (h : memVfsWrite m d buf len.toNat = some (r, m')) :
    (∀ name, lookup m'.fs name = lookup m.fs name) ↔ ¬ MemChanges m i buf len := by
  rcases memVfsWrite_cases hd h with ⟨hge, -, rfl⟩ | ⟨hlt, -, w, fs, hwr, rfl⟩
  · refine iff_of_true (fun _ => rfl) fun hcg => hge ?_
    have := hcg.1
    unfold u32
    omega
  rcases Fs.fsWrite_spec hw hwr with ⟨-, rfl, hnn, hfu⟩ | ⟨-, j, hput⟩
  · refine iff_of_true (fun _ => rfl) fun hcg => ?_
    rcases hcg.2.1 with hfo | hfr
    · exact hfo hnn
    · exact hfr hfu
  rw [lookup_put_iff hw hput]
  have hrm : fsFind m.fs (m.file i).name ≠ none ∨ freeFile m.fs ≠ none := by
    rcases hput.slot with hfo | ⟨-, hunused⟩
    · rw [hfo]
      exact .inl nofun
    · refine .inr fun hfu => ?_
      have hno := List.find?_eq_none.1 hfu _ (List.mem_range.2 hput.lt)
      simp [hunused] at hno
  constructor
  · intro hsm hcg
    exact hcg.2.2 hsm
  · intro hno
    by_contra hne
    exact hno ⟨hlt, hrm, hne⟩

theorem vfsWrite_unchanged_iff (hw : Wf s.mem.fs) (h : vfsWrite s fd buf len = some (r, s')) :
    Unchanged s s' ↔ ¬ WriteChanges s fd buf len := by
  rcases vfsWrite_cases h with ⟨hno, pipes, rfl⟩ | ⟨k, dr, s1, hk, hpp, hdr, hwr, rfl⟩
  · refine iff_of_true (unchanged_of_eq rfl rfl) ?_
    rintro ⟨k, d, i, hk, href, -⟩
    rw [State.ref_of_undriven (hno k hk)] at href
    cases href
  -- the descriptor the condition speaks of is this one
  have hot : (∀ d, s.ref (s.fds k) ≠ .mem d) → ¬ WriteChanges s fd buf len := by
    rintro hne ⟨k', d, i, hk', href, -⟩
    rw [hk] at hk'
    cases hk'
    exact hne d href
  have hsm : Unchanged s (s1.advance k r) ↔ Unchanged s s1 := by
    unfold State.advance
    split
    · exact ⟨fun hu => ⟨hu.mem, hu.disk⟩, fun hu => ⟨hu.mem, hu.disk⟩⟩
    · rfl
  have href := State.ref_of_driver hdr hpp
  rw [hsm]
  by_cases hne : dr = .mem
  · subst hne
    obtain ⟨⟨r', m⟩, hmem, heq⟩ := Option.map_eq_some_iff.1 hwr
    cases heq
    cases hd : slotOf s.mem.used 16 (s.fds k).fdData with
    | none =>
      unfold memVfsWrite at hmem
      simp only [hd] at hmem
      cases hmem
      refine iff_of_true (unchanged_of_eq rfl rfl) ?_
      rintro ⟨k', d, i, hk', href', hi, -⟩
      rw [hk] at hk'
      cases hk'
      rw [href] at href'
      cases href'
      rw [hd] at hi
      cases hi
    | some i =>
      have hiff := memVfsWrite_unchanged_iff hw hd hmem
      constructor
      · rintro hu ⟨k', d, j, hk', href', hj, hcg⟩
        rw [hk] at hk'
        cases hk'
        rw [href] at href'
        cases href'
        rw [hd] at hj
        cases hj
        exact hiff.1 hu.mem hcg
      · intro hno
        refine ⟨hiff.2 fun hcg => hno ⟨k, _, i, hk, href, hd, hcg⟩, fun _ _ => rfl⟩
  · obtain ⟨hfs, hfat⟩ := Driver.write_files hne hwr
    refine iff_of_true (unchanged_of_eq hfs hfat) (hot fun d => ?_)
    rw [href]
    exact Driver.refOf_ne_mem hne _ d

/-! ## Closing -/

/-- A close of slot `i` of `/disk` that changes the volume: the slot is written back, and is not what
the file is.  Where there is no such file it takes clusters and a root entry for it, and a name that does
not begin like a free entry. -/
def DiskChanges (k : Disk) (i : Nat) : Prop :=
  ((k.slots i).writable = true ∧ 0 < (k.slots i).size) ∧
    ¬ Contains k.fat (k.slots i).name ((k.slots i).buf.toList (k.slots i).size) ∧
    ((∃ old, Contains k.fat (k.slots i).name old) ∨
      (Fat12.view k.fat).HasRoom (k.slots i).size ∧ (nameTo83 (k.slots i).name).headD 0 ≠ Fat12.direntFree)

theorem writeBack_same {sl : DiskSlot} (hS : Stores drive fat files) (hok : SlotOk sl)
    (hold : files (nameTo83 sl.name) = some (sl.buf.toList sl.size)) {w : Int}
    (hwr : Fat12.exec fat sl.writeBack = some (w, fat')) : Contains fat' sl.name (sl.buf.toList sl.size) := by
  have hle : (UInt32.ofNat sl.size).toNat ≤ (sl.buf.toList sl.size).length := by
    rw [Bytes.length_toList]
    exact Nat.le_of_eq hok.toNat_size
  obtain ⟨fat1, hreplace, hS1⟩ := Fat12.fat12Write_replace hS sl.name sl.buf _ hold hle
  have hwrite' : fat12Write fat sl.name sl.buf (UInt32.ofNat sl.size) = some (w, fat') := hwr
  rw [hwrite'] at hreplace
  cases hreplace
  rw [contains_iff hS1, update_self, hok.toNat_size]

theorem diskVfsClose_unchanged_iff {k' : Disk} (hS : Stores drive k.fat files) (hd : slotOf k.used 8 d = some i)
    (hok : SlotOk (k.slots i)) (h : diskVfsClose k d = some k') :
    (∀ name bufsz, readAnswer k'.fat name bufsz = readAnswer k.fat name bufsz) ↔ ¬ DiskChanges k i := by
  obtain ⟨fat, hsc, hcs⟩ := diskVfsClose_spec hS hd
  rw [h] at hsc
  cases hsc
  rcases hcs with ⟨hno, rfl⟩ | ⟨hbk, w, hwr, hS'⟩
  · exact iff_of_true (fun _ _ => rfl) fun hcg => hno hcg.1
  have hfl := readAnswer_update_iff hS hS'
  rw [hok.toNat_size] at hfl
  show (∀ name bufsz, readAnswer fat name bufsz = readAnswer k.fat name bufsz) ↔ _
  rw [hfl]
  generalize hda : (k.slots i).buf.toList (k.slots i).size = data
  cases hold : files (nameTo83 (k.slots i).name) with
  | some old =>
    by_cases hsm : old = data
    · -- the write-back of the same bytes succeeds
      subst hsm
      have hcn := writeBack_same hS hok (hold.trans (congrArg some hda.symm)) hwr
      rw [contains_iff hS', hda] at hcn
      simp only [DiskSlot.writeBack, Files.after, update_self, hok.toNat_size, hda] at hcn
      refine iff_of_true hcn.symm fun hcg => hcg.2.1 ?_
      rw [contains_iff hS, hold, hda]
    refine iff_of_false ?_ fun hno => hno ⟨hbk, ?_, .inl ⟨old, (contains_iff hS _ _).2 hold⟩⟩
    · unfold Fat12.written
      split
      · split
        · intro heq
          cases heq
        · exact fun heq => hsm (Option.some.inj heq)
      · intro heq
        cases heq
    · rw [contains_iff hS, hold, hda]
      exact fun heq => hsm (Option.some.inj heq)
  | none =>
    have hnn : ∀ old, ¬ Contains k.fat (k.slots i).name old := by
      intro old hc
      rw [contains_iff hS, hold] at hc
      cases hc
    have hroom := Fat12.fat12Write_new_iff hS hold (k.slots i).buf (UInt32.ofNat (k.slots i).size)
    rw [hok.toNat_size] at hroom
    constructor
    · rintro hem ⟨-, -, ⟨old, hc⟩ | ⟨hfits, hhd⟩⟩
      · exact hnn old hc
      · obtain ⟨fat', hwrite'⟩ := hroom.2 hfits
        obtain ⟨rfl, -⟩ := Prod.mk.inj (Option.some.inj (hwrite'.symm.trans hwr))
        rw [if_pos rfl, Fat12.written, if_neg hhd] at hem
        cases hem
    · intro hno
      unfold Fat12.written
      split
      · rename_i hw
        split
        · rfl
        · rename_i hhd
          subst hw
          exact absurd ⟨hbk, hnn _, .inr ⟨hroom.1 ⟨fat, hwr⟩, hhd⟩⟩ hno
      · rfl

/-- A `vfs_close` that changes the files: of a slot of `/disk`. -/
def CloseChanges (s : State X) (fd : Int) : Prop :=
  ∃ k d i, s.fdOf fd = some k ∧ s.ref (s.fds k) = .disk d ∧ slotOf s.disk.used 8 d = some i ∧
    DiskChanges s.disk i

/-- The other drivers do not touch the files when they close. -/
theorem Driver.close_unchanged (hne : dr ≠ .disk) (h : dr.close s d = some s') :
    s'.mem.fs = s.mem.fs ∧ s'.disk.fat = s.disk.fat := by
  refine ⟨dr.close_fs h, ?_⟩
  cases dr.close_changes h with
  | mem _ => rfl
  | disk _ => exact absurd rfl hne
  | dev v => rfl
  | other o ext => rfl

/-- The driver of `/disk`, by the slot that is closed. -/
theorem diskClose_unchanged_iff (hs : Sound mounts s) (h : Driver.disk.close s d = some s') :
    Unchanged s s' ↔ ∀ i, slotOf s.disk.used 8 d = some i → ¬ DiskChanges s.disk i := by
  obtain ⟨k, hdk, rfl⟩ := Option.map_eq_some_iff.1 h
  obtain ⟨drive, files, hS⟩ := hs.volume
  cases hd : slotOf s.disk.used 8 d with
  | none =>
    unfold diskVfsClose at hdk
    rw [hd] at hdk
    cases hdk
    exact iff_of_true (unchanged_of_eq rfl rfl) fun i hi => by cases hi
  | some i =>
    have hiff := diskVfsClose_unchanged_iff hS hd (hs.slots i) hdk
    constructor
    · intro hu j hj
      cases hj
      exact hiff.1 hu.disk
    · intro hno
      exact ⟨fun _ => rfl, hiff.2 (hno i rfl)⟩

theorem vfsClose_unchanged_iff (hs : Sound mounts s) (h : vfsClose s fd = some (r, s')) :
    Unchanged s s' ↔ ¬ CloseChanges s fd := by
  rcases vfsClose_cases h with ⟨hnn, rfl⟩ | ⟨k, hk, hcs⟩
  · refine iff_of_true (unchanged_of_eq rfl rfl) ?_
    rintro ⟨k, d, i, hk, -⟩
    rw [hnn] at hk
    cases hk
  have hot : (∀ d, s.ref (s.fds k) ≠ .disk d) → ¬ CloseChanges s fd := by
    rintro hne ⟨k', d, i, hk', href, -⟩
    rw [hk] at hk'
    cases hk'
    exact hne d href
  rcases hcs with ⟨hno, pipes, rfl⟩ | ⟨dr, s1, hpp, hdr, hclo, rfl⟩
  · refine iff_of_true (unchanged_of_eq rfl rfl) (hot fun d hd => ?_)
    rw [State.ref_of_undriven hno] at hd
    cases hd
  have href := State.ref_of_driver hdr hpp
  have hsm : Unchanged s (s1.setFd k { s.fds k with used := false }) ↔ Unchanged s s1 :=
    ⟨fun hu => ⟨hu.mem, hu.disk⟩, fun hu => ⟨hu.mem, hu.disk⟩⟩
  rw [hsm]
  by_cases hne : dr = .disk
  · subst hne
    rw [diskClose_unchanged_iff hs hclo]
    constructor
    · rintro hno ⟨k', d, i, hk', href', hi, hcg⟩
      rw [hk] at hk'
      cases hk'
      rw [href] at href'
      cases href'
      exact hno i hi hcg
    · intro hno i hi hcg
      exact hno ⟨k, _, i, hk, href, hi, hcg⟩
  · obtain ⟨hfs, hfat⟩ := Driver.close_unchanged hne hclo
    refine iff_of_true (unchanged_of_eq hfs hfat) (hot fun d => ?_)
    rw [href]
    cases dr with
    | disk => exact absurd rfl hne
    | _ => exact nofun

/-! ## Opening -/

/-- A `vfs_open` that changes the files: it opens a long file of `/disk` for writing, and finds no
descriptor for it. -/
def OpenChanges (s : State X) (path : Name) (flags : Flags) : Prop :=
  ∃ midx rest s1 data, select s path flags = some (some (midx, rest), s1) ∧
    s.driver midx = some .disk ∧ allocFd s = none ∧ diskFreeSlot s.disk ≠ none ∧
    (flags.wronly || flags.rdwr) = true ∧ Contains s.disk.fat (diskName rest) data ∧ 4096 < data.length

theorem Driver.open_unchanged (hcr : flags.creat = false) (htr : flags.trunc = false) (hne : dr ≠ .disk)
    (h : dr.open s path flags = some (r, s')) : s'.mem.fs = s.mem.fs ∧ s'.disk = s.disk := by
  cases dr.open_changes h with
  | mem hopen => exact ⟨memVfsOpen_fs hcr htr hopen, rfl⟩
  | disk _ => exact absurd rfl hne
  | dev v | other o ext => exact ⟨rfl, rfl⟩

/-- What closing a slot again does that has just been opened. -/
theorem diskChanges_opened {data : List UInt8} (hcr : flags.creat = false) (htr : flags.trunc = false)
    (hfl : files (diskKey path) = some data) (hS : Stores drive k.fat files)
    (hbuf : buf.toList (min data.length 4096) = data.take 4096)
    (hsl : k.slots i = openedSlot path flags buf (min data.length 4096)) :
    DiskChanges k i ↔ (flags.wronly || flags.rdwr) = true ∧ 4096 < data.length := by
  have hwritable : (k.slots i).writable = (flags.wronly || flags.rdwr) := by
    rw [hsl]
    show (flags.wronly || flags.rdwr || flags.creat) = _
    rw [hcr, Bool.or_false]
  have hsz : (k.slots i).size = min data.length 4096 := by
    rw [hsl]
    show (if flags.trunc then 0 else min data.length 4096) = _
    rw [htr]
    rfl
  have hnm : (k.slots i).name = diskName path := by rw [hsl]; rfl
  have hby : (k.slots i).buf.toList (min data.length 4096) = data.take 4096 := by
    rw [hsl]
    exact hbuf
  have hcn : ∀ old, Contains k.fat (diskName path) old ↔ data = old := by
    intro old
    rw [contains_iff hS]
    show files (diskKey path) = some old ↔ data = old
    rw [hfl, Option.some_inj]
  unfold DiskChanges
  rw [hwritable, hsz, hnm, hby, hcn]
  constructor
  · rintro ⟨⟨hw, -⟩, hne, -⟩
    refine ⟨hw, Nat.lt_of_not_le fun hle => hne ?_⟩
    exact (List.take_of_length_le hle).symm
  · rintro ⟨hw, hlong⟩
    refine ⟨⟨hw, by omega⟩, fun heq => ?_, .inl ⟨data, (hcn data).2 rfl⟩⟩
    have hlen := congrArg List.length heq
    rw [List.length_take] at hlen
    omega

/-- An open that goes to the driver of `/disk`. -/
theorem diskOpen_unchanged_iff {s1 s2 : State X} (hs : Sound mounts s) {rest : Name} {midx : Nat}
    (hcr : flags.creat = false) (htr : flags.trunc = false) (hlk : Looked s s1)
    (hopen : Driver.disk.open s1 rest flags = some (d, s2))
    (hend : d < 0 ∧ r = -1 ∧ s' = s2 ∨ 0 ≤ d ∧ finishOpen s2 midx .disk flags d = some (r, s')) :
    Unchanged s s' ↔ ¬ (allocFd s = none ∧ diskFreeSlot s.disk ≠ none ∧
      (flags.wronly || flags.rdwr) = true ∧
      ∃ data, Contains s.disk.fat (diskName rest) data ∧ 4096 < data.length) := by
  obtain ⟨drive, files, hS⟩ := hs.volume
  have hS1 := hlk.stores hS
  have hu1 := hlk.unchanged hs.volume
  have hsound2 := (hs.keeps hlk.keeps).keeps (Driver.open_keeps hopen)
  obtain ⟨⟨r', k⟩, hdk, heq⟩ := Option.map_eq_some_iff.1 hopen
  cases heq
  obtain ⟨r1, k1, hsc, hcs⟩ := diskVfsOpen_spec hS1 rest flags
  rw [hdk] at hsc
  cases hsc
  rcases hcs with ⟨rfl, -, hS2, hwhy⟩ | ⟨i, hi, rfl, hod⟩
  · have hu2 : Unchanged s { s1 with disk := k } :=
      hu1.trans ⟨fun _ => rfl, fun name => (readAnswer_eq_iff hS1 hS2 name).2 rfl⟩
    rcases hend with ⟨-, -, rfl⟩ | ⟨hpos, -⟩
    · refine iff_of_true hu2 ?_
      rintro ⟨-, hsl, -, data, hda, -⟩
      rw [← diskFreeSlot_congr hlk.slots] at hsl
      rw [contains_iff hS] at hda
      rcases hwhy with hfu | ⟨hnn, -⟩
      · exact hsl hfu
      · rw [show files (diskKey rest) = some data from hda] at hnn
        cases hnn
    · omega
  · cases hod with
    | created _ _ _ hc =>
      rw [hcr] at hc
      cases hc
    | found data buf hfl hS2 hbuf hss =>
      have hu2 : Unchanged s { s1 with disk := k } :=
        hu1.trans ⟨fun _ => rfl, fun name => (readAnswer_eq_iff hS1 hS2 name).2 rfl⟩
      have hsl : k.slots i = openedSlot rest flags buf (min data.length 4096) := by
        rw [hss, update_self]
      have hcg := diskChanges_opened hcr htr hfl hS2 hbuf hsl
      rcases hend with ⟨hneg, -⟩ | ⟨-, hfinish⟩
      · omega
      rcases finishOpen_cases hfinish with ⟨hfu, -, hclo⟩ | ⟨fd, hfd, -, rfl⟩
      · have hfull' : allocFd s = none := (allocFd_congr hlk.fds).symm.trans hfu
        have hfr : diskFreeSlot s.disk ≠ none := by
          rw [← diskFreeSlot_congr hlk.slots, hi]
          exact nofun
        have hus : slotOf k.used 8 i = some i := by
          refine slotOf_eq_some_iff.2 ⟨rfl, (diskFreeSlot_spec hi).1, ?_⟩
          show (k.slots i).used = true
          rw [hsl]
          rfl
        have hiff : Unchanged s s' ↔ Unchanged { s1 with disk := k } s' :=
          ⟨hu2.symm.trans, hu2.trans⟩
        rw [hiff, diskClose_unchanged_iff hsound2 hclo]
        constructor
        · rintro hno ⟨-, -, hw, data', hdata', hlong⟩
          rw [contains_iff hS] at hdata'
          obtain rfl : data = data' := Option.some.inj (hfl.symm.trans hdata')
          exact hno i hus (hcg.2 ⟨hw, hlong⟩)
        · intro hno j hj hc
          obtain rfl : i = j := Option.some.inj (hus.symm.trans hj)
          obtain ⟨hw, hlong⟩ := hcg.1 hc
          exact hno ⟨hfull', hfr, hw, data, (contains_iff hS _ _).2 hfl, hlong⟩
      · refine iff_of_true ⟨hu2.mem, hu2.disk⟩ ?_
        rintro ⟨hfu, -⟩
        rw [← allocFd_congr hlk.fds] at hfu
        have hfd' : allocFd s1 = some fd := hfd
        rw [hfu] at hfd'
        cases hfd'

theorem vfsOpen_unchanged_iff (hs : Sound mounts s) (hcr : flags.creat = false)
    (htr : flags.trunc = false) (h : vfsOpen s path flags = some (r, s')) :
    Unchanged s s' ↔ ¬ OpenChanges s path flags := by
  obtain ⟨m, s1, hsel, hlk, hcs⟩ := vfsOpen_cases h
  have hu1 := hlk.unchanged hs.volume
  have hdv : ∀ midx, s1.driver midx = s.driver midx := by
    intro midx
    unfold State.driver
    rw [hlk.mounts]
  rcases hcs with ⟨rfl, -, rfl⟩ | ⟨midx, rest, dr, data, s2, rfl, hdr, hopen, hend⟩
  · refine iff_of_true hu1 ?_
    rintro ⟨midx, rest, s1, data, hsel', -⟩
    rw [hsel] at hsel'
    cases hsel'
  rw [hdv] at hdr
  by_cases hne : dr = .disk
  · subst hne
    rw [diskOpen_unchanged_iff hs hcr htr hlk hopen hend]
    constructor
    · rintro hno ⟨midx', rest', s1', data', hsel', -, hfu, hfr, hw, hda, hlong⟩
      rw [hsel] at hsel'
      cases hsel'
      exact hno ⟨hfu, hfr, hw, data', hda, hlong⟩
    · rintro hno ⟨hfu, hfr, hw, data', hda, hlong⟩
      exact hno ⟨midx, rest, s1, data', hsel, hdr, hfu, hfr, hw, hda, hlong⟩
  obtain ⟨hfs, hdk⟩ := Driver.open_unchanged hcr htr hne hopen
  have hu2 : Unchanged s s2 := hu1.trans (unchanged_of_eq hfs (by rw [hdk]))
  have hno : ¬ OpenChanges s path flags := by
    rintro ⟨midx', rest', s1', data', hsel', hdr', -⟩
    rw [hsel] at hsel'
    cases hsel'
    rw [hdr] at hdr'
    cases hdr'
    exact hne rfl
  refine iff_of_true ?_ hno
  rcases hend with ⟨-, -, rfl⟩ | ⟨-, hfinish⟩
  · exact hu2
  rcases finishOpen_cases hfinish with ⟨-, -, hclo⟩ | ⟨fd, -, -, rfl⟩
  · obtain ⟨hfs', hfat'⟩ := Driver.close_unchanged hne hclo
    exact hu2.trans (unchanged_of_eq hfs' hfat')
  · exact ⟨hu2.mem, hu2.disk⟩

/-! ## The calls together -/

/-- **Files change only by writing, but for three cases**: an open without `O_CREAT` and `O_TRUNC`
changes nothing unless it cuts a long file for want of a descriptor; a read changes nothing; a write
changes nothing unless it is to `/mem`; and a close changes nothing unless it writes back to `/disk`
what the file is not, or no longer is. -/
theorem files_change_iff {extra : List (Mount X)} {s : State X} (hs : Reached extra s) :
    (∀ path flags r s', flags.creat = false → flags.trunc = false →
      vfsOpen s path flags = some (r, s') → (Unchanged s s' ↔ ¬ OpenChanges s path flags)) ∧
    (∀ fd buf len r buf' s', vfsRead s fd buf len = some (r, buf', s') → Unchanged s s') ∧
    (∀ fd buf len r s', vfsWrite s fd buf len = some (r, s') →
      (Unchanged s s' ↔ ¬ WriteChanges s fd buf len)) ∧
    (∀ fd r s', vfsClose s fd = some (r, s') → (Unchanged s s' ↔ ¬ CloseChanges s fd)) := by
  have hsound := hs.sound
  refine ⟨?_, ?_, ?_, ?_⟩
  · intro path flags r s' hcr htr hopen
    exact vfsOpen_unchanged_iff hsound hcr htr hopen
  · intro fd buf len r buf' s' hrd
    exact vfsRead_unchanged hrd
  · intro fd buf len r s' hwr
    exact vfsWrite_unchanged_iff hsound.files hwr
  · intro fd r s' hclo
    exact vfsClose_unchanged_iff hsound hclo

/-- "x" is opened `O_RDONLY`, and "y" is written through the descriptor. -/
theorem text_overwritten : ∃ s s1 s2 : State Unit, Reached [] s ∧ lookup s.mem.fs [97] = some [120] ∧ allocFd s ≠ none ∧
    vfsOpen s (memPath ++ 47 :: [97]) {} = some (3, s1) ∧ lookup s1.mem.fs [97] = some [120] ∧
    vfsWrite s1 3 (fun _ => 121) 1 = some (1, s2) ∧ lookup s2.mem.fs [97] = some [121] := by
  obtain ⟨fat, hfm, -⟩ := Fat12.initial_format
  let s : State Unit := { formattedBoot fat with
    mem := { (formattedBoot fat).mem with fs := ((Fs.fsCreate Fs.cleared [97] [120] 0).get rfl).2 } }
  have hca : CallStep (formattedBoot fat) (.fsCreate [97] [120] 0) s := ⟨0, rfl⟩
  have hs : Reached [] (formattedBoot fat) := .inl (afterFormat_boot hfm)
  exact ⟨s, _, _, hs.step hca, rfl, Option.some_ne_none 3, rfl, rfl, rfl, rfl⟩

/-- The open changes nothing, and the write is one of those that do. -/
theorem files_change_iff_text : ∃ s s1 s2 : State Unit, Reached [] s ∧ lookup s.mem.fs [97] = some [120] ∧
    vfsOpen s (memPath ++ 47 :: [97]) {} = some (3, s1) ∧ Unchanged s s1 ∧
    vfsWrite s1 3 (fun _ => 121) 1 = some (1, s2) ∧ WriteChanges s1 3 (fun _ => 121) 1 := by
  obtain ⟨s, s1, s2, hs, htext, hfd, hopen, htext1, hwrite, htext2⟩ := text_overwritten
  have hs1 : Reached [] s1 := hs.step (c := .vfsOpen (memPath ++ 47 :: [97]) {}) ⟨3, hopen⟩
  refine ⟨s, s1, s2, hs, htext, hopen, ?_, hwrite, ?_⟩
  · refine ((files_change_iff hs).1 _ _ _ _ rfl rfl hopen).2 ?_
    rintro ⟨_, _, _, _, -, -, hfull, -⟩
    exact hfd hfull
  · by_contra hno
    have hsame := (((files_change_iff hs1).2.2.1 _ _ _ _ _ hwrite).2 hno).mem [97]
    rw [htext1, htext2] at hsame
    cases hsame

set_option maxRecDepth 100000 in
/-- The file of 5000 bytes opened `O_RDWR` and closed: 904 bytes are lost. -/
theorem close_cuts_file : ∃ (s s1 s2 : State Unit) (data : List UInt8),
    Reached [] s ∧ data.length = 5000 ∧ Contains s.disk.fat [65] data ∧
    vfsOpen s [65] { rdwr := true } = some (3, s1) ∧ vfsClose s1 3 = some (0, s2) ∧
    Unchanged s s1 ∧ ¬ Unchanged s1 s2 := by
  obtain ⟨hs, hfl⟩ := sampleFat_spec (n := 5000) (by decide +kernel)
  have h : ((vfsOpen (formattedBoot (sampleFat 5000)) [65] { rdwr := true }).bind fun r1 => (vfsClose r1.2 3).map fun r2 =>
      (r1.1, r2.1, (readAnswer r2.2.disk.fat [65] 8192).map Prod.fst)) = some (3, 0, some 4096) := by decide +kernel
  obtain ⟨⟨_, s1⟩, hopen, h⟩ := Option.bind_eq_some_iff.1 h
  obtain ⟨⟨_, s2⟩, hclo, h⟩ := Option.map_eq_some_iff.1 h
  simp only [Prod.mk.injEq] at h
  obtain ⟨rfl, rfl, hrd⟩ := h
  have hu1 : Unchanged (formattedBoot (sampleFat 5000)) s1 := by
    refine (vfsOpen_unchanged_iff hs.sound rfl rfl hopen).2 ?_
    rintro ⟨_, _, _, _, -, -, hfu, -⟩
    cases hfu
  refine ⟨_, s1, s2, _, .inl hs, Bytes.length_toList _ _, hfl, hopen, hclo, hu1, fun hu2 => ?_⟩
  have hlong : readAnswer (formattedBoot (sampleFat 5000)).disk.fat [65] 8192 = _ := hfl 8192
  rw [hu2.disk, hu1.disk, hlong] at hrd
  exact absurd hrd (by decide +kernel)

/-- A write through a descriptor opened `O_RDONLY` changes a file of `/mem`; a close without a write
cuts a file of `/disk`. -/
theorem files_change_without_writing :
    (∃ s s1 s2 : State Unit, Reached [] s ∧ lookup s.mem.fs [97] = some [120] ∧
      vfsOpen s (memPath ++ 47 :: [97]) {} = some (3, s1) ∧
      vfsWrite s1 3 (fun _ => 121) 1 = some (1, s2) ∧ lookup s2.mem.fs [97] = some [121]) ∧
    ∃ (s s1 s2 : State Unit) (data : List UInt8),
      Reached [] s ∧ data.length = 5000 ∧ Contains s.disk.fat [65] data ∧
      vfsOpen s [65] { rdwr := true } = some (3, s1) ∧ vfsClose s1 3 = some (0, s2) ∧
      Unchanged s s1 ∧ ¬ Unchanged s1 s2 := by
  refine ⟨?_, close_cuts_file⟩
  obtain ⟨s, s1, s2, hs, htext, -, hopen, -, hwrite, htext2⟩ := text_overwritten
  exact ⟨s, s1, s2, hs, htext, hopen, hwrite, htext2⟩

end KumOS.Vfs
