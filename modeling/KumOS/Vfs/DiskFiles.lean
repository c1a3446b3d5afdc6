import KumOS.Vfs.Paths

/-!
# Files of `/disk` through descriptors

A descriptor of `/disk` works on the buffer of its slot (`OnDisk`): reads and writes
move the position in it, and closing writes it back.  A file that is written in
chunks of together less than the buffer round-trips; a file that is read comes back
whole exactly if the buffer holds it.
-/

namespace KumOS.Vfs

open Lib
open Fat12 (Name Files Stores nameTo83 fat12Write readAnswer readResult)
open Function (update update_self update_of_ne)

variable {X : Type}
variable {drive : Int} {files : Files} {sl : DiskSlot} {fd i : Nat} {s : State X} {k : Disk}
  {path : Name} {flags : Flags} {data : List UInt8}
variable {k' : Disk} {s' s1 : State X} {rest : Name} {midx : Nat}

/-- Descriptor `fd` is open on slot `i` of `/disk`. -/
structure OnDisk (s : State X) (fd i : Nat) : Prop where
  lt : fd < 32
  used : (s.fds fd).used = true
  type : (s.fds fd).type ≠ .pipe
  driver : s.driver (s.fds fd).mountIdx = some .disk
  data : (s.fds fd).fdData = i
  slot : i < 8
  slotUsed : (s.disk.slots i).used = true

/-- The state with another slot of `/disk`. -/
def State.setSlot (s : State X) (i : Nat) (sl : DiskSlot) : State X :=
  { s with disk := { s.disk with slots := update s.disk.slots i sl } }

section

section

variable (h : OnDisk s fd i)
include h

theorem OnDisk.fdOf : s.fdOf (fd : Int) = some fd :=
  slotOf_eq_some_iff.2 ⟨rfl, h.lt, h.used⟩

theorem OnDisk.slotOf : slotOf s.disk.used 8 (s.fds fd).fdData = some i := by
  rw [h.data]
  exact slotOf_eq_some_iff.2 ⟨rfl, h.slot, h.slotUsed⟩

theorem OnDisk.setSlot (hus : sl.used = true) : OnDisk (s.setSlot i sl) fd i := by
  refine ⟨h.lt, h.used, h.type, h.driver, h.data, h.slot, ?_⟩
  show (update s.disk.slots i sl i).used = true
  rw [update_self]
  exact hus

theorem OnDisk.advance (n : Int) : OnDisk (s.advance fd n) fd i := by
  obtain ⟨pos, hav⟩ := advance_eq s fd n
  rw [hav]
  exact ⟨h.lt, h.used, h.type, h.driver, h.data, h.slot, h.slotUsed⟩

end

/-! ## The calls on a descriptor -/

/-- After a call on a descriptor that puts its slot into state `sl`. -/
structure SlotSet (s : State X) (fd i : Nat) (sl : DiskSlot) (s' : State X) : Prop where
  on : OnDisk s' fd i
  mounts : s'.mounts = s.mounts
  mem : s'.mem = s.mem
  fat : s'.disk.fat = s.disk.fat
  slot : s'.disk.slots i = sl
  other : ∀ j, j ≠ i → s'.disk.slots j = s.disk.slots j

theorem OnDisk.slotSet (h : OnDisk s fd i) (hus : sl.used = true) (n : Int) :
    SlotSet s fd i sl ((s.setSlot i sl).advance fd n) := by
  have hon := (h.setSlot hus).advance n
  obtain ⟨pos, hav⟩ := advance_eq (s.setSlot i sl) fd n
  rw [hav] at hon ⊢
  exact ⟨hon, rfl, rfl, rfl, update_self .., fun j hj => update_of_ne hj ..⟩

theorem OnDisk.write (h : OnDisk s fd i) (buf : Bytes) {len : UInt32} (hfit : (s.disk.slots i).pos + len.toNat < 4096) :
    ∃ s', vfsWrite s fd buf len = some ((len.toNat : Int), s') ∧
      SlotSet s fd i ((s.disk.slots i).put buf len.toNat) s' := by
  have hus : ((s.disk.slots i).put buf len.toNat).used = true := h.slotUsed
  refine ⟨_, ?_, h.slotSet hus len.toNat⟩
  unfold vfsWrite Driver.write
  simp only [h.fdOf, h.type, h.driver, if_false, diskVfsWrite_spec h.slotOf buf hfit, Option.map_some]
  rfl

/-- A read gives what is left of the slot, at most the length asked for. -/
theorem OnDisk.read (h : OnDisk s fd i) (hok : SlotOk (s.disk.slots i)) (buf : Bytes) (len : UInt32)
    {out : List UInt8} (hout : out = (((s.disk.slots i).buf.toList (s.disk.slots i).size).drop
      (s.disk.slots i).pos).take len.toNat) :
    ∃ s', vfsRead s fd buf len =
        some ((out.length : Int), buf.copy 0 (.ofList out) out.length, s') ∧
      SlotSet s fd i { s.disk.slots i with pos := (s.disk.slots i).pos + out.length } s' := by
  obtain ⟨hlen, hcp⟩ := buf.copy_drop (s.disk.slots i).buf hout
  have hsc := diskVfsRead_spec h.slotOf hok buf hlen
  rw [hlen, hcp, ← hlen] at hsc
  have hus : { s.disk.slots i with pos := (s.disk.slots i).pos + out.length }.used = true := h.slotUsed
  refine ⟨_, ?_, h.slotSet hus out.length⟩
  unfold vfsRead Driver.read
  simp only [h.fdOf, h.type, h.driver, if_false, hsc, Option.map_some]
  rfl

/-- The state a `vfs_close` leaves, with the volume the driver leaves. -/
def State.closed (s : State X) (fd i : Nat) (fat : Fat12.State) : State X :=
  { s with disk := s.disk.release i fat }.setFd fd { s.fds fd with used := false }

theorem OnDisk.close (h : OnDisk s fd i) (hS : Stores drive s.disk.fat files) :
    ∃ fat, vfsClose s fd = some (0, s.closed fd i fat) ∧
      (¬ ((s.disk.slots i).writable = true ∧ 0 < (s.disk.slots i).size) ∧ fat = s.disk.fat ∨
        ((s.disk.slots i).writable = true ∧ 0 < (s.disk.slots i).size) ∧ ∃ w,
          Fat12.exec s.disk.fat (s.disk.slots i).writeBack = some (w, fat) ∧
          Stores drive fat (files.after (s.disk.slots i).writeBack w)) := by
  obtain ⟨fat, hclo, hcs⟩ := diskVfsClose_spec hS h.slotOf
  refine ⟨fat, ?_, hcs⟩
  unfold vfsClose Driver.close
  simp only [h.fdOf, h.type, h.driver, if_false, hclo, Option.map_some]
  rfl

end

/-! ## Opening -/

theorem diskFreeSlot_spec (h : diskFreeSlot k = some i) : i < 8 ∧ (k.slots i).used = false := freeSlot_of_find h

theorem diskFreeSlot_congr (h : k'.slots = k.slots) : diskFreeSlot k' = diskFreeSlot k := by
  unfold diskFreeSlot Disk.used
  rw [h]

theorem Looked.stores (h : Looked s s') (hS : Stores drive s.disk.fat files) : Stores drive s'.disk.fat files := by
  obtain ⟨sec, hsec⟩ := h.fat
  rw [hsec]
  exact hS.setSector sec

/-- An open that settles on `/disk` takes the first free slot and the first free descriptor. -/
theorem vfsOpen_disk (hsel : select s path flags = some (some (midx, rest), s1))
    (hdv : s.driver midx = some .disk) (hS : Stores drive s.disk.fat files) (hfd : allocFd s = some fd)
    (hsl : diskFreeSlot s.disk = some i) (hfl : files (diskKey rest) = none → flags.creat = true) :
    ∃ s', vfsOpen s path flags = some ((fd : Int), s') ∧ OnDisk s' fd i ∧
      DiskOpened drive files rest flags s.disk s'.disk i := by
  have hlk := select_looked hsel
  have hdriver1 : s1.driver midx = some .disk := by
    unfold State.driver
    rw [hlk.mounts]
    exact hdv
  obtain ⟨r, k, hopen, hcs⟩ := diskVfsOpen_spec (hlk.stores hS) rest flags
  have hslot1 : diskFreeSlot s1.disk = some i := (diskFreeSlot_congr hlk.slots).trans hsl
  rcases hcs with ⟨-, -, -, hfu | ⟨hnn, hcr⟩⟩ | ⟨j, hj, rfl, hod⟩
  · rw [hslot1] at hfu
    cases hfu
  · rw [hfl hnn] at hcr
    cases hcr
  obtain rfl : j = i := Option.some.inj (hj.symm.trans hslot1)
  have hfd1 : allocFd { s1 with disk := k } = some fd := (allocFd_congr hlk.fds).trans hfd
  obtain ⟨-, hlt, -⟩ := allocFd_spec hfd
  obtain ⟨hj8, -⟩ := diskFreeSlot_spec hsl
  refine ⟨{ s1 with disk := k }.setFd fd (openedFd (s1.fds fd) midx flags j), ?_, ?_, ?_⟩
  · unfold vfsOpen
    simp only [hsel, hdriver1, Driver.open, hopen, Option.map_some]
    unfold finishOpen
    simp only [hfd1]
    rfl
  · refine ⟨hlt, ?_, ?_, ?_, ?_, hj8, ?_⟩
    · rw [setFd_self]
      rfl
    · rw [setFd_self]
      intro hpp
      cases hpp
    · rw [setFd_self]
      exact hdriver1
    · rw [setFd_self]
      rfl
    · show (k.slots j).used = true
      cases hod with
      | found data buf _ _ _ hss | created buf w _ _ _ hss =>
        rw [hss, update_self]
        rfl
  · cases hod with
    | found data buf hf hS' hbuf hss =>
      rw [hlk.slots] at hss
      exact .found data buf hf hS' hbuf hss
    | created buf w hf hc hS' hss =>
      rw [hlk.slots] at hss
      exact .created buf w hf hc hS' hss

/-- An open that settles on `/disk` and succeeds has found a slot, a descriptor, and the file. -/
theorem vfsOpen_disk_inv (hsel : select s path flags = some (some (midx, rest), s1))
    (hdv : s.driver midx = some .disk) (hS : Stores drive s.disk.fat files)
    (hopen : vfsOpen s path flags = some ((fd : Int), s')) :
    ∃ i, allocFd s = some fd ∧ diskFreeSlot s.disk = some i ∧ OnDisk s' fd i ∧
      DiskOpened drive files rest flags s.disk s'.disk i := by
  obtain ⟨m, s0, hsel', hlk, hcs⟩ := vfsOpen_cases hopen
  rw [hsel] at hsel'
  cases hsel'
  rcases hcs with ⟨hm, -⟩ | ⟨midx', rest', dr, data, s2, hm, hdr, hdopen, hend⟩
  · cases hm
  cases hm
  have hdr' : s1.driver midx = s.driver midx := by
    unfold State.driver
    rw [hlk.mounts]
  rw [hdr', hdv] at hdr
  cases hdr
  obtain ⟨⟨r', k⟩, hdk, heq⟩ := Option.map_eq_some_iff.1 hdopen
  cases heq
  obtain ⟨r1, k1, hsc, hcs⟩ := diskVfsOpen_spec (hlk.stores hS) rest flags
  rw [hdk] at hsc
  cases hsc
  rcases hend with ⟨-, hneg, -⟩ | ⟨hpos, hfinish⟩
  · omega
  rcases finishOpen_cases hfinish with ⟨-, hneg, -⟩ | ⟨fd', hfd', hfd, -⟩
  · omega
  obtain rfl : fd = fd' := by omega
  rcases hcs with ⟨rfl, -⟩ | ⟨i, hi, -, hod⟩
  · omega
  have hsl : diskFreeSlot s.disk = some i := (diskFreeSlot_congr hlk.slots).symm.trans hi
  have hfds : allocFd s = some fd := (allocFd_congr hlk.fds).symm.trans hfd'
  have hfl : files (diskKey rest) = none → flags.creat = true := by
    intro hnn
    cases hod with
    | found data _ hfl =>
      rw [hnn] at hfl
      cases hfl
    | created _ _ _ hcr => exact hcr
  obtain ⟨s3, hopen3, hon, hopened3⟩ := vfsOpen_disk hsel hdv hS hfds hsl hfl
  rw [hopen] at hopen3
  cases hopen3
  exact ⟨i, hfds, hsl, hon, hopened3⟩

/-! ## Writing in chunks -/

/-- The buffer and the length of a `vfs_write`. -/
structure Chunk where
  buf : Bytes
  len : UInt32

def Chunk.bytes (c : Chunk) : List UInt8 := c.buf.toList c.len.toNat

@[simp] theorem Chunk.length_bytes (c : Chunk) : c.bytes.length = c.len.toNat := Bytes.length_toList _ _

/-- One `vfs_write` per chunk, with all results. -/
def writeAll (s : State X) (fd : Int) : List Chunk → Option (List Int × State X)
  | [] => some ([], s)
  | c :: cs =>
    match vfsWrite s fd c.buf c.len with
    | none => none
    | some (r, s) => (writeAll s fd cs).map fun t => (r :: t.1, t.2)

/-- The slot holds `data` and is at its end. -/
structure Filled (sl : DiskSlot) (data : List UInt8) : Prop where
  pos : sl.pos = data.length
  size : sl.size = data.length
  buf : sl.buf.toList data.length = data

theorem Filled.put (h : Filled sl data) (buf : Bytes) {n : Nat} (hn : data.length + n < 4096) :
    Filled (sl.put buf n) (data ++ buf.toList n) := by
  have hlen : (data ++ buf.toList n).length = data.length + n := by
    rw [List.length_append, Bytes.length_toList]
  have hu : u32 (sl.pos + n) = data.length + n := by
    rw [h.pos]
    unfold u32
    omega
  refine ⟨?_, ?_, ?_⟩
  · rw [hlen]
    exact hu
  · show (if sl.size < u32 (sl.pos + n) then u32 (sl.pos + n) else sl.size) = _
    rw [hlen, hu, h.size]
    split <;> omega
  · show (sl.buf.copy sl.pos buf n).toList _ = _
    rw [hlen, h.pos, Bytes.toList_copy_append, h.buf]

/-- The chunks are appended to what the slot holds; nothing else is touched. -/
theorem writeAll_spec (h : OnDisk s fd i) (hfill : Filled (s.disk.slots i) data) (chunks : List Chunk)
    (hfit : data.length + (chunks.flatMap Chunk.bytes).length < 4096) :
    ∃ s', writeAll s fd chunks = some (chunks.map fun c => (c.len.toNat : Int), s') ∧
      OnDisk s' fd i ∧ Filled (s'.disk.slots i) (data ++ chunks.flatMap Chunk.bytes) ∧
      s'.disk.fat = s.disk.fat ∧ (s'.disk.slots i).name = (s.disk.slots i).name ∧
      (s'.disk.slots i).writable = (s.disk.slots i).writable := by
  induction chunks generalizing s data with
  | nil =>
    refine ⟨s, rfl, h, ?_, rfl, rfl, rfl⟩
    rw [List.flatMap_nil, List.append_nil]
    exact hfill
  | cons c cs ih =>
    rw [List.flatMap_cons, List.length_append, Chunk.length_bytes] at hfit
    have hfit0 : (s.disk.slots i).pos + c.len.toNat < 4096 := by
      rw [hfill.pos]
      omega
    obtain ⟨s1, hwr, hset⟩ := h.write c.buf hfit0
    have hfill1 : Filled (s1.disk.slots i) (data ++ c.bytes) := by
      rw [hset.slot]
      exact hfill.put c.buf (by omega)
    have hlen : (data ++ c.bytes).length = data.length + c.len.toNat := by
      rw [List.length_append, Chunk.length_bytes]
    obtain ⟨s', hrs, hon', hfill', hfat, hnm, hwritable⟩ := ih hset.on hfill1 (by omega)
    refine ⟨s', ?_, hon', ?_, ?_, ?_, ?_⟩
    · unfold writeAll
      simp only [hwr]
      rw [hrs]
      rfl
    · rw [List.flatMap_cons, ← List.append_assoc]
      exact hfill'
    · rw [hfat, hset.fat]
    · rw [hnm, hset.slot]
      rfl
    · rw [hwritable, hset.slot]
      rfl

theorem diskKey_eq {name : Name} (hnm : 0 ∉ name) (hlen : name.length < 64) : diskKey name = nameTo83 name := by
  have htk : name.take 63 = name := List.take_of_length_le (by omega)
  unfold diskKey diskName
  rw [cstr_eq_self hnm, htk]
  exact Fat12.nameTo83_map_upper name

/-- With `O_TRUNC` the slot is empty at first; on the volume only the file that is opened may have
changed. -/
theorem DiskOpened.truncated (h : DiskOpened drive files path flags k k' i) (htr : flags.trunc = true) :
    ∃ files', Stores drive k'.fat files' ∧ (∀ key, key ≠ diskKey path → files' key = files key) ∧
      Filled (k'.slots i) [] ∧ (k'.slots i).name = diskName path ∧
      (k'.slots i).writable = (flags.wronly || flags.rdwr || flags.creat) := by
  have hem : ∀ buf n, Filled (openedSlot path flags buf n) [] := by
    intro buf n
    refine ⟨?_, ?_, rfl⟩
    · simp [openedSlot, htr]
    · simp [openedSlot, htr]
  cases h with
  | found data buf _ hS _ hss =>
    rw [hss, update_self]
    exact ⟨files, hS, fun _ _ => rfl, hem _ _, rfl, rfl⟩
  | created buf w _ _ hS hss =>
    rw [hss, update_self]
    exact ⟨_, hS, fun key hne => update_of_ne hne _ _, hem _ _, rfl, rfl⟩

theorem Filled.bytes (h : Filled sl data) (hlen : data.length ≤ 4095) :
    sl.buf.toList (UInt32.ofNat sl.size).toNat = data := by
  have hsz : (UInt32.ofNat sl.size).toNat = data.length := by
    rw [UInt32.toNat_ofNat', h.size]
    omega
  rw [hsz]
  exact h.buf

/-- `O_WRONLY|O_CREAT|O_TRUNC` -/
def writeFlags : Flags := { wronly := true, creat := true, trunc := true }

/-- **Writing a file of `/disk` round-trips**: chunks of at most 4095 bytes together are all taken,
and if the `fat12_write` of the close succeeds then they are what `fat12_read` finds.  The other
files are as before. -/
theorem disk_write_round_trip {extra : List (Mount X)} (hextra : ∀ m ∈ extra, Apart m) {s : State X}
    (hs : AfterFormat extra s) (hfd : allocFd s ≠ none) (hslot : diskFreeSlot s.disk ≠ none)
    (name : Name) (hname : ∀ c ∈ name, c ≠ 0 ∧ c < 128) (hlen : name.length < 64)
    (chunks : List Chunk) (hpos : 1 ≤ (chunks.flatMap Chunk.bytes).length)
    (hmax : (chunks.flatMap Chunk.bytes).length ≤ 4095) :
    ∃ (fd i : Nat) (s1 s2 s3 : State X) (w : Int),
      vfsOpen s (diskPath ++ 47 :: name) writeFlags = some ((fd : Int), s1) ∧
      writeAll s1 fd chunks = some (chunks.map fun c => (c.len.toNat : Int), s2) ∧
      vfsClose s2 fd = some (0, s3) ∧
      ((s2.fds fd).fdData = i ∧
        fat12Write s2.disk.fat (s2.disk.slots i).name (s2.disk.slots i).buf
          (UInt32.ofNat (s2.disk.slots i).size) = some (w, s3.disk.fat)) ∧
      (w = 0 → ∀ bufsz, readAnswer s3.disk.fat name bufsz =
        some (readResult (some (chunks.flatMap Chunk.bytes)) bufsz.toNat)) ∧
      ∀ other, nameTo83 other ≠ nameTo83 name →
        ∀ bufsz, readAnswer s3.disk.fat other bufsz = readAnswer s.disk.fat other bufsz := by
  obtain ⟨fd, hfd⟩ := Option.ne_none_iff_exists'.1 hfd
  obtain ⟨i, hslot⟩ := Option.ne_none_iff_exists'.1 hslot
  have hsound := hs.sound
  obtain ⟨drive, files, hS⟩ := hsound.volume
  have hze : 0 ∉ name := fun h => (hname 0 h).1 rfl
  have hfr : (nameTo83 name).headD 0 ≠ Fat12.direntFree := by
    apply Fat12.nameTo83_ne_free
    cases name with
    | nil => decide
    | cons c cs => exact (hname c List.mem_cons_self).2
  have hkey := diskKey_eq hze hlen
  obtain ⟨s0, hsel, -⟩ := select_disk_creat hsound.mounts hextra hze (by omega)
    (show writeFlags.creat = true from rfl)
  obtain ⟨s1, hopen, hon, hod⟩ :=
    vfsOpen_disk hsel (driver_disk hsound.mounts) hS hfd hslot fun _ => rfl
  obtain ⟨files1, hS1, hfiles1, hfill, hname1, hwritable1⟩ := hod.truncated rfl
  obtain ⟨s2, hwrites, hon2, hfill2, hfat2, hname2, hwritable2⟩ :=
    writeAll_spec hon hfill chunks (by rw [List.length_nil]; omega)
  rw [List.nil_append] at hfill2
  have hbk : (s2.disk.slots i).writable = true ∧ 0 < (s2.disk.slots i).size := by
    rw [hwritable2, hwritable1, hfill2.size]
    exact ⟨rfl, hpos⟩
  rw [← hfat2] at hS1
  obtain ⟨fat, hclo, ⟨hno, -⟩ | ⟨-, w, hwr, hS3⟩⟩ := hon2.close hS1
  · exact absurd hbk hno
  have hkey2 : nameTo83 (s2.disk.slots i).name = nameTo83 name := by
    rw [hname2, hname1]
    exact hkey
  have hby := hfill2.bytes hmax
  refine ⟨fd, i, s1, s2, _, w, hopen, hwrites, hclo, ⟨hon2.data, hwr⟩, ?_, ?_⟩
  · intro hw bufsz
    have hfl : files1.after (s2.disk.slots i).writeBack w (nameTo83 name) =
        some (chunks.flatMap Chunk.bytes) := by
      simp only [DiskSlot.writeBack, Files.after, hkey2, hby, update_self, hw, if_true,
        Fat12.written, hfr, if_false]
    rw [← hfl]
    exact hS3.readAnswer_eq name bufsz
  · intro other hot bufsz
    have hfl : files1.after (s2.disk.slots i).writeBack w (nameTo83 other) =
        files (nameTo83 other) := by
      simp only [DiskSlot.writeBack, Files.after, hkey2, update_of_ne hot]
      exact hfiles1 _ (hkey ▸ hot)
    rw [hS.readAnswer_eq, ← hfl]
    exact hS3.readAnswer_eq other bufsz

/-- The state after booting and formatting. -/
def formattedBoot (fat : Fat12.State) : State Unit :=
  { bareBoot with disk := { bareBoot.disk with fat := fat } }

theorem afterFormat_boot {fat : Fat12.State} (h : Fat12.fat12Format Fat12.initial 0 none = some (0, fat)) :
    AfterFormat [] (formattedBoot fat) :=
  ⟨Fs.cleared, Fat12.initial, ⟨[], []⟩, (), [], bareBoot, 0, none, fat, [], Fs.wf_cleared, .nil,
    fun _ _ => rfl, h, .nil⟩

/-- The chunks "XX" and "Y" to "/disk/a". -/
theorem disk_write_round_trip_two_chunks : ∃ (fat : Fat12.State) (fd i : Nat) (s1 s2 s3 : State Unit) (w : Int),
    AfterFormat [] (formattedBoot fat) ∧
    vfsOpen (formattedBoot fat) (diskPath ++ 47 :: [97]) writeFlags = some ((fd : Int), s1) ∧
    writeAll s1 fd [⟨fun _ => 88, 2⟩, ⟨fun _ => 89, 1⟩] = some ([2, 1], s2) ∧
    vfsClose s2 fd = some (0, s3) ∧
    fat12Write s2.disk.fat (s2.disk.slots i).name (s2.disk.slots i).buf
      (UInt32.ofNat (s2.disk.slots i).size) = some (w, s3.disk.fat) ∧
    (w = 0 → readAnswer s3.disk.fat [97] 512 = some (3, [88, 88, 89])) := by
  obtain ⟨fat, hfm, -⟩ := Fat12.initial_format
  have hfd : allocFd (formattedBoot fat) ≠ none := nofun
  have hsl : diskFreeSlot (formattedBoot fat).disk ≠ none := nofun
  have hnm : ∀ c ∈ ([97] : Name), c ≠ 0 ∧ c < 128 := by
    intro c hc
    rw [List.mem_singleton.1 hc]
    decide
  obtain ⟨fd, i, s1, s2, s3, w, hopen, hwrites, hclo, ⟨-, hbk⟩, hrd, -⟩ :=
    disk_write_round_trip (fun m hm => by cases hm) (afterFormat_boot hfm) hfd hsl
      [97] hnm (by decide) [⟨fun _ => 88, 2⟩, ⟨fun _ => 89, 1⟩] (by decide) (by decide)
  exact ⟨fat, fd, i, s1, s2, s3, w, afterFormat_boot hfm, hopen, hwrites, hclo, hbk,
    fun hw => hrd hw 512⟩

end KumOS.Vfs
