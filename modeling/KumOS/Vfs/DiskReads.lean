import KumOS.Vfs.DiskFiles
import KumOS.Vfs.Frames

/-!
# Reading a file of `/disk`

The buffer that `disk_vfs_open` fills is read from until its end, whatever is done in
between through other descriptors.  It holds the first 4096 bytes of the file.
-/

namespace KumOS.Vfs

open Lib
open Fat12 (Name Files Stores nameTo83 readAnswer readResult)

variable {X : Type}

/-- `fat12_read` finds `data` under a name. -/
def Contains (fat : Fat12.State) (name : Name) (data : List UInt8) : Prop :=
  ∀ bufsz, readAnswer fat name bufsz = some (readResult (some data) bufsz.toNat)

theorem contains_iff {drive : Int} {fat : Fat12.State} {files : Files} (hS : Stores drive fat files)
    (name : Name) (data : List UInt8) : Contains fat name data ↔ files (nameTo83 name) = some data := by
  constructor
  · intro h
    have hrd := h 0xFFFFFFFF
    rw [hS.readAnswer_eq] at hrd
    have hbuf : (0xFFFFFFFF : UInt32).toNat = 0xFFFFFFFF := rfl
    cases hfl : files (nameTo83 name) with
    | none =>
      rw [hfl] at hrd
      have hneg : (-1 : Int) = ((min data.length 0xFFFFFFFF : Nat) : Int) :=
        congrArg Prod.fst (Option.some.inj hrd)
      omega
    | some old =>
      rw [hfl] at hrd
      have hle := hS.length_le hfl
      have hlen : ((min old.length 0xFFFFFFFF : Nat) : Int) = ((min data.length 0xFFFFFFFF : Nat) : Int) :=
        congrArg Prod.fst (Option.some.inj hrd)
      have htk : old.take 0xFFFFFFFF = data.take 0xFFFFFFFF :=
        congrArg Prod.snd (Option.some.inj hrd)
      rw [List.take_of_length_le (by omega), List.take_of_length_le (by omega)] at htk
      rw [htk]
  · intro h bufsz
    rw [hS.readAnswer_eq, h]

/-- From `s0` on, `out` has been read from a descriptor by reads that gave something.  Calls on other
slots may have come in between. -/
inductive Reading (fd : Nat) (s0 : State X) : List UInt8 → State X → Prop where
  | start : Reading fd s0 [] s0
  | other {out : List UInt8} {s s' : State X} {c : Call} {r : Int} (hrun : Reading fd s0 out s)
      (hcall : call s c = some (r, s')) (hoff : c.ref s ≠ s0.ref (s0.fds fd)) : Reading fd s0 out s'
  | read {out : List UInt8} {s s' : State X} {buf buf' : Bytes} {len : UInt32} {n : Int}
      (hrun : Reading fd s0 out s) (hlen : 0 < len)
      (hread : vfsRead s fd buf len = some (n, buf', s')) (hn : 0 < n) :
      Reading fd s0 (out ++ buf'.toList n.toNat) s'

/-- The slot holds `data`, and `out` has been read of it. -/
structure Holding (mounts : List (Mount X)) (s : State X) (fd i : Nat) (data out : List UInt8) : Prop where
  sound : Sound mounts s
  on : OnDisk s fd i
  bytes : (s.disk.slots i).buf.toList (s.disk.slots i).size = data
  out : out = data.take (s.disk.slots i).pos

theorem OnDisk.ref {s : State X} {fd i : Nat} (h : OnDisk s fd i) : s.ref (s.fds fd) = .disk i := by
  rw [State.ref_of_driver h.driver h.type]
  exact congrArg Ref.disk h.data

section

variable {mounts : List (Mount X)} {s s' : State X} {fd i : Nat} {data out : List UInt8}

section

variable (h : Holding mounts s fd i data out)
include h

theorem Holding.size : (s.disk.slots i).size = data.length := by
  rw [← h.bytes, Bytes.length_toList]

theorem Holding.other {c : Call} {r : Int}
    (hca : call s c = some (r, s')) (hoff : c.ref s ≠ .disk i) : Holding mounts s' fd i data out := by
  obtain ⟨hspares, hfds⟩ := call_spares hca
  have hsl : s'.disk.slots i = s.disk.slots i := hspares.disk i h.on.slotUsed hoff
  have hfd : s'.fds fd = s.fds fd := by
    apply hfds fd h.on.used
    intro hc
    exact hoff ((Call.ref_of_fd hc).trans h.on.ref)
  have hsound := h.sound.keeps (call_keeps h.sound.slots hca)
  have hdv : ∀ midx, s'.driver midx = s.driver midx := by
    intro midx
    unfold State.driver
    rw [hsound.mounts, h.sound.mounts]
  have hon : OnDisk s' fd i := by
    refine ⟨h.on.lt, ?_, ?_, ?_, ?_, h.on.slot, ?_⟩
    · rw [hfd]
      exact h.on.used
    · rw [hfd]
      exact h.on.type
    · rw [hdv, hfd]
      exact h.on.driver
    · rw [hfd]
      exact h.on.data
    · rw [hsl]
      exact h.on.slotUsed
  refine ⟨hsound, hon, ?_, ?_⟩
  · rw [hsl]
    exact h.bytes
  · rw [hsl]
    exact h.out

theorem Holding.read (buf : Bytes) (len : UInt32) :
    ∃ (n : Nat) (buf' : Bytes) (s' : State X), vfsRead s fd buf len = some ((n : Int), buf', s') ∧
      n = min len.toNat (data.length - out.length) ∧
      Holding mounts s' fd i data (out ++ buf'.toList n) := by
  have hok := h.sound.slots i
  have hpos := hok.pos
  have hsz := h.size
  have hout : out.length = (s.disk.slots i).pos := by
    rw [h.out, List.length_take]
    omega
  obtain ⟨s', hrd, hset⟩ := h.on.read hok buf len rfl
  generalize hnx : (((s.disk.slots i).buf.toList (s.disk.slots i).size).drop
    (s.disk.slots i).pos).take len.toNat = next at hrd hset
  rw [h.bytes] at hnx
  refine ⟨next.length, _, s', hrd, ?_, h.sound.keeps (vfsRead_keeps h.sound.slots hrd), hset.on, ?_, ?_⟩
  · rw [← hnx, List.length_take, List.length_drop, hout]
  · rw [hset.slot]
    exact h.bytes
  · rw [hset.slot, Bytes.toList_copy_ofList]
    have htk : (data.drop (s.disk.slots i).pos).take next.length = next := by
      rw [← hnx, List.length_take]
      exact (List.take_eq_take_min ..).symm
    rw [List.take_add, h.out, htk]

end

theorem Reading.holding {s0 : State X} (hrun : Reading fd s0 out s)
    (h0 : Holding mounts s0 fd i data []) : Holding mounts s fd i data out := by
  induction hrun with
  | start => exact h0
  | other _ hca hoff ih =>
    rw [h0.on.ref] at hoff
    exact ih.other hca hoff
  | @read _ _ _ buf _ len _ _ _ hrd _ ih =>
    obtain ⟨m, buf1, s1, hread1, -, hnx⟩ := ih.read buf len
    rw [hrd] at hread1
    cases hread1
    exact hnx

end

/-- After an open for reading the slot holds the first bytes of the file. -/
theorem holding_open {mounts : List (Mount X)} {s s0 s1 : State X} (hs : Sound mounts s)
    {path rest : Name} {midx fd : Nat} (hsel : select s path {} = some (some (midx, rest), s0))
    (hdv : s.driver midx = some .disk) (hopen : vfsOpen s path {} = some ((fd : Int), s1))
    {data : List UInt8} (hfl : Contains s.disk.fat (diskName rest) data) :
    ∃ i, Holding mounts s1 fd i (data.take 4096) [] := by
  obtain ⟨drive, files, hS⟩ := hs.volume
  have hkey : files (diskKey rest) = some data := (contains_iff hS _ _).1 hfl
  obtain ⟨i, -, -, hon, hod⟩ := vfsOpen_disk_inv hsel hdv hS hopen
  refine ⟨i, hs.keeps (vfsOpen_keeps hopen), hon, ?_, ?_⟩
  · cases hod with
    | created _ _ hnn =>
      rw [hkey] at hnn
      cases hnn
    | found data' buf hfile' _ hbuf hss =>
      obtain rfl : data = data' := Option.some.inj (hkey.symm.trans hfile')
      rw [hss, Function.update_self]
      exact hbuf
  · cases hod with
    | created _ _ hnn =>
      rw [hkey] at hnn
      cases hnn
    | found data' buf _ _ _ hss =>
      rw [hss, Function.update_self]
      rfl

/-- **Reading a file of `/disk` gives the file if the buffer holds it**: the reads end with a 0 when
the first 4096 bytes have been read, and these are the file just if it is not longer. -/
theorem disk_read_whole {extra : List (Mount X)} {s s0 s1 s2 : State X} (hs : Reached extra s)
    {path rest : Name} {midx fd : Nat} (hsel : select s path {} = some (some (midx, rest), s0))
    (hdriver : s.driver midx = some .disk) (hopen : vfsOpen s path {} = some ((fd : Int), s1))
    {data out : List UInt8} (hfile : Contains s.disk.fat (diskName rest) data)
    (hrun : Reading fd s1 out s2) (buf : Bytes) {len : UInt32} (hlen : 0 < len) :
    ∃ (n : Nat) (buf' : Bytes) (s3 : State X), vfsRead s2 fd buf len = some ((n : Int), buf', s3) ∧
      out.length + n ≤ 4096 ∧ (n = 0 ↔ out = data.take 4096) ∧
      (n = 0 → (out = data ↔ data.length ≤ 4096)) := by
  obtain ⟨i, h0⟩ := holding_open hs.sound hsel hdriver hopen hfile
  have h := hrun.holding h0
  have hpos : 0 < len.toNat := hlen
  have hpre : out <+: data.take 4096 := by
    rw [h.out]
    exact List.take_prefix _ _
  have hle := hpre.length_le
  have hcut : (data.take 4096).length ≤ 4096 := List.length_take_le _ _
  obtain ⟨n, buf', s3, hrd, hn, -⟩ := h.read buf len
  have hze : n = 0 ↔ out = data.take 4096 := by
    constructor
    · intro h0
      exact hpre.eq_of_length (by omega)
    · intro hout
      rw [hout] at hn
      omega
  refine ⟨n, buf', s3, hrd, by omega, hze, fun h0 => ?_⟩
  rw [hze.1 h0]
  constructor
  · intro hwhole
    rw [hwhole] at hcut
    exact hcut
  · intro hshort
    exact List.take_of_length_le hshort

/-- A new volume with the file "A" of `n` bytes "x". -/
def sampleFat (n : UInt32) : Fat12.State :=
  (((Fat12.fat12Format Fat12.initial 0 none).bind fun r => Fat12.fat12Write r.2 [65] (fun _ => 120) n).map
    Prod.snd).getD Fat12.initial

theorem sampleFat_spec {n : UInt32} (h : ((Fat12.fat12Format Fat12.initial 0 none).bind fun r =>
      Fat12.fat12Write r.2 [65] (fun _ => 120) n).map Prod.fst = some 0) :
    AfterFormat [] (formattedBoot (sampleFat n)) ∧
      Contains (sampleFat n) [65] (Bytes.toList (fun _ => 120) n.toNat) := by
  obtain ⟨fat, hfm, hS⟩ := Fat12.initial_format
  rw [hfm, Option.bind_some] at h
  obtain ⟨fat', hwr⟩ := exists_of_map_fst h
  have hsample : sampleFat n = fat' := by
    unfold sampleFat
    rw [hfm, Option.bind_some, hwr]
    rfl
  have hex : Fat12.exec fat (.write [65] (fun _ => 120) n) = some (0, fat') := hwr
  have hca : CallStep (formattedBoot fat) (.fat12 (.write [65] (fun _ => 120) n)) (formattedBoot fat') := by
    refine ⟨0, ?_⟩
    show (Fat12.exec fat (.write [65] (fun _ => 120) n)).map _ = _
    rw [hex]
    rfl
  rw [hsample]
  refine ⟨?_, ?_⟩
  · exact ⟨Fs.cleared, Fat12.initial, ⟨[], []⟩, (), [], bareBoot, 0, none, fat, _, Fs.wf_cleared, .nil,
      fun _ _ => rfl, hfm, .single hca⟩
  · rw [contains_iff (hS.step hex), Fat12.Files.after, Function.update_self]
    rfl

/-- The file "xx" is read whole. -/
theorem disk_read_whole_two_bytes : ∃ (s s1 s2 s3 : State Unit) (buf1 buf2 : Bytes),
    AfterFormat [] s ∧ Contains s.disk.fat [65] [120, 120] ∧
    vfsOpen s [65] {} = some (3, s1) ∧
    vfsRead s1 3 (fun _ => 0) 512 = some (2, buf1, s2) ∧
    vfsRead s2 3 (fun _ => 0) 512 = some (0, buf2, s3) ∧
    buf1.toList 2 = [120, 120] := by
  obtain ⟨hs, hfl⟩ := sampleFat_spec (n := 2) (by decide +kernel)
  obtain ⟨s0, hsel⟩ := exists_of_map_fst (o := select (formattedBoot (sampleFat 2)) [65] {}) (a := some (1, [65]))
    (by decide +kernel)
  have h : ((vfsOpen (formattedBoot (sampleFat 2)) [65] {}).bind fun r1 =>
      (vfsRead r1.2 3 (fun _ => 0) 512).map fun r2 => (r1.1, r2.1, r2.2.1.toList 2)) = some (3, 2, [120, 120]) := by
    decide +kernel
  obtain ⟨⟨_, s1⟩, hopen, h⟩ := Option.bind_eq_some_iff.1 h
  obtain ⟨⟨_, buf1, s2⟩, hrd, h⟩ := Option.map_eq_some_iff.1 h
  simp only [Prod.mk.injEq] at h
  obtain ⟨rfl, rfl, hout⟩ := h
  have hrun : Reading 3 s1 ([] ++ buf1.toList 2) s2 := .read .start (by decide) hrd (by decide)
  obtain ⟨n2, buf2, s3, hread2, -, hze, -⟩ := disk_read_whole (.inl hs) hsel
    (driver_disk hs.sound.mounts) hopen hfl hrun (fun _ => 0) (show (0 : UInt32) < 512 by decide)
  obtain rfl : n2 = 0 := hze.2 hout
  exact ⟨_, s1, s2, s3, buf1, buf2, hs, hfl, hopen, hrd, hread2, hout⟩

set_option maxRecDepth 100000 in
/-- A file of 5000 bytes is read as one of 4096. -/
theorem disk_read_cut : ∃ (s s1 s2 s3 : State Unit) (data : List UInt8) (buf1 buf2 : Bytes),
    AfterFormat [] s ∧ data.length = 5000 ∧ Contains s.disk.fat [65] data ∧
    vfsOpen s [65] {} = some (3, s1) ∧
    vfsRead s1 3 (fun _ => 0) 4096 = some (4096, buf1, s2) ∧
    vfsRead s2 3 (fun _ => 0) 4096 = some (0, buf2, s3) ∧
    buf1.toList 4096 ≠ data := by
  obtain ⟨hs, hfl⟩ := sampleFat_spec (n := 5000) (by decide +kernel)
  have h : ((vfsOpen (formattedBoot (sampleFat 5000)) [65] {}).bind fun r1 =>
      (vfsRead r1.2 3 (fun _ => 0) 4096).bind fun r2 =>
      (vfsRead r2.2.2 3 (fun _ => 0) 4096).map fun r3 => (r1.1, r2.1, r3.1)) = some (3, 4096, 0) := by decide +kernel
  obtain ⟨⟨_, s1⟩, hopen, h⟩ := Option.bind_eq_some_iff.1 h
  obtain ⟨⟨_, buf1, s2⟩, hread1, h⟩ := Option.bind_eq_some_iff.1 h
  obtain ⟨⟨_, buf2, s3⟩, hread2, h⟩ := Option.map_eq_some_iff.1 h
  obtain ⟨rfl, rfl, rfl⟩ := h
  refine ⟨_, s1, s2, s3, _, buf1, buf2, hs, Bytes.length_toList _ _, hfl, hopen, hread1, hread2, fun heq => ?_⟩
  have := congrArg List.length heq
  rw [Bytes.length_toList, Bytes.length_toList] at this
  exact absurd this (by decide)

/-! ## The buffer of a slot -/

/-- A read copies at most what the slot has left, and tells how much. -/
def ReadInside (k : Disk) (d : Int) (i : Nat) (buf : Bytes) (len : UInt32) : Prop :=
  ∃ (n : Nat) (k' : Disk), diskVfsRead k d buf len.toNat =
      some ((n : Int), buf.copy 0 ((k.slots i).buf.drop (k.slots i).pos) n, k') ∧
    n ≤ (k.slots i).size - (k.slots i).pos

/-- A write stores at most what is left of the slot's buffer, from the position on, and tells how much. -/
def WriteInside (k : Disk) (d : Int) (i : Nat) (buf : Bytes) (len : UInt32) : Prop :=
  ∃ (n : Nat) (k' : Disk), diskVfsWrite k d buf len.toNat = some ((n : Int), k') ∧
    n ≤ 4096 - (k.slots i).pos ∧ (k'.slots i).buf = (k.slots i).buf.copy (k.slots i).pos buf n

/-- In every state reached, the position of a slot is inside its file and the file inside the buffer.  Reads stay
inside; so do exactly the writes that begin before the end of the buffer and whose end is a 32-bit number. -/
theorem slot_buffer_iff (extra : List (Mount X)) (fs : Fs.State) (hw : Fs.Wf fs) (fat : Fat12.State) (dev : Dev) (ext : X)
    (cs : List Call) (s : State X) (hrun : Run CallStep (boot extra fs fat dev ext) cs s) :
    (∀ i, SlotOk (s.disk.slots i)) ∧ ∀ d i, slotOf s.disk.used 8 d = some i → ∀ buf len,
      ReadInside s.disk d i buf len ∧
        (WriteInside s.disk d i buf len ↔ (s.disk.slots i).pos < 4096 ∧ (s.disk.slots i).pos + len.toNat < 2 ^ 32) := by
  have hok := ((ready_boot extra hw fat dev ext).run hrun).slots
  refine ⟨hok, fun d i hd buf len => ⟨⟨_, _, diskVfsRead_spec hd (hok i) buf rfl, Nat.min_le_right _ _⟩, ?_⟩⟩
  have hpos := (hok i).pos
  have hsz := (hok i).size
  generalize s.disk = k at *
  -- the clipped length `4096 - pos - 1` wraps at the end of the buffer, and `pos + len` for long requests
  have hlen := len.toNat_lt
  unfold WriteInside diskVfsWrite
  simp only [hd]
  generalize hn : (if 4096 ≤ u32 ((k.slots i).pos + len.toNat) then u32 (4096 + 2 ^ 32 - (k.slots i).pos - 1)
    else len.toNat) = n
  unfold u32 at hn
  constructor
  · rintro ⟨m, k', h, -, -⟩
    split at h
    · cases h
    · split at hn <;> omega
  · rintro ⟨h1, h2⟩
    have hfit : (k.slots i).pos + n ≤ 4096 := by split at hn <;> omega
    rw [if_neg (by omega), i32_of_lt (by omega)]
    refine ⟨n, _, rfl, by omega, ?_⟩
    simp only [Function.update_self]
    rfl

theorem slot_buffer_iff_opened : ∃ s, Run CallStep (formattedBoot (sampleFat 2)) [.vfsOpen [65] { rdwr := true }] s ∧
    WriteInside s.disk 0 0 (fun _ => 120) 1 := by
  have h : (vfsOpen (formattedBoot (sampleFat 2)) [65] { rdwr := true }).map (fun r => (r.1,
      decide (slotOf r.2.disk.used 8 0 = some 0 ∧ (r.2.disk.slots 0).pos = 0))) = some (3, true) := by decide +kernel
  obtain ⟨⟨_, s⟩, hopen, h⟩ := Option.map_eq_some_iff.1 h
  simp only [Prod.mk.injEq, decide_eq_true_eq] at h
  obtain ⟨rfl, hd, hpos⟩ := h
  have hrun : Run CallStep (formattedBoot (sampleFat 2)) [.vfsOpen [65] { rdwr := true }] s := .single ⟨3, hopen⟩
  refine ⟨s, hrun, ?_⟩
  apply (((slot_buffer_iff [] Fs.cleared Fs.wf_cleared (sampleFat 2) ⟨[], []⟩ () _ s hrun).2 0 0 hd _ 1).2).2
  rw [hpos]
  decide

/-- A file of 5000 bytes opened to append: its slot is full, and a write of one byte has `4096 - 4096 - 1` bytes
copied. -/
theorem append_overruns : ∃ s,
    Run CallStep (formattedBoot (sampleFat 5000)) [.vfsOpen [65] { wronly := true, append := true }] s ∧
    slotOf s.disk.used 8 0 = some 0 ∧ (s.disk.slots 0).pos = 4096 ∧ ¬ WriteInside s.disk 0 0 (fun _ => 120) 1 := by
  have h : (vfsOpen (formattedBoot (sampleFat 5000)) [65] { wronly := true, append := true }).map (fun r => (r.1,
      decide (slotOf r.2.disk.used 8 0 = some 0 ∧ (r.2.disk.slots 0).pos = 4096),
      (diskVfsWrite r.2.disk 0 (fun _ => 120) 1).isNone)) = some (3, true, true) := by decide +kernel
  obtain ⟨⟨_, s⟩, hopen, h⟩ := Option.map_eq_some_iff.1 h
  simp only [Prod.mk.injEq, decide_eq_true_eq, Option.isNone_iff_eq_none] at h
  obtain ⟨rfl, ⟨hd, hpos⟩, hnn⟩ := h
  refine ⟨s, .single ⟨3, hopen⟩, hd, hpos, ?_⟩
  rintro ⟨n, k', h, -⟩
  rw [show (1 : UInt32).toNat = 1 from rfl, hnn] at h
  cases h

end KumOS.Vfs
