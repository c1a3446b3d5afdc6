import KumOS.Vfs.Descriptors
import KumOS.Vfs.DiskDriver

/-!
# Runs of the file system

Any calls of `vfs.c`, and those the kernel shell makes of `fs.c` and `fat12.c`
directly.  Every call keeps the table of `/mem` well formed and the position of each
slot of `/disk` within its buffer, whatever is on the disk; and once a volume has
been formatted, it stores some files (`Keeps`).
-/

namespace KumOS.Vfs

open Lib
open Fat12 (Name Stores)
open Fs (fsFind fsCreate fsWrite fsDelete Put Wf)

variable {X : Type}
variable {d fd r : Int} {path : Name} {flags : Flags} {buf buf' : Bytes} {m m' : Mem} {len : Nat}
  {fs fs' : Fs.State} {dr : Driver X} {fat : Fat12.State} {extra : List (Mount X)}
variable {i : Option Nat} {k k' : Disk} {fat' : Fat12.State}

inductive Call where
  | vfsOpen (path : Name) (flags : Flags)
  | vfsClose (fd : Int)
  | vfsRead (fd : Int) (buf : Bytes) (len : UInt32)
  | vfsWrite (fd : Int) (buf : Bytes) (len : UInt32)
  | vfsStat (path : Name)
  | vfsUnlink (path : Name)
  | vfsPipe
  | vfsDup2 (oldfd newfd : Int)
  | fsCreate (name data : Name) (exec : Int)
  | fsWrite (name data : Name)
  | fsDelete (name : Name)
  | fat12 (op : Fat12.Op)
  | fat12Format (drive : Int) (label : Option Name)

variable {c : Call} {cs : List Call}

/-- The result of a call, and the state it leaves. -/
def call (s : State X) : Call → Option (Int × State X)
  | .vfsOpen path flags => vfsOpen s path flags
  | .vfsClose fd => vfsClose s fd
  | .vfsRead fd buf len => (vfsRead s fd buf len).map fun r => (r.1, r.2.2)
  | .vfsWrite fd buf len => vfsWrite s fd buf len
  | .vfsStat path => (vfsStat s path).map fun r => (if r.1.isSome then 0 else -1, r.2)
  | .vfsUnlink path => vfsUnlink s path
  | .vfsPipe => some ((vfsPipe s (0, 0)).1, (vfsPipe s (0, 0)).2.2)
  | .vfsDup2 oldfd newfd => vfsDup2 s oldfd newfd
  | .fsCreate name data exec =>
    (fsCreate s.mem.fs name data exec).map fun r => (r.1, { s with mem := { s.mem with fs := r.2 } })
  | .fsWrite name data =>
    (fsWrite s.mem.fs name data).map fun r => (r.1, { s with mem := { s.mem with fs := r.2 } })
  | .fsDelete name =>
    some ((fsDelete s.mem.fs name).1, { s with mem := { s.mem with fs := (fsDelete s.mem.fs name).2 } })
  | .fat12 op => (Fat12.exec s.disk.fat op).map fun r => (r.1, { s with disk := { s.disk with fat := r.2 } })
  | .fat12Format drive label =>
    (Fat12.fat12Format s.disk.fat drive label).map fun r => (r.1, { s with disk := { s.disk with fat := r.2 } })

def CallStep (s : State X) (c : Call) (s' : State X) : Prop := ∃ r, call s c = some (r, s')

/-- A formatted volume, with some files. -/
def HasFiles (fat : Fat12.State) : Prop := ∃ drive files, Stores drive fat files

structure Ready (mounts : List (Mount X)) (s : State X) : Prop where
  mounts : s.mounts = mounts
  files : Wf s.mem.fs
  slots : ∀ i, SlotOk (s.disk.slots i)

structure Sound (mounts : List (Mount X)) (s : State X) : Prop extends Ready mounts s where
  volume : HasFiles s.disk.fat

/-- What a call from `s` to `s'` keeps. -/
structure Keeps (s s' : State X) : Prop where
  mounts : s'.mounts = s.mounts
  files : Wf s.mem.fs → Wf s'.mem.fs
  slots : (∀ i, SlotOk (s.disk.slots i)) → ∀ i, SlotOk (s'.disk.slots i)
  volume : HasFiles s.disk.fat → HasFiles s'.disk.fat

/-! ## `/mem` -/

theorem memTarget_spec (h : memTarget fs path flags = some (i, fs')) :
    (fs' = fs ∧ (fsFind fs path = i ∨ flags.creat = true ∧ fsFind fs path = none ∧ i = none)) ∨
    flags.creat = true ∧ fsFind fs path = none ∧ i = fsFind fs' path ∧
      ∃ j, Fs.freeFile fs = some j ∧ Put fs path [] j fs' := by
  unfold memTarget at h
  cases hfn : fsFind fs path with
  | some j =>
    simp only [hfn] at h
    cases h
    exact .inl ⟨rfl, .inl rfl⟩
  | none =>
    simp only [hfn] at h
    cases hcr : flags.creat with
    | false =>
      simp only [hcr] at h
      cases h
      exact .inl ⟨rfl, .inl rfl⟩
    | true =>
      simp only [hcr, if_true] at h
      cases hc : fsCreate fs path [] 0 with
      | none => simp [hc] at h
      | some rf =>
        obtain ⟨r, fs1⟩ := rf
        simp only [hc] at h
        rcases Fs.fsCreate_spec hc with ⟨rfl, rfl, -⟩ | ⟨rfl, -, -, j, hfr, hput⟩
        · cases h
          exact .inl ⟨rfl, .inr ⟨rfl, rfl, rfl⟩⟩
        · cases h
          exact .inr ⟨rfl, rfl, rfl, j, hfr, hput⟩

theorem memTruncate_spec (hw : Wf fs) (h : memTruncate fs path flags = some fs') :
    fs' = fs ∨ flags.trunc = true ∧ ∃ j, Put fs path [] j fs' := by
  unfold memTruncate at h
  cases htr : flags.trunc with
  | false =>
    simp only [htr] at h
    exact .inl (Option.some.inj h).symm
  | true =>
    simp only [htr, if_true] at h
    obtain ⟨⟨r, fs1⟩, hwr, rfl⟩ := Option.map_eq_some_iff.1 h
    rcases Fs.fsWrite_spec hw hwr with ⟨-, rfl, -⟩ | ⟨-, j, hput⟩
    · exact .inl rfl
    · exact .inr ⟨rfl, j, hput⟩

theorem memTarget_wf (hw : Wf fs) (h : memTarget fs path flags = some (i, fs')) : Wf fs' := by
  rcases memTarget_spec h with ⟨rfl, -⟩ | ⟨-, -, -, j, -, hput⟩
  · exact hw
  · exact hput.wf hw

theorem memVfsOpen_wf (hw : Wf m.fs) (h : memVfsOpen m path flags = some (r, m')) : Wf m'.fs := by
  obtain ⟨i, fs, htarget, hcs⟩ := memVfsOpen_cases h
  have hw1 := memTarget_wf hw htarget
  rcases hcs with ⟨-, -, rfl⟩ | ⟨f, fs', -, htr, hend⟩
  · exact hw1
  have hw2 : Wf fs' := by
    rcases memTruncate_spec hw1 htr with rfl | ⟨-, j, hput⟩
    · exact hw1
    · exact hput.wf hw1
  rcases hend with ⟨-, rfl⟩ | ⟨d, -, -, rfl⟩
  · exact hw2
  · exact hw2

/-- Without `O_CREAT` and `O_TRUNC` the files stay as they are. -/
theorem memVfsOpen_fs (hcr : flags.creat = false) (htr : flags.trunc = false)
    (h : memVfsOpen m path flags = some (r, m')) : m'.fs = m.fs := by
  unfold memVfsOpen memTarget memTruncate at h
  simp only [hcr, htr] at h
  cases hfn : fsFind m.fs path with
  | none =>
    simp only [hfn] at h
    cases h
    rfl
  | some i =>
    simp only [hfn] at h
    cases hsl : memFreeSlot m with
    | none | some d =>
      simp only [hsl] at h
      cases h
      rfl

theorem memVfsRead_fs (h : memVfsRead m d buf len = some (r, buf', m')) : m'.fs = m.fs := by
  rcases memVfsRead_cases h with rfl | ⟨i, pos, -, rfl⟩
  · rfl
  · rfl

/-- What `mem_vfs_write` keeps of the file. -/
def keepLen (m : Mem) (d : Nat) : Nat :=
  if (m.slots d).pos < (m.file d).size then (m.slots d).pos else (m.file d).size

/-- The ways a `mem_vfs_write` to a slot in use can end. -/
theorem memVfsWrite_cases {i : Nat} (hd : slotOf m.used 16 d = some i) (h : memVfsWrite m d buf len = some (r, m')) :
    (¬ u32 (keepLen m i + len) < 4095 ∧ r = i32 len ∧ m' = m) ∨
    (keepLen m i + len < 4095 ∧ r = i32 len ∧ ∃ w fs,
      fsWrite m.fs (m.file i).name ((m.file i).data.toList (keepLen m i) ++ buf.toList len) =
        some (w, fs) ∧
      m' = ⟨Function.update m.slots i { m.slots i with pos := u32 ((m.slots i).pos + len) }, fs⟩) := by
  have hkp : (if (m.slots i).pos < (m.file i).size then (m.slots i).pos else (m.file i).size) =
      keepLen m i := rfl
  unfold memVfsWrite at h
  simp only [hd, hkp] at h
  split at h
  · rename_i hlt
    split at h
    · cases h
    have hsum : keepLen m i + len < 4095 := by
      unfold u32 at hlt
      omega
    cases hwr : fsWrite m.fs (m.file i).name
        ((m.file i).data.toList (keepLen m i) ++ buf.toList len) with
    | none => simp [hwr] at h
    | some wf =>
      obtain ⟨w, fs⟩ := wf
      simp only [hwr] at h
      cases h
      exact .inr ⟨hsum, rfl, w, fs, rfl, rfl⟩
  · rename_i hge
    cases h
    exact .inl ⟨hge, rfl, rfl⟩

theorem memVfsWrite_moves (h : memVfsWrite m d buf len = some (r, m')) :
    m' = m ∨ ∃ i pos fs w data, slotOf m.used 16 d = some i ∧ fsWrite m.fs (m.file i).name data = some (w, fs) ∧
      m' = ⟨Function.update m.slots i { m.slots i with pos := pos }, fs⟩ := by
  cases hd : slotOf m.used 16 d with
  | none =>
    unfold memVfsWrite at h
    simp only [hd] at h
    cases h
    exact .inl rfl
  | some i =>
    rcases memVfsWrite_cases hd h with ⟨-, -, rfl⟩ | ⟨-, -, w, fs, hwr, rfl⟩
    · exact .inl rfl
    · exact .inr ⟨i, _, fs, w, _, rfl, hwr, rfl⟩

theorem memVfsWrite_wf (hw : Wf m.fs) (h : memVfsWrite m d buf len = some (r, m')) : Wf m'.fs := by
  rcases memVfsWrite_moves h with rfl | ⟨i, pos, fs, w, data, -, hwr, rfl⟩
  · exact hw
  rcases Fs.fsWrite_spec hw hwr with ⟨-, rfl, -⟩ | ⟨-, j, hput⟩
  · exact hw
  · exact hput.wf hw

/-! ## `/disk` -/

theorem slotsOk_update {slots : Nat → DiskSlot} (h : ∀ i, SlotOk (slots i)) {i : Nat} {sl : DiskSlot}
    (hsl : SlotOk sl) (j : Nat) : SlotOk (Function.update slots i sl j) := by
  by_cases hj : j = i
  · rw [hj, Function.update_self]
    exact hsl
  · rw [Function.update_of_ne hj]
    exact h j

theorem diskVfsOpen_slotsOk (hk : ∀ i, SlotOk (k.slots i)) (h : diskVfsOpen k path flags = some (r, k'))
    (i : Nat) : SlotOk (k'.slots i) := by
  rcases diskVfsOpen_cases h with ⟨-, hss⟩ | ⟨d, buf, n, -, -, hn, hss⟩
  · rw [hss]
    exact hk i
  · rw [hss]
    exact slotsOk_update hk (openedSlot_ok path flags _ hn) i

theorem HasFiles.diskVfsOpen (h : HasFiles k.fat) (hopen : diskVfsOpen k path flags = some (r, k')) :
    HasFiles k'.fat := by
  obtain ⟨drive, files, hS⟩ := h
  obtain ⟨r1, k1, hsc, hcs⟩ := diskVfsOpen_spec hS path flags
  rw [hopen] at hsc
  cases hsc
  rcases hcs with ⟨-, -, hS', -⟩ | ⟨i, -, -, hod⟩
  · exact ⟨drive, files, hS'⟩
  · cases hod with
    | found data buf _ hS' => exact ⟨drive, files, hS'⟩
    | created buf w _ _ hS' => exact ⟨drive, _, hS'⟩

theorem HasFiles.exec (h : HasFiles fat) (op : Fat12.Op) (hop : Fat12.exec fat op = some (r, fat')) :
    HasFiles fat' := by
  obtain ⟨drive, files, hS⟩ := h
  exact ⟨drive, _, hS.step hop⟩

/-! ## The calls keep the invariant -/

section

variable {s s' s'' : State X}

theorem Keeps.trans (h : Keeps s s') (h' : Keeps s' s'') : Keeps s s'' :=
  ⟨h'.mounts.trans h.mounts, fun hw => h'.files (h.files hw), fun hk => h'.slots (h.slots hk),
    fun hv => h'.volume (h.volume hv)⟩

theorem keeps_of_eq (hmt : s'.mounts = s.mounts) (hfs : s'.mem.fs = s.mem.fs)
    (hdk : s'.disk = s.disk) : Keeps s s' := by
  refine ⟨hmt, fun hw => ?_, fun hk => ?_, fun hv => ?_⟩
  · rw [hfs]
    exact hw
  · rw [hdk]
    exact hk
  · rw [hdk]
    exact hv

theorem Keeps.refl (s : State X) : Keeps s s := keeps_of_eq rfl rfl rfl

theorem keeps_setFd (s : State X) (fd : Nat) (e : Fd) : Keeps s (s.setFd fd e) :=
  keeps_of_eq rfl rfl rfl

theorem keeps_setFs (hw : Wf s.mem.fs → Wf fs) : Keeps s { s with mem := { s.mem with fs := fs } } :=
  ⟨rfl, hw, id, id⟩

theorem keeps_setFat (hv : HasFiles s.disk.fat → HasFiles fat) :
    Keeps s { s with disk := { s.disk with fat := fat } } :=
  ⟨rfl, id, id, hv⟩

theorem Looked.keeps (h : Looked s s') : Keeps s s' := by
  obtain ⟨sec, hsec⟩ := h.fat
  refine ⟨h.mounts, fun hw => ?_, fun hk => ?_, fun hv => ?_⟩
  · rw [h.mem]
    exact hw
  · rw [h.slots]
    exact hk
  · obtain ⟨drive, files, hS⟩ := hv
    rw [hsec]
    exact ⟨drive, files, hS.setSector sec⟩

theorem Driver.open_keeps (hopen : dr.open s path flags = some (r, s')) : Keeps s s' := by
  cases dr.open_changes hopen with
  | mem hmem => exact ⟨rfl, fun hw => memVfsOpen_wf hw hmem, id, id⟩
  | disk hdk => exact ⟨rfl, id, fun hk => diskVfsOpen_slotsOk hk hdk, fun hv => hv.diskVfsOpen hdk⟩
  | dev v | other o ext => exact keeps_of_eq rfl rfl rfl

theorem keeps_release (s : State X) (i : Nat) (hv : HasFiles s.disk.fat → HasFiles fat) :
    Keeps s { s with disk := s.disk.release i fat } := by
  refine ⟨rfl, id, fun hk => ?_, hv⟩
  have hsl : SlotOk { s.disk.slots i with used := false } := ⟨(hk i).pos, (hk i).size⟩
  exact slotsOk_update hk hsl

theorem memVfsClose_fs (m : Mem) (d : Int) : (memVfsClose m d).fs = m.fs := by
  unfold memVfsClose
  split <;> rfl

theorem Driver.close_keeps (hclo : dr.close s d = some s') : Keeps s s' := by
  cases dr.close_changes hclo with
  | mem hmem =>
    subst hmem
    exact keeps_of_eq rfl (memVfsClose_fs s.mem d) rfl
  | disk hdk =>
    rcases diskVfsClose_cases hdk with ⟨-, rfl⟩ | ⟨i, fat, -, rfl, rfl | ⟨r, hwr⟩⟩
    · exact .refl s
    · exact keeps_release s i id
    · exact keeps_release s i fun hv => hv.exec (s.disk.slots i).writeBack hwr
  | dev v | other o ext => exact keeps_of_eq rfl rfl rfl

theorem Driver.read_keeps (hk : ∀ i, SlotOk (s.disk.slots i))
    (hrd : dr.read s d buf len = some (r, buf', s')) : Keeps s s' := by
  cases dr.read_changes hrd with
  | mem hmem => exact keeps_of_eq rfl (memVfsRead_fs hmem) rfl
  | disk hdk =>
    cases hd : slotOf s.disk.used 8 d with
    | none =>
      unfold diskVfsRead at hdk
      simp only [hd] at hdk
      cases hdk
      exact .refl s
    | some i =>
      have hpos := (hk i).pos
      rw [diskVfsRead_spec hd (hk i) _ rfl] at hdk
      cases hdk
      have hsl : SlotOk { s.disk.slots i with
          pos := (s.disk.slots i).pos + min len ((s.disk.slots i).size - (s.disk.slots i).pos) } := by
        refine ⟨?_, (hk i).size⟩
        show (s.disk.slots i).pos + _ ≤ (s.disk.slots i).size
        omega
      exact ⟨rfl, id, fun _ => slotsOk_update hk hsl, id⟩
  | dev v | other o ext => exact keeps_of_eq rfl rfl rfl

theorem Driver.write_keeps (hk : ∀ i, SlotOk (s.disk.slots i)) (hwr : dr.write s d buf len = some (r, s')) :
    Keeps s s' := by
  cases dr.write_changes hwr with
  | mem hmem => exact ⟨rfl, fun hw => memVfsWrite_wf hw hmem, id, id⟩
  | disk hdk =>
    rcases diskVfsWrite_moves hdk with rfl | ⟨i, n, -, hn, rfl⟩
    · exact .refl s
    have hpos := (hk i).pos
    have hsz := (hk i).size
    exact ⟨rfl, id, fun _ => slotsOk_update hk ((hk i).put buf (by omega)), id⟩
  | dev v | other o ext => exact keeps_of_eq rfl rfl rfl

theorem Driver.unlink_keeps (hunlink : dr.unlink s path = (r, s')) : Keeps s s' := by
  cases dr.unlink_changes hunlink with
  | mem hmem =>
    subst hmem
    exact keeps_setFs fun hw => Fs.fsDelete_wf hw path
  | disk hdk =>
    subst hdk
    exact keeps_setFat fun hv => hv.exec (.delete (diskName path)) rfl
  | dev v | other o ext => exact keeps_of_eq rfl rfl rfl

theorem vfsOpen_keeps (hopen : vfsOpen s path flags = some (r, s')) : Keeps s s' := by
  obtain ⟨m, s1, -, hlk, hcs⟩ := vfsOpen_cases hopen
  rcases hcs with ⟨-, -, rfl⟩ | ⟨midx, rest, dr, data, s2, -, -, hdv, hend⟩
  · exact hlk.keeps
  have h2 := hlk.keeps.trans (dr.open_keeps hdv)
  rcases hend with ⟨-, -, rfl⟩ | ⟨-, hfinish⟩
  · exact h2
  · rcases finishOpen_cases hfinish with ⟨-, -, hclo⟩ | ⟨fd, -, -, rfl⟩
    · exact h2.trans (dr.close_keeps hclo)
    · exact h2.trans (keeps_setFd _ _ _)

theorem vfsClose_keeps (hclo : vfsClose s fd = some (r, s')) : Keeps s s' := by
  rcases vfsClose_cases hclo with ⟨-, rfl⟩ | ⟨k, -, ⟨-, pipes, rfl⟩ | ⟨dr, s1, -, -, hdclose, rfl⟩⟩
  · exact .refl s'
  · exact keeps_of_eq rfl rfl rfl
  · exact (dr.close_keeps hdclose).trans (keeps_setFd _ _ _)

theorem keeps_advance (s : State X) (fd : Nat) (n : Int) : Keeps s (s.advance fd n) := by
  obtain ⟨pos, hav⟩ := advance_eq s fd n
  rw [hav]
  exact keeps_of_eq rfl rfl rfl

theorem vfsRead_keeps (hss : ∀ i, SlotOk (s.disk.slots i)) {len : UInt32}
    (hrd : vfsRead s fd buf len = some (r, buf', s')) : Keeps s s' := by
  rcases vfsRead_cases hrd with ⟨pipes, rfl⟩ | ⟨k, dr, s1, -, -, -, hdread, rfl⟩
  · exact keeps_of_eq rfl rfl rfl
  · exact (dr.read_keeps hss hdread).trans (keeps_advance s1 k r)

theorem vfsWrite_keeps (hss : ∀ i, SlotOk (s.disk.slots i)) {len : UInt32}
    (hwr : vfsWrite s fd buf len = some (r, s')) : Keeps s s' := by
  rcases vfsWrite_cases hwr with ⟨-, pipes, rfl⟩ | ⟨k, dr, s1, -, -, -, hdwrite, rfl⟩
  · exact keeps_of_eq rfl rfl rfl
  · exact (dr.write_keeps hss hdwrite).trans (keeps_advance s1 k r)

theorem vfsStat_looked {st : Option Stat} (hstat : vfsStat s path = some (st, s')) : Looked s s' := by
  unfold vfsStat at hstat
  cases hres : resolve path with
  | none => simp [hres] at hstat
  | some resolved =>
    simp only [hres] at hstat
    cases hm : findMount s.mounts resolved with
    | none =>
      simp only [hm] at hstat
      cases hstat
      exact .refl s
    | some ir =>
      obtain ⟨i, rest⟩ := ir
      simp only [hm] at hstat
      cases hdr : s.driver i with
      | none => simp [hdr] at hstat
      | some dr =>
        simp only [hdr] at hstat
        exact dr.stat_looked hstat

theorem vfsUnlink_keeps (hunlink : vfsUnlink s path = some (r, s')) : Keeps s s' := by
  rcases vfsUnlink_cases hunlink with rfl | ⟨dr, rest, hdv⟩
  · exact .refl s'
  · exact dr.unlink_keeps hdv

theorem vfsPipe_keeps (s : State X) (fds : Int × Int) : Keeps s (vfsPipe s fds).2.2 := by
  cases hsl : Pipes.freeSlot s.pipes with
  | none =>
    rw [vfsPipe_no_slot hsl]
    exact .refl s
  | some i =>
    cases hfd : allocFd s with
    | none =>
      rw [vfsPipe_no_fd hsl hfd]
      exact keeps_of_eq rfl rfl rfl
    | some fd =>
      rw [vfsPipe_done hsl hfd]
      exact keeps_of_eq rfl rfl rfl

theorem call_keeps (hss : ∀ i, SlotOk (s.disk.slots i)) (hca : call s c = some (r, s')) : Keeps s s' := by
  cases c with
  | vfsOpen path flags => exact vfsOpen_keeps hca
  | vfsClose fd => exact vfsClose_keeps hca
  | vfsRead fd buf len =>
    obtain ⟨⟨n, b, s1⟩, hrd, heq⟩ := Option.map_eq_some_iff.1 hca
    cases heq
    exact vfsRead_keeps hss hrd
  | vfsWrite fd buf len => exact vfsWrite_keeps hss hca
  | vfsStat path =>
    obtain ⟨⟨st, s1⟩, hstat, heq⟩ := Option.map_eq_some_iff.1 hca
    cases heq
    exact (vfsStat_looked hstat).keeps
  | vfsUnlink path => exact vfsUnlink_keeps hca
  | vfsPipe =>
    cases hca
    exact vfsPipe_keeps s (0, 0)
  | vfsDup2 oldfd newfd =>
    rcases vfsDup2_cases hca with ⟨-, -, rfl⟩ | ⟨old, new, -, -, -, -, hcs⟩
    · exact .refl s'
    · rcases hcs with ⟨-, rfl⟩ | ⟨-, r1, s1, hclo, rfl⟩
      · exact keeps_setFd _ _ _
      · exact (vfsClose_keeps hclo).trans (keeps_setFd _ _ _)
  | fsCreate name data exec =>
    obtain ⟨⟨n, fs⟩, hfs, heq⟩ := Option.map_eq_some_iff.1 hca
    cases heq
    apply keeps_setFs
    intro hw
    rcases Fs.fsCreate_spec hfs with ⟨-, rfl, -⟩ | ⟨-, -, -, i, -, hput⟩
    · exact hw
    · exact hput.wf hw
  | fsWrite name data =>
    obtain ⟨⟨n, fs⟩, hfs, heq⟩ := Option.map_eq_some_iff.1 hca
    cases heq
    apply keeps_setFs
    intro hw
    rcases Fs.fsWrite_spec hw hfs with ⟨-, rfl, -⟩ | ⟨-, i, hput⟩
    · exact hw
    · exact hput.wf hw
  | fsDelete name =>
    cases hca
    exact keeps_setFs fun hw => Fs.fsDelete_wf hw name
  | fat12 op =>
    obtain ⟨⟨n, fat⟩, hop, heq⟩ := Option.map_eq_some_iff.1 hca
    cases heq
    exact keeps_setFat fun hv => hv.exec op hop
  | fat12Format drive label =>
    obtain ⟨⟨n, fat⟩, hfm, heq⟩ := Option.map_eq_some_iff.1 hca
    cases heq
    refine keeps_setFat fun ⟨_, _, hS⟩ => ?_
    obtain ⟨fat1, hsc, hS', -⟩ := Fat12.fat12Format_spec hS.1.ok drive label
    rw [hfm] at hsc
    cases hsc
    exact ⟨drive, _, hS'⟩

end

/-! ## Runs -/

section

variable {mounts : List (Mount X)} {s s' : State X}

theorem Ready.keeps (h : Ready mounts s) (hkeeps : Keeps s s') : Ready mounts s' :=
  ⟨hkeeps.mounts.trans h.mounts, hkeeps.files h.files, hkeeps.slots h.slots⟩

theorem Sound.keeps (h : Sound mounts s) (hkeeps : Keeps s s') : Sound mounts s' :=
  ⟨h.toReady.keeps hkeeps, hkeeps.volume h.volume⟩

theorem Ready.run (h : Ready mounts s) (hrun : Run CallStep s cs s') : Ready mounts s' := by
  refine hrun.invariant (Ready mounts) h fun s1 c s2 h1 hsp => ?_
  obtain ⟨r, hca⟩ := hsp
  exact h1.keeps (call_keeps h1.slots hca)

theorem Sound.run (h : Sound mounts s) (hrun : Run CallStep s cs s') : Sound mounts s' := by
  refine hrun.invariant (Sound mounts) h fun s1 c s2 h1 hsp => ?_
  obtain ⟨r, hca⟩ := hsp
  exact h1.keeps (call_keeps h1.slots hca)

theorem ready_boot (extra : List (Mount X)) (hw : Wf fs) (fat : Fat12.State) (dev : Dev) (ext : X) :
    Ready (initMounts ++ extra) (boot extra fs fat dev ext) :=
  ⟨rfl, hw, fun _ => ⟨Nat.le_refl 0, Nat.zero_le 4096⟩⟩

/-- The states after `vfs_init` and a successful `fat12_format`, with any calls before and after the
format, on a disk all of whose sectors can be read and written. -/
def AfterFormat (extra : List (Mount X)) (s : State X) : Prop :=
  ∃ fs fat dev ext before s0 drive label fat1 after, Wf fs ∧
    Run CallStep (boot extra fs fat dev ext) before s0 ∧
    (∀ d l, s0.disk.fat.ata.ok d l = true) ∧
    Fat12.fat12Format s0.disk.fat drive label = some (0, fat1) ∧
    Run CallStep { s0 with disk := { s0.disk with fat := fat1 } } after s

theorem AfterFormat.sound (h : AfterFormat extra s) : Sound (initMounts ++ extra) s := by
  obtain ⟨fs, fat, dev, ext, before, s0, drive, label, fat1, after, hw, hbf, hok, hfm,
    haf⟩ := h
  have h0 := (ready_boot extra hw fat dev ext).run hbf
  have hS := (Fat12.format_stores hok hfm).1
  have h1 : Sound (initMounts ++ extra) { s0 with disk := { s0.disk with fat := fat1 } } :=
    ⟨⟨h0.mounts, h0.files, h0.slots⟩, drive, _, hS⟩
  exact h1.run haf

/-- The states of the kernel with a volume: after a format, or booted with a volume that stores files
already. -/
def Reached (extra : List (Mount X)) (s : State X) : Prop :=
  AfterFormat extra s ∨ ∃ fs fat dev ext cs, Wf fs ∧ HasFiles fat ∧
    Run CallStep (boot extra fs fat dev ext) cs s

theorem Reached.step (h : Reached extra s) (hca : CallStep s c s') : Reached extra s' := by
  rcases h with ⟨fs, fat, dev, ext, before, s0, drive, label, fat1, after, hw, hbf, hok, hfm, haf⟩ |
    ⟨fs, fat, dev, ext, cs, hw, hfat, hrun⟩
  · exact .inl ⟨fs, fat, dev, ext, before, s0, drive, label, fat1, _, hw, hbf, hok, hfm,
      haf.snoc hca⟩
  · exact .inr ⟨fs, fat, dev, ext, _, hw, hfat, hrun.snoc hca⟩

theorem Reached.sound (h : Reached extra s) : Sound (initMounts ++ extra) s := by
  rcases h with h | ⟨fs, fat, dev, ext, cs, hw, hfat, hrun⟩
  · exact h.sound
  · have h0 := ready_boot extra hw fat dev ext
    exact Sound.run ⟨h0, hfat⟩ hrun

end

end KumOS.Vfs
