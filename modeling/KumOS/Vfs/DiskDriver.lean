import KumOS.Vfs.Calls

/-!
# The driver of `/disk` over a volume

A slot buffers the first 4096 bytes of its file; `disk_vfs_close` writes the buffer
back.  Here each function of the driver is described by what it does to the files of
the volume (`Stores`) and to its slots.
-/

namespace KumOS.Vfs

open Lib
open Fat12 (Name Files Stores fat12Write nameTo83 readResult)

variable {d : Int} {i len : Nat}
variable {n : Nat} {sl : DiskSlot}

/-- The key of the file a path names on the volume. -/
def diskKey (path : Name) : List UInt8 := nameTo83 (diskName path)

/-- The position of a slot is within what it holds. -/
structure SlotOk (sl : DiskSlot) : Prop where
  pos : sl.pos ≤ sl.size
  size : sl.size ≤ 4096

section

variable {drive : Int} {k : Disk} {files : Files} {path : Name} {flags : Flags}

/-! ## Opening -/

theorem openedSlot_ok (path : Name) (flags : Flags) (buf : Bytes) (hn : n ≤ 4096) :
    SlotOk (openedSlot path flags buf n) := by
  constructor
  · show (if flags.trunc then 0 else if flags.append then n else 0) ≤ if flags.trunc then 0 else n
    split
    · omega
    · split <;> omega
  · show (if flags.trunc then 0 else n) ≤ 4096
    split <;> omega

/-- What opening does, when there is a slot. -/
inductive DiskOpened (drive : Int) (files : Files) (path : Name) (flags : Flags) (k k' : Disk) (i : Nat) :
    Prop where
  | found (data : List UInt8) (buf : Bytes) (hfile : files (diskKey path) = some data)
      (hS : Stores drive k'.fat files)
      (hbuf : buf.toList (min data.length 4096) = data.take 4096)
      (hslots : k'.slots =
        Function.update k.slots i (openedSlot path flags buf (min data.length 4096)))
  | created (buf : Bytes) (w : Int) (hfile : files (diskKey path) = none) (hcreat : flags.creat = true)
      (hS : Stores drive k'.fat (files.after (.write (diskName path) (fun _ => 0) 0) w))
      (hslots : k'.slots = Function.update k.slots i (openedSlot path flags buf 0))

theorem diskVfsOpen_spec (hS : Stores drive k.fat files) (path : Name) (flags : Flags) :
    ∃ r k', diskVfsOpen k path flags = some (r, k') ∧
      (r = -1 ∧ k'.slots = k.slots ∧ Stores drive k'.fat files ∧
          (diskFreeSlot k = none ∨ files (diskKey path) = none ∧ flags.creat = false) ∨
        ∃ i : Nat, diskFreeSlot k = some i ∧ r = i ∧ DiskOpened drive files path flags k k' i) := by
  have ⟨hF, ch, hH⟩ := hS
  obtain ⟨sec, hrd⟩ := Fat12.fat12Read_spec hF hH (diskName path) 4096
  have hmounted : ¬ (!k.fat.mounted) = true := hS.1.not_unmounted
  unfold diskVfsOpen
  rw [if_neg hmounted]
  cases hsl : diskFreeSlot k with
  | none => exact ⟨-1, k, rfl, .inl ⟨rfl, rfl, hS, .inl rfl⟩⟩
  | some i =>
    simp only [hrd]
    cases hfl : files (nameTo83 (diskName path)) with
    | none =>
      cases hcr : flags.creat with
      | false =>
        exact ⟨-1, _, rfl, .inl ⟨rfl, rfl, hS.setSector sec, .inr ⟨hfl, rfl⟩⟩⟩
      | true =>
        obtain ⟨w, fat, hwr, hS'⟩ :=
          Fat12.exec_spec (hS.setSector sec) (.write (diskName path) (fun _ => 0) 0)
        have hwrite' : fat12Write { k.fat with sector := sec } (diskName path) (fun _ => 0) 0 =
            some (w, fat) := hwr
        rw [if_pos rfl, hwrite']
        exact ⟨i, _, rfl, .inr ⟨i, rfl, rfl, .created _ w hfl hcr hS' rfl⟩⟩
    | some data =>
      have hlen : (data.take 4096).length = min data.length 4096 := by
        rw [List.length_take, Nat.min_comm]
      refine ⟨i, _, rfl, .inr ⟨i, rfl, rfl, .found data _ hfl (hS.setSector sec) ?_ rfl⟩⟩
      rw [← hlen]
      exact Bytes.toList_copy_ofList _ _

/-! ## Closing -/

/-- The file that a slot is written back to, and the bytes. -/
def DiskSlot.writeBack (sl : DiskSlot) : Fat12.Op := .write sl.name sl.buf (UInt32.ofNat sl.size)

theorem SlotOk.toNat_size (h : SlotOk sl) : (UInt32.ofNat sl.size).toNat = sl.size := by
  rw [UInt32.toNat_ofNat']
  have := h.size
  omega

theorem diskVfsClose_spec (hS : Stores drive k.fat files) (hd : slotOf k.used 8 d = some i) :
    ∃ fat, diskVfsClose k d = some (k.release i fat) ∧
      (¬ ((k.slots i).writable = true ∧ 0 < (k.slots i).size) ∧ fat = k.fat ∨
        ((k.slots i).writable = true ∧ 0 < (k.slots i).size) ∧ ∃ w,
          Fat12.exec k.fat (k.slots i).writeBack = some (w, fat) ∧
          Stores drive fat (files.after (k.slots i).writeBack w)) := by
  unfold diskVfsClose
  simp only [hd]
  by_cases hbk : (k.slots i).writable = true ∧ 0 < (k.slots i).size
  · obtain ⟨w, fat, hwr, hS'⟩ := Fat12.exec_spec hS (k.slots i).writeBack
    have hwrite' : fat12Write k.fat (k.slots i).name (k.slots i).buf
        (UInt32.ofNat (k.slots i).size) = some (w, fat) := hwr
    rw [if_pos hbk, hwrite']
    exact ⟨fat, rfl, .inr ⟨hbk, w, hwr, hS'⟩⟩
  · rw [if_neg hbk]
    exact ⟨k.fat, rfl, .inl ⟨hbk, rfl⟩⟩

/-! ## Reading and writing -/

theorem readLen_eq {size pos : Nat} (hpos : pos ≤ size) (hsz : size < 2 ^ 32) :
    readLen size pos len = min len (size - pos) := by
  have havail : u32 (size + 2 ^ 32 - pos) = size - pos := by
    unfold u32
    omega
  unfold readLen
  simp only [havail]
  split <;> omega

section

variable (hd : slotOf k.used 8 d = some i)
include hd

theorem diskVfsRead_spec (hok : SlotOk (k.slots i)) (buf : Bytes) {n : Nat}
    (hn : n = min len ((k.slots i).size - (k.slots i).pos)) : diskVfsRead k d buf len =
      some ((n : Int), buf.copy 0 ((k.slots i).buf.drop (k.slots i).pos) n,
        { k with slots := Function.update k.slots i { k.slots i with pos := (k.slots i).pos + n } }) := by
  have hpos := hok.pos
  have hsz := hok.size
  have hlen : readLen (k.slots i).size (k.slots i).pos len = n := hn ▸ readLen_eq hpos (by omega)
  have hint : i32 n = (n : Int) := i32_of_lt (by omega)
  have hu : u32 ((k.slots i).pos + n) = (k.slots i).pos + n := by
    unfold u32
    omega
  unfold diskVfsRead
  simp only [hd, hlen, hint, hu]
  rw [if_neg (by omega)]

/-- A write that stays below the end of the buffer is taken whole. -/
theorem diskVfsWrite_spec (buf : Bytes) (hfit : (k.slots i).pos + len < 4096) : diskVfsWrite k d buf len =
      some ((len : Int), { k with slots := Function.update k.slots i ((k.slots i).put buf len) }) := by
  have hu : u32 ((k.slots i).pos + len) = (k.slots i).pos + len := by
    unfold u32
    omega
  have hint : i32 len = (len : Int) := i32_of_lt (by omega)
  have hclip : (if 4096 ≤ (k.slots i).pos + len then u32 (4096 + 2 ^ 32 - (k.slots i).pos - 1)
      else len) = len := if_neg (by omega)
  unfold diskVfsWrite
  simp only [hd, hu, hclip]
  rw [if_neg (by omega), hint]

end

theorem SlotOk.put (hok : SlotOk sl) (buf : Bytes) (hn : sl.pos + n ≤ 4096) : SlotOk (sl.put buf n) := by
  have hsz := hok.size
  have hu : u32 (sl.pos + n) = sl.pos + n := by
    unfold u32
    omega
  unfold DiskSlot.put
  simp only [hu]
  constructor
  · show sl.pos + n ≤ if sl.size < sl.pos + n then sl.pos + n else sl.size
    split <;> omega
  · split <;> omega

end

end KumOS.Vfs
