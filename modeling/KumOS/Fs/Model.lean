import KumOS.Kstring

/-!
# `fs.c`: files in memory

The table `files[FS_MAX_FILES]` is a function of the slot number.  The bytes of a
file are a C string: `fs_create` and `fs_write` copy up to the first zero byte, and
what lies behind it in `data` stays from before.  A name of 64 bytes or more does not
fit into its field; a call that would copy one has no result (`none`).
-/

namespace KumOS.Fs

open Lib
open Fat12 (Name)

/-- `fs_file_t` -/
structure File where
  name : Name
  data : Bytes
  size : Nat
  used : Bool
  executable : Int

structure State where
  files : Nat → File
  fileCount : Int

/-- The table after `kmemset`. -/
def cleared : State where
  files := fun _ => ⟨[], fun _ => 0, 0, false, 0⟩
  fileCount := 0

/-- The slot of the file `fs_find` returns a pointer to. -/
def fsFind (s : State) (name : Name) : Option Nat :=
  (List.range 32).find? fun i => (s.files i).used && kstrcmp (s.files i).name name == 0

/-- The first slot that is not in use. -/
def freeFile (s : State) : Option Nat := (List.range 32).find? fun i => !(s.files i).used

/-- What fits into `data`: `FS_MAX_DATA - 1` bytes and a zero byte. -/
def stored (data : Name) : List UInt8 := (cstr data).take 4095

/-- The lines of `fs_create` and `fs_write` that copy the data. -/
def File.store (f : File) (data : Name) : File :=
  let len := if 4096 ≤ kstrlen data then 4095 else kstrlen data
  { f with data := (f.data.copy 0 (.ofList data) len).put8 len 0, size := len }

def fsCreate (s : State) (name data : Name) (exec : Int) : Option (Int × State) :=
  if (fsFind s name).isSome then some (-1, s)
  else
    match freeFile s with
    | none => some (-1, s)
    | some i =>
      if 64 ≤ kstrlen name then none
      else
        some (0, {
          files := Function.update s.files i
            { (s.files i).store data with name := cstr name, used := true, executable := exec }
          fileCount := s.fileCount + 1 })

def fsWrite (s : State) (name data : Name) : Option (Int × State) :=
  match fsFind s name with
  | none => fsCreate s name data 0
  | some i => some (0, { s with files := Function.update s.files i ((s.files i).store data) })

def fsDelete (s : State) (name : Name) : Int × State :=
  match fsFind s name with
  | none => (-1, s)
  | some i =>
    (0, {
      files := Function.update s.files i { s.files i with used := false }
      fileCount := s.fileCount - 1 })

/-! ## The files as a map -/

def File.contents (f : File) : List UInt8 := f.data.toList f.size

def lookup (s : State) (name : Name) : Option (List UInt8) :=
  (fsFind s name).map fun i => (s.files i).contents

/-- What every call keeps.  Names and contents are texts, and no two files have one name. -/
structure Wf (s : State) : Prop where
  name : ∀ i, 0 ∉ (s.files i).name
  unique : ∀ i j, i < 32 → j < 32 → (s.files i).used → (s.files j).used →
    (s.files i).name = (s.files j).name → i = j
  size : ∀ i, (s.files i).size ≤ 4095
  text : ∀ i, 0 ∉ (s.files i).contents

theorem wf_cleared : Wf cleared where
  name := fun _ => by simp [cleared]
  unique := fun _ _ _ _ hi => by cases hi
  size := fun _ => Nat.zero_le _
  text := fun _ => by simp [cleared, File.contents, Bytes.toList]

@[simp] theorem store_name (f : File) (data : Name) : (f.store data).name = f.name := rfl

@[simp] theorem store_used (f : File) (data : Name) : (f.store data).used = f.used := rfl

theorem store_size (f : File) (data : Name) : (f.store data).size = (stored data).length := by
  unfold File.store stored kstrlen
  rw [List.length_take]
  show (if _ then _ else _) = _
  split <;> omega

theorem cstr_getD {data : Name} {i : Nat} (h : i < (cstr data).length) : data.getD i 0 = (cstr data)[i] := by
  have hpre : cstr data <+: data := List.takeWhile_prefix _
  have hlt : i < data.length := Nat.lt_of_lt_of_le h hpre.length_le
  rw [List.getD_eq_getElem?_getD, List.getElem?_eq_getElem hlt, Option.getD_some]
  exact (hpre.getElem h).symm

@[simp] theorem contents_store (f : File) (data : Name) : (f.store data).contents = stored data := by
  have hlen := store_size f data
  have hle : (stored data).length ≤ (cstr data).length := by
    rw [stored, List.length_take]
    omega
  unfold File.contents
  rw [hlen]
  apply List.ext_getElem
  · simp
  · intro i hi hi'
    have hda : (f.store data).data i = data.getD i 0 := by
      have hl : (if 4096 ≤ kstrlen data then 4095 else kstrlen data) = (stored data).length := hlen
      unfold File.store
      simp only [hl]
      rw [Bytes.put8_ne _ (by omega), Bytes.copy_of_in _ _ (by omega)]
      rfl
    simp only [Bytes.toList, List.getElem_map, List.getElem_range]
    rw [hda, cstr_getD (by omega)]
    simp [stored]

end KumOS.Fs
