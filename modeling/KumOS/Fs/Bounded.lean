import KumOS.Fs.Table
import KumOS.Lib.Count
import KumOS.Lib.Run

/-!
# `fs.c` is a bounded map

From the table `fs_init` clears, whatever is created, written, deleted and
looked up, `files` is a map from names to texts with room for 32 of them:
`file_count` counts the slots in use, a call fails exactly when the map says so,
and a call that fails changes nothing.
-/

namespace KumOS.Fs

open Lib
open Fat12 (Name)
open Function (update update_self update_of_ne)

variable {s s' : State} {i : Nat}

/-- A file of that name. -/
def Present (s : State) (name : Name) : Prop :=
  ∃ i < 32, (s.files i).used = true ∧ (s.files i).name = cstr name

/-- The slots in use. -/
def usedSlots (s : State) : Nat := tally (fun i => (s.files i).used) 32

/-- `files[i].data` is a string of length `files[i].size`. -/
def File.Terminated (f : File) : Prop := f.data f.size = 0 ∧ ∀ k < f.size, f.data k ≠ 0

/-! ## Calls -/

inductive Op
  | create (name data : Name) (exec : Int)
  | write (name data : Name)
  | delete (name : Name)
  | find (name : Name)

def Op.name : Op → Name
  | .create n _ _ => n
  | .write n _ => n
  | .delete n => n
  | .find n => n

/-- The value returned, and the table afterwards; `fs_find` returns the slot. -/
def call (s : State) : Op → Option (Int × State)
  | .create n d e => fsCreate s n d e
  | .write n d => fsWrite s n d
  | .delete n => some (fsDelete s n)
  | .find n => some ((fsFind s n).elim (-1) fun i => i, s)

/-- The names are shorter than their field. -/
def Step (s : State) (op : Op) (s' : State) : Prop := kstrlen op.name < 64 ∧ ∃ r, call s op = some (r, s')

/-! ## What a call does to the slots -/

/-- The table counts its files and its texts are terminated. -/
structure Table (s : State) : Prop where
  wf : Wf s
  count : s.fileCount = usedSlots s
  ended : ∀ i, (s.files i).used = true → (s.files i).data (s.files i).size = 0

theorem table_cleared : Table cleared where
  wf := wf_cleared
  count := rfl
  ended := fun _ _ => rfl

theorem store_ended (f : File) (data : Name) : (f.store data).data (f.store data).size = 0 :=
  Bytes.put8_same ..

theorem present_iff (h : Table s) {name : Name} : Present s name ↔ fsFind s name ≠ none := by
  rw [Ne, fsFind_eq_none_iff h.wf]
  constructor
  · rintro ⟨i, hi, hu, hn⟩ hno
    exact hno i hi hu hn
  · intro hno
    by_contra hp
    exact hno fun i hi hu hn => hp ⟨i, hi, hu, hn⟩

theorem usedSlots_full : usedSlots s = 32 ↔ freeFile s = none := by
  unfold usedSlots freeFile
  rw [tally_eq_iff, List.find?_eq_none]
  constructor
  · intro h i hi
    rw [h i (List.mem_range.1 hi)]
    decide
  · intro h i hi
    simpa using h i (List.mem_range.2 hi)

/-- The slot `i` is the only one that changes. -/
def Only (s : State) (i : Nat) (s' : State) : Prop := ∀ j, j ≠ i → s'.files j = s.files j

theorem Only.usedSlots_same (h : Only s i s') (hu : (s'.files i).used = (s.files i).used) :
    usedSlots s' = usedSlots s := by
  refine tally_congr fun j _ => ?_
  by_cases hj : j = i
  · rw [hj, hu]
  · rw [h j hj]

theorem Only.ended (h : Only s i s') (ht : Table s)
    (hi : (s'.files i).used = true → (s'.files i).data (s'.files i).size = 0) :
    ∀ j, (s'.files j).used = true → (s'.files j).data (s'.files j).size = 0 := by
  intro j hj
  by_cases hji : j = i
  · rw [hji] at hj ⊢
    exact hi hj
  · rw [h j hji] at hj ⊢
    exact ht.ended j hj

/-! ### `fs_create` -/

/-- `fs_create` of a name that is taken, or without a free slot. -/
theorem fsCreate_fails {name : Name} (data : Name) (exec : Int) (h : fsFind s name ≠ none ∨ freeFile s = none) :
    fsCreate s name data exec = some (-1, s) := by
  unfold fsCreate
  by_cases hf : (fsFind s name).isSome
  · rw [if_pos hf]
  · rw [if_neg hf]
    have hnn : fsFind s name = none := by simpa using hf
    rw [h.resolve_left fun hne => hne hnn]

theorem fsCreate_takes {name : Name} (data : Name) (exec : Int) (hlen : kstrlen name < 64)
    (hnn : fsFind s name = none) (hfr : freeFile s = some i) :
    ∃ s', fsCreate s name data exec = some (0, s') ∧ Put s name data i s' ∧ s'.fileCount = s.fileCount + 1 ∧
      (s'.files i).data (s'.files i).size = 0 := by
  have hca : fsCreate s name data exec = some (0, {
      files := update s.files i
        { (s.files i).store data with name := cstr name, used := true, executable := exec }
      fileCount := s.fileCount + 1 }) := by
    unfold fsCreate
    rw [hnn, hfr]
    simp only [Option.isSome_none, Bool.false_eq_true, if_false]
    rw [if_neg (by omega)]
  refine ⟨_, hca, ?_, rfl, ?_⟩
  · rcases fsCreate_spec hca with ⟨h0, -⟩ | ⟨-, -, -, j, hj, hput⟩
    · cases h0
    · rw [hfr] at hj
      cases hj
      exact hput
  · simp only [update_self]
    exact store_ended (s.files i) data

theorem fsCreate_table {name data : Name} {exec r : Int} (ht : Table s) (hlen : kstrlen name < 64)
    (h : fsCreate s name data exec = some (r, s')) : Table s' := by
  cases hfn : fsFind s name with
  | some j =>
    rw [fsCreate_fails data exec (.inl (by rw [hfn]; exact Option.some_ne_none j))] at h
    cases h
    exact ht
  | none =>
    cases hfr : freeFile s with
    | none =>
      rw [fsCreate_fails data exec (.inr hfr)] at h
      cases h
      exact ht
    | some i =>
      obtain ⟨s1, hca, hput, hc, he⟩ := fsCreate_takes data exec hlen hfn hfr
      rw [hca] at h
      cases h
      have hol : Only s i s' := hput.other
      refine ⟨hput.wf ht.wf, ?_, hol.ended ht fun _ => he⟩
      have hct : usedSlots s' = usedSlots s + 1 :=
        tally_set hput.lt (fun j hj => congrArg File.used (hol j hj)) (freeFile_spec hfr).2 hput.used
      rw [hc, hct, ht.count]
      rfl

/-! ### `fs_write` -/

/-- `fs_write` to a file that is there. -/
theorem fsWrite_present {name : Name} (ht : Table s) (data : Name) (hfn : fsFind s name = some i) :
    ∃ s', fsWrite s name data = some (0, s') ∧ Put s name data i s' ∧ Table s' := by
  have hca : fsWrite s name data =
      some (0, { s with files := update s.files i ((s.files i).store data) }) := by
    unfold fsWrite
    rw [hfn]
  have hput : Put s name data i { s with files := update s.files i ((s.files i).store data) } := by
    rcases fsWrite_spec ht.wf hca with ⟨h0, -⟩ | ⟨-, j, hput⟩
    · cases h0
    have hji : i = j := by
      obtain ⟨hi, hu, hn⟩ := (fsFind_eq_some_iff ht.wf).1 hfn
      exact hput.eq_slot ht.wf hi hu hn
    rw [hji] at hput ⊢
    exact hput
  have hol : Only s i { s with files := update s.files i ((s.files i).store data) } := hput.other
  obtain ⟨-, hu, -⟩ := (fsFind_eq_some_iff ht.wf).1 hfn
  refine ⟨_, hca, hput, hput.wf ht.wf, ?_, hol.ended ht fun _ => ?_⟩
  · rw [hol.usedSlots_same (hput.used.trans hu.symm)]
    exact ht.count
  · simp only [update_self]
    exact store_ended (s.files i) data

theorem fsWrite_absent {name : Name} (data : Name) (hfn : fsFind s name = none) :
    fsWrite s name data = fsCreate s name data 0 := by
  unfold fsWrite
  rw [hfn]

/-! ### `fs_delete` -/

/-- A deleted name is out of the map; the other files are not touched. -/
structure Removed (s : State) (name : Name) (i : Nat) (s' : State) : Prop where
  slot : fsFind s name = some i
  other : Only s i s'
  used : (s'.files i).used = false

theorem fsDelete_present {name : Name} (ht : Table s) (hfn : fsFind s name = some i) :
    (fsDelete s name).1 = 0 ∧ Removed s name i (fsDelete s name).2 ∧ Table (fsDelete s name).2 := by
  obtain ⟨hi, hu, -⟩ := (fsFind_eq_some_iff ht.wf).1 hfn
  have hca : fsDelete s name = (0, {
      files := update s.files i { s.files i with used := false }
      fileCount := s.fileCount - 1 }) := by
    unfold fsDelete
    rw [hfn]
  have hrem : Removed s name i (fsDelete s name).2 := by
    rw [hca]
    refine ⟨hfn, fun j hj => update_of_ne hj _ _, ?_⟩
    simp only [update_self]
  refine ⟨by rw [hca], hrem, fsDelete_wf ht.wf name, ?_, hrem.other.ended ht fun h => ?_⟩
  · have hct : usedSlots s = usedSlots (fsDelete s name).2 + 1 :=
      tally_set hi (fun j hj => congrArg File.used (hrem.other j hj).symm) hrem.used hu
    have hfc : (fsDelete s name).2.fileCount = s.fileCount - 1 := by rw [hca]
    rw [hfc, ht.count, hct]
    omega
  · rw [hrem.used] at h
    cases h

theorem fsDelete_absent {name : Name} (hfn : fsFind s name = none) : fsDelete s name = (-1, s) := by
  unfold fsDelete
  rw [hfn]

theorem Removed.lookup {name : Name} (h : Removed s name i s') (hw : Wf s) (hw' : Wf s') (other : Name) :
    lookup s' other = if cstr other = cstr name then none else lookup s other := by
  obtain ⟨hi, hu, hn⟩ := (fsFind_eq_some_iff hw).1 h.slot
  unfold Fs.lookup
  by_cases hnm : cstr other = cstr name
  · rw [if_pos hnm, Option.map_eq_none_iff, fsFind_eq_none_iff hw']
    intro j hj hju hjn
    by_cases hji : j = i
    · rw [hji, h.used] at hju
      cases hju
    · rw [h.other j hji] at hju hjn
      exact hji (hw.unique j i hj hi hju hu (hjn.trans (hnm.trans hn.symm)))
  rw [if_neg hnm]
  cases hfn : fsFind s other with
  | none =>
    rw [Option.map_none, Option.map_eq_none_iff, fsFind_eq_none_iff hw']
    intro j hj hju hjn
    by_cases hji : j = i
    · rw [hji, h.used] at hju
      cases hju
    · rw [h.other j hji] at hju hjn
      exact (fsFind_eq_none_iff hw).1 hfn j hj hju hjn
  | some j =>
    obtain ⟨hj, hju, hjn⟩ := (fsFind_eq_some_iff hw).1 hfn
    have hji : j ≠ i := by
      rintro rfl
      exact hnm (hjn.symm.trans hn)
    have hfind' : fsFind s' other = some j := by
      rw [fsFind_eq_some_iff hw', h.other j hji]
      exact ⟨hj, hju, hjn⟩
    rw [hfind', Option.map_some, Option.map_some, h.other j hji]

/-! ## Every run -/

theorem Table.step {op : Op} (ht : Table s) (h : Step s op s') : Table s' := by
  obtain ⟨hlen, r, hca⟩ := h
  cases op with
  | create n d e => exact fsCreate_table ht hlen hca
  | write n d =>
    have hca : fsWrite s n d = some (r, s') := hca
    cases hfn : fsFind s n with
    | none =>
      rw [fsWrite_absent d hfn] at hca
      exact fsCreate_table ht hlen hca
    | some i =>
      obtain ⟨s1, h1, -, ht1⟩ := fsWrite_present ht d hfn
      rw [h1] at hca
      cases hca
      exact ht1
  | delete n =>
    have hca : fsDelete s n = (r, s') := Option.some.inj hca
    cases hfn : fsFind s n with
    | none =>
      rw [fsDelete_absent hfn] at hca
      cases hca
      exact ht
    | some i =>
      have := (fsDelete_present ht hfn).2.2
      rw [hca] at this
      exact this
  | find n =>
    cases hca
    exact ht

/-- What the table is for the calls that come next. -/
structure BoundedMap (s : State) : Prop where
  unique : ∀ i j, i < 32 → j < 32 → (s.files i).used = true → (s.files j).used = true →
    (s.files i).name = (s.files j).name → i = j
  count : s.fileCount = usedSlots s ∧ usedSlots s ≤ 32
  slots : ∀ i, (s.files i).used = true → (s.files i).size ≤ 4095 ∧ (s.files i).Terminated
  find : ∀ n, fsFind s n ≠ none ↔ Present s n
  /-- `fs_create` returns; it fails exactly if the name is taken or there are 32 files .. -/
  create : ∀ n d e, kstrlen n < 64 → ∃ r s', fsCreate s n d e = some (r, s') ∧
    (r = -1 ∧ s' = s ∧ (Present s n ∨ usedSlots s = 32) ∨
      r = 0 ∧ ¬ (Present s n ∨ usedSlots s = 32) ∧
        (∃ i, (s'.files i).used = true ∧ (s'.files i).name = cstr n ∧ Only s i s') ∧
        ∀ m, lookup s' m = if cstr m = cstr n then some ((cstr d).take 4095) else lookup s m)
  /-- .. `fs_write` exactly if the name is not there and there are 32 files .. -/
  write : ∀ n d, kstrlen n < 64 → ∃ r s', fsWrite s n d = some (r, s') ∧
    (r = -1 ∧ s' = s ∧ (¬ Present s n ∧ usedSlots s = 32) ∨
      r = 0 ∧ ¬ (¬ Present s n ∧ usedSlots s = 32) ∧
        (∃ i, (s'.files i).used = true ∧ (s'.files i).name = cstr n ∧ Only s i s') ∧
        ∀ m, lookup s' m = if cstr m = cstr n then some ((cstr d).take 4095) else lookup s m)
  /-- .. and `fs_delete` exactly if the name is not there. -/
  delete : ∀ n, (fsDelete s n).1 = -1 ∧ (fsDelete s n).2 = s ∧ ¬ Present s n ∨
    (fsDelete s n).1 = 0 ∧ Present s n ∧
      (∃ i, (s.files i).used = true ∧ (s.files i).name = cstr n ∧ Only s i (fsDelete s n).2) ∧
      ∀ m, lookup (fsDelete s n).2 m = if cstr m = cstr n then none else lookup s m

theorem Table.create (ht : Table s) (n d : Name) (e : Int) (hlen : kstrlen n < 64) :
    ∃ r s', fsCreate s n d e = some (r, s') ∧
      (r = -1 ∧ s' = s ∧ (Present s n ∨ usedSlots s = 32) ∨
        r = 0 ∧ ¬ (Present s n ∨ usedSlots s = 32) ∧
          (∃ i, (s'.files i).used = true ∧ (s'.files i).name = cstr n ∧ Only s i s') ∧
          ∀ m, lookup s' m = if cstr m = cstr n then some ((cstr d).take 4095) else lookup s m) := by
  rw [present_iff ht, usedSlots_full]
  by_cases hfa : fsFind s n ≠ none ∨ freeFile s = none
  · exact ⟨-1, s, fsCreate_fails d e hfa, .inl ⟨rfl, rfl, hfa⟩⟩
  have hnn : fsFind s n = none := by
    by_contra hne
    exact hfa (.inl hne)
  obtain ⟨i, hfr⟩ := Option.ne_none_iff_exists'.1 fun hfu => hfa (.inr hfu)
  obtain ⟨s', hca, hput, -, -⟩ := fsCreate_takes d e hlen hnn hfr
  exact ⟨0, s', hca, .inr ⟨rfl, hfa, ⟨i, hput.used, hput.name, hput.other⟩, hput.lookup ht.wf⟩⟩

theorem Table.write (ht : Table s) (n d : Name) (hlen : kstrlen n < 64) :
    ∃ r s', fsWrite s n d = some (r, s') ∧
      (r = -1 ∧ s' = s ∧ (¬ Present s n ∧ usedSlots s = 32) ∨
        r = 0 ∧ ¬ (¬ Present s n ∧ usedSlots s = 32) ∧
          (∃ i, (s'.files i).used = true ∧ (s'.files i).name = cstr n ∧ Only s i s') ∧
          ∀ m, lookup s' m = if cstr m = cstr n then some ((cstr d).take 4095) else lookup s m) := by
  cases hfn : fsFind s n with
  | some i =>
    have hp : Present s n := (present_iff ht).2 (by rw [hfn]; exact Option.some_ne_none i)
    obtain ⟨s', hca, hput, -⟩ := fsWrite_present ht d hfn
    exact ⟨0, s', hca, .inr ⟨rfl, fun h => h.1 hp, ⟨i, hput.used, hput.name, hput.other⟩, hput.lookup ht.wf⟩⟩
  | none =>
    have hp : ¬ Present s n := fun h => (present_iff ht).1 h hfn
    rw [fsWrite_absent d hfn]
    obtain ⟨r, s', hca, hres⟩ := ht.create n d 0 hlen
    refine ⟨r, s', hca, ?_⟩
    rcases hres with ⟨hr, hs, hfa⟩ | ⟨hr, hok, hsl, hmap⟩
    · exact .inl ⟨hr, hs, hp, hfa.resolve_left hp⟩
    · exact .inr ⟨hr, fun h => hok (.inr h.2), hsl, hmap⟩

theorem Table.delete (ht : Table s) (n : Name) :
    (fsDelete s n).1 = -1 ∧ (fsDelete s n).2 = s ∧ ¬ Present s n ∨
      (fsDelete s n).1 = 0 ∧ Present s n ∧
        (∃ i, (s.files i).used = true ∧ (s.files i).name = cstr n ∧ Only s i (fsDelete s n).2) ∧
        ∀ m, lookup (fsDelete s n).2 m = if cstr m = cstr n then none else lookup s m := by
  cases hfn : fsFind s n with
  | none =>
    rw [fsDelete_absent hfn]
    exact .inl ⟨rfl, rfl, fun h => (present_iff ht).1 h hfn⟩
  | some i =>
    obtain ⟨hr, hrem, ht'⟩ := fsDelete_present ht hfn
    obtain ⟨hi, hu, hn⟩ := (fsFind_eq_some_iff ht.wf).1 hfn
    exact .inr ⟨hr, ⟨i, hi, hu, hn⟩, ⟨i, hu, hn, hrem.other⟩, hrem.lookup ht.wf ht'.wf⟩

/-- After every sequence of calls the table is a bounded map. -/
theorem fs_boundedMap (ops : List Op) (s : State) (hrun : Run Step cleared ops s) : BoundedMap s := by
  have ht : Table s := Run.invariant Table table_cleared (fun _ _ _ h hs => h.step hs) hrun
  exact {
    unique := ht.wf.unique
    count := ⟨ht.count, tally_le _ _⟩
    slots := fun i hu => ⟨ht.wf.size i, ht.ended i hu, fun k hk h0 => ht.wf.text i (List.mem_map.2 ⟨k, List.mem_range.2 hk, h0⟩)⟩
    find := fun _ => (present_iff ht).symm
    create := ht.create
    write := ht.write
    delete := ht.delete }

/-- With one file: `a` holds `b`. -/
theorem fs_boundedMap_one : ∃ s, Run Step cleared [.create [97] [98] 0] s ∧ BoundedMap s := by
  obtain ⟨r, s, hca, -⟩ := table_cleared.create [97] [98] 0 (by decide)
  have hrun : Run Step cleared [.create [97] [98] 0] s := .single ⟨by decide, r, hca⟩
  exact ⟨s, hrun, fs_boundedMap _ s hrun⟩

end KumOS.Fs
