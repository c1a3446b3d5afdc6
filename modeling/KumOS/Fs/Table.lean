import KumOS.Fs.Model

/-!
# What the calls of `fs.c` do to the table

`fs_create` and `fs_write` put a text under a name (`Put`): into the slot that has
the name, or into one that was free.  `fs_delete` takes a name out.  Both keep the
table well formed, and change the map of files at that name only.
-/

namespace KumOS.Fs

open Lib
open Fat12 (Name)
open Function (update update_self update_of_ne)

variable {r : Int}

section

variable {s s' : State} {name data : Name} {i : Nat}

/-! ## Searching -/

theorem matches_iff (hw : Wf s) (name : Name) (i : Nat) :
    ((s.files i).used && kstrcmp (s.files i).name name == 0) = true ↔
      (s.files i).used = true ∧ (s.files i).name = cstr name := by
  rw [Bool.and_eq_true, beq_iff_eq, kstrcmp_eq_zero_iff, cstr_eq_self (hw.name i)]

theorem fsFind_eq_some_iff (hw : Wf s) :
    fsFind s name = some i ↔ i < 32 ∧ (s.files i).used = true ∧ (s.files i).name = cstr name := by
  unfold fsFind
  constructor
  · intro h
    have hmem := List.mem_of_find?_eq_some h
    have hma := List.find?_some h
    exact ⟨List.mem_range.1 hmem, (matches_iff hw name i).1 hma⟩
  · rintro ⟨hlt, hus, hnm⟩
    cases h : (List.range 32).find? fun i => (s.files i).used && kstrcmp (s.files i).name name == 0 with
    | none =>
      have hno := List.find?_eq_none.1 h i (List.mem_range.2 hlt)
      exact absurd ((matches_iff hw name i).2 ⟨hus, hnm⟩) hno
    | some j =>
      have hmem := List.mem_range.1 (List.mem_of_find?_eq_some h)
      have hma := List.find?_some h
      obtain ⟨hj, hjname⟩ := (matches_iff hw name j).1 hma
      rw [hw.unique j i hmem hlt hj hus (hjname.trans hnm.symm)]

theorem fsFind_eq_none_iff (hw : Wf s) :
    fsFind s name = none ↔ ∀ i < 32, (s.files i).used = true → (s.files i).name ≠ cstr name := by
  constructor
  · intro h i hi hus hnm
    have hso := (fsFind_eq_some_iff hw).2 ⟨hi, hus, hnm⟩
    rw [h] at hso
    cases hso
  · intro h
    cases hfn : fsFind s name with
    | none => rfl
    | some i =>
      obtain ⟨hi, hus, hnm⟩ := (fsFind_eq_some_iff hw).1 hfn
      exact absurd hnm (h i hi hus)

theorem freeFile_spec (h : freeFile s = some i) : i < 32 ∧ (s.files i).used = false := by
  have hmem := List.mem_of_find?_eq_some h
  have hfr := List.find?_some h
  exact ⟨List.mem_range.1 hmem, by simpa using hfr⟩

theorem fsFind_congr (h : cstr name = cstr data) (hw : Wf s) : fsFind s name = fsFind s data := by
  cases hfn : fsFind s data with
  | none =>
    rw [fsFind_eq_none_iff hw] at hfn ⊢
    rw [h]
    exact hfn
  | some i =>
    rw [fsFind_eq_some_iff hw] at hfn ⊢
    rw [h]
    exact hfn

/-! ## Storing a text -/

/-- The text `data` has been put under `name` into slot `i`. -/
structure Put (s : State) (name data : Name) (i : Nat) (s' : State) : Prop where
  lt : i < 32
  slot : fsFind s name = some i ∨ fsFind s name = none ∧ (s.files i).used = false
  other : ∀ j, j ≠ i → s'.files j = s.files j
  name : (s'.files i).name = cstr name
  used : (s'.files i).used = true
  size : (s'.files i).size = (stored data).length
  contents : (s'.files i).contents = stored data

section

variable (h : Put s name data i s') (hw : Wf s)
include h hw

/-- In a table, the slot of a name is the one that has it. -/
theorem Put.eq_slot {j : Nat} (hj : j < 32)
    (hus : (s.files j).used = true) (hnm : (s.files j).name = cstr name) : j = i := by
  have hfn := (fsFind_eq_some_iff hw).2 ⟨hj, hus, hnm⟩
  rcases h.slot with hsl | ⟨hsl, -⟩
  · rw [hfn] at hsl
    exact Option.some.inj hsl
  · rw [hfn] at hsl
    cases hsl

theorem Put.wf : Wf s' where
  name := by
    intro j
    by_cases hj : j = i
    · rw [hj, h.name]
      exact zero_not_mem_cstr name
    · rw [h.other j hj]
      exact hw.name j
  unique := by
    intro j k hj hk hjused hkused hnm
    by_cases hji : j = i
    · by_cases hki : k = i
      · rw [hji, hki]
      · rw [h.other k hki] at hkused hnm
        rw [hji, h.name] at hnm
        exact absurd (h.eq_slot hw hk hkused hnm.symm) hki
    rw [h.other j hji] at hjused hnm
    by_cases hki : k = i
    · rw [hki, h.name] at hnm
      exact absurd (h.eq_slot hw hj hjused hnm) hji
    · rw [h.other k hki] at hkused hnm
      exact hw.unique j k hj hk hjused hkused hnm
  size := by
    intro j
    by_cases hj : j = i
    · rw [hj, h.size]
      exact List.length_take_le _ _
    · rw [h.other j hj]
      exact hw.size j
  text := by
    intro j
    by_cases hj : j = i
    · rw [hj, h.contents]
      exact fun h0 => zero_not_mem_cstr data (List.mem_of_mem_take h0)
    · rw [h.other j hj]
      exact hw.text j

theorem Put.find : fsFind s' name = some i :=
  (fsFind_eq_some_iff (h.wf hw)).2 ⟨h.lt, h.used, h.name⟩

theorem Put.find_ne {other : Name} (hne : cstr other ≠ cstr name) : fsFind s' other = fsFind s other := by
  have key : ∀ j, (s'.files j).used = true ∧ (s'.files j).name = cstr other ↔
      (s.files j).used = true ∧ (s.files j).name = cstr other := by
    intro j
    by_cases hj : j = i
    · rw [hj]
      refine iff_of_false (fun hs' => hne (hs'.2.symm.trans h.name)) fun hs => ?_
      rcases h.slot with hsl | ⟨-, hfr⟩
      · have hnm := ((fsFind_eq_some_iff hw).1 hsl).2.2
        exact hne (hs.2.symm.trans hnm)
      · rw [hs.1] at hfr
        cases hfr
    · rw [h.other j hj]
  cases hfn : fsFind s other with
  | none =>
    rw [fsFind_eq_none_iff hw] at hfn
    rw [fsFind_eq_none_iff (h.wf hw)]
    intro j hj hus hnm
    have hs := (key j).1 ⟨hus, hnm⟩
    exact hfn j hj hs.1 hs.2
  | some j =>
    obtain ⟨hj, hs⟩ := (fsFind_eq_some_iff hw).1 hfn
    exact (fsFind_eq_some_iff (h.wf hw)).2 ⟨hj, (key j).2 hs⟩

theorem Put.lookup (other : Name) :
    lookup s' other = if cstr other = cstr name then some (stored data) else lookup s other := by
  unfold Fs.lookup
  by_cases hnm : cstr other = cstr name
  · rw [if_pos hnm, fsFind_congr hnm (h.wf hw), h.find hw, Option.map_some, h.contents]
  rw [if_neg hnm, h.find_ne hw hnm]
  cases hfn : fsFind s other with
  | none => rfl
  | some j =>
    have hj : j ≠ i := by
      rintro rfl
      obtain ⟨-, hus, hs⟩ := (fsFind_eq_some_iff hw).1 hfn
      rcases h.slot with hsl | ⟨-, hfr⟩
      · exact hnm (hs.symm.trans ((fsFind_eq_some_iff hw).1 hsl).2.2)
      · rw [hus] at hfr
        cases hfr
    rw [Option.map_some, Option.map_some, h.other j hj]

end

/-! ## The calls -/

/-- `fs_create` fails and changes nothing, because the name is taken or no slot is free; or it puts
the text into a free slot. -/
theorem fsCreate_spec {exec : Int} (h : fsCreate s name data exec = some (r, s')) :
    (r = -1 ∧ s' = s ∧ (fsFind s name ≠ none ∨ freeFile s = none)) ∨
    r = 0 ∧ fsFind s name = none ∧ kstrlen name < 64 ∧
      ∃ i, freeFile s = some i ∧ Put s name data i s' := by
  unfold fsCreate at h
  split at h
  · rename_i hso
    cases h
    exact .inl ⟨rfl, rfl, .inl (Option.isSome_iff_ne_none.1 hso)⟩
  rename_i hnn
  have hnn : fsFind s name = none := by simpa using hnn
  cases hfr : freeFile s with
  | none =>
    rw [hfr] at h
    cases h
    exact .inl ⟨rfl, rfl, .inr rfl⟩
  | some i =>
    rw [hfr] at h
    simp only at h
    split at h
    · cases h
    cases h
    obtain ⟨hi, hunused⟩ := freeFile_spec hfr
    refine .inr ⟨rfl, hnn, by omega, i, rfl, hi, .inr ⟨hnn, hunused⟩, fun j hj => ?_, ?_, ?_,
      ?_, ?_⟩
    · exact update_of_ne hj _ _
    · simp only [update_self]
    · simp only [update_self]
    · simp only [update_self]
      exact store_size (s.files i) data
    · simp only [update_self]
      exact contents_store (s.files i) data

/-- `fs_write` puts the text under the name, or there is no file of that name and no free slot. -/
theorem fsWrite_spec (hw : Wf s) (h : fsWrite s name data = some (r, s')) :
    (r = -1 ∧ s' = s ∧ fsFind s name = none ∧ freeFile s = none) ∨
    r = 0 ∧ ∃ i, Put s name data i s' := by
  unfold fsWrite at h
  cases hfn : fsFind s name with
  | none =>
    rw [hfn] at h
    rcases fsCreate_spec h with ⟨hr, hs, hne | hfu⟩ | ⟨hr, -, -, i, -, hput⟩
    · exact absurd hfn hne
    · exact .inl ⟨hr, hs, rfl, hfu⟩
    · exact .inr ⟨hr, i, hput⟩
  | some i =>
    rw [hfn] at h
    cases h
    obtain ⟨hi, hus, hnm⟩ := (fsFind_eq_some_iff hw).1 hfn
    refine .inr ⟨rfl, i, hi, .inl hfn, fun j hj => update_of_ne hj _ _, ?_, ?_, ?_, ?_⟩
    · simp only [update_self, store_name]
      exact hnm
    · simp only [update_self, store_used]
      exact hus
    · simp only [update_self]
      exact store_size (s.files i) data
    · simp only [update_self]
      exact contents_store (s.files i) data

theorem fsDelete_wf (hw : Wf s) (name : Name) : Wf (fsDelete s name).2 := by
  unfold fsDelete
  cases hfn : fsFind s name with
  | none => exact hw
  | some i =>
    have hfl : ∀ j, (update s.files i { s.files i with used := false } j).name =
        (s.files j).name ∧
        (update s.files i { s.files i with used := false } j).contents =
          (s.files j).contents ∧
        (update s.files i { s.files i with used := false } j).size = (s.files j).size ∧
        ((update s.files i { s.files i with used := false } j).used = true →
          (s.files j).used = true) := by
      intro j
      by_cases hj : j = i
      · rw [hj, update_self]
        exact ⟨rfl, rfl, rfl, nofun⟩
      · rw [update_of_ne hj]
        exact ⟨rfl, rfl, rfl, id⟩
    refine ⟨fun j => ?_, fun j k hj hk hju hku hnm => ?_, fun j => ?_, fun j => ?_⟩
    · rw [(hfl j).1]
      exact hw.name j
    · apply hw.unique j k hj hk ((hfl j).2.2.2 hju) ((hfl k).2.2.2 hku)
      rw [← (hfl j).1, ← (hfl k).1]
      exact hnm
    · rw [(hfl j).2.2.1]
      exact hw.size j
    · rw [(hfl j).2.1]
      exact hw.text j

/-! ## Names -/

/-- Slot `f` keeps its name, or `name` has been created in it. -/
def NameKept (s : State) (name : Name) (s' : State) (f : Nat) : Prop :=
  (s'.files f).name = (s.files f).name ∨
    fsFind s name = none ∧ freeFile s = some f ∧ (s'.files f).name = cstr name

theorem fsCreate_names {exec : Int} (h : fsCreate s name data exec = some (r, s')) (f : Nat) :
    NameKept s name s' f := by
  rcases fsCreate_spec h with ⟨-, rfl, -⟩ | ⟨-, hnn, -, i, hfr, hput⟩
  · exact .inl rfl
  by_cases hf : f = i
  · rw [hf]
    exact .inr ⟨hnn, hfr, hput.name⟩
  · exact .inl (congrArg File.name (hput.other f hf))

theorem fsWrite_names (h : fsWrite s name data = some (r, s')) (f : Nat) : NameKept s name s' f := by
  unfold fsWrite at h
  cases hfn : fsFind s name with
  | none =>
    rw [hfn] at h
    exact fsCreate_names h f
  | some i =>
    rw [hfn] at h
    cases h
    refine .inl ?_
    by_cases hf : f = i
    · subst hf
      simp only [update_self, store_name]
    · simp only [update_of_ne hf]

theorem fsDelete_names (s : State) (name : Name) (f : Nat) : ((fsDelete s name).2.files f).name = (s.files f).name := by
  unfold fsDelete
  cases fsFind s name with
  | none => rfl
  | some i =>
    by_cases hf : f = i
    · subst hf
      simp only [update_self]
    · simp only [update_of_ne hf]

end

end KumOS.Fs
