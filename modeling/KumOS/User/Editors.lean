import KumOS.User.Strings

/-!
# Saving and loading in `ed` and `vi`

Both editors keep lines of 256 bytes, write them with a newline each, and split what they
read in place: a saved text is loaded as it was (`editors_round_trip`).
-/

namespace KumOS.User

open Fat12 (Name)
open Function (update update_self update_of_ne)

/-- `lines[MAX_LINES][LINE_LEN]` of `ed`, `text[LINES_MAX][LINE_LEN]` of `vi`: the bytes of each line. -/
structure Text where
  line : Nat → Name
  nlines : Nat

def Text.lines (t : Text) : List Name := (List.range t.nlines).map fun i => cstr (t.line i)

/-- `strncpy(lines[nlines++], p, LINE_LEN-1)` -/
def Text.put (t : Text) (p : Name) : Text :=
  ⟨update t.line t.nlines (strncpyTo (t.line t.nlines) p 255), t.nlines + 1⟩

/-- The loop of `ed_load` and `load_file` with room for `k` more lines. -/
def loadLoop : Nat → Name → Text → Text
  | 0, _, t => t
  | _ + 1, [], t => t
  | k + 1, c :: p, t =>
    let l := (c :: p).takeWhile (· ≠ 10)
    loadLoop k ((c :: p).drop (l.length + 1)) (t.put l)

/-- `ed_load` of a file with these bytes. -/
def edLoad (t : Text) (file : Name) : Text :=
  if file.take 4095 = [] then t else loadLoop 256 (cstr (file.take 4095)) { t with nlines := 0 }

/-- `load_file` of `vi`. -/
def loadFile (t : Text) (file : Name) : Text :=
  let t := loadLoop 512 (cstr (file.take 32767)) { t with nlines := 0 }
  if t.nlines = 0 then ⟨update t.line 0 (0 :: (t.line 0).drop 1), 1⟩ else t

/-- The file `ed_save` writes. -/
def edSave (t : Text) : Name := t.lines.flatMap (· ++ [10])

/-- The file `save_file` of `vi` writes. -/
def saveFile (t : Text) : Name := t.lines.flatMap (· ++ [10])

section

variable {t : Text} {l : Name} {ls : List Name}

/-- What a line may be. -/
def LineOk (l : Name) : Prop := l.length ≤ 255 ∧ 10 ∉ l ∧ 0 ∉ l

/-- The last byte of each line is zero: with a line of 255 bytes it is not written. -/
def Text.Ends (t : Text) : Prop := ∀ i, (t.line i).drop 255 = [0]

theorem Text.put_ends (ht : t.Ends) (hl : LineOk l) : (t.put l).Ends ∧ (t.put l).lines = t.lines ++ [l] := by
  obtain ⟨hdrop, hcstr⟩ := strncpyTo_spec (ht t.nlines) hl.1 hl.2.2
  unfold put
  constructor
  · intro i
    by_cases hi : i = t.nlines
    · simp only [hi, update_self, hdrop]
    · simp only [update_of_ne hi, ht i]
  · simp only [lines, List.range_succ, List.map_append, List.map_singleton, update_self, hcstr]
    refine congrArg (· ++ [l]) (List.map_congr_left fun i hi => ?_)
    rw [update_of_ne (Nat.ne_of_lt (List.mem_range.1 hi))]

theorem loadLoop_lines (hok : ∀ l ∈ ls, LineOk l) {k : Nat} (hk : ls.length ≤ k) (ht : t.Ends) :
    (loadLoop k (ls.flatMap (· ++ [10])) t).lines = t.lines ++ ls := by
  induction ls generalizing k t with
  | nil => cases k <;> exact (List.append_nil _).symm
  | cons l ls ih =>
    rw [List.forall_mem_cons] at hok
    obtain ⟨hl, hls⟩ := hok
    obtain ⟨k, rfl⟩ : ∃ m, k = m + 1 := ⟨k - 1, by rw [List.length_cons] at hk; omega⟩
    obtain ⟨hends, hlines⟩ := Text.put_ends ht hl
    have hcut : (l ++ 10 :: ls.flatMap (· ++ [10])).takeWhile (· ≠ 10) = l := by
      rw [List.takeWhile_append_of_pos fun a ha => decide_eq_true (ne_of_mem_of_not_mem ha hl.2.1)]
      simp
    have hround : loadLoop (k + 1) (l ++ 10 :: ls.flatMap (· ++ [10])) t =
        loadLoop k (ls.flatMap (· ++ [10])) (t.put l) := by
      cases hp : l ++ 10 :: ls.flatMap (· ++ [10]) with
      | nil => simp at hp
      | cons c p =>
        rw [loadLoop, ← hp, hcut, ← List.drop_drop, List.drop_left]
        rfl
    rw [List.flatMap_cons, List.append_assoc, List.singleton_append, hround, ih hls (Nat.le_of_succ_le_succ hk) hends,
      hlines, List.append_assoc]
    rfl

/-- **A text that was saved is loaded as it was.** -/
theorem editors_round_trip (ls : List Name) (hne : ls ≠ []) (hok : ∀ l ∈ ls, LineOk l) (t : Text) (hlines : t.lines = ls)
    (t' : Text) (ht' : t'.Ends) :
    (ls.length ≤ 255 → (edSave t).length ≤ 4095 → (edLoad t' (edSave t)).lines = ls) ∧
      (ls.length ≤ 511 → (saveFile t).length ≤ 32767 → (loadFile t' (saveFile t)).lines = ls) := by
  have hfile : cstr (ls.flatMap (· ++ [10])) = ls.flatMap (· ++ [10]) := by
    refine cstr_eq_self fun h0 => ?_
    obtain ⟨l, hl, h0⟩ := List.mem_flatMap.1 h0
    simp only [List.mem_append, List.mem_singleton] at h0
    exact (hok l hl).2.2 (h0.resolve_right (by decide))
  have hempty : ls.flatMap (· ++ [10]) ≠ [] := by
    obtain ⟨l, ls, rfl⟩ := List.exists_cons_of_ne_nil hne
    simp
  have hload : ∀ k, ls.length ≤ k → (loadLoop k (ls.flatMap (· ++ [10])) { t' with nlines := 0 }).lines = ls :=
    fun k hk => loadLoop_lines hok hk ht'
  unfold edLoad loadFile edSave saveFile
  rw [hlines]
  refine ⟨fun hk hsize => ?_, fun hk hsize => ?_⟩
  · rw [List.take_of_length_le hsize, if_neg hempty, hfile]
    exact hload 256 (by omega)
  · rw [List.take_of_length_le hsize, hfile]
    have h := hload 512 (by omega)
    rw [if_neg]
    · exact h
    · intro h0
      rw [Text.lines, h0] at h
      exact hne h.symm

theorem editors_round_trip_two_lines :
    (edLoad ⟨fun _ => List.replicate 256 0, 0⟩ (edSave ⟨fun _ => [97], 2⟩)).lines = [[97], [97]] :=
  (editors_round_trip [[97], [97]] nofun (by simp [LineOk]) ⟨fun _ => [97], 2⟩ rfl ⟨fun _ => List.replicate 256 0, 0⟩
    fun _ => rfl).1 (by decide) (by decide)

end

end KumOS.User
