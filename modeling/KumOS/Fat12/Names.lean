import KumOS.Fat12.Runs
import Mathlib.Data.List.DropRight

/-!
# Names and keys

`name_to_83` pads both fields with blanks, and looks for the dot behind the eighth
byte at the latest: a longer base loses its extension.  So two names that differ
have different keys exactly if what is stored of them differs in more than blanks
at the end:

    nameTo83 a = nameTo83 b ↔ both fields agree up to trailing blanks        (nameTo83_eq_iff)

`name_from_83` is the inverse for names that fit (`short_names_round_trip`).
-/

namespace KumOS.Fat12

open Lib
open Function (update_of_ne)

/-- The extension that `name_to_83` comes to. -/
def storedExt (name : Name) : List UInt8 := if (baseOf name).length ≤ 8 then extOf name else []

def Differ (a b : Name) : Prop := (baseOf a).take 8 ≠ (baseOf b).take 8 ∨ extOf a ≠ extOf b

/-- Without the blanks at the end. -/
def trimmed (l : List UInt8) : List UInt8 := l.rdropWhile (· = 32)

/-- No call for `a` changes what is read under `b`. -/
def LeavesOther (a b : Name) : Prop :=
  ∀ (s0 s1 s s' : State) (drive r : Int) (label : Option Name) (ops : List Op) (op : Op) (bufsz : UInt32),
    (∀ d l, s0.ata.ok d l = true) → fat12Format s0 drive label = some (0, s1) → Run Step s1 ops s →
    op.key = some (nameTo83 a) → exec s op = some (r, s') → readAnswer s' b bufsz = readAnswer s b bufsz

variable {a b name : Name} {l l' : List UInt8}

theorem nameTo83_eq (name : Name) (h : (extOf name).length ≤ 3) :
    nameTo83 name = blankPad 8 ((baseOf name).take 8) ++ blankPad 3 (storedExt name) := by
  rw [nameTo83_fields, List.take_of_length_le h]
  rfl

theorem trimmed_append_blanks (l : List UInt8) (k : Nat) : trimmed (l ++ List.replicate k 32) = trimmed l := by
  induction k with
  | zero => rw [List.replicate_zero, List.append_nil]
  | succ k ih =>
    unfold trimmed at *
    rw [List.replicate_succ', ← List.append_assoc, List.rdropWhile_concat_pos _ _ _ (by decide), ih]

theorem eq_trimmed_append (l : List UInt8) : ∃ k, l = trimmed l ++ List.replicate k 32 := by
  have hall : ∀ x ∈ l.rtakeWhile (· = 32), x = 32 := by
    intro x hx
    have := List.mem_rtakeWhile_imp hx
    simpa using this
  refine ⟨(l.rtakeWhile (· = 32)).length, ?_⟩
  rw [← List.eq_replicate_of_mem hall]
  exact (List.rdropWhile_append_rtakeWhile ..).symm

theorem blankPad_eq_iff {n : Nat} (h : l.length ≤ n) (h' : l'.length ≤ n) :
    blankPad n l = blankPad n l' ↔ trimmed l = trimmed l' := by
  unfold blankPad
  constructor
  · intro heq
    rw [← trimmed_append_blanks l, heq, trimmed_append_blanks]
  · intro heq
    obtain ⟨k, hk⟩ := eq_trimmed_append l
    obtain ⟨k', hk'⟩ := eq_trimmed_append l'
    have hlen := congrArg List.length hk
    have hlen' := congrArg List.length hk'
    rw [List.length_append, List.length_replicate] at hlen hlen'
    rw [← heq] at hk' hlen'
    rw [hk, hk', List.append_assoc, List.append_assoc, List.replicate_append_replicate,
      List.replicate_append_replicate, ← hk, ← hk', show k + (n - l.length) = k' + (n - l'.length) by omega]

theorem storedExt_length (h : (extOf name).length ≤ 3) : (storedExt name).length ≤ 3 := by
  unfold storedExt
  split
  · exact h
  · exact Nat.zero_le 3

theorem nameTo83_eq_iff (ha : (extOf a).length ≤ 3) (hb : (extOf b).length ≤ 3) :
    nameTo83 a = nameTo83 b ↔
      trimmed ((baseOf a).take 8) = trimmed ((baseOf b).take 8) ∧ trimmed (storedExt a) = trimmed (storedExt b) := by
  have hlen : ∀ l : List UInt8, (l.take 8).length ≤ 8 := List.length_take_le 8
  have hpad : ∀ l : List UInt8, (blankPad 8 (l.take 8)).length = 8 := by
    intro l
    have := hlen l
    rw [blankPad, List.length_append, List.length_replicate]
    omega
  rw [nameTo83_eq a ha, nameTo83_eq b hb, ← blankPad_eq_iff (hlen _) (hlen _),
    ← blankPad_eq_iff (storedExt_length ha) (storedExt_length hb)]
  constructor
  · exact fun h => List.append_inj h ((hpad _).trans (hpad _).symm)
  · rintro ⟨h1, h2⟩
    rw [h1, h2]

theorem leavesOther (hne : nameTo83 a ≠ nameTo83 b) : LeavesOther a b := by
  intro s0 s1 s s' drive r label ops op bufsz hok hfm hrun hkey hex
  obtain ⟨files, hS⟩ := run_stores (format_stores hok hfm).1 hrun
  have hS' := hS.step hex
  rw [hS'.readAnswer_eq, hS.readAnswer_eq]
  have hsm : files.after op r (nameTo83 b) = files (nameTo83 b) := by
    cases op with
    | write name buf size | delete name =>
      have hkey : nameTo83 name = nameTo83 a := Option.some.inj hkey
      exact update_of_ne (hkey ▸ hne.symm) ..
    | read name bufsz => rfl
    | list max => rfl
  rw [hsm]

/-- Names that differ do not collide exactly if what is stored of them differs in more than blanks at the end. -/
theorem names_apart_iff (a b : Name) (ha : (extOf a).length ≤ 3) (hb : (extOf b).length ≤ 3) :
    (Differ a b → nameTo83 a ≠ nameTo83 b ∧ LeavesOther a b) ↔
      (Differ a b → trimmed ((baseOf a).take 8) ≠ trimmed ((baseOf b).take 8) ∨
        trimmed (storedExt a) ≠ trimmed (storedExt b)) := by
  have hiff : nameTo83 a ≠ nameTo83 b ↔ trimmed ((baseOf a).take 8) ≠ trimmed ((baseOf b).take 8) ∨
      trimmed (storedExt a) ≠ trimmed (storedExt b) := by
    rw [Ne, nameTo83_eq_iff ha hb, not_and_or]
  constructor
  · exact fun h hd => hiff.1 (h hd).1
  · exact fun h hd => ⟨hiff.2 (h hd), leavesOther (hiff.2 (h hd))⟩

/-- "A.TXT" and "A.BIN" -/
theorem names_apart_iff_short : Differ [65, 46, 84, 88, 84] [65, 46, 66, 73, 78] ∧
    nameTo83 [65, 46, 84, 88, 84] ≠ nameTo83 [65, 46, 66, 73, 78] := by
  have hd : Differ [65, 46, 84, 88, 84] [65, 46, 66, 73, 78] := .inr (by decide)
  exact ⟨hd, (((names_apart_iff _ _ (by decide) (by decide)).2 fun _ => .inr (by decide)) hd).1⟩

/-- Writing "ABCDEFGHI.T" replaces the file "ABCDEFGHI.B". -/
theorem long_names_collide : Differ [65, 66, 67, 68, 69, 70, 71, 72, 73, 46, 84] [65, 66, 67, 68, 69, 70, 71, 72, 73, 46, 66] ∧
    ((fat12Format initial 0 none).bind fun r1 =>
      (fat12Write r1.2 [65, 66, 67, 68, 69, 70, 71, 72, 73, 46, 66] (fun _ => 7) 3).bind fun r2 =>
      (fat12Write r2.2 [65, 66, 67, 68, 69, 70, 71, 72, 73, 46, 84] (fun _ => 8) 1).map fun r3 =>
        (readAnswer r2.2 [65, 66, 67, 68, 69, 70, 71, 72, 73, 46, 66] 3,
          readAnswer r3.2 [65, 66, 67, 68, 69, 70, 71, 72, 73, 46, 66] 3)) = some (some (3, [7, 7, 7]), some (1, [8])) :=
  ⟨.inr (by decide), by decide +kernel⟩

/-! ## Names there and back -/

/-- A base of 1 to 8 bytes and an extension of up to 3, where none is an empty one. -/
structure ShortName (b e : Name) : Prop where
  ne : b ≠ []
  base_le : b.length ≤ 8
  ext_le : e.length ≤ 3
  base : ∀ c ∈ b, c ≠ 46
  bytes : ∀ c ∈ b ++ e, c ≠ 0 ∧ c ≠ 32

def joinName (b e : Name) : Name := if e = [] then b else b ++ 46 :: e

/-- The fields of an entry, with blanks only at their ends. -/
def rawName (b e : Name) : List UInt8 := blankPad 8 b ++ blankPad 3 e

section

variable {e : Name}

theorem blankPad_fields {n : Nat} (hlen : l.length ≤ n) (h : 32 ∉ l) :
    (blankPad n l).length = n ∧ (blankPad n l).takeWhile (· ≠ 32) = l := by
  have hno : (List.replicate (n - l.length) (32 : UInt8)).takeWhile (· ≠ 32) = [] := by
    cases n - l.length <;> rfl
  rw [blankPad, List.length_append, List.length_replicate, List.takeWhile_append_of_pos, hno, List.append_nil]
  · exact ⟨by omega, rfl⟩
  · intro c hc
    exact decide_eq_true fun heq => h (heq ▸ hc)

theorem nameFrom83_rawName (hb : b.length ≤ 8) (he : e.length ≤ 3) (h : 32 ∉ b ++ e) :
    nameFrom83 (rawName b e) = joinName b e := by
  rw [List.mem_append, not_or] at h
  obtain ⟨hblen, hbase⟩ := blankPad_fields hb h.1
  obtain ⟨helen, hext⟩ := blankPad_fields he h.2
  have h8 : (rawName b e).getD 8 0 = (blankPad 3 e).getD 0 0 := by
    rw [rawName, List.getD_append_right _ _ _ _ (by omega), hblen]
  unfold nameFrom83
  rw [h8, rawName, List.take_left' hblen, List.drop_left' hblen, List.take_of_length_le (Nat.le_of_eq helen), hbase, hext]
  cases e with
  | nil => rfl
  | cons c e => exact if_pos fun hc : c = 32 => h.2 (hc ▸ List.mem_cons_self)

theorem nameTo83_joinName (h : ShortName b e) : nameTo83 (joinName b e) = rawName (b.map upper) (e.map upper) := by
  have hb0 : 0 ∉ b := fun hm => (h.bytes 0 (List.mem_append_left _ hm)).1 rfl
  have he0 : 0 ∉ e := fun hm => (h.bytes 0 (List.mem_append_right _ hm)).1 rfl
  have hdot : ∀ c ∈ b, decide (c ≠ 46) = true := fun c hc => decide_eq_true (h.base c hc)
  have hfields : baseOf (joinName b e) = b.map upper ∧ extOf (joinName b e) = e.map upper := by
    unfold baseOf extOf joinName
    by_cases he : e = []
    · rw [if_pos he, cstr_eq_self hb0, List.takeWhile_eq_self_iff.2 hdot, List.dropWhile_eq_nil_iff.2 hdot, he]
      exact ⟨rfl, rfl⟩
    · rw [if_neg he, cstr_append hb0, cstr_cons, if_neg (by decide), cstr_eq_self he0, List.takeWhile_append_of_pos hdot,
        List.dropWhile_append_of_pos hdot]
      simp
  have hlen : (b.map upper).length ≤ 8 := by
    rw [List.length_map]
    exact h.base_le
  rw [nameTo83_eq _ (by rw [hfields.2, List.length_map]; exact h.ext_le), storedExt, hfields.1, hfields.2, if_pos hlen,
    List.take_of_length_le hlen]
  rfl

end

/-! ## Listed entries -/

/-- The entries filled in by the loop of `fat12_list`. -/
def Walk.filled : Walk (List Entry) (List Entry) → List Entry
  | .done es | .left _ _ es | .failed es => es

/-- What a loop ends with that goes on as `next` behind the entries of a sector. -/
def Walk.after {A R : Type} (k : Nat) (next : A → Walk A R) : A ⊕ (Nat × R) → Walk A R
  | .inl a => next a
  | .inr (i, r) => .left k i r

/-- The entries of root sectors, up to the first that cannot be read. -/
def rootEntries (read : Nat → Option Bytes) : Nat → Nat → List Dirent
  | 0, _ => []
  | n + 1, k =>
    match read k with
    | none => []
    | some sec => (List.range' 0 16).map (sectorEntry sec) ++ rootEntries read n (k + 1)

/-- The entries before the end marker that are neither free nor hidden. -/
def listedFiles (l : List Dirent) : List Dirent :=
  (l.takeWhile fun de => de.first ≠ direntEnd).filter fun de => ¬ (de.first = direntFree ∨ de.unlisted)

/-- The listed files on the disk. -/
def State.listed (s : State) : List Dirent :=
  listedFiles (rootEntries (fun k => ataRead s s.drive (s.rootStart + k)) s.rootSectors 0)

section

variable {rest : List Dirent} {dir : Nat → Dirent} {want : List UInt8}

theorem listedFiles_cons (de : Dirent) (l : List Dirent) : listedFiles (de :: l) =
    if de.first = direntEnd then [] else if de.first = direntFree ∨ de.unlisted then listedFiles l
    else de :: listedFiles l := by
  unfold listedFiles
  by_cases hend : de.first = direntEnd
  · simp [hend]
  · rw [if_neg hend, List.takeWhile_cons, if_pos (decide_eq_true hend), List.filter_cons]
    by_cases hno : de.first = direntFree ∨ de.unlisted = true
    · rw [if_pos hno, if_neg (by rw [decide_eq_true_eq]; exact not_not.2 hno)]
    · rw [if_neg hno, if_pos (decide_eq_true hno)]

/-- `fat12_list` in a sector, with `list` behind it. -/
theorem scan_lists {max : Int} {list : List Entry → Walk (List Entry) (List Entry)}
    (hnext : ∀ es, (list es).filled = es ++ ((listedFiles rest).take (max - es.length).toNat).map .ofDirent)
    (k n i : Nat) (es : List Entry) :
    (Walk.after k list (scan (fun es => decide ((es.length : Int) < max)) listBody dir n i es)).filled =
      es ++ ((listedFiles ((List.range' i n).map dir ++ rest)).take (max - es.length).toNat).map .ofDirent := by
  induction n generalizing i es with
  | zero => exact hnext es
  | succ n ih =>
    rw [scan_succ]
    by_cases hm : (es.length : Int) < max
    · rw [decide_eq_true hm, if_pos rfl, List.range'_succ, List.map_cons, List.cons_append, listedFiles_cons]
      unfold listBody
      by_cases hend : (dir i).first = direntEnd
      · simp [hend, Walk.after, Walk.filled]
      by_cases hno : (dir i).first = direntFree ∨ (dir i).unlisted = true
      · rw [if_neg hend, if_pos hno, if_neg hend, if_pos hno]
        exact ih (i + 1) es
      · rw [if_neg hend, if_neg hno, if_neg hend, if_neg hno]
        obtain ⟨m, hroom⟩ : ∃ m : Nat, (max - es.length).toNat = m + 1 := ⟨(max - es.length).toNat - 1, by omega⟩
        have hle : (max - (es ++ [Entry.ofDirent (dir i)]).length).toNat = m := by
          rw [List.length_append, List.length_singleton]
          omega
        have hrest := ih (i + 1) (es ++ [.ofDirent (dir i)])
        rw [hle, List.append_assoc, List.singleton_append] at hrest
        rw [hroom, List.take_succ_cons, List.map_cons]
        exact hrest
    · rw [decide_eq_false hm]
      have hroom : (max - es.length).toNat = 0 := by omega
      have hend := hnext es
      rw [hroom, List.take_zero] at hend ⊢
      exact hend

/-- A search comes to an entry with the key that is wanted. -/
def Comes (want : List UInt8) (l : List Dirent) (w : Walk Unit (Option Dirent)) : Prop :=
  (∃ de ∈ listedFiles l, de.name = want) → ∃ k i d, w = .left k i (some d) ∧ d.name = want

/-- `fat12_find` in a sector, with `find` behind it. -/
theorem scan_comes {find : Unit → Walk Unit (Option Dirent)} (hlen : want.length = 11) (h0 : ∀ c ∈ want, c ≠ 0)
    (hdir : ∀ i, (dir i).name.length = 11) (hnext : Comes want rest (find ())) (k n i : Nat) :
    Comes want ((List.range' i n).map dir ++ rest)
      (Walk.after k find (scan (fun _ => true) (findBody want) dir n i ())) := by
  induction n generalizing i with
  | zero => exact hnext
  | succ n ih =>
    rintro ⟨de, hde, hname⟩
    rw [List.range'_succ, List.map_cons, List.cons_append, listedFiles_cons] at hde
    rw [scan_succ, if_pos rfl]
    unfold findBody
    by_cases hend : (dir i).first = direntEnd
    · rw [if_pos hend] at hde
      cases hde
    rw [if_neg hend] at hde ⊢
    by_cases hfree : (dir i).first = direntFree
    · rw [if_pos (.inl hfree)] at hde
      rw [if_pos hfree]
      exact ih (i + 1) ⟨de, hde, hname⟩
    rw [if_neg hfree]
    by_cases heq : kstrncmp (dir i).name want 11 = 0
    · rw [if_pos heq]
      exact ⟨k, i, dir i, rfl, (kstrncmp_eq_zero_iff (hdir i) hlen h0).1 heq⟩
    · rw [if_neg heq]
      refine ih (i + 1) ⟨de, ?_, hname⟩
      split at hde
      · exact hde
      · refine (List.mem_cons.1 hde).resolve_left fun hc => heq ?_
        rw [← hc, hname]
        exact (kstrncmp_eq_zero_iff hlen hlen h0).2 rfl

end

theorem walkRoot_succ {A R : Type} (more : A → Bool) (body : Dirent → A → A ⊕ R) (n k : Nat) (a : A) (s : State) :
    (walkRoot more body (n + 1) k a s).1 = if more a then
        match ataRead s s.drive (s.rootStart + k) with
        | none => .failed a
        | some sec => .after k (fun a => (walkRoot more body n (k + 1) a { s with sector := sec }).1)
            (scan more body (sectorEntry sec) 16 0 a)
      else .done a := by
  rw [walkRoot]
  cases more a with
  | false => rfl
  | true =>
    cases ataRead s s.drive (s.rootStart + k) with
    | none => rfl
    | some sec =>
      simp only [if_true]
      cases scan more body (sectorEntry sec) 16 0 a <;> rfl

theorem walkRoot_lists (max : Int) (n k : Nat) (es : List Entry) (s : State) :
    (walkRoot (fun es : List Entry => decide ((es.length : Int) < max)) listBody n k es s).1.filled = es ++
      ((listedFiles (rootEntries (fun k => ataRead s s.drive (s.rootStart + k)) n k)).take
        (max - es.length).toNat).map .ofDirent := by
  induction n generalizing k es s with
  | zero => simp [walkRoot, rootEntries, listedFiles, Walk.filled]
  | succ n ih =>
    rw [walkRoot_succ, rootEntries]
    by_cases hm : (es.length : Int) < max
    · rw [decide_eq_true hm, if_pos rfl]
      cases ataRead s s.drive (s.rootStart + k) with
      | none => simp [listedFiles, Walk.filled]
      | some sec => exact scan_lists (fun es => ih (k + 1) es { s with sector := sec }) k 16 0 es
    · have hroom : (max - es.length).toNat = 0 := by omega
      rw [decide_eq_false hm, hroom, List.take_zero]
      exact (List.append_nil es).symm

theorem walkRoot_comes {want : List UInt8} (hlen : want.length = 11) (h0 : ∀ c ∈ want, c ≠ 0) (n k : Nat) (s : State) :
    Comes want (rootEntries (fun k => ataRead s s.drive (s.rootStart + k)) n k)
      (walkRoot (fun _ => true) (findBody want) n k () s).1 := by
  induction n generalizing k s with
  | zero =>
    rintro ⟨de, hde, -⟩
    cases hde
  | succ n ih =>
    rw [walkRoot_succ, rootEntries, if_pos rfl]
    cases ataRead s s.drive (s.rootStart + k) with
    | none =>
      rintro ⟨de, hde, -⟩
      cases hde
    | some sec => exact scan_comes hlen h0 (fun _ => Bytes.length_toList _ 11) (ih (k + 1) { s with sector := sec }) k 16 0

end KumOS.Fat12
