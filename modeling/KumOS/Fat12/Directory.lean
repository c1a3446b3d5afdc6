import KumOS.Fat12.Table
import KumOS.Kstring

/-!
# Names and the root directory

The nested loops over root sectors and their entries are one loop over the
directory `rootDir`, indexed from 0 (`walkRoot_spec`); `fat12_find` and the
search for a free place stop at the first entry of a kind (`scan_search`).
Keys are eleven bytes without a zero, so `kstrncmp` compares them exactly.
-/

namespace KumOS.Fat12

open Lib
open Bytes (fill get32_congr ofList put16_of_out put32_of_out put8 put8_ne)

variable {i : Nat}
variable {c : UInt8} {cluster k n size : Nat} {A R : Type}

/-! ## Keys -/

theorem upper_eq_zero_iff (c : UInt8) : upper c = 0 ↔ c = 0 := by
  unfold upper
  grind

theorem upper_ne_zero (hc : c ≠ 0) : upper c ≠ 0 := fun h => hc ((upper_eq_zero_iff c).1 h)

theorem upper_upper (c : UInt8) : upper (upper c) = upper c := by
  unfold upper
  grind

theorem upper_eq_dot_iff (c : UInt8) : upper c = 46 ↔ c = 46 := by
  unfold upper
  grind

/-- What is before the first dot, upper-cased. -/
def baseOf (name : Name) : List UInt8 := ((cstr name).takeWhile (· ≠ 46)).map upper

/-- What is behind the first dot, upper-cased. -/
def extOf (name : Name) : List UInt8 := ((cstr name).dropWhile (· ≠ 46)).tail.map upper

theorem extLoop_eq (n : Nat) (name : Name) : extLoop n name = ((cstr name).map upper).take n := by
  induction n generalizing name with
  | zero => rfl
  | succ n ih =>
    cases name with
    | nil => rfl
    | cons c cs =>
      by_cases hc : c = 0
      · simp [extLoop, cstr, hc]
      · simp [extLoop, cstr, hc, ih cs]

theorem baseLoop_eq (j n : Nat) (name : Name) :
    (baseLoop j name).1 = (baseOf name).take j ∧
      (if (baseLoop j name).2.headD 0 = 46 then extLoop n (baseLoop j name).2.tail else []) =
        if (baseOf name).length ≤ j then (extOf name).take n else [] := by
  induction name generalizing j with
  | nil => cases j <;> simp [baseLoop, baseOf, extOf]
  | cons c cs ih =>
    by_cases hc : c = 0
    · cases j <;> simp [baseLoop, baseOf, extOf, cstr, hc]
    by_cases hdot : c = 46
    · cases j <;> simp [baseLoop, baseOf, extOf, cstr, hdot, extLoop_eq]
    cases j with
    | zero => simp [baseLoop, baseOf, cstr, hc, hdot]
    | succ j =>
      have hbs : baseOf (c :: cs) = upper c :: baseOf cs := by simp [baseOf, cstr, hc, hdot]
      have hext : extOf (c :: cs) = extOf cs := by simp [extOf, cstr, hc, hdot]
      have hlp : baseLoop (j + 1) (c :: cs) = (upper c :: (baseLoop j cs).1, (baseLoop j cs).2) :=
        if_neg (not_or.2 ⟨hc, hdot⟩)
      obtain ⟨ih1, ih2⟩ := ih j
      rw [hlp, hbs, hext]
      refine ⟨congrArg (upper c :: ·) ih1, ih2.trans ?_⟩
      simp only [List.length_cons, Nat.add_le_add_iff_right]

theorem nameTo83_fields (name : Name) : nameTo83 name = blankPad 8 ((baseOf name).take 8) ++
    blankPad 3 (if (baseOf name).length ≤ 8 then (extOf name).take 3 else []) := by
  obtain ⟨hbs, hext⟩ := baseLoop_eq 8 3 name
  rw [← hbs, ← hext]
  rfl

theorem blankPad_spec {l : List UInt8} (hlen : l.length ≤ n) (hne : ∀ c ∈ l, c ≠ 0) :
    (blankPad n l).length = n ∧ ∀ c ∈ blankPad n l, c ≠ 0 := by
  unfold blankPad
  refine ⟨by simp; omega, fun c hc => ?_⟩
  rcases List.mem_append.1 hc with hc | hc
  · exact hne c hc
  · rw [(List.mem_replicate.1 hc).2]
    decide

theorem nameTo83_spec (name : Name) : (nameTo83 name).length = 11 ∧ ∀ c ∈ nameTo83 name, c ≠ 0 := by
  have hfield : ∀ l : List UInt8, l.Sublist (cstr name) → ∀ n,
      (blankPad n ((l.map upper).take n)).length = n ∧ ∀ c ∈ blankPad n ((l.map upper).take n), c ≠ 0 := by
    intro l hl n
    refine blankPad_spec (List.length_take_le n _) fun c hc => ?_
    obtain ⟨d, hd, rfl⟩ := List.mem_map.1 (List.mem_of_mem_take hc)
    exact upper_ne_zero fun h0 => zero_not_mem_cstr name (h0 ▸ hl.subset hd)
  have hext : (blankPad 3 (if (baseOf name).length ≤ 8 then (extOf name).take 3 else [])).length = 3 ∧
      ∀ c ∈ blankPad 3 (if (baseOf name).length ≤ 8 then (extOf name).take 3 else []), c ≠ 0 := by
    split
    · exact hfield _ ((List.tail_sublist _).trans (List.dropWhile_sublist _)) 3
    · exact hfield [] (List.nil_sublist _) 3
  obtain ⟨hb, hbne⟩ := hfield _ (List.takeWhile_sublist (· ≠ 46)) 8
  rw [nameTo83_fields, List.length_append, hext.1]
  refine ⟨congrArg (· + 3) hb, fun c hc => ?_⟩
  rcases List.mem_append.1 hc with hc | hc
  · exact hbne c hc
  · exact hext.2 c hc

/-- Upper and lower case make no difference to a key. -/
theorem nameTo83_map_upper (name : Name) : nameTo83 (name.map upper) = nameTo83 name := by
  have hbase : baseOf (name.map upper) = baseOf name := by
    simp [baseOf, cstr, List.takeWhile_map, Function.comp_def, upper_eq_zero_iff, upper_eq_dot_iff, upper_upper]
  have hext : extOf (name.map upper) = extOf name := by
    simp [extOf, cstr, List.takeWhile_map, List.dropWhile_map, Function.comp_def, upper_eq_zero_iff, upper_eq_dot_iff,
      upper_upper]
  rw [nameTo83_fields, nameTo83_fields, hbase, hext]

theorem upper_lt (hc : c < 128) : upper c < 128 := by
  unfold upper
  grind

/-- The key of a name that begins with an ASCII character is not taken for that of a free entry. -/
theorem nameTo83_ne_free {name : Name} (h : name.headD 0 < 128) : (nameTo83 name).headD 0 ≠ direntFree := by
  have hlt : (nameTo83 name).headD 0 < 128 := by
    unfold nameTo83
    cases name with
    | nil => decide
    | cons c cs =>
      simp only [baseLoop]
      by_cases hc : c = 0 ∨ c = 46
      · rw [if_pos hc]
        exact (by decide : (32 : UInt8) < 128)
      · rw [if_neg hc]
        exact upper_lt h
  intro heq
  rw [heq] at hlt
  exact absurd hlt (by decide)

theorem kstrncmp_eq_zero_iff {a b : List UInt8} (ha : a.length = n) (hb : b.length = n) (hne : ∀ c ∈ b, c ≠ 0) :
    kstrncmp a b n = 0 ↔ a = b := by
  induction n generalizing a b with
  | zero =>
    rw [List.eq_nil_of_length_eq_zero ha, List.eq_nil_of_length_eq_zero hb]
    simp [kstrncmp]
  | succ n ih =>
    cases a with
    | nil => simp at ha
    | cons x xs =>
      cases b with
      | nil => simp at hb
      | cons y ys =>
        have hy : y ≠ 0 := hne y List.mem_cons_self
        unfold kstrncmp
        by_cases hxy : x = y
        · subst hxy
          have hxs := ih (by simpa using ha) (by simpa using hb)
            fun c hc => hne c (List.mem_cons_of_mem x hc)
          simp [hy, hxs]
        · have hdiff : x.toNat ≠ y.toNat := fun h => hxy (UInt8.toNat_inj.1 h)
          simp [hxy]
          omega

/-! ## The root directory as one loop -/

/-- Entry `j` of the root directory on disk. -/
def rootDir (s : State) (j : Nat) : Dirent :=
  sectorEntry (s.ata.sector s.drive (s.rootStart + j / 16)) (j % 16)

/-- The end of a loop over the directory, in sectors and entries. -/
def Walk.ofScan {A R : Type} : A ⊕ (Nat × R) → Walk A R
  | .inl a => .done a
  | .inr (j, r) => .left (j / 16) (j % 16) r

/-- On every volume, a walk leaves the last sector it read in the buffer and nothing else. -/
theorem walkRoot_state (more : A → Bool) (body : Dirent → A → A ⊕ R) (n k : Nat) (a : A) (s : State) :
    ∃ sec, (walkRoot more body n k a s).2 = { s with sector := sec } := by
  induction n generalizing k a s with
  | zero => exact ⟨s.sector, rfl⟩
  | succ n ih =>
    unfold walkRoot
    cases more a with
    | false => exact ⟨s.sector, rfl⟩
    | true =>
      cases ataRead s s.drive (s.rootStart + k) with
      | none => exact ⟨s.sector, rfl⟩
      | some sec =>
        simp only
        cases scan more body (sectorEntry sec) 16 0 a with
        | inl a' => exact ih (k + 1) a' { s with sector := sec }
        | inr r => exact ⟨sec, rfl⟩

theorem fat12List_state (s : State) (max : Int) : ∃ sec, (fat12List s max).2.2 = { s with sector := sec } := by
  unfold fat12List
  split
  · exact ⟨s.sector, rfl⟩
  obtain ⟨sec, hsec⟩ := walkRoot_state (fun es : List Entry => decide ((es.length : Int) < max))
    listBody s.rootSectors 0 [] s
  refine ⟨sec, ?_⟩
  generalize walkRoot (fun es : List Entry => decide ((es.length : Int) < max)) listBody
    s.rootSectors 0 [] s = w at hsec ⊢
  obtain ⟨w, s'⟩ := w
  cases w <;> exact hsec

theorem walkRoot_spec (more : A → Bool) (body : Dirent → A → A ⊕ R) {s : State}
    (hok : ∀ d l, s.ata.ok d l = true) (n k : Nat) (a : A) (h : s.rootStart + k + n ≤ 2 ^ 32) :
    ∃ sec, walkRoot more body n k a s =
        (Walk.ofScan (scan more body (rootDir s) (16 * n) (16 * k) a), { s with sector := sec }) ∧
      ∀ j r, scan more body (rootDir s) (16 * n) (16 * k) a = .inr (j, r) →
        sec = s.ata.sector s.drive (s.rootStart + j / 16) := by
  induction n generalizing k a s with
  | zero => exact ⟨s.sector, rfl, fun j r hj => by cases hj⟩
  | succ n ih =>
    cases hm : more a with
    | false =>
      rw [scan_of_not_more more body _ _ _ hm]
      refine ⟨s.sector, ?_, fun j r hj => by cases hj⟩
      unfold walkRoot
      rw [hm]
      rfl
    | true =>
      have hsector : ∀ j, 0 ≤ j → j < 0 + 16 →
          sectorEntry (s.ata.sector s.drive (s.rootStart + k)) j = rootDir s (16 * k + j) := by
        intro j _ hj
        have hdiv : (16 * k + j) / 16 = k := by omega
        have hmod : (16 * k + j) % 16 = j := by omega
        unfold rootDir
        rw [hdiv, hmod]
      have hfi := scan_shift more body (16 * k) 16 0 a hsector
      have hlen : 16 * (n + 1) = 16 + 16 * n := by omega
      rw [Nat.add_zero] at hfi
      rw [hlen, scan_add, hfi]
      have hrd := ataRead_of_ok hok s.drive (show s.rootStart + k < 2 ^ 32 by omega)
      cases hsec : scan more body (sectorEntry (s.ata.sector s.drive (s.rootStart + k))) 16 0 a with
      | inl a' =>
        simp only [walkRoot, hm, if_true, hrd, hsec]
        exact ih (s := { s with sector := s.ata.sector s.drive (s.rootStart + k) }) hok (k + 1) a'
          (by show s.rootStart + (k + 1) + n ≤ 2 ^ 32; omega)
      | inr p =>
        obtain ⟨i, r⟩ := p
        have hi : i < 0 + 16 := scan_index_lt more body _ hsec
        have hdiv : (16 * k + i) / 16 = k := by omega
        have hmod : (16 * k + i) % 16 = i := by omega
        refine ⟨s.ata.sector s.drive (s.rootStart + k), ?_, fun j r' hj => ?_⟩
        · show _ = (Walk.left ((16 * k + i) / 16) ((16 * k + i) % 16) r, _)
          rw [hdiv, hmod]
          simp only [walkRoot, hm, if_true, hrd, hsec]
        · cases hj
          rw [hdiv]

/-! ## Entries of a sector -/

theorem sectorEntry_congr {sec sec' : Bytes} (h : ∀ x, 32 * i ≤ x → x < 32 * i + 32 → sec x = sec' x) :
    sectorEntry sec i = sectorEntry sec' i := by
  have hb : ∀ b < 32, sec.drop (32 * i) b = sec'.drop (32 * i) b := fun b hb => h (32 * i + b) (by omega) (by omega)
  unfold sectorEntry Dirent.decode
  rw [Bytes.toList_congr fun i hi => hb i (by omega), hb 11 (by omega),
    Bytes.get16_congr fun i hi => hb (26 + i) (by omega),
    get32_congr fun i hi => hb (28 + i) (by omega)]

theorem putDirent_name (sec : Bytes) (i : Nat) (name : List UInt8) (cluster size : Nat) {b : Nat}
    (hb : b < 11) : putDirent sec i name cluster size (32 * i + b) = ofList name b := by
  unfold putDirent
  rw [put16_of_out _ (by omega), put16_of_out _ (by omega),
    put32_of_out _ (by omega), put16_of_out _ (by omega), put8_ne _ (by omega),
    Bytes.copy_of_in _ _ (by omega), Nat.add_sub_cancel_left]

theorem putDirent_attr (sec : Bytes) (i : Nat) (name : List UInt8) (cluster size : Nat) :
    putDirent sec i name cluster size (32 * i + 11) = 0x20 := by
  unfold putDirent
  rw [put16_of_out _ (by omega), put16_of_out _ (by omega),
    put32_of_out _ (by omega), put16_of_out _ (by omega), Bytes.put8_same]
  rfl

theorem putDirent_cluster (sec : Bytes) (i : Nat) (name : List UInt8) (size : Nat) (hc : cluster < 2 ^ 16) :
    (putDirent sec i name cluster size).get16 (32 * i + 26) = cluster := by
  unfold putDirent
  rw [Bytes.get16_put16_ne _ (by omega), Bytes.get16_put16_ne _ (by omega),
    Bytes.get16_congr (fun j hj => put32_of_out _ (by omega)), Bytes.get16_put16_same _ hc]

theorem putDirent_size (sec : Bytes) (i : Nat) (name : List UInt8) (cluster : Nat) (hs : size < 2 ^ 32) :
    (putDirent sec i name cluster size).get32 (32 * i + 28) = size := by
  unfold putDirent
  rw [get32_congr (fun j hj => put16_of_out _ (by omega)),
    get32_congr (fun j hj => put16_of_out _ (by omega)), Bytes.get32_put32_same _ hs]

theorem sectorEntry_putDirent_same (sec : Bytes) (i : Nat) {name : List UInt8} (hn : name.length = 11)
    (hc : cluster < 2 ^ 16) (hs : size < 2 ^ 32) :
    sectorEntry (putDirent sec i name cluster size) i = ⟨name, 0x20, cluster, size⟩ := by
  have hnm : ((putDirent sec i name cluster size).drop (32 * i)).toList 11 = name := by
    have hby : ((putDirent sec i name cluster size).drop (32 * i)).toList 11 =
        (ofList name).toList 11 :=
      Bytes.toList_congr fun b hb => putDirent_name sec i name cluster size hb
    rw [hby, ← hn]
    exact Bytes.toList_ofList name
  have hattr := putDirent_attr sec i name cluster size
  have hcluster := putDirent_cluster sec i name size hc
  have hsz := putDirent_size sec i name cluster hs
  unfold sectorEntry Dirent.decode
  congr 1
  exact congrArg UInt8.toNat hattr

theorem sectorEntry_putDirent_ne (sec : Bytes) (name : List UInt8) (cluster size : Nat) (h : k ≠ i) :
    sectorEntry (putDirent sec i name cluster size) k = sectorEntry sec k := by
  refine sectorEntry_congr fun x h1 h2 => ?_
  unfold putDirent
  rw [put16_of_out _ (by omega), put16_of_out _ (by omega),
    put32_of_out _ (by omega), put16_of_out _ (by omega), put8_ne _ (by omega),
    Bytes.copy_of_out _ _ (by omega), fill, Bytes.copy_of_out _ _ (by omega)]

/-- The end marker is moved to an entry that is an end marker already. -/
theorem sectorEntry_markEnd (sec : Bytes) (i k : Nat) (first : UInt8)
    (h : first = direntEnd → i + 1 < 16 → (sectorEntry sec (i + 1)).first = direntEnd) :
    sectorEntry (markEnd sec i first) k = sectorEntry sec k := by
  unfold markEnd
  split
  · rename_i hmark
    have hze : sec (32 * (i + 1)) = direntEnd := h hmark.1 hmark.2
    have hsm : sec.put8 (32 * (i + 1)) direntEnd.toNat = sec := by
      rw [put8, UInt8.ofNat_toNat, ← hze]
      exact Function.update_eq_self _ _
    rw [hsm]
  · rfl

end KumOS.Fat12
