import KumOS.Fat12.Floppy

/-!
# `fat12_find`, `fat12_list`, `fat12_read` and `fat12_delete`

Each call, on a volume that holds a finite map of files, answers from the map:
`fat12_find` finds the entry of a file of the map, `fat12_list` lists the map,
`fat12_read` returns the file's first bytes, and `fat12_delete` removes the file
from the map.
-/

namespace KumOS.Fat12

open Lib

variable {de : Dirent} {name : Name} {n : Nat} {s' s1 : State} {out : List UInt8}
variable {want : List UInt8} {V : Vol} {stop : Nat} {f : DirFind} {s : State}

/-! ## Finding an entry -/

theorem findBody_eq_inl (h : findBody want de () = .inl ()) :
    de.first ≠ direntEnd ∧ (de.first = direntFree ∨ kstrncmp de.name want 11 ≠ 0) := by
  unfold findBody at h
  by_cases hend : de.first = direntEnd
  · simp [hend] at h
  by_cases hfr : de.first = direntFree
  · exact ⟨hend, .inl hfr⟩
  · refine ⟨hend, .inr fun heq => ?_⟩
    simp [hend, hfr, heq] at h

theorem findBody_eq_inr {r : Option Dirent} (h : findBody want de () = .inr r) :
    de.first = direntEnd ∧ r = none ∨
      de.first ≠ direntEnd ∧ de.first ≠ direntFree ∧ kstrncmp de.name want 11 = 0 ∧
        r = some de := by
  unfold findBody at h
  by_cases hend : de.first = direntEnd
  · rw [if_pos hend] at h
    cases h
    exact .inl ⟨hend, rfl⟩
  rw [if_neg hend] at h
  by_cases hfr : de.first = direntFree
  · rw [if_pos hfr] at h
    cases h
  rw [if_neg hfr] at h
  by_cases heq : kstrncmp de.name want 11 = 0
  · rw [if_pos heq] at h
    cases h
    exact .inr ⟨hend, hfr, heq, rfl⟩
  · rw [if_neg heq] at h
    cases h

section

variable {d : Int} {s : State} {ch : Nat → List Nat} {files : Files}

theorem kstrncmp_key (s : State) (j : Nat) (name : Name) :
    kstrncmp ((view s).dir j).name (nameTo83 name) 11 = 0 ↔ ((view s).dir j).name = nameTo83 name :=
  kstrncmp_eq_zero_iff (Bytes.length_toList _ 11) (nameTo83_spec name).1 (nameTo83_spec name).2

/-- A search that meets no entry of the name before it ends: there is no such file. -/
theorem Holds.eq_none_of_search (hH : Holds (view s) ch files)
    (hpass : ∀ j < n, findBody (nameTo83 name) ((view s).dir j) () = .inl ())
    (hrs : ∀ j, n ≤ j → j < 224 → ((view s).dir j).first = direntEnd) : files (nameTo83 name) = none := by
  refine Option.eq_none_iff_forall_ne_some.2 fun data hf => ?_
  obtain ⟨j, hj, hnm⟩ := hH.dom _ data hf
  by_cases hjn : j < n
  · rcases (findBody_eq_inl (hpass j hjn)).2 with hfr | hcmp
    · exact hj.2.2 hfr
    · exact hcmp ((kstrncmp_key s j name).2 hnm)
  · exact hj.2.1 (hrs j (by omega) hj.1)

theorem fat12Find_spec (hF : Floppy d s) (hH : Holds (view s) ch files) (name : Name) :
    ∃ sec,
      files (nameTo83 name) = none ∧ fat12Find s name = (none, { s with sector := sec }) ∨
      ∃ j, (view s).Live j ∧ ((view s).dir j).name = nameTo83 name ∧
        fat12Find s name = (some ⟨19 + j / 16, j % 16, (view s).dir j⟩, { s with sector := sec }) := by
  obtain ⟨sec, hwk, -⟩ := walkRoot_floppy (fun _ => true) (findBody (nameTo83 name)) hF ()
  refine ⟨sec, ?_⟩
  unfold fat12Find
  rw [hwk]
  rcases scan_search (findBody (nameTo83 name)) (view s).dir 224 0 with
    ⟨hrun, hall⟩ | ⟨j, r, -, hj, hrun, hstop, hbf⟩
  · rw [hrun]
    refine .inl ⟨hH.eq_none_of_search (fun j hj => hall j (by omega) (by omega)) ?_, rfl⟩
    intro j h1 h2
    omega
  rw [hrun]
  rcases findBody_eq_inr hstop with ⟨hend, rfl⟩ | ⟨hend, hfr, hcmp, rfl⟩
  · refine .inl ⟨hH.eq_none_of_search (fun k hk => hbf k (by omega) hk) ?_, rfl⟩
    intro k h1 h2
    rcases Nat.eq_or_lt_of_le h1 with rfl | hlt
    · exact hend
    · exact hH.ends j k hlt h2 hend
  · refine .inr ⟨j, ⟨by omega, hend, hfr⟩, (kstrncmp_key s j name).1 hcmp, ?_⟩
    show (some (DirFind.mk (s.rootStart + j / 16) (j % 16) ((view s).dir j)),
      { s with sector := sec }) = _
    rw [hF.rootStart]

/-! ## Listing -/

/-- The live entries among the `n` from `j` on, in directory order. -/
def Vol.liveFrom (V : Vol) (j n : Nat) : List Nat :=
  (List.range' j n).filter fun k =>
    (V.dir k).first ≠ direntEnd ∧ (V.dir k).first ≠ direntFree

theorem Vol.mem_liveFrom {k : Nat} : k ∈ V.liveFrom 0 224 ↔ V.Live k := by
  simp [liveFrom, Live]

theorem Vol.liveFrom_succ (V : Vol) (j n : Nat) :
    V.liveFrom j (n + 1) =
      if (V.dir j).first ≠ direntEnd ∧ (V.dir j).first ≠ direntFree then
        j :: V.liveFrom (j + 1) n
      else V.liveFrom (j + 1) n := by
  unfold liveFrom
  rw [List.range'_succ, List.filter_cons]
  simp only [decide_eq_true_eq]

theorem listBody_file (es : List Entry) (hend : de.first ≠ direntEnd)
    (hfr : de.first ≠ direntFree) (hattr : de.attr = 0x20) : listBody de es = .inl (es ++ [.ofDirent de]) := by
  have hlisted : de.unlisted = false := by
    unfold Dirent.unlisted
    rw [hattr]
    decide
  unfold listBody
  rw [if_neg hend, if_neg (by simp [hfr, hlisted])]

/-- The loop of `fat12_list`, with room for all entries, collects the live ones. -/
theorem scan_listBody {ch : Nat → List Nat} (hH : Holds V ch files) (max : Int) (n j : Nat) (es : List Entry)
    (hj : j + n = 224) (hrm : (es.length : Int) + n ≤ max) :
    ∃ out, out = es ++ (V.liveFrom j n).map (fun k => Entry.ofDirent (V.dir k)) ∧
      (scan (fun es => decide ((es.length : Int) < max)) listBody V.dir n j es = .inl out ∨
        ∃ i, scan (fun es => decide ((es.length : Int) < max)) listBody V.dir n j es = .inr (i, out)) := by
  induction n generalizing j es with
  | zero => exact ⟨es, by simp [Vol.liveFrom], .inl rfl⟩
  | succ n ih =>
    rw [scan_succ, if_pos (by simp; omega), Vol.liveFrom_succ]
    by_cases hend : (V.dir j).first = direntEnd
    · -- behind the end marker there are only end markers
      have hnn : V.liveFrom (j + 1) n = [] := by
        apply List.filter_eq_nil_iff.2
        intro k hk
        obtain ⟨h1, h2⟩ := List.mem_range'_1.1 hk
        simp [hH.ends j k (by omega) (by omega) hend]
      rw [listBody, if_pos hend, if_neg (fun h => h.1 hend), hnn]
      exact ⟨es, by simp, .inr ⟨j, rfl⟩⟩
    by_cases hfr : (V.dir j).first = direntFree
    · rw [listBody, if_neg hend, if_neg (fun h => h.2 hfr), if_pos (.inl hfr)]
      exact ih (j + 1) es (by omega) (by omega)
    have hattr := hH.attr j ⟨by omega, hend, hfr⟩
    rw [listBody_file es hend hfr hattr, if_pos ⟨hend, hfr⟩]
    obtain ⟨out, hout, hrun⟩ := ih (j + 1) (es ++ [Entry.ofDirent (V.dir j)]) (by omega)
      (by rw [List.length_append, List.length_singleton]; omega)
    exact ⟨out, by rw [hout]; simp, hrun⟩

/-- What `fat12_list` returns depends on the directory only. -/
theorem fat12List_eq (hF : Floppy d s) (max : Int) :
    ∃ sec, fat12List s max =
      match scan (fun es : List Entry => decide ((es.length : Int) < max)) listBody
          (view s).dir 224 0 [] with
      | .inl es | .inr (_, es) => (es.length, es, { s with sector := sec }) := by
  obtain ⟨sec, hwk, -⟩ := walkRoot_floppy (fun es : List Entry => decide ((es.length : Int) < max))
    listBody hF []
  refine ⟨sec, ?_⟩
  unfold fat12List
  rw [if_neg hF.not_unmounted, hwk]
  rcases scan (fun es : List Entry => decide ((es.length : Int) < max)) listBody
    (view s).dir 224 0 [] with es | ⟨i, es⟩ <;> rfl

theorem fat12List_spec (hF : Floppy d s) (hH : Holds (view s) ch files) {max : Int} (hmax : 224 ≤ max) :
    ∃ sec, fat12List s max =
      ((((view s).liveFrom 0 224).length : Int),
        ((view s).liveFrom 0 224).map (fun k => Entry.ofDirent ((view s).dir k)),
        { s with sector := sec }) := by
  obtain ⟨sec, hlist⟩ := fat12List_eq hF max
  obtain ⟨out, hout, hrun⟩ := scan_listBody hH max 224 0 [] rfl (by simpa using hmax)
  rw [List.nil_append] at hout
  have hlen : out.length = ((view s).liveFrom 0 224).length := by rw [hout, List.length_map]
  refine ⟨sec, ?_⟩
  rcases hrun with hrun | ⟨i, hrun⟩
  · rw [hlist, hrun, ← hlen, ← hout]
  · rw [hlist, hrun, ← hlen, ← hout]

/-! ## Reading -/

/-- The bytes of a chain begin with those of its first cluster. -/
theorem Vol.bytes_cons_toList (V : Vol) (c : Nat) (cs : List Nat) (n : Nat) :
    (V.bytes (c :: cs)).toList n =
      (V.data c).toList (if 512 < n then 512 else n) ++ (V.bytes cs).toList (n - if 512 < n then 512 else n) := by
  have hhd : ∀ k ≤ 512, (V.bytes (c :: cs)).toList k = (V.data c).toList k := by
    intro k hk
    apply Bytes.toList_congr
    intro i hi
    have hdiv : i / 512 = 0 := by omega
    have hmod : i % 512 = i := by omega
    unfold bytes
    rw [hdiv, hmod]
    rfl
  have htail : (V.bytes (c :: cs)).drop 512 = V.bytes cs := by
    funext i
    have hdiv : (512 + i) / 512 = i / 512 + 1 := by omega
    have hmod : (512 + i) % 512 = i % 512 := by omega
    show V.data ((c :: cs).getD ((512 + i) / 512) 0) ((512 + i) % 512) = _
    rw [hdiv, hmod]
    rfl
  by_cases hn : 512 < n
  · have hsplit : n = 512 + (n - 512) := by omega
    rw [if_pos hn, ← hhd 512 (Nat.le_refl _), ← htail, ← Bytes.toList_add, ← hsplit]
  · rw [if_neg hn, Nat.sub_self, hhd n (by omega)]
    exact (List.append_nil _).symm

theorem readCluster_one (hF : Floppy d s) {c : Nat} (h2 : 2 ≤ c) (hc : c ≤ 2848) (out : List UInt8) (hn : 0 < n) :
    readCluster s.bpb.sectorsPerCluster (clusterToLba s c) out n s =
      (true, out ++ ((view s).data c).toList (if 512 < n then 512 else n),
        n - (if 512 < n then 512 else n), { s with sector := (view s).data c }) := by
  have hspc : s.bpb.sectorsPerCluster = 1 := by
    rw [hF.bpb]
    rfl
  rw [hspc, hF.lba h2 hc, readCluster, if_pos hn, ataRead_of_ok hF.ok _ (by omega)]
  rfl

theorem readLoop_spec (cs : List Nat) (hrg : ∀ c ∈ cs, 2 ≤ c ∧ c ≤ 2848) (fuel start : Nat) (out : List UInt8)
    (n : Nat) (s : State) (hF : Floppy d s) (hlink : Linked (view s).next stop start cs)
    (hn : n ≤ 512 * cs.length) (hfuel : cs.length < fuel) :
    ∃ sec, readLoop fuel start out n s = some (out ++ ((view s).bytes cs).toList n, { s with sector := sec }) := by
  induction cs generalizing fuel start out n s with
  | nil =>
    obtain ⟨fuel, rfl⟩ : ∃ f, fuel = f + 1 := ⟨fuel - 1, by omega⟩
    have hn0 : n = 0 := by simpa using hn
    refine ⟨s.sector, ?_⟩
    rw [readLoop, if_neg (by omega), hn0]
    simp [Bytes.toList]
  | cons c cs ih =>
    obtain ⟨fuel, rfl⟩ : ∃ f, fuel = f + 1 := ⟨fuel - 1, by omega⟩
    obtain ⟨rfl, hrs⟩ := hlink
    obtain ⟨h2, hc⟩ := hrg start List.mem_cons_self
    rw [readLoop]
    by_cases h0 : 0 < n
    · rw [if_pos ⟨h2, by omega, h0⟩, readCluster_one hF h2 hc out h0, Vol.bytes_cons_toList,
        ← List.append_assoc]
      rw [List.length_cons] at hn hfuel
      exact ih (fun c hc => hrg c (List.mem_cons_of_mem start hc)) fuel _ _ _
        { s with sector := (view s).data start } (hF.setSector _) hrs
        (by split <;> omega) (by omega)
    · have hn0 : n = 0 := by omega
      refine ⟨s.sector, ?_⟩
      rw [if_neg (by omega), hn0]
      simp [Bytes.toList]

/-- What a read of a file, or of no file, answers. -/
def readResult (file : Option (List UInt8)) (bufsz : Nat) : Int × List UInt8 :=
  match file with
  | none => (-1, [])
  | some data => ((min data.length bufsz : Nat), data.take bufsz)

theorem fat12Read_spec (hF : Floppy d s) (hH : Holds (view s) ch files) (name : Name) (bufsz : UInt32) :
    ∃ sec, fat12Read s name bufsz =
      some ((readResult (files (nameTo83 name)) bufsz.toNat).1,
        (readResult (files (nameTo83 name)) bufsz.toNat).2, { s with sector := sec }) := by
  obtain ⟨sec, ⟨hnn, hfn⟩ | ⟨j, hj, hnm, hfn⟩⟩ := fat12Find_spec hF hH name
  · refine ⟨sec, ?_⟩
    unfold fat12Read
    rw [if_neg hF.not_unmounted, hfn, hnn]
    rfl
  have hch := hH.chain j hj
  have hclusters := length_le_of_clusters hch.nodup hch.range
  have hsz := hch.size_le
  have hn : readLen ((view s).dir j).fileSize bufsz.toNat =
      min ((view s).dir j).fileSize bufsz.toNat := by
    unfold readLen
    split <;> omega
  obtain ⟨sec', hlp⟩ := readLoop_spec (ch j) hch.range
    (min ((view s).dir j).fileSize bufsz.toNat + 0x10001) ((view s).dir j).startCluster []
    (min ((view s).dir j).fileSize bufsz.toNat) { s with sector := sec } (hF.setSector sec)
    hch.linked (by omega) (by omega)
  rw [← hn] at hlp
  refine ⟨sec', ?_⟩
  rw [fat12Read, if_neg hF.not_unmounted, hfn]
  show readFile _ _ _ = _
  rw [readFile, hlp]
  show some (toInt _, _, _) = _
  have hint : toInt (min ((view s).dir j).fileSize bufsz.toNat) =
      ((min ((view s).dir j).fileSize bufsz.toNat : Nat) : Int) := if_pos (by omega)
  rw [← hnm, hH.stored j hj, hn, List.nil_append, Bytes.length_toList, hint]
  simp only [readResult, Bytes.take_toList, Bytes.length_toList]
  rfl

theorem readCluster_length (n lba : Nat) (out : List UInt8) (remaining : Nat) (s : State) :
    (readCluster n lba out remaining s).2.1.length + (readCluster n lba out remaining s).2.2.1 =
      out.length + remaining := by
  induction n generalizing lba out remaining s with
  | zero => rfl
  | succ n ih =>
    unfold readCluster
    split
    · split
      · rfl
      · rw [ih, List.length_append, Bytes.length_toList]
        split <;> omega
    · rfl

theorem readLoop_length_le {fuel cluster remaining : Nat} {out' : List UInt8}
    (h : readLoop fuel cluster out remaining s = some (out', s')) : out'.length ≤ out.length + remaining := by
  induction fuel generalizing cluster out remaining s with
  | zero => cases h
  | succ fuel ih =>
    unfold readLoop at h
    split at h
    · have hlen := readCluster_length s.bpb.sectorsPerCluster (clusterToLba s cluster) out remaining s
      split at h
      · rename_i heq
        rw [heq] at hlen
        cases h
        exact Nat.le.intro hlen
      rename_i heq
      rw [heq] at hlen
      have hle := ih h
      dsimp only at hlen
      omega
    · cases h
      omega

/-- On any volume, no more than `bufsz` bytes are read. -/
theorem fat12Read_le {bufsz : UInt32} {n : Int} (h : fat12Read s name bufsz = some (n, out, s')) :
    n.toNat ≤ bufsz.toNat := by
  unfold fat12Read at h
  split at h
  · cases h
    exact Nat.zero_le _
  split at h
  · cases h
    exact Nat.zero_le _
  rw [readFile] at h
  split at h
  · cases h
  rename_i hlp
  have hlen := readLoop_length_le hlp
  cases h
  unfold readLen at hlen
  unfold toInt
  rw [List.length_nil, Nat.zero_add] at hlen
  split <;> split at hlen <;> omega

/-! ## Deleting -/

theorem chainStop_out (size : Nat) : chainStop size < 2 ∨ 0xFEF < chainStop size := by
  unfold chainStop
  split <;> omega

/-- The loop of `fat12_delete` frees the clusters of the chain it is started on. -/
theorem freeLoop_spec (hstop : stop < 2 ∨ 0xFEF < stop) (cs : List Nat) (hrg : ∀ c ∈ cs, 2 ≤ c ∧ c ≤ 2848)
    (hnodup : cs.Nodup) (fuel start : Nat) (s : State) (hF : Floppy d s)
    (hlink : Linked (view s).next stop start cs) (hfuel : cs.length < fuel) :
    Floppy d (freeLoop fuel start s) ∧
    (∀ c, (view (freeLoop fuel start s)).next c = if c ∈ cs then 0 else (view s).next c) ∧
    (view (freeLoop fuel start s)).data = (view s).data ∧
    (view (freeLoop fuel start s)).dir = (view s).dir := by
  induction cs generalizing fuel start s with
  | nil =>
    obtain ⟨fuel, rfl⟩ : ∃ f, fuel = f + 1 := ⟨fuel - 1, by omega⟩
    have hsr : start = stop := hlink
    have hsm : freeLoop (fuel + 1) start s = s := by
      rw [freeLoop, if_neg (by omega)]
    rw [hsm]
    exact ⟨hF, fun c => rfl, rfl, rfl⟩
  | cons c cs ih =>
    obtain ⟨fuel, rfl⟩ : ∃ f, fuel = f + 1 := ⟨fuel - 1, by omega⟩
    obtain ⟨rfl, hrs⟩ := hlink
    obtain ⟨h2, hc⟩ := hrg start List.mem_cons_self
    obtain ⟨hnotin, hnodup⟩ := List.nodup_cons.1 hnodup
    have hsp : freeLoop (fuel + 1) start s =
        freeLoop fuel ((view s).next start) (fatSet s start 0) := by
      rw [freeLoop, if_pos ⟨h2, by omega⟩]
      rfl
    have hnx : ∀ c, (view (fatSet s start 0)).next c =
        if c = start then 0 else (view s).next c := fun c =>
      fatGet_fatPut s.fat start c (by omega)
    have hlink' : Linked (view (fatSet s start 0)).next stop ((view s).next start) cs :=
      hrs.congr fun x hx => by
        have hx' : x ≠ start := fun he => hnotin (he ▸ hx)
        rw [hnx x, if_neg hx']
    rw [List.length_cons] at hfuel
    obtain ⟨hF', hnext', hdata', hdir'⟩ := ih
      (fun c hc => hrg c (List.mem_cons_of_mem start hc)) hnodup fuel ((view s).next start)
      (fatSet s start 0) (hF.fatSet start 0) hlink' (by omega)
    rw [hsp]
    refine ⟨hF', fun c => ?_, hdata', hdir'⟩
    rw [hnext' c, hnx c]
    by_cases hin : c ∈ cs
    · rw [if_pos hin, if_pos (List.mem_cons_of_mem start hin)]
    · by_cases hcs : c = start
      · rw [if_neg hin, if_pos hcs, hcs, if_pos List.mem_cons_self]
      · rw [if_neg hin, if_neg hcs, if_neg (by simp [hin, hcs])]

theorem fat12Delete_found (hF : Floppy d s) {s2 : State} (hfn : fat12Find s name = (some f, s1))
    (hflush : fatFlush (freeLoop 0x1000 f.de.startCluster s1) = (true, s2)) (hF2 : Floppy d s2)
    (hsec : f.sector < 2 ^ 32) :
    fat12Delete s name =
      (0, { s2 with
        sector := (s2.ata.sector d f.sector).put8 (32 * f.index) direntFree.toNat
        ata := s2.ata.put d f.sector ((s2.ata.sector d f.sector).put8 (32 * f.index) direntFree.toNat) }) := by
  unfold fat12Delete
  rw [if_neg hF.not_unmounted, hfn]
  simp only [hflush]
  rw [hF2.drive, ataRead_of_ok hF2.ok d hsec]
  simp only
  rw [ataWrite_of_ok (by exact hF2.ok) d _ hsec]

section

variable (hF : Floppy d s) (hH : Holds (view s) ch files)
include hF hH

/-- `fat12_delete` frees the chain of the entry it finds, and marks the entry. -/
theorem fat12Delete_entry {j : Nat} (hj : (view s).Live j) (hnm : ((view s).dir j).name = nameTo83 name) :
    ∃ s', fat12Delete s name = (0, s') ∧ Floppy d s' ∧
      Holds (view s') ch (Function.update files (nameTo83 name) none) ∧ s'.fatDirty = false ∧
      ¬ (view s').Live j ∧ ∀ c, (view s').next c = if c ∈ ch j then 0 else (view s).next c := by
  obtain ⟨sec, ⟨hnn, -⟩ | ⟨j', hj', hname', hfn⟩⟩ := fat12Find_spec hF hH name
  · rw [← hnm, hH.stored j hj] at hnn
    cases hnn
  obtain rfl : j = j' := hH.names j j' hj hj' (hnm.trans hname'.symm)
  have hch := hH.chain j hj
  have hclusters := length_le_of_clusters hch.nodup hch.range
  obtain ⟨hF1, hnext1, hdata1, hdir1⟩ := freeLoop_spec (chainStop_out _) (ch j) hch.range
    hch.nodup 0x1000 ((view s).dir j).startCluster { s with sector := sec }
    (hF.setSector sec) hch.linked (by omega)
  obtain ⟨s2, hflush, hF2, hview2, hce, -⟩ := fatFlush_spec hF1
  have hj224 := hj.1
  refine ⟨_, fat12Delete_found hF hfn hflush hF2 (by show 19 + j / 16 < 2 ^ 32; omega), ?_⟩
  obtain ⟨hF3, het, hdir3, hdata3⟩ := putRoot_spec (hF2.setSector
    ((s2.ata.sector d (19 + j / 16)).put8 (32 * (j % 16)) direntFree.toNat)) hj.1
    ((s2.ata.sector d (19 + j / 16)).put8 (32 * (j % 16)) direntFree.toNat)
    (fun i hi => sectorEntry_congr fun x h1 h2 => Bytes.put8_ne _ (by omega))
  have hmarked := (congrArg Dirent.first het).trans (Bytes.put8_same ..)
  refine ⟨hF3, ?_, hce, fun hlv => hlv.2.2 hmarked, fun c => ?_⟩
  · rw [← hnm]
    refine hH.remove hj (fun k hk hkj => ?_) hmarked (fun c hc => ?_) (fun c hc => ?_)
    · rw [hdir3 k hk hkj]
      show (view s2).dir k = _
      rw [hview2, hdir1]
      rfl
    · show (view s2).next c = _
      rw [hview2, hnext1, if_neg hc]
      rfl
    · rw [hdata3 c hc]
      show (view s2).data c = _
      rw [hview2, hdata1]
      rfl
  · show (view s2).next c = _
    rw [hview2, hnext1]
    rfl

/-- `fat12_delete` removes the file from the map, or there is none and nothing happens. -/
theorem fat12Delete_spec (name : Name) :
    (files (nameTo83 name) = none ∧ ∃ sec, fat12Delete s name = (-1, { s with sector := sec })) ∨
    files (nameTo83 name) ≠ none ∧ ∃ s', fat12Delete s name = (0, s') ∧ Floppy d s' ∧
      Holds (view s') ch (Function.update files (nameTo83 name) none) ∧ s'.fatDirty = false ∧
      ∀ c, (view s).next c = 0 → (view s').next c = 0 := by
  obtain ⟨sec, ⟨hnn, hfn⟩ | ⟨j, hj, hnm, -⟩⟩ := fat12Find_spec hF hH name
  · exact .inl ⟨hnn, sec, by rw [fat12Delete, if_neg hF.not_unmounted, hfn]⟩
  refine .inr ⟨?_, ?_⟩
  · rw [← hnm, hH.stored j hj]
    exact Option.some_ne_none _
  · obtain ⟨s', hdel, hF', hH', hce, -, hnx⟩ := fat12Delete_entry hF hH hj hnm
    refine ⟨s', hdel, hF', hH', hce, fun c hc => ?_⟩
    rw [hnx c]
    split
    · rfl
    · exact hc

/-- `fat12_write` deletes first: whether or not there was a file, there is none afterwards. -/
theorem fat12Delete_cleared (name : Name) :
    Floppy d (fat12Delete s name).2 ∧
    Holds (view (fat12Delete s name).2) ch (Function.update files (nameTo83 name) none) ∧
    ∀ c, (view s).next c = 0 → (view (fat12Delete s name).2).next c = 0 := by
  rcases fat12Delete_spec hF hH name with ⟨hnn, sec, hdel⟩ | ⟨-, s', hdel, hF', hH', -, hmono⟩
  · rw [hdel, ← hnn, Function.update_eq_self]
    exact ⟨hF.setSector sec, hH, fun c hc => hc⟩
  · rw [hdel]
    exact ⟨hF', hH', hmono⟩

end

end

end KumOS.Fat12
