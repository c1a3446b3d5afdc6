import KumOS.Fat12.Calls

/-!
# `fat12_write`

The loop over the clusters builds a chain of clusters that were free before the
call (`Writing`), so no file sees it; when it runs out of clusters it stops, and
otherwise the data is on disk, the table is flushed and an entry is added.  The
call either stores the file or fails, and in both cases any older file of that
name is gone (`fat12Write_spec`).
-/

namespace KumOS.Fat12

open Lib
open Function (update update_self update_eq_self update_idem)

variable {c cluster first i n pos prev size : Nat} {cs : List Nat} {buf : Bytes} {s' : State}
variable {V : Vol} {fuel : Nat} {de : Dirent} {key : List UInt8}

/-- The loop of `fat12_write`, started on the volume `V0`, has stored the first `pos` bytes of `buf`
in the chain `cs` from `first` to `prev`. -/
structure Writing (d : Int) (buf : Bytes) (V0 : Vol) (cs : List Nat) (first prev pos : Nat)
    (s : State) : Prop where
  floppy : Floppy d s
  fresh : ∀ c ∈ cs, V0.next c = 0
  range : ∀ c ∈ cs, 2 ≤ c ∧ c ≤ 2848
  nodup : cs.Nodup
  ends : cs = [] ∧ first = 0 ∧ prev = 0 ∨
    (∃ front, cs = front ++ [prev]) ∧ Linked (view s).next 0xFFF first cs
  next : ∀ c, c ∉ cs → (view s).next c = V0.next c
  data : ∀ c, c ∉ cs → (view s).data c = V0.data c
  dir : ∀ j < 224, (view s).dir j = V0.dir j
  bytes : ∀ i < pos, (view s).bytes cs i = buf i

theorem Writing.start {d : Int} {s : State} (hF : Floppy d s) (buf : Bytes) :
    Writing d buf (view s) [] 0 0 0 s where
  floppy := hF
  fresh := by simp
  range := by simp
  nodup := List.nodup_nil
  ends := .inl ⟨rfl, rfl, rfl⟩
  next := fun c _ => rfl
  data := fun c _ => rfl
  dir := fun j _ => rfl
  bytes := fun i hi => by omega

section

variable {d : Int} {V0 : Vol} {s : State}

theorem Writing.next_ne_zero (h : Writing d buf V0 cs first prev pos s) (hc : c ∈ cs) : (view s).next c ≠ 0 := by
  rcases h.ends with ⟨rfl, -⟩ | ⟨-, hlink⟩
  · cases hc
  rcases hlink.next_mem hc with hm | he
  · have := (h.range _ hm).1
    omega
  · rw [he]
    decide

/-- The state after the new cluster `c` is linked behind `prev`. -/
def linkCluster (s : State) (prev c : Nat) : State :=
  if prev ≠ 0 then fatSet (fatSet s c 0xFFF) prev c else fatSet s c 0xFFF

theorem linkCluster_floppy (hF : Floppy d s) (prev c : Nat) : Floppy d (linkCluster s prev c) := by
  unfold linkCluster
  split
  · exact (hF.fatSet _ _).fatSet _ _
  · exact hF.fatSet _ _

theorem linkCluster_data (s : State) (prev c : Nat) : (view (linkCluster s prev c)).data = (view s).data := by
  unfold linkCluster
  split <;> rfl

theorem linkCluster_dir (s : State) (prev c : Nat) : (view (linkCluster s prev c)).dir = (view s).dir := by
  unfold linkCluster
  split <;> rfl

theorem linkCluster_next (s : State) (hne : prev ≠ c) (hc : c < 2 ^ 12) (x : Nat) :
    (view (linkCluster s prev c)).next x =
      if x = c then 0xFFF else if prev ≠ 0 ∧ x = prev then c else (view s).next x := by
  have hfi : ∀ x, fatGet (fatPut s.fat c 0xFFF) x = if x = c then 0xFFF else fatGet s.fat x :=
    fun x => fatGet_fatPut s.fat c x (by omega)
  unfold linkCluster
  by_cases hp : prev = 0
  · rw [if_neg (by simp [hp])]
    show fatGet (fatPut s.fat c 0xFFF) x = _
    rw [hfi]
    simp [hp, view]
  rw [if_pos hp]
  show fatGet (fatPut (fatPut s.fat c 0xFFF) prev c) x = _
  rw [fatGet_fatPut _ _ _ hc, hfi]
  by_cases hx : x = c
  · subst hx
    simp [hne.symm]
  · simp [hx, hp, view]

theorem Vol.bytes_append_last (hi : 512 * cs.length ≤ i) (hlt : i < 512 * cs.length + 512) :
    V.bytes (cs ++ [c]) i = V.data c (i - 512 * cs.length) := by
  have hdiv : i / 512 = cs.length := by omega
  have hmod : i % 512 = i - 512 * cs.length := by omega
  unfold Vol.bytes
  rw [hdiv, hmod]
  simp

/-- The bytes of a cluster as it is written. -/
def clusterBytes (s : State) (buf : Bytes) (pos n : Nat) : Bytes :=
  (s.sector.fill 0 0 512).copy 0 (buf.drop pos) (if 512 < n then 512 else n)

theorem writeCluster_one (hF : Floppy d s) (h2 : 2 ≤ c) (hc : c ≤ 2848) (buf : Bytes) (pos : Nat) (hn : 0 < n) :
    writeCluster buf s.bpb.sectorsPerCluster (clusterToLba s c) pos n s =
      (true, pos + (if 512 < n then 512 else n), n - (if 512 < n then 512 else n),
        { s with
          sector := clusterBytes s buf pos n
          ata := s.ata.put d (31 + c) (clusterBytes s buf pos n) }) := by
  have hspc : s.bpb.sectorsPerCluster = 1 := by
    rw [hF.bpb]
    rfl
  rw [hspc, hF.lba h2 hc, writeCluster, if_pos hn]
  simp only
  rw [ataWrite_of_ok (by exact hF.ok) _ _ (by omega), hF.drive]
  rfl

theorem Writing.linked_link (h : Writing d buf V0 cs first prev pos s) (hc : c ≤ 2848) (hnew : c ∉ cs)
    (hpv : prev ≠ c) :
    Linked (view (linkCluster s prev c)).next 0xFFF (if first = 0 then c else first) (cs ++ [c]) := by
  have hnx := linkCluster_next s hpv (show c < 2 ^ 12 by omega)
  have hla : (view (linkCluster s prev c)).next c = 0xFFF := by rw [hnx c, if_pos rfl]
  rcases h.ends with ⟨rfl, rfl, -⟩ | ⟨⟨front, rfl⟩, hlink⟩
  · exact ⟨rfl, hla⟩
  have hp2 := (h.range prev (by simp)).1
  have hfi : first ≠ 0 := by
    cases front with
    | nil => rw [hlink.1]; omega
    | cons x front =>
      have := (h.range x (by simp)).1
      rw [hlink.1]
      omega
  have hfront : prev ∉ front := fun hm =>
    List.disjoint_of_nodup_append h.nodup hm (List.mem_singleton.2 rfl)
  rw [if_neg hfi]
  refine hlink.snoc (fun x hx => ?_) ?_ hla
  · rw [hnx x, if_neg, if_neg]
    · rintro ⟨-, rfl⟩
      exact hfront hx
    · rintro rfl
      exact hnew (by simp [hx])
  · rw [hnx prev, if_neg hpv, if_pos ⟨by omega, rfl⟩]

/-- One round of the loop, with a free cluster `c`. -/
theorem Writing.step (h : Writing d buf V0 cs first prev pos s) (hpos : pos = 512 * cs.length) (h2 : 2 ≤ c)
    (hc : c ≤ 2848) (hfr : (view s).next c = 0) (sec : Bytes) :
    Writing d buf V0 (cs ++ [c]) (if first = 0 then c else first) c
      (pos + (if 512 < n then 512 else n)) { linkCluster s prev c with
        sector := sec
        ata := (linkCluster s prev c).ata.put d (31 + c) (clusterBytes (linkCluster s prev c) buf pos n) } := by
  have hnew : c ∉ cs := fun hm => h.next_ne_zero hm hfr
  have hpv : prev ≠ c := by
    rintro rfl
    rcases h.ends with ⟨-, -, rfl⟩ | ⟨⟨front, rfl⟩, -⟩
    · omega
    · exact hnew (by simp)
  have hF1 := (linkCluster_floppy h.floppy prev c).setSector sec
  obtain ⟨hF2, hsm, hot, hdir⟩ := putCluster_spec hF1 h2
    (clusterBytes (linkCluster s prev c) buf pos n)
  have hnx := linkCluster_next s hpv (show c < 2 ^ 12 by omega)
  have hin : ∀ x, x ∉ cs ++ [c] → x ∉ cs ∧ x ≠ c := by
    intro x hx
    simpa using hx
  refine ⟨hF2, fun x hx => ?_, fun x hx => ?_, ?_, .inr ⟨⟨cs, rfl⟩, ?_⟩, fun x hx => ?_,
    fun x hx => ?_, fun j hj => ?_, fun i hi => ?_⟩
  · rcases List.mem_append.1 hx with hx | hx
    · exact h.fresh x hx
    · rw [List.mem_singleton.1 hx, ← h.next c hnew]
      exact hfr
  · rcases List.mem_append.1 hx with hx | hx
    · exact h.range x hx
    · rw [List.mem_singleton.1 hx]
      exact ⟨h2, hc⟩
  · exact h.nodup.append (List.nodup_singleton c) (by simpa using hnew)
  · exact h.linked_link hc hnew hpv
  · obtain ⟨hxcs, hxc⟩ := hin x hx
    have hxp : ¬ (prev ≠ 0 ∧ x = prev) := by
      rintro ⟨hp, rfl⟩
      rcases h.ends with ⟨-, -, h0⟩ | ⟨⟨front, rfl⟩, -⟩
      · exact hp h0
      · exact hxcs (by simp)
    show (view (linkCluster s prev c)).next x = V0.next x
    rw [hnx x, if_neg hxc, if_neg hxp]
    exact h.next x hxcs
  · obtain ⟨hxcs, hxc⟩ := hin x hx
    rw [hot x hxc]
    show (view (linkCluster s prev c)).data x = V0.data x
    rw [linkCluster_data]
    exact h.data x hxcs
  · rw [hdir j hj]
    show (view (linkCluster s prev c)).dir j = V0.dir j
    rw [linkCluster_dir]
    exact h.dir j hj
  · have htk : (if 512 < n then 512 else n) ≤ 512 := by split <;> omega
    by_cases hold : i < pos
    · rw [Vol.bytes, List.getD_append _ _ _ _ (by omega), ← Vol.bytes]
      have hidx : i / 512 < cs.length := by omega
      rw [← h.bytes i hold]
      unfold Vol.bytes
      rw [List.getD_eq_getElem _ _ hidx, hot _ fun he => hnew (he ▸ List.getElem_mem hidx)]
      show (view (linkCluster s prev c)).data _ _ = _
      rw [linkCluster_data]
    rw [Vol.bytes_append_last (show 512 * cs.length ≤ i by omega) (by omega), hsm]
    unfold clusterBytes
    rw [Bytes.copy_of_in _ _ (by omega)]
    show buf (pos + (i - 512 * cs.length - 0)) = buf i
    congr 1
    omega

theorem writeLoop_round (hF : Floppy d s) (hn : 0 < n) (h2 : 2 ≤ c) (hc : c ≤ 2848)
    (halloc : fatAlloc s = some (c, fatSet s c 0xFFF)) :
    writeLoop buf (fuel + 1) first prev pos n s =
      writeLoop buf fuel (if first = 0 then c else first) c (pos + (if 512 < n then 512 else n))
        (n - (if 512 < n then 512 else n)) { linkCluster s prev c with
          sector := clusterBytes (linkCluster s prev c) buf pos n
          ata := (linkCluster s prev c).ata.put d (31 + c) (clusterBytes (linkCluster s prev c) buf pos n) } := by
  have hwr := writeCluster_one (linkCluster_floppy hF prev c) h2 hc buf pos hn
  obtain ⟨k, rfl⟩ : ∃ k, c = k + 1 := ⟨c - 1, by omega⟩
  unfold linkCluster at hwr
  rw [writeLoop, if_pos hn, halloc]
  simp only [hwr]
  rfl

/-- The loop comes to an end: it ran out of clusters, or all `size` bytes are in the chain. -/
theorem writeLoop_spec (size fuel n : Nat) (h : Writing d buf V0 cs first prev pos s)
    (hsz : pos + n = size) (hpos : 0 < n → pos = 512 * cs.length)
    (hdone : n = 0 → cs.length = (size + 511) / 512) (hfuel : 2847 < fuel + cs.length) :
    (∃ s' cs' first' prev' pos', writeLoop buf fuel first prev pos n s = some (.error s') ∧
      Writing d buf V0 cs' first' prev' pos' s' ∧
      (∀ c, 2 ≤ c → c ≤ 2848 → V0.next c = 0 → c ∈ cs') ∧ 512 * cs'.length < size) ∨
    ∃ s' cs' first' prev', writeLoop buf fuel first prev pos n s =
        some (.ok (first', prev', s')) ∧
      Writing d buf V0 cs' first' prev' size s' ∧ cs'.length = (size + 511) / 512 := by
  induction fuel generalizing cs first prev pos n s with
  | zero =>
    have := length_le_of_clusters h.nodup h.range
    omega
  | succ fuel ih =>
    by_cases hn : 0 < n
    · have hpos := hpos hn
      rcases fatAlloc_spec s (by rw [h.floppy.totalClusters]; omega) with
        ⟨halloc, hfu⟩ | ⟨c, halloc, h2, hc, hfr⟩
      · refine .inl ⟨s, cs, first, prev, pos, by rw [writeLoop, if_pos hn, halloc]; rfl, h, ?_, by omega⟩
        intro c h2 hc hfr
        by_contra hout
        have := hfu c h2 (by rw [h.floppy.totalClusters]; omega)
        exact this ((h.next c hout).trans hfr)
      rw [h.floppy.totalClusters] at hc
      rw [writeLoop_round h.floppy hn h2 (by omega) halloc]
      refine ih (n - (if 512 < n then 512 else n))
        (h.step hpos h2 (by omega) hfr (clusterBytes (linkCluster s prev c) buf pos n))
        (by split <;> omega) ?_ ?_ ?_
      all_goals rw [List.length_append, List.length_singleton]
      · split <;> omega
      · split <;> omega
      · omega
    · have h0 : n = 0 := by omega
      obtain rfl : pos = size := by omega
      refine .inr ⟨s, cs, first, prev, ?_, h, hdone h0⟩
      rw [writeLoop, if_neg hn]

end

/-! ## The data of a file -/

section

variable {d : Int} {s : State} {ch : Nat → List Nat} {files : Files}

section

variable (h : Writing d buf (view s) cs first prev pos s') (hH : Holds (view s) ch files)
include h hH

theorem Writing.holds : Holds (view s') ch files := by
  have hout : ∀ c, (view s).next c ≠ 0 → c ∉ cs := fun c hc hm => hc (h.fresh c hm)
  exact hH.frame h.dir (fun c _ hc => h.next c (hout c hc)) fun c _ hc => h.data c (hout c hc)

theorem Writing.apart (k : Nat) (hk : (view s').Live k) : ∀ c ∈ cs, c ∉ ch k := by
  intro c hc hm
  have hlv := (Vol.live_congr (h.dir k hk.1)).1 hk
  exact (hH.chain k hlv).next_ne_zero hm (h.fresh c hc)

end

/-- The last link of the chain is set once more, to the value it has. -/
theorem Writing.close {V0 : Vol} (h : Writing d buf V0 cs first prev pos s) (hne : cs ≠ []) :
    Floppy d (fatSet s prev 0xFFF) ∧ view (fatSet s prev 0xFFF) = view s ∧
      Linked (view s).next 0xFFF first cs := by
  rcases h.ends with ⟨hnil, -⟩ | ⟨⟨front, rfl⟩, hlink⟩
  · exact absurd hnil hne
  obtain ⟨b, -, -, hla⟩ := linked_append.1 hlink
  refine ⟨h.floppy.fatSet _ _, ?_, hlink⟩
  have hnx : (view (fatSet s prev 0xFFF)).next = (view s).next := by
    funext x
    show fatGet (fatPut s.fat prev 0xFFF) x = fatGet s.fat x
    rw [fatGet_fatPut _ _ _ (by omega)]
    split
    · rename_i hx
      rw [hx]
      exact hla.symm
    · rfl
  unfold view at hnx ⊢
  simp only [Vol.mk.injEq]
  exact ⟨hnx, rfl, rfl⟩

theorem writeData_spec (hF : Floppy d s) (hH : Holds (view s) ch files) (buf : Bytes) (size : Nat) :
    (∃ (s' : State) (cs : List Nat), writeData s buf size = some (.error s') ∧ Floppy d s' ∧ Holds (view s') ch files ∧
      (∀ c, 2 ≤ c → c ≤ 2848 → (view s).next c = 0 → c ∈ cs) ∧ 512 * cs.length < size) ∨
    ∃ s' first cs, writeData s buf size = some (.ok (first, s')) ∧ Floppy d s' ∧
      Holds (view s') ch files ∧ ChainOk (view s').next first size cs ∧
      (∀ k, (view s').Live k → ∀ c ∈ cs, c ∉ ch k) ∧
      ((view s').bytes cs).toList size = buf.toList size := by
  unfold writeData
  by_cases h0 : size = 0
  · rw [if_pos h0, h0]
    exact .inr ⟨s, 0, [], rfl, hF, hH, ⟨rfl, rfl, by simp, List.nodup_nil⟩, by simp, rfl⟩
  rw [if_neg h0]
  rcases writeLoop_spec size (s.totalClusters + 2) size (Writing.start hF buf) (by omega)
    (fun _ => rfl) (fun h => absurd h h0) (by rw [hF.totalClusters]; simp) with
    ⟨s', cs, first, prev, pos, hrun, hw, hall, hfu⟩ | ⟨s', cs, first, prev, hrun, hw, hlen⟩
  · rw [hrun]
    exact .inl ⟨s', cs, rfl, hw.floppy, hw.holds hH, hall, hfu⟩
  have hne : cs ≠ [] := by
    rintro rfl
    rw [List.length_nil] at hlen
    omega
  obtain ⟨hF', hview, hlink⟩ := hw.close hne
  have hstop : chainStop size = 0xFFF := if_neg h0
  rw [hrun]
  refine .inr ⟨_, first, cs, rfl, hF', ?_⟩
  rw [hview]
  refine ⟨hw.holds hH, ⟨hlen, by rw [hstop]; exact hlink, hw.range, hw.nodup⟩, hw.apart hH, ?_⟩
  exact Bytes.toList_congr hw.bytes

/-- The data takes clusters that were free, and leaves the directory alone. -/
theorem writeData_takes (hF : Floppy d s) (h : writeData s buf size = some (.ok (first, s'))) :
    (size + 511) / 512 ≤ (view s).free.length ∧ ∀ j < 224, (view s').dir j = (view s).dir j := by
  unfold writeData at h
  by_cases h0 : size = 0
  · rw [if_pos h0] at h
    cases h
    exact ⟨by omega, fun j _ => rfl⟩
  rw [if_neg h0] at h
  rcases writeLoop_spec size (s.totalClusters + 2) size (Writing.start hF buf) (by omega)
    (fun _ => rfl) (fun h => absurd h h0) (by rw [hF.totalClusters]; simp) with
    ⟨s1, cs, first', prev, pos, hrun, -⟩ | ⟨s1, cs, first', prev, hrun, hw, hlen⟩
  · rw [hrun] at h
    cases h
  · rw [hrun] at h
    cases h
    have hsub : cs ⊆ (view s).free := fun c hc => Vol.mem_free.2 ⟨hw.range c hc, hw.fresh c hc⟩
    exact ⟨hlen ▸ (List.subperm_of_subset hw.nodup hsub).length_le, hw.dir⟩

/-! ## The directory entry -/

theorem slotBody_eq_inl (h : slotBody de () = .inl ()) : de.first ≠ direntEnd ∧ de.first ≠ direntFree := by
  unfold slotBody at h
  by_cases hsl : de.first = direntFree ∨ de.first = direntEnd
  · simp [hsl] at h
  · exact ⟨fun he => hsl (.inr he), fun hf => hsl (.inl hf)⟩

theorem slotBody_eq_inr {r : UInt8} (h : slotBody de () = .inr r) :
    r = de.first ∧ (de.first = direntFree ∨ de.first = direntEnd) := by
  unfold slotBody at h
  by_cases hsl : de.first = direntFree ∨ de.first = direntEnd
  · rw [if_pos hsl] at h
    cases h
    exact ⟨rfl, hsl⟩
  · simp [hsl] at h

/-- The new entry goes to the first place that holds no file; the rest of the directory stays. -/
theorem addEntry_slot (hF : Floppy d s) (hH : Holds (view s) ch files) (hkey : key.length = 11)
    (hcluster : cluster < 2 ^ 16) (hsz : size < 2 ^ 32) :
    (∃ sec, addEntry s key cluster size = (-1, { s with sector := sec }) ∧
      ∀ j < 224, (view s).Live j) ∨
    ∃ s' j, addEntry s key cluster size = (0, s') ∧ Floppy d s' ∧ s'.fatDirty = s.fatDirty ∧
      j < 224 ∧ ¬ (view s).Live j ∧ (∀ k < j, ((view s).dir k).first ≠ direntEnd) ∧
      (view s').dir j = ⟨key, 0x20, cluster, size⟩ ∧
      (∀ k < 224, k ≠ j → (view s').dir k = (view s).dir k) ∧
      (view s').next = (view s).next ∧ ∀ c, 2 ≤ c → (view s').data c = (view s).data c := by
  obtain ⟨sec, hwk, hsec⟩ := walkRoot_floppy (fun _ => true) slotBody hF ()
  rcases scan_search slotBody (view s).dir 224 0 with
    ⟨hrun, hall⟩ | ⟨j, r, -, hj, hrun, hstop, hbf⟩
  · refine .inl ⟨sec, ?_, fun j hj => ⟨hj, ?_⟩⟩
    · unfold addEntry
      rw [hwk, hrun]
      rfl
    · exact slotBody_eq_inl (hall j (by omega) (by omega))
  have hj224 : j < 224 := by omega
  obtain rfl := hsec j r hrun
  obtain ⟨rfl, hsl⟩ := slotBody_eq_inr hstop
  have hdd : ¬ (view s).Live j := fun hl => hsl.elim hl.2.2 hl.2.1
  -- in the sector of the end marker, the entry behind it is an end marker too
  have hmark : ((view s).dir j).first = direntEnd → j % 16 + 1 < 16 →
      (sectorEntry (putDirent (s.ata.sector d (19 + j / 16)) (j % 16) key cluster size)
        (j % 16 + 1)).first = direntEnd := by
    intro hend hlt
    have hdiv : (j + 1) / 16 = j / 16 := by omega
    have hmod : (j + 1) % 16 = j % 16 + 1 := by omega
    have hnx := hH.ends j (j + 1) (by omega) (by omega) hend
    rw [sectorEntry_putDirent_ne _ _ _ _ (by omega), ← hdiv, ← hmod, ← hF.drive, ← hF.rootStart]
    exact hnx
  have het := fun k => sectorEntry_markEnd
    (putDirent (s.ata.sector d (19 + j / 16)) (j % 16) key cluster size) (j % 16) k
    ((view s).dir j).first hmark
  generalize hbuf : markEnd (putDirent (s.ata.sector d (19 + j / 16)) (j % 16) key cluster size)
    (j % 16) ((view s).dir j).first = buf at het
  have hsm : sectorEntry buf (j % 16) = ⟨key, 0x20, cluster, size⟩ := by
    rw [het, sectorEntry_putDirent_same _ _ hkey hcluster hsz]
  have hot : ∀ i, i ≠ j % 16 →
      sectorEntry buf i = sectorEntry (s.ata.sector d (19 + j / 16)) i := by
    intro i hi
    rw [het, sectorEntry_putDirent_ne _ _ _ _ hi]
  obtain ⟨hF', hdirj, hdir, hda⟩ := putRoot_spec (hF.setSector buf) hj224 buf hot
  refine .inr ⟨{ s with sector := buf, ata := s.ata.put d (19 + j / 16) buf }, j, ?_, hF', rfl,
    hj224, hdd, fun k hk => ?_, hdirj.trans hsm, hdir, rfl, hda⟩
  · have hput : s.ata.put s.drive (s.rootStart + j / 16) buf = s.ata.put d (19 + j / 16) buf := by
      rw [hF.drive, hF.rootStart]
    rw [hrun] at hwk
    change _ = (Walk.left (j / 16) (j % 16) _, _) at hwk
    have hlba : s.rootStart + j / 16 < 2 ^ 32 := by
      rw [hF.rootStart]
      omega
    unfold addEntry
    rw [hwk]
    simp only
    rw [ataWrite_of_ok (by exact hF.ok) _ _ hlba, hbuf, hput]
  · exact (slotBody_eq_inl (hbf k (by omega) hk)).1

/-! ## The call -/

/-- What a write that returns 0 leaves under its key: the data, unless the key begins like a free
entry. -/
def written (key data : List UInt8) : Option (List UInt8) :=
  if key.headD 0 = direntFree then none else some data

theorem nameTo83_head (name : Name) : (nameTo83 name).headD 0 ≠ direntEnd := by
  obtain ⟨hlen, hne⟩ := nameTo83_spec name
  cases hkey : nameTo83 name with
  | nil =>
    rw [hkey] at hlen
    cases hlen
  | cons c cs => exact hne c (by rw [hkey]; exact List.mem_cons_self)

theorem addEntry_spec (hF : Floppy d s) (hH : Holds (view s) ch files) (name : Name)
    (hkey : files (nameTo83 name) = none) (hsz : size < 2 ^ 32)
    (hch : ChainOk (view s).next cluster size cs) (hfs : ∀ k, (view s).Live k → ∀ c ∈ cs, c ∉ ch k) :
    (∃ sec, addEntry s (nameTo83 name) cluster size = (-1, { s with sector := sec }) ∧
      ∀ j < 224, (view s).Live j) ∨
    ∃ s', addEntry s (nameTo83 name) cluster size = (0, s') ∧ s'.fatDirty = s.fatDirty ∧
      Stores d s' (update files (nameTo83 name) (written (nameTo83 name) (((view s).bytes cs).toList size))) := by
  rcases addEntry_slot hF hH (nameTo83_spec name).1 hch.start_lt hsz with
    hfu | ⟨s', j, hadd, hF', hdirty, hj, hdd, hbf, het, hdir, hnx, hda⟩
  · exact .inl hfu
  refine .inr ⟨s', hadd, hdirty, hF', ?_⟩
  unfold written
  by_cases hfr : (nameTo83 name).headD 0 = direntFree
  · rw [if_pos hfr, ← hkey, update_eq_self]
    have hfi : ((view s').dir j).first = direntFree := by
      rw [het]
      exact hfr
    exact ⟨ch, hH.insert_free hdd hbf hdir hfi hnx hda⟩
  · rw [if_neg hfr]
    exact ⟨_, hH.insert hj hdd hbf hkey (nameTo83_head name) hfr hch hfs hdir het
      hnx hda⟩

/-- `fat12_write` stores the file, or fails for want of a cluster or of a directory entry; in both
cases the file it found under the name is gone. -/
theorem fat12Write_spec (hS : Stores d s files) (name : Name) (buf : Bytes) (size : UInt32) :
    (∃ s', fat12Write s name buf size = some (-1, s') ∧
      Stores d s' (update files (nameTo83 name) none) ∧
      ((∀ j < 224, (view s').Live j) ∨ ∃ cs : List Nat,
        (∀ c, 2 ≤ c → c ≤ 2848 → (view s).next c = 0 → c ∈ cs) ∧
          512 * cs.length < size.toNat)) ∨
    ∃ s', fat12Write s name buf size = some (0, s') ∧ s'.fatDirty = false ∧
      Stores d s' (update files (nameTo83 name) (written (nameTo83 name) (buf.toList size.toNat))) := by
  obtain ⟨hF, ch, hH⟩ := hS
  obtain ⟨hF0, hH0, hmono⟩ := fat12Delete_cleared hF hH name
  unfold fat12Write
  rw [if_neg hF.not_unmounted]
  rcases writeData_spec hF0 hH0 buf size.toNat with
    ⟨s1, cs, hda, hF1, hH1, hall, hfu⟩ |
      ⟨s1, cluster, cs, hda, hF1, hH1, hch, hfs, hby⟩
  · rw [hda]
    exact .inl ⟨s1, rfl, ⟨hF1, ch, hH1⟩,
      .inr ⟨cs, fun c h2 hc hfr => hall c h2 hc (hmono c hfr), hfu⟩⟩
  obtain ⟨s2, hflush, hF2, hview, hce, -⟩ := fatFlush_spec hF1
  rw [← hview] at hH1 hch hfs hby
  have hnn : update files (nameTo83 name) none (nameTo83 name) = none :=
    update_self ..
  have hadd := addEntry_spec hF2 hH1 name hnn size.toNat_lt hch hfs
  rw [update_idem, hby] at hadd
  rw [hda]
  simp only [hflush]
  rcases hadd with ⟨sec, hadd, hlv⟩ | ⟨s', hadd, hdirty, hS'⟩
  · exact .inl ⟨_, congrArg some hadd, ⟨hF2.setSector sec, ch, hH1⟩, .inl hlv⟩
  · exact .inr ⟨s', congrArg some hadd, hdirty.trans hce, hS'⟩

/-- A file that is not there is written just if there is room for it. -/
theorem fat12Write_new_iff (hS : Stores d s files) {name : Name} (hnone : files (nameTo83 name) = none) (buf : Bytes)
    (size : UInt32) : (∃ s', fat12Write s name buf size = some (0, s')) ↔ (view s).HasRoom size.toNat := by
  obtain ⟨hF, ch, hH⟩ := hS
  obtain ⟨sec, hdel⟩ : ∃ sec, fat12Delete s name = (-1, { s with sector := sec }) := by
    rcases fat12Delete_spec hF hH name with ⟨-, hdel⟩ | ⟨hne, -⟩
    · exact hdel
    · exact absurd hnone hne
  unfold fat12Write
  rw [if_neg hF.not_unmounted, hdel]
  rcases writeData_spec (hF.setSector sec) (show Holds (view { s with sector := sec }) ch files from hH) buf size.toNat with
    ⟨s1, cs, hda, -, -, hall, hfu⟩ | ⟨s1, cluster, cs, hda, hF1, hH1, hch, -, -⟩
  · rw [hda]
    refine iff_of_false (fun ⟨_, h⟩ => absurd h (by simp)) fun hroom => ?_
    have hsub : (view s).free ⊆ cs := fun c hc =>
      have ⟨hrange, h0⟩ := Vol.mem_free.1 hc
      hall c hrange.1 hrange.2 h0
    have hlen := (List.subperm_of_subset (view s).nodup_free hsub).length_le
    have hneed := hroom.1
    omega
  obtain ⟨hneed, hdir⟩ := writeData_takes (hF.setSector sec) hda
  obtain ⟨s2, hflush, hF2, hview, -, -⟩ := fatFlush_spec hF1
  rw [← hview] at hH1 hch hdir
  rw [hda]
  simp only [hflush]
  rcases addEntry_slot hF2 hH1 (nameTo83_spec name).1 hch.start_lt size.toNat_lt with
    ⟨sec', hadd, hlive⟩ | ⟨s', j, hadd, -, -, hj, hfree, -⟩
  · rw [hadd]
    refine iff_of_false (fun ⟨_, h⟩ => absurd h (by simp)) ?_
    rintro ⟨-, j, hj, hfree⟩
    exact hfree ((Vol.live_congr (hdir j hj)).1 (hlive j hj))
  · rw [hadd]
    exact iff_of_true ⟨s', rfl⟩ ⟨hneed, j, hj, fun hlive => hfree ((Vol.live_congr (hdir j hj)).2 hlive)⟩

/-- A file can always be written over with at most as many bytes as it has: the clusters and the
entry that the write needs are those it has just freed. -/
theorem fat12Write_replace (hS : Stores d s files) (name : Name) (buf : Bytes) (size : UInt32)
    {old : List UInt8} (hold : files (nameTo83 name) = some old) (hle : size.toNat ≤ old.length) :
    ∃ s', fat12Write s name buf size = some (0, s') ∧
      Stores d s' (update files (nameTo83 name) (some (buf.toList size.toNat))) := by
  obtain ⟨hF, ch, hH⟩ := hS
  obtain ⟨j, hj, hnm⟩ := hH.dom _ _ hold
  have hch := hH.chain j hj
  have hsz : ((view s).dir j).fileSize = old.length := by
    rw [← hnm, hH.stored j hj] at hold
    rw [← Option.some.inj hold, Bytes.length_toList]
  have hkey : (nameTo83 name).headD 0 ≠ direntFree := by
    rw [← hnm]
    exact hj.2.2
  obtain ⟨s0, hdel, hF0, hH0, -, hdd, hnx⟩ := fat12Delete_entry hF hH hj hnm
  have hs0 : (fat12Delete s name).2 = s0 := by rw [hdel]
  unfold fat12Write
  rw [if_neg hF.not_unmounted, hs0]
  rcases writeData_spec hF0 hH0 buf size.toNat with
    ⟨s1, cs, -, -, -, hall, hfu⟩ | ⟨s1, cluster, cs, hda, hF1, hH1, hchain1, hfs, hby⟩
  · -- the freed chain alone would have been enough
    exfalso
    have hsub : ch j ⊆ cs := by
      intro c hc
      obtain ⟨h2, hmax⟩ := hch.range c hc
      exact hall c h2 hmax (by rw [hnx c, if_pos hc])
    have hlen := (List.subperm_of_subset hch.nodup hsub).length_le
    have hclusters := hch.length
    omega
  obtain ⟨s2, hflush, hF2, hview, -, -⟩ := fatFlush_spec hF1
  have hdir := (writeData_takes hF0 hda).2 j hj.1
  rw [← hview] at hH1 hchain1 hfs hby hdir
  have hnn : update files (nameTo83 name) none (nameTo83 name) = none :=
    update_self ..
  have hadd := addEntry_spec hF2 hH1 name hnn size.toNat_lt hchain1 hfs
  rw [update_idem, hby, written, if_neg hkey] at hadd
  rw [hda]
  simp only [hflush]
  rcases hadd with ⟨sec, -, hlv⟩ | ⟨s', hadd, -, hS'⟩
  · exact absurd ((Vol.live_congr hdir).1 (hlv j hj.1)) hdd
  · exact ⟨s', congrArg some hadd, hS'⟩

end

end KumOS.Fat12
