import KumOS.Fat12.Directory
import KumOS.Lib.Chain
import Mathlib.Data.List.GetD
import Mathlib.Data.List.Perm.Subperm

/-!
# Files of a volume

A volume, as the files see it, is a table of links between clusters, the bytes
of the clusters and the root directory (`Vol`).  `Holds V ch files`: the live
entries of `V`, with the chains `ch`, are exactly the files of the finite map
`files`.  What the driver does to a volume is one of three things: it touches
clusters no live file uses (`Holds.frame`), it removes an entry together with
its chain (`Holds.remove`), or it adds an entry for a chain of fresh clusters
(`Holds.insert`).
-/

namespace KumOS.Fat12

open Lib
open Function (update update_self update_of_ne)

variable {cs : List Nat} {j size start : Nat} {next : Nat → Nat}
variable {key : List UInt8}

/-- The contents of the files of a volume, by 8.3 key. -/
abbrev Files := List UInt8 → Option (List UInt8)

structure Vol where
  next : Nat → Nat
  data : Nat → Bytes
  dir : Nat → Dirent

/-- Entry `j` of the 224 root entries is a file. -/
def Vol.Live (V : Vol) (j : Nat) : Prop :=
  j < 224 ∧ (V.dir j).first ≠ direntEnd ∧ (V.dir j).first ≠ direntFree

/-- The value a chain ends in: an empty file has none, and start cluster 0. -/
def chainStop (size : Nat) : Nat := if size = 0 then 0 else 0xFFF

/-- From `start` the table links the clusters `cs`, just enough of them for `size` bytes. -/
structure ChainOk (next : Nat → Nat) (start size : Nat) (cs : List Nat) : Prop where
  length : cs.length = (size + 511) / 512
  linked : Linked next (chainStop size) start cs
  range : ∀ c ∈ cs, 2 ≤ c ∧ c ≤ 2848
  nodup : cs.Nodup

/-- The free clusters. -/
def Vol.free (V : Vol) : List Nat := (List.range' 2 2847).filter fun c => V.next c = 0

/-- There are clusters and a root entry for one more file of `size` bytes. -/
def Vol.HasRoom (V : Vol) (size : Nat) : Prop := (size + 511) / 512 ≤ V.free.length ∧ ∃ j < 224, ¬ V.Live j

/-- The bytes of a chain, one cluster after the other. -/
def Vol.bytes (V : Vol) (cs : List Nat) : Bytes := fun i => V.data (cs.getD (i / 512) 0) (i % 512)

structure Holds (V : Vol) (ch : Nat → List Nat) (files : Files) : Prop where
  chain : ∀ j, V.Live j → ChainOk V.next (V.dir j).startCluster (V.dir j).fileSize (ch j)
  apart : ∀ j k, V.Live j → V.Live k → j ≠ k → ∀ c ∈ ch j, c ∉ ch k
  names : ∀ j k, V.Live j → V.Live k → (V.dir j).name = (V.dir k).name → j = k
  ends : ∀ j k, j < k → k < 224 → (V.dir j).first = direntEnd → (V.dir k).first = direntEnd
  attr : ∀ j, V.Live j → (V.dir j).attr = 0x20
  stored : ∀ j, V.Live j →
    files (V.dir j).name = some ((V.bytes (ch j)).toList (V.dir j).fileSize)
  dom : ∀ key data, files key = some data → ∃ j, V.Live j ∧ (V.dir j).name = key

/-! ## Chains -/

section

variable (h : ChainOk next start size cs)
include h

theorem ChainOk.next_ne_zero {c : Nat} (hc : c ∈ cs) : next c ≠ 0 := by
  have hlen : 0 < cs.length := List.length_pos_of_mem hc
  have hstop : chainStop size = 0xFFF := if_neg fun h0 => by
    have := h.length
    omega
  rcases h.linked.next_mem hc with hm | he
  · have := (h.range _ hm).1
    omega
  · rw [he, hstop]
    decide

theorem ChainOk.congr {next' : Nat → Nat} (hn : ∀ c ∈ cs, next' c = next c) : ChainOk next' start size cs :=
  ⟨h.length, h.linked.congr hn, h.range, h.nodup⟩

theorem ChainOk.start_lt : start < 2 ^ 16 := by
  cases cs with
  | nil =>
    have hsr : start = chainStop size := h.linked
    rw [hsr, chainStop]
    split <;> omega
  | cons c cs =>
    have := (h.range c List.mem_cons_self).2
    rw [h.linked.1]
    omega

end

theorem length_le_of_clusters (hnodup : cs.Nodup) (hrg : ∀ c ∈ cs, 2 ≤ c ∧ c ≤ 2848) : cs.length ≤ 2847 := by
  have hsub : cs ⊆ List.range' 2 2847 := by
    intro c hc
    obtain ⟨h2, hmax⟩ := hrg c hc
    exact List.mem_range'_1.2 ⟨h2, by omega⟩
  have hle := (List.subperm_of_subset hnodup hsub).length_le
  rwa [List.length_range'] at hle

theorem Vol.mem_free {V : Vol} {c : Nat} : c ∈ V.free ↔ (2 ≤ c ∧ c ≤ 2848) ∧ V.next c = 0 := by
  unfold free
  rw [List.mem_filter, List.mem_range'_1, decide_eq_true_iff]
  omega

theorem Vol.nodup_free (V : Vol) : V.free.Nodup := List.Nodup.filter _ List.nodup_range'

theorem Vol.bytes_toList_congr {V V' : Vol} (hlen : size ≤ 512 * cs.length) (h : ∀ c ∈ cs, V'.data c = V.data c) :
    (V'.bytes cs).toList size = (V.bytes cs).toList size := by
  apply Bytes.toList_congr
  intro i hi
  have hidx : i / 512 < cs.length := by omega
  unfold bytes
  rw [List.getD_eq_getElem _ _ hidx, h _ (List.getElem_mem hidx)]

theorem ChainOk.size_le (h : ChainOk next start size cs) : size ≤ 512 * cs.length := by
  have := h.length
  omega

/-! ## What changes and what stays -/

section

variable {V V' : Vol} {ch : Nat → List Nat} {files : Files}

theorem Vol.live_congr (h : V'.dir j = V.dir j) : V'.Live j ↔ V.Live j := by
  unfold Live
  rw [h]

section

variable (h : Holds V ch files)
include h

/-- Some live entries of `V` stay, with their chains and bytes, and no others come. -/
theorem Holds.restrict {files' : Files} (hkp : ∀ j, V'.Live j → V.Live j ∧ V'.dir j = V.dir j)
    (hnx : ∀ j, V'.Live j → ∀ c ∈ ch j, V'.next c = V.next c)
    (hda : ∀ j, V'.Live j → ∀ c ∈ ch j, V'.data c = V.data c)
    (hen : ∀ j k, j < k → k < 224 → (V'.dir j).first = direntEnd → (V'.dir k).first = direntEnd)
    (hfiles : ∀ j, V'.Live j → files' (V.dir j).name = files (V.dir j).name)
    (hdom : ∀ key data, files' key = some data → ∃ j, V'.Live j ∧ (V.dir j).name = key) : Holds V' ch files' := by
  refine ⟨fun j hj => ?_, fun j k hj hk => h.apart j k (hkp j hj).1 (hkp k hk).1,
    fun j k hj hk hnm => ?_, hen, fun j hj => ?_, fun j hj => ?_, fun key data hf => ?_⟩
  · rw [(hkp j hj).2]
    exact (h.chain j (hkp j hj).1).congr (hnx j hj)
  · rw [(hkp j hj).2, (hkp k hk).2] at hnm
    exact h.names j k (hkp j hj).1 (hkp k hk).1 hnm
  · rw [(hkp j hj).2]
    exact h.attr j (hkp j hj).1
  · have hch := h.chain j (hkp j hj).1
    rw [(hkp j hj).2, hfiles j hj, h.stored j (hkp j hj).1,
      Vol.bytes_toList_congr hch.size_le (hda j hj)]
  · obtain ⟨j, hj, hnm⟩ := hdom key data hf
    exact ⟨j, hj, by rw [(hkp j hj).2, hnm]⟩

/-- Clusters in use have nonzero links, so changes to free clusters go unnoticed. -/
theorem Holds.frame (hdir : ∀ j < 224, V'.dir j = V.dir j) (hnx : ∀ c ≤ 2848, V.next c ≠ 0 → V'.next c = V.next c)
    (hda : ∀ c, 2 ≤ c → V.next c ≠ 0 → V'.data c = V.data c) : Holds V' ch files := by
  have hlv : ∀ j, V'.Live j → V.Live j := fun j hj => (Vol.live_congr (hdir j hj.1)).1 hj
  have huse : ∀ j, V'.Live j → ∀ c ∈ ch j, V.next c ≠ 0 ∧ 2 ≤ c ∧ c ≤ 2848 := fun j hj c hc =>
    ⟨(h.chain j (hlv j hj)).next_ne_zero hc, (h.chain j (hlv j hj)).range c hc⟩
  refine h.restrict (fun j hj => ⟨hlv j hj, hdir j hj.1⟩)
    (fun j hj c hc => hnx c (huse j hj c hc).2.2 (huse j hj c hc).1)
    (fun j hj c hc => hda c (huse j hj c hc).2.1 (huse j hj c hc).1) ?_ (fun j _ => rfl) ?_
  · intro j k hjk hk hend
    rw [hdir j (by omega)] at hend
    rw [hdir k hk]
    exact h.ends j k hjk hk hend
  · intro key data hf
    obtain ⟨j, hj, hnm⟩ := h.dom key data hf
    exact ⟨j, (Vol.live_congr (hdir j hj.1)).2 hj, hnm⟩

/-- What an entry in the first free place leaves as it was. -/
theorem Holds.ends_of_entry (hbf : ∀ k < j, (V.dir k).first ≠ direntEnd)
    (hdir : ∀ k < 224, k ≠ j → V'.dir k = V.dir k) (hfi : (V'.dir j).first ≠ direntEnd) :
    ∀ k l, k < l → l < 224 → (V'.dir k).first = direntEnd → (V'.dir l).first = direntEnd := by
  intro k l hkl hl hend
  have hkj : k ≠ j := by
    rintro rfl
    exact hfi hend
  rw [hdir k (by omega) hkj] at hend
  have hjk : j < k := by
    rcases Nat.lt_or_gt_of_ne hkj with hlt | hgt
    · exact absurd hend (hbf k hlt)
    · exact hgt
  rw [hdir l hl (by omega)]
  exact h.ends k l hkl hl hend

theorem Holds.remove (hj : V.Live j)
    (hdir : ∀ k < 224, k ≠ j → V'.dir k = V.dir k) (hfr : (V'.dir j).first = direntFree)
    (hnx : ∀ c, c ∉ ch j → V'.next c = V.next c) (hda : ∀ c, 2 ≤ c → V'.data c = V.data c) :
    Holds V' ch (update files (V.dir j).name none) := by
  have hne : ∀ k, V'.Live k → k ≠ j := fun k hk he => hk.2.2 (by rw [he, hfr])
  have hlv : ∀ k, V'.Live k → V.Live k :=
    fun k hk => (Vol.live_congr (hdir k hk.1 (hne k hk))).1 hk
  refine h.restrict (fun k hk => ⟨hlv k hk, hdir k hk.1 (hne k hk)⟩)
    (fun k hk c hc => hnx c (h.apart k j (hlv k hk) hj (hne k hk) c hc))
    (fun k hk c hc => hda c ((h.chain k (hlv k hk)).range c hc).1)
    (h.ends_of_entry (fun k hk he => hj.2.1 (h.ends k j hk hj.1 he)) hdir (by rw [hfr]; decide)) (fun k hk => ?_) ?_
  · exact update_of_ne (fun he => hne k hk (h.names k j (hlv k hk) hj he)) _ _
  · intro key data hf
    have hkey : key ≠ (V.dir j).name := by
      rintro rfl
      rw [update_self] at hf
      cases hf
    rw [update_of_ne hkey] at hf
    obtain ⟨k, hk, hnm⟩ := h.dom key data hf
    have hkj : k ≠ j := by
      rintro rfl
      exact hkey hnm.symm
    exact ⟨k, (Vol.live_congr (hdir k hk.1 hkj)).2 hk, hnm⟩

/-- A new entry in the first free place, for a chain of clusters no file uses. -/
theorem Holds.insert (hj : j < 224) (hdd : ¬ V.Live j) (hbf : ∀ k < j, (V.dir k).first ≠ direntEnd)
    (hkey : files key = none) (hend : key.headD 0 ≠ direntEnd) (hfr : key.headD 0 ≠ direntFree)
    (hch : ChainOk V.next start size cs) (hfs : ∀ k, V.Live k → ∀ c ∈ cs, c ∉ ch k)
    (hdir : ∀ k < 224, k ≠ j → V'.dir k = V.dir k) (het : V'.dir j = ⟨key, 0x20, start, size⟩)
    (hnx : V'.next = V.next) (hda : ∀ c, 2 ≤ c → V'.data c = V.data c) :
    Holds V' (update ch j cs) (update files key (some ((V.bytes cs).toList size))) := by
  have hlv : ∀ k, k ≠ j → V'.Live k → V.Live k := fun k hk hl =>
    (Vol.live_congr (hdir k hl.1 hk)).1 hl
  have hold : ∀ k, k ≠ j → V.Live k → V'.Live k := fun k hk hl =>
    (Vol.live_congr (hdir k hl.1 hk)).2 hl
  have hnew : V'.Live j := by
    unfold Vol.Live Dirent.first
    rw [het]
    exact ⟨hj, hend, hfr⟩
  have hot : ∀ k, k ≠ j → V.Live k → (V.dir k).name ≠ key := by
    intro k _ hl he
    have := h.stored k hl
    rw [he, hkey] at this
    cases this
  have hby : ∀ start size cs, ChainOk V.next start size cs →
      (V'.bytes cs).toList size = (V.bytes cs).toList size := fun _ _ _ hc =>
    Vol.bytes_toList_congr hc.size_le fun c hm => hda c (hc.range c hm).1
  refine ⟨fun k hk => ?_, fun k l hk hl hkl => ?_, fun k l hk hl hnm => ?_,
    h.ends_of_entry hbf hdir hnew.2.1, fun k hk => ?_, fun k hk => ?_, fun key' data hf => ?_⟩
  · rw [hnx]
    by_cases hkj : k = j
    · rw [hkj, het, update_self]
      exact hch
    · rw [hdir k hk.1 hkj, update_of_ne hkj]
      exact h.chain k (hlv k hkj hk)
  · by_cases hkj : k = j
    · have hlj : l ≠ j := fun he => hkl (hkj.trans he.symm)
      rw [hkj, update_self, update_of_ne hlj]
      exact hfs l (hlv l hlj hl)
    · rw [update_of_ne hkj]
      by_cases hlj : l = j
      · rw [hlj, update_self]
        exact fun c hc hcs => hfs k (hlv k hkj hk) c hcs hc
      · rw [update_of_ne hlj]
        exact h.apart k l (hlv k hkj hk) (hlv l hlj hl) hkl
  · by_cases hkj : k = j
    · by_cases hlj : l = j
      · rw [hkj, hlj]
      · rw [hkj, het, hdir l hl.1 hlj] at hnm
        exact absurd hnm.symm (hot l hlj (hlv l hlj hl))
    · by_cases hlj : l = j
      · rw [hlj, het, hdir k hk.1 hkj] at hnm
        exact absurd hnm (hot k hkj (hlv k hkj hk))
      · rw [hdir k hk.1 hkj, hdir l hl.1 hlj] at hnm
        exact h.names k l (hlv k hkj hk) (hlv l hlj hl) hnm
  · by_cases hkj : k = j
    · rw [hkj, het]
    · rw [hdir k hk.1 hkj]
      exact h.attr k (hlv k hkj hk)
  · by_cases hkj : k = j
    · rw [hkj, het, update_self, update_self, hby start size cs hch]
    · have hlk := hlv k hkj hk
      rw [hdir k hk.1 hkj, update_of_ne (hot k hkj hlk), update_of_ne hkj,
        h.stored k hlk, hby _ _ _ (h.chain k hlk)]
  · by_cases hk' : key' = key
    · exact ⟨j, hnew, by rw [het, hk']⟩
    · rw [update_of_ne hk'] at hf
      obtain ⟨k, hk, hnm⟩ := h.dom key' data hf
      have hkj : k ≠ j := by
        rintro rfl
        exact hdd hk
      exact ⟨k, hold k hkj hk, by rw [hdir k hk.1 hkj, hnm]⟩

/-- An entry whose name begins like a free entry is no file. -/
theorem Holds.insert_free (hdd : ¬ V.Live j) (hbf : ∀ k < j, (V.dir k).first ≠ direntEnd)
    (hdir : ∀ k < 224, k ≠ j → V'.dir k = V.dir k) (hfr : (V'.dir j).first = direntFree)
    (hnx : V'.next = V.next) (hda : ∀ c, 2 ≤ c → V'.data c = V.data c) : Holds V' ch files := by
  have hne : ∀ k, V'.Live k → k ≠ j := fun k hk he => hk.2.2 (by rw [he, hfr])
  have hlv : ∀ k, V'.Live k → V.Live k :=
    fun k hk => (Vol.live_congr (hdir k hk.1 (hne k hk))).1 hk
  have hfi : (V'.dir j).first ≠ direntEnd := by
    rw [hfr]
    decide
  refine h.restrict (fun k hk => ⟨hlv k hk, hdir k hk.1 (hne k hk)⟩)
    (fun k _ c _ => congrFun hnx c)
    (fun k hk c hc => hda c ((h.chain k (hlv k hk)).range c hc).1)
    (h.ends_of_entry hbf hdir hfi) (fun k _ => rfl) ?_
  intro key data hf
  obtain ⟨k, hk, hnm⟩ := h.dom key data hf
  have hkj : k ≠ j := by
    rintro rfl
    exact hdd hk
  exact ⟨k, (Vol.live_congr (hdir k hk.1 hkj)).2 hk, hnm⟩

end

end

end KumOS.Fat12
