import KumOS.Heap.Blocks

/-!
# `kmalloc` and `kfree` on the blocks

One lemma for each function: a call on a heap with the blocks `bs` returns, and
leaves a heap with one block more, or one block less, in use; the other used
blocks are where they were and nothing is written but headers.  The loops of
`kmalloc_used` and `kmalloc_free` add up the sizes.
-/

namespace KumOS.Kmalloc

open Lib

variable {h : Heap} {bs : List Blk} {fl : List Nat}
variable {n : Nat} {m : Bytes}

/-- Every block has a header: there are fewer than `2^32`. -/
theorem Layout.length_le {s e : Nat} (hl : Layout s e bs) : s + headerSize * bs.length ≤ e := by
  have ht := hl.tiles.total
  have hsum : ∀ bs : List Blk, headerSize * bs.length ≤ (bs.map Blk.len).sum := by
    intro bs
    induction bs with
    | nil => exact Nat.le_refl _
    | cons b bs ih =>
      simp only [List.map_cons, List.sum_cons, List.length_cons]
      unfold Blk.len headerSize at *
      omega
  have := hsum bs
  omega

theorem Shape.length_lt (hs : Shape h bs fl) : bs.length < 2 ^ 30 := by
  have h1 := hs.layout.length_le
  have h2 := hs.end_le
  have h3 := hs.cap_le
  unfold headerSize at h1
  omega

theorem Shape.list_length_le (hs : Shape h bs fl) : fl.length ≤ bs.length := by
  rw [hs.perm.length_eq, freeAddrs, List.length_map]
  exact List.length_filter_le _ _

/-! ## Searching -/

/-- The search ends with a block of the list that is large enough, or there is none. -/
theorem firstFit_spec (want fuel : Nat) : ∀ {p head : Nat} {fl : List Nat},
    DSeg (next m) (prev m) 0 p head fl → fl.length < fuel →
    (firstFit fuel m head want = some 0 ∧ ∀ b ∈ fl, size m b < want) ∨
      ∃ b ∈ fl, firstFit fuel m head want = some b ∧ want ≤ size m b := by
  induction fuel with
  | zero => intro p head fl _ hf; omega
  | succ fuel ih =>
    intro p head fl hl hf
    unfold firstFit
    cases fl with
    | nil =>
      have h0 : head = 0 := hl
      rw [if_pos h0]
      exact .inl ⟨rfl, by simp⟩
    | cons b fl =>
      obtain ⟨rfl, hne, -, hrs⟩ := hl
      rw [if_neg hne]
      by_cases hlt : size m head < want
      · rw [if_pos hlt]
        rcases ih hrs (by simp only [List.length_cons] at hf; omega) with ⟨h1, h2⟩ | ⟨b, hb, h1, h2⟩
        · exact .inl ⟨h1, List.forall_mem_cons.2 ⟨hlt, h2⟩⟩
        · exact .inr ⟨b, List.mem_cons_of_mem _ hb, h1, h2⟩
      · rw [if_neg hlt]
        exact .inr ⟨head, List.mem_cons_self, rfl, by omega⟩

/-! ## `kmalloc` -/

/-- `n` bytes at `p` are now in use, and nothing else has changed for the client. -/
structure Served (h h' : Heap) (bs bs' : List Blk) (p n : Nat) : Prop where
  heapStart : h'.heapStart = h.heapStart
  heapCap : h'.heapCap = h.heapCap
  heapEnd : h'.heapEnd = h.heapEnd ∨ h'.heapEnd = h.heapEnd + (headerSize + round8 n)
  allocs : (allocs bs').Perm ((p, n) :: allocs bs)
  kept : ∀ c ∈ bs, c.requested ≠ none → c ∈ bs'
  within : Within (addrs bs') h.mem h'.mem
  apart : Apart bs → Apart bs'

section

variable (hs : Shape h bs fl)
include hs

theorem kmalloc_fit {b : Nat} (hb : b ∈ fl) {want : Nat} (hn : n ≤ want) (hw : 8 ∣ want) (hfit : want ≤ size h.mem b) :
    ∃ bs' fl', Shape (markUsed (if u32 (want + headerSize + minSplit) ≤ size h.mem b then splitBlock h b want
        else unlink h b) b) bs' fl' ∧
      Served h (markUsed (if u32 (want + headerSize + minSplit) ≤ size h.mem b then splitBlock h b want
        else unlink h b) b) bs bs' (b + headerSize) n := by
  obtain ⟨c, hc, hfr, rfl⟩ := hs.mem_list.1 hb
  obtain ⟨l, r, rfl⟩ := List.append_of_mem hc
  obtain ⟨fl1, fl2, rfl⟩ := List.append_of_mem hb
  have hsz := (hs.header c (by simp)).2
  have hce := hs.layout.tiles.mem hc
  have hend := hs.end_le
  have hcap := hs.cap_le
  rw [hsz] at hfit ⊢
  have hmin : u32 (want + headerSize + minSplit) = want + headerSize + minSplit := by
    unfold Blk.len headerSize at hce
    unfold u32 headerSize minSplit
    omega
  rw [hmin]
  by_cases hcut : want + headerSize + minSplit ≤ c.size
  · rw [if_pos hcut]
    have hcuts : Cut c ⟨c.addr, want, some n⟩ ⟨c.addr + headerSize + want, c.size - want - headerSize, none⟩ want n :=
      ⟨hn, hw, by omega, rfl, rfl⟩
    obtain ⟨hs', hrel⟩ := take_split hcuts hs hfr
    refine ⟨_, _, hs', hrel.heapStart, hrel.heapCap, .inl hrel.heapEnd, ?_, ?_, hrel.within, fun hap => ?_⟩
    · rw [allocs_append, allocs_append, allocs_cons_free _ _ hfr, allocs_cons_used _ _ rfl,
        allocs_cons_free _ _ rfl]
      exact List.perm_middle
    · intro d hd hu
      rcases mem_middle.1 hd with rfl | hd
      · exact absurd hfr hu
      · exact mem_middle.2 (.inr (mem_middle.2 (.inr hd)))
    · -- the rest ends where the block ended, and begins where none did
      have hrs : Apart ((l ++ [⟨c.addr, want, some n⟩]) ++ r) := hap.mono fun a ha hf => by
        simp only [List.append_assoc, List.singleton_append] at ha
        rcases mem_middle.1 ha with rfl | ha
        · cases hf
        · exact mem_middle.2 (.inr ha)
      have hmem : ∀ a ∈ (l ++ [⟨c.addr, want, some n⟩]) ++ r, a.requested = none → a ∈ l ++ c :: r := by
        intro a ha hf
        simp only [List.append_assoc, List.singleton_append] at ha
        rcases mem_middle.1 ha with rfl | ha
        · cases hf
        · exact mem_middle.2 (.inr ha)
      have hiff := (apart_insert (b := ⟨c.addr + headerSize + want, c.size - want - headerSize, none⟩) rfl hrs ?_).2 ?_
      · simpa using hiff
      · intro a ha hf
        have hne := hap c hc a (hmem a ha hf) hfr hf
        unfold Blk.len at *
        simp only
        omega
      · intro a ha hf
        rcases hs.layout.tiles.apart hc (hmem a ha hf) with rfl | h1 | h1 <;> unfold Blk.len headerSize at * <;>
          simp only <;> omega
  · rw [if_neg hcut]
    obtain ⟨hs', hrel⟩ := take_whole hs hfr (n := n) (by omega)
    refine ⟨_, _, hs', hrel.heapStart, hrel.heapCap, .inl hrel.heapEnd, ?_, ?_, ?_, fun hap => hap.mono ?_⟩
    · rw [allocs_append, allocs_append, allocs_cons_free _ _ hfr, allocs_cons_used _ _ rfl]
      exact List.perm_middle
    · intro d hd hu
      rcases mem_middle.1 hd with rfl | hd
      · exact absurd hfr hu
      · exact mem_middle.2 (.inr hd)
    · have haddr : addrs (l ++ { c with requested := some n } :: r) = addrs (l ++ c :: r) := by
        simp only [addrs_append, addrs_cons]
      rw [haddr]
      exact hrel.within
    · intro a ha hf
      rcases mem_middle.1 ha with rfl | ha
      · cases hf
      · exact mem_middle.2 (.inr ha)

theorem kmalloc_new (hn : n ≤ round8 n) (hrm : h.heapEnd + (headerSize + round8 n) ≤ h.heapCap) :
    ∃ bs' fl', Shape (markUsed (unlink (extendHeap h (round8 n)).2 h.heapEnd) h.heapEnd) bs' fl' ∧
      Served h (markUsed (unlink (extendHeap h (round8 n)).2 h.heapEnd) h.heapEnd) bs bs' (h.heapEnd + headerSize) n := by
  obtain ⟨hs1, hwi⟩ := extendHeap_shape hs hrm ⟨_, Nat.mul_comm _ 8⟩
  have hext : (extendHeap h (round8 n)).2.heapStart = h.heapStart ∧ (extendHeap h (round8 n)).2.heapCap = h.heapCap ∧
      (extendHeap h (round8 n)).2.heapEnd = h.heapEnd + (headerSize + round8 n) := by
    rw [extendHeap_eq hs hrm]
    unfold pushFree setPrevIf
    split <;> exact ⟨rfl, rfl, rfl⟩
  have hs1' : Shape (extendHeap h (round8 n)).2 (bs ++ ⟨h.heapEnd, round8 n, none⟩ :: []) ([] ++ h.heapEnd :: fl) := hs1
  obtain ⟨hs2, hrel⟩ := take_whole hs1' rfl hn
  refine ⟨_, _, hs2, hrel.heapStart.trans hext.1, hrel.heapCap.trans hext.2.1, ?_, ?_, ?_, ?_, fun hap => hap.mono ?_⟩
  · exact .inr (hrel.heapEnd.trans hext.2.2)
  · rw [allocs_append, allocs_cons_used _ _ rfl]
    exact List.perm_append_singleton _ _
  · intro d hd _
    exact List.mem_append_left _ hd
  · have haddr : addrs (bs ++ [⟨h.heapEnd, round8 n, some n⟩]) = addrs (bs ++ [⟨h.heapEnd, round8 n, none⟩]) := by
      simp only [addrs_append, addrs_cons]
    intro x hx
    rw [haddr] at hx
    exact (hrel.within x hx).trans (hwi x hx)
  · intro a ha hf
    rcases List.mem_append.1 ha with ha | ha
    · exact ha
    · obtain rfl := List.mem_singleton.1 ha
      cases hf

/-- A block of the list is taken, or none is large enough and the heap has to grow. -/
theorem kmalloc_search (h0 : n ≠ 0) :
    (∃ b ∈ fl, round8 n ≤ size h.mem b ∧ kmalloc h n = some (b + headerSize,
      markUsed (if u32 (round8 n + headerSize + minSplit) ≤ size h.mem b then splitBlock h b (round8 n)
        else unlink h b) b)) ∨
    (∀ b ∈ fl, size h.mem b < round8 n) ∧ kmalloc h n =
      if (extendHeap h (round8 n)).1 = 0 then some (0, (extendHeap h (round8 n)).2)
      else some (u32 ((extendHeap h (round8 n)).1 + headerSize),
        markUsed (unlink (extendHeap h (round8 n)).2 (extendHeap h (round8 n)).1) (extendHeap h (round8 n)).1) := by
  have hend := hs.end_le
  have hcap := hs.cap_le
  have hsr := hs.start_pos
  have hfuel : fl.length < 2 ^ 32 := by
    have h1 := hs.list_length_le
    have h2 := hs.length_lt
    omega
  unfold kmalloc
  rw [if_neg h0]
  rcases firstFit_spec (round8 n) (2 ^ 32) hs.list.seg hfuel with ⟨hff, hno⟩ | ⟨b, hb, hff, hfit⟩
  · refine .inr ⟨hno, ?_⟩
    simp only [hff, ne_eq, not_true_eq_false, if_false]
  obtain ⟨c, hc, -, rfl⟩ := hs.mem_list.1 hb
  have hce := hs.layout.tiles.mem hc
  have hne : c.addr ≠ 0 := by omega
  have hptr : u32 (c.addr + headerSize) = c.addr + headerSize := by
    unfold Blk.len at hce
    exact Nat.mod_eq_of_lt (by omega)
  refine .inl ⟨_, hb, hfit, ?_⟩
  simp only [hff, ne_eq, hne, not_false_eq_true, if_true, hptr]

/-- A request whose size does not wrap around, neither rounded nor behind the heap. -/
theorem kmalloc_cases (hn : n ≤ round8 n) (hsum : h.heapEnd + (headerSize + round8 n) < 2 ^ 32) :
    ∃ p h', kmalloc h n = some (p, h') ∧
      (p = 0 ∧ h' = h ∧ (n ≠ 0 → ∀ b ∈ fl, size h.mem b < round8 n) ∨
        p ≠ 0 ∧ ∃ bs' fl', Shape h' bs' fl' ∧ Served h h' bs bs' p n) := by
  have hw : 8 ∣ round8 n := ⟨_, Nat.mul_comm _ 8⟩
  by_cases h0 : n = 0
  · exact ⟨0, h, if_pos h0, .inl ⟨rfl, rfl, absurd h0⟩⟩
  rcases kmalloc_search hs h0 with ⟨b, hb, hfit, hk⟩ | ⟨hno, hk⟩
  · obtain ⟨bs', fl', hs', hsv⟩ := kmalloc_fit hs hb hn hw hfit
    exact ⟨_, _, hk, .inr ⟨by unfold headerSize; omega, bs', fl', hs', hsv⟩⟩
  by_cases hrm : h.heapEnd + (headerSize + round8 n) ≤ h.heapCap
  · obtain ⟨bs', fl', hs', hsv⟩ := kmalloc_new hs hn hrm
    have hne : h.heapEnd ≠ 0 := by
      have := hs.layout.tiles.total
      have := hs.start_pos
      omega
    have hptr : u32 (h.heapEnd + headerSize) = h.heapEnd + headerSize := Nat.mod_eq_of_lt (by omega)
    rw [show (extendHeap h (round8 n)).1 = h.heapEnd by rw [extendHeap_eq hs hrm], if_neg hne, hptr] at hk
    exact ⟨_, _, hk, .inr ⟨by omega, bs', fl', hs', hsv⟩⟩
  have he : extendHeap h (round8 n) = (0, h) := by
    unfold extendHeap
    rw [if_pos]
    unfold u32 headerSize at *
    omega
  rw [he, if_pos rfl] at hk
  exact ⟨0, h, hk, .inl ⟨rfl, rfl, fun _ => hno⟩⟩

theorem kmalloc_spec (hmax : n ≤ 0x7FFFFFFF) :
    ∃ p h', kmalloc h n = some (p, h') ∧
      (p = 0 ∧ h' = h ∧ (n ≠ 0 → ∀ b ∈ fl, size h.mem b < round8 n) ∨
        p ≠ 0 ∧ ∃ bs' fl', Shape h' bs' fl' ∧ Served h h' bs bs' p n) := by
  have hend := hs.end_le
  have hcap := hs.cap_le
  refine kmalloc_cases hs ?_ ?_ <;> unfold round8 u32
  · omega
  · unfold headerSize
    omega

end

/-! ## `kfree` -/

theorem mem_allocs {e : Nat × Nat} : e ∈ allocs bs ↔ ∃ c ∈ bs, c.requested = some e.2 ∧ c.addr + headerSize = e.1 := by
  unfold allocs Blk.alloc
  rw [List.mem_filterMap]
  constructor
  · rintro ⟨c, hc, he⟩
    obtain ⟨n, hn, rfl⟩ := Option.map_eq_some_iff.1 he
    exact ⟨c, hc, hn, rfl⟩
  · rintro ⟨c, hc, hn, he⟩
    exact ⟨c, hc, by rw [hn, Option.map_some, he]⟩

theorem kfree_spec (hs : Shape h bs fl) {p : Nat} (hp : (p, n) ∈ allocs bs) :
    ∃ bs' fl', Shape (kfree h p) bs' fl' ∧ Relinked (addrs bs) h (kfree h p) ∧
      (allocs bs).Perm ((p, n) :: allocs bs') ∧
      (∀ c ∈ bs, c.requested ≠ none → c.addr + headerSize ≠ p → c ∈ bs') ∧
      (Apart bs → (Apart bs' ↔ ∀ a ∈ bs, a.requested = none → p ≠ a.addr + a.len + headerSize)) := by
  obtain ⟨b, hb, hus, hbp⟩ := mem_allocs.1 hp
  obtain rfl : b.addr + headerSize = p := hbp
  obtain ⟨l, r, rfl⟩ := List.append_of_mem hb
  have hbe := hs.layout.tiles.mem hb
  have hend := hs.end_le
  have hcap := hs.cap_le
  have hsr := hs.start_pos
  have hbk : u32 (b.addr + headerSize + 2 ^ 32 - headerSize) = b.addr := by
    unfold u32 Blk.len headerSize at *
    omega
  have hmagic : magic h.mem b.addr = magicUsed := (hs.header b (by simp)).1.trans (mark_used hus)
  have heq : kfree h (b.addr + headerSize) =
      coalesce (pushFree { h with mem := setMagic h.mem b.addr magicFree } b.addr) b.addr := by
    unfold kfree
    simp only [hbk, hmagic]
    rw [if_neg (by omega), if_neg (by simp)]
  obtain ⟨hs1, hrel1⟩ := release hs hus
  obtain ⟨bs', fl', hs', hrel2, hall, hkt, hap⟩ := coalesce_shape hs1 rfl
  have haddr : addrs (l ++ { b with requested := none } :: r) = addrs (l ++ b :: r) := by
    simp only [addrs_append, addrs_cons]
  rw [haddr] at hrel2
  rw [heq]
  refine ⟨bs', fl', hs', hrel1.trans hrel2, ?_, ?_, fun h' => ?_⟩
  · rw [hall, allocs_append, allocs_append, allocs_cons_used _ _ hus, allocs_cons_free _ _ rfl]
    exact List.perm_middle
  · intro c hc hu hne
    refine hkt c (mem_middle.2 ?_) hu
    rcases mem_middle.1 hc with rfl | hc
    · exact absurd rfl hne
    · exact .inr hc
  · rw [hap (h'.mono fun a ha _ => mem_middle.2 (.inr ha))]
    refine ⟨fun hp' a ha hf => ?_, fun hp' a ha hf he => hp' a (mem_middle.2 (.inr ha)) hf (by rw [← he])⟩
    rcases mem_middle.1 ha with rfl | ha
    · rw [hus] at hf
      cases hf
    · have := hp' a ha hf
      simp only at this
      omega

/-! ## Other writers -/

/-- The blocks are the same in a memory with the same headers. -/
theorem Shape.congr (hs : Shape h bs fl) (hm : ∀ y ∈ addrs bs, ∀ x, y ≤ x → x < y + headerSize → m x = h.mem x) :
    Shape { h with mem := m } bs fl := by
  have hfield : ∀ y ∈ addrs bs, ∀ j < 4, field m y j = field h.mem y j := by
    intro y hy j hj
    refine Bytes.get32_congr fun i hi => hm y hy _ (by omega) ?_
    unfold headerSize
    omega
  exact
    { start_pos := hs.start_pos
      start_dvd := hs.start_dvd
      end_le := hs.end_le
      cap_le := hs.cap_le
      layout := hs.layout
      header := by
        intro b hb
        obtain ⟨h1, h2⟩ := hs.header b hb
        exact ⟨(hfield _ (mem_addrs hb) 0 (by omega)).trans h1, (hfield _ (mem_addrs hb) 1 (by omega)).trans h2⟩
      list := hs.list.congr (fun y hy => hfield y (hs.list_sub y hy) 3 (by omega))
        fun y hy => hfield y (hs.list_sub y hy) 2 (by omega)
      perm := hs.perm }

/-- A store into the payload of a block leaves the blocks alone. -/
theorem store_shape (hs : Shape h bs fl) {b : Blk} (hb : b ∈ bs) {x : Nat} (h1 : b.addr + headerSize ≤ x)
    (h2 : x < b.addr + headerSize + b.size) (v : UInt8) : Shape { h with mem := Function.update h.mem x v } bs fl := by
  refine hs.congr fun y hy z hz1 hz2 => Function.update_of_ne ?_ _ _
  rintro rfl
  have := hs.layout.payload_out hb h1 h2 y hy
  omega

/-! ## Statistics -/

/-- The sum of the sizes of the blocks that are (`true`) or are not (`false`) free. -/
def sumSizes (free : Bool) (bs : List Blk) : Nat := ((bs.filter fun b => b.isFree = free).map Blk.size).sum

theorem sumSizes_cons (free : Bool) (b : Blk) (bs : List Blk) :
    sumSizes free (b :: bs) = (if b.isFree = free then b.size else 0) + sumSizes free bs := by
  unfold sumSizes
  by_cases hb : b.isFree = free
  · simp [hb]
  · simp [hb]

theorem sumSizes_total (bs : List Blk) :
    sumSizes false bs + sumSizes true bs + headerSize * bs.length = (bs.map Blk.len).sum := by
  induction bs with
  | nil => rfl
  | cons b bs ih =>
    rw [sumSizes_cons, sumSizes_cons, List.map_cons, List.sum_cons, List.length_cons, ← ih, Blk.len]
    cases b.isFree <;> simp <;> unfold headerSize <;> omega

theorem usedLoop_spec {e : Nat} (he : e < 2 ^ 32) (fuel : Nat) : ∀ {bs : List Blk} {pos used : Nat},
    Tiles Blk.addr Blk.len pos bs e → (∀ b ∈ bs, magic m b.addr = b.mark ∧ size m b.addr = b.size) →
    bs.length < fuel → used + sumSizes false bs < 2 ^ 32 →
    usedLoop fuel m e pos used = some (used + sumSizes false bs) := by
  induction fuel with
  | zero => intro bs pos used _ _ hf _; omega
  | succ fuel ih =>
    intro bs pos used ht hh hf hsum
    unfold usedLoop
    cases bs with
    | nil =>
      have hpe : pos = e := ht
      rw [if_neg (by omega)]
      rfl
    | cons b bs =>
      have hbe := (ht.mem List.mem_cons_self).2
      obtain ⟨rfl, ht'⟩ := ht
      obtain ⟨hm, hz⟩ := hh b List.mem_cons_self
      have hsp : u32 (b.addr + (headerSize + b.size)) = b.addr + b.len := by
        unfold Blk.len at *
        exact Nat.mod_eq_of_lt (by omega)
      have hlt : b.addr < e := by
        unfold Blk.len headerSize at hbe
        omega
      rw [sumSizes_cons] at hsum ⊢
      simp only [List.length_cons] at hf
      rw [if_pos hlt]
      simp only [hm, hz, hsp]
      have hacc : (if b.mark = magicUsed then u32 (used + b.size) else used) =
          used + if b.isFree = false then b.size else 0 := by
        by_cases hfr : b.isFree = false
        · have hmark : b.mark = magicUsed := by simp [Blk.mark, hfr]
          rw [if_pos hmark, if_pos hfr, u32, Nat.mod_eq_of_lt]
          rw [if_pos hfr] at hsum
          omega
        · have hmark : b.mark ≠ magicUsed := by
            rw [Blk.mark, if_pos (by simpa using hfr)]
            decide
          rw [if_neg hmark, if_neg hfr, Nat.add_zero]
      rw [hacc, ih ht' (fun c hc => hh c (List.mem_cons_of_mem _ hc)) (by omega) (by omega)]
      congr 1
      omega

theorem freeLoop_spec (fuel : Nat) : ∀ {p head fr : Nat} {fl : List Nat},
    DSeg (next m) (prev m) 0 p head fl → fl.length < fuel → fr + (fl.map (size m)).sum < 2 ^ 32 →
    freeLoop fuel m head fr = some (fr + (fl.map (size m)).sum) := by
  induction fuel with
  | zero => intro p head fr fl _ hf _; omega
  | succ fuel ih =>
    intro p head fr fl hl hf hsum
    unfold freeLoop
    cases fl with
    | nil =>
      have h0 : head = 0 := hl
      rw [if_pos h0]
      rfl
    | cons b fl =>
      obtain ⟨rfl, hne, -, hrs⟩ := hl
      simp only [List.length_cons, List.map_cons, List.sum_cons] at hf hsum ⊢
      have hsp : u32 (fr + size m head) = fr + size m head := Nat.mod_eq_of_lt (by omega)
      rw [if_neg hne, hsp, ih hrs (by omega) (by omega)]
      congr 1
      omega

theorem Shape.free_sum (hs : Shape h bs fl) : (fl.map (size h.mem)).sum = sumSizes true bs := by
  have hmap : (freeAddrs bs).map (size h.mem) = (bs.filter Blk.isFree).map Blk.size := by
    unfold freeAddrs
    rw [List.map_map]
    refine List.map_congr_left fun b hb => ?_
    exact (hs.header b (List.mem_of_mem_filter hb)).2
  rw [(hs.perm.map _).sum_nat, hmap, sumSizes]
  simp

theorem Shape.used (hs : Shape h bs fl) : kmallocUsed h = some (sumSizes false bs) := by
  have htotal := hs.layout.tiles.total
  have hsum := sumSizes_total bs
  have hend := hs.end_le
  have hcap := hs.cap_le
  have hlen := hs.length_lt
  have hlp : usedLoop (2 ^ 32) h.mem h.heapEnd h.heapStart 0 = some (0 + sumSizes false bs) :=
    usedLoop_spec (by omega) (2 ^ 32) hs.layout.tiles hs.header (by omega) (by omega)
  rwa [Nat.zero_add] at hlp

/-- What the two functions report, the headers and nothing else make up the heap. -/
theorem Shape.account (hs : Shape h bs fl) : ∃ u f, kmallocUsed h = some u ∧ kmallocFree h = some f ∧
    u + f + headerSize * bs.length = h.heapEnd - h.heapStart := by
  have htotal := hs.layout.tiles.total
  have hsum := sumSizes_total bs
  have hend := hs.end_le
  have hcap := hs.cap_le
  have hlen := hs.length_lt
  have hlist := hs.list_length_le
  have hfr := hs.free_sum
  refine ⟨sumSizes false bs, sumSizes true bs, hs.used, ?_, by omega⟩
  have hlp : freeLoop (2 ^ 32) h.mem h.freeList 0 = some (0 + (fl.map (size h.mem)).sum) :=
    freeLoop_spec (2 ^ 32) hs.list.seg (by omega) (by omega)
  rwa [Nat.zero_add, hfr] at hlp

end KumOS.Kmalloc
