import KumOS.Heap.Kmalloc
import KumOS.Lib.DList

/-!
# The free list in the headers

What the assignments of `kmalloc.c` do to the headers at a set of addresses
that are at least a header apart (`Spaced`).  An assignment to one field of one
header changes nothing else; from that follow the effects of `unlink`,
`pushFree` and `splitBlock`, first on every field, then on the list.
-/

namespace KumOS.Kmalloc

open Lib

variable {j y : Nat} {A : List Nat}
variable {h1 h2 : Heap} {fl : List Nat}

/-- Distinct addresses of `A` are at least a header apart; 0 is not one of them. -/
structure Spaced (A : List Nat) : Prop where
  apart : ∀ a ∈ A, ∀ b ∈ A, a = b ∨ a + headerSize ≤ b ∨ b + headerSize ≤ a
  ne_zero : ∀ a ∈ A, a ≠ 0
  lt : ∀ a ∈ A, a < 2 ^ 32

/-- `m'` differs from `m` in headers at `A` only. -/
def Within (A : List Nat) (m m' : Bytes) : Prop :=
  ∀ x, (∀ a ∈ A, x < a ∨ a + headerSize ≤ x) → m' x = m x

theorem size_lt (m : Bytes) (b : Nat) : size m b < 2 ^ 32 := m.get32_lt _
theorem prev_lt (m : Bytes) (b : Nat) : prev m b < 2 ^ 32 := m.get32_lt _
theorem next_lt (m : Bytes) (b : Nat) : next m b < 2 ^ 32 := m.get32_lt _

section
variable {m m' : Bytes} {a k v : Nat}

theorem Within.refl (A : List Nat) (m : Bytes) : Within A m m := fun _ _ => rfl

theorem Within.setField (h : Within A m m') (ha : a ∈ A) (hk : k < 4) : Within A m (setField m' a k v) := by
  intro x hx
  rw [← h x hx]
  have := hx a ha
  unfold headerSize at this
  exact m'.put32_of_out (by omega)

variable (hA : Spaced A) {b : Nat} (hb : b ∈ A) (hj : j < 4) (hk : k < 4) (hv : v < 2 ^ 32)
include hA hb hj hk hv

theorem field_setField (ha : a ∈ A) : field (setField m a k v) b j = if b = a ∧ j = k then v else field m b j := by
  have hab := hA.apart a ha b hb
  unfold headerSize at hab
  by_cases h : b = a ∧ j = k
  · obtain ⟨rfl, rfl⟩ := h
    rw [if_pos ⟨rfl, rfl⟩]
    exact m.get32_put32_same hv
  · rw [if_neg h]
    exact m.get32_put32_ne (by omega)

end

/-! ## Assignments to the links -/

/-- `h'` is `h` but for the head of the list and the headers at `A`. -/
structure Relinked (A : List Nat) (h h' : Heap) : Prop where
  heapStart : h'.heapStart = h.heapStart
  heapEnd : h'.heapEnd = h.heapEnd
  heapCap : h'.heapCap = h.heapCap
  within : Within A h.mem h'.mem

theorem Relinked.trans {h : Heap} (h01 : Relinked A h h1) (h12 : Relinked A h1 h2) :
    Relinked A h h2 where
  heapStart := h12.heapStart.trans h01.heapStart
  heapEnd := h12.heapEnd.trans h01.heapEnd
  heapCap := h12.heapCap.trans h01.heapCap
  within := fun x hx => (h12.within x hx).trans (h01.within x hx)

section
variable (h : Heap) {p v : Nat} (hp : p = 0 ∨ p ∈ A)

theorem setNextOrHead_freeList : (setNextOrHead h p v).freeList = if p = 0 then v else h.freeList := by
  unfold setNextOrHead
  by_cases h0 : p = 0
  · rw [if_neg (not_not_intro h0), if_pos h0]
  · rw [if_pos h0, if_neg h0]

theorem setPrevIf_freeList : (setPrevIf h p v).freeList = h.freeList := by
  unfold setPrevIf
  split <;> rfl

include hp

theorem setNextOrHead_relinked : Relinked A h (setNextOrHead h p v) := by
  unfold setNextOrHead
  by_cases h0 : p = 0
  · rw [if_neg (not_not_intro h0)]
    exact ⟨rfl, rfl, rfl, .refl A h.mem⟩
  · rw [if_pos h0]
    exact ⟨rfl, rfl, rfl, (Within.refl A h.mem).setField (k := 3) (hp.resolve_left h0) (by omega)⟩

theorem setPrevIf_relinked : Relinked A h (setPrevIf h p v) := by
  unfold setPrevIf
  by_cases h0 : p = 0
  · rw [if_neg (not_not_intro h0)]
    exact ⟨rfl, rfl, rfl, .refl A h.mem⟩
  · rw [if_pos h0]
    exact ⟨rfl, rfl, rfl, (Within.refl A h.mem).setField (k := 2) (hp.resolve_left h0) (by omega)⟩

variable (hA : Spaced A) {b : Nat} (hb : b ∈ A) (hj : j < 4) (hv : v < 2 ^ 32)
include hA hb hj hv

theorem setNextOrHead_field : field (setNextOrHead h p v).mem b j = if b = p ∧ j = 3 then v else field h.mem b j := by
  unfold setNextOrHead
  by_cases h0 : p = 0
  · have hbp : b ≠ p := h0 ▸ hA.ne_zero b hb
    rw [if_neg (not_not_intro h0), if_neg fun he => hbp he.1]
  · rw [if_pos h0]
    exact field_setField hA hb hj (by omega) hv (hp.resolve_left h0)

theorem setPrevIf_field : field (setPrevIf h p v).mem b j = if b = p ∧ j = 2 then v else field h.mem b j := by
  unfold setPrevIf
  by_cases h0 : p = 0
  · have hbp : b ≠ p := h0 ▸ hA.ne_zero b hb
    rw [if_neg (not_not_intro h0), if_neg fun he => hbp he.1]
  · rw [if_pos h0]
    exact field_setField hA hb hj (by omega) hv (hp.resolve_left h0)

end

/-! ## The list -/

/-- The free list in the memory. -/
abbrev FreeList (m : Bytes) (head : Nat) (fl : List Nat) : Prop := DList (next m) (prev m) 0 head fl

/-- The magic words and sizes of the blocks at `A` are kept. -/
def KeepsMarks (A : List Nat) (m m' : Bytes) : Prop :=
  ∀ y ∈ A, magic m' y = magic m y ∧ size m' y = size m y

section
variable {h : Heap} {b : Nat} {l r : List Nat} (hl : FreeList h.mem h.freeList (l ++ b :: r))
  (hsub : ∀ x ∈ l ++ b :: r, x ∈ A)
include hl

theorem prev_ne : prev h.mem b ≠ b := by
  have hnd := List.nodup_middle.1 hl.nodup
  obtain ⟨hb, -⟩ := List.nodup_cons.1 hnd
  rcases List.mem_cons.1 hl.seg.prev_mem with h0 | hm
  · rw [h0]
    exact (hl.ne_null (by simp)).symm
  · intro he
    rw [he] at hm
    exact hb (List.mem_append_left _ hm)

include hsub

theorem prev_mem : prev h.mem b = 0 ∨ prev h.mem b ∈ A := (hl.prev_eq_or_mem (by simp)).imp id (hsub _)

theorem next_mem : next h.mem b = 0 ∨ next h.mem b ∈ A := (hl.next_eq_or_mem (by simp)).imp id (hsub _)

end

theorem mem_of_mem_rest {b : Nat} {l r : List Nat} (hsub : ∀ x ∈ l ++ b :: r, x ∈ A) : ∀ x ∈ l ++ r, x ∈ A := by
  intro x hx
  apply hsub
  rw [List.mem_append, List.mem_cons]
  exact (List.mem_append.1 hx).imp id .inr

/-! ### Magic words and sizes -/

section
variable (hA : Spaced A) {h : Heap} {b : Nat} (hb : b ∈ A)
include hA hb

/-- An assignment to a magic word or a size leaves the list alone. -/
theorem setField_list {k v : Nat} (hk : k < 2) (hv : v < 2 ^ 32) (hsub : ∀ x ∈ fl, x ∈ A)
    (hl : FreeList h.mem h.freeList fl) : FreeList (setField h.mem b k v) h.freeList fl := by
  refine hl.congr (fun y hy => ?_) fun y hy => ?_
  · unfold next
    rw [field_setField hA (hsub y hy) (by omega) (by omega) hv hb, if_neg (by omega)]
  · unfold prev
    rw [field_setField hA (hsub y hy) (by omega) (by omega) hv hb, if_neg (by omega)]

/-- The mark or the size in a header is set. -/
theorem setField_marks {k v : Nat} (hk : k < 2) (hv : v < 2 ^ 32) (hsub : ∀ x ∈ fl, x ∈ A)
    (hl : FreeList h.mem h.freeList fl) : FreeList (setField h.mem b k v) h.freeList fl ∧
      Relinked A h { h with mem := setField h.mem b k v } ∧
      ∀ y ∈ A, magic (setField h.mem b k v) y = (if y = b ∧ 0 = k then v else magic h.mem y) ∧
        size (setField h.mem b k v) y = if y = b ∧ 1 = k then v else size h.mem y := by
  refine ⟨setField_list hA hb hk hv hsub hl, ⟨rfl, rfl, rfl, (Within.refl A h.mem).setField hb (by omega)⟩, fun y hy => ?_⟩
  have hy := fun j (hj : j < 4) => field_setField (m := h.mem) hA hy hj (show k < 4 by omega) hv hb
  exact ⟨hy 0 (by omega), hy 1 (by omega)⟩

omit hA in
theorem markUsed_relinked : Relinked A h (markUsed h b) :=
  ⟨rfl, rfl, rfl, (((Within.refl A h.mem).setField (k := 0) hb (by omega)).setField (k := 3) hb (by omega)).setField
    (k := 2) hb (by omega)⟩

theorem markUsed_field (hy : y ∈ A) (hj : j < 4) : field (markUsed h b).mem y j =
    if y = b ∧ j = 2 then 0 else if y = b ∧ j = 3 then 0 else if y = b ∧ j = 0 then magicUsed
    else field h.mem y j := by
  unfold markUsed setPrev setNext setMagic
  rw [field_setField hA hy hj (by omega) (by omega) hb, field_setField hA hy hj (by omega) (by omega) hb,
    field_setField hA hy hj (by omega) (by decide) hb]

theorem markUsed_marks (hy : y ∈ A) : magic (markUsed h b).mem y =
    (if y = b then magicUsed else magic h.mem y) ∧ size (markUsed h b).mem y = size h.mem y := by
  unfold magic size
  rw [markUsed_field hA hb hy (by omega), markUsed_field hA hb hy (by omega)]
  simp

theorem markUsed_list (hsub : ∀ x ∈ fl, x ∈ A) (hbl : b ∉ fl) (hl : FreeList h.mem h.freeList fl) :
    FreeList (markUsed h b).mem (markUsed h b).freeList fl := by
  have hne : ∀ y ∈ fl, y ≠ b := by
    rintro y hy rfl
    exact hbl hy
  refine hl.congr (fun y hy => ?_) fun y hy => ?_
  · unfold next
    rw [markUsed_field hA hb (hsub y hy) (by omega)]
    simp [hne y hy]
  · unfold prev
    rw [markUsed_field hA hb (hsub y hy) (by omega)]
    simp [hne y hy]

end

/-! ### `unlink` -/

section
variable (hA : Spaced A) {h : Heap} {b : Nat} {l r : List Nat}
  (hl : FreeList h.mem h.freeList (l ++ b :: r)) (hsub : ∀ x ∈ l ++ b :: r, x ∈ A)
include hA hl hsub

theorem unlink_eq : unlink h b =
    setPrevIf (setNextOrHead h (prev h.mem b) (next h.mem b)) (next h.mem b) (prev h.mem b) := by
  have hkp : ∀ j < 4, field (setNextOrHead h (prev h.mem b) (next h.mem b)).mem b j = field h.mem b j := by
    intro j hj
    rw [setNextOrHead_field h (prev_mem hl hsub) hA (hsub b (by simp)) hj (next_lt ..),
      if_neg fun he => prev_ne hl he.1.symm]
  have hnx : next (setNextOrHead h (prev h.mem b) (next h.mem b)).mem b = next h.mem b := hkp 3 (by omega)
  have hpv : prev (setNextOrHead h (prev h.mem b) (next h.mem b)).mem b = prev h.mem b := hkp 2 (by omega)
  unfold unlink
  simp only [hnx, hpv]

theorem unlink_relinked : Relinked A h (unlink h b) := by
  rw [unlink_eq hA hl hsub]
  exact (setNextOrHead_relinked h (prev_mem hl hsub)).trans (setPrevIf_relinked _ (next_mem hl hsub))

theorem unlink_field (hy : y ∈ A) (hj : j < 4) : field (unlink h b).mem y j =
    if y = next h.mem b ∧ j = 2 then prev h.mem b
    else if y = prev h.mem b ∧ j = 3 then next h.mem b else field h.mem y j := by
  rw [unlink_eq hA hl hsub, setPrevIf_field _ (next_mem hl hsub) hA hy hj (prev_lt ..),
    setNextOrHead_field h (prev_mem hl hsub) hA hy hj (next_lt ..)]

theorem unlink_keeps : KeepsMarks A h.mem (unlink h b).mem := by
  intro y hy
  unfold magic size
  rw [unlink_field hA hl hsub hy (by omega), unlink_field hA hl hsub hy (by omega)]
  simp

theorem unlink_list : FreeList (unlink h b).mem (unlink h b).freeList (l ++ r) := by
  have hhd : (unlink h b).freeList = if prev h.mem b = 0 then next h.mem b else h.freeList := by
    rw [unlink_eq hA hl hsub, setPrevIf_freeList, setNextOrHead_freeList]
  rw [hhd]
  refine hl.unlink (fun y hy => ?_) fun y hy => ?_
  · unfold next
    rw [unlink_field hA hl hsub (mem_of_mem_rest hsub y hy) (by omega)]
    simp [next]
  · unfold prev
    rw [unlink_field hA hl hsub (mem_of_mem_rest hsub y hy) (by omega)]
    simp [prev]

end

/-! ### `pushFree` -/

section
variable (hA : Spaced A) {h : Heap} {b : Nat} {fl : List Nat} (hb : b ∈ A)
  (hl : FreeList h.mem h.freeList fl) (hsub : ∀ x ∈ fl, x ∈ A)
include hA hb hl hsub

omit hA hb in
theorem freeList_mem : h.freeList = 0 ∨ h.freeList ∈ A := by
  have he := hl.head_eq
  cases fl with
  | nil => exact .inl he
  | cons x fl =>
    right
    rw [he]
    exact hsub x List.mem_cons_self

omit hA in
theorem pushFree_relinked : Relinked A h (pushFree h b) := by
  have hset := ((Within.refl A h.mem).setField (k := 2) (v := 0) hb (by omega)).setField (k := 3) (v := h.freeList) hb
    (by omega)
  have h1 : Relinked A h { h with mem := setNext (setPrev h.mem b 0) b h.freeList } := ⟨rfl, rfl, rfl, hset⟩
  have h2 := h1.trans (setPrevIf_relinked (v := b) { h with mem := setNext (setPrev h.mem b 0) b h.freeList }
    (freeList_mem hl hsub))
  exact ⟨h2.heapStart, h2.heapEnd, h2.heapCap, h2.within⟩

theorem pushFree_field (hy : y ∈ A) (hj : j < 4) : field (pushFree h b).mem y j =
    if y = h.freeList ∧ j = 2 then b else if y = b ∧ j = 3 then h.freeList
    else if y = b ∧ j = 2 then 0 else field h.mem y j := by
  have hhd : h.freeList < 2 ^ 32 := by
    rcases freeList_mem hl hsub with h0 | hm
    · omega
    · exact hA.lt _ hm
  show field (setPrevIf { h with mem := setNext (setPrev h.mem b 0) b h.freeList } h.freeList b).mem y j = _
  rw [setPrevIf_field _ (freeList_mem hl hsub) hA hy hj (hA.lt b hb)]
  unfold setNext setPrev
  rw [field_setField hA hy hj (by omega) hhd hb, field_setField hA hy hj (by omega) (by omega) hb]

theorem pushFree_keeps : KeepsMarks A h.mem (pushFree h b).mem := by
  intro y hy
  unfold magic size
  rw [pushFree_field hA hb hl hsub hy (by omega), pushFree_field hA hb hl hsub hy (by omega)]
  simp

theorem pushFree_list (hbl : b ∉ fl) : FreeList (pushFree h b).mem (pushFree h b).freeList (b :: fl) := by
  have hbh : b ≠ h.freeList := by
    rcases freeList_mem hl hsub with h0 | -
    · rw [h0]
      exact hA.ne_zero b hb
    intro he
    have hd := hl.head_eq
    cases fl with
    | nil => exact hA.ne_zero b hb (he.trans hd)
    | cons x fl => exact hbl (by rw [he, hd]; exact List.mem_cons_self)
  show FreeList (pushFree h b).mem b (b :: fl)
  refine hl.push hbl (hA.ne_zero b hb) (fun y hy => ?_) (fun y hy => ?_) ?_ ?_
  · have hyb : y ≠ b := by rintro rfl; exact hbl hy
    unfold next
    rw [pushFree_field hA hb hl hsub (hsub y hy) (by omega)]
    simp [hyb]
  · have hyb : y ≠ b := by rintro rfl; exact hbl hy
    unfold prev
    rw [pushFree_field hA hb hl hsub (hsub y hy) (by omega)]
    simp [hyb]
  · unfold next
    rw [pushFree_field hA hb hl hsub hb (by omega)]
    simp
  · unfold prev
    rw [pushFree_field hA hb hl hsub hb (by omega)]
    simp [hbh]

end

/-! ### `splitBlock` -/

/-- All four words of the header at `a`. -/
def writeHeader (m : Bytes) (a mg sz p n : Nat) : Bytes := setNext (setPrev (setSize (setMagic m a mg) a sz) a p) a n

theorem writeHeader_field (hA : Spaced A) (m : Bytes) {a mg sz p n : Nat} (ha : a ∈ A) (hmg : mg < 2 ^ 32)
    (hsz : sz < 2 ^ 32) (hp : p < 2 ^ 32) (hn : n < 2 ^ 32) (hy : y ∈ A) (hj : j < 4) :
    field (writeHeader m a mg sz p n) y j =
      if y = a then (if j = 3 then n else if j = 2 then p else if j = 1 then sz else mg) else field m y j := by
  unfold writeHeader setNext setPrev setSize setMagic
  rw [field_setField hA hy hj (by omega) hn ha, field_setField hA hy hj (by omega) hp ha,
    field_setField hA hy hj (by omega) hsz ha, field_setField hA hy hj (by omega) hmg ha]
  by_cases hya : y = a
  · simp only [hya, true_and, if_true]
    split
    · rfl
    split
    · rfl
    · split
      · rfl
      · rw [if_pos (by omega)]
  · simp only [hya, false_and, if_false]

section
variable (hA : Spaced A) {h : Heap} {b want : Nat} {l r : List Nat}
  (hl : FreeList h.mem h.freeList (l ++ b :: r)) (hsub : ∀ x ∈ l ++ b :: r, x ∈ A)
  (hsp : b + headerSize + want ∈ A) (hwant : want + headerSize ≤ size h.mem b)
include hA hl hsub hsp hwant

/-- The header of the new block is written, then the links on both sides are turned to it. -/
theorem splitBlock_eq {sp : Nat} (hspe : sp = b + headerSize + want)
    (hh1 : h1 = { h with
      mem := writeHeader h.mem sp magicFree (size h.mem b - want - headerSize) (prev h.mem b) (next h.mem b) })
    (hh2 : h2 = setPrevIf (setNextOrHead h1 (prev h.mem b) sp) (next h.mem b) sp) :
    splitBlock h b want = { h2 with mem := setSize h2.mem b want } := by
  subst hh2 hh1
  rw [← hspe] at hsp
  have hb : b ∈ A := hsub b (by simp)
  have hspb : b ≠ sp := by
    unfold headerSize at hspe
    omega
  have hsz := size_lt h.mem b
  have hspu : u32 (b + headerSize + want) = sp := hspe ▸ Nat.mod_eq_of_lt (hA.lt _ hsp)
  have hrs : u32 (size h.mem b + 2 ^ 33 - want - headerSize) = size h.mem b - want - headerSize := by
    unfold u32 headerSize at *
    omega
  -- a read of `b`'s header over a write to the new one
  have keep : ∀ (m : Bytes) (k v : Nat), k < 4 → v < 2 ^ 32 → ∀ j < 4,
      field (setField m sp k v) b j = field m b j := by
    intro m k v hk hv j hj
    rw [field_setField hA hb hj hk hv hsp, if_neg fun he => hspb he.1]
  have k1 : ∀ j < 4, field (setMagic h.mem sp magicFree) b j = field h.mem b j :=
    keep _ 0 _ (by omega) (by decide)
  generalize hm1 : setMagic h.mem sp magicFree = m1 at k1
  have k2 : ∀ j < 4, field (setSize m1 sp (size h.mem b - want - headerSize)) b j = field h.mem b j :=
    fun j hj => (keep _ 1 _ (by omega) (by omega) j hj).trans (k1 j hj)
  generalize hm2 : setSize m1 sp (size h.mem b - want - headerSize) = m2 at k2
  have k3 : ∀ j < 4, field (setPrev m2 sp (prev h.mem b)) b j = field h.mem b j :=
    fun j hj => (keep _ 2 _ (by omega) (prev_lt ..) j hj).trans (k2 j hj)
  generalize hm3 : setPrev m2 sp (prev h.mem b) = m3 at k3
  have k4 : ∀ j < 4, field (setNext m3 sp (next h.mem b)) b j = field h.mem b j :=
    fun j hj => (keep _ 3 _ (by omega) (next_lt ..) j hj).trans (k3 j hj)
  generalize hm4 : setNext m3 sp (next h.mem b) = m4 at k4
  have hwr : writeHeader h.mem sp magicFree (size h.mem b - want - headerSize) (prev h.mem b)
      (next h.mem b) = m4 := by
    unfold writeHeader
    rw [hm1, hm2, hm3, hm4]
  have k5 : next (setNextOrHead { h with mem := m4 } (prev h.mem b) sp).mem b = next h.mem b := by
    unfold next
    rw [setNextOrHead_field _ (prev_mem hl hsub) hA hb (by omega) (hA.lt _ hsp),
      if_neg fun he => prev_ne hl he.1.symm]
    exact k4 3 (by omega)
  rw [hwr]
  unfold splitBlock
  simp only [hspu, hm1, show size m1 b = size h.mem b from k1 1 (by omega), hrs, hm2,
    show prev m2 b = prev h.mem b from k2 2 (by omega), hm3,
    show next m3 b = next h.mem b from k3 3 (by omega), hm4,
    show prev m4 b = prev h.mem b from k4 2 (by omega), k5]

theorem splitBlock_relinked : Relinked A h (splitBlock h b want) := by
  have hb : b ∈ A := hsub b (by simp)
  rw [splitBlock_eq hA hl hsub hsp hwant rfl rfl rfl]
  have hwr : Within A h.mem (writeHeader h.mem (b + headerSize + want) magicFree (size h.mem b - want - headerSize)
      (prev h.mem b) (next h.mem b)) :=
    ((((Within.refl A h.mem).setField hsp (by omega)).setField hsp (by omega)).setField hsp
      (by omega)).setField (k := 3) hsp (by omega)
  have h1 : Relinked A h { h with mem := writeHeader h.mem (b + headerSize + want) magicFree
                                    (size h.mem b - want - headerSize) (prev h.mem b) (next h.mem b) } :=
    ⟨rfl, rfl, rfl, hwr⟩
  have h2 := (h1.trans (setNextOrHead_relinked (v := b + headerSize + want) _ (prev_mem hl hsub))).trans
    (setPrevIf_relinked (v := b + headerSize + want) _ (next_mem hl hsub))
  exact ⟨h2.heapStart, h2.heapEnd, h2.heapCap, h2.within.setField (k := 1) hb (by omega)⟩

theorem splitBlock_field (hy : y ∈ A) (hj : j < 4) : field (splitBlock h b want).mem y j =
    if y = b ∧ j = 1 then want
    else if y = next h.mem b ∧ j = 2 then b + headerSize + want
    else if y = prev h.mem b ∧ j = 3 then b + headerSize + want
    else if y = b + headerSize + want then
      (if j = 3 then next h.mem b else if j = 2 then prev h.mem b
        else if j = 1 then size h.mem b - want - headerSize else magicFree)
    else field h.mem y j := by
  have hb : b ∈ A := hsub b (by simp)
  have hsz := size_lt h.mem b
  rw [splitBlock_eq hA hl hsub hsp hwant rfl rfl rfl]
  unfold setSize
  rw [field_setField hA hy hj (by omega) (by omega) hb,
    setPrevIf_field _ (next_mem hl hsub) hA hy hj (hA.lt _ hsp),
    setNextOrHead_field _ (prev_mem hl hsub) hA hy hj (hA.lt _ hsp),
    writeHeader_field hA h.mem hsp (by decide) (by omega) (prev_lt ..) (next_lt ..) hy hj]

/-- The new block is free, the sizes of the two parts are `want` and what is left. -/
theorem splitBlock_marks (hy : y ∈ A) :
    magic (splitBlock h b want).mem y = (if y = b + headerSize + want then magicFree else magic h.mem y) ∧
    size (splitBlock h b want).mem y = if y = b then want
      else if y = b + headerSize + want then size h.mem b - want - headerSize else size h.mem y := by
  constructor
  · unfold magic
    rw [splitBlock_field hA hl hsub hsp hwant hy (by omega)]
    simp
  · show field (splitBlock h b want).mem y 1 = _
    rw [splitBlock_field hA hl hsub hsp hwant hy (by omega)]
    simp only [and_true, Nat.reduceEqDiff, and_false, if_false, if_true]
    rfl

variable (hfresh : b + headerSize + want ∉ l ++ b :: r)
include hfresh

theorem splitBlock_list : FreeList (splitBlock h b want).mem (splitBlock h b want).freeList
    (l ++ (b + headerSize + want) :: r) := by
  have hhd : (splitBlock h b want).freeList = if prev h.mem b = 0 then b + headerSize + want else h.freeList := by
    rw [splitBlock_eq hA hl hsub hsp hwant rfl rfl rfl]
    rw [setPrevIf_freeList, setNextOrHead_freeList]
  have hrs : ∀ y ∈ l ++ r, y ∈ l ++ b :: r := mem_of_mem_rest fun _ hx => hx
  have hne : ∀ y ∈ l ++ r, y ≠ b + headerSize + want := by
    rintro y hy rfl
    exact hfresh (hrs _ hy)
  have hp : b + headerSize + want ≠ prev h.mem b := by
    intro he
    rcases hl.prev_eq_or_mem (x := b) (by simp) with h0 | hm
    · exact hA.ne_zero _ hsp (he.trans h0)
    · exact hfresh (he ▸ hm)
  have hn : b + headerSize + want ≠ next h.mem b := by
    intro he
    rcases hl.next_eq_or_mem (x := b) (by simp) with h0 | hm
    · exact hA.ne_zero _ hsp (he.trans h0)
    · exact hfresh (he ▸ hm)
  rw [hhd]
  refine hl.replace (fun hm => hfresh (hrs _ hm)) (hA.ne_zero _ hsp) (fun y hy => ?_) (fun y hy => ?_) ?_ ?_
  · show field (splitBlock h b want).mem y 3 = _
    rw [splitBlock_field hA hl hsub hsp hwant (hsub y (hrs y hy)) (by omega)]
    simp only [hne y hy, Nat.reduceEqDiff, and_false, and_true, if_false]
    rfl
  · show field (splitBlock h b want).mem y 2 = _
    rw [splitBlock_field hA hl hsub hsp hwant (hsub y (hrs y hy)) (by omega)]
    simp only [hne y hy, Nat.reduceEqDiff, and_false, and_true, if_false]
    rfl
  · unfold next
    rw [splitBlock_field hA hl hsub hsp hwant hsp (by omega)]
    simp [hp, next]
  · unfold prev
    rw [splitBlock_field hA hl hsub hsp hwant hsp (by omega)]
    simp [hn, prev]

end

end KumOS.Kmalloc
