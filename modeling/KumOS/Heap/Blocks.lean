import KumOS.Heap.FreeList
import KumOS.Lib.Tiling

/-!
# The blocks of the kernel heap

The abstract heap is a list of blocks in address order, each free or used for a
request of so many bytes.  `Shape h bs fl` says that the memory of `h` holds
the blocks `bs` with the free ones linked in the order `fl`; there is one lemma
for every way `kmalloc` and `kfree` change it.
-/

namespace KumOS.Kmalloc

open Lib
open List (mem_append mem_cons mem_map mem_singleton perm_middle)

variable {n x : Nat} {h : Heap}
variable {fl fl1 fl2 : List Nat}

structure Blk where
  addr : Nat
  size : Nat
  /-- the number of bytes asked for, `none` for a free block -/
  requested : Option Nat

variable {bs : List Blk}

variable {b c : Blk} {l r : List Blk}

namespace Blk

def len (b : Blk) : Nat := headerSize + b.size

def isFree (b : Blk) : Bool := b.requested.isNone

/-- The magic word its header has. -/
def mark (b : Blk) : Nat := if b.isFree then magicFree else magicUsed

/-- The pointer the client has, with the size it asked for. -/
def alloc (b : Blk) : Option (Nat × Nat) := b.requested.map fun n => (b.addr + headerSize, n)

end Blk

def addrs (bs : List Blk) : List Nat := bs.map Blk.addr
def freeAddrs (bs : List Blk) : List Nat := (bs.filter Blk.isFree).map Blk.addr
def allocs (bs : List Blk) : List (Nat × Nat) := bs.filterMap Blk.alloc

section
variable (l r : List Blk) (b : Blk)

@[simp] theorem addrs_append : addrs (l ++ r) = addrs l ++ addrs r := List.map_append ..
@[simp] theorem addrs_cons : addrs (b :: r) = b.addr :: addrs r := rfl
@[simp] theorem freeAddrs_append : freeAddrs (l ++ r) = freeAddrs l ++ freeAddrs r := by
  simp [freeAddrs]
@[simp] theorem allocs_append : allocs (l ++ r) = allocs l ++ allocs r := List.filterMap_append

theorem freeAddrs_cons_free (h : b.requested = none) : freeAddrs (b :: r) = b.addr :: freeAddrs r := by
  simp [freeAddrs, Blk.isFree, h]

theorem freeAddrs_cons_used (h : b.requested = some n) : freeAddrs (b :: r) = freeAddrs r := by
  simp [freeAddrs, Blk.isFree, h]

theorem allocs_cons_free (h : b.requested = none) : allocs (b :: r) = allocs r := by
  simp [allocs, Blk.alloc, h]

theorem allocs_cons_used (h : b.requested = some n) : allocs (b :: r) = (b.addr + headerSize, n) :: allocs r := by
  simp [allocs, Blk.alloc, h]

end

theorem mem_addrs (h : b ∈ bs) : b.addr ∈ addrs bs := List.mem_map_of_mem h

theorem mem_middle {α : Type} {x y : α} {l r : List α} : y ∈ l ++ x :: r ↔ y = x ∨ y ∈ l ++ r := by
  simp only [mem_append, mem_cons]
  tauto

/-! ## Layout -/

/-- The blocks fill `[s, e)`; sizes are multiples of 8 and no smaller than what was asked for. -/
structure Layout (s e : Nat) (bs : List Blk) : Prop where
  tiles : Tiles Blk.addr Blk.len s bs e
  aligned : ∀ b ∈ bs, 8 ∣ b.size
  fits : ∀ b ∈ bs, ∀ n, b.requested = some n → n ≤ b.size

namespace Layout

variable {s e : Nat} {bs ms : List Blk}

theorem exchange (h : Layout s e (l ++ b :: r)) (hm : Layout b.addr (b.addr + b.len) ms) :
    Layout s e (l ++ (ms ++ r)) where
  tiles := h.tiles.exchange hm.tiles
  aligned := by
    intro c hc
    rcases mem_append.1 hc with hc | hc
    · exact h.aligned c (List.mem_append_left _ hc)
    · rcases mem_append.1 hc with hc | hc
      · exact hm.aligned c hc
      · exact h.aligned c (by simp [hc])
  fits := by
    intro c hc
    rcases mem_append.1 hc with hc | hc
    · exact h.fits c (List.mem_append_left _ hc)
    · rcases mem_append.1 hc with hc | hc
      · exact hm.fits c hc
      · exact h.fits c (by simp [hc])

theorem single (ha : 8 ∣ b.size) (hf : ∀ n, b.requested = some n → n ≤ b.size) :
    Layout b.addr (b.addr + b.len) [b] where
  tiles := ⟨rfl, rfl⟩
  aligned := by
    intro c hc
    obtain rfl := mem_singleton.1 hc
    exact ha
  fits := by
    intro c hc
    obtain rfl := mem_singleton.1 hc
    exact hf

theorem append {m : Nat} (h : Layout s m l) (h' : Layout m e r) : Layout s e (l ++ r) where
  tiles := Tiles.append_iff.2 ⟨m, h.tiles, h'.tiles⟩
  aligned := fun c hc => (mem_append.1 hc).elim (h.aligned c) (h'.aligned c)
  fits := fun c hc => (mem_append.1 hc).elim (h.fits c) (h'.fits c)

theorem join (h : Layout s e (l ++ b :: c :: r)) :
    Layout s e (l ++ ⟨b.addr, b.size + (headerSize + c.size), none⟩ :: r) := by
  obtain ⟨h1, h2, h3⟩ := h.tiles.around
  have hb := h.aligned b (by simp)
  have hc := h.aligned c (by simp)
  have hrs : ∀ d ∈ l ++ r, d ∈ l ++ b :: c :: r := by
    intro d hd
    simp only [mem_append, mem_cons] at hd ⊢
    tauto
  refine ⟨Tiles.append_iff.2 ⟨_, h1, rfl, ?_⟩, ?_, ?_⟩
  · have he : b.addr + b.len + c.len = b.addr + (headerSize + (b.size + (headerSize + c.size))) := by
      unfold Blk.len
      omega
    rw [he] at h3
    exact h3
  · intro d hd
    rcases mem_middle.1 hd with rfl | hd
    · show 8 ∣ b.size + (headerSize + c.size)
      unfold headerSize
      omega
    · exact h.aligned d (hrs d hd)
  · intro d hd
    rcases mem_middle.1 hd with rfl | hd
    · intro n hn
      cases hn
    · exact h.fits d (hrs d hd)

theorem spaced (h : Layout s e bs) (hs : 0 < s) (he : e < 2 ^ 32) : Spaced (addrs bs) where
  apart := by
    intro a ha b hb
    obtain ⟨x, hx, rfl⟩ := mem_map.1 ha
    obtain ⟨y, hy, rfl⟩ := mem_map.1 hb
    rcases h.tiles.apart hx hy with rfl | h1 | h1
    · exact .inl rfl
    · unfold Blk.len at h1
      omega
    · unfold Blk.len at h1
      omega
  ne_zero := by
    intro a ha
    obtain ⟨x, hx, rfl⟩ := mem_map.1 ha
    have := h.tiles.mem hx
    omega
  lt := by
    intro a ha
    obtain ⟨x, hx, rfl⟩ := mem_map.1 ha
    have := h.tiles.mem hx
    omega

theorem addr_ne (h : Layout s e (l ++ b :: r)) (hc : c ∈ l ++ r) : c.addr ≠ b.addr := by
  obtain ⟨h1, h2⟩ := h.tiles.around
  rcases mem_append.1 hc with hc | hc
  · have := h1.mem hc
    unfold Blk.len headerSize at this
    omega
  · have := h2.mem hc
    unfold Blk.len headerSize at this
    omega

theorem eq_of_addr (h : Layout s e bs) (hb : b ∈ bs) (hc : c ∈ bs) (he : c.addr = b.addr) : c = b := by
  rcases h.tiles.apart hb hc with rfl | h1 | h1
  · rfl
  · unfold Blk.len headerSize at h1
    omega
  · unfold Blk.len headerSize at h1
    omega

theorem addr_dvd (h : Layout s e bs) (hs : 8 ∣ s) (hb : b ∈ bs) : 8 ∣ b.addr := by
  obtain ⟨ht, ha, -⟩ := h
  induction bs generalizing s with
  | nil => cases hb
  | cons c bs ih =>
    obtain ⟨h1, h2⟩ := ht
    rcases mem_cons.1 hb with rfl | hb
    · rwa [h1]
    refine ih ?_ hb h2 fun d hd => ha d (List.mem_cons_of_mem _ hd)
    have := ha c List.mem_cons_self
    unfold Blk.len headerSize
    omega

theorem payload_out (h : Layout s e bs) (hb : b ∈ bs) (h1 : b.addr + headerSize ≤ x)
    (h2 : x < b.addr + headerSize + b.size) : ∀ a ∈ addrs bs, x < a ∨ a + headerSize ≤ x := by
  intro a ha
  obtain ⟨c, hc, rfl⟩ := mem_map.1 ha
  rcases h.tiles.apart hb hc with rfl | h3 | h3
  · exact .inr h1
  · unfold Blk.len at h3
    omega
  · omega

theorem outside_out (h : Layout s e bs) (hx : x < s ∨ e ≤ x) : ∀ a ∈ addrs bs, x < a ∨ a + headerSize ≤ x := by
  intro a ha
  obtain ⟨c, hc, rfl⟩ := mem_map.1 ha
  have := h.tiles.mem hc
  unfold Blk.len at this
  omega

end Layout

/-! ## Shape -/

/-- What `kmalloc_init` is called with, and how far the heap reaches. -/
structure Bounds (h : Heap) : Prop where
  start_pos : 0 < h.heapStart
  start_dvd : 8 ∣ h.heapStart
  end_le : h.heapEnd ≤ h.heapCap
  cap_le : h.heapCap ≤ 0x40000000

theorem Bounds.relinked {A : List Nat} {h' : Heap} (hb : Bounds h) (hr : Relinked A h h') : Bounds h' := by
  obtain ⟨h1, h2, h3, h4⟩ := hb
  refine ⟨?_, ?_, ?_, ?_⟩
  · rwa [hr.heapStart]
  · rwa [hr.heapStart]
  · rwa [hr.heapEnd, hr.heapCap]
  · rwa [hr.heapCap]

structure Shape (h : Heap) (bs : List Blk) (fl : List Nat) : Prop extends Bounds h where
  layout : Layout h.heapStart h.heapEnd bs
  header : ∀ b ∈ bs, magic h.mem b.addr = b.mark ∧ size h.mem b.addr = b.size
  list : FreeList h.mem h.freeList fl
  perm : fl.Perm (freeAddrs bs)

namespace Shape

variable {bs : List Blk} {fl : List Nat}

theorem spaced (hs : Shape h bs fl) : Spaced (addrs bs) := by
  have := hs.end_le
  have := hs.cap_le
  exact hs.layout.spaced hs.start_pos (by omega)

theorem mem_list (hs : Shape h bs fl) : x ∈ fl ↔ ∃ b ∈ bs, b.requested = none ∧ b.addr = x := by
  rw [hs.perm.mem_iff]
  simp [freeAddrs, Blk.isFree, and_assoc]

theorem list_sub (hs : Shape h bs fl) : ∀ x ∈ fl, x ∈ addrs bs := by
  intro x hx
  obtain ⟨b, hb, -, rfl⟩ := hs.mem_list.1 hx
  exact mem_addrs hb

end Shape

theorem mark_free (hb : b.requested = none) : b.mark = magicFree := by
  simp [Blk.mark, Blk.isFree, hb]

theorem mark_used (hb : b.requested = some n) : b.mark = magicUsed := by
  simp [Blk.mark, Blk.isFree, hb]

/-! ## Neighbours -/

/-- No free block is followed by another one. -/
def Apart (bs : List Blk) : Prop :=
  ∀ a ∈ bs, ∀ c ∈ bs, a.requested = none → c.requested = none → c.addr ≠ a.addr + a.len

theorem Apart.mono {bs' : List Blk} (h : Apart bs) (hsub : ∀ a ∈ bs', a.requested = none → a ∈ bs) : Apart bs' :=
  fun a ha c hc hfa hfc => h a (hsub a ha hfa) c (hsub c hc hfc) hfa hfc

/-- With one more free block, behind which none is free. -/
theorem apart_insert (hfree : b.requested = none) (h : Apart (l ++ r))
    (hnx : ∀ c ∈ l ++ r, c.requested = none → c.addr ≠ b.addr + b.len) :
    Apart (l ++ b :: r) ↔ ∀ a ∈ l ++ r, a.requested = none → b.addr ≠ a.addr + a.len := by
  constructor
  · intro h' a ha hf
    exact h' a (mem_middle.2 (.inr ha)) b (by simp) hf hfree
  · intro hpv a ha c hc hfa hfc
    rcases mem_middle.1 ha with rfl | ha'
    · rcases mem_middle.1 hc with rfl | hc'
      · unfold Blk.len headerSize
        omega
      · exact hnx c hc' hfc
    · rcases mem_middle.1 hc with rfl | hc'
      · exact hpv a ha' hfa
      · exact h a ha' c hc' hfa hfc

/-! ## A free block is used -/

section
variable {fl1 fl2 : List Nat} (hs : Shape h (l ++ b :: r) (fl1 ++ b.addr :: fl2))
  (hfree : b.requested = none)
include hs

theorem addr_not_mem_rest : b.addr ∉ fl1 ++ fl2 := (List.nodup_cons.1 (List.nodup_middle.1 hs.list.nodup)).1

include hfree

theorem perm_without : (fl1 ++ fl2).Perm (freeAddrs l ++ freeAddrs r) := by
  have hp := hs.perm
  rw [freeAddrs_append, freeAddrs_cons_free _ _ hfree] at hp
  exact (perm_middle.symm.trans (hp.trans perm_middle)).cons_inv

theorem take_whole (hn : n ≤ b.size) :
    Shape (markUsed (unlink h b.addr) b.addr) (l ++ { b with requested := some n } :: r) (fl1 ++ fl2) ∧
    Relinked (addrs (l ++ b :: r)) h (markUsed (unlink h b.addr) b.addr) := by
  have hA := hs.spaced
  have hb : b.addr ∈ addrs (l ++ b :: r) := mem_addrs (by simp)
  have hsub := hs.list_sub
  have hrel := (unlink_relinked hA hs.list hsub).trans (markUsed_relinked hb)
  refine ⟨?_, hrel⟩
  exact
    { toBounds := hs.toBounds.relinked hrel
      layout := by
        rw [hrel.heapStart, hrel.heapEnd]
        refine hs.layout.exchange (Layout.single (b := { b with requested := some n }) (hs.layout.aligned b (by simp)) ?_)
        intro k hk
        cases hk
        exact hn
      header := by
        intro c hc
        rcases mem_middle.1 hc with rfl | hc
        · obtain ⟨hm, hz⟩ := markUsed_marks hA hb hb
          rw [hm, hz, if_pos rfl, (unlink_keeps hA hs.list hsub _ hb).2, (hs.header b (by simp)).2]
          exact ⟨rfl, rfl⟩
        have hcm : c ∈ l ++ b :: r := mem_middle.2 (.inr hc)
        obtain ⟨hm, hz⟩ := markUsed_marks hA hb (mem_addrs hcm)
        obtain ⟨hm1, hz1⟩ := unlink_keeps hA hs.list hsub _ (mem_addrs hcm)
        rw [hm, hz, if_neg (hs.layout.addr_ne hc), hm1, hz1]
        exact hs.header c hcm
      list := markUsed_list hA hb (mem_of_mem_rest hsub) (addr_not_mem_rest hs) (unlink_list hA hs.list hsub)
      perm := by
        rw [freeAddrs_append, freeAddrs_cons_used _ _ rfl]
        exact perm_without hs hfree }

end

/-- Block `b` cut into `want` bytes in use and a free rest. -/
structure Cut (b b1 b2 : Blk) (want n : Nat) : Prop where
  fits : n ≤ want
  dvd : 8 ∣ want
  room : want + headerSize ≤ b.size
  used : b1 = ⟨b.addr, want, some n⟩
  rest : b2 = ⟨b.addr + headerSize + want, b.size - want - headerSize, none⟩

section
variable {b1 b2 : Blk} {want : Nat} (hc : Cut b b1 b2 want n)
include hc

theorem Cut.parts (hb : 8 ∣ b.size) : Layout b.addr (b.addr + b.len) ([b1] ++ [b2]) := by
  obtain ⟨hn, hw, hroom, h1, h2⟩ := hc
  have hrs : 8 ∣ b.size - want - headerSize := by
    unfold headerSize
    omega
  have hl1 : Layout b1.addr (b1.addr + b1.len) [b1] := by
    refine Layout.single (by rwa [h1]) fun k hk => ?_
    rw [h1] at hk ⊢
    cases hk
    exact hn
  have hl2 : Layout b2.addr (b2.addr + b2.len) [b2] := by
    refine Layout.single (by rwa [h2]) fun k hk => ?_
    rw [h2] at hk
    cases hk
  have he0 : b1.addr = b.addr := by rw [h1]
  have he1 : b1.addr + b1.len = b2.addr := by
    rw [h1, h2]
    simp only [Blk.len]
    omega
  have he2 : b2.addr + b2.len = b.addr + b.len := by
    rw [h2]
    simp only [Blk.len]
    omega
  rw [he1, he0] at hl1
  rw [he2] at hl2
  exact hl1.append hl2

/-- The rest lies inside the old block, so at no block's address. -/
theorem Cut.fresh {s e : Nat} (hl : Layout s e (l ++ b :: r)) (hcm : c ∈ l ++ b :: r) :
    c.addr ≠ b.addr + headerSize + want := by
  have hroom := hc.room
  rcases hl.tiles.apart (x := b) (by simp) hcm with rfl | h1 | h1 <;>
    unfold Blk.len headerSize at * <;> omega

theorem Cut.old_mem (hcm : c ∈ l ++ b :: r) : c.addr ∈ addrs (l ++ b1 :: b2 :: r) := by
  have he0 : b1.addr = b.addr := by rw [hc.used]
  simp only [addrs_append, addrs_cons, mem_append, mem_cons]
  rcases mem_append.1 hcm with hm | hm
  · exact .inl (mem_addrs hm)
  · rcases mem_cons.1 hm with rfl | hm
    · exact .inr (.inl he0.symm)
    · exact .inr (.inr (.inr (mem_addrs hm)))

/-- `want` bytes are taken, the rest is a new free block in the place of the old one in the list. -/
theorem take_split (hs : Shape h (l ++ b :: r) (fl1 ++ b.addr :: fl2)) (hfree : b.requested = none) :
    Shape (markUsed (splitBlock h b.addr want) b.addr) (l ++ b1 :: b2 :: r)
      (fl1 ++ (b.addr + headerSize + want) :: fl2) ∧
    Relinked (addrs (l ++ b1 :: b2 :: r)) h (markUsed (splitBlock h b.addr want) b.addr) := by
  have hend := hs.end_le
  have hcap := hs.cap_le
  have hsz := (hs.header b (by simp)).2
  have hlay : Layout h.heapStart h.heapEnd (l ++ b1 :: b2 :: r) :=
    hs.layout.exchange (hc.parts (hs.layout.aligned b (by simp)))
  have hA : Spaced (addrs (l ++ b1 :: b2 :: r)) := hlay.spaced hs.start_pos (by omega)
  have hold := fun (c : Blk) (hcm : c ∈ l ++ b :: r) => hc.old_mem hcm
  have hnew := fun (c : Blk) (hcm : c ∈ l ++ b :: r) => hc.fresh hs.layout hcm
  have hsub : ∀ x ∈ fl1 ++ b.addr :: fl2, x ∈ addrs (l ++ b1 :: b2 :: r) := by
    intro x hx
    obtain ⟨c, hcm, -, rfl⟩ := hs.mem_list.1 hx
    exact hold c hcm
  have hb : b.addr ∈ addrs (l ++ b1 :: b2 :: r) := hold b (by simp)
  have hsp : b.addr + headerSize + want ∈ addrs (l ++ b1 :: b2 :: r) := by
    rw [show b.addr + headerSize + want = b2.addr by rw [hc.rest]]
    exact mem_addrs (by simp)
  have hfs : b.addr + headerSize + want ∉ fl1 ++ b.addr :: fl2 := by
    intro hx
    obtain ⟨c, hcm, -, he⟩ := hs.mem_list.1 hx
    exact hnew c hcm he
  have hwant : want + headerSize ≤ size h.mem b.addr := by
    rw [hsz]
    exact hc.room
  have hrel := (splitBlock_relinked hA hs.list hsub hsp hwant).trans
    (markUsed_relinked hb)
  refine ⟨?_, hrel⟩
  exact
    { toBounds := hs.toBounds.relinked hrel
      layout := by
        rw [hrel.heapStart, hrel.heapEnd]
        exact hlay
      header := by
        intro c hcm
        obtain ⟨hm, hz⟩ := markUsed_marks hA hb (mem_addrs hcm)
        obtain ⟨hm1, hz1⟩ := splitBlock_marks hA hs.list hsub hsp hwant (mem_addrs hcm)
        rw [hm, hz, hm1, hz1]
        rcases mem_middle.1 hcm with rfl | hcm
        · rw [hc.used]
          simp only [if_true, and_true]
          rfl
        rcases mem_middle.1 hcm with rfl | hcm
        · rw [hc.rest]
          have hne := (hnew b (by simp)).symm
          simp only [if_neg hne, if_true, hsz, and_true]
          rfl
        · have hco : c ∈ l ++ b :: r := mem_middle.2 (.inr hcm)
          have hne := hs.layout.addr_ne hcm
          rw [if_neg hne, if_neg (hnew c hco), if_neg hne, if_neg (hnew c hco)]
          exact hs.header c hco
      list := by
        refine markUsed_list hA hb ?_ ?_ (splitBlock_list hA hs.list hsub hsp hwant hfs)
        · intro x hx
          rcases mem_middle.1 hx with rfl | hx
          · exact hsp
          · exact mem_of_mem_rest hsub x hx
        · intro hx
          rcases mem_middle.1 hx with he | hx
          · exact hnew b (by simp) he
          · exact addr_not_mem_rest hs hx
      perm := by
        rw [freeAddrs_append, freeAddrs_cons_used _ _ (by rw [hc.used]),
          freeAddrs_cons_free _ _ (by rw [hc.rest]), hc.rest]
        exact perm_middle.trans (((perm_without hs hfree).cons _).trans perm_middle.symm) }

end

/-! ## The heap grows -/

section
variable {bs : List Blk} {fl : List Nat} (hs : Shape h bs fl) {want : Nat}
  (hroom : h.heapEnd + (headerSize + want) ≤ h.heapCap)
include hs hroom

theorem extendHeap_eq : extendHeap h want = (h.heapEnd,
    { pushFree { h with mem := setSize (setMagic h.mem h.heapEnd magicFree) h.heapEnd want } h.heapEnd with
      heapEnd := h.heapEnd + (headerSize + want) }) := by
  have hcap := hs.cap_le
  have h1 : u32 (headerSize + want) = headerSize + want := Nat.mod_eq_of_lt (by omega)
  have h2 : u32 (h.heapEnd + (headerSize + want)) = h.heapEnd + (headerSize + want) := Nat.mod_eq_of_lt (by omega)
  have h3 : (pushFree { h with mem := setSize (setMagic h.mem h.heapEnd magicFree) h.heapEnd want }
      h.heapEnd).heapEnd = h.heapEnd := by
    unfold pushFree setPrevIf
    split <;> rfl
  unfold extendHeap
  simp only [h1, h2, h3]
  rw [if_neg (by omega)]

/-- With the new block, a free one, at the front of the list. -/
theorem extendHeap_shape (hw : 8 ∣ want) :
    Shape (extendHeap h want).2 (bs ++ [⟨h.heapEnd, want, none⟩]) (h.heapEnd :: fl) ∧
    Within (addrs (bs ++ [⟨h.heapEnd, want, none⟩])) h.mem (extendHeap h want).2.mem := by
  have hcap := hs.cap_le
  have hnew : Layout h.heapEnd (h.heapEnd + (headerSize + want)) [⟨h.heapEnd, want, none⟩] :=
    Layout.single (b := ⟨h.heapEnd, want, none⟩) hw (by intro k hk; cases hk)
  have hlay := hs.layout.append hnew
  generalize hbs : bs ++ [⟨h.heapEnd, want, none⟩] = bs' at hlay
  have hA : Spaced (addrs bs') := hlay.spaced hs.start_pos (by omega)
  have hb : h.heapEnd ∈ addrs bs' := by
    rw [← hbs, addrs_append]
    exact List.mem_append_right _ List.mem_cons_self
  have hold : ∀ c ∈ bs, c.addr ∈ addrs bs' ∧ c.addr ≠ h.heapEnd := by
    intro c hc
    constructor
    · rw [← hbs]
      exact mem_addrs (List.mem_append_left _ hc)
    · have := hs.layout.tiles.mem hc
      unfold Blk.len headerSize at this
      omega
  have hsub : ∀ x ∈ fl, x ∈ addrs bs' ∧ x ≠ h.heapEnd := by
    intro x hx
    obtain ⟨c, hc, -, rfl⟩ := hs.mem_list.1 hx
    exact hold c hc
  have hwant : want < 2 ^ 32 := by omega
  -- the header, then the link
  obtain ⟨hl1, hr1, hmark1⟩ := setField_marks hA hb (k := 0) (v := magicFree) (by omega) (by decide)
    (fun x hx => (hsub x hx).1) hs.list
  obtain ⟨hl0, hr0, hmark0⟩ := setField_marks (h := { h with mem := setField h.mem h.heapEnd 0 magicFree }) hA hb
    (k := 1) (by omega) hwant (fun x hx => (hsub x hx).1) hl1
  simp only [and_true, Nat.zero_ne_one, Nat.one_ne_zero, and_false, if_false] at hmark0 hmark1
  have hw0 := (hr1.trans hr0).within
  rw [extendHeap_eq hs hroom]
  unfold setSize setMagic
  generalize setField (setField h.mem h.heapEnd 0 magicFree) h.heapEnd 1 want = m at hl0 hmark0 hw0
  have hpush := pushFree_relinked (h := { h with mem := m }) hb hl0 fun x hx => (hsub x hx).1
  have hkeeps := pushFree_keeps (h := { h with mem := m }) hA hb hl0 fun x hx => (hsub x hx).1
  refine ⟨?_, fun x hx => (hpush.within x hx).trans (hw0 x hx)⟩
  exact
    { start_pos := by
        rw [hpush.heapStart]
        exact hs.start_pos
      start_dvd := by
        rw [hpush.heapStart]
        exact hs.start_dvd
      end_le := by
        rw [hpush.heapCap]
        exact hroom
      cap_le := by
        rw [hpush.heapCap]
        exact hcap
      layout := by
        rw [hpush.heapStart]
        exact hlay
      header := by
        intro c hc
        obtain ⟨hm, hz⟩ := hkeeps c.addr (mem_addrs hc)
        obtain ⟨hm0, hz0⟩ := hmark0 _ (mem_addrs hc)
        obtain ⟨hm1, hz1⟩ := hmark1 _ (mem_addrs hc)
        rw [hm, hz, hm0, hz0, hm1, hz1]
        rw [← hbs] at hc
        rcases mem_append.1 hc with hc | hc
        · rw [if_neg (hold c hc).2, if_neg (hold c hc).2]
          exact hs.header c hc
        · obtain rfl := mem_singleton.1 hc
          rw [if_pos rfl, if_pos rfl]
          exact ⟨rfl, rfl⟩
      list := pushFree_list hA hb hl0 (fun x hx => (hsub x hx).1) fun hx => (hsub _ hx).2 rfl
      perm := by
        rw [← hbs, freeAddrs_append]
        exact (hs.perm.cons _).trans (List.perm_append_singleton _ _).symm }

end

/-! ## A used block is freed -/

/-- `kfree` up to the call of `coalesce`. -/
theorem release (hs : Shape h (l ++ b :: r) fl) (hus : b.requested = some n) :
    let h1 := pushFree { h with mem := setMagic h.mem b.addr magicFree } b.addr
    Shape h1 (l ++ { b with requested := none } :: r) (b.addr :: fl) ∧ Relinked (addrs (l ++ b :: r)) h h1 := by
  have hA := hs.spaced
  have hb : b.addr ∈ addrs (l ++ b :: r) := mem_addrs (by simp)
  have hsub := hs.list_sub
  obtain ⟨hl0, hr1, hmark0⟩ :=
    setField_marks hA hb (k := 0) (v := magicFree) (by omega) (by decide) hsub hs.list
  simp only [and_true, Nat.one_ne_zero, and_false, if_false] at hmark0
  have hnotin : b.addr ∉ fl := by
    intro hx
    obtain ⟨c, hc, hcf, he⟩ := hs.mem_list.1 hx
    have hcb := hs.layout.eq_of_addr (by simp) hc he
    rw [hcb, hus] at hcf
    cases hcf
  unfold setMagic
  generalize setField h.mem b.addr 0 magicFree = m at hl0 hmark0 hr1 ⊢
  intro h1
  have hrel : Relinked (addrs (l ++ b :: r)) h h1 := hr1.trans (pushFree_relinked hb hl0 hsub)
  have hkeeps := pushFree_keeps (h := { h with mem := m }) hA hb hl0 hsub
  refine ⟨?_, hrel⟩
  exact
    { toBounds := hs.toBounds.relinked hrel
      layout := by
        rw [hrel.heapStart, hrel.heapEnd]
        exact hs.layout.exchange (Layout.single (b := { b with requested := none }) (hs.layout.aligned b (by simp))
          (by intro k hk; cases hk))
      header := by
        intro c hc
        rcases mem_middle.1 hc with rfl | hc
        · obtain ⟨hm, hz⟩ := hkeeps _ hb
          obtain ⟨hm0, hz0⟩ := hmark0 _ hb
          rw [hm, hz, hm0, hz0, if_pos rfl, (hs.header b (by simp)).2]
          exact ⟨rfl, rfl⟩
        have hcm : c ∈ l ++ b :: r := mem_middle.2 (.inr hc)
        obtain ⟨hm, hz⟩ := hkeeps _ (mem_addrs hcm)
        obtain ⟨hm0, hz0⟩ := hmark0 _ (mem_addrs hcm)
        rw [hm, hz, hm0, hz0, if_neg (hs.layout.addr_ne hc)]
        exact hs.header c hcm
      list := pushFree_list hA hb hl0 hsub hnotin
      perm := by
        have hp := hs.perm
        rw [freeAddrs_append, freeAddrs_cons_used _ _ hus] at hp
        rw [freeAddrs_append, freeAddrs_cons_free _ _ rfl]
        exact (hp.cons _).trans perm_middle.symm }

theorem merge (hs : Shape h (l ++ b :: c :: r) (fl1 ++ c.addr :: fl2)) (hbfree : b.requested = none)
    (hcfree : c.requested = none) :
    let h1 := unlink { h with mem := setSize h.mem b.addr (b.size + (headerSize + c.size)) } c.addr
    Shape h1 (l ++ ⟨b.addr, b.size + (headerSize + c.size), none⟩ :: r) (fl1 ++ fl2) ∧
    Relinked (addrs (l ++ b :: c :: r)) h h1 := by
  have hA := hs.spaced
  have hend := hs.end_le
  have hcap := hs.cap_le
  have hb : b.addr ∈ addrs (l ++ b :: c :: r) := mem_addrs (by simp)
  have hsub := hs.list_sub
  obtain ⟨-, hnx, hrs⟩ := hs.layout.tiles.around
  have hce := (hs.layout.tiles.mem (b := c) (by simp)).2
  have hlt : b.size + (headerSize + c.size) < 2 ^ 32 := by
    unfold Blk.len at hce hnx
    omega
  have hjoin := hs.layout.join
  generalize b.size + (headerSize + c.size) = z at hlt hjoin ⊢
  obtain ⟨hl0, hr1, hmark0⟩ := setField_marks hA hb (k := 1) (by omega) hlt hsub hs.list
  simp only [and_true, Nat.zero_ne_one, and_false, if_false] at hmark0
  unfold setSize
  generalize setField h.mem b.addr 1 z = m at hl0 hmark0 hr1 ⊢
  intro h1
  have hrel : Relinked (addrs (l ++ b :: c :: r)) h h1 := hr1.trans (unlink_relinked hA hl0 hsub)
  have hkeeps := unlink_keeps (h := { h with mem := m }) hA hl0 hsub
  refine ⟨?_, hrel⟩
  exact
    { toBounds := hs.toBounds.relinked hrel
      layout := by
        rw [hrel.heapStart, hrel.heapEnd]
        exact hjoin
      header := by
        intro d hd
        rcases mem_middle.1 hd with rfl | hd
        · obtain ⟨hm, hz⟩ := hkeeps _ hb
          obtain ⟨hm0, hz0⟩ := hmark0 _ hb
          rw [hm, hz, hm0, hz0, if_pos rfl, (hs.header b (by simp)).1, mark_free hbfree]
          exact ⟨rfl, rfl⟩
        have hne : d.addr ≠ b.addr := hs.layout.addr_ne (by
          simp only [mem_append, mem_cons] at hd ⊢
          tauto)
        have hdm : d ∈ l ++ b :: c :: r := by
          simp only [mem_append, mem_cons] at hd ⊢
          tauto
        obtain ⟨hm, hz⟩ := hkeeps _ (mem_addrs hdm)
        obtain ⟨hm0, hz0⟩ := hmark0 _ (mem_addrs hdm)
        rw [hm, hz, hm0, hz0, if_neg hne]
        exact hs.header d hdm
      list := unlink_list hA hl0 hsub
      perm := by
        have hp := hs.perm
        rw [freeAddrs_append, freeAddrs_cons_free _ _ hbfree, freeAddrs_cons_free _ _ hcfree] at hp
        rw [freeAddrs_append, freeAddrs_cons_free _ _ rfl]
        have hmid : (freeAddrs l ++ b.addr :: c.addr :: freeAddrs r).Perm
            (c.addr :: (freeAddrs l ++ b.addr :: freeAddrs r)) :=
          ((List.Perm.swap _ _ _).append_left _).trans perm_middle
        exact (perm_middle.symm.trans (hp.trans hmid)).cons_inv }

/-- `coalesce` keeps the used blocks as they are, and looks at the next block only. -/
theorem coalesce_shape (hs : Shape h (l ++ b :: r) fl) (hbfree : b.requested = none) :
    ∃ bs' fl', Shape (coalesce h b.addr) bs' fl' ∧ Relinked (addrs (l ++ b :: r)) h (coalesce h b.addr) ∧
      allocs bs' = allocs (l ++ b :: r) ∧ (∀ c ∈ l ++ b :: r, c.requested ≠ none → c ∈ bs') ∧
      (Apart (l ++ r) → (Apart bs' ↔ ∀ a ∈ l ++ r, a.requested = none → b.addr ≠ a.addr + a.len)) := by
  have hend := hs.end_le
  have hcap := hs.cap_le
  have hsz := (hs.header b (by simp)).2
  have hbe := (hs.layout.tiles.mem (b := b) (by simp)).2
  have hnx : u32 (b.addr + headerSize + size h.mem b.addr) = b.addr + b.len := by
    unfold Blk.len at *
    rw [hsz, u32, Nat.mod_eq_of_lt (by omega)]
    omega
  unfold coalesce
  simp only [hnx]
  split
  · rename_i hcond
    obtain ⟨hlt, hmagic⟩ := hcond
    rcases hs.layout.tiles.next with ⟨-, he⟩ | ⟨c, r', rfl, hc⟩
    · omega
    -- the next header is that of block `c`
    obtain ⟨hcm, hcz⟩ := hs.header c (by simp)
    have hce := (hs.layout.tiles.mem (b := c) (by simp)).2
    have hcfree : c.requested = none := by
      rw [← hc, hcm] at hmagic
      cases hr : c.requested with
      | none => rfl
      | some n =>
        rw [mark_used hr] at hmagic
        exact absurd hmagic (by decide)
    obtain ⟨fl1, fl2, rfl⟩ := List.append_of_mem (hs.mem_list.2 ⟨c, by simp, hcfree, rfl⟩)
    have hsum : u32 (size h.mem b.addr + (headerSize + size h.mem (b.addr + b.len))) =
        b.size + (headerSize + c.size) := by
      rw [← hc, hsz, hcz, u32, Nat.mod_eq_of_lt]
      unfold Blk.len at *
      omega
    obtain ⟨hs', hrel⟩ := merge hs hbfree hcfree
    rw [hsum, ← hc]
    refine ⟨_, _, hs', hrel, ?_, ?_, fun hap => ?_⟩
    · rw [allocs_append, allocs_append, allocs_cons_free _ _ hbfree, allocs_cons_free _ _ hcfree,
        allocs_cons_free _ _ rfl]
    · intro d hd hdu
      rcases mem_middle.1 hd with rfl | hd
      · exact absurd hbfree hdu
      · rcases mem_middle.1 hd with rfl | hd
        · exact absurd hcfree hdu
        · exact mem_middle.2 (.inr hd)
    · have hrs : Apart (l ++ r') := hap.mono fun d hd _ => mem_middle.2 (.inr hd)
      have hlen : b.addr + (headerSize + (b.size + (headerSize + c.size))) = c.addr + c.len := by
        unfold Blk.len at *
        omega
      rw [apart_insert rfl hrs]
      · refine ⟨fun h' d hd hf => ?_, fun h' d hd => h' d (mem_middle.2 (.inr hd))⟩
        rcases mem_middle.1 hd with rfl | hd
        · unfold Blk.len headerSize at *
          omega
        · exact h' d hd hf
      · intro d hd hf
        show d.addr ≠ b.addr + (headerSize + (b.size + (headerSize + c.size)))
        rw [hlen]
        exact hap c (by simp) d (mem_middle.2 (.inr hd)) hcfree hf
  · rename_i hcond
    refine ⟨_, _, hs, ⟨rfl, rfl, rfl, .refl _ _⟩, rfl, fun c hc _ => hc, fun hap => apart_insert hbfree hap ?_⟩
    intro c hc hf he
    have hcm : c ∈ l ++ b :: r := mem_middle.2 (.inr hc)
    have hce := (hs.layout.tiles.mem hcm).2
    refine hcond ⟨?_, ?_⟩
    · unfold Blk.len headerSize at *
      omega
    · rw [← he]
      exact (hs.header c hcm).1.trans (mark_free hf)

end KumOS.Kmalloc
