import Mathlib.Data.List.Nodup

/-!
# Doubly linked lists

`DList next prev null head xs`: from `head` on, the `next` pointers run through
the nodes `xs` to `null`, each node's `prev` is the node before it (`null` at
the front), and no node occurs twice.  The pointers are functions of the node;
`DList.push`, `DList.unlink` and `DList.replace` say what the usual pointer
assignments do, for any new pointer functions that differ from the old ones on
the list only where the assignments write.
-/

namespace Lib

open List (mem_append_left mem_append_right mem_cons mem_cons_of_mem mem_cons_self nodup_append nodup_cons)

variable {α : Type}
variable {h p x : α} {l r : List α}
variable {xs : List α} {b y : α}

/-- The part of a list entered with pointer `h` from node `p`. -/
def DSeg (next prev : α → α) (null : α) : α → α → List α → Prop
  | _, h, [] => h = null
  | p, h, x :: xs => h = x ∧ x ≠ null ∧ prev x = p ∧ DSeg next prev null x (next x) xs

structure DList (next prev : α → α) (null head : α) (xs : List α) : Prop where
  seg : DSeg next prev null null head xs
  nodup : xs.Nodup

variable {next prev next' prev' : α → α} {null : α}

theorem DSeg.congr (hs : DSeg next prev null p h xs) (hn : ∀ x ∈ xs, next' x = next x)
    (hp : ∀ x ∈ xs, prev' x = prev x) : DSeg next' prev' null p h xs := by
  induction xs generalizing p h with
  | nil => exact hs
  | cons x xs ih =>
    obtain ⟨h1, h2, h3, h4⟩ := hs
    refine ⟨h1, h2, (hp x mem_cons_self).trans h3, ?_⟩
    rw [hn x mem_cons_self]
    exact ih h4 (fun y hy => hn y (mem_cons_of_mem _ hy)) fun y hy => hp y (mem_cons_of_mem _ hy)

/-- A segment entered from `b` instead. -/
theorem DSeg.enter [DecidableEq α] (hs : DSeg next prev null p h xs) (hnd : xs.Nodup) (hn : ∀ x ∈ xs, next' x = next x)
    (hp : ∀ x ∈ xs, prev' x = if x = h then b else prev x) : DSeg next' prev' null b h xs := by
  cases xs with
  | nil => exact hs
  | cons x xs =>
    obtain ⟨h1, h2, -, h4⟩ := hs
    obtain ⟨hx, -⟩ := nodup_cons.1 hnd
    refine ⟨h1, h2, ?_, ?_⟩
    · rw [hp x mem_cons_self, if_pos h1.symm]
    · rw [hn x mem_cons_self]
      refine h4.congr (fun y hy => hn y (mem_cons_of_mem _ hy)) fun y hy => ?_
      rw [hp y (mem_cons_of_mem _ hy), if_neg]
      rintro rfl
      rw [h1] at hy
      exact hx hy

theorem DSeg.ne_null (hs : DSeg next prev null p h xs) (hx : x ∈ xs) : x ≠ null := by
  induction xs generalizing p h with
  | nil => cases hx
  | cons y xs ih =>
    obtain ⟨-, h2, -, h4⟩ := hs
    rcases mem_cons.1 hx with rfl | hx
    · exact h2
    · exact ih h4 hx

section

variable (hs : DSeg next prev null p h (l ++ x :: r))
include hs

/-- The node before `x` is the one the segment is entered from, or lies in front of `x`. -/
theorem DSeg.prev_mem : prev x ∈ p :: l := by
  induction l generalizing p h with
  | nil =>
    obtain ⟨-, -, h3, -⟩ := hs
    rw [h3]
    exact mem_cons_self
  | cons y l ih =>
    obtain ⟨-, -, -, h4⟩ := hs
    exact mem_cons_of_mem _ (ih h4)

theorem DSeg.drop : DSeg next prev null x (next x) r := by
  induction l generalizing p h with
  | nil => exact hs.2.2.2
  | cons y l ih => exact ih hs.2.2.2

/-- The node after `x` is the first of the rest, or `null`. -/
theorem DSeg.next_eq : next x = r.headD null := by
  have hr := hs.drop
  cases r with
  | nil => exact hr
  | cons y r => exact hr.1

end

theorem DSeg.unique {q : α} {ys : List α} (hs : DSeg next prev null p h xs) (hs' : DSeg next prev null q h ys) :
    xs = ys := by
  induction xs generalizing p q h ys with
  | nil =>
    cases ys with
    | nil => rfl
    | cons y ys => exact absurd (hs'.1.symm.trans hs) hs'.2.1
  | cons x xs ih =>
    cases ys with
    | nil => exact absurd (hs.1.symm.trans hs') hs.2.1
    | cons y ys =>
      obtain rfl : x = y := hs.1.symm.trans hs'.1
      rw [ih hs.2.2.2 hs'.2.2.2]

namespace DList

variable {head : α} {xs : List α}

theorem nil_iff : DList next prev null head [] ↔ head = null := ⟨fun h => h.seg, fun h => ⟨h, List.nodup_nil⟩⟩

section

variable (hl : DList next prev null head xs)
include hl

theorem congr (hn : ∀ x ∈ xs, next' x = next x) (hp : ∀ x ∈ xs, prev' x = prev x) : DList next' prev' null head xs :=
  ⟨hl.seg.congr hn hp, hl.nodup⟩

theorem ne_null (hx : x ∈ xs) : x ≠ null := hl.seg.ne_null hx

theorem head_eq : head = xs.headD null := by
  cases xs with
  | nil => exact hl.seg
  | cons x xs => exact hl.seg.1

theorem prev_eq_or_mem (hx : x ∈ xs) : prev x = null ∨ prev x ∈ xs := by
  obtain ⟨l, r, rfl⟩ := List.append_of_mem hx
  rcases mem_cons.1 hl.seg.prev_mem with h | h
  · exact .inl h
  · exact .inr (mem_append_left _ h)

theorem next_eq_or_mem (hx : x ∈ xs) : next x = null ∨ next x ∈ xs := by
  obtain ⟨l, r, rfl⟩ := List.append_of_mem hx
  have h := hl.seg.next_eq
  cases r with
  | nil => exact .inl h
  | cons y r =>
    right
    rw [h]
    simp

theorem nodup_null : (null :: xs).Nodup :=
  nodup_cons.2 ⟨fun h => hl.ne_null h rfl, hl.nodup⟩

end

/-- In front of `x` no node is the one after it, behind `x` none is the one before it. -/
theorem ne_next (hl : DList next prev null head (l ++ x :: r)) (hy : y ∈ l) : y ≠ next x := by
  have hx := hl.seg.next_eq
  rintro rfl
  cases r with
  | nil => exact hl.ne_null (mem_append_left _ hy) hx
  | cons z r =>
    have hd := (nodup_append.1 hl.nodup).2.2 _ hy z (by simp)
    exact hd hx

theorem ne_prev (hl : DList next prev null head (l ++ x :: r)) (hy : y ∈ r) : y ≠ prev x := by
  rintro rfl
  rcases mem_cons.1 hl.seg.prev_mem with h | h
  · exact hl.ne_null (mem_append_right _ (mem_cons_of_mem _ hy)) h
  · exact (nodup_append.1 hl.nodup).2.2 _ h (prev x) (mem_cons_of_mem _ hy) rfl

/-! ## Push -/

section
variable [DecidableEq α]

/-- A new node at the front: it points to the old head, whose `prev` is now the new node. -/
theorem push (hl : DList next prev null head xs) (hb : b ∉ xs) (hb0 : b ≠ null) (hn : ∀ x ∈ xs, next' x = next x)
    (hp : ∀ x ∈ xs, prev' x = if x = head then b else prev x) (hnb : next' b = head) (hpb : prev' b = null) :
    DList next' prev' null b (b :: xs) := by
  refine ⟨⟨rfl, hb0, hpb, ?_⟩, nodup_cons.2 ⟨hb, hl.nodup⟩⟩
  rw [hnb]
  exact hl.seg.enter hl.nodup hn hp

/-! ## Unlink and replace -/

/-- The front part stays when the pointer to `x` is turned to `into`, from
where the nodes `zs` follow. -/
theorem seg_splice {into : α} {zs : List α} (hs : DSeg next prev null p h (l ++ x :: r))
    (hnd : (p :: (l ++ x :: r)).Nodup) (hn : ∀ y ∈ l, next' y = if y = prev x then into else next y)
    (hp : ∀ y ∈ l, prev' y = prev y) (hz : DSeg next' prev' null (prev x) into zs) :
    DSeg next' prev' null p (if prev x = p then into else h) (l ++ zs) := by
  induction l generalizing p h with
  | nil =>
    obtain ⟨-, -, h3, -⟩ := hs
    rw [if_pos h3]
    rwa [h3] at hz
  | cons a l ih =>
    obtain ⟨h1, h2, h3, h4⟩ := hs
    rw [List.cons_append] at hnd
    obtain ⟨hpn, hnd'⟩ := nodup_cons.1 hnd
    have hpv : prev x ≠ p := by
      rintro rfl
      have hmem := h4.prev_mem
      apply hpn
      rw [mem_cons, List.mem_append]
      exact (mem_cons.1 hmem).imp id .inl
    have hrs := ih h4 hnd' (fun y hy => hn y (mem_cons_of_mem _ hy))
      fun y hy => hp y (mem_cons_of_mem _ hy)
    rw [if_neg hpv]
    refine ⟨h1, h2, (hp a mem_cons_self).trans h3, ?_⟩
    rw [hn a mem_cons_self]
    by_cases hax : prev x = a
    · rw [if_pos hax.symm]
      rwa [if_pos hax] at hrs
    · rw [if_neg (Ne.symm hax)]
      rwa [if_neg hax] at hrs

section

variable (hl : DList next prev null head (l ++ x :: r))
include hl

/-- The part behind `x`, entered from `back` instead. -/
theorem seg_behind {back : α}
    (hn : ∀ y ∈ r, next' y = next y) (hp : ∀ y ∈ r, prev' y = if y = next x then back else prev y) :
    DSeg next' prev' null back (next x) r := by
  exact hl.seg.drop.enter (nodup_append.1 hl.nodup).2.1.of_cons hn hp

/-- `x` is taken out: the node before it now points to the one after it, and back. -/
theorem unlink (hn : ∀ y ∈ l ++ r, next' y = if y = prev x then next x else next y)
    (hp : ∀ y ∈ l ++ r, prev' y = if y = next x then prev x else prev y) :
    DList next' prev' null (if prev x = null then next x else head) (l ++ r) := by
  have hbehind : DSeg next' prev' null (prev x) (next x) r := by
    refine hl.seg_behind (fun y hy => ?_) fun y hy => hp y (mem_append_right _ hy)
    rw [hn y (mem_append_right _ hy), if_neg (hl.ne_prev hy)]
  refine ⟨seg_splice hl.seg hl.nodup_null (fun y hy => hn y (mem_append_left _ hy)) (fun y hy => ?_) hbehind,
    hl.nodup.sublist (List.Sublist.append (List.Sublist.refl _) (List.sublist_cons_self _ _))⟩
  rw [hp y (mem_append_left _ hy), if_neg (hl.ne_next hy)]

/-- The new node `b` takes the place of `x`. -/
theorem replace (hb : b ∉ l ++ r) (hb0 : b ≠ null) (hn : ∀ y ∈ l ++ r, next' y = if y = prev x then b else next y)
    (hp : ∀ y ∈ l ++ r, prev' y = if y = next x then b else prev y) (hnb : next' b = next x)
    (hpb : prev' b = prev x) : DList next' prev' null (if prev x = null then b else head) (l ++ b :: r) := by
  have hbehind : DSeg next' prev' null b (next x) r := by
    refine hl.seg_behind (fun y hy => ?_) fun y hy => hp y (mem_append_right _ hy)
    rw [hn y (mem_append_right _ hy), if_neg (hl.ne_prev hy)]
  have hmid : DSeg next' prev' null (prev x) b (b :: r) := ⟨rfl, hb0, hpb, by rwa [hnb]⟩
  refine ⟨seg_splice hl.seg hl.nodup_null (fun y hy => hn y (mem_append_left _ hy)) (fun y hy => ?_) hmid, ?_⟩
  · rw [hp y (mem_append_left _ hy), if_neg (hl.ne_next hy)]
  · have hnd := hl.nodup.sublist (List.Sublist.append (List.Sublist.refl l) (List.sublist_cons_self x r))
    exact List.nodup_middle.2 (nodup_cons.2 ⟨hb, hnd⟩)

end

end

end DList

end Lib
