import KumOS.Lib.Count
import KumOS.Paging.Model

/-!
# Frames and the references to them

What `pmm_alloc`, `pmm_free` and `pmm_ref` do to the counts, and the law the
counts are there for: a frame is not handed out while somebody still refers to
it.  The counts are bytes and `pmm_ref` stops at 254 without a word, so the law
holds as long as no frame has more than 254 references
(`pmmAlloc_unreferenced`), and one reference more is enough to break it
(`pmmAlloc_while_referenced`).
-/

namespace KumOS.Paging

open Lib
open Function (update update_self update_of_ne)

variable {p p' : Pmm} {f i memKb : Nat} {fs : List Nat}
variable {p1 p2 q : Pmm} {gs : List Nat} {addr : Nat}

/-! ## Entries -/

theorem or_flags (x : Nat) {y : Nat} (hy : y < 4096) : x * pageSize ||| y = x * pageSize + y := by
  have h := Nat.two_pow_add_eq_or_of_lt (i := 12) (by omega) x
  rw [Nat.mul_comm x]
  exact h.symm

/-! ## One call -/

/-- The allocator after frame `i` is handed out. -/
def Pmm.take (p : Pmm) (i : Nat) : Pmm := { p with
  refs := update p.refs i 1
  usedFrames := u32 (p.usedFrames + 1)
  handed := i * pageSize :: p.handed }

theorem Pmm.take_refs_self (p : Pmm) (i : Nat) : (p.take i).refs i = 1 :=
  show update p.refs i 1 i = 1 from update_self ..

theorem Pmm.take_refs_ne (p : Pmm) (h : f ≠ i) : (p.take i).refs f = p.refs f :=
  show update p.refs i 1 f = p.refs f from update_of_ne h ..

/-- A frame `pmm_alloc` may hand out. -/
structure Pmm.Free (p : Pmm) (i : Nat) : Prop where
  ge : p.baseFrame ≤ i
  lt : i < p.baseFrame + p.totalFrames
  max : i < 65536
  zero : p.refs i = 0

theorem Pmm.Free.addr_ne (h : p.Free i) (hbs : 0 < p.baseFrame) : i * pageSize ≠ 0 := by
  have := h.ge
  unfold pageSize
  omega

/-- `pmm_alloc` hands out the first free frame. -/
theorem pmmAlloc_cases (p : Pmm) :
    (pmmAlloc p = (0, p) ∧ ∀ i, ¬ p.Free i) ∨
      ∃ i, p.Free i ∧ (∀ j, j < i → ¬ p.Free j) ∧ pmmAlloc p = (i * pageSize, p.take i) := by
  have hpred : ∀ i, (decide (i < pmmMaxFrames) && decide (p.refs i = 0)) = true ↔ i < 65536 ∧ p.refs i = 0 := by
    intro i
    rw [Bool.and_eq_true, decide_eq_true_eq, decide_eq_true_eq]
    rfl
  unfold pmmAlloc
  cases hf : (List.range' p.baseFrame p.totalFrames).find? fun i => i < pmmMaxFrames && p.refs i = 0 with
  | none =>
    refine .inl ⟨rfl, fun i hi => ?_⟩
    have hm : i ∈ List.range' p.baseFrame p.totalFrames := List.mem_range'_1.2 ⟨hi.ge, hi.lt⟩
    exact List.find?_eq_none.1 hf i hm ((hpred i).2 ⟨hi.max, hi.zero⟩)
  | some i =>
    have hm := List.mem_range'_1.1 (List.mem_of_find?_eq_some hf)
    obtain ⟨hmax, hze⟩ := (hpred i).1 (List.find?_some (p := fun i => decide (i < pmmMaxFrames) && decide (p.refs i = 0)) hf)
    have haddr : u32 (i * pageSize) = i * pageSize := by
      unfold u32 pageSize
      omega
    refine .inr ⟨i, ⟨hm.1, hm.2, hmax, hze⟩, fun j hj hfr => ?_, ?_⟩
    · -- an earlier free frame would have been found
      obtain ⟨-, as, bs, happ, has⟩ := List.find?_eq_some_iff_append.1 hf
      have hjm : j ∈ List.range' p.baseFrame p.totalFrames := List.mem_range'_1.2 ⟨hfr.ge, hfr.lt⟩
      have hsorted : (List.range' p.baseFrame p.totalFrames).Pairwise (· < ·) := List.pairwise_lt_range'
      rw [happ] at hjm hsorted
      rcases List.mem_append.1 hjm with hja | hjb
      · have := has j hja
        rw [(hpred j).2 ⟨hfr.max, hfr.zero⟩] at this
        cases this
      rcases List.mem_cons.1 hjb with rfl | hjb
      · omega
      · have := (List.pairwise_cons.1 (List.pairwise_append.1 hsorted).2.1).1 j hjb
        omega
    · simp only [haddr]
      rfl

/-- The frame of the address `pmm_alloc` returned. -/
theorem frameIdx_mul (i : Nat) : frameIdx (i * pageSize) = i := by
  unfold frameIdx pageSize
  omega

theorem pmmFree_refs (p : Pmm) (addr f : Nat) : (pmmFree p addr).refs f =
    if f = frameIdx addr ∧ f < 65536 then p.refs f - 1 else p.refs f := by
  by_cases hc : pmmMaxFrames ≤ frameIdx addr ∨ p.refs (frameIdx addr) = 0
  · have hp : pmmFree p addr = p := if_pos hc
    unfold pmmMaxFrames at hc
    rw [hp]
    split
    · rename_i hf
      obtain ⟨rfl, hmax⟩ := hf
      omega
    · rfl
  have hp : (pmmFree p addr).refs = update p.refs (frameIdx addr) (p.refs (frameIdx addr) - 1) := by
    unfold pmmFree
    rw [if_neg hc]
  unfold pmmMaxFrames at hc
  rw [hp]
  by_cases hf : f = frameIdx addr
  · subst hf
    rw [update_self, if_pos ⟨rfl, by omega⟩]
  · rw [update_of_ne hf, if_neg fun h => hf h.1]

theorem pmmFree_handed (p : Pmm) (addr : Nat) : (pmmFree p addr).handed = p.handed := by
  unfold pmmFree
  simp only []
  split <;> rfl

theorem pmmRef_refs (p : Pmm) (addr f : Nat) : (pmmRef p addr).refs f =
    if f = frameIdx addr ∧ f < 65536 ∧ p.refs f < 254 then p.refs f + 1 else p.refs f := by
  by_cases hc : frameIdx addr < pmmMaxFrames ∧ p.refs (frameIdx addr) < 254
  · have hp : (pmmRef p addr).refs = update p.refs (frameIdx addr) (p.refs (frameIdx addr) + 1) := by
      unfold pmmRef
      rw [if_pos hc]
    rw [hp]
    by_cases hf : f = frameIdx addr
    · subst hf
      rw [update_self, if_pos ⟨rfl, hc⟩]
    · rw [update_of_ne hf, if_neg fun h => hf h.1]
  have hp : pmmRef p addr = p := if_neg hc
  rw [hp]
  split
  · rename_i hf
    obtain ⟨rfl, hf⟩ := hf
    exact absurd hf hc
  · rfl

/-- `pmm_alloc` finds `i` if it is free and nothing before it is. -/
theorem pmmAlloc_first (hi : p.Free i) (hlt : ∀ j, j < i → ¬ p.Free j) : pmmAlloc p = (i * pageSize, p.take i) := by
  rcases pmmAlloc_cases p with ⟨-, hno⟩ | ⟨k, hk, hlow, he⟩
  · exact absurd hi (hno i)
  obtain hki | rfl | hik := Nat.lt_trichotomy k i
  · exact absurd hk (hlt k hki)
  · exact he
  · exact absurd hi (hlow i hik)

/-- What `pmm_init` leaves free: the frames behind the kernel image. -/
theorem pmmInit_free : (pmmInit memKb).Free i ↔ 0x500 ≤ i ∧ i < 0x100 + (pmmInit memKb).totalFrames := by
  have hmax : (pmmInit memKb).totalFrames ≤ 65536 - 0x100 := by
    have hmin : ∀ a b : Nat, (if a < b then a else b) ≤ a := by
      intro a b
      split <;> omega
    exact hmin _ _
  have hrf : (pmmInit memKb).refs i = if 0x100 ≤ i ∧ i < 0x500 then 1 else
      if 0x100 ≤ i ∧ i < 0x100 + (pmmInit memKb).totalFrames then 0 else 0xFF := rfl
  constructor
  · intro h
    have hge : 0x100 ≤ i := h.ge
    have hze := h.zero
    refine ⟨?_, h.lt⟩
    apply Nat.le_of_not_lt
    intro hlow
    rw [hrf, if_pos ⟨hge, hlow⟩] at hze
    cases hze
  · rintro ⟨h1, h2⟩
    refine ⟨show 0x100 ≤ i by omega, h2, by omega, ?_⟩
    rw [hrf, if_neg (by omega), if_pos ⟨by omega, h2⟩]

theorem pmmInit_first : (pmmInit 32768).Free 0x500 ∧ ∀ j, j < 0x500 → ¬ (pmmInit 32768).Free j := by
  refine ⟨pmmInit_free.2 ⟨by decide, by decide⟩, fun j hj hfr => ?_⟩
  have := (pmmInit_free.1 hfr).1
  omega

/-! ## Frames that are free -/

def Pmm.isFree (p : Pmm) (i : Nat) : Bool := p.baseFrame ≤ i && i < p.baseFrame + p.totalFrames && p.refs i = 0

theorem Pmm.isFree_iff (hi : i < 65536) : p.isFree i = true ↔ p.Free i := by
  unfold Pmm.isFree
  rw [Bool.and_eq_true, Bool.and_eq_true, decide_eq_true_eq, decide_eq_true_eq, decide_eq_true_eq]
  constructor
  · rintro ⟨⟨h1, h2⟩, h3⟩
    exact ⟨h1, h2, hi, h3⟩
  · intro h
    exact ⟨⟨h.ge, h.lt⟩, h.zero⟩

/-- How many frames `pmm_alloc` can still hand out. -/
def Pmm.freeFrames (p : Pmm) : Nat := tally p.isFree 65536

theorem Pmm.four_le_freeFrames (h : ∀ i < 4, p.isFree (f + i) = true) (hf : f + 4 ≤ 65536) : 4 ≤ p.freeFrames := by
  have hle : f + 4 - f ≤ tally p.isFree 65536 := by
    refine le_tally (fun i h1 h2 => ?_) hf
    rw [show i = f + (i - f) by omega]
    exact h _ (by omega)
  rwa [Nat.add_sub_cancel_left] at hle

theorem Pmm.freeFrames_eq_zero : p.freeFrames = 0 ↔ ∀ i, ¬ p.Free i := by
  unfold Pmm.freeFrames
  rw [tally_eq_zero_iff]
  constructor
  · intro h i hi
    have := h i hi.max
    rw [(Pmm.isFree_iff hi.max).2 hi] at this
    cases this
  · intro h i hi
    rw [Bool.eq_false_iff, Ne, Pmm.isFree_iff hi]
    exact h i

/-- As long as there are free frames, `pmm_alloc` hands one out. -/
theorem pmmAlloc_some (h : 0 < p.freeFrames) : ∃ i, p.Free i ∧ pmmAlloc p = (i * pageSize, p.take i) := by
  rcases pmmAlloc_cases p with ⟨-, hno⟩ | ⟨i, hi, -, he⟩
  · have := Pmm.freeFrames_eq_zero.2 hno
    omega
  · exact ⟨i, hi, he⟩

theorem Pmm.freeFrames_pos (h : (pmmAlloc p).1 ≠ 0) : 0 < p.freeFrames := by
  refine Nat.pos_of_ne_zero fun h0 => ?_
  rcases pmmAlloc_cases p with ⟨he, -⟩ | ⟨i, hi, -⟩
  · exact h (by rw [he])
  · exact Pmm.freeFrames_eq_zero.1 h0 i hi

theorem Pmm.isFree_take_self (hi : i < 65536) : (p.take i).isFree i = false := by
  rw [Bool.eq_false_iff, Ne, Pmm.isFree_iff hi]
  intro h
  have := h.zero
  rw [p.take_refs_self i] at this
  cases this

theorem Pmm.isFree_take_ne (h : f ≠ i) : p.isFree f = (p.take i).isFree f := by
  unfold Pmm.isFree
  rw [p.take_refs_ne h]
  rfl

theorem Pmm.freeFrames_take (hi : p.Free i) : p.freeFrames = (p.take i).freeFrames + 1 :=
  tally_set hi.max (fun _ => Pmm.isFree_take_ne) (Pmm.isFree_take_self hi.max) ((Pmm.isFree_iff hi.max).2 hi)

/-- The free frames in the first 16 MB. -/
def Pmm.lowFrames (p : Pmm) : Nat := tally p.isFree 0x1000

/-- The first free frame is one of them if there is one. -/
theorem Pmm.lowFrames_take (hi : p.Free i) (hfirst : ∀ j, j < i → ¬ p.Free j) :
    p.lowFrames = 0 ∧ (p.take i).lowFrames = 0 ∨ i < 0x1000 ∧ p.lowFrames = (p.take i).lowFrames + 1 := by
  by_cases hlow : i < 0x1000
  · exact .inr ⟨hlow, tally_set hlow (fun _ => Pmm.isFree_take_ne) (Pmm.isFree_take_self hi.max)
      ((Pmm.isFree_iff hi.max).2 hi)⟩
  have hno : ∀ j < 0x1000, p.isFree j = false := by
    intro j hj
    rw [Bool.eq_false_iff, Ne, Pmm.isFree_iff (by omega)]
    exact hfirst j (by omega)
  refine .inl ⟨tally_eq_zero_iff.2 hno, tally_eq_zero_iff.2 fun j hj => ?_⟩
  rw [← Pmm.isFree_take_ne (by omega)]
  exact hno j hj

/-- The frames `fs` have been handed out, one after the other. -/
structure Taken (p : Pmm) (fs : List Nat) (p' : Pmm) : Prop where
  base : p'.baseFrame = p.baseFrame
  total : p'.totalFrames = p.totalFrames
  nodup : fs.Nodup
  free : ∀ f ∈ fs, p.Free f
  refs : ∀ f, p'.refs f = if f ∈ fs then 1 else p.refs f
  used : p.usedFrames + fs.length < 2 ^ 32 → p'.usedFrames = p.usedFrames + fs.length
  left : p.freeFrames = p'.freeFrames + fs.length
  handed : ∀ a ∈ p'.handed, a ∈ p.handed ∨ ∃ f ∈ fs, a = f * pageSize

theorem Taken.nil (p : Pmm) : Taken p [] p where
  base := rfl
  total := rfl
  nodup := .nil
  free := fun _ h => by cases h
  refs := fun _ => rfl
  used := fun _ => rfl
  left := (Nat.add_zero _).symm
  handed := fun _ h => .inl h

/-- A frame that is free now was free before, and is not among those handed out. -/
theorem Taken.free_of (h : Taken p fs p') (hf : p'.Free f) : p.Free f ∧ f ∉ fs := by
  have hz := hf.zero
  rw [h.refs f] at hz
  split at hz
  · cases hz
  rename_i hmem
  refine ⟨⟨?_, ?_, hf.max, hz⟩, hmem⟩
  · have := hf.ge
    rwa [h.base] at this
  · have := hf.lt
    rwa [h.base, h.total] at this

theorem Taken.trans (h : Taken p fs p1) (h' : Taken p1 gs p2) : Taken p (fs ++ gs) p2 := by
  have hgs : ∀ f ∈ gs, p.Free f ∧ f ∉ fs := fun f hf => h.free_of (h'.free f hf)
  refine ⟨h'.base.trans h.base, h'.total.trans h.total, ?_, ?_, ?_, ?_, ?_, ?_⟩
  · refine List.nodup_append.2 ⟨h.nodup, h'.nodup, ?_⟩
    rintro f hf g hg rfl
    exact (hgs f hg).2 hf
  · intro f hf
    rcases List.mem_append.1 hf with hf | hf
    · exact h.free f hf
    · exact (hgs f hf).1
  · intro f
    rw [h'.refs f, h.refs f]
    by_cases hg : f ∈ gs
    · rw [if_pos hg, if_pos (List.mem_append_right _ hg)]
    rw [if_neg hg]
    by_cases hf : f ∈ fs
    · rw [if_pos hf, if_pos (List.mem_append_left _ hf)]
    · rw [if_neg hf, if_neg fun hm => (List.mem_append.1 hm).elim hf hg]
  · rw [List.length_append]
    intro hlt
    have h1 := h.used (by omega)
    rw [h'.used (by omega), h1]
    omega
  · rw [List.length_append, h.left, h'.left]
    omega
  · intro a ha
    rcases h'.handed a ha with ha | ⟨f, hf, rfl⟩
    · exact (h.handed a ha).imp_right fun ⟨f, hf, he⟩ => ⟨f, List.mem_append_left _ hf, he⟩
    · exact .inr ⟨f, List.mem_append_right _ hf, rfl⟩

theorem Taken.single (hi : p.Free i) : Taken p [i] (p.take i) where
  base := rfl
  total := rfl
  nodup := List.nodup_singleton i
  free := fun f hf => by
    rw [List.mem_singleton.1 hf]
    exact hi
  refs := fun f => by
    by_cases hf : f = i
    · rw [hf, if_pos (List.mem_singleton.2 rfl)]
      exact p.take_refs_self i
    · rw [if_neg fun hm => hf (List.mem_singleton.1 hm)]
      exact p.take_refs_ne hf
  used := fun hlt => Nat.mod_eq_of_lt hlt
  left := Pmm.freeFrames_take hi
  handed := fun a ha => (List.mem_cons.1 ha).elim (fun he => .inr ⟨i, List.mem_singleton.2 rfl, he⟩) .inl

/-- `pmm_free` for a list of frames. -/
def pmmFreeAll (p : Pmm) (fs : List Nat) : Pmm := fs.foldl (fun p f => pmmFree p (f * pageSize)) p

theorem pmmFreeAll_append (p : Pmm) (fs gs : List Nat) : pmmFreeAll p (fs ++ gs) = pmmFreeAll (pmmFreeAll p fs) gs :=
  List.foldl_append ..

/-- `pmm_used_frames` goes down with the last reference. -/
theorem pmmFree_used (p : Pmm) (addr : Nat) : (pmmFree p addr).usedFrames =
    if frameIdx addr < 65536 ∧ p.refs (frameIdx addr) = 1 then p.usedFrames - 1 else p.usedFrames := by
  unfold pmmFree
  generalize frameIdx addr = f
  by_cases hc : pmmMaxFrames ≤ f ∨ p.refs f = 0
  · rw [if_pos hc, if_neg]
    unfold pmmMaxFrames at hc
    omega
  rw [if_neg hc]
  unfold pmmMaxFrames at hc
  show (if p.refs f - 1 = 0 ∧ p.usedFrames ≠ 0 then p.usedFrames - 1 else p.usedFrames) = _
  split <;> split <;> omega

/-- Frames with one reference each are free again afterwards. -/
theorem pmmFreeAll_refs (hnd : fs.Nodup) (h1 : ∀ f ∈ fs, f < 65536 ∧ p.refs f = 1) :
    (∀ f, (pmmFreeAll p fs).refs f = if f ∈ fs then 0 else p.refs f) ∧
      (pmmFreeAll p fs).usedFrames = p.usedFrames - fs.length := by
  induction fs generalizing p with
  | nil => exact ⟨fun _ => rfl, rfl⟩
  | cons g gs ih =>
    obtain ⟨hg, hgs⟩ := List.nodup_cons.1 hnd
    obtain ⟨hmax, href⟩ := h1 g List.mem_cons_self
    have hsp : ∀ f, (pmmFree p (g * pageSize)).refs f = if f = g then 0 else p.refs f := by
      intro f
      rw [pmmFree_refs, frameIdx_mul]
      by_cases hf : f = g
      · rw [if_pos ⟨hf, by omega⟩, if_pos hf, hf, href]
      · rw [if_neg fun h => hf h.1, if_neg hf]
    have hgs1 : ∀ f ∈ gs, f < 65536 ∧ (pmmFree p (g * pageSize)).refs f = 1 := by
      intro f hf
      have hne : f ≠ g := by
        rintro rfl
        exact hg hf
      rw [hsp f, if_neg hne]
      exact h1 f (List.mem_cons_of_mem _ hf)
    obtain ⟨hrf, hus⟩ := ih hgs hgs1
    refine ⟨fun f => ?_, ?_⟩
    · show (pmmFreeAll (pmmFree p (g * pageSize)) gs).refs f = _
      rw [hrf f, hsp f]
      by_cases hf : f = g
      · rw [if_pos (List.mem_cons.2 (.inl hf)), if_neg (by rw [hf]; exact hg), if_pos hf]
      rw [if_neg hf]
      by_cases hm : f ∈ gs
      · rw [if_pos hm, if_pos (List.mem_cons_of_mem _ hm)]
      · rw [if_neg hm, if_neg fun h => (List.mem_cons.1 h).elim hf hm]
    · show (pmmFreeAll (pmmFree p (g * pageSize)) gs).usedFrames = _
      rw [hus, pmmFree_used, frameIdx_mul, if_pos ⟨hmax, href⟩, List.length_cons]
      omega

/-- Giving back what was handed out, in any order, restores the counts. -/
theorem Taken.restore (h : Taken p fs p') (hperm : gs.Perm fs) :
    (pmmFreeAll p' gs).refs = p.refs ∧
      (p.usedFrames + fs.length < 2 ^ 32 → (pmmFreeAll p' gs).usedFrames = p.usedFrames) := by
  have hmem : ∀ f, f ∈ gs ↔ f ∈ fs := fun f => hperm.mem_iff
  obtain ⟨hrf, hct⟩ := pmmFreeAll_refs (hperm.nodup_iff.2 h.nodup) fun f hf => by
    have hf' := (hmem f).1 hf
    rw [h.refs f, if_pos hf']
    exact ⟨(h.free f hf').max, rfl⟩
  constructor
  · funext f
    rw [hrf f]
    by_cases hf : f ∈ gs
    · rw [if_pos hf]
      exact ((h.free f ((hmem f).1 hf)).zero).symm
    · rw [if_neg hf, h.refs f, if_neg fun hm => hf ((hmem f).2 hm)]
  · intro hus
    rw [hct, h.used hus, hperm.length_eq]
    omega

/-! ## The count of used frames -/

/-- The frames with a reference. -/
def Pmm.isHeld (p : Pmm) (i : Nat) : Bool := p.refs i ≠ 0

/-- `pmm_used_frames` counts no frame twice. -/
def Pmm.Counts (p : Pmm) : Prop := p.usedFrames ≤ tally p.isHeld pmmMaxFrames

theorem Pmm.Counts.le (h : p.Counts) : p.usedFrames ≤ pmmMaxFrames := Nat.le_trans h (tally_le _ _)

/-- One frame gets its first reference, or loses its last one. -/
theorem tally_isHeld_set (hf : f < pmmMaxFrames) (hne : ∀ j, j ≠ f → q.refs j = p.refs j) (hp : p.refs f = 0)
    (hq : q.refs f ≠ 0) : tally q.isHeld pmmMaxFrames = tally p.isHeld pmmMaxFrames + 1 := by
  refine tally_set hf (fun j hj => ?_) (decide_eq_false fun h => h hp) (decide_eq_true hq)
  unfold Pmm.isHeld
  rw [hne j hj]

theorem tally_isHeld_congr (h : ∀ j, q.refs j = 0 ↔ p.refs j = 0) :
    tally q.isHeld pmmMaxFrames = tally p.isHeld pmmMaxFrames :=
  tally_congr fun j _ => decide_eq_decide.2 (not_congr (h j))

theorem Pmm.Counts.alloc (h : p.Counts) : (pmmAlloc p).2.Counts := by
  rcases pmmAlloc_cases p with ⟨he, -⟩ | ⟨i, hi, -, he⟩
  · rw [he]
    exact h
  rw [he]
  show (p.take i).Counts
  have hset : tally (p.take i).isHeld pmmMaxFrames = tally p.isHeld pmmMaxFrames + 1 := by
    refine tally_isHeld_set hi.max (fun j hj => p.take_refs_ne hj) hi.zero ?_
    rw [p.take_refs_self]
    decide
  have hus : (p.take i).usedFrames ≤ p.usedFrames + 1 := Nat.mod_le _ _
  unfold Pmm.Counts at h ⊢
  omega

theorem Pmm.Counts.ref (h : p.Counts) (addr : Nat) : (pmmRef p addr).Counts := by
  have hrf := pmmRef_refs p addr
  have hus : (pmmRef p addr).usedFrames = p.usedFrames := by
    unfold pmmRef
    simp only []
    split <;> rfl
  unfold Pmm.Counts at h ⊢
  by_cases hfi : frameIdx addr < pmmMaxFrames ∧ p.refs (frameIdx addr) = 0
  · -- a frame nobody had taken: it is in use now, and not counted
    obtain ⟨hlt, hze⟩ := hfi
    have hset : tally (pmmRef p addr).isHeld pmmMaxFrames = tally p.isHeld pmmMaxFrames + 1 := by
      refine tally_isHeld_set hlt (fun j hj => ?_) hze ?_
      · rw [hrf, if_neg fun hc => hj hc.1]
      · rw [hrf, if_pos ⟨rfl, hlt, by omega⟩]
        omega
    omega
  have hsm : tally (pmmRef p addr).isHeld pmmMaxFrames = tally p.isHeld pmmMaxFrames := by
    refine tally_isHeld_congr fun j => ?_
    rw [hrf]
    split
    · rename_i hj
      obtain ⟨rfl, hlt, -⟩ := hj
      have : p.refs (frameIdx addr) ≠ 0 := fun h0 => hfi ⟨hlt, h0⟩
      omega
    · exact Iff.rfl
  omega

theorem Pmm.Counts.free (h : p.Counts) (addr : Nat) : (pmmFree p addr).Counts := by
  have hrf := pmmFree_refs p addr
  unfold Pmm.Counts at h ⊢
  rw [pmmFree_used]
  by_cases hla : frameIdx addr < 65536 ∧ p.refs (frameIdx addr) = 1
  · obtain ⟨hlt, hone⟩ := hla
    have hset : tally p.isHeld pmmMaxFrames = tally (pmmFree p addr).isHeld pmmMaxFrames + 1 := by
      refine tally_isHeld_set hlt (fun j hj => ?_) ?_ (by omega)
      · rw [hrf, if_neg fun hc => hj hc.1]
      · rw [hrf, if_pos ⟨rfl, hlt⟩, hone]
    rw [if_pos ⟨hlt, hone⟩]
    omega
  have hsm : tally (pmmFree p addr).isHeld pmmMaxFrames = tally p.isHeld pmmMaxFrames := by
    refine tally_isHeld_congr fun j => ?_
    rw [hrf]
    split
    · rename_i hj
      obtain ⟨rfl, hlt⟩ := hj
      omega
    · exact Iff.rfl
  rw [if_neg hla]
  omega

inductive FrameOp
  | alloc
  | ref (addr : Nat)
  | free (addr : Nat)

def FrameOp.call (p : Pmm) : FrameOp → Pmm
  | .alloc => (pmmAlloc p).2
  | .ref addr => pmmRef p addr
  | .free addr => pmmFree p addr

/-- Whatever is called, with whatever arguments, at most `PMM_MAX_FRAMES` frames are counted as used. -/
theorem pmm_used_le (memKb : Nat) (ops : List FrameOp) :
    (ops.foldl FrameOp.call (pmmInit memKb)).usedFrames ≤ pmmMaxFrames := by
  have h0 : (pmmInit memKb).Counts := by
    refine le_tally (fun i h1 h2 => ?_) (by decide)
    have hone : (pmmInit memKb).refs i = 1 := if_pos ⟨h1, h2⟩
    unfold Pmm.isHeld
    rw [hone]
    rfl
  have hsp : ∀ p op, Pmm.Counts p → (FrameOp.call p op).Counts := by
    intro p op hp
    cases op with
    | alloc => exact hp.alloc
    | ref addr => exact hp.ref addr
    | free addr => exact hp.free addr
  have hall : ∀ p, Pmm.Counts p → (ops.foldl FrameOp.call p).Counts := by
    induction ops with
    | nil => exact fun p hp => hp
    | cons op ops ih => exact fun p hp => ih _ (hsp p op hp)
  exact (hall _ h0).le

/-! ## Runs -/

/-- The allocator, and for every frame the calls of `pmm_alloc` and `pmm_ref`
that no `pmm_free` has matched. -/
structure Ledger where
  pmm : Pmm
  owed : Nat → Nat

variable {w : Ledger}

def Ledger.init (memKb : Nat) : Ledger := ⟨pmmInit memKb, fun _ => 0⟩

/-- `pmm_ref` and `pmm_free` are for frames that are referred to. -/
inductive FrameStep (w : Ledger) : FrameOp → Ledger → Prop
  | none : (pmmAlloc w.pmm).1 = 0 → FrameStep w .alloc { w with pmm := (pmmAlloc w.pmm).2 }
  | alloc {f : Nat} : (pmmAlloc w.pmm).1 ≠ 0 → f = frameIdx (pmmAlloc w.pmm).1 →
      FrameStep w .alloc ⟨(pmmAlloc w.pmm).2, update w.owed f (w.owed f + 1)⟩
  | ref {addr f : Nat} : f = frameIdx addr → 0 < w.owed f →
      FrameStep w (.ref addr) ⟨pmmRef w.pmm addr, update w.owed f (w.owed f + 1)⟩
  | free {addr f : Nat} : f = frameIdx addr → 0 < w.owed f →
      FrameStep w (.free addr) ⟨pmmFree w.pmm addr, update w.owed f (w.owed f - 1)⟩

theorem FrameStep.take (h : pmmAlloc w.pmm = (i * pageSize, w.pmm.take i)) (hi : i ≠ 0) :
    FrameStep w .alloc ⟨w.pmm.take i, update w.owed i (w.owed i + 1)⟩ := by
  have hne : (pmmAlloc w.pmm).1 ≠ 0 := by
    rw [h]
    unfold pageSize
    omega
  have hidx : i = frameIdx (pmmAlloc w.pmm).1 := by
    rw [h, frameIdx_mul]
  have hs := FrameStep.alloc hne hidx
  rwa [h] at hs

/-- The counts are right: what is recorded is what is owed, and only frames
that `pmm_init` left free are handed out. -/
structure Counted (memKb : Nat) (w : Ledger) : Prop where
  base : w.pmm.baseFrame = 0x100
  refs : ∀ f, w.pmm.refs f = (pmmInit memKb).refs f + w.owed f
  free : ∀ f, w.owed f ≠ 0 → (pmmInit memKb).refs f = 0 ∧ f < 65536

theorem Counted.init (memKb : Nat) : Counted memKb (.init memKb) := ⟨rfl, fun _ => rfl, fun _ h => absurd rfl h⟩

/-- A change of the count of one frame by what is owed for it. -/
theorem Counted.setOwed (h : Counted memKb w) {n : Nat} (hbs : p.baseFrame = w.pmm.baseFrame)
    (hze : (pmmInit memKb).refs f = 0) (hmax : f < 65536) (hf : p.refs f = n)
    (hne : ∀ g, g ≠ f → p.refs g = w.pmm.refs g) : Counted memKb ⟨p, update w.owed f n⟩ := by
  refine ⟨hbs.trans h.base, fun g => ?_, fun g hg => ?_⟩
  · show p.refs g = _ + update w.owed f n g
    by_cases hgf : g = f
    · subst hgf
      rw [hf, update_self, hze, Nat.zero_add]
    · rw [hne g hgf, update_of_ne hgf]
      exact h.refs g
  · by_cases hgf : g = f
    · subst hgf
      exact ⟨hze, hmax⟩
    · refine h.free g fun h0 => hg ?_
      show update w.owed f n g = 0
      rw [update_of_ne hgf, h0]

theorem Counted.step {w' : Ledger} {op : FrameOp} (h : Counted memKb w) (hs : FrameStep w op w')
    (hcap : ∀ f, w'.owed f ≤ 254) : Counted memKb w' := by
  have hct : ∀ f, w.owed f ≠ 0 → w.pmm.refs f = w.owed f := by
    intro f hf
    rw [h.refs f, (h.free f hf).1, Nat.zero_add]
  cases hs with
  | none h0 =>
    rcases pmmAlloc_cases w.pmm with ⟨he, -⟩ | ⟨i, hi, -, he⟩
    · rw [he]
      exact h
    -- frame 0 is not in the range of the allocator
    rw [he] at h0
    have := hi.ge
    have := h.base
    unfold pageSize at h0
    omega
  | alloc h0 hf =>
    rename_i f
    rcases pmmAlloc_cases w.pmm with ⟨he, -⟩ | ⟨i, hi, -, he⟩
    · rw [he] at h0
      exact absurd rfl h0
    rw [he] at hf ⊢
    rw [frameIdx_mul] at hf
    subst hf
    have hsum := h.refs f
    rw [hi.zero] at hsum
    have howed : w.owed f + 1 = 1 := by omega
    rw [howed]
    exact h.setOwed rfl (by omega) hi.max (w.pmm.take_refs_self f) fun g hg => w.pmm.take_refs_ne hg
  | ref hf hpos =>
    rename_i addr f
    obtain ⟨hze, hmax⟩ := h.free f (by omega)
    have hc : update w.owed f (w.owed f + 1) f ≤ 254 := hcap f
    rw [update_self] at hc
    have hr := hct f (by omega)
    refine h.setOwed ?_ hze hmax ?_ fun g hg => ?_
    · unfold pmmRef
      simp only []
      split <;> rfl
    · rw [pmmRef_refs, if_pos ⟨hf, hmax, by omega⟩, hr]
    · rw [pmmRef_refs, if_neg fun h' => hg (h'.1.trans hf.symm)]
  | free hf hpos =>
    rename_i addr f
    obtain ⟨hze, hmax⟩ := h.free f (by omega)
    have hr := hct f (by omega)
    refine h.setOwed ?_ hze hmax ?_ fun g hg => ?_
    · unfold pmmFree
      simp only []
      split <;> rfl
    · rw [pmmFree_refs, if_pos ⟨hf, hmax⟩, hr]
    · rw [pmmFree_refs, if_neg fun h' => hg (h'.1.trans hf.symm)]

/-- As long as no frame has more than 254 references, the counts are the
references, and `pmm_alloc` never returns a frame that has one. -/
theorem pmmAlloc_unreferenced (memKb : Nat) (ops : List FrameOp) (w : Ledger)
    (hrun : Run (fun w op w' => FrameStep w op w' ∧ ∀ f, w'.owed f ≤ 254) (.init memKb) ops w) :
    (∀ addr, w.owed (frameIdx addr) ≠ 0 → pmmRefcount w.pmm addr = w.owed (frameIdx addr)) ∧
      ((pmmAlloc w.pmm).1 ≠ 0 → w.owed (frameIdx (pmmAlloc w.pmm).1) = 0) := by
  have h : Counted memKb w := by
    refine Run.invariant (Counted memKb) (.init memKb) ?_ hrun
    rintro w1 op w2 h ⟨hs, hcap⟩
    exact h.step hs hcap
  constructor
  · intro addr hne
    obtain ⟨hze, hmax⟩ := h.free _ hne
    unfold pmmRefcount pmmMaxFrames
    rw [if_pos hmax, h.refs, hze, Nat.zero_add]
  · intro hne
    rcases pmmAlloc_cases w.pmm with ⟨he, -⟩ | ⟨i, hi, -, he⟩
    · rw [he] at hne
      exact absurd rfl hne
    rw [he, frameIdx_mul]
    have := h.refs i
    rw [hi.zero] at this
    omega

/-- The first frame of a 32 MB machine, handed out once. -/
def sampleLedger : Ledger := ⟨(pmmInit 32768).take 0x500, update (Ledger.init 32768).owed 0x500 1⟩

theorem sampleLedger_step : FrameStep (.init 32768) .alloc sampleLedger :=
  .take (pmmAlloc_first pmmInit_first.1 pmmInit_first.2) (by decide)

theorem sampleLedger_owed : sampleLedger.owed 0x500 = 1 := update_self 0x500 1 (Ledger.init 32768).owed

theorem pmmAlloc_unreferenced_sample :
    Run (fun w op w' => FrameStep w op w' ∧ ∀ f, w'.owed f ≤ 254) (.init 32768) [.alloc] sampleLedger ∧
      pmmRefcount sampleLedger.pmm 0x500000 = 1 := by
  have hrun : Run (fun w op w' => FrameStep w op w' ∧ ∀ f, w'.owed f ≤ 254) (.init 32768) [.alloc] sampleLedger := by
    refine .single ⟨sampleLedger_step, fun f => ?_⟩
    show update (fun _ => 0) 0x500 1 f ≤ 254
    rw [Function.update_apply]
    split <;> omega
  refine ⟨hrun, ?_⟩
  have hidx : frameIdx 0x500000 = 0x500 := by decide
  rw [(pmmAlloc_unreferenced 32768 _ sampleLedger hrun).1 0x500000, hidx, sampleLedger_owed]
  decide

/-! ## Past the cap -/

/-- `p'` differs from `p` in the count of frame `f` only, as far as `pmm_alloc` looks. -/
structure OnlyCount (f : Nat) (p p' : Pmm) : Prop where
  base : p'.baseFrame = p.baseFrame
  total : p'.totalFrames = p.totalFrames
  refs : ∀ g, g ≠ f → p'.refs g = p.refs g

theorem pmmRef_only (p : Pmm) (addr : Nat) : OnlyCount (frameIdx addr) p (pmmRef p addr) := by
  refine ⟨?_, ?_, fun g hg => ?_⟩
  · unfold pmmRef
    simp only []
    split <;> rfl
  · unfold pmmRef
    simp only []
    split <;> rfl
  · rw [pmmRef_refs, if_neg fun h => hg h.1]

theorem pmmFree_only (p : Pmm) (addr : Nat) : OnlyCount (frameIdx addr) p (pmmFree p addr) := by
  refine ⟨?_, ?_, fun g hg => ?_⟩
  · unfold pmmFree
    simp only []
    split <;> rfl
  · unfold pmmFree
    simp only []
    split <;> rfl
  · rw [pmmFree_refs, if_neg fun h => hg h.1]

/-- A step of `FrameStep`, computed. -/
def Ledger.exec (w : Ledger) : FrameOp → Option Ledger
  | .alloc =>
    let f := frameIdx (pmmAlloc w.pmm).1
    if (pmmAlloc w.pmm).1 = 0 then none else some ⟨(pmmAlloc w.pmm).2, update w.owed f (w.owed f + 1)⟩
  | .ref addr =>
    let f := frameIdx addr
    if 0 < w.owed f then some ⟨pmmRef w.pmm addr, update w.owed f (w.owed f + 1)⟩ else none
  | .free addr =>
    let f := frameIdx addr
    if 0 < w.owed f then some ⟨pmmFree w.pmm addr, update w.owed f (w.owed f - 1)⟩ else none

theorem Ledger.exec_step {op : FrameOp} {w' : Ledger} (h : w.exec op = some w') : FrameStep w op w' := by
  cases op with
  | alloc =>
    obtain ⟨hne, he⟩ := Option.ite_none_left_eq_some.1 h
    cases he
    exact .alloc hne rfl
  | ref addr =>
    obtain ⟨hpos, he⟩ := Option.ite_none_right_eq_some.1 h
    cases he
    exact .ref rfl hpos
  | free addr =>
    obtain ⟨hpos, he⟩ := Option.ite_none_right_eq_some.1 h
    cases he
    exact .free rfl hpos

/-- One `pmm_alloc` and 254 calls of `pmm_ref` are 255 references, and the count
is 254: after 254 calls of `pmm_free` the frame is handed out again, with one
reference left. -/
theorem pmmAlloc_while_referenced : ∃ w, Run FrameStep (.init 32768)
    ([.alloc] ++ List.replicate 254 (.ref 0x500000) ++ List.replicate 254 (.free 0x500000)) w ∧
      (pmmAlloc w.pmm).1 = 0x500000 ∧ w.owed (frameIdx 0x500000) = 1 := by
  have hend : ((([.alloc] ++ List.replicate 254 (.ref 0x500000) ++ List.replicate 254 (.free 0x500000) :
      List FrameOp).foldlM Ledger.exec (.init 32768)).map fun w => ((pmmAlloc w.pmm).1, w.owed (frameIdx 0x500000))) =
      some (0x500000, 1) := by decide +kernel
  obtain ⟨w, hrun, heq⟩ := Option.map_eq_some_iff.1 hend
  obtain ⟨halloc, howed⟩ := Prod.mk.inj heq
  exact ⟨w, Run.of_foldlM (fun _ _ _ => Ledger.exec_step) hrun, halloc, howed⟩

end KumOS.Paging
