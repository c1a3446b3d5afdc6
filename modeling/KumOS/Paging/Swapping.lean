import KumOS.Paging.CopyOnWrite
import KumOS.Paging.Vmalloc

/-!
# Paging out and back

A page that `swap_out` has written to the swap area is brought back by the fault it
raises.  That is not the page it was: `swap_in` maps it with `PAGE_WRITE | PAGE_USER`
whatever it had, a page of the kernel heap gets a new blank frame before the handler
looks at the swap area, and `swap_out` gives frame 0 back along with the page's own
frame, since it asks for the address of a page it has just unmapped.  Apart from these
paging out is transparent (`swap_transparent_iff`).
-/

namespace KumOS.Paging

open Lib
open Vm (pageDirIdx)
open Function (update update_self update_of_ne)

/-! ## The swap area -/

namespace Swap

variable {t : Swap} {va u i slot : Nat} {page : Bytes}

theorem find_some (h : t.find va = some i) : i < swapSlots ∧ (t.table i).used = true ∧ (t.table i).virtAddr = va := by
  have hp := List.find?_some h
  rw [Bool.and_eq_true, decide_eq_true_eq] at hp
  exact ⟨List.mem_range.1 (List.mem_of_find?_eq_some h), hp⟩

theorem find_none : t.find va = none ↔ ∀ i < swapSlots, (t.table i).used = true → (t.table i).virtAddr ≠ va := by
  unfold find
  rw [List.find?_eq_none]
  constructor
  · intro h i hi hu hv
    exact h i (List.mem_range.2 hi) (by rw [hu, hv, Bool.true_and, decide_eq_true_eq])
  · intro h i hi hp
    rw [Bool.and_eq_true, decide_eq_true_eq] at hp
    exact h i (List.mem_range.1 hi) hp.1 hp.2

theorem allocSlot_some (h : t.allocSlot = some slot) : slot < swapSlots ∧ (t.table slot).used = false := by
  have hp := List.find?_some h
  exact ⟨List.mem_range.1 (List.mem_of_find?_eq_some h), by simpa using hp⟩

/-- A change of a slot that is of another page before and after. -/
theorem find_update (slot : Nat) {t' : Swap} (hne : ∀ j, j ≠ slot → t'.table j = t.table j)
    (h : (t.table slot).used = true → (t.table slot).virtAddr ≠ va)
    (h' : (t'.table slot).used = true → (t'.table slot).virtAddr ≠ va) : t'.find va = t.find va := by
  have hfalse : ∀ e : SwapEntry, (e.used = true → e.virtAddr ≠ va) → (e.used && decide (e.virtAddr = va)) = false := by
    intro e he
    cases hu : e.used with
    | false => rfl
    | true => exact decide_eq_false (he hu)
  unfold find
  congr 1
  funext j
  by_cases hj : j = slot
  · rw [hj, hfalse _ h, hfalse _ h']
  · rw [hne j hj]

theorem find_enter (hsl : (t.table slot).used = false) (hne : u ≠ va) : (t.enter slot u page).find va = t.find va := by
  refine find_update slot (fun j hj => update_of_ne hj ..) (fun hu => ?_) fun _ => ?_
  · rw [hsl] at hu
    cases hu
  · show (update t.table slot ⟨u, true⟩ slot).virtAddr ≠ va
    rw [update_self]
    exact hne

theorem find_leave (hu : (t.table slot).virtAddr ≠ va) : (t.leave slot).find va = t.find va := by
  refine find_update slot (fun j hj => update_of_ne hj ..) (fun _ => hu) fun _ => ?_
  show (update t.table slot { t.table slot with used := false } slot).virtAddr ≠ va
  rw [update_self]
  exact hu

/-- The page `va` is in slot `i` and in no other, with contents `page`. -/
structure Holds (t : Swap) (va i : Nat) (page : Bytes) : Prop where
  find : t.find va = some i
  only : ∀ j < swapSlots, (t.table j).used = true → (t.table j).virtAddr = va → j = i
  buf : t.buf i = page

theorem holds_enter (hno : t.find va = none) (hsl : slot < swapSlots) : Holds (t.enter slot va page) va slot page := by
  have hsf : (t.enter slot va page).table slot = ⟨va, true⟩ :=
    show update t.table slot ⟨va, true⟩ slot = _ from update_self ..
  have hot : ∀ j, j ≠ slot → (t.enter slot va page).table j = t.table j :=
    fun j hj => show update t.table slot ⟨va, true⟩ j = _ from update_of_ne hj ..
  have hol : ∀ j < swapSlots, ((t.enter slot va page).table j).used = true →
      ((t.enter slot va page).table j).virtAddr = va → j = slot := by
    intro j hj hu hv
    by_contra hne
    rw [hot j hne] at hu hv
    exact find_none.1 hno j hj hu hv
  refine ⟨?_, hol, show update t.buf slot page slot = page from update_self ..⟩
  cases hf : (t.enter slot va page).find va with
  | none =>
    have := find_none.1 hf slot hsl
    rw [hsf] at this
    exact absurd rfl (this rfl)
  | some j =>
    obtain ⟨h1, h2, h3⟩ := find_some hf
    rw [hol j h1 h2 h3]

theorem Holds.enter_other (h : Holds t va i page) {q : Bytes} (hsl : (t.table slot).used = false) (hne : u ≠ va) :
    Holds (t.enter slot u q) va i page := by
  have hi := find_some h.find
  have his : i ≠ slot := by
    rintro rfl
    rw [hsl] at hi
    cases hi.2.1
  refine ⟨(find_enter hsl hne).trans h.find, fun j hj hu hv => ?_, ?_⟩
  · by_cases hjs : j = slot
    · have hsf : ((t.enter slot u q).table j).virtAddr = u := by
        rw [hjs]
        show (update t.table slot ⟨u, true⟩ slot).virtAddr = u
        rw [update_self]
      exact absurd (hsf.symm.trans hv) hne
    · have hsm : (t.enter slot u q).table j = t.table j := update_of_ne hjs ..
      rw [hsm] at hu hv
      exact h.only j hj hu hv
  · exact (update_of_ne his q t.buf).trans h.buf

theorem leave_used {j : Nat} (hus : ((t.leave slot).table j).used = true) :
    j ≠ slot ∧ (t.leave slot).table j = t.table j := by
  have hjs : j ≠ slot := by
    rintro rfl
    change (update t.table j { t.table j with used := false } j).used = true at hus
    rw [update_self] at hus
    cases hus
  exact ⟨hjs, update_of_ne hjs ..⟩

theorem Holds.leave_other (h : Holds t va i page) (hu : (t.table slot).virtAddr ≠ va) : Holds (t.leave slot) va i page := by
  refine ⟨(find_leave hu).trans h.find, fun j hj hus hv => ?_, h.buf⟩
  obtain ⟨-, hsm⟩ := leave_used hus
  rw [hsm] at hus hv
  exact h.only j hj hus hv

theorem Holds.left (h : Holds t va i page) : (t.leave i).find va = none := by
  refine find_none.2 fun j hj hus hv => ?_
  obtain ⟨hji, hsm⟩ := leave_used hus
  rw [hsm] at hus hv
  exact hji (h.only j hj hus hv)

end Swap

/-! ## Frames and directories -/

namespace Phys

variable {im : Image} {s : Phys} {u : Nat}

theorem pageOf_high (hge : 0x1000000 ≤ u) (hu : u < 2 ^ 32) : 0x1000000 ≤ pageOf u ∧ pageOf u < 2 ^ 32 := by
  unfold pageOf pageSize
  omega

section

variable (h : Owned im [] s)
include h

theorem Owned.virtToPhys_unmapped (hge : 0x1000000 ≤ u) (hu : u < 2 ^ 32) :
    (s.pagingUnmap im (pageOf u)).pagingVirtToPhys im (pageOf u) = 0 := by
  obtain ⟨h1, h2⟩ := pageOf_high hge hu
  have hno := (h.walk_pagingUnmap h1 h2 h2).1
  rw [pagingVirtToPhys_eq]
  unfold translate
  rw [if_neg hno]
  rfl

theorem Owned.otherRefs {p : Pmm} (hbs : p.baseFrame = s.pmm.baseFrame)
    (hrf : ∀ f, f ≠ 0 → p.refs f = s.pmm.refs f) :
    Owned im [] { s with pmm := p } ∧ ∀ V, Untouched im V s { s with pmm := p } := by
  constructor
  · refine (h.congr { s with pmm := p } (fun _ _ => rfl) (fun _ _ => rfl) (fun _ _ _ => rfl) hbs
      (fun f h1 h2 => ?_) fun u hl => ?_).1
    · rw [hrf f (by omega)]
      exact h.held f h1 h2
    · have := (h.range u hl).1
      rw [hrf _ (by omega)]
      exact h.refs u hl
  · intro V x hge hlt _
    refine ⟨rfl, fun _ => rfl, fun hpr => hrf _ ?_⟩
    have := (h.pageFrame hge hlt hpr).ge
    omega

theorem Owned.freeZero : Owned im [] { s with pmm := pmmFree s.pmm 0 } ∧
    ∀ V, Untouched im V s { s with pmm := pmmFree s.pmm 0 } := by
  refine h.otherRefs (pmmFree_only s.pmm 0).base fun f hf => ?_
  rw [pmmFree_refs, if_neg]
  rintro ⟨rfl, -⟩
  exact hf rfl

theorem Owned.dir_pagingUnmap (hge : 0x1000000 ≤ u) (hu : u < 2 ^ 32) (d : Nat) :
    (s.pagingUnmap im u).word im.pageDir d = s.word im.pageDir d := by
  rcases h.pagingUnmap_cases hge hu with ⟨he, -⟩ | ⟨ht, -, he⟩
  · rw [he]
  · rw [he]
    exact word_setWord_ne _ _ (.inl (h.dir_ne ht (.inl rfl)))

end

/-- The frame `p` is taken and filled with a page. -/
def filled (s : Phys) (p : Nat) (page : Bytes) : Phys := ({ s with pmm := s.pmm.take p } : Phys).loadFrame p page

theorem Owned.filled (h : Owned im [] s) {p : Nat} (hfree : s.pmm.Free p) (page : Bytes) :
    Owned im [] (s.filled p page) ∧ Spare im [] (s.filled p page) p ∧ (∀ V, Untouched im V s (s.filled p page)) ∧
      ∀ d, (s.filled p page).word im.pageDir d = s.word im.pageDir d := by
  obtain ⟨h1, hp⟩ := h.take hfree
  have hmem : ∀ g, g ≠ p → (s.filled p page).mem g = s.mem g := fun g hg => update_of_ne hg ..
  obtain ⟨hown, hwk, hspr⟩ := h1.write (s.filled p page) hp.ge (fun D hD => hp.unused (.dir D) hD)
    (fun D d ht => hp.unused (.table D d) ht) rfl hmem
  refine ⟨hown, hspr p hp, fun V => (h.untouched_take hfree).trans fun x hge hlt _ => ⟨hwk x hlt, fun hpr => hmem _ ?_,
    fun _ => rfl⟩, fun d => ?_⟩
  · obtain ⟨hlv, hfr⟩ := h1.live_of_translate hge hlt (translate_split hpr).1
    rw [(translate_split hpr).2.1] at hfr
    rw [← hfr]
    exact hp.unused _ hlv
  · have := hp.ge
    have := im.dir_image
    exact word_congr (hmem _ (by omega)) d

end Phys

/-! ## The calls -/

namespace Pager

open Phys

variable {im : Image} {w w' : Pager} {u v : Nat}

/-- `swap_out` does nothing, or enters a page that was not there and unmaps it. -/
theorem swapOut_cases {r : Int} (h : w.swapOut im u = some (r, w')) :
    (w' = w ∧ (r = 0 → (w.swap.find (pageOf u)).isSome)) ∨
      ∃ slot pa, w.swap.find (pageOf u) = none ∧ w.swap.allocSlot = some slot ∧
        w.phys.translate w.phys.active (pageOf u) = some pa ∧ w' = { w with
          phys := { w.phys.pagingUnmap im (pageOf u) with
            pmm := pmmFree (w.phys.pagingUnmap im (pageOf u)).pmm
              ((w.phys.pagingUnmap im (pageOf u)).pagingVirtToPhys im (pageOf u)) }
          swap := w.swap.enter slot (pageOf u) (w.phys.mem (frameIdx pa)) } := by
  unfold swapOut at h
  by_cases hry : (!w.swap.ready) = true
  · rw [if_pos hry] at h
    cases h
    exact .inl ⟨rfl, nofun⟩
  rw [if_neg hry] at h
  by_cases hfo : (w.swap.find (pageOf u)).isSome = true
  · rw [if_pos hfo] at h
    cases h
    exact .inl ⟨rfl, fun _ => hfo⟩
  rw [if_neg hfo] at h
  cases hsl : w.swap.allocSlot with
  | none =>
    rw [hsl] at h
    cases h
    exact .inl ⟨rfl, nofun⟩
  | some slot =>
    rw [hsl] at h
    obtain ⟨page, hpg, h⟩ := Option.map_eq_some_iff.1 h
    obtain ⟨pa, htr, rfl⟩ := Option.map_eq_some_iff.1 hpg
    cases h
    refine .inr ⟨slot, pa, ?_, rfl, htr, rfl⟩
    simpa using hfo

/-- The frame `p` is filled from `slot` and mapped at the page of `u`. -/
def broughtIn (im : Image) (w : Pager) (u slot p : Nat) : Pager :=
  { w with
    phys := (w.phys.filled p (w.swap.buf slot)).pagingMap im (pageOf u) (p * pageSize) (pageWrite ||| pageUser)
    swap := w.swap.leave slot }

/-- `swap_in` does nothing, or maps a new frame with the page that was in the swap area. -/
theorem swapIn_cases (im : Image) (w : Pager) (u : Nat) (hb : 0 < w.phys.pmm.baseFrame) :
    w.swapIn im u = (-1, w) ∨ ∃ i p, w.swap.find (pageOf u) = some i ∧ w.phys.pmm.Free p ∧
      w.swapIn im u = (0, w.broughtIn im u i p) := by
  unfold swapIn
  by_cases hry : (!w.swap.ready) = true
  · rw [if_pos hry]
    exact .inl rfl
  rw [if_neg hry]
  cases hf : w.swap.find (pageOf u) with
  | none => exact .inl rfl
  | some i =>
    rcases pmmAlloc_cases w.phys.pmm with ⟨he, -⟩ | ⟨p, hp, -, he⟩
    · rw [he]
      exact .inl rfl
    · rw [he]
      simp only [if_neg (hp.addr_ne hb), frameIdx_mul]
      exact .inr ⟨i, p, rfl, hp, rfl⟩

/-! ## Pages from 16 MB on -/

/-- The frames have one use each, and the kernel's directory is active. -/
structure PagerOk (im : Image) (w : Pager) : Prop where
  owned : Owned im [] w.phys
  cr3 : w.phys.active = im.pageDir

/-- What a call for the page of `u` leaves: every other page, and the tables there are. -/
structure Apart (im : Image) (s s' : Phys) (u : Nat) : Prop where
  pages : Untouched im (fun pg => pg = u / pageSize) s s'
  dir : ∀ d, s.word im.pageDir d ≠ 0 → s'.word im.pageDir d = s.word im.pageDir d

theorem Apart.refl (im : Image) (s : Phys) (u : Nat) : Apart im s s u := ⟨.refl im _ s, fun _ _ => rfl⟩

theorem PagerOk.swapOut (h : PagerOk im w) (hge : 0x1000000 ≤ u) (hu : u < 2 ^ 32) {r : Int}
    (ho : w.swapOut im u = some (r, w')) : PagerOk im w' ∧ Apart im w.phys w'.phys u := by
  rcases swapOut_cases ho with ⟨rfl, -⟩ | ⟨slot, pa, -, -, -, rfl⟩
  · exact ⟨h, .refl ..⟩
  obtain ⟨h1, h2⟩ := pageOf_high hge hu
  have hown := h.owned.pagingUnmap h1 h2
  obtain ⟨hown0, hun0⟩ := hown.freeZero
  have hun : Untouched im (fun pg => pg = u / pageSize) w.phys (w.phys.pagingUnmap im (pageOf u)) :=
    h.owned.untouched_pagingUnmap h1 h2 (pageOf_div u)
  rw [h.owned.virtToPhys_unmapped hge hu]
  exact ⟨⟨hown0, (w.phys.pagingUnmap_active ..).trans h.cr3⟩, hun.trans (hun0 _),
    fun d _ => h.owned.dir_pagingUnmap h1 h2 d⟩

theorem PagerOk.swapIn (h : PagerOk im w) (hge : 0x1000000 ≤ u) (hu : u < 2 ^ 32) :
    PagerOk im (w.swapIn im u).2 ∧ Apart im w.phys (w.swapIn im u).2.phys u := by
  rcases swapIn_cases im w u (by have := h.owned.base; omega) with he | ⟨i, p, -, hp, he⟩
  · rw [he]
    exact ⟨h, .refl ..⟩
  obtain ⟨h1, h2⟩ := pageOf_high hge hu
  have hf : pageWrite ||| pageUser < 4096 := by decide
  obtain ⟨hown2, hspare2, hun2, hdir2⟩ := h.owned.filled hp (w.swap.buf i)
  have hact2 : (w.phys.filled p (w.swap.buf i)).active = _ := h.cr3
  rw [he]
  unfold broughtIn
  generalize w.phys.filled p (w.swap.buf i) = s2 at *
  have hun3 : Untouched im (fun pg => pg = u / pageSize) s2 (s2.pagingMap im (pageOf u) (p * pageSize)
      (pageWrite ||| pageUser)) := hown2.untouched_pagingMap h1 h2 hf hspare2 (pageOf_div u)
  refine ⟨⟨hown2.pagingMap h1 h2 hf hspare2, (s2.pagingMap_active ..).trans hact2⟩, (hun2 _).trans hun3, fun d hd => ?_⟩
  rw [← hdir2] at hd ⊢
  exact (hown2.pagingMap_clone h1 h2 hf).2 d hd

/-! ## Runs -/

inductive SwapOp
  | out (u : Nat)
  | inn (u : Nat)

/-- A call for another page than that of `v`, from 16 MB on. -/
def SwapStep (im : Image) (v : Nat) (w : Pager) : SwapOp → Pager → Prop
  | .out u, w' => 0x1000000 ≤ u ∧ u < 2 ^ 32 ∧ u / pageSize ≠ v / pageSize ∧ ∃ r, w.swapOut im u = some (r, w')
  | .inn u, w' => 0x1000000 ≤ u ∧ u < 2 ^ 32 ∧ u / pageSize ≠ v / pageSize ∧ w' = (w.swapIn im u).2

theorem pageOf_ne (h : u / pageSize ≠ v / pageSize) : pageOf u ≠ pageOf v := by
  intro he
  have := congrArg (· / pageSize) he
  simp only [pageOf_div] at this
  exact h this

/-- What the calls for other pages do to the swap area: `v` stays where it is. -/
theorem SwapStep.swap {op : SwapOp} (hb : 0 < w.phys.pmm.baseFrame) (hs : SwapStep im v w op w') :
    w'.swap.find (pageOf v) = w.swap.find (pageOf v) ∧
      (∀ i page, w.swap.Holds (pageOf v) i page → w'.swap.Holds (pageOf v) i page) ∧
      w'.swap.ready = w.swap.ready ∧ w'.phys.pmm.baseFrame = w.phys.pmm.baseFrame := by
  cases op with
  | out u =>
    obtain ⟨-, -, hne, r, ho⟩ := hs
    rcases swapOut_cases ho with ⟨rfl, -⟩ | ⟨slot, pa, -, hsl, -, rfl⟩
    · exact ⟨rfl, fun _ _ h => h, rfl, rfl⟩
    obtain ⟨-, hun⟩ := Swap.allocSlot_some hsl
    refine ⟨Swap.find_enter hun (pageOf_ne hne), fun i page h => h.enter_other hun (pageOf_ne hne), rfl, ?_⟩
    refine (pmmFree_only _ _).base.trans ?_
    rcases pagingUnmap_pmm im w.phys (pageOf u) with hq | ⟨addr, hq⟩
    · rw [hq]
    · rw [hq]
      exact (pmmFree_only _ _).base
  | inn u =>
    obtain ⟨-, -, hne, rfl⟩ := hs
    rcases swapIn_cases im w u hb with he | ⟨i, p, hf, hp, he⟩
    · rw [he]
      exact ⟨rfl, fun _ _ h => h, rfl, rfl⟩
    have hvirt : (w.swap.table i).virtAddr ≠ pageOf v := by
      rw [(Swap.find_some hf).2.2]
      exact pageOf_ne hne
    rw [he]
    refine ⟨Swap.find_leave hvirt, fun j page h => h.leave_other hvirt, rfl, ?_⟩
    show ((w.phys.filled p (w.swap.buf i)).pagingMap im (pageOf u) _ _).pmm.baseFrame = _
    rcases pagingMap_pmm im (w.phys.filled p (w.swap.buf i)) (pageOf u) (p * pageSize) (pageWrite ||| pageUser) with
      hq | ⟨t, -, hq⟩
    · rw [hq]
      rfl
    · rw [hq]
      rfl

theorem SwapStep.apart {op : SwapOp} (h : PagerOk im w) (hs : SwapStep im v w op w') :
    PagerOk im w' ∧ ∃ u, u / pageSize ≠ v / pageSize ∧ Apart im w.phys w'.phys u := by
  cases op with
  | out u =>
    obtain ⟨hge, hu, hne, r, ho⟩ := hs
    obtain ⟨hok, hap⟩ := h.swapOut hge hu ho
    exact ⟨hok, u, hne, hap⟩
  | inn u =>
    obtain ⟨hge, hu, hne, rfl⟩ := hs
    obtain ⟨hok, hap⟩ := h.swapIn hge hu
    exact ⟨hok, u, hne, hap⟩

theorem run_swap {ops : List SwapOp} (hb : 0 < w.phys.pmm.baseFrame) (hrun : Run (SwapStep im v) w ops w') :
    w'.swap.find (pageOf v) = w.swap.find (pageOf v) ∧
      (∀ i page, w.swap.Holds (pageOf v) i page → w'.swap.Holds (pageOf v) i page) ∧
      w'.swap.ready = w.swap.ready ∧ w'.phys.pmm.baseFrame = w.phys.pmm.baseFrame := by
  refine Run.invariant (fun w1 => w1.swap.find (pageOf v) = w.swap.find (pageOf v) ∧
    (∀ i page, w.swap.Holds (pageOf v) i page → w1.swap.Holds (pageOf v) i page) ∧
    w1.swap.ready = w.swap.ready ∧ w1.phys.pmm.baseFrame = w.phys.pmm.baseFrame) ⟨rfl, fun _ _ h => h, rfl, rfl⟩ ?_ hrun
  rintro w1 op w2 ⟨h1, h2, h3, h4⟩ hs
  obtain ⟨g1, g2, g3, g4⟩ := hs.swap (by rw [h4]; exact hb)
  exact ⟨g1.trans h1, fun i page h => g2 i page (h2 i page h), g3.trans h3, g4.trans h4⟩

theorem run_apart {ops : List SwapOp} (h : PagerOk im w) (hge : 0x1000000 ≤ v) (hv : v < 2 ^ 32)
    (hrun : Run (SwapStep im v) w ops w') : PagerOk im w' ∧ SamePage im w.phys w'.phys v ∧
      ∀ d, w.phys.word im.pageDir d ≠ 0 → w'.phys.word im.pageDir d = w.phys.word im.pageDir d := by
  refine Run.invariant (fun w1 => PagerOk im w1 ∧ SamePage im w.phys w1.phys v ∧
    ∀ d, w.phys.word im.pageDir d ≠ 0 → w1.phys.word im.pageDir d = w.phys.word im.pageDir d)
    ⟨h, .refl .., fun _ _ => rfl⟩ ?_ hrun
  rintro w1 op w2 ⟨hok, hsm, hdir⟩ hs
  obtain ⟨hok2, u, hne, hap⟩ := hs.apart hok
  refine ⟨hok2, hsm.trans (hap.pages v hge hv (Ne.symm hne)), fun d hd => ?_⟩
  have h1 := hdir d hd
  exact (hap.dir d (by rw [h1]; exact hd)).trans h1

/-! ## Transparency -/

/-- `v` was paged out between `w0` and `w1` and brought back between `w2` and `w3`, and nobody noticed. -/
structure Restored (im : Image) (w0 w1 w2 w3 : Pager) (v : Nat) : Prop where
  mapped : w3.phys.walk im.pageDir v % 2 = pagePresent
  contents : ∀ o < pageSize, w3.phys.mem (w3.phys.walk im.pageDir v / pageSize) o =
    w0.phys.mem (w0.phys.walk im.pageDir v / pageSize) o
  write : w3.phys.walk im.pageDir v / pageWrite % 2 = w0.phys.walk im.pageDir v / pageWrite % 2
  user : w3.phys.walk im.pageDir v / pageUser % 2 = w0.phys.walk im.pageDir v / pageUser % 2
  back : w3.swap.isSwapped v = false
  /-- `swap_out` gives back the old frame, the fault takes the new one -/
  counts_out : ∀ f, f ≠ w0.phys.walk im.pageDir v / pageSize → w1.phys.pmm.refs f = w0.phys.pmm.refs f
  counts_in : ∀ f, f ≠ w3.phys.walk im.pageDir v / pageSize → w3.phys.pmm.refs f = w2.phys.pmm.refs f

/-- A page of the kernel heap gets a blank frame, and stays in the swap area. -/
theorem heap_not_back {w3 : Pager} {write : Bool} (hlo : heapVirtBase ≤ v) (hhi : v < heapVirtMax)
    (hb : 0 < w.phys.pmm.baseFrame) (hfr : 0 < w.phys.pmm.freeFrames) (hsw : w.swap.isSwapped v = true)
    (hf : w.pageFaultHandler im v false write = some w3) : w3.swap.isSwapped v = true := by
  obtain ⟨p, hp, he⟩ := pmmAlloc_some hfr
  unfold pageFaultHandler at hf
  rw [if_pos (by rw [decide_eq_true hlo, decide_eq_true hhi]; rfl)] at hf
  unfold faultHeap at hf
  simp only [he, if_neg (hp.addr_ne hb)] at hf
  generalize hset : Phys.kmemset _ _ _ _ = o at hf
  cases o with
  | none => cases hf
  | some s2 =>
    cases hf
    exact hsw

/-- A page of the swap area is mapped again with the contents it had, writable and for user code. -/
theorem faultSwap_back (h : PagerOk im w) (hge : 0x1000000 ≤ v) (hv : v < 2 ^ 32) {i : Nat} {page : Bytes}
    (hry : w.swap.ready = true) (hholds : w.swap.Holds (pageOf v) i page)
    (htab : w.phys.word im.pageDir (pageDirIdx v) ≠ 0) (hfr : 0 < w.phys.pmm.freeFrames) (write : Bool) :
    ∃ w3 p, w.pageFaultHandler im v false write = some w3 ∧ p < 65536 ∧
      w3.phys.walk im.pageDir v = pteOf p (pageWrite ||| pageUser) ∧ w3.phys.mem p = page ∧
      w3.swap.isSwapped v = false ∧ ∀ f, f ≠ p → w3.phys.pmm.refs f = w.phys.pmm.refs f := by
  obtain ⟨h1, h2⟩ := pageOf_high hge hv
  have hf : pageWrite ||| pageUser < 4096 := by decide
  have hdiv := pageOf_div v
  have hpp : pageOf (pageOf v) = pageOf v := by
    show pageOf v / pageSize * pageSize = _
    rw [hdiv]
    rfl
  have hsw : w.swap.isSwapped (pageOf v) = true := by
    unfold Swap.isSwapped
    rw [hpp, hholds.find]
    rfl
  obtain ⟨p, hp, halloc⟩ := pmmAlloc_some hfr
  have hne := hp.addr_ne (by have := h.owned.base; omega)
  obtain ⟨hown2, hspare2, -, hdir2⟩ := h.owned.filled hp (w.swap.buf i)
  have hin : w.swapIn im (pageOf v) = (0, w.broughtIn im v i p) := by
    unfold swapIn
    simp only [hry, hpp, hholds.find, halloc, if_neg hne, frameIdx_mul]
    rfl
  have hfault : w.pageFaultHandler im v false write = some ((w.broughtIn im v i p).counted false) := by
    have hout : ¬ ((!false && decide (heapVirtBase ≤ v) && decide (v < heapVirtMax)) = true) := by
      rw [decide_eq_false (show ¬ v < heapVirtMax by unfold heapVirtMax; omega), Bool.and_false]
      decide
    unfold pageFaultHandler
    rw [if_neg hout]
    unfold faultSwap
    rw [if_pos hsw, hin]
    rfl
  have hmem2 : (w.phys.filled p (w.swap.buf i)).mem p = w.swap.buf i := update_self ..
  have hrefs2 : ∀ f, f ≠ p → (w.phys.filled p (w.swap.buf i)).pmm.refs f = w.phys.pmm.refs f :=
    fun f hf => w.phys.pmm.take_refs_ne hf
  refine ⟨_, p, hfault, hspare2.lt, ?_⟩
  show ((w.phys.filled p (w.swap.buf i)).pagingMap im (pageOf v) _ _).walk im.pageDir v = _ ∧
    ((w.phys.filled p (w.swap.buf i)).pagingMap im (pageOf v) _ _).mem p = page ∧
    (w.swap.leave i).isSwapped v = false ∧
    ∀ f, f ≠ p → ((w.phys.filled p (w.swap.buf i)).pagingMap im (pageOf v) _ _).pmm.refs f = _
  generalize w.phys.filled p (w.swap.buf i) = s2 at *
  -- the table is still there, so `paging_map` writes one entry
  have hdirv : s2.word im.pageDir (pageDirIdx (pageOf v)) ≠ 0 := by
    rw [(pageOf_index v).1, hdir2]
    exact htab
  have hpres := hown2.dir_present (pageDirIdx_lt h2) hdirv
  have hso : (s2.ptePtrAlloc im (pageOf v)).1 ≠ none := by
    unfold ptePtrAlloc
    rw [if_pos hpres]
    exact Option.some_ne_none _
  have hwk := hown2.walk_pagingMap h1 h2 hf hspare2 hso hv
  rw [if_pos hdiv.symm] at hwk
  refine ⟨hwk, ?_, ?_, fun f hfp => ?_⟩
  · rw [pagingMap_present hpres]
    refine (mem_setWord_ne s2 ?_ _ _).trans (hmem2.trans hholds.buf)
    exact (hspare2.unused (.table im.pageDir _) (hasTable_kernel (by unfold pageDirIdx; omega) (pageDirIdx_lt h2) hdirv)).symm
  · unfold Swap.isSwapped
    rw [hholds.left]
    rfl
  · rw [pagingMap_present hpres]
    exact hrefs2 f hfp

/-- `swap_out` of a page from 16 MB on that is not in the swap area yet. -/
theorem swapOut_entered (h : PagerOk im w) (hge : 0x1000000 ≤ v) (hv : v < 2 ^ 32)
    (hpr : w.phys.walk im.pageDir v % 2 = pagePresent) (ho : w.swapOut im v = some (0, w'))
    (hnew : w.swap.find (pageOf v) = none) :
    (∃ i, w'.swap.Holds (pageOf v) i (w.phys.mem (w.phys.walk im.pageDir v / pageSize))) ∧ w'.swap.ready = true ∧
      (∀ f, f ≠ w.phys.walk im.pageDir v / pageSize → w'.phys.pmm.refs f = if f = 0 then w.phys.pmm.refs 0 - 1 else
        w.phys.pmm.refs f) ∧ w'.phys.word im.pageDir (pageDirIdx v) ≠ 0 := by
  obtain ⟨h1, h2⟩ := pageOf_high hge hv
  obtain ⟨hpd, hpt⟩ := pageOf_index v
  have hwk : w.phys.walk im.pageDir (pageOf v) = w.phys.walk im.pageDir v := by
    unfold Phys.walk
    rw [hpd, hpt]
  have hry : w.swap.ready = true := by
    cases hr : w.swap.ready with
    | true => rfl
    | false =>
      unfold swapOut at ho
      rw [hr] at ho
      cases ho
  rcases swapOut_cases ho with ⟨-, hstale⟩ | ⟨slot, pa, -, hsl, htr, rfl⟩
  · have := hstale rfl
    rw [hnew] at this
    cases this
  obtain ⟨hlt, -⟩ := Swap.allocSlot_some hsl
  rw [h.cr3] at htr
  have hfr := (translate_eq_some htr).2.2
  rw [hwk] at hfr
  refine ⟨⟨slot, ?_⟩, hry, fun f hf => ?_, ?_⟩
  · rw [← hfr]
    exact Swap.holds_enter hnew hlt
  · rw [h.owned.virtToPhys_unmapped hge hv, pmmFree_refs]
    -- the frame of the page, then frame 0
    have hun : (w.phys.pagingUnmap im (pageOf v)).pmm.refs f = w.phys.pmm.refs f := by
      rcases h.owned.pagingUnmap_cases h1 h2 with ⟨he, -⟩ | ⟨ht, hu, he⟩
      · rw [he]
      rw [he]
      show (pmmFree w.phys.pmm _).refs f = _
      rw [pmmFree_refs, frameIdx_mul, if_neg]
      rintro ⟨hc, -⟩
      refine hf (hc.trans ?_)
      rw [← hwk, h.owned.walk_eq h2, if_neg ht.ne]
      rfl
    rw [hun]
    by_cases h0 : f = 0
    · rw [if_pos h0, if_pos ⟨h0, by omega⟩, h0]
    · rw [if_neg h0, if_neg fun hc => h0 hc.1]
  · show (w.phys.pagingUnmap im (pageOf v)).word im.pageDir _ ≠ 0
    rw [h.owned.dir_pagingUnmap h1 h2]
    exact (table_of_walk hpr).1

/-- A page that is paged out and raises a fault is restored exactly when it lies above the kernel heap, was writable
and for user code, and frame 0 had no references left. -/
theorem swap_transparent_iff (im : Image) (w0 : Pager) (h : PagerOk im w0) (v : Nat) (hlo : heapVirtBase ≤ v)
    (hv : v < 2 ^ 32) (hmapped : w0.phys.walk im.pageDir v % 2 = pagePresent) (w1 : Pager)
    (hout : w0.swapOut im v = some (0, w1)) (ops : List SwapOp) (w2 : Pager) (hrun : Run (SwapStep im v) w1 ops w2)
    (hfault : w2.phys.walk im.pageDir v % 2 ≠ pagePresent) (hframe : 0 < w2.phys.pmm.freeFrames) (write : Bool) :
    (∃ w3, w2.pageFaultHandler im v false write = some w3 ∧ Restored im w0 w1 w2 w3 v) ↔
      heapVirtMax ≤ v ∧ w0.phys.walk im.pageDir v / pageWrite % 2 = 1 ∧ w0.phys.walk im.pageDir v / pageUser % 2 = 1 ∧
        w0.phys.pmm.refs 0 = 0 := by
  have hb0 : 0 < w0.phys.pmm.baseFrame := by
    have := h.owned.base
    omega
  by_cases hheap : v < heapVirtMax
  · -- a page of the heap is in the swap area before and after
    refine iff_of_false ?_ fun hc => by omega
    rintro ⟨w3, hf, hres⟩
    have hfind : (w1.swap.find (pageOf v)).isSome = true ∧ w1.phys.pmm.baseFrame = w0.phys.pmm.baseFrame := by
      rcases swapOut_cases hout with ⟨rfl, hst⟩ | ⟨slot, pa, hnew, hsl, -, rfl⟩
      · exact ⟨hst rfl, rfl⟩
      refine ⟨?_, ?_⟩
      · rw [(Swap.holds_enter hnew (Swap.allocSlot_some hsl).1).find]
        rfl
      · refine (pmmFree_only _ _).base.trans ?_
        rcases pagingUnmap_pmm im w0.phys (pageOf v) with hq | ⟨addr, hq⟩
        · rw [hq]
        · rw [hq]
          exact (pmmFree_only _ _).base
    obtain ⟨hso, hb1⟩ := hfind
    obtain ⟨hsm, -, -, hb2⟩ := run_swap (by rw [hb1]; exact hb0) hrun
    have hsw : w2.swap.isSwapped v = true := by
      unfold Swap.isSwapped
      rw [hsm]
      exact hso
    have hbk := heap_not_back hlo hheap (by rw [hb2, hb1]; exact hb0) hframe hsw hf
    rw [hres.back] at hbk
    cases hbk
  · have hge : 0x1000000 ≤ v := Nat.le_of_not_lt hheap
    obtain ⟨hok1, -⟩ := h.swapOut hge hv hout
    obtain ⟨hok2, hsame2, hdir2⟩ := run_apart hok1 hge hv hrun
    cases hnew : w0.swap.find (pageOf v) with
    | some j =>
      -- `swap_out` has done nothing, so there is no fault
      rcases swapOut_cases hout with ⟨rfl, -⟩ | ⟨-, -, hnn, -⟩
      · exact absurd (by rw [hsame2.walk]; exact hmapped) hfault
      · rw [hnew] at hnn
        cases hnn
    | none =>
      obtain ⟨⟨i, hholds⟩, hry, hcounts, htab⟩ := swapOut_entered h hge hv hmapped hout hnew
      obtain ⟨-, hkp, hready2, -⟩ := run_swap (by have := hok1.owned.base; omega) hrun
      obtain ⟨w3, p, hf, hp, hwk, hmem, hbk, hrf⟩ := faultSwap_back hok2 hge hv (hready2.trans hry)
        (hkp i _ hholds) (by rw [hdir2 _ htab]; exact htab) hframe write
      obtain ⟨hodd, hdiv, -, -⟩ := pteOf_props hp (show pageWrite ||| pageUser < 4096 by decide)
      obtain ⟨hw, hu⟩ := pteOf_bits p (pageWrite ||| pageUser)
      have hold := (h.owned.pageFrame hge hv hmapped).ge
      constructor
      · rintro ⟨w3', hf', hres⟩
        obtain rfl : w3' = w3 := Option.some.inj (hf'.symm.trans hf)
        have hw' := hres.write
        have hu' := hres.user
        rw [hwk, hw] at hw'
        rw [hwk, hu] at hu'
        have h0 := hcounts 0 (by omega)
        rw [if_pos rfl, hres.counts_out 0 (by omega)] at h0
        exact ⟨Nat.le_of_not_lt hheap, hw'.symm.trans (by decide), hu'.symm.trans (by decide), by omega⟩
      · rintro ⟨-, hw', hu', h0⟩
        refine ⟨w3, hf, ⟨by rw [hwk]; exact hodd, fun o _ => ?_, ?_, ?_, hbk, fun f hfo => ?_, fun f hfn => ?_⟩⟩
        · rw [hwk, hdiv, hmem]
        · rw [hwk, hw, hw']
          decide
        · rw [hwk, hu, hu']
          decide
        · rw [hcounts f hfo]
          by_cases hf0 : f = 0
          · rw [if_pos hf0, hf0, h0]
          · rw [if_neg hf0]
        · rw [hwk, hdiv] at hfn
          exact hrf f hfn

/-- Frame 0 has no references left. -/
def unreferenced (s : Phys) : Phys := { s with pmm := { s.pmm with refs := update s.pmm.refs 0 0 } }

theorem unreferenced_owned {s : Phys} (h : Owned im [] s) : Owned im [] (unreferenced s) :=
  (h.otherRefs (p := { s.pmm with refs := update s.pmm.refs 0 0 }) rfl fun _ hf => update_of_ne hf ..).1

/-- A user page, once frame 0 has no references left. -/
theorem swap_transparent_iff_user : ∃ s w1 w3, (sampleOf s).swapOut sampleImage 0x40000000 = some (0, w1) ∧
    w1.pageFaultHandler sampleImage 0x40000000 false true = some w3 ∧
    Restored sampleImage (sampleOf s) w1 w1 w3 0x40000000 := by
  have hown : Owned sampleImage [] (sampleUser 0x40000000) := (pagingInit_owned sampleImage 32768 fun _ _ => 0).mapNew
    ⟨by decide, by decide, by decide⟩ (by decide) (by decide +kernel)
  have hok : PagerOk sampleImage (sampleOf (unreferenced (sampleUser 0x40000000))) :=
    ⟨unreferenced_owned hown, show Phys.active _ = _ by decide +kernel⟩
  have hout : ((sampleOf (unreferenced (sampleUser 0x40000000))).swapOut sampleImage 0x40000000).map (fun r =>
      (r.1, r.2.phys.walk sampleImage.pageDir 0x40000000 % 2, (pmmAlloc r.2.phys.pmm).1 == 0)) = some (0, 0, false) := by
    decide +kernel
  obtain ⟨⟨r, w1⟩, hout, he⟩ := Option.map_eq_some_iff.1 hout
  simp only [Prod.mk.injEq] at he
  obtain ⟨rfl, hno, hfr⟩ := he
  obtain ⟨w3, hf, hres⟩ := (swap_transparent_iff sampleImage _ hok 0x40000000 (by decide) (by decide) (by decide +kernel) w1
    hout [] w1 .nil (by rw [hno]; decide) (Pmm.freeFrames_pos (by simpa using hfr)) true).2 (by decide +kernel)
  exact ⟨_, w1, w3, hout, hf, hres⟩

/-- A page of `vmalloc` that was paged out is open to user code when it is back. -/
theorem swap_opens_kernel_page : ∃ w1 w3, (sampleOf ((pagingInit sampleImage 32768 fun _ _ => 0).mapNew sampleImage
      0x1000000 pageWrite)).swapOut sampleImage 0x1000000 = some (0, w1) ∧
    w1.pageFaultHandler sampleImage 0x1000000 false true = some w3 ∧
    ((pagingInit sampleImage 32768 fun _ _ => 0).mapNew sampleImage 0x1000000 pageWrite).walk sampleImage.pageDir
      0x1000000 / pageUser % 2 = 0 ∧
    w3.phys.walk sampleImage.pageDir 0x1000000 / pageUser % 2 = 1 := by
  have hend : ((sampleOf ((pagingInit sampleImage 32768 fun _ _ => 0).mapNew sampleImage 0x1000000 pageWrite)).swapOut
      sampleImage 0x1000000).bind (fun r => (r.2.pageFaultHandler sampleImage 0x1000000 false true).map fun w =>
        (r.1, w.phys.walk sampleImage.pageDir 0x1000000 / pageUser % 2)) = some (0, 1) := by decide +kernel
  obtain ⟨⟨r, w1⟩, hout, hend⟩ := Option.bind_eq_some_iff.1 hend
  obtain ⟨w3, hf, he⟩ := Option.map_eq_some_iff.1 hend
  obtain ⟨rfl, hw⟩ := Prod.mk.inj he
  exact ⟨w1, w3, hout, hf, by decide +kernel, hw⟩

end Pager

end KumOS.Paging
