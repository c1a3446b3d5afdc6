import KumOS.Paging.Permissions

/-!
# What the steps of the paging code leave alone

A page from 16 MB on has its entry, the bytes of its frame and the count of its
frame.  No frame has two uses, so a step that works on one page leaves all three
of every other page as they are: `pmm_alloc`, `paging_map`, `paging_unmap`, and
what is written through a page.
-/

namespace KumOS.Paging

open Lib
open Vm (pageDirIdx)
open Function (update update_self update_of_ne update_eq_self update_idem)

variable {f va : Nat}

namespace Phys

/-- The page of `x`, if it is mapped, with its frame and what that contains, is the same in `s` and `s'`. -/
structure SamePage (im : Image) (s s' : Phys) (x : Nat) : Prop where
  walk : s'.walk im.pageDir x = s.walk im.pageDir x
  mem : s.walk im.pageDir x % 2 = pagePresent →
    s'.mem (s.walk im.pageDir x / pageSize) = s.mem (s.walk im.pageDir x / pageSize)
  refs : s.walk im.pageDir x % 2 = pagePresent →
    s'.pmm.refs (s.walk im.pageDir x / pageSize) = s.pmm.refs (s.walk im.pageDir x / pageSize)

/-- Every page from 16 MB on is the same, those with a number in `V` apart. -/
def Untouched (im : Image) (V : Nat → Prop) (s s' : Phys) : Prop :=
  ∀ x, 0x1000000 ≤ x → x < 2 ^ 32 → ¬ V (x / pageSize) → SamePage im s s' x

section

variable {im : Image} {clones : List Nat} {s s1 s' : Phys} {V W : Nat → Prop} {x : Nat}

theorem SamePage.refl (im : Image) (s : Phys) (x : Nat) : SamePage im s s x := ⟨rfl, fun _ => rfl, fun _ => rfl⟩

theorem SamePage.trans (h : SamePage im s s1 x) (h' : SamePage im s1 s' x) : SamePage im s s' x := by
  have hw := h.walk
  refine ⟨h'.walk.trans hw, fun hp => ?_, fun hp => ?_⟩
  · have hmem := h'.mem (by rw [hw]; exact hp)
    rw [hw] at hmem
    exact hmem.trans (h.mem hp)
  · have hrf := h'.refs (by rw [hw]; exact hp)
    rw [hw] at hrf
    exact hrf.trans (h.refs hp)

theorem SamePage.load (h : SamePage im s s' x) : s'.load im.pageDir x = s.load im.pageDir x := by
  by_cases hp : s.walk im.pageDir x % 2 = pagePresent
  · rw [load_eq hp, load_eq (by rw [h.walk]; exact hp), h.walk, h.mem hp]
  have hnn : ∀ t : Phys, t.walk im.pageDir x = s.walk im.pageDir x → t.load im.pageDir x = none := by
    intro t ht
    unfold Phys.load translate
    rw [ht, if_neg hp]
    rfl
  rw [hnn s rfl, hnn s' h.walk]

theorem Untouched.refl (im : Image) (V : Nat → Prop) (s : Phys) : Untouched im V s s := fun _ _ _ _ => .refl ..

theorem Untouched.trans (h : Untouched im V s s1) (h' : Untouched im V s1 s') : Untouched im V s s' :=
  fun x hge hlt hx => (h x hge hlt hx).trans (h' x hge hlt hx)

theorem Untouched.mono (h : Untouched im V s s') (hVW : ∀ pg, V pg → W pg) : Untouched im W s s' :=
  fun x hge hlt hx => h x hge hlt fun hv => hx (hVW _ hv)

theorem Untouched.of_eq (h : Untouched im V s s1) (hmem : s'.mem = s1.mem) (hpmm : s'.pmm = s1.pmm) :
    Untouched im V s s' := by
  intro x hge hlt hx
  obtain ⟨hw, hm, hr⟩ := h x hge hlt hx
  refine ⟨?_, ?_, ?_⟩
  · rw [← hw]
    unfold Phys.walk Phys.word
    rw [hmem]
  · rw [hmem]
    exact hm
  · rw [hpmm]
    exact hr

/-! ## The frame of a page -/

/-- A page from 16 MB on has a frame of the pool, which is counted and is no table. -/
structure PageFrame (im : Image) (s : Phys) (f : Nat) : Prop where
  ge : 0x500 ≤ f
  lt : f < 65536
  refs : s.pmm.refs f ≠ 0
  table : ∀ d, HasTable im [] s im.pageDir d → s.word im.pageDir d / pageSize ≠ f

/-- The tables of `page_dir` are the same whatever the clones. -/
theorem hasTable_any {d : Nat} : HasTable im [] s im.pageDir d ↔ HasTable im clones s im.pageDir d :=
  ⟨fun h => ⟨.inl rfl, h.own, h.lt, h.ne⟩, fun h => ⟨.inl rfl, h.own, h.lt, h.ne⟩⟩

theorem Owned.pageFrame (h : Owned im clones s) (hge : 0x1000000 ≤ x) (hx : x < 2 ^ 32)
    (hp : s.walk im.pageDir x % 2 = pagePresent) : PageFrame im s (s.walk im.pageDir x / pageSize) := by
  obtain ⟨ht, hf, -⟩ := translate_split hp
  obtain ⟨hlv, hfe⟩ := h.live_of_translate hge hx ht
  rw [hf] at hfe
  have hrg := h.range _ hlv
  have hrf := h.refs _ hlv
  rw [hfe] at hrg hrf
  refine ⟨hrg.1, hrg.2, hrf, fun d hd he => ?_⟩
  have hu := h.inj (.table im.pageDir d) _ (hasTable_any.1 hd) hlv (by rw [hfe]; exact he)
  cases hu

theorem PageFrame.ne_dir (h : PageFrame im s f) : f ≠ im.pageDir := by
  have := h.ge
  have := im.dir_image
  omega

theorem Owned.page_inj (h : Owned im clones s) {y : Nat} (hx1 : 0x1000000 ≤ x) (hx2 : x < 2 ^ 32) (hy1 : 0x1000000 ≤ y)
    (hy2 : y < 2 ^ 32) (hx : s.walk im.pageDir x % 2 = pagePresent) (hy : s.walk im.pageDir y % 2 = pagePresent)
    (he : s.walk im.pageDir x / pageSize = s.walk im.pageDir y / pageSize) : x / pageSize = y / pageSize := by
  obtain ⟨htx, hfx, -⟩ := translate_split hx
  obtain ⟨hty, hfy, -⟩ := translate_split hy
  obtain ⟨hlx, hux⟩ := h.live_of_translate hx1 hx2 htx
  obtain ⟨hly, huy⟩ := h.live_of_translate hy1 hy2 hty
  have huse := h.inj _ _ hlx hly (by rw [hux, huy, hfx, hfy, he])
  injection huse with _ hd hi
  exact same_page.1 ⟨hd, hi⟩

theorem hasTable_of_walk (hge : 0x1000000 ≤ x) (hx : x < 2 ^ 32)
    (hp : s.walk im.pageDir x % 2 = pagePresent) : HasTable im clones s im.pageDir (pageDirIdx x) := by
  refine hasTable_kernel ?_ (pageDirIdx_lt hx) (table_of_walk hp).1
  unfold pageDirIdx
  omega

theorem walk_page (s : Phys) (D : Nat) {x y : Nat} (h : x / pageSize = y / pageSize) : s.walk D x = s.walk D y := by
  obtain ⟨hd, hi⟩ := same_page.2 h
  unfold Phys.walk
  rw [hd, hi]

/-! ## The steps -/

/-- `pmm_alloc` -/
theorem Owned.untouched_take (h : Owned im clones s) {p : Nat} (hp : s.pmm.Free p) : Untouched im V s (s.take p) := by
  intro x hge hlt _
  refine ⟨rfl, fun _ => rfl, fun hpr => s.pmm.take_refs_ne ?_⟩
  intro he
  exact (h.pageFrame hge hlt hpr).refs (by rw [he]; exact hp.zero)

/-- A table is made of a free frame, and entered into the directory. -/
theorem ptePtrAlloc_frame (im : Image) (s : Phys) (va : Nat) (hne : f ≠ im.pageDir) (hf : s.pmm.refs f ≠ 0) :
    (s.ptePtrAlloc im va).2.mem f = s.mem f ∧ (s.ptePtrAlloc im va).2.pmm.refs f = s.pmm.refs f := by
  unfold Phys.ptePtrAlloc
  simp only []
  split
  · exact ⟨rfl, rfl⟩
  rcases pmmAlloc_cases s.pmm with ⟨he, -⟩ | ⟨t, ht, -, he⟩
  · rw [he, if_pos rfl]
    exact ⟨rfl, rfl⟩
  have hft : f ≠ t := by
    rintro rfl
    exact hf ht.zero
  rw [he]
  split
  · exact ⟨rfl, s.pmm.take_refs_ne hft⟩
  refine ⟨?_, s.pmm.take_refs_ne hft⟩
  rw [frameIdx_mul]
  refine (mem_setWord_ne _ hne _ _).trans ?_
  exact mem_zeroFrame_ne _ hft

theorem ptePtrAlloc_new (hbs : 0 < s.pmm.baseFrame) (h0 : s.word im.pageDir (pageDirIdx va) = 0)
    {e : Nat × Nat} (he : s.ptePtrAlloc im va = (some e, s1)) :
    ∃ t, s.pmm.Free t ∧ s1 = s.newTable im (pageDirIdx va) t := by
  unfold Phys.ptePtrAlloc at he
  simp only [] at he
  rw [h0, if_neg (by decide)] at he
  rcases pmmAlloc_cases s.pmm with ⟨hno, -⟩ | ⟨t, ht, -, hal⟩
  · rw [hno, if_pos rfl] at he
    cases he
  rw [hal, if_neg (ht.addr_ne hbs)] at he
  injection he with _ hs1
  refine ⟨t, ht, ?_⟩
  rw [← hs1, frameIdx_mul, or_present_write]
  rfl

theorem Owned.untouched_pagingMap (h : Owned im clones s) {p flags : Nat} (hge : 0x1000000 ≤ va)
    (hva : va < 2 ^ 32) (hf : flags < 4096) (hp : Spare im clones s p) (hV : V (va / pageSize)) :
    Untouched im V s (s.pagingMap im va (p * pageSize) flags) := by
  intro x hx1 hx2 hx
  have hne : x / pageSize ≠ va / pageSize := fun he => hx (by rw [he]; exact hV)
  rcases h.ptePtrAlloc hge hva with ⟨he, -, -⟩ | ⟨s1, he, hg⟩
  · have hmap : s.pagingMap im va (p * pageSize) flags = s := by
      unfold Phys.pagingMap
      rw [he]
    rw [hmap]
    exact .refl ..
  have htab : (s.ptePtrAlloc im va).1 ≠ none := by
    rw [he]
    exact Option.some_ne_none _
  have hwk := h.walk_pagingMap hge hva hf hp htab hx2
  rw [if_neg hne] at hwk
  have hfe : ∀ f, f ≠ im.pageDir → s.pmm.refs f ≠ 0 → s1.mem f = s.mem f ∧ s1.pmm.refs f = s.pmm.refs f := by
    intro f hfd hfr
    have := ptePtrAlloc_frame im s va hfd hfr
    rwa [he] at this
  refine ⟨hwk, fun hpr => ?_, fun hpr => ?_⟩
  all_goals
    have hpg := h.pageFrame hx1 hx2 hpr
    obtain ⟨hmem, hrf⟩ := hfe _ hpg.ne_dir hpg.refs
    unfold Phys.pagingMap
    rw [he]
  · refine (mem_setWord_ne s1 ?_ _ _).trans hmem
    -- the entry is written to a table, which is no page
    have hpr1 : s1.walk im.pageDir x % 2 = pagePresent := by
      rw [hg.walk x hx2]
      exact hpr
    have hpage1 := hg.owned.pageFrame hx1 hx2 hpr1
    rw [hg.walk x hx2] at hpage1
    exact (hpage1.table _ (hasTable_any.2 hg.table)).symm
  · exact hrf

theorem Owned.untouched_pagingUnmap (h : Owned im clones s) (hge : 0x1000000 ≤ va) (hva : va < 2 ^ 32)
    (hV : V (va / pageSize)) : Untouched im V s (s.pagingUnmap im va) := by
  intro x hx1 hx2 hx
  have hne : x / pageSize ≠ va / pageSize := fun he => hx (by rw [he]; exact hV)
  have hwk := (h.walk_pagingUnmap hge hva hx2).2 hne
  rcases h.pagingUnmap_cases hge hva with ⟨he, -⟩ | ⟨ht, hu, he⟩
  · rw [he]
    exact .refl ..
  refine ⟨hwk, fun hpr => ?_, fun hpr => ?_⟩
  all_goals
    have hpg := h.pageFrame hx1 hx2 hpr
    rw [he]
  · exact mem_setWord_ne _ (hpg.table _ (hasTable_any.2 ht)).symm _ _
  · show (pmmFree s.pmm _).refs _ = _
    rw [pmmFree_refs, frameIdx_mul, if_neg]
    rintro ⟨hfr, -⟩
    -- the frame given back is that of another page
    obtain ⟨hlv, hfe⟩ := h.live_of_translate hx1 hx2 (translate_split hpr).1
    rw [(translate_split hpr).2.1] at hfe
    have huse := h.inj _ _ hlv hu (by rw [hfe]; exact hfr)
    injection huse with _ hd hi
    exact hne (same_page.1 ⟨hd, hi⟩)

/-! ## Writing a page -/

/-- The first `n` bytes of a frame are overwritten. -/
def fill (s : Phys) (f : Nat) (src : Nat → UInt8) (n : Nat) : Phys :=
  { s with mem := update s.mem f fun o => if o < n then src o else s.mem f o }

theorem mem_fill_ne (s : Phys) {g : Nat} (h : g ≠ f) (src : Nat → UInt8) (n : Nat) : (s.fill f src n).mem g = s.mem g :=
  show update s.mem f _ g = _ from update_of_ne h ..

/-- The frame of a page is written, and nothing else changes. -/
theorem Owned.untouched_fill (h : Owned im clones s) (hge : 0x1000000 ≤ va) (hva : va < 2 ^ 32)
    (hp : s.walk im.pageDir va % 2 = pagePresent) (src : Nat → UInt8) (n : Nat) :
    Owned im clones (s.fill (s.walk im.pageDir va / pageSize) src n) ∧
      (∀ x < 2 ^ 32, (s.fill (s.walk im.pageDir va / pageSize) src n).walk im.pageDir x = s.walk im.pageDir x) ∧
      (V (va / pageSize) → Untouched im V s (s.fill (s.walk im.pageDir va / pageSize) src n)) := by
  have hpg := h.pageFrame hge hva hp
  obtain ⟨hlv, hfe⟩ := h.live_of_translate hge hva (translate_split hp).1
  obtain ⟨hdirs, htab⟩ := h.page_alone hlv
  rw [hfe, (translate_split hp).2.1] at hdirs htab
  obtain ⟨hown, hwk, -⟩ := h.write (s.fill (s.walk im.pageDir va / pageSize) src n) hpg.ge hdirs htab rfl
    fun g hg => mem_fill_ne s hg src n
  refine ⟨hown, hwk, fun hV x hx1 hx2 hx => ⟨hwk x hx2, fun hpr => mem_fill_ne s ?_ src n, fun _ => rfl⟩⟩
  intro he
  exact hx (by rw [h.page_inj hx1 hx2 hge hva hpr hp he]; exact hV)

/-- Writing within one page, through the directory in CR3. -/
theorem Owned.storeBytes_page (h : Owned im clones s) (hcr3 : s.active = im.pageDir) (hge : 0x1000000 ≤ va)
    (hva : va < 2 ^ 32) (hal : pageSize ∣ va) (hp : s.walk im.pageDir va % 2 = pagePresent) (src : Nat → UInt8)
    {n : Nat} (hn : n ≤ pageSize) : s.storeBytes va src n = some (s.fill (s.walk im.pageDir va / pageSize) src n) := by
  induction n with
  | zero =>
    have hsm : (fun o => if o < 0 then src o else s.mem (s.walk im.pageDir va / pageSize) o) =
        s.mem (s.walk im.pageDir va / pageSize) := by
      funext o
      exact if_neg (Nat.not_lt_zero o)
    rw [Phys.storeBytes]
    unfold fill
    rw [hsm, update_eq_self]
  | succ n ih =>
    have hoff : (va + n) / pageSize = va / pageSize ∧ (va + n) % pageSize = n ∧ va + n < 2 ^ 32 := by
      unfold pageSize at *
      omega
    obtain ⟨hdiv, hmod, hlt⟩ := hoff
    have hu32 : u32 (va + n) = va + n := Nat.mod_eq_of_lt hlt
    obtain ⟨-, hwk, -⟩ := h.untouched_fill (V := fun _ => True) hge hva hp src n
    generalize hf : s.walk im.pageDir va / pageSize = f at *
    have hact : (s.fill f src n).active = im.pageDir := hcr3
    have hw : (s.fill f src n).walk im.pageDir (va + n) = s.walk im.pageDir va :=
      (hwk _ hlt).trans (s.walk_page im.pageDir hdiv)
    rw [Phys.storeBytes, ih (by omega), Option.bind_some, hact, hu32, store_eq (by rw [hw]; exact hp), hw, hf, hmod]
    congr 1
    unfold poke fill
    simp only [update_self, update_idem]
    congr 1
    congr 1
    funext o
    by_cases ho : o = n
    · rw [ho, update_self, if_pos (Nat.lt_succ_self n)]
    rw [update_of_ne ho]
    by_cases hlt : o < n
    · rw [if_pos hlt, if_pos (by omega)]
    · rw [if_neg hlt, if_neg (by omega)]

end

end Phys

end KumOS.Paging
