import KumOS.Paging.Frames

/-!
# `pmm_used_frames`

The counter follows the counts: it is the number of managed frames with a
reference.  It moves only when a count goes from zero to one or back, in
`pmm_alloc` and `pmm_free`; `pmm_ref` never moves it, so it is right as long as
`pmm_ref` is for frames that already have a reference.
-/

namespace KumOS.Paging

open Lib

variable {addr f memKb : Nat} {p q : Pmm}

namespace Pmm

/-- The frames `pmm_init` has put under the allocator. -/
def Managed (p : Pmm) (f : Nat) : Prop := p.baseFrame ≤ f ∧ f < p.baseFrame + p.totalFrames

instance (p : Pmm) (f : Nat) : Decidable (p.Managed f) := inferInstanceAs (Decidable (_ ∧ _))

/-- The number of managed frames with a reference. -/
def heldFrames (p : Pmm) : Nat := tally (fun k => p.refs (p.baseFrame + k) ≠ 0) p.totalFrames

theorem heldFrames_congr (hbs : q.baseFrame = p.baseFrame) (htotal : q.totalFrames = p.totalFrames)
    (h : ∀ f, p.Managed f → (q.refs f = 0 ↔ p.refs f = 0)) : q.heldFrames = p.heldFrames := by
  unfold heldFrames
  rw [hbs, htotal]
  exact tally_congr fun k hk => decide_eq_decide.2 (not_congr (h _ ⟨by omega, by omega⟩))

theorem heldFrames_gain (h : OnlyCount f p q) (hm : p.Managed f) (hp : p.refs f = 0) (hq : q.refs f ≠ 0) :
    q.heldFrames = p.heldFrames + 1 := by
  obtain ⟨hge, hlt⟩ := hm
  have hf : p.baseFrame + (f - p.baseFrame) = f := by omega
  unfold heldFrames
  rw [h.base, h.total]
  refine tally_set (i := f - p.baseFrame) (by omega) (fun j hj => ?_) ?_ ?_
  · rw [h.refs _ (by omega)]
  · rw [hf, hp]
    rfl
  · rw [hf]
    exact decide_eq_true hq

/-- The counter is `j` less than the number of managed frames in use. -/
structure Behind (p : Pmm) (j : Nat) : Prop where
  base : 0 < p.baseFrame
  range : p.baseFrame + p.totalFrames ≤ 65536
  used : p.usedFrames + j = p.heldFrames

/-- The counter is the number of managed frames in use. -/
def Exact (p : Pmm) : Prop := p.Behind 0

section

variable {j : Nat}

theorem Behind.used_le (h : p.Behind j) : p.usedFrames ≤ p.totalFrames := by
  have := h.used
  have : p.heldFrames ≤ p.totalFrames := tally_le _ _
  omega

theorem Behind.exact_iff (h : p.Behind j) : p.usedFrames = p.heldFrames ↔ j = 0 := by
  have := h.used
  omega

/-- What `pmm_alloc` looks for. -/
theorem Behind.free_iff (h : p.Behind j) : p.Free f ↔ p.Managed f ∧ p.refs f = 0 := by
  constructor
  · intro hf
    exact ⟨⟨hf.ge, hf.lt⟩, hf.zero⟩
  · rintro ⟨⟨hge, hlt⟩, hze⟩
    have := h.range
    exact ⟨hge, hlt, by omega, hze⟩

/-! ## The calls -/

theorem Behind.take (h : p.Behind j) {i : Nat} (hi : p.Free i) : (p.take i).Behind j := by
  refine ⟨h.base, h.range, ?_⟩
  have hone := p.take_refs_self i
  have hheld : (p.take i).heldFrames = p.heldFrames + 1 :=
    heldFrames_gain ⟨rfl, rfl, fun _ hg => p.take_refs_ne hg⟩ ⟨hi.ge, hi.lt⟩ hi.zero (by omega)
  have hle := h.used_le
  have hrg := h.range
  have hus : (p.take i).usedFrames = p.usedFrames + 1 := Nat.mod_eq_of_lt (by omega)
  have := h.used
  omega

theorem used_ref (p : Pmm) (addr : Nat) : (pmmRef p addr).usedFrames = p.usedFrames := by
  unfold pmmRef
  simp only []
  split <;> rfl

/-- One more reference to a frame that has one, or that is not managed. -/
theorem held_ref (hf : p.Managed (frameIdx addr) → p.refs (frameIdx addr) ≠ 0) :
    (pmmRef p addr).heldFrames = p.heldFrames := by
  have hol := pmmRef_only p addr
  refine heldFrames_congr hol.base hol.total fun f hm => ?_
  rw [pmmRef_refs]
  split
  · rename_i h
    obtain ⟨rfl, -, -⟩ := h
    have := hf hm
    omega
  · exact Iff.rfl

theorem Behind.ref (h : p.Behind j) (hf : p.Managed (frameIdx addr) → p.refs (frameIdx addr) ≠ 0) :
    (pmmRef p addr).Behind j := by
  have hol := pmmRef_only p addr
  refine ⟨?_, ?_, ?_⟩
  · rw [hol.base]
    exact h.base
  · rw [hol.base, hol.total]
    exact h.range
  · rw [used_ref, held_ref hf, h.used]

/-- The first reference to a managed frame, made by `pmm_ref`, is not counted. -/
theorem Behind.stray (h : p.Behind j) (hm : p.Managed (frameIdx addr)) (h0 : p.refs (frameIdx addr) = 0) :
    (pmmRef p addr).Behind (j + 1) := by
  have hol := pmmRef_only p addr
  have hmax : frameIdx addr < 65536 := by
    have := h.range
    have := hm.2
    omega
  refine ⟨?_, ?_, ?_⟩
  · rw [hol.base]
    exact h.base
  · rw [hol.base, hol.total]
    exact h.range
  · have hheld : (pmmRef p addr).heldFrames = p.heldFrames + 1 := by
      refine heldFrames_gain hol hm h0 ?_
      rw [pmmRef_refs, if_pos ⟨rfl, hmax, by omega⟩]
      omega
    rw [used_ref, hheld, ← h.used]
    omega

theorem Behind.free_shared (h : p.Behind j) (hf : p.refs (frameIdx addr) ≠ 1) : (pmmFree p addr).Behind j := by
  have hol := pmmFree_only p addr
  refine ⟨?_, ?_, ?_⟩
  · rw [hol.base]
    exact h.base
  · rw [hol.base, hol.total]
    exact h.range
  · rw [pmmFree_used, if_neg fun hc => hf hc.2, h.used]
    refine (heldFrames_congr hol.base hol.total fun f _ => ?_).symm
    rw [pmmFree_refs]
    split
    · rename_i hf'
      obtain ⟨rfl, -⟩ := hf'
      omega
    · exact Iff.rfl

theorem Exact.free_last (h : p.Exact) (hm : p.Managed (frameIdx addr)) (hone : p.refs (frameIdx addr) = 1) :
    (pmmFree p addr).Exact := by
  have hol := pmmFree_only p addr
  have hlt : frameIdx addr < 65536 := by
    have := h.range
    have := hm.2
    omega
  have hgain : p.heldFrames = (pmmFree p addr).heldFrames + 1 := by
    refine heldFrames_gain ⟨hol.base.symm, hol.total.symm, fun g hg => (hol.refs g hg).symm⟩ ?_ ?_ (by omega)
    · unfold Managed
      rw [hol.base, hol.total]
      exact hm
    · rw [pmmFree_refs, if_pos ⟨rfl, hlt⟩, hone]
  refine ⟨?_, ?_, ?_⟩
  · rw [hol.base]
    exact h.base
  · rw [hol.base, hol.total]
    exact h.range
  · have hus := h.used
    rw [pmmFree_used, if_pos ⟨hlt, hone⟩]
    omega

theorem Exact.free (h : p.Exact) (hm : p.Managed (frameIdx addr)) : (pmmFree p addr).Exact := by
  by_cases hone : p.refs (frameIdx addr) = 1
  · exact h.free_last hm hone
  · exact h.free_shared hone

end

end Pmm

/-! ## `pmm_init` -/

/-- The frames from 1 MB to the end of memory, or to 256 MB. -/
theorem pmmInit_total (hlo : 5120 ≤ memKb) (hhi : memKb < 4194304) :
    (pmmInit memKb).totalFrames = min 65280 ((memKb * 1024 - 0x100000) / 4096) := by
  have hmul : u32 (memKb * 1024) = memKb * 1024 := by
    unfold u32
    omega
  have hend : ∀ e, 0x500000 ≤ e → e ≤ 2 ^ 28 → u32 (e + 2 ^ 32 - 0x100000) = e - 0x100000 := by
    intro e h1 h2
    unfold u32
    omega
  unfold pmmInit
  simp only [hmul, pmmMaxFrames, pageSize, frameIdx]
  by_cases hclip : 65536 * 0x1000 < memKb * 1024
  · rw [if_pos hclip, hend _ (by omega) (by omega)]
    split <;> omega
  · rw [if_neg hclip, hend _ (by omega) (by omega)]
    split <;> omega

theorem pmmInit_exact (hlo : 5120 ≤ memKb) (hhi : memKb < 4194304) : (pmmInit memKb).Exact := by
  have htotal := pmmInit_total hlo hhi
  have hrf : ∀ k, (pmmInit memKb).refs (0x100 + k) = if 0x100 ≤ 0x100 + k ∧ 0x100 + k < 0x500 then 1 else
      if 0x100 ≤ 0x100 + k ∧ 0x100 + k < 0x100 + (pmmInit memKb).totalFrames then 0 else 0xFF := fun _ => rfl
  refine ⟨show 0 < 0x100 by decide, show 0x100 + (pmmInit memKb).totalFrames ≤ 65536 by omega, ?_⟩
  -- the frames of the kernel image come first, and they are the ones in use
  refine (tally_below (m := 0x400) (by omega) fun k hk => ?_).symm
  rw [decide_eq_true_eq]
  show (pmmInit memKb).refs (0x100 + k) ≠ 0 ↔ _
  rw [hrf]
  by_cases hkern : k < 0x400
  · rw [if_pos ⟨by omega, by omega⟩]
    exact ⟨fun _ => hkern, fun _ => by decide⟩
  · rw [if_neg (by omega), if_pos ⟨by omega, by omega⟩]
    exact ⟨absurd rfl, fun h => absurd h hkern⟩

/-! ## Runs -/

/-- `pmm_ref` is for managed frames that are allocated, `pmm_free` for managed frames. -/
inductive FrameUse (p : Pmm) : FrameOp → Pmm → Prop
  | alloc : FrameUse p .alloc (pmmAlloc p).2
  | ref {addr : Nat} : p.Managed (frameIdx addr) → p.refs (frameIdx addr) ≠ 0 → FrameUse p (.ref addr) (pmmRef p addr)
  | free {addr : Nat} : p.Managed (frameIdx addr) → FrameUse p (.free addr) (pmmFree p addr)

/-- The calls so far have given frame `f` back. -/
def GivenBack (ops : List FrameOp) (f : Nat) : Prop := ∃ addr, FrameOp.free addr ∈ ops ∧ frameIdx addr = f

theorem GivenBack.snoc {ops : List FrameOp} (op : FrameOp) (h : GivenBack ops f) : GivenBack (ops ++ [op]) f := by
  obtain ⟨addr, hm, hf⟩ := h
  exact ⟨addr, List.mem_append_left _ hm, hf⟩

/-- What a run keeps: the counter, and the image until it is given back. -/
structure Accounted (ops : List FrameOp) (p : Pmm) : Prop where
  exact : p.Exact
  base : p.baseFrame = 0x100
  image : ∀ f, 0x100 ≤ f → f < 0x500 → p.refs f = 0 → GivenBack ops f

theorem Accounted.step {ops : List FrameOp} {op : FrameOp} (h : Accounted ops p) (hs : FrameUse p op q) :
    Accounted (ops ++ [op]) q := by
  cases hs with
  | alloc =>
    rcases pmmAlloc_cases p with ⟨he, -⟩ | ⟨i, hi, -, he⟩
    · rw [he]
      exact ⟨h.exact, h.base, fun f h1 h2 h0 => (h.image f h1 h2 h0).snoc _⟩
    rw [he]
    refine ⟨h.exact.take hi, h.base, fun f h1 h2 h0 => ?_⟩
    by_cases hf : f = i
    · have hsf : (p.take i).refs f = 1 := by
        rw [hf]
        exact p.take_refs_self i
      rw [hsf] at h0
      cases h0
    · have hsm : (p.take i).refs f = p.refs f := p.take_refs_ne hf
      exact (h.image f h1 h2 (hsm.symm.trans h0)).snoc _
  | ref hm hne =>
    rename_i addr
    refine ⟨h.exact.ref fun _ => hne, (pmmRef_only p addr).base.trans h.base, fun f h1 h2 h0 => ?_⟩
    refine (h.image f h1 h2 ?_).snoc _
    rw [pmmRef_refs] at h0
    split at h0 <;> omega
  | free hm =>
    rename_i addr
    refine ⟨h.exact.free hm, (pmmFree_only p addr).base.trans h.base, fun f h1 h2 h0 => ?_⟩
    by_cases hf : f = frameIdx addr
    · exact ⟨addr, List.mem_append_right _ (List.mem_singleton.2 rfl), hf.symm⟩
    · rw [pmmFree_refs, if_neg fun hc => hf hc.1] at h0
      exact (h.image f h1 h2 h0).snoc _

theorem Accounted.init (hlo : 5120 ≤ memKb) (hhi : memKb < 4194304) : Accounted [] (pmmInit memKb) := by
  refine ⟨pmmInit_exact hlo hhi, rfl, fun f h1 h2 h0 => ?_⟩
  have hone : (pmmInit memKb).refs f = 1 := if_pos ⟨h1, h2⟩
  rw [hone] at h0
  cases h0

/-- Over every run, `pmm_used_frames` is the number of managed frames in use;
`pmm_alloc` fails only when all of them are, and hands out a frame that is not,
which is none of the kernel image unless that has been given back. -/
theorem frames_accounted (memKb : Nat) (hlo : 5120 ≤ memKb) (hhi : memKb < 4194304) (ops : List FrameOp) (p : Pmm)
    (hrun : Run FrameUse (pmmInit memKb) ops p) :
    p.usedFrames = p.heldFrames ∧ p.usedFrames ≤ p.totalFrames ∧
      ((pmmAlloc p).1 = 0 ↔ ∀ f, p.Managed f → p.refs f ≠ 0) ∧
      ((pmmAlloc p).1 ≠ 0 → ∃ f, (pmmAlloc p).1 = f * pageSize ∧ p.Managed f ∧ p.refs f = 0 ∧
        (pmmAlloc p).2.refs f = 1 ∧ (∀ g, g ≠ f → (pmmAlloc p).2.refs g = p.refs g) ∧
        ((pmmAlloc p).1 < 0x500000 → GivenBack ops f)) := by
  have h : Accounted ops p := Run.invariant_hist Accounted (.init hlo hhi) (fun _ _ _ _ h hs => h.step hs) hrun
  refine ⟨h.exact.used, h.exact.used_le, ?_, ?_⟩
  · rcases pmmAlloc_cases p with ⟨he, hno⟩ | ⟨i, hi, -, he⟩
    · rw [he]
      exact ⟨fun _ f hm h0 => hno f (h.exact.free_iff.2 ⟨hm, h0⟩), fun _ => rfl⟩
    · rw [he]
      exact ⟨fun h0 => absurd h0 (hi.addr_ne h.exact.base), fun hall => absurd hi.zero (hall i ⟨hi.ge, hi.lt⟩)⟩
  · intro hne
    rcases pmmAlloc_cases p with ⟨he, -⟩ | ⟨i, hi, -, he⟩
    · rw [he] at hne
      exact absurd rfl hne
    rw [he]
    refine ⟨i, rfl, ⟨hi.ge, hi.lt⟩, hi.zero, p.take_refs_self i, fun g hg => p.take_refs_ne hg, fun hlow => ?_⟩
    have hge := hi.ge
    rw [h.base] at hge
    refine h.image i hge ?_ hi.zero
    simp only [pageSize] at hlow
    omega

/-- One frame behind the kernel image: it is handed out and shared, and a frame of the image is given back. -/
theorem frames_accounted_shared : ∃ p,
    Run FrameUse (pmmInit 5124) [.alloc, .ref 0x500000, .free 0x100000, .free 0x500000] p ∧
      p.usedFrames = p.heldFrames ∧ (pmmAlloc p).1 = 0x100000 := by
  have hrun : Run FrameUse (pmmInit 5124) [.alloc, .ref 0x500000, .free 0x100000, .free 0x500000] _ :=
    .snoc (.snoc (.snoc (.single .alloc) (.ref (by decide +kernel) (by decide +kernel)))
      (.free (by decide +kernel))) (.free (by decide +kernel))
  exact ⟨_, hrun, (frames_accounted 5124 (by decide) (by decide) _ _ hrun).1, by decide +kernel⟩

end KumOS.Paging
