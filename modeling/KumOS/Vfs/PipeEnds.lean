import KumOS.Pipes.Slices
import KumOS.Vfs.Model

/-!
# `vfs_pipe`

`vfs_pipe` asks `alloc_fd` twice and takes neither descriptor in between, so both
times it gets the same one.  It is the write end in the end, and nothing can be
read from the pipe through the descriptors it returns.
-/

namespace KumOS.Vfs

open Lib
open Pipes (freeSlot pipeCreate pipeCloseRead pipeCloseWrite fresh)
open Function (update update_self update_of_ne update_idem)

variable {X : Type}
variable {s : State X} {fd i : Nat} {ps : Pipes.Table UInt8}

/-! ## Numbers of descriptors -/

theorem slotOf_eq_some_iff {used : Nat → Bool} {n : Nat} {d : Int} :
    slotOf used n d = some i ↔ d = i ∧ i < n ∧ used i = true := by
  unfold slotOf
  constructor
  · intro h
    split at h
    · cases h
    rename_i hok
    obtain rfl := Option.some.inj h
    simp only [not_or, Int.not_lt, Int.not_le, Bool.not_eq_false] at hok
    obtain ⟨h0, hn, hus⟩ := hok
    refine ⟨?_, ?_, hus⟩ <;> omega
  · rintro ⟨rfl, hn, hus⟩
    rw [if_neg]
    · rfl
    · rintro (h | h | h)
      · omega
      · omega
      · rw [Int.toNat_natCast, hus] at h
        cases h

theorem allocFd_spec (h : allocFd s = some fd) : 3 ≤ fd ∧ fd < 32 ∧ s.fdUsed fd = false := by
  have hmem := List.mem_of_find?_eq_some h
  have hfr := List.find?_some h
  rw [List.mem_range'_1] at hmem
  refine ⟨hmem.1, hmem.2, ?_⟩
  simpa using hfr

theorem allocFd_isSome (h3 : 3 ≤ fd) (h32 : fd < 32) (hfr : s.fdUsed fd = false) : ∃ fd', allocFd s = some fd' := by
  cases h : allocFd s with
  | some fd' => exact ⟨fd', rfl⟩
  | none =>
    have hno := List.find?_eq_none.1 h fd (List.mem_range'_1.2 ⟨h3, h32⟩)
    simp [hfr] at hno

theorem allocFd_congr {s' : State X} (h : s'.fds = s.fds) : allocFd s' = allocFd s := by
  unfold allocFd State.fdUsed
  rw [h]

@[simp] theorem setFd_self (s : State X) (fd : Nat) (e : Fd) : (s.setFd fd e).fds fd = e :=
  update_self ..

theorem setFd_ne (s : State X) {fd' : Nat} (e : Fd) (h : fd' ≠ fd) : (s.setFd fd e).fds fd' = s.fds fd' :=
  update_of_ne h ..

theorem advance_eq (s : State X) (fd : Nat) (n : Int) :
    ∃ pos : Nat → Nat, s.advance fd n = { s with fds := fun k => { s.fds k with pos := pos k } } := by
  unfold State.advance
  split
  · refine ⟨fun k => if k = fd then u32 ((s.fds fd).pos + n.toNat) else (s.fds k).pos, ?_⟩
    unfold State.setFd
    congr 1
    funext k
    by_cases hk : k = fd
    · subst hk
      simp only [update_self, if_true]
    · simp only [update_of_ne hk, if_neg hk]
  · exact ⟨fun k => (s.fds k).pos, rfl⟩

/-! ## What `vfs_pipe` is for -/

/-- At least two descriptors from 3 on are free. -/
def TwoFree (s : State X) : Prop :=
  ∃ a b, a ≠ b ∧ (3 ≤ a ∧ a < 32 ∧ s.fdUsed a = false) ∧ 3 ≤ b ∧ b < 32 ∧ s.fdUsed b = false

/-- An end of pipe `i`. -/
structure IsEnd (e : Fd) (i : Nat) (readEnd : Bool) : Prop where
  used : e.used = true
  type : e.type = .pipe
  id : e.pipeId = i
  isRead : e.pipeEnd = 0 ↔ readEnd = true

instance (e : Fd) (i : Nat) (readEnd : Bool) : Decidable (IsEnd e i readEnd) :=
  decidable_of_iff (e.used = true ∧ e.type = .pipe ∧ e.pipeId = i ∧ (e.pipeEnd = 0 ↔ readEnd = true))
    ⟨fun ⟨h1, h2, h3, h4⟩ => ⟨h1, h2, h3, h4⟩, fun h => ⟨h.used, h.type, h.id, h.isRead⟩⟩

/-- What is written to descriptor `w` can be read from descriptor `r`. -/
def Carries (s : State X) (r w : Nat) : Prop :=
  ∀ (src dst : Bytes) (len : UInt32), len.toNat ≤ 4095 → ∃ (s1 : State X) (dst' : Bytes) (s2 : State X),
    vfsWrite s w src len = some (↑len.toNat, s1) ∧
    vfsRead s1 r dst len = some (↑len.toNat, dst', s2) ∧
    dst'.toList len.toNat = src.toList len.toNat

/-- `fds` are two new descriptors, for the ends of a pipe that was free and is empty. -/
def TwoEnds (s : State X) (fds : Int × Int) (s' : State X) : Prop :=
  ∃ r w i : Nat, fds = (↑r, ↑w) ∧ r ≠ w ∧ s.fdUsed r = false ∧ s.fdUsed w = false ∧
    IsEnd (s'.fds r) i true ∧ IsEnd (s'.fds w) i false ∧ (s.pipes i).used = false ∧
    s'.pipes i = fresh ∧ (∀ fd, fd ≠ r → fd ≠ w → s'.fds fd = s.fds fd) ∧ Carries s' r w

/-- The same pipes are in use, and they are as they were. -/
def SamePipes (s s' : State X) : Prop :=
  ∀ i, (s'.pipes i).used = (s.pipes i).used ∧ ((s.pipes i).used = true → s'.pipes i = s.pipes i)

/-- What a call of `vfs_pipe` is to do. -/
def PipeSpec (s : State X) : Prop :=
  ∀ fds0 r fds s', vfsPipe s fds0 = (r, fds, s') →
    (TwoFree s → freeSlot s.pipes ≠ none → r = 0 ∧ TwoEnds s fds s') ∧
    (r = -1 → s'.fds = s.fds ∧ SamePipes s s')

/-! ## What it does -/

theorem freeSlot_spec (h : freeSlot ps = some i) : i < 16 ∧ (ps i).used = false := by
  have hmem := List.mem_of_find?_eq_some h
  have hfr := List.find?_some h
  exact ⟨List.mem_range.1 hmem, by simpa using hfr⟩

theorem pipeCreate_of_free (h : freeSlot ps = some i) : pipeCreate ps = (↑i, update ps i fresh) := by
  unfold pipeCreate
  rw [h]

/-- The descriptor both calls of `alloc_fd` find is made the write end. -/
theorem vfsPipe_done (hsl : freeSlot s.pipes = some i) (hfd : allocFd s = some fd) (fds0 : Int × Int) :
    vfsPipe s fds0 = (0, (↑fd, ↑fd), { s with pipes := update s.pipes i fresh }.setFd fd
      (((s.fds fd).toPipe i 0 {}).toPipe i 1 { wronly := true })) := by
  have hfd' : allocFd { s with pipes := update s.pipes i fresh } = some fd := hfd
  have hpos : ¬ ((i : Int) < 0) := by omega
  unfold vfsPipe
  simp only [pipeCreate_of_free hsl, hfd', hpos, if_false, setFd_self]
  unfold State.setFd
  simp only [update_idem]

theorem vfsPipe_no_slot (hsl : freeSlot s.pipes = none) (fds0 : Int × Int) : vfsPipe s fds0 = (-1, fds0, s) := by
  unfold vfsPipe
  simp only [pipeCreate, hsl]
  rfl

theorem vfsPipe_no_fd (hsl : freeSlot s.pipes = some i) (hfd : allocFd s = none) (fds0 : Int × Int) :
    vfsPipe s fds0 = (-1, fds0, { s with
      pipes := pipeCloseWrite (pipeCloseRead (update s.pipes i fresh) i) i }) := by
  have hfd' : allocFd { s with pipes := update s.pipes i fresh } = none := hfd
  have hpos : ¬ ((i : Int) < 0) := by omega
  unfold vfsPipe
  simp only [pipeCreate_of_free hsl, hfd', hpos, if_false]

theorem closed_fresh (ps : Pipes.Table UInt8) (hi : i < 16) :
    (∀ j, j ≠ i → pipeCloseWrite (pipeCloseRead (update ps i fresh) i) i j = ps j) ∧
    (pipeCloseWrite (pipeCloseRead (update ps i fresh) i) i i).used = false := by
  have hrg : ¬ ((i : Int) < 0 ∨ (16 : Int) ≤ i) := by omega
  unfold pipeCloseWrite pipeCloseRead
  simp only [hrg, if_false, Int.toNat_natCast, update_self, update_idem]
  constructor
  · intro j hj
    exact update_of_ne hj _ _
  · rfl

/-- A call that fails leaves the descriptors and the pipes in use. -/
theorem vfsPipe_failed {s' : State X} {fds0 fds : Int × Int} (h : vfsPipe s fds0 = (-1, fds, s')) :
    s'.fds = s.fds ∧ SamePipes s s' := by
  cases hsl : freeSlot s.pipes with
  | none =>
    rw [vfsPipe_no_slot hsl] at h
    cases h
    exact ⟨rfl, fun i => ⟨rfl, fun _ => rfl⟩⟩
  | some i =>
    obtain ⟨hi, hunused⟩ := freeSlot_spec hsl
    cases hfd : allocFd s with
    | some fd =>
      rw [vfsPipe_done hsl hfd] at h
      cases h
    | none =>
      rw [vfsPipe_no_fd hsl hfd] at h
      cases h
      obtain ⟨hot, hclosed⟩ := closed_fresh s.pipes hi
      refine ⟨rfl, fun j => ?_⟩
      by_cases hj : j = i
      · rw [hj, hunused]
        exact ⟨hclosed, nofun⟩
      · have hsm := hot j hj
        exact ⟨congrArg Pipes.Pipe.used hsm, fun _ => hsm⟩

/-- **`vfs_pipe` never gives two ends**: the specification holds of a state only where it asks for
nothing, with fewer than two descriptors or no pipe slot free. -/
theorem pipe_never_two_ends (s : State X) : PipeSpec s ↔ ¬ (TwoFree s ∧ freeSlot s.pipes ≠ none) := by
  constructor
  · rintro hsc ⟨hfr, hsl⟩
    obtain ⟨i, hi⟩ := Option.ne_none_iff_exists'.1 hsl
    obtain ⟨a, b, -, ⟨h3, h32, ha⟩, -⟩ := id hfr
    obtain ⟨fd, hfd⟩ := allocFd_isSome h3 h32 ha
    have hca := vfsPipe_done hi hfd (0, 0)
    obtain ⟨-, r, w, -, hfds, hne, -⟩ := (hsc _ _ _ _ hca).1 hfr hsl
    obtain ⟨hr, hw⟩ := Prod.mk.inj hfds
    apply hne
    omega
  · intro hno fds0 r fds s' hca
    refine ⟨fun hfr hsl => absurd ⟨hfr, hsl⟩ hno, ?_⟩
    rintro rfl
    exact vfsPipe_failed hca

/-- The machine after booting, with nothing in memory and no volume. -/
def bareBoot : State Unit := vfsInitStdio (vfsInit Fs.cleared Fat12.initial ⟨[], []⟩ ())

/-- The first `vfs_pipe` after booting: all descriptors from 3 on are free, and both ends get
number 3. -/
theorem pipe_after_boot : TwoFree bareBoot ∧ freeSlot bareBoot.pipes ≠ none ∧
    ∃ s', vfsPipe bareBoot (0, 0) = (0, (3, 3), s') ∧ ¬ TwoEnds bareBoot (3, 3) s' := by
  have hsl : freeSlot bareBoot.pipes = some 0 := rfl
  have hfd : allocFd bareBoot = some 3 := rfl
  refine ⟨⟨3, 4, by decide, by decide, by decide⟩, by rw [hsl]; exact Option.some_ne_none 0,
    _, vfsPipe_done hsl hfd (0, 0), ?_⟩
  rintro ⟨r, w, -, hfds, hne, -⟩
  obtain ⟨hr, hw⟩ := Prod.mk.inj hfds
  apply hne
  omega

end KumOS.Vfs
