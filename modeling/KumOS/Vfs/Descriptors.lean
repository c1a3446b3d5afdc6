import KumOS.Vfs.Calls

/-!
# Descriptors and what they stand for

A descriptor of `/mem` or `/disk` stands for a slot of the driver, one of a pipe for
an end of it.  The slots have no count of their descriptors: `vfs_dup2` makes two
descriptors share one, and the first `vfs_close` of them releases it.  The counts of
a pipe are set by `pipe_create`, and no call adds to them.

Runs that keep clear of both are those in which every descriptor stays alive; the
first call that does not breaks it (`descriptors_alive`).
-/

namespace KumOS.Vfs

open Lib
open Fat12 (Name)
open Pipes (freeSlot fresh)
open Function (update update_self update_of_ne)
open Option (some_ne_none)
open State (fdUsed)

variable {X : Type}
variable {s s' : State X} {d data r : Int} {dr : Driver X} {i k : Nat}
variable {e : Fd} {S : Type} {n new old : Nat} {path : Name} {flags : Flags} {s1 : State X}
  {fd newfd oldfd : Int}

/-! ## Objects -/

/-- The slot a descriptor stands for; `none` for devices, other drivers and pipes. -/
inductive Ref where
  | mem (d : Int)
  | disk (d : Int)
  | none
  deriving DecidableEq

/-- What a slot has been opened on. -/
inductive Obj where
  | file (f : Nat)
  | name (n : Name)
  | device

def Driver.refOf (dr : Driver X) (data : Int) : Ref :=
  match dr with
  | .mem => .mem data
  | .disk => .disk data
  | _ => .none

def State.ref (s : State X) (e : Fd) : Ref :=
  if e.type = .pipe then .none
  else
    match s.driver e.mountIdx with
    | some dr => dr.refOf e.fdData
    | none => .none

/-- What is in a slot of a table, if it is in use. -/
def slotObj {S : Type} (used : S → Bool) (obj : S → Obj) (n : Nat) (slots : Nat → S) (d : Int) :
    Option Obj :=
  (slotOf (fun i => used (slots i)) n d).map fun i => obj (slots i)

def MemSlot.obj (sl : MemSlot) : Obj := .file sl.f

def DiskSlot.obj (sl : DiskSlot) : Obj := .name sl.name

def State.object (s : State X) : Ref → Option Obj
  | .mem d => slotObj MemSlot.used MemSlot.obj 16 s.mem.slots d
  | .disk d => slotObj DiskSlot.used DiskSlot.obj 8 s.disk.slots d
  | .none => some .device

theorem State.ref_congr (h : s'.mounts = s.mounts) (e : Fd) : s'.ref e = s.ref e := by
  unfold State.ref State.driver
  rw [h]

theorem State.ref_of_driver (hdr : s.driver e.mountIdx = some dr) (htype : e.type ≠ .pipe) :
    s.ref e = dr.refOf e.fdData := by
  unfold State.ref
  rw [if_neg htype, hdr]

theorem State.ref_of_undriven (h : e.type = .pipe ∨ s.driver e.mountIdx = none) : s.ref e = .none := by
  unfold State.ref
  rcases h with hpp | hdr
  · exact if_pos hpp
  · rw [hdr]
    split <;> rfl

/-- The open descriptors of an end of pipe `i`. -/
def endCount (s : State X) (i : Nat) (readEnd : Bool) : Nat :=
  (List.range 32).countP fun fd => decide (IsEnd (s.fds fd) i readEnd)

/-- Every open descriptor stands for something in use, and the pipes count theirs. -/
structure Alive (s : State X) : Prop where
  slots : ∀ fd < 32, s.fdUsed fd = true → s.object (s.ref (s.fds fd)) ≠ none
  pipes : ∀ fd < 32, s.fdUsed fd = true → (s.fds fd).type = .pipe →
    ∃ i : Nat, (s.fds fd).pipeId = i ∧ i < 16 ∧ (s.pipes i).used = true
  counts : ∀ i < 16, (s.pipes i).used = true →
    (s.pipes i).readers = endCount s i true ∧ (s.pipes i).writers = endCount s i false

/-! ## Drivers -/

/-- What the calls of a driver leave alone. -/
structure SameTables (s s' : State X) : Prop where
  fds : s'.fds = s.fds
  mounts : s'.mounts = s.mounts
  pipes : s'.pipes = s.pipes

/-- No slot in use is touched. -/
def Grew (s s' : State X) : Prop := ∀ ref, s.object ref ≠ none → s'.object ref = s.object ref

section

variable {S : Type} {used : S → Bool} {obj : S → Obj} {n : Nat} {slots slots' : Nat → S}

theorem slotObj_of_used (hi : i < n) (hus : used (slots i) = true) :
    slotObj used obj n slots i = some (obj (slots i)) := by
  unfold slotObj
  rw [slotOf_eq_some_iff.2 ⟨rfl, hi, hus⟩, Option.map_some]

theorem slotObj_ne_none (h : slotObj used obj n slots d ≠ none) : ∃ i : Nat, d = i ∧ i < n ∧ used (slots i) = true := by
  unfold slotObj at h
  rw [Ne, Option.map_eq_none_iff] at h
  obtain ⟨i, hi⟩ := Option.ne_none_iff_exists'.1 h
  exact ⟨i, slotOf_eq_some_iff.1 hi⟩

theorem slotObj_of_free (hfr : used (slots i) = false) : slotObj used obj n slots i = none := by
  by_contra hne
  obtain ⟨j, hj, -, hus⟩ := slotObj_ne_none hne
  obtain rfl : i = j := by omega
  rw [hfr] at hus
  cases hus

theorem slotObj_congr (h : ∀ i, used (slots i) = true → slots' i = slots i) (hne : slotObj used obj n slots d ≠ none) :
    slotObj used obj n slots' d = slotObj used obj n slots d := by
  obtain ⟨i, rfl, hi, hus⟩ := slotObj_ne_none hne
  have hsl := h i hus
  rw [slotObj_of_used hi hus, slotObj_of_used hi (by rw [hsl]; exact hus), hsl]

theorem slotObj_update_ne {sl : S} (h : d ≠ i) :
    slotObj used obj n (update slots i sl) d = slotObj used obj n slots d := by
  by_cases hneg : d < 0
  · have hnn : ∀ u, slotOf u n d = none := fun u => if_pos (.inl hneg)
    unfold slotObj
    rw [hnn, hnn]
    rfl
  obtain ⟨j, rfl⟩ := Int.eq_ofNat_of_zero_le (Int.not_lt.1 hneg)
  have hj : j ≠ i := fun hji => h (congrArg Int.ofNat hji)
  by_cases hu : j < n ∧ used (slots j) = true
  · have hu' : used (update slots i sl j) = true := by
      rw [update_of_ne hj]
      exact hu.2
    rw [slotObj_of_used hu.1 hu', slotObj_of_used hu.1 hu.2, update_of_ne hj]
  have hnn : ∀ slots1 : Nat → S, slots1 j = slots j →
      slotObj used obj n slots1 (j : Int) = none := by
    intro slots1 hsm
    by_contra hne
    obtain ⟨k, hk, hkn, hkused⟩ := slotObj_ne_none hne
    obtain rfl : j = k := by omega
    rw [hsm] at hkused
    exact hu ⟨hkn, hkused⟩
  exact (hnn _ (update_of_ne hj _ _)).trans (hnn slots rfl).symm

end

theorem grew_of_slots (hmem : ∀ d, s.mem.used d = true → s'.mem.slots d = s.mem.slots d)
    (hdk : ∀ d, s.disk.used d = true → s'.disk.slots d = s.disk.slots d) : Grew s s' := by
  intro ref hne
  cases ref with
  | mem d => exact slotObj_congr hmem hne
  | disk d => exact slotObj_congr hdk hne
  | none => rfl

theorem Grew.trans {s'' : State X} (h : Grew s s') (h' : Grew s' s'') : Grew s s'' := by
  intro ref hne
  have hs' := h ref hne
  rw [← hs']
  apply h'
  rw [hs']
  exact hne

theorem Looked.grew (h : Looked s s') : SameTables s s' ∧ Grew s s' := by
  refine ⟨⟨h.fds, h.mounts, h.pipes⟩, grew_of_slots (fun d _ => ?_) fun d _ => ?_⟩
  · rw [h.mem]
  · rw [h.slots]

/-- A call of a driver leaves the tables of `vfs.c`. -/
theorem Driver.Changes.sameTables {mem : Mem → Prop} {disk : Disk → Prop}
    (h : dr.Changes s mem disk s') : SameTables s s' := by
  cases h <;> exact ⟨rfl, rfl, rfl⟩

theorem TakesSlot.slotObj {used : S → Bool} {slots slots' : Nat → S} (h : TakesSlot used n slots slots' r)
    (obj : S → Obj) (hr : 0 ≤ r) : slotObj used obj n slots' r ≠ none ∧ slotObj used obj n slots r = none := by
  obtain ⟨d, rfl, hd, hfr, hus⟩ := h.taken hr
  refine ⟨?_, slotObj_of_free hfr⟩
  rw [slotObj_of_used hd hus]
  exact some_ne_none _

theorem Driver.open_spec (h : dr.open s path flags = some (data, s')) :
    SameTables s s' ∧ Grew s s' ∧ (0 ≤ data → s'.object (dr.refOf data) ≠ none ∧
      (dr.refOf data ≠ .none → s.object (dr.refOf data) = none)) := by
  have hchanges := dr.open_changes h
  refine ⟨hchanges.sameTables, ?_⟩
  cases hchanges with
  | mem hopen =>
    have htakes := memVfsOpen_slots hopen
    refine ⟨grew_of_slots (fun _ hd => htakes.kept hd) fun _ _ => rfl, fun hr => ?_⟩
    obtain ⟨hnew, hfr⟩ := htakes.slotObj MemSlot.obj hr
    exact ⟨hnew, fun _ => hfr⟩
  | disk hopen =>
    have htakes := diskVfsOpen_slots hopen
    refine ⟨grew_of_slots (fun _ _ => rfl) fun _ hd => htakes.kept hd, fun hr => ?_⟩
    obtain ⟨hnew, hfr⟩ := htakes.slotObj DiskSlot.obj hr
    exact ⟨hnew, fun _ => hfr⟩
  | dev v | other o ext =>
    exact ⟨grew_of_slots (fun _ _ => rfl) fun _ _ => rfl,
      fun _ => ⟨some_ne_none _, absurd rfl⟩⟩

theorem slotObj_release {used : S → Bool} {obj : S → Obj} {slots : Nat → S} {sl : S} (hfr : used sl = false) :
    slotObj used obj n (update slots i sl) i = none := by
  apply slotObj_of_free
  rw [update_self]
  exact hfr

theorem object_mem_release {d : Nat} {sl : MemSlot} (hfr : sl.used = false) :
    (∀ ref, ref ≠ .mem d →
      { s with mem := ⟨update s.mem.slots d sl, s.mem.fs⟩ }.object ref = s.object ref) ∧
    { s with mem := ⟨update s.mem.slots d sl, s.mem.fs⟩ }.object (.mem d) = none := by
  refine ⟨fun ref hne => ?_, slotObj_release hfr⟩
  cases ref with
  | mem d' => exact slotObj_update_ne fun h => hne (congrArg Ref.mem h)
  | disk d' => rfl
  | none => rfl

theorem object_disk_release {d : Nat} (fat : Fat12.State) :
    (∀ ref, ref ≠ .disk d → { s with disk := s.disk.release d fat }.object ref = s.object ref) ∧
    { s with disk := s.disk.release d fat }.object (.disk d) = none := by
  refine ⟨fun ref hne => ?_, slotObj_release rfl⟩
  cases ref with
  | disk d' => exact slotObj_update_ne fun h => hne (congrArg Ref.disk h)
  | mem d' => rfl
  | none => rfl

/-- Closing releases the slot, whoever else stands for it. -/
theorem Driver.close_spec (h : dr.close s data = some s') :
    SameTables s s' ∧ (∀ ref, ref ≠ dr.refOf data → s'.object ref = s.object ref) ∧
      (dr.refOf data ≠ .none → s'.object (dr.refOf data) = none) := by
  have hchanges := dr.close_changes h
  refine ⟨hchanges.sameTables, ?_⟩
  cases hchanges with
  | mem hclo =>
    subst hclo
    unfold memVfsClose
    split
    · rename_i hrg
      obtain ⟨d, rfl⟩ := Int.eq_ofNat_of_zero_le hrg.1
      obtain ⟨hot, hsf⟩ := object_mem_release
        (show ({ s.mem.slots d with used := false } : MemSlot).used = false from rfl)
      exact ⟨hot, fun _ => hsf⟩
    refine ⟨fun _ _ => rfl, fun _ => ?_⟩
    by_contra hne
    obtain ⟨i, rfl, hi, -⟩ := slotObj_ne_none hne
    omega
  | disk hclo =>
    rcases diskVfsClose_cases hclo with ⟨hd, rfl⟩ | ⟨d, fat, hd, rfl, -⟩
    · refine ⟨fun _ _ => rfl, fun _ => ?_⟩
      by_contra hne
      obtain ⟨i, hi⟩ := slotObj_ne_none hne
      rw [slotOf_eq_some_iff.2 hi] at hd
      cases hd
    · obtain ⟨rfl, -⟩ := slotOf_eq_some_iff.1 hd
      obtain ⟨hot, hsf⟩ := object_disk_release fat
      exact ⟨hot, fun _ => hsf⟩
  | dev v | other o ext =>
    exact ⟨fun ref _ => by cases ref <;> rfl, absurd rfl⟩

/-! ## Calls -/

inductive Op where
  | vfsOpen (path : Name) (flags : Flags)
  | vfsClose (fd : Int)
  | vfsPipe
  | vfsDup2 (oldfd newfd : Int)

def exec (s : State X) : Op → Option (Int × State X)
  | .vfsOpen path flags => vfsOpen s path flags
  | .vfsClose fd => vfsClose s fd
  | .vfsPipe => some ((vfsPipe s (0, 0)).1, (vfsPipe s (0, 0)).2.2)
  | .vfsDup2 oldfd newfd => vfsDup2 s oldfd newfd

/-- A slot in use before and after a call holds the same. -/
def SameObjects (s s' : State X) : Prop :=
  ∀ ref o o', s.object ref = some o → s'.object ref = some o' → o' = o

/-- After a `vfs_dup2` that succeeds both descriptors are open and have the entry of the old one. -/
def Dup2Ok (s : State X) (op : Op) (r : Int) (s' : State X) : Prop :=
  ∀ oldfd newfd, op = .vfsDup2 oldfd newfd → 0 ≤ r → r = newfd ∧
    s'.fdOf oldfd ≠ none ∧ s'.fdOf newfd ≠ none ∧ s'.fds oldfd.toNat = s.fds oldfd.toNat ∧
    s'.fds newfd.toNat = s.fds oldfd.toNat

/-- What a call is to keep. -/
structure CallOk (s : State X) (op : Op) (r : Int) (s' : State X) : Prop where
  alive : Alive s'
  same : SameObjects s s'
  dup2 : Dup2Ok s op r s'

/-- Another open descriptor stands for the slot of descriptor `k`. -/
def Shared (s : State X) (k : Nat) : Prop :=
  s.ref (s.fds k) ≠ .none ∧ ∃ j < 32, j ≠ k ∧ s.fdUsed j = true ∧ s.ref (s.fds j) = s.ref (s.fds k)

/-- The calls that do no harm: `vfs_pipe` fails, `vfs_dup2` is not given one descriptor twice, and no
descriptor is closed that shares its slot. -/
def Harmless (s : State X) : Op → Prop
  | .vfsOpen _ _ => True
  | .vfsClose fd => ∀ k, s.fdOf fd = some k → ¬ Shared s k
  | .vfsPipe => allocFd s = none ∨ freeSlot s.pipes = none
  | .vfsDup2 oldfd newfd => s.fdOf oldfd ≠ none → 0 ≤ newfd → newfd < 32 →
      oldfd ≠ newfd ∧ ∀ k, s.fdOf newfd = some k → ¬ Shared s k

def HarmlessStep (s : State X) (op : Op) (s' : State X) : Prop :=
  Harmless s op ∧ ∃ r, exec s op = some (r, s')

/-- The states of harmless runs: descriptors stand for slots in use, and there are no pipes. -/
structure Calm (s : State X) : Prop where
  slots : ∀ fd < 32, s.fdUsed fd = true → s.object (s.ref (s.fds fd)) ≠ none
  noPipe : ∀ fd < 32, s.fdUsed fd = true → (s.fds fd).type ≠ .pipe
  unused : ∀ i < 16, (s.pipes i).used = false

theorem Calm.alive (h : Calm s) : Alive s where
  slots := h.slots
  pipes := fun fd hfd hus htype => absurd htype (h.noPipe fd hfd hus)
  counts := by
    intro i hi hus
    rw [h.unused i hi] at hus
    cases hus

theorem sameObjects_of_grew (h : Grew s s') : SameObjects s s' := by
  intro ref o o' ho ho'
  have hsm := h ref (by rw [ho]; exact some_ne_none o)
  rw [hsm, ho] at ho'
  exact (Option.some.inj ho').symm

theorem Grew.trans_close {s2 : State X} (h : Grew s s1) (hclo : dr.close s1 data = some s2)
    (hfr : dr.refOf data ≠ .none → s.object (dr.refOf data) = none) : Grew s s2 := by
  obtain ⟨-, hot, -⟩ := dr.close_spec hclo
  intro ref hne
  by_cases href : ref = dr.refOf data
  · have hnn : dr.refOf data = .none := by
      by_contra hso
      exact hne (href ▸ hfr hso)
    rw [href, hnn]
    rfl
  · rw [hot ref href]
    exact h ref hne

/-- One more descriptor, or the descriptors as they were, over slots that have only been added. -/
theorem Calm.grew (h : Calm s) (hgrew : Grew s s') (hmt : s'.mounts = s.mounts) (hpipes : s'.pipes = s.pipes)
    (hfds : ∀ fd < 32, s'.fdUsed fd = true → s'.fds fd = s.fds fd ∧ s.fdUsed fd = true ∨
      (s'.fds fd).type ≠ .pipe ∧ s'.object (s'.ref (s'.fds fd)) ≠ none) :
    Calm s' where
  slots := by
    intro fd hfd hus
    rcases hfds fd hfd hus with ⟨hsm, hold⟩ | ⟨-, hnew⟩
    · have hne := h.slots fd hfd hold
      rw [hsm, State.ref_congr hmt, hgrew _ hne]
      exact hne
    · exact hnew
  noPipe := by
    intro fd hfd hus
    rcases hfds fd hfd hus with ⟨hsm, hold⟩ | ⟨htype, -⟩
    · rw [hsm]
      exact h.noPipe fd hfd hold
    · exact htype
  unused := by
    intro i hi
    rw [hpipes]
    exact h.unused i hi

/-! ## `vfs_open` -/

theorem Calm.open (h : Calm s) (hopen : vfsOpen s path flags = some (r, s')) : Calm s' ∧ SameObjects s s' := by
  obtain ⟨m, s1, -, hlk, hcs⟩ := vfsOpen_cases hopen
  obtain ⟨htab1, hgrew1⟩ := hlk.grew
  rcases hcs with ⟨-, -, rfl⟩ | ⟨midx, rest, dr, data, s2, -, hdr, hdv, hend⟩
  · refine ⟨h.grew hgrew1 htab1.mounts htab1.pipes fun fd _ hus => .inl ?_, sameObjects_of_grew hgrew1⟩
    rw [htab1.fds]
    exact ⟨rfl, by unfold fdUsed at hus ⊢; rwa [htab1.fds] at hus⟩
  obtain ⟨htab2, hgrew2, hsl⟩ := dr.open_spec hdv
  have hgrew := hgrew1.trans hgrew2
  have hfds : s2.fds = s.fds := htab2.fds.trans htab1.fds
  have hmt : s2.mounts = s.mounts := htab2.mounts.trans htab1.mounts
  have hpipes : s2.pipes = s.pipes := htab2.pipes.trans htab1.pipes
  have hold : ∀ s3 : State X, s3.fds = s.fds → ∀ fd < 32, s3.fdUsed fd = true →
      s3.fds fd = s.fds fd ∧ s.fdUsed fd = true ∨
        (s3.fds fd).type ≠ .pipe ∧ s3.object (s3.ref (s3.fds fd)) ≠ none := by
    intro s3 hs3 fd _ hus
    unfold fdUsed at hus ⊢
    rw [hs3] at hus ⊢
    exact .inl ⟨rfl, hus⟩
  rcases hend with ⟨-, -, rfl⟩ | ⟨hpos, hfinish⟩
  · exact ⟨h.grew hgrew hmt hpipes (hold _ hfds), sameObjects_of_grew hgrew⟩
  obtain ⟨hnew, hfr⟩ := hsl hpos
  rcases finishOpen_cases hfinish with ⟨-, -, hclo⟩ | ⟨fd, hfd, -, rfl⟩
  · -- no descriptor is left: the slot just taken is released again
    obtain ⟨htab3, -, -⟩ := dr.close_spec hclo
    have hfree' : dr.refOf data ≠ .none → s.object (dr.refOf data) = none := by
      intro hne
      by_contra hso
      have hs1 := hgrew1 _ hso
      rw [hfr hne] at hs1
      exact hso hs1.symm
    have hgrew3 := hgrew.trans_close hclo hfree'
    exact ⟨h.grew hgrew3 (htab3.mounts.trans hmt) (htab3.pipes.trans hpipes)
      (hold _ (htab3.fds.trans hfds)), sameObjects_of_grew hgrew3⟩
  have hgrew3 : Grew s (s2.setFd fd (openedFd (s2.fds fd) midx flags data)) := hgrew
  refine ⟨h.grew hgrew3 hmt hpipes fun k hk hus => ?_, sameObjects_of_grew hgrew3⟩
  by_cases hkfd : k = fd
  · right
    rw [hkfd, setFd_self]
    have href : (s2.setFd fd (openedFd (s2.fds fd) midx flags data)).ref
        (openedFd (s2.fds fd) midx flags data) = dr.refOf data := by
      have hdr2 : s2.driver midx = some dr := by
        unfold State.driver at hdr ⊢
        rw [htab2.mounts]
        exact hdr
      exact State.ref_of_driver hdr2 nofun
    refine ⟨nofun, ?_⟩
    rw [href]
    exact hnew
  · have hsm : (s2.setFd fd (openedFd (s2.fds fd) midx flags data)).fds k = s2.fds k :=
      setFd_ne _ _ hkfd
    unfold fdUsed at hus
    rw [hsm, hfds] at hus
    exact .inl ⟨hsm.trans (congrFun hfds k), hus⟩

/-! ## `vfs_close` and `vfs_dup2` -/

/-- Closing a descriptor of a calm state releases what it stands for. -/
theorem Calm.close_spec (h : Calm s) (hk : s.fdOf fd = some k) (hclo : vfsClose s fd = some (r, s')) :
    r = 0 ∧ s'.mounts = s.mounts ∧ s'.pipes = s.pipes ∧
      s'.fds = update s.fds k { s.fds k with used := false } ∧
      (∀ ref, ref ≠ s.ref (s.fds k) → s'.object ref = s.object ref) ∧
      (s.ref (s.fds k) ≠ .none → s'.object (s.ref (s.fds k)) = none) := by
  obtain ⟨-, hk32, hus⟩ := slotOf_eq_some_iff.1 hk
  have htype := h.noPipe k hk32 hus
  unfold vfsClose at hclo
  simp only [hk, htype, if_false] at hclo
  cases hdr : s.driver (s.fds k).mountIdx with
  | none =>
    simp only [hdr] at hclo
    cases hclo
    rw [State.ref_of_undriven (.inr hdr)]
    exact ⟨rfl, rfl, rfl, rfl, fun _ _ => rfl, absurd rfl⟩
  | some dr =>
    simp only [hdr] at hclo
    obtain ⟨s1, hdclose, heq⟩ := Option.map_eq_some_iff.1 hclo
    cases heq
    obtain ⟨htab, hot, hsf⟩ := dr.close_spec hdclose
    rw [State.ref_of_driver hdr htype]
    refine ⟨rfl, htab.mounts, htab.pipes, ?_, hot, hsf⟩
    show update s1.fds k _ = _
    rw [htab.fds]

/-- A slot that `k` does not share is kept when `k` is released. -/
theorem Calm.slot_kept (h : Calm s) (hot : ∀ ref, ref ≠ s.ref (s.fds k) → s'.object ref = s.object ref) (hsh : ¬ Shared s k)
    {j : Nat} (hj : j < 32) (hjk : j ≠ k) (hus : s.fdUsed j = true) : s'.object (s.ref (s.fds j)) ≠ none := by
  by_cases href : s.ref (s.fds j) = s.ref (s.fds k)
  · have hnn : s.ref (s.fds k) = .none := by
      by_contra hne
      exact hsh ⟨hne, j, hj, hjk, hus, href⟩
    rw [href, hnn]
    exact some_ne_none _
  · rw [hot _ href]
    exact h.slots j hj hus

theorem Calm.released (h : Calm s) (hmt : s'.mounts = s.mounts) (hpipes : s'.pipes = s.pipes)
    (hot : ∀ ref, ref ≠ s.ref (s.fds k) → s'.object ref = s.object ref) (hfds : ∀ j < 32, j ≠ k → s'.fds j = s.fds j)
    (hk : s'.fdUsed k = true → (s'.fds k).type ≠ .pipe ∧ s'.object (s'.ref (s'.fds k)) ≠ none)
    (hsh : ¬ Shared s k) : Calm s' where
  slots := by
    intro j hj hus
    by_cases hjk : j = k
    · subst hjk
      exact (hk hus).2
    have hsm := hfds j hj hjk
    unfold fdUsed at hus
    rw [hsm] at hus
    rw [hsm, State.ref_congr hmt]
    exact h.slot_kept hot hsh hj hjk hus
  noPipe := by
    intro j hj hus
    by_cases hjk : j = k
    · subst hjk
      exact (hk hus).1
    have hsm := hfds j hj hjk
    unfold fdUsed at hus
    rw [hsm] at hus ⊢
    exact h.noPipe j hj hus
  unused := by
    intro i hi
    rw [hpipes]
    exact h.unused i hi

/-- The other descriptor of a released slot is left without one. -/
theorem not_alive_of_shared (hmt : s'.mounts = s.mounts)
    (hsf : s.ref (s.fds k) ≠ .none → s'.object (s.ref (s.fds k)) = none)
    (hfds : ∀ j < 32, j ≠ k → s'.fds j = s.fds j) (hsh : Shared s k) : ¬ Alive s' := by
  intro halive
  obtain ⟨hne, j, hj, hjk, hus, href⟩ := hsh
  have hsm := hfds j hj hjk
  have hsl := halive.slots j hj (by unfold fdUsed at hus ⊢; rw [hsm]; exact hus)
  apply hsl
  rw [hsm, State.ref_congr hmt, href]
  exact hsf hne

theorem sameObjects_of_release (hot : ∀ ref, ref ≠ s.ref (s.fds k) → s'.object ref = s.object ref)
    (hsf : s.ref (s.fds k) ≠ .none → s'.object (s.ref (s.fds k)) = none) : SameObjects s s' := by
  intro ref o o' ho ho'
  by_cases href : ref = s.ref (s.fds k)
  · rw [← href] at hsf
    cases ref with
    | none => exact Option.some.inj (ho'.symm.trans ho)
    | mem d | disk d =>
      rw [hsf nofun] at ho'
      cases ho'
  · rw [hot ref href, ho] at ho'
    exact (Option.some.inj ho').symm

theorem Calm.close (h : Calm s) (hclo : vfsClose s fd = some (r, s')) :
    SameObjects s s' ∧ (Alive s' ↔ Harmless s (.vfsClose fd)) ∧
      (Harmless s (.vfsClose fd) → Calm s') := by
  cases hk : s.fdOf fd with
  | none =>
    unfold vfsClose at hclo
    simp only [hk] at hclo
    cases hclo
    have hhl : Harmless s (.vfsClose fd) := by
      intro k hk'
      rw [hk] at hk'
      cases hk'
    exact ⟨fun ref o o' ho ho' => Option.some.inj (ho'.symm.trans ho),
      iff_of_true h.alive hhl, fun _ => h⟩
  | some k =>
    obtain ⟨-, hmt, hpipes, hfds, hot, hsf⟩ := h.close_spec hk hclo
    have hold : ∀ j < 32, j ≠ k → s'.fds j = s.fds j := by
      intro j _ hjk
      rw [hfds, update_of_ne hjk]
    have hclosed : ¬ s'.fdUsed k = true := by
      unfold fdUsed
      rw [hfds, update_self]
      exact Bool.false_ne_true
    have hcalm : Harmless s (.vfsClose fd) → Calm s' := fun hhl =>
      h.released hmt hpipes hot hold (fun hu => absurd hu hclosed) (hhl k hk)
    refine ⟨sameObjects_of_release hot hsf, ⟨fun halive k' hk' hsh => ?_,
      fun hhl => (hcalm hhl).alive⟩, hcalm⟩
    obtain rfl : k = k' := Option.some.inj (hk.symm.trans hk')
    exact not_alive_of_shared hmt hsf hold hsh halive

theorem sameObjects_refl (s : State X) : SameObjects s s :=
  fun _ _ _ ho ho' => Option.some.inj (ho'.symm.trans ho)

/-- The ways a `vfs_dup2` can end. -/
theorem vfsDup2_cases (h : vfsDup2 s oldfd newfd = some (r, s')) :
    ((s.fdOf oldfd = none ∨ newfd < 0 ∨ 32 ≤ newfd) ∧ r = -1 ∧ s' = s) ∨
    ∃ old new : Nat, s.fdOf oldfd = some old ∧ newfd = new ∧ new < 32 ∧ r = new ∧
      (s.fdUsed new = false ∧ s' = s.setFd new (s.fds old) ∨
        s.fdUsed new = true ∧ ∃ r1 s1, vfsClose s new = some (r1, s1) ∧
          s' = s1.setFd new (s1.fds old)) := by
  unfold vfsDup2 at h
  cases hold : s.fdOf oldfd with
  | none =>
    simp only [hold] at h
    cases h
    exact .inl ⟨.inl rfl, rfl, rfl⟩
  | some old =>
    simp only [hold] at h
    split at h
    · rename_i hrg
      cases h
      exact .inl ⟨.inr hrg, rfl, rfl⟩
    obtain ⟨new, rfl⟩ := Int.eq_ofNat_of_zero_le (by omega : 0 ≤ newfd)
    refine .inr ⟨old, new, rfl, rfl, by omega, ?_⟩
    split at h
    · rename_i hus
      obtain ⟨⟨r1, s1⟩, hclo, heq⟩ := Option.map_eq_some_iff.1 h
      cases heq
      exact ⟨rfl, .inr ⟨hus, r1, s1, hclo, rfl⟩⟩
    · rename_i hus
      cases h
      exact ⟨rfl, .inl ⟨by simpa using hus, rfl⟩⟩

theorem fdOf_ne_none {fd : Nat} (hfd : fd < 32) (hus : (s.fds fd).used = true) : s.fdOf fd ≠ none := by
  have hso : s.fdOf fd = some fd := slotOf_eq_some_iff.2 ⟨rfl, hfd, hus⟩
  rw [hso]
  exact some_ne_none fd

/-- `vfs_dup2` to a number that is free. -/
theorem Calm.dup2_free (h : Calm s) (hold : s.fdOf (old : Int) = some old) (hnew : new < 32)
    (hfr : s.fdUsed new = false) :
    Calm (s.setFd new (s.fds old)) ∧
      CallOk s (.vfsDup2 old new) new (s.setFd new (s.fds old)) ∧ old ≠ new := by
  obtain ⟨-, hold32, hus⟩ := slotOf_eq_some_iff.1 hold
  have hne : old ≠ new := by
    rintro rfl
    rw [hfr] at hus
    cases hus
  have hcalm : Calm (s.setFd new (s.fds old)) := by
    refine h.grew (fun _ _ => rfl) rfl rfl fun fd hfd hu => ?_
    by_cases hfdnew : fd = new
    · rw [hfdnew, setFd_self]
      exact .inr ⟨h.noPipe old hold32 hus, h.slots old hold32 hus⟩
    have hsm : (s.setFd new (s.fds old)).fds fd = s.fds fd := setFd_ne _ _ hfdnew
    unfold fdUsed at hu
    rw [hsm] at hu
    exact .inl ⟨hsm, hu⟩
  refine ⟨hcalm, ⟨hcalm.alive, sameObjects_refl s, ?_⟩, hne⟩
  rintro oldfd newfd heq -
  cases heq
  have hsold : (s.setFd new (s.fds old)).fds old = s.fds old := setFd_ne _ _ hne
  refine ⟨rfl, fdOf_ne_none hold32 ?_, fdOf_ne_none hnew ?_, hsold, setFd_self _ _ _⟩
  · rw [hsold]
    exact hus
  · rw [setFd_self]
    exact hus

/-- `vfs_dup2` to an open descriptor closes that one first. -/
theorem Calm.dup2_open (h : Calm s) {r1 : Int} (hold : s.fdOf (old : Int) = some old)
    (hnew : s.fdOf (new : Int) = some new) (hclo : vfsClose s new = some (r1, s1)) (hne : old ≠ new) :
    (¬ Shared s new → Calm (s1.setFd new (s1.fds old))) ∧
      (Shared s new → ¬ Alive (s1.setFd new (s1.fds old))) ∧
      SameObjects s (s1.setFd new (s1.fds old)) ∧
      Dup2Ok s (.vfsDup2 old new) new (s1.setFd new (s1.fds old)) := by
  obtain ⟨-, hold32, hus⟩ := slotOf_eq_some_iff.1 hold
  obtain ⟨-, hnew32, -⟩ := slotOf_eq_some_iff.1 hnew
  obtain ⟨-, hmt, hpipes, hfds, hot, hsf⟩ := h.close_spec hnew hclo
  have hs1old : s1.fds old = s.fds old := by rw [hfds, update_of_ne hne]
  have hfds' : ∀ j < 32, j ≠ new → (s1.setFd new (s1.fds old)).fds j = s.fds j := by
    intro j _ hj
    rw [setFd_ne _ _ hj, hfds, update_of_ne hj]
  refine ⟨fun hsh => ?_, fun hsh => ?_, sameObjects_of_release hot hsf, ?_⟩
  · refine h.released hmt hpipes hot hfds' (fun _ => ?_) hsh
    rw [setFd_self, hs1old]
    refine ⟨h.noPipe old hold32 hus, ?_⟩
    show s1.object (s1.ref (s.fds old)) ≠ none
    rw [State.ref_congr hmt]
    exact h.slot_kept hot hsh hold32 hne hus
  · exact not_alive_of_shared hmt hsf hfds' hsh
  · rintro oldfd newfd heq -
    cases heq
    refine ⟨rfl, fdOf_ne_none hold32 ?_, fdOf_ne_none hnew32 ?_, hfds' old hold32 hne, ?_⟩
    · rw [hfds' old hold32 hne]
      exact hus
    · rw [setFd_self, hs1old]
      exact hus
    · rw [Int.toNat_natCast, setFd_self, hs1old]
      rfl

theorem Calm.dup2 (h : Calm s) (hdup : vfsDup2 s oldfd newfd = some (r, s')) :
    (CallOk s (.vfsDup2 oldfd newfd) r s' ↔ Harmless s (.vfsDup2 oldfd newfd)) ∧
      (Harmless s (.vfsDup2 oldfd newfd) → Calm s') := by
  rcases vfsDup2_cases hdup with ⟨hbad, rfl, rfl⟩ | ⟨old, new, hold, rfl, hnew32, rfl, hcs⟩
  · have hhl : Harmless s' (.vfsDup2 oldfd newfd) := by
      intro hopen h0 h32
      rcases hbad with hno | hno | hno
      · exact absurd hno hopen
      · omega
      · omega
    refine ⟨iff_of_true ⟨h.alive, sameObjects_refl s', ?_⟩ hhl, fun _ => h⟩
    rintro - - - hpos
    omega
  obtain ⟨rfl, hold32, hus⟩ := slotOf_eq_some_iff.1 hold
  rcases hcs with ⟨hfr, rfl⟩ | ⟨hopen, r1, s1, hclo, rfl⟩
  · obtain ⟨hcalm, hok, hne⟩ := h.dup2_free hold hnew32 hfr
    refine ⟨iff_of_true hok fun _ _ _ => ⟨fun heq => hne (by omega), fun k hk => ?_⟩, fun _ => hcalm⟩
    obtain ⟨hk', -, hku⟩ := slotOf_eq_some_iff.1 hk
    obtain rfl : new = k := by omega
    rw [hfr] at hku
    cases hku
  have hnew : s.fdOf (new : Int) = some new := slotOf_eq_some_iff.2 ⟨rfl, hnew32, hopen⟩
  by_cases hne : old = new
  · -- the descriptor is closed, and its entry copied to itself
    subst hne
    obtain ⟨-, -, -, hfds, -⟩ := h.close_spec hnew hclo
    have hno : ¬ Harmless s (.vfsDup2 old old) := by
      intro hhl
      have := hhl (by rw [hold]; exact some_ne_none old) (by omega) (by omega)
      exact this.1 rfl
    refine ⟨iff_of_false (fun hok => ?_) hno, fun hhl => absurd hhl hno⟩
    obtain ⟨-, hopen', -⟩ := hok.dup2 old old rfl (by omega)
    apply hopen'
    apply Option.eq_none_iff_forall_ne_some.2
    intro k hk
    obtain ⟨hk', -, hku⟩ := slotOf_eq_some_iff.1 hk
    obtain rfl : old = k := by omega
    unfold fdUsed at hku
    rw [setFd_self, hfds, update_self] at hku
    cases hku
  · obtain ⟨hcalm, hdd, hsm, hdup⟩ := h.dup2_open hold hnew hclo hne
    have hiff : Harmless s (.vfsDup2 old new) ↔ ¬ Shared s new := by
      constructor
      · intro hhl
        have := hhl (by rw [hold]; exact some_ne_none old) (by omega) (by omega)
        exact this.2 new hnew
      · intro hsh _ _ _
        refine ⟨fun heq => hne (by omega), fun k hk => ?_⟩
        obtain rfl : new = k := Option.some.inj (hnew.symm.trans hk)
        exact hsh
    rw [hiff]
    refine ⟨⟨fun hok hsh => hdd hsh hok.alive, fun hsh => ?_⟩, hcalm⟩
    exact ⟨(hcalm hsh).alive, hsm, hdup⟩

/-! ## `vfs_pipe` -/

/-- No descriptor is open on the read end of the pipe that was made. -/
theorem Calm.pipe_done (h : Calm s) {fd : Nat} (hsl : freeSlot s.pipes = some i)
    (hfd : allocFd s = some fd) : ¬ Alive (vfsPipe s (0, 0)).2.2 := by
  intro halive
  obtain ⟨hi, -⟩ := freeSlot_spec hsl
  rw [vfsPipe_done hsl hfd] at halive
  have hpp : ({ s with pipes := update s.pipes i fresh }.setFd fd
      (((s.fds fd).toPipe i 0 {}).toPipe i 1 { wronly := true })).pipes i = fresh := by
    show update s.pipes i fresh i = fresh
    rw [update_self]
  have hct := (halive.counts i hi (by rw [hpp]; rfl)).1
  rw [hpp] at hct
  have hze : endCount ({ s with pipes := update s.pipes i fresh }.setFd fd
      (((s.fds fd).toPipe i 0 {}).toPipe i 1 { wronly := true })) i true = 0 := by
    unfold endCount
    rw [List.countP_eq_zero]
    intro j hj
    rw [List.mem_range] at hj
    rw [decide_eq_true_eq]
    intro hend
    by_cases hjfd : j = fd
    · rw [hjfd, setFd_self] at hend
      have hrd := hend.isRead.2 rfl
      cases hrd
    · rw [setFd_ne _ _ hjfd] at hend
      exact h.noPipe j hj hend.used hend.type
  rw [hze] at hct
  cases hct

theorem Calm.pipe (h : Calm s) :
    (CallOk s .vfsPipe (vfsPipe s (0, 0)).1 (vfsPipe s (0, 0)).2.2 ↔ Harmless s .vfsPipe) ∧
      (Harmless s .vfsPipe → Calm (vfsPipe s (0, 0)).2.2) := by
  have hdup : ∀ r s', Dup2Ok s .vfsPipe r s' := fun r s' _ _ heq => by cases heq
  have hcalm : ∀ s', vfsPipe s (0, 0) = (-1, (0, 0), s') → s'.mounts = s.mounts → Grew s s' →
      Calm s' := by
    intro s' hca hmt hgrew
    obtain ⟨hfds, hpipes⟩ := vfsPipe_failed hca
    refine ⟨fun fd hfd hus => ?_, fun fd hfd hus => ?_, fun i hi => ?_⟩
    · unfold fdUsed at hus
      rw [hfds] at hus ⊢
      rw [State.ref_congr hmt, hgrew _ (h.slots fd hfd hus)]
      exact h.slots fd hfd hus
    · unfold fdUsed at hus
      rw [hfds] at hus ⊢
      exact h.noPipe fd hfd hus
    · rw [(hpipes i).1]
      exact h.unused i hi
  cases hsl : freeSlot s.pipes with
  | none =>
    have hca := vfsPipe_no_slot hsl (0, 0)
    rw [hca]
    exact ⟨iff_of_true ⟨h.alive, sameObjects_refl s, hdup _ _⟩ (.inr hsl), fun _ => h⟩
  | some i =>
    cases hfd : allocFd s with
    | none =>
      have hca := vfsPipe_no_fd hsl hfd (0, 0)
      have hc := hcalm _ hca rfl fun _ _ => rfl
      rw [hca]
      exact ⟨iff_of_true ⟨hc.alive, sameObjects_refl s, hdup _ _⟩ (.inl hfd), fun _ => hc⟩
    | some fd =>
      have hno : ¬ Harmless s .vfsPipe := by
        rintro (hnn | hnn)
        · rw [hfd] at hnn
          cases hnn
        · rw [hsl] at hnn
          cases hnn
      exact ⟨iff_of_false (fun hok => h.pipe_done hsl hfd hok.alive) hno,
        fun hhl => absurd hhl hno⟩

/-! ## Whole runs -/

/-- The machine after booting, with any further mounts. -/
def boot (extra : List (Mount X)) (fs : Fs.State) (fat : Fat12.State) (dev : Dev) (ext : X) : State X :=
  { vfsInitStdio (vfsInit fs fat dev ext) with mounts := initMounts ++ extra }

theorem boot_fds (extra : List (Mount X)) (fs : Fs.State) (fat : Fat12.State) (dev : Dev) (ext : X) (fd : Nat) :
    (boot extra fs fat dev ext).fds fd =
      if fd < 3 then stdioFd (X := X) initMounts .cleared fd else .cleared :=
  rfl

theorem calm_boot (extra : List (Mount X)) (fs : Fs.State) (fat : Fat12.State) (dev : Dev) (ext : X) :
    Calm (boot extra fs fat dev ext) where
  slots := by
    intro fd _ hus
    unfold fdUsed at hus
    rw [boot_fds] at hus ⊢
    split at hus
    · rename_i h3
      have hdv : (boot extra fs fat dev ext).driver
          (stdioFd (X := X) initMounts .cleared fd).mountIdx = some .dev := rfl
      rw [if_pos h3, State.ref_of_driver hdv nofun]
      exact some_ne_none _
    · cases hus
  noPipe := by
    intro fd _ hus
    rw [boot_fds]
    split
    · exact nofun
    · exact nofun
  unused := fun _ _ => rfl

theorem Calm.step (h : Calm s) {op : Op} (hex : exec s op = some (r, s')) :
    (CallOk s op r s' ↔ Harmless s op) ∧ (Harmless s op → Calm s') := by
  cases op with
  | vfsOpen path flags =>
    obtain ⟨hcalm, hsm⟩ := h.open hex
    refine ⟨iff_of_true ⟨hcalm.alive, hsm, ?_⟩ trivial, fun _ => hcalm⟩
    intro _ _ heq
    cases heq
  | vfsClose fd =>
    obtain ⟨hsm, hiff, hcalm⟩ := h.close hex
    refine ⟨⟨fun hok => hiff.1 hok.alive, fun hhl => ⟨hiff.2 hhl, hsm, ?_⟩⟩, hcalm⟩
    intro _ _ heq
    cases heq
  | vfsPipe =>
    cases hex
    exact h.pipe
  | vfsDup2 oldfd newfd => exact h.dup2 hex

theorem run_calm {extra : List (Mount X)} {fs : Fs.State} {fat : Fat12.State} {dev : Dev} {ext : X}
    {ops : List Op} (hrun : Run HarmlessStep (boot extra fs fat dev ext) ops s) : Calm s := by
  refine Run.invariant Calm (calm_boot extra fs fat dev ext) ?_ hrun
  rintro s1 op s2 h ⟨hhl, r, hex⟩
  exact (h.step hex).2 hhl

/-- **Descriptors stay alive in harmless runs, and only in these.**  After booting and any calls that
are harmless, every open descriptor stands for something in use and the pipes count their ends; the
next call keeps that, and does not change what a slot holds, exactly when it is harmless too. -/
theorem descriptors_alive {extra : List (Mount X)} {fs : Fs.State} {fat : Fat12.State} {dev : Dev}
    {ext : X} {ops : List Op} {s : State X} (hrun : Run HarmlessStep (boot extra fs fat dev ext) ops s) :
    Alive s ∧ ∀ op r s', exec s op = some (r, s') → (CallOk s op r s' ↔ Harmless s op) :=
  ⟨(run_calm hrun).alive, fun _ _ _ hex => ((run_calm hrun).step hex).1⟩

/-- A file is opened twice, the second descriptor gets the console, and the first is closed. -/
theorem descriptors_alive_twice : ∃ s s' : State Unit,
    Run HarmlessStep (boot [] Fs.cleared Fat12.initial ⟨[], []⟩ ())
      [.vfsOpen (memPath ++ [47, 97]) { creat := true }, .vfsOpen (memPath ++ [47, 97]) {}, .vfsDup2 1 4] s ∧
    Alive s ∧ exec s (.vfsClose 3) = some (0, s') ∧ CallOk s (.vfsClose 3) 0 s' := by
  obtain ⟨s1, s2, s3, s', h1, h2, h3, hclo, hfd4, hfour, hfd3, hthree⟩ : ∃ s1 s2 s3 s',
      exec bareBoot (.vfsOpen (memPath ++ [47, 97]) { creat := true }) = some (3, s1) ∧
      exec s1 (.vfsOpen (memPath ++ [47, 97]) {}) = some (4, s2) ∧ exec s2 (.vfsDup2 1 4) = some (4, s3) ∧
      exec s3 (.vfsClose 3) = some (0, s') ∧ s2.fdOf 4 = some 4 ∧ ¬ Shared s2 4 ∧ s3.fdOf 3 = some 3 ∧ ¬ Shared s3 3 := by
    refine ⟨_, _, _, _, rfl, rfl, rfl, rfl, rfl, ?_, rfl, ?_⟩ <;> unfold Shared <;> decide +kernel
  have hdup : Harmless s2 (.vfsDup2 1 4) := fun _ _ _ => ⟨by decide, fun k hk => by
    obtain rfl : 4 = k := Option.some.inj (hfd4.symm.trans hk)
    exact hfour⟩
  have hrun : Run HarmlessStep bareBoot [.vfsOpen (memPath ++ [47, 97]) { creat := true },
      .vfsOpen (memPath ++ [47, 97]) {}, .vfsDup2 1 4] s3 :=
    .snoc (.snoc (.single ⟨trivial, 3, h1⟩) ⟨trivial, 4, h2⟩) ⟨hdup, 4, h3⟩
  obtain ⟨halive, hnx⟩ := descriptors_alive hrun
  refine ⟨s3, s', hrun, halive, hclo, (hnx _ _ _ hclo).2 fun k hk => ?_⟩
  obtain rfl : 3 = k := Option.some.inj (hfd3.symm.trans hk)
  exact hthree

/-- Three ways to lose an object, right after booting.  `vfs_dup2(1, 1)` returns 1 and closes the
console; the pipe of the first `vfs_pipe` counts a reader and no descriptor is open on its read
end; and of two descriptors for one file, the second is left without a slot when the first is
closed. -/
theorem descriptors_lost :
    (∃ s', exec bareBoot (.vfsDup2 1 1) = some (1, s') ∧ s'.fdOf 1 = none) ∧
    (∃ s', exec bareBoot .vfsPipe = some (0, s') ∧ (s'.pipes 0).used = true ∧
      (s'.pipes 0).readers = 1 ∧ endCount s' 0 true = 0) ∧
    ∃ s1 s2 s3, exec bareBoot (.vfsOpen (memPath ++ [47, 97]) { creat := true }) = some (3, s1) ∧
      exec s1 (.vfsDup2 3 4) = some (4, s2) ∧ exec s2 (.vfsClose 4) = some (0, s3) ∧
      s3.fdOf 3 = some 3 ∧ s3.object (s3.ref (s3.fds 3)) = none := by
  refine ⟨⟨_, rfl, rfl⟩, ⟨_, rfl, rfl, rfl, by decide⟩, ?_⟩
  exact ⟨_, _, _, rfl, rfl, rfl, rfl, rfl⟩

end KumOS.Vfs
