import KumOS.Pipes.Tasks

/-!
# Pipes that follow each other in one slot

A slot is free again once both ends of its pipe are closed, and `pipe_create` may
then make another pipe of it.  To follow a byte, each byte passed to `pipe_write`
carries its origin: the slot, and which of the pipes created in the slot it was
written to.  The functions only move bytes, so with the origins taken away a run
is one of the kernel (`Sys.map`, `step_map`).

A call that is blocked keeps the number of its slot.  As long as no pipe is created
in a slot some call is blocked in, bytes stay with their pipe (`Puts`); if one is,
the call goes on with the new pipe.
-/

namespace KumOS.Pipes

open Lib
open Function (update update_self update_of_ne)

variable {α β : Type}
variable {i t : Nat} {op : Op UInt8}
variable {k n : Nat}

/-! ## Runs under a map of the bytes -/

def Pipe.map (f : α → β) (p : Pipe α) : Pipe β where
  buf := f ∘ p.buf
  head := p.head
  tail := p.tail
  writers := p.writers
  readers := p.readers
  used := p.used

def Call.map (f : α → β) : Call α → Call β
  | .write i inst src written => .write i inst (src.map f) written
  | .read i inst len nread => .read i inst len nread

def Op.map (f : α → β) : Op α → Op β
  | .create => .create
  | .closeRead id => .closeRead id
  | .closeWrite id => .closeWrite id
  | .write t id src => .write t id (src.map f)
  | .read t id len => .read t id len
  | .resume t => .resume t

def Sys.map (f : α → β) (s : Sys α) : Sys β where
  pipes := fun i => (s.pipes i).map f
  calls := fun t => (s.calls t).map (Call.map f)
  inst := s.inst
  putIn := fun i => (s.putIn i).map f
  takenOut := fun i => (s.takenOut i).map f
  moved := fun t => (s.moved t).map f

section

variable (f : α → β)

theorem put_map (p : Pipe α) (x : α) : (p.put x).map f = (p.map f).put (f x) := by
  unfold Pipe.put Pipe.map
  rw [Function.comp_update]

theorem writeSlice_map (src : List α) (k : Nat) (p : Pipe α) :
    writeSlice (src.map f) k (p.map f) =
      ((writeSlice src k p).1, (writeSlice src k p).2.1.map f, (writeSlice src k p).2.2.map f) := by
  induction src generalizing k p with
  | nil => rfl
  | cons x xs ih =>
    have hfr : pipeFree (p.map f) = pipeFree p := rfl
    rw [List.map_cons, writeSlice, writeSlice, hfr, ← put_map, ih]
    by_cases hfu : pipeFree p = 0
    · rw [if_pos hfu, if_pos hfu]
      show (if p.readers = 0 then _ else _) = _
      split <;> rfl
    · rw [if_neg hfu, if_neg hfu]
      rfl

theorem readSlice_map (n k : Nat) (p : Pipe α) :
    readSlice n k (p.map f) = ((readSlice n k p).1, (readSlice n k p).2.1.map f, (readSlice n k p).2.2.map f) := by
  induction n generalizing k p with
  | zero => rfl
  | succ n ih =>
    have hav : (p.map f).advance = p.advance.map f := rfl
    rw [readSlice, readSlice, hav, ih]
    show (if p.head = p.tail then if p.writers = 0 then _ else _ else _) = _
    by_cases hem : p.head = p.tail
    · rw [if_pos hem, if_pos hem]
      split <;> rfl
    · rw [if_neg hem, if_neg hem]
      rfl

theorem map_update {γ δ : Type} (g : γ → δ) (h : Nat → γ) (i : Nat) (x : γ) :
    (fun j => g (update h i x j)) = update (fun j => g (h j)) i (g x) :=
  Function.comp_update g h i x

theorem blocked_map (out : Outcome) (call : Nat → Call α) :
    (out.blocked call).map (Call.map f) = out.blocked fun k => (call k).map f := by
  cases out <;> rfl

theorem stored_map (s : Sys α) (t i : Nat) (bytes : List α) (p : Pipe α) (call : Option (Call α)) :
    (s.stored t i bytes p call).map f = (s.map f).stored t i (bytes.map f) (p.map f) (call.map (Call.map f)) := by
  unfold Sys.stored Sys.map
  simp only [map_update, List.map_append]

theorem taken_map (s : Sys α) (t i : Nat) (bytes : List α) (p : Pipe α) (call : Option (Call α)) :
    (s.taken t i bytes p call).map f = (s.map f).taken t i (bytes.map f) (p.map f) (call.map (Call.map f)) := by
  unfold Sys.taken Sys.map
  simp only [map_update, List.map_append]

theorem run_map (s : Sys α) (t : Nat) (c : Call α) :
    (s.map f).run t (c.map f) = ((s.run t c).1, (s.run t c).2.map f) := by
  cases c with
  | write i inst src k =>
    have hslice := writeSlice_map f (src.drop k) k (s.pipes i)
    rw [List.map_drop] at hslice
    have hmp : (s.map f).runWrite t i inst (src.map f) k = _ := runWrite_eq hslice
    have hplain : s.runWrite t i inst src k = _ := runWrite_eq rfl
    show (s.map f).runWrite t i inst (src.map f) k =
      ((s.runWrite t i inst src k).1, (s.runWrite t i inst src k).2.map f)
    rw [hmp, hplain, stored_map, blocked_map]
    rfl
  | read i inst len k =>
    have hmp : (s.map f).runRead t i inst len k = _ :=
      runRead_eq (readSlice_map f (len - k) k (s.pipes i))
    have hplain : s.runRead t i inst len k = _ := runRead_eq rfl
    show (s.map f).runRead t i inst len k =
      ((s.runRead t i inst len k).1, (s.runRead t i inst len k).2.map f)
    rw [hmp, hplain, taken_map, blocked_map]
    rfl

theorem begin_map (s : Sys α) (t : Nat) : (s.begin t).map f = (s.map f).begin t := by
  unfold Sys.begin Sys.map
  simp only [map_update, List.map_nil]

theorem running_map (s : Sys α) (op : Op α) :
    (s.map f).running (op.map f) = (s.running op).map fun tc => (tc.1, tc.2.map f) := by
  have hget : ∀ id, pipeGet (s.map f).pipes id = pipeGet s.pipes id := fun id => rfl
  cases op with
  | write t id src =>
    simp only [Sys.running, Op.map, hget]
    cases pipeGet s.pipes id with
    | none => rfl
    | some i =>
      show (if (s.pipes i).readers = 0 then _ else _) = Option.map _ (if _ then _ else _)
      split <;> rfl
  | read t id len =>
    simp only [Sys.running, Op.map, hget]
    cases pipeGet s.pipes id <;> rfl
  | resume t =>
    show ((s.calls t).map (Call.map f)).map _ = ((s.calls t).map _).map _
    cases s.calls t <;> rfl
  | create => rfl
  | closeRead id => rfl
  | closeWrite id => rfl

theorem start_map (s : Sys α) (t : Nat) (op : Op α) :
    (s.map f).start t ((s.map f).running (op.map f)) =
      ((s.start t (s.running op)).1, (s.start t (s.running op)).2.map f) := by
  rw [running_map]
  cases s.running op with
  | none => rfl
  | some tc =>
    show ((s.map f).begin t).run t (tc.2.map f) = _
    rw [← begin_map, run_map]
    rfl

theorem create_map [Inhabited α] [Inhabited β] (hf : f default = default) (s : Sys α) :
    (s.map f).create = (s.create.1, s.create.2.map f) := by
  have hsl : freeSlot (s.map f).pipes = freeSlot s.pipes := rfl
  have hfs : (fresh : Pipe α).map f = fresh := by
    unfold fresh cleared Pipe.map
    simp only [Function.comp_def, hf]
  unfold Sys.create pipeCreate
  rw [hsl]
  cases freeSlot s.pipes with
  | none => rfl
  | some i =>
    unfold Sys.map
    simp only [map_update, hfs, List.map_nil]

theorem release_map (p : Pipe α) : p.release.map f = (p.map f).release := by
  show Pipe.map f (if p.readers = 0 ∧ p.writers = 0 then _ else _) =
    if p.readers = 0 ∧ p.writers = 0 then _ else _
  split <;> rfl

theorem pipeCloseRead_map (s : Sys α) (id : Int) :
    { s.map f with pipes := pipeCloseRead (s.map f).pipes id } =
      { s with pipes := pipeCloseRead s.pipes id }.map f := by
  unfold pipeCloseRead
  split
  · rfl
  · unfold Sys.map
    simp only [map_update, Pipe.closeRead, release_map]
    rfl

theorem pipeCloseWrite_map (s : Sys α) (id : Int) :
    { s.map f with pipes := pipeCloseWrite (s.map f).pipes id } =
      { s with pipes := pipeCloseWrite s.pipes id }.map f := by
  unfold pipeCloseWrite
  split
  · rfl
  · unfold Sys.map
    simp only [map_update, Pipe.closeWrite, release_map]
    rfl

/-- A step does to the mapped bytes what it does to the bytes. -/
theorem step_map [Inhabited α] [Inhabited β] (hf : f default = default) (s : Sys α) (op : Op α) :
    step (s.map f) (op.map f) = (step s op).map fun r => (r.1, r.2.map f) := by
  have hnn : ∀ t, ((s.map f).calls t).isNone = (s.calls t).isNone := by
    intro t
    show ((s.calls t).map (Call.map f)).isNone = _
    cases s.calls t <;> rfl
  cases op with
  | create => exact congrArg some (create_map f hf s)
  | closeRead id => exact congrArg (fun s' => some (none, s')) (pipeCloseRead_map f s id)
  | closeWrite id => exact congrArg (fun s' => some (none, s')) (pipeCloseWrite_map f s id)
  | write t id src =>
    have hsr := start_map f s t (.write t id src)
    simp only [step, Op.map, hnn, List.length_map] at hsr ⊢
    split
    · exact congrArg some hsr
    · rfl
  | read t id len =>
    have hsr := start_map f s t (.read t id len)
    simp only [step, Op.map, hnn] at hsr ⊢
    split
    · exact congrArg some hsr
    · rfl
  | resume t =>
    show ((s.calls t).map (Call.map f)).map _ = ((s.calls t).map _).map _
    cases s.calls t with
    | none => rfl
    | some c => exact congrArg some (run_map f s t c)

end

/-! ## Where a byte comes from -/

/-- A byte with the slot and the pipe it was written to. -/
abbrev Tagged := UInt8 × (Nat × Nat)

variable {p : Pipe Tagged} {c : Call Tagged}

variable {s s' : Sys Tagged}

/-- The step of tasks that pass bytes with their origin to `pipe_write`. -/
def tag (s : Sys Tagged) : Op UInt8 → Op Tagged
  | .create => .create
  | .closeRead id => .closeRead id
  | .closeWrite id => .closeWrite id
  | .write t id src => .write t id (src.map fun x => (x, (id.toNat, s.inst id.toNat)))
  | .read t id len => .read t id len
  | .resume t => .resume t

def TaggedStep (s : Sys Tagged) (op : Op UInt8) (s' : Sys Tagged) : Prop := Step s (tag s op) s'

theorem tag_map (s : Sys Tagged) (op : Op UInt8) : (tag s op).map Prod.fst = op := by
  cases op with
  | write t id src =>
    show Op.write t id ((src.map fun x => (x, (id.toNat, s.inst id.toNat))).map Prod.fst) = _
    rw [List.map_map]
    exact congrArg (Op.write t id) (List.map_id src)
  | create => rfl
  | closeRead id => rfl
  | closeWrite id => rfl
  | read t id len => rfl
  | resume t => rfl

/-- And every step of the kernel can be made with origins. -/
theorem TaggedStep.lift {s1 : Sys UInt8} (h : Step (s.map Prod.fst) op s1) :
    ∃ s', TaggedStep s op s' ∧ s'.map Prod.fst = s1 := by
  obtain ⟨r, hsp⟩ := h
  have hmap := step_map Prod.fst rfl s (tag s op)
  rw [tag_map, hsp] at hmap
  cases htag : step s (tag s op) with
  | none =>
    rw [htag] at hmap
    cases hmap
  | some rs =>
    rw [htag] at hmap
    cases hmap
    exact ⟨rs.2, ⟨rs.1, htag⟩, rfl⟩

/-- No pipe is created in a slot in which a call is blocked. -/
def NoReuse (s : Sys α) : Op β → Prop
  | .create => ∀ i, freeSlot s.pipes = some i → ∀ t c, s.calls t = some c → c.slot ≠ i
  | _ => True

/-- The bytes a call works with come from the pipe that is now in its slot. -/
def OwnCall (inst : Nat → Nat) (moved : List Tagged) : Call Tagged → Prop
  | .write i n src _ => n = inst i ∧ ∀ x ∈ src, x.2 = (i, n)
  | .read i n _ _ => n = inst i ∧ ∀ x ∈ moved, x.2 = (i, n)

/-- Every byte put into a pipe was written to it, and the calls have bytes of their pipes. -/
structure Puts (s : Sys Tagged) : Prop where
  bytes : ∀ i, ∀ x ∈ s.putIn i, x.2 = (i, s.inst i)
  calls : ∀ t c, s.calls t = some c → OwnCall s.inst (s.moved t) c

/-- In a step that runs a `pipe_read`, all the call has taken out comes from its pipe. -/
def ReadsOwn (s : Sys Tagged) (op : Op UInt8) (s' : Sys Tagged) : Prop :=
  ∀ t i n len k, s.running (tag s op) = some (t, .read i n len k) →
    ∀ x ∈ s'.moved t, x.2 = (i, n)

section

variable (h : Puts s)
include h

theorem Puts.run {r : Option Int} (hF : Fifo s) (hF' : Fifo s') (hc : OwnCall s.inst (s.moved t) c)
    (hrun : s.run t c = (r, s')) :
    Puts s' ∧ ∀ i n len k, c = .read i n len k → ∀ x ∈ s'.moved t, x.2 = (i, n) := by
  have htasks : ∀ f : Nat → List Tagged, ∀ g : Nat → Option (Call Tagged), ∀ bytes call u, u ≠ t →
      update f t bytes u = f u ∧ update g t call u = g u :=
    fun f g bytes call u hu => ⟨update_of_ne hu _ _, update_of_ne hu _ _⟩
  cases c with
  | write i n src k =>
    obtain ⟨out, stored, p, hsl, -, -, -, hpre, -⟩ := writeSlice_spec (hF.ring i) (src.drop k) k
    cases (runWrite_eq hsl).symm.trans hrun
    refine ⟨⟨fun j x hx => ?_, slice_calls h.calls (htasks _ _ _ _) fun d hd => ?_⟩, nofun⟩
    · change x ∈ update s.putIn i (s.putIn i ++ stored) j at hx
      by_cases hj : j = i
      · subst hj
        rw [update_self, List.mem_append] at hx
        rcases hx with hx | hx
        · exact h.bytes j x hx
        · show x.2 = (j, s.inst j)
          rw [← hc.1]
          exact hc.2 x (List.mem_of_mem_drop (hpre.subset hx))
      · rw [update_of_ne hj] at hx
        exact h.bytes j x hx
    · rw [stored_call] at hd
      cases out with
      | ret n => cases hd
      | yield count =>
        cases hd
        exact hc
  | read i n len k =>
    obtain ⟨out, taken, p, hsl, -⟩ := readSlice_spec (hF.ring i) (len - k) k
    cases (runRead_eq hsl).symm.trans hrun
    have hmoved : ∀ x ∈ s.moved t ++ taken, x.2 = (i, n) := by
      intro x hx
      rcases List.mem_append.1 hx with hx | hx
      · exact hc.2 x hx
      · have hput := hF'.bytes i
        change update s.takenOut i (s.takenOut i ++ taken) i ++ _ = s.putIn i at hput
        rw [update_self] at hput
        rw [hc.1]
        refine h.bytes i x ?_
        rw [← hput]
        exact List.mem_append_left _ (List.mem_append_right _ hx)
    refine ⟨⟨h.bytes, slice_calls h.calls (htasks _ _ _ _) fun d hd => ?_⟩, fun _ _ _ _ heq => ?_⟩
    · rw [taken_call] at hd
      rw [taken_moved]
      cases out with
      | ret n => cases hd
      | yield count =>
        cases hd
        exact ⟨hc.1, hmoved⟩
    · cases heq
      rw [taken_moved]
      exact hmoved

theorem Puts.create (hquiet : ∀ t c, s.calls t = some c → c.slot ≠ i) : Puts { s with
    pipes := update s.pipes i fresh
    inst := update s.inst i (s.inst i + 1)
    putIn := update s.putIn i []
    takenOut := update s.takenOut i [] } where
  bytes := by
    intro j x hx
    change x ∈ update s.putIn i [] j at hx
    show x.2 = (j, update s.inst i (s.inst i + 1) j)
    by_cases hj : j = i
    · rw [hj, update_self] at hx
      cases hx
    · rw [update_of_ne hj] at hx ⊢
      exact h.bytes j x hx
  calls := by
    intro t c hc
    have hown := h.calls t c hc
    have hne : c.slot ≠ i := hquiet t c hc
    -- the call is blocked in another slot, where `inst` has not changed
    cases c with
    | write j n src k | read j n len k => exact ⟨hown.1.trans (update_of_ne hne _ _).symm, hown.2⟩

theorem Puts.begin (hid : s.calls t = none) : Puts (s.begin t) := by
  refine ⟨h.bytes, slice_calls h.calls (fun u hu => ⟨update_of_ne hu _ _, rfl⟩) fun c hc => ?_⟩
  change s.calls t = some c at hc
  rw [hid] at hc
  cases hc

/-- One step that does not reuse the slot of a blocked call. -/
theorem Puts.step (hF : Fifo s) (hsp : TaggedStep s op s') (hquiet : NoReuse s op) : Puts s' ∧ ReadsOwn s op s' := by
  obtain ⟨r, hsp⟩ := hsp
  have hF' := (step_spec hF hsp).1
  unfold ReadsOwn
  cases step_effect hsp with
  | fail hno =>
    rw [hno]
    exact ⟨h, nofun⟩
  | close hno hok hun =>
    rw [hno]
    exact ⟨⟨h.bytes, h.calls⟩, nofun⟩
  | @create _ i hop hsl =>
    cases op with
    | create => exact ⟨h.create (hquiet i hsl), nofun⟩
    | _ => cases hop
  | @run t c _ s0 _ hc hs0 hrun =>
    have hok : Puts s0 ∧ Fifo s0 ∧ OwnCall s0.inst (s0.moved t) c := by
      rcases hs0 with ⟨rfl, hca⟩ | ⟨rfl, hid⟩
      · exact ⟨h, hF, h.calls t c hca⟩
      refine ⟨h.begin hid, hF.begin hid, ?_⟩
      show OwnCall s.inst (update s.moved t [] t) c
      rw [update_self]
      rcases running_cases hc with ⟨-, hca⟩ | ⟨id, src, heq, rfl⟩ | ⟨id, len, heq, rfl⟩
      · rw [hid] at hca
        cases hca
      · cases op with
        | write u id src =>
          cases heq
          refine ⟨rfl, fun x hx => ?_⟩
          obtain ⟨y, -, rfl⟩ := List.mem_map.1 hx
          rfl
        | _ => cases heq
      · exact ⟨rfl, nofun⟩
    obtain ⟨hput, hrd⟩ := hok.1.run hok.2.1 hF' hok.2.2 hrun
    refine ⟨hput, fun u i n len k hd => ?_⟩
    rw [hc] at hd
    cases hd
    exact hrd i n len k rfl

end

/-! ## Whole runs -/

/-- A step of the kernel that does not reuse the slot of a blocked call. -/
def QuietStep (s : Sys UInt8) (op : Op UInt8) (s' : Sys UInt8) : Prop := Step s op s' ∧ NoReuse s op

theorem noReuse_map (f : α → β) (s : Sys α) (op : Op UInt8) (h : NoReuse (s.map f) op) : NoReuse s op := by
  cases op with
  | create =>
    intro i hi t c hc
    have hmap : (s.map f).calls t = some (c.map f) := by
      show (s.calls t).map (Call.map f) = _
      rw [hc]
      rfl
    have hne := h i hi t _ hmap
    cases c <;> exact hne
  | _ => trivial

theorem TaggedStep.unique (s : Sys Tagged) (op : Op UInt8) (s1 s2 : Sys Tagged)
    (h1 : TaggedStep s op s1) (h2 : TaggedStep s op s2) : s1 = s2 := by
  obtain ⟨r1, h1⟩ := h1
  obtain ⟨r2, h2⟩ := h2
  rw [h1] at h2
  exact congrArg Prod.snd (Option.some.inj h2)

/-- A run without reuse, followed with the origins of the bytes. -/
theorem run_own {ops : List (Op UInt8)} {s : Sys UInt8} (hrun : Run QuietStep Sys.init ops s) :
    ∃ st : Sys Tagged, Run TaggedStep Sys.init ops st ∧ st.map Prod.fst = s ∧ Fifo st ∧ Puts st := by
  induction hrun with
  | nil => exact ⟨Sys.init, .nil, rfl, .init, nofun, nofun⟩
  | snoc _ hsp ih =>
    obtain ⟨st, hrun, rfl, hF, hput⟩ := ih
    obtain ⟨st', hst', rfl⟩ := TaggedStep.lift hsp.1
    refine ⟨st', .snoc hrun hst', rfl, ?_, (hput.step hF hst' (noReuse_map Prod.fst st _ hsp.2)).1⟩
    obtain ⟨r, hr⟩ := hst'
    exact (step_spec hF hr).1

/-- **Bytes stay with their pipe** as long as `pipe_create` takes no slot in which a call is
blocked.  A run of the kernel can be followed with the origin of each byte, in one way only, and
all that a `pipe_read` has ever taken out was written to the pipe the call was made on. -/
theorem pipes_isolated {ops : List (Op UInt8)} {s : Sys UInt8} (hrun : Run QuietStep Sys.init ops s) :
    (∃ st, Run TaggedStep Sys.init ops st) ∧ ∀ st, Run TaggedStep Sys.init ops st →
      st.map Prod.fst = s ∧ ∀ op st', TaggedStep st op st' → ReadsOwn st op st' := by
  obtain ⟨st, hst, hmap, hF, hput⟩ := run_own hrun
  refine ⟨⟨st, hst⟩, fun st1 hst1 => ?_⟩
  obtain rfl := hst.unique TaggedStep.unique hst1
  refine ⟨hmap, fun op st' hsp => ?_⟩
  cases op with
  | create =>
    intro t i n len k hc
    cases hc
  | _ => exact (hput.step hF hsp trivial).2

theorem quiet_threeBytes : Run QuietStep Sys.init [.create, .write 0 0 [1, 2, 3]] threeBytes := by
  have hcreate : QuietStep Sys.init .create onePipe :=
    ⟨⟨some 0, rfl⟩, fun _ _ _ _ hc => by cases hc⟩
  exact .snoc (.single hcreate) ⟨.of_eq (step_write rfl (by decide)), trivial⟩

/-- `threeBytes` with origins. -/
def threeTagged : Sys Tagged :=
  (onePipe.start 0 (onePipe.running (tag onePipe (.write 0 0 [1, 2, 3])))).2

set_option maxRecDepth 4000 in
theorem pipes_isolated_three_bytes : ∃ st st' : Sys Tagged,
    Run QuietStep Sys.init [.create, .write 0 0 [1, 2, 3]] (st.map Prod.fst) ∧
    TaggedStep st (.read 1 0 2) st' ∧ st'.moved 1 = [(1, (0, 1)), (2, (0, 1))] ∧
    ReadsOwn st (.read 1 0 2) st' := by
  have hwr : TaggedStep onePipe (.write 0 0 [1, 2, 3]) threeTagged :=
    .of_eq (step_write rfl (by decide))
  have hrd : TaggedStep threeTagged (.read 1 0 2)
      (threeTagged.start 1 (threeTagged.running (.read 1 0 2))).2 :=
    .of_eq (step_read rfl (by decide))
  have hrun : Run TaggedStep Sys.init [.create, .write 0 0 [1, 2, 3]] threeTagged :=
    .snoc (.single ⟨some 0, rfl⟩) hwr
  obtain ⟨hmap, hown⟩ := (pipes_isolated quiet_threeBytes).2 threeTagged hrun
  refine ⟨threeTagged, _, ?_, hrd, by decide, hown _ _ hrd⟩
  rw [hmap]
  exact quiet_threeBytes

/-! ## A slot that is reused -/

set_option maxRecDepth 100000 in
/-- Task 0 writes 4096 bytes to pipe 0 and is blocked with one byte left.  Both ends are closed and
a new pipe gets the slot; task 0 goes on, and its last byte is read from the new pipe. -/
theorem reused_slot_leaks : ∃ st st' : Sys Tagged,
    Run TaggedStep Sys.init [.create, .write 0 0 (List.replicate 4096 65), .closeRead 0,
      .closeWrite 0, .create, .resume 0] st ∧
    step st (tag st (.read 1 0 1)) = some (some 1, st') ∧
    st.running (tag st (.read 1 0 1)) = some (1, .read 0 2 1 0) ∧ st'.moved 1 = [(65, (0, 1))] := by
  let ops : List (Op UInt8) := [.create, .write 0 0 (List.replicate 4096 65), .closeRead 0, .closeWrite 0, .create, .resume 0]
  have hend : ((ops.foldlM (fun s op => (step s (tag s op)).map Prod.snd) Sys.init).bind fun st =>
      (step st (tag st (.read 1 0 1))).map fun r => (r.1, r.2.moved 1, pipeGet st.pipes 0, st.inst 0)) =
      some (some 1, [(65, (0, 1))], some 0, 2) := by decide +kernel
  obtain ⟨st, hst, hla⟩ := Option.bind_eq_some_iff.1 hend
  obtain ⟨⟨r, st'⟩, hrd, heq⟩ := Option.map_eq_some_iff.1 hla
  simp only [Prod.mk.injEq] at heq
  obtain ⟨rfl, hmoved, hget, hinst⟩ := heq
  refine ⟨st, st', Run.of_foldlM ?_ hst, hrd, ?_, hmoved⟩
  · intro s1 op s2 h
    obtain ⟨r, hsp, rfl⟩ := Option.map_eq_some_iff.1 h
    exact .of_eq hsp
  · simp only [tag, Sys.running, hget, hinst, Option.map_some]

end KumOS.Pipes
