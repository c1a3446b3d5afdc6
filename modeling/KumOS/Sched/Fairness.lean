import KumOS.Lib.RoundRobin
import KumOS.Sched.Runs

/-!
# `pick_next` is round robin

`pick_next` looks at the slots in cyclic order and wakes sleeping tasks on its way.  It
only wakes the task it returns, since every other one it has looked at cannot run; so it
is a search in the ring of slots, and yields are turns of that ring.
-/

namespace KumOS.Sched

open Lib X86

variable {j : Nat}

/-- A task that can run, or could be woken now. -/
def TaskTable.eligible (s : TaskTable) (i : Nat) : Bool :=
  (s.tasks i).state = .ready || (s.tasks i).state = .running ||
    ((s.tasks i).state = .sleeping && (s.tasks i).sleepUntil ≤ s.tickCount)

/-- The slots in the order in which `pick_next` looks at them. -/
def TaskTable.ring (s : TaskTable) : List Nat := Lib.ring s.taskCount s.currentIdx

/-- `s` with the sleeping task `i` made ready. -/
def TaskTable.awaken (s : TaskTable) (i : Nat) : TaskTable :=
  s.setState i (if (s.tasks i).state = .sleeping then .ready else (s.tasks i).state)

/-- The loop as it is written, up to `i` being `start` again; `none` if that is not so after `fuel` rounds. -/
def pickNextLoop (start : Nat) : (fuel i : Nat) → TaskTable → Option (Nat × TaskTable)
  | 0, _, _ => none
  | fuel + 1, i, s =>
    let s1 := s.setTask i (wake s.tickCount (s.tasks i))
    if runnable (s1.tasks i) then some (i, s1)
    else if (i + 1) % s.taskCount ≠ start then pickNextLoop start fuel ((i + 1) % s.taskCount) s1
    else some (0, { s1 with fellBack := true })

/-- The tasks that run after each of some calls of `sched_yield`; `saves` are the stack pointers saved. -/
def tasksRun : TaskTable → List Word → List Nat
  | _, [] => []
  | s, saved :: saves => (schedYield s saved).currentIdx :: tasksRun (schedYield s saved) saves

variable {s : TaskTable} {i : Nat}

/-! ## The search -/

theorem runnable_wake : runnable (wake s.tickCount (s.tasks i)) = s.eligible i := by
  unfold wake runnable TaskTable.eligible
  split
  · rename_i h
    simp [h.1, h.2]
  rename_i h
  have hno : ((s.tasks i).state = .sleeping && (s.tasks i).sleepUntil ≤ s.tickCount : Bool) = false := by
    simpa using h
  rw [hno, Bool.or_false]

theorem wake_of_eligible (h : s.eligible i = true) : s.setTask i (wake s.tickCount (s.tasks i)) = s.awaken i := by
  unfold TaskTable.awaken TaskTable.setState wake
  by_cases hs : (s.tasks i).state = .sleeping
  · have hdue : (s.tasks i).sleepUntil ≤ s.tickCount := by
      simpa [TaskTable.eligible, hs] using h
    rw [if_pos ⟨hs, hdue⟩, if_pos hs]
  · rw [if_neg fun h => hs h.1, if_neg hs]

theorem wake_of_not_eligible (h : s.eligible i = false) : s.setTask i (wake s.tickCount (s.tasks i)) = s := by
  have hno : ¬ ((s.tasks i).state = .sleeping ∧ (s.tasks i).sleepUntil ≤ s.tickCount) := by
    rintro ⟨hs, hdue⟩
    simp [TaskTable.eligible, hs, hdue] at h
  unfold wake TaskTable.setTask
  rw [if_neg hno, Function.update_eq_self]

theorem pickLoop_find (n i : Nat) (s : TaskTable) (hi : i < s.taskCount) : pickLoop n i s =
    match ((List.range n).map fun d => (i + d) % s.taskCount).find? s.eligible with
    | some j => (some j, s.awaken j)
    | none => (none, s) := by
  induction n generalizing i with
  | zero => rfl
  | succ n ih =>
    have hhd : ((List.range (n + 1)).map fun d => (i + d) % s.taskCount) =
        i :: (List.range n).map fun d => ((i + 1) % s.taskCount + d) % s.taskCount := by
      rw [List.range_succ_eq_map, List.map_cons, List.map_map, Nat.add_zero, Nat.mod_eq_of_lt hi]
      refine congrArg (i :: ·) (List.map_congr_left fun d _ => ?_)
      rw [Nat.mod_add_mod, Function.comp_apply, Nat.succ_eq_add_one, Nat.add_assoc, Nat.add_comm 1 d]
    unfold pickLoop
    rw [hhd, List.find?_cons]
    dsimp only
    rw [TaskTable.setTask_self, runnable_wake]
    cases hel : s.eligible i with
    | true => rw [if_pos rfl, wake_of_eligible hel]
    | false =>
      rw [if_neg Bool.false_ne_true, wake_of_not_eligible hel]
      exact ih _ (Nat.mod_lt _ (by omega))

/-- The result is the first task in the ring that can run, and only that task may have changed. -/
theorem pickNext_find (hn : 1 ≤ s.taskCount) : pickNext s =
    match s.ring.find? s.eligible with
    | some j => (j, s.awaken j)
    | none => (0, { s with fellBack := true }) := by
  have hring : ((List.range s.taskCount).map fun d => ((s.currentIdx + 1) % s.taskCount + d) % s.taskCount) = s.ring := by
    refine List.map_congr_left fun d _ => ?_
    rw [Nat.mod_add_mod]
  unfold pickNext
  rw [pickLoop_find _ _ _ (Nat.mod_lt _ hn), hring]
  cases s.ring.find? s.eligible <;> rfl

theorem mem_ring : i ∈ s.ring ↔ i < s.taskCount := by
  unfold TaskTable.ring
  rw [(ring_perm _ _).mem_iff, List.mem_range]

theorem pickNext_eligible (hj : j < s.taskCount) (h : s.eligible j = true) :
    s.ring.find? s.eligible = some (pickNext s).1 ∧ (pickNext s).2 = s.awaken (pickNext s).1 := by
  rw [pickNext_find (by omega)]
  cases hfn : s.ring.find? s.eligible with
  | some j => exact ⟨rfl, rfl⟩
  | none => exact absurd h (List.find?_eq_none.1 hfn j (mem_ring.2 hj))

/-! ## Termination -/

/-- `m` rounds before the end of its turn the loop is where `m` rounds of `pickLoop` begin. -/
theorem pickNextLoop_eq {start : Nat} (hsr : start < s.taskCount) (m fuel : Nat) (hm : m < s.taskCount)
    (hfuel : m < fuel) :
    pickNextLoop start fuel ((start + (s.taskCount - 1 - m)) % s.taskCount) s =
      match pickLoop (m + 1) ((start + (s.taskCount - 1 - m)) % s.taskCount) s with
      | (some i, s1) => some (i, s1)
      | (none, s1) => some (0, { s1 with fellBack := true }) := by
  induction m generalizing fuel with
  | zero =>
    obtain ⟨fuel, rfl⟩ : ∃ f, fuel = f + 1 := ⟨fuel - 1, by omega⟩
    have hbk : ((start + (s.taskCount - 1 - 0)) % s.taskCount + 1) % s.taskCount = start := by
      rw [Nat.mod_add_mod, show start + (s.taskCount - 1 - 0) + 1 = start + s.taskCount by omega, Nat.add_mod_right,
        Nat.mod_eq_of_lt hsr]
    unfold pickNextLoop pickLoop
    dsimp only
    rw [hbk, if_neg (not_not.2 rfl)]
    split
    · rfl
    · rfl
  | succ m ih =>
    obtain ⟨fuel, rfl⟩ : ∃ f, fuel = f + 1 := ⟨fuel - 1, by omega⟩
    have hnx : ((start + (s.taskCount - 1 - (m + 1))) % s.taskCount + 1) % s.taskCount =
        (start + (s.taskCount - 1 - m)) % s.taskCount := by
      rw [Nat.mod_add_mod]
      congr 1
      omega
    have hne : (start + (s.taskCount - 1 - m)) % s.taskCount ≠ start := by
      intro heq
      by_cases hwrap : start + (s.taskCount - 1 - m) < s.taskCount
      · rw [Nat.mod_eq_of_lt hwrap] at heq
        omega
      · rw [Nat.mod_eq_sub_mod (by omega), Nat.mod_eq_of_lt (by omega)] at heq
        omega
    unfold pickNextLoop
    rw [pickLoop]
    dsimp only
    rw [hnx, if_pos hne, TaskTable.setTask_self, runnable_wake]
    cases hel : s.eligible ((start + (s.taskCount - 1 - (m + 1))) % s.taskCount) with
    | true => rfl
    | false =>
      rw [if_neg Bool.false_ne_true, if_neg Bool.false_ne_true, wake_of_not_eligible hel]
      exact ih fuel (by omega) (by omega)

theorem pickNextLoop_terminates (hn : 1 ≤ s.taskCount) {fuel : Nat} (hfuel : s.taskCount ≤ fuel) :
    pickNextLoop ((s.currentIdx + 1) % s.taskCount) fuel ((s.currentIdx + 1) % s.taskCount) s = some (pickNext s) := by
  have hsr : (s.currentIdx + 1) % s.taskCount < s.taskCount := Nat.mod_lt _ hn
  have h := pickNextLoop_eq hsr (s.taskCount - 1) fuel (by omega) (by omega)
  rw [Nat.sub_self, Nat.add_zero ((s.currentIdx + 1) % s.taskCount), Nat.mod_eq_of_lt hsr, Nat.sub_add_cancel hn] at h
  rw [h]
  unfold pickNext
  rcases pickLoop s.taskCount ((s.currentIdx + 1) % s.taskCount) s with ⟨_ | i, s1⟩
  · rfl
  · rfl

/-! ## Yields -/

/-- What decides who can run is the same in both tables. -/
structure SameTurns (s s' : TaskTable) : Prop where
  taskCount : s'.taskCount = s.taskCount
  eligible : ∀ i, s'.eligible i = s.eligible i

theorem awaken_sameTurns (h : s.eligible i = true) : SameTurns s (s.awaken i) := by
  refine ⟨rfl, fun j => ?_⟩
  by_cases hj : j = i
  · subst hj
    rw [h]
    unfold TaskTable.awaken TaskTable.setState TaskTable.eligible
    rw [TaskTable.setTask_self]
    by_cases hs : (s.tasks j).state = .sleeping
    · simp [hs]
    · rw [if_neg hs]
      exact h
  · unfold TaskTable.awaken TaskTable.setState TaskTable.eligible
    rw [TaskTable.setTask_ne _ _ _ _ hj]
    rfl

theorem switchTo_sameTurns {next : Nat} (hne : next ≠ s.currentIdx) (h : s.eligible next = true) (saved : Word) :
    SameTurns s (switchTo s next saved) := by
  refine ⟨rfl, fun j => ?_⟩
  have hsleep := switchTo_field s next saved Task.sleepUntil (fun _ _ => rfl) (fun _ _ => rfl) j
  unfold TaskTable.eligible
  rw [hsleep]
  by_cases hj : j = next
  · subst hj
    rw [switchTo_next s saved hne]
    exact h.symm
  by_cases hcur : j = s.currentIdx
  · -- a task that was running is ready now
    subst hcur
    rw [switchTo_prev s saved hne]
    unfold TaskTable.cur
    by_cases hrun : (s.tasks s.currentIdx).state = .running
    · simp [hrun]
    · rw [if_neg hrun]
      rfl
  · rw [switchTo_other s next saved j hj hcur]
    rfl

theorem SameTurns.trans {s1 s2 : TaskTable} (h : SameTurns s s1) (h' : SameTurns s1 s2) : SameTurns s s2 :=
  ⟨h'.taskCount.trans h.taskCount, fun i => (h'.eligible i).trans (h.eligible i)⟩

theorem schedYield_served (hj : j < s.taskCount) (h : s.eligible j = true) (saved : Word) :
    Served s.eligible s.ring (schedYield s saved).currentIdx (schedYield s saved).ring ∧
      SameTurns s (schedYield s saved) := by
  obtain ⟨hfn, htb⟩ := pickNext_eligible hj h
  generalize hnx : (pickNext s).1 = next at hfn htb
  obtain ⟨hel, skipped, rest, hsplit, hskip⟩ := List.find?_eq_some_iff_append.1 hfn
  have hidx : (schedYield s saved).currentIdx = next := by
    unfold schedYield reschedule
    dsimp only
    split
    · rename_i heq
      exact heq.symm.trans hnx
    · exact hnx
  have hsm : SameTurns s (schedYield s saved) := by
    unfold schedYield reschedule
    dsimp only
    rw [hnx, htb]
    split
    · exact awaken_sameTurns hel
    · rename_i hne
      have hwoken := awaken_sameTurns hel
      exact hwoken.trans (switchTo_sameTurns hne ((hwoken.eligible next).trans hel) saved)
  refine ⟨?_, hsm⟩
  have hring : (schedYield s saved).ring = rest ++ (skipped ++ [next]) := by
    unfold TaskTable.ring
    rw [hidx, hsm.taskCount]
    exact ring_split hsplit
  rw [hidx, hring, hsplit]
  exact .next (by simpa using hskip) hel

theorem tasksRun_turns (hj : j < s.taskCount) (h : s.eligible j = true) (saves : List Word) :
    ∃ l, Turns s.eligible s.ring (tasksRun s saves) l := by
  induction saves generalizing s with
  | nil => exact ⟨_, .nil⟩
  | cons saved saves ih =>
    obtain ⟨hsv, hsm⟩ := schedYield_served hj h saved
    obtain ⟨l, hl⟩ := ih (hsm.taskCount ▸ hj) ((hsm.eligible j).trans h)
    have hpred : (schedYield s saved).eligible = s.eligible := funext hsm.eligible
    rw [hpred] at hl
    exact ⟨l, .cons hsv hl⟩

theorem length_tasksRun (saves : List Word) : (tasksRun s saves).length = saves.length := by
  induction saves generalizing s with
  | nil => rfl
  | cons saved saves ih => exact congrArg (· + 1) ih

/-- As many yields as there are tasks that can run give each of them one turn, in cyclic order. -/
theorem tasksRun_eq {saves : List Word} (hlen : saves.length = (s.ring.filter s.eligible).length) :
    tasksRun s saves = s.ring.filter s.eligible := by
  cases hel : s.ring.filter s.eligible with
  | nil =>
    rw [hel] at hlen
    rw [List.length_eq_zero_iff.1 hlen]
    rfl
  | cons j rest =>
    have hmem : j ∈ s.ring.filter s.eligible := by
      rw [hel]
      exact List.mem_cons_self
    obtain ⟨hj, hjel⟩ := List.mem_filter.1 hmem
    obtain ⟨l, hl⟩ := tasksRun_turns (mem_ring.1 hj) hjel saves
    have horder := hl.order (by rw [length_tasksRun]; omega)
    rw [length_tasksRun, hlen, List.take_length] at horder
    rw [horder, hel]

/-- `pick_next` ends after at most one round for each task; it returns the first task in cyclic order that can run, if
there is one, and changes nothing but that task's state if it slept; and as many calls of `sched_yield` as there are
such tasks run each of them once. -/
theorem pick_next_round_robin (s : TaskTable) (hn : 1 ≤ s.taskCount) :
    (∀ fuel, s.taskCount ≤ fuel →
      pickNextLoop ((s.currentIdx + 1) % s.taskCount) fuel ((s.currentIdx + 1) % s.taskCount) s = some (pickNext s)) ∧
    ((∃ i < s.taskCount, s.eligible i = true) →
      s.ring.find? s.eligible = some (pickNext s).1 ∧ (pickNext s).2 = s.awaken (pickNext s).1) ∧
    ∀ saves : List Word, saves.length = ((List.range s.taskCount).filter s.eligible).length →
      (tasksRun s saves).Perm ((List.range s.taskCount).filter s.eligible) := by
  refine ⟨fun fuel hfuel => pickNextLoop_terminates hn hfuel, ?_, fun saves hlen => ?_⟩
  · rintro ⟨i, hi, hel⟩
    exact pickNext_eligible hi hel
  · have hperm : (s.ring.filter s.eligible).Perm ((List.range s.taskCount).filter s.eligible) :=
      (ring_perm _ _).filter _
    rw [tasksRun_eq (hlen.trans hperm.length_eq.symm)]
    exact hperm

/-- The shell and the idle task, after booting. -/
theorem pick_next_round_robin_boot : (tasksRun sampleInit [0x9000#32, 0x8000#32]).Perm [0, 1] :=
  (pick_next_round_robin sampleInit (by decide)).2.2 _ (by decide)

end KumOS.Sched
