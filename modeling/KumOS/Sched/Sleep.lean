import KumOS.Sched.Fairness

/-!
# Sleeping

`sched_sleep` and `timer_sleep` compute their deadline in 32 bits and compare it with the
tick counter by `<`.  They wait as long as asked exactly if the product `ms * 100` does not
overflow and the deadline lies before the counter's wrap-around; a task in `sched_sleep`
also has to be looked at before that (`sleep_iff`).
-/

namespace KumOS.Sched

open Lib X86
open TaskTable (awaken eligible setState setTask_ne setTask_self)

variable {s : TaskTable} {i : Nat}

/-! ## `timer_sleep` -/

/-- The loop of `timer_sleep`: a `hlt` lasts up to the next tick (other interrupts change nothing it
reads).  Gives the ticks that have passed, `none` if it has not ended after `fuel` of them. -/
def timerSleepLoop (target : Word) : (fuel : Nat) → (now : Word) → (passed : Nat) → Option Nat
  | 0, _, _ => none
  | fuel + 1, now, passed =>
    if now < target then timerSleepLoop target fuel (now + 1#32) (passed + 1) else some passed

def timerSleep (tickHz tickCount ms : Word) (fuel : Nat) : Option Nat :=
  timerSleepLoop (tickCount + ms * tickHz / 1000#32) fuel tickCount 0

/-- The ticks both functions wait for, as computed. -/
def sleepTicks (ms : Word) : Nat := ms.toNat * 100 % 2 ^ 32 / 1000

theorem sleepTicks_spec (ms : Word) :
    sleepTicks ms ≤ ms.toNat / 10 ∧ (sleepTicks ms = ms.toNat / 10 ↔ ms.toNat * 100 < 2 ^ 32) := by
  unfold sleepTicks
  omega

/-- The deadline both functions compute, at 100 Hz. -/
theorem toNat_deadline (t0 ms : Word) : (t0 + ms * 100#32 / 1000#32).toNat = (t0.toNat + sleepTicks ms) % 2 ^ 32 := by
  rfl

/-- The loop ends when the counter has reached the target. -/
theorem timerSleepLoop_eq {target now : Word} (d : Nat) (hd : target.toNat = now.toNat + d) (fuel passed : Nat) :
    timerSleepLoop target fuel now passed = if d < fuel then some (passed + d) else none := by
  induction fuel generalizing now d passed with
  | zero => rfl
  | succ fuel ih =>
    unfold timerSleepLoop
    by_cases h0 : d = 0
    · rw [if_neg (by rw [BitVec.lt_def]; omega), if_pos (by omega), h0, Nat.add_zero]
    have hnow : (now + 1#32).toNat = now.toNat + 1 := by
      exact Nat.mod_eq_of_lt (by simp only [BitVec.toNat_ofNat]; omega)
    rw [if_pos (by rw [BitVec.lt_def]; omega), ih (d - 1) (by omega)]
    simp only [show passed + 1 + (d - 1) = passed + d by omega, show d - 1 < fuel ↔ d < fuel + 1 by omega]

theorem timerSleep_iff (t0 ms : Word) : (∃ fuel, timerSleep 100#32 t0 ms fuel = some (ms.toNat / 10)) ↔
    ms.toNat * 100 < 2 ^ 32 ∧ t0.toNat + ms.toNat / 10 < 2 ^ 32 := by
  have hto := toNat_deadline t0 ms
  have hticks := sleepTicks_spec ms
  unfold timerSleep
  generalize t0 + ms * 100#32 / 1000#32 = target at *
  by_cases hwrap : t0.toNat + sleepTicks ms < 2 ^ 32
  · simp only [@timerSleepLoop_eq target t0 (sleepTicks ms) (by omega)]
    constructor
    · rintro ⟨fuel, hf⟩
      split at hf
      · have := Option.some.inj hf
        omega
      · cases hf
    · intro h
      exact ⟨sleepTicks ms + 1, by rw [if_pos (by omega)]; congr 1; omega⟩
  -- the deadline is behind the counter already, and there is something to wait for
  refine iff_of_false ?_ (by omega)
  rintro ⟨fuel, hf⟩
  cases fuel with
  | zero => cases hf
  | succ fuel =>
    unfold timerSleepLoop at hf
    rw [if_neg (by rw [BitVec.lt_def]; omega)] at hf
    have := Option.some.inj hf
    omega

/-! ## The scans -/

/-- `pick_next` comes to slot `i`. -/
def TaskTable.Visits (s : TaskTable) (i : Nat) : Prop :=
  ∃ skipped rest, s.ring = skipped ++ i :: rest ∧ ∀ j ∈ skipped, s.eligible j = false

theorem eligible_sleeping (h : (s.tasks i).state = .sleeping) :
    s.eligible i = true ↔ (s.tasks i).sleepUntil ≤ s.tickCount := by
  simp [eligible, h]

theorem pickNext_early (hi : i < s.taskCount) (h : (s.tasks i).state = .sleeping)
    (hno : ¬ (s.tasks i).sleepUntil ≤ s.tickCount) : ((pickNext s).2.tasks i).state = .sleeping := by
  rw [pickNext_find (by omega)]
  cases hfn : s.ring.find? s.eligible with
  | none => exact h
  | some j =>
    have hne : i ≠ j := by
      rintro rfl
      exact hno ((eligible_sleeping h).1 (List.find?_some hfn))
    unfold awaken setState
    rw [setTask_ne _ _ _ _ hne]
    exact h

theorem pickNext_due (hi : i < s.taskCount) (h : (s.tasks i).state = .sleeping)
    (hdue : (s.tasks i).sleepUntil ≤ s.tickCount) (hv : s.Visits i) : ((pickNext s).2.tasks i).state = .ready := by
  obtain ⟨skipped, rest, hring, hskip⟩ := hv
  have hfn : s.ring.find? s.eligible = some i :=
    List.find?_eq_some_iff_append.2 ⟨(eligible_sleeping h).2 hdue, skipped, rest, hring, fun j hj => by simp [hskip j hj]⟩
  rw [pickNext_find (by omega), hfn]
  simp [awaken, setState, setTask_self, h]

theorem wakeLoop_task (n j : Nat) (s : TaskTable) (i : Nat) : (wakeLoop n j s).tasks i =
    if j ≤ i ∧ i < j + n then wake s.tickCount (s.tasks i) else s.tasks i := by
  induction n generalizing j s with
  | zero => rw [if_neg (by omega)]; rfl
  | succ n ih =>
    unfold wakeLoop
    rw [ih]
    by_cases hj : i = j
    · subst hj
      rw [if_neg (by omega), if_pos (by omega), setTask_self]
    rw [setTask_ne _ _ _ _ hj]
    by_cases hin : j ≤ i ∧ i < j + (n + 1)
    · rw [if_pos hin, if_pos (by omega)]
      rfl
    · rw [if_neg hin, if_neg (by omega)]

/-- The loop of `sched_tick` looks at every slot. -/
theorem countTick_state (hi : i < s.taskCount) (h : (s.tasks i).state = .sleeping) :
    ((countTick s).tasks i).state = if (s.tasks i).sleepUntil ≤ s.tickCount then .ready else .sleeping := by
  have hsl : ∀ t : Task, t.state = .sleeping → t.sleepUntil = (s.tasks i).sleepUntil →
      (wake s.tickCount t).state = if (s.tasks i).sleepUntil ≤ s.tickCount then .ready else .sleeping := by
    intro t ht hu
    unfold wake
    split <;> simp_all
  unfold countTick
  rw [wakeLoop_task, if_pos ⟨Nat.zero_le _, by rw [Nat.zero_add]; exact hi⟩]
  by_cases hc : i = s.currentIdx
  · subst hc
    refine hsl _ ?_ ?_ <;> simp only [setTask_self]
    · exact h
    · rfl
  · refine hsl _ ?_ ?_ <;> simp only [setTask_ne _ _ _ _ hc]
    exact h

/-! ## From the call to the first scan that is due -/

/-- `k` ticks after `sched_sleep(ms)` was called in `s0`: the slot of the caller is as the call has left
it, whatever has happened to the others. -/
structure Dormant (s0 : TaskTable) (ms : Word) (k : Nat) (s : TaskTable) : Prop where
  lt : s0.currentIdx < s.taskCount
  state : (s.tasks s0.currentIdx).state = ((sleepTask s0 ms).tasks s0.currentIdx).state
  sleepUntil : (s.tasks s0.currentIdx).sleepUntil = ((sleepTask s0 ms).tasks s0.currentIdx).sleepUntil
  ticks : s.tickCount = s0.tickCount + BitVec.ofNat 32 k

/-- No scan makes the caller ready before `ms / 10` ticks have passed, and the first one after that
does, when `n` ticks have passed. -/
structure SleepsUntil (s0 : TaskTable) (ms : Word) (n : Nat) : Prop where
  early : ∀ k < ms.toNat / 10, ∀ s, Dormant s0 ms k s →
    ((pickNext s).2.tasks s0.currentIdx).state = .sleeping ∧ ((countTick s).tasks s0.currentIdx).state = .sleeping
  due : ∀ s, Dormant s0 ms n s → ((countTick s).tasks s0.currentIdx).state = .ready ∧
    (s.Visits s0.currentIdx → ((pickNext s).2.tasks s0.currentIdx).state = .ready)

section

variable {s0 : TaskTable} {ms : Word} {k n : Nat}

theorem Dormant.sleeping (h : Dormant s0 ms k s) : (s.tasks s0.currentIdx).state = .sleeping := by
  rw [h.state, sleepTask, setTask_self]

theorem Dormant.due_iff (h : Dormant s0 ms k s) : (s.tasks s0.currentIdx).sleepUntil ≤ s.tickCount ↔
    (s0.tickCount.toNat + sleepTicks ms) % 2 ^ 32 ≤ (s0.tickCount.toNat + k) % 2 ^ 32 := by
  rw [h.sleepUntil, sleepTask, setTask_self, BitVec.le_def, h.ticks]
  rw [toNat_deadline, BitVec.toNat_add, BitVec.toNat_ofNat]
  omega

/-- Both functions wait as long as asked exactly if neither the product nor the deadline overflows and
the task is looked at before the counter wraps around. -/
theorem sleep_iff (s0 : TaskTable) (hcur : s0.currentIdx < s0.taskCount) (ms : Word) (n : Nat) :
    (SleepsUntil s0 ms n ∧ ∃ fuel, timerSleep 100#32 s0.tickCount ms fuel = some (ms.toNat / 10)) ↔
      ms.toNat * 100 < 2 ^ 32 ∧ s0.tickCount.toNat + ms.toNat / 10 < 2 ^ 32 ∧
        s0.tickCount.toNat + ms.toNat / 10 ≤ (s0.tickCount.toNat + n) % 2 ^ 32 := by
  rw [timerSleep_iff, and_comm, and_assoc]
  refine and_congr_right fun hprod => and_congr_right fun hwrap => ?_
  have hticks := (sleepTicks_spec ms).2.2 hprod
  constructor
  · intro h
    have hd : Dormant s0 ms n { sleepTask s0 ms with tickCount := s0.tickCount + BitVec.ofNat 32 n } :=
      ⟨hcur, rfl, rfl, rfl⟩
    have hry := (h.due _ hd).1
    rw [countTick_state hd.lt hd.sleeping] at hry
    split at hry
    · rename_i hdue
      have := hd.due_iff.1 hdue
      omega
    · cases hry
  · intro hlate
    refine ⟨fun k hk s hd => ?_, fun s hd => ?_⟩
    · have hno : ¬ (s.tasks s0.currentIdx).sleepUntil ≤ s.tickCount := by
        rw [hd.due_iff]
        omega
      exact ⟨pickNext_early hd.lt hd.sleeping hno, by rw [countTick_state hd.lt hd.sleeping, if_neg hno]⟩
    · have hdue : (s.tasks s0.currentIdx).sleepUntil ≤ s.tickCount := by
        rw [hd.due_iff]
        omega
      exact ⟨by rw [countTick_state hd.lt hd.sleeping, if_pos hdue], pickNext_due hd.lt hd.sleeping hdue⟩

theorem sleep_iff_half_second : SleepsUntil sampleInit 500#32 60 :=
  ((sleep_iff sampleInit (by decide) 500#32 60).2 (by decide)).1

/-- Ten ticks before the wrap-around: the deadline of 100 ms is 0, and `timer_sleep` returns at once. -/
theorem sleep_over_wrap : timerSleep 100#32 0xFFFFFFF6#32 100#32 1 = some 0 ∧
    ¬ SleepsUntil { sampleInit with tickCount := 0xFFFFFFF6#32 } 100#32 10 := by
  refine ⟨by decide, fun h => ?_⟩
  have hd : Dormant { sampleInit with tickCount := 0xFFFFFFF6#32 } 100#32 0
      (sleepTask { sampleInit with tickCount := 0xFFFFFFF6#32 } 100#32) := ⟨by decide, rfl, rfl, by decide⟩
  have hstate := (h.early 0 (by decide) _ hd).2
  cases hstate

end

end KumOS.Sched
