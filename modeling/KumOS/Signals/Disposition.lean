import KumOS.Signals.Delivery

/-!
# The disposition of a signal

What a task has asked for with `signal_set_handler` is what `signal_check` does with a
signal, for every history of such calls, as long as the slot is the task's own.
`signal_send` is where the disposition is not looked at: it makes the target of `SIGINT`
or `SIGTERM` a zombie.
-/

namespace KumOS.Signals

open Lib X86 Sched
open Function (update_self update_of_ne)

variable {t : Int} {pending : Word} {w w' : SigState} {sig : Nat}

/-- The slot of `t` is left to `t`, and `t` only sets handlers. -/
def Own (t : Int) (w : SigState) : SigOp → Prop
  | .sched _ => True
  | .send q _ _ => sigIdx w.table q ≠ sigSlot t
  | .setHandler _ _ => if w.table.cur.pid = t then Live w.table t else sigIdx w.table w.table.cur.pid ≠ sigSlot t
  | .check _ => sigIdx w.table w.table.cur.pid ≠ sigSlot t

def OwnStep (t : Int) (w : SigState) (op : SigOp) (w' : SigState) : Prop := Own t w op ∧ w' = signalPerform w op

/-- In the slot of `t` these signals are pending, with the handlers `t` has asked for. -/
structure Holding (t : Int) (pending : Word) (w : SigState) : Prop where
  pending : (w.sets (sigSlot t)).pending = pending
  blocked : (w.sets (sigSlot t)).blocked = 0#32
  handlers : ∀ sig, (w.sets (sigSlot t)).handlers sig = w.wanted t sig

section

variable (h : Holding t pending w)
include h

theorem Holding.congr (hset : w'.sets (sigSlot t) = w.sets (sigSlot t))
    (hwanted : w'.wanted t = w.wanted t) : Holding t pending w' := by
  refine ⟨?_, ?_, fun sig => ?_⟩
  · rw [hset]
    exact h.pending
  · rw [hset]
    exact h.blocked
  · rw [hset, hwanted]
    exact h.handlers sig

theorem Holding.setHandler {sig : Int} {handler : Word}
    (ho : Own t w (.setHandler sig handler)) : Holding t pending (signalSetHandler w sig handler).2 := by
  unfold signalSetHandler
  split
  · exact h
  simp only []
  by_cases hcur : w.table.cur.pid = t
  · rw [Own, if_pos hcur] at ho
    obtain ⟨j, hj⟩ := ho.found
    rw [hcur, sigIdx_eq hj]
    have hsf : ∀ set : SigSet, (w.setSet (sigSlot t) set).sets (sigSlot t) = set := fun set => update_self ..
    refine ⟨?_, ?_, fun k => ?_⟩
    · simp only [hsf]
      exact h.pending
    · simp only [hsf]
      exact h.blocked
    · simp only [hsf, update_self]
      by_cases hk : k = sig.toNat
      · rw [hk, update_self, update_self]
      · rw [update_of_ne hk, update_of_ne hk]
        exact h.handlers k
  · rw [Own, if_neg hcur] at ho
    exact h.congr (update_of_ne (Ne.symm ho) ..) (update_of_ne (Ne.symm hcur) ..)

theorem Holding.step {op : SigOp} (hs : OwnStep t w op w') : Holding t pending w' := by
  obtain ⟨ho, rfl⟩ := hs
  cases op with
  | sched op => exact h.congr rfl rfl
  | send q sig saved =>
    obtain ⟨hset, hw⟩ := signalSend_sets w q sig saved (Ne.symm ho)
    exact h.congr hset (congrFun hw t)
  | setHandler sig handler => exact h.setHandler ho
  | check saved =>
    obtain ⟨hset, hw⟩ := signalCheck_sets w saved (Ne.symm ho)
    exact h.congr hset (congrFun hw t)

theorem Holding.run {ops : List SigOp} (hrun : Run (OwnStep t) w ops w') : Holding t pending w' :=
  Run.invariant (Holding t pending) h (fun _ _ _ h1 hs => h1.step hs) hrun

theorem Holding.send (hlv : Live w.table t) (h1 : 1 ≤ sig) (h2 : sig < 32)
    (hk : sig ≠ sigkill) (saved : Word) : Holding t (pending ||| sigBit sig) (signalSend w t sig saved).2 := by
  obtain ⟨j, hj⟩ := hlv.found
  rw [signalSend_eq h1 h2 hk hj saved]
  have hsf : ∀ set : SigSet, (w.setSet (sigSlot t) set).sets (sigSlot t) = set := fun set => update_self ..
  refine ⟨?_, ?_, fun k => ?_⟩
  · simp only [hsf, h.pending]
  · simp only [hsf]
    exact h.blocked
  · simp only [hsf]
    exact h.handlers k

end

/-! ## The check -/

/-- What `signal_check` does with one signal that is pending in slot `idx`. -/
def deliver (idx : Nat) (saved : Word) (sig : Nat) (w : SigState) : SigState :=
  let set := w.sets idx
  let w1 := w.setSet idx { set with pending := set.pending &&& ~~~sigBit sig }
  let h := set.handlers sig
  if h = sigIgn then w1
  else if h = sigDfl then
    if sig = sigchld ∨ sig = sigcont then w1 else { w1 with table := schedExitCode w1.table (128 + sig) saved }
  else { w1 with calls := (w1.table.cur.pid, sig, h) :: w1.calls }

theorem checkLoop_skip {idx : Nat} {saved : Word} {l rest : List Nat} (hl : ∀ k ∈ l, pending &&& sigBit k = 0#32)
    (w : SigState) : checkLoop idx pending saved (l ++ rest) w = checkLoop idx pending saved rest w := by
  induction l with
  | nil => rfl
  | cons k l ih =>
    rw [List.cons_append, checkLoop, if_pos (hl k List.mem_cons_self)]
    exact ih fun k' hk' => hl k' (List.mem_cons_of_mem k hk')

theorem range_split (h1 : 1 ≤ sig) (h2 : sig < 32) :
    List.range' 1 31 = List.range' 1 (sig - 1) ++ sig :: List.range' (sig + 1) (31 - sig) := by
  have hsum := List.range'_append_1 (s := 1) (m := sig - 1) (n := 31 - sig + 1)
  rw [show 1 + (sig - 1) = sig by omega, show sig - 1 + (31 - sig + 1) = 31 by omega] at hsum
  exact hsum.symm

theorem sigBit_other {k : Nat} (hk : k < 32) (hne : k ≠ sig) : sigBit sig &&& sigBit k = 0#32 := by
  rw [sigBit_test hk]
  unfold sigBit
  simp [Ne.symm hne]

theorem sigBit_self (h : sig < 32) : sigBit sig &&& sigBit sig ≠ 0#32 := by
  rw [Ne, sigBit_test h]
  unfold sigBit
  simp [h]

theorem signalCheck_one (h1 : 1 ≤ sig) (h2 : sig < 32) (h : Holding t (sigBit sig) w)
    (hcur : w.table.cur.pid = t) {j : Nat} (hj : schedGetTaskIdx w.table t = some j) (saved : Word) :
    signalCheck w saved = deliver (sigSlot t) saved sig w := by
  have hsf := sigBit_self h2
  have hne : sigBit sig ≠ 0#32 := by
    intro h0
    rw [h0] at hsf
    exact hsf rfl
  have hskip : ∀ k, 1 ≤ k → k < 32 → k ≠ sig → sigBit sig &&& sigBit k = 0#32 := fun k _ hk hks => sigBit_other hk hks
  unfold signalCheck
  simp only [hcur, sigIdx_eq hj]
  rw [visible_unblocked h.blocked, h.pending, if_neg hne]
  show checkLoop (sigSlot t) (sigBit sig) saved (List.range' 1 31) w = _
  rw [range_split h1 h2, checkLoop_skip]
  · -- the rest of the loop finds nothing, whatever the state
    have hrs : ∀ v, checkLoop (sigSlot t) (sigBit sig) saved (List.range' (sig + 1) (31 - sig)) v = v := by
      intro v
      have hl : ∀ k ∈ List.range' (sig + 1) (31 - sig), sigBit sig &&& sigBit k = 0#32 := by
        intro k hk
        rw [List.mem_range'_1] at hk
        exact hskip k (by omega) (by omega) (by omega)
      have hend : checkLoop (sigSlot t) (sigBit sig) saved (List.range' (sig + 1) (31 - sig) ++ []) v = v :=
        checkLoop_skip hl v
      rwa [List.append_nil] at hend
    rw [checkLoop, if_neg hsf]
    simp only [hrs]
    rfl
  · intro k hk
    rw [List.mem_range'_1] at hk
    exact hskip k (by omega) (by omega) (by omega)

/-- The signal has been dealt with as `t` has asked for. -/
structure Handled (t : Int) (sig : Nat) (w w' : SigState) : Prop where
  terminates : (w'.table.tasks w.table.currentIdx).Ended ↔
    w.wanted t sig = sigDfl ∧ sig ≠ sigchld ∧ sig ≠ sigcont
  handler : w.wanted t sig ≠ sigDfl → w.wanted t sig ≠ sigIgn → w'.calls = (t, sig, w.wanted t sig) :: w.calls
  no_handler : w.wanted t sig = sigDfl ∨ w.wanted t sig = sigIgn → w'.calls = w.calls
  ignored : w.wanted t sig = sigIgn → w'.table = w.table
  /-- the signal is not pending any more -/
  consumed : (w'.sets (sigSlot t)).pending.getLsbD sig = false

theorem deliver_handled (h : Holding t pending w) (hcur : w.table.cur.pid = t)
    (hrun : w.table.cur.state = .running) (saved : Word) : Handled t sig w (deliver (sigSlot t) saved sig w) := by
  have hlv : ¬ (w.table.tasks w.table.currentIdx).Ended := by
    have hrun : (w.table.tasks w.table.currentIdx).state = .running := hrun
    unfold Task.Ended
    rw [hrun]
    simp
  have hclear : ∀ q : Word, (q &&& ~~~sigBit sig).getLsbD sig = false := by
    intro q
    rw [getLsbD_erase]
    simp
  have hset : ∀ set : SigSet, (w.setSet (sigSlot t) set).sets (sigSlot t) = set := fun set => update_self ..
  have hdi : sigDfl ≠ sigIgn := by decide
  unfold deliver
  simp only [h.handlers]
  by_cases hi : w.wanted t sig = sigIgn
  · rw [if_pos hi]
    refine ⟨iff_of_false hlv fun hc => ?_, fun _ hc => absurd hi hc, fun _ => rfl, fun _ => rfl, ?_⟩
    · exact hdi (hc.1.symm.trans hi)
    · simp only [hset, hclear]
  rw [if_neg hi]
  by_cases hd : w.wanted t sig = sigDfl
  · rw [if_pos hd]
    by_cases hc : sig = sigchld ∨ sig = sigcont
    · rw [if_pos hc]
      refine ⟨iff_of_false hlv fun he => ?_, absurd hd, fun _ => rfl, fun hn => absurd hn hi, ?_⟩
      · exact hc.elim he.2.1 he.2.2
      · simp only [hset, hclear]
    rw [if_neg hc]
    have hend : ((schedExitCode w.table (128 + (sig : Int)) saved).tasks w.table.currentIdx).Ended :=
      schedExitCode_ended w.table _ saved
    refine ⟨iff_of_true hend ⟨hd, fun he => hc (.inl he), fun he => hc (.inr he)⟩, absurd hd, fun _ => rfl,
      fun hn => absurd hn hi, ?_⟩
    simp only [hset, hclear]
  · rw [if_neg hd]
    refine ⟨iff_of_false hlv fun he => hd he.1, fun _ _ => ?_, fun hn => absurd hn (not_or.2 ⟨hd, hi⟩),
      fun hn => absurd hn hi, ?_⟩
    · show (w.table.cur.pid, sig, w.wanted t sig) :: w.calls = _
      rw [hcur]
    · simp only [hset, hclear]

/-! ## From the send to the check -/

/-- `t` is the task that runs. -/
structure Runs (s : TaskTable) (t : Int) : Prop where
  cur_lt : s.currentIdx < s.taskCount
  pid : s.cur.pid = t
  state : s.cur.state = .running

/-- `signal_send(t, sig)` leaves the task alone, and its next check does what it has asked for by then. -/
structure Respected (t : Int) (sig : Nat) (w : SigState) (saved : Word) : Prop where
  state : ∀ i, (w.table.tasks i).pid = t →
    ((signalSend w t sig saved).2.table.tasks i).state = (w.table.tasks i).state
  check : ∀ ops w2 saved2, Run (OwnStep t) (signalSend w t sig saved).2 ops w2 → Runs w2.table t →
    Handled t sig w2 (signalCheck w2 saved2)

/-- The disposition is respected exactly if the signal is neither `SIGINT` nor `SIGTERM`. -/
theorem disposition_respected_iff (s0 : TaskTable) (t : Int) (ops : List SigOp) (w : SigState)
    (hrun : Run (OwnStep t) (signalInit s0) ops w) (i : Nat) (hi : i < w.table.taskCount)
    (hpid : (w.table.tasks i).pid = t) (hst : ¬ (w.table.tasks i).Ended)
    (honly : ∀ k < w.table.taskCount, (w.table.tasks k).pid = t → k = i) (sig : Nat) (h1 : 1 ≤ sig) (h2 : sig < 32)
    (hkill : sig ≠ sigkill) (saved : Word) : Respected t sig w saved ↔ sig ≠ sigint ∧ sig ≠ sigterm := by
  have hlv : Live w.table t := ⟨i, hi, hpid, hst⟩
  obtain ⟨j, hj⟩ := hlv.found
  have hsend := signalSend_eq h1 h2 hkill hj saved
  have hhold : Holding t 0#32 w := Holding.run ⟨rfl, rfl, fun _ => rfl⟩ hrun
  constructor
  · intro hr
    by_contra hc
    have hz : sig = sigint ∨ sig = sigterm := by
      by_cases h : sig = sigint
      · exact .inl h
      · exact .inr (Classical.not_not.1 fun h' => hc ⟨h, h'⟩)
    obtain rfl : j = i := honly j (schedGetTaskIdx_some hj).1 (schedGetTaskIdx_some hj).2.1
    have hst' := hr.state j hpid
    rw [hsend] at hst'
    simp only [if_pos hz, TaskTable.setState, TaskTable.setTask_self] at hst'
    exact hst (.inl hst'.symm)
  · rintro ⟨hint, hterm⟩
    have hz : ¬ (sig = sigint ∨ sig = sigterm) := not_or.2 ⟨hint, hterm⟩
    refine ⟨fun k _ => ?_, fun ops2 w2 saved2 hrun2 hruns => ?_⟩
    · rw [hsend]
      simp only [if_neg hz]
    · have h2' := (hhold.send hlv h1 h2 hkill saved).run hrun2
      rw [BitVec.zero_or] at h2'
      have hdd : w2.table.cur.state ≠ .dead := by
        rw [hruns.state]
        simp
      obtain ⟨j2, hj2⟩ := schedGetTaskIdx_found hruns.cur_lt hruns.pid hdd
      rw [signalCheck_one h1 h2 h2' hruns.pid hj2 saved2]
      exact deliver_handled h2' hruns.pid hruns.state saved2

/-- The child has set a handler for `SIGHUP` and one for `SIGINT`. -/
def sampleHandlers : SigState :=
  (signalSetHandler (signalSetHandler (signalInit sampleChild) 1 0x8048000#32).2 2 0x8048000#32).2

theorem sampleHandlers_run : Run (OwnStep 3) (signalInit sampleChild)
    [.setHandler 1 0x8048000#32, .setHandler 2 0x8048000#32] sampleHandlers := by
  have hcur : sampleChild.cur.pid = 3 := rfl
  have hlv : Live sampleChild 3 := sampleChild_live.2 (.inr (.inr rfl))
  have hown : ∀ w : SigState, w.table = sampleChild → ∀ sig h, Own 3 w (.setHandler sig h) := by
    intro w hw sig h
    rw [Own, hw, if_pos hcur]
    exact hlv
  exact .snoc (.single ⟨hown _ rfl _ _, rfl⟩) ⟨hown _ rfl _ _, rfl⟩

theorem disposition_respected_iff_hangup : Respected 3 1 sampleHandlers 0#32 := by
  have hol : ∀ k < sampleHandlers.table.taskCount, (sampleHandlers.table.tasks k).pid = 3 → k = 2 := by
    decide
  refine (disposition_respected_iff sampleChild 3 _ sampleHandlers sampleHandlers_run 2 (by decide) rfl ?_ hol 1 (by decide)
    (by decide) (by decide) 0#32).2 (by decide)
  rintro (h | h) <;> cases h

/-- `SIGINT` makes a zombie of a task that has a handler for it. -/
theorem interrupt_ignores_handler : sampleHandlers.wanted 3 2 = 0x8048000#32 ∧
    (sampleHandlers.table.tasks 2).state = .running ∧
    ((signalSend sampleHandlers 3 2 0#32).2.table.tasks 2).state = .zombie :=
  ⟨rfl, rfl, rfl⟩

end KumOS.Signals
