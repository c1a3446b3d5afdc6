import KumOS.Signals.Model

/-!
# Who gets a signal, and what it does

A signal that is sent is pending in the slot of its target's pid.  Two things take it to
others.  All pids above sixteen share slot 0 with pid 1, and `SIGKILL` ends the task that
sends it (`signal_targeted_iff`).  In the slot the disposition is kept and obeyed by
`signal_check`, but `SIGINT` and `SIGTERM` make their target a zombie when they are sent,
whatever it has asked for (`disposition_respected_iff`).
-/

namespace KumOS.Signals

open Lib X86 Sched
open Function (update update_self update_of_ne)

variable {idx k : Nat}
variable {w : SigState} {set : SigSet} {q : Int}

def SigStep (w : SigState) (op : SigOp) (w' : SigState) : Prop := w' = signalPerform w op

/-! ## What the calls change -/

section

variable {w : SigState} {p : Int} {sig : Nat} {j : Nat}

/-- `signal_send` of another signal than `SIGKILL` to a task that is found. -/
theorem signalSend_eq (h1 : 1 ≤ sig) (h2 : sig < 32) (hk : sig ≠ sigkill) (hj : schedGetTaskIdx w.table p = some j)
    (saved : Word) : signalSend w p sig saved = (0, { w.setSet (sigSlot p) { w.sets (sigSlot p) with
      pending := (w.sets (sigSlot p)).pending ||| sigBit sig } with
      table := if sig = sigint ∨ sig = sigterm then w.table.setState j .zombie else w.table }) := by
  have hvalid : ¬ ((sig : Int) ≤ 0 ∨ (nsig : Int) ≤ sig) := by
    unfold nsig
    omega
  have hk' : ¬ (sig : Int) = sigkill := by
    omega
  have hiff : ((sig : Int) = sigint ∨ (sig : Int) = sigterm ∨ (sig : Int) = sigkill) ↔ sig = sigint ∨ sig = sigterm := by
    omega
  unfold signalSend
  rw [if_neg hvalid, if_neg hk', hj]
  simp only [sigIdx_eq hj, Int.toNat_natCast]
  by_cases hz : sig = sigint ∨ sig = sigterm
  · rw [if_pos (hiff.2 hz), if_pos hz]
    rfl
  · rw [if_neg fun h => hz (hiff.1 h), if_neg hz]
    rfl

/-- `signal_send` writes to one slot. -/
theorem signalSend_sets (w : SigState) (q sig : Int) (saved : Word) (hk : k ≠ sigIdx w.table q) :
    (signalSend w q sig saved).2.sets k = w.sets k ∧ (signalSend w q sig saved).2.wanted = w.wanted := by
  unfold signalSend
  split
  · exact ⟨rfl, rfl⟩
  split
  · split <;> exact ⟨rfl, rfl⟩
  · split
    · exact ⟨rfl, rfl⟩
    · split <;> exact ⟨update_of_ne hk .., rfl⟩

theorem checkLoop_sets (hk : k ≠ idx) (pending saved : Word) (l : List Nat) (w : SigState) :
    (checkLoop idx pending saved l w).sets k = w.sets k ∧ (checkLoop idx pending saved l w).wanted = w.wanted := by
  induction l generalizing w with
  | nil => exact ⟨rfl, rfl⟩
  | cons sig rest ih =>
    have hset : ∀ set, (w.setSet idx set).sets k = w.sets k := fun set => update_of_ne hk ..
    rw [checkLoop]
    split
    · exact ih w
    simp only []
    split
    · exact ⟨(ih _).1.trans (hset _), (ih _).2⟩
    split
    · split
      · exact ⟨(ih _).1.trans (hset _), (ih _).2⟩
      · exact ⟨hset _, rfl⟩
    · exact ⟨(ih _).1.trans (hset _), (ih _).2⟩

/-- `signal_check` writes to the slot of the current task. -/
theorem signalCheck_sets (w : SigState) (saved : Word) (hk : k ≠ sigIdx w.table w.table.cur.pid) :
    (signalCheck w saved).sets k = w.sets k ∧ (signalCheck w saved).wanted = w.wanted := by
  unfold signalCheck
  simp only []
  split
  · exact ⟨rfl, rfl⟩
  · exact checkLoop_sets hk ..

end

/-! ## Nothing is ever blocked -/

theorem setSet_blocked (hb : set.blocked = (w.sets idx).blocked) (i : Nat) :
    ((w.setSet idx set).sets i).blocked = (w.sets i).blocked := by
  by_cases hi : i = idx
  · subst hi
    exact (congrArg SigSet.blocked (update_self ..)).trans hb
  · exact congrArg SigSet.blocked (update_of_ne hi ..)

theorem checkLoop_blocked {pending saved : Word} (l : List Nat) (w : SigState) (i : Nat) :
    ((checkLoop idx pending saved l w).sets i).blocked = (w.sets i).blocked := by
  induction l generalizing w with
  | nil => rfl
  | cons sig rest ih =>
    have hset : ∀ p, ((w.setSet idx { w.sets idx with pending := p }).sets i).blocked = (w.sets i).blocked :=
      fun p => setSet_blocked (by rfl) i
    rw [checkLoop]
    split
    · exact ih w
    simp only []
    split
    · exact (ih _).trans (hset _)
    split
    · split
      · exact (ih _).trans (hset _)
      · exact hset _
    · exact (ih _).trans (hset _)

theorem signalPerform_blocked (w : SigState) (op : SigOp) (i : Nat) :
    ((signalPerform w op).sets i).blocked = (w.sets i).blocked := by
  cases op with
  | sched op => rfl
  | send q sig saved =>
    show ((signalSend w q sig saved).2.sets i).blocked = _
    unfold signalSend
    split
    · rfl
    split
    · split <;> rfl
    · split
      · rfl
      · split <;> exact setSet_blocked (by rfl) i
  | setHandler sig handler =>
    show ((signalSetHandler w sig handler).2.sets i).blocked = _
    unfold signalSetHandler
    split
    · rfl
    · exact setSet_blocked (by rfl) i
  | check saved =>
    show ((signalCheck w saved).sets i).blocked = _
    unfold signalCheck
    simp only []
    split
    · rfl
    · exact checkLoop_blocked ..

theorem run_blocked {s0 : TaskTable} {ops : List SigOp} (hrun : Run SigStep (signalInit s0) ops w) (i : Nat) :
    (w.sets i).blocked = 0#32 := by
  refine Run.invariant (fun w => (w.sets i).blocked = 0#32) rfl ?_ hrun
  rintro w1 op w2 h rfl
  exact (signalPerform_blocked w1 op i).trans h

/-! ## The one that exits -/

theorem pickNext_kept (s : TaskTable) : (pickNext s).2.currentIdx = s.currentIdx ∧
    ∀ i, Kept (s.tasks i) ((pickNext s).2.tasks i) := by
  obtain ⟨s1, fell, hw, hpick⟩ := pickNext_woken s
  rw [hpick]
  exact ⟨hw.currentIdx, hw.kept⟩

theorem schedExitCode_ended (s : TaskTable) (code : Int) (saved : Word) :
    ((schedExitCode s code saved).tasks s.currentIdx).Ended := by
  have hcur : ((exitTask s code).tasks s.currentIdx).Ended := by
    unfold exitTask Task.Ended
    rw [TaskTable.setTask_self]
    split
    · exact .inl rfl
    · exact .inr rfl
  obtain ⟨hidx, hkt⟩ := pickNext_kept (exitTask s code)
  have hidx : (pickNext (exitTask s code)).2.currentIdx = s.currentIdx := hidx
  have hst := (hkt s.currentIdx).ended hcur
  have hend : ((pickNext (exitTask s code)).2.tasks s.currentIdx).Ended := by
    unfold Task.Ended at hcur ⊢
    rwa [hst]
  show ((reschedule (exitTask s code) saved).tasks s.currentIdx).Ended
  unfold reschedule
  simp only []
  split
  · exact hend
  rename_i hne
  have hpv := switchTo_prev _ saved hne
  rw [TaskTable.cur, hidx] at hpv
  have hrun : ((pickNext (exitTask s code)).2.tasks s.currentIdx).state ≠ .running := by
    intro hr
    unfold Task.Ended at hend
    rw [hr] at hend
    simp at hend
  rw [if_neg hrun] at hpv
  unfold Task.Ended at hend ⊢
  rwa [hpv]

/-! ## Targets -/

/-- Whether `signal_check` finds the signal when `q` is the current task. -/
def SigState.found (w : SigState) (q : Int) (sig : Nat) : Bool := (w.sets (sigIdx w.table q)).visible.getLsbD sig

/-- The signal has reached `p` and nobody else. -/
structure Targeted (w w' : SigState) (p : Int) (sig : Nat) : Prop where
  state : ∀ i, (w.table.tasks i).pid ≠ p → (w'.table.tasks i).state = (w.table.tasks i).state
  exitCode : ∀ i, (w.table.tasks i).pid ≠ p → (w'.table.tasks i).exitCode = (w.table.tasks i).exitCode
  pending : ∀ q, Live w.table q → q ≠ p →
    (w'.sets (sigIdx w'.table q)).pending = (w.sets (sigIdx w.table q)).pending
  found : ∀ q, Live w.table q → (w'.found q sig = true ↔ q = p)

theorem visible_unblocked (h : set.blocked = 0#32) : set.visible = set.pending := by
  unfold SigSet.visible
  rw [h]
  exact BitVec.and_allOnes

theorem Live.found_zombie {s : TaskTable} (h : Live s q) (j : Nat) :
    ∃ k, schedGetTaskIdx (s.setState j .zombie) q = some k := by
  obtain ⟨i, hi, hp, hst⟩ := h
  have hpid : ((s.setState j .zombie).tasks i).pid = (s.tasks i).pid := TaskTable.setTask_pid s j i _ rfl
  refine schedGetTaskIdx_found hi (hpid.trans hp) ?_
  by_cases hij : i = j
  · subst hij
    unfold TaskTable.setState
    simp
  · unfold TaskTable.setState
    rw [TaskTable.setTask_ne _ _ _ _ hij]
    exact fun hd => hst (.inr hd)

/-- `signal_send` reaches its target alone exactly if the signal is not `SIGKILL`, nobody alive shares the target's slot,
and nobody else has the signal pending. -/
theorem signal_targeted_iff (s0 : TaskTable) (ops : List SigOp) (w : SigState) (hrun : Run SigStep (signalInit s0) ops w)
    (hcaller : w.table.cur.state = .running) (p : Int) (hlive : Live w.table p) (hne : w.table.cur.pid ≠ p) (sig : Nat)
    (h1 : 1 ≤ sig) (h2 : sig < 32) (saved : Word) :
    Targeted w (signalSend w p sig saved).2 p sig ↔
      sig ≠ sigkill ∧ ∀ q, Live w.table q → q ≠ p → sigSlot q ≠ sigSlot p ∧ w.found q sig = false := by
  obtain ⟨j, hj⟩ := hlive.found
  by_cases hk : sig = sigkill
  · -- the caller is running before and has exited afterwards
    refine iff_of_false (fun ht => ?_) fun hc => hc.1 hk
    have hst := ht.state w.table.currentIdx hne
    have hend := schedExitCode_ended w.table (-1) saved
    have hsend : (signalSend w p sig saved).2.table = schedExitCode w.table (-1) saved := by
      subst hk
      unfold signalSend
      rw [if_neg (by decide), if_pos rfl, hj]
    rw [hsend] at hst
    unfold Task.Ended at hend
    rw [hst] at hend
    have hcaller : (w.table.tasks w.table.currentIdx).state = .running := hcaller
    rw [hcaller] at hend
    simp at hend
  · have hsend := congrArg Prod.snd (signalSend_eq h1 h2 hk hj saved)
    generalize hw' : (signalSend w p sig saved).2 = w' at *
    have htb : w'.table = if sig = sigint ∨ sig = sigterm then w.table.setState j .zombie else w.table := by
      rw [hsend]
    have hsets : w'.sets = update w.sets (sigSlot p) { w.sets (sigSlot p) with
        pending := (w.sets (sigSlot p)).pending ||| sigBit sig } := by
      rw [hsend]
      rfl
    have hidx : ∀ q, Live w.table q → sigIdx w'.table q = sigSlot q ∧ sigIdx w.table q = sigSlot q := by
      intro q hq
      obtain ⟨k, hk⟩ := hq.found
      obtain ⟨k', hk'⟩ := hq.found_zombie j
      refine ⟨?_, sigIdx_eq hk⟩
      rw [htb]
      split
      · exact sigIdx_eq hk'
      · exact sigIdx_eq hk
    have hblocked : ∀ i, (w'.sets i).blocked = 0#32 := by
      intro i
      rw [hsets]
      by_cases hi : i = sigSlot p
      · rw [hi, update_self]
        exact run_blocked hrun _
      · rw [update_of_ne hi]
        exact run_blocked hrun i
    have hfo : ∀ q, Live w.table q → w'.found q sig = (decide (sigSlot q = sigSlot p) || w.found q sig) := by
      intro q hq
      unfold SigState.found
      rw [visible_unblocked (hblocked _), visible_unblocked (run_blocked hrun _), (hidx q hq).1, (hidx q hq).2, hsets]
      by_cases hs : sigSlot q = sigSlot p
      · rw [hs, update_self, getLsbD_insert h2]
        simp
      · rw [update_of_ne hs, decide_eq_false hs, Bool.false_or]
    constructor
    · intro ht
      refine ⟨hk, fun q hq hqp => ?_⟩
      have hno : w'.found q sig = false := by
        rw [Bool.eq_false_iff]
        exact fun h => hqp ((ht.found q hq).1 h)
      rw [hfo q hq, Bool.or_eq_false_iff, decide_eq_false_iff_not] at hno
      exact hno
    · rintro ⟨-, hot⟩
      have hts : ∀ i, (w.table.tasks i).pid ≠ p → w'.table.tasks i = w.table.tasks i := by
        intro i hi
        rw [htb]
        split
        · have hij : i ≠ j := by
            rintro rfl
            exact hi (schedGetTaskIdx_some hj).2.1
          exact TaskTable.setTask_ne _ _ _ _ hij
        · rfl
      refine ⟨fun i hi => by rw [hts i hi], fun i hi => by rw [hts i hi], fun q hq hqp => ?_, fun q hq => ?_⟩
      · rw [(hidx q hq).1, (hidx q hq).2, hsets, update_of_ne (hot q hq hqp).1]
      · rw [hfo q hq]
        by_cases hqp : q = p
        · subst hqp
          simp
        · obtain ⟨hs, hf⟩ := hot q hq hqp
          simp [hs, hf, hqp]

theorem sampleChild_live : Live sampleChild q ↔ q = 1 ∨ q = 2 ∨ q = 3 := by
  constructor
  · rintro ⟨i, hi, hp, -⟩
    rw [sampleChild_trio.taskCount] at hi
    obtain rfl | rfl | rfl : i = 0 ∨ i = 1 ∨ i = 2 := by omega
    · exact .inl hp.symm
    · exact .inr (.inl hp.symm)
    · exact .inr (.inr hp.symm)
  · rintro (rfl | rfl | rfl)
    · exact ⟨0, by decide, rfl, nofun⟩
    · exact ⟨1, by decide, rfl, nofun⟩
    · exact ⟨2, by decide, rfl, nofun⟩

/-- The child sends `SIGHUP` to the shell. -/
theorem signal_targeted_iff_hangup :
    Targeted (signalInit sampleChild) (signalSend (signalInit sampleChild) 1 1 0#32).2 1 1 := by
  refine (signal_targeted_iff sampleChild [] (signalInit sampleChild) .nil rfl 1 (sampleChild_live.2 (.inl rfl))
    (by decide) 1 (by decide) (by decide) 0#32).2 ⟨by decide, fun q hq hne => ?_⟩
  rcases sampleChild_live.1 hq with rfl | rfl | rfl
  · exact absurd rfl hne
  · exact ⟨by decide, rfl⟩
  · exact ⟨by decide, rfl⟩

/-- The child sends `SIGKILL` to the shell: the child is ended, the shell goes on. -/
theorem kill_ends_sender : (sampleChild.tasks 2).state = .running ∧ Live sampleChild 1 ∧
    ((signalSend (signalInit sampleChild) 1 9 0#32).2.table.tasks 2).state = .zombie ∧
    ((signalSend (signalInit sampleChild) 1 9 0#32).2.table.tasks 2).exitCode = -1 ∧
    ((signalSend (signalInit sampleChild) 1 9 0#32).2.table.tasks 0).state = .running :=
  ⟨rfl, sampleChild_live.2 (.inl rfl), rfl, rfl, rfl⟩

end KumOS.Signals
