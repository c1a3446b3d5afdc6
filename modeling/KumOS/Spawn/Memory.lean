import KumOS.Spawn.Model

/-!
# What a task costs

Whatever fails, a spawn gives back the kernel memory it took.  A task that was started
holds one kernel stack, which `sched_exit_code` gives back, so that starting a task and
ending it leaves the heap and the regions as they were, for `sched_spawn`, `elf_spawn`
and `sc_fork`.  `user_spawn` keeps more: the first stack it asked for is in no slot, and
nobody gives back the region of the user stack (`spawn_conserves_iff`).
-/

namespace KumOS.Spawn

open Lib X86 Kmalloc Paging Sched
open Kernel (elfSpawned elfUserStackSize mapUser scForked spawnStackSize userSpawned)
open Option (bind_some map_some)
open TaskTable (setState setTask_ne setTask_pid setTask_self)

variable {k k1 : Kernel} {i m n p q : Nat} {pid r : Int} {s : TaskTable} {name : List UInt8}
  {im : Image} {extra : List (Nat × Nat)} {w : Kmalloc.World}
variable {t : Task} {entry : Word} {s' : TaskTable} {ops : List QuietOp} {k4 : Kernel}

/-! ## A task that has been started -/

/-- Whoever has the pid holds the stack at `p`. -/
structure Started (s : TaskTable) (pid : Int) (p : Nat) : Prop where
  inv : Sched.Inv s
  next_pos : 0 < s.nextPid
  stack : ∀ i < s.taskCount, (s.tasks i).pid = pid → (s.tasks i).stack = BitVec.ofNat 32 p

theorem inv_mem (h : Sched.Inv s) (mem : Ram) : Sched.Inv { s with mem := mem } :=
  h.congr ⟨rfl, rfl, rfl, rfl, fun _ => rfl, fun _ => rfl⟩

/-- The one slot of the task is written, with another stack. -/
theorem Started.setTask (h : Started s pid p) (hi : i < s.taskCount) (hpid : (s.tasks i).pid = pid)
    (hp : t.pid = (s.tasks i).pid) (hst : t.state = (s.tasks i).state) (hstack : t.stack = BitVec.ofNat 32 q)
    (mem : Ram) : Started { s.setTask i t with mem := mem } pid q := by
  refine ⟨inv_mem (h.inv.congr (sameView_setTask hp hst)) mem, h.next_pos, fun j hj hpj => ?_⟩
  rw [setTask_pid s i j t hp] at hpj
  obtain rfl : j = i := h.inv.pid_inj j hj i hi (hpj.trans hpid.symm)
  rw [setTask_self]
  exact hstack

theorem pointer_word (h0 : p ≠ 0) (hlt : p < 2 ^ 32) : BitVec.ofNat 32 p ≠ 0#32 ∧ (BitVec.ofNat 32 p).toNat = p := by
  have hn : (BitVec.ofNat 32 p).toNat = p := by
    exact Nat.mod_eq_of_lt hlt
  refine ⟨fun h => h0 ?_, hn⟩
  rw [← hn, h]
  rfl

theorem freeStack_grown {w0 : Kmalloc.World} {l r : List (Nat × Nat)} (h : Grown w0 k.world (l ++ (p, n) :: r))
    (ht : t.stack = BitVec.ofNat 32 p) :
    Grown w0 (k.freeStack t).world (l ++ r) ∧ (k.freeStack t).phys = k.phys ∧ (k.freeStack t).table = k.table := by
  have hmem : (p, n) ∈ k.world.live := by
    rw [h.live]
    simp
  obtain ⟨h0, hlt, -⟩ := live_bounds h.inv hmem
  obtain ⟨hne, hnat⟩ := pointer_word h0 hlt
  unfold Kernel.freeStack
  rw [ht, if_neg hne, hnat]
  exact ⟨h.kfree, rfl, rfl⟩

/-! ## `sched_spawn` -/

section

variable {w0 : Kmalloc.World} {news : List (Nat × Nat)}

theorem kmalloc_cases (h : Grown w0 k.world news) (hn : n ≤ 0x7FFFFFFF) :
    k.kmalloc n = some (0, k) ∨
      ∃ p w', k.kmalloc n = some (p, { k with world := w' }) ∧ p ≠ 0 ∧ Grown w0 w' ((p, n) :: news) := by
  unfold Kernel.kmalloc
  rcases h.kmalloc hn with he | ⟨p, w', he, hp, hg⟩
  · rw [he]
    exact .inl rfl
  · rw [he]
    exact .inr ⟨p, w', rfl, hp, hg⟩

/-- `sched_spawn` fails with everything as it was, or starts a task with a new stack. -/
theorem schedSpawn_outcome (h : Grown w0 k.world news) (hinv : Sched.Inv k.table) (hpos : 0 < k.table.nextPid)
    (hmax : k.table.nextPid < 2 ^ 31 - 1) (name : List UInt8) (entry : Word) (kumLevel : Int) :
    ∃ r k', k.schedSpawn name entry kumLevel = some (r, k') ∧ k'.phys = k.phys ∧
      (r = -1 ∧ Grown w0 k'.world news ∨
        0 ≤ r ∧ ∃ p, Grown w0 k'.world ((p, spawnStackSize) :: news) ∧ Started k'.table r p ∧
          ∃ i, schedGetTaskIdx k'.table r = some i) := by
  unfold Kernel.schedSpawn
  split
  · exact ⟨-1, k, rfl, rfl, .inl ⟨rfl, h⟩⟩
  rename_i hrm
  rcases kmalloc_cases h (show spawnStackSize ≤ 0x7FFFFFFF by decide) with he | ⟨p, w', he, hp, hg⟩
  · rw [he]
    exact ⟨-1, k, rfl, rfl, .inl ⟨rfl, h⟩⟩
  rw [he]
  obtain ⟨hsl, hre⟩ := findSlot_spec hinv.toBase (by omega)
  have hfu : ¬ schedMaxTasks ≤ findSlot k.table := by omega
  simp only [map_some, if_neg hp, if_neg hfu]
  have hinv' := schedSpawn_inv hinv hpos hmax name entry kumLevel (some (BitVec.ofNat 32 p))
  rcases schedSpawn_cases k.table name entry kumLevel (some (BitVec.ofNat 32 p)) with
    hno | ⟨stk, t, mem, hstk, -, ht, hs⟩
  · unfold Sched.schedSpawn at hno
    simp only [if_neg hrm, if_neg hfu] at hno
    have := congrArg Prod.fst hno
    omega
  obtain rfl := Option.some.inj hstk
  rw [hs] at hinv' ⊢
  refine ⟨_, _, rfl, rfl, .inr ⟨Int.le_of_lt hpos, p, hg, ⟨hinv', ?_, ?_⟩, ?_⟩⟩
  · show 0 < incInt k.table.nextPid
    rw [incInt_eq (Int.le_of_lt hpos) hmax]
    omega
  · intro i hi hpi
    have hi : i < if k.table.taskCount ≤ findSlot k.table then findSlot k.table + 1 else k.table.taskCount := hi
    by_cases his : i = findSlot k.table
    · rw [his, setTask_self]
      exact ht.stack
    · rw [setTask_ne _ _ _ _ his] at hpi
      have := hinv.pid_lt i (by split at hi <;> omega)
      omega
  · refine schedGetTaskIdx_found (i := findSlot k.table) ?_ ?_ ?_
    · show findSlot k.table < if k.table.taskCount ≤ findSlot k.table then _ else _
      split <;> omega
    · rw [setTask_self]
      exact ht.pid
    · rw [setTask_self, ht.state]
      simp

/-! ## The others -/

section

variable (h : Grown w0 k.world ((p, n) :: (q, m) :: news))
include h

/-- The new task gets the stack its caller has asked for, and the one from `sched_spawn` is given back. -/
theorem swapStack (hst : Started k.table pid p) (hi : schedGetTaskIdx k.table pid = some i) :
    Grown w0 (k.freeStack (k.table.tasks i)).world ((q, m) :: news) ∧
      (k.freeStack (k.table.tasks i)).phys = k.phys ∧ (k.freeStack (k.table.tasks i)).table = k.table ∧
      ∀ (t : Task) (mem : Ram), t.pid = pid → t.state = (k.table.tasks i).state → t.stack = BitVec.ofNat 32 q →
        Started { k.table.setTask i t with mem := mem } pid q := by
  obtain ⟨hlt, hpid, -⟩ := schedGetTaskIdx_some hi
  obtain ⟨hg, hph, htab⟩ := freeStack_grown (l := []) h (hst.stack i hlt hpid)
  exact ⟨hg, hph, htab, fun t mem htp hts htk => hst.setTask hlt hpid (htp.trans hpid.symm) hts htk mem⟩

theorem elfSpawned_outcome (hpid : 0 ≤ pid)
    (hst : Started k.table pid p) (hi : schedGetTaskIdx k.table pid = some i) (esp : Word) :
    ∃ k', elfSpawned q esp pid k = (pid, k') ∧ k'.phys = k.phys ∧ Grown w0 k'.world ((q, m) :: news) ∧
      Started k'.table pid q := by
  obtain ⟨hg, hph, htab, hset⟩ := swapStack h hst hi
  obtain ⟨-, hp, -⟩ := schedGetTaskIdx_some hi
  unfold elfSpawned
  rw [if_neg (by omega), hi]
  refine ⟨_, rfl, hph, hg, ?_⟩
  simp only [htab]
  exact hset _ k.table.mem hp rfl rfl

theorem scForked_outcome (hpid : 0 ≤ pid)
    (hst : Started k.table pid p) (hi : schedGetTaskIdx k.table pid = some i) (childDir : Nat) :
    ∃ k', scForked childDir q pid k = (pid, k') ∧ k'.phys = k.phys ∧ Grown w0 k'.world ((q, m) :: news) ∧
      Started k'.table pid q := by
  obtain ⟨hg, hph, htab, hset⟩ := swapStack h hst hi
  obtain ⟨-, hp, -⟩ := schedGetTaskIdx_some hi
  unfold scForked
  rw [if_neg (by omega), hi]
  refine ⟨_, rfl, hph, hg, ?_⟩
  simp only [htab]
  exact hset _ _ hp rfl rfl

end

theorem userSpawned_outcome (im : Image) (h : Grown w0 k.world news) (hpid : 0 ≤ pid)
    (hst : Started k.table pid p) (hi : schedGetTaskIdx k.table pid = some i) (kstack ustack : Nat) (entry : Word) :
    ∃ k', userSpawned im kstack ustack entry pid k = (pid, k') ∧ Grown w0 k'.world news ∧ Started k'.table pid p := by
  obtain ⟨hlt, hp, -⟩ := schedGetTaskIdx_some hi
  unfold userSpawned
  rw [if_neg (by omega), hi]
  refine ⟨_, rfl, h, ?_⟩
  refine hst.setTask hlt hp ?_ ?_ ?_ _
  · rfl
  · rfl
  · exact hst.stack i hlt hp

end

/-! ## What a spawn leaves -/

/-- What holds of the kernel when one of the four is called. -/
structure KernelOk (k : Kernel) : Prop where
  heap : Kmalloc.Inv k.world
  table : Sched.Inv k.table
  next_pos : 0 < k.table.nextPid
  next_lt : k.table.nextPid < 2 ^ 31 - 1

/-- The spawn has failed, or there is a task with a stack; `extra` is what else is in use then. -/
inductive Outcome (k : Kernel) (extra : List (Nat × Nat)) : Int → Kernel → Prop
  | failed {r : Int} {k1 : Kernel} : r < 0 → Grown k.world k1.world [] → Outcome k extra r k1
  | started {r : Int} {k1 : Kernel} {p n : Nat} : 0 ≤ r → Grown k.world k1.world ((p, n) :: extra) →
      Started k1.table r p → Outcome k extra r k1

theorem schedSpawn_call (h : KernelOk k) {kumLevel : Int} (hs : k.schedSpawn name entry kumLevel = some (r, k1)) :
    Outcome k [] r k1 ∧ (0 ≤ r → Phys.SameRegions k.phys k1.phys) := by
  obtain ⟨r', k', he, hph, hres⟩ := schedSpawn_outcome (.refl h.heap) h.table h.next_pos h.next_lt name entry kumLevel
  rw [he] at hs
  cases hs
  refine ⟨?_, fun _ => by rw [hph]; exact ⟨rfl, rfl⟩⟩
  rcases hres with ⟨rfl, hg⟩ | ⟨hr, p, hg, hst, -⟩
  · exact .failed (by decide) hg
  · exact .started hr hg hst

theorem elfSpawn_call (h : KernelOk k) {res : Option ElfResult} {placeholder : Word}
    (hs : k.elfSpawn im name res placeholder = some (r, k1)) :
    Outcome k [] r k1 ∧ (0 ≤ r → Phys.SameRegions k.phys k1.phys) := by
  have hg0 := Grown.refl h.heap
  have hfa : ∀ k' : Kernel, k'.world = k.world → Outcome k [] (-1) k' := by
    intro k' hw
    refine .failed (by decide) ?_
    rw [hw]
    exact hg0
  obtain ⟨-, hps⟩ := Phys.elfPages_rest im (elfUserStackSize / pageSize)
    (Kernel.elfUserStackTop - elfUserStackSize) k.phys
  unfold Kernel.elfSpawn at hs
  cases res with
  | none =>
    cases hs
    exact ⟨hfa k rfl, nofun⟩
  | some res =>
    simp only [] at hs
    split at hs
    · cases hs
      exact ⟨hfa k rfl, nofun⟩
    generalize k.phys.elfPages im (elfUserStackSize / pageSize) (Kernel.elfUserStackTop - elfUserStackSize) = c
      at hs hps
    obtain ⟨b, s1⟩ := c
    cases b with
    | false =>
      cases hs
      exact ⟨hfa _ rfl, nofun⟩
    | true =>
      simp only [] at hs
      have hg1 : Grown k.world ({ k with phys := s1 } : Kernel).world [] := hg0
      rcases kmalloc_cases hg1 (show Kernel.elfKstackSize ≤ 0x7FFFFFFF by decide) with he | ⟨q, w', he, hq, hg⟩
      · rw [he] at hs
        cases hs
        exact ⟨hfa _ rfl, nofun⟩
      rw [he] at hs
      simp only [bind_some, if_neg hq] at hs
      generalize hts : elfSpawnStack k.table.mem (BitVec.ofNat 32 q) (BitVec.ofNat 32 res.entry) = ts at hs
      obtain ⟨r', k', hsp, hph, hres⟩ := schedSpawn_outcome
        (k := { world := w', phys := s1, table := { k.table with mem := ts.mem } }) hg (inv_mem h.table ts.mem)
        h.next_pos h.next_lt name placeholder 0
      rw [hsp] at hs
      simp only [map_some, Option.some.injEq] at hs
      rcases hres with ⟨rfl, hgk⟩ | ⟨hr, p, hgk, hst, i, hi⟩
      · cases hs
        exact ⟨.failed (by decide) (Grown.kfree (l := []) hgk), nofun⟩
      obtain ⟨k2, hk2, hph2, hg2, hst2⟩ := elfSpawned_outcome hgk hr hst hi ts.esp
      rw [hk2] at hs
      cases hs
      exact ⟨.started hr hg2 hst2, fun _ => by rw [hph2, hph]; exact hps⟩

theorem scFork_call (h : KernelOk k) (hs : k.scFork im = some (r, k1)) :
    Outcome k [] r k1 ∧ (0 ≤ r → Phys.SameRegions k.phys k1.phys) := by
  have hg0 := Grown.refl h.heap
  have hclone := Phys.pagingCloneDir_rest im k.phys
  unfold Kernel.scFork at hs
  generalize k.phys.pagingCloneDir im = c at hs hclone
  simp only [] at hs
  split at hs
  · cases hs
    exact ⟨.failed (by decide) hg0, nofun⟩
  have hg1 : Grown k.world ({ k with phys := c.2 } : Kernel).world [] := hg0
  rcases kmalloc_cases hg1 (show spawnStackSize ≤ 0x7FFFFFFF by decide) with he | ⟨q, w', he, hq, hg⟩
  · rw [he] at hs
    cases hs
    exact ⟨.failed (by decide) hg0, nofun⟩
  rw [he] at hs
  simp only [bind_some, if_neg hq] at hs
  obtain ⟨r', k', hsp, hph, hres⟩ := schedSpawn_outcome
    (k := { world := w', phys := c.2, table := k.table }) hg h.table h.next_pos h.next_lt k.table.cur.name 0#32
    k.table.cur.kumLevel
  rw [hsp] at hs
  simp only [map_some, Option.some.injEq] at hs
  rcases hres with ⟨rfl, hgk⟩ | ⟨hr, p, hgk, hst, i, hi⟩
  · cases hs
    exact ⟨.failed (by decide) (Grown.kfree (l := []) hgk), nofun⟩
  obtain ⟨k2, hk2, hph2, hg2, hst2⟩ := scForked_outcome hgk hr hst hi c.1
  rw [hk2] at hs
  cases hs
  exact ⟨.started hr hg2 hst2, fun _ => by rw [hph2, show k'.phys = c.2 from hph]; exact hclone⟩

/-- `user_spawn` leaves its first stack behind. -/
theorem userSpawn_call (h : KernelOk k) (hs : k.userSpawn im name entry = some (r, k1)) :
    ∃ kstack, Outcome k [(kstack, spawnStackSize)] r k1 := by
  have hg0 := Grown.refl h.heap
  unfold Kernel.userSpawn at hs
  rcases kmalloc_cases hg0 (show spawnStackSize ≤ 0x7FFFFFFF by decide) with he | ⟨q, w', he, hq, hg⟩
  · rw [he] at hs
    cases hs
    exact ⟨0, .failed (by decide) hg0⟩
  rw [he] at hs
  simp only [bind_some, if_neg hq] at hs
  refine ⟨q, ?_⟩
  obtain ⟨⟨ustack, s1⟩, -, hs⟩ := Option.bind_eq_some_iff.1 hs
  split at hs
  · cases hs
    exact .failed (by decide) (Grown.kfree (l := []) hg)
  obtain ⟨r', k', hsp, -, hres⟩ := schedSpawn_outcome
    (k := { world := w', phys := mapUser im ustack (Kernel.userStackSize / pageSize) s1, table := k.table }) hg
    h.table h.next_pos h.next_lt name entry 0
  rw [hsp] at hs
  simp only [map_some, Option.some.injEq] at hs
  rcases hres with ⟨rfl, hgk⟩ | ⟨hr, p, hgk, hst, i, hi⟩
  · cases hs
    exact .failed (by decide) (Grown.kfree (l := []) hgk)
  obtain ⟨k2, hk2, hg2, hst2⟩ := userSpawned_outcome im hgk hr hst hi q ustack entry
  rw [hk2] at hs
  cases hs
  exact .started hr hg2 hst2

/-! ## Until it exits -/

/-- The same pids with the same stacks. -/
structure SameStacks (s s' : TaskTable) : Prop where
  count : s'.taskCount = s.taskCount
  pid : ∀ i, (s'.tasks i).pid = (s.tasks i).pid
  stack : ∀ i, (s'.tasks i).stack = (s.tasks i).stack

theorem SameStacks.refl (s : TaskTable) : SameStacks s s := ⟨rfl, fun _ => rfl, fun _ => rfl⟩

theorem SameStacks.of_kept (h : s'.taskCount = s.taskCount ∧ ∀ i, Kept (s.tasks i) (s'.tasks i)) :
    SameStacks s s' :=
  ⟨h.1, fun i => (h.2 i).pid, fun i => (h.2 i).stack⟩

theorem SameStacks.trans {s1 : TaskTable} (h : SameStacks s s1) (h' : SameStacks s1 s') : SameStacks s s' :=
  ⟨h'.count.trans h.count, fun i => (h'.pid i).trans (h.pid i), fun i => (h'.stack i).trans (h.stack i)⟩

theorem sameStacks_setState (s : TaskTable) (i : Nat) (st : TaskState) : SameStacks s (s.setState i st) := by
  refine ⟨rfl, fun j => setTask_pid s i j _ rfl, fun j => ?_⟩
  unfold setState
  by_cases hj : j = i
  · subst hj
    rw [setTask_self]
  · rw [setTask_ne _ _ _ _ hj]

theorem perform_sameStacks (h : Sched.Inv s) {op : Sched.Op} (ha : Allowed s op)
    (hspawn : ∀ name entry level stack, op ≠ .spawn name entry level stack)
    (hexit : ∀ code saved, op ≠ .exitCode code saved) : SameStacks s (perform s op) := by
  cases op with
  | spawn name entry level stack => exact absurd rfl (hspawn name entry level stack)
  | exitCode code saved => exact absurd rfl (hexit code saved)
  | yield saved => exact .of_kept (reschedule_kept h.toBase saved)
  | sleep ms saved => exact .of_kept (schedSleep_kept h ha ms saved)
  | tick saved => exact .of_kept (schedTick_kept h saved)
  | timer => exact ⟨rfl, fun _ => rfl, fun _ => rfl⟩
  | waitpid pid =>
    show SameStacks s (schedWaitpidPass s pid).2
    unfold schedWaitpidPass
    split
    · split
      · exact sameStacks_setState ..
      · exact .refl s
    · exact .refl s
  | wait =>
    show SameStacks s (schedWaitPass s).2
    unfold schedWaitPass
    simp only []
    split
    · exact sameStacks_setState ..
    · split <;> exact .refl s

section

variable {w0 : Kmalloc.World} {k' : Kernel} {news : List (Nat × Nat)}

theorem QuietStep.started {op : QuietOp} (hs : QuietStep k op k') (h : Started k.table pid p) : Started k'.table pid p := by
  cases op with
  | sched op =>
    obtain ⟨hspawn, hexit, ha, rfl⟩ := hs
    have hno : op.isSpawn ≠ true := by
      cases op with
      | spawn name entry level stack => exact absurd rfl (hspawn name entry level stack)
      | _ => exact Bool.false_ne_true
    have hsm := perform_sameStacks h.inv ha hspawn hexit
    refine ⟨perform_inv h.inv h.next_pos ha fun hop => absurd hop hno, ?_, fun i hi hp => ?_⟩
    · rcases perform_nextPid k.table op with he | ⟨hop, -⟩
      · rw [he]
        exact h.next_pos
      · exact absurd hop hno
    · rw [hsm.count] at hi
      rw [hsm.pid] at hp
      rw [hsm.stack]
      exact h.stack i hi hp
  | store x v =>
    obtain ⟨-, rfl⟩ := hs
    exact h

theorem run_grown (hrun : Run QuietStep k ops k') (h : Grown w0 k.world news) :
    Grown w0 k'.world news ∧ k'.phys = k.phys := by
  refine Run.invariant (fun k1 => Grown w0 k1.world news ∧ k1.phys = k.phys) ⟨h, rfl⟩ ?_ hrun
  rintro k1 op k2 ⟨hg, hph⟩ hs
  cases op with
  | sched op =>
    obtain ⟨-, -, -, rfl⟩ := hs
    exact ⟨hg, hph⟩
  | store x v =>
    obtain ⟨hx, rfl⟩ := hs
    exact ⟨hg.store hx v, hph⟩

end

/-! ## Conservation -/

def activeRegions (s : Phys) : List VRegion := s.vregions.filter VRegion.active

/-- `kmalloc_used()` and the active regions are as they were. -/
structure Conserved (k k' : Kernel) : Prop where
  used : kmallocUsed k'.world.heap = kmallocUsed k.world.heap
  regions : activeRegions k'.phys = activeRegions k.phys

/-- From a call that has started task `r` to any time after that task has exited. -/
inductive Lifetime (r : Int) (k1 k4 : Kernel) : Prop
  | intro {before after : List QuietOp} {k2 : Kernel} {code : Int} {saved : Word} (runs : Run QuietStep k1 before k2)
      (current : k2.table.cur.pid = r) (ends : Run QuietStep (k2.exitCode code saved) after k4)

theorem Outcome.lifetime (h : Outcome k extra r k1) (hr : 0 ≤ r) (hl : Lifetime r k1 k4) :
    Grown k.world k4.world extra ∧ k4.phys = k1.phys := by
  obtain ⟨hruns, hcur, hen⟩ := hl
  cases h with
  | failed hneg hg => exact absurd hr (by omega)
  | @started p n _ hg hst =>
    obtain ⟨hg2, hph2⟩ := run_grown hruns hg
    have hst2 := Run.invariant (fun k1 => Started k1.table _ _) hst (fun _ _ _ h1 hs => hs.started h1) hruns
    obtain ⟨hg3, hph3, -⟩ := freeStack_grown (l := []) hg2 (hst2.stack _ hst2.inv.cur_lt hcur)
    obtain ⟨hg4, hph4⟩ := run_grown hen hg3
    exact ⟨hg4, hph4.trans (hph3.trans hph2)⟩

theorem Outcome.failed_used (h : Outcome k extra r k1) (hinv : Kmalloc.Inv k.world) (hr : r < 0) :
    kmallocUsed k1.world.heap = kmallocUsed k.world.heap := by
  cases h with
  | failed _ hg => exact (hg.used_eq_iff hinv fun e he => absurd he List.not_mem_nil).2 rfl
  | started hpos => omega

theorem Outcome.table (h : Outcome k extra r k1) (hr : 0 ≤ r) : Sched.Inv k1.table := by
  cases h with
  | failed hneg => omega
  | started _ _ hst => exact hst.inv

/-- A stack that is in use besides the task's own stays in use. -/
theorem Outcome.leaked {kstack : Nat} (h : Outcome k [(kstack, spawnStackSize)] r k1)
    (hinv : Kmalloc.Inv k.world) (hr : 0 ≤ r) (hl : Lifetime r k1 k4) :
    kmallocUsed k4.world.heap ≠ kmallocUsed k.world.heap := by
  intro hus
  obtain ⟨hg, -⟩ := h.lifetime hr hl
  have hpos : ∀ e ∈ [(kstack, spawnStackSize)], 0 < e.2 := by
    intro e he
    rw [List.mem_singleton.1 he]
    exact (by decide : 0 < spawnStackSize)
  exact absurd ((hg.used_eq_iff hinv hpos).1 hus) (List.cons_ne_nil _ _)

/-- A failed spawn leaves `kmalloc_used()`, and a task that is started and ended leaves the memory of the kernel as it was,
exactly if it was not started by `user_spawn`. -/
theorem spawn_conserves_iff (im : Image) (sp : Spawner) (k : Kernel) (h : KernelOk k) (r : Int) (k1 : Kernel)
    (hs : sp.call im k = some (r, k1)) :
    (r < 0 → kmallocUsed k1.world.heap = kmallocUsed k.world.heap) ∧
      (0 ≤ r → ∀ k4, Lifetime r k1 k4 → (Conserved k k4 ↔ sp.isUser = false)) := by
  have hce : ∀ {k4}, Outcome k [] r k1 → (0 ≤ r → Phys.SameRegions k.phys k1.phys) → 0 ≤ r → Lifetime r k1 k4 →
      Conserved k k4 := by
    intro k4 hout hreg hr hl
    obtain ⟨hg, hph⟩ := hout.lifetime hr hl
    refine ⟨(hg.used_eq_iff h.heap fun e he => absurd he List.not_mem_nil).2 rfl, ?_⟩
    unfold activeRegions
    rw [hph, (hreg hr).1]
  cases sp with
  | schedSpawn name entry kumLevel =>
    obtain ⟨hout, hreg⟩ := schedSpawn_call h hs
    exact ⟨hout.failed_used h.heap, fun hr k4 hl => iff_of_true (hce hout hreg hr hl) rfl⟩
  | elfSpawn name res placeholder =>
    obtain ⟨hout, hreg⟩ := elfSpawn_call h hs
    exact ⟨hout.failed_used h.heap, fun hr k4 hl => iff_of_true (hce hout hreg hr hl) rfl⟩
  | scFork =>
    obtain ⟨hout, hreg⟩ := scFork_call h hs
    exact ⟨hout.failed_used h.heap, fun hr k4 hl => iff_of_true (hce hout hreg hr hl) rfl⟩
  | userSpawn name entry =>
    obtain ⟨kstack, hout⟩ := userSpawn_call h hs
    exact ⟨hout.failed_used h.heap, fun hr k4 hl => iff_of_false (fun hc => hout.leaked h.heap hr hl hc.used) Bool.noConfusion⟩

/-! ## On the machine after boot -/

/-- The world after a `kmalloc`. -/
def taken (w : Kmalloc.World) (n : Nat) : Kmalloc.World := ((w.kmalloc n).map Prod.snd).getD w

theorem kmalloc_taken (h : (k.world.kmalloc n).map Prod.fst = some p) :
    k.kmalloc n = some (p, { k with world := taken k.world n }) := by
  unfold Kernel.kmalloc taken
  obtain ⟨r, hr, rfl⟩ := Option.map_eq_some_iff.1 h
  rw [hr]
  rfl

theorem taken_inv (h : Kmalloc.Inv w) (hn : n ≤ 0x7FFFFFFF) : Kmalloc.Inv (taken w n) := by
  unfold taken
  rcases (Grown.refl h).kmalloc hn with he | ⟨p, w', he, -, hg⟩
  · rw [he]
    exact h
  · rw [he]
    exact hg.inv

/-- The idle task has its stack. -/
def sampleKernel (s : Phys) : Kernel := ⟨taken ⟨bootHeap, []⟩ 4096, s, sampleInit⟩

theorem sampleKernel_ok (s : Phys) : KernelOk (sampleKernel s) := by
  have hheap : Kmalloc.Inv (taken ⟨bootHeap, []⟩ 4096) := 
    taken_inv ⟨[], [], kmallocInit_shape _ (by decide) (by decide) (by decide), .nil⟩ (by decide)
  have hnx : (sampleKernel s).table.nextPid = 3 := rfl
  refine ⟨hheap, schedInit_inv .., ?_, ?_⟩
  · rw [hnx]
    decide
  · rw [hnx]
    decide

/-- `sched_spawn` while `w` is what is in use. -/
theorem sample_spawn (h : (w.kmalloc 4096).map Prod.fst = some p) (hp : p ≠ 0) (s : Phys) :
    (Kernel.mk w s sampleInit).schedSpawn [] 0#32 0 =
      some (3, ⟨taken w 4096, s, (Sched.schedSpawn sampleInit [] 0#32 0 (some (BitVec.ofNat 32 p))).2⟩) := by
  unfold Kernel.schedSpawn
  rw [if_neg (show ¬ schedMaxTasks ≤ sampleInit.taskCount by decide), show spawnStackSize = 4096 from rfl,
    kmalloc_taken h]
  simp only [map_some, if_neg hp]
  rfl

theorem childLives (hinv : Sched.Inv k.table) (h : Trio k.table 0 .running .ready .ready 4)
    (hpid : (k.table.tasks 2).pid = 3) : ∃ k2 k4, Run QuietStep k [.sched (.yield 0#32), .sched (.yield 0#32)] k2 ∧
      k2.table.cur.pid = 3 ∧ Run QuietStep (k2.exitCode 0 0#32) [.sched (.waitpid 3)] k4 := by
  have hsp : ∀ (k : Kernel) (op : Sched.Op), (∀ name entry level stack, op ≠ .spawn name entry level stack) →
      (∀ code saved, op ≠ .exitCode code saved) → Allowed k.table op →
      QuietStep k (.sched op) { k with table := perform k.table op } :=
    fun k op hspawn hexit ha => ⟨hspawn, hexit, ha, rfl⟩
  have hyield : ∀ k : Kernel, QuietStep k (.sched (.yield 0#32)) { k with table := schedYield k.table 0#32 } := fun k =>
    hsp k (.yield 0#32) (fun _ _ _ _ => Sched.Op.noConfusion) (fun _ _ => Sched.Op.noConfusion) trivial
  have hinv1 : Sched.Inv (perform k.table (.yield 0#32)) :=
    perform_inv hinv (by rw [h.nextPid]; decide) trivial fun hop => absurd hop Bool.false_ne_true
  have hsm := (SameStacks.of_kept (reschedule_kept hinv.toBase 0#32)).trans (.of_kept (reschedule_kept hinv1.toBase 0#32))
  refine ⟨_, _, .snoc (.single (hyield k)) (hyield _), ?_,
    .single (hsp _ (.waitpid 3) (fun _ _ _ _ => Sched.Op.noConfusion) (fun _ _ => Sched.Op.noConfusion) trivial)⟩
  have hcur : (schedYield (schedYield k.table 0#32) 0#32).currentIdx = 2 := ((h.toIdle 0#32).toChild 0#32).currentIdx
  show ((schedYield (schedYield k.table 0#32) 0#32).tasks _).pid = 3
  rw [hcur]
  exact (hsm.pid 2).trans hpid

/-- The caller of `sched_spawn` writes to the stack of the child. -/
theorem trio_setEsp {c : Nat} {shell idle child : TaskState} {n : Int} (h : Trio s c shell idle child n)
    (esp : Word) (mem : Ram) :
    Trio { s.setTask 2 { s.tasks 2 with esp := esp } with mem := mem } c shell idle child n where
  currentIdx := h.currentIdx
  taskCount := h.taskCount
  shell_state := (congrArg Task.state (setTask_ne _ _ _ _ (by decide))).trans h.shell_state
  idle_state := (congrArg Task.state (setTask_ne _ _ _ _ (by decide))).trans h.idle_state
  child_state := (congrArg Task.state (setTask_self _ _ _)).trans h.child_state
  shell_pid := (setTask_pid s 2 0 { s.tasks 2 with esp := esp } rfl).trans h.shell_pid
  idle_pid := (setTask_pid s 2 1 { s.tasks 2 with esp := esp } rfl).trans h.idle_pid
  nextPid := h.nextPid

theorem sample_child (stack : Word) : ((Sched.schedSpawn sampleInit [] 0#32 0 (some stack)).2.tasks 2).pid = 3 := rfl

/-- A child started by `sched_spawn`. -/
theorem spawn_conserves_iff_sched : ∃ k1 k4,
    (Spawner.schedSpawn [] 0#32 0).call sampleImage (sampleKernel (pagingInit sampleImage 32768 fun _ _ => 0)) = some (3, k1) ∧
      Lifetime 3 k1 k4 ∧ Conserved (sampleKernel (pagingInit sampleImage 32768 fun _ _ => 0)) k4 := by
  have hok := sampleKernel_ok (pagingInit sampleImage 32768 fun _ _ => 0)
  have hca : (Spawner.schedSpawn [] 0#32 0).call sampleImage (sampleKernel (pagingInit sampleImage 32768 fun _ _ => 0)) = _ :=
    sample_spawn rfl (by decide) _
  have hinv := (schedSpawn_call hok hca).1.table (by decide)
  obtain ⟨k2, k4, hrun, hcur, hend⟩ := childLives hinv (sampleInit_shell.spawn [] 0#32 0 _) (sample_child _)
  have hlife : Lifetime 3 _ k4 := .intro hrun hcur hend
  exact ⟨_, k4, hca, hlife, ((spawn_conserves_iff sampleImage _ _ hok 3 _ hca).2 (by decide) k4 hlife).2 rfl⟩

theorem sample_child_idx (stack : Word) :
    schedGetTaskIdx (Sched.schedSpawn sampleInit [] 0#32 0 (some stack)).2 3 = some 2 := rfl

/-- `user_spawn` while `w` is what is in use. -/
theorem sample_userSpawn {s s' : Phys} {u : Nat} (hp : (w.kmalloc 4096).map Prod.fst = some p) (hp0 : p ≠ 0)
    (hq : ((taken w 4096).kmalloc 4096).map Prod.fst = some q) (hq0 : q ≠ 0)
    (hu : s.vmalloc sampleImage 8192 = some (u, s')) (hu0 : u ≠ 0) :
    ∃ k1, (Kernel.mk w s sampleInit).userSpawn sampleImage [] 0#32 = some (3, k1) ∧
      Trio k1.table 0 .running .ready .ready 4 ∧ (k1.table.tasks 2).pid = 3 := by
  have hsp := sample_spawn hq hq0 (mapUser sampleImage u (8192 / pageSize) s')
  have htrio := sampleInit_shell.spawn [] 0#32 0 (BitVec.ofNat 32 q)
  have hchild := sample_child (BitVec.ofNat 32 q)
  have hidx := sample_child_idx (BitVec.ofNat 32 q)
  unfold Kernel.userSpawn
  rw [show spawnStackSize = 4096 from rfl, show Kernel.userStackSize = 8192 from rfl,
    kmalloc_taken hp]
  simp only [bind_some, if_neg hp0, hu, if_neg hu0, hsp]
  generalize (Sched.schedSpawn sampleInit [] 0#32 0 (some (BitVec.ofNat 32 q))).2 = tab at *
  simp only [map_some, userSpawned]
  rw [if_neg (by decide), hidx]
  exact ⟨_, rfl, trio_setEsp htrio _ _, (setTask_pid tab 2 2 _ rfl).trans hchild⟩

/-- A program is started with `user_spawn`, exits and is waited for. -/
theorem user_spawn_leaks : ∃ k1 k2 k4,
    (sampleKernel (pagingInit sampleImage 32768 fun _ _ => 0)).userSpawn sampleImage [] 0#32 = some (3, k1) ∧
      Run QuietStep k1 [.sched (.yield 0#32), .sched (.yield 0#32)] k2 ∧ k2.table.cur.pid = 3 ∧
      Run QuietStep (k2.exitCode 0 0#32) [.sched (.waitpid 3)] k4 ∧
      kmallocUsed k4.world.heap ≠ kmallocUsed (sampleKernel (pagingInit sampleImage 32768 fun _ _ => 0)).world.heap := by
  have hok := sampleKernel_ok (pagingInit sampleImage 32768 fun _ _ => 0)
  obtain ⟨u, s', hu, hu0⟩ := Phys.sample_fed (n := 8192) (by decide) (by decide)
  obtain ⟨k1, hca, htrio, hpid⟩ := sample_userSpawn (w := taken ⟨bootHeap, []⟩ 4096)
    rfl (by decide) rfl (by decide) hu hu0
  obtain ⟨kstack, hout⟩ := userSpawn_call hok hca
  obtain ⟨k2, k4, hrun, hcur, hend⟩ := childLives (hout.table (by decide)) htrio hpid
  exact ⟨k1, k2, k4, hca, hrun, hcur, hend, hout.leaked hok.heap (by decide) (.intro hrun hcur hend)⟩

end KumOS.Spawn
