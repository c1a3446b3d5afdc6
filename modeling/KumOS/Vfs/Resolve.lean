import KumOS.Vfs.Paths

/-!
# How the calls resolve a path

A path belongs to the active mount with the longest path that ends where a component
of the path ends, and the driver gets what is behind it (`Belongs`).  `find_mount`
takes the longest mount path the path begins with, wherever it ends.  Relative
paths are those of `/disk` in `vfs_open`, `vfs_stat` and `vfs_unlink`, those of the
current directory in `vfs_readdir`; and `vfs_open` looks in `/mem` with the variable
that holds the local path.  `resolves_alike_iff` says when none of this matters.
-/

namespace KumOS.Vfs

open Lib
open Fat12 (Name kstrncmp)
open Option (bind_some map_some)

variable {X : Type}
variable {cwd path : Name} {ms : List (Mount X)} {m : Mount X} {s s' : State X}

/-! ## What a path belongs to -/

/-- Between the two parts of a path a component ends. -/
def Boundary (front rest : Name) : Prop := rest.headD 47 = 47 ∨ front.getLast? = some 47

instance (front rest : Name) : Decidable (Boundary front rest) := inferInstanceAs (Decidable (_ ∨ _))

/-- The path begins with the components of the mount. -/
structure Matches (m : Mount X) (path : Name) : Prop where
  active : m.active = true
  front : m.path <+: path
  boundary : Boundary m.path (path.drop m.path.length)

/-- The mount of a path and the rest of the path: the longest match, the first of several. -/
def Belongs (ms : List (Mount X)) (path : Name) : Option (Nat × Name) → Prop
  | none => ∀ m ∈ ms, ¬ Matches m path
  | some (i, rest) => ∃ m, ms[i]? = some m ∧ Matches m path ∧ rest = skipSlash (path.drop m.path.length) ∧
      ∀ j m', ms[j]? = some m' → Matches m' path →
        m'.path.length ≤ m.path.length ∧ (m'.path.length = m.path.length → i ≤ j)

theorem Belongs.unique {r r' : Option (Nat × Name)} (h : Belongs ms path r) (h' : Belongs ms path r') : r = r' := by
  cases r with
  | none =>
    cases r' with
    | none => rfl
    | some x =>
      obtain ⟨m, hm, hma, -, -⟩ := h'
      exact absurd hma (h m (List.mem_of_getElem? hm))
  | some x =>
    obtain ⟨m, hm, hma, hrs, hbest⟩ := h
    cases r' with
    | none => exact absurd hma (h' m (List.mem_of_getElem? hm))
    | some y =>
      obtain ⟨m', hm', hmatch', hrest', hbest'⟩ := h'
      obtain ⟨hle, hfi⟩ := hbest _ _ hm' hmatch'
      obtain ⟨hle', hfirst'⟩ := hbest' _ _ hm hma
      have hlen : m'.path.length = m.path.length := by omega
      have hi : x.1 = y.1 := by
        omega
      rw [hlen, ← hrs] at hrest'
      exact congrArg some (Prod.ext hi hrest'.symm)

/-! ## `find_mount` -/

/-- The path begins with the path of the mount. -/
structure Begins (m : Mount X) (path : Name) : Prop where
  active : m.active = true
  front : m.path <+: path

/-- Mount `i` has the longest path the path begins with, and is the first of several. -/
structure Longest (ms : List (Mount X)) (path : Name) (i : Nat) (m : Mount X) : Prop where
  get : ms[i]? = some m
  begins : Begins m path
  best : ∀ j m', ms[j]? = some m' → Begins m' path →
    m'.path.length ≤ m.path.length ∧ (m'.path.length = m.path.length → i ≤ j)

theorem findLoop_spec (path : Name) (htx : ∀ m ∈ ms, 0 ∉ m.path) (k : Nat) (best : Option Nat × Nat) :
    (findLoop path ms k best = best ∧ ∀ m ∈ ms, Begins m path → m.path.length ≤ best.2) ∨
      ∃ i m, Longest ms path i m ∧ best.2 < m.path.length ∧ findLoop path ms k best = (some (k + i), m.path.length) := by
  induction ms generalizing k best with
  | nil => exact .inl ⟨rfl, fun m hm => absurd hm List.not_mem_nil⟩
  | cons m ms ih =>
    have hma := kstrncmp_length_eq_zero_iff (htx m List.mem_cons_self) path
    have htext' : ∀ m' ∈ ms, 0 ∉ m'.path := fun m' hm' => htx m' (List.mem_cons_of_mem m hm')
    -- a longest match behind `m` is one of the whole list if it beats `m`
    have hlater : ∀ {i m'}, Longest ms path i m' → (Begins m path → m.path.length < m'.path.length) →
        Longest (m :: ms) path (i + 1) m' := by
      intro i m' hl hlt
      refine ⟨hl.get, hl.begins, fun j m'' hj hb => ?_⟩
      cases j with
      | zero =>
        obtain rfl : m = m'' := Option.some.inj hj
        have := hlt hb
        omega
      | succ j =>
        obtain ⟨h1, h2⟩ := hl.best j m'' hj hb
        exact ⟨h1, fun he => by have := h2 he; omega⟩
    rw [findLoop]
    by_cases htk : m.active ∧ kstrncmp path m.path m.path.length = 0 ∧ best.2 < m.path.length
    · rw [if_pos htk]
      obtain ⟨hact, hcmp, hlt⟩ := htk
      have hb : Begins m path := ⟨hact, hma.1 hcmp⟩
      rcases ih htext' (k + 1) (some k, m.path.length) with ⟨he, hall⟩ | ⟨i, m', hl, hlt', he⟩
      · refine .inr ⟨0, m, ⟨rfl, hb, fun j m' hj hb' => ?_⟩, hlt, he⟩
        cases j with
        | zero =>
          obtain rfl : m = m' := Option.some.inj hj
          exact ⟨Nat.le_refl _, fun _ => Nat.le_refl 0⟩
        | succ j => exact ⟨hall m' (List.mem_of_getElem? hj) hb', fun _ => Nat.zero_le _⟩
      · refine .inr ⟨i + 1, m', hlater hl fun _ => hlt', Nat.lt_trans hlt hlt', ?_⟩
        rw [he, Nat.add_assoc, Nat.add_comm 1 i]
    rw [if_neg htk]
    have hworse : Begins m path → m.path.length ≤ best.2 := by
      intro hb
      apply Nat.le_of_not_lt
      intro hlt
      exact htk ⟨hb.active, hma.2 hb.front, hlt⟩
    rcases ih htext' (k + 1) best with ⟨he, hall⟩ | ⟨i, m', hl, hlt', he⟩
    · refine .inl ⟨he, fun m' hm' hb => ?_⟩
      rcases List.mem_cons.1 hm' with rfl | hm'
      · exact hworse hb
      · exact hall m' hm' hb
    · refine .inr ⟨i + 1, m', hlater hl fun hb => Nat.lt_of_le_of_lt (hworse hb) hlt', hlt', ?_⟩
      rw [he, Nat.add_assoc, Nat.add_comm 1 i]

/-- `find_mount` finds the longest mount path the path begins with; it does not find an empty one. -/
theorem findMount_cases (htx : ∀ m ∈ ms, 0 ∉ m.path) (path : Name) :
    (findMount ms path = none ∧ ∀ m ∈ ms, Begins m path → m.path = []) ∨
      ∃ i m, Longest ms path i m ∧ m.path ≠ [] ∧
        findMount ms path = some (i, skipSlash (path.drop m.path.length)) := by
  unfold findMount
  rcases findLoop_spec path htx 0 (none, 0) with ⟨he, hall⟩ | ⟨i, m, hl, hlt, he⟩
  · rw [he]
    exact .inl ⟨rfl, fun m hm hb => List.eq_nil_of_length_eq_zero (Nat.le_zero.1 (hall m hm hb))⟩
  · rw [he, Nat.zero_add]
    exact .inr ⟨i, m, hl, List.ne_nil_of_length_pos hlt, rfl⟩

/-- The longest mount path the path begins with is not empty and ends where a component ends. -/
def EndsComponent (ms : List (Mount X)) (path : Name) : Prop :=
  ∀ m ∈ ms, Begins m path → (∀ m' ∈ ms, Begins m' path → m'.path.length ≤ m.path.length) →
    m.path ≠ [] ∧ Boundary m.path (path.drop m.path.length)

theorem begins_eq {m' : Mount X} (h : m.path <+: path) (h' : m'.path <+: path)
    (hlen : m'.path.length = m.path.length) : m'.path = m.path :=
  (List.prefix_of_prefix_length_le h' h (Nat.le_of_eq hlen)).eq_of_length hlen

theorem Longest.le {i : Nat} (h : Longest ms path i m) :
    ∀ m' ∈ ms, Begins m' path → m'.path.length ≤ m.path.length := by
  intro m' hm' hb
  obtain ⟨j, hj⟩ := List.mem_iff_getElem?.1 hm'
  exact (h.best j m' hj hb).1

/-- When `find_mount` is right about an absolute path. -/
theorem belongs_findMount_iff (htx : ∀ m ∈ ms, 0 ∉ m.path) (habs : path.headD 0 = 47) :
    Belongs ms path (findMount ms path) ↔ EndsComponent ms path := by
  rcases findMount_cases htx path with ⟨he, hall⟩ | ⟨i, m, hl, hne, he⟩
  · rw [he]
    constructor
    · -- a mount with an empty path would match
      intro hnn m hm hb _
      have hem := hall m hm hb
      refine absurd ⟨hb.active, hb.front, .inl ?_⟩ (hnn m hm)
      rw [hem]
      cases path with
      | nil => rfl
      | cons c cs => exact habs
    · intro hen m hm hma
      have hb : Begins m path := ⟨hma.active, hma.front⟩
      refine (hen m hm hb fun m' hm' hb' => ?_).1 (hall m hm hb)
      rw [hall m' hm' hb']
      exact Nat.zero_le _
  · rw [he]
    constructor
    · rintro ⟨m0, hm0, hma, -, -⟩ m' hm' hb' hbest
      obtain rfl : m = m0 := Option.some.inj (hl.get.symm.trans hm0)
      have hlen : m'.path.length = m.path.length :=
        Nat.le_antisymm (hl.le m' hm' hb') (hbest m (List.mem_of_getElem? hm0) hl.begins)
      rw [begins_eq hl.begins.front hb'.front hlen]
      exact ⟨hne, hma.boundary⟩
    · intro hen
      have hend := (hen m (List.mem_of_getElem? hl.get) hl.begins hl.le).2
      exact ⟨m, hl.get, ⟨hl.begins.active, hl.begins.front, hend⟩, rfl,
        fun j m' hj hm' => hl.best j m' hj ⟨hm'.active, hm'.front⟩⟩

theorem skipSlash_length (name : Name) :
    (skipSlash name).length = name.length ∨ name.headD 0 = 47 ∧ (skipSlash name).length + 1 = name.length := by
  cases name with
  | nil => exact .inl rfl
  | cons c cs =>
    by_cases hc : c = 47
    · exact .inr ⟨hc, by rw [skipSlash, if_pos hc, List.length_cons]⟩
    · exact .inl (by rw [skipSlash, if_neg hc])

/-- A path that goes one slash beyond the end of a component ends one itself. -/
theorem getLast?_of_slash {front : Name} {k : Nat} (hfront : front <+: path) (hlen : front.length = k + 1)
    (hslash : (path.drop k).headD 0 = 47) : front.getLast? = some 47 := by
  obtain ⟨rest, rfl⟩ := hfront
  rw [List.getLast?_eq_getElem?, hlen, Nat.add_sub_cancel]
  rw [List.headD_eq_head?_getD, List.head?_drop, List.getElem?_append_left (by omega)] at hslash
  have hk : k < front.length := by omega
  rw [List.getElem?_eq_getElem hk] at hslash ⊢
  exact congrArg some hslash

/-- If `find_mount` gives the driver what it should get, it has found the mount it should find. -/
theorem findMount_of_rest (htx : ∀ m ∈ ms, 0 ∉ m.path) {x y : Nat × Name} (hx : findMount ms path = some x)
    (hy : Belongs ms path (some y)) (hrs : y.2 = x.2) : y = x := by
  rcases findMount_cases htx path with ⟨he, -⟩ | ⟨i, m, hl, hne, he⟩
  · rw [he] at hx
    cases hx
  rw [he] at hx
  obtain rfl := Option.some.inj hx
  have hy' := hy
  obtain ⟨m', hm', hma, hr, hbest⟩ := hy'
  have hb' : Begins m' path := ⟨hma.active, hma.front⟩
  obtain ⟨hle, -⟩ := hl.best _ _ hm' hb'
  -- otherwise the longer path has one character more, a slash, and so ends a component itself
  have hend : Boundary m.path (path.drop m.path.length) := by
    by_cases hlen : m'.path.length = m.path.length
    · rw [← begins_eq hl.begins.front hma.front hlen]
      exact hma.boundary
    have hlens : (skipSlash (path.drop m'.path.length)).length = (skipSlash (path.drop m.path.length)).length :=
      congrArg List.length (hr.symm.trans hrs)
    have h := skipSlash_length (path.drop m.path.length)
    rw [List.length_drop] at h
    have hmle := hl.begins.front.length_le
    rcases skipSlash_length (path.drop m'.path.length) with h' | ⟨hslash, h'⟩
    · rw [List.length_drop] at h'
      omega
    · rw [List.length_drop] at h'
      exact .inr (getLast?_of_slash hl.begins.front (by omega) hslash)
  have hlong : Belongs ms path (some (i, skipSlash (path.drop m.path.length))) :=
    ⟨m, hl.get, ⟨hl.begins.active, hl.begins.front, hend⟩, rfl,
      fun j m'' hj hm'' => hl.best j m'' hj ⟨hm''.active, hm''.front⟩⟩
  exact Option.some.inj (hy.unique hlong)

/-! ## The four calls -/

/-- The path a call is about: relative paths are those of the current directory. -/
def fullPath (cwd path : Name) : Name := if path.headD 0 = 47 then cstr path else cwd ++ 47 :: cstr path

/-- Where `vfs_open` looks for a file that the driver does not know. -/
def inMem (path : Name) : Name := memPath ++ 47 :: skipSlash (cstr path)

/-- The calls that hand a path to a driver, beside `vfs_open`. -/
inductive PathCall where
  | stat
  | unlink
  | readdir
  deriving DecidableEq, Repr

/-- The mount a call finds and the local path its driver gets, the inner `none` for no mount. -/
def target (s : State X) (path : Name) : PathCall → Option (Option (Nat × Name))
  | .stat => (resolve path).map (findMount s.mounts)
  | .unlink => (resolve path).map (findMount s.mounts)
  | .readdir => (resolveCwd s.cwd path).map (findMount s.mounts)

/-- A call hands its target to the driver. -/
def State.onTarget {R : Type} (s : State X) (found : Option (Option (Nat × Name))) (absent : R)
    (call : Driver X → Name → Option R) : Option R :=
  found.bind fun
    | none => some absent
    | some (i, rest) => (s.driver i).bind fun dr => call dr rest

theorem vfsStat_target (s : State X) (path : Name) :
    vfsStat s path = s.onTarget (target s path .stat) (none, s) fun dr rest => dr.stat s rest := by
  unfold vfsStat State.onTarget target
  cases resolve path with
  | none => rfl
  | some resolved =>
    simp only [map_some, bind_some]
    cases findMount s.mounts resolved with
    | none => rfl
    | some m =>
      simp only
      cases s.driver m.1 <;> rfl

theorem onTarget_total {R : Type} (s : State X) (resolved : Option Name) (absent : R) (call : Driver X → Name → R) :
    s.onTarget (resolved.map (findMount s.mounts)) absent (fun dr rest => some (call dr rest)) =
      match resolved with
      | none => none
      | some p =>
        match findMount s.mounts p with
        | none => some absent
        | some (i, rest) => (s.driver i).map fun dr => call dr rest := by
  unfold State.onTarget
  cases resolved with
  | none => rfl
  | some p =>
    simp only [map_some, bind_some]
    cases findMount s.mounts p with
    | none => rfl
    | some m =>
      simp only
      cases s.driver m.1 <;> rfl

theorem vfsUnlink_target (s : State X) (path : Name) :
    vfsUnlink s path = s.onTarget (target s path .unlink) (-1, s) fun dr rest => some (dr.unlink s rest) :=
  (onTarget_total s (resolve path) (-1, s) fun dr rest => dr.unlink s rest).symm

theorem vfsReaddir_target (s : State X) (path : Name) (buf : Bytes) (sz : Nat) :
    vfsReaddir s path buf sz = s.onTarget (target s path .readdir) (0, Function.update buf 0 0, s)
      fun dr rest => some (dr.readdir s rest buf sz) :=
  (onTarget_total s (resolveCwd s.cwd path) _ fun dr rest => dr.readdir s rest buf sz).symm

theorem eq_of_fits {p : Name} (h : fits path = some p) : p = path := by
  unfold fits at h
  split at h
  · cases h
  · exact (Option.some.inj h).symm

/-- The driver of the mount knows the file. -/
def ExistsAt (s : State X) (m : Nat × Name) : Prop :=
  ∃ dr st s', s.driver m.1 = some dr ∧ dr.stat s m.2 = some (some st, s')

theorem Driver.hasStat_of_stat {dr : Driver X} {st : Stat} (h : dr.stat s path = some (some st, s')) :
    dr.hasStat = true := by
  cases dr with
  | mem => rfl
  | disk => rfl
  | dev => rfl
  | other o =>
    unfold Driver.stat at h
    cases hf : o.statFn with
    | none => simp [hf] at h
    | some f => simp [Driver.hasStat, hf]

/-- Whether or not the file is in `/mem`, the local path is that of `/mem` once a mount is found. -/
theorem lookInMem_cases {found sel : Option (Nat × Name)} (h : lookInMem s path found = some (sel, s')) :
    (findMount s.mounts (inMem path) = none ∧ sel = found) ∨
      ∃ m, findMount s.mounts (inMem path) = some m ∧
        (ExistsAt s m ∧ sel = some m ∨ ¬ ExistsAt s m ∧ sel = found.map fun f => (f.1, m.2)) := by
  unfold lookInMem at h
  cases hft : fits (memPath ++ 47 :: skipSlash (cstr path)) with
  | none => simp [hft] at h
  | some p =>
    obtain rfl : p = inMem path := eq_of_fits hft
    simp only [hft] at h
    cases hfn : findMount s.mounts (inMem path) with
    | none =>
      simp only [hfn] at h
      cases h
      exact .inl ⟨rfl, rfl⟩
    | some m =>
      obtain ⟨i, rest⟩ := m
      simp only [hfn] at h
      refine .inr ⟨(i, rest), rfl, ?_⟩
      cases hdr : s.driver i with
      | none => simp [hdr] at h
      | some dr =>
        simp only [hdr] at h
        by_cases hhas : dr.hasStat
        · rw [if_pos hhas] at h
          cases hst : dr.stat s rest with
          | none => simp [hst] at h
          | some r =>
            obtain ⟨st, s1⟩ := r
            cases st with
            | none =>
              simp only [hst] at h
              cases h
              refine .inr ⟨?_, rfl⟩
              rintro ⟨dr', st', s2, hdr', hst'⟩
              obtain rfl := Option.some.inj (hdr.symm.trans hdr')
              cases hst.symm.trans hst'
            | some st =>
              simp only [hst] at h
              cases h
              exact .inl ⟨⟨dr, st, s', hdr, hst⟩, rfl⟩
        · rw [if_neg hhas] at h
          cases h
          refine .inr ⟨?_, rfl⟩
          rintro ⟨dr', st', s2, hdr', hst'⟩
          obtain rfl := Option.some.inj (hdr.symm.trans hdr')
          exact hhas (Driver.hasStat_of_stat hst')

theorem select_cases {flags : Flags} {sel : Option (Nat × Name)} (h : select s path flags = some (sel, s')) :
    resolve path = some (fullPath diskPath path) ∧
      ∃ b s1, probe s (findMount s.mounts (fullPath diskPath path)) flags = some (b, s1) ∧
        (b = true ∧ lookInMem s1 path (findMount s.mounts (fullPath diskPath path)) = some (sel, s') ∨
          b = false ∧ sel = findMount s.mounts (fullPath diskPath path)) := by
  unfold select at h
  cases hres : resolve path with
  | none => simp [hres] at h
  | some resolved =>
    obtain rfl : resolved = fullPath diskPath path := eq_of_fits hres
    simp only [hres] at h
    refine ⟨rfl, ?_⟩
    cases hprobe : probe s (findMount s.mounts (fullPath diskPath path)) flags with
    | none => simp [hprobe] at h
    | some r =>
      obtain ⟨b, s1⟩ := r
      have hmt : s1.mounts = s.mounts := (probe_looked hprobe).mounts
      refine ⟨b, s1, rfl, ?_⟩
      cases b with
      | true =>
        simp only [hprobe, hmt] at h
        exact .inl ⟨rfl, h⟩
      | false =>
        simp only [hprobe, hmt] at h
        cases h
        exact .inr ⟨rfl, rfl⟩

/-! ## Paths from the current directory -/

/-- The current directories `vfs_chdir` can reach. -/
def CwdReached (cwd : Name) : Prop := ∃ paths, Run (fun c path c' => chdirTo c path = some c') diskPath paths cwd

theorem cstr_absolute (h : path.headD 0 = 47) : (cstr path).headD 0 = 47 := by
  cases path with
  | nil => cases h
  | cons c cs =>
    obtain rfl : c = 47 := h
    rfl

theorem append_absolute (h : cwd.headD 0 = 47) (rest : Name) : (cwd ++ rest).headD 0 = 47 := by
  cases cwd with
  | nil => cases h
  | cons c cs => exact h

theorem CwdReached.absolute (h : CwdReached cwd) : cwd.headD 0 = 47 := by
  obtain ⟨paths, hrun⟩ := h
  refine hrun.invariant (fun c => c.headD 0 = 47) rfl fun c path c' hc hsp => ?_
  unfold chdirTo at hsp
  split at hsp
  · rename_i hslash
    obtain rfl := Option.some.inj hsp
    have hfront := cstr_absolute hslash
    cases hpath : cstr path with
    | nil =>
      rw [hpath] at hfront
      cases hfront
    | cons c cs =>
      rw [hpath] at hfront
      exact hfront
  · rw [eq_of_fits hsp]
    exact append_absolute hc _

theorem fullPath_absolute (h : cwd.headD 0 = 47) (path : Name) : (fullPath cwd path).headD 0 = 47 := by
  unfold fullPath
  split
  · rename_i hslash
    exact cstr_absolute hslash
  · exact append_absolute h _

/-! ## When the calls agree -/

/-- The calls and `vfs_open`, which settles on `sel`, resolve the path alike: it goes to the mount it
belongs to, or `vfs_open` takes the file of `/mem`, which is there after the probe. -/
def ResolvesAlike (s : State X) (path : Name) (flags : Flags) (sel : Option (Nat × Name)) : Prop :=
  ∃ r, Belongs s.mounts (fullPath s.cwd path) r ∧ (∀ call, target s path call = some r) ∧
    (sel = r ∨ ∃ m b s1, Belongs s.mounts (inMem path) (some m) ∧ sel = some m ∧
      probe s (findMount s.mounts (fullPath diskPath path)) flags = some (b, s1) ∧ ExistsAt s1 m)

/-- The mount path that `find_mount` takes ends a component, the path is the same from `/disk` and from
the current directory, and a look in `/mem` leaves the local path as it is or finds the file, below a
mount path that ends a component. -/
structure Unambiguous (s : State X) (path : Name) (flags : Flags) : Prop where
  ends : EndsComponent s.mounts (fullPath s.cwd path)
  same : findMount s.mounts (fullPath diskPath path) = findMount s.mounts (fullPath s.cwd path)
  look : ∀ s1 m, probe s (findMount s.mounts (fullPath diskPath path)) flags = some (true, s1) →
    findMount s.mounts (inMem path) = some m →
      (ExistsAt s1 m → EndsComponent s.mounts (inMem path) ∨ findMount s.mounts (fullPath s.cwd path) = some m) ∧
      (¬ ExistsAt s1 m → ∀ f, findMount s.mounts (fullPath s.cwd path) = some f → f.2 = m.2)

/-- **Path resolution.**  The calls resolve a path alike exactly when it is unambiguous. -/
theorem resolves_alike_iff {s s' : State X} {path : Name} {flags : Flags} {sel : Option (Nat × Name)}
    (hcwd : CwdReached s.cwd) (htext : ∀ m ∈ s.mounts, 0 ∉ m.path) (hfits : resolveCwd s.cwd path ≠ none)
    (hsel : select s path flags = some (sel, s')) : ResolvesAlike s path flags sel ↔ Unambiguous s path flags := by
  have hen := belongs_findMount_iff htext (fullPath_absolute hcwd.absolute path)
  have hendsMem := belongs_findMount_iff htext (show (inMem path).headD 0 = 47 from rfl)
  obtain ⟨hres, b, s1, hprobe, hcases⟩ := select_cases hsel
  have hmt : s1.mounts = s.mounts := (probe_looked hprobe).mounts
  have hreaddir : target s path .readdir = some (findMount s.mounts (fullPath s.cwd path)) := by
    obtain ⟨p, hp⟩ := Option.ne_none_iff_exists'.1 hfits
    obtain rfl : p = fullPath s.cwd path := eq_of_fits hp
    rw [target, hp, map_some]
  have hstat : ∀ call, call ≠ .readdir → target s path call = some (findMount s.mounts (fullPath diskPath path)) := by
    intro call hne
    cases call with
    | readdir => exact absurd rfl hne
    | stat | unlink => rw [target, hres, map_some]
  constructor
  · rintro ⟨r, hr, hcalls, hopen⟩
    obtain rfl : findMount s.mounts (fullPath s.cwd path) = r :=
      Option.some.inj (hreaddir.symm.trans (hcalls .readdir))
    have hsm := Option.some.inj ((hstat .stat (by decide)).symm.trans (hcalls .stat))
    refine ⟨hen.1 hr, hsm, fun s2 m hprobe2 hm => ?_⟩
    cases hprobe.symm.trans hprobe2
    obtain ⟨-, hcs⟩ | ⟨hb, -⟩ := hcases
    · rcases lookInMem_cases hcs with ⟨hnn, -⟩ | ⟨m', hm', hfo⟩
      · rw [hmt, hm] at hnn
        cases hnn
      · rw [hmt, hm] at hm'
        cases hm'
        rw [hsm] at hfo
        rcases hfo with ⟨hexists, rfl⟩ | ⟨hgone, hkt⟩
        · refine ⟨fun _ => ?_, absurd hexists⟩
          rcases hopen with hopen | ⟨m', _, _, hbel, hopen, -, -⟩
          · exact .inr hopen.symm
          · rw [← hopen, ← hm] at hbel
            exact .inl (hendsMem.1 hbel)
        refine ⟨fun h => absurd h hgone, fun _ f hf => ?_⟩
        rw [hf, map_some] at hkt
        rcases hopen with hopen | ⟨m', _, _, hbel, hopen, hprobe3, hexists⟩
        · rw [hf] at hopen
          exact (congrArg Prod.snd (Option.some.inj (hkt.symm.trans hopen))).symm
        -- the file would be where the look did not find it
        have hm' : m' = (f.1, m.2) := Option.some.inj (hopen.symm.trans hkt)
        obtain rfl : m' = m := findMount_of_rest htext hm hbel (by rw [hm'])
        cases hprobe.symm.trans hprobe3
        exact absurd hexists hgone
    · cases hb
  · rintro ⟨hend, hsm, hlook⟩
    refine ⟨_, hen.2 hend, fun call => ?_, ?_⟩
    · by_cases hca : call = .readdir
      · rw [hca, hreaddir]
      · rw [hstat call hca, hsm]
    · obtain ⟨rfl, hcs⟩ | ⟨-, hkt⟩ := hcases
      · rcases lookInMem_cases hcs with ⟨-, hkt⟩ | ⟨m, hm, hfo⟩
        · exact .inl (hkt.trans hsm)
        · rw [hmt] at hm
          obtain ⟨hthere, hgone⟩ := hlook s1 m hprobe hm
          rcases hfo with ⟨hexists, hkt⟩ | ⟨hnot, hkt⟩
          · rcases hthere hexists with hendMem | hfu
            · have hbel := hendsMem.2 hendMem
              rw [hm] at hbel
              exact .inr ⟨m, true, s1, hbel, hkt, hprobe, hexists⟩
            · exact .inl (hkt.trans hfu.symm)
          rw [hsm] at hkt
          cases hf : findMount s.mounts (fullPath s.cwd path) with
          | none =>
            rw [hf] at hkt
            exact .inl hkt
          | some f =>
            rw [hf, map_some, ← hgone hnot f hf] at hkt
            exact .inl hkt
      · exact .inl (hkt.trans hsm)

theorem endsComponent_boot (h : ∀ p ∈ [memPath, diskPath, devPath], p <+: path → p ≠ [] ∧ Boundary p (path.drop p.length)) :
    EndsComponent (initMounts : List (Mount X)) path :=
  fun _ hm hb _ => h _ (List.mem_map_of_mem (f := Mount.path) hm) hb.front

/-- The file "x", from "/disk" and not in `/mem`. -/
theorem resolves_alike_iff_relative : ∃ s' : State Unit,
    select bareBoot [120] {} = some (some (1, [120]), s') ∧ CwdReached bareBoot.cwd ∧
    ResolvesAlike bareBoot [120] {} (some (1, [120])) := by
  obtain ⟨s', hsel⟩ : ∃ s' : State Unit, select bareBoot [120] {} = some (some (1, [120]), s') := ⟨_, rfl⟩
  have hcwd : CwdReached bareBoot.cwd := ⟨[], .nil⟩
  have hpaths : ∀ p ∈ [memPath, diskPath, devPath], 0 ∉ p := by decide
  have htx : ∀ m ∈ bareBoot.mounts, 0 ∉ m.path := fun m hm => hpaths _ (List.mem_map_of_mem hm)
  refine ⟨s', hsel, hcwd, (resolves_alike_iff hcwd htx (fun h => by cases h) hsel).2
    ⟨endsComponent_boot (by decide), rfl, fun s1 m _ hm => ?_⟩⟩
  obtain rfl : (0, [120]) = m := Option.some.inj hm
  refine ⟨fun _ => .inl (endsComponent_boot (by decide)), fun _ f hf => ?_⟩
  obtain rfl : (1, [120]) = f := Option.some.inj hf
  rfl

/-- After `chdir("/mem")` the file "x" is one of `/disk` for `vfs_stat` and one of `/mem` for `vfs_readdir`.
`vfs_open` looks for a missing "/disk/x" in `/mem` and keeps the local path from there, "disk/x".  And
"/diskette" is the file "ette" of `/disk`. -/
theorem paths_resolved_apart :
    (∃ s s' : State Unit, vfsChdir bareBoot memPath = some (0, s) ∧ select s [120] {} = some (some (1, [120]), s') ∧
      target s [120] .stat = some (some (1, [120])) ∧ target s [120] .readdir = some (some (0, [120])) ∧
      ¬ ResolvesAlike s [120] {} (some (1, [120]))) ∧
    (∃ s' : State Unit, select bareBoot (diskPath ++ [47, 120]) {} = some (some (1, [100, 105, 115, 107, 47, 120]), s') ∧
      target bareBoot (diskPath ++ [47, 120]) .stat = some (some (1, [120]))) ∧
    target bareBoot (diskPath ++ [101, 116, 116, 101]) .stat = some (some (1, [101, 116, 116, 101])) := by
  refine ⟨⟨_, _, rfl, rfl, rfl, rfl, ?_⟩, ⟨_, rfl, rfl⟩, rfl⟩
  rintro ⟨r, -, hcalls, -⟩
  have hdk : some (some (1, [120])) = some r := hcalls .stat
  have hmem : some (some (0, [120])) = some r := hcalls .readdir
  cases hdk.trans hmem.symm

/-! ## The buffers of the paths -/

/-- The calls that put a path together in a buffer of 128 bytes. -/
inductive BufferCall where
  | vfsChdir
  | vfsOpen (flags : Flags)
  | other (call : PathCall)

/-- `vfs_open` goes on to look in `/mem`. -/
def LooksInMem (s : State X) (path : Name) (flags : Flags) : Prop :=
  ∃ s1, probe s (findMount s.mounts (fullPath diskPath path)) flags = some (true, s1)

/-- The texts a call puts into `cwd`, `resolved` and `mem_path`. -/
def Puts (s : State X) (path : Name) : BufferCall → Name → Prop
  | .vfsChdir, text => text = if path.headD 0 = 47 then (cstr path).take 127 else s.cwd ++ 47 :: cstr path
  | .vfsOpen flags, text => text = fullPath diskPath path ∨ LooksInMem s path flags ∧ text = inMem path
  | .other .readdir, text => text = fullPath s.cwd path
  | .other _, text => text = fullPath diskPath path

/-- The texts of a call are inside their buffers, with the byte that ends them. -/
def Inside (s : State X) (path : Name) (call : BufferCall) : Prop := ∀ text, Puts s path call text → text.length < 128

theorem fits_isSome : (fits path).isSome = true ↔ path.length < 128 := by
  unfold fits
  split
  · exact iff_of_false Bool.false_ne_true (by omega)
  · exact iff_of_true rfl (by omega)

/-- These are the texts of the calls: without room for them a call has no result. -/
theorem inside_iff_target (s : State X) (path : Name) (call : PathCall) :
    Inside s path (.other call) ↔ (target s path call).isSome = true := by
  cases call <;> simp only [Inside, Puts, target, forall_eq, Option.isSome_map] <;> exact fits_isSome.symm

theorem inside_iff_chdirTo (s : State X) (path : Name) :
    Inside s path .vfsChdir ↔ (chdirTo s.cwd path).isSome = true := by
  simp only [Inside, Puts, forall_eq, chdirTo]
  split
  · rw [List.length_take]
    exact iff_of_true (by omega) rfl
  · exact fits_isSome.symm

theorem inside_of_select {flags : Flags} {sel : Option (Nat × Name)} (h : select s path flags = some (sel, s')) :
    Inside s path (.vfsOpen flags) := by
  obtain ⟨hres, b, s1, hprobe, hlook⟩ := select_cases h
  rintro text (rfl | ⟨⟨s2, hprobe'⟩, rfl⟩)
  · exact fits_isSome.1 (Option.isSome_of_eq_some hres)
  · cases hprobe.symm.trans hprobe'
    rcases hlook with ⟨-, hlook⟩ | ⟨hb, -⟩
    · by_contra hlong
      have hno : fits (inMem path) = none := if_pos (by omega)
      unfold lookInMem at hlook
      rw [show fits (memPath ++ 47 :: skipSlash (cstr path)) = none from hno] at hlook
      cases hlook
    · cases hb

/-- The paths shorter than this fit behind a directory. -/
def pathRoom (cwd path : Name) : Nat := if path.headD 0 = 47 then 128 else 127 - cwd.length

/-- The path is short enough for a call. -/
def ShortEnough (s : State X) (path : Name) : BufferCall → Prop
  | .vfsChdir => path.headD 0 = 47 ∨ (cstr path).length < pathRoom s.cwd path
  | .vfsOpen flags => (cstr path).length < pathRoom diskPath path ∧
      (LooksInMem s path flags → (skipSlash (cstr path)).length < 123)
  | .other .readdir => (cstr path).length < pathRoom s.cwd path
  | .other _ => (cstr path).length < pathRoom diskPath path

theorem fullPath_length_lt (h : cwd.length < 128) (path : Name) :
    (fullPath cwd path).length < 128 ↔ (cstr path).length < pathRoom cwd path := by
  unfold fullPath pathRoom
  split
  · exact Iff.rfl
  · rw [List.length_append, List.length_cons]
    omega

theorem CwdReached.length_lt (h : CwdReached cwd) : cwd.length < 128 := by
  obtain ⟨paths, hrun⟩ := h
  refine hrun.invariant (fun c => c.length < 128) (by decide) fun c path c' _ hsp => ?_
  unfold chdirTo fits at hsp
  split at hsp
  · obtain rfl := Option.some.inj hsp
    rw [List.length_take]
    omega
  split at hsp
  · cases hsp
  · obtain rfl := Option.some.inj hsp
    omega

/-- **Path buffers.**  The current directory is always inside its buffer; a call stays inside exactly for the paths that
are short enough for it, which no call checks. -/
theorem buffers_inside_iff (s : State X) (hcwd : CwdReached s.cwd) (path : Name) (call : BufferCall) :
    s.cwd.length < 128 ∧ (Inside s path call ↔ ShortEnough s path call) := by
  have hlen := hcwd.length_lt
  have hfu := fullPath_length_lt hlen path
  have hdk := fullPath_length_lt (show diskPath.length < 128 by decide) path
  have hmem : (inMem path).length = (skipSlash (cstr path)).length + 5 := rfl
  refine ⟨hlen, ?_⟩
  cases call with
  | vfsChdir =>
    simp only [Inside, Puts, ShortEnough, forall_eq, ← hfu, fullPath]
    split
    · rename_i hslash
      rw [List.length_take]
      exact iff_of_true (by omega) (.inl hslash)
    · rename_i hslash
      exact ⟨.inr, fun h => h.resolve_left hslash⟩
  | vfsOpen flags =>
    constructor
    · intro h
      refine ⟨hdk.1 (h _ (.inl rfl)), fun hlook => ?_⟩
      have := h _ (.inr ⟨hlook, rfl⟩)
      omega
    · rintro ⟨hshort, hlook⟩ text (rfl | ⟨hlooks, rfl⟩)
      · exact hdk.2 hshort
      · have := hlook hlooks
        omega
  | other call =>
    cases call with
    | readdir => simpa only [Inside, Puts, ShortEnough, forall_eq] using hfu
    | stat | unlink => simpa only [Inside, Puts, ShortEnough, forall_eq] using hdk

theorem buffers_inside_iff_boot : Inside bareBoot [120] .vfsChdir :=
  (buffers_inside_iff bareBoot ⟨[], .nil⟩ [120] .vfsChdir).2.2 (.inr (by decide))

/-- The zero byte of a path of 128 bytes is stored behind `resolved`. -/
theorem path_overruns : CwdReached bareBoot.cwd ∧ ¬ Inside bareBoot (47 :: List.replicate 127 120) (.other .stat) :=
  ⟨⟨[], .nil⟩, fun h => absurd (h _ rfl) (by decide +kernel)⟩

end KumOS.Vfs
