import KumOS.Vfs.Runs

/-!
# Paths

A path below a mount point belongs to that mount, as long as no further mount lies
below it (`Apart`).  From this, the mount and the local path `vfs_open` settles on.
-/

namespace KumOS.Vfs

open Lib
open Fat12 (Name)

variable {X : Type}
variable {name : Name}

/-- A mount that hides nothing of the three of `vfs_init`, such as `/proc` and `/ext2`. -/
structure Apart (m : Mount X) : Prop where
  text : 0 ∉ m.path
  mem : ¬ memPath <+: m.path
  disk : ¬ diskPath <+: m.path

theorem findLoop_of_worse {path : Name} {ms : List (Mount X)} {best : Option Nat × Nat}
    (h : ∀ m ∈ ms, 0 ∉ m.path ∧ ¬ (m.path <+: path ∧ best.2 < m.path.length)) (i : Nat) :
    findLoop path ms i best = best := by
  induction ms generalizing i with
  | nil => rfl
  | cons m ms ih =>
    obtain ⟨htx, hworse⟩ := h m List.mem_cons_self
    have hskip : ¬ (m.active ∧ Fat12.kstrncmp path m.path m.path.length = 0 ∧
        best.2 < m.path.length) := by
      rw [kstrncmp_length_eq_zero_iff htx]
      exact fun hm => hworse hm.2
    unfold findLoop
    rw [if_neg hskip]
    exact ih (fun m' hm' => h m' (List.mem_cons_of_mem m hm')) (i + 1)

theorem findLoop_append (path : Name) (ms ms' : List (Mount X)) (i : Nat) (best : Option Nat × Nat) :
    findLoop path (ms ++ ms') i best = findLoop path ms' (i + ms.length) (findLoop path ms i best) := by
  induction ms generalizing i best with
  | nil => rfl
  | cons m ms ih =>
    rw [List.cons_append, findLoop, ih, findLoop, List.length_cons, Nat.add_assoc,
      Nat.add_comm 1]

theorem zero_not_mem_diskPath : (0 : UInt8) ∉ diskPath := by decide

/-- A path below `p` belongs to the mount `p`, where those before it do not match and those behind it
do not match more of the path. -/
theorem findMount_of_best {p rest : Name} {dr : Driver X} (ms : List (Mount X)) {ms' : List (Mount X)}
    (hp : 0 ∉ p) (hpos : 0 < p.length) (hbf : ∀ m ∈ ms, 0 ∉ m.path ∧ ¬ m.path <+: p ++ rest)
    (hbehind : ∀ m ∈ ms', 0 ∉ m.path ∧ ¬ (m.path <+: p ++ rest ∧ p.length < m.path.length)) :
    findMount (ms ++ ⟨p, dr, true⟩ :: ms') (p ++ rest) = some (ms.length, skipSlash rest) := by
  have hfi : findLoop (p ++ rest) ms 0 (none, 0) = (none, 0) :=
    findLoop_of_worse (fun m hm => ⟨(hbf m hm).1, fun h => (hbf m hm).2 h.1⟩) 0
  have hma : Fat12.kstrncmp (p ++ rest) p p.length = 0 :=
    (kstrncmp_length_eq_zero_iff hp _).2 (List.prefix_append p rest)
  have hla : findLoop (p ++ rest) ms' (0 + ms.length + 1) (some (0 + ms.length), p.length) =
      (some (0 + ms.length), p.length) := findLoop_of_worse hbehind _
  unfold findMount
  rw [findLoop_append, hfi, findLoop, if_pos ⟨rfl, hma, hpos⟩, hla]
  simp

section

variable {extra : List (Mount X)}

theorem findMount_disk (h : ∀ m ∈ extra, Apart m) (rest : Name) :
    findMount (initMounts ++ extra) (diskPath ++ 47 :: rest) = some (1, rest) := by
  have hmem : ¬ memPath <+: diskPath ++ 47 :: rest := by simp [memPath, diskPath]
  have hdev : ¬ devPath <+: diskPath ++ 47 :: rest := by simp [devPath, diskPath]
  refine findMount_of_best [⟨memPath, .mem, true⟩] zero_not_mem_diskPath (by decide) ?_ ?_
  · intro m hm
    obtain rfl := List.mem_singleton.1 hm
    exact ⟨show 0 ∉ memPath by decide, hmem⟩
  · intro m hm
    rcases List.mem_cons.1 hm with rfl | hm
    · exact ⟨show 0 ∉ devPath by decide, fun hpre => hdev hpre.1⟩
    · refine ⟨(h m hm).text, fun ⟨hpre, hlen⟩ => (h m hm).disk ?_⟩
      exact List.prefix_of_prefix_length_le (List.prefix_append ..) hpre (Nat.le_of_lt hlen)

/-! ## What `vfs_open` settles on -/

variable {s : State X}

theorem driver_disk (hmt : s.mounts = initMounts ++ extra) : s.driver (1 : Nat) = some .disk := by
  unfold State.driver
  rw [hmt]
  rfl

theorem resolve_disk (hnm : 0 ∉ name) (hlen : name.length < 122) :
    resolve (diskPath ++ 47 :: name) = some (diskPath ++ 47 :: name) := by
  have hze : (0 : UInt8) ∉ diskPath ++ 47 :: name := by
    simp only [List.mem_append, List.mem_cons, not_or]
    exact ⟨zero_not_mem_diskPath, by decide, hnm⟩
  have hslash : (diskPath ++ 47 :: name).headD 0 = 47 := rfl
  have hlength : (diskPath ++ 47 :: name).length = name.length + 6 := by
    simp [diskPath]
  unfold resolve
  rw [if_pos hslash, cstr_eq_self hze]
  exact if_neg (by omega)

/-- `disk_vfs_stat` always answers, and with `O_CREAT` the answer does not matter. -/
theorem probe_disk (hmt : s.mounts = initMounts ++ extra) (name : Name) (flags : Flags) :
    ∃ b s1, probe s (some (1, name)) flags = some (b, s1) ∧ Looked s s1 ∧
      (flags.creat = true → b = false) := by
  have hprobe : probe s (some (1, name)) flags =
      some ((diskVfsStat s.disk name).1.isNone && !flags.creat,
        { s with disk := (diskVfsStat s.disk name).2 }) := by
    unfold probe
    simp only [driver_disk hmt, Driver.hasStat, Driver.stat, if_true]
  refine ⟨_, _, hprobe, probe_looked hprobe, fun hcr => ?_⟩
  rw [hcr, Bool.not_true, Bool.and_false]

/-- With `O_CREAT` a path below `/disk` stays there. -/
theorem select_disk_creat (hmt : s.mounts = initMounts ++ extra) (hextra : ∀ m ∈ extra, Apart m)
    (hnm : 0 ∉ name) (hlen : name.length < 122) {flags : Flags} (hcr : flags.creat = true) :
    ∃ s1, select s (diskPath ++ 47 :: name) flags = some (some (1, name), s1) ∧ Looked s s1 := by
  obtain ⟨b, s1, hprobe, hlk, hb⟩ := probe_disk hmt name flags
  obtain rfl := hb hcr
  have hfn : findMount s.mounts (diskPath ++ 47 :: name) = some (1, name) := by
    rw [hmt]
    exact findMount_disk hextra name
  refine ⟨s1, ?_, hlk⟩
  unfold select
  simp only [resolve_disk hnm hlen, hfn, hprobe, hlk.mounts]

end

end KumOS.Vfs
