import KumOS.Procfs.Model
import KumOS.Vfs.DiskDriver

/-!
# What is read from `/proc`

A descriptor should give the text that its own `vfs_open` has built, from the
beginning and in order.  `proc_buf` and `proc_pos` hold this for one descriptor at
a time: while another one is open, `vfs_open` writes another text into the buffer
and leaves the position where it is.
-/

namespace KumOS.Procfs

open Lib Vfs
open Fat12 (Name)
open Function (update update_self)

variable {rest : Name} {fd i : Nat} {len : UInt32} {r : Int} {s : State Proc}
variable {p : Proc} {out : Name} {buf buf' : Bytes} {n : Int} {flags : Flags}

/-! ## One read -/

theorem toList_text (p : Proc) : p.buf.toList p.text.length = p.text := by
  have hpre : p.text <+: p.buf.toList procBufSize := List.takeWhile_prefix _
  have hle := hpre.length_le
  have htk := List.prefix_iff_eq_take.1 hpre
  rw [Bytes.length_toList] at hle
  rw [Bytes.take_toList, Nat.min_eq_right hle] at htk
  exact htk.symm

theorem text_length_le (p : Proc) : p.text.length ≤ 2048 := by
  have hpre : p.text <+: p.buf.toList procBufSize := List.takeWhile_prefix _
  have hle := hpre.length_le
  rw [Bytes.length_toList] at hle
  exact hle

theorem procRead_eq (hpos : p.pos ≤ p.text.length) (d : Int) (buf : Bytes) (len : Nat)
    (hout : out = (p.text.drop p.pos).take len) :
    procRead d buf len p = ((out.length : Int), buf.copy 0 (.ofList out) out.length,
      { p with pos := p.pos + out.length }) := by
  have hmax := text_length_le p
  rw [← toList_text p] at hout
  obtain ⟨hlen, hcp⟩ := Bytes.copy_drop buf p.buf hout
  have hn : readLen p.text.length p.pos len = out.length := by
    rw [readLen_eq hpos (by omega), hlen]
  have hsum : u32 (p.pos + out.length) = p.pos + out.length := Nat.mod_eq_of_lt (by omega)
  unfold procRead
  simp only [hn]
  split
  · rename_i hze
    have hnn : buf.copy 0 (.ofList out) 0 = buf := funext fun x => Bytes.copy_of_out _ _ (by omega)
    rw [hze, hnn]
    rfl
  · rw [i32_of_lt (by omega), hsum, hlen, hcp, hlen]

/-! ## Descriptors of `/proc` -/

structure OnProc (s : State Proc) (k : Nat) : Prop where
  lt : k < 32
  used : (s.fds k).used = true
  type : (s.fds k).type ≠ .pipe
  driver : s.driver (s.fds k).mountIdx = some (.other procOps)

section

variable {s' : State Proc} {k j : Nat}

theorem OnProc.fdOf (h : OnProc s k) : s.fdOf (k : Int) = some k := slotOf_eq_some_iff.2 ⟨rfl, h.lt, h.used⟩

theorem OnProc.of_same (h : OnProc s k) (hmt : s'.mounts = s.mounts) (hus : (s'.fds k).used = (s.fds k).used)
    (htype : (s'.fds k).type = (s.fds k).type) (hidx : (s'.fds k).mountIdx = (s.fds k).mountIdx) : OnProc s' k := by
  refine ⟨h.lt, hus.trans h.used, ?_, ?_⟩
  · rw [htype]
    exact h.type
  · have hdr := h.driver
    unfold State.driver at hdr ⊢
    rw [hmt, hidx]
    exact hdr

theorem onProc_setFd_ne {e : Fd} (hne : k ≠ j) (h : OnProc (s.setFd j e) k) : OnProc s k := by
  have hfd := setFd_ne s e hne
  exact h.of_same rfl (by rw [hfd]) (by rw [hfd]) (by rw [hfd])

theorem advance_onProc (n : Int) : OnProc (s.advance j n) k ↔ OnProc s k := by
  obtain ⟨pos, hav⟩ := advance_eq s j n
  rw [hav]
  exact ⟨fun h => h.of_same rfl rfl rfl rfl, fun h => h.of_same rfl rfl rfl rfl⟩

theorem advance_ext (n : Int) : (s.advance j n).ext = s.ext := by
  obtain ⟨pos, hav⟩ := advance_eq s j n
  rw [hav]

/-- `vfs_read` on a descriptor of `/proc`, wherever the position is. -/
theorem OnProc.read_eq (h : OnProc s k) (hrd : procRead (s.fds k).fdData buf len.toNat s.ext = (n, buf', p)) :
    vfsRead s k buf len = some (n, buf', { s with ext := p }.advance k n) := by
  have hdv : (Driver.other procOps).read s (s.fds k).fdData buf len.toNat = some (n, buf', { s with ext := p }) := by
    show some ((procRead _ _ _ _).1, (procRead _ _ _ _).2.1, { s with ext := (procRead _ _ _ _).2.2 }) = _
    rw [hrd]
  unfold vfsRead
  simp only [h.fdOf, if_neg h.type, h.driver, hdv, Option.map_some]

/-- The path leads to the name `rest` of `/proc`. -/
structure Leads (s : State Proc) (path rest : Name) (i : Nat) : Prop where
  found : (resolve path).map (findMount s.mounts) = some (some (i, rest))
  driver : s.driver i = some (.other procOps)

/-- `proc_stat` knows every name. -/
theorem Leads.select_eq {path : Name} (h : Leads s path rest i) (flags : Flags) :
    select s path flags = some (some (i, rest), s) := by
  obtain ⟨p, hres, hfn⟩ := Option.map_eq_some_iff.1 h.found
  unfold select
  simp only [hres, hfn, probe, h.driver, Driver.hasStat, Driver.stat, procOps, procStat, Option.isSome_some,
    Option.isNone_some, Bool.false_and, if_true]

theorem File.data_nonneg (f : File) : ¬ f.data < 0 := by
  cases f <;> decide

/-- The ways a `vfs_open` on `/proc` can end. -/
theorem Leads.open_cases {path : Name} (h : Leads s path rest i) (hopen : vfsOpen s path flags = some (r, s')) :
    (fileOf rest = none ∧ r = -1 ∧ s' = s) ∨
      ∃ f, fileOf rest = some f ∧
        (r = -1 ∧ s' = { s with ext := { s.ext.fill (f.build s.ext.env) with pos := 0 } } ∨
          ∃ fd, allocFd s = some fd ∧ r = fd ∧
            s' = { s with ext := s.ext.fill (f.build s.ext.env) }.setFd fd (openedFd (s.fds fd) i flags f.data)) := by
  unfold vfsOpen at hopen
  simp only [h.select_eq flags, h.driver, Driver.open, procOps, procOpen] at hopen
  cases hfl : fileOf rest with
  | none =>
    simp only [hfl] at hopen
    cases hopen
    exact .inl ⟨rfl, rfl, rfl⟩
  | some f =>
    simp only [hfl, if_neg f.data_nonneg] at hopen
    refine .inr ⟨f, rfl, ?_⟩
    rcases finishOpen_cases hopen with ⟨-, rfl, hclo⟩ | ⟨fd, hfd, rfl, rfl⟩
    · exact .inl ⟨rfl, (Option.some.inj hclo).symm⟩
    · exact .inr ⟨fd, hfd, rfl, rfl⟩

end

/-! ## Runs -/

/-- What a descriptor should give, the text of its own open, and what it has given so far. -/
structure Track where
  text : Name
  out : Name

/-- The text an open of the name builds. -/
def built (p : Proc) (rest : Name) : Name := ((fileOf rest).map fun f => cstr (f.build p.env)).getD []

/-- The descriptor `vfs_open` returns is at the beginning of its text. -/
def opened (p : Proc) (rest : Name) (r : Int) (tr : Nat → Track) : Nat → Track :=
  if r < 0 then tr else update tr r.toNat ⟨built p rest, []⟩

/-- What the rest of the kernel does: it changes neither the buffer nor the position, nor the
descriptors of `/proc`. -/
structure Elsewhere (s s' : State Proc) : Prop where
  mounts : s'.mounts = s.mounts
  fds : ∀ k, OnProc s k ∨ OnProc s' k → s'.fds k = s.fds k
  buf : s'.ext.buf = s.ext.buf
  pos : s'.ext.pos = s.ext.pos

inductive Op where
  | vfsOpen (path : Name) (flags : Flags)
  | vfsRead (fd : Nat) (buf : Bytes) (len : UInt32)
  | vfsClose (fd : Nat)
  | elsewhere

/-- The calls on `/proc`, with what their descriptors should give and have given.  A name of 64 bytes
would run over the field that `proc_stat` copies it to. -/
inductive Step : State Proc × (Nat → Track) → Op → State Proc × (Nat → Track) → Prop
  | vfsOpen {s s' : State Proc} {tr : Nat → Track} {path rest : Name} {i : Nat} {flags : Flags} {r : Int} :
      Leads s path rest i → kstrlen rest < 64 → vfsOpen s path flags = some (r, s') →
      Step (s, tr) (.vfsOpen path flags) (s', opened s.ext rest r tr)
  | vfsRead {s s' : State Proc} {tr : Nat → Track} {fd : Nat} {buf buf' : Bytes} {len : UInt32} {n : Int} :
      OnProc s fd → vfsRead s fd buf len = some (n, buf', s') →
      Step (s, tr) (.vfsRead fd buf len)
        (s', update tr fd { tr fd with out := (tr fd).out ++ buf'.toList n.toNat })
  | vfsClose {s s' : State Proc} {tr : Nat → Track} {fd : Nat} {r : Int} :
      OnProc s fd → vfsClose s fd = some (r, s') → Step (s, tr) (.vfsClose fd) (s', tr)
  | elsewhere {s s' : State Proc} {tr : Nat → Track} : Elsewhere s s' → Step (s, tr) .elsewhere (s', tr)

/-- A file of `/proc` is opened while no descriptor of `/proc` is open. -/
def Alone (s : State Proc) : Op → Prop
  | .vfsOpen path _ => ∀ rest i, Leads s path rest i → fileOf rest ≠ none → ∀ k, ¬ OnProc s k
  | _ => True

def AloneStep (w : State Proc × (Nat → Track)) (op : Op) (w' : State Proc × (Nat → Track)) : Prop :=
  Step w op w' ∧ Alone w.1 op

/-- At most one descriptor is open, and the buffer and the position are its own. -/
structure Owned (w : State Proc × (Nat → Track)) : Prop where
  one : ∀ k k', OnProc w.1 k → OnProc w.1 k' → k = k'
  text : ∀ k, OnProc w.1 k → w.1.ext.text = (w.2 k).text
  pos : ∀ k, OnProc w.1 k → w.1.ext.pos = (w.2 k).out.length
  out : ∀ k, OnProc w.1 k → (w.2 k).out <+: (w.2 k).text
  idle : (∀ k, ¬ OnProc w.1 k) → w.1.ext.pos = 0

theorem Owned.of_idle (h : ∀ k, ¬ OnProc s k) (hpos : s.ext.pos = 0) (tr : Nat → Track) : Owned (s, tr) :=
  ⟨fun k _ hk => absurd hk (h k), fun k hk => absurd hk (h k), fun k hk => absurd hk (h k),
    fun k hk => absurd hk (h k), fun _ => hpos⟩

section

variable {s' : State Proc} {tr : Nat → Track}

theorem Owned.of_one (hfd : OnProc s fd) (hol : ∀ k, OnProc s k → k = fd) (htx : s.ext.text = (tr fd).text)
    (hpos : s.ext.pos = (tr fd).out.length) (hout : (tr fd).out <+: (tr fd).text) : Owned (s, tr) := by
  refine ⟨fun k k' hk hk' => ?_, fun k hk => ?_, fun k hk => ?_, fun k hk => ?_, fun hnn => absurd hfd (hnn fd)⟩
  · rw [hol k hk, hol k' hk']
  · rw [hol k hk]
    exact htx
  · rw [hol k hk]
    exact hpos
  · rw [hol k hk]
    exact hout

section

variable (h : Owned (s, tr))
include h

theorem Owned.read {k : Nat} (hk : OnProc s k) (buf : Bytes) (len : UInt32) {out : Name}
    (hout : out = ((tr k).text.drop (tr k).out.length).take len.toNat) :
    vfsRead s k buf len = some ((out.length : Int), buf.copy 0 (.ofList out) out.length,
      { s with ext := { s.ext with pos := s.ext.pos + out.length } }.advance k out.length) := by
  have htx : s.ext.text = (tr k).text := h.text k hk
  have hpos : s.ext.pos = (tr k).out.length := h.pos k hk
  have hle := (h.out k hk).length_le
  apply hk.read_eq
  apply procRead_eq
  · rw [hpos, htx]
    exact hle
  · rw [hpos, htx]
    exact hout

theorem Owned.vfsOpen {path : Name} (hleads : Leads s path rest i) (hopen : vfsOpen s path flags = some (r, s'))
    (halone : fileOf rest ≠ none → ∀ k, ¬ OnProc s k) : Owned (s', opened s.ext rest r tr) := by
  rcases hleads.open_cases hopen with ⟨-, rfl, rfl⟩ | ⟨f, hfl, hcases⟩
  · exact h
  have hnn := halone (by rw [hfl]; exact nofun)
  rcases hcases with ⟨rfl, rfl⟩ | ⟨fd, hfd, rfl, rfl⟩
  · refine .of_idle (fun k hk => ?_) rfl _
    exact hnn k (hk.of_same rfl rfl rfl rfl)
  have hpos : s.ext.pos = 0 := h.idle hnn
  obtain ⟨-, hlt, -⟩ := allocFd_spec hfd
  have htrack : opened s.ext rest fd tr fd = ⟨cstr (f.build s.ext.env), []⟩ := by
    rw [opened, if_neg (by omega), Int.toNat_natCast, update_self, built, hfl]
    rfl
  refine .of_one ⟨hlt, ?_, ?_, ?_⟩ (fun k hk => ?_) ?_ ?_ ?_
  · rw [setFd_self]
    rfl
  · rw [setFd_self]
    exact nofun
  · rw [setFd_self]
    exact hleads.driver
  · by_contra hne
    exact hnn k ((onProc_setFd_ne hne hk).of_same rfl rfl rfl rfl)
  · rw [htrack]
    exact text_fill _ (build_length _ f)
  · rw [htrack]
    exact hpos
  · rw [htrack]
    exact List.nil_prefix

theorem Owned.vfsRead (hk : OnProc s fd) (hrd : vfsRead s fd buf len = some (n, buf', s')) :
    Owned (s', update tr fd { tr fd with out := (tr fd).out ++ buf'.toList n.toNat }) := by
  obtain ⟨out, hout⟩ : ∃ out, out = ((tr fd).text.drop (tr fd).out.length).take len.toNat := ⟨_, rfl⟩
  rw [h.read hk buf len hout] at hrd
  obtain ⟨rfl, hrs⟩ := Prod.mk.inj (Option.some.inj hrd)
  obtain ⟨rfl, rfl⟩ := Prod.mk.inj hrs
  rw [Int.toNat_natCast, Bytes.toList_copy_ofList]
  refine .of_one ((advance_onProc _).2 (hk.of_same rfl rfl rfl rfl)) (fun k hk' => ?_) ?_ ?_ ?_
  · exact h.one k fd (((advance_onProc _).1 hk').of_same rfl rfl rfl rfl) hk
  · rw [update_self, advance_ext]
    exact h.text fd hk
  · rw [update_self, advance_ext, List.length_append]
    exact congrArg (· + out.length) (h.pos fd hk)
  · -- what is given is the next part of the text
    rw [update_self]
    obtain ⟨rest, hrs⟩ := h.out fd hk
    have hout' : out = rest.take len.toNat := by
      rw [hout, ← hrs, List.drop_left]
    refine ⟨rest.drop len.toNat, ?_⟩
    rw [hout', List.append_assoc, List.take_append_drop]
    exact hrs

theorem Owned.vfsClose (hk : OnProc s fd) (hclo : vfsClose s fd = some (r, s')) : Owned (s', tr) := by
  simp only [Vfs.vfsClose, hk.fdOf, if_neg hk.type, hk.driver, Driver.close, procOps, procClose, Option.map_some] at hclo
  cases hclo
  refine .of_idle (fun k hk' => ?_) rfl tr
  by_cases hne : k = fd
  · have hus := hk'.used
    rw [hne, setFd_self] at hus
    cases hus
  · exact hne (h.one k fd ((onProc_setFd_ne hne hk').of_same rfl rfl rfl rfl) hk)

theorem Owned.elsewhere (hot : Elsewhere s s') : Owned (s', tr) := by
  have hsm : ∀ k, OnProc s' k ↔ OnProc s k := by
    intro k
    constructor
    · intro hk
      have hfd := hot.fds k (.inr hk)
      exact hk.of_same hot.mounts.symm (by rw [hfd]) (by rw [hfd]) (by rw [hfd])
    · intro hk
      have hfd := hot.fds k (.inl hk)
      exact hk.of_same hot.mounts (by rw [hfd]) (by rw [hfd]) (by rw [hfd])
  have htx : s'.ext.text = s.ext.text := by
    unfold Proc.text
    rw [hot.buf]
  refine ⟨fun k k' hk hk' => ?_, fun k hk => ?_, fun k hk => ?_, fun k hk => ?_, fun hnn => ?_⟩
  · exact h.one k k' ((hsm k).1 hk) ((hsm k').1 hk')
  · exact htx.trans (h.text k ((hsm k).1 hk))
  · exact hot.pos.trans (h.pos k ((hsm k).1 hk))
  · exact h.out k ((hsm k).1 hk)
  · exact hot.pos.trans (h.idle fun k hk => hnn k ((hsm k).2 hk))

end

theorem Owned.step {w w' : State Proc × (Nat → Track)} {op : Op} (h : Owned w) (hsp : AloneStep w op w') : Owned w' := by
  obtain ⟨hsp, halone⟩ := hsp
  cases hsp with
  | vfsOpen hleads _ hopen => exact h.vfsOpen hleads hopen (halone _ _ hleads)
  | vfsRead hk hrd => exact h.vfsRead hk hrd
  | vfsClose hk hclo => exact h.vfsClose hk hclo
  | elsewhere hot => exact h.elsewhere hot

end

/-- **Reads from `/proc`.**  Where a file is opened only while no other is open, every descriptor gives the
text of its own open, from the beginning and in order, and no read gives more than is left. -/
theorem proc_reads_own_text {s0 s : State Proc} {tr0 tr : Nat → Track} {ops : List Op} (hclosed : ∀ k, ¬ OnProc s0 k)
    (hpos : s0.ext.pos = 0) (hrun : Run AloneStep (s0, tr0) ops (s, tr)) {k : Nat} (hk : OnProc s k) :
    (tr k).out <+: (tr k).text ∧
      ∀ (buf : Bytes) (len : UInt32), ∃ (n : Nat) (buf' : Bytes) (s' : State Proc),
        vfsRead s k buf len = some ((n : Int), buf', s') ∧
        n = min len.toNat ((tr k).text.length - (tr k).out.length) ∧
        buf'.toList n = ((tr k).text.drop (tr k).out.length).take n := by
  have hown : Owned (s, tr) := hrun.invariant Owned (.of_idle hclosed hpos tr0) fun _ _ _ h hsp => h.step hsp
  refine ⟨hown.out k hk, fun buf len => ⟨_, _, _, hown.read hk buf len rfl, ?_, ?_⟩⟩
  · rw [List.length_take, List.length_drop]
  · rw [Bytes.toList_copy_ofList, List.length_take, ← List.take_eq_take_min]

/-! ## Two descriptors -/

/-- The answers right after booting. -/
def bootEnv : Env where
  totalMemKb := 32768
  pmmUsed := 0
  pmmTotal := 7936
  kmallocUsed := 0
  timerSeconds := 0
  sched := Sched.atBoot 0#32 0#32 (fun _ => 0#8)
  mac := none
  rtc := ⟨0, 0, 0, 1, 1, 2025⟩
  dmesg := ⟨fun _ => 0, 0, 0⟩
  names := fun _ => show kstrlen [] < 32 by decide

/-- The state after booting, before `/proc` is mounted. -/
def unmounted : State Proc := vfsInitStdio (vfsInit Fs.cleared Fat12.initial ⟨[], []⟩ ⟨bootEnv, fun _ => 0, 0⟩)

def procBoot : State Proc := { unmounted with mounts := initMounts ++ [⟨procPath, .other procOps, true⟩] }

/-- Only the descriptors of `vfs_init_stdio` are open. -/
theorem procBoot_closed (k : Nat) : ¬ OnProc procBoot k := by
  intro h
  have hdv := h.driver
  have hus := h.used
  by_cases hk : k < 3
  · have hfd : (procBoot.fds k).mountIdx = 2 := by
      show (if k < 3 then stdioFd initMounts Fd.cleared k else Fd.cleared).mountIdx = 2
      rw [if_pos hk]
      rfl
    rw [hfd] at hdv
    cases hdv
  have hfd : (procBoot.fds k).used = false := by
    show (if k < 3 then stdioFd initMounts Fd.cleared k else Fd.cleared).used = false
    rw [if_neg hk]
    rfl
  rw [hfd] at hus
  cases hus

/-- "/proc/version" and the like. -/
def File.path (f : File) : Name := procPath ++ 47 :: f.name

theorem File.leads (f : File) : Leads procBoot f.path f.name 3 := by
  constructor
  · cases f <;> rfl
  · rfl

/-- "/proc/version" is opened .. -/
def versionOpen : State Proc := ((vfsOpen procBoot File.version.path {}).getD (0, procBoot)).2

/-- .. and read. -/
def versionRead (len : UInt32) : Int × Bytes × State Proc :=
  (vfsRead versionOpen 3 (fun _ => 0) len).getD (0, fun _ => 0, versionOpen)

def uptimeOpen : State Proc := ((vfsOpen (versionRead 16).2.2 File.uptime.path {}).getD (0, procBoot)).2

theorem version_opened : AloneStep (procBoot, fun _ => ⟨[], []⟩) (.vfsOpen File.version.path {})
    (versionOpen, opened procBoot.ext File.version.name 3 fun _ => ⟨[], []⟩) :=
  ⟨.vfsOpen File.version.leads (by decide) rfl, fun _ _ _ _ => procBoot_closed⟩

theorem onProc_version : OnProc versionOpen 3 := ⟨by decide, rfl, nofun, rfl⟩

theorem version_read (len : UInt32) : vfsRead versionOpen 3 (fun _ => 0) len = some (versionRead len) := rfl

set_option maxRecDepth 8000 in
/-- What is left of "/proc/version" after 6 bytes. -/
theorem proc_reads_own_text_version : ∃ (s : State Proc) (tr : Nat → Track) (n : Nat) (buf : Bytes) (s' : State Proc),
    Run AloneStep (procBoot, fun _ => ⟨[], []⟩) [.vfsOpen File.version.path {}, .vfsRead 3 (fun _ => 0) 6] (s, tr) ∧
    tr 3 = ⟨ascii "KumOS 1.8 x86\n", ascii "KumOS "⟩ ∧
    vfsRead s 3 (fun _ => 0) 100 = some ((n : Int), buf, s') ∧ n = 8 ∧ buf.toList n = ascii "1.8 x86\n" := by
  have hrun : Run AloneStep (procBoot, fun _ => ⟨[], []⟩) [.vfsOpen File.version.path {}, .vfsRead 3 (fun _ => 0) 6]
      ((versionRead 6).2.2, _) := (Run.single version_opened).snoc ⟨.vfsRead onProc_version (version_read 6), trivial⟩
  have hon : OnProc (versionRead 6).2.2 3 := ⟨by decide, rfl, nofun, rfl⟩
  obtain ⟨n, buf, s', hca, hn, hbuf⟩ := (proc_reads_own_text procBoot_closed rfl hrun hon).2 (fun _ => 0) 100
  obtain rfl : n = 8 := hn
  exact ⟨_, _, 8, buf, s', hrun, (update_self ..).trans (congrArg₂ Track.mk rfl (by decide +kernel)), hca, rfl, hbuf⟩

set_option maxRecDepth 8000 in
/-- "/proc/version" has been read to its end when "/proc/uptime", of 10 bytes, is opened: the first read of
that gives 16 bytes. -/
theorem uptime_read_past_end : ∃ (s : State Proc) (tr : Nat → Track),
    Run Step (procBoot, fun _ => ⟨[], []⟩) [.vfsOpen File.version.path {}, .vfsRead 3 (fun _ => 0) 16,
      .vfsOpen File.uptime.path {}] (s, tr) ∧
    OnProc s 4 ∧ tr 4 = ⟨ascii "0 seconds\n", []⟩ ∧ (ascii "0 seconds\n").length = 10 ∧
    ∃ (buf : Bytes) (s' : State Proc), vfsRead s 4 (fun _ => 0) 16 = some (16, buf, s') := by
  have hleads : Leads (versionRead 16).2.2 File.uptime.path File.uptime.name 3 := ⟨rfl, rfl⟩
  have hopen : vfsOpen (versionRead 16).2.2 File.uptime.path {} = some (4, uptimeOpen) := rfl
  have hrd : (vfsRead uptimeOpen 4 (fun _ => 0) 16).map Prod.fst = some 16 := by decide +kernel
  obtain ⟨⟨n, buf, s'⟩, hrd, rfl⟩ := Option.map_eq_some_iff.1 hrd
  exact ⟨uptimeOpen, _, ((Run.single version_opened.1).snoc (.vfsRead onProc_version (version_read 16))).snoc
    (.vfsOpen hleads (by decide) hopen), ⟨by decide, rfl, nofun, rfl⟩, rfl, rfl, buf, s', hrd⟩

end KumOS.Procfs
