import KumOS.Vfs.Runs

/-!
# The calls of user programs and `syscall_dispatch`

`int 0x80` is taken to hand eax, ebx, ecx and edx to `syscall_dispatch` as they are.
`SYS_WRITE` and `SYS_READ` have the handlers of `SYS_FWRITE` and `SYS_FREAD`, which
want a descriptor, an address and a length; the wrappers `write`, `read`, `sys_write`
and `sys_read` pass an address and a length.

Results are given as the `int` the wrappers return; the cast to `uint32_t` in between
changes none.
-/

namespace KumOS.Syscall

open Lib
open Vfs (State Driver Fd Dev vfsRead vfsWrite keyboardGetline slotOf)
open Pipes (pipeGet pipeRead pipeWrite)

variable {X : Type}
variable {fd : Int} {buf : UInt32}

/-- The file system and the memory the caller sees. -/
structure Kernel (X : Type) where
  vfs : State X
  ram : Bytes

variable {op : Kernel X → Int → UInt32 → UInt32 → Option (Int × Kernel X)}
variable {s : State X} {k : Kernel X}

/-- An argument read as a C `int`. -/
def toInt (x : UInt32) : Int := i32 x.toNat

/-- The memory with a buffer put to address `a`. -/
def place (ram : Bytes) (a : Nat) (buf : Bytes) : Bytes := fun x => if a ≤ x then buf (x - a) else ram x

/-- `vfs_write` with a buffer in memory. -/
def vfsWriteAt (k : Kernel X) (fd : Int) (buf len : UInt32) : Option (Int × Kernel X) :=
  (vfsWrite k.vfs fd (k.ram.drop buf.toNat) len).map fun r => (r.1, { k with vfs := r.2 })

/-- `vfs_read` with a buffer in memory. -/
def vfsReadAt (k : Kernel X) (fd : Int) (buf len : UInt32) : Option (Int × Kernel X) :=
  (vfsRead k.vfs fd (k.ram.drop buf.toNat) len).map fun r =>
    (r.1, ⟨r.2.2, place k.ram buf.toNat r.2.1⟩)

/-! ## `syscall.c` -/

/-- `syscall_fn` -/
abbrev Handler (X : Type) := Kernel X → UInt32 → UInt32 → UInt32 → Option (Int × Kernel X)

def scVfsRead : Handler X := fun k fd buf len =>
  if buf = 0 then some (-1, k) else vfsReadAt k (toInt fd) buf len

def scVfsWrite : Handler X := fun k fd buf len =>
  if buf = 0 then some (-1, k) else vfsWriteAt k (toInt fd) buf len

/-- `SYS_WRITE` -/
def sysWriteNum : UInt32 := 1

/-- `SYS_READ` -/
def sysReadNum : UInt32 := 2

/-- `SYS_FREAD` -/
def sysFreadNum : UInt32 := 12

/-- `SYS_FWRITE` -/
def sysFwriteNum : UInt32 := 13

/-- `syscall_table`; the entries of the other calls are given by `others`. -/
def syscallTable (others : UInt32 → Option (Handler X)) (num : UInt32) : Option (Handler X) :=
  if num = sysWriteNum then some scVfsWrite
  else if num = sysReadNum then some scVfsRead
  else if num = sysFreadNum then some scVfsRead
  else if num = sysFwriteNum then some scVfsWrite
  else others num

def syscallDispatch (others : UInt32 → Option (Handler X)) (k : Kernel X) (num a b c : UInt32) :
    Option (Int × Kernel X) :=
  if 47 ≤ num then some (-1, k)
  else
    match syscallTable others num with
    | none => some (-1, k)
    | some f => f k a b c

/-! ## The wrappers -/

structure Regs where
  eax : UInt32
  ebx : UInt32
  ecx : UInt32
  edx : UInt32

/-- `int $0x80`, with the registers delivered as they are. -/
def int80 (others : UInt32 → Option (Handler X)) (k : Kernel X) (r : Regs) : Option (Int × Kernel X) :=
  syscallDispatch others k r.eax r.ebx r.ecx r.edx

section

variable (others : UInt32 → Option (Handler X)) (k : Kernel X)

/-- `_syscall` of `kumos_libc.h` -/
def libcSyscall (num a b c : UInt32) : Option (Int × Kernel X) := int80 others k ⟨num, a, b, c⟩

def libcWrite (buf len : UInt32) : Option (Int × Kernel X) := libcSyscall others k sysWriteNum buf len 0

def libcRead (buf len : UInt32) : Option (Int × Kernel X) := libcSyscall others k sysReadNum buf len 0

def libcFread (fd buf sz : UInt32) : Option (Int × Kernel X) := libcSyscall others k sysFreadNum fd buf sz

def libcFwrite (fd buf sz : UInt32) : Option (Int × Kernel X) := libcSyscall others k sysFwriteNum fd buf sz

/-- `sys_write` of `syscall.h`; edx is what it happens to be. -/
def sysWrite (edx buf len : UInt32) : Option (Int × Kernel X) := int80 others k ⟨sysWriteNum, buf, len, edx⟩

/-- `sys_read` of `syscall.h`; edx is what it happens to be. -/
def sysRead (edx buf len : UInt32) : Option (Int × Kernel X) := int80 others k ⟨sysReadNum, buf, len, edx⟩

end

/-! ## Arguments in the wrong places -/

/-- Both calls come back, with the same result and effect. -/
def Same (a b : Option (Int × Kernel X)) : Prop := ∃ r, a = some r ∧ b = some r

theorem same_failed_iff {a : Option (Int × Kernel X)} : Same (some (-1, k)) a ↔ a = some (-1, k) := by
  constructor
  · rintro ⟨r, hr, ha⟩
    rw [ha, ← hr]
  · intro ha
    exact ⟨_, rfl, ha⟩

theorem toInt_small {i : Nat} (hi : i < 2 ^ 31) : toInt (UInt32.ofNat i) = i := by
  have hn : (UInt32.ofNat i).toNat = i := UInt32.toNat_ofNat_of_lt' (Nat.lt_trans hi (by decide))
  unfold toInt i32
  rw [hn, if_pos hi]

/-- Any bytes can stand at an address. -/
theorem exists_drop (b : Bytes) (a : Nat) : ∃ ram : Bytes, ram.drop a = b := by
  refine ⟨fun x => b (x - a), funext fun x => ?_⟩
  show b (a + x - a) = b x
  rw [Nat.add_sub_cancel_left]

/-- The calls with the arguments in the wrong places are the same as those on `fd` if all of them
fail: those on `fd`, and those on any open descriptor with a length `c` that may be passed. -/
theorem shifted_iff {fails : Int → Bytes → UInt32 → Prop} {C : UInt32 → Prop}
    (hfails : ∀ ram d a n, op ⟨s, ram⟩ d a n = some (-1, ⟨s, ram⟩) ↔ fails d (ram.drop a.toNat) n)
    (hclosed : ∀ d b n, s.fdOf d = none → fails d b n) (fd : Int) {c0 : UInt32} (hc0 : C c0) :
    (∀ ram c buf len, C c → Same (if len = 0 then some (-1, ⟨s, ram⟩) else op ⟨s, ram⟩ (toInt buf) len c)
        (op ⟨s, ram⟩ fd buf len)) ↔
      (∀ b n, fails fd b n) ∧ ∀ d i, s.fdOf d = some i → ∀ b c, C c → fails d b c := by
  constructor
  · intro h
    have hfd : ∀ b n, fails fd b n := by
      intro b n
      obtain ⟨ram, rfl⟩ := exists_drop b 100
      refine (hfails ram fd 100 n).1 ?_
      -- 100 is not the number of a descriptor
      have hno : s.fdOf (toInt 100) = none := by
        unfold State.fdOf slotOf
        rw [if_pos (.inr (.inl (by decide)))]
      have hsame := h ram c0 100 n hc0
      rw [(hfails ram _ n c0).2 (hclosed _ _ _ hno), ite_self] at hsame
      exact same_failed_iff.1 hsame
    refine ⟨hfd, fun d i hd b c hc => ?_⟩
    obtain ⟨rfl, hi, -⟩ := Vfs.slotOf_eq_some_iff.1 hd
    obtain ⟨ram, rfl⟩ := exists_drop b 1
    refine (hfails ram i 1 c).1 ?_
    obtain ⟨r, h1, h2⟩ := h ram c (UInt32.ofNat i) 1 hc
    rw [if_neg (by decide), toInt_small (by omega)] at h1
    rw [h1, ← h2]
    exact (hfails ram fd _ 1).2 (hfd _ _)
  · rintro ⟨hfd, hopen⟩ ram c buf len hc
    rw [(hfails ram fd buf len).2 (hfd _ _)]
    refine ⟨_, ?_, rfl⟩
    split
    · rfl
    refine (hfails ram _ len c).2 ?_
    cases hd : s.fdOf (toInt buf) with
    | none => exact hclosed _ _ _ hd
    | some i => exact hopen _ i hd _ c hc

theorem place_eq_iff {ram b : Bytes} {a : Nat} : place ram a b = ram ↔ b = ram.drop a := by
  constructor
  · intro h
    funext x
    have hx := congrFun h (a + x)
    unfold place at hx
    rwa [if_pos (Nat.le_add_right a x), Nat.add_sub_cancel_left] at hx
  · rintro rfl
    funext x
    unfold place
    split
    · rename_i hx
      show ram (a + (x - a)) = ram x
      rw [Nat.add_sub_cancel' hx]
    · rfl

theorem vfsWriteAt_failed {ram : Bytes} {d : Int} {a n : UInt32} :
    vfsWriteAt ⟨s, ram⟩ d a n = some (-1, ⟨s, ram⟩) ↔ vfsWrite s d (ram.drop a.toNat) n = some (-1, s) := by
  unfold vfsWriteAt
  cases vfsWrite s d (ram.drop a.toNat) n with
  | none => simp
  | some r => simp [Prod.ext_iff]

theorem vfsReadAt_failed {ram : Bytes} {d : Int} {a n : UInt32} :
    vfsReadAt ⟨s, ram⟩ d a n = some (-1, ⟨s, ram⟩) ↔
      vfsRead s d (ram.drop a.toNat) n = some (-1, ram.drop a.toNat, s) := by
  unfold vfsReadAt
  cases vfsRead s d (ram.drop a.toNat) n with
  | none => simp
  | some r => simp [Prod.ext_iff, place_eq_iff, and_comm]

/-! ## Descriptors that refuse -/

/-- The driver has no open file `d`, or no device that takes bytes (or its function refuses them). -/
def RefusesWrite (s : State X) (C : UInt32 → Prop) (d : Int) : Driver X → Prop
  | .mem => slotOf s.mem.used 16 d = none
  | .disk => slotOf s.disk.used 8 d = none
  | .dev => d ≠ 1 ∧ d ≠ 2 ∧ d ≠ 3
  | .other o => ∀ f, o.writeFn = some f → ∀ b n, C n → f d b n.toNat s.ext = (-1, s.ext)

def RefusesRead (s : State X) (C : UInt32 → Prop) (d : Int) : Driver X → Prop
  | .mem => slotOf s.mem.used 16 d = none
  | .disk => slotOf s.disk.used 8 d = none
  | .dev => d ≠ 0 ∧ d ≠ 3
  | .other o => ∀ f, o.readFn = some f → ∀ b n, C n → f d b n.toNat s.ext = (-1, b, s.ext)

/-- No write with a length in `C` gets through the descriptor `e`. -/
def WriteRefused (s : State X) (C : UInt32 → Prop) (e : Fd) : Prop :=
  if e.type = .pipe then ∀ j, pipeGet s.pipes e.pipeId = some j → (s.pipes j).readers = 0
  else ∀ dr, s.driver e.mountIdx = some dr → RefusesWrite s C e.fdData dr

def ReadRefused (s : State X) (C : UInt32 → Prop) (e : Fd) : Prop :=
  if e.type = .pipe then pipeGet s.pipes e.pipeId = none
  else ∀ dr, s.driver e.mountIdx = some dr → RefusesRead s C e.fdData dr

section

variable {C : UInt32 → Prop} {fd : Int} {i : Nat} {dr : Driver X} {d r : Int} {s' : State X} {b b' : Bytes}

/-- A write of no bytes is refused only where every write is. -/
theorem write_zero (h : dr.write s d b 0 = some (-1, s')) (hother : ∀ o, dr ≠ .other o) : RefusesWrite s C d dr := by
  cases dr with
  | mem =>
    obtain ⟨⟨r, m⟩, hm, he⟩ := Option.map_eq_some_iff.1 h
    obtain rfl : r = -1 := congrArg Prod.fst he
    by_contra hd
    obtain ⟨j, hj⟩ := Option.ne_none_iff_exists'.1 hd
    rcases Vfs.memVfsWrite_cases hj hm with ⟨-, h1, -⟩ | ⟨-, h1, -⟩ <;> cases h1
  | disk =>
    obtain ⟨⟨r, k⟩, hk, he⟩ := Option.map_eq_some_iff.1 h
    obtain rfl : r = -1 := congrArg Prod.fst he
    by_contra hd
    obtain ⟨j, hj⟩ := Option.ne_none_iff_exists'.1 hd
    unfold Vfs.diskVfsWrite at hk
    simp only [hj, Nat.add_zero] at hk
    generalize hn : (if 4096 ≤ u32 (s.disk.slots j).pos then u32 (4096 + 2 ^ 32 - (s.disk.slots j).pos - 1) else 0) = n at hk
    -- from a position behind the buffer the copy would run over it
    have hover : n = 0 ∨ 0 < n ∧ 4096 < (s.disk.slots j).pos + n := by
      split at hn <;> unfold u32 at * <;> omega
    rcases hover with rfl | hover
    · cases hk
    · rw [if_pos hover] at hk
      cases hk
  | dev =>
    have hr : (Vfs.devVfsWrite s.dev d b 0).1 = -1 := congrArg Prod.fst (Option.some.inj h)
    unfold Vfs.devVfsWrite at hr
    refine ⟨?_, ?_, ?_⟩ <;> rintro rfl <;> cases hr
  | other o => exact absurd rfl (hother o)

theorem vfsWrite_refused_iff (hfd : s.fdOf fd = some i) (h0 : C 0) :
    (∀ b n, C n → vfsWrite s fd b n = some (-1, s)) ↔ WriteRefused s C (s.fds i) := by
  unfold vfsWrite WriteRefused
  simp only [hfd]
  by_cases hpipe : (s.fds i).type = .pipe
  · simp only [hpipe, if_true]
    constructor
    · intro h j hj
      by_contra hrd
      have := h (fun _ => 0) 0 h0
      simp [pipeWrite, hj, hrd, Bytes.toList, Pipes.writeSlice, i32] at this
    · intro h b n _
      unfold pipeWrite
      cases hj : pipeGet s.pipes (s.fds i).pipeId with
      | none => rfl
      | some j => simp [h j hj]
  simp only [if_neg hpipe]
  cases s.driver (s.fds i).mountIdx with
  | none => simp
  | some dr =>
    simp only [Option.some.injEq, forall_eq']
    constructor
    · intro h
      cases dr with
      | other o =>
        intro f hf b n hn
        have := h b n hn
        simp only [Driver.write, hf, Option.map_some, Option.some.injEq, Prod.mk.injEq] at this
        obtain ⟨h1, h2⟩ := this
        rw [h1] at h2
        exact Prod.ext h1 (congrArg State.ext h2)
      | mem | disk | dev =>
        obtain ⟨⟨r, s1⟩, hw, he⟩ := Option.map_eq_some_iff.1 (h (fun _ => 0) 0 h0)
        obtain rfl : r = -1 := congrArg Prod.fst he
        exact write_zero hw (fun _ h => by cases h)
    · intro h b n hn
      cases dr with
      | mem | disk =>
        simp only [RefusesWrite] at h
        simp [Driver.write, Vfs.memVfsWrite, Vfs.diskVfsWrite, h, State.advance]
      | dev =>
        obtain ⟨h1, h2, h3⟩ := h
        simp [Driver.write, Vfs.devVfsWrite, h1, h2, h3, State.advance]
      | other o =>
        cases hf : o.writeFn with
        | none => simp [Driver.write, hf, State.advance]
        | some f => simp [Driver.write, hf, h f hf b n hn, State.advance]

theorem keyboardGetline_keys {maxlen : Int} {keys screen : List UInt8} {i : Nat} {out out' : Bytes}
    {v : Dev} {r : Int} (h : keyboardGetline maxlen keys i out screen = some (r, out', v)) : v.keys.length < keys.length := by
  induction keys generalizing i out screen with
  | nil => cases h
  | cons c keys ih =>
    have hlen : keys.length < (c :: keys).length := Nat.lt_succ_self _
    unfold keyboardGetline at h
    split at h
    · exact Nat.lt_trans (ih h) hlen
    split at h
    · cases h
      exact hlen
    split at h
    · split at h
      · exact Nat.lt_trans (ih h) hlen
      · exact Nat.lt_trans (ih h) hlen
    · split at h
      · exact Nat.lt_trans (ih h) hlen
      · exact Nat.lt_trans (ih h) hlen

theorem read_zero (h : dr.read s d b 0 = some (-1, b', s)) (hother : ∀ o, dr ≠ .other o) : RefusesRead s C d dr := by
  have hnone : ∀ size pos, Vfs.readLen size pos 0 = 0 := by
    intro size pos
    simp [Vfs.readLen]
  cases dr with
  | mem =>
    by_contra hd
    obtain ⟨j, hj⟩ := Option.ne_none_iff_exists'.1 hd
    simp [Driver.read, Vfs.memVfsRead, hj, hnone, i32] at h
  | disk =>
    by_contra hd
    obtain ⟨j, hj⟩ := Option.ne_none_iff_exists'.1 hd
    simp [Driver.read, Vfs.diskVfsRead, hj, hnone, i32] at h
  | dev =>
    obtain ⟨⟨r, b1, v⟩, hv, he⟩ := Option.map_eq_some_iff.1 h
    constructor
    · rintro rfl
      have hkeys := keyboardGetline_keys hv
      have hdev : v = s.dev := congrArg (fun p => p.2.2.dev) he
      rw [hdev] at hkeys
      exact Nat.lt_irrefl _ hkeys
    · rintro rfl
      cases hv
      cases he
  | other o => exact absurd rfl (hother o)

theorem vfsRead_refused_iff (hfd : s.fdOf fd = some i) (h0 : C 0) :
    (∀ b n, C n → vfsRead s fd b n = some (-1, b, s)) ↔ ReadRefused s C (s.fds i) := by
  unfold vfsRead ReadRefused
  simp only [hfd]
  by_cases hpipe : (s.fds i).type = .pipe
  · simp only [hpipe, if_true]
    constructor
    · intro h
      by_contra hget
      obtain ⟨j, hj⟩ := Option.ne_none_iff_exists'.1 hget
      have := h (fun _ => 0) 0 h0
      simp [pipeRead, hj, Pipes.readSlice, i32] at this
    · intro h b n _
      have hcopy : b.copy 0 (Bytes.ofList []) 0 = b := funext fun x => Bytes.copy_of_out _ _ (by omega)
      simp [pipeRead, h, hcopy]
  simp only [if_neg hpipe]
  cases s.driver (s.fds i).mountIdx with
  | none => simp
  | some dr =>
    simp only [Option.some.injEq, forall_eq']
    constructor
    · intro h
      cases dr with
      | other o =>
        intro f hf b n hn
        have := h b n hn
        simp only [Driver.read, hf, Option.map_some, Option.some.injEq, Prod.mk.injEq] at this
        obtain ⟨h1, h2, h3⟩ := this
        rw [h1] at h3
        exact Prod.ext h1 (Prod.ext h2 (congrArg State.ext h3))
      | mem | disk | dev =>
        obtain ⟨⟨r, b1, s1⟩, hr, he⟩ := Option.map_eq_some_iff.1 (h (fun _ => 0) 0 h0)
        obtain rfl : r = -1 := congrArg Prod.fst he
        obtain rfl : s1 = s := congrArg (fun p => p.2.2) he
        exact read_zero hr (fun _ h => by cases h)
    · intro h b n hn
      cases dr with
      | mem | disk =>
        simp only [RefusesRead] at h
        simp [Driver.read, Vfs.memVfsRead, Vfs.diskVfsRead, h, State.advance]
      | dev =>
        obtain ⟨h1, h2⟩ := h
        simp [Driver.read, Vfs.devVfsRead, h1, h2, State.advance]
      | other o =>
        cases hf : o.readFn with
        | none => simp [Driver.read, hf, State.advance]
        | some f => simp [Driver.read, hf, h f hf b n hn, State.advance]

end

/-! ## The calls -/

def AllOpen (s : State X) (P : Fd → Prop) : Prop := ∀ i < 32, (s.fds i).used = true → P (s.fds i)

/-- The same, said of the table of descriptors: `P` is what `fails` says of an open one. -/
theorem wrapper_iff {fails : Int → Bytes → UInt32 → Prop} {P : (UInt32 → Prop) → Fd → Prop} {C : UInt32 → Prop}
    (hfails : ∀ ram d a n, op ⟨s, ram⟩ d a n = some (-1, ⟨s, ram⟩) ↔ fails d (ram.drop a.toNat) n)
    (hclosed : ∀ d b n, s.fdOf d = none → fails d b n)
    (hP : ∀ C d i, s.fdOf d = some i → C 0 → ((∀ b n, C n → fails d b n) ↔ P C (s.fds i)))
    {fd : Nat} (hlt : fd < 32) (h0 : C 0) :
    (∀ ram c buf len, C c → Same (if len = 0 then some (-1, ⟨s, ram⟩) else op ⟨s, ram⟩ (toInt buf) len c)
        (op ⟨s, ram⟩ fd buf len)) ↔
      ((s.fds fd).used = true → P (fun _ => True) (s.fds fd)) ∧ AllOpen s (P C) := by
  have hopen : ∀ i, i < 32 → (s.fds i).used = true → s.fdOf i = some i := fun i hi hu =>
    Vfs.slotOf_eq_some_iff.2 ⟨rfl, hi, hu⟩
  refine (shifted_iff hfails hclosed fd h0).trans (and_congr ⟨fun h hu => ?_, fun h b n => ?_⟩ ⟨fun h i hi hu => ?_,
    fun h d i hd b c hc => ?_⟩)
  · exact (hP _ fd fd (hopen fd hlt hu) trivial).1 fun b n _ => h b n
  · cases hd : s.fdOf fd with
    | none => exact hclosed _ _ _ hd
    | some i =>
      obtain ⟨he, -, hu⟩ := Vfs.slotOf_eq_some_iff.1 hd
      obtain rfl : fd = i := Int.ofNat_inj.1 he
      exact (hP _ fd fd hd trivial).2 (h hu) b n trivial
  · exact (hP C i i (hopen i hi hu) h0).1 (h i i (hopen i hi hu))
  · obtain ⟨-, hi, hu⟩ := Vfs.slotOf_eq_some_iff.1 hd
    exact (hP C d i hd h0).2 (h i hi hu) b c hc

/-- **The wrappers pass an address where the kernel wants a descriptor.**  In a state of the file
system they have the effect of `vfs_write` on descriptor 1 and of `vfs_read` on descriptor 0 just if
every one of these calls fails: descriptor 1 (0) is closed or refuses every length, and the open
descriptors refuse the lengths that are passed, 0 by the library and any by the inline calls. -/
theorem syscall_abi_iff (others : UInt32 → Option (Handler X)) (s : State X) :
    ((∀ ram buf len, Same (libcWrite others ⟨s, ram⟩ buf len) (vfsWriteAt ⟨s, ram⟩ 1 buf len)) ↔
      ((s.fds 1).used = true → WriteRefused s (fun _ => True) (s.fds 1)) ∧ AllOpen s (WriteRefused s (· = 0))) ∧
    ((∀ ram buf len, Same (libcRead others ⟨s, ram⟩ buf len) (vfsReadAt ⟨s, ram⟩ 0 buf len)) ↔
      ((s.fds 0).used = true → ReadRefused s (fun _ => True) (s.fds 0)) ∧ AllOpen s (ReadRefused s (· = 0))) ∧
    ((∀ ram edx buf len, Same (sysWrite others ⟨s, ram⟩ edx buf len) (vfsWriteAt ⟨s, ram⟩ 1 buf len)) ↔
      AllOpen s (WriteRefused s fun _ => True)) ∧
    ((∀ ram edx buf len, Same (sysRead others ⟨s, ram⟩ edx buf len) (vfsReadAt ⟨s, ram⟩ 0 buf len)) ↔
      AllOpen s (ReadRefused s fun _ => True)) := by
  have hwr : ∀ C : UInt32 → Prop, C 0 → ((∀ ram c buf len, C c →
      Same (int80 others ⟨s, ram⟩ ⟨sysWriteNum, buf, len, c⟩) (vfsWriteAt ⟨s, ram⟩ 1 buf len)) ↔
      ((s.fds 1).used = true → WriteRefused s (fun _ => True) (s.fds 1)) ∧ AllOpen s (WriteRefused s C)) := fun C h0 =>
    wrapper_iff (fun _ _ _ _ => vfsWriteAt_failed) (fun d b n h => by simp only [vfsWrite, h])
      (fun _ _ _ hd h0 => vfsWrite_refused_iff hd h0) (by decide) h0
  have hrd : ∀ C : UInt32 → Prop, C 0 → ((∀ ram c buf len, C c →
      Same (int80 others ⟨s, ram⟩ ⟨sysReadNum, buf, len, c⟩) (vfsReadAt ⟨s, ram⟩ 0 buf len)) ↔
      ((s.fds 0).used = true → ReadRefused s (fun _ => True) (s.fds 0)) ∧ AllOpen s (ReadRefused s C)) := fun C h0 =>
    wrapper_iff (fun _ _ _ _ => vfsReadAt_failed) (fun d b n h => by simp only [vfsRead, h])
      (fun _ _ _ hd h0 => vfsRead_refused_iff hd h0) (by decide) h0
  refine ⟨.trans ?_ (hwr (· = 0) rfl), .trans ?_ (hrd (· = 0) rfl), ?_, ?_⟩
  · exact ⟨fun h ram c buf len hc => hc ▸ h ram buf len, fun h ram buf len => h ram 0 buf len rfl⟩
  · exact ⟨fun h ram c buf len hc => hc ▸ h ram buf len, fun h ram buf len => h ram 0 buf len rfl⟩
  · refine .trans ⟨fun h ram c buf len _ => h ram c buf len, fun h ram c buf len => h ram c buf len trivial⟩
      ((hwr (fun _ => True) trivial).trans (and_iff_right_of_imp fun h => h 1 (by decide)))
  · refine .trans ⟨fun h ram c buf len _ => h ram c buf len, fun h ram c buf len => h ram c buf len trivial⟩
      ((hrd (fun _ => True) trivial).trans (and_iff_right_of_imp fun h => h 0 (by decide)))

/-- A booted kernel, with "hi" at address 4096. -/
def hiKernel : Kernel Unit := ⟨Vfs.bareBoot, fun x => if x = 4096 then 104 else if x = 4097 then 105 else 0⟩

/-- `write("hi", 2)` returns -1 and shows nothing; `vfs_write(1, "hi", 2)` returns 2 and shows "hi". -/
theorem write_passes_address : ∃ k : Kernel Unit,
    libcWrite (fun _ => none) hiKernel 4096 2 = some (-1, hiKernel) ∧
    vfsWriteAt hiKernel 1 4096 2 = some (2, k) ∧ k.vfs.dev.screen = [104, 105] :=
  ⟨_, rfl, rfl, rfl⟩

end KumOS.Syscall
