import KumOS.Sched.Model
import KumOS.Vfs.Model

/-!
# `procfs.c`: the files of `/proc`

A file of `/proc` is built when it is opened, in the one buffer `proc_buf`.  All
descriptors read from that buffer, at the one position `proc_pos`, which only
`proc_close` sets back.

A string made by `kstrcpy` and a row of `kstrcat` is the concatenation of the
pieces.  The state holds the memory from `proc_buf` on: what stands behind the
string there is what an earlier, longer one has left.
-/

namespace KumOS.Procfs

open Lib Vfs
open Fat12 (Name)
open Sched (TaskTable TaskState schedGetTask)

/-- The bytes of a string literal. -/
def ascii (s : String) : Name := s.toUTF8.data.toList

/-! ## Numbers -/

/-- The loop of `uint_to_str`, with the digits written so far. -/
def digitsLoop (n : Nat) (tmp : Name) : Name :=
  if n = 0 then tmp else digitsLoop (n / 10) (UInt8.ofNat (48 + n % 10) :: tmp)
termination_by n

def uintToStr (n : UInt32) : Name := if n = 0 then [48] else digitsLoop n.toNat []

theorem digitsLoop_length {n k : Nat} (h : n < 10 ^ k) (tmp : Name) : (digitsLoop n tmp).length ≤ tmp.length + k := by
  induction k generalizing n tmp with
  | zero =>
    obtain rfl : n = 0 := by omega
    rw [digitsLoop, if_pos rfl]
    exact Nat.le_refl _
  | succ k ih =>
    rw [digitsLoop]
    split
    · omega
    have hdiv : n / 10 < 10 ^ k := by
      omega
    have := ih hdiv (UInt8.ofNat (48 + n % 10) :: tmp)
    rw [List.length_cons] at this
    omega

theorem uintToStr_length (n : UInt32) : (uintToStr n).length ≤ 10 := by
  unfold uintToStr
  split
  · decide
  · have hlt := n.toNat_lt
    exact digitsLoop_length (k := 10) (by omega) []

/-! ## What the files are made of -/

/-- `rtc_time_t` -/
structure RtcTime where
  second : UInt8
  minute : UInt8
  hour : UInt8
  day : UInt8
  month : UInt8
  year : UInt16

/-- The log of `dmesg.c`. -/
structure Dmesg where
  buf : Bytes
  head : UInt32
  count : UInt32

def dmesgBuf : Nat := 16384

/-- The bytes `dmesg_read` copies before the zero. -/
def dmesgRead (d : Dmesg) (sz : Nat) : Name :=
  let start := if dmesgBuf < d.count.toNat then d.head.toNat % dmesgBuf else 0
  let all := if dmesgBuf < d.count.toNat then dmesgBuf else d.head.toNat
  let total := if sz ≤ all then sz - 1 else all
  (List.range total).map fun i => d.buf ((start + i) % dmesgBuf)

/-- What the rest of the kernel answers when a file is built. -/
structure Env where
  totalMemKb : UInt32
  pmmUsed : UInt32
  pmmTotal : UInt32
  kmallocUsed : UInt32
  timerSeconds : UInt32
  sched : TaskTable
  /-- `net_get_mac`, if `net_ready` -/
  mac : Option (Nat → UInt8)
  rtc : RtcTime
  dmesg : Dmesg
  /-- names are strings of `task_t.name` -/
  names : ∀ i, kstrlen (sched.tasks i).name < 32

/-! ## The builders -/

def buildMeminfo (e : Env) : Name :=
  ascii "MemTotal:  " ++ uintToStr e.totalMemKb ++ ascii " KB\n" ++
  ascii "MemUsed:   " ++ uintToStr (e.pmmUsed * 4) ++ ascii " KB\n" ++
  ascii "MemFree:   " ++ uintToStr ((e.pmmTotal - e.pmmUsed) * 4) ++ ascii " KB\n" ++
  ascii "HeapUsed:  " ++ uintToStr e.kmallocUsed ++ ascii " B\n" ++
  ascii "Paging:    enabled\n"

def buildUptime (e : Env) : Name := uintToStr e.timerSeconds ++ ascii " seconds\n"

def buildVersion : Name := ascii "KumOS 1.8 x86\n"

def stateText : TaskState → Name
  | .running => ascii "RUN"
  | .ready => ascii "RDY"
  | .sleeping => ascii "SLP"
  | .zombie => ascii "ZOM"
  | .dead => ascii "???"

/-- The line of a process id in `build_ps`. -/
def psLine (e : Env) (pid : Nat) : Name :=
  match schedGetTask e.sched pid with
  | none => []
  | some t =>
    if t.state = .dead then []
    else
      uintToStr (UInt32.ofInt t.pid) ++ ascii "    " ++ stateText t.state ++ ascii "  " ++ cstr t.name ++ ascii "\n"

def buildPs (e : Env) : Name :=
  ascii "PID  STATE  NAME\n" ++ (List.range' 1 Sched.schedMaxTasks).flatMap (psLine e)

def hexDigit (n : Nat) : UInt8 := (ascii "0123456789ABCDEF").getD n 0

/-- Byte `i` of the address in `build_net`. -/
def macByte (mac : Nat → UInt8) (i : Nat) : Name :=
  [hexDigit ((mac i).toNat / 16), hexDigit ((mac i).toNat % 16)] ++ if i < 5 then ascii ":" else []

def buildNet (e : Env) : Name :=
  match e.mac with
  | none => ascii "no network\n"
  | some mac => ascii "mac: " ++ (List.range 6).flatMap (macByte mac) ++ ascii "\nip:  10.0.2.15\n"

/-- A number of `build_date`, with a zero before a single digit. -/
def twoDigits (v : UInt8) : Name := (if v < 10 then ascii "0" else []) ++ uintToStr v.toUInt32

def buildDate (e : Env) : Name :=
  uintToStr e.rtc.year.toUInt32 ++ ascii "-" ++ twoDigits e.rtc.month ++ ascii "-" ++ twoDigits e.rtc.day ++ ascii " " ++
  twoDigits e.rtc.hour ++ ascii ":" ++ twoDigits e.rtc.minute ++ ascii ":" ++ twoDigits e.rtc.second ++ ascii "\n"

/-! ## The driver -/

inductive File where
  | meminfo
  | uptime
  | version
  | ps
  | net
  | date
  | dmesg
  deriving DecidableEq, Repr

def File.all : List File := [.meminfo, .uptime, .version, .ps, .net, .date, .dmesg]

def File.name : File → Name
  | .meminfo => ascii "meminfo"
  | .uptime => ascii "uptime"
  | .version => ascii "version"
  | .ps => ascii "ps"
  | .net => ascii "net"
  | .date => ascii "date"
  | .dmesg => ascii "dmesg"

/-- The result of `proc_open`. -/
def File.data : File → Int
  | .meminfo => 1
  | .uptime => 2
  | .version => 3
  | .ps => 4
  | .net => 5
  | .date => 6
  | .dmesg => 7

def procBufSize : Nat := 2048

def File.build (e : Env) : File → Name
  | .meminfo => buildMeminfo e
  | .uptime => buildUptime e
  | .version => buildVersion
  | .ps => buildPs e
  | .net => buildNet e
  | .date => buildDate e
  | .dmesg => dmesgRead e.dmesg procBufSize

structure Proc where
  env : Env
  /-- the memory from `proc_buf` on -/
  buf : Bytes
  pos : Nat

/-- The string in `proc_buf`. -/
def Proc.text (p : Proc) : Name := cstr (p.buf.toList procBufSize)

/-- A string is written to `proc_buf`. -/
def Proc.fill (p : Proc) (text : Name) : Proc := { p with buf := p.buf.copy 0 (.ofList text) (text.length + 1) }

/-- The file of the comparisons in `proc_open`. -/
def fileOf (path : Name) : Option File := File.all.find? fun f => kstrcmp path f.name = 0

def procOpen (path : Name) (_flags : Flags) (p : Proc) : Int × Proc :=
  match fileOf path with
  | none => (-1, p)
  | some f => (f.data, p.fill (f.build p.env))

def procClose (_d : Int) (p : Proc) : Proc := { p with pos := 0 }

/-- `proc_read`; the difference of `kstrlen(proc_buf)` and `proc_pos` is one of `uint32_t`. -/
def procRead (_d : Int) (buf : Bytes) (len : Nat) (p : Proc) : Int × Bytes × Proc :=
  let n := readLen p.text.length p.pos len
  if n = 0 then (0, buf, p) else (i32 n, buf.copy 0 (p.buf.drop p.pos) n, { p with pos := u32 (p.pos + n) })

def procWrite (_d : Int) (_buf : Bytes) (_len : Nat) (p : Proc) : Int × Proc := (-1, p)

def procStat (path : Name) (p : Proc) : Option Stat × Proc := (some ⟨0, .file, cstr path⟩, p)

def procReaddir (_path : Name) (buf : Bytes) (_sz : Nat) (p : Proc) : Int × Bytes × Proc :=
  let names := File.all.flatMap fun f => f.name ++ ascii "\n"
  (names.length, buf.copy 0 (.ofList names) (names.length + 1), p)

def procOps : Ops Proc where
  openFn := some procOpen
  closeFn := some procClose
  readFn := some procRead
  writeFn := some procWrite
  statFn := some procStat
  readdirFn := some procReaddir
  unlinkFn := none

def procPath : Name := ascii "/proc"

def procFsInit (s : State Proc) : Option (Int × State Proc) := vfsMount s procPath (.other procOps)

/-! ## The texts fit -/

theorem buildMeminfo_length (e : Env) : (buildMeminfo e).length ≤ 118 := by
  have h1 := uintToStr_length e.totalMemKb
  have h2 := uintToStr_length (e.pmmUsed * 4)
  have h3 := uintToStr_length ((e.pmmTotal - e.pmmUsed) * 4)
  have h4 := uintToStr_length e.kmallocUsed
  have hmem : (ascii "MemTotal:  ").length = 11 ∧ (ascii "MemUsed:   ").length = 11 ∧
      (ascii "MemFree:   ").length = 11 := ⟨rfl, rfl, rfl⟩
  have hheap : (ascii "HeapUsed:  ").length = 11 ∧ (ascii "Paging:    enabled\n").length = 19 := ⟨rfl, rfl⟩
  have hunit : (ascii " KB\n").length = 4 ∧ (ascii " B\n").length = 3 := ⟨rfl, rfl⟩
  simp only [buildMeminfo, List.length_append]
  omega

theorem psLine_length (e : Env) (pid : Nat) : (psLine e pid).length ≤ 51 := by
  unfold psLine
  cases ht : schedGetTask e.sched pid with
  | none => exact Nat.zero_le _
  | some t =>
    obtain ⟨i, -, rfl⟩ := Option.map_eq_some_iff.1 ht
    have hnm : (cstr (e.sched.tasks i).name).length < 32 := e.names i
    have hpid := uintToStr_length (UInt32.ofInt (e.sched.tasks i).pid)
    have hstate : (stateText (e.sched.tasks i).state).length = 3 := by
      cases (e.sched.tasks i).state <;> rfl
    have hgaps : (ascii "    ").length = 4 ∧ (ascii "  ").length = 2 ∧ (ascii "\n").length = 1 := ⟨rfl, rfl, rfl⟩
    simp only
    split
    · exact Nat.zero_le _
    · simp only [List.length_append]
      omega

theorem length_flatMap_le {α β : Type} {f : α → List β} {k : Nat} (h : ∀ x, (f x).length ≤ k) (l : List α) :
    (l.flatMap f).length ≤ l.length * k := by
  induction l with
  | nil => exact Nat.zero_le _
  | cons x l ih =>
    have hx := h x
    rw [List.flatMap_cons, List.length_append, List.length_cons, Nat.succ_mul]
    omega

theorem buildPs_length (e : Env) : (buildPs e).length ≤ 833 := by
  have hlines := length_flatMap_le (psLine_length e) (List.range' 1 Sched.schedMaxTasks)
  have hhd : (ascii "PID  STATE  NAME\n").length = 17 := rfl
  have hmax : (List.range' 1 Sched.schedMaxTasks).length = 16 := rfl
  rw [buildPs, List.length_append]
  omega

theorem buildNet_length (e : Env) : (buildNet e).length ≤ 39 := by
  unfold buildNet
  cases e.mac with
  | none => decide
  | some mac =>
    have hbyte : ∀ i, (macByte mac i).length ≤ 3 := by
      intro i
      unfold macByte
      split
      · exact Nat.le_refl 3
      · exact Nat.le_succ 2
    have hby := length_flatMap_le hbyte (List.range 6)
    have hen : (ascii "mac: ").length = 5 ∧ (ascii "\nip:  10.0.2.15\n").length = 16 := ⟨rfl, rfl⟩
    rw [List.length_range] at hby
    simp only [List.length_append]
    omega

theorem twoDigits_length (v : UInt8) : (twoDigits v).length ≤ 11 := by
  have h := uintToStr_length v.toUInt32
  have hze : (ascii "0").length = 1 := rfl
  unfold twoDigits
  split <;> simp only [List.length_append, List.length_nil] <;> omega

theorem buildDate_length (e : Env) : (buildDate e).length ≤ 71 := by
  have hyear := uintToStr_length e.rtc.year.toUInt32
  have hmonth := twoDigits_length e.rtc.month
  have hday := twoDigits_length e.rtc.day
  have hhour := twoDigits_length e.rtc.hour
  have hminute := twoDigits_length e.rtc.minute
  have hsecond := twoDigits_length e.rtc.second
  have hsigns : (ascii "-").length = 1 ∧ (ascii " ").length = 1 ∧ (ascii ":").length = 1 ∧ (ascii "\n").length = 1 :=
    ⟨rfl, rfl, rfl, rfl⟩
  simp only [buildDate, List.length_append]
  omega

/-- Every file fits in `proc_buf`, with the zero behind it. -/
theorem build_length (e : Env) (f : File) : (f.build e).length < procBufSize := by
  unfold procBufSize
  cases f with
  | meminfo => exact Nat.lt_of_le_of_lt (buildMeminfo_length e) (by decide)
  | uptime =>
    have h := uintToStr_length e.timerSeconds
    have hunit : (ascii " seconds\n").length = 9 := rfl
    rw [File.build, buildUptime, List.length_append]
    omega
  | version =>
    have h : buildVersion.length = 14 := rfl
    rw [File.build, h]
    decide
  | ps => exact Nat.lt_of_le_of_lt (buildPs_length e) (by decide)
  | net => exact Nat.lt_of_le_of_lt (buildNet_length e) (by decide)
  | date => exact Nat.lt_of_le_of_lt (buildDate_length e) (by decide)
  | dmesg =>
    rw [File.build, dmesgRead]
    simp only [List.length_map, List.length_range]
    generalize (if dmesgBuf < e.dmesg.count.toNat then dmesgBuf else e.dmesg.head.toNat) = all
    unfold procBufSize
    split <;> omega

/-- What stands in the buffer after a string has been written. -/
theorem text_fill (p : Proc) {text : Name} (h : text.length < procBufSize) : (p.fill text).text = cstr text := by
  obtain ⟨r, hr⟩ : ∃ r, procBufSize = text.length + (r + 1) := ⟨procBufSize - text.length - 1, by omega⟩
  have hget : ∀ i ≤ text.length, (p.fill text).buf i = Bytes.ofList text i := by
    intro i hi
    show p.buf.copy 0 (.ofList text) (text.length + 1) i = Bytes.ofList text i
    rw [Bytes.copy_of_in _ _ (by omega), Nat.sub_zero]
  have hfront : (p.fill text).buf.toList text.length = text := by
    rw [Bytes.toList_congr fun i hi => hget i (Nat.le_of_lt hi), Bytes.toList_ofList]
  have hze : (p.fill text).buf text.length = 0 := by
    rw [hget _ (Nat.le_refl _)]
    simp [Bytes.ofList]
  have hrs : ∃ rest, ((p.fill text).buf.drop text.length).toList (r + 1) = 0 :: rest := by
    rw [Bytes.toList, List.range_succ_eq_map, List.map_cons]
    exact ⟨_, congrArg (· :: _) hze⟩
  obtain ⟨rest, hrs⟩ := hrs
  rw [Proc.text, hr, Bytes.toList_add, hfront, hrs, cstr_append_zero]

end KumOS.Procfs
