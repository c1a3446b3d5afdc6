import KumOS.Fat12.Format
import KumOS.Lib.Run

/-!
# Runs of a FAT12 volume

A run begins with `fat12_format` and goes on with calls of the driver.  Each call
takes the finite map of files the volume stores to another one (`exec_spec`), so
the volume behaves as that map, keeps its chains and its directory well formed,
survives a failed write except for the file being written, and is on the disk
after every successful change.
-/

namespace KumOS.Fat12

open Lib
open Function (update update_self update_of_ne)

variable {s s' s1 : State} {files : Files} {d r : Int} {data : List UInt8} {j : Nat}
  {ch : Nat → List Nat}

inductive Op
  | write (name : Name) (buf : Bytes) (size : UInt32)
  | delete (name : Name)
  | read (name : Name) (bufsz : UInt32)
  | list (max : Int)

variable {op : Op}

/-- The result of a call, and the state it leaves. -/
def exec (s : State) : Op → Option (Int × State)
  | .write name buf size => fat12Write s name buf size
  | .delete name => some (fat12Delete s name)
  | .read name bufsz => (fat12Read s name bufsz).map fun r => (r.1, r.2.2)
  | .list max => some ((fat12List s max).1, (fat12List s max).2.2)

/-- The key a call changes. -/
def Op.key : Op → Option (List UInt8)
  | .write name _ _ => some (nameTo83 name)
  | .delete name => some (nameTo83 name)
  | .read _ _ => none
  | .list _ => none

def Op.isWrite : Op → Bool
  | .write _ _ _ => true
  | _ => false

/-- A call that came back, with whatever result. -/
def Step (s : State) (op : Op) (s' : State) : Prop := ∃ r, exec s op = some (r, s')

/-- A call whose key does not begin like a free entry, and that returned 0 if it was a write. -/
def MapStep (s : State) (op : Op) (s' : State) : Prop :=
  (∀ key, op.key = some key → key.headD 0 ≠ direntFree) ∧
    ∃ r, exec s op = some (r, s') ∧ (op.isWrite = true → r = 0)

/-! ## The finite map -/

/-- A call on the finite map: a write stores its data, a delete removes the file. -/
def Files.apply (files : Files) : Op → Files
  | .write name buf size =>
    update files (nameTo83 name) (some (buf.toList size.toNat))
  | .delete name => update files (nameTo83 name) none
  | .read _ _ => files
  | .list _ => files

/-- The data last written under each key and not deleted since. -/
def filesOf (ops : List Op) : Files := ops.foldl Files.apply fun _ => none

/-- The files after a call with result `r`: a write that fails has removed the old file. -/
def Files.after (files : Files) (op : Op) (r : Int) : Files :=
  match op with
  | .write name buf size =>
    update files (nameTo83 name)
      (if r = 0 then written (nameTo83 name) (buf.toList size.toNat) else none)
  | op => files.apply op

/-- The result of a read and the bytes it puts into the buffer. -/
def readAnswer (s : State) (name : Name) (bufsz : UInt32) : Option (Int × List UInt8) :=
  (fat12Read s name bufsz).map fun r => (r.1, r.2.1)

/-- The result of a listing and the entries it fills in. -/
def listAnswer (s : State) (max : Int) : Int × List Entry :=
  ((fat12List s max).1, (fat12List s max).2.1)

section

section

variable (hS : Stores d s files)
include hS

theorem Stores.setSector (sec : Bytes) : Stores d { s with sector := sec } files :=
  ⟨hS.1.setSector sec, hS.2⟩

theorem Stores.readAnswer_eq (name : Name) (bufsz : UInt32) :
    readAnswer s name bufsz = some (readResult (files (nameTo83 name)) bufsz.toNat) := by
  obtain ⟨hF, ch, hH⟩ := hS
  obtain ⟨sec, hrd⟩ := fat12Read_spec hF hH name bufsz
  unfold readAnswer
  rw [hrd]
  rfl

/-- Every call comes back, and takes the files of the volume to those after the call. -/
theorem exec_spec (op : Op) : ∃ r s', exec s op = some (r, s') ∧ Stores d s' (files.after op r) := by
  cases op with
  | write name buf size =>
    rcases fat12Write_spec hS name buf size with ⟨s', hw, hS', -⟩ | ⟨s', hw, -, hS'⟩
    · exact ⟨-1, s', hw, hS'⟩
    · exact ⟨0, s', hw, hS'⟩
  | delete name =>
    obtain ⟨hF, ch, hH⟩ := hS
    obtain ⟨hF', hH', -⟩ := fat12Delete_cleared hF hH name
    exact ⟨(fat12Delete s name).1, (fat12Delete s name).2, rfl, hF', ch, hH'⟩
  | read name bufsz =>
    obtain ⟨hF, ch, hH⟩ := hS
    obtain ⟨sec, hrd⟩ := fat12Read_spec hF hH name bufsz
    refine ⟨(readResult (files (nameTo83 name)) bufsz.toNat).1, { s with sector := sec }, ?_,
      hF.setSector sec, ch, hH⟩
    show (fat12Read s name bufsz).map _ = _
    rw [hrd]
    rfl
  | list max =>
    obtain ⟨sec, hlist⟩ := fat12List_eq hS.1 max
    refine ⟨(fat12List s max).1, { s with sector := sec }, ?_, hS.setSector sec⟩
    show some ((fat12List s max).1, (fat12List s max).2.2) = some ((fat12List s max).1, _)
    rw [hlist]
    rcases scan (fun es : List Entry => decide ((es.length : Int) < max)) listBody
      (view s).dir 224 0 [] with es | ⟨i, es⟩ <;> rfl

theorem Stores.step (h : exec s op = some (r, s')) : Stores d s' (files.after op r) := by
  obtain ⟨r', s'', hex, hS'⟩ := exec_spec hS op
  rw [h] at hex
  cases hex
  exact hS'

end

/-- Calls that meet the conditions of `MapStep` act on the files as on the finite map. -/
theorem Files.after_eq_apply (hkey : ∀ key, op.key = some key → key.headD 0 ≠ direntFree)
    (hr : op.isWrite = true → r = 0) : files.after op r = files.apply op := by
  cases op with
  | write name buf size =>
    show update files _ (if r = 0 then written _ _ else none) = update files _ _
    rw [if_pos (hr rfl), written, if_neg (hkey _ rfl)]
  | delete name => rfl
  | read name bufsz => rfl
  | list max => rfl

theorem Stores.mapStep (hS : Stores d s files) (h : MapStep s op s') : Stores d s' (files.apply op) := by
  obtain ⟨hkey, r, hex, hr⟩ := h
  rw [← Files.after_eq_apply hkey hr]
  exact hS.step hex

theorem Files.apply_of_ne (files : Files) {key : List UInt8} (h : op.key ≠ some key) :
    files.apply op key = files key := by
  cases op with
  | write name buf size =>
    exact update_of_ne (fun he => h (by rw [he]; rfl)) _ _
  | delete name => exact update_of_ne (fun he => h (by rw [he]; rfl)) _ _
  | read name bufsz => rfl
  | list max => rfl

end

/-- `fat12_format` begins every run. -/
theorem format_stores {s0 : State} {label : Option Name} (hok : ∀ d l, s0.ata.ok d l = true)
    (hfm : fat12Format s0 d label = some (0, s1)) :
    Stores d s1 (fun _ => none) ∧ ∀ c, 2 ≤ c → c ≤ 2848 → (view s1).next c = 0 := by
  obtain ⟨s', hsc, hS⟩ := fat12Format_spec hok d label
  rw [hfm] at hsc
  cases hsc
  exact hS

theorem run_stores {ops : List Op} (hS : Stores d s1 (fun _ => none)) (hrun : Run Step s1 ops s) :
    ∃ files, Stores d s files := by
  refine Run.invariant (fun s => ∃ files, Stores d s files) ⟨_, hS⟩ ?_ hrun
  rintro s op s' ⟨files, hS⟩ ⟨r, hex⟩
  exact ⟨_, hS.step hex⟩

/-! ## A volume to begin with -/

/-- The globals before anything is mounted, with an empty disk. -/
def initial : State where
  drive := -1
  mounted := false
  bpb := Bpb.decode fun _ => 0
  fatStart := 0
  rootStart := 0
  dataStart := 0
  rootSectors := 0
  totalClusters := 0
  fat := fun _ => 0
  fatDirty := false
  sector := fun _ => 0
  behind := fun _ => 0
  mountedAt := some 0
  ata := ⟨fun _ _ => true, fun _ _ _ => 0⟩

theorem initial_format : ∃ s1, fat12Format initial 0 none = some (0, s1) ∧ Stores 0 s1 (fun _ => none) := by
  obtain ⟨s1, hfm, hS, -⟩ := fat12Format_spec (s := initial) (fun _ _ => rfl) 0 none
  exact ⟨s1, hfm, hS⟩

/-- A new volume, and the file "A" of three bytes written to it. -/
theorem initial_write : ∃ s1 s, fat12Format initial 0 none = some (0, s1) ∧
    fat12Write s1 [65] (fun _ => 7) 3 = some (0, s) ∧ (listAnswer s 224).1 = 1 ∧
    (rootDir s 0).first = 65 ∧ (rootDir s 0).fileSize = 3 ∧ readAnswer s [65] 4 = some (3, [7, 7, 7]) := by
  have h : ((fat12Format initial 0 none).bind fun r1 => (fat12Write r1.2 [65] (fun _ => 7) 3).map fun r2 =>
      (r1.1, r2.1, decide ((listAnswer r2.2 224).1 = 1 ∧ (rootDir r2.2 0).first = 65 ∧ (rootDir r2.2 0).fileSize = 3 ∧
        readAnswer r2.2 [65] 4 = some (3, [7, 7, 7])))) = some (0, 0, true) := by decide +kernel
  obtain ⟨⟨_, s1⟩, hfm, h⟩ := Option.bind_eq_some_iff.1 h
  obtain ⟨⟨_, s⟩, hwr, h⟩ := Option.map_eq_some_iff.1 h
  simp only [Prod.mk.injEq] at h
  obtain ⟨rfl, rfl, h⟩ := h
  exact ⟨s1, s, hfm, hwr, of_decide_eq_true h⟩

section

theorem Stores.length_le (hS : Stores d s files) {key : List UInt8} (h : files key = some data) :
    data.length ≤ 512 * 2847 := by
  obtain ⟨-, ch, hH⟩ := hS
  obtain ⟨j, hj, rfl⟩ := hH.dom key data h
  have hch := hH.chain j hj
  have hsz := hch.size_le
  have hclusters := length_le_of_clusters hch.nodup hch.range
  rw [hH.stored j hj] at h
  cases h
  rw [Bytes.length_toList]
  omega

theorem write_too_large (hS : Stores d s files) (name : Name) (buf : Bytes) (size : UInt32)
    (hkey : (nameTo83 name).headD 0 ≠ direntFree) (hsz : 512 * 2847 < size.toNat) :
    ∃ s', fat12Write s name buf size = some (-1, s') ∧
      Stores d s' (update files (nameTo83 name) none) := by
  rcases fat12Write_spec hS name buf size with ⟨s', hw, hS', -⟩ | ⟨s', -, -, hS'⟩
  · exact ⟨s', hw, hS'⟩
  have hstored : update files (nameTo83 name) (written (nameTo83 name)
      (buf.toList size.toNat)) (nameTo83 name) = some (buf.toList size.toNat) := by
    rw [update_self, written, if_neg hkey]
  have hle := hS'.length_le hstored
  rw [Bytes.length_toList] at hle
  omega

end

/-! ## The volume is a finite map -/

theorem Stores.list (hS : Stores d s files) :
    ∃ keys : List (List UInt8), keys.Nodup ∧ (∀ key, key ∈ keys ↔ (files key).isSome) ∧
      (listAnswer s 224).1 = keys.length ∧
      (listAnswer s 224).2.map (fun e => (e.name, some e.size)) =
        keys.map fun key => (nameFrom83 key, (files key).map List.length) := by
  obtain ⟨hF, ch, hH⟩ := hS
  obtain ⟨sec, hlist⟩ := fat12List_spec hF hH (Int.le_refl 224)
  refine ⟨((view s).liveFrom 0 224).map fun k => ((view s).dir k).name, ?_, fun key => ?_, ?_, ?_⟩
  · refine List.Nodup.map_on ?_ (List.Nodup.filter _ List.nodup_range')
    intro j hj k hk hnm
    exact hH.names j k (Vol.mem_liveFrom.1 hj) (Vol.mem_liveFrom.1 hk) hnm
  · rw [List.mem_map]
    constructor
    · rintro ⟨k, hk, rfl⟩
      rw [hH.stored k (Vol.mem_liveFrom.1 hk)]
      rfl
    · intro hso
      obtain ⟨data, hda⟩ := Option.isSome_iff_exists.1 hso
      obtain ⟨k, hk, hnm⟩ := hH.dom key data hda
      exact ⟨k, Vol.mem_liveFrom.2 hk, hnm⟩
  · unfold listAnswer
    rw [hlist, List.length_map]
  · unfold listAnswer
    rw [hlist, List.map_map, List.map_map]
    apply List.map_congr_left
    intro k hk
    show (nameFrom83 _, some _) = (nameFrom83 _, (files _).map List.length)
    rw [hH.stored k (Vol.mem_liveFrom.1 hk), Option.map_some, Bytes.length_toList]
    rfl

/-- **The volume refines a finite map.**  After a format and any run of writes that return 0,
deletes, reads and listings, a read answers from the data last written under the key and not deleted
since, a listing of 224 entries shows each live key once with its size, and a call on one key leaves
what every other key reads. -/
theorem volume_refines_map {s0 s1 s : State} {drive : Int} {label : Option Name} {ops : List Op}
    (hok : ∀ d l, s0.ata.ok d l = true) (hformat : fat12Format s0 drive label = some (0, s1))
    (hrun : Run MapStep s1 ops s) :
    (∀ name bufsz, readAnswer s name bufsz =
      some (readResult (filesOf ops (nameTo83 name)) bufsz.toNat)) ∧
    (∃ keys : List (List UInt8), keys.Nodup ∧ (∀ key, key ∈ keys ↔ (filesOf ops key).isSome) ∧
      (listAnswer s 224).1 = keys.length ∧
      (listAnswer s 224).2.map (fun e => (e.name, some e.size)) =
        keys.map fun key => (nameFrom83 key, (filesOf ops key).map List.length)) ∧
    ∀ op s', MapStep s op s' → ∀ name, op.key ≠ some (nameTo83 name) → ∀ bufsz,
      readAnswer s' name bufsz = readAnswer s name bufsz := by
  have hS : Stores drive s (filesOf ops) := by
    refine Run.invariant_hist (fun ops s => Stores drive s (filesOf ops)) (format_stores hok hformat).1 ?_ hrun
    intro done s op s' hS hsp
    show Stores drive s' ((done ++ [op]).foldl Files.apply fun _ => none)
    rw [List.foldl_append]
    exact hS.mapStep hsp
  refine ⟨hS.readAnswer_eq, hS.list, fun op s' hsp name hne bufsz => ?_⟩
  rw [(hS.mapStep hsp).readAnswer_eq, hS.readAnswer_eq, Files.apply_of_ne _ hne]

theorem volume_refines_map_one_file : ∃ s1 s,
    fat12Format initial 0 none = some (0, s1) ∧
    Run MapStep s1 [.write [65] (fun _ => 7) 3] s ∧
    readAnswer s [97] 2 = some (2, [7, 7]) ∧ (listAnswer s 224).1 = 1 := by
  obtain ⟨s1, s, hfm, hw, hlist, -⟩ := initial_write
  have hrun : Run MapStep s1 [.write [65] (fun _ => 7) 3] s := by
    refine .single ⟨fun key hkey => ?_, 0, hw, fun _ => rfl⟩
    cases hkey
    decide
  have hrd := (volume_refines_map (fun _ _ => rfl) hfm hrun).1
  exact ⟨s1, s, hfm, hrun, (hrd [97] 2).trans (by decide), hlist⟩

/-! ## The volume stays well formed -/

/-- The clusters met on the way from `cluster` through the table, and the value that ends it. -/
def followFat (fat : Bytes) : Nat → Nat → List Nat × Nat
  | 0, cluster => ([], cluster)
  | fuel + 1, cluster =>
    if 2 ≤ cluster ∧ cluster ≤ 0xFEF then
      let (cs, stop) := followFat fat fuel (fatGet fat cluster)
      (cluster :: cs, stop)
    else ([], cluster)

/-- The chain of root entry `j`. -/
def chainOf (s : State) (j : Nat) : List Nat × Nat :=
  followFat s.fat 0x1000 (rootDir s j).startCluster

/-- Root entry `j` lies before the first end marker and is not free. -/
def LiveEntry (s : State) (j : Nat) : Prop :=
  j < 224 ∧ (∀ k ≤ j, (rootDir s k).first ≠ direntEnd) ∧ (rootDir s j).first ≠ direntFree

theorem LiveEntry.live (h : LiveEntry s j) : (view s).Live j :=
  ⟨h.1, h.2.1 j (Nat.le_refl j), h.2.2⟩

theorem liveEntry_zero (h : (rootDir s 0).first = 65) : LiveEntry s 0 := by
  refine ⟨by decide, fun k hk => ?_, ?_⟩
  · rw [Nat.le_zero.1 hk, h]
    decide
  · rw [h]
    decide

theorem followFat_of_linked {fat : Bytes} {stop : Nat} (hstop : stop < 2 ∨ 0xFEF < stop)
    (cs : List Nat) (hrg : ∀ c ∈ cs, 2 ≤ c ∧ c ≤ 2848) (fuel start : Nat)
    (hlink : Linked (fatGet fat) stop start cs) (hfuel : cs.length < fuel) : followFat fat fuel start = (cs, stop) := by
  induction cs generalizing fuel start with
  | nil =>
    obtain ⟨fuel, rfl⟩ : ∃ f, fuel = f + 1 := ⟨fuel - 1, by omega⟩
    obtain rfl : start = stop := hlink
    rw [followFat, if_neg (by omega)]
  | cons c cs ih =>
    obtain ⟨fuel, rfl⟩ : ∃ f, fuel = f + 1 := ⟨fuel - 1, by omega⟩
    obtain ⟨rfl, hrs⟩ := hlink
    obtain ⟨h2, hc⟩ := hrg start List.mem_cons_self
    rw [List.length_cons] at hfuel
    rw [followFat, if_pos ⟨h2, by omega⟩, ih (fun c hc => hrg c (List.mem_cons_of_mem _ hc)) fuel
      (fatGet fat start) hrs (by omega)]

theorem Holds.chainOf_eq (hH : Holds (view s) ch files) (hj : (view s).Live j) :
    chainOf s j = (ch j, chainStop (rootDir s j).fileSize) := by
  have hch := hH.chain j hj
  have hclusters := length_le_of_clusters hch.nodup hch.range
  exact followFat_of_linked (chainStop_out _) (ch j) hch.range _ _ hch.linked (by omega)

/-- **The volume stays well formed.**  After a format and any calls, whatever they return: the chain
of a live entry visits just enough clusters for the file, each once and all of the volume, and ends
in 0xFFF, or the file is empty and has start cluster 0 and no chain; chains of different entries
share no cluster; names are not repeated; and behind the end marker there are only end markers. -/
theorem volume_well_formed {s0 s1 s : State} {drive : Int} {label : Option Name} {ops : List Op}
    (hok : ∀ d l, s0.ata.ok d l = true) (hformat : fat12Format s0 drive label = some (0, s1))
    (hrun : Run Step s1 ops s) :
    (∀ j, LiveEntry s j →
      (chainOf s j).1.length = ((rootDir s j).fileSize + 511) / 512 ∧ (chainOf s j).1.Nodup ∧
      (∀ c ∈ (chainOf s j).1, 2 ≤ c ∧ c ≤ 2848) ∧
      (0 < (rootDir s j).fileSize → (chainOf s j).2 = 0xFFF) ∧
      ((rootDir s j).fileSize = 0 → (rootDir s j).startCluster = 0)) ∧
    (∀ j k, LiveEntry s j → LiveEntry s k → j ≠ k → ∀ c ∈ (chainOf s j).1, c ∉ (chainOf s k).1) ∧
    (∀ j k, LiveEntry s j → LiveEntry s k → (rootDir s j).name = (rootDir s k).name → j = k) ∧
    ∀ j k, j < k → k < 224 → (rootDir s j).first = direntEnd → (rootDir s k).first = direntEnd := by
  obtain ⟨files, hF, ch, hH⟩ := run_stores (format_stores hok hformat).1 hrun
  refine ⟨fun j hj => ?_, fun j k hj hk hne => ?_, fun j k hj hk => hH.names j k hj.live hk.live,
    hH.ends⟩
  · have hch := hH.chain j hj.live
    rw [hH.chainOf_eq hj.live]
    refine ⟨hch.length, hch.nodup, hch.range, fun hpos => if_neg (by omega), fun h0 => ?_⟩
    have hnil : ch j = [] := List.eq_nil_of_length_eq_zero (by
      rw [hch.length]
      show ((rootDir s j).fileSize + 511) / 512 = 0
      omega)
    have hlink := hch.linked
    rw [hnil] at hlink
    exact hlink.trans (if_pos h0)
  · rw [hH.chainOf_eq hj.live, hH.chainOf_eq hk.live]
    exact hH.apart j k hj.live hk.live hne

theorem volume_well_formed_one_file : ∃ s1 s,
    fat12Format initial 0 none = some (0, s1) ∧
    Run Step s1 [.write [65] (fun _ => 7) 3] s ∧
    ∃ j, LiveEntry s j ∧ (chainOf s j).1.length = 1 ∧ (chainOf s j).2 = 0xFFF := by
  obtain ⟨s1, s, hfm, hw, -, hfi, hsz, -⟩ := initial_write
  have hrun : Run Step s1 [.write [65] (fun _ => 7) 3] s := .single ⟨0, hw⟩
  have hlv : LiveEntry s 0 := liveEntry_zero hfi
  obtain ⟨hlen, -, -, hend, -⟩ := (volume_well_formed (fun _ _ => rfl) hfm hrun).1 0 hlv
  rw [hsz] at hlen hend
  exact ⟨s1, s, hfm, hrun, 0, hlv, hlen, hend (by decide)⟩

/-- An empty file has an entry whose chain does not end in 0xFFF: there is none. -/
theorem empty_file_no_chain : ∃ s1 s,
    fat12Format initial 0 none = some (0, s1) ∧
    fat12Write s1 [65] (fun _ => 0) 0 = some (0, s) ∧
    ∃ j, LiveEntry s j ∧ (chainOf s j).1 = [] ∧ (chainOf s j).2 = 0 := by
  have h : ((fat12Format initial 0 none).bind fun r1 => (fat12Write r1.2 [65] (fun _ => 0) 0).map fun r2 =>
      (r1.1, r2.1, (rootDir r2.2 0).first, chainOf r2.2 0)) = some (0, 0, 65, [], 0) := by decide +kernel
  obtain ⟨⟨_, s1⟩, hfm, h⟩ := Option.bind_eq_some_iff.1 h
  obtain ⟨⟨_, s⟩, hwr, h⟩ := Option.map_eq_some_iff.1 h
  simp only [Prod.mk.injEq] at h
  obtain ⟨rfl, rfl, hfi, hch⟩ := h
  exact ⟨s1, s, hfm, hwr, 0, liveEntry_zero hfi, by rw [hch], by rw [hch]⟩

/-! ## A failed write -/

/-- **A failed write** loses no file but the one it was to replace: every other key reads as before,
and the key written reads as absent. -/
theorem failed_write_keeps_others {s0 s1 s s' : State} {drive : Int} {label : Option Name}
    {ops : List Op} {name : Name} {buf : Bytes} {size : UInt32}
    (hok : ∀ d l, s0.ata.ok d l = true) (hformat : fat12Format s0 drive label = some (0, s1))
    (hrun : Run Step s1 ops s) (hfail : fat12Write s name buf size = some (-1, s')) :
    (∀ other bufsz, nameTo83 other ≠ nameTo83 name →
      readAnswer s' other bufsz = readAnswer s other bufsz) ∧
    ∀ bufsz, readAnswer s' name bufsz = some (-1, []) := by
  obtain ⟨files, hS⟩ := run_stores (format_stores hok hformat).1 hrun
  have hex : exec s (.write name buf size) = some (-1, s') := hfail
  have hS' : Stores drive s' (update files (nameTo83 name) none) := hS.step hex
  refine ⟨fun other bufsz hne => ?_, fun bufsz => ?_⟩
  · rw [hS'.readAnswer_eq, hS.readAnswer_eq, update_of_ne hne]
  · rw [hS'.readAnswer_eq, update_self]
    rfl

theorem failed_write_keeps_others_full : ∃ s1 s s',
    fat12Format initial 0 none = some (0, s1) ∧
    Run Step s1 [.write [65] (fun _ => 7) 3] s ∧
    fat12Write s [66] (fun _ => 0) 0xFFFFFFFF = some (-1, s') ∧
    readAnswer s' [65] 4 = some (3, [7, 7, 7]) := by
  obtain ⟨s1, s, hfm, hw, -, -, -, hrd⟩ := initial_write
  have hrun : Run Step s1 [.write [65] (fun _ => 7) 3] s := .single ⟨0, hw⟩
  obtain ⟨files, hS⟩ := run_stores (format_stores (fun _ _ => rfl) hfm).1 hrun
  obtain ⟨s', hfa, -⟩ := write_too_large hS [66] (fun _ => 0) 0xFFFFFFFF (by decide) (by decide)
  refine ⟨s1, s, s', hfm, hrun, hfa, ?_⟩
  rw [(failed_write_keeps_others (fun _ _ => rfl) hfm hrun hfa).1 [65] 4 (by decide), hrd]

/-- A write that finds no room has already deleted the file it was to replace. -/
theorem failed_write_loses_file : ∃ s1 s s',
    fat12Format initial 0 none = some (0, s1) ∧
    fat12Write s1 [65] (fun _ => 7) 3 = some (0, s) ∧
    readAnswer s [65] 4 = some (3, [7, 7, 7]) ∧
    fat12Write s [65] (fun _ => 0) 0xFFFFFFFF = some (-1, s') ∧
    readAnswer s' [65] 4 = some (-1, []) := by
  obtain ⟨s1, s, hfm, hw, -, -, -, hrd⟩ := initial_write
  obtain ⟨files, hS⟩ := run_stores (format_stores (fun _ _ => rfl) hfm).1 (.single ⟨0, hw⟩ : Run Step s1 [.write [65] _ 3] s)
  obtain ⟨s', hfa, hS2⟩ := write_too_large hS [65] (fun _ => 0) 0xFFFFFFFF (by decide) (by decide)
  refine ⟨s1, s, s', hfm, hw, hrd, hfa, ?_⟩
  rw [hS2.readAnswer_eq, update_self]
  rfl

/-! ## The volume is on the disk -/

/-- A write or delete that returns 0 leaves no change of the table in memory only. -/
theorem Stores.clean (hS : Stores d s files) (hop : op.key ≠ none) (h : exec s op = some (0, s')) :
    s'.fatDirty = false := by
  cases op with
  | write name buf size =>
    rcases fat12Write_spec hS name buf size with ⟨s2, hw, -⟩ | ⟨s2, hw, hce, -⟩
    · have h' := hw.symm.trans h
      cases h'
    · have h' := hw.symm.trans h
      cases h'
      exact hce
  | delete name =>
    obtain ⟨hF, ch, hH⟩ := hS
    rcases fat12Delete_spec hF hH name with ⟨-, sec, hd⟩ | ⟨-, s2, hd, -, -, hce, -⟩
    · have h' := (congrArg some hd).symm.trans h
      cases h'
    · have h' := (congrArg some hd).symm.trans h
      cases h'
      exact hce
  | read name bufsz | list max => exact absurd rfl hop

theorem listAnswer_congr (hF : Floppy d s) (hF' : Floppy d s') (hata : s'.ata = s.ata) (max : Int) :
    listAnswer s' max = listAnswer s max := by
  obtain ⟨sec, hlist⟩ := fat12List_eq hF max
  obtain ⟨sec', hlist'⟩ := fat12List_eq hF' max
  have hdir : (view s').dir = (view s).dir := by
    funext j
    show sectorEntry (s'.ata.sector s'.drive (s'.rootStart + j / 16)) (j % 16) =
      sectorEntry (s.ata.sector s.drive (s.rootStart + j / 16)) (j % 16)
    rw [hata, hF'.drive, hF.drive, hF'.rootStart, hF.rootStart]
  unfold listAnswer
  rw [hlist, hlist', hdir]
  rcases scan (fun es : List Entry => decide ((es.length : Int) < max)) listBody
    (view s).dir 224 0 [] with es | ⟨i, es⟩ <;> rfl

/-- **Persistence.**  After a write or delete that returns 0, whatever earlier calls returned, both
copies of the table on the disk are the table in memory; mounting the drive again then leaves the
table, the geometry and every answer as they were. -/
theorem volume_persists {s0 s1 s s' : State} {drive : Int} {label : Option Name} {ops : List Op}
    {op : Op} (hok : ∀ d l, s0.ata.ok d l = true)
    (hformat : fat12Format s0 drive label = some (0, s1)) (hrun : Run Step s1 ops s)
    (hop : op.key ≠ none) (hexec : exec s op = some (0, s')) :
    FatOnDisk drive s'.ata s'.fat ∧
    ∃ s2, fat12Mount s' drive = some (0, s2) ∧
      (∀ x < 4608, s2.fat x = s'.fat x) ∧
      (s2.drive = s'.drive ∧ s2.mounted = s'.mounted ∧ s2.bpb = s'.bpb) ∧
      (s2.fatStart = s'.fatStart ∧ s2.rootStart = s'.rootStart ∧ s2.dataStart = s'.dataStart ∧
        s2.rootSectors = s'.rootSectors ∧ s2.totalClusters = s'.totalClusters) ∧
      (∀ name bufsz, readAnswer s2 name bufsz = readAnswer s' name bufsz) ∧
      ∀ max, listAnswer s2 max = listAnswer s' max := by
  obtain ⟨files, hS⟩ := run_stores (format_stores hok hformat).1 hrun
  have hS' := hS.step hexec
  have hce := hS.clean hop hexec
  obtain ⟨s2, hmount, hS2, hata, hfat⟩ := fat12Mount_spec hS' hce
  have hF := hS'.1
  have hF2 := hS2.1
  refine ⟨hF.synced hce, s2, hmount, hfat, ⟨?_, ?_, ?_⟩, ⟨?_, ?_, ?_, ?_, ?_⟩,
    fun name bufsz => ?_, listAnswer_congr hF hF2 hata⟩
  · rw [hF2.drive, hF.drive]
  · rw [hF2.mounted, hF.mounted]
  · rw [hF2.bpb, hF.bpb]
  · rw [hF2.fatStart, hF.fatStart]
  · rw [hF2.rootStart, hF.rootStart]
  · rw [hF2.dataStart, hF.dataStart]
  · rw [hF2.rootSectors, hF.rootSectors]
  · rw [hF2.totalClusters, hF.totalClusters]
  · rw [hS2.readAnswer_eq, hS'.readAnswer_eq]

theorem volume_persists_one_file : ∃ s1 s',
    fat12Format initial 0 none = some (0, s1) ∧
    exec s1 (.write [65] (fun _ => 7) 3) = some (0, s') ∧
    ∃ s2, fat12Mount s' 0 = some (0, s2) ∧ readAnswer s2 [65] 4 = some (3, [7, 7, 7]) := by
  obtain ⟨s1, s', hfm, hw, -, -, -, hfl⟩ := initial_write
  have hex : exec s1 (.write [65] (fun _ => 7) 3) = some (0, s') := hw
  obtain ⟨-, s2, hmount, -, -, -, hrd, -⟩ := volume_persists (fun _ _ => rfl) hfm .nil (by decide) hex
  exact ⟨s1, s', hfm, hw, s2, hmount, (hrd _ _).trans hfl⟩

end KumOS.Fat12
