import KumOS.Vfs.Runs

/-!
# What a call leaves alone

A call touches the descriptor it is made on and the slot that descriptor stands for;
an open takes what was free.  All other open descriptors and slots in use stay as they
are.
-/

namespace KumOS.Vfs

open Lib
open Fat12 (Name)

variable {X : Type}
variable {d data r : Int} {dr : Driver X} {buf buf' : Bytes} {i len : Nat} {path : Name}
variable {flags : Flags} {c : Call} {k : Nat}

/-- The open descriptor that a call works on. -/
def Call.fd (s : State X) : Call → Option Nat
  | .vfsClose fd => s.fdOf fd
  | .vfsRead fd _ _ => s.fdOf fd
  | .vfsWrite fd _ _ => s.fdOf fd
  | .vfsDup2 _ newfd => s.fdOf newfd
  | _ => none

/-- The slot that a call works on. -/
def Call.ref (s : State X) (c : Call) : Ref :=
  match c.fd s with
  | some k => s.ref (s.fds k)
  | none => .none

/-- All slots in use are as before, but that of `ref`. -/
structure Spares (s : State X) (ref : Ref) (s' : State X) : Prop where
  mem : ∀ d : Nat, (s.mem.slots d).used = true → ref ≠ .mem d → s'.mem.slots d = s.mem.slots d
  disk : ∀ d : Nat, (s.disk.slots d).used = true → ref ≠ .disk d → s'.disk.slots d = s.disk.slots d

section

variable {s s' s'' : State X} {ref : Ref}

theorem Spares.of_eq (hmem : s'.mem.slots = s.mem.slots) (hdisk : s'.disk.slots = s.disk.slots) : Spares s ref s' :=
  ⟨fun _ _ _ => by rw [hmem], fun _ _ _ => by rw [hdisk]⟩

theorem Spares.refl (s : State X) (ref : Ref) : Spares s ref s := .of_eq rfl rfl

theorem Spares.setFd (h : Spares s ref s') (k : Nat) (e : Fd) : Spares s ref (s'.setFd k e) :=
  ⟨h.mem, h.disk⟩

theorem Spares.advance (h : Spares s ref s') (k : Nat) (n : Int) : Spares s ref (s'.advance k n) := by
  obtain ⟨pos, hav⟩ := advance_eq s' k n
  rw [hav]
  exact ⟨h.mem, h.disk⟩

theorem Looked.spares (h : Looked s s') (ref : Ref) : Spares s ref s' :=
  ⟨fun d _ _ => by rw [h.mem], fun d _ _ => by rw [h.slots]⟩

/-! ## Drivers -/

theorem Driver.open_spares (h : dr.open s path flags = some (data, s')) (ref : Ref) :
    Spares s ref s' ∧ (0 ≤ data → ∀ d : Nat, (dr.refOf data = .mem d → (s.mem.slots d).used = false) ∧
      (dr.refOf data = .disk d → (s.disk.slots d).used = false)) := by
  cases dr.open_changes h with
  | mem hopen =>
    have htakes := memVfsOpen_slots hopen
    refine ⟨⟨fun d hd _ => htakes.kept hd, fun _ _ _ => rfl⟩, fun hr d => ⟨fun heq => ?_, nofun⟩⟩
    obtain ⟨e, rfl, -, hfr, -⟩ := htakes.taken hr
    cases heq
    exact hfr
  | disk hopen =>
    have htakes := diskVfsOpen_slots hopen
    refine ⟨⟨fun _ _ _ => rfl, fun d hd _ => htakes.kept hd⟩, fun hr d => ⟨nofun, fun heq => ?_⟩⟩
    obtain ⟨e, rfl, -, hfr, -⟩ := htakes.taken hr
    cases heq
    exact hfr
  | dev v | other o ext => exact ⟨.of_eq rfl rfl, fun _ d => ⟨nofun, nofun⟩⟩

/-- Another slot than the one of `d` is not changed with it. -/
theorem update_slot_ne {S : Type} {slots : Nat → S} {used : Nat → Bool} {n j : Nat} {sl : S}
    (hd : slotOf used n d = some i) (hne : d ≠ j) : Function.update slots i sl j = slots j := by
  apply Function.update_of_ne
  rintro rfl
  exact hne (slotOf_eq_some_iff.1 hd).1

theorem spares_mem (hd : slotOf s.mem.used 16 d = some i) {sl : MemSlot} {fs : Fs.State} :
    Spares s (.mem d) { s with mem := ⟨Function.update s.mem.slots i sl, fs⟩ } :=
  ⟨fun _ _ hne => update_slot_ne hd fun heq => hne (congrArg Ref.mem heq), fun _ _ _ => rfl⟩

theorem spares_disk (hd : slotOf s.disk.used 8 d = some i) {sl : DiskSlot} {fat : Fat12.State} :
    Spares s (.disk d) { s with disk := ⟨Function.update s.disk.slots i sl, fat⟩ } :=
  ⟨fun _ _ _ => rfl, fun _ _ hne => update_slot_ne hd fun heq => hne (congrArg Ref.disk heq)⟩

theorem Driver.close_spares (h : dr.close s data = some s') : Spares s (dr.refOf data) s' := by
  cases dr.close_changes h with
  | mem hclo =>
    refine ⟨fun d _ hne => ?_, fun _ _ _ => rfl⟩
    subst hclo
    unfold memVfsClose
    split
    · apply Function.update_of_ne
      rintro rfl
      exact hne (congrArg Ref.mem (by omega))
    · rfl
  | disk hclo =>
    rcases diskVfsClose_cases hclo with ⟨-, rfl⟩ | ⟨i, fat, hd, rfl, -⟩
    · exact .refl s _
    · exact spares_disk hd
  | dev v | other o ext => exact .of_eq rfl rfl

theorem Driver.read_spares (h : dr.read s data buf len = some (r, buf', s')) : Spares s (dr.refOf data) s' := by
  cases dr.read_changes h with
  | mem hrd =>
    rcases memVfsRead_cases hrd with rfl | ⟨i, pos, hd, rfl⟩
    · exact .refl s _
    · exact spares_mem hd
  | disk hrd =>
    rcases diskVfsRead_cases hrd with rfl | ⟨i, sl, hd, rfl⟩
    · exact .refl s _
    · exact spares_disk hd
  | dev v | other o ext => exact .of_eq rfl rfl

theorem Driver.write_spares (h : dr.write s data buf len = some (r, s')) : Spares s (dr.refOf data) s' := by
  cases dr.write_changes h with
  | mem hwr =>
    rcases memVfsWrite_moves hwr with rfl | ⟨i, pos, fs, -, -, hd, -, rfl⟩
    · exact .refl s _
    · exact spares_mem hd
  | disk hwr =>
    rcases diskVfsWrite_moves hwr with rfl | ⟨i, n, hd, -, rfl⟩
    · exact .refl s _
    · exact spares_disk hd
  | dev v | other o ext => exact .of_eq rfl rfl

/-! ## Files -/

theorem Driver.read_files (h : dr.read s d buf len = some (r, buf', s')) :
    s'.mem.fs = s.mem.fs ∧ s'.disk.fat = s.disk.fat := by
  cases dr.read_changes h with
  | mem hrd => exact ⟨memVfsRead_fs hrd, rfl⟩
  | disk hrd =>
    rcases diskVfsRead_cases hrd with rfl | ⟨i, sl, -, rfl⟩
    · exact ⟨rfl, rfl⟩
    · exact ⟨rfl, rfl⟩
  | dev v | other o ext => exact ⟨rfl, rfl⟩

theorem advance_files (s : State X) (fd : Nat) (n : Int) :
    (s.advance fd n).mem = s.mem ∧ (s.advance fd n).disk = s.disk := by
  obtain ⟨pos, hav⟩ := advance_eq s fd n
  rw [hav]
  exact ⟨rfl, rfl⟩

theorem Driver.refOf_ne_mem (h : dr ≠ .mem) (d e : Int) : dr.refOf d ≠ .mem e := by
  cases dr with
  | mem => exact absurd rfl h
  | disk | dev | other o => exact nofun

/-- The other drivers do not touch the files when they write. -/
theorem Driver.write_files (hne : dr ≠ .mem) (h : dr.write s d buf len = some (r, s')) :
    s'.mem.fs = s.mem.fs ∧ s'.disk.fat = s.disk.fat := by
  cases dr.write_changes h with
  | mem _ => exact absurd rfl hne
  | disk hwr =>
    rcases diskVfsWrite_moves hwr with rfl | ⟨i, n, -, -, rfl⟩
    · exact ⟨rfl, rfl⟩
    · exact ⟨rfl, rfl⟩
  | dev v | other o ext => exact ⟨rfl, rfl⟩

/-- Closing does not touch the files of `/mem`. -/
theorem Driver.close_fs (h : dr.close s d = some s') : s'.mem.fs = s.mem.fs := by
  cases dr.close_changes h with
  | mem hclo =>
    subst hclo
    exact memVfsClose_fs s.mem d
  | disk _ => rfl
  | dev v => rfl
  | other o ext => rfl

theorem vfsClose_fs {fd : Int} (h : vfsClose s fd = some (r, s')) : s'.mem.fs = s.mem.fs := by
  rcases vfsClose_cases h with ⟨-, rfl⟩ | ⟨k, -, ⟨-, pipes, rfl⟩ | ⟨dr, s1, -, -, hclo, rfl⟩⟩
  · rfl
  · rfl
  · have hfs := dr.close_fs hclo
    exact hfs

theorem vfsPipe_mem (s : State X) (fds : Int × Int) : (vfsPipe s fds).2.2.mem = s.mem := by
  cases hsl : Pipes.freeSlot s.pipes with
  | none => rw [vfsPipe_no_slot hsl]
  | some i =>
    cases hfd : allocFd s with
    | none => rw [vfsPipe_no_fd hsl hfd]
    | some fd =>
      rw [vfsPipe_done hsl hfd]
      rfl

theorem vfsRead_fs {fd : Int} {len : UInt32} (h : vfsRead s fd buf len = some (r, buf', s')) :
    s'.mem.fs = s.mem.fs := by
  rcases vfsRead_cases h with ⟨pipes, rfl⟩ | ⟨k, dr, s1, -, -, -, hrd, rfl⟩
  · rfl
  · rw [(advance_files s1 k r).1]
    exact (dr.read_files hrd).1

/-! ## Calls -/

theorem vfsOpen_spares (h : vfsOpen s path flags = some (r, s')) (ref : Ref) :
    Spares s ref s' ∧ ∀ k, (s.fds k).used = true → s'.fds k = s.fds k := by
  obtain ⟨m, s1, -, hlk, hcs⟩ := vfsOpen_cases h
  have h1 := hlk.spares ref
  rcases hcs with ⟨-, -, rfl⟩ | ⟨midx, rest, dr, data, s2, -, -, hdv, hend⟩
  · exact ⟨h1, fun k _ => congrFun hlk.fds k⟩
  obtain ⟨h2, hfs⟩ := dr.open_spares hdv ref
  have hfds2 : s2.fds = s.fds := (dr.open_spec hdv).1.fds.trans hlk.fds
  have hused1 : ∀ d, (s.mem.slots d).used = true → (s1.mem.slots d).used = true := by
    intro d hd
    rw [hlk.mem]
    exact hd
  have hused2 : ∀ d, (s.disk.slots d).used = true → (s1.disk.slots d).used = true := by
    intro d hd
    rw [hlk.slots]
    exact hd
  have h12 : Spares s ref s2 := by
    refine ⟨fun d hd hne => ?_, fun d hd hne => ?_⟩
    · rw [h2.mem d (hused1 d hd) hne, h1.mem d hd hne]
    · rw [h2.disk d (hused2 d hd) hne, h1.disk d hd hne]
  rcases hend with ⟨-, -, rfl⟩ | ⟨hpos, hfinish⟩
  · exact ⟨h12, fun k _ => congrFun hfds2 k⟩
  rcases finishOpen_cases hfinish with ⟨-, -, hclo⟩ | ⟨fd, hfd, -, rfl⟩
  · -- the slot that is closed again was not in use before
    have h3 := dr.close_spares hclo
    refine ⟨⟨fun d hd hne => ?_, fun d hd hne => ?_⟩, fun k _ => ?_⟩
    · have hd1 := hused1 d hd
      have hd2 : (s2.mem.slots d).used = true := by
        rw [h12.mem d hd hne]
        exact hd
      have hot : dr.refOf data ≠ .mem d := by
        intro heq
        rw [(hfs hpos d).1 heq] at hd1
        cases hd1
      rw [h3.mem d hd2 hot, h12.mem d hd hne]
    · have hd1 := hused2 d hd
      have hd2 : (s2.disk.slots d).used = true := by
        rw [h12.disk d hd hne]
        exact hd
      have hot : dr.refOf data ≠ .disk d := by
        intro heq
        rw [(hfs hpos d).2 heq] at hd1
        cases hd1
      rw [h3.disk d hd2 hot, h12.disk d hd hne]
    · rw [(dr.close_spec hclo).1.fds, hfds2]
  · refine ⟨h12.setFd _ _, fun k hk => ?_⟩
    obtain ⟨-, -, hfr⟩ := allocFd_spec hfd
    have hne : k ≠ fd := by
      rintro rfl
      unfold State.fdUsed at hfr
      rw [hfds2, hk] at hfr
      cases hfr
    rw [setFd_ne _ _ hne, hfds2]

theorem Call.ref_of_fd {s : State X} (h : c.fd s = some k) : c.ref s = s.ref (s.fds k) := by
  unfold Call.ref
  rw [h]

theorem vfsClose_spares {fd : Int} (h : vfsClose s fd = some (r, s')) :
    Spares s ((Call.vfsClose fd).ref s) s' ∧ ∀ k, s.fdOf fd ≠ some k → s'.fds k = s.fds k := by
  rcases vfsClose_cases h with ⟨-, rfl⟩ | ⟨j, hj, hcs⟩
  · exact ⟨.refl s' _, fun _ _ => rfl⟩
  have hne : ∀ k, s.fdOf fd ≠ some k → k ≠ j := by
    rintro k hk rfl
    exact hk hj
  rw [Call.ref_of_fd (c := .vfsClose fd) hj]
  rcases hcs with ⟨-, pipes, rfl⟩ | ⟨dr, s1, hpp, hdr, hclo, rfl⟩
  · exact ⟨.of_eq rfl rfl, fun k hk => setFd_ne _ _ (hne k hk)⟩
  · rw [State.ref_of_driver hdr hpp]
    refine ⟨(dr.close_spares hclo).setFd _ _, fun k hk => ?_⟩
    rw [setFd_ne _ _ (hne k hk), (dr.close_spec hclo).1.fds]

theorem advance_ne (s : State X) {fd : Nat} (n : Int) (h : k ≠ fd) : (s.advance fd n).fds k = s.fds k := by
  unfold State.advance
  split
  · exact setFd_ne _ _ h
  · rfl

theorem vfsRead_spares {fd : Int} {len : UInt32} (h : vfsRead s fd buf len = some (r, buf', s')) :
    Spares s ((Call.vfsRead fd buf len).ref s) s' ∧ ∀ k, s.fdOf fd ≠ some k → s'.fds k = s.fds k := by
  rcases vfsRead_cases h with ⟨pipes, rfl⟩ | ⟨j, dr, s1, hj, hpp, hdr, hrd, rfl⟩
  · exact ⟨.of_eq rfl rfl, fun _ _ => rfl⟩
  rw [Call.ref_of_fd (c := .vfsRead fd buf len) hj, State.ref_of_driver hdr hpp]
  refine ⟨(dr.read_spares hrd).advance _ _, fun k hk => ?_⟩
  have hne : k ≠ j := by
    rintro rfl
    exact hk hj
  rw [advance_ne _ _ hne, (dr.read_changes hrd).sameTables.fds]

theorem vfsWrite_spares {fd : Int} {len : UInt32} (h : vfsWrite s fd buf len = some (r, s')) :
    Spares s ((Call.vfsWrite fd buf len).ref s) s' ∧
      ∀ k, s.fdOf fd ≠ some k → s'.fds k = s.fds k := by
  rcases vfsWrite_cases h with ⟨-, pipes, rfl⟩ | ⟨j, dr, s1, hj, hpp, hdr, hwr, rfl⟩
  · exact ⟨.of_eq rfl rfl, fun _ _ => rfl⟩
  rw [Call.ref_of_fd (c := .vfsWrite fd buf len) hj, State.ref_of_driver hdr hpp]
  refine ⟨(dr.write_spares hwr).advance _ _, fun k hk => ?_⟩
  have hne : k ≠ j := by
    rintro rfl
    exact hk hj
  rw [advance_ne _ _ hne, (dr.write_changes hwr).sameTables.fds]

theorem vfsUnlink_spares (h : vfsUnlink s path = some (r, s')) (ref : Ref) : Spares s ref s' ∧ s'.fds = s.fds := by
  rcases vfsUnlink_cases h with rfl | ⟨dr, rest, hdv⟩
  · exact ⟨.refl s' ref, rfl⟩
  have hchanges := dr.unlink_changes hdv
  refine ⟨?_, hchanges.sameTables.fds⟩
  cases hchanges with
  | mem hmem =>
    subst hmem
    exact .of_eq rfl rfl
  | disk hdk =>
    subst hdk
    exact .of_eq rfl rfl
  | dev v | other o ext => exact .of_eq rfl rfl

theorem vfsPipe_spares (s : State X) (fds : Int × Int) (ref : Ref) :
    Spares s ref (vfsPipe s fds).2.2 ∧
      ∀ k, (s.fds k).used = true → (vfsPipe s fds).2.2.fds k = s.fds k := by
  cases hsl : Pipes.freeSlot s.pipes with
  | none =>
    rw [vfsPipe_no_slot hsl]
    exact ⟨.of_eq rfl rfl, fun _ _ => rfl⟩
  | some i =>
    cases hfd : allocFd s with
    | none =>
      rw [vfsPipe_no_fd hsl hfd]
      exact ⟨.of_eq rfl rfl, fun _ _ => rfl⟩
    | some fd =>
      rw [vfsPipe_done hsl hfd]
      refine ⟨.of_eq rfl rfl, fun k hk => ?_⟩
      obtain ⟨-, -, hfr⟩ := allocFd_spec hfd
      have hne : k ≠ fd := by
        rintro rfl
        unfold State.fdUsed at hfr
        rw [hk] at hfr
        cases hfr
      exact setFd_ne _ _ hne

theorem vfsDup2_spares {oldfd newfd : Int} (h : vfsDup2 s oldfd newfd = some (r, s')) :
    Spares s ((Call.vfsDup2 oldfd newfd).ref s) s' ∧
      ∀ k, (s.fds k).used = true → s.fdOf newfd ≠ some k → s'.fds k = s.fds k := by
  rcases vfsDup2_cases h with ⟨-, -, rfl⟩ | ⟨old, new, -, rfl, hlt, -, hcs⟩
  · exact ⟨.refl s' _, fun _ _ _ => rfl⟩
  rcases hcs with ⟨hfr, rfl⟩ | ⟨hus, r1, s1, hclo, rfl⟩
  · refine ⟨.of_eq rfl rfl, fun k hk _ => ?_⟩
    have hne : k ≠ new := by
      rintro rfl
      unfold State.fdUsed at hfr
      rw [hk] at hfr
      cases hfr
    exact setFd_ne _ _ hne
  obtain ⟨hspares, hfds⟩ := vfsClose_spares hclo
  refine ⟨hspares.setFd _ _, fun k hk hne => ?_⟩
  have hkn : k ≠ new := by
    rintro rfl
    exact hne (slotOf_eq_some_iff.2 ⟨rfl, hlt, hus⟩)
  rw [setFd_ne _ _ hkn, hfds k hne]

/-- A call leaves all open descriptors and all slots in use but those it is made on. -/
theorem call_spares (h : call s c = some (r, s')) :
    Spares s (c.ref s) s' ∧
      ∀ k, (s.fds k).used = true → c.fd s ≠ some k → s'.fds k = s.fds k := by
  cases c with
  | vfsOpen path flags =>
    obtain ⟨hspares, hfds⟩ := vfsOpen_spares h ((Call.vfsOpen path flags).ref s)
    exact ⟨hspares, fun k hk _ => hfds k hk⟩
  | vfsClose fd =>
    obtain ⟨hspares, hfds⟩ := vfsClose_spares h
    exact ⟨hspares, fun k _ hne => hfds k hne⟩
  | vfsRead fd buf len =>
    obtain ⟨⟨n, b, s1⟩, hrd, heq⟩ := Option.map_eq_some_iff.1 h
    cases heq
    obtain ⟨hspares, hfds⟩ := vfsRead_spares hrd
    exact ⟨hspares, fun k _ hne => hfds k hne⟩
  | vfsWrite fd buf len =>
    obtain ⟨hspares, hfds⟩ := vfsWrite_spares h
    exact ⟨hspares, fun k _ hne => hfds k hne⟩
  | vfsStat path =>
    obtain ⟨⟨st, s1⟩, hstat, heq⟩ := Option.map_eq_some_iff.1 h
    cases heq
    have hlk := vfsStat_looked hstat
    exact ⟨hlk.spares _, fun k _ _ => congrFun hlk.fds k⟩
  | vfsUnlink path =>
    obtain ⟨hspares, hfds⟩ := vfsUnlink_spares h ((Call.vfsUnlink path).ref s)
    exact ⟨hspares, fun k _ _ => congrFun hfds k⟩
  | vfsPipe =>
    cases h
    obtain ⟨hspares, hfds⟩ := vfsPipe_spares s (0, 0) (Call.vfsPipe.ref s)
    exact ⟨hspares, fun k hk _ => hfds k hk⟩
  | vfsDup2 oldfd newfd =>
    obtain ⟨hspares, hfds⟩ := vfsDup2_spares h
    exact ⟨hspares, hfds⟩
  | fsCreate name data exec | fsWrite name data | fat12 op | fat12Format drive label =>
    obtain ⟨p, -, heq⟩ := Option.map_eq_some_iff.1 h
    cases heq
    exact ⟨.of_eq rfl rfl, fun _ _ _ => rfl⟩
  | fsDelete name =>
    cases h
    exact ⟨.of_eq rfl rfl, fun _ _ _ => rfl⟩

end

end KumOS.Vfs
