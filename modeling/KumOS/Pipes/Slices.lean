import KumOS.Pipes.Model

/-!
# What a slice of a call does to its pipe

The bytes between `tail` and `head` are the unread ones.  A slice of `pipe_write`
appends the bytes it stores to them, a slice of `pipe_read` removes those it takes
out from their front; neither changes the counters of open ends.
-/

namespace KumOS.Pipes

open Lib

variable {α : Type}
variable {out : Outcome} {p' : Pipe α}

structure RingOk (p : Pipe α) : Prop where
  head : p.head < 4096
  tail : p.tail < 4096

/-- The bytes stored and not yet read, oldest first. -/
def unread (p : Pipe α) : List α := ringList 4096 p.buf p.head p.tail

/-- Two states of a pipe with the same open ends. -/
structure SameEnds (p p' : Pipe α) : Prop where
  writers : p'.writers = p.writers
  readers : p'.readers = p.readers
  used : p'.used = p.used

theorem SameEnds.refl (p : Pipe α) : SameEnds p p := ⟨rfl, rfl, rfl⟩

section

variable {p : Pipe α}

/-! ## The ring -/

section

variable (h : RingOk p)
include h

theorem RingOk.length_le : (unread p).length ≤ 4095 := by
  have : ringCount 4096 p.head p.tail < 4096 := ringCount_lt h.head
  rw [unread, length_ringList]
  omega

theorem RingOk.avail : pipeAvail p = (unread p).length := by
  have h2 := h.tail
  rw [unread, length_ringList, ringCount, pipeAvail, u32]
  omega

theorem RingOk.free_eq_zero_iff : pipeFree p = 0 ↔ (unread p).length = 4095 := by
  have := h.length_le
  rw [pipeFree, h.avail]
  omega

theorem RingOk.empty_iff : p.head = p.tail ↔ unread p = [] := by
  rw [← ringCount_eq_zero_iff h.head h.tail, ← List.length_eq_zero_iff, unread, length_ringList]

theorem RingOk.put (x : α) : RingOk (p.put x) :=
  ⟨Nat.mod_lt _ (by omega), h.tail⟩

theorem RingOk.advance : RingOk p.advance := ⟨h.head, Nat.mod_lt _ (by omega)⟩

theorem RingOk.unread_put (hfr : pipeFree p ≠ 0) (x : α) : unread (p.put x) = unread p ++ [x] := by
  refine ringList_push h.head h.tail ?_ p.buf x
  have hle := h.length_le
  rw [Ne, h.free_eq_zero_iff] at hfr
  rw [unread, length_ringList] at hfr hle
  omega

theorem RingOk.unread_advance (hne : p.head ≠ p.tail) : unread p = p.buf p.tail :: unread p.advance :=
  ringList_pop h.head h.tail hne p.buf

end

theorem ringOk_cleared [Inhabited α] : RingOk (cleared : Pipe α) :=
  ⟨Nat.zero_lt_succ _, Nat.zero_lt_succ _⟩

theorem ringOk_fresh [Inhabited α] : RingOk (fresh : Pipe α) :=
  ⟨Nat.zero_lt_succ _, Nat.zero_lt_succ _⟩

theorem unread_cleared [Inhabited α] : unread (cleared : Pipe α) = [] :=
  ringList_self (Nat.zero_lt_succ _) _

theorem unread_fresh [Inhabited α] : unread (fresh : Pipe α) = [] :=
  ringList_self (Nat.zero_lt_succ _) _

/-! ## Closing an end -/

theorem release_ring (p : Pipe α) : p.release.buf = p.buf ∧ p.release.head = p.head ∧ p.release.tail = p.tail := by
  unfold Pipe.release
  split <;> exact ⟨rfl, rfl, rfl⟩

theorem RingOk.of_release (h : RingOk p) : RingOk p.release := by
  obtain ⟨-, hhd, htail⟩ := release_ring p
  exact ⟨hhd ▸ h.head, htail ▸ h.tail⟩

theorem unread_release (p : Pipe α) : unread p.release = unread p := by
  obtain ⟨hbuf, hhd, htail⟩ := release_ring p
  unfold unread
  rw [hbuf, hhd, htail]

theorem RingOk.closeRead (h : RingOk p) : RingOk p.closeRead := .of_release ⟨h.head, h.tail⟩

theorem RingOk.closeWrite (h : RingOk p) : RingOk p.closeWrite := .of_release ⟨h.head, h.tail⟩

theorem unread_closeRead (p : Pipe α) : unread p.closeRead = unread p := unread_release _

theorem unread_closeWrite (p : Pipe α) : unread p.closeWrite = unread p := unread_release _

/-! ## Slices -/

/-- A slice of `pipe_write` stores a prefix of what is left, and stops short of the end only when the
ring is full: it then returns if nobody can read any more, and yields otherwise. -/
theorem writeSlice_spec (h : RingOk p) (src : List α) (written : Nat) :
    ∃ out stored p', writeSlice src written p = (out, stored, p') ∧ RingOk p' ∧ SameEnds p p' ∧
      unread p' = unread p ++ stored ∧ stored <+: src ∧
      (out = .ret (i32 (written + stored.length)) ∧
          (stored = src ∨ pipeFree p' = 0 ∧ p'.readers = 0) ∨
        out = .yield (written + stored.length) ∧ stored.length < src.length ∧ pipeFree p' = 0 ∧
          p'.readers ≠ 0) := by
  induction src generalizing p written with
  | nil =>
    refine ⟨_, [], p, rfl, h, .refl p, (List.append_nil _).symm, List.prefix_rfl, .inl ⟨rfl, ?_⟩⟩
    exact .inl rfl
  | cons x xs ih =>
    by_cases hfu : pipeFree p = 0
    · by_cases hreaders : p.readers = 0
      · refine ⟨.ret (i32 written), [], p, ?_, h, .refl p, (List.append_nil _).symm,
          List.nil_prefix, .inl ⟨rfl, .inr ⟨hfu, hreaders⟩⟩⟩
        rw [writeSlice, if_pos hfu, if_pos hreaders]
      · refine ⟨.yield written, [], p, ?_, h, .refl p, (List.append_nil _).symm, List.nil_prefix,
          .inr ⟨rfl, Nat.succ_pos _, hfu, hreaders⟩⟩
        rw [writeSlice, if_pos hfu, if_neg hreaders]
    obtain ⟨out, stored, p', hrun, hok, hen, hun, hpre, hout⟩ := ih (h.put x) (written + 1)
    have hct : written + 1 + stored.length = written + (x :: stored).length := by
      rw [List.length_cons]
      omega
    rw [hct] at hout
    refine ⟨out, x :: stored, p', by rw [writeSlice, if_neg hfu, hrun], hok,
      ⟨hen.writers, hen.readers, hen.used⟩, ?_, (List.cons_prefix_cons).2 ⟨rfl, hpre⟩, ?_⟩
    · rw [hun, h.unread_put hfu, List.append_assoc]
      rfl
    · rcases hout with ⟨hret, hend⟩ | ⟨hyield, hlt, hstop⟩
      · refine .inl ⟨hret, hend.imp_left fun heq => ?_⟩
        rw [heq]
      · exact .inr ⟨hyield, Nat.succ_lt_succ hlt, hstop⟩

/-- A slice of `pipe_read` takes out the oldest bytes, and stops short of what was asked for only when
the ring is empty: it then returns if nobody can write any more, and yields otherwise. -/
theorem readSlice_spec (h : RingOk p) (n nread : Nat) :
    ∃ out taken p', readSlice n nread p = (out, taken, p') ∧ RingOk p' ∧ SameEnds p p' ∧
      unread p = taken ++ unread p' ∧ taken.length ≤ n ∧
      (out = .ret (i32 (nread + taken.length)) ∧
          (taken.length = n ∨ p'.head = p'.tail ∧ p'.writers = 0) ∨
        out = .yield (nread + taken.length) ∧ taken.length < n ∧ p'.head = p'.tail ∧
          p'.writers ≠ 0) := by
  induction n generalizing p nread with
  | zero =>
    exact ⟨_, [], p, rfl, h, .refl p, rfl, Nat.le_refl 0, .inl ⟨rfl, .inl rfl⟩⟩
  | succ n ih =>
    by_cases hem : p.head = p.tail
    · by_cases hwriters : p.writers = 0
      · refine ⟨.ret (i32 nread), [], p, ?_, h, .refl p, rfl, Nat.zero_le _,
          .inl ⟨rfl, .inr ⟨hem, hwriters⟩⟩⟩
        rw [readSlice, if_pos hem, if_pos hwriters]
      · refine ⟨.yield nread, [], p, ?_, h, .refl p, rfl, Nat.zero_le _,
          .inr ⟨rfl, Nat.succ_pos _, hem, hwriters⟩⟩
        rw [readSlice, if_pos hem, if_neg hwriters]
    obtain ⟨out, taken, p', hrun, hok, hen, hun, hlen, hout⟩ := ih h.advance (nread + 1)
    have hct : nread + 1 + taken.length = nread + (p.buf p.tail :: taken).length := by
      rw [List.length_cons]
      omega
    rw [hct] at hout
    refine ⟨out, p.buf p.tail :: taken, p', by rw [readSlice, if_neg hem, hrun], hok,
      ⟨hen.writers, hen.readers, hen.used⟩, ?_, Nat.succ_le_succ hlen, ?_⟩
    · rw [h.unread_advance hem, hun]
      rfl
    · rcases hout with ⟨hret, hend⟩ | ⟨hyield, hlt, hstop⟩
      · exact .inl ⟨hret, hend.imp_left fun heq => congrArg (· + 1) heq⟩
      · exact .inr ⟨hyield, Nat.succ_lt_succ hlt, hstop⟩

theorem writeSlice_fits (h : RingOk p) {src : List α} (written : Nat) (hfit : (unread p).length + src.length ≤ 4095) :
    ∃ p', writeSlice src written p = (.ret (i32 (written + src.length)), src, p') ∧ RingOk p' ∧
      SameEnds p p' ∧ unread p' = unread p ++ src := by
  obtain ⟨out, stored, p', hrun, hok, hen, hun, hpre, hout⟩ := writeSlice_spec h src written
  have hall : stored = src ∧ out = .ret (i32 (written + stored.length)) := by
    have hlen := congrArg List.length hun
    rw [List.length_append] at hlen
    rcases hout with ⟨hret, heq | ⟨hfu, -⟩⟩ | ⟨-, hlt, hfu, -⟩
    · exact ⟨heq, hret⟩
    · rw [hok.free_eq_zero_iff] at hfu
      exact ⟨hpre.eq_of_length_le (by omega), hret⟩
    · rw [hok.free_eq_zero_iff] at hfu
      omega
  obtain ⟨rfl, rfl⟩ := hall
  exact ⟨p', hrun, hok, hen, hun⟩

end

end KumOS.Pipes
