import KumOS.Kstring

/-!
# `dns.c`: names

`encode_name` writes a host name as labels with their lengths in front.  The loop of `dns_resolve`
that skips the question of a response ends at the zero byte behind them.
-/

namespace KumOS.Dns

open Lib
open Fat12 (Name)

def dot : UInt8 := 46

/-- The loop of `encode_name`; `pos` is the length of what is written. -/
def encodeLoop : Nat → List UInt8 → Name → Option (List UInt8)
  | 0, _, _ => none
  | n + 1, out, p =>
    let label := p.takeWhile (· ≠ dot)
    if p = [] then some (out ++ [0])
    -- at the end of the name there is no dot to skip, and nothing is left either way
    else encodeLoop n (out ++ UInt8.ofNat label.length :: label) (p.drop (label.length + 1))

def encodeName (name : Name) : Option (List UInt8) := encodeLoop (kstrlen name + 1) [] (cstr name)

/-- The loop of `dns_resolve` over the question, for a response of `n` bytes. -/
def skipLoop (resp : Bytes) (n : Nat) : Nat → Nat → Option Nat
  | 0, _ => none
  | k + 1, rpos =>
    if n ≤ rpos ∨ resp rpos = 0 then some rpos
    else if resp rpos &&& 0xC0 = 0xC0 then some (rpos + 2)
    else skipLoop resp n k (rpos + (resp rpos).toNat + 1)

/-- The name with these labels, with a dot behind the last one or not. -/
def hostName (trailing : Bool) : List Name → Name
  | [] => []
  | l :: ls => l ++ if ls = [] ∧ trailing = false then [] else dot :: hostName trailing ls

/-- The labels of an encoded name. -/
def decodeName : Nat → List UInt8 → Option (List Name)
  | 0, _ | _, [] => none
  | n + 1, c :: out =>
    if c = 0 then some []
    else if out.length < c.toNat then none
    else (decodeName n (out.drop c.toNat)).map (out.take c.toNat :: ·)

/-- Labels of 1 to 63 bytes. -/
def Labels (ls : List Name) : Prop := ∀ l ∈ ls, l ≠ [] ∧ l.length ≤ 63 ∧ 0 ∉ l ∧ dot ∉ l

def wire (ls : List Name) : List UInt8 := (ls.flatMap fun l => UInt8.ofNat l.length :: l) ++ [0]

variable {ls : List Name} {t : Bool}

theorem wire_cons (l : Name) (ls : List Name) : wire (l :: ls) = UInt8.ofNat l.length :: (l ++ wire ls) := by
  simp [wire]

theorem Labels.tail {l : Name} (h : Labels (l :: ls)) : Labels ls := fun x hx => h x (List.mem_cons_of_mem _ hx)

/-- The length byte of a label. -/
theorem Labels.byte {l : Name} (h : Labels (l :: ls)) : (UInt8.ofNat l.length).toNat = l.length ∧
    UInt8.ofNat l.length ≠ 0 ∧ UInt8.ofNat l.length &&& 0xC0 ≠ 0xC0 := by
  obtain ⟨hne, hlen, -, -⟩ := h l List.mem_cons_self
  have hpos := List.length_pos_iff.2 hne
  have hall : ∀ n < 64, 0 < n → UInt8.ofNat n ≠ 0 ∧ UInt8.ofNat n &&& 0xC0 ≠ 0xC0 := by decide
  exact ⟨Nat.mod_eq_of_lt (by omega), hall _ (by omega) hpos⟩

section

variable (h : Labels ls)
include h

theorem encodeLoop_hostName (j : Nat) (out : List UInt8) :
    encodeLoop (j + ls.length + 1) out (hostName t ls) = some (out ++ wire ls) := by
  induction ls generalizing out with
  | nil => rfl
  | cons l ls ih =>
    obtain ⟨hne, -, -, hdot⟩ := h l List.mem_cons_self
    obtain ⟨rest, hnm, hrs, hdrop⟩ : ∃ rest, hostName t (l :: ls) = l ++ rest ∧
        rest.takeWhile (· ≠ dot) = [] ∧ rest.drop 1 = hostName t ls := by
      refine ⟨_, rfl, ?_, ?_⟩
      · split <;> simp
      · split
        · rename_i hla
          rw [hla.1]
          rfl
        · rfl
    have hlabel : (l ++ rest).takeWhile (· ≠ dot) = l := by
      have hne : ∀ c ∈ l, decide (c ≠ dot) = true := fun c hc => decide_eq_true fun he => hdot (he ▸ hc)
      rw [List.takeWhile_append_of_pos hne, hrs, List.append_nil]
    rw [hnm, encodeLoop, if_neg (by simp [hne]), hlabel, List.drop_append, List.drop_eq_nil_of_le (Nat.le_succ _),
      Nat.add_sub_cancel_left, hdrop, wire_cons]
    simpa [Nat.add_assoc] using ih h.tail (out ++ UInt8.ofNat l.length :: l)

theorem decodeName_wire (j : Nat) : decodeName (j + ls.length + 1) (wire ls) = some ls := by
  induction ls with
  | nil => rfl
  | cons l ls ih =>
    obtain ⟨hn, h0, -⟩ := h.byte
    rw [wire_cons, decodeName, if_neg h0, hn, List.length_append, if_neg (by omega), List.drop_left, List.take_left]
    exact congrArg (Option.map (l :: ·)) (ih h.tail)

theorem skipLoop_wire (j : Nat) {n : Nat} (before behind : List UInt8)
    (hn : before.length + (wire ls).length ≤ n) :
    skipLoop (.ofList (before ++ wire ls ++ behind)) n (j + ls.length + 1) before.length =
      some (before.length + (wire ls).length - 1) := by
  induction ls generalizing before with
  | nil =>
    rw [skipLoop, if_pos (.inr (by simp [wire, Bytes.ofList]))]
    rfl
  | cons l ls ih =>
    obtain ⟨hb, h0, hptr⟩ := h.byte
    have hbyte : Bytes.ofList (before ++ wire (l :: ls) ++ behind) before.length = UInt8.ofNat l.length := by
      simp [wire, Bytes.ofList]
    have hnx := ih h.tail (before ++ UInt8.ofNat l.length :: l)
    rw [wire_cons] at hn hbyte ⊢
    simp only [List.append_assoc, List.cons_append, List.length_append, List.length_cons] at hn hnx hbyte ⊢
    rw [skipLoop, hbyte, if_neg (not_or.2 ⟨by omega, h0⟩), if_neg hptr, hb, Nat.add_assoc before.length,
      ← Nat.add_assoc j, hnx (by omega)]
    congr 1
    omega

/-- Each label but the last one has a dot in the name and a length byte in the encoding. -/
theorem hostName_spec : 0 ∉ hostName t ls ∧ ls.length ≤ (hostName t ls).length ∧
    ls.length < (wire ls).length ∧ (wire ls).length ≤ (hostName t ls).length + 2 := by
  induction ls with
  | nil => simp [hostName, wire]
  | cons l ls ih =>
    obtain ⟨hne, -, h0, -⟩ := h l List.mem_cons_self
    obtain ⟨h1, h2, h3, h4⟩ := ih h.tail
    have hpos := List.length_pos_iff.2 hne
    rw [wire_cons, hostName]
    split
    · rename_i hla
      rw [hla.1]
      simp [wire, h0]
      omega
    · simp [h0, h1, dot]
      omega

/-- Names of labels round-trip, and the loop over the question ends at the zero byte of the name. -/
theorem names_round_trip : ∃ out, encodeName (hostName t ls) = some out ∧
    decodeName out.length out = some ls ∧ out.length ≤ (hostName t ls).length + 2 ∧
      ∀ before behind n, before.length + out.length ≤ n →
        skipLoop (.ofList (before ++ out ++ behind)) n n before.length = some (before.length + (out.length - 1)) ∧
        (before ++ out ++ behind)[before.length + (out.length - 1)]? = some 0 := by
  obtain ⟨h0, h1, h2, h3⟩ := hostName_spec h
  refine ⟨wire ls, ?_, ?_, h3, fun before behind n hn => ⟨?_, ?_⟩⟩
  · unfold encodeName kstrlen
    obtain ⟨j, hj⟩ := Nat.exists_eq_add_of_le' h1
    rw [cstr_eq_self h0, hj]
    exact encodeLoop_hostName h j []
  · obtain ⟨j, hj⟩ := Nat.exists_eq_add_of_le' h2
    rw [hj]
    exact decodeName_wire h j
  · obtain ⟨j, rfl⟩ := Nat.exists_eq_add_of_le' (show ls.length + 1 ≤ n by omega)
    have hskip := skipLoop_wire h j before behind hn
    rwa [Nat.add_sub_assoc (by omega)] at hskip
  · simp [wire]

end

theorem names_round_trip_two : Labels [[97], [98, 99]] ∧ encodeName [97, 46, 98, 99] = some [1, 97, 2, 98, 99, 0] ∧
    decodeName 6 [1, 97, 2, 98, 99, 0] = some [[97], [98, 99]] := by
  have hl : Labels [[97], [98, 99]] := by
    unfold Labels
    decide
  obtain ⟨out, hout, hdec, -⟩ := names_round_trip (t := false) hl
  cases hout
  exact ⟨hl, rfl, hdec⟩

end KumOS.Dns
