import Mathlib.Data.Nat.Digits.Defs
import KumOS.Procfs.Model

/-!
# The kernel log

`buf_append` writes round the buffer, and `dmesg_read` finds the oldest byte from the
counters: a read gives the last 16384 bytes that were appended (`log_keeps_latest`).
`dmesg_log` writes its digits backwards into `tmp[8]` (`log_line_iff`).
-/

namespace KumOS.Procfs

open Lib Fat12
open Function (update update_of_ne)

def dmesgInit : Dmesg := ⟨fun _ => 0, 0, 0⟩

/-- One round of the loop in `buf_append`. -/
def Dmesg.put (d : Dmesg) (c : UInt8) : Dmesg := ⟨update d.buf (d.head.toNat % dmesgBuf) c, d.head + 1, d.count + 1⟩

def bufAppend (d : Dmesg) (s : Name) : Dmesg := (cstr s).foldl Dmesg.put d

/-- `dmesg_read`: the result, and the caller's buffer. -/
def dmesgReadTo (d : Dmesg) (buf : Bytes) (sz : UInt32) : Int × Bytes :=
  let text := dmesgRead d sz.toNat
  (text.length, buf.copy 0 (.ofList (text ++ [0])) (text.length + 1))

/-- `text` has been appended since `dmesg_init`. -/
structure Logged (d : Dmesg) (text : Name) : Prop where
  head : d.head.toNat = text.length
  count : d.count.toNat = text.length
  buf : ∀ i < text.length, text.length ≤ i + dmesgBuf → d.buf (i % dmesgBuf) = text.getD i 0

theorem Logged.put {d : Dmesg} {text : Name} (h : Logged d text) (hlt : text.length + 1 < 2 ^ 32) (c : UInt8) :
    Logged (d.put c) (text ++ [c]) := by
  have hnx : ∀ n : UInt32, n.toNat = text.length → (n + 1).toNat = (text ++ [c]).length := by
    intro n hn
    rw [UInt32.toNat_add, hn, List.length_append]
    exact Nat.mod_eq_of_lt hlt
  refine ⟨hnx _ h.head, hnx _ h.count, fun i hi hin => ?_⟩
  rw [List.length_append, List.length_singleton] at hi hin
  unfold dmesgBuf at hin
  show update d.buf (d.head.toNat % dmesgBuf) c (i % dmesgBuf) = _
  rw [h.head]
  by_cases hla : i = text.length
  · simp [hla]
  · -- the byte written last is in another slot
    rw [update_of_ne (by unfold dmesgBuf; omega), h.buf i (by omega) (by unfold dmesgBuf; omega),
      List.getD_append _ _ _ _ (by omega)]

theorem Logged.append {d : Dmesg} {text : Name} (h : Logged d text) (s : Name)
    (hlt : text.length + s.length < 2 ^ 32) : Logged (s.foldl Dmesg.put d) (text ++ s) := by
  induction s generalizing d text with
  | nil => simpa using h
  | cons c s ih =>
    rw [List.length_cons] at hlt
    have := ih (h.put (by omega) c) (by rw [List.length_append, List.length_singleton]; omega)
    rwa [List.append_assoc] at this

theorem Logged.read {d : Dmesg} {text : Name} (h : Logged d text) (sz : Nat) (hsz : 0 < sz) :
    dmesgRead d sz = (text.drop (text.length - dmesgBuf)).take (sz - 1) := by
  unfold dmesgRead
  rw [h.count, h.head]
  refine List.ext_getElem ?_ fun i hi hi' => ?_
  · simp only [List.length_map, List.length_range, List.length_take, List.length_drop]
    split <;> split <;> omega
  · simp only [List.length_take, List.length_drop] at hi'
    rw [List.getElem_map, List.getElem_range, List.getElem_take, List.getElem_drop, ← List.getD_eq_getElem _ 0,
      ← h.buf _ (by omega) (by omega)]
    unfold dmesgBuf at hi' ⊢
    refine congrArg d.buf ?_
    split <;> omega

/-- **The log keeps the latest bytes.** -/
theorem log_keeps_latest (ss : List Name) (hlen : (ss.map cstr).flatten.length < 2 ^ 32) (buf : Bytes) (sz : UInt32)
    (hsz : 0 < sz.toNat) {text : Name}
    (htext : text = (ss.map cstr).flatten.drop ((ss.map cstr).flatten.length - 16384)) :
    text.length = min (ss.map cstr).flatten.length 16384 ∧
    (dmesgReadTo (ss.foldl bufAppend dmesgInit) buf sz).1 = (min text.length (sz.toNat - 1) : Nat) ∧
    (dmesgReadTo (ss.foldl bufAppend dmesgInit) buf sz).2.toList (min text.length (sz.toNat - 1) + 1) =
      text.take (sz.toNat - 1) ++ [0] := by
  have hlog : Logged (ss.foldl bufAppend dmesgInit) (ss.map cstr).flatten := by
    have h0 : Logged dmesgInit [] := ⟨rfl, rfl, fun i hi => absurd hi (Nat.not_lt_zero i)⟩
    have h := h0.append (ss.map cstr).flatten (by rwa [List.length_nil, Nat.zero_add])
    rwa [List.foldl_flatten, List.foldl_map] at h
  have hrd := hlog.read sz.toNat hsz
  unfold dmesgBuf at hrd
  rw [← htext] at hrd
  have hcut : (text.take (sz.toNat - 1)).length = min text.length (sz.toNat - 1) := by
    rw [List.length_take, Nat.min_comm]
  refine ⟨by rw [htext, List.length_drop]; omega, ?_, ?_⟩
  · rw [dmesgReadTo, hrd, hcut]
  · have hstored := Bytes.toList_copy_ofList (m := buf) (text.take (sz.toNat - 1) ++ [0])
    rw [List.length_append, List.length_singleton, hcut] at hstored
    rw [dmesgReadTo, hrd, hcut]
    exact hstored

/-- One byte more than the ring holds: the first is gone. -/
theorem log_keeps_latest_cut :
    (dmesgReadTo ([75 :: List.replicate 16383 117, [109]].foldl bufAppend dmesgInit) (fun _ => 7) 16385).2.toList 16385 =
      List.replicate 16383 117 ++ [109, 0] := by
  have hany : ∀ u : Name, u.length = 16383 → 0 ∉ u →
      (dmesgReadTo ([75 :: u, [109]].foldl bufAppend dmesgInit) (fun _ => 7) 16385).2.toList 16385 = u ++ [109, 0] := by
    intro u hlen hne
    have hflat : (([75 :: u, [109]] : List Name).map cstr).flatten = 75 :: (u ++ [109]) := by
      rw [List.map_cons, cstr_eq_self (List.not_mem_cons_of_ne_of_not_mem (by decide) hne)]
      rfl
    have hread := (log_keeps_latest [75 :: u, [109]] (by rw [hflat]; simp [hlen]) (fun _ => 7) 16385 (by decide)
      (show u ++ [109] = _ by rw [hflat]; simp [hlen])).2.2
    have hsz : (16385 : UInt32).toNat - 1 = 16384 := by decide
    have hall : (u ++ [109]).length = 16384 := by simp [hlen]
    rw [hsz, hall, Nat.min_self, List.take_of_length_le (Nat.le_of_eq hall), List.append_assoc] at hread
    simpa only [Nat.reduceAdd, List.cons_append, List.nil_append] using hread
  exact hany _ List.length_replicate fun h0 => absurd (List.eq_of_mem_replicate h0) (by decide)

/-! ## Timestamps -/

/-- The digit loop of `dmesg_log`: the indices of `tmp` stored to, from `i` downwards, and the text behind. -/
def tmpLoop (v : Nat) (i : Int) (stores : List Int) (text : Name) : List Int × Name :=
  if v = 0 then (stores, text) else tmpLoop (v / 10) (i - 1) (i :: stores) (UInt8.ofNat (48 + v % 10) :: text)

def tmpDigits (v : Nat) (stores : List Int) : List Int × Name :=
  if v = 0 then (6 :: stores, [48]) else tmpLoop v 6 stores []

/-- `dmesg_log` at 100 Hz: the indices of `tmp` stored to, and the log. -/
def dmesgLog (d : Dmesg) (ticks : UInt32) (msg : Name) : List Int × Dmesg :=
  let sec := tmpDigits (ticks.toNat / 100) [7]
  let ms := ticks.toNat % 100 * 10
  let frac := tmpDigits ms sec.1
  let d := bufAppend (bufAppend (bufAppend d (ascii "[")) sec.2) (ascii ".")
  let d := if ms < 100 then bufAppend d (ascii "0") else d
  let d := if ms < 10 then bufAppend d (ascii "0") else d
  let d := bufAppend (bufAppend (bufAppend d frac.2) (ascii "] ")) msg
  (frac.1, if msg.getD (kstrlen msg - 1) 0 ≠ 10 then bufAppend d [10] else d)

def digit (d : Nat) : UInt8 := UInt8.ofNat (48 + d)

/-- The decimal numeral, without leading zeros. -/
def decimal (n : Nat) : Name := if n = 0 then [48] else ((Nat.digits 10 n).map digit).reverse

/-- What a call should append. -/
def logLine (ticks : Nat) (msg : Name) : Name :=
  ascii "[" ++ decimal (ticks / 100) ++ ascii "." ++ [digit (ticks % 100 / 10), digit (ticks % 10), 48] ++ ascii "] " ++
    cstr msg ++ if (cstr msg).getLast? = some 10 then [] else [10]

/-- An index of `tmp[8]`. -/
def InTmp (i : Int) : Prop := 0 ≤ i ∧ i ≤ 7

theorem tmpLoop_spec (v : Nat) (i : Int) (hi : i ≤ 7) (stores : List Int) (text : Name) :
    (tmpLoop v i stores text).2 = ((Nat.digits 10 v).map digit).reverse ++ text ∧
      ((∀ x ∈ (tmpLoop v i stores text).1, InTmp x) ↔ (∀ x ∈ stores, InTmp x) ∧ v < 10 ^ (i + 1).toNat) := by
  induction v using Nat.strongRecOn generalizing i stores text with
  | ind v ih =>
    rw [tmpLoop]
    by_cases hv : v = 0
    · simp [hv]
    · obtain ⟨htext, hin⟩ := ih (v / 10) (by omega) (i - 1) (by omega) (i :: stores) (digit (v % 10) :: text)
      rw [if_neg hv, Nat.digits_def' (by decide) (Nat.pos_of_ne_zero hv)]
      refine ⟨?_, hin.trans ?_⟩
      · rw [List.map_cons, List.reverse_cons, List.append_assoc]
        exact htext
      · by_cases h0 : 0 ≤ i
        · have hpow : (i + 1).toNat = i.toNat + 1 := by omega
          rw [hpow, Nat.pow_succ, Nat.div_lt_iff_lt_mul (by decide)]
          simp [InTmp, h0, hi]
        · have hpow : (i + 1).toNat = 0 := by omega
          rw [hpow]
          simp [InTmp, h0, hv]

theorem tmpDigits_spec (v : Nat) (stores : List Int) : (tmpDigits v stores).2 = decimal v ∧
    ((∀ x ∈ (tmpDigits v stores).1, InTmp x) ↔ (∀ x ∈ stores, InTmp x) ∧ v < 10 ^ 7) := by
  unfold tmpDigits decimal
  by_cases hv : v = 0
  · simp [hv, InTmp]
  · rw [if_neg hv, if_neg hv]
    obtain ⟨htext, hin⟩ := tmpLoop_spec v 6 (by decide) stores []
    exact ⟨htext.trans (List.append_nil _), hin⟩

theorem cstr_decimal (n : Nat) : cstr (decimal n) = decimal n := by
  refine cstr_eq_self fun h0 => ?_
  unfold decimal at h0
  split at h0
  · simp at h0
  · obtain ⟨d, hd, he⟩ := List.mem_map.1 (List.mem_reverse.1 h0)
    have hlt := Nat.digits_lt_base (by decide) hd
    have := congrArg UInt8.toNat he
    rw [digit, UInt8.toNat_ofNat', UInt8.toNat_zero] at this
    omega

theorem millis (t : Nat) : (if t % 100 * 10 < 100 then [48] else []) ++ (if t % 100 * 10 < 10 then [48] else []) ++
    decimal (t % 100 * 10) = [digit (t % 100 / 10), digit (t % 10), 48] := by
  have hall : ∀ r < 100, (if r * 10 < 100 then [48] else []) ++ (if r * 10 < 10 then [48] else []) ++
      decimal (r * 10) = [digit (r / 10), digit (r % 10), 48] := by
    decide +kernel
  have := hall (t % 100) (Nat.mod_lt _ (by decide))
  rwa [Nat.mod_mod_of_dvd t (by decide)] at this

theorem last_byte {msg : Name} (h : cstr msg ≠ []) : msg.getD (kstrlen msg - 1) 0 ≠ 10 ↔ (cstr msg).getLast? ≠ some 10 := by
  obtain ⟨rest, hrest⟩ : cstr msg <+: msg := List.takeWhile_prefix _
  have hlt : kstrlen msg - 1 < (cstr msg).length := Nat.sub_lt (List.length_pos_iff.2 h) (by decide)
  nth_rewrite 1 [← hrest]
  rw [List.getD_append _ _ _ _ hlt, List.getLast?_eq_getElem?, List.getD_eq_getElem?_getD]
  show (cstr msg)[kstrlen msg - 1]?.getD 0 ≠ 10 ↔ (cstr msg)[kstrlen msg - 1]? ≠ some 10
  rw [List.getElem?_eq_getElem hlt]
  simp

theorem dmesgLog_text (d : Dmesg) (ticks : UInt32) {msg : Name} (hmsg : cstr msg ≠ []) :
    (dmesgLog d ticks msg).2 = (logLine ticks.toNat msg).foldl Dmesg.put d := by
  have hput : ∀ l s, bufAppend (l.foldl Dmesg.put d) s = (l ++ cstr s).foldl Dmesg.put d :=
    fun l s => List.foldl_append.symm
  have hif : ∀ (p : Prop) [Decidable p] l s, (if p then bufAppend (l.foldl Dmesg.put d) s else l.foldl Dmesg.put d) =
      (l ++ if p then cstr s else []).foldl Dmesg.put d := by
    intro p _ l s
    split
    · exact hput l s
    · rw [List.append_nil]
  have hfirst : bufAppend d (ascii "[") = (ascii "[").foldl Dmesg.put d := rfl
  have hdot : cstr (ascii ".") = ascii "." := rfl
  have hzero : cstr (ascii "0") = [48] := rfl
  have hclose : cstr (ascii "] ") = ascii "] " := rfl
  have hnl : cstr [10] = [10] := rfl
  unfold dmesgLog
  dsimp only
  rw [hfirst, hput, hput, hif, hif, hput, hput, hput, hif, (tmpDigits_spec _ _).1, (tmpDigits_spec _ _).1, cstr_decimal,
    cstr_decimal, hdot, hzero, hclose, hnl]
  refine congrArg (List.foldl Dmesg.put d) ?_
  unfold logLine
  rw [← millis]
  simp only [List.append_assoc, last_byte hmsg, ne_eq, ite_not]

/-- **A line of the log has its timestamp and stays inside `tmp` exactly below 10⁷ seconds.** -/
theorem log_line_iff (d : Dmesg) (ticks : UInt32) {msg : Name} (hmsg : cstr msg ≠ []) :
    ((dmesgLog d ticks msg).2 = (logLine ticks.toNat msg).foldl Dmesg.put d ∧
      ∀ i ∈ (dmesgLog d ticks msg).1, 0 ≤ i ∧ i ≤ 7) ↔ ticks.toNat < 10 ^ 9 := by
  have hstores : (∀ i ∈ (dmesgLog d ticks msg).1, InTmp i) ↔ ticks.toNat < 10 ^ 9 := by
    show (∀ i ∈ (tmpDigits _ _).1, InTmp i) ↔ _
    rw [(tmpDigits_spec _ _).2, (tmpDigits_spec _ _).2]
    simp only [List.forall_mem_singleton, InTmp]
    omega
  rw [← hstores]
  exact and_iff_right (dmesgLog_text d ticks hmsg)

theorem log_line_iff_boot : (dmesgLog dmesgInit 250 [75]).2 = (logLine 250 [75]).foldl Dmesg.put dmesgInit :=
  ((log_line_iff dmesgInit 250 (show cstr [75] ≠ [] by decide)).2 (by decide)).1

/-- After 10⁷ seconds the eighth digit is stored in front of `tmp`. -/
theorem digit_before_tmp : (dmesgLog dmesgInit 1000000000 [75]).1.contains (-1) = true := by
  simp [dmesgLog, tmpDigits, tmpLoop]

end KumOS.Procfs
