import Mathlib.Data.List.Forall2
import KumOS.Net.Sockets

/-!
# TCP as a byte stream

The peer sends the stream `S` in segments; the network delivers them in any order,
any number of times or not at all.  `Delivery` is one step of such an exchange
without the contents of the stream, and `Realises` says which frames carry a given
stream along it.  `tcp_process` looks at no sequence number: the bytes of a segment,
and those behind the IP packet in its frame, are appended as they arrive.

    returned = (arrived.take read).map (value S)                  (Delivered.returned)
    every stream comes out in order ↔ InOrder plan                (stream_iff)
-/

namespace KumOS.Net

open Lib
open Bytes (copy_of_out getBe16_copy_ne getBe16_put8_ne getBe16_putBe16 getBe16_putBe32_ne put8_ne put8_same toList_add)
open List (ext_getElem length_append length_drop length_map length_range length_take map_append map_map mem_cons not_mem_nil)

variable {off size : Nat}
variable {st : Session} {trailing : List UInt8}

/-- A segment with the bytes `off` to `off + size` of the stream, followed in its frame by bytes that
are not part of the IP packet (padding, a checksum), or a call of `tcp_recv`. -/
inductive Delivery where
  | segment (off size : Nat) (trailing : List UInt8)
  | recv (len : Nat)

/-- Where a byte that `tcp_process` stores comes from. -/
inductive Origin where
  | stream (k : Nat)
  | trailing (b : UInt8)
  deriving DecidableEq

def Origin.value (S : List UInt8) : Origin → UInt8
  | .stream k => S.getD k 0
  | .trailing b => b

def segmentOrigins (off size : Nat) (trailing : List UInt8) : List Origin :=
  (List.range size).map (fun j => .stream (off + j)) ++ trailing.map .trailing

/-- The bytes that have arrived, and how many of them have been read. -/
structure Progress where
  arrived : List Origin
  read : Nat

variable {p : Progress}

def Progress.step (p : Progress) : Delivery → Progress
  | .segment off size trailing => { p with arrived := p.arrived ++ segmentOrigins off size trailing }
  | .recv len => { p with read := p.read + min len (p.arrived.length - p.read) }

def Progress.at (plan : List Delivery) (k : Nat) : Progress := stateAt Progress.step ⟨[], 0⟩ plan k

/-- At most 4095 bytes are unread at any time. -/
def Roomy (plan : List Delivery) : Prop := ∀ k, (Progress.at plan k).arrived.length - (Progress.at plan k).read ≤ 4095

/-- The bytes read are those of the stream, one after the other: no segment among them was lost,
repeated or early, and none had trailing bytes. -/
def InOrder (plan : List Delivery) : Prop :=
  (Progress.at plan plan.length).arrived.take (Progress.at plan plan.length).read =
    (List.range (Progress.at plan plan.length).read).map .stream

instance (plan : List Delivery) : Decidable (InOrder plan) := inferInstanceAs (Decidable (_ = _))

/-- A data segment from the peer of socket `i`: the `size` bytes from `off` on, counted from the
initial sequence number, in a frame that ends with the bytes `trailing`. -/
structure IsSegment (net : NetState) (i isn off size : Nat) (trailing : List UInt8) (f : Frame) : Prop where
  etherType : f.etherType = 0x0800
  protocol : f.protocol = 6
  peer : (net.sockets i).Peer f
  header : 20 ≤ f.tcpHeader
  total : f.totalLen = 20 + f.tcpHeader + size
  len : f.len = 14 + f.totalLen + trailing.length
  short : f.len < 2 ^ 16
  fin : f.tcpFlags &&& 0x01 = 0
  seq : f.tcpSeq = (isn + 1 + off) % 2 ^ 32
  trailing : (f.data.drop (14 + f.totalLen)).toList trailing.length = trailing

/-- The segment holds bytes of the stream `S`. -/
structure Carries (net : NetState) (i isn : Nat) (S : List UInt8) (off size : Nat) (trailing : List UInt8)
    (f : Frame) : Prop extends IsSegment net i isn off size trailing f where
  inside : off + size ≤ S.length
  payload : tcpPayload f = (S.drop off).take size

inductive Realises (net : NetState) (i isn : Nat) (S : List UInt8) : Delivery → TcpOp → Prop
  | segment {off size : Nat} {trailing : List UInt8} {f : Frame} :
      Carries net i isn S off size trailing f → Realises net i isn S (.segment off size trailing) (.segment f)
  | recv (len : Nat) : Realises net i isn S (.recv len) (.recv len)

/-- The operations carry the stream `S` along the plan. -/
def Delivered (net : NetState) (i isn : Nat) (S : List UInt8) (plan : List Delivery) (ops : List TcpOp) : Prop :=
  List.Forall₂ (Realises net i isn S) plan ops

/-! ## What arrives -/

variable {net : NetState} {i isn : Nat} {S : List UInt8} {plan : List Delivery} {ops : List TcpOp}

theorem map_value_segmentOrigins (trailing : List UInt8) (h : off + size ≤ S.length) :
    (segmentOrigins off size trailing).map (Origin.value S) = (S.drop off).take size ++ trailing := by
  unfold segmentOrigins
  rw [map_append, map_map, map_map]
  congr 1
  · apply ext_getElem
    · simp only [length_map, length_range, length_take, length_drop]
      omega
    · intro j hj _
      rw [length_map, length_range] at hj
      have hlt : off + j < S.length := by omega
      simp [Origin.value, hlt]
  · exact List.map_id _

section

variable {trailing : List UInt8} {f : Frame}

section

variable (h : IsSegment net i isn off size trailing f)
include h

theorem IsSegment.minimal : 54 ≤ f.len := by
  have hlen := h.len
  have htotal := h.total
  have hheader := h.header
  omega

theorem IsSegment.length_payload : (tcpPayload f).length = size := by
  have htotal := h.total
  unfold tcpPayload
  rw [Bytes.length_toList]
  omega

/-- `tcp_process` takes everything behind the TCP header for data. -/
theorem IsSegment.data : tcpData f = tcpPayload f ++ trailing := by
  have hlen := h.len
  have htotal := h.total
  have hshort := h.short
  have hsz : tcpDataLen f = f.totalLen - 20 - f.tcpHeader + trailing.length := by
    unfold tcpDataLen u16
    omega
  have hrs : (f.data.drop (34 + f.tcpHeader)).drop (f.totalLen - 20 - f.tcpHeader) = f.data.drop (14 + f.totalLen) := by
    funext x
    show f.data (34 + f.tcpHeader + (f.totalLen - 20 - f.tcpHeader + x)) = f.data (14 + f.totalLen + x)
    congr 1
    omega
  unfold tcpData tcpPayload
  rw [hsz, toList_add, hrs, h.trailing]

end

theorem Carries.data (h : Carries net i isn S off size trailing f) :
    tcpData f = (segmentOrigins off size trailing).map (Origin.value S) := by
  rw [h.toIsSegment.data, h.payload, map_value_segmentOrigins trailing h.inside]

end

/-! ## What is returned -/

/-- The session follows the plan: what has been read has been returned, the rest is unread. -/
structure Follows (net : NetState) (i : Nat) (S : List UInt8) (p : Progress) (st : Session) : Prop where
  live : Live net i st.net
  read : p.read ≤ p.arrived.length
  returned : st.returned = (p.arrived.map (Origin.value S)).take p.read
  unread : (st.net.sockets i).unread = (p.arrived.map (Origin.value S)).drop p.read

theorem Follows.segment (h : Follows net i S p st) {f : Frame} (hf : Carries net i isn S off size trailing f)
    (hroom : (p.step (.segment off size trailing)).arrived.length - p.read ≤ 4095) :
    Follows net i S (p.step (.segment off size trailing)) (st.step i (.segment f)) := by
  obtain ⟨hlv, hun, -, -⟩ := tcpProcess_live h.live hf.peer hf.toIsSegment.minimal hf.fin
  have hrd := h.read
  have harrived : (p.step (.segment off size trailing)).arrived = p.arrived ++ segmentOrigins off size trailing := rfl
  have hle : p.read ≤ (p.arrived.map (Origin.value S)).length := by rw [length_map]; exact hrd
  rw [harrived, length_append] at hroom
  have hfit : (st.net.sockets i).unread.length + (tcpData f).length ≤ 4095 := by
    rw [h.unread, hf.data, length_drop, length_map, length_map]
    omega
  refine ⟨hlv, ?_, ?_, ?_⟩
  · rw [harrived, length_append]
    exact Nat.le_add_right_of_le hrd
  · show st.returned = _
    rw [h.returned, harrived, map_append]
    exact (List.take_append_of_le_length hle).symm
  · show ((tcpProcess st.net f).sockets i).unread = _
    rw [hun hfit, h.unread, hf.data, harrived, map_append]
    exact (List.drop_append_of_le_length hle).symm

theorem Follows.recv (h : Follows net i S p st) (len : Nat) :
    Follows net i S (p.step (.recv len)) (st.step i (.recv len)) := by
  obtain ⟨hlv, hby, hun, -⟩ := tcpRecv_live h.live len
  have hrd := h.read
  -- a call reads `min len unread` bytes, and `take` and `drop` stop at the end of the list by themselves
  have hcut : ∀ l : List UInt8, l.take len = l.take (min len l.length) ∧ l.drop len = l.drop (min len l.length) := by
    intro l
    refine ⟨List.take_eq_take_min, ?_⟩
    by_cases hle : len ≤ l.length
    · rw [Nat.min_eq_left hle]
    · rw [Nat.min_eq_right (by omega), List.drop_length, List.drop_eq_nil_of_le (by omega)]
  have hlf : (st.net.sockets i).unread.length = p.arrived.length - p.read := by
    rw [h.unread, length_drop, length_map]
  obtain ⟨htk, hdrop⟩ := hcut (st.net.sockets i).unread
  refine ⟨hlv, ?_, ?_, ?_⟩
  · show p.read + min len (p.arrived.length - p.read) ≤ p.arrived.length
    omega
  · show st.returned ++ (tcpRecv st.net i len).2.1 = (p.arrived.map _).take (p.read + min len (p.arrived.length - p.read))
    rw [hby, htk, hlf, h.returned, h.unread, List.take_add]
  · show ((tcpRecv st.net i len).2.2.sockets i).unread =
      (p.arrived.map _).drop (p.read + min len (p.arrived.length - p.read))
    rw [hun, hdrop, hlf, h.unread, List.drop_drop]

/-- A plan and the operations that realise it have the same steps. -/
theorem Delivered.get (h : Delivered net i isn S plan ops) (k : Nat) :
    (plan[k]? = none ∧ ops[k]? = none) ∨
      ∃ d op, plan[k]? = some d ∧ ops[k]? = some op ∧ Realises net i isn S d op := by
  have hlen : plan.length = ops.length := h.length_eq
  by_cases hk : k < plan.length
  · have hk' : k < ops.length := by omega
    exact .inr ⟨plan[k], ops[k], List.getElem?_eq_getElem hk, List.getElem?_eq_getElem hk',
      (List.forall₂_iff_get.1 h).2 k hk hk'⟩
  · exact .inl ⟨List.getElem?_eq_none (by omega), List.getElem?_eq_none (by omega)⟩

section

variable (hc : Connection net i) (hempty : (net.sockets i).unread = []) (hroom : Roomy plan) (h : Delivered net i isn S plan ops)
include hc hempty hroom h

theorem Delivered.follows (k : Nat) : Follows net i S (Progress.at plan k) (Session.at net i ops k) := by
  induction k with
  | zero => exact ⟨hc.live, Nat.le_refl _, rfl, hempty⟩
  | succ k ih =>
    have hnx := hroom (k + 1)
    obtain ⟨hplan, hops⟩ | ⟨d, op, hplan, hops, hd⟩ := h.get k
    · unfold Progress.at Session.at
      rw [stateAt_stop hplan, stateAt_stop hops]
      exact ih
    unfold Progress.at at hnx ⊢
    unfold Session.at
    rw [stateAt_succ hplan] at hnx ⊢
    rw [stateAt_succ hops]
    cases hd with
    | segment hf => exact ih.segment hf hnx
    | recv len => exact ih.recv len

theorem Delivered.returned (k : Nat) :
    (Session.at net i ops k).returned =
      ((Progress.at plan k).arrived.take (Progress.at plan k).read).map (Origin.value S) := by
  rw [(h.follows hc hempty hroom k).returned, List.map_take]

end

theorem returned_prefix_step (st : Session) (op : TcpOp) : st.returned <+: (st.step i op).returned := by
  cases op with
  | segment f => exact List.prefix_refl _
  | recv len => exact List.prefix_append _ _

/-- What has been returned stays returned, so the end of the run decides. -/
theorem returned_prefix_end (k : Nat) :
    (Session.at net i ops k).returned <+: (Session.at net i ops ops.length).returned := by
  have hmono : ∀ n, (Session.at net i ops k).returned <+: (Session.at net i ops (k + n)).returned := by
    intro n
    induction n with
    | zero => exact List.prefix_refl _
    | succ n ih =>
      refine ih.trans ?_
      cases hop : ops[k + n]? with
      | none =>
        have heq : Session.at net i ops (k + n + 1) = Session.at net i ops (k + n) := stateAt_stop hop
        exact ⟨[], by rw [List.append_nil, ← Nat.add_assoc, heq]⟩
      | some op =>
        have heq : Session.at net i ops (k + n + 1) = (Session.at net i ops (k + n)).step i op := stateAt_succ hop
        rw [← Nat.add_assoc, heq]
        exact returned_prefix_step _ op
  have hend : Session.at net i ops (k + ops.length) = Session.at net i ops ops.length :=
    stateAt_of_length_le (Nat.le_add_left _ _)
  rw [← hend]
  exact hmono ops.length

/-! ## Frames for a given stream -/

/-- A frame with a TCP header of 20 bytes that carries the bytes `off` to `off + size` of `S`. -/
def segmentFrame (s : Socket) (isn : Nat) (S : List UInt8) (off size : Nat) (trailing : List UInt8) : Frame :=
  let hdr : Bytes := fun _ => 0
  let hdr := ((hdr.putBe16 12 0x0800).putBe16 16 (40 + size)).put8 23 6
  let hdr := ((hdr.putBe32 26 s.remoteIp).putBe16 34 s.remotePort).putBe16 36 s.localPort
  let hdr := (hdr.putBe32 38 (isn + 1 + off)).put8 46 0x50
  ⟨hdr.copy 54 (.ofList ((S.drop off).take size ++ trailing)) (size + trailing.length),
    54 + size + trailing.length⟩

/-- The segments of the plan fit into frames. -/
def Fits (plan : List Delivery) : Prop :=
  ∀ d ∈ plan, ∀ off size trailing, d = .segment off size trailing → 54 + size + trailing.length < 2 ^ 16

theorem segmentFrame_carries (hc : Connection net i) (hfit : 54 + size + trailing.length < 2 ^ 16)
    (hin : off + size ≤ S.length) :
    Carries net i isn S off size trailing (segmentFrame (net.sockets i) isn S off size trailing) := by
  generalize hf : segmentFrame (net.sockets i) isn S off size trailing = f
  have hlen : f.len = 54 + size + trailing.length := by rw [← hf]; rfl
  have hheader : f.tcpHeader = 20 := by
    rw [← hf]
    unfold segmentFrame Frame.tcpHeader
    simp (disch := omega) only [copy_of_out, put8_same]
    rfl
  have htotal : f.totalLen = 40 + size := by
    rw [← hf]
    unfold segmentFrame Frame.totalLen
    simp (disch := omega) only [getBe16_copy_ne, getBe16_put8_ne, Bytes.getBe16_putBe16_ne,
      getBe16_putBe32_ne, getBe16_putBe16]
    omega
  have hby : (f.data.drop 54).toList (size + trailing.length) = (S.drop off).take size ++ trailing := by
    have hsz : size + trailing.length = ((S.drop off).take size ++ trailing).length := by
      rw [length_append, length_take, length_drop]
      omega
    rw [← Bytes.toList_ofList ((S.drop off).take size ++ trailing), ← hsz]
    apply Bytes.toList_congr
    intro x hx
    rw [← hf]
    show Bytes.copy _ _ _ _ (54 + x) = _
    rw [Bytes.copy_of_in _ _ (by omega)]
    congr 1
    omega
  have htk : ((S.drop off).take size).length = size := by
    rw [length_take, length_drop]
    omega
  rw [toList_add] at hby
  obtain ⟨hpayload, htrailing⟩ := List.append_inj hby (by rw [Bytes.length_toList, htk])
  refine ⟨⟨?_, ?_, ⟨?_, ?_, ?_⟩, by omega, by omega, by omega, by omega, ?_, ?_, ?_⟩, hin, ?_⟩
  · rw [← hf]
    rfl
  · rw [← hf]
    rfl
  · rw [← hf]
    unfold segmentFrame Frame.srcIp
    simp (disch := omega) only [Bytes.getBe32_copy_ne, Bytes.getBe32_put8_ne, Bytes.getBe32_putBe16_ne,
      Bytes.getBe32_putBe32_ne, Bytes.getBe32_putBe32]
    exact Nat.mod_eq_of_lt hc.remoteIp
  · rw [← hf]
    unfold segmentFrame Frame.srcPort
    simp (disch := omega) only [getBe16_copy_ne, getBe16_put8_ne, Bytes.getBe16_putBe16_ne,
      getBe16_putBe32_ne, getBe16_putBe16]
    exact Nat.mod_eq_of_lt hc.remotePort
  · rw [← hf]
    unfold segmentFrame Frame.dstPort
    simp (disch := omega) only [getBe16_copy_ne, getBe16_put8_ne, getBe16_putBe32_ne,
      getBe16_putBe16]
    exact Nat.mod_eq_of_lt hc.localPort
  · rw [← hf]
    unfold segmentFrame Frame.tcpFlags
    simp (disch := omega) only [copy_of_out, put8_ne, Bytes.putBe16_of_out, Bytes.putBe32_of_out]
    rfl
  · rw [← hf]
    unfold segmentFrame Frame.tcpSeq
    simp (disch := omega) only [Bytes.getBe32_copy_ne, Bytes.getBe32_put8_ne, Bytes.getBe32_putBe32]
  · have hdrop : f.data.drop (14 + f.totalLen) = (f.data.drop 54).drop size := by
      funext x
      show f.data (14 + f.totalLen + x) = f.data (54 + (size + x))
      congr 1
      omega
    rw [hdrop]
    exact htrailing
  · unfold tcpPayload
    rw [hheader, htotal]
    have hsub : 40 + size - 20 - 20 = size := by omega
    rw [hsub]
    exact hpayload

/-- The operation of a plan's step for the stream `S`. -/
def Delivery.realise (s : Socket) (isn : Nat) (S : List UInt8) : Delivery → TcpOp
  | .segment off size trailing => .segment (segmentFrame s isn S off size trailing)
  | .recv len => .recv len

/-- Every plan can be carried out, with any stream that is long enough. -/
theorem delivered_realise (hc : Connection net i) (hft : Fits plan)
    (hin : ∀ off size trailing, Delivery.segment off size trailing ∈ plan → off + size ≤ S.length) :
    Delivered net i isn S plan (plan.map (Delivery.realise (net.sockets i) isn S)) := by
  unfold Delivered
  rw [List.forall₂_map_right_iff, List.forall₂_same]
  intro d hd
  cases d with
  | segment off size trailing =>
    exact .segment (segmentFrame_carries hc (hft _ hd off size trailing rfl) (hin off size trailing hd))
  | recv len => exact .recv len

theorem exists_plan_bound (plan : List Delivery) :
    ∃ n, ∀ off size trailing, Delivery.segment off size trailing ∈ plan → off + size ≤ n := by
  induction plan with
  | nil => exact ⟨0, fun _ _ _ h => absurd h not_mem_nil⟩
  | cons d plan ih =>
    obtain ⟨n, hn⟩ := ih
    obtain ⟨m, hm⟩ : ∃ m, ∀ off size trailing, Delivery.segment off size trailing = d → off + size ≤ m := by
      cases d with
      | segment off size trailing =>
        refine ⟨off + size, fun _ _ _ h => ?_⟩
        cases h
        exact Nat.le_refl _
      | recv len => exact ⟨0, fun _ _ _ h => by cases h⟩
    refine ⟨n + m, fun off size trailing h => ?_⟩
    rcases mem_cons.1 h with h | h
    · exact Nat.le_trans (hm off size trailing h) (Nat.le_add_left _ _)
    · exact Nat.le_trans (hn off size trailing h) (Nat.le_add_right _ _)

/-! ## Order -/

theorem Progress.read_le (plan : List Delivery) (k : Nat) :
    (Progress.at plan k).read ≤ (Progress.at plan k).arrived.length := by
  refine stateAt_always (fun _ (p : Progress) => p.read ≤ p.arrived.length) (Nat.le_refl 0) (fun n d _ h => ?_)
    (fun _ _ _ h => h) k
  generalize stateAt Progress.step _ plan n = p at h ⊢
  cases d with
  | segment off size trailing =>
    show p.read ≤ (p.arrived ++ segmentOrigins off size trailing).length
    rw [length_append]
    exact Nat.le_add_right_of_le h
  | recv len =>
    show p.read + min len (p.arrived.length - p.read) ≤ p.arrived.length
    omega

theorem Delivered.inside (h : Delivered net i isn S plan ops) (n k : Nat)
    (hk : Origin.stream k ∈ (Progress.at plan n).arrived) : k < S.length := by
  induction n with
  | zero => exact absurd hk not_mem_nil
  | succ n ih =>
    unfold Progress.at at hk
    obtain ⟨hplan, -⟩ | ⟨d, op, hplan, -, hd⟩ := h.get n
    · rw [stateAt_stop hplan] at hk
      exact ih hk
    rw [stateAt_succ hplan] at hk
    cases hd with
    | recv len => exact ih hk
    | segment hf =>
      have hin := hf.inside
      rcases List.mem_append.1 hk with hk | hk
      · exact ih hk
      simp only [segmentOrigins, List.mem_append, List.mem_map, List.mem_range, Origin.stream.injEq,
        reduceCtorEq, and_false, exists_false, or_false] at hk
      omega

theorem Delivered.prefix_of_inOrder (h : Delivered net i isn S plan ops) (ho : InOrder plan) :
    ((Progress.at plan plan.length).arrived.take (Progress.at plan plan.length).read).map (Origin.value S) <+: S := by
  have hinside := h.inside plan.length
  unfold InOrder at ho
  generalize Progress.at plan plan.length = p at ho hinside ⊢
  have hrd : p.read ≤ S.length := by
    by_contra hlt
    have hmem : Origin.stream S.length ∈ p.arrived.take p.read := by
      rw [ho]
      exact List.mem_map_of_mem (List.mem_range.2 (by omega))
    exact Nat.lt_irrefl _ (hinside _ (List.mem_of_mem_take hmem))
  have heq : (p.arrived.take p.read).map (Origin.value S) = S.take p.read := by
    rw [ho, map_map]
    apply ext_getElem
    · simp only [length_map, length_range, length_take]
      omega
    · intro j hj _
      rw [length_map, length_range] at hj
      have hlt : j < S.length := by omega
      simp [Origin.value, hlt]
  rw [heq]
  exact List.take_prefix _ _

/-- A stream that tells a byte out of place: the byte at `m` differs from all others, and from `b`. -/
theorem exists_telling_stream (o : Origin) {m : Nat} (ho : o ≠ .stream m) (n : Nat) :
    ∃ S : List UInt8, n ≤ S.length ∧ m < S.length ∧ o.value S ≠ S.getD m 0 := by
  have hlen : ∀ v : UInt8, ((List.replicate (n + m + 1) (0 : UInt8)).set m v).length = n + m + 1 := by
    intro v
    rw [List.length_set, List.length_replicate]
  have hget : ∀ v : UInt8, ((List.replicate (n + m + 1) (0 : UInt8)).set m v).getD m 0 = v := by
    intro v
    rw [List.getD_eq_getElem?_getD, List.getElem?_set_self (by rw [List.length_replicate]; omega), Option.getD_some]
  cases o with
  | stream k =>
    have hk : k ≠ m := fun h => ho (congrArg Origin.stream h)
    refine ⟨(List.replicate (n + m + 1) 0).set m 1, by rw [hlen]; omega, by rw [hlen]; omega, ?_⟩
    have hze : ((List.replicate (n + m + 1) (0 : UInt8)).set m 1).getD k 0 = 0 := by
      rw [List.getD_eq_getElem?_getD, List.getElem?_set_ne (Ne.symm hk), List.getElem?_replicate]
      split <;> rfl
    rw [hget]
    show List.getD _ k 0 ≠ 1
    rw [hze]
    decide
  | trailing b =>
    refine ⟨(List.replicate (n + m + 1) 0).set m (b + 1), by rw [hlen]; omega, by rw [hlen]; omega, ?_⟩
    rw [hget]
    exact fun h => absurd (UInt8.left_eq_add.1 h) (by decide)

theorem inOrder_of_returned (hc : Connection net i) (hempty : (net.sockets i).unread = []) (hroom : Roomy plan)
    (hft : Fits plan)
    (hall : ∀ S ops, Delivered net i isn S plan ops → ∀ k, (Session.at net i ops k).returned <+: S) : InOrder plan := by
  have hrd := Progress.read_le plan plan.length
  apply ext_getElem
  · rw [length_take, length_map, length_range]
    omega
  intro m hm hm'
  rw [length_take] at hm
  by_contra hne
  rw [List.getElem_map, List.getElem_range] at hne
  obtain ⟨n, hn⟩ := exists_plan_bound plan
  obtain ⟨S, hlong, hlt, htell⟩ := exists_telling_stream _ hne n
  have hd : Delivered net i isn S plan (plan.map (Delivery.realise (net.sockets i) isn S)) :=
    delivered_realise hc hft fun off size trailing h => Nat.le_trans (hn off size trailing h) hlong
  have hpre := hall S _ hd plan.length
  rw [hd.returned hc hempty hroom plan.length] at hpre
  refine htell ?_
  have hbyte := hpre.getElem (by rw [length_map, length_take]; omega)
  rw [List.getElem_map] at hbyte
  rw [hbyte, List.getD_eq_getElem?_getD, List.getElem?_eq_getElem hlt, Option.getD_some]

/-- The bytes `tcp_recv` returns are at all times the beginning of the stream exactly if the bytes
stored are, as far as they have been read; and that is so for every stream exactly if the segments
read came in order, without gaps, repetitions or trailing bytes. -/
theorem stream_iff (hc : Connection net i) (hempty : (net.sockets i).unread = []) (hroom : Roomy plan)
    (hfits : Fits plan) :
    ((∀ S ops, Delivered net i isn S plan ops → ∀ k, (Session.at net i ops k).returned <+: S) ↔ InOrder plan) ∧
    ∀ S ops, Delivered net i isn S plan ops →
      ((∀ k, (Session.at net i ops k).returned <+: S) ↔
        ((Progress.at plan plan.length).arrived.take (Progress.at plan plan.length).read).map (Origin.value S) <+: S) := by
  have hend : ∀ S ops, Delivered net i isn S plan ops →
      ((∀ k, (Session.at net i ops k).returned <+: S) ↔
        ((Progress.at plan plan.length).arrived.take (Progress.at plan plan.length).read).map (Origin.value S) <+: S) := by
    intro S ops hd
    have hlen : plan.length = ops.length := List.Forall₂.length_eq hd
    rw [← hd.returned hc hempty hroom plan.length]
    refine ⟨fun h => h plan.length, fun h k => (returned_prefix_end k).trans ?_⟩
    rw [← hlen]
    exact h
  refine ⟨⟨inOrder_of_returned hc hempty hroom hfits, fun ho S ops hd => ?_⟩, hend⟩
  exact (hend S ops hd).2 (hd.prefix_of_inOrder ho)

/-! ## An exchange -/

theorem roomy_of_le (h : ∀ k ≤ plan.length, (Progress.at plan k).arrived.length - (Progress.at plan k).read ≤ 4095) :
    Roomy plan := by
  intro k
  by_cases hk : k ≤ plan.length
  · exact h k hk
  · have heq : Progress.at plan k = Progress.at plan plan.length := stateAt_of_length_le (by omega)
    rw [heq]
    exact h _ (Nat.le_refl _)

/-- Two segments in order, with calls in between. -/
def samplePlan : List Delivery := [.segment 0 2 [], .recv 1, .segment 2 2 [], .recv 9]

theorem stream_iff_sample :
    (∀ S ops, Delivered sampleNet 0 500 S samplePlan ops → ∀ k, (Session.at sampleNet 0 ops k).returned <+: S) ∧
      (Progress.at samplePlan 4).read = 4 := by
  have hft : Fits samplePlan := by
    intro d hd off size trailing heq
    simp only [samplePlan, mem_cons, not_mem_nil, or_false] at hd
    rcases hd with rfl | rfl | rfl | rfl <;> cases heq <;> decide
  exact ⟨(stream_iff sampleNet_connection rfl (roomy_of_le (by decide)) hft).1.2 (by decide), by decide⟩

/-- The second segment of four bytes arrives, the first one does not: its bytes are returned as the
beginning of the stream. -/
theorem early_segment_returned :
    ∃ f, Connection sampleNet 0 ∧ (sampleNet.sockets 0).unread = [] ∧
      Delivered sampleNet 0 500 [1, 2, 3, 4] [.segment 2 2 [], .recv 4] [.segment f, .recv 4] ∧
      Roomy [.segment 2 2 [], .recv 4] ∧
      (Session.at sampleNet 0 [.segment f, .recv 4] 2).returned = [3, 4] ∧
      ¬ (Session.at sampleNet 0 [.segment f, .recv 4] 2).returned <+: [1, 2, 3, 4] := by
  refine ⟨segmentFrame (sampleNet.sockets 0) 500 [1, 2, 3, 4] 2 2 [], sampleNet_connection, rfl,
    .cons (.segment (segmentFrame_carries sampleNet_connection (by decide) (by decide))) (.cons (.recv 4) .nil),
    roomy_of_le (by decide), ?_⟩
  exact ⟨rfl, by decide⟩

end KumOS.Net
