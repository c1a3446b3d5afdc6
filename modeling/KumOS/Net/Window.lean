import KumOS.Net.Stream

/-!
# The advertised window and the receive buffer

The peer sends its bytes once and in order, in frames without padding, and never
beyond the last window it was told.  `tcp_send_raw` acknowledges everything received
and always offers 4096 bytes, however many are unread (`window_overruns`), while the
ring holds 4095.  So the window protects nothing, and the bytes survive exactly as long
as the program reads in time:

    Protected net i ops ↔ ∀ k, pending after k operations ≤ 4095       (protected_iff)
-/

namespace KumOS.Net

open Lib

/-- The bytes received and not yet returned. -/
def Session.pending (st : Session) : Nat := st.received.length - st.returned.length

/-- What was returned, followed by the unread bytes, is what was received. -/
def Session.Kept (i : Nat) (st : Session) : Prop := st.returned ++ (st.net.sockets i).unread = st.received

/-- `tcp_process` stores a byte of the segment where an unread byte is.  The byte number `k` among those
pending lies `k` cells behind `rbuf_tail`; before byte `j` of the segment is stored there are
`pending + j` of them. -/
def Session.Overwrites (i : Nat) (st : Session) (f : Frame) : Prop :=
  ∃ j < (tcpData f).length, ∃ k < st.pending + j,
    ((st.net.sockets i).rbufTail + k) % 4096 = ((st.net.sockets i).rbufHead + j) % 4096

def Protected (net : NetState) (i : Nat) (ops : List TcpOp) : Prop :=
  ∀ k, (Session.at net i ops k).Kept i ∧
    ∀ f, ops[k]? = some (.segment f) → ¬ (Session.at net i ops k).Overwrites i f

/-- What the peer may send next: the bytes that follow those sent so far, up to the window in the last
frame it got. -/
structure Sends (net : NetState) (i isn : Nat) (st : Session) (f : Frame) : Prop
    extends IsSegment net i isn st.received.length (tcpPayload f).length [] f where
  ethernet : f.len ≤ 1514
  window : ∃ g, st.net.sent.getLast? = some g ∧
    (f.tcpSeq + (tcpPayload f).length + (2 ^ 32 - g.tcpAckSeq)) % 2 ^ 32 ≤ g.tcpWindow

/-- Every segment of the run is one the peer may send. -/
def Obeys (net : NetState) (i isn : Nat) (ops : List TcpOp) : Prop :=
  ∀ k f, ops[k]? = some (.segment f) → Sends net i isn (Session.at net i ops k) f

variable {net : NetState} {i isn : Nat} {ops : List TcpOp} {st : Session} {f : Frame}

/-! ## The buffer -/

theorem Sends.data (h : Sends net i isn st f) : tcpData f = tcpPayload f := by
  rw [h.toIsSegment.data, List.append_nil]

theorem Obeys.live (hc : Connection net i) (ho : Obeys net i isn ops) (k : Nat) :
    Live net i (Session.at net i ops k).net := by
  refine stateAt_always (fun _ (st : Session) => Live net i st.net) hc.live (fun k op hop hl => ?_)
    (fun _ _ _ h => h) k
  cases op with
  | segment f =>
    have hs := ho k f hop
    exact (tcpProcess_live hl hs.peer hs.toIsSegment.minimal hs.fin).1
  | recv len => exact (tcpRecv_live hl len).1

theorem Session.Kept.pending (h : st.Kept i) : (st.net.sockets i).unread.length = st.pending := by
  have hlen := congrArg List.length h
  rw [List.length_append] at hlen
  unfold Session.pending
  omega

section

variable (h : st.Kept i) (hl : Live net i st.net)
include h hl

theorem Session.Kept.segment (hf : Sends net i isn st f)
    (hrm : (st.step i (.segment f)).pending ≤ 4095) : (st.step i (.segment f)).Kept i := by
  obtain ⟨-, hun, -, -⟩ := tcpProcess_live hl hf.peer hf.toIsSegment.minimal hf.fin
  have hpending : (st.step i (.segment f)).pending = st.received.length + (tcpPayload f).length - st.returned.length := by
    show (st.received ++ tcpPayload f).length - _ = _
    rw [List.length_append]
    rfl
  have hfit : (st.net.sockets i).unread.length + (tcpData f).length ≤ 4095 := by
    have hlen := congrArg List.length h
    rw [List.length_append] at hlen
    rw [hf.data]
    omega
  show st.returned ++ ((tcpProcess st.net f).sockets i).unread = st.received ++ tcpPayload f
  rw [hun hfit, hf.data, ← List.append_assoc, h]

theorem Session.Kept.recv (len : Nat) : (st.step i (.recv len)).Kept i := by
  obtain ⟨-, hby, hun, -⟩ := tcpRecv_live hl len
  show (st.returned ++ (tcpRecv st.net i len).2.1) ++ ((tcpRecv st.net i len).2.2.sockets i).unread = st.received
  rw [hby, hun, List.append_assoc, List.take_append_drop]
  exact h

/-- With room for the segment its bytes go into free cells. -/
theorem Session.Kept.not_overwrites (hf : Sends net i isn st f)
    (hrm : (st.step i (.segment f)).pending ≤ 4095) : ¬ st.Overwrites i f := by
  rintro ⟨j, hj, k, hk, heq⟩
  have hrg := hl.connection.inRange
  have hhd : ((st.net.sockets i).rbufTail + st.pending) % 4096 = (st.net.sockets i).rbufHead := by
    rw [← h.pending, Socket.unread, length_ringList]
    exact ring_index_head hrg.head hrg.tail
  have hfit : st.pending + (tcpData f).length ≤ 4095 := by
    have hlen := congrArg List.length h
    have hsp : (st.step i (.segment f)).pending = (st.received ++ tcpPayload f).length - st.returned.length := rfl
    rw [List.length_append] at hlen hsp
    rw [hf.data]
    unfold Session.pending
    omega
  omega

end

/-- The receive buffer is protected exactly as long as at most 4095 bytes are pending. -/
theorem protected_iff (hc : Connection net i) (hempty : (net.sockets i).unread = []) (ho : Obeys net i isn ops) :
    Protected net i ops ↔ ∀ k, (Session.at net i ops k).pending ≤ 4095 := by
  constructor
  · intro h k
    rw [← (h k).1.pending]
    exact (ho.live hc k).connection.inRange.unread_lt
  intro hrm
  have hsp : ∀ k f, ops[k]? = some (.segment f) →
      ((Session.at net i ops k).step i (.segment f)).pending ≤ 4095 := by
    intro k f hop
    have hnx := hrm (k + 1)
    unfold Session.at at hnx
    rw [stateAt_succ hop] at hnx
    exact hnx
  have hkt : ∀ k, (Session.at net i ops k).Kept i := by
    refine stateAt_always (fun _ (st : Session) => st.Kept i) hempty (fun k op hop h => ?_) (fun _ _ _ h => h)
    cases op with
    | segment f => exact h.segment (ho.live hc k) (ho k f hop) (hsp k f hop)
    | recv len => exact h.recv (ho.live hc k) len
  exact fun k => ⟨hkt k, fun f hop => (hkt k).not_overwrites (ho.live hc k) (ho k f hop) (hsp k f hop)⟩

/-! ## Two runs -/

/-- The sample connection after its handshake, with the acknowledgement that ended it. -/
def sampleStart : NetState := { sampleNet with sent := [tcpPacket sampleNet sampleSocket 0x10 (fun _ => 0) 0] }

theorem sampleStart_connection : Connection sampleStart 0 :=
  ⟨by decide, rfl, rfl, ⟨by decide, by decide⟩, by decide, by decide, by decide, by decide,
    fun _ hj => absurd hj (Nat.not_lt_zero _)⟩

/-- A segment with `size` bytes from number `off` on. -/
def sampleSegment (off size : Nat) : Frame :=
  segmentFrame sampleSocket 500 (List.replicate (off + size) 7) off size []

/-- However many bytes are unread, the peer may send the next segment when the last frame sent acknowledges
everything received and offers 4096 bytes. -/
theorem sampleSegment_sends {off size : Nat} (h : size ≤ 1460)
    (hst : (st.received.length, st.net.sent.getLast?.map fun g => (g.tcpAckSeq, g.tcpWindow)) =
      (off, some ((501 + off) % 2 ^ 32, 4096))) : Sends sampleStart 0 500 st (sampleSegment off size) := by
  have hcarries : Carries sampleStart 0 500 (List.replicate (off + size) 7) off size [] (sampleSegment off size) := by
    refine segmentFrame_carries sampleStart_connection ?_ (by simp)
    show 54 + size + 0 < 2 ^ 16
    omega
  have hf := hcarries.toIsSegment
  obtain ⟨hoff, hla⟩ := Prod.mk.inj hst
  obtain ⟨g, hg, hval⟩ := Option.map_eq_some_iff.1 hla
  obtain ⟨hack, hwindow⟩ := Prod.mk.inj hval
  refine ⟨?_, ?_, g, hg, ?_⟩
  · rw [hoff, hf.length_payload]
    exact hf
  · show 54 + size + 0 ≤ 1514
    omega
  · rw [hf.length_payload, hack, hwindow, hf.seq]
    omega

/-- One full segment, part of which is read. -/
def sampleRead : List TcpOp := [.segment (sampleSegment 0 1460), .recv 1000]

set_option maxRecDepth 100000 in
theorem sampleRead_received (k : Nat) : (Session.at sampleStart 0 sampleRead k).received.length ≤ 1460 := by
  match k with
  | 0 => decide +kernel
  | 1 => decide +kernel
  | k + 2 =>
    have heq : Session.at sampleStart 0 sampleRead (k + 2) = Session.at sampleStart 0 sampleRead 2 :=
      stateAt_of_length_le (Nat.le_add_left 2 k)
    rw [heq]
    decide +kernel

theorem protected_iff_sample : Protected sampleStart 0 sampleRead := by
  have ho : Obeys sampleStart 0 500 sampleRead := by
    intro k f hop
    match k, hop with
    | 0, hop =>
      cases hop
      exact sampleSegment_sends (by decide) (by decide +kernel)
    | k + 2, hop => cases hop
  refine (protected_iff sampleStart_connection rfl ho).2 fun k => ?_
  have hle := sampleRead_received k
  unfold Session.pending
  omega

/-- Three full segments while the program reads nothing. -/
def sampleOverrun : List TcpOp :=
  [.segment (sampleSegment 0 1460), .segment (sampleSegment 1460 1460), .segment (sampleSegment 2920 1460)]

set_option maxRecDepth 100000 in
theorem sampleOverrun_obeys : Obeys sampleStart 0 500 sampleOverrun := by
  intro k f hop
  match k, hop with
  | 0, hop =>
    cases hop
    exact sampleSegment_sends (by decide) (by decide +kernel)
  | 1, hop =>
    cases hop
    exact sampleSegment_sends (by decide) (by decide +kernel)
  | 2, hop =>
    cases hop
    exact sampleSegment_sends (by decide) (by decide +kernel)
  | k + 3, hop => cases hop

set_option maxRecDepth 100000 in
/-- The window allows each of the three segments, and the last one runs over the beginning of the
first. -/
theorem window_overruns :
    Connection sampleStart 0 ∧ (sampleStart.sockets 0).unread = [] ∧ Obeys sampleStart 0 500 sampleOverrun ∧
      (Session.at sampleStart 0 sampleOverrun 2).Overwrites 0 (sampleSegment 2920 1460) ∧
      ¬ (Session.at sampleStart 0 sampleOverrun 3).Kept 0 := by
  refine ⟨sampleStart_connection, rfl, sampleOverrun_obeys, ?_, fun hkt => ?_⟩
  · -- byte 1176 of the third segment goes to cell 0, where the first byte of all is still unread
    exact ⟨1176, by decide +kernel, 0, by decide +kernel, by decide +kernel⟩
  · exact absurd hkt.pending (by decide +kernel)

end KumOS.Net
