import KumOS.Net.Model
import KumOS.Lib.States

/-!
# The receive side of an established connection

`Connection net0 i` is a socket the peer's frames reach: `tcp_process` finds it,
and none of a lower number, under its endpoints.  While data segments are processed
and `tcp_recv` is called it stays one (`Live`), and as long as the ring has room
its unread bytes are a queue:

    unread after tcp_process f = unread ++ tcpData f        (tcpProcess_live)
    tcp_recv returns unread.take len and leaves unread.drop len    (tcpRecv_live)
-/

namespace KumOS.Net

open Lib

/-! ## The ring -/

/-- The bytes stored and not yet taken out. -/
def Socket.unread (s : Socket) : List UInt8 := ringList 4096 s.rbuf s.rbufHead s.rbufTail

structure Socket.InRange (s : Socket) : Prop where
  head : s.rbufHead < 4096
  tail : s.rbufTail < 4096

namespace Socket

variable {s : Socket}

theorem InRange.unread_lt (h : s.InRange) : s.unread.length ≤ 4095 := by
  have hlt : ringCount 4096 s.rbufHead s.rbufTail < 4096 := ringCount_lt h.head
  rw [unread, length_ringList]
  omega

theorem InRange.put (h : s.InRange) (b : UInt8) : (s.put b).InRange := ⟨Nat.mod_lt _ (by omega), h.tail⟩

theorem unread_put (h : s.InRange) (hrm : s.unread.length + 1 ≤ 4095) (b : UInt8) :
    (s.put b).unread = s.unread ++ [b] := by
  rw [unread, length_ringList] at hrm
  exact ringList_push h.head h.tail (by omega) _ _

theorem unread_foldl_put (bs : List UInt8) (h : s.InRange) (hrm : s.unread.length + bs.length ≤ 4095) :
    (bs.foldl Socket.put s).unread = s.unread ++ bs := by
  induction bs generalizing s with
  | nil => simp
  | cons b bs ih =>
    rw [List.length_cons] at hrm
    have hput := unread_put h (by omega) b
    rw [List.foldl_cons, ih (h.put b) (by rw [hput, List.length_append, List.length_singleton]; omega), hput,
      List.append_assoc, List.singleton_append]

theorem foldl_put_rest (bs : List UInt8) (s : Socket) :
    ∃ rbuf head, bs.foldl Socket.put s = { s with rbuf := rbuf, rbufHead := head } ∧
      (s.rbufHead < 4096 → head = (s.rbufHead + bs.length) % 4096) := by
  induction bs generalizing s with
  | nil => exact ⟨s.rbuf, s.rbufHead, rfl, fun h => (Nat.mod_eq_of_lt h).symm⟩
  | cons b bs ih =>
    obtain ⟨rbuf, head, heq, hhd⟩ := ih (s.put b)
    refine ⟨rbuf, head, heq, fun _ => ?_⟩
    rw [hhd (Nat.mod_lt _ (by omega)), List.length_cons]
    show ((s.rbufHead + 1) % 4096 + bs.length) % 4096 = _
    rw [Nat.mod_add_mod]
    congr 1
    omega

theorem avail_eq (h : s.InRange) : s.avail = s.unread.length := by
  have ht := h.tail
  rw [unread, length_ringList]
  unfold avail u32 ringCount
  omega

theorem tcpTake_eq (n : Nat) (h : s.InRange) (hn : n ≤ s.unread.length) :
    (tcpTake n s).1 = s.unread.take n ∧ (tcpTake n s).2.unread = s.unread.drop n ∧
      ∃ tail < 4096, (tcpTake n s).2 = { s with rbufTail := tail } := by
  induction n generalizing s with
  | zero => exact ⟨rfl, rfl, s.rbufTail, h.tail, rfl⟩
  | succ n ih =>
    have hne : s.rbufHead ≠ s.rbufTail := by
      intro heq
      rw [unread, heq, ringList_self h.tail] at hn
      exact absurd hn (by simp)
    have hpop : s.unread = s.rbuf s.rbufTail :: { s with rbufTail := (s.rbufTail + 1) % 4096 }.unread :=
      ringList_pop h.head h.tail hne s.rbuf
    rw [hpop, List.length_cons] at hn
    obtain ⟨hby, hlf, tail, htail, heq⟩ :=
      ih (s := { s with rbufTail := (s.rbufTail + 1) % 4096 }) ⟨h.head, Nat.mod_lt _ (by omega)⟩ (by omega)
    rw [hpop]
    refine ⟨congrArg (_ :: ·) hby, hlf, tail, htail, ?_⟩
    show (tcpTake n { s with rbufTail := (s.rbufTail + 1) % 4096 }).2 = _
    rw [heq]

end Socket

/-! ## One connection among the sockets -/

section Sockets

variable {net net0 : NetState} {i j : Nat} {f : Frame}

@[simp] theorem NetState.setSocket_self (s : Socket) : (net.setSocket i s).sockets i = s := Function.update_self ..

theorem NetState.setSocket_other (s : Socket) (h : j ≠ i) : (net.setSocket i s).sockets j = net.sockets j :=
  Function.update_of_ne h ..

theorem netSendRaw_rest (net : NetState) (f : Frame) : ∃ sent, (netSendRaw net f).2 = { net with sent := sent } := by
  unfold netSendRaw
  split
  · exact ⟨net.sent, rfl⟩
  · exact ⟨_, rfl⟩

theorem tcpSendRaw_ack (hseq : (net.sockets i).seq < 2 ^ 32) :
    tcpSendRaw net i 0x10 (fun _ => 0) 0 = (netSendRaw net (tcpPacket net (net.sockets i) 0x10 (fun _ => 0) 0)).2 := by
  obtain ⟨sent, hsent⟩ := netSendRaw_rest net (tcpPacket net (net.sockets i) 0x10 (fun _ => 0) 0)
  have hsm : ∀ s : Socket, s.seq < 2 ^ 32 → { s with seq := u32 (s.seq + 0) } = s := by
    intro s hs
    have hmod : u32 (s.seq + 0) = s.seq := Nat.mod_eq_of_lt hs
    rw [hmod]
  have heq : tcpSendRaw net i 0x10 (fun _ => 0) 0 =
      (netSendRaw net (tcpPacket net (net.sockets i) 0x10 (fun _ => 0) 0)).2.setSocket i (net.sockets i) :=
    congrArg (NetState.setSocket _ i) (hsm _ hseq)
  rw [heq, hsent]
  unfold NetState.setSocket
  rw [Function.update_eq_self]

/-- The frame comes from the peer of the socket. -/
structure Socket.Peer (s : Socket) (f : Frame) : Prop where
  remoteIp : f.srcIp = s.remoteIp
  remotePort : f.srcPort = s.remotePort
  localPort : f.dstPort = s.localPort

theorem Socket.isFor_iff {s : Socket} : s.isFor f = true ↔ s.used = true ∧ s.Peer f := by
  unfold Socket.isFor
  simp only [Bool.and_eq_true, beq_iff_eq]
  constructor
  · rintro ⟨⟨⟨hu, h1⟩, h2⟩, h3⟩
    exact ⟨hu, h1.symm, h2.symm, h3.symm⟩
  · rintro ⟨hu, h1, h2, h3⟩
    exact ⟨⟨⟨hu, h1.symm⟩, h2.symm⟩, h3.symm⟩

/-- Socket `i` is established, and no socket of a lower number has its endpoints. -/
structure Connection (net : NetState) (i : Nat) : Prop where
  lt : i < 8
  used : (net.sockets i).used = true
  state : (net.sockets i).state = .established
  inRange : (net.sockets i).InRange
  seq : (net.sockets i).seq < 2 ^ 32
  remoteIp : (net.sockets i).remoteIp < 2 ^ 32
  remotePort : (net.sockets i).remotePort < 2 ^ 16
  localPort : (net.sockets i).localPort < 2 ^ 16
  first : ∀ j < i, ∀ f, (net.sockets i).Peer f → (net.sockets j).isFor f = false

theorem Connection.find (h : Connection net i) (hf : (net.sockets i).Peer f) : tcpFind net f = some i := by
  unfold tcpFind
  rw [List.find?_range_eq_some]
  refine ⟨Socket.isFor_iff.2 ⟨h.used, hf⟩, List.mem_range.2 h.lt, fun j hj => ?_⟩
  rw [h.first j hj f hf]
  rfl

/-- The sockets as a connection leaves them: the ring and the numbers of socket `i` may differ. -/
structure Live (net0 : NetState) (i : Nat) (net : NetState) : Prop where
  connection : Connection net i
  remoteIp : (net.sockets i).remoteIp = (net0.sockets i).remoteIp
  remotePort : (net.sockets i).remotePort = (net0.sockets i).remotePort
  localPort : (net.sockets i).localPort = (net0.sockets i).localPort
  other : ∀ j ≠ i, net.sockets j = net0.sockets j

theorem Connection.live (h : Connection net i) : Live net i net := ⟨h, rfl, rfl, rfl, fun _ _ => rfl⟩

theorem Live.peer (h : Live net0 i net) (hf : (net0.sockets i).Peer f) : (net.sockets i).Peer f :=
  ⟨hf.remoteIp.trans h.remoteIp.symm, hf.remotePort.trans h.remotePort.symm, hf.localPort.trans h.localPort.symm⟩

/-- The connection is kept by a change of the socket's ring and of `ack`. -/
theorem Live.update {net' : NetState} (h : Live net0 i net) {ack head tail : Nat} {rbuf : Bytes} (hhd : head < 4096)
    (htail : tail < 4096)
    (hi : net'.sockets i = { net.sockets i with ack := ack, rbuf := rbuf, rbufHead := head, rbufTail := tail })
    (ho : ∀ j ≠ i, net'.sockets j = net.sockets j) : Live net0 i net' := by
  have hc := h.connection
  refine ⟨⟨hc.lt, ?_, ?_, ?_, ?_, ?_, ?_, ?_, ?_⟩, ?_, ?_, ?_, fun j hj => (ho j hj).trans (h.other j hj)⟩
  case refine_8 =>
    intro j hj f hf
    rw [ho j (by omega)]
    rw [hi] at hf
    exact hc.first j hj f ⟨hf.remoteIp, hf.remotePort, hf.localPort⟩
  all_goals rw [hi]
  · exact hc.used
  · exact hc.state
  · exact ⟨hhd, htail⟩
  · exact hc.seq
  · exact hc.remoteIp
  · exact hc.remotePort
  · exact hc.localPort
  · exact h.remoteIp
  · exact h.remotePort
  · exact h.localPort

/-! ## The two calls -/

/-- The socket after `tcp_process`, and the acknowledgement sent. -/
theorem tcpAccept_eq (h : Connection net i) (hda : tcpDataLen f ≠ 0) :
    ∃ s, s = (tcpData f).foldl Socket.put { net.sockets i with ack := u32 (f.tcpSeq + tcpDataLen f) } ∧
      tcpAccept net i f = (netSendRaw (net.setSocket i s) (tcpPacket (net.setSocket i s) s 0x10 (fun _ => 0) 0)).2 := by
  refine ⟨_, rfl, ?_⟩
  unfold tcpAccept
  rw [if_neg hda]
  rw [tcpSendRaw_ack, NetState.setSocket_self]
  rw [NetState.setSocket_self]
  obtain ⟨_, _, heq, -⟩ :=
    Socket.foldl_put_rest (tcpData f) { net.sockets i with ack := u32 (f.tcpSeq + tcpDataLen f) }
  rw [heq]
  exact h.seq

/-- A data segment is appended to the unread bytes, whatever its number, if there is room. -/
theorem tcpProcess_live (h : Live net0 i net) (hf : (net0.sockets i).Peer f) (hlen : 54 ≤ f.len)
    (hfin : f.tcpFlags &&& 0x01 = 0) :
    Live net0 i (tcpProcess net f) ∧
      ((net.sockets i).unread.length + (tcpData f).length ≤ 4095 →
        ((tcpProcess net f).sockets i).unread = (net.sockets i).unread ++ tcpData f) ∧
      ((tcpProcess net f).sockets i).rbufTail = (net.sockets i).rbufTail ∧
      ((tcpProcess net f).sockets i).rbufHead = ((net.sockets i).rbufHead + (tcpData f).length) % 4096 := by
  have hc := h.connection
  have hprocess : tcpProcess net f = tcpAccept net i f := by
    unfold tcpProcess
    rw [if_neg (by omega), hc.find (h.peer hf)]
    show (if _ then _ else _) = _
    rw [if_neg (by rw [hc.state]; simp), if_pos hc.state, if_neg (by simp [hfin])]
  rw [hprocess]
  by_cases hda : tcpDataLen f = 0
  · have hnil : tcpData f = [] := List.eq_nil_of_length_eq_zero (by rw [tcpData, Bytes.length_toList, hda])
    have hsm : tcpAccept net i f = net := if_pos hda
    rw [hsm, hnil]
    exact ⟨h, fun _ => (List.append_nil _).symm, rfl, (Nat.mod_eq_of_lt hc.inRange.head).symm⟩
  obtain ⟨s, hs, heq⟩ := tcpAccept_eq hc hda
  obtain ⟨sent, hsent⟩ := netSendRaw_rest (net.setSocket i s) (tcpPacket (net.setSocket i s) s 0x10 (fun _ => 0) 0)
  have hi : (tcpAccept net i f).sockets i = s := by
    rw [heq, hsent]
    exact net.setSocket_self s
  have ho : ∀ j ≠ i, (tcpAccept net i f).sockets j = net.sockets j := by
    intro j hj
    rw [heq, hsent]
    exact net.setSocket_other s hj
  obtain ⟨rbuf, head, hput, hhd⟩ :=
    Socket.foldl_put_rest (tcpData f) { net.sockets i with ack := u32 (f.tcpSeq + tcpDataLen f) }
  replace hhd : head = ((net.sockets i).rbufHead + (tcpData f).length) % 4096 := hhd hc.inRange.head
  rw [hi]
  refine ⟨h.update (by rw [hhd]; exact Nat.mod_lt _ (by omega)) hc.inRange.tail (hi.trans (hs.trans hput)) ho,
    fun hrm => ?_, by rw [hs, hput], by rw [hs, hput]; exact hhd⟩
  rw [hs]
  exact Socket.unread_foldl_put _ ⟨hc.inRange.head, hc.inRange.tail⟩ hrm

/-- `tcp_recv` returns the oldest unread bytes. -/
theorem tcpRecv_live (h : Live net0 i net) (len : Nat) :
    Live net0 i (tcpRecv net i len).2.2 ∧ (tcpRecv net i len).2.1 = (net.sockets i).unread.take len ∧
      ((tcpRecv net i len).2.2.sockets i).unread = (net.sockets i).unread.drop len ∧
      (tcpRecv net i len).2.2.sent = net.sent := by
  have hc := h.connection
  have hbad : ¬ ((i : Int) < 0 ∨ 8 ≤ (i : Int) ∨ (net.sockets (i : Int).toNat).used = false) := by
    have hlt := hc.lt
    have hus := hc.used
    rintro (h0 | h8 | hu)
    · omega
    · omega
    · rw [Int.toNat_natCast, hus] at hu
      cases hu
  have havail := Socket.avail_eq hc.inRange
  unfold tcpRecv
  rw [if_neg hbad]
  simp only [Int.toNat_natCast]
  by_cases h0 : (net.sockets i).avail = 0
  · have hnil : (net.sockets i).unread = [] := List.eq_nil_of_length_eq_zero (by omega)
    rw [if_pos h0, hnil]
    exact ⟨h, List.take_nil.symm, List.drop_nil.symm, rfl⟩
  rw [if_neg h0]
  generalize hn : (if (net.sockets i).avail < len then (net.sockets i).avail else len) = n
  have hcut : n = min len (net.sockets i).unread.length := by
    rw [← hn, havail]
    split <;> omega
  obtain ⟨hby, hlf, tail, htail, heq⟩ := Socket.tcpTake_eq n hc.inRange (by omega)
  refine ⟨h.update hc.inRange.head htail ((net.setSocket_self _).trans heq)
    (fun j hj => net.setSocket_other _ hj), ?_, ?_, rfl⟩
  · rw [hby, hcut, ← List.take_eq_take_min]
  · rw [NetState.setSocket_self, hlf, hcut]
    by_cases hle : len ≤ (net.sockets i).unread.length
    · rw [Nat.min_eq_left hle]
    · rw [Nat.min_eq_right (by omega), List.drop_length, List.drop_eq_nil_of_le (by omega)]

end Sockets

/-! ## Sessions -/

/-- A socket's life between the peer and the program: `received` is what the segments processed so
far carry, `returned` what `tcp_recv` has returned. -/
structure Session where
  net : NetState
  received : List UInt8
  returned : List UInt8

inductive TcpOp where
  | segment (f : Frame)
  | recv (len : Nat)

/-- The data of a segment: what the IP packet holds behind the TCP header. -/
def tcpPayload (f : Frame) : List UInt8 := (f.data.drop (34 + f.tcpHeader)).toList (f.totalLen - 20 - f.tcpHeader)

def Session.step (i : Nat) (st : Session) : TcpOp → Session
  | .segment f => { st with net := tcpProcess st.net f, received := st.received ++ tcpPayload f }
  | .recv len =>
    { st with net := (tcpRecv st.net i len).2.2, returned := st.returned ++ (tcpRecv st.net i len).2.1 }

/-- The session after the first `k` operations; nothing has been received at the start. -/
def Session.at (net : NetState) (i : Nat) (ops : List TcpOp) (k : Nat) : Session :=
  stateAt (Session.step i) ⟨net, [], []⟩ ops k

/-! ## A connection -/

def sampleSocket : Socket where
  state := .established
  localIp := 0x0A00020F
  remoteIp := 0x0A000202
  localPort := 49152
  remotePort := 80
  seq := 0x1001
  ack := 501
  rbuf := fun _ => 0
  rbufHead := 0
  rbufTail := 0
  used := true

/-- One connection, just established: the peer's initial sequence number was 500. -/
def sampleNet : NetState where
  ready := true
  myMac := [0x52, 0x54, 0, 0x12, 0x34, 0x56]
  myIp := 0x0A00020F
  gwIp := 0x0A000202
  netMask := 0xFFFFFF00
  arp := []
  rxRing := fun _ => ⟨fun _ => 0, 0⟩
  rxHead := 0
  rxTail := 0
  sockets := fun _ => sampleSocket
  sent := []

theorem sampleNet_connection : Connection sampleNet 0 :=
  ⟨by decide, rfl, rfl, ⟨by decide, by decide⟩, by decide, by decide, by decide, by decide,
    fun _ hj => absurd hj (Nat.not_lt_zero _)⟩

end KumOS.Net
