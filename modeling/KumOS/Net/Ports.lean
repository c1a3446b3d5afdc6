import Mathlib.Data.List.Forall2
import KumOS.Net.Sockets

/-!
# Datagrams and the ports they are for

All ports share one ring: `net_poll` puts every UDP frame into it, and `net_recv_udp`
takes the oldest one out before it looks at the port.  A datagram is kept for its
port (`Conserved`: what the calls on the port have returned, followed by what is in
the ring for it, is what arrived for it) exactly as long as every call finds the ring
empty or the oldest datagram addressed to its own port:

    Delivering net ops ↔ every call of the run is Matched         (delivering_iff)
-/

namespace KumOS.Net

open Lib

variable {port x : Nat} {net' : NetState}

/-- A frame with zeros behind its end; two frames with the same bytes are equal in this form. -/
def Frame.trim (f : Frame) : Frame := ⟨fun x => if x < f.len then f.data x else 0, f.len⟩

/-- The UDP datagrams in the ring, oldest first. -/
def NetState.queued (net : NetState) : List Frame := (ringList 4 net.rxRing net.rxHead net.rxTail).map Frame.trim

/-- The frames `net_poll` takes for UDP datagrams. -/
def Frame.IsDatagram (f : Frame) : Prop := f.etherType = 0x0800 ∧ f.protocol = 17 ∧ 42 ≤ f.len ∧ f.len ≤ 1514

instance (f : Frame) : Decidable f.IsDatagram := inferInstanceAs (Decidable (_ ∧ _))

/-- The datagram a call of `net_poll` receives. -/
def NetState.receives (net : NetState) : Option Frame → List Frame
  | none => []
  | some f => if net.ready = true ∧ f.IsDatagram then [f.trim] else []

/-- A call of `net_recv_udp` that returned a datagram. -/
structure Answer where
  port : Nat
  bufsz : Nat
  result : Received

/-- `arrived` lists the datagrams received, `answers` the calls that returned one. -/
structure Mailbox where
  net : NetState
  arrived : List Frame
  answers : List Answer

inductive PortOp where
  | poll (arrived : Option Frame)
  | recv (port bufsz : Nat) (arrived : Option Frame)

def PortOp.frame : PortOp → Option Frame
  | .poll a => a
  | .recv _ _ a => a

def Mailbox.step (m : Mailbox) : PortOp → Mailbox
  | .poll a => { m with net := netPoll m.net a, arrived := m.arrived ++ m.net.receives a }
  | .recv port bufsz a =>
    { net := (netRecvUdp m.net port bufsz a).2
      arrived := m.arrived ++ m.net.receives a
      answers := m.answers ++
        if (netRecvUdp m.net port bufsz a).1.source.isSome then [⟨port, bufsz, (netRecvUdp m.net port bufsz a).1⟩]
        else [] }

def Mailbox.at (net : NetState) (ops : List PortOp) (k : Nat) : Mailbox :=
  stateAt Mailbox.step ⟨net, [], []⟩ ops k

/-- The call returned the datagram: its length, cut to the buffer, its payload as far as the frame
holds it, its sender. -/
structure Answers (d : Frame) (bufsz : Nat) (r : Received) : Prop where
  n : r.n = min (udpDataLen d) bufsz
  length : r.bytes.length = r.n
  bytes : ∀ j < r.n, 42 + j < d.len → r.bytes[j]? = some (d.data (42 + j))
  source : r.source = some (d.srcIp, d.srcPort)

/-- The datagrams for port `q` that have arrived are those returned by calls on `q`, in this order, and
those in the ring. -/
def Mailbox.Conserved (m : Mailbox) (q : Nat) : Prop :=
  ∃ taken, m.arrived.filter (·.dstPort == q) = taken ++ m.net.queued.filter (·.dstPort == q) ∧
    List.Forall₂ (fun d (a : Answer) => Answers d a.bufsz a.result) taken (m.answers.filter (·.port == q))

/-- No datagram is lost or out of order on its port, and a call on a port with a datagram in the ring
returns one. -/
def Delivering (net : NetState) (ops : List PortOp) : Prop :=
  ∀ k, (∀ q, (Mailbox.at net ops k).Conserved q) ∧
    ∀ port bufsz a, ops[k]? = some (.recv port bufsz a) →
      (∃ d ∈ (netPoll (Mailbox.at net ops k).net a).queued, d.dstPort = port) →
        (netRecvUdp (Mailbox.at net ops k).net port bufsz a).1.source ≠ none

/-- The ring is empty, or its oldest datagram is for this port. -/
def Matched (net : NetState) (port : Nat) : Prop := ∀ d ∈ net.queued.head?, d.dstPort = port

/-- No datagram arrives while the ring is full. -/
def NeverFull (net : NetState) (ops : List PortOp) : Prop :=
  ∀ k op f, ops[k]? = some op → op.frame = some f → f.IsDatagram →
    ((Mailbox.at net ops k).net.rxHead + 1) % 4 ≠ (Mailbox.at net ops k).net.rxTail

variable {net : NetState} {ops : List PortOp} {m : Mailbox} {f : Frame}

/-! ## Frames in slots -/

theorem Frame.trim_slot (old : Bytes) (f : Frame) : Frame.trim ⟨old.copy 0 f.data f.len, f.len⟩ = f.trim := by
  unfold Frame.trim
  congr 1
  funext x
  by_cases hx : x < f.len
  · rw [if_pos hx, if_pos hx]
    exact Bytes.copy_of_in _ _ ⟨Nat.zero_le x, by rw [Nat.zero_add]; exact hx⟩
  · rw [if_neg hx, if_neg hx]

theorem Frame.trim_data (h : x < f.len) : f.trim.data x = f.data x := if_pos h

theorem Frame.trim_be16 (h : x + 2 ≤ f.len) : f.trim.data.getBe16 x = f.data.getBe16 x :=
  Bytes.getBe16_congr fun i hi => Frame.trim_data (by omega)

theorem Frame.trim_be32 (h : x + 4 ≤ f.len) : f.trim.data.getBe32 x = f.data.getBe32 x :=
  Bytes.getBe32_congr fun i hi => Frame.trim_data (by omega)

/-! ## The ring -/

/-- Two states with the same ring. -/
structure SameRx (net net' : NetState) : Prop where
  ready : net'.ready = net.ready
  ring : net'.rxRing = net.rxRing
  head : net'.rxHead = net.rxHead
  tail : net'.rxTail = net.rxTail

theorem SameRx.refl (net : NetState) : SameRx net net := ⟨rfl, rfl, rfl, rfl⟩

theorem SameRx.trans {net'' : NetState} (h : SameRx net net') (h' : SameRx net' net'') : SameRx net net'' :=
  ⟨h'.ready.trans h.ready, h'.ring.trans h.ring, h'.head.trans h.head, h'.tail.trans h.tail⟩

theorem SameRx.queued (h : SameRx net net') : net'.queued = net.queued := by
  unfold NetState.queued
  rw [h.ring, h.head, h.tail]

theorem setSocket_sameRx (net : NetState) (i : Nat) (s : Socket) : SameRx net (net.setSocket i s) :=
  ⟨rfl, rfl, rfl, rfl⟩

theorem tcpSendRaw_sameRx (net : NetState) (i flags : Nat) (data : Bytes) (dlen : Nat) :
    SameRx net (tcpSendRaw net i flags data dlen) := by
  obtain ⟨sent, hsent⟩ := netSendRaw_rest net (tcpPacket net (net.sockets i) flags data dlen)
  refine SameRx.trans ?_ (setSocket_sameRx _ _ _)
  rw [hsent]
  exact ⟨rfl, rfl, rfl, rfl⟩

theorem tcpProcess_sameRx (net : NetState) (f : Frame) : SameRx net (tcpProcess net f) := by
  have haccept : ∀ i, SameRx net (tcpAccept net i f) := by
    intro i
    unfold tcpAccept
    split
    · exact .refl net
    · exact (setSocket_sameRx _ _ _).trans (tcpSendRaw_sameRx _ _ _ _ _)
  have hfin : ∀ net i, SameRx net (tcpFin net i) := fun net i =>
    (((setSocket_sameRx net i _).trans (tcpSendRaw_sameRx _ _ _ _ _)).trans (setSocket_sameRx _ _ _)).trans
      ((tcpSendRaw_sameRx _ _ _ _ _).trans (setSocket_sameRx _ _ _))
  unfold tcpProcess
  split
  · exact .refl net
  split
  · exact .refl net
  rename_i i _
  show SameRx net (if _ then _ else _)
  split
  · exact (setSocket_sameRx _ _ _).trans (tcpSendRaw_sameRx _ _ _ _ _)
  split
  · split
    · exact (haccept i).trans (hfin _ i)
    · exact haccept i
  · exact .refl net

/-- The indices are in range, and the frames in the ring have the headers. -/
structure RxOk (net : NetState) : Prop where
  head : net.rxHead < 4
  tail : net.rxTail < 4
  headers : ∀ f ∈ ringList 4 net.rxRing net.rxHead net.rxTail, 42 ≤ f.len

theorem RxOk.sameRx (h : RxOk net) (hs : SameRx net net') : RxOk net' := by
  refine ⟨hs.head ▸ h.head, hs.tail ▸ h.tail, ?_⟩
  rw [hs.ring, hs.head, hs.tail]
  exact h.headers

theorem netPoll_datagram (hry : net.ready = true) (h : f.IsDatagram) : netPoll net (some f) = rxStore net f := by
  obtain ⟨hip, hudp, hmin, hmax⟩ := h
  have hkp : ¬ (!net.ready || decide (f.len = 0) || decide (1514 < f.len)) = true := by
    simp only [hry, Bool.not_true, Bool.false_or, Bool.or_eq_true, decide_eq_true_eq]
    omega
  show (if _ then _ else _) = _
  rw [if_neg hkp, if_neg (by omega), if_pos (by omega), if_pos ⟨hudp, hmin⟩]

theorem netPoll_other (h : ¬ (net.ready = true ∧ f.IsDatagram)) : SameRx net (netPoll net (some f)) := by
  show SameRx net (if _ then _ else _)
  split
  · exact .refl net
  rename_i hkp
  simp only [Bool.or_eq_true, Bool.not_eq_true', decide_eq_true_eq, not_or, Bool.not_eq_false] at hkp
  obtain ⟨⟨hry, -⟩, hlong⟩ := hkp
  split
  · exact ⟨rfl, rfl, rfl, rfl⟩
  split
  · rename_i hip
    split
    · rename_i hudp
      exact absurd ⟨hry, hip.1, hudp.1, hudp.2, by omega⟩ h
    split
    · exact tcpProcess_sameRx net f
    · exact .refl net
  · exact .refl net

/-- `net_poll` appends the datagram it receives, unless the ring is full. -/
theorem netPoll_queued (h : RxOk net) (a : Option Frame)
    (hrm : ∀ f, a = some f → f.IsDatagram → (net.rxHead + 1) % 4 ≠ net.rxTail) :
    RxOk (netPoll net a) ∧ (netPoll net a).queued = net.queued ++ net.receives a := by
  cases a with
  | none => exact ⟨h, (List.append_nil _).symm⟩
  | some f =>
    by_cases hd : net.ready = true ∧ f.IsDatagram
    swap
    · have hnn : net.receives (some f) = [] := if_neg hd
      rw [hnn, List.append_nil]
      exact ⟨h.sameRx (netPoll_other hd), (netPoll_other hd).queued⟩
    have hone : net.receives (some f) = [f.trim] := if_pos hd
    have hfr := hrm f rfl hd.2
    have hct : ringCount 4 net.rxHead net.rxTail + 1 < 4 := by
      have ht := h.tail
      unfold ringCount
      omega
    have hring := ringList_push h.head h.tail hct net.rxRing
      ⟨(net.rxRing net.rxHead).data.copy 0 f.data f.len, f.len⟩
    rw [netPoll_datagram hd.1 hd.2, hone]
    unfold rxStore
    rw [if_pos hfr]
    refine ⟨⟨Nat.mod_lt _ (by omega), h.tail, ?_⟩, ?_⟩
    · rw [hring]
      intro g hg
      rcases List.mem_append.1 hg with hg | hg
      · exact h.headers g hg
      · rw [List.mem_singleton.1 hg]
        exact hd.2.2.2.1
    · show (ringList 4 (Function.update net.rxRing net.rxHead _) ((net.rxHead + 1) % 4) net.rxTail).map _ = _
      rw [hring, List.map_append]
      show _ ++ [Frame.trim _] = _
      rw [Frame.trim_slot]
      rfl

theorem answers_of_slot (f : Frame) (hlen : 42 ≤ f.len) {bufsz n : Nat} (hn : n = min (udpDataLen f) bufsz) :
    Answers f.trim bufsz ⟨n, (f.data.drop 42).toList n, some (f.srcIp, f.srcPort)⟩ := by
  have hsz : udpDataLen f.trim = udpDataLen f := by
    unfold udpDataLen Frame.udpLength
    rw [Frame.trim_be16 (by omega)]
  refine ⟨by rw [hsz]; exact hn, Bytes.length_toList .., fun j hj hin => ?_, ?_⟩
  · have hda : f.trim.data (42 + j) = f.data (42 + j) := if_pos hin
    rw [hda]
    unfold Bytes.toList
    rw [List.getElem?_map, List.getElem?_range hj]
    rfl
  · unfold Frame.srcIp Frame.srcPort
    rw [Frame.trim_be32 (by omega), Frame.trim_be16 (by omega)]

/-- `net_recv_udp` behind the poll: nothing is there, or the oldest datagram goes; it is returned
exactly if it is for the port. -/
theorem rxTake_cases (h : RxOk net) (port bufsz : Nat) :
    (net.queued = [] ∧ (rxTake net port bufsz).1.source = none ∧ (rxTake net port bufsz).2 = net) ∨
    ∃ d rest, net.queued = d :: rest ∧ RxOk (rxTake net port bufsz).2 ∧ (rxTake net port bufsz).2.queued = rest ∧
      ((d.dstPort = port ∧ Answers d bufsz (rxTake net port bufsz).1) ∨
        (d.dstPort ≠ port ∧ (rxTake net port bufsz).1.source = none)) := by
  by_cases hem : net.rxHead = net.rxTail
  · left
    have hnil : net.queued = [] := by
      unfold NetState.queued
      rw [hem, ringList_self h.tail]
      rfl
    unfold rxTake
    rw [if_pos hem]
    exact ⟨hnil, rfl, rfl⟩
  right
  have hpop := ringList_pop h.head h.tail hem net.rxRing
  have hlen : 42 ≤ (net.rxRing net.rxTail).len := h.headers _ (by rw [hpop]; exact List.mem_cons_self)
  have hport : (net.rxRing net.rxTail).trim.dstPort = (net.rxRing net.rxTail).dstPort :=
    Frame.trim_be16 (by omega)
  have hrs : RxOk { net with rxTail := (net.rxTail + 1) % 4 } := by
    refine ⟨h.head, Nat.mod_lt _ (by omega), fun g hg => h.headers g ?_⟩
    rw [hpop]
    exact List.mem_cons_of_mem _ hg
  refine ⟨(net.rxRing net.rxTail).trim, ({ net with rxTail := (net.rxTail + 1) % 4 } : NetState).queued, ?_, ?_⟩
  · show (ringList 4 net.rxRing net.rxHead net.rxTail).map _ = _
    rw [hpop]
    rfl
  unfold rxTake
  rw [if_neg hem, hport]
  rw [if_neg (by omega : ¬ (net.rxRing net.rxTail).len < 42)]
  by_cases hp : (net.rxRing net.rxTail).dstPort = port
  · rw [if_neg (not_not.2 hp)]
    refine ⟨hrs, rfl, .inl ⟨hp, answers_of_slot _ hlen ?_⟩⟩
    split <;> omega
  · rw [if_pos hp]
    exact ⟨hrs, rfl, .inr ⟨hp, rfl⟩⟩

/-! ## Conservation -/

/-- What a call of `net_recv_udp` does behind the poll. -/
def Mailbox.take (m : Mailbox) (port bufsz : Nat) : Mailbox :=
  { net := (rxTake m.net port bufsz).2
    arrived := m.arrived
    answers := m.answers ++
      if (rxTake m.net port bufsz).1.source.isSome then [⟨port, bufsz, (rxTake m.net port bufsz).1⟩] else [] }

theorem Mailbox.Conserved.poll {q : Nat} (h : m.Conserved q) {a : Option Frame}
    (hq : (netPoll m.net a).queued = m.net.queued ++ m.net.receives a) : (m.step (.poll a)).Conserved q := by
  obtain ⟨taken, harrived, hanswers⟩ := h
  refine ⟨taken, ?_, hanswers⟩
  show (m.arrived ++ m.net.receives a).filter _ = taken ++ (netPoll m.net a).queued.filter _
  rw [hq, List.filter_append, List.filter_append, harrived, List.append_assoc]

theorem Mailbox.Conserved.length {q : Nat} (h : m.Conserved q) :
    (m.arrived.filter (·.dstPort == q)).length =
      (m.answers.filter (·.port == q)).length + (m.net.queued.filter (·.dstPort == q)).length := by
  obtain ⟨taken, harrived, hanswers⟩ := h
  rw [harrived, List.length_append, hanswers.length_eq]

/-- A call that returns the oldest datagram to its port keeps everything. -/
theorem Mailbox.Conserved.take (h : ∀ q, m.Conserved q) (hok : RxOk m.net) (hm : Matched m.net port)
    (bufsz q : Nat) : (m.take port bufsz).Conserved q := by
  obtain ⟨taken, harrived, hanswers⟩ := h q
  rcases rxTake_cases hok port bufsz with ⟨-, hnn, hsm⟩ | ⟨d, rest, hqueue, -, hrs, hd⟩
  · refine ⟨taken, ?_, ?_⟩
    · show m.arrived.filter _ = taken ++ (rxTake m.net port bufsz).2.queued.filter _
      rw [hsm]
      exact harrived
    · unfold Mailbox.take
      rw [hnn]
      show List.Forall₂ _ taken ((m.answers ++ []).filter _)
      rw [List.append_nil]
      exact hanswers
  have hport : d.dstPort = port := hm d (by rw [hqueue]; rfl)
  obtain ⟨-, hanswer⟩ | ⟨hne, -⟩ := hd
  swap
  · exact absurd hport hne
  have hso : (rxTake m.net port bufsz).1.source.isSome = true := by rw [hanswer.source]; rfl
  rw [hqueue] at harrived
  by_cases hq : port = q
  · -- the datagram moves from the ring to the answers
    refine ⟨taken ++ [d], ?_, ?_⟩
    · show m.arrived.filter _ = taken ++ [d] ++ (rxTake m.net port bufsz).2.queued.filter _
      rw [hrs, harrived, List.filter_cons_of_pos (by rw [hport, hq]; exact beq_self_eq_true q), List.append_assoc]
      rfl
    · unfold Mailbox.take
      rw [if_pos hso]
      rw [List.filter_append]
      refine List.rel_append hanswers ?_
      rw [List.filter_cons_of_pos (by simpa using hq)]
      exact .cons hanswer .nil
  refine ⟨taken, ?_, ?_⟩
  · show m.arrived.filter _ = taken ++ (rxTake m.net port bufsz).2.queued.filter _
    rw [hrs, harrived, List.filter_cons_of_neg (by rw [hport]; simpa using hq)]
  · unfold Mailbox.take
    rw [if_pos hso]
    rw [List.filter_append, List.filter_cons_of_neg (by simpa using hq), List.filter_nil, List.append_nil]
    exact hanswers

/-- A call that takes a datagram of another port loses it. -/
theorem Mailbox.Conserved.matched {bufsz : Nat} (h : ∀ q, m.Conserved q) (hok : RxOk m.net)
    (h' : ∀ q, (m.take port bufsz).Conserved q) : Matched m.net port := by
  intro d hd
  rcases rxTake_cases hok port bufsz with ⟨hnil, -, -⟩ | ⟨d', rest, hqueue, -, hrs, hcs⟩
  · rw [hnil] at hd
    cases hd
  rw [hqueue] at hd
  cases hd
  obtain ⟨hport, -⟩ | ⟨-, hnn⟩ := hcs
  · exact hport
  -- one datagram for this port less in the ring, and no answer for it
  exfalso
  have hbf := (h d.dstPort).length
  have haf : (m.arrived.filter (·.dstPort == d.dstPort)).length =
      ((m.take port bufsz).answers.filter (·.port == d.dstPort)).length +
        ((m.take port bufsz).net.queued.filter (·.dstPort == d.dstPort)).length := (h' d.dstPort).length
  have hanswers : (m.take port bufsz).answers = m.answers := by
    unfold Mailbox.take
    rw [hnn]
    exact List.append_nil _
  have hqueued : (m.take port bufsz).net.queued = rest := hrs
  rw [hanswers, hqueued] at haf
  rw [hqueue, List.filter_cons_of_pos (by simp), List.length_cons] at hbf
  omega

theorem Matched.source (hm : Matched net port) (hok : RxOk net) (hne : net.queued ≠ []) (bufsz : Nat) :
    (rxTake net port bufsz).1.source ≠ none := by
  rcases rxTake_cases hok port bufsz with ⟨hnil, -, -⟩ | ⟨d, rest, hqueue, -, -, hcs⟩
  · exact absurd hnil hne
  have hport : d.dstPort = port := hm d (by rw [hqueue]; rfl)
  obtain ⟨-, hanswer⟩ | ⟨hot, -⟩ := hcs
  · rw [hanswer.source]
    exact Option.some_ne_none _
  · exact absurd hport hot

section

variable (hok : RxOk net) (hfull : NeverFull net ops)

include hok hfull

theorem rxOk_at (k : Nat) : RxOk (Mailbox.at net ops k).net := by
  refine stateAt_always (fun _ (m : Mailbox) => RxOk m.net) hok (fun k op hop h => ?_) (fun _ _ _ h => h) k
  have hpoll := netPoll_queued h op.frame (fun f hf hd => hfull k op f hop hf hd)
  cases op with
  | poll a => exact hpoll.1
  | recv port bufsz a =>
    rcases rxTake_cases hpoll.1 port bufsz with ⟨-, -, hsm⟩ | ⟨_, _, -, hok, -, -⟩
    · exact (congrArg RxOk hsm).mpr hpoll.1
    · exact hok

/-- What the poll of operation `k` leaves. -/
theorem poll_at {k : Nat} {op : PortOp} (hop : ops[k]? = some op) :
    RxOk (netPoll (Mailbox.at net ops k).net op.frame) ∧
      ((∀ q, (Mailbox.at net ops k).Conserved q) → ∀ q, ((Mailbox.at net ops k).step (.poll op.frame)).Conserved q) := by
  obtain ⟨hok', hqueued⟩ := netPoll_queued (rxOk_at hok hfull k) op.frame (fun f hf hd => hfull k op f hop hf hd)
  exact ⟨hok', fun h q => (h q).poll hqueued⟩

/-- Datagrams reach their ports exactly if every call of `net_recv_udp` finds the ring empty or a
datagram for its own port as the oldest. -/
theorem delivering_iff (hempty : net.rxHead = net.rxTail) :
    Delivering net ops ↔ ∀ k port bufsz a, ops[k]? = some (.recv port bufsz a) →
      Matched (netPoll (Mailbox.at net ops k).net a) port := by
  constructor
  · intro h k port bufsz a hop
    obtain ⟨hok', hpoll⟩ := poll_at hok hfull hop
    have hnx : ∀ q, ((Mailbox.at net ops k).step (.recv port bufsz a)).Conserved q := by
      have haf := (h (k + 1)).1
      unfold Mailbox.at at haf
      rw [stateAt_succ hop] at haf
      exact haf
    exact Mailbox.Conserved.matched (hpoll (h k).1) hok' hnx
  intro hmatched
  have hconserved : ∀ k, ∀ q, (Mailbox.at net ops k).Conserved q := by
    intro k
    induction k with
    | zero =>
      intro q
      refine ⟨[], ?_, .nil⟩
      show [] = [] ++ ((ringList 4 net.rxRing net.rxHead net.rxTail).map _).filter _
      rw [hempty, ringList_self hok.tail]
      rfl
    | succ k ih =>
      unfold Mailbox.at
      cases hop : ops[k]? with
      | none =>
        rw [stateAt_stop hop]
        exact ih
      | some op =>
        rw [stateAt_succ hop]
        obtain ⟨hok', hpoll⟩ := poll_at hok hfull hop
        cases op with
        | poll a => exact hpoll ih
        | recv port bufsz a =>
          exact Mailbox.Conserved.take (hpoll ih) hok'
            (hmatched k port bufsz a hop) bufsz
  refine fun k => ⟨hconserved k, fun port bufsz a hop ⟨d, hd, _⟩ => ?_⟩
  have hok' : RxOk (netPoll (Mailbox.at net ops k).net a) := (poll_at hok hfull hop).1
  exact (hmatched k port bufsz a hop).source hok' (List.ne_nil_of_mem hd) bufsz

end

/-! ## Two runs -/

theorem sampleNet_rxOk : RxOk sampleNet := ⟨by decide, by decide, fun _ h => absurd h List.not_mem_nil⟩

/-- A datagram of three bytes for port 68. -/
def sampleDatagram : Frame := udpPacket sampleNet broadcastMac 0x0A00020F 67 68 (fun _ => 7) 3

/-- It arrives, and the client of port 68 asks for it. -/
def sampleMail : List PortOp := [.poll (some sampleDatagram), .recv 68 556 none]

/-- It arrives, and before the client of port 68 another one asks. -/
def sampleLoss : List PortOp := [.poll (some sampleDatagram), .recv 1053 512 none, .recv 68 556 none]

theorem sampleMail_neverFull : NeverFull sampleNet sampleMail := by
  intro k op f hop hf _
  rcases k with _ | _ | k
  · exact by decide
  · simp only [sampleMail, List.getElem?_cons_succ, List.getElem?_cons_zero, Option.some.injEq] at hop
    rw [← hop] at hf
    cases hf
  · simp [sampleMail] at hop

theorem sampleLoss_neverFull : NeverFull sampleNet sampleLoss := by
  intro k op f hop hf _
  rcases k with _ | _ | _ | k
  · exact by decide
  · simp only [sampleLoss, List.getElem?_cons_succ, List.getElem?_cons_zero, Option.some.injEq] at hop
    rw [← hop] at hf
    cases hf
  · simp only [sampleLoss, List.getElem?_cons_succ, List.getElem?_cons_zero, Option.some.injEq] at hop
    rw [← hop] at hf
    cases hf
  · simp [sampleLoss] at hop

theorem delivering_iff_sample :
    Delivering sampleNet sampleMail ∧ (Mailbox.at sampleNet sampleMail 2).answers.map (·.result.n) = [3] := by
  refine ⟨(delivering_iff sampleNet_rxOk sampleMail_neverFull rfl).2 ?_, by decide +kernel⟩
  intro k port bufsz a hop d hd
  rcases k with _ | _ | k
  · cases hop
  · cases hop
    have hport : (netPoll (Mailbox.at sampleNet sampleMail 1).net none).queued.head?.map (·.dstPort) = some 68 := by
      decide +kernel
    rw [Option.mem_def.1 hd] at hport
    exact Option.some.inj hport
  · simp [sampleMail] at hop

/-- The call on port 1053 returns nothing and takes the datagram for port 68 with it. -/
theorem datagram_lost :
    RxOk sampleNet ∧ sampleNet.rxHead = sampleNet.rxTail ∧ NeverFull sampleNet sampleLoss ∧
      (Mailbox.at sampleNet sampleLoss 3).arrived.map (·.dstPort) = [68] ∧
      (Mailbox.at sampleNet sampleLoss 3).answers.length = 0 ∧
      ¬ (Mailbox.at sampleNet sampleLoss 2).Conserved 68 := by
  refine ⟨sampleNet_rxOk, rfl, sampleLoss_neverFull, by decide +kernel, by decide +kernel, fun h => ?_⟩
  have hlen := h.length
  have harrived : ((Mailbox.at sampleNet sampleLoss 2).arrived.filter (·.dstPort == 68)).length = 1 := by decide +kernel
  have hanswers : ((Mailbox.at sampleNet sampleLoss 2).answers.filter (·.port == 68)).length = 0 := by decide +kernel
  have hqueued : ((Mailbox.at sampleNet sampleLoss 2).net.queued.filter (·.dstPort == 68)).length = 0 := by decide +kernel
  omega

end KumOS.Net
