import KumOS.Net.Sockets

/-!
# `dhcp.c`: the DHCP client

`dhcp_request` sends a DISCOVER, answers every OFFER with a REQUEST and returns 0 at
the first ACK.  `parse_offer` stores the router and DNS options while it scans the
message, and nothing compares `xid`.  So the lease is the one of this exchange
exactly if the datagrams that came in say so themselves:

    Sound for the call ↔ Proper lease (messages heard)             (dhcpRequest_iff)
-/

namespace KumOS.Net

open Lib

/-! ## Messages -/

/-- `offered_ip`, `offered_gw` and `offered_dns`. -/
structure Lease where
  ip : Nat
  gw : Nat
  dns : Nat
  deriving DecidableEq, Repr

variable {lease0 : Lease}

def dhcpXid : Nat := 0xDEAD0042

/-- The fields that `build_discover` and `build_request` set alike; `xid` is stored as it is. -/
def dhcpHeader (xid : Nat) (mac : List UInt8) : Bytes :=
  let p : Bytes := fun _ => 0
  let p := ((p.put8 0 1).put8 1 1).put8 2 6
  let p := (p.put32 4 xid).putBe16 10 0x8000
  (p.copy 28 (.ofList mac) 6).putBe32 236 0x63825363

def buildDiscover (xid : Nat) (mac : List UInt8) : Bytes :=
  let options := [53, 1, 1, 61, 7, 1] ++ mac ++ [55, 3, 1, 3, 6, 255]
  (dhcpHeader xid mac).copy 240 (.ofList options) options.length

/-- The four bytes of an address, most significant first. -/
def ipBytes (ip : Nat) : List UInt8 :=
  [UInt8.ofNat (ip / 2 ^ 24), UInt8.ofNat (ip / 2 ^ 16), UInt8.ofNat (ip / 2 ^ 8), UInt8.ofNat ip]

def buildRequest (xid : Nat) (mac : List UInt8) (offerIp srvIp : Nat) : Bytes :=
  let options := [53, 1, 3, 50, 4] ++ ipBytes offerIp ++ [54, 4] ++ ipBytes srvIp ++ [255]
  (dhcpHeader xid mac).copy 240 (.ofList options) options.length

/-! ## `parse_offer` -/

/-- The variables the scan of the options sets. -/
structure Scan where
  msgType : Nat
  srvIp : Nat
  gw : Nat
  dns : Nat

/-- One option at `o - 2`, with its tag and length. -/
def Scan.option (p : Bytes) (off : Nat) (st : Scan) : Scan :=
  let tag := (p (240 + off)).toNat
  let len := (p (241 + off)).toNat
  let o := 242 + off
  if tag = 53 then { st with msgType := (p o).toNat }
  else if tag = 54 ∧ len = 4 then { st with srvIp := p.getBe32 o }
  else if tag = 3 ∧ 4 ≤ len then { st with gw := p.getBe32 o }
  else if tag = 6 ∧ 4 ≤ len then { st with dns := p.getBe32 o }
  else st

/-- The loop of `parse_offer` from `options[off]` on, `n` rounds at most; every round advances, so 308
are enough.  An option may reach behind the message, into whatever memory holds there. -/
def scanOptions (p : Bytes) : Nat → Nat → Scan → Scan
  | 0, _, st => st
  | n + 1, off, st =>
    if (p (240 + off)).toNat = 255 ∨ 308 ≤ off then st
    else if (p (240 + off)).toNat = 0 then scanOptions p n (off + 1) st
    else scanOptions p n (off + 2 + (p (241 + off)).toNat) (st.option p off)

/-- `parse_offer`: the result, `*srv_ip` and the lease. -/
def parseOffer (p : Bytes) (srvIp : Nat) (lease : Lease) : Nat × Nat × Lease :=
  if p.getBe32 236 ≠ 0x63825363 then (0, srvIp, lease)
  else
    let st := scanOptions p 308 0 ⟨0, 0, lease.gw, lease.dns⟩
    let lease := { lease with gw := st.gw, dns := st.dns }
    if st.msgType = 2 ∨ st.msgType = 5 then (st.msgType, st.srvIp, { lease with ip := p.getBe32 16 })
    else (0, st.srvIp, lease)

/-! ## `dhcp_request` -/

/-- A message that was parsed: the result, the lease before and after, and the REQUEST sent in answer. -/
structure Parsed where
  buf : Bytes
  kind : Nat
  before : Lease
  after : Lease
  request : Option Bytes

/-- The state of the call; `log` records the messages parsed so far. -/
structure Dhcp where
  net : NetState
  lease : Lease
  srvIp : Nat
  log : List Parsed

variable {d : Dhcp}

/-- What one round of the loop meets: the frames that `net_poll()` and `net_recv_udp` find, and the
contents of `buf` before. -/
structure Try where
  polled : Option Frame
  arrived : Option Frame
  stack : Bytes

/-- One round; true if it ends the loop with an ACK. -/
def dhcpTry (d : Dhcp) (t : Try) : Bool × Dhcp :=
  let r := (netRecvUdp (netPoll d.net t.polled) 68 556 t.arrived).1
  let net := (netRecvUdp (netPoll d.net t.polled) 68 556 t.arrived).2
  if r.n < 548 then (false, { d with net := net })
  else
    let buf := t.stack.copy 0 (.ofList r.bytes) r.n
    let (kind, srvIp, lease) := parseOffer buf d.srvIp d.lease
    if kind = 2 then
      let pkt := buildRequest dhcpXid net.myMac lease.ip srvIp
      let net := (netSendUdp net 0xFFFFFFFF 68 67 pkt 548).2
      (false, ⟨net, lease, srvIp, d.log ++ [⟨buf, kind, d.lease, lease, some pkt⟩]⟩)
    else (kind == 5, ⟨net, lease, srvIp, d.log ++ [⟨buf, kind, d.lease, lease, none⟩]⟩)

def dhcpLoop : List Try → Dhcp → Int × Dhcp
  | [], d => (-1, d)
  | t :: ts, d =>
    let (done, d) := dhcpTry d t
    if done then (0, d) else dhcpLoop ts d

def dhcpRequest (net : NetState) (lease : Lease) (tries : Nat → Try) : Int × Dhcp :=
  if !net.ready then (-1, ⟨net, lease, 0, []⟩)
  else
    let net := (netSendUdp net 0xFFFFFFFF 68 67 (buildDiscover dhcpXid net.myMac) 548).2
    dhcpLoop ((List.range 100).map tries) ⟨net, lease, 0, []⟩

/-! ## What a message says -/

/-- The options the scan visits, by their offsets. -/
def optionsAt (p : Bytes) : Nat → Nat → List Nat
  | 0, _ => []
  | n + 1, off =>
    if (p (240 + off)).toNat = 255 ∨ 308 ≤ off then []
    else if (p (240 + off)).toNat = 0 then optionsAt p n (off + 1)
    else off :: optionsAt p n (off + 2 + (p (241 + off)).toNat)

theorem scanOptions_eq (p : Bytes) (n off : Nat) (st : Scan) :
    scanOptions p n off st = (optionsAt p n off).foldl (fun st off => st.option p off) st := by
  induction n generalizing off st with
  | zero => rfl
  | succ n ih =>
    unfold scanOptions optionsAt
    split
    · rfl
    split
    · exact ih _ _
    · exact ih _ _

/-- Whether the message has the magic number. -/
def isDhcp (p : Bytes) : Prop := p.getBe32 236 = 0x63825363

instance (p : Bytes) : Decidable (isDhcp p) := inferInstanceAs (Decidable (_ = _))

/-- The last value of an address option of at least four bytes. -/
def addressOption (tag : Nat) (p : Bytes) : Option Nat :=
  if isDhcp p then
    ((optionsAt p 308 0).filter fun off => (p (240 + off)).toNat = tag ∧ 4 ≤ (p (241 + off)).toNat).getLast?.map
      fun off => p.getBe32 (242 + off)
  else none

def router : Bytes → Option Nat := addressOption 3

def dnsServer : Bytes → Option Nat := addressOption 6

/-- The last message type option. -/
def messageType (p : Bytes) : Nat :=
  (((optionsAt p 308 0).filter fun off => (p (240 + off)).toNat = 53).getLast?.map
    fun off => (p (242 + off)).toNat).getD 0

/-- 2 for an OFFER, 5 for an ACK, 0 for what `parse_offer` rejects. -/
def messageKind (p : Bytes) : Nat :=
  if isDhcp p ∧ (messageType p = 2 ∨ messageType p = 5) then messageType p else 0

def yiaddr (p : Bytes) : Nat := p.getBe32 16

def xidOf (p : Bytes) : Nat := p.get32 4

/-- What the message does to the lease. -/
def Lease.hear (l : Lease) (p : Bytes) : Lease where
  ip := if messageKind p = 0 then l.ip else yiaddr p
  gw := (router p).getD l.gw
  dns := (dnsServer p).getD l.dns

/-- A field that some elements set: the last one of them decides. -/
theorem foldl_set {α β S : Type} (get : S → β) (f : S → α → S) (c : α → Prop) [DecidablePred c] (v : α → β)
    (hf : ∀ s x, get (f s x) = if c x then v x else get s) (l : List α) (s : S) :
    get (l.foldl f s) = ((l.filter fun x => c x).getLast?.map v).getD (get s) := by
  induction l generalizing s with
  | nil => rfl
  | cons x l ih =>
    rw [List.foldl_cons, ih, hf]
    by_cases hx : c x
    · rw [if_pos hx, List.filter_cons_of_pos (by simpa using hx), List.getLast?_cons]
      cases (l.filter fun x => decide (c x)).getLast? <;> rfl
    · rw [if_neg hx, List.filter_cons_of_neg (by simpa using hx)]

theorem Scan.option_fields (p : Bytes) (st : Scan) (off : Nat) :
    (st.option p off).msgType = (if (p (240 + off)).toNat = 53 then (p (242 + off)).toNat else st.msgType) ∧
    (st.option p off).gw =
      (if (p (240 + off)).toNat = 3 ∧ 4 ≤ (p (241 + off)).toNat then p.getBe32 (242 + off) else st.gw) ∧
    (st.option p off).dns =
      (if (p (240 + off)).toNat = 6 ∧ 4 ≤ (p (241 + off)).toNat then p.getBe32 (242 + off) else st.dns) := by
  unfold Scan.option
  generalize (p (240 + off)).toNat = tag
  generalize (p (241 + off)).toNat = len
  by_cases h53 : tag = 53
  · rw [if_pos h53, if_pos h53, if_neg (by omega), if_neg (by omega)]
    exact ⟨rfl, rfl, rfl⟩
  rw [if_neg h53, if_neg h53]
  by_cases h54 : tag = 54 ∧ len = 4
  · rw [if_pos h54, if_neg (by omega), if_neg (by omega)]
    exact ⟨rfl, rfl, rfl⟩
  rw [if_neg h54]
  by_cases h3 : tag = 3 ∧ 4 ≤ len
  · rw [if_pos h3, if_pos h3, if_neg (by omega)]
    exact ⟨rfl, rfl, rfl⟩
  rw [if_neg h3, if_neg h3]
  split
  · exact ⟨rfl, rfl, rfl⟩
  · exact ⟨rfl, rfl, rfl⟩

theorem scanOptions_fields (p : Bytes) (st : Scan) (h : isDhcp p) :
    (scanOptions p 308 0 st).msgType = (((optionsAt p 308 0).filter fun off => (p (240 + off)).toNat = 53).getLast?.map
      fun off => (p (242 + off)).toNat).getD st.msgType ∧
    (scanOptions p 308 0 st).gw = (router p).getD st.gw ∧ (scanOptions p 308 0 st).dns = (dnsServer p).getD st.dns := by
  unfold router dnsServer addressOption
  rw [if_pos h, if_pos h, scanOptions_eq]
  exact ⟨foldl_set Scan.msgType _ (fun off => (p (240 + off)).toNat = 53) _
      (fun st off => (Scan.option_fields p st off).1) _ _,
    foldl_set Scan.gw _ (fun off => (p (240 + off)).toNat = 3 ∧ 4 ≤ (p (241 + off)).toNat) _
      (fun st off => (Scan.option_fields p st off).2.1) _ _,
    foldl_set Scan.dns _ (fun off => (p (240 + off)).toNat = 6 ∧ 4 ≤ (p (241 + off)).toNat) _
      (fun st off => (Scan.option_fields p st off).2.2) _ _⟩

/-- `parse_offer` does what the message says. -/
theorem parseOffer_eq (p : Bytes) (srvIp : Nat) (lease : Lease) :
    (parseOffer p srvIp lease).1 = messageKind p ∧ (parseOffer p srvIp lease).2.2 = lease.hear p := by
  unfold parseOffer
  by_cases hm : isDhcp p
  · obtain ⟨htype, hgw, hdns⟩ := scanOptions_fields p ⟨0, 0, lease.gw, lease.dns⟩ hm
    replace htype : (scanOptions p 308 0 ⟨0, 0, lease.gw, lease.dns⟩).msgType = messageType p := htype
    have hmagic : ¬ p.getBe32 236 ≠ 0x63825363 := not_not.2 hm
    rw [if_neg hmagic]
    dsimp only
    rw [htype, hgw, hdns]
    unfold Lease.hear messageKind
    by_cases hk : messageType p = 2 ∨ messageType p = 5
    · have hne : messageType p ≠ 0 := by omega
      rw [if_pos hk, if_pos ⟨hm, hk⟩, if_neg hne]
      exact ⟨rfl, rfl⟩
    · rw [if_neg hk, if_neg (fun h => hk h.2), if_pos rfl]
      exact ⟨rfl, rfl⟩
  · have hr : router p = none := if_neg hm
    have hd : dnsServer p = none := if_neg hm
    have hk : messageKind p = 0 := if_neg fun h => hm h.1
    have hmagic : p.getBe32 236 ≠ 0x63825363 := hm
    rw [if_pos hmagic]
    unfold Lease.hear
    rw [hr, hd, hk]
    exact ⟨rfl, rfl⟩

/-! ## The log -/

/-- The log is what the messages in it say, one after the other. -/
structure Logged (lease0 : Lease) (d : Dhcp) : Prop where
  lease : d.lease = (d.log.map Parsed.buf).foldl Lease.hear lease0
  kind : ∀ e ∈ d.log, e.kind = messageKind e.buf
  before : ∀ k e, d.log[k]? = some e → e.before = ((d.log.map Parsed.buf).take k).foldl Lease.hear lease0
  after : ∀ e ∈ d.log, e.after = e.before.hear e.buf
  request : ∀ e ∈ d.log, e.kind = 2 → ∃ pkt, e.request = some pkt ∧ xidOf pkt = dhcpXid

theorem xidOf_header (mac : List UInt8) (options : List UInt8) :
    xidOf ((dhcpHeader dhcpXid mac).copy 240 (.ofList options) options.length) = dhcpXid := by
  have hkp : ∀ p : Bytes, (((((p.put32 4 dhcpXid).putBe16 10 0x8000).copy 28 (.ofList mac) 6).putBe32 236 0x63825363).copy
      240 (.ofList options) options.length).get32 4 = dhcpXid := by
    intro p
    refine (Bytes.get32_congr fun i hi => ?_).trans (Bytes.get32_put32_same p (by decide))
    rw [Bytes.copy_of_out _ _ (by omega), Bytes.putBe32_of_out _ (by omega), Bytes.copy_of_out _ _ (by omega),
      Bytes.putBe16_of_out _ (by omega)]
  exact hkp _

theorem Logged.snoc (h : Logged lease0 d) (net : NetState) (srvIp : Nat) {e : Parsed}
    (hkind : e.kind = messageKind e.buf) (hbf : e.before = d.lease) (haf : e.after = e.before.hear e.buf)
    (hrequest : e.kind = 2 → ∃ pkt, e.request = some pkt ∧ xidOf pkt = dhcpXid) :
    Logged lease0 ⟨net, e.after, srvIp, d.log ++ [e]⟩ := by
  have hall : ∀ {P : Parsed → Prop}, (∀ e ∈ d.log, P e) → P e → ∀ e' ∈ d.log ++ [e], P e' := by
    intro P hold hnew e' he'
    rcases List.mem_append.1 he' with he' | he'
    · exact hold e' he'
    · rw [List.mem_singleton.1 he']
      exact hnew
  refine ⟨?_, hall h.kind hkind, fun k e' he' => ?_, hall h.after haf, hall h.request hrequest⟩
  · rw [List.map_append, List.foldl_append, ← h.lease, haf, hbf]
    rfl
  · rw [List.map_append]
    by_cases hk : k < d.log.length
    · rw [List.getElem?_append_left hk] at he'
      rw [h.before k e' he', List.take_append_of_le_length (by rw [List.length_map]; omega)]
    rw [List.getElem?_append_right (by omega)] at he'
    have hla : k = d.log.length := by
      by_contra hne
      rw [List.getElem?_eq_none (by rw [List.length_singleton]; omega)] at he'
      cases he'
    rw [hla, Nat.sub_self] at he'
    cases he'
    rw [hla, List.take_left' (by rw [List.length_map]), ← h.lease]
    exact hbf

/-- One round: nothing is parsed, or one message is, and an ACK ends the loop. -/
theorem dhcpTry_cases (h : Logged lease0 d) (t : Try) :
    Logged lease0 (dhcpTry d t).2 ∧
      (((dhcpTry d t).2.log = d.log ∧ (dhcpTry d t).1 = false) ∨
        ∃ e, (dhcpTry d t).2.log = d.log ++ [e] ∧ ((dhcpTry d t).1 = true ↔ e.kind = 5)) := by
  unfold dhcpTry
  generalize (netRecvUdp (netPoll d.net t.polled) 68 556 t.arrived).1 = r
  dsimp only
  by_cases hn : r.n < 548
  · rw [if_pos hn]
    exact ⟨⟨h.lease, h.kind, h.before, h.after, h.request⟩, .inl ⟨rfl, rfl⟩⟩
  rw [if_neg hn]
  generalize t.stack.copy 0 (.ofList r.bytes) r.n = buf
  obtain ⟨hkind, hlease⟩ := parseOffer_eq buf d.srvIp d.lease
  generalize parseOffer buf d.srvIp d.lease = out at hkind hlease
  obtain ⟨kind, srvIp, lease⟩ := out
  by_cases h2 : kind = 2
  · rw [if_pos h2]
    refine ⟨h.snoc (e := ⟨buf, kind, d.lease, lease, some _⟩) _ _ hkind rfl hlease
      fun _ => ⟨_, rfl, xidOf_header _ _⟩, .inr ⟨_, rfl, ?_⟩⟩
    dsimp only
    rw [h2]
    decide
  · rw [if_neg h2]
    exact ⟨h.snoc (e := ⟨buf, kind, d.lease, lease, none⟩) _ _ hkind rfl hlease fun hk => absurd hk h2,
      .inr ⟨_, rfl, beq_iff_eq⟩⟩

/-- The call returns 0 exactly if the last message heard is an ACK. -/
theorem dhcpLoop_spec (ts : List Try) (h : Logged lease0 d) (hno : ∀ e ∈ d.log.getLast?, e.kind ≠ 5) :
    Logged lease0 (dhcpLoop ts d).2 ∧
      ((dhcpLoop ts d).1 = 0 ↔ ∃ e ∈ (dhcpLoop ts d).2.log.getLast?, e.kind = 5) := by
  induction ts generalizing d with
  | nil =>
    have hret : (dhcpLoop [] d).1 = -1 := rfl
    refine ⟨h, fun h0 => absurd (hret.symm.trans h0) (by decide), ?_⟩
    rintro ⟨e, he, hk⟩
    exact absurd hk (hno e he)
  | cons t ts ih =>
    obtain ⟨hlog, hcs⟩ := dhcpTry_cases h t
    unfold dhcpLoop
    generalize dhcpTry d t = out at hlog hcs
    obtain ⟨done, d'⟩ := out
    dsimp only at hlog hcs ⊢
    obtain ⟨hsm, hdone⟩ | ⟨e, hsnoc, hdone⟩ := hcs
    · rw [hdone]
      exact ih hlog (by rw [hsm]; exact hno)
    have hla : d'.log.getLast? = some e := by rw [hsnoc, List.getLast?_concat]
    cases done with
    | true => exact ⟨hlog, fun _ => ⟨e, hla, hdone.1 rfl⟩, fun _ => rfl⟩
    | false =>
      refine ih hlog fun e' he' => ?_
      rw [hla] at he'
      cases he'
      exact fun hk => absurd (hdone.2 hk) (by decide)

theorem dhcpRequest_logged (net : NetState) (lease : Lease) (tries : Nat → Try) :
    Logged lease (dhcpRequest net lease tries).2 ∧
      ((dhcpRequest net lease tries).1 = 0 ↔ ∃ e ∈ (dhcpRequest net lease tries).2.log.getLast?, e.kind = 5) := by
  have hsr : ∀ net, Logged lease ⟨net, lease, 0, []⟩ := fun net =>
    ⟨rfl, fun _ h => absurd h List.not_mem_nil, fun _ _ h => absurd h (by simp), fun _ h => absurd h List.not_mem_nil,
      fun _ h => absurd h List.not_mem_nil⟩
  unfold dhcpRequest
  split
  · refine ⟨hsr net, fun h0 => absurd (show (-1 : Int) = 0 from h0) (by decide), ?_⟩
    rintro ⟨e, he, -⟩
    cases he
  · exact dhcpLoop_spec _ (hsr _) fun e he => by cases he

/-! ## The lease -/

/-- What the call promises: it returns 0 only for an OFFER and a later ACK of its own exchange, with
the REQUEST in between and the lease from these two messages, and a message that is rejected or of
another exchange leaves the lease as it was. -/
structure Sound (mac : List UInt8) (lease0 : Lease) (ret : Int) (d : Dhcp) : Prop where
  granted : ret = 0 → ∃ before o a pkt, d.log = before ++ [a] ∧ o ∈ before ∧ o.kind = 2 ∧ a.kind = 5 ∧
    xidOf o.buf = xidOf (buildDiscover dhcpXid mac) ∧ o.request = some pkt ∧ xidOf a.buf = xidOf pkt ∧
    d.lease = ⟨yiaddr a.buf, (router a.buf <|> router o.buf).getD lease0.gw,
      (dnsServer a.buf <|> dnsServer o.buf).getD lease0.dns⟩
  untouched : ∀ e ∈ d.log, e.kind = 0 ∨ xidOf e.buf ≠ xidOf (buildDiscover dhcpXid mac) → e.after = e.before

/-- The message names nothing that is not in the lease already. -/
structure Harmless (l : Lease) (p : Bytes) : Prop where
  gw : ∀ g ∈ router p, g = l.gw
  dns : ∀ g ∈ dnsServer p, g = l.dns
  ip : messageKind p ≠ 0 → yiaddr p = l.ip

/-- What the messages themselves must be like. -/
structure Proper (lease0 : Lease) (msgs : List Bytes) : Prop where
  harmless : ∀ k p, msgs[k]? = some p → messageKind p = 0 ∨ xidOf p ≠ dhcpXid →
    Harmless ((msgs.take k).foldl Lease.hear lease0) p
  exchange : ∀ before a, msgs = before ++ [a] → messageKind a = 5 →
    xidOf a = dhcpXid ∧ ∃ o ∈ before, messageKind o = 2 ∧ xidOf o = dhcpXid ∧
      (router a = none → (before.filterMap router).getLast?.getD lease0.gw = (router o).getD lease0.gw) ∧
      (dnsServer a = none → (before.filterMap dnsServer).getLast?.getD lease0.dns = (dnsServer o).getD lease0.dns)

theorem hear_eq_iff (l : Lease) (p : Bytes) : l.hear p = l ↔ Harmless l p := by
  have hfield : ∀ (o : Option Nat) (x : Nat), o.getD x = x ↔ ∀ g ∈ o, g = x := by
    intro o x
    cases o with
    | none => simp
    | some g => simp
  constructor
  · intro h
    have hip : (if messageKind p = 0 then l.ip else yiaddr p) = l.ip := congrArg Lease.ip h
    refine ⟨(hfield _ _).1 (congrArg Lease.gw h), (hfield _ _).1 (congrArg Lease.dns h), fun hk => ?_⟩
    rw [if_neg hk] at hip
    exact hip
  · rintro ⟨hgw, hdns, hip⟩
    unfold Lease.hear
    rw [(hfield _ _).2 hgw, (hfield _ _).2 hdns]
    by_cases hk : messageKind p = 0
    · rw [if_pos hk]
    · rw [if_neg hk, hip hk]

theorem foldl_hear_field (get : Lease → Nat) (named : Bytes → Option Nat)
    (hget : ∀ l p, get (l.hear p) = (named p).getD (get l)) (msgs : List Bytes) (l : Lease) :
    get (msgs.foldl Lease.hear l) = (msgs.filterMap named).getLast?.getD (get l) := by
  induction msgs generalizing l with
  | nil => rfl
  | cons p msgs ih =>
    rw [List.foldl_cons, ih, hget, List.filterMap_cons]
    cases named p with
    | none => rfl
    | some g =>
      rw [List.getLast?_cons]
      cases (msgs.filterMap named).getLast? <;> rfl

theorem orElse_getD (o o' : Option Nat) (x : Nat) : (o <|> o').getD x = o.getD (o'.getD x) := by
  cases o <;> rfl

/-- The lease after an ACK, and when it is the one of the ACK and the OFFER `o`. -/
theorem lease_after_ack (lease0 : Lease) (before : List Bytes) (a o : Bytes) (ha : messageKind a = 5) :
    (before ++ [a]).foldl Lease.hear lease0 =
        ⟨yiaddr a, (router a <|> router o).getD lease0.gw, (dnsServer a <|> dnsServer o).getD lease0.dns⟩ ↔
      (router a = none → (before.filterMap router).getLast?.getD lease0.gw = (router o).getD lease0.gw) ∧
      (dnsServer a = none → (before.filterMap dnsServer).getLast?.getD lease0.dns = (dnsServer o).getD lease0.dns) := by
  have hgw := foldl_hear_field Lease.gw router (fun _ _ => rfl) before lease0
  have hdns := foldl_hear_field Lease.dns dnsServer (fun _ _ => rfl) before lease0
  have hfield : ∀ (named : Option Nat) (x y : Nat), named.getD x = named.getD y ↔ (named = none → x = y) := by
    intro named x y
    cases named with
    | none => simp
    | some g => simp
  have hne : messageKind a ≠ 0 := by omega
  rw [List.foldl_append, List.foldl_cons, List.foldl_nil, orElse_getD, orElse_getD, ← hgw, ← hdns]
  unfold Lease.hear
  rw [if_neg hne, Lease.mk.injEq, hfield, hfield]
  exact ⟨fun h => h.2, fun h => ⟨rfl, h⟩⟩

/-- The lease is the one of the exchange exactly if the messages heard are proper ones. -/
theorem dhcpRequest_iff (net : NetState) (lease : Lease) (tries : Nat → Try) :
    Sound net.myMac lease (dhcpRequest net lease tries).1 (dhcpRequest net lease tries).2 ↔
      Proper lease ((dhcpRequest net lease tries).2.log.map Parsed.buf) := by
  obtain ⟨hlog, hret⟩ := dhcpRequest_logged net lease tries
  generalize (dhcpRequest net lease tries).1 = ret at hret ⊢
  generalize (dhcpRequest net lease tries).2 = d at hlog hret ⊢
  have hxid : xidOf (buildDiscover dhcpXid net.myMac) = dhcpXid := xidOf_header _ _
  constructor
  · rintro ⟨hgranted, huntouched⟩
    rw [hxid] at huntouched
    refine ⟨fun k p hp hbad => ?_, fun before a hmsgs hk => ?_⟩
    · rw [List.getElem?_map, Option.map_eq_some_iff] at hp
      obtain ⟨e, he, rfl⟩ := hp
      have hmem : e ∈ d.log := List.mem_of_getElem? he
      rw [← hlog.kind e hmem] at hbad
      rw [← hear_eq_iff, ← hlog.before k e he, ← hlog.after e hmem]
      exact huntouched e hmem hbad
    · obtain ⟨logged, last, hsplit, rfl, hla⟩ := List.map_eq_append_iff.1 hmsgs
      obtain ⟨e, rfl, rfl⟩ := List.map_eq_singleton_iff.1 hla
      have hmem : e ∈ d.log := by rw [hsplit]; simp
      have hret0 : ret = 0 :=
        hret.2 ⟨e, by rw [hsplit, List.getLast?_concat]; rfl, (hlog.kind e hmem).trans hk⟩
      obtain ⟨before, o, a, pkt, hsplit', ho, hok, -, hoxid, hrequest, haxid, hlease⟩ := hgranted hret0
      obtain ⟨rfl, hea⟩ := List.append_inj' (hsplit.symm.trans hsplit') rfl
      obtain rfl := List.singleton_inj.1 hea
      have homem : o ∈ d.log := by rw [hsplit]; exact List.mem_append_left _ ho
      obtain ⟨pkt', hpkt', hpktxid⟩ := hlog.request o homem hok
      rw [hrequest] at hpkt'
      cases hpkt'
      refine ⟨haxid.trans hpktxid, o.buf, List.mem_map_of_mem ho, (hlog.kind o homem).symm.trans hok,
        hoxid.trans hxid, ?_⟩
      rw [hlog.lease, hmsgs] at hlease
      exact (lease_after_ack lease _ _ _ hk).1 hlease
  · rintro ⟨hhl, hexchange⟩
    refine ⟨fun hret0 => ?_, fun e he hbad => ?_⟩
    · obtain ⟨a, ha, hak⟩ := hret.1 hret0
      obtain ⟨before, hsplit⟩ := List.getLast?_eq_some_iff.1 ha
      have hamem : a ∈ d.log := by rw [hsplit]; simp
      have hmsgs : d.log.map Parsed.buf = before.map Parsed.buf ++ [a.buf] := by rw [hsplit, List.map_append]; rfl
      have hk : messageKind a.buf = 5 := (hlog.kind a hamem).symm.trans hak
      obtain ⟨haxid, o', ho', hok, hoxid, hnamed⟩ := hexchange _ _ hmsgs hk
      obtain ⟨o, ho, rfl⟩ := List.mem_map.1 ho'
      have homem : o ∈ d.log := by rw [hsplit]; exact List.mem_append_left _ ho
      obtain ⟨pkt, hpkt, hpktxid⟩ := hlog.request o homem ((hlog.kind o homem).trans hok)
      refine ⟨before, o, a, pkt, hsplit, ho, (hlog.kind o homem).trans hok, hak, hoxid.trans hxid.symm, hpkt,
        haxid.trans hpktxid.symm, ?_⟩
      rw [hlog.lease, hmsgs]
      exact (lease_after_ack lease _ _ _ hk).2 hnamed
    · obtain ⟨k, hget⟩ := List.mem_iff_getElem?.1 he
      rw [hxid, hlog.kind e he] at hbad
      rw [hlog.after e he, hear_eq_iff, hlog.before k e hget]
      exact hhl k e.buf (by rw [List.getElem?_map, hget]; rfl) hbad

/-! ## Two calls -/

/-- A message with the given `xid`, type, address and router. -/
def sampleMessage (xid kind ip gw : Nat) : Bytes :=
  let options := [53, 1, UInt8.ofNat kind, 3, 4] ++ ipBytes gw ++ [255]
  ((dhcpHeader xid []).putBe32 16 ip).copy 240 (.ofList options) options.length

def sampleReply (xid kind ip gw : Nat) : Frame :=
  udpPacket sampleNet broadcastMac 0xFFFFFFFF 67 68 (sampleMessage xid kind ip gw) 548

/-- The frames arrive one in each round. -/
def sampleTries (frames : List Frame) (t : Nat) : Try := ⟨frames[t]?, none, fun _ => 0⟩

-- OFFER and ACK of the client's own exchange
example :
    (dhcpRequest sampleNet ⟨0, 0, 0⟩
      (sampleTries [sampleReply dhcpXid 2 0x0A00020F 0x0A000202, sampleReply dhcpXid 5 0x0A00020F 0x0A000202])).1 = 0 := by
  decide +kernel

/-- An ACK of another exchange ends the call although nothing was offered, and its addresses become
the lease. -/
theorem dhcp_takes_foreign_ack :
    (dhcpRequest sampleNet ⟨0, 0, 0⟩ (sampleTries [sampleReply 7 5 0xC0A80163 0xC0A80101])).1 = 0 ∧
      (dhcpRequest sampleNet ⟨0, 0, 0⟩ (sampleTries [sampleReply 7 5 0xC0A80163 0xC0A80101])).2.lease =
        ⟨0xC0A80163, 0xC0A80101, 0⟩ ∧
      ¬ Sound sampleNet.myMac ⟨0, 0, 0⟩
        (dhcpRequest sampleNet ⟨0, 0, 0⟩ (sampleTries [sampleReply 7 5 0xC0A80163 0xC0A80101])).1
        (dhcpRequest sampleNet ⟨0, 0, 0⟩ (sampleTries [sampleReply 7 5 0xC0A80163 0xC0A80101])).2 := by
  have hlen : (dhcpRequest sampleNet ⟨0, 0, 0⟩ (sampleTries [sampleReply 7 5 0xC0A80163 0xC0A80101])).2.log.length = 1 := by
    decide +kernel
  refine ⟨by decide +kernel, by decide +kernel, fun h => ?_⟩
  obtain ⟨before, o, a, pkt, hsplit, ho, -⟩ := h.granted (by decide +kernel)
  rw [hsplit, List.length_append, List.length_singleton] at hlen
  rw [List.eq_nil_of_length_eq_zero (Nat.succ.inj hlen)] at ho
  cases ho

end KumOS.Net
