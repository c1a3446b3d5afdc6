import KumOS.Lib.BigEndian
import KumOS.Lib.Ring

/-!
# `net.c`: the network driver, UDP and TCP

A frame is its bytes in memory and its length; what lies behind the length is
whatever memory holds there.  The card is on the outside: `net_poll` is given the
frame it finds in the receive buffer, if any, and `sent` lists the frames handed
to the card by `net_send_raw`.

The Ethernet header takes bytes 0–13 of a frame, the IP header is taken to have
20 bytes (14–33), and the UDP or TCP header begins at byte 34.
-/

namespace KumOS.Net

open Lib

/-- Reduction to an unsigned 16-bit value. -/
def u16 (x : Nat) : Nat := x % 2 ^ 16

structure Frame where
  data : Bytes
  len : Nat

namespace Frame

variable (f : Frame)

def etherType : Nat := f.data.getBe16 12
def totalLen : Nat := f.data.getBe16 16
def protocol : Nat := (f.data 23).toNat
def srcIp : Nat := f.data.getBe32 26
def dstIp : Nat := f.data.getBe32 30
def srcPort : Nat := f.data.getBe16 34
def dstPort : Nat := f.data.getBe16 36

def udpLength : Nat := f.data.getBe16 38

def tcpSeq : Nat := f.data.getBe32 38
def tcpAckSeq : Nat := f.data.getBe32 42
def tcpFlags : Nat := (f.data 47).toNat
def tcpWindow : Nat := f.data.getBe16 48

/-- `doff`, the length of the TCP header. -/
def tcpHeader : Nat := (f.data 46).toNat / 2 ^ 4 * 4

def arpSenderMac : List UInt8 := (f.data.drop 22).toList 6
def arpSenderIp : Nat := f.data.getBe32 28

end Frame

inductive TcpState where
  | closed
  | synSent
  | synRecv
  | established
  | finWait1
  | finWait2
  | closeWait
  | lastAck
  | timeWait
  deriving DecidableEq, Repr

/-- `tcp_socket_t` -/
structure Socket where
  state : TcpState
  localIp : Nat
  remoteIp : Nat
  localPort : Nat
  remotePort : Nat
  seq : Nat
  ack : Nat
  rbuf : Bytes
  rbufHead : Nat
  rbufTail : Nat
  used : Bool

/-- The variables of `net.c`.  `arp` lists the `arp_count` entries of the ARP cache. -/
structure NetState where
  ready : Bool
  myMac : List UInt8
  myIp : Nat
  gwIp : Nat
  netMask : Nat
  arp : List (Nat × List UInt8)
  rxRing : Nat → Frame
  rxHead : Nat
  rxTail : Nat
  sockets : Nat → Socket
  sent : List Frame

/-! ## Sending -/

/-- The sum of `ip_checksum` over `len` bytes from `off` on. -/
def checksumLoop (p : Bytes) : Nat → Nat → Nat → Nat
  | _, 0, sum => sum
  | off, 1, sum => u32 (sum + (p off).toNat)
  | off, len + 2, sum => checksumLoop p (off + 2) len (u32 (sum + p.get16 off))

/-- `while (sum>>16) sum = (sum&0xFFFF)+(sum>>16);` -/
def foldCarries (sum : Nat) : Nat :=
  if sum / 2 ^ 16 = 0 then sum else foldCarries (sum % 2 ^ 16 + sum / 2 ^ 16)
termination_by sum
decreasing_by omega

def ipChecksum (p : Bytes) (len : Nat) : Nat := 2 ^ 16 - 1 - foldCarries (checksumLoop p 0 len 0)

/-- The length of a frame must not exceed `TX_BUF_SIZE`. -/
def netSendRaw (net : NetState) (f : Frame) : Int × NetState :=
  if !net.ready || 1536 < f.len then (-1, net) else (0, { net with sent := net.sent ++ [f] })

def arpLearn (arp : List (Nat × List UInt8)) (ip : Nat) (mac : List UInt8) : List (Nat × List UInt8) :=
  match arp.findIdx? fun e => e.1 == ip with
  | some i => arp.set i (ip, mac)
  | none => if arp.length < 8 then arp ++ [(ip, mac)] else arp

def arpLookup (arp : List (Nat × List UInt8)) (ip : Nat) : Option (List UInt8) :=
  (arp.find? fun e => e.1 == ip).map Prod.snd

/-- `kmemset(dst_mac,0xFF,ETH_ALEN)` -/
def broadcastMac : List UInt8 := List.replicate 6 0xFF

/-- The Ethernet and IP header that `tcp_send_raw` and `net_send_udp` write into `pkt`; the fields
`tcp_send_raw` leaves at zero are zero there or, in `net_send_udp`, set to the values given. -/
def ipHeader (pkt : Bytes) (dstMac myMac : List UInt8) (ipLen id protocol srcIp dstIp : Nat) : Bytes :=
  let pkt := pkt.copy 0 (.ofList dstMac) 6
  let pkt := pkt.copy 6 (.ofList myMac) 6
  let pkt := pkt.putBe16 12 0x0800
  let pkt := ((pkt.put8 14 0x45).put8 15 0).putBe16 16 ipLen
  let pkt := (pkt.putBe16 18 id).putBe16 20 0
  let pkt := ((pkt.put8 22 64).put8 23 protocol).put16 24 0
  let pkt := (pkt.putBe32 26 srcIp).putBe32 30 dstIp
  pkt.put16 24 (ipChecksum (pkt.drop 14) 20)

/-- The frame `tcp_send_raw` builds.  Its `pkt` has 1500 bytes; a longer frame is one that overruns it. -/
def tcpPacket (net : NetState) (s : Socket) (flags : Nat) (data : Bytes) (dlen : Nat) : Frame :=
  let ipLen := u16 (20 + u16 (20 + dlen))
  let dstMac := (arpLookup net.arp s.remoteIp).getD broadcastMac
  let pkt := ipHeader (fun _ => 0) dstMac net.myMac ipLen 0 6 s.localIp s.remoteIp
  let pkt := (pkt.putBe16 34 s.localPort).putBe16 36 s.remotePort
  let pkt := (pkt.putBe32 38 s.seq).putBe32 42 (if flags &&& 0x10 ≠ 0 then s.ack else 0)
  let pkt := ((pkt.put8 46 0x50).put8 47 flags).putBe16 48 4096
  ⟨pkt.copy 54 data dlen, u16 (14 + ipLen)⟩

/-- `NET_HTONL` -/
def htonl (x : Nat) : Nat :=
  x / 2 ^ 24 ||| (x / 2 ^ 8 &&& 0xFF00) ||| (x * 2 ^ 8 &&& 0xFF0000) ||| u32 (x * 2 ^ 24)

def sendArpRequest (net : NetState) (targetIp : Nat) : NetState :=
  let frame : Bytes := fun _ => 0
  let frame := (frame.copy 0 (.ofList broadcastMac) 6).copy 6 (.ofList net.myMac) 6
  let frame := frame.putBe16 12 0x0806
  let frame := ((((frame.putBe16 14 1).putBe16 16 0x0800).put8 18 6).put8 19 4).putBe16 20 1
  let frame := (frame.copy 22 (.ofList net.myMac) 6).putBe32 28 net.myIp
  let frame := (frame.copy 32 (fun _ => 0) 6).putBe32 38 targetIp
  (netSendRaw net ⟨frame, 42⟩).2

/-- The frame `net_send_udp` builds; its `pkt` has 1500 bytes, too. -/
def udpPacket (net : NetState) (dstMac : List UInt8) (dstIp srcPort dstPort : Nat) (data : Bytes) (dataLen : Nat) :
    Frame :=
  let ipLen := u16 (20 + 8 + dataLen)
  let pkt := ipHeader (fun _ => 0) dstMac net.myMac ipLen 1 17 net.myIp dstIp
  let pkt := (pkt.putBe16 34 srcPort).putBe16 36 dstPort
  let pkt := (pkt.putBe16 38 (u16 (8 + dataLen))).put16 40 0
  ⟨pkt.copy 42 data dataLen, u16 (14 + ipLen)⟩

/-- `net_send_udp`; nothing is received while it sleeps, so the second lookup finds what the first
one does. -/
def netSendUdp (net : NetState) (dstIp srcPort dstPort : Nat) (data : Bytes) (dataLen : Nat) : Int × NetState :=
  if !net.ready then (-1, net)
  else
    let mask := htonl net.netMask
    let nexthop := if dstIp &&& mask = net.myIp &&& mask then dstIp else net.gwIp
    match arpLookup net.arp nexthop with
    | some dstMac => netSendRaw net (udpPacket net dstMac dstIp srcPort dstPort data dataLen)
    | none =>
      let net := sendArpRequest net nexthop
      let dstMac := (arpLookup net.arp nexthop).getD broadcastMac
      netSendRaw net (udpPacket net dstMac dstIp srcPort dstPort data dataLen)

def NetState.setSocket (net : NetState) (i : Nat) (s : Socket) : NetState :=
  { net with sockets := Function.update net.sockets i s }

/-- `tcp_send_raw` of socket `i`; whether `net_send_raw` took the frame makes no difference. -/
def tcpSendRaw (net : NetState) (i flags : Nat) (data : Bytes) (dlen : Nat) : NetState :=
  let s := net.sockets i
  let net := (netSendRaw net (tcpPacket net s flags data dlen)).2
  let seq := if flags &&& 0x03 ≠ 0 then u32 (s.seq + 1) else s.seq
  net.setSocket i { s with seq := u32 (seq + dlen) }

/-! ## TCP -/

/-- `rbuf[rbuf_head] = b`, and `rbuf_head` goes round. -/
def Socket.put (s : Socket) (b : UInt8) : Socket :=
  { s with rbuf := Function.update s.rbuf s.rbufHead b, rbufHead := (s.rbufHead + 1) % 4096 }

/-- The test that does not `continue` the loop of `tcp_process`. -/
def Socket.isFor (s : Socket) (f : Frame) : Bool :=
  s.used && s.remoteIp == f.srcIp && s.remotePort == f.srcPort && s.localPort == f.dstPort

def tcpFind (net : NetState) (f : Frame) : Option Nat :=
  (List.range 8).find? fun i => (net.sockets i).isFor f

/-- `data_len`; the subtraction may wrap. -/
def tcpDataLen (f : Frame) : Nat := u16 (f.len + 2 ^ 16 - 34 - f.tcpHeader)

/-- The `data_len` bytes from `data` on. -/
def tcpData (f : Frame) : List UInt8 := (f.data.drop (34 + f.tcpHeader)).toList (tcpDataLen f)

/-- `if (data_len>0) { … }` -/
def tcpAccept (net : NetState) (i : Nat) (f : Frame) : NetState :=
  if tcpDataLen f = 0 then net
  else
    let s := { net.sockets i with ack := u32 (f.tcpSeq + tcpDataLen f) }
    tcpSendRaw (net.setSocket i ((tcpData f).foldl Socket.put s)) i 0x10 (fun _ => 0) 0

/-- `if (tcp->flags&TCP_FIN) { … }` -/
def tcpFin (net : NetState) (i : Nat) : NetState :=
  let net := net.setSocket i { net.sockets i with ack := u32 ((net.sockets i).ack + 1) }
  let net := tcpSendRaw net i 0x10 (fun _ => 0) 0
  let net := net.setSocket i { net.sockets i with state := .closeWait }
  let net := tcpSendRaw net i 0x11 (fun _ => 0) 0
  net.setSocket i { net.sockets i with state := .lastAck }

def tcpProcess (net : NetState) (f : Frame) : NetState :=
  if f.len < 54 then net
  else
    match tcpFind net f with
    | none => net
    | some i =>
      let s := net.sockets i
      if s.state = .synSent ∧ f.tcpFlags &&& 0x12 = 0x12 then
        let s := { s with ack := u32 (f.tcpSeq + 1), seq := f.tcpAckSeq, state := .established }
        tcpSendRaw (net.setSocket i s) i 0x10 (fun _ => 0) 0
      else if s.state = .established then
        let net := tcpAccept net i f
        if f.tcpFlags &&& 0x01 ≠ 0 then tcpFin net i else net
      else net

/-- The loop of `tcp_recv`: the bytes stored in `buf` and the socket afterwards. -/
def tcpTake : Nat → Socket → List UInt8 × Socket
  | 0, s => ([], s)
  | n + 1, s =>
    let (bytes, s') := tcpTake n { s with rbufTail := (s.rbufTail + 1) % 4096 }
    (s.rbuf s.rbufTail :: bytes, s')

/-- `avail`; the subtraction is one of `uint32_t`. -/
def Socket.avail (s : Socket) : Nat := u32 (s.rbufHead + (2 ^ 32 - s.rbufTail) + 4096) % 4096

/-- `tcp_recv`, with the bytes it stores in `buf`. -/
def tcpRecv (net : NetState) (sock : Int) (len : Nat) : Int × List UInt8 × NetState :=
  if sock < 0 ∨ 8 ≤ sock ∨ (net.sockets sock.toNat).used = false then (-1, [], net)
  else
    let s := net.sockets sock.toNat
    if s.avail = 0 then (0, [], net)
    else
      let n := if s.avail < len then s.avail else len
      let (bytes, s) := tcpTake n s
      (n, bytes, net.setSocket sock.toNat s)

/-! ## Receiving -/

/-- A UDP frame goes into the ring unless it is full. -/
def rxStore (net : NetState) (f : Frame) : NetState :=
  if (net.rxHead + 1) % 4 ≠ net.rxTail then
    { net with
      rxRing := Function.update net.rxRing net.rxHead ⟨(net.rxRing net.rxHead).data.copy 0 f.data f.len, f.len⟩
      rxHead := (net.rxHead + 1) % 4 }
  else net

/-- `net_poll`; `arrived` is the frame at the read pointer of the receive buffer, if the card reports
one.  The loop is left after one frame. -/
def netPoll (net : NetState) (arrived : Option Frame) : NetState :=
  match arrived with
  | none => net
  | some f =>
    if !net.ready || f.len = 0 || 1514 < f.len then net
    else if f.etherType = 0x0806 ∧ 42 ≤ f.len then
      { net with arp := arpLearn net.arp f.arpSenderIp f.arpSenderMac }
    else if f.etherType = 0x0800 ∧ 34 ≤ f.len then
      if f.protocol = 17 ∧ 42 ≤ f.len then rxStore net f
      else if f.protocol = 6 ∧ 54 ≤ f.len then tcpProcess net f
      else net
    else net

/-- What `net_recv_udp` gives back: the result, the bytes stored in `buf`, and the address and port
stored in `*src_ip` and `*src_port` when a datagram was taken. -/
structure Received where
  n : Nat
  bytes : List UInt8
  source : Option (Nat × Nat)

/-- `data_len` of `net_recv_udp`, before it is cut to the size of the buffer. -/
def udpDataLen (f : Frame) : Nat := u16 (f.udpLength + 2 ^ 16 - 8)

/-- The part of `net_recv_udp` behind `net_poll()`. -/
def rxTake (net : NetState) (port bufsz : Nat) : Received × NetState :=
  if net.rxHead = net.rxTail then (⟨0, [], none⟩, net)
  else
    let f := net.rxRing net.rxTail
    let net := { net with rxTail := (net.rxTail + 1) % 4 }
    if f.len < 42 then (⟨0, [], none⟩, net)
    else if f.dstPort ≠ port then (⟨0, [], none⟩, net)
    else
      let n := if bufsz < udpDataLen f then bufsz else udpDataLen f
      (⟨n, (f.data.drop 42).toList n, some (f.srcIp, f.srcPort)⟩, net)

def netRecvUdp (net : NetState) (port bufsz : Nat) (arrived : Option Frame) : Received × NetState :=
  rxTake (netPoll net arrived) port bufsz

end KumOS.Net
