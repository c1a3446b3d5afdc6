import KumOS.Net.Ports

/-!
# Datagrams on the wire

What `net_send_udp` puts into a frame, `net_recv_udp` reads back (`udp_round_trip`), and the
IP header verifies.  `net_recv_udp` believes the length field of the datagram: it stays inside
the frame exactly if the field does, or the buffer is small (`recv_inside_iff`).  The next hop is
chosen with the mask in the wrong byte order, and by `tcp_send_raw` not at all (`next_hop_iff`).
-/

namespace KumOS.Net

open Lib
open Bytes

variable {net : NetState} {f : Frame} {a : Option Frame} {rest : List Frame}
variable {data : Bytes} {mac : List UInt8} {port bufsz dstIp srcPort dstPort dataLen : Nat}

/-! ## The checksum -/

/-- The sum of `n` words from `off` on. -/
def wordSum (p : Bytes) : Nat → Nat → Nat
  | _, 0 => 0
  | off, n + 1 => p.get16 off + wordSum p (off + 2) n

theorem wordSum_le (p : Bytes) (off n : Nat) : wordSum p off n ≤ n * 65535 := by
  induction n generalizing off with
  | zero => exact Nat.zero_le _
  | succ n ih =>
    have hwd := p.get16_lt off
    have := ih (off + 2)
    rw [wordSum]
    omega

theorem wordSum_congr {p q : Bytes} {off n : Nat} (h : ∀ x, off ≤ x → x < off + 2 * n → p x = q x) :
    wordSum p off n = wordSum q off n := by
  induction n generalizing off with
  | zero => rfl
  | succ n ih =>
    rw [wordSum, wordSum, ih fun x hx hlt => h x (by omega) (by omega),
      Bytes.get16_congr fun i hi => h (off + i) (by omega) (by omega)]

theorem wordSum_drop (p : Bytes) (k off n : Nat) : wordSum (p.drop k) off n = wordSum p (k + off) n := by
  induction n generalizing off with
  | zero => rfl
  | succ n ih =>
    rw [wordSum, wordSum, ih, Nat.add_assoc]
    rfl

/-- Storing a word changes its summand. -/
theorem wordSum_put16 (p : Bytes) (v off n k : Nat) (hk : k < n) :
    wordSum (p.put16 (off + 2 * k) v) off n + p.get16 (off + 2 * k) = wordSum p off n + v % 2 ^ 16 := by
  induction n generalizing off k with
  | zero => omega
  | succ n ih =>
    rw [wordSum, wordSum]
    cases k with
    | zero =>
      have hrs : wordSum (p.put16 off v) (off + 2) n = wordSum p (off + 2) n :=
        wordSum_congr fun x hx _ => p.put16_of_out (by omega)
      rw [Nat.mul_zero, Nat.add_zero, Bytes.get16_put16_mod, hrs]
      omega
    | succ k =>
      have hoff : off + 2 * (k + 1) = off + 2 + 2 * k := by omega
      have := ih (off + 2) k (by omega)
      rw [hoff, Bytes.get16_put16_ne _ (by omega)]
      omega

theorem checksumLoop_eq (p : Bytes) (off n sum : Nat) (h : sum + wordSum p off n < 2 ^ 32) :
    checksumLoop p off (2 * n) sum = sum + wordSum p off n := by
  induction n generalizing off sum with
  | zero => rfl
  | succ n ih =>
    rw [wordSum] at h ⊢
    show checksumLoop p (off + 2) (2 * n) (u32 (sum + p.get16 off)) = _
    have hwd : u32 (sum + p.get16 off) = sum + p.get16 off := Nat.mod_eq_of_lt (by omega)
    rw [hwd, ih _ _ (by omega)]
    omega

/-- The carries are folded until the sum is one of 16 bits; it stays the same modulo 65535. -/
theorem foldCarries_eq (sum : Nat) : foldCarries sum = if sum = 0 then 0 else (sum - 1) % 65535 + 1 := by
  induction sum using foldCarries.induct with
  | case1 sum h =>
    unfold foldCarries
    rw [if_pos h]
    split <;> omega
  | case2 sum h ih =>
    unfold foldCarries
    rw [if_neg h, ih, if_neg (by omega), if_neg (by omega)]
    omega

theorem ipChecksum_words (p : Bytes) {n : Nat} (hn : n ≤ 32767) :
    ipChecksum p (2 * n) = 65535 - foldCarries (wordSum p 0 n) := by
  have hle := wordSum_le p 0 n
  unfold ipChecksum
  rw [checksumLoop_eq p 0 n 0 (by omega), Nat.zero_add]
  rfl

theorem ipChecksum_eq (p : Bytes) : ipChecksum (p.drop 14) 20 = 65535 - foldCarries (wordSum p 14 10) := by
  rw [ipChecksum_words (p.drop 14) (show 10 ≤ 32767 by decide), wordSum_drop]

/-- The checksum in a field that was zero makes the sum a multiple of 65535 that is not 0. -/
theorem wordSum_checksum (p : Bytes) {off n k : Nat} (hk : k < n) (h0 : p.get16 (off + 2 * k) = 0) :
    foldCarries (wordSum (p.put16 (off + 2 * k) (65535 - foldCarries (wordSum p off n))) off n) = 65535 := by
  have hput := wordSum_put16 p (65535 - foldCarries (wordSum p off n)) off n k hk
  rw [h0, foldCarries_eq] at hput
  rw [foldCarries_eq, foldCarries_eq]
  by_cases hz : wordSum p off n = 0
  · rw [if_pos hz] at hput ⊢
    rw [if_neg (by omega)]
    omega
  · rw [if_neg hz] at hput ⊢
    rw [if_neg (by omega)]
    omega

theorem wordSum_eq_foldr (p : Bytes) (off n : Nat) :
    wordSum p off n = ((List.range n).map fun i => p.get16 (off + 2 * i)).foldr (· + ·) 0 := by
  induction n generalizing off with
  | zero => rfl
  | succ n ih =>
    have hshift : ∀ i, off + 2 + 2 * i = off + 2 * (i + 1) := fun i => by omega
    rw [wordSum, ih, List.range_succ_eq_map, List.map_cons, List.map_map, List.foldr_cons]
    simp only [hshift]
    rfl

/-- **The checksum verifies**, and does not depend on the order of the words. -/
theorem checksum_verifies (p : Bytes) (n : Nat) (hn : 2 * n ≤ 65534) :
    (∀ k < n, p.get16 (2 * k) = 0 → ipChecksum (p.put16 (2 * k) (ipChecksum p (2 * n))) (2 * n) = 0) ∧
      ∀ q : Bytes, ((List.range n).map fun i => q.get16 (2 * i)).Perm ((List.range n).map fun i => p.get16 (2 * i)) →
        ipChecksum q (2 * n) = ipChecksum p (2 * n) := by
  have hwords := fun p => ipChecksum_words p (show n ≤ 32767 by omega)
  refine ⟨fun k hk h0 => ?_, fun q hperm => ?_⟩
  · have hfold := wordSum_checksum p hk (by rwa [Nat.zero_add])
    rw [Nat.zero_add] at hfold
    rw [hwords, hwords p, hfold]
  · have hsum := hperm.foldr_eq' (fun x _ y _ z => Nat.add_left_comm y x z) 0
    rw [hwords, hwords p, wordSum_eq_foldr, wordSum_eq_foldr]
    simp only [Nat.zero_add, hsum]

/-- Two words and the field of the checksum; then with the words the other way round. -/
theorem checksum_verifies_words :
    ipChecksum (put16 (.ofList [0x45, 0x00, 0x12, 0x34]) 4 (ipChecksum (.ofList [0x45, 0x00, 0x12, 0x34]) 6)) 6 = 0 ∧
      ipChecksum (.ofList [0x12, 0x34, 0x45, 0x00]) 6 = ipChecksum (.ofList [0x45, 0x00, 0x12, 0x34]) 6 := by
  obtain ⟨hzero, hperm⟩ := checksum_verifies (.ofList [0x45, 0x00, 0x12, 0x34]) 3 (by decide)
  exact ⟨hzero 2 (by decide) (by decide), hperm _ (by decide)⟩

/-! ## The headers -/

theorem ipHeader_checksum (pkt : Bytes) (dstMac myMac : List UInt8) (ipLen id protocol srcIp dstIp : Nat) :
    foldCarries (wordSum (ipHeader pkt dstMac myMac ipLen id protocol srcIp dstIp) 14 10) = 65535 := by
  unfold ipHeader
  extract_lets p1 p2 p3 p4 p5 p6 p
  have hze : p.get16 24 = 0 := by
    have hsm : p.get16 24 = p6.get16 24 := Bytes.get16_congr fun i hi => by
      show ((p6.putBe32 26 srcIp).putBe32 30 dstIp) (24 + i) = _
      rw [putBe32_of_out _ (by omega), putBe32_of_out _ (by omega)]
    rw [hsm]
    exact Bytes.get16_put16_mod _
  rw [ipChecksum_eq]
  exact wordSum_checksum p (k := 5) (by decide) hze

theorem ipHeader_fields (pkt : Bytes) (dstMac myMac : List UInt8) (ipLen id protocol srcIp dstIp : Nat) :
    (ipHeader pkt dstMac myMac ipLen id protocol srcIp dstIp).getBe32 26 = srcIp % 2 ^ 32 ∧
      (ipHeader pkt dstMac myMac ipLen id protocol srcIp dstIp).toList 6 = (ofList dstMac).toList 6 := by
  unfold ipHeader put16
  refine ⟨?_, toList_congr fun x hx => ?_⟩
  · simp (disch := omega) only [getBe32_put8_ne, Bytes.getBe32_putBe32_ne, Bytes.getBe32_putBe32]
  · simp (disch := omega) only [put8_ne, putBe32_of_out, putBe16_of_out, copy_of_out,
      copy_of_in, Nat.sub_zero]

/-- The fields of the frame of `net_send_udp`. -/
theorem udpPacket_fields (hsrc : srcPort < 2 ^ 16) (hdst : dstPort < 2 ^ 16) (hlen : dataLen ≤ 1458)
    (hf : f = udpPacket net mac dstIp srcPort dstPort data dataLen) :
    f.len = 42 + dataLen ∧ f.IsDatagram ∧ f.srcIp = net.myIp % 2 ^ 32 ∧ f.srcPort = srcPort ∧ f.dstPort = dstPort ∧
      udpDataLen f = dataLen ∧ (∀ j < dataLen, f.data (42 + j) = data j) ∧
      ipChecksum (f.data.drop 14) 20 = 0 := by
  subst hf
  have hsz : (udpPacket net mac dstIp srcPort dstPort data dataLen).len = 42 + dataLen := by
    show u16 (14 + u16 (20 + 8 + dataLen)) = _
    unfold u16
    omega
  have hip := (ipHeader_fields (fun _ => 0) mac net.myMac (u16 (20 + 8 + dataLen)) 1 17 net.myIp dstIp).1
  have hsum := ipHeader_checksum (fun _ => 0) mac net.myMac (u16 (20 + 8 + dataLen)) 1 17 net.myIp dstIp
  have hudp : (udpPacket net mac dstIp srcPort dstPort data dataLen).udpLength = 8 + dataLen := by
    unfold Frame.udpLength udpPacket put16
    simp (disch := omega) only [getBe16_copy_ne, getBe16_put8_ne, getBe16_putBe16]
    unfold u16
    omega
  refine ⟨hsz, ⟨?_, ?_, by omega, by omega⟩, ?_, ?_, ?_, ?_, fun j hj => ?_, ?_⟩
  · rfl
  · rfl
  · unfold Frame.srcIp udpPacket put16
    simp (disch := omega) only [Bytes.getBe32_copy_ne, getBe32_put8_ne, Bytes.getBe32_putBe16_ne, hip]
  · unfold Frame.srcPort udpPacket put16
    simp (disch := omega) only [getBe16_copy_ne, getBe16_put8_ne, getBe16_putBe16_ne,
      getBe16_putBe16, Nat.mod_eq_of_lt]
  · unfold Frame.dstPort udpPacket put16
    simp (disch := omega) only [getBe16_copy_ne, getBe16_put8_ne, getBe16_putBe16_ne,
      getBe16_putBe16, Nat.mod_eq_of_lt]
  · unfold udpDataLen u16
    omega
  · show Bytes.copy _ 42 data dataLen (42 + j) = data j
    rw [copy_of_in _ _ (by omega), Nat.add_sub_cancel_left]
  · have hsm : wordSum (udpPacket net mac dstIp srcPort dstPort data dataLen).data 14 10 = wordSum
        (ipHeader (fun _ => 0) mac net.myMac (u16 (20 + 8 + dataLen)) 1 17 net.myIp dstIp) 14 10 := by
      unfold udpPacket put16
      refine wordSum_congr fun x h1 h2 => ?_
      simp (disch := omega) only [copy_of_out, put8_ne, putBe16_of_out]
    rw [ipChecksum_eq, hsm, hsum]

/-! ## Sending -/

def SameNet (net : NetState) (mask dst : Nat) : Prop := dst &&& mask = net.myIp &&& mask

instance (net : NetState) (mask dst : Nat) : Decidable (SameNet net mask dst) := inferInstanceAs (Decidable (_ = _))

/-- The address a frame for `dst` goes to. -/
def nextHop (net : NetState) (mask dst : Nat) : Nat := if SameNet net mask dst then dst else net.gwIp

/-- The hardware address in the cache, or that of all. -/
def macOf (net : NetState) (ip : Nat) : List UInt8 := (arpLookup net.arp ip).getD broadcastMac

def Frame.dstMac (f : Frame) : List UInt8 := f.data.toList 6

theorem netSendUdp_eq (hry : net.ready = true) (dstIp srcPort dstPort : Nat) (data : Bytes) (dataLen : Nat) :
    ∃ net1 : NetState, net1.ready = true ∧ netSendUdp net dstIp srcPort dstPort data dataLen =
      netSendRaw net1 (udpPacket net (macOf net (nextHop net (htonl net.netMask) dstIp)) dstIp srcPort dstPort data
        dataLen) := by
  unfold netSendUdp
  rw [if_neg (by simp [hry])]
  have hhop : nextHop net (htonl net.netMask) dstIp =
      if dstIp &&& htonl net.netMask = net.myIp &&& htonl net.netMask then dstIp else net.gwIp := rfl
  dsimp only
  rw [← hhop]
  unfold macOf
  cases hl : arpLookup net.arp (nextHop net (htonl net.netMask) dstIp) with
  | some mac => exact ⟨net, hry, rfl⟩
  | none =>
    -- the request changes nothing the frame is made of
    obtain ⟨frames, harp⟩ : ∃ frames, sendArpRequest net (nextHop net (htonl net.netMask) dstIp) = { net with sent := frames } :=
      netSendRaw_rest net _
    simp only [harp, hl]
    exact ⟨{ net with sent := frames }, hry, rfl⟩

/-! ## Receiving -/

theorem RxOk.poll (h : RxOk net) (a : Option Frame) : RxOk (netPoll net a) := by
  by_cases hrm : (net.rxHead + 1) % 4 ≠ net.rxTail
  · exact (netPoll_queued h a fun _ _ _ => hrm).1
  cases a with
  | none => exact h
  | some f =>
    by_cases hd : net.ready = true ∧ f.IsDatagram
    · rw [netPoll_datagram hd.1 hd.2, rxStore, if_neg hrm]
      exact h
    · exact h.sameRx (netPoll_other hd)

theorem eq_toList {l : List UInt8} {n : Nat} (hlen : l.length = n) (h : ∀ j < n, l[j]? = some (data j)) :
    l = data.toList n := by
  refine List.ext_getElem? fun j => ?_
  by_cases hj : j < n
  · rw [h j hj, Bytes.toList, List.getElem?_map, List.getElem?_range hj]
    rfl
  · rw [List.getElem?_eq_none (by omega), List.getElem?_eq_none (by rw [Bytes.length_toList]; omega)]

/-- The call takes the oldest datagram. -/
theorem recv_front (h : RxOk net) (hlen : 42 ≤ f.len) (hq : (netPoll net a).queued = f.trim :: rest) (port bufsz : Nat) :
    f.dstPort = port ∧ Answers f bufsz (netRecvUdp net port bufsz a).1 ∨
      f.dstPort ≠ port ∧ (netRecvUdp net port bufsz a).1 = ⟨0, [], none⟩ := by
  have hport : f.trim.dstPort = f.dstPort := Frame.trim_be16 (by omega)
  unfold netRecvUdp
  rcases rxTake_cases (h.poll a) port bufsz with ⟨hnil, -⟩ | ⟨d, ds, hd, -, -, hcs⟩
  · rw [hnil] at hq
    cases hq
  rw [hq] at hd
  cases hd
  rw [hport] at hcs
  rcases hcs with ⟨hp, hans⟩ | ⟨hp, hnn⟩
  · have hsz : udpDataLen f.trim = udpDataLen f := by
      unfold udpDataLen Frame.udpLength
      rw [Frame.trim_be16 (by omega)]
    refine .inl ⟨hp, hans.n.trans (by rw [hsz]), hans.length, fun j hj hin => ?_, hans.source.trans ?_⟩
    · rw [hans.bytes j hj hin, Frame.trim_data hin]
    · unfold Frame.srcIp Frame.srcPort
      rw [Frame.trim_be32 (by omega), Frame.trim_be16 (by omega)]
  refine .inr ⟨hp, ?_⟩
  unfold rxTake at hnn ⊢
  split <;> rename_i h1
  · rfl
  · rw [if_neg h1] at hnn
    dsimp only at hnn ⊢
    split <;> rename_i h2
    · rfl
    · rw [if_neg h2] at hnn
      split <;> rename_i h3
      · rfl
      · rw [if_neg h3] at hnn
        cases hnn

/-- What is sent is received. -/
theorem udp_round_trip (net : NetState) (hready : net.ready = true) (hip : net.myIp < 2 ^ 32) (dstIp : Nat)
    (hsrc : srcPort < 2 ^ 16) (hdst : dstPort < 2 ^ 16) (data : Bytes) (hlen : dataLen ≤ 1458) :
    ∃ f, (netSendUdp net dstIp srcPort dstPort data dataLen).1 = 0 ∧
      (netSendUdp net dstIp srcPort dstPort data dataLen).2.sent.getLast? = some f ∧
      f.len ≤ 1500 ∧ ipChecksum (f.data.drop 14) 20 = 0 ∧
      (∀ rx : NetState, RxOk rx → rx.ready = true → (rx.rxHead + 1) % 4 ≠ rx.rxTail →
        (netPoll rx (some f)).queued = rx.queued ++ [f.trim]) ∧
      ∀ (rx : NetState) (a : Option Frame) (rest : List Frame) (bufsz : Nat), RxOk rx →
        (netPoll rx a).queued = f.trim :: rest → dataLen ≤ bufsz →
        (netRecvUdp rx dstPort bufsz a).1 = ⟨dataLen, data.toList dataLen, some (net.myIp, srcPort)⟩ := by
  obtain ⟨net1, hready1, heq⟩ := netSendUdp_eq hready dstIp srcPort dstPort data dataLen
  generalize hf : udpPacket net _ dstIp srcPort dstPort data dataLen = f at heq
  obtain ⟨hsz, hd, hsip, hsport, hdport, hda, hby, hsum⟩ := udpPacket_fields hsrc hdst hlen hf.symm
  rw [heq, netSendRaw, if_neg (by simp [hready1]; omega)]
  refine ⟨f, rfl, List.getLast?_concat, by omega, hsum, fun rx hrx hr hrm => ?_, fun rx a rest bufsz hrx hq hbuf => ?_⟩
  · rw [(netPoll_queued hrx (some f) fun _ _ _ => hrm).2, NetState.receives, if_pos ⟨hr, hd⟩]
  · rcases recv_front hrx (by omega) hq dstPort bufsz with ⟨-, hans⟩ | ⟨hne, -⟩
    · generalize (netRecvUdp rx dstPort bufsz a).1 = r at hans
      have hn : r.n = dataLen := by
        rw [hans.n, hda]
        omega
      have hlist : r.bytes = data.toList dataLen := by
        refine eq_toList (hans.length.trans hn) fun j hj => ?_
        rw [hans.bytes j (by omega) (by omega), hby j hj]
      have hsource := hans.source
      obtain ⟨n, bytes, source⟩ := r
      simp_all
    · exact absurd hdport hne

theorem udp_round_trip_sample : ∃ f, (netSendUdp sampleNet 0x0A000202 67 68 (fun _ => 7) 3).2.sent.getLast? = some f ∧
    (netRecvUdp sampleNet 68 3 (some f)).1 = ⟨3, [7, 7, 7], some (0x0A00020F, 67)⟩ := by
  obtain ⟨f, -, hla, -, -, hqueue, hrecv⟩ := udp_round_trip sampleNet rfl (by decide) 0x0A000202
    (show 67 < 2 ^ 16 by decide) (show 68 < 2 ^ 16 by decide) (fun _ => 7) (show 3 ≤ 1458 by decide)
  refine ⟨f, hla, hrecv sampleNet (some f) [] 3 sampleNet_rxOk ?_ (Nat.le_refl 3)⟩
  exact hqueue sampleNet sampleNet_rxOk rfl (by decide)

/-- `net_recv_udp` gives the caller bytes of the frame, and no more than there are. -/
def Inside (f : Frame) (bufsz : Nat) (r : Received) : Prop :=
  r.n ≤ min bufsz (f.len - 42) ∧ r.bytes = (f.data.drop 42).toList r.n

/-- The length is that of the length field, or wraps if the field is less than 8. -/
theorem recv_inside_iff (hok : RxOk net) (hmin : 42 ≤ f.len) (hmax : f.len ≤ 1514)
    (hq : (netPoll net a).queued = f.trim :: rest) (port bufsz : Nat) :
    Inside f bufsz (netRecvUdp net port bufsz a).1 ↔
      f.dstPort ≠ port ∨ 8 ≤ f.udpLength ∧ f.udpLength ≤ f.len - 34 ∨ bufsz ≤ f.len - 42 := by
  have hfield : f.udpLength < 2 ^ 16 := by
    unfold Frame.udpLength Bytes.getBe16
    have h1 := (f.data 38).toNat_lt
    have h2 := (f.data (38 + 1)).toNat_lt
    omega
  rcases recv_front hok hmin hq port bufsz with ⟨hp, hans⟩ | ⟨hne, hr⟩
  · have hn := hans.n
    have hiff : (netRecvUdp net port bufsz a).1.n ≤ min bufsz (f.len - 42) ↔
        8 ≤ f.udpLength ∧ f.udpLength ≤ f.len - 34 ∨ bufsz ≤ f.len - 42 := by
      rw [hn]
      unfold udpDataLen u16
      omega
    refine ⟨fun h => .inr (hiff.1 h.1), fun h => ?_⟩
    have hle := hiff.2 (h.resolve_left fun hne => hne hp)
    exact ⟨hle, eq_toList hans.length fun j hj => hans.bytes j hj (by omega)⟩
  · rw [hr]
    exact iff_of_true ⟨Nat.zero_le _, rfl⟩ (.inl hne)

theorem sampleNet_queues (f : Frame) (h : f.IsDatagram) : (netPoll sampleNet (some f)).queued = [f.trim] := by
  rw [(netPoll_queued sampleNet_rxOk (some f) fun _ _ _ => by decide).2, NetState.receives, if_pos ⟨rfl, h⟩]
  rfl

theorem recv_inside_iff_sample : Inside sampleDatagram 556 (netRecvUdp sampleNet 68 556 (some sampleDatagram)).1 := by
  have hq := sampleNet_queues sampleDatagram (by decide +kernel)
  exact (recv_inside_iff sampleNet_rxOk (by decide) (by decide) hq 68 556).2 (.inr (.inl (by decide +kernel)))

/-- A frame of 42 bytes whose length field is 0. -/
def hostileFrame : Frame := ⟨sampleDatagram.data.putBe16 38 0, 42⟩

/-- The caller gets 512 bytes, all from behind the frame. -/
theorem recv_outside : RxOk sampleNet ∧ (netPoll sampleNet (some hostileFrame)).queued = [hostileFrame.trim] ∧
    (netRecvUdp sampleNet 68 512 (some hostileFrame)).1.n = 512 :=
  ⟨sampleNet_rxOk, sampleNet_queues hostileFrame (by decide +kernel), by decide +kernel⟩

/-! ## The next hop -/

theorem toList_ofList_six (h : mac.length = 6) : (ofList mac).toList 6 = mac := by
  rw [← h]
  exact Bytes.toList_ofList mac

theorem tcpPacket_mac (s : Socket) (flags : Nat) (data : Bytes) (dlen : Nat) :
    (tcpPacket net s flags data dlen).dstMac = (ofList (macOf net s.remoteIp)).toList 6 := by
  rw [← (ipHeader_fields (fun _ => 0) (macOf net s.remoteIp) net.myMac (u16 (20 + u16 (20 + dlen))) 0 6 s.localIp
    s.remoteIp).2]
  refine toList_congr fun x hx => ?_
  show Bytes.copy _ 54 data dlen x = _
  simp (disch := omega) only [copy_of_out, put8_ne, putBe16_of_out, putBe32_of_out]
  rfl

theorem udpPacket_mac : (udpPacket net mac dstIp srcPort dstPort data dataLen).dstMac = (ofList mac).toList 6 := by
  rw [← (ipHeader_fields (fun _ => 0) mac net.myMac (u16 (20 + 8 + dataLen)) 1 17 net.myIp dstIp).2]
  refine toList_congr fun x hx => ?_
  show Bytes.copy _ 42 data dataLen x = _
  unfold put16
  simp (disch := omega) only [copy_of_out, put8_ne, putBe16_of_out]

theorem macOf_length (hmac : ∀ e ∈ net.arp, e.2.length = 6) (ip : Nat) : (macOf net ip).length = 6 := by
  unfold macOf arpLookup
  cases hfn : net.arp.find? fun e => e.1 == ip with
  | none => rfl
  | some e => exact hmac e (List.mem_of_find?_eq_some hfn)

/-- Both senders take the right next hop exactly if both byte orders of the mask put the destination
into the own network, or nothing depends on it. -/
theorem next_hop_iff (net net' : NetState) (hmac : ∀ e ∈ net.arp, e.2.length = 6) (s : Socket) (flags : Nat)
    (segment : Bytes) (dlen : Nat) (hsend : netSendUdp net s.remoteIp srcPort dstPort data dataLen = (0, net')) :
    ((∀ f ∈ net'.sent.getLast?, f.dstMac = macOf net (nextHop net net.netMask s.remoteIp)) ∧
      (tcpPacket net s flags segment dlen).dstMac = macOf net (nextHop net net.netMask s.remoteIp)) ↔
      SameNet net net.netMask s.remoteIp ∧ SameNet net (htonl net.netMask) s.remoteIp ∨
        macOf net s.remoteIp = macOf net net.gwIp := by
  have hry : net.ready = true := by
    by_contra hno
    rw [netSendUdp, if_pos (by simpa using hno)] at hsend
    cases hsend
  obtain ⟨net1, -, heq⟩ := netSendUdp_eq hry s.remoteIp srcPort dstPort data dataLen
  have hla : net'.sent.getLast? = some (udpPacket net (macOf net (nextHop net (htonl net.netMask) s.remoteIp)) s.remoteIp
      srcPort dstPort data dataLen) := by
    rw [heq, netSendRaw] at hsend
    split at hsend
    · cases hsend
    · cases hsend
      exact List.getLast?_concat
  have hlen := macOf_length hmac
  rw [hla, tcpPacket_mac, toList_ofList_six (hlen _)]
  simp only [Option.mem_some_iff, forall_eq', udpPacket_mac, toList_ofList_six (hlen _), nextHop]
  by_cases h1 : SameNet net net.netMask s.remoteIp
  · by_cases h2 : SameNet net (htonl net.netMask) s.remoteIp
    · simp [h1, h2]
    · simp [h1, h2, eq_comm]
  · by_cases h2 : SameNet net (htonl net.netMask) s.remoteIp
    · simp [h1, h2]
    · simp [h1, h2]

/-- The gateway and a neighbour are in the cache. -/
def sampleHops : NetState :=
  { sampleNet with arp := [(0x0A000202, [2, 2, 2, 2, 2, 2]), (0x0A000210, [3, 3, 3, 3, 3, 3])] }

/-- A frame for the gateway itself. -/
theorem next_hop_iff_gateway : ∃ net', netSendUdp sampleHops 0x0A000202 67 68 (fun _ => 7) 3 = (0, net') ∧
    ∀ f ∈ net'.sent.getLast?, f.dstMac = [2, 2, 2, 2, 2, 2] := by
  have hsend : netSendUdp sampleHops 0x0A000202 67 68 (fun _ => 7) 3 =
      (0, (netSendUdp sampleHops 0x0A000202 67 68 (fun _ => 7) 3).2) := Prod.ext (by decide +kernel) rfl
  exact ⟨_, hsend, ((next_hop_iff sampleHops _ (by decide) sampleSocket 0x10 (fun _ => 0) 0 hsend).2 (.inr rfl)).1⟩

/-- A datagram for the neighbour 10.0.2.16 goes to the gateway, a segment for a host elsewhere to all. -/
theorem next_hop_wrong : SameNet sampleHops sampleHops.netMask 0x0A000210 ∧
    (netSendUdp sampleHops 0x0A000210 67 68 (fun _ => 7) 3).2.sent.getLast?.map Frame.dstMac = some [2, 2, 2, 2, 2, 2] ∧
    (tcpPacket sampleHops { sampleSocket with remoteIp := 0x08080808 } 0x02 (fun _ => 0) 0).dstMac = broadcastMac := by
  decide +kernel

/-! ## Segments -/

/-- **Segments round-trip**: `tcp_process` reads from a frame of `tcp_send_raw` what the socket had. -/
theorem tcp_segment_round_trip (s : Socket) {flags dlen : Nat} (hlen : dlen ≤ 1446) (hf : f = tcpPacket net s flags data dlen) :
    f.len = 54 + dlen ∧ tcpData f = data.toList dlen ∧ f.tcpFlags = flags % 2 ^ 8 ∧ ipChecksum (f.data.drop 14) 20 = 0 ∧
      f.srcIp = s.localIp % 2 ^ 32 ∧ f.srcPort = s.localPort % 2 ^ 16 ∧ f.dstPort = s.remotePort % 2 ^ 16 ∧
      f.tcpSeq = s.seq % 2 ^ 32 ∧ f.tcpAckSeq = (if flags &&& 0x10 ≠ 0 then s.ack else 0) % 2 ^ 32 := by
  have hsz : f.len = 54 + dlen := by
    rw [hf]
    show u16 (14 + u16 (20 + u16 (20 + dlen))) = _
    unfold u16
    omega
  have hth : f.tcpHeader = 20 := by
    rw [hf]
    unfold Frame.tcpHeader tcpPacket
    simp (disch := omega) only [copy_of_out, putBe16_of_out, put8_ne, put8_same]
    rfl
  have hdl : tcpDataLen f = dlen := by
    unfold tcpDataLen u16
    omega
  have hsum := ipHeader_checksum (fun _ => 0) ((arpLookup net.arp s.remoteIp).getD broadcastMac) net.myMac
    (u16 (20 + u16 (20 + dlen))) 0 6 s.localIp s.remoteIp
  refine ⟨hsz, ?_⟩
  unfold tcpData
  rw [hdl, hth, hf]
  unfold Frame.tcpFlags Frame.tcpSeq Frame.tcpAckSeq Frame.srcIp Frame.srcPort Frame.dstPort tcpPacket
  refine ⟨toList_congr fun x hx => ?_, ?_, ?_, ?_⟩
  · show Bytes.copy _ 54 data dlen (54 + x) = data x
    rw [copy_of_in _ _ (by omega), Nat.add_sub_cancel_left]
  · simp (disch := omega) only [copy_of_out, putBe16_of_out, put8_same]
    exact UInt8.toNat_ofNat'
  · rw [ipChecksum_eq, wordSum_congr fun x h1 h2 => ?_, hsum]
    simp (disch := omega) only [copy_of_out, put8_ne, putBe16_of_out, putBe32_of_out]
  · simp (disch := omega) only [getBe32_copy_ne, getBe32_put8_ne, getBe32_putBe16_ne, getBe32_putBe32_ne,
      getBe32_putBe32, getBe16_copy_ne, getBe16_put8_ne, getBe16_putBe16_ne, getBe16_putBe32_ne,
      getBe16_putBe16, ipHeader_fields, and_self]

theorem tcp_segment_round_trip_sample : tcpData (tcpPacket sampleNet sampleSocket 0x10 (fun _ => 7) 3) = [7, 7, 7] :=
  (tcp_segment_round_trip sampleSocket (by decide) rfl).2.1

end KumOS.Net
