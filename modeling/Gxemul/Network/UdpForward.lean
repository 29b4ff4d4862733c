import Gxemul.Network.UdpFragments

/- Datagrams of the guest: what net_ip() and net_ip_udp() send to the outside world.

   Of the fragment offset, net_ip_udp() looks at the five bits that share a byte with the
   flags. The length in the UDP header is not looked at. -/
namespace Gxemul.Network

open Lib
open Lib.Buf (byte slice block readByte readBytes)

/-! ## Frames with a datagram -/

def frameIpLen (packet : Frame) : Nat := Lib.value true (slice packet 16 2)
def frameUdpLen (packet : Frame) : Nat := Lib.value true (slice packet 38 2)
def frameSrcPort (packet : Frame) : Nat := Lib.value true (slice packet 34 2)
def frameDstPort (packet : Frame) : Nat := Lib.value true (slice packet 36 2)

structure IsUdp (packet : Frame) : Prop where
  headers : 42 ≤ packet.length
  version : byte packet 14 = 0x45#8
  protocol : byte packet 23 = 17#8
  header : 8 ≤ frameUdpLen packet
  length : frameUdpLen packet ≤ frameIpLen packet - 20

def IsFragment (packet : Frame) : Prop := (Fragment.ofFrame packet).more = true ∨ (Fragment.ofFrame packet).offset ≠ 0

def Forwards (packet : Frame) (gw' : Gateway) (events : List Event) : Prop :=
  ∃ i data, events = [.sent i (block packet 30 4) data] ∧ data = slice packet 42 (frameUdpLen packet - 8) ∧
    data.length = frameUdpLen packet - 8 ∧ (gw'.udpConnections i).inUse = true ∧
    (gw'.udpConnections i).outsideUdpPort = frameDstPort packet

def Drops (gw gw' : Gateway) (events : List Event) : Prop :=
  events = [] ∧ ∀ i, (gw'.udpConnections i).inUse = true → gw'.udpConnections i = gw.udpConnections i

namespace Gateway
variable (gw : Gateway) (nic : NicPtr) (host : Host) (packet : Frame)

/-- net_ip() sends the datagrams of the guest, and no fragments. -/
def ForwardsRight : Prop :=
  ∃ gw' events, gw.netIp nic host packet packet.length = .ok (gw', events) ∧
    (¬ IsFragment packet → Forwards packet gw' events) ∧ (IsFragment packet → Drops gw gw' events)

def Known : Prop := gw.udpConId packet (frameSrcPort packet) (frameDstPort packet) ≠ none

/-- A fragment can be told by the byte with the flags, or there is no socket for it. Any other packet ends with its
datagram, there is a socket for it, and it is not for the gateway itself, which would pass it on to the nameserver. -/
structure CanForward : Prop where
  fragment : IsFragment packet → byte packet 20 &&& 0x3f#8 ≠ 0#8 ∨ (¬ gw.Known packet ∧ host.socket < 0)
  length : ¬ IsFragment packet → min packet.length (14 + frameIpLen packet) = 34 + frameUdpLen packet
  socket : ¬ IsFragment packet → gw.Known packet ∨ 0 ≤ host.socket
  nameserver : ¬ IsFragment packet → gw.nameserverKnown = true → block packet 30 4 = gw.gatewayIpv4Addr →
    gw.nameserverIpv4 = gw.gatewayIpv4Addr

/-! ## What net_ip_udp() does -/

def frameLen : Nat := min packet.length (14 + frameIpLen packet)

def connectionFor : UdpConnection :=
  { UdpConnection.zero with
    ethernetAddress := block packet 6 6
    insideIpAddress := block packet 26 4
    outsideIpAddress := block packet 30 4
    insideUdpPort := frameSrcPort packet
    outsideUdpPort := frameDstPort packet
    socket := host.socket
    inUse := decide (0 ≤ host.socket) }

def toNameserver (c : UdpConnection) : Bool := gw.nameserverKnown && decide (c.outsideIpAddress = gw.gatewayIpv4Addr)

def used (c : UdpConnection) : UdpConnection :=
  { c with lastUsedTimestamp := gw.timestamp + 1#64, fakeNs := c.fakeNs || gw.toNameserver c }

/-- The datagram is sent on connection `i`. -/
def sent (i : Nat) (c : UdpConnection) : Gateway × List Event :=
  ({ gw.setUdp i (gw.used c) with timestamp := gw.timestamp + 1#64 },
    [.sent i (if gw.toNameserver c then gw.nameserverIpv4 else c.outsideIpAddress)
      (slice packet 42 (frameLen packet - 42))])

def forwarded : Gateway × List Event :=
  if byte packet 20 &&& 0x3f#8 ≠ 0#8 then (gw, [])
  else
    match gw.udpConId packet (frameSrcPort packet) (frameDstPort packet) with
    | some i => gw.sent packet i (gw.udpConnections i)
    | none =>
      if host.socket < 0 then (gw.setUdp gw.freeUdpConId (connectionFor host packet), [])
      else gw.sent packet gw.freeUdpConId (connectionFor host packet)

end Gateway

section
variable {gw : Gateway} {nic : NicPtr} {host : Host} {packet : Frame}

theorem IsUdp.frameLen (h : IsUdp packet) : 42 ≤ Gateway.frameLen packet ∧ Gateway.frameLen packet ≤ packet.length := by
  have h8 := h.header
  have hlen := h.length
  have h42 := h.headers
  unfold Gateway.frameLen
  omega

theorem netIp_udp (h : IsUdp packet) :
    gw.netIp nic host packet packet.length = gw.netIpUdp host packet (Gateway.frameLen packet) := by
  have h42 := h.headers
  have hdump : dumpIp host.verbose packet packet.length = .ok () := by
    unfold dumpIp
    split
    · rw [Buf.readBytes_of_le (show 14 + 20 ≤ packet.length by omega)]
      unfold readFrom
      rw [if_pos (by omega), Buf.readBytes_of_le (show 34 + (packet.length - 34) ≤ packet.length by omega)]
      rfl
    · rfl
  have hcut : cutLen packet packet.length = .ok (Gateway.frameLen packet) := by
    unfold cutLen Gateway.frameLen frameIpLen
    rw [Buf.readByte_of_lt (show 16 < packet.length by omega), Buf.readByte_of_lt (show 17 < packet.length by omega),
      Buf.value_slice (show 16 + 2 ≤ packet.length by omega), ← Nat.add_assoc]
    rfl
  unfold Gateway.netIp
  rw [hdump, hcut, Buf.readByte_of_lt (show 14 < packet.length by omega), h.version,
    Buf.readByte_of_lt (show 23 < packet.length by omega), h.protocol]
  rfl

theorem newUdpConnection_eq (h : IsUdp packet) :
    Gateway.newUdpConnection host packet (frameSrcPort packet) (frameDstPort packet) =
      .ok (Gateway.connectionFor host packet) := by
  have h42 := h.headers
  unfold Gateway.newUdpConnection Lib.Buf.readBlock
  rw [if_pos (by omega), if_pos (by omega), if_pos (by omega)]
  rfl

theorem sendDatagram_eq (h : IsUdp packet) (i : Nat) (c : UdpConnection) :
    gw.sendDatagram packet (Gateway.frameLen packet) i c = .ok (gw.sent packet i c) := by
  obtain ⟨hle, hlen⟩ := h.frameLen
  have hcheck : Lib.checkLength ((Gateway.frameLen packet : Int) - 42) = .ok (Gateway.frameLen packet - 42) := by
    unfold Lib.checkLength
    rw [if_pos (by omega)]
    congr 1
    omega
  unfold Gateway.sendDatagram
  rw [hcheck]
  change (readBytes packet 42 (Gateway.frameLen packet - 42) >>= _) = _
  rw [Buf.readBytes_of_le (by omega)]
  rfl

theorem netIp_forwarded (h : IsUdp packet) :
    gw.netIp nic host packet packet.length = .ok (gw.forwarded host packet) := by
  obtain ⟨hle, hlen⟩ := h.frameLen
  have hports : readBytes packet 34 6 = .ok (slice packet 34 6) := Buf.readBytes_of_le (by omega)
  have hsrc : Lib.value true (slice (slice packet 34 6) 0 2) = frameSrcPort packet := by
    rw [Buf.slice_slice (by omega)]
    rfl
  have hdst : Lib.value true (slice (slice packet 34 6) 2 2) = frameDstPort packet := by
    rw [Buf.slice_slice (by omega)]
    rfl
  have hrest : ∃ l, readFrom packet 42 (Gateway.frameLen packet) = .ok l := by
    unfold readFrom
    split
    · exact ⟨_, Buf.readBytes_of_le (by omega)⟩
    · exact ⟨[], rfl⟩
  obtain ⟨l, hl⟩ := hrest
  rw [netIp_udp h]
  unfold Gateway.netIpUdp Gateway.forwarded
  rw [Buf.readByte_of_lt (show 20 < packet.length by omega)]
  change (if byte packet 20 &&& 0x3f#8 ≠ 0#8 then _ else _) = _
  by_cases hofs : byte packet 20 &&& 0x3f#8 ≠ 0#8
  · rw [if_pos hofs, if_pos hofs]
    rfl
  · rw [if_neg hofs, if_neg hofs, hports]
    dsimp only [bind, Except.bind]
    rw [hl, hsrc, hdst]
    cases gw.udpConId packet (frameSrcPort packet) (frameDstPort packet) with
    | some i => exact sendDatagram_eq h i _
    | none =>
      rw [newUdpConnection_eq h]
      dsimp only
      by_cases hsocket : host.socket < 0
      · rw [if_pos hsocket, if_pos hsocket]
        rfl
      · rw [if_neg hsocket, if_neg hsocket]
        exact sendDatagram_eq h _ _

/-! ## When it is right -/

theorem isFragment_of_flags (h : byte packet 20 &&& 0x3f#8 ≠ 0#8) : IsFragment packet := by
  by_contra hnot
  obtain ⟨hmore, hoffset⟩ := not_or.mp hnot
  have hmore : (byte packet 20).getLsbD 5 = false := by
    simpa [Fragment.ofFrame] using hmore
  have hoffset : (byte packet 20 &&& 0x1f#8).toNat * 256 + (byte packet 21).toNat = 0 := not_not.mp hoffset
  have hhigh : byte packet 20 &&& 0x1f#8 = 0#8 := by
    apply BitVec.eq_of_toNat_eq
    rw [show (0#8).toNat = 0 from rfl]
    omega
  apply h
  -- the six bits are bit 5 and the five below it
  apply BitVec.eq_of_getLsbD_eq
  intro j hj
  have hbit := congrArg (fun x => x.getLsbD j) hhigh
  simp only [BitVec.getLsbD_and] at hbit ⊢
  by_cases h5 : j = 5
  · rw [h5, hmore]
    rfl
  · have hmask : ∀ k, k < 8 → k ≠ 5 → (0x3f#8).getLsbD k = (0x1f#8).getLsbD k := by decide
    rw [hmask j hj h5]
    exact hbit

theorem udpConId_some {srcport dstport i : Nat} (h : gw.udpConId packet srcport dstport = some i) :
    (gw.udpConnections i).inUse = true ∧ (gw.udpConnections i).outsideUdpPort = dstport ∧
      (gw.udpConnections i).outsideIpAddress = block packet 30 4 := by
  have howns := List.find?_some h
  simp only [Gateway.ownsDatagram, Bool.and_eq_true, beq_iff_eq, decide_eq_true_eq] at howns
  obtain ⟨⟨⟨⟨huse, -⟩, hport⟩, -⟩, hip⟩ := howns
  exact ⟨huse, hport, hip⟩

theorem forwardsRight_iff (h : IsUdp packet) :
    gw.ForwardsRight nic host packet ↔
      (¬ IsFragment packet → Forwards packet (gw.forwarded host packet).1 (gw.forwarded host packet).2) ∧
        (IsFragment packet → Drops gw (gw.forwarded host packet).1 (gw.forwarded host packet).2) := by
  unfold Gateway.ForwardsRight
  rw [netIp_forwarded h]
  constructor
  · intro hright
    obtain ⟨gw', events, heq, hforwards, hdrops⟩ := hright
    have heq : gw.forwarded host packet = (gw', events) := Except.ok.inj heq
    rw [heq]
    exact ⟨hforwards, hdrops⟩
  · intro hright
    exact ⟨_, _, rfl, hright.1, hright.2⟩

/-- The data are the datagram's if the packet ends with it, and the address is the one that the guest has given
unless the nameserver's is put in its place. -/
theorem sent_forwards_iff (h : IsUdp packet) {i : Nat} {c : UdpConnection} (huse : c.inUse = true)
    (hport : c.outsideUdpPort = frameDstPort packet) (hip : c.outsideIpAddress = block packet 30 4) :
    Forwards packet (gw.sent packet i c).1 (gw.sent packet i c).2 ↔
      Gateway.frameLen packet = 34 + frameUdpLen packet ∧
        (gw.nameserverKnown = true → block packet 30 4 = gw.gatewayIpv4Addr →
          gw.nameserverIpv4 = gw.gatewayIpv4Addr) := by
  obtain ⟨hle, hlen⟩ := h.frameLen
  have h8 := h.header
  have hdata : (slice packet 42 (Gateway.frameLen packet - 42)).length = Gateway.frameLen packet - 42 := by
    unfold slice
    rw [List.length_take, List.length_drop]
    omega
  have haddr : (if gw.toNameserver c then gw.nameserverIpv4 else c.outsideIpAddress) = block packet 30 4 ↔
      (gw.nameserverKnown = true → block packet 30 4 = gw.gatewayIpv4Addr → gw.nameserverIpv4 = gw.gatewayIpv4Addr) := by
    unfold Gateway.toNameserver
    rw [hip]
    by_cases hknown : gw.nameserverKnown = true
    · by_cases hgateway : block packet 30 4 = gw.gatewayIpv4Addr
      · simp [hknown, hgateway]
      · simp [hknown, hgateway]
    · simp [hknown]
  constructor
  · intro hforwards
    obtain ⟨i', data, hevents, -, hlength, -⟩ := hforwards
    obtain ⟨-, hremote, hsame⟩ := Event.sent.inj (List.cons.inj hevents).1
    rw [← hsame, hdata] at hlength
    exact ⟨by omega, haddr.mp hremote⟩
  · intro hright
    obtain ⟨hends, hname⟩ := hright
    have hn : Gateway.frameLen packet - 42 = frameUdpLen packet - 8 := by omega
    refine ⟨i, slice packet 42 (frameUdpLen packet - 8), ?_, rfl, by rw [← hn]; exact hdata, ?_, ?_⟩
    · change [Event.sent _ _ _] = _
      rw [haddr.mpr hname, hn]
    · change (Function.update gw.udpConnections i (gw.used c) i).inUse = true
      rw [Function.update_self]
      exact huse
    · change (Function.update gw.udpConnections i (gw.used c) i).outsideUdpPort = _
      rw [Function.update_self]
      exact hport

theorem not_drops_sent {i : Nat} {c : UdpConnection} : ¬ Drops gw (gw.sent packet i c).1 (gw.sent packet i c).2 := by
  intro hdrops
  have hnil := hdrops.1
  cases hnil

theorem drops_connectionFor {i : Nat} (hsocket : host.socket < 0) :
    Drops gw (gw.setUdp i (Gateway.connectionFor host packet)) [] := by
  refine ⟨rfl, ?_⟩
  intro j hj
  by_cases hji : j = i
  · subst hji
    have huse : (Gateway.connectionFor host packet).inUse = true := by
      simpa only [Gateway.setUdp, Function.update_self] using hj
    have hsocket' : 0 ≤ host.socket := by simpa [Gateway.connectionFor] using huse
    omega
  · exact Function.update_of_ne hji _ _

theorem netIp_forwardsRight_iff (h : IsUdp packet) :
    gw.ForwardsRight nic host packet ↔ gw.CanForward host packet := by
  rw [forwardsRight_iff h]
  by_cases hflags : byte packet 20 &&& 0x3f#8 ≠ 0#8
  · -- the packet is seen to be a fragment
    have hfragment := isFragment_of_flags hflags
    have heq : gw.forwarded host packet = (gw, []) := if_pos hflags
    rw [heq]
    constructor
    · intro _
      exact ⟨fun _ => Or.inl hflags, fun hnot => absurd hfragment hnot, fun hnot => absurd hfragment hnot,
        fun hnot => absurd hfragment hnot⟩
    · intro _
      exact ⟨fun hnot => absurd hfragment hnot, fun _ => ⟨rfl, fun _ _ => rfl⟩⟩
  · cases hcon : gw.udpConId packet (frameSrcPort packet) (frameDstPort packet) with
    | some i =>
      obtain ⟨huse, hport, hip⟩ := udpConId_some hcon
      have hknown : gw.Known packet := by
        unfold Gateway.Known
        rw [hcon]
        exact Option.some_ne_none i
      have heq : gw.forwarded host packet = gw.sent packet i (gw.udpConnections i) := by
        unfold Gateway.forwarded
        rw [if_neg hflags, hcon]
      rw [heq, sent_forwards_iff h huse hport hip]
      constructor
      · intro hright
        obtain ⟨hforwards, hdrops⟩ := hright
        exact ⟨fun hfragment => absurd (hdrops hfragment) not_drops_sent, fun hnot => (hforwards hnot).1,
          fun _ => Or.inl hknown, fun hnot => (hforwards hnot).2⟩
      · intro hcan
        refine ⟨fun hnot => ⟨hcan.length hnot, hcan.nameserver hnot⟩, ?_⟩
        intro hfragment
        rcases hcan.fragment hfragment with hdetected | hunknown
        · exact absurd hdetected hflags
        · exact absurd hknown hunknown.1
    | none =>
      have hknown : ¬ gw.Known packet := by
        unfold Gateway.Known
        rw [hcon]
        exact not_not.mpr rfl
      by_cases hsocket : host.socket < 0
      · have heq : gw.forwarded host packet = (gw.setUdp gw.freeUdpConId (Gateway.connectionFor host packet), []) := by
          unfold Gateway.forwarded
          rw [if_neg hflags, hcon]
          exact if_pos hsocket
        rw [heq]
        constructor
        · intro hright
          have hfragment : IsFragment packet := by
            by_contra hnot
            obtain ⟨i, data, hevents, -⟩ := hright.1 hnot
            cases hevents
          exact ⟨fun _ => Or.inr ⟨hknown, hsocket⟩, fun hnot => absurd hfragment hnot, fun hnot => absurd hfragment hnot,
            fun hnot => absurd hfragment hnot⟩
        · intro hcan
          refine ⟨?_, fun _ => drops_connectionFor hsocket⟩
          intro hnot
          rcases hcan.socket hnot with hold | hnew
          · exact absurd hold hknown
          · omega
      · have heq : gw.forwarded host packet = gw.sent packet gw.freeUdpConId (Gateway.connectionFor host packet) := by
          unfold Gateway.forwarded
          rw [if_neg hflags, hcon]
          exact if_neg hsocket
        have huse : (Gateway.connectionFor host packet).inUse = true := decide_eq_true (by omega)
        rw [heq, sent_forwards_iff h huse rfl rfl]
        constructor
        · intro hright
          obtain ⟨hforwards, hdrops⟩ := hright
          exact ⟨fun hfragment => absurd (hdrops hfragment) not_drops_sent, fun hnot => (hforwards hnot).1,
            fun _ => Or.inr (by omega), fun hnot => (hforwards hnot).2⟩
        · intro hcan
          refine ⟨fun hnot => ⟨hcan.length hnot, hcan.nameserver hnot⟩, ?_⟩
          intro hfragment
          rcases hcan.fragment hfragment with hdetected | hunknown
          · exact absurd hdetected hflags
          · exact absurd hunknown.2 hsocket

end

/-- A datagram of the guest with two bytes of data, and `tail` behind it in the frame. -/
def udpFrame (flags : List Byte) (tail : List Byte) : Frame :=
  natGateway.gatewayEthernetAddr.1 ++ List.replicate 6 0x02#8 ++ [0x08#8, 0x00#8, 0x45#8, 0x00#8] ++
    Lib.bytes true 2 (30 + tail.length) ++ [0#8, 0#8] ++ flags ++ [64#8, 17#8, 0#8, 0#8, 10#8, 0#8, 0#8, 1#8, 1#8, 2#8, 3#8, 4#8] ++
    Lib.bytes true 2 1025 ++ Lib.bytes true 2 53 ++ Lib.bytes true 2 10 ++ [0#8, 0#8] ++ [0xaa#8, 0xbb#8] ++ tail

theorem udpFrame_forwardsRight : natGateway.ForwardsRight none openHost (udpFrame [0x40#8, 0#8] []) := by
  have h : IsUdp (udpFrame [0x40#8, 0#8] []) := by
    refine ⟨?_, ?_, ?_, ?_, ?_⟩ <;> decide +kernel
  have hnot : ¬ IsFragment (udpFrame [0x40#8, 0#8] []) := by
    unfold IsFragment
    decide +kernel
  apply (netIp_forwardsRight_iff h).mpr
  refine ⟨fun hfragment => absurd hfragment hnot, fun _ => ?_, fun _ => Or.inr ?_, fun _ hknown => ?_⟩
  · decide +kernel
  · decide
  · cases hknown

/-- The last fragment of a datagram, if it begins in the first 2048 bytes, is taken for a datagram. -/
theorem lastFragment_sent : ¬ natGateway.ForwardsRight none openHost (udpFrame [0#8, 0xb9#8] []) := by
  intro hright
  obtain ⟨gw', events, heq, -, hdrops⟩ := hright
  have hfragment : IsFragment (udpFrame [0#8, 0xb9#8] []) := by
    unfold IsFragment
    decide +kernel
  have hnil := (hdrops hfragment).1
  have hlength := eval_eq_ok (natGateway.netIp none openHost (udpFrame [0#8, 0xb9#8] [])
    (udpFrame [0#8, 0xb9#8] []).length) (fun r => r.2.length) 1 (by decide +kernel)
  obtain ⟨r, hr, hr1⟩ := hlength
  rw [heq] at hr
  cases hr
  rw [hnil] at hr1
  cases hr1

end Gxemul.Network
