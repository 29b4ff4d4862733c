import Gxemul.Network.Ip
import Gxemul.Network.Reply

/- Which frames of the guest are handled within their bounds. For each handler there is
   the condition under which it reads the frame at indices that the frame has, writes
   replies at indices that they have, and passes on no negative length. -/
namespace Gxemul.Network

open Lib Lib.Buf

/-! ## The conditions -/

def TimestampFits (packet : Frame) : Prop :=
  65 ≤ packet.length ∧ (byte packet 64 = 0x08#8 → 66 ≤ packet.length ∧ (byte packet 65 = 0x0a#8 → 70 ≤ packet.length))

/-- An echo request needs its first 38 bytes, within the length of the IP header. -/
def IcmpFits (packet : Frame) (len : Nat) : Prop := 35 ≤ packet.length ∧ (byte packet 34 = 8#8 → 38 ≤ len)

/-- The bytes that are compared are there, up to the first that differs. -/
def TestsFit (packet : Frame) : List (Nat × Byte) → Prop
  | [] => True
  | (i, b) :: tests => i < packet.length ∧ (byte packet i = b → TestsFit packet tests)

/-- `seg`, for a frame that has a TCP header. -/
def segmentOf (packet : Frame) : Segment := .ofHeader (slice packet 34 20)

def ChecksumRight (packet : Frame) (len : Nat) : Prop :=
  netIpTcpChecksum (fun i => .ok (byte packet (34 + i))) 16 (len - 34) (slice packet 26 4) (slice packet 30 4) false =
    .ok (segmentOf packet).checksum

/-- A segment of a connection in this state is searched for the option: it has no RST and no FIN, and is no ACK of a
connection that is being closed. -/
def Segment.Searched (seg : Segment) (state : TcpState) : Prop :=
  seg.rst = false ∧ seg.fin = false ∧ ¬ (seg.ack = true ∧ state = .disconnected2)

namespace Gateway
variable (gw : Gateway) (nic : NicPtr) (host : Host) (packet : Frame) (len : Nat)

/-- A segment with the right checksum is searched for the option, if it belongs to a connection or opens one. -/
def OptionSearched : Prop :=
  let seg := segmentOf packet
  ChecksumRight packet len ∧
    match gw.tcpConId packet seg with
    | some i => seg.syn = false ∧ seg.Searched (gw.tcpConnections i).state
    | none => seg.syn = true ∧ gw.freeTcpConId ≠ none ∧ 0 ≤ host.socket ∧ seg.Searched .tryingToConnect

def TcpFits : Prop := 54 ≤ packet.length ∧ 34 ≤ len ∧ (gw.OptionSearched host packet len → TimestampFits packet)

/-- A UDP frame has a header, within the length of the IP header unless there is no socket for it. -/
def UdpFits : Prop :=
  21 ≤ packet.length ∧ (byte packet 20 &&& 0x3f#8 = 0#8 → 40 ≤ packet.length ∧
    (42 ≤ len ∨ (gw.udpConId packet (Lib.value true (slice packet 34 2)) (Lib.value true (slice packet 36 2)) = none ∧
      host.socket < 0)))

/-- `len`, after net_ip() has cut off the tail. -/
def ipLen : Nat := min packet.length (14 + (byte packet 16).toNat * 256 + (byte packet 17).toNat)

def IpFits : Prop :=
  (host.verbose = true → 34 ≤ packet.length) ∧ 18 ≤ packet.length ∧ (byte packet 14 = 0x45#8 → 24 ≤ packet.length ∧
    (byte packet 23 = 1#8 → IcmpFits packet (ipLen packet)) ∧
    (byte packet 23 = 6#8 → gw.TcpFits host packet (ipLen packet)) ∧
    (byte packet 23 = 17#8 → gw.UdpFits host packet (ipLen packet)))

/-- An IP broadcast has its destination address, and what is compared. -/
def BroadcastFits : Prop := 34 ≤ packet.length ∧ TestsFit packet dhcpTests ∧ TestsFit packet ipxTests

/-- An ARP packet is answered: a request for the gateway's address, or a RARP request. `packet` is what follows the
Ethernet header. -/
def ArpAnswered : Prop :=
  slice packet 0 6 = [0x00#8, 0x01#8, 0x08#8, 0x00#8, 0x06#8, 0x04#8] ∧
    ((Lib.value true (slice packet 6 2) = 1 ∧ slice packet 24 4 = gw.gatewayIpv4Addr.1) ∨
      Lib.value true (slice packet 6 2) = 3)

/-- An ARP packet has 28 bytes, and at most 60 if it is answered. -/
def ArpFits : Prop := 28 ≤ packet.length ∧ (gw.ArpAnswered packet → packet.length ≤ 60)

def ForTheGateway : Prop := slice packet 0 6 = gw.gatewayEthernetAddr.1

instance : Decidable (gw.ForTheGateway packet) := inferInstanceAs (Decidable (_ = _))

/-- A frame is handled: it is for the gateway, or for all, or for a multicast address. -/
def Handled : Prop :=
  gw.ForTheGateway packet ∨ byte packet 0 = 0xff#8 ∨ (byte packet 0 = 0x00#8 ∧ byte packet 5 = 0x00#8)

def frameType : Nat := Lib.value true (slice packet 12 2)

def FrameFits : Prop :=
  20 ≤ packet.length → gw.Handled packet →
    (frameType packet = ethertypeIp → if gw.ForTheGateway packet then gw.IpFits host packet
      else packet.take 6 = List.replicate 6 0xff#8 → BroadcastFits packet) ∧
    (frameType packet = ethertypeArp ∨ frameType packet = ethertypeRevarp → gw.ArpFits (packet.drop 14))

end Gateway

/-! ## Reading and writing -/

section
variable {packet reply : Frame} {fresh : Nat → Byte} {i len ofs chksumoffset : Nat} {verbose udpflag : Bool} {β : Type}

theorem readFrom_ok (h : len ≤ packet.length) : ∃ l, readFrom packet i len = .ok l := by
  unfold readFrom
  split
  · exact ⟨_, readBytes_of_le (by omega)⟩
  · exact ⟨[], rfl⟩

theorem inBounds_dumpIp_bind {f : Unit → Checked β} (h : len ≤ packet.length) :
    InBounds (dumpIp verbose packet len >>= f) ↔ (verbose = true → 34 ≤ packet.length) ∧ InBounds (f ()) := by
  unfold dumpIp
  cases verbose with
  | false => exact ⟨fun hr => ⟨by nofun, hr⟩, fun hr => hr.2⟩
  | true =>
    obtain ⟨l, hl⟩ := @readFrom_ok packet 34 len h
    simp only [if_true, bind_assoc, inBounds_readBytes_bind, hl, forall_const]
    exact Iff.rfl

theorem inBounds_cutLen_bind {f : Nat → Checked β} :
    InBounds (cutLen packet len >>= f) ↔ 18 ≤ packet.length ∧
      InBounds (f (min len (14 + (byte packet 16).toNat * 256 + (byte packet 17).toNat))) := by
  unfold cutLen
  simp only [bind_assoc, inBounds_readByte_bind, pure_bind]
  constructor
  · rintro ⟨-, h17, hf⟩
    exact ⟨h17, hf⟩
  · rintro ⟨h18, hf⟩
    exact ⟨by omega, h18, hf⟩

theorem inBounds_replyChecksum_bind {f : Frame → Checked β} : ∃ sum : List Byte, sum.length = 2 ∧
    (InBounds (replyChecksum fresh reply ofs chksumoffset len >>= f) ↔
      ofs + chksumoffset + 2 ≤ reply.length ∧ InBounds (f (set reply (ofs + chksumoffset) sum))) := by
  obtain ⟨sum, hsum, h⟩ := @replyChecksum_eq_write fresh reply ofs chksumoffset len
  refine ⟨sum, hsum, ?_⟩
  rw [h, inBounds_write_bind, hsum]

theorem inBounds_replyChecksum :
    InBounds (replyChecksum fresh reply ofs chksumoffset len) ↔ ofs + chksumoffset + 2 ≤ reply.length := by
  obtain ⟨sum, -, h⟩ := @inBounds_replyChecksum_bind reply fresh len ofs chksumoffset Frame pure
  rw [bind_pure] at h
  exact h.trans ⟨fun hr => hr.1, fun hle => ⟨hle, _, rfl⟩⟩

end

namespace Gateway
variable {gw : Gateway} {nic : NicPtr} {host : Host} {packet : Frame} {len : Nat}

/-! ## ARP -/

/-- An answer of 74 bytes, which starts as the packet. -/
theorem inBounds_answer {f : Frame → Checked Frame} (hf : ∀ reply : Frame, reply.length = 74 → InBounds (f reply)) :
    InBounds (write (List.replicate 74 0#8) 14 packet >>= f) ↔ packet.length ≤ 60 := by
  rw [inBounds_write_bind, List.length_replicate]
  constructor
  · rintro ⟨hle, -⟩
    omega
  · intro hle
    have hfit : 14 + packet.length ≤ (List.replicate 74 0#8 : List Byte).length := by
      rw [List.length_replicate]
      omega
    exact ⟨by omega, hf _ (by rw [length_set hfit, List.length_replicate])⟩

theorem inBounds_arpReply : InBounds (gw.arpReply packet) ↔ packet.length ≤ 60 := by
  refine inBounds_answer fun reply hlen => ?_
  have hsender : (slice reply 22 10).length = 10 := length_slice (by omega)
  refine ⟨_, (writeAll_of_le ?_).1⟩
  simp [hlen, hsender]

theorem inBounds_rarpReply (h : 28 ≤ packet.length) : InBounds (gw.rarpReply packet) ↔ packet.length ≤ 60 := by
  refine inBounds_answer fun reply hlen => ?_
  have hmac : (slice packet 8 6).length = 6 := length_slice (by omega)
  rw [inBounds_readBytes_bind, inBounds_readByte_bind]
  refine ⟨by omega, by omega, _, (writeAll_of_le ?_).1⟩
  simp [hlen, hmac]

theorem inBounds_netArp : InBounds (gw.netArp nic packet) ↔ gw.ArpFits packet := by
  unfold netArp ArpFits ArpAnswered
  simp only [inBounds_readBytes_bind, inBounds_ite, inBounds_bind_pure, inBounds_pure, inBounds_arpReply]
  constructor
  · rintro ⟨h28, -, h⟩
    refine ⟨by omega, ?_⟩
    rintro ⟨hheader, (⟨hr, htarget⟩ | hr)⟩
    · exact ((h.1 hheader).2.1 hr).2.1 htarget
    · have hne : ¬ Lib.value true (slice packet 6 2) = 1 := by omega
      exact (inBounds_rarpReply (by omega)).mp (((h.1 hheader).2.2 hne).1 hr)
  · rintro ⟨h28, h⟩
    refine ⟨by omega, by omega, fun hheader => ⟨by omega, fun hr => ⟨by omega, fun htarget => ?_, fun _ => trivial⟩,
      fun hne => ⟨fun hr => ?_, fun _ => trivial⟩⟩, fun _ => trivial⟩
    · exact h ⟨hheader, .inl ⟨hr, htarget⟩⟩
    · exact (inBounds_rarpReply h28).mpr (h ⟨hheader, .inr hr⟩)

/-! ## ICMP -/

theorem inBounds_echoReply (hle : len ≤ packet.length) (h35 : 35 ≤ packet.length) (h14 : 14 ≤ len) :
    InBounds (echoReply host packet len) ↔ 38 ≤ len := by
  have htail : ((len : Int) - 12).toNat = len - 12 := by omega
  have hlenTail : (slice packet 12 (len - 12)).length = len - 12 := length_slice (by omega)
  have hfit : 12 + (slice packet 12 (len - 12)).length ≤ (newFrame (host.fresh 0) len).length := by
    rw [hlenTail, length_newFrame]
    omega
  have hlen := length_set hfit
  rw [length_newFrame] at hlen
  have hether : (slice packet 0 12).length = 12 := length_slice (by omega)
  have haddrs : (slice packet 26 8).length = 8 := length_slice (by omega)
  have h6 : ∀ i, i ≤ 6 → (slice (slice packet 0 12) i 6).length = 6 := fun i hi => length_slice (by omega)
  have h4 : ∀ i, i ≤ 4 → (slice (slice packet 26 8) i 4).length = 4 := fun i hi => length_slice (by omega)
  unfold echoReply
  rw [inBounds_checkLength_bind, htail, inBounds_readBytes_bind, inBounds_write_bind,
    inBounds_readBytes_bind, inBounds_readBytes_bind, inBounds_writeAll_bind,
    inBounds_checkLength_bind]
  generalize set (newFrame (host.fresh 0) len) 12 (slice packet 12 (len - 12)) = reply at hlen ⊢
  generalize hws : [(0, slice (slice packet 0 12) 6 6), (6, slice (slice packet 0 12) 0 6),
    (26, slice (slice packet 26 8) 4 4), (30, slice (slice packet 26 8) 0 4), (34, [0x00#8]), (22, [2#8])] = ws
  have hfits : (∀ w ∈ ws, w.1 + w.2.length ≤ reply.length) ↔ 35 ≤ len := by
    rw [← hws, hlen]
    simp [h6, h4]
    omega
  rw [hfits]
  obtain ⟨sum, hsum, hck⟩ := @inBounds_replyChecksum_bind (setAll reply ws) (host.fresh 0) ((len : Int) - 34).toNat 34 2
    Frame fun reply => replyChecksum (host.fresh 0) reply 14 10 20
  rw [hck, inBounds_replyChecksum]
  constructor
  · rintro ⟨-, -, -, -, -, h35', -, h38, -⟩
    rw [(writeAll_of_le (hfits.mpr h35')).2, hlen] at h38
    omega
  · intro h38
    have hlenAll := (writeAll_of_le (hfits.mpr (by omega))).2
    have hb : 34 + 2 + sum.length ≤ (setAll reply ws).length := by omega
    have hlenSum := length_set hb
    refine ⟨by omega, by omega, by omega, by omega, by omega, by omega, by omega, by omega, by omega⟩

theorem inBounds_netIpIcmp (hle : len ≤ packet.length) (h14 : 14 ≤ len) :
    InBounds (netIpIcmp nic host packet len) ↔ IcmpFits packet len := by
  unfold netIpIcmp IcmpFits
  simp only [inBounds_readByte_bind, inBounds_ite, inBounds_bind_pure, inBounds_pure]
  constructor
  · rintro ⟨h34, h, -⟩
    exact ⟨h34, fun htype => (inBounds_echoReply hle h34 h14).mp (h htype)⟩
  · rintro ⟨h35, h⟩
    exact ⟨h35, fun htype => (inBounds_echoReply hle h35 h14).mpr (h htype), fun _ => trivial⟩

/-! ## UDP -/

theorem inBounds_sendDatagram {i : Nat} {c : UdpConnection} (hle : len ≤ packet.length) :
    InBounds (gw.sendDatagram packet len i c) ↔ 42 ≤ len := by
  unfold sendDatagram
  simp only [inBounds_checkLength_bind, inBounds_readBytes_bind, inBounds_pure]
  constructor
  · rintro ⟨h, -⟩
    omega
  · intro h
    exact ⟨by omega, by omega, trivial⟩

theorem newUdpConnection_ok {srcport dstport : Nat} (h : 34 ≤ packet.length) :
    ∃ c, newUdpConnection host packet srcport dstport = .ok c := by
  refine inBounds_readBlock_bind.mpr ⟨by omega, ?_⟩
  refine inBounds_readBlock_bind.mpr ⟨by omega, ?_⟩
  exact inBounds_readBlock_bind.mpr ⟨by omega, _, rfl⟩

theorem inBounds_netIpUdp (hle : len ≤ packet.length) :
    InBounds (gw.netIpUdp host packet len) ↔ gw.UdpFits host packet len := by
  unfold netIpUdp UdpFits
  rw [inBounds_readByte_bind]
  refine and_congr_right fun h21 => ?_
  have hports : ∀ k, k ≤ 4 → 40 ≤ packet.length → slice (slice packet 34 6) k 2 = slice packet (34 + k) 2 := by
    intro k hk h40
    unfold slice
    rw [List.drop_take, List.take_take, List.drop_drop]
    congr 1
    omega
  by_cases hofs : byte packet 20 &&& 0x3f#8 = 0#8
  · rw [if_neg (not_not.mpr hofs), inBounds_readBytes_bind]
    simp only [hofs, forall_const]
    refine and_congr_right fun h40 => ?_
    rw [hports 0 (by decide) h40, hports 2 (by decide) h40]
    obtain ⟨l, hl⟩ := @readFrom_ok packet 42 len hle
    rw [hl]
    show InBounds (match gw.udpConId packet (Lib.value true (slice packet 34 2)) (Lib.value true (slice packet 36 2)) with
      | some i => gw.sendDatagram packet len i (gw.udpConnections i)
      | none => _) ↔ _
    cases gw.udpConId packet (Lib.value true (slice packet 34 2)) (Lib.value true (slice packet 36 2)) with
    | some i =>
      rw [inBounds_sendDatagram hle]
      simp
    | none =>
      obtain ⟨c, hc⟩ := @newUdpConnection_ok host packet (Lib.value true (slice packet 34 2))
        (Lib.value true (slice packet 36 2)) (by omega)
      rw [hc]
      show InBounds (if host.socket < 0 then _ else _) ↔ _
      by_cases hsock : host.socket < 0
      · rw [if_pos hsock]
        exact ⟨fun _ => .inr ⟨rfl, hsock⟩, fun _ => ⟨_, rfl⟩⟩
      · rw [if_neg hsock, inBounds_sendDatagram hle]
        exact ⟨.inl, fun h => h.resolve_right fun h => hsock h.2⟩
  · rw [if_pos hofs]
    exact ⟨fun _ h => absurd h hofs, fun _ => ⟨_, rfl⟩⟩

end Gateway

/-! ## TCP -/

namespace TcpConnection
variable {net : TcpNet} {host : Host} {packet : Frame} {len : Nat} {seg : Segment} {c : TcpConnection}

theorem inBounds_readTimestamp : InBounds (c.readTimestamp packet) ↔ TimestampFits packet := by
  unfold readTimestamp TimestampFits
  simp only [inBounds_readByte_bind, inBounds_readBytes_bind, inBounds_ite, inBounds_pure]
  constructor
  · rintro ⟨h64, h, -⟩
    refine ⟨h64, fun hkind => ⟨(h hkind).1, fun hlength => ?_⟩⟩
    have h70 := ((h hkind).2.1 hlength).1
    omega
  · rintro ⟨h65, h⟩
    refine ⟨h65, fun hkind => ⟨(h hkind).1, fun hlength => ⟨?_, trivial⟩, fun _ => trivial⟩, fun _ => trivial⟩
    have h70 := (h hkind).2 hlength
    omega

theorem inBounds_transmit (hle : len ≤ packet.length) (hlt : seg.dataOffset < len) :
    InBounds (c.transmit host packet len seg) := by
  unfold transmit
  rw [inBounds_ite]
  refine ⟨fun _ => ⟨_, rfl⟩, fun _ => ?_⟩
  rw [inBounds_ite]
  refine ⟨fun _ => ⟨_, rfl⟩, fun _ => ?_⟩
  rw [inBounds_readBytes_bind]
  refine ⟨by omega, ?_⟩
  split <;> exact ⟨_, rfl⟩

theorem inBounds_inputData (hle : len ≤ packet.length) :
    InBounds (c.inputData net host packet len seg) ↔ TimestampFits packet := by
  unfold inputData
  rw [inBounds_bind]
  constructor
  · rintro ⟨c', h, -⟩
    exact inBounds_readTimestamp.mp ⟨c', h⟩
  · intro h
    obtain ⟨c', h'⟩ := inBounds_readTimestamp.mpr h
    refine ⟨c', h', ?_⟩
    rw [inBounds_ite]
    refine ⟨fun _ => ⟨_, rfl⟩, fun _ => ?_⟩
    rw [inBounds_ite]
    refine ⟨fun _ => ⟨_, rfl⟩, fun hlt => ?_⟩
    rw [inBounds_bind]
    obtain ⟨⟨c'', events, replies⟩, ht⟩ := @inBounds_transmit host packet len seg
      { c' with lastUsedTimestamp := net.timestamp + 1#64 } hle (by omega)
    refine ⟨_, ht, ?_⟩
    rw [inBounds_ite]
    refine ⟨fun _ => ?_, fun _ => ⟨_, rfl⟩⟩
    obtain ⟨frame, hreply, -⟩ := @reply_ok { net with timestamp := net.timestamp + 1#64 } c'' host 0 false events
    exact ⟨_, hreply⟩

theorem inBounds_input (hle : len ≤ packet.length) :
    InBounds (c.input net host packet len seg) ↔ (seg.Searched c.state → TimestampFits packet) := by
  have hreply : ∀ (c : TcpConnection) (k : Nat) (rst : Bool) (events : List TcpEvent),
      InBounds (c.reply host k rst net events) := fun c k rst events => by
    obtain ⟨frame, h, -⟩ := @reply_ok net c host k rst events
    exact ⟨_, h⟩
  unfold input Segment.Searched
  by_cases hrst : seg.rst = true
  · rw [if_pos hrst, inBounds_bind_pure]
    exact ⟨fun _ h => absurd hrst (by simp [h.1]), fun _ => hreply c 0 true []⟩
  · rw [if_neg hrst]
    by_cases hack : seg.ack = true ∧ c.state = .disconnected2
    · rw [if_pos hack, inBounds_bind_pure]
      exact ⟨fun _ h => absurd hack h.2.2, fun _ => hreply c 0 true []⟩
    · rw [if_neg hack]
      by_cases hfin : seg.fin = true
      · refine ⟨fun _ h => absurd hfin (by simp [h.2.1]), fun _ => ?_⟩
        by_cases hdis : c.state = .disconnected
        · rw [if_pos ⟨hfin, hdis⟩, inBounds_bind_pure]
          exact hreply _ 0 false []
        · rw [if_neg fun h => hdis h.2, if_pos hfin]
          obtain ⟨r, hr⟩ := hreply c 0 false []
          rw [hr]
          exact hreply _ 1 false _
      · rw [if_neg fun h => hfin h.1, if_neg hfin, inBounds_inputData hle]
        rw [Bool.not_eq_true] at hrst hfin
        exact ⟨fun h _ => h, fun h => h ⟨hrst, hfin, hack⟩⟩

end TcpConnection

namespace Gateway
variable {gw : Gateway} {nic : NicPtr} {host : Host} {packet : Frame} {len : Nat} {seg : Segment}

theorem inBounds_inputTo {i : Nat} {c : TcpConnection} {events : List TcpEvent} (hle : len ≤ packet.length) :
    InBounds (gw.inputTo nic packet seg host i c events len) ↔ (seg.Searched c.state → TimestampFits packet) := by
  unfold inputTo
  rw [inBounds_bind_pure, TcpConnection.inBounds_input hle]

theorem newTcpConnection_ok (h : 34 ≤ packet.length) : ∃ c, newTcpConnection packet seg = .ok c := by
  refine inBounds_readBlock_bind.mpr ⟨by omega, ?_⟩
  refine inBounds_readBlock_bind.mpr ⟨by omega, ?_⟩
  exact inBounds_readBlock_bind.mpr ⟨by omega, _, rfl⟩

theorem inBounds_openTcp (hle : len ≤ packet.length) (h34 : 34 ≤ packet.length) :
    InBounds (gw.openTcp nic packet seg host len) ↔
      (gw.freeTcpConId ≠ none ∧ 0 ≤ host.socket ∧ seg.Searched .tryingToConnect → TimestampFits packet) := by
  unfold openTcp
  cases hfree : gw.freeTcpConId with
  | none => exact ⟨fun _ h => absurd rfl h.1, fun _ => ⟨_, rfl⟩⟩
  | some i =>
    obtain ⟨c, hc⟩ := @newTcpConnection_ok packet seg h34
    rw [hc]
    show InBounds (if host.socket < 0 then _ else _) ↔ _
    by_cases hsock : host.socket < 0
    · rw [if_pos hsock]
      exact ⟨fun _ h => absurd hsock (by omega), fun _ => ⟨_, rfl⟩⟩
    · rw [if_neg hsock, inBounds_inputTo hle]
      exact ⟨fun h hcond => h hcond.2.2, fun h hs => h ⟨by simp, by omega, hs⟩⟩

theorem inBounds_netIpTcp (hle : len ≤ packet.length) :
    InBounds (gw.netIpTcp nic packet host len) ↔ gw.TcpFits host packet len := by
  unfold netIpTcp TcpFits
  rw [inBounds_readBytes_bind]
  refine and_congr_right fun h54 => ?_
  rw [inBounds_checkLength_bind, show (0 ≤ (len : Int) - 34) ↔ 34 ≤ len by omega]
  refine and_congr_right fun h34 => ?_
  have htcp : ((len : Int) - 34).toNat = len - 34 := by omega
  rw [htcp, readBytes_of_le (show 26 + 4 ≤ packet.length by omega),
    readBytes_of_le (show 30 + 4 ≤ packet.length by omega)]
  obtain ⟨sum, hsum, hpure⟩ := @netIpTcpChecksum_ok (fun i => readByte packet (34 + i)) (fun i => byte packet (34 + i)) 16
    (len - 34) (slice packet 26 4) (slice packet 30 4) false fun i hi => readByte_of_lt (by omega)
  show InBounds (netIpTcpChecksum _ 16 (len - 34) (slice packet 26 4) (slice packet 30 4) false >>= _) ↔ _
  rw [hsum]
  show InBounds (if sum ≠ (segmentOf packet).checksum then _ else _) ↔ _
  unfold OptionSearched ChecksumRight
  rw [hpure]
  by_cases hck : sum = (segmentOf packet).checksum
  · rw [if_neg (not_not.mpr hck), hck]
    simp only [true_and]
    rw [show Segment.ofHeader (slice packet 34 20) = segmentOf packet from rfl]
    cases gw.tcpConId packet (segmentOf packet) with
    | none =>
      by_cases hsyn : (segmentOf packet).syn = true
      · rw [if_pos hsyn, inBounds_openTcp hle (by omega)]
        exact ⟨fun h hc => h hc.2, fun h hc => h ⟨hsyn, hc⟩⟩
      · rw [if_neg hsyn]
        exact ⟨fun _ h => absurd h.1 hsyn, fun _ => ⟨_, rfl⟩⟩
    | some i =>
      dsimp only
      by_cases hsyn : (segmentOf packet).syn = true
      · rw [if_pos hsyn]
        exact ⟨fun _ h => absurd hsyn (by simp [h.1]), fun _ => ⟨_, rfl⟩⟩
      · rw [if_neg hsyn, inBounds_inputTo hle]
        rw [Bool.not_eq_true] at hsyn
        exact ⟨fun h hc => h hc.2, fun h hc => h ⟨hsyn, hc⟩⟩
  · rw [if_pos hck]
    refine ⟨fun _ h => ?_, fun _ => ⟨_, rfl⟩⟩
    cases h.1
    exact absurd rfl hck

/-! ## IP -/

theorem inBounds_netIp (h20 : 20 ≤ packet.length) :
    InBounds (gw.netIp nic host packet packet.length) ↔ gw.IpFits host packet := by
  have hle : ipLen packet ≤ packet.length := Nat.min_le_left _ _
  have h14 : 14 ≤ ipLen packet := by
    unfold ipLen
    omega
  unfold netIp IpFits
  rw [inBounds_dumpIp_bind (Nat.le_refl _), inBounds_cutLen_bind, inBounds_readByte_bind]
  refine and_congr_right fun _ => and_congr_right fun h18 => ?_
  rw [inBounds_ite, inBounds_readByte_bind, inBounds_ite, inBounds_ite, inBounds_ite,
    inBounds_bind_pure]
  simp only [inBounds_pure]
  show _ ∧ (byte packet 14 = 0x45#8 → 23 < packet.length ∧
    (byte packet 23 = 1#8 → InBounds (netIpIcmp nic host packet (ipLen packet))) ∧
    (¬ byte packet 23 = 1#8 → (byte packet 23 = 6#8 → InBounds (gw.netIpTcp nic packet host (ipLen packet))) ∧
      (¬ byte packet 23 = 6#8 → (byte packet 23 = 17#8 → InBounds (gw.netIpUdp host packet (ipLen packet))) ∧ _))) ∧ _ ↔ _
  rw [inBounds_netIpIcmp hle h14, inBounds_netIpTcp hle, inBounds_netIpUdp hle]
  constructor
  · rintro ⟨-, h, -⟩ h45
    obtain ⟨h23, h1, h6⟩ := h h45
    refine ⟨h23, h1, fun hp => (h6 (by rw [hp]; decide)).1 hp, fun hp => ?_⟩
    exact ((h6 (by rw [hp]; decide)).2 (by rw [hp]; decide)).1 hp
  · intro h
    refine ⟨by omega, fun h45 => ?_, fun _ => trivial⟩
    obtain ⟨h23, h1, h6, h17⟩ := h h45
    exact ⟨h23, h1, fun _ => ⟨h6, fun _ => ⟨h17, fun _ => trivial⟩⟩⟩

/-! ## Broadcasts -/

theorem inBounds_bytesMatch (packet : Frame) (tests : List (Nat × Byte)) :
    (InBounds (bytesMatch packet tests) ↔ TestsFit packet tests) ∧
      (bytesMatch packet tests = .ok true → ∀ t ∈ tests, t.1 < packet.length ∧ byte packet t.1 = t.2) := by
  induction tests with
  | nil => exact ⟨⟨fun _ => trivial, fun _ => ⟨_, rfl⟩⟩, fun _ => by simp⟩
  | cons t tests ih =>
    unfold bytesMatch TestsFit
    constructor
    · rw [inBounds_readByte_bind, inBounds_ite, ih.1]
      refine and_congr_right fun _ => ?_
      simp
    · intro h
      obtain ⟨b', hb, h⟩ := Lib.bind_eq_ok h
      have hi := (inBounds_readByte_bind (f := pure)).mp ⟨b', by rw [hb]; rfl⟩
      rw [readByte_of_lt hi.1] at hb
      cases hb
      split at h
      · rename_i heq
        intro t ht
        obtain rfl | ht := List.mem_cons.mp ht
        · exact ⟨hi.1, heq⟩
        · exact ih.2 h t ht
      · cases h

theorem inBounds_netIpBroadcastDhcp (hle : len ≤ packet.length) (h38 : 38 ≤ packet.length) :
    InBounds (gw.netIpBroadcastDhcp nic host packet len) := by
  unfold netIpBroadcastDhcp
  rw [inBounds_dumpIp_bind hle]
  refine ⟨fun _ => by omega, ?_⟩
  rw [inBounds_ite]
  refine ⟨fun _ => ⟨_, rfl⟩, fun hlen => ?_⟩
  have hold : (slice packet 0 278).length = 278 := length_slice (by omega)
  have hfit : 0 + (slice packet 0 278).length ≤ (newFrame (host.fresh 0) 307).length := by
    rw [hold, length_newFrame]
    omega
  have hlen1 := length_set hfit
  rw [length_newFrame] at hlen1
  have hmac : (slice packet 6 6).length = 6 := length_slice (by omega)
  have hports : (slice packet 34 4).length = 4 := length_slice (by omega)
  have h2 : ∀ i, i ≤ 2 → (slice (slice packet 34 4) i 2).length = 2 := fun i hi => length_slice (by omega)
  rw [inBounds_readBytes_bind, inBounds_write_bind, inBounds_readBytes_bind,
    inBounds_readBytes_bind, inBounds_writeAll_bind, inBounds_writeAll_bind]
  refine ⟨by omega, hfit, by omega, by omega, ?_⟩
  generalize set (newFrame (host.fresh 0) 307) 0 (slice packet 0 278) = reply at hlen1 ⊢
  have hw2 : ∀ w ∈ gw.dhcpHeader (slice packet 6 6) (slice packet 34 4), w.1 + w.2.length ≤ reply.length := by
    simp [dhcpHeader, hlen1, hmac, h2]
  have hlen2 := (writeAll_of_le hw2).2
  have hw3 : ∀ w ∈ gw.dhcpOptions, w.1 + w.2.length ≤
      (setAll reply (gw.dhcpHeader (slice packet 6 6) (slice packet 34 4))).length := by
    simp [dhcpOptions, hlen2, hlen1]
  have hlen3 := (writeAll_of_le hw3).2
  refine ⟨hw2, hw3, ?_⟩
  generalize setAll (setAll reply (gw.dhcpHeader (slice packet 6 6) (slice packet 34 4))) gw.dhcpOptions = reply'
    at hlen3 ⊢
  obtain ⟨sum, hsum, hck⟩ := @inBounds_replyChecksum_bind reply' (host.fresh 0) 20 14 10 (List Event) fun reply => do
    let reply ← replyTcpChecksum (host.fresh 0) reply 6 273 true
    return [.queued nic reply]
  rw [hck]
  refine ⟨by omega, ?_⟩
  have hb : 14 + 10 + sum.length ≤ reply'.length := by omega
  have hlen4 := length_set hb
  obtain ⟨sum', hsum', htck⟩ := @replyTcpChecksum_eq_write (host.fresh 0) (set reply' (14 + 10) sum) 6 273 true
  rw [htck, inBounds_write_bind]
  exact ⟨by omega, _, rfl⟩

theorem inBounds_netIpBroadcast :
    InBounds (gw.netIpBroadcast nic host packet packet.length) ↔ BroadcastFits packet := by
  have hle : ipLen packet ≤ packet.length := Nat.min_le_left _ _
  unfold netIpBroadcast BroadcastFits
  rw [inBounds_dumpIp_bind (Nat.le_refl _), inBounds_readBytes_bind, inBounds_cutLen_bind]
  obtain ⟨hdhcp, hdhcpAll⟩ := inBounds_bytesMatch packet dhcpTests
  obtain ⟨hipx, -⟩ := inBounds_bytesMatch packet ipxTests
  rw [← hdhcp, ← hipx, inBounds_bind]
  constructor
  · rintro ⟨-, h34, -, isDhcp, hd, h⟩
    refine ⟨h34, ⟨isDhcp, hd⟩, ?_⟩
    cases isDhcp with
    | false =>
      obtain ⟨isIpx, hi, -⟩ := inBounds_bind.mp h
      exact ⟨isIpx, hi⟩
    | true =>
      -- a DHCP packet comes from port 68, not from port 0xffff
      rw [hipx]
      have hall := hdhcpAll hd
      have hport := (hall (34, 0#8) (by decide)).2
      refine ⟨(hall (14, 0x45#8) (by decide)).1, fun _ => ⟨(hall (23, 0x11#8) (by decide)).1, fun _ =>
        ⟨(hall (34, 0#8) (by decide)).1, fun h => ?_⟩⟩⟩
      rw [hport] at h
      cases h
  · rintro ⟨h34, ⟨isDhcp, hd⟩, ⟨isIpx, hi⟩⟩
    refine ⟨fun _ => h34, h34, by omega, isDhcp, hd, ?_⟩
    cases isDhcp with
    | false =>
      rw [if_neg Bool.false_ne_true, inBounds_bind]
      refine ⟨isIpx, hi, ?_⟩
      rw [inBounds_ite]
      refine ⟨fun _ => ⟨_, rfl⟩, fun _ => ?_⟩
      exact (inBounds_dumpIp_bind hle).mpr ⟨fun _ => h34, _, rfl⟩
    | true =>
      have h37 := (hdhcpAll hd (37, 67#8) (by decide)).1
      exact inBounds_netIpBroadcastDhcp hle h37

/-! ## Ethernet -/

theorem inBounds_handleFrame (h20 : 20 ≤ packet.length) {forTheGateway : Bool} :
    InBounds (gw.handleFrame nic host packet forTheGateway) ↔
      (frameType packet = ethertypeIp → if forTheGateway = true then gw.IpFits host packet
        else packet.take 6 = List.replicate 6 0xff#8 → BroadcastFits packet) ∧
      (frameType packet = ethertypeArp ∨ frameType packet = ethertypeRevarp → gw.ArpFits (packet.drop 14)) := by
  unfold handleFrame
  rw [inBounds_readBytes_bind]
  rw [inBounds_ite, inBounds_ite, inBounds_ite, inBounds_ite, inBounds_bind_pure, inBounds_bind_pure,
    inBounds_netIp h20, inBounds_netIpBroadcast, inBounds_netArp]
  have hne : frameType packet = ethertypeArp ∨ frameType packet = ethertypeRevarp → ¬ frameType packet = ethertypeIp := by
    rintro (h | h) <;>
    · rw [h]
      decide
  constructor
  · rintro ⟨-, hip, harp⟩
    refine ⟨fun htype => ?_, fun htype => (harp (hne htype)).1 htype⟩
    split
    · rename_i hgw
      exact (hip htype).1 hgw
    · rename_i hgw
      exact ((hip htype).2 hgw).1
  · rintro ⟨hip, harp⟩
    refine ⟨by omega, fun htype => ⟨fun hgw => ?_, fun hgw => ⟨fun hbroadcast => ?_, fun _ => ⟨_, rfl⟩⟩⟩, fun _ =>
      ⟨harp, fun _ => ⟨_, rfl⟩⟩⟩
    · have h := hip htype
      rwa [if_pos hgw] at h
    · have h := hip htype
      rw [if_neg hgw] at h
      exact h hbroadcast

/-- A frame of the guest is handled within the bounds of all buffers exactly if it fits. -/
theorem netEthernetTx_returns_iff : InBounds (gw.netEthernetTx nic host packet) ↔ gw.FrameFits host packet := by
  unfold netEthernetTx FrameFits
  by_cases h20 : 20 ≤ packet.length
  · have hbyte : ∀ i, i < 6 → byte (slice packet 0 6) i = byte packet i := fun i hi => by
      rw [Buf.byte_slice, if_pos hi, Nat.zero_add]
    rw [if_neg (by omega), Buf.inBounds_readBytes_bind]
    dsimp only
    rw [hbyte 0 (by decide), hbyte 5 (by decide)]
    have hdropped : (!decide (slice packet 0 6 = gw.gatewayEthernetAddr.1) && byte packet 0 != 0xff#8 &&
        !(byte packet 0 == 0x00#8 && byte packet 5 == 0x00#8)) = true ↔ ¬ gw.Handled packet := by
      unfold Handled ForTheGateway
      simp only [Bool.and_eq_true, Bool.not_eq_true', decide_eq_false_iff_not, bne_iff_ne, Bool.and_eq_false_iff,
        beq_eq_false_iff_ne]
      constructor
      · rintro ⟨⟨hgw, h0⟩, h05⟩ (h | h | ⟨h, h'⟩)
        · exact hgw h
        · exact h0 h
        · exact h05.elim (fun hne => hne h) fun hne => hne h'
      · intro h
        refine ⟨⟨fun hgw => h (.inl hgw), fun h0 => h (.inr (.inl h0))⟩, ?_⟩
        by_contra hno
        rw [not_or, not_not, not_not] at hno
        exact h (.inr (.inr hno))
    have hif : (decide (slice packet 0 6 = gw.gatewayEthernetAddr.1) = true) = gw.ForTheGateway packet := by
      simp [ForTheGateway]
    rw [inBounds_ite, hdropped, inBounds_bind_pure, inBounds_handleFrame h20]
    constructor
    · rintro ⟨-, -, h⟩ - hhandled
      have hfits := h (not_not.mpr hhandled)
      simpa only [hif] using hfits
    · intro h
      refine ⟨by omega, fun _ => ⟨_, rfl⟩, fun hhandled => ?_⟩
      have hfits := h h20 (not_not.mp hhandled)
      simpa only [hif] using hfits
  · rw [if_pos (by omega)]
    exact ⟨fun _ h => absurd h h20, fun _ => ⟨_, rfl⟩⟩

/-! An ARP frame of 20 bytes, and an ARP request for the gateway's address with 40 bytes behind it. -/

def shortArp : Frame := List.replicate 6 0xff#8 ++ List.replicate 6 0x02#8 ++ [0x08#8, 0x06#8] ++ List.replicate 6 0#8

def longArp : Frame :=
  List.replicate 6 0xff#8 ++ List.replicate 6 0x02#8 ++ [0x08#8, 0x06#8] ++
    [0x00#8, 0x01#8, 0x08#8, 0x00#8, 0x06#8, 0x04#8, 0x00#8, 0x01#8] ++ List.replicate 6 0x02#8 ++
    [10#8, 0#8, 0#8, 1#8] ++ List.replicate 6 0#8 ++ [10#8, 0#8, 0#8, 254#8] ++ List.replicate 40 0#8

/-- The first is read behind its end, and the second is copied to behind the end of the reply. -/
theorem netEthernetTx_outOfBounds : 20 ≤ shortArp.length ∧
    natGateway.netEthernetTx (some 0) openHost shortArp = .error (.read 6) ∧ 20 ≤ longArp.length ∧
    natGateway.netEthernetTx (some 0) openHost longArp = .error (.write 74) ∧
    ¬ InBounds (natGateway.netEthernetTx (some 0) openHost shortArp) ∧
    ¬ InBounds (natGateway.netEthernetTx (some 0) openHost longArp) := by
  have hshort : natGateway.netEthernetTx (some 0) openHost shortArp = .error (.read 6) := by rfl
  have hlong : natGateway.netEthernetTx (some 0) openHost longArp = .error (.write 74) := by rfl
  refine ⟨by decide, hshort, by decide, hlong, ?_, ?_⟩
  · rw [hshort]
    exact not_inBounds_error _
  · rw [hlong]
    exact not_inBounds_error _

end Gateway

end Gxemul.Network
