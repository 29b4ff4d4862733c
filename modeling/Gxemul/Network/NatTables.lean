import Gxemul.Lib.SlotTable
import Gxemul.Network.NatRuns
import Gxemul.Network.UdpForward

/- The tables of the gateway: which connections there are, in runs of any frames of the
   guest and anything that happens outside.

   Both tables are one table of slots, whose keys are the flows and whose handles are the
   sockets. The time of the gateway is an int64_t that is incremented for every use of a
   connection; it is noted when it overflows, which C leaves undefined. -/
namespace Gxemul.Network

open Lib
open Lib.Buf (byte slice block)

/-! ## The tables -/

structure Flow where
  isTcp : Bool
  insideIpAddress : Block 4
  insidePort : Nat
  outsideIpAddress : Block 4
  outsidePort : Nat

inductive Entry where
  | tcp (i : Nat)
  | udp (i : Nat)

def TcpConnection.slot (c : TcpConnection) : Lib.Slot Flow Int :=
  ⟨c.inUse, ⟨true, c.insideIpAddress, c.insideTcpPort, c.outsideIpAddress, c.outsideTcpPort⟩, c.socket⟩

def UdpConnection.slot (c : UdpConnection) : Lib.Slot Flow Int :=
  ⟨c.inUse, ⟨false, c.insideIpAddress, c.insideUdpPort, c.outsideIpAddress, c.outsideUdpPort⟩, c.socket⟩

def sentIds (events : List Event) : List Nat :=
  events.filterMap fun e => match e with
    | .sent i _ _ => some i
    | _ => none

namespace Gateway
variable (gw : Gateway) (host : Host) (packet : Frame)

def slots : Entry → Lib.Slot Flow Int
  | .tcp i => (gw.tcpConnections i).slot
  | .udp i => (gw.udpConnections i).slot

/-- net_ip_udp() is given the frame, and does not take it for a fragment. -/
structure UdpArrives : Prop where
  dst : slice packet 0 6 = gw.gatewayEthernetAddr.1
  protocol : byte packet 23 = 17#8
  notFragment : byte packet 20 &&& 0x3f#8 = 0#8

/-- net_ip_udp() closes the socket of connection `i` before it calls socket(). -/
structure Closes (i : Nat) : Prop where
  arrives : gw.UdpArrives packet
  unknown : ¬ gw.Known packet
  full : ∀ j, j < maxUdpConnections → (gw.udpConnections j).inUse = true
  oldest : i = gw.oldestUdpConId

/-- The socket that socket() would return is none that is open. -/
def FreshSocket : Prop :=
  0 ≤ host.socket → ∀ e, (gw.slots e).inUse = true → (∀ i, e = .udp i → ¬ gw.Closes packet i) →
    (gw.slots e).handle ≠ host.socket

end Gateway

/-- What happens: the guest sends a frame, net_tcp_rx_avail() is called, or net_udp_rx_avail() is given a datagram by
recvfrom(), after `received` others. -/
inductive TableOp where
  | tx (nic : NicPtr) (host : Host) (packet : Frame)
  | tcpRxAvail (nic : NicPtr) (hosts : Nat → RxHost)
  | udpRx (nic : NicPtr) (host : UdpRxHost) (received : Nat) (x : Nat × Datagram)

/-- The gateway, the UDP connections in the order of their uses, and whether the time has overflowed. -/
structure NatTables where
  gw : Gateway
  uses : List Nat
  overflowed : Bool

namespace NatTables

def start (gw : Gateway) : NatTables :=
  ⟨{ gw with tcpConnections := fun _ => .zero, udpConnections := fun _ => .zero }, [], false⟩

def next (s : NatTables) (gw' : Gateway) (used : List Nat) : NatTables :=
  ⟨gw', s.uses ++ used, s.overflowed || gw'.timestamp.slt s.gw.timestamp⟩

/-- recvfrom() is not called for the connection. -/
def skips (s : NatTables) (received : Nat) (x : Nat × Datagram) : Bool :=
  decide (maxPacketsThisTick < received) || !(s.gw.udpConnections x.1).inUse ||
    decide ((s.gw.udpConnections x.1).socket < 0)

def step (s : NatTables) : TableOp → Checked NatTables
  | .tx nic host packet => do
    let (gw', events) ← s.gw.netEthernetTx nic host packet
    return s.next gw' (sentIds events)
  | .tcpRxAvail nic hosts => do
    let (gw', _) ← s.gw.netTcpRxAvail nic hosts
    return s.next gw' []
  | .udpRx nic host received x => do
    let (gw', _, _) ← Gateway.udpRxAvailAt nic host (s.gw, [], received) x
    return s.next gw' (if s.skips received x then [] else [x.1])

def FreshSocket (s : NatTables) : TableOp → Prop
  | .tx _ host packet => s.gw.FreshSocket host packet
  | .tcpRxAvail _ _ | .udpRx _ _ _ _ => True

/-- A UDP connection is only taken from its flow if there is no other, and then it is the one that has not been used
for the longest time. -/
def EvictsRight (s s' : NatTables) : Prop := ∀ i, (s.gw.udpConnections i).inUse = true →
  (s'.gw.udpConnections i).slot ≠ (s.gw.udpConnections i).slot →
    (∀ j, j < maxUdpConnections → (s.gw.udpConnections j).inUse = true) ∧
      (s.overflowed = false → ∀ j, j < maxUdpConnections → j ≠ i → LastBefore s.uses i j)

def StampedRight (s : NatTables) : Prop :=
  Stamped (fun i => (s.gw.udpConnections i).inUse = true) (fun i => (s.gw.udpConnections i).lastUsedTimestamp.toInt)
    s.gw.timestamp.toInt s.uses

structure Inv (s : NatTables) : Prop where
  distinct : SlotsDistinct (0 ≤ ·) s.gw.slots
  tcpBound : ∀ i, (s.gw.tcpConnections i).inUse = true → i < maxTcpConnections
  udpBound : ∀ i, (s.gw.udpConnections i).inUse = true → i < maxUdpConnections
  stamped : s.overflowed = false → s.StampedRight

end NatTables

section
variable {gw gw' : Gateway} {nic : NicPtr} {host : Host} {packet : Frame} {len i : Nat} {all : List Event}

/-! ## What a frame of the guest does -/

theorem sentIds_append (l l' : List Event) : sentIds (l ++ l') = sentIds l ++ sentIds l' := List.filterMap_append

theorem Quiet.sentIds (h : Quiet all) : sentIds all = [] := by
  apply List.filterMap_eq_nil_iff.mpr
  intro e he
  rcases h e he with ⟨nic, frame, rfl⟩ | ⟨frame, rfl⟩
  · rfl
  · rfl

@[simp] theorem sentIds_map (events : List TcpEvent) : sentIds (events.map (.tcp nic i)) = [] := by
  simp [sentIds, List.filterMap_map]

theorem readByte_byte {b : Byte} (h : Lib.Buf.readByte packet i = .ok b) : b = byte packet i := by
  unfold Lib.Buf.readByte at h
  split at h
  · exact (Except.ok.inj h).symm
  · cases h

theorem readBytes_slice {n : Nat} {l : List Byte} (h : Lib.Buf.readBytes packet i n = .ok l) : l = slice packet i n := by
  unfold Lib.Buf.readBytes at h
  split at h
  · exact (Except.ok.inj h).symm
  · cases h

theorem readBlock_block {n : Nat} {b : Block n} (h : Lib.Buf.readBlock packet i n = .ok b) : b = block packet i n := by
  unfold Lib.Buf.readBlock at h
  split at h
  · exact (Except.ok.inj h).symm
  · cases h

theorem netIp_cases (h : gw.netIp nic host packet len = .ok (gw', all)) :
    (gw' = gw ∧ sentIds all = []) ∨
      (byte packet 23 = 6#8 ∧ ∃ len', gw.netIpTcp nic packet host len' = .ok (gw', all)) ∨
      (byte packet 23 = 17#8 ∧ ∃ len', gw.netIpUdp host packet len' = .ok (gw', all)) := by
  obtain ⟨_, -, h⟩ := Lib.bind_eq_ok h
  obtain ⟨len', -, h⟩ := Lib.bind_eq_ok h
  obtain ⟨_, -, h⟩ := Lib.bind_eq_ok h
  split at h
  · obtain ⟨p, hp, h⟩ := Lib.bind_eq_ok h
    have hp := readByte_byte hp
    split at h
    · obtain ⟨events, hicmp, h⟩ := Lib.bind_eq_ok h
      cases h
      exact .inl ⟨rfl, (netIpIcmp_quiet hicmp).sentIds⟩
    · split at h
      · rename_i h6
        exact .inr (.inl ⟨hp.symm.trans h6, len', h⟩)
      · split at h
        · rename_i h17
          exact .inr (.inr ⟨hp.symm.trans h17, len', h⟩)
        · cases h
          exact .inl ⟨rfl, rfl⟩
  · cases h
    exact .inl ⟨rfl, rfl⟩

/-- net_ethernet_tx() does nothing to the tables, or calls net_ip() for a frame to the gateway. -/
theorem netEthernetTx_cases (h : gw.netEthernetTx nic host packet = .ok (gw', all)) :
    (gw' = gw ∧ sentIds all = []) ∨
      (slice packet 0 6 = gw.gatewayEthernetAddr.1 ∧ ∃ len, gw.netIp nic host packet len = .ok (gw', all)) := by
  unfold Gateway.netEthernetTx at h
  split at h
  · cases h
    exact .inl ⟨rfl, rfl⟩
  · obtain ⟨dst, hdst, h⟩ := Lib.bind_eq_ok h
    have hdst := readBytes_slice hdst
    dsimp only at h
    have hforward : sentIds (if decide (dst = gw.gatewayEthernetAddr.1) = true then [] else gw.forward nic packet) = [] := by
      split
      · rfl
      · exact (forward_quiet gw).sentIds
    split at h
    · cases h
      exact .inl ⟨rfl, hforward⟩
    · obtain ⟨⟨gw1, events⟩, hhandle, h⟩ := Lib.bind_eq_ok h
      cases h
      rw [sentIds_append, hforward, List.nil_append]
      obtain ⟨_, -, hhandle⟩ := Lib.bind_eq_ok hhandle
      split at hhandle
      · split at hhandle
        · rename_i hgateway
          have hgateway : dst = gw.gatewayEthernetAddr.1 := of_decide_eq_true hgateway
          refine .inr ⟨hdst.symm.trans hgateway, packet.length, ?_⟩
          rw [if_pos (decide_eq_true hgateway)]
          exact hhandle
        · split at hhandle
          · obtain ⟨_, hbroadcast, hhandle⟩ := Lib.bind_eq_ok hhandle
            cases hhandle
            exact .inl ⟨rfl, (netIpBroadcast_quiet hbroadcast).sentIds⟩
          · cases hhandle
            exact .inl ⟨rfl, rfl⟩
      · split at hhandle
        · obtain ⟨_, harp, hhandle⟩ := Lib.bind_eq_ok hhandle
          cases hhandle
          exact .inl ⟨rfl, (netArp_quiet harp).sentIds⟩
        · cases hhandle
          exact .inl ⟨rfl, rfl⟩

/-! ## TCP -/

structure SameFlow (c c' : TcpConnection) : Prop where
  inUse : c'.inUse = true → c.inUse = true
  key : c'.slot.key = c.slot.key
  socket : c'.socket = c.socket

theorem SameFlow.refl (c : TcpConnection) : SameFlow c c := ⟨fun h => h, rfl, rfl⟩

theorem SameFlow.trans {c c' c'' : TcpConnection} (h : SameFlow c c') (h' : SameFlow c' c'') : SameFlow c c'' :=
  ⟨fun huse => h.inUse (h'.inUse huse), h'.key.trans h.key, h'.socket.trans h.socket⟩

theorem sameFlow_state (c : TcpConnection) (state : TcpState) : SameFlow c { c with state } := ⟨fun h => h, rfl, rfl⟩

theorem SameFlow.slot {c c' : TcpConnection} (h : SameFlow c c') (huse : c'.inUse = true) : c'.slot = c.slot := by
  have hold := h.inUse huse
  have hkey := h.key
  have hsocket := h.socket
  unfold TcpConnection.slot at hkey ⊢
  dsimp only at hkey
  rw [huse, hold, hkey, hsocket]

section
variable {net : TcpNet} {c c' : TcpConnection} {fresh : Nat → Byte} {seg : Segment} {k : Nat} {rst : Bool}
  {time : BitVec 64} {before events : List TcpEvent}

theorem connectionreply_sameFlow {connecting : Bool} {data : List Byte} {frame : Frame}
    (h : c.connectionreply net fresh connecting data rst = .ok (c', frame)) : SameFlow c c' := by
  obtain ⟨frame', hok, -⟩ := @TcpConnection.connectionreply_ok net fresh c connecting rst data
  rw [hok] at h
  cases h
  exact ⟨fun h => h, rfl, rfl⟩

theorem reply_sameFlow (h : c.reply host k rst net before = .ok (c', time, events)) : SameFlow c c' := by
  obtain ⟨⟨c1, frame⟩, hreply, h⟩ := Lib.bind_eq_ok h
  cases h
  exact connectionreply_sameFlow hreply

theorem acknowledge_sameFlow (seg : Segment) (c : TcpConnection) : SameFlow c (c.acknowledge seg) := by
  unfold TcpConnection.acknowledge
  dsimp only
  split
  · exact ⟨fun h => h, rfl, rfl⟩
  · exact ⟨fun h => h, rfl, rfl⟩

theorem readTimestamp_sameFlow (h : c.readTimestamp packet = .ok c') : SameFlow c c' := by
  obtain ⟨_, -, h⟩ := Lib.bind_eq_ok h
  split at h
  · obtain ⟨_, -, h⟩ := Lib.bind_eq_ok h
    split at h
    · obtain ⟨_, -, h⟩ := Lib.bind_eq_ok h
      cases h
      exact ⟨fun h => h, rfl, rfl⟩
    · cases h
      exact .refl c
  · cases h
    exact .refl c

theorem transmit_sameFlow {replies : Bool} (h : c.transmit host packet len seg = .ok (c', events, replies)) :
    SameFlow c c' := by
  unfold TcpConnection.transmit at h
  split at h
  · cases h
    exact .refl c
  · split at h
    · cases h
      exact ⟨fun h => h, rfl, rfl⟩
    · obtain ⟨data, -, h⟩ := Lib.bind_eq_ok h
      split at h <;> cases h <;> exact ⟨fun h => h, rfl, rfl⟩

theorem inputData_sameFlow (h : c.inputData net host packet len seg = .ok (c', time, events)) : SameFlow c c' := by
  obtain ⟨c0, hc0⟩ : ∃ c0, c0 = { if seg.ack then c.acknowledge seg else c with insideSeqnr := seg.seqnr } := ⟨_, rfl⟩
  have h0 : SameFlow c c0 := by
    rw [hc0]
    split
    · exact (acknowledge_sameFlow seg c).trans ⟨fun h => h, rfl, rfl⟩
    · exact ⟨fun h => h, rfl, rfl⟩
  unfold TcpConnection.inputData at h
  dsimp only at h
  rw [← hc0] at h
  obtain ⟨c1, hread, h⟩ := Lib.bind_eq_ok h
  have h1 := h0.trans (readTimestamp_sameFlow hread)
  have h2 : SameFlow c { c1 with lastUsedTimestamp := net.timestamp + 1#64 } := h1.trans ⟨fun h => h, rfl, rfl⟩
  split at h
  · cases h
    exact h2
  · split at h
    · cases h
      exact h2
    · obtain ⟨⟨c3, events3, replies⟩, htransmit, h⟩ := Lib.bind_eq_ok h
      have h3 := h2.trans (transmit_sameFlow htransmit)
      split at h
      · exact h3.trans (reply_sameFlow h)
      · cases h
        exact h3

theorem input_sameFlow (h : c.input net host packet len seg = .ok (c', time, events)) : SameFlow c c' := by
  have hclose : ∀ c1 : TcpConnection, SameFlow c c1 → SameFlow c c1.close := fun c1 h1 =>
    h1.trans ⟨fun h => (by cases h), rfl, rfl⟩
  unfold TcpConnection.input at h
  split at h
  · obtain ⟨⟨c1, time1, events1⟩, hreply, h⟩ := Lib.bind_eq_ok h
    cases h
    exact hclose c1 (reply_sameFlow hreply)
  · split at h
    · obtain ⟨⟨c1, time1, events1⟩, hreply, h⟩ := Lib.bind_eq_ok h
      cases h
      exact hclose c1 (reply_sameFlow hreply)
    · split at h
      · obtain ⟨⟨c1, time1, events1⟩, hreply, h⟩ := Lib.bind_eq_ok h
        cases h
        have h0 : SameFlow c { c with state := .connected } := sameFlow_state c _
        exact (h0.trans (reply_sameFlow hreply)).trans (sameFlow_state c1 _)
      · split at h
        · obtain ⟨⟨c1, time1, events1⟩, hreply, h⟩ := Lib.bind_eq_ok h
          have h1 : SameFlow c { c1 with state := .disconnected2 } :=
            (reply_sameFlow hreply).trans (sameFlow_state c1 _)
          exact h1.trans (reply_sameFlow h)
        · exact inputData_sameFlow h

end

/-! ## Data from the outside world -/

section
variable {net : TcpNet} {host : RxHost} {c c' : TcpConnection} {time : BitVec 64} {before events : List TcpEvent}

theorem resend_sameFlow (h : c.resend net host before = .ok (c', time, events)) : SameFlow c c' := by
  unfold TcpConnection.resend at h
  dsimp only at h
  split at h
  · obtain ⟨⟨c1, frame⟩, hreply, h⟩ := Lib.bind_eq_ok h
    cases h
    have h0 : SameFlow c { c with incomingBufRounds := 0, outsideSeqnr := c.incomingBufSeqnr } := ⟨fun h => h, rfl, rfl⟩
    exact h0.trans (connectionreply_sameFlow hreply)
  · cases h
    exact ⟨fun h => h, rfl, rfl⟩

theorem receive_sameFlow (h : c.receive net host before = .ok (c', time, events)) : SameFlow c c' := by
  obtain ⟨⟨c1, frame⟩, hreply, h⟩ := Lib.bind_eq_ok h
  cases h
  have h1 := connectionreply_sameFlow hreply
  have h2 : SameFlow c c1 := by
    split at h1
    · exact (sameFlow_state c _).trans h1
    · have h0 : SameFlow c (c.putIncoming ((host.read.getD []).take 1400)) := ⟨fun h => h, rfl, rfl⟩
      exact h0.trans h1
  exact h2.trans ⟨fun h => h, rfl, rfl⟩

theorem rxData_sameFlow (h : c.rxData net host before = .ok (c', time, events)) : SameFlow c c' := by
  unfold TcpConnection.rxData at h
  split at h
  · cases h
    exact .refl c
  · split at h
    · exact resend_sameFlow h
    · split at h
      · cases h
        exact .refl c
      · split at h
        · cases h
          exact .refl c
        · exact receive_sameFlow h

theorem rxAvail_sameFlow (h : c.rxAvail net host = .ok (c', time, events)) : SameFlow c c' := by
  unfold TcpConnection.rxAvail at h
  split at h
  · cases h
    exact .refl c
  · split at h
    · cases h
      exact sameFlow_state c _
    · split at h
      · obtain ⟨⟨c1, frame⟩, hreply, h⟩ := Lib.bind_eq_ok h
        have h0 : SameFlow c { c with state := .connected } := sameFlow_state c _
        exact (h0.trans (connectionreply_sameFlow hreply)).trans (rxData_sameFlow h)
      · exact rxData_sameFlow h

end

/-- What is left alone by TCP, and by the loops that only use connections. -/
structure TcpKept (gw gw' : Gateway) : Prop where
  udp : gw'.udpConnections = gw.udpConnections
  tcp : ∀ i, SameFlow (gw.tcpConnections i) (gw'.tcpConnections i)

theorem tcpKept_setTcp {c : TcpConnection} {time : BitVec 64} (h : SameFlow (gw.tcpConnections i) c) :
    TcpKept gw (gw.setTcp i c time) := by
  refine ⟨rfl, fun j => ?_⟩
  change SameFlow (gw.tcpConnections j) (Function.update gw.tcpConnections i c j)
  by_cases hji : j = i
  · rw [hji, Function.update_self]
    exact h
  · rw [Function.update_of_ne hji]
    exact .refl _

theorem netTcpRxAvail_kept {hosts : Nat → RxHost} (h : gw.netTcpRxAvail nic hosts = .ok (gw', all)) : TcpKept gw gw' := by
  have hloop : ∀ (l : List Nat) (s s' : Gateway × List Event),
      l.foldlM (Gateway.rxAvailAt nic hosts) s = .ok s' → TcpKept s.1 s'.1 := by
    intro l
    induction l with
    | nil =>
      intro s s' hs
      cases hs
      exact ⟨rfl, fun i => .refl _⟩
    | cons k l ih =>
      intro s s' hs
      rw [List.foldlM_cons] at hs
      obtain ⟨s1, hk, hs⟩ := Lib.bind_eq_ok hs
      obtain ⟨⟨c, t, events⟩, hc, hk⟩ := Lib.bind_eq_ok hk
      cases hk
      have hfirst : TcpKept s.1 (s.1.setTcp k c t) := tcpKept_setTcp (rxAvail_sameFlow hc)
      have hrest := ih _ s' hs
      exact ⟨hrest.udp.trans hfirst.udp, fun i => (hfirst.tcp i).trans (hrest.tcp i)⟩
  exact hloop _ (gw, []) (gw', all) h

/-- What net_ip_tcp() does to the tables: connections are used or closed, a free one stays free, or a new one is opened
for a flow that has none. -/
inductive TcpTables (gw gw' : Gateway) (host : Host) : Prop where
  | kept (h : TcpKept gw gw')
  | free (i : Nat) (c : TcpConnection) (hfree : c.inUse = false) (hudp : gw'.udpConnections = gw.udpConnections)
    (h : gw'.tcpConnections = Function.update gw.tcpConnections i c)
  | opened (i : Nat) (c c' : TcpConnection) (hbound : i < maxTcpConnections)
    (hnew : ∀ j, j < maxTcpConnections → (gw.tcpConnections j).inUse = true → (gw.tcpConnections j).slot.key ≠ c.slot.key)
    (hsocket : 0 ≤ host.socket ∧ c.socket = host.socket) (hsame : SameFlow c c')
    (hudp : gw'.udpConnections = gw.udpConnections)
    (h : gw'.tcpConnections = Function.update gw.tcpConnections i c')

theorem TcpTables.udp (h : TcpTables gw gw' host) : gw'.udpConnections = gw.udpConnections := by
  cases h with
  | kept hkept => exact hkept.udp
  | free i c hfree hudp heq => exact hudp
  | opened i c c' hbound hnew hsocket hsame hudp heq => exact hudp

theorem newTcpConnection_key {seg : Segment} {c : TcpConnection} (h : Gateway.newTcpConnection packet seg = .ok c) :
    c.inUse = false ∧ c.slot.key = ⟨true, block packet 26 4, seg.srcport, block packet 30 4, seg.dstport⟩ := by
  obtain ⟨_, -, h⟩ := Lib.bind_eq_ok h
  obtain ⟨inside, hinside, h⟩ := Lib.bind_eq_ok h
  obtain ⟨outside, houtside, h⟩ := Lib.bind_eq_ok h
  cases h
  rw [readBlock_block hinside, readBlock_block houtside]
  exact ⟨rfl, rfl⟩

theorem tcpConId_none {seg : Segment} (h : gw.tcpConId packet seg = none) (hi : i < maxTcpConnections)
    (huse : (gw.tcpConnections i).inUse = true) : (gw.tcpConnections i).slot.key ≠
      ⟨true, block packet 26 4, seg.srcport, block packet 30 4, seg.dstport⟩ := by
  intro hkey
  obtain ⟨-, hinside, hsrc, houtside, hdst⟩ := Flow.mk.inj hkey
  have hnot := List.find?_eq_none.mp h i (List.mem_range.mpr hi)
  apply hnot
  unfold Gateway.ownsSegment
  simp only [Bool.and_eq_true, beq_iff_eq, decide_eq_true_eq]
  exact ⟨⟨⟨⟨huse, hsrc⟩, hdst⟩, hinside⟩, houtside⟩

theorem netIpTcp_tables (h : gw.netIpTcp nic packet host len = .ok (gw', all)) :
    TcpTables gw gw' host ∧ sentIds all = [] := by
  have hnone : (Except.ok (gw, []) : Checked (Gateway × List Event)) = .ok (gw', all) →
      TcpTables gw gw' host ∧ sentIds all = [] := by
    intro he
    cases he
    exact ⟨.kept ⟨rfl, fun i => .refl _⟩, rfl⟩
  obtain ⟨header, -, h⟩ := Lib.bind_eq_ok h
  obtain ⟨_, -, h⟩ := Lib.bind_eq_ok h
  obtain ⟨_, -, h⟩ := Lib.bind_eq_ok h
  obtain ⟨_, -, h⟩ := Lib.bind_eq_ok h
  obtain ⟨sum, -, h⟩ := Lib.bind_eq_ok h
  split at h
  · exact hnone h
  · split at h
    · rename_i hcon
      split at h
      · unfold Gateway.openTcp at h
        cases hfree : gw.freeTcpConId with
        | none =>
          rw [hfree] at h
          exact hnone h
        | some i =>
          rw [hfree] at h
          obtain ⟨c, hc, h⟩ := Lib.bind_eq_ok h
          obtain ⟨huse, hkey⟩ := newTcpConnection_key hc
          have hbound : i < maxTcpConnections :=
            List.mem_range.mp (List.mem_filter.mp (List.mem_of_getLast? hfree)).1
          split at h
          · cases h
            have hfree : ({ c with socket := host.socket } : TcpConnection).inUse = false := huse
            exact ⟨.free i _ hfree rfl rfl, rfl⟩
          · obtain ⟨⟨c', t, events⟩, hin, h⟩ := Lib.bind_eq_ok h
            cases h
            refine ⟨.opened i (Gateway.connecting host c) c' hbound ?_ ⟨by omega, rfl⟩ (input_sameFlow hin) rfl rfl,
              sentIds_map _⟩
            intro j hj hjuse
            have hnot := tcpConId_none hcon hj hjuse
            rw [← hkey] at hnot
            exact hnot
      · exact hnone h
    · split at h
      · exact hnone h
      · obtain ⟨⟨c', t, events⟩, hin, h⟩ := Lib.bind_eq_ok h
        cases h
        exact ⟨.kept (tcpKept_setTcp (input_sameFlow hin)), sentIds_map _⟩

/-! ## UDP -/

structure UdpUse (gw gw' : Gateway) (i : Nat) (slot : Lib.Slot Flow Int) : Prop where
  others : ∀ j, j ≠ i → gw'.udpConnections j = gw.udpConnections j
  slot : (gw'.udpConnections i).slot = slot
  stamp : (gw'.udpConnections i).lastUsedTimestamp = gw.timestamp + 1#64
  time : gw'.timestamp = gw.timestamp + 1#64
  tcp : gw'.tcpConnections = gw.tcpConnections

theorem udpUse_setUdp {c : UdpConnection} (hstamp : c.lastUsedTimestamp = gw.timestamp + 1#64) :
    UdpUse gw { gw.setUdp i c with timestamp := gw.timestamp + 1#64 } i c.slot := by
  have hself : Function.update gw.udpConnections i c i = c := Function.update_self ..
  refine ⟨fun j hj => Function.update_of_ne hj _ _, ?_, ?_, rfl, rfl⟩
  · change (Function.update gw.udpConnections i c i).slot = _
    rw [hself]
  · change (Function.update gw.udpConnections i c i).lastUsedTimestamp = _
    rw [hself]
    exact hstamp

theorem UdpUse.slot_eq (h : UdpUse gw gw' i (gw.udpConnections i).slot) (j : Nat) :
    (gw'.udpConnections j).slot = (gw.udpConnections j).slot := by
  by_cases hji : j = i
  · rw [hji]
    exact h.slot
  · exact congrArg UdpConnection.slot (h.others j hji)

theorem sendDatagram_use {c : UdpConnection} (h : gw.sendDatagram packet len i c = .ok (gw', all)) :
    UdpUse gw gw' i c.slot ∧ sentIds all = [i] := by
  obtain ⟨_, -, h⟩ := Lib.bind_eq_ok h
  obtain ⟨_, -, h⟩ := Lib.bind_eq_ok h
  cases h
  exact ⟨udpUse_setUdp rfl, rfl⟩

def udpFlow (packet : Frame) : Flow :=
  ⟨false, block packet 26 4, frameSrcPort packet, block packet 30 4, frameDstPort packet⟩

theorem newUdpConnection_slot {c : UdpConnection}
    (h : Gateway.newUdpConnection host packet (frameSrcPort packet) (frameDstPort packet) = .ok c) :
    c.slot = ⟨decide (0 ≤ host.socket), udpFlow packet, host.socket⟩ := by
  obtain ⟨_, -, h⟩ := Lib.bind_eq_ok h
  obtain ⟨inside, hinside, h⟩ := Lib.bind_eq_ok h
  obtain ⟨outside, houtside, h⟩ := Lib.bind_eq_ok h
  cases h
  rw [readBlock_block hinside, readBlock_block houtside]
  rfl

theorem udpConId_none (h : gw.udpConId packet (frameSrcPort packet) (frameDstPort packet) = none)
    (hi : i < maxUdpConnections) (huse : (gw.udpConnections i).inUse = true) :
    (gw.udpConnections i).slot.key ≠ udpFlow packet := by
  intro hkey
  obtain ⟨-, hinside, hsrc, houtside, hdst⟩ := Flow.mk.inj hkey
  have hnot := List.find?_eq_none.mp h i (List.mem_range.mpr hi)
  apply hnot
  unfold Gateway.ownsDatagram
  simp only [Bool.and_eq_true, beq_iff_eq, decide_eq_true_eq]
  exact ⟨⟨⟨⟨huse, hsrc⟩, hdst⟩, hinside⟩, houtside⟩

/-- What net_ip_udp() does to the tables. -/
inductive UdpTables (gw gw' : Gateway) (host : Host) (packet : Frame) : List Nat → Prop where
  | none (h : gw' = gw) : UdpTables gw gw' host packet []
  | known (i : Nat) (h : UdpUse gw gw' i (gw.udpConnections i).slot) : UdpTables gw gw' host packet [i]
  | noSocket (c : UdpConnection) (hfree : c.inUse = false) (h : gw' = gw.setUdp gw.freeUdpConId c) :
    UdpTables gw gw' host packet []
  | opened (hofs : byte packet 20 &&& 0x3f#8 = 0#8) (hnew : ¬ gw.Known packet) (hsocket : 0 ≤ host.socket)
    (h : UdpUse gw gw' gw.freeUdpConId ⟨true, udpFlow packet, host.socket⟩) :
    UdpTables gw gw' host packet [gw.freeUdpConId]

theorem netIpUdp_tables (h : gw.netIpUdp host packet len = .ok (gw', all)) :
    UdpTables gw gw' host packet (sentIds all) := by
  obtain ⟨ofs, hofs, h⟩ := Lib.bind_eq_ok h
  have hofs := readByte_byte hofs
  split at h
  · cases h
    exact .none rfl
  · rename_i hfragment
    rw [hofs] at hfragment
    obtain ⟨ports, hports, h⟩ := Lib.bind_eq_ok h
    have hports := readBytes_slice hports
    have hsrc : Lib.value true (slice ports 0 2) = frameSrcPort packet := by
      rw [hports, Buf.slice_slice (by omega)]
      rfl
    have hdst : Lib.value true (slice ports 2 2) = frameDstPort packet := by
      rw [hports, Buf.slice_slice (by omega)]
      rfl
    obtain ⟨_, -, h⟩ := Lib.bind_eq_ok h
    rw [hsrc, hdst] at h
    cases hcon : gw.udpConId packet (frameSrcPort packet) (frameDstPort packet) with
    | some i =>
      rw [hcon] at h
      obtain ⟨huse, hsent⟩ := sendDatagram_use h
      rw [hsent]
      exact .known i huse
    | none =>
      rw [hcon] at h
      obtain ⟨c, hc, h⟩ := Lib.bind_eq_ok h
      have hslot := newUdpConnection_slot hc
      split at h
      · cases h
        refine .noSocket c ?_ rfl
        have hfree := congrArg Lib.Slot.inUse hslot
        exact hfree.trans (decide_eq_false (by omega))
      · obtain ⟨huse, hsent⟩ := sendDatagram_use h
        rw [hslot, decide_eq_true (show 0 ≤ host.socket by omega)] at huse
        rw [hsent]
        exact .opened (not_not.mp hfragment) (fun hknown => hknown hcon) (by omega) huse

theorem freeUdpConId_spec (gw : Gateway) : gw.freeUdpConId < maxUdpConnections ∧
    ((gw.udpConnections gw.freeUdpConId).inUse = true →
      (∀ j, j < maxUdpConnections → (gw.udpConnections j).inUse = true) ∧ gw.freeUdpConId = gw.oldestUdpConId ∧
      ∀ j, j < maxUdpConnections → (gw.udpConnections gw.freeUdpConId).lastUsedTimestamp.toInt ≤
        (gw.udpConnections j).lastUsedTimestamp.toInt) := by
  have holdest : gw.oldestUdpConId = (List.range maxUdpConnections).foldl (fun oldest j =>
      if (gw.udpConnections j).lastUsedTimestamp.toInt < (gw.udpConnections oldest).lastUsedTimestamp.toInt then j
      else oldest) 0 := by
    unfold Gateway.oldestUdpConId
    congr 1
    funext oldest j
    rw [BitVec.slt_eq_decide]
    exact if_congr (decide_eq_true_iff) rfl rfl
  obtain ⟨hmem, hle⟩ := foldl_oldest (fun j => (gw.udpConnections j).lastUsedTimestamp.toInt)
    (List.range maxUdpConnections) 0
  rw [← holdest] at hmem hle
  unfold Gateway.freeUdpConId
  cases hlast : ((List.range maxUdpConnections).filter fun i => !(gw.udpConnections i).inUse).getLast? with
  | some i =>
    obtain ⟨hi, hfree⟩ := List.mem_filter.mp (List.mem_of_getLast? hlast)
    rw [Option.getD_some]
    refine ⟨List.mem_range.mp hi, fun huse => ?_⟩
    rw [huse] at hfree
    cases hfree
  | none =>
    have hnil := List.getLast?_eq_none_iff.mp hlast
    rw [Option.getD_none]
    refine ⟨?_, fun _ => ⟨?_, rfl, fun j hj => hle j (.inr (List.mem_range.mpr hj))⟩⟩
    · rcases hmem with h0 | hmem
      · rw [h0]
        decide
      · exact List.mem_range.mp hmem
    · intro j hj
      by_contra hfree
      have hin : j ∈ (List.range maxUdpConnections).filter fun i => !(gw.udpConnections i).inUse :=
        List.mem_filter.mpr ⟨List.mem_range.mpr hj, by simpa using hfree⟩
      rw [hnil] at hin
      cases hin

theorem receiveDatagram_use {host : UdpRxHost} {k n : Nat} {d : Datagram} {frames : List Frame}
    (h : gw.receiveDatagram host k i d = .ok (gw', frames, n)) : UdpUse gw gw' i (gw.udpConnections i).slot := by
  obtain ⟨r, -, h⟩ := Lib.bind_eq_ok h
  cases h
  exact udpUse_setUdp rfl

end

/-! ## Runs -/

namespace NatTables
variable {s s' : NatTables} {gw' : Gateway} {host : Host} {packet : Frame} {i : Nat}

theorem overflowed_next {used : List Nat} (h : (s.next gw' used).overflowed = false) :
    s.overflowed = false ∧ s.gw.timestamp.toInt ≤ gw'.timestamp.toInt := by
  obtain ⟨hold, hslt⟩ := Bool.or_eq_false_iff.mp h
  rw [BitVec.slt_eq_decide] at hslt
  have hnot := of_decide_eq_false hslt
  exact ⟨hold, by omega⟩

theorem StampedRight.same (h : s.StampedRight) (htime : s.gw.timestamp.toInt ≤ gw'.timestamp.toInt)
    (hudp : ∀ i, (gw'.udpConnections i).inUse = true → gw'.udpConnections i = s.gw.udpConnections i) :
    (s.next gw' []).StampedRight := by
  unfold StampedRight next
  rw [List.append_nil]
  apply Stamped.pass h htime
  intro i hi
  have heq := hudp i hi
  rw [heq] at hi
  exact ⟨hi, by rw [heq]⟩

theorem StampedRight.use {slot : Lib.Slot Flow Int} (h : s.StampedRight)
    (htime : s.gw.timestamp.toInt ≤ gw'.timestamp.toInt) (huse : UdpUse s.gw gw' i slot) :
    (s.next gw' [i]).StampedRight := by
  unfold StampedRight next
  have hlt : s.gw.timestamp.toInt < gw'.timestamp.toInt := by
    have hne : s.gw.timestamp.toInt ≠ gw'.timestamp.toInt := by
      intro heq
      have hsame := BitVec.eq_of_toInt_eq heq
      rw [huse.time] at hsame
      have hnat := congrArg BitVec.toNat hsame
      rw [BitVec.toNat_add] at hnat
      change _ = (_ + 1) % _ at hnat
      omega
    omega
  apply Stamped.use h hlt
  · intro j hj hjuse
    rw [huse.others j hj] at hjuse ⊢
    exact ⟨hjuse, rfl⟩
  · rw [huse.stamp, huse.time]

theorem Inv.tcp (h : s.Inv) (host : Host) (htables : TcpTables s.gw gw' host)
    (hfresh : 0 ≤ host.socket → ∀ e, (s.gw.slots e).inUse = true → (s.gw.slots e).handle ≠ host.socket) :
    (s.next gw' []).Inv := by
  have hudp : gw'.udpConnections = s.gw.udpConnections := htables.udp
  have hudpSlot : ∀ j, gw'.slots (.udp j) = s.gw.slots (.udp j) := by
    intro j
    unfold Gateway.slots
    rw [hudp]
  have hstamped : (s.next gw' []).overflowed = false → (s.next gw' []).StampedRight := by
    intro hover
    obtain ⟨hold, htime⟩ := overflowed_next hover
    exact (h.stamped hold).same htime fun i _ => by rw [hudp]
  have hudpBound : ∀ j, (gw'.udpConnections j).inUse = true → j < maxUdpConnections := by
    rw [hudp]
    exact h.udpBound
  cases htables with
  | kept hkept =>
    refine ⟨h.distinct.move (.removes ?_), ?_, hudpBound, hstamped⟩
    · intro e he
      cases e with
      | tcp j => exact (hkept.tcp j).slot he
      | udp j => exact hudpSlot j
    · intro j hj
      exact h.tcpBound j ((hkept.tcp j).inUse hj)
  | free i c hfree _ heq =>
    have hother : ∀ j, (gw'.tcpConnections j).inUse = true → gw'.tcpConnections j = s.gw.tcpConnections j := by
      intro j hj
      rw [heq] at hj ⊢
      by_cases hji : j = i
      · rw [hji, Function.update_self, hfree] at hj
        cases hj
      · exact Function.update_of_ne hji _ _
    refine ⟨h.distinct.move (.removes ?_), ?_, hudpBound, hstamped⟩
    · intro e he
      cases e with
      | tcp j => exact congrArg TcpConnection.slot (hother j he)
      | udp j => exact hudpSlot j
    · intro j hj
      have heq := hother j hj
      exact h.tcpBound j (heq ▸ hj)
  | opened i c c' hbound hnew hsocket hsame _ heq =>
    have hself : gw'.tcpConnections i = c' := by rw [heq, Function.update_self]
    have hother : ∀ j, j ≠ i → gw'.tcpConnections j = s.gw.tcpConnections j := by
      intro j hji
      rw [heq]
      exact Function.update_of_ne hji _ _
    have hslot : ∀ e, e ≠ .tcp i → gw'.slots e = s.gw.slots e := by
      intro e he
      cases e with
      | tcp j => exact congrArg TcpConnection.slot (hother j fun hji => he (by rw [hji]))
      | udp j => exact hudpSlot j
    have hkey : (gw'.slots (.tcp i)).key = c.slot.key := (congrArg (fun c => c.slot.key) hself).trans hsame.key
    have hhandle : (gw'.slots (.tcp i)).handle = host.socket :=
      (congrArg TcpConnection.socket hself).trans (hsame.socket.trans hsocket.2)
    refine ⟨h.distinct.move (.enters (.tcp i) ?_ ?_ ?_ fun e he _ => hslot e he), ?_, hudpBound, hstamped⟩
    · change 0 ≤ (gw'.slots (.tcp i)).handle
      rw [hhandle]
      exact hsocket.1
    · intro e he huse
      change (gw'.slots e).inUse = true at huse
      rw [hslot e he] at huse
      change (s.gw.slots e).key ≠ (gw'.slots (.tcp i)).key
      rw [hkey]
      cases e with
      | tcp j => exact hnew j (h.tcpBound j huse) huse
      | udp j =>
        intro hsame
        cases congrArg Flow.isTcp hsame
    · intro e he huse
      change (gw'.slots e).inUse = true at huse
      rw [hslot e he] at huse
      change (s.gw.slots e).handle ≠ (gw'.slots (.tcp i)).handle
      rw [hhandle]
      exact hfresh hsocket.1 e huse
    · intro j hj
      by_cases hji : j = i
      · rw [hji]
        exact hbound
      · change (gw'.tcpConnections j).inUse = true at hj
        rw [hother j hji] at hj
        exact h.tcpBound j hj

theorem Inv.use (h : s.Inv) (huse : UdpUse s.gw gw' i (s.gw.udpConnections i).slot) : (s.next gw' [i]).Inv := by
  have hslot : ∀ e, gw'.slots e = s.gw.slots e := by
    intro e
    cases e with
    | tcp j => exact congrArg (fun t => TcpConnection.slot (t j)) huse.tcp
    | udp j => exact huse.slot_eq j
  refine ⟨h.distinct.move (.removes fun e _ => hslot e), ?_, ?_, ?_⟩
  · intro j hj
    exact h.tcpBound j ((congrArg Lib.Slot.inUse (hslot (.tcp j))).symm.trans hj)
  · intro j hj
    exact h.udpBound j ((congrArg Lib.Slot.inUse (hslot (.udp j))).symm.trans hj)
  · intro hover
    obtain ⟨hold, htime⟩ := overflowed_next hover
    exact (h.stamped hold).use htime huse

theorem Inv.udp {used : List Nat} (h : s.Inv) (hdst : slice packet 0 6 = s.gw.gatewayEthernetAddr.1)
    (hprotocol : byte packet 23 = 17#8) (htables : UdpTables s.gw gw' host packet used)
    (hfresh : s.gw.FreshSocket host packet) : (s.next gw' used).Inv := by
  cases htables with
  | none heq =>
    subst heq
    refine ⟨h.distinct, h.tcpBound, h.udpBound, ?_⟩
    intro hover
    obtain ⟨hold, htime⟩ := overflowed_next hover
    exact (h.stamped hold).same htime fun _ _ => rfl
  | known i huse => exact h.use huse
  | noSocket c hfree heq =>
    have hother : ∀ j, (gw'.udpConnections j).inUse = true → gw'.udpConnections j = s.gw.udpConnections j := by
      intro j hj
      rw [heq] at hj ⊢
      change (Function.update s.gw.udpConnections _ c j).inUse = true at hj
      by_cases hji : j = s.gw.freeUdpConId
      · rw [hji, Function.update_self, hfree] at hj
        cases hj
      · exact Function.update_of_ne hji _ _
    refine ⟨h.distinct.move (.removes ?_), ?_, ?_, ?_⟩
    · intro e he
      cases e with
      | tcp j =>
        rw [heq]
        rfl
      | udp j => exact congrArg UdpConnection.slot (hother j he)
    · intro j hj
      rw [heq] at hj
      exact h.tcpBound j hj
    · intro j hj
      have hsame := hother j hj
      exact h.udpBound j (hsame ▸ hj)
    · intro hover
      obtain ⟨hold, htime⟩ := overflowed_next hover
      exact (h.stamped hold).same htime hother
  | opened hofs hnew hsocket huse =>
    obtain ⟨hbound, hfull⟩ := freeUdpConId_spec s.gw
    have hslot : ∀ e, e ≠ .udp s.gw.freeUdpConId → gw'.slots e = s.gw.slots e := by
      intro e he
      cases e with
      | tcp j => exact congrArg (fun t => TcpConnection.slot (t j)) huse.tcp
      | udp j => exact congrArg UdpConnection.slot (huse.others j fun hj => he (by rw [hj]))
    have hentry : gw'.slots (.udp s.gw.freeUdpConId) = ⟨true, udpFlow packet, host.socket⟩ := huse.slot
    refine ⟨h.distinct.move (.enters (.udp s.gw.freeUdpConId) ?_ ?_ ?_ fun e he _ => hslot e he), ?_, ?_, ?_⟩
    · change 0 ≤ (gw'.slots (.udp s.gw.freeUdpConId)).handle
      rw [hentry]
      exact hsocket
    · intro e he hin
      change (gw'.slots e).inUse = true at hin
      rw [hslot e he] at hin
      change (s.gw.slots e).key ≠ (gw'.slots (.udp s.gw.freeUdpConId)).key
      rw [hentry]
      cases e with
      | tcp j =>
        intro hsame
        cases congrArg Flow.isTcp hsame
      | udp j => exact udpConId_none (not_not.mp hnew) (h.udpBound j hin) hin
    · intro e he hin
      change (gw'.slots e).inUse = true at hin
      rw [hslot e he] at hin
      change (s.gw.slots e).handle ≠ (gw'.slots (.udp s.gw.freeUdpConId)).handle
      rw [hentry]
      apply hfresh hsocket e hin
      -- the socket that is closed is that of the entry that is replaced
      intro i hei hcloses
      apply he
      rw [hei, hcloses.oldest]
      congr 1
      exact (hfull (hcloses.full _ hbound)).2.1.symm
    · intro j hj
      have hsame := congrArg Lib.Slot.inUse (hslot (.tcp j) fun hne => by cases hne)
      exact h.tcpBound j (hsame.symm.trans hj)
    · intro j hj
      by_cases hji : j = s.gw.freeUdpConId
      · rw [hji]
        exact hbound
      · change (gw'.udpConnections j).inUse = true at hj
        rw [huse.others j hji] at hj
        exact h.udpBound j hj
    · intro hover
      obtain ⟨hold, htime⟩ := overflowed_next hover
      exact (h.stamped hold).use htime huse

theorem step_cases {op : TableOp} (h : s.step op = .ok s') :
    (∃ gw' host, s' = s.next gw' [] ∧ TcpTables s.gw gw' host ∧
        ((∃ nic packet, op = .tx nic host packet ∧ byte packet 23 = 6#8) ∨ TcpKept s.gw gw')) ∨
      (∃ gw' nic host packet used, s' = s.next gw' used ∧ op = .tx nic host packet ∧
        slice packet 0 6 = s.gw.gatewayEthernetAddr.1 ∧ byte packet 23 = 17#8 ∧
        UdpTables s.gw gw' host packet used) ∨
      ∃ gw' i, s' = s.next gw' [i] ∧ UdpUse s.gw gw' i (s.gw.udpConnections i).slot := by
  have hkept : TcpKept s.gw s.gw := ⟨rfl, fun i => .refl _⟩
  cases op with
  | tx nic host packet =>
    obtain ⟨⟨gw1, all⟩, htx, h⟩ := Lib.bind_eq_ok h
    cases h
    rcases netEthernetTx_cases htx with ⟨heq, hsent⟩ | ⟨hdst, len, hip⟩
    · rw [hsent, heq]
      exact .inl ⟨s.gw, host, rfl, .kept hkept, .inr hkept⟩
    · rcases netIp_cases hip with ⟨heq, hsent⟩ | ⟨hprotocol, len', htcp⟩ | ⟨hprotocol, len', hudp⟩
      · rw [hsent, heq]
        exact .inl ⟨s.gw, host, rfl, .kept hkept, .inr hkept⟩
      · obtain ⟨htables, hsent⟩ := netIpTcp_tables htcp
        rw [hsent]
        exact .inl ⟨gw1, host, rfl, htables, .inl ⟨nic, packet, rfl, hprotocol⟩⟩
      · exact .inr (.inl ⟨gw1, nic, host, packet, _, rfl, rfl, hdst, hprotocol, netIpUdp_tables hudp⟩)
  | tcpRxAvail nic hosts =>
    obtain ⟨⟨gw1, all⟩, hloop, h⟩ := Lib.bind_eq_ok h
    cases h
    have hkept := netTcpRxAvail_kept hloop
    exact .inl ⟨gw1, openHost, rfl, .kept hkept, .inr hkept⟩
  | udpRx nic host received x =>
    obtain ⟨⟨gw1, all, n⟩, hround, h⟩ := Lib.bind_eq_ok h
    cases h
    unfold Gateway.udpRxAvailAt at hround
    dsimp only at hround
    have hskips : s.skips received x = true ↔ maxPacketsThisTick < received ∨
        (s.gw.udpConnections x.1).inUse = false ∨ (s.gw.udpConnections x.1).socket < 0 := by
      unfold skips
      simp [or_assoc]
    by_cases hskip : s.skips received x = true
    · rw [if_pos (hskips.mp hskip)] at hround
      cases hround
      rw [if_pos hskip]
      exact .inl ⟨s.gw, openHost, rfl, .kept hkept, .inr hkept⟩
    · rw [if_neg fun hcond => hskip (hskips.mpr hcond)] at hround
      obtain ⟨⟨gw2, frames, m⟩, hreceived, hround⟩ := Lib.bind_eq_ok hround
      cases hround
      rw [if_neg hskip]
      exact .inr (.inr ⟨gw2, x.1, rfl, receiveDatagram_use hreceived⟩)

theorem Inv.step {op : TableOp} (h : s.Inv) (hfresh : s.FreshSocket op) (hs : s.step op = .ok s') : s'.Inv := by
  rcases step_cases hs with ⟨gw', host, rfl, htables, hcase⟩ | ⟨gw', nic, host, packet, used, rfl, rfl, hdst, hprotocol,
    htables⟩ | ⟨gw', i, rfl, huse⟩
  · rcases hcase with ⟨nic, packet, rfl, hprotocol⟩ | hkept
    · apply h.tcp host htables
      intro hsocket e he
      apply hfresh hsocket e he
      intro i _ hcloses
      have hudp := hcloses.arrives.protocol
      rw [hprotocol] at hudp
      cases hudp
    · -- without a new connection, any host would do
      apply h.tcp { openHost with socket := -1 } (.kept hkept)
      intro hsocket
      cases hsocket
  · exact h.udp hdst hprotocol htables hfresh
  · exact h.use huse

/-- A new flow gets the entry of another one only if there is no other entry, and it is the least recently used one. -/
theorem Inv.evictsRight {op : TableOp} (h : s.Inv) (hs : s.step op = .ok s') : EvictsRight s s' := by
  intro i huse hchanged
  have hfree : i = s.gw.freeUdpConId → (∀ j, j < maxUdpConnections → (s.gw.udpConnections j).inUse = true) ∧
      (s.overflowed = false → ∀ j, j < maxUdpConnections → j ≠ i → LastBefore s.uses i j) := by
    intro hi
    rw [hi] at huse ⊢
    obtain ⟨-, hspec⟩ := freeUdpConId_spec s.gw
    obtain ⟨hfull, -, hle⟩ := hspec huse
    refine ⟨hfull, fun hover j hj hne => ?_⟩
    exact (h.stamped hover).oldest huse (hfull j hj) hne (hle j hj)
  rcases step_cases hs with ⟨gw', host, rfl, htables, -⟩ | ⟨gw', nic, host, packet, used, rfl, -, -, -, htables⟩ |
    ⟨gw', k, rfl, hused⟩
  · have hudp : gw'.udpConnections = s.gw.udpConnections := htables.udp
    exact absurd (congrArg (fun t => UdpConnection.slot (t i)) hudp) hchanged
  · cases htables with
    | none heq =>
      subst heq
      exact absurd rfl hchanged
    | known k hused => exact absurd (hused.slot_eq i) hchanged
    | noSocket c hnot heq =>
      by_cases hi : i = s.gw.freeUdpConId
      · exact hfree hi
      · subst heq
        exact absurd (congrArg UdpConnection.slot (Function.update_of_ne hi _ _)) hchanged
    | opened hofs hnew hsocket hused =>
      by_cases hi : i = s.gw.freeUdpConId
      · exact hfree hi
      · exact absurd (congrArg UdpConnection.slot (hused.others i hi)) hchanged
  · exact absurd (hused.slot_eq i) hchanged

theorem start_free (gw : Gateway) (e : Entry) : ((start gw).gw.slots e).inUse = false := by
  cases e with
  | tcp j => rfl
  | udp j => rfl

theorem inv_start (gw : Gateway) : (start gw).Inv := by
  have hfree : ∀ e, ((start gw).gw.slots e).inUse ≠ true := by
    intro e he
    rw [start_free] at he
    cases he
  refine ⟨⟨fun e he => absurd he (hfree e), fun e _ he => absurd he (hfree e), fun e _ he => absurd he (hfree e)⟩, ?_, ?_, ?_⟩
  · intro j hj
    exact absurd hj (hfree (.tcp j))
  · intro j hj
    exact absurd hj (hfree (.udp j))
  · intro _
    refine ⟨?_, ?_⟩
    · intro j hj
      exact absurd hj (hfree (.udp j))
    · intro j k hj
      exact absurd hj (hfree (.udp j))

/-- The tables in every run: no two connections in use have the same flow or the same socket, every socket is valid,
and only the least recently used datagrams' flow has to make room for another. -/
theorem natTables_correct (gw : Gateway) {ops : List TableOp} (h : Along step FreshSocket ops (start gw)) :
    Reaches step (fun s => SlotsDistinct (0 ≤ ·) s.gw.slots ∧ ∀ op s', s.step op = .ok s' → EvictsRight s s') ops
      (start gw) := by
  have hinv : Reaches step Inv ops (start gw) :=
    reaches_of_along (fun _ => True) (fun s op s' _ hs hfresh hstep => hs.step hfresh hstep) (fun _ _ => trivial)
      (inv_start gw) h
  exact hinv.mono fun s hs => ⟨hs.distinct, fun op s' hstep => hs.evictsRight hstep⟩

theorem udpFrame_tables : Reaches step
    (fun s => SlotsDistinct (0 ≤ ·) s.gw.slots ∧ ∀ op s', s.step op = .ok s' → EvictsRight s s')
    [.tx none openHost (udpFrame [0x40#8, 0#8] []), .udpRx none abHost 0 (99, abDatagram)] (start natGateway) := by
  apply natTables_correct
  refine ⟨?_, fun s' _ => ⟨trivial, fun _ _ => trivial⟩⟩
  intro _ e he
  rw [start_free] at he
  cases he

end NatTables

end Gxemul.Network
