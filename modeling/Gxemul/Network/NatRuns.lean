import Gxemul.Lib.Run
import Gxemul.Network.Ip
import Gxemul.Network.TcpMachine

/- Runs of the gateway: frames of the guest and rounds of net_tcp_rx_avail(), in any
   order, for any number of connections.

   A run keeps a log of what happened to the connections. The history of a connection is
   what happened to it since it was opened, so that a property of all histories is one of
   every connection there was. `reaches_tcp` leads such a property back to the moves of the
   machine. -/
namespace Gxemul.Network
open Lib (Byte Checked Along Reaches)
open Lib.Buf (slice)

/-- What happens: the guest sends a frame, net_tcp_rx_avail() is called, or the gateway does something else, which
does not concern its TCP connections. -/
inductive NatOp where
  | tx (nic : NicPtr) (host : Host) (packet : Frame)
  | tcpRxAvail (nic : NicPtr) (hosts : Nat → RxHost)
  | other (gw' : Gateway)

structure NatRun where
  gw : Gateway
  log : List (Nat × TcpEvent)

def tcpEvents (events : List Event) : List (Nat × TcpEvent) :=
  events.filterMap fun e => match e with
    | .tcp _ i e => some (i, e)
    | _ => none

/-- What has happened to connection `i` since it was opened. -/
def history (i : Nat) (log : List (Nat × TcpEvent)) : List TcpEvent :=
  log.foldl (fun h e => if e.1 = i then (if e.2 = .opened then [] else h ++ [e.2]) else h) []

def synSeqnr (h : List TcpEvent) : Option (BitVec 32) :=
  h.findSome? fun e => match e with
    | .queued f => if frameSyn f then some (frameSeqnr f) else none
    | _ => none

namespace NatRun

def step (s : NatRun) : NatOp → Checked NatRun
  | .tx nic host packet => do
    let (gw, events) ← s.gw.netEthernetTx nic host packet
    return ⟨gw, s.log ++ tcpEvents events⟩
  | .tcpRxAvail nic hosts => do
    let (gw, events) ← s.gw.netTcpRxAvail nic hosts
    return ⟨gw, s.log ++ tcpEvents events⟩
  | .other gw' => .ok ⟨{ gw' with tcpConnections := s.gw.tcpConnections }, s.log⟩

def start (gw : Gateway) : NatRun := ⟨{ gw with tcpConnections := fun _ => .zero }, []⟩

def view (s : NatRun) (i : Nat) : TcpView := (s.gw.tcpConnections i).view

/-- A round in which data is read from a connection that is not established. -/
def ReadsEarly (s : NatRun) : NatOp → Prop
  | .tcpRxAvail _ hosts => ∃ i, (s.gw.tcpConnections i).ReadsEarly (hosts i)
  | .tx _ _ _ | .other _ => False

end NatRun

section
variable {i j : Nat} {log : List (Nat × TcpEvent)} {nic : NicPtr} {events : List TcpEvent} {gw gw' : Gateway}
  {host : Host} {packet : Frame} {seg : Segment} {len : Nat} {all : List Event}

/-! ## Histories -/

theorem tcpEvents_append (l l' : List Event) : tcpEvents (l ++ l') = tcpEvents l ++ tcpEvents l' :=
  List.filterMap_append

@[simp] theorem tcpEvents_map : tcpEvents (events.map (.tcp nic i)) = events.map (i, ·) := by
  simp [tcpEvents, List.filterMap_map]

theorem history_append_other (hne : j ≠ i) : history i (log ++ events.map (j, ·)) = history i log := by
  unfold history
  rw [List.foldl_append]
  induction events generalizing log with
  | nil => rfl
  | cons e events ih =>
    rw [List.map_cons, List.foldl_cons, if_neg hne]
    exact ih

theorem history_append (hopen : .opened ∉ events) : history i (log ++ events.map (i, ·)) = history i log ++ events := by
  unfold history
  rw [List.foldl_append]
  generalize log.foldl (fun h e => if e.1 = i then (if e.2 = .opened then [] else h ++ [e.2]) else h) [] = h
  induction events generalizing h with
  | nil => simp
  | cons e events ih =>
    have hne : ¬ e = .opened := fun he => hopen (he ▸ List.mem_cons_self)
    rw [List.map_cons, List.foldl_cons, if_pos rfl, if_neg hne, ih fun hmem => hopen (List.mem_cons_of_mem _ hmem)]
    simp

theorem history_opened (hopen : .opened ∉ events) :
    history i (log ++ (.opened :: events).map (i, ·)) = events := by
  have hsplit : log ++ (TcpEvent.opened :: events).map (i, ·) = (log ++ [(i, .opened)]) ++ events.map (i, ·) := by simp
  have hnew : history i (log ++ [(i, .opened)]) = [] := by
    unfold history
    rw [List.foldl_append, List.foldl_cons, if_pos rfl, if_pos rfl]
    rfl
  rw [hsplit, history_append hopen, hnew]
  rfl

theorem synSeqnr_append (h h' : List TcpEvent) : synSeqnr (h ++ h') = (synSeqnr h).or (synSeqnr h') :=
  List.findSome?_append

theorem SegmentMove.not_opened {payload : List Byte} {v v' : TcpView} (h : SegmentMove seg payload v events v') :
    .opened ∉ .segment seg payload :: events := by
  cases h <;> simp

theorem RxMove.not_opened {early : Prop} {v v' : TcpView} (h : RxMove early v events v') : .opened ∉ events := by
  cases h with
  | idle => simp
  | rx huse hstate h => cases h <;> simp
  | connect huse hstate hf h => cases h <;> simp

theorem RxMove.mono {early early' : Prop} {v v' : TcpView} (he : early → early') (h : RxMove early v events v') :
    RxMove early' v events v' := by
  cases h with
  | idle => exact .idle
  | rx huse hstate h => exact .rx huse hstate (h.mono fun _ => he)
  | connect huse hstate hf h => exact .connect huse hstate hf (h.mono fun _ => he)

/-! ## Frames of the guest -/

inductive TxMove (gw gw' : Gateway) : List (Nat × TcpEvent) → Prop where
  | none (h : gw'.tcpConnections = gw.tcpConnections) : TxMove gw gw' []
  | noSocket {i : Nat} {c : TcpConnection} (hfree : (gw.tcpConnections i).inUse = false) (hc : c.inUse = false)
    (h : gw'.tcpConnections = Function.update gw.tcpConnections i c) : TxMove gw gw' []
  | opened {i : Nat} {c c' : TcpConnection} {seg payload events} (hfree : (gw.tcpConnections i).inUse = false)
    (hnew : c.inUse = true ∧ c.state = .tryingToConnect ∧ c.view.pending = [])
    (hmove : SegmentMove seg payload c.view events c'.view)
    (h : gw'.tcpConnections = Function.update gw.tcpConnections i c') :
    TxMove gw gw' ((.opened :: .segment seg payload :: events).map (i, ·))
  | segment {i : Nat} {c' : TcpConnection} {seg payload events} (huse : (gw.tcpConnections i).inUse = true)
    (hmove : SegmentMove seg payload (gw.tcpConnections i).view events c'.view)
    (h : gw'.tcpConnections = Function.update gw.tcpConnections i c') :
    TxMove gw gw' ((.segment seg payload :: events).map (i, ·))

theorem freeTcpConId_inUse (h : gw.freeTcpConId = some i) : (gw.tcpConnections i).inUse = false := by
  have hmem := List.mem_of_getLast? h
  have hfree := (List.mem_filter.mp hmem).2
  simpa using hfree

theorem tcpConId_inUse (h : gw.tcpConId packet seg = some i) : (gw.tcpConnections i).inUse = true := by
  have howns := List.find?_some h
  unfold Gateway.ownsSegment at howns
  simp only [Bool.and_eq_true] at howns
  exact howns.1.1.1.1

theorem inputTo_ok {c : TcpConnection} {before : List TcpEvent}
    (h : gw.inputTo nic packet seg host i c before len = .ok (gw', all)) : ∃ c' events,
      gw'.tcpConnections = Function.update gw.tcpConnections i c' ∧
        all = (before ++ .segment seg (slice packet seg.dataOffset (len - seg.dataOffset)) :: events).map (.tcp nic i) ∧
        SegmentMove seg (slice packet seg.dataOffset (len - seg.dataOffset)) c.view events c'.view := by
  obtain ⟨⟨c', t, events⟩, hin, h⟩ := Lib.bind_eq_ok h
  cases h
  exact ⟨c', events, rfl, rfl, input_move hin⟩

theorem newTcpConnection_view {c : TcpConnection} (h : Gateway.newTcpConnection packet seg = .ok c) :
    c.inUse = false ∧ c.incomingBufLen = 0 := by
  obtain ⟨_, -, h⟩ := Lib.bind_eq_ok h
  obtain ⟨_, -, h⟩ := Lib.bind_eq_ok h
  obtain ⟨_, -, h⟩ := Lib.bind_eq_ok h
  cases h
  exact ⟨rfl, rfl⟩

theorem openTcp_move (h : gw.openTcp nic packet seg host len = .ok (gw', all)) : TxMove gw gw' (tcpEvents all) := by
  unfold Gateway.openTcp at h
  cases hfree : gw.freeTcpConId with
  | none =>
    rw [hfree] at h
    cases h
    exact .none rfl
  | some i =>
    rw [hfree] at h
    obtain ⟨c, hc, h⟩ := Lib.bind_eq_ok h
    obtain ⟨huse, hlen⟩ := newTcpConnection_view hc
    split at h
    · cases h
      exact .noSocket (freeTcpConId_inUse hfree) (show ({ c with socket := host.socket } : TcpConnection).inUse = false from huse) rfl
    · obtain ⟨c', events, hgw, rfl, hmove⟩ := inputTo_ok h
      rw [tcpEvents_map]
      refine .opened (freeTcpConId_inUse hfree) ⟨rfl, rfl, ?_⟩ hmove hgw
      simp [Gateway.connecting, TcpConnection.view, hlen]

theorem TxMove.of_nothing (h : (Except.ok (gw, []) : Checked (Gateway × List Event)) = .ok (gw', all)) :
    TxMove gw gw' (tcpEvents all) := by
  cases h
  exact .none rfl

theorem netIpTcp_move (h : gw.netIpTcp nic packet host len = .ok (gw', all)) : TxMove gw gw' (tcpEvents all) := by
  obtain ⟨header, -, h⟩ := Lib.bind_eq_ok h
  obtain ⟨tcpLen, -, h⟩ := Lib.bind_eq_ok h
  obtain ⟨srcaddr, -, h⟩ := Lib.bind_eq_ok h
  obtain ⟨dstaddr, -, h⟩ := Lib.bind_eq_ok h
  obtain ⟨sum, -, h⟩ := Lib.bind_eq_ok h
  split at h
  · exact .of_nothing h
  · split at h
    · split at h
      · exact openTcp_move h
      · exact .of_nothing h
    · rename_i hcon
      split at h
      · exact .of_nothing h
      · obtain ⟨c', events, hgw, rfl, hmove⟩ := inputTo_ok h
        rw [tcpEvents_map]
        exact .segment (tcpConId_inUse hcon) hmove hgw

/-- Frames are queued or passed on, and nothing else happens. -/
def Quiet (all : List Event) : Prop := ∀ e ∈ all, (∃ nic frame, e = .queued nic frame) ∨ ∃ frame, e = .distributed frame

theorem quiet_nil : Quiet [] := fun e he => absurd he List.not_mem_nil

theorem quiet_queued {frame : Frame} : Quiet [.queued nic frame] := by
  intro e he
  rw [List.mem_singleton.mp he]
  exact .inl ⟨nic, frame, rfl⟩

theorem Quiet.tcpEvents (h : Quiet all) : tcpEvents all = [] := by
  apply List.filterMap_eq_nil_iff.mpr
  intro e he
  rcases h e he with ⟨nic, frame, rfl⟩ | ⟨frame, rfl⟩
  · rfl
  · rfl

theorem netArp_quiet (h : gw.netArp nic packet = .ok all) : Quiet all := by
  obtain ⟨_, -, h⟩ := Lib.bind_eq_ok h
  obtain ⟨_, -, h⟩ := Lib.bind_eq_ok h
  split at h
  · obtain ⟨_, -, h⟩ := Lib.bind_eq_ok h
    split at h
    · obtain ⟨_, -, h⟩ := Lib.bind_eq_ok h
      split at h
      · obtain ⟨_, -, h⟩ := Lib.bind_eq_ok h
        cases h
        exact quiet_queued
      · cases h
        exact quiet_nil
    · split at h
      · obtain ⟨_, -, h⟩ := Lib.bind_eq_ok h
        cases h
        exact quiet_queued
      · cases h
        exact quiet_nil
  · cases h
    exact quiet_nil

theorem netIpIcmp_quiet (h : Gateway.netIpIcmp nic host packet len = .ok all) : Quiet all := by
  obtain ⟨_, -, h⟩ := Lib.bind_eq_ok h
  split at h
  · obtain ⟨_, -, h⟩ := Lib.bind_eq_ok h
    cases h
    exact quiet_queued
  · cases h
    exact quiet_nil

theorem netIpBroadcast_quiet (h : gw.netIpBroadcast nic host packet len = .ok all) : Quiet all := by
  obtain ⟨_, -, h⟩ := Lib.bind_eq_ok h
  obtain ⟨_, -, h⟩ := Lib.bind_eq_ok h
  obtain ⟨len', -, h⟩ := Lib.bind_eq_ok h
  obtain ⟨_, -, h⟩ := Lib.bind_eq_ok h
  split at h
  · obtain ⟨_, -, h⟩ := Lib.bind_eq_ok h
    split at h
    · cases h
      exact quiet_nil
    · obtain ⟨_, -, h⟩ := Lib.bind_eq_ok h
      obtain ⟨_, -, h⟩ := Lib.bind_eq_ok h
      obtain ⟨_, -, h⟩ := Lib.bind_eq_ok h
      obtain ⟨_, -, h⟩ := Lib.bind_eq_ok h
      obtain ⟨_, -, h⟩ := Lib.bind_eq_ok h
      obtain ⟨_, -, h⟩ := Lib.bind_eq_ok h
      obtain ⟨_, -, h⟩ := Lib.bind_eq_ok h
      obtain ⟨_, -, h⟩ := Lib.bind_eq_ok h
      cases h
      exact quiet_queued
  · obtain ⟨_, -, h⟩ := Lib.bind_eq_ok h
    split at h
    · cases h
      exact quiet_nil
    · obtain ⟨_, -, h⟩ := Lib.bind_eq_ok h
      cases h
      exact quiet_nil

theorem forward_quiet (gw : Gateway) : Quiet (gw.forward nic packet) := by
  intro e he
  rcases List.mem_append.mp he with he | he
  · split at he
    · obtain ⟨other, -, rfl⟩ := List.mem_map.mp he
      exact .inl ⟨_, packet, rfl⟩
    · cases he
  · split at he
    · rw [List.mem_singleton.mp he]
      exact .inr ⟨packet, rfl⟩
    · cases he

theorem sendDatagram_noTcp {gw gw' : Gateway} {c : UdpConnection} (h : gw.sendDatagram packet len i c = .ok (gw', all)) :
    gw'.tcpConnections = gw.tcpConnections ∧ tcpEvents all = [] := by
  obtain ⟨_, -, h⟩ := Lib.bind_eq_ok h
  obtain ⟨_, -, h⟩ := Lib.bind_eq_ok h
  cases h
  exact ⟨rfl, rfl⟩

theorem netIpUdp_noTcp (h : gw.netIpUdp host packet len = .ok (gw', all)) :
    gw'.tcpConnections = gw.tcpConnections ∧ tcpEvents all = [] := by
  obtain ⟨_, -, h⟩ := Lib.bind_eq_ok h
  split at h
  · cases h
    exact ⟨rfl, rfl⟩
  · obtain ⟨_, -, h⟩ := Lib.bind_eq_ok h
    obtain ⟨_, -, h⟩ := Lib.bind_eq_ok h
    split at h
    · exact sendDatagram_noTcp h
    · obtain ⟨_, -, h⟩ := Lib.bind_eq_ok h
      split at h
      · cases h
        exact ⟨rfl, rfl⟩
      · exact sendDatagram_noTcp h

theorem TxMove.of_noTcp (h : gw'.tcpConnections = gw.tcpConnections) (hall : tcpEvents all = []) :
    TxMove gw gw' (tcpEvents all) := by
  rw [hall]
  exact .none h

theorem netIp_move (h : gw.netIp nic host packet len = .ok (gw', all)) : TxMove gw gw' (tcpEvents all) := by
  obtain ⟨_, -, h⟩ := Lib.bind_eq_ok h
  obtain ⟨len', -, h⟩ := Lib.bind_eq_ok h
  obtain ⟨_, -, h⟩ := Lib.bind_eq_ok h
  split at h
  · obtain ⟨_, -, h⟩ := Lib.bind_eq_ok h
    split at h
    · obtain ⟨events, hicmp, h⟩ := Lib.bind_eq_ok h
      cases h
      exact .of_noTcp rfl (netIpIcmp_quiet hicmp).tcpEvents
    · split at h
      · exact netIpTcp_move h
      · split at h
        · obtain ⟨hgw, hall⟩ := netIpUdp_noTcp h
          exact .of_noTcp hgw hall
        · exact .of_nothing h
  · exact .of_nothing h

theorem handleFrame_move {forTheGateway : Bool} (h : gw.handleFrame nic host packet forTheGateway = .ok (gw', all)) :
    TxMove gw gw' (tcpEvents all) := by
  obtain ⟨_, -, h⟩ := Lib.bind_eq_ok h
  split at h
  · split at h
    · exact netIp_move h
    · split at h
      · obtain ⟨events, hbroadcast, h⟩ := Lib.bind_eq_ok h
        cases h
        exact .of_noTcp rfl (netIpBroadcast_quiet hbroadcast).tcpEvents
      · exact .of_nothing h
  · split at h
    · obtain ⟨events, harp, h⟩ := Lib.bind_eq_ok h
      cases h
      exact .of_noTcp rfl (netArp_quiet harp).tcpEvents
    · exact .of_nothing h

theorem netEthernetTx_move (h : gw.netEthernetTx nic host packet = .ok (gw', all)) :
    TxMove gw gw' (tcpEvents all) := by
  unfold Gateway.netEthernetTx at h
  split at h
  · cases h
    exact .none rfl
  · obtain ⟨dst, -, h⟩ := Lib.bind_eq_ok h
    dsimp only at h
    have hforward : tcpEvents (if decide (dst = gw.gatewayEthernetAddr.1) = true then [] else gw.forward nic packet) = [] := by
      split
      · rfl
      · exact (forward_quiet gw).tcpEvents
    split at h
    · cases h
      exact .of_noTcp rfl hforward
    · obtain ⟨⟨gw1, events⟩, hhandle, h⟩ := Lib.bind_eq_ok h
      cases h
      rw [tcpEvents_append, hforward]
      exact handleFrame_move hhandle

/-! ## Rounds of net_tcp_rx_avail() -/

section
variable {hosts : Nat → RxHost} {early : Prop} {I : TcpView → List TcpEvent → Prop}

theorem rxLoop_inv (hrx : ∀ v h events v', I v h → RxMove early v events v' → I v' (h ++ events)) :
    ∀ (l : List Nat) (gw : Gateway) (before : List Event), l.Nodup →
      (∀ i ∈ l, (gw.tcpConnections i).ReadsEarly (hosts i) → early) →
      (∀ i, I (gw.tcpConnections i).view (history i (log ++ tcpEvents before))) →
      l.foldlM (Gateway.rxAvailAt nic hosts) (gw, before) = .ok (gw', all) →
      ∀ i, I (gw'.tcpConnections i).view (history i (log ++ tcpEvents all))
  | [], gw, before, _, _, hinv, h => by
    cases h
    exact hinv
  | k :: l, gw, before, hnodup, hearly, hinv, h => by
    rw [List.foldlM_cons] at h
    obtain ⟨⟨gw1, before1⟩, hk, h⟩ := Lib.bind_eq_ok h
    obtain ⟨⟨c, t, events⟩, hc, hk⟩ := Lib.bind_eq_ok hk
    cases hk
    obtain ⟨hnotin, hnodup⟩ := List.nodup_cons.mp hnodup
    have hmove := rxAvail_move hc
    refine rxLoop_inv hrx l _ _ hnodup (fun i hi => ?_) (fun i => ?_) h
    · have hne : i ≠ k := fun he => hnotin (he ▸ hi)
      show (Function.update gw.tcpConnections k c i).ReadsEarly (hosts i) → early
      rw [Function.update_of_ne hne]
      exact hearly i (List.mem_cons_of_mem _ hi)
    · show I (Function.update gw.tcpConnections k c i).view _
      rw [tcpEvents_append, tcpEvents_map, ← List.append_assoc]
      by_cases hik : i = k
      · subst hik
        rw [Function.update_self, history_append hmove.not_opened]
        exact hrx _ _ _ _ (hinv i) (hmove.mono (hearly i List.mem_cons_self))
      · rw [Function.update_of_ne hik, history_append_other (Ne.symm hik)]
        exact hinv i

/-- The invariant rule for connections: what the moves of the machine keep holds of all connections and their
histories, in every state of a run. A history starts with the segment that opens the connection. -/
theorem reaches_tcp {guard : NatRun → NatOp → Prop} (hguard : ∀ s op, guard s op → s.ReadsEarly op → early)
    (hstart : I TcpConnection.zero.view [])
    (hfree : ∀ v v' h, I v h → v.inUse = false → v'.inUse = false → I v' h)
    (hopen : ∀ v seg payload events v', v.inUse = true → v.state = .tryingToConnect → v.pending = [] →
      SegmentMove seg payload v events v' → I v' (.segment seg payload :: events))
    (hsegment : ∀ v h seg payload events v', I v h → v.inUse = true → SegmentMove seg payload v events v' →
      I v' (h ++ .segment seg payload :: events))
    (hrx : ∀ v h events v', I v h → RxMove early v events v' → I v' (h ++ events))
    {ops : List NatOp} (h : Along NatRun.step guard ops (.start gw)) :
    Reaches NatRun.step (fun s => ∀ i, I (s.view i) (history i s.log)) ops (.start gw) := by
  refine Lib.reaches_of_along (fun _ => True) (fun s op s' _ hinv hg hs => ?_) (fun _ _ => trivial) (fun _ => hstart) h
  cases op with
  | tx nic host packet =>
    obtain ⟨⟨gw1, all⟩, htx, hs⟩ := Lib.bind_eq_ok hs
    cases hs
    have hmove := netEthernetTx_move htx
    intro i
    show I (gw1.tcpConnections i).view (history i (s.log ++ tcpEvents all))
    generalize tcpEvents all = log at hmove ⊢
    cases hmove with
    | none h =>
      rw [h, List.append_nil]
      exact hinv i
    | @noSocket j c hfreeC hc h =>
      rw [h, List.append_nil]
      by_cases hij : i = j
      · subst hij
        rw [Function.update_self]
        exact hfree _ _ _ (hinv i) hfreeC hc
      · rw [Function.update_of_ne hij]
        exact hinv i
    | @opened j c c' seg payload events hfreeC hnew hm h =>
      rw [h]
      by_cases hij : i = j
      · subst hij
        rw [Function.update_self, history_opened hm.not_opened]
        exact hopen _ _ _ _ _ hnew.1 hnew.2.1 hnew.2.2 hm
      · rw [Function.update_of_ne hij, history_append_other (Ne.symm hij)]
        exact hinv i
    | @segment j c' seg payload events huse hm h =>
      rw [h]
      by_cases hij : i = j
      · subst hij
        rw [Function.update_self, history_append hm.not_opened]
        exact hsegment _ _ _ _ _ _ (hinv i) huse hm
      · rw [Function.update_of_ne hij, history_append_other (Ne.symm hij)]
        exact hinv i
  | tcpRxAvail nic hosts =>
    obtain ⟨⟨gw1, all⟩, hloop, hs⟩ := Lib.bind_eq_ok hs
    cases hs
    refine rxLoop_inv hrx _ _ [] List.nodup_range (fun i _ he => hguard s _ hg ⟨i, he⟩) (fun i => ?_) hloop
    rw [show tcpEvents [] = [] from rfl, List.append_nil]
    exact hinv i
  | other gw' =>
    cases hs
    exact hinv

end

end

/-- The answers of select() and read() for every socket. -/
def rxHost (writable readable : Int) (read : Option (List Byte)) : RxHost :=
  ⟨fun _ _ => 0#8, writable, .other, false, readable, read⟩

end Gxemul.Network
