import Gxemul.Network.InsideStream

/- The end of a connection that the guest closes. net_ip_tcp() handles a FIN before it looks
   at the data of the segment, and does not compare its sequence number. A socket that cannot
   be written to is treated as one that has failed. -/
namespace Gxemul.Network

open Lib
open Lib.Buf (slice)

def FinEnds (stream : List Byte) (h : List TcpEvent) (seg : Segment) (payload : List Byte) : Prop :=
  ∃ pos ≤ stream.length, seg.seqnr = isn h + 1#32 + BitVec.ofNat 32 pos ∧ payload = stream.drop pos ∧
    stream.length < (written h).length + 2 ^ 32

/-- What the guest has sent, and the segment that it sends next. -/
structure InOrder (stream : List Byte) (h : List TcpEvent) (seg : Segment) (payload : List Byte) : Prop where
  right : GuestRight stream (h ++ [.segment seg payload])
  fin : seg.fin = true → FinEnds stream h seg payload

/-- A connection that a FIN closes has written all that the guest has sent. It is not closed because its socket
cannot be written to at the moment. -/
structure ClosesRight (host : Host) (seg : Segment) (stream : List Byte) (v v' : TcpView) (h' : List TcpEvent) : Prop where
  fin : v.state = .connected → v'.state ≠ .connected → seg.rst = false → seg.fin = true → written h' = stream
  notWritable : host.writable = 0 → v.state = .connected → seg.rst = false → seg.fin = false → v'.state = .connected

/-- The bytes in front of a FIN have been written before, and data that are next do not find the socket busy. -/
structure ClosesLate (host : Host) (seg : Segment) (payload : List Byte) (v : TcpView) : Prop where
  fin : v.state = .connected → seg.rst = false → seg.fin = true →
    seg.seqnr + BitVec.ofNat 32 payload.length = v.outsideAcknr
  notWritable : host.writable = 0 → v.state = .connected → seg.rst = false → seg.fin = false → payload ≠ [] →
    seg.seqnr ≠ v.outsideAcknr

section
variable {net : TcpNet} {c c' : TcpConnection} {host : Host} {packet : Frame} {len : Nat} {seg : Segment} {t : BitVec 64}
  {events : List TcpEvent}

theorem input_fin (hcon : c.state = .connected) (hrst : seg.rst = false) (hfin : seg.fin = true)
    (h : c.input net host packet len seg = .ok (c', t, events)) : c'.state = .disconnected2 ∧ written events = [] := by
  unfold TcpConnection.input at h
  have hack : ¬ (seg.ack = true ∧ c.state = .disconnected2) := by
    rw [hcon]
    rintro ⟨-, hs⟩
    cases hs
  have hdis : ¬ (seg.fin = true ∧ c.state = .disconnected) := by
    rw [hcon]
    rintro ⟨-, hs⟩
    cases hs
  rw [if_neg (by simp [hrst]), if_neg hack, if_neg hdis, if_pos hfin] at h
  obtain ⟨f, c1, hok, hv, -⟩ := @reply_is net c host 0 false []
  rw [hok] at h
  obtain ⟨f', c2, hok', hv', -⟩ := @reply_is net { c1 with state := .disconnected2 } host 1 false [.queued f]
  change TcpConnection.reply _ _ _ _ _ [.queued f] = _ at h
  rw [hok'] at h
  cases h
  exact ⟨congrArg TcpView.state hv', rfl⟩

theorem reply_state {k : Nat} {rst : Bool} {before : List TcpEvent}
    (h : c.reply host k rst net before = .ok (c', t, events)) : c'.state = c.state := by
  obtain ⟨f, c1, hok, hv, -⟩ := @reply_is net c host k rst before
  rw [hok] at h
  cases h
  exact congrArg TcpView.state hv

theorem input_notWritable (hwritable : host.writable = 0) (hcon : c.state = .connected) (hrst : seg.rst = false)
    (hfin : seg.fin = false) (h : c.input net host packet len seg = .ok (c', t, events)) :
    c'.state = .connected ↔ ¬ (seg.dataOffset < len ∧ seg.seqnr = c.outsideAcknr) := by
  unfold TcpConnection.input at h
  have hack : ¬ (seg.ack = true ∧ c.state = .disconnected2) := by
    rw [hcon]
    rintro ⟨-, hs⟩
    cases hs
  rw [if_neg (by simp [hrst]), if_neg hack, if_neg (by simp [hfin]), if_neg (by simp [hfin])] at h
  obtain ⟨c1, hts, h⟩ := Lib.bind_eq_ok h
  obtain ⟨hview, -⟩ := readTimestamp_view hts
  have hv1 : c1.view = { c.view.acknowledge seg with insideSeqnr := seg.seqnr } := by
    rw [hview, ← acknowledge_view]
    rfl
  obtain ⟨-, hacknr, hstate, -, -⟩ := @acknowledge_fields seg c.view
  replace hacknr : c1.outsideAcknr = c.outsideAcknr := (congrArg TcpView.outsideAcknr hv1).trans hacknr
  replace hstate : c1.state = .connected := ((congrArg TcpView.state hv1).trans hstate).trans hcon
  rw [if_neg (not_not.mpr hstate)] at h
  by_cases hlen : len ≤ seg.dataOffset
  · rw [if_pos hlen] at h
    cases h
    exact iff_of_true hstate fun hboth => absurd hlen (Nat.not_le_of_lt hboth.1)
  · rw [if_neg hlen] at h
    unfold TcpConnection.transmit at h
    by_cases hseqnr : seg.seqnr = c1.outsideAcknr
    · rw [if_neg (not_not.mpr hseqnr), if_pos (by rw [hwritable]; decide)] at h
      have hdis := reply_state h
      refine iff_of_false ?_ ?_
      · rw [hdis]
        intro hs
        cases hs
      · exact not_not.mpr ⟨Nat.lt_of_not_le hlen, hseqnr.trans hacknr⟩
    · rw [if_pos hseqnr] at h
      have hsame := reply_state h
      refine iff_of_true ?_ ?_
      · rw [hsame]
        exact hstate
      · rintro ⟨-, heq⟩
        exact hseqnr (heq.trans hacknr.symm)

end

section
variable {gw gw' : Gateway} {nic : NicPtr} {host : Host} {packet : Frame} {len i : Nat} {seg : Segment}
  {payload stream : List Byte} {events : List TcpEvent} {all : List Event}

theorem netIpTcp_segment (hlen : len ≤ packet.length) (h : gw.netIpTcp nic packet host len = .ok (gw', all))
    (hall : tcpEvents all = (.segment seg payload :: events).map (i, ·)) :
    ∃ c' t, (gw.tcpConnections i).inUse = true ∧
      (gw.tcpConnections i).input gw.tcpNet host packet len seg = .ok (c', t, events) ∧
      gw'.tcpConnections i = c' ∧ (payload ≠ [] ↔ seg.dataOffset < len) := by
  obtain ⟨header, -, h⟩ := Lib.bind_eq_ok h
  obtain ⟨tcpLen, -, h⟩ := Lib.bind_eq_ok h
  obtain ⟨srcaddr, -, h⟩ := Lib.bind_eq_ok h
  obtain ⟨dstaddr, -, h⟩ := Lib.bind_eq_ok h
  obtain ⟨sum, -, h⟩ := Lib.bind_eq_ok h
  have hnone (gw1 : Gateway) : (Except.ok (gw1, []) : Checked (Gateway × List Event)) ≠ .ok (gw', all) := by
    intro he
    cases he
    cases hall
  split at h
  · exact absurd h (hnone _)
  · split at h
    · split at h
      · -- A new connection has been opened, which comes before its first segment.
        unfold Gateway.openTcp at h
        split at h
        · exact absurd h (hnone _)
        · obtain ⟨c, -, h⟩ := Lib.bind_eq_ok h
          split at h
          · exact absurd h (hnone _)
          · obtain ⟨⟨c', t, events'⟩, -, h⟩ := Lib.bind_eq_ok h
            cases h
            rw [tcpEvents_map] at hall
            cases (List.cons.inj hall).1
      · exact absurd h (hnone _)
    · rename_i j hj
      split at h
      · exact absurd h (hnone _)
      · obtain ⟨⟨c', t, events'⟩, hinput, h⟩ := Lib.bind_eq_ok h
        cases h
        rw [tcpEvents_map] at hall
        obtain ⟨hhead, htail⟩ := List.cons.inj hall
        cases hhead
        have hevents : events' = events := by
          apply List.map_injective_iff.mpr _ htail
          intro e e' he
          cases he
          rfl
        refine ⟨c', t, tcpConId_inUse hj, hevents ▸ hinput, ?_, ?_⟩
        · exact Function.update_self ..
        · rw [← List.length_pos_iff]
          unfold slice
          rw [List.length_take, List.length_drop]
          omega

/-- In every state of every run: a call closes a connection as it should exactly if it comes late enough. -/
theorem netIpTcp_closesRight_iff {ops : List NatOp} {s : NatRun} (hrun : Lib.runOps NatRun.step ops (.start gw) = .ok s)
    (hlen : len ≤ packet.length) (hcall : s.gw.netIpTcp nic packet host len = .ok (gw', all))
    (hsegment : tcpEvents all = (.segment seg payload :: events).map (i, ·))
    (horder : InOrder stream (history i s.log) seg payload) :
    ClosesRight host seg stream (s.view i) (gw'.tcpConnections i).view
        (history i s.log ++ .segment seg payload :: events) ↔
      ClosesLate host seg payload (s.view i) := by
  obtain ⟨c', t, huse, hinput, hc', hpayload⟩ := netIpTcp_segment hlen hcall hsegment
  rw [hc']
  have hinv := (insideInv_run gw ops).last hrun i stream horder.right.of_append
  have hopened := hinv.opened huse
  have hsyn (hcon : (s.view i).state = .connected) : (synSeqnr (history i s.log)).isSome = true := by
    by_contra hnone
    exact (hinv.before huse (Option.not_isSome_iff_eq_none.mp hnone)).state hcon
  have hwritten (hcon : (s.view i).state = .connected) (hrst : seg.rst = false) (hfin : seg.fin = true) :
      written (history i s.log ++ .segment seg payload :: events) = written (history i s.log) := by
    rw [written_append]
    have hnothing := (input_fin hcon hrst hfin hinput).2
    change _ ++ written events = _
    rw [hnothing, List.append_nil]
  -- What has been written is all of the stream if the next number is that of the FIN.
  have hall (hcon : (s.view i).state = .connected) (hrst : seg.rst = false) (hfin : seg.fin = true) :
      written (history i s.log) = stream ↔
        seg.seqnr + BitVec.ofNat 32 payload.length = (s.view i).outsideAcknr := by
    obtain ⟨pos, hpos, hseqnr, hrest, hnear⟩ := horder.fin hfin
    have hend : pos + payload.length = stream.length := by
      rw [hrest, List.length_drop]
      omega
    rw [hinv.stream.position huse (hsyn hcon), hseqnr, BitVec.add_assoc, ← BitVec.ofNat_add, hend]
    constructor
    · intro h
      unfold nextAcknr
      rw [h]
    · intro h
      apply hinv.stream.start.eq_of_length
      have hle := hinv.stream.start.length_le
      exact (seqnr_unique h (by omega) (by omega)).symm
  constructor
  · intro h
    refine ⟨fun hcon hrst hfin => ?_, fun hbusy hcon hrst hfin hdata heq => ?_⟩
    · have hclosed : c'.view.state ≠ .connected := by
        change c'.state ≠ .connected
        rw [(input_fin hcon hrst hfin hinput).1]
        intro hs
        cases hs
      rw [← hall hcon hrst hfin, ← hwritten hcon hrst hfin]
      exact h.fin hcon hclosed hrst hfin
    · have hopen := h.notWritable hbusy hcon hrst hfin
      exact (input_notWritable hbusy hcon hrst hfin hinput).mp hopen ⟨hpayload.mp hdata, heq⟩
  · intro h
    refine ⟨fun hcon _ hrst hfin => ?_, fun hbusy hcon hrst hfin => ?_⟩
    · rw [hwritten hcon hrst hfin, hall hcon hrst hfin]
      exact h.fin hcon hrst hfin
    · apply (input_notWritable hbusy hcon hrst hfin hinput).mpr
      rintro ⟨hdata, heq⟩
      exact h.notWritable hbusy hcon hrst hfin (hpayload.mpr hdata) heq

end

/-- The FIN of the guest after "ab", and a segment with "ab" and the FIN. -/
def finFrame : Frame := guestFrame 19 1 0x11#8 [0x6d#8, 0x5c#8] []
def dataFinFrame : Frame := guestFrame 17 1 0x11#8 [11#8, 250#8] [0x61#8, 0x62#8]

def connectOps : List NatOp :=
  [.tx (some 0) openHost guestSyn, .tcpRxAvail (some 0) fun _ => rxHost 1 0 none, .tx (some 0) openHost guestAck]

def abOps : List NatOp := connectOps ++ [.tx (some 0) openHost (guestFrame 17 1 0x10#8 [11#8, 251#8] [0x61#8, 0x62#8])]

def segmentIn (frame : Frame) : Segment := Segment.ofHeader (slice frame 34 20)

def answers (all : List Event) : List TcpEvent := (tcpEvents all).tail.map (·.2)

theorem finFrame_closesRight : ∃ s gw' all, Lib.runOps NatRun.step abOps (.start natGateway) = .ok s ∧
    s.gw.netIpTcp (some 0) finFrame openHost finFrame.length = .ok (gw', all) ∧
    ClosesRight openHost (segmentIn finFrame) [0x61#8, 0x62#8] (s.view 99) (gw'.tcpConnections 99).view
      (history 99 s.log ++ .segment (segmentIn finFrame) [] :: answers all) := by
  obtain ⟨s, hrun, heval⟩ := runOps_eval NatRun.step abOps (.start natGateway)
    (fun s => ((s.gw.netIpTcp (some 0) finFrame openHost finFrame.length).toOption.map fun r =>
        decide (tcpEvents r.2 = (.segment (segmentIn finFrame) [] :: answers r.2).map (99, ·)),
      decide (GuestRight [0x61#8, 0x62#8] (history 99 s.log ++ [.segment (segmentIn finFrame) []])),
      decide ((segmentIn finFrame).seqnr = isn (history 99 s.log) + 1#32 + 2#32), written (history 99 s.log),
      (s.view 99).outsideAcknr))
    (some true, true, true, [0x61#8, 0x62#8], 19#32) (by decide +kernel)
  simp only [Prod.mk.injEq, decide_eq_true_eq] at heval
  obtain ⟨hcall, hright, hseqnr, hwritten, hacknr⟩ := heval
  obtain ⟨⟨gw', all⟩, hok, hall⟩ := eval_eq_ok _ _ _ hcall
  have horder : InOrder [0x61#8, 0x62#8] (history 99 s.log) (segmentIn finFrame) [] := by
    refine ⟨hright, fun _ => ⟨2, Nat.le_refl 2, hseqnr, rfl, ?_⟩⟩
    rw [hwritten]
    decide
  refine ⟨s, gw', all, hrun, hok, ?_⟩
  apply (netIpTcp_closesRight_iff hrun (Nat.le_refl _) hok (of_decide_eq_true hall) horder).mpr
  refine ⟨fun _ _ _ => ?_, fun _ _ _ _ hdata => absurd rfl hdata⟩
  rw [hacknr]
  decide

theorem dataFinFrame_lost : ∃ s gw' all, Lib.runOps NatRun.step connectOps (.start natGateway) = .ok s ∧
    s.gw.netIpTcp (some 0) dataFinFrame openHost dataFinFrame.length = .ok (gw', all) ∧
    tcpEvents all = (.segment (segmentIn dataFinFrame) [0x61#8, 0x62#8] :: answers all).map (99, ·) ∧
    InOrder [0x61#8, 0x62#8] (history 99 s.log) (segmentIn dataFinFrame) [0x61#8, 0x62#8] ∧
    ¬ ClosesRight openHost (segmentIn dataFinFrame) [0x61#8, 0x62#8] (s.view 99) (gw'.tcpConnections 99).view
      (history 99 s.log ++ .segment (segmentIn dataFinFrame) [0x61#8, 0x62#8] :: answers all) := by
  obtain ⟨s, hrun, heval⟩ := runOps_eval NatRun.step connectOps (.start natGateway)
    (fun s => ((s.gw.netIpTcp (some 0) dataFinFrame openHost dataFinFrame.length).toOption.map fun r =>
        (decide (tcpEvents r.2 = (.segment (segmentIn dataFinFrame) [0x61#8, 0x62#8] :: answers r.2).map (99, ·)),
          decide ((r.1.tcpConnections 99).state = .connected),
          written (history 99 s.log ++ .segment (segmentIn dataFinFrame) [0x61#8, 0x62#8] :: answers r.2)),
      decide (GuestRight [0x61#8, 0x62#8]
        (history 99 s.log ++ [.segment (segmentIn dataFinFrame) [0x61#8, 0x62#8]])),
      decide ((segmentIn dataFinFrame).seqnr = isn (history 99 s.log) + 1#32 + 0#32), (s.view 99).state))
    (some (true, false, []), true, true, .connected) (by decide +kernel)
  simp only [Prod.mk.injEq, decide_eq_true_eq] at heval
  obtain ⟨hcall, hright, hseqnr, hstate⟩ := heval
  obtain ⟨⟨gw', all⟩, hok, hall⟩ := eval_eq_ok _ _ _ hcall
  simp only [Prod.mk.injEq, decide_eq_true_eq, decide_eq_false_iff_not] at hall
  obtain ⟨hsegment, hclosed, hnothing⟩ := hall
  refine ⟨s, gw', all, hrun, hok, hsegment, ⟨hright, fun _ => ⟨0, by decide, hseqnr, rfl, by simp⟩⟩, fun h => ?_⟩
  have hall := h.fin hstate hclosed (by decide) (by decide)
  rw [hnothing] at hall
  cases hall

end Gxemul.Network
