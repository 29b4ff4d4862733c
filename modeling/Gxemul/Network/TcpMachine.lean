import Gxemul.Network.Reply

/- A TCP connection as an abstract machine: what the guest's segments and the host do to
   it, and what is queued for the guest. net_ip_tcp() and net_tcp_rx_avail() refine it
   (`input_move`, `rxAvail_move`). -/
namespace Gxemul.Network
open Lib (Byte Checked)
open Lib.Buf (slice)

/-- The part of a connection that its streams depend on. `pending` is what is in `incoming_buf`. -/
structure TcpView where
  inUse : Bool
  state : TcpState
  insideSeqnr : BitVec 32
  outsideSeqnr : BitVec 32
  outsideAcknr : BitVec 32
  pending : List Byte
  pendingSeqnr : BitVec 32

def TcpConnection.view (c : TcpConnection) : TcpView :=
  ⟨c.inUse, c.state, c.insideSeqnr, c.outsideSeqnr, c.outsideAcknr, c.incomingBuf.take c.incomingBufLen,
    c.incomingBufSeqnr⟩

structure Frame.Is (f : Frame) (v : TcpView) (seqnr : BitVec 32) (data : List Byte) : Prop where
  data : frameData f = data
  syn : frameSyn f = false
  seqnr : frameSeqnr f = seqnr
  acknr : frameAcknr f = v.outsideAcknr

structure Frame.IsSyn (f : Frame) (v : TcpView) : Prop where
  data : frameData f = []
  syn : frameSyn f = true
  seqnr : frameSeqnr f = v.outsideSeqnr
  acknr : frameAcknr f = v.insideSeqnr + 1#32

def TcpView.acknowledge (v : TcpView) (seg : Segment) : TcpView :=
  if seg.ack = true ∧ seg.acknr = v.outsideSeqnr then { v with pending := [] } else v

inductive SegmentMove (seg : Segment) (payload : List Byte) (v : TcpView) : List TcpEvent → TcpView → Prop where
  | close {f} (hf : f.Is v v.outsideSeqnr []) :
    SegmentMove seg payload v [.queued f, .closed] { v with state := .disconnected, inUse := false, pending := [] }
  | answerFin {f} (hstate : v.state = .disconnected) (hf : f.Is v v.outsideSeqnr []) :
    SegmentMove seg payload v [.queued f] { v with state := .disconnected2 }
  | fin {f f'} (hf : f.Is v v.outsideSeqnr []) (hf' : f'.Is v v.outsideSeqnr []) :
    SegmentMove seg payload v [.queued f, .queued f'] { v with state := .disconnected2 }
  | quiet :
    SegmentMove seg payload v [] { v.acknowledge seg with insideSeqnr := seg.seqnr }
  | answer {f} (hf : f.Is v v.outsideSeqnr []) :
    SegmentMove seg payload v [.queued f] { v.acknowledge seg with insideSeqnr := seg.seqnr }
  | disconnect {f} (hf : f.Is v v.outsideSeqnr []) :
    SegmentMove seg payload v [.queued f] { v.acknowledge seg with insideSeqnr := seg.seqnr, state := .disconnected }
  | send {f n} (hstate : v.state = .connected) (hseqnr : seg.seqnr = v.outsideAcknr) (hn : n ≤ payload.length)
    (hf : f.Is { v with outsideAcknr := v.outsideAcknr + BitVec.ofNat 32 n } v.outsideSeqnr []) :
    SegmentMove seg payload v [.wrote (payload.take n), .queued f]
      { v.acknowledge seg with insideSeqnr := seg.seqnr, outsideAcknr := v.outsideAcknr + BitVec.ofNat 32 n }

/-- What the host does in one round. `early` is what has to be for data to be read before the connection is
established. -/
inductive HostMove (early : Prop) (v : TcpView) : List TcpEvent → TcpView → Prop where
  | quiet : HostMove early v [] v
  | disconnect : HostMove early v [] { v with state := .disconnected }
  | resend {f} (hpending : v.pending ≠ []) (hf : f.Is v v.pendingSeqnr v.pending) :
    HostMove early v [.queued f] { v with outsideSeqnr := v.pendingSeqnr + BitVec.ofNat 32 v.pending.length }
  | read {f d} (hpending : v.pending = []) (hd : d ≠ []) (hearly : v.state = .tryingToConnect → early)
    (hf : f.Is v v.outsideSeqnr d) :
    HostMove early v [.read d, .queued f]
      { v with
        pending := d
        pendingSeqnr := v.outsideSeqnr
        outsideSeqnr := v.outsideSeqnr + BitVec.ofNat 32 d.length }
  | endOfFile {f} (hf : f.Is v v.outsideSeqnr []) :
    HostMove early v [.queued f] { v with state := .disconnected }

def TcpView.connect (v : TcpView) : TcpView :=
  { v with
    state := .connected
    outsideAcknr := v.insideSeqnr + 1#32
    outsideSeqnr := v.outsideSeqnr + 1#32 }

/-- A round of the loop, which only does something to a connection that is in use and not disconnected. -/
inductive RxMove (early : Prop) (v : TcpView) : List TcpEvent → TcpView → Prop where
  | idle : RxMove early v [] v
  | rx {events v'} (huse : v.inUse = true) (hstate : v.state.isDisconnected = false) (h : HostMove early v events v') :
    RxMove early v events v'
  | connect {f events v'} (huse : v.inUse = true) (hstate : v.state = .tryingToConnect) (hf : f.IsSyn v)
    (h : HostMove early v.connect events v') : RxMove early v (.queued f :: events) v'

/-- Data is read from the socket of a connection that is not established: the first select() has not found it
writable, and the second finds it readable. -/
def TcpConnection.ReadsEarly (c : TcpConnection) (host : RxHost) : Prop :=
  c.inUse = true ∧ 0 ≤ c.socket ∧ c.state = .tryingToConnect ∧ host.errno = .other ∧ host.writable < 1 ∧
    c.incomingBufLen = 0 ∧ differencePositive host.overflow c.outsideSeqnr c.insideAcknr = false ∧
    1 ≤ host.readable ∧ (host.read.getD []).take 1400 ≠ []

section
variable {net : TcpNet} {c c' : TcpConnection} {host : Host} {packet : Frame} {len : Nat} {seg : Segment} {t : BitVec 64}
  {events : List TcpEvent}

/-! ## Segments -/

theorem Frame.Is.congr {f : Frame} {v v' : TcpView} {seqnr seqnr' : BitVec 32} {data : List Byte} (h : f.Is v seqnr data)
    (hacknr : v.outsideAcknr = v'.outsideAcknr) (hseqnr : seqnr = seqnr') : f.Is v' seqnr' data :=
  ⟨h.data, h.syn, h.seqnr.trans hseqnr, h.acknr.trans hacknr⟩

theorem acknowledge_fields (v : TcpView) : (v.acknowledge seg).outsideSeqnr = v.outsideSeqnr ∧
    (v.acknowledge seg).outsideAcknr = v.outsideAcknr ∧ (v.acknowledge seg).state = v.state ∧
    (v.acknowledge seg).inUse = v.inUse ∧ (v.acknowledge seg).pendingSeqnr = v.pendingSeqnr := by
  unfold TcpView.acknowledge
  split <;> exact ⟨rfl, rfl, rfl, rfl, rfl⟩

theorem frameSyn_control {f : Frame} {connecting rst : Bool} (h : frameControl f = c.control connecting rst) :
    frameSyn f = connecting := by
  unfold frameSyn
  rw [h]
  unfold TcpConnection.control
  cases connecting <;> cases rst <;> cases c.state <;> decide

theorem replied_view (n : Nat) : (c.replied false n).view =
    { c.view with outsideSeqnr := c.outsideSeqnr + BitVec.ofNat 32 n } := by
  simp [TcpConnection.replied, TcpConnection.view]

theorem reply_is {k : Nat} {rst : Bool} {before : List TcpEvent} : ∃ f c',
    c.reply host k rst net before = .ok (c', net.timestamp, before ++ [.queued f]) ∧ c'.view = c.view ∧
      f.Is c.view c.outsideSeqnr [] := by
  obtain ⟨f, h, hreply⟩ := @TcpConnection.reply_ok net c host k rst before
  refine ⟨f, _, h, ?_, hreply.data, frameSyn_control hreply.control, hreply.seqnr, hreply.acknr⟩
  rw [replied_view]
  simp [TcpConnection.view]

theorem readTimestamp_view (h : c.readTimestamp packet = .ok c') : c'.view = c.view ∧ c'.state = c.state := by
  obtain ⟨kind, -, h⟩ := Lib.bind_eq_ok h
  split at h
  · obtain ⟨length, -, h⟩ := Lib.bind_eq_ok h
    split at h
    · obtain ⟨value, -, h⟩ := Lib.bind_eq_ok h
      cases h
      exact ⟨rfl, rfl⟩
    · cases h
      exact ⟨rfl, rfl⟩
  · cases h
    exact ⟨rfl, rfl⟩

theorem acknowledge_view : (if seg.ack = true then c.acknowledge seg else c).view = c.view.acknowledge seg := by
  unfold TcpView.acknowledge TcpConnection.acknowledge
  by_cases hack : seg.ack = true
  · rw [if_pos hack]
    dsimp only
    by_cases hall : seg.acknr = c.outsideSeqnr
    · rw [if_pos (⟨hack, hall⟩ : seg.ack = true ∧ seg.acknr = c.view.outsideSeqnr)]
      split
      · rfl
      · rename_i hlen
        have hzero : c.incomingBufLen = 0 := by
          by_contra hne
          exact hlen ⟨hall, hne⟩
        simp [TcpConnection.view, hzero]
    · rw [if_neg fun h => hall h.1, if_neg fun h => hall h.2]
      rfl
  · rw [if_neg hack, if_neg fun h => hack h.1]

theorem transmit_cases {replies : Bool} (h : c.transmit host packet len seg = .ok (c', events, replies)) :
    (c' = c ∧ events = []) ∨ (c' = { c with state := .disconnected } ∧ events = [] ∧ replies = true) ∨
      ∃ n, seg.seqnr = c.outsideAcknr ∧ n ≤ (slice packet seg.dataOffset (len - seg.dataOffset)).length ∧
        c' = { c with outsideAcknr := c.outsideAcknr + BitVec.ofNat 32 n } ∧ replies = true ∧
        events = [.wrote ((slice packet seg.dataOffset (len - seg.dataOffset)).take n)] := by
  unfold TcpConnection.transmit at h
  split at h
  · cases h
    exact .inl ⟨rfl, rfl⟩
  · rename_i hseqnr
    split at h
    · cases h
      exact .inr (.inl ⟨rfl, rfl, rfl⟩)
    · obtain ⟨data, hdata, h⟩ := Lib.bind_eq_ok h
      unfold Lib.Buf.readBytes at hdata
      split at hdata
      · cases hdata
        split at h
        · cases h
          exact .inr (.inr ⟨_, not_not.mp hseqnr, Nat.min_le_right _ _, rfl, rfl, rfl⟩)
        · cases h
          exact .inl ⟨rfl, rfl⟩
        · cases h
          exact .inr (.inl ⟨rfl, rfl, rfl⟩)
        · cases h
          exact .inr (.inl ⟨rfl, rfl, rfl⟩)
      · cases hdata

theorem inputData_move (h : c.inputData net host packet len seg = .ok (c', t, events)) :
    SegmentMove seg (slice packet seg.dataOffset (len - seg.dataOffset)) c.view events c'.view := by
  unfold TcpConnection.inputData at h
  dsimp only at h
  obtain ⟨c1, hts, h⟩ := Lib.bind_eq_ok h
  obtain ⟨hview, -⟩ := readTimestamp_view hts
  have hv1 : c1.view = { c.view.acknowledge seg with insideSeqnr := seg.seqnr } := by
    rw [hview, ← acknowledge_view]
    rfl
  obtain ⟨hseqnr, hacknr, hstate, -, -⟩ := @acknowledge_fields seg c.view
  replace hseqnr : c1.outsideSeqnr = c.outsideSeqnr := (congrArg TcpView.outsideSeqnr hv1).trans hseqnr
  replace hacknr : c1.outsideAcknr = c.outsideAcknr := (congrArg TcpView.outsideAcknr hv1).trans hacknr
  replace hstate : c1.state = c.state := (congrArg TcpView.state hv1).trans hstate
  have hquiet : SegmentMove seg (slice packet seg.dataOffset (len - seg.dataOffset)) c.view [] c1.view := by
    rw [hv1]
    exact .quiet
  split at h
  · cases h
    exact hquiet
  · rename_i hcon
    split at h
    · cases h
      exact hquiet
    · obtain ⟨⟨c2, evs, replies⟩, ht, h⟩ := Lib.bind_eq_ok h
      have hreply : ∀ c2 : TcpConnection, ∃ f c3,
          c2.reply host 0 false { net with timestamp := net.timestamp + 1#64 } evs =
            .ok (c3, net.timestamp + 1#64, evs ++ [.queued f]) ∧ c3.view = c2.view ∧ f.Is c2.view c2.outsideSeqnr [] :=
        fun c2 => @reply_is { net with timestamp := net.timestamp + 1#64 } c2 host 0 false evs
      obtain ⟨rfl, rfl⟩ | ⟨rfl, rfl, rfl⟩ | ⟨n, hseg, hn, rfl, rfl, rfl⟩ := transmit_cases ht
      · split at h
        · obtain ⟨f, c3, hok, hv3, hf⟩ := hreply { c1 with lastUsedTimestamp := net.timestamp + 1#64 }
          rw [hok] at h
          cases h
          rw [hv3]
          show SegmentMove _ _ _ _ c1.view
          rw [hv1]
          exact .answer (hf.congr hacknr hseqnr)
        · cases h
          exact hquiet
      · rw [if_pos rfl] at h
        obtain ⟨f, c3, hok, hv3, hf⟩ :=
          hreply { c1 with lastUsedTimestamp := net.timestamp + 1#64, state := .disconnected }
        rw [hok] at h
        cases h
        rw [hv3]
        show SegmentMove _ _ _ _ { c1.view with state := .disconnected }
        rw [hv1]
        exact .disconnect (hf.congr hacknr hseqnr)
      · rw [if_pos rfl] at h
        obtain ⟨f, c3, hok, hv3, hf⟩ := hreply { c1 with
          lastUsedTimestamp := net.timestamp + 1#64
          outsideAcknr := c1.outsideAcknr + BitVec.ofNat 32 n }
        rw [hok] at h
        cases h
        rw [hv3]
        show SegmentMove _ _ _ _ { c1.view with outsideAcknr := c1.outsideAcknr + BitVec.ofNat 32 n }
        rw [hv1, hacknr]
        refine .send (hstate.symm.trans (not_not.mp hcon)) (hseg.trans hacknr) hn (hf.congr ?_ hseqnr)
        exact congrArg (· + BitVec.ofNat 32 n) hacknr

theorem input_move (h : c.input net host packet len seg = .ok (c', t, events)) :
    SegmentMove seg (slice packet seg.dataOffset (len - seg.dataOffset)) c.view events c'.view := by
  unfold TcpConnection.input at h
  have hclose : ∀ {c1 : TcpConnection}, c1.view = c.view →
      c1.close.view = { c.view with state := .disconnected, inUse := false, pending := [] } := by
    intro c1 hv
    rw [← hv]
    rfl
  split at h
  · obtain ⟨f, c1, hok, hv, hf⟩ := @reply_is net c host 0 true []
    rw [hok] at h
    cases h
    rw [hclose hv]
    exact .close hf
  · split at h
    · obtain ⟨f, c1, hok, hv, hf⟩ := @reply_is net c host 0 true []
      rw [hok] at h
      cases h
      rw [hclose hv]
      exact .close hf
    · split at h
      · rename_i hfin
        obtain ⟨f, c1, hok, hv, hf⟩ := @reply_is net { c with state := .connected } host 0 false []
        rw [hok] at h
        cases h
        show SegmentMove _ _ _ _ { c1.view with state := .disconnected2 }
        rw [hv]
        exact .answerFin hfin.2 (hf.congr rfl rfl)
      · split at h
        · obtain ⟨f, c1, hok, hv, hf⟩ := @reply_is net c host 0 false []
          rw [hok] at h
          obtain ⟨f', c2, hok', hv', hf'⟩ := @reply_is net { c1 with state := .disconnected2 } host 1 false [.queued f]
          change TcpConnection.reply _ _ _ _ _ [.queued f] = _ at h
          rw [hok'] at h
          cases h
          rw [hv']
          show SegmentMove _ _ _ _ { c1.view with state := .disconnected2 }
          rw [hv]
          have hacknr : c1.outsideAcknr = c.outsideAcknr := congrArg TcpView.outsideAcknr hv
          have hseqnr : c1.outsideSeqnr = c.outsideSeqnr := congrArg TcpView.outsideSeqnr hv
          exact .fin hf (hf'.congr hacknr hseqnr)
        · exact inputData_move h

/-! ## Data from the outside world -/

section
variable {host : RxHost} {before : List TcpEvent}

theorem HostMove.mono {early early' : Prop} {v v' : TcpView} (he : v.state = .tryingToConnect → early → early')
    (h : HostMove early v events v') : HostMove early' v events v' := by
  cases h with
  | quiet => exact .quiet
  | disconnect => exact .disconnect
  | resend hpending hf => exact .resend hpending hf
  | read hpending hd hearly hf => exact .read hpending hd (fun hs => he hs (hearly hs)) hf
  | endOfFile hf => exact .endOfFile hf

theorem connectionreply_is {fresh : Nat → Byte} {data : List Byte} : ∃ f c',
    c.connectionreply net fresh false data false = .ok (c', f) ∧ c'.state = c.state ∧
      c'.view = { c.view with outsideSeqnr := c.outsideSeqnr + BitVec.ofNat 32 data.length } ∧
      f.Is c.view c.outsideSeqnr data := by
  obtain ⟨f, h, hreply⟩ := @TcpConnection.connectionreply_ok net fresh c false false data
  exact ⟨f, _, h, rfl, replied_view _, hreply.data, frameSyn_control hreply.control, hreply.seqnr, hreply.acknr⟩

theorem receive_move (hempty : c.incomingBufLen = 0) (h : c.receive net host before = .ok (c', t, events)) :
    ∃ new, events = before ++ new ∧ HostMove ((host.read.getD []).take 1400 ≠ []) c.view new c'.view := by
  have hpending : c.view.pending = [] := by simp [TcpConnection.view, hempty]
  unfold TcpConnection.receive at h
  generalize (host.read.getD []).take 1400 = buf at h ⊢
  by_cases hbuf : buf = []
  · simp only [hbuf, if_true] at h
    obtain ⟨f, c1, hok, -, hv, hf⟩ := @connectionreply_is net { c with state := .disconnected } (host.fresh 1) []
    rw [hok] at h
    cases h
    refine ⟨[.queued f], rfl, ?_⟩
    show HostMove _ _ _ c1.view
    rw [hv]
    have hend := @HostMove.endOfFile (buf ≠ []) c.view f (hf.congr rfl rfl)
    simpa [TcpConnection.view] using hend
  · simp only [hbuf, if_false] at h
    obtain ⟨f, c1, hok, -, hv, hf⟩ := @connectionreply_is net (c.putIncoming buf) (host.fresh 1) buf
    rw [hok] at h
    cases h
    refine ⟨[.read buf, .queued f], rfl, ?_⟩
    show HostMove _ _ _ c1.view
    rw [hv]
    have hread := @HostMove.read (buf ≠ []) c.view f buf hpending hbuf (fun _ => hbuf) (hf.congr rfl rfl)
    simpa [TcpConnection.view, TcpConnection.putIncoming] using hread

theorem rxData_move (h : c.rxData net host before = .ok (c', t, events)) : ∃ new, events = before ++ new ∧
    HostMove (c.incomingBufLen = 0 ∧ differencePositive host.overflow c.outsideSeqnr c.insideAcknr = false ∧
      1 ≤ host.readable ∧ (host.read.getD []).take 1400 ≠ []) c.view new c'.view := by
  have hnothing : ∀ {r : TcpConnection × BitVec 64 × List TcpEvent}, r = (c, net.timestamp, before) →
      r = (c', t, events) → ∃ new, events = before ++ new ∧ HostMove (c.incomingBufLen = 0 ∧
        differencePositive host.overflow c.outsideSeqnr c.insideAcknr = false ∧ 1 ≤ host.readable ∧
          (host.read.getD []).take 1400 ≠ []) c.view new c'.view := by
    rintro _ rfl he
    cases he
    exact ⟨[], by simp, .quiet⟩
  unfold TcpConnection.rxData at h
  split at h
  · exact hnothing rfl (Except.ok.inj h)
  · split at h
    · rename_i hlen
      unfold TcpConnection.resend at h
      dsimp only at h
      split at h
      · obtain ⟨f, c1, hok, -, hv, hf⟩ := @connectionreply_is net
          { c with incomingBufRounds := 0, outsideSeqnr := c.incomingBufSeqnr } (host.fresh 1)
          (c.incomingBuf.take c.incomingBufLen)
        rw [hok] at h
        cases h
        refine ⟨[.queued f], rfl, ?_⟩
        rw [hv]
        have hpending : c.view.pending ≠ [] := by
          intro hnil
          have hzero := congrArg List.length hnil
          rw [show c.view.pending = c.incomingBuf.take c.incomingBufLen from rfl, List.length_take,
            Nat.min_eq_left c.fits] at hzero
          exact hlen hzero
        exact .resend hpending (hf.congr rfl rfl)
      · cases h
        exact ⟨[], by simp, .quiet⟩
    · rename_i hlen
      rw [not_not] at hlen
      split at h
      · exact hnothing rfl (Except.ok.inj h)
      · rename_i hdiff
        rw [Bool.not_eq_true] at hdiff
        split at h
        · exact hnothing rfl (Except.ok.inj h)
        · obtain ⟨new, rfl, hmove⟩ := receive_move hlen h
          exact ⟨new, rfl, hmove.mono fun _ hbuf => ⟨hlen, hdiff, by omega, hbuf⟩⟩

theorem rxAvail_move (h : c.rxAvail net host = .ok (c', t, events)) :
    RxMove (c.ReadsEarly host) c.view events c'.view := by
  unfold TcpConnection.rxAvail at h
  split at h
  · cases h
    exact .idle
  · rename_i hgo
    simp only [Bool.or_eq_true, Bool.not_eq_true', decide_eq_true_eq, not_or, Bool.not_eq_false, Bool.not_eq_true] at hgo
    obtain ⟨⟨huse, hsock⟩, hdis⟩ := hgo
    split at h
    · cases h
      exact .rx huse hdis .disconnect
    · rename_i herrno
      split at h
      · rename_i hcon
        obtain ⟨f, hok, hreply⟩ := @TcpConnection.connectionreply_ok net (host.fresh 0) { c with state := .connected } true
          false []
        rw [hok] at h
        obtain ⟨new, rfl, hmove⟩ := rxData_move h
        have hv : (TcpConnection.replied { c with state := .connected } true 0).view = c.view.connect := by
          simp [TcpConnection.replied, TcpConnection.view, TcpView.connect]
        change HostMove _ (TcpConnection.replied { c with state := .connected } true 0).view new c'.view at hmove
        rw [hv] at hmove
        refine .connect huse hcon.1 ⟨hreply.data, frameSyn_control hreply.control, hreply.seqnr, hreply.acknr⟩ ?_
        exact hmove.mono fun hs => by cases hs
      · rename_i hcon
        obtain ⟨new, rfl, hmove⟩ := rxData_move h
        refine .rx huse hdis (hmove.mono fun hs hearly => ?_)
        have hother : host.errno = .other := by
          cases he : host.errno with
          | connrefused => exact absurd (.inl he) herrno
          | timedout => exact absurd (.inr he) herrno
          | other => rfl
        have hwritable : host.writable < 1 := by
          by_contra hno
          exact hcon ⟨hs, by omega⟩
        exact ⟨huse, by omega, hs, hother, hwritable, hearly⟩

end

end

end Gxemul.Network
