import Gxemul.Network.NatRuns

/- The stream from the outside world to the guest. Every frame with data carries bytes of
   one stream, at the sequence numbers they have counted from the SYN+ACK, new bytes are
   read when the guest has acknowledged all others, and what it has not acknowledged is in
   `incoming_buf`.

   The sequence numbers are counted from the SYN+ACK. Data that is read from a socket
   before the SYN+ACK is queued has none (`tcpStreams_early`). -/
namespace Gxemul.Network
open Lib (Byte Along Reaches Each)
open Lib.Buf (slice)

/-! ## Histories -/

def readStream (h : List TcpEvent) : List Byte :=
  h.flatMap fun e => match e with
    | .read data => data
    | _ => []

/-- The data of a frame are bytes of the stream. The first one has the number `pos`, and a sequence number that is
greater by `iss + 1`. -/
def Carries (iss : BitVec 32) (stream : List Byte) (f : Frame) : Prop :=
  ∃ pos, frameSeqnr f = iss + 1#32 + BitVec.ofNat 32 pos ∧ pos + (frameData f).length ≤ stream.length ∧
    frameData f = slice stream pos (frameData f).length

/-- The guest has acknowledged the first `n` bytes, when no others had been read. -/
def AckedUpTo (h : List TcpEvent) (n : Nat) : Prop :=
  n = 0 ∨ ∃ before seg payload after iss, h = before ++ .segment seg payload :: after ∧ seg.ack = true ∧
    synSeqnr before = some iss ∧ (readStream before).length = n ∧ seg.acknr = iss + 1#32 + BitVec.ofNat 32 n

/-- What is queued or read next is right: there is one SYN+ACK, frames carry the stream, and new bytes are read when
all others are acknowledged. -/
def OutsideEventRight (h : List TcpEvent) : TcpEvent → Prop
  | .queued f => (frameSyn f = true → synSeqnr h = none ∧ frameData f = []) ∧
      (frameData f ≠ [] → ∃ iss, synSeqnr h = some iss ∧ Carries iss (readStream h) f)
  | .read _ => AckedUpTo h (readStream h).length
  | _ => True

/-- What is not acknowledged is in `incoming_buf`, with its sequence number. -/
def Resendable (v : TcpView) (h : List TcpEvent) : Prop :=
  ∃ n, n ≤ (readStream h).length ∧ AckedUpTo h n ∧ v.pending = (readStream h).drop n ∧
    (v.pending ≠ [] → ∃ iss, synSeqnr h = some iss ∧ v.pendingSeqnr = iss + 1#32 + BitVec.ofNat 32 n)

structure OneStream (v : TcpView) (h : List TcpEvent) : Prop where
  events : Each OutsideEventRight h
  resendable : v.inUse = true → Resendable v h

/-- How far the connection is: before the SYN+ACK nothing has been read, and after it the next sequence number is that
of the next byte. -/
def OutsidePosition (v : TcpView) (h : List TcpEvent) : Prop :=
  match synSeqnr h with
  | none => readStream h = [] ∧ v.state ≠ .connected
  | some iss => v.state ≠ .tryingToConnect ∧ v.outsideSeqnr = iss + 1#32 + BitVec.ofNat 32 (readStream h).length

structure OutsideInv (v : TcpView) (h : List TcpEvent) : Prop where
  stream : OneStream v h
  position : v.inUse = true → OutsidePosition v h ∧ v.state ≠ .unused

def TcpEvent.Plain : TcpEvent → Prop
  | .queued f => frameSyn f = false ∧ frameData f = []
  | .read _ => False
  | _ => True

section
variable {v v' : TcpView} {h events : List TcpEvent} {e : TcpEvent} {seg : Segment} {payload : List Byte} {n : Nat}

theorem readStream_append (h h' : List TcpEvent) : readStream (h ++ h') = readStream h ++ readStream h' :=
  List.flatMap_append

theorem readStream_plain (hp : ∀ e ∈ events, e.Plain) : readStream events = [] := by
  refine List.flatMap_eq_nil_iff.mpr fun e he => ?_
  have hpe := hp e he
  cases e <;> first | rfl | exact hpe.elim

theorem synSeqnr_plain (hp : ∀ e ∈ events, e.Plain) : synSeqnr events = none := by
  refine List.findSome?_eq_none_iff.mpr fun e he => ?_
  have hpe := hp e he
  cases e with
  | queued f => exact if_neg (by simp [hpe.1])
  | _ => rfl

theorem AckedUpTo.append (ha : AckedUpTo h n) (h' : List TcpEvent) : AckedUpTo (h ++ h') n := by
  obtain hn | ⟨before, seg, payload, after, iss, rfl, hrest⟩ := ha
  · exact .inl hn
  · exact .inr ⟨before, seg, payload, after ++ h', iss, by simp, hrest⟩

theorem plain_right (hp : e.Plain) : OutsideEventRight h e := by
  cases e with
  | queued f =>
    refine ⟨fun hsyn => ?_, fun hdata => absurd hp.2 hdata⟩
    rw [hp.1] at hsyn
    cases hsyn
  | read data => exact hp.elim
  | _ => trivial

theorem events_plain (hh : Each OutsideEventRight h) (hp : ∀ e ∈ events, e.Plain) :
    Each OutsideEventRight (h ++ events) :=
  hh.append (K := fun _ => True) trivial fun _ _ e he => ⟨plain_right (hp e he), trivial⟩

/-! ## The moves of the machine -/

theorem SegmentMove.plain (hm : SegmentMove seg payload v events v') : ∀ e ∈ .segment seg payload :: events, e.Plain := by
  cases hm with
  | close hf | answerFin _ hf | answer hf | disconnect hf | send _ _ _ hf =>
    simp [TcpEvent.Plain, hf.syn, hf.data]
  | fin hf hf' => simp [TcpEvent.Plain, hf.syn, hf.data, hf'.syn, hf'.data]
  | quiet => simp [TcpEvent.Plain]

theorem SegmentMove.fields (hm : SegmentMove seg payload v events v') (huse : v'.inUse = true) :
    v.inUse = true ∧ v'.outsideSeqnr = v.outsideSeqnr ∧ v'.pendingSeqnr = v.pendingSeqnr ∧
      (v'.state = v.state ∨ v'.state.isDisconnected = true) ∧
      (v'.pending = v.pending ∨ (v'.pending = [] ∧ seg.ack = true ∧ seg.acknr = v.outsideSeqnr)) := by
  have hack : ((v.acknowledge seg).pending = v.pending ∨
      ((v.acknowledge seg).pending = [] ∧ seg.ack = true ∧ seg.acknr = v.outsideSeqnr)) := by
    unfold TcpView.acknowledge
    split
    · rename_i hc
      exact .inr ⟨rfl, hc⟩
    · exact .inl rfl
  obtain ⟨hseqnr, -, hstate, hinUse, hpseqnr⟩ := @acknowledge_fields seg v
  cases hm with
  | close hf => cases huse
  | answerFin _ hf => exact ⟨huse, rfl, rfl, .inr rfl, .inl rfl⟩
  | fin hf hf' => exact ⟨huse, rfl, rfl, .inr rfl, .inl rfl⟩
  | quiet => exact ⟨hinUse ▸ huse, hseqnr, hpseqnr, .inl hstate, hack⟩
  | answer hf => exact ⟨hinUse ▸ huse, hseqnr, hpseqnr, .inl hstate, hack⟩
  | disconnect hf => exact ⟨hinUse ▸ huse, hseqnr, hpseqnr, .inr rfl, hack⟩
  | send _ _ _ hf => exact ⟨hinUse ▸ huse, hseqnr, hpseqnr, .inl hstate, hack⟩

theorem OutsidePosition.plain {w : TcpView} (hpos : OutsidePosition v h) (hp : ∀ e ∈ events, e.Plain)
    (hseqnr : w.outsideSeqnr = v.outsideSeqnr) (hstate : w.state = v.state ∨ w.state.isDisconnected = true) :
    OutsidePosition w (h ++ events) := by
  unfold OutsidePosition at hpos ⊢
  rw [synSeqnr_append, synSeqnr_plain hp, Option.or_none, readStream_append, readStream_plain hp, List.append_nil]
  have hne : ∀ s : TcpState, s.isDisconnected = false → v.state ≠ s → w.state ≠ s := by
    intro s hs hv hw
    rcases hstate with hsame | hdis
    · exact hv (hsame.symm.trans hw)
    · rw [hw, hs] at hdis
      cases hdis
  cases hsyn : synSeqnr h with
  | none =>
    rw [hsyn] at hpos
    exact ⟨hpos.1, hne .connected rfl hpos.2⟩
  | some iss =>
    rw [hsyn] at hpos
    exact ⟨hne .tryingToConnect rfl hpos.1, hseqnr.trans hpos.2⟩

theorem Resendable.segment (hr : Resendable v h) (hpos : OutsidePosition v h)
    (hm : SegmentMove seg payload v events v') (huse : v'.inUse = true) :
    Resendable v' (h ++ .segment seg payload :: events) := by
  have hplain := hm.plain
  obtain ⟨-, hseqnr, hpseqnr, -, hpending⟩ := hm.fields huse
  obtain ⟨n, hn, hacked, hdrop, hnumber⟩ := hr
  have hstream : readStream (h ++ .segment seg payload :: events) = readStream h := by
    rw [readStream_append, readStream_plain hplain, List.append_nil]
  have hsyn : synSeqnr (h ++ .segment seg payload :: events) = synSeqnr h := by
    rw [synSeqnr_append, synSeqnr_plain hplain, Option.or_none]
  unfold Resendable
  rw [hstream, hsyn]
  rcases hpending with hsame | ⟨hnil, hack, hacknr⟩
  · refine ⟨n, hn, hacked.append _, hsame.trans hdrop, fun hne => ?_⟩
    obtain ⟨iss, hiss, heq⟩ := hnumber (hsame ▸ hne)
    exact ⟨iss, hiss, hpseqnr.trans heq⟩
  · refine ⟨(readStream h).length, Nat.le_refl _, ?_, by rw [hnil, List.drop_length], fun hne => absurd hnil hne⟩
    unfold OutsidePosition at hpos
    cases hs : synSeqnr h with
    | none =>
      rw [hs] at hpos
      exact .inl (by rw [hpos.1, List.length_nil])
    | some iss =>
      rw [hs] at hpos
      exact .inr ⟨h, seg, payload, events, iss, rfl, hack, hs, rfl, hacknr.trans hpos.2⟩

theorem OutsideInv.segment (hi : OutsideInv v h) (huse : v.inUse = true) (hm : SegmentMove seg payload v events v') :
    OutsideInv v' (h ++ .segment seg payload :: events) := by
  obtain ⟨hpos, hunused⟩ := hi.position huse
  refine ⟨⟨events_plain hi.stream.events hm.plain, fun huse' => ?_⟩, fun huse' => ?_⟩
  · exact (hi.stream.resendable huse).segment hpos hm huse'
  · obtain ⟨-, hseqnr, -, hstate, -⟩ := hm.fields huse'
    refine ⟨hpos.plain hm.plain hseqnr hstate, fun hbad => ?_⟩
    rcases hstate with hsame | hdis
    · exact hunused (hsame.symm.trans hbad)
    · rw [hbad] at hdis
      cases hdis

theorem carries_drop {iss : BitVec 32} {stream : List Byte} {f : Frame} {pos : Nat} (hpos : pos ≤ stream.length)
    (hseqnr : frameSeqnr f = iss + 1#32 + BitVec.ofNat 32 pos) (hdata : frameData f = stream.drop pos) :
    Carries iss stream f := by
  refine ⟨pos, hseqnr, ?_, ?_⟩
  · rw [hdata, List.length_drop]
    omega
  · rw [hdata]
    exact (List.take_length (l := stream.drop pos)).symm

theorem OutsideInv.plain {w : TcpView} (hi : OutsideInv v h) (huse : v.inUse = true) (hp : ∀ e ∈ events, e.Plain)
    (hseqnr : w.outsideSeqnr = v.outsideSeqnr) (hpending : w.pending = v.pending)
    (hpseqnr : w.pendingSeqnr = v.pendingSeqnr) (hstate : w.state = v.state ∨ w.state = .disconnected) :
    OutsideInv w (h ++ events) := by
  obtain ⟨hpos, hunused⟩ := hi.position huse
  refine ⟨⟨events_plain hi.stream.events hp, fun _ => ?_⟩, fun _ => ⟨?_, ?_⟩⟩
  · obtain ⟨n, hn, hacked, hdrop, hnumber⟩ := hi.stream.resendable huse
    unfold Resendable
    rw [readStream_append, readStream_plain hp, List.append_nil, synSeqnr_append, synSeqnr_plain hp, Option.or_none,
      hpending, hpseqnr]
    exact ⟨n, hn, hacked.append _, hdrop, hnumber⟩
  · refine hpos.plain hp hseqnr (hstate.imp_right fun hs => ?_)
    rw [hs]
    rfl
  · rcases hstate with hs | hs
    · rwa [hs]
    · rw [hs]
      decide

theorem OutsidePosition.connected (hpos : OutsidePosition v h) (hstate : v.state = .connected) :
    ∃ iss, synSeqnr h = some iss ∧ v.outsideSeqnr = iss + 1#32 + BitVec.ofNat 32 (readStream h).length := by
  unfold OutsidePosition at hpos
  cases hsyn : synSeqnr h with
  | none =>
    rw [hsyn] at hpos
    exact absurd hstate hpos.2
  | some iss =>
    rw [hsyn] at hpos
    exact ⟨iss, rfl, hpos.2⟩

theorem stream_queued {f : Frame} (hsyn : frameSyn f = false) :
    readStream (h ++ [.queued f]) = readStream h ∧ synSeqnr (h ++ [.queued f]) = synSeqnr h := by
  have hnone : synSeqnr [.queued f] = none := List.findSome?_eq_none_iff.mpr fun e he => by
    rw [List.mem_singleton] at he
    subst he
    exact if_neg (by simp [hsyn])
  refine ⟨?_, by rw [synSeqnr_append, hnone, Option.or_none]⟩
  rw [readStream_append]
  exact List.append_nil _

theorem OutsideInv.resend {f : Frame} (hi : OutsideInv v h) (huse : v.inUse = true) (hne : v.pending ≠ [])
    (hf : f.Is v v.pendingSeqnr v.pending) :
    OutsideInv { v with outsideSeqnr := v.pendingSeqnr + BitVec.ofNat 32 v.pending.length } (h ++ [.queued f]) := by
  obtain ⟨hpos, hunused⟩ := hi.position huse
  obtain ⟨n, hn, hacked, hdrop, hnumber⟩ := hi.stream.resendable huse
  obtain ⟨iss, hiss, hpseqnr⟩ := hnumber hne
  obtain ⟨hstream, hsyn⟩ := @stream_queued h f hf.syn
  refine ⟨⟨hi.stream.events.snoc ⟨fun hs => ?_, fun _ => ?_⟩, fun _ => ?_⟩, fun _ => ⟨?_, hunused⟩⟩
  · rw [hf.syn] at hs
    cases hs
  · exact ⟨iss, hiss, carries_drop hn (hf.seqnr.trans hpseqnr) (hf.data.trans hdrop)⟩
  · unfold Resendable
    rw [hstream, hsyn]
    exact ⟨n, hn, hacked.append _, hdrop, hnumber⟩
  · unfold OutsidePosition at hpos ⊢
    rw [hstream, hsyn, hiss]
    rw [hiss] at hpos
    refine ⟨hpos.1, ?_⟩
    have hlen : (readStream h).length = n + v.pending.length := by
      rw [hdrop, List.length_drop]
      omega
    rw [hpseqnr, hlen, BitVec.ofNat_add, BitVec.add_assoc (iss + 1#32)]

theorem OutsideInv.read {f : Frame} {d : List Byte} (hi : OutsideInv v h) (huse : v.inUse = true)
    (hstate : v.state = .connected) (hnil : v.pending = []) (hf : f.Is v v.outsideSeqnr d) :
    OutsideInv { v with
        pending := d
        pendingSeqnr := v.outsideSeqnr
        outsideSeqnr := v.outsideSeqnr + BitVec.ofNat 32 d.length } (h ++ [.read d, .queued f]) := by
  obtain ⟨hpos, hunused⟩ := hi.position huse
  obtain ⟨iss, hiss, hseqnr⟩ := hpos.connected hstate
  obtain ⟨n, hn, hacked, hdrop, -⟩ := hi.stream.resendable huse
  have hall : n = (readStream h).length := by
    have hlen := congrArg List.length (hnil.symm.trans hdrop)
    rw [List.length_nil, List.length_drop] at hlen
    omega
  have hread : readStream (h ++ [.read d]) = readStream h ++ d := by
    rw [readStream_append]
    exact congrArg (readStream h ++ ·) (List.append_nil d)
  have hsynRead : synSeqnr (h ++ [.read d]) = some iss := by
    rw [synSeqnr_append, hiss]
    rfl
  have hdropRead : (readStream h ++ d).drop (readStream h).length = d := List.drop_left
  obtain ⟨hstream, hsyn⟩ := @stream_queued (h ++ [.read d]) f hf.syn
  have hsplit : h ++ [.read d, .queued f] = (h ++ [.read d]) ++ [.queued f] := by simp
  rw [hsplit]
  have hready : AckedUpTo h (readStream h).length := hall ▸ hacked
  have hevents : Each OutsideEventRight (h ++ [.read d]) := by
    apply hi.stream.events.snoc
    exact hready
  refine ⟨⟨hevents.snoc ⟨fun hs => ?_, fun _ => ?_⟩, fun _ => ?_⟩, fun _ => ⟨?_, hunused⟩⟩
  · rw [hf.syn] at hs
    cases hs
  · rw [hread]
    refine ⟨iss, hsynRead, carries_drop ?_ (hf.seqnr.trans hseqnr) (hf.data.trans hdropRead.symm)⟩
    rw [List.length_append]
    omega
  · unfold Resendable
    rw [hstream, hsyn, hread, hsynRead]
    refine ⟨(readStream h).length, ?_, ?_, hdropRead.symm, fun _ => ⟨iss, rfl, hseqnr⟩⟩
    · rw [List.length_append]
      omega
    · exact (hready.append _).append _
  · unfold OutsidePosition
    rw [hstream, hsyn, hread, hsynRead]
    refine ⟨fun hs => absurd (hstate.symm.trans hs) (by decide), ?_⟩
    rw [hseqnr, List.length_append, BitVec.ofNat_add, BitVec.add_assoc (iss + 1#32)]

theorem OutsideInv.hostMove (hi : OutsideInv v h) (huse : v.inUse = true) (hstate : v.state.isDisconnected = false)
    (hm : HostMove False v events v') : OutsideInv v' (h ++ events) := by
  have hno : ∀ e ∈ ([] : List TcpEvent), e.Plain := fun e he => by cases he
  cases hm with
  | quiet => exact hi.plain huse hno rfl rfl rfl (.inl rfl)
  | disconnect => exact hi.plain huse hno rfl rfl rfl (.inr rfl)
  | resend hne hf => exact hi.resend huse hne hf
  | read hnil _ hearly hf =>
    have hunused := (hi.position huse).2
    refine hi.read huse ?_ hnil hf
    cases hs : v.state with
    | unused => exact absurd hs hunused
    | tryingToConnect => exact (hearly hs).elim
    | connected => rfl
    | disconnected | disconnected2 =>
      rw [hs] at hstate
      cases hstate
  | endOfFile hf =>
    refine hi.plain huse (fun e he => ?_) rfl rfl rfl (.inr rfl)
    rw [List.mem_singleton] at he
    subst he
    exact ⟨hf.syn, hf.data⟩

theorem OutsideInv.connect {f : Frame} (hi : OutsideInv v h) (huse : v.inUse = true) (hstate : v.state = .tryingToConnect)
    (hf : f.IsSyn v) : OutsideInv v.connect (h ++ [.queued f]) := by
  obtain ⟨hpos, -⟩ := hi.position huse
  unfold OutsidePosition at hpos
  cases hsyn : synSeqnr h with
  | some iss =>
    rw [hsyn] at hpos
    exact absurd hstate hpos.1
  | none =>
    rw [hsyn] at hpos
    have hstream : readStream (h ++ [.queued f]) = [] := by
      rw [readStream_append, hpos.1]
      rfl
    have hfirst : synSeqnr (h ++ [.queued f]) = some v.outsideSeqnr := by
      rw [synSeqnr_append, hsyn, Option.none_or, ← hf.seqnr]
      simp [synSeqnr, hf.syn]
    obtain ⟨n, -, -, hdrop, -⟩ := hi.stream.resendable huse
    have hnil : v.connect.pending = [] := by
      show v.pending = []
      rw [hdrop, hpos.1, List.drop_nil]
    refine ⟨⟨hi.stream.events.snoc ⟨fun _ => ⟨hsyn, hf.data⟩, fun hdata => absurd hf.data hdata⟩, fun _ => ?_⟩,
      fun _ => ⟨?_, fun hs : TcpState.connected = .unused => nomatch hs⟩⟩
    · refine ⟨0, Nat.zero_le _, .inl rfl, ?_, fun hne => absurd hnil hne⟩
      rw [hnil, hstream]
      rfl
    · unfold OutsidePosition
      rw [hfirst, hstream]
      refine ⟨fun hs : TcpState.connected = .tryingToConnect => (nomatch hs), ?_⟩
      show v.outsideSeqnr + 1#32 = v.outsideSeqnr + 1#32 + BitVec.ofNat 32 0
      simp

theorem OutsideInv.rxMove (hi : OutsideInv v h) (hm : RxMove False v events v') : OutsideInv v' (h ++ events) := by
  cases hm with
  | idle => rwa [List.append_nil]
  | rx huse hstate hhost => exact hi.hostMove huse hstate hhost
  | @connect f events _ huse hstate hf hhost =>
    have hrest := (hi.connect huse hstate hf).hostMove huse rfl hhost
    rwa [List.append_assoc] at hrest

theorem outsideInv_open (hstate : v.state = .tryingToConnect) (hpending : v.pending = []) : OutsideInv v [] := by
  refine ⟨⟨.nil, fun _ => ?_⟩, fun _ => ⟨⟨rfl, ?_⟩, ?_⟩⟩
  · exact ⟨0, Nat.le_refl 0, .inl rfl, hpending, fun hne => absurd hpending hne⟩
  · rw [hstate]
    decide
  · rw [hstate]
    decide

theorem OutsideInv.free {w : TcpView} (hi : OutsideInv v h) (hw : w.inUse = false) : OutsideInv w h := by
  refine ⟨⟨hi.stream.events, fun hw' => ?_⟩, fun hw' => ?_⟩ <;> rw [hw] at hw' <;> cases hw'

end

/-! ## Runs -/

/-- One byte stream for every connection, in every state of a run in which no round of net_tcp_rx_avail() reads data
from a connection that is not established. -/
theorem tcpStreams_one (gw : Gateway) (ops : List NatOp)
    (hlate : Along NatRun.step (fun s op => ¬ s.ReadsEarly op) ops (.start gw)) :
    Reaches NatRun.step (fun s => ∀ i, OneStream (s.view i) (history i s.log)) ops (.start gw) := by
  have hinv := @reaches_tcp gw False OutsideInv (fun s op => ¬ s.ReadsEarly op) (fun s op hg he => hg he)
    ((outsideInv_open (v := { TcpConnection.zero.view with state := .tryingToConnect }) rfl rfl).free rfl)
    (fun v v' h hi _ hv' => hi.free hv')
    (fun v seg payload events v' huse hstate hpending hm => (outsideInv_open hstate hpending).segment huse hm)
    (fun v h seg payload events v' hi huse hm => hi.segment huse hm)
    (fun v h events v' hi hm => hi.rxMove hm) ops hlate
  exact hinv.mono fun s hs i => (hs i).stream

/-- A connection that is established, acknowledged, and reads a byte. -/
def lateOps : List NatOp :=
  [.tx (some 0) openHost guestSyn, .tcpRxAvail (some 0) fun _ => rxHost 1 0 none, .tx (some 0) openHost guestAck,
    .tcpRxAvail (some 0) fun _ => rxHost 1 1 (some [0x41#8])]

theorem tcpStreams_late :
    (∃ s, Lib.runOps NatRun.step lateOps (.start natGateway) = .ok s ∧ readStream (history 99 s.log) = [0x41#8]) ∧
      Reaches NatRun.step (fun s => ∀ i, OneStream (s.view i) (history i s.log)) lateOps (.start natGateway) := by
  refine ⟨Lib.eval_eq_ok _ (fun s : NatRun => readStream (history 99 s.log)) [0x41#8] (by decide +kernel), ?_⟩
  have hlate : ∀ (s : NatRun) readable read, ¬ s.ReadsEarly (.tcpRxAvail (some 0) fun _ => rxHost 1 readable read) := by
    rintro s readable read ⟨i, -, -, -, -, hwritable, -⟩
    change (1 : Int) < 1 at hwritable
    omega
  exact tcpStreams_one natGateway lateOps ⟨fun h => h, fun s _ => ⟨hlate s 0 none, fun s _ => ⟨fun h => h, fun s _ =>
    ⟨hlate s 1 _, fun _ _ => trivial⟩⟩⟩⟩

/-- The connection is established between the two calls of select(), and a byte is read before the SYN+ACK. -/
def earlyOps : List NatOp :=
  [.tx (some 0) openHost guestSyn, .tcpRxAvail (some 0) fun _ => rxHost 0 1 (some [0x41#8]),
    .tcpRxAvail (some 0) fun _ => rxHost 1 0 none]

def TcpEvent.frame : TcpEvent → Option Frame
  | .queued f => some f
  | _ => none

/-- The first byte of the stream has the sequence number 0, and the SYN+ACK, which is queued later, the number 1. -/
theorem tcpStreams_early : ∃ s before f after, Lib.runOps NatRun.step earlyOps (.start natGateway) = .ok s ∧
    history 99 s.log = before ++ .queued f :: after ∧ frameSeqnr f = 0#32 ∧ frameData f = [0x41#8] ∧
    readStream (history 99 s.log) = [0x41#8] ∧ synSeqnr (history 99 s.log) = some 1#32 ∧ ¬ Carries 1#32 [0x41#8] f ∧
    ¬ OneStream (s.view 99) (history 99 s.log) := by
  obtain ⟨s, hrun, heval⟩ := Lib.eval_eq_ok (Lib.runOps NatRun.step earlyOps (.start natGateway))
    (fun s : NatRun => (synSeqnr ((history 99 s.log).take 2), readStream (history 99 s.log), synSeqnr (history 99 s.log),
      ((history 99 s.log)[2]?.bind TcpEvent.frame).map fun f => (frameSeqnr f, frameData f)))
    (none, [0x41#8], some 1#32, some (0#32, [0x41#8])) (by decide +kernel)
  simp only [Prod.mk.injEq, Option.map_eq_some_iff, Option.bind_eq_some_iff] at heval
  obtain ⟨hbefore, hread, hsyn, f, ⟨e, he, hf⟩, hseqnr, hdata⟩ := heval
  obtain rfl : e = .queued f := by
    cases e <;> cases hf
    rfl
  have hsplit : history 99 s.log = (history 99 s.log).take 2 ++ .queued f :: (history 99 s.log).drop 3 := by
    obtain ⟨hlt, hget⟩ := List.getElem?_eq_some_iff.mp he
    rw [← hget, List.getElem_cons_drop, List.take_append_drop]
  refine ⟨s, _, f, _, hrun, hsplit, hseqnr, hdata, hread, hsyn, ?_, fun hone => ?_⟩
  · rintro ⟨pos, hnumber, hlen, -⟩
    rw [hdata] at hlen
    obtain rfl : pos = 0 := by
      simp only [List.length_cons, List.length_nil] at hlen
      omega
    rw [hseqnr] at hnumber
    exact absurd hnumber (by decide)
  · obtain ⟨iss, hiss, -⟩ := (hone.events _ _ _ hsplit).2 (by rw [hdata]; simp)
    rw [hbefore] at hiss
    cases hiss

end Gxemul.Network
