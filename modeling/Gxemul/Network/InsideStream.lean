import Gxemul.Network.NatRuns

/- The stream from the guest to the outside world. What is written to the socket is the
   start of the guest's stream, whatever segments the guest sends again and whatever the
   host takes of them, and from the SYN+ACK on the next number that is acknowledged is that
   of the next byte.

   A segment names its first byte by 32 bits. That is enough as long as the guest sends
   no byte that is 2^32 bytes or more away from the next one (`seqnr_unique`). -/
namespace Gxemul.Network
open Lib (Byte Along Reaches Each)

/-! ## Histories -/

def isn : List TcpEvent → BitVec 32
  | .segment seg _ :: _ => seg.seqnr
  | _ => 0#32

def written (h : List TcpEvent) : List Byte :=
  h.flatMap fun e => match e with
    | .wrote data => data
    | _ => []

def nextAcknr (h : List TcpEvent) : BitVec 32 := isn h + 1#32 + BitVec.ofNat 32 (written h).length

/-- The data of a segment are bytes of the stream, from the one with the number `pos` on, which is less than 2^32 away
from the next one. -/
def Carried (stream : List Byte) (iss : BitVec 32) (h : List TcpEvent) (seg : Segment) (payload : List Byte) : Prop :=
  ∃ pos, pos < stream.length ∧ seg.seqnr = iss + 1#32 + BitVec.ofNat 32 pos ∧ payload <+: stream.drop pos ∧
    pos < (written h).length + 2 ^ 32 ∧ (written h).length < pos + 2 ^ 32

/-- A segment after the SYN comes after the SYN+ACK, and its data are bytes of the stream. -/
def GuestEventRight (stream : List Byte) (iss : BitVec 32) (h : List TcpEvent) : TcpEvent → Prop
  | .segment seg payload =>
    h = [] ∨ ((synSeqnr h).isSome = true ∧ (payload = [] ∨ Carried stream iss h seg payload))
  | _ => True

instance (stream : List Byte) (iss : BitVec 32) (h : List TcpEvent) (seg : Segment) (payload : List Byte) :
    Decidable (Carried stream iss h seg payload) :=
  inferInstanceAs (Decidable (∃ pos, pos < stream.length ∧ _))

instance (stream : List Byte) (iss : BitVec 32) (h : List TcpEvent) : ∀ e, Decidable (GuestEventRight stream iss h e)
  | .segment seg payload =>
    inferInstanceAs (Decidable (h = [] ∨ ((synSeqnr h).isSome = true ∧ (payload = [] ∨ Carried stream iss h seg payload))))
  | .opened | .queued _ | .read _ | .wrote _ | .closed => isTrue trivial

def GuestRight (stream : List Byte) (h : List TcpEvent) : Prop := Each (GuestEventRight stream (isn h)) h

instance (stream : List Byte) (h : List TcpEvent) : Decidable (GuestRight stream h) :=
  inferInstanceAs (Decidable (Each _ h))

/-- From the SYN+ACK on, a frame acknowledges the bytes that have been written. -/
def AckRight (iss : BitVec 32) (h : List TcpEvent) : TcpEvent → Prop
  | .queued f => (synSeqnr (h ++ [.queued f])).isSome = true →
      frameAcknr f = iss + 1#32 + BitVec.ofNat 32 (written h).length
  | _ => True

structure GuestStream (stream : List Byte) (v : TcpView) (h : List TcpEvent) : Prop where
  start : written h <+: stream
  acks : Each (AckRight (isn h)) h
  position : v.inUse = true → (synSeqnr h).isSome = true → v.outsideAcknr = nextAcknr h

/-- Before the SYN+ACK nothing is written, and the SYN is the last segment. -/
structure BeforeSyn (v : TcpView) (h : List TcpEvent) : Prop where
  state : v.state ≠ .connected
  nothing : written h = []
  syn : v.state = .tryingToConnect → v.insideSeqnr = isn h

/-- The invariant for a guest that sends `stream`. -/
structure InsideInv (stream : List Byte) (v : TcpView) (h : List TcpEvent) : Prop where
  stream : GuestStream stream v h
  opened : v.inUse = true → h ≠ []
  before : v.inUse = true → synSeqnr h = none → BeforeSyn v h
  after : v.inUse = true → (synSeqnr h).isSome = true → v.state ≠ .tryingToConnect

section
variable {v v' w : TcpView} {h events : List TcpEvent} {e : TcpEvent} {seg : Segment} {payload stream : List Byte}
  {early : Prop}

theorem written_append (h h' : List TcpEvent) : written (h ++ h') = written h ++ written h' := List.flatMap_append

theorem isn_append (hne : h ≠ []) (h' : List TcpEvent) : isn (h ++ h') = isn h := by
  cases h with
  | nil => exact absurd rfl hne
  | cons e h => cases e <;> rfl

theorem GuestRight.of_append (hg : GuestRight stream (h ++ events)) : GuestRight stream h := by
  by_cases hne : h = []
  · rw [hne]
    exact Each.nil
  · unfold GuestRight at hg
    rw [isn_append hne] at hg
    exact Each.of_append hg

theorem seqnr_unique {iss : BitVec 32} {pos n : Nat}
    (h : iss + 1#32 + BitVec.ofNat 32 pos = iss + 1#32 + BitVec.ofNat 32 n) (hlt : pos < n + 2 ^ 32)
    (hgt : n < pos + 2 ^ 32) : pos = n := by
  have hmod := congrArg BitVec.toNat (BitVec.add_right_inj (iss + 1#32) |>.mp h)
  simp only [BitVec.toNat_ofNat] at hmod
  omega

/-- An event that writes nothing and is not the SYN+ACK. A frame has the number that is acknowledged next. -/
def TcpEvent.Answers (v : TcpView) : TcpEvent → Prop
  | .queued f => frameSyn f = false ∧ frameAcknr f = v.outsideAcknr
  | .wrote _ => False
  | _ => True

theorem Frame.Is.answers {f : Frame} {seqnr : BitVec 32} {data : List Byte} (hf : f.Is v seqnr data) :
    (TcpEvent.queued f).Answers v := ⟨hf.syn, hf.acknr⟩

theorem answers_keep (ha : e.Answers v) : written (h ++ [e]) = written h ∧ synSeqnr (h ++ [e]) = synSeqnr h := by
  rw [written_append, synSeqnr_append]
  cases e with
  | queued f => simp [written, synSeqnr, ha.1]
  | wrote data => exact ha.elim
  | opened | segment seg payload | read data | closed => simp [written, synSeqnr]

theorem answers_keep_all (ha : ∀ e ∈ events, e.Answers v) :
    written (h ++ events) = written h ∧ synSeqnr (h ++ events) = synSeqnr h := by
  induction events generalizing h with
  | nil => simp
  | cons e events ih =>
    obtain ⟨hwritten, hsyn⟩ := @answers_keep v h e (ha e List.mem_cons_self)
    obtain ⟨hwritten', hsyn'⟩ := @ih (h ++ [e]) fun e' he' => ha e' (List.mem_cons_of_mem _ he')
    rw [List.append_assoc, List.singleton_append] at hwritten' hsyn'
    exact ⟨hwritten'.trans hwritten, hsyn'.trans hsyn⟩

theorem answers_acks {iss : BitVec 32} (hacks : Each (AckRight iss) h)
    (hpos : (synSeqnr h).isSome = true → v.outsideAcknr = iss + 1#32 + BitVec.ofNat 32 (written h).length)
    (ha : ∀ e ∈ events, e.Answers v) : Each (AckRight iss) (h ++ events) := by
  refine hacks.append (K := fun h => (synSeqnr h).isSome = true → v.outsideAcknr =
    iss + 1#32 + BitVec.ofNat 32 (written h).length) hpos fun h hK e he => ?_
  obtain ⟨hwritten, hsyn⟩ := @answers_keep v h e (ha e he)
  refine ⟨?_, by rwa [hwritten, hsyn]⟩
  cases e with
  | queued f =>
    intro hsome
    rw [hsyn] at hsome
    exact (ha _ he).2.trans (hK hsome)
  | opened | segment seg payload | read data | wrote data | closed => trivial

theorem InsideInv.answers (hi : InsideInv stream v h) (huse : v.inUse = true) (ha : ∀ e ∈ events, e.Answers v)
    (hacknr : w.outsideAcknr = v.outsideAcknr) (hstate : w.state = v.state ∨ w.state.isDisconnected = true)
    (hseqnr : w.state = .tryingToConnect → w.insideSeqnr = v.insideSeqnr) : InsideInv stream w (h ++ events) := by
  have hne := hi.opened huse
  obtain ⟨hwritten, hsyn⟩ := @answers_keep_all v h events ha
  have hpos := hi.stream.position huse
  have hnot : ∀ s : TcpState, s.isDisconnected = false → v.state ≠ s → w.state ≠ s := by
    intro s hs hv hw
    rcases hstate with hsame | hdis
    · exact hv (hsame.symm.trans hw)
    · rw [hw, hs] at hdis
      cases hdis
  refine ⟨⟨?_, ?_, fun _ hsome => ?_⟩, fun _ hnil => hne (List.append_eq_nil_iff.mp hnil).1, fun _ hnone => ?_,
    fun _ hsome => ?_⟩
  · rw [hwritten]
    exact hi.stream.start
  · rw [isn_append hne]
    exact answers_acks hi.stream.acks hpos ha
  · rw [hsyn] at hsome
    unfold nextAcknr
    rw [isn_append hne, hwritten]
    exact hacknr.trans (hpos hsome)
  · rw [hsyn] at hnone
    obtain ⟨hcon, hnothing, hlast⟩ := hi.before huse hnone
    refine ⟨hnot .connected rfl hcon, hwritten.trans hnothing, fun htry => ?_⟩
    rw [isn_append hne]
    have hsame : w.state = v.state := hstate.resolve_right fun hdis => by
      rw [htry] at hdis
      cases hdis
    exact (hseqnr htry).trans (hlast (hsame.symm.trans htry))
  · rw [hsyn] at hsome
    exact hnot .tryingToConnect rfl (hi.after huse hsome)

theorem InsideInv.write {data : List Byte} (hi : InsideInv stream v h) (huse : v.inUse = true)
    (hsome : (synSeqnr h).isSome = true) (hdata : written h ++ data <+: stream)
    (hw : w = { v with outsideAcknr := v.outsideAcknr + BitVec.ofNat 32 data.length }) :
    InsideInv stream w (h ++ [.wrote data]) := by
  subst hw
  have hne := hi.opened huse
  have hwritten : written (h ++ [.wrote data]) = written h ++ data := by
    rw [written_append]
    exact congrArg (written h ++ ·) (List.append_nil data)
  have hsyn : synSeqnr (h ++ [.wrote data]) = synSeqnr h := by
    rw [synSeqnr_append]
    exact Option.or_none
  refine ⟨⟨hwritten ▸ hdata, ?_, fun _ _ => ?_⟩, fun _ hnil => hne (List.append_eq_nil_iff.mp hnil).1,
    fun _ hnone => ?_, fun _ _ => hi.after huse hsome⟩
  · rw [isn_append hne]
    exact hi.stream.acks.snoc trivial
  · unfold nextAcknr
    rw [isn_append hne, hwritten, List.length_append, BitVec.ofNat_add, hi.stream.position huse hsome, nextAcknr]
    exact BitVec.add_assoc _ _ _
  · rw [hsyn] at hnone
    rw [hnone] at hsome
    cases hsome

theorem InsideInv.segment (hi : InsideInv stream v h) (huse : v.inUse = true) (hm : SegmentMove seg payload v events v')
    (hguest : GuestEventRight stream (isn h) h (.segment seg payload)) :
    InsideInv stream v' (h ++ .segment seg payload :: events) := by
  obtain ⟨hsome, hbytes⟩ := hguest.resolve_left (hi.opened huse)
  obtain ⟨-, hacknr, hstate, hinUse, -⟩ := @acknowledge_fields seg v
  have hconnected : v.state ≠ .tryingToConnect := hi.after huse hsome
  have hfirst : ∀ {evs}, (∀ e ∈ evs, TcpEvent.Answers v e) → ∀ e ∈ .segment seg payload :: evs, e.Answers v := by
    intro evs ha e he
    obtain rfl | he := List.mem_cons.mp he
    · trivial
    · exact ha e he
  cases hm with
  | close hf =>
    refine hi.answers huse (hfirst ?_) rfl (.inr rfl) fun hs => nomatch hs
    simpa [TcpEvent.Answers] using hf.answers
  | answerFin _ hf =>
    refine hi.answers huse (hfirst ?_) rfl (.inr rfl) fun hs => nomatch hs
    simpa using hf.answers
  | fin hf hf' =>
    refine hi.answers huse (hfirst ?_) rfl (.inr rfl) fun hs => nomatch hs
    simpa using ⟨hf.answers, hf'.answers⟩
  | quiet => exact hi.answers huse (hfirst (by simp)) hacknr (.inl hstate) fun hs => absurd (hstate.symm.trans hs) hconnected
  | answer hf =>
    refine hi.answers huse (hfirst ?_) hacknr (.inl hstate) fun hs => absurd (hstate.symm.trans hs) hconnected
    simpa using hf.answers
  | disconnect hf =>
    refine hi.answers huse (hfirst ?_) hacknr (.inr rfl) fun hs => nomatch hs
    simpa using hf.answers
  | @send f n hcon hseqnr hn hf =>
    -- the segment, then the bytes that the socket takes, then the ACK of these
    have hi1 : InsideInv stream { v.acknowledge seg with insideSeqnr := seg.seqnr } (h ++ [.segment seg payload]) :=
      hi.answers huse (hfirst (by simp)) hacknr (.inl hstate) fun hs => absurd (hstate.symm.trans hs) hconnected
    obtain ⟨hwritten, hsyn⟩ := @answers_keep v h (.segment seg payload) trivial
    have hnext : written h ++ payload.take n <+: stream := by
      obtain hempty | ⟨pos, -, hnumber, hpayload, hlt, hgt⟩ := hbytes
      · rw [hempty, List.take_nil, List.append_nil]
        exact hi.stream.start
      · rw [hseqnr, hi.stream.position huse hsome] at hnumber
        obtain rfl := seqnr_unique hnumber.symm hlt hgt
        obtain ⟨rest, hrest⟩ := hi.stream.start
        rw [← hrest, List.drop_left] at hpayload
        rw [← hrest]
        exact (List.prefix_append_right_inj _).mpr ((List.take_prefix n payload).trans hpayload)
    have hlen : (payload.take n).length = n := List.length_take_of_le hn
    have hi2 := hi1.write (hinUse.trans huse) (hsyn.symm ▸ hsome) (hwritten.symm ▸ hnext) rfl
    have hqueued : ∀ e ∈ [TcpEvent.queued f], e.Answers { v.acknowledge seg with
        insideSeqnr := seg.seqnr
        outsideAcknr := (v.acknowledge seg).outsideAcknr + BitVec.ofNat 32 (payload.take n).length } := by
      rw [hlen, hacknr]
      simpa [TcpEvent.Answers] using ⟨hf.syn, hf.acknr⟩
    have hi3 := hi2.answers (hinUse.trans huse) hqueued rfl (.inl rfl) fun _ => rfl
    have hsplit : h ++ [.segment seg payload] ++ [.wrote (payload.take n)] ++ [.queued f] =
        h ++ .segment seg payload :: [.wrote (payload.take n), .queued f] := by simp
    rw [hsplit, hlen, hacknr] at hi3
    exact hi3

theorem InsideInv.hostMove (hi : InsideInv stream v h) (huse : v.inUse = true) (hm : HostMove early v events v') :
    InsideInv stream v' (h ++ events) := by
  cases hm with
  | quiet => exact hi.answers huse (by simp) rfl (.inl rfl) fun _ => rfl
  | disconnect => exact hi.answers huse (by simp) rfl (.inr rfl) fun _ => rfl
  | resend _ hf =>
    refine hi.answers huse ?_ rfl (.inl rfl) fun _ => rfl
    simpa using hf.answers
  | read _ _ _ hf =>
    refine hi.answers huse ?_ rfl (.inl rfl) fun _ => rfl
    simpa [TcpEvent.Answers] using hf.answers
  | endOfFile hf =>
    refine hi.answers huse ?_ rfl (.inr rfl) fun _ => rfl
    simpa using hf.answers

theorem InsideInv.connect {f : Frame} (hi : InsideInv stream v h) (huse : v.inUse = true)
    (hstate : v.state = .tryingToConnect) (hf : f.IsSyn v) : InsideInv stream v.connect (h ++ [.queued f]) := by
  have hne := hi.opened huse
  have hnone : synSeqnr h = none := by
    by_contra hsome
    exact hi.after huse (Option.isSome_iff_ne_none.mpr hsome) hstate
  obtain ⟨-, hnothing, hlast⟩ := hi.before huse hnone
  have hsome : (synSeqnr (h ++ [.queued f])).isSome = true := by
    rw [synSeqnr_append, hnone]
    simp [synSeqnr, hf.syn]
  have hwritten : written (h ++ [.queued f]) = [] := by
    rw [written_append, hnothing]
    rfl
  refine ⟨⟨?_, ?_, fun _ _ => ?_⟩, fun _ hnil => hne (List.append_eq_nil_iff.mp hnil).1, fun _ hnone' => ?_,
    fun _ _ hs => nomatch hs⟩
  · rw [hwritten]
    exact List.nil_prefix
  · rw [isn_append hne]
    refine hi.stream.acks.snoc fun _ => ?_
    rw [hf.acknr, hlast hstate, hnothing]
    exact (BitVec.add_zero _).symm
  · show v.insideSeqnr + 1#32 = _
    unfold nextAcknr
    rw [isn_append hne, hwritten, hlast hstate]
    exact (BitVec.add_zero _).symm
  · rw [hnone'] at hsome
    cases hsome

theorem InsideInv.rxMove (hi : InsideInv stream v h) (hm : RxMove early v events v') : InsideInv stream v' (h ++ events) := by
  cases hm with
  | idle => rwa [List.append_nil]
  | rx huse _ hhost => exact hi.hostMove huse hhost
  | @connect f events _ huse hstate hf hhost =>
    have hrest := (hi.connect huse hstate hf).hostMove huse hhost
    rwa [List.append_assoc] at hrest

theorem InsideInv.free (hi : InsideInv stream v h) (hw : w.inUse = false) : InsideInv stream w h := by
  have hno : ∀ {P : Prop}, w.inUse = true → P := by
    intro P hw'
    rw [hw] at hw'
    cases hw'
  exact ⟨⟨hi.stream.start, hi.stream.acks, hno⟩, hno, hno, hno⟩

theorem insideInv_open (hstate : v.state = .tryingToConnect) (hm : SegmentMove seg payload v events v') :
    InsideInv stream v' (.segment seg payload :: events) := by
  have ha : ∀ e ∈ events, e.Answers v := by
    cases hm with
    | close hf => simpa [TcpEvent.Answers] using hf.answers
    | fin hf hf' => simpa using ⟨hf.answers, hf'.answers⟩
    | quiet => simp
    | answerFin _ hf | answer hf | disconnect hf => simpa using hf.answers
    | send hcon =>
      rw [hstate] at hcon
      cases hcon
  have hkeep : written (.segment seg payload :: events) = [] ∧ synSeqnr (.segment seg payload :: events) = none :=
    @answers_keep_all v [] (.segment seg payload :: events) (List.forall_mem_cons.mpr ⟨trivial, ha⟩)
  obtain ⟨hwritten, hsyn⟩ := hkeep
  have hlast : v'.state ≠ .connected ∧ (v'.state = .tryingToConnect → v'.insideSeqnr = seg.seqnr) := by
    obtain ⟨-, -, hsame, -⟩ := @acknowledge_fields seg v
    cases hm with
    | quiet | answer =>
      refine ⟨fun hcon => ?_, fun _ => rfl⟩
      have htry := hsame.trans hstate
      rw [htry] at hcon
      cases hcon
    | close | answerFin | fin | disconnect => exact ⟨fun hs => (nomatch hs), fun hs => (nomatch hs)⟩
    | send hcon =>
      rw [hstate] at hcon
      cases hcon
  refine ⟨⟨?_, ?_, fun _ hsome => ?_⟩, fun _ hnil => (nomatch hnil), fun _ _ => ⟨hlast.1, hwritten, hlast.2⟩,
    fun _ hsome => ?_⟩
  · rw [hwritten]
    exact List.nil_prefix
  · exact @answers_acks v [] (.segment seg payload :: events) seg.seqnr .nil (fun hsome => nomatch hsome)
      (List.forall_mem_cons.mpr ⟨trivial, ha⟩)
  · rw [hsyn] at hsome
    cases hsome
  · rw [hsyn] at hsome
    cases hsome

end

/-! ## Runs -/

theorem insideInv_run (gw : Gateway) (ops : List NatOp) :
    Reaches NatRun.step (fun s => ∀ i stream, GuestRight stream (history i s.log) →
      InsideInv stream (s.view i) (history i s.log)) ops (.start gw) := by
  have hzero : ∀ stream, InsideInv stream TcpConnection.zero.view [] := fun stream =>
    ⟨⟨List.nil_prefix, .nil, fun huse => (nomatch huse)⟩, fun huse => (nomatch huse), fun huse => (nomatch huse),
      fun huse => (nomatch huse)⟩
  refine @reaches_tcp gw True (fun v h => ∀ stream, GuestRight stream h → InsideInv stream v h)
    (fun _ _ => True) (fun _ _ _ _ => trivial) (fun stream _ => hzero stream)
    (fun v v' h hi _ hv' stream hg => (hi stream hg).free hv')
    (fun v seg payload events v' _ hstate _ hm stream _ => insideInv_open hstate hm)
    (fun v h seg payload events v' hi huse hm stream hg => ?_) (fun v h events v' hi hm stream hg => ?_) ops
    (Lib.along_true ops _)
  · have hi' := hi stream hg.of_append
    refine hi'.segment huse hm ?_
    have hright := hg h (.segment seg payload) events rfl
    rwa [isn_append (hi'.opened huse)] at hright
  · exact (hi stream hg.of_append).rxMove hm

/-- For every connection: if the guest sends a stream, that is what the outside world gets. -/
theorem tcpStreams_inside (gw : Gateway) (ops : List NatOp) :
    Reaches NatRun.step (fun s => ∀ i stream, GuestRight stream (history i s.log) →
      GuestStream stream (s.view i) (history i s.log)) ops (.start gw) :=
  (insideInv_run gw ops).mono fun _ hs i stream hg => (hs i stream hg).stream

def takingHost (n : Nat) : Host := { openHost with write := .taken n }

/-- The guest sends "abc": "ab", of which a byte is taken, "bc", which is sent again, and "ab" again. -/
def insideOps : List NatOp :=
  [.tx (some 0) openHost guestSyn, .tcpRxAvail (some 0) fun _ => rxHost 1 0 none, .tx (some 0) openHost guestAck,
    .tx (some 0) (takingHost 1) (guestFrame 17 1 0x10#8 [11#8, 251#8] [0x61#8, 0x62#8]),
    .tx (some 0) openHost (guestFrame 18 1 0x10#8 [10#8, 249#8] [0x62#8, 0x63#8]),
    .tx (some 0) openHost (guestFrame 18 1 0x10#8 [10#8, 249#8] [0x62#8, 0x63#8]),
    .tx (some 0) openHost (guestFrame 17 1 0x10#8 [11#8, 251#8] [0x61#8, 0x62#8])]

theorem tcpStreams_inside_abc : ∃ s, Lib.runOps NatRun.step insideOps (.start natGateway) = .ok s ∧
    written (history 99 s.log) = [0x61#8, 0x62#8, 0x63#8] ∧
    GuestStream [0x61#8, 0x62#8, 0x63#8] (s.view 99) (history 99 s.log) := by
  obtain ⟨s, hrun, heval⟩ := Lib.eval_eq_ok (Lib.runOps NatRun.step insideOps (.start natGateway))
    (fun s : NatRun => (decide (GuestRight [0x61#8, 0x62#8, 0x63#8] (history 99 s.log)), written (history 99 s.log)))
    (true, [0x61#8, 0x62#8, 0x63#8]) (by decide +kernel)
  obtain ⟨hguest, hwritten⟩ := Prod.mk.inj heval
  exact ⟨s, hrun, hwritten, (tcpStreams_inside natGateway insideOps).last hrun 99 _ (of_decide_eq_true hguest)⟩

/-- Before the SYN+ACK, nothing is acknowledged. -/
theorem tcpStreams_inside_beforeSyn : ∃ s,
    Lib.runOps NatRun.step [.tx (some 0) openHost guestSyn] (.start natGateway) = .ok s ∧
      GuestRight [0x61#8] (history 99 s.log) ∧ (s.view 99).inUse = true ∧ (s.view 99).outsideAcknr = 0#32 ∧
      nextAcknr (history 99 s.log) = 17#32 := by
  obtain ⟨s, hrun, heval⟩ := Lib.eval_eq_ok
    (Lib.runOps NatRun.step [.tx (some 0) openHost guestSyn] (.start natGateway))
    (fun s : NatRun => (decide (GuestRight [0x61#8] (history 99 s.log)), (s.view 99).inUse, (s.view 99).outsideAcknr,
      nextAcknr (history 99 s.log))) (true, true, 0#32, 17#32) (by decide +kernel)
  simp only [Prod.mk.injEq, decide_eq_true_eq] at heval
  exact ⟨s, hrun, heval⟩

end Gxemul.Network
