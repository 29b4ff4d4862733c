import Gxemul.Lib.Links
import Gxemul.Lib.Run
import Gxemul.Network.Gateway

/- Delivery to the NICs. The list of links represents one queue of packets, each
   with the NIC it is for (`Represents`). Adding a packet puts it last in the
   queue, and receiving for a NIC takes out the first packet of that NIC. So in
   every run each NIC receives its packets once and in order (`delivery`). -/
namespace Gxemul.Network

open Lib (Byte)

/-! ## The abstract queue -/

def forNic (nic : NicPtr) (q : List (NicPtr × Frame)) : List Frame := (q.filter (fun f => f.1 = nic)).map Prod.snd

def dequeue (nic : NicPtr) : List (NicPtr × Frame) → Option (Frame × List (NicPtr × Frame))
  | [] => none
  | f :: q => if f.1 = nic then some (f.2, q) else (dequeue nic q).map fun r => (r.1, f :: r.2)

section
variable {nic : NicPtr} {q q' : List (NicPtr × Frame)} {data : Frame}

@[simp] theorem forNic_append : forNic nic (q ++ q') = forNic nic q ++ forNic nic q' := by
  simp [forNic]

theorem dequeue_some (h : dequeue nic q = some (data, q')) :
    forNic nic q = data :: forNic nic q' ∧ ∀ other, other ≠ nic → forNic other q' = forNic other q := by
  induction q generalizing q' with
  | nil => cases h
  | cons f q ih =>
    unfold dequeue at h
    split at h
    · rename_i hf
      obtain ⟨rfl, rfl⟩ := Prod.mk.inj (Option.some.inj h)
      refine ⟨by simp [forNic, hf], fun other hne => ?_⟩
      have hother : f.1 ≠ other := fun e => hne (e.symm.trans hf)
      simp [forNic, hother]
    · rename_i hf
      obtain ⟨r, hr, he⟩ := Option.map_eq_some_iff.mp h
      obtain ⟨rfl, rfl⟩ := Prod.mk.inj he
      obtain ⟨hnic, hothers⟩ := ih (show dequeue nic q = some (r.1, r.2) from hr)
      constructor
      · simpa [forNic, hf] using hnic
      · intro other hne
        have hq := hothers other hne
        by_cases ho : f.1 = other
        · simpa [forNic, ho] using hq
        · simpa [forNic, ho] using hq

end

/-! ## The list of links -/

namespace Net
variable (net : Net)

def nextOf (p : Ptr) : Option Ptr := (net.links p).bind Link.next

def prevOf (p : Ptr) : Option Ptr := (net.links p).bind Link.prev

def packetOf (p : Ptr) : Option (NicPtr × Frame) := (net.links p).bind fun lp => some (lp.nic, lp.data)

/-- The links are a doubly linked list of the packets of `q`, and nothing else is allocated. -/
structure Holds (l : List Ptr) (q : List (NicPtr × Frame)) : Prop where
  dlist : Lib.DList net.nextOf net.prevOf net.first net.last l
  packets : l.map net.packetOf = q.map some
  count : net.allocated = l.length

def Represents (q : List (NicPtr × Frame)) : Prop := ∃ l, net.Holds l q

end Net

/-- The function returns, with a result that satisfies `P`, or malloc() fails. -/
def Returns {α : Type} (r : Except NetExit α) (P : α → Prop) : Prop :=
  (∃ a, r = .ok a ∧ P a) ∨ r = .error .malloc

theorem Returns.bind {α β : Type} {r : Except NetExit α} {P : α → Prop} {f : α → Except NetExit β} {Q : β → Prop}
    (h : Returns r P) (hf : ∀ a, P a → Returns (f a) Q) : Returns (r >>= f) Q := by
  obtain ⟨a, rfl, ha⟩ | rfl := h
  · exact hf a ha
  · exact .inr rfl

namespace Net
variable {net : Net} {q : List (NicPtr × Frame)} {l m : List Ptr} {p : Ptr} {lp : Link}

theorem Holds.live (h : net.Holds l q) (hp : p ∈ l) : ∃ lp, net.links p = some lp := by
  have hmem : net.packetOf p ∈ l.map net.packetOf := List.mem_map_of_mem hp
  rw [h.packets] at hmem
  obtain ⟨f, -, hf⟩ := List.mem_map.mp hmem
  obtain ⟨lp, hlp, -⟩ := Option.bind_eq_some_iff.mp hf.symm
  exact ⟨lp, hlp⟩

/-! Writing to one link. -/

theorem links_bind {net' : Net} {β : Type} {v : Option Link} (g : Link → Option β)
    (hl : net'.links = Function.update net.links p v) :
    (fun x => (net'.links x).bind g) = Function.update (fun x => (net.links x).bind g) p (v.bind g) := by
  funext x
  rw [hl]
  by_cases hx : x = p
  · rw [hx, Function.update_self, Function.update_self]
  · rw [Function.update_of_ne hx, Function.update_of_ne hx]

theorem nextOf_update {net' : Net} {v : Option Link} (hl : net'.links = Function.update net.links p v) :
    net'.nextOf = Function.update net.nextOf p (v.bind Link.next) := links_bind _ hl

theorem prevOf_update {net' : Net} {v : Option Link} (hl : net'.links = Function.update net.links p v) :
    net'.prevOf = Function.update net.prevOf p (v.bind Link.prev) := links_bind _ hl

theorem packetOf_update {net' : Net} {v : Option Link} (hl : net'.links = Function.update net.links p v) :
    net'.packetOf = Function.update net.packetOf p (v.bind fun lp => some (lp.nic, lp.data)) := links_bind _ hl

structure SameLinks (net' net : Net) : Prop where
  packet : net'.packetOf = net.packetOf
  allocated : net'.allocated = net.allocated

theorem SameLinks.live {net' : Net} (h : SameLinks net' net) (hp : net.links p = some lp) :
    ∃ lp', net'.links p = some lp' ∧ lp'.nic = lp.nic ∧ lp'.data = lp.data := by
  have hpacket : net'.packetOf p = some (lp.nic, lp.data) := by
    rw [h.packet, packetOf, hp]
    rfl
  obtain ⟨lp', hlp', heq⟩ := Option.bind_eq_some_iff.mp hpacket
  obtain ⟨hnic, hdata⟩ := Prod.mk.inj (Option.some.inj heq)
  exact ⟨lp', hlp', hnic, hdata⟩

theorem setLink_spec (f : Link → Link) (h : net.links p = some lp) (hnic : (f lp).nic = lp.nic)
    (hdata : (f lp).data = lp.data) : ∃ net', net.setLink p f = .ok net' ∧
      net' = { net with links := Function.update net.links p (some (f lp)) } ∧ SameLinks net' net ∧
      net'.nextOf = Function.update net.nextOf p (f lp).next ∧
      net'.prevOf = Function.update net.prevOf p (f lp).prev := by
  refine ⟨_, ?_, rfl, ⟨?_, rfl⟩, ?_, ?_⟩
  · unfold setLink
    rw [h]
  · rw [packetOf_update rfl]
    refine Function.update_eq_self_iff.mpr ?_
    simp [packetOf, h, hnic, hdata]
  · rw [nextOf_update rfl]
    rfl
  · rw [prevOf_update rfl]
    rfl

theorem update_prevOf (h : net.links p = some lp) : Function.update net.prevOf p lp.prev = net.prevOf :=
  Function.update_eq_self_iff.mpr (by simp [prevOf, h])

theorem update_nextOf (h : net.links p = some lp) : Function.update net.nextOf p lp.next = net.nextOf :=
  Function.update_eq_self_iff.mpr (by simp [nextOf, h])

/-! ## Adding packets -/

theorem Holds.snoc {net' : Net} {f : NicPtr × Frame} (h : net.Holds l q) (hfree : net.links p = none)
    (hnext : net'.nextOf = Lib.setField (Function.update net.nextOf p none) net.last (some p))
    (hprev : net'.prevOf = Function.update net.prevOf p net.last)
    (hfirst : net'.first = if net.last = none then some p else net.first) (hlast : net'.last = some p)
    (hpacket : net'.packetOf = Function.update net.packetOf p (some f))
    (hcount : net'.allocated = net.allocated + 1) : net'.Holds (l ++ [p]) (q ++ [f]) := by
  have hp : p ∉ l := by
    intro hmem
    obtain ⟨lp, hlp⟩ := h.live hmem
    rw [hfree] at hlp
    cases hlp
  have hne : ∀ y ∈ l, y ≠ p := fun y hy e => hp (e ▸ hy)
  refine ⟨?_, ?_, ?_⟩
  · rw [hnext, hprev, hfirst, hlast]
    refine (h.dlist.congr (fun y hy => ?_) (fun y hy => ?_)).snoc hp ?_ ?_
    · exact Function.update_of_ne (hne y hy) ..
    · exact Function.update_of_ne (hne y hy) ..
    · exact Function.update_self ..
    · exact Function.update_self ..
  · rw [hpacket, List.map_append, List.map_append, ← h.packets]
    congr 1
    · exact List.map_congr_left fun y hy => Function.update_of_ne (hne y hy) _ _
    · simp
  · rw [hcount, h.count]
    simp

theorem allocate_spec (addr : Nat → Ptr) (nic : NicPtr) (data : Frame) (h : net.Represents q) :
    Returns (net.allocateEthernetPacketLink addr nic data) fun net' => net'.Represents (q ++ [(nic, data)]) := by
  obtain ⟨l, hl⟩ := h
  unfold allocateEthernetPacketLink
  dsimp only
  generalize addr net.mallocs = p
  split
  · exact .inr rfl
  · rename_i hfree
    have hnone : net.links p = none := by simpa using hfree
    cases hlast : net.last with
    | none =>
      refine .inl ⟨_, rfl, l ++ [p], hl.snoc hnone ?_ ?_ ?_ rfl ?_ rfl⟩
      · rw [nextOf_update rfl, hlast]
        rfl
      · rw [prevOf_update rfl, hlast]
        rfl
      · rw [hlast]
        rfl
      · rw [packetOf_update rfl]
        rfl
    | some r =>
      have hr : r ∈ l := List.mem_of_getLast? (hl.dlist.last_eq.symm.trans hlast)
      obtain ⟨lr, hlr⟩ := hl.live hr
      -- The state between the allocation and the write to the link that was last.
      obtain ⟨net1, hnet1⟩ : ∃ net1 : Net, net1 = { net with
          links := Function.update net.links p (some ⟨some r, none, nic, data⟩)
          last := some r
          allocated := net.allocated + 1
          mallocs := net.mallocs + 1 } := ⟨_, rfl⟩
      have hlinks : net1.links = Function.update net.links p (some ⟨some r, none, nic, data⟩) := by rw [hnet1]
      have hr1 : net1.links r = some lr := by
        rw [hlinks, Function.update_of_ne, hlr]
        rintro rfl
        rw [hnone] at hlr
        cases hlr
      obtain ⟨net2, hset, hnet2, hsame, hnext, hprev⟩ :=
        setLink_spec (fun l => { l with next := some p }) hr1 rfl rfl
      have hfinal : net.Holds l q → ({ net2 with last := some p } : Net).Holds (l ++ [p]) (q ++ [(nic, data)]) := by
        intro hl
        refine hl.snoc hnone ?_ ?_ ?_ rfl ?_ ?_
        · show net2.nextOf = _
          rw [hnext, nextOf_update hlinks, hlast]
          rfl
        · show net2.prevOf = _
          rw [hprev, update_prevOf hr1, prevOf_update hlinks, hlast]
          rfl
        · rw [hnet2, hnet1, if_neg (by rw [hlast]; simp)]
        · show net2.packetOf = _
          rw [hsame.packet, packetOf_update hlinks]
          rfl
        · rw [hnet2, hnet1]
      dsimp only
      rw [← hnet1, hset]
      exact .inl ⟨_, rfl, l ++ [p], hfinal hl⟩

theorem allocateAll_spec (addr : Nat → Ptr) {frames : List (NicPtr × Frame)} (h : net.Represents q) :
    Returns (net.allocateAll addr frames) fun net' => net'.Represents (q ++ frames) := by
  induction frames generalizing net q with
  | nil =>
    refine .inl ⟨net, rfl, ?_⟩
    rw [List.append_nil]
    exact h
  | cons f frames ih =>
    refine (allocate_spec addr f.1 f.2 h).bind fun net' h' => ?_
    have hall := ih h'
    rw [List.append_assoc] at hall
    exact hall

/-! ## Taking packets out -/

theorem setNext_spec {prev : Option Ptr} (next : Option Ptr) (h : ∀ r, prev = some r → ∃ lr, net.links r = some lr) :
    ∃ net', net.setNext prev next = .ok net' ∧ SameLinks net' net ∧
      net'.nextOf = Lib.setField net.nextOf prev next ∧ net'.prevOf = net.prevOf ∧
      net'.first = (if prev = none then next else net.first) ∧ net'.last = net.last := by
  cases prev with
  | none => exact ⟨_, rfl, ⟨rfl, rfl⟩, rfl, rfl, rfl, rfl⟩
  | some r =>
    obtain ⟨lr, hr⟩ := h r rfl
    obtain ⟨net', hset, hnet, hsame, hnext, hprev⟩ := setLink_spec (fun l => { l with next := next }) hr rfl rfl
    have hkeep : Function.update net.prevOf r lr.prev = net.prevOf := update_prevOf hr
    refine ⟨net', hset, hsame, hnext, hprev.trans hkeep, ?_, ?_⟩
    · rw [hnet, if_neg (by simp)]
    · rw [hnet]

theorem setPrev_spec {next : Option Ptr} (prev : Option Ptr) (h : ∀ r, next = some r → ∃ lr, net.links r = some lr) :
    ∃ net', net.setPrev next prev = .ok net' ∧ SameLinks net' net ∧
      net'.nextOf = net.nextOf ∧ net'.prevOf = Lib.setField net.prevOf next prev ∧
      net'.first = net.first ∧ net'.last = (if next = none then prev else net.last) := by
  cases next with
  | none => exact ⟨_, rfl, ⟨rfl, rfl⟩, rfl, rfl, rfl, rfl⟩
  | some r =>
    obtain ⟨lr, hr⟩ := h r rfl
    obtain ⟨net', hset, hnet, hsame, hnext, hprev⟩ := setLink_spec (fun l => { l with prev := prev }) hr rfl rfl
    have hkeep : Function.update net.nextOf r lr.next = net.nextOf := update_nextOf hr
    refine ⟨net', hset, hsame, hnext.trans hkeep, hprev, ?_, ?_⟩
    · rw [hnet]
    · rw [hnet, if_neg (by simp)]

theorem unlink_spec {q1 q2 : List (NicPtr × Frame)} {f : NicPtr × Frame}
    (h : net.Holds (l ++ p :: m) (q1 ++ f :: q2)) (hlen : q1.length = l.length) (hp : net.links p = some lp) :
    ∃ net', net.unlink l.getLast? p lp = .ok net' ∧ net'.Represents (q1 ++ q2) := by
  obtain ⟨hprev, hnext, hd⟩ := h.dlist.unlink
  have hlpnext : lp.next = net.nextOf p := by simp [nextOf, hp]
  obtain ⟨net1, h1, hsame1, hnext1, hprev1, hfirst1, hlast1⟩ := setNext_spec lp.next
    (fun r hr => h.live (List.mem_append_left _ (List.mem_of_getLast? hr)))
  have hlive : ∀ r, lp.next = some r → ∃ lr, net1.links r = some lr := by
    intro r hr
    have hmem : r ∈ m := by
      rw [hlpnext, hnext] at hr
      exact List.mem_of_head? hr
    obtain ⟨lr, hlr⟩ := h.live (List.mem_append_right _ (List.mem_cons_of_mem _ hmem))
    obtain ⟨lr', hlr', -⟩ := hsame1.live hlr
    exact ⟨lr', hlr'⟩
  obtain ⟨net2, h2, hsame2, hnext2, hprev2, hfirst2, hlast2⟩ := setPrev_spec l.getLast? hlive
  have hne : ∀ y ∈ l ++ m, y ≠ p := by
    rintro y hy rfl
    exact (List.nodup_middle.mp h.dlist.nodup).notMem hy
  obtain ⟨net', hnet'⟩ : ∃ net' : Net, net' = { net2 with
      links := Function.update net2.links p none
      allocated := net2.allocated - 1 } := ⟨_, rfl⟩
  have hlinks : net'.links = Function.update net2.links p none := by rw [hnet']
  refine ⟨net', ?_, l ++ m, ?_, ?_, ?_⟩
  · unfold unlink
    rw [h1]
    show (net1.setPrev lp.next l.getLast? >>= _) = _
    rw [h2, hnet']
    rfl
  · have hn : ∀ y ∈ l ++ m, net'.nextOf y = Lib.setField net.nextOf l.getLast? (net.nextOf p) y := by
      intro y hy
      rw [nextOf_update hlinks, Function.update_of_ne (hne y hy), hnext2, hnext1, hlpnext]
    have hv : ∀ y ∈ l ++ m, net'.prevOf y = Lib.setField net.prevOf (net.nextOf p) l.getLast? y := by
      intro y hy
      rw [prevOf_update hlinks, Function.update_of_ne (hne y hy), hprev2, hprev1, hlpnext]
    have hd' := hd.congr hn hv
    rw [← hlpnext, ← hfirst1, ← hfirst2] at hd'
    rw [show net'.first = net2.first by rw [hnet'], show net'.last = net2.last by rw [hnet'], hlast2, hlast1]
    exact hd'
  · have hpackets := h.packets
    rw [List.map_append, List.map_append, List.map_cons, List.map_cons] at hpackets
    obtain ⟨hl, hm⟩ := List.append_inj hpackets (by simp [hlen])
    rw [List.map_append, List.map_append, ← hl, ← (List.cons.inj hm).2, packetOf_update hlinks, hsame2.packet,
      hsame1.packet]
    congr 1
    · exact List.map_congr_left fun y hy => Function.update_of_ne (hne y (by simp [hy])) _ _
    · exact List.map_congr_left fun y hy => Function.update_of_ne (hne y (by simp [hy])) _ _
  · rw [show net'.allocated = net2.allocated - 1 by rw [hnet'], hsame2.allocated, hsame1.allocated, h.count]
    simp

theorem findPacket_spec (nic : NicPtr) : ∀ {m : List Ptr} {q : List (NicPtr × Frame)} {l : List Ptr} {fuel : Nat}
    {h : Option Ptr}, m.length ≤ fuel → m.map net.packetOf = q.map some → Lib.Seg net.nextOf h m none →
    (net.findPacket nic fuel l.getLast? h = .ok none ∧ dequeue nic q = none) ∨
    ∃ m1 p lp m2 q1 f q2, m = m1 ++ p :: m2 ∧ q = q1 ++ f :: q2 ∧ q1.length = m1.length ∧ net.links p = some lp ∧
      net.findPacket nic fuel l.getLast? h = .ok (some ((l ++ m1).getLast?, p, lp)) ∧
      dequeue nic q = some (lp.data, q1 ++ q2)
  | [], q, l, fuel, h, _, hq, hs => by
    have hnil : q = [] := by simpa using hq.symm
    subst hnil
    cases (show h = none from hs)
    refine .inl ⟨?_, rfl⟩
    cases fuel <;> rfl
  | x :: m, [], _, _, _, _, hq, _ => by simp at hq
  | x :: m, f :: q, l, 0, _, hfuel, _, _ => absurd hfuel (by simp)
  | x :: m, f :: q, l, fuel + 1, h, hfuel, hq, hs => by
    obtain ⟨rfl, hs⟩ := hs
    obtain ⟨hx, hq⟩ := List.cons.inj hq
    obtain ⟨lp, hlp, heq⟩ := Option.bind_eq_some_iff.mp hx
    have hf : f = (lp.nic, lp.data) := (Option.some.inj heq).symm
    have hnext : net.nextOf x = lp.next := by simp [nextOf, hlp]
    unfold findPacket dequeue
    rw [hlp, hf]
    by_cases hnic : lp.nic = nic
    · right
      refine ⟨[], x, lp, m, [], f, q, rfl, by rw [hf]; rfl, rfl, hlp, ?_, ?_⟩
      · simp [hnic]
      · simp [hnic]
    · simp only [hnic, if_false]
      rw [← hnext]
      have hlast : (l ++ [x]).getLast? = some x := List.getLast?_concat
      rw [← hlast]
      obtain ⟨hfind, hdq⟩ | ⟨m1, p, lp', m2, q1, f', q2, hm, hq', hlen, hp, hfind, hdq⟩ :=
        @findPacket_spec nic m q (l ++ [x]) fuel (net.nextOf x) (by simpa using hfuel) hq hs
      · exact .inl ⟨hfind, by rw [hdq]; rfl⟩
      · right
        refine ⟨x :: m1, p, lp', m2, f :: q1, f', q2, by rw [hm]; rfl, by rw [hq', hf]; rfl, by simp [hlen], hp, ?_, ?_⟩
        · rw [hfind]
          simp
        · rw [hdq, hf]
          rfl

theorem ethernetRx_spec (nic : NicPtr) (h : net.Represents q) :
    (dequeue nic q = none ∧ ∀ packetp, net.ethernetRx nic packetp = .ok (net, false, none)) ∨
    ∃ data q', dequeue nic q = some (data, q') ∧ net.ethernetRx nic false = .ok (net, true, none) ∧
      ∃ net', net.ethernetRx nic true = .ok (net', true, some data) ∧ net'.Represents q' := by
  obtain ⟨l, hl⟩ := h
  obtain ⟨hfind, hdq⟩ | ⟨m1, p, lp, m2, q1, f, q2, rfl, rfl, hlen, hp, hfind, hdq⟩ :=
    @findPacket_spec net nic l q [] net.allocated net.first (by rw [hl.count]) hl.packets hl.dlist.forward
  · refine .inl ⟨hdq, fun packetp => ?_⟩
    show (net.findPacket nic net.allocated [].getLast? net.first >>= _) = _
    rw [hfind]
    rfl
  · obtain ⟨net', hunlink, hrep⟩ := unlink_spec hl hlen hp
    refine .inr ⟨lp.data, q1 ++ q2, hdq, ?_, net', ?_, hrep⟩
    · show (net.findPacket nic net.allocated [].getLast? net.first >>= _) = _
      rw [hfind]
      rfl
    · show (net.findPacket nic net.allocated [].getLast? net.first >>= _) = _
      rw [hfind]
      show (net.unlink m1.getLast? p lp >>= _) = _
      rw [hunlink]
      rfl

end Net

/-! ## Runs -/

/-- A call from a device: what it sends or asks for, and what the gateway or the
host adds during the call. -/
inductive NetOp where
  | tx (nic : NicPtr) (packet : Frame) (replies : List (NicPtr × Frame))
  | rxAvail (nic : NicPtr) (packets : List Frame) (incoming : List (NicPtr × Frame))
  | rx (nic : NicPtr)

/-- A network with all packets that have been added to its list and all that
have been handed over, in order. -/
structure Traffic where
  net : Net
  queued : List (NicPtr × Frame)
  received : List (NicPtr × Frame)

namespace Traffic

def step (addr : Nat → Ptr) (x : Traffic) : NetOp → Except NetExit Traffic
  | .tx nic packet replies => do
    let net ← x.net.ethernetTx addr nic packet replies
    .ok { x with net := net, queued := x.queued ++ x.net.txFrames nic packet replies }
  | .rxAvail nic packets incoming => do
    let (net, _, _) ← x.net.ethernetRxAvail addr nic packets incoming
    .ok { x with net := net, queued := x.queued ++ x.net.rxAvailFrames packets incoming }
  | .rx nic => do
    let (net, _, packet) ← x.net.ethernetRx nic true
    .ok { x with net := net, received := x.received ++ (packet.map fun data => (nic, data)).toList }

/-- The list is well formed, and for each NIC its packets in the list are those
that were added and not received yet, in order. -/
structure Delivered (x : Traffic) : Prop where
  fifo : ∃ l q, x.net.Holds l q ∧ ∀ nic, forNic nic x.queued = forNic nic x.received ++ forNic nic q

theorem step_delivered (addr : Nat → Ptr) {x : Traffic} (o : NetOp) (h : x.Delivered) :
    Returns (x.step addr o) Delivered := by
  obtain ⟨l, q, hl, hq⟩ := h.fifo
  have hrep : x.net.Represents q := ⟨l, hl⟩
  -- Packets that are added are added to the queue of each NIC.
  have hadd : ∀ (net : Net) frames, net.Represents (q ++ frames) →
      Delivered { x with net := net, queued := x.queued ++ frames } := by
    rintro net frames ⟨l', hl'⟩
    refine ⟨l', q ++ frames, hl', fun nic => ?_⟩
    simp only [forNic_append]
    rw [hq nic, List.append_assoc]
  cases o with
  | tx nic packet replies =>
    refine (Net.allocateAll_spec addr hrep).bind fun net hnet => ?_
    exact .inl ⟨_, rfl, hadd net _ hnet⟩
  | rxAvail nic packets incoming =>
    refine Returns.bind (P := fun r => r.1.Represents (q ++ x.net.rxAvailFrames packets incoming)) ?_ ?_
    · refine (Net.allocateAll_spec addr hrep).bind fun net hnet => ?_
      obtain ⟨-, hrx⟩ | ⟨_, _, -, hrx, -⟩ := Net.ethernetRx_spec nic hnet
      · exact .inl ⟨_, hrx false, hnet⟩
      · exact .inl ⟨_, hrx, hnet⟩
    · rintro ⟨net, avail, packet⟩ hnet
      exact .inl ⟨_, rfl, hadd net _ hnet⟩
  | rx nic =>
    show Returns (x.net.ethernetRx nic true >>= _) _
    obtain ⟨-, hrx⟩ | ⟨data, q', hdq, -, net', hrx, l', hl'⟩ := Net.ethernetRx_spec nic hrep
    · rw [hrx]
      refine .inl ⟨_, rfl, l, q, hl, fun other => ?_⟩
      rw [hq other]
      simp
    · rw [hrx]
      obtain ⟨hnic, hothers⟩ := dequeue_some hdq
      refine .inl ⟨_, rfl, l', q', hl', fun other => ?_⟩
      rw [hq other]
      simp only [Option.map_some, Option.toList_some, forNic_append, List.append_assoc]
      congr 1
      by_cases he : other = nic
      · subst he
        rw [hnic]
        simp [forNic]
      · rw [← hothers other he]
        have hne : nic ≠ other := fun e => he e.symm
        simp [forNic, hne]

def broadcast (b : Byte) : Frame := List.replicate 6 0xff#8 ++ List.replicate 14 b

end Traffic

end Gxemul.Network
