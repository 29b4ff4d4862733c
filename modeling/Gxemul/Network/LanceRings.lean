import Gxemul.Lib.Segments
import Gxemul.Network.Lance

/- The descriptor rings of the LANCE.

   What the chip has done is read off its history: `txView` collects the
   descriptors of each transmitted frame, and `rxView` those that each received
   frame was put into. The transmitter is right in every run. The receiver sets
   STP in the last descriptor of a frame as well as in the first one, so it is right
   exactly for the frames that fit into one buffer. -/
namespace Gxemul.Lance

open Lib (Byte Segments Scatter)

/-! ## The SRAM -/

section
variable {big : Bool} {sram : Sram} {addr a : Nat} {x : BitVec 16}

theorem and_sramSize (addr : Nat) : addr &&& (sramSize - 1) = addr % sramSize :=
  Nat.and_two_pow_sub_one_eq_mod addr 17

theorem append_extract : (x.extractLsb' 8 8 ++ x.extractLsb' 0 8 : BitVec 16) = x := by
  apply BitVec.eq_of_getLsbD_eq
  intro i hi
  rw [BitVec.getLsbD_append, BitVec.getLsbD_extractLsb', BitVec.getLsbD_extractLsb']
  by_cases h : i < 8
  · simp [h]
  · have hi8 : i - 8 < 8 := by omega
    have hpos : 8 + (i - 8) = i := by omega
    simp [h, hi8, hpos]

theorem read_write : read16bit big (write16bit big sram addr x) addr = x := by
  have hne : addr % sramSize ≠ (addr + 1) % sramSize := by
    unfold sramSize
    omega
  unfold read16bit write16bit
  rw [and_sramSize, and_sramSize]
  cases big
  · simp only [Bool.false_eq_true, if_false, Function.update_self, Function.update_of_ne hne]
    exact append_extract
  · simp only [if_true, Function.update_self, Function.update_of_ne hne]
    exact append_extract

theorem write_other (h0 : a ≠ addr % sramSize) (h1 : a ≠ (addr + 1) % sramSize) :
    write16bit big sram addr x a = sram a := by
  unfold write16bit
  rw [and_sramSize, and_sramSize]
  cases big <;> simp only [Bool.false_eq_true, if_false, if_true, Function.update_of_ne h0, Function.update_of_ne h1]

theorem read_write_other {k : Nat} (hk : 2 ≤ k ∧ k + 2 ≤ sramSize) :
    read16bit big (write16bit big sram addr x) (addr + k) = read16bit big sram (addr + k) ∧
    read16bit big (write16bit big sram (addr + k) x) addr = read16bit big sram addr := by
  have hk' : 2 ≤ k ∧ k + 2 ≤ 131072 := hk
  constructor
  · unfold read16bit
    rw [and_sramSize, and_sramSize, write_other (by unfold sramSize; omega) (by unfold sramSize; omega),
      write_other (by unfold sramSize; omega) (by unfold sramSize; omega)]
  · unfold read16bit
    rw [and_sramSize, and_sramSize, write_other (by unfold sramSize; omega) (by unfold sramSize; omega),
      write_other (by unfold sramSize; omega) (by unfold sramSize; omega)]

theorem write_read : write16bit big sram addr (read16bit big sram addr) = sram := by
  have hhi : ∀ p q : Byte, (p ++ q : BitVec 16).extractLsb' 8 8 = p := by
    intro p q
    apply BitVec.eq_of_getLsbD_eq
    intro i hi
    have hle : ¬ 8 + i < 8 := by omega
    rw [BitVec.getLsbD_extractLsb', BitVec.getLsbD_append]
    simp [hi, hle]
  have hlo : ∀ p q : Byte, (p ++ q : BitVec 16).extractLsb' 0 8 = q := by
    intro p q
    apply BitVec.eq_of_getLsbD_eq
    intro i hi
    rw [BitVec.getLsbD_extractLsb', BitVec.getLsbD_append]
    simp [hi]
  unfold write16bit read16bit
  cases big <;> simp only [Bool.false_eq_true, if_false, if_true, hhi, hlo, Function.update_eq_self]

theorem storeBytes_spec : ∀ {l : List Byte} {sram : Sram} {addr : Nat}, l.length ≤ sramSize →
    (∀ i, i < l.length → storeBytes sram addr l ((addr + i) % sramSize) = l.getD i 0#8) ∧
    ∀ a, (∀ i, i < l.length → a ≠ (addr + i) % sramSize) → storeBytes sram addr l a = sram a
  | [], sram, addr, _ => ⟨fun i hi => absurd hi (Nat.not_lt_zero i), fun _ _ => rfl⟩
  | b :: l, sram, addr, hlen => by
    rw [List.length_cons] at hlen
    obtain ⟨hin, hout⟩ := @storeBytes_spec l (Function.update sram (addr % sramSize) b) (addr + 1) (by omega)
    have hstore : storeBytes sram addr (b :: l) = storeBytes (Function.update sram (addr % sramSize) b) (addr + 1) l := by
      rw [storeBytes, and_sramSize]
    rw [hstore]
    refine ⟨fun i hi => ?_, fun a ha => ?_⟩
    · rw [List.length_cons] at hi
      cases i with
      | zero =>
        rw [hout _ fun j hj => ?_, Nat.add_zero, Function.update_self]
        · rfl
        · have hsize : sramSize = 131072 := rfl
          rw [hsize] at hlen ⊢
          omega
      | succ i =>
        have hpos : addr + (i + 1) = addr + 1 + i := by omega
        rw [hpos, hin i (by omega)]
        rfl
    · rw [hout a fun i hi => ?_, Function.update_of_ne]
      · have h0 := ha 0 (by simp)
        rwa [Nat.add_zero] at h0
      · have hpos : addr + 1 + i = addr + (i + 1) := by omega
        rw [hpos]
        exact ha (i + 1) (by rw [List.length_cons]; omega)

def writeBack (big : Bool) (sram : Sram) (addr : Nat) (w1 w2 w3 : BitVec 16) : Sram :=
  write16bit big (write16bit big (write16bit big sram (addr + 2) w1) (addr + 4) w2) (addr + 6) w3

theorem writeBack_spec {w1 w2 w3 : BitVec 16} :
    read16bit big (writeBack big sram addr w1 w2 w3) (addr + 2) = w1 ∧
    read16bit big (writeBack big sram addr w1 w2 w3) (addr + 6) = w3 ∧
    ∀ a, (∀ j, 2 ≤ j → j < 8 → a ≠ (addr + j) % sramSize) → writeBack big sram addr w1 w2 w3 a = sram a := by
  have h2 : ∀ s : Sram, read16bit big (write16bit big s (addr + 4) w2) (addr + 2) = read16bit big s (addr + 2) :=
    fun s => (@read_write_other big s (addr + 2) w2 2 ⟨by decide, by decide⟩).2
  have h6 : ∀ s : Sram, read16bit big (write16bit big s (addr + 6) w3) (addr + 2) = read16bit big s (addr + 2) :=
    fun s => (@read_write_other big s (addr + 2) w3 4 ⟨by decide, by decide⟩).2
  refine ⟨?_, read_write, fun a ha => ?_⟩
  · rw [writeBack, h6, h2, read_write]
  · rw [writeBack, write_other (ha 6 (by decide) (by decide)) (ha 7 (by decide) (by decide)),
      write_other (ha 4 (by decide) (by decide)) (ha 5 (by decide) (by decide)),
      write_other (ha 2 (by decide) (by decide)) (ha 3 (by decide) (by decide))]

theorem writeBack_same {w1 : BitVec 16} :
    writeBack big sram addr w1 (read16bit big sram (addr + 4)) (read16bit big sram (addr + 6)) =
      write16bit big sram (addr + 2) w1 := by
  have h4 := (@read_write_other big sram (addr + 2) w1 2 ⟨by decide, by decide⟩).1
  have h6 := (@read_write_other big sram (addr + 2) w1 4 ⟨by decide, by decide⟩).1
  rw [writeBack]
  conv_lhs => rw [show addr + 4 = addr + 2 + 2 from rfl, show addr + 6 = addr + 2 + 4 from rfl, ← h4, write_read, ← h6,
    write_read]

end

/-! ## The history -/

namespace LeStep
variable (s : LeStep)

def word (sram : Sram) (k : Nat) : BitVec 16 := read16bit s.big sram (s.addr + 2 * k)

def own (sram : Sram) : Bool := has (s.word sram 1) leOwn
def stp (sram : Sram) : Bool := has (s.word sram 1) leStp
def enp (sram : Sram) : Bool := has (s.word sram 1) leEnp

def bufaddr : Nat := (s.word s.pre 0).toNat + (((s.word s.pre 1) &&& 0xff#16).toNat <<< 16)
def buflen : Nat := 4096 - ((s.word s.pre 2) &&& 0xfff#16).toNat

def data : List Byte := loadBytes s.pre s.bufaddr s.buflen

/-- The descriptor was owned and is handed back: in word 1 the OWN bit is cleared, and nothing else changes. -/
structure HandedBack : Prop where
  owned : s.own s.pre = true
  word1 : s.word s.post 1 = s.word s.pre 1 &&& ~~~leOwn
  others : ∀ a, a ≠ (s.addr + 2) % sramSize → a ≠ (s.addr + 3) % sramSize → s.post a = s.pre a

end LeStep

def txView (h : List LeEvent) : Segments LeStep :=
  h.foldl (fun c e =>
    match e with
    | .init => c.cut
    | .tx s => c.add (fun s => s.stp s.pre) (fun s => s.enp s.pre) s
    | _ => c) {}

def rxView (h : List LeEvent) : Scatter LeStep Byte :=
  h.foldl (fun c e =>
    match e with
    | .init => c.cut
    | .take f => c.take f
    | .rx s => c.add LeStep.buflen s
    | _ => c) {}

def used (tx : Bool) (h : List LeEvent) : List LeStep :=
  h.foldl (fun l e =>
    match e, tx with
    | .init, _ => []
    | .tx s, true => l ++ [s]
    | .rx s, false => l ++ [s]
    | _, _ => l) []

/-- The SRAM after what has been done. Besides the guest, only descriptors that are used change it. -/
inductive Linked : List LeEvent → Sram → Prop
  | start : Linked [] fun _ => 0#8
  | init {h : List LeEvent} {sram : Sram} : Linked h sram → Linked (h ++ [.init]) sram
  | take {h : List LeEvent} {sram : Sram} (f : List Byte) : Linked h sram → Linked (h ++ [.take f]) sram
  | tx {h : List LeEvent} (s : LeStep) : Linked h s.pre → Linked (h ++ [.tx s]) s.post
  | rx {h : List LeEvent} (s : LeStep) : Linked h s.pre → Linked (h ++ [.rx s]) s.post
  | guest {h : List LeEvent} {sram : Sram} (addr : Nat) (data : List Byte) :
      Linked h sram → Linked (h ++ [.guest addr data]) (guestWrite sram addr data)

def ringPlace (l : List LeStep) : Nat :=
  match l.getLast? with
  | none => 0
  | some s => LeData.next s.index s.ringLen

def InRingOrder (l : List LeStep) : Prop :=
  ∀ init s rest, l = init ++ s :: rest → s.index = ringPlace init

theorem InRingOrder.append {l : List LeStep} {s : LeStep} (h : InRingOrder l) (hs : s.index = ringPlace l) :
    InRingOrder (l ++ [s]) := by
  intro init x rest hl
  obtain rfl | ⟨rest, y, rfl⟩ := List.eq_nil_or_concat rest
  · obtain ⟨rfl, hx⟩ := List.append_inj' hl rfl
    cases hx
    exact hs
  · have hl' : l ++ [s] = (init ++ x :: rest) ++ [y] := by simpa using hl
    obtain ⟨rfl, -⟩ := List.append_inj' hl' rfl
    exact h init x rest rfl

structure Stored (frame : List Byte) (l : List LeStep) : Prop where
  bytes : ∀ k s, l[k]? = some s → ∀ i < s.buflen, Scatter.room LeStep.buflen (l.take k) + i < frame.length →
    s.post ((s.bufaddr + i) % sramSize) = frame.getD (Scatter.room LeStep.buflen (l.take k) + i) 0#8
  enough : frame.length ≤ Scatter.room LeStep.buflen l
  stp : ∀ k s, l[k]? = some s → (s.stp s.post = true ↔ k = 0)
  enp : ∀ k s, l[k]? = some s → (s.enp s.post = true ↔ k + 1 = l.length)
  owned : ∀ s ∈ l, s.own s.pre = true ∧ s.own s.post = false
  length : ∀ s, l.getLast? = some s → ((s.word s.post 3) &&& 0xfff#16).toNat = frame.length + 4 ∧
    s.word s.post 3 &&& 0xf000#16 = s.word s.pre 3 &&& 0xf000#16
  others : ∀ s ∈ l, ∀ a, (∀ j, 2 ≤ j → j < 8 → a ≠ (s.addr + j) % sramSize) →
    (∀ i < s.buflen, a ≠ (s.bufaddr + i) % sramSize) → s.post a = s.pre a

def FitsFirst (frame : List Byte) (l : List LeStep) : Prop := ∀ s, l.head? = some s → frame.length ≤ s.buflen

def Separate (l : List LeStep) : Prop :=
  ∀ s ∈ l, ∀ i < s.buflen, ∀ j, 2 ≤ j → j < 8 → (s.bufaddr + i) % sramSize ≠ (s.addr + j) % sramSize

structure RingsRight (d : LeData) : Prop where
  /-- What has been transmitted is the concatenation of the buffers of each run of descriptors from STP to ENP. -/
  sent : d.sent = (txView d.history).frames.map fun l => l.flatMap LeStep.data
  runs : ∀ l ∈ (txView d.history).frames, Segments.IsFrame (fun s => s.stp s.pre) (fun s => s.enp s.pre) l
  noStray : (txView d.history).stray = []
  handedBack : ∀ s, LeEvent.tx s ∈ d.history → s.HandedBack
  txOrder : InRingOrder (used true d.history)
  stored : ∀ fl ∈ (rxView d.history).done, Stored fl.1 fl.2
  rxOrder : InRingOrder (used false d.history)
  overrun : (rxView d.history).overrun = []
  linked : Linked d.history d.sram
  rxp : d.rxp < d.rlen
  txp : d.txp < d.tlen

section
variable {h : List LeEvent} {s : LeStep} {f : List Byte}

theorem txView_append (e : LeEvent) : txView (h ++ [e]) =
    match e with
    | .init => (txView h).cut
    | .tx s => (txView h).add (fun s => s.stp s.pre) (fun s => s.enp s.pre) s
    | _ => txView h := by
  rw [txView, List.foldl_append]
  rfl

theorem rxView_append (e : LeEvent) : rxView (h ++ [e]) =
    match e with
    | .init => (rxView h).cut
    | .take f => (rxView h).take f
    | .rx s => (rxView h).add LeStep.buflen s
    | _ => rxView h := by
  rw [rxView, List.foldl_append]
  rfl

theorem used_append (tx : Bool) (e : LeEvent) : used tx (h ++ [e]) =
    match e, tx with
    | .init, _ => []
    | .tx s, true => used tx h ++ [s]
    | .rx s, false => used tx h ++ [s]
    | _, _ => used tx h := by
  rw [used, List.foldl_append]
  rfl

theorem ringPlace_append (l : List LeStep) : ringPlace (l ++ [s]) = LeData.next s.index s.ringLen := by
  rw [ringPlace, List.getLast?_concat]

end

/-! ## The invariant -/

structure LastPut (frame : List Byte) (l : List LeStep) (s : LeStep) : Prop where
  before : l = [] ∨ Scatter.room LeStep.buflen l < frame.length
  enough : frame.length ≤ Scatter.room LeStep.buflen (l ++ [s])
  bytes : Separate [s] → ∀ i < s.buflen, Scatter.room LeStep.buflen l + i < frame.length →
    s.post ((s.bufaddr + i) % sramSize) = frame.getD (Scatter.room LeStep.buflen l + i) 0#8
  stp : s.stp s.post = true
  enp : s.enp s.post = true
  owned : s.own s.pre = true ∧ s.own s.post = false
  short : s.buflen ≤ 1900
  length : s.word s.post 3 = (s.word s.pre 3 &&& ~~~0xfff#16) ||| BitVec.ofNat 16 (frame.length + 4)
  others : ∀ a, (∀ j, 2 ≤ j → j < 8 → a ≠ (s.addr + j) % sramSize) →
    (∀ i < s.buflen, a ≠ (s.bufaddr + i) % sramSize) → s.post a = s.pre a

structure TxInv (h : List LeEvent) (sent : List (List Byte)) (txPacket : Option (List Byte)) (txp : Nat) : Prop where
  sent : sent = (txView h).frames.map fun l => l.flatMap LeStep.data
  runs : (txView h).WellFormed (fun s => s.stp s.pre) (fun s => s.enp s.pre)
  txPacket : txPacket = (txView h).cur.map fun l => l.flatMap LeStep.data
  noStray : (txView h).stray = []
  handedBack : ∀ s, LeEvent.tx s ∈ h → s.HandedBack
  order : InRingOrder (used true h)
  place : txp = ringPlace (used true h)

def Receiving (h : List LeEvent) (rxPacket : Option (List Byte)) (offset : Nat) : Prop :=
  match rxPacket with
  | none => (rxView h).cur = none ∧ offset = 0
  | some f => ∃ l, (rxView h).cur = some (f, l) ∧ offset = Scatter.room LeStep.buflen l ∧
      (l = [] ∨ Scatter.room LeStep.buflen l < f.length)

structure RxInv (h : List LeEvent) (rxPacket : Option (List Byte)) (offset rxp : Nat) : Prop where
  done : ∀ fl ∈ (rxView h).done, ∃ l s, fl.2 = l ++ [s] ∧ LastPut fl.1 l s
  receiving : Receiving h rxPacket offset
  overrun : (rxView h).overrun = []
  order : InRingOrder (used false h)
  place : rxp = ringPlace (used false h)

def Ready (h : List LeEvent) (rxp rlen txp tlen : Nat) : Prop :=
  (LeEvent.init ∈ h ∧ rxp < rlen ∧ txp < tlen) ∨ (LeEvent.init ∉ h ∧ rlen = 0 ∧ tlen = 0)

structure Inv (d : LeData) : Prop where
  tx : TxInv d.history d.sent d.txPacket d.txp
  rx : RxInv d.history d.rxPacket d.rxPacketOffset d.rxp
  linked : Linked d.history d.sram
  ready : Ready d.history d.rxp d.rlen d.txp d.tlen

section
variable {h : List LeEvent} {e : LeEvent}

theorem inRingOrder_nil : InRingOrder [] := by
  intro init s rest h
  simp at h

theorem TxInv.other {sent : List (List Byte)} {txPacket : Option (List Byte)} {txp : Nat}
    (hinv : TxInv h sent txPacket txp) (hview : txView (h ++ [e]) = txView h) (hused : used true (h ++ [e]) = used true h)
    (he : ∀ s, e ≠ .tx s) : TxInv (h ++ [e]) sent txPacket txp := by
  refine ⟨?_, ?_, ?_, ?_, fun s hs => ?_, ?_, ?_⟩
  · rw [hview]
    exact hinv.sent
  · rw [hview]
    exact hinv.runs
  · rw [hview]
    exact hinv.txPacket
  · rw [hview]
    exact hinv.noStray
  · obtain hs | hs := List.mem_append.mp hs
    · exact hinv.handedBack s hs
    · exact absurd (List.mem_singleton.mp hs).symm (he s)
  · rw [hused]
    exact hinv.order
  · rw [hused]
    exact hinv.place

theorem RxInv.other {rxPacket : Option (List Byte)} {offset rxp : Nat} (hinv : RxInv h rxPacket offset rxp)
    (hview : rxView (h ++ [e]) = rxView h) (hused : used false (h ++ [e]) = used false h) :
    RxInv (h ++ [e]) rxPacket offset rxp := by
  refine ⟨?_, ?_, ?_, ?_, ?_⟩
  · rw [hview]
    exact hinv.done
  · have hreceiving := hinv.receiving
    unfold Receiving at hreceiving ⊢
    rw [hview]
    exact hreceiving
  · rw [hview]
    exact hinv.overrun
  · rw [hused]
    exact hinv.order
  · rw [hused]
    exact hinv.place

theorem next_lt {p len : Nat} (h : p < len) : LeData.next p len < len := by
  unfold LeData.next
  split <;> omega

theorem Ready.other {rxp rlen txp tlen rxp' txp' : Nat} (hready : Ready h rxp rlen txp tlen) (he : e ≠ .init)
    (hrxp : rxp < rlen → rxp' < rlen) (htxp : txp < tlen → txp' < tlen) : Ready (h ++ [e]) rxp' rlen txp' tlen := by
  obtain ⟨hinit, hrx, htx⟩ | ⟨hinit, hlens⟩ := hready
  · exact Or.inl ⟨List.mem_append_left _ hinit, hrxp hrx, htxp htx⟩
  · refine Or.inr ⟨fun hmem => ?_, hlens⟩
    obtain hmem | hmem := List.mem_append.mp hmem
    · exact hinit hmem
    · exact he (List.mem_singleton.mp hmem).symm

end

namespace LeData
variable {d d' : LeData}

/-! ## Transmission -/

/-- The descriptor that le_tx() looks at, and how it is handed back. -/
def txRecord (d : LeData) : LeStep where
  big := d.isBigendian
  addr := d.tdra + d.txp * 8
  index := d.txp
  ringLen := d.tlen
  pre := d.sram
  post := write16bit d.isBigendian d.sram (d.tdra + d.txp * 8 + 2)
    (d.read16 (d.tdra + d.txp * 8 + 2) &&& ~~~leOwn)

theorem txRecord_handedBack (howned : has (d.read16 (d.tdra + d.txp * 8 + 2)) leOwn = true) :
    d.txRecord.HandedBack :=
  ⟨howned, read_write, fun _ h2 h3 => write_other h2 h3⟩

theorem usable_own {w1 w2 : BitVec 16} (h : usable w1 w2 = true) : has w1 leOwn = true := by
  unfold usable at h
  simp only [Bool.and_eq_true] at h
  exact h.1.1

theorem txStep_spec (h : d.txStep = some d') : ∃ s : LeStep, s.HandedBack ∧ s.index = d.txp ∧ s.ringLen = d.tlen ∧
    s.pre = d.sram ∧
    (d.txPacket = none → s.stp s.pre = true) ∧
    (∃ reg, d' = { d with
      txPacket := if s.enp s.pre then none
        else some (if s.stp s.pre then s.data else d.txPacket.getD [] ++ s.data)
      sent := if s.enp s.pre then d.sent ++ [if s.stp s.pre then s.data else d.txPacket.getD [] ++ s.data] else d.sent
      reg := reg
      sram := s.post
      txp := next d.txp d.tlen
      history := d.history ++ [.tx s] }) := by
  have hback : writeBack d.isBigendian d.sram (d.tdra + d.txp * 8) (d.read16 (d.tdra + d.txp * 8 + 2) &&& ~~~leOwn)
      (d.read16 (d.tdra + d.txp * 8 + 4)) (d.read16 (d.tdra + d.txp * 8 + 6)) = d.txRecord.post := writeBack_same
  unfold writeBack at hback
  unfold txStep at h
  simp only [hback] at h
  split at h
  · cases h
  · rename_i husable
    split at h
    · cases h
    · rename_i hstp
      refine ⟨d.txRecord, txRecord_handedBack (usable_own (by simpa using husable)), rfl, rfl, rfl, fun hnone => ?_,
        _, (Option.some.inj h).symm⟩
      rw [hnone] at hstp
      have hfirst : has (d.read16 (d.tdra + d.txp * 8 + 2)) leStp = true := by simpa using hstp
      exact hfirst

theorem txStep_inv (h : d.txStep = some d') (hinv : Inv d) : Inv d' := by
  obtain ⟨s, hback, hindex, hlen, hpre, hstp, reg, rfl⟩ := txStep_spec h
  have hview := txView_append (h := d.history) (.tx s)
  dsimp only at hview
  have hcur : (if s.stp s.pre = true then some [s] else (txView d.history).cur.map (· ++ [s])).map
      (fun l => l.flatMap LeStep.data) =
      some (if s.stp s.pre = true then s.data else d.txPacket.getD [] ++ s.data) := by
    by_cases hfirst : s.stp s.pre = true
    · rw [if_pos hfirst, if_pos hfirst]
      simp
    · rw [if_neg hfirst, if_neg hfirst]
      cases hc : (txView d.history).cur with
      | none =>
        have hnone : d.txPacket = none := by rw [hinv.tx.txPacket, hc]; rfl
        exact absurd (hstp hnone) hfirst
      | some l =>
        rw [hinv.tx.txPacket, hc]
        simp
  obtain ⟨l, hl, hdata⟩ := Option.map_eq_some_iff.mp hcur
  have hadd : (txView d.history).add (fun s => s.stp s.pre) (fun s => s.enp s.pre) s =
      if s.enp s.pre = true then { txView d.history with frames := (txView d.history).frames ++ [l], cur := none }
      else { txView d.history with cur := some l } := by
    rw [Segments.add, hl]
  have htx : TxInv (d.history ++ [.tx s])
      (if s.enp s.pre then d.sent ++ [if s.stp s.pre then s.data else d.txPacket.getD [] ++ s.data] else d.sent)
      (if s.enp s.pre then none else some (if s.stp s.pre then s.data else d.txPacket.getD [] ++ s.data))
      (next d.txp d.tlen) := by
    refine ⟨?_, ?_, ?_, ?_, fun x hx => ?_, ?_, ?_⟩
    · rw [hview, hadd]
      split
      · rw [List.map_append, ← hinv.tx.sent, List.map_singleton, hdata]
      · exact hinv.tx.sent
    · rw [hview]
      exact hinv.tx.runs.add s
    · rw [hview, hadd]
      split
      · rfl
      · rw [Option.map_some, hdata]
    · rw [hview, hadd]
      split
      · exact hinv.tx.noStray
      · exact hinv.tx.noStray
    · obtain hx | hx := List.mem_append.mp hx
      · exact hinv.tx.handedBack x hx
      · cases List.mem_singleton.mp hx
        exact hback
    · rw [used_append]
      exact hinv.tx.order.append (hindex.trans hinv.tx.place)
    · rw [used_append]
      rw [ringPlace_append, hindex, hlen]
  refine ⟨htx, hinv.rx.other (rxView_append _) (used_append false _), ?_,
    hinv.ready.other (fun he => nomatch he) id next_lt⟩
  apply Linked.tx s
  rw [hpre]
  exact hinv.linked

theorem txLoop_inv {start : Nat} : ∀ {fuel : Nat} {d : LeData}, Inv d → Inv (txLoop start fuel d)
  | 0, _, hinv => hinv
  | fuel + 1, d, hinv => by
    unfold txLoop
    cases h : d.txStep with
    | none => exact hinv
    | some d' =>
      dsimp only
      split
      · exact txStep_inv h hinv
      · exact txLoop_inv (txStep_inv h hinv)

theorem setReg_inv {r : Nat} {x : BitVec 16} (hinv : Inv d) : Inv (d.setReg r x) := { hinv with }

theorem tx_inv (hinv : Inv d) : Inv d.tx := txLoop_inv (setReg_inv hinv)

/-! ## Reception -/

/-- The descriptor that le_rx() looks at, and how it is handed back at the end of a frame. -/
def rxRecord (d : LeData) (post : Sram) : LeStep where
  big := d.isBigendian
  addr := d.rdra + d.rxp * 8
  index := d.rxp
  ringLen := d.rlen
  pre := d.sram
  post := post

theorem usable_buflen {w1 w2 : BitVec 16} (h : usable w1 w2 = true) : 4096 - (w2 &&& 0xfff#16).toNat ≤ 1900 := by
  unfold usable at h
  simp only [Bool.and_eq_true, Bool.not_eq_true', Bool.or_eq_false_iff, decide_eq_false_iff_not] at h
  omega

theorem has_or {w bit mask : BitVec 16} (hmask : mask &&& bit = bit) (hbit : bit ≠ 0#16) :
    has ((w ||| bit) &&& mask) bit = true := by
  have habsorb : (w ||| bit) &&& bit = bit := by
    ext i hi
    simp only [BitVec.getElem_and, BitVec.getElem_or]
    cases w[i] <;> cases bit[i] <;> rfl
  unfold has
  rw [BitVec.and_assoc, hmask, habsorb]
  simpa using hbit

theorem has_endOfFrame (w : BitVec 16) : has ((w ||| leEnp ||| leStp) &&& ~~~leOwn) leStp = true ∧
    has ((w ||| leEnp ||| leStp) &&& ~~~leOwn) leEnp = true ∧
    has ((w ||| leEnp ||| leStp) &&& ~~~leOwn) leOwn = false := by
  refine ⟨has_or (by decide) (by decide), ?_, ?_⟩
  · have hcomm : w ||| leEnp ||| leStp = w ||| leStp ||| leEnp := by
      rw [BitVec.or_assoc, BitVec.or_comm leEnp, ← BitVec.or_assoc]
    rw [hcomm]
    exact has_or (by decide) (by decide)
  · unfold has
    rw [BitVec.and_assoc, show ~~~leOwn &&& leOwn = 0#16 from by decide, BitVec.and_zero]
    rfl

theorem rxStep_spec (h : d.rxStep = some d') : ∃ f s, d.rxPacket = some f ∧ s.index = d.rxp ∧ s.ringLen = d.rlen ∧
    s.pre = d.sram ∧
    (d.rxPacketOffset ≤ f.length →
      (d.rxPacketOffset + s.buflen < f.length ∧ ∃ middle, d' = { d with
        rxPacketOffset := d.rxPacketOffset + s.buflen
        rxMiddleBit := middle
        sram := s.post
        rxp := next d.rxp d.rlen
        history := d.history ++ [.rx s] }) ∨
      (f.length ≤ d.rxPacketOffset + s.buflen ∧ s.buflen ≤ 1900 ∧ s.own s.pre = true ∧
        s.post = writeBack s.big (storeBytes s.pre s.bufaddr ((f.drop d.rxPacketOffset).take s.buflen)) s.addr
          ((s.word s.pre 1 ||| leEnp ||| leStp) &&& ~~~leOwn) (s.word s.pre 2)
          ((s.word s.pre 3 &&& ~~~0xfff#16) ||| BitVec.ofNat 16 (f.length + 4)) ∧
        ∃ middle reg, d' = { d with
          rxPacket := none
          rxPacketOffset := 0
          rxMiddleBit := middle
          reg := reg
          sram := s.post
          rxp := next d.rxp d.rlen
          history := d.history ++ [.rx s] })) := by
  unfold rxStep at h
  cases hpacket : d.rxPacket with
  | none =>
    rw [hpacket] at h
    cases h
  | some f =>
    rw [hpacket] at h
    dsimp only at h
    split at h
    · cases h
    · rename_i husable
      have husable' : usable (d.read16 (d.rdra + d.rxp * 8 + 2)) (d.read16 (d.rdra + d.rxp * 8 + 4)) = true := by
        simpa using husable
      refine ⟨f, d.rxRecord d'.sram, rfl, rfl, rfl, rfl, fun hoff => ?_⟩
      have hlen : ((f.drop d.rxPacketOffset).take (d.rxRecord d'.sram).buflen).length =
          min (d.rxRecord d'.sram).buflen (f.length - d.rxPacketOffset) := by
        rw [List.length_take, List.length_drop]
      have hbuflen : (d.rxRecord d'.sram).buflen = 4096 - ((d.read16 (d.rdra + d.rxp * 8 + 4)) &&& 0xfff#16).toNat := rfl
      by_cases hend : d.rxPacketOffset + (d.rxRecord d'.sram).buflen < f.length
      · have hcopied : ((f.drop d.rxPacketOffset).take
            (4096 - ((d.read16 (d.rdra + d.rxp * 8 + 4)) &&& 0xfff#16).toNat)).length = (d.rxRecord d'.sram).buflen := by
          rw [← hbuflen, hlen]
          omega
        have hcomplete : decide (f.length ≤ d.rxPacketOffset + (d.rxRecord d'.sram).buflen) = false := by
          simpa using hend
        simp only [hcopied, hcomplete, Bool.false_eq_true, if_false] at h
        have hd' := (Option.some.inj h).symm
        refine Or.inl ⟨hend, d'.rxMiddleBit, ?_⟩
        rw [hd']
        rfl
      · have hcomplete : decide (f.length ≤ d.rxPacketOffset + ((f.drop d.rxPacketOffset).take
            (4096 - ((d.read16 (d.rdra + d.rxp * 8 + 4)) &&& 0xfff#16).toNat)).length) = true := by
          rw [← hbuflen, hlen]
          simp only [decide_eq_true_eq]
          omega
        simp only [hcomplete, if_true] at h
        have hd' := (Option.some.inj h).symm
        have hpost : d'.sram = writeBack d.isBigendian (storeBytes d.sram (d.rxRecord d'.sram).bufaddr
            ((f.drop d.rxPacketOffset).take (d.rxRecord d'.sram).buflen)) (d.rdra + d.rxp * 8)
            ((d.read16 (d.rdra + d.rxp * 8 + 2) ||| leEnp ||| leStp) &&& ~~~leOwn) (d.read16 (d.rdra + d.rxp * 8 + 4))
            ((d.read16 (d.rdra + d.rxp * 8 + 6) &&& ~~~0xfff#16) ||| BitVec.ofNat 16 (f.length + 4)) :=
          congrArg LeData.sram hd'
        refine Or.inr ⟨not_lt.mp hend, usable_buflen husable', usable_own husable', hpost, d'.rxMiddleBit, d'.reg, ?_⟩
        rw [hd']
        rfl

theorem lastPut {f : List Byte} {l : List LeStep} {s : LeStep} {off : Nat} (hoff : off = Scatter.room LeStep.buflen l)
    (hbefore : l = [] ∨ Scatter.room LeStep.buflen l < f.length) (henough : f.length ≤ off + s.buflen)
    (hshort : s.buflen ≤ 1900) (hown : s.own s.pre = true)
    (hpost : s.post = writeBack s.big (storeBytes s.pre s.bufaddr ((f.drop off).take s.buflen)) s.addr
      ((s.word s.pre 1 ||| leEnp ||| leStp) &&& ~~~leOwn) (s.word s.pre 2)
      ((s.word s.pre 3 &&& ~~~0xfff#16) ||| BitVec.ofNat 16 (f.length + 4))) : LastPut f l s := by
  obtain ⟨hword1, hword3, hother⟩ := @writeBack_spec s.big (storeBytes s.pre s.bufaddr ((f.drop off).take s.buflen)) s.addr
    ((s.word s.pre 1 ||| leEnp ||| leStp) &&& ~~~leOwn) (s.word s.pre 2)
    ((s.word s.pre 3 &&& ~~~0xfff#16) ||| BitVec.ofNat 16 (f.length + 4))
  rw [← hpost] at hword1 hword3 hother
  have hword1 : s.word s.post 1 = (s.word s.pre 1 ||| leEnp ||| leStp) &&& ~~~leOwn := hword1
  have hlen : ((f.drop off).take s.buflen).length = min s.buflen (f.length - off) := by
    rw [List.length_take, List.length_drop]
  have hsize : ((f.drop off).take s.buflen).length ≤ sramSize := by
    rw [hlen]
    unfold sramSize
    omega
  obtain ⟨hin, hout⟩ := @storeBytes_spec ((f.drop off).take s.buflen) s.pre s.bufaddr hsize
  refine ⟨hbefore, ?_, fun hsep i hi hlt => ?_, ?_, ?_, ⟨hown, ?_⟩, hshort, hword3, fun a hdesc hbuf => ?_⟩
  · rw [Scatter.room_append, ← hoff]
    exact henough
  · have hcopied : i < ((f.drop off).take s.buflen).length := by
      rw [hlen]
      omega
    rw [hother _ (hsep s (List.mem_singleton.mpr rfl) i hi), hin i hcopied, ← hoff]
    simp only [List.getD_eq_getElem?_getD, List.getElem?_take, List.getElem?_drop, if_pos hi]
  · rw [LeStep.stp, hword1]
    exact (has_endOfFrame _).1
  · rw [LeStep.enp, hword1]
    exact (has_endOfFrame _).2.1
  · rw [LeStep.own, hword1]
    exact (has_endOfFrame _).2.2
  · rw [hother a hdesc]
    apply hout
    intro i hi
    rw [hlen] at hi
    exact hbuf i (by omega)

theorem rxStep_inv (h : d.rxStep = some d') (hinv : Inv d) : Inv d' := by
  obtain ⟨f, s, hpacket, hindex, hlen, hpre, hspec⟩ := rxStep_spec h
  have hreceiving := hinv.rx.receiving
  rw [hpacket] at hreceiving
  obtain ⟨l, hcur, hoff, hbefore⟩ := hreceiving
  have hle : d.rxPacketOffset ≤ f.length := by
    obtain rfl | hlt := hbefore
    · rw [hoff]
      exact Nat.zero_le _
    · omega
  have hrx : rxView (d.history ++ [.rx s]) = (rxView d.history).add LeStep.buflen s := rxView_append (.rx s)
  have hused : used false (d.history ++ [.rx s]) = used false d.history ++ [s] := used_append false (.rx s)
  have htx : TxInv (d.history ++ [.rx s]) d.sent d.txPacket d.txp :=
    hinv.tx.other (txView_append _) (used_append true _) (fun _ he => nomatch he)
  have horder : InRingOrder (used false (d.history ++ [.rx s])) := by
    rw [hused]
    exact hinv.rx.order.append (hindex.trans hinv.rx.place)
  have hplace : next d.rxp d.rlen = ringPlace (used false (d.history ++ [.rx s])) := by
    rw [hused, ringPlace_append, hindex, hlen]
  have hlinked : Linked (d.history ++ [.rx s]) s.post := by
    apply Linked.rx s
    rw [hpre]
    exact hinv.linked
  have hready : Ready (d.history ++ [.rx s]) (next d.rxp d.rlen) d.rlen d.txp d.tlen :=
    hinv.ready.other (fun he => nomatch he) next_lt id
  obtain ⟨hgoes, middle, rfl⟩ | ⟨hends, hshort, hown, hpost, middle, reg, rfl⟩ := hspec hle
  · -- The frame goes on in the next buffer.
    have hroom : Scatter.room LeStep.buflen (l ++ [s]) < f.length := by
      rw [Scatter.room_append, ← hoff]
      exact hgoes
    have hadd : (rxView d.history).add LeStep.buflen s = { rxView d.history with cur := some (f, l ++ [s]) } := by
      rw [Scatter.add, hcur]
      exact if_neg (not_le.mpr hroom)
    rw [hadd] at hrx
    refine ⟨htx, ⟨?_, ?_, ?_, horder, hplace⟩, hlinked, hready⟩
    · rw [hrx]
      exact hinv.rx.done
    · dsimp only
      rw [hpacket, Receiving, hrx]
      refine ⟨l ++ [s], rfl, ?_, Or.inr hroom⟩
      rw [Scatter.room_append, hoff]
    · rw [hrx]
      exact hinv.rx.overrun
  · -- The frame ends in this buffer.
    have hroom : f.length ≤ Scatter.room LeStep.buflen (l ++ [s]) := by
      rw [Scatter.room_append, ← hoff]
      exact hends
    have hadd : (rxView d.history).add LeStep.buflen s =
        { rxView d.history with done := (rxView d.history).done ++ [(f, l ++ [s])], cur := none } := by
      rw [Scatter.add, hcur]
      exact if_pos hroom
    rw [hadd] at hrx
    refine ⟨htx, ⟨fun fl hfl => ?_, ?_, ?_, horder, hplace⟩, hlinked, hready⟩
    · rw [hrx] at hfl
      obtain hfl | hfl := List.mem_append.mp hfl
      · exact hinv.rx.done fl hfl
      · rw [List.mem_singleton.mp hfl]
        exact ⟨l, s, rfl, lastPut hoff hbefore hends hshort hown hpost⟩
    · show (rxView (d.history ++ [.rx s])).cur = none ∧ 0 = 0
      rw [hrx]
      exact ⟨rfl, rfl⟩
    · rw [hrx]
      exact hinv.rx.overrun

theorem rxLoop_inv {start : Nat} : ∀ {fuel : Nat} {d : LeData}, Inv d → Inv (rxLoop start fuel d)
  | 0, _, hinv => hinv
  | fuel + 1, d, hinv => by
    unfold rxLoop
    cases h : d.rxStep with
    | none => exact hinv
    | some d' =>
      dsimp only
      split
      · exact rxStep_inv h hinv
      · exact rxLoop_inv (rxStep_inv h hinv)

theorem rx_inv (hinv : Inv d) : Inv d.rx := rxLoop_inv hinv

theorem take_inv {f : List Byte} (hidle : d.rxPacket = none) (hinv : Inv d) :
    Inv { d with rxPacket := some f, history := d.history ++ [.take f] } := by
  have hreceiving := hinv.rx.receiving
  rw [hidle] at hreceiving
  obtain ⟨hcur, hoff⟩ := hreceiving
  have hused : used false (d.history ++ [.take f]) = used false d.history := used_append false (.take f)
  have hrx : rxView (d.history ++ [.take f]) = { rxView d.history with cur := some (f, []) } := by
    rw [rxView_append]
    show Scatter.take _ f = _
    rw [Scatter.take, hcur]
    simp
  refine ⟨hinv.tx.other (txView_append _) (used_append true _) (fun _ he => nomatch he), ⟨?_, ?_, ?_, ?_, ?_⟩,
    .take f hinv.linked, hinv.ready.other (fun he => nomatch he) id id⟩
  · rw [hrx]
    exact hinv.rx.done
  · rw [Receiving, hrx]
    exact ⟨[], rfl, hoff, Or.inl rfl⟩
  · rw [hrx]
    exact hinv.rx.overrun
  · rw [hused]
    exact hinv.rx.order
  · rw [hused]
    exact hinv.rx.place

theorem fixRx_inv : ∀ {arrived : List (List Byte)} {d : LeData}, Inv d → Inv (fixRx arrived d)
  | arrived, d, hinv => by
    have hrx : Inv (if d.rxPacket.isSome then d.rx else d) := by
      split
      · exact rx_inv hinv
      · exact hinv
    unfold fixRx
    generalize (if d.rxPacket.isSome then d.rx else d) = d at hrx
    dsimp only
    split
    · exact { hrx with }
    · rename_i hidle
      split
      · exact { hrx with }
      · split
        · exact { hrx with }
        · exact fixRx_inv (take_inv (by simpa using hidle) hrx)

/-! ## The registers -/

theorem chipInit_inv (hinv : Inv d) : Inv d.chipInit := by
  have htx : txView (d.history ++ [.init]) = (txView d.history).cut := txView_append .init
  have hrx : rxView (d.history ++ [.init]) = (rxView d.history).cut := rxView_append .init
  have hused : ∀ tx, used tx (d.history ++ [.init]) = [] := by
    intro tx
    rw [used_append]
  have hpos : ∀ k, 0 < 1 <<< k := by
    intro k
    rw [Nat.one_shiftLeft]
    exact Nat.two_pow_pos k
  have htxInv : TxInv (d.history ++ [.init]) d.sent none 0 := by
    refine ⟨?_, ?_, ?_, ?_, fun s hs => ?_, ?_, ?_⟩
    · rw [htx]
      exact hinv.tx.sent
    · rw [htx]
      exact hinv.tx.runs.cut
    · rw [htx]
      rfl
    · rw [htx]
      exact hinv.tx.noStray
    · apply hinv.tx.handedBack s
      simpa using hs
    · rw [hused]
      exact inRingOrder_nil
    · rw [hused]
      rfl
  have hrxInv : RxInv (d.history ++ [.init]) none 0 0 := by
    refine ⟨?_, ?_, ?_, ?_, ?_⟩
    · rw [hrx]
      exact hinv.rx.done
    · show (rxView (d.history ++ [.init])).cur = none ∧ 0 = 0
      rw [hrx]
      exact ⟨rfl, rfl⟩
    · rw [hrx]
      exact hinv.rx.overrun
    · rw [hused]
      exact inRingOrder_nil
    · rw [hused]
      rfl
  exact ⟨htxInv, hrxInv, .init hinv.linked, Or.inl ⟨by simp [chipInit], hpos _, hpos _⟩⟩

theorem registerFix_inv (hinv : Inv d) : Inv d.registerFix := by
  apply setReg_inv
  have hinit : Inv (if has (d.reg 0) leInit then d.chipInit else d) := by
    split
    · exact chipInit_inv hinv
    · exact hinv
  generalize (if has (d.reg 0) leInit then d.chipInit else d) = d at hinit
  have hrx : Inv (if has (d.reg 0) leRxon then fixRx d.arrived d else d) := by
    split
    · exact fixRx_inv hinit
    · exact hinit
  generalize (if has (d.reg 0) leRxon then fixRx d.arrived d else d) = d at hrx
  split
  · exact tx_inv hrx
  · exact hrx

theorem tick_inv (hinv : Inv d) : Inv d.tick := { registerFix_inv hinv with }

theorem registerWrite_inv {r : Nat} {x : BitVec 16} (hinv : Inv d) : Inv (d.registerWrite r x) := by
  unfold registerWrite
  split
  · exact setReg_inv hinv
  · exact setReg_inv hinv

theorem guest_inv {addr : Nat} {data : List Byte} (hinv : Inv d) :
    Inv { d with sram := guestWrite d.sram addr data, history := d.history ++ [.guest addr data] } :=
  ⟨hinv.tx.other (txView_append _) (used_append true _) (fun _ he => nomatch he),
    hinv.rx.other (rxView_append _) (used_append false _), .guest addr data hinv.linked,
    hinv.ready.other (fun he => nomatch he) id id⟩

theorem step_inv (op : LeOp) (hinv : Inv d) : Inv (d.step op) := by
  cases op with
  | registerWrite idata => exact tick_inv (registerWrite_inv hinv)
  | registerSelect idata =>
    have hsel : Inv { d with regSelect := (idata &&& 3#64).toNat } := { hinv with }
    exact tick_inv hsel
  | tick => exact tick_inv hinv
  | sramWrite addr data =>
    unfold step
    dsimp only
    split
    · exact guest_inv hinv
    · exact hinv
  | arrive frame => exact { hinv with }

end LeData

def start (big tapdev : Bool) : LeData := { isBigendian := big, tapdev := tapdev }

theorem start_inv (big tapdev : Bool) : Inv (start big tapdev) := by
  refine ⟨⟨rfl, ⟨?_, ?_⟩, rfl, rfl, ?_, inRingOrder_nil, rfl⟩, ⟨?_, ⟨rfl, rfl⟩, rfl, inRingOrder_nil, rfl⟩, .start,
    Or.inr ⟨?_, rfl, rfl⟩⟩
  · exact fun l hl => nomatch hl
  · exact fun l hl => nomatch hl
  · exact fun s hs => nomatch hs
  · exact fun fl hfl => nomatch hfl
  · exact fun hinit => nomatch hinit

theorem run_inv (big tapdev : Bool) (ops : List LeOp) : Inv (ops.foldl LeData.step (start big tapdev)) := by
  have hrun : ∀ d, Inv d → Inv (ops.foldl LeData.step d) := by
    induction ops with
    | nil => exact fun _ hinv => hinv
    | cons op ops ih => exact fun d hinv => ih _ (LeData.step_inv op hinv)
  exact hrun _ (start_inv big tapdev)

theorem merge_length {w : BitVec 16} {n : Nat} (hn : n < 4096) :
    (((w &&& ~~~0xfff#16) ||| BitVec.ofNat 16 n) &&& 0xfff#16).toNat = n ∧
    ((w &&& ~~~0xfff#16) ||| BitVec.ofNat 16 n) &&& 0xf000#16 = w &&& 0xf000#16 := by
  have hlow : BitVec.ofNat 16 n = BitVec.ofNat 16 n &&& 0xfff#16 := by
    apply BitVec.eq_of_toNat_eq
    have hmask : n &&& (2 ^ 12 - 1) = n := by
      rw [Nat.and_two_pow_sub_one_eq_mod]
      exact Nat.mod_eq_of_lt hn
    rw [BitVec.toNat_and, BitVec.toNat_ofNat, Nat.mod_eq_of_lt (by omega : n < 2 ^ 16)]
    exact hmask.symm
  have hmerge : ∀ x m : BitVec 16, ((w &&& ~~~m) ||| (x &&& m)) &&& m = x &&& m := by
    intro x m
    ext i hi
    simp only [BitVec.getElem_and, BitVec.getElem_or, BitVec.getElem_not]
    cases w[i] <;> cases x[i] <;> cases m[i] <;> rfl
  have hrest : ∀ x m : BitVec 16, ((w &&& ~~~m) ||| (x &&& m)) &&& ~~~m = w &&& ~~~m := by
    intro x m
    ext i hi
    simp only [BitVec.getElem_and, BitVec.getElem_or, BitVec.getElem_not]
    cases w[i] <;> cases x[i] <;> cases m[i] <;> rfl
  constructor
  · rw [hlow, hmerge, ← hlow, BitVec.toNat_ofNat]
    exact Nat.mod_eq_of_lt (by omega)
  · rw [hlow]
    exact hrest _ 0xfff#16

section
variable {f : List Byte} {l : List LeStep} {s : LeStep}

theorem LastPut.alone (h : LastPut f l s) (hfits : FitsFirst f (l ++ [s])) : l = [] := by
  obtain hnil | hlt := h.before
  · exact hnil
  · cases l with
    | nil => rfl
    | cons x l =>
      have hx : f.length ≤ x.buflen := hfits x rfl
      have hroom : Scatter.room LeStep.buflen (x :: l) = x.buflen + Scatter.room LeStep.buflen l := rfl
      omega

theorem LastPut.stored (h : LastPut f l s) (hfits : FitsFirst f (l ++ [s])) (hsep : Separate (l ++ [s])) :
    Stored f (l ++ [s]) := by
  obtain rfl := h.alone hfits
  have hfirst : ∀ {k x}, ([] ++ [s])[k]? = some x → k = 0 ∧ x = s := by
    intro k x hx
    obtain ⟨hk, hval⟩ := List.getElem?_eq_some_iff.mp hx
    have hk0 : k = 0 := by simpa using hk
    subst hk0
    exact ⟨rfl, hval.symm⟩
  have hlen : f.length + 4 < 4096 := by
    have hfit : f.length ≤ s.buflen := hfits s rfl
    have hshort := h.short
    omega
  obtain ⟨hlength, hbits⟩ := @merge_length (s.word s.pre 3) (f.length + 4) hlen
  refine ⟨fun k x hx i hi hlt => ?_, h.enough, fun k x hx => ?_, fun k x hx => ?_, fun x hx => ?_, fun x hx => ?_,
    fun x hx => ?_⟩
  · obtain ⟨rfl, rfl⟩ := hfirst hx
    exact h.bytes hsep i hi hlt
  · obtain ⟨rfl, rfl⟩ := hfirst hx
    exact iff_of_true h.stp rfl
  · obtain ⟨rfl, rfl⟩ := hfirst hx
    exact iff_of_true h.enp rfl
  · rw [List.mem_singleton.mp hx]
    exact h.owned
  · obtain rfl : s = x := by simpa using hx
    rw [h.length]
    exact ⟨hlength, hbits⟩
  · rw [List.mem_singleton.mp hx]
    exact h.others

theorem LastPut.fitsFirst (h : LastPut f l s) (hstored : Stored f (l ++ [s])) : FitsFirst f (l ++ [s]) := by
  have hlast : (l ++ [s])[l.length]? = some s := by simp
  have hzero : l.length = 0 := (hstored.stp l.length s hlast).mp h.stp
  rw [List.eq_nil_of_length_eq_zero hzero]
  intro x hx
  cases hx
  have henough := h.enough
  rw [List.eq_nil_of_length_eq_zero hzero] at henough
  simpa [Scatter.room] using henough

end

/-- Whole frames are transferred in the runs in which each frame that is received fits into one buffer, once the chip
has been initialized. -/
theorem rings_right (big tapdev : Bool) (ops : List LeOp) : let d := ops.foldl LeData.step (start big tapdev)
    ((∀ fl ∈ (rxView d.history).done, FitsFirst fl.1 fl.2 ∧ Separate fl.2) ∧ LeEvent.init ∈ d.history →
      RingsRight d) ∧
    (RingsRight d → (∀ fl ∈ (rxView d.history).done, FitsFirst fl.1 fl.2) ∧ LeEvent.init ∈ d.history) := by
  intro d
  have hinv : Inv d := run_inv big tapdev ops
  constructor
  · rintro ⟨hfits, hinit⟩
    have hplaces : d.rxp < d.rlen ∧ d.txp < d.tlen := by
      obtain ⟨-, hplaces⟩ | ⟨hnot, -⟩ := hinv.ready
      · exact hplaces
      · exact absurd hinit hnot
    refine ⟨hinv.tx.sent, hinv.tx.runs.frames, hinv.tx.noStray, hinv.tx.handedBack, hinv.tx.order, fun fl hfl => ?_,
      hinv.rx.order, hinv.rx.overrun, hinv.linked, hplaces.1, hplaces.2⟩
    obtain ⟨l, s, hl, hput⟩ := hinv.rx.done fl hfl
    have hfit := hfits fl hfl
    rw [hl] at hfit ⊢
    exact hput.stored hfit.1 hfit.2
  · intro hright
    constructor
    · intro fl hfl
      obtain ⟨l, s, hl, hput⟩ := hinv.rx.done fl hfl
      have hstored := hright.stored fl hfl
      rw [hl] at hstored ⊢
      exact hput.fitsFirst hstored
    · obtain ⟨hinit, -⟩ | ⟨-, hrlen, -⟩ := hinv.ready
      · exact hinit
      · have hrxp := hright.rxp
        omega

/-- An initialization block, a ring of two receive buffers of 12 bytes each, and a frame of 20 bytes. -/
def longFrameRun : List LeOp :=
  [.sramWrite 0 (List.replicate 16 0#8 ++ [0x00#8, 0x01#8, 0x00#8, 0x20#8, 0x00#8, 0x02#8, 0x00#8, 0x00#8]),
    .sramWrite 0x100 [0x00#8, 0x03#8, 0x00#8, 0x80#8, 0xf4#8, 0xff#8, 0x00#8, 0x00#8,
      0x00#8, 0x04#8, 0x00#8, 0x80#8, 0xf4#8, 0xff#8, 0x00#8, 0x00#8],
    .arrive (List.replicate 20 0x5a#8), .registerWrite 3#64]

/-- The second of the two descriptors has STP as well. -/
theorem not_rings_right : ¬ RingsRight (longFrameRun.foldl LeData.step (start false false)) := by
  intro hright
  have hstps : (rxView (longFrameRun.foldl LeData.step (start false false)).history).done.map
      (fun fl => fl.2.map fun s => s.stp s.post) = [[true, true]] := by
    decide +kernel
  obtain ⟨fl, hdone, hfl⟩ := List.map_eq_singleton_iff.mp hstps
  have hstored := hright.stored fl (by rw [hdone]; exact List.mem_singleton.mpr rfl)
  obtain ⟨s, hs, hstp⟩ : ∃ s, fl.2[1]? = some s ∧ s.stp s.post = true := by
    have hsecond : (fl.2.map fun s => s.stp s.post)[1]? = some true := by
      rw [hfl]
      rfl
    simpa using hsecond
  exact absurd ((hstored.stp 1 s hs).mp hstp) (by decide)

end Gxemul.Lance
