import Gxemul.Lib.Segments
import Gxemul.Network.Dec21143
import Mathlib.Data.Finset.Card
import Mathlib.Order.Interval.Finset.Nat
import Mathlib.Tactic.IntervalCases

/- The descriptor rings of the DEC 21143.

   What the chip has done is read off its history: `txView` collects the
   descriptors of each transmitted frame, and `rxView` those that each received
   frame was put into. The chip uses one of the two buffers of a descriptor only,
   and takes segments that follow no first one. Where the guest does not let it,
   whole frames are transferred. The loops end wherever descriptors do not
   overlap: each of them is used once, because it is handed back. -/
namespace Gxemul.Dec21143

open Lib (Byte Segments Scatter whileLoop Goes)

/-! ## The memory -/

section
variable {mem : Mem} {p a : Nat} {w0 w1 w2 w3 : BitVec 32}

theorem extract_append (x : BitVec 32) :
    (x.extractLsb' 24 8 ++ x.extractLsb' 16 8 ++ x.extractLsb' 8 8 ++ x.extractLsb' 0 8 : BitVec 32) = x := by
  apply BitVec.eq_of_getLsbD_eq
  intro i hi
  simp only [BitVec.getLsbD_append, BitVec.getLsbD_extractLsb']
  by_cases h0 : i < 8
  · simp [h0]
  · by_cases h1 : i - 8 < 8
    · have hpos : 8 + (i - 8) = i := by omega
      simp [h0, h1, hpos]
    · by_cases h2 : i - 8 - 8 < 8
      · have hpos : 16 + (i - 8 - 8) = i := by omega
        simp [h0, h1, h2, hpos]
      · have h3 : i - 8 - 8 - 8 < 8 := by omega
        have hpos : 24 + (i - 8 - 8 - 8) = i := by omega
        simp [h0, h1, h2, h3, hpos]

theorem writeback_other (ha : a < p ∨ p + 16 ≤ a) : writeback mem p w0 w1 w2 w3 a = mem a := by
  unfold writeback memoryWrite
  split
  · apply List.getD_eq_default
    simp [storeLe32]
    omega
  · rfl

theorem load_writeback : loadLe32 (writeback mem p w0 w1 w2 w3) p = w0 := by
  have hbyte : ∀ i < 4, writeback mem p w0 w1 w2 w3 (p + i) = (storeLe32 w0).getD i 0#8 := by
    intro i hi
    unfold writeback memoryWrite
    rw [if_pos (Nat.le_add_right p i), Nat.add_sub_cancel_left]
    interval_cases i <;> rfl
  unfold loadLe32
  have h0 := hbyte 0 (by decide)
  rw [Nat.add_zero] at h0
  rw [hbyte 3 (by decide), hbyte 2 (by decide), hbyte 1 (by decide), h0]
  exact extract_append w0

end

theorem phys_injective (window : DmaWindow) {bufaddr : BitVec 32} {i j : Nat} (hi : i < 2048) (hj : j < 2048)
    (h : dmaToPhys window.mask (bufaddr + BitVec.ofNat 32 i) = dmaToPhys window.mask (bufaddr + BitVec.ofNat 32 j)) :
    i = j := by
  have hparts : ∀ (m x : BitVec 32), x.toNat = ((x &&& m).toNat + (x &&& ~~~m).toNat) % 2 ^ 32 := by
    intro m x
    rw [← BitVec.toNat_add, BitVec.add_eq_or_of_and_eq_zero]
    · congr 1
      ext k hk
      simp only [BitVec.getElem_or, BitVec.getElem_and, BitVec.getElem_not]
      cases x[k] <;> cases m[k] <;> rfl
    · ext k hk
      simp only [BitVec.getElem_and, BitVec.getElem_not, BitVec.getElem_zero]
      cases x[k] <;> cases m[k] <;> rfl
  have hbit : ∀ (x : BitVec 32) (k : Nat), (x &&& BitVec.twoPow 32 k).toNat = 0 ∨
      (x &&& BitVec.twoPow 32 k).toNat = (BitVec.twoPow 32 k).toNat := by
    intro x k
    rw [BitVec.and_twoPow]
    split
    · exact Or.inr rfl
    · exact Or.inl rfl
  have hsum : ∀ k : Nat, k < 2048 → (bufaddr + BitVec.ofNat 32 k).toNat = (bufaddr.toNat + k) % 2 ^ 32 := by
    intro k hk
    rw [BitVec.toNat_add, BitVec.toNat_ofNat, Nat.mod_eq_of_lt (by omega : k < 2 ^ 32)]
  have hi' := hsum i hi
  have hj' := hsum j hj
  have hpi := hparts window.mask (bufaddr + BitVec.ofNat 32 i)
  have hpj := hparts window.mask (bufaddr + BitVec.ofNat 32 j)
  unfold dmaToPhys at h
  rw [← h] at hpj
  cases window with
  | footbridge =>
    have hmask : ~~~(DmaWindow.mask .footbridge) = BitVec.twoPow 32 29 := by decide
    have hpow : (BitVec.twoPow 32 29).toNat = 536870912 := by decide
    rw [hmask] at hpi hpj
    have hbi := hbit (bufaddr + BitVec.ofNat 32 i) 29
    have hbj := hbit (bufaddr + BitVec.ofNat 32 j) 29
    omega
  | v3 =>
    have hmask : ~~~(DmaWindow.mask .v3) = BitVec.twoPow 32 31 := by decide
    have hpow : (BitVec.twoPow 32 31).toNat = 2147483648 := by decide
    rw [hmask] at hpi hpj
    have hbi := hbit (bufaddr + BitVec.ofNat 32 i) 31
    have hbj := hbit (bufaddr + BitVec.ofNat 32 j) 31
    omega
  | other =>
    have hmask : ~~~(DmaWindow.mask .other) = 0#32 := by decide
    rw [hmask, BitVec.and_zero] at hpi hpj
    omega

theorem dmaWrite_spec (window : DmaWindow) {bufaddr : BitVec 32} : ∀ {l : List Byte} {k : Nat} {mem : Mem},
    k + l.length ≤ 2048 →
    (∀ i < l.length, dmaWrite window.mask bufaddr k l mem (dmaToPhys window.mask (bufaddr + BitVec.ofNat 32 (k + i))) =
      l.getD i 0#8) ∧
    ∀ a, (∀ i < l.length, a ≠ dmaToPhys window.mask (bufaddr + BitVec.ofNat 32 (k + i))) →
      dmaWrite window.mask bufaddr k l mem a = mem a
  | [], k, mem, _ => ⟨fun i hi => absurd hi (Nat.not_lt_zero i), fun _ _ => rfl⟩
  | b :: l, k, mem, hlen => by
    rw [List.length_cons] at hlen
    obtain ⟨hin, hout⟩ := @dmaWrite_spec window bufaddr l (k + 1)
      (Function.update mem (dmaToPhys window.mask (bufaddr + BitVec.ofNat 32 k)) b) (by omega)
    refine ⟨fun i hi => ?_, fun a ha => ?_⟩
    · rw [List.length_cons] at hi
      cases i with
      | zero =>
        rw [dmaWrite, hout _ fun j hj heq => ?_, Nat.add_zero, Function.update_self]
        · rfl
        · have hinj := phys_injective window (by omega) (by omega) heq
          omega
      | succ i =>
        have hpos : k + (i + 1) = k + 1 + i := by omega
        rw [dmaWrite, hpos, hin i (by omega)]
        rfl
    · rw [dmaWrite, hout a fun i hi => ?_, Function.update_of_ne]
      · exact ha 0 (by simp)
      · have hpos : k + 1 + i = k + (i + 1) := by omega
        rw [hpos]
        exact ha (i + 1) (by rw [List.length_cons]; omega)

/-! ## The history -/

namespace DecStep
variable (s : DecStep)

def place : Nat := dmaToPhys s.mask s.addr

def rest : Nat := dmaToPhys s.mask (s.addr + 4#32)
def des1 : BitVec 32 := loadLe32 s.pre s.rest
def des2 : BitVec 32 := loadLe32 s.pre (s.rest + 4)
def des3 : BitVec 32 := loadLe32 s.pre (s.rest + 8)

def own (mem : Mem) : Bool := has (loadLe32 mem s.place) tdstatOwn
def setup : Bool := has s.des1 tdctlTxSet
def txFirst : Bool := has s.des1 tdctlTxFs
def txLast : Bool := has s.des1 tdctlTxLs
def chained : Bool := has s.des1 tdctlCh

def size1 : Nat := (s.des1 &&& tdctlSize1).toNat
def size2 : Nat := ((s.des1 &&& tdctlSize2) >>> 11).toNat

/-- The buffers of the descriptor, the second one unless it is chained: their size, and the place of each byte. -/
def capacity : Nat := s.size1 + if s.chained then 0 else s.size2

def bytePlace (i : Nat) : Nat :=
  if i < s.size1 then dmaToPhys s.mask (s.des2 + BitVec.ofNat 32 i)
  else dmaToPhys s.mask (s.des3 + BitVec.ofNat 32 (i - s.size1))

def data : List Byte := (List.range s.capacity).map fun i => s.pre (s.bytePlace i)

def bufaddr : BitVec 32 := (DecData.buffer s.des1 s.des2 s.des3).1
def bufsize : Nat := (DecData.buffer s.des1 s.des2 s.des3).2
def usedPlace (i : Nat) : Nat := dmaToPhys s.mask (s.bufaddr + BitVec.ofNat 32 i)

def OneBuffer : Prop := if s.size1 ≠ 0 then s.chained = true ∨ s.size2 = 0 else s.chained = false ∨ s.size2 = 0

structure HandedBack : Prop where
  owned : s.own s.pre = true
  given : s.own s.post = false
  others : ∀ a, a < s.place ∨ s.place + 16 ≤ a → s.post a = s.pre a

/-- The descriptor was owned and is handed back, and nothing else changes but the buffer. -/
structure Filled : Prop where
  owned : s.own s.pre = true
  given : s.own s.post = false
  others : ∀ a, a < s.place ∨ s.place + 16 ≤ a → (∀ i < s.bufsize, a ≠ s.usedPlace i) → s.post a = s.pre a

def Separate : Prop := ∀ i < s.bufsize, s.usedPlace i < s.place ∨ s.place + 16 ≤ s.usedPlace i

end DecStep

/-- The frames that have been transmitted. Setup packets are not part of any. -/
def txView (h : List DecEvent) : Segments DecStep :=
  h.foldl (fun c e =>
    match e with
    | .reset => c.cut
    | .tx s => if s.setup then c else c.add DecStep.txFirst DecStep.txLast s
    | _ => c) {}

def rxView (h : List DecEvent) : Scatter DecStep Byte :=
  h.foldl (fun c e =>
    match e with
    | .reset => c.cut
    | .take f => c.take (f ++ List.replicate 4 0#8)
    | .rx s => c.add DecStep.bufsize s
    | _ => c) {}

/-- Where a list of descriptors begins, and the descriptor that is to be used next. -/
def ringPlace (tx : Bool) (h : List DecEvent) : BitVec 32 × BitVec 32 :=
  h.foldl (fun c e =>
    match e, tx with
    | .reset, _ => (0#32, 0#32)
    | .txList a, true => (a &&& ~~~3#32, a &&& ~~~3#32)
    | .rxList a, false => (a &&& ~~~3#32, a &&& ~~~3#32)
    | .tx s, true => (c.1, DecData.nextAddr c.1 s.addr s.des1 s.des3)
    | .rx s, false => (c.1, DecData.nextAddr c.1 s.addr s.des1 s.des3)
    | _, _ => c) (0#32, 0#32)

def InOrder (tx : Bool) (h : List DecEvent) : Prop :=
  ∀ h1 s h2, h = h1 ++ (if tx then .tx s else .rx s) :: h2 → s.addr = (ringPlace tx h1).2

/-- The memory after what has been done. Besides the guest, only descriptors that are used change it. -/
inductive Linked (start : Mem) : List DecEvent → Mem → Prop
  | start : Linked start [] start
  | reset {h : List DecEvent} {mem : Mem} : Linked start h mem → Linked start (h ++ [.reset]) mem
  | txList {h : List DecEvent} {mem : Mem} (a : BitVec 32) : Linked start h mem → Linked start (h ++ [.txList a]) mem
  | rxList {h : List DecEvent} {mem : Mem} (a : BitVec 32) : Linked start h mem → Linked start (h ++ [.rxList a]) mem
  | take {h : List DecEvent} {mem : Mem} (f : List Byte) : Linked start h mem → Linked start (h ++ [.take f]) mem
  | tx {h : List DecEvent} (s : DecStep) : Linked start h s.pre → Linked start (h ++ [.tx s]) s.post
  | rx {h : List DecEvent} (s : DecStep) : Linked start h s.pre → Linked start (h ++ [.rx s]) s.post
  | guest {h : List DecEvent} {mem : Mem} (paddr : Nat) (data : List Byte) :
      Linked start h mem → Linked start (h ++ [.guest paddr data]) (memoryWrite mem paddr data)

structure Stored (frame : List Byte) (l : List DecStep) : Prop where
  bytes : ∀ k s, l[k]? = some s → ∀ i < s.capacity, Scatter.room DecStep.capacity (l.take k) + i < frame.length →
    s.post (s.bytePlace i) = frame.getD (Scatter.room DecStep.capacity (l.take k) + i) 0#8
  enough : frame.length ≤ Scatter.room DecStep.capacity l
  tight : ∀ init s, l = init ++ [s] → Scatter.room DecStep.capacity init < frame.length
  first : ∀ k s, l[k]? = some s → (has (loadLe32 s.post s.place) tdstatRxFs = true ↔ k = 0)
  last : ∀ k s, l[k]? = some s → (has (loadLe32 s.post s.place) tdstatRxLs = true ↔ k + 1 = l.length)
  length : ∀ s, l.getLast? = some s → ((loadLe32 s.post s.place &&& tdstatRxFl) >>> 16).toNat = frame.length

structure RingsRight (mem : Mem) (d : DecData) : Prop where
  sent : d.sent = (txView d.history).frames.map fun l => l.flatMap DecStep.data
  runs : ∀ l ∈ (txView d.history).frames, Segments.IsFrame DecStep.txFirst DecStep.txLast l
  txOrder : InOrder true d.history
  txHandedBack : ∀ s, DecEvent.tx s ∈ d.history → s.HandedBack
  stored : ∀ fl ∈ (rxView d.history).done, Stored fl.1 fl.2
  rxOrder : InOrder false d.history
  rxHandedBack : ∀ s, DecEvent.rx s ∈ d.history → s.Filled
  overrun : (rxView d.history).overrun = []
  linked : Linked mem d.history d.mem

structure Fits (frame : List Byte) (l : List DecStep) : Prop where
  short : frame.length < 16384
  first : ∀ s, l.head? = some s → s.bufsize ≠ 0
  oneBuffer : ∀ k s, l[k]? = some s → s.OneBuffer ∨ (k + 1 = l.length ∧ s.size1 ≠ 0)
  separate : ∀ s ∈ l, s.Separate

def Aligned (tx : Bool) (h : List DecEvent) : Prop :=
  ∀ a, (if tx then DecEvent.txList a else DecEvent.rxList a) ∈ h → a &&& ~~~3#32 = a

/-- What the guest has to do for the chip to transfer whole frames. -/
structure Clean (h : List DecEvent) : Prop where
  /-- No segment is transmitted without a first one before it. -/
  noStray : (txView h).stray = []
  oneBuffer : ∀ s, DecEvent.tx s ∈ h → s.setup = false → s.OneBuffer
  fits : ∀ fl ∈ (rxView h).done, Fits fl.1 fl.2
  txAligned : Aligned true h
  rxAligned : Aligned false h

section
variable {h : List DecEvent} {s : DecStep}

theorem txView_append (e : DecEvent) : txView (h ++ [e]) =
    match e with
    | .reset => (txView h).cut
    | .tx s => if s.setup then txView h else (txView h).add DecStep.txFirst DecStep.txLast s
    | _ => txView h := by
  rw [txView, List.foldl_append]
  rfl

theorem rxView_append (e : DecEvent) : rxView (h ++ [e]) =
    match e with
    | .reset => (rxView h).cut
    | .take f => (rxView h).take (f ++ List.replicate 4 0#8)
    | .rx s => (rxView h).add DecStep.bufsize s
    | _ => rxView h := by
  rw [rxView, List.foldl_append]
  rfl

theorem ringPlace_append (tx : Bool) (e : DecEvent) : ringPlace tx (h ++ [e]) =
    match e, tx with
    | .reset, _ => (0#32, 0#32)
    | .txList a, true => (a &&& ~~~3#32, a &&& ~~~3#32)
    | .rxList a, false => (a &&& ~~~3#32, a &&& ~~~3#32)
    | .tx s, true => ((ringPlace tx h).1, DecData.nextAddr (ringPlace tx h).1 s.addr s.des1 s.des3)
    | .rx s, false => ((ringPlace tx h).1, DecData.nextAddr (ringPlace tx h).1 s.addr s.des1 s.des3)
    | _, _ => ringPlace tx h := by
  rw [ringPlace, List.foldl_append]
  rfl

theorem InOrder.append {tx : Bool} {e : DecEvent} (hord : InOrder tx h)
    (he : ∀ s, e = (if tx then .tx s else .rx s) → s.addr = (ringPlace tx h).2) : InOrder tx (h ++ [e]) := by
  intro h1 s h2 hsplit
  obtain rfl | ⟨rest, y, rfl⟩ := List.eq_nil_or_concat h2
  · obtain ⟨rfl, hx⟩ := List.append_inj' hsplit rfl
    exact he s (List.singleton_inj.mp hx)
  · have hl : h ++ [e] = (h1 ++ (if tx then .tx s else .rx s) :: rest) ++ [y] := by simpa using hsplit
    obtain ⟨rfl, -⟩ := List.append_inj' hl rfl
    exact hord h1 s rest rfl

end

namespace DecStep
variable {s : DecStep}

theorem size1_lt (s : DecStep) : s.size1 < 2048 := by
  have hle : s.size1 ≤ tdctlSize1.toNat := by
    unfold size1
    rw [BitVec.toNat_and]
    exact Nat.and_le_right
  have hval : tdctlSize1.toNat = 2047 := rfl
  omega

theorem size2_lt (s : DecStep) : s.size2 < 2048 := by
  have hle : (s.des1 &&& tdctlSize2).toNat ≤ tdctlSize2.toNat := by
    rw [BitVec.toNat_and]
    exact Nat.and_le_right
  have hval : tdctlSize2.toNat = 4192256 := rfl
  have hshift : s.size2 = (s.des1 &&& tdctlSize2).toNat / 2 ^ 11 := by
    unfold size2
    rw [BitVec.toNat_ushiftRight, Nat.shiftRight_eq_div_pow]
  omega

theorem bufsize_eq (s : DecStep) : s.bufsize = if s.size1 ≠ 0 then s.size1 else s.size2 := rfl

theorem bufsize_lt (s : DecStep) : s.bufsize < 2048 := by
  have h1 := s.size1_lt
  have h2 := s.size2_lt
  rw [bufsize_eq]
  split <;> omega

theorem OneBuffer.bufsize (h : s.OneBuffer) : s.bufsize = s.capacity := by
  unfold OneBuffer at h
  rw [bufsize_eq, capacity]
  split
  · rename_i h1
    rw [if_pos h1] at h
    obtain hch | h2 := h
    · rw [if_pos hch, Nat.add_zero]
    · split <;> omega
  · rename_i h1
    rw [if_neg h1] at h
    obtain hch | h2 := h
    · rw [if_neg (by rw [hch]; decide)]
      omega
    · split <;> omega

theorem usedPlace_eq {i : Nat} (hi : i < s.bufsize) : s.usedPlace i = s.bytePlace i := by
  have hbuf : s.bufaddr = if s.size1 ≠ 0 then s.des2 else s.des3 := rfl
  rw [bufsize_eq] at hi
  unfold usedPlace bytePlace
  rw [hbuf]
  by_cases hz : s.size1 ≠ 0
  · rw [if_pos hz] at hi ⊢
    rw [if_pos hi]
  · have hzero : s.size1 = 0 := by omega
    rw [if_neg hz, hzero, if_neg (Nat.not_lt_zero i), Nat.sub_zero]

theorem OneBuffer.dmaRead (h : s.OneBuffer) : dmaRead s.mask s.pre s.bufaddr s.bufsize = s.data := by
  unfold Dec21143.dmaRead data
  rw [← h.bufsize]
  apply List.map_congr_left
  intro i hi
  have hplace := @usedPlace_eq s i (List.mem_range.mp hi)
  rw [← hplace]
  rfl

end DecStep

/-! ## The status of a received buffer -/

section
variable {x y b : BitVec 32}

theorem has_or : has (x ||| y) b = (has x b || has y b) := by
  have hdist : (x ||| y) &&& b = (x &&& b) ||| (y &&& b) := by
    ext i hi
    simp only [BitVec.getElem_and, BitVec.getElem_or]
    cases x[i] <;> cases y[i] <;> cases b[i] <;> rfl
  have hzero : (x ||| y) &&& b = 0#32 ↔ x &&& b = 0#32 ∧ y &&& b = 0#32 := by
    rw [hdist]
    exact BitVec.or_eq_zero_iff
  unfold has
  rw [Bool.eq_iff_iff]
  simp only [bne_iff_ne, ne_eq, Bool.or_eq_true]
  rw [hzero]
  tauto

theorem has_and_disjoint (hdisjoint : y &&& b = 0#32) : has (x &&& y) b = false := by
  unfold has
  rw [BitVec.and_assoc, hdisjoint, BitVec.and_zero]
  rfl

end

theorem has_rxStatus (first complete : Bool) (len : Nat) :
    has (DecData.rxStatus first complete len) tdstatRxFs = first ∧
    has (DecData.rxStatus first complete len) tdstatRxLs = complete ∧
    has (DecData.rxStatus first complete len) tdstatOwn = false := by
  have hlenFs : has ((BitVec.ofNat 32 len <<< 16) &&& tdstatRxFl) tdstatRxFs = false := has_and_disjoint (by decide)
  have hlenLs : has ((BitVec.ofNat 32 len <<< 16) &&& tdstatRxFl) tdstatRxLs = false := has_and_disjoint (by decide)
  have hlenOwn : has ((BitVec.ofNat 32 len <<< 16) &&& tdstatRxFl) tdstatOwn = false := has_and_disjoint (by decide)
  have htlFs : has tdstatRxTl tdstatRxFs = false := by decide
  have htlLs : has tdstatRxTl tdstatRxLs = false := by decide
  have htlOwn : has tdstatRxTl tdstatOwn = false := by decide
  have hls : has tdstatRxLs tdstatRxFs = false ∧ has tdstatRxLs tdstatRxLs = true ∧
      has tdstatRxLs tdstatOwn = false := by decide
  have hfs : has (if first then tdstatRxFs else 0#32) tdstatRxFs = first ∧
      has (if first then tdstatRxFs else 0#32) tdstatRxLs = false ∧
      has (if first then tdstatRxFs else 0#32) tdstatOwn = false := by
    cases first <;> decide
  unfold DecData.rxStatus
  cases complete with
  | false => exact hfs
  | true =>
    dsimp only
    rw [if_pos rfl]
    split
    · simp only [has_or, hlenFs, hlenLs, hlenOwn, htlFs, htlLs, htlOwn, hls, hfs, Bool.or_false, Bool.or_true,
        and_self]
    · simp only [has_or, hlenFs, hlenLs, hlenOwn, hls, hfs, Bool.or_false, Bool.or_true, and_self]

theorem length_rxStatus (first : Bool) {len : Nat} (hlen : len < 16384) :
    ((DecData.rxStatus first true len &&& tdstatRxFl) >>> 16).toNat = len := by
  have hdist : ∀ x y m : BitVec 32, (x ||| y) &&& m = (x &&& m) ||| (y &&& m) := by
    intro x y m
    ext i hi
    simp only [BitVec.getElem_and, BitVec.getElem_or]
    cases x[i] <;> cases y[i] <;> cases m[i] <;> rfl
  have hfs : (if first then tdstatRxFs else 0#32) &&& tdstatRxFl = 0#32 := by cases first <;> decide
  have hls : tdstatRxLs &&& tdstatRxFl = 0#32 := by decide
  have htl : tdstatRxTl &&& tdstatRxFl = 0#32 := by decide
  have hfield : DecData.rxStatus first true len &&& tdstatRxFl = (BitVec.ofNat 32 len <<< 16) &&& tdstatRxFl := by
    unfold DecData.rxStatus
    dsimp only
    rw [if_pos rfl]
    split
    · rw [hdist, hdist, hdist, hfs, hls, htl, BitVec.and_assoc, BitVec.and_self, BitVec.or_zero, BitVec.zero_or,
        BitVec.zero_or]
    · rw [hdist, hdist, hfs, hls, BitVec.and_assoc, BitVec.and_self, BitVec.zero_or, BitVec.zero_or]
  have hmask : tdstatRxFl.toNat = 16383 <<< 16 := rfl
  have hval : (BitVec.ofNat 32 len <<< 16).toNat = len <<< 16 := by
    rw [BitVec.toNat_shiftLeft, BitVec.toNat_ofNat, Nat.mod_eq_of_lt (by omega : len < 2 ^ 32), Nat.shiftLeft_eq]
    apply Nat.mod_eq_of_lt
    omega
  rw [hfield, BitVec.toNat_ushiftRight, BitVec.toNat_and, hval, hmask, Nat.shiftRight_and_distrib,
    Nat.shiftLeft_shiftRight, Nat.shiftLeft_shiftRight]
  have hfit : len &&& (2 ^ 14 - 1) = len := by
    rw [Nat.and_two_pow_sub_one_eq_mod]
    exact Nat.mod_eq_of_lt hlen
  exact hfit

/-! ## One descriptor -/

structure Quiet (d d' : DecData) : Prop where
  mem : d'.mem = d.mem
  mask : d'.xxxDmaToPhysMask = d.xxxDmaToPhysMask
  txAddr : d'.curTxAddr = d.curTxAddr
  txBuf : d'.curTxBuf = d.curTxBuf
  rxAddr : d'.curRxAddr = d.curRxAddr
  rxBuf : d'.curRxBuf = d.curRxBuf
  rxOffset : d'.curRxOffset = d.curRxOffset
  txList : d'.reg csrTxlist = d.reg csrTxlist
  rxList : d'.reg csrRxlist = d.reg csrRxlist
  sent : d'.sent = d.sent
  arrived : d'.arrived = d.arrived
  history : d'.history = d.history

structure TxStep (d d' : DecData) (s : DecStep) : Prop where
  mask : s.mask = d.xxxDmaToPhysMask
  addr : s.addr = d.curTxAddr
  pre : s.pre = d.mem
  handedBack : s.HandedBack
  mem : d'.mem = s.post
  mask' : d'.xxxDmaToPhysMask = d.xxxDmaToPhysMask
  history : d'.history = d.history ++ [.tx s]
  next : d'.curTxAddr = DecData.nextAddr (d.reg csrTxlist) s.addr s.des1 s.des3
  txList : d'.reg csrTxlist = d.reg csrTxlist
  rxList : d'.reg csrRxlist = d.reg csrRxlist
  rxAddr : d'.curRxAddr = d.curRxAddr
  rxBuf : d'.curRxBuf = d.curRxBuf
  rxOffset : d'.curRxOffset = d.curRxOffset
  setup : s.setup = true → d'.sent = d.sent ∧ d'.curTxBuf = d.curTxBuf
  segment : s.setup = false → ∃ buf, (s.txFirst = true → buf = dmaRead s.mask s.pre s.bufaddr s.bufsize) ∧
    (∀ old, s.txFirst = false → d.curTxBuf = some old → buf = old ++ dmaRead s.mask s.pre s.bufaddr s.bufsize) ∧
    d'.sent = (if s.txLast then d.sent ++ [buf] else d.sent) ∧ d'.curTxBuf = if s.txLast then none else some buf

structure Put (f : List Byte) (off : Nat) (s : DecStep) : Prop where
  filled : s.Filled
  status : loadLe32 s.post s.place =
    DecData.rxStatus (off == 0) (decide (f.length ≤ off + s.bufsize)) f.length
  bytes : s.Separate → ∀ i < s.bufsize, off + i < f.length → s.post (s.usedPlace i) = f.getD (off + i) 0#8

structure RxStep (d d' : DecData) (f : List Byte) (s : DecStep) : Prop where
  mask : s.mask = d.xxxDmaToPhysMask
  addr : s.addr = d.curRxAddr
  pre : s.pre = d.mem
  put : Put f d.curRxOffset s
  mem : d'.mem = s.post
  mask' : d'.xxxDmaToPhysMask = d.xxxDmaToPhysMask
  history : d'.history = d.history ++ [.rx s]
  next : d'.curRxAddr = DecData.nextAddr (d.reg csrRxlist) s.addr s.des1 s.des3
  txList : d'.reg csrTxlist = d.reg csrTxlist
  rxList : d'.reg csrRxlist = d.reg csrRxlist
  txAddr : d'.curTxAddr = d.curTxAddr
  txBuf : d'.curTxBuf = d.curTxBuf
  sent : d'.sent = d.sent
  arrived : d'.arrived = d.arrived
  buf : d'.curRxBuf = if f.length ≤ d.curRxOffset + s.bufsize then none else some f
  offset : d.curRxOffset + s.bufsize < f.length → d'.curRxOffset = d.curRxOffset + s.bufsize

namespace DecData
variable {d d' : DecData}

theorem quiet_refl (d : DecData) : Quiet d d := ⟨rfl, rfl, rfl, rfl, rfl, rfl, rfl, rfl, rfl, rfl, rfl, rfl⟩

theorem quiet_trans {d'' : DecData} (h : Quiet d d') (h' : Quiet d' d'') : Quiet d d'' :=
  ⟨h'.mem.trans h.mem, h'.mask.trans h.mask, h'.txAddr.trans h.txAddr, h'.txBuf.trans h.txBuf,
    h'.rxAddr.trans h.rxAddr, h'.rxBuf.trans h.rxBuf, h'.rxOffset.trans h.rxOffset, h'.txList.trans h.txList,
    h'.rxList.trans h.rxList, h'.sent.trans h.sent, h'.arrived.trans h.arrived, h'.history.trans h.history⟩

theorem setReg_quiet {r : Nat} {x : BitVec 32} (htx : csrTxlist ≠ r) (hrx : csrRxlist ≠ r) : Quiet d (d.setReg r x) :=
  ⟨rfl, rfl, rfl, rfl, rfl, rfl, rfl, Function.update_of_ne htx _ _, Function.update_of_ne hrx _ _, rfl, rfl, rfl⟩

theorem setStatus_quiet {x : BitVec 32} : Quiet d (d.setStatus x) := setReg_quiet (by decide) (by decide)

theorem clearStatus_quiet {x : BitVec 32} : Quiet d (d.clearStatus x) := setReg_quiet (by decide) (by decide)

theorem updateRxMode_quiet : Quiet d d.updateRxMode :=
  ⟨rfl, rfl, rfl, rfl, rfl, rfl, rfl, rfl, rfl, rfl, rfl, rfl⟩

theorem summary_quiet : Quiet d d.summary :=
  ⟨rfl, rfl, rfl, rfl, rfl, rfl, rfl, rfl, rfl, rfl, rfl, rfl⟩

theorem processSetupPacket_quiet {tdctl bufaddr : BitVec 32} : Quiet d (d.processSetupPacket tdctl bufaddr) := by
  apply quiet_trans _ updateRxMode_quiet
  split
  · exact ⟨rfl, rfl, rfl, rfl, rfl, rfl, rfl, rfl, rfl, rfl, rfl, rfl⟩
  · exact ⟨rfl, rfl, rfl, rfl, rfl, rfl, rfl, rfl, rfl, rfl, rfl, rfl⟩
  · exact ⟨rfl, rfl, rfl, rfl, rfl, rfl, rfl, rfl, rfl, rfl, rfl, rfl⟩
  · exact ⟨rfl, rfl, rfl, rfl, rfl, rfl, rfl, rfl, rfl, rfl, rfl, rfl⟩

theorem opmodeWrite_quiet {idata : BitVec 32} : Quiet d (d.opmodeWrite idata) := by
  apply quiet_trans _ updateRxMode_quiet
  split <;> split <;> split <;> exact ⟨rfl, rfl, rfl, rfl, rfl, rfl, rfl, rfl, rfl, rfl, rfl, rfl⟩

theorem tx_stop (h : d.tx.2 = false) : Quiet d d.tx.1 := by
  unfold tx at h ⊢
  dsimp only at h ⊢
  split at h
  · rename_i hown
    rw [if_pos hown]
    split
    · exact ⟨rfl, rfl, rfl, rfl, rfl, rfl, rfl, rfl, rfl, rfl, rfl, rfl⟩
    · exact ⟨rfl, rfl, rfl, rfl, rfl, rfl, rfl, rfl, rfl, rfl, rfl, rfl⟩
  · cases h

theorem writeback_handedBack {s : DecStep} {w0 w1 w2 w3 : BitVec 32} (hown : s.own s.pre = true)
    (hpost : s.post = writeback s.pre s.place w0 w1 w2 w3) (hw : has w0 tdstatOwn = false) : s.HandedBack := by
  refine ⟨hown, ?_, fun a ha => ?_⟩
  · rw [DecStep.own, hpost, load_writeback]
    exact hw
  · rw [hpost]
    exact writeback_other ha

/-- The descriptor that dec21143_tx() looks at, and how it is handed back. -/
def txRecord (d : DecData) : DecStep where
  mask := d.xxxDmaToPhysMask
  addr := d.curTxAddr
  pre := d.mem
  post :=
    if has (loadLe32 d.mem (d.phys (d.curTxAddr + 4#32))) tdctlTxSet then
      writeback d.mem (d.phys d.curTxAddr) 0x7fffffff#32 0xffffffff#32 0xffffffff#32 0xffffffff#32
    else
      writeback d.mem (d.phys d.curTxAddr)
        (loadLe32 d.mem (d.phys d.curTxAddr) &&& ~~~(tdstatTxErrors ||| tdstatEs) &&& ~~~tdstatOwn)
        (loadLe32 d.mem (d.phys (d.curTxAddr + 4#32))) (loadLe32 d.mem (d.phys (d.curTxAddr + 4#32) + 4))
        (loadLe32 d.mem (d.phys (d.curTxAddr + 4#32) + 8))

theorem txRecord_handedBack (hown : has (loadLe32 d.mem (d.phys d.curTxAddr)) tdstatOwn = true) :
    d.txRecord.HandedBack := by
  by_cases hset : has (loadLe32 d.mem (d.phys (d.curTxAddr + 4#32))) tdctlTxSet = true
  · exact writeback_handedBack hown (if_pos hset) (by decide)
  · exact writeback_handedBack hown (if_neg hset) (has_and_disjoint (by decide))

def txBefore (d : DecData) : DecData :=
  let d1 := { d.clearStatus statusTs with
    curTxAddr := nextAddr (d.reg csrTxlist) d.curTxAddr d.txRecord.des1 d.txRecord.des3 }
  if d.txRecord.setup then
    let d2 := if d.txRecord.bufsize ≠ tulipSetupPacketLen then d1
      else d1.processSetupPacket d.txRecord.des1 d.txRecord.bufaddr
    if has d.txRecord.des1 tdctlTxIc then d2.setStatus statusTi else d2
  else d1.txSegment d.txRecord.des1 (dmaRead d.xxxDmaToPhysMask d.mem d.txRecord.bufaddr d.txRecord.bufsize)

theorem tx_eq (hown : has (loadLe32 d.mem (d.phys d.curTxAddr)) tdstatOwn = true) :
    d.tx = ({ d.txBefore with mem := d.txRecord.post, history := d.txBefore.history ++ [.tx d.txRecord] }, true) := by
  unfold tx
  rw [if_neg (by rw [hown]; decide)]
  rfl

theorem tx_owned (h : d.tx.2 = true) : has (loadLe32 d.mem (d.phys d.curTxAddr)) tdstatOwn = true := by
  by_contra hown
  unfold tx at h
  rw [if_pos (by simpa using hown)] at h
  split at h
  · cases h
  · cases h

theorem setup_quiet {size : Nat} {w bufaddr : BitVec 32} : Quiet d
    (if has w tdctlTxIc then
      (if size ≠ tulipSetupPacketLen then d else d.processSetupPacket w bufaddr).setStatus statusTi
    else if size ≠ tulipSetupPacketLen then d else d.processSetupPacket w bufaddr) := by
  have hsetup : Quiet d (if size ≠ tulipSetupPacketLen then d else d.processSetupPacket w bufaddr) := by
    split
    · exact quiet_refl d
    · exact processSetupPacket_quiet
  by_cases hic : has w tdctlTxIc = true
  · rw [if_pos hic]
    exact quiet_trans hsetup setStatus_quiet
  · rw [if_neg hic]
    exact hsetup

theorem txSegment_spec (w : BitVec 32) (data : List Byte) : ∃ buf, (has w tdctlTxFs = true → buf = data) ∧
    (∀ old, has w tdctlTxFs = false → d.curTxBuf = some old → buf = old ++ data) ∧
    (d.txSegment w data).sent = (if has w tdctlTxLs then d.sent ++ [buf] else d.sent) ∧
    (d.txSegment w data).curTxBuf = (if has w tdctlTxLs then none else some buf) ∧
    Quiet d { d.txSegment w data with sent := d.sent, curTxBuf := d.curTxBuf } := by
  refine ⟨if has w tdctlTxFs then data else (d.curTxBuf.getD ((List.range d.curTxBufLen).map d.junk)) ++ data,
    fun hfs => if_pos hfs, fun old hfs hold => ?_, ?_, ?_, ?_⟩
  · rw [hfs, hold]
    rfl
  · unfold txSegment
    by_cases hls : has w tdctlTxLs = true
    · simp only [hls, if_true]
      split <;> rfl
    · simp only [hls, Bool.false_eq_true, if_false]
  · unfold txSegment
    by_cases hls : has w tdctlTxLs = true
    · simp only [hls, if_true]
      split <;> rfl
    · simp only [hls, Bool.false_eq_true, if_false]
  · unfold txSegment
    by_cases hls : has w tdctlTxLs = true
    · simp only [hls, if_true]
      split
      · exact ⟨rfl, rfl, rfl, rfl, rfl, rfl, rfl, rfl, rfl, rfl, rfl, rfl⟩
      · exact ⟨rfl, rfl, rfl, rfl, rfl, rfl, rfl, rfl, rfl, rfl, rfl, rfl⟩
    · simp only [hls, Bool.false_eq_true, if_false]
      exact ⟨rfl, rfl, rfl, rfl, rfl, rfl, rfl, rfl, rfl, rfl, rfl, rfl⟩

theorem tx_go (h : d.tx.2 = true) : ∃ s, TxStep d d.tx.1 s := by
  have hown := tx_owned h
  rw [tx_eq hown]
  refine ⟨d.txRecord, ?_⟩
  have hnext : Quiet { d with curTxAddr := nextAddr (d.reg csrTxlist) d.curTxAddr d.txRecord.des1 d.txRecord.des3 }
      { d.clearStatus statusTs with
        curTxAddr := nextAddr (d.reg csrTxlist) d.curTxAddr d.txRecord.des1 d.txRecord.des3 } :=
    ⟨rfl, rfl, rfl, rfl, rfl, rfl, rfl, rfl, rfl, rfl, rfl, rfl⟩
  by_cases hset : d.txRecord.setup = true
  · have hquiet : Quiet { d with curTxAddr := nextAddr (d.reg csrTxlist) d.curTxAddr d.txRecord.des1 d.txRecord.des3 }
        d.txBefore := by
      unfold txBefore
      rw [if_pos hset]
      exact quiet_trans hnext setup_quiet
    refine ⟨rfl, rfl, rfl, txRecord_handedBack hown, rfl, hquiet.mask, ?_, hquiet.txAddr, hquiet.txList, hquiet.rxList,
      hquiet.rxAddr, hquiet.rxBuf, hquiet.rxOffset, fun _ => ⟨hquiet.sent, hquiet.txBuf⟩, fun hno => ?_⟩
    · rw [hquiet.history]
    · rw [hset] at hno
      cases hno
  · have hbefore : d.txBefore = txSegment { d.clearStatus statusTs with
        curTxAddr := nextAddr (d.reg csrTxlist) d.curTxAddr d.txRecord.des1 d.txRecord.des3 } d.txRecord.des1
        (dmaRead d.xxxDmaToPhysMask d.mem d.txRecord.bufaddr d.txRecord.bufsize) := by
      unfold txBefore
      rw [if_neg hset]
    obtain ⟨buf, hfirst, hlater, hsent, hbuf, hquiet⟩ := @txSegment_spec { d.clearStatus statusTs with
        curTxAddr := nextAddr (d.reg csrTxlist) d.curTxAddr d.txRecord.des1 d.txRecord.des3 } d.txRecord.des1
        (dmaRead d.xxxDmaToPhysMask d.mem d.txRecord.bufaddr d.txRecord.bufsize)
    rw [← hbefore] at hsent hbuf hquiet
    have hall := quiet_trans hnext hquiet
    refine ⟨rfl, rfl, rfl, txRecord_handedBack hown, rfl, hall.mask, ?_, hall.txAddr, hall.txList, hall.rxList,
      hall.rxAddr, hall.rxBuf, hall.rxOffset, fun hyes => absurd hyes hset, fun _ => ⟨buf, hfirst, hlater, hsent, hbuf⟩⟩
    have hhistory : d.txBefore.history = d.history := hall.history
    rw [hhistory]

/-! ## Reception of one descriptor -/

theorem rxBuffer_stop (h : d.rxBuffer.2 = false) : Quiet d d.rxBuffer.1 := by
  unfold rxBuffer at h ⊢
  split
  · exact quiet_refl d
  · rename_i buf hbuf
    simp only [hbuf] at h
    split at h
    · rename_i hown
      rw [if_pos hown]
      exact setStatus_quiet
    · cases h

theorem put_writeback (window : DmaWindow) {f : List Byte} {off : Nat} {s : DecStep} {w1 w2 w3 : BitVec 32}
    (hmask : s.mask = window.mask) (hown : s.own s.pre = true) (hoff : off < f.length)
    (hpost : s.post = writeback (dmaWrite s.mask s.bufaddr 0 ((f.drop off).take s.bufsize) s.pre) s.place
      (rxStatus (off == 0) (decide (f.length ≤ off + s.bufsize)) f.length) w1 w2 w3) : Put f off s := by
  have hlen : ((f.drop off).take s.bufsize).length = min s.bufsize (f.length - off) := by
    rw [List.length_take, List.length_drop]
  have hsize := s.bufsize_lt
  obtain ⟨hin, hout⟩ := @dmaWrite_spec window s.bufaddr ((f.drop off).take s.bufsize) 0 s.pre (by omega)
  rw [← hmask] at hin hout
  simp only [Nat.zero_add] at hin hout
  have hstatus : loadLe32 s.post s.place = rxStatus (off == 0) (decide (f.length ≤ off + s.bufsize)) f.length := by
    rw [hpost, load_writeback]
  refine ⟨⟨hown, ?_, fun a ha hbuf => ?_⟩, hstatus, fun hsep i hi hlt => ?_⟩
  · rw [DecStep.own, hstatus]
    exact (has_rxStatus _ _ _).2.2
  · rw [hpost, writeback_other ha]
    apply hout
    intro i hi
    exact hbuf i (by omega)
  · have hcopied : i < ((f.drop off).take s.bufsize).length := by
      rw [hlen]
      omega
    rw [hpost, writeback_other (hsep i hi)]
    refine (hin i hcopied).trans ?_
    simp only [List.getD_eq_getElem?_getD, List.getElem?_take, List.getElem?_drop, if_pos hi]

/-- The descriptor that dec21143_rx() looks at, and how it is handed back. -/
def rxRecord (d : DecData) (f : List Byte) : DecStep where
  mask := d.xxxDmaToPhysMask
  addr := d.curRxAddr
  pre := d.mem
  post :=
    let rdes1 := loadLe32 d.mem (d.phys (d.curRxAddr + 4#32))
    let rdes2 := loadLe32 d.mem (d.phys (d.curRxAddr + 4#32) + 4)
    let rdes3 := loadLe32 d.mem (d.phys (d.curRxAddr + 4#32) + 8)
    let xfer := (f.drop d.curRxOffset).take (buffer rdes1 rdes2 rdes3).2
    writeback (dmaWrite d.xxxDmaToPhysMask (buffer rdes1 rdes2 rdes3).1 0 xfer d.mem) (d.phys d.curRxAddr)
      (rxStatus (d.curRxOffset == 0) (decide (f.length ≤ d.curRxOffset + xfer.length)) f.length) rdes1 rdes2 rdes3

theorem rxBuffer_eq {f : List Byte} (hbuf : d.curRxBuf = some f)
    (hown : has (loadLe32 d.mem (d.phys d.curRxAddr)) tdstatOwn = true) : d.rxBuffer =
    ({ (if decide (f.length ≤ d.curRxOffset + ((f.drop d.curRxOffset).take (d.rxRecord f).bufsize).length) then
          (d.clearStatus statusRs).setStatus statusRi else d.clearStatus statusRs) with
      curRxAddr := nextAddr (d.reg csrRxlist) d.curRxAddr (d.rxRecord f).des1 (d.rxRecord f).des3
      curRxBuf :=
        if decide (f.length ≤ d.curRxOffset + ((f.drop d.curRxOffset).take (d.rxRecord f).bufsize).length) then none
        else some f
      curRxOffset := d.curRxOffset + ((f.drop d.curRxOffset).take (d.rxRecord f).bufsize).length
      mem := (d.rxRecord f).post
      history := d.history ++ [.rx (d.rxRecord f)] }, true) := by
  unfold rxBuffer
  rw [hbuf]
  dsimp only
  rw [if_neg (by rw [hown]; decide)]
  rfl

theorem rxBuffer_go (window : DmaWindow) {f : List Byte} (hmask : d.xxxDmaToPhysMask = window.mask)
    (hbuf : d.curRxBuf = some f) (hoff : d.curRxOffset < f.length) (h : d.rxBuffer.2 = true) :
    ∃ s, RxStep d d.rxBuffer.1 f s := by
  have hown : has (loadLe32 d.mem (d.phys d.curRxAddr)) tdstatOwn = true := by
    by_contra hown
    unfold rxBuffer at h
    rw [hbuf] at h
    dsimp only at h
    rw [if_pos (by simpa using hown)] at h
    cases h
  have hlen : ((f.drop d.curRxOffset).take (d.rxRecord f).bufsize).length =
      min (d.rxRecord f).bufsize (f.length - d.curRxOffset) := by
    rw [List.length_take, List.length_drop]
  have hcomplete : decide (f.length ≤ d.curRxOffset + ((f.drop d.curRxOffset).take (d.rxRecord f).bufsize).length) =
      decide (f.length ≤ d.curRxOffset + (d.rxRecord f).bufsize) := by
    rw [hlen]
    apply decide_eq_decide.mpr
    omega
  have hpost : (d.rxRecord f).post = writeback (dmaWrite d.xxxDmaToPhysMask (d.rxRecord f).bufaddr 0
      ((f.drop d.curRxOffset).take (d.rxRecord f).bufsize) d.mem) (d.rxRecord f).place
      (rxStatus (d.curRxOffset == 0) (decide (f.length ≤ d.curRxOffset + (d.rxRecord f).bufsize)) f.length)
      (d.rxRecord f).des1 (d.rxRecord f).des2 (d.rxRecord f).des3 := by
    rw [← hcomplete]
    rfl
  have hput : Put f d.curRxOffset (d.rxRecord f) := put_writeback window hmask hown hoff hpost
  rw [rxBuffer_eq hbuf hown]
  rw [hcomplete]
  refine ⟨d.rxRecord f, ?_⟩
  by_cases hend : f.length ≤ d.curRxOffset + (d.rxRecord f).bufsize
  · simp only [decide_eq_true hend, if_true]
    exact ⟨rfl, rfl, rfl, hput, rfl, rfl, rfl, rfl, rfl, rfl, rfl, rfl, rfl, rfl, (if_pos hend).symm,
      fun hlt => absurd hend (not_le.mpr hlt)⟩
  · simp only [decide_eq_false hend, Bool.false_eq_true, if_false]
    refine ⟨rfl, rfl, rfl, hput, rfl, rfl, rfl, rfl, rfl, rfl, rfl, rfl, rfl, rfl, (if_neg hend).symm, fun _ => ?_⟩
    dsimp only
    rw [hlen]
    omega

end DecData

/-! ## The invariant -/

def PutAll (f : List Byte) (l : List DecStep) : Prop :=
  ∀ k s, l[k]? = some s → Put f (Scatter.room DecStep.bufsize (l.take k)) s

structure TxInv (h : List DecEvent) (sent : List (List Byte)) (buf : Option (List Byte)) : Prop where
  wellFormed : (txView h).WellFormed DecStep.txFirst DecStep.txLast
  clean : (txView h).stray = [] → (∀ s, DecEvent.tx s ∈ h → s.setup = false → s.OneBuffer) →
    (sent = (txView h).frames.map fun l => l.flatMap DecStep.data) ∧
      buf = (txView h).cur.map fun l => l.flatMap DecStep.data
  handedBack : ∀ s, DecEvent.tx s ∈ h → s.HandedBack

def Receiving (h : List DecEvent) (buf : Option (List Byte)) (off : Nat) : Prop :=
  match buf with
  | none => (rxView h).cur = none
  | some f => ∃ l, (rxView h).cur = some (f, l) ∧ off = Scatter.room DecStep.bufsize l ∧ off < f.length ∧ PutAll f l

structure RxInv (h : List DecEvent) (buf : Option (List Byte)) (off : Nat) : Prop where
  done : ∀ fl ∈ (rxView h).done, PutAll fl.1 fl.2 ∧ ∃ l s, fl.2 = l ++ [s] ∧
    Scatter.room DecStep.bufsize l < fl.1.length ∧ fl.1.length ≤ Scatter.room DecStep.bufsize (l ++ [s])
  receiving : Receiving h buf off
  filled : ∀ s, DecEvent.rx s ∈ h → s.Filled
  overrun : (rxView h).overrun = []

def Order (tx : Bool) (h : List DecEvent) (list addr : BitVec 32) : Prop :=
  Aligned tx h → ringPlace tx h = (list, addr) ∧ InOrder tx h

structure Inv (window : DmaWindow) (mem : Mem) (d : DecData) : Prop where
  tx : TxInv d.history d.sent d.curTxBuf
  rx : RxInv d.history d.curRxBuf d.curRxOffset
  txOrder : Order true d.history (d.reg csrTxlist) d.curTxAddr
  rxOrder : Order false d.history (d.reg csrRxlist) d.curRxAddr
  linked : Linked mem d.history d.mem
  mask : d.xxxDmaToPhysMask = window.mask

theorem PutAll.append {f : List Byte} {l : List DecStep} {s : DecStep} (h : PutAll f l)
    (hs : Put f (Scatter.room DecStep.bufsize l) s) : PutAll f (l ++ [s]) := by
  intro k x hx
  by_cases hk : k < l.length
  · rw [List.getElem?_append_left hk] at hx
    rw [List.take_append_of_le_length (by omega)]
    exact h k x hx
  · obtain ⟨hlt, hval⟩ := List.getElem?_eq_some_iff.mp hx
    rw [List.length_append, List.length_singleton] at hlt
    obtain rfl : k = l.length := by omega
    have hxs : x = s := by simpa using hval.symm
    rw [hxs, List.take_left]
    exact hs

section
variable {h : List DecEvent} {e : DecEvent}

theorem TxInv.other {sent : List (List Byte)} {buf : Option (List Byte)} (hinv : TxInv h sent buf)
    (hview : txView (h ++ [e]) = txView h) (he : ∀ s, e ≠ .tx s) : TxInv (h ++ [e]) sent buf := by
  refine ⟨?_, fun hstray hone => ?_, fun s hs => ?_⟩
  · rw [hview]
    exact hinv.wellFormed
  · rw [hview] at hstray ⊢
    exact hinv.clean hstray fun s hs => hone s (List.mem_append_left _ hs)
  · obtain hs | hs := List.mem_append.mp hs
    · exact hinv.handedBack s hs
    · exact absurd (List.mem_singleton.mp hs).symm (he s)

theorem RxInv.other {buf : Option (List Byte)} {off : Nat} (hinv : RxInv h buf off)
    (hview : rxView (h ++ [e]) = rxView h) (he : ∀ s, e ≠ .rx s) : RxInv (h ++ [e]) buf off := by
  refine ⟨?_, ?_, fun s hs => ?_, ?_⟩
  · rw [hview]
    exact hinv.done
  · have hreceiving := hinv.receiving
    unfold Receiving at hreceiving ⊢
    rw [hview]
    exact hreceiving
  · obtain hs | hs := List.mem_append.mp hs
    · exact hinv.filled s hs
    · exact absurd (List.mem_singleton.mp hs).symm (he s)
  · rw [hview]
    exact hinv.overrun

theorem Aligned.prior {tx : Bool} (ha : Aligned tx (h ++ [e])) : Aligned tx h :=
  fun a hmem => ha a (List.mem_append_left _ hmem)

theorem Order.other {tx : Bool} {list addr : BitVec 32} (hord : Order tx h list addr)
    (hplace : ringPlace tx (h ++ [e]) = ringPlace tx h) (he : ∀ s, e ≠ if tx then .tx s else .rx s) :
    Order tx (h ++ [e]) list addr := by
  intro ha
  obtain ⟨hold, hin⟩ := hord ha.prior
  rw [hplace]
  exact ⟨hold, hin.append fun s hs => absurd hs (he s)⟩

theorem Order.next {tx : Bool} {list addr : BitVec 32} {s : DecStep} (hord : Order tx h list addr)
    (haddr : s.addr = addr) : Order tx (h ++ [if tx then .tx s else .rx s]) list
      (DecData.nextAddr list s.addr s.des1 s.des3) := by
  intro ha
  obtain ⟨hold, hin⟩ := hord ha.prior
  constructor
  · rw [ringPlace_append]
    cases tx <;> simp [hold]
  · apply hin.append
    intro x hx
    have hxs : x = s := by
      cases tx <;> simpa using hx.symm
    rw [hxs, haddr, hold]

theorem Order.list {tx : Bool} {list addr : BitVec 32} (hord : Order tx h list addr) (a : BitVec 32) :
    Order tx (h ++ [if tx then .txList a else .rxList a]) a (a &&& ~~~3#32) := by
  intro ha
  obtain ⟨hold, hin⟩ := hord ha.prior
  have haligned : a &&& ~~~3#32 = a := ha a (List.mem_append_right _ (List.mem_singleton.mpr rfl))
  constructor
  · rw [ringPlace_append]
    cases tx <;> exact Prod.ext haligned rfl
  · apply hin.append
    intro x hx
    cases tx <;> simp at hx

theorem Order.reset {tx : Bool} {list addr : BitVec 32} (hord : Order tx h list addr) :
    Order tx (h ++ [.reset]) 0#32 0#32 := by
  intro ha
  obtain ⟨-, hin⟩ := hord ha.prior
  constructor
  · rw [ringPlace_append]
  · apply hin.append
    intro x hx
    cases tx <;> simp at hx

end

namespace DecData
variable {window : DmaWindow} {mem : Mem} {d d' : DecData}

theorem quiet_inv (hquiet : Quiet d d') (hinv : Inv window mem d) : Inv window mem d' := by
  obtain ⟨hmem, hmask, htxAddr, htxBuf, hrxAddr, hrxBuf, hrxOffset, htxList, hrxList, hsent, -, hhistory⟩ := hquiet
  refine ⟨?_, ?_, ?_, ?_, ?_, hmask.trans hinv.mask⟩
  · rw [hhistory, hsent, htxBuf]
    exact hinv.tx
  · rw [hhistory, hrxBuf, hrxOffset]
    exact hinv.rx
  · rw [hhistory, htxList, htxAddr]
    exact hinv.txOrder
  · rw [hhistory, hrxList, hrxAddr]
    exact hinv.rxOrder
  · rw [hhistory, hmem]
    exact hinv.linked

theorem txStep_txInv {s : DecStep} (hstep : TxStep d d' s) (hinv : TxInv d.history d.sent d.curTxBuf) :
    TxInv d'.history d'.sent d'.curTxBuf := by
  have hback : ∀ x, DecEvent.tx x ∈ d.history ++ [.tx s] → x.HandedBack := by
    intro x hx
    obtain hx | hx := List.mem_append.mp hx
    · exact hinv.handedBack x hx
    · cases List.mem_singleton.mp hx
      exact hstep.handedBack
  have hview := txView_append (h := d.history) (.tx s)
  dsimp only at hview
  rw [hstep.history]
  by_cases hset : s.setup = true
  · rw [if_pos hset] at hview
    obtain ⟨hsent, hbuf⟩ := hstep.setup hset
    rw [hsent, hbuf]
    refine ⟨?_, fun hstray hone => ?_, hback⟩
    · rw [hview]
      exact hinv.wellFormed
    · rw [hview] at hstray ⊢
      exact hinv.clean hstray fun x hx => hone x (List.mem_append_left _ hx)
  · rw [if_neg hset] at hview
    obtain ⟨buf, hfirst, hlater, hsent, hbuf⟩ := hstep.segment (by simpa using hset)
    refine ⟨?_, fun hstray hone => ?_, hback⟩
    · rw [hview]
      exact hinv.wellFormed.add s
    · rw [hview] at hstray ⊢
      have hdata : dmaRead s.mask s.pre s.bufaddr s.bufsize = s.data :=
        (hone s (List.mem_append_right _ (List.mem_singleton.mpr rfl)) (by simpa using hset)).dmaRead
      rw [hdata] at hfirst hlater
      have hcur : ∃ l, (if s.txFirst = true then some [s] else (txView d.history).cur.map (· ++ [s])) = some l ∧
          l.flatMap DecStep.data = buf ∧ (txView d.history).stray = [] := by
        by_cases hfs : s.txFirst = true
        · refine ⟨[s], if_pos hfs, ?_, ?_⟩
          · rw [hfirst hfs]
            simp
          · rw [Segments.add, if_pos hfs] at hstray
            dsimp only at hstray
            split at hstray <;> exact hstray
        · rw [Segments.add, if_neg hfs] at hstray
          cases hc : (txView d.history).cur with
          | none =>
            rw [hc] at hstray
            simp at hstray
          | some l =>
            rw [hc] at hstray
            have hold : (txView d.history).stray = [] := by
              dsimp only [Option.map_some] at hstray
              split at hstray <;> exact hstray
            refine ⟨l ++ [s], by rw [if_neg hfs]; rfl, ?_, hold⟩
            have hprev := (hinv.clean hold fun x hx => hone x (List.mem_append_left _ hx)).2
            rw [hc] at hprev
            rw [hlater _ (by simpa using hfs) hprev]
            simp
      obtain ⟨l, hl, hflat, hold⟩ := hcur
      have hprev := hinv.clean hold fun x hx => hone x (List.mem_append_left _ hx)
      rw [Segments.add, hl, hsent, hbuf]
      split
      · refine ⟨?_, rfl⟩
        rw [List.map_append, ← hprev.1, List.map_singleton, hflat]
      · refine ⟨hprev.1, ?_⟩
        rw [Option.map_some, hflat]

theorem tx_inv (hinv : Inv window mem d) : Inv window mem d.tx.1 := by
  cases hgo : d.tx.2 with
  | false => exact quiet_inv (tx_stop hgo) hinv
  | true =>
    obtain ⟨s, hstep⟩ := tx_go hgo
    refine ⟨txStep_txInv hstep hinv.tx, ?_, ?_, ?_, ?_, hstep.mask'.trans hinv.mask⟩
    · rw [hstep.history, hstep.rxBuf, hstep.rxOffset]
      exact hinv.rx.other (rxView_append _) fun _ he => nomatch he
    · rw [hstep.history, hstep.txList, hstep.next]
      exact @Order.next d.history true _ _ s hinv.txOrder hstep.addr
    · rw [hstep.history, hstep.rxList, hstep.rxAddr]
      exact hinv.rxOrder.other (ringPlace_append false _) fun _ he => nomatch he
    · rw [hstep.history, hstep.mem]
      apply Linked.tx
      rw [hstep.pre]
      exact hinv.linked

theorem rxStep_rxInv {f : List Byte} {s : DecStep} (hbuf : d.curRxBuf = some f) (hstep : RxStep d d' f s)
    (hinv : RxInv d.history d.curRxBuf d.curRxOffset) : RxInv d'.history d'.curRxBuf d'.curRxOffset := by
  have hreceiving := hinv.receiving
  rw [hbuf] at hreceiving
  obtain ⟨l, hcur, hoff, hlt, hputs⟩ := hreceiving
  have hput := hstep.put
  rw [hoff] at hput
  have hroom : Scatter.room DecStep.bufsize (l ++ [s]) = d.curRxOffset + s.bufsize := by
    rw [Scatter.room_append, hoff]
  have hview : rxView (d.history ++ [.rx s]) = (rxView d.history).add DecStep.bufsize s := rxView_append (.rx s)
  have hfilled : ∀ x, DecEvent.rx x ∈ d.history ++ [.rx s] → x.Filled := by
    intro x hx
    obtain hx | hx := List.mem_append.mp hx
    · exact hinv.filled x hx
    · cases List.mem_singleton.mp hx
      exact hstep.put.filled
  rw [hstep.history, hstep.buf]
  by_cases hend : f.length ≤ d.curRxOffset + s.bufsize
  · rw [if_pos hend]
    have hadd : (rxView d.history).add DecStep.bufsize s =
        { rxView d.history with done := (rxView d.history).done ++ [(f, l ++ [s])], cur := none } := by
      rw [Scatter.add, hcur]
      dsimp only
      rw [hroom, if_pos hend]
    rw [hadd] at hview
    refine ⟨fun fl hfl => ?_, ?_, hfilled, ?_⟩
    · rw [hview] at hfl
      obtain hfl | hfl := List.mem_append.mp hfl
      · exact hinv.done fl hfl
      · rw [List.mem_singleton.mp hfl]
        refine ⟨hputs.append hput, l, s, rfl, ?_, ?_⟩
        · rw [← hoff]
          exact hlt
        · rw [hroom]
          exact hend
    · show (rxView (d.history ++ [.rx s])).cur = none
      rw [hview]
    · rw [hview]
      exact hinv.overrun
  · rw [if_neg hend]
    have hadd : (rxView d.history).add DecStep.bufsize s = { rxView d.history with cur := some (f, l ++ [s]) } := by
      rw [Scatter.add, hcur]
      dsimp only
      rw [hroom, if_neg hend]
    rw [hadd] at hview
    have hnext := hstep.offset (not_le.mp hend)
    refine ⟨?_, ?_, hfilled, ?_⟩
    · rw [hview]
      exact hinv.done
    · unfold Receiving
      rw [hview, hnext]
      exact ⟨l ++ [s], rfl, hroom.symm, not_le.mp hend, hputs.append hput⟩
    · rw [hview]
      exact hinv.overrun

theorem fetch_inv : ∀ {arrived : List (List Byte)} {d : DecData}, d.curRxBuf = none → Inv window mem d →
    Inv window mem (fetch arrived d)
  | [], d, _, hinv => { hinv with }
  | packet :: arrived, d, hidle, hinv => by
    unfold fetch
    split
    · exact fetch_inv hidle hinv
    · have hcur := hinv.rx.receiving
      rw [hidle] at hcur
      have hview : rxView (d.history ++ [.take packet]) =
          { rxView d.history with cur := some (packet ++ List.replicate 4 0#8, []) } := by
        rw [rxView_append]
        show Scatter.take _ _ = _
        rw [Scatter.take, hcur]
        simp
      refine ⟨hinv.tx.other (txView_append _) (fun _ he => nomatch he), ⟨?_, ?_, fun s hs => ?_, ?_⟩,
        hinv.txOrder.other (ringPlace_append true _) (fun _ he => nomatch he),
        hinv.rxOrder.other (ringPlace_append false _) (fun _ he => nomatch he), .take packet hinv.linked, hinv.mask⟩
      · rw [hview]
        exact hinv.rx.done
      · unfold Receiving
        rw [hview]
        refine ⟨[], rfl, rfl, ?_, fun k s hk => ?_⟩
        · simp
        · simp at hk
      · apply hinv.rx.filled s
        simpa using hs
      · rw [hview]
        exact hinv.rx.overrun

theorem rxFetch_inv (hinv : Inv window mem d) : Inv window mem d.rxFetch := by
  unfold rxFetch
  split
  · exact hinv
  · rename_i hidle
    exact fetch_inv (by simpa using hidle) hinv

theorem rxBuffer_inv (hinv : Inv window mem d) : Inv window mem d.rxBuffer.1 := by
  cases hgo : d.rxBuffer.2 with
  | false => exact quiet_inv (rxBuffer_stop hgo) hinv
  | true =>
    cases hbuf : d.curRxBuf with
    | none =>
      unfold rxBuffer at hgo
      rw [hbuf] at hgo
      cases hgo
    | some f =>
      have hreceiving := hinv.rx.receiving
      rw [hbuf] at hreceiving
      obtain ⟨l, -, -, hlt, -⟩ := hreceiving
      obtain ⟨s, hstep⟩ := rxBuffer_go window hinv.mask hbuf hlt hgo
      refine ⟨?_, rxStep_rxInv hbuf hstep hinv.rx, ?_, ?_, ?_, hstep.mask'.trans hinv.mask⟩
      · rw [hstep.history, hstep.sent, hstep.txBuf]
        exact hinv.tx.other (txView_append _) fun _ he => nomatch he
      · rw [hstep.history, hstep.txList, hstep.txAddr]
        exact hinv.txOrder.other (ringPlace_append true _) fun _ he => nomatch he
      · rw [hstep.history, hstep.rxList, hstep.next]
        exact @Order.next d.history false _ _ s hinv.rxOrder hstep.addr
      · rw [hstep.history, hstep.mem]
        apply Linked.rx
        rw [hstep.pre]
        exact hinv.linked

theorem rx_inv (hinv : Inv window mem d) : Inv window mem d.rx.1 := rxBuffer_inv (rxFetch_inv hinv)

/-! ## Runs -/

theorem tick_inv {fuel : Nat} (h : d.tick fuel = some d') (hinv : Inv window mem d) : Inv window mem d' := by
  obtain ⟨d1, htransfers, rfl⟩ := Option.map_eq_some_iff.mp h
  apply quiet_inv summary_quiet
  obtain ⟨d2, htx, hrx⟩ := Option.bind_eq_some_iff.mp htransfers
  have hinv2 : Inv window mem d2 := by
    split at htx
    · exact Lib.whileLoop_inv (fun _ => tx_inv) hinv htx
    · cases htx
      exact hinv
  split at hrx
  · exact Lib.whileLoop_inv (fun _ => rx_inv) hinv2 hrx
  · cases hrx
    exact hinv2

theorem reset_inv (hinv : Inv window mem d) : Inv window mem d.reset := by
  have htx : txView (d.history ++ [.reset]) = (txView d.history).cut := txView_append .reset
  have hrx : rxView (d.history ++ [.reset]) = (rxView d.history).cut := rxView_append .reset
  refine ⟨⟨?_, fun hstray hone => ?_, fun s hs => ?_⟩, ⟨?_, ?_, fun s hs => ?_, ?_⟩, hinv.txOrder.reset,
    hinv.rxOrder.reset, .reset hinv.linked, hinv.mask⟩
  · show (txView (d.history ++ [.reset])).WellFormed _ _
    rw [htx]
    exact hinv.tx.wellFormed.cut
  · have hstray : (txView (d.history ++ [.reset])).stray = [] := hstray
    show (d.sent = (txView (d.history ++ [.reset])).frames.map _) ∧ none = (txView (d.history ++ [.reset])).cur.map _
    rw [htx] at hstray ⊢
    exact ⟨(hinv.tx.clean hstray fun s hs => hone s (List.mem_append_left _ hs)).1, rfl⟩
  · apply hinv.tx.handedBack s
    have hs : DecEvent.tx s ∈ d.history ++ [.reset] := hs
    simpa using hs
  · show ∀ fl ∈ (rxView (d.history ++ [.reset])).done, _
    rw [hrx]
    exact hinv.rx.done
  · show (rxView (d.history ++ [.reset])).cur = none
    rw [hrx]
    rfl
  · apply hinv.rx.filled s
    have hs : DecEvent.rx s ∈ d.history ++ [.reset] := hs
    simpa using hs
  · show (rxView (d.history ++ [.reset])).overrun = []
    rw [hrx]
    exact hinv.rx.overrun

theorem other_inv {e : DecEvent} (htx : txView (d.history ++ [e]) = txView d.history) (hetx : ∀ s, e ≠ .tx s)
    (hrx : rxView (d.history ++ [e]) = rxView d.history) (herx : ∀ s, e ≠ .rx s)
    (hhistory : d'.history = d.history ++ [e]) (hsent : d'.sent = d.sent) (htxBuf : d'.curTxBuf = d.curTxBuf)
    (hrxBuf : d'.curRxBuf = d.curRxBuf) (hoff : d'.curRxOffset = d.curRxOffset)
    (hmask : d'.xxxDmaToPhysMask = d.xxxDmaToPhysMask) (hlinked : Linked mem d'.history d'.mem)
    (htxOrder : Order true d'.history (d'.reg csrTxlist) d'.curTxAddr)
    (hrxOrder : Order false d'.history (d'.reg csrRxlist) d'.curRxAddr) (hinv : Inv window mem d) :
    Inv window mem d' := by
  refine ⟨?_, ?_, htxOrder, hrxOrder, hlinked, hmask.trans hinv.mask⟩
  · rw [hhistory, hsent, htxBuf]
    exact hinv.tx.other htx hetx
  · rw [hhistory, hrxBuf, hoff]
    exact hinv.rx.other hrx herx

theorem registerWrite_inv {r : Nat} {idata : BitVec 32} (hinv : Inv window mem d) :
    Inv window mem (d.registerWrite r idata).1 := by
  unfold registerWrite
  by_cases hbusmode : r = csrBusmode
  · subst hbusmode
    rw [if_pos rfl]
    have hset : Inv window mem (d.setReg csrBusmode idata) := quiet_inv (setReg_quiet (by decide) (by decide)) hinv
    split
    · exact reset_inv hset
    · exact hset
  rw [if_neg hbusmode]
  by_cases htxpoll : r = csrTxpoll
  · subst htxpoll
    rw [if_pos rfl]
    have hset : Inv window mem (d.setReg csrTxpoll idata) := quiet_inv (setReg_quiet (by decide) (by decide)) hinv
    exact { hset with }
  rw [if_neg htxpoll]
  by_cases hrxpoll : r = csrRxpoll
  · subst hrxpoll
    rw [if_pos rfl]
    exact quiet_inv (setReg_quiet (by decide) (by decide)) hinv
  rw [if_neg hrxpoll]
  by_cases hrxlist : r = csrRxlist
  · subst hrxlist
    rw [if_pos rfl]
    exact other_inv (txView_append (.rxList idata)) (fun _ he => nomatch he) (rxView_append (.rxList idata))
      (fun _ he => nomatch he) rfl rfl rfl rfl rfl rfl (.rxList idata hinv.linked)
      (hinv.txOrder.other (ringPlace_append true (.rxList idata)) (fun _ he => nomatch he))
      (hinv.rxOrder.list idata) hinv
  rw [if_neg hrxlist]
  by_cases htxlist : r = csrTxlist
  · subst htxlist
    rw [if_pos rfl]
    exact other_inv (txView_append (.txList idata)) (fun _ he => nomatch he) (rxView_append (.txList idata))
      (fun _ he => nomatch he) rfl rfl rfl rfl rfl rfl (.txList idata hinv.linked) (hinv.txOrder.list idata)
      (hinv.rxOrder.other (ringPlace_append false (.txList idata)) (fun _ he => nomatch he)) hinv
  rw [if_neg htxlist]
  have hset : Inv window mem (d.setReg r idata) := quiet_inv (setReg_quiet (Ne.symm htxlist) (Ne.symm hrxlist)) hinv
  split
  · exact quiet_inv clearStatus_quiet hinv
  · split
    · exact quiet_inv opmodeWrite_quiet hinv
    · split
      · exact hset
      · split
        · exact hinv
        · exact hset

theorem access_inv (op : DecOp) (hinv : Inv window mem d) : Inv window mem (d.access op).1 := by
  cases op with
  | write relativeAddr idata =>
    unfold access
    dsimp only
    split
    · exact registerWrite_inv hinv
    · exact hinv
  | read relativeAddr =>
    unfold access
    dsimp only
    split
    · unfold registerRead
      split
      · exact { hinv with }
      · split
        · exact hinv
        · exact hinv
    · exact hinv
  | tick => exact hinv
  | memWrite paddr data =>
    exact other_inv (txView_append (.guest paddr data)) (fun _ he => nomatch he) (rxView_append (.guest paddr data))
      (fun _ he => nomatch he) rfl rfl rfl rfl rfl rfl (.guest paddr data hinv.linked)
      (hinv.txOrder.other (ringPlace_append true (.guest paddr data)) (fun _ he => nomatch he))
      (hinv.rxOrder.other (ringPlace_append false (.guest paddr data)) (fun _ he => nomatch he)) hinv
  | arrive frame => exact { hinv with }

theorem step_inv {fuel : Nat} {op : DecOp} (h : d.step fuel op = some d') (hinv : Inv window mem d) :
    Inv window mem d' := by
  unfold step at h
  split at h
  · exact tick_inv h (access_inv op hinv)
  · cases h
    exact access_inv op hinv

end DecData

theorem start_inv (window : DmaWindow) (mem : Mem) (sromAddress : List Byte) (tapdev : Bool) (junk : Nat → Byte) :
    Inv window mem (start window mem sromAddress tapdev junk) := by
  have horder : ∀ tx, Order tx [] 0#32 0#32 := by
    intro tx _
    refine ⟨rfl, fun h1 s h2 hsplit => ?_⟩
    simp at hsplit
  refine ⟨⟨⟨fun l hl => ?_, fun l hl => ?_⟩, fun _ _ => ⟨rfl, rfl⟩, fun s hs => ?_⟩,
    ⟨fun fl hfl => ?_, rfl, fun s hs => ?_, rfl⟩, horder true, horder false, .start, rfl⟩
  · exact nomatch hl
  · exact nomatch hl
  · exact nomatch hs
  · exact nomatch hfl
  · exact nomatch hs

theorem run_inv {window : DmaWindow} {mem : Mem} {fuel : Nat} : ∀ {ops : List DecOp} {d d' : DecData},
    Inv window mem d → ops.foldlM (DecData.step fuel) d = some d' → Inv window mem d'
  | [], d, d', hinv, h => by
    cases h
    exact hinv
  | op :: ops, d, d', hinv, h => by
    rw [List.foldlM_cons] at h
    obtain ⟨d1, hstep, hrest⟩ := Option.bind_eq_some_iff.mp h
    exact run_inv (DecData.step_inv hstep hinv) hrest

/-! ## Frames in buffers that the chip can use -/

section
variable {f : List Byte} {l : List DecStep} {s : DecStep}

theorem Fits.room_eq (hfits : Fits f l) {k : Nat} (hk : k < l.length) :
    Scatter.room DecStep.capacity (l.take k) = Scatter.room DecStep.bufsize (l.take k) := by
  unfold Scatter.room
  congr 1
  apply List.map_congr_left
  intro x hx
  obtain ⟨j, hj⟩ := List.mem_iff_getElem?.mp hx
  rw [List.getElem?_take] at hj
  split at hj
  · obtain hone | ⟨hlast, -⟩ := hfits.oneBuffer j x hj
    · exact hone.bufsize.symm
    · omega
  · cases hj

theorem Fits.bufsize_le (hfits : Fits f l) {k : Nat} (hs : l[k]? = some s) : s.bufsize ≤ s.capacity := by
  obtain hone | ⟨-, hfirst⟩ := hfits.oneBuffer k s hs
  · rw [hone.bufsize]
  · rw [DecStep.bufsize_eq, if_pos hfirst, DecStep.capacity]
    omega

theorem Fits.stored (hfits : Fits f l) (hputs : PutAll f l) (hends : ∃ init x, l = init ++ [x] ∧
    Scatter.room DecStep.bufsize init < f.length ∧ f.length ≤ Scatter.room DecStep.bufsize (init ++ [x])) :
    Stored f l := by
  obtain ⟨init, x, hl, hbefore, hend⟩ := hends
  have hlength : l.length = init.length + 1 := by rw [hl]; simp
  have hinit : l.take init.length = init := by rw [hl, List.take_left]
  have hx : l[init.length]? = some x := by rw [hl]; simp
  have hroom := hfits.room_eq (k := init.length) (by omega)
  rw [hinit] at hroom
  have hlast : ∀ k s, l[k]? = some s → k + 1 = l.length → s = x := by
    intro k s hs hk
    obtain rfl : k = init.length := by omega
    rw [hx] at hs
    exact (Option.some.inj hs).symm
  have hreach : ∀ k s, l[k]? = some s →
      (f.length ≤ Scatter.room DecStep.bufsize (l.take k) + s.bufsize ↔ k + 1 = l.length) := by
    intro k s hs
    constructor
    · intro hle
      by_contra hne
      obtain ⟨hlt, -⟩ := List.getElem?_eq_some_iff.mp hs
      have hle' := Scatter.room_take_le DecStep.bufsize l (by omega : k + 1 ≤ init.length)
      rw [hinit, Scatter.room_take_succ hs] at hle'
      omega
    · intro hk
      obtain rfl := hlast k s hs hk
      obtain rfl : k = init.length := by omega
      rw [hinit, ← Scatter.room_append]
      exact hend
  refine ⟨fun k s hs i hi hlt => ?_, ?_, fun init' s' hl' => ?_, fun k s hs => ?_, fun k s hs => ?_, fun s hs => ?_⟩
  · obtain ⟨hk, -⟩ := List.getElem?_eq_some_iff.mp hs
    rw [hfits.room_eq hk] at hlt ⊢
    have hused : i < s.bufsize := by
      obtain hone | ⟨hk', -⟩ := hfits.oneBuffer k s hs
      · rw [hone.bufsize]
        exact hi
      · have hle := (hreach k s hs).mpr hk'
        omega
    rw [← DecStep.usedPlace_eq hused]
    exact (hputs k s hs).bytes (hfits.separate s (List.mem_of_getElem? hs)) i hused hlt
  · have hcap := hfits.bufsize_le hx
    rw [Scatter.room_append] at hend
    rw [hl, Scatter.room_append, hroom]
    omega
  · obtain ⟨rfl, -⟩ := List.append_inj' (hl.symm.trans hl') rfl
    rw [hroom]
    exact hbefore
  · rw [(hputs k s hs).status, (has_rxStatus _ _ _).1, beq_iff_eq]
    constructor
    · intro hzero
      by_contra hk
      have hle := Scatter.room_take_le DecStep.bufsize l (by omega : 1 ≤ k)
      cases l with
      | nil => simp at hlength
      | cons y l =>
        have hy : y.bufsize ≠ 0 := hfits.first y rfl
        have hone : Scatter.room DecStep.bufsize ((y :: l).take 1) = y.bufsize := by simp [Scatter.room]
        omega
    · rintro rfl
      rfl
  · rw [(hputs k s hs).status, (has_rxStatus _ _ _).2.1, decide_eq_true_iff]
    exact hreach k s hs
  · have hsx : s = x := by
      rw [hl, List.getLast?_concat] at hs
      exact (Option.some.inj hs).symm
    subst hsx
    have hcomplete := (hreach init.length s hx).mpr (by omega)
    rw [(hputs init.length s hx).status, decide_eq_true hcomplete]
    exact length_rxStatus _ hfits.short

end

end Gxemul.Dec21143
