import Gxemul.Network.Dec21143
import Gxemul.Network.Lance
import Gxemul.Lib.Run

/- Which frames the two Ethernet chips keep (dec21143_rx_drop_packet() in
   `src/devices/dev_dec21143.c` and le_rx_drop_packet() in `src/devices/dev_le.c`).

   The filters of the LANCE are those of its initialization block (`Lance.filter_right`).
   A reset of the 21143 does not touch what has been worked out from its registers and its
   last setup packet, and one word of ones is enough for it to take the hash table for full.
   The frames that the guest has asked for are kept in just the runs where this makes no
   difference (`filters_iff`). -/
namespace Gxemul

open Lib (Byte)

namespace Lance.LeData

def HashBit (ladrf : List (BitVec 16)) (packet : List Byte) : Prop :=
  let crc := (etherCrc32Le (packet.take 6)).toNat >>> 26
  ladrf.getD (crc >>> 4) 0#16 &&& 1#16 <<< (crc &&& 0xf) ≠ 0#16

def blockLadrf (d : LeData) : List (BitVec 16) :=
  let initBlockAddr := (d.reg 1).toNat + (((d.reg 2) &&& 0xff#16).toNat <<< 16)
  [8, 10, 12, 14].map fun i => d.read16 (initBlockAddr + i)

/-- The chip keeps unicast and broadcast frames, and those in LADRF. A frame that it drops leaves nothing behind. -/
def FilterRight (d : LeData) (ladrf : List (BitVec 16)) : Prop :=
  ∀ packet, (d.rxDropPacket packet = false ↔ Dec21143.DecData.etherMulticast packet = false ∨
      packet.take 6 = List.replicate 6 0xff#8 ∨ HashBit ladrf packet) ∧
    (d.rxPacket = none → d.rxDropPacket packet = true → ∀ arrived,
      fixRx (packet :: arrived) d = { d with arrived := arrived })

theorem hashBit_full (packet : List Byte) :
    HashBit [0xffff#16, 0xffff#16, 0xffff#16, 0xffff#16] packet := by
  have hword : ∀ j < 4, [0xffff#16, 0xffff#16, 0xffff#16, 0xffff#16].getD j 0#16 = 0xffff#16 := by decide
  have hbit : ∀ k < 16, 0xffff#16 &&& 1#16 <<< k ≠ 0#16 := by decide
  unfold HashBit
  dsimp only
  rw [hword _ (by simp only [Nat.shiftRight_eq_div_pow]; omega)]
  exact hbit _ (Nat.lt_of_le_of_lt Nat.and_le_right (by decide))

theorem filter_right (d : LeData) (htap : d.tapdev = true) : d.chipInit.FilterRight d.blockLadrf := by
  intro packet
  have hladrf : d.chipInit.ladrf = d.blockLadrf := rfl
  have hallmulti : d.chipInit.allmulti = true → d.blockLadrf = [0xffff#16, 0xffff#16, 0xffff#16, 0xffff#16] :=
    fun h => eq_of_beq h
  have htap' : d.chipInit.tapdev = true := htap
  generalize d.chipInit = d' at hladrf hallmulti htap'
  constructor
  · have hfull : d'.allmulti = true → HashBit d.blockLadrf packet := fun h => by
      rw [hallmulti h]
      exact hashBit_full packet
    unfold rxDropPacket Dec21143.DecData.etherMulticast
    rw [htap', hladrf]
    unfold HashBit at hfull ⊢
    cases hmulticast : packet.getD 0 0#8 &&& 0x01#8 != 0#8 <;>
      cases hbroadcast : packet.take 6 == List.replicate 6 0xff#8 <;> cases hm : d'.allmulti <;>
      simp_all
  · intro hnone hdrop arrived
    rw [fixRx]
    simp only [hnone, Option.isSome_none, Bool.false_eq_true, if_false, hdrop, if_true]

end Lance.LeData

namespace Dec21143

/-! ## What the guest has asked for -/

/-- The bits of OPMODE, and the last setup packet since the last reset. -/
structure Wanted where
  promiscuous : Bool := false
  passAll : Bool := false
  setup : Option (Filter × (Nat → BitVec 32)) := none

def HashBit (words : Nat → BitVec 32) (packet : List Byte) : Prop :=
  has (words (DecData.mchash packet >>> 4)) (1#32 <<< (DecData.mchash packet &&& 0xf)) = true

def Listed (words : Nat → BitVec 32) (packet : List Byte) : Prop :=
  ∃ i < tulipMaxaddrs, packet.take 6 = DecData.setupCopyEnaddr words (3 * i)

namespace Wanted
variable (w : Wanted)

def Accepts (packet : List Byte) : Prop :=
  match w.setup with
  | none => False
  | some (.perfect, words) => Listed words packet
  | some (.inverse, words) => ¬ Listed words packet
  | some (.hashonly, words) => HashBit words packet
  | some (.hashperfect, words) => DecData.etherMulticast packet = false ∨ HashBit words packet

def AllHashBits : Prop :=
  ∃ kind words, w.setup = some (kind, words) ∧ (kind = .hashonly ∨ kind = .hashperfect) ∧
    ∀ i < 32, words i &&& 0xffff#32 = 0xffff#32

def Keeps (packet : List Byte) : Prop :=
  w.promiscuous = true ∨ (w.passAll = true ∨ w.AllHashBits) ∧ DecData.etherMulticast packet = true ∨ w.Accepts packet

def HasFullWord : Prop :=
  ∃ kind words, w.setup = some (kind, words) ∧ (kind = .hashonly ∨ kind = .hashperfect) ∧
    ∃ i < 32, words i = 0xffff#32

end Wanted

inductive FilterOp where
  | reset
  | opmode (idata : BitVec 32)
  | setup (mem : Mem) (tdctl bufaddr : BitVec 32)

def filterType (tdctl : BitVec 32) : Filter :=
  match has tdctl tdctlTxFt1, has tdctl tdctlTxFt0 with
  | false, false => .perfect
  | false, true => .hashperfect
  | true, false => .inverse
  | true, true => .hashonly

structure FilterRun where
  chip : DecData
  wanted : Wanted := {}

namespace FilterRun

def wants (s : FilterRun) : FilterOp → Wanted
  | .reset => {}
  | .opmode idata => { s.wanted with promiscuous := has idata opmodePr, passAll := has idata opmodePm }
  | .setup mem tdctl bufaddr =>
    { s.wanted with setup := some (filterType tdctl, fun i => loadLe32 mem (s.chip.phys bufaddr + 4 * i)) }

def step (s : FilterRun) (op : FilterOp) : Except Empty FilterRun :=
  .ok {
    chip := match op with
      | .reset => s.chip.reset
      | .opmode idata => s.chip.opmodeWrite idata
      | .setup mem tdctl bufaddr => { s.chip with mem := mem }.processSetupPacket tdctl bufaddr
    wanted := s.wants op }

/-- The chip keeps the frames that the guest wants. A frame that it drops leaves nothing behind. -/
def Right (s : FilterRun) : Prop :=
  ∀ packet, (s.chip.rxDropPacket packet = false ↔ s.wanted.Keeps packet) ∧
    (s.chip.curRxBuf = none → s.chip.rxDropPacket packet = true → ∀ arrived,
      { s.chip with arrived := packet :: arrived }.rxFetch = { s.chip with arrived := arrived }.rxFetch)

/-- A reset when no frame is wanted, or an operation after which a full word in the hash table makes no difference. -/
def Good (s : FilterRun) : FilterOp → Prop
  | .reset => ∀ packet, ¬ s.wanted.Keeps packet
  | op => (s.wants op).promiscuous = true ∨ (s.wants op).passAll = true ∨ ((s.wants op).HasFullWord →
      ∀ packet, DecData.etherMulticast packet = true → (s.wants op).Accepts packet)

end FilterRun

/-! ## The filters of the chip -/

namespace DecData
variable {d : DecData} {packet : List Byte} {words : Nat → BitVec 32} {w : Wanted}

/-- drop_packet. -/
def dropped (d : DecData) (packet : List Byte) : Bool :=
  match d.dropPacket with
  | none => true
  | some .perfect => d.dropPacketPerfect packet
  | some .hashperfect => d.dropPacketHashperfect packet
  | some .inverse => !d.dropPacketPerfect packet
  | some .hashonly => d.dropPacketHashonly packet

theorem rxDropPacket_iff (htap : d.tapdev = true) : d.rxDropPacket packet = false ↔
    d.promiscuous = true ∨ d.allmulti = true ∧ etherMulticast packet = true ∨ d.dropped packet = false := by
  have hdrop : d.rxDropPacket packet = if d.promiscuous then false
      else if d.allmulti && etherMulticast packet then false else d.dropped packet := by
    unfold rxDropPacket dropped
    rw [htap]
    rfl
  rw [hdrop]
  cases d.promiscuous <;> cases d.allmulti <;> cases etherMulticast packet <;> simp

structure FilterOf (d : DecData) (kind : Filter) (words : Nat → BitVec 32) : Prop where
  table : match kind with
    | .perfect | .inverse =>
      d.perfectFilter = (List.range tulipMaxaddrs).map fun i => setupCopyEnaddr words (3 * i)
    | .hashonly | .hashperfect => d.hashFilter = (List.range 32).map words
  selected : d.dropPacket = some kind
  saturated : d.hashFilterSaturated = true ↔
    (kind = .hashonly ∨ kind = .hashperfect) ∧ ∃ i < 32, words i = 0xffff#32

theorem mchash_lt (packet : List Byte) : mchash packet >>> 4 < 32 := by
  have hlt : mchash packet < 2 ^ 9 := Nat.lt_of_le_of_lt Nat.and_le_right (by decide)
  rw [Nat.shiftRight_eq_div_pow]
  omega

theorem dropPacketHashonly_iff (htable : d.hashFilter = (List.range 32).map words) :
    d.dropPacketHashonly packet = false ↔ HashBit words packet := by
  unfold dropPacketHashonly HashBit
  dsimp only
  rw [htable, List.getD_eq_getElem?_getD, List.getElem?_map, List.getElem?_range (mchash_lt packet)]
  simp

theorem dropPacketPerfect_iff
    (htable : d.perfectFilter = (List.range tulipMaxaddrs).map fun i => setupCopyEnaddr words (3 * i)) :
    d.dropPacketPerfect packet = false ↔ Listed words packet := by
  unfold dropPacketPerfect Listed
  rw [htable]
  simp

theorem FilterOf.dropped_iff {kind : Filter} (h : d.FilterOf kind words) (hw : w.setup = some (kind, words)) :
    d.dropped packet = false ↔ w.Accepts packet := by
  have htable := h.table
  unfold dropped Wanted.Accepts
  rw [h.selected, hw]
  cases kind with
  | perfect => exact dropPacketPerfect_iff htable
  | hashonly => exact dropPacketHashonly_iff htable
  | inverse =>
    dsimp only
    rw [← dropPacketPerfect_iff htable]
    simp
  | hashperfect =>
    dsimp only [dropPacketHashperfect]
    rw [← dropPacketHashonly_iff htable, Bool.and_eq_false_iff]

end DecData

/-! ## Runs -/

namespace FilterRun
variable {s : FilterRun} {packet : List Byte}

/-- The flags are those of OPMODE and of the filter, and a full word makes no difference. -/
structure Inv (s : FilterRun) : Prop where
  tapdev : s.chip.tapdev = true
  pr : has (s.chip.reg csrOpmode) opmodePr = s.wanted.promiscuous
  pm : has (s.chip.reg csrOpmode) opmodePm = s.wanted.passAll
  promiscuous : s.chip.promiscuous = s.wanted.promiscuous
  allmulti : s.chip.allmulti = (s.wanted.passAll || s.chip.hashFilterSaturated)
  filter : ∀ kind words, s.wanted.setup = some (kind, words) → s.chip.FilterOf kind words
  noFilter : s.wanted.setup = none → s.chip.hashFilterSaturated = false ∧ ∀ packet, s.chip.dropped packet = true

theorem Inv.dropped_iff (h : s.Inv) (packet : List Byte) :
    s.chip.dropped packet = false ↔ s.wanted.Accepts packet := by
  cases hsetup : s.wanted.setup with
  | none =>
    rw [(h.noFilter hsetup).2, Wanted.Accepts, hsetup]
    simp
  | some setup => exact (h.filter _ _ hsetup).dropped_iff hsetup

theorem Inv.saturated_iff (h : s.Inv) : s.chip.hashFilterSaturated = true ↔ s.wanted.HasFullWord := by
  unfold Wanted.HasFullWord
  cases hsetup : s.wanted.setup with
  | none =>
    rw [(h.noFilter hsetup).1]
    simp
  | some setup =>
    rw [(h.filter _ _ hsetup).saturated]
    constructor
    · exact fun hfull => ⟨_, _, rfl, hfull⟩
    · rintro ⟨kind, words, ⟨⟩, hfull⟩
      exact hfull

theorem accepts_of_allHashBits {w : Wanted} (h : w.AllHashBits) : w.Accepts packet := by
  obtain ⟨kind, words, hsetup, hkind, hall⟩ := h
  have hbit : ∀ k < 16, has 0xffff#32 (1#32 <<< k) = true ∧ 0xffff#32 &&& 1#32 <<< k = 1#32 <<< k := by decide
  obtain ⟨hset, hmask⟩ := hbit (DecData.mchash packet &&& 0xf) (Nat.lt_of_le_of_lt Nat.and_le_right (by decide))
  have hhash : HashBit words packet := by
    unfold HashBit has at *
    rw [← hmask, ← BitVec.and_assoc, hall _ (DecData.mchash_lt packet)]
    exact hset
  unfold Wanted.Accepts
  rw [hsetup]
  obtain rfl | rfl := hkind
  · exact hhash
  · exact .inr hhash

theorem Inv.right_iff (h : s.Inv) : s.Right ↔ s.wanted.promiscuous = true ∨ s.wanted.passAll = true ∨
    (s.wanted.HasFullWord → ∀ packet, DecData.etherMulticast packet = true → s.wanted.Accepts packet) := by
  have hkeeps : ∀ packet, s.chip.rxDropPacket packet = false ↔ s.wanted.promiscuous = true ∨
      (s.wanted.passAll = true ∨ s.wanted.HasFullWord) ∧ DecData.etherMulticast packet = true ∨
      s.wanted.Accepts packet := by
    intro packet
    rw [DecData.rxDropPacket_iff h.tapdev, h.promiscuous, h.allmulti, h.dropped_iff, Bool.or_eq_true, h.saturated_iff]
  constructor
  · intro hright
    by_cases hpr : s.wanted.promiscuous = true
    · exact .inl hpr
    by_cases hpm : s.wanted.passAll = true
    · exact .inr (.inl hpm)
    refine .inr (.inr fun hfull packet hmulticast => ?_)
    have hkept := (hright packet).1.mp ((hkeeps packet).mpr (.inr (.inl ⟨.inr hfull, hmulticast⟩)))
    obtain hkeep | ⟨hkeep, -⟩ | hkeep := hkept
    · exact absurd hkeep hpr
    · exact accepts_of_allHashBits (hkeep.resolve_left hpm)
    · exact hkeep
  · intro hclean packet
    refine ⟨?_, fun hnone hdrop arrived => ?_⟩
    · rw [hkeeps]
      constructor
      · rintro (hkeep | ⟨hkeep, hmulticast⟩ | hkeep)
        · exact .inl hkeep
        · obtain hpr | hpm | hfull := hclean
          · exact .inl hpr
          · exact .inr (.inl ⟨.inl hpm, hmulticast⟩)
          · obtain hpm | hword := hkeep
            · exact .inr (.inl ⟨.inl hpm, hmulticast⟩)
            · exact .inr (.inr (hfull hword packet hmulticast))
        · exact .inr (.inr hkeep)
      · rintro (hkeep | ⟨hkeep, hmulticast⟩ | hkeep)
        · exact .inl hkeep
        · obtain hpm | hall := hkeep
          · exact .inr (.inl ⟨.inl hpm, hmulticast⟩)
          · exact .inr (.inr (accepts_of_allHashBits hall))
        · exact .inr (.inr hkeep)
    · have hfetch : ∀ l, ({ s.chip with arrived := l } : DecData).rxFetch =
          DecData.fetch l { s.chip with arrived := l } := fun l => by
        unfold DecData.rxFetch
        rw [hnone]
        rfl
      have hsame : ∀ (l l' l'' : List (List Byte)), DecData.fetch l { s.chip with arrived := l' } =
          DecData.fetch l { s.chip with arrived := l'' } := by
        intro l l' l''
        induction l with
        | nil => rfl
        | cons p l ih =>
          exact if_congr Iff.rfl ih rfl
      have hdrop' : ({ s.chip with arrived := packet :: arrived } : DecData).rxDropPacket packet = true := hdrop
      rw [hfetch, hfetch, DecData.fetch, if_pos hdrop']
      exact hsame _ _ _

/-! ## One operation -/

theorem inv_updateRxMode {d : DecData} {w : Wanted} (htap : d.tapdev = true)
    (hpr : has (d.reg csrOpmode) opmodePr = w.promiscuous) (hpm : has (d.reg csrOpmode) opmodePm = w.passAll)
    (hfilter : ∀ kind words, w.setup = some (kind, words) → d.FilterOf kind words)
    (hnone : w.setup = none → d.hashFilterSaturated = false ∧ ∀ packet, d.dropped packet = true) :
    Inv ⟨d.updateRxMode, w⟩ where
  tapdev := htap
  pr := hpr
  pm := hpm
  promiscuous := hpr
  allmulti := by
    rw [← hpm]
    rfl
  filter := fun kind words h => ⟨(hfilter kind words h).table, (hfilter kind words h).selected,
    (hfilter kind words h).saturated⟩
  noFilter := hnone

theorem has_keep {x y m b : BitVec 32} (h : m &&& b = 0#32) : has ((x &&& ~~~m) ||| (y &&& m)) b = has x b := by
  have hbits : ((x &&& ~~~m) ||| (y &&& m)) &&& b = x &&& b := by
    ext i hi
    have hi' : (m &&& b)[i] = false := by
      rw [h]
      simp
    simp only [BitVec.getElem_and, BitVec.getElem_or, BitVec.getElem_not] at hi' ⊢
    revert hi'
    cases x[i] <;> cases y[i] <;> cases m[i] <;> cases b[i] <;> simp
  unfold has
  rw [hbits]

theorem Inv.opmodeWrite (h : s.Inv) (idata : BitVec 32) : Inv ⟨s.chip.opmodeWrite idata, s.wants (.opmode idata)⟩ := by
  have hreg : ∃ (d : DecData) (y : BitVec 32), s.chip.opmodeWrite idata = d.updateRxMode ∧ d.tapdev = s.chip.tapdev ∧
      d.reg csrOpmode = (idata &&& ~~~(opmodeHp ||| opmodeHo ||| opmodeIf)) |||
        (y &&& (opmodeHp ||| opmodeHo ||| opmodeIf)) ∧
      d.dropPacket = s.chip.dropPacket ∧ d.perfectFilter = s.chip.perfectFilter ∧ d.hashFilter = s.chip.hashFilter ∧
      d.hashFilterSaturated = s.chip.hashFilterSaturated := by
    refine ⟨_, s.chip.reg csrOpmode, rfl, ?_⟩
    cases has idata opmodeSt <;> cases has idata opmodeSr <;> cases has idata opmodePnicIt <;>
      simp [DecData.setReg, DecData.setStatus, DecData.clearStatus, csrStatus, csrOpmode]
  obtain ⟨d, y, hd, htap, hopmode, hdrop, hperfect, hhash, hsaturated⟩ := hreg
  rw [hd]
  refine inv_updateRxMode (htap.trans h.tapdev) ?_ ?_ (fun kind words hsetup => ?_) fun hnone => ⟨?_, fun packet => ?_⟩
  · rw [hopmode]
    exact has_keep (by decide)
  · rw [hopmode]
    exact has_keep (by decide)
  · obtain ⟨htable, hselected, hfull⟩ := h.filter kind words hsetup
    exact ⟨by rw [hperfect, hhash]; exact htable, hdrop.trans hselected, by rw [hsaturated, hfull]⟩
  · rw [hsaturated]
    exact (h.noFilter hnone).1
  · rw [← (h.noFilter hnone).2 packet]
    unfold DecData.dropped DecData.dropPacketPerfect DecData.dropPacketHashperfect DecData.dropPacketHashonly
    rw [hdrop, hperfect, hhash]

theorem Inv.setup (h : s.Inv) (mem : Mem) (tdctl bufaddr : BitVec 32) :
    Inv ⟨{ s.chip with mem := mem }.processSetupPacket tdctl bufaddr, s.wants (.setup mem tdctl bufaddr)⟩ := by
  have hreg : ∃ (d : DecData) (y : BitVec 32), { s.chip with mem := mem }.processSetupPacket tdctl bufaddr =
      d.updateRxMode ∧ d.tapdev = s.chip.tapdev ∧
      d.reg csrOpmode = (s.chip.reg csrOpmode &&& ~~~(opmodeHp ||| opmodeHo ||| opmodeIf)) |||
        (y &&& (opmodeHp ||| opmodeHo ||| opmodeIf)) ∧
      d.FilterOf (filterType tdctl) fun i => loadLe32 mem (s.chip.phys bufaddr + 4 * i) := by
    generalize hwords : (fun i => loadLe32 mem (s.chip.phys bufaddr + 4 * i)) = words
    have hfull : ((List.range 32).map words).any (· == 0xffff#32) = true ↔ ∃ i < 32, words i = 0xffff#32 := by simp
    have hzero : ∀ x : BitVec 32, x ||| (0#32 &&& (opmodeHp ||| opmodeHo ||| opmodeIf)) = x := by simp
    unfold filterType DecData.processSetupPacket
    subst hwords
    cases hft1 : has tdctl tdctlTxFt1 <;> cases hft0 : has tdctl tdctlTxFt0
    · exact ⟨_, 0#32, rfl, rfl, (hzero _).symm, rfl, rfl, by simp [DecData.setReg]⟩
    · exact ⟨_, opmodeHp, rfl, rfl, rfl, rfl, rfl, hfull.trans (by simp)⟩
    · exact ⟨_, opmodeIf, rfl, rfl, rfl, rfl, rfl, by simp [DecData.setReg]⟩
    · exact ⟨_, opmodeHo, rfl, rfl, rfl, rfl, rfl, hfull.trans (by simp)⟩
  obtain ⟨d, y, hd, htap, hopmode, hfilter⟩ := hreg
  rw [hd]
  refine inv_updateRxMode (htap.trans h.tapdev) ?_ ?_ (fun kind words hsetup => ?_) fun hnone => by cases hnone
  · rw [hopmode, has_keep (by decide)]
    exact h.pr
  · rw [hopmode, has_keep (by decide)]
    exact h.pm
  · cases hsetup
    exact hfilter

theorem not_keeps_start (packet : List Byte) : ¬ ({} : Wanted).Keeps packet := by
  rintro (h | ⟨h | ⟨kind, words, h, -⟩, -⟩ | h)
  · cases h
  · cases h
  · cases h
  · exact h

theorem resetReg_has {b : BitVec 32} (h : has 0#32 b = false) : has (DecData.resetReg csrOpmode) b = false := h

theorem Inv.reset (h : s.Inv) (hright : s.Right) : (s.Good .reset → Inv ⟨s.chip.reset, {}⟩ ∧ Right ⟨s.chip.reset, {}⟩) ∧
    (¬ s.Good .reset → ¬ Right ⟨s.chip.reset, {}⟩) := by
  have hdrop : ∀ packet, s.chip.reset.rxDropPacket packet = s.chip.rxDropPacket packet := fun _ => rfl
  constructor
  · intro hgood
    have hpr : s.chip.promiscuous = false := by
      rw [h.promiscuous, Bool.eq_false_iff]
      exact fun hp => hgood [] (.inl hp)
    have hclean : ∀ packet, s.chip.dropped packet = true := fun packet => by
      rw [← Bool.not_eq_false, h.dropped_iff]
      exact fun hp => hgood packet (.inr (.inr hp))
    have hallmulti : s.chip.allmulti = false := by
      -- a multicast frame would be kept
      rw [Bool.eq_false_iff]
      intro hm
      exact hgood [0x01#8] ((hright _).1.mp ((DecData.rxDropPacket_iff h.tapdev).mpr (.inr (.inl ⟨hm, by decide⟩))))
    obtain ⟨-, hsaturated⟩ := Bool.or_eq_false_iff.mp (h.allmulti.symm.trans hallmulti)
    have hinv : Inv ⟨s.chip.reset, {}⟩ := {
      tapdev := h.tapdev
      pr := resetReg_has (by decide)
      pm := resetReg_has (by decide)
      promiscuous := hpr
      allmulti := by
        show s.chip.allmulti = (false || s.chip.hashFilterSaturated)
        rw [hallmulti, hsaturated]
        rfl
      filter := fun kind words hnone => by cases hnone
      noFilter := fun _ => ⟨hsaturated, hclean⟩ }
    refine ⟨hinv, hinv.right_iff.mpr (.inr (.inr ?_))⟩
    rintro ⟨kind, words, hnone, -⟩
    cases hnone
  · intro hbad hright'
    refine hbad fun packet hkeeps => not_keeps_start packet ((hright' packet).1.mp ?_)
    rw [hdrop]
    exact (hright packet).1.mpr hkeeps

theorem Inv.step (h : s.Inv) (op : FilterOp) (hright : s.Right) :
    ∃ s', s.step op = .ok s' ∧ (s.Good op → s'.Inv ∧ s'.Right) ∧ (¬ s.Good op → ¬ s'.Right) := by
  refine ⟨_, rfl, ?_⟩
  cases op with
  | reset => exact h.reset hright
  | opmode idata =>
    have hinv := h.opmodeWrite idata
    exact ⟨fun hgood => ⟨hinv, hinv.right_iff.mpr hgood⟩, fun hbad hright => hbad (hinv.right_iff.mp hright)⟩
  | setup mem tdctl bufaddr =>
    have hinv := h.setup mem tdctl bufaddr
    exact ⟨fun hgood => ⟨hinv, hinv.right_iff.mpr hgood⟩, fun hbad hright => hbad (hinv.right_iff.mp hright)⟩

theorem inv_start (window : DmaWindow) (mem : Mem) (sromAddress : List Byte) (junk : Nat → Byte) :
    Inv ⟨start window mem sromAddress true junk, {}⟩ where
  tapdev := rfl
  pr := resetReg_has (by decide)
  pm := resetReg_has (by decide)
  promiscuous := rfl
  allmulti := rfl
  filter := fun kind words hnone => by cases hnone
  noFilter := fun _ => ⟨rfl, fun _ => rfl⟩

end FilterRun

/-- The 21143 keeps the wanted frames throughout the run, and the LANCE after each initialization. -/
def FiltersRight (window : DmaWindow) (mem : Mem) (sromAddress : List Byte) (junk : Nat → Byte) (ops : List FilterOp) :
    Prop :=
  Lib.Reaches FilterRun.step FilterRun.Right ops ⟨start window mem sromAddress true junk, {}⟩ ∧
    ∀ d : Lance.LeData, d.tapdev = true → d.chipInit.FilterRight d.blockLadrf

/-- The filters are right in just the runs whose operations are all good. -/
theorem filters_iff (window : DmaWindow) (mem : Mem) (sromAddress : List Byte) (junk : Nat → Byte)
    (ops : List FilterOp) : FiltersRight window mem sromAddress junk ops ↔
      Lib.Along FilterRun.step FilterRun.Good ops ⟨start window mem sromAddress true junk, {}⟩ := by
  have hinv := FilterRun.inv_start window mem sromAddress junk
  have hright : FilterRun.Right ⟨start window mem sromAddress true junk, {}⟩ := by
    refine hinv.right_iff.mpr (.inr (.inr ?_))
    rintro ⟨kind, words, hnone, -⟩
    cases hnone
  refine (and_iff_left fun d htap => Lance.LeData.filter_right d htap).trans ?_
  exact Lib.reaches_iff_of_inv (R := fun s : FilterRun => s.Inv ∧ s.Right) (fun _ h => h.2)
    (fun _ op h _ => h.1.step op h.2) ⟨hinv, hright⟩ (Lib.along_true ops _)

/-- Promiscuous mode is still there after a reset. -/
theorem reset_not_right : ¬ FiltersRight .other (fun _ => 0#8) [] (fun _ => 0#8) [.opmode opmodePr, .reset] := by
  rintro ⟨⟨-, hreach⟩, -⟩
  obtain ⟨-, hreach'⟩ := hreach _ rfl
  have hright := hreach' _ rfl
  exact FilterRun.not_keeps_start [] ((hright []).1.mp rfl)

end Dec21143
end Gxemul
