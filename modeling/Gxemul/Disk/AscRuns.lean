import Gxemul.Disk.AscMoves
import Gxemul.Disk.ScsiStore

/- A guest that is careful does not bring the NCR53C9x controller down.

   Each function of the controller ends and keeps `Right`, under the part of `Careful`
   that it needs. Over a run one thing more has to be kept: what the target still has
   to give is what has not been delivered. -/
namespace Gxemul.Asc

open Lib (Byte Scatter)
open Disk (ScsiResult)

/-! ## Results -/

def Ends {α : Type*} (P : α → Prop) (r : Except Fault α) : Prop := ∃ a, r = .ok a ∧ P a

section
variable {α β : Type*} {P : α → Prop} {Q : β → Prop} {r : Except Fault α}

theorem Ends.ok {a : α} (h : P a) : Ends P (.ok a) := ⟨a, rfl, h⟩

theorem Ends.map {f : α → β} (h : Ends P r) (hf : ∀ a, r = .ok a → P a → Q (f a)) : Ends Q (r.map f) := by
  obtain ⟨a, rfl, ha⟩ := h
  exact .ok (hf a rfl ha)

theorem Ends.bind {f : α → Except Fault β} (h : Ends P r) (hf : ∀ a, r = .ok a → P a → Ends Q (f a)) :
    Ends Q (r.bind f) := by
  obtain ⟨a, rfl, ha⟩ := h
  exact hf a rfl ha

end

/-! ## What is kept -/

/-- Besides, what the target still has to give is what has not been delivered. -/
structure Inv {σ : Type*} (d : AscData σ) : Prop extends Right d where
  pending : d.curPhase = .dataIn → ∀ x data, d.xferp = some x → x.dataIn = some data →
    data = d.given.drop (Scatter.room DmaIn.count d.ins)

theorem assembled_append (l : List DmaOut) (s : DmaOut) :
    assembled (l ++ [s]) = assembled l ++ s.piece (assembled l).length := by
  rw [assembled, List.foldl_append]
  rfl

theorem getElem?_append_singleton {α : Type*} {l : List α} {a b : α} {k : Nat} (h : (l ++ [a])[k]? = some b) :
    (l[k]? = some b ∧ (l ++ [a]).take k = l.take k) ∨ (b = a ∧ (l ++ [a]).take k = l) := by
  by_cases hk : k < l.length
  · rw [List.getElem?_append_left hk] at h
    exact Or.inl ⟨h, List.take_append_of_le_length (by omega)⟩
  · obtain ⟨hlt, hval⟩ := List.getElem?_eq_some_iff.mp h
    rw [List.length_append, List.length_singleton] at hlt
    obtain rfl : k = l.length := by omega
    exact Or.inr ⟨by simpa using hval.symm, List.take_left⟩

namespace AscData
variable {σ : Type*} {t : Target σ} {d : AscData σ} {dmaflag : Bool}

theorem inv_of_right (h : Right d) (hphase : d.curPhase ≠ .dataIn) : Inv d := ⟨h, fun heq => absurd heq hphase⟩

theorem inv_ro {regRo : Nat → BitVec 32} (h : Inv d) : Inv { d with regRo := regRo } :=
  ⟨⟨h.fifo, h.ins, h.outs, h.dataOut⟩, h.pending⟩

theorem inv_setRo {r : Nat} {x : BitVec 32} (h : Inv d) : Inv (d.setRo r x) := inv_ro h

theorem inv_orRo {r : Nat} {x : BitVec 32} (h : Inv d) : Inv (d.orRo r x) := inv_setRo h

theorem inv_phaseRo {x : BitVec 32} (h : Inv d) : Inv (d.phaseRo x) := inv_setRo h

theorem inv_stepRo {x : BitVec 32} (h : Inv d) : Inv (d.stepRo x) := inv_setRo h

theorem inv_countRo {x : BitVec 32} (h : Inv d) : Inv (d.countRo x) := inv_setRo (inv_setRo h)

theorem inv_dmaAddressReg {a : BitVec 32} (h : Inv d) : Inv { d with dmaAddressReg := a } :=
  ⟨⟨h.fifo, h.ins, h.outs, h.dataOut⟩, h.pending⟩

theorem inv_regWo {regWo : Nat → BitVec 32} (h : Inv d) : Inv { d with regWo := regWo } :=
  ⟨⟨h.fifo, h.ins, h.outs, h.dataOut⟩, h.pending⟩

theorem inv_irqAsserted {b : Bool} (h : Inv d) : Inv { d with irqAsserted := b } :=
  ⟨⟨h.fifo, h.ins, h.outs, h.dataOut⟩, h.pending⟩

theorem inv_addressMemory {m : Nat → Byte} (h : Inv d) : Inv { d with dmaAddressRegMemory := m } :=
  ⟨⟨h.fifo, h.ins, h.outs, h.dataOut⟩, h.pending⟩

theorem inv_dma {m : Nat → Byte} (h : Inv d) : Inv { d with dma := m } :=
  ⟨⟨h.fifo, h.ins, h.outs, h.dataOut⟩, h.pending⟩

theorem inv_fifo {fifo : Fifo} (h : Inv d) (hfifo : FifoOk fifo) : Inv { d with fifo := fifo } :=
  ⟨⟨hfifo, h.ins, h.outs, h.dataOut⟩, h.pending⟩

theorem inv_none (h : Inv d) : Inv { d with xferp := none } :=
  ⟨⟨h.fifo, h.ins, h.outs, fun _ hx => nomatch hx⟩, fun _ _ _ hx => nomatch hx⟩

theorem inv_phase {phase : Phase} (h : Inv d) (hphase : phase ≠ .dataIn) : Inv { d with curPhase := phase } :=
  inv_of_right ⟨h.fifo, h.ins, h.outs, h.dataOut⟩ hphase

theorem inv_xferp {x y : Xfer} {fifo : Fifo} (hx : d.xferp = some x) (h : Inv d) (hphase : d.curPhase ≠ .dataIn)
    (hfifo : FifoOk fifo) (hout : y.dataOut = x.dataOut) (hoff : y.dataOutOffset = x.dataOutOffset) :
    Inv { d with xferp := some y, fifo := fifo } := by
  refine inv_of_right ⟨hfifo, h.ins, h.outs, fun z hz => ?_⟩ hphase
  cases hz
  rw [hout, hoff]
  exact h.dataOut x hx

theorem newxfer_inv (hfifo : FifoOk d.fifo) : Inv d.newxfer := by
  refine ⟨⟨hfifo, fun k s hs => ?_, fun k s hs => ?_, fun x hx => ?_⟩, fun _ x data hx hdata => ?_⟩
  · cases hs
  · cases hs
  · cases hx
    exact ⟨rfl, rfl⟩
  · cases hx
    cases hdata

theorem disconnect_unless_inv {res : ScsiResult} (h : Inv d) : Inv (if res = .error then d.disconnect else d) := by
  split
  · exact inv_none (inv_stepRo (inv_orRo (inv_orRo h)))
  · exact h

/-! ## Selection -/

theorem scsicommand_ends {id : BitVec 32} {x : Xfer} (hx : d.xferp = some x) (h : Inv d) (hphase : d.curPhase ≠ .dataIn)
    (hok : (t.diskimageScsicommand d.target id x).isSome = true) :
    Ends (fun r => Inv r.1 ∧ r.1.curPhase = d.curPhase) (d.scsicommand t id) := by
  obtain ⟨⟨target, r⟩, hcall⟩ := Option.isSome_iff_exists.mp hok
  unfold scsicommand
  rw [hx]
  dsimp only
  rw [hcall]
  exact .ok ⟨inv_of_right ⟨h.fifo, h.ins, h.outs, fun y hy => by cases hy; exact h.dataOut x hx⟩ hphase, rfl⟩

theorem selectMessage_ends {n : Nat} {x : Xfer} (hx : d.xferp = some x) (h : Inv d) (hphase : d.curPhase ≠ .dataIn)
    (hn : (n : Int) ≤ d.fifo.nBytesInFifo) :
    Ends (fun r => Inv r.1 ∧ r.1.curPhase = d.curPhase ∧ r.1.selid = d.selid ∧ ∃ y, r.1.xferp = some y)
      (d.selectMessage n) := by
  unfold selectMessage
  split
  · exact .ok ⟨h, rfl, rfl, x, hx⟩
  · rw [hx]
    exact .ok ⟨inv_xferp hx h hphase (Fifo.readBytes_ok h.fifo hn).1 rfl rfl, rfl, rfl, _, rfl⟩

theorem selectCommand_ends {x : Xfer} (hx : d.xferp = some x) (h : Inv d) (hphase : d.curPhase ≠ .dataIn)
    (hcount : dmaflag = true → 0 ≤ d.countReg.toInt) :
    Ends (fun d' => Inv d' ∧ d'.curPhase = d.curPhase ∧ d'.selid = d.selid ∧ ∃ y, d'.xferp = some y)
      (d.selectCommand dmaflag) := by
  unfold selectCommand
  rw [hx]
  dsimp only
  cases dmaflag with
  | false =>
    obtain ⟨hok, hle, -⟩ := @Fifo.drain_ok ascFifoLen d.fifo h.fifo
    have hnonneg : ¬ d.fifo.nBytesInFifo < 0 := by
      rw [h.fifo.count]
      exact not_lt.mpr (Int.natCast_nonneg _)
    rw [if_pos (by decide), if_neg hnonneg, if_neg (not_lt.mpr hle)]
    exact .ok ⟨inv_xferp hx h hphase hok rfl rfl, rfl, rfl, _, rfl⟩
  | true =>
    rw [if_neg (by decide), if_neg (not_lt.mpr (hcount rfl))]
    exact .ok ⟨inv_orRo (inv_countRo (inv_xferp hx h hphase h.fifo rfl rfl)), rfl, rfl, _, rfl⟩

theorem selectDone_inv {res : ScsiResult} (h : Inv d) : Inv (d.selectDone res) := by
  refine ⟨⟨h.fifo, fun k s hs => ?_, h.outs, h.dataOut⟩, fun _ x data hx hdata => ?_⟩
  · cases hs
  · have hx : d.xferp = some x := hx
    show data = ((d.xferp.bind Xfer.dataIn).getD []).drop 0
    rw [hx]
    show data = (x.dataIn.getD []).drop 0
    rw [hdata]
    rfl

theorem selectStop_inv (h : Inv d) : Inv (((((d.orRo ncrStat ncrstatInt).orRo ncrIntr ncrintrFc).orRo ncrIntr
    ncrintrBs).phaseRo d.curPhase.value).stepRo 1#32) :=
  inv_stepRo (inv_phaseRo (inv_orRo (inv_orRo (inv_orRo h))))

theorem selectsCommand_ends {x : Xfer} (hx : d.xferp = some x) (h : Inv d) (hphase : d.curPhase ≠ .dataIn)
    (hfits : d.SelectsCommand t dmaflag) :
    Ends (fun r => Inv r.1) ((d.selectCommand dmaflag).bind fun d' =>
      (d'.scsicommand t d.selid).bind fun r => .ok (r.1.selectDone r.2, r.2)) := by
  refine (selectCommand_ends hx h hphase hfits.1).bind fun d' hcommand ⟨h', hphase', hselid, y, hy⟩ => ?_
  have haccepts : Accepts t (d.selectCommand dmaflag) := hfits.2
  rw [hcommand] at haccepts
  have hok : (t.diskimageScsicommand d'.target d.selid y).isSome = true := by
    rw [← hselid]
    simpa only [Accepts, hy, Option.all_some] using haccepts
  refine (scsicommand_ends hy h' (by rw [hphase']; exact hphase) hok).bind fun r _ hr => ?_
  exact .ok (selectDone_inv hr.1)

theorem select_ends {n : Nat} {x : Xfer} (hx : d.xferp = some x) (h : Inv d) (hphase : d.curPhase ≠ .dataIn)
    (hn : (n : Int) ≤ d.fifo.nBytesInFifo)
    (hfits : ∀ d', d.selectMessage n = .ok (d', true) → d.curPhase = .msgOut ∨ d'.SelectsCommand t dmaflag) :
    Ends (fun r => Inv r.1) (d.select t d.selid dmaflag n) := by
  refine (selectMessage_ends hx h hphase hn).bind fun r hmessage ⟨h1, hphase1, hselid, y, hy⟩ => ?_
  obtain ⟨d1, go⟩ := r
  cases go with
  | false => exact .ok h1
  | true =>
    by_cases hmsg : d1.curPhase = .msgOut
    · simp only [Bool.not_true, Bool.false_eq_true, if_false, if_pos hmsg]
      exact .ok (selectStop_inv h1)
    · have hcommand := (hfits d1 hmessage).resolve_left (by rw [← hphase1]; exact hmsg)
      simp only [Bool.not_true, Bool.false_eq_true, if_false, if_neg hmsg]
      rw [← hselid]
      exact selectsCommand_ends hy h1 (by rw [hphase1]; exact hphase) hcommand

/-! ## Data from the target -/

theorem put_cleared {dma : Nat → Byte} {addr n : Nat} {data : List Byte}
    (hclear : ∀ i < n - data.length, dma (addr + data.length + i) = 0#8) :
    put (put dma addr (List.replicate n 0#8)) addr data = put dma addr data := by
  funext a
  by_cases haddr : addr ≤ a
  · by_cases hdata : a - addr < data.length
    · simp only [put, if_pos haddr, List.getD_eq_getElem _ _ hdata]
    · have hrest : put dma addr (List.replicate n 0#8) a = dma a := by
        by_cases hn : a - addr < n
        · have hzero := hclear (a - addr - data.length) (by omega)
          have hpos : addr + data.length + (a - addr - data.length) = a := by omega
          rw [hpos] at hzero
          simp [put, haddr, List.getD, hn, hzero]
        · simp [put, List.getD, hn]
      have hlast : ∀ f : Nat → Byte, put f addr data a = f a := by
        intro f
        simp only [put, if_pos haddr, List.getD_eq_default _ _ (not_lt.mp hdata)]
      rw [hlast, hlast, hrest]
  · simp [put, haddr]

def dmaIn (d : AscData σ) (data : List Byte) : DmaIn :=
  ⟨d.count, d.dmaAddr, d.dma, put d.dma d.dmaAddr (data.take d.count), decide (data.length ≤ d.count)⟩

theorem dataInDma_eq {x : Xfer} {data : List Byte} (hfits : d.FitsIn data) :
    d.dataInDma x data =
      .ok (((({ d with
        dma := (d.dmaIn data).post
        xferp := some { x with dataIn := some (if data.length ≤ d.count then data else data.drop d.count) }
        ins := d.ins ++ [d.dmaIn data] } : AscData σ).countRo 0#32).orRo ncrStat ncrstatTc),
        (d.dmaIn data).done) := by
  obtain ⟨hbound, hclear⟩ := hfits
  unfold dataInDma dmaIn
  dsimp only
  by_cases hlen : data.length ≤ d.count
  · -- All that is left is transferred.
    have hlenIn : ¬ data.length + d.dmaAddr > ascDmaSize := by omega
    rw [if_neg hlenIn, if_neg (by omega), List.take_of_length_le hlen]
    by_cases hmore : d.count > data.length
    · simp only [if_pos hmore, List.take_length, put_cleared hclear, le_refl, decide_true, if_true, hlen]
    · have heq : d.count = data.length := by omega
      simp only [heq, List.take_length, gt_iff_lt, lt_self_iff_false, if_false, le_refl, decide_true, if_true]
  · have hlenIn : ¬ d.count > (if data.length + d.dmaAddr > ascDmaSize then ascDmaSize - d.dmaAddr else data.length) := by
      split <;> omega
    rw [if_neg (fun h => hlenIn h.1)]
    simp only [if_neg hlenIn, hlen, decide_false, Bool.false_eq_true, if_false]

theorem dataInDma_ends {x : Xfer} {data : List Byte} (hx : d.xferp = some x) (hdata : x.dataIn = some data) (h : Inv d)
    (hphase : d.curPhase = .dataIn) (hfits : d.FitsIn data) :
    Ends (fun r => Right r.1 ∧ r.1.curPhase = .dataIn ∧ (r.2 = false → Inv r.1)) (d.dataInDma x data) := by
  have hleft := h.pending hphase x data hx hdata
  rw [dataInDma_eq hfits]
  have hright : Right (((({ d with
      dma := (d.dmaIn data).post
      xferp := some { x with dataIn := some (if data.length ≤ d.count then data else data.drop d.count) }
      ins := d.ins ++ [d.dmaIn data] } : AscData σ).countRo 0#32).orRo ncrStat ncrstatTc)) := by
    refine ⟨h.fifo, fun k s hs => ?_, h.outs, fun y hy => ?_⟩
    · obtain ⟨hold, htake⟩ | ⟨rfl, htake⟩ := getElem?_append_singleton hs
      · show s.Delivers (d.given.drop (Scatter.room DmaIn.count ((d.ins ++ [d.dmaIn data]).take k)))
        rw [htake]
        exact h.ins k s hold
      · show (d.dmaIn data).Delivers (d.given.drop (Scatter.room DmaIn.count ((d.ins ++ [d.dmaIn data]).take k)))
        rw [htake, ← hleft]
        refine ⟨?_, rfl, decide_eq_true_iff⟩
        have hbound := hfits.1
        have hlen := List.length_take_le d.count data
        exact le_trans (Nat.add_le_add_left hlen _) hbound
    · cases hy
      exact h.dataOut x hx
  refine .ok ⟨hright, hphase, fun hdone => ⟨hright, fun _ y rest hy hrest => ?_⟩⟩
  have hmore : ¬ data.length ≤ d.count := of_decide_eq_false hdone
  cases hy
  cases hrest
  show (if data.length ≤ d.count then data else data.drop d.count) =
    d.given.drop (Scatter.room DmaIn.count (d.ins ++ [d.dmaIn data]))
  rw [if_neg hmore, Scatter.room_append, ← List.drop_drop, ← hleft]
  rfl

/-! ## Data to the target -/

theorem len2_eq {x : Xfer} (hfits : d.FitsOut x) {len2 : Int}
    (hlen2 : len2 = if d.countReg = 0#32 then (65536 : Int) else d.countReg.toInt) :
    (if (x.dataOutOffset : Int) + len2 < 0 ∨ (x.dataOutLen : Int) < x.dataOutOffset + len2 then
      (x.dataOutLen : Int) - x.dataOutOffset else len2) = ((min d.count (x.dataOutLen - x.dataOutOffset) : Nat) : Int) := by
  obtain ⟨-, hoff, hsign, hbound⟩ := hfits
  by_cases hzero : d.countReg = 0#32
  · have hcount : d.count = 65536 := if_pos hzero
    rw [if_pos hzero] at hlen2
    rw [hcount, hlen2]
    split <;> omega
  · have hcount : d.count = d.countReg.toNat := if_neg hzero
    rw [if_neg hzero] at hlen2
    rw [hcount] at hbound ⊢
    rw [hlen2]
    have hsigned := BitVec.toInt_eq_toNat_cond d.countReg
    have hsize : d.dmaAddr + min d.countReg.toNat (x.dataOutLen - x.dataOutOffset) ≤ 131072 := hbound
    split at hsigned <;> split <;> omega

def dmaOut (d : AscData σ) (x : Xfer) : DmaOut :=
  { count := d.count
    addr := d.dmaAddr
    dma := d.dma
    total := x.dataOutLen
    done := decide (x.dataOutLen ≤ x.dataOutOffset + min d.count (x.dataOutLen - x.dataOutOffset)) }

theorem dmaOut_piece_length {x : Xfer} :
    ((d.dmaOut x).piece x.dataOutOffset).length = min d.count (x.dataOutLen - x.dataOutOffset) := by
  rw [DmaOut.piece, List.length_map, List.length_range]
  rfl

theorem dataOutDma_eq {x : Xfer} (hfits : d.FitsOut x) (hnone : x.dataOut = none → x.dataOutOffset = 0) :
    d.dataOutDma x =
      .ok (((({ d with
        xferp := some { x with
          dataOut := some (x.dataOut.getD [] ++ (d.dmaOut x).piece x.dataOutOffset)
          dataOutOffset := x.dataOutOffset + ((d.dmaOut x).piece x.dataOutOffset).length }
        outs := d.outs ++ [d.dmaOut x] } : AscData σ).countRo 0#32).orRo ncrStat ncrstatTc), (d.dmaOut x).done) := by
  have hoffset : (if x.dataOut.isNone = true then 0 else x.dataOutOffset) = x.dataOutOffset := by
    cases hout : x.dataOut with
    | none => exact (hnone hout).symm
    | some l => rfl
  have hbound : ¬ (((min d.count (x.dataOutLen - x.dataOutOffset) : Nat) : Int) < 0 ∨
      (ascDmaSize : Int) < d.dmaAddr + ((min d.count (x.dataOutLen - x.dataOutOffset) : Nat) : Int)) := by
    have hfit := hfits.2.2.2
    omega
  have hpiece : (d.dmaOut x).piece x.dataOutOffset =
      (List.range (min d.count (x.dataOutLen - x.dataOutOffset))).map fun i => d.dma (d.dmaAddr + i) := by
    rfl
  unfold dataOutDma
  dsimp only
  rw [if_neg hfits.1, len2_eq hfits rfl, if_neg hbound, Int.toNat_natCast, ← hpiece, hoffset, dmaOut_piece_length]
  rfl

theorem dataOutDma_ends {x : Xfer} (hx : d.xferp = some x) (h : Inv d) (hphase : d.curPhase = .dataOut)
    (hfits : d.FitsOut x) :
    Ends (fun r => Inv r.1 ∧ r.1.curPhase = .dataOut ∧ r.1.selid = d.selid ∧ ∃ y, r.1.xferp = some y)
      (d.dataOutDma x) := by
  obtain ⟨hdata, hoff⟩ := h.dataOut x hx
  have hnone : x.dataOut = none → x.dataOutOffset = 0 := by
    intro hout
    rw [hout] at hdata
    rw [hoff, ← hdata]
    rfl
  rw [dataOutDma_eq hfits hnone]
  refine .ok ⟨inv_of_right ⟨h.fifo, h.ins, fun k s hs => ?_, fun y hy => ?_⟩ ?_, hphase, rfl, _, rfl⟩
  · obtain ⟨hold, htake⟩ | ⟨rfl, htake⟩ := getElem?_append_singleton hs
    · show s.Takes (assembled ((d.outs ++ [d.dmaOut x]).take k)).length
      rw [htake]
      exact h.outs k s hold
    · show (d.dmaOut x).Takes (assembled ((d.outs ++ [d.dmaOut x]).take k)).length
      rw [htake, ← hoff]
      refine ⟨?_, ?_⟩
      · rw [dmaOut_piece_length]
        exact hfits.2.2.2
      · rw [dmaOut_piece_length]
        exact decide_eq_true_iff
  · cases hy
    show x.dataOut.getD [] ++ _ = assembled (d.outs ++ [d.dmaOut x]) ∧
      x.dataOutOffset + _ = (assembled (d.outs ++ [d.dmaOut x])).length
    rw [assembled_append, List.length_append, hdata, ← hoff]
    exact ⟨rfl, rfl⟩
  · show d.curPhase ≠ .dataIn
    rw [hphase]
    decide

theorem msgOut_ends {x : Xfer} (hx : d.xferp = some x) (h : Inv d) (hphase : d.curPhase = .msgOut)
    (hfits : x.msgOut ≠ some [] ∨ d.fifo.nBytesInFifo ≠ 0) :
    Ends (fun d' => Inv d' ∧ d'.curPhase = .msgOut) (d.msgOut x) := by
  obtain ⟨hok, hle, -⟩ := @Fifo.drain_ok ascFifoLen d.fifo h.fifo
  have hlen : ¬ (((x.msgOut.getD []).length : Int) + d.fifo.nBytesInFifo < 0 ∨
      (((x.msgOut.getD []).length : Int) + d.fifo.nBytesInFifo = 0 ∧ x.msgOut.isSome = true)) := by
    rintro (hneg | ⟨hzero, hsome⟩)
    · omega
    · obtain ⟨l, hl⟩ := Option.isSome_iff_exists.mp hsome
      rw [hl] at hzero hfits
      have hempty : l = [] := List.eq_nil_of_length_eq_zero (by show (l.length : Nat) = 0; simp at hzero; omega)
      obtain hne | hne := hfits
      · exact hne (congrArg some hempty)
      · omega
  unfold msgOut
  rw [if_neg hlen, if_neg (not_lt.mpr hle)]
  refine .ok ⟨inv_xferp hx h ?_ hok rfl rfl, hphase⟩
  rw [hphase]
  decide

/-! ## Transfers -/

structure Transferred (t : Target σ) (r : AscData σ × ScsiResult × Bool) : Prop where
  right : Right r.1
  pending : r.2.2 = false → Inv r.1
  asked : r.1.curPhase = .dataOut → ∃ x, r.1.xferp = some x ∧
    (t.diskimageScsicommand r.1.target r.1.selid x).isSome = true

theorem transferred_of_inv {r : AscData σ × ScsiResult × Bool} (h : Inv r.1) (hphase : r.1.curPhase ≠ .dataOut) :
    Transferred t r := ⟨h.toRight, fun _ => h, fun heq => absurd heq hphase⟩

theorem accepts_some {x : Xfer} (hx : d.xferp = some x) (haccepts : Accepts t (.ok d)) :
    (t.diskimageScsicommand d.target d.selid x).isSome = true := by
  simpa only [Accepts, hx, Option.all_some] using haccepts

theorem transferPhase_ends (h : Inv d) (hfits : d.TransferFits t dmaflag) (hcommand : d.curPhase ≠ .command) :
    Ends (Transferred t) (d.transferPhase dmaflag) := by
  cases hphase : d.curPhase with
  | command => exact absurd hphase hcommand
  | status =>
    simp only [transferPhase, hphase]
    exact .ok (transferred_of_inv h (by rw [hphase]; decide))
  | msgIn =>
    simp only [TransferFits, hphase] at hfits
    simp only [transferPhase, hphase]
    exact .ok (transferred_of_inv (inv_phase (inv_fifo h (Fifo.write_ok h.fifo 0x07#8 hfits)) (by decide))
      (by show Phase.command ≠ .dataOut; decide))
  | dataIn =>
    cases hx : d.xferp with
    | none =>
      simp only [TransferFits, hphase, hx] at hfits
    | some x =>
      cases hdata : x.dataIn with
      | none =>
        simp only [transferPhase, hphase, hx, hdata]
        exact .ok (transferred_of_inv h (by rw [hphase]; decide))
      | some data =>
        simp only [TransferFits, hphase, hx, hdata] at hfits
        obtain ⟨rfl, hfits⟩ := hfits
        simp only [transferPhase, hphase, hx, hdata, Bool.not_true, Bool.false_eq_true, if_false]
        refine (dataInDma_ends hx hdata h hphase hfits).map fun r _ ⟨hright, hin, hpending⟩ => ?_
        exact ⟨hright, hpending, fun hout => absurd (hin.symm.trans hout) (by decide)⟩
  | dataOut =>
    cases hx : d.xferp with
    | none => simp only [TransferFits, hphase, hx] at hfits
    | some x =>
      cases dmaflag with
      | false =>
        simp only [TransferFits, hphase, hx, Bool.false_eq_true, if_false] at hfits
        simp only [transferPhase, hphase, hx, Bool.not_false, if_true]
        exact .ok ⟨h.toRight, fun _ => h, fun _ => ⟨x, hx, accepts_some hx hfits⟩⟩
      | true =>
        simp only [TransferFits, hphase, hx, if_true] at hfits
        simp only [transferPhase, hphase, hx, Bool.not_true, Bool.false_eq_true, if_false]
        refine (dataOutDma_ends hx h hphase hfits.1).map fun r hr ⟨hinv, _, _, y, hy⟩ => ?_
        have haccepts : Accepts t (.ok r.1) := by
          have htaken := hfits.2
          rw [hr] at htaken
          exact htaken
        exact ⟨hinv.toRight, fun _ => hinv, fun _ => ⟨y, hy, accepts_some hy haccepts⟩⟩
  | msgOut =>
    cases hx : d.xferp with
    | none =>
      simp only [TransferFits, hphase, hx] at hfits
      simp only [transferPhase, hphase, hx, hfits, Bool.not_true, Bool.false_eq_true, if_false]
      exact .ok (transferred_of_inv h (by rw [hphase]; decide))
    | some x =>
      cases dmaflag with
      | true =>
        simp only [transferPhase, hphase, hx, Bool.not_true, Bool.false_eq_true, if_false]
        exact .ok (transferred_of_inv h (by rw [hphase]; decide))
      | false =>
        simp only [TransferFits, hphase, hx, Bool.false_eq_true, false_or] at hfits
        simp only [transferPhase, hphase, hx, Bool.not_false, if_true]
        refine (msgOut_ends hx h hphase hfits).map fun d' _ ⟨hinv, hout⟩ => ?_
        exact transferred_of_inv hinv (by rw [hout]; decide)

theorem transferDone_inv {allDone : Bool} (hright : Right d) (hpending : allDone = false → Inv d) :
    Inv (d.transferDone allDone) := by
  refine inv_stepRo (inv_phaseRo (inv_orRo (inv_orRo ?_)))
  cases allDone with
  | false => exact hpending rfl
  | true =>
    refine inv_of_right ⟨hright.fifo, hright.ins, hright.outs, hright.dataOut⟩ ?_
    show (if d.curPhase = .msgOut then Phase.command else .status) ≠ .dataIn
    split <;> decide

theorem transfer_ends (h : Inv d) (hfits : d.TransferFits t dmaflag) :
    Ends (fun r => Inv r.1) (d.transfer t dmaflag) := by
  by_cases hcommand : d.curPhase = .command
  · rw [transfer, if_pos hcommand]
    cases hx : d.xferp with
    | none => simp only [TransferFits, hcommand, hx] at hfits
    | some x =>
      simp only [TransferFits, hcommand, hx] at hfits
      have hfifo : (0 : Int) ≤ d.fifo.nBytesInFifo := by
        rw [h.fifo.count]
        exact Int.natCast_nonneg _
      refine select_ends hx h (by rw [hcommand]; decide) hfifo fun d' hd' => Or.inr ?_
      obtain rfl : d = d' := by
        rw [selectMessage, if_pos rfl] at hd'
        exact congrArg Prod.fst (Except.ok.inj hd')
      exact hfits
  · rw [transfer, if_neg hcommand]
    refine (transferPhase_ends h hfits hcommand).bind fun r _ hr => ?_
    obtain ⟨d', res, allDone⟩ := r
    by_cases hout : d'.curPhase = .dataOut
    · obtain ⟨x, hx, hok⟩ := hr.asked hout
      have hphase : d'.curPhase ≠ .dataIn := by
        rw [hout]
        decide
      simp only [if_pos hout]
      refine (scsicommand_ends hx (inv_of_right hr.right hphase) hphase hok).bind fun r _ ⟨hinv, _⟩ => ?_
      exact .ok (transferDone_inv hinv.toRight fun _ => hinv)
    · simp only [if_neg hout]
      exact .ok (transferDone_inv hr.right hr.pending)

/-! ## Accesses -/

theorem selectAccess_ends {phase : Phase} {n : Nat} (h : Inv d) (hphase : phase ≠ .dataIn)
    (hfits : d.SelectFits t phase dmaflag n) : Ends Inv (d.selectAccess t phase dmaflag n) := by
  unfold selectAccess
  dsimp only
  split
  · rename_i hexist
    obtain ⟨hn, hcommand⟩ := hfits hexist
    have hnew : Inv ({ d with curPhase := phase } : AscData σ).newxfer := newxfer_inv h.fifo
    have hselects : Ends (fun r => Inv r.1)
        (({ d with curPhase := phase } : AscData σ).newxfer.select t d.selid dmaflag n) := by
      refine select_ends rfl hnew hphase hn fun d' hd' => ?_
      rw [hd'] at hcommand
      exact hcommand
    exact hselects.map fun r _ hr => disconnect_unless_inv hr
  · exact .ok (inv_fifo (inv_stepRo (inv_orRo (inv_orRo (inv_phase h hphase)))) Fifo.flush_ok)

theorem transferAccess_ends (h : Inv d) (hfits : d.TransferFits t dmaflag) : Ends Inv (d.transferAccess t dmaflag) :=
  (transfer_ends h hfits).map fun _ _ hr => disconnect_unless_inv hr

theorem reset_inv (h : Inv d) : Inv d.reset := inv_regWo (inv_ro (inv_none (inv_fifo h (@Fifo.flush_ok d.fifo))))

theorem otherCommand_inv {c : Command} (h : Inv d)
    (hroom : c = .iccs → d.fifo.nBytesInFifo + 2 ≤ ascFifoLen) : Inv (d.otherCommand c) := by
  cases c with
  | flush => exact inv_fifo h Fifo.flush_ok
  | rstchip => exact reset_inv h
  | rstscsi =>
    refine inv_orRo (inv_orRo ?_)
    split
    · exact inv_orRo h
    · exact h
  | iccs =>
    have hroom := hroom rfl
    refine inv_stepRo (inv_phaseRo (inv_orRo (inv_orRo (inv_fifo h ?_))))
    refine Fifo.write_ok (Fifo.write_ok h.fifo _ (by omega)) _ ?_
    show d.fifo.nBytesInFifo + 1 < ascFifoLen
    omega
  | msgok => exact inv_none (inv_stepRo (inv_phaseRo (inv_orRo (inv_orRo h))))
  | _ => exact h

theorem commandStart_inv {idata : BitVec 64} (h : Inv d) : Inv (d.commandStart idata) := by
  unfold commandStart
  split
  · exact inv_setRo (inv_setRo (inv_setRo (inv_setRo (inv_setRo h))))
  · exact inv_setRo h

theorem commandWrite_ends {idata : BitVec 64} (h : Inv d) (hfits : (d.commandStart idata).CommandFits t idata) :
    Ends Inv (d.commandWrite t idata) := by
  have hstart : Inv (d.commandStart idata) := commandStart_inv h
  unfold commandWrite
  unfold CommandFits at hfits
  cases hdecode : Command.decode idata with
  | none => simp only [hdecode] at hfits
  | some c =>
    cases c with
    | selnatn =>
      simp only [hdecode] at hfits ⊢
      exact selectAccess_ends hstart (by decide) hfits
    | selatn =>
      simp only [hdecode] at hfits ⊢
      exact selectAccess_ends hstart (by decide) hfits
    | selatns =>
      simp only [hdecode] at hfits ⊢
      exact selectAccess_ends hstart (by decide) hfits
    | selatn3 =>
      simp only [hdecode] at hfits ⊢
      exact selectAccess_ends hstart (by decide) hfits
    | trpad =>
      simp only [hdecode] at hfits ⊢
      exact transferAccess_ends (newxfer_inv hstart.fifo) hfits
    | trans =>
      simp only [hdecode] at hfits ⊢
      exact transferAccess_ends hstart hfits
    | iccs =>
      simp only [hdecode] at hfits ⊢
      exact .ok (otherCommand_inv hstart fun _ => hfits)
    | _ =>
      exact .ok (otherCommand_inv hstart fun heq => nomatch heq)

theorem refresh_inv (h : Inv d) : Inv d.refresh := inv_dmaAddressReg (inv_setRo (inv_setRo h))

theorem refresh_fifo : d.refresh.fifo = d.fifo := by
  simp only [refresh, setRo]

theorem written_inv {relativeAddr : Nat} {idata : BitVec 64} (h : Inv d)
    (hroom : d.regnr relativeAddr = ncrFifo → d.fifo.nBytesInFifo < ascFifoLen) :
    Inv (d.written relativeAddr idata) := by
  have hrefresh : Inv d.refresh := refresh_inv h
  have hfifo : d.refresh.fifo = d.fifo := refresh_fifo
  unfold written
  generalize d.refresh = d' at hrefresh hfifo
  refine inv_ro ?_
  split
  · split
    · rename_i hreg
      refine inv_fifo hrefresh (Fifo.write_ok hrefresh.fifo _ ?_)
      rw [hfifo]
      exact hroom hreg
    · exact inv_regWo hrefresh
  · exact hrefresh

theorem tick_inv (h : Inv d) : Inv d.tick := inv_irqAsserted h

theorem interruptRead_inv (h : Inv d) : Inv d.interruptRead := by
  refine inv_irqAsserted ?_
  split
  · exact inv_setRo (inv_setRo (inv_setRo h))
  · exact h

theorem read_inv {relativeAddr : Nat} (h : Inv d) (hsome : d.regnr relativeAddr = ncrFifo → 0 < d.fifo.nBytesInFifo) :
    Inv (d.read relativeAddr).1 := by
  have hrefresh : Inv d.refresh := refresh_inv h
  have hfifo : d.refresh.fifo = d.fifo := refresh_fifo
  unfold read
  generalize d.refresh = d' at hrefresh hfifo
  have hread : Inv (if d.regnr relativeAddr = ncrFifo then { d' with fifo := d'.fifo.read.2 } else d').copyRegisters := by
    refine inv_ro ?_
    split
    · rename_i hreg
      refine inv_fifo hrefresh (Fifo.read_ok hrefresh.fifo ?_).2
      rw [hfifo]
      exact hsome hreg
    · exact hrefresh
  refine tick_inv ?_
  split
  · exact interruptRead_inv hread
  · exact hread

theorem step_ends {op : AscOp} (h : Inv d) (hcareful : d.Careful t op) : Ends Inv (d.step t op) := by
  cases op with
  | write relativeAddr idata =>
    obtain ⟨hroom, hcommand⟩ := hcareful
    have hwritten : Inv (d.written relativeAddr idata) := written_inv h hroom
    show Ends Inv ((if d.regnr relativeAddr = ncrCmd then (d.written relativeAddr idata).commandWrite t idata
      else .ok (d.written relativeAddr idata)).map tick)
    split
    · rename_i hcmd
      exact (commandWrite_ends hwritten (hcommand hcmd)).map fun _ _ hinv => tick_inv hinv
    · exact .ok (tick_inv hwritten)
  | read relativeAddr => exact .ok (read_inv h hcareful)
  | addressWrite relativeAddr data =>
    show Ends Inv (if 4 < relativeAddr + data.length then .ok d else .ok _)
    split
    · exact .ok h
    · exact .ok (inv_addressMemory h)
  | dmaWrite relativeAddr data =>
    show Ends Inv (if ascDmaSize < relativeAddr + data.length then .ok d else .ok _)
    split
    · exact .ok h
    · exact .ok (inv_dma h)
  | tick => exact .ok (tick_inv h)

end AscData

/-! ## Runs -/

section
variable {σ : Type*} (t : Target σ) (modeDec : Bool) (target : σ) (junk : Nat → Byte)

def start : AscData σ := { modeDec, target, junk }

theorem start_inv : Inv (start modeDec target junk) := by
  refine ⟨⟨⟨rfl, Nat.zero_le _, (by decide : 0 < ascFifoLen), rfl, fun i hi => ?_⟩, fun k s hs => ?_, fun k s hs => ?_,
    fun x hx => ?_⟩, fun hphase => ?_⟩
  · exact absurd hi (Nat.not_lt_zero i)
  · cases hs
  · cases hs
  · cases hx
  · cases hphase

/-- As long as the guest is careful, the controller moves the transfer's bytes, and goes on. -/
theorem always_right {ops : List AscOp}
    (hcareful : Lib.Along (AscData.step t) (fun d op => d.Careful t op) ops (start modeDec target junk)) :
    Lib.Always (AscData.step t) Right ops (start modeDec target junk) := by
  have hstep : ∀ (d : AscData σ) (op : AscOp), True → Inv d → d.Careful t op →
      ∃ d', d.step t op = .ok d' ∧ Inv d' := fun _ _ _ h hop => AscData.step_ends h hop
  have hinv := Lib.always_of_along (fun _ => True) hstep (fun _ _ => trivial) (start_inv modeDec target junk) hcareful
  exact hinv.mono fun _ h => h.toRight

end

/-! ## A disk behind the controller -/

def diskTarget : Target Disk.ScsiDisk where
  diskimageExist id := id == 0#32
  diskimageScsicommand disk _ x :=
    let xferp : Disk.ScsiTransfer := ⟨x.cmd.getD [], x.dataOut, x.dataOutLen, x.dataOutOffset, x.dataIn, x.msgIn, x.status⟩
    match disk.scsicommand (fun _ => 0x00#8) xferp with
    | .ok (disk, y, res) => some (disk, ⟨res, some y.dataOutLen, y.dataIn, y.msgIn, y.status⟩)
    | .error _ => none

def selectRead : List AscOp :=
  [0x80#64, 0x08#64, 0#64, 0#64, 0#64, 1#64, 0#64].map (AscOp.write ncrFifo) ++ [.write ncrCmd 0x42#64]

/-- A block is read in two pieces, and the status and the message are read. -/
def readBlock : List AscOp :=
  selectRead ++ [.write ncrTcm 1#64, .write ncrCmd 0x90#64, .write ncrCmd 0x90#64, .write ncrCmd 0x11#64, .read ncrFifo,
    .read ncrFifo, .write ncrCmd 0x12#64]

def startDisk : AscData Disk.ScsiDisk := start false (Disk.Session.oneBlockDisk true) fun _ => 0#8

theorem always_right_readBlock : Lib.Always (AscData.step diskTarget) Right readBlock startDisk :=
  always_right diskTarget false (Disk.Session.oneBlockDisk true) (fun _ => 0#8) (by decide +kernel)

/-- A transfer when nothing has been selected uses the transfer that is absent. A data-in command that asks for more
than there is from its address on to the end of the DMA memory clears what is behind it. -/
theorem not_always_right :
    AscData.step diskTarget startDisk (.write ncrCmd 0x90#64) = .error .absentTransfer ∧
    ¬ Lib.Always (AscData.step diskTarget) Right [.write ncrCmd 0x90#64] startDisk ∧
    ¬ Lib.Always (AscData.step diskTarget) Right
      (selectRead ++ [.addressWrite 0 [0x00#8, 0xff#8, 0x01#8, 0x00#8], .write ncrTcm 2#64, .write ncrCmd 0x90#64])
      startDisk := by
  have habsent : AscData.step diskTarget startDisk (.write ncrCmd 0x90#64) = .error .absentTransfer := by rfl
  refine ⟨habsent, ?_, ?_⟩
  · rintro ⟨-, s', hs, -⟩
    rw [habsent] at hs
    cases hs
  · intro halways
    obtain ⟨s', hrun, -⟩ := halways.last
    have hfault : (Lib.runOps (AscData.step diskTarget) (selectRead ++ [.addressWrite 0 [0x00#8, 0xff#8, 0x01#8, 0x00#8],
        .write ncrTcm 2#64, .write ncrCmd 0x90#64]) startDisk).toOption.isSome = false := by
      decide +kernel
    rw [hrun] at hfault
    cases hfault

end Gxemul.Asc
