import Gxemul.Disk.Asc
import Gxemul.Lib.Segments

/- What the NCR53C9x controller moves.

   `Right` says what should hold at any time: the count of bytes in the FIFO is that
   of the bytes that have not been read, and what has been moved between the DMA
   memory and the target are consecutive pieces. `Careful` says what the guest may
   do. The FIFO does what it should as long as it has room for what is written and
   what is read is there. -/
namespace Gxemul.Asc

open Lib (Byte Scatter)
open Disk (ScsiResult)

/-! ## What should hold -/

/-- The ring has the bytes that have not been read, and knows how many there are. -/
structure FifoOk (q : Fifo) : Prop where
  count : q.nBytesInFifo = q.unread.length
  room : q.unread.length ≤ ascFifoLen
  out_lt : q.fifoOut < ascFifoLen
  in_eq : q.fifoIn = (q.fifoOut + q.unread.length) % ascFifoLen
  values : ∀ i < q.unread.length, q.unread[i]? = some (q.fifo ((q.fifoOut + i) % ascFifoLen))

/-- The next piece of what is left has been put into the DMA memory, and nothing else. -/
structure DmaIn.Delivers (s : DmaIn) (left : List Byte) : Prop where
  bounds : s.addr + (left.take s.count).length ≤ ascDmaSize
  post : s.post = AscData.put s.pre s.addr (left.take s.count)
  done : s.done = true ↔ left.length ≤ s.count

/-- The piece that a data-out command takes after `off` bytes. -/
def DmaOut.piece (s : DmaOut) (off : Nat) : List Byte :=
  (List.range (min s.count (s.total - off))).map fun i => s.dma (s.addr + i)

structure DmaOut.Takes (s : DmaOut) (off : Nat) : Prop where
  bounds : s.addr + (s.piece off).length ≤ ascDmaSize
  done : s.done = true ↔ s.total ≤ off + (s.piece off).length

def assembled (l : List DmaOut) : List Byte := l.foldl (fun data s => data ++ s.piece data.length) []

structure Right {σ : Type*} (d : AscData σ) : Prop where
  fifo : FifoOk d.fifo
  ins : ∀ k (s : DmaIn), d.ins[k]? = some s → s.Delivers (d.given.drop (Scatter.room DmaIn.count (d.ins.take k)))
  outs : ∀ k (s : DmaOut), d.outs[k]? = some s → s.Takes (assembled (d.outs.take k)).length
  dataOut : ∀ x, d.xferp = some x → x.dataOut.getD [] = assembled d.outs ∧ x.dataOutOffset = (assembled d.outs).length

/-! ## What the guest may do -/

namespace AscData
variable {σ : Type*} (t : Target σ) (d : AscData σ)

/-- What a data-in command asks for is in the DMA memory, and there is as much, or the rest of the memory is clear. -/
def FitsIn (data : List Byte) : Prop :=
  d.dmaAddr + d.count ≤ ascDmaSize ∧ ∀ i < d.count - data.length, d.dma (d.dmaAddr + data.length + i) = 0#8

/-- What a data-out command takes is in the DMA memory, and the target wants something. -/
def FitsOut (x : Xfer) : Prop :=
  x.dataOutLen ≠ 0 ∧ x.dataOutOffset ≤ x.dataOutLen ∧
    (0 ≤ d.countReg.toInt ∨ (x.dataOutOffset : Int) + d.countReg.toInt < 0) ∧
    d.dmaAddr + min d.count (x.dataOutLen - x.dataOutOffset) ≤ ascDmaSize

/-- The target does not terminate the emulator when it is given a transfer. -/
def Accepts (given : Except Fault (AscData σ)) : Prop :=
  match given with
  | .ok d => d.xferp.all (fun x => (t.diskimageScsicommand d.target d.selid x).isSome) = true
  | .error _ => True

def SelectsCommand (dmaflag : Bool) : Prop :=
  (dmaflag = true → 0 ≤ d.countReg.toInt) ∧ Accepts t (d.selectCommand dmaflag)

def TransferFits (dmaflag : Bool) : Prop :=
  match d.curPhase, d.xferp with
  | .dataIn, some x =>
    match x.dataIn with
    | none => True
    | some data => dmaflag = true ∧ d.FitsIn data
  | .dataOut, some x =>
    if dmaflag = true then d.FitsOut x ∧ Accepts t ((d.dataOutDma x).map Prod.fst) else Accepts t (.ok d)
  | .command, some _ => d.SelectsCommand t dmaflag
  | .msgOut, some x => dmaflag = true ∨ x.msgOut ≠ some [] ∨ d.fifo.nBytesInFifo ≠ 0
  | .msgOut, none => dmaflag = true
  | .msgIn, _ => d.fifo.nBytesInFifo < ascFifoLen
  | .status, _ => True
  | _, none => False

/-- The command that follows the message, if there is one, is accepted. -/
def MessageFits (phase : Phase) (dmaflag : Bool) (message : Except Fault (AscData σ × Bool)) : Prop :=
  match message with
  | .ok (d, true) => phase = .msgOut ∨ d.SelectsCommand t dmaflag
  | _ => True

def SelectFits (phase : Phase) (dmaflag : Bool) (nMessagebytes : Nat) : Prop :=
  t.diskimageExist d.selid = true →
    nMessagebytes ≤ d.fifo.nBytesInFifo ∧
    MessageFits t phase dmaflag
      (({ d with curPhase := phase } : AscData σ).newxfer.selectMessage nMessagebytes)

def CommandFits (idata : BitVec 64) : Prop :=
  let dmaflag := idata &&& 0x80#64 != 0#64
  match Command.decode idata with
  | none => False
  | some .selnatn => d.SelectFits t .command dmaflag 0
  | some .selatn => d.SelectFits t .command dmaflag 1
  | some .selatns => d.SelectFits t .msgOut dmaflag 1
  | some .selatn3 => d.SelectFits t .command dmaflag 3
  | some .trpad => d.newxfer.TransferFits t dmaflag
  | some .trans => d.TransferFits t dmaflag
  | some .iccs => d.fifo.nBytesInFifo + 2 ≤ ascFifoLen
  | some _ => True

/-- The FIFO has room for what is written and has what is read, and commands find what they need. -/
def Careful : AscOp → Prop
  | .write relativeAddr idata =>
    (d.regnr relativeAddr = ncrFifo → d.fifo.nBytesInFifo < ascFifoLen) ∧
    (d.regnr relativeAddr = ncrCmd → ((d.written relativeAddr idata).commandStart idata).CommandFits t idata)
  | .read relativeAddr => d.regnr relativeAddr = ncrFifo → 0 < d.fifo.nBytesInFifo
  | _ => True

instance (data : List Byte) : Decidable (d.FitsIn data) := inferInstanceAs (Decidable (_ ∧ _))

instance (x : Xfer) : Decidable (d.FitsOut x) := inferInstanceAs (Decidable (_ ∧ _))

instance : ∀ given : Except Fault (AscData σ), Decidable (Accepts t given)
  | .ok _ => inferInstanceAs (Decidable (_ = true))
  | .error _ => isTrue trivial

instance (dmaflag : Bool) : Decidable (d.SelectsCommand t dmaflag) := inferInstanceAs (Decidable (_ ∧ _))

instance (dmaflag : Bool) : Decidable (d.TransferFits t dmaflag) := by
  unfold TransferFits
  repeat' split
  all_goals infer_instance

instance (phase : Phase) (dmaflag : Bool) :
    ∀ message : Except Fault (AscData σ × Bool), Decidable (MessageFits t phase dmaflag message)
  | .ok (_, true) => inferInstanceAs (Decidable (_ ∨ _))
  | .ok (_, false) | .error _ => isTrue trivial

instance (phase : Phase) (dmaflag : Bool) (n : Nat) : Decidable (d.SelectFits t phase dmaflag n) :=
  inferInstanceAs (Decidable (_ → _))

instance (idata : BitVec 64) : Decidable (d.CommandFits t idata) := by
  unfold CommandFits
  dsimp only
  split <;> infer_instance

instance : ∀ op : AscOp, Decidable (d.Careful t op)
  | .write .. => inferInstanceAs (Decidable ((_ → _) ∧ (_ → _)))
  | .read _ => inferInstanceAs (Decidable (_ → _))
  | .addressWrite .. | .dmaWrite .. | .tick => isTrue trivial

end AscData

/-! ## The FIFO -/

namespace Fifo
variable {q : Fifo}

theorem flush_ok : FifoOk q.flush :=
  ⟨rfl, Nat.zero_le _, (by decide : 0 < ascFifoLen), rfl, fun i hi => absurd hi (Nat.not_lt_zero i)⟩

theorem write_ok (h : FifoOk q) (b : Byte) (hroom : q.nBytesInFifo < ascFifoLen) : FifoOk (q.write b) := by
  have hlen : q.unread.length < 16 := by
    have hcount := h.count
    unfold ascFifoLen at hroom
    omega
  have hin : q.fifoIn = (q.fifoOut + q.unread.length) % 16 := h.in_eq
  refine ⟨?_, ?_, h.out_lt, ?_, fun i hi => ?_⟩
  · show q.nBytesInFifo + 1 = ((q.unread ++ [b]).length : Int)
    rw [h.count, List.length_append]
    rfl
  · show (q.unread ++ [b]).length ≤ 16
    rw [List.length_append, List.length_singleton]
    omega
  · show (q.fifoIn + 1) % 16 = (q.fifoOut + (q.unread ++ [b]).length) % 16
    rw [List.length_append, List.length_singleton]
    omega
  · show (q.unread ++ [b])[i]? = some (Function.update q.fifo q.fifoIn b ((q.fifoOut + i) % 16))
    have hi : i < (q.unread ++ [b]).length := hi
    rw [List.length_append, List.length_singleton] at hi
    by_cases hlast : i = q.unread.length
    · rw [hlast, List.getElem?_concat_length, ← hin, Function.update_self]
    · have hne : (q.fifoOut + i) % 16 ≠ q.fifoIn := by omega
      rw [Function.update_of_ne hne, List.getElem?_append_left (by omega)]
      exact h.values i (by omega)

theorem read_ok (h : FifoOk q) (hsome : 0 < q.nBytesInFifo) : q.unread.head? = some q.read.1 ∧ FifoOk q.read.2 := by
  have hcount := h.count
  have hlen : 0 < q.unread.length := by omega
  have hroom : q.unread.length ≤ 16 := h.room
  have hin : q.fifoIn = (q.fifoOut + q.unread.length) % 16 := h.in_eq
  refine ⟨?_, ?_, ?_, ?_, ?_, fun i hi => ?_⟩
  · have hfirst := h.values 0 hlen
    rw [Nat.add_zero, Nat.mod_eq_of_lt h.out_lt] at hfirst
    rw [List.head?_eq_getElem?]
    exact hfirst
  · show q.nBytesInFifo - 1 = (q.unread.tail.length : Int)
    rw [List.length_tail]
    omega
  · show q.unread.tail.length ≤ 16
    rw [List.length_tail]
    omega
  · exact Nat.mod_lt _ (by decide)
  · show q.fifoIn = ((q.fifoOut + 1) % 16 + q.unread.tail.length) % 16
    rw [List.length_tail]
    omega
  · show q.unread.tail[i]? = some (q.fifo (((q.fifoOut + 1) % 16 + i) % 16))
    have hi : i < q.unread.tail.length := hi
    rw [List.length_tail] at hi
    have hpos : ((q.fifoOut + 1) % 16 + i) % 16 = (q.fifoOut + (i + 1)) % 16 := by omega
    rw [List.getElem?_tail, hpos]
    exact h.values (i + 1) (by omega)

theorem readBytes_ok : ∀ {n : Nat} {q : Fifo}, FifoOk q → (n : Int) ≤ q.nBytesInFifo →
    FifoOk (readBytes n q).2 ∧ (readBytes n q).2.nBytesInFifo = q.nBytesInFifo - n
  | 0, q, h, _ => ⟨h, (Int.sub_zero _).symm⟩
  | n + 1, q, h, hn => by
    have hread := (read_ok h (by omega)).2
    have hrest : q.read.2.nBytesInFifo = q.nBytesInFifo - 1 := rfl
    obtain ⟨hok, hcount⟩ := @readBytes_ok n q.read.2 hread (by omega)
    refine ⟨hok, ?_⟩
    show (readBytes n q.read.2).2.nBytesInFifo = _
    omega

theorem drain_ok : ∀ {n : Nat} {q : Fifo}, FifoOk q →
    FifoOk (drain n q).2 ∧ ((drain n q).1.length : Int) ≤ q.nBytesInFifo ∧
      (drain n q).2.nBytesInFifo = q.nBytesInFifo - (drain n q).1.length
  | 0, q, h => by
    refine ⟨h, ?_, (Int.sub_zero _).symm⟩
    show (0 : Int) ≤ q.nBytesInFifo
    rw [h.count]
    exact Int.natCast_nonneg _
  | n + 1, q, h => by
    unfold drain
    split
    · refine ⟨h, ?_, (Int.sub_zero _).symm⟩
      show (0 : Int) ≤ q.nBytesInFifo
      rw [h.count]
      exact Int.natCast_nonneg _
    · rename_i hne
      have hsome : 0 < q.nBytesInFifo := by
        have hcount := h.count
        have hin : q.fifoIn = (q.fifoOut + q.unread.length) % 16 := h.in_eq
        have hout : q.fifoOut < 16 := h.out_lt
        by_contra hzero
        have hlen : q.unread.length = 0 := by omega
        rw [hlen] at hin
        omega
      have hread := (read_ok h hsome).2
      have hrest : q.read.2.nBytesInFifo = q.nBytesInFifo - 1 := rfl
      obtain ⟨hok, hle, hcount⟩ := @drain_ok n q.read.2 hread
      refine ⟨hok, ?_, ?_⟩
      · rw [List.length_cons]
        omega
      · show (drain n q.read.2).2.nBytesInFifo = _ - (((q.read.1 :: (drain n q.read.2).1).length : Nat) : Int)
        rw [List.length_cons]
        omega

end Fifo

end Gxemul.Asc
