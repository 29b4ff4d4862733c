import Gxemul.Disk.ScsiCommand
import Gxemul.Lib.Run

/- The NCR53C9x SCSI controller (`src/devices/dev_asc.c`), with its own DMA memory.

   The guest writes the bytes of commands to a FIFO or to the DMA memory, selects a
   target, and transfers data between the target and the DMA memory. The target is
   a parameter: what it does with a command, and whether it terminates the emulator
   doing it. What the C code would do to memory that is not its own is an exit here.
   `unread`, `given`, `ins` and `outs` record what has happened; no function looks at
   them. The interrupt line, the turbochannel ROM, messages and the states that
   nothing reads are left out. -/
namespace Gxemul.Asc

open Lib (Byte)
open Disk (ScsiResult)

def ascFifoLen : Nat := 16
def ascScsiId : BitVec 32 := 7#32
def ascDmaSize : Nat := 128 * 1024

/-! ## Registers and commands -/

def ncrTcl : Nat := 0
def ncrTcm : Nat := 1
def ncrFifo : Nat := 2
def ncrCmd : Nat := 3
def ncrStat : Nat := 4
def ncrSelid : Nat := 4
def ncrIntr : Nat := 5
def ncrStep : Nat := 6
def ncrSynctp : Nat := 6
def ncrFflag : Nat := 7
def ncrCfg1 : Nat := 8
def ncrCcf : Nat := 9
def ncrCfg3 : Nat := 12
def ncrTch : Nat := 14

def ncrstatInt : BitVec 32 := 0x80#32
def ncrstatTc : BitVec 32 := 0x10#32
def ncrintrSbr : BitVec 32 := 0x80#32
def ncrintrDis : BitVec 32 := 0x20#32
def ncrintrBs : BitVec 32 := 0x10#32
def ncrintrFc : BitVec 32 := 0x08#32
def ncrcfg1Srr : BitVec 32 := 0x40#32
def ncrf9xcfg3Cdb : BitVec 32 := 0x20#32

inductive Command where
  | nop
  | flush
  | rstchip
  | rstscsi
  | selnatn
  | selatn
  | selatns
  | ensel
  | selatn3
  | trans
  | iccs
  | msgok
  | trpad
  | setatn
  | rstatn

/-- The command in what has been written to the command register. Others are not implemented. -/
def Command.decode (idata : BitVec 64) : Option Command :=
  match (idata &&& ~~~0x80#64).toNat with
  | 0x00 => some .nop
  | 0x01 => some .flush
  | 0x02 => some .rstchip
  | 0x03 => some .rstscsi
  | 0x10 => some .trans
  | 0x11 => some .iccs
  | 0x12 => some .msgok
  | 0x18 => some .trpad
  | 0x1a => some .setatn
  | 0x1b => some .rstatn
  | 0x41 => some .selnatn
  | 0x42 => some .selatn
  | 0x43 => some .selatns
  | 0x44 => some .ensel
  | 0x46 => some .selatn3
  | _ => none

inductive Phase where
  | dataOut
  | dataIn
  | command
  | status
  | msgOut
  | msgIn
deriving DecidableEq

def Phase.value : Phase → BitVec 32
  | .dataOut => 0#32
  | .dataIn => 1#32
  | .command => 2#32
  | .status => 3#32
  | .msgOut => 6#32
  | .msgIn => 7#32

inductive Fault where
  /-- xferp is NULL. -/
  | absentTransfer
  /-- An access to the DMA memory is out of bounds. -/
  | dmaBounds
  /-- A store is beyond what has been allocated. -/
  | storeBounds
  /-- incoming_data is NULL. -/
  | noIncoming
  /-- The controller terminates the emulator. -/
  | exit
  /-- The target terminates the emulator. -/
  | target

/-! ## The target -/

/-- `struct scsi_transfer`. A pointer that is NULL is `none`; `dataOut` has the bytes up to `dataOutOffset`. -/
structure Xfer where
  msgOut : Option (List Byte) := none
  cmd : Option (List Byte) := none
  dataOut : Option (List Byte) := none
  dataOutLen : Nat := 0
  dataOutOffset : Nat := 0
  dataIn : Option (List Byte) := none
  msgIn : Option (List Byte) := none
  status : Option (List Byte) := none

/-- What diskimage_scsicommand() sets. Where it allocates nothing, the transfer keeps what it has. -/
structure Response where
  res : ScsiResult
  dataOutLen : Option Nat := none
  dataIn : Option (List Byte) := none
  msgIn : Option (List Byte) := none
  status : Option (List Byte) := none

def Response.apply (r : Response) (x : Xfer) : Xfer :=
  { x with
    dataOutLen := r.dataOutLen.getD x.dataOutLen
    dataIn := r.dataIn.or x.dataIn
    msgIn := r.msgIn.or x.msgIn
    status := r.status.or x.status }

structure Target (σ : Type*) where
  /-- diskimage_exist(). -/
  diskimageExist : BitVec 32 → Bool
  /-- diskimage_scsicommand(), unless it terminates the emulator. -/
  diskimageScsicommand : σ → BitVec 32 → Xfer → Option (σ × Response)

/-! ## The FIFO -/

structure Fifo where
  fifo : Nat → Byte := fun _ => 0#8
  fifoIn : Nat := 0
  fifoOut : Nat := 0
  nBytesInFifo : Int := 0
  /-- The bytes that have been written and not been read. -/
  unread : List Byte := []

namespace Fifo
variable (q : Fifo)

def flush : Fifo :=
  { fifo := Function.update q.fifo 0 0x00#8, fifoIn := 0, fifoOut := 0, nBytesInFifo := 0, unread := [] }

def read : Byte × Fifo :=
  (q.fifo q.fifoOut,
    { q with
      fifoOut := (q.fifoOut + 1) % ascFifoLen
      nBytesInFifo := q.nBytesInFifo - 1
      unread := q.unread.tail })

def write (data : Byte) : Fifo :=
  { q with
    fifo := Function.update q.fifo q.fifoIn data
    fifoIn := (q.fifoIn + 1) % ascFifoLen
    nBytesInFifo := q.nBytesInFifo + 1
    unread := q.unread ++ [data] }

def readBytes : Nat → Fifo → List Byte × Fifo
  | 0, q => ([], q)
  | n + 1, q => (q.read.1 :: (readBytes n q.read.2).1, (readBytes n q.read.2).2)

/-- Bytes until the indices meet, which they do within one round. -/
def drain : Nat → Fifo → List Byte × Fifo
  | 0, q => ([], q)
  | n + 1, q => if q.fifoIn = q.fifoOut then ([], q) else (q.read.1 :: (drain n q.read.2).1, (drain n q.read.2).2)

end Fifo

/-! ## The controller -/

/-- A data-in command: the transfer count, the address in the DMA memory, the memory before and after, and whether the
command is the last one. -/
structure DmaIn where
  count : Nat
  addr : Nat
  pre : Nat → Byte
  post : Nat → Byte
  done : Bool

/-- A data-out command: the transfer count, the address in the DMA memory, the memory, the length of what the target
wants, and whether the command is the last one. -/
structure DmaOut where
  count : Nat
  addr : Nat
  dma : Nat → Byte
  total : Nat
  done : Bool

/-- `struct asc_data`, and what the target is in. -/
structure AscData (σ : Type*) where
  /-- The registers are words apart. -/
  modeDec : Bool
  curPhase : Phase := .dataOut
  xferp : Option Xfer := none
  fifo : Fifo := {}
  dmaAddressReg : BitVec 32 := 0#32
  dmaAddressRegMemory : Nat → Byte := fun _ => 0#8
  dma : Nat → Byte := fun _ => 0#8
  regRo : Nat → BitVec 32 := fun r => if r = ncrCfg3 then ncrf9xcfg3Cdb else 0#32
  regWo : Nat → BitVec 32 := fun _ => 0#32
  irqAsserted : Bool := false
  target : σ
  /-- What is in memory that has just been allocated. -/
  junk : Nat → Byte
  /-- What the target had given when it was selected. -/
  given : List Byte := []
  ins : List DmaIn := []
  outs : List DmaOut := []

namespace AscData
variable {σ : Type*} (t : Target σ) (d : AscData σ)

def setRo (r : Nat) (x : BitVec 32) : AscData σ := { d with regRo := Function.update d.regRo r x }

def orRo (r : Nat) (x : BitVec 32) : AscData σ := d.setRo r (d.regRo r ||| x)

def phaseRo (x : BitVec 32) : AscData σ := d.setRo ncrStat ((d.regRo ncrStat &&& ~~~7#32) ||| x)

def stepRo (x : BitVec 32) : AscData σ := d.setRo ncrStep ((d.regRo ncrStep &&& ~~~7#32) ||| x)

def countRo (x : BitVec 32) : AscData σ := (d.setRo ncrTcl (x &&& 255#32)).setRo ncrTcm ((x >>> 8) &&& 255#32)

def countReg : BitVec 32 := d.regWo ncrTcl + d.regWo ncrTcm * 256#32

def count : Nat := if d.countReg = 0#32 then 65536 else d.countReg.toNat

def dmaAddr : Nat := d.dmaAddressReg.toNat % ascDmaSize

def selid : BitVec 32 := d.regWo ncrSelid &&& 7#32

def reset : AscData σ :=
  let regWo := fun r => if r = ncrTch then 0x94#32 else if r = ncrCcf then 2#32 else 0#32
  { d with
    xferp := none
    fifo := d.fifo.flush
    regRo := regWo
    regWo := Function.update regWo ncrSynctp 5#32 }

def newxfer : AscData σ := { d with xferp := some {}, given := [], ins := [], outs := [] }

/-! ## Selection -/

def scsicommand (id : BitVec 32) : Except Fault (AscData σ × ScsiResult) :=
  match d.xferp with
  | none => .error .absentTransfer
  | some x =>
    match t.diskimageScsicommand d.target id x with
    | none => .error .target
    | some (target, r) => .ok ({ d with target := target, xferp := some (r.apply x) }, r.res)

/-- The message bytes of dev_asc_select(), and whether the selection goes on. -/
def selectMessage (nMessagebytes : Nat) : Except Fault (AscData σ × Bool) :=
  if nMessagebytes = 0 then .ok (d, true)
  else
    match d.xferp with
    | none => .error .absentTransfer
    | some x =>
      let msg := (d.fifo.readBytes nMessagebytes).1
      let first := msg.getD 0 0#8
      .ok ({ d with xferp := some { x with msgOut := some msg }, fifo := (d.fifo.readBytes nMessagebytes).2 },
        (first &&& 0x7#8 == 0#8) && ((first &&& ~~~0x7#8 == 0xc0#8) || (first &&& ~~~0x7#8 == 0x80#8)) &&
          decide (msg.length ≤ 1))

/-- The command bytes of dev_asc_select(). malloc() of a negative length fails. -/
def selectCommand (dmaflag : Bool) : Except Fault (AscData σ) :=
  match d.xferp with
  | none => .error .absentTransfer
  | some x =>
    if !dmaflag then
      if d.fifo.nBytesInFifo < 0 then .error .exit
      else
        let cmd := (d.fifo.drain ascFifoLen).1
        if d.fifo.nBytesInFifo < cmd.length then .error .storeBounds
        else
          let rest := (List.range (d.fifo.nBytesInFifo.toNat - cmd.length)).map d.junk
          .ok { d with xferp := some { x with cmd := some (cmd ++ rest) }, fifo := (d.fifo.drain ascFifoLen).2 }
    else if d.countReg.toInt < 0 then .error .exit
    else
      let cmd := (List.range d.count).map fun i => d.dma ((d.dmaAddressReg.toNat + i) % ascDmaSize)
      let len := BitVec.ofNat 32 d.count
      .ok (({ d with xferp := some { x with cmd := some cmd } }.countRo len).orRo ncrStat ncrstatTc)

/-- The end of dev_asc_select(). -/
def selectDone (res : ScsiResult) : AscData σ :=
  let d := ((d.orRo ncrStat ncrstatInt).orRo ncrIntr ncrintrFc).orRo ncrIntr ncrintrBs
  let dataIn := d.xferp.bind Xfer.dataIn
  let phase := if res = .wantsDataOut then .dataOut else if dataIn.isSome then .dataIn else .status
  ({ d with curPhase := phase, given := dataIn.getD [], ins := [] }.phaseRo phase.value).stepRo 4#32

def select (toId : BitVec 32) (dmaflag : Bool) (nMessagebytes : Nat) : Except Fault (AscData σ × ScsiResult) := do
  let (d, go) ← d.selectMessage nMessagebytes
  if !go then .ok (d, .error)
  else if d.curPhase = .msgOut then
    -- SELATNS: the command comes later.
    let d := ((d.orRo ncrStat ncrstatInt).orRo ncrIntr ncrintrFc).orRo ncrIntr ncrintrBs
    .ok ((d.phaseRo d.curPhase.value).stepRo 1#32, .ok)
  else do
    let d ← d.selectCommand dmaflag
    let (d, res) ← d.scsicommand t toId
    .ok (d.selectDone res, res)

/-! ## Transfers -/

def put (dma : Nat → Byte) (addr : Nat) (data : List Byte) : Nat → Byte :=
  fun a => if addr ≤ a then data.getD (a - addr) (dma a) else dma a

/-- A DMA transfer from the target, and whether it is the last one. -/
def dataInDma (x : Xfer) (data : List Byte) : Except Fault (AscData σ × Bool) :=
  let addr := d.dmaAddr
  let lenIn := if data.length + addr > ascDmaSize then ascDmaSize - addr else data.length
  -- What is asked for is cleared where there is less, even beyond the end of the memory.
  if d.count > lenIn ∧ addr + d.count > ascDmaSize then .error .dmaBounds
  else
    let cleared := if d.count > lenIn then put d.dma addr (List.replicate d.count 0#8) else d.dma
    let lenIn2 := if d.count > lenIn then lenIn else d.count
    let dma := put cleared addr (data.take lenIn2)
    let done := decide (data.length ≤ lenIn2)
    let d : AscData σ := { d with
      dma := dma
      xferp := some { x with dataIn := some (if done then data else data.drop lenIn2) }
      ins := d.ins ++ [⟨d.count, addr, d.dma, dma, done⟩] }
    .ok ((d.countRo 0#32).orRo ncrStat ncrstatTc, done)

/-- A DMA transfer to the target, and whether it is the last one. The length is a signed number. -/
def dataOutDma (x : Xfer) : Except Fault (AscData σ × Bool) :=
  let addr := d.dmaAddr
  if x.dataOutLen = 0 then .error .exit
  else
    let len2 : Int := if d.countReg = 0#32 then 65536 else d.countReg.toInt
    let sum := (x.dataOutOffset : Int) + len2
    -- The comparison is one of unsigned numbers.
    let len2 : Int := if sum < 0 ∨ (x.dataOutLen : Int) < sum then (x.dataOutLen : Int) - x.dataOutOffset else len2
    if len2 < 0 ∨ (ascDmaSize : Int) < addr + len2 then .error .dmaBounds
    else
      let piece := (List.range len2.toNat).map fun i => d.dma (addr + i)
      let offset := (if x.dataOut.isNone then 0 else x.dataOutOffset) + piece.length
      let done := decide (x.dataOutLen ≤ offset)
      let d : AscData σ := { d with
        xferp := some { x with dataOut := some (x.dataOut.getD [] ++ piece), dataOutOffset := offset }
        outs := d.outs ++ [⟨d.count, addr, d.dma, x.dataOutLen, done⟩] }
      .ok ((d.countRo 0#32).orRo ncrStat ncrstatTc, done)

/-- The message bytes that follow the one that dev_asc_select() has read. -/
def msgOut (x : Xfer) : Except Fault (AscData σ) :=
  let old := x.msgOut.getD []
  let newlen : Int := old.length + d.fifo.nBytesInFifo
  let rest := (d.fifo.drain ascFifoLen).1
  if newlen < 0 ∨ (newlen = 0 ∧ x.msgOut.isSome) then .error .exit
  else if d.fifo.nBytesInFifo < rest.length then .error .storeBounds
  else
    let junk := (List.range (d.fifo.nBytesInFifo.toNat - rest.length)).map d.junk
    .ok { d with xferp := some { x with msgOut := some (old ++ rest ++ junk) }, fifo := (d.fifo.drain ascFifoLen).2 }

/-- What dev_asc_transfer() does in a phase: the result, and whether all is done. -/
def transferPhase (dmaflag : Bool) : Except Fault (AscData σ × ScsiResult × Bool) :=
  match d.curPhase, d.xferp with
  | .dataIn, none => .error .absentTransfer
  | .dataIn, some x =>
    match x.dataIn with
    | none => .ok (d, .error, true)
    | some data => if !dmaflag then .error .noIncoming else (d.dataInDma x data).map fun (d, done) => (d, .ok, done)
  | .dataOut, none => if !dmaflag then .ok (d, .ok, true) else .error .absentTransfer
  | .dataOut, some x =>
    if !dmaflag then .ok (d, .ok, true) else (d.dataOutDma x).map fun (d, done) => (d, .ok, done)
  | .msgOut, none => if !dmaflag then .error .absentTransfer else .ok (d, .error, true)
  | .msgOut, some x => if !dmaflag then (d.msgOut x).map fun d => (d, .ok, true) else .ok (d, .error, true)
  | .msgIn, _ => .ok ({ d with fifo := d.fifo.write 0x07#8, curPhase := .command }, .ok, false)
  | _, _ => .ok (d, .ok, true)

/-- The end of dev_asc_transfer(). -/
def transferDone (allDone : Bool) : AscData σ :=
  let phase := if !allDone then d.curPhase else if d.curPhase = .msgOut then .command else .status
  let d := ({ d with curPhase := phase }.orRo ncrStat ncrstatInt).orRo ncrIntr ncrintrBs
  (d.phaseRo phase.value).stepRo 4#32

def transfer (dmaflag : Bool) : Except Fault (AscData σ × ScsiResult) :=
  if d.curPhase = .command then d.select t d.selid dmaflag 0
  else do
    let (d, res, allDone) ← d.transferPhase dmaflag
    -- The command is given again when data has been sent.
    let (d, res) ← if d.curPhase = .dataOut then d.scsicommand t d.selid else .ok (d, res)
    .ok (d.transferDone allDone, res)

def disconnect : AscData σ :=
  { ((d.orRo ncrIntr ncrintrDis).orRo ncrStat ncrstatInt).stepRo 0#32 with xferp := none }

/-! ## Accesses -/

def otherCommand : Command → AscData σ
  | .flush => { d with fifo := d.fifo.flush }
  | .rstchip => d.reset
  | .rstscsi =>
    let d := if d.regWo ncrCfg1 &&& ncrcfg1Srr = 0#32 then d.orRo ncrStat ncrstatInt else d
    (d.orRo ncrIntr ncrintrSbr).orRo ncrIntr ncrintrFc
  | .iccs =>
    let status := (d.xferp.bind Xfer.status).elim 0x00#8 fun l => l.getD 0 0#8
    let msgIn := (d.xferp.bind Xfer.msgIn).elim 0x00#8 fun l => l.getD 0 0#8
    let d := { d with fifo := (d.fifo.write status).write msgIn }
    (((d.orRo ncrStat ncrstatInt).orRo ncrIntr ncrintrFc).phaseRo 7#32).stepRo 4#32
  | .msgok =>
    let d := (((d.orRo ncrStat ncrstatInt).orRo ncrIntr ncrintrDis).phaseRo d.curPhase.value).stepRo 4#32
    { d with xferp := none }
  | _ => d

/-- A selection: the phase that it begins with, and the number of message bytes. -/
def selectAccess (phase : Phase) (dmaflag : Bool) (nMessagebytes : Nat) : Except Fault (AscData σ) :=
  let d := { d with curPhase := phase }
  if t.diskimageExist d.selid then
    (d.newxfer.select t d.selid dmaflag nMessagebytes).map fun (d, res) => if res = .error then d.disconnect else d
  else
    .ok { ((d.orRo ncrStat ncrstatInt).orRo ncrIntr ncrintrDis).stepRo 0#32 with fifo := d.fifo.flush }

def transferAccess (dmaflag : Bool) : Except Fault (AscData σ) :=
  (d.transfer t dmaflag).map fun (d, res) => if res = .error then d.disconnect else d

def commandStart (idata : BitVec 64) : AscData σ :=
  let d := d.setRo ncrIntr (d.regRo ncrIntr &&& ~~~ncrintrSbr)
  if idata &&& 0x80#64 != 0#64 then
    let d := ((d.setRo ncrTcl (d.regWo ncrTcl)).setRo ncrTcm (d.regWo ncrTcm)).setRo ncrTch (d.regWo ncrTch)
    d.setRo ncrStat (d.regRo ncrStat &&& ~~~ncrstatTc)
  else d

def commandWrite (idata : BitVec 64) : Except Fault (AscData σ) :=
  let dmaflag := idata &&& 0x80#64 != 0#64
  let d := d.commandStart idata
  match Command.decode idata with
  | none => .error .exit
  | some .selnatn => d.selectAccess t .command dmaflag 0
  | some .selatn => d.selectAccess t .command dmaflag 1
  | some .selatns => d.selectAccess t .msgOut dmaflag 1
  | some .selatn3 => d.selectAccess t .command dmaflag 3
  | some .trpad => d.newxfer.transferAccess t dmaflag
  | some .trans => d.transferAccess t dmaflag
  | some c => .ok (d.otherCommand c)

def refresh : AscData σ :=
  let d := d.setRo ncrCfg1 ((d.regRo ncrCfg1 &&& ~~~7#32) ||| ascScsiId)
  let d := d.setRo ncrFflag (((d.regRo ncrStep &&& 7#32) <<< 5) + BitVec.ofInt 32 d.fifo.nBytesInFifo)
  let byte (i : Nat) : BitVec 32 := (d.dmaAddressRegMemory i).setWidth 32
  { d with dmaAddressReg := byte 0 + (byte 1 <<< 8) + (byte 2 <<< 16) + (byte 3 <<< 24) }

def copyRegisters : AscData σ :=
  { d with regRo := fun r => if r ∈ [2, 3, 8, 9, 10, 11, 12] then d.regWo r else d.regRo r }

def tick : AscData σ := { d with irqAsserted := d.regRo ncrStat &&& ncrstatInt != 0#32 }

def interruptRead : AscData σ :=
  let d :=
    if d.regRo ncrStat &&& ncrstatInt != 0#32 then
      ((d.setRo ncrIntr 0#32).setRo ncrStep 0#32).setRo ncrStat Phase.command.value
    else d
  { d with irqAsserted := false }

def regnr (relativeAddr : Nat) : Nat := if d.modeDec then relativeAddr / 4 else relativeAddr

def written (relativeAddr : Nat) (idata : BitVec 64) : AscData σ :=
  let r := d.regnr relativeAddr
  let d := d.refresh
  let d :=
    if r < 0x10 then
      if r = ncrFifo then { d with fifo := d.fifo.write (idata.setWidth 8) }
      else { d with regWo := Function.update d.regWo r (idata.setWidth 32) }
    else d
  d.copyRegisters

def write (relativeAddr : Nat) (idata : BitVec 64) : Except Fault (AscData σ) :=
  let written := d.written relativeAddr idata
  (if d.regnr relativeAddr = ncrCmd then written.commandWrite t idata else .ok written).map tick

def read (relativeAddr : Nat) : AscData σ × BitVec 64 :=
  let r := d.regnr relativeAddr
  let d := d.refresh
  let odata : BitVec 64 :=
    if r < 0x10 then if r = ncrFifo then d.fifo.read.1.setWidth 64 else (d.regRo r).setWidth 64 else 0#64
  let d := if r = ncrFifo then { d with fifo := d.fifo.read.2 } else d
  let d := d.copyRegisters
  ((if r = ncrIntr then d.interruptRead else d).tick, odata)

end AscData

inductive AscOp where
  | write (relativeAddr : Nat) (idata : BitVec 64)
  | read (relativeAddr : Nat)
  | addressWrite (relativeAddr : Nat) (data : List Byte)
  | dmaWrite (relativeAddr : Nat) (data : List Byte)
  | tick

/-- One access, or a tick. The device does not see an access that is not to its memory. -/
def AscData.step {σ : Type*} (t : Target σ) (d : AscData σ) : AscOp → Except Fault (AscData σ)
  | .write relativeAddr idata => d.write t relativeAddr idata
  | .read relativeAddr => .ok (d.read relativeAddr).1
  | .addressWrite relativeAddr data =>
    if 4 < relativeAddr + data.length then .ok d
    else .ok { d with dmaAddressRegMemory := AscData.put d.dmaAddressRegMemory relativeAddr data }
  | .dmaWrite relativeAddr data =>
    if ascDmaSize < relativeAddr + data.length then .ok d
    else .ok { d with dma := AscData.put d.dma relativeAddr data }
  | .tick => .ok d.tick

end Gxemul.Asc
