import Gxemul.Lib.Run
import Gxemul.Network.Lance

/- The DEC 21143 ethernet controller (`src/devices/dev_dec21143.c`).

   The descriptors and the buffers are in the guest's memory. A descriptor is
   followed by the next one, or has the address of the next one, or it is the last
   one of a ring. The loops of the tick function have a fuel. What the network has
   for the chip is a list of frames, and what the chip has sent is another.
   `history` records what the chip has done; no function looks at it. The serial
   ROM, the MII and the interrupt line are left out. -/
namespace Gxemul.Dec21143

open Lib (Byte)

abbrev Mem := Nat → Byte

/-! ## Bits of the registers and the descriptors -/

def csrBusmode : Nat := 0
def csrTxpoll : Nat := 1
def csrRxpoll : Nat := 2
def csrRxlist : Nat := 3
def csrTxlist : Nat := 4
def csrStatus : Nat := 5
def csrOpmode : Nat := 6
def csrInten : Nat := 7
def csrMissed : Nat := 8
def csrMiirom : Nat := 9
def csrSiaconn : Nat := 13
def csrSiatxrx : Nat := 14
def csrSiagen : Nat := 15

def busmodeSwr : BitVec 32 := 0x00000001#32

def statusTi : BitVec 32 := 0x00000001#32
def statusTps : BitVec 32 := 0x00000002#32
def statusTu : BitVec 32 := 0x00000004#32
def statusRi : BitVec 32 := 0x00000040#32
def statusRu : BitVec 32 := 0x00000080#32
def statusAis : BitVec 32 := 0x00008000#32
def statusNis : BitVec 32 := 0x00010000#32
def statusRs : BitVec 32 := 0x000e0000#32
def statusTs : BitVec 32 := 0x00700000#32

def opmodeHp : BitVec 32 := 0x00000001#32
def opmodeSr : BitVec 32 := 0x00000002#32
def opmodeHo : BitVec 32 := 0x00000004#32
def opmodeIf : BitVec 32 := 0x00000010#32
def opmodePr : BitVec 32 := 0x00000040#32
def opmodePm : BitVec 32 := 0x00000080#32
def opmodeSt : BitVec 32 := 0x00002000#32
def opmodePnicIt : BitVec 32 := 0x00100000#32

def tdstatOwn : BitVec 32 := 0x80000000#32
def tdstatEs : BitVec 32 := 0x00008000#32
def tdstatRxFl : BitVec 32 := 0x3fff0000#32
def tdstatRxFs : BitVec 32 := 0x00000200#32
def tdstatRxLs : BitVec 32 := 0x00000100#32
def tdstatRxTl : BitVec 32 := 0x00000080#32
/-- TDSTAT_Tx_UF, EC, LC, NC, LO and TO. -/
def tdstatTxErrors : BitVec 32 := 0x00004f02#32

def tdctlSize1 : BitVec 32 := 0x000007ff#32
def tdctlSize2 : BitVec 32 := 0x003ff800#32
def tdctlEr : BitVec 32 := 0x02000000#32
def tdctlCh : BitVec 32 := 0x01000000#32
def tdctlTxIc : BitVec 32 := 0x80000000#32
def tdctlTxLs : BitVec 32 := 0x40000000#32
def tdctlTxFs : BitVec 32 := 0x20000000#32
def tdctlTxFt1 : BitVec 32 := 0x10000000#32
def tdctlTxSet : BitVec 32 := 0x08000000#32
def tdctlTxFt0 : BitVec 32 := 0x00400000#32

def tulipSetupPacketLen : Nat := 192
def tulipMaxaddrs : Nat := 16

def has (x bit : BitVec 32) : Bool := x &&& bit != 0#32

/-! ## The memory -/

/-- load_le32(), of four bytes of the memory. -/
def loadLe32 (mem : Mem) (paddr : Nat) : BitVec 32 := mem (paddr + 3) ++ mem (paddr + 2) ++ mem (paddr + 1) ++ mem paddr

def storeLe32 (x : BitVec 32) : List Byte :=
  [x.extractLsb' 0 8, x.extractLsb' 8 8, x.extractLsb' 16 8, x.extractLsb' 24 8]

/-- A write of memory_rw()'s. -/
def memoryWrite (mem : Mem) (paddr : Nat) (data : List Byte) : Mem :=
  fun a => if paddr ≤ a then data.getD (a - paddr) (mem a) else mem a

def writeback (mem : Mem) (paddr : Nat) (des0 des1 des2 des3 : BitVec 32) : Mem :=
  memoryWrite mem paddr (storeLe32 des0 ++ storeLe32 des1 ++ storeLe32 des2 ++ storeLe32 des3)

def dmaToPhys (mask addr : BitVec 32) : Nat := (addr &&& mask).toNat

def dmaRead (mask : BitVec 32) (mem : Mem) (bufaddr : BitVec 32) (len : Nat) : List Byte :=
  (List.range len).map fun i => mem (dmaToPhys mask (bufaddr + BitVec.ofNat 32 i))

/-- Bytes that are written one by one, from the `i`th place of a buffer. -/
def dmaWrite (mask bufaddr : BitVec 32) : Nat → List Byte → Mem → Mem
  | _, [], mem => mem
  | i, b :: l, mem =>
    dmaWrite mask bufaddr (i + 1) l (Function.update mem (dmaToPhys mask (bufaddr + BitVec.ofNat 32 i)) b)

/-! ## The chip -/

structure DecStep where
  mask : BitVec 32
  addr : BitVec 32
  pre : Mem
  post : Mem

inductive DecEvent where
  | reset
  | txList (addr : BitVec 32)
  | rxList (addr : BitVec 32)
  | tx (s : DecStep)
  /-- A frame that has been accepted from the network. -/
  | take (frame : List Byte)
  | rx (s : DecStep)
  /-- The guest has written to its memory. -/
  | guest (paddr : Nat) (data : List Byte)

/-- What drop_packet points to. -/
inductive Filter where
  | perfect
  | hashperfect
  | inverse
  | hashonly

/-- `struct dec21143_data`, the guest's memory, and the chip's side of the network. -/
structure DecData where
  reg : Nat → BitVec 32
  mem : Mem
  curTxAddr : BitVec 32
  curTxBuf : Option (List Byte)
  curTxBufLen : Nat
  txIdling : Nat
  txIdlingThreshold : Nat
  curRxAddr : BitVec 32
  curRxBuf : Option (List Byte)
  curRxOffset : Nat
  dropPacket : Option Filter
  allmulti : Bool
  promiscuous : Bool
  filterNeedsPromiscuous : Bool
  perfectFilter : List (List Byte)
  hashFilter : List (BitVec 32)
  hashFilterSaturated : Bool
  xxxDmaToPhysMask : BitVec 32
  /-- The address in the serial ROM. -/
  sromAddress : List Byte
  macAddress : List Byte
  promiscuousMode : Bool
  irqWasAsserted : Bool
  /-- A tap device is in use. -/
  tapdev : Bool
  /-- What is in memory that has just been allocated. -/
  junk : Nat → Byte
  /-- The frames that the network has for the chip. -/
  arrived : List (List Byte)
  /-- The frames that the chip has given to net_ethernet_tx(). -/
  sent : List (List Byte)
  history : List DecEvent

namespace DecData
variable (d : DecData)

def setReg (r : Nat) (x : BitVec 32) : DecData := { d with reg := Function.update d.reg r x }

def setStatus (x : BitVec 32) : DecData := d.setReg csrStatus (d.reg csrStatus ||| x)
def clearStatus (x : BitVec 32) : DecData := d.setReg csrStatus (d.reg csrStatus &&& ~~~x)

def phys (addr : BitVec 32) : Nat := dmaToPhys d.xxxDmaToPhysMask addr

/-! ## Filters -/

def etherMulticast (packet : List Byte) : Bool := packet.getD 0 0#8 &&& 0x01#8 != 0#8

def mchash (packet : List Byte) : Nat := (Lance.LeData.etherCrc32Le (packet.take 6)).toNat &&& 511

def dropPacketPerfect (packet : List Byte) : Bool := !d.perfectFilter.any fun a => packet.take 6 == a

def dropPacketHashonly (packet : List Byte) : Bool :=
  let hash := mchash packet
  !has (d.hashFilter.getD (hash >>> 4) 0#32) (1#32 <<< (hash &&& 0xf))

def dropPacketHashperfect (packet : List Byte) : Bool := etherMulticast packet && d.dropPacketHashonly packet

/-- dec21143_rx_drop_packet(), on a packet that has just come. -/
def rxDropPacket (packet : List Byte) : Bool :=
  if !d.tapdev then false
  else if d.promiscuous then false
  else if d.allmulti && etherMulticast packet then false
  else
    match d.dropPacket with
    | none => true
    | some .perfect => d.dropPacketPerfect packet
    | some .hashperfect => d.dropPacketHashperfect packet
    | some .inverse => !d.dropPacketPerfect packet
    | some .hashonly => d.dropPacketHashonly packet

def updateRxMode : DecData :=
  let promiscuous := has (d.reg csrOpmode) opmodePr
  { d with
    promiscuous := promiscuous
    promiscuousMode := promiscuous || d.filterNeedsPromiscuous
    allmulti := has (d.reg csrOpmode) opmodePm || d.hashFilterSaturated }

def setupCopyEnaddr (setupPacket : Nat → BitVec 32) (k : Nat) : List Byte :=
  [0, 1, 2].flatMap fun i => [(setupPacket (k + i)).setWidth 8, (setupPacket (k + i) >>> 8).setWidth 8]

def processSetupPacket (tdctl bufaddr : BitVec 32) : DecData :=
  let setupPacket (i : Nat) : BitVec 32 := loadLe32 d.mem (d.phys bufaddr + 4 * i)
  let hash := (List.range 32).map setupPacket
  let perfect := (List.range tulipMaxaddrs).map fun i => setupCopyEnaddr setupPacket (3 * i)
  let d := { d with hashFilterSaturated := false, filterNeedsPromiscuous := true }
  let d := d.setReg csrOpmode (d.reg csrOpmode &&& ~~~(opmodeHp ||| opmodeHo ||| opmodeIf))
  let d :=
    match has tdctl tdctlTxFt1, has tdctl tdctlTxFt0 with
    | false, false => { d with perfectFilter := perfect, dropPacket := some .perfect }
    | false, true =>
      { d with
        hashFilter := hash
        hashFilterSaturated := hash.any (· == 0xffff#32)
        macAddress := setupCopyEnaddr setupPacket 39
        filterNeedsPromiscuous := false
        dropPacket := some .hashperfect }.setReg csrOpmode (d.reg csrOpmode ||| opmodeHp)
    | true, false =>
      { d with perfectFilter := perfect, dropPacket := some .inverse }.setReg csrOpmode
        (d.reg csrOpmode ||| opmodeIf)
    | true, true =>
      { d with
        hashFilter := hash
        hashFilterSaturated := hash.any (· == 0xffff#32)
        dropPacket := some .hashonly }.setReg csrOpmode (d.reg csrOpmode ||| opmodeHo)
  d.updateRxMode

/-! ## Transmission -/

def buffer (des1 des2 des3 : BitVec 32) : BitVec 32 × Nat :=
  let buf1Size := (des1 &&& tdctlSize1).toNat
  let buf2Size := ((des1 &&& tdctlSize2) >>> 11).toNat
  (if buf1Size ≠ 0 then des2 else des3, if buf1Size ≠ 0 then buf1Size else buf2Size)

def nextAddr (list addr des1 des3 : BitVec 32) : BitVec 32 :=
  if has des1 tdctlEr then list else if has des1 tdctlCh then des3 else addr + 16#32

/-- A segment is put into the frame that is being transmitted, which is given to the network after its last one. -/
def txSegment (tdes1 : BitVec 32) (data : List Byte) : DecData :=
  let buf :=
    if has tdes1 tdctlTxFs then data
    else (d.curTxBuf.getD ((List.range d.curTxBufLen).map d.junk)) ++ data
  if has tdes1 tdctlTxLs then
    let d := { d with curTxBuf := none, curTxBufLen := 0, sent := d.sent ++ [buf] }
    if has tdes1 tdctlTxIc then d.setStatus statusTi else d
  else { d with curTxBuf := some buf, curTxBufLen := buf.length }

def tx : DecData × Bool :=
  let addr := d.curTxAddr
  let tdes0 := loadLe32 d.mem (d.phys addr)
  if !has tdes0 tdstatOwn then
    if d.txIdling > d.txIdlingThreshold then ({ d.setStatus statusTu with txIdling := 0 }, false)
    else ({ d with txIdling := d.txIdling + 1 }, false)
  else
    let tdes1 := loadLe32 d.mem (d.phys (addr + 4#32))
    let tdes2 := loadLe32 d.mem (d.phys (addr + 4#32) + 4)
    let tdes3 := loadLe32 d.mem (d.phys (addr + 4#32) + 8)
    let bufaddr := (buffer tdes1 tdes2 tdes3).1
    let bufsize := (buffer tdes1 tdes2 tdes3).2
    let d := d.clearStatus statusTs
    let d := { d with curTxAddr := nextAddr (d.reg csrTxlist) addr tdes1 tdes3 }
    let d1 :=
      if has tdes1 tdctlTxSet then
        let d := if bufsize ≠ tulipSetupPacketLen then d else d.processSetupPacket tdes1 bufaddr
        if has tdes1 tdctlTxIc then d.setStatus statusTi else d
      else d.txSegment tdes1 (dmaRead d.xxxDmaToPhysMask d.mem bufaddr bufsize)
    let mem :=
      if has tdes1 tdctlTxSet then
        writeback d.mem (d.phys addr) 0x7fffffff#32 0xffffffff#32 0xffffffff#32 0xffffffff#32
      else
        writeback d.mem (d.phys addr) (tdes0 &&& ~~~(tdstatTxErrors ||| tdstatEs) &&& ~~~tdstatOwn) tdes1 tdes2 tdes3
    ({ d1 with mem := mem, history := d1.history ++ [.tx ⟨d.xxxDmaToPhysMask, addr, d.mem, mem⟩] }, true)

/-! ## Reception -/

/-- The next packet that is not dropped, with four bytes for the CRC. -/
def fetch : List (List Byte) → DecData → DecData
  | [], d => { d with arrived := [] }
  | packet :: arrived, d =>
    if d.rxDropPacket packet then fetch arrived d
    else
      { d with
        arrived := arrived
        curRxBuf := some (packet ++ List.replicate 4 0#8)
        curRxOffset := 0
        history := d.history ++ [.take packet] }

def rxStatus (first complete : Bool) (len : Nat) : BitVec 32 :=
  let rdes0 := if first then tdstatRxFs else 0#32
  if complete then
    let rdes0 := rdes0 ||| tdstatRxLs ||| ((BitVec.ofNat 32 len <<< 16) &&& tdstatRxFl)
    if 1518 < len then rdes0 ||| tdstatRxTl else rdes0
  else rdes0

/-- The start of dec21143_rx(), where there has to be a packet. -/
def rxFetch : DecData := if d.curRxBuf.isSome then d else fetch d.arrived d

/-- The rest of dec21143_rx(), which puts a part of the packet into a buffer. -/
def rxBuffer : DecData × Bool :=
  match d.curRxBuf with
  | none => (d, false)
  | some buf =>
    let addr := d.curRxAddr
    let rdes0 := loadLe32 d.mem (d.phys addr)
    if !has rdes0 tdstatOwn then (d.setStatus statusRu, false)
    else
      let rdes1 := loadLe32 d.mem (d.phys (addr + 4#32))
      let rdes2 := loadLe32 d.mem (d.phys (addr + 4#32) + 4)
      let rdes3 := loadLe32 d.mem (d.phys (addr + 4#32) + 8)
      let bufaddr := (buffer rdes1 rdes2 rdes3).1
      let bufsize := (buffer rdes1 rdes2 rdes3).2
      let xfer := (buf.drop d.curRxOffset).take bufsize
      let complete := decide (buf.length ≤ d.curRxOffset + xfer.length)
      let mem := writeback (dmaWrite d.xxxDmaToPhysMask bufaddr 0 xfer d.mem) (d.phys addr)
        (rxStatus (d.curRxOffset == 0) complete buf.length) rdes1 rdes2 rdes3
      let d1 := d.clearStatus statusRs
      let d1 := if complete then d1.setStatus statusRi else d1
      ({ d1 with
        curRxAddr := nextAddr (d.reg csrRxlist) addr rdes1 rdes3
        curRxBuf := if complete then none else some buf
        curRxOffset := d.curRxOffset + xfer.length
        mem := mem
        history := d.history ++ [.rx ⟨d.xxxDmaToPhysMask, addr, d.mem, mem⟩] }, true)

def rx : DecData × Bool := d.rxFetch.rxBuffer

/-! ## The registers -/

def summary : DecData :=
  let status := d.reg csrStatus &&& ~~~(statusNis ||| statusAis)
  let status := if has status 0x00004845#32 then status ||| statusNis else status
  let status := if has status 0x0c0037ba#32 then status ||| statusAis else status
  { d.setReg csrStatus status with irqWasAsserted := has (status &&& d.reg csrInten) 0x0c01ffff#32 }

def transfers (fuel : Nat) : Option DecData :=
  (if has (d.reg csrOpmode) opmodeSt then Lib.whileLoop tx fuel d else some d).bind fun d =>
    if has (d.reg csrOpmode) opmodeSr then Lib.whileLoop rx fuel d else some d

def tick (fuel : Nat) : Option DecData := (d.transfers fuel).map summary

/-- The registers after dec21143_reset(). -/
def resetReg (r : Nat) : BitVec 32 :=
  if r = csrBusmode then 0xfe000000#32
  else if r = csrMiirom then 0xfff483ff#32
  else if r = csrSiaconn then 0xffff0000#32
  else if r = csrSiatxrx then 0xffffffff#32
  else if r = csrSiagen then 0x8ff00000#32
  else 0#32

/-- dec21143_reset(). The length of what is being transmitted stays as it is. -/
def reset : DecData :=
  { d with
    curRxBuf := none
    curTxBuf := none
    reg := resetReg
    txIdlingThreshold := 10
    curRxAddr := 0#32
    curTxAddr := 0#32
    macAddress := d.sromAddress
    history := d.history ++ [.reset] }

def opmodeWrite (idata : BitVec 32) : DecData :=
  let ro := opmodeHp ||| opmodeHo ||| opmodeIf
  let oldreg := d.reg csrOpmode
  let d := d.setReg csrOpmode idata
  let d := if has idata opmodeSt then d else d.setStatus statusTps
  let d := if has idata opmodeSr then d else d.clearStatus statusRs
  let d := d.setReg csrOpmode ((d.reg csrOpmode &&& ~~~ro) ||| (oldreg &&& ro))
  let d := if has idata opmodePnicIt then { d with txIdling := d.txIdlingThreshold } else d
  d.updateRxMode

def registerWrite (r : Nat) (idata : BitVec 32) : DecData × Bool :=
  if r = csrBusmode then
    let d := d.setReg r idata
    (if has idata busmodeSwr then d.reset else d, false)
  else if r = csrTxpoll then ({ d.setReg r idata with txIdling := d.txIdlingThreshold }, true)
  else if r = csrRxpoll then (d.setReg r idata, true)
  else if r = csrRxlist then
    ({ d.setReg r idata with curRxAddr := idata &&& ~~~3#32, history := d.history ++ [.rxList idata] }, false)
  else if r = csrTxlist then
    ({ d.setReg r idata with curTxAddr := idata &&& ~~~3#32, history := d.history ++ [.txList idata] }, false)
  else if r = csrStatus then (d.clearStatus (idata &&& 0x0c01ffff#32), true)
  else if r = csrOpmode then (d.opmodeWrite idata, true)
  else if r = csrInten then (d.setReg r idata, true)
  else if r = csrMissed then (d, false)
  else (d.setReg r idata, false)

/-- A read of a register. Two of them make the chip look at its descriptors. -/
def registerRead (r : Nat) : DecData × Bool :=
  if r = csrTxpoll then ({ d with txIdling := d.txIdlingThreshold }, true)
  else if r = csrRxpoll then (d, true)
  else (d, false)

end DecData

inductive DecOp where
  | write (relativeAddr : Nat) (idata : BitVec 32)
  | read (relativeAddr : Nat)
  | tick
  | memWrite (paddr : Nat) (data : List Byte)
  | arrive (frame : List Byte)

/-- An access, up to the call of the tick function if there is one. An access that is not aligned does nothing. -/
def DecData.access (d : DecData) : DecOp → DecData × Bool
  | .write relativeAddr idata =>
    if relativeAddr % 8 = 0 ∧ relativeAddr / 8 < 32 then d.registerWrite (relativeAddr / 8) idata else (d, false)
  | .read relativeAddr => if relativeAddr % 8 = 0 then d.registerRead (relativeAddr / 8) else (d, false)
  | .tick => (d, true)
  | .memWrite paddr data =>
    ({ d with mem := memoryWrite d.mem paddr data, history := d.history ++ [.guest paddr data] }, false)
  | .arrive frame => ({ d with arrived := d.arrived ++ [frame] }, false)

def DecData.step (fuel : Nat) (d : DecData) (op : DecOp) : Option DecData :=
  if (d.access op).2 then (d.access op).1.tick fuel else some (d.access op).1

inductive DmaWindow where
  | footbridge
  | v3
  | other

def DmaWindow.mask : DmaWindow → BitVec 32
  | .footbridge => ~~~0x20000000#32
  | .v3 => 0x7fffffff#32
  | .other => 0xffffffff#32

def start (window : DmaWindow) (mem : Mem) (sromAddress : List Byte) (tapdev : Bool) (junk : Nat → Byte) :
    DecData where
  reg := DecData.resetReg
  mem := mem
  curTxAddr := 0#32
  curTxBuf := none
  curTxBufLen := 0
  txIdling := 0
  txIdlingThreshold := 10
  curRxAddr := 0#32
  curRxBuf := none
  curRxOffset := 0
  dropPacket := none
  allmulti := false
  promiscuous := false
  filterNeedsPromiscuous := false
  perfectFilter := List.replicate tulipMaxaddrs (List.replicate 6 0#8)
  hashFilter := List.replicate 32 0#32
  hashFilterSaturated := false
  xxxDmaToPhysMask := window.mask
  sromAddress := sromAddress
  macAddress := sromAddress
  promiscuousMode := false
  irqWasAsserted := false
  tapdev := tapdev
  junk := junk
  arrived := []
  sent := []
  history := []

end Gxemul.Dec21143
