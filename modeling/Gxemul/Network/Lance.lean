import Gxemul.Lib.Bytes
import Mathlib.Data.BitVec

/- The LANCE ethernet controller (`src/devices/dev_le.c`).

   The chip and the guest share an SRAM, with an initialization block, two rings
   of descriptors of four 16-bit words each, and the buffers. Every access to the
   registers ends with the chip looking at its rings. What the network has for the
   chip is a list of frames, and what the chip has sent is another. `history`
   records what the chip has done; no function looks at it. The station's ROM, the
   interrupt line and messages are left out. -/
namespace Gxemul.Lance

open Lib (Byte)

abbrev Sram := Nat → Byte

def sramSize : Nat := 128 * 1024

/-! ## Bits of the registers and the descriptors -/

def leSerr : BitVec 16 := 0x8000#16
def leBabl : BitVec 16 := 0x4000#16
def leCerr : BitVec 16 := 0x2000#16
def leMiss : BitVec 16 := 0x1000#16
def leMerr : BitVec 16 := 0x0800#16
def leRint : BitVec 16 := 0x0400#16
def leTint : BitVec 16 := 0x0200#16
def leIdon : BitVec 16 := 0x0100#16
def leIntr : BitVec 16 := 0x0080#16
def leInea : BitVec 16 := 0x0040#16
def leRxon : BitVec 16 := 0x0020#16
def leTxon : BitVec 16 := 0x0010#16
def leTdmd : BitVec 16 := 0x0008#16
def leStop : BitVec 16 := 0x0004#16
def leStrt : BitVec 16 := 0x0002#16
def leInit : BitVec 16 := 0x0001#16

def leModeProm : BitVec 16 := 0x8000#16
def leModeDtx : BitVec 16 := 0x0002#16
def leModeDrx : BitVec 16 := 0x0001#16

def leOwn : BitVec 16 := 0x8000#16
def leStp : BitVec 16 := 0x0200#16
def leEnp : BitVec 16 := 0x0100#16

def has (x bit : BitVec 16) : Bool := x &&& bit != 0#16

/-! ## The SRAM -/

/-- le_read_16bit(). -/
def read16bit (big : Bool) (sram : Sram) (addr : Nat) : BitVec 16 :=
  let a := sram (addr &&& (sramSize - 1))
  let b := sram ((addr + 1) &&& (sramSize - 1))
  if big then a ++ b else b ++ a

/-- le_write_16bit(). -/
def write16bit (big : Bool) (sram : Sram) (addr : Nat) (x : BitVec 16) : Sram :=
  let hi : Byte := x.extractLsb' 8 8
  let lo : Byte := x.extractLsb' 0 8
  let a := addr &&& (sramSize - 1)
  let b := (addr + 1) &&& (sramSize - 1)
  if big then Function.update (Function.update sram a hi) b lo
  else Function.update (Function.update sram a lo) b hi

def loadBytes (sram : Sram) (addr len : Nat) : List Byte :=
  (List.range len).map fun i => sram ((addr + i) &&& (sramSize - 1))

def storeBytes (sram : Sram) (addr : Nat) : List Byte → Sram
  | [] => sram
  | b :: l => storeBytes (Function.update sram (addr &&& (sramSize - 1)) b) (addr + 1) l

def guestWrite (sram : Sram) (addr : Nat) (data : List Byte) : Sram :=
  fun a => if addr ≤ a then data.getD (a - addr) (sram a) else sram a

/-! ## The chip -/

structure LeStep where
  big : Bool
  addr : Nat
  index : Nat
  ringLen : Nat
  pre : Sram
  post : Sram

inductive LeEvent where
  | init
  | tx (s : LeStep)
  /-- A frame that has been accepted from the network. -/
  | take (frame : List Byte)
  | rx (s : LeStep)
  /-- The guest has written to the SRAM. -/
  | guest (addr : Nat) (data : List Byte)

/-- `struct le_data`, and the chip's side of the network. -/
structure LeData where
  reg : Nat → BitVec 16 := fun i => if i = 0 then leStop else 0#16
  regSelect : Nat := 0
  isBigendian : Bool
  sram : Sram := fun _ => 0#8
  initBlockAddr : Nat := 0
  mode : BitVec 16 := 0#16
  macAddress : List Byte := []
  promiscuousMode : Bool := false
  ladrf : List (BitVec 16) := []
  rdra : Nat := 0
  rlen : Nat := 0
  tdra : Nat := 0
  tlen : Nat := 0
  allmulti : Bool := false
  rxp : Nat := 0
  txp : Nat := 0
  txPacket : Option (List Byte) := none
  rxPacket : Option (List Byte) := none
  rxPacketOffset : Nat := 0
  rxMiddleBit : Bool := false
  irqAsserted : Bool := false
  /-- A tap device is in use. -/
  tapdev : Bool := false
  /-- The frames that the network has for the chip. -/
  arrived : List (List Byte) := []
  /-- The frames that the chip has given to net_ethernet_tx(). -/
  sent : List (List Byte) := []
  history : List LeEvent := []

namespace LeData
variable (d : LeData)

def setReg (r : Nat) (x : BitVec 16) : LeData := { d with reg := Function.update d.reg r x }

def read16 (addr : Nat) : BitVec 16 := read16bit d.isBigendian d.sram addr

def chipInit : LeData :=
  let initBlockAddr := (d.reg 1).toNat + (((d.reg 2) &&& 0xff#16).toNat <<< 16)
  let word (i : Nat) : BitVec 16 := d.read16 (initBlockAddr + i)
  let bytes (w : BitVec 16) : List Byte := [w.setWidth 8, (w >>> 8).setWidth 8]
  let mode := word 0
  let ladrf := [word 8, word 10, word 12, word 14]
  let reg0 := if has mode leModeDtx then d.reg 0 &&& ~~~leTxon else d.reg 0 ||| leTxon
  let reg0 := if has mode leModeDrx then reg0 &&& ~~~leRxon else reg0 ||| leRxon
  let reg0 := (reg0 ||| leIdon) &&& ~~~leInit
  { d with
    reg := Function.update d.reg 0 reg0
    initBlockAddr := initBlockAddr
    mode := mode
    macAddress := bytes (word 2) ++ bytes (word 4) ++ bytes (word 6)
    promiscuousMode := has mode leModeProm
    ladrf := ladrf
    allmulti := ladrf == [0xffff#16, 0xffff#16, 0xffff#16, 0xffff#16]
    rdra := (word 16).toNat + ((word 18 &&& 0xff#16).toNat <<< 16)
    rlen := 1 <<< ((word 18).toNat >>> 13 &&& 7)
    tdra := (word 20).toNat + ((word 22 &&& 0xff#16).toNat <<< 16)
    tlen := 1 <<< ((word 22).toNat >>> 13 &&& 7)
    rxp := 0
    txp := 0
    txPacket := none
    rxPacket := none
    rxPacketOffset := 0
    rxMiddleBit := false
    history := d.history ++ [.init] }

def next (p len : Nat) : Nat := if len ≤ p + 1 then 0 else p + 1

/-! ## Transmission -/

/-- The descriptor can be used: it is owned by the chip, has the '1111' mark and a reasonable byte count. -/
def usable (w1 w2 : BitVec 16) : Bool :=
  let buflen := 4096 - (w2 &&& 0xfff#16).toNat
  has w1 leOwn && (w2 &&& 0xf000#16 == 0xf000#16) && !(buflen < 12 || 1900 < buflen)

/-- The loop body of le_tx(), unless it returns. -/
def txStep : Option LeData :=
  let addr := d.tdra + d.txp * 8
  let w0 := d.read16 addr
  let w1 := d.read16 (addr + 2)
  let w2 := d.read16 (addr + 4)
  let w3 := d.read16 (addr + 6)
  let bufaddr := w0.toNat + ((w1 &&& 0xff#16).toNat <<< 16)
  let stp := has w1 leStp
  let enp := has w1 leEnp
  let buflen := 4096 - (w2 &&& 0xfff#16).toNat
  if !usable w1 w2 then none
  else if d.txPacket.isNone && !stp then none
  else
    let data := loadBytes d.sram bufaddr buflen
    let packet := if stp then data else d.txPacket.getD [] ++ data
    let sram := write16bit d.isBigendian d.sram (addr + 2) (w1 &&& ~~~leOwn)
    let sram := write16bit d.isBigendian sram (addr + 4) w2
    let sram := write16bit d.isBigendian sram (addr + 6) w3
    some { d with
      txPacket := if enp then none else some packet
      sent := if enp then d.sent ++ [packet] else d.sent
      reg := if enp then Function.update d.reg 0 (d.reg 0 ||| leTint) else d.reg
      sram := sram
      txp := next d.txp d.tlen
      history := d.history ++ [.tx ⟨d.isBigendian, addr, d.txp, d.tlen, d.sram, sram⟩] }

/-- The loop of le_tx(). -/
def txLoop (startTxp : Nat) : Nat → LeData → LeData
  | 0, d => d
  | fuel + 1, d =>
    match d.txStep with
    | none => d
    | some d' => if d'.txp = startTxp then d' else txLoop startTxp fuel d'

/-- le_tx(). It goes around the ring once at most. -/
def tx : LeData :=
  txLoop d.txp (d.tlen + 1) (d.setReg 0 (d.reg 0 &&& ~~~leTdmd))

/-! ## Reception -/

/-- The loop body of le_rx(), unless it returns. -/
def rxStep : Option LeData :=
  match d.rxPacket with
  | none => none
  | some packet =>
    let addr := d.rdra + d.rxp * 8
    let w0 := d.read16 addr
    let w1 := d.read16 (addr + 2)
    let w2 := d.read16 (addr + 4)
    let w3 := d.read16 (addr + 6)
    let bufaddr := w0.toNat + ((w1 &&& 0xff#16).toNat <<< 16)
    let buflen := 4096 - (w2 &&& 0xfff#16).toNat
    if !usable w1 w2 then none
    else
      let copied := (packet.drop d.rxPacketOffset).take buflen
      let sram := storeBytes d.sram bufaddr copied
      let complete := decide (packet.length ≤ d.rxPacketOffset + copied.length)
      let w1 := if complete then w1 ||| leEnp else w1
      let w3 := if complete then (w3 &&& ~~~0xfff#16) ||| BitVec.ofNat 16 (packet.length + 4) else w3
      -- At the end of a packet the bit has just been cleared.
      let middle := if complete then false else d.rxMiddleBit
      let w1 := if !middle then w1 ||| leStp else w1
      let middle := if !middle && !complete then true else middle
      let w1 := w1 &&& ~~~leOwn
      let sram := write16bit d.isBigendian sram (addr + 2) w1
      let sram := write16bit d.isBigendian sram (addr + 4) w2
      let sram := write16bit d.isBigendian sram (addr + 6) w3
      some { d with
        rxPacket := if complete then none else some packet
        rxPacketOffset := if complete then 0 else d.rxPacketOffset + copied.length
        rxMiddleBit := middle
        reg := if complete then Function.update d.reg 0 (d.reg 0 ||| leRint) else d.reg
        sram := sram
        rxp := next d.rxp d.rlen
        history := d.history ++ [.rx ⟨d.isBigendian, addr, d.rxp, d.rlen, d.sram, sram⟩] }

/-- The loop of le_rx(). -/
def rxLoop (startRxp : Nat) : Nat → LeData → LeData
  | 0, d => d
  | fuel + 1, d =>
    match d.rxStep with
    | none => d
    | some d' => if d'.rxp = startRxp then d' else rxLoop startRxp fuel d'

/-- le_rx(). It goes around the ring once at most. -/
def rx : LeData := rxLoop d.rxp (d.rlen + 1) d

def crctab : List (BitVec 32) :=
  [0x00000000#32, 0x1db71064#32, 0x3b6e20c8#32, 0x26d930ac#32, 0x76dc4190#32, 0x6b6b51f4#32, 0x4db26158#32,
    0x5005713c#32, 0xedb88320#32, 0xf00f9344#32, 0xd6d6a3e8#32, 0xcb61b38c#32, 0x9b64c2b0#32, 0x86d3d2d4#32,
    0xa00ae278#32, 0xbdbdf21c#32]

def etherCrc32Le (buf : List Byte) : BitVec 32 :=
  let half (crc : BitVec 32) : BitVec 32 := (crc >>> 4) ^^^ crctab.getD (crc &&& 0xf#32).toNat 0#32
  buf.foldl (fun crc b => half (half (crc ^^^ b.setWidth 32))) 0xffffffff#32

/-- le_rx_drop_packet(), on a packet that has just come. -/
def rxDropPacket (packet : List Byte) : Bool :=
  let multicast := packet.getD 0 0#8 &&& 0x01#8 != 0#8
  let broadcast := packet.take 6 == List.replicate 6 0xff#8
  let crc := (etherCrc32Le (packet.take 6)).toNat >>> 26
  d.tapdev && multicast && !d.allmulti && !broadcast &&
    (d.ladrf.getD (crc >>> 4) 0#16 &&& 1#16 <<< (crc &&& 0xf) == 0#16)

/-- The receiver's loop of le_register_fix(), over the frames that the network has. -/
def fixRx : List (List Byte) → LeData → LeData
  | arrived, d =>
    let d := if d.rxPacket.isSome then d.rx else d
    if d.rxPacket.isSome then { d with arrived := arrived }
    else
      match arrived with
      | [] => { d with arrived := [] }
      | packet :: arrived =>
        if d.rxDropPacket packet then { d with arrived := arrived }
        else fixRx arrived { d with rxPacket := some packet, history := d.history ++ [.take packet] }

def registerFix : LeData :=
  let d := if has (d.reg 0) leInit then d.chipInit else d
  let d := if has (d.reg 0) leRxon then fixRx d.arrived d else d
  let d := if has (d.reg 0) leTxon then d.tx else d
  let reg0 := d.reg 0 &&& ~~~leSerr
  let reg0 := if has reg0 (leBabl ||| leCerr ||| leMiss ||| leMerr) then reg0 ||| leSerr else reg0
  let reg0 := reg0 &&& ~~~leIntr
  let reg0 := if has reg0 (leBabl ||| leMiss ||| leMerr ||| leRint ||| leTint ||| leIdon) then reg0 ||| leIntr else reg0
  let reg0 := if has reg0 leMerr then reg0 &&& ~~~(leRxon ||| leTxon) else reg0
  let reg0 := if has reg0 leStop then reg0 &&& ~~~leIdon else reg0
  d.setReg 0 reg0

def tick : LeData :=
  let d := d.registerFix
  { d with irqAsserted := has (d.reg 0) leIntr && has (d.reg 0) leInea }

/-! ## The guest -/

def registerWrite (r : Nat) (x : BitVec 16) : LeData :=
  if r = 0 then
    let reg0 := d.reg 0
    let clear (bit reg : BitVec 16) : BitVec 16 := if has x bit then reg &&& ~~~bit else reg
    let reg0 := clear leIdon (clear leTint (clear leRint (clear leMerr (clear leMiss (clear leCerr
      (clear leBabl reg0))))))
    let reg0 := if has x leTdmd then reg0 ||| leTdmd else reg0
    let reg0 := if has x leStrt then (reg0 ||| leStrt) &&& ~~~leStop else reg0
    let reg0 := if has x leInit then (reg0 ||| leInit) &&& ~~~leStop else reg0
    let reg0 := if has x leStop then (reg0 ||| leStop) &&& ~~~(leStrt ||| leInit) else reg0
    let reg0 := (reg0 &&& ~~~leInea) ||| (x &&& leInea)
    d.setReg 0 reg0
  else d.setReg r x

end LeData

inductive LeOp where
  /-- A write to the register that is selected. -/
  | registerWrite (idata : BitVec 64)
  | registerSelect (idata : BitVec 64)
  /-- Any other access to the registers, or a tick. -/
  | tick
  | sramWrite (addr : Nat) (data : List Byte)
  | arrive (frame : List Byte)

def LeData.step (d : LeData) : LeOp → LeData
  | .registerWrite idata => (d.registerWrite d.regSelect (idata.setWidth 16)).tick
  | .registerSelect idata => { d with regSelect := (idata &&& 3#64).toNat }.tick
  | .tick => d.tick
  | .sramWrite addr data =>
    if addr < sramSize ∧ addr + data.length ≤ sramSize then
      { d with sram := guestWrite d.sram addr data, history := d.history ++ [.guest addr data] }
    else d
  | .arrive frame => { d with arrived := d.arrived ++ [frame] }

end Gxemul.Lance
