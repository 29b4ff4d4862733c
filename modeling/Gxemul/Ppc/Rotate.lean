import Gxemul.Lib.RotateMask
import Gxemul.Ppc.Alu

/- Rotate, shift and mask instructions of PowerPC (`src/cpus/cpu_ppc_instr.c`).

   Masks and rotations are made bit by bit, in loops with a fuel. A shift of a 32-bit
   number by 32 is not defined in C: `shr32` is what the host makes of it. The functions
   of the first group are those that the source compiles for 32-bit mode. -/
namespace Gxemul.Ppc
open Lib (whileLoop)

/-- The instructions. Those of the second line are for 64-bit mode. -/
inductive RotOp where
  | rlwinm | rlwnm | rlwimi | slw | srw | sraw | srawi
  | rldicl | rldicr | rldimi | sld

def RotOp.mode32 : RotOp → Bool
  | .rlwinm | .rlwnm | .rlwimi | .slw | .srw | .sraw | .srawi => true
  | .rldicl | .rldicr | .rldimi | .sld => false

/-! ## The fields of an instruction word -/

/-- `(iw >> n) & 31`. -/
def field (n : Nat) (iw : Word) : BitVec 5 := (iw >>> n).setWidth 5

def rs (iw : Word) : BitVec 5 := field 21 iw

def ra (iw : Word) : BitVec 5 := field 16 iw

def rb (iw : Word) : BitVec 5 := field 11 iw

/-- `(iw >> 11) & 31`. -/
def sh (iw : Word) : Nat := (field 11 iw).toNat

def mb (iw : Word) : Nat := (field 6 iw).toNat

def me (iw : Word) : Nat := (field 1 iw).toNat

def rc (iw : Word) : Bool := iw &&& 1#32 != 0#32

/-- `((iw >> 11) & 31) | ((iw & 2) << 4)`. -/
def sh6 (iw : Word) : Nat := (((iw >>> 11) &&& 31#32) ||| ((iw &&& 2#32) <<< 4)).toNat

/-- `((iw >> 6) & 31) | (iw & 0x20)`. -/
def mb6 (iw : Word) : Nat := (((iw >>> 6) &&& 31#32) ||| (iw &&& 0x20#32)).toNat

/-! ## 32-bit mode -/

/-- The mask that `X(to_be_translated)` makes for rlwinm and rlwnm. -/
def translateMask (fuel : Nat) (iw : Word) : Option Word := do
  let body := Lib.roundBody (fun mask mb => mask ||| (0x80000000#32 >>> mb)) (fun mb => (mb + 1) &&& 31) (me iw)
  let (_, mask) ← whileLoop body fuel (mb iw, 0#32)
  return mask

/-- `(tmp << sh) | (tmp >> (32-sh))`. -/
def rotl32 (shr32 : Word → Word) (tmp : Word) (sh : Nat) : Word :=
  (tmp <<< sh) ||| (if sh = 0 then shr32 tmp else tmp >>> (32 - sh))

/-- `while (sh-- > 0)`, with the bits that are lost in `j`. -/
def srawBody (s : Int × Word × Nat) : (Int × Word × Nat) × Bool :=
  let (sh, tmp, j) := s
  if sh > 0 then
    let j := if tmp &&& 1#32 ≠ 0#32 then j + 1 else j
    let tmp := tmp >>> 1
    let tmp := if tmp &&& 0x40000000#32 ≠ 0#32 then tmp ||| 0x80000000#32 else tmp
    ((sh - 1, tmp, j), true)
  else ((sh - 1, tmp, j), false)

namespace PpcCpu
variable (shr32 : Word → Word) (fuel : Nat) (iw : Word) (c : PpcCpu)

/-- `X(rlwinm)`. -/
def rlwinm (mask : Word) : PpcCpu :=
  let tmp := c.word (rs iw)
  let tmp := rotl32 shr32 tmp (sh iw)
  let tmp := tmp &&& mask
  (c.setReg (ra iw) (tmp.setWidth 64)).dot (rc iw) (ra iw)

/-- `X(rlwnm)`. -/
def rlwnm (mask : Word) : PpcCpu :=
  let sh := (c.gpr (rb iw) &&& 0x1f#64).toNat
  let tmp := c.word (rs iw)
  let tmp := rotl32 shr32 tmp sh
  let tmp := tmp &&& mask
  (c.setReg (ra iw) (tmp.setWidth 64)).dot (rc iw) (ra iw)

/-- `X(rlwimi)`. -/
def rlwimi : Option PpcCpu := do
  let tmp := c.word (rs iw)
  let value := c.word (ra iw)
  let tmp := rotl32 shr32 tmp (sh iw)
  let body := Lib.roundBody (fun value mb => value &&& ~~~ (1#32 <<< (31 - mb)) ||| (tmp &&& (1#32 <<< (31 - mb))))
    (fun mb => if mb + 1 = 32 then 0 else mb + 1) (me iw)
  let (_, value) ← whileLoop body fuel (mb iw, value)
  let c := c.setReg (ra iw) (value.setWidth 64)
  return if rc iw then c.updateCr0 (value.setWidth 64) else c

/-- `X(slw)`. -/
def slw : PpcCpu :=
  (c.setReg (ra iw) (c.reg (rs iw) <<< (c.reg (rb iw) &&& 31#64).toNat)).dot (rc iw) (ra iw)

/-- `X(srw)`. -/
def srw : PpcCpu :=
  (c.setReg (ra iw) (c.reg (rs iw) >>> (c.reg (rb iw) &&& 31#64).toNat)).dot (rc iw) (ra iw)

/-- The body of `X(sraw)` and `X(srawi)`, for their shift amounts. -/
def shiftAlgebraic (sh : Nat) : Option PpcCpu := do
  let tmp := c.word (rs iw)
  let c := c.clearCa
  let i := tmp &&& 0x80000000#32 != 0#32
  let (_, tmp, j) ← whileLoop srawBody fuel ((sh : Int), tmp, 0)
  let c := if i && decide (j > 0) then c.setCa else c
  return (c.setReg (ra iw) (tmp.signExtend 64)).dot (rc iw) (ra iw)

/-- `X(sraw)`. -/
def sraw : Option PpcCpu := c.shiftAlgebraic fuel iw (c.reg (rb iw) &&& 31#64).toNat

/-- `X(srawi)`. -/
def srawi : Option PpcCpu := c.shiftAlgebraic fuel iw (sh iw)

/-! ## 64-bit mode -/

/-- `X(rldicl)`. -/
def rldicl : Option PpcCpu := do
  let (_, tmp) ← whileLoop Lib.rotateBody fuel ((sh6 iw : Int), c.gpr (rs iw))
  let tmp2 := 0#64
  let (_, tmp) ← whileLoop (Lib.upBody (fun tmp mb => tmp ||| (1#64 <<< (63 - mb))) 64) fuel (mb6 iw, tmp)
  let c := c.setGpr (ra iw) (tmp &&& tmp2)
  return if rc iw then c.updateCr0 (c.gpr (ra iw)) else c

/-- `X(rldicr)`. Its loop goes on from the bit after `me`. -/
def rldicr : Option PpcCpu := do
  let (_, tmp) ← whileLoop Lib.rotateBody fuel ((sh6 iw : Int), c.gpr (rs iw))
  let me := mb6 iw
  let (_, tmp) ← whileLoop (Lib.upBody (fun tmp me => tmp &&& ~~~ (1#64 <<< (63 - me))) 64) fuel (me + 1, tmp)
  let c := c.setGpr (ra iw) tmp
  return if rc iw then c.updateCr0 tmp else c

/-- The second loop of `X(rldimi)`: `while (m != 63 - sh)`. -/
def rldimiBody (sh : Int) (s : Nat × Reg) : (Nat × Reg) × Bool :=
  let (m, tmp) := s
  let tmp := tmp ||| (1#64 <<< (63 - m))
  let m := m + 1
  ((m, tmp), decide ((m : Int) ≠ 63 - sh))

/-- `X(rldimi)`. The first loop leaves -1 in `sh`. -/
def rldimi : Option PpcCpu := do
  let (sh, s) ← whileLoop Lib.rotateBody fuel ((sh6 iw : Int), c.gpr (rs iw))
  let (_, tmp) ← whileLoop (rldimiBody sh) fuel (mb6 iw, 0#64)
  let c := c.setGpr (ra iw) (c.gpr (ra iw) &&& ~~~ tmp)
  let c := c.setGpr (ra iw) (c.gpr (ra iw) ||| (tmp &&& s))
  return if rc iw then c.updateCr0 (c.gpr (ra iw)) else c

/-- `X(sld)`. -/
def sld : PpcCpu :=
  let sa := (c.reg (rb iw) &&& 127#64).toNat
  (c.setReg (ra iw) (if sa ≥ 64 then 0#64 else c.reg (rs iw) <<< (sa &&& 63))).dot (rc iw) (ra iw)

end PpcCpu

def RotOp.execute (shr32 : Word → Word) (fuel : Nat) (iw : Word) (c : PpcCpu) : RotOp → Option PpcCpu
  | rlwinm => do
    let mask ← translateMask fuel iw
    return c.rlwinm shr32 iw mask
  | rlwnm => do
    let mask ← translateMask fuel iw
    return c.rlwnm shr32 iw mask
  | rlwimi => c.rlwimi shr32 fuel iw
  | slw => some (c.slw iw)
  | srw => some (c.srw iw)
  | sraw => c.sraw fuel iw
  | srawi => c.srawi fuel iw
  | rldicl => c.rldicl fuel iw
  | rldicr => c.rldicr fuel iw
  | rldimi => c.rldimi fuel iw
  | sld => some (c.sld iw)

/-! ## The architecture -/

namespace RotOp
variable (iw : Word) (c : PpcCpu)

/-- `sh` of the instructions for 64-bit mode, of two parts. -/
def archSh6 : Nat := (iw.extractLsb' 1 1 ++ iw.extractLsb' 11 5).toNat

def archMb6 : Nat := (iw.extractLsb' 5 1 ++ iw.extractLsb' 6 5).toNat

def amount32 : Nat := ((c.gpr (rb iw)).setWidth 5).toNat

def tooFar32 : Bool := (c.gpr (rb iw)).getLsbD 5

def rightMask (n : Nat) (tooFar : Bool) : Word := if tooFar then 0#32 else Lib.mask 32 n 31

def algebraic (x : Word) (n : Nat) (m : Word) : Word :=
  (x.rotateLeft (32 - n) &&& m) ||| ((if x.msb then BitVec.allOnes 32 else 0#32) &&& ~~~ m)

def algebraicCa (x : Word) (n : Nat) (m : Word) : Bool := x.msb && (x.rotateLeft (32 - n) &&& ~~~ m) != 0#32

def word32 : RotOp → Word
  | rlwinm => (c.word (rs iw)).rotateLeft (sh iw) &&& Lib.mask 32 (mb iw) (me iw)
  | rlwnm => (c.word (rs iw)).rotateLeft (amount32 iw c) &&& Lib.mask 32 (mb iw) (me iw)
  | rlwimi =>
    ((c.word (rs iw)).rotateLeft (sh iw) &&& Lib.mask 32 (mb iw) (me iw)) |||
      (c.word (ra iw) &&& ~~~ Lib.mask 32 (mb iw) (me iw))
  | slw =>
    (c.word (rs iw)).rotateLeft (amount32 iw c) &&&
      if tooFar32 iw c then 0#32 else Lib.mask 32 0 (31 - amount32 iw c)
  | srw => (c.word (rs iw)).rotateLeft (32 - amount32 iw c) &&& rightMask (amount32 iw c) (tooFar32 iw c)
  | sraw => algebraic (c.word (rs iw)) (amount32 iw c) (rightMask (amount32 iw c) (tooFar32 iw c))
  | srawi => algebraic (c.word (rs iw)) (sh iw) (Lib.mask 32 (sh iw) 31)
  | _ => 0#32

def value64 : RotOp → Reg
  | rldicl => (c.gpr (rs iw)).rotateLeft (archSh6 iw) &&& Lib.mask 64 (archMb6 iw) 63
  | rldicr => (c.gpr (rs iw)).rotateLeft (archSh6 iw) &&& Lib.mask 64 0 (archMb6 iw)
  | rldimi =>
    ((c.gpr (rs iw)).rotateLeft (archSh6 iw) &&& Lib.mask 64 (archMb6 iw) (63 - archSh6 iw)) |||
      (c.gpr (ra iw) &&& ~~~ Lib.mask 64 (archMb6 iw) (63 - archSh6 iw))
  | sld =>
    let n := ((c.gpr (rb iw)).setWidth 6).toNat
    (c.gpr (rs iw)).rotateLeft n &&& if (c.gpr (rb iw)).getLsbD 6 then 0#64 else Lib.mask 64 0 (63 - n)
  | _ => 0#64

/-- What is left in `ra`. -/
def archValue (op : RotOp) : Reg := if op.mode32 then (op.word32 iw c).setWidth 64 else op.value64 iw c

def archCa : RotOp → Option Bool
  | sraw => some (algebraicCa (c.word (rs iw)) (amount32 iw c) (rightMask (amount32 iw c) (tooFar32 iw c)))
  | srawi => some (algebraicCa (c.word (rs iw)) (sh iw) (Lib.mask 32 (sh iw) 31))
  | _ => none

end RotOp

namespace PpcCpu
variable (c : PpcCpu)

def withCa : Option Bool → PpcCpu
  | none => c
  | some ca => if ca then c.clearCa.setCa else c.clearCa

/-- CR0 for a result: less than, greater than, equal, and the summary overflow bit. -/
def recordCr0 (x : Int) : PpcCpu :=
  { c with cr := BitVec.ofBool (decide (x < 0)) ++ BitVec.ofBool (decide (0 < x)) ++ BitVec.ofBool (decide (x = 0)) ++
      BitVec.ofBool ((c.spr sprXer).getLsbD 31) ++ c.cr.setWidth 28 }

def signedResult (value : Reg) : Int := if c.is32bit then (value.setWidth 32).toInt else value.toInt

end PpcCpu

def RotOp.arch (iw : Word) (c : PpcCpu) (op : RotOp) : PpcCpu :=
  let value := op.archValue iw c
  let c := (c.withCa (op.archCa iw c)).setReg (ra iw) value
  if rc iw then c.recordCr0 (c.signedResult value) else c

end Gxemul.Ppc
