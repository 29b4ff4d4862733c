import Gxemul.Sh.Mmu

/- SuperH instructions that work on registers (`src/cpus/cpu_sh_instr.c`): those that
   divisions are made of.

   `arg[0]` and `arg[1]` point to Rm and Rn. An instruction with one register has it
   in `arg[1]`. -/
namespace Gxemul.Sh

namespace Regs
variable (m n : RegName) (s : Regs)

/-- `cpu->cd.sh.sr |= SH_SR_T`, or `&= ~SH_SR_T`. -/
def setT (t : Bool) : Regs := s.set .sr (if t then s .sr ||| shSrT else s .sr &&& ~~~ shSrT)

def movRmRn : Regs := s.set n (s m)

def xorRmRn : Regs := s.set n (s n ^^^ s m)

def bit32 (res : BitVec 64) : Bool := (res >>> 32) &&& 1#64 != 0#64

def addcRmRn : Regs :=
  let res := (s n).setWidth 64 + (s m).setWidth 64
  let res := if anyBit (s .sr) shSrT then res + 1#64 else res
  (s.setT (bit32 res)).set n (res.setWidth 32)

def subcRmRn : Regs :=
  let res := (s n).setWidth 64 - (s m).setWidth 64
  let res := if anyBit (s .sr) shSrT then res - 1#64 else res
  (s.setT (bit32 res)).set n (res.setWidth 32)

def rotclRn : Regs :=
  let rn := s n <<< 1
  let rn := if anyBit (s .sr) shSrT then rn + 1#32 else rn
  (s.setT (anyBit (s n) 0x80000000#32)).set n rn

def div0u : Regs := s.set .sr (s .sr &&& ~~~ (shSrQ ||| shSrM ||| shSrT))

def div0sRmRn : Regs :=
  let q := s n &&& 0x80000000#32
  let m := s m &&& 0x80000000#32
  let newSr := s .sr &&& ~~~ (shSrQ ||| shSrM ||| shSrT)
  let newSr := if q ≠ 0#32 then newSr ||| shSrQ else newSr
  let newSr := if m ≠ 0#32 then newSr ||| shSrM else newSr
  let newSr := if m ^^^ q ≠ 0#32 then newSr ||| shSrT else newSr
  s.set .sr newSr

/-- `(sr & bit)? 1 : 0`. -/
def bitOf (b : Word) : Word := if anyBit (s .sr) b then 1#32 else 0#32

def div1RmRn : Regs :=
  let oldQ := s.bitOf shSrQ
  let mBit := s.bitOf shSrM
  let t := s.bitOf shSrT
  let op1 := s m
  let op2 := s n
  let q := op2 >>> 31
  let op2_64 := ((op2 <<< 1) + t).setWidth 64
  let op2_64 := if oldQ = mBit then op2_64 - op1.setWidth 64 else op2_64 + op1.setWidth 64
  let q := q ^^^ (mBit ^^^ ((op2_64 >>> 32) &&& 1#64).setWidth 32)
  let t := 1#32 - (q ^^^ mBit)
  let sr := s .sr &&& ~~~ (shSrQ ||| shSrT)
  let sr := if q ≠ 0#32 then sr ||| shSrQ else sr
  let sr := if t ≠ 0#32 then sr ||| shSrT else sr
  (s.set .sr sr).set n (op2_64.setWidth 32)

end Regs

/-! ## Programs -/

inductive AluInstr where
  | mov (m n : BitVec 4)
  | xor (m n : BitVec 4)
  | addc (m n : BitVec 4)
  | subc (m n : BitVec 4)
  | rotcl (n : BitVec 4)
  | div0u
  | div0s (m n : BitVec 4)
  | div1 (m n : BitVec 4)
  deriving DecidableEq

/-- `ic->f(cpu, ic)`. -/
def AluInstr.exec (s : Regs) : AluInstr → Regs
  | mov m n => s.movRmRn (.r m) (.r n)
  | xor m n => s.xorRmRn (.r m) (.r n)
  | addc m n => s.addcRmRn (.r m) (.r n)
  | subc m n => s.subcRmRn (.r m) (.r n)
  | rotcl n => s.rotclRn (.r n)
  | div0u => s.div0u
  | div0s m n => s.div0sRmRn (.r m) (.r n)
  | div1 m n => s.div1RmRn (.r m) (.r n)

def execAll (prog : List AluInstr) (s : Regs) : Regs := prog.foldl AluInstr.exec s

/-- What to_be_translated() makes of an instruction word. -/
def translateAlu (iword : BitVec 16) : Option AluInstr :=
  let r8 := iword.extractLsb' 8 4
  let r4 := iword.extractLsb' 4 4
  let lo4 := iword.extractLsb' 0 4
  let lo8 := iword.extractLsb' 0 8
  match iword.extractLsb' 12 4 with
  | 0x0#4 => if iword = 0x0019#16 then some .div0u else none
  | 0x2#4 =>
    match lo4 with
    | 0x7#4 => some (.div0s r4 r8)
    | 0xa#4 => some (.xor r4 r8)
    | _ => none
  | 0x3#4 =>
    match lo4 with
    | 0x4#4 => some (.div1 r4 r8)
    | 0xa#4 => some (.subc r4 r8)
    | 0xe#4 => some (.addc r4 r8)
    | _ => none
  | 0x4#4 => if lo8 = 0x24#8 then some (.rotcl r8) else none
  | 0x6#4 => if lo4 = 0x3#4 then some (.mov r4 r8) else none
  | _ => none

def AluInstr.iword : AluInstr → BitVec 16
  | mov m n => 0x6#4 ++ n ++ m ++ 0x3#4
  | xor m n => 0x2#4 ++ n ++ m ++ 0xa#4
  | addc m n => 0x3#4 ++ n ++ m ++ 0xe#4
  | subc m n => 0x3#4 ++ n ++ m ++ 0xa#4
  | rotcl n => 0x4#4 ++ n ++ 0x24#8
  | div0u => 0x0019#16
  | div0s m n => 0x2#4 ++ n ++ m ++ 0x7#4
  | div1 m n => 0x3#4 ++ n ++ m ++ 0x4#4

theorem translateAlu_iword (i : AluInstr) : translateAlu i.iword = some i := by
  cases i <;> decide +kernel +revert

def execWords (iwords : List (BitVec 16)) (s : Regs) : Option Regs := (iwords.mapM translateAlu).map (execAll · s)

theorem execWords_iword (prog : List AluInstr) (s : Regs) :
    execWords (prog.map AluInstr.iword) s = some (execAll prog s) := by
  have htranslate : (prog.map AluInstr.iword).mapM translateAlu = some prog := by
    induction prog with
    | nil => rfl
    | cons i prog ih =>
      rw [List.map_cons, List.mapM_cons, translateAlu_iword, ih]
      rfl
  rw [execWords, htranslate]
  rfl

end Gxemul.Sh
