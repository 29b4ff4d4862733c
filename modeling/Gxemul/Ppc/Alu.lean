import Mathlib.Logic.Function.Basic
import Mathlib.Data.BitVec
import Gxemul.Lib.Division

/- An emulated PowerPC CPU: its registers and ppc_exception() (`src/include/cpu_ppc.h`,
   `src/cpus/cpu_ppc.c`).

   Every special purpose register is a `uint64_t`, on the 32-bit CPUs too. There
   the instructions' `reg(x)` is the low half of a register. -/
namespace Gxemul.Ppc

/-- A register (`uint64_t`). -/
abbrev Reg := BitVec 64

abbrev SprNr := BitVec 10

def sprXer : SprNr := 0x001#10
def sprDec : SprNr := 0x016#10
def sprSrr0 : SprNr := 0x01a#10
def sprSrr1 : SprNr := 0x01b#10
def sprTbl : SprNr := 0x11c#10
def sprTbu : SprNr := 0x11d#10

def ppcMsrEe : Reg := 0x8000#64
def ppcMsrPr : Reg := 0x4000#64
def ppcMsrIp : Reg := 0x40#64
def ppcMsrRi : Reg := 0x2#64

def ppcXerSo : Reg := 0x80000000#64

def ppcExceptionEi : Nat := 0x5
def ppcExceptionDec : Nat := 0x9

/-- The part of `struct ppc_cpu` that is used here, with `cpu->pc`,
`cpu->is_32bit`, `cpu->byte_order` and the type's flag `PPC_NO_DEC`. -/
structure PpcCpu where
  is32bit : Bool
  noDec : Bool
  bigEndian : Bool
  pc : Reg
  irqAsserted : Bool
  decIntrPending : Bool
  cr : BitVec 32
  gpr : BitVec 5 → Reg
  msr : Reg
  spr : SprNr → Reg
  llAddr : Reg
  llBit : Bool

namespace PpcCpu
variable (c : PpcCpu)

/-- All registers zero, as after `memset()`. -/
def zero (is32bit noDec : Bool) : PpcCpu where
  is32bit := is32bit
  noDec := noDec
  bigEndian := true
  pc := 0#64
  irqAsserted := false
  decIntrPending := false
  cr := 0#32
  gpr := fun _ => 0#64
  msr := 0#64
  spr := fun _ => 0#64
  llAddr := 0#64
  llBit := false

def setSpr (n : SprNr) (v : Reg) : PpcCpu := { c with spr := Function.update c.spr n v }

/-- `reg(x) = v` for a general purpose register. -/
def setReg (n : BitVec 5) (v : Reg) : PpcCpu :=
  let value := if c.is32bit then (c.gpr n).extractLsb' 32 32 ++ v.setWidth 32 else v
  { c with gpr := Function.update c.gpr n value }

/-- `ppc_exception()`, up to the call of `pc_to_pointers()`. -/
def exception (nr : Nat) : PpcCpu :=
  let srr1 := if 0x10 ≤ nr ∧ nr ≤ 0x13 then c.msr &&& 0xffff#64 ||| (c.cr &&& 0xf0000000#32).setWidth 64
    else c.msr &&& 0x87c0ffff#64
  let s := (c.setSpr sprSrr0 c.pc).setSpr sprSrr1 srr1
  let msr := c.msr &&& ~~~(ppcMsrEe ||| ppcMsrRi ||| ppcMsrPr)
  let pc := BitVec.ofNat 64 (nr * 0x100)
  { s with
    msr := msr
    pc := if msr &&& ppcMsrIp ≠ 0#64 then pc + 0xfff00000#64 else pc }

section
variable {n : SprNr} {r : BitVec 5} {v : Reg} {nr : Nat}

@[simp] theorem setSpr_same : (c.setSpr n v).spr n = v := Function.update_self ..

theorem setSpr_ne {n' : SprNr} (h : n' ≠ n) : (c.setSpr n v).spr n' = c.spr n' := Function.update_of_ne h ..

@[simp] theorem setSpr_decIntrPending : (c.setSpr n v).decIntrPending = c.decIntrPending := rfl

@[simp] theorem setReg_spr : (c.setReg r v).spr = c.spr := rfl

@[simp] theorem setReg_decIntrPending : (c.setReg r v).decIntrPending = c.decIntrPending := rfl

@[simp] theorem exception_decIntrPending : (c.exception nr).decIntrPending = c.decIntrPending := rfl

theorem exception_spr (h0 : n ≠ sprSrr0) (h1 : n ≠ sprSrr1) : (c.exception nr).spr n = c.spr n :=
  (setSpr_ne _ h1).trans (setSpr_ne _ h0)

end

end PpcCpu

end Gxemul.Ppc

/- What the integer instructions of PowerPC share (`src/cpus/cpu_ppc_instr.c`): their
   registers, CR0 and the carry.

   The source is compiled once for 32-bit mode and once for 64-bit mode. In 32-bit mode
   `reg(x)` is a `uint32_t`, which is the low half of the register. -/
namespace Gxemul.Ppc

abbrev Word := BitVec 32

def ppcXerCa : Reg := 0x20000000#64

namespace PpcCpu
variable (c : PpcCpu)

/-- A value that has been assigned to a variable of type `MODE_uint_t`. -/
def modeUint (x : Reg) : Reg := if c.is32bit then (x.setWidth 32).setWidth 64 else x

/-- `reg(x)`. -/
def reg (n : BitVec 5) : Reg := c.modeUint (c.gpr n)

/-- `(uint32_t)reg(x)`. -/
def word (n : BitVec 5) : Word := (c.gpr n).setWidth 32

/-- `cpu->cd.ppc.gpr[n] = value`. -/
def setGpr (n : BitVec 5) (value : Reg) : PpcCpu := { c with gpr := Function.update c.gpr n value }

def ca : Bool := c.spr sprXer &&& ppcXerCa != 0#64

def clearCa : PpcCpu := c.setSpr sprXer (c.spr sprXer &&& ~~~ ppcXerCa)

def setCa : PpcCpu := c.setSpr sprXer (c.spr sprXer ||| ppcXerCa)

/-- `update_cr0()`. `cd.ppc.bits` is 64 on the CPUs with `is_32bit` clear. -/
def updateCr0 (value : Reg) : PpcCpu :=
  let i := if c.is32bit then (value.setWidth 32).toInt else value.toInt
  let cr0 : BitVec 32 := if i < 0 then 8#32 else if 0 < i then 4#32 else 2#32
  let cr0 := cr0 ||| ((c.spr sprXer >>> 31) &&& 1#64).setWidth 32
  { c with cr := c.cr &&& ~~~ (0xf#32 <<< 28) ||| cr0 <<< 28 }

/-- DOT0, DOT1 and DOT2, for an instruction that has written register `n`. -/
def dot (dot : Bool) (n : BitVec 5) : PpcCpu := if dot then c.updateCr0 (c.reg n) else c

/-! ## The parts of the CPU -/

section
variable {c} {n m : BitVec 5} {v : Reg} {d : Bool}

@[simp] theorem is32bit_setReg : (c.setReg n v).is32bit = c.is32bit := rfl

@[simp] theorem is32bit_setCa : c.setCa.is32bit = c.is32bit := rfl

@[simp] theorem is32bit_clearCa : c.clearCa.is32bit = c.is32bit := rfl

@[simp] theorem gpr_setCa : c.setCa.gpr = c.gpr := rfl

@[simp] theorem gpr_clearCa : c.clearCa.gpr = c.gpr := rfl

@[simp] theorem is32bit_dot : (c.dot d n).is32bit = c.is32bit := by
  cases d <;> rfl

@[simp] theorem gpr_dot : (c.dot d n).gpr = c.gpr := by
  cases d <;> rfl

@[simp] theorem spr_dot : (c.dot d n).spr = c.spr := by
  cases d <;> rfl

theorem setWidth_low (x : Reg) : ((x.setWidth 32).setWidth 64).setWidth 32 = x.setWidth 32 :=
  BitVec.setWidth_setWidth_of_le _ (by decide)

theorem setWidth_reg : (c.reg n).setWidth 32 = c.word n := by
  unfold reg modeUint
  split
  · exact setWidth_low _
  · rfl

theorem reg_of_32 (h : c.is32bit = true) : c.reg n = (c.word n).setWidth 64 := if_pos h

theorem word_setReg : (c.setReg n v).word m = if m = n then v.setWidth 32 else c.word m := by
  unfold word setReg
  dsimp only
  by_cases hm : m = n
  · subst hm
    rw [Function.update_self, if_pos rfl]
    split
    · apply BitVec.eq_of_toNat_eq
      rw [BitVec.toNat_setWidth, BitVec.toNat_append, Nat.or_mod_two_pow, Nat.shiftLeft_eq, Nat.mul_mod_left,
        Nat.zero_or, Nat.mod_eq_of_lt (BitVec.isLt _)]
    · rfl
  · rw [Function.update_of_ne hm, if_neg hm]

theorem word_congr {c' : PpcCpu} (h : c'.gpr = c.gpr) : c'.word n = c.word n := congrArg (fun g => (g n).setWidth 32) h

theorem ca_congr {c' : PpcCpu} (h : c'.spr = c.spr) : c'.ca = c.ca := by
  unfold ca
  rw [h]

@[simp] theorem ca_setReg : (c.setReg n v).ca = c.ca := ca_congr rfl

@[simp] theorem ca_setCa : c.setCa.ca = true := by
  unfold ca setCa
  rw [setSpr_same, bne_iff_ne]
  intro hzero
  have hbit := congrArg (·.getLsbD 29) hzero
  simp [ppcXerCa] at hbit

@[simp] theorem ca_clearCa : c.clearCa.ca = false := by
  unfold ca clearCa
  rw [setSpr_same, bne_eq_false_iff_eq]
  apply BitVec.eq_of_getLsbD_eq
  intro i _
  cases ppcXerCa.getLsbD i <;> simp

end

end PpcCpu

end Gxemul.Ppc

/- Division on PowerPC (divw and divwu in `src/cpus/cpu_ppc_instr.c`).

   A divisor of zero has the quotient 0. -/
namespace Gxemul.Ppc
open Lib (DivisionTrap hostDiv)

inductive DivOp where
  | divw | divwu

def DivOp.signed : DivOp → Bool
  | .divw => true
  | .divwu => false

namespace PpcCpu
variable (c : PpcCpu) (dot : Bool) (rt ra rb : BitVec 5)

/-- `X(divw)`. -/
def divw : Except DivisionTrap PpcCpu := do
  let a := c.word ra
  let b := c.word rb
  let sum ← if b = 0#32 then pure 0#32 else hostDiv true a b
  return (c.setReg rt (sum.setWidth 64)).dot dot rt

/-- `X(divwu)`. -/
def divwu : Except DivisionTrap PpcCpu := do
  let a := c.word ra
  let b := c.word rb
  let sum ← if b = 0#32 then pure 0#32 else hostDiv false a b
  return (c.setReg rt (sum.setWidth 64)).dot dot rt

def divide : DivOp → Except DivisionTrap PpcCpu
  | .divw => c.divw dot rt ra rb
  | .divwu => c.divwu dot rt ra rb

def Holds (op : DivOp) (c' : PpcCpu) : Prop :=
  c.word rb ≠ 0#32 → Lib.Representable op.signed (c.word ra) (c.word rb) →
    ∃ r, Lib.Divides op.signed (c.word ra) (c.word rb) (c'.word rt) r

section
variable {c}

theorem divide_eq (op : DivOp) : c.divide dot rt ra rb op = do
    let sum ← if c.word rb = 0#32 then pure 0#32 else hostDiv op.signed (c.word ra) (c.word rb)
    return (c.setReg rt (sum.setWidth 64)).dot dot rt := by
  cases op <;> rfl

theorem divide_holds {op : DivOp} (h : c.word rb = 0#32 ∨ Lib.Representable op.signed (c.word ra) (c.word rb)) :
    ∃ c', c.divide dot rt ra rb op = .ok c' ∧ c.Holds rt ra rb op c' := by
  rw [divide_eq]
  by_cases hb : c.word rb = 0#32
  · rw [if_pos hb]
    exact ⟨_, rfl, fun hne => absurd hb hne⟩
  · obtain ⟨q, hq, hdiv⟩ := Lib.hostDiv_ok hb (h.resolve_left hb)
    rw [if_neg hb, hq]
    refine ⟨_, rfl, fun _ _ => ⟨c.word ra - c.word rb * q, ?_⟩⟩
    rw [word_congr gpr_dot, word_setReg, if_pos rfl, BitVec.setWidth_setWidth_of_le _ (by decide), BitVec.setWidth_eq]
    exact hdiv

theorem divide_trap (h : Lib.Overflows (c.word ra) (c.word rb)) :
    c.divide dot rt ra rb .divw = .error .overflow := by
  have hb : c.word rb ≠ 0#32 := by
    rw [h.2]
    decide
  rw [divide_eq, if_neg hb]
  change (hostDiv true (c.word ra) (c.word rb) >>= fun sum => _) = _
  rw [Lib.hostDiv_overflow hb h]
  rfl

end

end PpcCpu

end Gxemul.Ppc
