import Gxemul.Lib.Division
import Gxemul.Mips.Multiply

/- Division on MIPS (div, divu, ddiv and ddivu in `src/cpus/cpu_mips_instr.c`).

   The quotient is kept in `lo` and the remainder in `hi`. A division that the host
   would trap on has results of its own. -/
namespace Gxemul.Mips

open Lib

/-- `arg[0]` points to `rs` and `arg[1]` to `rt`. -/
inductive DivOp where
  | div | divu | ddiv | ddivu

namespace MultMachine
variable (conf : LsConf) (rs rt : RegName) (s : MultMachine)

/-- `reg(ic->arg[n])`. -/
def operand (r : RegName) : Reg := regRead conf.cpuType.is32bit (s.machine.regs r)

def div : Except DivisionTrap MultMachine := do
  let a := (s.operand conf rs).setWidth 32
  let b := (s.operand conf rt).setWidth 32
  let (res, rem) ←
    if b = 0#32 then pure (0#32, a)
    else if a = 0x80000000#32 ∧ b = -1#32 then pure (0#32, 0#32)
    else do
      let res ← hostDiv true a b
      pure (res, a - b * res)
  return { s with lo := res.signExtend 64, hi := rem.signExtend 64 }

def divu : Except DivisionTrap MultMachine := do
  let a := (s.operand conf rs).setWidth 32
  let b := (s.operand conf rt).setWidth 32
  let (res, rem) ←
    if b = 0#32 then pure (0#32, a)
    else do
      let res ← hostDiv false a b
      pure (res, a - b * res)
  return { s with lo := res.signExtend 64, hi := rem.signExtend 64 }

def ddiv : Except DivisionTrap MultMachine := do
  let a := s.operand conf rs
  let b := s.operand conf rt
  let res ←
    if b = 0#64 then pure 0#64
    else if a = 0x8000000000000000#64 ∧ b = -1#64 then pure 0#64
    else hostDiv true a b
  let rem := a - b * res
  return { s with lo := res, hi := rem }

def ddivu : Except DivisionTrap MultMachine := do
  let a := s.operand conf rs
  let b := s.operand conf rt
  let res ← if b = 0#64 then pure 0#64 else hostDiv false a b
  let rem := a - b * res
  return { s with lo := res, hi := rem }

/-- A word that has been sign-extended into `hi` or `lo`. -/
def Quotient32 (signed : Bool) (a b : BitVec 32) (s' : MultMachine) : Prop :=
  ∃ q r : BitVec 32, s'.lo = q.signExtend 64 ∧ s'.hi = r.signExtend 64 ∧ Lib.Divides signed a b q r

def Holds (op : DivOp) (s' : MultMachine) : Prop :=
  let a := s.operand conf rs
  let b := s.operand conf rt
  let a32 := a.setWidth 32
  let b32 := b.setWidth 32
  match op with
  | .div => b32 ≠ 0#32 → Lib.Representable true a32 b32 → Quotient32 true a32 b32 s'
  | .divu => b32 ≠ 0#32 → Quotient32 false a32 b32 s'
  | .ddiv => b ≠ 0#64 → Lib.Representable true a b → Lib.Divides true a b s'.lo s'.hi
  | .ddivu => b ≠ 0#64 → Lib.Divides false a b s'.lo s'.hi

def divide : DivOp → Except DivisionTrap MultMachine
  | .div => s.div conf rs rt
  | .divu => s.divu conf rs rt
  | .ddiv => s.ddiv conf rs rt
  | .ddivu => s.ddivu conf rs rt

theorem divide_holds (op : DivOp) : ∃ s', s.divide conf rs rt op = .ok s' ∧ s.Holds conf rs rt op s' := by
  cases op with
  | div =>
    change ∃ s', s.div conf rs rt = .ok s' ∧ _
    unfold div Holds
    dsimp only
    generalize (s.operand conf rs).setWidth 32 = a
    generalize (s.operand conf rt).setWidth 32 = b
    by_cases hb : b = 0#32
    · rw [if_pos hb]
      exact ⟨_, rfl, fun h => absurd hb h⟩
    by_cases hover : a = 0x80000000#32 ∧ b = -1#32
    · rw [if_neg hb, if_pos hover]
      exact ⟨_, rfl, fun _ h => absurd ⟨rfl, hover⟩ h⟩
    · obtain ⟨q, hq, hdiv⟩ := @hostDiv_ok 32 a b true hb fun h => hover h.2
      rw [if_neg hb, if_neg hover, hq]
      exact ⟨_, rfl, fun _ _ => ⟨q, _, rfl, rfl, hdiv⟩⟩
  | divu =>
    change ∃ s', s.divu conf rs rt = .ok s' ∧ _
    unfold divu Holds
    dsimp only
    generalize (s.operand conf rs).setWidth 32 = a
    generalize (s.operand conf rt).setWidth 32 = b
    by_cases hb : b = 0#32
    · rw [if_pos hb]
      exact ⟨_, rfl, fun h => absurd hb h⟩
    · obtain ⟨q, hq, hdiv⟩ := @hostDiv_ok 32 a b false hb fun h => Bool.false_ne_true h.1
      rw [if_neg hb, hq]
      exact ⟨_, rfl, fun _ => ⟨q, _, rfl, rfl, hdiv⟩⟩
  | ddiv =>
    change ∃ s', s.ddiv conf rs rt = .ok s' ∧ _
    unfold ddiv Holds
    generalize s.operand conf rs = a
    generalize s.operand conf rt = b
    by_cases hb : b = 0#64
    · rw [if_pos hb]
      exact ⟨_, rfl, fun h => absurd hb h⟩
    by_cases hover : a = 0x8000000000000000#64 ∧ b = -1#64
    · rw [if_neg hb, if_pos hover]
      exact ⟨_, rfl, fun _ h => absurd ⟨rfl, hover⟩ h⟩
    · obtain ⟨q, hq, hdiv⟩ := @hostDiv_ok 64 a b true hb fun h => hover h.2
      rw [if_neg hb, if_neg hover, hq]
      exact ⟨_, rfl, fun _ _ => hdiv⟩
  | ddivu =>
    change ∃ s', s.ddivu conf rs rt = .ok s' ∧ _
    unfold ddivu Holds
    generalize s.operand conf rs = a
    generalize s.operand conf rt = b
    by_cases hb : b = 0#64
    · rw [if_pos hb]
      exact ⟨_, rfl, fun h => absurd hb h⟩
    · obtain ⟨q, hq, hdiv⟩ := @hostDiv_ok 64 a b false hb fun h => Bool.false_ne_true h.1
      rw [if_neg hb, hq]
      exact ⟨_, rfl, fun _ => hdiv⟩

end MultMachine

end Gxemul.Mips
