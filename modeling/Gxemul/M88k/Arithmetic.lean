import Gxemul.Lib.CarryChain
import Gxemul.M88k.Cpu
import Gxemul.Lib.Division

/- Additions and subtractions with a carry out on M88K (`src/cpus/cpu_m88k_instr.c`).

   A subtraction adds the complement of the second source register. -/
namespace Gxemul.M88k

inductive CarryOp where
  | adduCo | adduCio | subuCo | subuCio
  deriving DecidableEq

structure CarryInstr where
  op : CarryOp
  d : BitVec 5
  s1 : BitVec 5
  s2 : BitVec 5

namespace M88kCpu
variable (c : M88kCpu) (d s1 s2 : RegPtr)

/-- `PSR & M88K_PSR_C`. -/
def carry : Bool := c.cr crPsr &&& psrC != 0#32

def setCarry (a : BitVec 64) : M88kCpu :=
  let c := c.setCr crPsr (c.cr crPsr &&& ~~~ psrC)
  if (a >>> 32) &&& 1#64 ≠ 0#64 then c.setCr crPsr (c.cr crPsr ||| psrC) else c

/-- `X(addu_co)`. -/
def adduCo : M88kCpu :=
  let a := (c.regs s1).setWidth 64
  let b := (c.regs s2).setWidth 64
  let a := a + b
  (c.set d (a.setWidth 32)).setCarry a

/-- `X(addu_cio)`. The destination is not the PSR. -/
def adduCio : M88kCpu :=
  let a := (c.regs s1).setWidth 64
  let b := (c.regs s2).setWidth 64
  let a := a + b
  let a := if c.carry then a + 1#64 else a
  (c.set d (a.setWidth 32)).setCarry a

/-- `X(subu_cio)`. -/
def subuCio : M88kCpu :=
  let a := (c.regs s1).setWidth 64
  let b := (c.regs s2 ^^^ 0xffffffff#32).setWidth 64
  let a := a + b
  let a := if c.carry then a + 1#64 else a
  (c.set d (a.setWidth 32)).setCarry a

/-- `X(subu_co)`. -/
def subuCo : M88kCpu :=
  let a := (c.regs s1).setWidth 64
  let b := (c.regs s2 ^^^ 0xffffffff#32).setWidth 64
  let a := a + (b + 1#64)
  (c.set d (a.setWidth 32)).setCarry a

end M88kCpu

/-- `&cpu->cd.m88k.r[n]`. -/
def srcPtr (n : BitVec 5) : RegPtr := .r n.toNat

/-- "If there is a side-effect, we still have to run the instruction, so replace the destination register
with a scratch register." -/
def scratchPtr (d : BitVec 5) : RegPtr := if d = 0#5 then .zeroScratch else .r d.toNat

namespace CarryInstr
variable (i : CarryInstr) (c : M88kCpu)

def execute : M88kCpu :=
  match i.op with
  | .adduCo => c.adduCo (scratchPtr i.d) (srcPtr i.s1) (srcPtr i.s2)
  | .adduCio => c.adduCio (scratchPtr i.d) (srcPtr i.s1) (srcPtr i.s2)
  | .subuCo => c.subuCo (scratchPtr i.d) (srcPtr i.s1) (srcPtr i.s2)
  | .subuCio => c.subuCio (scratchPtr i.d) (srcPtr i.s1) (srcPtr i.s2)

/-! ## The sum of the architecture -/

def subtracts : Bool := i.op == .subuCo || i.op == .subuCio

def extended : Bool := i.op == .adduCio || i.op == .subuCio

def carryIn : Bool := if i.extended then c.carry else i.subtracts

def right : Word := if i.subtracts then ~~~ c.regs (srcPtr i.s2) else c.regs (srcPtr i.s2)

/-! ## One instruction -/

section
variable {c}

theorem scratchPtr_ne (d : BitVec 5) (n : Nat) : scratchPtr d ≠ .cr n := by
  unfold scratchPtr
  split <;> exact RegPtr.noConfusion

theorem regs_setCarry (a : BitVec 64) {p : RegPtr} (hp : p ≠ .cr crPsr) : (c.setCarry a).regs p = c.regs p := by
  unfold M88kCpu.setCarry M88kCpu.setCr
  split
  · rw [M88kCpu.regs_set_of_ne hp, M88kCpu.regs_set_of_ne hp]
  · rw [M88kCpu.regs_set_of_ne hp]

theorem carry_setCarry (a : BitVec 64) : (c.setCarry a).carry = a.getLsbD 32 := by
  have hbit : (a >>> 32) &&& 1#64 ≠ 0#64 ↔ a.getLsbD 32 = true := by
    rw [Ne, ← BitVec.toNat_inj, BitVec.toNat_and, BitVec.toNat_ushiftRight]
    change ¬ (a.toNat >>> 32 &&& 1 = 0) ↔ a.toNat.testBit 32 = true
    rw [Nat.and_one_is_mod, Nat.testBit_eq_decide_div_mod_eq, decide_eq_true_eq, Nat.shiftRight_eq_div_pow]
    omega
  have hclear (x : Word) : x &&& ~~~ psrC &&& psrC = 0#32 := by
    apply BitVec.eq_of_getLsbD_eq
    intro j _
    cases psrC.getLsbD j <;> simp
  have hset (x : Word) : (x ||| psrC) &&& psrC ≠ 0#32 := by
    intro hzero
    have h28 := congrArg (·.getLsbD 28) hzero
    simp [psrC] at h28
  unfold M88kCpu.setCarry M88kCpu.carry M88kCpu.cr M88kCpu.setCr
  by_cases ha : a.getLsbD 32 = true
  · rw [if_pos (hbit.mpr ha), M88kCpu.regs_set_same, ha]
    exact bne_iff_ne.mpr (hset _)
  · rw [if_neg (mt hbit.mp ha), M88kCpu.regs_set_same, Bool.eq_false_iff.mpr ha]
    exact bne_eq_false_iff_eq.mpr (hclear _)

theorem finish {a : BitVec 64} (ha : a.toNat < 2 ^ 33) (d : BitVec 5) :
    (((c.set (scratchPtr d) (a.setWidth 32)).setCarry a).regs (scratchPtr d)).toNat +
        2 ^ 32 * ((c.set (scratchPtr d) (a.setWidth 32)).setCarry a).carry.toNat = a.toNat := by
  rw [regs_setCarry a (scratchPtr_ne d crPsr), M88kCpu.regs_set_same, carry_setCarry, BitVec.toNat_setWidth,
    BitVec.getLsbD, Nat.testBit_eq_decide_div_mod_eq]
  by_cases hge : 2 ^ 32 ≤ a.toNat
  · rw [decide_eq_true (by omega), Bool.toNat_true]
    omega
  · rw [decide_eq_false (by omega), Bool.toNat_false]
    omega

theorem toNat_wide (x : Word) : (x.setWidth 64 : BitVec 64).toNat = x.toNat := BitVec.toNat_setWidth_of_le (by decide)

theorem xor_ones (x : Word) : x ^^^ 0xffffffff#32 = ~~~ x := BitVec.xor_allOnes

theorem toNat_sum (x y : Word) (ca : Bool) :
    (if ca then x.setWidth 64 + y.setWidth 64 + 1#64 else x.setWidth 64 + y.setWidth 64 : BitVec 64).toNat =
      x.toNat + y.toNat + ca.toNat := by
  have hsum : (x.setWidth 64 + y.setWidth 64 : BitVec 64).toNat = x.toNat + y.toNat := by
    rw [BitVec.toNat_add, toNat_wide, toNat_wide]
    exact Nat.mod_eq_of_lt (by omega)
  cases ca with
  | false => exact hsum
  | true =>
    rw [if_pos rfl, BitVec.toNat_add, hsum, Bool.toNat_true, BitVec.toNat_ofNat]
    omega

theorem adds (i : CarryInstr) (c : M88kCpu) :
    ((i.execute c).regs (scratchPtr i.d)).toNat + 2 ^ 32 * (i.execute c).carry.toNat =
      (c.regs (srcPtr i.s1)).toNat + (i.right c).toNat + (i.carryIn c).toNat := by
  have hsum := toNat_sum (c.regs (srcPtr i.s1)) (i.right c) (i.carryIn c)
  have hexec : i.execute c =
      (c.set (scratchPtr i.d) ((if i.carryIn c then (c.regs (srcPtr i.s1)).setWidth 64 + (i.right c).setWidth 64 + 1#64
        else (c.regs (srcPtr i.s1)).setWidth 64 + (i.right c).setWidth 64 : BitVec 64).setWidth 32)).setCarry
        (if i.carryIn c then (c.regs (srcPtr i.s1)).setWidth 64 + (i.right c).setWidth 64 + 1#64
          else (c.regs (srcPtr i.s1)).setWidth 64 + (i.right c).setWidth 64) := by
    obtain ⟨op, d, s1, s2⟩ := i
    cases op with
    | adduCo => rfl
    | adduCio => rfl
    | subuCo =>
      change c.subuCo _ _ _ = _
      unfold M88kCpu.subuCo
      dsimp only
      rw [xor_ones, ← BitVec.add_assoc]
      rfl
    | subuCio =>
      change c.subuCio _ _ _ = _
      unfold M88kCpu.subuCio
      rw [xor_ones]
      rfl
  rw [← hsum, hexec]
  apply finish
  have hca := Bool.toNat_le (i.carryIn c)
  omega

theorem regs_execute (i : CarryInstr) (c : M88kCpu) {p : RegPtr} (hd : p ≠ scratchPtr i.d) (hp : p ≠ .cr crPsr) :
    (i.execute c).regs p = c.regs p := by
  obtain ⟨op, d, s1, s2⟩ := i
  cases op with
  | adduCo => exact (regs_setCarry _ hp).trans (M88kCpu.regs_set_of_ne hd)
  | adduCio => exact (regs_setCarry _ hp).trans (M88kCpu.regs_set_of_ne hd)
  | subuCo => exact (regs_setCarry _ hp).trans (M88kCpu.regs_set_of_ne hd)
  | subuCio => exact (regs_setCarry _ hp).trans (M88kCpu.regs_set_of_ne hd)

end

end CarryInstr

/-! ## Chains -/

abbrev DataPtr := { p : RegPtr // p ≠ .cr crPsr }

/-- The functions with a carry out as a machine that adds words. The operand that a subtraction complements
is the second one. -/
def m88kAdder : Lib.Adder M88kCpu CarryInstr 32 where
  step i c := i.execute c
  left i c := i.right c
  right i c := c.regs (srcPtr i.s1)
  carryIn i c := i.carryIn c
  result i c := (i.execute c).regs (scratchPtr i.d)
  carry c := c.carry
  adds i c := by
    rw [i.adds c, Nat.add_comm (c.regs (srcPtr i.s1)).toNat]

def m88kRegisters : m88kAdder.Registers DataPtr where
  read c p := c.regs p
  dst i := ⟨scratchPtr i.d, CarryInstr.scratchPtr_ne i.d crPsr⟩
  src i := [⟨srcPtr i.s1, RegPtr.noConfusion⟩, ⟨srcPtr i.s2, RegPtr.noConfusion⟩]
  result_eq _ _ := rfl
  other i c p hp := i.regs_execute c (fun heq => hp (Subtype.ext heq)) p.2

namespace CarryInstr

theorem extended_carry {i : CarryInstr} (hi : i.extended = true) : m88kAdder.Extended i := by
  intro c
  exact if_pos hi

theorem carryIn_first {i : CarryInstr} (hi : i.extended = false) (c : M88kCpu) :
    m88kAdder.carryIn i c = i.subtracts :=
  if_neg (by rw [hi]; exact Bool.false_ne_true)

end CarryInstr

end Gxemul.M88k

/- Division on M88K (divu and div with a register or an immediate value,
   `src/cpus/cpu_m88k_instr.c`).

   With the floating point unit disabled, all of them are exceptions. An instruction with
   an immediate value and `d` = r0 is translated to a nop. -/
namespace Gxemul.M88k
open Lib (DivisionTrap hostDiv)

/-- What an instruction ends with: the next one, or a call of `m88k_exception()`. -/
inductive Outcome where
  | done (c : M88kCpu)
  | raised (c : M88kCpu) (vector : Nat)

def Outcome.cpu : Outcome → M88kCpu
  | .done c => c
  | .raised c vector => c.exception vector false

def Outcome.vector : Outcome → Option Nat
  | .done _ => none
  | .raised _ vector => some vector

namespace M88kCpu
variable (c : M88kCpu) (d s1 s2 : RegPtr) (imm : Word) (lowPc : Nat)

def fpuDisabled : Bool := c.cr crPsr &&& psrSfd1 != 0#32

def unimplementedUnit : Outcome := .raised { c.synchPc lowPc with fpecr := fpecrFunimp } exceptionSfu1Precise

def illegalIntegerDivide : Outcome := .raised (c.synchPc lowPc) exceptionIllegalIntegerDivide

/-- `X(divu_imm)`. -/
def divuImm : Except DivisionTrap Outcome :=
  if c.fpuDisabled then return c.unimplementedUnit lowPc
  else if imm = 0#32 then return c.illegalIntegerDivide lowPc
  else do
    let res ← hostDiv false (c.regs s1) imm
    return .done (c.set d res)

/-- `X(div_imm)`. -/
def divImm : Except DivisionTrap Outcome :=
  if c.fpuDisabled then return c.unimplementedUnit lowPc
  else if imm = 0#32 then return c.illegalIntegerDivide lowPc
  else do
    let res ← hostDiv true (c.regs s1) imm
    return .done (c.set d res)

/-- `X(divu)`. -/
def divu : Except DivisionTrap Outcome :=
  if c.fpuDisabled then return c.unimplementedUnit lowPc
  else if c.regs s2 = 0#32 then return c.illegalIntegerDivide lowPc
  else do
    let res ← hostDiv false (c.regs s1) (c.regs s2)
    return .done (c.set d res)

/-- `X(div)`. -/
def div : Except DivisionTrap Outcome :=
  if c.fpuDisabled then return c.unimplementedUnit lowPc
  else if c.regs s2 = 0#32 then return c.illegalIntegerDivide lowPc
  else do
    let res ← hostDiv true (c.regs s1) (c.regs s2)
    return .done (c.set d res)

end M88kCpu

inductive DivInstr where
  | imm (signed : Bool) (d s1 : BitVec 5) (imm16 : BitVec 16)
  | reg (signed : Bool) (d s1 s2 : BitVec 5)

namespace DivInstr
variable (i : DivInstr) (lowPc : Nat) (c : M88kCpu)

def signed : DivInstr → Bool
  | imm signed _ _ _ | reg signed _ _ _ => signed

def d : DivInstr → BitVec 5
  | imm _ d _ _ | reg _ d _ _ => d

def s1 : DivInstr → BitVec 5
  | imm _ _ s1 _ | reg _ _ s1 _ => s1

def dividend : Word := c.regs (srcPtr i.s1)

def divisor : DivInstr → Word
  | imm _ _ _ imm16 => imm16.setWidth 32
  | reg _ _ _ s2 => c.regs (srcPtr s2)

def execute : DivInstr → Except DivisionTrap Outcome
  | imm signed d s1 imm16 =>
    if d = 0#5 then return .done c
    else if signed then c.divImm (srcPtr d) (srcPtr s1) (imm16.setWidth 32) lowPc
    else c.divuImm (srcPtr d) (srcPtr s1) (imm16.setWidth 32) lowPc
  | reg signed d s1 s2 =>
    if signed then c.div (scratchPtr d) (srcPtr s1) (srcPtr s2) lowPc
    else c.divu (scratchPtr d) (srcPtr s1) (srcPtr s2) lowPc

/-- The quotient is in the register, and a divisor of zero is an exception that leaves the register as it is. -/
def Holds (o : Outcome) : Prop :=
  if i.divisor c = 0#32 then
    o = c.illegalIntegerDivide lowPc ∧ o.cpu.regs (srcPtr i.d) = c.regs (srcPtr i.d)
  else Lib.Representable i.signed (i.dividend c) (i.divisor c) →
    ∃ c' q r, o = .done c' ∧ (i.d ≠ 0#5 → c'.regs (srcPtr i.d) = q) ∧
      Lib.Divides i.signed (i.dividend c) (i.divisor c) q r

def isNop : DivInstr → Bool
  | imm _ d _ _ => d == 0#5
  | reg _ _ _ _ => false

def Meets : Prop :=
  if i.isNop then i.divisor c ≠ 0#32
  else if c.fpuDisabled then
    i.divisor c ≠ 0#32 ∧ ¬ Lib.Representable i.signed (i.dividend c) (i.divisor c)
  else i.divisor c = 0#32 ∨ Lib.Representable i.signed (i.dividend c) (i.divisor c)

/-! ## The four functions are one -/

section
variable {i c}

theorem scratchPtr_eq {d : BitVec 5} (h : d ≠ 0#5) : scratchPtr d = srcPtr d := if_neg h

theorem execute_nop (h : i.isNop = true) : i.execute lowPc c = .ok (.done c) ∧ i.d = 0#5 := by
  cases i with
  | imm signed d s1 imm16 =>
    have hd : d = 0#5 := eq_of_beq h
    exact ⟨if_pos hd, hd⟩
  | reg signed d s1 s2 => exact absurd h Bool.false_ne_true

theorem execute_eq (h : i.isNop = false) : i.execute lowPc c =
    if c.fpuDisabled then .ok (c.unimplementedUnit lowPc)
    else if i.divisor c = 0#32 then .ok (c.illegalIntegerDivide lowPc)
    else do
      let res ← hostDiv i.signed (i.dividend c) (i.divisor c)
      return .done (c.set (scratchPtr i.d) res) := by
  cases i with
  | imm signed d s1 imm16 =>
    have hd : d ≠ 0#5 := ne_of_beq_false h
    have hptr : scratchPtr (imm signed d s1 imm16).d = srcPtr d := scratchPtr_eq hd
    rw [hptr]
    unfold execute
    dsimp only
    rw [if_neg hd]
    cases signed <;> rfl
  | reg signed d s1 s2 => cases signed <;> rfl

theorem holds_iff_meets : (∃ o, i.execute lowPc c = .ok o ∧ i.Holds lowPc c o) ↔ i.Meets c := by
  have hquot (hb : i.divisor c ≠ 0#32) (hrep : Lib.Representable i.signed (i.dividend c) (i.divisor c)) :=
    Lib.hostDiv_ok hb hrep
  unfold Holds Meets
  cases hnop : i.isNop with
  | true =>
    obtain ⟨hexec, hd⟩ := execute_nop lowPc hnop
    rw [hexec, if_pos rfl]
    constructor
    · rintro ⟨o, ho, hholds⟩ hb
      rw [if_pos hb] at hholds
      cases ho
      exact Outcome.noConfusion hholds.1
    · intro hb
      refine ⟨_, rfl, ?_⟩
      rw [if_neg hb]
      intro hrep
      obtain ⟨q, -, hdiv⟩ := hquot hb hrep
      exact ⟨c, q, _, rfl, fun hne => absurd hd hne, hdiv⟩
  | false =>
    rw [execute_eq lowPc hnop, if_neg Bool.false_ne_true]
    -- The unit is looked at before the divisor.
    cases hfpu : c.fpuDisabled with
    | true =>
      rw [if_pos rfl, if_pos rfl]
      constructor
      · rintro ⟨o, ho, hholds⟩
        cases ho
        by_cases hb : i.divisor c = 0#32
        · rw [if_pos hb] at hholds
          have hvector : exceptionSfu1Precise = exceptionIllegalIntegerDivide :=
            Option.some.inj (congrArg Outcome.vector hholds.1)
          exact absurd hvector (by decide)
        · rw [if_neg hb] at hholds
          refine ⟨hb, fun hrep => ?_⟩
          obtain ⟨c', q, r, heq, -⟩ := hholds hrep
          exact Outcome.noConfusion heq
      · rintro ⟨hb, hrep⟩
        refine ⟨_, rfl, ?_⟩
        rw [if_neg hb]
        exact fun h => absurd h hrep
    | false =>
      rw [if_neg Bool.false_ne_true, if_neg Bool.false_ne_true]
      by_cases hb : i.divisor c = 0#32
      · rw [if_pos hb]
        refine ⟨fun _ => Or.inl hb, fun _ => ⟨_, rfl, ?_⟩⟩
        rw [if_pos hb]
        exact ⟨rfl, M88kCpu.regs_exception⟩
      rw [if_neg hb]
      by_cases hrep : Lib.Representable i.signed (i.dividend c) (i.divisor c)
      · obtain ⟨q, hq, hdiv⟩ := hquot hb hrep
        rw [hq]
        refine ⟨fun _ => Or.inr hrep, fun _ => ⟨_, rfl, ?_⟩⟩
        rw [if_neg hb]
        refine fun _ => ⟨_, q, _, rfl, fun hd => ?_, hdiv⟩
        rw [scratchPtr_eq hd]
        exact M88kCpu.regs_set_same
      · have htrap : hostDiv i.signed (i.dividend c) (i.divisor c) = .error .overflow := by
          obtain ⟨hsigned, hover⟩ := not_not.mp hrep
          rw [hsigned]
          exact Lib.hostDiv_overflow hb hover
        rw [htrap]
        constructor
        · rintro ⟨o, ho, -⟩
          cases ho
        · rintro (hzero | h)
          · exact absurd hzero hb
          · exact absurd h hrep

end

end DivInstr

end Gxemul.M88k
