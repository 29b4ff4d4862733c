import Gxemul.M88k.Arithmetic
import Gxemul.Ppc.Carry
import Gxemul.Mips.Divide
import Gxemul.Ppc.Alu
import Gxemul.Alpha.Instr
import Gxemul.Mips.Multiply

/- Arithmetic with numbers of several words on PowerPC and M88K.

   Both have an instruction that begins a chain and others that take the carry of the
   one before. On PowerPC the chain can also begin or go on with a constant operand. -/
namespace Gxemul

/-- Chains of carry instructions are exact on both machines, whatever their registers. -/
theorem carry_chains :
    Ppc.ppcRegisters.ExactChains Ppc.CarryInstr.extended Ppc.CarryInstr.subtracts (fun i s => s.1.word i.ra)
        (fun i s => i.other s.1) ∧
      M88k.m88kRegisters.ExactChains M88k.CarryInstr.extended M88k.CarryInstr.subtracts
        (fun i c => c.regs (M88k.srcPtr i.s2)) (fun i c => c.regs (M88k.srcPtr i.s1)) := by
  constructor
  · apply Lib.Adder.Registers.exactChains
    · intro i hi
      exact Ppc.CarryInstr.extended_carry hi
    · intro i hi s
      exact Ppc.CarryInstr.carryIn_first hi s
    · intro i s
      rfl
    · intro i s s' h
      cases i <;> exact h _ List.mem_cons_self
    · intro i s s' h
      cases i with
      | addic dot rt ra imm => rfl
      | subfic rt ra imm => rfl
      | addc rt ra rb => exact h rb (List.mem_cons_of_mem ra List.mem_cons_self)
      | adde dot rt ra rb => exact h rb (List.mem_cons_of_mem ra List.mem_cons_self)
      | addme dot rt ra => rfl
      | addze dot rt ra => rfl
      | subfc dot rt ra rb => exact h rb (List.mem_cons_of_mem ra List.mem_cons_self)
      | subfe dot rt ra rb => exact h rb (List.mem_cons_of_mem ra List.mem_cons_self)
      | subfme dot rt ra => rfl
      | subfze dot rt ra => rfl
  · apply Lib.Adder.Registers.exactChains
    · intro i hi
      exact M88k.CarryInstr.extended_carry hi
    · intro i hi c
      exact M88k.CarryInstr.carryIn_first hi c
    · intro i c
      rfl
    · intro i c c' h
      exact h _ (List.mem_cons_of_mem _ List.mem_cons_self)
    · intro i c c' h
      exact h _ List.mem_cons_self

end Gxemul

/- Division instructions on MIPS, PowerPC and M88K.

   The most negative number divided by -1 is a division that the host traps on. MIPS
   looks for it, PowerPC and M88K do not. -/
namespace Gxemul

inductive Division where
  | mips (op : Mips.DivOp) (conf : Mips.LsConf) (rs rt : Mips.RegName) (s : Mips.MultMachine)
  | ppc (op : Ppc.DivOp) (dot : Bool) (rt ra rb : BitVec 5) (c : Ppc.PpcCpu)
  | m88k (i : M88k.DivInstr) (lowPc : Nat) (c : M88k.M88kCpu)

namespace Division

def Divides : Division → Prop
  | mips op conf rs rt s => ∃ s', s.divide conf rs rt op = .ok s' ∧ s.Holds conf rs rt op s'
  | ppc op dot rt ra rb c => ∃ c', c.divide dot rt ra rb op = .ok c' ∧ c.Holds rt ra rb op c'
  | m88k i lowPc c => ∃ o, i.execute lowPc c = .ok o ∧ i.Holds lowPc c o

def Meets : Division → Prop
  | mips _ _ _ _ _ => True
  | ppc op _ _ ra rb c => Lib.Representable op.signed (c.word ra) (c.word rb)
  | m88k i _ c => i.Meets c

end Division

theorem division_divides_iff (e : Division) : e.Divides ↔ e.Meets := by
  cases e with
  | mips op conf rs rt s => exact iff_of_true (s.divide_holds conf rs rt op) trivial
  | ppc op dot rt ra rb c =>
    constructor
    · rintro ⟨c', hc', -⟩ ⟨hsigned, hover⟩
      cases op with
      | divw =>
        rw [Ppc.PpcCpu.divide_trap dot rt ra rb hover] at hc'
        cases hc'
      | divwu => exact Bool.false_ne_true hsigned
    · intro hrep
      exact Ppc.PpcCpu.divide_holds dot rt ra rb (Or.inr hrep)
  | m88k i lowPc c => exact i.holds_iff_meets lowPc

/-- divw r3,r4,r5 with the most negative number in r4 and -1 in r5. -/
theorem not_division_divides : ¬ ∀ e : Division, e.Divides := by
  intro h
  obtain ⟨c', hc', -⟩ := h (.ppc .divw false 3#5 4#5 5#5
    (((Ppc.PpcCpu.zero true false).setReg 4#5 0x80000000#64).setReg 5#5 0xffffffff#64))
  rw [Ppc.PpcCpu.divide_trap] at hc'
  · cases hc'
  · decide

end Gxemul

/- Exact multiplication of 64-bit numbers.

   dmult and dmultu on MIPS go through one factor from its low bit, umulh on Alpha
   from its high bit. Both are sums of shifted words. -/
namespace Gxemul

namespace Alpha
open Lib (double double_add double_shl double_lt)

theorem addBit_modEq (bit : Bool) (hi lo s2 : Reg) :
    let lo' := if bit then lo + s2 else lo
    double (if bit ∧ lo' < lo then hi + 1#64 else hi) lo' ≡ double hi lo + bit.toNat * s2.toNat
      [MOD 2 ^ 64 * 2 ^ 64] := by
  cases bit with
  | false => simpa using Nat.ModEq.refl (double hi lo)
  | true =>
    have hadd := @double_add 64 hi lo 0#64 s2 (by decide)
    simpa [double] using hadd

theorem shiftRight_next (s1 : Reg) {n : Nat} (hn : n < 64) :
    s1.toNat >>> (63 - n) = 2 * (s1.toNat >>> (64 - n)) + (s1.getLsbD (63 - n)).toNat := by
  have hshift : s1.toNat >>> (64 - n) = s1.toNat >>> (63 - n) / 2 := by
    rw [← Nat.shiftRight_one, ← Nat.shiftRight_add]
    congr 1
    omega
  have hbit : (s1.getLsbD (63 - n)).toNat = s1.toNat >>> (63 - n) % 2 := by
    rw [BitVec.getLsbD, Nat.testBit, Nat.and_comm, Nat.and_one_is_mod]
    rcases Nat.mod_two_eq_zero_or_one (s1.toNat >>> (63 - n)) with h | h <;> rw [h] <;> rfl
  rw [hshift, hbit]
  omega

theorem umulhLoop_modEq (s1 s2 : Reg) {n : Nat} (hn : n ≤ 64) :
    double (umulhLoop s1 s2 n).1 (umulhLoop s1 s2 n).2 ≡
      (if n = 64 then 1 else 2) * (s1.toNat >>> (64 - n) * s2.toNat) [MOD 2 ^ 64 * 2 ^ 64] := by
  induction n with
  | zero =>
    have hnone : s1.toNat >>> 64 = 0 := Nat.shiftRight_eq_zero s1.toNat 64 s1.isLt
    have hstart : double (umulhLoop s1 s2 0).1 (umulhLoop s1 s2 0).2 = 0 := by simp [umulhLoop, double]
    rw [Nat.sub_zero, hnone, hstart, Nat.zero_mul, Nat.mul_zero]
  | succ n ih =>
    have hlt : n < 64 := hn
    have hsum := (addBit_modEq (s1.getLsbD (63 - n)) (umulhLoop s1 s2 n).1 (umulhLoop s1 s2 n).2 s2).trans
      (Nat.ModEq.add_right _ (ih hlt.le))
    rw [if_neg hlt.ne, ← Nat.mul_assoc, ← Nat.add_mul, ← shiftRight_next s1 hlt] at hsum
    have hrest : 64 - (n + 1) = 63 - n := by omega
    rw [hrest]
    by_cases hlast : n = 63
    · have hend : n + 1 = 64 := by omega
      have hstep : umulhLoop s1 s2 (n + 1) = (_, _) := if_pos hlast
      rw [hstep, if_pos hend, Nat.one_mul]
      exact hsum
    · have hend : n + 1 ≠ 64 := by omega
      have hstep : umulhLoop s1 s2 (n + 1) = (_, _) := if_neg hlast
      rw [hstep, if_neg hend]
      exact (double_shl (Nat.zero_lt_succ 63)).trans (Nat.ModEq.mul_left 2 hsum)

theorem umulhLoop_eq (s1 s2 : Reg) :
    ((umulhLoop s1 s2 64).1 ++ (umulhLoop s1 s2 64).2).toNat = s1.toNat * s2.toNat := by
  have hmod := umulhLoop_modEq s1 s2 (Nat.le_refl 64)
  rw [if_pos rfl, Nat.one_mul] at hmod
  have hlt : s1.toNat * s2.toNat < 2 ^ 64 * 2 ^ 64 := Nat.mul_lt_mul'' s1.isLt s2.isLt
  rw [Lib.append_eq_double]
  exact Nat.ModEq.eq_of_lt_of_lt hmod (double_lt _ _) hlt

theorem umulhLoop_low (s1 s2 : Reg) : (umulhLoop s1 s2 64).2 = s1 * s2 := by
  apply BitVec.eq_of_toNat_eq
  rw [BitVec.toNat_mul, ← umulhLoop_eq, Lib.append_eq_double]
  unfold double
  rw [Nat.mul_add_mod_self_right, Nat.mod_eq_of_lt (umulhLoop s1 s2 64).2.isLt]

theorem execute_umulh_mulq (cfg : ExecConf) (io : Io) (i lowPc : Nat) (m : AlphaMachine) (dst src : RegName)
    (b : Operand) :
    ∃ hi lo, m.execute cfg io i lowPc (.alu .umulh dst src b) = .ok (m.setReg i dst hi) ∧
      m.execute cfg io i lowPc (.alu .mulq dst src b) = .ok (m.setReg i dst lo) ∧
      (hi ++ lo).toNat = (m.reg i src).toNat * (AlphaMachine.Operand.value i m b).toNat := by
  refine ⟨_, _, rfl, rfl, ?_⟩
  rw [← umulhLoop_low]
  exact umulhLoop_eq _ _

end Alpha

/-- MIPS and Alpha multiply 64-bit numbers exactly, whatever the registers are. -/
theorem multiplication_exact :
    (∀ (conf : Mips.LsConf) (f : Mips.Handler) (rs rt : Mips.RegName) (arg2 : Mips.Arg) (s : Mips.MultMachine),
      let a := Mips.regRead conf.cpuType.is32bit (s.machine.regs rs)
      let b := Mips.regRead conf.cpuType.is32bit (s.machine.regs rt)
      (∃ s', s.dmult conf ⟨f, .ptr rs, .ptr rt, arg2⟩ = .ok s' ∧ s'.machine = s.machine ∧
        (s'.hi ++ s'.lo).toInt = a.toInt * b.toInt) ∧
      ∃ s', s.dmultu conf ⟨f, .ptr rs, .ptr rt, arg2⟩ = .ok s' ∧ s'.machine = s.machine ∧
        (s'.hi ++ s'.lo).toNat = a.toNat * b.toNat) ∧
    ∀ (cfg : Alpha.ExecConf) (io : Alpha.Io) (i lowPc : Nat) (m : Alpha.AlphaMachine) (dst src : Alpha.RegName)
      (b : Alpha.Operand), ∃ hi lo,
        m.execute cfg io i lowPc (.alu .umulh dst src b) = .ok (m.setReg i dst hi) ∧
        m.execute cfg io i lowPc (.alu .mulq dst src b) = .ok (m.setReg i dst lo) ∧
        (hi ++ lo).toNat = (m.reg i src).toNat * (Alpha.AlphaMachine.Operand.value i m b).toNat := by
  refine ⟨fun conf f rs rt arg2 s => ⟨?_, ?_⟩, Alpha.execute_umulh_mulq⟩
  · exact s.dmult_spec conf rs rt arg2 f
  · exact s.dmultu_spec conf rs rt arg2 f

end Gxemul
