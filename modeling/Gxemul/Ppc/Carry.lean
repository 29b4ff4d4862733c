import Gxemul.Lib.CarryChain
import Gxemul.Lib.Masks
import Gxemul.Ppc.Alu

/- Additions and subtractions with a carry on PowerPC (`src/cpus/cpu_ppc_instr.c`).

   All of them are "only for 32-bit mode, so far". A subtraction adds the complement of
   register `ra`, as the architecture has it. -/
namespace Gxemul.Ppc

/-- The functions with a carry, with the registers and the immediate value in their arguments. `dot` is
the form that sets CR0. -/
inductive CarryInstr where
  | addic (dot : Bool) (rt ra : BitVec 5) (imm : BitVec 16)
  | subfic (rt ra : BitVec 5) (imm : BitVec 16)
  | addc (rt ra rb : BitVec 5)
  | adde (dot : Bool) (rt ra rb : BitVec 5)
  | addme (dot : Bool) (rt ra : BitVec 5)
  | addze (dot : Bool) (rt ra : BitVec 5)
  | subfc (dot : Bool) (rt ra rb : BitVec 5)
  | subfe (dot : Bool) (rt ra rb : BitVec 5)
  | subfme (dot : Bool) (rt ra : BitVec 5)
  | subfze (dot : Bool) (rt ra : BitVec 5)

namespace PpcCpu
variable (c : PpcCpu) (dot : Bool) (rt ra rb : BitVec 5) (imm : BitVec 16)

/-- `(uint32_t)ic->arg[1]`, as an `uint64_t`. -/
def uimm (imm : BitVec 16) : Reg := (imm.signExtend 32).setWidth 64

/-- `(uint32_t)reg(x)`, as an `uint64_t`. -/
def uword (n : BitVec 5) : Reg := (c.word n).setWidth 64

/-- `(uint32_t)tmp`. -/
def low (tmp : Reg) : Reg := (tmp.setWidth 32).setWidth 64

/-- `X(addic)` and `X(addic_dot)`. -/
def addic : PpcCpu :=
  let tmp := c.uword ra
  let tmp2 := tmp
  let c := c.clearCa
  let tmp2 := tmp2 + uimm imm
  let c := if tmp2 >>> 32 ≠ tmp >>> 32 then c.setCa else c
  let c := c.setReg rt (low tmp2)
  if dot then c.updateCr0 (low tmp2) else c

/-- `X(subfic)`. -/
def subfic : PpcCpu :=
  let tmp := c.modeUint ((imm.signExtend 32).signExtend 64)
  let c := c.clearCa
  let c := if c.reg ra ≤ tmp then c.setCa else c
  c.setReg rt (tmp - c.reg ra)

/-- `X(addc)`. -/
def addc : PpcCpu :=
  let tmp := c.uword ra
  let tmp2 := tmp
  let c := c.clearCa
  let tmp := tmp + c.uword rb
  let c := if tmp >>> 32 ≠ tmp2 >>> 32 then c.setCa else c
  c.setReg rt (low tmp)

/-- `X(adde)`. -/
def adde : PpcCpu :=
  let oldCa := c.ca
  let tmp := c.uword ra
  let tmp2 := tmp
  let c := c.clearCa
  let tmp := tmp + c.uword rb
  let tmp := if oldCa then tmp + 1#64 else tmp
  let c := if tmp >>> 32 ≠ tmp2 >>> 32 then c.setCa else c
  (c.setReg rt (low tmp)).dot dot rt

/-- `X(addme)`. -/
def addme : PpcCpu :=
  let oldCa := c.ca
  let tmp := c.uword ra
  let tmp2 := tmp
  let c := c.clearCa
  let tmp := if oldCa then tmp + 1#64 else tmp
  let tmp := tmp + 0xffffffff#64
  let c := if tmp >>> 32 ≠ tmp2 >>> 32 then c.setCa else c
  (c.setReg rt (low tmp)).dot dot rt

/-- `X(addze)`. -/
def addze : PpcCpu :=
  let oldCa := c.ca
  let tmp := c.uword ra
  let tmp2 := tmp
  let c := c.clearCa
  let tmp := if oldCa then tmp + 1#64 else tmp
  let c := if tmp >>> 32 ≠ tmp2 >>> 32 then c.setCa else c
  (c.setReg rt (low tmp)).dot dot rt

/-- `X(subfc)`. -/
def subfc : PpcCpu :=
  let c := c.clearCa
  let c := if c.reg ra ≤ c.reg rb then c.setCa else c
  (c.setReg rt (c.reg rb - c.reg ra)).dot dot rt

/-- `X(subfe)`. "The register value calculation should be correct, but the CA bit calculation above is
probably not." -/
def subfe : PpcCpu :=
  let oldCa := c.ca
  let c := c.clearCa
  let c :=
    if c.reg rb = c.reg ra then if oldCa then c.setCa else c
    else if c.reg ra ≤ c.reg rb then c.setCa else c
  (c.setReg rt (c.reg rb - c.reg ra - if oldCa then 0#64 else 1#64)).dot dot rt

/-- `X(subfme)`. -/
def subfme : PpcCpu :=
  let oldCa := c.ca
  let tmp : Reg := (~~~ c.word ra).setWidth 64
  let tmp := tmp + 0xffffffff#64
  let c := c.clearCa
  let tmp := if oldCa then tmp + 1#64 else tmp
  let c := if tmp >>> 32 ≠ 0#64 then c.setCa else c
  (c.setReg rt (low tmp)).dot dot rt

/-- `X(subfze)`. -/
def subfze : PpcCpu :=
  let oldCa := c.ca
  let tmp : Reg := (~~~ c.word ra).setWidth 64
  let tmp2 := tmp
  let c := c.clearCa
  let tmp := if oldCa then tmp + 1#64 else tmp
  let c := if tmp >>> 32 ≠ tmp2 >>> 32 then c.setCa else c
  (c.setReg rt (low tmp)).dot dot rt

end PpcCpu

namespace CarryInstr

def execute (c : PpcCpu) : CarryInstr → PpcCpu
  | addic dot rt ra imm => c.addic dot rt ra imm
  | subfic rt ra imm => c.subfic rt ra imm
  | addc rt ra rb => c.addc rt ra rb
  | adde dot rt ra rb => c.adde dot rt ra rb
  | addme dot rt ra => c.addme dot rt ra
  | addze dot rt ra => c.addze dot rt ra
  | subfc dot rt ra rb => c.subfc dot rt ra rb
  | subfe dot rt ra rb => c.subfe dot rt ra rb
  | subfme dot rt ra => c.subfme dot rt ra
  | subfze dot rt ra => c.subfze dot rt ra

/-! ## The sum of the architecture -/

def rt : CarryInstr → BitVec 5
  | addic _ rt _ _ | subfic rt _ _ | addc rt _ _ | adde _ rt _ _ | addme _ rt _ | addze _ rt _ | subfc _ rt _ _
  | subfe _ rt _ _ | subfme _ rt _ | subfze _ rt _ => rt

def ra : CarryInstr → BitVec 5
  | addic _ _ ra _ | subfic _ ra _ | addc _ ra _ | adde _ _ ra _ | addme _ _ ra | addze _ _ ra | subfc _ _ ra _
  | subfe _ _ ra _ | subfme _ _ ra | subfze _ _ ra => ra

/-- An instruction that subtracts register `ra`. -/
def subtracts : CarryInstr → Bool
  | subfic _ _ _ | subfc _ _ _ _ | subfe _ _ _ _ | subfme _ _ _ | subfze _ _ _ => true
  | _ => false

def extended : CarryInstr → Bool
  | adde _ _ _ _ | addme _ _ _ | addze _ _ _ | subfe _ _ _ _ | subfme _ _ _ | subfze _ _ _ => true
  | _ => false

def other (c : PpcCpu) : CarryInstr → Word
  | addic _ _ _ imm | subfic _ _ imm => imm.signExtend 32
  | addc _ _ rb | adde _ _ _ rb | subfc _ _ _ rb | subfe _ _ _ rb => c.word rb
  | addme _ _ _ | subfme _ _ _ => -1#32
  | addze _ _ _ | subfze _ _ _ => 0#32

def sources : CarryInstr → List (BitVec 5)
  | addc _ ra rb | adde _ _ ra rb | subfc _ _ ra rb | subfe _ _ ra rb => [ra, rb]
  | addic _ _ ra _ | subfic _ ra _ | addme _ _ ra | addze _ _ ra | subfme _ _ ra | subfze _ _ ra => [ra]

/-! ## One instruction -/

section
variable {c : PpcCpu}

theorem finish {p : Prop} [Decidable p] (dot : Bool) (rt : BitVec 5) (v : Reg) :
    (((if p then c.clearCa.setCa else c.clearCa).setReg rt v).dot dot rt).word rt = v.setWidth 32 ∧
      (((if p then c.clearCa.setCa else c.clearCa).setReg rt v).dot dot rt).ca = decide p := by
  rw [PpcCpu.word_congr PpcCpu.gpr_dot, PpcCpu.word_setReg, if_pos rfl, PpcCpu.ca_congr PpcCpu.spr_dot,
    PpcCpu.ca_setReg]
  by_cases hp : p
  · rw [if_pos hp, PpcCpu.ca_setCa, decide_eq_true hp]
    exact ⟨rfl, rfl⟩
  · rw [if_neg hp, PpcCpu.ca_clearCa, decide_eq_false hp]
    exact ⟨rfl, rfl⟩

theorem toNat_uword (c : PpcCpu) (n : BitVec 5) : (c.uword n).toNat = (c.word n).toNat :=
  BitVec.toNat_setWidth_of_le (by decide)

theorem low_add_carry {tmp t : Reg} (htmp : tmp.toNat < 2 ^ 33) (ht : t.toNat < 2 ^ 32) :
    ((PpcCpu.low tmp).setWidth 32).toNat + 2 ^ 32 * (decide (tmp >>> 32 ≠ t >>> 32)).toNat = tmp.toNat := by
  have hlow : ((PpcCpu.low tmp).setWidth 32).toNat = tmp.toNat % 2 ^ 32 := by
    unfold PpcCpu.low
    rw [PpcCpu.setWidth_low, BitVec.toNat_setWidth]
  have hsame : tmp >>> 32 ≠ t >>> 32 ↔ 2 ^ 32 ≤ tmp.toNat := by
    rw [Ne, ← BitVec.toNat_inj, BitVec.toNat_ushiftRight, BitVec.toNat_ushiftRight, Nat.shiftRight_eq_div_pow,
      Nat.shiftRight_eq_div_pow]
    omega
  rw [hlow, decide_eq_decide.mpr hsame]
  by_cases hge : 2 ^ 32 ≤ tmp.toNat
  · rw [decide_eq_true hge, Bool.toNat_true]
    omega
  · rw [decide_eq_false hge, Bool.toNat_false]
    omega

theorem sub_add_carry (a b : Word) (ca : Bool) {p : Prop} [Decidable p] (hp : p ↔ a.toNat + (!ca).toNat ≤ b.toNat) :
    (b - a - if ca then 0#32 else 1#32).toNat + 2 ^ 32 * (decide p).toNat = (~~~ a).toNat + b.toNat + ca.toNat := by
  rw [BitVec.toNat_not, decide_eq_decide.mpr hp]
  by_cases hle : a.toNat + (!ca).toNat ≤ b.toNat
  · rw [decide_eq_true hle, Bool.toNat_true]
    cases ca with
    | false =>
      simp only [Bool.not_false, Bool.toNat_true, Bool.toNat_false, Bool.false_eq_true, if_false, BitVec.toNat_sub,
        BitVec.toNat_ofNat] at hle ⊢
      omega
    | true =>
      simp only [Bool.not_true, Bool.toNat_false, Bool.toNat_true, if_true, BitVec.toNat_sub, BitVec.toNat_ofNat]
        at hle ⊢
      omega
  · rw [decide_eq_false hle, Bool.toNat_false]
    cases ca with
    | false =>
      simp only [Bool.not_false, Bool.toNat_true, Bool.toNat_false, Bool.false_eq_true, if_false, BitVec.toNat_sub,
        BitVec.toNat_ofNat] at hle ⊢
      omega
    | true =>
      simp only [Bool.not_true, Bool.toNat_false, Bool.toNat_true, if_true, BitVec.toNat_sub, BitVec.toNat_ofNat]
        at hle ⊢
      omega

def carryIn (c : PpcCpu) (i : CarryInstr) : Bool := if i.extended then c.ca else i.subtracts

def left (c : PpcCpu) (i : CarryInstr) : Word := if i.subtracts then ~~~ c.word i.ra else c.word i.ra

def Adds (c : PpcCpu) (i : CarryInstr) : Prop :=
  ((i.execute c).word i.rt).toNat + 2 ^ 32 * (i.execute c).ca.toNat =
    (i.left c).toNat + (i.other c).toNat + (i.carryIn c).toNat

theorem adds_of_tmp {i : CarryInstr} {tmp t : Reg} {dot : Bool} {p : Prop} [Decidable p]
    (hexec : i.execute c = ((if p then c.clearCa.setCa else c.clearCa).setReg i.rt (PpcCpu.low tmp)).dot dot i.rt)
    (hp : p ↔ tmp >>> 32 ≠ t >>> 32) (ht : t.toNat < 2 ^ 32)
    (htmp : tmp.toNat = (i.left c).toNat + (i.other c).toNat + (i.carryIn c).toNat) : i.Adds c := by
  have hc := Bool.toNat_le (i.carryIn c)
  obtain ⟨hword, hca⟩ := @finish c p _ dot i.rt (PpcCpu.low tmp)
  unfold Adds
  rw [hexec, hword, hca, ← htmp, decide_eq_decide.mpr hp]
  exact low_add_carry (by omega) ht

theorem toNat_carry (tmp : Reg) (ca : Bool) (h : tmp.toNat < 2 ^ 64 - 1) :
    (if ca then tmp + 1#64 else tmp).toNat = tmp.toNat + ca.toNat := by
  cases ca with
  | false => rfl
  | true =>
    rw [if_pos rfl, BitVec.toNat_add, Bool.toNat_true, BitVec.toNat_ofNat]
    omega

theorem low_lt (c : PpcCpu) (n : BitVec 5) : (c.uword n).toNat < 2 ^ 32 := by
  rw [toNat_uword]
  exact (c.word n).isLt

theorem setWidth_sub_reg (x y z : Reg) :
    (x - y - z).setWidth 32 = x.setWidth 32 - y.setWidth 32 - (z.setWidth 32 : Word) := by
  apply BitVec.eq_of_toNat_eq
  simp only [BitVec.toNat_setWidth, BitVec.toNat_sub]
  omega

theorem reg_carry {p : Prop} [Decidable p] {n : BitVec 5} :
    (if p then c.clearCa.setCa else c.clearCa).reg n = c.reg n := by
  split <;> rfl

theorem reg_le_reg (h : c.is32bit = true) (a b : BitVec 5) : c.reg a ≤ c.reg b ↔ (c.word a).toNat ≤ (c.word b).toNat := by
  rw [PpcCpu.reg_of_32 h, PpcCpu.reg_of_32 h, BitVec.le_def, BitVec.toNat_setWidth_of_le (by decide),
    BitVec.toNat_setWidth_of_le (by decide)]

theorem reg_eq_reg (h : c.is32bit = true) (a b : BitVec 5) : c.reg a = c.reg b ↔ (c.word a).toNat = (c.word b).toNat := by
  rw [PpcCpu.reg_of_32 h, PpcCpu.reg_of_32 h, ← BitVec.toNat_inj, BitVec.toNat_setWidth_of_le (by decide),
    BitVec.toNat_setWidth_of_le (by decide)]

theorem reg_setReg_low (h : c.is32bit = true) (rt : BitVec 5) (v : Reg) :
    (c.setReg rt (PpcCpu.low v)).reg rt = PpcCpu.low v := by
  have h' : (c.setReg rt (PpcCpu.low v)).is32bit = true := h
  rw [PpcCpu.reg_of_32 h', PpcCpu.word_setReg, if_pos rfl]
  exact congrArg _ (PpcCpu.setWidth_low v)

theorem updateCr0_low {p : Prop} [Decidable p] (h : c.is32bit = true) (dot : Bool) (rt : BitVec 5) (v : Reg) :
    (if dot then ((if p then c.clearCa.setCa else c.clearCa).setReg rt (PpcCpu.low v)).updateCr0 (PpcCpu.low v)
      else (if p then c.clearCa.setCa else c.clearCa).setReg rt (PpcCpu.low v)) =
      ((if p then c.clearCa.setCa else c.clearCa).setReg rt (PpcCpu.low v)).dot dot rt := by
  have hmode : (if p then c.clearCa.setCa else c.clearCa).is32bit = true := by
    split <;> exact h
  unfold PpcCpu.dot
  rw [reg_setReg_low hmode]

theorem adds_addic (h : c.is32bit = true) (dot : Bool) (rt ra : BitVec 5) (imm : BitVec 16) :
    (addic dot rt ra imm).Adds c := by
  have himm : (PpcCpu.uimm imm).toNat = (imm.signExtend 32).toNat := BitVec.toNat_setWidth_of_le (by decide)
  have htmp : (c.uword ra + PpcCpu.uimm imm).toNat =
      (c.word ra).toNat + (imm.signExtend 32).toNat + false.toNat := by
    rw [BitVec.toNat_add, toNat_uword, himm, Bool.toNat_false, Nat.add_zero]
    exact Nat.mod_eq_of_lt (by omega)
  exact adds_of_tmp (updateCr0_low h dot rt _) Iff.rfl (low_lt c ra) htmp

theorem adds_subfic (h : c.is32bit = true) (rt ra : BitVec 5) (imm : BitVec 16) : (subfic rt ra imm).Adds c := by
  have himm : c.modeUint ((imm.signExtend 32).signExtend 64) = (imm.signExtend 32).setWidth 64 := by
    unfold PpcCpu.modeUint
    rw [if_pos h, Lib.setWidth_signExtend _ (by decide)]
  have hcmp : c.reg ra ≤ (imm.signExtend 32).setWidth 64 ↔
      (c.word ra).toNat + (!true).toNat ≤ (imm.signExtend 32).toNat := by
    rw [PpcCpu.reg_of_32 h, BitVec.le_def, BitVec.toNat_setWidth_of_le (by decide),
      BitVec.toNat_setWidth_of_le (by decide)]
    rfl
  have hexec : (subfic rt ra imm).execute c =
      ((if c.reg ra ≤ (imm.signExtend 32).setWidth 64 then c.clearCa.setCa else c.clearCa).setReg rt
        ((imm.signExtend 32).setWidth 64 - c.reg ra - 0#64)).dot false rt := by
    rw [BitVec.sub_zero, ← himm]
    change c.subfic rt ra imm = _
    unfold PpcCpu.subfic
    dsimp only
    rw [reg_carry]
    rfl
  obtain ⟨hword, hca⟩ := @finish c (c.reg ra ≤ (imm.signExtend 32).setWidth 64) _ false rt
    ((imm.signExtend 32).setWidth 64 - c.reg ra - 0#64)
  unfold Adds
  rw [hexec]
  change (PpcCpu.word _ rt).toNat + _ = _
  rw [hword, hca, setWidth_sub_reg, PpcCpu.setWidth_reg, BitVec.setWidth_setWidth_of_le _ (by decide)]
  exact sub_add_carry (c.word ra) (imm.signExtend 32) true hcmp

theorem adds_of_reg {i : CarryInstr} {rb : BitVec 5} {dot ca : Bool} {p : Prop} [Decidable p]
    (hexec : i.execute c = ((if p then c.clearCa.setCa else c.clearCa).setReg i.rt
      (c.reg rb - c.reg i.ra - if ca then 0#64 else 1#64)).dot dot i.rt)
    (hp : p ↔ (c.word i.ra).toNat + (!ca).toNat ≤ (c.word rb).toNat) (hsub : i.subtracts = true)
    (hrb : i.other c = c.word rb) (hca : i.carryIn c = ca) : i.Adds c := by
  obtain ⟨hword, hcarry⟩ := @finish c p _ dot i.rt (c.reg rb - c.reg i.ra - if ca then 0#64 else 1#64)
  have hone : (if ca then 0#64 else 1#64 : Reg).setWidth 32 = if ca then 0#32 else 1#32 := by
    cases ca <;> rfl
  unfold Adds left
  rw [hexec, hword, hcarry, setWidth_sub_reg, PpcCpu.setWidth_reg, PpcCpu.setWidth_reg, hone, hrb, hca, if_pos hsub]
  exact sub_add_carry (c.word i.ra) (c.word rb) ca hp

theorem adds_subfc (h : c.is32bit = true) (dot : Bool) (rt ra rb : BitVec 5) : (subfc dot rt ra rb).Adds c := by
  have hexec : (subfc dot rt ra rb).execute c = ((if c.reg ra ≤ c.reg rb then c.clearCa.setCa else c.clearCa).setReg
      rt (c.reg rb - c.reg ra - if true then 0#64 else 1#64)).dot dot rt := by
    rw [if_pos rfl, BitVec.sub_zero]
    change c.subfc dot rt ra rb = _
    unfold PpcCpu.subfc
    dsimp only
    rw [reg_carry, reg_carry]
    rfl
  exact adds_of_reg hexec (reg_le_reg h ra rb) rfl rfl rfl

theorem adds_subfe (h : c.is32bit = true) (dot : Bool) (rt ra rb : BitVec 5) : (subfe dot rt ra rb).Adds c := by
  have hexec : (subfe dot rt ra rb).execute c =
      ((if (c.word ra).toNat + (!c.ca).toNat ≤ (c.word rb).toNat then c.clearCa.setCa else c.clearCa).setReg
        rt (c.reg rb - c.reg ra - if c.ca then 0#64 else 1#64)).dot dot rt := by
    have heq := reg_eq_reg h rb ra
    have hle := reg_le_reg h ra rb
    have hcarry : (if c.reg rb = c.reg ra then if c.ca then c.clearCa.setCa else c.clearCa
        else if c.reg ra ≤ c.reg rb then c.clearCa.setCa else c.clearCa) =
        if (c.word ra).toNat + (!c.ca).toNat ≤ (c.word rb).toNat then c.clearCa.setCa else c.clearCa := by
      cases c.ca with
      | false => grind
      | true => grind
    have hreg (n : BitVec 5) := reg_carry (c := c) (n := n)
      (p := (c.word ra).toNat + (!c.ca).toNat ≤ (c.word rb).toNat)
    rw [← hreg rb, ← hreg ra, ← hcarry]
    rfl
  exact adds_of_reg hexec Iff.rfl rfl rfl rfl

theorem adds_addc (rt ra rb : BitVec 5) : (addc rt ra rb).Adds c := by
  have htmp : (c.uword ra + c.uword rb).toNat = (c.word ra).toNat + (c.word rb).toNat + false.toNat := by
    have ha := low_lt c ra
    have hb := low_lt c rb
    rw [BitVec.toNat_add, Nat.mod_eq_of_lt (by omega), toNat_uword, toNat_uword]
    rfl
  exact @adds_of_tmp c (addc rt ra rb) _ _ false _ _ rfl Iff.rfl (low_lt c ra) htmp

theorem adds_adde (dot : Bool) (rt ra rb : BitVec 5) : (adde dot rt ra rb).Adds c := by
  have ha := low_lt c ra
  have hb := low_lt c rb
  have hsum : (c.uword ra + c.uword rb).toNat = (c.uword ra).toNat + (c.uword rb).toNat := by
    rw [BitVec.toNat_add]
    exact Nat.mod_eq_of_lt (by omega)
  have htmp := toNat_carry (c.uword ra + c.uword rb) c.ca (by omega)
  rw [hsum, toNat_uword, toNat_uword] at htmp
  exact adds_of_tmp rfl Iff.rfl (low_lt c ra) htmp

theorem adds_addme (dot : Bool) (rt ra : BitVec 5) : (addme dot rt ra).Adds c := by
  have ha := low_lt c ra
  have hca := Bool.toNat_le c.ca
  have hcarry := toNat_carry (c.uword ra) c.ca (by omega)
  have htmp : ((if c.ca then c.uword ra + 1#64 else c.uword ra) + 0xffffffff#64).toNat =
      (c.word ra).toNat + (-1#32).toNat + c.ca.toNat := by
    rw [BitVec.toNat_add, hcarry, ← toNat_uword]
    change (_ + 4294967295) % 2 ^ 64 = _ + 4294967295 + _
    omega
  exact adds_of_tmp rfl Iff.rfl (low_lt c ra) htmp

theorem adds_addze (dot : Bool) (rt ra : BitVec 5) : (addze dot rt ra).Adds c := by
  have ha := low_lt c ra
  have htmp := toNat_carry (c.uword ra) c.ca (by omega)
  rw [toNat_uword] at htmp
  exact adds_of_tmp rfl Iff.rfl (low_lt c ra) htmp

theorem adds_subfme (dot : Bool) (rt ra : BitVec 5) : (subfme dot rt ra).Adds c := by
  have ha : ((~~~ c.word ra).setWidth 64 : Reg).toNat = (~~~ c.word ra).toNat :=
    BitVec.toNat_setWidth_of_le (by decide)
  have hsum : ((~~~ c.word ra).setWidth 64 + 0xffffffff#64 : Reg).toNat = (~~~ c.word ra).toNat + (-1#32).toNat := by
    rw [BitVec.toNat_add, ha]
    change (_ + 4294967295) % 2 ^ 64 = _ + 4294967295
    omega
  have htmp := toNat_carry ((~~~ c.word ra).setWidth 64 + 0xffffffff#64) c.ca (by omega)
  rw [hsum] at htmp
  -- The word that is compared with is 0.
  exact adds_of_tmp (t := 0#64) rfl Iff.rfl (by decide) htmp

theorem adds_subfze (dot : Bool) (rt ra : BitVec 5) : (subfze dot rt ra).Adds c := by
  have ha : ((~~~ c.word ra).setWidth 64 : Reg).toNat = (~~~ c.word ra).toNat :=
    BitVec.toNat_setWidth_of_le (by decide)
  have htmp := toNat_carry ((~~~ c.word ra).setWidth 64) c.ca (by omega)
  rw [ha] at htmp
  exact adds_of_tmp rfl Iff.rfl (by omega) htmp

theorem adds (h : c.is32bit = true) (i : CarryInstr) : i.Adds c := by
  cases i with
  | addic dot rt ra imm => exact adds_addic h dot rt ra imm
  | subfic rt ra imm => exact adds_subfic h rt ra imm
  | addc rt ra rb => exact adds_addc rt ra rb
  | adde dot rt ra rb => exact adds_adde dot rt ra rb
  | addme dot rt ra => exact adds_addme dot rt ra
  | addze dot rt ra => exact adds_addze dot rt ra
  | subfc dot rt ra rb => exact adds_subfc h dot rt ra rb
  | subfe dot rt ra rb => exact adds_subfe h dot rt ra rb
  | subfme dot rt ra => exact adds_subfme dot rt ra
  | subfze dot rt ra => exact adds_subfze dot rt ra

/-! ## The registers and the mode -/

theorem execute_cases (h : c.is32bit = true) (i : CarryInstr) : ∃ (c' : PpcCpu) (v : Reg) (dot : Bool),
    c'.gpr = c.gpr ∧ c'.is32bit = c.is32bit ∧ i.execute c = (c'.setReg i.rt v).dot dot i.rt := by
  have hkept (p : Prop) [Decidable p] : (if p then c.clearCa.setCa else c.clearCa).gpr = c.gpr ∧
      (if p then c.clearCa.setCa else c.clearCa).is32bit = c.is32bit := by
    split <;> exact ⟨rfl, rfl⟩
  cases i with
  | addic dot rt ra imm => exact ⟨_, _, dot, (hkept _).1, (hkept _).2, updateCr0_low h dot rt _⟩
  | subfic rt ra imm => exact ⟨_, _, false, (hkept _).1, (hkept _).2, rfl⟩
  | addc rt ra rb => exact ⟨_, _, false, (hkept _).1, (hkept _).2, rfl⟩
  | adde dot rt ra rb => exact ⟨_, _, dot, (hkept _).1, (hkept _).2, rfl⟩
  | addme dot rt ra => exact ⟨_, _, dot, (hkept _).1, (hkept _).2, rfl⟩
  | addze dot rt ra => exact ⟨_, _, dot, (hkept _).1, (hkept _).2, rfl⟩
  | subfc dot rt ra rb => exact ⟨_, _, dot, (hkept _).1, (hkept _).2, rfl⟩
  | subfe dot rt ra rb =>
    refine ⟨_, _, dot, ?_, ?_, rfl⟩
    · split
      · exact (hkept _).1
      · exact (hkept _).1
    · split
      · exact (hkept _).2
      · exact (hkept _).2
  | subfme dot rt ra => exact ⟨_, _, dot, (hkept _).1, (hkept _).2, rfl⟩
  | subfze dot rt ra => exact ⟨_, _, dot, (hkept _).1, (hkept _).2, rfl⟩

theorem is32bit_execute (h : c.is32bit = true) (i : CarryInstr) : (i.execute c).is32bit = true := by
  obtain ⟨c', v, dot, -, hmode, hexec⟩ := execute_cases h i
  rw [hexec, PpcCpu.is32bit_dot, PpcCpu.is32bit_setReg, hmode, h]

theorem word_execute (h : c.is32bit = true) (i : CarryInstr) {n : BitVec 5} (hn : n ≠ i.rt) :
    (i.execute c).word n = c.word n := by
  obtain ⟨c', v, dot, hgpr, -, hexec⟩ := execute_cases h i
  rw [hexec, PpcCpu.word_congr PpcCpu.gpr_dot, PpcCpu.word_setReg, if_neg hn]
  exact PpcCpu.word_congr hgpr

end

end CarryInstr

/-! ## Chains -/

abbrev Ppc32 := { c : PpcCpu // c.is32bit = true }

def ppcAdder : Lib.Adder Ppc32 CarryInstr 32 where
  step i s := ⟨i.execute s.1, CarryInstr.is32bit_execute s.2 i⟩
  left i s := i.left s.1
  right i s := i.other s.1
  carryIn i s := i.carryIn s.1
  result i s := (i.execute s.1).word i.rt
  carry s := s.1.ca
  adds i s := CarryInstr.adds s.2 i

def ppcRegisters : ppcAdder.Registers (BitVec 5) where
  read s n := s.1.word n
  dst i := i.rt
  src i := i.sources
  result_eq _ _ := rfl
  other i s _ hr := CarryInstr.word_execute s.2 i hr

namespace CarryInstr

theorem extended_carry {i : CarryInstr} (hi : i.extended = true) : ppcAdder.Extended i := by
  intro s
  exact if_pos hi

theorem carryIn_first {i : CarryInstr} (hi : i.extended = false) (s : Ppc32) :
    ppcAdder.carryIn i s = i.subtracts :=
  if_neg (by rw [hi]; exact Bool.false_ne_true)

end CarryInstr

end Gxemul.Ppc
