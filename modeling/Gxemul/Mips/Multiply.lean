import Gxemul.Lib.DoubleWord
import Gxemul.Mips.LoadStore

/- 64-bit multiplication on MIPS (dmult and dmultu in `src/cpus/cpu_mips_instr.c`).

   One factor is shifted to the right, the other one to the left into a second word.
   The product is kept in `hi` and `lo`. -/
namespace Gxemul.Mips
open Lib (double double_add double_shl double_neg double_lt)

/-! ## Instruction calls -/

/-- `ic->arg[n]`: a pointer to a register, a number, or a pointer into the page. -/
inductive Arg where
  | ptr (r : RegName)
  | num (x : BitVec 32)
  | ic (n : Nat)

/-- `ic->f`. `multi store n` is multi_sw_n or multi_lw_n. -/
inductive Handler where
  | toBeTranslated | endOfPage | nop | reserved | mov | set | addu | xor | sll | addiu | daddiu | andi | ori
  | beq | bne | b | beqSamepage | bneSamepage | bSamepage | beql | beqlSamepage
  | jr | jrRa | jrRaTrace | mtc0
  | loadstore (k : LsKind)
  | multi (store : Bool) (n : Nat)
  | multiAddu3 | xorAndiSll | andiSll | luiOri | luiAddiu | addiuBneSamepageAddiu
  | bSamepageAddiu | bSamepageDaddiu | beqSamepageAddiu | beqSamepageNop | bneSamepageAddiu | bneSamepageNop
  | jrRaAddiu
  | memsetAddiuBneSw | strlenLbAddiuBneNop | netbsdR3kPicacheDoInv | netbsdPmaxIdle | linuxPmaxIdle
  | other (n : Nat)

/-- `struct mips_instr_call`. -/
structure InstrCall where
  f : Handler
  arg0 : Arg
  arg1 : Arg
  arg2 : Arg

def Arg.reg : Arg → Except Exit RegName
  | .ptr r => .ok r
  | .num _ | .ic _ => .error .badPointer

/-- `reg(a)`. -/
def Machine.reg (conf : LsConf) (a : Arg) (s : Machine) : Except Exit Reg := do
  return regRead conf.cpuType.is32bit (s.regs (← a.reg))

/-! ## The loop -/

structure Product where
  a : Reg
  b : Reg
  c : Reg
  hi : Reg
  lo : Reg

namespace Product

/-- `if (a & 1)`, with the carry. -/
def addIf (s : Product) : Product :=
  if s.a &&& 1#64 ≠ 0#64 then
    let hi := s.hi + s.c
    let lo := s.lo + s.b
    { s with hi := if lo < s.lo then hi + 1#64 else hi, lo }
  else s

def step (s : Product) : Product :=
  let s := s.addIf
  { s with a := s.a >>> 1, c := (s.c <<< 1) ||| (s.b >>> 63), b := s.b <<< 1 }

theorem step_a (s : Product) : s.step.a = s.a >>> 1 := by
  unfold step addIf
  split <;> rfl

theorem shift_lt {a : Reg} (h : a ≠ 0#64) : (a >>> 1).toNat < a.toNat := by
  have hpos : a.toNat ≠ 0 := fun hzero => h (BitVec.eq_of_toNat_eq hzero)
  rw [BitVec.toNat_ushiftRight, Nat.shiftRight_eq_div_pow]
  omega

/-- `for (; a; a >>= 1)`. -/
def loop (s : Product) : Product := if s.a = 0#64 then s else s.step.loop
termination_by s.a.toNat
decreasing_by
  rw [step_a]
  exact shift_lt (by assumption)

end Product

/-- What dmult leaves in `hi` and `lo`, for the values of its registers. -/
def signedProduct (a b : Reg) : Reg × Reg :=
  -- neg changes once for each negative factor
  let neg := decide (a >>> 63 ≠ 0#64) != decide (b >>> 63 ≠ 0#64)
  let a := if a >>> 63 ≠ 0#64 then -a else a
  let b := if b >>> 63 ≠ 0#64 then -b else b
  let p := Product.loop ⟨a, b, 0#64, 0#64, 0#64⟩
  if neg then
    let hi := if p.lo = 0#64 then p.hi - 1#64 else p.hi
    let lo := p.lo - 1#64
    (hi ^^^ BitVec.allOnes 64, lo ^^^ BitVec.allOnes 64)
  else (p.hi, p.lo)

/-- A machine with the registers `hi` and `lo`. -/
structure MultMachine where
  machine : Machine
  hi : Reg
  lo : Reg

namespace MultMachine
variable (conf : LsConf) (ic : InstrCall) (s : MultMachine)

def dmult : Except Exit MultMachine := do
  let a ← s.machine.reg conf ic.arg0
  let b ← s.machine.reg conf ic.arg1
  return { s with hi := (signedProduct a b).1, lo := (signedProduct a b).2 }

def dmultu : Except Exit MultMachine := do
  let a ← s.machine.reg conf ic.arg0
  let b ← s.machine.reg conf ic.arg1
  let p := Product.loop ⟨a, b, 0#64, 0#64, 0#64⟩
  return { s with hi := p.hi, lo := p.lo }

end MultMachine

/-! ## The loop -/

namespace Product

/-- What the loop keeps: the product so far, and that of what is left of the factors. -/
def total (s : Product) : Nat := double s.hi s.lo + s.a.toNat * double s.c s.b

theorem shiftIn_eq (c b : Reg) : (c <<< 1) ||| (b >>> 63) = c <<< 1 + if b.msb then 1#64 else 0#64 := by
  have hbit : b >>> 63 = if b.msb then 1#64 else 0#64 := by
    apply BitVec.eq_of_toNat_eq
    rw [BitVec.toNat_ushiftRight, Nat.shiftRight_eq_div_pow, BitVec.msb_eq_decide]
    by_cases htop : 2 ^ 63 ≤ b.toNat
    · rw [if_pos (decide_eq_true htop)]
      show b.toNat / 2 ^ 63 = 1
      omega
    · rw [if_neg (by simpa using htop)]
      show b.toNat / 2 ^ 63 = 0
      omega
  rw [hbit]
  symm
  apply BitVec.add_eq_or_of_and_eq_zero
  split
  · ext i hi
    by_cases hzero : i = 0
    · simp [hzero]
    · simp [hzero]
  · exact BitVec.and_zero

theorem odd_iff (a : Reg) : a &&& 1#64 ≠ 0#64 ↔ a.toNat % 2 = 1 := by
  rw [Ne, ← BitVec.toNat_inj, BitVec.toNat_and]
  show ¬ a.toNat &&& 1 = 0 ↔ _
  rw [Nat.and_one_is_mod]
  omega

theorem addIf_total (s : Product) :
    double s.addIf.hi s.addIf.lo ≡ double s.hi s.lo + s.a.toNat % 2 * double s.c s.b [MOD 2 ^ 64 * 2 ^ 64] := by
  unfold addIf
  split
  case isTrue hodd =>
    rw [(odd_iff s.a).mp hodd, Nat.one_mul]
    exact double_add (by decide)
  case isFalse heven =>
    have hzero : s.a.toNat % 2 = 0 := by
      rw [odd_iff] at heven
      omega
    rw [hzero, Nat.zero_mul, Nat.add_zero]

theorem step_total (s : Product) : s.step.total ≡ s.total [MOD 2 ^ 64 * 2 ^ 64] := by
  have hsame : s.addIf.c = s.c ∧ s.addIf.b = s.b := by
    unfold addIf
    split <;> exact ⟨rfl, rfl⟩
  have hstep : s.step.total = double s.addIf.hi s.addIf.lo + s.a.toNat / 2 * double s.step.c s.step.b := by
    unfold total
    rw [step_a, BitVec.toNat_ushiftRight, Nat.shiftRight_eq_div_pow]
    rfl
  have hshift : double s.step.c s.step.b ≡ 2 * double s.c s.b [MOD 2 ^ 64 * 2 ^ 64] := by
    show double ((s.addIf.c <<< 1) ||| (s.addIf.b >>> 63)) (s.addIf.b <<< 1) ≡ _ [MOD _]
    rw [hsame.1, hsame.2, shiftIn_eq]
    exact double_shl (by decide)
  rw [hstep]
  calc double s.addIf.hi s.addIf.lo + s.a.toNat / 2 * double s.step.c s.step.b
      ≡ (double s.hi s.lo + s.a.toNat % 2 * double s.c s.b) + s.a.toNat / 2 * (2 * double s.c s.b)
          [MOD 2 ^ 64 * 2 ^ 64] := Nat.ModEq.add (addIf_total s) (Nat.ModEq.mul_left _ hshift)
    _ = double s.hi s.lo + (s.a.toNat % 2 + 2 * (s.a.toNat / 2)) * double s.c s.b := by ring
    _ = s.total := by rw [Nat.mod_add_div]; rfl

theorem loop_total (s : Product) : double s.loop.hi s.loop.lo ≡ s.total [MOD 2 ^ 64 * 2 ^ 64] := by
  fun_induction loop s with
  | case1 s hzero =>
    unfold total
    rw [hzero]
    show _ ≡ double s.hi s.lo + 0 * _ [MOD _]
    rw [Nat.zero_mul, Nat.add_zero]
  | case2 s _ ih => exact ih.trans (step_total s)

theorem loop_eq (a b : Reg) :
    double (loop ⟨a, b, 0#64, 0#64, 0#64⟩).hi (loop ⟨a, b, 0#64, 0#64, 0#64⟩).lo = a.toNat * b.toNat := by
  have htotal : total ⟨a, b, 0#64, 0#64, 0#64⟩ = a.toNat * b.toNat := by
    simp [total, double]
  have hmod := loop_total ⟨a, b, 0#64, 0#64, 0#64⟩
  rw [htotal] at hmod
  have hlt : a.toNat * b.toNat < 2 ^ 64 * 2 ^ 64 := Nat.mul_lt_mul'' a.isLt b.isLt
  exact Nat.ModEq.eq_of_lt_of_lt hmod (double_lt _ _) hlt

end Product

/-! ## Signs -/

theorem top_bit_iff (x : Reg) : x >>> 63 ≠ 0#64 ↔ x.toInt < 0 := by
  rw [Ne, ← BitVec.toNat_inj, BitVec.toNat_ushiftRight, Nat.shiftRight_eq_div_pow, BitVec.toInt_eq_toNat_cond]
  show ¬ x.toNat / 2 ^ 63 = 0 ↔ _
  split <;> omega

theorem abs_spec (x : Reg) : (if x >>> 63 ≠ 0#64 then -x else x).toNat = x.toInt.natAbs := by
  by_cases hneg : x >>> 63 ≠ 0#64
  · rw [if_pos hneg]
    rw [top_bit_iff, BitVec.toInt_eq_toNat_cond] at hneg
    rw [BitVec.toNat_neg, BitVec.toInt_eq_toNat_cond]
    split at hneg
    · omega
    · rw [if_neg (by assumption)]
      omega
  · rw [if_neg hneg]
    rw [top_bit_iff, BitVec.toInt_eq_toNat_cond] at hneg
    rw [BitVec.toInt_eq_toNat_cond]
    split at hneg
    · rw [if_pos (by assumption)]
      omega
    · omega

theorem toInt_of_double {hi lo : Reg} {n : Nat} (h : double hi lo = n) (hn : n < 2 ^ 127) :
    (hi ++ lo).toInt = (n : Int) := by
  rw [BitVec.toInt_eq_toNat_cond, Lib.append_eq_double, h]
  split <;> omega

theorem toInt_neg_of_double {hi lo : Reg} {n : Nat} (h : double hi lo = n) (hn : n < 2 ^ 127) :
    ((~~~ if lo = 0#64 then hi - 1#64 else hi) ++ (~~~ (lo - 1#64))).toInt = -(n : Int) := by
  have hneg := @double_neg 64 hi lo (by decide)
  rw [h] at hneg
  rw [BitVec.toInt_eq_toNat_cond, Lib.append_eq_double]
  have hlt := double_lt (~~~ if lo = 0#64 then hi - 1#64 else hi) (~~~ (lo - 1#64))
  generalize double (~~~ if lo = 0#64 then hi - 1#64 else hi) (~~~ (lo - 1#64)) = m at hneg hlt ⊢
  unfold Nat.ModEq at hneg
  split <;> omega

theorem signed_eq {hi lo : Reg} {x y : Int} (h : double hi lo = x.natAbs * y.natAbs) (hx : x.natAbs ≤ 2 ^ 63)
    (hy : y.natAbs ≤ 2 ^ 63) :
    (x < 0 ↔ y < 0) ∧ (hi ++ lo).toInt = x * y ∨
    ¬ (x < 0 ↔ y < 0) ∧ ((~~~ if lo = 0#64 then hi - 1#64 else hi) ++ (~~~ (lo - 1#64))).toInt = x * y := by
  have hlt : x.natAbs * y.natAbs < 2 ^ 127 := by
    calc x.natAbs * y.natAbs ≤ 2 ^ 63 * 2 ^ 63 := Nat.mul_le_mul hx hy
      _ < 2 ^ 127 := by decide
  by_cases hsame : x < 0 ↔ y < 0
  · refine Or.inl ⟨hsame, ?_⟩
    rw [toInt_of_double h hlt, Nat.cast_mul]
    by_cases hneg : x < 0
    · rw [Int.ofNat_natAbs_of_nonpos hneg.le, Int.ofNat_natAbs_of_nonpos (hsame.mp hneg).le]
      ring
    · rw [Int.natAbs_of_nonneg (by omega), Int.natAbs_of_nonneg (by omega)]
  · refine Or.inr ⟨hsame, ?_⟩
    rw [toInt_neg_of_double h hlt, Nat.cast_mul]
    by_cases hneg : x < 0
    · rw [Int.ofNat_natAbs_of_nonpos hneg.le, Int.natAbs_of_nonneg (by omega)]
      ring
    · rw [Int.natAbs_of_nonneg (by omega), Int.ofNat_natAbs_of_nonpos (by omega)]
      ring

theorem natAbs_toInt_le (x : Reg) : x.toInt.natAbs ≤ 2 ^ 63 := by
  have hlow := x.le_toInt
  have hhigh := x.toInt_lt
  omega

theorem signedProduct_eq (a b : Reg) : ((signedProduct a b).1 ++ (signedProduct a b).2).toInt = a.toInt * b.toInt := by
  have hprod := Product.loop_eq (if a >>> 63 ≠ 0#64 then -a else a) (if b >>> 63 ≠ 0#64 then -b else b)
  rw [abs_spec, abs_spec] at hprod
  have hsign : (decide (a >>> 63 ≠ 0#64) != decide (b >>> 63 ≠ 0#64)) = true ↔ ¬ (a.toInt < 0 ↔ b.toInt < 0) := by
    rw [bne_iff_ne, Ne, decide_eq_decide, top_bit_iff, top_bit_iff]
  unfold signedProduct
  dsimp only
  obtain ⟨hsame, heq⟩ | ⟨hdiff, heq⟩ := signed_eq hprod (natAbs_toInt_le a) (natAbs_toInt_le b)
  · rw [if_neg (fun h => hsign.mp h hsame)]
    exact heq
  · rw [if_pos (hsign.mpr hdiff), BitVec.xor_allOnes, BitVec.xor_allOnes]
    exact heq

/-! ## The instructions -/

namespace MultMachine
variable (conf : LsConf) (rs rt : RegName) (arg2 : Arg) (f : Handler) (s : MultMachine)

theorem dmultu_spec :
    ∃ s', s.dmultu conf ⟨f, .ptr rs, .ptr rt, arg2⟩ = .ok s' ∧ s'.machine = s.machine ∧
      (s'.hi ++ s'.lo).toNat = (regRead conf.cpuType.is32bit (s.machine.regs rs)).toNat *
        (regRead conf.cpuType.is32bit (s.machine.regs rt)).toNat := by
  refine ⟨_, rfl, rfl, ?_⟩
  rw [Lib.append_eq_double]
  exact Product.loop_eq _ _

theorem dmult_spec :
    ∃ s', s.dmult conf ⟨f, .ptr rs, .ptr rt, arg2⟩ = .ok s' ∧ s'.machine = s.machine ∧
      (s'.hi ++ s'.lo).toInt = (regRead conf.cpuType.is32bit (s.machine.regs rs)).toInt *
        (regRead conf.cpuType.is32bit (s.machine.regs rt)).toInt :=
  ⟨_, rfl, rfl, signedProduct_eq _ _⟩

end MultMachine

end Gxemul.Mips
