import Mathlib.Data.BitVec
import Mathlib.Tactic.Ring
import Mathlib.Tactic.Linarith

/- Divisions of fixed-width integers, as a program in C performs them.

   Two of them are not divisions at all: a division by zero, and the signed division
   whose quotient is one too large. The hardware of common hosts traps on both. -/
namespace Gxemul.Lib

/-- A division that the host does not perform. -/
inductive DivisionTrap where
  | byZero
  | overflow

/-- The quotient truncated towards zero, and its remainder. -/
structure IsQuotient (a b q r : Int) : Prop where
  truncated : q = a.tdiv b
  sum : a = q * b + r
  small : r.natAbs < b.natAbs

theorem isQuotient_tdiv (a : Int) {b : Int} (hb : b ≠ 0) : IsQuotient a b (a.tdiv b) (a.tmod b) where
  truncated := rfl
  sum := by
    rw [Int.mul_comm]
    exact (Int.mul_tdiv_add_tmod a b).symm
  small := by
    rw [Int.natAbs_tmod]
    exact Nat.mod_lt _ (Int.natAbs_pos.mpr hb)

variable {w : Nat}

/-- The pair whose quotient is not representable. -/
def Overflows (a b : BitVec w) : Prop := a = BitVec.intMin w ∧ b = -1#w

instance (a b : BitVec w) : Decidable (Overflows a b) := inferInstanceAs (Decidable (_ ∧ _))

/-- The number that an operand stands for. -/
def operandValue (signed : Bool) (x : BitVec w) : Int := if signed then x.toInt else x.toNat

/-- The quotient is a number of the same type. -/
def Representable (signed : Bool) (a b : BitVec w) : Prop := ¬ (signed = true ∧ Overflows a b)

instance (signed : Bool) (a b : BitVec w) : Decidable (Representable signed a b) :=
  inferInstanceAs (Decidable (¬ _))

/-- `a / b`. -/
def hostDiv (signed : Bool) (a b : BitVec w) : Except DivisionTrap (BitVec w) :=
  if b = 0#w then .error .byZero
  else if signed = true ∧ Overflows a b then .error .overflow
  else .ok (if signed then a.sdiv b else a / b)

/-- The quotient and the remainder of two operands. -/
def Divides (signed : Bool) (a b q r : BitVec w) : Prop :=
  IsQuotient (operandValue signed a) (operandValue signed b) (operandValue signed q) (operandValue signed r)

section
variable {a b : BitVec w}

theorem toInt_ne_zero (hb : b ≠ 0#w) : b.toInt ≠ 0 := by
  intro hzero
  apply hb
  apply BitVec.eq_of_toInt_eq
  rw [hzero, BitVec.toInt_zero]

theorem toInt_sdiv (h : ¬ Overflows a b) : (a.sdiv b).toInt = a.toInt.tdiv b.toInt := by
  apply BitVec.toInt_sdiv_of_ne_or_ne
  by_cases ha : a = BitVec.intMin w
  · exact Or.inr fun hb => h ⟨ha, hb⟩
  · exact Or.inl ha

/-- The remainder that is computed from the quotient. -/
theorem sub_mul_sdiv (h : ¬ Overflows a b) : a - b * a.sdiv b = a.srem b := by
  have hq := toInt_sdiv h
  apply BitVec.eq_of_toInt_eq
  have hrem : a.toInt - b.toInt * a.toInt.tdiv b.toInt = a.toInt.tmod b.toInt := by
    have hsum := Int.mul_tdiv_add_tmod a.toInt b.toInt
    omega
  rw [BitVec.toInt_sub, BitVec.toInt_mul, hq, Int.sub_bmod_bmod, hrem, ← BitVec.toInt_srem, BitVec.toInt_bmod_cancel]

/-- A signed division that the host performs. -/
theorem isQuotient_sdiv (hb : b ≠ 0#w) (h : ¬ Overflows a b) :
    IsQuotient a.toInt b.toInt (a.sdiv b).toInt (a - b * a.sdiv b).toInt := by
  rw [sub_mul_sdiv h, toInt_sdiv h, BitVec.toInt_srem]
  exact isQuotient_tdiv a.toInt (toInt_ne_zero hb)

/-- An unsigned division that the host performs. -/
theorem isQuotient_udiv (hb : b ≠ 0#w) :
    IsQuotient a.toNat b.toNat (a / b).toNat (a - b * (a / b)).toNat := by
  have hpos : (b.toNat : Int) ≠ 0 := by
    intro hzero
    exact hb (BitVec.eq_of_toNat_eq (Int.ofNat_eq_zero.mp hzero))
  have hrem : a - b * (a / b) = a % b := by
    apply sub_eq_iff_eq_add'.mpr
    apply BitVec.eq_of_toNat_eq
    rw [BitVec.toNat_add, BitVec.toNat_mul, BitVec.toNat_udiv, BitVec.toNat_umod, Nat.mod_add_mod, Nat.div_add_mod,
      Nat.mod_eq_of_lt a.isLt]
  rw [hrem, BitVec.toNat_udiv, BitVec.toNat_umod]
  exact isQuotient_tdiv a.toNat hpos

/-- What the host divides is divided. -/
theorem hostDiv_ok {signed : Bool} (hb : b ≠ 0#w) (h : Representable signed a b) :
    ∃ q, hostDiv signed a b = .ok q ∧ Divides signed a b q (a - b * q) := by
  refine ⟨if signed then a.sdiv b else a / b, ?_, ?_⟩
  · unfold hostDiv
    rw [if_neg hb, if_neg h]
  · cases signed with
    | true => exact isQuotient_sdiv hb fun hover => h ⟨rfl, hover⟩
    | false => exact isQuotient_udiv hb

theorem hostDiv_overflow (hb : b ≠ 0#w) (h : Overflows a b) : hostDiv true a b = .error .overflow := by
  unfold hostDiv
  rw [if_neg hb, if_pos ⟨rfl, h⟩]

end

end Gxemul.Lib

/- Division without restoring.

   The dividend comes in bit by bit. In each step the divisor is subtracted from the
   doubled remainder, or added to it when the remainder is negative, and the sign of
   what comes out is the next bit of the quotient. The dividend may begin with a
   negative number. -/
namespace Gxemul.Lib

/-- `q` is the quotient of the dividend `y` so far. `r` is its remainder, or the
remainder minus the divisor. -/
structure Dividing (d y r q : Int) : Prop where
  low : -d ≤ r
  high : r < d
  eq : y = d * q + r + if r < 0 then d else 0

/-- The next remainder. -/
def nextRemainder (d r bit : Int) : Int := 2 * r + bit - if r < 0 then -d else d

namespace Dividing
variable {d y r q : Int}

/-- Before the first step, only the sign of the dividend is known. -/
theorem start (hlow : -d ≤ y) (hhigh : y < d) : Dividing d y y (if y < 0 then -1 else 0) := by
  refine ⟨hlow, hhigh, ?_⟩
  split <;> ring

theorem step (h : Dividing d y r q) {bit : Int} (hbit : bit = 0 ∨ bit = 1) :
    Dividing d (2 * y + bit) (nextRemainder d r bit) (2 * q + if nextRemainder d r bit < 0 then 0 else 1) := by
  obtain ⟨hlow, hhigh, heq⟩ := h
  have hnext : nextRemainder d r bit = 2 * r + bit - if r < 0 then -d else d := rfl
  refine ⟨?_, ?_, ?_⟩
  · split at hnext <;> omega
  · split at hnext <;> omega
  · rw [heq]
    split at hnext <;> rename_i hneg
    · rw [if_pos hneg]
      split
      · rw [hnext]; ring
      · rw [hnext]; ring
    · rw [if_neg hneg]
      split
      · rw [hnext]; ring
      · rw [hnext]; ring

/-- The quotient is rounded down. -/
theorem quotient (h : Dividing d y r q) : q = y / d := by
  obtain ⟨hlow, hhigh, heq⟩ := h
  have hpos : 0 < d := by omega
  symm
  rw [Int.ediv_eq_iff_of_pos hpos]
  split at heq <;> constructor <;> linarith

theorem remainder (h : Dividing d y r q) : y % d = if r < 0 then r + d else r := by
  have hq := h.quotient
  obtain ⟨hlow, hhigh, heq⟩ := h
  have hdiv := Int.emod_add_mul_ediv y d
  rw [← hq] at hdiv
  split at heq <;> rename_i hneg
  · rw [if_pos hneg]
    linarith
  · rw [if_neg hneg]
    linarith

end Dividing

end Gxemul.Lib
