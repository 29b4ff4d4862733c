import Mathlib.Data.BitVec
import Mathlib.Data.Nat.ModEq
import Mathlib.Tactic.Ring

/- Numbers of two words.

   Carries and borrows between the words are found by comparing words, so that no
   intermediate result is wider than a word. The result of each operation is stated
   modulo the square of the number of words. -/
namespace Gxemul.Lib

variable {w : Nat}

/-- The number that is held in two words. -/
def double (hi lo : BitVec w) : Nat := hi.toNat * 2 ^ w + lo.toNat

variable (hi lo c b : BitVec w)

theorem double_lt : double hi lo < 2 ^ w * 2 ^ w := by
  have hhi : hi.toNat + 1 ≤ 2 ^ w := hi.isLt
  calc hi.toNat * 2 ^ w + lo.toNat < hi.toNat * 2 ^ w + 2 ^ w := by omega
    _ = (hi.toNat + 1) * 2 ^ w := (Nat.succ_mul _ _).symm
    _ ≤ 2 ^ w * 2 ^ w := Nat.mul_le_mul_right _ hhi

theorem append_eq_double : (hi ++ lo).toNat = double hi lo := by
  rw [BitVec.toNat_append, ← Nat.shiftLeft_add_eq_or_of_lt lo.isLt, Nat.shiftLeft_eq]
  rfl

/-- A high word only counts up to the number of words. -/
theorem high_modEq (n : Nat) : n % 2 ^ w * 2 ^ w + lo.toNat ≡ n * 2 ^ w + lo.toNat [MOD 2 ^ w * 2 ^ w] :=
  Nat.ModEq.add_right _ (Nat.ModEq.mul_right' _ (Nat.mod_modEq n (2 ^ w)))

variable {hi lo c b}

theorem double_of_carry {n m carry : Nat} (hhigh : hi.toNat = (n + carry) % 2 ^ w)
    (hcarry : m = carry * 2 ^ w + lo.toNat) : double hi lo ≡ n * 2 ^ w + m [MOD 2 ^ w * 2 ^ w] := by
  unfold double
  rw [hhigh, hcarry, ← Nat.add_assoc, ← Nat.add_mul]
  exact high_modEq lo (n + carry)

/-- The carry of a sum of two words. -/
theorem toNat_add_carry :
    lo.toNat + b.toNat = (if lo + b < lo then 1 else 0) * 2 ^ w + (lo + b).toNat := by
  simp only [BitVec.lt_def, BitVec.toNat_add]
  by_cases hwrap : lo.toNat + b.toNat < 2 ^ w
  · rw [Nat.mod_eq_of_lt hwrap, if_neg (by omega)]
    omega
  · have hmod : (lo.toNat + b.toNat) % 2 ^ w = lo.toNat + b.toNat - 2 ^ w := by
      rw [Nat.mod_eq_sub_mod (by omega), Nat.mod_eq_of_lt (by omega)]
    rw [hmod, if_pos (by omega)]
    omega

/-- `hi += c; lo += b; if (lo < old_lo) hi ++;` -/
theorem double_add (hw : 0 < w) :
    double (if lo + b < lo then hi + c + 1#w else hi + c) (lo + b) ≡ double hi lo + double c b [MOD 2 ^ w * 2 ^ w] := by
  have hhigh : (if lo + b < lo then hi + c + 1#w else hi + c).toNat =
      (hi.toNat + c.toNat + if lo + b < lo then 1 else 0) % 2 ^ w := by
    have hone : 1 % 2 ^ w = 1 := Nat.mod_eq_of_lt (Nat.one_lt_two_pow hw.ne')
    split <;> simp [hone]
  refine (double_of_carry hhigh toNat_add_carry).trans (congrArg (fun n => n % (2 ^ w * 2 ^ w)) ?_)
  unfold double
  ring

/-- The bit that a shift to the left moves out. -/
theorem toNat_shl_carry (hw : 0 < w) : 2 * lo.toNat = (if lo.msb then 1 else 0) * 2 ^ w + (lo <<< 1).toNat := by
  obtain ⟨n, rfl⟩ : ∃ n, w = n + 1 := ⟨w - 1, by omega⟩
  rw [BitVec.toNat_shiftLeft, Nat.shiftLeft_eq, BitVec.msb_eq_decide]
  simp only [Nat.add_one_sub_one, decide_eq_true_eq, Nat.pow_one]
  by_cases htop : 2 ^ n ≤ lo.toNat
  · have hmod : lo.toNat * 2 % 2 ^ (n + 1) = lo.toNat * 2 - 2 ^ (n + 1) := by
      rw [Nat.mod_eq_sub_mod (by omega), Nat.mod_eq_of_lt (by omega)]
    rw [if_pos htop, hmod]
    omega
  · rw [if_neg htop, Nat.mod_eq_of_lt (by omega)]
    omega

/-- A shift to the left, with the bit that moves from the low word to the high one. -/
theorem double_shl (hw : 0 < w) :
    double (hi <<< 1 + if lo.msb then 1#w else 0#w) (lo <<< 1) ≡ 2 * double hi lo [MOD 2 ^ w * 2 ^ w] := by
  have hhigh : (hi <<< 1 + if lo.msb then 1#w else 0#w).toNat =
      (2 * hi.toNat + if lo.msb then 1 else 0) % 2 ^ w := by
    have hone : 1 % 2 ^ w = 1 := Nat.mod_eq_of_lt (Nat.one_lt_two_pow hw.ne')
    split <;> simp [hone, Nat.shiftLeft_eq, Nat.mul_comm]
  refine (double_of_carry hhigh (toNat_shl_carry hw)).trans (congrArg (fun n => n % (2 ^ w * 2 ^ w)) ?_)
  unfold double
  ring

/-- The complement of a word, as a number. -/
theorem toNat_not_add : (~~~ lo).toNat + lo.toNat + 1 = 2 ^ w := by
  rw [BitVec.toNat_not]
  omega

/-- `if (lo == 0) hi --; lo --;` and the complement of both words. -/
theorem double_neg (hw : 0 < w) :
    double (~~~ if lo = 0#w then hi - 1#w else hi) (~~~ (lo - 1#w)) + double hi lo ≡ 0 [MOD 2 ^ w * 2 ^ w] := by
  have hhi := hi.isLt
  have hlo := lo.isLt
  have hlow : ~~~ (lo - 1#w) = - lo := by
    rw [BitVec.neg_eq_not_add, BitVec.not_sub_one_eq_not_add_one]
  rw [hlow]
  unfold double
  by_cases hzero : lo = 0#w
  · have hhigh : ~~~ (hi - 1#w) = - hi := by
      rw [BitVec.neg_eq_not_add, BitVec.not_sub_one_eq_not_add_one]
    rw [if_pos hzero, hhigh, hzero, BitVec.toNat_neg, BitVec.toNat_neg]
    simp only [BitVec.toNat_ofNat, Nat.zero_mod, Nat.sub_zero, Nat.mod_self, Nat.add_zero]
    have hsum : (2 ^ w - hi.toNat) % 2 ^ w * 2 ^ w + hi.toNat * 2 ^ w ≡
        (2 ^ w - hi.toNat) * 2 ^ w + hi.toNat * 2 ^ w [MOD 2 ^ w * 2 ^ w] :=
      Nat.ModEq.add_right _ (Nat.ModEq.mul_right' _ (Nat.mod_modEq _ _))
    apply hsum.trans
    rw [← Nat.add_mul, Nat.sub_add_cancel hhi.le]
    exact Nat.modEq_zero_iff_dvd.mpr (dvd_refl _)
  · have hpos : 0 < lo.toNat := by
      apply Nat.pos_of_ne_zero
      intro h
      exact hzero (BitVec.eq_of_toNat_eq (by rw [h, BitVec.toNat_ofNat, Nat.zero_mod]))
    have hnot := @toNat_not_add w hi
    rw [if_neg hzero, BitVec.toNat_neg, Nat.mod_eq_of_lt (by omega)]
    have hsum : (~~~ hi).toNat * 2 ^ w + (2 ^ w - lo.toNat) + (hi.toNat * 2 ^ w + lo.toNat) = 2 ^ w * 2 ^ w := by
      calc (~~~ hi).toNat * 2 ^ w + (2 ^ w - lo.toNat) + (hi.toNat * 2 ^ w + lo.toNat)
          = ((~~~ hi).toNat + hi.toNat) * 2 ^ w + (2 ^ w - lo.toNat + lo.toNat) := by ring
        _ = ((~~~ hi).toNat + hi.toNat + 1) * 2 ^ w := by rw [Nat.sub_add_cancel hlo.le]; ring
        _ = 2 ^ w * 2 ^ w := by rw [hnot]
    rw [hsum]
    exact Nat.modEq_zero_iff_dvd.mpr (dvd_refl _)

end Gxemul.Lib
