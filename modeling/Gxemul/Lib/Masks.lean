import Mathlib.Data.BitVec
import Gxemul.Lib.Bytes

/- Masks of the low bits of a word. -/
namespace Gxemul.Lib

variable {n : Nat} (x : BitVec n) (s : Nat)

/-- The low bits are the remainder. -/
theorem toNat_and_mask (hs : s ≤ n) : (x &&& BitVec.ofNat n (2 ^ s - 1)).toNat = x.toNat % 2 ^ s := by
  have hlt : 2 ^ s - 1 < 2 ^ n := by
    have hpow : 2 ^ s ≤ 2 ^ n := Nat.pow_le_pow_right (by decide) hs
    have hpos := Nat.two_pow_pos s
    omega
  rw [BitVec.toNat_and, BitVec.toNat_ofNat, Nat.mod_eq_of_lt hlt]
  exact Nat.and_two_pow_sub_one_eq_mod _ _

/-- Without the low bits, it is a multiple. -/
theorem toNat_and_not_mask : (x &&& ~~~ BitVec.ofNat n (2 ^ s - 1)).toNat = x.toNat / 2 ^ s * 2 ^ s := by
  apply Nat.eq_of_testBit_eq
  intro i
  rw [Nat.testBit_mul_two_pow, Nat.testBit_div_two_pow]
  simp only [BitVec.testBit_toNat, BitVec.getLsbD_and, BitVec.getLsbD_not, BitVec.getLsbD_ofNat,
    Nat.testBit_two_pow_sub_one]
  by_cases hi : i < n
  · by_cases hsi : s ≤ i
    · simp [hi, hsi, Nat.not_lt.mpr hsi, Nat.sub_add_cancel hsi]
    · simp [hi, hsi, Nat.lt_of_not_le hsi]
  · have hnone : x.getLsbD i = false := BitVec.getLsbD_of_ge x i (Nat.le_of_not_lt hi)
    by_cases hsi : s ≤ i
    · simp [hnone, Nat.sub_add_cancel hsi]
    · simp [hnone, hsi]

/-- A word is what its masks keep of it. -/
theorem and_not_add_and (m : BitVec n) : (x &&& ~~~ m) + (x &&& m) = x := by
  rw [BitVec.add_eq_or_of_and_eq_zero]
  · ext i
    simp only [BitVec.getElem_or, BitVec.getElem_and, BitVec.getElem_not]
    cases x[i] <;> cases m[i] <;> rfl
  · ext i
    simp only [BitVec.getElem_and, BitVec.getElem_not, BitVec.getElem_zero]
    cases x[i] <;> cases m[i] <;> rfl

/-- The low part of a number that has been extended. -/
theorem setWidth_signExtend {m : Nat} (h : n ≤ m) : (x.signExtend m).setWidth n = x := by
  apply BitVec.eq_of_getLsbD_eq
  intro i hi
  have him : i < m := by omega
  rw [BitVec.getLsbD_setWidth, BitVec.getLsbD_signExtend, decide_eq_true hi, decide_eq_true him, if_pos hi,
    Bool.true_and, Bool.true_and]

end Gxemul.Lib

/- The operations on words that work byte by byte, and shifts by whole bytes. -/
namespace Gxemul.Lib

variable {n : Nat} (x y : BitVec n)

theorem byteOf_or (j : Nat) : byteOf (x ||| y) j = byteOf x j ||| byteOf y j := by
  apply BitVec.eq_of_getLsbD_eq
  intro k hk
  rw [getLsbD_byteOf _ _ hk, BitVec.getLsbD_or, BitVec.getLsbD_or, getLsbD_byteOf _ _ hk, getLsbD_byteOf _ _ hk]

theorem byteOf_and (j : Nat) : byteOf (x &&& y) j = byteOf x j &&& byteOf y j := by
  apply BitVec.eq_of_getLsbD_eq
  intro k hk
  rw [getLsbD_byteOf _ _ hk, BitVec.getLsbD_and, BitVec.getLsbD_and, getLsbD_byteOf _ _ hk, getLsbD_byteOf _ _ hk]

theorem byteOf_not {j : Nat} (hj : j * 8 + 8 ≤ n) : byteOf (~~~ x) j = ~~~ byteOf x j := by
  apply BitVec.eq_of_getLsbD_eq
  intro k hk
  have hlt : j * 8 + k < n := by omega
  rw [getLsbD_byteOf _ _ hk, BitVec.getLsbD_not, BitVec.getLsbD_not, getLsbD_byteOf _ _ hk, decide_eq_true hlt,
    decide_eq_true hk]

/-- A shift to the right moves the higher bytes down. -/
theorem byteOf_ushiftRight (s j : Nat) : byteOf (x >>> (s * 8)) j = byteOf x (j + s) := by
  apply BitVec.eq_of_getLsbD_eq
  intro k hk
  rw [getLsbD_byteOf _ _ hk, BitVec.getLsbD_ushiftRight, getLsbD_byteOf _ _ hk]
  congr 1
  omega

/-- A shift to the left moves the lower bytes up. -/
theorem byteOf_shiftLeft (s : Nat) {j : Nat} (hj : j * 8 + 8 ≤ n) :
    byteOf (x <<< (s * 8)) j = if j < s then 0#8 else byteOf x (j - s) := by
  apply BitVec.eq_of_getLsbD_eq
  intro k hk
  have hlt : j * 8 + k < n := by omega
  rw [getLsbD_byteOf _ _ hk, BitVec.getLsbD_shiftLeft, decide_eq_true hlt, Bool.true_and]
  by_cases hjs : j < s
  · have hbelow : j * 8 + k < s * 8 := by omega
    rw [if_pos hjs, decide_eq_true hbelow, BitVec.getLsbD_zero]
    rfl
  · have hnot : ¬ j * 8 + k < s * 8 := by omega
    have hindex : j * 8 + k - s * 8 = (j - s) * 8 + k := by omega
    rw [if_neg hjs, decide_eq_false hnot, getLsbD_byteOf _ _ hk, hindex]
    rfl

/-- There are no bytes above a word. -/
theorem byteOf_of_le {j : Nat} (hj : n ≤ j * 8) : byteOf x j = 0#8 := by
  apply BitVec.eq_of_getLsbD_eq
  intro k hk
  rw [getLsbD_byteOf _ _ hk, BitVec.getLsbD_of_ge _ _ (by omega), BitVec.getLsbD_zero]

end Gxemul.Lib
