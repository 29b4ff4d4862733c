import Gxemul.Lib.Division
import Gxemul.Sh.Alu

/- Step division on SuperH (div0u, div0s and div1 in `src/cpus/cpu_sh_instr.c`).

   Q is the sign of the partial remainder and M the sign of the divisor. T is the next
   bit of the dividend before a step, and the next bit of the quotient after it. -/
namespace Gxemul.Sh
open Lib (Dividing nextRemainder)

/-- `sr & bit`. -/
def Regs.flag (s : Regs) (b : Word) : Bool := anyBit (s .sr) b

/-! ## Truth values as numbers -/

/-- A bit that is kept in an uint32_t. -/
def word (b : Bool) : Word := if b then 1#32 else 0#32

theorem word_xor (a b : Bool) : word a ^^^ word b = word (a != b) := by
  cases a <;> cases b <;> decide

theorem one_sub_word (a : Bool) : 1#32 - word a = word (!a) := by
  cases a <;> decide

theorem word_ne_zero {a : Bool} : word a ≠ 0#32 ↔ a = true := by
  cases a <;> decide

theorem word_inj {a b : Bool} : word a = word b ↔ a = b := by
  cases a <;> cases b <;> decide

theorem toNat_word (a : Bool) : (word a).toNat = a.toNat := by
  cases a <;> rfl

theorem bitOf_eq (s : Regs) (b : Word) : s.bitOf b = word (s.flag b) := rfl

theorem shiftRight_31 (x : Word) : x >>> 31 = word (decide (2 ^ 31 ≤ x.toNat)) := by
  apply BitVec.eq_of_toNat_eq
  rw [BitVec.toNat_ushiftRight, Nat.shiftRight_eq_div_pow, toNat_word]
  by_cases h : 2 ^ 31 ≤ x.toNat
  · rw [decide_eq_true h]
    show _ = 1
    omega
  · rw [decide_eq_false h]
    show _ = 0
    omega

theorem bit32_word (res : BitVec 64) :
    ((res >>> 32) &&& 1#64).setWidth 32 = word (decide (res.toNat / 2 ^ 32 % 2 = 1)) := by
  apply BitVec.eq_of_toNat_eq
  rw [BitVec.toNat_setWidth, BitVec.toNat_and, BitVec.toNat_ushiftRight, Nat.shiftRight_eq_div_pow, toNat_word]
  show (res.toNat / 2 ^ 32 &&& 1) % 2 ^ 32 = _
  rw [Nat.and_one_is_mod]
  rcases Nat.mod_two_eq_zero_or_one (res.toNat / 2 ^ 32) with h | h <;> rw [h] <;> rfl

theorem bit32_eq (res : BitVec 64) : Regs.bit32 res = decide (res.toNat / 2 ^ 32 % 2 = 1) := by
  unfold Regs.bit32
  rw [Bool.eq_iff_iff, bne_iff_ne, Ne, ← BitVec.toNat_inj, BitVec.toNat_and, BitVec.toNat_ushiftRight,
    Nat.shiftRight_eq_div_pow, decide_eq_true_iff]
  show ¬ (res.toNat / 2 ^ 32 &&& 1) = 0 ↔ _
  rw [Nat.and_one_is_mod]
  omega

/-! ## The instructions -/

namespace Regs
variable {s : Regs} {m n : BitVec 4}

@[simp] theorem flag_set_r (i : BitVec 4) (v : Word) (b : Word) : (s.set (.r i) v).flag b = s.flag b := by
  unfold flag
  rw [set_of_ne (x := .r i) (y := .sr) nofun]

theorem flag_setT (t : Bool) : (s.setT t).flag shSrT = t := by
  unfold flag setT
  rw [set_same]
  cases t with
  | true =>
    rw [if_pos rfl, anyBit_or]
    simp [show anyBit shSrT shSrT = true from rfl]
  | false =>
    rw [if_neg (by decide)]
    exact anyBit_clear (by decide)

theorem flag_setT_of_ne {b : Word} (hb : b &&& ~~~ shSrT = b) (hT : anyBit shSrT b = false) (t : Bool) :
    (s.setT t).flag b = s.flag b := by
  unfold flag setT
  rw [set_same]
  cases t with
  | true =>
    rw [if_pos rfl, anyBit_or, hT, Bool.or_false]
  | false =>
    rw [if_neg (by decide)]
    exact anyBit_keep hb

theorem setT_r (t : Bool) (i : BitVec 4) : s.setT t (.r i) = s (.r i) := set_of_ne nofun

theorem set_r_of_ne {i : BitVec 4} (h : i ≠ n) (v : Word) : s.set (.r n) v (.r i) = s (.r i) :=
  set_of_ne fun hr => h (RegName.r.inj hr)

theorem rotclRn_spec (n : BitVec 4) (s : Regs) :
    2 * (s (.r n)).toNat + (s.flag shSrT).toNat =
      ((s.rotclRn (.r n)).flag shSrT).toNat * 2 ^ 32 + (s.rotclRn (.r n) (.r n)).toNat := by
  have htop : anyBit (s (.r n)) 0x80000000#32 = decide (2 ^ 31 ≤ (s (.r n)).toNat) := by
    have hpow : (0x80000000#32 : Word) = BitVec.twoPow 32 31 := rfl
    unfold anyBit
    rw [hpow, BitVec.and_twoPow, BitVec.getLsbD, Nat.testBit_eq_decide_div_mod_eq]
    by_cases h : 2 ^ 31 ≤ (s (.r n)).toNat
    · rw [decide_eq_true h, if_pos (by rw [decide_eq_true_iff]; omega)]
      rfl
    · rw [decide_eq_false h, if_neg (by rw [decide_eq_true_iff]; omega)]
      rfl
  unfold rotclRn
  rw [flag_set_r, flag_setT, htop, set_same]
  have hflag : anyBit (s .sr) shSrT = s.flag shSrT := rfl
  rw [hflag]
  cases s.flag shSrT with
  | true =>
    rw [if_pos rfl, BitVec.toNat_add, BitVec.toNat_shiftLeft, Nat.shiftLeft_eq]
    show _ + 1 = _ * _ + (_ + 1) % _
    by_cases h : 2 ^ 31 ≤ (s (.r n)).toNat
    · rw [decide_eq_true h]
      show _ = 1 * _ + _
      omega
    · rw [decide_eq_false h]
      show _ = 0 * _ + _
      omega
  | false =>
    rw [if_neg (by decide), BitVec.toNat_shiftLeft, Nat.shiftLeft_eq]
    show _ + 0 = _
    by_cases h : 2 ^ 31 ≤ (s (.r n)).toNat
    · rw [decide_eq_true h]
      show _ = 1 * _ + _
      omega
    · rw [decide_eq_false h]
      show _ = 0 * _ + _
      omega

theorem rotclRn_flag {b : Word} (hb : b &&& ~~~ shSrT = b) (hT : anyBit shSrT b = false) (n : BitVec 4) (s : Regs) :
    (s.rotclRn (.r n)).flag b = s.flag b :=
  (flag_set_r _ _ _).trans (flag_setT_of_ne hb hT _)

theorem rotclRn_of_ne {i : BitVec 4} (h : i ≠ n) : s.rotclRn (.r n) (.r i) = s (.r i) :=
  (set_r_of_ne h _).trans (setT_r _ _)

theorem addcRmRn_spec (m n : BitVec 4) (s : Regs) :
    (s (.r n)).toNat + (s (.r m)).toNat + (s.flag shSrT).toNat =
      ((s.addcRmRn (.r m) (.r n)).flag shSrT).toNat * 2 ^ 32 + (s.addcRmRn (.r m) (.r n) (.r n)).toNat := by
  have hcarry := (s.flag shSrT).toNat_le
  have hflag : anyBit (s .sr) shSrT = s.flag shSrT := rfl
  have hres : (if s.flag shSrT then (s (.r n)).setWidth 64 + (s (.r m)).setWidth 64 + 1#64
      else (s (.r n)).setWidth 64 + (s (.r m)).setWidth 64).toNat =
      (s (.r n)).toNat + (s (.r m)).toNat + (s.flag shSrT).toNat := by
    cases s.flag shSrT <;> simp <;> omega
  unfold addcRmRn
  rw [flag_set_r, flag_setT, set_same, hflag, bit32_eq, BitVec.toNat_setWidth, hres]
  have hsum : (s (.r n)).toNat + (s (.r m)).toNat + (s.flag shSrT).toNat < 2 ^ 33 := by omega
  generalize (s (.r n)).toNat + (s (.r m)).toNat + (s.flag shSrT).toNat = sum at hsum ⊢
  by_cases h : sum / 2 ^ 32 % 2 = 1
  · rw [decide_eq_true h]
    show _ = 1 * _ + _
    omega
  · rw [decide_eq_false h]
    show _ = 0 * _ + _
    omega

theorem subcRmRn_spec (m n : BitVec 4) (s : Regs) :
    (s (.r n)).toNat + ((s.subcRmRn (.r m) (.r n)).flag shSrT).toNat * 2 ^ 32 =
      (s.subcRmRn (.r m) (.r n) (.r n)).toNat + (s (.r m)).toNat + (s.flag shSrT).toNat := by
  have hborrow := (s.flag shSrT).toNat_le
  have hflag : anyBit (s .sr) shSrT = s.flag shSrT := rfl
  have hres : (if s.flag shSrT then (s (.r n)).setWidth 64 - (s (.r m)).setWidth 64 - 1#64
      else (s (.r n)).setWidth 64 - (s (.r m)).setWidth 64).toNat =
      (2 ^ 64 + (s (.r n)).toNat - (s (.r m)).toNat - (s.flag shSrT).toNat) % 2 ^ 64 := by
    cases s.flag shSrT <;> simp [BitVec.toNat_sub] <;> omega
  unfold subcRmRn
  rw [flag_set_r, flag_setT, set_same, hflag, bit32_eq, BitVec.toNat_setWidth, hres]
  by_cases h : (2 ^ 64 + (s (.r n)).toNat - (s (.r m)).toNat - (s.flag shSrT).toNat) % 2 ^ 64 / 2 ^ 32 % 2 = 1
  · rw [decide_eq_true h]
    show _ + 1 * _ = _
    omega
  · rw [decide_eq_false h]
    show _ + 0 * _ = _
    omega

theorem addcRmRn_of_ne {m i : BitVec 4} (h : i ≠ n) : s.addcRmRn (.r m) (.r n) (.r i) = s (.r i) :=
  (set_r_of_ne h _).trans (setT_r _ _)

theorem subcRmRn_of_ne {m i : BitVec 4} (h : i ≠ n) : s.subcRmRn (.r m) (.r n) (.r i) = s (.r i) :=
  (set_r_of_ne h _).trans (setT_r _ _)

/-! ## div1 -/

theorem anyBit_ite_or {x b c : Word} {p : Prop} [Decidable p] :
    anyBit (if p then x ||| b else x) c = (decide p && anyBit b c || anyBit x c) := by
  split <;> simp [anyBit_or, Bool.or_comm, *]

theorem divBits : anyBit shSrQ shSrQ = true ∧ anyBit shSrQ shSrM = false ∧ anyBit shSrQ shSrT = false ∧
    anyBit shSrM shSrQ = false ∧ anyBit shSrM shSrM = true ∧ anyBit shSrM shSrT = false ∧
    anyBit shSrT shSrQ = false ∧ anyBit shSrT shSrM = false ∧ anyBit shSrT shSrT = true := by decide

theorem flags_of_div1 (sr : Word) (q t : Bool) :
    let sr' := sr &&& ~~~ (shSrQ ||| shSrT)
    let sr' := if q then sr' ||| shSrQ else sr'
    let sr' := if t then sr' ||| shSrT else sr'
    anyBit sr' shSrQ = q ∧ anyBit sr' shSrM = anyBit sr shSrM ∧ anyBit sr' shSrT = t := by
  have hq : anyBit (sr &&& ~~~ (shSrQ ||| shSrT)) shSrQ = false := anyBit_clear (by decide)
  have ht : anyBit (sr &&& ~~~ (shSrQ ||| shSrT)) shSrT = false := anyBit_clear (by decide)
  have hm : anyBit (sr &&& ~~~ (shSrQ ||| shSrT)) shSrM = anyBit sr shSrM := anyBit_keep (by decide)
  simp [anyBit_ite_or, divBits, hq, hm, ht]

theorem div1RmRn_eq (m n : BitVec 4) (s : Regs) :
    let op2 := ((s (.r n) <<< 1) + word (s.flag shSrT)).setWidth 64
    let res := if s.flag shSrQ = s.flag shSrM then op2 - (s (.r m)).setWidth 64 else op2 + (s (.r m)).setWidth 64
    let carry := decide (res.toNat / 2 ^ 32 % 2 = 1)
    let q := decide (2 ^ 31 ≤ (s (.r n)).toNat) != (s.flag shSrM != carry)
    let s' := s.div1RmRn (.r m) (.r n)
    s' (.r n) = res.setWidth 32 ∧ s'.flag shSrQ = q ∧ s'.flag shSrM = s.flag shSrM ∧
      s'.flag shSrT = !(q != s.flag shSrM) ∧ ∀ i ≠ n, s' (.r i) = s (.r i) := by
  unfold div1RmRn
  simp only [bitOf_eq, shiftRight_31, bit32_word, word_xor, one_sub_word, word_ne_zero, word_inj]
  generalize (if s.flag shSrQ = s.flag shSrM then _ else _ : BitVec 64) = res
  generalize (decide (2 ^ 31 ≤ (s (.r n)).toNat) != (s.flag shSrM != decide (res.toNat / 2 ^ 32 % 2 = 1))) = q
  generalize hm : s.flag shSrM = mBit
  refine ⟨set_same, ?_, ?_, ?_, fun i hi => (set_r_of_ne hi _).trans (set_of_ne nofun)⟩
  all_goals
    rw [flag_set_r]
    unfold flag
    rw [set_same]
  · exact (flags_of_div1 _ q _).1
  · exact (flags_of_div1 _ q _).2.1.trans hm
  · exact (flags_of_div1 _ q _).2.2

def HoldsRemainder (s : Regs) (h : BitVec 4) (r : Int) : Prop :=
  ((s (.r h)).toNat : Int) = r + (if r < 0 then 2 ^ 32 else 0) ∧ s.flag shSrQ = decide (r < 0)

/-- How a register holds a divisor, whose absolute value is `d` and whose sign is in M. -/
def HoldsDivisor (s : Regs) (m : BitVec 4) (neg : Bool) (d : Int) : Prop :=
  ((s (.r m)).toNat : Int) = (if neg then 2 ^ 32 - d else d) ∧ s.flag shSrM = neg

theorem sub_borrow {a b : Nat} (ha : a < 2 ^ 32) (hb : b < 2 ^ 32) :
    a + (decide ((2 ^ 64 - b + a) % 2 ^ 64 / 2 ^ 32 % 2 = 1)).toNat * 2 ^ 32 =
      (2 ^ 64 - b + a) % 2 ^ 64 % 2 ^ 32 + b := by
  by_cases h : (2 ^ 64 - b + a) % 2 ^ 64 / 2 ^ 32 % 2 = 1
  · rw [decide_eq_true h]
    show _ + 1 * _ = _
    omega
  · rw [decide_eq_false h]
    show _ + 0 * _ = _
    omega

theorem add_carry {a b : Nat} (ha : a < 2 ^ 32) (hb : b < 2 ^ 32) :
    a + b = (a + b) % 2 ^ 64 % 2 ^ 32 + (decide ((a + b) % 2 ^ 64 / 2 ^ 32 % 2 = 1)).toNat * 2 ^ 32 := by
  by_cases h : (a + b) % 2 ^ 64 / 2 ^ 32 % 2 = 1
  · rw [decide_eq_true h]
    show _ = _ + 1 * _
    omega
  · rw [decide_eq_false h]
    show _ = _ + 0 * _
    omega

/-- The arithmetic of div1. The bit that leaves the register, the carry and the two signs tell the
sign of the new remainder, since it is in range. -/
theorem remainder_step {r r' d : Int} {reg low op1 op2 t : Nat} {top carry neg : Bool} (hlow : -d ≤ r) (hhigh : r < d)
    (hreg : (reg : Int) = r + if r < 0 then 2 ^ 32 else 0) (hshift : 2 * reg + t = top.toNat * 2 ^ 32 + op2)
    (hres : if decide (r < 0) = neg then op2 + carry.toNat * 2 ^ 32 = low + op1
      else op2 + op1 = low + carry.toNat * 2 ^ 32)
    (hop1 : (op1 : Int) = if neg then 2 ^ 32 - d else d) (ht : t ≤ 1) (hlt : low < 2 ^ 32)
    (hlt1 : op1 < 2 ^ 32) (hlt2 : op2 < 2 ^ 32) (hnext : r' = 2 * r + t - if r < 0 then -d else d) :
    (low : Int) = r' + (if r' < 0 then 2 ^ 32 else 0) ∧ (top != (neg != carry)) = decide (r' < 0) := by
  have hq : (top != (neg != carry)) = decide ((top.toNat + carry.toNat + neg.toNat) % 2 = 1) := by
    cases top <;> cases carry <;> cases neg <;> rfl
  have hsign : (top != (neg != carry)) = decide (r' < 0) ↔
      ((top.toNat + carry.toNat + neg.toNat) % 2 = 1 ↔ r' < 0) := by
    rw [hq, decide_eq_decide]
  rw [hsign]
  by_cases hr : r < 0
  · rw [if_pos hr] at hreg hnext
    rw [decide_eq_true hr] at hres
    cases neg with
    | true =>
      rw [if_pos rfl] at hres hop1
      show _ ∧ ((_ + 1) % 2 = 1 ↔ _)
      split <;> omega
    | false =>
      rw [if_neg (by decide)] at hres hop1
      show _ ∧ ((_ + 0) % 2 = 1 ↔ _)
      split <;> omega
  · rw [if_neg hr] at hreg hnext
    rw [decide_eq_false hr] at hres
    cases neg with
    | true =>
      rw [if_neg (by decide)] at hres
      rw [if_pos rfl] at hop1
      show _ ∧ ((_ + 1) % 2 = 1 ↔ _)
      split <;> omega
    | false =>
      rw [if_pos rfl] at hres
      rw [if_neg (by decide)] at hop1
      show _ ∧ ((_ + 0) % 2 = 1 ↔ _)
      split <;> omega

theorem div1RmRn_spec {m h : BitVec 4} (hne : m ≠ h) {s : Regs} {neg : Bool} {d r : Int} (hlow : -d ≤ r)
    (hhigh : r < d) (hr : s.HoldsRemainder h r) (hd : s.HoldsDivisor m neg d) :
    let r' := nextRemainder d r (s.flag shSrT).toNat
    let s' := s.div1RmRn (.r m) (.r h)
    s'.HoldsRemainder h r' ∧ s'.HoldsDivisor m neg d ∧ s'.flag shSrT = (decide (r' < 0) == neg) := by
  obtain ⟨hval, hq⟩ := hr
  obtain ⟨hdiv, hm⟩ := hd
  obtain ⟨hres, hq', hm', ht', hother⟩ := div1RmRn_eq m h s
  have hd32 := (s (.r m)).isLt
  have htlt := (s.flag shSrT).toNat_le
  have hnext : nextRemainder d r (s.flag shSrT).toNat = 2 * r + (s.flag shSrT).toNat - if r < 0 then -d else d := rfl
  generalize nextRemainder d r (s.flag shSrT).toNat = r' at hnext ⊢
  have hop2 : (((s (.r h) <<< 1) + word (s.flag shSrT)).setWidth 64).toNat =
      (2 * (s (.r h)).toNat + (s.flag shSrT).toNat) % 2 ^ 32 := by
    rw [BitVec.toNat_setWidth, BitVec.toNat_add, BitVec.toNat_shiftLeft, Nat.shiftLeft_eq, toNat_word]
    omega
  have hop1 : ((s (.r m)).setWidth 64).toNat = (s (.r m)).toNat := by
    rw [BitVec.toNat_setWidth]
    omega
  have hnegq : s.flag shSrQ = s.flag shSrM ↔ decide (r < 0) = neg := by rw [hq, hm]
  generalize hword : (if s.flag shSrQ = s.flag shSrM then _ else _ : BitVec 64) = res at hres hq' ht'
  have hcarry : if decide (r < 0) = neg then
      (2 * (s (.r h)).toNat + (s.flag shSrT).toNat) % 2 ^ 32 + (decide (res.toNat / 2 ^ 32 % 2 = 1)).toNat * 2 ^ 32 =
        (res.setWidth 32).toNat + (s (.r m)).toNat
      else (2 * (s (.r h)).toNat + (s.flag shSrT).toNat) % 2 ^ 32 + (s (.r m)).toNat =
        (res.setWidth 32).toNat + (decide (res.toNat / 2 ^ 32 % 2 = 1)).toNat * 2 ^ 32 := by
    by_cases hsub : decide (r < 0) = neg
    · rw [if_pos (hnegq.mpr hsub)] at hword
      rw [if_pos hsub, BitVec.toNat_setWidth, ← hword, BitVec.toNat_sub, hop1, hop2]
      exact sub_borrow (Nat.mod_lt _ (Nat.two_pow_pos 32)) hd32
    · rw [if_neg (fun h => hsub (hnegq.mp h))] at hword
      rw [if_neg hsub, BitVec.toNat_setWidth, ← hword, BitVec.toNat_add, hop1, hop2]
      exact add_carry (Nat.mod_lt _ (Nat.two_pow_pos 32)) hd32
  have hshift : 2 * (s (.r h)).toNat + (s.flag shSrT).toNat =
      (decide (2 ^ 31 ≤ (s (.r h)).toNat)).toNat * 2 ^ 32 +
        (2 * (s (.r h)).toNat + (s.flag shSrT).toNat) % 2 ^ 32 := by
    by_cases htop : 2 ^ 31 ≤ (s (.r h)).toNat
    · rw [decide_eq_true htop]
      show _ = 1 * _ + _
      omega
    · rw [decide_eq_false htop]
      show _ = 0 * _ + _
      omega
  have hstep := remainder_step hlow hhigh hval hshift hcarry hdiv htlt (res.setWidth 32).isLt hd32
    (Nat.mod_lt _ (Nat.two_pow_pos 32)) hnext
  rw [hm] at hq' hm' ht'
  rw [hstep.2] at hq' ht'
  refine ⟨⟨?_, hq'⟩, ⟨?_, hm'⟩, ?_⟩
  · rw [hres]
    exact hstep.1
  · rw [hother m hne]
    exact hdiv
  · rw [ht']
    cases decide (r' < 0) <;> cases neg <;> rfl

end Regs

/-! ## The loop -/

/-- `rotcl n` and `div1 m,h`. -/
def divStep (m h n : BitVec 4) : List AluInstr := [.rotcl n, .div1 m h]

/-- After `k` steps, for a dividend that began as `low` below the remainder `y`: the bits that are left
of the dividend stand above those of the quotient, which are inverted for a negative divisor. -/
structure Stepping (m h n : BitVec 4) (neg : Bool) (d y : Int) (low k : Nat) (r q : Int) (s : Regs) : Prop where
  dividing : Dividing d (y * 2 ^ k + (low / 2 ^ (32 - k) : Nat)) r q
  remainder : s.HoldsRemainder h r
  divisor : s.HoldsDivisor m neg d
  bits : ∃ u : Nat, u < 2 ^ (k + 1) ∧
    2 * (s (.r n)).toNat + (s.flag shSrT).toNat = low % 2 ^ (32 - k) * 2 ^ (k + 1) + u ∧
    ∃ c : Int, (u : Int) = (if neg then -1 - q else q) + 2 ^ (k + 1) * c
  last : 0 < k → (r < 0 ↔ q % 2 = 0)

namespace Stepping
variable {m h n : BitVec 4} {neg : Bool} {d y : Int} {low k : Nat} {r q : Int} {s : Regs}

theorem rotcl (hs : Stepping m h n neg d y low k r q s) (hk : k < 32) :
    ((s.rotclRn (.r n)).flag shSrT).toNat = low / 2 ^ (31 - k) % 2 ∧
      ∃ u : Nat, u < 2 ^ (k + 1) ∧ (s.rotclRn (.r n) (.r n)).toNat = low % 2 ^ (31 - k) * 2 ^ (k + 1) + u ∧
        ∃ c : Int, (u : Int) = (if neg then -1 - q else q) + 2 ^ (k + 1) * c := by
  obtain ⟨u, hu, hbits, hc⟩ := hs.bits
  have hspec := s.rotclRn_spec n
  have hpow : 2 ^ (32 - k) = 2 ^ (31 - k) * 2 := by
    rw [← Nat.pow_succ]
    congr 1
    omega
  have hprod : 2 ^ (31 - k) * 2 ^ (k + 1) = 2 ^ 32 := by
    rw [← Nat.pow_add]
    congr 1
    omega
  -- the top bit of what is left of the dividend
  have hsplit : low % 2 ^ (32 - k) = low % 2 ^ (31 - k) + 2 ^ (31 - k) * (low / 2 ^ (31 - k) % 2) := by
    rw [hpow, Nat.mod_mul]
  have hlow : low % 2 ^ (31 - k) * 2 ^ (k + 1) + u < 2 ^ 32 := by
    have hmod : low % 2 ^ (31 - k) + 1 ≤ 2 ^ (31 - k) := Nat.mod_lt _ (Nat.two_pow_pos _)
    calc low % 2 ^ (31 - k) * 2 ^ (k + 1) + u < low % 2 ^ (31 - k) * 2 ^ (k + 1) + 2 ^ (k + 1) := by omega
      _ = (low % 2 ^ (31 - k) + 1) * 2 ^ (k + 1) := (Nat.succ_mul _ _).symm
      _ ≤ 2 ^ (31 - k) * 2 ^ (k + 1) := Nat.mul_le_mul_right _ hmod
      _ = 2 ^ 32 := hprod
  have htotal : 2 * (s (.r n)).toNat + (s.flag shSrT).toNat =
      low / 2 ^ (31 - k) % 2 * 2 ^ 32 + (low % 2 ^ (31 - k) * 2 ^ (k + 1) + u) := by
    rw [hbits, hsplit, ← hprod]
    ring
  rw [htotal] at hspec
  generalize low % 2 ^ (31 - k) * 2 ^ (k + 1) = rest at hspec hlow ⊢
  refine ⟨by omega, u, hu, by omega, hc⟩

theorem step (hs : Stepping m h n neg d y low k r q s) (hk : k < 32) (hmn : m ≠ n) (hmh : m ≠ h) (hnh : n ≠ h) :
    ∃ r' q', Stepping m h n neg d y low (k + 1) r' q' (execAll (divStep m h n) s) := by
  obtain ⟨htop, u, hu, hword, c, hc⟩ := hs.rotcl hk
  have hremainder : (s.rotclRn (.r n)).HoldsRemainder h r := by
    obtain ⟨hval, hq⟩ := hs.remainder
    refine ⟨?_, ?_⟩
    · rw [Regs.rotclRn_of_ne hnh.symm]
      exact hval
    · rw [Regs.rotclRn_flag (by decide) (by decide)]
      exact hq
  have hdivisor : (s.rotclRn (.r n)).HoldsDivisor m neg d := by
    obtain ⟨hval, hm⟩ := hs.divisor
    refine ⟨?_, ?_⟩
    · rw [Regs.rotclRn_of_ne hmn]
      exact hval
    · rw [Regs.rotclRn_flag (by decide) (by decide)]
      exact hm
  obtain ⟨hr', hd', ht'⟩ := Regs.div1RmRn_spec hmh hs.dividing.low hs.dividing.high hremainder hdivisor
  have hn' : (s.rotclRn (.r n)).div1RmRn (.r m) (.r h) (.r n) = s.rotclRn (.r n) (.r n) :=
    (Regs.div1RmRn_eq m h (s.rotclRn (.r n))).2.2.2.2 n hnh
  have hbit : (((s.rotclRn (.r n)).flag shSrT).toNat : Int) = 0 ∨
      (((s.rotclRn (.r n)).flag shSrT).toNat : Int) = 1 := by
    cases (s.rotclRn (.r n)).flag shSrT
    · exact Or.inl rfl
    · exact Or.inr rfl
  have hdividing := hs.dividing.step hbit
  have hdividend : 2 * (y * 2 ^ k + ((low / 2 ^ (32 - k) : Nat) : Int)) + ((s.rotclRn (.r n)).flag shSrT).toNat =
      y * 2 ^ (k + 1) + ((low / 2 ^ (32 - (k + 1)) : Nat) : Int) := by
    have hpow : 2 ^ (32 - k) = 2 ^ (31 - k) * 2 := by
      rw [← Nat.pow_succ]
      congr 1
      omega
    have hhalf : low / 2 ^ (32 - k) = low / 2 ^ (31 - k) / 2 := by rw [hpow, Nat.div_div_eq_div_mul]
    have hnext : 32 - (k + 1) = 31 - k := by omega
    rw [htop, hhalf, hnext, pow_succ]
    have hdm := Nat.div_add_mod (low / 2 ^ (31 - k)) 2
    generalize low / 2 ^ (31 - k) = z at hdm ⊢
    have hcast : ((z : Nat) : Int) = 2 * ((z / 2 : Nat) : Int) + ((z % 2 : Nat) : Int) := by exact_mod_cast hdm.symm
    rw [hcast]
    ring
  rw [hdividend] at hdividing
  generalize nextRemainder d r ((s.rotclRn (.r n)).flag shSrT).toNat = r' at hr' hd' ht' hdividing
  refine ⟨_, _, hdividing, hr', hd', ⟨2 * u + (decide (r' < 0) == neg).toNat, ?_, ?_, c, ?_⟩, fun _ => ?_⟩
  · have hbool := (decide (r' < 0) == neg).toNat_le
    rw [Nat.pow_succ]
    omega
  · show 2 * ((s.rotclRn (.r n)).div1RmRn (.r m) (.r h) (.r n)).toNat +
      (((s.rotclRn (.r n)).div1RmRn (.r m) (.r h)).flag shSrT).toNat = _
    have hnext : 32 - (k + 1) = 31 - k := by omega
    rw [hn', hword, ht', hnext, Nat.pow_succ 2 (k + 1)]
    ring
  · -- the bit is inverted for a negative divisor, as the others are
    have hnew : ((decide (r' < 0) == neg).toNat : Int) =
        (if neg then 1 else 0) + (if neg then -1 else 1) * (if r' < 0 then 0 else 1) := by
      by_cases hneg : r' < 0
      · rw [decide_eq_true hneg, if_pos hneg]
        cases neg <;> rfl
      · rw [decide_eq_false hneg, if_neg hneg]
        cases neg <;> rfl
    rw [Nat.cast_add, Nat.cast_mul, hnew, hc, pow_succ]
    cases neg with
    | true =>
      simp only [if_true]
      ring
    | false =>
      simp only [Bool.false_eq_true, if_false]
      ring
  · split <;> omega

theorem loop (hmn : m ≠ n) (hmh : m ≠ h) (hnh : n ≠ h) (hs : ∃ r q, Stepping m h n neg d y low 0 r q s) :
    ∀ {k : Nat}, k ≤ 32 →
      ∃ r q, Stepping m h n neg d y low k r q (execAll (List.replicate k (divStep m h n)).flatten s)
  | 0, _ => hs
  | k + 1, hk => by
    obtain ⟨r, q, hprev⟩ := loop hmn hmh hnh hs (Nat.le_of_succ_le hk)
    have hsplit : execAll (List.replicate (k + 1) (divStep m h n)).flatten s =
        execAll (divStep m h n) (execAll (List.replicate k (divStep m h n)).flatten s) := by
      unfold execAll
      rw [List.replicate_succ', List.flatten_append, List.foldl_append]
      rfl
    rw [hsplit]
    exact hprev.step hk hmn hmh hnh

theorem rotcl_last (hs : Stepping m h n neg d y low 32 r q s)
    (hrange : -2 ^ 32 ≤ (if neg then -1 - q else q) ∧ (if neg then -1 - q else q) < 2 ^ 32) :
    let e := if neg then -1 - q else q
    ((s.rotclRn (.r n) (.r n)).toNat : Int) = e + (if e < 0 then 2 ^ 32 else 0) ∧
      (s.rotclRn (.r n)).flag shSrT = decide (e < 0) := by
  obtain ⟨u, hu, hbits, c, hc⟩ := hs.bits
  have hspec := s.rotclRn_spec n
  have hone : low % 2 ^ (32 - 32) = 0 := Nat.mod_one low
  rw [hone, Nat.zero_mul, Nat.zero_add] at hbits
  rw [hbits] at hspec
  dsimp only
  generalize (if neg then -1 - q else q) = e at hrange hc ⊢
  cases hflag : (s.rotclRn (.r n)).flag shSrT with
  | true =>
    rw [hflag] at hspec
    have hu' : u = 1 * 2 ^ 32 + (s.rotclRn (.r n) (.r n)).toNat := hspec
    have hneg : e < 0 := by omega
    rw [if_pos hneg, decide_eq_true hneg]
    exact ⟨by omega, rfl⟩
  | false =>
    rw [hflag] at hspec
    have hu' : u = 0 * 2 ^ 32 + (s.rotclRn (.r n) (.r n)).toNat := hspec
    have hneg : ¬ e < 0 := by omega
    rw [if_neg hneg, decide_eq_false hneg]
    exact ⟨by omega, rfl⟩

end Stepping

/-! ## Unsigned division -/

/-- `div0u`, 32 times `rotcl n` and `div1 m,h`, and `rotcl n`. -/
def unsignedDivision (m h n : BitVec 4) : List AluInstr :=
  .div0u :: ((List.replicate 32 (divStep m h n)).flatten ++ [.rotcl n])

theorem Regs.div0u_flags (s : Regs) :
    s.div0u.flag shSrQ = false ∧ s.div0u.flag shSrM = false ∧ s.div0u.flag shSrT = false := by
  unfold flag div0u
  rw [set_same]
  exact ⟨anyBit_clear (by decide), anyBit_clear (by decide), anyBit_clear (by decide)⟩

theorem Regs.div0u_r (s : Regs) (i : BitVec 4) : s.div0u (.r i) = s (.r i) := set_of_ne nofun

theorem stepping_div0u {m h n : BitVec 4} {s : Regs} (hlt : s (.r h) < s (.r m)) :
    Stepping m h n false (s (.r m)).toNat (s (.r h)).toNat (s (.r n)).toNat 0 (s (.r h)).toNat 0 s.div0u := by
  obtain ⟨hq, hm, ht⟩ := s.div0u_flags
  have hlt' : (s (.r h)).toNat < (s (.r m)).toNat := hlt
  have hpos : ¬ ((s (.r h)).toNat : Int) < 0 := by omega
  have hnone : (s (.r n)).toNat / 2 ^ (32 - 0) = 0 := Nat.div_eq_of_lt (s (.r n)).isLt
  refine ⟨?_, ⟨?_, ?_⟩, ⟨?_, hm⟩, ⟨0, by decide, ?_, 0, rfl⟩, fun hk => absurd hk (Nat.lt_irrefl 0)⟩
  · have hstart := Dividing.start (d := (s (.r m)).toNat) (y := (s (.r h)).toNat) (by omega) (by omega)
    rw [if_neg hpos] at hstart
    rw [hnone]
    simpa using hstart
  · rw [Regs.div0u_r, if_neg hpos, Int.add_zero]
  · rw [hq, decide_eq_false hpos]
  · rw [Regs.div0u_r]
    rfl
  · rw [Regs.div0u_r, ht, Nat.mod_eq_of_lt (s (.r n)).isLt]
    show _ + 0 = _
    omega

theorem unsignedDivision_spec {m h n : BitVec 4} (hmn : m ≠ n) (hmh : m ≠ h) (hnh : n ≠ h) {s : Regs}
    (hlt : s (.r h) < s (.r m)) :
    let dividend := (s (.r h)).toNat * 2 ^ 32 + (s (.r n)).toNat
    let divisor := (s (.r m)).toNat
    let s' := execAll (unsignedDivision m h n) s
    (s' (.r n)).toNat = dividend / divisor ∧
      s' (.r h) = (if dividend / divisor % 2 = 0 then BitVec.ofNat 32 (dividend % divisor) - s (.r m)
        else BitVec.ofNat 32 (dividend % divisor)) := by
  obtain ⟨r, q, hloop⟩ := Stepping.loop hmn hmh hnh ⟨_, _, stepping_div0u hlt⟩ (Nat.le_refl 32)
  have hrun : execAll (unsignedDivision m h n) s =
      (execAll (List.replicate 32 (divStep m h n)).flatten s.div0u).rotclRn (.r n) := by
    unfold unsignedDivision execAll
    rw [List.foldl_cons, List.foldl_append]
    rfl
  have hlt' : (s (.r h)).toNat < (s (.r m)).toNat := hlt
  dsimp only
  rw [hrun]
  have hone : (s (.r n)).toNat / 2 ^ (32 - 32) = (s (.r n)).toNat := Nat.div_one _
  have hdividing := hloop.dividing
  rw [hone] at hdividing
  have hq : q = (((s (.r h)).toNat * 2 ^ 32 + (s (.r n)).toNat) / (s (.r m)).toNat : Nat) := by
    rw [hdividing.quotient]
    rfl
  have hquot : ((s (.r h)).toNat * 2 ^ 32 + (s (.r n)).toNat) / (s (.r m)).toNat < 2 ^ 32 := by
    rw [Nat.div_lt_iff_lt_mul (by omega)]
    calc (s (.r h)).toNat * 2 ^ 32 + (s (.r n)).toNat < ((s (.r h)).toNat + 1) * 2 ^ 32 := by omega
      _ ≤ (s (.r m)).toNat * 2 ^ 32 := Nat.mul_le_mul_right _ hlt'
      _ = 2 ^ 32 * (s (.r m)).toNat := Nat.mul_comm _ _
  have hrem : (((s (.r h)).toNat * 2 ^ 32 + (s (.r n)).toNat) % (s (.r m)).toNat : Nat) =
      if r < 0 then r + (s (.r m)).toNat else r := by
    rw [← hdividing.remainder]
    rfl
  have hlast := hloop.last (by decide)
  generalize ((s (.r h)).toNat * 2 ^ 32 + (s (.r n)).toNat) / (s (.r m)).toNat = quot at hq hquot ⊢
  generalize ((s (.r h)).toNat * 2 ^ 32 + (s (.r n)).toNat) % (s (.r m)).toNat = rem at hrem ⊢
  have hnonneg : ¬ q < 0 := by omega
  have hword := (hloop.rotcl_last (show -2 ^ 32 ≤ q ∧ q < 2 ^ 32 by omega)).1
  simp only [Bool.false_eq_true, if_false, if_neg hnonneg] at hword
  obtain ⟨hval, -⟩ := hloop.remainder
  generalize execAll (List.replicate 32 (divStep m h n)).flatten s.div0u = s' at hword hval ⊢
  refine ⟨by omega, ?_⟩
  rw [Regs.rotclRn_of_ne hnh.symm]
  apply BitVec.eq_of_toNat_eq
  by_cases hneg : r < 0
  · rw [if_pos hneg] at hval hrem
    rw [if_pos (by omega), BitVec.toNat_sub, BitVec.toNat_ofNat]
    omega
  · rw [if_neg hneg] at hval hrem
    rw [if_neg (by omega), BitVec.toNat_ofNat]
    omega

/-! ## Signed division -/

/-- The division of two signed numbers of 32 bits. The dividend is extended into `h`, and converted to
one's complement and the quotient back from it. -/
def signedDivision (m h n z : BitVec 4) : List AluInstr :=
  [.mov n z, .rotcl z, .subc h h, .xor z z, .subc z n, .div0s m h] ++
    ((List.replicate 32 (divStep m h n)).flatten ++ [.rotcl n, .addc z n])

theorem sign_bit_iff (x : Word) : x &&& 0x80000000#32 ≠ 0#32 ↔ x.toInt < 0 := by
  have hpow : (0x80000000#32 : Word) = BitVec.twoPow 32 31 := rfl
  rw [hpow, BitVec.and_twoPow, BitVec.getLsbD, Nat.testBit_eq_decide_div_mod_eq, BitVec.toInt_eq_toNat_cond]
  split
  · rename_i hbit
    rw [decide_eq_true_iff] at hbit
    exact ⟨fun _ => by omega, fun _ => by decide⟩
  · rename_i hbit
    rw [decide_eq_true_iff] at hbit
    exact ⟨fun hne => absurd rfl hne, fun hneg => by omega⟩

theorem sign_bits_differ_iff (x y : Word) :
    (x &&& 0x80000000#32) ^^^ (y &&& 0x80000000#32) ≠ 0#32 ↔ ¬ (x.toInt < 0 ↔ y.toInt < 0) := by
  have hpow : (0x80000000#32 : Word) = BitVec.twoPow 32 31 := rfl
  rw [← sign_bit_iff x, ← sign_bit_iff y, hpow, BitVec.and_twoPow, BitVec.and_twoPow]
  split <;> split <;> decide

theorem flags_of_div0s (sr : Word) (q m t : Prop) [Decidable q] [Decidable m] [Decidable t] :
    let sr' := sr &&& ~~~ (shSrQ ||| shSrM ||| shSrT)
    let sr' := if q then sr' ||| shSrQ else sr'
    let sr' := if m then sr' ||| shSrM else sr'
    let sr' := if t then sr' ||| shSrT else sr'
    anyBit sr' shSrQ = decide q ∧ anyBit sr' shSrM = decide m ∧ anyBit sr' shSrT = decide t := by
  have hq : anyBit (sr &&& ~~~ (shSrQ ||| shSrM ||| shSrT)) shSrQ = false := anyBit_clear (by decide)
  have hm : anyBit (sr &&& ~~~ (shSrQ ||| shSrM ||| shSrT)) shSrM = false := anyBit_clear (by decide)
  have ht : anyBit (sr &&& ~~~ (shSrQ ||| shSrM ||| shSrT)) shSrT = false := anyBit_clear (by decide)
  simp [Regs.anyBit_ite_or, Regs.divBits, hq, hm, ht]

theorem Regs.div0sRmRn_flags (m n : BitVec 4) (s : Regs) :
    let s' := s.div0sRmRn (.r m) (.r n)
    s'.flag shSrQ = decide ((s (.r n)).toInt < 0) ∧ s'.flag shSrM = decide ((s (.r m)).toInt < 0) ∧
      s'.flag shSrT = decide (¬ ((s (.r m)).toInt < 0 ↔ (s (.r n)).toInt < 0)) ∧ ∀ i, s' (.r i) = s (.r i) := by
  obtain ⟨hq, hm, ht⟩ := flags_of_div0s (s .sr) (s (.r n) &&& 0x80000000#32 ≠ 0#32)
    (s (.r m) &&& 0x80000000#32 ≠ 0#32)
    ((s (.r m) &&& 0x80000000#32) ^^^ (s (.r n) &&& 0x80000000#32) ≠ 0#32)
  unfold flag div0sRmRn
  dsimp only at hq hm ht ⊢
  rw [set_same, hq, hm, ht]
  refine ⟨decide_eq_decide.mpr (sign_bit_iff _), decide_eq_decide.mpr (sign_bit_iff _),
    decide_eq_decide.mpr (sign_bits_differ_iff _ _), fun i => set_of_ne nofun⟩

theorem loop_keeps {m h n i : BitVec 4} (hih : i ≠ h) (hin : i ≠ n) :
    ∀ (k : Nat) (s : Regs), execAll (List.replicate k (divStep m h n)).flatten s (.r i) = s (.r i)
  | 0, _ => rfl
  | k + 1, s => by
    have hstep : execAll (divStep m h n) s (.r i) = s (.r i) := by
      show (s.rotclRn (.r n)).div1RmRn (.r m) (.r h) (.r i) = _
      rw [(Regs.div1RmRn_eq m h _).2.2.2.2 i hih, Regs.rotclRn_of_ne hin]
    have hsplit : execAll (List.replicate (k + 1) (divStep m h n)).flatten s =
        execAll (List.replicate k (divStep m h n)).flatten (execAll (divStep m h n) s) := by
      unfold execAll
      rw [List.replicate_succ, List.flatten_cons, List.foldl_append]
    rw [hsplit, loop_keeps hih hin k, hstep]

theorem quotient_truncated {x d q : Int} (hd : 0 < d) (neg : Bool) (hq : q = (x + if x < 0 then -1 else 0) / d) :
    let e := if neg then -1 - q else q
    e + (if e < 0 then 1 else 0) = x.tdiv (if neg then -d else d) := by
  have hbase : x.tdiv d = if x < 0 then q + 1 else q := by
    by_cases hx : x < 0
    · rw [if_pos hx] at hq ⊢
      obtain ⟨hlow, hhigh⟩ := (Int.ediv_eq_iff_of_pos hd).mp hq.symm
      have hneg : (-x) / d = -(q + 1) := by
        rw [Int.ediv_eq_iff_of_pos hd]
        constructor <;> linarith
      calc x.tdiv d = -((-x).tdiv d) := by rw [Int.neg_tdiv, Int.neg_neg]
        _ = -((-x) / d) := by rw [Int.tdiv_eq_ediv_of_nonneg (by omega)]
        _ = q + 1 := by rw [hneg, Int.neg_neg]
    · rw [if_neg hx, Int.add_zero] at hq
      rw [if_neg hx, hq, Int.tdiv_eq_ediv_of_nonneg (by omega)]
  have hsign : q < 0 ↔ x < 0 := by
    rw [hq, Int.ediv_lt_iff_lt_mul hd]
    split <;> omega
  dsimp only
  cases neg with
  | true =>
    rw [if_pos rfl, if_pos rfl, Int.tdiv_neg, hbase]
    split <;> split <;> omega
  | false =>
    have hfalse : ¬ false = true := Bool.false_ne_true
    rw [if_neg hfalse, if_neg hfalse, hbase]
    split <;> split <;> omega

theorem tdiv_ne_two_pow {x d : Int} (hlow : -2 ^ 31 ≤ x) (hhigh : x < 2 ^ 31) (hover : ¬ (x = -2 ^ 31 ∧ d = -1)) :
    x.tdiv d ≠ 2 ^ 31 := by
  intro heq
  have habs : x.natAbs / d.natAbs = 2 ^ 31 := by
    have hquot := Int.natAbs_tdiv x d
    rw [heq] at hquot
    exact hquot.symm
  have hle : 2 ^ 31 ≤ x.natAbs := habs ▸ Nat.div_le_self _ _
  have hx : x = -2 ^ 31 := by omega
  have hd : d.natAbs = 1 := by
    by_contra hne
    have hlt : x.natAbs / d.natAbs < 2 ^ 31 := by
      rw [hx]
      rcases Nat.eq_zero_or_pos d.natAbs with h0 | hpos
      · rw [h0, Nat.div_zero]
        decide
      · exact Nat.div_lt_self (by decide) (by omega)
    omega
  rcases Int.natAbs_eq d with hpos | hneg
  · rw [hpos, hd, hx] at heq
    exact absurd heq (by decide)
  · exact hover ⟨hx, by rw [hneg, hd]; rfl⟩

section
variable {m h n z : BitVec 4} (hmn : m ≠ n) (hmh : m ≠ h) (hnh : n ≠ h) (hmz : m ≠ z) (hnz : n ≠ z)
  (hhz : h ≠ z) (s : Regs)

include hmn hmh hnh hmz hnz hhz

theorem onesComplement_spec :
    let s' := execAll [.mov n z, .rotcl z, .subc h h, .xor z z, .subc z n] s
    let sign := (decide ((s (.r n)).toInt < 0)).toNat
    (s' (.r n)).toNat + sign = (s (.r n)).toNat ∧ (s' (.r h)).toNat = sign * (2 ^ 32 - 1) ∧ s' (.r z) = 0#32 ∧
      s' (.r m) = s (.r m) := by
  obtain ⟨s1, hs1⟩ : ∃ s1, s1 = s.movRmRn (.r n) (.r z) := ⟨_, rfl⟩
  obtain ⟨s2, hs2⟩ : ∃ s2, s2 = s1.rotclRn (.r z) := ⟨_, rfl⟩
  obtain ⟨s3, hs3⟩ : ∃ s3, s3 = s2.subcRmRn (.r h) (.r h) := ⟨_, rfl⟩
  obtain ⟨s4, hs4⟩ : ∃ s4, s4 = s3.xorRmRn (.r z) (.r z) := ⟨_, rfl⟩
  obtain ⟨s5, hs5⟩ : ∃ s5, s5 = s4.subcRmRn (.r z) (.r n) := ⟨_, rfl⟩
  have hrun : execAll [.mov n z, .rotcl z, .subc h h, .xor z z, .subc z n] s = s5 := by
    rw [hs5, hs4, hs3, hs2, hs1]
    rfl
  dsimp only
  rw [hrun]
  -- the registers that an instruction does not write
  have hkeep1 : ∀ i ≠ z, s1 (.r i) = s (.r i) := fun i hi => hs1 ▸ Regs.set_r_of_ne hi _
  have hkeep2 : ∀ i ≠ z, s2 (.r i) = s1 (.r i) := fun i hi => hs2 ▸ Regs.rotclRn_of_ne hi
  have hkeep3 : ∀ i ≠ h, s3 (.r i) = s2 (.r i) := fun i hi => hs3 ▸ Regs.subcRmRn_of_ne hi
  have hkeep4 : ∀ i ≠ z, s4 (.r i) = s3 (.r i) := fun i hi => hs4 ▸ Regs.set_r_of_ne hi _
  have hkeep5 : ∀ i ≠ n, s5 (.r i) = s4 (.r i) := fun i hi => hs5 ▸ Regs.subcRmRn_of_ne hi
  have hz1 : s1 (.r z) = s (.r n) := hs1 ▸ Regs.set_same
  have hz4 : s4 (.r z) = 0#32 := by
    rw [hs4]
    exact Regs.set_same.trans BitVec.xor_self
  have hspec2 := s1.rotclRn_spec z
  have hspec3 := s2.subcRmRn_spec h h
  have hspec5 := s4.subcRmRn_spec z n
  have hflag4 : s4.flag shSrT = s3.flag shSrT := hs4 ▸ Regs.flag_set_r _ _ _
  rw [← hs2, hz1] at hspec2
  rw [← hs3] at hspec3
  rw [← hs5, hz4, hflag4, hkeep4 n hnz, hkeep3 n hnh, hkeep2 n hnz, hkeep1 n hnz] at hspec5
  have hh5 : s5 (.r h) = s3 (.r h) := (hkeep5 h hnh.symm).trans (hkeep4 h hhz)
  have hm5 : s5 (.r m) = s (.r m) := by
    rw [hkeep5 m hmn, hkeep4 m hmz, hkeep3 m hmh, hkeep2 m hmz, hkeep1 m hmz]
  have hz5 : s5 (.r z) = 0#32 := (hkeep5 z hnz.symm).trans hz4
  have hzero : (0#32 : Word).toNat = 0 := rfl
  rw [hzero] at hspec5
  have hneg : (s (.r n)).toInt < 0 ↔ 2 ^ 31 ≤ (s (.r n)).toNat := by
    rw [BitVec.toInt_eq_toNat_cond]
    split <;> omega
  have ht1 := (s1.flag shSrT).toNat_le
  have hsign : (decide ((s (.r n)).toInt < 0)).toNat = (s2.flag shSrT).toNat := by
    by_cases hlt : (s (.r n)).toInt < 0
    · rw [decide_eq_true hlt]
      show 1 = _
      omega
    · rw [decide_eq_false hlt]
      show 0 = _
      omega
  rw [hh5, hsign]
  refine ⟨by omega, by omega, hz5, hm5⟩

theorem stepping_div0s (hd : s (.r m) ≠ 0#32) :
    let s' := execAll [.mov n z, .rotcl z, .subc h h, .xor z z, .subc z n, .div0s m h] s
    let neg := decide ((s (.r m)).toInt < 0)
    let sign : Int := if (s (.r n)).toInt < 0 then -1 else 0
    ∃ low : Nat, sign * 2 ^ 32 + low = (s (.r n)).toInt + sign ∧ low < 2 ^ 32 ∧ s' (.r z) = 0#32 ∧
      Stepping m h n neg (s (.r m)).toInt.natAbs sign low 0 sign sign s' := by
  obtain ⟨hn, hh, hz, hm⟩ := onesComplement_spec hmn hmh hnh hmz hnz hhz s
  obtain ⟨s5, hs5⟩ : ∃ s5, s5 = execAll [.mov n z, .rotcl z, .subc h h, .xor z z, .subc z n] s := ⟨_, rfl⟩
  rw [← hs5] at hn hh hz hm
  have hrun : execAll [.mov n z, .rotcl z, .subc h h, .xor z z, .subc z n, .div0s m h] s =
      s5.div0sRmRn (.r m) (.r h) := by
    rw [hs5]
    rfl
  obtain ⟨hQ, hM, hT, hkeep⟩ := s5.div0sRmRn_flags m h
  dsimp only
  rw [hrun]
  generalize s5.div0sRmRn (.r m) (.r h) = s' at hQ hM hT hkeep ⊢
  have hn5 := (s5 (.r n)).isLt
  have hm0 : (s (.r m)).toNat ≠ 0 := fun h0 => hd (BitVec.eq_of_toNat_eq h0)
  have htoIntN := BitVec.toInt_eq_toNat_cond (s (.r n))
  have htoIntM := BitVec.toInt_eq_toNat_cond (s (.r m))
  have hsignH : (s5 (.r h)).toInt < 0 ↔ (s (.r n)).toInt < 0 := by
    rw [BitVec.toInt_eq_toNat_cond, hh]
    by_cases hneg : (s (.r n)).toInt < 0
    · simp [hneg]
    · simp [hneg]
  rw [hm] at hM hT
  rw [hkeep z, hz]
  have hnone : (s5 (.r n)).toNat / 2 ^ (32 - 0) = 0 := Nat.div_eq_of_lt hn5
  refine ⟨(s5 (.r n)).toNat, ?_, hn5, rfl, ⟨?_, ⟨?_, ?_⟩, ⟨?_, hM⟩, ⟨(s'.flag shSrT).toNat, ?_, ?_, ?_⟩,
    fun hk => absurd hk (Nat.lt_irrefl 0)⟩⟩
  · by_cases hneg : (s (.r n)).toInt < 0
    · rw [decide_eq_true hneg] at hn
      have hn' : (s5 (.r n)).toNat + 1 = (s (.r n)).toNat := hn
      rw [if_pos hneg]
      split at htoIntN <;> omega
    · rw [decide_eq_false hneg] at hn
      have hn' : (s5 (.r n)).toNat + 0 = (s (.r n)).toNat := hn
      rw [if_neg hneg]
      split at htoIntN <;> omega
  · rw [hnone]
    by_cases hneg : (s (.r n)).toInt < 0
    · have hstart := Dividing.start (d := (s (.r m)).toInt.natAbs) (y := -1) (by omega) (by omega)
      simpa [hneg] using hstart
    · have hstart := Dividing.start (d := (s (.r m)).toInt.natAbs) (y := 0) (by omega) (by omega)
      simpa [hneg] using hstart
  · rw [hkeep h, hh]
    by_cases hneg : (s (.r n)).toInt < 0
    · simp [hneg]
    · simp [hneg]
  · rw [hQ, decide_eq_decide, hsignH]
    by_cases hneg : (s (.r n)).toInt < 0
    · simp [hneg]
    · simp [hneg]
  · rw [hkeep m, hm]
    by_cases hneg : (s (.r m)).toInt < 0
    · rw [decide_eq_true hneg, if_pos rfl]
      split at htoIntM <;> omega
    · rw [decide_eq_false hneg, if_neg (by decide)]
      split at htoIntM <;> omega
  · have hle := (s'.flag shSrT).toNat_le
    omega
  · rw [hkeep n, Nat.mod_eq_of_lt (by exact hn5)]
    omega
  · -- T tells whether the signs differ, and the quotient so far has the sign of the dividend
    simp only [hT, hsignH]
    by_cases hnegM : (s (.r m)).toInt < 0 <;> by_cases hnegN : (s (.r n)).toInt < 0
    · exact ⟨0, by simp [hnegM, hnegN]⟩
    · exact ⟨1, by simp [hnegM, hnegN]⟩
    · exact ⟨1, by simp [hnegM, hnegN]⟩
    · exact ⟨0, by simp [hnegM, hnegN]⟩

theorem signedDivision_spec (hd : s (.r m) ≠ 0#32)
    (hover : ¬ ((s (.r n)).toInt = -2 ^ 31 ∧ (s (.r m)).toInt = -1)) :
    (execAll (signedDivision m h n z) s (.r n)).toInt = (s (.r n)).toInt.tdiv (s (.r m)).toInt := by
  obtain ⟨low, hdividend, hlow, hzero, hstart⟩ := stepping_div0s hmn hmh hnh hmz hnz hhz s hd
  obtain ⟨s6, hs6⟩ : ∃ s6, s6 = execAll [.mov n z, .rotcl z, .subc h h, .xor z z, .subc z n, .div0s m h] s :=
    ⟨_, rfl⟩
  rw [← hs6] at hzero hstart
  obtain ⟨r, q, hloop⟩ := Stepping.loop hmn hmh hnh ⟨_, _, hstart⟩ (Nat.le_refl 32)
  obtain ⟨s7, hs7⟩ : ∃ s7, s7 = execAll (List.replicate 32 (divStep m h n)).flatten s6 := ⟨_, rfl⟩
  have hzero7 : s7 (.r z) = 0#32 := by rw [hs7, loop_keeps hhz.symm hnz.symm, hzero]
  rw [← hs7] at hloop
  have hrun : execAll (signedDivision m h n z) s = (s7.rotclRn (.r n)).addcRmRn (.r z) (.r n) := by
    rw [hs7, hs6]
    unfold signedDivision execAll
    rw [List.foldl_append, List.foldl_append]
    rfl
  have hmInt := BitVec.toInt_eq_toNat_cond (s (.r m))
  have hnInt := BitVec.toInt_eq_toNat_cond (s (.r n))
  have hm0 : (s (.r m)).toNat ≠ 0 := fun h0 => hd (BitVec.eq_of_toNat_eq h0)
  have hpos : 0 < ((s (.r m)).toInt.natAbs : Int) := by split at hmInt <;> omega
  have hone : low / 2 ^ (32 - 32) = low := Nat.div_one _
  have hq : q = ((s (.r n)).toInt + if (s (.r n)).toInt < 0 then -1 else 0) / (s (.r m)).toInt.natAbs := by
    rw [hloop.dividing.quotient, hone, hdividend]
  have htrunc := quotient_truncated hpos (decide ((s (.r m)).toInt < 0)) hq
  have hdivisor : (if decide ((s (.r m)).toInt < 0) then -((s (.r m)).toInt.natAbs : Int)
      else (s (.r m)).toInt.natAbs) = (s (.r m)).toInt := by
    by_cases hneg : (s (.r m)).toInt < 0
    · rw [decide_eq_true hneg, if_pos rfl]
      omega
    · rw [decide_eq_false hneg, if_neg (by decide)]
      omega
  rw [hdivisor] at htrunc
  have habs : ((s (.r n)).toInt.tdiv (s (.r m)).toInt).natAbs ≤ (s (.r n)).toInt.natAbs := by
    rw [Int.natAbs_tdiv]
    exact Nat.div_le_self _ _
  dsimp only at htrunc
  have hlast := hloop.rotcl_last
  have hspec := (s7.rotclRn (.r n)).addcRmRn_spec z n
  rw [Regs.rotclRn_of_ne hnz.symm, hzero7] at hspec
  rw [hrun, BitVec.toInt_eq_toNat_cond]
  generalize (if decide ((s (.r m)).toInt < 0) then -1 - q else q) = e at htrunc hlast
  have hnmin : -2 ^ 31 ≤ (s (.r n)).toInt ∧ (s (.r n)).toInt < 2 ^ 31 := by split at hnInt <;> omega
  have hfits := tdiv_ne_two_pow hnmin.1 hnmin.2 hover
  generalize (s (.r n)).toInt.tdiv (s (.r m)).toInt = quot at htrunc habs hfits ⊢
  obtain ⟨hval, hsign⟩ := hlast (by split at htrunc <;> omega)
  have hzeroNat : (0#32 : Word).toNat = 0 := rfl
  rw [hsign, hzeroNat] at hspec
  -- what is added at the end makes two's complement of the quotient again
  by_cases hneg : e < 0
  · rw [if_pos hneg] at htrunc hval
    rw [decide_eq_true hneg] at hspec
    have hone : (true : Bool).toNat = 1 := rfl
    rw [hone] at hspec
    split <;> omega
  · rw [if_neg hneg] at htrunc hval
    rw [decide_eq_false hneg] at hspec
    have hnone : (false : Bool).toNat = 0 := rfl
    rw [hnone] at hspec
    split <;> omega

end

/-! ## Step division -/

/-- Both divisions, in all registers and for all numbers. -/
theorem stepDivision_divides {m h n : BitVec 4} (hmn : m ≠ n) (hmh : m ≠ h) (hnh : n ≠ h) {s : Regs}
    (hd : s (.r m) ≠ 0#32) :
    (s (.r h) < s (.r m) →
      ∃ s', execWords ((unsignedDivision m h n).map AluInstr.iword) s = some s' ∧
        (s' (.r n)).toNat = ((s (.r h)).toNat * 2 ^ 32 + (s (.r n)).toNat) / (s (.r m)).toNat ∧
        s' (.r h) =
          let rem := BitVec.ofNat 32 (((s (.r h)).toNat * 2 ^ 32 + (s (.r n)).toNat) % (s (.r m)).toNat)
          if (s' (.r n)).toNat % 2 = 0 then rem - s (.r m) else rem) ∧
    ∀ z, z ≠ m → z ≠ n → z ≠ h → ¬ ((s (.r n)).toInt = -2 ^ 31 ∧ (s (.r m)).toInt = -1) →
      ∃ s', execWords ((signedDivision m h n z).map AluInstr.iword) s = some s' ∧
        (s' (.r n)).toInt = (s (.r n)).toInt.tdiv (s (.r m)).toInt := by
  refine ⟨fun hlt => ⟨_, execWords_iword _ _, ?_⟩, fun z hzm hzn hzh hover => ⟨_, execWords_iword _ _, ?_⟩⟩
  · obtain ⟨hquot, hrem⟩ := unsignedDivision_spec hmn hmh hnh hlt
    refine ⟨hquot, ?_⟩
    rw [hquot]
    exact hrem
  · exact signedDivision_spec hmn hmh hnh hzm.symm hzn.symm hzh.symm s hd hover

/-- -7 is divided by 2. -/
theorem stepDivision_divides_seven :
    ∃ s', execWords ((signedDivision 0 1 2 3).map AluInstr.iword)
      (fun x => if x = .r 0 then 2#32 else if x = .r 2 then -7#32 else 0#32) = some s' ∧ (s' (.r 2)).toInt = -3 :=
  (stepDivision_divides (m := 0) (h := 1) (n := 2) (by decide) (by decide) (by decide) (by decide)).2 3 (by decide)
    (by decide) (by decide) (by decide)

end Gxemul.Sh
