import Gxemul.Lib.Masks
import Gxemul.Ppc.Rotate

/- When the rotate, shift and mask instructions of PowerPC compute the value of the
   architecture (`Gxemul.Ppc.Rotate`).

   Each loop ends, whatever the operands are. Its result is a mask, a word with some bits
   set, cleared or copied, or a rotation. -/
namespace Gxemul.Ppc

open Lib

/-! ## CR0 -/

section
variable {c : PpcCpu}

theorem cr0_eq (cr : BitVec 32) (n : BitVec 4) :
    (cr &&& ~~~ (0xf#32 <<< 28) ||| n.setWidth 32 <<< 28) = n ++ cr.setWidth 28 := by
  apply BitVec.eq_of_getLsbD_eq
  intro i hi
  rw [BitVec.getLsbD_or, BitVec.getLsbD_and, BitVec.getLsbD_not, BitVec.getLsbD_append, BitVec.getLsbD_shiftLeft,
    BitVec.getLsbD_shiftLeft, BitVec.getLsbD_setWidth, BitVec.getLsbD_setWidth]
  by_cases hlow : i < 28
  · simp [hi, hlow]
  · have hones : ∀ j < 4, (0xf#32).getLsbD j = true := by decide
    simp [hi, hlow, hones (i - 28) (by omega), show i - 28 < 32 by omega]

theorem so_eq (xer : Reg) : ((xer >>> 31) &&& 1#64).setWidth 32 = (BitVec.ofBool (xer.getLsbD 31)).setWidth 32 := by
  apply BitVec.eq_of_getLsbD_eq
  intro i hi
  rw [BitVec.getLsbD_setWidth, BitVec.getLsbD_setWidth, BitVec.getLsbD_and, BitVec.getLsbD_ushiftRight,
    BitVec.getLsbD_one, BitVec.getLsbD_ofBool]
  by_cases hzero : i = 0
  · simp [hzero]
  · simp [hzero]

theorem updateCr0_eq (value : Reg) : c.updateCr0 value = c.recordCr0 (c.signedResult value) := by
  unfold PpcCpu.updateCr0 PpcCpu.recordCr0
  rw [so_eq]
  change ({ c with cr := c.cr &&& ~~~(0xf#32 <<< 28) ||| ((if c.signedResult value < 0 then 8#32
    else if 0 < c.signedResult value then 4#32 else 2#32) ||| _) <<< 28 } : PpcCpu) = _
  generalize c.signedResult value = x
  have hbits (lt gt : Bool) (so : Bool) : ((if lt then 8#32 else if gt then 4#32 else 2#32) |||
      (BitVec.ofBool so).setWidth 32) = (BitVec.ofBool lt ++ BitVec.ofBool (!lt && gt) ++
        BitVec.ofBool (!lt && !gt) ++ BitVec.ofBool so).setWidth 32 := by
    revert lt gt so
    decide
  have hx := hbits (decide (x < 0)) (decide (0 < x)) ((c.spr sprXer).getLsbD 31)
  simp only [decide_eq_true_eq] at hx
  have hgt : (!decide (x < 0) && decide (0 < x)) = decide (0 < x) := by
    rw [Bool.eq_iff_iff]
    simp only [Bool.and_eq_true, Bool.not_eq_true', decide_eq_false_iff_not, decide_eq_true_eq]
    omega
  have heq : (!decide (x < 0) && !decide (0 < x)) = decide (x = 0) := by
    rw [Bool.eq_iff_iff]
    simp only [Bool.and_eq_true, Bool.not_eq_true', decide_eq_false_iff_not, decide_eq_true_eq]
    omega
  rw [hx, cr0_eq, hgt, heq]

end

/-! ## The end of an instruction -/

def PpcCpu.finish (c : PpcCpu) (dot : Bool) (n : BitVec 5) (value : Reg) : PpcCpu :=
  let c := c.setReg n value
  if dot then c.recordCr0 (c.signedResult value) else c

section
variable {c d : PpcCpu} {dot : Bool} {n : BitVec 5} {v v' : Reg}

theorem arch_eq (op : RotOp) (iw : Word) :
    op.arch iw c = (c.withCa (op.archCa iw c)).finish (rc iw) (ra iw) (op.archValue iw c) := rfl

theorem dot_setReg : (c.setReg n v).dot dot n = c.finish dot n v := by
  have hsigned : (c.setReg n v).signedResult ((c.setReg n v).reg n) = (c.setReg n v).signedResult v := by
    unfold PpcCpu.signedResult
    rw [PpcCpu.setWidth_reg, PpcCpu.word_setReg, if_pos rfl]
    split
    · rfl
    · rename_i hmode
      have hreg : (c.setReg n v).reg n = v := by
        have hmode' : ¬ c.is32bit = true := hmode
        unfold PpcCpu.reg PpcCpu.modeUint PpcCpu.setReg
        dsimp only
        rw [if_neg hmode', Function.update_self, if_neg hmode']
      rw [hreg]
  unfold PpcCpu.dot PpcCpu.finish
  rw [updateCr0_eq, hsigned]

theorem word_finish : (c.finish dot n v).word n = v.setWidth 32 := by
  rw [← dot_setReg, PpcCpu.word_congr PpcCpu.gpr_dot, PpcCpu.word_setReg, if_pos rfl]

theorem ca_finish : (c.finish dot n v).ca = c.ca := by
  rw [← dot_setReg, PpcCpu.ca_congr PpcCpu.spr_dot, PpcCpu.ca_setReg]

theorem finish_congr (h : c.is32bit = true) (hv : v.setWidth 32 = v'.setWidth 32) :
    c.finish dot n v = c.finish dot n v' := by
  have hset : c.setReg n v = c.setReg n v' := by
    unfold PpcCpu.setReg
    rw [if_pos h, if_pos h, hv]
  have hsigned : (c.setReg n v').signedResult v = (c.setReg n v').signedResult v' := by
    unfold PpcCpu.signedResult
    have h' : (c.setReg n v').is32bit = true := h
    rw [if_pos h', if_pos h', hv]
  unfold PpcCpu.finish
  rw [hset]
  dsimp only
  rw [hsigned]

theorem finish_eq_iff (h : c.is32bit = true) :
    c.finish dot n v = c.finish dot n v' ↔ v.setWidth 32 = v'.setWidth 32 := by
  refine ⟨fun heq => ?_, finish_congr h⟩
  rw [← @word_finish c dot n v, heq, word_finish]

theorem finish_ca_eq_iff (h : c.is32bit = true) {ca ca' : Bool} :
    (c.withCa (some ca)).finish dot n v = (c.withCa (some ca')).finish dot n v' ↔
      ca = ca' ∧ v.setWidth 32 = v'.setWidth 32 := by
  have hca (b : Bool) : (c.withCa (some b)).ca = b := by
    cases b with
    | false => exact PpcCpu.ca_clearCa
    | true => exact PpcCpu.ca_setCa
  have hmode : (c.withCa (some ca)).is32bit = true := by
    cases ca <;> exact h
  constructor
  · intro heq
    refine ⟨?_, ?_⟩
    · rw [← hca ca, ← @ca_finish (c.withCa (some ca)) dot n v, heq, ca_finish, hca]
    · rw [← @word_finish (c.withCa (some ca)) dot n v, heq, word_finish]
  · rintro ⟨rfl, hv⟩
    exact finish_congr hmode hv

theorem finish_eq_iff_64 (h : c.is32bit = false) : c.finish dot n v = c.finish dot n v' ↔ v = v' := by
  refine ⟨fun heq => ?_, fun heq => heq ▸ rfl⟩
  have hgpr (x : Reg) : (c.finish dot n x).gpr n = x := by
    rw [← dot_setReg, PpcCpu.gpr_dot]
    unfold PpcCpu.setReg
    dsimp only
    rw [Function.update_self, if_neg (by rw [h]; exact Bool.false_ne_true)]
  rw [← hgpr v, heq, hgpr]

end

/-! ## Fields -/

section
variable (iw : Word)

theorem sh_lt : sh iw < 32 := (field 11 iw).isLt

theorem mb_lt : mb iw < 32 := (field 6 iw).isLt

theorem me_lt : me iw < 32 := (field 1 iw).isLt

theorem two_parts (p q : Nat) (x : Word) (y : Word)
    (hx : ∀ i < 32, x.getLsbD i = (decide (i < 5) && iw.getLsbD (p + i)))
    (hy : ∀ i < 32, y.getLsbD i = (decide (i = 5) && iw.getLsbD q)) :
    (x ||| y).toNat = (iw.extractLsb' q 1 ++ iw.extractLsb' p 5).toNat := by
  have heq : x ||| y = (iw.extractLsb' q 1 ++ iw.extractLsb' p 5).setWidth 32 := by
    apply BitVec.eq_of_getLsbD_eq
    intro i hi
    rw [BitVec.getLsbD_or, hx i hi, hy i hi, BitVec.getLsbD_setWidth, BitVec.getLsbD_append,
      BitVec.getLsbD_extractLsb', BitVec.getLsbD_extractLsb']
    by_cases h5 : i < 5
    · simp [h5, hi, show i ≠ 5 by omega]
    · by_cases heq : i = 5
      · subst heq
        simp
      · simp [h5, heq, hi, show ¬ i - 5 < 1 by omega]
  rw [heq, BitVec.toNat_setWidth_of_le (by decide)]

theorem getLsbD_and_31 (x : Word) (i : Nat) (hi : i < 32) :
    (x &&& 31#32).getLsbD i = (decide (i < 5) && x.getLsbD i) := by
  have hones : ∀ j < 32, (31#32).getLsbD j = decide (j < 5) := by decide
  rw [BitVec.getLsbD_and, hones i hi, Bool.and_comm]

theorem sh6_eq : sh6 iw = RotOp.archSh6 iw := by
  apply two_parts
  · intro i hi
    rw [getLsbD_and_31 _ i hi, BitVec.getLsbD_ushiftRight]
  · intro i hi
    have htwo : ∀ j < 32, (2#32).getLsbD j = decide (j = 1) := by decide
    rw [BitVec.getLsbD_shiftLeft, BitVec.getLsbD_and]
    by_cases h4 : i < 4
    · simp [h4, show i ≠ 5 by omega]
    · rw [htwo (i - 4) (by omega)]
      by_cases h5 : i = 5
      · subst h5
        simp
      · simp [h4, h5, show i - 4 ≠ 1 by omega]

theorem mb6_eq : mb6 iw = RotOp.archMb6 iw := by
  apply two_parts
  · intro i hi
    rw [getLsbD_and_31 _ i hi, BitVec.getLsbD_ushiftRight]
  · intro i hi
    have hbit : ∀ j < 32, (0x20#32).getLsbD j = decide (j = 5) := by decide
    rw [BitVec.getLsbD_and, hbit i hi]
    by_cases h5 : i = 5
    · subst h5
      simp
    · simp [h5]

theorem sh6_lt : sh6 iw < 64 := by
  rw [sh6_eq]
  exact BitVec.isLt _

theorem mb6_lt : mb6 iw < 64 := by
  rw [mb6_eq]
  exact BitVec.isLt _

end

/-! ## Loops -/

section
variable {fuel : Nat} (iw : Word)

theorem translateMask_eq (hfuel : 32 ≤ fuel) : translateMask fuel iw = some (Lib.mask 32 (mb iw) (me iw)) := by
  have hnext (i : Nat) (_ : i < 32) : (i + 1) &&& 31 = (i + 1) % 32 := Nat.and_two_pow_sub_one_eq_mod (i + 1) 5
  have hdist := distance_lt (mb_lt iw) (me_lt iw)
  have hloop := whileLoop_mono (m := fuel) (by omega) (whileLoop_round
    (fun mask mb => mask ||| (0x80000000#32 >>> mb)) hnext (mb_lt iw) (me_lt iw) 0#32)
  have hbit : ∀ i < 32, 0x80000000#32 >>> i = Lib.topBit 32 i := by decide
  have hfold : (Lib.positions 32 (mb iw) (me iw)).foldl (fun mask mb => mask ||| (0x80000000#32 >>> mb)) 0#32 =
      Lib.mask 32 (mb iw) (me iw) := by
    rw [List.foldl_ext _ (fun mask mb => mask ||| Lib.topBit 32 mb) 0#32
      fun mask i hi => by rw [hbit i (positions_lt (mb_lt iw) hi)]]
    apply BitVec.eq_of_getMsbD_eq
    intro j hj
    rw [getMsbD_foldl_or (fun i => positions_lt (mb_lt iw)) 0#32 hj, getMsbD_mask (me_lt iw) hj,
      BitVec.getMsbD_zero, Bool.false_or]
    exact decide_eq_decide.mpr (mem_positions (mb_lt iw) (me_lt iw) hj)
  rw [hfold] at hloop
  unfold translateMask
  dsimp only
  rw [hloop]
  rfl

theorem rlwimi_loop (tmp value : Word) (hfuel : 32 ≤ fuel) :
    whileLoop (Lib.roundBody (fun value mb => value &&& ~~~ (1#32 <<< (31 - mb)) ||| (tmp &&& (1#32 <<< (31 - mb))))
        (fun mb => if mb + 1 = 32 then 0 else mb + 1) (me iw)) fuel (mb iw, value) =
      some (me iw, (tmp &&& Lib.mask 32 (mb iw) (me iw)) ||| (value &&& ~~~ Lib.mask 32 (mb iw) (me iw))) := by
  have hnext (i : Nat) (hi : i < 32) : (if i + 1 = 32 then 0 else i + 1) = (i + 1) % 32 := by
    split <;> omega
  have hdist := distance_lt (mb_lt iw) (me_lt iw)
  have hloop := whileLoop_mono (m := fuel) (by omega) (whileLoop_round
    (fun value mb => value &&& ~~~ (Lib.topBit 32 mb) ||| (tmp &&& Lib.topBit 32 mb)) hnext (mb_lt iw) (me_lt iw)
    value)
  refine hloop.trans (congrArg (fun x => some (me iw, x)) ?_)
  apply BitVec.eq_of_getMsbD_eq
  intro j hj
  rw [getMsbD_foldl_copy (fun i => positions_lt (mb_lt iw)) tmp value hj, BitVec.getMsbD_or,
    BitVec.getMsbD_and, BitVec.getMsbD_and, BitVec.getMsbD_not, getMsbD_mask (me_lt iw) hj]
  have hmem := mem_positions (mb_lt iw) (me_lt iw) hj
  by_cases hin : Lib.InMask (mb iw) (me iw) j
  · rw [if_pos (hmem.mpr hin)]
    simp [hin]
  · rw [if_neg (mt hmem.mp hin)]
    simp [hin, hj]

theorem foldl_range_or {m : Nat} (hm : m < 64) (x : Reg) :
    (List.range' m (64 - m)).foldl (fun tmp mb => tmp ||| (1#64 <<< (63 - mb))) x = x ||| Lib.mask 64 m 63 := by
  have hlt : ∀ i ∈ List.range' m (64 - m), i < 64 := by
    intro i hi
    obtain ⟨-, h⟩ := List.mem_range'_1.mp hi
    omega
  apply BitVec.eq_of_getMsbD_eq
  intro j hj
  have hfold := @getMsbD_foldl_or 64 (List.range' m (64 - m)) j hlt x hj
  have hmem : j ∈ List.range' m (64 - m) ↔ Lib.InMask m 63 j := by
    unfold Lib.InMask
    rw [List.mem_range'_1, if_pos (by omega)]
    omega
  rw [BitVec.getMsbD_or, getMsbD_mask (by decide) hj, ← decide_eq_decide.mpr hmem]
  exact hfold

theorem foldl_range_clear {m : Nat} (hm : m < 64) (x : Reg) :
    (List.range' (m + 1) (64 - (m + 1))).foldl (fun tmp me => tmp &&& ~~~ (1#64 <<< (63 - me))) x =
      x &&& Lib.mask 64 0 m := by
  have hlt : ∀ i ∈ List.range' (m + 1) (64 - (m + 1)), i < 64 := by
    intro i hi
    obtain ⟨-, h⟩ := List.mem_range'_1.mp hi
    omega
  apply BitVec.eq_of_getMsbD_eq
  intro j hj
  have hfold := @getMsbD_foldl_clear 64 (List.range' (m + 1) (64 - (m + 1))) j hlt x hj
  have hmem : ¬ j ∈ List.range' (m + 1) (64 - (m + 1)) ↔ Lib.InMask 0 m j := by
    unfold Lib.InMask
    rw [List.mem_range'_1, if_pos (by omega)]
    omega
  rw [BitVec.getMsbD_and, getMsbD_mask hm hj, ← decide_eq_decide.mpr hmem, decide_not]
  exact hfold

theorem rldimi_loop {m : Nat} (hm : m < 64) (hfuel : 64 ≤ fuel) (x : Reg) :
    whileLoop (PpcCpu.rldimiBody (-1)) fuel (m, x) = some (64, x ||| Lib.mask 64 m 63) := by
  have hall (k : Nat) : ∀ (m : Nat) (x : Reg), m + k = 63 → whileLoop (PpcCpu.rldimiBody (-1)) (k + 1) (m, x) =
      some (64, (List.range' m (k + 1)).foldl (fun tmp mb => tmp ||| (1#64 <<< (63 - mb))) x) := by
    induction k with
    | zero =>
      intro m x hsum
      have heq : m = 63 := by omega
      subst heq
      rfl
    | succ k ih =>
      intro m x hsum
      have hgo : decide (((m + 1 : Nat) : Int) ≠ 63 - -1) = true := decide_eq_true (by omega)
      rw [whileLoop, PpcCpu.rldimiBody]
      rw [if_pos hgo, ih (m + 1) _ (by omega), List.range'_succ (s := m), List.foldl_cons]
  have hloop := whileLoop_mono (m := fuel) (by omega) (hall (63 - m) m x (by omega))
  rw [hloop, show 63 - m + 1 = 64 - m by omega, foldl_range_or hm]

theorem and_twoPow_ne (x : Word) {i : Nat} (hi : i < 32) : x &&& BitVec.twoPow 32 i ≠ 0#32 ↔ x.getLsbD i = true := by
  rw [BitVec.and_twoPow]
  by_cases hbit : x.getLsbD i = true
  · rw [if_pos hbit]
    refine iff_of_true (fun hzero => ?_) hbit
    have hset := congrArg (·.getLsbD i) hzero
    simp [BitVec.getLsbD_twoPow, hi] at hset
  · rw [if_neg hbit]
    exact iff_of_false (fun h => h rfl) hbit

theorem sraw_step (x : Word) :
    (if (x >>> 1) &&& 0x40000000#32 ≠ 0#32 then (x >>> 1) ||| 0x80000000#32 else x >>> 1) = x.sshiftRight 1 := by
  have hcond : (x >>> 1) &&& 0x40000000#32 ≠ 0#32 ↔ x.msb = true := by
    have hbit := and_twoPow_ne (x >>> 1) (show 30 < 32 by decide)
    rw [BitVec.getLsbD_ushiftRight] at hbit
    exact hbit
  have htop : ∀ i < 32, (0x80000000#32).getLsbD i = decide (i = 31) := by decide
  apply BitVec.eq_of_getLsbD_eq
  intro i hi
  rw [BitVec.getLsbD_sshiftRight]
  cases hmsb : x.msb with
  | true =>
    rw [if_pos (hcond.mpr hmsb), BitVec.getLsbD_or, BitVec.getLsbD_ushiftRight, htop i hi]
    by_cases hlast : i = 31
    · simp [hlast]
    · simp [hlast, show 1 + i < 32 by omega, hi]
  | false =>
    rw [if_neg (by rw [hcond, hmsb]; exact Bool.false_ne_true), BitVec.getLsbD_ushiftRight]
    by_cases hlast : i = 31
    · simp [hlast]
    · simp [show 1 + i < 32 by omega, hi]

theorem sraw_loop (n : Nat) (hn : n < 32) (x : Word) (j : Nat) :
    ∃ j', whileLoop srawBody (n + 1) ((n : Int), x, j) = some (-1, x.sshiftRight n, j') ∧
      (0 < j' ↔ 0 < j ∨ ∃ i < n, x.getLsbD i = true) := by
  induction n generalizing x j with
  | zero =>
    refine ⟨j, ?_, ?_⟩
    · rw [BitVec.sshiftRight_zero]
      rfl
    · simp
  | succ n ih =>
    have hodd : x &&& 1#32 ≠ 0#32 ↔ x.getLsbD 0 = true := and_twoPow_ne x (show 0 < 32 by decide)
    have hadd : x.sshiftRight (n + 1) = (x.sshiftRight 1).sshiftRight n := by
      rw [Nat.add_comm, BitVec.sshiftRight_add]
    obtain ⟨j', hloop, hj'⟩ := ih (by omega) (x.sshiftRight 1) (if x &&& 1#32 ≠ 0#32 then j + 1 else j)
    refine ⟨j', ?_, ?_⟩
    · have hstep : srawBody (((n + 1 : Nat) : Int), x, j) =
          (((n : Int), x.sshiftRight 1, if x &&& 1#32 ≠ 0#32 then j + 1 else j), true) := by
        unfold srawBody
        dsimp only
        rw [if_pos (by omega), Nat.cast_add, Nat.cast_one, Int.add_sub_cancel, sraw_step]
      rw [whileLoop, hstep, if_pos rfl, hadd]
      exact hloop
    · have hbit (i : Nat) (hi : i < n) : (x.sshiftRight 1).getLsbD i = x.getLsbD (i + 1) := by
        rw [BitVec.getLsbD_sshiftRight, if_pos (by omega), Nat.add_comm 1 i]
        simp [show ¬ 32 ≤ i by omega]
      have hlost : (∃ i < n + 1, x.getLsbD i = true) ↔
          x.getLsbD 0 = true ∨ ∃ i < n, (x.sshiftRight 1).getLsbD i = true := by
        constructor
        · rintro ⟨i, hi, hset⟩
          cases i with
          | zero => exact Or.inl hset
          | succ i => exact Or.inr ⟨i, by omega, (hbit i (by omega)).trans hset⟩
        · rintro (hset | ⟨i, hi, hset⟩)
          · exact ⟨0, by omega, hset⟩
          · exact ⟨i + 1, by omega, (hbit i hi).symm.trans hset⟩
      rw [hj', hlost]
      by_cases hset : x.getLsbD 0 = true
      · rw [if_pos (hodd.mpr hset)]
        exact iff_of_true (Or.inl (Nat.succ_pos j)) (Or.inr (Or.inl hset))
      · rw [if_neg (mt hodd.mp hset), or_iff_right hset]

end

/-! ## Shift amounts -/

section
variable {c : PpcCpu} (iw : Word)

theorem toNat_reg_and (n : BitVec 5) : (c.reg n &&& 31#64).toNat = ((c.gpr n).setWidth 5).toNat := by
  have hmask := toNat_and_mask (c.reg n) 5 (by decide)
  refine hmask.trans ?_
  rw [BitVec.toNat_setWidth]
  unfold PpcCpu.reg PpcCpu.modeUint
  split
  · rw [BitVec.toNat_setWidth, BitVec.toNat_setWidth]
    omega
  · rfl

theorem toNat_gpr_and (n : BitVec 5) : (c.gpr n &&& 0x1f#64).toNat = ((c.gpr n).setWidth 5).toNat := by
  rw [BitVec.toNat_setWidth]
  exact toNat_and_mask (c.gpr n) 5 (by decide)

theorem amount32_lt : RotOp.amount32 iw c < 32 := BitVec.isLt _

theorem rotl32_eq (shr32 : Word → Word) (x : Word) {n : Nat} (hn : n < 32) (hne : n ≠ 0) :
    rotl32 shr32 x n = x.rotateLeft n := by
  rw [BitVec.rotateLeft_eq_rotateLeftAux_of_lt hn]
  unfold rotl32
  rw [if_neg hne]
  rfl

theorem rotl32_and_iff (shr32 : Word → Word) (x m : Word) {n : Nat} (hn : n < 32) :
    rotl32 shr32 x n &&& m = x.rotateLeft n &&& m ↔ n ≠ 0 ∨ (x ||| shr32 x) &&& m = x &&& m := by
  by_cases hzero : n = 0
  · subst hzero
    unfold rotl32
    rw [if_pos rfl, rotateLeft_none, BitVec.shiftLeft_zero]
    simp
  · rw [rotl32_eq shr32 x hn hzero]
    exact iff_of_true rfl (Or.inl hzero)

theorem insert_eq_iff (a b r m : Word) :
    (a &&& m) ||| (r &&& ~~~ m) = (b &&& m) ||| (r &&& ~~~ m) ↔ a &&& m = b &&& m := by
  constructor
  · intro heq
    apply BitVec.eq_of_getLsbD_eq
    intro i hi
    have hbit := congrArg (·.getLsbD i) heq
    simp only [BitVec.getLsbD_or, BitVec.getLsbD_and, BitVec.getLsbD_not, hi, decide_true, Bool.true_and] at hbit ⊢
    cases hm : m.getLsbD i <;> simp_all
  · intro heq
    rw [heq]

end

/-! ## The instructions -/

section
variable (shr32 : Word → Word) {fuel : Nat} (iw : Word) {c : PpcCpu}

theorem shiftAlgebraic_eq {n : Nat} (hn : n < 32) (hfuel : 32 ≤ fuel) :
    c.shiftAlgebraic fuel iw n =
      some ((c.withCa (some (RotOp.algebraicCa (c.word (rs iw)) n (Lib.mask 32 n 31)))).finish (rc iw) (ra iw)
        (((c.word (rs iw)).sshiftRight n).signExtend 64)) := by
  obtain ⟨j, hloop, hj⟩ := sraw_loop n hn (c.word (rs iw)) 0
  have hsign : (c.word (rs iw) &&& 0x80000000#32 != 0#32) = (c.word (rs iw)).msb := by
    rw [Bool.eq_iff_iff, bne_iff_ne]
    exact and_twoPow_ne (c.word (rs iw)) (show 31 < 32 by decide)
  have hlost : decide (j > 0) = ((c.word (rs iw)).rotateLeft (32 - n) &&& ~~~ Lib.mask 32 n 31 != 0#32) := by
    rw [Bool.eq_iff_iff, decide_eq_true_eq, bne_iff_ne]
    refine Iff.trans ?_ (rotateLeft_sub_and_not_mask (c.word (rs iw)) hn).symm
    exact hj.trans (or_iff_right (Nat.lt_irrefl 0))
  unfold PpcCpu.shiftAlgebraic
  dsimp only
  rw [whileLoop_mono (m := fuel) (by omega) hloop, hsign, Option.bind_eq_bind, Option.bind_some]
  rw [hlost]
  exact congrArg some dot_setReg

theorem algebraic_eq (x : Word) {n : Nat} (hn : n < 32) :
    RotOp.algebraic x n (Lib.mask 32 n 31) = x.sshiftRight n := rotateLeft_sub_sshiftRight x hn

theorem algebraic_tooFar (x : Word) (n : Nat) :
    RotOp.algebraic x n 0#32 = if x.msb then BitVec.allOnes 32 else 0#32 := by
  unfold RotOp.algebraic
  rw [BitVec.and_zero, BitVec.zero_or, BitVec.not_zero, BitVec.and_allOnes]

theorem algebraicCa_tooFar (x : Word) {n : Nat} (hn : n < 32) : RotOp.algebraicCa x n 0#32 = x.msb := by
  unfold RotOp.algebraicCa
  cases hmsb : x.msb with
  | false => rfl
  | true =>
    rw [Bool.true_and, bne_iff_ne]
    intro hzero
    rw [BitVec.not_zero, BitVec.and_allOnes] at hzero
    have hbit := congrArg (·.getLsbD (31 - n)) hzero
    simp only [BitVec.getLsbD_zero, getLsbD_rotateLeft_sub x hn (show 31 - n < 32 by omega),
      if_pos (show 31 - n + n < 32 by omega), show n + (31 - n) = 31 by omega] at hbit
    rw [BitVec.msb_eq_getLsbD_last, hbit] at hmsb
    exact Bool.false_ne_true hmsb

def RotOp.Meets (c : PpcCpu) : RotOp → Prop
  | rlwinm | rlwimi => sh iw ≠ 0 ∨ (c.word (rs iw) ||| shr32 (c.word (rs iw))) &&& Lib.mask 32 (mb iw) (me iw) =
      c.word (rs iw) &&& Lib.mask 32 (mb iw) (me iw)
  | rlwnm => amount32 iw c ≠ 0 ∨ (c.word (rs iw) ||| shr32 (c.word (rs iw))) &&& Lib.mask 32 (mb iw) (me iw) =
      c.word (rs iw) &&& Lib.mask 32 (mb iw) (me iw)
  | slw => tooFar32 iw c = false ∨ c.word (rs iw) <<< amount32 iw c = 0#32
  | srw => tooFar32 iw c = false ∨ c.word (rs iw) >>> amount32 iw c = 0#32
  | sraw => tooFar32 iw c = false ∨
      (c.word (rs iw)).sshiftRight (amount32 iw c) = (if (c.word (rs iw)).msb then BitVec.allOnes 32 else 0#32) ∧
        ((c.word (rs iw)).msb = true → ∃ i < amount32 iw c, (c.word (rs iw)).getLsbD i = true)
  | rldicl => (c.gpr (rs iw)).rotateLeft (archSh6 iw) &&& Lib.mask 64 (archMb6 iw) 63 = 0#64
  | rldimi => ((c.gpr (rs iw)).rotateLeft (archSh6 iw) ^^^ c.gpr (ra iw)) &&&
      (Lib.mask 64 (archMb6 iw) (63 - archSh6 iw) ^^^ Lib.mask 64 (archMb6 iw) 63) = 0#64
  | srawi | rldicr | sld => True

/-- An instruction ends, and its result is that of the architecture when its operands are right. -/
def RotOp.Settled (c : PpcCpu) (op : RotOp) : Prop :=
  ∃ c', (∀ fuel, 65 ≤ fuel → op.execute shr32 fuel iw c = some c') ∧
    (c' = op.arch iw c ↔ op.Meets shr32 iw c)

section
variable {shr32} {iw} {op : RotOp} {v : Reg}

theorem setWidth_word (x : Word) : ((x.setWidth 64 : Reg).setWidth 32) = x := by
  rw [BitVec.setWidth_setWidth_of_le x (by decide), BitVec.setWidth_eq]

theorem setWidth_shiftLeft_reg (x : Word) (n : Nat) : ((x.setWidth 64 : Reg) <<< n).setWidth 32 = x <<< n := by
  apply BitVec.eq_of_getLsbD_eq
  intro i hi
  grind

theorem setWidth_shiftRight_reg (x : Word) (n : Nat) : ((x.setWidth 64 : Reg) >>> n).setWidth 32 = x >>> n := by
  apply BitVec.eq_of_getLsbD_eq
  intro i hi
  grind

theorem settled_of_word (h : c.is32bit = true) (hmode : op.mode32 = true) (hca : op.archCa iw c = none)
    (hexec : ∀ fuel, 65 ≤ fuel → op.execute shr32 fuel iw c = some (c.finish (rc iw) (ra iw) v))
    (hv : v.setWidth 32 = op.word32 iw c ↔ op.Meets shr32 iw c) : op.Settled shr32 iw c := by
  refine ⟨_, hexec, ?_⟩
  have hvalue : op.archValue iw c = (op.word32 iw c).setWidth 64 := if_pos hmode
  rw [arch_eq, hca, hvalue]
  refine (finish_eq_iff h).trans ?_
  rw [setWidth_word]
  exact hv

theorem settled_of_ca (h : c.is32bit = true) (hmode : op.mode32 = true) {ca ca' : Bool}
    (hca : op.archCa iw c = some ca')
    (hexec : ∀ fuel, 65 ≤ fuel →
      op.execute shr32 fuel iw c = some ((c.withCa (some ca)).finish (rc iw) (ra iw) v))
    (hv : ca = ca' ∧ v.setWidth 32 = op.word32 iw c ↔ op.Meets shr32 iw c) : op.Settled shr32 iw c := by
  refine ⟨_, hexec, ?_⟩
  have hvalue : op.archValue iw c = (op.word32 iw c).setWidth 64 := if_pos hmode
  rw [arch_eq, hca, hvalue]
  refine (finish_ca_eq_iff h).trans ?_
  rw [setWidth_word]
  exact hv

theorem settled_of_reg (h : c.is32bit = false) (hmode : op.mode32 = false) (hca : op.archCa iw c = none)
    (hexec : ∀ fuel, 65 ≤ fuel → op.execute shr32 fuel iw c = some (c.finish (rc iw) (ra iw) v))
    (hv : v = op.value64 iw c ↔ op.Meets shr32 iw c) : op.Settled shr32 iw c := by
  refine ⟨_, hexec, ?_⟩
  have hvalue : op.archValue iw c = op.value64 iw c := if_neg (by rw [hmode]; exact Bool.false_ne_true)
  rw [arch_eq, hca, hvalue]
  exact (finish_eq_iff_64 h).trans hv

end

section
variable (h : c.is32bit = true)
include h

theorem rlwinm_settled : RotOp.rlwinm.Settled shr32 iw c := by
  apply settled_of_word h rfl rfl
  · intro fuel hfuel
    change (translateMask fuel iw >>= fun mask => some (c.rlwinm shr32 iw mask)) = _
    rw [translateMask_eq iw (by omega), Option.bind_eq_bind, Option.bind_some]
    exact congrArg some dot_setReg
  · rw [setWidth_word]
    exact rotl32_and_iff shr32 _ _ (sh_lt iw)

theorem rlwnm_settled : RotOp.rlwnm.Settled shr32 iw c := by
  apply settled_of_word h rfl rfl
  · intro fuel hfuel
    change (translateMask fuel iw >>= fun mask => some (c.rlwnm shr32 iw mask)) = _
    rw [translateMask_eq iw (by omega), Option.bind_eq_bind, Option.bind_some]
    exact congrArg some dot_setReg
  · rw [setWidth_word, toNat_gpr_and]
    exact rotl32_and_iff shr32 _ _ (amount32_lt iw)

theorem rlwimi_settled : RotOp.rlwimi.Settled shr32 iw c := by
  apply settled_of_word h rfl rfl
  · intro fuel hfuel
    change c.rlwimi shr32 fuel iw = _
    unfold PpcCpu.rlwimi
    dsimp only
    rw [rlwimi_loop iw _ _ (by omega), Option.bind_eq_bind, Option.bind_some]
    rw [updateCr0_eq]
    rfl
  · rw [setWidth_word]
    exact (insert_eq_iff _ _ _ _).trans (rotl32_and_iff shr32 _ _ (sh_lt iw))

theorem slw_settled : RotOp.slw.Settled shr32 iw c := by
  apply settled_of_word h rfl rfl
  · intro fuel hfuel
    exact congrArg some dot_setReg
  · rw [PpcCpu.reg_of_32 h, toNat_reg_and, setWidth_shiftLeft_reg]
    change c.word (rs iw) <<< RotOp.amount32 iw c = (c.word (rs iw)).rotateLeft (RotOp.amount32 iw c) &&&
      (if RotOp.tooFar32 iw c then 0#32 else Lib.mask 32 0 (31 - RotOp.amount32 iw c)) ↔
      RotOp.tooFar32 iw c = false ∨ _
    cases RotOp.tooFar32 iw c with
    | false => exact iff_of_true (rotateLeft_and_mask _ (amount32_lt iw)).symm (Or.inl rfl)
    | true =>
      rw [if_pos rfl, BitVec.and_zero]
      simp

theorem srw_settled : RotOp.srw.Settled shr32 iw c := by
  apply settled_of_word h rfl rfl
  · intro fuel hfuel
    exact congrArg some dot_setReg
  · rw [PpcCpu.reg_of_32 h, toNat_reg_and, setWidth_shiftRight_reg]
    change c.word (rs iw) >>> RotOp.amount32 iw c = (c.word (rs iw)).rotateLeft (32 - RotOp.amount32 iw c) &&&
      (if RotOp.tooFar32 iw c then 0#32 else Lib.mask 32 (RotOp.amount32 iw c) 31) ↔
      RotOp.tooFar32 iw c = false ∨ _
    cases RotOp.tooFar32 iw c with
    | false => exact iff_of_true (rotateLeft_sub_and_mask _ (amount32_lt iw)).symm (Or.inl rfl)
    | true =>
      rw [if_pos rfl, BitVec.and_zero]
      simp

theorem sraw_settled : RotOp.sraw.Settled shr32 iw c := by
  apply settled_of_ca h rfl rfl
  · intro fuel hfuel
    change c.sraw fuel iw = _
    unfold PpcCpu.sraw
    rw [toNat_reg_and]
    exact shiftAlgebraic_eq iw (amount32_lt iw) (by omega)
  · have hn := @amount32_lt c iw
    rw [setWidth_signExtend _ (by decide)]
    change RotOp.algebraicCa _ (RotOp.amount32 iw c) _ =
        RotOp.algebraicCa _ _ (if RotOp.tooFar32 iw c then 0#32 else Lib.mask 32 (RotOp.amount32 iw c) 31) ∧
      _ = RotOp.algebraic _ _ (if RotOp.tooFar32 iw c then 0#32 else Lib.mask 32 (RotOp.amount32 iw c) 31) ↔
      RotOp.tooFar32 iw c = false ∨ _
    cases RotOp.tooFar32 iw c with
    | false => exact iff_of_true ⟨rfl, (algebraic_eq _ hn).symm⟩ (Or.inl rfl)
    | true =>
      rw [if_pos rfl, algebraicCa_tooFar _ hn, algebraic_tooFar, or_iff_right (by decide : ¬ true = false), and_comm]
      refine and_congr_right fun _ => ?_
      have hlost := rotateLeft_sub_and_not_mask (c.word (rs iw)) hn
      unfold RotOp.algebraicCa
      cases (c.word (rs iw)).msb with
      | false => simp
      | true =>
        rw [Bool.true_and, bne_iff_ne]
        exact hlost.trans ⟨fun h _ => h, fun h => h rfl⟩

theorem srawi_settled : RotOp.srawi.Settled shr32 iw c := by
  apply settled_of_ca h rfl rfl
  · intro fuel hfuel
    exact shiftAlgebraic_eq iw (sh_lt iw) (by omega)
  · refine iff_of_true ⟨rfl, ?_⟩ trivial
    rw [setWidth_signExtend _ (by decide)]
    exact (algebraic_eq _ (sh_lt iw)).symm

end

theorem merge_eq_iff (r x m m' : Reg) :
    (r &&& ~~~ m ||| (m &&& x)) = ((x &&& m') ||| (r &&& ~~~ m')) ↔ (x ^^^ r) &&& (m' ^^^ m) = 0#64 := by
  have hbool : ∀ r x m m' : Bool, ((r && !m || (m && x)) = (x && m' || (r && !m'))) ↔
      ((x ^^ r) && (m' ^^ m)) = false := by decide
  constructor
  · intro heq
    apply BitVec.eq_of_getLsbD_eq
    intro i hi
    have hbit := congrArg (·.getLsbD i) heq
    simp only [BitVec.getLsbD_or, BitVec.getLsbD_and, BitVec.getLsbD_not, hi, decide_true, Bool.true_and] at hbit
    rw [BitVec.getLsbD_and, BitVec.getLsbD_xor, BitVec.getLsbD_xor, BitVec.getLsbD_zero]
    exact (hbool _ _ _ _).mp hbit
  · intro hzero
    apply BitVec.eq_of_getLsbD_eq
    intro i hi
    have hbit := congrArg (·.getLsbD i) hzero
    simp only [BitVec.getLsbD_and, BitVec.getLsbD_xor, BitVec.getLsbD_zero] at hbit
    simp only [BitVec.getLsbD_or, BitVec.getLsbD_and, BitVec.getLsbD_not, hi, decide_true, Bool.true_and]
    exact (hbool _ _ _ _).mpr hbit

section
variable (h : c.is32bit = false)
include h

theorem finish_setGpr (v : Reg) :
    (if rc iw then (c.setGpr (ra iw) v).updateCr0 ((c.setGpr (ra iw) v).gpr (ra iw)) else c.setGpr (ra iw) v) =
      c.finish (rc iw) (ra iw) v := by
  have hset : c.setGpr (ra iw) v = c.setReg (ra iw) v := by
    unfold PpcCpu.setGpr PpcCpu.setReg
    rw [h]
    rfl
  have hsame : (c.setReg (ra iw) v).gpr (ra iw) = v := by
    rw [← hset]
    exact Function.update_self ..
  unfold PpcCpu.finish
  rw [hset, hsame, updateCr0_eq]

omit h in
theorem rotate_loop (fuel : Nat) (hfuel : 65 ≤ fuel) :
    whileLoop Lib.rotateBody fuel ((sh6 iw : Int), c.gpr (rs iw)) =
      some (-1, (c.gpr (rs iw)).rotateLeft (RotOp.archSh6 iw)) := by
  have hlt := sh6_lt iw
  rw [← sh6_eq]
  exact whileLoop_mono (m := fuel) (by omega) (whileLoop_rotate hlt (c.gpr (rs iw)))

theorem rldicl_settled : RotOp.rldicl.Settled shr32 iw c := by
  apply settled_of_reg h rfl rfl
  · intro fuel hfuel
    have hlt := mb6_lt iw
    have hup := whileLoop_mono (m := fuel) (by omega) (whileLoop_up
      (fun tmp mb => tmp ||| (1#64 <<< (63 - mb))) hlt.le ((c.gpr (rs iw)).rotateLeft (RotOp.archSh6 iw)))
    change c.rldicl fuel iw = _
    unfold PpcCpu.rldicl
    rw [rotate_loop iw fuel hfuel, Option.bind_eq_bind, Option.bind_some]
    dsimp only
    rw [hup, Option.bind_eq_bind, Option.bind_some]
    rw [BitVec.and_zero]
    exact congrArg some (finish_setGpr iw h 0#64)
  · exact eq_comm

theorem rldicr_settled : RotOp.rldicr.Settled shr32 iw c := by
  apply settled_of_reg h rfl rfl
  · intro fuel hfuel
    have hlt := mb6_lt iw
    have hup := whileLoop_mono (m := fuel) (by omega) (whileLoop_up
      (fun tmp me => tmp &&& ~~~ (1#64 <<< (63 - me))) (show mb6 iw + 1 ≤ 64 by omega)
      ((c.gpr (rs iw)).rotateLeft (RotOp.archSh6 iw)))
    change c.rldicr fuel iw = _
    unfold PpcCpu.rldicr
    rw [rotate_loop iw fuel hfuel, Option.bind_eq_bind, Option.bind_some]
    dsimp only
    rw [hup, Option.bind_eq_bind, Option.bind_some]
    rw [foldl_range_clear hlt, mb6_eq]
    have hsame (v : Reg) : (c.setGpr (ra iw) v).gpr (ra iw) = v := Function.update_self ..
    have hfinish := finish_setGpr iw h
      ((c.gpr (rs iw)).rotateLeft (RotOp.archSh6 iw) &&& Lib.mask 64 0 (RotOp.archMb6 iw))
    rw [hsame] at hfinish
    exact congrArg some hfinish
  · exact iff_of_true rfl trivial

theorem rldimi_settled : RotOp.rldimi.Settled shr32 iw c := by
  apply settled_of_reg h rfl rfl
  · intro fuel hfuel
    have hlt := mb6_lt iw
    change c.rldimi fuel iw = _
    unfold PpcCpu.rldimi
    rw [rotate_loop iw fuel hfuel, Option.bind_eq_bind, Option.bind_some]
    dsimp only
    rw [rldimi_loop hlt (by omega), Option.bind_eq_bind, Option.bind_some]
    have htwice (v v' : Reg) : (c.setGpr (ra iw) v).setGpr (ra iw) v' = c.setGpr (ra iw) v' := by
      unfold PpcCpu.setGpr
      rw [Function.update_idem]
    have hsame (v : Reg) : (c.setGpr (ra iw) v).gpr (ra iw) = v := Function.update_self ..
    rw [htwice, hsame, BitVec.zero_or]
    exact congrArg some (finish_setGpr iw h _)
  · rw [mb6_eq]
    exact merge_eq_iff _ _ _ _

theorem sld_settled : RotOp.sld.Settled shr32 iw c := by
  apply settled_of_reg h rfl rfl
  · intro fuel hfuel
    exact congrArg some dot_setReg
  · have hreg (n : BitVec 5) : c.reg n = c.gpr n := if_neg (by rw [h]; exact Bool.false_ne_true)
    have hsa : (c.gpr (rb iw) &&& 127#64).toNat = (c.gpr (rb iw)).toNat % 128 :=
      toNat_and_mask (c.gpr (rb iw)) 7 (by decide)
    have hfar : (c.gpr (rb iw)).getLsbD 6 = decide ((c.gpr (rb iw)).toNat % 128 ≥ 64) := by
      rw [BitVec.getLsbD, Nat.testBit_eq_decide_div_mod_eq]
      exact decide_eq_decide.mpr (by omega)
    have hn : ((c.gpr (rb iw)).setWidth 6).toNat = (c.gpr (rb iw)).toNat % 64 := BitVec.toNat_setWidth ..
    refine iff_of_true ?_ trivial
    change _ = (c.gpr (rs iw)).rotateLeft ((c.gpr (rb iw)).setWidth 6).toNat &&&
      if (c.gpr (rb iw)).getLsbD 6 then 0#64 else Lib.mask 64 0 (63 - ((c.gpr (rb iw)).setWidth 6).toNat)
    rw [hreg, hreg, hsa, hfar, hn]
    by_cases hge : (c.gpr (rb iw)).toNat % 128 ≥ 64
    · rw [if_pos hge, if_pos (decide_eq_true hge), BitVec.and_zero]
    · have hmod : (c.gpr (rb iw)).toNat % 128 &&& 63 = (c.gpr (rb iw)).toNat % 64 := by
        rw [Nat.and_two_pow_sub_one_eq_mod _ 6]
        omega
      rw [if_neg hge, if_neg (by simp [hge]), hmod]
      exact (rotateLeft_and_mask _ (Nat.mod_lt _ (by decide))).symm

end

def RotOp.Computes (c : PpcCpu) (op : RotOp) : Prop :=
  ∃ n, ∀ fuel, n ≤ fuel → op.execute shr32 fuel iw c = some (op.arch iw c)

theorem computes_iff {op : RotOp} (hsettled : op.Settled shr32 iw c) :
    op.Computes shr32 iw c ↔ op.Meets shr32 iw c := by
  obtain ⟨c', hexec, hiff⟩ := hsettled
  rw [← hiff]
  constructor
  · rintro ⟨n, hn⟩
    have hsame := (hexec (max n 65) (le_max_right n 65)).symm.trans (hn (max n 65) (le_max_left n 65))
    exact Option.some.inj hsame
  · rintro rfl
    exact ⟨65, hexec⟩

theorem settled {op : RotOp} (h : c.is32bit = op.mode32) : op.Settled shr32 iw c := by
  cases op with
  | rlwinm => exact rlwinm_settled shr32 iw h
  | rlwnm => exact rlwnm_settled shr32 iw h
  | rlwimi => exact rlwimi_settled shr32 iw h
  | slw => exact slw_settled shr32 iw h
  | srw => exact srw_settled shr32 iw h
  | sraw => exact sraw_settled shr32 iw h
  | srawi => exact srawi_settled shr32 iw h
  | rldicl => exact rldicl_settled shr32 iw h
  | rldicr => exact rldicr_settled shr32 iw h
  | rldimi => exact rldimi_settled shr32 iw h
  | sld => exact sld_settled shr32 iw h

end

/-- All instructions end. They compute the value of the architecture under their conditions. -/
theorem rotate_computes_iff (shr32 : Word → Word) (iw : Word) (c : PpcCpu) (op : RotOp) (h : c.is32bit = op.mode32) :
    (∃ n c', ∀ fuel, n ≤ fuel → op.execute shr32 fuel iw c = some c') ∧
      (op.Computes shr32 iw c ↔ op.Meets shr32 iw c) := by
  obtain ⟨c', hexec, -⟩ := settled shr32 iw h
  exact ⟨⟨65, c', hexec⟩, computes_iff shr32 iw (settled shr32 iw h)⟩

/-- rlwinm r3,r4,2,0,29 computes r4 * 4. -/
theorem rlwinm_computes : RotOp.rlwinm.Computes (fun x => x) 0x5483103a#32 ((PpcCpu.zero true false).setReg 4#5 5#64) :=
  (rotate_computes_iff (fun x => x) 0x5483103a#32 ((PpcCpu.zero true false).setReg 4#5 5#64) .rlwinm rfl).2.mpr
    (Or.inl (by decide))

/-- rldicl r3,r4,0,0 leaves 0 in r3, and not 1. -/
theorem not_rotate_computes : ¬ ∀ (shr32 : Word → Word) (iw : Word) (c : PpcCpu) (op : RotOp),
    c.is32bit = op.mode32 → op.Computes shr32 iw c := by
  intro h
  have hcomputes := h (fun x => x) 0x78830000#32 ((PpcCpu.zero false false).setReg 4#5 1#64) .rldicl rfl
  have hmeets := (computes_iff (fun x => x) 0x78830000#32 (rldicl_settled _ _ rfl)).mp hcomputes
  exact absurd hmeets (by unfold RotOp.Meets; decide)

end Gxemul.Ppc
