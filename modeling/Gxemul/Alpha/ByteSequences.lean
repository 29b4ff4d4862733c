import Gxemul.Alpha.Alu
import Gxemul.Alpha.LoadStoreAgree
import Gxemul.Lib.Masks

/- What Alpha programs do with bytes (`src/cpus/cpu_alpha_instr_alu.c`): loads and
   stores at any address, put together from accesses to whole quadwords, and the search
   for a byte with cmpbge.

   The quadwords are read and written as ldq_u and stq_u do it on a page that is in the
   tables, in the memory that the program sees. -/
namespace Gxemul.Alpha

open Lib

/-- The functions for ldq_u and stq_u. -/
def quadU (load : Bool) : LsKind := ⟨.q, load, false, true, false⟩

def AluSize.toNat : AluSize → Nat
  | .b => 1
  | .w => 2
  | .l => 4
  | .q => 8

/-! ## Sequences -/

section
variable (hostBig : Bool) (mem : Addr → Byte)

def ldqU (addr : Addr) : Reg :=
  let addr := AlphaMachine.alignedAddr (quadU true) addr
  LsSize.q.loadValue hostBig fun n => mem (addr + BitVec.ofNat 64 n)

def stqU (addr : Addr) (x : Reg) : Addr → Byte := fun p =>
  let addr := AlphaMachine.alignedAddr (quadU false) addr
  ((LsSize.q.storeBytes hostBig x)[(p - addr).toNat]?).getD (mem p)

variable (size : AluSize) (a : Addr)

def lastByte : Addr := a + BitVec.ofNat 64 (size.toNat - 1)

/-- An unaligned load: ldq_u, ldq_u, extXl, extXh, bis. -/
def loadSequence : Option Reg := do
  let lo ← (AluOp.bytes .ext size true).result (ldqU hostBig mem a) a
  let hi ← (AluOp.bytes .ext size false).result (ldqU hostBig mem (lastByte size a)) a
  (AluOp.logic .or false).result lo hi

/-- One of the quadwords of an unaligned store: mskX, insX, bis. -/
def mergeSequence (lo : Bool) (quad v : Reg) : Option Reg := do
  let kept ← (AluOp.bytes .msk size lo).result quad a
  let inserted ← (AluOp.bytes .ins size lo).result v a
  (AluOp.logic .or false).result kept inserted

def storeSequence (v : Reg) : Option (Addr → Byte) := do
  let hi ← mergeSequence size a false (ldqU hostBig mem (lastByte size a)) v
  let lo ← mergeSequence size a true (ldqU hostBig mem a) v
  return stqU hostBig (stqU hostBig mem (lastByte size a) hi) a lo

end

/-! ## Quadwords and their bytes -/

def inQuad (a : Addr) : Nat := a.toNat % 8

theorem and_seven (a : Addr) : (a &&& 7#64).toNat = inQuad a := toNat_and_mask a 3 (by decide)

theorem toNat_alignedAddr (load : Bool) (a : Addr) :
    (AlphaMachine.alignedAddr (quadU load) a).toNat = a.toNat / 8 * 8 := toNat_and_not_mask a 3

theorem byteOf_loadValue (hostBig : Bool) (data : Nat → Byte) {j : Nat} (hj : j < 8) :
    byteOf (LsSize.q.loadValue hostBig data) j = data j := by
  have hbyte := @byteOf_value 64 false ((List.range LsSize.q.toNat).map data) j (by simpa [LsSize.toNat] using hj)
    (by omega)
  rw [if_neg Bool.false_ne_true, List.getElem?_map, List.getElem?_range (show j < LsSize.q.toNat from hj)] at hbyte
  rw [loadValue_eq, dataX_eq]
  exact Option.some.inj hbyte

theorem byteOf_ldqU (hostBig : Bool) (mem : Addr → Byte) (a : Addr) {j : Nat} (hj : j < 8) :
    byteOf (ldqU hostBig mem a) j = mem (AlphaMachine.alignedAddr (quadU true) a + BitVec.ofNat 64 j) :=
  byteOf_loadValue hostBig _ hj

theorem getElem?_storeBytes (hostBig : Bool) (x : Reg) (d : Nat) :
    (LsSize.q.storeBytes hostBig x)[d]? = if d < 8 then some (byteOf x d) else none := by
  rw [storeBytes_eq, dataBytes_eq]
  split
  next hd =>
    have hbyte := @getElem?_bytes 64 false 8 x d hd (by decide)
    rw [if_neg Bool.false_ne_true] at hbyte
    exact hbyte
  next hd =>
    apply List.getElem?_eq_none
    rw [length_leBytes]
    exact Nat.le_of_not_lt hd

theorem stqU_apply (hostBig : Bool) (mem : Addr → Byte) (a : Addr) (x : Reg) (p : Addr) :
    stqU hostBig mem a x p =
      if (p - AlphaMachine.alignedAddr (quadU false) a).toNat < 8 then
        byteOf x (p - AlphaMachine.alignedAddr (quadU false) a).toNat
      else mem p := by
  unfold stqU
  dsimp only
  rw [getElem?_storeBytes]
  split <;> rfl

/-! The functions for ldq_u and stq_u do this to the memory of a page that is in the tables. -/

namespace AlphaMachine
variable {conf : LsConf} {io : Io} {ic : LsCall} {i : Nat} {m : AlphaMachine} {page : Nat} {mem : Addr → Byte}

end AlphaMachine

/-! ## Extractions, insertions and masks -/

section
variable (size : AluSize) (x a : Reg) (j : Nat)

theorem byteOf_mask : byteOf size.mask j = if j < size.toNat then 0xff#8 else 0#8 := by
  by_cases hj : j < 8
  · revert j
    cases size <;> decide
  · have hsize : size.toNat ≤ 8 := by cases size <;> decide
    rw [byteOf_of_le _ (by omega), if_neg (by omega)]

theorem byteOf_and_mask : byteOf (x &&& size.mask) j = if j < size.toNat then byteOf x j else 0#8 := by
  rw [byteOf_and, byteOf_mask]
  split
  · exact BitVec.and_allOnes
  · exact BitVec.and_zero

theorem high_shift : 64 - inQuad a * 8 = (8 - inQuad a) * 8 := by
  omega

theorem byteOf_extLow :
    byteOf (AluBytes.ext.result size true x a) j = if j < size.toNat then byteOf x (j + inQuad a) else 0#8 := by
  unfold AluBytes.result
  dsimp only
  rw [if_pos rfl, byteOf_and_mask, and_seven, byteOf_ushiftRight]

theorem byteOf_extHigh {j : Nat} (hj : j < 8) :
    byteOf (AluBytes.ext.result size false x a) j =
      if j < size.toNat then
        if inQuad a = 0 then byteOf x j
        else if j < 8 - inQuad a then 0#8 else byteOf x (j - (8 - inQuad a))
      else 0#8 := by
  unfold AluBytes.result
  dsimp only
  rw [if_neg Bool.false_ne_true, byteOf_and_mask, and_seven]
  by_cases h0 : inQuad a = 0
  · rw [h0]
    rfl
  · have hne : ¬ 64 - inQuad a * 8 = 64 := by
      omega
    rw [if_neg hne, if_neg h0, high_shift, byteOf_shiftLeft _ _ (by omega)]

theorem byteOf_insLow {j : Nat} (hj : j < 8) :
    byteOf (AluBytes.ins.result size true x a) j =
      if inQuad a ≤ j ∧ j - inQuad a < size.toNat then byteOf x (j - inQuad a) else 0#8 := by
  unfold AluBytes.result
  dsimp only
  rw [if_pos rfl, and_seven, byteOf_shiftLeft _ _ (by omega), byteOf_and_mask]
  by_cases hlow : j < inQuad a
  · rw [if_pos hlow, if_neg (by omega)]
  · have hle : inQuad a ≤ j := by omega
    simp [hlow, hle]

theorem byteOf_insHigh :
    byteOf (AluBytes.ins.result size false x a) j =
      if inQuad a ≠ 0 ∧ j + (8 - inQuad a) < size.toNat then byteOf x (j + (8 - inQuad a)) else 0#8 := by
  unfold AluBytes.result
  dsimp only
  rw [if_neg Bool.false_ne_true, and_seven]
  by_cases h0 : inQuad a = 0
  · have heq : 64 - inQuad a * 8 = 64 := by omega
    rw [if_pos heq, if_neg (fun h => h.1 h0)]
    exact (congrArg (BitVec.setWidth 8) BitVec.zero_ushiftRight).trans (BitVec.setWidth_zero 8 64)
  · have hne : ¬ 64 - inQuad a * 8 = 64 := by
      omega
    rw [if_neg hne, high_shift, byteOf_ushiftRight, byteOf_and_mask]
    simp [h0]

theorem byteOf_mskLow {j : Nat} (hj : j < 8) :
    byteOf (AluBytes.msk.result size true x a) j =
      if inQuad a ≤ j ∧ j - inQuad a < size.toNat then 0#8 else byteOf x j := by
  unfold AluBytes.result
  dsimp only
  rw [if_pos rfl, and_seven, byteOf_and, byteOf_not _ (by omega), byteOf_shiftLeft _ _ (by omega), byteOf_mask]
  by_cases hlow : j < inQuad a
  · rw [if_pos hlow, if_neg (by omega)]
    exact BitVec.and_allOnes
  · have hle : inQuad a ≤ j := by omega
    rw [if_neg hlow]
    by_cases hin : j - inQuad a < size.toNat
    · rw [if_pos hin, if_pos ⟨hle, hin⟩]
      exact BitVec.and_zero
    · rw [if_neg hin, if_neg (fun h => hin h.2)]
      exact BitVec.and_allOnes

theorem byteOf_mskHigh {j : Nat} (hj : j < 8) :
    byteOf (AluBytes.msk.result size false x a) j =
      if inQuad a ≠ 0 ∧ j + (8 - inQuad a) < size.toNat then 0#8 else byteOf x j := by
  unfold AluBytes.result
  dsimp only
  rw [if_neg Bool.false_ne_true, and_seven]
  by_cases h0 : inQuad a = 0
  · have hzero : inQuad a * 8 = 0 := by omega
    rw [if_pos hzero, if_neg (fun h => h.1 h0)]
    exact congrArg (byteOf · j) BitVec.and_allOnes
  · have hne : ¬ inQuad a * 8 = 0 := by omega
    rw [if_neg hne, high_shift, byteOf_and, byteOf_not _ (by omega), byteOf_ushiftRight, byteOf_mask]
    by_cases hin : j + (8 - inQuad a) < size.toNat
    · rw [if_pos hin, if_pos ⟨h0, hin⟩]
      exact BitVec.and_zero
    · rw [if_neg hin, if_neg (fun h => hin h.2)]
      exact BitVec.and_allOnes

end

/-! ## Accesses at any address -/

section
variable (size : AluSize) (a : Addr)

theorem size_bounds : 0 < size.toNat ∧ size.toNat ≤ 8 := by
  cases size <;> decide

theorem alignedAddr_lastByte (load : Bool) :
    AlphaMachine.alignedAddr (quadU load) (lastByte size a) = AlphaMachine.alignedAddr (quadU load) a +
      BitVec.ofNat 64 (if inQuad a + size.toNat ≤ 8 then 0 else 8) := by
  obtain ⟨hpos, hle⟩ := size_bounds size
  apply BitVec.eq_of_toNat_eq
  rw [BitVec.toNat_add, toNat_alignedAddr, toNat_alignedAddr, lastByte, BitVec.toNat_add, BitVec.toNat_ofNat,
    BitVec.toNat_ofNat]
  unfold inQuad
  split <;> omega

theorem alignedAddr_add (load : Bool) (j : Nat) :
    AlphaMachine.alignedAddr (quadU load) a + BitVec.ofNat 64 (inQuad a + j) = a + BitVec.ofNat 64 j := by
  apply BitVec.eq_of_toNat_eq
  rw [BitVec.toNat_add, BitVec.toNat_add, toNat_alignedAddr, BitVec.toNat_ofNat, BitVec.toNat_ofNat]
  unfold inQuad
  omega

theorem toNat_sub_quad (p : Addr) :
    (p - AlphaMachine.alignedAddr (quadU false) a).toNat = ((p - a).toNat + inQuad a) % 2 ^ 64 ∧
      (inQuad a + size.toNat ≤ 8 → (p - AlphaMachine.alignedAddr (quadU false) (lastByte size a)).toNat =
        (p - AlphaMachine.alignedAddr (quadU false) a).toNat) ∧
      (8 < inQuad a + size.toNat → (p - AlphaMachine.alignedAddr (quadU false) (lastByte size a)).toNat =
        ((p - AlphaMachine.alignedAddr (quadU false) a).toNat + 2 ^ 64 - 8) % 2 ^ 64) := by
  rw [alignedAddr_lastByte]
  refine ⟨?_, fun hone => ?_, fun htwo => ?_⟩
  · simp only [BitVec.toNat_sub, toNat_alignedAddr]
    unfold inQuad
    omega
  · rw [if_pos hone, BitVec.add_zero]
  · rw [if_neg (by omega)]
    simp only [BitVec.toNat_sub, BitVec.toNat_add, toNat_alignedAddr, BitVec.toNat_ofNat]
    omega

variable (hostBig : Bool) (mem : Addr → Byte)

theorem byteOf_ldqU_sub (p : Addr) (h : (p - AlphaMachine.alignedAddr (quadU false) a).toNat < 8) :
    byteOf (ldqU hostBig mem a) (p - AlphaMachine.alignedAddr (quadU false) a).toNat = mem p := by
  rw [byteOf_ldqU _ _ _ h, BitVec.ofNat_toNat, BitVec.setWidth_eq]
  congr 1
  rw [BitVec.add_comm]
  exact BitVec.sub_add_cancel ..

theorem byteOf_lowQuad {j : Nat} (hj : inQuad a + j < 8) :
    byteOf (ldqU hostBig mem a) (j + inQuad a) = mem (a + BitVec.ofNat 64 j) := by
  rw [byteOf_ldqU _ _ _ (by omega), Nat.add_comm, alignedAddr_add]

theorem byteOf_highQuad {j : Nat} (hj : 8 ≤ inQuad a + j) (hsize : j < size.toNat) :
    byteOf (ldqU hostBig mem (lastByte size a)) (j - (8 - inQuad a)) = mem (a + BitVec.ofNat 64 j) := by
  have hin : inQuad a < 8 := Nat.mod_lt _ (by decide)
  have hle := (size_bounds size).2
  have hnext : ¬ inQuad a + size.toNat ≤ 8 := by omega
  have hsum : BitVec.ofNat 64 8 + BitVec.ofNat 64 (j - (8 - inQuad a)) = BitVec.ofNat 64 (inQuad a + j) := by
    rw [← BitVec.ofNat_add]
    congr 1
    omega
  rw [byteOf_ldqU _ _ _ (by omega), alignedAddr_lastByte, if_neg hnext, BitVec.add_assoc, hsum, alignedAddr_add]

theorem loadSequence_bytes : ∃ r, loadSequence hostBig mem size a = some r ∧
    ∀ j < 8, byteOf r j = if j < size.toNat then mem (a + BitVec.ofNat 64 j) else 0#8 := by
  refine ⟨_, rfl, fun j hj => ?_⟩
  rw [if_neg Bool.false_ne_true, byteOf_or, byteOf_extLow, byteOf_extHigh _ _ _ hj]
  by_cases hsize : j < size.toNat
  · rw [if_pos hsize, if_pos hsize, if_pos hsize]
    by_cases h0 : inQuad a = 0
    · -- both are the same quadword
      have hfirst : inQuad a + size.toNat ≤ 8 := by
        have hle := (size_bounds size).2
        omega
      have hsame : ldqU hostBig mem (lastByte size a) = ldqU hostBig mem a := by
        unfold ldqU
        rw [alignedAddr_lastByte, if_pos hfirst, BitVec.add_zero]
      have hlow := byteOf_lowQuad a hostBig mem (j := j) (by omega)
      rw [if_pos h0, hsame, hlow, ← hlow, h0, Nat.add_zero]
      exact BitVec.or_self
    · rw [if_neg h0]
      by_cases hlow : j < 8 - inQuad a
      · rw [if_pos hlow, byteOf_lowQuad a hostBig mem (by omega)]
        exact BitVec.or_zero
      · rw [if_neg hlow, byteOf_of_le _ (by omega), byteOf_highQuad size a hostBig mem (by omega) hsize]
        exact BitVec.zero_or
  · rw [if_neg hsize, if_neg hsize, if_neg hsize]
    exact BitVec.or_zero

theorem mergeSequence_bytes (lo : Bool) (quad v : Reg) : ∃ r, mergeSequence size a lo quad v = some r ∧
    ∀ j < 8, byteOf r j =
      if lo then if inQuad a ≤ j ∧ j - inQuad a < size.toNat then byteOf v (j - inQuad a) else byteOf quad j
      else if inQuad a ≠ 0 ∧ j + (8 - inQuad a) < size.toNat then byteOf v (j + (8 - inQuad a)) else byteOf quad j := by
  refine ⟨_, rfl, fun j hj => ?_⟩
  rw [if_neg Bool.false_ne_true, byteOf_or]
  cases lo with
  | true =>
    rw [byteOf_mskLow _ _ _ hj, byteOf_insLow _ _ _ hj, if_pos rfl]
    split
    · exact BitVec.zero_or
    · exact BitVec.or_zero
  | false =>
    rw [byteOf_mskHigh _ _ _ hj, byteOf_insHigh, if_neg Bool.false_ne_true]
    split
    · exact BitVec.zero_or
    · exact BitVec.or_zero

theorem storeSequence_bytes (v : Reg) : ∃ mem', storeSequence hostBig mem size a v = some mem' ∧
    ∀ p, mem' p = if (p - a).toNat < size.toNat then byteOf v (p - a).toNat else mem p := by
  obtain ⟨hi, hhi, hbhi⟩ := mergeSequence_bytes size a false (ldqU hostBig mem (lastByte size a)) v
  obtain ⟨lo, hlo, hblo⟩ := mergeSequence_bytes size a true (ldqU hostBig mem a) v
  refine ⟨stqU hostBig (stqU hostBig mem (lastByte size a) hi) a lo, ?_, fun p => ?_⟩
  · unfold storeSequence
    rw [hhi, hlo]
    rfl
  · obtain ⟨hpos, hle⟩ := size_bounds size
    have hin : inQuad a < 8 := Nat.mod_lt _ (by decide)
    obtain ⟨hquad, hone, htwo⟩ := toNat_sub_quad size a p
    rw [stqU_apply]
    by_cases hd : (p - AlphaMachine.alignedAddr (quadU false) a).toNat < 8
    · -- a byte of the low quadword
      rw [if_pos hd, hblo _ hd, if_pos rfl]
      by_cases hset : (p - a).toNat < size.toNat
      · have hplace : (p - AlphaMachine.alignedAddr (quadU false) a).toNat - inQuad a = (p - a).toNat := by omega
        rw [if_pos hset, if_pos (by omega), hplace]
      · rw [if_neg hset, if_neg (by omega)]
        exact byteOf_ldqU_sub a hostBig mem p hd
    · rw [if_neg hd, stqU_apply]
      by_cases he : (p - AlphaMachine.alignedAddr (quadU false) (lastByte size a)).toNat < 8
      · -- a byte of the next quadword
        rw [if_pos he, hbhi _ he, if_neg Bool.false_ne_true]
        by_cases hset : (p - a).toNat < size.toNat
        · have hplace : (p - AlphaMachine.alignedAddr (quadU false) (lastByte size a)).toNat + (8 - inQuad a) =
              (p - a).toNat := by omega
          rw [if_pos hset, if_pos (by omega), hplace]
        · rw [if_neg hset, if_neg (by omega)]
          exact byteOf_ldqU_sub (lastByte size a) hostBig mem p he
      · rw [if_neg he, if_neg (by omega)]

end

/-! ## cmpbge and zap -/

section
variable (x y z : Reg)

theorem cmpbgeLoop_steps {n : Nat} (hn : n ≤ 8) : ∃ rc,
    (List.range n).foldl (fun (s : Reg × Reg × Reg) n =>
      let rc := if s.2.1.setWidth 8 ≤ s.1.setWidth 8 then s.2.2 ||| 1#64 <<< (7 - n) else s.2.2
      (s.1 >>> 8, s.2.1 >>> 8, rc)) (x, y, 0#64) = (x >>> (n * 8), y >>> (n * 8), rc) ∧
    ∀ i, rc.getLsbD i = true ↔ i < 8 ∧ 7 - i < n ∧ byteOf y (7 - i) ≤ byteOf x (7 - i) := by
  induction n with
  | zero => exact ⟨0#64, by simp, fun i => by simp⟩
  | succ n ih =>
    obtain ⟨rc, hfold, hbits⟩ := ih (by omega)
    rw [List.range_succ, List.foldl_append, hfold, List.foldl_cons, List.foldl_nil]
    have hx : x >>> ((n + 1) * 8) = x >>> (n * 8) >>> 8 := by
      rw [Nat.add_one_mul, BitVec.shiftRight_add]
    have hy : y >>> ((n + 1) * 8) = y >>> (n * 8) >>> 8 := by
      rw [Nat.add_one_mul, BitVec.shiftRight_add]
    refine ⟨_, Prod.ext hx.symm (Prod.ext hy.symm rfl), fun i => ?_⟩
    -- the new bit is `7 - n`
    have hnew : (1#64 <<< (7 - n)).getLsbD i = true ↔ i = 7 - n := by
      rw [← BitVec.twoPow_eq, BitVec.getLsbD_twoPow]
      simp only [Bool.and_eq_true, decide_eq_true_eq]
      omega
    have hother : i ≠ 7 - n → (i < 8 ∧ 7 - i < n + 1 ↔ i < 8 ∧ 7 - i < n) := by omega
    by_cases hi : i = 7 - n
    · have hback : 7 - i = n := by omega
      have hold : rc.getLsbD i = false := by
        cases hrc : rc.getLsbD i with
        | false => rfl
        | true =>
          have hlt := ((hbits i).mp hrc).2.1
          omega
      rw [hback]
      split
      next hge =>
        rw [BitVec.getLsbD_or, hnew.mpr hi, Bool.or_true]
        exact iff_of_true rfl ⟨by omega, by omega, hge⟩
      next hlt =>
        rw [hold]
        exact iff_of_false Bool.false_ne_true fun h => hlt h.2.2
    · have hnot : (1#64 <<< (7 - n)).getLsbD i = false := Bool.eq_false_iff.mpr fun h => hi (hnew.mp h)
      rw [← and_assoc, hother hi, and_assoc, ← hbits i]
      split
      · rw [BitVec.getLsbD_or, hnot, Bool.or_false]
      · exact Iff.rfl

theorem cmpbgeLoop_bits (i : Nat) :
    (cmpbgeLoop x y).getLsbD i = true ↔ i < 8 ∧ byteOf y (7 - i) ≤ byteOf x (7 - i) := by
  obtain ⟨rc, hfold, hbits⟩ := cmpbgeLoop_steps x y (Nat.le_refl 8)
  unfold cmpbgeLoop
  rw [hfold, hbits i]
  constructor
  · exact fun h => ⟨h.1, h.2.2⟩
  · exact fun h => ⟨h.1, by omega, h.2⟩

theorem zapmask_steps (n : Nat) (hn : n ≤ 8) {j : Nat} (hj : j < 8) :
    byteOf ((List.range n).foldl
      (fun mask n => if z.getLsbD n then mask &&& ~~~ (0xff#64 <<< (8 * n)) else mask) (BitVec.allOnes 64)) j =
      if j < n ∧ z.getLsbD j = true then 0#8 else 0xff#8 := by
  induction n with
  | zero =>
    have hones : ∀ j < 8, byteOf (BitVec.allOnes 64) j = 0xff#8 := by decide
    rw [if_neg (fun h => absurd h.1 (Nat.not_lt_zero j))]
    exact hones j hj
  | succ n ih =>
    have hff : byteOf (~~~ (0xff#64 <<< (8 * n))) j = if j = n then 0#8 else 0xff#8 := by
      have hmask := byteOf_mask .b (j - n)
      rw [Nat.mul_comm, byteOf_not _ (by omega), byteOf_shiftLeft _ _ (by omega)]
      by_cases hjn : j = n
      · subst hjn
        simp [byteOf]
      · rw [if_neg hjn]
        split
        · rfl
        · have hone : ¬ j - n < AluSize.b.toNat := by
            change ¬ j - n < 1
            omega
          rw [if_neg hone] at hmask
          exact congrArg (~~~ ·) hmask
    rw [List.range_succ, List.foldl_append, List.foldl_cons, List.foldl_nil]
    have hlast := ih (by omega)
    by_cases hjn : j = n
    · subst hjn
      rw [if_neg (fun h => absurd h.1 (Nat.lt_irrefl j))] at hlast
      by_cases hz : z.getLsbD j = true
      · rw [if_pos hz, byteOf_and, hff, if_pos rfl, if_pos ⟨Nat.lt_succ_self j, hz⟩]
        exact BitVec.and_zero
      · rw [if_neg hz, hlast, if_neg (fun h => hz h.2)]
    · have hsame : (j < n + 1 ∧ z.getLsbD j = true) ↔ (j < n ∧ z.getLsbD j = true) := by
        constructor
        · exact fun h => ⟨by omega, h.2⟩
        · exact fun h => ⟨by omega, h.2⟩
      rw [if_congr hsame rfl rfl, ← hlast]
      split
      · rw [byteOf_and, hff, if_neg hjn]
        exact BitVec.and_allOnes
      · rfl

theorem zap_bytes (m : Reg) (not : Bool) : ∃ r, (AluOp.zap not).result z m = some r ∧
    ∀ j < 8, byteOf r j = if m.getLsbD j = not then byteOf z j else 0#8 := by
  refine ⟨_, rfl, fun j hj => ?_⟩
  rw [byteOf_and]
  unfold zapmask
  rw [zapmask_steps _ 8 (Nat.le_refl 8) hj]
  have hlt : j < 64 := by omega
  have hbit : (if not = true then ~~~ m else m).getLsbD j = (not ^^ m.getLsbD j) := by
    cases not with
    | false => exact (Bool.false_xor _).symm
    | true => rw [if_pos rfl, BitVec.getLsbD_not, decide_eq_true hlt, Bool.true_and, Bool.true_xor]
  rw [hbit]
  by_cases hsame : m.getLsbD j = not
  · rw [if_pos hsame, hsame, Bool.xor_self, if_neg (fun h => Bool.false_ne_true h.2)]
    exact BitVec.and_allOnes
  · have hne : (not ^^ m.getLsbD j) = true := by
      revert hsame
      cases m.getLsbD j <;> cases not <;> simp
    rw [if_neg hsame, if_pos ⟨hj, hne⟩]
    exact BitVec.and_zero

end

/-! ## All of them -/

/-- Byte `k` of a quadword is zero, and no lower byte is. -/
def FirstZero (x : Reg) (k : Nat) : Prop := k < 8 ∧ byteOf x k = 0#8 ∧ ∀ j < k, byteOf x j ≠ 0#8

/-- Byte `k` of a quadword is zero, and no higher byte is. -/
def LastZero (x : Reg) (k : Nat) : Prop := k < 8 ∧ byteOf x k = 0#8 ∧ ∀ j, k < j → j < 8 → byteOf x j ≠ 0#8

/-- Bit `k` is set, and no lower bit is. -/
def LowestBit (x : Reg) (k : Nat) : Prop := x.getLsbD k = true ∧ ∀ j < k, x.getLsbD j = false

structure SequencesWork (hostBig : Bool) (mem : Addr → Byte) (a : Addr) (v x y z : Reg) : Prop where
  load : ∀ size, size ≠ AluSize.b → ∃ r, loadSequence hostBig mem size a = some r ∧
    ∀ j < 8, byteOf r j = if j < size.toNat then mem (a + BitVec.ofNat 64 j) else 0#8
  store : ∀ size, size ≠ AluSize.b → ∃ mem', storeSequence hostBig mem size a v = some mem' ∧
    ∀ p, mem' p = if (p - a).toNat < size.toNat then byteOf v (p - a).toNat else mem p
  cmpbge : ∃ m, AluOp.cmpbge.result x y = some m ∧
    (∀ i, m.getLsbD i = true ↔ i < 8 ∧ byteOf y i ≤ byteOf x i) ∧
    ∀ not, ∃ r, (AluOp.zap not).result z m = some r ∧
      ∀ j < 8, byteOf r j = if decide (byteOf y j ≤ byteOf x j) = not then byteOf z j else 0#8
  firstZero : ∃ m, AluOp.cmpbge.result 0#64 x = some m ∧ ∀ k, LowestBit m k ↔ FirstZero x k

def Mirrored (x y : Reg) : Prop := ∀ i < 8, (byteOf y i ≤ byteOf x i ↔ byteOf y (7 - i) ≤ byteOf x (7 - i))

section
variable (x y z : Reg)

theorem cmpbge_mirrored : (∃ m, AluOp.cmpbge.result x y = some m ∧
    ∀ i, m.getLsbD i = true ↔ i < 8 ∧ byteOf y i ≤ byteOf x i) ↔ Mirrored x y := by
  constructor
  · rintro ⟨m, hm, hbits⟩ i hi
    cases hm
    have hbit := hbits i
    rw [cmpbgeLoop_bits] at hbit
    constructor
    · exact fun hge => (hbit.mpr ⟨hi, hge⟩).2
    · exact fun hge => (hbit.mp ⟨hi, hge⟩).2
  · intro hmir
    refine ⟨_, rfl, fun i => ?_⟩
    rw [cmpbgeLoop_bits]
    exact and_congr_right fun hi => (hmir i hi).symm

theorem le_zero_iff (b : Byte) : b ≤ 0#8 ↔ b = 0#8 := by
  constructor
  · exact fun h => BitVec.eq_of_toNat_eq (Nat.le_zero.mp (BitVec.le_def.mp h))
  · rintro rfl
    exact BitVec.le_def.mpr (Nat.le_refl _)

theorem byteOf_zero (j : Nat) : byteOf 0#64 j = 0#8 := by
  unfold byteOf
  rw [BitVec.zero_ushiftRight]
  exact BitVec.setWidth_zero 8 64

theorem cmpbge_firstZero (k : Nat) : LowestBit (cmpbgeLoop 0#64 x) k ↔ k < 8 ∧ LastZero x (7 - k) := by
  have hbit : ∀ i, (cmpbgeLoop 0#64 x).getLsbD i = true ↔ i < 8 ∧ byteOf x (7 - i) = 0#8 := by
    intro i
    rw [cmpbgeLoop_bits, byteOf_zero, le_zero_iff]
  constructor
  · rintro ⟨hk, hlow⟩
    obtain ⟨hlt, hzero⟩ := (hbit k).mp hk
    refine ⟨hlt, by omega, hzero, fun j hj hj8 hjz => ?_⟩
    have hset := (hbit (7 - j)).mpr ⟨by omega, by rwa [show 7 - (7 - j) = j by omega]⟩
    rw [hlow (7 - j) (by omega)] at hset
    cases hset
  · rintro ⟨hlt, -, hzero, hhigh⟩
    refine ⟨(hbit k).mpr ⟨hlt, hzero⟩, fun j hj => Bool.eq_false_iff.mpr fun hset => ?_⟩
    exact hhigh (7 - j) (by omega) (by omega) ((hbit j).mp hset).2

theorem exists_firstZero {k : Nat} (hk : k < 8) (hz : byteOf x k = 0#8) : ∃ j, FirstZero x j := by
  induction k using Nat.strong_induction_on with
  | _ k ih =>
    by_cases hlow : ∃ j < k, byteOf x j = 0#8
    · obtain ⟨j, hj, hzj⟩ := hlow
      exact ih j hj (by omega) hzj
    · exact ⟨k, hk, hz, fun j hj hzj => hlow ⟨j, hj, hzj⟩⟩

theorem exists_lastZero {n k : Nat} (hn : 7 - k < n) (hk : k < 8) (hz : byteOf x k = 0#8) : ∃ j, LastZero x j := by
  induction n generalizing k with
  | zero => omega
  | succ n ih =>
    by_cases hhigh : ∃ j, k < j ∧ j < 8 ∧ byteOf x j = 0#8
    · obtain ⟨j, hj, hj8, hzj⟩ := hhigh
      exact ih (by omega) hj8 hzj
    · exact ⟨k, hk, hz, fun j hj hj8 hzj => hhigh ⟨j, hj, hj8, hzj⟩⟩

theorem firstZero_unique {j k : Nat} (hj : FirstZero x j) (hk : FirstZero x k) : j = k := by
  obtain ⟨-, hzj, hlj⟩ := hj
  obtain ⟨-, hzk, hlk⟩ := hk
  by_contra hne
  obtain hlt | hlt := Nat.lt_or_gt_of_ne hne
  · exact hlk j hlt hzj
  · exact hlj k hlt hzk

theorem firstZero_iff : (∃ m, AluOp.cmpbge.result 0#64 x = some m ∧ ∀ k, LowestBit m k ↔ FirstZero x k) ↔
    ∀ j k, FirstZero x j → LastZero x k → j + k = 7 := by
  constructor
  · rintro ⟨m, hm, hfirst⟩ j k hj hk
    cases hm
    have hk8 := hk.1
    have hlow : LowestBit (cmpbgeLoop 0#64 x) (7 - k) := by
      rw [cmpbge_firstZero]
      exact ⟨by omega, by rwa [show 7 - (7 - k) = k by omega]⟩
    have heq := firstZero_unique x hj ((hfirst (7 - k)).mp hlow)
    omega
  · intro hsum
    refine ⟨_, rfl, fun k => ?_⟩
    rw [cmpbge_firstZero]
    constructor
    · rintro ⟨hk8, hlast⟩
      obtain ⟨j, hj⟩ := exists_firstZero x hlast.1 hlast.2.1
      have hj7 := hsum j (7 - k) hj hlast
      obtain rfl : j = k := by omega
      exact hj
    · intro hfirst
      obtain ⟨j, hj⟩ := exists_lastZero x (n := 8) (by omega) hfirst.1 hfirst.2.1
      have hj7 := hsum k j hfirst hj
      obtain rfl : j = 7 - k := by omega
      exact ⟨hfirst.1, hj⟩

end

/-- The sequences work where cmpbge cannot tell the first byte from the last one. -/
theorem sequencesWork_iff (hostBig : Bool) (mem : Addr → Byte) (a : Addr) (v x y z : Reg) :
    SequencesWork hostBig mem a v x y z ↔
      Mirrored x y ∧ ∀ j k, FirstZero x j → LastZero x k → j + k = 7 := by
  constructor
  · rintro ⟨-, -, ⟨m, hm, hbits, -⟩, hfirst⟩
    exact ⟨(cmpbge_mirrored x y).mp ⟨m, hm, hbits⟩, (firstZero_iff x).mp hfirst⟩
  · rintro ⟨hmir, hsum⟩
    obtain ⟨m, hm, hbits⟩ := (cmpbge_mirrored x y).mpr hmir
    refine ⟨fun size _ => loadSequence_bytes size a hostBig mem, fun size _ => storeSequence_bytes size a hostBig mem v,
      ⟨m, hm, hbits, fun not => ?_⟩, (firstZero_iff x).mpr hsum⟩
    obtain ⟨r, hr, hbytes⟩ := zap_bytes z m not
    refine ⟨r, hr, fun j hj => ?_⟩
    have hbit : m.getLsbD j = decide (byteOf y j ≤ byteOf x j) := by
      rw [Bool.eq_iff_iff, hbits j, decide_eq_true_eq]
      exact and_iff_right hj
    rw [hbytes j hj, hbit]

/-- The search for the zero byte of 1: seven bytes are zero, and the first one is byte 1. cmpbge names byte 0. -/
theorem not_sequencesWork : ¬ SequencesWork false (fun _ => 0#8) 0#64 0#64 0#64 1#64 0#64 := by
  intro h
  obtain ⟨m, hm, hbits, -⟩ := h.cmpbge
  have hmir := (cmpbge_mirrored 0#64 1#64).mp ⟨m, hm, hbits⟩ 0 (by decide)
  revert hmir
  decide

end Gxemul.Alpha
