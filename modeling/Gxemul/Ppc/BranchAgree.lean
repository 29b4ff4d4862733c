import Gxemul.Lib.Masks
import Gxemul.Ppc.Branch

/- PowerPC branches, against the architecture: where execution goes on, LR and CTR.

   All functions for one instruction agree, but for bclr_20, which does not clear the two
   low bits of LR. There is none for bcctr with a count. -/
namespace Gxemul.Ppc

open Lib

/-! ## The reference -/

/-- The branches, with their fields. `bh` is with the bits before it, which are reserved. -/
inductive BranchInstr where
  | bc (bo bi : BitVec 5) (bd : BitVec 14) (lk : Bool)
  | b (li : BitVec 24) (aa lk : Bool)
  | bclr (bo bi bh : BitVec 5) (lk : Bool)
  | bcctr (bo bi bh : BitVec 5) (lk : Bool)

namespace BranchInstr
variable (c : PpcCpu)

def iword : BranchInstr → Word
  | bc bo bi bd lk => 0x10#6 ++ bo ++ bi ++ bd ++ 0#1 ++ BitVec.ofBool lk
  | b li aa lk => 0x12#6 ++ li ++ BitVec.ofBool aa ++ BitVec.ofBool lk
  | bclr bo bi bh lk => 0x13#6 ++ bo ++ bi ++ bh ++ 16#10 ++ BitVec.ofBool lk
  | bcctr bo bi bh lk => 0x13#6 ++ bo ++ bi ++ bh ++ 528#10 ++ BitVec.ofBool lk

/-- CTR after the instruction. It is decremented when BO[2] is clear. -/
def archCtr : BranchInstr → Reg
  | b _ _ _ => c.spr sprCtr
  | bc bo _ _ _ | bclr bo _ _ _ | bcctr bo _ _ _ => if bo.getMsbD 2 then c.spr sprCtr else c.spr sprCtr - 1#64

/-- The condition on CTR: BO[2] is set, or CTR is 0 as BO[3] says. -/
def archCtrOk (bo : BitVec 5) (ctr : Reg) : Bool :=
  bo.getMsbD 2 || (decide (c.modeUint ctr ≠ 0#64) ^^ bo.getMsbD 3)

/-- The condition on a bit of CR: BO[0] is set, or the bit is as BO[1] says. -/
def archCondOk (bo bi : BitVec 5) : Bool := bo.getMsbD 0 || (c.cr.getMsbD bi.toNat == bo.getMsbD 1)

def taken (i : BranchInstr) : Bool :=
  match i with
  | b _ _ _ => true
  | bc bo bi _ _ | bclr bo bi _ _ => archCtrOk c bo (i.archCtr c) && archCondOk c bo bi
  | bcctr bo bi _ _ => archCondOk c bo bi

/-- The target of a branch at `cia`. -/
def target (cia : Addr) : BranchInstr → Addr
  | bc _ _ bd _ => cia + (bd ++ 0#2).signExtend 64
  | b li aa _ => (if aa then 0#64 else cia) + (li ++ 0#2).signExtend 64
  | bclr _ _ _ _ => c.spr sprLr &&& ~~~ 3#64
  | bcctr _ _ _ _ => c.spr sprCtr &&& ~~~ 3#64

def lk : BranchInstr → Bool
  | bc _ _ _ lk | b _ _ lk | bclr _ _ _ lk | bcctr _ _ _ lk => lk

def nextAddr (cia : Addr) (i : BranchInstr) : Addr := if i.taken c then i.target c cia else cia + 4#64

def archLr (cia : Addr) (i : BranchInstr) : Reg := if i.lk then cia + 4#64 else c.spr sprLr

/-- The address of the instruction at `lowPc`. -/
def cia (lowPc : Nat) : Addr := c.pageBase + (BitVec.ofNat 64 lowPc <<< 2)

structure Agrees (lowPc : Nat) (i : BranchInstr) (r : PpcCpu × Jump) : Prop where
  addr : c.modeUint (PpcCpu.goOn lowPc r).2 = c.modeUint (i.nextAddr c (cia c lowPc))
  lr : c.modeUint ((PpcCpu.goOn lowPc r).1.spr sprLr) = c.modeUint (i.archLr c (cia c lowPc))
  ctr : c.modeUint ((PpcCpu.goOn lowPc r).1.spr sprCtr) = c.modeUint (i.archCtr c)

end BranchInstr

/-! ## Addresses -/

section
variable {c : PpcCpu} {lowPc : Nat}

theorem ofNat_shl (n : Nat) : (BitVec.ofNat 64 n : Addr) <<< 2 = BitVec.ofNat 64 (4 * n) := by
  apply BitVec.eq_of_toNat_eq
  rw [BitVec.toNat_shiftLeft, BitVec.toNat_ofNat, BitVec.toNat_ofNat, Nat.shiftLeft_eq]
  omega

theorem next_eq : c.pageBase + (BitVec.ofNat 64 (lowPc + 1) <<< 2) = BranchInstr.cia c lowPc + 4#64 := by
  unfold BranchInstr.cia
  rw [ofNat_shl, ofNat_shl, BitVec.add_assoc, show 4 * (lowPc + 1) = 4 * lowPc + 4 by omega, BitVec.ofNat_add]

theorem page_and_entry (x : Addr) : (x &&& ~~~ 0xffc#64) + (BitVec.ofNat 64 ((x &&& 0xfff#64) >>> 2).toNat <<< 2) = x := by
  have hentry : BitVec.ofNat 64 ((x &&& 0xfff#64) >>> 2).toNat <<< 2 = x &&& 0xffc#64 := by
    rw [BitVec.ofNat_toNat, BitVec.setWidth_eq]
    have hones : ∀ j < 64, (0xfff#64).getLsbD j = decide (j < 12) := by decide
    have hmask : ∀ j < 64, (0xffc#64).getLsbD j = (decide (2 ≤ j) && decide (j < 12)) := by decide
    apply BitVec.eq_of_getLsbD_eq
    intro j hj
    rw [BitVec.getLsbD_shiftLeft, BitVec.getLsbD_ushiftRight, BitVec.getLsbD_and, BitVec.getLsbD_and, hmask j hj]
    by_cases hlow : j < 2
    · simp [hlow, show ¬ 2 ≤ j by omega]
    · rw [show 2 + (j - 2) = j by omega, hones j hj]
      simp [hlow, hj, show 2 ≤ j by omega, Bool.and_comm]
  rw [hentry]
  exact and_not_add_and x 0xffc#64

theorem pageBase_setPc {n : Nat} (hn : n < 1024) :
    (c.setPc (c.pageBase + (BitVec.ofNat 64 n <<< 2))).pageBase = c.pageBase := by
  have hmask : ∀ j < 64, (0xffc#64).getLsbD j = (decide (2 ≤ j) && decide (j < 12)) := by decide
  have hn' (j : Nat) (hj : ¬ (2 ≤ j ∧ j < 12)) : (BitVec.ofNat 64 n <<< 2).getLsbD j = false := by
    rw [ofNat_shl, BitVec.getLsbD_ofNat]
    by_cases hlow : j < 2
    · have hbit : (4 * n).testBit j = false := by
        rw [show 4 * n = n * 2 ^ 2 by omega, Nat.testBit_mul_two_pow]
        simp [show ¬ 2 ≤ j by omega]
      simp [hbit]
    · have hbit : (4 * n).testBit j = false :=
        Nat.testBit_lt_two_pow (Nat.lt_of_lt_of_le (show 4 * n < 2 ^ 12 by omega)
          (Nat.pow_le_pow_right (by decide) (by omega)))
      simp [hbit]
  unfold PpcCpu.pageBase PpcCpu.setPc
  rw [BitVec.add_eq_or_of_and_eq_zero]
  · apply BitVec.eq_of_getLsbD_eq
    intro j hj
    rw [BitVec.getLsbD_and, BitVec.getLsbD_or, BitVec.getLsbD_and, BitVec.getLsbD_not, hmask j hj]
    by_cases hin : 2 ≤ j ∧ j < 12
    · simp [hin]
    · rw [hn' j hin]
      simp
  · apply BitVec.eq_of_getLsbD_eq
    intro j hj
    rw [BitVec.getLsbD_and, BitVec.getLsbD_and, BitVec.getLsbD_not, hmask j hj, BitVec.getLsbD_zero]
    by_cases hin : 2 ≤ j ∧ j < 12
    · simp [hin]
    · rw [hn' j hin]
      simp

/-! ## Displacements -/

/-- An offset that is an `int32_t`, in words. -/
structure Displacement (d : Addr) : Prop where
  small : -(2 ^ 30) ≤ d.toInt ∧ d.toInt < 2 ^ 30
  aligned : d.toNat % 4 = 0

theorem int32_eq {x : Addr} (hlow : -(2 ^ 31) ≤ x.toInt) (hhigh : x.toInt < 2 ^ 31) : int32 x = x := by
  apply BitVec.eq_of_toInt_eq
  unfold int32
  rw [← BitVec.signExtend_eq_setWidth_of_le x (by decide), BitVec.toInt_signExtend_of_le (by decide),
    BitVec.toInt_signExtend_eq_toInt_bmod_of_le x (by decide), Int.bmod_eq_of_le (by omega) (by omega)]

theorem int32_add {d : Addr} (hd : Displacement d) (hlt : lowPc < 1024) :
    int32 (d + BitVec.ofNat 64 (4 * lowPc)) = d + BitVec.ofNat 64 (4 * lowPc) := by
  have hofs : (BitVec.ofNat 64 (4 * lowPc)).toInt = 4 * lowPc := by
    rw [BitVec.toInt_ofNat', Int.bmod_eq_of_le (by omega) (by omega)]
    omega
  have hsum : (d + BitVec.ofNat 64 (4 * lowPc)).toInt = d.toInt + 4 * lowPc := by
    have hsmall := hd.small
    rw [BitVec.toInt_add, hofs, Int.bmod_eq_of_le (by omega) (by omega)]
  have hsmall := hd.small
  exact int32_eq (by omega) (by omega)

theorem displacement_signExtend {n : Nat} (hn : n ≤ 28) (x : BitVec n) : Displacement ((x ++ 0#2).signExtend 64) := by
  have hint : ((x ++ 0#2).signExtend 64).toInt = (x ++ 0#2).toInt := BitVec.toInt_signExtend_of_le (by omega)
  have hlow := (x ++ 0#2).le_toInt
  have hhigh := (x ++ 0#2).toInt_lt
  have hpow : (2 : Int) ^ (n + 2 - 1) ≤ 2 ^ 29 := by
    exact_mod_cast Nat.pow_le_pow_right (show 0 < 2 by decide) (show n + 2 - 1 ≤ 29 by omega)
  refine ⟨⟨by omega, by omega⟩, ?_⟩
  have hmask := toNat_and_mask ((x ++ 0#2).signExtend 64) 2 (by decide)
  have hzero : (x ++ 0#2).signExtend 64 &&& BitVec.ofNat 64 (2 ^ 2 - 1) = 0#64 := by
    have hones : ∀ j < 64, (BitVec.ofNat 64 (2 ^ 2 - 1)).getLsbD j = decide (j < 2) := by decide
    apply BitVec.eq_of_getLsbD_eq
    intro j hj
    rw [BitVec.getLsbD_and, hones j hj, BitVec.getLsbD_zero, BitVec.getLsbD_signExtend]
    by_cases hlt : j < 2
    · have hnone : (x ++ 0#2).getLsbD j = false := by
        rw [BitVec.getLsbD_append, if_pos hlt, BitVec.getLsbD_zero]
      rw [if_pos (show j < n + 2 by omega), hnone, Bool.and_false, Bool.false_and]
    · rw [decide_eq_false hlt, Bool.and_false]
  rw [hzero] at hmask
  exact hmask.symm

theorem samepage_cases {addr d : Addr} {g : BranchCall} {f : Nat → BranchCall} (hd : Displacement d)
    (haddr : addr &&& 0xfff#64 = BitVec.ofNat 64 (4 * lowPc)) (hlt : lowPc < 1024) :
    samepage addr d g f = g ∨ ∃ n < 1024, samepage addr d g f = f n ∧
      c.pageBase + (BitVec.ofNat 64 n <<< 2) = BranchInstr.cia c lowPc + d := by
  have hint : int32 d = d := int32_eq (by have h := hd.small; omega) (by have h := hd.small; omega)
  unfold samepage
  rw [hint]
  by_cases hpage : addr &&& ~~~ maskWithinPage = (addr + d) &&& ~~~ maskWithinPage
  · refine Or.inr ⟨_, ?_, if_pos hpage, ?_⟩
    · have hmask := toNat_and_mask (addr + d) 12 (by decide)
      have hsame : (addr + d) &&& maskWithinPage = (addr + d) &&& BitVec.ofNat 64 (2 ^ 12 - 1) := rfl
      rw [BitVec.toNat_ushiftRight, Nat.shiftRight_eq_div_pow, hsame, hmask]
      omega
    · have hold := and_not_add_and addr maskWithinPage
      have hnew := and_not_add_and (addr + d) maskWithinPage
      have hofs : (addr + d) &&& maskWithinPage = BitVec.ofNat 64 (4 * lowPc) + d := by
        have hoff : addr &&& maskWithinPage = BitVec.ofNat 64 (4 * lowPc) := haddr
        have hsum : (addr &&& ~~~ maskWithinPage) + ((addr + d) &&& maskWithinPage) =
            (addr &&& ~~~ maskWithinPage) + (BitVec.ofNat 64 (4 * lowPc) + d) := by
          rw [← hoff, ← BitVec.add_assoc, hold, hpage, hnew]
        exact (BitVec.add_right_inj _).mp hsum
      have hshift : BitVec.ofNat 64 ((BitVec.ofNat 64 (4 * lowPc) + d) >>> 2).toNat <<< 2 =
          BitVec.ofNat 64 (4 * lowPc) + d := by
        have hal := hd.aligned
        apply BitVec.eq_of_toNat_eq
        rw [ofNat_shl, BitVec.toNat_ofNat, BitVec.toNat_ushiftRight, BitVec.toNat_add, BitVec.toNat_ofNat,
          Nat.shiftRight_eq_div_pow]
        omega
      rw [hofs, hshift]
      unfold BranchInstr.cia
      rw [ofNat_shl, BitVec.add_assoc]
  · exact Or.inl (if_neg hpage)

theorem pageBase_add_int32 {d : Addr} (hd : Displacement d) (hlt : lowPc < 1024) :
    c.pageBase + int32 (d + BitVec.ofNat 64 (4 * lowPc)) = BranchInstr.cia c lowPc + d := by
  rw [int32_add hd hlt]
  unfold BranchInstr.cia
  rw [ofNat_shl, BitVec.add_comm d, BitVec.add_assoc]

theorem pageOffset_eq {addr : Addr} (haddr : addr &&& 0xfff#64 = BitVec.ofNat 64 (4 * lowPc)) :
    addr &&& 0xffc#64 = BitVec.ofNat 64 (4 * lowPc) := by
  have hboth : addr &&& 0xffc#64 = (addr &&& 0xfff#64) &&& 0xffc#64 := by
    rw [BitVec.and_assoc]
    rfl
  have hmul : BitVec.ofNat 64 (4 * lowPc) &&& 3#64 = 0#64 := by
    apply BitVec.eq_of_toNat_eq
    have hmask := toNat_and_mask (BitVec.ofNat 64 (4 * lowPc)) 2 (by decide)
    refine hmask.trans ?_
    rw [BitVec.toNat_ofNat, BitVec.toNat_zero]
    omega
  have hsplit : (addr &&& 0xfff#64) &&& 0xffc#64 = addr &&& 0xfff#64 := by
    have hall : ∀ j < 64, (0xfff#64).getLsbD j = ((0xffc#64).getLsbD j || (3#64).getLsbD j) := by decide
    apply BitVec.eq_of_getLsbD_eq
    intro j hj
    have hbit := congrArg (·.getLsbD j) hmul
    rw [← haddr] at hbit
    simp only [BitVec.getLsbD_and, BitVec.getLsbD_zero, hall j hj] at hbit ⊢
    cases h3 : (3#64).getLsbD j <;> simp_all
  rw [hboth, hsplit, haddr]

/-! ## Instruction words -/

theorem displacement16_eq (bo bi : BitVec 5) (bd : BitVec 14) (lk : Bool) :
    displacement16 (BranchInstr.bc bo bi bd lk).iword = (bd ++ 0#2).signExtend 64 := by
  have hones : ∀ j < 16, (0xfffc#32).getLsbD j = decide (2 ≤ j) := by decide
  have hlow : (((BranchInstr.bc bo bi bd lk).iword &&& 0xfffc#32).setWidth 16) = bd ++ 0#2 := by
    apply BitVec.eq_of_getLsbD_eq
    intro j hj
    unfold BranchInstr.iword
    rw [BitVec.getLsbD_setWidth, BitVec.getLsbD_and, hones j hj]
    grind
  unfold displacement16
  rw [hlow]

theorem displacement26_eq (li : BitVec 24) (aa lk : Bool) :
    displacement26 (BranchInstr.b li aa lk).iword = (li ++ 0#2).signExtend 64 := by
  have hones : ∀ j < 26, (0x03fffffc#32).getLsbD j = decide (2 ≤ j) := by decide
  have htop : ((BranchInstr.b li aa lk).iword &&& 0x03fffffc#32) <<< 6 = (li ++ 0#2) ++ 0#6 := by
    apply BitVec.eq_of_getLsbD_eq
    intro j hj
    unfold BranchInstr.iword
    rw [BitVec.getLsbD_shiftLeft, BitVec.getLsbD_and]
    by_cases hlow : j < 6
    · rw [BitVec.getLsbD_append (x := li ++ 0#2), if_pos hlow, BitVec.getLsbD_zero]
      simp [hlow]
    · rw [hones (j - 6) (by omega)]
      grind
  unfold displacement26
  rw [htop]
  apply BitVec.eq_of_getLsbD_eq
  intro j hj
  have hmsb : ((li ++ 0#2) ++ 0#6).msb = (li ++ 0#2).msb := by
    rw [BitVec.msb_append, if_neg (by decide)]
  rw [BitVec.getLsbD_sshiftRight, BitVec.getLsbD_signExtend, BitVec.getLsbD_signExtend, BitVec.msb_signExtend, hmsb]
  grind

end

/-! ## The conditions -/

section
variable {c : PpcCpu} {lowPc : Nat} (bo bi : BitVec 5)

theorem spr_countDown : (c.countDown bo).spr =
    Function.update c.spr sprCtr (if bo.getMsbD 2 then c.spr sprCtr else c.spr sprCtr - 1#64) := by
  have hbit : bo &&& 4#5 = 0#5 ↔ bo.getMsbD 2 = false := by
    revert bo
    decide
  unfold PpcCpu.countDown
  by_cases hclear : bo.getMsbD 2 = false
  · rw [if_pos (hbit.mpr hclear), hclear]
    rfl
  · rw [if_neg (fun h => hclear (hbit.mp h)), if_pos (Bool.eq_true_of_not_eq_false hclear),
      Function.update_eq_self]

theorem ctr_countDown : (c.countDown bo).spr sprCtr =
    if bo.getMsbD 2 then c.spr sprCtr else c.spr sprCtr - 1#64 := by
  rw [spr_countDown, Function.update_self]

theorem lr_countDown : (c.countDown bo).spr sprLr = c.spr sprLr := by
  rw [spr_countDown, Function.update_of_ne (by decide)]

@[simp] theorem pc_countDown : (c.countDown bo).pc = c.pc := by
  unfold PpcCpu.countDown
  split <;> rfl

@[simp] theorem cr_countDown : (c.countDown bo).cr = c.cr := by
  unfold PpcCpu.countDown
  split <;> rfl

@[simp] theorem is32bit_countDown : (c.countDown bo).is32bit = c.is32bit := by
  unfold PpcCpu.countDown
  split <;> rfl

theorem ctrOk_eq {s : PpcCpu} (hmode : s.is32bit = c.is32bit) :
    s.ctrOk bo = BranchInstr.archCtrOk c bo (s.spr sprCtr) := by
  have hbits : bo.getLsbD 2 = bo.getMsbD 2 ∧ bo.getLsbD 1 = bo.getMsbD 3 := by
    revert bo
    decide
  unfold PpcCpu.ctrOk BranchInstr.archCtrOk PpcCpu.modeUint
  rw [hmode, hbits.1, hbits.2]
  generalize (if c.is32bit then _ else _ : Reg) = ctr
  by_cases hzero : ctr = 0#64 <;> cases bo.getMsbD 3 <;> simp [hzero]

theorem condOk_eq {s : PpcCpu} (hcr : s.cr = c.cr) :
    s.condOk bo (31 - bi.toNat) = BranchInstr.archCondOk c bo bi := by
  have hbits : bo.getLsbD 4 = bo.getMsbD 0 ∧ bo.getLsbD 3 = bo.getMsbD 1 := by
    revert bo
    decide
  have hcrBit : c.cr.getMsbD bi.toNat = c.cr.getLsbD (31 - bi.toNat) := by
    rw [BitVec.getMsbD_eq_getLsbD, decide_eq_true (by omega), Bool.true_and]
  unfold PpcCpu.condOk BranchInstr.archCondOk
  rw [hcr, hbits.1, hbits.2, hcrBit, Bool.beq_comm]

/-! ## Where execution goes on -/

theorem spr_setPc (s : PpcCpu) (x : Addr) : (s.setPc x).spr = s.spr := rfl

theorem goOn_next {s : PpcCpu} (hpc : s.pc = c.pc) (hlt : lowPc < 1024) :
    (PpcCpu.goOn lowPc (s, .next)).2 = BranchInstr.cia c lowPc + 4#64 ∧
      (PpcCpu.goOn lowPc (s, .next)).1.spr = s.spr := by
  have hbase : s.pageBase = c.pageBase := by
    unfold PpcCpu.pageBase
    rw [hpc]
  unfold PpcCpu.goOn
  by_cases hlast : lowPc + 1 < 1024
  · rw [if_pos hlast]
    refine ⟨?_, rfl⟩
    rw [hbase]
    exact next_eq
  · rw [if_neg hlast]
    refine ⟨?_, spr_setPc s _⟩
    have hbehind : (0x1000#64 : Addr) = BitVec.ofNat 64 (lowPc + 1) <<< 2 := by
      rw [ofNat_shl, show 4 * (lowPc + 1) = 0x1000 by omega]
    calc s.pageBase + 0x1000#64 = c.pageBase + (BitVec.ofNat 64 (lowPc + 1) <<< 2) := by rw [hbase, hbehind]
      _ = BranchInstr.cia c lowPc + 4#64 := next_eq

theorem goOn_jump (s : PpcCpu) (addr : Addr) :
    (PpcCpu.goOn lowPc (s.jump addr)).2 = addr &&& ~~~ 3#64 ∧ (PpcCpu.goOn lowPc (s.jump addr)).1.spr = s.spr := by
  unfold PpcCpu.jump
  by_cases hpage : s.pc &&& ~~~ maskWithinPage = (s.setPc (addr &&& ~~~ 3#64)).pc &&& ~~~ maskWithinPage
  · rw [if_pos hpage]
    exact ⟨page_and_entry (addr &&& ~~~ 3#64), rfl⟩
  · rw [if_neg hpage]
    exact ⟨rfl, rfl⟩

theorem goOn_b {s : PpcCpu} {d : Addr} (hpc : s.pc = c.pc) (hd : Displacement d) (hlt : lowPc < 1024) :
    (PpcCpu.goOn lowPc (s.b (d + BitVec.ofNat 64 (4 * lowPc)))).2 = BranchInstr.cia c lowPc + d ∧
      (PpcCpu.goOn lowPc (s.b (d + BitVec.ofNat 64 (4 * lowPc)))).1.spr = s.spr := by
  have hbase : s.pageBase = c.pageBase := by
    unfold PpcCpu.pageBase
    rw [hpc]
  refine ⟨?_, rfl⟩
  calc s.pageBase + int32 (d + BitVec.ofNat 64 (4 * lowPc))
      = c.pageBase + int32 (d + BitVec.ofNat 64 (4 * lowPc)) := by rw [hbase]
    _ = BranchInstr.cia c lowPc + d := pageBase_add_int32 hd hlt

theorem goOn_toIc {s : PpcCpu} {d : Addr} {n : Nat} (hpc : s.pc = c.pc)
    (hn : c.pageBase + (BitVec.ofNat 64 n <<< 2) = BranchInstr.cia c lowPc + d) :
    (PpcCpu.goOn lowPc (s, .toIc n)).2 = BranchInstr.cia c lowPc + d ∧
      (PpcCpu.goOn lowPc (s, .toIc n)).1.spr = s.spr := by
  have hbase : s.pageBase = c.pageBase := by
    unfold PpcCpu.pageBase
    rw [hpc]
  refine ⟨?_, rfl⟩
  calc s.pageBase + (BitVec.ofNat 64 n <<< 2) = c.pageBase + (BitVec.ofNat 64 n <<< 2) := by rw [hbase]
    _ = BranchInstr.cia c lowPc + d := hn

theorem getLsbD_modeUint {x : Addr} {j : Nat} (hj : j < 32) : (c.modeUint x).getLsbD j = x.getLsbD j := by
  unfold PpcCpu.modeUint
  split
  · rw [BitVec.getLsbD_setWidth, BitVec.getLsbD_setWidth, decide_eq_true (show j < 64 by omega), decide_eq_true hj,
      Bool.true_and, Bool.true_and]
  · rfl

theorem modeUint_aligned (x : Addr) :
    c.modeUint (c.modeUint x &&& ~~~ 3#64) = c.modeUint (x &&& ~~~ 3#64) := by
  unfold PpcCpu.modeUint
  by_cases hmode : c.is32bit = true
  · simp only [if_pos hmode, BitVec.setWidth_and, PpcCpu.setWidth_low]
  · rw [if_neg hmode, if_neg hmode, if_neg hmode]

end

/-! ## The four instructions -/

namespace BranchInstr
variable {c : PpcCpu} {lowPc : Nat} {addr : Addr}

theorem Agrees.of_eq {i : BranchInstr} {r : PpcCpu × Jump} (haddr : (PpcCpu.goOn lowPc r).2 = i.nextAddr c (cia c lowPc))
    (hlr : (PpcCpu.goOn lowPc r).1.spr sprLr = i.archLr c (cia c lowPc))
    (hctr : (PpcCpu.goOn lowPc r).1.spr sprCtr = i.archCtr c) : i.Agrees c lowPc r :=
  ⟨congrArg _ haddr, congrArg _ hlr, congrArg _ hctr⟩

theorem Agrees.of_ite {i : BranchInstr} {ok : Bool} {s : PpcCpu} {r : PpcCpu × Jump} (hlt : lowPc < 1024)
    (hpc : s.pc = c.pc) (hlr : s.spr sprLr = i.archLr c (cia c lowPc)) (hctr : s.spr sprCtr = i.archCtr c)
    (hok : ok = i.taken c) (haddr : c.modeUint (PpcCpu.goOn lowPc r).2 = c.modeUint (i.target c (cia c lowPc)))
    (hspr : (PpcCpu.goOn lowPc r).1.spr = s.spr) : i.Agrees c lowPc (if ok then r else (s, .next)) := by
  cases hcond : ok with
  | true =>
    have htaken : i.taken c = true := hok.symm.trans hcond
    rw [if_pos rfl]
    refine ⟨?_, by rw [hspr, hlr], by rw [hspr, hctr]⟩
    rw [haddr]
    unfold nextAddr
    rw [if_pos htaken]
  | false =>
    have htaken : i.taken c = false := hok.symm.trans hcond
    obtain ⟨hnext, hsame⟩ := goOn_next hpc hlt
    rw [if_neg (by decide)]
    refine .of_eq ?_ (by rw [hsame, hlr]) (by rw [hsame, hctr])
    rw [hnext]
    unfold nextAddr
    rw [htaken, if_neg (by decide)]

section
variable (bo bi : BitVec 5) (bd : BitVec 14) (lk : Bool)

theorem bc_fields :
    (bc bo bi bd lk).iword.extractLsb' 26 6 = 0x10#6 ∧ (bc bo bi bd lk).iword.extractLsb' 21 5 = bo ∧
      (bc bo bi bd lk).iword.extractLsb' 16 5 = bi ∧ (bc bo bi bd lk).iword.getLsbD 1 = false ∧
      (bc bo bi bd lk).iword.getLsbD 0 = lk := by
  unfold iword
  refine ⟨?_, ?_, ?_, ?_, ?_⟩
  all_goals try (apply BitVec.eq_of_getLsbD_eq; intro j hj)
  all_goals
    grind

theorem translate_bc (trace : Bool) (haddr : addr &&& 0xfff#64 = BitVec.ofNat 64 (4 * lowPc)) :
    translateBranch trace addr (bc bo bi bd lk).iword =
      let d := (bd ++ 0#2).signExtend 64
      let ofs := d + BitVec.ofNat 64 (4 * lowPc)
      some (if lk then samepage addr d (.bcl ofs bo (31 - bi.toNat)) fun ic => .bclSamepage ic bo (31 - bi.toNat)
        else samepage addr d (.bc ofs bo (31 - bi.toNat)) fun ic =>
          if bo &&& 0x14#5 = 0x04#5 then
            if bo &&& 8#5 ≠ 0#5 then .bcSamepageSimple1 ic (31 - bi.toNat) else .bcSamepageSimple0 ic (31 - bi.toNat)
          else .bcSamepage ic bo (31 - bi.toNat)) := by
  obtain ⟨hop, hbo, hbi, haa, hlk⟩ := bc_fields bo bi bd lk
  unfold translateBranch
  rw [hop]
  unfold translateBc
  rw [hbo, hbi, haa, hlk, displacement16_eq, pageOffset_eq haddr]
  cases lk <;> rfl

end

theorem Agrees.samepage {i : BranchInstr} {d : Addr} {g : BranchCall} {f : Nat → BranchCall} (hd : Displacement d)
    (haddr : addr &&& 0xfff#64 = BitVec.ofNat 64 (4 * lowPc)) (hlt : lowPc < 1024)
    (hgeneral : i.Agrees c lowPc (g.call lowPc c))
    (hsame : ∀ n < 1024, c.pageBase + (BitVec.ofNat 64 n <<< 2) = cia c lowPc + d →
      i.Agrees c lowPc ((f n).call lowPc c)) :
    i.Agrees c lowPc ((Ppc.samepage addr d g f).call lowPc c) := by
  obtain heq | ⟨n, hn, heq, hic⟩ := samepage_cases (c := c) (g := g) (f := f) hd haddr hlt
  · rw [heq]
    exact hgeneral
  · rw [heq]
    exact hsame n hn hic

section
variable (bo bi : BitVec 5) (bd : BitVec 14) (lk : Bool)

theorem linkNext_spr (s : PpcCpu) : (s.linkNext lowPc).spr = Function.update s.spr sprLr (cia s lowPc + 4#64) := by
  unfold PpcCpu.linkNext PpcCpu.setSpr
  rw [next_eq]

theorem agrees_bc_plain {r : PpcCpu → PpcCpu × Jump} (hlt : lowPc < 1024)
    (hr : ∀ s : PpcCpu, s.pc = c.pc → (PpcCpu.goOn lowPc (r s)).2 = cia c lowPc + (bd ++ 0#2).signExtend 64 ∧
      (PpcCpu.goOn lowPc (r s)).1.spr = s.spr) :
    (bc bo bi bd false).Agrees c lowPc
      (let s := c.countDown bo
       if s.ctrOk bo && s.condOk bo (31 - bi.toNat) then r s else (s, .next)) := by
  obtain ⟨hto, hspr⟩ := hr (c.countDown bo) (pc_countDown bo)
  refine Agrees.of_ite hlt (pc_countDown bo) (lr_countDown bo) (ctr_countDown bo) ?_ (congrArg _ hto) hspr
  rw [ctrOk_eq bo (is32bit_countDown bo), condOk_eq bo bi (cr_countDown bo), ctr_countDown]
  rfl

theorem agrees_bc_simple (hlt : lowPc < 1024) {n : Nat} (hbo : bo &&& 0x14#5 = 0x04#5)
    (hn : c.pageBase + (BitVec.ofNat 64 n <<< 2) = cia c lowPc + (bd ++ 0#2).signExtend 64) :
    (bc bo bi bd false).Agrees c lowPc (c, if c.cr.getLsbD (31 - bi.toNat) == bo.getMsbD 1 then .toIc n else .next) := by
  have hbits : bo.getMsbD 2 = true ∧ bo.getMsbD 0 = false ∧ bo.getLsbD 4 = false ∧ bo.getLsbD 3 = bo.getMsbD 1 := by
    revert bo
    decide
  obtain ⟨hctr, _, h4, h3⟩ := hbits
  have hkept : (bc bo bi bd false).archCtr c = c.spr sprCtr := if_pos hctr
  obtain ⟨hto, hspr⟩ := goOn_toIc (s := c) rfl hn
  have hok : (c.cr.getLsbD (31 - bi.toNat) == bo.getMsbD 1) = (bc bo bi bd false).taken c := by
    calc (c.cr.getLsbD (31 - bi.toNat) == bo.getMsbD 1) = c.condOk bo (31 - bi.toNat) := by
          unfold PpcCpu.condOk
          rw [h4, h3, Bool.false_or, Bool.beq_comm]
      _ = archCondOk c bo bi := condOk_eq bo bi rfl
      _ = (archCtrOk c bo ((bc bo bi bd false).archCtr c) && archCondOk c bo bi) := by
          unfold archCtrOk
          rw [hctr, Bool.true_or, Bool.true_and]
  rw [apply_ite (Prod.mk c)]
  exact Agrees.of_ite hlt rfl rfl hkept.symm hok (congrArg _ hto) hspr

theorem agrees_bc_link {r : PpcCpu → PpcCpu × Jump} (hlt : lowPc < 1024)
    (hr : ∀ s : PpcCpu, s.pc = c.pc → (PpcCpu.goOn lowPc (r s)).2 = cia c lowPc + (bd ++ 0#2).signExtend 64 ∧
      (PpcCpu.goOn lowPc (r s)).1.spr = s.spr) :
    (bc bo bi bd true).Agrees c lowPc
      (let s := (c.linkNext lowPc).countDown bo
       if s.ctrOk bo && s.condOk bo (31 - bi.toNat) then r s else (s, .next)) := by
  have hne : (c.linkNext lowPc).spr sprCtr = c.spr sprCtr := by
    rw [linkNext_spr, Function.update_of_ne (by decide)]
  have hctr : ((c.linkNext lowPc).countDown bo).spr sprCtr = (bc bo bi bd true).archCtr c := by
    rw [ctr_countDown, hne]
    rfl
  have hlr : ((c.linkNext lowPc).countDown bo).spr sprLr = cia c lowPc + 4#64 := by
    rw [lr_countDown, linkNext_spr, Function.update_self]
  obtain ⟨hto, hspr⟩ := hr ((c.linkNext lowPc).countDown bo) (pc_countDown bo)
  refine Agrees.of_ite hlt (pc_countDown bo) hlr hctr ?_ (congrArg _ hto) hspr
  have hmode : ((c.linkNext lowPc).countDown bo).is32bit = c.is32bit := is32bit_countDown bo
  have hcr : ((c.linkNext lowPc).countDown bo).cr = c.cr := cr_countDown bo
  rw [ctrOk_eq bo hmode, condOk_eq bo bi hcr, hctr]
  rfl

theorem agrees_bc (trace : Bool) (haddr : addr &&& 0xfff#64 = BitVec.ofNat 64 (4 * lowPc)) (hlt : lowPc < 1024) :
    ∃ call, translateBranch trace addr (bc bo bi bd lk).iword = some call ∧
      (bc bo bi bd lk).Agrees c lowPc (call.call lowPc c) := by
  have hd := displacement_signExtend (by decide) bd
  refine ⟨_, translate_bc bo bi bd lk trace haddr, ?_⟩
  cases lk with
  | true =>
    rw [if_pos rfl]
    refine Agrees.samepage hd haddr hlt ?_ ?_
    · exact agrees_bc_link bo bi bd hlt fun s hpc => goOn_b hpc hd hlt
    · intro n _ hic
      have h := agrees_bc_link bo bi bd hlt (r := fun s => (s, .toIc n)) fun s hpc => goOn_toIc hpc hic
      rw [← apply_ite (Prod.mk _)] at h
      exact h
  | false =>
    rw [if_neg (by decide)]
    refine Agrees.samepage hd haddr hlt ?_ ?_
    · exact agrees_bc_plain bo bi bd hlt fun s hpc => goOn_b hpc hd hlt
    · intro n _ hic
      by_cases hsimple : bo &&& 0x14#5 = 0x04#5
      · have hmsb : bo &&& 8#5 ≠ 0#5 ↔ bo.getMsbD 1 = true := by
          revert bo
          decide
        have h := agrees_bc_simple (c := c) bo bi bd hlt hsimple hic
        rw [if_pos hsimple]
        by_cases hset : bo &&& 8#5 ≠ 0#5
        · rw [if_pos hset]
          rw [hmsb.mp hset, beq_true] at h
          exact h
        · rw [if_neg hset]
          rw [Bool.eq_false_iff.mpr (fun hone => hset (hmsb.mpr hone)), beq_false] at h
          have hswap : (if (!c.cr.getLsbD (31 - bi.toNat)) = true then Jump.toIc n else .next) =
              if c.cr.getLsbD (31 - bi.toNat) = true then .next else .toIc n := by
            cases c.cr.getLsbD (31 - bi.toNat) <;> rfl
          rw [hswap] at h
          exact h
      · rw [if_neg hsimple]
        have h := agrees_bc_plain bo bi bd hlt (r := fun s => (s, .toIc n)) fun s hpc => goOn_toIc hpc hic
        rw [← apply_ite (Prod.mk _)] at h
        exact h

end

section
variable (li : BitVec 24) (aa lk : Bool)

theorem b_fields :
    (b li aa lk).iword.extractLsb' 26 6 = 0x12#6 ∧ (b li aa lk).iword.getLsbD 1 = aa ∧
      (b li aa lk).iword.getLsbD 0 = lk := by
  unfold iword
  refine ⟨?_, ?_, ?_⟩
  all_goals try (apply BitVec.eq_of_getLsbD_eq; intro j hj)
  all_goals
    grind

theorem translate_b (trace : Bool) (haddr : addr &&& 0xfff#64 = BitVec.ofNat 64 (4 * lowPc)) :
    translateBranch trace addr (b li aa lk).iword =
      let d := (li ++ 0#2).signExtend 64
      let ofs := d + BitVec.ofNat 64 (4 * lowPc)
      let lrOfs := BitVec.ofNat 64 (4 * lowPc) + 4#64
      if aa then some (if lk then if trace then .blaTrace d lrOfs else .bla d lrOfs else .ba d)
      else if lk then
        some (if trace then samepage addr d (.blTrace ofs lrOfs) fun ic => .blSamepageTrace ic lrOfs
          else samepage addr d (.bl ofs lrOfs) fun ic => .blSamepage ic lrOfs)
      else some (samepage addr d (.b ofs) .bSamepage) := by
  obtain ⟨hop, haa, hlk⟩ := b_fields li aa lk
  unfold translateBranch
  rw [hop]
  unfold translateB
  rw [haa, hlk, displacement26_eq, pageOffset_eq haddr]
  rfl

theorem agrees_b_of {r : PpcCpu × Jump} (hto : (PpcCpu.goOn lowPc r).2 = (b li aa lk).target c (cia c lowPc))
    (hspr : (PpcCpu.goOn lowPc r).1.spr = if lk then Function.update c.spr sprLr (cia c lowPc + 4#64) else c.spr) :
    (b li aa lk).Agrees c lowPc r := by
  refine .of_eq hto ?_ ?_
  · rw [hspr]
    cases lk with
    | true =>
      rw [if_pos rfl, Function.update_self]
      rfl
    | false => rfl
  · rw [hspr]
    cases lk with
    | true =>
      rw [if_pos rfl, Function.update_of_ne (by decide)]
      rfl
    | false => rfl

theorem lrOfs_eq : c.pageBase + (BitVec.ofNat 64 (4 * lowPc) + 4#64) = cia c lowPc + 4#64 := by
  unfold cia
  rw [ofNat_shl, BitVec.add_assoc]

theorem int32_displacement {d : Addr} (hd : Displacement d) : int32 d = d := by
  have hsmall := hd.small
  exact int32_eq (by omega) (by omega)

theorem agrees_b (trace : Bool) (haddr : addr &&& 0xfff#64 = BitVec.ofNat 64 (4 * lowPc)) (hlt : lowPc < 1024) :
    ∃ call, translateBranch trace addr (b li aa lk).iword = some call ∧
      (b li aa lk).Agrees c lowPc (call.call lowPc c) := by
  have hd := displacement_signExtend (by decide) li
  have hlink (s : PpcCpu) (hs : s.spr = c.spr) :
      (s.setSpr sprLr (c.pageBase + (BitVec.ofNat 64 (4 * lowPc) + 4#64))).spr =
        Function.update c.spr sprLr (cia c lowPc + 4#64) := by
    unfold PpcCpu.setSpr
    rw [lrOfs_eq, hs]
  have habs : (0#64 : Addr) + (li ++ 0#2).signExtend 64 = int32 ((li ++ 0#2).signExtend 64) := by
    rw [int32_displacement hd, BitVec.zero_add]
  rw [translate_b li aa lk trace haddr]
  cases aa with
  | true =>
    -- an absolute address, which has no function for the same page
    rw [if_pos rfl]
    refine ⟨_, rfl, agrees_b_of li true lk ?_ ?_⟩
    · cases lk <;> cases trace <;> exact habs.symm
    · cases lk with
      | true => cases trace <;> exact hlink c rfl
      | false => rfl
  | false =>
    rw [if_neg (by decide)]
    cases lk with
    | false =>
      rw [if_neg (by decide)]
      refine ⟨_, rfl, Agrees.samepage hd haddr hlt ?_ fun n _ hic => ?_⟩
      · obtain ⟨hto, hspr⟩ := goOn_b (s := c) rfl hd hlt
        exact agrees_b_of li false false hto hspr
      · obtain ⟨hto, hspr⟩ := goOn_toIc (s := c) rfl hic
        exact agrees_b_of li false false hto hspr
    | true =>
      rw [if_pos rfl]
      refine ⟨_, rfl, ?_⟩
      cases trace with
      | true =>
        rw [if_pos rfl]
        refine Agrees.samepage hd haddr hlt ?_ fun n hn hic => ?_
        · exact agrees_b_of li false true (pageBase_add_int32 hd hlt) (hlink c rfl)
        · refine agrees_b_of li false true ?_ (hlink c rfl)
          have hbase := pageBase_setPc (c := c.setSpr sprLr (c.pageBase + (BitVec.ofNat 64 (4 * lowPc) + 4#64))) hn
          exact (congrArg (· + (BitVec.ofNat 64 n <<< 2)) hbase).trans hic
      | false =>
        rw [if_neg (by decide)]
        refine Agrees.samepage hd haddr hlt ?_ fun n _ hic => ?_
        · exact agrees_b_of li false true (pageBase_add_int32 hd hlt) (hlink (c.setPc c.pageBase) rfl)
        · exact agrees_b_of li false true hic (hlink c rfl)

end

section
variable (bo bi bh : BitVec 5) (lk : Bool)

theorem bclr_fields :
    (bclr bo bi bh lk).iword.extractLsb' 26 6 = 0x13#6 ∧ (bclr bo bi bh lk).iword.extractLsb' 1 10 = 16#10 ∧
      (bclr bo bi bh lk).iword.extractLsb' 21 5 = bo ∧ (bclr bo bi bh lk).iword.extractLsb' 16 5 = bi ∧
      (bclr bo bi bh lk).iword.getLsbD 0 = lk := by
  unfold iword
  refine ⟨?_, ?_, ?_, ?_, ?_⟩
  all_goals try (apply BitVec.eq_of_getLsbD_eq; intro j hj)
  all_goals
    grind

theorem bcctr_fields :
    (bcctr bo bi bh lk).iword.extractLsb' 26 6 = 0x13#6 ∧ (bcctr bo bi bh lk).iword.extractLsb' 1 10 = 528#10 ∧
      (bcctr bo bi bh lk).iword.extractLsb' 21 5 = bo ∧ (bcctr bo bi bh lk).iword.extractLsb' 16 5 = bi ∧
      (bcctr bo bi bh lk).iword.getLsbD 0 = lk := by
  unfold iword
  refine ⟨?_, ?_, ?_, ?_, ?_⟩
  all_goals try (apply BitVec.eq_of_getLsbD_eq; intro j hj)
  all_goals
    grind

theorem translate_bclr (trace : Bool) : translateBranch trace addr (bclr bo bi bh lk).iword =
    some (if lk then .bclrL bo (31 - bi.toNat)
      else if !trace && bo &&& 0x14#5 == 0x14#5 then .bclr20 else .bclr bo (31 - bi.toNat)) := by
  obtain ⟨hop, hxo, hbo, hbi, hlk⟩ := bclr_fields bo bi bh lk
  unfold translateBranch
  rw [hop]
  change (if _ then _ else _) = _
  rw [if_pos hxo]
  unfold translateBclr
  rw [hbo, hbi, hlk]

theorem translate_bcctr (trace : Bool) : translateBranch trace addr (bcctr bo bi bh lk).iword =
    if bo &&& 4#5 = 0#5 then none
    else some (if lk then .bcctrL bo (31 - bi.toNat) else .bcctr bo (31 - bi.toNat)) := by
  obtain ⟨hop, hxo, hbo, hbi, hlk⟩ := bcctr_fields bo bi bh lk
  unfold translateBranch
  rw [hop]
  change (if _ then _ else if _ then _ else _) = _
  rw [if_neg (by rw [hxo]; decide), if_pos hxo]
  unfold translateBcctr
  rw [hbo, hbi, hlk]

theorem goOn_register (s : PpcCpu) (x : Addr) :
    c.modeUint (PpcCpu.goOn lowPc (s.jump (c.modeUint x))).2 = c.modeUint (x &&& ~~~ 3#64) := by
  rw [(goOn_jump s (c.modeUint x)).1, modeUint_aligned]

theorem agrees_bclr_plain (hlt : lowPc < 1024) :
    (bclr bo bi bh false).Agrees c lowPc (c.bclr bo (31 - bi.toNat)) := by
  refine Agrees.of_ite hlt (pc_countDown bo) (lr_countDown bo) (ctr_countDown bo) ?_
    (goOn_register _ (c.spr sprLr)) (goOn_jump _ _).2
  rw [ctrOk_eq bo (is32bit_countDown bo), condOk_eq bo bi (cr_countDown bo), ctr_countDown]
  rfl

theorem agrees_bclr_link (hlt : lowPc < 1024) :
    (bclr bo bi bh true).Agrees c lowPc (c.bclrL lowPc bo (31 - bi.toNat)) := by
  have hcia : cia (c.countDown bo) lowPc = cia c lowPc := by
    unfold cia PpcCpu.pageBase
    rw [pc_countDown]
  have hlr : ((c.countDown bo).linkNext lowPc).spr sprLr = cia c lowPc + 4#64 := by
    rw [linkNext_spr, Function.update_self, hcia]
  have hctr : ((c.countDown bo).linkNext lowPc).spr sprCtr = (bclr bo bi bh true).archCtr c := by
    rw [linkNext_spr, Function.update_of_ne (by decide), ctr_countDown]
    rfl
  refine Agrees.of_ite hlt (pc_countDown bo) hlr hctr ?_ (goOn_register _ (c.spr sprLr)) (goOn_jump _ _).2
  rw [ctrOk_eq bo (is32bit_countDown bo), condOk_eq bo bi (cr_countDown bo), ctr_countDown]
  rfl

theorem agrees_bcctr_plain (hlt : lowPc < 1024) (hbo : bo.getMsbD 2 = true) :
    (bcctr bo bi bh false).Agrees c lowPc (c.bcctr bo (31 - bi.toNat)) := by
  have hctr : c.spr sprCtr = (bcctr bo bi bh false).archCtr c := (if_pos hbo).symm
  exact Agrees.of_ite hlt rfl rfl hctr (condOk_eq bo bi rfl) (goOn_register _ (c.spr sprCtr)) (goOn_jump _ _).2

theorem agrees_bcctr_link (hlt : lowPc < 1024) (hbo : bo.getMsbD 2 = true) :
    (bcctr bo bi bh true).Agrees c lowPc (c.bcctrL lowPc bo (31 - bi.toNat)) := by
  have hlr : (c.linkNext lowPc).spr sprLr = cia c lowPc + 4#64 := by
    rw [linkNext_spr, Function.update_self]
  have hctr : (c.linkNext lowPc).spr sprCtr = (bcctr bo bi bh true).archCtr c := by
    rw [linkNext_spr, Function.update_of_ne (by decide)]
    exact (if_pos hbo).symm
  exact Agrees.of_ite hlt rfl hlr hctr (condOk_eq bo bi rfl) (goOn_register _ (c.spr sprCtr)) (goOn_jump _ _).2

theorem agrees_bclr20 (hbo : bo &&& 0x14#5 = 0x14#5) :
    (bclr bo bi bh false).Agrees c lowPc c.bclr20 ↔ c.spr sprLr &&& 3#64 = 0#64 := by
  have hbits : bo.getMsbD 2 = true ∧ bo.getMsbD 0 = true := by
    revert bo
    decide
  have htaken : (bclr bo bi bh false).taken c = true := by
    have heq : (bclr bo bi bh false).taken c =
        (archCtrOk c bo ((bclr bo bi bh false).archCtr c) && archCondOk c bo bi) := rfl
    rw [heq]
    unfold archCtrOk archCondOk
    rw [hbits.1, hbits.2, Bool.true_or, Bool.true_or, Bool.true_and]
  have hnext : (bclr bo bi bh false).nextAddr c (cia c lowPc) = c.spr sprLr &&& ~~~ 3#64 := if_pos htaken
  have hsplit := and_not_add_and (c.spr sprLr) 3#64
  constructor
  · intro h
    have haddr : c.modeUint (c.spr sprLr) = c.modeUint (c.spr sprLr &&& ~~~ 3#64) := h.addr.trans (by rw [hnext])
    have hset : ∀ j < 2, (3#64).getLsbD j = true := by decide
    have hhigh : ∀ j < 64, ¬ j < 2 → (3#64).getLsbD j = false := by decide
    apply BitVec.eq_of_getLsbD_eq
    intro j hj
    rw [BitVec.getLsbD_and, BitVec.getLsbD_zero]
    by_cases hlt : j < 2
    · rw [← getLsbD_modeUint (c := c) (show j < 32 by omega), haddr, getLsbD_modeUint (show j < 32 by omega),
        BitVec.getLsbD_and, BitVec.getLsbD_not, hset j hlt, Bool.not_true, Bool.and_false, Bool.and_false,
        Bool.false_and]
    · rw [hhigh j hj hlt, Bool.and_false]
  · intro hzero
    rw [hzero, BitVec.add_zero] at hsplit
    refine .of_eq ?_ rfl (if_pos hbits.1).symm
    rw [hnext, hsplit]
    rfl

end

/-! ## All branches -/

def Meets (trace : Bool) (c : PpcCpu) : BranchInstr → Prop
  | bc _ _ _ _ | b _ _ _ => True
  | bclr bo _ _ lk => lk = false → trace = false → bo &&& 0x14#5 = 0x14#5 → c.spr sprLr &&& 3#64 = 0#64
  | bcctr bo _ _ _ => bo.getMsbD 2 = true

/-- What to_be_translated() has for the instruction agrees with the architecture. -/
def Agree (trace : Bool) (addr : Addr) (c : PpcCpu) (lowPc : Nat) (i : BranchInstr) : Prop :=
  ∃ call, translateBranch trace addr i.iword = some call ∧ i.Agrees c lowPc (call.call lowPc c)

theorem agree_bclr_iff (trace : Bool) (bo bi bh : BitVec 5) (lk : Bool) (hlt : lowPc < 1024) :
    (bclr bo bi bh lk).Agree trace addr c lowPc ↔ (bclr bo bi bh lk).Meets trace c := by
  unfold Agree
  rw [translate_bclr bo bi bh lk trace]
  cases lk with
  | true =>
    rw [if_pos rfl]
    refine ⟨fun _ hfalse => absurd hfalse (by decide), fun _ => ⟨_, rfl, agrees_bclr_link bo bi bh hlt⟩⟩
  | false =>
    rw [if_neg (by decide)]
    by_cases hspecial : trace = false ∧ bo &&& 0x14#5 = 0x14#5
    · rw [if_pos (by rw [hspecial.1, hspecial.2]; decide)]
      constructor
      · rintro ⟨call, hcall, hagrees⟩ _ _ _
        cases hcall
        exact (agrees_bclr20 bo bi bh hspecial.2).mp hagrees
      · intro hmeets
        exact ⟨_, rfl, (agrees_bclr20 bo bi bh hspecial.2).mpr (hmeets rfl hspecial.1 hspecial.2)⟩
    · have hgeneral : ¬ (!trace && bo &&& 0x14#5 == 0x14#5) = true := by
        simp only [Bool.and_eq_true, Bool.not_eq_true', beq_iff_eq]
        exact hspecial
      rw [if_neg hgeneral]
      exact ⟨fun _ _ htrace hbo => absurd ⟨htrace, hbo⟩ hspecial, fun _ => ⟨_, rfl, agrees_bclr_plain bo bi bh hlt⟩⟩

theorem agree_bcctr_iff (trace : Bool) (bo bi bh : BitVec 5) (lk : Bool) (hlt : lowPc < 1024) :
    (bcctr bo bi bh lk).Agree trace addr c lowPc ↔ (bcctr bo bi bh lk).Meets trace c := by
  have hbit : bo &&& 4#5 = 0#5 ↔ bo.getMsbD 2 = false := by
    revert bo
    decide
  unfold Agree
  rw [translate_bcctr bo bi bh lk trace]
  by_cases hcount : bo &&& 4#5 = 0#5
  · rw [if_pos hcount]
    constructor
    · rintro ⟨call, hcall, _⟩
      cases hcall
    · intro hmeets
      exact absurd (hbit.mp hcount) (by rw [show bo.getMsbD 2 = true from hmeets]; decide)
  · have hset : bo.getMsbD 2 = true := Bool.eq_true_of_not_eq_false (fun h => hcount (hbit.mpr h))
    rw [if_neg hcount]
    refine ⟨fun _ => hset, fun _ => ⟨_, rfl, ?_⟩⟩
    cases lk with
    | true => exact agrees_bcctr_link bo bi bh hlt hset
    | false => exact agrees_bcctr_plain bo bi bh hlt hset

/-- Every branch, wherever it is in its page. -/
theorem branches_agree_iff (trace : Bool) (addr : Addr) (c : PpcCpu) (lowPc : Nat) (i : BranchInstr)
    (hlt : lowPc < 1024) (haddr : addr &&& 0xfff#64 = BitVec.ofNat 64 (4 * lowPc)) :
    i.Agree trace addr c lowPc ↔ i.Meets trace c := by
  cases i with
  | bc bo bi bd lk => exact ⟨fun _ => trivial, fun _ => agrees_bc bo bi bd lk trace haddr hlt⟩
  | b li aa lk => exact ⟨fun _ => trivial, fun _ => agrees_b li aa lk trace haddr hlt⟩
  | bclr bo bi bh lk => exact agree_bclr_iff trace bo bi bh lk hlt
  | bcctr bo bi bh lk => exact agree_bcctr_iff trace bo bi bh lk hlt

/-- The last instruction of a page, `bl` to the one before it: another page is not looked up. -/
theorem last_bl_agrees :
    (b 0xffffff#24 false true).Agree false 0x1ffc#64 (.zero true false) 1023 :=
  (branches_agree_iff false 0x1ffc#64 (.zero true false) 1023 (b 0xffffff#24 false true) (by decide) rfl).mpr trivial

/-- `blr`, with LR as it is after `mtlr` of an odd number. -/
theorem not_branches_agree :
    ¬ ∀ (trace : Bool) (addr : Addr) (c : PpcCpu) (lowPc : Nat) (i : BranchInstr), lowPc < 1024 →
      addr &&& 0xfff#64 = BitVec.ofNat 64 (4 * lowPc) → i.Agree trace addr c lowPc := by
  intro hall
  have hblr := hall false 0x1000#64 ((PpcCpu.zero true false).setSpr sprLr 0x2001#64) 0
    (bclr 0x14#5 0#5 0#5 false) (by decide) rfl
  obtain ⟨call, hcall, hagrees⟩ := hblr
  rw [translate_bclr] at hcall
  cases hcall
  exact absurd hagrees.addr (by decide +kernel)

end BranchInstr

end Gxemul.Ppc
