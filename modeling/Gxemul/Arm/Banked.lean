import Gxemul.Arm.Cpu
import Gxemul.Lib.Run

/- The registers and the status words of an ARM CPU in the architecture.

   Every mode has its own view of one register file: fiq owns r8 to r14, irq, svc,
   abt and und own r13 and r14, and everything else is shared with user mode. -/
namespace Gxemul.Arm

/-- The mode that owns register `i` of mode `m`. -/
def ArmMode.owner (m : ArmMode) (i : Nat) : ArmMode :=
  match m with
  | .usr | .sys => .usr
  | .fiq => if 8 ≤ i ∧ i ≤ 14 then .fiq else .usr
  | .irq | .svc | .abt | .und => if 13 ≤ i ∧ i ≤ 14 then m else .usr

def ArmMode.hasSpsr (m : ArmMode) : Bool := m != .usr && m != .sys

/-- A register file with one register for each owner, and the status registers. -/
structure Architecture where
  file : ArmMode → Nat → Word
  pc : Word
  cpsr : Word
  spsr : ArmMode → Word
  control : Word

namespace Architecture
variable (a : Architecture)

/-- Register `i` of mode `m`. -/
def reg (m : ArmMode) (i : Nat) : Word := a.file (m.owner i) i

def setReg (m : ArmMode) (i : Nat) (value : Word) : Architecture :=
  { a with file := Function.update a.file (m.owner i) (Function.update (a.file (m.owner i)) i value) }

theorem reg_setReg (m m' : ArmMode) (i j : Nat) (value : Word) :
    (a.setReg m i value).reg m' j = if m'.owner j = m.owner i ∧ j = i then value else a.reg m' j := by
  unfold setReg reg
  dsimp only
  by_cases ho : m'.owner j = m.owner i
  · rw [ho, Function.update_self]
    by_cases hj : j = i
    · rw [hj, Function.update_self, if_pos ⟨rfl, rfl⟩]
    · rw [Function.update_of_ne hj, if_neg (fun h => hj h.2)]
  · rw [Function.update_of_ne ho, if_neg (fun h => ho h.1)]

def returnAddress (e : ArmException) : Word :=
  a.pc + (if e = .dataAbt then 4#32 else 0#32) + (if a.cpsr &&& armFlagT ≠ 0 then 2#32 else 4#32)

def vector (e : ArmException) : Word :=
  BitVec.ofNat 32 (e.nr * 4) + (if a.control &&& armControlV ≠ 0 then 0xffff0000#32 else 0#32)

def exception (e : ArmException) : Architecture :=
  let b := { a with
    spsr := Function.update a.spsr e.mode a.cpsr
    cpsr := ArmCpu.exceptionCpsr e a.cpsr
    pc := a.vector e }
  (b.setReg e.mode armLr (a.returnAddress e)).setReg e.mode armPc (a.vector e)

def msrCpsr (mask value : Word) : Architecture :=
  let mask := if a.cpsr &&& armFlagMode = ArmMode.usr.bits then mask &&& 0xff000000#32 else mask
  { a with cpsr := (a.cpsr &&& ~~~ mask) ||| (value &&& mask) }

/-- msr to the SPSR of mode `m`. -/
def msrSpsr (m : ArmMode) (mask value : Word) : Architecture :=
  if m.hasSpsr then { a with spsr := Function.update a.spsr m ((a.spsr m &&& ~~~ mask) ||| (value &&& mask)) } else a

/-- A return from mode `m` by a data processing instruction. -/
def dpiReturn (m : ArmMode) (result : Word) : Architecture :=
  { a with
    pc := result
    cpsr := if result &&& 1#32 ≠ 0 then a.spsr m ||| armFlagT else a.spsr m }

/-- The registers of mode `m` in a list are loaded. -/
def popRegs (m : ArmMode) (uBit : Bool) (iw : Word) (newValues : Nat → Word) : Architecture :=
  (ArmCpu.regOrder uBit).foldl (fun a i => if ArmCpu.inList iw i then a.setReg m i (newValues i) else a) a

/-- ldm in mode `m`. With the S bit it loads the registers of user mode, or, with the
program counter in the list, it returns from an exception. -/
def ldm (m : ArmMode) (rn : Nat) (uBit sBit wBit : Bool) (iw : Word) (newValues : Nat → Word) (addr : Word) :
    Architecture :=
  let toUser := sBit && !ArmCpu.inList iw 15
  let a := a.popRegs (if toUser then .usr else m) uBit iw newValues
  let a := if wBit then a.setReg m rn addr else a
  if ArmCpu.inList iw 15 then
    if sBit then
      if m.hasSpsr then { a with pc := a.reg m armPc &&& 0xfffffffc#32, cpsr := a.spsr m } else a
    else { a with pc := a.reg m armPc &&& 0xfffffffc#32 }
  else a

end Architecture

end Gxemul.Arm

/- The register banks of an ARM CPU are those of the architecture.

   The emulator keeps the registers of the current mode in `r` and the rest in the
   other arrays. `Represents` says which register file that is. Saving and loading
   the banks at a change of mode leaves the register file as it is. -/
namespace Gxemul.Arm

/-! ## What the emulator represents -/

namespace ArmCpu
variable (s : ArmCpu)

/-- The array that keeps register `i` of owner `o` while another mode is current. -/
def banked (o : ArmMode) (i : Nat) : Word :=
  match o with
  | .usr | .sys => s.defaultR8R14 (i - 8)
  | .fiq => s.fiqR8R14 (i - 8)
  | .irq => s.irqR13R14 (i - 13)
  | .svc => s.svcR13R14 (i - 13)
  | .abt => s.abtR13R14 (i - 13)
  | .und => s.undR13R14 (i - 13)

/-- Register `i` of mode `m'`, while mode `m` is current. -/
def view (m m' : ArmMode) (i : Nat) : Word := if m'.owner i = m.owner i then s.r i else s.banked (m'.owner i) i

def spsrOf : ArmMode → Word
  | .svc => s.spsrSvc
  | .abt => s.spsrAbt
  | .und => s.spsrUnd
  | .irq => s.spsrIrq
  | .fiq => s.spsrFiq
  | .usr | .sys => 0

/-- In mode `m`, the emulated state is one of the architecture. -/
structure Represents (m : ArmMode) (a : Architecture) : Prop where
  mode : armMode s.cpsr = some m
  reg : ∀ m' i, a.reg m' i = s.view m m' i
  pc : a.pc = s.pc
  cpsr : a.cpsr = s.syncFlags.cpsr
  spsr : ∀ m', m'.hasSpsr = true → a.spsr m' = s.spsrOf m'
  control : a.control = s.control

def withBanks (d f i v a u : Nat → Word) : ArmCpu :=
  { s with defaultR8R14 := d, fiqR8R14 := f, irqR13R14 := i, svcR13R14 := v, abtR13R14 := a, undR13R14 := u }

/-! ## Status words -/

def flagsOf (cpsr : Word) : BitVec 4 := (cpsr >>> 28).setWidth 4

theorem flagsOf_or (x y : Word) : flagsOf (x ||| y) = flagsOf x ||| flagsOf y := by
  unfold flagsOf
  rw [BitVec.ushiftRight_or_distrib, BitVec.setWidth_or]

theorem flagsOf_and (x y : Word) : flagsOf (x &&& y) = flagsOf x &&& flagsOf y := by
  unfold flagsOf
  rw [BitVec.ushiftRight_and_distrib, BitVec.setWidth_and]

theorem flagsOf_shift (f : BitVec 4) : flagsOf (f.setWidth 32 <<< 28) = f := by
  apply BitVec.eq_of_toNat_eq
  simp [flagsOf, Nat.shiftLeft_eq, Nat.shiftRight_eq_div_pow]
  omega

theorem flagsOf_sync : flagsOf s.syncFlags.cpsr = s.flags := by
  show flagsOf ((s.cpsr &&& 0x0fffffff#32) ||| (s.flags.setWidth 32 <<< 28)) = _
  rw [flagsOf_or, flagsOf_and, flagsOf_shift, show flagsOf 0x0fffffff#32 = 0#4 by decide, BitVec.and_zero,
    BitVec.zero_or]

theorem join_flagsOf (x : Word) : (x &&& 0x0fffffff#32) ||| ((flagsOf x).setWidth 32 <<< 28) = x := by
  have hwide : (flagsOf x).setWidth 32 = x >>> 28 := by
    apply BitVec.eq_of_toNat_eq
    simp [flagsOf, Nat.shiftRight_eq_div_pow]
    omega
  have hshift : x >>> 28 <<< 28 = x &&& 0xf0000000#32 := by
    have hmask : 0xf0000000#32 = BitVec.allOnes 32 <<< 28 := by decide
    rw [hmask]
    apply BitVec.eq_of_getLsbD_eq
    intro i hi
    simp only [BitVec.getLsbD_shiftLeft, BitVec.getLsbD_ushiftRight, BitVec.getLsbD_and, BitVec.getLsbD_allOnes, hi,
      decide_true, Bool.true_and]
    by_cases hlt : i < 28
    · simp [hlt]
    · have hlow : i - 28 < 32 := by omega
      simp [hlt, hlow, show 28 + (i - 28) = i by omega]
  rw [hwide, hshift, ← BitVec.and_or_distrib_left, show (0x0fffffff#32 ||| 0xf0000000#32) = BitVec.allOnes 32 by decide,
    BitVec.and_allOnes]

theorem syncFlags_of_flagsOf (h : flagsOf s.cpsr = s.flags) : s.syncFlags.cpsr = s.cpsr := by
  unfold syncFlags
  rw [← h]
  exact join_flagsOf s.cpsr

theorem syncFlags_writeCpsr (cpsr : Word) : (s.writeCpsr cpsr).syncFlags.cpsr = cpsr :=
  syncFlags_of_flagsOf (s.writeCpsr cpsr) rfl

theorem modeBits_sync : s.syncFlags.cpsr &&& armFlagMode = s.cpsr &&& armFlagMode := by
  show ((s.cpsr &&& 0x0fffffff#32) ||| (s.flags.setWidth 32 <<< 28)) &&& armFlagMode = _
  have hlow : s.flags.setWidth 32 <<< 28 &&& armFlagMode = 0#32 := by
    generalize s.flags = f
    revert f
    decide
  rw [BitVec.and_or_distrib_right, hlow, BitVec.or_zero, BitVec.and_assoc,
    show 0x0fffffff#32 &&& armFlagMode = armFlagMode by decide]

theorem flagT_sync : s.syncFlags.cpsr &&& armFlagT = s.cpsr &&& armFlagT := by
  show ((s.cpsr &&& 0x0fffffff#32) ||| (s.flags.setWidth 32 <<< 28)) &&& armFlagT = _
  have hlow : s.flags.setWidth 32 <<< 28 &&& armFlagT = 0#32 := by
    generalize s.flags = f
    revert f
    decide
  rw [BitVec.and_or_distrib_right, hlow, BitVec.or_zero, BitVec.and_assoc,
    show 0x0fffffff#32 &&& armFlagT = armFlagT by decide]

theorem armMode_congr {x y : Word} (h : x &&& armFlagMode = y &&& armFlagMode) : armMode x = armMode y := by
  unfold armMode
  rw [h]

theorem armMode_sync : armMode s.syncFlags.cpsr = armMode s.cpsr := armMode_congr s.modeBits_sync

theorem armMode_bits (m : ArmMode) : armMode m.bits = some m := by cases m <;> decide

theorem bits_of_armMode {x : Word} {m : ArmMode} (h : armMode x = some m) : x &&& armFlagMode = m.bits := by
  have hx : (x &&& armFlagMode) = BitVec.ofNat 32 (x &&& armFlagMode).toNat := by simp
  unfold armMode at h
  split at h <;> cases h <;> (rename_i hn; rw [hx, hn]; rfl)

theorem armMode_exceptionCpsr (e : ArmException) (cpsr : Word) : armMode (exceptionCpsr e cpsr) = some e.mode := by
  rw [← armMode_bits e.mode]
  apply armMode_congr
  have hz : (cpsr &&& ~~~ armFlagT &&& ~~~ armFlagMode) &&& armFlagMode = 0#32 := by
    rw [BitVec.and_assoc, show ~~~ armFlagMode &&& armFlagMode = 0#32 by decide, BitVec.and_zero]
  unfold exceptionCpsr
  split
  all_goals
    simp only [BitVec.and_or_distrib_right, hz, BitVec.zero_or]
    cases e <;> decide

theorem flagsOf_exceptionCpsr (e : ArmException) (cpsr : Word) : flagsOf (exceptionCpsr e cpsr) = flagsOf cpsr := by
  have hconst : flagsOf (~~~ armFlagT) = BitVec.allOnes 4 ∧ flagsOf (~~~ armFlagMode) = BitVec.allOnes 4 ∧
      flagsOf armFlagI = 0#4 ∧ flagsOf armFlagF = 0#4 ∧ flagsOf e.mode.bits = 0#4 := by
    cases e <;> decide
  obtain ⟨hT, hM, hI, hF, hB⟩ := hconst
  unfold exceptionCpsr
  split <;> simp only [flagsOf_or, flagsOf_and, hT, hM, hI, hF, hB, BitVec.and_allOnes, BitVec.or_zero]

/-! ## Saving and loading -/

theorem owner_of_low {i : Nat} (h : ¬ (8 ≤ i ∧ i ≤ 14)) (m : ArmMode) : m.owner i = .usr := by
  cases m <;> unfold ArmMode.owner <;> dsimp only <;> first | rfl | exact if_neg (by omega)

theorem view_of_low {i : Nat} (h : ¬ (8 ≤ i ∧ i ≤ 14)) (m m' : ArmMode) : s.view m m' i = s.r i := by
  unfold view
  rw [owner_of_low h, owner_of_low h, if_pos rfl]

theorem cases_of_banked {j : Nat} (h : 8 ≤ j ∧ j ≤ 14) :
    j = 8 ∨ j = 9 ∨ j = 10 ∨ j = 11 ∨ j = 12 ∨ j = 13 ∨ j = 14 := by omega

theorem saveRegisterBank_spec {m : ArmMode} (hm : armMode s.cpsr = some m) :
    ∃ d f i v a u, s.saveRegisterBank = .ok (s.withBanks d f i v a u) ∧
      ∀ m' j, 8 ≤ j ∧ j ≤ 14 → (s.withBanks d f i v a u).banked (m'.owner j) j = s.view m m' j := by
  unfold saveRegisterBank
  rw [hm]
  cases m <;> refine ⟨_, _, _, _, _, _, rfl, fun m' j hj => ?_⟩ <;>
    rcases cases_of_banked hj with rfl | rfl | rfl | rfl | rfl | rfl | rfl <;> cases m' <;> rfl

theorem loadRegisterBank_spec {m : ArmMode} (hm : armMode s.cpsr = some m) :
    ∃ r, s.loadRegisterBank = .ok { s with r } ∧
      ∀ j, r j = if 8 ≤ j ∧ j ≤ 14 then s.banked (m.owner j) j else s.r j := by
  unfold loadRegisterBank
  rw [hm]
  cases m <;> refine ⟨_, rfl, fun j => ?_⟩ <;> split
  all_goals
    rename_i hj
    first
    | rcases cases_of_banked hj with rfl | rfl | rfl | rfl | rfl | rfl | rfl <;> rfl
    | simp only [loadPair, copyIn]
      repeat rw [Function.update_of_ne (by omega)]
      exact if_neg (by omega)

theorem loadRegisterBank_view {s t : ArmCpu} {m m2 : ArmMode} (hr : t.r = s.r)
    (hbank : ∀ m' j, 8 ≤ j ∧ j ≤ 14 → t.banked (m'.owner j) j = s.view m m' j) (hm : armMode t.cpsr = some m2) :
    ∃ r, t.loadRegisterBank = .ok { t with r } ∧ ∀ m' j, ArmCpu.view { t with r } m2 m' j = s.view m m' j := by
  obtain ⟨r, hload, hreg⟩ := t.loadRegisterBank_spec hm
  refine ⟨r, hload, fun m' j => ?_⟩
  by_cases hj : 8 ≤ j ∧ j ≤ 14
  · unfold view
    split
    · rename_i ho
      show r j = _
      rw [hreg, if_pos hj, ← ho, hbank m' j hj]
      rfl
    · exact hbank m' j hj
  · rw [view_of_low _ hj, view_of_low _ hj]
    show r j = _
    rw [hreg, if_neg hj, hr]

/-! ## One register -/

theorem view_setReg (m m' : ArmMode) (i j : Nat) (value : Word) :
    (s.setReg i value).view m m' j = if m'.owner j = m.owner i ∧ j = i then value else s.view m m' j := by
  unfold view
  by_cases hj : j = i
  · subst hj
    by_cases ho : m'.owner j = m.owner j
    · rw [if_pos ho, if_pos ⟨ho, rfl⟩]
      exact Function.update_self _ _ _
    · rw [if_neg ho, if_neg (fun h => ho h.1), if_neg ho]
      rfl
  · rw [if_neg (fun h : m'.owner j = m.owner i ∧ j = i => hj h.2)]
    by_cases ho : m'.owner j = m.owner j
    · rw [if_pos ho, if_pos ho]
      exact Function.update_of_ne hj _ _
    · rw [if_neg ho, if_neg ho]
      rfl

theorem owner_ne_sys (m : ArmMode) (i : Nat) : m.owner i ≠ .sys := by
  cases m <;> unfold ArmMode.owner <;> dsimp only <;> (try split) <;> decide

theorem banked_updateUser (o : ArmMode) (i j : Nat) (value : Word) :
    ArmCpu.banked { s with defaultR8R14 := Function.update s.defaultR8R14 (i - 8) value } o j =
      if (o = .usr ∨ o = .sys) ∧ j - 8 = i - 8 then value else s.banked o j := by
  cases o <;> simp [banked, Function.update_apply]

theorem view_updateUser {m : ArmMode} {i : Nat} (ho : m.owner i ≠ .usr) (m' : ArmMode) (j : Nat) (value : Word) :
    ArmCpu.view { s with defaultR8R14 := Function.update s.defaultR8R14 (i - 8) value } m m' j =
      if m'.owner j = .usr ∧ j = i then value else s.view m m' j := by
  have hi : 8 ≤ i ∧ i ≤ 14 := Decidable.byContradiction fun hi => ho (owner_of_low hi m)
  unfold view
  by_cases hcur : m'.owner j = m.owner j
  · rw [if_pos hcur, if_pos hcur, if_neg]
    intro h
    obtain ⟨hu, rfl⟩ := h
    exact ho (hcur.symm.trans hu)
  · rw [if_neg hcur, if_neg hcur, banked_updateUser]
    have hj : 8 ≤ j ∧ j ≤ 14 := Decidable.byContradiction fun hj => hcur ((owner_of_low hj m').trans (owner_of_low hj m).symm)
    have hiff : ((m'.owner j = .usr ∨ m'.owner j = .sys) ∧ j - 8 = i - 8) ↔ (m'.owner j = .usr ∧ j = i) := by
      have hsub : j - 8 = i - 8 ↔ j = i := by omega
      rw [hsub, or_iff_left (owner_ne_sys m' j)]
    simp only [hiff]

variable {s} {m : ArmMode} {a : Architecture}

theorem Represents.setReg (h : s.Represents m a) (i : Nat) (value : Word) :
    (s.setReg i value).Represents m (a.setReg m i value) := by
  refine ⟨h.mode, fun m' j => ?_, h.pc, h.cpsr, h.spsr, h.control⟩
  rw [Architecture.reg_setReg, view_setReg, h.reg]

theorem popReg_user (hm : armMode s.cpsr = some m) (i : Nat) (value : Word) :
    s.popReg true i value = if m.owner i = .usr then s.setReg i value
      else { s with defaultR8R14 := Function.update s.defaultR8R14 (i - 8) value } := by
  unfold popReg
  rw [hm]
  cases m <;> simp only [Bool.not_true, Bool.false_eq_true, if_false, ArmMode.owner] <;> split <;> simp_all

theorem Represents.popReg (h : s.Represents m a) (sBit : Bool) (i : Nat) (value : Word) :
    (s.popReg sBit i value).Represents m (a.setReg (if sBit then .usr else m) i value) := by
  cases sBit with
  | false => exact h.setReg i value
  | true =>
    rw [popReg_user h.mode, if_pos rfl]
    have huser : ArmMode.usr.owner i = .usr := rfl
    split
    · rename_i ho
      have heq : a.setReg .usr i value = a.setReg m i value := by
        unfold Architecture.setReg
        rw [huser, ho]
      rw [heq]
      exact h.setReg i value
    · rename_i ho
      refine ⟨h.mode, fun m' j => ?_, h.pc, h.cpsr, h.spsr, h.control⟩
      rw [Architecture.reg_setReg, huser, h.reg, view_updateUser s ho]

theorem Represents.setPc (h : s.Represents m a) (pc : Word) :
    ArmCpu.Represents { s with pc } m { a with pc } := ⟨h.mode, h.reg, rfl, h.cpsr, h.spsr, h.control⟩

/-! ## Exceptions -/

theorem setSpsr_eq (m : ArmMode) (value : Word) : ∃ x1 x2 x3 x4 x5, s.setSpsr m value =
    { s with spsrSvc := x1, spsrAbt := x2, spsrUnd := x3, spsrIrq := x4, spsrFiq := x5 } := by
  cases m <;> exact ⟨_, _, _, _, _, rfl⟩

theorem spsrOf_setSpsr (m m' : ArmMode) (hm : m'.hasSpsr = true) (value : Word) :
    (s.setSpsr m value).spsrOf m' = if m' = m then value else s.spsrOf m' := by
  cases m <;> cases m' <;> first | rfl | exact absurd hm (by decide)

theorem Represents.armException (h : s.Represents m a) {e : ArmException} (he : e ≠ .reset) :
    ∃ s', s.armException e = .ok s' ∧ s'.running = s.running ∧
      s'.Represents e.mode (a.exception e) := by
  have hret : a.returnAddress e = s.returnAddress e := by
    unfold Architecture.returnAddress ArmCpu.returnAddress
    rw [h.pc, h.cpsr, flagT_sync]
  have hvec : a.vector e = s.vector e := by
    unfold Architecture.vector ArmCpu.vector
    rw [h.control]
  obtain ⟨d, f, i, v, b, u, hsave, hbank⟩ := s.saveRegisterBank_spec h.mode
  -- the state with the registers saved and the status words set
  generalize ht : ArmCpu.setSpsr (s.withBanks d f i v b u).syncFlags e.mode (s.withBanks d f i v b u).syncFlags.cpsr = t
  have hspsr : ∀ m', m'.hasSpsr = true → t.spsrOf m' = if m' = e.mode then s.syncFlags.cpsr else s.spsrOf m' := by
    intro m' hm'
    rw [← ht, spsrOf_setSpsr _ _ hm']
    rfl
  obtain ⟨x1, x2, x3, x4, x5, hset⟩ := (s.withBanks d f i v b u).syncFlags.setSpsr_eq e.mode
    (s.withBanks d f i v b u).syncFlags.cpsr
  rw [ht] at hset
  have hcpsr : t.cpsr = s.syncFlags.cpsr := by
    rw [hset]
    rfl
  have hflags : t.flags = s.flags := by
    rw [hset]
    rfl
  obtain ⟨r, hload, hview⟩ := loadRegisterBank_view (s := s) (t := { t with cpsr := exceptionCpsr e t.cpsr }) (m := m)
    (by rw [hset]; rfl) (by rw [hset]; exact hbank) (armMode_exceptionCpsr e _)
  have hbase : ArmCpu.Represents { t with cpsr := exceptionCpsr e t.cpsr, r } e.mode
      { a with spsr := Function.update a.spsr e.mode a.cpsr, cpsr := exceptionCpsr e a.cpsr } := by
    refine ⟨armMode_exceptionCpsr e _, fun m' j => (h.reg m' j).trans (hview m' j).symm, ?_, ?_, fun m' hm' => ?_, ?_⟩
    · rw [hset]
      exact h.pc
    · rw [syncFlags_of_flagsOf]
      · rw [hcpsr, h.cpsr]
      · rw [flagsOf_exceptionCpsr, hcpsr, flagsOf_sync, hflags]
    · show Function.update a.spsr e.mode a.cpsr m' = t.spsrOf m'
      rw [hspsr m' hm']
      split
      · rename_i heq
        rw [heq, Function.update_self, h.cpsr]
      · rename_i hne
        rw [Function.update_of_ne hne, h.spsr m' hm']
    · rw [hset]
      exact h.control
  have hvector : ArmCpu.vector { t with cpsr := exceptionCpsr e t.cpsr, r } e = s.vector e := by
    rw [hset]
    rfl
  have hfinal := ((hbase.setReg armLr (s.returnAddress e)).setReg armPc (s.vector e)).setPc (s.vector e)
  rw [← hret, ← hvec] at hfinal
  refine ⟨_, ?_, ?_, hfinal⟩
  · unfold ArmCpu.armException
    rw [if_neg he, hsave]
    show (do
      let s1 ← ArmCpu.loadRegisterBank
        { ArmCpu.setSpsr (s.withBanks d f i v b u).syncFlags e.mode (s.withBanks d f i v b u).syncFlags.cpsr with
          cpsr := exceptionCpsr e (ArmCpu.setSpsr (s.withBanks d f i v b u).syncFlags e.mode
            (s.withBanks d f i v b u).syncFlags.cpsr).cpsr }
      _) = _
    rw [ht, hload, hret, hvec, ← hvector]
    rfl
  · rw [hset]
    rfl

def systemRegs (s : ArmCpu) : Word × Word × Word × Word × Word := (s.control, s.ttb, s.dacr, s.fsr, s.far)

theorem saveRegisterBank_system {s' : ArmCpu} (h : s.saveRegisterBank = .ok s') : s'.systemRegs = s.systemRegs := by
  unfold saveRegisterBank at h
  split at h <;> cases h <;> rfl

theorem loadRegisterBank_system {s' : ArmCpu} (h : s.loadRegisterBank = .ok s') : s'.systemRegs = s.systemRegs := by
  unfold loadRegisterBank at h
  split at h <;> cases h <;> rfl

theorem armException_system {s' : ArmCpu} {e : ArmException} (h : s.armException e = .ok s') :
    s'.systemRegs = s.systemRegs := by
  unfold ArmCpu.armException at h
  split at h
  · cases h
  · obtain ⟨t, hsave, h⟩ := Lib.bind_eq_ok h
    obtain ⟨t', hload, h⟩ := Lib.bind_eq_ok h
    cases h
    obtain ⟨x1, x2, x3, x4, x5, hset⟩ := t.syncFlags.setSpsr_eq e.mode t.syncFlags.cpsr
    calc t'.systemRegs = _ := loadRegisterBank_system hload
      _ = (t.syncFlags.setSpsr e.mode t.syncFlags.cpsr).systemRegs := rfl
      _ = t.systemRegs := by
        rw [hset]
        rfl
      _ = s.systemRegs := saveRegisterBank_system hsave

end ArmCpu

end Gxemul.Arm
