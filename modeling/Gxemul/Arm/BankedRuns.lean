import Gxemul.Arm.Banked
import Gxemul.Lib.Run

/- Every run of register accesses, exceptions, msr, returns and block transfers does
   to the banks what the architecture does to its register file, and a return from
   an exception puts the interrupted mode back as it was. Only r14 is lost, when the
   exception is taken in the mode of its own handler. -/
namespace Gxemul.Arm

namespace ArmCpu
variable {s : ArmCpu} {m : ArmMode} {a : Architecture}

/-! ## Writing the CPSR -/

theorem Represents.sync (h : s.Represents m a) : s.syncFlags.Represents m a := by
  refine ⟨(armMode_sync s).trans h.mode, h.reg, h.pc, ?_, h.spsr, h.control⟩
  rw [syncFlags_of_flagsOf _ (flagsOf_sync s)]
  exact h.cpsr

theorem Represents.writeCpsr (h : s.Represents m a) {cpsr : Word} (hm : armMode cpsr = some m) :
    (s.writeCpsr cpsr).Represents m { a with cpsr } :=
  ⟨hm, h.reg, h.pc, (syncFlags_writeCpsr s cpsr).symm, h.spsr, h.control⟩

/-- The registers are saved, the CPSR is written, and the registers of the new mode
are loaded. -/
def changeBank (s : ArmCpu) (cpsr : Word) : Except Exit ArmCpu := do
  let s ← s.saveRegisterBank
  (s.writeCpsr cpsr).loadRegisterBank

theorem Represents.changeBank (h : s.Represents m a) {cpsr : Word} {m2 : ArmMode} (hm : armMode cpsr = some m2) :
    ∃ s', s.changeBank cpsr = .ok s' ∧ s'.running = s.running ∧ s'.Represents m2 { a with cpsr } := by
  obtain ⟨d, f, i, v, b, u, hsave, hbank⟩ := s.saveRegisterBank_spec h.mode
  obtain ⟨r, hload, hview⟩ := loadRegisterBank_view (s := s) (t := (s.withBanks d f i v b u).writeCpsr cpsr) (m := m)
    rfl hbank hm
  refine ⟨{ (s.withBanks d f i v b u).writeCpsr cpsr with r }, ?_, rfl,
    ⟨hm, fun m' j => (h.reg m' j).trans (hview m' j).symm, h.pc, ?_, h.spsr, h.control⟩⟩
  · unfold ArmCpu.changeBank
    rw [hsave]
    exact hload
  · exact (syncFlags_writeCpsr (s.withBanks d f i v b u) cpsr).symm

theorem Represents.switch (h : s.Represents m a) {cpsr : Word} {m2 : ArmMode} (hm : armMode cpsr = some m2) :
    ∃ s', (if s.cpsr &&& armFlagMode ≠ cpsr &&& armFlagMode then s.changeBank cpsr else .ok (s.writeCpsr cpsr)) = .ok s' ∧
      s'.running = s.running ∧ s'.Represents m2 { a with cpsr } := by
  split
  · exact h.changeBank hm
  · rename_i hsame
    have hm2 : m2 = m := by
      rw [← armMode_congr (Decidable.not_not.mp hsame), h.mode] at hm
      exact (Option.some.inj hm).symm
    subst hm2
    exact ⟨_, rfl, rfl, h.writeCpsr hm⟩

/-! ## msr -/

/-- `arg[1]` of msr: whole bytes. -/
def fieldMask (fields : BitVec 4) : Word :=
  (if fields.getLsbD 0 then 0xff#32 else 0#32) ||| (if fields.getLsbD 1 then 0xff00#32 else 0#32) |||
    (if fields.getLsbD 2 then 0xff0000#32 else 0#32) ||| (if fields.getLsbD 3 then 0xff000000#32 else 0#32)

theorem fieldMask_mode (fields : BitVec 4) :
    (fieldMask fields &&& armFlagMode = 0#32 ∨ fieldMask fields &&& armFlagMode = armFlagMode) ∧
    (fieldMask fields &&& 0xff000000#32) &&& armFlagMode = 0#32 := by
  revert fields
  decide

theorem masked_mode (x value mask : Word) :
    (mask &&& armFlagMode = 0#32 → ((x &&& ~~~ mask) ||| (value &&& mask)) &&& armFlagMode = x &&& armFlagMode) ∧
    (mask &&& armFlagMode = armFlagMode →
      ((x &&& ~~~ mask) ||| (value &&& mask)) &&& armFlagMode = value &&& armFlagMode) := by
  have hsplit : (~~~ mask &&& armFlagMode) ||| (mask &&& armFlagMode) = armFlagMode := by
    rw [← BitVec.and_or_distrib_right, BitVec.not_or_self, BitVec.allOnes_and]
  rw [BitVec.and_or_distrib_right, BitVec.and_assoc, BitVec.and_assoc]
  constructor
  · intro h
    rw [h, BitVec.or_zero] at hsplit
    rw [hsplit, h, BitVec.and_zero, BitVec.or_zero]
  · intro h
    have hz : ~~~ mask &&& armFlagMode = 0#32 := by
      calc ~~~ mask &&& armFlagMode = ~~~ mask &&& (mask &&& armFlagMode) := by rw [h]
        _ = (~~~ mask &&& mask) &&& armFlagMode := (BitVec.and_assoc _ _ _).symm
        _ = 0#32 := by simp
    rw [hz, h, BitVec.and_zero, BitVec.zero_or]

/-- The mask that is in effect. In user mode only the flags are written. -/
def effectiveMask (s : ArmCpu) (fields : BitVec 4) : Word :=
  if s.cpsr &&& armFlagMode = ArmMode.usr.bits then fieldMask fields &&& 0xff000000#32 else fieldMask fields

theorem effectiveMask_mode (s : ArmCpu) (fields : BitVec 4) :
    s.effectiveMask fields &&& armFlagMode = 0#32 ∨ s.effectiveMask fields &&& armFlagMode = armFlagMode := by
  unfold effectiveMask
  split
  · exact .inl (fieldMask_mode fields).2
  · exact (fieldMask_mode fields).1

theorem msrImm_eq (hm : armMode s.cpsr = some m) (fields : BitVec 4) (value : Word) : s.msrImm (fieldMask fields) value =
    let cpsr := (s.syncFlags.cpsr &&& ~~~ s.effectiveMask fields) ||| (value &&& s.effectiveMask fields)
    if s.syncFlags.cpsr &&& armFlagMode ≠ cpsr &&& armFlagMode then s.syncFlags.changeBank cpsr
    else .ok (s.syncFlags.writeCpsr cpsr) := by
  generalize hmask : s.effectiveMask fields = mask
  have hmode := effectiveMask_mode s fields
  rw [hmask] at hmode
  obtain ⟨h0, h1⟩ := masked_mode s.syncFlags.cpsr value mask
  have hiff : (mask &&& armFlagMode ≠ 0 ∧ s.cpsr &&& armFlagMode ≠ value &&& armFlagMode) ↔
      s.syncFlags.cpsr &&& armFlagMode ≠ ((s.syncFlags.cpsr &&& ~~~ mask) ||| (value &&& mask)) &&& armFlagMode := by
    cases hmode with
    | inl hz => simp [hz, h0 hz]
    | inr hall =>
      rw [h1 hall, modeBits_sync, hall]
      exact and_iff_right (by decide)
  unfold msrImm
  rw [show (if s.cpsr &&& armFlagMode = ArmMode.usr.bits then fieldMask fields &&& 0xff000000#32
    else fieldMask fields) = mask from hmask]
  by_cases hsw : mask &&& armFlagMode ≠ 0 ∧ s.cpsr &&& armFlagMode ≠ value &&& armFlagMode
  · obtain ⟨d, f, i, v, b, u, hsave, -⟩ := s.syncFlags.saveRegisterBank_spec ((armMode_sync s).trans hm)
    rw [if_pos (hiff.mp hsw)]
    simp only [if_pos hsw, ArmCpu.changeBank, hsave]
    rfl
  · rw [if_neg (fun h => hsw (hiff.mpr h))]
    simp only [if_neg hsw]
    rfl

theorem Represents.effectiveMask_eq (h : s.Represents m a) (fields : BitVec 4) :
    (if a.cpsr &&& armFlagMode = ArmMode.usr.bits then fieldMask fields &&& 0xff000000#32 else fieldMask fields) =
      s.effectiveMask fields := by
  rw [h.cpsr, modeBits_sync]
  rfl

theorem Represents.msrImm (h : s.Represents m a) (fields : BitVec 4) (value : Word) {m2 : ArmMode}
    (hm : armMode (a.msrCpsr (fieldMask fields) value).cpsr = some m2) :
    ∃ s', s.msrImm (fieldMask fields) value = .ok s' ∧ s'.running = s.running ∧
      s'.Represents m2 (a.msrCpsr (fieldMask fields) value) := by
  have harch : a.msrCpsr (fieldMask fields) value = { a with
      cpsr := (s.syncFlags.cpsr &&& ~~~ s.effectiveMask fields) ||| (value &&& s.effectiveMask fields) } := by
    unfold Architecture.msrCpsr
    rw [h.effectiveMask_eq, h.cpsr]
  rw [harch] at hm ⊢
  rw [msrImm_eq h.mode]
  exact h.sync.switch hm

theorem spsr_eq (hm : armMode s.cpsr = some m) : s.spsr = if m.hasSpsr then some (s.spsrOf m) else none := by
  unfold spsr
  rw [hm]
  cases m <;> rfl

theorem Represents.msrImmSpsr (h : s.Represents m a) (mask value : Word) :
    (s.msrImmSpsr mask value).Represents m (a.msrSpsr m mask value) := by
  have hspsr : ∀ x m', m'.hasSpsr = true → m.hasSpsr = true →
      x = (s.spsrOf m &&& ~~~ mask) ||| (value &&& mask) →
      Function.update a.spsr m ((a.spsr m &&& ~~~ mask) ||| (value &&& mask)) m' =
        if m' = m then x else s.spsrOf m' := by
    intro x m' hm' hm hx
    split
    · rename_i heq
      rw [heq, Function.update_self, h.spsr m hm, hx]
    · rename_i hne
      rw [Function.update_of_ne hne, h.spsr m' hm']
  have hmode := h.mode
  unfold ArmCpu.msrImmSpsr Architecture.msrSpsr
  rw [hmode]
  cases m with
  | usr => exact ⟨h.mode, h.reg, h.pc, h.cpsr, h.spsr, h.control⟩
  | sys => exact ⟨h.mode, h.reg, h.pc, h.cpsr, h.spsr, h.control⟩
  | fiq =>
    refine ⟨h.mode, h.reg, h.pc, h.cpsr, fun m' hm' => (hspsr _ m' hm' rfl rfl).trans ?_, h.control⟩
    cases m' <;> rfl
  | irq =>
    refine ⟨h.mode, h.reg, h.pc, h.cpsr, fun m' hm' => (hspsr _ m' hm' rfl rfl).trans ?_, h.control⟩
    cases m' <;> rfl
  | svc =>
    refine ⟨h.mode, h.reg, h.pc, h.cpsr, fun m' hm' => (hspsr _ m' hm' rfl rfl).trans ?_, h.control⟩
    cases m' <;> rfl
  | abt =>
    refine ⟨h.mode, h.reg, h.pc, h.cpsr, fun m' hm' => (hspsr _ m' hm' rfl rfl).trans ?_, h.control⟩
    cases m' <;> rfl
  | und =>
    refine ⟨h.mode, h.reg, h.pc, h.cpsr, fun m' hm' => (hspsr _ m' hm' rfl rfl).trans ?_, h.control⟩
    cases m' <;> rfl

/-! ## Returns -/

theorem armMode_orT (cpsr : Word) : armMode (cpsr ||| armFlagT) = armMode cpsr := by
  apply armMode_congr
  rw [BitVec.and_or_distrib_right, show armFlagT &&& armFlagMode = 0#32 by decide, BitVec.or_zero]

theorem syncFlags_orT (s : ArmCpu) :
    (ArmCpu.syncFlags { s with cpsr := s.cpsr ||| armFlagT }).cpsr = s.syncFlags.cpsr ||| armFlagT := by
  show ((s.cpsr ||| armFlagT) &&& 0x0fffffff#32) ||| _ = ((s.cpsr &&& 0x0fffffff#32) ||| _) ||| armFlagT
  rw [BitVec.and_or_distrib_right, show armFlagT &&& 0x0fffffff#32 = armFlagT by decide, BitVec.or_assoc,
    BitVec.or_comm armFlagT, BitVec.or_assoc]

theorem Represents.dpiReturn (h : s.Represents m a) (hspsr : m.hasSpsr = true) (result : Word) {m2 : ArmMode}
    (hm : armMode (a.spsr m) = some m2) :
    ∃ s', s.dpiReturn result = .ok s' ∧ s'.running = s.running ∧ s'.Represents m2 (a.dpiReturn m result) := by
  obtain ⟨s', hs, hrun, hr⟩ := (h.setPc result).changeBank hm
  have hget : (ArmCpu.spsr { s with pc := result }).getD s.cpsr = a.spsr m := by
    rw [spsr_eq (s := { s with pc := result }) h.mode, hspsr, h.spsr m hspsr]
    rfl
  have hok : s.dpiReturn result = .ok (if s'.pc &&& 1#32 ≠ 0 then { s' with cpsr := s'.cpsr ||| armFlagT } else s') := by
    obtain ⟨d, f, i, v, b, u, hsave, -⟩ := saveRegisterBank_spec { s with pc := result } h.mode
    have hload : (ArmCpu.writeCpsr (ArmCpu.withBanks { s with pc := result } d f i v b u)
        (a.spsr m)).loadRegisterBank = .ok s' := by
      rw [← hs]
      unfold ArmCpu.changeBank
      rw [hsave]
      rfl
    rw [← hget] at hload
    unfold ArmCpu.dpiReturn
    rw [hsave]
    show (do
      let s1 ← (ArmCpu.writeCpsr (ArmCpu.withBanks { s with pc := result } d f i v b u)
        ((ArmCpu.spsr { s with pc := result }).getD s.cpsr)).loadRegisterBank
      return if s1.pc &&& 1#32 ≠ 0 then { s1 with cpsr := s1.cpsr ||| armFlagT } else s1) = _
    rw [hload]
    rfl
  refine ⟨_, hok, ?_, ?_⟩
  · split <;> exact hrun
  · have hpc : s'.pc = result := hr.pc.symm
    rw [hpc]
    unfold Architecture.dpiReturn
    split
    · refine ⟨(armMode_orT s'.cpsr).trans hr.mode, hr.reg, rfl, ?_, hr.spsr, hr.control⟩
      show a.spsr m ||| armFlagT = (ArmCpu.syncFlags { s' with cpsr := s'.cpsr ||| armFlagT }).cpsr
      rw [syncFlags_orT, ← hr.cpsr]
    · exact hr

theorem Represents.popReturn (h : s.Represents m a) {cpsr : Word} {m2 : ArmMode} (hm : armMode cpsr = some m2) :
    ∃ s', s.popReturn cpsr = .ok s' ∧ s'.running = s.running ∧ s'.Represents m2 { a with cpsr } := by
  obtain ⟨s', hs, hrun, hr⟩ := h.switch hm
  refine ⟨s', ?_, hrun, hr⟩
  rw [← hs]
  unfold ArmCpu.popReturn
  by_cases hsw : s.cpsr &&& armFlagMode ≠ cpsr &&& armFlagMode
  · simp only [if_pos hsw]
    rfl
  · simp only [if_neg hsw]
    rfl

/-! ## ldm and stm -/

theorem Represents.popRegs (h : s.Represents m a) (sBit uBit : Bool) (iw : Word) (newValues : Nat → Word) :
    (s.popRegs sBit uBit iw newValues).Represents m (a.popRegs (if sBit then .usr else m) uBit iw newValues) := by
  unfold ArmCpu.popRegs Architecture.popRegs
  generalize regOrder uBit = order
  induction order generalizing s a with
  | nil => exact h
  | cons i order ih =>
    rw [List.foldl_cons, List.foldl_cons]
    by_cases hi : inList iw i
    · rw [if_pos hi, if_pos hi]
      exact ih (h.popReg sBit i (newValues i))
    · rw [if_neg hi, if_neg hi]
      exact ih h

theorem spsr_popRegs (a : Architecture) (m : ArmMode) (uBit : Bool) (iw : Word) (newValues : Nat → Word) :
    (a.popRegs m uBit iw newValues).spsr = a.spsr := by
  unfold Architecture.popRegs
  generalize regOrder uBit = order
  induction order generalizing a with
  | nil => rfl
  | cons i order ih =>
    rw [List.foldl_cons, ih]
    split <;> rfl

theorem running_popRegs (s : ArmCpu) (sBit uBit : Bool) (iw : Word) (newValues : Nat → Word) :
    (s.popRegs sBit uBit iw newValues).running = s.running := by
  unfold ArmCpu.popRegs
  generalize regOrder uBit = order
  induction order generalizing s with
  | nil => rfl
  | cons i order ih =>
    rw [List.foldl_cons, ih]
    split
    · unfold ArmCpu.popReg
      repeat' split
      all_goals rfl
    · rfl

theorem Represents.base (h : s.Represents m a) (wBit : Bool) (rn : Nat) (addr : Word) :
    (if wBit then s.setReg rn addr else s).Represents m (if wBit then a.setReg m rn addr else a) := by
  cases wBit with
  | false => exact h
  | true => exact h.setReg rn addr

theorem Represents.popPc (h : s.Represents m a) (m' : ArmMode) :
    s.popPc.Represents m { a with pc := a.reg m' armPc &&& 0xfffffffc#32 } := by
  have hpc : a.reg m' armPc = s.r armPc := (h.reg m' armPc).trans (view_of_low s (by decide) m m')
  rw [hpc]
  exact h.setPc _

theorem popMode_eq (hm : armMode s.cpsr = some m) (sBit : Bool) (iw : Word) :
    s.popMode sBit iw = (sBit && !inList iw 15 && m != .usr, sBit && inList iw 15) := by
  have husr : (s.cpsr &&& armFlagMode != ArmMode.usr.bits) = (m != .usr) := by
    rw [bits_of_armMode hm]
    cases m <;> decide
  unfold ArmCpu.popMode
  rw [husr]
  cases sBit <;> cases inList iw 15 <;> simp

theorem Represents.popFinish (h : s.Represents m a) (rn : Nat) (uBit sBit wBit : Bool) (iw : Word)
    (newValues : Nat → Word) (addr : Word)
    (hret : sBit = true → inList iw 15 = true → m.hasSpsr = true ∧ (armMode (a.spsr m)).isSome) :
    ∃ s' m2, s.popFinish rn uBit sBit wBit iw newValues addr = .ok s' ∧ s'.running = s.running ∧
      s'.Represents m2 (a.ldm m rn uBit sBit wBit iw newValues addr) := by
  have hregs := (h.popRegs (s.popMode sBit iw).1 uBit iw newValues).base wBit rn addr
  have hto : (if (s.popMode sBit iw).1 then ArmMode.usr else m) = if sBit && !inList iw 15 then .usr else m := by
    rw [popMode_eq h.mode]
    cases sBit <;> cases inList iw 15 <;> cases m <;> rfl
  rw [hto] at hregs
  have hrun : (if wBit then (s.popRegs (s.popMode sBit iw).1 uBit iw newValues).setReg rn addr
      else s.popRegs (s.popMode sBit iw).1 uBit iw newValues).running = s.running := by
    cases wBit <;> exact running_popRegs s _ uBit iw newValues
  unfold ArmCpu.popFinish Architecture.ldm
  dsimp only
  generalize (if wBit then (s.popRegs (s.popMode sBit iw).1 uBit iw newValues).setReg rn addr
    else s.popRegs (s.popMode sBit iw).1 uBit iw newValues) = t at hregs hrun ⊢
  generalize hb : (if wBit then
    (a.popRegs (if sBit && !inList iw 15 then ArmMode.usr else m) uBit iw newValues).setReg m rn addr
    else a.popRegs (if sBit && !inList iw 15 then ArmMode.usr else m) uBit iw newValues) = b at hregs ⊢
  rw [popMode_eq h.mode]
  by_cases hpc : inList iw 15 = true
  · rw [hpc]
    cases sBit with
    | false => exact ⟨_, m, rfl, hrun, hregs.popPc m⟩
    | true =>
      obtain ⟨hspsr, hsome⟩ := hret rfl hpc
      obtain ⟨m2, hm2⟩ := Option.isSome_iff_exists.mp hsome
      have hbspsr : b.spsr m = a.spsr m := by
        rw [← hb]
        split <;> exact congrFun (spsr_popRegs a _ uBit iw newValues) m
      obtain ⟨s', hs, hrun', hr⟩ := hregs.popReturn ((congrArg armMode hbspsr).trans hm2)
      refine ⟨s'.popPc, m2, ?_, hrun'.trans hrun, ?_⟩
      · have hget : t.spsr = some (b.spsr m) := by
          rw [spsr_eq hregs.mode, hspsr, hregs.spsr m hspsr]
          rfl
        simp only [Bool.and_self, if_true, hget, hs]
        rfl
      · simp only [if_true, hspsr]
        exact hr.popPc m
  · have hlist : inList iw 15 = false := Bool.eq_false_iff.mpr hpc
    rw [hlist, Bool.and_false]
    exact ⟨t, m, rfl, hrun, hregs⟩

theorem Represents.pushValue (h : s.Represents m a) (sBit : Bool) {i : Nat} (hi : i ≠ armPc) :
    s.pushValue sBit i = a.reg (if sBit then .usr else m) i := by
  rw [h.reg]
  unfold ArmCpu.pushValue view
  rw [if_neg hi]
  cases sBit with
  | false => simp
  | true =>
    rw [h.mode]
    cases m <;> simp only [Bool.not_true, Bool.false_eq_true, if_false, if_true, ArmMode.owner, banked] <;> split <;>
      simp_all


/-! ## Runs -/

inductive BankOp where
  | readReg (i : Nat)
  | writeReg (i : Nat) (value : Word)
  | writeFlags (flags : BitVec 4)
  | jump (pc : Word)
  | exception (e : ArmException)
  | msrImm (fields : BitVec 4) (value : Word)
  | msr (fields : BitVec 4) (rm : Nat)
  | msrImmSpsr (fields : BitVec 4) (value : Word)
  | msrSpsr (fields : BitVec 4) (rm : Nat)
  | dpiReturn (result : Word)
  | ldm (rn : Nat) (uBit sBit wBit : Bool) (iw : Word) (newValues : Nat → Word) (addr : Word)
  | stm (rn : Nat) (uBit sBit wBit : Bool) (iw : Word) (addr : Word)

/-- The words that arm_push() stores. -/
def pushValues (s : ArmCpu) (uBit sBit : Bool) (iw : Word) : List Word :=
  ((regOrder uBit).filter (inList iw ·)).map (s.pushValue sBit)

/-- One operation, with a log of all register values that were read or stored. -/
def bankStep : ArmCpu × List Word → BankOp → Except Exit (ArmCpu × List Word)
  | (s, log), .readReg i => .ok (s, log ++ [s.r i])
  | (s, log), .writeReg i value => .ok (s.setReg i value, log)
  | (s, log), .writeFlags flags => .ok ({ s with flags }, log)
  | (s, log), .jump pc => .ok ({ s with pc }, log)
  | (s, log), .exception e => (s.armException e).map (·, log)
  | (s, log), .msrImm fields value => (s.msrImm (fieldMask fields) value).map (·, log)
  | (s, log), .msr fields rm => (s.msr (fieldMask fields) rm).map (·, log)
  | (s, log), .msrImmSpsr fields value => .ok (s.msrImmSpsr (fieldMask fields) value, log)
  | (s, log), .msrSpsr fields rm => .ok (s.msrSpsr (fieldMask fields) rm, log)
  | (s, log), .dpiReturn result => (s.dpiReturn result).map (·, log)
  | (s, log), .ldm rn uBit sBit wBit iw newValues addr =>
    (s.popFinish rn uBit sBit wBit iw newValues addr).map (·, log)
  | (s, log), .stm rn uBit sBit wBit iw addr =>
    .ok (if wBit then s.setReg rn addr else s, log ++ s.pushValues uBit sBit iw)

end ArmCpu

namespace Architecture

/-- The value of register `i` of mode `m` that stm stores. -/
def pushValue (a : Architecture) (m : ArmMode) (i : Nat) : Word := if i = armPc then a.pc + 12#32 else a.reg m i

def pushValues (a : Architecture) (m : ArmMode) (uBit : Bool) (iw : Word) : List Word :=
  ((ArmCpu.regOrder uBit).filter (ArmCpu.inList iw ·)).map (a.pushValue m)

/-- Whether the architecture says what an operation does in mode `m`: not for a
change to a mode that does not exist, or for a return without an SPSR. Reset is left
out, and r15 is not an ordinary register. -/
def legal (a : Architecture) (m : ArmMode) : ArmCpu.BankOp → Bool
  | .readReg i | .writeReg i _ => decide (i < armPc)
  | .writeFlags _ | .jump _ | .msrImmSpsr _ _ | .stm _ _ _ _ _ _ => true
  | .exception e => decide (e ≠ .reset)
  | .msrImm fields value => (armMode (a.msrCpsr (ArmCpu.fieldMask fields) value).cpsr).isSome
  | .msr fields rm => (armMode (a.msrCpsr (ArmCpu.fieldMask fields) (a.reg m rm)).cpsr).isSome
  | .msrSpsr _ rm => decide (rm < armPc)
  | .dpiReturn _ => m.hasSpsr && (armMode (a.spsr m)).isSome
  | .ldm _ _ sBit _ iw _ _ => !(sBit && ArmCpu.inList iw 15) || (m.hasSpsr && (armMode (a.spsr m)).isSome)

/-- What a legal operation does, in mode `m`. -/
def perform (a : Architecture) (m : ArmMode) : ArmCpu.BankOp → Architecture × List Word
  | .readReg i => (a, [a.reg m i])
  | .writeReg i value => (a.setReg m i value, [])
  | .writeFlags flags => ({ a with cpsr := (a.cpsr &&& 0x0fffffff#32) ||| (flags.setWidth 32 <<< 28) }, [])
  | .jump pc => ({ a with pc }, [])
  | .exception e => (a.exception e, [])
  | .msrImm fields value => (a.msrCpsr (ArmCpu.fieldMask fields) value, [])
  | .msr fields rm => (a.msrCpsr (ArmCpu.fieldMask fields) (a.reg m rm), [])
  | .msrImmSpsr fields value => (a.msrSpsr m (ArmCpu.fieldMask fields) value, [])
  | .msrSpsr fields rm => (a.msrSpsr m (ArmCpu.fieldMask fields) (a.reg m rm), [])
  | .dpiReturn result => (a.dpiReturn m result, [])
  | .ldm rn uBit sBit wBit iw newValues addr => (a.ldm m rn uBit sBit wBit iw newValues addr, [])
  | .stm rn uBit sBit wBit iw addr =>
    (if wBit then a.setReg m rn addr else a, a.pushValues (if sBit then .usr else m) uBit iw)

/-- One operation of the architecture. It has no result where the operation is not legal. -/
def step : Architecture × List Word → ArmCpu.BankOp → Except Unit (Architecture × List Word)
  | (a, log), op =>
    match armMode a.cpsr with
    | none => .error ()
    | some m =>
      if a.legal m op then .ok ((a.perform m op).1, log ++ (a.perform m op).2) else .error ()

end Architecture

namespace ArmCpu
variable {s : ArmCpu} {m : ArmMode} {a : Architecture}

theorem Represents.reg_current (h : s.Represents m a) (i : Nat) : a.reg m i = s.r i := by
  rw [h.reg]
  unfold view
  rw [if_pos rfl]

theorem Represents.pushValues (h : s.Represents m a) (uBit sBit : Bool) (iw : Word) :
    s.pushValues uBit sBit iw = a.pushValues (if sBit then .usr else m) uBit iw := by
  unfold ArmCpu.pushValues Architecture.pushValues
  congr 1
  funext i
  unfold Architecture.pushValue
  by_cases hi : i = armPc
  · rw [if_pos hi, h.pc]
    exact if_pos hi
  · rw [if_neg hi]
    exact h.pushValue sBit hi

theorem Represents.writeFlags (h : s.Represents m a) (flags : BitVec 4) :
    ArmCpu.Represents { s with flags } m
      { a with cpsr := (a.cpsr &&& 0x0fffffff#32) ||| (flags.setWidth 32 <<< 28) } := by
  refine ⟨h.mode, h.reg, h.pc, ?_, h.spsr, h.control⟩
  show (a.cpsr &&& 0x0fffffff#32) ||| _ = (s.cpsr &&& 0x0fffffff#32) ||| _
  have hz : s.flags.setWidth 32 <<< 28 &&& 0x0fffffff#32 = 0#32 := by
    generalize s.flags = f
    revert f
    decide
  rw [h.cpsr]
  show (((s.cpsr &&& 0x0fffffff#32) ||| (s.flags.setWidth 32 <<< 28)) &&& 0x0fffffff#32) ||| _ = _
  rw [BitVec.and_or_distrib_right, hz, BitVec.or_zero, BitVec.and_assoc, BitVec.and_self]

def Refines (x : ArmCpu × List Word) (y : Architecture × List Word) : Prop :=
  x.2 = y.2 ∧ ∃ m, x.1.Represents m y.1

theorem map_ok {s' : ArmCpu} {x : Except Exit ArmCpu} (h : x = .ok s') (log : List Word) :
    x.map (·, log) = .ok (s', log) := by
  rw [h]
  rfl

theorem Refines.step {x : ArmCpu × List Word} {y y' : Architecture × List Word} {op : BankOp} (h : Refines x y)
    (hs : Architecture.step y op = .ok y') : ∃ x', bankStep x op = .ok x' ∧ Refines x' y' := by
  obtain ⟨s, log⟩ := x
  obtain ⟨a, log'⟩ := y
  obtain ⟨hlog, m, h⟩ := h
  subst hlog
  have hmode : armMode a.cpsr = some m := by
    rw [h.cpsr, armMode_sync]
    exact h.mode
  unfold Architecture.step at hs
  simp only [hmode] at hs
  split at hs
  · rename_i hlegal
    cases hs
    cases op with
    | readReg i =>
      refine ⟨_, rfl, ?_, m, h⟩
      show log ++ [s.r i] = log ++ [a.reg m i]
      rw [h.reg_current]
    | writeReg i value => exact ⟨_, rfl, (List.append_nil log).symm, m, h.setReg i value⟩
    | writeFlags flags => exact ⟨_, rfl, (List.append_nil log).symm, m, h.writeFlags flags⟩
    | jump pc => exact ⟨_, rfl, (List.append_nil log).symm, m, h.setPc pc⟩
    | exception e =>
      obtain ⟨s', hs', -, hr⟩ := h.armException (of_decide_eq_true hlegal)
      exact ⟨_, map_ok hs' log, (List.append_nil log).symm, e.mode, hr⟩
    | msrImm fields value =>
      obtain ⟨m2, hm2⟩ := Option.isSome_iff_exists.mp hlegal
      obtain ⟨s', hs', -, hr⟩ := h.msrImm fields value hm2
      exact ⟨_, map_ok hs' log, (List.append_nil log).symm, m2, hr⟩
    | msr fields rm =>
      obtain ⟨m2, hm2⟩ := Option.isSome_iff_exists.mp hlegal
      obtain ⟨s', hs', -, hr⟩ := h.msrImm fields (a.reg m rm) hm2
      refine ⟨_, map_ok (x := s.msr _ rm) ?_ log, (List.append_nil log).symm, m2, hr⟩
      unfold ArmCpu.msr
      rw [← h.reg_current]
      exact hs'
    | msrImmSpsr fields value => exact ⟨_, rfl, (List.append_nil log).symm, m, h.msrImmSpsr _ value⟩
    | msrSpsr fields rm =>
      refine ⟨_, rfl, (List.append_nil log).symm, m, ?_⟩
      unfold ArmCpu.msrSpsr
      rw [← h.reg_current]
      exact h.msrImmSpsr _ _
    | dpiReturn result =>
      obtain ⟨hspsr, hsome⟩ := Bool.and_eq_true_iff.mp hlegal
      obtain ⟨m2, hm2⟩ := Option.isSome_iff_exists.mp hsome
      obtain ⟨s', hs', -, hr⟩ := h.dpiReturn hspsr result hm2
      exact ⟨_, map_ok hs' log, (List.append_nil log).symm, m2, hr⟩
    | ldm rn uBit sBit wBit iw newValues addr =>
      obtain ⟨s', m2, hs', -, hr⟩ := h.popFinish rn uBit sBit wBit iw newValues addr (by
        intro hS hpc
        simpa [Architecture.legal, hS, hpc] using hlegal)
      exact ⟨_, map_ok hs' log, (List.append_nil log).symm, m2, hr⟩
    | stm rn uBit sBit wBit iw addr =>
      refine ⟨_, rfl, ?_, m, h.base wBit rn addr⟩
      rw [h.pushValues]
      rfl
  · cases hs

/-- The state of the architecture that an emulated state in mode `m` represents. -/
def architecture (s : ArmCpu) (m : ArmMode) : Architecture :=
  { file := fun o i => if o = m.owner i then s.r i else s.banked o i
    pc := s.pc
    cpsr := s.syncFlags.cpsr
    spsr := s.spsrOf
    control := s.control }

theorem represents_architecture (hm : armMode s.cpsr = some m) : s.Represents m (s.architecture m) :=
  ⟨hm, fun _ _ => rfl, rfl, rfl, fun _ _ => rfl, rfl⟩

/-! ## Exceptions that return -/

theorem armMode_of_exception {s' : ArmCpu} {e : ArmException} (h : s.armException e = .ok s') :
    e ≠ .reset ∧ ∃ m, armMode s.cpsr = some m := by
  unfold ArmCpu.armException at h
  split at h
  · cases h
  · rename_i he
    obtain ⟨t, hsave, -⟩ := Lib.bind_eq_ok h
    refine ⟨he, ?_⟩
    cases hm : armMode s.cpsr with
    | some m => exact ⟨m, rfl⟩
    | none =>
      rw [saveRegisterBank, hm] at hsave
      cases hsave

theorem armException_enters {s' : ArmCpu} {e : ArmException} (h : s.armException e = .ok s') :
    armMode s'.cpsr = some e.mode ∧ s'.pc = s.vector e := by
  obtain ⟨he, m, hm⟩ := armMode_of_exception h
  obtain ⟨s'', hs'', -, hr⟩ := (represents_architecture hm).armException he
  cases h.symm.trans hs''
  exact ⟨hr.mode, hr.pc.symm⟩

/-- An exception leaves the registers of mode `m`, but for r15 and, in the mode of
its own handler, r14. -/
theorem reg_exception (a : Architecture) (m : ArmMode) (e : ArmException) {i : Nat} (hpc : i ≠ armPc)
    (hlr : i = armLr → m ≠ e.mode) : (a.exception e).reg m i = a.reg m i := by
  unfold Architecture.exception
  rw [Architecture.reg_setReg, if_neg (fun h => hpc h.2), Architecture.reg_setReg, if_neg]
  · rfl
  · intro h
    obtain ⟨ho, hi⟩ := h
    subst hi
    have hne := hlr rfl
    revert ho
    cases e <;> cases m <;> first | exact absurd rfl hne | decide

theorem spsr_exception (a : Architecture) (e : ArmException) : (a.exception e).spsr e.mode = a.cpsr :=
  Function.update_self _ _ _

theorem hasSpsr_exception (e : ArmException) : e.mode.hasSpsr = true := by cases e <;> rfl

theorem reg_popRegs (a : Architecture) {m m' : ArmMode} {i : Nat} (uBit : Bool) (iw : Word)
    (newValues : Nat → Word) (hi : inList iw i = true → m'.owner i ≠ m.owner i) :
    (a.popRegs m uBit iw newValues).reg m' i = a.reg m' i := by
  unfold Architecture.popRegs
  generalize regOrder uBit = order
  induction order generalizing a with
  | nil => rfl
  | cons j order ih =>
    rw [List.foldl_cons, ih]
    split
    · rename_i hj
      rw [Architecture.reg_setReg, if_neg]
      intro h
      obtain ⟨ho, rfl⟩ := h
      exact hi hj ho
    · rfl

theorem armException_dpiReturn (hm : armMode s.cpsr = some m) {e : ArmException} (he : e ≠ .reset) (result : Word) :
    ∃ s1 s2, s.armException e = .ok s1 ∧ s1.dpiReturn result = .ok s2 ∧ armMode s2.cpsr = some m ∧ s2.pc = result ∧
      s2.syncFlags.cpsr = (if result &&& 1#32 ≠ 0 then s.syncFlags.cpsr ||| armFlagT else s.syncFlags.cpsr) ∧
      ∀ i, i ≠ armPc → (i = armLr → m ≠ e.mode) → s2.r i = s.r i := by
  have h := represents_architecture hm
  obtain ⟨s1, hs1, -, hr1⟩ := h.armException he
  have hspsr := spsr_exception (s.architecture m) e
  have hback : armMode ((Architecture.exception (s.architecture m) e).spsr e.mode) = some m := by
    rw [hspsr]
    exact (armMode_sync s).trans hm
  obtain ⟨s2, hs2, -, hr2⟩ := hr1.dpiReturn (hasSpsr_exception e) result hback
  refine ⟨s1, s2, hs1, hs2, hr2.mode, hr2.pc.symm, ?_, fun i hpc hlr => ?_⟩
  · rw [← hr2.cpsr]
    unfold Architecture.dpiReturn
    rw [hspsr]
    rfl
  · calc s2.r i = (Architecture.exception (s.architecture m) e).reg m i := (hr2.reg_current i).symm
      _ = (s.architecture m).reg m i := reg_exception _ m e hpc hlr
      _ = s.r i := h.reg_current i

theorem armException_popFinish (hm : armMode s.cpsr = some m) {e : ArmException} (he : e ≠ .reset) (rn : Nat)
    (uBit wBit : Bool) {iw : Word} (newValues : Nat → Word) (addr : Word) (hpc : inList iw 15 = true) :
    ∃ s1 s2, s.armException e = .ok s1 ∧ s1.popFinish rn uBit true wBit iw newValues addr = .ok s2 ∧
      armMode s2.cpsr = some m ∧ s2.syncFlags.cpsr = s.syncFlags.cpsr ∧
      ∀ i, i ≠ armPc → (i = armLr → m ≠ e.mode) →
        (inList iw i = true ∨ wBit = true ∧ i = rn → m.owner i ≠ e.mode.owner i) → s2.r i = s.r i := by
  have h := represents_architecture hm
  obtain ⟨s1, hs1, -, hr1⟩ := h.armException he
  have hspsr := spsr_exception (s.architecture m) e
  have hback : armMode ((Architecture.exception (s.architecture m) e).spsr e.mode) = some m := by
    rw [hspsr]
    exact (armMode_sync s).trans hm
  obtain ⟨s2, m2, hs2, -, hr2⟩ := hr1.popFinish rn uBit true wBit iw newValues addr
    (fun _ _ => ⟨hasSpsr_exception e, by rw [hback]; rfl⟩)
  generalize hb : Architecture.exception (s.architecture m) e = b at hr2 hspsr
  -- the architecture's state after the loads and the write of the base
  obtain ⟨c, hc, hcspsr, hcreg⟩ : ∃ c : Architecture,
      b.ldm e.mode rn uBit true wBit iw newValues addr =
        { c with pc := c.reg e.mode armPc &&& 0xfffffffc#32, cpsr := c.spsr e.mode } ∧ c.spsr e.mode = b.spsr e.mode ∧
      ∀ i, (inList iw i = true ∨ wBit = true ∧ i = rn → m.owner i ≠ e.mode.owner i) → c.reg m i = b.reg m i := by
    refine ⟨if wBit then (b.popRegs e.mode uBit iw newValues).setReg e.mode rn addr
      else b.popRegs e.mode uBit iw newValues, ?_, ?_, fun i hi => ?_⟩
    · unfold Architecture.ldm
      simp only [hpc, hasSpsr_exception, Bool.not_true, Bool.and_false, Bool.false_eq_true, if_false, if_true]
    · split <;> exact congrFun (spsr_popRegs b _ uBit iw newValues) e.mode
    · have hregs := reg_popRegs b uBit iw newValues (fun hl => hi (.inl hl))
      split
      · rename_i hw
        rw [Architecture.reg_setReg, if_neg, hregs]
        intro h
        obtain ⟨ho, hrn⟩ := h
        subst hrn
        exact hi (.inr ⟨hw, rfl⟩) ho
      · exact hregs
  rw [hc] at hr2
  have hcpsr : s2.syncFlags.cpsr = s.syncFlags.cpsr := by
    rw [← hr2.cpsr]
    exact hcspsr.trans hspsr
  have hm2 : armMode s2.cpsr = some m := by
    rw [← armMode_sync, hcpsr, armMode_sync, hm]
  have hsame : m2 = m := Option.some.inj (hr2.mode.symm.trans hm2)
  subst hsame
  refine ⟨s1, s2, hs1, hs2, hm2, hcpsr, fun i hpc' hlr hi => ?_⟩
  calc s2.r i = c.reg m2 i := (hr2.reg_current i).symm
    _ = b.reg m2 i := hcreg i hi
    _ = (s.architecture m2).reg m2 i := by rw [← hb, reg_exception _ m2 e hpc' hlr]
    _ = s.r i := h.reg_current i

/-- Every run does what it does in the architecture, with the same values read and
stored. An exception that returns puts back the CPSR, where an odd address sets T,
and the registers of the interrupted mode, but for r14 if that is the mode of the
handler. -/
theorem bankOps_refine (hm : armMode s.cpsr = some m) :
    (∀ ops a' log, Lib.runOps Architecture.step ops (s.architecture m, []) = .ok (a', log) →
      ∃ s' m', Lib.runOps bankStep ops (s, []) = .ok (s', log) ∧ s'.Represents m' a') ∧
    ∀ e, e ≠ .reset →
      (∀ result, ∃ s1 s2, s.armException e = .ok s1 ∧ s1.dpiReturn result = .ok s2 ∧
        armMode s2.cpsr = some m ∧ s2.pc = result ∧
        s2.syncFlags.cpsr = (if result &&& 1#32 ≠ 0 then s.syncFlags.cpsr ||| armFlagT else s.syncFlags.cpsr) ∧
        ∀ i, i ≠ armPc → (i = armLr → m ≠ e.mode) → s2.r i = s.r i) ∧
      ∀ rn uBit wBit iw newValues addr, inList iw 15 = true →
        ∃ s1 s2, s.armException e = .ok s1 ∧ s1.popFinish rn uBit true wBit iw newValues addr = .ok s2 ∧
        armMode s2.cpsr = some m ∧ s2.syncFlags.cpsr = s.syncFlags.cpsr ∧
        ∀ i, i ≠ armPc → (i = armLr → m ≠ e.mode) →
          (inList iw i = true ∨ wBit = true ∧ i = rn → m.owner i ≠ e.mode.owner i) → s2.r i = s.r i := by
  refine ⟨fun ops a' log hrun => ?_, fun e he => ⟨armException_dpiReturn hm he, ?_⟩⟩
  · have hstep : ∀ x y op y', Refines x y → Architecture.step y op = .ok y' →
        ∃ x', bankStep x op = .ok x' ∧ Refines x' y' := fun _ _ _ _ => Refines.step
    obtain ⟨⟨s', log'⟩, hs', hlog, m', hr⟩ := Lib.runOps_sim (s := (s, [])) hstep
      ⟨rfl, m, represents_architecture hm⟩ hrun
    dsimp only at hlog hr
    subst hlog
    exact ⟨s', m', hs', hr⟩
  · exact fun rn uBit wBit iw newValues addr => armException_popFinish hm he rn uBit wBit newValues addr

theorem bankOps_refine_irq : ∃ a' s' m',
    Lib.runOps bankStep [.writeReg 13 0x100#32, .exception .irq, .dpiReturn 0x40#32, .readReg 13]
      (ArmCpu.new false, []) = .ok (s', [0x100#32]) ∧ s'.Represents m' a' := by
  obtain ⟨⟨a', log⟩, ha, hlog⟩ := Lib.eval_eq_ok
    (Lib.runOps Architecture.step [.writeReg 13 0x100#32, .exception .irq, .dpiReturn 0x40#32, .readReg 13]
      ((ArmCpu.new false).architecture .svc, [])) (fun x => x.2) [0x100#32] (by decide +kernel)
  dsimp only at hlog
  subst hlog
  exact ⟨a', (bankOps_refine (s := ArmCpu.new false) (m := .svc) (by decide)).1 _ _ _ ha⟩

/-- A software interrupt in supervisor mode overwrites r14, and the return does not put it back. -/
theorem armException_swi_svc : ∃ s s1 s2 : ArmCpu, armMode s.cpsr = some .svc ∧ s.armException .swi = .ok s1 ∧
    s1.dpiReturn (s1.r armLr) = .ok s2 ∧ armMode s2.cpsr = some .svc ∧ s2.r armLr ≠ s.r armLr := by
  obtain ⟨s2, hrun, hread⟩ := Lib.eval_eq_ok (do
      let s1 ← (ArmCpu.new false).armException .swi
      s1.dpiReturn (s1.r armLr)) (fun s => (armMode s.cpsr, s.r armLr)) (some .svc, 4#32) (by decide +kernel)
  obtain ⟨s1, hs1, hs2⟩ := Lib.bind_eq_ok hrun
  obtain ⟨hm2, hlr⟩ := Prod.mk.inj hread
  refine ⟨ArmCpu.new false, s1, s2, by decide, hs1, hs2, hm2, ?_⟩
  rw [hlr]
  decide

/-! ## The system control coprocessor -/

theorem msrImm_system {s' : ArmCpu} {mask value : Word} (h : s.msrImm mask value = .ok s') :
    s'.systemRegs = s.systemRegs := by
  unfold ArmCpu.msrImm at h
  generalize (if s.cpsr &&& armFlagMode = ArmMode.usr.bits then mask &&& 0xff000000#32 else mask) = mask at h
  dsimp only at h
  split at h
  · obtain ⟨t, hsave, h⟩ := Lib.bind_eq_ok h
    have ht : t.systemRegs = s.syncFlags.systemRegs := saveRegisterBank_system hsave
    exact (loadRegisterBank_system h).trans ht
  · obtain ⟨t, ht, h⟩ := Lib.bind_eq_ok h
    cases ht
    cases h
    rfl

theorem msrImmSpsr_system (mask value : Word) : (s.msrImmSpsr mask value).systemRegs = s.systemRegs := by
  unfold ArmCpu.msrImmSpsr
  split <;> rfl

theorem dpiReturn_system {s' : ArmCpu} {result : Word} (h : s.dpiReturn result = .ok s') :
    s'.systemRegs = s.systemRegs := by
  obtain ⟨t, hsave, h⟩ := Lib.bind_eq_ok h
  obtain ⟨t', hload, h⟩ := Lib.bind_eq_ok h
  cases h
  have ht : t'.systemRegs = s.systemRegs := by
    calc t'.systemRegs = (t.writeCpsr (t.spsr.getD t.cpsr)).systemRegs := loadRegisterBank_system hload
      _ = t.systemRegs := rfl
      _ = ({ s with pc := result } : ArmCpu).systemRegs := saveRegisterBank_system hsave
  split
  · exact ht
  · exact ht

theorem popReg_system (sBit : Bool) (i : Nat) (value : Word) : (s.popReg sBit i value).systemRegs = s.systemRegs := by
  unfold ArmCpu.popReg
  repeat' split
  all_goals rfl

theorem popRegs_system (sBit uBit : Bool) (iw : Word) (newValues : Nat → Word) :
    (s.popRegs sBit uBit iw newValues).systemRegs = s.systemRegs := by
  unfold ArmCpu.popRegs
  generalize regOrder uBit = order
  induction order generalizing s with
  | nil => rfl
  | cons i order ih =>
    rw [List.foldl_cons, ih]
    split
    · exact popReg_system sBit i _
    · rfl

theorem popReturn_system {s' : ArmCpu} {newCpsr : Word} (h : s.popReturn newCpsr = .ok s') :
    s'.systemRegs = s.systemRegs := by
  unfold ArmCpu.popReturn at h
  dsimp only at h
  split at h
  · obtain ⟨t, hsave, h⟩ := Lib.bind_eq_ok h
    have ht : t.systemRegs = s.systemRegs := saveRegisterBank_system hsave
    exact (loadRegisterBank_system h).trans ht
  · obtain ⟨t, ht, h⟩ := Lib.bind_eq_ok h
    cases ht
    cases h
    rfl

theorem popFinish_system {s' : ArmCpu} {rn : Nat} {uBit sBit wBit : Bool} {iw : Word} {newValues : Nat → Word}
    {addr : Word} (h : s.popFinish rn uBit sBit wBit iw newValues addr = .ok s') : s'.systemRegs = s.systemRegs := by
  unfold ArmCpu.popFinish at h
  dsimp only at h
  generalize ht : (if wBit = true then (s.popRegs (s.popMode sBit iw).1 uBit iw newValues).setReg rn addr
    else s.popRegs (s.popMode sBit iw).1 uBit iw newValues) = t at h
  have hregs : t.systemRegs = s.systemRegs := by
    subst ht
    split
    · exact popRegs_system _ _ _ _
    · exact popRegs_system _ _ _ _
  split at h
  · split at h
    · cases h
      exact hregs
    · obtain ⟨t', hret, h⟩ := Lib.bind_eq_ok h
      cases h
      have ht : t'.systemRegs = t.systemRegs := popReturn_system hret
      exact ht.trans hregs
  · split at h
    · cases h
      exact hregs
    · cases h
      exact hregs

theorem bankStep_system {op : BankOp} {log log' : List Word} {s' : ArmCpu} (h : bankStep (s, log) op = .ok (s', log')) :
    s'.systemRegs = s.systemRegs := by
  have hmap : ∀ {x : Except Exit ArmCpu}, x.map (·, log) = .ok (s', log') → x = .ok s' := by
    intro x hx
    cases x with
    | error e => cases hx
    | ok t =>
      cases hx
      rfl
  cases op with
  | readReg i =>
    cases h
    rfl
  | writeReg i value =>
    cases h
    rfl
  | writeFlags flags =>
    cases h
    rfl
  | jump pc =>
    cases h
    rfl
  | exception e => exact armException_system (hmap h)
  | msrImm fields value => exact msrImm_system (hmap h)
  | msr fields rm => exact msrImm_system (hmap h)
  | msrImmSpsr fields value =>
    cases h
    exact msrImmSpsr_system _ _
  | msrSpsr fields rm =>
    cases h
    exact msrImmSpsr_system _ _
  | dpiReturn result => exact dpiReturn_system (hmap h)
  | ldm rn uBit sBit wBit iw newValues addr => exact popFinish_system (hmap h)
  | stm rn uBit sBit wBit iw addr =>
    cases h
    split <;> rfl

end ArmCpu

end Gxemul.Arm
