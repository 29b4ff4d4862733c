import Gxemul.Mips.Loads
import Gxemul.Mips.UnalignedFaults

/- Loads that fault: what they leave of the registers, and where the exception says
   that they are. -/
namespace Gxemul.Mips
open Lib (Byte ByteMem)

/-! ## The exception of an instruction -/

namespace MipsCpu
variable {t : CpuType} {cacheSize : Nat} {host : Addr → Option Nat} {s s' : MipsCpu} {e : ExceptionArgs} {lowPc : Nat}

def Raises (t : CpuType) (cacheSize : Nat) (host : Addr → Option Nat) (s s' : MipsCpu) (e : ExceptionArgs) : Prop :=
  ∃ s1, s.Kept s1 ∧ s1.mipsCpuException t cacheSize host e 0 = .ok s'

structure Designates (t : CpuType) (c : Cop0) (pc : Addr) (delaySlot : Nat) : Prop where
  epc : c.epc = let pc := if delaySlot ≠ 0 then pc - 4#64 else pc
    if t.is32bit then sext32 pc else pc
  delayed : anyBit c.cause causeBd = decide (delaySlot ≠ 0)

structure KeepsReturn (t : CpuType) (c c' : Cop0) : Prop where
  epc : c'.epc = if t.is32bit then sext32 c.epc else c.epc
  delayed : anyBit c'.cause causeBd = anyBit c.cause causeBd

theorem noteCause_noteAddress_kept (c : Cop0) (n : Nat) :
    ((c.noteCause t e n).noteAddress t e).status = c.status ∧ ((c.noteCause t e n).noteAddress t e).epc = c.epc := by
  unfold Cop0.noteAddress
  dsimp only
  split
  · split <;> exact ⟨rfl, rfl⟩
  · exact ⟨rfl, rfl⟩

theorem anyBit_sext32_causeBd (x : Reg) : anyBit (sext32 x) causeBd = anyBit x causeBd := by
  unfold anyBit
  rw [sext32_and (by decide)]

theorem anyBit_causeBd (x : Reg) : anyBit x causeBd = x.getLsbD 31 := by
  have hbd : causeBd = BitVec.twoPow 64 31 := by decide
  rw [hbd, anyBit_twoPow _ (by decide)]

theorem anyBit_noteCause (c : Cop0) : anyBit (c.noteCause t e 0).cause causeBd = anyBit c.cause causeBd := by
  have hmask : ∀ b : Bool, (if b then r2k3kCauseExccodeMask else causeExccodeMask).getLsbD 31 = false := by decide
  have hcode : (BitVec.ofNat 64 e.exccode.toNat <<< causeExccodeShift).getLsbD 31 = false := by
    cases e.exccode <;> decide
  have hce : causeCeMask.getLsbD 31 = false := by decide
  have hnumber : (BitVec.ofNat 64 0 <<< causeCeShift).getLsbD 31 = false := by decide
  rw [anyBit_causeBd, anyBit_causeBd]
  unfold Cop0.noteCause
  simp only [BitVec.getLsbD_or, BitVec.getLsbD_and, BitVec.getLsbD_not, hmask, hcode, hce, hnumber]
  simp

theorem Raises.spec (h : s.Raises t cacheSize host s' e) (hrun : s.isHalted = false) :
    s'.dyn.pc = (s.notedCop0 t e 0).handler t e ∧
    (t.exc3k = true ∨ anyBit s.mmu.cop0.status statusExl = false →
      Designates t s'.mmu.cop0 s.dyn.pc s.delaySlot) ∧
    (t.exc3k = false → anyBit s.mmu.cop0.status statusExl = true → KeepsReturn t s.mmu.cop0 s'.mmu.cop0) := by
  obtain ⟨s1, hkept, hexc⟩ := h
  obtain ⟨hpc, hmmu, -⟩ := mipsCpuException_spec hexc
  have hnoted : s1.notedCop0 t e 0 = s.notedCop0 t e 0 := by
    unfold notedCop0 exceptionPc
    rw [hkept.mmu, hkept.isHalted, hkept.pc, hkept.delaySlot]
  have hcop0 : s'.mmu.cop0 = (s.notedCop0 t e 0).enterException t := by
    rw [hmmu, hnoted]
  have hreturn : s.notedCop0 t e 0 =
      ((s.mmu.cop0.noteCause t e 0).noteAddress t e).noteReturn t s.dyn.pc s.delaySlot := by
    unfold notedCop0 exceptionPc
    rw [hrun]
    rfl
  obtain ⟨hstatus, hepc⟩ := @noteCause_noteAddress_kept t e s.mmu.cop0 0
  refine ⟨by rw [hpc, hnoted], fun hnote => ?_, fun h3k hexl => ?_⟩
  · have hno : ¬ (!t.exc3k && anyBit s.mmu.cop0.status statusExl) = true := by
      obtain h | h := hnote <;> rw [h] <;> simp
    rw [hcop0, hreturn]
    unfold Cop0.noteReturn
    rw [hstatus, if_neg hno]
    by_cases hslot : s.delaySlot ≠ 0
    · rw [if_pos hslot]
      refine ⟨?_, ?_⟩
      · rw [if_pos hslot]
        rfl
      · show anyBit (sext32 (_ ||| causeBd)) causeBd = _
        rw [anyBit_sext32_causeBd, anyBit_causeBd, BitVec.getLsbD_or, decide_eq_true hslot]
        exact Bool.or_true _
    · rw [if_neg hslot]
      refine ⟨?_, ?_⟩
      · rw [if_neg hslot]
        rfl
      · show anyBit (sext32 (_ &&& ~~~ causeBd)) causeBd = _
        rw [anyBit_sext32_causeBd, anyBit_causeBd, BitVec.getLsbD_and, decide_eq_false hslot]
        exact Bool.and_false _
  · have hyes : (!t.exc3k && anyBit s.mmu.cop0.status statusExl) = true := by
      rw [h3k, hexl]
      rfl
    rw [hcop0, hreturn]
    unfold Cop0.noteReturn
    rw [hstatus, if_pos hyes]
    refine ⟨?_, ?_⟩
    · show (if t.is32bit then sext32 ((s.mmu.cop0.noteCause t e 0).noteAddress t e).epc else _) = _
      rw [hepc]
    · show anyBit (sext32 ((s.mmu.cop0.noteCause t e 0).noteAddress t e).cause) causeBd = _
      rw [anyBit_sext32_causeBd, noteAddress_cause, anyBit_noteCause]

theorem EndsIn.raises {ok : Bool} {io : Io} (h : EndsIn t cacheSize io s s' ok (.raised e)) :
    ok = false ∧ s.Raises t cacheSize io.hostaddr s' e := h

theorem lowPc_bits (hlow : lowPc < 1024) {i : Nat} (h : (BitVec.ofNat 64 (lowPc * 4)).getLsbD i = true) :
    (0xffc#64).getLsbD i = true := by
  have hpage : ∀ i < 12, 2 ≤ i → (0xffc#64).getLsbD i = true := by decide
  rw [BitVec.getLsbD_ofNat, Bool.and_eq_true] at h
  obtain ⟨-, h⟩ := h
  have hlt : i < 12 := by
    apply Nat.lt_of_not_le
    intro hge
    have hpow : 2 ^ 12 ≤ 2 ^ i := Nat.pow_le_pow_right (by decide) hge
    rw [Nat.testBit_lt_two_pow (by omega)] at h
    cases h
  refine hpage i hlt ?_
  rw [show lowPc * 4 = lowPc * 2 ^ 2 from rfl, Nat.testBit_mul_two_pow, Bool.and_eq_true] at h
  exact of_decide_eq_true h.1

theorem syncPc_syncPc (hlow : lowPc < 1024) : (s.syncPc lowPc).syncPc lowPc = s.syncPc lowPc := by
  have hbits := @lowPc_bits lowPc hlow
  unfold syncPc
  generalize BitVec.ofNat 64 (lowPc * 4) = y at hbits
  have hsum : ∀ x : Addr, ((x &&& ~~~ 0xffc#64) + y) &&& ~~~ 0xffc#64 = x &&& ~~~ 0xffc#64 := by
    intro x
    have hdisj : (x &&& ~~~ 0xffc#64) &&& y = 0#64 := by
      apply BitVec.eq_of_getLsbD_eq
      intro i hi
      simp only [BitVec.getLsbD_and, BitVec.getLsbD_not, BitVec.getLsbD_zero]
      cases hy : y.getLsbD i with
      | false => exact Bool.and_false _
      | true => rw [hbits hy, Bool.not_true, Bool.and_false, Bool.and_false, Bool.false_and]
    rw [BitVec.add_eq_or_of_and_eq_zero _ _ hdisj]
    apply BitVec.eq_of_getLsbD_eq
    intro i hi
    simp only [BitVec.getLsbD_and, BitVec.getLsbD_or, BitVec.getLsbD_not]
    cases hy : y.getLsbD i with
    | false => rw [Bool.or_false, Bool.and_assoc, Bool.and_self]
    | true => rw [hbits hy, Bool.not_true, Bool.and_false, Bool.and_false, Bool.and_false]
  simp only [hsum]

end MipsCpu

/-! ## Loads -/

namespace Machine
variable {conf : LsConf} {k : LsKind} {io : Io} {ic : LsCall} {s s' : Machine} {e : ExceptionArgs}

theorem lsN_raised (hend : s.lsEnd conf k io ic = .ok (.raised e)) (h : s.lsN conf k io ic = .ok s') :
    s'.regs = s.regs ∧
      (s.cpu.syncPc ic.lowPc).Raises conf.cpuType conf.cacheSize io.hostaddr s'.cpu e := by
  unfold lsEnd at hend
  cases hfast : s.fastAddr conf k ic with
  | some p =>
    rw [hfast] at hend
    cases hend
  | none =>
    rw [hfast] at hend
    rw [lsN_of_none hfast] at h
    dsimp only at hend
    unfold lsGeneric at h
    dsimp only at h
    split at hend
    · rename_i hal
      cases hend
      rw [if_pos hal] at h
      obtain ⟨cpu, hexc, h⟩ := Lib.bind_eq_ok h
      cases h
      exact ⟨rfl, _, .refl _, hexc⟩
    · rename_i hal
      rw [if_neg hal] at h
      split at h
      · obtain ⟨⟨cpu, copied, ok⟩, hrw, h⟩ := Lib.bind_eq_ok h
        cases h
        obtain ⟨fin, hfin, hends⟩ := MipsCpu.memoryRw_end hrw
        cases hend.symm.trans hfin
        exact ⟨rfl, hends.raises.2⟩
      · obtain ⟨⟨cpu, copied, ok⟩, hrw, h⟩ := Lib.bind_eq_ok h
        obtain ⟨fin, hfin, hends⟩ := MipsCpu.memoryRw_end hrw
        cases hend.symm.trans hfin
        obtain ⟨rfl, hraises⟩ := hends.raises
        rw [if_pos (by rfl)] at h
        cases h
        exact ⟨rfl, hraises⟩

theorem unaligned_raised {isLeft : Bool} {w : Wlen} (hend : s.wordEnd conf (fun _ => io) w ic false = .ok (.raised e))
    (h : s.mipsUnalignedLoadstore conf (fun _ => io) isLeft w ic false = .ok s') :
    s'.regs = s.regs ∧
      (s.cpu.syncPc ic.lowPc).Raises conf.cpuType conf.cacheSize io.hostaddr s'.cpu e := by
  obtain ⟨⟨cpu, copied, ok⟩, hrw, h⟩ := Lib.bind_eq_ok h
  obtain ⟨fin, hfin, hends⟩ := MipsCpu.memoryRw_end hrw
  cases hend.symm.trans hfin
  obtain ⟨rfl, hraises⟩ := hends.raises
  dsimp only at h
  rw [if_neg Bool.false_ne_true, if_pos (by rfl)] at h
  cases h
  exact ⟨rfl, hraises⟩

end Machine

namespace LinkedMachine
variable {conf : LsConf} {io : Io} {ic : LsCall} {m m' : LinkedMachine} {e : ExceptionArgs} {i : LoadInstr}

def usable (m : LinkedMachine) (cpnr : Nat) : Bool :=
  anyBit m.machine.cpu.mmu.cop0.status (BitVec.ofNat 64 (2 ^ cpnr) <<< statusCuShift)

/-- The end of the access of a load. A coprocessor that cannot be used does not access memory. -/
def loadEnd (conf : LsConf) (io : Io) (ic : LsCall) (m : LinkedMachine) : LoadInstr → Except Exit AccessEnd
  | .load size signed => m.machine.lsEnd conf ⟨size, false, signed⟩ io ic
  | .unaligned _ w => m.machine.wordEnd conf (fun _ => io) w ic false
  | .linked w =>
    if m.machine.addr conf ic &&& w.mask ≠ 0 then .error .loadLinkedUnaligned
    else (m.machine.cpu.syncPc ic.lowPc).accessEnd conf.cpuType io (m.access conf ic w)
  | .lwc1 =>
    if m.usable 1 then m.machine.lsEnd conf ⟨.ls4, false, true⟩ io ic else .ok .failed
  | .ldc1 =>
    if m.usable 1 then m.machine.lsEnd conf ⟨.ls8, false, true⟩ io { ic with arg0 := .fprVar } else .ok .failed

def ldc1Writes (i : LoadInstr) (ic : LsCall) (r : RegName) : Prop :=
  i = .ldc1 ∧ (r = ic.arg0 ∨ ic.arg0.next = some r)

structure LoadFaults (conf : LsConf) (ic : LsCall) (m m' : LinkedMachine) (i : LoadInstr) (e : ExceptionArgs) : Prop where
  regs : ∀ r, ¬ ldc1Writes i ic r → m'.machine.regs r = m.machine.regs r
  link : m'.link = m.link
  pc : m'.machine.cpu.dyn.pc = m.machine.handlerPc conf ic e
  designates : conf.cpuType.exc3k = true ∨ anyBit m.machine.cpu.mmu.cop0.status statusExl = false →
    MipsCpu.Designates conf.cpuType m'.machine.cpu.mmu.cop0 (m.machine.cpu.syncPc ic.lowPc).dyn.pc
      m.machine.cpu.delaySlot
  keepsReturn : conf.cpuType.exc3k = false → anyBit m.machine.cpu.mmu.cop0.status statusExl = true →
    MipsCpu.KeepsReturn conf.cpuType m.machine.cpu.mmu.cop0 m'.machine.cpu.mmu.cop0

theorem coprocAvailabilityCheck_usable {cpnr : Nat} (h : m.usable cpnr = true) :
    Coproc1.coprocAvailabilityCheck conf io ic m.machine cpnr = .ok (m.machine.cpu.syncPc ic.lowPc, true) :=
  if_pos h

theorem lsEnd_syncPc {k : LsKind} (hlow : ic.lowPc < 1024) (s : Machine) :
    Machine.lsEnd conf k io ic { s with cpu := s.cpu.syncPc ic.lowPc } = s.lsEnd conf k io ic := by
  unfold Machine.lsEnd
  rw [MipsCpu.syncPc_syncPc hlow]
  rfl

theorem lsN_checked {k : LsKind} {s' : Machine} (hlow : ic.lowPc < 1024)
    (hend : m.machine.lsEnd conf k io ic = .ok (.raised e))
    (h : Machine.lsN conf k io ic { m.machine with cpu := m.machine.cpu.syncPc ic.lowPc } = .ok s') :
    s'.regs = m.machine.regs ∧
      (m.machine.cpu.syncPc ic.lowPc).Raises conf.cpuType conf.cacheSize io.hostaddr s'.cpu e := by
  rw [← lsEnd_syncPc hlow] at hend
  obtain ⟨hregs, hraises⟩ := Machine.lsN_raised hend h
  rw [MipsCpu.syncPc_syncPc hlow] at hraises
  exact ⟨hregs, hraises⟩

theorem storeFpr_spec {s s' : Machine} {useFpPairs : Bool} (h : Coproc1.storeFpr ic s useFpPairs = .ok s') :
    s'.cpu = s.cpu ∧ ∀ r, r ≠ ic.arg0 → ic.arg0.next ≠ some r → s'.regs r = s.regs r := by
  unfold Coproc1.storeFpr at h
  split at h
  · split at h
    · cases h
    · rename_i r' hnext
      cases h
      refine ⟨rfl, fun r hr hr' => ?_⟩
      have hne : r ≠ r' := by
        rintro rfl
        exact hr' hnext
      exact (Function.update_of_ne hne _ _).trans (Function.update_of_ne hr _ _)
  · cases h
    exact ⟨rfl, fun r hr _ => Function.update_of_ne hr _ _⟩

/-- A load that raises an exception leaves the registers, except that ldc1 writes its own. On an R4000 EPC says where
the load is, unless the exception is raised in the handler of another one. -/
theorem loadFaults (hrun : m.machine.cpu.isHalted = false) (hlow : ic.lowPc < 1024)
    (h : m.load conf io ic i = .ok m') (hend : m.loadEnd conf io ic i = .ok (.raised e)) :
    LoadFaults conf ic m m' i e := by
  have hfaults : ∀ s', (m.machine.cpu.syncPc ic.lowPc).Raises conf.cpuType conf.cacheSize io.hostaddr s'.cpu e →
      (∀ r, ¬ ldc1Writes i ic r → s'.regs r = m.machine.regs r) → m' = { m with machine := s' } →
      LoadFaults conf ic m m' i e := by
    rintro s' hraises hregs rfl
    obtain ⟨hpc, hdesignates, hkeeps⟩ := hraises.spec hrun
    exact ⟨hregs, rfl, hpc, hdesignates, hkeeps⟩
  cases i with
  | load size signed =>
    obtain ⟨s', hs, h⟩ := Lib.bind_eq_ok h
    cases h
    obtain ⟨hregs, hraises⟩ := Machine.lsN_raised hend hs
    exact hfaults s' hraises (fun r _ => congrFun hregs r) rfl
  | unaligned isLeft w =>
    obtain ⟨s', hs, h⟩ := Lib.bind_eq_ok h
    cases h
    obtain ⟨hregs, hraises⟩ := Machine.unaligned_raised hend hs
    exact hfaults s' hraises (fun r _ => congrFun hregs r) rfl
  | linked w =>
    unfold loadEnd at hend
    dsimp only at hend
    unfold load loadLinked at h
    dsimp only at h
    split at hend
    · cases hend
    · rename_i hal
      rw [if_neg hal] at h
      obtain ⟨⟨cpu, copied, ok⟩, hrw, h⟩ := Lib.bind_eq_ok h
      obtain ⟨fin, hfin, hends⟩ := MipsCpu.memoryRw_end hrw
      cases hend.symm.trans hfin
      obtain ⟨rfl, hraises⟩ := hends.raises
      dsimp only at h
      rw [if_pos (by rfl)] at h
      cases h
      exact hfaults ⟨cpu, m.machine.regs, copied.1⟩ hraises (fun r _ => rfl) rfl
  | lwc1 =>
    obtain ⟨s', hs, h⟩ := Lib.bind_eq_ok h
    cases h
    unfold loadEnd at hend
    dsimp only at hend
    split at hend
    · rename_i husable
      unfold Coproc1.lwc1 at hs
      rw [coprocAvailabilityCheck_usable husable] at hs
      obtain ⟨hregs, hraises⟩ := lsN_checked hlow hend hs
      exact hfaults s' hraises (fun r _ => congrFun hregs r) rfl
    · cases hend
  | ldc1 =>
    obtain ⟨s', hs, h⟩ := Lib.bind_eq_ok h
    cases h
    unfold loadEnd at hend
    dsimp only at hend
    split at hend
    · rename_i husable
      unfold Coproc1.ldc1 at hs
      dsimp only at hs
      obtain ⟨c, hcheck, hs⟩ := Lib.bind_eq_ok hs
      rw [coprocAvailabilityCheck_usable husable] at hcheck
      cases hcheck
      obtain ⟨s1, hs1, hs⟩ := Lib.bind_eq_ok hs
      obtain ⟨hregs, hraises⟩ := @lsN_checked conf io { ic with arg0 := .fprVar } m e ⟨.ls8, false, true⟩ s1 hlow hend hs1
      obtain ⟨hcpu, hkeep⟩ := storeFpr_spec hs
      refine hfaults s' (hcpu ▸ hraises) (fun r hr => ?_) rfl
      have hne : r ≠ ic.arg0 := fun heq => hr ⟨rfl, Or.inl heq⟩
      have hnext : ic.arg0.next ≠ some r := fun heq => hr ⟨rfl, Or.inr heq⟩
      exact (hkeep r hne hnext).trans (congrFun hregs r)
    · cases hend

/-! An R4000 with an empty TLB loads a word. It has returned to 0x1234 before. -/

def lw : LoadInstr := .load .ls4 true

def lwCall : LsCall := ⟨.ofNat 2, .ofNat 1, 0, 0⟩

def returned (status : Reg) : LinkedMachine where
  machine := {
    cpu := emptyTlb { entryRegisters 0 0 0 0 with status, epc := 0x1234 }
    regs _ := 0x40000000
    host _ := 0 }
  link := ⟨0, 0, 0, 0⟩

theorem loadFaults_refill : ∃ m', (returned 0x10).load Machine.bigR4000 Machine.ramIo lwCall lw = .ok m' ∧
    LoadFaults Machine.bigR4000 lwCall (returned 0x10) m' lw ⟨.tlbl, true, 0x40000000, 0x20000, 0, false⟩ := by
  obtain ⟨m', hm, -⟩ := Lib.eval_eq_ok ((returned 0x10).load Machine.bigR4000 Machine.ramIo lwCall lw) (fun _ => ()) ()
    (by decide +kernel)
  exact ⟨m', hm, loadFaults rfl (by decide) hm (by decide +kernel)⟩

/-- The load is in the handler of another exception. -/
theorem not_designates_exl :
    (returned 2).loadEnd Machine.bigR4000 Machine.ramIo lwCall lw = .ok (.raised ⟨.tlbl, true, 0x40000000, 0x20000, 0, false⟩) ∧
    ∃ m', (returned 2).load Machine.bigR4000 Machine.ramIo lwCall lw = .ok m' ∧
      ¬ MipsCpu.Designates r4000 m'.machine.cpu.mmu.cop0 ((returned 2).machine.cpu.syncPc 0).dyn.pc 0 := by
  obtain ⟨m', hm, hepc⟩ := Lib.eval_eq_ok ((returned 2).load Machine.bigR4000 Machine.ramIo lwCall lw)
    (fun m => m.machine.cpu.mmu.cop0.epc) 0x1234 (by decide +kernel)
  refine ⟨by decide +kernel, m', hm, fun h => ?_⟩
  have := h.epc
  rw [hepc] at this
  exact absurd this (by decide +kernel)

end LinkedMachine

end Gxemul.Mips
