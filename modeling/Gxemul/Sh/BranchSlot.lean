import Gxemul.Sh.Branch

/- Instructions of a SuperH page: their addresses, the lookup of the page that execution
   goes on in, and the instruction in a delay slot, on the same page or on the next one. -/
namespace Gxemul.Sh

/-! ## Addresses -/

namespace ShMachine
variable (c : ShConf) (io : ShIo) (s : ShMachine)

/-- The address that `next_ic` stands for. -/
def nextPc : Word := s.pageBase.setWidth 32 + BitVec.ofNat 32 (2 * s.dyn.nextIc)

/-- The address of instruction `lowPc` of the page. -/
def instrPc (lowPc : Nat) : Word := s.pageBase.setWidth 32 + BitVec.ofNat 32 (2 * lowPc)

def SlotRaised : Prop := hasFlag s.cpu.delaySlot exceptionInDelaySlot = true

end ShMachine

def Jump.address (s : ShMachine) : Jump → Option Word
  | .next => some s.nextPc
  | .skip => some (s.nextPc + 2#32)
  | .toIc ic => some (s.pageBase.setWidth 32 + BitVec.ofNat 32 (2 * ic))
  | .toPc pc => some (pc.setWidth 32)
  | .cancelled => none

theorem setWidth_signExtend (x : Word) : (x.signExtend 64).setWidth 32 = x := by
  ext i hi
  rw [BitVec.getElem_setWidth, BitVec.getLsbD_signExtend]
  simp [hi, show i < 64 by omega]

/-! ## The number of an instruction in its page -/

section
variable {i : Nat} (addr : Word) (pc : Addr)

theorem testBit_ic :
    (2 * Arch.sh.pcToIcEntry pc).testBit i = (decide (1 ≤ i ∧ i < 12) && pc.getLsbD i) := by
  have hmask : Arch.sh.icEntriesPerPage - 1 = 2 ^ 11 - 1 := rfl
  have hshift : Arch.sh.instrAlignmentShift = 1 := rfl
  unfold Arch.pcToIcEntry
  rw [hmask, hshift, Nat.mul_comm, ← Nat.shiftLeft_eq _ 1, Nat.testBit_shiftLeft, Nat.testBit_and,
    Nat.testBit_two_pow_sub_one, Nat.testBit_shiftRight, ← BitVec.testBit_toNat]
  by_cases hi : 1 ≤ i
  · have hback : 1 + (i - 1) = i := by omega
    by_cases hi' : i < 12
    · simp [hi, hi', hback, show i - 1 < 11 by omega]
    · simp [hi, hi', show ¬ i - 1 < 11 by omega]
  · simp [hi]

theorem getLsbD_pageBits : (0xffe#32).getLsbD i = decide (1 ≤ i ∧ i < 12) := by
  by_cases hi : i < 32
  · revert i
    decide
  · rw [BitVec.getLsbD_of_ge _ _ (by omega), eq_comm, decide_eq_false_iff_not]
    omega

theorem pageOffset_eq : pageOffset addr = BitVec.ofNat 32 (2 * Arch.sh.pcToIcEntry (addr.setWidth 64)) := by
  unfold pageOffset
  apply BitVec.eq_of_getLsbD_eq
  intro i hi
  rw [BitVec.getLsbD_ofNat, testBit_ic, BitVec.getLsbD_and, BitVec.getLsbD_and, BitVec.getLsbD_not, getLsbD_pageBits,
    BitVec.getLsbD_setWidth]
  rcases i with _ | i
  · simp
  · simp [hi, show i + 1 < 64 by omega, Bool.and_comm]

theorem pcToIcEntry_eq : Arch.sh.pcToIcEntry (addr.setWidth 64) = addr.toNat % 2 ^ 12 / 2 := by
  have hmask : Arch.sh.icEntriesPerPage - 1 = 2 ^ 11 - 1 := rfl
  have hshift : Arch.sh.instrAlignmentShift = 1 := rfl
  have hnat : (addr.setWidth 64).toNat = addr.toNat := BitVec.toNat_setWidth_of_le (by omega)
  unfold Arch.pcToIcEntry
  rw [hmask, hshift, Nat.and_two_pow_sub_one_eq_mod, Nat.shiftRight_eq_div_pow, hnat]
  omega

theorem pageBase_add_ic : (pc &&& ~~~ 0xffe#64).setWidth 32 +
    BitVec.ofNat 32 (2 * Arch.sh.pcToIcEntry ((pc.setWidth 32).setWidth 64)) = pc.setWidth 32 := by
  have hbase : (pc &&& ~~~ 0xffe#64).setWidth 32 = pc.setWidth 32 &&& ~~~ 0xffe#32 := BitVec.setWidth_and
  have hoffset : pageOffset (pc.setWidth 32) = pc.setWidth 32 &&& 0xffe#32 := by
    rw [pageOffset, BitVec.and_assoc]
    rfl
  rw [← pageOffset_eq, hoffset, hbase, BitVec.add_eq_or_of_and_eq_zero]
  · ext i hi
    rw [BitVec.getElem_or, BitVec.getElem_and, BitVec.getElem_and, BitVec.getElem_not]
    cases (0xffe#32)[i] <;> simp
  · ext i hi
    rw [BitVec.getElem_and, BitVec.getElem_and, BitVec.getElem_and, BitVec.getElem_not]
    cases (0xffe#32)[i] <;> simp

end

/-! ## Lookups of pages -/

namespace ShCpu
variable {s u : ShCpu Regs}

@[simp] theorem delaySlot_setPc (pc : Addr) : (s.setPc pc).delaySlot = s.delaySlot := rfl

@[simp] theorem delaySlot_noteAddress (vaddr : Word) : (s.noteAddress vaddr).delaySlot = s.delaySlot := rfl

@[simp] theorem delaySlot_write (x : RegName) (v : Word) : (s.write shRegFile x v).delaySlot = s.delaySlot := rfl

@[simp] theorem delaySlot_updateSr (v : Word) : (s.updateSr shRegFile v).delaySlot = s.delaySlot := rfl

theorem specificCases_delaySlot {vbr vaddr : Word} {expevt : Option Word}
    (h : s.specificCases shRegFile vbr expevt vaddr = .ok u) : u.delaySlot = s.delaySlot := by
  unfold specificCases at h
  split at h
  · rw [← Except.ok.inj h, delaySlot_setPc]
  · split at h
    · rw [← Except.ok.inj h, delaySlot_updateSr, delaySlot_write, delaySlot_setPc]
    · split at h
      · rw [← Except.ok.inj h, delaySlot_noteAddress, delaySlot_setPc]
      · split at h
        · rw [← Except.ok.inj h, delaySlot_noteAddress]
        · split at h
          · rw [← Except.ok.inj h, delaySlot_write]
          · split at h
            · cases h
            · split at h
              · rw [← Except.ok.inj h]
              · cases h

theorem shException_delaySlot {expevt intevt vaddr : Word} (h : s.shException shRegFile expevt intevt vaddr = .ok u)
    (hd : s.delaySlot ≠ notDelayed) : u.delaySlot = exceptionInDelaySlot := by
  have hwake : s.wake.delaySlot = s.delaySlot := by
    unfold wake
    split <;> rfl
  have hleave : s.wake.leaveSlot.delaySlot = exceptionInDelaySlot := by
    unfold leaveSlot
    rw [if_pos (hwake ▸ hd)]
  have hspecific := specificCases_delaySlot h
  rw [delaySlot_setPc, delaySlot_updateSr] at hspecific
  rw [hspecific, ← hleave]
  split <;> rfl

end ShCpu

namespace ShMachine
variable {c : ShConf} {io : ShIo} {s t : ShMachine}

def FetchRaises (s : ShMachine) : Prop :=
  ∃ s' expevt, s.translateV2p ⟨false, false, true⟩ s.cachedPc = .ok (s', .exception expevt)

def Arrives (s t : ShMachine) : Prop :=
  t.cpu.pc = s.cpu.pc ∧ t.cpu.delaySlot = s.cpu.delaySlot ∧ t.cpu.regs = s.cpu.regs ∧
    t.dyn.nextIc = Arch.sh.pcToIcEntry s.cachedPc

theorem arrives_pointTo {physaddr : Addr} (h : s.pointTo c io physaddr = .ok t) : s.Arrives t := by
  obtain ⟨dyn, hdyn, ht⟩ := Lib.bind_eq_ok h
  cases ht
  refine ⟨rfl, rfl, rfl, ?_⟩
  obtain ⟨c1, -, hdyn⟩ := Lib.bind_eq_ok hdyn
  obtain ⟨c2, -, hdyn⟩ := Lib.bind_eq_ok hdyn
  obtain ⟨c3, -, hdyn⟩ := Lib.bind_eq_ok hdyn
  cases hdyn
  rfl

theorem translateV2p_keeps {f : V2pFlags} {vaddr : Addr} {r : V2pResult} (h : s.translateV2p f vaddr = .ok (t, r)) :
    t.cpu.pc = s.cpu.pc ∧ t.cpu.delaySlot = s.cpu.delaySlot ∧ t.cpu.regs = s.cpu.regs ∧ t.dyn = s.dyn := by
  obtain ⟨x, -, hx⟩ := Lib.bind_eq_ok h
  cases hx
  exact ⟨rfl, rfl, rfl, rfl⟩

theorem arrives_translated {f : V2pFlags} {u : ShMachine} {vaddr physaddr : Addr} {r : V2pResult}
    (hu : s.translateV2p f vaddr = .ok (u, r)) (h : u.pointTo c io physaddr = .ok t) : s.Arrives t := by
  obtain ⟨hpc, hslot, hregs, -⟩ := translateV2p_keeps hu
  obtain ⟨hpc', hslot', hregs', hic⟩ := arrives_pointTo h
  refine ⟨hpc'.trans hpc, hslot'.trans hslot, hregs'.trans hregs, ?_⟩
  rw [hic, cachedPc, hpc]
  rfl

theorem lookupHandler_delaySlot (h : s.lookupHandler c io = .ok t) : t.cpu.delaySlot = s.cpu.delaySlot := by
  unfold lookupHandler at h
  split at h
  · rw [pointTo_cpu h]
  · obtain ⟨⟨u, r⟩, hu, h⟩ := Lib.bind_eq_ok h
    cases r with
    | returned ok paddr => exact (arrives_translated hu h).2.1
    | exception expevt => cases h

theorem quick_delaySlot {generic : ShMachine → Except Exit ShMachine}
    (hg : ∀ t, generic s = .ok t → t.cpu.delaySlot = exceptionInDelaySlot)
    (h : s.quick generic = .ok t) (hs : s.cpu.delaySlot = exceptionInDelaySlot) :
    t.cpu.delaySlot = exceptionInDelaySlot := by
  unfold quick at h
  split at h
  · cases h
    exact hs
  · exact hg t h

theorem pcToPointersGeneric_delaySlot {n : Nat} (h : pcToPointersGeneric c io n s = .ok t)
    (hs : s.cpu.delaySlot = exceptionInDelaySlot) : t.cpu.delaySlot = exceptionInDelaySlot := by
  induction n generalizing s t with
  | zero => cases h
  | succ n ih =>
    rw [pcToPointersGeneric] at h
    split at h
    · rw [pointTo_cpu h, hs]
    · obtain ⟨⟨u, r⟩, hu, h⟩ := Lib.bind_eq_ok h
      cases r with
      | returned ok paddr => rw [(arrives_translated hu h).2.1, hs]
      | exception expevt =>
        obtain ⟨cpu, hcpu, h⟩ := Lib.bind_eq_ok h
        obtain ⟨v, hv, h⟩ := Lib.bind_eq_ok h
        have hraised : cpu.delaySlot = exceptionInDelaySlot := by
          refine ShCpu.shException_delaySlot hcpu ?_
          rw [(translateV2p_keeps hu).2.1, hs]
          decide
        rw [lookupHandler_delaySlot h]
        exact quick_delaySlot (fun t ht => ih ht hraised) hv hraised

theorem pcToPointers_cases (h : s.pcToPointers c io = .ok t) :
    s.Arrives t ∨ s.FetchRaises ∧ (s.cpu.delaySlot ≠ notDelayed → t.cpu.delaySlot = exceptionInDelaySlot) := by
  unfold pcToPointers quick at h
  split at h
  · cases h
    exact .inl ⟨rfl, rfl, rfl, rfl⟩
  · cases hstack : io.stack with
    | zero =>
      rw [hstack] at h
      cases h
    | succ n =>
      rw [hstack, pcToPointersGeneric] at h
      split at h
      · exact .inl (arrives_pointTo h)
      · obtain ⟨⟨u, r⟩, hu, h⟩ := Lib.bind_eq_ok h
        cases r with
        | returned ok paddr => exact .inl (arrives_translated hu h)
        | exception expevt =>
          refine .inr ⟨⟨u, expevt, hu⟩, fun hslot => ?_⟩
          obtain ⟨cpu, hcpu, h⟩ := Lib.bind_eq_ok h
          obtain ⟨v, hv, h⟩ := Lib.bind_eq_ok h
          have hraised := ShCpu.shException_delaySlot hcpu ((translateV2p_keeps hu).2.1.symm ▸ hslot)
          rw [lookupHandler_delaySlot h]
          exact quick_delaySlot (fun t ht => pcToPointersGeneric_delaySlot ht hraised) hv hraised

theorem Arrives.nextPc_eq (h : s.Arrives t) : t.nextPc = s.cpu.pc.setWidth 32 := by
  obtain ⟨hpc, -, -, hic⟩ := h
  rw [nextPc, pageBase, hpc, hic]
  exact pageBase_add_ic _

end ShMachine

/-! ## Delay slots -/

/-- The instructions of a page, and of the next one. In a delay slot they are no branches. -/
structure SlotPage where
  ics : Nat → ShMachine → Except Exit ShMachine
  toBeTranslated : ShMachine → Except Exit ShMachine
  plain : ∀ {i s t}, ics i s = .ok t → s.cpu.delaySlot = toBeDelayed → ¬ t.SlotRaised →
    t.cpu.delaySlot = toBeDelayed ∧ t.pageBase = s.pageBase ∧ t.dyn.nextIc = s.dyn.nextIc
  plainNext : ∀ {s t}, toBeTranslated s = .ok t → s.cpu.delaySlot = toBeDelayed → ¬ t.SlotRaised →
    t.cpu.delaySlot = toBeDelayed ∧ t.cpu.pc.setWidth 32 = s.nextPc

/-- The function in the delay slot of instruction `lowPc`. -/
def SlotPage.slot (page : SlotPage) (c : ShConf) (io : ShIo) (lowPc : Nat) (s : ShMachine) : Except Exit ShMachine :=
  s.callNext lowPc c io page.ics page.toBeTranslated

namespace ShMachine
variable {c : ShConf} {io : ShIo} {s t u : ShMachine} {k : Nat} {j : Jump} {addr : Word}
  {slot : ShMachine → Except Exit ShMachine}

/-- The delay slot of instruction `k` has been executed. -/
def SlotDone (k : Nat) (s t : ShMachine) : Prop :=
  t.nextPc = s.instrPc k + 2#32 ∧ (k + 1 < Arch.sh.icEntriesPerPage → t.pageBase = s.pageBase)

theorem nextPc_of_nextIc (h : s.dyn.nextIc = k + 1) : s.nextPc = s.instrPc k + 2#32 := by
  rw [nextPc, instrPc, h, Nat.mul_add, BitVec.ofNat_add, ← BitVec.add_assoc]

theorem delaySlot_setPc (pc : Addr) : (s.setPc pc).cpu.delaySlot = s.cpu.delaySlot := rfl

theorem pc_setPc (pc : Addr) : (s.setPc pc).cpu.pc = pc := rfl

theorem pcToPointers_inSlot (h : s.pcToPointers c io = .ok t) (hs : s.cpu.delaySlot = toBeDelayed) :
    s.Arrives t ∧ t.cpu.delaySlot = toBeDelayed ∨ t.cpu.delaySlot = exceptionInDelaySlot := by
  obtain harrives | ⟨-, hraised⟩ := pcToPointers_cases h
  · exact .inl ⟨harrives, harrives.2.1.trans hs⟩
  · refine .inr (hraised ?_)
    rw [hs]
    decide

theorem pcToPointers_slotRaised (h : s.pcToPointers c io = .ok t) (hs : s.SlotRaised) : t.SlotRaised := by
  obtain harrives | ⟨-, hraised⟩ := pcToPointers_cases h
  · rwa [SlotRaised, harrives.2.1]
  · have hexc : t.cpu.delaySlot = exceptionInDelaySlot := by
      refine hraised fun hnot => ?_
      rw [SlotRaised, hnot] at hs
      cases hs
    rw [SlotRaised, hexc]
    decide

theorem endOfPage_done {page : SlotPage} (hk : k + 1 = Arch.sh.icEntriesPerPage)
    (hs : s.cpu.delaySlot = toBeDelayed) (h : s.endOfPage c io page.toBeTranslated = .ok t) (ht : ¬ t.SlotRaised) :
    t.cpu.delaySlot = toBeDelayed ∧ t.nextPc = s.instrPc k + 2#32 := by
  have hraises : ∀ {v : ShMachine}, v.cpu.delaySlot = exceptionInDelaySlot → v.SlotRaised := by
    intro v hv
    rw [SlotRaised, hv]
    decide
  obtain ⟨u, hu, h⟩ := Lib.bind_eq_ok h
  obtain ⟨harrives, hslot⟩ | hexc := pcToPointers_inSlot hu (by rw [delaySlot_setPc, hs])
  · have hne : ¬ (u.cpu.delaySlot = notDelayed ∨ u.cpu.delaySlot = exceptionInDelaySlot) := by
      rw [hslot]
      decide
    rw [if_neg hne] at h
    obtain ⟨v, hv, h⟩ := Lib.bind_eq_ok h
    have hv' : ¬ v.SlotRaised := fun hraised => ht (pcToPointers_slotRaised h hraised)
    obtain ⟨hvslot, hvpc⟩ := page.plainNext hv hslot hv'
    obtain ⟨harrives', htslot⟩ | hexc := pcToPointers_inSlot h hvslot
    · refine ⟨htslot, ?_⟩
      rw [harrives'.nextPc_eq, hvpc, harrives.nextPc_eq, pc_setPc, instrPc]
      have hlast : k = 2047 := by
        have hentries : Arch.sh.icEntriesPerPage = 2048 := rfl
        omega
      rw [hlast, BitVec.setWidth_add _ _ (by omega), BitVec.add_assoc]
      rfl
    · exact absurd (hraises hexc) ht
  · rw [if_pos (.inr hexc)] at h
    cases h
    exact absurd (hraises hexc) ht

theorem slot_done {page : SlotPage} (hk : k < Arch.sh.icEntriesPerPage) (hic : s.dyn.nextIc = k + 1)
    (hs : s.cpu.delaySlot = toBeDelayed) (h : page.slot c io k s = .ok t) (ht : ¬ t.SlotRaised) :
    t.cpu.delaySlot = toBeDelayed ∧ SlotDone k s t := by
  unfold SlotPage.slot callNext at h
  split at h
  · obtain ⟨hslot, hpage, hnext⟩ := page.plain h hs ht
    refine ⟨hslot, ?_, fun _ => hpage⟩
    rw [nextPc_of_nextIc (hnext.trans hic), instrPc, hpage]
    rfl
  next hlast =>
    obtain ⟨hslot, hnext⟩ := @endOfPage_done c io s t k page (by omega) hs h ht
    exact ⟨hslot, hnext, fun hlt => absurd hlt hlast⟩

/-! ## Jumps -/

/-- After the delay slot of instruction `k`, the jump is to `addr`. -/
def Lands (s : ShMachine) (k : Nat) (j : Jump) (addr : Word) : Prop := ∀ t, SlotDone k s t → j.address t = some addr

theorem lands_toTarget : s.Lands k (toTarget addr) addr := by
  intro t _
  rw [toTarget, Jump.address, setWidth_signExtend]

theorem lands_skip : s.Lands k .skip (s.instrPc k + 4#32) := by
  intro t ht
  rw [Jump.address, ht.1, BitVec.add_assoc]
  rfl

theorem lands_toIc {ic : Nat} (hk : k + 1 < Arch.sh.icEntriesPerPage) :
    s.Lands k (.toIc ic) (s.pageBase.setWidth 32 + BitVec.ofNat 32 (2 * ic)) := by
  intro t ht
  rw [Jump.address, ht.2 hk]

theorem leave_arrives (ha : j.address s = some addr) (h : s.leave c io j = .ok u) :
    u.nextPc = addr ∨ ∃ pc, j = .toPc pc ∧ (s.setPc pc).FetchRaises := by
  cases j with
  | next =>
    cases h
    exact .inl (Option.some.inj ha)
  | skip =>
    cases h
    refine .inl (Eq.trans ?_ (Option.some.inj ha))
    rw [nextPc, nextPc, BitVec.add_assoc]
    rw [Nat.mul_add, BitVec.ofNat_add]
    rfl
  | toIc ic =>
    cases h
    exact .inl (Option.some.inj ha)
  | toPc pc =>
    obtain harrives | ⟨hraises, -⟩ := pcToPointers_cases h
    · exact .inl (harrives.nextPc_eq.trans (Option.some.inj ha))
    · exact .inr ⟨pc, rfl, hraises⟩
  | cancelled => cases ha

/-! ## Functions -/

theorem delayed_done {f : ShMachine → ShMachine × Jump} (h : slot (s.setDelaySlot toBeDelayed) = .ok t)
    (ht : ¬ t.SlotRaised) : s.delayed slot f = .ok (f (t.setDelaySlot notDelayed)) := by
  unfold delayed
  rw [h]
  exact congrArg Except.ok (if_neg ht)

theorem delayed_only {f : ShMachine → ShMachine × Jump} (h : s.delayed slot f = .ok (u, j)) :
    j = .cancelled ∨ ∃ t, slot (s.setDelaySlot toBeDelayed) = .ok t ∧ ¬ t.SlotRaised := by
  obtain ⟨t, ht, h⟩ := Lib.bind_eq_ok h
  by_cases hraised : t.SlotRaised
  · rw [SlotRaised] at hraised
    rw [if_pos hraised] at h
    cases h
    exact .inl rfl
  · exact .inr ⟨t, ht, hraised⟩

theorem pc_synchPc (k : Nat) : (s.synchPc k).cpu.pc.setWidth 32 = s.instrPc k := by
  have hoffset : (BitVec.ofNat 64 k <<< 1).setWidth 32 = BitVec.ofNat 32 (2 * k) := by
    apply BitVec.eq_of_toNat_eq
    rw [BitVec.toNat_setWidth, BitVec.toNat_shiftLeft, BitVec.toNat_ofNat, BitVec.toNat_ofNat, Nat.shiftLeft_eq]
    omega
  have hpc : (s.synchPc k).cpu.pc = s.pageBase + BitVec.ofNat 64 k <<< 1 := rfl
  rw [hpc, BitVec.setWidth_add _ _ (by omega), hoffset, instrPc]

theorem pageBase_synchPc (hk : k < Arch.sh.icEntriesPerPage) : (s.synchPc k).pageBase = s.pageBase := by
  have hmask : ∀ i, i < 64 → (0xffe#64).getLsbD i = decide (1 ≤ i ∧ i < 12) := by decide
  have hoffset : ∀ i, i < 64 → (BitVec.ofNat 64 k <<< 1).getLsbD i = true → 1 ≤ i ∧ i < 12 := by
    intro i hi hbit
    have hlt : k < 2 ^ 11 := hk
    rw [BitVec.getLsbD_shiftLeft, BitVec.getLsbD_ofNat] at hbit
    simp only [Bool.and_eq_true, Bool.not_eq_true', decide_eq_true_eq, decide_eq_false_iff_not] at hbit
    refine ⟨by omega, ?_⟩
    by_contra hge
    have hsmall : k < 2 ^ (i - 1) := lt_of_lt_of_le hlt (Nat.pow_le_pow_right (by omega) (by omega))
    have hzero := Nat.testBit_lt_two_pow hsmall
    rw [hzero] at hbit
    exact absurd hbit.2.2 (by decide)
  have hdisjoint : s.pageBase &&& BitVec.ofNat 64 k <<< 1 = 0#64 := by
    apply BitVec.eq_of_getLsbD_eq
    intro i hi
    rw [BitVec.getLsbD_and, pageBase, BitVec.getLsbD_and, BitVec.getLsbD_not, hmask i hi]
    grind
  have hpc : (s.synchPc k).cpu.pc = s.pageBase + BitVec.ofNat 64 k <<< 1 := rfl
  apply BitVec.eq_of_getLsbD_eq
  intro i hi
  rw [pageBase, hpc, BitVec.add_eq_or_of_and_eq_zero _ _ hdisjoint, BitVec.getLsbD_and, BitVec.getLsbD_or, pageBase,
    BitVec.getLsbD_and, BitVec.getLsbD_not, hmask i hi]
  grind

end ShMachine

end Gxemul.Sh
