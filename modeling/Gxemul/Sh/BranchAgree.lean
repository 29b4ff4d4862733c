import Gxemul.Sh.BranchSlot
import Gxemul.Sh.Pairs

/- SuperH branches, against the architecture: where execution goes on, and the state that
   it goes on in.

   The reference has the address of the instruction, and for a call it sets PR before the
   instruction in the delay slot. The emulator sets PR afterwards. -/
namespace Gxemul.Sh

/-! ## The reference -/

inductive BranchInstr where
  | bt (disp : BitVec 8)
  | bf (disp : BitVec 8)
  | btS (disp : BitVec 8)
  | bfS (disp : BitVec 8)
  | bra (disp : BitVec 12)
  | bsr (disp : BitVec 12)
  | braf (n : BitVec 4)
  | bsrf (n : BitVec 4)
  | jmp (n : BitVec 4)
  | jsr (n : BitVec 4)
  | rts

namespace BranchInstr

def iword : BranchInstr → BitVec 16
  | .bt disp => 0x89#8 ++ disp
  | .bf disp => 0x8b#8 ++ disp
  | .btS disp => 0x8d#8 ++ disp
  | .bfS disp => 0x8f#8 ++ disp
  | .bra disp => 0xa#4 ++ disp
  | .bsr disp => 0xb#4 ++ disp
  | .braf n => 0x0#4 ++ n ++ 0x23#8
  | .bsrf n => 0x0#4 ++ n ++ 0x03#8
  | .jmp n => 0x4#4 ++ n ++ 0x2b#8
  | .jsr n => 0x4#4 ++ n ++ 0x0b#8
  | .rts => 0x000b#16

/-- The address that a branch at `pc` is to, with the registers before it. -/
def target (r : Regs) (pc : Word) : BranchInstr → Word
  | .bt disp | .bf disp | .btS disp | .bfS disp => pc + 4#32 + disp.signExtend 32 * 2#32
  | .bra disp | .bsr disp => pc + 4#32 + disp.signExtend 32 * 2#32
  | .braf n | .bsrf n => pc + 4#32 + r (.r n)
  | .jmp n | .jsr n => r (.r n)
  | .rts => r .pr

def taken (r : Regs) : BranchInstr → Bool
  | .bt _ | .btS _ => (r .sr).getLsbD 0
  | .bf _ | .bfS _ => !(r .sr).getLsbD 0
  | _ => true

def hasDelaySlot : BranchInstr → Bool
  | .bt _ | .bf _ => false
  | _ => true

def links : BranchInstr → Bool
  | .bsr _ | .bsrf _ | .jsr _ => true
  | _ => false

def nextAddr (r : Regs) (pc : Word) (i : BranchInstr) : Word :=
  if i.taken r then i.target r pc else if i.hasDelaySlot then pc + 4#32 else pc + 2#32

end BranchInstr

/-! ## Offsets -/

section
variable {addr : Word}

theorem samepage_cases {ofs : Addr} {y : Word} {g : BranchCall} {f : Nat → BranchCall}
    (hofs : ofs.setWidth 32 = 2#32 * y) :
    samepage addr ofs g f = g ∨ ∃ ic, samepage addr ofs g f = f ic ∧ BitVec.ofNat 32 (2 * ic) = ofs.setWidth 32 ∧
      Arch.sh.pcToIcEntry (addr.setWidth 64) + 1 < Arch.sh.icEntriesPerPage := by
  unfold samepage
  split
  next h =>
    refine .inr ⟨_, rfl, ?_, ?_⟩
    · have heven : ofs.toNat % 2 = 0 := by
        have hnat := congrArg BitVec.toNat hofs
        rw [BitVec.toNat_setWidth, BitVec.toNat_mul] at hnat
        have hmod := congrArg (· % 2) hnat
        simp only [BitVec.toNat_ofNat] at hmod
        omega
      have hback : 2 * (ofs >>> Arch.sh.instrAlignmentShift).toNat = ofs.toNat := by
        have hshift : Arch.sh.instrAlignmentShift = 1 := rfl
        rw [hshift, BitVec.toNat_ushiftRight, Nat.shiftRight_eq_div_pow]
        omega
      rw [hback]
      rfl
    · have hlow : addr.toNat % 2 ^ 12 < 4094 := by
        have hlt := h.2
        rw [BitVec.lt_def, BitVec.toNat_and] at hlt
        exact lt_of_eq_of_lt (Nat.and_two_pow_sub_one_eq_mod addr.toNat 12).symm hlt
      have hentries : Arch.sh.icEntriesPerPage = 2048 := rfl
      rw [pcToIcEntry_eq, hentries]
      omega
  next => exact .inl rfl

theorem displacement8_eq (disp : BitVec 8) :
    (displacement8 addr disp).setWidth 32 = pageOffset addr + 4#32 + disp.signExtend 32 * 2#32 := by
  unfold displacement8
  rw [BitVec.setWidth_setWidth_of_le _ (by omega), BitVec.setWidth_eq]
  ac_rfl

theorem shifted_disp (x : BitVec 16) :
    (((x &&& 0xfff#16) <<< 4).signExtend 32).sshiftRight 3 = (x.setWidth 12).signExtend 32 <<< 1 := by
  have hmask : ∀ (j : Nat) (hj : j < 16), (0xfff#16)[j] = decide (j < 12) := by decide
  ext i hi
  rw [BitVec.getElem_sshiftRight, BitVec.getElem_shiftLeft]
  simp [BitVec.msb_eq_getLsbD_last, BitVec.getElem_signExtend]
  grind

theorem displacement12_eq (op : BitVec 4) (disp : BitVec 12) :
    (displacement12 addr (op ++ disp)).setWidth 32 = pageOffset addr + 4#32 + disp.signExtend 32 * 2#32 := by
  have hdisp : (op ++ disp).setWidth 12 = disp := BitVec.setWidth_append_eq_right
  unfold displacement12
  rw [setWidth_signExtend, shifted_disp, hdisp, BitVec.shiftLeft_eq_mul_twoPow]
  rfl

end

/-! ## Branches -/

namespace BranchInstr
variable (i : BranchInstr) (k : Nat) (s : ShMachine)

def slotState : ShMachine :=
  match i with
  | .bsr _ | .bsrf _ => (s.synchPc k).setDelaySlot toBeDelayed
  | _ => s.setDelaySlot toBeDelayed

/-- PR, as a call at instruction `k` sets it. -/
def link (t : ShMachine) : ShMachine := if i.links then t.setReg .pr (s.instrPc k + 4#32) else t

/-- The function for a branch calls the delay slot, sets PR and leaves with `j`. -/
structure Delays (slot : ShMachine → Except Exit ShMachine) (call : BranchCall) (j : Jump) : Prop where
  done : ∀ {t}, slot (i.slotState k s) = .ok t → ¬ t.SlotRaised →
    s.branch slot k call = .ok (i.link k s (t.setDelaySlot notDelayed), j)
  only : ∀ {u j'}, s.branch slot k call = .ok (u, j') →
    j' = .cancelled ∨ ∃ t, slot (i.slotState k s) = .ok t ∧ ¬ t.SlotRaised

variable {i k s} {slot : ShMachine → Except Exit ShMachine} {call : BranchCall} {j : Jump} {addr : Word} {trace : Bool}

theorem delays_of_delayed (hlinks : i.links = false) (hs : i.slotState k s = s.setDelaySlot toBeDelayed)
    (h : s.branch slot k call = s.delayed slot fun t => (t, j)) : i.Delays k s slot call j where
  done ht hexc := by
    rw [hs] at ht
    rw [h, ShMachine.delayed_done ht hexc, link, hlinks]
    rfl
  only hu := by
    rw [h] at hu
    rw [hs]
    exact ShMachine.delayed_only hu

theorem delays_of_linked (hlinks : i.links = true) (hs : i.slotState k s = (s.synchPc k).setDelaySlot toBeDelayed)
    (h : s.branch slot k call = s.linked slot k j) : i.Delays k s slot call j where
  done ht hexc := by
    rw [hs] at ht
    rw [h, ShMachine.linked, ShMachine.delayed_done ht hexc, link, if_pos hlinks, ShMachine.pc_synchPc]
  only hu := by
    rw [h, ShMachine.linked] at hu
    rw [hs]
    exact ShMachine.delayed_only hu

theorem delays_jsr {n : BitVec 4} {ofs : Addr} (hofs : s.pageTarget ofs = s.instrPc k + 4#32)
    (h : s.branch slot k call = s.jsrRn slot n ofs) :
    (BranchInstr.jsr n).Delays k s slot call (ShMachine.toTarget (s.reg (.r n))) where
  done ht hexc := by
    rw [h, ShMachine.jsrRn, ShMachine.delayed_done ht hexc, hofs]
    rfl
  only hu := by
    rw [h] at hu
    obtain ⟨⟨t, j'⟩, ht, hu⟩ := Lib.bind_eq_ok hu
    cases hu
    exact ShMachine.delayed_only ht

theorem lands_conditional {taken : Bool} {target : Word} (h : s.Lands k j target) :
    s.Lands k (if taken then j else .skip) (if taken then target else s.instrPc k + 4#32) := by
  cases taken with
  | true => exact h
  | false => exact ShMachine.lands_skip

/-! The words of the branches, and the offsets of their targets. -/

section
variable {ofs : Addr} {y : Word}

theorem instrPc_eq (h : k = Arch.sh.pcToIcEntry (addr.setWidth 64)) :
    s.instrPc k = s.pageBase.setWidth 32 + pageOffset addr := by
  rw [ShMachine.instrPc, h, pageOffset_eq]

theorem pageTarget_eq (hk : k = Arch.sh.pcToIcEntry (addr.setWidth 64))
    (hofs : ofs.setWidth 32 = pageOffset addr + 4#32 + y) : s.pageTarget ofs = s.instrPc k + 4#32 + y := by
  rw [ShMachine.pageTarget, hofs, instrPc_eq hk]
  ac_rfl

theorem ofs_even {disp : Word} (hofs : ofs.setWidth 32 = pageOffset addr + 4#32 + disp * 2#32) :
    ∃ y, ofs.setWidth 32 = 2#32 * y := by
  refine ⟨BitVec.ofNat 32 (Arch.sh.pcToIcEntry (addr.setWidth 64)) + 2#32 + disp, ?_⟩
  rw [hofs, pageOffset_eq, BitVec.ofNat_mul]
  grind

theorem samepage_lands {disp : Word} {g : BranchCall} {f : Nat → BranchCall}
    (hk : k = Arch.sh.pcToIcEntry (addr.setWidth 64)) (hofs : ofs.setWidth 32 = pageOffset addr + 4#32 + disp * 2#32) :
    (samepage addr ofs g f = g ∧ ∀ s : ShMachine, s.pageTarget ofs = s.instrPc k + 4#32 + disp * 2#32) ∨
      ∃ ic, samepage addr ofs g f = f ic ∧ ∀ s : ShMachine, s.Lands k (.toIc ic) (s.instrPc k + 4#32 + disp * 2#32) := by
  have htarget : ∀ s : ShMachine, s.pageTarget ofs = s.instrPc k + 4#32 + disp * 2#32 := fun s => pageTarget_eq hk hofs
  obtain ⟨y, hy⟩ := ofs_even hofs
  obtain hcall | ⟨ic, hcall, hic, hlt⟩ := samepage_cases hy
  · exact .inl ⟨hcall, htarget⟩
  · refine .inr ⟨ic, hcall, fun s => ?_⟩
    have hlands := @ShMachine.lands_toIc s k ic (hk ▸ hlt)
    rw [hic] at hlands
    exact htarget s ▸ hlands

theorem extract_op8 (op disp : BitVec 8) : (op ++ disp).extractLsb' 12 4 = op.extractLsb' 4 4 ∧
    (op ++ disp).extractLsb' 8 4 = op.extractLsb' 0 4 ∧ (op ++ disp).extractLsb' 0 8 = disp :=
  ⟨BitVec.extractLsb'_append_eq_of_le (by omega), BitVec.extractLsb'_append_eq_of_le (by omega),
    BitVec.extractLsb'_append_eq_right⟩

theorem extract_n (op n : BitVec 4) (lo : BitVec 8) : (op ++ n ++ lo).extractLsb' 12 4 = op ∧
    (op ++ n ++ lo).extractLsb' 8 4 = n ∧ (op ++ n ++ lo).extractLsb' 0 8 = lo := by
  refine ⟨?_, ?_, BitVec.extractLsb'_append_eq_right⟩
  · rw [BitVec.extractLsb'_append_eq_of_le (by omega)]
    exact BitVec.extractLsb'_append_eq_left
  · rw [BitVec.extractLsb'_append_eq_of_le (by omega)]
    exact BitVec.extractLsb'_append_eq_right

theorem translate_conditional (disp : BitVec 8) :
    translateBranch trace addr (BranchInstr.bt disp).iword =
        some (samepage addr (displacement8 addr disp) (.bt (displacement8 addr disp)) .btSamepage) ∧
      translateBranch trace addr (BranchInstr.bf disp).iword =
        some (samepage addr (displacement8 addr disp) (.bf (displacement8 addr disp)) .bfSamepage) ∧
      translateBranch trace addr (BranchInstr.btS disp).iword =
        some (samepage addr (displacement8 addr disp) (.btS (displacement8 addr disp)) .btSSamepage) ∧
      translateBranch trace addr (BranchInstr.bfS disp).iword =
        some (samepage addr (displacement8 addr disp) (.bfS (displacement8 addr disp)) .bfSSamepage) := by
  have h : ∀ op : BitVec 8, op.extractLsb' 4 4 = 0x8#4 → translateBranch trace addr (op ++ disp) =
      let ofs := displacement8 addr disp
      let r8 := op.extractLsb' 0 4
      if r8 = 0x9#4 then some (samepage addr ofs (.bt ofs) .btSamepage)
      else if r8 = 0xb#4 then some (samepage addr ofs (.bf ofs) .bfSamepage)
      else if r8 = 0xd#4 then some (samepage addr ofs (.btS ofs) .btSSamepage)
      else if r8 = 0xf#4 then some (samepage addr ofs (.bfS ofs) .bfSSamepage)
      else none := by
    intro op hop
    obtain ⟨hmain, hr8, hlo8⟩ := extract_op8 op disp
    simp only [translateBranch, hmain, hop, hr8, hlo8]
  exact ⟨h 0x89#8 rfl, h 0x8b#8 rfl, h 0x8d#8 rfl, h 0x8f#8 rfl⟩

theorem translate_n (n : BitVec 4) :
    translateBranch trace addr (BranchInstr.braf n).iword =
        some (.brafRn ((pageOffset addr + 4#32).signExtend 64) n) ∧
      translateBranch trace addr (BranchInstr.bsrf n).iword =
        some (if trace then .bsrfRnTrace ((pageOffset addr + 4#32).signExtend 64) n
          else .bsrfRn ((pageOffset addr + 4#32).signExtend 64) n) ∧
      translateBranch trace addr (BranchInstr.jmp n).iword = some (if trace then .jmpRnTrace n else .jmpRn n) ∧
      translateBranch trace addr (BranchInstr.jsr n).iword =
        some (if trace then .jsrRnTrace n (((addr &&& 0xffe#32) + 4#32).setWidth 64)
          else .jsrRn n (((addr &&& 0xffe#32) + 4#32).setWidth 64)) := by
  have hrts : ∀ lo : BitVec 8, lo ≠ 0x0b#8 → 0x0#4 ++ n ++ lo ≠ 0x000b#16 := by
    intro lo hne heq
    have hlo := (extract_n 0x0#4 n lo).2.2
    rw [heq] at hlo
    exact hne hlo.symm
  refine ⟨?_, ?_, ?_, ?_⟩
  · obtain ⟨hmain, hr8, hlo8⟩ := extract_n 0x0#4 n 0x23#8
    simp only [translateBranch, iword, hmain, hr8, hlo8, if_neg (hrts 0x23#8 (by decide))]
    rfl
  · obtain ⟨hmain, hr8, hlo8⟩ := extract_n 0x0#4 n 0x03#8
    simp only [translateBranch, iword, hmain, hr8, hlo8, if_neg (hrts 0x03#8 (by decide))]
    rfl
  · obtain ⟨hmain, hr8, hlo8⟩ := extract_n 0x4#4 n 0x2b#8
    simp only [translateBranch, iword, hmain, hr8, hlo8]
    rfl
  · obtain ⟨hmain, hr8, hlo8⟩ := extract_n 0x4#4 n 0x0b#8
    simp only [translateBranch, iword, hmain, hr8, hlo8]
    rfl

theorem translate_displacement12 (disp : BitVec 12) :
    translateBranch trace addr (BranchInstr.bra disp).iword =
        some (samepage addr (displacement12 addr (0xa#4 ++ disp)) (.bra (displacement12 addr (0xa#4 ++ disp)))
          .braSamepage) ∧
      translateBranch trace addr (BranchInstr.bsr disp).iword =
        if trace then some (.bsrTrace (displacement12 addr (0xb#4 ++ disp)))
        else some (samepage addr (displacement12 addr (0xb#4 ++ disp)) (.bsr (displacement12 addr (0xb#4 ++ disp)))
          .bsrSamepage) := by
  refine ⟨?_, ?_⟩ <;>
  · unfold translateBranch iword
    have hmain : ∀ op : BitVec 4, (op ++ disp).extractLsb' 12 4 = op := fun op => BitVec.extractLsb'_append_eq_left
    simp only [hmain]

theorem translate_rts : translateBranch trace addr BranchInstr.rts.iword = some (if trace then .rtsTrace else .rts) :=
  rfl

end

/-! Where the functions leave for. -/

theorem tBit_eq : s.tBit = (s.cpu.regs .sr).getLsbD 0 :=
  @anyBit_twoPow (s.cpu.regs .sr) 0 (by omega)

def Conditional (k : Nat) (i : BranchInstr) (call : BranchCall) : Prop :=
  ∀ (slot : ShMachine → Except Exit ShMachine) (s : ShMachine), s.dyn.nextIc = k + 1 →
    ∃ j, s.branch slot k call = .ok (s, j) ∧ j.address s = some (i.nextAddr s.cpu.regs (s.instrPc k))

def Delayed (k : Nat) (i : BranchInstr) (call : BranchCall) : Prop :=
  ∀ (slot : ShMachine → Except Exit ShMachine) (s : ShMachine),
    ∃ j, i.Delays k s slot call j ∧ s.Lands k j (i.nextAddr s.cpu.regs (s.instrPc k))

theorem address_conditional {taken : Bool} {target : Word} (hic : s.dyn.nextIc = k + 1)
    (h : j.address s = some target) :
    (if taken then j else .next).address s = some (if taken then target else s.instrPc k + 2#32) := by
  cases taken with
  | true => exact h
  | false => exact congrArg some (ShMachine.nextPc_of_nextIc hic)

theorem address_toOffset : (s.toOffset ofs).address s = some (s.pageTarget ofs) := by
  rw [ShMachine.toOffset, Jump.address, ShMachine.pageTarget, BitVec.setWidth_add _ _ (by omega)]

theorem slotDone_self (hic : s.dyn.nextIc = k + 1) : ShMachine.SlotDone k s s :=
  ⟨ShMachine.nextPc_of_nextIc hic, fun _ => rfl⟩

theorem translateBranch_conditional (hi : i.hasDelaySlot = false) (hk : k = Arch.sh.pcToIcEntry (addr.setWidth 64)) :
    ∃ call, translateBranch trace addr i.iword = some call ∧ Conditional k i call := by
  cases i with
  | bt disp =>
    refine ⟨_, (translate_conditional disp).1, fun slot s hic => ?_⟩
    obtain ⟨hcall, htarget⟩ | ⟨ic, hcall, hlands⟩ := samepage_lands hk (displacement8_eq disp)
    · rw [hcall]
      refine ⟨_, rfl, ?_⟩
      rw [tBit_eq]
      exact address_conditional hic (address_toOffset.trans (congrArg some (htarget s)))
    · rw [hcall]
      refine ⟨_, rfl, ?_⟩
      rw [tBit_eq]
      exact address_conditional hic (hlands s s (slotDone_self hic))
  | bf disp =>
    refine ⟨_, (translate_conditional disp).2.1, fun slot s hic => ?_⟩
    obtain ⟨hcall, htarget⟩ | ⟨ic, hcall, hlands⟩ := samepage_lands hk (displacement8_eq disp)
    · rw [hcall]
      refine ⟨_, rfl, ?_⟩
      rw [tBit_eq]
      exact address_conditional hic (address_toOffset.trans (congrArg some (htarget s)))
    · rw [hcall]
      refine ⟨_, rfl, ?_⟩
      rw [tBit_eq]
      exact address_conditional hic (hlands s s (slotDone_self hic))
  | _ => cases hi

theorem pageTarget_reg (n : BitVec 4) (hk : k = Arch.sh.pcToIcEntry (addr.setWidth 64)) :
    s.pageTarget ((pageOffset addr + 4#32).signExtend 64 + (s.reg (.r n)).setWidth 64) =
      s.instrPc k + 4#32 + s.cpu.regs (.r n) := by
  refine pageTarget_eq hk ?_
  rw [BitVec.setWidth_add _ _ (by omega), setWidth_signExtend, BitVec.setWidth_setWidth_of_le _ (by omega),
    BitVec.setWidth_eq]
  rfl

theorem pageTarget_jsr (hk : k = Arch.sh.pcToIcEntry (addr.setWidth 64)) :
    s.pageTarget (((addr &&& 0xffe#32) + 4#32).setWidth 64) = s.instrPc k + 4#32 := by
  have hofs : (((addr &&& 0xffe#32) + 4#32).setWidth 64).setWidth 32 = pageOffset addr + 4#32 + 0#32 := by
    rw [BitVec.setWidth_setWidth_of_le _ (by omega), BitVec.setWidth_eq, BitVec.add_zero, pageOffset, BitVec.and_assoc]
    rfl
  exact (pageTarget_eq hk hofs).trans (BitVec.add_zero _)

theorem translateBranch_delayed (hi : i.hasDelaySlot = true) (hk : k = Arch.sh.pcToIcEntry (addr.setWidth 64)) :
    ∃ call, translateBranch trace addr i.iword = some call ∧ Delayed k i call := by
  have hto : ∀ {s : ShMachine} {a b : Word}, a = b → s.Lands k (ShMachine.toTarget a) b :=
    fun h => h ▸ ShMachine.lands_toTarget
  cases i with
  | bt disp => cases hi
  | bf disp => cases hi
  | btS disp =>
    refine ⟨_, (translate_conditional disp).2.2.1, fun slot s => ?_⟩
    obtain ⟨hcall, htarget⟩ | ⟨ic, hcall, hlands⟩ := samepage_lands hk (displacement8_eq disp)
    · rw [hcall]
      refine ⟨_, delays_of_delayed rfl rfl rfl, ?_⟩
      rw [tBit_eq]
      exact lands_conditional (hto (htarget s))
    · rw [hcall]
      refine ⟨_, delays_of_delayed rfl rfl rfl, ?_⟩
      rw [tBit_eq]
      exact lands_conditional (hlands s)
  | bfS disp =>
    refine ⟨_, (translate_conditional disp).2.2.2, fun slot s => ?_⟩
    obtain ⟨hcall, htarget⟩ | ⟨ic, hcall, hlands⟩ := samepage_lands hk (displacement8_eq disp)
    · rw [hcall]
      refine ⟨_, delays_of_delayed rfl rfl rfl, ?_⟩
      rw [tBit_eq]
      exact lands_conditional (hto (htarget s))
    · rw [hcall]
      refine ⟨_, delays_of_delayed rfl rfl rfl, ?_⟩
      rw [tBit_eq]
      exact lands_conditional (hlands s)
  | bra disp =>
    refine ⟨_, (translate_displacement12 disp).1, fun slot s => ?_⟩
    obtain ⟨hcall, htarget⟩ | ⟨ic, hcall, hlands⟩ := samepage_lands hk (displacement12_eq 0xa#4 disp)
    · rw [hcall]
      exact ⟨_, delays_of_delayed rfl rfl rfl, hto (htarget s)⟩
    · rw [hcall]
      exact ⟨_, delays_of_delayed rfl rfl rfl, hlands s⟩
  | bsr disp =>
    have htranslate := (@translate_displacement12 addr trace disp).2
    obtain ⟨hcall, htarget⟩ | ⟨ic, hcall, hlands⟩ := samepage_lands hk (displacement12_eq 0xb#4 disp)
    · cases trace with
      | true => exact ⟨_, htranslate, fun slot s => ⟨_, delays_of_linked rfl rfl rfl, hto (htarget s)⟩⟩
      | false => exact ⟨_, htranslate.trans (congrArg some hcall), fun slot s =>
          ⟨_, delays_of_linked rfl rfl rfl, hto (htarget s)⟩⟩
    · cases trace with
      | true => exact ⟨_, htranslate, fun slot s => ⟨_, delays_of_linked rfl rfl rfl,
          hto (pageTarget_eq hk (displacement12_eq 0xb#4 disp))⟩⟩
      | false => exact ⟨_, htranslate.trans (congrArg some hcall), fun slot s =>
          ⟨_, delays_of_linked rfl rfl rfl, hlands s⟩⟩
  | braf n =>
    exact ⟨_, (translate_n n).1, fun slot s => ⟨_, delays_of_delayed rfl rfl rfl, hto (pageTarget_reg n hk)⟩⟩
  | bsrf n =>
    refine ⟨_, (translate_n n).2.1, fun slot s => ?_⟩
    cases trace <;> exact ⟨_, delays_of_linked rfl rfl rfl, hto (pageTarget_reg n hk)⟩
  | jmp n =>
    refine ⟨_, (translate_n n).2.2.1, fun slot s => ?_⟩
    cases trace <;> exact ⟨_, delays_of_delayed rfl rfl rfl, hto rfl⟩
  | jsr n =>
    refine ⟨_, (translate_n n).2.2.2, fun slot s => ?_⟩
    cases trace <;> exact ⟨_, delays_jsr (pageTarget_jsr hk) rfl, hto rfl⟩
  | rts =>
    refine ⟨_, translate_rts, fun slot s => ?_⟩
    cases trace <;> exact ⟨_, delays_of_delayed rfl rfl rfl, hto rfl⟩

/-! ## The emulator and the architecture -/

variable (c : ShConf) (io : ShIo) (page : SlotPage)

/-- Execution goes on at `addr`. -/
def Continues (t : ShMachine) (j : Jump) (addr : Word) : Prop :=
  j.address t = some addr ∧ ∀ u, t.leave c io j = .ok u → u.nextPc = addr ∨ ∃ pc, j = .toPc pc ∧ (t.setPc pc).FetchRaises

variable (i k s call)

/-- The state in which the architecture executes the delay slot: a call has set PR. -/
def entered : ShMachine := i.link k s (i.slotState k s)

/-- The function for a branch does what the architecture says: the instruction in its delay slot is
executed, and when it causes no exception execution goes on where the branch says. -/
def Matches : Prop :=
  if i.hasDelaySlot then
    ∀ t, page.slot c io k (i.entered k s) = .ok t → ¬ t.SlotRaised →
      ∃ j, s.branch (page.slot c io k) k call = .ok (t.setDelaySlot notDelayed, j) ∧
        Continues c io (t.setDelaySlot notDelayed) j (i.nextAddr s.cpu.regs (s.instrPc k))
  else
    ∃ j, s.branch (page.slot c io k) k call = .ok (s, j) ∧ Continues c io s j (i.nextAddr s.cpu.regs (s.instrPc k))

/-- The instruction in the delay slot does with the old PR what it does with the new one, and leaves it alone. -/
def SlotIgnoresPr : Prop :=
  ∀ t, page.slot c io k (i.entered k s) = .ok t → ¬ t.SlotRaised →
    ∃ t', page.slot c io k (i.slotState k s) = .ok t' ∧ ¬ t'.SlotRaised ∧ i.link k s t' = t

variable {c io page i k s call}

theorem setDelaySlot_inj {t u : ShMachine} {d : Nat} (hslot : t.cpu.delaySlot = u.cpu.delaySlot)
    (h : t.setDelaySlot d = u.setDelaySlot d) : t = u := by
  have hback : ∀ v : ShMachine, (v.setDelaySlot d).setDelaySlot v.cpu.delaySlot = v := fun _ => rfl
  rw [← hback t, h, hslot, hback]

theorem hasDelaySlot_of_links (h : i.links = true) : i.hasDelaySlot = true := by
  cases i <;> first | rfl | cases h

theorem continues_of_address {t : ShMachine} (h : j.address t = some addr) : Continues c io t j addr :=
  ⟨h, fun _ hu => ShMachine.leave_arrives h hu⟩

theorem link_keeps (t : ShMachine) : (i.link k s t).cpu.delaySlot = t.cpu.delaySlot ∧
    (i.link k s t).pageBase = t.pageBase ∧ (i.link k s t).dyn = t.dyn := by
  unfold link
  split <;> exact ⟨rfl, rfl, rfl⟩

theorem link_setDelaySlot (t : ShMachine) (d : Nat) : i.link k s (t.setDelaySlot d) = (i.link k s t).setDelaySlot d := by
  unfold link
  split <;> rfl

theorem slotState_keeps (hk : k < Arch.sh.icEntriesPerPage) : (i.slotState k s).cpu.delaySlot = toBeDelayed ∧
    (i.slotState k s).pageBase = s.pageBase ∧ (i.slotState k s).dyn = s.dyn := by
  cases i with
  | bsr disp => exact ⟨rfl, ShMachine.pageBase_synchPc hk, rfl⟩
  | bsrf n => exact ⟨rfl, ShMachine.pageBase_synchPc hk, rfl⟩
  | _ => exact ⟨rfl, rfl, rfl⟩

theorem entered_done (hk : k < Arch.sh.icEntriesPerPage) (hic : s.dyn.nextIc = k + 1) {t : ShMachine}
    (ht : page.slot c io k (i.entered k s) = .ok t) (hexc : ¬ t.SlotRaised) :
    t.cpu.delaySlot = toBeDelayed ∧ ShMachine.SlotDone k s t := by
  obtain ⟨hslot, hpage, hdyn⟩ := @slotState_keeps i k s hk
  obtain ⟨hslot', hpage', hdyn'⟩ := @link_keeps i k s (i.slotState k s)
  have hdynEq : (i.entered k s).dyn = s.dyn := hdyn'.trans hdyn
  have hpageEq : (i.entered k s).pageBase = s.pageBase := hpage'.trans hpage
  obtain ⟨htslot, hnext, htpage⟩ := ShMachine.slot_done hk (hdynEq ▸ hic) (hslot'.trans hslot) ht hexc
  have hinstr : (i.entered k s).instrPc k = s.instrPc k := by
    rw [ShMachine.instrPc, hpageEq, ShMachine.instrPc]
  exact ⟨htslot, hnext.trans (congrArg (· + 2#32) hinstr), fun hlt => (htpage hlt).trans hpageEq⟩

theorem slotState_done (hk : k < Arch.sh.icEntriesPerPage) (hic : s.dyn.nextIc = k + 1) {t : ShMachine}
    (ht : page.slot c io k (i.slotState k s) = .ok t) (hexc : ¬ t.SlotRaised) : t.cpu.delaySlot = toBeDelayed := by
  obtain ⟨hslot, -, hdyn⟩ := @slotState_keeps i k s hk
  exact (ShMachine.slot_done hk (hdyn ▸ hic) hslot ht hexc).1

theorem matches_conditional (hi : i.hasDelaySlot = false) (h : Conditional k i call) (hic : s.dyn.nextIc = k + 1) :
    i.Matches k s call c io page := by
  rw [Matches, if_neg (by rw [hi]; decide)]
  obtain ⟨j, hbranch, haddr⟩ := h (page.slot c io k) s hic
  exact ⟨j, hbranch, continues_of_address haddr⟩

theorem matches_delayed_iff (hi : i.hasDelaySlot = true) (h : Delayed k i call) (hk : k < Arch.sh.icEntriesPerPage)
    (hic : s.dyn.nextIc = k + 1) : i.Matches k s call c io page ↔ i.SlotIgnoresPr k s c io page := by
  rw [Matches, if_pos hi]
  obtain ⟨j, hdelays, hlands⟩ := h (page.slot c io k) s
  constructor
  · intro hmatch t ht hexc
    obtain ⟨j', hbranch, haddr, -⟩ := hmatch t ht hexc
    obtain hcancelled | ⟨t', ht', hexc'⟩ := hdelays.only hbranch
    · rw [hcancelled] at haddr
      cases haddr
    · refine ⟨t', ht', hexc', ?_⟩
      have hsame := congrArg Prod.fst (Except.ok.inj (hbranch.symm.trans (hdelays.done ht' hexc')))
      have hslot := (entered_done hk hic ht hexc).1
      have hslot' := (@link_keeps i k s t').1.trans (slotState_done hk hic ht' hexc')
      rw [link_setDelaySlot] at hsame
      exact (setDelaySlot_inj (hslot'.trans hslot.symm) hsame.symm)
  · intro hignores t ht hexc
    obtain ⟨t', ht', hexc', hsame⟩ := hignores t ht hexc
    refine ⟨j, ?_, continues_of_address (hlands _ (entered_done hk hic ht hexc).2)⟩
    rw [hdelays.done ht' hexc', link_setDelaySlot, hsame]

/-- Every branch, at every address and in both variants, goes on where the architecture says, with the
registers read before its delay slot. The delay slot of a call must not depend on PR or set it. -/
theorem branches_match_iff (i : BranchInstr) (trace : Bool) (addr : Word) (c : ShConf) (io : ShIo) (page : SlotPage)
    (s : ShMachine) (hic : s.dyn.nextIc = Arch.sh.pcToIcEntry (addr.setWidth 64) + 1) :
    ∃ call, translateBranch trace addr i.iword = some call ∧
      (i.Matches (Arch.sh.pcToIcEntry (addr.setWidth 64)) s call c io page ↔
        (i.links = true → i.SlotIgnoresPr (Arch.sh.pcToIcEntry (addr.setWidth 64)) s c io page)) := by
  have hk : Arch.sh.pcToIcEntry (addr.setWidth 64) < Arch.sh.icEntriesPerPage := by
    have hentries : Arch.sh.icEntriesPerPage = 2048 := rfl
    rw [pcToIcEntry_eq, hentries]
    omega
  cases hslot : i.hasDelaySlot with
  | false =>
    obtain ⟨call, hcall, hconditional⟩ := translateBranch_conditional hslot rfl
    refine ⟨call, hcall, iff_of_true (matches_conditional hslot hconditional hic) fun hlinks => ?_⟩
    rw [hasDelaySlot_of_links hlinks] at hslot
    cases hslot
  | true =>
    obtain ⟨call, hcall, hdelayed⟩ := translateBranch_delayed hslot rfl
    refine ⟨call, hcall, (matches_delayed_iff hslot hdelayed hk hic).trans ⟨fun h _ => h, fun h => ?_⟩⟩
    cases hlinks : i.links with
    | true => exact h hlinks
    | false =>
      -- without a call the slot is entered in the same state
      have hlink : ∀ k t, i.link k s t = t := fun k t => if_neg (by rw [hlinks]; decide)
      intro t ht hexc
      rw [entered, hlink] at ht
      exact ⟨t, ht, hexc, hlink _ t⟩

end BranchInstr

/-! An instruction that only writes registers, in the delay slot of a call at the start of a page. -/

namespace SlotPage
variable {c : ShConf} {io : ShIo} {k : Nat} {s : ShMachine} {i : BranchInstr} {f : Regs → Regs}

def ofRegs (f : Regs → Regs) : SlotPage where
  ics _ s := .ok { s with cpu := { s.cpu with regs := f s.cpu.regs } }
  toBeTranslated s := .ok ({ s with cpu := { s.cpu with regs := f s.cpu.regs } }.setPc (s.nextPc.setWidth 64))
  plain h hs _ := by
    cases h
    exact ⟨hs, rfl, rfl⟩
  plainNext h hs _ := by
    cases h
    exact ⟨hs, (BitVec.setWidth_setWidth_of_le _ (by omega)).trans (BitVec.setWidth_eq _)⟩

theorem slot_ofRegs (hk : k + 1 < Arch.sh.icEntriesPerPage) :
    (ofRegs f).slot c io k s = .ok { s with cpu := { s.cpu with regs := f s.cpu.regs } } := by
  unfold slot ShMachine.callNext
  rw [if_pos hk]
  rfl

theorem slotIgnoresPr_ofRegs (hlinks : i.links = true) (hk : k + 1 < Arch.sh.icEntriesPerPage) :
    i.SlotIgnoresPr k s c io (ofRegs f) ↔
      f (s.cpu.regs.set .pr (s.instrPc k + 4#32)) = (f s.cpu.regs).set .pr (s.instrPc k + 4#32) := by
  have hlink : ∀ t, i.link k s t = t.setReg .pr (s.instrPc k + 4#32) := fun t => if_pos hlinks
  have hregs : (i.slotState k s).cpu.regs = s.cpu.regs := by
    cases i <;> rfl
  have hslot : (i.slotState k s).cpu.delaySlot = toBeDelayed := (BranchInstr.slotState_keeps (by omega)).1
  have hquiet : ∀ t : ShMachine, t.cpu.delaySlot = toBeDelayed → ¬ t.SlotRaised := by
    intro t ht
    rw [ShMachine.SlotRaised, ht]
    decide
  unfold BranchInstr.SlotIgnoresPr BranchInstr.entered
  rw [slot_ofRegs hk, slot_ofRegs hk, hlink]
  constructor
  · intro h
    obtain ⟨t', ht', -, hsame⟩ := h _ rfl (hquiet _ hslot)
    cases ht'
    rw [hlink] at hsame
    have hsameRegs := congrArg (fun t : ShMachine => t.cpu.regs) hsame
    rw [← hregs]
    exact hsameRegs.symm
  · intro h t ht _
    cases ht
    refine ⟨_, rfl, hquiet _ hslot, ?_⟩
    rw [← hregs] at h
    rw [hlink]
    exact congrArg (fun r => { i.slotState k s with cpu := { (i.slotState k s).cpu with regs := r } }) h.symm

end SlotPage

def branchMachine : ShMachine := { ShMachine.ramMachine with dyn := { ShMachine.ramMachine.dyn with nextIc := 1 } }

/-- `jsr @r0`, and an instruction that does nothing. -/
theorem branches_match_nop : ∃ call, translateBranch false 0#32 (BranchInstr.jsr 0#4).iword = some call ∧
    (BranchInstr.jsr 0#4).Matches 0 branchMachine call ⟨65536, false, false⟩ ShMachine.ramIo (.ofRegs fun r => r) := by
  obtain ⟨call, hcall, hiff⟩ := BranchInstr.branches_match_iff (.jsr 0#4) false 0#32 ⟨65536, false, false⟩ ShMachine.ramIo
    (.ofRegs fun r => r) branchMachine rfl
  exact ⟨call, hcall, hiff.mpr fun _ => (SlotPage.slotIgnoresPr_ofRegs rfl (by decide)).mpr rfl⟩

/-- `bsr`, and `sts pr,r0`: the instruction sees the PR from before the call. -/
theorem branches_see_old_pr : ∃ call, translateBranch false 0#32 (BranchInstr.bsr 0#12).iword = some call ∧
    ¬ (BranchInstr.bsr 0#12).Matches 0 branchMachine call ⟨65536, false, false⟩ ShMachine.ramIo
      (.ofRegs fun r => r.set (.r 0#4) (r .pr)) := by
  obtain ⟨call, hcall, hdelayed⟩ :=
    @BranchInstr.translateBranch_delayed (.bsr 0#12) 0 0#32 false rfl rfl
  refine ⟨call, hcall, fun hmatch => ?_⟩
  have hignores := (BranchInstr.matches_delayed_iff rfl hdelayed (by decide) rfl).mp hmatch
  have hregs := (SlotPage.slotIgnoresPr_ofRegs rfl (by decide)).mp hignores
  have hr0 := congrFun hregs (.r 0#4)
  revert hr0
  decide

end Gxemul.Sh
