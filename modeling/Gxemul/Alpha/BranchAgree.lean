import Gxemul.Alpha.ZeroRegisters
import Gxemul.Lib.Masks

/- Alpha branches and jumps, against the architecture: where execution goes on, and what is
   left in ra.

   The program counter is only right in its page number, and in its two low bits, which a
   jump takes from rb. They stay there until an instruction is translated, and go into the
   return addresses. jsr writes ra before it reads rb. -/
namespace Gxemul

/-! ## The page of a program counter -/

namespace Cpu
variable {conf : Conf} {c c' : Cpu}

theorem updateTranslationTable_pc {vaddrPage paddrPage : Addr} {hostPage writeflag : Nat}
    (h : c.updateTranslationTable conf vaddrPage hostPage writeflag paddrPage = .ok c') : c'.pc = c.pc := by
  obtain ⟨t, -, h⟩ := Lib.bind_eq_ok h
  cases h
  rfl

theorem pointTo_arrives {host : Addr → Option Nat} {pc p : Addr} {l3 : Nat}
    (h : c.pointTo conf host pc l3 p = .ok c') : c'.pc = c.pc ∧ c'.nextIc = conf.arch.pcToIcEntry pc := by
  obtain ⟨c1, h1, h⟩ := Lib.bind_eq_ok h
  obtain ⟨c2, h2, h⟩ := Lib.bind_eq_ok h
  rcases hfind : c2.findOrCreate conf (conf.arch.pageAddr p) with ⟨c2', ppp⟩
  rw [hfind] at h
  obtain ⟨c3, h3, h⟩ := Lib.bind_eq_ok h
  have hmapped : c1.pc = c.pc := by
    unfold ensureMapped at h1
    split at h1
    · split at h1
      · exact updateTranslationTable_pc h1
      · cases h1
        rfl
    · cases h1
      rfl
  have hroom : c2.pc = c1.pc := by
    unfold ensureRoom at h2
    split at h2
    · obtain ⟨t, -, h2⟩ := Lib.bind_eq_ok h2
      cases h2
      rfl
    · cases h2
      rfl
  have hfound : c2'.pc = c2.pc := by
    unfold findOrCreate at hfind
    split at hfind
    · cases hfind
      rfl
    · cases hfind
      rfl
  have hlinked : (c2'.linkPhysPage conf pc l3 ppp).pc = c2'.pc := by
    unfold linkPhysPage
    split <;> rfl
  have hprotected : c3.pc = (c2'.linkPhysPage conf pc l3 ppp).pc := by
    unfold protectPage at h3
    split at h3
    · obtain ⟨t, -, h3⟩ := Lib.bind_eq_ok h3
      cases h3
      rfl
    · cases h3
      rfl
  cases h
  exact ⟨hprotected.trans (hlinked.trans (hfound.trans (hroom.trans hmapped))), rfl⟩

theorem pcToPointers_arrives {host : Addr → Option Nat} {paddr : Addr}
    (h : c.pcToPointers conf host (.ok paddr) = .ok c') :
    c'.pc = c.pc ∧ c'.nextIc = conf.arch.pcToIcEntry (c.tables.mode.trunc c.pc) := by
  unfold pcToPointers quick at h
  dsimp only at h
  split at h
  · cases h
    exact ⟨rfl, rfl⟩
  · unfold pcToPointersGeneric at h
    dsimp only at h
    split at h
    · exact pointTo_arrives h
    · exact pointTo_arrives h

end Cpu

namespace Alpha

/-! ## How a branch leaves -/

/-- With `next_ic` as it is, with another `next_ic`, or with another `cpu->pc` that is looked up. -/
inductive Jump where
  | next
  | toIc (nr : Nat)
  | toPc

namespace AlphaMachine
variable (cfg : ExecConf) (io : Io) (i lowPc : Nat) (m : AlphaMachine)

/-- `X(end_of_page)`, which is behind the last instruction of a page. -/
def endOfPage : Except Exit AlphaMachine :=
  (m.setPc i ((m.pc i &&& ~~~ 0x1ffc#64) + 0x2000#64)).pcToPointers cfg io i

/-- The instruction in front of `next_ic` has been executed. -/
def goOn : Except Exit AlphaMachine := if (m.cpus i).dyn.nextIc = 2048 then m.endOfPage cfg io i else .ok m

def nextAddr : Addr := (m.pc i &&& ~~~ 8191#64) + BitVec.ofNat 64 (4 * (m.cpus i).dyn.nextIc)

/-- The address of instruction `lowPc`. -/
def cia : Addr := (m.pc i &&& ~~~ 8191#64) + BitVec.ofNat 64 (4 * lowPc)

/-- The end of a jump from `oldPc`. -/
def jumped (oldPc : Addr) : AlphaMachine × Jump :=
  (m, if oldPc &&& ~~~ 8191#64 = m.pc i &&& ~~~ 8191#64 then .toIc (instrNr (m.pc i)) else .toPc)

def transfer : Instr → AlphaMachine × Jump
  | .jsr _ dst target =>
    let m' := m.setReg i dst (m.instrPc i lowPc + 4#64)
    (m'.setPc i (m'.reg i target)).jumped i (m.pc i)
  | .jsr0 _ target => (m.setPc i (m.reg i target)).jumped i (m.pc i)
  | .br offset => (m.setPc i (m.instrPc i lowPc + offset.signExtend 64), .toPc)
  | .brReturn offset dst =>
    ((m.setReg i dst (m.instrPc i lowPc + 4#64)).setPc i (m.instrPc i lowPc + offset.signExtend 64), .toPc)
  | .brCond cond offset src =>
    if cond.holds (m.reg i src) then (m.setPc i (m.instrPc i lowPc + offset.signExtend 64), .toPc) else (m, .next)
  | .brSamepage nr => (m, .toIc nr)
  | .brReturnSamepage nr dst =>
    ((m.setPc i (m.instrPc i lowPc)).setReg i dst (m.instrPc i lowPc + 4#64), .toIc nr)
  | .brCondSamepage cond nr src => (m, if cond.holds (m.reg i src) then .toIc nr else .next)
  | _ => (m, .next)

def IsTransfer : Instr → Prop
  | .jsr _ _ _ | .jsr0 _ _ | .br _ | .brReturn _ _ | .brCond _ _ _ => True
  | .brSamepage nr | .brReturnSamepage nr _ | .brCondSamepage _ nr _ => nr < 2048
  | _ => False

def leave (s : AlphaMachine × Jump) : Except Exit AlphaMachine :=
  match s.2 with
  | .next => s.1.goOn cfg io i
  | .toIc nr => .ok (s.1.setNextIc i nr)
  | .toPc => s.1.pcToPointers cfg io i

def goesTo (s : AlphaMachine × Jump) : Addr :=
  match s.2 with
  | .next => s.1.cia i (lowPc + 1)
  | .toIc nr => s.1.cia i nr
  | .toPc => s.1.pc i &&& ~~~ 3#64

end AlphaMachine

/-! ## Addresses -/

theorem toNat_page (x : Addr) : (x &&& ~~~ 8191#64).toNat = x.toNat / 8192 * 8192 := Lib.toNat_and_not_mask x 13

theorem toNat_low (x : Addr) : (x &&& 3#64).toNat = x.toNat % 4 := Lib.toNat_and_mask x 2 (by decide)

theorem toNat_aligned (x : Addr) : (x &&& ~~~ 3#64).toNat = x.toNat / 4 * 4 := Lib.toNat_and_not_mask x 2

theorem instrNr_eq (x : Addr) : instrNr x = x.toNat % 8192 / 4 := by
  have hmask := Lib.toNat_and_mask x 13 (by decide)
  unfold instrNr
  rw [BitVec.toNat_ushiftRight, Nat.shiftRight_eq_div_pow]
  exact congrArg (· / 2 ^ 2) hmask

theorem base_eq (x : Addr) : x &&& ~~~ 0x1ffc#64 = (x &&& ~~~ 8191#64) + (x &&& 3#64) := by
  have h1 : ∀ j < 64, (0x1ffc#64).getLsbD j = (decide (2 ≤ j) && decide (j < 13)) := by decide
  have h2 : ∀ j < 64, (8191#64).getLsbD j = decide (j < 13) := by decide
  have h3 : ∀ j < 64, (3#64).getLsbD j = decide (j < 2) := by decide
  rw [BitVec.add_eq_or_of_and_eq_zero]
  · apply BitVec.eq_of_getLsbD_eq
    intro j hj
    simp only [BitVec.getLsbD_and, BitVec.getLsbD_or, BitVec.getLsbD_not, h1 j hj, h2 j hj, h3 j hj]
    grind
  · apply BitVec.eq_of_getLsbD_eq
    intro j hj
    simp only [BitVec.getLsbD_and, BitVec.getLsbD_not, BitVec.getLsbD_zero, h2 j hj, h3 j hj]
    grind

namespace AlphaMachine
variable {cfg : ExecConf} {io : Io} {i lowPc nr : Nat} {m m' : AlphaMachine}

theorem toNat_cia (hlt : lowPc < 2048) : (m.cia i lowPc).toNat = (m.pc i).toNat / 8192 * 8192 + 4 * lowPc := by
  unfold cia
  rw [BitVec.toNat_add, toNat_page, BitVec.toNat_ofNat]
  omega

theorem instrPc_eq : m.instrPc i lowPc = m.cia i lowPc + (m.pc i &&& 3#64) := by
  unfold instrPc cia
  rw [base_eq, Nat.mul_comm lowPc 4]
  ac_rfl

theorem instrPc_eq_iff : m.instrPc i lowPc = m.cia i lowPc ↔ m.pc i &&& 3#64 = 0#64 := by
  rw [instrPc_eq]
  constructor
  · intro h
    exact (BitVec.add_right_inj (m.cia i lowPc)).mp (h.trans (BitVec.add_zero _).symm)
  · intro h
    rw [h, BitVec.add_zero]

theorem pcToIcEntry_eq (mode : Mode) (x : Addr) : Arch.alpha.pcToIcEntry (mode.trunc x) = instrNr x := by
  have hshift : Arch.alpha.instrAlignmentShift = 2 := rfl
  have hentries : Arch.alpha.icEntriesPerPage - 1 = 2 ^ 11 - 1 := rfl
  have htrunc : (mode.trunc x).toNat % 8192 = x.toNat % 8192 := by
    cases mode with
    | mode64 => rfl
    | mode32 =>
      have hmask : (x &&& 0xffffffff#64).toNat = x.toNat % 2 ^ 32 := Lib.toNat_and_mask x 32 (by decide)
      change (x &&& 0xffffffff#64).toNat % 8192 = _
      rw [hmask]
      omega
  unfold Arch.pcToIcEntry
  rw [hshift, hentries, Nat.and_two_pow_sub_one_eq_mod, Nat.shiftRight_eq_div_pow, instrNr_eq]
  omega

@[simp] theorem setPc_pc (pc : Addr) : (m.setPc i pc).pc i = pc := by
  simp [AlphaMachine.pc, setPc, setDyn]

@[simp] theorem setReg_pc (x : RegName) (v : Reg) : (m.setReg i x v).pc i = m.pc i := by
  simp [AlphaMachine.pc, setReg, AlphaCpu.setReg]

@[simp] theorem setNextIc_pc : (m.setNextIc i nr).pc i = m.pc i := by
  simp [AlphaMachine.pc, setNextIc, setDyn]

@[simp] theorem setNextIc_nextIc : ((m.setNextIc i nr).cpus i).dyn.nextIc = nr := by
  simp [setNextIc, setDyn]

theorem pcToPointers_nextIc (h : m.pcToPointers cfg io i = .ok m') :
    m'.pc i = m.pc i ∧ (m'.cpus i).dyn.nextIc = instrNr (m.pc i) := by
  obtain ⟨paddr, -, h⟩ := Lib.bind_eq_ok h
  obtain ⟨dyn, hdyn, h⟩ := Lib.bind_eq_ok h
  obtain ⟨hpc, hic⟩ := Cpu.pcToPointers_arrives hdyn
  cases h
  have hsame : (m.setDyn i dyn).cpus i = { m.cpus i with dyn } := setCpu_same
  refine ⟨?_, ?_⟩
  · unfold AlphaMachine.pc
    rw [hsame]
    exact hpc
  · rw [hsame]
    exact hic.trans (pcToIcEntry_eq _ _)

theorem instrNr_lt (x : Addr) : instrNr x < 2048 := by
  rw [instrNr_eq]
  omega

theorem goOn_eq_ok (h : (m.cpus i).dyn.nextIc < 2048) : m.goOn cfg io i = .ok m :=
  if_neg (Nat.ne_of_lt h)

theorem pcToPointers_goOn : (m.pcToPointers cfg io i >>= fun m' => m'.goOn cfg io i) = m.pcToPointers cfg io i := by
  cases h : m.pcToPointers cfg io i with
  | error e => rfl
  | ok m' =>
    have hic := (pcToPointers_nextIc h).2
    exact goOn_eq_ok (hic ▸ instrNr_lt _)

theorem afterJump_leave (oldPc : Addr) :
    (m.afterJump cfg io i oldPc >>= fun m' => m'.goOn cfg io i) = leave cfg io i (m.jumped i oldPc) := by
  unfold afterJump jumped leave
  by_cases hpage : oldPc &&& ~~~ 8191#64 = m.pc i &&& ~~~ 8191#64
  · rw [if_pos hpage, if_pos hpage]
    exact goOn_eq_ok (by rw [setNextIc_nextIc]; exact instrNr_lt _)
  · rw [if_neg hpage, if_neg hpage]
    exact pcToPointers_goOn

theorem execute_leave {instr : Instr} (h : IsTransfer instr) :
    (m.execute cfg io i lowPc instr >>= fun m' => m'.goOn cfg io i) = leave cfg io i (m.transfer i lowPc instr) := by
  have hic (m : AlphaMachine) {nr : Nat} (hnr : nr < 2048) : (m.setNextIc i nr).goOn cfg io i = .ok (m.setNextIc i nr) :=
    goOn_eq_ok (by rw [setNextIc_nextIc]; exact hnr)
  cases instr with
  | jsr trace dst target => exact afterJump_leave _
  | jsr0 trace target => exact afterJump_leave _
  | br offset => exact pcToPointers_goOn
  | brReturn offset dst => exact pcToPointers_goOn
  | brCond cond offset src =>
    unfold execute transfer
    dsimp only
    cases cond.holds (m.reg i src) with
    | true => exact pcToPointers_goOn
    | false => rfl
  | brSamepage nr => exact hic m h
  | brReturnSamepage nr dst =>
    unfold execute transfer
    dsimp only
    rw [setPc_pc]
    exact hic _ h
  | brCondSamepage cond nr src =>
    unfold execute transfer
    dsimp only
    cases cond.holds (m.reg i src) with
    | true => exact hic m h
    | false => rfl
  | _ => cases h

theorem page_add_instrNr (x : Addr) : (x &&& ~~~ 8191#64) + BitVec.ofNat 64 (4 * instrNr x) = x &&& ~~~ 3#64 := by
  apply BitVec.eq_of_toNat_eq
  rw [BitVec.toNat_add, toNat_page, BitVec.toNat_ofNat, toNat_aligned, instrNr_eq]
  omega

theorem nextAddr_of_lookup (h : m.pcToPointers cfg io i = .ok m') :
    m'.nextAddr i = m.pc i &&& ~~~ 3#64 ∧ (m'.cpus i).reg = (m.cpus i).reg := by
  obtain ⟨hpc, hic⟩ := pcToPointers_nextIc h
  refine ⟨?_, funext fun x => pcToPointers_reg h⟩
  unfold nextAddr
  rw [hpc, hic]
  exact page_add_instrNr _

theorem leave_arrives {s : AlphaMachine × Jump}
    (hnext : s.2 = .next → (s.1.cpus i).dyn.nextIc = lowPc + 1) (h : leave cfg io i s = .ok m') :
    m'.nextAddr i = goesTo i lowPc s ∧ (m'.cpus i).reg = (s.1.cpus i).reg := by
  obtain ⟨m, j⟩ := s
  cases j with
  | next =>
    have hic : (m.cpus i).dyn.nextIc = lowPc + 1 := hnext rfl
    change m.goOn cfg io i = .ok m' at h
    change m'.nextAddr i = m.cia i (lowPc + 1) ∧ _
    unfold goOn at h
    rw [hic] at h
    by_cases hlast : lowPc + 1 = 2048
    · rw [if_pos hlast] at h
      obtain ⟨haddr, hregs⟩ := nextAddr_of_lookup h
      refine ⟨haddr.trans ?_, hregs.trans (funext fun x => setPc_reg _)⟩
      rw [setPc_pc, base_eq, hlast]
      unfold cia
      apply BitVec.eq_of_toNat_eq
      rw [toNat_aligned, BitVec.toNat_add, BitVec.toNat_add, BitVec.toNat_add, toNat_page, toNat_low, BitVec.toNat_ofNat]
      omega
    · rw [if_neg hlast] at h
      cases h
      refine ⟨?_, rfl⟩
      unfold nextAddr cia
      rw [hic]
  | toIc nr =>
    cases h
    refine ⟨?_, funext fun x => setNextIc_reg nr⟩
    unfold nextAddr
    rw [setNextIc_pc, setNextIc_nextIc]
    rfl
  | toPc => exact nextAddr_of_lookup h

end AlphaMachine

/-! ## The reference -/

inductive CondBranch where
  | blbc | beq | blt | ble | blbs | bne | bge | bgt | fbeq | fbne

inductive JumpKind where
  | jmp | jsr | ret

/-- Branches and jumps, with their fields. The last bits of a jump are hints. -/
inductive BranchInstr where
  | br (bsr : Bool) (ra : RegNr) (disp : BitVec 21)
  | cond (k : CondBranch) (ra : RegNr) (disp : BitVec 21)
  | jump (k : JumpKind) (ra rb : RegNr) (hint : BitVec 14)

namespace CondBranch

def opcode : CondBranch → BitVec 6
  | fbeq => 0x31#6
  | fbne => 0x35#6
  | blbc => 0x38#6
  | beq => 0x39#6
  | blt => 0x3a#6
  | ble => 0x3b#6
  | blbs => 0x3c#6
  | bne => 0x3d#6
  | bge => 0x3e#6
  | bgt => 0x3f#6

def src (ra : RegNr) : CondBranch → RegName
  | fbeq | fbne => .f ra
  | _ => .r ra

/-- The condition on a register. Minus zero is a floating point zero. -/
def Holds (x : Reg) : CondBranch → Prop
  | blbc => x.getLsbD 0 = false
  | blbs => x.getLsbD 0 = true
  | beq => x = 0#64
  | bne => x ≠ 0#64
  | blt => x.toInt < 0
  | ble => x.toInt ≤ 0
  | bge => 0 ≤ x.toInt
  | bgt => 0 < x.toInt
  | fbeq => x = 0#64 ∨ x = 0x8000000000000000#64
  | fbne => ¬ (x = 0#64 ∨ x = 0x8000000000000000#64)

end CondBranch

def JumpKind.code : JumpKind → BitVec 2
  | .jmp => 0#2
  | .jsr => 1#2
  | .ret => 2#2

namespace BranchInstr
variable (regs : RegName → Reg) (cia : Addr)

def iword : BranchInstr → BitVec 32
  | br bsr ra disp => (if bsr then 0x34#6 else 0x30#6) ++ ra ++ disp
  | cond k ra disp => k.opcode ++ ra ++ disp
  | jump k ra rb hint => 0x1a#6 ++ ra ++ rb ++ k.code ++ hint

def Taken : BranchInstr → Prop
  | cond k ra _ => k.Holds (regs (k.src ra))
  | _ => True

def target : BranchInstr → Addr
  | br _ _ disp | cond _ _ disp => cia + 4#64 + 4#64 * disp.signExtend 64
  | jump _ _ rb _ => regs (.r rb) &&& ~~~ 3#64

def archRegs : BranchInstr → RegName → Reg
  | br _ ra _ | jump _ ra _ _ => if ra = alphaZero then regs else Function.update regs (.r ra) (cia + 4#64)
  | cond _ _ _ => regs

/-- A branch at `lowPc` does what it should. -/
structure Agrees (b : BranchInstr) (i lowPc : Nat) (m : AlphaMachine) (s : AlphaMachine × Jump) : Prop where
  taken : b.Taken (m.cpus i).reg → AlphaMachine.goesTo i lowPc s = b.target (m.cpus i).reg (m.cia i lowPc)
  next : ¬ b.Taken (m.cpus i).reg → AlphaMachine.goesTo i lowPc s = m.cia i lowPc + 4#64
  regs : (s.1.cpus i).reg = b.archRegs (m.cpus i).reg (m.cia i lowPc)

end BranchInstr

/-! ## Displacements -/

theorem displacement_eq (disp : BitVec 21) :
    (disp.signExtend 32 <<< 2 + 4#32 : BitVec 32).signExtend 64 = 4#64 + 4#64 * disp.signExtend 64 := by
  have hlow := disp.le_toInt
  have hhigh := disp.toInt_lt
  have hword : (disp.signExtend 32 <<< 2 + 4#32 : BitVec 32) = BitVec.ofInt 32 (4 * disp.toInt + 4) := by
    rw [BitVec.ofInt_add, BitVec.ofInt_mul, BitVec.shiftLeft_eq_mul_twoPow, BitVec.mul_comm]
    rfl
  have hint : (disp.signExtend 32 <<< 2 + 4#32 : BitVec 32).toInt = 4 * disp.toInt + 4 := by
    rw [hword, BitVec.toInt_ofInt, Int.bmod_eq_of_le (by omega) (by omega)]
  calc (disp.signExtend 32 <<< 2 + 4#32 : BitVec 32).signExtend 64
      = BitVec.ofInt 64 (disp.signExtend 32 <<< 2 + 4#32 : BitVec 32).toInt := rfl
    _ = BitVec.ofInt 64 (4 * disp.toInt + 4) := by rw [hint]
    _ = 4#64 * disp.signExtend 64 + 4#64 := by
      rw [BitVec.ofInt_add, BitVec.ofInt_mul]
      rfl
    _ = 4#64 + 4#64 * disp.signExtend 64 := BitVec.add_comm _ _

theorem displacement_aligned (disp : BitVec 21) : (4#64 + 4#64 * disp.signExtend 64 : Addr).toNat % 4 = 0 := by
  rw [BitVec.toNat_add, BitVec.toNat_mul, BitVec.toNat_ofNat]
  omega

theorem displacement_eq_four (disp : BitVec 21) : 4#64 + 4#64 * disp.signExtend 64 = 4#64 ↔ disp = 0#21 := by
  constructor
  · intro h
    have hlow := disp.le_toInt
    have hhigh := disp.toInt_lt
    have hzero : BitVec.ofInt 64 (4 * disp.toInt) = 0#64 := by
      have hmul : BitVec.ofInt 64 (4 * disp.toInt) = 4#64 * disp.signExtend 64 := by
        rw [BitVec.ofInt_mul]
        rfl
      rw [hmul]
      exact (BitVec.add_right_inj 4#64).mp (h.trans (BitVec.add_zero _).symm)
    have hint := congrArg BitVec.toInt hzero
    rw [BitVec.toInt_ofInt, Int.bmod_eq_of_le (by omega) (by omega), BitVec.toInt_zero] at hint
    apply BitVec.eq_of_toInt_eq
    rw [BitVec.toInt_zero]
    omega
  · rintro rfl
    rfl

/-! ## The functions -/

section
variable {i lowPc : Nat} {m : AlphaMachine} {addr : Addr}

theorem goesTo_next : AlphaMachine.goesTo i lowPc (m, .next) = m.cia i lowPc + 4#64 := by
  change m.cia i (lowPc + 1) = _
  unfold AlphaMachine.cia
  rw [show 4 * (lowPc + 1) = 4 * lowPc + 4 by omega, BitVec.ofNat_add, BitVec.add_assoc]

theorem far_target {d : Addr} (hd : d.toNat % 4 = 0) (hlt : lowPc < 2048) :
    (m.instrPc i lowPc + d) &&& ~~~ 3#64 = m.cia i lowPc + d := by
  have hcia := AlphaMachine.toNat_cia (m := m) (i := i) hlt
  rw [AlphaMachine.instrPc_eq]
  apply BitVec.eq_of_toNat_eq
  rw [toNat_aligned, BitVec.toNat_add, BitVec.toNat_add, BitVec.toNat_add, toNat_low, hcia]
  omega

theorem samepage_target {d : Addr} (hd : d.toNat % 4 = 0) (hlt : lowPc < 2048) (haddr : addr.toNat % 8192 = 4 * lowPc)
    (hpage : addr &&& ~~~ 8191#64 = (addr + d) &&& ~~~ 8191#64) :
    m.cia i (instrNr (addr + d)) = m.cia i lowPc + d := by
  have hcia := AlphaMachine.toNat_cia (m := m) (i := i) hlt
  have hcia' := AlphaMachine.toNat_cia (m := m) (i := i) (AlphaMachine.instrNr_lt (addr + d))
  have hnew : (addr + d).toNat = addr.toNat / 8192 * 8192 + 4 * instrNr (addr + d) := by
    have hnat := congrArg BitVec.toNat hpage
    have hsum : (addr + d).toNat % 4 = 0 := by
      rw [BitVec.toNat_add]
      omega
    rw [toNat_page, toNat_page] at hnat
    rw [instrNr_eq]
    omega
  have hsum : 4 * lowPc + d.toNat = 4 * instrNr (addr + d) ∨ 4 * lowPc + d.toNat = 4 * instrNr (addr + d) + 2 ^ 64 := by
    rw [BitVec.toNat_add] at hnew
    omega
  apply BitVec.eq_of_toNat_eq
  rw [hcia', BitVec.toNat_add, hcia, Nat.add_assoc]
  rcases hsum with hsum | hsum
  · rw [hsum, Nat.mod_eq_of_lt (by omega)]
  · rw [hsum, ← Nat.add_assoc, Nat.add_mod_right, Nat.mod_eq_of_lt (by omega)]

theorem branch_cases {iword : BitVec 32} {disp : BitVec 21} {far : BitVec 32 → Instr} {samepage : Nat → Instr}
    (hword : iword.extractLsb' 0 21 = disp) (hlt : lowPc < 2048) (haddr : addr.toNat % 8192 = 4 * lowPc) :
    (∃ offset, branch addr iword far samepage = far offset ∧
      offset.signExtend 64 = 4#64 + 4#64 * disp.signExtend 64) ∨
    ∃ nr < 2048, branch addr iword far samepage = samepage nr ∧
      m.cia i nr = m.cia i lowPc + (4#64 + 4#64 * disp.signExtend 64) := by
  have hofs : (branchOffset iword).signExtend 64 = 4#64 + 4#64 * disp.signExtend 64 := by
    unfold branchOffset
    rw [hword]
    exact displacement_eq disp
  unfold branch
  rw [hofs]
  by_cases hpage : addr &&& ~~~ 8191#64 = (addr + (4#64 + 4#64 * disp.signExtend 64)) &&& ~~~ 8191#64
  · rw [if_pos hpage]
    exact .inr ⟨_, AlphaMachine.instrNr_lt _, rfl, samepage_target (displacement_aligned disp) hlt haddr hpage⟩
  · rw [if_neg hpage]
    exact .inl ⟨_, rfl, hofs⟩

end

namespace CondBranch

/-- The condition of the functions, and `fp`. -/
def fn : CondBranch → Cond × Bool
  | blbc => (.lbc, false)
  | beq => (.eq, false)
  | blt => (.lt, false)
  | ble => (.le, false)
  | blbs => (.lbs, false)
  | bne => (.ne, false)
  | bge => (.ge, false)
  | bgt => (.gt, false)
  | fbeq => (.eq, true)
  | fbne => (.ne, true)

theorem low_bit (x : Reg) : x &&& 1#64 = 0#64 ↔ x.getLsbD 0 = false := by
  constructor
  · intro h
    have hbit := congrArg (·.getLsbD 0) h
    simpa using hbit
  · intro h
    have hone : ∀ j < 64, (1#64).getLsbD j = decide (j = 0) := by decide
    apply BitVec.eq_of_getLsbD_eq
    intro j hj
    rw [BitVec.getLsbD_and, hone j hj, BitVec.getLsbD_zero]
    by_cases hj0 : j = 0
    · rw [hj0, h]
      rfl
    · rw [decide_eq_false hj0, Bool.and_false]

theorem holds_iff (k : CondBranch) (x : Reg) :
    (k.fn.1.holds x = true ↔ k.Holds x) ↔ (k.fn.2 = true → x ≠ 0x8000000000000000#64) := by
  have hmin : (0x8000000000000000#64 : Reg) ≠ 0#64 := by decide
  cases k with
  | blbc => exact iff_of_true (beq_iff_eq.trans (low_bit x)) (fun h => by cases h)
  | blbs =>
    refine iff_of_true (bne_iff_ne.trans ((not_congr (low_bit x)).trans ?_)) (fun h => by cases h)
    exact iff_of_eq (Bool.not_eq_false _)
  | beq => exact iff_of_true beq_iff_eq (fun h => by cases h)
  | bne => exact iff_of_true bne_iff_ne (fun h => by cases h)
  | blt => exact iff_of_true decide_eq_true_iff (fun h => by cases h)
  | ble => exact iff_of_true decide_eq_true_iff (fun h => by cases h)
  | bge => exact iff_of_true decide_eq_true_iff (fun h => by cases h)
  | bgt => exact iff_of_true decide_eq_true_iff (fun h => by cases h)
  | fbeq =>
    have hcode : fn fbeq = (.eq, true) := rfl
    rw [hcode, forall_prop_of_true rfl]
    refine (iff_congr beq_iff_eq Iff.rfl).trans ⟨fun h hx => ?_, fun h => ⟨.inl, fun hor => hor.resolve_right h⟩⟩
    exact hmin (hx ▸ h.mpr (.inr hx))
  | fbne =>
    have hcode : fn fbne = (.ne, true) := rfl
    rw [hcode, forall_prop_of_true rfl]
    refine (iff_congr bne_iff_ne Iff.rfl).trans ⟨fun h hx => ?_, fun h => ?_⟩
    · have hne : x ≠ 0#64 := fun h0 => hmin (hx.symm.trans h0)
      exact h.mp hne (.inr hx)
    · exact ⟨fun hne hor => hor.elim hne h, fun hno h0 => hno (.inl h0)⟩

end CondBranch

/-! ## Translation -/

section
variable (op : BitVec 6) (ra rb : RegNr) (disp : BitVec 21) (code : BitVec 2) (hint : BitVec 14)

theorem branch_fields : opcode (op ++ ra ++ disp) = op ∧ fieldRa (op ++ ra ++ disp) = ra ∧
    (op ++ ra ++ disp).extractLsb' 0 21 = disp := by
  unfold opcode fieldRa
  refine ⟨?_, ?_, ?_⟩
  all_goals try (apply BitVec.eq_of_getLsbD_eq; intro j hj)
  all_goals
    grind

theorem jump_fields : opcode (op ++ ra ++ rb ++ code ++ hint) = op ∧ fieldRa (op ++ ra ++ rb ++ code ++ hint) = ra ∧
    fieldRb (op ++ ra ++ rb ++ code ++ hint) = rb ∧ (op ++ ra ++ rb ++ code ++ hint).extractLsb' 14 2 = code := by
  unfold opcode fieldRa fieldRb
  refine ⟨?_, ?_, ?_, ?_⟩
  all_goals try (apply BitVec.eq_of_getLsbD_eq; intro j hj)
  all_goals
    grind

end

namespace BranchInstr
variable (trace : Bool) (addr : Addr)

/-- What to_be_translated() makes of a branch or a jump. -/
def translation : BranchInstr → Instr
  | br bsr ra disp =>
    if ra = alphaZero then branch addr (br bsr ra disp).iword .br .brSamepage
    else branch addr (br bsr ra disp).iword (fun ofs => .brReturn ofs (.r ra)) fun nr => .brReturnSamepage nr (.r ra)
  | cond k ra disp => branch addr (cond k ra disp).iword (fun ofs => .brCond k.fn.1 ofs (k.src ra)) fun nr =>
      .brCondSamepage k.fn.1 nr (k.src ra)
  | jump _ ra rb _ =>
    if ra = alphaZero then .jsr0 (trace && decide (rb = alphaRa)) (.r rb) else .jsr trace (.r ra) (.r rb)

theorem toBeTranslated_eq (b : BranchInstr) : toBeTranslated trace addr b.iword = .ok (some (b.translation trace addr)) := by
  cases b with
  | br bsr ra disp =>
    have hop : opcode (br bsr ra disp).iword = if bsr then 0x34#6 else 0x30#6 := (branch_fields _ ra disp).1
    have hra : fieldRa (br bsr ra disp).iword = ra := (branch_fields _ ra disp).2.1
    unfold toBeTranslated translation
    rw [hop, hra]
    cases bsr <;> rfl
  | cond k ra disp =>
    have hop : opcode (cond k ra disp).iword = k.opcode := (branch_fields _ ra disp).1
    have hra : fieldRa (cond k ra disp).iword = ra := (branch_fields _ ra disp).2.1
    unfold toBeTranslated translation
    rw [hop, hra]
    cases k <;> rfl
  | jump k ra rb hint =>
    have hfields := jump_fields 0x1a#6 ra rb k.code hint
    have hop : opcode (jump k ra rb hint).iword = 0x1a#6 := hfields.1
    have hra : fieldRa (jump k ra rb hint).iword = ra := hfields.2.1
    have hrb : fieldRb (jump k ra rb hint).iword = rb := hfields.2.2.1
    have hcode : (jump k ra rb hint).iword.extractLsb' 14 2 = k.code := hfields.2.2.2
    have hne : ¬ k.code = 3#2 := by cases k <;> decide
    unfold toBeTranslated translation
    dsimp only
    rw [hop, hra, hrb, hcode, if_neg hne]
    by_cases hzero : ra = alphaZero
    · simp only [if_pos hzero]
    · simp only [if_neg hzero]

/-! ## All branches and jumps -/

/-- Where the functions do what the architecture says. `aligned` is said of the program counter. -/
def Meets (aligned : Prop) (regs : RegName → Reg) (cia : Addr) : BranchInstr → Prop
  | br _ ra _ => ra ≠ alphaZero → aligned
  | cond k ra disp => k.fn.2 = true → regs (k.src ra) = 0x8000000000000000#64 → disp = 0#21
  | jump _ ra rb _ => ra ≠ alphaZero → aligned ∧ (ra = rb → regs (.r rb) &&& ~~~ 3#64 = cia + 4#64)

section
variable {trace : Bool} {addr : Addr} {i lowPc : Nat} {m : AlphaMachine}

theorem reg_setPc (pc : Addr) : ((m.setPc i pc).cpus i).reg = (m.cpus i).reg := funext fun _ => AlphaMachine.setPc_reg pc

theorem reg_setReg (x : RegName) (v : Reg) : ((m.setReg i x v).cpus i).reg = Function.update (m.cpus i).reg x v := by
  unfold AlphaMachine.setReg AlphaCpu.setReg
  rw [AlphaMachine.setCpu_same]

theorem update_link_iff (x : RegName) (lowPc : Nat) :
    Function.update (m.cpus i).reg x (m.instrPc i lowPc + 4#64) =
      Function.update (m.cpus i).reg x (m.cia i lowPc + 4#64) ↔ m.pc i &&& 3#64 = 0#64 := by
  have hiff : m.instrPc i lowPc = m.cia i lowPc ↔ m.pc i &&& 3#64 = 0#64 := AlphaMachine.instrPc_eq_iff
  rw [← hiff]
  constructor
  · intro h
    have hx := congrFun h x
    rw [Function.update_self, Function.update_self] at hx
    exact BitVec.add_left_inj 4#64 |>.mp hx
  · intro h
    rw [h]

theorem goesTo_far {m' : AlphaMachine} {d : Addr} (hd : d.toNat % 4 = 0) (hlt : lowPc < 2048)
    (hpc : m'.pc i = m.instrPc i lowPc + d) : AlphaMachine.goesTo i lowPc (m', .toPc) = m.cia i lowPc + d := by
  change m'.pc i &&& ~~~ 3#64 = _
  rw [hpc]
  exact far_target hd hlt

theorem goesTo_ic {m' : AlphaMachine} {nr : Nat} (hlt : lowPc < 2048)
    (hpc : m'.pc i = m.pc i ∨ m'.pc i = m.instrPc i lowPc) : AlphaMachine.goesTo i lowPc (m', .toIc nr) = m.cia i nr := by
  change m'.cia i nr = m.cia i nr
  unfold AlphaMachine.cia
  rcases hpc with hpc | hpc
  · rw [hpc]
  · have hpage : m.instrPc i lowPc &&& ~~~ 8191#64 = m.pc i &&& ~~~ 8191#64 := by
      have hcia := AlphaMachine.toNat_cia (m := m) (i := i) hlt
      apply BitVec.eq_of_toNat_eq
      rw [toNat_page, toNat_page, AlphaMachine.instrPc_eq, BitVec.toNat_add, hcia, toNat_low]
      omega
    rw [hpc, hpage]

theorem goesTo_jumped {m' : AlphaMachine} (oldPc : Addr) :
    AlphaMachine.goesTo i lowPc (m'.jumped i oldPc) = m'.pc i &&& ~~~ 3#64 := by
  unfold AlphaMachine.jumped AlphaMachine.goesTo
  by_cases hpage : oldPc &&& ~~~ 8191#64 = m'.pc i &&& ~~~ 8191#64
  · rw [if_pos hpage]
    exact AlphaMachine.page_add_instrNr _
  · rw [if_neg hpage]

theorem agrees_br_iff (bsr : Bool) (ra : RegNr) (disp : BitVec 21) (hlt : lowPc < 2048)
    (haddr : addr.toNat % 8192 = 4 * lowPc) :
    (br bsr ra disp).Agrees i lowPc m (m.transfer i lowPc ((br bsr ra disp).translation trace addr)) ↔
      (ra ≠ alphaZero → m.pc i &&& 3#64 = 0#64) := by
  have hword : (br bsr ra disp).iword.extractLsb' 0 21 = disp := (branch_fields _ ra disp).2.2
  have htarget : (br bsr ra disp).target (m.cpus i).reg (m.cia i lowPc) =
      m.cia i lowPc + (4#64 + 4#64 * disp.signExtend 64) := BitVec.add_assoc _ _ _
  have hd := displacement_aligned disp
  have hnever : ¬ (br bsr ra disp).Taken (m.cpus i).reg → False := fun h => h trivial
  unfold translation
  dsimp only
  by_cases hzero : ra = alphaZero
  · rw [if_pos hzero]
    have hregs : (br bsr ra disp).archRegs (m.cpus i).reg (m.cia i lowPc) = (m.cpus i).reg := if_pos hzero
    refine iff_of_true ?_ fun h => absurd hzero h
    obtain ⟨offset, heq, hofs⟩ | ⟨nr, -, heq, hic⟩ := branch_cases (m := m) (i := i) hword hlt haddr
    · rw [heq]
      refine ⟨fun _ => ?_, fun h => (hnever h).elim, ?_⟩
      · rw [htarget]
        exact goesTo_far hd hlt ((AlphaMachine.setPc_pc _).trans (by rw [hofs]))
      · rw [hregs]
        exact reg_setPc _
    · rw [heq]
      refine ⟨fun _ => ?_, fun h => (hnever h).elim, hregs.symm⟩
      rw [htarget, ← hic]
      exact goesTo_ic hlt (.inl rfl)
  · rw [if_neg hzero]
    have hregs : (br bsr ra disp).archRegs (m.cpus i).reg (m.cia i lowPc) =
        Function.update (m.cpus i).reg (.r ra) (m.cia i lowPc + 4#64) := if_neg hzero
    rw [forall_prop_of_true hzero, ← update_link_iff (.r ra) lowPc, ← hregs]
    obtain ⟨offset, heq, hofs⟩ | ⟨nr, -, heq, hic⟩ := branch_cases (m := m) (i := i) hword hlt haddr
    · rw [heq]
      have hleft : (((m.setReg i (.r ra) (m.instrPc i lowPc + 4#64)).setPc i
          (m.instrPc i lowPc + offset.signExtend 64)).cpus i).reg =
          Function.update (m.cpus i).reg (.r ra) (m.instrPc i lowPc + 4#64) := (reg_setPc _).trans (reg_setReg _ _)
      refine ⟨fun h => hleft.symm.trans h.regs, fun h => ⟨fun _ => ?_, fun h => (hnever h).elim, hleft.trans h⟩⟩
      rw [htarget]
      exact goesTo_far hd hlt ((AlphaMachine.setPc_pc _).trans (by rw [hofs]))
    · rw [heq]
      have hleft : (((m.setPc i (m.instrPc i lowPc)).setReg i (.r ra) (m.instrPc i lowPc + 4#64)).cpus i).reg =
          Function.update (m.cpus i).reg (.r ra) (m.instrPc i lowPc + 4#64) := by
        rw [reg_setReg, reg_setPc]
      refine ⟨fun h => hleft.symm.trans h.regs, fun h => ⟨fun _ => ?_, fun h => (hnever h).elim, hleft.trans h⟩⟩
      rw [htarget, ← hic]
      exact goesTo_ic hlt (.inr ((AlphaMachine.setReg_pc _ _).trans (AlphaMachine.setPc_pc _)))

theorem agrees_cond_iff (k : CondBranch) (ra : RegNr) (disp : BitVec 21) (hlt : lowPc < 2048)
    (haddr : addr.toNat % 8192 = 4 * lowPc) :
    (cond k ra disp).Agrees i lowPc m (m.transfer i lowPc ((cond k ra disp).translation trace addr)) ↔
      (k.fn.2 = true → (m.cpus i).reg (k.src ra) = 0x8000000000000000#64 → disp = 0#21) := by
  let x := (m.cpus i).reg (k.src ra)
  have hword : (cond k ra disp).iword.extractLsb' 0 21 = disp := (branch_fields _ ra disp).2.2
  have hd := displacement_aligned disp
  have htarget : (cond k ra disp).target (m.cpus i).reg (m.cia i lowPc) =
      m.cia i lowPc + (4#64 + 4#64 * disp.signExtend 64) := BitVec.add_assoc _ _ _
  have hsame : m.cia i lowPc + (4#64 + 4#64 * disp.signExtend 64) = m.cia i lowPc + 4#64 ↔ disp = 0#21 := by
    rw [BitVec.add_right_inj, displacement_eq_four]
  -- What is left to show is about the two conditions.
  have hiff (s : AlphaMachine × Jump) (hregs : (s.1.cpus i).reg = (m.cpus i).reg)
      (hyes : k.fn.1.holds x = true → AlphaMachine.goesTo i lowPc s = m.cia i lowPc + (4#64 + 4#64 * disp.signExtend 64))
      (hno : ¬ k.fn.1.holds x = true → AlphaMachine.goesTo i lowPc s = m.cia i lowPc + 4#64) :
      (cond k ra disp).Agrees i lowPc m s ↔ (k.fn.2 = true → x = 0x8000000000000000#64 → disp = 0#21) := by
    have hholds := k.holds_iff x
    by_cases hdisp : disp = 0#21
    · refine iff_of_true ⟨fun _ => ?_, fun _ => ?_, hregs⟩ fun _ _ => hdisp
      · rw [htarget, hsame.mpr hdisp]
        by_cases h : k.fn.1.holds x = true
        · rw [hyes h, hsame.mpr hdisp]
        · exact hno h
      · by_cases h : k.fn.1.holds x = true
        · rw [hyes h, hsame.mpr hdisp]
        · exact hno h
    · have hmeets : (k.fn.2 = true → x = 0x8000000000000000#64 → disp = 0#21) ↔
          (k.fn.2 = true → x ≠ 0x8000000000000000#64) :=
        forall_congr' fun _ => ⟨fun h hx => hdisp (h hx), fun h hx => absurd hx h⟩
      rw [hmeets, ← hholds]
      constructor
      · intro h
        by_cases hcode : k.fn.1.holds x = true
        · refine iff_of_true hcode (by_contra fun hnot => hdisp (hsame.mp ?_))
          exact (hyes hcode).symm.trans (h.next hnot)
        · refine iff_of_false hcode fun htaken => hdisp (hsame.mp ?_)
          exact htarget.symm.trans ((h.taken htaken).symm.trans (hno hcode))
      · intro h
        refine ⟨fun htaken => ?_, fun hnot => hno fun hcode => hnot (h.mp hcode), hregs⟩
        rw [htarget]
        exact hyes (h.mpr htaken)
  unfold translation
  dsimp only
  obtain ⟨offset, heq, hofs⟩ | ⟨nr, -, heq, hic⟩ := branch_cases (m := m) (i := i) hword hlt haddr
  · rw [heq]
    refine hiff _ ?_ (fun h => ?_) fun h => ?_
    · unfold AlphaMachine.transfer
      dsimp only
      split
      · exact reg_setPc _
      · rfl
    · have htrue : k.fn.1.holds (m.reg i (k.src ra)) = true := h
      unfold AlphaMachine.transfer
      dsimp only
      rw [if_pos htrue]
      exact goesTo_far hd hlt ((AlphaMachine.setPc_pc _).trans (by rw [hofs]))
    · have hfalse : ¬ k.fn.1.holds (m.reg i (k.src ra)) = true := h
      unfold AlphaMachine.transfer
      dsimp only
      rw [if_neg hfalse]
      exact goesTo_next
  · rw [heq]
    refine hiff _ rfl (fun h => ?_) fun h => ?_
    · have htrue : k.fn.1.holds (m.reg i (k.src ra)) = true := h
      unfold AlphaMachine.transfer
      dsimp only
      rw [if_pos htrue, ← hic]
      exact goesTo_ic hlt (.inl rfl)
    · have hfalse : ¬ k.fn.1.holds (m.reg i (k.src ra)) = true := h
      unfold AlphaMachine.transfer
      dsimp only
      rw [if_neg hfalse]
      exact goesTo_next

theorem agrees_jump_iff (k : JumpKind) (ra rb : RegNr) (hint : BitVec 14) (hlt : lowPc < 2048) :
    (jump k ra rb hint).Agrees i lowPc m (m.transfer i lowPc ((jump k ra rb hint).translation trace addr)) ↔
      (ra ≠ alphaZero →
        m.pc i &&& 3#64 = 0#64 ∧ (ra = rb → (m.cpus i).reg (.r rb) &&& ~~~ 3#64 = m.cia i lowPc + 4#64)) := by
  have hnever : ¬ (jump k ra rb hint).Taken (m.cpus i).reg → False := fun h => h trivial
  unfold translation
  dsimp only
  by_cases hzero : ra = alphaZero
  · rw [if_pos hzero]
    have hregs : (jump k ra rb hint).archRegs (m.cpus i).reg (m.cia i lowPc) = (m.cpus i).reg := if_pos hzero
    refine iff_of_true ⟨fun _ => ?_, fun h => (hnever h).elim, ?_⟩ fun h => absurd hzero h
    · exact (goesTo_jumped _).trans (congrArg (· &&& ~~~ 3#64) (AlphaMachine.setPc_pc _))
    · rw [hregs]
      exact reg_setPc _
  · rw [if_neg hzero, forall_prop_of_true hzero]
    have hregs : (jump k ra rb hint).archRegs (m.cpus i).reg (m.cia i lowPc) =
        Function.update (m.cpus i).reg (.r ra) (m.cia i lowPc + 4#64) := if_neg hzero
    let m' := m.setReg i (.r ra) (m.instrPc i lowPc + 4#64)
    have hleft : ((m'.setPc i (m'.reg i (.r rb))).cpus i).reg =
        Function.update (m.cpus i).reg (.r ra) (m.instrPc i lowPc + 4#64) := (reg_setPc _).trans (reg_setReg _ _)
    have hgoes : AlphaMachine.goesTo i lowPc (m.transfer i lowPc (.jsr trace (.r ra) (.r rb))) =
        m'.reg i (.r rb) &&& ~~~ 3#64 :=
      (goesTo_jumped _).trans (congrArg (· &&& ~~~ 3#64) (AlphaMachine.setPc_pc _))
    have htaken : AlphaMachine.goesTo i lowPc (m.transfer i lowPc (.jsr trace (.r ra) (.r rb))) =
        (jump k ra rb hint).target (m.cpus i).reg (m.cia i lowPc) ↔
          (ra = rb → (m.cpus i).reg (.r rb) &&& ~~~ 3#64 = m.cia i lowPc + 4#64) := by
      rw [hgoes]
      by_cases hsame : ra = rb
      · subst hsame
        have hlink : m'.reg i (.r ra) = m.instrPc i lowPc + 4#64 := AlphaMachine.setReg_reg_same
        rw [hlink, far_target (by decide) hlt, forall_prop_of_true rfl]
        exact eq_comm
      · have hother : m'.reg i (.r rb) = (m.cpus i).reg (.r rb) :=
          AlphaMachine.setReg_reg_ne fun h => hsame (RegName.r.inj h).symm
        rw [hother]
        exact iff_of_true rfl fun h => absurd h hsame
    rw [← htaken, ← update_link_iff (.r ra) lowPc, ← hregs]
    constructor
    · intro h
      exact ⟨hleft.symm.trans h.regs, h.taken trivial⟩
    · rintro ⟨hlink, hgoes⟩
      exact ⟨fun _ => hgoes, fun h => (hnever h).elim, hleft.trans hlink⟩

theorem isTransfer_translation (trace : Bool) (addr : Addr) (b : BranchInstr) :
    AlphaMachine.IsTransfer (b.translation trace addr) := by
  have hbranch {iword : BitVec 32} {far : BitVec 32 → Instr} {samepage : Nat → Instr}
      (hfar : ∀ offset, AlphaMachine.IsTransfer (far offset))
      (hsame : ∀ nr < 2048, AlphaMachine.IsTransfer (samepage nr)) :
      AlphaMachine.IsTransfer (branch addr iword far samepage) := by
    unfold branch
    dsimp only
    split
    · exact hsame _ (AlphaMachine.instrNr_lt _)
    · exact hfar _
  unfold translation
  cases b with
  | br bsr ra disp =>
    dsimp only
    split
    · exact hbranch (fun _ => trivial) fun _ hnr => hnr
    · exact hbranch (fun _ => trivial) fun _ hnr => hnr
  | cond k ra disp => exact hbranch (fun _ => trivial) fun _ hnr => hnr
  | jump k ra rb hint =>
    dsimp only
    split <;> trivial

theorem agrees_iff (trace : Bool) (b : BranchInstr) (hlt : lowPc < 2048) (haddr : addr.toNat % 8192 = 4 * lowPc) :
    b.Agrees i lowPc m (m.transfer i lowPc (b.translation trace addr)) ↔
      b.Meets (m.pc i &&& 3#64 = 0#64) (m.cpus i).reg (m.cia i lowPc) := by
  cases b with
  | br bsr ra disp => exact agrees_br_iff bsr ra disp hlt haddr
  | cond k ra disp => exact agrees_cond_iff k ra disp hlt haddr
  | jump k ra rb hint => exact agrees_jump_iff k ra rb hint hlt

theorem agrees_congr {b : BranchInstr} {m' : AlphaMachine} {s : AlphaMachine × Jump}
    (hregs : (m'.cpus i).reg = (m.cpus i).reg) (hcia : m'.cia i lowPc = m.cia i lowPc) :
    b.Agrees i lowPc m' s ↔ b.Agrees i lowPc m s := by
  constructor
  · rintro ⟨htaken, hnext, hs⟩
    rw [hregs, hcia] at htaken hnext hs
    exact ⟨htaken, hnext, hs⟩
  · rintro ⟨htaken, hnext, hs⟩
    rw [← hregs, ← hcia] at htaken hnext hs
    exact ⟨htaken, hnext, hs⟩

theorem pc_atInstr (hlt : lowPc < 2048) : (m.atInstr i lowPc).pc i = m.cia i lowPc := by
  have hfar := far_target (m := m) (i := i) (d := 0#64) (by decide) hlt
  rw [BitVec.add_zero, BitVec.add_zero] at hfar
  exact (AlphaMachine.setPc_pc _).trans hfar

theorem cia_atInstr (hlt : lowPc < 2048) : (m.atInstr i lowPc).cia i lowPc = m.cia i lowPc := by
  have hcia := AlphaMachine.toNat_cia (m := m) (i := i) hlt
  have hcia' := AlphaMachine.toNat_cia (m := m.atInstr i lowPc) (i := i) hlt
  rw [pc_atInstr hlt] at hcia'
  apply BitVec.eq_of_toNat_eq
  omega

end

section
variable (cfg : ExecConf) (io : Io) (i lowPc : Nat) (m : AlphaMachine) (b : BranchInstr) (translatedAt : Option Addr)

/-- The instruction is executed: it is translated now, or it has been translated, at an address that may be another one of
its page. -/
def visit : Except Exit AlphaMachine :=
  match translatedAt with
  | none => m.translateAndExecute cfg io i lowPc b.iword
  | some addr => do
    match ← toBeTranslated cfg.showTraceTree addr b.iword with
    | some instr => m.execute cfg io i lowPc instr
    | none => return m

def entered : AlphaMachine := if translatedAt = none then m.atInstr i lowPc else m

def done : AlphaMachine × Jump :=
  (entered i lowPc m translatedAt).transfer i lowPc
    (b.translation cfg.showTraceTree (translatedAt.getD ((m.atInstr i lowPc).pc i)))

/-- The branch leaves as its function says, execution goes on there, and that is what the architecture says. -/
structure Correct : Prop where
  leaves : (visit cfg io i lowPc m b translatedAt >>= fun m' => m'.goOn cfg io i) =
    AlphaMachine.leave cfg io i (done cfg i lowPc m b translatedAt)
  arrives : ∀ m', AlphaMachine.leave cfg io i (done cfg i lowPc m b translatedAt) = .ok m' →
    m'.nextAddr i = AlphaMachine.goesTo i lowPc (done cfg i lowPc m b translatedAt) ∧
      (m'.cpus i).reg = ((done cfg i lowPc m b translatedAt).1.cpus i).reg
  agrees : b.Agrees i lowPc m (done cfg i lowPc m b translatedAt)

end

section
variable {cfg : ExecConf} {io : Io} {i lowPc : Nat} {m : AlphaMachine} {b : BranchInstr}

theorem nextIc_setPc (pc : Addr) : ((m.setPc i pc).cpus i).dyn.nextIc = (m.cpus i).dyn.nextIc := by
  simp [AlphaMachine.setPc, AlphaMachine.setDyn]

theorem nextIc_transfer {instr : Instr} (h : AlphaMachine.IsTransfer instr) (hnext : (m.transfer i lowPc instr).2 = .next) :
    ((m.transfer i lowPc instr).1.cpus i).dyn.nextIc = (m.cpus i).dyn.nextIc := by
  cases instr with
  | jsr trace dst target =>
    unfold AlphaMachine.transfer AlphaMachine.jumped at hnext
    dsimp only at hnext
    split at hnext <;> cases hnext
  | jsr0 trace target =>
    unfold AlphaMachine.transfer AlphaMachine.jumped at hnext
    dsimp only at hnext
    split at hnext <;> cases hnext
  | brCond cond offset src =>
    unfold AlphaMachine.transfer at hnext ⊢
    dsimp only at hnext ⊢
    split at hnext
    · cases hnext
    · rename_i hno
      rw [if_neg hno]
  | brCondSamepage cond nr src => rfl
  | br offset => cases hnext
  | brReturn offset dst => cases hnext
  | brSamepage nr => cases hnext
  | brReturnSamepage nr dst => cases hnext
  | _ => cases h

/-- Every branch and jump, in every instruction of a page. A link is right if the program counter has no low bits, which
are lost when the instruction is translated, and if rb is not ra. Minus zero is only a floating point zero. -/
theorem transfers_agree_iff (cfg : ExecConf) (io : Io) (i lowPc : Nat) (m : AlphaMachine) (b : BranchInstr)
    (translatedAt : Option Addr) (hlt : lowPc < 2048) (hnext : (m.cpus i).dyn.nextIc = lowPc + 1)
    (haddr : ∀ addr, translatedAt = some addr → addr &&& 8191#64 = BitVec.ofNat 64 (4 * lowPc)) :
    Correct cfg io i lowPc m b translatedAt ↔
      b.Meets (translatedAt = none ∨ m.pc i &&& 3#64 = 0#64) (m.cpus i).reg (m.cia i lowPc) := by
  have hofs (addr : Addr) (h : addr &&& 8191#64 = BitVec.ofNat 64 (4 * lowPc)) : addr.toNat % 8192 = 4 * lowPc := by
    have hmask : (addr &&& 8191#64).toNat = addr.toNat % 8192 := Lib.toNat_and_mask addr 13 (by decide)
    rw [← hmask, h, BitVec.toNat_ofNat]
    omega
  cases translatedAt with
  | some addr =>
    have ha := hofs addr (haddr addr rfl)
    have htransfer := isTransfer_translation cfg.showTraceTree addr b
    have hvisit : visit cfg io i lowPc m b (some addr) =
        m.execute cfg io i lowPc (b.translation cfg.showTraceTree addr) := by
      unfold visit
      dsimp only
      rw [toBeTranslated_eq]
      rfl
    have hmeets : (some addr = none ∨ m.pc i &&& 3#64 = 0#64) = (m.pc i &&& 3#64 = 0#64) := by simp
    rw [hmeets, ← agrees_iff cfg.showTraceTree b hlt ha]
    constructor
    · intro h
      exact h.agrees
    · intro h
      refine ⟨?_, fun m' hm' => ?_, h⟩
      · rw [hvisit]
        exact AlphaMachine.execute_leave htransfer
      · exact AlphaMachine.leave_arrives (fun h => (nextIc_transfer htransfer h).trans hnext) hm'
  | none =>
    let m0 := m.atInstr i lowPc
    have hpc : m0.pc i = m.cia i lowPc := pc_atInstr hlt
    have ha : (m0.pc i).toNat % 8192 = 4 * lowPc := by
      rw [hpc, AlphaMachine.toNat_cia hlt]
      omega
    have hregs : (m0.cpus i).reg = (m.cpus i).reg := reg_setPc _
    have hcia : m0.cia i lowPc = m.cia i lowPc := cia_atInstr hlt
    have haligned : m0.pc i &&& 3#64 = 0#64 := by
      apply BitVec.eq_of_toNat_eq
      rw [toNat_low, hpc, AlphaMachine.toNat_cia hlt, BitVec.toNat_zero]
      omega
    have htransfer := isTransfer_translation cfg.showTraceTree (m0.pc i) b
    have hvisit : visit cfg io i lowPc m b none = m0.execute cfg io i lowPc (b.translation cfg.showTraceTree (m0.pc i)) := by
      change m.translateAndExecute cfg io i lowPc b.iword = _
      unfold AlphaMachine.translateAndExecute
      dsimp only
      rw [toBeTranslated_eq]
      rfl
    have hmeets : (none = (none : Option Addr) ∨ m.pc i &&& 3#64 = 0#64) = (m0.pc i &&& 3#64 = 0#64) := by
      simp [haligned]
    have hic : (m0.cpus i).dyn.nextIc = lowPc + 1 := (nextIc_setPc _).trans hnext
    rw [hmeets, ← hregs, ← hcia, ← agrees_iff cfg.showTraceTree b hlt ha, agrees_congr hregs hcia]
    constructor
    · intro h
      exact h.agrees
    · intro h
      refine ⟨?_, fun m' hm' => ?_, h⟩
      · rw [hvisit]
        exact AlphaMachine.execute_leave htransfer
      · exact AlphaMachine.leave_arrives (fun h => (nextIc_transfer htransfer h).trans hic) hm'

end

/-- `bsr` to the instruction after the next one, from the last instruction of a page. -/
theorem last_bsr_correct :
    Correct AlphaMachine.execConf AlphaMachine.ramIo 0 2047 (AlphaMachine.paged.setNextIc 0 2048) (br true 26#5 1#21)
      (some 0x1ffc#64) :=
  (transfers_agree_iff AlphaMachine.execConf AlphaMachine.ramIo 0 2047 (AlphaMachine.paged.setNextIc 0 2048)
    (br true 26#5 1#21) (some 0x1ffc#64) (by decide) (by decide +kernel) (by rintro _ ⟨⟩; decide)).mpr
    fun _ => .inr (by decide +kernel)

/-- `jsr $27,($27)` at address 0, with 0 in r27, goes on at 4. -/
theorem not_transfers_agree :
    ¬ ∀ (cfg : ExecConf) (io : Io) (i lowPc : Nat) (m : AlphaMachine) (b : BranchInstr) (translatedAt : Option Addr),
      lowPc < 2048 → (m.cpus i).dyn.nextIc = lowPc + 1 →
      (∀ addr, translatedAt = some addr → addr &&& 8191#64 = BitVec.ofNat 64 (4 * lowPc)) →
      Correct cfg io i lowPc m b translatedAt := by
  intro hall
  have hjsr := hall AlphaMachine.execConf AlphaMachine.ramIo 0 0 (AlphaMachine.paged.setNextIc 0 1)
    (jump .jsr 27#5 27#5 0#14) none (by decide) (by decide +kernel) (fun _ h => by cases h)
  exact absurd (hjsr.agrees.taken trivial) (by decide +kernel)

end BranchInstr

end Alpha

end Gxemul
