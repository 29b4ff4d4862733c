import Gxemul.Arm.BankedRuns
import Gxemul.Arm.LoadStoreAgree
import Gxemul.Arm.MultiplePage

/- The generated functions for ARM load and store multiple, and the general ones.

   A block within one page is transferred in the byte order of the host, and a program
   counter is taken as it is found in memory. Everything else is the same, and a word
   that faults is left to the general function, which takes the data abort before it
   has written any register. -/
namespace Gxemul.Arm
open Lib (Byte ByteMem)

/-! ## Words that are loaded and stored as they are -/

theorem byteAt_and (x y : Word) (n : Nat) : byteAt (x &&& y) n = byteAt x n &&& byteAt y n := by
  unfold byteAt
  rw [BitVec.ushiftRight_and_distrib, BitVec.setWidth_and]

theorem eq_of_byteAt {x y : Word} (h0 : byteAt x 0 = byteAt y 0) (h8 : byteAt x 8 = byteAt y 8)
    (h16 : byteAt x 16 = byteAt y 16) (h24 : byteAt x 24 = byteAt y 24) : x = y := by
  apply BitVec.eq_of_toNat_eq
  rw [toNat_eq_bytes x, toNat_eq_bytes y, h0, h8, h16, h24]

theorem convert_aligned_iff (c : ArmConf) (x : Word) :
    c.convert x &&& 0xfffffffc#32 = x ↔ c.convert x = x ∧ x &&& 3#32 = 0#32 := by
  have hlow : ∀ y : Word, y &&& 0xfffffffc#32 = y ↔ y &&& 3#32 = 0#32 := by
    intro y
    have hsplit : (y &&& 0xfffffffc#32) ||| (y &&& 3#32) = y := by
      rw [← BitVec.and_or_distrib_left, show 0xfffffffc#32 ||| 3#32 = BitVec.allOnes 32 by decide, BitVec.and_allOnes]
    constructor
    · intro h
      rw [← h, BitVec.and_assoc, show 0xfffffffc#32 &&& 3#32 = 0#32 by decide, BitVec.and_zero]
    · intro h
      rwa [h, BitVec.or_zero] at hsplit
  constructor
  · intro h
    have hconv : c.convert x = x := by
      unfold ArmConf.convert at h ⊢
      split
      · rename_i hbig
        rw [if_pos hbig] at h
        obtain ⟨h0, h8, h16, h24⟩ := byteAt_swap32 x
        -- the bytes of the word from the top: only the lowest one is masked
        have hb0 : byteAt x 24 &&& 0xfc#8 = byteAt x 0 := by
          calc byteAt x 24 &&& 0xfc#8 = byteAt (swap32 x &&& 0xfffffffc#32) 0 := by rw [byteAt_and, h0]; rfl
            _ = byteAt x 0 := by rw [h]
        have hb8 : byteAt x 16 = byteAt x 8 := by
          calc byteAt x 16 = byteAt (swap32 x &&& 0xfffffffc#32) 8 := by
                rw [byteAt_and, h8]
                exact (BitVec.and_allOnes).symm
            _ = byteAt x 8 := by rw [h]
        have hb24 : byteAt x 0 = byteAt x 24 := by
          calc byteAt x 0 = byteAt (swap32 x &&& 0xfffffffc#32) 24 := by
                rw [byteAt_and, h24]
                exact (BitVec.and_allOnes).symm
            _ = byteAt x 24 := by rw [h]
        exact eq_of_byteAt (h0.trans hb24.symm) (h8.trans hb8) (h16.trans hb8.symm) (h24.trans hb24)
      · rfl
    rw [hconv] at h
    exact ⟨hconv, (hlow x).mp h⟩
  · rintro ⟨hconv, h⟩
    rw [hconv]
    exact (hlow x).mpr h

namespace ArmMachine
variable {c : ArmConf} {io : ArmIo} {s s' : ArmMachine} {op : MultiOpcode} {iw : Word} {lowPc : Nat}

/-! ## The same block -/

/-- What a program sees after a block has been transferred. Register 15 is the program
counter. It is behind by what is left of the page until it is needed. -/
def blockView (lowPc : Nat) (r : ArmMachine × BlockEnd) : ArmMachine × BlockEnd :=
  (r.1.withRegs (Function.update r.1.cpu.r armPc 0) (if r.2 = .next then r.1.icPc lowPc else r.1.cpu.pc), r.2)

/-- Two functions leave the same registers, memory and program counter, or both exit. -/
def SameBlock (lowPc : Nat) (r r' : Except Exit (ArmMachine × BlockEnd)) : Prop :=
  r.map (blockView lowPc) = r'.map (blockView lowPc)

/-- The words of a block that are transferred are the same in the byte orders of the CPU and
of the host, and a program counter that is loaded is aligned. -/
def KeepsWords (c : ArmConf) (s : ArmMachine) (opcode : Word) (lowPc p : Nat) : Prop :=
  if lBit opcode then
    (∀ i ∈ regList opcode, i ≠ 15 → ¬ (wBit opcode = true ∧ i = rn opcode) →
      c.convert (s.multiWord c opcode p i) = s.multiWord c opcode p i) ∧
    (15 ∈ regList opcode → c.convert (s.multiWord c opcode p 15) = s.multiWord c opcode p 15 ∧
      s.multiWord c opcode p 15 &&& 3#32 = 0#32)
  else ∀ i ∈ regList opcode, c.convert (s.stored lowPc i) = s.stored lowPc i

theorem withRegs_inj {r r' : Nat → Word} {pc pc' : Word} :
    s.withRegs r pc = s.withRegs r' pc' ↔ r = r' ∧ pc = pc' := by
  constructor
  · intro h
    have hcpu := congrArg ArmMachine.cpu h
    exact ⟨congrArg ArmCpu.r hcpu, congrArg ArmCpu.pc hcpu⟩
  · rintro ⟨rfl, rfl⟩
    rfl

theorem sameRegs_iff (word word' : Nat → Word) :
    Function.update (s.baseWritten op.opcode (regsLoaded op.opcode word s.cpu.r)) armPc 0 =
      Function.update (s.baseWritten op.opcode fun i => if i ∈ regList op.opcode then word' i else s.cpu.r i) armPc 0 ↔
    ∀ i ∈ regList op.opcode, i ≠ 15 → ¬ (wBit op.opcode = true ∧ i = rn op.opcode) → word' i = word i := by
  have hfast : ∀ i, i ≠ 15 → ¬ (wBit op.opcode = true ∧ i = rn op.opcode) →
      s.baseWritten op.opcode (regsLoaded op.opcode word s.cpu.r) i =
        if i ∈ regList op.opcode then word i else s.cpu.r i := by
    intro i h15 hbase
    have hloaded : regsLoaded op.opcode word s.cpu.r i = if i ∈ regList op.opcode then word i else s.cpu.r i := by
      unfold regsLoaded
      simp only [ne_eq, h15, not_false_eq_true, hbase, and_true]
    unfold baseWritten
    split
    · rename_i hw
      rw [Function.update_of_ne (fun he => hbase ⟨hw, he⟩), hloaded]
    · exact hloaded
  have hslow : ∀ i, ¬ (wBit op.opcode = true ∧ i = rn op.opcode) →
      s.baseWritten op.opcode (fun i => if i ∈ regList op.opcode then word' i else s.cpu.r i) i =
        if i ∈ regList op.opcode then word' i else s.cpu.r i := by
    intro i hbase
    unfold baseWritten
    split
    · rename_i hw
      rw [Function.update_of_ne (fun he => hbase ⟨hw, he⟩)]
    · rfl
  constructor
  · intro h i hi h15 hbase
    have hat := congrFun h i
    have hpc : i ≠ armPc := h15
    rw [Function.update_of_ne hpc, Function.update_of_ne hpc, hfast i h15 hbase, hslow i hbase, if_pos hi, if_pos hi]
      at hat
    exact hat.symm
  · intro h
    funext i
    by_cases h15 : i = 15
    · subst h15
      rw [show (15 : Nat) = armPc from rfl, Function.update_self, Function.update_self]
    · have hpc : i ≠ armPc := h15
      rw [Function.update_of_ne hpc, Function.update_of_ne hpc]
      by_cases hbase : wBit op.opcode = true ∧ i = rn op.opcode
      · unfold baseWritten
        rw [if_pos hbase.1, if_pos hbase.1, hbase.2, Function.update_self, Function.update_self]
      · rw [hfast i h15 hbase, hslow i hbase]
        by_cases hi : i ∈ regList op.opcode
        · rw [if_pos hi, if_pos hi, h i hi h15 hbase]
        · rw [if_neg hi, if_neg hi]

theorem mem_regList_pc (opcode : Word) : 15 ∈ regList opcode ↔ ArmCpu.inList opcode 15 = true := by
  rw [mem_regList]
  exact and_iff_right (by decide)

theorem multi_load_iff (hlow : lowPc < 1024) {p : Nat} (hl : lBit op.opcode = true)
    (h : s.multiPtr op.opcode = some p) :
    SameBlock lowPc (s.multi c io op iw lowPc) (s.bdt c io op.opcode lowPc) ↔ s.KeepsWords c op.opcode lowPc p := by
  unfold SameBlock bdt KeepsWords
  rw [multi_load_page op hl h, if_pos hl, if_pos hl, bdtLoad_page op hl h]
  simp only [Except.map, Except.ok.injEq, blockView, Prod.mk.injEq, and_true]
  rw [← sameRegs_iff (s := s) (fun i => s.multiWord c op.opcode p i) (fun i => c.convert (s.multiWord c op.opcode p i))]
  show s.withRegs _ _ = s.withRegs _ _ ↔ _
  rw [withRegs_inj]
  refine and_congr_right fun _ => ?_
  cases hin : ArmCpu.inList op.opcode 15 with
  | true =>
    have h15 : 15 ∈ regList op.opcode := (mem_regList_pc _).mpr hin
    simp only [h15, if_true, reduceCtorEq, if_false, true_imp_iff]
    rw [← convert_aligned_iff]
    exact eq_comm
  | false =>
    have h15 : 15 ∉ regList op.opcode := fun h => by
      rw [(mem_regList_pc _).mp h] at hin
      cases hin
    simp only [h15, if_false, Bool.false_eq_true, if_true, false_imp_iff, iff_true]
    exact (icPc_syncPc hlow).symm

theorem image_inj (c : ArmConf) {x y : Word} : image c x = image c y ↔ x = y := by
  unfold image
  rw [Lib.bytes_inj, Nat.mod_eq_of_lt (by omega), Nat.mod_eq_of_lt (by omega), BitVec.toNat_inj]

theorem multi_store_iff (hlow : lowPc < 1024) {p : Nat} (hl : lBit op.opcode = false)
    (h : s.multiPtr op.opcode = some p) :
    SameBlock lowPc (s.multi c io op iw lowPc) (s.bdt c io op.opcode lowPc) ↔ s.KeepsWords c op.opcode lowPc p := by
  obtain ⟨page, -, hptr⟩ := multiPtr_spec h
  have hmem := ByteMem.writeAll_inj s.host (nodup_regList op.opcode) (apart_words (c := c) hptr (s.stored lowPc))
    (g := fun i => image c (c.convert (s.stored lowPc i)))
    (fun i _ => (Lib.length_bytes c.hostBig 4 _).trans (Lib.length_bytes c.hostBig 4 _).symm)
  simp only [image_inj] at hmem
  unfold SameBlock bdt KeepsWords
  rw [multi_store_page op hl h, if_neg (by simp [hl]), if_neg (by simp [hl]), bdtStore_page op hl h]
  simp only [Except.map, Except.ok.injEq, blockView, Prod.mk.injEq, and_true]
  constructor
  · intro heq i hi
    exact (hmem.mp (congrArg ArmMachine.host heq) i hi).symm
  · intro hkeep
    rw [hmem.mpr fun i hi => (hkeep i hi).symm]
    generalize s.host.writeAll _ _ _ = m
    exact congrArg (ArmMachine.withRegs { s with host := m } (Function.update (s.baseWritten op.opcode s.cpu.r) armPc 0))
      (icPc_syncPc hlow).symm

/-! ## The last call -/

section
variable (cpu : ArmCpu) (v : Word)

theorem saveRegisterBank_pc : (cpu.setReg armPc v).saveRegisterBank = cpu.saveRegisterBank.map (·.setReg armPc v) := by
  have hout : ∀ n ≤ 7, ∀ bank, copyOut n (Function.update cpu.r armPc v) bank = copyOut n cpu.r bank := by
    intro n hn bank
    funext i
    unfold copyOut
    split
    · exact Function.update_of_ne (by unfold armPc; omega) _ _
    · rfl
  have hpair : ∀ bank, savePair (Function.update cpu.r armPc v) bank = savePair cpu.r bank := fun _ => rfl
  unfold ArmCpu.saveRegisterBank ArmCpu.setReg
  simp only [hout 7 (by decide), hout 5 (by decide), hpair]
  split <;> rfl

theorem loadRegisterBank_pc : (cpu.setReg armPc v).loadRegisterBank = cpu.loadRegisterBank.map (·.setReg armPc v) := by
  have hin : ∀ n ≤ 7, ∀ bank, copyIn n bank (Function.update cpu.r armPc v) =
      Function.update (copyIn n bank cpu.r) armPc v := by
    intro n hn bank
    funext i
    by_cases hi : i = armPc
    · subst hi
      have hout : ¬ (8 ≤ armPc ∧ armPc < 8 + n) := by
        unfold armPc
        omega
      unfold copyIn
      rw [if_neg hout, Function.update_self, Function.update_self]
    · unfold copyIn
      rw [Function.update_of_ne hi, Function.update_of_ne hi]
  have hpair : ∀ bank r, loadPair bank (Function.update r armPc v) = Function.update (loadPair bank r) armPc v := by
    intro bank r
    unfold loadPair
    rw [Function.update_comm (by decide : armPc ≠ 13), Function.update_comm (by decide : armPc ≠ 14)]
  unfold ArmCpu.loadRegisterBank ArmCpu.setReg
  simp only [hin 7 (by decide), hin 5 (by decide), hpair]
  split <;> rfl

/-- The status words when an exception has been taken, before its registers are loaded. -/
def enter (e : ArmException) (t : ArmCpu) : ArmCpu :=
  let t := t.syncFlags.setSpsr e.mode t.syncFlags.cpsr
  { t with cpsr := ArmCpu.exceptionCpsr e t.cpsr }

def arrive (e : ArmException) (retaddr : Word) (t : ArmCpu) : ArmCpu :=
  { (t.setReg armLr retaddr).setReg armPc ((t.setReg armLr retaddr).vector e) with
    pc := (t.setReg armLr retaddr).vector e }

theorem armException_eq {e : ArmException} (he : e ≠ .reset) : cpu.armException e =
    (do
      let t ← cpu.saveRegisterBank
      let t ← (enter e t).loadRegisterBank
      return arrive e (cpu.returnAddress e) t) := by
  unfold ArmCpu.armException
  rw [if_neg he]
  rfl

theorem armException_pc (e : ArmException) : (cpu.setReg armPc v).armException e = cpu.armException e := by
  by_cases he : e = .reset
  · unfold ArmCpu.armException
    rw [if_pos he, if_pos he]
    rfl
  · rw [armException_eq _ he, armException_eq _ he, saveRegisterBank_pc]
    cases cpu.saveRegisterBank with
    | error x => rfl
    | ok t =>
      have henter : enter e (t.setReg armPc v) = (enter e t).setReg armPc v := by
        unfold enter
        cases e.mode <;> rfl
      show (do
        let t ← (enter e (t.setReg armPc v)).loadRegisterBank
        return arrive e _ t) = (do
        let t ← (enter e t).loadRegisterBank
        return arrive e _ t)
      rw [henter, loadRegisterBank_pc]
      cases (enter e t).loadRegisterBank with
      | error x => rfl
      | ok b =>
        have harrive : arrive e (cpu.returnAddress e) (b.setReg armPc v) = arrive e (cpu.returnAddress e) b := by
          have hregs : ∀ w, Function.update (Function.update (Function.update b.r armPc v) armLr
              (cpu.returnAddress e)) armPc w = Function.update (Function.update b.r armLr (cpu.returnAddress e)) armPc w := by
            intro w
            rw [Function.update_comm (by decide : armPc ≠ armLr), Function.update_idem]
          exact congrArg (fun r => ({ b with r, pc := b.vector e } : ArmCpu)) (hregs (b.vector e))
        exact congrArg Except.ok harrive

end

variable (s) in
def erasePc : ArmMachine := { s with cpu := s.cpu.setReg armPc 0 }

theorem erasePc_erasePc : s.erasePc.erasePc = s.erasePc := by
  unfold erasePc ArmCpu.setReg
  rw [Function.update_idem]

theorem pointTo_erasePc (physaddr : Addr) :
    (s.erasePc.pointTo c io physaddr).map erasePc = (s.pointTo c io physaddr).map erasePc := by
  unfold pointTo
  dsimp only
  show (do
    let dyn ← s.dyn.pointTo c.conf io.hostaddr (s.cpu.pc.setWidth 64) (s.dyn.tables.l3Of .arm (s.cpu.pc.setWidth 64)) physaddr
    return ({ s.erasePc with dyn } : ArmMachine)).map erasePc = _
  cases s.dyn.pointTo c.conf io.hostaddr (s.cpu.pc.setWidth 64) (s.dyn.tables.l3Of .arm (s.cpu.pc.setWidth 64)) physaddr with
  | error x => rfl
  | ok dyn => exact congrArg Except.ok (erasePc_erasePc (s := { s with dyn }))

theorem translateV2p_erasePc (vaddr : Word) (write useraccess : Bool) :
    s.erasePc.translateV2p c io vaddr write useraccess =
      (s.translateV2p c io vaddr write useraccess).map fun r => (r.1.erasePc, r.2) := by
  have htable : s.erasePc.findTable io = (s.findTable io).erasePc := by
    unfold findTable
    show (if s.translationTable = none ∨ s.cpu.ttb ≠ s.lastTtb then _ else _) = _
    split <;> rfl
  unfold translateV2p
  dsimp only
  show (if s.mmuOn then _ else _) = _
  split
  · rw [htable]
    show (do
      let r ← ((s.findTable io).walk io).translate c vaddr write useraccess
      _) = _
    cases ((s.findTable io).walk io).translate c vaddr write useraccess <;> rfl
  · rfl

theorem pcToPointersGeneric_erasePc (n : Nat) : (s.erasePc.pcToPointersGeneric c io n).map erasePc =
    (s.pcToPointersGeneric c io n).map erasePc := by
  cases n with
  | zero => rfl
  | succ n =>
    rw [pcToPointersGeneric, pcToPointersGeneric]
    show (if s.pcSlot.hostLoad ≠ none then s.erasePc.pointTo c io s.pcSlot.physAddr else do
      let x ← s.erasePc.translateV2p c io s.cpu.pc false false
      _).map erasePc = _
    split
    · exact pointTo_erasePc _
    · rw [translateV2p_erasePc]
      cases s.translateV2p c io s.cpu.pc false false with
      | error x => rfl
      | ok tr =>
        obtain ⟨t, paddr | fsr⟩ := tr
        · exact pointTo_erasePc _
        · show (do
            let cpu ← (t.cpu.setReg armPc 0).armException .prefAbt
            _ : Except Exit ArmMachine).map erasePc = (do
            let cpu ← t.cpu.armException .prefAbt
            _ : Except Exit ArmMachine).map erasePc
          rw [armException_pc]
          rfl

theorem pcToPointers_erasePc : (s.erasePc.pcToPointers c io).map erasePc = (s.pcToPointers c io).map erasePc := by
  have hslot : s.erasePc.pcSlot = s.pcSlot := rfl
  unfold pcToPointers quick
  rw [hslot]
  cases s.pcSlot.physPage with
  | some ppp =>
    exact congrArg Except.ok (erasePc_erasePc (s := { s with
      dyn := { s.dyn with curIcPage := ppp, nextIc := Arch.arm.pcToIcEntry (s.cpu.pc.setWidth 64) } }))
  | none => exact pcToPointersGeneric_erasePc io.stack

theorem SameBlock.finish {r r' : Except Exit (ArmMachine × BlockEnd)} (h : SameBlock lowPc r r') :
    SameBlock lowPc (r >>= finish c io) (r' >>= finish c io) := by
  cases r with
  | error x =>
    cases r' with
    | error x' => cases h; rfl
    | ok y => cases h
  | ok y =>
    cases r' with
    | error x' => cases h
    | ok y' =>
      obtain ⟨t, e⟩ := y
      obtain ⟨t', e'⟩ := y'
      have hview : blockView lowPc (t, e) = blockView lowPc (t', e') := Except.ok.inj h
      obtain rfl : e = e' := congrArg Prod.snd hview
      cases e with
      | next => exact h
      | failed => exact h
      | branch =>
        have hsame : t.erasePc = t'.erasePc := congrArg Prod.fst hview
        have hrun : (t.pcToPointers c io).map erasePc = (t'.pcToPointers c io).map erasePc := by
          rw [← pcToPointers_erasePc, hsame, pcToPointers_erasePc]
        have hbranch : ∀ t : ArmMachine, (ArmMachine.finish c io (t, .branch)).map (blockView lowPc) =
            ((t.pcToPointers c io).map erasePc).map fun t => (t, BlockEnd.branch) := by
          intro t
          show (do
            let t ← t.pcToPointers c io
            return (t, BlockEnd.branch)).map (blockView lowPc) = _
          cases t.pcToPointers c io <;> rfl
        show (ArmMachine.finish c io (t, .branch)).map _ = (ArmMachine.finish c io (t', .branch)).map _
        rw [hbranch, hbranch, hrun]

/-! ## A word that faults -/

theorem accessPaddr_cpu {a : Access} {paddr : Addr} {ok : Nat} {data data' : List Byte} {done : Bool}
    (h : s.accessPaddr c io a paddr ok data = .ok (s', data', done)) : s'.cpu = s.cpu := by
  obtain ⟨⟨dyn, mem, d⟩, -, h⟩ := Lib.bind_eq_ok h
  cases h
  rfl

theorem translateV2p_cpu {vaddr : Word} {write useraccess : Bool} {r : V2pResult}
    (h : s.translateV2p c io vaddr write useraccess = .ok (s', r)) : s'.cpu = s.cpu := by
  obtain rfl | rfl := translateV2p_same h
  · exact findTable_cpu
  · rfl

theorem memoryRw_cpu {a : Access} {data data' : List Byte} (h : s.memoryRw c io a data = .ok (s', data', true)) :
    s'.cpu = s.cpu := by
  unfold memoryRw at h
  split at h
  · exact accessPaddr_cpu h
  · obtain ⟨⟨t, r⟩, hv, h⟩ := Lib.bind_eq_ok h
    cases r with
    | ok paddr access subpage => exact (accessPaddr_cpu h).trans (translateV2p_cpu hv)
    | fault fsr =>
      dsimp only at h
      split at h
      · cases h
      · obtain ⟨t', -, h⟩ := Lib.bind_eq_ok h
        cases h

theorem popWord_cpu {addr value : Word} (h : s.popWord c io addr = .ok (s', some value)) : s'.cpu = s.cpu := by
  unfold popWord at h
  split at h
  · cases h
    rfl
  · obtain ⟨⟨t, data, ok⟩, hrw, h⟩ := Lib.bind_eq_ok h
    cases ok with
    | false => cases h
    | true =>
      cases h
      exact memoryRw_cpu hrw

theorem pushWord_cpu {addr value : Word} (h : s.pushWord c io addr value = .ok (s', true)) : s'.cpu = s.cpu := by
  unfold pushWord at h
  split at h
  · cases h
    rfl
  · obtain ⟨⟨t, data, ok⟩, hrw, h⟩ := Lib.bind_eq_ok h
    cases h
    exact memoryRw_cpu hrw

theorem popWords_reached {p u : Bool} {iw : Word} {order : List Nat} {addr addr' : Word} {new new' : Nat → Word}
    (hin : ∀ i ∈ order, ArmCpu.inList iw i = true)
    (h : s.popWords c io p u iw order addr new = .ok (s', some (addr', new'))) :
    addr' = wordAddr u addr order.length ∧ s'.cpu = s.cpu ∧
    ∀ rest, s.popWords c io p u iw (order ++ rest) addr new = s'.popWords c io p u iw rest addr' new' := by
  induction order generalizing s addr new with
  | nil =>
    have haddr : wordAddr u addr 0 = addr := by cases u <;> simp [wordAddr]
    cases h
    exact ⟨haddr.symm, rfl, fun _ => rfl⟩
  | cons i order ih =>
    have hi := hin i List.mem_cons_self
    rw [popWords, if_pos hi] at h
    obtain ⟨⟨t, value⟩, hword, h⟩ := Lib.bind_eq_ok h
    cases value with
    | none => cases h
    | some value =>
      obtain ⟨haddr, hcpu, hrest⟩ := ih (fun j hj => hin j (List.mem_cons_of_mem _ hj)) h
      refine ⟨?_, hcpu.trans (popWord_cpu hword), fun rest => ?_⟩
      · rw [haddr, show (if p then (if p then stepWord u addr else addr) else stepWord u (if p then stepWord u addr else addr))
          = stepWord u addr from nextAddr p u addr, stepWord_wordAddr]
        rfl
      · rw [List.cons_append, popWords, if_pos hi]
        dsimp only
        rw [hword]
        exact hrest rest

theorem pushWords_reached {p u sb : Bool} {iw : Word} {order : List Nat} {addr addr' : Word}
    (hin : ∀ i ∈ order, ArmCpu.inList iw i = true)
    (h : s.pushWords c io p u sb iw order addr = .ok (s', some addr')) :
    addr' = wordAddr u addr order.length ∧ s'.cpu = s.cpu ∧
    ∀ rest, s.pushWords c io p u sb iw (order ++ rest) addr = s'.pushWords c io p u sb iw rest addr' := by
  induction order generalizing s addr with
  | nil =>
    have haddr : wordAddr u addr 0 = addr := by cases u <;> simp [wordAddr]
    cases h
    exact ⟨haddr.symm, rfl, fun _ => rfl⟩
  | cons i order ih =>
    have hi := hin i List.mem_cons_self
    rw [pushWords, if_pos hi] at h
    obtain ⟨⟨t, ok⟩, hword, h⟩ := Lib.bind_eq_ok h
    cases ok with
    | false => cases h
    | true =>
      obtain ⟨haddr, hcpu, hrest⟩ := ih (fun j hj => hin j (List.mem_cons_of_mem _ hj)) h
      refine ⟨?_, hcpu.trans (pushWord_cpu hword), fun rest => ?_⟩
      · rw [haddr, show (if p then (if p then stepWord u addr else addr) else stepWord u (if p then stepWord u addr else addr))
          = stepWord u addr from nextAddr p u addr, stepWord_wordAddr]
        rfl
      · rw [List.cons_append, pushWords, if_pos hi]
        dsimp only
        rw [hword]
        exact hrest rest

theorem memoryRw_fault {a : Access} (data : List Byte) {t : ArmMachine} {fsr : Word} (hphys : a.physical = false)
    (hexc : a.noExceptions = false) (hcache : a.cache ≠ cacheInstruction)
    (h : s.translateV2p c io (a.vaddr.setWidth 32) a.write (hasFlag a.miscFlags memoryUserAccess) = .ok (t, .fault fsr)) :
    s.memoryRw c io a data = (do
      let t ← ArmMachine.exception c io { t with cpu := { t.cpu with far := a.vaddr.setWidth 32, fsr } } .dataAbt
      return (t, data, false)) := by
  unfold memoryRw
  rw [if_neg (by simp [hphys]), h]
  show (if a.noExceptions then _ else _) = _
  rw [if_neg (by simp [hexc])]
  unfold fault
  rw [if_neg hcache]

theorem wordAccess (addr : Word) (write : Bool) : Access.physical ⟨addr.setWidth 64, 4, write, cacheData⟩ = false ∧
    Access.noExceptions ⟨addr.setWidth 64, 4, write, cacheData⟩ = false ∧
    Access.cache ⟨addr.setWidth 64, 4, write, cacheData⟩ ≠ cacheInstruction ∧
    hasFlag cacheData memoryUserAccess = false :=
  ⟨(by decide : hasFlag cacheData physicalFlag = false), (by decide : hasFlag cacheData noExceptionsFlag = false),
    (by decide : cacheData &&& cacheFlagsMask ≠ cacheInstruction), by decide⟩

theorem setWidth_setWidth (addr : Word) : (addr.setWidth 64).setWidth 32 = addr := by simp

variable (c io s) in
/-- The general function comes to word `j` of a block in state `t`. -/
def Reaches (opcode : Word) (lowPc j : Nat) (t : ArmMachine) : Prop :=
  let order := (blockOrder opcode).take j
  if lBit opcode then
    ∃ r, (s.syncPc lowPc).popWords c io (pBit opcode) (uBit opcode) (opcode &&& 0xffff#32) order (s.cpu.r (rn opcode))
      (fun _ => 0) = .ok (t, some r)
  else
    ∃ r, (s.syncPc lowPc).pushWords c io (pBit opcode) (uBit opcode) false (opcode &&& 0xffff#32) order
      (s.cpu.r (rn opcode)) = .ok (t, some r)

variable (c io s) in
/-- Word `j` of a block is the first one that faults, and `t` is the state when the
translation of its address has failed. -/
def FaultsAt (opcode : Word) (lowPc j : Nat) (t : ArmMachine) (fsr : Word) : Prop :=
  let addr := wordAddr (uBit opcode) (s.multiAddr opcode) j
  j < nRegs opcode ∧ ∃ t0 : ArmMachine, s.Reaches c io opcode lowPc j t0 ∧
    (if lBit opcode then (t0.dyn.tables.slotOf .arm (addr.setWidth 64)).hostLoad
      else (t0.dyn.tables.slotOf .arm (addr.setWidth 64)).hostStore) = none ∧
    t0.translateV2p c io addr (!lBit opcode) false = .ok (t, .fault fsr)

def abort (c : ArmConf) (io : ArmIo) (t : ArmMachine) (addr fsr : Word) : Except Exit (ArmMachine × BlockEnd) := do
  let t ← ArmMachine.exception c io { t with cpu := { t.cpu with far := addr, fsr } } .dataAbt
  return (t, .failed)

variable {j : Nat} {t : ArmMachine} {fsr : Word}

theorem blockOrder_drop {opcode : Word} (hj : j < nRegs opcode) :
    ∃ i rest, blockOrder opcode = (blockOrder opcode).take j ++ i :: rest ∧ ((blockOrder opcode).take j).length = j := by
  have hlen : (blockOrder opcode).length = nRegs opcode := (blockOrder_perm opcode).length_eq
  refine ⟨(blockOrder opcode)[j], (blockOrder opcode).drop (j + 1), ?_, by simp; omega⟩
  rw [← List.drop_eq_getElem_cons, List.take_append_drop]

theorem inList_blockOrder {opcode : Word} {i : Nat} (hi : i ∈ blockOrder opcode) :
    ArmCpu.inList (opcode &&& 0xffff#32) i = true := by
  have hi' := mem_regList.mp ((blockOrder_perm opcode).mem_iff.mp hi)
  exact (inList_regs hi'.1).trans hi'.2

theorem stepWord_of_wordAddr (u : Bool) (addr : Word) (k : Nat) :
    stepWord u (wordAddr u addr k) = wordAddr u (stepWord u addr) k := by
  unfold stepWord wordAddr
  cases u
  · simp only [Bool.false_eq_true, if_false, BitVec.sub_sub, BitVec.add_comm]
  · simp only [if_true]
    rw [BitVec.add_assoc, BitVec.add_comm (BitVec.ofNat 32 (4 * k)), ← BitVec.add_assoc]

theorem firstWord_wordAddr (p u : Bool) (addr : Word) (j : Nat) :
    firstWord p u (wordAddr u addr j) = wordAddr u (firstWord p u addr) j := by
  cases p
  · rfl
  · exact stepWord_of_wordAddr u addr j

theorem wordRw_fault {addr : Word} {write : Bool} (data : List Byte)
    (hv : s.translateV2p c io addr write false = .ok (t, .fault fsr)) :
    s.memoryRw c io ⟨addr.setWidth 64, 4, write, cacheData⟩ data = (do
      let t ← ArmMachine.exception c io { t with cpu := { t.cpu with far := addr, fsr } } .dataAbt
      return (t, data, false)) := by
  obtain ⟨hphys, hexc, hcache, huser⟩ := wordAccess addr write
  rw [memoryRw_fault data hphys hexc hcache (by rw [setWidth_setWidth, huser]; exact hv), setWidth_setWidth]

theorem popWord_fault {addr : Word} (hnone : (s.dyn.tables.slotOf .arm (addr.setWidth 64)).hostLoad = none)
    (hv : s.translateV2p c io addr false false = .ok (t, .fault fsr)) : s.popWord c io addr = (do
      let t ← ArmMachine.exception c io { t with cpu := { t.cpu with far := addr, fsr } } .dataAbt
      return (t, none)) := by
  unfold popWord
  rw [hnone]
  rw [wordRw_fault (List.replicate 4 0) hv]
  cases ArmMachine.exception c io { t with cpu := { t.cpu with far := addr, fsr } } .dataAbt <;> rfl

theorem pushWord_fault {addr : Word} (value : Word) (hnone : (s.dyn.tables.slotOf .arm (addr.setWidth 64)).hostStore = none)
    (hv : s.translateV2p c io addr true false = .ok (t, .fault fsr)) : s.pushWord c io addr value = (do
      let t ← ArmMachine.exception c io { t with cpu := { t.cpu with far := addr, fsr } } .dataAbt
      return (t, false)) := by
  unfold pushWord
  rw [hnone]
  rw [wordRw_fault (dataBytes c value) hv]
  cases ArmMachine.exception c io { t with cpu := { t.cpu with far := addr, fsr } } .dataAbt <;> rfl

theorem bdt_fault (h : s.FaultsAt c io op.opcode lowPc j t fsr) :
    t.cpu = (s.syncPc lowPc).cpu ∧
    s.bdt c io op.opcode lowPc = abort c io t (wordAddr (uBit op.opcode) (s.multiAddr op.opcode) j) fsr := by
  obtain ⟨hj, t0, hreach, hnone, hv⟩ := h
  obtain ⟨i, rest, horder, hlen⟩ := blockOrder_drop hj
  have hmem : ∀ k ∈ (blockOrder op.opcode).take j, ArmCpu.inList (op.opcode &&& 0xffff#32) k = true :=
    fun k hk => inList_blockOrder (List.mem_of_mem_take hk)
  have hi : ArmCpu.inList (op.opcode &&& 0xffff#32) i = true := inList_blockOrder (by rw [horder]; simp)
  have haddr : firstWord (pBit op.opcode) (uBit op.opcode) (wordAddr (uBit op.opcode) (s.cpu.r (rn op.opcode)) j) =
      wordAddr (uBit op.opcode) (s.multiAddr op.opcode) j := firstWord_wordAddr _ _ _ _
  unfold bdt
  cases hl : lBit op.opcode with
  | true =>
    simp only [Reaches, hl, if_true] at hreach
    obtain ⟨⟨addr, new⟩, hwords⟩ := hreach
    obtain ⟨rfl, hcpu, hrest⟩ := popWords_reached hmem hwords
    simp only [hl, if_true, Bool.not_true] at hnone hv
    refine ⟨(translateV2p_cpu hv).trans hcpu, ?_⟩
    have hword := popWord_fault hnone hv
    rw [← haddr] at hword ⊢
    rw [if_pos rfl]
    unfold bdtLoad armPop
    rw [popWords_filter, order_regs, op.noS, horder]
    show (do
      let r ← popWords c io _ _ _ _ (s.cpu.r (rn op.opcode)) _ (s.syncPc lowPc)
      _) = _
    rw [hrest, popWords, if_pos hi, hlen]
    show (do
      let r ← (do
        let w ← t0.popWord c io (firstWord (pBit op.opcode) (uBit op.opcode) _)
        _)
      _) = _
    rw [hword]
    unfold abort
    cases ArmMachine.exception c io { t with cpu := { t.cpu with far := _, fsr } } .dataAbt <;> rfl
  | false =>
    simp only [Reaches, hl, Bool.false_eq_true, if_false] at hreach
    obtain ⟨addr, hwords⟩ := hreach
    obtain ⟨rfl, hcpu, hrest⟩ := pushWords_reached hmem hwords
    simp only [hl, Bool.false_eq_true, if_false, Bool.not_false] at hnone hv
    refine ⟨(translateV2p_cpu hv).trans hcpu, ?_⟩
    have hword := fun value => pushWord_fault value hnone hv
    rw [← haddr] at hword ⊢
    rw [if_neg Bool.false_ne_true]
    unfold bdtStore armPush
    rw [pushWords_filter, order_regs, op.noS, horder]
    show (do
      let r ← pushWords c io _ _ _ _ _ (s.cpu.r (rn op.opcode)) (s.syncPc lowPc)
      _) = _
    rw [hrest, pushWords, if_pos hi, hlen]
    show (do
      let r ← (do
        let w ← t0.pushWord c io (firstWord (pBit op.opcode) (uBit op.opcode) _) _
        _)
      _) = _
    rw [hword]
    unfold abort
    cases ArmMachine.exception c io { t with cpu := { t.cpu with far := _, fsr } } .dataAbt <;> rfl

/-! ## The registers after a data abort -/

/-- What holds of the CPU after an exception holds after the lookup of its handler, if a
prefetch abort keeps it. -/
theorem pcToPointersGeneric_cpu {Q : ArmCpu → Prop}
    (hQ : ∀ cpu cpu', Q cpu → cpu.armException .prefAbt = .ok cpu' → Q cpu') (n : Nat) (hs : Q s.cpu)
    (h : s.pcToPointersGeneric c io n = .ok s') : Q s'.cpu := by
  have hpoint : ∀ {s s' : ArmMachine} {physaddr}, Q s.cpu → s.pointTo c io physaddr = .ok s' → Q s'.cpu := by
    intro s s' physaddr hs h
    obtain ⟨dyn, -, h⟩ := Lib.bind_eq_ok h
    cases h
    exact hs
  induction n generalizing s s' with
  | zero => cases h
  | succ n ih =>
    rw [pcToPointersGeneric] at h
    split at h
    · exact hpoint hs h
    · obtain ⟨⟨t, r⟩, hv, h⟩ := Lib.bind_eq_ok h
      have ht : Q t.cpu := by rwa [translateV2p_cpu hv]
      cases r with
      | ok paddr => exact hpoint ht h
      | fault fsr =>
        obtain ⟨cpu, hcpu, h⟩ := Lib.bind_eq_ok h
        obtain ⟨t1, hquick, h⟩ := Lib.bind_eq_ok h
        have ht1 : Q t1.cpu := by
          unfold quick at hquick
          split at hquick
          · cases hquick
            exact hQ _ _ ht hcpu
          · exact ih (hQ _ _ ht hcpu) hquick
        split at h
        · exact hpoint ht1 h
        · obtain ⟨⟨t2, r2⟩, hv2, h⟩ := Lib.bind_eq_ok h
          cases r2 with
          | ok paddr => exact hpoint (by rwa [translateV2p_cpu hv2]) h
          | fault fsr => cases h

theorem exception_cpu {Q : ArmCpu → Prop}
    (hQ : ∀ cpu cpu', Q cpu → cpu.armException .prefAbt = .ok cpu' → Q cpu') {e : ArmException}
    (he : ∀ cpu', s.cpu.armException e = .ok cpu' → Q cpu') (h : s.exception c io e = .ok s') : Q s'.cpu := by
  obtain ⟨cpu, hcpu, h⟩ := Lib.bind_eq_ok h
  unfold pcToPointers quick at h
  split at h
  · cases h
    exact he _ hcpu
  · exact pcToPointersGeneric_cpu hQ io.stack (he _ hcpu) h

/-- In abort mode: the fault address, and the registers of mode `m` as they were. A data
abort in abort mode itself uses r14. -/
structure Kept (m : ArmMode) (cpu0 : ArmCpu) (far : Word) (cpu : ArmCpu) : Prop where
  mode : armMode cpu.cpsr = some .abt
  far : cpu.far = far
  reg : ∀ i < 15, (i = armLr → m ≠ .abt) → cpu.view .abt m i = cpu0.r i

theorem view_abort {cpu cpu' : ArmCpu} {e : ArmException} {m m' : ArmMode} (he : e.mode = .abt)
    (hm : armMode cpu.cpsr = some m') (h : cpu.armException e = .ok cpu') {i : Nat} (hi : i < 15)
    (hlr : i = armLr → m ≠ .abt) : armMode cpu'.cpsr = some .abt ∧ cpu'.view .abt m i = cpu.view m' m i := by
  have hr := ArmCpu.represents_architecture hm
  obtain ⟨s', hs', -, hr'⟩ := hr.armException (ArmCpu.armMode_of_exception h).1
  rw [h] at hs'
  cases hs'
  rw [he] at hr'
  refine ⟨hr'.mode, ?_⟩
  calc cpu'.view .abt m i = (Architecture.exception (cpu.architecture m') e).reg m i := (hr'.reg m i).symm
    _ = (cpu.architecture m').reg m i :=
      ArmCpu.reg_exception _ m e (by unfold armPc; omega) (by rw [he]; exact hlr)
    _ = cpu.view m' m i := hr.reg m i

theorem Kept.prefAbt {m : ArmMode} {cpu0 cpu cpu' : ArmCpu} {far : Word} (hk : Kept m cpu0 far cpu)
    (h : cpu.armException .prefAbt = .ok cpu') : Kept m cpu0 far cpu' := by
  refine ⟨(view_abort (m := .usr) rfl hk.mode h (by decide : 0 < 15) (by decide)).1, ?_, fun i hi hlr => ?_⟩
  · have hsystem := ArmCpu.armException_system h
    calc cpu'.far = cpu'.systemRegs.2.2.2.2 := rfl
      _ = cpu.far := by rw [hsystem]; rfl
      _ = far := hk.far
  · exact (view_abort rfl hk.mode h hi hlr).2.trans (hk.reg i hi hlr)

theorem abort_kept {addr : Word} {e : BlockEnd} {m : ArmMode} (hm : armMode t.cpu.cpsr = some m)
    (h : abort c io t addr fsr = .ok (s', e)) : e = .failed ∧ Kept m t.cpu addr s'.cpu := by
  obtain ⟨t', hexc, h⟩ := Lib.bind_eq_ok h
  cases h
  refine ⟨rfl, exception_cpu (fun _ _ => Kept.prefAbt) (fun cpu' hcpu => ?_) hexc⟩
  have hmode : armMode ({ t.cpu with far := addr, fsr } : ArmCpu).cpsr = some m := hm
  refine ⟨(view_abort (m := .usr) rfl hmode hcpu (by decide : 0 < 15) (by decide)).1, ?_, fun i hi hlr => ?_⟩
  · have hsystem := ArmCpu.armException_system hcpu
    calc cpu'.far = cpu'.systemRegs.2.2.2.2 := rfl
      _ = addr := by rw [hsystem]; rfl
  · calc cpu'.view .abt m i = ArmCpu.view { t.cpu with far := addr, fsr } m m i := (view_abort rfl hmode hcpu hi hlr).2
      _ = t.cpu.r i := if_pos rfl

theorem not_faultsAt {p : Nat} (h : s.multiPtr op.opcode = some p) : ¬ s.FaultsAt c io op.opcode lowPc j t fsr := by
  rintro ⟨hj, t0, hreach, hnone, -⟩
  obtain ⟨page, hpage, -⟩ := multiPtr_spec h
  have hlen : (blockOrder op.opcode).length = nRegs op.opcode := (blockOrder_perm op.opcode).length_eq
  have hmem : ∀ k ∈ (blockOrder op.opcode).take j, ArmCpu.inList (op.opcode &&& 0xffff#32) k = true :=
    fun k hk => inList_blockOrder (List.mem_of_mem_take hk)
  have hnodup : ((blockOrder op.opcode).take j).Nodup := (List.take_sublist _ _).nodup (nodup_blockOrder _)
  have htake : ((blockOrder op.opcode).take j).length = j := by
    rw [List.length_take]
    omega
  cases hl : lBit op.opcode with
  | true =>
    simp only [Reaches, hl, if_true] at hreach hnone hpage
    obtain ⟨r, hwords⟩ := hreach
    rw [popWords_page _ _ (s := s.syncPc lowPc) _ _ hmem hnodup fun k hk => hpage k (by omega)] at hwords
    cases hwords
    rw [show (s.syncPc lowPc).dyn = s.dyn from rfl, hpage j hj] at hnone
    cases hnone
  | false =>
    simp only [Reaches, hl, Bool.false_eq_true, if_false] at hreach hnone hpage
    obtain ⟨r, hwords⟩ := hreach
    rw [pushWords_page _ _ _ (s := s.syncPc lowPc) _ hmem hnodup fun k hk => hpage k (by omega)] at hwords
    cases hwords
    change (s.dyn.tables.slotOf .arm _).hostStore = none at hnone
    rw [hpage j hj] at hnone
    cases hnone

/-! ## The generated functions -/

theorem findMulti_eq {table : List MultiOpcode} (h : findMulti c table iw = some op) :
    iw &&& 0x0fffffff#32 = op.opcode := by
  unfold findMulti at h
  split at h
  · cases h
  · have hfound := List.find?_some h
    exact beq_iff_eq.mp hfound

theorem multi_of_none (hiw : iw &&& 0x0fffffff#32 = op.opcode) (h : s.multiPtr op.opcode = none) :
    s.multi c io op iw lowPc = s.bdt c io iw lowPc := by
  have hl : lBit iw = lBit op.opcode := (getLsbD_opcode hiw (by decide)).symm
  unfold multi bdt
  rw [h, hl]

/-- Load and store multiple. The generated function leaves the registers, the memory and the
program counter as the general one does exactly when it does not transfer the block itself,
or the words of the block are the same in both byte orders and a program counter that is
loaded is aligned. Then the rest of the instruction is the same too. The first word that
faults takes a data abort with its address, and the registers are kept. -/
theorem multi_iff {table : List MultiOpcode} (h : findMulti c table iw = some op) (hlow : lowPc < 1024) :
    (SameBlock lowPc (s.multi c io op iw lowPc) (s.bdt c io iw lowPc) ↔
      ∀ p, s.multiPtr op.opcode = some p → s.KeepsWords c op.opcode lowPc p) ∧
    ((∀ p, s.multiPtr op.opcode = some p → s.KeepsWords c op.opcode lowPc p) →
      SameBlock lowPc (s.multi c io op iw lowPc >>= finish c io) (s.bdt c io iw lowPc >>= finish c io)) ∧
    ∀ j t fsr m, s.FaultsAt c io op.opcode lowPc j t fsr → armMode s.cpu.cpsr = some m →
      s.multi c io op iw lowPc = abort c io t (wordAddr (uBit op.opcode) (s.multiAddr op.opcode) j) fsr ∧
      t.cpu = (s.syncPc lowPc).cpu ∧
      ∀ s' e, s.multi c io op iw lowPc = .ok (s', e) →
        e = .failed ∧ Kept m s.cpu (wordAddr (uBit op.opcode) (s.multiAddr op.opcode) j) s'.cpu := by
  have hiw := findMulti_eq h
  have hsame : SameBlock lowPc (s.multi c io op iw lowPc) (s.bdt c io iw lowPc) ↔
      ∀ p, s.multiPtr op.opcode = some p → s.KeepsWords c op.opcode lowPc p := by
    cases hp : s.multiPtr op.opcode with
    | none =>
      rw [multi_of_none hiw hp]
      exact ⟨fun _ p hp => (by cases hp), fun _ => rfl⟩
    | some p =>
      have hiff : SameBlock lowPc (s.multi c io op iw lowPc) (s.bdt c io iw lowPc) ↔ s.KeepsWords c op.opcode lowPc p := by
        rw [bdt_opcode hiw]
        cases hl : lBit op.opcode with
        | true => exact multi_load_iff hlow hl hp
        | false => exact multi_store_iff hlow hl hp
      rw [hiff]
      exact ⟨fun hk q hq => by cases hq; exact hk, fun hk => hk p rfl⟩
  refine ⟨hsame, fun hk => (hsame.mpr hk).finish, fun j t fsr m hfault hm => ?_⟩
  have hnone : s.multiPtr op.opcode = none := by
    cases hp : s.multiPtr op.opcode with
    | none => rfl
    | some p => exact absurd hfault (not_faultsAt hp)
  obtain ⟨hcpu, habort⟩ := bdt_fault hfault
  have hmulti : s.multi c io op iw lowPc =
      abort c io t (wordAddr (uBit op.opcode) (s.multiAddr op.opcode) j) fsr := by
    rw [multi_of_none hiw hnone, bdt_opcode hiw, habort]
  refine ⟨hmulti, hcpu, fun s' e hrun => ?_⟩
  rw [hmulti] at hrun
  obtain ⟨he, hkept⟩ := abort_kept (m := m) (by rw [hcpu]; exact hm) hrun
  exact ⟨he, hkept.mode, hkept.far, fun i hi hlr => by rw [hkept.reg i hi hlr, hcpu]; rfl⟩

def ldmia : MultiOpcode := ⟨0x08930003#32, by decide, by decide, by decide, by decide⟩

/-- Two words of zeroes in RAM. -/
theorem multi_ram : SameBlock 0 (ramMachine.multi (ramConf false) ramIo ldmia 0xe8930003#32 0)
      (ramMachine.bdt (ramConf false) ramIo 0xe8930003#32 0) ∧
    SameBlock 0 (ramMachine.multi (ramConf false) ramIo ldmia 0xe8930003#32 0 >>= finish (ramConf false) ramIo)
      (ramMachine.bdt (ramConf false) ramIo 0xe8930003#32 0 >>= finish (ramConf false) ramIo) := by
  have hmulti := @multi_iff (ramConf false) ramIo ramMachine ldmia 0xe8930003#32 0 [ldmia] rfl (by decide)
  have hkeep : ∀ p, ramMachine.multiPtr ldmia.opcode = some p → ramMachine.KeepsWords (ramConf false) ldmia.opcode 0 p := by
    intro p _
    rw [KeepsWords, if_pos (by decide)]
    exact ⟨fun _ _ _ _ => rfl, fun h => absurd h (by decide)⟩
  exact ⟨hmulti.1.mpr hkeep, hmulti.2.1 hkeep⟩

/-- On a big endian CPU the generated function loads the word with its bytes the wrong way
around. -/
theorem multi_ram_big : findMulti (ramConf true) [ldmia] 0xe8930003#32 = some ldmia ∧
    ¬ SameBlock 0 (ArmMachine.multi (ramConf true) ramIo { ramMachine with host := fun p => if p = 0 then 1 else 0 } ldmia
        0xe8930003#32 0)
      (ArmMachine.bdt (ramConf true) ramIo { ramMachine with host := fun p => if p = 0 then 1 else 0 }
        0xe8930003#32 0) := by
  refine ⟨rfl, fun h => ?_⟩
  have hptr : ArmMachine.multiPtr { ramMachine with host := fun p => if p = 0 then 1 else 0 } ldmia.opcode = some 0 := by
    decide +kernel
  rw [bdt_opcode (show 0xe8930003#32 &&& 0x0fffffff#32 = ldmia.opcode by decide)] at h
  have hkeep := (multi_load_iff (by decide) (by decide) hptr).mp h
  rw [KeepsWords, if_pos (by decide)] at hkeep
  have hword := hkeep.1 0 (by decide) (by decide) (by decide)
  revert hword
  decide +kernel

end ArmMachine

end Gxemul.Arm
