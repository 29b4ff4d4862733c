import Gxemul.Alpha.Instr
import Gxemul.Alpha.LoadStoreAgree

/- The zero registers r[31] and f[31] of an Alpha CPU are ordinary variables. They stay
   zero because no translated instruction writes them: the translation of a word that
   names register 31 as its destination is another instruction. stl_c and stq_c are the
   exception, since they write the register that they store from. -/
namespace Gxemul.Alpha

/-! ## What an instruction writes -/

def RegName.IsZero : RegName → Prop
  | .r i => i = alphaZero
  | .f i => i = alphaZero

instance : DecidablePred RegName.IsZero
  | .r i => inferInstanceAs (Decidable (i = alphaZero))
  | .f i => inferInstanceAs (Decidable (i = alphaZero))

def Instr.dst : Instr → Option RegName
  | .lda dst _ _ | .lda0 dst _ | .alu _ dst _ _ | .implver dst | .fp _ dst _ _ | .fpUnary _ dst _ | .clear dst
  | .rdcc dst | .jsr _ dst _ | .brReturn _ dst | .brReturnSamepage _ dst => some dst
  | .ls k call => if k.load || k.llsc then some call.arg0 else none
  | .mov _ rc => some (.r rc)
  | .nop | .callPal _ | .jsr0 _ _ | .br _ | .brCond _ _ _ | .brSamepage _ | .brCondSamepage _ _ _ => none

namespace AlphaMachine
variable {cfg : ExecConf} {conf : LsConf} {k : LsKind} {io : Io} {ic : LsCall} {i lowPc : Nat} {m m' : AlphaMachine}
  {x dst : RegName} {v : Reg}

@[simp] theorem setReg_reg_same : (m.setReg i dst v).reg i dst = v := by
  simp [reg, setReg, AlphaCpu.setReg]

theorem setReg_reg_ne (h : x ≠ dst) : (m.setReg i dst v).reg i x = m.reg i x := by
  simp [reg, setReg, AlphaCpu.setReg, Function.update_of_ne h]

@[simp] theorem setDyn_reg (dyn : Cpu) : (m.setDyn i dyn).reg i x = m.reg i x := by
  simp [reg, setDyn]

@[simp] theorem setPc_reg (pc : Addr) : (m.setPc i pc).reg i x = m.reg i x := setDyn_reg _

@[simp] theorem setNextIc_reg (nr : Nat) : (m.setNextIc i nr).reg i x = m.reg i x := setDyn_reg _

@[simp] theorem atInstr_reg : (m.atInstr i lowPc).reg i x = m.reg i x := setPc_reg _

theorem pcToPointers_reg (h : m.pcToPointers cfg io i = .ok m') : m'.reg i x = m.reg i x := by
  obtain ⟨paddr, -, h⟩ := Lib.bind_eq_ok h
  obtain ⟨dyn, -, h⟩ := Lib.bind_eq_ok h
  cases h
  exact setDyn_reg dyn

theorem afterJump_reg {oldPc : Addr} (h : m.afterJump cfg io i oldPc = .ok m') : m'.reg i x = m.reg i x := by
  unfold afterJump at h
  split at h
  · cases h
    exact setNextIc_reg _
  · exact pcToPointers_reg h

theorem br_reg {offset : BitVec 32} (h : m.br cfg io i lowPc offset = .ok m') : m'.reg i x = m.reg i x :=
  (pcToPointers_reg h).trans (setPc_reg _)

theorem memoryRw_reg {a : Access} {data data' : List Lib.Byte} {ok : Bool}
    (h : m.memoryRw conf io i a data = .ok (m', data', ok)) : m'.reg i x = m.reg i x := by
  obtain ⟨paddr, -, h⟩ := Lib.bind_eq_ok h
  obtain ⟨⟨dyn, mem, ok'⟩, -, h⟩ := Lib.bind_eq_ok h
  cases h
  simp [reg, setCpu]

theorem lsGeneric_reg (hx : x ≠ ic.arg0 ∨ (k.load || k.llsc) = false) (h : m.lsGeneric conf k io ic i = .ok m') :
    m'.reg i x = m.reg i x := by
  unfold lsGeneric at h
  dsimp only at h
  split at h
  · rename_i hload
    have hne : x ≠ ic.arg0 := by
      obtain hne | hno := hx
      · exact hne
      · simp [hload] at hno
    obtain ⟨⟨m1, data, ok⟩, hrw, h⟩ := Lib.bind_eq_ok h
    split at h
    · cases h
    · cases h
      rw [setReg_reg_ne hne, memoryRw_reg hrw]
  · obtain ⟨⟨m1, data, ok⟩, hrw, h⟩ := Lib.bind_eq_ok h
    split at h
    · cases h
    · cases h
      split
      · rename_i hllsc
        have hne : x ≠ ic.arg0 := by
          obtain hne | hno := hx
          · exact hne
          · simp [hllsc] at hno
        rw [setReg_reg_ne hne, memoryRw_reg hrw]
      · exact memoryRw_reg hrw

theorem fastTransfer_reg {p : Nat} (hx : x ≠ ic.arg0 ∨ (k.load || k.llsc) = false) :
    (m.fastTransfer conf k ic i p).reg i x = m.reg i x := by
  unfold fastTransfer
  obtain hne | hno := hx
  · split
    · exact setReg_reg_ne hne
    · split
      · exact setReg_reg_ne hne
      · rfl
  · rw [Bool.or_eq_false_iff] at hno
    simp only [hno.1, hno.2, Bool.false_eq_true, if_false]
    rfl

theorem lsTransfer_reg {page : Option Nat} {addr : Addr} (hx : x ≠ ic.arg0 ∨ (k.load || k.llsc) = false)
    (h : m.lsTransfer conf k io ic i page addr = .ok m') : m'.reg i x = m.reg i x := by
  unfold lsTransfer at h
  split at h
  · exact lsGeneric_reg hx h
  · split at h
    · cases h
      exact fastTransfer_reg hx
    · exact lsGeneric_reg hx h

theorem lsN_reg (hx : x ≠ ic.arg0 ∨ (k.load || k.llsc) = false) (h : m.lsN conf k io ic i = .ok m') :
    m'.reg i x = m.reg i x := by
  unfold lsN lsNWith at h
  split at h
  · rename_i hfail
    cases h
    have hne : x ≠ ic.arg0 := by
      obtain hne | hno := hx
      · exact hne
      · simp only [Bool.and_eq_true, Bool.or_eq_false_iff] at hfail hno
        rw [hno.2] at hfail
        simp at hfail
    exact setReg_reg_ne hne
  · exact (lsTransfer_reg hx h).trans (congrFun (beforeTransfer_reg i) x)

/-- An instruction, except a PALcode call, leaves every register alone that is not its destination. -/
theorem execute_reg {instr : Instr} (hpal : ∀ nr, instr ≠ .callPal nr) (hx : instr.dst ≠ some x)
    (h : m.execute cfg io i lowPc instr = .ok m') : m'.reg i x = m.reg i x := by
  have hset : ∀ {dst : RegName} {v : Reg} {m : AlphaMachine}, some dst ≠ some x →
      (m.setReg i dst v).reg i x = m.reg i x := fun hne => setReg_reg_ne fun e => hne (congrArg some e.symm)
  cases instr with
  | nop => cases h; rfl
  | callPal nr => exact absurd rfl (hpal nr)
  | lda dst src offset => cases h; exact hset hx
  | lda0 dst offset => cases h; exact hset hx
  | ls k call =>
    refine lsN_reg ?_ h
    by_cases hw : (k.load || k.llsc) = true
    · left
      rintro rfl
      exact hx (if_pos hw)
    · exact .inr (by simpa using hw)
  | alu op dst src b =>
    simp only [execute] at h
    split at h
    · cases h
      exact hset hx
    · cases h
      rfl
  | mov ra rc => cases h; exact hset hx
  | implver dst => cases h; exact hset hx
  | fp op dst a b => cases h; exact hset hx
  | fpUnary op dst b => cases h; exact hset hx
  | clear dst => cases h; exact hset hx
  | rdcc dst =>
    cases h
    have hcpu : ∀ m : AlphaMachine, (m.setCpu i { m.cpus i with pcc := (m.cpus i).pcc + 20#64 }).reg i x = m.reg i x := by
      intro m
      simp [reg]
    exact (hcpu _).trans (hset hx)
  | jsr trace dst target =>
    refine (afterJump_reg h).trans ?_
    rw [setPc_reg]
    exact hset hx
  | jsr0 trace target =>
    refine (afterJump_reg h).trans ?_
    exact setPc_reg _
  | br offset => exact br_reg h
  | brReturn offset dst =>
    refine (pcToPointers_reg h).trans ?_
    rw [setPc_reg]
    exact hset hx
  | brCond cond offset src =>
    simp only [execute] at h
    split at h
    · exact br_reg h
    · cases h
      rfl
  | brSamepage nr => cases h; exact setNextIc_reg nr
  | brReturnSamepage nr dst =>
    cases h
    rw [setNextIc_reg]
    refine (hset hx).trans ?_
    exact setPc_reg _
  | brCondSamepage cond nr src =>
    simp only [execute] at h
    split at h
    · cases h
      exact setNextIc_reg nr
    · cases h
      rfl

end AlphaMachine

/-! ## What a translation writes -/

def StoresZeroConditionally (iword : BitVec 32) : Prop :=
  (opcode iword = 0x2e#6 ∨ opcode iword = 0x2f#6) ∧ fieldRa iword = alphaZero

/-- The function and the arguments of a store conditional of register 31. -/
def zeroKind (iword : BitVec 32) : LsKind :=
  ⟨if opcode iword = 0x2e#6 then .l else .q, false, true, false, decide (fieldImm iword = 0#16)⟩

def zeroCall (iword : BitVec 32) : LsCall := ⟨.r alphaZero, .r (fieldRb iword), offset16 iword⟩

section
variable {trace : Bool} {addr : Addr} {iword : BitVec 32} {instr : Instr} {x : RegName}

theorem length_alphaMovRR : alphaMovRR.length = 32 * 31 := by decide +kernel

theorem alphaMovRR_dst (h : instr ∈ alphaMovRR) : ∀ x, instr.dst = some x → ¬ x.IsZero := by
  obtain ⟨rc, hrc, h⟩ := List.mem_flatMap.mp h
  obtain ⟨ra, -, rfl⟩ := List.mem_map.mp h
  have hrc := List.mem_range.mp hrc
  intro x hx hz
  split at hx
  · cases hx
  · cases hx
    have hnat := congrArg BitVec.toNat (hz : BitVec.ofNat 5 rc = alphaZero)
    rw [BitVec.toNat_ofNat] at hnat
    change rc % 32 = 31 at hnat
    omega

theorem entry_alphaMovRR (ra : RegNr) {rc : RegNr} (hrc : rc ≠ alphaZero) :
    ∃ instr ∈ alphaMovRR, entry alphaMovRR (ra.toNat + rc.toNat * 32) = .ok instr := by
  have hlt : ra.toNat + rc.toNat * 32 < alphaMovRR.length := by
    have hne : rc.toNat ≠ 31 := fun e => hrc (BitVec.eq_of_toNat_eq e)
    rw [length_alphaMovRR]
    omega
  refine ⟨_, List.getElem_mem hlt, ?_⟩
  unfold entry
  rw [List.getElem?_eq_getElem hlt]

theorem entry_alphaLoadstore (l : LoadstoreOpcode) (zero : Bool) (h : l.type < 4) :
    entry alphaLoadstore (l.type + (if zero then 4 else 0) + 8 * l.load.toNat + 16 * l.llsc.toNat) =
      .ok (if l.llsc && decide (l.type < 2) then none
        else some ⟨lsSizes.getD l.type .b, l.load, l.llsc, false, zero⟩) := by
  obtain ⟨type, load, llsc, fp⟩ := l
  have hall : ∀ type < 4, ∀ load llsc zero : Bool,
      entry alphaLoadstore (type + (if zero then 4 else 0) + 8 * load.toNat + 16 * llsc.toNat) =
        .ok (if llsc && decide (type < 2) then none else some ⟨lsSizes.getD type .b, load, llsc, false, zero⟩) := by
    decide
  exact hall type h load llsc zero

theorem loadstoreOpcode_spec {op : BitVec 6} {l : LoadstoreOpcode} (h : loadstoreOpcode op = some l) :
    l.type < 4 ∧ (l.llsc = true → l.fp = false ∧ 2 ≤ l.type) ∧
      (l.llsc = true → l.load = false → (op = 0x2e#6 ∧ l.type = 2) ∨ (op = 0x2f#6 ∧ l.type = 3)) := by
  unfold loadstoreOpcode at h
  split at h <;> cases h <;> decide

/-- An instruction that is no PALcode call and writes no zero register. -/
def Instr.Harmless (instr : Instr) : Prop := (∀ nr, instr ≠ .callPal nr) ∧ ∀ x, instr.dst = some x → ¬ x.IsZero

def HarmlessOrBad (r : Except Exit (Option Instr)) : Prop :=
  ∃ instr, r = .ok instr ∧ ∀ instr', instr = some instr' → instr'.Harmless

theorem harmless_some (h : instr.Harmless) : HarmlessOrBad (.ok (some instr)) :=
  ⟨_, rfl, fun _ e => Option.some.inj e ▸ h⟩

theorem harmless_none : HarmlessOrBad (.ok none) := ⟨_, rfl, fun _ e => by cases e⟩

theorem harmless_of_dst_none (hpal : ∀ nr, instr ≠ .callPal nr) (h : instr.dst = none) : instr.Harmless :=
  ⟨hpal, fun x hx => by rw [h] at hx; cases hx⟩

theorem harmless_nop : Instr.nop.Harmless := harmless_of_dst_none (fun _ => by nofun) rfl

theorem harmless_of_dst {dst : RegName} (hpal : ∀ nr, instr ≠ .callPal nr) (h : instr.dst = some dst)
    (hz : ¬ dst.IsZero) : instr.Harmless :=
  ⟨hpal, fun x hx => by rw [h] at hx; cases hx; exact hz⟩

theorem harmless_operate (op : Option AluOp) : HarmlessOrBad (.ok (operate iword op)) := by
  unfold operate
  split
  · exact harmless_some harmless_nop
  · rename_i hrc
    cases op with
    | none => exact harmless_none
    | some op => exact harmless_some (harmless_of_dst (fun _ => by nofun) rfl hrc)

theorem harmless_branch {far : BitVec 32 → Instr} {samepage : Nat → Instr} (hfar : ∀ ofs, (far ofs).Harmless)
    (hsame : ∀ nr, (samepage nr).Harmless) : (branch addr iword far samepage).Harmless := by
  unfold branch
  dsimp only
  split
  · exact hsame _
  · exact hfar _

theorem harmless_loadstore (hsc : ¬ StoresZeroConditionally iword) {l : LoadstoreOpcode}
    (hl : loadstoreOpcode (opcode iword) = some l) : HarmlessOrBad (do
      let f ← entry alphaLoadstore (l.type + (if fieldImm iword = 0#16 then 4 else 0) + 8 * l.load.toNat +
        16 * l.llsc.toNat)
      if l.load && fieldRa iword = alphaZero then return some .nop
      return some (match f with
        | some k => .ls k ⟨if l.fp then .f (fieldRa iword) else .r (fieldRa iword), .r (fieldRb iword), offset16 iword⟩
        | none => .nop)) := by
  obtain ⟨htype, hllsc, hstore⟩ := loadstoreOpcode_spec hl
  have hentry := entry_alphaLoadstore l (decide (fieldImm iword = 0#16)) htype
  simp only [decide_eq_true_eq] at hentry
  rw [hentry]
  simp only [bind, Except.bind, pure, Except.pure]
  split
  · exact harmless_some harmless_nop
  · rename_i hload
    refine harmless_some ?_
    split
    · rename_i k hk
      split at hk
      · cases hk
      · cases hk
        refine ⟨fun _ => by nofun, fun x hx hz => ?_⟩
        unfold Instr.dst at hx
        dsimp only at hx
        split at hx
        · rename_i hw
          cases hx
          have hra : fieldRa iword = alphaZero := by
            split at hz <;> exact hz
          simp only [hra, decide_true, Bool.and_true, Bool.not_eq_true] at hload
          rw [hload, Bool.false_or] at hw
          exact hsc ⟨(hstore hw hload).imp And.left And.left, hra⟩
        · cases hx
    · exact harmless_nop

/-- Except for a PALcode call and a store conditional of register 31, no translation writes a zero register,
and every table has the entry that is looked up. -/
theorem harmless_toBeTranslated (hpal : opcode iword ≠ 0x00#6) (hsc : ¬ StoresZeroConditionally iword) :
    HarmlessOrBad (toBeTranslated trace addr iword) := by
  unfold toBeTranslated
  dsimp only
  split
  · contradiction
  · -- LDA
    split
    · exact harmless_some harmless_nop
    · rename_i hra
      refine harmless_some ?_
      split <;> exact harmless_of_dst (fun _ => by nofun) rfl hra
  · -- LDAH
    split
    · exact harmless_some harmless_nop
    · rename_i hra
      refine harmless_some ?_
      split <;> exact harmless_of_dst (fun _ => by nofun) rfl hra
  · -- LDQ_U
    split
    · exact harmless_some harmless_nop
    · rename_i hra
      exact harmless_some (harmless_of_dst (fun _ => by nofun) rfl hra)
  · -- STQ_U
    exact harmless_some (harmless_of_dst_none (fun _ => by nofun) rfl)
  · exact harmless_operate _
  · -- opcode 0x11
    split
    · rename_i hrc
      exact harmless_some (harmless_of_dst (fun _ => by nofun) rfl hrc.1)
    · split
      · rename_i hrc
        obtain ⟨instr, hmem, hentry⟩ := entry_alphaMovRR
          (if fieldRa iword = alphaZero then fieldRb iword else fieldRa iword) hrc.1
        rw [hentry]
        refine harmless_some ⟨?_, alphaMovRR_dst hmem⟩
        rintro nr rfl
        obtain ⟨rc, -, hrow⟩ := List.mem_flatMap.mp hmem
        obtain ⟨ra, -, hra⟩ := List.mem_map.mp hrow
        split at hra <;> cases hra
      · exact harmless_operate _
  · exact harmless_operate _
  · exact harmless_operate _
  · -- opcode 0x16
    split
    · exact harmless_some harmless_nop
    · rename_i hrc
      split
      · exact harmless_some (harmless_of_dst (fun _ => by nofun) rfl hrc)
      · exact harmless_some (harmless_of_dst (fun _ => by nofun) rfl hrc)
      · cases fpOperation (fieldFunc iword) with
        | none => exact harmless_none
        | some op => exact harmless_some (harmless_of_dst (fun _ => by nofun) rfl hrc)
  · -- opcode 0x17
    split
    · exact harmless_some harmless_nop
    · rename_i hrc
      split
      · refine harmless_some ?_
        split <;> exact harmless_of_dst (fun _ => by nofun) rfl hrc
      · exact harmless_some (harmless_of_dst (fun _ => by nofun) rfl hrc)
      · exact harmless_none
  · -- opcode 0x18
    split
    · exact harmless_some harmless_nop
    · exact harmless_some harmless_nop
    · refine harmless_some ?_
      split
      · exact harmless_nop
      · rename_i hra
        exact harmless_of_dst (fun _ => by nofun) rfl hra
    · exact harmless_none
  · -- jumps
    split
    · exact harmless_none
    · split
      · exact harmless_some (harmless_of_dst_none (fun _ => by nofun) rfl)
      · rename_i hra
        exact harmless_some (harmless_of_dst (fun _ => by nofun) rfl hra)
  · -- BR
    refine harmless_some ?_
    split
    · exact harmless_branch (fun _ => harmless_of_dst_none (fun _ => by nofun) rfl)
        (fun _ => harmless_of_dst_none (fun _ => by nofun) rfl)
    · rename_i hra
      exact harmless_branch (fun _ => harmless_of_dst (fun _ => by nofun) rfl hra)
        (fun _ => harmless_of_dst (fun _ => by nofun) rfl hra)
  · -- BSR
    refine harmless_some ?_
    split
    · exact harmless_branch (fun _ => harmless_of_dst_none (fun _ => by nofun) rfl)
        (fun _ => harmless_of_dst_none (fun _ => by nofun) rfl)
    · rename_i hra
      exact harmless_branch (fun _ => harmless_of_dst (fun _ => by nofun) rfl hra)
        (fun _ => harmless_of_dst (fun _ => by nofun) rfl hra)
  · split
    · exact harmless_loadstore hsc ‹_›
    · exact harmless_some (harmless_branch (fun _ => harmless_of_dst_none (fun _ => by nofun) rfl)
        (fun _ => harmless_of_dst_none (fun _ => by nofun) rfl))
    · exact harmless_none

theorem toBeTranslated_storesZero (h : StoresZeroConditionally iword) :
    toBeTranslated trace addr iword = .ok (some (.ls (zeroKind iword) (zeroCall iword))) := by
  obtain ⟨hop, hra⟩ := h
  have hsize : ∀ l, loadstoreOpcode (opcode iword) = some l → l = ⟨if opcode iword = 0x2e#6 then 2 else 3, false, true,
      false⟩ := by
    intro l hl
    obtain hop | hop := hop <;> rw [hop] at hl ⊢ <;> cases hl <;> rfl
  obtain ⟨l, hl⟩ : ∃ l, loadstoreOpcode (opcode iword) = some l := by
    obtain hop | hop := hop <;> exact ⟨_, by rw [hop]; rfl⟩
  have hl' := hsize l hl
  have hentry := entry_alphaLoadstore l (decide (fieldImm iword = 0#16)) (loadstoreOpcode_spec hl).1
  simp only [decide_eq_true_eq] at hentry
  unfold toBeTranslated
  split
  case h_16 =>
    rw [hl]
    dsimp only
    rw [hentry]
    subst hl'
    obtain hop | hop := hop <;> simp [bind, Except.bind, pure, Except.pure, hop, zeroKind, zeroCall, hra, lsSizes]
  all_goals
    rename_i hother
    rw [hother] at hop
    exact absurd hop (by decide)

end

/-! ## One instruction -/

namespace AlphaMachine
variable (cfg : ExecConf) (io : Io) (i lowPc : Nat) (m : AlphaMachine) (iword : BitVec 32)

structure ZeroRegs : Prop where
  r : m.reg i (.r alphaZero) = 0#64
  f : m.reg i (.f alphaZero) = 0#64

/-- Every table has the entry that is looked up in the translation of a word, and after the
instruction the zero registers are zero. -/
def ZeroKept : Prop :=
  (∃ instr, toBeTranslated cfg.showTraceTree ((m.atInstr i lowPc).pc i) iword = .ok instr) ∧
    ∀ m', m.translateAndExecute cfg io i lowPc iword = .ok m' → m'.ZeroRegs i

/-- A load or store completes: its bytes are in a page of the tables, or memory_rw() accesses them. -/
def Completes (conf : LsConf) (k : LsKind) (ic : LsCall) : Prop :=
  (misaligned k.size (m.addr k ic i) = false ∧ (m.hostPage k ic i).isSome = true) ∨
    ∃ r, (m.beforeTransfer k ic i).memoryRw conf io i ⟨m.genericAddr k ic i, k.size.toNat, !k.load, cacheData⟩
      (k.size.dataBytes (m.reg i ic.arg0)) = .ok r ∧ r.2.2 = true

/-- The instruction is a store conditional of register 31 by a CPU with a reservation, and its store completes. -/
def ZeroOverwritten : Prop :=
  StoresZeroConditionally iword ∧ (m.cpus i).llFlag = true ∧
    (m.atInstr i lowPc).Completes io i cfg.ls (zeroKind iword) (zeroCall iword)

variable {cfg io i lowPc m iword} {k : LsKind} {ic : LsCall} {conf : LsConf} {m' : AlphaMachine}

theorem atInstr_llFlag : ((m.atInstr i lowPc).cpus i).llFlag = (m.cpus i).llFlag := by
  simp [atInstr, setPc, setDyn]

theorem lsN_storeConditional (hllsc : k.llsc = true) (hload : k.load = false) (h : m.lsN conf k io ic i = .ok m') :
    m'.reg i ic.arg0 = if (m.cpus i).llFlag then 1#64 else 0#64 := by
  unfold lsN lsNWith at h
  rw [hllsc, hload] at h
  have hgeneric : ∀ {m m' : AlphaMachine}, m.lsGeneric conf k io ic i = .ok m' → m'.reg i ic.arg0 = 1#64 := by
    intro m m' h
    unfold lsGeneric at h
    dsimp only at h
    rw [hload, hllsc] at h
    obtain ⟨⟨m1, data, ok⟩, -, h⟩ := Lib.bind_eq_ok h
    split at h
    · cases h
    · cases h
      exact setReg_reg_same
  cases hflag : (m.cpus i).llFlag with
  | false =>
    rw [hflag] at h
    cases h
    exact setReg_reg_same
  | true =>
    rw [hflag] at h
    simp only [Bool.not_true, Bool.and_false, Bool.false_eq_true, if_false] at h
    unfold lsTransfer at h
    split at h
    · exact hgeneric h
    · split at h
      · cases h
        simp [fastTransfer, hload, hllsc]
      · exact hgeneric h

theorem lsN_isOk_iff (hllsc : k.llsc = true) (hload : k.load = false) (hflag : (m.cpus i).llFlag = true) :
    (∃ m', m.lsN conf k io ic i = .ok m') ↔ m.Completes io i conf k ic := by
  have hgeneric : (∃ m', (m.beforeTransfer k ic i).lsGeneric conf k io ic i = .ok m') ↔
      ∃ r, (m.beforeTransfer k ic i).memoryRw conf io i ⟨m.genericAddr k ic i, k.size.toNat, !k.load, cacheData⟩
        (k.size.dataBytes (m.reg i ic.arg0)) = .ok r ∧ r.2.2 = true := by
    have haddr : (m.beforeTransfer k ic i).genericAddr k ic i = m.genericAddr k ic i := by
      unfold genericAddr
      rw [beforeTransfer_reg]
    have hdata : ((m.beforeTransfer k ic i).cpus i).reg ic.arg0 = m.reg i ic.arg0 :=
      congrFun (beforeTransfer_reg i) ic.arg0
    unfold lsGeneric
    rw [hload, haddr, hdata]
    simp only [Bool.false_eq_true, if_false, Bool.not_false]
    cases hrw : (m.beforeTransfer k ic i).memoryRw conf io i ⟨m.genericAddr k ic i, k.size.toNat, true, cacheData⟩
        (k.size.dataBytes (m.reg i ic.arg0)) with
    | error e =>
      refine ⟨?_, ?_⟩
      · rintro ⟨_, h⟩
        cases h
      · rintro ⟨_, h, -⟩
        cases h
    | ok r =>
      obtain ⟨m1, data, ok⟩ := r
      cases ok with
      | false =>
        refine ⟨?_, ?_⟩
        · rintro ⟨_, h⟩
          cases h
        · rintro ⟨_, h, hok⟩
          cases h
          cases hok
      | true => exact ⟨fun _ => ⟨_, rfl, rfl⟩, fun _ => ⟨_, rfl⟩⟩
  unfold lsN lsNWith
  rw [hllsc, hload, hflag]
  unfold lsTransfer Completes
  rw [← hgeneric]
  cases hal : misaligned k.size (m.addr k ic i) with
  | true => simp
  | false =>
    cases m.hostPage k ic i with
    | none => simp
    | some page => simp

/-- The zero registers stay zero, and the tables are used within their bounds, exactly unless a store conditional
of register 31 is performed. -/
theorem zeroKept_iff (hpal : opcode iword ≠ 0x00#6) (hz : m.ZeroRegs i) :
    m.ZeroKept cfg io i lowPc iword ↔ ¬ m.ZeroOverwritten cfg io i lowPc iword := by
  have hz' : (m.atInstr i lowPc).ZeroRegs i := ⟨atInstr_reg.trans hz.r, atInstr_reg.trans hz.f⟩
  by_cases hsc : StoresZeroConditionally iword
  · have htrans := @toBeTranslated_storesZero cfg.showTraceTree ((m.atInstr i lowPc).pc i) iword hsc
    have hexec : m.translateAndExecute cfg io i lowPc iword =
        (m.atInstr i lowPc).lsN cfg.ls (zeroKind iword) io (zeroCall iword) i := by
      unfold translateAndExecute
      dsimp only
      rw [htrans]
      rfl
    unfold ZeroKept ZeroOverwritten
    rw [hexec]
    constructor
    · rintro ⟨-, hkept⟩ ⟨-, hflag, hcomp⟩
      rw [← @atInstr_llFlag i lowPc m] at hflag
      obtain ⟨m', hok⟩ := (lsN_isOk_iff rfl rfl hflag).mpr hcomp
      have hone := lsN_storeConditional rfl rfl hok
      rw [hflag, if_pos rfl] at hone
      have hzero := (hkept m' hok).r
      rw [show RegName.r alphaZero = (zeroCall iword).arg0 from rfl, hone] at hzero
      exact absurd hzero (by decide)
    · intro hno
      refine ⟨⟨_, htrans⟩, fun m' hok => ⟨?_, ?_⟩⟩
      · have hreg := lsN_storeConditional rfl rfl hok
        cases hflag : ((m.atInstr i lowPc).cpus i).llFlag with
        | false =>
          rw [hflag] at hreg
          exact hreg
        | true => exact absurd ⟨hsc, atInstr_llFlag ▸ hflag, (lsN_isOk_iff rfl rfl hflag).mp ⟨m', hok⟩⟩ hno
      · exact (lsN_reg (.inl (by nofun)) hok).trans hz'.f
  · obtain ⟨instr, htrans, hharmless⟩ := @harmless_toBeTranslated cfg.showTraceTree ((m.atInstr i lowPc).pc i) iword hpal hsc
    refine ⟨fun _ h => hsc h.1, fun _ => ⟨⟨instr, htrans⟩, fun m' hok => ?_⟩⟩
    unfold translateAndExecute at hok
    dsimp only at hok
    rw [htrans] at hok
    cases instr with
    | none =>
      cases hok
      exact hz'
    | some instr =>
      obtain ⟨hnopal, hdst⟩ := hharmless instr rfl
      have hreg : ∀ x : RegName, x.IsZero → m'.reg i x = (m.atInstr i lowPc).reg i x := fun x hx =>
        execute_reg hnopal (fun h => hdst x h hx) hok
      exact ⟨(hreg (.r alphaZero) (Eq.refl alphaZero)).trans hz'.r, (hreg (.f alphaZero) (Eq.refl alphaZero)).trans hz'.f⟩

/-! `stl_c $31,0($2)` on a machine with zero in all registers, with a reservation and without. -/

def execConf : ExecConf :=
  ⟨lsConf, 0, false, ⟨fun _ => 0, fun _ => 0, fun _ _ _ => 0⟩, fun _ _ m => .ok m⟩

def stlC31 : BitVec 32 := 0xbbe20000#32

def reserved : AlphaMachine := paged.reserve 0 0#64

/-- Without a reservation the store fails, and writes zero. -/
theorem zeroKept_paged : paged.ZeroKept execConf ramIo 0 0 stlC31 :=
  (zeroKept_iff (by decide) ⟨rfl, rfl⟩).mpr fun h => by
    have hflag : (paged.cpus 0).llFlag = true := h.2.1
    cases hflag

/-- With a reservation the store is performed, and r[31] is one. -/
theorem not_zeroKept_reserved : opcode stlC31 = 0x2e#6 ∧ reserved.ZeroRegs 0 ∧
    (∃ m', reserved.translateAndExecute execConf ramIo 0 0 stlC31 = .ok m' ∧ m'.reg 0 (.r alphaZero) = 1#64) ∧
    ¬ reserved.ZeroKept execConf ramIo 0 0 stlC31 := by
  have hone := Lib.eval_eq_ok (reserved.translateAndExecute execConf ramIo 0 0 stlC31)
    (fun m' : AlphaMachine => m'.reg 0 (.r alphaZero)) 1#64 (by decide +kernel)
  refine ⟨by decide, ⟨by decide +kernel, by decide +kernel⟩, hone, fun h => ?_⟩
  obtain ⟨m', hok, hone⟩ := hone
  have hzero := (h.2 m' hok).r
  rw [hone] at hzero
  exact absurd hzero (by decide)

end AlphaMachine

end Gxemul.Alpha
