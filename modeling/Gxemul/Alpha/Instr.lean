import Gxemul.Alpha.Alu
import Gxemul.Alpha.LoadStore

/- The translation of Alpha instruction words (X(to_be_translated) in
   `src/cpus/cpu_alpha_instr.c`, and the tables of `src/cpus/generate_alpha_misc.c`).

   A translated instruction is a function with up to three arguments, which are
   pointers to registers or numbers. Here it is one value, with arguments of the
   kinds that its function takes. -/
namespace Gxemul.Alpha

/-- `arg[2]` of a function of the ALU: a pointer, or a number for a function with `_imm`. -/
inductive Operand where
  | ptr (x : RegName)
  | imm (x : Reg)

inductive FpOp where
  | addt | subt | mult | divt | cmpteq | cmptlt | cmptle

inductive FpUnary where
  | cvttqC | cvtqt | fabs | fneg

/-- `struct alpha_instr_call`. The branches within a page have the number of the
instruction they go to instead of an offset. -/
inductive Instr where
  | nop
  | callPal (nr : BitVec 26)
  | lda (dst src : RegName) (offset : BitVec 32)
  | lda0 (dst : RegName) (offset : BitVec 32)
  | ls (k : LsKind) (call : LsCall)
  | alu (op : AluOp) (dst src : RegName) (b : Operand)
  | mov (ra rc : RegNr)
  | implver (dst : RegName)
  | fp (op : FpOp) (dst a b : RegName)
  | fpUnary (op : FpUnary) (dst b : RegName)
  | clear (dst : RegName)
  | rdcc (dst : RegName)
  | jsr (trace : Bool) (dst target : RegName)
  | jsr0 (trace : Bool) (target : RegName)
  | br (offset : BitVec 32)
  | brReturn (offset : BitVec 32) (dst : RegName)
  | brCond (cond : Cond) (offset : BitVec 32) (src : RegName)
  | brSamepage (nr : Nat)
  | brReturnSamepage (nr : Nat) (dst : RegName)
  | brCondSamepage (cond : Cond) (nr : Nat) (src : RegName)

/-! ## Tables -/

def lsSizes : List LsSize := [.b, .w, .l, .q]

/-- `alpha_loadstore`. There are no conditional bytes and words. -/
def alphaLoadstore : List (Option LsKind) :=
  [false, true].flatMap fun llsc => [false, true].flatMap fun load => [false, true].flatMap fun zero =>
    lsSizes.map fun size =>
      if llsc && size != .l && size != .q then none else some ⟨size, load, llsc, false, zero⟩

/-- `alpha_mov_r_r`. -/
def alphaMovRR : List Instr :=
  (List.range 31).flatMap fun rc => (List.range 32).map fun ra =>
    if ra = rc then .nop else .mov (BitVec.ofNat 5 ra) (BitVec.ofNat 5 rc)

def entry {α : Type} (table : List α) (n : Nat) : Except Exit α :=
  match table[n]? with
  | some x => .ok x
  | none => .error .badIndex

/-! ## Instruction words -/

section
variable (iword : BitVec 32)

def opcode : BitVec 6 := iword.extractLsb' 26 6
def fieldRa : RegNr := iword.extractLsb' 21 5
def fieldRb : RegNr := iword.extractLsb' 16 5
def fieldFunc : BitVec 11 := iword.extractLsb' 5 11
def fieldRc : RegNr := iword.extractLsb' 0 5
def fieldImm : BitVec 16 := iword.extractLsb' 0 16

end

/-- `(ssize_t)(int16_t)imm`, the low half. -/
def offset16 (iword : BitVec 32) : BitVec 32 := (fieldImm iword).signExtend 32

/-- `arg[2]` of an operate instruction. Bit 7 of the function says that it is a number. -/
def operand (iword : BitVec 32) : Operand :=
  if (fieldFunc iword).getLsbD 7 then
    .imm (((fieldRb iword).setWidth 64 <<< 3) + ((fieldFunc iword >>> 8).setWidth 64))
  else .ptr (.r (fieldRb iword))

/-- The type, and LS_LOAD, LS_LLSC and `fp`, of an ordinary load or store. -/
structure LoadstoreOpcode where
  type : Nat
  load : Bool
  llsc : Bool
  fp : Bool

def loadstoreOpcode (op : BitVec 6) : Option LoadstoreOpcode :=
  match op with
  | 0x0a#6 => some ⟨0, true, false, false⟩   -- ldbu
  | 0x0c#6 => some ⟨1, true, false, false⟩   -- ldwu
  | 0x0d#6 => some ⟨1, false, false, false⟩  -- stw
  | 0x0e#6 => some ⟨0, false, false, false⟩  -- stb
  | 0x22#6 => some ⟨2, true, false, true⟩    -- lds
  | 0x23#6 => some ⟨3, true, false, true⟩    -- ldt
  | 0x26#6 => some ⟨2, false, false, true⟩   -- sts
  | 0x27#6 => some ⟨3, false, false, true⟩   -- stt
  | 0x28#6 => some ⟨2, true, false, false⟩   -- ldl
  | 0x29#6 => some ⟨3, true, false, false⟩   -- ldq
  | 0x2a#6 => some ⟨2, true, true, false⟩    -- ldl_l
  | 0x2b#6 => some ⟨3, true, true, false⟩    -- ldq_l
  | 0x2c#6 => some ⟨2, false, false, false⟩  -- stl
  | 0x2d#6 => some ⟨3, false, false, false⟩  -- stq
  | 0x2e#6 => some ⟨2, false, true, false⟩   -- stl_c
  | 0x2f#6 => some ⟨3, false, true, false⟩   -- stq_c
  | _ => none

/-- The operations of opcode 0x10, by bits 0..6 of the function. -/
def arithmetic (func : BitVec 7) : Option AluOp :=
  match func with
  | 0x00#7 => some (.addSub 1 false false)  -- addl
  | 0x02#7 => some (.addSub 4 false false)  -- s4addl
  | 0x09#7 => some (.addSub 1 true false)   -- subl
  | 0x0b#7 => some (.addSub 4 true false)   -- s4subl
  | 0x0f#7 => some .cmpbge
  | 0x12#7 => some (.addSub 8 false false)  -- s8addl
  | 0x1b#7 => some (.addSub 8 true false)   -- s8subl
  | 0x1d#7 => some (.cmp .ult)
  | 0x20#7 => some (.addSub 1 false true)   -- addq
  | 0x22#7 => some (.addSub 4 false true)   -- s4addq
  | 0x29#7 => some (.addSub 1 true true)    -- subq
  | 0x2b#7 => some (.addSub 4 true true)    -- s4subq
  | 0x2d#7 => some (.cmp .eq)
  | 0x32#7 => some (.addSub 8 false true)   -- s8addq
  | 0x3b#7 => some (.addSub 8 true true)    -- s8subq
  | 0x3d#7 => some (.cmp .ule)
  | 0x4d#7 => some (.cmp .lt)
  | 0x6d#7 => some (.cmp .le)
  | _ => none

/-- The operations of opcode 0x11 without implver, by bits 0..6 of the function. -/
def logical (func : BitVec 7) : Option AluOp :=
  match func with
  | 0x00#7 => some (.logic .and false)
  | 0x08#7 => some (.logic .and true)   -- andnot
  | 0x14#7 => some (.cmov .lbs)
  | 0x16#7 => some (.cmov .lbc)
  | 0x20#7 => some (.logic .or false)
  | 0x24#7 => some (.cmov .eq)
  | 0x26#7 => some (.cmov .ne)
  | 0x28#7 => some (.logic .or true)    -- ornot
  | 0x40#7 => some (.logic .xor false)
  | 0x44#7 => some (.cmov .lt)
  | 0x46#7 => some (.cmov .ge)
  | 0x48#7 => some (.logic .xor true)   -- xornot
  | 0x64#7 => some (.cmov .le)
  | 0x66#7 => some (.cmov .gt)
  | _ => none

/-- The operations of opcode 0x12, by bits 0..6 of the function. -/
def byteManipulation (func : BitVec 7) : Option AluOp :=
  match func with
  | 0x02#7 => some (.bytes .msk .b true)
  | 0x06#7 => some (.bytes .ext .b true)
  | 0x0b#7 => some (.bytes .ins .b true)
  | 0x12#7 => some (.bytes .msk .w true)
  | 0x16#7 => some (.bytes .ext .w true)
  | 0x1b#7 => some (.bytes .ins .w true)
  | 0x22#7 => some (.bytes .msk .l true)
  | 0x26#7 => some (.bytes .ext .l true)
  | 0x2b#7 => some (.bytes .ins .l true)
  | 0x30#7 => some (.zap false)
  | 0x31#7 => some (.zap true)
  | 0x32#7 => some (.bytes .msk .q true)
  | 0x34#7 => some (.shift .srl)
  | 0x36#7 => some (.bytes .ext .q true)
  | 0x39#7 => some (.shift .sll)
  | 0x3b#7 => some (.bytes .ins .q true)
  | 0x3c#7 => some (.shift .sra)
  | 0x52#7 => some (.bytes .msk .w false)
  | 0x57#7 => some (.bytes .ins .w false)
  | 0x5a#7 => some (.bytes .ext .w false)
  | 0x62#7 => some (.bytes .msk .l false)
  | 0x67#7 => some (.bytes .ins .l false)
  | 0x6a#7 => some (.bytes .ext .l false)
  | 0x72#7 => some (.bytes .msk .q false)
  | 0x77#7 => some (.bytes .ins .q false)
  | 0x7a#7 => some (.bytes .ext .q false)
  | _ => none

/-- The operations of opcode 0x13, by bits 0..7 of the function. umulh has no `_imm`. -/
def multiplication (func : BitVec 8) : Option AluOp :=
  match func with
  | 0x00#8 | 0x80#8 => some .mull
  | 0x20#8 | 0xa0#8 => some .mulq
  | 0x30#8 => some .umulh
  | _ => none

def fpOperation (func : BitVec 11) : Option FpOp :=
  match func with
  | 0x0a0#11 => some .addt
  | 0x0a1#11 => some .subt
  | 0x0a2#11 => some .mult
  | 0x0a3#11 => some .divt
  | 0x0a5#11 => some .cmpteq
  | 0x0a6#11 => some .cmptlt
  | 0x0a7#11 => some .cmptle
  | _ => none

/-- The condition of a conditional branch, and `fp`. -/
def branchCond (op : BitVec 6) : Option (Cond × Bool) :=
  match op with
  | 0x31#6 => some (.eq, true)
  | 0x35#6 => some (.ne, true)
  | 0x38#6 => some (.lbc, false)
  | 0x39#6 => some (.eq, false)
  | 0x3a#6 => some (.lt, false)
  | 0x3b#6 => some (.le, false)
  | 0x3c#6 => some (.lbs, false)
  | 0x3d#6 => some (.ne, false)
  | 0x3e#6 => some (.ge, false)
  | 0x3f#6 => some (.gt, false)
  | _ => none

/-- `arg[0]` of a branch: the offset from the branch itself. -/
def branchOffset (iword : BitVec 32) : BitVec 32 := ((iword.extractLsb' 0 21).signExtend 32 <<< 2) + 4#32

def instrNr (pc : Addr) : Nat := ((pc &&& 8191#64) >>> 2).toNat

def branch (addr : Addr) (iword : BitVec 32) (far : BitVec 32 → Instr) (samepage : Nat → Instr) : Instr :=
  let newPc := addr + (branchOffset iword).signExtend 64
  if addr &&& ~~~ 8191#64 = newPc &&& ~~~ 8191#64 then samepage (instrNr newPc) else far (branchOffset iword)

/-- An operate instruction, whose result is lost when it goes to register 31. -/
def operate (iword : BitVec 32) (op : Option AluOp) : Option Instr :=
  if fieldRc iword = alphaZero then some .nop
  else op.map fun op => .alu op (.r (fieldRc iword)) (.r (fieldRa iword)) (operand iword)

/-- `alpha_instr_to_be_translated()`, for the instruction word at `addr`. `none` is an
instruction that is not implemented, at which the CPU stops. -/
def toBeTranslated (showTraceTree : Bool) (addr : Addr) (iword : BitVec 32) : Except Exit (Option Instr) :=
  let ra := fieldRa iword
  let rb := fieldRb iword
  let rc := fieldRc iword
  let func := fieldFunc iword
  match opcode iword with
  | 0x00#6 => .ok (some (.callPal (iword.extractLsb' 0 26)))
  | 0x08#6 | 0x09#6 =>                                   -- LDA, LDAH
    if ra = alphaZero then .ok (some .nop)
    else
      let arg2 := if opcode iword = 0x09#6 then offset16 iword <<< 16 else offset16 iword
      .ok (some (if rb = alphaZero then .lda0 (.r ra) arg2 else .lda (.r ra) (.r rb) arg2))
  | 0x0b#6 =>                                            -- LDQ_U
    if ra = alphaZero then .ok (some .nop)
    else .ok (some (.ls ⟨.q, true, false, true, false⟩ ⟨.r ra, .r rb, offset16 iword⟩))
  | 0x0f#6 =>                                            -- STQ_U
    .ok (some (.ls ⟨.q, false, false, true, false⟩ ⟨.r ra, .r rb, offset16 iword⟩))
  | 0x10#6 => .ok (operate iword (arithmetic (func.setWidth 7)))
  | 0x11#6 =>
    if rc ≠ alphaZero ∧ func.setWidth 8 = 0xec#8 then .ok (some (.implver (.r rc)))
    else if rc ≠ alphaZero ∧ func.setWidth 8 = 0x20#8 ∧ (ra = alphaZero ∨ rb = alphaZero) then
      some <$> entry alphaMovRR ((if ra = alphaZero then rb else ra).toNat + rc.toNat * 32)
    else .ok (operate iword (logical (func.setWidth 7)))
  | 0x12#6 => .ok (operate iword (byteManipulation (func.setWidth 7)))
  | 0x13#6 => .ok (operate iword (multiplication (func.setWidth 8)))
  | 0x16#6 =>
    if rc = alphaZero then .ok (some .nop)
    else
      .ok (match func with
        | 0x02f#11 => some (.fpUnary .cvttqC (.f rc) (.f rb))
        | 0x0be#11 => some (.fpUnary .cvtqt (.f rc) (.f rb))
        | func => (fpOperation func).map fun op => .fp op (.f rc) (.f ra) (.f rb))
  | 0x17#6 =>
    if rc = alphaZero then .ok (some .nop)
    else
      .ok (match func with
        | 0x020#11 => some (if ra = 31#5 ∧ rb = 31#5 then .clear (.f rc) else .fpUnary .fabs (.f rc) (.f rb))
        | 0x021#11 => some (.fpUnary .fneg (.f rc) (.f rb))
        | _ => none)
  | 0x18#6 =>
    .ok (match fieldImm iword with
      | 0x4000#16 | 0x4400#16 => some .nop               -- mb, wmb
      | 0xc000#16 => some (if ra = alphaZero then .nop else .rdcc (.r ra))
      | _ => none)
  | 0x1a#6 =>                                            -- JMP, JSR, RET
    .ok (if iword.extractLsb' 14 2 = 3#2 then none
      else if ra = alphaZero then some (.jsr0 (showTraceTree && decide (rb = alphaRa)) (.r rb))
      else some (.jsr showTraceTree (.r ra) (.r rb)))
  | 0x30#6 | 0x34#6 =>                                   -- BR, BSR
    .ok (some (
      if ra = alphaZero then branch addr iword .br .brSamepage
      else branch addr iword (fun ofs => .brReturn ofs (.r ra)) (fun nr => .brReturnSamepage nr (.r ra))))
  | op =>
    match loadstoreOpcode op, branchCond op with
    | some l, _ => do
      let f ← entry alphaLoadstore (l.type + (if fieldImm iword = 0#16 then 4 else 0) + 8 * l.load.toNat +
        16 * l.llsc.toNat)
      -- "Load to the zero register is treated as a prefetch hint. It is ignored here."
      if l.load && ra = alphaZero then return some .nop
      return some (match f with
        | some k => .ls k ⟨if l.fp then .f ra else .r ra, .r rb, offset16 iword⟩
        | none => .nop)
    | none, some (cond, fp) =>
      let src : RegName := if fp then .f ra else .r ra
      .ok (some (branch addr iword (fun ofs => .brCond cond ofs src) (fun nr => .brCondSamepage cond nr src)))
    | none, none => .ok none

end Gxemul.Alpha

/- The functions of translated Alpha instructions (`src/cpus/cpu_alpha_instr.c`).

   Floating point arithmetic is done by the host, and PALcode calls are made by
   alpha_palcode(). Both are given as functions here. -/
namespace Gxemul.Alpha

structure Fpu where
  cvttqC : Reg → Reg
  cvtqt : Reg → Reg
  op : FpOp → Reg → Reg → Reg

/-- What a machine is made of, besides its state: `cpu_type.implver`, `show_trace_tree`, and
the functions that are given. -/
structure ExecConf where
  ls : LsConf
  implver : Reg
  showTraceTree : Bool
  fpu : Fpu
  palcode : Nat → BitVec 26 → AlphaMachine → Except Exit AlphaMachine

def Fpu.unary (fpu : Fpu) (op : FpUnary) (x : Reg) : Reg :=
  match op with
  | .cvttqC => fpu.cvttqC x
  | .cvtqt => fpu.cvtqt x
  | .fabs => x &&& 0x7fffffffffffffff#64
  | .fneg => x ^^^ 0x8000000000000000#64

namespace AlphaMachine
variable (cfg : ExecConf) (io : Io) (i : Nat) (lowPc : Nat) (m : AlphaMachine)

def reg (x : RegName) : Reg := (m.cpus i).reg x

def Operand.value (b : Operand) : Reg :=
  match b with
  | .ptr x => m.reg i x
  | .imm x => x

def pc : Addr := (m.cpus i).dyn.pc

def setDyn (dyn : Cpu) : AlphaMachine := m.setCpu i { m.cpus i with dyn }

def setPc (pc : Addr) : AlphaMachine := m.setDyn i { (m.cpus i).dyn with pc }

def setNextIc (nr : Nat) : AlphaMachine := m.setDyn i { (m.cpus i).dyn with nextIc := nr }

/-- The address of instruction `lowPc` of the page that is executed. -/
def instrPc : Addr := (m.pc i &&& ~~~ 0x1ffc#64) + BitVec.ofNat 64 (lowPc * 4)

/-- alpha_translate_v2p() in alpha_pc_to_pointers(), which calls it for a page that is not in the tables. -/
def pcPaddr : Except Exit Addr :=
  let slot := (m.cpus i).dyn.tables.slotOf .alpha (m.pc i)
  if slot.physPage = none ∧ slot.hostLoad = none then alphaTranslateV2p io.ram m.host (m.cpus i) (m.pc i) else .ok 0#64

def pcToPointers : Except Exit AlphaMachine := do
  let paddr ← m.pcPaddr io i
  let dyn ← (m.cpus i).dyn.pcToPointers (alphaConf cfg.ls.cacheSize) (fun p => io.ram.paddrToHostaddr p false) (.ok paddr)
  return m.setDyn i dyn

/-- The end of a jump from `oldPc`: "just set next_ic", or find the new page. -/
def afterJump (oldPc : Addr) : Except Exit AlphaMachine :=
  if oldPc &&& ~~~ 8191#64 = m.pc i &&& ~~~ 8191#64 then .ok (m.setNextIc i (instrNr (m.pc i)))
  else m.pcToPointers cfg io i

/-- `X(jsr)`. -/
def jsr (dst target : RegName) : Except Exit AlphaMachine :=
  let oldPc := m.pc i
  let m := m.setReg i dst (m.instrPc i lowPc + 4#64)
  let m := m.setPc i (m.reg i target)
  m.afterJump cfg io i oldPc

/-- `X(jsr_0)`. -/
def jsr0 (target : RegName) : Except Exit AlphaMachine :=
  let oldPc := m.pc i
  let m := m.setPc i (m.reg i target)
  m.afterJump cfg io i oldPc

/-- `X(br)`. -/
def br (offset : BitVec 32) : Except Exit AlphaMachine :=
  (m.setPc i (m.instrPc i lowPc + offset.signExtend 64)).pcToPointers cfg io i

/-- `ic->f(cpu, ic)` on CPU `i`, for instruction `lowPc` of its page. -/
def execute (instr : Instr) : Except Exit AlphaMachine :=
  match instr with
  | .nop => .ok m
  | .callPal nr => cfg.palcode i nr m
  | .lda dst src offset => .ok (m.setReg i dst (m.reg i src + offset.signExtend 64))
  | .lda0 dst offset => .ok (m.setReg i dst (offset.signExtend 64))
  | .ls k call => m.lsN cfg.ls k io call i
  | .alu op dst src b =>
    match op.result (m.reg i src) (Operand.value i m b) with
    | some x => .ok (m.setReg i dst x)
    | none => .ok m
  | .mov ra rc => .ok (m.setReg i (.r rc) (if ra = alphaZero then 0#64 else m.reg i (.r ra)))
  | .implver dst => .ok (m.setReg i dst cfg.implver)
  | .fp op dst a b => .ok (m.setReg i dst (cfg.fpu.op op (m.reg i a) (m.reg i b)))
  | .fpUnary op dst b => .ok (m.setReg i dst (cfg.fpu.unary op (m.reg i b)))
  | .clear dst => .ok (m.setReg i dst 0#64)
  | .rdcc dst =>
    let m := m.setReg i dst (m.cpus i).pcc
    .ok (m.setCpu i { m.cpus i with pcc := (m.cpus i).pcc + 20#64 })
  | .jsr _ dst target => m.jsr cfg io i lowPc dst target
  | .jsr0 _ target => m.jsr0 cfg io i target
  | .br offset => m.br cfg io i lowPc offset
  | .brReturn offset dst =>
    -- the return address is saved before the branch
    let pc := m.instrPc i lowPc
    ((m.setReg i dst (pc + 4#64)).setPc i (pc + offset.signExtend 64)).pcToPointers cfg io i
  | .brCond cond offset src => if cond.holds (m.reg i src) then m.br cfg io i lowPc offset else .ok m
  | .brSamepage nr => .ok (m.setNextIc i nr)
  | .brReturnSamepage nr dst =>
    let m := m.setPc i (m.instrPc i lowPc)
    .ok ((m.setReg i dst (m.pc i + 4#64)).setNextIc i nr)
  | .brCondSamepage cond nr src => if cond.holds (m.reg i src) then .ok (m.setNextIc i nr) else .ok m

/-- "Figure out the (virtual) address of the instruction". -/
def atInstr : AlphaMachine := m.setPc i (m.instrPc i lowPc &&& ~~~ 3#64)

/-- `X(to_be_translated)`, after the instruction word has been read: the word is translated, and
the translation is executed. A CPU with an instruction that is not implemented stops. -/
def translateAndExecute (iword : BitVec 32) : Except Exit AlphaMachine := do
  let m := m.atInstr i lowPc
  match ← toBeTranslated cfg.showTraceTree (m.pc i) iword with
  | some instr => m.execute cfg io i lowPc instr
  | none => return m

end AlphaMachine

end Gxemul.Alpha
