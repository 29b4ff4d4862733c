import Gxemul.Arm.LoadStore
import Gxemul.Arm.Cpu

/- ARM load and store multiple (`src/cpus/cpu_arm_instr.c`, `src/cpus/generate_arm_multi.c`).

   arm_pop() and arm_push() go through the register list one word at a time. For some
   opcodes there is a function that transfers a block within one page, and that calls the
   general function for any other block. These functions are generated, and only for a
   little endian host. -/
namespace Gxemul.Arm
open Lib (Byte ByteMem)

/-! ## The instruction word, xxxx100P USWLnnnn llllllll llllllll -/

def pBit (iw : Word) : Bool := iw.getLsbD 24
def uBit (iw : Word) : Bool := iw.getLsbD 23
def sBit (iw : Word) : Bool := iw.getLsbD 22
def wBit (iw : Word) : Bool := iw.getLsbD 21
def lBit (iw : Word) : Bool := iw.getLsbD 20

def rn (iw : Word) : Nat := ((iw >>> 16) &&& 15#32).toNat

/-- `addr += sizeof(uint32_t)` or `addr -= sizeof(uint32_t)`. -/
def stepWord (u : Bool) (addr : Word) : Word := if u then addr + 4#32 else addr - 4#32

/-- How the transfer of a block ends: a word fails, the next instruction follows, or the
program counter has been loaded and `quick_pc_to_pointers()` is called last. -/
inductive BlockEnd where
  | failed | next | branch
  deriving DecidableEq

/-- The value of the four bytes in `data`. -/
def dataValue (c : ArmConf) (d : Nat → Byte) : Word :=
  if c.big then toInt (d 3) + (toInt (d 2) <<< 8) + (toInt (d 1) <<< 16) + (toInt (d 0) <<< 24)
  else toInt (d 0) + (toInt (d 1) <<< 8) + (toInt (d 2) <<< 16) + (toInt (d 3) <<< 24)

def dataBytes (c : ArmConf) (x : Word) : List Byte :=
  if c.big then [byteAt x 24, byteAt x 16, byteAt x 8, byteAt x 0]
  else [byteAt x 0, byteAt x 8, byteAt x 16, byteAt x 24]

namespace ArmMachine
variable (c : ArmConf) (io : ArmIo) (s : ArmMachine)

/-! ## The general functions -/

/-- `p32[(addr & 0xfff) >> 2]`. -/
def wordInPage (page : Nat) (addr : Word) : Nat := page + 4 * ((addr &&& 0xfff#32) >>> 2).toNat

/-- A word of arm_pop(), if the load does not fail. -/
def popWord (addr : Word) : Except Exit (ArmMachine × Option Word) :=
  match (s.dyn.tables.slotOf .arm (addr.setWidth 64)).hostLoad with
  | some page => .ok (s, some (c.convert (hostWord c.hostBig s.host (wordInPage page addr))))
  | none => do
    let (s, data, ok) ← s.memoryRw c io ⟨addr.setWidth 64, 4, false, cacheData⟩ (List.replicate 4 0)
    return (s, if ok then some (dataValue c fun i => data.getD i 0) else none)

/-- The first loop of arm_pop(): the last address and `new_values`. -/
def popWords (p u : Bool) (iw : Word) :
    List Nat → Word → (Nat → Word) → ArmMachine → Except Exit (ArmMachine × Option (Word × (Nat → Word)))
  | [], addr, newValues, s => .ok (s, some (addr, newValues))
  | i :: order, addr, newValues, s =>
    if ArmCpu.inList iw i then do
      let addr := if p then stepWord u addr else addr
      let (s, value) ← s.popWord c io addr
      match value with
      | none => return (s, none)
      | some value => popWords p u iw order (if p then addr else stepWord u addr) (Function.update newValues i value) s
    else popWords p u iw order addr newValues s

/-- `arm_pop()`, up to its last call, of quick_pc_to_pointers(). -/
def armPop (np : Nat) (p u sb w : Bool) (iw : Word) : Except Exit (ArmMachine × BlockEnd) := do
  let (s, r) ← s.popWords c io p u iw (ArmCpu.regOrder u) (s.cpu.r np) (fun _ => 0)
  match r with
  | none => return (s, .failed)
  | some (addr, newValues) =>
    let cpu ← s.cpu.popFinish np u sb w iw newValues addr
    -- a return without an SPSR stops the CPU
    let stops := sb && s.cpu.spsr.isNone
    return ({ s with cpu }, if ArmCpu.inList iw 15 && !stops then .branch else .next)

/-- A word of arm_push(), and whether the store succeeds. -/
def pushWord (addr value : Word) : Except Exit (ArmMachine × Bool) :=
  match (s.dyn.tables.slotOf .arm (addr.setWidth 64)).hostStore with
  | some page => .ok ({ s with host := s.host.write (wordInPage page addr) (image c (c.convert value)) }, true)
  | none => do
    let (s, _, ok) ← s.memoryRw c io ⟨addr.setWidth 64, 4, true, cacheData⟩ (dataBytes c value)
    return (s, ok)

/-- The loop of arm_push(): the last address. -/
def pushWords (p u sb : Bool) (regs : Word) : List Nat → Word → ArmMachine → Except Exit (ArmMachine × Option Word)
  | [], addr, s => .ok (s, some addr)
  | i :: order, addr, s =>
    if ArmCpu.inList regs i then do
      let value := s.cpu.pushValue sb i
      let addr := if p then stepWord u addr else addr
      let (s, ok) ← s.pushWord c io addr value
      if ok then pushWords p u sb regs order (if p then addr else stepWord u addr) s
      else return (s, none)
    else pushWords p u sb regs order addr s

def armPush (np : Nat) (p u sb w : Bool) (regs : Word) : Except Exit (ArmMachine × BlockEnd) := do
  let (s, r) ← s.pushWords c io p u sb regs (ArmCpu.regOrder u) (s.cpu.r np)
  match r with
  | none => return (s, .failed)
  | some addr => return (if w then s.setReg (.r np) addr else s, .next)

/-- `X(bdt_load)`, with the instruction word in `arg[1]`. -/
def bdtLoad (iw : Word) (lowPc : Nat) : Except Exit (ArmMachine × BlockEnd) :=
  (s.syncPc lowPc).armPop c io (rn iw) (pBit iw) (uBit iw) (sBit iw) (wBit iw) (iw &&& 0xffff#32)

/-- `X(bdt_store)`. -/
def bdtStore (iw : Word) (lowPc : Nat) : Except Exit (ArmMachine × BlockEnd) :=
  (s.syncPc lowPc).armPush c io (rn iw) (pBit iw) (uBit iw) (sBit iw) (wBit iw) (iw &&& 0xffff#32)

def bdt (iw : Word) (lowPc : Nat) : Except Exit (ArmMachine × BlockEnd) :=
  if lBit iw then s.bdtLoad c io iw lowPc else s.bdtStore c io iw lowPc

end ArmMachine

/-! ## The generated functions -/

def regList (opcode : Word) : List Nat := (List.range 16).filter (ArmCpu.inList opcode)

def nRegs (opcode : Word) : Nat := (regList opcode).length

/-- An opcode that generate_opcode() accepts. -/
structure MultiOpcode where
  opcode : Word
  isBdt : opcode &&& 0x0e000000#32 = 0x08000000#32
  hasRegs : nRegs opcode ≠ 0
  noS : sBit opcode = false
  base : rn opcode ≠ 15

/-- The registers in the list, and which word of `p[]` each of them has. -/
def words (opcode : Word) : List (Nat × Int) :=
  (regList opcode).zipIdx.map fun x =>
    (x.1, if uBit opcode then (x.2 : Int) else (x.2 : Int) + 1 - (nRegs opcode : Int))

/-- `&p[x]`. -/
def wordPtr (p : Nat) (x : Int) : Nat := ((p : Int) + 4 * x).toNat

def inPage (opcode : Word) (addr : Nat) : Bool :=
  if nRegs opcode ≤ 1 then true
  else if uBit opcode then addr ≤ 0x1000 - 4 * nRegs opcode
  else addr ≥ 4 * (nRegs opcode - 1)

namespace ArmMachine
variable (c : ArmConf) (io : ArmIo) (s : ArmMachine)

def multiAddr (opcode : Word) : Word :=
  if pBit opcode then stepWord (uBit opcode) (s.cpu.r (rn opcode)) else s.cpu.r (rn opcode)

/-- `p`, if the generated function transfers the block. -/
def multiPtr (opcode : Word) : Option Nat :=
  let addr := s.multiAddr opcode
  let slot := s.dyn.tables.slotOf .arm (addr.setWidth 64)
  let ofs := (addr &&& 0xffc#32).toNat
  if inPage opcode ofs then (if lBit opcode then slot.hostLoad else slot.hostStore).map (· + ofs) else none

/-- The loads. With write-back the base register is not loaded. -/
def multiLoad (opcode : Word) (p : Nat) : ArmMachine :=
  (words opcode).foldl (fun s x =>
    let value := hostWord c.hostBig s.host (wordPtr p x.2)
    if wBit opcode && x.1 == rn opcode then s
    else if x.1 = 15 then { s with cpu := { s.cpu with pc := value } }
    else s.setReg (.r x.1) value) s

def multiStore (opcode : Word) (lowPc p : Nat) : ArmMachine :=
  let tmpPc := s.icPc lowPc + 12#32
  (words opcode).foldl (fun s x =>
    { s with host := s.host.write (wordPtr p x.2) (image c (if x.1 = 15 then tmpPc else s.cpu.r x.1)) }) s

/-- `cpu->cd.arm.r[r] += 4 * n_regs`, or `-=`. -/
def multiBase (opcode : Word) : ArmMachine :=
  let n := BitVec.ofNat 32 (4 * nRegs opcode)
  let base := s.cpu.r (rn opcode)
  if wBit opcode then s.setReg (.r (rn opcode)) (if uBit opcode then base + n else base - n) else s

/-- `arm_instr_multi_<opcode>`, up to its last call, of quick_pc_to_pointers(). The
instruction word, which the general function uses, has a condition code too. -/
def multi (op : MultiOpcode) (iw : Word) (lowPc : Nat) : Except Exit (ArmMachine × BlockEnd) :=
  match s.multiPtr op.opcode with
  | none => if lBit op.opcode then s.bdtLoad c io iw lowPc else s.bdtStore c io iw lowPc
  | some p =>
    if lBit op.opcode then
      .ok ((s.multiLoad c op.opcode p).multiBase op.opcode, if ArmCpu.inList op.opcode 15 then .branch else .next)
    else .ok ((s.multiStore c op.opcode lowPc p).multiBase op.opcode, .next)

def finish (r : ArmMachine × BlockEnd) : Except Exit (ArmMachine × BlockEnd) :=
  match r.2 with
  | .branch => do
    let s ← r.1.pcToPointers c io
    return (s, .branch)
  | .next | .failed => .ok r

end ArmMachine

/-! ## Which function is used -/

def multiIndex (iw : Word) : Word :=
  ((iw &&& 0x00800000#32) >>> 16) ||| ((iw &&& 0x00100000#32) >>> 14) ||| ((iw &&& 0x00040000#32) >>> 13) |||
    ((iw &&& 0x00010000#32) >>> 12) ||| ((iw &&& 0x00000100#32) >>> 5) ||| ((iw &&& 0x00000040#32) >>> 4) |||
    ((iw &&& 0x00000010#32) >>> 3) ||| ((iw &&& 0x00000004#32) >>> 2)

/-- `multi_opcode[j]`. -/
def multiOpcodes (table : List MultiOpcode) (j : Word) : List MultiOpcode :=
  table.filter fun op => multiIndex op.opcode == j

def findMulti (c : ArmConf) (table : List MultiOpcode) (iw : Word) : Option MultiOpcode :=
  if c.hostBig then none
  else (multiOpcodes table (multiIndex iw)).find? fun op => iw &&& 0x0fffffff#32 == op.opcode

end Gxemul.Arm
