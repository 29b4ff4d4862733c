import Gxemul.Arm.Mmu

/- ARM loads and stores (`src/cpus/cpu_arm_instr_loadstore.c`).

   Each instruction has a fast function, which goes through the translation tables,
   and a general one, which calls memory_rw(). The source is compiled once for each
   combination of eight macros. Here these are arguments. -/
namespace Gxemul.Arm
open Lib (Byte ByteMem bytes)

/-- The macros that are defined: A__L, A__W, A__B, A__H, A__SIGNED, A__U, A__P and A__REG.
A byte is not a halfword, and a word is not signed. -/
structure LsKind where
  l : Bool
  w : Bool
  b : Bool
  h : Bool
  signed : Bool
  u : Bool
  p : Bool
  reg : Bool
  valid : (!(b && h) && (!signed || b || h)) = true := by decide

namespace LsKind
variable (k : LsKind)

def ldrd : Bool := k.signed && !k.h && !k.l

def strd : Bool := k.signed && k.h && !k.l

def load : Bool := k.l || k.ldrd

def datalen : Nat := if k.strd || k.ldrd then 8 else if k.b then 1 else if k.h then 2 else 4

/-- `addr &= ~(datalen - 1)`. -/
def align (addr : Word) : Word := addr &&& ~~~ BitVec.ofNat 32 (k.datalen - 1)

/-- `memory_rw_flags`: an access of user mode, or of the current mode. -/
def memoryRwFlags : Nat := if !k.p && k.w then cacheData ||| memoryUserAccess else cacheData

end LsKind

/-- What `arg[0]` and `arg[2]` point to. -/
inductive RegName where
  | r (i : Nat)
  | tmpPc
  | tmpBranch
  deriving DecidableEq

/-- The next word in `struct arm_cpu`. -/
def RegName.next : RegName → RegName
  | r i => r (i + 1)
  | tmpPc => tmpBranch
  | tmpBranch => tmpBranch

/-- `struct arm_instr_call` of a load or store, which is number `lowPc` of its page.
`arg1` is the immediate value, or the index of the function in `arm_r[]`. -/
structure LsCall where
  arg0 : RegName
  arg1 : Word
  arg2 : RegName
  lowPc : Nat

section
variable (c : ArmConf) (k : LsKind)

/-! ## Data -/

def toInt (b : Byte) : Word := b.setWidth 32

/-- `x >> n`, as it is stored in a byte. -/
def byteAt (x : Word) (n : Nat) : Byte := (x >>> n).setWidth 8

def loadValue (d : Nat → Byte) : Word :=
  if k.b then (if k.signed then (d 0).signExtend 32 else toInt (d 0))
  else if k.h then
    let x := if c.big then toInt (d 1) + (toInt (d 0) <<< 8) else toInt (d 0) + (toInt (d 1) <<< 8)
    if k.signed then (x.setWidth 16).signExtend 32 else x
  else if c.big then toInt (d 3) + (toInt (d 2) <<< 8) + (toInt (d 1) <<< 16) + (toInt (d 0) <<< 24)
  else toInt (d 0) + (toInt (d 1) <<< 8) + (toInt (d 2) <<< 16) + (toInt (d 3) <<< 24)

def ldrdValue (d : Nat → Byte) : Word :=
  if c.big then toInt (d 7) + (toInt (d 1) <<< 6) + (toInt (d 5) <<< 16) + (toInt (d 4) <<< 24)
  else toInt (d 0) + (toInt (d 1) <<< 8) + (toInt (d 2) <<< 16) + (toInt (d 3) <<< 24)

def ldrdValue1 (d : Nat → Byte) : Word :=
  if c.big then toInt (d 0) + (toInt (d 1) <<< 8) + (toInt (d 2) <<< 16) + (toInt (d 3) <<< 24)
  else toInt (d 4) + (toInt (d 5) <<< 8) + (toInt (d 6) <<< 16) + (toInt (d 7) <<< 24)

/-- The bytes of a store, the one at `i` first: from the lowest on, or down from the
end of the buffer. -/
def storeBytes (x x1 : Word) : List Byte :=
  let l := if k.b then [byteAt x 0]
    else if k.h && !k.strd then [byteAt x 0, byteAt x 8]
    else if !k.strd then [byteAt x 0, byteAt x 8, byteAt x 16, byteAt x 24]
    else [byteAt x 0, byteAt x 8, byteAt x 16, byteAt x 24, byteAt x1 0, byteAt x1 8, byteAt x1 16, byteAt x1 24]
  if c.big then l.reverse else l

/-- On a little endian host the buffer of a word is the register itself. -/
def inRegister : Bool := !k.b && !k.h && !c.hostBig

def image (x : Word) : List Byte := bytes c.hostBig 4 x.toNat

end

namespace ArmMachine

/-- `reg(x)`. -/
def reg (s : ArmMachine) : RegName → Word
  | .r i => s.cpu.r i
  | .tmpPc => s.tmpPc
  | .tmpBranch => s.tmpBranch

/-- `reg(x) = value`. -/
def setReg (s : ArmMachine) (x : RegName) (value : Word) : ArmMachine :=
  match x with
  | .r i => { s with cpu := s.cpu.setReg i value }
  | .tmpPc => { s with tmpPc := value }
  | .tmpBranch => { s with tmpBranch := value }

def icPc (s : ArmMachine) (lowPc : Nat) : Word := (s.cpu.pc &&& ~~~ 0xffc#32) + BitVec.ofNat 32 (lowPc * 4)

def syncPc (s : ArmMachine) (lowPc : Nat) : ArmMachine := { s with cpu := { s.cpu with pc := s.icPc lowPc } }

/-- `arm_r[func]`, for a shift by a constant (`src/cpus/generate_arm_r.c`). -/
def armR (s : ArmMachine) (lowPc : Nat) (func : Nat) : Word :=
  let rm := func &&& 15
  let n := (func >>> 7) &&& 31
  let x := if rm = armPc then s.icPc lowPc + 8#32 else s.cpu.r rm
  match (func >>> 4) &&& 7 with
  | 0 => x <<< n
  | 2 => if n = 0 then 0 else x >>> n
  | 4 => if n = 0 then (if x &&& 0x80000000#32 ≠ 0 then 0xffffffff#32 else 0) else x.sshiftRight n
  | _ =>
    if n = 0 then (x >>> 1) ||| (if s.cpu.flags.getLsbD 1 then 0x80000000#32 else 0)
    else (x >>> n) ||| (x <<< (32 - n))

variable (c : ArmConf) (k : LsKind) (io : ArmIo) (ic : LsCall) (s : ArmMachine)

def offset : Word :=
  let x := if k.reg then s.armR ic.lowPc ic.arg1.toNat else ic.arg1
  if k.u then x else -x

def lsAddr : Word := s.reg ic.arg0 + (if k.p then s.offset k ic else 0)

/-- The buffer when memory_rw() is called. -/
def buffer : List Byte :=
  if inRegister c k then image c (s.reg ic.arg2)
  else if k.load then List.replicate k.datalen 0
  else storeBytes c k (s.reg ic.arg2) (s.reg ic.arg2.next)

def loadRegs (data : List Byte) : ArmMachine :=
  let d := fun i => data.getD i 0
  if k.ldrd then (s.setReg ic.arg2 (ldrdValue c d)).setReg ic.arg2.next (ldrdValue1 c d)
  else s.setReg ic.arg2 (loadValue c k d)

def writeBack (addr offset : Word) : ArmMachine :=
  if k.p then (if k.w then s.setReg ic.arg0 addr else s) else s.setReg ic.arg0 (addr + offset)

/-! ## The two functions -/

def access : Access := ⟨(k.align (s.lsAddr k ic)).setWidth 64, k.datalen, !k.load, k.memoryRwFlags⟩

/-- `A__NAME__general`, and whether the access succeeds. -/
def lsGeneral : Except Exit (ArmMachine × Bool) := do
  let offset := s.offset k ic
  let a := s.access k ic
  let data := s.buffer c k ic
  let (s, data', ok) ← (s.syncPc ic.lowPc).memoryRw c io a data
  let s := if inRegister c k && data' != data then
      s.setReg ic.arg2 (BitVec.ofNat 32 (Lib.value c.hostBig data')) else s
  if !ok then return (s, false)
  else
    let s := if k.load then s.loadRegs c k ic data' else s
    return (s.writeBack k ic (a.vaddr.setWidth 32) offset, true)

def isUserpage (addr : Word) : Bool :=
  match s.dyn.tables with
  | .vph32 t => t.isUserpage (addr >>> 12).toNat
  | .vph64 _ => false

def fastPage : Option Nat :=
  let slot := s.dyn.tables.slotOf .arm ((s.lsAddr k ic).setWidth 64)
  if k.ldrd || k.strd then none
  else if !k.p && k.w && !s.isUserpage (s.lsAddr k ic) then none
  else if k.l then slot.hostLoad
  else slot.hostStore

/-- `A__NAME`. -/
def lsFast : Except Exit (ArmMachine × Bool) :=
  match s.fastPage k ic with
  | none => s.lsGeneral c k io ic
  | some page =>
    let addr := k.align (s.lsAddr k ic)
    let p := page + (addr &&& 0xfff#32).toNat
    let s' := if k.l then s.setReg ic.arg2 (loadValue c k fun i => s.host (p + i))
      else { s with host := s.host.write p (storeBytes c k (s.reg ic.arg2) 0) }
    .ok (s'.writeBack k ic addr (s.offset k ic), true)

end ArmMachine

end Gxemul.Arm
