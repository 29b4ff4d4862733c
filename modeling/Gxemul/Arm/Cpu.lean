import Mathlib.Logic.Function.Basic
import Gxemul.Dyntrans.Vph

/- An emulated ARM CPU: its registers and status registers, the change of register
   banks, and arm_exception() (`src/include/cpu_arm.h`, `src/cpus/cpu_arm.c`).

   `r` always has the current registers. The other arrays are only used to swap
   with when the mode changes. The four condition flags are in `flags`, and those
   in `cpsr` may be old. -/
namespace Gxemul.Arm

/-- A register (`uint32_t`). -/
abbrev Word := BitVec 32

def armFlagI : Word := 0x80#32
def armFlagF : Word := 0x40#32
def armFlagT : Word := 0x20#32
def armFlagMode : Word := 0x1f#32
def armControlMmu : Word := 0x1#32
def armControlS : Word := 0x100#32
def armControlR : Word := 0x200#32
def armControlV : Word := 0x2000#32

/-- `ARM_CONTROL_PROG32 | DATA32 | CACHE | ICACHE | ALIGN`. -/
def armControlNew : Word := 0x1036#32

def armSp : Nat := 13
def armLr : Nat := 14
def armPc : Nat := 15

/-- The modes that are implemented, `ARM_MODE_*32`. -/
inductive ArmMode where
  | usr | fiq | irq | svc | abt | und | sys
  deriving DecidableEq

/-- `cpsr & ARM_FLAG_MODE`. -/
def armMode (cpsr : Word) : Option ArmMode :=
  match (cpsr &&& armFlagMode).toNat with
  | 0x10 => some .usr
  | 0x11 => some .fiq
  | 0x12 => some .irq
  | 0x13 => some .svc
  | 0x17 => some .abt
  | 0x1b => some .und
  | 0x1f => some .sys
  | _ => none

def ArmMode.bits : ArmMode → Word
  | .usr => 0x10#32
  | .fiq => 0x11#32
  | .irq => 0x12#32
  | .svc => 0x13#32
  | .abt => 0x17#32
  | .und => 0x1b#32
  | .sys => 0x1f#32

/-- `ARM_EXCEPTION_*`. -/
inductive ArmException where
  | reset | und | swi | prefAbt | dataAbt | irq | fiq
  deriving DecidableEq

def ArmException.nr : ArmException → Nat
  | .reset => 0
  | .und => 1
  | .swi => 2
  | .prefAbt => 3
  | .dataAbt => 4
  | .irq => 6
  | .fiq => 7

def ArmException.mode : ArmException → ArmMode
  | .reset => .svc
  | .und => .und
  | .swi => .svc
  | .prefAbt => .abt
  | .dataAbt => .abt
  | .irq => .irq
  | .fiq => .fiq

/-- The part of `struct arm_cpu` that instructions and exceptions work on, with
`cpu->pc` and `cpu->running`. -/
structure ArmCpu where
  r : Nat → Word
  defaultR8R14 : Nat → Word
  fiqR8R14 : Nat → Word
  irqR13R14 : Nat → Word
  svcR13R14 : Nat → Word
  abtR13R14 : Nat → Word
  undR13R14 : Nat → Word
  flags : BitVec 4
  cpsr : Word
  spsrSvc : Word
  spsrAbt : Word
  spsrUnd : Word
  spsrIrq : Word
  spsrFiq : Word
  control : Word
  ttb : Word
  dacr : Word
  fsr : Word
  far : Word
  pc : Word
  running : Bool

/-! ## Register banks -/

/-- `memcpy()` of `n` words from `&r[8]` to a bank. -/
def copyOut (n : Nat) (r bank : Nat → Word) : Nat → Word := fun i => if i < n then r (8 + i) else bank i

/-- `memcpy()` of `n` words from a bank to `&r[8]`. -/
def copyIn (n : Nat) (bank r : Nat → Word) : Nat → Word := fun i => if 8 ≤ i ∧ i < 8 + n then bank (i - 8) else r i

def savePair (r bank : Nat → Word) : Nat → Word := Function.update (Function.update bank 0 (r 13)) 1 (r 14)

def loadPair (bank r : Nat → Word) : Nat → Word := Function.update (Function.update r 13 (bank 0)) 14 (bank 1)

namespace ArmCpu
variable (s : ArmCpu)

def saveRegisterBank : Except Exit ArmCpu :=
  match armMode s.cpsr with
  | some .usr | some .sys => .ok { s with defaultR8R14 := copyOut 7 s.r s.defaultR8R14 }
  | some .fiq => .ok { s with fiqR8R14 := copyOut 7 s.r s.fiqR8R14 }
  | some .irq => .ok { s with
      defaultR8R14 := copyOut 5 s.r s.defaultR8R14
      irqR13R14 := savePair s.r s.irqR13R14 }
  | some .svc => .ok { s with
      defaultR8R14 := copyOut 5 s.r s.defaultR8R14
      svcR13R14 := savePair s.r s.svcR13R14 }
  | some .abt => .ok { s with
      defaultR8R14 := copyOut 5 s.r s.defaultR8R14
      abtR13R14 := savePair s.r s.abtR13R14 }
  | some .und => .ok { s with
      defaultR8R14 := copyOut 5 s.r s.defaultR8R14
      undR13R14 := savePair s.r s.undR13R14 }
  | none => .error .unimplementedMode

def loadRegisterBank : Except Exit ArmCpu :=
  match armMode s.cpsr with
  | some .usr | some .sys => .ok { s with r := copyIn 7 s.defaultR8R14 s.r }
  | some .fiq => .ok { s with r := copyIn 7 s.fiqR8R14 s.r }
  | some .irq => .ok { s with r := loadPair s.irqR13R14 (copyIn 5 s.defaultR8R14 s.r) }
  | some .svc => .ok { s with r := loadPair s.svcR13R14 (copyIn 5 s.defaultR8R14 s.r) }
  | some .abt => .ok { s with r := loadPair s.abtR13R14 (copyIn 5 s.defaultR8R14 s.r) }
  | some .und => .ok { s with r := loadPair s.undR13R14 (copyIn 5 s.defaultR8R14 s.r) }
  | none => .error .unimplementedMode

/-- "When cpsr is read, the flags should be copied from 'flags'". -/
def syncFlags : ArmCpu := { s with cpsr := (s.cpsr &&& 0x0fffffff#32) ||| (s.flags.setWidth 32 <<< 28) }

/-- `cpsr` is written, "'flags' should be updated as well". -/
def writeCpsr (cpsr : Word) : ArmCpu := { s with cpsr, flags := (cpsr >>> 28).setWidth 4 }

def spsr : Option Word :=
  match armMode s.cpsr with
  | some .fiq => some s.spsrFiq
  | some .abt => some s.spsrAbt
  | some .und => some s.spsrUnd
  | some .irq => some s.spsrIrq
  | some .svc => some s.spsrSvc
  | some .usr | some .sys | none => none

def setSpsr (m : ArmMode) (value : Word) : ArmCpu :=
  match m with
  | .svc => { s with spsrSvc := value }
  | .abt => { s with spsrAbt := value }
  | .und => { s with spsrUnd := value }
  | .irq => { s with spsrIrq := value }
  | .fiq => { s with spsrFiq := value }
  | .usr | .sys => s

def setReg (i : Nat) (value : Word) : ArmCpu := { s with r := Function.update s.r i value }

/-- The registers that arm_cpu_new() sets up. -/
def new (promEmulation : Bool) : ArmCpu :=
  { r := fun _ => 0, defaultR8R14 := fun _ => 0, fiqR8R14 := fun _ => 0, irqR13R14 := fun _ => 0
    svcR13R14 := fun _ => 0, abtR13R14 := fun _ => 0, undR13R14 := fun _ => 0
    flags := 0, cpsr := armFlagI ||| armFlagF ||| ArmMode.svc.bits
    spsrSvc := 0, spsrAbt := 0, spsrUnd := 0, spsrIrq := 0, spsrFiq := 0
    control := armControlNew ||| (if promEmulation then armControlS else armControlR)
    ttb := 0, dacr := 0, fsr := 0, far := 0, pc := 0, running := true }

/-! ## Exceptions -/

/-- The address that arm_exception() puts in the link register. -/
def returnAddress (e : ArmException) : Word :=
  s.pc + (if e = .dataAbt then 4#32 else 0#32) + (if s.cpsr &&& armFlagT ≠ 0 then 2#32 else 4#32)

def exceptionCpsr (e : ArmException) (cpsr : Word) : Word :=
  let cpsr := (cpsr &&& ~~~ armFlagT &&& ~~~ armFlagMode) ||| e.mode.bits
  let cpsr := cpsr ||| armFlagI
  if e = .reset ∨ e = .fiq then cpsr ||| armFlagF else cpsr

def vector (e : ArmException) : Word :=
  BitVec.ofNat 32 (e.nr * 4) + (if s.control &&& armControlV ≠ 0 then 0xffff0000#32 else 0#32)

/-- `arm_exception()`, up to its last call, of pc_to_pointers(). -/
def armException (e : ArmException) : Except Exit ArmCpu := do
  if e = .reset then throw .armReset
  let retaddr := s.returnAddress e
  let s ← s.saveRegisterBank
  let s := s.syncFlags
  let s := s.setSpsr e.mode s.cpsr
  let s := { s with cpsr := exceptionCpsr e s.cpsr }
  let s ← s.loadRegisterBank
  let s := s.setReg armLr retaddr
  let pc := s.vector e
  return { s.setReg armPc pc with pc }

end ArmCpu

end Gxemul.Arm

/- The instructions that change the mode of an ARM CPU, or use the registers of
   another mode (`src/cpus/cpu_arm_instr.c`, `src/cpus/cpu_arm_instr_dpi.c`): msr,
   data processing instructions with the S bit that write to the program counter,
   and the register part of ldm and stm. -/
namespace Gxemul.Arm

namespace ArmCpu
variable (s : ArmCpu)

/-! ## msr -/

/-- `X(msr_imm)`, with the mask `arg[1]`. In user mode only the flags are written. -/
def msrImm (mask value : Word) : Except Exit ArmCpu := do
  let mask := if s.cpsr &&& armFlagMode = ArmMode.usr.bits then mask &&& 0xff000000#32 else mask
  let switchRegisterBanks := mask &&& armFlagMode ≠ 0 ∧ s.cpsr &&& armFlagMode ≠ value &&& armFlagMode
  let s := s.syncFlags
  let s ← if switchRegisterBanks then s.saveRegisterBank else pure s
  let s := s.writeCpsr ((s.cpsr &&& ~~~ mask) ||| (value &&& mask))
  if switchRegisterBanks then s.loadRegisterBank else return s

/-- `X(msr)`: from register `rm`. -/
def msr (mask : Word) (rm : Nat) : Except Exit ArmCpu := s.msrImm mask (s.r rm)

/-- `X(msr_imm_spsr)`. Without an SPSR the CPU stops. -/
def msrImmSpsr (mask value : Word) : ArmCpu :=
  match armMode s.cpsr with
  | some .fiq => { s with spsrFiq := (s.spsrFiq &&& ~~~ mask) ||| (value &&& mask) }
  | some .abt => { s with spsrAbt := (s.spsrAbt &&& ~~~ mask) ||| (value &&& mask) }
  | some .und => { s with spsrUnd := (s.spsrUnd &&& ~~~ mask) ||| (value &&& mask) }
  | some .irq => { s with spsrIrq := (s.spsrIrq &&& ~~~ mask) ||| (value &&& mask) }
  | some .svc => { s with spsrSvc := (s.spsrSvc &&& ~~~ mask) ||| (value &&& mask) }
  | some .usr | some .sys | none => { s with running := false }

/-- `X(msr_spsr)`. -/
def msrSpsr (mask : Word) (rm : Nat) : ArmCpu := s.msrImmSpsr mask (s.r rm)

/-! ## movs pc, subs pc -/

/-- A data processing instruction with the S bit whose destination is the program
counter, with its result. "Copy the right SPSR into CPSR". -/
def dpiReturn (result : Word) : Except Exit ArmCpu := do
  let s ← ArmCpu.saveRegisterBank { s with pc := result }
  let s := s.writeCpsr (s.spsr.getD s.cpsr)
  let s ← s.loadRegisterBank
  return if s.pc &&& 1#32 ≠ 0 then { s with cpsr := s.cpsr ||| armFlagT } else s

/-! ## ldm and stm -/

def regOrder (uBit : Bool) : List Nat := if uBit then List.range 16 else (List.range 16).reverse

/-- The register list in `iw`. -/
def inList (iw : Word) (i : Nat) : Bool := iw.getLsbD i

/-- arm_pop() puts `value` in register `i`. With the S bit this is the register of user mode. -/
def popReg (sBit : Bool) (i : Nat) (value : Word) : ArmCpu :=
  if !sBit then s.setReg i value
  else
    match armMode s.cpsr with
    | some .usr | some .sys => s.setReg i value
    | some .fiq =>
      if 8 ≤ i ∧ i ≤ 14 then { s with defaultR8R14 := Function.update s.defaultR8R14 (i - 8) value }
      else s.setReg i value
    | some .svc | some .abt | some .und | some .irq =>
      if 13 ≤ i ∧ i ≤ 14 then { s with defaultR8R14 := Function.update s.defaultR8R14 (i - 8) value }
      else s.setReg i value
    | none => s

/-- The second loop of arm_pop(). -/
def popRegs (sBit uBit : Bool) (iw : Word) (newValues : Nat → Word) : ArmCpu :=
  (regOrder uBit).foldl (fun s i => if inList iw i then s.popReg sBit i (newValues i) else s) s

/-- The return from an exception in arm_pop(): the SPSR is put into CPSR. -/
def popReturn (newCpsr : Word) : Except Exit ArmCpu := do
  let switchRegisterBanks := s.cpsr &&& armFlagMode ≠ newCpsr &&& armFlagMode
  let s ← if switchRegisterBanks then s.saveRegisterBank else pure s
  let s := s.writeCpsr newCpsr
  if switchRegisterBanks then s.loadRegisterBank else return s

/-- The S bit in user mode is ignored, and with the program counter in the list it is
a return from an exception: `s_bit` and `return_flag`. -/
def popMode (sBit : Bool) (iw : Word) : Bool × Bool :=
  if sBit then
    if inList iw 15 then (false, true)
    else (s.cpsr &&& armFlagMode != ArmMode.usr.bits, false)
  else (false, false)

def popPc : ArmCpu := { s with pc := s.r armPc &&& 0xfffffffc#32 }

/-- arm_pop() from where all words have been loaded, up to its last call, of
pc_to_pointers(). `addr` is the address that the base register gets. A return without
an SPSR stops the CPU. -/
def popFinish (rn : Nat) (uBit sBit wBit : Bool) (iw : Word) (newValues : Nat → Word) (addr : Word) :
    Except Exit ArmCpu := do
  let mode := s.popMode sBit iw
  let s := s.popRegs mode.1 uBit iw newValues
  let s := if wBit then s.setReg rn addr else s
  if mode.2 then
    match s.spsr with
    | none => return { s with running := false }
    | some newCpsr => do
      let s ← s.popReturn newCpsr
      return s.popPc
  else if inList iw 15 then return s.popPc
  else return s

/-- The value that arm_push() stores for register `i`. -/
def pushValue (sBit : Bool) (i : Nat) : Word :=
  if i = armPc then s.pc + 12#32
  else if !sBit then s.r i
  else
    match armMode s.cpsr with
    | some .fiq => if 8 ≤ i ∧ i ≤ 14 then s.defaultR8R14 (i - 8) else s.r i
    | some .abt | some .und | some .irq | some .svc =>
      if 13 ≤ i ∧ i ≤ 14 then s.defaultR8R14 (i - 8) else s.r i
    | some .usr | some .sys | none => s.r i

end ArmCpu

end Gxemul.Arm
