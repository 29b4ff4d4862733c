import Gxemul.Mips.Coproc
import Gxemul.Mips.LoadStore

/- MIPS unaligned loads and stores (`src/cpus/cpu_mips_instr_unaligned.c`).

   An instruction is for the left or for the right end of a word in memory. It
   transfers the bytes of the register from that end on, as far as they are in one
   aligned word. Stores read the aligned word, and write it back. -/
namespace Gxemul.Mips
open Lib (Byte)

/-- `wlen`. -/
inductive Wlen where
  | word | doubleword
  deriving DecidableEq

namespace Wlen

def toNat : Wlen → Nat
  | word => 4
  | doubleword => 8

/-- `wlen - 1`. -/
def mask (w : Wlen) : Addr := BitVec.ofNat 64 (w.toNat - 1)

end Wlen

/-- `dir`: the direction in memory. -/
def unalignedDir (isLeft big : Bool) : Int :=
  let dir := if isLeft then 1 else -1
  if big then dir else -dir

/-- `reg_dir`: the direction in the register. -/
def unalignedRegDir (isLeft : Bool) : Int := if isLeft then -1 else 1

/-- `reg_ofs`, for the first byte. -/
def unalignedRegOfs (isLeft : Bool) (w : Wlen) : Int := if isLeft then w.toNat - 1 else 0

/-- The loop of loads and stores. `transfer` transfers a byte, given its offset in the aligned word and its offset in
the register. "Have we moved into another word/dword? Then stop". -/
def unalignedLoop {α : Type} (transfer : α → Nat → Nat → α) (w : Wlen) (addr : Addr) (dir regDir : Int) :
    Nat → Nat → Int → α → α
  | 0, _, _, x => x
  | n + 1, i, regOfs, x =>
    let tmpaddr := addr + BitVec.ofInt 64 (i * dir)
    if tmpaddr &&& ~~~ w.mask ≠ addr &&& ~~~ w.mask then x
    else
      unalignedLoop transfer w addr dir regDir n (i + 1) (regOfs + regDir)
        (transfer x (tmpaddr &&& w.mask).toNat regOfs.toNat)

/-- "Load one byte". -/
def loadByte (alignedWord : List Byte) (resultValue : Reg) (ofs regOfs : Nat) : Reg :=
  (resultValue &&& ~~~ (0xff#64 <<< (regOfs * 8))) ||| ((alignedWord.getD ofs 0).setWidth 64 <<< (regOfs * 8))

/-- "Store one byte". -/
def storeByte (resultValue : Reg) (alignedWord : List Byte) (ofs regOfs : Nat) : List Byte :=
  alignedWord.set ofs ((resultValue >>> (regOfs * 8)) &&& 255#64 |>.setWidth 8)

/-- CAUSE after "the exception is converted to a TLBS". -/
def convertedCause (cause : Reg) : Reg :=
  (cause &&& ~~~ causeExccodeMask) ||| (BitVec.ofNat 64 Exccode.tlbs.toNat <<< causeExccodeShift)

namespace Machine
variable (conf : LsConf) (io : Bool → Io) (isLeft : Bool) (w : Wlen) (ic : LsCall) (s : Machine)

/-- `addr`, before it is sign-extended. -/
def unalignedSum : Addr := s.regs ic.arg1 + ic.arg2.signExtend 64

def unalignedAddr : Addr := if conf.cpuType.is32bit then sext32 (s.unalignedSum ic) else s.unalignedSum ic

def alignedAddr : Addr :=
  let alignedAddr := s.unalignedSum ic &&& ~~~ w.mask
  if conf.cpuType.is32bit then sext32 alignedAddr else alignedAddr

/-- `result_value`, at first. -/
def unalignedValue : Reg := if conf.cpuType.is32bit then sext32 (s.regs ic.arg0) else s.regs ic.arg0

def unalignedAccess (write : Bool) : Access := ⟨s.alignedAddr conf w ic, w.toNat, write, cacheData⟩

def unalignedLoaded (alignedWord : List Byte) : Reg :=
  let resultValue := unalignedLoop (loadByte alignedWord) w (s.unalignedAddr conf ic) (unalignedDir isLeft conf.big)
    (unalignedRegDir isLeft) w.toNat 0 (unalignedRegOfs isLeft w) (s.unalignedValue conf ic)
  if w = .word then sext32 resultValue else resultValue

def unalignedStored (alignedWord : List Byte) : List Byte :=
  unalignedLoop (storeByte (s.unalignedValue conf ic)) w (s.unalignedAddr conf ic) (unalignedDir isLeft conf.big)
    (unalignedRegDir isLeft) w.toNat 0 (unalignedRegOfs isLeft w) alignedWord

/-- `mips_unaligned_loadstore()`. A store is given what it gets for its read, and for its write. -/
def mipsUnalignedLoadstore (store : Bool) : Except Exit Machine := do
  let cpu := s.cpu.syncPc ic.lowPc
  let oldpc := cpu.dyn.pc
  let (cpu, copied, ok) ← cpu.memoryRw conf.cpuType conf.cacheSize (io false) (s.unalignedAccess conf w ic false) s.host
    (List.replicate w.toNat 0)
  if store then
    if !ok then
      if cpu.dyn.pc ≠ oldpc then
        return { s with
          cpu := cpu.setCop0 { cpu.mmu.cop0 with cause := convertedCause cpu.mmu.cop0.cause }
          host := copied.1 }
      else return { s with cpu, host := copied.1 }
    else
      let (cpu, copied, _) ← cpu.memoryRw conf.cpuType conf.cacheSize (io true) (s.unalignedAccess conf w ic true) copied.1
        (s.unalignedStored conf isLeft w ic copied.2)
      return { s with cpu, host := copied.1 }
  else if !ok then return { s with cpu, host := copied.1 }
  else
    let regs := Function.update s.regs ic.arg0 (s.unalignedLoaded conf isLeft w ic copied.2)
    return { cpu, regs, host := copied.1 }

end Machine

end Gxemul.Mips

/- The instructions that load from memory (`src/cpus/cpu_mips_instr.c`): lb to ld,
   lwl to ldr, ll and lld, lwc1 and ldc1.

   The loads of coprocessor 1 check that it is usable, and call the functions of
   lw and ld. ldc1 has them load a variable. -/
namespace Gxemul.Mips
open Lib (Byte)

def statusFr : Reg := 0x04000000#64
def statusCuShift : Nat := 28

/-- What ll and lld leave for sc and scd: `rmw`, `rmw_addr`, `rmw_len` and LLADDR. -/
structure Link where
  rmw : Nat
  rmwAddr : Addr
  rmwLen : Nat
  lladdr : Reg

structure LinkedMachine where
  machine : Machine
  link : Link

/-- The sum of the bytes that ll and lld have loaded, from the least significant one on. -/
def linkedValue (w : Wlen) (big : Bool) (word : List Byte) : Reg :=
  let p := fun i => word.getD (if big then w.toNat - 1 - i else i) 0
  match w with
  | .word => (load4 true false p).signExtend 64
  | .doubleword => load8 true false p

/-- The register after `arg[0]`, for `backup_ptr[1]`. There is no register after the last one. -/
def RegName.next : RegName → Option RegName
  | .fpr i => if h : i.toNat + 1 < 32 then some (.fpr ⟨i.toNat + 1, h⟩) else none
  | .gpr _ | .fprVar | .scratch => none

/-- A load. `lb` to `ld` are LS_N without LS_STORE, for a size and a sign. -/
inductive LoadInstr where
  | load (size : LsSize) (signed : Bool)
  | unaligned (isLeft : Bool) (w : Wlen)
  | linked (w : Wlen)
  | lwc1
  | ldc1

/-! ## Coprocessor 1 -/

namespace Coproc1
variable (conf : LsConf) (io : Io) (ic : LsCall) (s : Machine)

/-- `COPROC_AVAILABILITY_CHECK`: the CPU with its PC synchronized, and whether it goes on. -/
def coprocAvailabilityCheck (cpnr : Nat) : Except Exit (MipsCpu × Bool) := do
  let cpu := s.cpu.syncPc ic.lowPc
  if anyBit cpu.mmu.cop0.status (BitVec.ofNat 64 (2 ^ cpnr) <<< statusCuShift) then return (cpu, true)
  else
    let cpu ← cpu.mipsCpuException conf.cpuType conf.cacheSize io.hostaddr ⟨.cpu, false, 0, 0, 0, false⟩ cpnr
    return (cpu, false)

def lwc1 : Except Exit Machine := do
  let (cpu, usable) ← coprocAvailabilityCheck conf io ic s 1
  if !usable then return { s with cpu }
  else Machine.lsN conf ⟨.ls4, false, true⟩ io ic { s with cpu }

/-- ldc1 after its call: `fpr` goes to one register, or half of it to each of two. -/
def storeFpr (useFpPairs : Bool) : Except Exit Machine :=
  let fpr := s.regs .fprVar
  if useFpPairs then
    match ic.arg0.next with
    | none => .error .badPointer
    | some r => .ok { s with regs := Function.update (Function.update s.regs ic.arg0 (sext32 fpr)) r (sext32 (fpr >>> 32)) }
  else .ok { s with regs := Function.update s.regs ic.arg0 fpr }

def ldc1 : Except Exit Machine := do
  let useFpPairs := !anyBit s.cpu.mmu.cop0.status statusFr
  let (cpu, usable) ← coprocAvailabilityCheck conf io ic s 1
  if !usable then return { s with cpu }
  else
    let s ← Machine.lsN conf ⟨.ls8, false, true⟩ io { ic with arg0 := .fprVar } { s with cpu }
    storeFpr ic s useFpPairs

end Coproc1

namespace LinkedMachine
variable (conf : LsConf) (io : Io) (ic : LsCall) (m : LinkedMachine)

def access (w : Wlen) : Access := ⟨m.machine.addr conf ic, w.toNat, false, cacheData⟩

/-- `ll` and `lld`. No exception model is MMU10K, so LLADDR is written on all CPUs. -/
def loadLinked (w : Wlen) : Except Exit LinkedMachine := do
  let s := m.machine
  let addr := s.addr conf ic
  let cpu := s.cpu.syncPc ic.lowPc
  if addr &&& w.mask ≠ 0 then throw .loadLinkedUnaligned
  else
    let (cpu, copied, ok) ← cpu.memoryRw conf.cpuType conf.cacheSize io (m.access conf ic w) s.host
      (List.replicate w.toNat 0)
    if !ok then return { m with machine := { s with cpu, host := copied.1 } }
    else
      let regs := Function.update s.regs ic.arg0
        (regWrite conf.cpuType.is32bit (s.regs ic.arg0) (linkedValue w conf.big copied.2))
      return ⟨{ cpu, regs, host := copied.1 }, ⟨1, addr, w.toNat, (addr >>> 4) &&& 0xffffffff#64⟩⟩

def load (i : LoadInstr) : Except Exit LinkedMachine :=
  match i with
  | .load size signed => do return { m with machine := ← m.machine.lsN conf ⟨size, false, signed⟩ io ic }
  | .unaligned isLeft w => do
    return { m with machine := ← m.machine.mipsUnalignedLoadstore conf (fun _ => io) isLeft w ic false }
  | .linked w => m.loadLinked conf io ic w
  | .lwc1 => do return { m with machine := ← Coproc1.lwc1 conf io ic m.machine }
  | .ldc1 => do return { m with machine := ← Coproc1.ldc1 conf io ic m.machine }

end LinkedMachine

end Gxemul.Mips
