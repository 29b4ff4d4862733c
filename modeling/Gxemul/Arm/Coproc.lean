import Gxemul.Arm.LoadStore

/- The system control coprocessor (`src/cpus/cpu_arm_coproc.c`).

   Only the TLB functions, register 8, invalidate anything. The control register also
   says which function `cpu->translate_v2p` points to, but only a change of its MMU bit
   is acted upon. -/
namespace Gxemul.Arm

def armControlBig : Word := 0x80#32

/-- The registers that nothing but the coprocessor uses, and the two that identify the CPU. -/
structure Cp15 where
  cpuId : Word
  cachetype : Word
  auxctrl : Word
  pid : Word
  cpar : Word

/-- The fields of mcr and mrc that arm_coproc_15() looks at. `lBit` is set for a read. -/
structure Mcr where
  opcode2 : Nat
  lBit : Bool
  crn : Nat
  crm : Nat
  rd : Nat

namespace ArmMachine
variable (c : ArmConf) (s : ArmMachine)

/-- "Write to control". -/
def writeControl (value : Word) : Except Exit ArmMachine :=
  let oldControl := s.cpu.control
  let mmuOn := if oldControl &&& armControlMmu ≠ value &&& armControlMmu then value &&& armControlMmu != 0 else s.mmuOn
  let oldControl := oldControl &&& ~~~ armControlBig
  let oldControl := if c.big then oldControl ||| armControlBig else oldControl
  if oldControl &&& armControlBig ≠ value &&& armControlBig then .error .switchEndianness
  else .ok { s with cpu := { s.cpu with control := value }, mmuOn }

/-- `cpu->invalidate_translation_caches()`. -/
def invalidateTranslationCaches (addr : Addr) (flags : Nat) : Except Exit ArmMachine := do
  let dyn ← s.dyn.invalidateTranslationCaches c.conf addr flags
  return { s with dyn }

/-- `arm_coproc_15()`. -/
def armCoproc15 (x : Cp15) (m : Mcr) : Except Exit (ArmMachine × Cp15) :=
  let value := s.cpu.r m.rd
  let read (value : Word) : ArmMachine × Cp15 := (s.setReg (.r m.rd) value, x)
  if m.rd = armPc then .error .coprocRegisterPc
  else
    match m.crn with
    | 0 =>
      .ok (if !m.lBit then (s, x) else
        match m.opcode2 with
        | 0 => read x.cpuId
        | 1 => read x.cachetype
        | _ => (s, x))
    | 1 =>
      if m.lBit then
        .ok (match m.opcode2 with
          | 0 => read s.cpu.control
          | 1 => read x.auxctrl
          | _ => (s, x))
      else if m.opcode2 = 1 then .ok (s, { x with auxctrl := value })
      else (s.writeControl c value).map (·, x)
    | 2 =>
      if m.lBit then .ok (read (s.cpu.ttb &&& 0xffffc000#32))
      else .ok ({ s with cpu := { s.cpu with ttb := value &&& 0xffffc000#32 } }, x)
    | 3 => .ok (if m.lBit then read s.cpu.dacr else ({ s with cpu := { s.cpu with dacr := value } }, x))
    | 5 =>
      .ok (if m.lBit then read (s.cpu.fsr &&& 0xff#32)
        else ({ s with cpu := { s.cpu with fsr := value &&& 0xff#32 } }, x))
    | 6 => .ok (if m.lBit then read s.cpu.far else ({ s with cpu := { s.cpu with far := value } }, x))
    | 8 =>
      if m.lBit then .ok (s, x)
      else if m.opcode2 = 0 then (s.invalidateTranslationCaches c 0 invalidateAll).map (·, x)
      else (s.invalidateTranslationCaches c (value.setWidth 64) invalidateVaddr).map (·, x)
    | 13 =>
      let (s', x) := if m.lBit then read x.pid else (s, { x with pid := value })
      if x.pid ≠ 0 then .error .fastContextSwitch else .ok (s', x)
    | 15 =>
      .ok (match m.crm with
        | 1 => if m.lBit then read x.cpar else (s, { x with cpar := value })
        | _ => (s, x))
    -- the cache functions, and what is not implemented
    | _ => .ok (s, x)

end ArmMachine

end Gxemul.Arm
