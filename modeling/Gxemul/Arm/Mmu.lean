import Gxemul.Arm.Cpu
import Gxemul.Dyntrans.Cpu
import Gxemul.Lib.Bytes
import Gxemul.Memory.Data

/- Address translation on ARM (`src/cpus/memory_arm.c`).

   With the MMU off, a virtual address is the physical address. With it on, the
   descriptors are read from tables in memory. A section has one descriptor; a
   page has a second one. -/
namespace Gxemul.Arm
open Lib (ByteMem value)

/-- What does not change while an ARM CPU runs: `dyntrans_cache_size`, whether the CPU
and the host are big endian, and the flag ARM_XSCALE of the CPU type. -/
structure ArmConf where
  dyntransCacheSize : Nat
  big : Bool
  hostBig : Bool
  xscale : Bool

/-- `cpu->vaddr_mask` is 0xffffffff. -/
def ArmConf.conf (c : ArmConf) : Conf := ⟨.arm, 0xffffffff#64, c.dyntransCacheSize⟩

def faultTransS : Word := 0x05#32
def faultTransP : Word := 0x07#32
def faultDomainS : Word := 0x09#32
def faultDomainP : Word := 0x0b#32
def faultPermS : Word := 0x0d#32
def faultPermP : Word := 0x0f#32

/-! ## Words in memory -/

def swap32 (x : Word) : Word :=
  ((x &&& 0xff#32) <<< 24) ||| ((x &&& 0xff00#32) <<< 8) ||| ((x &&& 0xff0000#32) >>> 8) |||
    ((x &&& 0xff000000#32) >>> 24)

/-- `*(uint32_t *)p`. -/
def hostWord (hostBig : Bool) (host : ByteMem) (p : Nat) : Word := BitVec.ofNat 32 (value hostBig (host.read p 4))

/-- "Change byte order of value if host and emulated endianness differ". -/
def ArmConf.convert (c : ArmConf) (x : Word) : Word := if c.big != c.hostBig then swap32 x else x

/-! ## Translation -/

/-- What a translation finds: a physical address with the value that is returned, or
the value of the fault status register. -/
inductive V2pResult where
  | ok (paddr : Word) (access : Nat) (subpage : Bool)
  | fault (fsr : Word)
  deriving DecidableEq

/-- `arm_check_access()`: 0 for no access, 1 for read-only, and 2 for read/write. -/
def armCheckAccess (control : Word) (ap dav : Nat) (user : Bool) : Except Exit Nat :=
  match dav with
  | 0 => .ok 0
  | 2 => .error .reservedDomainAccess
  | 3 => .ok 2
  | _ =>
    match ap with
    | 0 =>
      let s := if control &&& armControlS ≠ 0 then 1 else 0
      let r := if control &&& armControlR ≠ 0 then 2 else 0
      match s + r with
      | 0 => .ok 0
      | 1 => .ok (if user then 0 else 1)
      | 2 => .ok 1
      | _ => .ok 0
    | 1 => .ok (if user then 0 else 2)
    | 2 => .ok (if user then 1 else 2)
    | _ => .ok 2

/-- The access permissions in a second-level descriptor of a 4 KB page. -/
def subpageAp (d2 : Word) (n : Nat) : Nat := ((d2 >>> (4 + 2 * n)) &&& 3#32).toNat

/-- A second-level descriptor: the physical address, the access permissions, and whether
they are for a part of a 4 KB page only. -/
def secondLevel (xscale : Bool) (d2 vaddr : Word) : Option (Word × Nat × Bool) :=
  match (d2 &&& 3#32).toNat with
  | 0 => none
  | 1 =>
    -- every fourth of the page has its own permissions
    some ((d2 &&& 0xffff0000#32) ||| (vaddr &&& 0xffff#32),
      subpageAp d2 ((vaddr &&& 0xc000#32) >>> 14).toNat, false)
  | 2 =>
    let ap0 := subpageAp d2 0
    some ((d2 &&& 0xfffff000#32) ||| (vaddr &&& 0xfff#32), subpageAp d2 ((vaddr &&& 0xc00#32) >>> 10).toNat,
      ap0 != subpageAp d2 1 || ap0 != subpageAp d2 2 || ap0 != subpageAp d2 3)
  | _ =>
    -- a 4 KB page on XScale, and a 1 KB page elsewhere
    if xscale then some ((d2 &&& 0xfffff000#32) ||| (vaddr &&& 0xfff#32), subpageAp d2 0, false)
    else some ((d2 &&& 0xfffffc00#32) ||| (vaddr &&& 0x3ff#32), subpageAp d2 0, true)

/-- What arm_translate_v2p_mmu() reads: the CPU's registers, the host address of the
translation table, host memory, and where RAM is in it. -/
structure Walk where
  control : Word
  dacr : Word
  cpsr : Word
  table : Option Nat
  host : ByteMem
  hostaddr : Addr → Option Nat

namespace Walk
variable (c : ArmConf) (w : Walk)

def firstLevel (vaddr : Word) : Word :=
  match w.table with
  | some p => c.convert (hostWord c.hostBig w.host (p + ((vaddr &&& 0xfff00000#32) >>> 18).toNat))
  | none => 0

def user (useraccess : Bool) : Bool := useraccess || (w.cpsr &&& armFlagMode == ArmMode.usr.bits)

def check (paddr domain : Word) (ap dav : Nat) (subpage user write : Bool) (fs : Word) : Except Exit V2pResult := do
  let access ← armCheckAccess w.control ap dav user
  if (if write then 1 else 0) < access then return .ok paddr access subpage
  else return .fault ((domain <<< 4) ||| fs)

/-- `arm_translate_v2p_mmu()`, without the exception. -/
def translate (vaddr : Word) (write useraccess : Bool) : Except Exit V2pResult :=
  let d := w.firstLevel c vaddr
  let domain := (d >>> 5) &&& 15#32
  let dav := ((w.dacr >>> (domain.toNat * 2)) &&& 3#32).toNat
  match (d &&& 3#32).toNat with
  | 0 => .ok (.fault faultTransS)
  | 1 =>
    if dav = 0 then .ok (.fault ((domain <<< 4) ||| faultDomainP))
    else
      let addr := (d &&& 0xfffffc00#32) + ((vaddr &&& 0x000ff000#32) >>> 10)
      match w.hostaddr ((addr &&& 0x0fffffff#32).setWidth 64) with
      | none => .error .pageTableOutsideMemory
      | some q =>
        match secondLevel c.xscale (c.convert (hostWord c.hostBig w.host q)) vaddr with
        | none => .ok (.fault ((domain <<< 4) ||| faultTransP))
        | some (paddr, ap, subpage) => w.check paddr domain ap dav subpage (w.user useraccess) write faultPermP
  | 2 =>
    if dav = 0 then .ok (.fault ((domain <<< 4) ||| faultDomainS))
    else
      w.check ((d &&& 0xfff00000#32) ||| (vaddr &&& 0x000fffff#32)) domain ((d >>> 10) &&& 3#32).toNat dav false
        (w.user useraccess) write faultPermS
  | _ => .error .unimplementedDescriptor

end Walk

end Gxemul.Arm

/- memory_rw() and pc_to_pointers() on an ARM CPU: with its translate_v2p(), and with
   the exceptions that a failed translation causes. -/
namespace Gxemul.Arm
open Lib (Byte ByteMem)

/-- What an access is given by the rest of the emulator, and how many calls of
pc_to_pointers() fit on the host's stack. -/
structure ArmIo where
  env : Env
  dev : DataEnv
  hostaddr : Addr → Option Nat
  stack : Nat

/-- An ARM CPU with its translation tables, and the memory behind it. `mmuOn` says which
function `cpu->translate_v2p` points to. -/
structure ArmMachine where
  cpu : ArmCpu
  dyn : Cpu
  mem : Memory
  mmuOn : Bool
  translationTable : Option Nat
  lastTtb : Word
  tmpPc : Word
  tmpBranch : Word
  host : ByteMem

namespace ArmMachine
variable (c : ArmConf) (io : ArmIo) (s : ArmMachine)

/-- The host address of the translation table is kept until TTB changes. -/
def findTable : ArmMachine :=
  if s.translationTable = none ∨ s.cpu.ttb ≠ s.lastTtb then
    { s with
      translationTable := io.hostaddr ((s.cpu.ttb &&& 0x0fffffff#32).setWidth 64)
      lastTtb := s.cpu.ttb }
  else s

def walk : Walk := ⟨s.cpu.control, s.cpu.dacr, s.cpu.cpsr, s.translationTable, s.host, io.hostaddr⟩

/-- `cpu->translate_v2p()`, without the exception. -/
def translateV2p (vaddr : Word) (write useraccess : Bool) : Except Exit (ArmMachine × V2pResult) :=
  if s.mmuOn then do
    let s := s.findTable io
    let r ← (s.walk io).translate c vaddr write useraccess
    return (s, r)
  else return (s, .ok vaddr 2 false)

/-! ## pc_to_pointers() -/

/-- pc_to_pointers_generic() from where the physical address is known. -/
def pointTo (physaddr : Addr) : Except Exit ArmMachine := do
  let pc := s.cpu.pc.setWidth 64
  let dyn ← s.dyn.pointTo c.conf io.hostaddr pc (s.dyn.tables.l3Of .arm pc) physaddr
  return { s with dyn }

def pcSlot : Slot := s.dyn.tables.slotOf .arm (s.cpu.pc.setWidth 64)

/-- The first part of `arm_pc_to_pointers()`. -/
def quick (generic : ArmMachine → Except Exit ArmMachine) : Except Exit ArmMachine :=
  match s.pcSlot.physPage with
  | some ppp =>
    .ok { s with dyn := { s.dyn with curIcPage := ppp, nextIc := Arch.arm.pcToIcEntry (s.cpu.pc.setWidth 64) } }
  | none => generic s

/-- `arm_pc_to_pointers_generic()`. A prefetch abort looks its handler up, and then the
page of the handler is looked up here again. -/
def pcToPointersGeneric : Nat → ArmMachine → Except Exit ArmMachine
  | 0, _ => .error .stackOverflow
  | n + 1, s =>
    if s.pcSlot.hostLoad ≠ none then s.pointTo c io s.pcSlot.physAddr
    else do
      let (s, r) ← s.translateV2p c io s.cpu.pc false false
      match r with
      | .ok paddr _ _ => s.pointTo c io (paddr.setWidth 64)
      | .fault _ =>
        let cpu ← s.cpu.armException .prefAbt
        let s ← ArmMachine.quick { s with cpu } (pcToPointersGeneric n)
        if s.pcSlot.hostLoad ≠ none then s.pointTo c io s.pcSlot.physAddr
        else
          let (s, r) ← s.translateV2p c io s.cpu.pc false false
          match r with
          | .ok paddr _ _ => s.pointTo c io (paddr.setWidth 64)
          | .fault _ => throw .exceptionHandlerUnmapped

def pcToPointers : Except Exit ArmMachine := s.quick (pcToPointersGeneric c io io.stack)

def exception (e : ArmException) : Except Exit ArmMachine := do
  let cpu ← s.cpu.armException e
  ArmMachine.pcToPointers c io { s with cpu }

/-! ## memory_rw() -/

/-- The part of the environment of memory_rw() that the CPU decides. -/
def accessEnv (env : Env) (paddr : Addr) (ok : Nat) : Env :=
  { env with
    translateV2p := some (paddr, ok)
    memMips := false
    mmu3k := false
    isolCaches := false }

/-- memory_rw() from where the physical address is known. -/
def accessPaddr (a : Access) (paddr : Addr) (ok : Nat) (data : List Byte) :
    Except Exit (ArmMachine × List Byte × Bool) := do
  let env := accessEnv io.env paddr ok
  let (dyn, mem, done) ← s.dyn.memoryRw c.conf env a s.mem
  let copied := Cpu.transfer c.conf env io.dev a s.mem s.host data
  return ({ s with dyn, mem, host := copied.1 }, copied.2, done)

def fault (a : Access) (fsr : Word) : Except Exit ArmMachine :=
  if a.cache = cacheInstruction then s.exception c io .prefAbt
  else ArmMachine.exception c io { s with cpu := { s.cpu with far := a.vaddr.setWidth 32, fsr } } .dataAbt

def memoryRw (a : Access) (data : List Byte) : Except Exit (ArmMachine × List Byte × Bool) :=
  if a.physical then s.accessPaddr c io a a.vaddr 2 data
  else do
    let (s, r) ← s.translateV2p c io (a.vaddr.setWidth 32) a.write (hasFlag a.miscFlags memoryUserAccess)
    match r with
    | .ok paddr access subpage =>
      s.accessPaddr c io a (paddr.setWidth 64) (access ||| (if subpage then memoryNotFullPage else 0)) data
    | .fault fsr =>
      if a.noExceptions then return (s, data, false)
      else
        let s ← s.fault c io a fsr
        return (s, data, false)

variable {c io s}

theorem findTable_cpu : (s.findTable io).cpu = s.cpu := by
  unfold findTable
  split <;> rfl

theorem translateV2p_same {vaddr : Word} {write useraccess : Bool} {s' : ArmMachine} {r : V2pResult}
    (h : s.translateV2p c io vaddr write useraccess = .ok (s', r)) :
    s' = s.findTable io ∨ s' = s := by
  unfold translateV2p at h
  split at h
  · obtain ⟨r', -, hr⟩ := Lib.bind_eq_ok h
    cases hr
    exact .inl rfl
  · cases h
    exact .inr rfl

end ArmMachine

end Gxemul.Arm
