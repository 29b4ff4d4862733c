import Gxemul.Memory.Data
import Gxemul.Mips.Exception

/- memory_rw() on a MIPS CPU: with its translate_v2p(), and with the exceptions
   that a failed access causes. -/
namespace Gxemul.Mips
open Lib (Byte ByteMem)

structure Io where
  env : Env
  dev : DataEnv
  hostaddr : Addr → Option Nat

namespace MipsCpu
variable (t : CpuType) (cacheSize : Nat) (s : MipsCpu)

/-- The part of the environment of memory_rw() that the CPU decides. -/
def accessEnv (env : Env) (paddr : Addr) (writable : Bool) : Env :=
  { env with
    translateV2p := some (paddr, if writable then 2 else 1)
    memMips := true
    mmu3k := t.mmuModel == .mmu3k
    isolCaches := anyBit s.mmu.cop0.status mips1IsolCaches }

/-- The address translation of memory_rw(). -/
def accessV2p (a : Access) : Except Exit V2pResult :=
  if a.physical then .ok (.ok a.vaddr true) else translateV2p t s.mmu a.vaddr a.write a.noExceptions

def busError (a : Access) : ExceptionArgs :=
  ⟨if a.cache = cacheInstruction then .ibe else .dbe, false, a.vaddr, 0, 0, false⟩

/-- memory_rw() from where the physical address is known, with host memory and the
buffer for the data. -/
def accessPaddr (io : Io) (a : Access) (paddr : Addr) (writable : Bool) (host : ByteMem) (data : List Byte) :
    Except Exit (MipsCpu × (ByteMem × List Byte) × Bool) := do
  let (dyn, mem, ok) ← s.dyn.memoryRw (t.conf cacheSize) (s.accessEnv t io.env paddr writable) a s.mem
  let copied := Cpu.transfer (t.conf cacheSize) (s.accessEnv t io.env paddr writable) io.dev a s.mem host data
  if !ok && (s.mem.deviceFor paddr).isSome && !io.env.handlerStops then
    let s' ← mipsCpuException t cacheSize { s with dyn, mem } io.hostaddr (busError a) 0
    return (s', copied, false)
  else return ({ s with dyn, mem }, copied, ok)

def memoryRw (io : Io) (a : Access) (host : ByteMem) (data : List Byte) :
    Except Exit (MipsCpu × (ByteMem × List Byte) × Bool) := do
  match ← s.accessV2p t a with
  | .failed none => return (s, (host, data), false)
  | .failed (some e) =>
    let s ← s.mipsCpuException t cacheSize io.hostaddr e 0
    return (s, (host, data), false)
  | .ok paddr writable => s.accessPaddr t cacheSize io a paddr writable host data

/-- memory_rw() succeeds, and accesses the host bytes from `p` on. -/
def SameBytes (io : Io) (a : Access) (p : Nat) : Prop :=
  ∃ s', ∀ host data, data.length = a.len →
    s.memoryRw t cacheSize io a host data = .ok (s', a.copy p host data, true)

variable {t cacheSize s}

theorem physicalAddress_of_accessV2p {io : Io} {a : Access} {paddr : Addr} {writable : Bool}
    (h : s.accessV2p t a = .ok (.ok paddr writable)) :
    (s.accessEnv t io.env paddr writable).physicalAddress a = some (paddr, if writable then 2 else 1) := by
  unfold accessV2p at h
  unfold Env.physicalAddress accessEnv
  split at h
  · rename_i hphys
    cases h
    rw [if_pos hphys]
    rfl
  · rename_i hphys
    rw [if_neg hphys]

theorem sameBytes_of_accesses {io : Io} {a : Access} {paddr : Addr} {writable : Bool} {dyn : Cpu} {mem : Memory} {p : Nat}
    (hv : s.accessV2p t a = .ok (.ok paddr writable))
    (hrw : s.dyn.memoryRw (t.conf cacheSize) (s.accessEnv t io.env paddr writable) a s.mem = .ok (dyn, mem, true))
    (hacc : Cpu.Accesses (t.conf cacheSize) (s.accessEnv t io.env paddr writable) io.dev a s.mem p) :
    s.SameBytes t cacheSize io a p := by
  refine ⟨{ s with dyn, mem }, fun host data hlen => ?_⟩
  unfold memoryRw
  rw [hv]
  show s.accessPaddr t cacheSize io a paddr writable host data = _
  unfold accessPaddr
  rw [hrw, hacc host data hlen]
  rfl

end MipsCpu

end Gxemul.Mips

/- MIPS loads and stores (`src/cpus/cpu_mips_instr_loadstore.c`).

   Each load and store has a fast function, LS_N, which goes through the
   translation tables, and a slow one, LS_GENERIC_N, which calls memory_rw(). The
   source is compiled once for each size, signedness, byte order and mode. Here
   these are arguments.

   Numbers in the host's byte order are read and written through pointers. The
   host may have either byte order. -/
namespace Gxemul.Mips
open Lib (Byte ByteMem value bytes)

/-- `LS_SIZE`. -/
inductive LsSize where
  | ls1 | ls2 | ls4 | ls8
  deriving DecidableEq

def LsSize.toNat : LsSize → Nat
  | .ls1 => 1
  | .ls2 => 2
  | .ls4 => 4
  | .ls8 => 8

/-- What a function is compiled for: LS_SIZE, LS_STORE and LS_SIGNED. -/
structure LsKind where
  size : LsSize
  store : Bool
  signed : Bool

/-- The CPU type, `dyntrans_cache_size`, EMUL_BIG_ENDIAN and HOST_BIG_ENDIAN. The
functions of a 32-bit CPU are those for MODE32. -/
structure LsConf where
  cpuType : CpuType
  cacheSize : Nat
  big : Bool
  hostBig : Bool

/-- What `arg[0]` and `arg[1]` point to. `fprVar` is the variable `fpr` of ldc1 and sdc1. -/
inductive RegName where
  | gpr (i : Fin 32)
  | fpr (i : Fin 32)
  | fprVar
  | scratch
  deriving DecidableEq

/-- `gpr[i]`, of which there are 32. -/
def RegName.ofNat (i : Nat) : RegName := .gpr ⟨i % 32, Nat.mod_lt i (by decide)⟩

/-- `struct mips_instr_call` of a load or store, which is number `lowPc` of its page. -/
structure LsCall where
  arg0 : RegName
  arg1 : RegName
  arg2 : BitVec 32
  lowPc : Nat

structure Machine where
  cpu : MipsCpu
  regs : RegName → Reg
  host : ByteMem

/-! ## Registers and addresses -/

/-- `reg(x)`. -/
def regRead (mode32 : Bool) (x : Reg) : Reg := if mode32 then x &&& 0xffffffff#64 else x

/-- `reg(x) = value`. In MODE32 the upper half of the register stays as it is. -/
def regWrite (mode32 : Bool) (x value : Reg) : Reg :=
  if mode32 then (x &&& 0xffffffff00000000#64) ||| (value &&& 0xffffffff#64) else value

/-- `addr`, as memory_rw() gets it. -/
def lsAddr (mode32 : Bool) (base : Reg) (offset : BitVec 32) : Addr :=
  if mode32 then (base.setWidth 32 + offset).signExtend 64 else base + offset.signExtend 64

def LsSize.unaligned (size : LsSize) (addr : Addr) : Bool := addr &&& BitVec.ofNat 64 (size.toNat - 1) != 0

/-- A conversion to a signed type of `width` bits, and back. -/
def sextFrom (width : Nat) (x : Reg) : Reg := (x.setWidth width).signExtend 64

def LsKind.extend (k : LsKind) (x : Reg) : Reg :=
  if k.signed then
    match k.size with
    | .ls1 => sextFrom 8 x
    | .ls2 => sextFrom 16 x
    | .ls4 => sextFrom 32 x
    | .ls8 => x
  else x

def MipsCpu.syncPc (s : MipsCpu) (lowPc : Nat) : MipsCpu :=
  { s with dyn := { s.dyn with pc := (s.dyn.pc &&& ~~~ 0xffc#64) + BitVec.ofNat 64 (lowPc * 4) } }

def alignmentError (t : CpuType) (c : Cop0) (store : Bool) (addr : Addr) : ExceptionArgs :=
  let exccode := if store then .ades else .adel
  if t.exc3k then
    ⟨exccode, false, addr, (addr &&& r2k3kEntryhiVpnMask) >>> 12,
      (c.entryhi &&& r2k3kEntryhiAsidMask) >>> r2k3kEntryhiAsidShift, false⟩
  else
    ⟨exccode, false, addr, (addr &&& (if t.mmuModel = .mmu10k then entryhiVpn2MaskR10k else entryhiVpn2Mask)) >>> 13,
      c.entryhi &&& entryhiAsid, false⟩

namespace Machine
variable (conf : LsConf) (k : LsKind) (io : Io) (ic : LsCall) (s : Machine)

def addr : Addr := lsAddr conf.cpuType.is32bit (s.regs ic.arg1) ic.arg2

/-- The access of LS_GENERIC_N. -/
def access : Access := ⟨s.addr conf ic, k.size.toNat, k.store, cacheData⟩

/-- `LS_GENERIC_N`. -/
def lsGeneric : Except Exit Machine := do
  let mode32 := conf.cpuType.is32bit
  let cpu := s.cpu.syncPc ic.lowPc
  if k.size.unaligned (s.addr conf ic) then
    let cpu ← cpu.mipsCpuException conf.cpuType conf.cacheSize io.hostaddr
      (alignmentError conf.cpuType cpu.mmu.cop0 k.store (s.addr conf ic)) 0
    return { s with cpu }
  else if k.store then
    let data := memoryWritemax64 conf.big k.size.toNat (regRead mode32 (s.regs ic.arg0))
    let (cpu, copied, _) ← cpu.memoryRw conf.cpuType conf.cacheSize io (s.access conf k ic) s.host data
    return { s with cpu, host := copied.1 }
  else
    let (cpu, copied, ok) ← cpu.memoryRw conf.cpuType conf.cacheSize io (s.access conf k ic) s.host
      (List.replicate k.size.toNat 0)
    if !ok then return { s with cpu, host := copied.1 }
    else
      let x := k.extend (memoryReadmax64 conf.big copied.2)
      let regs := Function.update s.regs ic.arg0 (regWrite mode32 (s.regs ic.arg0) x)
      return { cpu, regs, host := copied.1 }

/-- `p`: the host page of the address. -/
def hostPage : Option Nat :=
  let slot := s.cpu.dyn.tables.slotOf .mips (conf.cpuType.mode.trunc (s.addr conf ic))
  if k.store then slot.hostStore else slot.hostLoad

end Machine

/-! ## LS_N -/

/-- `*(uintN_t *)(p + addr)`, with `n` bytes. -/
def hostUint (hostBig : Bool) (n : Nat) (p : Nat → Byte) : Nat := value hostBig ((List.range n).map p)

/-- A byte, when it is added: as an `int`, or as an `uint64_t`. -/
def toInt (b : Byte) : BitVec 32 := b.setWidth 32
def toU64 (b : Byte) : BitVec 64 := b.setWidth 64

def load2 (hostBig be : Bool) (p : Nat → Byte) : BitVec 32 :=
  if be then
    if hostBig then BitVec.ofNat 32 (hostUint hostBig 2 p)
    else (toInt (p 0) <<< 8) + toInt (p 1)
  else
    if hostBig then toInt (p 0) + (toInt (p 1) <<< 8)
    else BitVec.ofNat 32 (hostUint hostBig 2 p)

def load4 (hostBig be : Bool) (p : Nat → Byte) : BitVec 32 :=
  if be then
    if hostBig then BitVec.ofNat 32 (hostUint hostBig 4 p)
    else (toInt (p 0) <<< 24) + (toInt (p 1) <<< 16) + (toInt (p 2) <<< 8) + toInt (p 3)
  else
    if hostBig then toInt (p 0) + (toInt (p 1) <<< 8) + (toInt (p 2) <<< 16) + (toInt (p 3) <<< 24)
    else BitVec.ofNat 32 (hostUint hostBig 4 p)

/-- The value of a load of eight bytes. Sums of bytes below 2^31 are sums of type `int`. -/
def load8 (hostBig be : Bool) (p : Nat → Byte) : BitVec 64 :=
  if be then
    if hostBig then BitVec.ofNat 64 (hostUint hostBig 8 p)
    else (toU64 (p 0) <<< 56) + (toU64 (p 1) <<< 48) + (toU64 (p 2) <<< 40) + (toU64 (p 3) <<< 32) +
      (toU64 (p 4) <<< 24) + (toInt (p 5) <<< 16).signExtend 64 + (toInt (p 6) <<< 8).signExtend 64 + toU64 (p 7)
  else
    if hostBig then (toInt (p 0) + (toInt (p 1) <<< 8) + (toInt (p 2) <<< 16)).signExtend 64 +
      (toU64 (p 3) <<< 24) + (toU64 (p 4) <<< 32) + (toU64 (p 5) <<< 40) + (toU64 (p 6) <<< 48) + (toU64 (p 7) <<< 56)
    else BitVec.ofNat 64 (hostUint hostBig 8 p)

def LsKind.loadValue (k : LsKind) (hostBig be : Bool) (p : Nat → Byte) : Reg :=
  match k.size with
  | .ls1 => if k.signed then (p 0).signExtend 64 else toU64 (p 0)
  | .ls2 => if k.signed then ((load2 hostBig be p).setWidth 16).signExtend 64 else (load2 hostBig be p).signExtend 64
  | .ls4 => if k.signed then (load4 hostBig be p).signExtend 64 else (load4 hostBig be p).setWidth 64
  | .ls8 => load8 hostBig be p

/-- `x >> n`, as it is stored in a byte. -/
def byteAt (x : Reg) (n : Nat) : Byte := (x >>> n).setWidth 8

def LsSize.storeBytes (size : LsSize) (hostBig be : Bool) (x : Reg) : List Byte :=
  if size = .ls1 then [byteAt x 0]
  else if be = hostBig then bytes hostBig size.toNat x.toNat
  else
    match size, be with
    | .ls1, _ => [byteAt x 0]
    | .ls2, true => [byteAt x 8, byteAt x 0]
    | .ls2, false => [byteAt x 0, byteAt x 8]
    | .ls4, true => [byteAt x 24, byteAt x 16, byteAt x 8, byteAt x 0]
    | .ls4, false => [byteAt x 0, byteAt x 8, byteAt x 16, byteAt x 24]
    | .ls8, true => [byteAt x 56, byteAt x 48, byteAt x 40, byteAt x 32, byteAt x 24, byteAt x 16, byteAt x 8, byteAt x 0]
    | .ls8, false => [byteAt x 0, byteAt x 8, byteAt x 16, byteAt x 24, byteAt x 32, byteAt x 40, byteAt x 48, byteAt x 56]

/-- The register after a fast load. `*((uint64_t *)ic->arg[0])` is a whole register. -/
def LsSize.fastReg (size : LsSize) (mode32 : Bool) (old value : Reg) : Reg :=
  if size = .ls8 then value else regWrite mode32 old value

def LsSize.fastStored (size : LsSize) (mode32 : Bool) (x : Reg) : Reg := if size = .ls8 then x else regRead mode32 x

namespace Machine
variable (conf : LsConf) (k : LsKind) (io : Io) (ic : LsCall) (s : Machine)

/-- `LS_N`, in the version for the byte order of the CPU. -/
def lsN : Except Exit Machine :=
  match s.hostPage conf k ic with
  | none => s.lsGeneric conf k io ic
  | some p =>
    let addr := s.addr conf ic
    if k.size.unaligned addr then s.lsGeneric conf k io ic
    else
      let p := p + (addr &&& 0xfff#64).toNat
      if k.store then
        let x := k.size.fastStored conf.cpuType.is32bit (s.regs ic.arg0)
        .ok { s with host := s.host.write p (k.size.storeBytes conf.hostBig conf.big x) }
      else
        let value := k.loadValue conf.hostBig conf.big (fun i => s.host (p + i))
        .ok { s with regs := Function.update s.regs ic.arg0 (k.size.fastReg conf.cpuType.is32bit (s.regs ic.arg0) value) }

end Machine

end Gxemul.Mips
