import Gxemul.M88k.Cpu
import Gxemul.Mips.LoadStore

/- M88K loads and stores (`src/cpus/cpu_m88k_instr_loadstore.c`).

   As on MIPS there is a fast function, LS_N, and a slow one, LS_GENERIC_N. They are compiled
   for each size, signedness, byte order, scaling and form of the offset, and for normal and
   user accesses (`src/cpus/generate_m88k_loadstore.c`).

   memory_rw(), with the translation tables, the CMMUs and the devices behind it, is a
   parameter. What a function does to memory is also listed, as events. -/
namespace Gxemul.M88k
open Lib (Byte ByteMem)
open Mips (LsSize)

def dmtBo : Word := 0x8000#32
def dmtDas : Word := 0x4000#32
def dmtDoub1 : Word := 0x2000#32
def dmtLockbar : Word := 0x1000#32
def dmtSigned : Word := 0x40#32
def dmtWrite : Word := 0x2#32
def dmtValid : Word := 0x1#32
def dmtDregshift : Nat := 7
def dmtEnshift : Nat := 2

def exceptionMisalignedAccess : Nat := 4
def exceptionPrivilegeViolation : Nat := 6

/-- What a function is compiled for. It is the index in `m88k_loadstore[]`. -/
structure LsForm where
  size : LsSize
  store : Bool
  signed : Bool
  be : Bool
  scaled : Bool
  usr : Bool
  regofs : Bool
  noPcSync : Bool

/-- `m88k_loadstore[]`, with a NULL pointer for what is not generated. -/
def m88kLoadstore (f : LsForm) : Option LsForm :=
  if (f.store && f.signed) || (!f.regofs && f.usr) || (!f.regofs && f.scaled) || (f.size = .ls1 && f.scaled) then none
  else some f

/-- `arg[0]`: a register, or a variable that is stored. -/
inductive LsPtr where
  | reg (p : RegPtr)
  | var (x : Word)

/-- `struct m88k_instr_call` of a load or store, which is number `lowPc` of its page. `arg[2]` is a
pointer to a register, or an offset. -/
structure LsCall where
  arg0 : LsPtr
  arg1 : RegPtr
  arg2 : RegPtr ⊕ Word
  lowPc : Nat

/-- The arguments of memory_rw(), with MEMORY_USER_ACCESS. -/
structure RwCall where
  addr : Word
  len : Nat
  write : Bool
  user : Bool
  deriving DecidableEq

/-- How memory_rw() ends: with the data, with an exception, or because the CPU has been stopped. -/
inductive RwResult where
  | done
  | exception
  | stopped
  deriving DecidableEq

structure RwAnswer (ρ : Type) where
  host : ByteMem
  rest : ρ
  data : List Byte
  result : RwResult

/-- memory_rw() and the tables `host_load`, `host_store`, `host_load_usr` and `host_store_usr`, in
supervisor mode or not. -/
structure MemorySystem (ρ : Type) where
  hostPage : ρ → (store usr : Bool) → BitVec 20 → Option Nat
  rw : (supervisor be : Bool) → RwCall → ByteMem → ρ → List Byte → RwAnswer ρ

/-- A CPU with host memory, and what else memory_rw() depends on. -/
structure M88kMachine (ρ : Type) where
  cpu : M88kCpu
  host : ByteMem
  rest : ρ

inductive Event where
  | read (a : RwCall) (data : List Byte)
  | write (a : RwCall) (data : List Byte)
  | exception (vector : Nat)
  | stopped
  deriving DecidableEq

namespace M88kCpu
variable (c : M88kCpu)

def supervisor : Bool := c.cr crPsr &&& psrMode != 0#32

/-- `reg(arg[0])`. -/
def lsRead : LsPtr → Word
  | .reg p => c.regs p
  | .var x => x

/-- `reg(arg[0] + 4)`. There is no word after a variable. -/
def lsReadNext : LsPtr → Word
  | .reg p => c.regs p.next
  | .var _ => 0#32

def setDmt (i : Bool) (v : Word) : M88kCpu := { c with dmt := Function.update c.dmt i v }
def setDmd (i : Bool) (v : Word) : M88kCpu := { c with dmd := Function.update c.dmd i v }
def setDma (i : Bool) (v : Word) : M88kCpu := { c with dma := Function.update c.dma i v }

end M88kCpu

/-- `dreg`, when it is the number of a general register other than r0. -/
def LsPtr.dreg : LsPtr → Option Nat
  | .reg (.r n) => if 1 ≤ n ∧ n ≤ 31 then some n else none
  | _ => none

/-- `dreg ++`. -/
def LsPtr.dregNext : LsPtr → Option Nat
  | .reg p => LsPtr.dreg (.reg p.next)
  | .var _ => none

namespace LsForm
variable (f : LsForm) (c : M88kCpu) (ic : LsCall)

def addr : Word :=
  c.regs ic.arg1 +
    match ic.arg2 with
    | .inl p => if f.scaled then BitVec.ofNat 32 f.size.toNat * c.regs p else c.regs p
    | .inr x => x

def misaligned (addr : Word) : Bool := addr &&& BitVec.ofNat 32 (f.size.toNat - 1) != 0#32

def enBits (addr : Word) : Word :=
  match f.size with
  | .ls1 => (1#32 <<< dmtEnshift) <<< (3 - (addr &&& 3#32).toNat)
  | .ls2 => (3#32 <<< dmtEnshift) <<< (2 - (addr &&& 2#32).toNat)
  | _ => 0xf#32 <<< dmtEnshift

/-- "Update the memory transaction registers". `false` is an internal error: a load has no register. -/
def transaction (addr : Word) : M88kCpu × Bool :=
  let c := c.setDmt true 0#32
  let c := c.setDmt false dmtValid
  match if f.store then some dmtWrite else ic.arg0.dreg.map fun n => BitVec.ofNat 32 n <<< dmtDregshift with
  | none => (c, false)
  | some bits =>
    let dmt0 := dmtValid ||| bits
    let dmt0 := if !f.store && f.signed then dmt0 ||| dmtSigned else dmt0
    let dmt0 := if c.bigEndian then dmt0 else dmt0 ||| dmtBo
    let dmt0 := if !f.usr && c.supervisor then dmt0 ||| dmtDas else dmt0
    let dmt0 := dmt0 ||| f.enBits addr
    let c := c.setDmt false dmt0
    let c := c.setDma false (addr &&& ~~~ 3#32)
    let c := c.setDmd false 0#32
    if f.size = .ls8 then
      let c := c.setDmt true dmt0
      let c := c.setDmt false (dmt0 ||| dmtDoub1)
      let c := c.setDma true ((addr &&& ~~~ 3#32) + 4#32)
      let c := c.setDmd true 0#32
      if f.store then (c, true)
      else
        match ic.arg0.dregNext with
        | none => (c, false)
        | some n =>
          (c.setDmt true ((dmt0 &&& ~~~ (0x1f#32 <<< dmtDregshift)) ||| BitVec.ofNat 32 n <<< dmtDregshift), true)
    else (c, true)

/-- The call of memory_rw(). -/
def call (addr : Word) : RwCall := ⟨addr, f.size.toNat, f.store, f.usr⟩

def kind : Mips.LsKind := ⟨f.size, f.store, f.signed⟩

/-- The registers after the slow load of `x`. -/
def genericLoad (x : BitVec 64) : M88kCpu :=
  match ic.arg0 with
  | .var _ => c
  | .reg p =>
    if f.size = .ls8 then
      if c.bigEndian then (c.set p ((x >>> 32).setWidth 32)).set p.next (x.setWidth 32)
      else (c.set p (x.setWidth 32)).set p.next ((x >>> 32).setWidth 32)
    else c.set p ((f.kind.extend x).setWidth 32)

/-- What a slow store stores, and the CPU with it in its transaction registers. -/
def genericStore : M88kCpu × BitVec 64 :=
  let x := c.lsRead ic.arg0
  if f.size = .ls8 then
    let y := c.lsReadNext ic.arg0
    ((c.setDmd false x).setDmd true y,
      if c.bigEndian then (x.setWidth 64 <<< 32) + y.setWidth 64 else (y.setWidth 64 <<< 32) + x.setWidth 64)
  else (c.setDmd false x, x.setWidth 64)

end LsForm

variable {ρ : Type} (M : MemorySystem ρ)

namespace M88kMachine
variable (m : M88kMachine ρ)

/-- A call of memory_rw(), with its exception. -/
def memoryRw (a : RwCall) (data : List Byte) : M88kMachine ρ × List Byte × RwResult :=
  let r := M.rw m.cpu.supervisor m.cpu.bigEndian a m.host m.rest data
  let cpu := match r.result with
    | .done => m.cpu
    | .exception => m.cpu.exception exceptionDataAccess false
    | .stopped => { m.cpu with running := false }
  (⟨cpu, r.host, r.rest⟩, r.data, r.result)

end M88kMachine

/-- The event of a call of memory_rw(). -/
def RwCall.event (a : RwCall) (data : List Byte) : RwResult → Event
  | .done => if a.write then .write a data else .read a data
  | .exception => .exception exceptionDataAccess
  | .stopped => .stopped

namespace LsForm
variable (f : LsForm) (ic : LsCall) (m : M88kMachine ρ)

/-- `LS_GENERIC_N`. -/
def lsGeneric : M88kMachine ρ × List Event :=
  let addr := f.addr m.cpu ic
  let c := if f.noPcSync then m.cpu else m.cpu.synchPc ic.lowPc
  let (c, ok) := f.transaction c ic addr
  if !ok then ({ m with cpu := { c with running := false } }, [.stopped])
  else if f.usr && !c.supervisor then
    ({ m with cpu := c.exception exceptionPrivilegeViolation false }, [.exception exceptionPrivilegeViolation])
  else if f.misaligned addr then
    ({ m with cpu := c.exception exceptionMisalignedAccess false }, [.exception exceptionMisalignedAccess])
  else if f.store then
    let (c, x) := f.genericStore c ic
    let data := memoryWritemax64 c.bigEndian f.size.toNat x
    let (m, _, result) := { m with cpu := c }.memoryRw M (f.call addr) data
    (m, [(f.call addr).event data result])
  else
    let (m, data, result) := { m with cpu := c }.memoryRw M (f.call addr) (List.replicate f.size.toNat 0#8)
    let m := if result = .done then { m with cpu := f.genericLoad m.cpu ic (memoryReadmax64 m.cpu.bigEndian data) } else m
    (m, [(f.call addr).event data result])

/-! ## LS_N -/

def fastValue (hostBig : Bool) (p : Nat → Byte) : Word :=
  match f.size with
  | .ls1 => if f.signed then (p 0).signExtend 32 else (p 0).setWidth 32
  | .ls2 => if f.signed then ((Mips.load2 hostBig f.be p).setWidth 16).signExtend 32 else Mips.load2 hostBig f.be p
  | _ => Mips.load4 hostBig f.be p

/-- A fast load. The first word of a pair is at the higher address in little endian byte order. -/
def fastLoad (hostBig : Bool) (c : M88kCpu) (p : Nat → Byte) : M88kCpu :=
  match ic.arg0 with
  | .var _ => c
  | .reg r =>
    if f.size = .ls8 then
      let low := Mips.load4 hostBig f.be p
      let high := Mips.load4 hostBig f.be fun i => p (4 + i)
      if f.be then (c.set r low).set r.next high else (c.set r high).set r.next low
    else c.set r (f.fastValue hostBig p)

/-- A fast store to the host bytes from `p` on. -/
def fastStore (hostBig : Bool) (c : M88kCpu) (p : Nat) (host : ByteMem) : ByteMem :=
  let x := (c.lsRead ic.arg0).setWidth 64
  if f.size = .ls8 then
    let y := (c.lsReadNext ic.arg0).setWidth 64
    let first := if f.be then p else p + 4
    let second := if f.be then p + 4 else p
    (host.write first (LsSize.ls4.storeBytes hostBig f.be x)).write second (LsSize.ls4.storeBytes hostBig f.be y)
  else host.write p (f.size.storeBytes hostBig f.be x)

/-- LS_N where the page is known, and the host bytes are those from `p` on. -/
def lsFast (hostBig : Bool) (p : Nat) : M88kMachine ρ × List Event :=
  let a := f.call (f.addr m.cpu ic)
  if f.store then
    let host := f.fastStore ic hostBig m.cpu p m.host
    ({ m with host }, [.write a (host.read p f.size.toNat)])
  else
    ({ m with cpu := f.fastLoad ic hostBig m.cpu fun i => m.host (p + i) }, [.read a (m.host.read p f.size.toNat)])

def page : Option Nat := M.hostPage m.rest f.store f.usr ((f.addr m.cpu ic >>> 12).setWidth 20)

def lsN (hostBig : Bool) : M88kMachine ρ × List Event :=
  let addr := f.addr m.cpu ic
  match f.page M ic m with
  | none => f.lsGeneric M ic m
  | some p =>
    if (f.usr && !m.cpu.supervisor) || f.misaligned addr then f.lsGeneric M ic m
    else f.lsFast ic m hostBig (p + (addr &&& 0xfff#32).toNat)

end LsForm

end Gxemul.M88k

/- M88K xmem, which exchanges a register with memory: `X(xmem_slow)` and its translation
   (`src/cpus/cpu_m88k_instr.c`).

   It calls a load and then a store, and takes a changed program counter for an exception. -/
namespace Gxemul.M88k
open Mips (LsSize)

/-- What to_be_translated() makes of an xmem. -/
inductive XmemCall where
  | nop
  | xmemSlow (iword : Word)

/-- The translation of an xmem. `none` is another instruction, or a bad one. -/
def translateXmem (iword : Word) : Option XmemCall :=
  let op26 := iword >>> 26
  let d := iword.extractLsb' 21 5
  let call := if d = 0#5 then .nop else .xmemSlow iword
  if op26 = 0#32 ∨ op26 = 1#32 then if iword = 0#32 then none else some call
  else if op26 = 0x3d#32 ∧ iword &&& 0xf000#32 ≤ 0x3fff#32 then
    if iword &&& 0xf000#32 = 0x2000#32 ∨ iword &&& 0xf000#32 = 0x3000#32 then none
    else if 0x800#32 ≤ iword &&& 0xf800#32 then none
    else if (iword >>> 10) &&& 3#32 ≠ 0#32 ∧ (iword >>> 10) &&& 3#32 ≠ 1#32 then none
    else if iword &&& 0x80#32 ≠ 0#32 then none
    else some call
  else none

/-- The variables of `X(xmem_slow)`. -/
structure XmemArgs where
  d : BitVec 5
  s1 : BitVec 5
  s2 : BitVec 5
  imm16 : BitVec 16
  regofs : Bool
  scaled : Bool
  size : Bool
  user : Bool

def xmemArgs (iword : Word) : XmemArgs :=
  let regofs := iword &&& 0xf0000000#32 != 0#32
  { d := iword.extractLsb' 21 5
    s1 := iword.extractLsb' 16 5
    s2 := iword.extractLsb' 0 5
    imm16 := iword.extractLsb' 0 16
    regofs := regofs
    scaled := regofs && iword &&& 0x200#32 != 0#32
    size := if regofs then iword &&& 0x400#32 != 0#32 else (iword >>> 26) &&& 1#32 != 0#32
    user := regofs && iword &&& 0x80#32 != 0#32 }

namespace XmemArgs
variable (x : XmemArgs)

/-- The index of `xmem_load` and of `xmem_store` in `m88k_loadstore[]`. -/
def form (be store : Bool) : LsForm where
  size := if x.size then .ls4 else .ls1
  store := store
  signed := false
  be := be
  scaled := x.scaled
  usr := x.user
  regofs := x.regofs
  noPcSync := true

/-- `call`, with `arg[0]`. -/
def call (arg0 : LsPtr) : LsCall where
  arg0 := arg0
  arg1 := .r x.s1.toNat
  arg2 := if x.regofs then .inl (.r x.s2.toNat) else .inr (x.imm16.setWidth 32)
  lowPc := 0

def transaction (c : M88kCpu) (tmp : Word) : M88kCpu :=
  let c := c.setDmd false tmp
  let dmt := (c.dmt false ||| dmtLockbar ||| dmtWrite) &&& ~~~ (0x1f#32 <<< dmtDregshift)
  c.setDmt false (dmt ||| x.d.setWidth 32 <<< dmtDregshift)

end XmemArgs

section
variable {ρ : Type} (M : MemorySystem ρ) (hostBig : Bool)

/-- A call through `m88k_loadstore[]`. `none` is a call of NULL. -/
def callLoadstore (f : LsForm) (ic : LsCall) (m : M88kMachine ρ) : Option (M88kMachine ρ × List Event) :=
  (m88kLoadstore f).map fun f => f.lsN M ic m hostBig

/-- `X(xmem_slow)`, as number `lowPc` of its page. -/
def xmemSlow (iword : Word) (lowPc : Nat) (m : M88kMachine ρ) : Option (M88kMachine ρ × List Event) := do
  let x := xmemArgs iword
  let m : M88kMachine ρ := { m with cpu := m.cpu.synchPc lowPc }
  let pcBeforeMemoryAccess := m.cpu.pc.setWidth 32
  let tmp := m.cpu.r x.d.toNat
  let arg0 := if x.d = 0#5 then RegPtr.zeroScratch else .r x.d.toNat
  let (m, loaded) ← callLoadstore M hostBig (x.form m.cpu.bigEndian false) (x.call (.reg arg0)) m
  if m.cpu.pc.setWidth 32 ≠ pcBeforeMemoryAccess then
    return ({ m with cpu := x.transaction m.cpu tmp }, loaded)
  let tmp := if x.d = 0#5 then 0#32 else tmp
  let (m, stored) ← callLoadstore M hostBig (x.form m.cpu.bigEndian true) (x.call (.var tmp)) m
  if m.cpu.pc.setWidth 32 ≠ pcBeforeMemoryAccess then
    return ({ m with cpu := x.transaction m.cpu tmp }, loaded ++ stored)
  return (m, loaded ++ stored)

def XmemCall.run (lowPc : Nat) (m : M88kMachine ρ) : XmemCall → Option (M88kMachine ρ × List Event)
  | .nop => some (m, [])
  | .xmemSlow iword => M88k.xmemSlow M hostBig iword lowPc m

end

end Gxemul.M88k
