import Gxemul.Alpha.TranslateV2p

/- Alpha loads and stores (`src/cpus/cpu_alpha_instr_loadstore.c`).

   As on other CPUs there is a fast function, LS_N, and a slow one, LS_GENERIC_N.
   The source is compiled once for each combination of LS_LOAD, LS_LLSC,
   LS_UNALIGNED, LS_IGNORE_OFFSET and the size. Memory is little endian. -/
namespace Gxemul.Alpha
open Lib (Byte ByteMem leValue leBytes)

/-- LS_B, LS_W, LS_L and LS_Q. -/
inductive LsSize where
  | b | w | l | q
  deriving DecidableEq

def LsSize.toNat : LsSize → Nat
  | .b => 1
  | .w => 2
  | .l => 4
  | .q => 8

structure LsKind where
  size : LsSize
  load : Bool
  llsc : Bool
  unaligned : Bool
  ignoreOffset : Bool
  deriving DecidableEq

/-- The arguments of a load or store. `arg2` is `(int32_t)ic->arg[2]`. -/
structure LsCall where
  arg0 : RegName
  arg1 : RegName
  arg2 : BitVec 32

/-- `dyntrans_cache_size` and HOST_BIG_ENDIAN. -/
structure LsConf where
  cacheSize : Nat
  hostBig : Bool

/-! ## Numbers and bytes -/

/-- A byte as an `int`, in an `uint64_t` expression after a shift. -/
def shiftedInt (b : Byte) (n : Nat) : Reg := (b.setWidth 32 <<< n).signExtend 64

/-- `data_x`, as it is put together. -/
def LsSize.dataX (size : LsSize) (data : Nat → Byte) : Reg :=
  let x1 : Reg := (data 0).setWidth 64
  let x2 := x1 + shiftedInt (data 1) 8
  let x4 := x2 + shiftedInt (data 2) 16 + ((data 3).setWidth 64 <<< 24)
  match size with
  | .b => x1
  | .w => x2
  | .l => x4
  | .q => x4 + ((data 4).setWidth 64 <<< 32) + ((data 5).setWidth 64 <<< 40) + ((data 6).setWidth 64 <<< 48) +
      ((data 7).setWidth 64 <<< 56)

/-- `(int64_t)(int32_t)data_x` for a longword. -/
def LsSize.extend (size : LsSize) (x : Reg) : Reg :=
  match size with
  | .l => (x.setWidth 32).signExtend 64
  | .b | .w | .q => x

/-- The bytes that `data_x` is taken apart into. -/
def LsSize.dataBytes (size : LsSize) (x : Reg) : List Byte :=
  (List.range size.toNat).map fun i => (x >>> (8 * i)).setWidth 8

/-- What a fast load puts in the register. Numbers of the host are read through pointers. -/
def LsSize.loadValue (size : LsSize) (hostBig : Bool) (page : Nat → Byte) : Reg :=
  if hostBig then size.extend (size.dataX page)
  else size.extend (BitVec.ofNat 64 (leValue ((List.range size.toNat).map page)))

def LsSize.storeBytes (size : LsSize) (hostBig : Bool) (x : Reg) : List Byte :=
  if hostBig then size.dataBytes x else leBytes size.toNat x.toNat

namespace AlphaMachine
variable (conf : LsConf) (k : LsKind) (io : Io) (ic : LsCall) (i : Nat) (m : AlphaMachine)

/-! ## memory_rw() -/

/-- The part of the environment of memory_rw() that the CPU decides. -/
def accessEnv (io : Io) (paddr : Addr) : Env :=
  { io.ram.env io.env with
    translateV2p := some (paddr, 2)
    memMips := false }

/-- `alpha_memory_rw()`, from where the physical address is known. -/
def accessPaddr (a : Access) (paddr : Addr) (data : List Byte) :
    Except Exit (AlphaMachine × List Byte × Bool) := do
  let (dyn, mem, ok) ← (m.cpus i).dyn.memoryRw (alphaConf conf.cacheSize) (accessEnv io paddr) a m.mem
  let copied := Cpu.transfer (alphaConf conf.cacheSize) (accessEnv io paddr) io.dev a m.mem m.host data
  return ({ m.setCpu i { m.cpus i with dyn } with mem, host := copied.1 }, copied.2, ok)

def memoryRw (a : Access) (data : List Byte) : Except Exit (AlphaMachine × List Byte × Bool) := do
  let paddr ← alphaTranslateV2p io.ram m.host (m.cpus i) a.vaddr
  m.accessPaddr conf io i a paddr data

/-! ## LS_GENERIC_N -/

/-- `addr &= ~7`. -/
def alignedAddr (addr : Addr) : Addr := if k.unaligned then addr &&& ~~~ 7#64 else addr

def genericAddr : Addr := alignedAddr k ((m.cpus i).reg ic.arg1 + ic.arg2.signExtend 64)

/-- `LS_GENERIC_N`. -/
def lsGeneric : Except Exit AlphaMachine := do
  let addr := m.genericAddr k ic i
  if k.load then
    let (m, data, ok) ← m.memoryRw conf io i ⟨addr, k.size.toNat, false, cacheData⟩ (List.replicate k.size.toNat 0#8)
    if !ok then throw .loadStoreFailed
    return m.setReg i ic.arg0 (k.size.extend (k.size.dataX fun n => data.getD n 0#8))
  else
    let data := k.size.dataBytes ((m.cpus i).reg ic.arg0)
    let (m, _, ok) ← m.memoryRw conf io i ⟨addr, k.size.toNat, true, cacheData⟩ data
    if !ok then throw .loadStoreFailed
    return if k.llsc then m.setReg i ic.arg0 1#64 else m

/-! ## LS_N -/

/-- `addr`, with which the page is looked up. -/
def lookupAddr : Addr := (m.cpus i).reg ic.arg1 + if k.ignoreOffset then 0#64 else ic.arg2.signExtend 64

def addr : Addr := alignedAddr k (m.lookupAddr k ic i)

/-- `page`. -/
def hostPage : Option Nat :=
  let slot := (m.cpus i).dyn.tables.slotOf .alpha (m.lookupAddr k ic i)
  if k.load then slot.hostLoad else slot.hostStore

/-- A load-locked makes a reservation. "TODO: cache-line size!" -/
def reserve (addr : Addr) : AlphaMachine :=
  m.setCpu i { m.cpus i with loadLinkedAddr := addr &&& ~~~ 63#64, llFlag := true }

/-- "TODO: only invalidate per cache line, not everything!" -/
def clearFlags : AlphaMachine :=
  { m with cpus := fun j => if j < m.ncpus then { m.cpus j with llFlag := false } else m.cpus j }

def misaligned (size : LsSize) (addr : Addr) : Bool :=
  (addr &&& 8191#64) &&& BitVec.ofNat 64 (size.toNat - 1) != 0#64

/-- A transfer of the bytes at host address `p`. -/
def fastTransfer (p : Nat) : AlphaMachine :=
  if k.load then m.setReg i ic.arg0 (k.size.loadValue conf.hostBig fun n => m.host (p + n))
  else
    let m := { m with host := m.host.write p (k.size.storeBytes conf.hostBig ((m.cpus i).reg ic.arg0)) }
    if k.llsc then m.setReg i ic.arg0 1#64 else m

/-- The transfer of LS_N, with `page` looked up before. -/
def lsTransfer (page : Option Nat) (addr : Addr) : Except Exit AlphaMachine :=
  if misaligned k.size addr then m.lsGeneric conf k io ic i
  else
    match page with
    | some page => .ok (m.fastTransfer conf k ic i (page + (addr &&& 8191#64).toNat))
    | none => m.lsGeneric conf k io ic i

/-- What LS_N does to the flags of the CPUs before the transfer. -/
def beforeTransfer : AlphaMachine :=
  if k.llsc then if k.load then m.reserve i (m.addr k ic i) else m.clearFlags else m

/-- LS_N, with what it finds in the tables. -/
def lsNWith (page : Option Nat) : Except Exit AlphaMachine :=
  if k.llsc && !k.load && !(m.cpus i).llFlag then .ok (m.setReg i ic.arg0 0#64)
  else (m.beforeTransfer k ic i).lsTransfer conf k io ic i page (m.addr k ic i)

def lsN : Except Exit AlphaMachine := m.lsNWith conf k io ic i (m.hostPage k ic i)

/-! Before the transfer, only reservations change. -/

variable {k ic i m}

theorem beforeTransfer_host : (m.beforeTransfer k ic i).host = m.host := by
  unfold beforeTransfer
  split
  · split <;> rfl
  · rfl

theorem beforeTransfer_mem : (m.beforeTransfer k ic i).mem = m.mem := by
  unfold beforeTransfer
  split
  · split <;> rfl
  · rfl

theorem beforeTransfer_cpus (j : Nat) : ∃ line flag,
    (m.beforeTransfer k ic i).cpus j = { m.cpus j with loadLinkedAddr := line, llFlag := flag } := by
  unfold beforeTransfer
  split
  · split
    · by_cases hj : j = i
      · subst hj
        exact ⟨_, true, by simp [reserve]; rfl⟩
      · exact ⟨(m.cpus j).loadLinkedAddr, (m.cpus j).llFlag, setCpu_ne hj⟩
    · unfold clearFlags
      dsimp only
      split
      · exact ⟨(m.cpus j).loadLinkedAddr, false, rfl⟩
      · exact ⟨(m.cpus j).loadLinkedAddr, (m.cpus j).llFlag, rfl⟩
  · exact ⟨(m.cpus j).loadLinkedAddr, (m.cpus j).llFlag, rfl⟩

theorem beforeTransfer_reg (j : Nat) : ((m.beforeTransfer k ic i).cpus j).reg = (m.cpus j).reg := by
  obtain ⟨_, _, h⟩ := @beforeTransfer_cpus k ic i m j
  rw [h]

theorem beforeTransfer_dyn (j : Nat) : ((m.beforeTransfer k ic i).cpus j).dyn = (m.cpus j).dyn := by
  obtain ⟨_, _, h⟩ := @beforeTransfer_cpus k ic i m j
  rw [h]

end AlphaMachine

end Gxemul.Alpha
