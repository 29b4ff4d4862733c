import Gxemul.Mips.LoadStore
import Gxemul.Ppc.Alu

/- PowerPC loads and stores: `src/cpus/cpu_ppc_instr_loadstore.c`, and X(lmw), X(stmw), X(lswi)
   and X(stswi) in `src/cpus/cpu_ppc_instr.c`.

   memory_rw() translates the address of an access once, and goes on with the physical
   address. How addresses are translated, and what is at the physical addresses, are
   parameters. The memory of the host is by physical address. -/
namespace Gxemul.Ppc
open Lib (Byte ByteMem)
open Mips (LsSize)

/-- What LS_N and LS_GENERIC_N are compiled for: LS_SIZE, LS_LOAD, LS_ZERO, LS_UPDATE, LS_INDEXED and
LS_BYTEREVERSE. -/
structure LsForm where
  size : LsSize
  load : Bool
  zero : Bool
  update : Bool
  indexed : Bool
  reverse : Bool

/-- The functions that there are (`src/cpus/generate_ppc_loadstore.c`). -/
def LsForm.generated (f : LsForm) : Bool :=
  if f.reverse then f.indexed && !f.update && !f.zero && (f.size == .ls2 || f.size == .ls4)
  else if f.load then f.zero || f.size != .ls8
  else f.zero

/-- `struct ppc_instr_call` of a load or store, which is number `lowPc` of its page. -/
structure LsInstr where
  form : LsForm
  rs : BitVec 5
  ra : BitVec 5
  rb : BitVec 5
  imm : BitVec 16
  lowPc : Nat

/-- What to_be_translated() accepts. -/
structure LsInstr.Translated (i : LsInstr) : Prop where
  generated : i.form.generated = true
  update : i.form.update = true → i.ra ≠ 0#5

def LsInstr.ignoreofs (i : LsInstr) : Bool := !i.form.indexed && i.imm == 0#16

structure PhysAnswer (ρ : Type) where
  rest : ρ
  mem : ByteMem
  data : List Byte
  ok : Bool
  running : Bool

/-- The rest of the emulator: the tables `host_load` and `host_store`, ppc_translate_v2p() for a page and what it
does to the CPU when it fails, and RAM or a device at a physical address. -/
structure MemorySystem (ρ : Type) where
  hostPage : ρ → (store : Bool) → BitVec 20 → Option Nat
  translatePage : ρ → ByteMem → (write : Bool) → BitVec 52 → Option Nat
  raise : ρ → ByteMem → (write : Bool) → Addr → PpcCpu → PpcCpu
  access : ρ → ByteMem → (write : Bool) → Nat → List Byte → PhysAnswer ρ
  /-- The buffer stays of its length. -/
  length_access : ∀ rest mem write p data, (access rest mem write p data).data.length = data.length

/-- A CPU with memory, its `cpu->running`, and whether it is in POWER mode. -/
structure LsMachine (ρ : Type) where
  cpu : PpcCpu
  power : Bool
  running : Bool
  mem : ByteMem
  rest : ρ

/-- What can be seen of an instruction: an access, with the translation of each byte's own address, a call of
memory_rw() that failed, or "misalignment across page boundary: TODO". -/
inductive LsEvent where
  | access (write : Bool) (vaddr : Addr) (paddr : Nat) (data : List Byte) (own : List (Option Nat))
  | failed
  | refused
  deriving DecidableEq

namespace PpcCpu
variable (c : PpcCpu)

/-- `reg(ic->arg[1])`, where r0 stands for `cpu->cd.ppc.zero`. -/
def base (ra : BitVec 5) : Reg := if ra = 0#5 then 0#64 else c.reg ra

/-- "Synchronize the PC". -/
def syncPc (lowPc : Nat) : PpcCpu := { c with pc := (c.pc &&& ~~~ 0xffc#64) + (BitVec.ofNat 64 lowPc <<< 2) }

end PpcCpu

namespace LsForm
variable (f : LsForm)

/-- A loaded value, from `data[]` or from the page. Calculations with bytes are `int`s. -/
def loadValue (p : Nat → Byte) : Reg :=
  let w (k : Nat) : Word := (p k).setWidth 32
  let d (k : Nat) : Reg := (p k).setWidth 64
  match f.size with
  | .ls1 => if f.zero then (p 0).setWidth 64 else (p 0).signExtend 64
  | .ls2 =>
    if f.reverse then ((w 1 <<< 8) + w 0).signExtend 64
    else
      let x := (w 0 <<< 8) + w 1
      if f.zero then x.signExtend 64 else (x.setWidth 16).signExtend 64
  | .ls4 =>
    if f.reverse then ((w 3 <<< 24) + (w 2 <<< 16) + (w 1 <<< 8) + w 0).signExtend 64
    else
      let x := (w 0 <<< 24) + (w 1 <<< 16) + (w 2 <<< 8) + w 3
      if f.zero then x.setWidth 64 else x.signExtend 64
  | .ls8 =>
    (d 0 <<< 56) + (d 1 <<< 48) + (d 2 <<< 40) + (d 3 <<< 32) + (d 4 <<< 24) + (w 5 <<< 16).signExtend 64 +
      (w 6 <<< 8).signExtend 64 + d 7

def storeBytes (x : Reg) : List Byte :=
  let b (n : Nat) : Byte := (x >>> n).setWidth 8
  match f.size with
  | .ls1 => [b 0]
  | .ls2 => if f.reverse then [b 0, b 8] else [b 8, b 0]
  | .ls4 => if f.reverse then [b 0, b 8, b 16, b 24] else [b 24, b 16, b 8, b 0]
  | .ls8 => [b 56, b 48, b 40, b 32, b 24, b 16, b 8, b 0]

def crosses (addr : Addr) : Bool := f.size != .ls1 && decide (0xfff < (addr &&& 0xfff#64).toNat + f.size.toNat - 1)

end LsForm

namespace LsInstr
variable (i : LsInstr) (c : PpcCpu)

def addr : Addr := c.modeUint (c.base i.ra + if i.form.indexed then c.reg i.rb else i.imm.signExtend 64)

/-- `addr` in LS_N. -/
def lsAddr : Addr := if i.ignoreofs then c.modeUint (c.base i.ra) else i.addr c

/-- The CPU after a load from `p`. A double word is loaded as a `uint64_t`. -/
def load (p : Nat → Byte) : PpcCpu :=
  if i.form.size = .ls8 then c.setGpr i.rs (i.form.loadValue p) else c.setReg i.rs (i.form.loadValue p)

def stored : List Byte := i.form.storeBytes (if i.form.size = .ls8 then c.gpr i.rs else c.reg i.rs)

/-- LS_UPDATE. -/
def updated (addr : Addr) : PpcCpu := if i.form.update then c.setReg i.ra addr else c

end LsInstr

section
variable {ρ : Type} (M : MemorySystem ρ)

/-- `ppc_translate_v2p()`. -/
def MemorySystem.translate (rest : ρ) (mem : ByteMem) (write : Bool) (vaddr : Addr) : Option Nat :=
  (M.translatePage rest mem write (vaddr.extractLsb' 12 52)).map fun q => q * 4096 + vaddr.toNat % 4096

namespace LsMachine
variable (m : LsMachine ρ)

def own (write : Bool) (vaddr : Addr) (len : Nat) : List (Option Nat) :=
  (List.range len).map fun k => M.translate m.rest m.mem write (m.cpu.modeUint (vaddr + BitVec.ofNat 64 k))

/-- `memory_rw()`. There is no data if it fails. -/
def memoryRw (write : Bool) (vaddr : Addr) (data : List Byte) : LsMachine ρ × Option (List Byte) × LsEvent :=
  match M.translate m.rest m.mem write vaddr with
  | none => ({ m with cpu := M.raise m.rest m.mem write vaddr m.cpu }, none, .failed)
  | some paddr =>
    let r := M.access m.rest m.mem write paddr data
    let m' := { m with mem := r.mem, rest := r.rest, running := m.running && r.running }
    if r.ok then
      (m', some r.data, .access write vaddr paddr (if write then data else r.data) (m.own M write vaddr data.length))
    else (m', none, .failed)

end LsMachine

namespace LsInstr
variable (i : LsInstr) (m : LsMachine ρ)

/-- `LS_GENERIC_N`. -/
def lsGeneric : LsMachine ρ × List LsEvent :=
  let addr := i.addr m.cpu
  let m := { m with cpu := m.cpu.syncPc i.lowPc }
  if i.form.crosses addr then ({ m with running := false }, [.refused])
  else if i.form.load then
    match m.memoryRw M false addr (List.replicate i.form.size.toNat 0#8) with
    | (m, none, e) => (m, [e])
    | (m, some data, e) => ({ m with cpu := i.updated (i.load m.cpu fun k => data.getD k 0#8) addr }, [e])
  else
    match m.memoryRw M true addr (i.stored m.cpu) with
    | (m, none, e) => (m, [e])
    | (m, some _, e) => ({ m with cpu := i.updated m.cpu addr }, [e])

/-- LS_N where the page is known, and the bytes are those from `p` on. -/
def lsFast (p : Nat) : LsMachine ρ × List LsEvent :=
  let addr := i.lsAddr m.cpu
  if i.form.load then
    ({ m with cpu := i.updated (i.load m.cpu fun k => m.mem (p + k)) addr },
      [.access false addr p (m.mem.read p i.form.size.toNat) (m.own M false addr i.form.size.toNat)])
  else
    ({ m with cpu := i.updated m.cpu addr, mem := m.mem.write p (i.stored m.cpu) },
      [.access true addr p (i.stored m.cpu) (m.own M true addr i.form.size.toNat)])

/-- `LS_N`. "For now, 64-bit access is done using the slow fallback." -/
def lsN : LsMachine ρ × List LsEvent :=
  let addr := i.lsAddr m.cpu
  if m.cpu.is32bit = false then i.lsGeneric M m
  else if addr &&& BitVec.ofNat 64 (i.form.size.toNat - 1) ≠ 0#64 then i.lsGeneric M m
  else
    match M.hostPage m.rest (!i.form.load) ((addr >>> 12).setWidth 20) with
    | none => i.lsGeneric M m
    | some q => i.lsFast M m (q * 4096 + (addr &&& 4095#64).toNat)

end LsInstr

/-! ## Load/Store Multiple -/

/-- The word in `d[]`. -/
def multipleWord (bigEndian : Bool) (d : List Byte) : Word :=
  let w (k : Nat) : Word := (d.getD k 0#8).setWidth 32
  if bigEndian then (w 0 <<< 24) + (w 1 <<< 16) + (w 2 <<< 8) + w 3 else (w 3 <<< 24) + (w 2 <<< 16) + (w 1 <<< 8) + w 0

/-- `d[]`, for a word. -/
def multipleBytes (bigEndian : Bool) (x : Word) : List Byte :=
  let b (n : Nat) : Byte := (x >>> n).setWidth 8
  if bigEndian then [b 24, b 16, b 8, b 0] else [b 0, b 8, b 16, b 24]

/-- The loop of X(lmw), with `n` registers to go. -/
def lmwLoop : Nat → BitVec 5 → Addr → LsMachine ρ → LsMachine ρ × List LsEvent
  | 0, _, _, m => (m, [])
  | n + 1, rs, addr, m =>
    match m.memoryRw M false addr (List.replicate 4 0#8) with
    | (m, none, e) => (m, [e])
    | (m, some d, e) =>
      let m := { m with cpu := m.cpu.setGpr rs ((multipleWord m.cpu.bigEndian d).signExtend 64) }
      let r := lmwLoop n (rs + 1#5) (m.cpu.modeUint (addr + 4#64)) m
      (r.1, e :: r.2)

/-- The loop of X(stmw). -/
def stmwLoop : Nat → BitVec 5 → Addr → LsMachine ρ → LsMachine ρ × List LsEvent
  | 0, _, _, m => (m, [])
  | n + 1, rs, addr, m =>
    match m.memoryRw M true addr (multipleBytes m.cpu.bigEndian ((m.cpu.gpr rs).setWidth 32)) with
    | (m, none, e) => (m, [e])
    | (m, some _, e) =>
      let r := stmwLoop n (rs + 1#5) (m.cpu.modeUint (addr + 4#64)) m
      (r.1, e :: r.2)

/-! ## Load/store string -/

/-- A register after byte number `sub` has been put into it. -/
def insertByte (power : Bool) (sub : Nat) (d : Byte) (x : Reg) : Reg :=
  let x := if power ∧ sub = 0 then 0#64 else x
  let x := x &&& (~~~ (0xff#32 <<< (24 - 8 * sub))).signExtend 64
  x ||| (d.setWidth 32 <<< (24 - 8 * sub) : Word).signExtend 64

/-- The loop of X(lswi), with `nb` bytes to go. -/
def lswiLoop : Nat → BitVec 5 → Nat → Addr → LsMachine ρ → LsMachine ρ × List LsEvent
  | 0, _, _, _, m => (m, [])
  | nb + 1, rt, sub, addr, m =>
    match m.memoryRw M false addr [0#8] with
    | (m, none, e) => (m, [e])
    | (m, some d, e) =>
      let m := { m with cpu := m.cpu.setGpr rt (insertByte m.power sub (d.getD 0 0#8) (m.cpu.gpr rt)) }
      let r := lswiLoop nb (if sub + 1 = 4 then rt + 1#5 else rt) (if sub + 1 = 4 then 0 else sub + 1)
        (m.cpu.modeUint (addr + 1#64)) m
      (r.1, e :: r.2)

/-- The loop of X(stswi). -/
def stswiLoop : Nat → BitVec 5 → Word → Nat → Addr → LsMachine ρ → LsMachine ρ × List LsEvent
  | 0, _, _, _, _, m => (m, [])
  | nb + 1, rs, cur, sub, addr, m =>
    match m.memoryRw M true addr [(cur >>> 24).setWidth 8] with
    | (m, none, e) => (m, [e])
    | (m, some _, e) =>
      let rs' := if sub + 1 = 4 then rs + 1#5 else rs
      let cur' := if sub + 1 = 4 then (m.cpu.gpr rs').setWidth 32 else cur <<< 8
      let r := stswiLoop nb rs' cur' (if sub + 1 = 4 then 0 else sub + 1) (m.cpu.modeUint (addr + 1#64)) m
      (r.1, e :: r.2)

/-! ## All of them -/

/-- An instruction that loads or stores. `nb` is the number of bytes of a string, from 1 to 32. -/
inductive MemOp where
  | ls (i : LsInstr)
  | lmw (rt ra : BitVec 5) (imm : BitVec 16) (lowPc : Nat)
  | stmw (rs ra : BitVec 5) (imm : BitVec 16) (lowPc : Nat)
  | lswi (rt ra : BitVec 5) (nb : Nat) (lowPc : Nat)
  | stswi (rs ra : BitVec 5) (nb : Nat) (lowPc : Nat)

namespace MemOp

def lowPc : MemOp → Nat
  | .ls i => i.lowPc
  | .lmw _ _ _ lowPc | .stmw _ _ _ lowPc | .lswi _ _ _ lowPc | .stswi _ _ _ lowPc => lowPc

def addr (c : PpcCpu) : MemOp → Addr
  | .ls i => i.addr c
  | .lmw _ ra imm _ | .stmw _ ra imm _ => c.modeUint (c.base ra + imm.signExtend 64)
  | .lswi _ ra _ _ | .stswi _ ra _ _ => c.modeUint (c.base ra)

def run (op : MemOp) (m : LsMachine ρ) : LsMachine ρ × List LsEvent :=
  let addr := op.addr m.cpu
  let m' := { m with cpu := m.cpu.syncPc op.lowPc }
  match op with
  | .ls i => i.lsN M m
  | .lmw rt _ _ _ => lmwLoop M (32 - rt.toNat) rt addr m'
  | .stmw rs _ _ _ => stmwLoop M (32 - rs.toNat) rs addr m'
  | .lswi rt _ nb _ => lswiLoop M nb rt 0 addr m'
  | .stswi rs _ nb _ => stswiLoop M nb rs ((m.cpu.gpr rs).setWidth 32) 0 addr m'

end MemOp

end

end Gxemul.Ppc
