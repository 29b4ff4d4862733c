import Gxemul.Dyntrans.Vph
import Gxemul.Ppc.Alu

/- Translation of addresses on PowerPC (`src/cpus/memory_ppc.c`): the BATs, the hashed page
   table and ppc_translate_v2p(), with reg_access_msr() (`src/cpus/cpu_ppc.c`).

   `none` is a call of exit(). -/
namespace Gxemul.Ppc

def sprDsisr : SprNr := 0x012#10
def sprDar : SprNr := 0x013#10
def sprSdr1 : SprNr := 0x019#10
def sprIbat0u : SprNr := 0x210#10
def sprDmiss : SprNr := 0x3d0#10
def sprDcmp : SprNr := 0x3d1#10
def sprHash1 : SprNr := 0x3d2#10
def sprHash2 : SprNr := 0x3d3#10
def sprImiss : SprNr := 0x3d4#10
def sprIcmp : SprNr := 0x3d5#10

def ppcMsrTgpr : Reg := 0x20000#64
def ppcMsrIr : Reg := 0x20#64
def ppcMsrDr : Reg := 0x10#64
def ppcMsrLe : Reg := 0x1#64

def dsisrNotfound : Reg := 0x40000000#64
def dsisrProtect : Reg := 0x08000000#64
def dsisrStore : Reg := 0x02000000#64

def ppcExceptionDsi : Nat := 0x3
def ppcExceptionIsi : Nat := 0x4

def batRpn : Word := 0xfffe0000#32
def batPp : Word := 0x3#32
def batEpi : Word := 0xfffe0000#32
def batBl : Word := 0x1ffc#32
def batVs : Word := 0x2#32
def batVu : Word := 0x1#32

def pteValid : Word := 0x80000000#32
def pteHid : Word := 0x40#32
def pteApi : Word := 0x3f#32
def pteRpgn : Word := 0xfffff000#32
def pteG : Word := 0x8#32
def ptePp : Word := 0x3#32

def srSukey : Word := 0x40000000#32
def srPrkey : Word := 0x20000000#32
def srNoexec : Word := 0x10000000#32

/-- A CPU with what translation uses more: the segment registers, the temporary registers,
`cpu->running` and the type's flags `PPC_601` and `PPC_603`. -/
structure MmuCpu extends PpcCpu where
  sr : BitVec 4 → Word
  tgpr : BitVec 5 → Reg
  running : Bool
  is601 : Bool
  is603 : Bool

/-- FLAG_INSTR, FLAG_WRITEFLAG and FLAG_NOEXCEPTIONS. -/
structure V2pFlags where
  instr : Bool
  writeflag : Bool
  noExceptions : Bool

def beWord (mem : Addr → BitVec 8) (paddr : Addr) : Word :=
  mem paddr ++ mem (paddr + 1#64) ++ mem (paddr + 2#64) ++ mem (paddr + 3#64)

namespace MmuCpu
variable (c : MmuCpu) (mem : Addr → BitVec 8)

def zero (is32bit is601 is603 : Bool) : MmuCpu where
  toPpcCpu := .zero is32bit false
  sr := fun _ => 0#32
  tgpr := fun _ => 0#64
  running := true
  is601 := is601
  is603 := is603

def setSpr (n : SprNr) (v : Reg) : MmuCpu := { c with toPpcCpu := c.toPpcCpu.setSpr n v }

/-- The end of reg_access_msr(): the bit for little-endian mode is that of `cpu->byte_order`. -/
def fixLe : MmuCpu := { c with msr := (c.msr &&& ~~~ ppcMsrLe) ||| if c.bigEndian then 0#64 else ppcMsrLe }

/-- reg_access_msr() with `writeflag` set. -/
def writeMsr (value : Reg) : MmuCpu :=
  let old := c.msr
  let c := { c with msr := value }
  let c := if old &&& ppcMsrTgpr ≠ c.msr &&& ppcMsrTgpr then
      { c with
        gpr := fun i => if i < 4#5 then c.tgpr i else c.gpr i
        tgpr := fun i => if i < 4#5 then c.gpr i else c.tgpr i }
    else c
  let c := if c.msr &&& ppcMsrIp ≠ 0#64 then { c with running := false } else c
  c.fixLe

/-- `ppc_bat()`: `none` for -1, and otherwise what is returned and `*return_paddr`. -/
def ppcBat (vaddr : Addr) (f : V2pFlags) (user : Bool) : Option (Option (Nat × Addr)) :=
  if c.is32bit = false ∨ c.is601 then none
  else some ((List.range' (if f.instr then 0 else 4) 4).findSome? fun i =>
    let regnr := sprIbat0u + BitVec.ofNat 10 (i * 2)
    let upper : Word := (c.spr regnr).setWidth 32
    let lower : Word := (c.spr (regnr + 1#10)).setWidth 32
    let phys := lower &&& batRpn
    let ebs := upper &&& batEpi
    let mask := ((upper &&& batBl) <<< 15) ||| 0x1ffff#32
    if user ∧ upper &&& batVu = 0#32 then none
    else if user = false ∧ upper &&& batVs = 0#32 then none
    else if vaddr &&& (~~~ mask).setWidth 64 ≠ (ebs &&& ~~~ mask).setWidth 64 then none
    else
      let paddr := (vaddr &&& mask.setWidth 64) ||| (phys &&& ~~~ mask).setWidth 64
      let pp := lower &&& batPp
      some (if pp = 0#32 then 0 else if pp = 1#32 ∨ pp = 3#32 then if f.writeflag then 0 else 1 else 2, paddr))

end MmuCpu

def getPteLow (mem : Addr → BitVec 8) (ptegSelect cmp : Word) : Option Word :=
  (List.range 8).findSome? fun i =>
    let ep := ptegSelect.setWidth 64 + BitVec.ofNat 64 (i * 8)
    if beWord mem ep = cmp then some (beWord mem (ep + 4#64)) else none

/-- `pteg_select` for a hash value. -/
def ptegSelect (sdr1 : Reg) (hash : Word) : Word :=
  let htaborg := (sdr1 &&& 0xffff0000#64).setWidth 32
  let tmp := (hash >>> 10) &&& (sdr1 &&& 0x1ff#64).setWidth 32
  ((htaborg &&& 0xfe000000#32) ||| ((hash &&& 0x3ff#32) <<< 6)) ||| ((htaborg &&& 0x01ff0000#32) ||| (tmp <<< 16))

/-- What ppc_vtp32() leaves: the CPU, its return value, `*resp` and `*return_paddr`. -/
structure Vtp where
  cpu : MmuCpu
  found : Bool
  res : Nat
  paddr : Addr

namespace MmuCpu
variable (c : MmuCpu) (mem : Addr → BitVec 8)

def ppcVtp32 (vaddr : Word) (paddr : Addr) (msr : Reg) (writeflag instr : Bool) : Vtp :=
  let srn := (vaddr >>> 28).setWidth 4
  let api := (vaddr >>> 22) &&& pteApi
  let vsid := c.sr srn &&& 0x00ffffff#32
  let sdr1 := c.spr sprSdr1
  let hash1 := (vsid &&& 0x7ffff#32) ^^^ ((vaddr >>> 12) &&& 0xffff#32)
  let cmp := pteValid ||| api ||| (vsid <<< 7)
  let c := c.setSpr sprHash1 ((ptegSelect sdr1 hash1).setWidth 64)
  let c := c.setSpr (if instr then sprIcmp else sprDcmp) (cmp.setWidth 64)
  let lower := getPteLow mem (ptegSelect sdr1 hash1) cmp
  let hash2 := hash1 ^^^ 0x7ffff#32
  let c := c.setSpr sprHash2 ((ptegSelect sdr1 hash2).setWidth 64)
  let lower := lower.or (getPteLow mem (ptegSelect sdr1 hash2) (cmp ||| pteHid))
  match lower with
  | none => ⟨c, false, 0, paddr⟩
  | some lower =>
    if instr ∧ c.sr srn &&& srNoexec ≠ 0#32 then ⟨c, true, 0, paddr⟩
    else if instr ∧ lower &&& pteG ≠ 0#32 then ⟨c, true, 0, paddr⟩
    else
      let access := lower &&& ptePp
      let paddr := ((lower &&& pteRpgn) ||| (vaddr &&& ~~~ pteRpgn)).setWidth 64
      let key := (c.sr srn &&& srPrkey ≠ 0#32 ∧ msr &&& ppcMsrPr ≠ 0#64) ∨
        (c.sr srn &&& srSukey ≠ 0#32 ∧ msr &&& ppcMsrPr = 0#64)
      let readOnly := if writeflag then 0 else 1
      let res :=
        if key then if access = 1#32 ∨ access = 3#32 then readOnly else if access = 2#32 then 2 else 0
        else if access = 3#32 then readOnly else 2
      ⟨c, true, res, paddr⟩

/-- The end of ppc_translate_v2p(): "No match? Then cause an exception." -/
def ppcFault (vaddr : Addr) (msr : Reg) (f : V2pFlags) (found : Bool) : MmuCpu :=
  let raise (c : MmuCpu) (nr : Nat) : MmuCpu := { c with toPpcCpu := c.toPpcCpu.exception nr }
  if c.is603 then
    let c := c.setSpr (if f.instr then sprImiss else sprDmiss) vaddr
    let c := c.writeMsr (msr ||| ppcMsrTgpr)
    raise c (if f.instr then 0x10 else if f.writeflag then 0x12 else 0x11)
  else
    let dsisr := (if found then dsisrProtect else dsisrNotfound) ||| if f.writeflag then dsisrStore else 0#64
    let c := if f.instr then c else (c.setSpr sprDar vaddr).setSpr sprDsisr dsisr
    raise c (if f.instr then ppcExceptionIsi else ppcExceptionDsi)

/-- `ppc_translate_v2p()`: the CPU, what is returned, and `*return_paddr`. -/
def ppcTranslateV2p (vaddr paddr : Addr) (f : V2pFlags) : Option (MmuCpu × Nat × Addr) := do
  let c := c.fixLe
  let msr := c.msr
  let user := decide (msr &&& ppcMsrPr ≠ 0#64)
  let vaddr := if c.is32bit then vaddr &&& 0xffffffff#64 else vaddr
  if (f.instr ∧ msr &&& ppcMsrIr = 0#64) ∨ (f.instr = false ∧ msr &&& ppcMsrDr = 0#64) then
    return (c, 2, vaddr)
  if c.is601 ∨ c.is32bit = false then none
  else
    match ← c.ppcBat vaddr f user with
    | some (res, paddr) => if res = 0 then none else return (c, res, paddr)
    | none =>
      let r := c.ppcVtp32 mem (vaddr.setWidth 32) paddr msr f.writeflag f.instr
      if r.found ∧ 0 < r.res then return (r.cpu, r.res, r.paddr)
      else if f.noExceptions then return (r.cpu, 0, r.paddr)
      else return (r.cpu.ppcFault vaddr msr f r.found, 0, r.paddr)

end MmuCpu

end Gxemul.Ppc
