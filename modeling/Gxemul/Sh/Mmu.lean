import Gxemul.Memory.Data

/- Emulated SuperH CPUs (`src/include/cpu_sh.h`, `src/cpus/cpu_sh.c`): the registers,
   and the functions that write the status registers. -/
namespace Gxemul.Sh
open Lib (ByteMem)

/-- A register (`uint32_t`). -/
abbrev Word := BitVec 32

def shSrT : Word := 0x00000001#32
def shSrImask : Word := 0x000000f0#32
def shSrQ : Word := 0x00000100#32
def shSrM : Word := 0x00000200#32
def shSrFd : Word := 0x00008000#32
def shSrBl : Word := 0x10000000#32
def shSrRb : Word := 0x20000000#32
def shSrMd : Word := 0x40000000#32

def shFpscrSz : Word := 0x00100000#32
def shFpscrFr : Word := 0x00200000#32

/-- `x & bits`, as a truth value. -/
def anyBit (x bits : Word) : Bool := x &&& bits != 0#32

/-- What an argument of an instruction can point to: the registers of `struct sh_cpu`. -/
inductive RegName where
  | r (i : BitVec 4)
  | rBank (i : BitVec 3)
  | fr (i : BitVec 4)
  | xf (i : BitVec 4)
  | mach | macl | pr | fpscr | fpul | sr | ssr | spc | gbr | vbr | sgr | dbr
  deriving DecidableEq

abbrev Regs := RegName → Word

namespace Regs
variable (s : Regs)

/-- `reg(x) = value`. -/
def set (x : RegName) (value : Word) : Regs := Function.update s x value

/-- `r[i]` and `r_bank[i]` change places, for the registers that are banked. -/
def swapBanks : Regs
  | .r i => if i < 8#4 then s (.rBank (i.setWidth 3)) else s (.r i)
  | .rBank i => s (.r (i.setWidth 4))
  | x => s x

/-- `fr[i]` and `xf[i]` change places. -/
def swapFpBanks : Regs
  | .fr i => s (.xf i)
  | .xf i => s (.fr i)
  | x => s x

def shUpdateSr (newSr : Word) : Regs :=
  let s' := if newSr &&& shSrRb ≠ s .sr &&& shSrRb then s.swapBanks else s
  s'.set .sr newSr

def shUpdateFpscr (newFpscr : Word) : Regs :=
  let s' := if newFpscr &&& shFpscrFr ≠ s .fpscr &&& shFpscrFr then s.swapFpBanks else s
  s'.set .fpscr newFpscr

variable {s} {x y : RegName} {v : Word}

@[simp] theorem set_same : s.set x v x = v := Function.update_self ..

theorem set_of_ne (h : y ≠ x) : s.set x v y = s y := Function.update_of_ne h ..

end Regs

/-! ## Bits -/

section
variable {x y b : Word}

theorem anyBit_or : anyBit (x ||| y) b = (anyBit x b || anyBit y b) := by
  unfold anyBit
  rw [Bool.eq_iff_iff, BitVec.and_or_distrib_right, Bool.or_eq_true, bne_iff_ne, bne_iff_ne, bne_iff_ne, Ne,
    BitVec.or_eq_zero_iff]
  tauto

theorem anyBit_clear (h : b &&& ~~~ y = 0#32) : anyBit (x &&& ~~~ y) b = false := by
  unfold anyBit
  rw [BitVec.and_assoc, BitVec.and_comm (~~~ y) b, h, BitVec.and_zero]
  rfl

theorem anyBit_keep (h : b &&& ~~~ y = b) : anyBit (x &&& ~~~ y) b = anyBit x b := by
  unfold anyBit
  rw [BitVec.and_assoc, BitVec.and_comm (~~~ y) b, h]

end

end Gxemul.Sh

/- Address translation on SuperH (`src/cpus/memory_sh.c`): the segments of the address
   space, and the scan of the two TLBs.

   A failed translation calls sh_exception(), which is not part of this module. -/
namespace Gxemul.Sh

def sh4PtehAsidMask : Word := 0x000000ff#32
def sh4PtehVpnMask : Word := 0xfffffc00#32
def sh4PtelSh : Word := 0x00000002#32
def sh4PtelD : Word := 0x00000004#32
def sh4PtelPrShift : Nat := 5
def sh4PtelPrMask : Word := 0x00000060#32
def sh4PtelSzMask : Word := 0x00000090#32
def sh4PtelSz1k : Word := 0x00000000#32
def sh4PtelSz4k : Word := 0x00000010#32
def sh4PtelSz64k : Word := 0x00000080#32
def sh4PtelV : Word := 0x00000100#32

def sh4MmucrAt : Word := 0x00000001#32
def sh4MmucrSv : Word := 0x00000100#32
def sh4MmucrUrcShift : Nat := 10
def sh4MmucrUrcMask : Word := 0x0000fc00#32
def sh4MmucrUrbShift : Nat := 18
def sh4MmucrUrbMask : Word := 0x00fc0000#32

def expevtResetPower : Word := 0x000#32
def expevtResetManual : Word := 0x020#32
def expevtTlbMissLd : Word := 0x040#32
def expevtTlbMissSt : Word := 0x060#32
def expevtTlbMod : Word := 0x080#32
def expevtTlbProtLd : Word := 0x0a0#32
def expevtTlbProtSt : Word := 0x0c0#32
def expevtTrapa : Word := 0x160#32
def expevtResInst : Word := 0x180#32
def expevtFpuDisable : Word := 0x800#32
def expevtFpuSlotDisable : Word := 0x820#32

def shNUtlbEntries : Nat := 64
def shNItlbEntries : Nat := 4

/-- `utlb_hi[i]` and `utlb_lo[i]`, or the same of the ITLB. -/
structure TlbEntry where
  hi : Word
  lo : Word

structure Mmu where
  pteh : Word
  ptel : Word
  ttb : Word
  tea : Word
  mmucr : Word
  itlb : Fin shNItlbEntries → TlbEntry
  utlb : Fin shNUtlbEntries → TlbEntry

/-- `FLAG_WRITEFLAG`, `FLAG_NOEXCEPTIONS` and `FLAG_INSTR`. -/
structure V2pFlags where
  write : Bool
  noExceptions : Bool
  instr : Bool

/-- A return value with `*return_paddr`, or a call of sh_exception() before 0 is returned. -/
inductive V2pResult where
  | returned (ok : Nat) (paddr : Word)
  | exception (expevt : Word)

def TlbEntry.mask (e : TlbEntry) : Word :=
  let sz := e.lo &&& sh4PtelSzMask
  if sz = sh4PtelSz1k then 0xfffffc00#32
  else if sz = sh4PtelSz4k then 0xfffff000#32
  else if sz = sh4PtelSz64k then 0xffff0000#32
  else 0xfff00000#32

namespace Mmu
variable (m : Mmu) (sr vaddr : Word) (f : V2pFlags)

/-- "Increase URC every time the UTLB is accessed." -/
def countUrc : Mmu :=
  let urb := (m.mmucr &&& sh4MmucrUrbMask) >>> sh4MmucrUrbShift
  let urc := (m.mmucr &&& sh4MmucrUrcMask) >>> sh4MmucrUrcShift
  let urc := urc + 1#32
  let urc := if BitVec.ofNat 32 shNUtlbEntries ≤ urc ∨ (0#32 < urb ∧ urc = urb) then 0#32 else urc
  { m with mmucr := (m.mmucr &&& ~~~ sh4MmucrUrcMask) ||| (urc <<< sh4MmucrUrcShift) }

def requireAsidMatch : Bool := !anyBit m.mmucr sh4MmucrSv || !anyBit sr shSrMd

def hit (e : TlbEntry) : Bool :=
  if !anyBit e.lo sh4PtelV then false
  else if e.hi &&& e.mask ≠ vaddr &&& e.mask then false
  else if !anyBit e.lo sh4PtelSh && m.requireAsidMatch sr then
    e.hi &&& sh4PtehAsidMask == m.pteh &&& sh4PtehAsidMask
  else true

def searched (instr : Bool) : List TlbEntry :=
  (if instr then List.ofFn m.itlb else []) ++ List.ofFn m.utlb

/-- A translation that fails. Without exceptions there is a result nevertheless. -/
def failed (expevt : Word) : V2pResult :=
  if f.noExceptions then .returned 2 0#32 else .exception expevt

def tlbMiss : Word := if f.write then expevtTlbMissSt else expevtTlbMissLd

def protectionViolation : Word := if f.write then expevtTlbProtSt else expevtTlbProtLd

def permission (lo paddr : Word) : V2pResult :=
  let d := anyBit lo sh4PtelD
  let pr := (lo &&& sh4PtelPrMask) >>> sh4PtelPrShift
  let dirty := if d then .returned 2 paddr else .returned 1 paddr
  if f.instr then
    if anyBit sr shSrMd then .returned 1 paddr
    else if pr &&& 2#32 = 0#32 then failed f (protectionViolation f)
    else .returned 1 paddr
  else if anyBit sr shSrMd then
    if pr = 0#32 ∨ pr = 2#32 then
      if f.write then failed f (protectionViolation f) else .returned 1 paddr
    else if f.write && !d then failed f expevtTlbMod
    else dirty
  else if pr = 0#32 ∨ pr = 1#32 then failed f (protectionViolation f)
  else if pr = 2#32 then
    if f.write then failed f (protectionViolation f) else .returned 1 paddr
  else if f.write && !d then failed f expevtTlbMod
  else dirty

def translateViaMmu : Mmu × V2pResult :=
  let m' := if f.noExceptions then m else m.countUrc
  match (m'.searched f.instr).find? (m'.hit sr vaddr) with
  | none => (m', failed f (tlbMiss f))
  | some e => (m', permission sr f e.lo ((vaddr &&& ~~~ e.mask) ||| (e.lo &&& e.mask &&& 0x1fffffff#32)))

def shTranslateV2p (vaddr64 : Addr) : Except Exit (Mmu × V2pResult) :=
  let vaddr : Word := vaddr64.setWidth 32
  if vaddr &&& 0x80000000#32 = 0#32 ∨ (0xc0000000#32 ≤ vaddr ∧ vaddr < 0xe0000000#32) then
    if !anyBit m.mmucr sh4MmucrAt then .ok (m, .returned 2 (vaddr &&& 0x1fffffff#32))
    else .ok (m.translateViaMmu sr vaddr f)
  else if 0xe0000000#32 ≤ vaddr ∧ vaddr < 0xe4000000#32 then .ok (m, .returned 2 vaddr)
  else if !anyBit sr shSrMd then
    if f.noExceptions then .ok (m, .returned 2 0#32)
    else .ok (m, .exception (if f.write then expevtTlbMissSt else expevtTlbMissLd))
  else if 0x80000000#32 ≤ vaddr ∧ vaddr < 0xc0000000#32 then .ok (m, .returned 2 (vaddr &&& 0x1fffffff#32))
  else if f.instr then .error .unimplementedShAddress
  else if vaddr &&& 0xf0000000#32 = 0xf0000000#32 then .ok (m, .returned 2 vaddr)
  else if f.noExceptions then .ok (m, .returned 2 0#32)
  else .error .unimplementedShAddress

end Mmu

end Gxemul.Sh
