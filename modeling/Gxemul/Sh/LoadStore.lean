import Gxemul.Arm.Mmu
import Gxemul.Sh.Access
import Gxemul.Sh.Banked

/- The SuperH instructions that move floating-point registers to and from memory
   (`src/cpus/cpu_sh_instr.c`), one register or, when FPSCR.SZ is set, two.

   The first word of a pair uses the page of the host that `host_load` or `host_store`
   has for the address. The second word always goes through memory_rw(). -/
namespace Gxemul.Sh
open Lib (Byte ByteMem value bytes)
open Arm (swap32 hostWord)

/-- `LE32_TO_HOST` or `BE32_TO_HOST`, by the byte order of the guest. -/
def ShConf.toHost32 (c : ShConf) (x : Word) : Word := if c.big = c.hostBig then x else swap32 x

namespace ShMachine
variable (c : ShConf) (io : ShIo) (lowPc : Nat) (s : ShMachine)

/-- `host_load[addr >> 12]`. -/
def hostLoad (addr : Word) : Option Nat := (s.dyn.tables.slotOf .sh (addr.setWidth 64)).hostLoad

/-- `host_store[addr >> 12]`. -/
def hostStore (addr : Word) : Option Nat := (s.dyn.tables.slotOf .sh (addr.setWidth 64)).hostStore

/-- `&p[(addr & 0xfff) >> 2]`. -/
def wordOfPage (p : Nat) (addr : Word) : Nat := p + 4 * ((addr &&& 0xfff#32) >>> 2).toNat

/-- A word that is read, as the host has it. `none` is an access that failed. -/
def loadWord (p : Option Nat) (addr : Word) : Except Exit (ShMachine × Option Word) :=
  match p with
  | some p => .ok (s, some (hostWord c.hostBig s.host (wordOfPage p addr)))
  | none => do
    let (s, data, ok) ← (s.synchPc lowPc).memoryRw c io ⟨addr.setWidth 64, 4, false, cacheData⟩ (List.replicate 4 0)
    return (s, if ok then some (BitVec.ofNat 32 (value c.hostBig data)) else none)

def storeWord (p : Option Nat) (addr data : Word) : Except Exit (ShMachine × Option Unit) :=
  match p with
  | some p => .ok ({ s with host := s.host.write (wordOfPage p addr) (bytes c.hostBig 4 data.toNat) }, some ())
  | none => do
    let (s, _, ok) ← (s.synchPc lowPc).memoryRw c io ⟨addr.setWidth 64, 4, true, cacheData⟩
      (bytes c.hostBig 4 data.toNat)
    return (s, if ok then some () else none)

/-- "Exception": when an access has failed, the instruction returns without having done its work. -/
def andThen {α : Type} (r : Except Exit (ShMachine × Option α))
    (next : ShMachine → α → Except Exit (ShMachine × Bool)) : Except Exit (ShMachine × Bool) := do
  let (s, x) ← r
  match x with
  | some x => next s x
  | none => return (s, false)

def floatingPointAvailableCheck (next : Except Exit (ShMachine × Bool)) : Except Exit (ShMachine × Bool) :=
  if anyBit (s.reg .sr) shSrFd then do
    let s ← (s.synchPc lowPc).exception c io
      (if s.cpu.delaySlot ≠ notDelayed then expevtFpuSlotDisable else expevtFpuDisable) 0#32
    return (s, false)
  else next

/-- `cpu->cd.sh.fpscr & SH_FPSCR_SZ`. -/
def pairSize : Bool := anyBit (s.reg .fpscr) shFpscrSz

/-- `X(fmov_rm_frn)`. -/
def fmovRmFrn (m n : BitVec 4) : Except Exit (ShMachine × Bool) :=
  let addr := s.reg (.r m)
  let p := s.hostLoad addr
  s.floatingPointAvailableCheck c io lowPc <|
    if s.pairSize then
      if n &&& 1#4 = 1#4 then .error .oddFloatRegister
      else
        andThen (s.loadWord c io lowPc none (addr + 4#32)) fun s data2 =>
          andThen (s.loadWord c io lowPc p addr) fun s data =>
            .ok ((s.setReg (.fr n) (c.toHost32 data)).setReg (.fr (n + 1#4)) (c.toHost32 data2), true)
    else
      andThen (s.loadWord c io lowPc p addr) fun s data => .ok (s.setReg (.fr n) (c.toHost32 data), true)

/-- `X(fmov_rm_postinc_frn)`. -/
def fmovRmPostincFrn (m n : BitVec 4) : Except Exit (ShMachine × Bool) :=
  let d := s.pairSize
  let addr := s.reg (.r m)
  let p := s.hostLoad addr
  let r1 := pairOf n
  s.floatingPointAvailableCheck c io lowPc <|
    andThen (s.loadWord c io lowPc p addr) fun s data =>
      if d then
        andThen (s.loadWord c io lowPc none (addr + 4#32)) fun s data2 =>
          let s := (s.setReg r1.2 (c.toHost32 data2)).setReg r1.1 (c.toHost32 data)
          .ok (s.setReg (.r m) (addr + 4#32 + 4#32), true)
      else .ok ((s.setReg (.fr n) (c.toHost32 data)).setReg (.r m) (addr + 4#32), true)

/-- `X(fmov_frm_rn)`. The check for an odd register is made with the address register, and
the second word is stored as it is in the register. -/
def fmovFrmRn (m n : BitVec 4) : Except Exit (ShMachine × Bool) :=
  let addr := s.reg (.r n)
  let p := s.hostStore addr
  let data := s.reg (.fr m)
  let first := fun s : ShMachine =>
    andThen (s.storeWord c io lowPc p addr (c.toHost32 data)) fun s _ => .ok (s, true)
  s.floatingPointAvailableCheck c io lowPc <|
    if s.pairSize then
      if n &&& 1#4 = 1#4 then .error .oddFloatRegister
      else
        let data2 := s.reg (if m = 15#4 then .xf 0#4 else .fr (m + 1#4))
        andThen (s.storeWord c io lowPc none (addr + 4#32) data2) fun s _ => first s
    else first s

/-- `X(fmov_frm_predec_rn)`. -/
def fmovFrmPredecRn (m n : BitVec 4) : Except Exit (ShMachine × Bool) :=
  let d := s.pairSize
  let addr := s.reg (.r n) - (if d then 8#32 else 4#32)
  let p := s.hostStore addr
  let r0 := if d then pairOf m else (.fr m, .fr (m + 1#4))
  s.floatingPointAvailableCheck c io lowPc <|
    andThen (s.storeWord c io lowPc p addr (c.toHost32 (s.reg r0.1))) fun s _ =>
      if d then
        andThen (s.storeWord c io lowPc none (addr + 4#32) (c.toHost32 (s.reg r0.2))) fun s _ =>
          .ok (s.setReg (.r n) addr, true)
      else .ok (s.setReg (.r n) addr, true)

end ShMachine

end Gxemul.Sh
