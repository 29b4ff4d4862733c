import Gxemul.Mips.TranslateV2p

/- mips_cpu_exception() (`src/cpus/cpu_mips.c`).

   An exception notes its cause in coprocessor 0, enters kernel mode and moves the
   program counter to a handler in kseg0 or kseg1. -/
namespace Gxemul.Mips

def causeBd : Reg := 0x80000000#64
def causeCeMask : Reg := 0x30000000#64
def causeCeShift : Nat := 28
def causeIv : Reg := 0x00800000#64
def causeExccodeMask : Reg := 0x7c#64
def r2k3kCauseExccodeMask : Reg := 0x3c#64
def causeExccodeShift : Nat := 2
def contextBadvpn2Mask : Reg := 0x007ffff0#64
def contextBadvpn2MaskR4100 : Reg := 0x01fffff0#64
def contextBadvpn2Shift : Nat := 4
def r2k3kContextBadvpnMask : Reg := 0x001ffffc#64
def r2k3kContextBadvpnShift : Nat := 2
def xcontextRMask : Reg := 0x180000000#64
def xcontextRShift : Nat := 31
def xcontextBadvpn2Mask : Reg := 0x7ffffff0#64
def xcontextBadvpn2Shift : Nat := 4

def notDelayed : Nat := 0
def exceptionInDelaySlot : Nat := 8

/-- A MIPS CPU: its dyntrans state, its memory, and what mips_cpu_exception() and
the coprocessor 0 instructions work on. -/
structure MipsCpu where
  dyn : Cpu
  mem : Memory
  mmu : Mmu
  delaySlot : Nat
  isHalted : Bool

def CpuType.conf (t : CpuType) (dyntransCacheSize : Nat) : Conf := ⟨.mips, t.vaddrMask, dyntransCacheSize⟩

def ExceptionArgs.notesAddress (e : ExceptionArgs) : Bool :=
  e.tlb || (decide (Exccode.mod.toNat ≤ e.exccode.toNat) && decide (e.exccode.toNat ≤ Exccode.ades.toNat)) ||
    e.exccode == .vcei || e.exccode == .vced

namespace Cop0
variable (t : CpuType) (c : Cop0)

def noteCause (e : ExceptionArgs) (coprocNr : Nat) : Cop0 :=
  let cause := c.cause &&& ~~~ (if t.exc3k then r2k3kCauseExccodeMask else causeExccodeMask)
  let cause := cause ||| (BitVec.ofNat 64 e.exccode.toNat <<< causeExccodeShift)
  let cause := cause &&& ~~~ causeCeMask
  { c with cause := cause ||| (BitVec.ofNat 64 coprocNr <<< causeCeShift) }

def exceptionEntryhi (e : ExceptionArgs) : Reg :=
  if t.exc3k then sext32 ((e.vaddr &&& r2k3kEntryhiVpnMask) ||| (e.vaddrAsid <<< r2k3kEntryhiAsidShift))
  else if t.r4100 then (e.vaddr &&& (entryhiRMask ||| entryhiVpn2Mask ||| 0x1800#64)) ||| e.vaddrAsid
  else if t.mmuModel = .mmu10k then (e.vaddr &&& (entryhiRMask ||| entryhiVpn2MaskR10k)) ||| e.vaddrAsid
  else (e.vaddr &&& (entryhiRMask ||| entryhiVpn2Mask)) ||| e.vaddrAsid

def noteAddress (e : ExceptionArgs) : Cop0 :=
  if e.notesAddress then
    let badvaddr := if t.is32bit then sext32 e.vaddr else e.vaddr
    if t.exc3k then
      { c with
        badvaddr := badvaddr
        context := sext32 ((c.context &&& ~~~ r2k3kContextBadvpnMask) |||
          ((e.vaddrVpn2 <<< r2k3kContextBadvpnShift) &&& r2k3kContextBadvpnMask))
        entryhi := exceptionEntryhi t e }
    else
      let contextMask := if t.r4100 then contextBadvpn2MaskR4100 else contextBadvpn2Mask
      { c with
        badvaddr := badvaddr
        context := (c.context &&& ~~~ contextMask) ||| ((e.vaddrVpn2 <<< contextBadvpn2Shift) &&& contextMask)
        xcontext := (c.xcontext &&& ~~~ xcontextRMask &&& ~~~ xcontextBadvpn2Mask) |||
          ((e.vaddrVpn2 <<< xcontextBadvpn2Shift) &&& xcontextBadvpn2Mask) |||
          (((e.vaddr >>> 62) &&& 0x3#64) <<< xcontextRShift)
        entryhi := exceptionEntryhi t e }
  else c

/-- EPC and the BD bit. "Don't set EPC if STATUS_EXL is set, for R4000 and up." -/
def noteReturn (pc : Addr) (delaySlot : Nat) : Cop0 :=
  if !t.exc3k && anyBit c.status statusExl then c
  else if delaySlot ≠ 0 then { c with epc := pc - 4#64, cause := c.cause ||| causeBd }
  else { c with epc := pc, cause := c.cause &&& ~~~ causeBd }

def handler (e : ExceptionArgs) : Addr :=
  let base := if anyBit c.status statusBev then 0xffffffffbfc00200#64 else 0xffffffff80000000#64
  let refill := e.tlb && (e.exccode == .tlbl || e.exccode == .tlbs)
  if t.exc3k then
    if refill && !anyBit e.vaddr 0x80000000#64 then base else base + 0x80#64
  else if refill && !anyBit c.status statusExl then
    if e.x64 then base + 0x80#64 else base
  else if e.exccode == .int && anyBit c.cause causeIv then base + 0x200#64
  else base + 0x180#64

/-- STATUS after an exception. An R3000 shifts the lowest six bits to the left. -/
def exceptionStatus (status : Reg) : Reg :=
  sext32 (if t.exc3k then (status &&& ~~~ 0x3f#64) + ((status &&& 0xf#64) <<< 2) else status ||| statusExl)

def enterException : Cop0 :=
  { c with
    status := exceptionStatus t c.status
    cause := sext32 c.cause
    epc := if t.is32bit then sext32 c.epc else c.epc }

/-- What mips_cpu_exception() does to coprocessor 0 before it finds the handler. -/
def noteException (e : ExceptionArgs) (coprocNr : Nat) (pc : Addr) (delaySlot : Nat) : Cop0 :=
  ((c.noteCause t e coprocNr).noteAddress t e).noteReturn t pc delaySlot

end Cop0

namespace MipsCpu
variable (t : CpuType) (cacheSize : Nat) (s : MipsCpu)

/-- The program counter that an exception notes. An exception wakes the CPU up, and
the wait instruction is not executed again. -/
def exceptionPc : Addr := if s.isHalted then s.dyn.pc + 4#64 else s.dyn.pc

def notedCop0 (e : ExceptionArgs) (coprocNr : Nat) : Cop0 :=
  s.mmu.cop0.noteException t e coprocNr s.exceptionPc s.delaySlot

/-- mips_cpu_exception(), up to its last call, of pc_to_pointers(). -/
def takeException (e : ExceptionArgs) (coprocNr : Nat) : MipsCpu :=
  let cop0 := s.notedCop0 t e coprocNr
  { s with
    dyn := { s.dyn with pc := cop0.handler t e }
    mmu := { s.mmu with cop0 := cop0.enterException t }
    delaySlot := if s.delaySlot ≠ 0 then exceptionInDelaySlot else notDelayed
    isHalted := false }

/-- `mips_cpu_exception()`. The handler is in kseg0 or kseg1. -/
def mipsCpuException (host : Addr → Option Nat) (e : ExceptionArgs) (coprocNr : Nat) : Except Exit MipsCpu := do
  let s := s.takeException t e coprocNr
  let dyn ← Cpu.pcToPointers (t.conf cacheSize) host (.ok (s.dyn.pc &&& 0x1fffffff#64)) s.dyn
  return { s with dyn }

end MipsCpu

/-! ## The handler -/

theorem anyBit_eq_false {x bits : Reg} (h : x &&& bits = 0) : anyBit x bits = false := by
  unfold anyBit
  rw [h]
  rfl

end Gxemul.Mips
