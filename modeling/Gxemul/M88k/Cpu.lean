import Gxemul.Dyntrans.Vph

/- An emulated M88K CPU: its registers and m88k_exception() (`src/include/cpu_m88k.h`,
   `src/cpus/cpu_m88k.c`).

   The general registers, the scratch register and the control registers are consecutive
   words of `struct m88k_cpu`, and instructions have pointers to them. -/
namespace Gxemul.M88k

/-- A register (`uint32_t`). -/
abbrev Word := BitVec 32

def psrMode : Word := 0x80000000#32
def psrBo : Word := 0x40000000#32
def psrC : Word := 0x10000000#32
def psrSfd1 : Word := 0x00000008#32
def psrMxm : Word := 0x00000004#32
def psrInd : Word := 0x00000002#32
def psrSfrz : Word := 0x00000001#32

def nipV : Word := 0x00000002#32
def xipV : Word := 0x00000002#32
def xipE : Word := 0x00000001#32

def crPsr : Nat := 1
def crEpsr : Nat := 2
def crSsbr : Nat := 3
def crSxip : Nat := 4
def crSnip : Nat := 5
def crSfip : Nat := 6
def crVbr : Nat := 7
def crDmt0 : Nat := 8
def crDmd0 : Nat := 9
def crDma0 : Nat := 10
def crDmt1 : Nat := 11
def crDmd1 : Nat := 12
def crDma1 : Nat := 13
def crDmt2 : Nat := 14
def crDmd2 : Nat := 15
def crDma2 : Nat := 16
def crSr0 : Nat := 17
def crSr3 : Nat := 20

def fpecrFunimp : Word := 0x40#32

def exceptionReset : Nat := 0
def exceptionInterrupt : Nat := 1
def exceptionInstructionAccess : Nat := 2
def exceptionDataAccess : Nat := 3
def exceptionIllegalIntegerDivide : Nat := 8
def exceptionError : Nat := 10
def exceptionSfu1Precise : Nat := 114
def exceptionUserTrapsStart : Nat := 128

def notDelayed : Nat := 0
def exceptionInDelaySlot : Nat := 8

/-- A pointer to a register in `struct m88k_cpu`. There are 33 general registers. -/
inductive RegPtr where
  | r (n : Nat)
  | zeroScratch
  | cr (n : Nat)
  deriving DecidableEq

def RegPtr.next : RegPtr → RegPtr
  | .r n => if n = 32 then .zeroScratch else .r (n + 1)
  | .zeroScratch => .cr 0
  | .cr n => .cr (n + 1)

/-- The part of `struct m88k_cpu` that is used here, with `cpu->pc`, `cpu->delay_slot`,
`cpu->byte_order` and `cpu->running`. -/
structure M88kCpu where
  bigEndian : Bool
  pc : Addr
  delaySlot : Nat
  delayTarget : Word
  regs : RegPtr → Word
  fpecr : Word
  dmt : Bool → Word
  dmd : Bool → Word
  dma : Bool → Word
  running : Bool
  /-- `running` of the other CPUs of the machine. -/
  othersRunning : Bool

namespace M88kCpu
variable (c : M88kCpu)

/-- All registers zero, as after `memset()`, in supervisor mode. -/
def zero : M88kCpu where
  bigEndian := true
  pc := 0#64
  delaySlot := notDelayed
  delayTarget := 0#32
  regs := Function.update (fun _ => 0#32) (.cr crPsr) psrMode
  fpecr := 0#32
  dmt := fun _ => 0#32
  dmd := fun _ => 0#32
  dma := fun _ => 0#32
  running := true
  othersRunning := true

def r (n : Nat) : Word := c.regs (.r n)

def cr (n : Nat) : Word := c.regs (.cr n)

/-- `reg(p) = value`. -/
def set (p : RegPtr) (value : Word) : M88kCpu := { c with regs := Function.update c.regs p value }

def setCr (n : Nat) (value : Word) : M88kCpu := c.set (.cr n) value

def synchPc (lowPc : Nat) : M88kCpu :=
  { c with pc := (c.pc &&& ~~~ 0xffc#64) + (BitVec.ofNat 64 lowPc <<< Arch.m88k.instrAlignmentShift) }

/-- `m88k_stcr()`, but for the invalidation of the translation caches when the mode changes. -/
def stcr (value : Word) (n : Nat) : M88kCpu :=
  if n = crPsr then
    if (!c.bigEndian && value &&& psrBo == 0#32) || (c.bigEndian && value &&& psrBo != 0#32) then
      { c with running := false }
    else if value &&& psrMxm ≠ 0#32 then { c with running := false }
    else c.setCr n value
  else if (crEpsr ≤ n ∧ n ≤ crVbr) ∨ n = crDmt0 ∨ n = crDmt1 ∨ n = crDmt2 ∨ (crSr0 ≤ n ∧ n ≤ crSr3) then
    c.setCr n value
  else { c with running := false }

def updateShadowRegs (vector : Nat) : M88kCpu :=
  let c := c.setCr crSsbr 0#32
  let c := c.setCr crSxip (c.pc.setWidth 32 ||| xipV)
  let c :=
    if c.delaySlot ≠ 0 then
      if vector = exceptionDataAccess then
        let c := c.setCr crSnip (c.delayTarget ||| nipV)
        c.setCr crSfip (c.cr crSnip + 4#32)
      else if vector = exceptionInstructionAccess then
        let c := c.setCr crSnip (c.delayTarget ||| nipV)
        c.setCr crSfip 0#32
      else
        let c := c.setCr crSnip ((c.pc + 4#64).setWidth 32 ||| nipV)
        c.setCr crSfip (c.delayTarget ||| nipV)
    else
      let c := c.setCr crSnip ((c.pc + 4#64).setWidth 32 ||| nipV)
      c.setCr crSfip (c.cr crSnip + 4#32)
  if vector = exceptionInstructionAccess then c.setCr crSxip (c.cr crSxip ||| xipE) else c

def noTransactions : M88kCpu :=
  (((((((((c.setCr crDmt0 0#32).setCr crDmd0 0#32).setCr crDma0 0#32).setCr crDmt1 0#32).setCr crDmd1 0#32).setCr
    crDma1 0#32).setCr crDmt2 0#32).setCr crDmd2 0#32).setCr crDma2 0#32)

def transactions : M88kCpu :=
  (((((((((c.setCr crDmt0 (c.dmt false)).setCr crDmd0 (c.dmd false)).setCr crDma0 (c.dma false)).setCr crDmt1
    (c.dmt true)).setCr crDmd1 (c.dmd true)).setCr crDma1 (c.dma true)).setCr crDmt2 0#32).setCr crDmd2 0#32).setCr
    crDma2 0#32)

/-- "Vector-specific handling". -/
def handleVector (vector : Nat) : M88kCpu :=
  if vector = exceptionReset then { c with running := false, othersRunning := false }
  else if vector = exceptionInterrupt then
    let c := c.setCr crSnip (c.cr crSnip - 4#32)
    c.setCr crSfip (c.cr crSfip - 4#32)
  else if vector = exceptionInstructionAccess then
    if hasFlag c.delaySlot exceptionInDelaySlot then c else (c.setCr crSnip 0#32).setCr crSfip 0#32
  else if vector = exceptionDataAccess then c.transactions
  else { c with running := false }

/-- The vectors that `m88k_exception()` implements. -/
def implemented (vector : Nat) : Bool := vector ≤ exceptionDataAccess

/-- `m88k_exception()`, up to the call of `m88k_pc_to_pointers()`. -/
def exception (vector : Nat) (isTrap : Bool) : M88kCpu :=
  if vector < exceptionUserTrapsStart ∧ implemented vector = false then
    { c with running := false, othersRunning := false }
  else
    let frozen := c.cr crPsr &&& psrSfrz != 0#32
    let vector := if frozen && !isTrap then exceptionError else vector
    let c := if frozen then c else c.setCr crEpsr (c.cr crPsr)
    let c := c.stcr (c.cr crPsr ||| psrSfrz ||| psrInd ||| psrSfd1 ||| psrMode) crPsr
    let c := if frozen then c else c.updateShadowRegs vector
    let c := { c with
      pc := (c.cr crVbr + BitVec.ofNat 32 (8 * vector)).setWidth 64
      delaySlot := if c.delaySlot ≠ 0 then exceptionInDelaySlot else notDelayed }
    let c := c.noTransactions
    if vector < exceptionUserTrapsStart then c.handleVector vector else c

section
variable {c} {p q : RegPtr} {v : Word}

@[simp] theorem regs_set_same : (c.set p v).regs p = v := Function.update_self ..

theorem regs_set_of_ne (h : q ≠ p) : (c.set p v).regs q = c.regs q := Function.update_of_ne h ..

end

/-! ## Exceptions keep the general registers -/

section
variable {c} {n vector : Nat} {isTrap : Bool}

@[simp] theorem r_setCr (m : Nat) (v : Word) : (c.setCr m v).regs (.r n) = c.regs (.r n) :=
  regs_set_of_ne RegPtr.noConfusion

@[simp] theorem r_stcr (v : Word) (m : Nat) : (c.stcr v m).regs (.r n) = c.regs (.r n) := by
  unfold stcr
  split_ifs
  · rfl
  · rfl
  · exact r_setCr m v
  · exact r_setCr m v
  · rfl

theorem r_updateShadowRegs : (c.updateShadowRegs vector).regs (.r n) = c.regs (.r n) := by
  unfold updateShadowRegs
  dsimp only
  split_ifs <;> simp

theorem r_noTransactions : c.noTransactions.regs (.r n) = c.regs (.r n) := by simp [noTransactions]

theorem r_transactions : c.transactions.regs (.r n) = c.regs (.r n) := by simp [transactions]

theorem r_handleVector : (c.handleVector vector).regs (.r n) = c.regs (.r n) := by
  unfold handleVector
  split_ifs
  · rfl
  · simp
  · rfl
  · simp
  · exact r_transactions
  · rfl

theorem regs_exception : (c.exception vector isTrap).regs (.r n) = c.regs (.r n) := by
  unfold exception
  dsimp only
  split_ifs <;> simp [r_handleVector, r_noTransactions, r_updateShadowRegs]

end

end M88kCpu

end Gxemul.M88k
