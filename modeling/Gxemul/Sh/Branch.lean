import Gxemul.Sh.Access

/- The SuperH branches (`src/cpus/cpu_sh_instr.c`): what to_be_translated() makes of their
   instruction words, their functions, and the delay slot behind the last instruction of
   a page.

   A function is given the instruction in its delay slot, as the function that is called
   for it. It returns how it leaves, before a page is looked up for the new program
   counter. `cpu->pc` is only right in its page number and in bit 0, and the instruction is
   told by `next_ic`. -/
namespace Gxemul.Sh

/-- `struct sh_instr_call`, for a branch: the function with an offset from the start of the
page, the number of an instruction in the page, or a register. -/
inductive BranchCall where
  | bt (ofs : Addr)
  | bf (ofs : Addr)
  | btSamepage (ic : Nat)
  | bfSamepage (ic : Nat)
  | btS (ofs : Addr)
  | bfS (ofs : Addr)
  | btSSamepage (ic : Nat)
  | bfSSamepage (ic : Nat)
  | bra (ofs : Addr)
  | braSamepage (ic : Nat)
  | bsr (ofs : Addr)
  | bsrTrace (ofs : Addr)
  | bsrSamepage (ic : Nat)
  | brafRn (ofs : Addr) (n : BitVec 4)
  | bsrfRn (ofs : Addr) (n : BitVec 4)
  | bsrfRnTrace (ofs : Addr) (n : BitVec 4)
  | jmpRn (n : BitVec 4)
  | jmpRnTrace (n : BitVec 4)
  | jsrRn (n : BitVec 4) (ofs : Addr)
  | jsrRnTrace (n : BitVec 4) (ofs : Addr)
  | rts
  | rtsTrace

/-- How a branch leaves: with `next_ic` as it is, with `next_ic ++`, with another
`next_ic`, or with another `cpu->pc` that is then looked up. `cancelled` is an exception in
the delay slot. -/
inductive Jump where
  | next
  | skip
  | toIc (ic : Nat)
  | toPc (pc : Addr)
  | cancelled

/-! ## Translation -/

/-- `addr & ((SH_IC_ENTRIES_PER_PAGE-1) << SH_INSTR_ALIGNMENT_SHIFT) & ~1`. -/
def pageOffset (addr : Word) : Word := addr &&& 0xffe#32 &&& ~~~ 1#32

/-- "Displacement from beginning of page", for an instruction with 8 bits. The sum is
unsigned. -/
def displacement8 (addr : Word) (lo8 : BitVec 8) : Addr :=
  (lo8.signExtend 32 * 2#32 + pageOffset addr + 4#32).setWidth 64

/-- The offset of the target of bra and bsr, as an `int32_t`. -/
def displacement12 (addr : Word) (iword : BitVec 16) : Addr :=
  (pageOffset addr + 4#32 + (((iword &&& 0xfff#16) <<< 4).signExtend 32).sshiftRight 3).signExtend 64

/-- "Samepage branches". -/
def samepage (addr : Word) (ofs : Addr) (general : BranchCall) (samepageFunction : Nat → BranchCall) : BranchCall :=
  if ofs < 0x1000#64 ∧ addr &&& 0xfff#32 < 0xffe#32 then
    samepageFunction (ofs >>> Arch.sh.instrAlignmentShift).toNat
  else general

/-- What to_be_translated() makes of the word of a branch at `addr`. `trace` is
`show_trace_tree`. -/
def translateBranch (trace : Bool) (addr : Word) (iword : BitVec 16) : Option BranchCall :=
  let r8 := iword.extractLsb' 8 4
  let lo8 := iword.extractLsb' 0 8
  match iword.extractLsb' 12 4 with
  | 0x0#4 =>
    if iword = 0x000b#16 then some (if trace then .rtsTrace else .rts)
    else if lo8 = 0x03#8 then
      let ofs := (pageOffset addr + 4#32).signExtend 64
      some (if trace then .bsrfRnTrace ofs r8 else .bsrfRn ofs r8)
    else if lo8 = 0x23#8 then some (.brafRn ((pageOffset addr + 4#32).signExtend 64) r8)
    else none
  | 0x4#4 =>
    let ofs := ((addr &&& 0xffe#32) + 4#32).setWidth 64
    if lo8 = 0x0b#8 then some (if trace then .jsrRnTrace r8 ofs else .jsrRn r8 ofs)
    else if lo8 = 0x2b#8 then some (if trace then .jmpRnTrace r8 else .jmpRn r8)
    else none
  | 0x8#4 =>
    let ofs := displacement8 addr lo8
    if r8 = 0x9#4 then some (samepage addr ofs (.bt ofs) .btSamepage)
    else if r8 = 0xb#4 then some (samepage addr ofs (.bf ofs) .bfSamepage)
    else if r8 = 0xd#4 then some (samepage addr ofs (.btS ofs) .btSSamepage)
    else if r8 = 0xf#4 then some (samepage addr ofs (.bfS ofs) .bfSSamepage)
    else none
  | 0xa#4 => some (samepage addr (displacement12 addr iword) (.bra (displacement12 addr iword)) .braSamepage)
  | 0xb#4 =>
    if trace then some (.bsrTrace (displacement12 addr iword))
    else some (samepage addr (displacement12 addr iword) (.bsr (displacement12 addr iword)) .bsrSamepage)
  | _ => none

/-! ## Functions -/

namespace ShMachine
variable (slot : ShMachine → Except Exit ShMachine) (lowPc : Nat) (s : ShMachine)

def setDelaySlot (d : Nat) : ShMachine := { s with cpu := { s.cpu with delaySlot := d } }

def setPc (pc : Addr) : ShMachine := { s with cpu := s.cpu.setPc pc }

/-- `cpu->pc & ~((SH_IC_ENTRIES_PER_PAGE-1) << SH_INSTR_ALIGNMENT_SHIFT)`. -/
def pageBase : Addr := s.cpu.pc &&& ~~~ 0xffe#64

/-- An address in a variable of type `MODE_int_t`. -/
def pageTarget (ofs : Addr) : Word := s.pageBase.setWidth 32 + ofs.setWidth 32

/-- The SR_T bit. -/
def tBit : Bool := anyBit (s.reg .sr) shSrT

/-- The instruction in the delay slot, and `next` if it has caused no exception. -/
def delayed (next : ShMachine → ShMachine × Jump) : Except Exit (ShMachine × Jump) := do
  let s ← slot (s.setDelaySlot toBeDelayed)
  return if hasFlag s.cpu.delaySlot exceptionInDelaySlot then (s.setDelaySlot notDelayed, .cancelled)
    else next (s.setDelaySlot notDelayed)

def conditional (taken : Bool) (jump : Jump) : Except Exit (ShMachine × Jump) :=
  .ok (s, if taken then jump else .next)

/-- `cpu->pc &= ~...; cpu->pc += ic->arg[0];`. -/
def toOffset (ofs : Addr) : Jump := .toPc (s.pageBase + ofs)

def bt (ofs : Addr) : Except Exit (ShMachine × Jump) := s.conditional s.tBit (s.toOffset ofs)
def bf (ofs : Addr) : Except Exit (ShMachine × Jump) := s.conditional (!s.tBit) (s.toOffset ofs)
def btSamepage (ic : Nat) : Except Exit (ShMachine × Jump) := s.conditional s.tBit (.toIc ic)
def bfSamepage (ic : Nat) : Except Exit (ShMachine × Jump) := s.conditional (!s.tBit) (.toIc ic)

/-- A branch to `target`, which has been found before. -/
def toTarget (target : Word) : Jump := .toPc (target.signExtend 64)

def conditionalDelayed (taken : Bool) (jump : Jump) : Except Exit (ShMachine × Jump) :=
  s.delayed slot fun s => (s, if taken then jump else .skip)

def btS (ofs : Addr) : Except Exit (ShMachine × Jump) :=
  s.conditionalDelayed slot s.tBit (toTarget (s.pageTarget ofs))

def bfS (ofs : Addr) : Except Exit (ShMachine × Jump) :=
  s.conditionalDelayed slot (!s.tBit) (toTarget (s.pageTarget ofs))

def btSSamepage (ic : Nat) : Except Exit (ShMachine × Jump) := s.conditionalDelayed slot s.tBit (.toIc ic)
def bfSSamepage (ic : Nat) : Except Exit (ShMachine × Jump) := s.conditionalDelayed slot (!s.tBit) (.toIc ic)

def bra (ofs : Addr) : Except Exit (ShMachine × Jump) :=
  s.delayed slot fun t => (t, toTarget (s.pageTarget ofs))

def braSamepage (ic : Nat) : Except Exit (ShMachine × Jump) := s.delayed slot fun t => (t, .toIc ic)

/-- The functions that set PR after the delay slot, to the address that `SYNCH_PC` has found. -/
def linked (jump : Jump) : Except Exit (ShMachine × Jump) :=
  let s := s.synchPc lowPc
  s.delayed slot fun t => (t.setReg .pr (s.cpu.pc.setWidth 32 + 4#32), jump)

def bsr (ofs : Addr) : Except Exit (ShMachine × Jump) := s.linked slot lowPc (toTarget (s.pageTarget ofs))
def bsrTrace (ofs : Addr) : Except Exit (ShMachine × Jump) := s.bsr slot lowPc ofs
def bsrSamepage (ic : Nat) : Except Exit (ShMachine × Jump) := s.linked slot lowPc (.toIc ic)

def brafRn (ofs : Addr) (n : BitVec 4) : Except Exit (ShMachine × Jump) :=
  s.delayed slot fun t => (t, toTarget (s.pageTarget (ofs + (s.reg (.r n)).setWidth 64)))

def bsrfRn (ofs : Addr) (n : BitVec 4) : Except Exit (ShMachine × Jump) :=
  s.linked slot lowPc (toTarget (s.pageTarget (ofs + (s.reg (.r n)).setWidth 64)))

def bsrfRnTrace (ofs : Addr) (n : BitVec 4) : Except Exit (ShMachine × Jump) := s.bsrfRn slot lowPc ofs n

def jmpRn (n : BitVec 4) : Except Exit (ShMachine × Jump) := s.delayed slot fun t => (t, toTarget (s.reg (.r n)))
def jmpRnTrace (n : BitVec 4) : Except Exit (ShMachine × Jump) := s.jmpRn slot n

/-- `X(jsr_rn)`. PR is set after the delay slot, with an exception or without. -/
def jsrRn (n : BitVec 4) (ofs : Addr) : Except Exit (ShMachine × Jump) := do
  let target := s.reg (.r n)
  let retaddr := s.pageTarget ofs
  let (t, jump) ← s.delayed slot fun t => (t, toTarget target)
  return (t.setReg .pr retaddr, jump)

def jsrRnTrace (n : BitVec 4) (ofs : Addr) : Except Exit (ShMachine × Jump) := s.jsrRn slot n ofs
def rts : Except Exit (ShMachine × Jump) := s.delayed slot fun t => (t, toTarget (s.reg .pr))
def rtsTrace : Except Exit (ShMachine × Jump) := s.rts slot

/-- `ic->f(cpu, ic)`. -/
def branch : BranchCall → Except Exit (ShMachine × Jump)
  | .bt ofs => s.bt ofs
  | .bf ofs => s.bf ofs
  | .btSamepage ic => s.btSamepage ic
  | .bfSamepage ic => s.bfSamepage ic
  | .btS ofs => s.btS slot ofs
  | .bfS ofs => s.bfS slot ofs
  | .btSSamepage ic => s.btSSamepage slot ic
  | .bfSSamepage ic => s.bfSSamepage slot ic
  | .bra ofs => s.bra slot ofs
  | .braSamepage ic => s.braSamepage slot ic
  | .bsr ofs => s.bsr slot lowPc ofs
  | .bsrTrace ofs => s.bsrTrace slot lowPc ofs
  | .bsrSamepage ic => s.bsrSamepage slot lowPc ic
  | .brafRn ofs n => s.brafRn slot ofs n
  | .bsrfRn ofs n => s.bsrfRn slot lowPc ofs n
  | .bsrfRnTrace ofs n => s.bsrfRnTrace slot lowPc ofs n
  | .jmpRn n => s.jmpRn slot n
  | .jmpRnTrace n => s.jmpRnTrace slot n
  | .jsrRn n ofs => s.jsrRn slot n ofs
  | .jsrRnTrace n ofs => s.jsrRnTrace slot n ofs
  | .rts => s.rts slot
  | .rtsTrace => s.rtsTrace slot

/-! ## Pages -/

variable (c : ShConf) (io : ShIo)

def leave : Jump → Except Exit ShMachine
  | .next | .cancelled => .ok s
  | .skip => .ok { s with dyn := { s.dyn with nextIc := s.dyn.nextIc + 1 } }
  | .toIc ic => .ok { s with dyn := { s.dyn with nextIc := ic } }
  | .toPc pc => (s.setPc pc).pcToPointers c io

/-- `X(end_of_page)`. `toBeTranslated` is the call for the first instruction of the next page, in a delay slot. -/
def endOfPage (toBeTranslated : ShMachine → Except Exit ShMachine) : Except Exit ShMachine := do
  let s ← (s.setPc (s.pageBase + 0x1000#64)).pcToPointers c io
  if s.cpu.delaySlot = notDelayed ∨ s.cpu.delaySlot = exceptionInDelaySlot then return s
  else
    let s ← toBeTranslated s
    s.pcToPointers c io

/-- `ic[1].f(cpu, ic+1)`: `ics` are the functions for the instructions of the page. -/
def callNext (ics : Nat → ShMachine → Except Exit ShMachine) (toBeTranslated : ShMachine → Except Exit ShMachine) :
    Except Exit ShMachine :=
  if lowPc + 1 < Arch.sh.icEntriesPerPage then ics (lowPc + 1) s else s.endOfPage c io toBeTranslated

end ShMachine

end Gxemul.Sh
