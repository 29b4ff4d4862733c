import Gxemul.Dyntrans.Vph
import Gxemul.Ppc.Alu

/- The PowerPC branches (`src/cpus/cpu_ppc_instr.c`): what to_be_translated() makes of
   their instruction words, their functions, and the end of a page.

   A function returns how it leaves, before a page is looked up for the new program
   counter. `cpu->pc` is only right in its page number and in its two low bits, and the
   instruction is told by `next_ic`. -/
namespace Gxemul.Ppc

def sprLr : SprNr := 0x008#10
def sprCtr : SprNr := 0x009#10

/-- `struct ppc_instr_call`, for a branch: the function with an offset from the start of the
page, an address, or the number of an instruction in the page. -/
inductive BranchCall where
  | bclr (bo : BitVec 5) (bi31m : Nat)
  | bclr20
  | bclrL (bo : BitVec 5) (bi31m : Nat)
  | bcctr (bo : BitVec 5) (bi31m : Nat)
  | bcctrL (bo : BitVec 5) (bi31m : Nat)
  | b (ofs : Addr)
  | ba (target : Addr)
  | bc (ofs : Addr) (bo : BitVec 5) (bi31m : Nat)
  | bcl (ofs : Addr) (bo : BitVec 5) (bi31m : Nat)
  | bSamepage (ic : Nat)
  | bcSamepage (ic : Nat) (bo : BitVec 5) (bi31m : Nat)
  | bcSamepageSimple0 (ic : Nat) (bi31m : Nat)
  | bcSamepageSimple1 (ic : Nat) (bi31m : Nat)
  | bclSamepage (ic : Nat) (bo : BitVec 5) (bi31m : Nat)
  | bl (ofs : Addr) (lrOfs : Addr)
  | bla (target : Addr) (lrOfs : Addr)
  | blTrace (ofs : Addr) (lrOfs : Addr)
  | blaTrace (target : Addr) (lrOfs : Addr)
  | blSamepage (ic : Nat) (lrOfs : Addr)
  | blSamepageTrace (ic : Nat) (lrOfs : Addr)

/-- How a branch leaves: with `next_ic` as it is, with another `next_ic`, or with another
`cpu->pc` that is then looked up. -/
inductive Jump where
  | next
  | toIc (ic : Nat)
  | toPc

/-! ## Translation -/

/-- `(int32_t) x`, in a `uint64_t`. -/
def int32 (x : Addr) : Addr := (x.setWidth 32).signExtend 64

def maskWithinPage : Addr := 0xfff#64

/-- "Special case: branch within the same page". -/
def samepage (addr tmpAddr : Addr) (general : BranchCall) (samepageFunction : Nat → BranchCall) : BranchCall :=
  let newPc := addr + int32 tmpAddr
  if addr &&& ~~~ maskWithinPage = newPc &&& ~~~ maskWithinPage then
    samepageFunction ((newPc &&& maskWithinPage) >>> 2).toNat
  else general

/-- `(int64_t)(int16_t)(iword & 0xfffc)`. -/
def displacement16 (iword : Word) : Addr := ((iword &&& 0xfffc#32).setWidth 16).signExtend 64

/-- `(int64_t)(int32_t)((iword & 0x03fffffc) << 6)`, shifted back. -/
def displacement26 (iword : Word) : Addr := (((iword &&& 0x03fffffc#32) <<< 6).signExtend 64).sshiftRight 6

/-- PPC_HI6_BC. -/
def translateBc (addr : Addr) (iword : Word) : Option BranchCall :=
  let bo := iword.extractLsb' 21 5
  let bi31m := 31 - (iword.extractLsb' 16 5).toNat
  let tmpAddr := displacement16 iword
  let ofs := tmpAddr + (addr &&& 0xffc#64)
  if iword.getLsbD 1 then none
  else if iword.getLsbD 0 then
    some (samepage addr tmpAddr (.bcl ofs bo bi31m) fun ic => .bclSamepage ic bo bi31m)
  else
    some (samepage addr tmpAddr (.bc ofs bo bi31m) fun ic =>
      if bo &&& 0x14#5 = 0x04#5 then
        if bo &&& 8#5 ≠ 0#5 then .bcSamepageSimple1 ic bi31m else .bcSamepageSimple0 ic bi31m
      else .bcSamepage ic bo bi31m)

/-- PPC_HI6_B. `trace` is `show_trace_tree`. -/
def translateB (trace : Bool) (addr : Addr) (iword : Word) : Option BranchCall :=
  let aaBit := iword.getLsbD 1
  let lkBit := iword.getLsbD 0
  let tmpAddr := displacement26 iword
  let ofs := tmpAddr + (addr &&& 0xffc#64)
  let lrOfs := (addr &&& 0xffc#64) + 4#64
  if aaBit then
    some (if lkBit then if trace then .blaTrace tmpAddr lrOfs else .bla tmpAddr lrOfs else .ba tmpAddr)
  else if lkBit then
    some (if trace then samepage addr tmpAddr (.blTrace ofs lrOfs) fun ic => .blSamepageTrace ic lrOfs
      else samepage addr tmpAddr (.bl ofs lrOfs) fun ic => .blSamepage ic lrOfs)
  else some (samepage addr tmpAddr (.b ofs) .bSamepage)

/-- PPC_19_BCLR. -/
def translateBclr (trace : Bool) (iword : Word) : Option BranchCall :=
  let bo := iword.extractLsb' 21 5
  let bi31m := 31 - (iword.extractLsb' 16 5).toNat
  some (if iword.getLsbD 0 then .bclrL bo bi31m
    else if !trace && bo &&& 0x14#5 == 0x14#5 then .bclr20
    else .bclr bo bi31m)

/-- PPC_19_BCCTR. -/
def translateBcctr (iword : Word) : Option BranchCall :=
  let bo := iword.extractLsb' 21 5
  let bi31m := 31 - (iword.extractLsb' 16 5).toNat
  if bo &&& 4#5 = 0#5 then none
  else some (if iword.getLsbD 0 then .bcctrL bo bi31m else .bcctr bo bi31m)

/-- What to_be_translated() makes of the word of a branch at `addr`. -/
def translateBranch (trace : Bool) (addr : Addr) (iword : Word) : Option BranchCall :=
  match iword.extractLsb' 26 6 with
  | 0x10#6 => translateBc addr iword
  | 0x12#6 => translateB trace addr iword
  | 0x13#6 =>
    if iword.extractLsb' 1 10 = 16#10 then translateBclr trace iword
    else if iword.extractLsb' 1 10 = 528#10 then translateBcctr iword
    else none
  | _ => none

/-! ## Functions -/

namespace PpcCpu
variable (lowPc : Nat) (c : PpcCpu)

def setPc (pc : Addr) : PpcCpu := { c with pc := pc }

/-- `cpu->pc & ~((PPC_IC_ENTRIES_PER_PAGE-1) << PPC_INSTR_ALIGNMENT_SHIFT)`. -/
def pageBase : Addr := c.pc &&& ~~~ 0xffc#64

/-- `if (!(bo & 4)) cpu->cd.ppc.spr[SPR_CTR] --;`. -/
def countDown (bo : BitVec 5) : PpcCpu :=
  if bo &&& 4#5 = 0#5 then c.setSpr sprCtr (c.spr sprCtr - 1#64) else c

def ctrOk (bo : BitVec 5) : Bool :=
  bo.getLsbD 2 || (decide (c.modeUint (c.spr sprCtr) = 0#64) == bo.getLsbD 1)

def condOk (bo : BitVec 5) (bi31m : Nat) : Bool := bo.getLsbD 4 || (bo.getLsbD 3 == c.cr.getLsbD bi31m)

/-- "Calculate return PC", for the instruction after this one. -/
def linkNext : PpcCpu := c.setSpr sprLr (c.pageBase + (BitVec.ofNat 64 (lowPc + 1) <<< 2))

/-- The page number of the old program counter is compared with that of the new one. -/
def jump (addr : Addr) : PpcCpu × Jump :=
  let oldPc := c.pc
  let c := c.setPc (addr &&& ~~~ 3#64)
  if oldPc &&& ~~~ maskWithinPage = c.pc &&& ~~~ maskWithinPage then (c, .toIc ((c.pc &&& maskWithinPage) >>> 2).toNat)
  else (c, .toPc)

/-- `X(bclr)`. -/
def bclr (bo : BitVec 5) (bi31m : Nat) : PpcCpu × Jump :=
  let addr := c.modeUint (c.spr sprLr)
  let c := c.countDown bo
  if c.ctrOk bo && c.condOk bo bi31m then c.jump addr else (c, .next)

/-- `X(bclr_20)`. -/
def bclr20 : PpcCpu × Jump := (c.setPc (c.spr sprLr), .toPc)

/-- `X(bclr_l)`. -/
def bclrL (bo : BitVec 5) (bi31m : Nat) : PpcCpu × Jump :=
  let addr := c.modeUint (c.spr sprLr)
  let c := c.countDown bo
  let ok := c.ctrOk bo && c.condOk bo bi31m
  let c := c.linkNext lowPc
  if ok then c.jump addr else (c, .next)

/-- `X(bcctr)`. -/
def bcctr (bo : BitVec 5) (bi31m : Nat) : PpcCpu × Jump :=
  let addr := c.modeUint (c.spr sprCtr)
  if c.condOk bo bi31m then c.jump addr else (c, .next)

/-- `X(bcctr_l)`. -/
def bcctrL (bo : BitVec 5) (bi31m : Nat) : PpcCpu × Jump :=
  let addr := c.modeUint (c.spr sprCtr)
  let ok := c.condOk bo bi31m
  let c := c.linkNext lowPc
  if ok then c.jump addr else (c, .next)

/-- `X(b)`. -/
def b (ofs : Addr) : PpcCpu × Jump := (c.setPc (c.pageBase + int32 ofs), .toPc)

/-- `X(ba)`. -/
def ba (target : Addr) : PpcCpu × Jump := (c.setPc (int32 target), .toPc)

/-- `X(bc)`. -/
def bc (ofs : Addr) (bo : BitVec 5) (bi31m : Nat) : PpcCpu × Jump :=
  let c := c.countDown bo
  if c.ctrOk bo && c.condOk bo bi31m then c.b ofs else (c, .next)

/-- `X(bcl)`. -/
def bcl (ofs : Addr) (bo : BitVec 5) (bi31m : Nat) : PpcCpu × Jump :=
  let c := c.linkNext lowPc
  let c := c.countDown bo
  if c.ctrOk bo && c.condOk bo bi31m then c.b ofs else (c, .next)

/-- `X(bc_samepage)`. -/
def bcSamepage (ic : Nat) (bo : BitVec 5) (bi31m : Nat) : PpcCpu × Jump :=
  let c := c.countDown bo
  (c, if c.ctrOk bo && c.condOk bo bi31m then .toIc ic else .next)

/-- `X(bc_samepage_simple0)`. -/
def bcSamepageSimple0 (ic bi31m : Nat) : PpcCpu × Jump := (c, if c.cr.getLsbD bi31m then .next else .toIc ic)

/-- `X(bc_samepage_simple1)`. -/
def bcSamepageSimple1 (ic bi31m : Nat) : PpcCpu × Jump := (c, if c.cr.getLsbD bi31m then .toIc ic else .next)

/-- `X(bcl_samepage)`. -/
def bclSamepage (ic : Nat) (bo : BitVec 5) (bi31m : Nat) : PpcCpu × Jump :=
  let c := c.linkNext lowPc
  let c := c.countDown bo
  (c, if c.ctrOk bo && c.condOk bo bi31m then .toIc ic else .next)

/-- `X(bl)`. -/
def bl (ofs lrOfs : Addr) : PpcCpu × Jump :=
  let c := c.setPc c.pageBase
  let c := c.setSpr sprLr (c.pc + lrOfs)
  (c.setPc (c.pc + int32 ofs), .toPc)

/-- `X(bla)`. -/
def bla (target lrOfs : Addr) : PpcCpu × Jump :=
  let c := c.setSpr sprLr (c.pageBase + lrOfs)
  (c.setPc (int32 target), .toPc)

/-- `X(bl_trace)`. -/
def blTrace (ofs lrOfs : Addr) : PpcCpu × Jump :=
  let c := c.setSpr sprLr (c.pageBase + lrOfs)
  (c.setPc (c.pageBase + int32 ofs), .toPc)

/-- `X(bl_samepage)`. -/
def blSamepage (ic : Nat) (lrOfs : Addr) : PpcCpu × Jump := (c.setSpr sprLr (c.pageBase + lrOfs), .toIc ic)

/-- `X(bl_samepage_trace)`. -/
def blSamepageTrace (ic : Nat) (lrOfs : Addr) : PpcCpu × Jump :=
  let c := c.setSpr sprLr (c.pageBase + lrOfs)
  (c.setPc (c.pageBase + (BitVec.ofNat 64 ic <<< 2)), .toIc ic)

/-- `X(end_of_page)`. -/
def endOfPage : PpcCpu × Jump := (c.setPc (c.pageBase + 0x1000#64), .toPc)

end PpcCpu

/-- Call the function at `lowPc`. -/
def BranchCall.call (lowPc : Nat) (c : PpcCpu) : BranchCall → PpcCpu × Jump
  | bclr bo bi31m => c.bclr bo bi31m
  | bclr20 => c.bclr20
  | bclrL bo bi31m => c.bclrL lowPc bo bi31m
  | bcctr bo bi31m => c.bcctr bo bi31m
  | bcctrL bo bi31m => c.bcctrL lowPc bo bi31m
  | b ofs => c.b ofs
  | ba target => c.ba target
  | bc ofs bo bi31m => c.bc ofs bo bi31m
  | bcl ofs bo bi31m => c.bcl lowPc ofs bo bi31m
  | bSamepage ic => (c, .toIc ic)
  | bcSamepage ic bo bi31m => c.bcSamepage ic bo bi31m
  | bcSamepageSimple0 ic bi31m => c.bcSamepageSimple0 ic bi31m
  | bcSamepageSimple1 ic bi31m => c.bcSamepageSimple1 ic bi31m
  | bclSamepage ic bo bi31m => c.bclSamepage lowPc ic bo bi31m
  | bl ofs lrOfs => c.bl ofs lrOfs
  | bla target lrOfs | blaTrace target lrOfs => c.bla target lrOfs
  | blTrace ofs lrOfs => c.blTrace ofs lrOfs
  | blSamepage ic lrOfs => c.blSamepage ic lrOfs
  | blSamepageTrace ic lrOfs => c.blSamepageTrace ic lrOfs

/-- The state in which execution goes on, and the address of the instruction: that of `next_ic`, or the
program counter. Behind the last instruction of a page is end_of_page(). -/
def PpcCpu.goOn (lowPc : Nat) (r : PpcCpu × Jump) : PpcCpu × Addr :=
  match r.2 with
  | .next =>
    if lowPc + 1 < 1024 then (r.1, r.1.pageBase + (BitVec.ofNat 64 (lowPc + 1) <<< 2))
    else (r.1.endOfPage.1, r.1.endOfPage.1.pc)
  | .toIc ic => (r.1, r.1.pageBase + (BitVec.ofNat 64 ic <<< 2))
  | .toPc => (r.1, r.1.pc)

end Gxemul.Ppc
