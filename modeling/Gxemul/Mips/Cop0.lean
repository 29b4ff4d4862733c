import Gxemul.Memory.MemoryRw

/- Coprocessor 0 of an emulated MIPS CPU (`src/include/cop0.h`,
   `src/include/cpu_mips.h`): the registers that address translation and
   exceptions use, the TLB, and what the CPU type says about them. -/
namespace Gxemul.Mips

/-- A coprocessor register (`uint64_t`). -/
abbrev Reg := BitVec 64

def indexP : Reg := 0x80000000#64
def indexMask : Reg := 0x3f#64
def r2k3kIndexMask : Reg := 0x3f00#64
def r2k3kIndexShift : Nat := 8
def randomMask : Reg := 0x3f#64
def r2k3kRandomMask : Reg := 0x3f00#64
def r2k3kRandomShift : Nat := 8
def entryloPfnMask : Reg := 0x3fffffc0#64
def entryloPfnShift : Nat := 6
def entryloCMask : Reg := 0x38#64
def entryloD : Reg := 0x04#64
def entryloV : Reg := 0x02#64
def entryloG : Reg := 0x01#64
def r2k3kEntryloPfnMask : Reg := 0xfffff000#64
def r2k3kEntryloN : Reg := 0x800#64
def r2k3kEntryloD : Reg := 0x400#64
def r2k3kEntryloV : Reg := 0x200#64
def r2k3kEntryloG : Reg := 0x100#64
def entryhiRMask : Reg := 0xc000000000000000#64
def entryhiRXkphys : Reg := 0x8000000000000000#64
def entryhiVpn2MaskR10k : Reg := 0x00000fffffffe000#64
def entryhiVpn2Mask : Reg := 0x000000ffffffe000#64
def entryhiAsid : Reg := 0xff#64
def tlbG : Reg := 0x1000#64
def r2k3kEntryhiVpnMask : Reg := 0xfffff000#64
def r2k3kEntryhiAsidMask : Reg := 0xfc0#64
def r2k3kEntryhiAsidShift : Nat := 6
def statusBev : Reg := 0x00400000#64
def statusKx : Reg := 0x80#64
def statusSx : Reg := 0x40#64
def statusUx : Reg := 0x20#64
def statusKsuMask : Reg := 0x18#64
def statusKsuShift : Nat := 3
def statusErl : Reg := 0x04#64
def statusExl : Reg := 0x02#64
def mips1SrKuCur : Reg := 0x02#64
def mips1IsolCaches : Reg := 0x10000#64

/-- `reg & bits`, as a truth value. -/
def anyBit (x bits : Reg) : Bool := x &&& bits != 0

/-- `(int64_t)(int32_t) x`. -/
def sext32 (x : Reg) : Reg := (x.setWidth 32).signExtend 64

/-- `mmu_model`. -/
inductive MmuModel where
  | mmu3k | mmu4k | mmu8k | mmu10k | mmu32 | mmu64
  deriving DecidableEq

/-- What is used of `struct mips_cpu_type_def` and of `cpu->is_32bit`. `exc3k` is
`exc_model == EXC3K`, `r4100` is `rev == MIPS_R4100`. -/
structure CpuType where
  mmuModel : MmuModel
  exc3k : Bool
  r4100 : Bool
  is32bit : Bool
  nrOfTlbEntries : Nat
  deriving DecidableEq

/-- `cpu->vaddr_mask`, as mips_cpu_new() and cpu_new() set it. -/
def CpuType.vaddrMask (t : CpuType) : Addr :=
  match t.mmuModel with
  | .mmu3k => 0xffffffff#64
  | .mmu8k => if t.is32bit then 0xffffffff#64 else 0xffffffffffffffff#64
  | .mmu10k => entryhiRMask ||| entryhiVpn2MaskR10k ||| 0x1fff#64
  | .mmu4k | .mmu32 | .mmu64 =>
    if t.is32bit then 0xffffffff#64 else entryhiRMask ||| entryhiVpn2Mask ||| 0x1fff#64

def CpuType.mode (t : CpuType) : Mode := if t.is32bit then .mode32 else .mode64

/-- `struct mips_tlb`. -/
structure MipsTlb where
  hi : Reg
  lo0 : Reg
  lo1 : Reg
  mask : Reg

structure Cop0 where
  index : Reg
  random : Reg
  entrylo0 : Reg
  entrylo1 : Reg
  context : Reg
  pagemask : Reg
  wired : Reg
  badvaddr : Reg
  entryhi : Reg
  status : Reg
  cause : Reg
  epc : Reg
  xcontext : Reg
  errorepc : Reg
  deriving DecidableEq

/-- `EXCEPTION_*`. -/
inductive Exccode where
  | int | mod | tlbl | tlbs | adel | ades | ibe | dbe | sys | bp | ri | cpu | ov | tr | vcei | fpe
  | c2e | mdmx | watch | mcheck | cacheerr | vced
  deriving DecidableEq

def Exccode.toNat : Exccode → Nat
  | .int => 0
  | .mod => 1
  | .tlbl => 2
  | .tlbs => 3
  | .adel => 4
  | .ades => 5
  | .ibe => 6
  | .dbe => 7
  | .sys => 8
  | .bp => 9
  | .ri => 10
  | .cpu => 11
  | .ov => 12
  | .tr => 13
  | .vcei => 14
  | .fpe => 15
  | .c2e => 18
  | .mdmx => 22
  | .watch => 23
  | .mcheck => 24
  | .cacheerr => 30
  | .vced => 31

end Gxemul.Mips
