import Gxemul.Memory.Data
import Gxemul.Memory.HostPages

/- Emulated Alpha CPUs (`src/include/cpu_alpha.h`). -/
namespace Gxemul.Alpha
open Lib (ByteMem)

/-- A register (`uint64_t`). -/
abbrev Reg := BitVec 64

abbrev RegNr := BitVec 5

def alphaRa : RegNr := 26#5
def alphaZero : RegNr := 31#5

/-- The registers that an argument of an instruction can point to: `r[i]` and `f[i]`. -/
inductive RegName where
  | r (i : RegNr)
  | f (i : RegNr)
  deriving DecidableEq

/-- The part of `struct alpha_cpu` that is used here, with the dyntrans state. `ptbr`
is `pcb.apcb_ptbr`. -/
structure AlphaCpu where
  dyn : Cpu
  reg : RegName → Reg
  pcc : Reg
  loadLinkedAddr : Addr
  llFlag : Bool
  ps : Reg
  ptbr : Reg

structure AlphaMachine where
  cpus : Nat → AlphaCpu
  ncpus : Nat
  mem : Memory
  host : ByteMem

def alphaConf (dyntransCacheSize : Nat) : Conf := ⟨.alpha, BitVec.allOnes 64, dyntransCacheSize⟩

structure Io where
  env : Env
  ram : Ram
  dev : DataEnv

namespace AlphaCpu

def setReg (c : AlphaCpu) (x : RegName) (v : Reg) : AlphaCpu := { c with reg := Function.update c.reg x v }

end AlphaCpu

namespace AlphaMachine
variable (m : AlphaMachine)

def setCpu (i : Nat) (c : AlphaCpu) : AlphaMachine := { m with cpus := Function.update m.cpus i c }

/-- `*((uint64_t *)arg) = v` on CPU `i`. -/
def setReg (i : Nat) (x : RegName) (v : Reg) : AlphaMachine := m.setCpu i ((m.cpus i).setReg x v)

section
variable {m : AlphaMachine} {i j : Nat} {c : AlphaCpu} {x : RegName} {v : Reg}

@[simp] theorem setCpu_same : (m.setCpu i c).cpus i = c := Function.update_self ..

theorem setCpu_ne (h : j ≠ i) : (m.setCpu i c).cpus j = m.cpus j := Function.update_of_ne h ..

end

end AlphaMachine

end Gxemul.Alpha

/- Alpha ALU instructions (`src/cpus/cpu_alpha_instr_alu.c`, and the multiplications in
   `src/cpus/cpu_alpha_instr.c`).

   generate_alpha_misc.c compiles the source once for each instruction. A function
   has a source register, and a second source that is a register or a number. -/
namespace Gxemul.Alpha

/-- ALU_B, ALU_W, ALU_L and ALU_Q. -/
inductive AluSize where
  | b | w | l | q

def AluSize.mask : AluSize → Reg
  | .b => 0xff#64
  | .w => 0xffff#64
  | .l => 0xffffffff#64
  | .q => 0xffffffffffffffff#64

/-- ALU_AND, ALU_OR and ALU_XOR. -/
inductive AluLogic where
  | and | or | xor

/-- ALU_SLL, ALU_SRL and ALU_SRA. -/
inductive AluShift where
  | sll | srl | sra

/-- `cmps`. -/
inductive AluCmp where
  | ult | eq | ule | lt | le

/-- `cmov`, which are also the conditions of the branches. -/
inductive Cond where
  | lbs | lbc | eq | ne | lt | ge | le | gt

/-- ALU_MSK, ALU_EXT and ALU_INS. -/
inductive AluBytes where
  | msk | ext | ins

/-- A function of the ALU, as it is named in the loops of generate_alpha_misc.c. `not`
is ALU_NOT and `lo` is ALU_LO. -/
inductive AluOp where
  | addSub (scale : Nat) (sub quad : Bool)
  | logic (op : AluLogic) (not : Bool)
  | zap (not : Bool)
  | shift (op : AluShift)
  | cmp (op : AluCmp)
  | cmov (cond : Cond)
  | cmpbge
  | bytes (op : AluBytes) (size : AluSize) (lo : Bool)
  | mull
  | mulq
  | umulh

def Cond.holds (cond : Cond) (x : Reg) : Bool :=
  match cond with
  | .lbs => x &&& 1#64 != 0#64
  | .lbc => x &&& 1#64 == 0#64
  | .eq => x == 0#64
  | .ne => x != 0#64
  | .lt => decide (x.toInt < 0)
  | .ge => decide (0 ≤ x.toInt)
  | .le => decide (x.toInt ≤ 0)
  | .gt => decide (0 < x.toInt)

def AluCmp.holds (op : AluCmp) (x y : Reg) : Bool :=
  match op with
  | .ult => decide (x < y)
  | .eq => x == y
  | .ule => decide (x ≤ y)
  | .lt => decide (x.toInt < y.toInt)
  | .le => decide (x.toInt ≤ y.toInt)

/-- A number that is held in an `int32_t` in between. -/
def long (x : Reg) : Reg := (x.setWidth 32).signExtend 64

/-- `zapmask`: a byte is kept when its bit in `zapbytes` is clear. -/
def zapmask (zapbytes : Reg) : Reg :=
  (List.range 8).foldl
    (fun mask n => if zapbytes.getLsbD n then mask &&& ~~~ (0xff#64 <<< (8 * n)) else mask) (BitVec.allOnes 64)

/-- The loop of cmpbge, with `i` going down from 7. -/
def cmpbgeLoop (ra rb : Reg) : Reg :=
  ((List.range 8).foldl (fun (s : Reg × Reg × Reg) n =>
    let rc := if s.2.1.setWidth 8 ≤ s.1.setWidth 8 then s.2.2 ||| 1#64 <<< (7 - n) else s.2.2
    (s.1 >>> 8, s.2.1 >>> 8, rc)) (ra, rb, 0#64)).2.2

/-- A mask, an extraction or an insertion. `r` is in bits. -/
def AluBytes.result (op : AluBytes) (size : AluSize) (lo : Bool) (x y : Reg) : Reg :=
  let r := (y &&& 7#64).toNat * 8
  match op with
  | .ins =>
    let x := x &&& size.mask
    if lo then x <<< r else if 64 - r = 64 then 0#64 else x >>> (64 - r)
  | .ext => (if lo then x >>> r else if 64 - r = 64 then x else x <<< (64 - r)) &&& size.mask
  | .msk =>
    let mask := size.mask
    x &&& ~~~ (if lo then mask <<< r else if r = 0 then 0#64 else mask >>> (64 - r))

/-- The loop of umulh: `reshi` and `reslo` after `n` of the 64 bits of `s1`. -/
def umulhLoop (s1 s2 : Reg) : Nat → Reg × Reg
  | 0 => (0#64, 0#64)
  | n + 1 =>
    let (reshi, reslo) := umulhLoop s1 s2 n
    let lo := if s1.getLsbD (63 - n) then reslo + s2 else reslo
    let hi := if s1.getLsbD (63 - n) ∧ lo < reslo then reshi + 1#64 else reshi
    if n = 63 then (hi, lo)
    else ((hi <<< 1) + (if lo.getLsbD 63 then 1#64 else 0#64), lo <<< 1)

def AluOp.result (op : AluOp) (x y : Reg) : Option Reg :=
  match op with
  | .addSub scale sub quad =>
    let x := x * BitVec.ofNat 64 scale
    let sum := if sub then x - y else x + y
    some (if quad then sum else long sum)
  | .logic op not =>
    let y := if not then ~~~ y else y
    some (match op with
      | .and => x &&& y
      | .or => x ||| y
      | .xor => x ^^^ y)
  | .zap not => some (x &&& zapmask (if not then ~~~ y else y))
  | .shift op =>
    let n := (y &&& 63#64).toNat
    some (match op with
      | .sll => x <<< n
      | .srl => x >>> n
      | .sra => x.sshiftRight n)
  | .cmp op => some (if op.holds x y then 1#64 else 0#64)
  | .cmov cond => if cond.holds x then some y else none
  | .cmpbge => some (cmpbgeLoop x y)
  | .bytes op size lo => some (op.result size lo x y)
  | .mull => some (long (x * y))
  | .mulq => some (x * y)
  | .umulh => some (umulhLoop x y 64).1

end Gxemul.Alpha
