import Gxemul.Lib.Bytes
import Gxemul.Lib.Masks
import Gxemul.M88k.LoadStore
import Gxemul.Mips.LoadStoreAgree

/- The fast and the slow functions of M88K loads and stores, where the tables map the page to
   the bytes that memory_rw() accesses.

   They do the same, and what was stored is loaded again, except for pairs of registers in
   little endian byte order, whose words the fast functions exchange, and for loads into r0, where
   the slow functions stop the CPU. -/
namespace Gxemul.M88k

open Lib
open Mips (LsSize)

/-! ## Instructions -/

/-- What to_be_translated() puts into `arg[]`. -/
def LsForm.args (f : LsForm) (d s1 s2 : BitVec 5) (imm16 : BitVec 16) (lowPc : Nat) : LsCall where
  arg0 := .reg (if d = 0#5 ∧ f.store = false then .zeroScratch else .r d.toNat)
  arg1 := .r s1.toNat
  arg2 := if f.regofs then .inl (.r s2.toNat) else .inr (imm16.setWidth 32)
  lowPc := lowPc

def wordOf (be : Bool) (host : ByteMem) (p : Nat) : Word := BitVec.ofNat 32 (value be (host.read p 4))

def LsForm.part (f : LsForm) (x : Word) : Word :=
  match f.size with
  | .ls1 => if f.signed then (x.setWidth 8).signExtend 32 else (x.setWidth 8).setWidth 32
  | .ls2 => if f.signed then (x.setWidth 16).signExtend 32 else (x.setWidth 16).setWidth 32
  | _ => x

/-! ## Registers and transactions -/

structure SameCpu (c c' : M88kCpu) : Prop where
  regs : c'.regs = c.regs
  bigEndian : c'.bigEndian = c.bigEndian
  running : c'.running = c.running
  pc : c'.pc = c.pc

namespace SameCpu
variable {c c' : M88kCpu} {i : Bool} {v : Word}

theorem refl (c : M88kCpu) : SameCpu c c := ⟨rfl, rfl, rfl, rfl⟩

theorem setDmt (h : SameCpu c c') : SameCpu c (c'.setDmt i v) := ⟨h.regs, h.bigEndian, h.running, h.pc⟩

theorem setDmd (h : SameCpu c c') : SameCpu c (c'.setDmd i v) := ⟨h.regs, h.bigEndian, h.running, h.pc⟩

theorem setDma (h : SameCpu c c') : SameCpu c (c'.setDma i v) := ⟨h.regs, h.bigEndian, h.running, h.pc⟩

theorem supervisor (h : SameCpu c c') : c'.supervisor = c.supervisor := by
  unfold M88kCpu.supervisor M88kCpu.cr
  rw [h.regs]

theorem trans {c'' : M88kCpu} (h : SameCpu c c') (h' : SameCpu c' c'') : SameCpu c c'' :=
  ⟨h'.regs.trans h.regs, h'.bigEndian.trans h.bigEndian, h'.running.trans h.running, h'.pc.trans h.pc⟩

end SameCpu

section
theorem transaction_same (f : LsForm) (c : M88kCpu) (ic : LsCall) (addr : Word) :
    SameCpu c (f.transaction c ic addr).1 := by
  have hfirst : SameCpu c ((c.setDmt true 0#32).setDmt false dmtValid) := (SameCpu.refl c).setDmt.setDmt
  unfold LsForm.transaction
  generalize (if f.store then some dmtWrite else ic.arg0.dreg.map fun n => BitVec.ofNat 32 n <<< dmtDregshift) = reg
  cases reg with
  | none => exact hfirst
  | some bits =>
    dsimp only
    split
    · split
      · exact hfirst.setDmt.setDma.setDmd.setDmt.setDmt.setDma.setDmd
      · split
        · exact hfirst.setDmt.setDma.setDmd.setDmt.setDmt.setDma.setDmd
        · exact hfirst.setDmt.setDma.setDmd.setDmt.setDmt.setDma.setDmd.setDmt
    · exact hfirst.setDmt.setDma.setDmd

variable {f : LsForm} {c : M88kCpu} {ic : LsCall} {addr : Word}

theorem transaction_ok : (f.transaction c ic addr).2 =
    (f.store || (ic.arg0.dreg.isSome && (!decide (f.size = .ls8) || ic.arg0.dregNext.isSome))) := by
  unfold LsForm.transaction
  cases hstore : f.store with
  | true =>
    rw [if_pos rfl]
    dsimp only
    split
    · rw [if_pos rfl]
      rfl
    · rfl
  | false =>
    rw [if_neg (by decide), Bool.false_or]
    cases ic.arg0.dreg with
    | none => rfl
    | some n =>
      dsimp only [Option.map_some]
      by_cases h8 : f.size = .ls8
      · rw [if_pos h8, if_neg (by decide), decide_eq_true h8]
        cases ic.arg0.dregNext <;> rfl
      · rw [if_neg h8, decide_eq_false h8]
        rfl

theorem transaction_store (h : f.store = true) : (f.transaction c ic addr).2 = true := by
  rw [transaction_ok, h, Bool.true_or]

theorem transaction_load {n : Nat} (harg : ic.arg0 = .reg (.r n)) (hn : 1 ≤ n ∧ n ≤ 31)
    (h8 : f.size = .ls8 → n ≠ 31) : (f.transaction c ic addr).2 = true := by
  have hdreg : ic.arg0.dreg = some n := by
    rw [harg]
    exact if_pos hn
  rw [transaction_ok, hdreg]
  by_cases hsize : f.size = .ls8
  · have hne := h8 hsize
    have hnext : ic.arg0.dregNext = some (n + 1) := by
      rw [harg]
      change LsPtr.dreg (.reg (if n = 32 then .zeroScratch else .r (n + 1))) = _
      rw [if_neg (by omega)]
      exact if_pos ⟨by omega, by omega⟩
    rw [hnext]
    simp
  · simp [hsize]

theorem transaction_scratch (addr : Word) (h : f.store = false) (harg : ic.arg0 = .reg .zeroScratch) :
    (f.transaction c ic addr).2 = false := by
  rw [transaction_ok, h, harg]
  rfl

end

/-! ## The bytes -/

section
variable {f : LsForm} {c : M88kCpu} {ic : LsCall} {host : ByteMem} {p : Nat}

def wordBytes (be : Bool) (x : Word) : List Byte := bytes be 4 x.toNat

theorem length_wordBytes (be : Bool) (x : Word) : (wordBytes be x).length = 4 := length_bytes be 4 x.toNat

theorem wordBytes_inj (be : Bool) (x y : Word) : wordBytes be x = wordBytes be y ↔ x = y := by
  have hx : x.toNat % 256 ^ 4 = x.toNat := Nat.mod_eq_of_lt x.isLt
  have hy : y.toNat % 256 ^ 4 = y.toNat := Nat.mod_eq_of_lt y.isLt
  unfold wordBytes
  rw [bytes_inj, hx, hy, BitVec.toNat_inj]

theorem wordOf_write (be : Bool) (host : ByteMem) (p : Nat) (x : Word) (l : List Byte) :
    wordOf be (host.write p (wordBytes be x ++ l)) p = x := by
  have hread : (host.write p (wordBytes be x ++ l)).read p 4 = wordBytes be x := by
    have hall := ByteMem.read_write host p (wordBytes be x ++ l)
    rw [List.length_append, length_wordBytes, ByteMem.read_add] at hall
    exact List.append_inj_left hall (by rw [ByteMem.length_read, length_wordBytes])
  unfold wordOf
  rw [hread]
  unfold wordBytes
  rw [value_bytes]
  apply BitVec.eq_of_toNat_eq
  rw [BitVec.toNat_ofNat]
  omega

theorem wordOf_write_next (be : Bool) (host : ByteMem) (p : Nat) (x y : Word) :
    wordOf be (host.write p (wordBytes be x ++ wordBytes be y)) (p + 4) = y := by
  have h := wordOf_write be (host.write p (wordBytes be x)) (p + 4) y []
  rw [List.append_nil] at h
  rw [ByteMem.write_append, length_wordBytes]
  exact h

theorem doubleBytes_eq (be : Bool) (x y : Word) :
    memoryWritemax64 be 8 (if be then (x.setWidth 64 <<< 32) + y.setWidth 64 else (y.setWidth 64 <<< 32) + x.setWidth 64) =
      wordBytes be x ++ wordBytes be y := by
  have hpair (u v : Word) : ((u.setWidth 64 <<< 32) + v.setWidth 64 : BitVec 64).toNat = 256 ^ 4 * u.toNat + v.toNat := by
    rw [BitVec.toNat_add, BitVec.toNat_shiftLeft, BitVec.toNat_setWidth, BitVec.toNat_setWidth, Nat.shiftLeft_eq]
    omega
  rw [memoryWritemax64_eq]
  cases be with
  | true =>
    have h := bytes_add (k := 4) (x := x.toNat) true (show y.toNat < 256 ^ 4 from y.isLt)
    rw [if_pos rfl] at h ⊢
    rw [hpair]
    exact h
  | false =>
    have h := bytes_add (k := 4) (x := y.toNat) false (show x.toNat < 256 ^ 4 from x.isLt)
    rw [if_neg (by decide)] at h ⊢
    rw [hpair]
    exact h

theorem double_halves (be : Bool) (host : ByteMem) (p : Nat) :
    let x := memoryReadmax64 be (host.read p 8)
    (if be then (x >>> 32).setWidth 32 else x.setWidth 32) = wordOf be host p ∧
      (if be then x.setWidth 32 else (x >>> 32).setWidth 32) = wordOf be host (p + 4) := by
  have hread : host.read p 8 = host.read p 4 ++ host.read (p + 4) 4 := ByteMem.read_add host p 4 4
  have hlow := value_lt be (host.read p 4)
  have hhigh := value_lt be (host.read (p + 4) 4)
  have hvalue := value_append be (host.read p 4) (host.read (p + 4) 4)
  rw [ByteMem.length_read] at hlow hhigh
  rw [ByteMem.length_read, ByteMem.length_read] at hvalue
  dsimp only
  rw [memoryReadmax64_eq, hread, hvalue]
  unfold wordOf
  generalize value be (host.read p 4) = u at hlow
  generalize value be (host.read (p + 4) 4) = v at hhigh
  have hsplit (a b : Nat) (ha : a < 256 ^ 4) (hb : b < 256 ^ 4) :
      (BitVec.ofNat 64 (256 ^ 4 * a + b) >>> 32).setWidth 32 = BitVec.ofNat 32 a ∧
        (BitVec.ofNat 64 (256 ^ 4 * a + b)).setWidth 32 = BitVec.ofNat 32 b := by
    constructor
    · apply BitVec.eq_of_toNat_eq
      rw [BitVec.toNat_setWidth, BitVec.toNat_ushiftRight, BitVec.toNat_ofNat, BitVec.toNat_ofNat, Nat.shiftRight_eq_div_pow]
      omega
    · apply BitVec.eq_of_toNat_eq
      rw [BitVec.toNat_setWidth, BitVec.toNat_ofNat, BitVec.toNat_ofNat]
      omega
  cases be with
  | true =>
    rw [if_pos rfl, if_pos rfl, if_pos rfl]
    exact hsplit u v hlow hhigh
  | false =>
    rw [if_neg (by decide), if_neg (by decide), if_neg (by decide)]
    exact (hsplit v u hhigh hlow).symm

end

/-! ## Both functions -/

section
variable {f : LsForm} {c : M88kCpu} {ic : LsCall} {host : ByteMem} {p : Nat} {hostBig : Bool}

theorem load4_wordOf (hostBig be : Bool) (host : ByteMem) (p : Nat) :
    Mips.load4 hostBig be (fun i => host (p + i)) = wordOf be host p := Mips.load4_eq ..

theorem load4_wordOf_next (be : Bool) :
    Mips.load4 hostBig be (fun i => host (p + (4 + i))) = wordOf be host (p + 4) := by
  have h := load4_wordOf hostBig be host (p + 4)
  exact h

theorem setWidth_signExtend {n : Nat} (hn : n ≤ 32) (x : BitVec n) : (x.signExtend 64).setWidth 32 = x.signExtend 32 := by
  apply BitVec.eq_of_getLsbD_eq
  intro j hj
  rw [BitVec.getLsbD_setWidth, BitVec.getLsbD_signExtend, BitVec.getLsbD_signExtend]
  simp [hj, show j < 64 by omega]

theorem fastValue_eq (h8 : f.size ≠ .ls8) :
    f.fastValue hostBig (fun i => host (p + i)) =
      (f.kind.extend (memoryReadmax64 f.be (host.read p f.size.toNat))).setWidth 32 := by
  have hmips := Mips.loadValue_eq f.kind hostBig f.be (fun i => host (p + i))
  have hread : (List.range f.kind.size.toNat).map (fun i => host (p + i)) = host.read p f.size.toNat := rfl
  rw [hread] at hmips
  rw [← hmips]
  unfold LsForm.fastValue Mips.LsKind.loadValue LsForm.kind
  cases hsize : f.size with
  | ls1 =>
    cases f.signed with
    | true => exact (setWidth_signExtend (by decide) _).symm
    | false => exact (BitVec.setWidth_setWidth_of_le _ (by decide)).symm
  | ls2 =>
    cases f.signed with
    | true => exact (setWidth_signExtend (by decide) _).symm
    | false =>
      have h := setWidth_signExtend (le_refl 32) (Mips.load2 hostBig f.be fun i => host (p + i))
      rw [BitVec.signExtend_eq] at h
      exact h.symm
  | ls4 =>
    cases f.signed with
    | true =>
      have h := setWidth_signExtend (le_refl 32) (Mips.load4 hostBig f.be fun i => host (p + i))
      rw [BitVec.signExtend_eq] at h
      exact h.symm
    | false =>
      have h := BitVec.setWidth_setWidth_of_le (Mips.load4 hostBig f.be fun i => host (p + i)) (show 32 ≤ 64 by decide)
      rw [BitVec.setWidth_eq] at h
      exact h.symm
  | ls8 => exact absurd hsize h8

def LsForm.genericBytes (f : LsForm) (c : M88kCpu) (ic : LsCall) : List Byte :=
  if f.size = .ls8 then wordBytes c.bigEndian (c.lsRead ic.arg0) ++ wordBytes c.bigEndian (c.lsReadNext ic.arg0)
  else memoryWritemax64 c.bigEndian f.size.toNat ((c.lsRead ic.arg0).setWidth 64)

def LsForm.fastBytes (f : LsForm) (c : M88kCpu) (ic : LsCall) : List Byte :=
  if f.size = .ls8 ∧ f.be = false then wordBytes f.be (c.lsReadNext ic.arg0) ++ wordBytes f.be (c.lsRead ic.arg0)
  else f.genericBytes { c with bigEndian := f.be } ic

theorem length_genericBytes : (f.genericBytes c ic).length = f.size.toNat := by
  unfold LsForm.genericBytes
  split
  · rename_i h8
    rw [List.length_append, length_wordBytes, length_wordBytes, h8]
    rfl
  · rw [memoryWritemax64_eq, length_bytes]

theorem fastStore_eq : f.fastStore ic hostBig c p host = host.write p (f.fastBytes c ic) := by
  have hword (x : Word) : LsSize.ls4.storeBytes hostBig f.be (x.setWidth 64) = wordBytes f.be x := by
    rw [Mips.storeBytes_eq, memoryWritemax64_eq, BitVec.toNat_setWidth_of_le (by decide)]
    rfl
  unfold LsForm.fastStore LsForm.fastBytes LsForm.genericBytes
  dsimp only
  by_cases h8 : f.size = .ls8
  · rw [if_pos h8, hword, hword, if_pos h8]
    cases hbe : f.be with
    | true =>
      rw [if_pos rfl, if_pos rfl, if_neg (fun h => absurd h.2 (by decide)), ByteMem.write_append, length_wordBytes]
      rfl
    | false =>
      rw [if_neg (by decide), if_neg (by decide), if_pos ⟨h8, rfl⟩, ByteMem.write_append, length_wordBytes]
      refine ByteMem.write_comm host (.inr ?_)
      rw [length_wordBytes]
  · rw [if_neg h8, if_neg (fun h => h8 h.1), if_neg h8, Mips.storeBytes_eq]
    rfl

/-- The registers after a load of a pair, with the word for the first register first. -/
def setPair (c : M88kCpu) (r : RegPtr) (x y : Word) : M88kCpu := (c.set r x).set r.next y

theorem genericLoad_eq {r : RegPtr} (harg : ic.arg0 = .reg r) :
    f.genericLoad c ic (memoryReadmax64 c.bigEndian (host.read p f.size.toNat)) =
      if f.size = .ls8 then setPair c r (wordOf c.bigEndian host p) (wordOf c.bigEndian host (p + 4))
      else c.set r ((f.kind.extend (memoryReadmax64 c.bigEndian (host.read p f.size.toNat))).setWidth 32) := by
  unfold LsForm.genericLoad
  rw [harg]
  dsimp only
  by_cases h8 : f.size = .ls8
  · obtain ⟨hfirst, hsecond⟩ := double_halves c.bigEndian host p
    rw [if_pos h8, if_pos h8, h8, ← hfirst, ← hsecond]
    cases c.bigEndian <;> rfl
  · rw [if_neg h8, if_neg h8]

theorem fastLoad_eq {r : RegPtr} (harg : ic.arg0 = .reg r) :
    f.fastLoad ic hostBig c (fun i => host (p + i)) =
      if f.size = .ls8 then
        if f.be then setPair c r (wordOf f.be host p) (wordOf f.be host (p + 4))
        else setPair c r (wordOf f.be host (p + 4)) (wordOf f.be host p)
      else c.set r ((f.kind.extend (memoryReadmax64 f.be (host.read p f.size.toNat))).setWidth 32) := by
  unfold LsForm.fastLoad
  rw [harg]
  dsimp only
  by_cases h8 : f.size = .ls8
  · rw [if_pos h8, if_pos h8, load4_wordOf, load4_wordOf_next]
    rfl
  · rw [if_neg h8, if_neg h8, fastValue_eq h8]

end

section
variable {ρ : Type} {M : MemorySystem ρ} {f : LsForm} {ic : LsCall} {m : M88kMachine ρ} {p : Nat}

/-- memory_rw() succeeds, and accesses the host bytes from `p` on. -/
def M88kMachine.Backed (M : MemorySystem ρ) (m : M88kMachine ρ) (a : RwCall) (p : Nat) : Prop :=
  ∃ rest, ∀ host data, data.length = a.len →
    M.rw m.cpu.supervisor m.cpu.bigEndian a host m.rest data =
      if a.write then ⟨host.write p data, rest, data, .done⟩ else ⟨host, rest, host.read p a.len, .done⟩

/-- LS_N can do without the slow function, if the page is in the tables. -/
structure LsForm.Allowed (f : LsForm) (c : M88kCpu) (ic : LsCall) : Prop where
  usr : (f.usr && !c.supervisor) = false
  aligned : f.misaligned (f.addr c ic) = false

/-- The tables map the page to the bytes that memory_rw() accesses. -/
structure LsForm.Mapped (M : MemorySystem ρ) (f : LsForm) (ic : LsCall) (m : M88kMachine ρ) (p : Nat) : Prop where
  page : ∃ q, f.page M ic m = some q ∧ p = q + (f.addr m.cpu ic &&& 0xfff#32).toNat
  backed : m.Backed M (f.call (f.addr m.cpu ic)) p

theorem lsN_allowed {hostBig : Bool} (h : f.Mapped M ic m p) (hal : f.Allowed m.cpu ic) :
    f.lsN M ic m hostBig = f.lsFast ic m hostBig p := by
  obtain ⟨q, hpage, rfl⟩ := h.page
  unfold LsForm.lsN
  rw [hpage]
  dsimp only
  rw [hal.usr, hal.aligned, Bool.or_self, if_neg (by decide)]

theorem lsN_not_allowed {hostBig : Bool} (hal : ¬ f.Allowed m.cpu ic) : f.lsN M ic m hostBig = f.lsGeneric M ic m := by
  unfold LsForm.lsN
  cases f.page M ic m with
  | none => rfl
  | some q =>
    dsimp only
    rw [if_pos]
    by_contra hno
    rw [Bool.or_eq_true, not_or, Bool.not_eq_true, Bool.not_eq_true] at hno
    exact hal ⟨hno.1, hno.2⟩

/-- The CPU with which LS_GENERIC_N begins. -/
def LsForm.start (f : LsForm) (ic : LsCall) (c : M88kCpu) : M88kCpu := if f.noPcSync then c else c.synchPc ic.lowPc

theorem start_regs (f : LsForm) (ic : LsCall) (c : M88kCpu) : (f.start ic c).regs = c.regs ∧ (f.start ic c).bigEndian = c.bigEndian ∧
    (f.start ic c).running = c.running ∧ (f.start ic c).supervisor = c.supervisor := by
  unfold LsForm.start
  split <;> exact ⟨rfl, rfl, rfl, rfl⟩

theorem genericStore_same (f : LsForm) (c : M88kCpu) (ic : LsCall) : SameCpu c (f.genericStore c ic).1 := by
  unfold LsForm.genericStore
  split
  · exact (SameCpu.refl c).setDmd.setDmd
  · exact (SameCpu.refl c).setDmd

theorem genericStore_bytes (c : M88kCpu) :
    memoryWritemax64 c.bigEndian f.size.toNat (f.genericStore c ic).2 = f.genericBytes c ic := by
  unfold LsForm.genericStore LsForm.genericBytes
  by_cases h8 : f.size = .ls8
  · rw [if_pos h8, if_pos h8, h8]
    exact doubleBytes_eq c.bigEndian (c.lsRead ic.arg0) (c.lsReadNext ic.arg0)
  · rw [if_neg h8, if_neg h8]

theorem genericBytes_same (c' c : M88kCpu) (h : c'.regs = c.regs) (hbe : c'.bigEndian = c.bigEndian) :
    f.genericBytes c' ic = f.genericBytes c ic := by
  unfold LsForm.genericBytes M88kCpu.lsRead M88kCpu.lsReadNext
  rw [h, hbe]

theorem lsGeneric_eq (hal : f.Allowed m.cpu ic) (hok : (f.transaction (f.start ic m.cpu) ic (f.addr m.cpu ic)).2 = true) :
    ∃ c, SameCpu (f.start ic m.cpu) c ∧ f.lsGeneric M ic m =
      if f.store then
        let data := f.genericBytes m.cpu ic
        let r := ({ m with cpu := c } : M88kMachine ρ).memoryRw M (f.call (f.addr m.cpu ic)) data
        (r.1, [(f.call (f.addr m.cpu ic)).event data r.2.2])
      else
        let r := ({ m with cpu := c } : M88kMachine ρ).memoryRw M (f.call (f.addr m.cpu ic)) (List.replicate f.size.toNat 0#8)
        (if r.2.2 = .done then { r.1 with cpu := f.genericLoad r.1.cpu ic (memoryReadmax64 r.1.cpu.bigEndian r.2.1) } else r.1,
          [(f.call (f.addr m.cpu ic)).event r.2.1 r.2.2]) := by
  have hsame := transaction_same f (f.start ic m.cpu) ic (f.addr m.cpu ic)
  obtain ⟨hregs, hbe, _, hsup⟩ := start_regs f ic m.cpu
  have heq : f.lsGeneric M ic m =
      let c := (f.transaction (f.start ic m.cpu) ic (f.addr m.cpu ic)).1
      if f.store then
        let data := memoryWritemax64 (f.genericStore c ic).1.bigEndian f.size.toNat (f.genericStore c ic).2
        let r := ({ m with cpu := (f.genericStore c ic).1 } : M88kMachine ρ).memoryRw M (f.call (f.addr m.cpu ic)) data
        (r.1, [(f.call (f.addr m.cpu ic)).event data r.2.2])
      else
        let r := ({ m with cpu := c } : M88kMachine ρ).memoryRw M (f.call (f.addr m.cpu ic)) (List.replicate f.size.toNat 0#8)
        (if r.2.2 = .done then { r.1 with cpu := f.genericLoad r.1.cpu ic (memoryReadmax64 r.1.cpu.bigEndian r.2.1) } else r.1,
          [(f.call (f.addr m.cpu ic)).event r.2.1 r.2.2]) := by
    unfold LsForm.start at hok hsame hsup ⊢
    unfold LsForm.lsGeneric
    dsimp only
    rw [hok, hsame.supervisor, hsup, hal.usr, hal.aligned, Bool.not_true, if_neg (by decide), if_neg (by decide),
      if_neg (by decide)]
  cases hstore : f.store with
  | true =>
    refine ⟨_, hsame.trans (genericStore_same f _ ic), ?_⟩
    rw [heq]
    rw [if_pos hstore, if_pos rfl, (genericStore_same f _ ic).bigEndian, genericStore_bytes,
      genericBytes_same _ _ (hsame.regs.trans hregs) (hsame.bigEndian.trans hbe)]
  | false =>
    refine ⟨_, hsame, ?_⟩
    rw [heq]
    rw [if_neg (show ¬ f.store = true by rw [hstore]; decide), if_neg (show ¬ false = true by decide)]

theorem lsGeneric_store (hstore : f.store = true) (hal : f.Allowed m.cpu ic)
    (hb : m.Backed M (f.call (f.addr m.cpu ic)) p) :
    ∃ c rest, SameCpu (f.start ic m.cpu) c ∧ (f.lsGeneric M ic m).1 = ⟨c, m.host.write p (f.genericBytes m.cpu ic), rest⟩ := by
  obtain ⟨c, hsame, heq⟩ := lsGeneric_eq (M := M) hal (transaction_store hstore)
  obtain ⟨_, hbe, _, hsup⟩ := start_regs f ic m.cpu
  obtain ⟨rest, hrw⟩ := hb
  have hdone := hrw m.host (f.genericBytes m.cpu ic) length_genericBytes
  rw [← hsup, ← hbe, ← hsame.supervisor, ← hsame.bigEndian, if_pos (show (f.call _).write = true from hstore)] at hdone
  refine ⟨c, rest, hsame, ?_⟩
  rw [heq, if_pos hstore]
  unfold M88kMachine.memoryRw
  dsimp only
  rw [hdone]

theorem lsGeneric_load (hstore : f.store = false) (hal : f.Allowed m.cpu ic)
    (hok : (f.transaction (f.start ic m.cpu) ic (f.addr m.cpu ic)).2 = true)
    (hb : m.Backed M (f.call (f.addr m.cpu ic)) p) :
    ∃ c rest, SameCpu (f.start ic m.cpu) c ∧ (f.lsGeneric M ic m).1 =
      ⟨f.genericLoad c ic (memoryReadmax64 c.bigEndian (m.host.read p f.size.toNat)), m.host, rest⟩ := by
  obtain ⟨c, hsame, heq⟩ := lsGeneric_eq (M := M) hal hok
  obtain ⟨_, hbe, _, hsup⟩ := start_regs f ic m.cpu
  obtain ⟨rest, hrw⟩ := hb
  have hdone := hrw m.host (List.replicate f.size.toNat 0#8) List.length_replicate
  have hwrite : ¬ (f.call (f.addr m.cpu ic)).write = true := by
    change ¬ f.store = true
    rw [hstore]
    decide
  rw [← hsup, ← hbe, ← hsame.supervisor, ← hsame.bigEndian, if_neg hwrite] at hdone
  refine ⟨c, rest, hsame, ?_⟩
  rw [heq, if_neg (by rw [hstore]; decide)]
  unfold M88kMachine.memoryRw
  rw [hdone]
  rfl

theorem lsGeneric_scratch (hstore : f.store = false) (harg : ic.arg0 = .reg .zeroScratch) :
    ∃ c : M88kCpu, c.regs = m.cpu.regs ∧ (f.lsGeneric M ic m).1 = ⟨{ c with running := false }, m.host, m.rest⟩ := by
  have hok := transaction_scratch (c := f.start ic m.cpu) (f.addr m.cpu ic) hstore harg
  have hsame := transaction_same f (f.start ic m.cpu) ic (f.addr m.cpu ic)
  refine ⟨(f.transaction (f.start ic m.cpu) ic (f.addr m.cpu ic)).1, hsame.regs.trans (start_regs f ic m.cpu).1, ?_⟩
  unfold LsForm.start at hok ⊢
  unfold LsForm.lsGeneric
  dsimp only
  rw [hok, Bool.not_false, if_pos rfl]

end

/-! ## Agreement -/

section
variable {ρ : Type} (M : MemorySystem ρ) (hostBig : Bool) (f : LsForm) (ic : LsCall) (d : BitVec 5) (m : M88kMachine ρ) (p : Nat)

structure SameResult (m m' : M88kMachine ρ) : Prop where
  regs : ∀ n, m.cpu.regs (.r n) = m'.cpu.regs (.r n)
  host : m.host = m'.host
  running : m.cpu.running = m'.cpu.running

def LsForm.run (fast : Bool) : M88kMachine ρ := if fast then (f.lsN M ic m hostBig).1 else (f.lsGeneric M ic m).1

/-- A function that to_be_translated() chooses for this CPU and register. -/
structure LsForm.Chosen (c : M88kCpu) : Prop where
  generated : (m88kLoadstore f).isSome
  be : f.be = c.bigEndian
  pair : f.size = .ls8 → d ≠ 31#5

/-- A load of the same size at the same address returns the registers of a store, with either function for
each of them. -/
def LsForm.RoundTrip : Prop :=
  ∀ (fast : Bool) (g : LsForm) (e s1 s2 : BitVec 5) (imm16 : BitVec 16) (lowPc : Nat),
    let m1 := f.run M hostBig ic m fast
    let ic1 := g.args e s1 s2 imm16 lowPc
    g.store = false → g.size = f.size → g.Chosen e m1.cpu → e ≠ 0#5 → g.addr m1.cpu ic1 = f.addr m.cpu ic →
    g.Allowed m1.cpu ic1 → g.Mapped M ic1 m1 p → ∀ fast' : Bool,
      let m2 := g.run M hostBig ic1 m1 fast'
      m2.cpu.regs (.r e.toNat) = g.part (m.cpu.regs (.r d.toNat)) ∧
        (f.size = .ls8 → m2.cpu.regs (.r (e.toNat + 1)) = m.cpu.regs (.r (d.toNat + 1)))

structure LsForm.Agree : Prop where
  same : SameResult (f.lsN M ic m hostBig).1 (f.lsGeneric M ic m).1
  roundTrip : f.store = true → f.Allowed m.cpu ic → f.RoundTrip M hostBig ic d m p

/-- Where they agree: not for different words of a pair in little endian byte order, and not into r0. -/
def LsForm.Meets : Prop :=
  f.Allowed m.cpu ic →
    if f.store then
      f.size = .ls8 → f.be = false → m.cpu.regs (.r d.toNat) = m.cpu.regs (.r (d.toNat + 1))
    else if d = 0#5 then m.cpu.running = false
    else f.size = .ls8 → f.be = false → wordOf false m.host p = wordOf false m.host (p + 4)

variable {M hostBig f ic d m p}

theorem next_r (d : BitVec 5) : RegPtr.next (.r d.toNat) = .r (d.toNat + 1) := by
  exact if_neg (by omega)

theorem next_ne (n : Nat) : RegPtr.r n ≠ RegPtr.next (.r n) := by
  change RegPtr.r n ≠ if n = 32 then .zeroScratch else .r (n + 1)
  split
  · exact RegPtr.noConfusion
  · intro h
    injection h
    omega

theorem regs_setPair (c : M88kCpu) (x y : Word) (n : Nat) : (setPair c (.r n) x y).regs (.r n) = x := by
  unfold setPair
  rw [M88kCpu.regs_set_of_ne (next_ne n), M88kCpu.regs_set_same]

theorem regs_setPair_next (c : M88kCpu) (r : RegPtr) (x y : Word) : (setPair c r x y).regs r.next = y :=
  M88kCpu.regs_set_same

theorem set_same {c c' : M88kCpu} (h : c.regs = c'.regs) (r : RegPtr) (x : Word) : (c.set r x).regs = (c'.set r x).regs := by
  unfold M88kCpu.set
  rw [h]

theorem fastBytes_eq (hbe : f.be = m.cpu.bigEndian) : f.fastBytes m.cpu ic =
    if f.size = .ls8 ∧ f.be = false then
      wordBytes f.be (m.cpu.lsReadNext ic.arg0) ++ wordBytes f.be (m.cpu.lsRead ic.arg0)
    else f.genericBytes m.cpu ic := by
  unfold LsForm.fastBytes
  rw [genericBytes_same { m.cpu with bigEndian := f.be } m.cpu rfl hbe]

theorem fastBytes_eq_iff (ic : LsCall) (hbe : f.be = m.cpu.bigEndian) : f.fastBytes m.cpu ic = f.genericBytes m.cpu ic ↔
    (f.size = .ls8 → f.be = false → m.cpu.lsRead ic.arg0 = m.cpu.lsReadNext ic.arg0) := by
  rw [fastBytes_eq hbe]
  by_cases hpair : f.size = .ls8 ∧ f.be = false
  · have hgeneric : f.genericBytes m.cpu ic =
        wordBytes f.be (m.cpu.lsRead ic.arg0) ++ wordBytes f.be (m.cpu.lsReadNext ic.arg0) := by
      unfold LsForm.genericBytes
      rw [if_pos hpair.1, hbe]
    rw [if_pos hpair, hgeneric]
    constructor
    · intro h _ _
      have hfirst := List.append_inj_left h (by rw [length_wordBytes, length_wordBytes])
      exact ((wordBytes_inj f.be _ _).mp hfirst).symm
    · intro h
      rw [h hpair.1 hpair.2]
  · rw [if_neg hpair]
    exact ⟨fun _ h8 hle => absurd ⟨h8, hle⟩ hpair, fun _ => rfl⟩

theorem run_store (hostBig : Bool) (hstore : f.store = true) (hal : f.Allowed m.cpu ic) (hm : f.Mapped M ic m p) (fast : Bool) :
    ∃ c rest, c.regs = m.cpu.regs ∧ c.bigEndian = m.cpu.bigEndian ∧ c.running = m.cpu.running ∧
      f.run M hostBig ic m fast =
        ⟨c, m.host.write p (if fast then f.fastBytes m.cpu ic else f.genericBytes m.cpu ic), rest⟩ := by
  obtain ⟨hregs, hbe, hrun, _⟩ := start_regs f ic m.cpu
  unfold LsForm.run
  cases fast with
  | true =>
    refine ⟨m.cpu, m.rest, rfl, rfl, rfl, ?_⟩
    rw [if_pos rfl, if_pos rfl, lsN_allowed hm hal]
    unfold LsForm.lsFast
    rw [if_pos hstore, fastStore_eq]
  | false =>
    obtain ⟨c, rest, hsame, heq⟩ := lsGeneric_store (M := M) hstore hal hm.backed
    refine ⟨c, rest, hsame.regs.trans hregs, hsame.bigEndian.trans hbe, hsame.running.trans hrun, ?_⟩
    rw [if_neg (by decide), if_neg (by decide), heq]

theorem run_load (hostBig : Bool) {n : Nat} (hstore : f.store = false) (harg : ic.arg0 = .reg (.r n)) (hn : 1 ≤ n ∧ n ≤ 31)
    (h8 : f.size = .ls8 → n ≠ 31) (hbe : f.be = m.cpu.bigEndian) (hal : f.Allowed m.cpu ic) (hm : f.Mapped M ic m p)
    (fast : Bool) :
    (f.run M hostBig ic m fast).host = m.host ∧ (f.run M hostBig ic m fast).cpu.running = m.cpu.running ∧
      (f.run M hostBig ic m fast).cpu.regs =
        (if f.size = .ls8 then
          if fast ∧ f.be = false then setPair m.cpu (.r n) (wordOf f.be m.host (p + 4)) (wordOf f.be m.host p)
          else setPair m.cpu (.r n) (wordOf f.be m.host p) (wordOf f.be m.host (p + 4))
        else m.cpu.set (.r n) ((f.kind.extend (memoryReadmax64 f.be (m.host.read p f.size.toNat))).setWidth 32)).regs := by
  obtain ⟨hregs, hbig, hrun, _⟩ := start_regs f ic m.cpu
  unfold LsForm.run
  cases fast with
  | true =>
    rw [if_pos rfl, lsN_allowed hm hal]
    unfold LsForm.lsFast
    rw [if_neg (by rw [hstore]; decide), fastLoad_eq harg]
    refine ⟨rfl, ?_, ?_⟩
    · split
      · split <;> rfl
      · rfl
    · cases f.be <;> rfl
  | false =>
    obtain ⟨c, rest, hsame, heq⟩ := lsGeneric_load (M := M) hstore hal (transaction_load harg hn h8) hm.backed
    have hc : c.regs = m.cpu.regs := hsame.regs.trans hregs
    have hcbe : c.bigEndian = f.be := (hsame.bigEndian.trans hbig).trans hbe.symm
    have hcrun : c.running = m.cpu.running := hsame.running.trans hrun
    rw [if_neg (by decide), heq, genericLoad_eq harg, hcbe]
    by_cases hsize : f.size = .ls8
    · rw [if_pos hsize, if_pos hsize, if_neg (fun h => absurd h.1 (by decide))]
      exact ⟨rfl, hcrun, set_same (set_same hc _ _) _ _⟩
    · rw [if_neg hsize, if_neg hsize]
      exact ⟨rfl, hcrun, set_same hc _ _⟩

theorem args_store (hstore : f.store = true) (s1 s2 : BitVec 5) (imm16 : BitVec 16) (lowPc : Nat) :
    (f.args d s1 s2 imm16 lowPc).arg0 = .reg (.r d.toNat) := by
  unfold LsForm.args
  rw [if_neg]
  intro h
  rw [hstore] at h
  exact absurd h.2 (by decide)

theorem args_load (hd : d ≠ 0#5) (s1 s2 : BitVec 5) (imm16 : BitVec 16) (lowPc : Nat) :
    (f.args d s1 s2 imm16 lowPc).arg0 = .reg (.r d.toNat) := by
  unfold LsForm.args
  rw [if_neg (fun h => hd h.1)]

theorem args_scratch (hstore : f.store = false) (s1 s2 : BitVec 5) (imm16 : BitVec 16) (lowPc : Nat) :
    (f.args 0#5 s1 s2 imm16 lowPc).arg0 = .reg .zeroScratch := by
  unfold LsForm.args
  rw [if_pos ⟨rfl, hstore⟩]

theorem extend_stored (be : Bool) (h8 : f.size ≠ .ls8) (x : Word) :
    (f.kind.extend (memoryReadmax64 be (memoryWritemax64 be f.size.toNat (x.setWidth 64)))).setWidth 32 = f.part x := by
  rw [memoryReadmax64_eq, memoryWritemax64_eq, value_bytes, BitVec.toNat_setWidth_of_le (by decide)]
  have hlow (n : Nat) (hn : 256 ^ n = 2 ^ (8 * n)) (hle : 8 * n ≤ 32) :
      BitVec.ofNat 64 (x.toNat % 256 ^ n) = (x.setWidth (8 * n)).setWidth 64 := by
    apply BitVec.eq_of_toNat_eq
    rw [BitVec.toNat_setWidth, BitVec.toNat_setWidth, BitVec.toNat_ofNat, hn]
  unfold LsForm.part Mips.LsKind.extend LsForm.kind
  cases hsize : f.size with
  | ls1 =>
    rw [show LsSize.ls1.toNat = 1 from rfl, hlow 1 rfl (by decide)]
    cases f.signed with
    | true =>
      refine (setWidth_signExtend (by decide) _).trans ?_
      rw [BitVec.setWidth_setWidth_of_le _ (by decide), BitVec.setWidth_setWidth_of_le _ (by decide)]
      rfl
    | false => exact BitVec.setWidth_setWidth_of_le _ (by decide)
  | ls2 =>
    rw [show LsSize.ls2.toNat = 2 from rfl, hlow 2 rfl (by decide)]
    cases f.signed with
    | true =>
      refine (setWidth_signExtend (by decide) _).trans ?_
      rw [BitVec.setWidth_setWidth_of_le _ (by decide), BitVec.setWidth_setWidth_of_le _ (by decide)]
      rfl
    | false => exact BitVec.setWidth_setWidth_of_le _ (by decide)
  | ls4 =>
    rw [show LsSize.ls4.toNat = 4 from rfl, hlow 4 rfl (by decide)]
    cases f.signed with
    | true =>
      refine (setWidth_signExtend (by decide) _).trans ?_
      rw [BitVec.setWidth_setWidth_of_le _ (by decide), BitVec.setWidth_eq, BitVec.signExtend_eq]
      exact BitVec.setWidth_eq _
    | false =>
      refine (BitVec.setWidth_setWidth_of_le _ (by decide)).trans ?_
      exact BitVec.setWidth_eq _
  | ls8 => exact absurd hsize h8

section
variable {s1 s2 : BitVec 5} {imm16 : BitVec 16} {lowPc : Nat}

theorem same_store_iff (hstore : f.store = true) (hf : f.Chosen d m.cpu)
    (hal : f.Allowed m.cpu (f.args d s1 s2 imm16 lowPc)) (hm : f.Mapped M (f.args d s1 s2 imm16 lowPc) m p) :
    SameResult (f.lsN M (f.args d s1 s2 imm16 lowPc) m hostBig).1 (f.lsGeneric M (f.args d s1 s2 imm16 lowPc) m).1 ↔
      (f.size = .ls8 → f.be = false → m.cpu.regs (.r d.toNat) = m.cpu.regs (.r (d.toNat + 1))) := by
  have harg := args_store (d := d) hstore s1 s2 imm16 lowPc
  have hbytes := fastBytes_eq_iff (m := m) (f.args d s1 s2 imm16 lowPc) hf.be
  rw [harg] at hbytes
  have hnext : m.cpu.lsReadNext (.reg (.r d.toNat)) = m.cpu.regs (.r (d.toNat + 1)) := congrArg m.cpu.regs (next_r d)
  rw [hnext] at hbytes
  obtain ⟨c, rest, hregs, _, hrun, heq⟩ := run_store hostBig hstore hal hm true
  obtain ⟨c', rest', hregs', _, hrun', heq'⟩ := run_store hostBig hstore hal hm false
  rw [if_pos rfl] at heq
  rw [if_neg (by decide)] at heq'
  have hfast : (f.lsN M (f.args d s1 s2 imm16 lowPc) m hostBig).1 = _ := heq
  have hslow : (f.lsGeneric M (f.args d s1 s2 imm16 lowPc) m).1 = _ := heq'
  rw [hfast, hslow]
  constructor
  · intro h
    have hwrite := (ByteMem.write_inj m.host p (by
      rw [length_genericBytes]
      unfold LsForm.fastBytes
      split
      · rename_i hpair
        rw [List.length_append, length_wordBytes, length_wordBytes, hpair.1]
        rfl
      · exact length_genericBytes)).mp h.host
    exact hbytes.mp hwrite
  · intro h
    refine ⟨fun n => ?_, ?_, hrun.trans hrun'.symm⟩
    · exact (congrFun hregs _).trans (congrFun hregs' _).symm
    · exact congrArg (ByteMem.write m.host p) (hbytes.mpr h)

theorem same_load_iff (hstore : f.store = false) (hd : d ≠ 0#5) (hf : f.Chosen d m.cpu)
    (hal : f.Allowed m.cpu (f.args d s1 s2 imm16 lowPc)) (hm : f.Mapped M (f.args d s1 s2 imm16 lowPc) m p) :
    SameResult (f.lsN M (f.args d s1 s2 imm16 lowPc) m hostBig).1 (f.lsGeneric M (f.args d s1 s2 imm16 lowPc) m).1 ↔
      (f.size = .ls8 → f.be = false → wordOf false m.host p = wordOf false m.host (p + 4)) := by
  have harg := args_load (f := f) hd s1 s2 imm16 lowPc
  have hn : 1 ≤ d.toNat ∧ d.toNat ≤ 31 := by
    have hne : d.toNat ≠ 0 := fun h => hd (BitVec.eq_of_toNat_eq h)
    omega
  have h8 : f.size = .ls8 → d.toNat ≠ 31 := fun hsize h => hf.pair hsize (BitVec.eq_of_toNat_eq h)
  obtain ⟨hhost, hrun, hregs⟩ := run_load hostBig hstore harg hn h8 hf.be hal hm true
  obtain ⟨hhost', hrun', hregs'⟩ := run_load hostBig hstore harg hn h8 hf.be hal hm false
  rw [if_neg (show ¬ (false = true ∧ f.be = false) from fun h => absurd h.1 (by decide))] at hregs'
  constructor
  · intro h hsize hle
    have hreg : ∀ n, _ := h.regs
    have hfirst := hreg d.toNat
    have hfast := congrFun hregs (.r d.toNat)
    have hslow := congrFun hregs' (.r d.toNat)
    rw [if_pos hsize, if_pos ⟨rfl, hle⟩, regs_setPair] at hfast
    rw [if_pos hsize, regs_setPair] at hslow
    rw [hle] at hfast hslow
    exact hslow.symm.trans (hfirst.symm.trans hfast)
  · intro h
    refine ⟨fun n => ?_, hhost.trans hhost'.symm, hrun.trans hrun'.symm⟩
    refine (congrFun hregs _).trans (Eq.trans ?_ (congrFun hregs' _).symm)
    by_cases hsize : f.size = .ls8
    · rw [if_pos hsize, if_pos hsize]
      by_cases hle : true = true ∧ f.be = false
      · rw [if_pos hle, hle.2, h hsize hle.2]
      · rw [if_neg hle]
    · rw [if_neg hsize, if_neg hsize]

theorem same_scratch_iff (hstore : f.store = false)
    (hal : f.Allowed m.cpu (f.args 0#5 s1 s2 imm16 lowPc)) (hm : f.Mapped M (f.args 0#5 s1 s2 imm16 lowPc) m p) :
    SameResult (f.lsN M (f.args 0#5 s1 s2 imm16 lowPc) m hostBig).1 (f.lsGeneric M (f.args 0#5 s1 s2 imm16 lowPc) m).1 ↔
      m.cpu.running = false := by
  have harg := args_scratch hstore s1 s2 imm16 lowPc
  obtain ⟨c, hregs, hslow⟩ := lsGeneric_scratch (M := M) (m := m) hstore harg
  rw [lsN_allowed hm hal, hslow]
  unfold LsForm.lsFast
  rw [if_neg (by rw [hstore]; decide), fastLoad_eq harg]
  have hkept (x y : Word) (n : Nat) : (setPair m.cpu .zeroScratch x y).regs (.r n) = m.cpu.regs (.r n) := by
    unfold setPair
    rw [M88kCpu.regs_set_of_ne (by intro h; cases h), M88kCpu.regs_set_of_ne (by intro h; cases h)]
  constructor
  · intro h
    have hrun := h.running
    dsimp only at hrun
    rw [← hrun]
    split
    · split <;> rfl
    · rfl
  · intro h
    refine ⟨fun n => ?_, rfl, ?_⟩
    · dsimp only
      rw [hregs]
      split
      · split
        · exact hkept _ _ n
        · exact hkept _ _ n
      · exact M88kCpu.regs_set_of_ne (by intro h; cases h)
    · dsimp only
      refine Eq.trans ?_ h
      split
      · split <;> rfl
      · rfl

theorem roundTrip_of (hstore : f.store = true) (hf : f.Chosen d m.cpu)
    (hal : f.Allowed m.cpu (f.args d s1 s2 imm16 lowPc)) (hm : f.Mapped M (f.args d s1 s2 imm16 lowPc) m p)
    (hmeets : f.size = .ls8 → f.be = false → m.cpu.regs (.r d.toNat) = m.cpu.regs (.r (d.toNat + 1))) :
    f.RoundTrip M hostBig (f.args d s1 s2 imm16 lowPc) d m p := by
  intro fast g e s1' s2' imm16' lowPc' m1 ic1 hload hsize hg he haddr hal1 hm1 fast' m2
  have harg := args_store (d := d) hstore s1 s2 imm16 lowPc
  have hbytes := fastBytes_eq_iff (m := m) (f.args d s1 s2 imm16 lowPc) hf.be
  have hnext : m.cpu.lsReadNext (.reg (.r d.toNat)) = m.cpu.regs (.r (d.toNat + 1)) := congrArg m.cpu.regs (next_r d)
  rw [harg, hnext] at hbytes
  obtain ⟨c, rest, _, hbig, _, hm1eq⟩ := run_store hostBig hstore hal hm fast
  -- both stores leave the same bytes
  have hhost : m1.host = m.host.write p (f.genericBytes m.cpu (f.args d s1 s2 imm16 lowPc)) := by
    refine (congrArg M88kMachine.host hm1eq).trans ?_
    rw [hbytes.mpr hmeets]
    cases fast <;> rfl
  have hbe : g.be = f.be := by
    have hsame : m1.cpu.bigEndian = m.cpu.bigEndian := (congrArg (fun m => m.cpu.bigEndian) hm1eq).trans hbig
    exact hg.be.trans (hsame.trans hf.be.symm)
  have hn : 1 ≤ e.toNat ∧ e.toNat ≤ 31 := by
    have hne : e.toNat ≠ 0 := fun h => he (BitVec.eq_of_toNat_eq h)
    omega
  have h31 : g.size = .ls8 → e.toNat ≠ 31 := fun h8 h => hg.pair h8 (BitVec.eq_of_toNat_eq h)
  obtain ⟨_, _, hregs⟩ := run_load hostBig hload (args_load (f := g) he s1' s2' imm16' lowPc') hn h31 hg.be hal1
    hm1 fast'
  have hm2 : m2.cpu.regs = _ := hregs
  rw [hm2, hsize, hbe, hhost]
  by_cases h8 : f.size = .ls8
  · have hgeneric : f.genericBytes m.cpu (f.args d s1 s2 imm16 lowPc) =
        wordBytes f.be (m.cpu.regs (.r d.toNat)) ++ wordBytes f.be (m.cpu.regs (.r (d.toNat + 1))) := by
      unfold LsForm.genericBytes
      rw [if_pos h8, harg, hnext, hf.be]
      rfl
    have hpart (x : Word) : g.part x = x := by
      unfold LsForm.part
      rw [hsize, h8]
    rw [if_pos h8, hgeneric, wordOf_write, wordOf_write_next, hpart]
    by_cases hle : fast' = true ∧ f.be = false
    · rw [if_pos hle, ← hmeets h8 hle.2]
      exact ⟨regs_setPair _ _ _ _, fun _ => next_r e ▸ regs_setPair_next _ _ _ _⟩
    · rw [if_neg hle]
      exact ⟨regs_setPair _ _ _ _, fun _ => next_r e ▸ regs_setPair_next _ _ _ _⟩
  · have hgeneric : f.genericBytes m.cpu (f.args d s1 s2 imm16 lowPc) =
        memoryWritemax64 f.be g.size.toNat ((m.cpu.regs (.r d.toNat)).setWidth 64) := by
      unfold LsForm.genericBytes
      rw [if_neg h8, harg, hf.be, hsize]
      rfl
    have hread := ByteMem.read_write m.host p (memoryWritemax64 f.be g.size.toNat ((m.cpu.regs (.r d.toNat)).setWidth 64))
    rw [memoryWritemax64_eq, length_bytes, ← memoryWritemax64_eq] at hread
    rw [if_neg h8, hgeneric, ← hsize, hread, extend_stored f.be (by rw [hsize]; exact h8), M88kCpu.regs_set_same]
    exact ⟨rfl, fun h => absurd (hsize.symm.trans h) h8⟩

end

/-- Every load and store, where the tables map the page. -/
theorem ls_agree_iff {ρ : Type} (M : MemorySystem ρ) (hostBig : Bool) (f : LsForm) (d s1 s2 : BitVec 5) (imm16 : BitVec 16)
    (lowPc : Nat) (m : M88kMachine ρ) (p : Nat) (hf : f.Chosen d m.cpu)
    (hm : f.Mapped M (f.args d s1 s2 imm16 lowPc) m p) :
    f.Agree M hostBig (f.args d s1 s2 imm16 lowPc) d m p ↔ f.Meets (f.args d s1 s2 imm16 lowPc) d m p := by
  unfold LsForm.Meets
  by_cases hal : f.Allowed m.cpu (f.args d s1 s2 imm16 lowPc)
  · cases hstore : f.store with
    | true =>
      rw [if_pos rfl]
      constructor
      · exact fun h _ => (same_store_iff hstore hf hal hm).mp h.same
      · intro h
        exact ⟨(same_store_iff hstore hf hal hm).mpr (h hal), fun _ _ => roundTrip_of hstore hf hal hm (h hal)⟩
    | false =>
      have hload : ¬ f.store = true := by
        rw [hstore]
        decide
      rw [if_neg (by decide)]
      by_cases hd : d = 0#5
      · subst hd
        rw [if_pos rfl]
        exact ⟨fun h _ => (same_scratch_iff hstore hal hm).mp h.same,
          fun h => ⟨(same_scratch_iff hstore hal hm).mpr (h hal), fun h => absurd h hload⟩⟩
      · rw [if_neg hd]
        exact ⟨fun h _ => (same_load_iff hstore hd hf hal hm).mp h.same,
          fun h => ⟨(same_load_iff hstore hd hf hal hm).mpr (h hal), fun h => absurd h hload⟩⟩
  · constructor
    · exact fun _ h => absurd h hal
    · intro _
      refine ⟨?_, fun _ h => absurd h hal⟩
      rw [lsN_not_allowed hal]
      exact ⟨fun _ => rfl, rfl, rfl⟩

/-! ## RAM without address translation -/

/-- Memory that is in the host at its own addresses, with every page in the tables. -/
def flatMemory : MemorySystem Unit where
  hostPage := fun _ _ _ page => some (page.toNat * 4096)
  rw := fun _ _ a host rest data =>
    if a.write then ⟨host.write a.addr.toNat data, rest, data, .done⟩
    else ⟨host, rest, host.read a.addr.toNat a.len, .done⟩

theorem flatMemory_mapped (f : LsForm) (ic : LsCall) (m : M88kMachine Unit) :
    f.Mapped flatMemory ic m (f.addr m.cpu ic).toNat where
  page := by
    refine ⟨_, rfl, ?_⟩
    have hmask := toNat_and_mask (f.addr m.cpu ic) 12 (by decide)
    have hofs : (f.addr m.cpu ic &&& 0xfff#32).toNat = (f.addr m.cpu ic).toNat % 2 ^ 12 := hmask
    rw [BitVec.toNat_setWidth, BitVec.toNat_ushiftRight, Nat.shiftRight_eq_div_pow, hofs]
    omega
  backed := ⟨(), fun _ _ _ => rfl⟩

/-- `st r2,r0,0x1000`, in big endian byte order. -/
theorem st_agrees :
    (⟨.ls4, true, false, true, false, false, false, false⟩ : LsForm).Agree flatMemory false
      ((⟨.ls4, true, false, true, false, false, false, false⟩ : LsForm).args 2#5 0#5 0#5 0x1000#16 0) 2#5
      ⟨M88kCpu.zero.set (.r 2) 0x12345678#32, fun _ => 0#8, ()⟩ 0x1000 :=
  (ls_agree_iff flatMemory false ⟨.ls4, true, false, true, false, false, false, false⟩ 2#5 0#5 0#5 0x1000#16 0
    ⟨M88kCpu.zero.set (.r 2) 0x12345678#32, fun _ => 0#8, ()⟩ 0x1000 ⟨rfl, rfl, fun h => by cases h⟩
    (flatMemory_mapped _ _ ⟨M88kCpu.zero.set (.r 2) 0x12345678#32, fun _ => 0#8, ()⟩)).mpr
    fun _ h => by cases h

/-- `ld.d r2,r0,0x1000`, in little endian byte order, of 1 and 0. -/
theorem not_ls_agree :
    ¬ ∀ (ρ : Type) (M : MemorySystem ρ) (hostBig : Bool) (f : LsForm) (d s1 s2 : BitVec 5) (imm16 : BitVec 16)
      (lowPc : Nat) (m : M88kMachine ρ) (p : Nat), f.Chosen d m.cpu → f.Mapped M (f.args d s1 s2 imm16 lowPc) m p →
      f.Agree M hostBig (f.args d s1 s2 imm16 lowPc) d m p := by
  intro hall
  have h := (hall Unit flatMemory false ⟨.ls8, false, false, false, false, false, false, false⟩ 2#5 0#5 0#5 0x1000#16 0
    ⟨{ M88kCpu.zero with bigEndian := false }, fun a => if a = 0x1000 then 1#8 else 0#8, ()⟩ 0x1000
    ⟨rfl, rfl, fun _ => by decide⟩ (flatMemory_mapped _ _ _)).same.regs 2
  exact absurd h (by decide +kernel)

end

end Gxemul.M88k
