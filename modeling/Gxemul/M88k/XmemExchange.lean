import Gxemul.M88k.LoadStoreAgree
import Gxemul.M88k.LoadStore

/- When an xmem exchanges a register and its memory operand, or else raises an exception and
   changes neither of them.

   The load and the store compute the address one after the other, with normal rights. The
   store may find the register changed, and nothing is put back when it fails. -/
namespace Gxemul.M88k
open Lib (Byte ByteMem)
open Mips (LsSize)

def loadedValue (be : Bool) (data : List Byte) : Word := (memoryReadmax64 be data).setWidth 32

/-- `xmem` and `xmem.bu`, with an immediate offset or with a register, which may be scaled and may
be `.usr`. -/
inductive XmemInstr where
  | imm (word : Bool) (d s1 : BitVec 5) (imm16 : BitVec 16)
  | reg (word scaled usr : Bool) (d s1 s2 : BitVec 5)

namespace XmemInstr

def iword : XmemInstr → Word
  | .imm word d s1 imm16 => 0#5 ++ BitVec.ofBool word ++ d ++ s1 ++ imm16
  | .reg word scaled usr d s1 s2 =>
    0x3d#6 ++ d ++ s1 ++ 0#5 ++ BitVec.ofBool word ++ BitVec.ofBool scaled ++ BitVec.ofBool usr ++ 0#3 ++ s2

def word : XmemInstr → Bool
  | .imm word _ _ _ => word
  | .reg word _ _ _ _ _ => word

def scaled : XmemInstr → Bool
  | .imm _ _ _ _ => false
  | .reg _ scaled _ _ _ _ => scaled

def usr : XmemInstr → Bool
  | .imm _ _ _ _ => false
  | .reg _ _ usr _ _ _ => usr

def d : XmemInstr → BitVec 5
  | .imm _ d _ _ => d
  | .reg _ _ _ d _ _ => d

variable (x : XmemInstr)

def len : Nat := if x.word then 4 else 1

def address (c : M88kCpu) : Word :=
  match x with
  | .imm _ _ s1 imm16 => c.r s1.toNat + imm16.setWidth 32
  | .reg _ scaled _ _ s1 s2 => c.r s1.toNat + (if scaled then BitVec.ofNat 32 x.len else 1#32) * c.r s2.toNat

def misaligned (c : M88kCpu) : Bool := x.address c &&& BitVec.ofNat 32 (x.len - 1) != 0#32

def operand (c : M88kCpu) (write : Bool) : RwCall := ⟨x.address c, x.len, write, x.usr⟩

def oldBytes (c : M88kCpu) : List Byte := memoryWritemax64 c.bigEndian x.len ((c.r x.d.toNat).setWidth 64)

end XmemInstr

section
variable {ρ : Type} (M : MemorySystem ρ) (hostBig : Bool) (x : XmemInstr) (lowPc : Nat) (m : M88kMachine ρ)

structure XmemInstr.Exchanged (r : M88kMachine ρ × List Event) (data : List Byte) : Prop where
  memory : r.2 = [.read (x.operand m.cpu false) data, .write (x.operand m.cpu true) (x.oldBytes m.cpu)]
  regs : ∀ k, r.1.cpu.regs (.r k) = if k = x.d.toNat then loadedValue m.cpu.bigEndian data else m.cpu.regs (.r k)

structure Raised (r : M88kMachine ρ × List Event) : Prop where
  exception : ∃ v, Event.exception v ∈ r.2
  memory : ∀ a data, Event.write a data ∉ r.2
  regs : ∀ k, r.1.cpu.regs (.r k) = m.cpu.regs (.r k)

def XmemInstr.Settled (r : M88kMachine ρ × List Event) : Prop := (∃ data, x.Exchanged m r data) ∨ Raised m r

def XmemInstr.Correct : Prop :=
  ∃ r, (translateXmem x.iword).bind (XmemCall.run M hostBig lowPc m) = some r ∧ x.Settled m r

/-- An access, through the tables or with memory_rw(). -/
def MemorySystem.access (supervisor be : Bool) (a : RwCall) (host : ByteMem) (rest : ρ) (data : List Byte) : RwAnswer ρ :=
  match M.hostPage rest a.write a.user ((a.addr >>> 12).setWidth 20) with
  | none => M.rw supervisor be a host rest data
  | some q =>
    let p := q + (a.addr &&& 0xfff#32).toNat
    if a.write then ⟨host.write p data, rest, data, .done⟩ else ⟨host, rest, host.read p a.len, .done⟩

/-- What the memory answers to an access of the operand, with normal rights. -/
def XmemInstr.answer (c : M88kCpu) (write : Bool) (host : ByteMem) (rest : ρ) (data : List Byte) : RwAnswer ρ :=
  if x.misaligned c then ⟨host, rest, data, .exception⟩
  else M.access c.supervisor c.bigEndian ⟨x.address c, x.len, write, false⟩ host rest data

/-- When it is. The byte cannot be scaled. Where both accesses are done, it must not ask for user rights, and
the loaded value must not move the operand. Where only the load is done, it must have loaded what was in the
register. An exception must move the program counter, or else the store must fail too. -/
def XmemInstr.Meets : Prop :=
  (x.scaled = true → x.word = true) ∧
    let l := x.answer M m.cpu false m.host m.rest (List.replicate x.len 0#8)
    let loaded := m.cpu.set (.r x.d.toNat) (loadedValue m.cpu.bigEndian l.data)
    let raised := (m.cpu.synchPc lowPc).exception exceptionDataAccess false
    let store := fun c => (x.answer M c true l.host l.rest (x.oldBytes m.cpu)).result
    match l.result with
    | .done =>
      match store loaded with
      | .done => x.usr = false ∧ x.address loaded = x.address m.cpu
      | .exception => loadedValue m.cpu.bigEndian l.data = m.cpu.r x.d.toNat
      | .stopped => False
    | .exception => raised.pc.setWidth 32 = (m.cpu.synchPc lowPc).pc.setWidth 32 → store raised ≠ .done
    | .stopped => store m.cpu = .exception

end

/-! ## The fields -/

namespace XmemInstr

theorem and_eq_zero {w mask : Word} (h : ∀ j < 32, mask.getLsbD j = true → w.getLsbD j = false) : w &&& mask = 0#32 := by
  apply BitVec.eq_of_getLsbD_eq
  intro j hj
  rw [BitVec.getLsbD_and, BitVec.getLsbD_zero]
  cases hmask : mask.getLsbD j with
  | true => rw [h j hj hmask, Bool.false_and]
  | false => rw [Bool.and_false]

theorem and_bit_ne_zero (w : Word) {i : Nat} (hi : i < 32) : (w &&& BitVec.twoPow 32 i != 0#32) = w.getLsbD i := by
  rw [BitVec.and_twoPow]
  cases w.getLsbD i with
  | true =>
    rw [if_pos rfl, bne_iff_ne]
    intro h
    have hbit := congrArg (·.getLsbD i) h
    simp [hi] at hbit
  | false => rw [if_neg (by decide)]; rfl

theorem d_iword (x : XmemInstr) : x.iword.extractLsb' 21 5 = x.d := by
  apply BitVec.eq_of_getLsbD_eq
  intro j hj
  cases x <;> simp only [iword, d, BitVec.getLsbD_extractLsb', BitVec.getLsbD_append] <;> grind

section
variable (word scaled usr : Bool) (d s1 s2 : BitVec 5) (imm16 : BitVec 16)

theorem imm_op : (imm word d s1 imm16).iword >>> 26 = (BitVec.ofBool word).setWidth 32 := by
  apply BitVec.eq_of_getLsbD_eq
  intro j hj
  simp only [iword, BitVec.getLsbD_ushiftRight, BitVec.getLsbD_append, BitVec.getLsbD_setWidth]
  grind

theorem imm_s1 : (imm word d s1 imm16).iword.extractLsb' 16 5 = s1 := by
  apply BitVec.eq_of_getLsbD_eq
  intro j hj
  simp only [iword, BitVec.getLsbD_extractLsb', BitVec.getLsbD_append]
  grind

theorem imm_imm16 : (imm word d s1 imm16).iword.extractLsb' 0 16 = imm16 := by
  apply BitVec.eq_of_getLsbD_eq
  intro j hj
  simp only [iword, BitVec.getLsbD_extractLsb', BitVec.getLsbD_append]
  grind

theorem reg_op : (reg word scaled usr d s1 s2).iword.extractLsb' 26 6 = 0x3d#6 := by
  apply BitVec.eq_of_getLsbD_eq
  intro j hj
  simp only [iword, BitVec.getLsbD_extractLsb', BitVec.getLsbD_append]
  grind

theorem reg_s1 : (reg word scaled usr d s1 s2).iword.extractLsb' 16 5 = s1 := by
  apply BitVec.eq_of_getLsbD_eq
  intro j hj
  simp only [iword, BitVec.getLsbD_extractLsb', BitVec.getLsbD_append]
  grind

theorem reg_s2 : (reg word scaled usr d s1 s2).iword.extractLsb' 0 5 = s2 := by
  apply BitVec.eq_of_getLsbD_eq
  intro j hj
  simp only [iword, BitVec.getLsbD_extractLsb', BitVec.getLsbD_append]
  grind

theorem reg_subop : (reg word scaled usr d s1 s2).iword.extractLsb' 5 11 =
    0#5 ++ BitVec.ofBool word ++ BitVec.ofBool scaled ++ BitVec.ofBool usr ++ 0#3 := by
  apply BitVec.eq_of_getLsbD_eq
  intro j hj
  simp only [iword, BitVec.getLsbD_extractLsb', BitVec.getLsbD_append]
  grind

end

def form (x : XmemInstr) (be store : Bool) : LsForm where
  size := if x.word then .ls4 else .ls1
  store := store
  signed := false
  be := be
  scaled := x.scaled
  usr := false
  regofs := match x with
    | .imm _ _ _ _ => false
    | .reg _ _ _ _ _ _ => true
  noPcSync := true

def call (x : XmemInstr) (arg0 : LsPtr) : LsCall where
  arg0 := arg0
  arg1 := match x with
    | .imm _ _ s1 _ => .r s1.toNat
    | .reg _ _ _ _ s1 _ => .r s1.toNat
  arg2 := match x with
    | .imm _ _ _ imm16 => .inr (imm16.setWidth 32)
    | .reg _ _ _ _ _ s2 => .inl (.r s2.toNat)
  lowPc := 0

theorem imm_regofs (word : Bool) (d s1 : BitVec 5) (imm16 : BitVec 16) :
    ((imm word d s1 imm16).iword &&& 0xf0000000#32 != 0#32) = false := by
  have hop := imm_op word d s1 imm16
  have hzero : (imm word d s1 imm16).iword &&& 0xf0000000#32 = 0#32 := by
    apply and_eq_zero
    intro j hj hmask
    have hrange : 28 ≤ j := by
      revert j
      decide
    have hbit := congrArg (·.getLsbD (j - 26)) hop
    simp only [BitVec.getLsbD_ushiftRight, BitVec.getLsbD_setWidth, BitVec.getLsbD_ofBool] at hbit
    rw [show 26 + (j - 26) = j by omega] at hbit
    rw [hbit]
    simp [show j - 26 ≠ 0 by omega]
  rw [hzero]
  rfl

section
variable (word scaled usr : Bool) (d s1 s2 : BitVec 5)

theorem reg_subop_bit (k : Nat) (hk : k < 11) : (reg word scaled usr d s1 s2).iword.getLsbD (5 + k) =
    (0#5 ++ BitVec.ofBool word ++ BitVec.ofBool scaled ++ BitVec.ofBool usr ++ 0#3 : BitVec 11).getLsbD k := by
  rw [← reg_subop word scaled usr d s1 s2, BitVec.getLsbD_extractLsb', decide_eq_true hk, Bool.true_and]

theorem reg_word : ((reg word scaled usr d s1 s2).iword &&& 0x400#32 != 0#32) = word := by
  refine (and_bit_ne_zero _ (show 10 < 32 by decide)).trans ((reg_subop_bit word scaled usr d s1 s2 5 (by decide)).trans ?_)
  cases word <;> cases scaled <;> cases usr <;> decide

theorem reg_scaled : ((reg word scaled usr d s1 s2).iword &&& 0x200#32 != 0#32) = scaled := by
  refine (and_bit_ne_zero _ (show 9 < 32 by decide)).trans ((reg_subop_bit word scaled usr d s1 s2 4 (by decide)).trans ?_)
  cases word <;> cases scaled <;> cases usr <;> decide

theorem reg_wt : ((reg word scaled usr d s1 s2).iword &&& 0x80#32 != 0#32) = false := by
  refine (and_bit_ne_zero _ (show 7 < 32 by decide)).trans ((reg_subop_bit word scaled usr d s1 s2 2 (by decide)).trans ?_)
  cases word <;> cases scaled <;> cases usr <;> decide

theorem reg_op_bit (k : Nat) (hk : k < 6) : (reg word scaled usr d s1 s2).iword.getLsbD (26 + k) = (0x3d#6).getLsbD k := by
  rw [← reg_op word scaled usr d s1 s2, BitVec.getLsbD_extractLsb', decide_eq_true hk, Bool.true_and]

theorem reg_regofs : ((reg word scaled usr d s1 s2).iword &&& 0xf0000000#32 != 0#32) = true := by
  rw [bne_iff_ne]
  intro h
  have hbit := congrArg (·.getLsbD 31) h
  have hop := reg_op_bit word scaled usr d s1 s2 5 (by decide)
  rw [BitVec.getLsbD_and, hop] at hbit
  exact absurd hbit (by decide)

end

theorem imm_word (word : Bool) (d s1 : BitVec 5) (imm16 : BitVec 16) :
    (((imm word d s1 imm16).iword >>> 26) &&& 1#32 != 0#32) = word := by
  rw [imm_op]
  cases word <;> decide

theorem form_iword (x : XmemInstr) (be store : Bool) : (xmemArgs x.iword).form be store = x.form be store := by
  cases x with
  | imm word d s1 imm16 =>
    simp only [xmemArgs, XmemArgs.form, form, imm_regofs, Bool.false_and, Bool.false_eq_true, if_false, imm_word]
    rfl
  | reg word scaled usr d s1 s2 =>
    simp only [xmemArgs, XmemArgs.form, form, reg_regofs, reg_scaled, reg_wt, reg_word, Bool.true_and, if_true]
    rfl

theorem call_iword (x : XmemInstr) (arg0 : LsPtr) : (xmemArgs x.iword).call arg0 = x.call arg0 := by
  cases x with
  | imm word d s1 imm16 =>
    unfold xmemArgs XmemArgs.call call
    dsimp only
    rw [imm_regofs, if_neg (by decide), imm_s1, imm_imm16]
  | reg word scaled usr d s1 s2 =>
    unfold xmemArgs XmemArgs.call call
    rw [reg_regofs, if_pos rfl, reg_s1, reg_s2]

theorem translateXmem_iword (x : XmemInstr) (hd : x.d ≠ 0#5) : translateXmem x.iword = some (.xmemSlow x.iword) := by
  have hfield := d_iword x
  have hne : x.iword ≠ 0#32 := by
    intro h
    rw [h] at hfield
    exact hd (hfield.symm.trans (by decide))
  unfold translateXmem
  dsimp only
  rw [hfield, if_neg hd]
  cases x with
  | imm word d s1 imm16 =>
    rw [imm_op, if_pos, if_neg hne]
    cases word <;> decide
  | reg word scaled usr d s1 s2 =>
    have hop : (reg word scaled usr d s1 s2).iword >>> 26 = 0x3d#32 := by
      apply BitVec.eq_of_getLsbD_eq
      intro j hj
      rw [BitVec.getLsbD_ushiftRight]
      by_cases hj6 : j < 6
      · rw [reg_op_bit word scaled usr d s1 s2 j hj6]
        revert j
        decide
      · rw [BitVec.getLsbD_of_ge _ _ (by omega)]
        revert j
        decide
    have hzero {mask : Word} (hmask : ∀ j < 32, mask.getLsbD j = true → 11 ≤ j ∧ j < 16) :
        (reg word scaled usr d s1 s2).iword &&& mask = 0#32 := by
      apply and_eq_zero
      intro j hj hbit
      obtain ⟨hle, hlt⟩ := hmask j hj hbit
      have hsubop := reg_subop_bit word scaled usr d s1 s2 (j - 5) (by omega)
      rw [show 5 + (j - 5) = j by omega] at hsubop
      rw [hsubop]
      grind
    have htype : ((reg word scaled usr d s1 s2).iword >>> 10) &&& 3#32 = (BitVec.ofBool word).setWidth 32 := by
      apply BitVec.eq_of_getLsbD_eq
      intro j hj
      rw [BitVec.getLsbD_and, BitVec.getLsbD_ushiftRight, BitVec.getLsbD_setWidth, BitVec.getLsbD_ofBool]
      have h0 := reg_subop_bit word scaled usr d s1 s2 5 (by decide)
      have h1 := reg_subop_bit word scaled usr d s1 s2 6 (by decide)
      rcases (by omega : j = 0 ∨ j = 1 ∨ 2 ≤ j) with rfl | rfl | hj2
      · rw [h0]
        cases word <;> cases scaled <;> cases usr <;> decide
      · rw [h1]
        cases word <;> cases scaled <;> cases usr <;> decide
      · have hthree : (3#32).getLsbD j = false := by
          revert j
          decide
        rw [hthree, Bool.and_false]
        simp [show j ≠ 0 by omega]
    have hwt := reg_wt word scaled usr d s1 s2
    rw [hop, if_neg (by decide), hzero (by decide), hzero (by decide), htype, if_pos ⟨rfl, by decide⟩, if_neg (by decide),
      if_neg (by decide), if_neg, if_neg]
    · intro h
      rw [bne_eq_false_iff_eq] at hwt
      exact h hwt
    · cases word <;> decide

end XmemInstr

/-! ## Exceptions -/

namespace M88kCpu
variable (c : M88kCpu)

theorem exception_misaligned :
    c.exception exceptionMisalignedAccess false = { c with running := false, othersRunning := false } := by
  unfold exception
  rw [if_pos (by decide)]

@[simp] theorem bigEndian_setCr (n : Nat) (v : Word) : (c.setCr n v).bigEndian = c.bigEndian := rfl

@[simp] theorem bigEndian_stcr (v : Word) (n : Nat) : (c.stcr v n).bigEndian = c.bigEndian := by
  unfold stcr
  split_ifs <;> rfl

@[simp] theorem bigEndian_updateShadowRegs (v : Nat) : (c.updateShadowRegs v).bigEndian = c.bigEndian := by
  unfold updateShadowRegs
  dsimp only
  split_ifs <;> simp

@[simp] theorem bigEndian_handleVector (v : Nat) : (c.handleVector v).bigEndian = c.bigEndian := by
  unfold handleVector transactions
  split_ifs <;> simp

theorem bigEndian_exception (v : Nat) (isTrap : Bool) : (c.exception v isTrap).bigEndian = c.bigEndian := by
  unfold exception noTransactions
  dsimp only
  split_ifs <;> simp

theorem cr_setCr_of_ne {n k : Nat} (h : k ≠ n) (v : Word) : (c.setCr n v).cr k = c.cr k :=
  regs_set_of_ne (fun heq => h (RegPtr.cr.inj heq))

@[simp] theorem pc_setCr (n : Nat) (v : Word) : (c.setCr n v).pc = c.pc := rfl

@[simp] theorem pc_handleVector (v : Nat) : (c.handleVector v).pc = c.pc := by
  unfold handleVector transactions
  split_ifs <;> simp

theorem cr_updateShadowRegs {k : Nat} (h : k < 3 ∨ 6 < k) (v : Nat) : (c.updateShadowRegs v).cr k = c.cr k := by
  have h3 : k ≠ crSsbr := by rintro rfl; exact absurd h (by decide)
  have h4 : k ≠ crSxip := by rintro rfl; exact absurd h (by decide)
  have h5 : k ≠ crSnip := by rintro rfl; exact absurd h (by decide)
  have h6 : k ≠ crSfip := by rintro rfl; exact absurd h (by decide)
  unfold updateShadowRegs
  dsimp only
  split_ifs <;> simp [cr_setCr_of_ne, h3, h4, h5, h6]

theorem cr_noTransactions {k : Nat} (h : k < 8) : c.noTransactions.cr k = c.cr k := by
  have hne {n : Nat} (hn : 8 ≤ n) : k ≠ n := by omega
  unfold noTransactions
  simp [cr_setCr_of_ne, hne, crDmt0, crDmd0, crDma0, crDmt1, crDmd1, crDma1, crDmt2, crDmd2, crDma2]

theorem cr_transactions {k : Nat} (h : k < 8) : c.transactions.cr k = c.cr k := by
  have hne {n : Nat} (hn : 8 ≤ n) : k ≠ n := by omega
  unfold transactions
  simp [cr_setCr_of_ne, hne, crDmt0, crDmd0, crDma0, crDmt1, crDmd1, crDma1, crDmt2, crDmd2, crDma2]

theorem cr_handleVector {k : Nat} (h : k < 5 ∨ k = crVbr) (v : Nat) : (c.handleVector v).cr k = c.cr k := by
  have h5 : k ≠ crSnip := by rintro rfl; exact absurd h (by decide)
  have h6 : k ≠ crSfip := by rintro rfl; exact absurd h (by decide)
  have h8 : k < 8 := by
    rcases h with h | rfl
    · omega
    · decide
  unfold handleVector
  split_ifs
  · rfl
  · simp [cr_setCr_of_ne, h5, h6]
  · rfl
  · simp [cr_setCr_of_ne, h5, h6]
  · exact cr_transactions c h8
  · rfl

theorem cr_stcr_of_ne {k : Nat} (h : k ≠ crPsr) (v : Word) : (c.stcr v crPsr).cr k = c.cr k := by
  unfold stcr
  rw [if_pos rfl]
  split_ifs
  · rfl
  · rfl
  · exact cr_setCr_of_ne c h v

def raisedPsr (be : Bool) (psr : Word) : Word :=
  let v := psr ||| psrSfrz ||| psrInd ||| psrSfd1 ||| psrMode
  if (!be && v &&& psrBo == 0#32) || (be && v &&& psrBo != 0#32) then psr else if v &&& psrMxm ≠ 0#32 then psr else v

theorem cr_stcr_raised :
    (c.stcr (c.cr crPsr ||| psrSfrz ||| psrInd ||| psrSfd1 ||| psrMode) crPsr).cr crPsr =
      raisedPsr c.bigEndian (c.cr crPsr) := by
  unfold stcr raisedPsr
  rw [if_pos rfl]
  dsimp only
  split_ifs
  · rfl
  · rfl
  · exact regs_set_same

def frozen : Bool := c.cr crPsr &&& psrSfrz != 0#32

def raising : M88kCpu :=
  let c' := if c.frozen then c else c.setCr crEpsr (c.cr crPsr)
  let c' := c'.stcr (c'.cr crPsr ||| psrSfrz ||| psrInd ||| psrSfd1 ||| psrMode) crPsr
  if c.frozen then c' else c'.updateShadowRegs exceptionDataAccess

theorem cr_psr_raising : c.raising.cr crPsr = raisedPsr c.bigEndian (c.cr crPsr) := by
  have hepsr : (c.setCr crEpsr (c.cr crPsr)).cr crPsr = c.cr crPsr := cr_setCr_of_ne c (by decide) _
  have hmain := cr_stcr_raised (c.setCr crEpsr (c.cr crPsr))
  unfold raising
  cases c.frozen with
  | true => exact cr_stcr_raised c
  | false =>
    rw [if_neg (by decide), if_neg (by decide), cr_updateShadowRegs _ (.inl (by decide)), hmain, hepsr]
    rfl

theorem cr_vbr_raising : c.raising.cr crVbr = c.cr crVbr := by
  unfold raising
  cases c.frozen with
  | true => exact cr_stcr_of_ne c (by decide) _
  | false =>
    rw [if_neg (by decide), if_neg (by decide), cr_updateShadowRegs _ (.inr (by decide)), cr_stcr_of_ne _ (by decide)]
    exact cr_setCr_of_ne c (by decide) _

theorem exception_dataAccess :
    c.exception exceptionDataAccess false =
      ({ c.raising with
          pc := (c.raising.cr crVbr + BitVec.ofNat 32 (8 * if c.frozen then exceptionError else exceptionDataAccess)).setWidth 64
          delaySlot := if c.raising.delaySlot ≠ 0 then exceptionInDelaySlot else notDelayed } : M88kCpu).noTransactions.handleVector
        (if c.frozen then exceptionError else exceptionDataAccess) := by
  unfold exception raising frozen
  rw [if_neg (by decide)]
  cases c.cr crPsr &&& psrSfrz != 0#32 with
  | true => exact if_pos (by decide)
  | false => exact if_pos (by decide)

theorem cr_psr_exception :
    (c.exception exceptionDataAccess false).cr crPsr = raisedPsr c.bigEndian (c.cr crPsr) := by
  rw [exception_dataAccess, cr_handleVector _ (.inl (by decide)), cr_noTransactions _ (by decide)]
  exact cr_psr_raising c

theorem pc_exception :
    (c.exception exceptionDataAccess false).pc =
      (c.cr crVbr + BitVec.ofNat 32 (8 * if c.frozen then exceptionError else exceptionDataAccess)).setWidth 64 := by
  rw [exception_dataAccess, pc_handleVector, cr_vbr_raising]
  rfl

end M88kCpu

theorem SameCpu.exception {c c' : M88kCpu} (h : SameCpu c c') :
    (c'.exception exceptionDataAccess false).pc = (c.exception exceptionDataAccess false).pc ∧
      (c'.exception exceptionDataAccess false).supervisor = (c.exception exceptionDataAccess false).supervisor := by
  have hcr (k : Nat) : c'.cr k = c.cr k := congrFun h.regs (.cr k)
  constructor
  · rw [M88kCpu.pc_exception, M88kCpu.pc_exception]
    unfold M88kCpu.frozen
    rw [hcr, hcr]
  · unfold M88kCpu.supervisor
    rw [M88kCpu.cr_psr_exception, M88kCpu.cr_psr_exception, hcr, h.bigEndian]

/-! ## One load or store -/

/-- The event of an access, and `done` if it succeeds. -/
def RwResult.seen (done : Event) (vector : Nat) : RwResult → Event
  | .done => done
  | .exception => .exception vector
  | .stopped => .stopped

section
variable {ρ : Type} {M : MemorySystem ρ} {hostBig : Bool} {f : LsForm} {ic : LsCall} {m : M88kMachine ρ}

theorem lsN_misaligned (f : LsForm) (ic : LsCall) (hostBig : Bool) (hsync : f.noPcSync = true) (husr : f.usr = false) (hmis : f.misaligned (f.addr m.cpu ic) = true)
    (hok : (f.transaction m.cpu ic (f.addr m.cpu ic)).2 = true) :
    ∃ c, SameCpu m.cpu c ∧ f.lsN M ic m hostBig =
      ({ m with cpu := { c with running := false, othersRunning := false } }, [.exception exceptionMisalignedAccess]) := by
  refine ⟨_, transaction_same f m.cpu ic (f.addr m.cpu ic), ?_⟩
  rw [lsN_not_allowed (fun hal => by rw [hal.aligned] at hmis; cases hmis)]
  unfold LsForm.lsGeneric
  rw [hsync]
  dsimp only
  rw [if_pos rfl, hok, husr, hmis, Bool.not_true, if_neg (by decide), Bool.false_and, if_neg (by decide), if_pos rfl,
    M88kCpu.exception_misaligned]

theorem lsN_page (hostBig : Bool) (hal : f.Allowed m.cpu ic) :
    let a := f.call (f.addr m.cpu ic)
    (∃ q, M.hostPage m.rest a.write a.user ((a.addr >>> 12).setWidth 20) = some q ∧
      f.lsN M ic m hostBig = f.lsFast ic m hostBig (q + (f.addr m.cpu ic &&& 0xfff#32).toNat)) ∨
    (M.hostPage m.rest a.write a.user ((a.addr >>> 12).setWidth 20) = none ∧ f.lsN M ic m hostBig = f.lsGeneric M ic m) := by
  unfold LsForm.lsN
  cases hpage : f.page M ic m with
  | some q =>
    refine .inl ⟨q, hpage, ?_⟩
    dsimp only
    rw [hal.usr, hal.aligned, Bool.or_self, if_neg (by decide)]
  | none => exact .inr ⟨hpage, rfl⟩

theorem lsN_store (f : LsForm) (ic : LsCall) (hostBig : Bool) {x : Word} (hstore : f.store = true) (hsync : f.noPcSync = true) (h8 : f.size ≠ .ls8)
    (hbe : f.be = m.cpu.bigEndian) (harg : ic.arg0 = .var x) (hal : f.Allowed m.cpu ic) :
    let a := f.call (f.addr m.cpu ic)
    let data := memoryWritemax64 m.cpu.bigEndian f.size.toNat (x.setWidth 64)
    let s := M.access m.cpu.supervisor m.cpu.bigEndian a m.host m.rest data
    ∃ v, (f.lsN M ic m hostBig).2 = [s.result.seen (.write a data) v] ∧
      ∀ k, (f.lsN M ic m hostBig).1.cpu.regs (.r k) = m.cpu.regs (.r k) := by
  have hgeneric : f.genericBytes m.cpu ic = memoryWritemax64 m.cpu.bigEndian f.size.toNat (x.setWidth 64) := by
    unfold LsForm.genericBytes
    rw [if_neg h8, harg]
    rfl
  have hwrite : (f.call (f.addr m.cpu ic)).write = true := hstore
  dsimp only
  rw [← hgeneric]
  unfold MemorySystem.access
  obtain ⟨q, hm, hfast⟩ | ⟨hm, hslow⟩ := lsN_page (M := M) hostBig hal
  · have hbytes : f.fastBytes m.cpu ic = f.genericBytes m.cpu ic := by
      unfold LsForm.fastBytes
      rw [if_neg (fun h => h8 h.1), hbe]
    rw [hm, hfast]
    dsimp only
    rw [hwrite, if_pos rfl]
    unfold LsForm.lsFast
    dsimp only
    rw [if_pos hstore, fastStore_eq, hbytes]
    refine ⟨0, ?_, fun _ => rfl⟩
    have hread := ByteMem.read_write m.host (q + (f.addr m.cpu ic &&& 0xfff#32).toNat) (f.genericBytes m.cpu ic)
    rw [length_genericBytes] at hread
    rw [hread]
    rfl
  · obtain ⟨c, hsame, heq⟩ := lsGeneric_eq (M := M) hal (transaction_store hstore)
    have hstart : f.start ic m.cpu = m.cpu := if_pos hsync
    rw [hstart] at hsame
    rw [hm, hslow, heq, if_pos hstore]
    unfold M88kMachine.memoryRw
    dsimp only
    rw [hsame.supervisor, hsame.bigEndian]
    refine ⟨exceptionDataAccess, ?_, fun k => ?_⟩
    · unfold RwCall.event
      rw [hwrite]
      cases (M.rw m.cpu.supervisor m.cpu.bigEndian (f.call (f.addr m.cpu ic)) m.host m.rest (f.genericBytes m.cpu ic)).result <;>
        rfl
    · cases (M.rw m.cpu.supervisor m.cpu.bigEndian (f.call (f.addr m.cpu ic)) m.host m.rest (f.genericBytes m.cpu ic)).result
      · exact congrFun hsame.regs _
      · exact M88kCpu.regs_exception.trans (congrFun hsame.regs _)
      · exact congrFun hsame.regs _

theorem lsN_load (f : LsForm) (ic : LsCall) (hostBig : Bool) {r : RegPtr} (hstore : f.store = false) (hsync : f.noPcSync = true) (h8 : f.size ≠ .ls8)
    (hbe : f.be = m.cpu.bigEndian) (harg : ic.arg0 = .reg r) (hok : (f.transaction m.cpu ic (f.addr m.cpu ic)).2 = true)
    (hal : f.Allowed m.cpu ic) :
    let a := f.call (f.addr m.cpu ic)
    let l := M.access m.cpu.supervisor m.cpu.bigEndian a m.host m.rest (List.replicate f.size.toNat 0#8)
    ∃ c, SameCpu m.cpu c ∧ f.lsN M ic m hostBig =
      (⟨match l.result with
        | .done => c.set r ((f.kind.extend (memoryReadmax64 m.cpu.bigEndian l.data)).setWidth 32)
        | .exception => c.exception exceptionDataAccess false
        | .stopped => { c with running := false }, l.host, l.rest⟩,
        [l.result.seen (.read a l.data) exceptionDataAccess]) := by
  have hwrite : (f.call (f.addr m.cpu ic)).write = false := hstore
  unfold MemorySystem.access
  obtain ⟨q, hm, hfast⟩ | ⟨hm, hslow⟩ := lsN_page (M := M) hostBig hal
  · refine ⟨m.cpu, SameCpu.refl _, ?_⟩
    rw [hm, hfast]
    dsimp only
    rw [hwrite, if_neg (by decide)]
    unfold LsForm.lsFast
    rw [if_neg (by rw [hstore]; decide), fastLoad_eq harg, if_neg h8, hbe]
    rfl
  · have hstart : f.start ic m.cpu = m.cpu := if_pos hsync
    obtain ⟨c, hsame, heq⟩ := lsGeneric_eq (M := M) hal (hstart.symm ▸ hok)
    rw [hstart] at hsame
    refine ⟨c, hsame, ?_⟩
    rw [hm, hslow, heq, if_neg (by rw [hstore]; decide)]
    unfold M88kMachine.memoryRw RwCall.event
    dsimp only
    rw [hsame.supervisor, hsame.bigEndian, hwrite]
    cases (M.rw m.cpu.supervisor m.cpu.bigEndian (f.call (f.addr m.cpu ic)) m.host m.rest
      (List.replicate f.size.toNat 0#8)).result with
    | done =>
      rw [if_pos rfl, hsame.bigEndian]
      unfold LsForm.genericLoad
      rw [harg]
      dsimp only
      rw [if_neg h8]
      rfl
    | exception => rfl
    | stopped => rfl
end

/-! ## The two steps of an exchange -/

namespace XmemInstr
variable {ρ : Type} {M : MemorySystem ρ} {hostBig : Bool} (x : XmemInstr) {m : M88kMachine ρ}

theorem form_addr (be store : Bool) (arg0 : LsPtr) (c : M88kCpu) :
    (x.form be store).addr c (x.call arg0) = x.address c := by
  cases x with
  | imm word d s1 imm16 => rfl
  | reg word scaled usr d s1 s2 =>
    cases scaled with
    | true => cases word <;> rfl
    | false => exact congrArg _ (BitVec.one_mul _).symm

theorem form_size (be store : Bool) : (x.form be store).size.toNat = x.len := by
  unfold form len
  cases x.word <;> rfl

theorem form_size_ne (be store : Bool) : (x.form be store).size ≠ .ls8 := by
  unfold form
  cases x.word <;> simp

theorem form_misaligned (be store : Bool) (c : M88kCpu) :
    (x.form be store).misaligned (x.address c) = x.misaligned c := by
  unfold LsForm.misaligned misaligned
  rw [form_size]

theorem form_extend (be be' store : Bool) (data : List Byte) :
    ((x.form be store).kind.extend (memoryReadmax64 be' data)).setWidth 32 = loadedValue be' data := by
  unfold Mips.LsKind.extend loadedValue
  rw [if_neg (by intro h; cases h)]

/-- What the load leaves, when the memory answers `l`. -/
structure Loads (x : XmemInstr) (m : M88kMachine ρ) (l : RwAnswer ρ) (r : M88kMachine ρ × List Event) : Prop where
  host : r.1.host = l.host
  rest : r.1.rest = l.rest
  bigEndian : r.1.cpu.bigEndian = m.cpu.bigEndian
  seen : ∃ v, r.2 = [l.result.seen (.read ⟨x.address m.cpu, x.len, false, false⟩ l.data) v]
  regs : l.result ≠ .done → ∀ k, r.1.cpu.regs (.r k) = m.cpu.regs (.r k)
  pc : l.result ≠ .exception → r.1.cpu.pc = m.cpu.pc
  supervisor : l.result ≠ .exception → r.1.cpu.supervisor = m.cpu.supervisor
  done : l.result = .done → ∀ k, r.1.cpu.regs (.r k) =
    if k = x.d.toNat then loadedValue m.cpu.bigEndian l.data else m.cpu.regs (.r k)
  exception : l.result = .exception → x.misaligned m.cpu = false →
    r.1.cpu.pc = (m.cpu.exception exceptionDataAccess false).pc ∧
      r.1.cpu.supervisor = (m.cpu.exception exceptionDataAccess false).supervisor

theorem loads (hostBig : Bool) (hd : x.d ≠ 0#5) :
    x.Loads m (x.answer M m.cpu false m.host m.rest (List.replicate x.len 0#8))
      ((x.form m.cpu.bigEndian false).lsN M (x.call (.reg (.r x.d.toNat))) m hostBig) := by
  have hrange : 1 ≤ x.d.toNat ∧ x.d.toNat ≤ 31 := by
    have hne : x.d.toNat ≠ 0 := fun h => hd (BitVec.eq_of_toNat_eq h)
    omega
  have hok (a : Word) : ((x.form m.cpu.bigEndian false).transaction m.cpu (x.call (.reg (.r x.d.toNat))) a).2 = true :=
    transaction_load (n := x.d.toNat) rfl hrange (fun h => absurd h (x.form_size_ne _ _))
  have haddr := x.form_addr m.cpu.bigEndian false (.reg (.r x.d.toNat)) m.cpu
  cases hmis : x.misaligned m.cpu with
  | true =>
    have hl : x.answer M m.cpu false m.host m.rest (List.replicate x.len 0#8) =
        ⟨m.host, m.rest, List.replicate x.len 0#8, .exception⟩ := by
      unfold answer
      rw [hmis, if_pos rfl]
    obtain ⟨c, hsame, heq⟩ := lsN_misaligned (M := M) (m := m) (x.form m.cpu.bigEndian false)
      (x.call (.reg (.r x.d.toNat))) hostBig rfl rfl (by rw [haddr, form_misaligned, hmis]) (hok _)
    rw [hl, heq]
    exact
      { host := rfl
        rest := rfl
        bigEndian := hsame.bigEndian
        seen := ⟨_, rfl⟩
        regs := fun _ k => congrFun hsame.regs _
        pc := fun h => absurd rfl h
        supervisor := fun h => absurd rfl h
        done := fun h => by cases h
        exception := fun _ h => by rw [hmis] at h; cases h }
  | false =>
    have hal : (x.form m.cpu.bigEndian false).Allowed m.cpu (x.call (.reg (.r x.d.toNat))) :=
      ⟨rfl, by rw [haddr, form_misaligned, hmis]⟩
    have hl : x.answer M m.cpu false m.host m.rest (List.replicate x.len 0#8) =
        M.access m.cpu.supervisor m.cpu.bigEndian ⟨x.address m.cpu, x.len, false, false⟩ m.host m.rest
          (List.replicate x.len 0#8) := by
      unfold answer
      rw [hmis, if_neg (by decide)]
    obtain ⟨c, hsame, heq⟩ := lsN_load (M := M) (m := m) (x.form m.cpu.bigEndian false)
      (x.call (.reg (.r x.d.toNat))) hostBig rfl rfl (x.form_size_ne _ _) rfl rfl (hok _) hal
    unfold LsForm.call at heq
    rw [haddr, form_size] at heq
    have hstore : (x.form m.cpu.bigEndian false).store = false := rfl
    have husr : (x.form m.cpu.bigEndian false).usr = false := rfl
    rw [hstore, husr, ← hl] at heq
    generalize x.answer M m.cpu false m.host m.rest (List.replicate x.len 0#8) = l at heq ⊢
    obtain ⟨host, rest, data, result⟩ := l
    rw [heq]
    obtain ⟨hpc, hsup⟩ := hsame.exception
    cases result with
    | done =>
      exact
        { host := rfl
          rest := rfl
          bigEndian := hsame.bigEndian
          seen := ⟨_, rfl⟩
          regs := fun h => absurd rfl h
          pc := fun _ => hsame.pc
          supervisor := fun _ => by
            have hset : ∀ v, (c.set (.r x.d.toNat) v).supervisor = c.supervisor := by
              intro v
              unfold M88kCpu.supervisor M88kCpu.cr
              rw [M88kCpu.regs_set_of_ne RegPtr.noConfusion]
            exact (hset _).trans hsame.supervisor
          done := fun _ k => by
            by_cases hk : k = x.d.toNat
            · rw [if_pos hk, hk]
              exact M88kCpu.regs_set_same
            · rw [if_neg hk]
              exact (M88kCpu.regs_set_of_ne (fun h => hk (RegPtr.r.inj h))).trans (congrFun hsame.regs _)
          exception := fun h => by cases h }
    | exception =>
      exact
        { host := rfl
          rest := rfl
          bigEndian := (M88kCpu.bigEndian_exception _ _ _).trans hsame.bigEndian
          seen := ⟨_, rfl⟩
          regs := fun _ k => M88kCpu.regs_exception.trans (congrFun hsame.regs _)
          pc := fun h => absurd rfl h
          supervisor := fun h => absurd rfl h
          done := fun h => by cases h
          exception := fun _ _ => ⟨hpc, hsup⟩ }
    | stopped =>
      exact
        { host := rfl
          rest := rfl
          bigEndian := hsame.bigEndian
          seen := ⟨_, rfl⟩
          regs := fun _ k => congrFun hsame.regs _
          pc := fun _ => hsame.pc
          supervisor := fun _ => hsame.supervisor
          done := fun h => by cases h
          exception := fun h => by cases h }

theorem stores (hostBig : Bool) (old : Word) :
    let s := x.answer M m.cpu true m.host m.rest (memoryWritemax64 m.cpu.bigEndian x.len (old.setWidth 64))
    let r := (x.form m.cpu.bigEndian true).lsN M (x.call (.var old)) m hostBig
    (∃ v, r.2 = [s.result.seen (.write ⟨x.address m.cpu, x.len, true, false⟩
      (memoryWritemax64 m.cpu.bigEndian x.len (old.setWidth 64))) v]) ∧
      ∀ k, r.1.cpu.regs (.r k) = m.cpu.regs (.r k) := by
  have haddr := x.form_addr m.cpu.bigEndian true (.var old) m.cpu
  unfold answer
  cases hmis : x.misaligned m.cpu with
  | true =>
    obtain ⟨c, hsame, heq⟩ := lsN_misaligned (M := M) (m := m) (x.form m.cpu.bigEndian true)
      (x.call (.var old)) hostBig rfl rfl (by rw [haddr, form_misaligned, hmis]) (transaction_store rfl)
    rw [if_pos rfl, heq]
    exact ⟨⟨_, rfl⟩, fun k => congrFun hsame.regs _⟩
  | false =>
    have hal : (x.form m.cpu.bigEndian true).Allowed m.cpu (x.call (.var old)) :=
      ⟨rfl, by rw [haddr, form_misaligned, hmis]⟩
    obtain ⟨v, hseen, hregs⟩ := lsN_store (M := M) (m := m) (x.form m.cpu.bigEndian true)
      (x.call (.var old)) hostBig (x := old) rfl rfl (x.form_size_ne _ _) rfl rfl hal
    unfold LsForm.call at hseen
    rw [haddr, form_size] at hseen
    rw [if_neg (by decide)]
    exact ⟨⟨v, hseen⟩, hregs⟩

theorem address_congr {c c' : M88kCpu} (h : ∀ k, c'.regs (.r k) = c.regs (.r k)) : x.address c' = x.address c := by
  unfold address M88kCpu.r
  cases x <;> simp only [h]

theorem answer_congr {c c' : M88kCpu} (h : ∀ k, c'.regs (.r k) = c.regs (.r k)) (hbe : c'.bigEndian = c.bigEndian)
    (hsup : c'.supervisor = c.supervisor) (write : Bool) (host : ByteMem) (rest : ρ) (data : List Byte) :
    x.answer M c' write host rest data = x.answer M c write host rest data := by
  unfold answer misaligned
  rw [x.address_congr h, hbe, hsup]

theorem m88kLoadstore_form (be store : Bool) :
    m88kLoadstore (x.form be store) = if x.scaled = true ∧ x.word = false then none else some (x.form be store) := by
  cases x with
  | imm word d s1 imm16 => cases word <;> cases store <;> rfl
  | reg word scaled usr d s1 s2 => cases word <;> cases scaled <;> cases store <;> rfl

section
variable (hostBig) (lowPc : Nat)

theorem run_none (hd : x.d ≠ 0#5) (hscaled : x.scaled = true ∧ x.word = false) :
    (translateXmem x.iword).bind (XmemCall.run M hostBig lowPc m) = none := by
  rw [translateXmem_iword x hd]
  change xmemSlow M hostBig x.iword lowPc m = none
  unfold xmemSlow callLoadstore
  dsimp only
  rw [form_iword, m88kLoadstore_form, if_pos hscaled]
  rfl

theorem run_eq (hd : x.d ≠ 0#5) (hscaled : ¬ (x.scaled = true ∧ x.word = false)) :
    let c := m.cpu.synchPc lowPc
    let l := (x.form c.bigEndian false).lsN M (x.call (.reg (.r x.d.toNat))) { m with cpu := c } hostBig
    let s := (x.form l.1.cpu.bigEndian true).lsN M (x.call (.var (c.r x.d.toNat))) l.1 hostBig
    ∃ r, (translateXmem x.iword).bind (XmemCall.run M hostBig lowPc m) = some r ∧
      if l.1.cpu.pc.setWidth 32 ≠ c.pc.setWidth 32 then r.1.cpu.regs = l.1.cpu.regs ∧ r.2 = l.2
      else r.1.cpu.regs = s.1.cpu.regs ∧ r.2 = l.2 ++ s.2 := by
  have hfield : (xmemArgs x.iword).d = x.d := d_iword x
  rw [translateXmem_iword x hd]
  change ∃ r, xmemSlow M hostBig x.iword lowPc m = some r ∧ _
  unfold xmemSlow callLoadstore
  simp only [form_iword, call_iword, m88kLoadstore_form, hfield]
  rw [if_neg hscaled, if_neg hd, if_neg hd, Option.map_some, Option.bind_eq_bind, Option.bind_some]
  generalize (x.form (m.cpu.synchPc lowPc).bigEndian false).lsN M (x.call (.reg (.r x.d.toNat)))
    { m with cpu := m.cpu.synchPc lowPc } hostBig = l
  obtain ⟨l, loaded⟩ := l
  by_cases hpc : l.cpu.pc.setWidth 32 ≠ (m.cpu.synchPc lowPc).pc.setWidth 32
  · rw [if_pos hpc]
    refine ⟨_, rfl, ?_⟩
    rw [if_pos hpc]
    exact ⟨rfl, rfl⟩
  · rw [if_neg hpc, if_neg hscaled, Option.map_some, Option.bind_some]
    generalize (x.form l.cpu.bigEndian true).lsN M (x.call (.var ((m.cpu.synchPc lowPc).r x.d.toNat))) l hostBig = s
    by_cases hpc' : s.1.cpu.pc.setWidth 32 ≠ (m.cpu.synchPc lowPc).pc.setWidth 32
    · rw [if_pos hpc']
      refine ⟨_, rfl, ?_⟩
      rw [if_neg hpc]
      exact ⟨rfl, rfl⟩
    · rw [if_neg hpc']
      refine ⟨_, rfl, ?_⟩
      rw [if_neg hpc]
      exact ⟨rfl, rfl⟩

end

/-! ## What has happened -/

section
variable {r : M88kMachine ρ × List Event} {a : RwCall} {data bytes : List Byte} {v w : Nat} {result : RwResult}

theorem not_exchanged_of_head {e : Event} {l : List Event} (hseen : r.2 = e :: l) (he : ∀ a data, e ≠ .read a data) :
    ¬ ∃ data, x.Exchanged m r data := by
  rintro ⟨data, h⟩
  have heq := hseen.symm.trans h.memory
  exact he _ _ (List.cons.inj heq).1

theorem settled_of_exception (hseen : r.2 = [.exception v]) (hregs : ∀ k, r.1.cpu.regs (.r k) = m.cpu.regs (.r k)) :
    x.Settled m r := by
  refine .inr ⟨⟨v, ?_⟩, fun a data h => ?_, hregs⟩
  · rw [hseen]
    exact List.mem_singleton_self _
  · rw [hseen, List.mem_singleton] at h
    cases h

theorem settled_exception_iff (hseen : r.2 = [.exception v, result.seen (.write a bytes) w])
    (hregs : ∀ k, r.1.cpu.regs (.r k) = m.cpu.regs (.r k)) : x.Settled m r ↔ result ≠ .done := by
  constructor
  · rintro h rfl
    rcases h with h | h
    · exact x.not_exchanged_of_head hseen (fun _ _ => Event.noConfusion) h
    · refine h.memory a bytes ?_
      rw [hseen]
      exact List.mem_cons_of_mem _ (List.mem_singleton_self _)
  · intro hresult
    refine .inr ⟨⟨v, ?_⟩, fun a data h => ?_, hregs⟩
    · rw [hseen]
      exact List.mem_cons_self
    · rw [hseen, List.mem_cons, List.mem_singleton] at h
      rcases h with h | h
      · cases h
      · cases result with
        | done => exact hresult rfl
        | exception => cases h
        | stopped => cases h

theorem settled_stopped_iff (hseen : r.2 = [.stopped, result.seen (.write a bytes) w])
    (hregs : ∀ k, r.1.cpu.regs (.r k) = m.cpu.regs (.r k)) : x.Settled m r ↔ result = .exception := by
  have hno := x.not_exchanged_of_head (m := m) hseen (fun _ _ => Event.noConfusion)
  constructor
  · intro h
    have hraised := h.resolve_left hno
    obtain ⟨u, hu⟩ := hraised.exception
    rw [hseen, List.mem_cons, List.mem_singleton] at hu
    rcases hu with hu | hu
    · cases hu
    · cases result with
      | done => cases hu
      | exception => rfl
      | stopped => cases hu
  · rintro rfl
    refine .inr ⟨⟨w, ?_⟩, fun a data h => ?_, hregs⟩
    · rw [hseen]
      exact List.mem_cons_of_mem _ (List.mem_singleton_self _)
    · rw [hseen, List.mem_cons, List.mem_singleton] at h
      rcases h with h | h <;> cases h

theorem settled_done_iff {address : Word} (data : List Byte) :
    r.2 = [.read ⟨x.address m.cpu, x.len, false, false⟩ data,
      result.seen (.write ⟨address, x.len, true, false⟩ (x.oldBytes m.cpu)) w] →
    (∀ k, r.1.cpu.regs (.r k) = if k = x.d.toNat then loadedValue m.cpu.bigEndian data else m.cpu.regs (.r k)) →
    (x.Settled m r ↔
      match result with
      | .done => x.usr = false ∧ address = x.address m.cpu
      | .exception => loadedValue m.cpu.bigEndian data = m.cpu.r x.d.toNat
      | .stopped => False) := by
  intro hseen hregs
  cases result with
  | done =>
    constructor
    · intro h
      rcases h with ⟨data', h⟩ | h
      · have heq := hseen.symm.trans h.memory
        obtain ⟨hread, hrest⟩ := List.cons.inj heq
        obtain ⟨hwrite, -⟩ := List.cons.inj hrest
        have husr := congrArg RwCall.user (Event.read.inj hread).1
        have haddr := congrArg RwCall.addr (Event.write.inj hwrite).1
        exact ⟨husr.symm, haddr⟩
      · exact absurd (hseen ▸ List.mem_cons_of_mem _ (List.mem_singleton_self _)) (h.memory _ _)
    · rintro ⟨husr, rfl⟩
      refine .inl ⟨data, ?_, hregs⟩
      unfold operand
      rw [hseen, husr]
      rfl
  | exception =>
    constructor
    · intro h
      rcases h with ⟨data', h⟩ | h
      · have heq := hseen.symm.trans h.memory
        cases (List.cons.inj (List.cons.inj heq).2).1
      · have hd := (hregs x.d.toNat).symm.trans (h.regs x.d.toNat)
        rw [if_pos rfl] at hd
        exact hd
    · intro h
      refine .inr ⟨⟨w, ?_⟩, fun a data h => ?_, fun k => ?_⟩
      · rw [hseen]
        exact List.mem_cons_of_mem _ (List.mem_singleton_self _)
      · rw [hseen, List.mem_cons, List.mem_singleton] at h
        rcases h with h | h <;> cases h
      · rw [hregs]
        split
        · rename_i hk
          rw [h, hk]
          rfl
        · rfl
  | stopped =>
    constructor
    · intro h
      rcases h with ⟨data', h⟩ | h
      · have heq := hseen.symm.trans h.memory
        cases (List.cons.inj (List.cons.inj heq).2).1
      · obtain ⟨u, hu⟩ := h.exception
        rw [hseen, List.mem_cons, List.mem_singleton] at hu
        rcases hu with hu | hu <;> cases hu
    · exact False.elim

end

end XmemInstr

/-! ## All instructions -/

section
variable {ρ : Type}

/-- Every xmem of a register other than r0. -/
theorem xmem_correct_iff (M : MemorySystem ρ) (hostBig : Bool) (x : XmemInstr) (lowPc : Nat) (m : M88kMachine ρ)
    (hd : x.d ≠ 0#5) : x.Correct M hostBig lowPc m ↔ x.Meets M lowPc m := by
  by_cases hscaled : x.scaled = true ∧ x.word = false
  · -- a call of NULL
    constructor
    · rintro ⟨r, hrun, -⟩
      rw [x.run_none hostBig lowPc hd hscaled] at hrun
      cases hrun
    · intro h
      have hword := h.1 hscaled.1
      rw [hscaled.2] at hword
      cases hword
  obtain ⟨r, hrun, hends⟩ := x.run_eq (M := M) (m := m) hostBig lowPc hd hscaled
  have hcorrect : x.Correct M hostBig lowPc m ↔ x.Settled m r := by
    constructor
    · rintro ⟨r', hrun', h⟩
      rw [hrun] at hrun'
      cases hrun'
      exact h
    · exact fun h => ⟨r, hrun, h⟩
  have hword : x.scaled = true → x.word = true := by
    intro h
    cases hw : x.word with
    | true => rfl
    | false => exact absurd ⟨h, hw⟩ hscaled
  rw [hcorrect]
  unfold XmemInstr.Meets
  dsimp only
  have hloads := x.loads (M := M) (m := { m with cpu := m.cpu.synchPc lowPc }) hostBig hd
  have hl : x.answer M (m.cpu.synchPc lowPc) false m.host m.rest (List.replicate x.len 0#8) =
      x.answer M m.cpu false m.host m.rest (List.replicate x.len 0#8) := rfl
  dsimp only at hloads
  rw [hl] at hloads
  generalize hL : (x.form (m.cpu.synchPc lowPc).bigEndian false).lsN M (x.call (.reg (.r x.d.toNat)))
    { m with cpu := m.cpu.synchPc lowPc } hostBig = L at hloads hends
  generalize hanswer : x.answer M m.cpu false m.host m.rest (List.replicate x.len 0#8) = l at hloads ⊢
  have hstores := x.stores (M := M) (m := L.1) hostBig ((m.cpu.synchPc lowPc).r x.d.toNat)
  have hbe : L.1.cpu.bigEndian = m.cpu.bigEndian := hloads.bigEndian
  have hold : memoryWritemax64 L.1.cpu.bigEndian x.len (((m.cpu.synchPc lowPc).r x.d.toNat).setWidth 64) =
      x.oldBytes m.cpu := by
    rw [hbe]
    rfl
  dsimp only at hstores
  rw [hold, hloads.host, hloads.rest] at hstores
  generalize (x.form L.1.cpu.bigEndian true).lsN M (x.call (.var ((m.cpu.synchPc lowPc).r x.d.toNat))) L.1 hostBig = S
    at hstores hends
  obtain ⟨⟨w, hstored⟩, hkept⟩ := hstores
  obtain ⟨v, hloaded⟩ := hloads.seen
  rw [and_iff_right hword]
  cases hresult : l.result with
  | done =>
    rw [hresult] at hloaded
    have hpc : L.1.cpu.pc = (m.cpu.synchPc lowPc).pc := hloads.pc (by rw [hresult]; decide)
    rw [if_neg (by rw [hpc]; exact fun h => h rfl)] at hends
    have hregs := hloads.done hresult
    have hset (k : Nat) : L.1.cpu.regs (.r k) =
        (m.cpu.set (.r x.d.toNat) (loadedValue m.cpu.bigEndian l.data)).regs (.r k) := by
      rw [hregs k]
      by_cases hk : k = x.d.toNat
      · rw [if_pos hk, hk, M88kCpu.regs_set_same]
        rfl
      · rw [if_neg hk, M88kCpu.regs_set_of_ne (fun h => hk (RegPtr.r.inj h))]
        rfl
    have hsup : L.1.cpu.supervisor = (m.cpu.set (.r x.d.toNat) (loadedValue m.cpu.bigEndian l.data)).supervisor := by
      refine (hloads.supervisor (by rw [hresult]; decide)).trans ?_
      unfold M88kCpu.supervisor M88kCpu.cr
      rw [M88kCpu.regs_set_of_ne RegPtr.noConfusion]
      rfl
    rw [x.answer_congr hset hbe hsup] at hstored
    rw [← x.address_congr hset]
    refine x.settled_done_iff (w := w) l.data ?_ fun k => ?_
    · rw [hends.2, hloaded, hstored]
      rfl
    · rw [hends.1, hkept, hregs]
      rfl
  | exception =>
    rw [hresult] at hloaded
    have hregs (k : Nat) : L.1.cpu.regs (.r k) = m.cpu.regs (.r k) := hloads.regs (by rw [hresult]; decide) k
    have hraise (k : Nat) : ((m.cpu.synchPc lowPc).exception exceptionDataAccess false).regs (.r k) = m.cpu.regs (.r k) :=
      M88kCpu.regs_exception (c := m.cpu.synchPc lowPc)
    -- the store at a misaligned address fails as well
    have hfails (hmis : x.misaligned m.cpu = true) {c : M88kCpu} (h : ∀ k, c.regs (.r k) = m.cpu.regs (.r k)) :
        (x.answer M c true l.host l.rest (x.oldBytes m.cpu)).result ≠ .done := by
      unfold XmemInstr.misaligned at hmis
      unfold XmemInstr.answer XmemInstr.misaligned
      rw [x.address_congr h, hmis, if_pos rfl]
      exact RwResult.noConfusion
    by_cases hpc : L.1.cpu.pc.setWidth 32 ≠ (m.cpu.synchPc lowPc).pc.setWidth 32
    · rw [if_pos hpc] at hends
      have hsettled : x.Settled m r := by
        refine x.settled_of_exception (v := v) (hends.2.trans hloaded) fun k => ?_
        rw [hends.1, hregs]
      refine iff_of_true hsettled fun hsame => ?_
      cases hmis : x.misaligned m.cpu with
      | true => exact hfails hmis hraise
      | false =>
        have hraised := (hloads.exception hresult hmis).1
        exact absurd (by rw [hraised]; exact hsame) hpc
    · rw [if_neg hpc] at hends
      have hsettled := x.settled_exception_iff (m := m) (r := r) (by rw [hends.2, hloaded, hstored]; rfl) fun k => by
        rw [hends.1, hkept, hregs]
      rw [hsettled]
      cases hmis : x.misaligned m.cpu with
      | true => exact iff_of_true (hfails hmis hregs) fun _ => hfails hmis hraise
      | false =>
        obtain ⟨hraised, hsup⟩ := hloads.exception hresult hmis
        have hsame : ((m.cpu.synchPc lowPc).exception exceptionDataAccess false).pc.setWidth 32 =
            (m.cpu.synchPc lowPc).pc.setWidth 32 := by
          rw [← hraised]
          exact not_not.mp hpc
        rw [forall_prop_of_true hsame,
          x.answer_congr (fun k => (hregs k).trans (hraise k).symm)
            (hbe.trans (M88kCpu.bigEndian_exception (m.cpu.synchPc lowPc) _ _).symm) hsup]
  | stopped =>
    rw [hresult] at hloaded
    have hregs (k : Nat) : L.1.cpu.regs (.r k) = m.cpu.regs (.r k) := hloads.regs (by rw [hresult]; decide) k
    have hpc : L.1.cpu.pc = (m.cpu.synchPc lowPc).pc := hloads.pc (by rw [hresult]; decide)
    have hsup : L.1.cpu.supervisor = m.cpu.supervisor := hloads.supervisor (by rw [hresult]; decide)
    rw [if_neg (by rw [hpc]; exact fun h => h rfl)] at hends
    rw [x.answer_congr hregs hbe hsup] at hstored
    refine x.settled_stopped_iff (by rw [hends.2, hloaded, hstored]; rfl) fun k => ?_
    rw [hends.1, hkept, hregs]

/-- `xmem r2,r3,r0`, with r3 zero. -/
theorem xmem_correct : (XmemInstr.reg true false false 2#5 3#5 0#5).Correct flatMemory false 0
    ⟨M88kCpu.zero.set (.r 2) 0x1000#32, fun _ => 0#8, ()⟩ :=
  (xmem_correct_iff flatMemory false (.reg true false false 2#5 3#5 0#5) 0
    ⟨M88kCpu.zero.set (.r 2) 0x1000#32, fun _ => 0#8, ()⟩ (by decide)).mpr
    ⟨fun _ => rfl, rfl, by decide +kernel⟩

/-- `xmem r2,r2,r0` with r2 at a word that is the address of another one. -/
theorem not_xmem_correct :
    ¬ ∀ (ρ : Type) (M : MemorySystem ρ) (hostBig : Bool) (x : XmemInstr) (lowPc : Nat) (m : M88kMachine ρ),
      x.d ≠ 0#5 → x.Correct M hostBig lowPc m := by
  intro hall
  obtain ⟨r, hrun, hsettled⟩ := hall Unit flatMemory false (.reg true false false 2#5 2#5 0#5) 0
    ⟨M88kCpu.zero.set (.r 2) 0x1000#32, fun a => if a = 0x1002 then 0x20#8 else 0#8, ()⟩ (by decide)
  have hevents : ((translateXmem (XmemInstr.reg true false false 2#5 2#5 0#5).iword).bind
      (XmemCall.run flatMemory false 0
        ⟨M88kCpu.zero.set (.r 2) 0x1000#32, fun a => if a = 0x1002 then 0x20#8 else 0#8, ()⟩)).map (·.2) =
      some [.read ⟨0x1000#32, 4, false, false⟩ [0#8, 0#8, 0x20#8, 0#8],
        .write ⟨0x2000#32, 4, true, false⟩ [0#8, 0#8, 0x10#8, 0#8]] := by decide +kernel
  rw [hrun, Option.map_some, Option.some.injEq] at hevents
  rcases hsettled with ⟨data, h⟩ | h
  · have hsecond := (List.cons.inj (List.cons.inj (hevents.symm.trans h.memory)).2).1
    have haddr := congrArg RwCall.addr (Event.write.inj hsecond).1
    exact absurd haddr (by decide +kernel)
  · exact h.memory _ _ (hevents ▸ List.mem_cons_of_mem _ (List.mem_singleton_self _))

end

end Gxemul.M88k
