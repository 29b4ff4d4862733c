import Gxemul.Ppc.Alu
import Mathlib.Data.BitVec
import Mathlib.Data.List.Induction

/- The decrementer and the time base (`src/cpus/cpu_dyntrans.c`, the start and the
   end of a slice in DYNTRANS_RUN_INSTR_DEF, and X(mftb) and X(mftbu) in
   `src/cpus/cpu_ppc_instr.c`).

   The counters are 32-bit quantities in `uint64_t` fields. `spr[SPR_DEC]` is cut
   to 32 bits on every update, `spr[SPR_TBL]` never is. A carry into TBU is made
   where the 64-bit field wraps, so `carries_iff` says that the time base is right
   exactly in the runs that never pass a multiple of 2^32 below 2^64. -/
namespace Gxemul.Ppc

namespace PpcCpu
variable (c : PpcCpu)

def startSlice (singleStep : Bool) : PpcCpu :=
  if singleStep then c
  else
    let s :=
      if c.decIntrPending && decide (c.msr &&& ppcMsrEe ≠ 0#64) then
        { (if c.noDec then c else c.exception ppcExceptionDec) with decIntrPending := false }
      else c
    if s.irqAsserted && decide (s.msr &&& ppcMsrEe ≠ 0#64) then s.exception ppcExceptionEi else s

/-- The update of the timers after a slice of `n` instructions. -/
def endSlice (n : BitVec 32) : PpcCpu :=
  let old : BitVec 32 := (c.spr sprDec).setWidth 32
  let dec : Reg := (old - n).setWidth 64
  let pending := if old >>> 31 = 0#32 ∧ dec >>> 31 = 1#64 ∧ ¬ c.noDec then true else c.decIntrPending
  let s := { c.setSpr sprDec dec with decIntrPending := pending }
  let old : BitVec 32 := (s.spr sprTbl).setWidth 32
  let tbl : Reg := s.spr sprTbl + n.signExtend 64
  let s := s.setSpr sprTbl tbl
  if old >>> 31 = 1#32 ∧ tbl >>> 31 = 0#64 then s.setSpr sprTbu (s.spr sprTbu + 1#64) else s

/-- `X(mftb)`, to register `rt`. -/
def mftb (rt : BitVec 5) : PpcCpu :=
  let tbl : Reg := c.spr sprTbl + 1#64
  let s := c.setSpr sprTbl tbl
  let s := if tbl = 0#64 then s.setSpr sprTbu (s.spr sprTbu + 1#64) else s
  s.setReg rt (s.spr sprTbl)

/-- `X(mftbu)`. -/
def mftbu (rt : BitVec 5) : PpcCpu := c.setReg rt (c.spr sprTbu)

end PpcCpu

inductive TimerOp where
  | startSlice (singleStep : Bool)
  | mftb (rt : BitVec 5)
  | mftbu (rt : BitVec 5)
  | endSlice (n : BitVec 32)

namespace TimerOp

def ticks : TimerOp → Nat
  | .startSlice _ => 0
  | .mftb _ => 1
  | .mftbu _ => 0
  | .endSlice n => n.toNat

/-- `n_instrs` is an `int` and not negative. -/
def Short : TimerOp → Prop
  | .endSlice n => n.toNat < 2 ^ 31
  | _ => True

theorem Short.ticks_lt : ∀ {o : TimerOp}, o.Short → o.ticks < 2 ^ 31
  | .endSlice _, h => h
  | .startSlice _, _ => (by decide : 0 < 2 ^ 31)
  | .mftb _, _ => (by decide : 1 < 2 ^ 31)
  | .mftbu _, _ => (by decide : 0 < 2 ^ 31)

instance : DecidablePred Short
  | .endSlice n => inferInstanceAs (Decidable (n.toNat < 2 ^ 31))
  | .startSlice _ => isTrue trivial
  | .mftb _ => isTrue trivial
  | .mftbu _ => isTrue trivial

end TimerOp

namespace PpcCpu
variable (c : PpcCpu)

def step (c : PpcCpu) : TimerOp → PpcCpu
  | .startSlice singleStep => c.startSlice singleStep
  | .mftb rt => c.mftb rt
  | .mftbu rt => c.mftbu rt
  | .endSlice n => c.endSlice n

def run (ops : List TimerOp) : PpcCpu := ops.foldl step c

def timeBase : BitVec 64 := (c.spr sprTbu).setWidth 32 ++ (c.spr sprTbl).setWidth 32

def decrementer : Int := ((c.spr sprDec).setWidth 32).toInt

end PpcCpu

def ticks (ops : List TimerOp) : Nat := (ops.map TimerOp.ticks).sum

/-! ## One step -/

namespace PpcCpu
variable (c : PpcCpu) {o : TimerOp}

/-- The operation carries into TBU exactly when TBL wraps, and the end of a slice
makes the decrementer interrupt pending exactly when DEC becomes negative in it. -/
structure Right (o : TimerOp) : Prop where
  carry : (c.step o).spr sprTbu =
    c.spr sprTbu + if 2 ^ 32 ≤ (c.spr sprTbl).toNat % 2 ^ 32 + o.ticks then 1#64 else 0#64
  pending : ∀ n, o = .endSlice n → ((c.step o).decIntrPending = true ↔
    c.decIntrPending = true ∨ 0 ≤ c.decrementer ∧ (c.step o).decrementer < 0)
  quiet : (∀ n, o ≠ .endSlice n) → (c.step o).decIntrPending = true → c.decIntrPending = true

/-- TBL does not pass a multiple of 2^32 below 2^64, and DEC does not become
negative on a CPU that has none. -/
structure Counted (o : TimerOp) : Prop where
  carry : (c.spr sprTbl).toNat % 2 ^ 32 + o.ticks < 2 ^ 32 ∨ 2 ^ 64 ≤ (c.spr sprTbl).toNat + o.ticks
  pending : ∀ n, o = .endSlice n → c.noDec = true → c.decIntrPending = true ∨ c.decrementer < 0 ∨
    n.toNat ≤ c.decrementer

theorem startSlice_spr {n : SprNr} (h0 : n ≠ sprSrr0) (h1 : n ≠ sprSrr1) (b : Bool) :
    (c.startSlice b).spr n = c.spr n := by
  have hexc : ∀ (d : PpcCpu) nr, (d.exception nr).spr n = d.spr n := fun d nr => exception_spr d h0 h1
  unfold startSlice
  split
  · rfl
  · dsimp only
    split <;> split <;> (try split) <;> simp [hexc]

theorem startSlice_pending (b : Bool) (h : (c.startSlice b).decIntrPending = true) : c.decIntrPending = true := by
  unfold startSlice at h
  split at h
  · exact h
  · dsimp only at h
    split at h <;> split at h <;> simp_all

theorem toNat_signExtend {n : BitVec 32} (hn : n.toNat < 2 ^ 31) : (n.signExtend 64).toNat = n.toNat := by
  have hmsb : n.msb = false := by simp [BitVec.msb_eq_decide]; omega
  rw [BitVec.signExtend_eq_setWidth_of_msb_false hmsb, BitVec.toNat_setWidth_of_le (by decide)]

theorem shift_eq_zero {w : Nat} {x : BitVec w} : x >>> 31 = 0#w ↔ x.toNat < 2 ^ 31 := by
  rw [BitVec.toNat_eq, BitVec.toNat_ushiftRight, Nat.shiftRight_eq_div_pow]
  simp

theorem shift_eq_one {w : Nat} {x : BitVec w} (hw : 1 < 2 ^ w) : x >>> 31 = 1#w ↔ x.toNat / 2 ^ 31 = 1 := by
  rw [BitVec.toNat_eq, BitVec.toNat_ushiftRight, Nat.shiftRight_eq_div_pow, BitVec.toNat_ofNat, Nat.mod_eq_of_lt hw]

theorem endSlice_tbl (n : BitVec 32) : (c.endSlice n).spr sprTbl = c.spr sprTbl + n.signExtend 64 := by
  unfold endSlice
  dsimp only
  split
  · rw [setSpr_ne _ (by decide), setSpr_same, setSpr_ne _ (by decide)]
  · rw [setSpr_same, setSpr_ne _ (by decide)]

theorem endSlice_tbu (n : BitVec 32) : (c.endSlice n).spr sprTbu = c.spr sprTbu +
    if ((c.spr sprTbl).setWidth 32) >>> 31 = 1#32 ∧ (c.spr sprTbl + n.signExtend 64) >>> 31 = 0#64 then 1#64
    else 0#64 := by
  unfold endSlice
  dsimp only
  rw [setSpr_ne c (by decide : sprTbl ≠ sprDec)]
  split
  · rw [setSpr_same, setSpr_ne _ (by decide), setSpr_ne c (by decide)]
  · rw [setSpr_ne _ (by decide), setSpr_ne c (by decide), BitVec.add_zero]

theorem endSlice_dec (n : BitVec 32) :
    (c.endSlice n).spr sprDec = ((c.spr sprDec).setWidth 32 - n).setWidth 64 := by
  unfold endSlice
  dsimp only
  split
  · rw [setSpr_ne _ (by decide), setSpr_ne _ (by decide), setSpr_same]
  · rw [setSpr_ne _ (by decide), setSpr_same]

theorem endSlice_pending (n : BitVec 32) : (c.endSlice n).decIntrPending = true ↔ c.decIntrPending = true ∨
    ((c.spr sprDec).setWidth 32 >>> 31 = 0#32 ∧ ((c.endSlice n).spr sprDec) >>> 31 = 1#64 ∧ ¬ c.noDec) := by
  rw [endSlice_dec]
  unfold endSlice
  dsimp only
  split <;> split <;> simp_all

theorem step_tbl (hs : o.Short) : ((c.step o).spr sprTbl).toNat = ((c.spr sprTbl).toNat + o.ticks) % 2 ^ 64 := by
  cases o with
  | startSlice b =>
    show ((c.startSlice b).spr sprTbl).toNat = ((c.spr sprTbl).toNat + 0) % 2 ^ 64
    rw [startSlice_spr c (by decide) (by decide)]
    omega
  | mftb rt =>
    show ((c.mftb rt).spr sprTbl).toNat = ((c.spr sprTbl).toNat + 1) % 2 ^ 64
    have htbl : (c.mftb rt).spr sprTbl = c.spr sprTbl + 1#64 := by
      unfold mftb
      dsimp only
      split
      · rw [setReg_spr, setSpr_ne _ (by decide), setSpr_same]
      · rw [setReg_spr, setSpr_same]
    rw [htbl, BitVec.toNat_add]
    rfl
  | mftbu rt =>
    show (c.spr sprTbl).toNat = ((c.spr sprTbl).toNat + 0) % 2 ^ 64
    omega
  | endSlice n =>
    show ((c.endSlice n).spr sprTbl).toNat = ((c.spr sprTbl).toNat + n.toNat) % 2 ^ 64
    rw [endSlice_tbl, BitVec.toNat_add, toNat_signExtend hs]

theorem step_tbu (hs : o.Short) : (c.step o).spr sprTbu =
    c.spr sprTbu + if 2 ^ 64 ≤ (c.spr sprTbl).toNat + o.ticks then 1#64 else 0#64 := by
  cases o with
  | startSlice b =>
    show (c.startSlice b).spr sprTbu = c.spr sprTbu + if 2 ^ 64 ≤ (c.spr sprTbl).toNat + 0 then 1#64 else 0#64
    rw [startSlice_spr c (by decide) (by decide), if_neg (by omega), BitVec.add_zero]
  | mftb rt =>
    show (c.mftb rt).spr sprTbu = c.spr sprTbu + if 2 ^ 64 ≤ (c.spr sprTbl).toNat + 1 then 1#64 else 0#64
    have hwrap : c.spr sprTbl + 1#64 = 0#64 ↔ 2 ^ 64 ≤ (c.spr sprTbl).toNat + 1 := by
      rw [BitVec.toNat_eq, BitVec.toNat_add, BitVec.toNat_ofNat, BitVec.toNat_ofNat]
      omega
    unfold mftb
    dsimp only
    rw [if_congr hwrap.symm rfl rfl]
    split
    · rw [setReg_spr, setSpr_same, setSpr_ne _ (by decide)]
    · rw [setReg_spr, setSpr_ne _ (by decide), BitVec.add_zero]
  | mftbu rt =>
    show c.spr sprTbu = c.spr sprTbu + if 2 ^ 64 ≤ (c.spr sprTbl).toNat + 0 then 1#64 else 0#64
    rw [if_neg (by omega), BitVec.add_zero]
  | endSlice n =>
    have hn : n.toNat < 2 ^ 31 := hs
    -- TBL is not cut to 32 bits: its bit 31 and those above are clear only after a wrap at 2^64.
    have hwrap : ((c.spr sprTbl).setWidth 32) >>> 31 = 1#32 ∧ (c.spr sprTbl + n.signExtend 64) >>> 31 = 0#64 ↔
        2 ^ 64 ≤ (c.spr sprTbl).toNat + n.toNat := by
      rw [shift_eq_one (by decide), shift_eq_zero, BitVec.toNat_add, toNat_signExtend hn, BitVec.toNat_setWidth]
      omega
    show (c.endSlice n).spr sprTbu =
      c.spr sprTbu + if 2 ^ 64 ≤ (c.spr sprTbl).toNat + n.toNat then 1#64 else 0#64
    rw [endSlice_tbu, if_congr hwrap rfl rfl]

theorem decrementer_neg : c.decrementer < 0 ↔ 2 ^ 31 ≤ (c.spr sprDec).toNat % 2 ^ 32 := by
  unfold decrementer
  rw [BitVec.toInt_eq_toNat_cond, BitVec.toNat_setWidth]
  split <;> omega

theorem crosses_iff {n : BitVec 32} (hn : n.toNat < 2 ^ 31) :
    0 ≤ c.decrementer ∧ (c.endSlice n).decrementer < 0 ↔ 0 ≤ c.decrementer ∧ c.decrementer < n.toNat := by
  have hdec : (c.endSlice n).decrementer < 0 ↔
      2 ^ 31 ≤ (2 ^ 32 - n.toNat + (c.spr sprDec).toNat % 2 ^ 32) % 2 ^ 32 := by
    rw [decrementer_neg, endSlice_dec, BitVec.toNat_setWidth, BitVec.toNat_sub, BitVec.toNat_setWidth]
    omega
  have hneg := c.decrementer_neg
  refine and_congr_right fun h0 => ?_
  have hval : c.decrementer = ((c.spr sprDec).toNat % 2 ^ 32 : Nat) := by
    unfold decrementer
    rw [BitVec.toInt_eq_toNat_cond, BitVec.toNat_setWidth, if_pos (by omega)]
  rw [hdec, hval]
  omega

theorem endSlice_pending_iff (n : BitVec 32) : (c.endSlice n).decIntrPending = true ↔
    c.decIntrPending = true ∨ (0 ≤ c.decrementer ∧ (c.endSlice n).decrementer < 0) ∧ c.noDec = false := by
  have hold : (c.spr sprDec).setWidth 32 >>> 31 = 0#32 ↔ 0 ≤ c.decrementer := by
    have hneg := c.decrementer_neg
    rw [shift_eq_zero, BitVec.toNat_setWidth]
    omega
  have hnew : ((c.endSlice n).spr sprDec) >>> 31 = 1#64 ↔ (c.endSlice n).decrementer < 0 := by
    rw [shift_eq_one (by decide), decrementer_neg, endSlice_dec, BitVec.toNat_setWidth]
    omega
  rw [endSlice_pending, hold, hnew, Bool.not_eq_true, and_assoc]

theorem right_iff_counted (hs : o.Short) : c.Right o ↔ c.Counted o := by
  have hone : ∀ x : Reg, x + 1#64 ≠ x + 0#64 := by
    intro x h
    exact absurd ((BitVec.add_right_inj x).mp h) (by decide)
  constructor
  · intro h
    refine ⟨?_, ?_⟩
    · have hcarry := h.carry
      rw [step_tbu c hs] at hcarry
      by_contra hno
      rw [if_neg (by omega), if_pos (by omega)] at hcarry
      exact hone _ hcarry.symm
    · rintro n rfl hno
      by_contra hcross
      have hpend := (h.pending n rfl).mpr (.inr ((c.crosses_iff hs).mpr (by omega)))
      obtain hp | ⟨-, hdec⟩ := (c.endSlice_pending_iff n).mp hpend
      · exact hcross (.inl hp)
      · rw [hno] at hdec
        cases hdec
  · intro h
    refine ⟨?_, ?_, ?_⟩
    · rw [step_tbu c hs]
      have hcarry := h.carry
      by_cases hw : 2 ^ 64 ≤ (c.spr sprTbl).toNat + o.ticks
      · rw [if_pos hw, if_pos (by omega)]
      · rw [if_neg hw, if_neg (by omega)]
    · rintro n rfl
      have hpend := h.pending n rfl
      have hcross := c.crosses_iff hs
      change (c.endSlice n).decIntrPending = true ↔ _ ∨ _ ∧ (c.endSlice n).decrementer < 0
      rw [c.endSlice_pending_iff n]
      cases hno : c.noDec with
      | false => simp
      | true =>
        simp only [Bool.true_eq_false, and_false, or_false]
        refine ⟨.inl, ?_⟩
        rintro (hp | hc)
        · exact hp
        · obtain hp | hneg := hpend hno
          · exact hp
          · omega
    · intro hne hp
      cases o with
      | startSlice b => exact c.startSlice_pending b hp
      | mftb rt =>
        unfold step mftb at hp
        dsimp only at hp
        split at hp <;> exact hp
      | mftbu rt => exact hp
      | endSlice n => exact absurd rfl (hne n)

theorem Right.timeBase_step {c : PpcCpu} (h : c.Right o) (hs : o.Short) :
    (c.step o).timeBase = c.timeBase + BitVec.ofNat 64 o.ticks := by
  have hvalue : ∀ d : PpcCpu, d.timeBase.toNat =
      (d.spr sprTbu).toNat % 2 ^ 32 * 2 ^ 32 + (d.spr sprTbl).toNat % 2 ^ 32 := by
    intro d
    rw [timeBase, BitVec.toNat_append, BitVec.toNat_setWidth, BitVec.toNat_setWidth,
      ← Nat.shiftLeft_add_eq_or_of_lt (Nat.mod_lt _ (by decide)), Nat.shiftLeft_eq]
  have hticks := hs.ticks_lt
  apply BitVec.eq_of_toNat_eq
  rw [BitVec.toNat_add, hvalue, hvalue, step_tbl c hs, h.carry, BitVec.toNat_add, BitVec.toNat_ofNat]
  split
  · rw [BitVec.toNat_ofNat]
    omega
  · rw [BitVec.toNat_ofNat]
    omega

/-! ## Runs -/

variable {c}

@[simp] theorem run_concat (ops : List TimerOp) : c.run (ops ++ [o]) = (c.run ops).step o := by
  simp [run]

theorem ticks_concat (ops : List TimerOp) : ticks (ops ++ [o]) = ticks ops + o.ticks := by
  simp [ticks]

theorem timeBase_run (ops : List TimerOp) (hshort : ∀ o ∈ ops, o.Short)
    (h : ∀ pre o post, ops = pre ++ o :: post → (c.run pre).Right o) :
    (c.run ops).timeBase = c.timeBase + BitVec.ofNat 64 (ticks ops) := by
  induction ops using List.reverseRecOn with
  | nil => exact (BitVec.add_zero _).symm
  | append_singleton ops o ih =>
    have hops := ih (fun o' ho => hshort o' (by simp [ho]))
      (fun pre o' post e => h pre o' (post ++ [o]) (by simp [e]))
    have hlast : (c.run ops).Right o := h ops o [] rfl
    calc (c.run (ops ++ [o])).timeBase
        = ((c.run ops).step o).timeBase := by rw [run_concat]
      _ = (c.run ops).timeBase + BitVec.ofNat 64 o.ticks := hlast.timeBase_step (hshort o (by simp))
      _ = c.timeBase + BitVec.ofNat 64 (ticks (ops ++ [o])) := by
        rw [hops, ticks_concat, BitVec.ofNat_add, BitVec.add_assoc]

theorem step_noDec (c : PpcCpu) (o : TimerOp) : (c.step o).noDec = c.noDec := by
  cases o with
  | startSlice b =>
    show (c.startSlice b).noDec = c.noDec
    unfold startSlice
    split
    · rfl
    · dsimp only
      split <;> split <;> (try split) <;> rfl
  | mftb rt =>
    show (c.mftb rt).noDec = c.noDec
    unfold mftb
    dsimp only
    split <;> rfl
  | mftbu rt => rfl
  | endSlice n =>
    show (c.endSlice n).noDec = c.noDec
    unfold endSlice
    dsimp only
    split <;> rfl

theorem run_noDec (ops : List TimerOp) : (c.run ops).noDec = c.noDec := by
  induction ops using List.reverseRecOn with
  | nil => rfl
  | append_singleton ops o ih => rw [run_concat, step_noDec, ih]

theorem run_tbl (ops : List TimerOp) (hshort : ∀ o ∈ ops, o.Short)
    (hlt : (c.spr sprTbl).toNat + ticks ops < 2 ^ 64) :
    ((c.run ops).spr sprTbl).toNat = (c.spr sprTbl).toNat + ticks ops := by
  induction ops using List.reverseRecOn with
  | nil => rfl
  | append_singleton ops o ih =>
    rw [ticks_concat] at hlt ⊢
    rw [run_concat, step_tbl _ (hshort o (by simp)), ih (fun o' ho => hshort o' (by simp [ho])) (by omega)]
    omega

/-- Started with TBL below 2^32, a CPU with a decrementer counts right as long as TBL stays there. -/
theorem counted_iff_total (hdec : c.noDec = false) (ops : List TimerOp) (hshort : ∀ o ∈ ops, o.Short)
    (htbl : (c.spr sprTbl).toNat < 2 ^ 32) :
    (∀ pre o post, ops = pre ++ o :: post → (c.run pre).Counted o) ↔
      (c.spr sprTbl).toNat + ticks ops < 2 ^ 32 := by
  constructor
  · intro h
    induction ops using List.reverseRecOn with
    | nil => exact htbl
    | append_singleton ops o ih =>
      have hshort' : ∀ o' ∈ ops, o'.Short := fun o' ho => hshort o' (by simp [ho])
      have hops := ih hshort' (fun pre o' post e => h pre o' (post ++ [o]) (by simp [e]))
      have hcarry := (h ops o [] rfl).carry
      have hticks := (hshort o (by simp)).ticks_lt
      rw [run_tbl ops hshort' (by omega)] at hcarry
      rw [ticks_concat]
      omega
  · rintro h pre o post rfl
    have htotal : ticks (pre ++ o :: post) = ticks pre + o.ticks + ticks post := by
      simp [ticks, Nat.add_assoc]
    refine ⟨?_, fun n _ hno => ?_⟩
    · rw [run_tbl pre (fun o' ho => hshort o' (by simp [ho])) (by omega)]
      omega
    · rw [run_noDec, hdec] at hno
      cases hno

/-- Every operation of a run keeps time, and the time base moves by the sum of the ticks. -/
def TimersRight (c : PpcCpu) (ops : List TimerOp) : Prop := ∀ pre o post, ops = pre ++ o :: post →
  (c.run pre).Right o ∧ (c.run (pre ++ [o])).timeBase = c.timeBase + BitVec.ofNat 64 (ticks (pre ++ [o]))

def TimersCounted (c : PpcCpu) (ops : List TimerOp) : Prop :=
  ∀ pre o post, ops = pre ++ o :: post → (c.run pre).Counted o

/-- The timers are right throughout a run exactly when every operation is counted. -/
theorem timers_right_iff (ops : List TimerOp) (hshort : ∀ o ∈ ops, o.Short) :
    c.TimersRight ops ↔ c.TimersCounted ops := by
  constructor
  · intro h pre o post e
    exact ((c.run pre).right_iff_counted (hshort o (by simp [e]))).mp (h pre o post e).1
  · intro h pre o post e
    have hright : ∀ pre o post, ops = pre ++ o :: post → (c.run pre).Right o := fun pre o post e =>
      ((c.run pre).right_iff_counted (hshort o (by simp [e]))).mpr (h pre o post e)
    refine ⟨hright pre o post e, timeBase_run (pre ++ [o]) (fun o' ho => hshort o' ?_) ?_⟩
    · obtain ho | ho := List.mem_append.mp ho
      · simp [e, ho]
      · simp [e, List.mem_singleton.mp ho]
    · intro pre' o' post' e'
      exact hright pre' o' (post' ++ post) (by rw [e, ← List.singleton_append, ← List.append_assoc, e']; simp)

/-- Two slices and a read of the time base on a CPU that starts at zero. -/
theorem timers_right_zero :
    (zero true false).TimersRight [.endSlice 1000#32, .mftb 3#5, .endSlice 0x7fffffff#32] :=
  have hshort : ∀ o ∈ [TimerOp.endSlice 1000#32, .mftb 3#5, .endSlice 0x7fffffff#32], o.Short := by decide
  (timers_right_iff _ hshort).mpr ((counted_iff_total rfl _ hshort (by decide)).mpr (by decide))

def beforeCarry : PpcCpu := (zero true false).setSpr sprTbl 0xffffffff#64

/-- A slice of a hundred instructions loses the carry. The time base goes back by almost 2^32. -/
theorem beforeCarry_not_right : (∀ o ∈ [TimerOp.endSlice 100#32], o.Short) ∧
    beforeCarry.timeBase = 0x00000000ffffffff#64 ∧
    (beforeCarry.run [.endSlice 100#32]).timeBase = 0x0000000000000063#64 ∧
    (beforeCarry.run [.endSlice 100#32]).timeBase ≠
      beforeCarry.timeBase + BitVec.ofNat 64 (ticks [.endSlice 100#32]) := by decide +kernel

end PpcCpu

end Gxemul.Ppc
