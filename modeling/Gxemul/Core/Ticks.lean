import Mathlib.Tactic.Linarith
import Mathlib.Tactic.Ring
import Gxemul.Lib.Run

/- The tick functions of a machine (`src/machines/machine.c`): clocks and other sources of
   interrupts, which machine_run() calls after the CPUs have run for a slice.

   A function is called once for each `1 << tickshift` ticks, whatever slices the ticks come
   in and whatever functions are added meanwhile: calls are neither lost nor late
   (`calls_exact`). The first slice that is run calls it once more. -/
namespace Gxemul.Ticks

/-- N_SAFE_DYNTRANS_LIMIT_SHIFT. -/
def limitShift : Nat := 14

/-- N_SAFE_DYNTRANS_LIMIT. -/
def limit : Nat := 2 ^ (limitShift - 1) - 1

/-- An entry of `tick_functions`, and how often its function has been called. -/
structure TickFunction where
  tickshift : Nat
  ticksTillNext : Int
  calls : Nat
  deriving DecidableEq

/-- How machine_add_tickfunction() stops: with an error, or with a shift that an `int` has no room for. -/
inductive Exit
  | tickshiftTooLow
  | overflow
  deriving DecidableEq

/-- A function is added, or machine_run() is called. A CPU may be running, and the debugger may be stepping. -/
inductive Op
  | add (tickshift : Nat)
  | run (anyRunning singleStep : Bool)
  deriving DecidableEq

namespace TickFunction

/-- "while (ticks_till_next <= 0)". -/
def callWhileDue (t : TickFunction) : TickFunction :=
  if t.ticksTillNext ≤ 0 then
    callWhileDue { t with ticksTillNext := t.ticksTillNext + 2 ^ t.tickshift, calls := t.calls + 1 }
  else t
termination_by (1 - t.ticksTillNext).toNat
decreasing_by
  have hpos : (0 : Int) < 2 ^ t.tickshift := pow_pos (by decide) _
  omega

def tick (t : TickFunction) (n : Nat) : TickFunction :=
  callWhileDue { t with ticksTillNext := t.ticksTillNext - n }

end TickFunction

/-- "single_step ? 1 : N_SAFE_DYNTRANS_LIMIT", in a slice that is run. -/
def sliceTicks (anyRunning singleStep : Bool) : Nat := if anyRunning then if singleStep then 1 else limit else 0

/-- `machine_add_tickfunction()`, and the ticks of `machine_run()`. -/
def step (functions : List TickFunction) : Op → Except Exit (List TickFunction)
  | .add tickshift =>
    if tickshift < limitShift then .error .tickshiftTooLow
    else if 31 ≤ tickshift then .error .overflow
    else .ok (functions ++ [⟨tickshift, 0, 0⟩])
  | .run anyRunning singleStep =>
    if anyRunning then .ok (functions.map (·.tick (sliceTicks anyRunning singleStep))) else .ok functions

def Op.ticks : Op → Nat
  | .add _ => 0
  | .run anyRunning singleStep => sliceTicks anyRunning singleStep

section
variable {t : TickFunction} {n shift : Nat}

/-- The calls after `n` ticks. -/
def due (shift n : Nat) : Nat := if n = 0 then 0 else n / 2 ^ shift + 1

/-- After `n` ticks the function has been called as often as it should, and it is known when the next call is due. -/
structure Exact (t : TickFunction) (shift n : Nat) : Prop where
  tickshift : t.tickshift = shift
  calls : t.calls = due shift n
  left : t.ticksTillNext + n = t.calls * 2 ^ shift

/-- The loop ends when a call is due later, but not later than after one period. -/
theorem callWhileDue_spec (ht : t.tickshift = shift) : ∃ k : Nat, t.callWhileDue.tickshift = shift ∧
    t.callWhileDue.ticksTillNext = t.ticksTillNext + k * 2 ^ shift ∧ t.callWhileDue.calls = t.calls + k ∧
      0 < t.callWhileDue.ticksTillNext ∧ (t.ticksTillNext ≤ 2 ^ shift → t.callWhileDue.ticksTillNext ≤ 2 ^ shift) := by
  fun_induction TickFunction.callWhileDue t with
  | case1 t hdue ih =>
    subst ht
    obtain ⟨k, hshift, htill, hcalls, hpos, hle⟩ := ih rfl
    dsimp only at htill hcalls hle
    refine ⟨k + 1, hshift, ?_, by rw [hcalls]; ring, hpos, fun _ => hle (by omega)⟩
    rw [htill]
    push_cast
    ring
  | case2 t hdue => exact ⟨0, ht, by simp, rfl, by omega, id⟩

theorem Exact.le (h : Exact t shift n) : 0 ≤ t.ticksTillNext ∧ t.ticksTillNext ≤ 2 ^ shift := by
  have hleft := h.left
  rw [h.calls, due] at hleft
  split at hleft
  · rename_i hn
    have hzero : t.ticksTillNext = 0 := by simpa [hn] using hleft
    exact ⟨hzero.ge, hzero ▸ pow_nonneg (by decide) _⟩
  · have hdiv := Nat.div_add_mod' n (2 ^ shift)
    have hmod := Nat.mod_lt n (Nat.two_pow_pos shift)
    have hrest := Nat.zero_le (n % 2 ^ shift)
    zify at hdiv hmod hrest
    push_cast at hleft
    rw [add_mul] at hleft
    constructor <;> linarith

/-- The calls are known from when the next one is due. -/
theorem due_eq {calls : Nat} {left : Int} (hn : 0 < n) (h : left + n = calls * 2 ^ shift) (hpos : 0 < left)
    (hle : left ≤ 2 ^ shift) : calls = due shift n := by
  have hcalls : calls ≠ 0 := by
    rintro rfl
    simp only [Nat.cast_zero, zero_mul] at h
    omega
  obtain ⟨k, rfl⟩ := Nat.exists_eq_succ_of_ne_zero hcalls
  have hdiv : n / 2 ^ shift = k := by
    apply Nat.div_eq_of_lt_le
    · zify
      push_cast at h
      linarith
    · zify
      push_cast at h ⊢
      linarith
  rw [due, if_neg hn.ne', hdiv]

theorem Exact.tick (h : Exact t shift n) {ticks : Nat} (hticks : 0 < ticks) :
    Exact (t.tick ticks) shift (n + ticks) := by
  obtain ⟨k, hshift, htill, hcalls, hpos, hle⟩ :=
    callWhileDue_spec (t := { t with ticksTillNext := t.ticksTillNext - ticks }) h.tickshift
  have hbefore := h.le.2
  have hleft : (t.tick ticks).ticksTillNext + ((n + ticks : Nat) : Int) = (t.tick ticks).calls * 2 ^ shift := by
    rw [TickFunction.tick, htill, hcalls]
    push_cast
    linarith [h.left]
  exact ⟨hshift, due_eq (by omega) hleft hpos (hle (by dsimp only; omega)), hleft⟩

/-- One operation. The functions that there are keep their places. -/
theorem exact_step {functions functions' : List TickFunction} {o : Op} {i : Nat}
    (hs : step functions o = .ok functions') (hi : functions[i]? = some t) (h : Exact t shift n) :
    ∃ t', functions'[i]? = some t' ∧ Exact t' shift (n + o.ticks) := by
  cases o with
  | add tickshift =>
    rw [step] at hs
    split at hs
    · cases hs
    · split at hs <;> cases hs
      exact ⟨t, by rw [List.getElem?_append_left (List.getElem?_eq_some_iff.mp hi).1, hi], h⟩
  | run anyRunning singleStep =>
    rw [step] at hs
    split at hs <;> cases hs
    · rename_i hrunning
      refine ⟨t.tick (sliceTicks anyRunning singleStep), by rw [List.getElem?_map, hi, Option.map_some], h.tick ?_⟩
      subst hrunning
      cases singleStep <;> decide
    · rename_i hidle
      exact ⟨t, hi, by simpa [Op.ticks, sliceTicks, hidle] using h⟩

theorem exact_run {ops : List Op} {functions functions' : List TickFunction} {i : Nat}
    (hr : Lib.runOps step ops functions = .ok functions') (hi : functions[i]? = some t) (h : Exact t shift n) :
    ∃ t', functions'[i]? = some t' ∧ Exact t' shift (n + (ops.map Op.ticks).sum) := by
  induction ops generalizing functions n t with
  | nil =>
    cases hr
    exact ⟨t, hi, h⟩
  | cons o ops ih =>
    unfold Lib.runOps at hr
    split at hr
    · rename_i functions1 hs
      obtain ⟨t1, hi1, h1⟩ := exact_step hs hi h
      rw [List.map_cons, List.sum_cons, ← Nat.add_assoc]
      exact ih hr hi1 h1
    · cases hr

/-- A function stays where it was added, and after any run it has been called once for each period that has begun. The
next call is due within a period. -/
theorem calls_exact {functions functions' : List TickFunction} {ops : List Op}
    (hr : Lib.runOps step (.add shift :: ops) functions = .ok functions') :
    ∃ t, functions'[functions.length]? = some t ∧ t.calls = due shift (ops.map Op.ticks).sum ∧
      0 ≤ t.ticksTillNext ∧ t.ticksTillNext ≤ 2 ^ shift := by
  unfold Lib.runOps at hr
  split at hr
  · rename_i functions1 hs
    rw [step] at hs
    split at hs
    · cases hs
    · split at hs <;> cases hs
      have hnew : Exact ⟨shift, 0, 0⟩ shift 0 := ⟨rfl, rfl, by simp⟩
      obtain ⟨t, hi, h⟩ := exact_run hr List.getElem?_concat_length hnew
      rw [Nat.zero_add] at h
      exact ⟨t, hi, h.calls, h.le⟩
  · cases hr

/-- Three slices are more than one period of 2 ^ 14 ticks. -/
theorem calls_exact_three : ∃ functions' t,
    Lib.runOps step [.add 14, .run true false, .run true false, .run true false] [] = .ok functions' ∧
      functions'[0]? = some t ∧ t.calls = 2 := by
  have hrun : ∃ functions', Lib.runOps step [.add 14, .run true false, .run true false, .run true false] [] =
      .ok functions' := ⟨_, rfl⟩
  obtain ⟨functions', hr⟩ := hrun
  obtain ⟨t, ht, hcalls, -⟩ := calls_exact hr
  exact ⟨functions', t, hr, ht, hcalls.trans (by decide)⟩

end

end Gxemul.Ticks
