import Mathlib.Data.BitVec
import Gxemul.Lib.Run

/- The interrupt controller of the test machines (`src/devices/dev_irqc.c`), with the pin of
   the CPU that it is connected to.

   `Lines` is what the controller is for: 32 lines that are high or low, of which some are
   masked, and a pin that is high while a line is that is not masked. The registers always
   show the lines. The pin does not: the handlers of the lines trust the flag `asserted`,
   and the accesses that mask and unmask lines change the pin without it. `pin_right_iff` says
   which runs the pin is right in.

   A shift count that is not below the width is undefined in C. -/
namespace Gxemul.Irqc

/-- `struct irqc_data`. -/
structure Irqc where
  irq : Bool
  asserted : Bool
  status : BitVec 32
  enabled : BitVec 32
  deriving DecidableEq

inductive Fault
  | undefinedShift
  deriving DecidableEq

/-- Calls of the handlers of a line, and writes to DEV_IRQC_MASK and DEV_IRQC_UNMASK. -/
inductive Op
  | assert (line : Fin 32)
  | deassert (line : Fin 32)
  | mask (idata : Nat)
  | unmask (idata : Nat)
  deriving DecidableEq

namespace Irqc

/-- DEVINIT(irqc). -/
def init : Irqc := ⟨false, false, 0, BitVec.allOnes 32⟩

/-- "1 << i". -/
def bit (i : Nat) : BitVec 32 := 1#32 <<< i

/-- "d->status & d->enabled". -/
def pending (d : Irqc) : Bool := decide (d.status &&& d.enabled ≠ 0#32)

/-- `irqc_interrupt_assert()`. -/
def interruptAssert (d : Irqc) (line : Nat) : Irqc :=
  let d' := { d with status := d.status ||| bit line }
  let raise := d'.pending && !d.asserted
  { d' with irq := if raise then true else d.irq, asserted := if raise then true else d.asserted }

/-- `irqc_interrupt_deassert()`. -/
def interruptDeassert (d : Irqc) (line : Nat) : Irqc :=
  let d' := { d with status := d.status &&& ~~~ bit line }
  let lower := !d'.pending && d.asserted
  { d' with irq := if lower then false else d.irq, asserted := if lower then false else d.asserted }

/-- DEVICE_ACCESS(irqc), with the new Enable bits. -/
def enable (d : Irqc) (enabled : BitVec 32) : Irqc :=
  let d' := { d with enabled := enabled }
  { d' with irq := if !d.pending && d'.pending then true else if d.pending && !d'.pending then false else d.irq }

def step (d : Irqc) : Op → Except Fault Irqc
  | .assert line => .ok (d.interruptAssert line)
  | .deassert line => .ok (d.interruptDeassert line)
  | .mask idata => if idata < 32 then .ok (d.enable (d.enabled &&& ~~~ bit idata)) else .error .undefinedShift
  | .unmask idata => if idata < 32 then .ok (d.enable (d.enabled ||| bit idata)) else .error .undefinedShift

end Irqc

/-! ## The lines -/

structure Lines where
  high : Fin 32 → Bool
  unmasked : Fin 32 → Bool

namespace Lines

def init : Lines := ⟨fun _ => false, fun _ => true⟩

def pin (l : Lines) : Prop := ∃ i, l.high i = true ∧ l.unmasked i = true

def step (l : Lines) : Op → Lines
  | .assert line => { l with high := fun i => l.high i || decide (i = line) }
  | .deassert line => { l with high := fun i => l.high i && !decide (i = line) }
  | .mask idata => { l with unmasked := fun i => l.unmasked i && !decide (i.val = idata) }
  | .unmask idata => { l with unmasked := fun i => l.unmasked i || decide (i.val = idata) }

end Lines

/-- The registers show the lines. -/
structure Shows (d : Irqc) (l : Lines) : Prop where
  status : ∀ i : Fin 32, d.status[i.val] = l.high i
  enabled : ∀ i : Fin 32, d.enabled[i.val] = l.unmasked i

/-- The pin is high just while a line is that is not masked. -/
def Right (d : Irqc) (l : Lines) : Prop := d.irq = true ↔ l.pin

/-- A handler that changes whether there is anything pending finds the flag right. -/
def Trusts (d : Irqc) : Op → Prop
  | .assert line => d.pending = false → (d.interruptAssert line).pending = true → d.asserted = false
  | .deassert line => d.pending = true → (d.interruptDeassert line).pending = false → d.asserted = true
  | .mask _ | .unmask _ => True

instance : ∀ (d : Irqc) (o : Op), Decidable (Trusts d o)
  | _, .assert _ | _, .deassert _ => inferInstanceAs (Decidable (_ → _ → _))
  | _, .mask _ | _, .unmask _ => isTrue trivial

section
variable {d d' : Irqc} {l : Lines} {o : Op}

@[simp] theorem getElem_bit (i : Nat) (j : Fin 32) : (Irqc.bit i)[j.val] = decide (j.val = i) := by
  rw [← BitVec.getLsbD_eq_getElem]
  simp only [Irqc.bit, BitVec.getLsbD_shiftLeft, BitVec.getLsbD_one, j.isLt, decide_true, Bool.true_and]
  by_cases h : j.val = i <;> simp [h] <;> omega

theorem Shows.pending_iff (h : Shows d l) : d.pending = true ↔ l.pin := by
  rw [Irqc.pending, decide_eq_true_iff, Lines.pin]
  constructor
  · intro hne
    by_contra hno
    apply hne
    apply BitVec.eq_of_getElem_eq
    intro i hi
    have hlow : ¬ (l.high ⟨i, hi⟩ = true ∧ l.unmasked ⟨i, hi⟩ = true) := fun hboth => hno ⟨_, hboth⟩
    simpa [← h.status, ← h.enabled] using hlow
  · rintro ⟨i, hhigh, hunmasked⟩ hzero
    rw [← h.status] at hhigh
    rw [← h.enabled] at hunmasked
    have hbit := congrArg (fun x => x[i.val]) hzero
    rw [BitVec.getElem_and, hhigh, hunmasked] at hbit
    simp at hbit

theorem Shows.right_iff (h : Shows d l) : Right d l ↔ d.irq = d.pending := by
  rw [Right, ← h.pending_iff]
  exact Bool.eq_iff_iff.symm

theorem Shows.step (h : Shows d l) (hs : d.step o = .ok d') : Shows d' (l.step o) := by
  have hstatus := h.status
  have henabled := h.enabled
  cases o with
  | assert line =>
    cases hs
    constructor <;> simp_all [Irqc.interruptAssert, Lines.step, Fin.ext_iff]
  | deassert line =>
    cases hs
    constructor <;> simp_all [Irqc.interruptDeassert, Lines.step, Fin.ext_iff]
  | mask idata | unmask idata =>
    rw [Irqc.step] at hs
    split at hs <;> cases hs
    constructor <;> simp_all [Irqc.enable, Lines.step]

/-- An access leaves the pin right, and a handler does if the flag is. -/
theorem irq_step_iff (h : d.irq = d.pending) (hs : d.step o = .ok d') : d'.irq = d'.pending ↔ Trusts d o := by
  cases o with
  | assert line =>
    cases hs
    -- what is pending stays pending
    have hkeep : d.status &&& d.enabled ≠ 0#32 → (d.status ||| Irqc.bit line) &&& d.enabled ≠ 0#32 := by
      intro hne hzero
      rw [BitVec.and_or_distrib_right] at hzero
      exact hne (BitVec.or_eq_zero_iff.mp hzero).1
    by_cases hold : d.status &&& d.enabled = 0#32 <;>
      by_cases hnew : (d.status ||| Irqc.bit line) &&& d.enabled = 0#32 <;>
      cases hflag : d.asserted <;> simp_all [Trusts, Irqc.interruptAssert, Irqc.pending]
  | deassert line =>
    cases hs
    have hkeep : d.status &&& d.enabled = 0#32 → (d.status &&& ~~~ Irqc.bit line) &&& d.enabled = 0#32 := by
      intro hzero
      rw [BitVec.and_assoc, BitVec.and_comm (~~~ _), ← BitVec.and_assoc, hzero, BitVec.zero_and]
    by_cases hold : d.status &&& d.enabled = 0#32 <;>
      by_cases hnew : (d.status &&& ~~~ Irqc.bit line) &&& d.enabled = 0#32 <;>
      cases hflag : d.asserted <;> simp_all [Trusts, Irqc.interruptDeassert, Irqc.pending]
  | mask idata | unmask idata =>
    rw [Irqc.step] at hs
    split at hs <;> cases hs
    refine iff_of_true ?_ trivial
    rw [Irqc.enable, h]
    dsimp only
    generalize d.pending = old
    cases old <;> simp [Irqc.pending]

end

/-! ## Runs -/

/-- The controller and the lines. -/
def both (s : Irqc × Lines) (o : Op) : Except Fault (Irqc × Lines) := (s.1.step o).map fun d => (d, s.2.step o)

/-- A guest masks and unmasks lines that there are. -/
def Op.Legal : Op → Prop
  | .mask idata | .unmask idata => idata < 32
  | .assert _ | .deassert _ => True

section
variable {s s' : Irqc × Lines} {o : Op}

theorem both_returns (ho : o.Legal) (h : Shows s.1 s.2) : ∃ s', both s o = .ok s' ∧ Shows s'.1 s'.2 := by
  have hd : ∃ d, s.1.step o = .ok d := by
    cases o with
    | assert line | deassert line => exact ⟨_, rfl⟩
    | mask idata | unmask idata => exact ⟨_, if_pos ho⟩
  obtain ⟨d, hd⟩ := hd
  exact ⟨(d, s.2.step o), by rw [both, hd, Except.map], h.step hd⟩

theorem right_both_iff (h : Shows s.1 s.2) (hr : Right s.1 s.2) (hs : both s o = .ok s') :
    Trusts s.1 o ↔ Right s'.1 s'.2 := by
  unfold both at hs
  cases hd : s.1.step o with
  | error e =>
    rw [hd] at hs
    cases hs
  | ok d =>
    rw [hd] at hs
    cases hs
    rw [(h.step hd).right_iff, irq_step_iff (h.right_iff.mp hr) hd]

end

/-- The registers show the lines throughout a run, and the pin is right throughout it exactly when every call of a
handler that matters finds the flag `asserted` right. -/
theorem pin_right_iff (ops : List Op) (h : ∀ o ∈ ops, o.Legal) :
    Lib.Always both (fun s => Shows s.1 s.2) ops (Irqc.init, Lines.init) ∧
      (Lib.Always both (fun s => Right s.1 s.2) ops (Irqc.init, Lines.init) ↔
        Lib.Along both (fun s o => Trusts s.1 o) ops (Irqc.init, Lines.init)) := by
  have hinit : Shows Irqc.init Lines.init := by
    refine ⟨fun i => ?_, fun i => ?_⟩
    · simp [Irqc.init, Lines.init]
    · simp only [Irqc.init, Lines.init, BitVec.getElem_allOnes]
  have hright : Right Irqc.init Lines.init := hinit.right_iff.mpr (by decide)
  constructor
  · exact Lib.always_of_along Op.Legal (fun s o ho hi _ => both_returns ho hi) h hinit (Lib.along_true ops _)
  · exact Lib.always_iff_along Op.Legal (fun s o ho hi => both_returns ho hi)
      (fun s o s' _ hi hr hs => right_both_iff hi hr hs) h hinit hright

/-- Line 0 is high when it is masked. The request of line 1 does not reach the CPU. -/
theorem pin_right_iff_lost :
    ¬ Lib.Always both (fun s => Right s.1 s.2) [.assert 0, .mask 0, .assert 1] (Irqc.init, Lines.init) := by
  rw [(pin_right_iff [.assert 0, .mask 0, .assert 1] (by simp [Op.Legal])).2]
  decide

end Gxemul.Irqc
