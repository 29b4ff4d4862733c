import Mathlib.Data.BitVec
import Gxemul.Dyntrans.Vph
import Gxemul.Lib.Run

/- The interrupt controllers of an ISA bus (`src/devices/dev_8259.c` and
   `src/devices/bus_isa.c`).

   There are two 8259s. The output of the second is line 2 of the bus, and the
   output of the first is the interrupt that the bus asserts at a CPU. Lines are
   levels, and asserting a line calls its handler at once. -/
namespace Gxemul.Isa

/-- `struct pic8259_data`. -/
structure Pic8259 where
  irqBase : BitVec 32
  currentCommand : BitVec 64
  initState : Nat
  irr : BitVec 8
  isr : BitVec 8
  ier : BitVec 8

namespace Pic8259

def pending (d : Pic8259) : BitVec 8 := d.irr &&& ~~~ d.ier

/-- What an access to a 8259 does: the controller afterwards, whether it asserts or deasserts its output, the value that
is read, and whether the emulation stops. -/
structure Result where
  pic : Pic8259
  irq : Option Bool
  odata : BitVec 64
  stops : Bool

/-- "Recalculate interrupt assertions, if necessary". -/
def recalculate (old new : Pic8259) : Result :=
  ⟨new, if old.pending ≠ new.pending then some (decide (new.pending ≠ 0)) else none, 0, false⟩

def quiet (d : Pic8259) (odata : BitVec 64) : Result := ⟨d, none, odata, false⟩

def isSpecificEoi (idata : BitVec 64) : Bool :=
  (0x21#64 ≤ idata && idata ≤ 0x27#64) || (0x60#64 ≤ idata && idata ≤ 0x67#64) ||
    (0xe0#64 ≤ idata && idata ≤ 0xe7#64)

def command (d : Pic8259) (idata : BitVec 64) : Result :=
  if idata &&& 0x10 = 0x10 then quiet { d with initState := 1 } 0
  else
    let d := { d with initState := 0 }
    if idata = 0x0a ∨ idata = 0x0b ∨ idata = 0x0c then quiet { d with currentCommand := idata } 0
    else if idata = 0x20 then recalculate d { d with irr := d.irr &&& ~~~ d.isr, isr := 0 }
    else if isSpecificEoi idata then
      let bit := 1#8 <<< (idata &&& 7).toNat
      recalculate d { d with irr := d.irr &&& ~~~ bit, isr := d.isr &&& ~~~ bit }
    else if idata = 0x68 then quiet d 0
    else if 0xc0#64 ≤ idata ∧ idata ≤ 0xc7#64 then quiet d 0
    else ⟨d, none, 0, true⟩

def poll (d : Pic8259) : BitVec 64 :=
  match (List.range 8).find? fun i => d.irr.getLsbD i with
  | some i => 0x80#64 ||| BitVec.ofNat 64 i
  | none => 0

def status (d : Pic8259) : BitVec 64 :=
  if d.currentCommand = 0x0a then d.irr.setWidth 64
  else if d.currentCommand = 0x0b then d.isr.setWidth 64
  else d.poll

def initWord (d : Pic8259) (idata : BitVec 64) : Pic8259 :=
  if d.initState = 1 then { d with irqBase := (idata &&& 0xf8).setWidth 32, initState := 2 }
  else if d.initState = 2 then { d with initState := 3 }
  else if d.initState = 3 then { d with initState := 0 }
  else d

/-- `DEVICE_ACCESS(8259)`. -/
def access (d : Pic8259) (relativeAddr : Nat) (write : Bool) (data : BitVec 64) : Result :=
  let idata := if write then data else 0
  if relativeAddr = 0 then if write then d.command idata else quiet d d.status
  else if relativeAddr = 1 then
    if 0 < d.initState then quiet (d.initWord idata) 0
    else if write then recalculate d { d with ier := idata.setWidth 8 }
    else quiet d (d.ier.setWidth 64)
  else ⟨d, none, 0, true⟩

/-- DEVINIT(8259). -/
def init (irqBase : BitVec 32) : Pic8259 := ⟨irqBase, 0, 0, 0, 0, 0⟩

end Pic8259

/-- `struct bus_isa_data`, the interrupt at the CPU, and whether isa_interrupt_common() has asserted it in this step. -/
structure Bus where
  pic1 : Pic8259
  pic2 : Pic8259
  pendingTimerInterrupts : Option Int
  lastInt : Nat
  irq : Bool
  running : Bool
  asserted : Bool

namespace Bus

/-- Line `x` of the bus has a request that is not masked. -/
def requests (d : Bus) (x : Nat) : Bool :=
  x ≠ 2 && (if x < 8 then d.pic1.pending.getLsbD x else d.pic2.pending.getLsbD (x - 8))

def interruptCommon (d : Bus) (oldIsaAssert : BitVec 8) : Bus :=
  let irr := if d.pic2.pending ≠ 0 then d.pic1.irr ||| 4#8 else d.pic1.irr &&& ~~~ 4#8
  let d := { d with pic1 := { d.pic1 with irr } }
  let newIsaAssert := d.pic1.pending
  if oldIsaAssert = newIsaAssert then d
  else if newIsaAssert = 0 then { d with irq := false }
  else { d with lastInt := ((List.range 16).find? d.requests).getD 16, irq := true, asserted := true }

def interruptAssert (d : Bus) (line : Nat) : Bus :=
  let mask := 1#8 <<< (line &&& 7)
  let oldIsaAssert := d.pic1.pending
  let d :=
    if line < 8 then { d with pic1 := { d.pic1 with irr := d.pic1.irr ||| mask } }
    else { d with pic2 := { d.pic2 with irr := d.pic2.irr ||| mask } }
  d.interruptCommon oldIsaAssert

def interruptDeassert (d : Bus) (line : Nat) : Bus :=
  let mask := 1#8 <<< (line &&& 7)
  let oldIrr1 := d.pic1.irr
  let oldIsaAssert := d.pic1.pending
  let d :=
    if line < 8 then { d with pic1 := { d.pic1 with irr := d.pic1.irr &&& ~~~ mask } }
    else { d with pic2 := { d.pic2 with irr := d.pic2.irr &&& ~~~ mask } }
  -- "this is a timer interrupt. Let's ack it here"
  let timers :=
    if oldIrr1.getLsbD 0 && !d.pic1.irr.getLsbD 0 then
      d.pendingTimerInterrupts.map fun n => if 0 < n then n - 1 else n
    else d.pendingTimerInterrupts
  let d := { d with pendingTimerInterrupts := timers }
  d.interruptCommon oldIsaAssert

def access1 (d : Bus) (relativeAddr : Nat) (write : Bool) (data : BitVec 64) : Bus :=
  let r := d.pic1.access relativeAddr write data
  { d with pic1 := r.pic, irq := r.irq.getD d.irq, running := d.running && !r.stops }

def access2 (d : Bus) (relativeAddr : Nat) (write : Bool) (data : BitVec 64) : Bus :=
  let r := d.pic2.access relativeAddr write data
  let d := { d with pic2 := r.pic, running := d.running && !r.stops }
  match r.irq with
  | some true => d.interruptAssert 2
  | some false => d.interruptDeassert 2
  | none => d

/-- bus_isa_init(), with two controllers. The counter of pending timer interrupts is whatever the 8253 has set up. -/
def init (timers : Option Int) : Bus := ⟨.init 0, .init 8, timers, 0, false, true, false⟩

end Bus

inductive BusOp where
  | interruptAssert (line : Nat)
  | interruptDeassert (line : Nat)
  | access1 (relativeAddr : Nat) (write : Bool) (data : BitVec 64)
  | access2 (relativeAddr : Nat) (write : Bool) (data : BitVec 64)

def BusOp.Legal : BusOp → Prop
  | .interruptAssert line | .interruptDeassert line => line < 16 ∧ line ≠ 2
  | _ => True

def Bus.step (d : Bus) (o : BusOp) : Except Exit Bus :=
  let d := { d with asserted := false }
  match o with
  | .interruptAssert line => .ok (d.interruptAssert line)
  | .interruptDeassert line => .ok (d.interruptDeassert line)
  | .access1 relativeAddr write data => .ok (d.access1 relativeAddr write data)
  | .access2 relativeAddr write data => .ok (d.access2 relativeAddr write data)

end Gxemul.Isa

/- Pending interrupts of the cascaded controllers.

   Bit 2 of the first controller stands for the second one. isa_interrupt_common()
   brings it up to date, and it is called whenever the unmasked requests of the
   second controller change. An EOI for line 2 clears the bit without asking
   whether the second controller still has a request. -/
namespace Gxemul.Isa

theorem ne_zero_iff {w : Nat} (x : BitVec w) : x ≠ 0 ↔ ∃ i, i < w ∧ x.getLsbD i = true := by
  constructor
  · intro h
    by_contra hnone
    refine h (BitVec.eq_of_getLsbD_eq fun i hi => ?_)
    have hbit : ¬ x.getLsbD i = true := fun hset => hnone ⟨i, hi, hset⟩
    rw [Bool.not_eq_true] at hbit
    rw [hbit]
    exact BitVec.getLsbD_zero.symm
  · rintro ⟨i, hi, hbit⟩ rfl
    simp at hbit

namespace Pic8259
variable {d : Pic8259}

theorem pending_getLsbD (d : Pic8259) {i : Nat} (hi : i < 8) :
    d.pending.getLsbD i = (d.irr.getLsbD i && !d.ier.getLsbD i) := by
  unfold pending
  rw [BitVec.getLsbD_and, BitVec.getLsbD_not]
  simp [hi]

def EndsLine2 (relativeAddr : Nat) (write : Bool) (data : BitVec 64) : Prop :=
  relativeAddr = 0 ∧ write = true ∧ data &&& 0x10 ≠ 0x10 ∧ isSpecificEoi data = true ∧ data &&& 7 = 2

instance (relativeAddr : Nat) (write : Bool) (data : BitVec 64) : Decidable (EndsLine2 relativeAddr write data) :=
  inferInstanceAs (Decidable (_ ∧ _))

/-- What an access does to the requests. The output follows the unmasked requests, and bit 2 is cleared by an EOI. -/
structure Result.Sound (d : Pic8259) (relativeAddr : Nat) (write : Bool) (data : BitVec 64) (r : Result) : Prop where
  same : r.irq = none → r.pic.pending = d.pending
  output : ∀ b, r.irq = some b → b = decide (r.pic.pending ≠ 0)
  inService : d.isr = 0 → r.pic.isr = 0
  line2 : d.isr = 0 → ¬ EndsLine2 relativeAddr write data → r.pic.irr.getLsbD 2 = d.irr.getLsbD 2
  cleared : d.isr = 0 → d.irr.getLsbD 2 = false → r.pic.irr.getLsbD 2 = false

section
variable {relativeAddr : Nat} {write : Bool} {data : BitVec 64}

theorem Result.Sound.of_same {r : Result} (hirr : r.pic.irr = d.irr) (hisr : r.pic.isr = d.isr) (hier : r.pic.ier = d.ier)
    (hirq : r.irq = none) : r.Sound d relativeAddr write data := by
  have hpending : r.pic.pending = d.pending := by
    unfold pending
    rw [hirr, hier]
  refine ⟨fun _ => hpending, fun b hb => ?_, fun h => hisr.trans h, fun _ _ => by rw [hirr], fun _ h => by rw [hirr, h]⟩
  rw [hirq] at hb
  cases hb

theorem Result.Sound.of_recalculate {old new : Pic8259} (hold : old.pending = d.pending)
    (hisr : d.isr = 0 → new.isr = 0)
    (hline2 : d.isr = 0 → ¬ EndsLine2 relativeAddr write data → new.irr.getLsbD 2 = d.irr.getLsbD 2)
    (hclear : d.isr = 0 → d.irr.getLsbD 2 = false → new.irr.getLsbD 2 = false) :
    (recalculate old new).Sound d relativeAddr write data := by
  refine ⟨fun h => ?_, fun b hb => ?_, hisr, hline2, hclear⟩
  · unfold recalculate at h
    split at h
    · cases h
    · rename_i heq
      exact (not_not.mp heq).symm.trans hold
  · unfold recalculate at hb
    split at hb <;> cases hb
    rfl

theorem command_sound (d : Pic8259) (data : BitVec 64) : (d.command data).Sound d 0 true data := by
  unfold command
  split
  · exact .of_same rfl rfl rfl rfl
  · rename_i hword
    split
    · exact .of_same rfl rfl rfl rfl
    · split
      · -- the non-specific EOI clears what is in service, which is nothing
        have hirr : d.isr = 0 → d.irr &&& ~~~ d.isr = d.irr := fun h => by
          rw [h]
          exact BitVec.and_allOnes
        refine .of_recalculate rfl (fun _ => rfl) (fun h _ => ?_) fun h hbit => ?_ <;> dsimp only <;> rw [hirr h]
        exact hbit
      · split
        · rename_i heoi
          refine .of_recalculate rfl (fun h => ?_) (fun _ hne => ?_) fun _ hbit => ?_
          · rw [h]
            exact BitVec.zero_and
          · -- a specific EOI for another line leaves bit 2 alone
            have hbit : ¬ (data &&& 7).toNat = 2 := fun h => hne ⟨rfl, rfl, hword, heoi, BitVec.eq_of_toNat_eq h⟩
            rw [BitVec.getLsbD_and, BitVec.getLsbD_not, BitVec.getLsbD_shiftLeft]
            generalize (data &&& 7).toNat = n at hbit
            have hcases : n = 0 ∨ n = 1 ∨ 2 < n := by omega
            rcases hcases with rfl | rfl | hgt
            · simp
            · simp
            · simp [hgt]
          · rw [BitVec.getLsbD_and, hbit, Bool.false_and]
        · split
          · exact .of_same rfl rfl rfl rfl
          · split <;> exact .of_same rfl rfl rfl rfl

theorem initWord_same (d : Pic8259) (data : BitVec 64) :
    (d.initWord data).irr = d.irr ∧ (d.initWord data).isr = d.isr ∧ (d.initWord data).ier = d.ier := by
  unfold initWord
  split
  · exact ⟨rfl, rfl, rfl⟩
  · split
    · exact ⟨rfl, rfl, rfl⟩
    · split <;> exact ⟨rfl, rfl, rfl⟩

theorem access_sound (d : Pic8259) (relativeAddr : Nat) (write : Bool) (data : BitVec 64) :
    (d.access relativeAddr write data).Sound d relativeAddr write data := by
  unfold access
  dsimp only
  split
  · rename_i h0
    subst h0
    cases write with
    | true => exact command_sound d data
    | false => exact .of_same rfl rfl rfl rfl
  · split
    · split
      · obtain ⟨hirr, hisr, hier⟩ := initWord_same d (if write then data else 0)
        exact .of_same hirr hisr hier rfl
      · split
        · exact .of_recalculate rfl id (fun _ _ => rfl) fun _ h => h
        · exact .of_same rfl rfl rfl rfl
    · exact .of_same rfl rfl rfl rfl

end

end Pic8259

/-! ## isa_interrupt_common() -/

namespace Bus
variable {d : Bus}

/-- The interrupt at the CPU and bit 2 of the first controller are up to date. Nothing is ever in service. -/
structure Inv (d : Bus) : Prop where
  irq : d.irq = decide (d.pic1.pending ≠ 0)
  line2 : d.pic1.irr.getLsbD 2 = decide (d.pic2.pending ≠ 0)
  isr1 : d.pic1.isr = 0
  isr2 : d.pic2.isr = 0
  last : d.asserted = true → d.lastInt < 16 ∧ d.requests d.lastInt = true

/-- What the property of the claim is about: an interrupt is asserted exactly when there is a request that can be seen,
and the number that goes with it is the number of a request. -/
def Served (d : Bus) : Prop :=
  (d.irq = true ↔ (∃ x, x < 8 ∧ d.requests x = true) ∨
    (d.pic1.ier.getLsbD 2 = false ∧ ∃ x, 8 ≤ x ∧ x < 16 ∧ d.requests x = true)) ∧
  (d.asserted = true → d.lastInt < 16 ∧ d.requests d.lastInt = true)

theorem requests_low {x : Nat} (hx : x < 8) (h2 : x ≠ 2) : d.requests x = d.pic1.pending.getLsbD x := by
  unfold requests
  simp [hx, h2]

theorem requests_high (d : Bus) (x : Nat) : d.requests (x + 8) = d.pic2.pending.getLsbD x := by
  unfold requests
  have h2 : x + 8 ≠ 2 := by omega
  have h8 : ¬ x + 8 < 8 := by omega
  simp [h2, h8]

theorem pending2_iff : d.pic2.pending ≠ 0 ↔ ∃ x, 8 ≤ x ∧ x < 16 ∧ d.requests x = true := by
  rw [ne_zero_iff]
  constructor
  · rintro ⟨i, hi, hbit⟩
    exact ⟨i + 8, by omega, by omega, (requests_high d i).trans hbit⟩
  · rintro ⟨x, h8, h16, hx⟩
    obtain ⟨i, rfl⟩ : ∃ i, x = i + 8 := ⟨x - 8, by omega⟩
    exact ⟨i, by omega, (requests_high d i).symm.trans hx⟩

theorem pending1_iff : d.pic1.pending ≠ 0 ↔
    (∃ x, x < 8 ∧ d.requests x = true) ∨ d.pic1.pending.getLsbD 2 = true := by
  rw [ne_zero_iff]
  constructor
  · rintro ⟨i, hi, hbit⟩
    by_cases h2 : i = 2
    · subst h2
      exact .inr hbit
    · exact .inl ⟨i, hi, (requests_low hi h2).trans hbit⟩
  · rintro (⟨x, hx, hreq⟩ | hbit)
    · have h2 : x ≠ 2 := by
        rintro rfl
        simp [requests] at hreq
      exact ⟨x, hx, (requests_low hx h2).symm.trans hreq⟩
    · exact ⟨2, by decide, hbit⟩

theorem Inv.served (h : d.Inv) : d.Served := by
  refine ⟨?_, h.last⟩
  have hbit2 : d.pic1.pending.getLsbD 2 = true ↔ d.pic1.ier.getLsbD 2 = false ∧ d.pic2.pending ≠ 0 := by
    rw [Pic8259.pending_getLsbD d.pic1 (by decide), h.line2]
    simp [and_comm]
  calc d.irq = true ↔ d.pic1.pending ≠ 0 := by rw [h.irq, decide_eq_true_iff]
    _ ↔ (∃ x, x < 8 ∧ d.requests x = true) ∨ d.pic1.pending.getLsbD 2 = true := pending1_iff
    _ ↔ (∃ x, x < 8 ∧ d.requests x = true) ∨
          (d.pic1.ier.getLsbD 2 = false ∧ ∃ x, 8 ≤ x ∧ x < 16 ∧ d.requests x = true) := by rw [hbit2, pending2_iff]

/-- isa_interrupt_common() brings the interrupt and bit 2 up to date. The interrupt has to agree with the requests that
it is told were there before. -/
theorem interruptCommon_inv {old : BitVec 8} (hold : d.irq = decide (old ≠ 0)) (h1 : d.pic1.isr = 0)
    (h2 : d.pic2.isr = 0) (hfirst : d.asserted = false) : (d.interruptCommon old).Inv := by
  unfold interruptCommon
  dsimp only
  generalize hirr : (if d.pic2.pending ≠ 0 then d.pic1.irr ||| 4#8 else d.pic1.irr &&& ~~~ 4#8) = irr
  have hbit : irr.getLsbD 2 = decide (d.pic2.pending ≠ 0) := by
    rw [← hirr]
    split
    · rename_i hne
      rw [decide_eq_true hne]
      simp
    · rename_i heq
      rw [decide_eq_false heq]
      simp
  generalize hpic : ({ d.pic1 with irr := irr } : Pic8259) = pic1
  have hirr1 : pic1.irr = irr := by rw [← hpic]
  have hisr1 : pic1.isr = 0 := by rw [← hpic, ← h1]
  split
  · rename_i hsame
    refine ⟨?_, ?_, hisr1, h2, fun h => ?_⟩
    · rw [hold, hsame]
    · rw [hirr1, hbit]
    · rw [hfirst] at h
      cases h
  · split
    · rename_i hzero
      refine ⟨?_, ?_, hisr1, h2, fun h => ?_⟩
      · simp [hzero]
      · rw [hirr1, hbit]
      · rw [hfirst] at h
        cases h
    · rename_i hne
      refine ⟨?_, ?_, hisr1, h2, fun _ => ?_⟩
      · exact (decide_eq_true hne).symm
      · rw [hirr1, hbit]
      · -- there is a request on some line: if it is only bit 2, then the second controller has one
        generalize hd : ({ d with pic1 := pic1 } : Bus) = d'
        have hreq : ∃ x, x < 16 ∧ d'.requests x = true := by
          have hp1 : d'.pic1.pending ≠ 0 := by
            rw [← hd]
            exact hne
          rcases pending1_iff.mp hp1 with ⟨x, hx, hreq⟩ | hbit2
          · exact ⟨x, by omega, hreq⟩
          · rw [Pic8259.pending_getLsbD _ (by decide), Bool.and_eq_true] at hbit2
            have hset : irr.getLsbD 2 = true := by
              rw [← hirr1]
              rw [← hd] at hbit2
              exact hbit2.1
            have hp2 : d'.pic2.pending ≠ 0 := by
              rw [← hd]
              exact of_decide_eq_true (hbit.symm.trans hset)
            obtain ⟨x, -, hx, hreq⟩ := pending2_iff.mp hp2
            exact ⟨x, hx, hreq⟩
        obtain ⟨x, hx, hxreq⟩ := hreq
        have hsome : ((List.range 16).find? d'.requests).isSome := by
          rw [List.find?_isSome]
          exact ⟨x, List.mem_range.mpr hx, hxreq⟩
        obtain ⟨y, hy⟩ := Option.isSome_iff_exists.mp hsome
        have hyreq := List.find?_some hy
        have hymem := List.mem_range.mp (List.mem_of_find?_eq_some hy)
        rw [hy]
        refine ⟨hymem, ?_⟩
        rw [← hd] at hyreq
        exact hyreq

/-! ## One step -/

theorem Inv.interruptAssert (h : d.Inv) (hfirst : d.asserted = false) (line : Nat) : (d.interruptAssert line).Inv := by
  unfold Bus.interruptAssert
  split <;> exact interruptCommon_inv h.irq h.isr1 h.isr2 hfirst

theorem Inv.interruptDeassert (h : d.Inv) (hfirst : d.asserted = false) (line : Nat) :
    (d.interruptDeassert line).Inv := by
  unfold Bus.interruptDeassert
  split <;> exact interruptCommon_inv h.irq h.isr1 h.isr2 hfirst

section
variable {relativeAddr : Nat} {write : Bool} {data : BitVec 64}

theorem Inv.access1 (h : d.Inv) (hfirst : d.asserted = false)
    (hline2 : Pic8259.EndsLine2 relativeAddr write data → d.pic2.pending = 0) :
    (d.access1 relativeAddr write data).Inv := by
  have hr := Pic8259.access_sound d.pic1 relativeAddr write data
  unfold Bus.access1
  generalize d.pic1.access relativeAddr write data = r at hr
  refine ⟨?_, ?_, hr.inService h.isr1, h.isr2, fun hass => ?_⟩
  · dsimp only
    cases hirq : r.irq with
    | none =>
      rw [Option.getD_none, hr.same hirq]
      exact h.irq
    | some b => exact hr.output b hirq
  · by_cases hends : Pic8259.EndsLine2 relativeAddr write data
    · have hzero := hline2 hends
      have hbit : d.pic1.irr.getLsbD 2 = false := by
        rw [h.line2, hzero]
        rfl
      rw [hr.cleared h.isr1 hbit, hzero]
      rfl
    · rw [hr.line2 h.isr1 hends, h.line2]
  · rw [hfirst] at hass
    cases hass

/-- An access to the second controller: when its requests change, isa_interrupt_common() is called. -/
theorem Inv.access2 (h : d.Inv) (hfirst : d.asserted = false) : (d.access2 relativeAddr write data).Inv := by
  have hr := Pic8259.access_sound d.pic2 relativeAddr write data
  unfold Bus.access2
  dsimp only
  generalize d.pic2.access relativeAddr write data = r at hr
  have hisr2 := hr.inService h.isr2
  split
  · unfold Bus.interruptAssert
    dsimp only
    rw [if_pos (by decide)]
    exact interruptCommon_inv h.irq h.isr1 hisr2 hfirst
  · unfold Bus.interruptDeassert
    dsimp only
    rw [if_pos (by decide)]
    exact interruptCommon_inv h.irq h.isr1 hisr2 hfirst
  · rename_i hirq
    refine ⟨h.irq, ?_, h.isr1, hisr2, fun hass => ?_⟩
    · rw [h.line2, hr.same hirq]
    · rw [hfirst] at hass
      cases hass

end

/-- An EOI for line 2 while the second controller has a request. -/
def Forgets (d : Bus) : BusOp → Prop
  | .access1 relativeAddr write data => Pic8259.EndsLine2 relativeAddr write data ∧ d.pic2.pending ≠ 0
  | _ => False

instance (d : Bus) : (o : BusOp) → Decidable (d.Forgets o)
  | .access1 .. => inferInstanceAs (Decidable (_ ∧ _))
  | .access2 .. | .interruptAssert _ | .interruptDeassert _ => inferInstanceAs (Decidable False)

theorem Inv.restart (h : d.Inv) : Inv { d with asserted := false } :=
  ⟨h.irq, h.line2, h.isr1, h.isr2, fun hass => nomatch hass⟩

theorem Inv.step (h : d.Inv) {o : BusOp} (hf : ¬ d.Forgets o) {d' : Bus} (hs : d.step o = .ok d') : d'.Inv := by
  cases o with
  | interruptAssert line =>
    cases hs
    exact h.restart.interruptAssert rfl line
  | interruptDeassert line =>
    cases hs
    exact h.restart.interruptDeassert rfl line
  | access1 relativeAddr write data =>
    cases hs
    refine h.restart.access1 rfl fun hends => ?_
    by_contra hne
    exact hf ⟨hends, hne⟩
  | access2 relativeAddr write data =>
    cases hs
    exact h.restart.access2 rfl

end Bus

/-! ## Runs -/

/-- As long as the first controller is not told that line 2 has been dealt with while the second one has a request, the
interrupt at the CPU is asserted exactly when there is a request to be seen. -/
theorem served_of_not_forgets (timers : Option Int) (ops : List BusOp) (hl : ∀ o ∈ ops, o.Legal)
    (hrun : Lib.Along Bus.step (fun d o => ¬ d.Forgets o) ops (.init timers)) :
    Lib.Reaches Bus.step Bus.Served ops (.init timers) := by
  have hnone : decide ((Pic8259.init 0).pending ≠ 0) = false ∧ decide ((Pic8259.init 8).pending ≠ 0) = false := by decide
  have hstart : (Bus.init timers).Inv := ⟨hnone.1.symm, BitVec.getLsbD_zero.trans hnone.2.symm, rfl, rfl, fun h => nomatch h⟩
  have hinv : Lib.Reaches Bus.step Bus.Inv ops (.init timers) := by
    refine Lib.reaches_of_along BusOp.Legal ?_ hl hstart hrun
    intro d o d' _ h hf hs
    exact h.step hf hs
  exact hinv.mono fun d h => h.served

/-- A disk and the mouse: both requests are ended at the second controller, and then line 2. -/
theorem served_of_not_forgets_disk : Lib.Reaches Bus.step Bus.Served
    [.interruptAssert 14, .interruptAssert 12, .interruptDeassert 14, .access2 0 true 0x64, .access1 0 true 0x62,
      .access1 1 true 0xff] (.init none) :=
  served_of_not_forgets none _ (by simp [BusOp.Legal]) (by decide)

/-- Two disks. The first one is ended at both controllers, and the request of the second one is lost. -/
theorem not_served_of_eoi : ¬ ∀ timers (ops : List BusOp), (∀ o ∈ ops, o.Legal) →
    Lib.Reaches Bus.step Bus.Served ops (.init timers) := by
  intro h
  have hrun := h none [.interruptAssert 14, .interruptAssert 15, .access2 0 true 0x66, .access1 0 true 0x62]
    (by simp [BusOp.Legal])
  obtain ⟨d, hd, hlost⟩ := Lib.runOps_eval Bus.step
    [.interruptAssert 14, .interruptAssert 15, .access2 0 true 0x66, .access1 0 true 0x62] (.init none)
    (fun d => (d.irq, d.pic1.ier.getLsbD 2, d.requests 15)) (false, false, true) (by decide)
  obtain ⟨hserved, -⟩ := hrun.last hd
  simp only [Prod.mk.injEq] at hlost
  have hirq : d.irq = true := hserved.mpr (.inr ⟨hlost.2.1, 15, by decide, by decide, hlost.2.2⟩)
  rw [hlost.1] at hirq
  cases hirq

end Gxemul.Isa
