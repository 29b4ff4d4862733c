import Mathlib.Data.BitVec
import Mathlib.Tactic.Linarith
import Mathlib.Tactic.Ring

/- Numbers of several words, and machines that add them one word at a time.

   An instruction of such a machine adds two words and a carry. A chain of instructions
   that take the carry of the one before adds two long numbers. -/
namespace Gxemul.Lib

/-! ## Numbers of several words -/

section
variable {w : Nat}

/-- The number that words stand for, the least significant one first. -/
def wordsValue : List (BitVec w) → Nat
  | [] => 0
  | x :: l => x.toNat + 2 ^ w * wordsValue l

theorem wordsValue_lt (l : List (BitVec w)) : wordsValue l < (2 ^ w) ^ l.length := by
  induction l with
  | nil => exact Nat.one_pos
  | cons x l ih =>
    rw [wordsValue, List.length_cons, Nat.pow_succ]
    calc x.toNat + 2 ^ w * wordsValue l < 2 ^ w + 2 ^ w * wordsValue l := by omega
      _ = 2 ^ w * (wordsValue l + 1) := by ring
      _ ≤ 2 ^ w * (2 ^ w) ^ l.length := Nat.mul_le_mul_left _ ih
      _ = (2 ^ w) ^ l.length * 2 ^ w := Nat.mul_comm _ _

/-- The complement of all words. -/
theorem wordsValue_not (l : List (BitVec w)) : wordsValue (l.map (~~~ ·)) + wordsValue l + 1 = (2 ^ w) ^ l.length := by
  induction l with
  | nil => rfl
  | cons x l ih =>
    have hsum : 2 ^ w - 1 - x.toNat + x.toNat + 1 = 2 ^ w := by omega
    rw [List.map_cons, wordsValue, wordsValue, BitVec.toNat_not, List.length_cons, Nat.pow_succ, ← ih]
    calc 2 ^ w - 1 - x.toNat + 2 ^ w * wordsValue (l.map (~~~ ·)) + (x.toNat + 2 ^ w * wordsValue l) + 1 =
          2 ^ w - 1 - x.toNat + x.toNat + 1 + 2 ^ w * (wordsValue (l.map (~~~ ·)) + wordsValue l) := by ring
      _ = (wordsValue (l.map (~~~ ·)) + wordsValue l + 1) * 2 ^ w := by rw [hsum]; ring

/-- A number that fits, with the carry that does not, is a remainder and a comparison. -/
theorem eq_mod_of_carry {r n s : Nat} {c : Bool} (hr : r < n) (hs : s < 2 * n) (h : r + n * c.toNat = s) :
    r = s % n ∧ c = decide (n ≤ s) := by
  cases c with
  | false =>
    rw [Bool.toNat_false, Nat.mul_zero, Nat.add_zero] at h
    subst h
    exact ⟨(Nat.mod_eq_of_lt hr).symm, (decide_eq_false (Nat.not_le.mpr hr)).symm⟩
  | true =>
    rw [Bool.toNat_true, Nat.mul_one] at h
    subst h
    rw [Nat.add_mod_right, Nat.mod_eq_of_lt hr]
    exact ⟨rfl, (decide_eq_true (Nat.le_add_left n r)).symm⟩

end

/-! ## Machines with a carry -/

/-- A machine with instructions that add two words and a carry. -/
structure Adder (σ ι : Type*) (w : Nat) where
  step : ι → σ → σ
  left : ι → σ → BitVec w
  right : ι → σ → BitVec w
  carryIn : ι → σ → Bool
  result : ι → σ → BitVec w
  carry : σ → Bool
  adds : ∀ i s, (result i s).toNat + 2 ^ w * (carry (step i s)).toNat =
    (left i s).toNat + (right i s).toNat + (carryIn i s).toNat

namespace Adder
variable {σ ι : Type*} {w : Nat} (m : Adder σ ι w)

def run (l : List ι) (s : σ) : σ := l.foldl (fun s i => m.step i s) s

/-- What a function of the instruction gives all along a chain, in the state before each instruction. -/
def along (f : ι → σ → BitVec w) : List ι → σ → List (BitVec w)
  | [], _ => []
  | i :: l, s => f i s :: along f l (m.step i s)

theorem length_along (f : ι → σ → BitVec w) (l : List ι) (s : σ) : (m.along f l s).length = l.length := by
  induction l generalizing s with
  | nil => rfl
  | cons i l ih => rw [along, List.length_cons, ih, List.length_cons]

/-- The instruction takes the carry of the one before. -/
def Extended (i : ι) : Prop := ∀ s, m.carryIn i s = m.carry s

/-- The numbers that a chain adds, if they have been added from its second instruction on. -/
theorem adds_cons (i : ι) (l : List ι) (s : σ)
    (hrest : wordsValue (m.along m.result l (m.step i s)) +
        (2 ^ w) ^ l.length * (m.carry (m.run l (m.step i s))).toNat =
      wordsValue (m.along m.left l (m.step i s)) + wordsValue (m.along m.right l (m.step i s)) +
        (m.carry (m.step i s)).toNat) :
    wordsValue (m.along m.result (i :: l) s) + (2 ^ w) ^ (l.length + 1) * (m.carry (m.run (i :: l) s)).toNat =
      wordsValue (m.along m.left (i :: l) s) + wordsValue (m.along m.right (i :: l) s) + (m.carryIn i s).toNat := by
  have hfirst := m.adds i s
  change wordsValue (m.along m.result l (m.step i s)) + (2 ^ w) ^ l.length * (m.carry (m.run (i :: l) s)).toNat = _
    at hrest
  calc (m.result i s).toNat + 2 ^ w * wordsValue (m.along m.result l (m.step i s)) +
        (2 ^ w) ^ l.length * 2 ^ w * (m.carry (m.run (i :: l) s)).toNat =
        (m.result i s).toNat + 2 ^ w * (wordsValue (m.along m.result l (m.step i s)) +
          (2 ^ w) ^ l.length * (m.carry (m.run (i :: l) s)).toNat) := by ring
    _ = (m.result i s).toNat + 2 ^ w * (m.carry (m.step i s)).toNat +
          2 ^ w * (wordsValue (m.along m.left l (m.step i s)) + wordsValue (m.along m.right l (m.step i s))) := by
        rw [hrest]; ring
    _ = (m.left i s).toNat + 2 ^ w * wordsValue (m.along m.left l (m.step i s)) +
          ((m.right i s).toNat + 2 ^ w * wordsValue (m.along m.right l (m.step i s))) + (m.carryIn i s).toNat := by
        rw [hfirst]; ring

/-- A chain adds two long numbers and the carry that it begins with. -/
theorem chain_adds {l : List ι} (hl : ∀ i ∈ l, m.Extended i) (s : σ) :
    wordsValue (m.along m.result l s) + (2 ^ w) ^ l.length * (m.carry (m.run l s)).toNat =
      wordsValue (m.along m.left l s) + wordsValue (m.along m.right l s) + (m.carry s).toNat := by
  induction l generalizing s with
  | nil =>
    rw [List.length_nil, Nat.pow_zero, Nat.one_mul]
    rfl
  | cons i l ih =>
    have hrest := ih (fun j hj => hl j (List.mem_cons_of_mem i hj)) (m.step i s)
    rw [List.length_cons, m.adds_cons i l s hrest, hl i List.mem_cons_self s]

/-! ## Sums and differences -/

/-- The chain begins without a carry: its result is the sum, and its carry is the carry of the sum. -/
theorem chain_sum (i : ι) {l : List ι} (hl : ∀ j ∈ l, m.Extended j) (s : σ) (h0 : m.carryIn i s = false) :
    wordsValue (m.along m.result (i :: l) s) =
        (wordsValue (m.along m.left (i :: l) s) + wordsValue (m.along m.right (i :: l) s)) % (2 ^ w) ^ (l.length + 1) ∧
      m.carry (m.run (i :: l) s) = decide ((2 ^ w) ^ (l.length + 1) ≤
        wordsValue (m.along m.left (i :: l) s) + wordsValue (m.along m.right (i :: l) s)) := by
  have hsum := m.adds_cons i l s (m.chain_adds hl (m.step i s))
  have hr := wordsValue_lt (m.along m.result (i :: l) s)
  have hx := wordsValue_lt (m.along m.left (i :: l) s)
  have hy := wordsValue_lt (m.along m.right (i :: l) s)
  rw [length_along, List.length_cons] at hr hx hy
  rw [h0, Bool.toNat_false, Nat.add_zero] at hsum
  exact eq_mod_of_carry hr (by linarith) hsum

/-- The chain begins with a carry and complements a number: its result is the difference, and the carry means
that nothing was borrowed. -/
theorem chain_difference (sub : ι → σ → BitVec w) (i : ι) {l : List ι} (hl : ∀ j ∈ l, m.Extended j)
    (s : σ) (h1 : m.carryIn i s = true)
    (hsub : m.along m.left (i :: l) s = (m.along sub (i :: l) s).map (~~~ ·)) :
    wordsValue (m.along m.result (i :: l) s) =
        (wordsValue (m.along m.right (i :: l) s) + (2 ^ w) ^ (l.length + 1) - wordsValue (m.along sub (i :: l) s)) %
          (2 ^ w) ^ (l.length + 1) ∧
      m.carry (m.run (i :: l) s) =
        decide (wordsValue (m.along sub (i :: l) s) ≤ wordsValue (m.along m.right (i :: l) s)) := by
  have hsum := m.adds_cons i l s (m.chain_adds hl (m.step i s))
  have hnot := wordsValue_not (m.along sub (i :: l) s)
  have hr := wordsValue_lt (m.along m.result (i :: l) s)
  have hx := wordsValue_lt (m.along sub (i :: l) s)
  have hy := wordsValue_lt (m.along m.right (i :: l) s)
  rw [length_along, List.length_cons] at hr hx hy hnot
  rw [h1, Bool.toNat_true, hsub] at hsum
  generalize (2 ^ w) ^ (l.length + 1) = n at *
  have hdiff : wordsValue (m.along m.result (i :: l) s) + n * (m.carry (m.run (i :: l) s)).toNat =
      wordsValue (m.along m.right (i :: l) s) + n - wordsValue (m.along sub (i :: l) s) := by omega
  obtain ⟨hvalue, hcarry⟩ := eq_mod_of_carry hr (by omega) hdiff
  refine ⟨hvalue, hcarry.trans (decide_eq_decide.mpr ?_)⟩
  omega

/-! ## Chains that keep their operands -/

/-- The registers of a machine: what is read and what is written. -/
structure Registers (ρ : Type*) where
  read : σ → ρ → BitVec w
  dst : ι → ρ
  src : ι → List ρ
  result_eq : ∀ i s, m.result i s = read (m.step i s) (dst i)
  other : ∀ i s r, r ≠ dst i → read (m.step i s) r = read s r

variable {m} {ρ : Type*} (reg : m.Registers ρ)

/-- No instruction reads or writes what one before it has written. -/
def Registers.Separate (l : List ι) : Prop := l.Pairwise fun i j => reg.dst j ≠ reg.dst i ∧ reg.dst i ∉ reg.src j

theorem Registers.read_run {l : List ι} {r : ρ} (hr : ∀ i ∈ l, r ≠ reg.dst i) (s : σ) :
    reg.read (m.run l s) r = reg.read s r := by
  induction l generalizing s with
  | nil => rfl
  | cons i l ih =>
    exact (ih (fun j hj => hr j (List.mem_cons_of_mem i hj)) (m.step i s)).trans
      (reg.other i s r (hr i List.mem_cons_self))

/-- The results are in the registers at the end. -/
theorem Registers.along_result {l : List ι} (hl : reg.Separate l) (s : σ) :
    m.along m.result l s = l.map fun i => reg.read (m.run l s) (reg.dst i) := by
  induction l generalizing s with
  | nil => rfl
  | cons i l ih =>
    obtain ⟨hfirst, hrest⟩ := List.pairwise_cons.mp hl
    rw [along, List.map_cons, ih hrest]
    have hkept := reg.read_run (fun j hj => (hfirst j hj).1.symm) (m.step i s)
    exact congrArg₂ List.cons ((reg.result_eq i s).trans hkept.symm) rfl

/-- The operands are those of the registers at the beginning. -/
theorem Registers.along_operand {f : ι → σ → BitVec w}
    (hf : ∀ i s s', (∀ r ∈ reg.src i, reg.read s r = reg.read s' r) → f i s = f i s') {l : List ι}
    (hl : reg.Separate l) (s : σ) : m.along f l s = l.map fun i => f i s := by
  induction l generalizing s with
  | nil => rfl
  | cons i l ih =>
    obtain ⟨hfirst, hrest⟩ := List.pairwise_cons.mp hl
    rw [along, List.map_cons, ih hrest]
    congr 1
    apply List.map_congr_left
    intro j hj
    exact hf j _ _ fun r hr => reg.other i s r fun heq => (hfirst j hj).2 (heq ▸ hr)

/-! ## Long numbers -/

/-- A chain leaves the sum of two long numbers, and the carry of the sum. -/
def Sum (m : Adder σ ι w) (x y : ι → σ → BitVec w) (l : List ι) (s : σ) : Prop :=
  wordsValue (m.along m.result l s) = (wordsValue (m.along x l s) + wordsValue (m.along y l s)) % (2 ^ w) ^ l.length ∧
    m.carry (m.run l s) =
      decide ((2 ^ w) ^ l.length ≤ wordsValue (m.along x l s) + wordsValue (m.along y l s))

/-- A chain leaves the difference of two long numbers, and a carry if nothing was borrowed. -/
def Difference (m : Adder σ ι w) (x y : ι → σ → BitVec w) (l : List ι) (s : σ) : Prop :=
  wordsValue (m.along m.result l s) =
      (wordsValue (m.along x l s) + (2 ^ w) ^ l.length - wordsValue (m.along y l s)) % (2 ^ w) ^ l.length ∧
    m.carry (m.run l s) = decide (wordsValue (m.along y l s) ≤ wordsValue (m.along x l s))

/-- The words of a chain are those of the registers: its results at the end, its operands at the beginning. -/
def Registers.Holds (x y : ι → σ → BitVec w) (l : List ι) (s : σ) : Prop :=
  m.along m.result l s = (l.map fun i => reg.read (m.run l s) (reg.dst i)) ∧
    m.along x l s = (l.map fun i => x i s) ∧ m.along y l s = l.map fun i => y i s

/-- Chains of an instruction that takes no carry and of instructions that take one. The operands are
those of each instruction when it is executed, whatever registers it shares with the others. -/
def Registers.ExactChains (extended subtracts : ι → Bool) (x y : ι → σ → BitVec w) : Prop :=
  ∀ (s : σ) (i : ι) (l : List ι), extended i = false → (∀ j ∈ l, extended j = true) →
    ((∀ j ∈ i :: l, subtracts j = false) → m.Sum x y (i :: l) s) ∧
    ((∀ j ∈ i :: l, subtracts j = true) → m.Difference y x (i :: l) s) ∧
    (reg.Separate (i :: l) → reg.Holds x y (i :: l) s)

theorem along_congr {f g : ι → σ → BitVec w} {l : List ι} (h : ∀ i ∈ l, ∀ s, f i s = g i s) (s : σ) :
    m.along f l s = m.along g l s := by
  induction l generalizing s with
  | nil => rfl
  | cons i l ih =>
    rw [along, along, h i List.mem_cons_self, ih fun j hj => h j (List.mem_cons_of_mem i hj)]

theorem along_not (f : ι → σ → BitVec w) (l : List ι) (s : σ) :
    m.along (fun i s => ~~~ f i s) l s = (m.along f l s).map (~~~ ·) := by
  induction l generalizing s with
  | nil => rfl
  | cons i l ih => rw [along, along, List.map_cons, ih]

/-- A machine whose subtractions complement an operand and begin with a carry. -/
theorem Registers.exactChains {extended subtracts : ι → Bool} {x : ι → σ → BitVec w}
    (hext : ∀ i, extended i = true → m.Extended i)
    (hfirst : ∀ i, extended i = false → ∀ s, m.carryIn i s = subtracts i)
    (hleft : ∀ i s, m.left i s = if subtracts i then ~~~ x i s else x i s)
    (hx : ∀ i s s', (∀ r ∈ reg.src i, reg.read s r = reg.read s' r) → x i s = x i s')
    (hy : ∀ i s s', (∀ r ∈ reg.src i, reg.read s r = reg.read s' r) → m.right i s = m.right i s') :
    reg.ExactChains extended subtracts x m.right := by
  intro s i l hi hl
  have hrest (j : ι) (hj : j ∈ l) : m.Extended j := hext j (hl j hj)
  refine ⟨fun hadd => ?_, fun hsub => ?_, fun hsep => ?_⟩
  · have hx' : m.along m.left (i :: l) s = m.along x (i :: l) s :=
      along_congr (fun j hj s => (hleft j s).trans (if_neg (by rw [hadd j hj]; exact Bool.false_ne_true))) s
    have hcarry := (hfirst i hi s).trans (hadd i List.mem_cons_self)
    obtain ⟨hvalue, hout⟩ := m.chain_sum i hrest s hcarry
    rw [hx'] at hvalue hout
    exact ⟨hvalue, hout⟩
  · have hx' : m.along m.left (i :: l) s = m.along (fun i s => ~~~ x i s) (i :: l) s :=
      along_congr (fun j hj s => (hleft j s).trans (if_pos (hsub j hj))) s
    have hcarry := (hfirst i hi s).trans (hsub i List.mem_cons_self)
    exact m.chain_difference x i hrest s hcarry (hx'.trans (along_not x (i :: l) s))
  · exact ⟨reg.along_result hsep s, reg.along_operand hx hsep s, reg.along_operand hy hsep s⟩

end Adder

end Gxemul.Lib
