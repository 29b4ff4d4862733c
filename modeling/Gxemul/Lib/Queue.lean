import Mathlib.Data.List.Basic
import Mathlib.Data.List.GetD
import Mathlib.Logic.Function.Basic
import Gxemul.Lib.Run

/- Queues in a ring of `n` slots. Values are written at the head and read at the
   tail, and the queue is empty when these are equal, so at least one slot stays
   free. `Holds` says which values a queue has. Besides `push` and `pop` there are
   copies of blocks that do not go around the end of the ring. -/
namespace Gxemul.Lib

/-- The slot `i` places after `start`, around the end of the ring at most once. -/
def slot (n start i : Nat) : Nat := if start + i < n then start + i else start + i - n

section
variable {n start i j : Nat}

theorem slot_lt (hs : start < n) (hi : i ≤ n) : slot n start i < n := by
  unfold slot
  split <;> omega

theorem slot_eq_mod (hs : start < n) (hi : i ≤ n) : (start + i) % n = slot n start i := by
  unfold slot
  split
  · exact Nat.mod_eq_of_lt ‹_›
  · rw [Nat.mod_eq_sub_mod (by omega)]
    exact Nat.mod_eq_of_lt (by omega)

theorem slot_slot (_ : start < n) (hij : i + j ≤ n) : slot n (slot n start i) j = slot n start (i + j) := by
  unfold slot
  split <;> split <;> split <;> omega

theorem slot_inj (_ : start < n) (hi : i < n) (hj : j < n) (h : slot n start i = slot n start j) : i = j := by
  unfold slot at h
  split at h <;> split at h <;> omega

@[simp] theorem slot_zero (hs : start < n) : slot n start 0 = start := if_pos hs

end

structure Queue (α : Type*) where
  slots : Nat → α
  head : Nat
  tail : Nat

namespace Queue
variable {α : Type*}

section
variable (n : Nat) (q : Queue α)

def push (a : α) : Queue α := { q with slots := Function.update q.slots q.head a, head := slot n q.head 1 }

def pop : Queue α := { q with tail := slot n q.tail 1 }

/-- Slots after a block has been copied to them. -/
def fill (slots : Nat → α) (start : Nat) (l : List α) : Nat → α :=
  fun i => if start ≤ i then l.getD (i - start) (slots i) else slots i

/-- Copy a block to the head. -/
def pushBlock (l : List α) : Queue α :=
  { q with slots := fill q.slots q.head l, head := slot n q.head l.length }

/-- Leave out the next `k` values. -/
def skip (k : Nat) : Queue α := { q with tail := slot n q.tail k }

/-- The slots from the tail on, as a block of memory. -/
def block (k : Nat) : List α := (List.range k).map fun i => q.slots (q.tail + i)

/-- The queue has the values `l`, the oldest one first. -/
structure Holds (l : List α) : Prop where
  room : l.length < n
  tail_lt : q.tail < n
  head_eq : q.head = slot n q.tail l.length
  values : ∀ i, i < l.length → l[i]? = some (q.slots (slot n q.tail i))

end

variable {n : Nat} {q : Queue α} {l : List α} {a : α}

theorem Holds.head_lt (h : q.Holds n l) : q.head < n := by
  rw [h.head_eq]
  exact slot_lt h.tail_lt (by have := h.room; omega)

theorem Holds.nil_iff (h : q.Holds n l) : q.head = q.tail ↔ l = [] := by
  have hroom := h.room
  rw [← List.length_eq_zero_iff, h.head_eq]
  constructor
  · intro heq
    exact slot_inj h.tail_lt hroom (by omega) (heq.trans (slot_zero h.tail_lt).symm)
  · intro hnil
    rw [hnil, slot_zero h.tail_lt]

/-- The number of values, as the distance from the tail to the head. -/
theorem Holds.length_eq (h : q.Holds n l) :
    l.length = if q.tail ≤ q.head then q.head - q.tail else q.head + n - q.tail := by
  have hroom := h.room
  rw [h.head_eq]
  unfold slot
  split <;> split <;> omega

theorem Holds.push (h : q.Holds n l) (hroom : l.length + 1 < n) : (q.push n a).Holds n (l ++ [a]) := by
  refine ⟨by simpa using hroom, h.tail_lt, ?_, fun i hi => ?_⟩
  · show slot n q.head 1 = _
    rw [h.head_eq, slot_slot h.tail_lt (by omega), List.length_append, List.length_singleton]
    rfl
  · show _ = some (Function.update q.slots q.head a (slot n q.tail i))
    rw [List.length_append, List.length_singleton] at hi
    by_cases hlast : i = l.length
    · rw [hlast, List.getElem?_concat_length, ← h.head_eq, Function.update_self]
    · have hne : slot n q.tail i ≠ q.head := by
        rw [h.head_eq]
        exact fun heq => hlast (slot_inj h.tail_lt (by omega) h.room heq)
      rw [Function.update_of_ne hne, List.getElem?_append_left (by omega), h.values i (by omega)]

theorem Holds.pop (h : q.Holds n (a :: l)) : q.slots q.tail = a ∧ (q.pop n).Holds n l := by
  have hroom := h.room
  rw [List.length_cons] at hroom
  refine ⟨?_, by omega, slot_lt h.tail_lt (by omega), ?_, fun i hi => ?_⟩
  · have hfirst := h.values 0 (by simp)
    rw [slot_zero h.tail_lt] at hfirst
    exact (Option.some.inj hfirst).symm
  · show q.head = slot n (slot n q.tail 1) l.length
    rw [slot_slot h.tail_lt (by omega), h.head_eq, List.length_cons, Nat.add_comm]
  · show _ = some (q.slots (slot n (slot n q.tail 1) i))
    rw [slot_slot h.tail_lt (by omega), Nat.add_comm, ← h.values (i + 1) (by simpa using hi)]
    rfl

/-- A block that ends before the end of the ring, or right at it. -/
theorem Holds.pushBlock {data : List α} (h : q.Holds n l) (hroom : l.length + data.length < n)
    (hend : q.head + data.length ≤ n) : (q.pushBlock n data).Holds n (l ++ data) := by
  refine ⟨by simpa using hroom, h.tail_lt, ?_, fun i hi => ?_⟩
  · show slot n q.head data.length = _
    rw [h.head_eq, slot_slot h.tail_lt (by omega), List.length_append]
    rfl
  · show _ = some (if q.head ≤ slot n q.tail i then data.getD (slot n q.tail i - q.head) (q.slots (slot n q.tail i))
      else q.slots (slot n q.tail i))
    rw [List.length_append] at hi
    have hhead := h.head_eq
    by_cases hold : i < l.length
    · have hsame : ¬ q.head ≤ slot n q.tail i ∨ data.length ≤ slot n q.tail i - q.head := by
        rw [hhead] at hend ⊢
        unfold slot at hend ⊢
        split at hend <;> split <;> split <;> omega
      rw [List.getElem?_append_left hold, h.values i hold]
      split
      · rw [List.getD_eq_default _ _ (hsame.resolve_left fun hn => hn ‹_›)]
      · rfl
    · have hpos : slot n q.tail i = q.head + (i - l.length) := by
        rw [hhead] at hend ⊢
        unfold slot at hend ⊢
        split at hend <;> split <;> omega
      rw [hpos, if_pos (by omega), Nat.add_sub_cancel_left, List.getElem?_append_right (by omega),
        List.getD_eq_getElem _ _ (by omega), List.getElem?_eq_getElem (by omega)]

/-- A block that is copied back to where it was. -/
theorem fill_block (k : Nat) : fill q.slots q.tail (q.block k) = q.slots := by
  funext i
  unfold fill Queue.block
  split
  · rename_i hle
    rw [List.getD_eq_getElem?_getD, List.getElem?_map]
    by_cases hi : i - q.tail < k
    · rw [List.getElem?_range hi, Option.map_some, Nat.add_sub_cancel' hle]
      rfl
    · rw [List.getElem?_eq_none (by rw [List.length_range]; omega)]
      rfl
  · rfl

/-- The next values, taken as a block that ends before the end of the ring. -/
theorem Holds.block {k : Nat} (h : q.Holds n l) (hk : k ≤ l.length) (hend : q.tail + k ≤ n) : q.block k = l.take k := by
  refine List.ext_getElem? fun i => ?_
  rw [Queue.block, List.getElem?_map, List.getElem?_take]
  by_cases hi : i < k
  · have hslot : slot n q.tail i = q.tail + i := by
      unfold slot
      rw [if_pos (by omega)]
    rw [if_pos hi, List.getElem?_range hi, h.values i (by omega), hslot]
    rfl
  · rw [if_neg hi, List.getElem?_eq_none (by rw [List.length_range]; omega)]
    rfl

theorem Holds.skip {k : Nat} (h : q.Holds n l) (hk : k ≤ l.length) : (q.skip n k).Holds n (l.drop k) := by
  have hroom := h.room
  refine ⟨by rw [List.length_drop]; omega, slot_lt h.tail_lt (by omega), ?_, fun i hi => ?_⟩
  · show q.head = slot n (slot n q.tail k) (l.drop k).length
    rw [List.length_drop, slot_slot h.tail_lt (by omega), Nat.add_sub_cancel' hk, h.head_eq]
  · show _ = some (q.slots (slot n (slot n q.tail k) i))
    rw [List.length_drop] at hi
    rw [List.getElem?_drop, slot_slot h.tail_lt (by omega), h.values (k + i) (by omega)]

/-- An empty queue, at any place of the ring. -/
theorem Holds.empty (ht : q.tail < n) (hh : q.head = q.tail) : q.Holds n [] := by
  refine ⟨by simp; omega, ht, ?_, fun i hi => absurd hi (Nat.not_lt_zero i)⟩
  rw [hh]
  exact (slot_zero ht).symm

end Queue

end Gxemul.Lib

/- A loop around a ring of `n` slots. It starts at any slot, goes to the next one
   until it has looked at `last`, and stops early where the body finds something.
   When `last` is the slot before the start, it has looked at every slot. -/
namespace Gxemul.Lib

section
variable {ε β γ : Type*}

/-- The slot after `i`. -/
def ringNext (n i : Nat) : Nat := if i + 1 = n then 0 else i + 1

/-- The slot before `i`. -/
def ringPrev (n i : Nat) : Nat := if i = 0 then n - 1 else i - 1

/-- The loop. The body returns what it found (`inl`), or what it leaves behind. -/
def scanRing (n last : Nat) (f : Nat → Except ε (β ⊕ γ)) : Nat → Nat → Except ε (β ⊕ γ)
  | 0, i => f i
  | fuel + 1, i => do
    match ← f i with
    | .inl b => return .inl b
    | .inr c => if i = last then return .inr c else scanRing n last f fuel (ringNext n i)

variable {n last : Nat} {f : Nat → Except ε (β ⊕ γ)}

theorem ringNext_lt {i : Nat} (hi : i < n) : ringNext n i < n := by
  unfold ringNext
  split <;> omega

/-- The number of steps from `i` to `last`. -/
def ringDist (n last i : Nat) : Nat := if i ≤ last then last - i else n - i + last

theorem ringDist_next {i : Nat} (hi : i < n) (_ : last < n) (hne : i ≠ last) :
    ringDist n last (ringNext n i) + 1 = ringDist n last i := by
  unfold ringDist ringNext
  split <;> split <;> split <;> omega

theorem ringDist_inj {i k : Nat} (hi : i < n) (hk : k < n) (_ : last < n)
    (h : ringDist n last k = ringDist n last i) : k = i := by
  unfold ringDist at h
  split at h <;> split at h <;> omega

/-- The slots that are still to come from `i` on. -/
def Ahead (n last i k : Nat) : Prop := k < n ∧ ringDist n last k ≤ ringDist n last i

theorem ahead_step {i k : Nat} (hi : i < n) (hl : last < n) (hne : i ≠ last) (h : Ahead n last i k) :
    k = i ∨ Ahead n last (ringNext n i) k := by
  have hd := ringDist_next hi hl hne
  obtain ⟨hk, hle⟩ := h
  by_cases hki : k = i
  · exact .inl hki
  · refine .inr ⟨hk, ?_⟩
    have hne' : ringDist n last k ≠ ringDist n last i := fun he => hki (ringDist_inj hi hk hl he)
    omega

/-- The loop finds something in a slot ahead, or there is nothing to find there
and it returns what it left behind. -/
theorem scanRing_spec (hf : ∀ i, i < n → ∃ r, f i = .ok r) (hl : last < n) :
    ∀ (fuel i : Nat), i < n → ringDist n last i ≤ fuel →
      (∃ k b, k < n ∧ f k = .ok (.inl b) ∧ scanRing n last f fuel i = .ok (.inl b)) ∨
      ((∀ k, Ahead n last i k → ∃ c, f k = .ok (.inr c)) ∧ ∃ c, scanRing n last f fuel i = .ok (.inr c)) := by
  intro fuel
  induction fuel with
  | zero =>
    intro i hi hd
    obtain ⟨r, hr⟩ := hf i hi
    cases r with
    | inl b => exact .inl ⟨i, b, hi, hr, hr⟩
    | inr c =>
      refine .inr ⟨fun k ⟨hk, hle⟩ => ?_, c, hr⟩
      exact ⟨c, ringDist_inj hi hk hl (by omega) ▸ hr⟩
  | succ fuel ih =>
    intro i hi hd
    obtain ⟨r, hr⟩ := hf i hi
    unfold scanRing
    rw [hr]
    cases r with
    | inl b => exact .inl ⟨i, b, hi, hr, rfl⟩
    | inr c =>
      by_cases hlast : i = last
      · refine .inr ⟨fun k ⟨hk, hle⟩ => ?_, c, by simp [hlast, bind, Except.bind, pure, Except.pure]⟩
        have hzero : ringDist n last i = 0 := by simp [ringDist, hlast]
        exact ⟨c, ringDist_inj hi hk hl (by omega) ▸ hr⟩
      · have hdist := ringDist_next hi hl hlast
        have hrest := ih (ringNext n i) (ringNext_lt hi) (by omega)
        simp only [bind, Except.bind, hlast, if_false]
        refine hrest.imp id fun ⟨hall, hc⟩ => ⟨fun k hk => ?_, hc⟩
        rcases ahead_step hi hl hlast hk with rfl | hk
        · exact ⟨c, hr⟩
        · exact hall k hk

/-- A loop that ends before its start looks at every slot. -/
theorem ahead_prev {i k : Nat} (hi : i < n) (hk : k < n) : Ahead n (ringPrev n i) i k := by
  refine ⟨hk, ?_⟩
  unfold ringDist ringPrev
  split <;> split <;> split <;> omega

theorem ringPrev_lt {i : Nat} (hi : i < n) : ringPrev n i < n := by
  unfold ringPrev
  split <;> omega

/-- The loop all around the ring, from any slot. -/
theorem scanRing_all (hf : ∀ i, i < n → ∃ r, f i = .ok r) {i : Nat} (hi : i < n) :
    (∃ k b, k < n ∧ f k = .ok (.inl b) ∧ scanRing n (ringPrev n i) f n i = .ok (.inl b)) ∨
    ((∀ k, k < n → ∃ c, f k = .ok (.inr c)) ∧ ∃ c, scanRing n (ringPrev n i) f n i = .ok (.inr c)) := by
  have hd : ringDist n (ringPrev n i) i ≤ n := by
    unfold ringDist ringPrev
    split <;> split <;> omega
  exact (scanRing_spec hf (ringPrev_lt hi) n i hi hd).imp id fun ⟨hall, hc⟩ =>
    ⟨fun k hk => hall k (ahead_prev hi hk), hc⟩

/-- The slot that the loop looks at last, where `p` says in which slots it finds something. -/
def scanEnd (n last : Nat) (p : Nat → Bool) : Nat → Nat → Nat
  | 0, i => i
  | fuel + 1, i => if p i = true ∨ i = last then i else scanEnd n last p fuel (ringNext n i)

theorem scanEnd_lt {p : Nat → Bool} : ∀ {fuel i : Nat}, i < n → scanEnd n last p fuel i < n := by
  intro fuel
  induction fuel with
  | zero => exact fun hi => hi
  | succ fuel ih =>
    intro i hi
    unfold scanEnd
    split
    · exact hi
    · exact ih (ringNext_lt hi)

/-- The result is that of the slot that the loop looks at last. -/
theorem scanRing_end {p : Nat → Bool} (hp : ∀ i r, f i = .ok r → p i = r.isLeft) :
    ∀ {fuel i : Nat} {r : β ⊕ γ}, scanRing n last f fuel i = .ok r → f (scanEnd n last p fuel i) = .ok r := by
  intro fuel
  induction fuel with
  | zero => exact fun h => h
  | succ fuel ih =>
    intro i r h
    unfold scanRing at h
    unfold scanEnd
    cases hi : f i with
    | error e =>
      rw [hi] at h
      cases h
    | ok ri =>
      rw [hi] at h
      cases ri with
      | inl b =>
        have hpi : p i = true := hp i (.inl b) hi
        cases h
        rw [if_pos (Or.inl hpi)]
        exact hi
      | inr c =>
        have hpi : p i = false := hp i (.inr c) hi
        by_cases hlast : i = last
        · simp only [bind, Except.bind, if_pos hlast] at h
          cases h
          rw [if_pos (Or.inr hlast)]
          exact hi
        · simp only [bind, Except.bind, if_neg hlast] at h
          have hp' : ¬ (p i = true ∨ i = last) := by
            rw [hpi]
            simp [hlast]
          rw [if_neg hp']
          exact ih h

end

end Gxemul.Lib
