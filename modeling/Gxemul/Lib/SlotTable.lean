import Mathlib.Order.Lattice
import Mathlib.Data.List.Basic

/- Tables of slots that are free or hold an entry. An entry is found by its key, and has a
   handle that no other entry has.

   A slot can be taken from its entry when a new one needs it. It is the least recently used
   one if the slots have stamps, and every use gives a slot a later stamp than all others. -/
namespace Gxemul.Lib

structure Slot (κ η : Type*) where
  inUse : Bool
  key : κ
  handle : η

section
variable {ι κ η : Type*} {valid : η → Prop} {t t' : ι → Slot κ η}

/-- The entries have valid handles, and no two have the same key or the same handle. -/
structure SlotsDistinct (valid : η → Prop) (t : ι → Slot κ η) : Prop where
  valid : ∀ i, (t i).inUse = true → valid (t i).handle
  key : ∀ i j, (t i).inUse = true → (t j).inUse = true → (t i).key = (t j).key → i = j
  handle : ∀ i j, (t i).inUse = true → (t j).inUse = true → (t i).handle = (t j).handle → i = j

/-- What may become of a table: entries are left alone or removed, and there may be a new one. -/
inductive SlotMove (valid : η → Prop) (t t' : ι → Slot κ η) : Prop where
  | removes (h : ∀ i, (t' i).inUse = true → t' i = t i)
  | enters (i : ι) (hvalid : valid (t' i).handle)
    (hkey : ∀ j, j ≠ i → (t' j).inUse = true → (t j).key ≠ (t' i).key)
    (hhandle : ∀ j, j ≠ i → (t' j).inUse = true → (t j).handle ≠ (t' i).handle)
    (h : ∀ j, j ≠ i → (t' j).inUse = true → t' j = t j)

/-- Every entry after a move is an old one, or the new one. -/
theorem SlotsDistinct.move (h : SlotsDistinct valid t) (hmove : SlotMove valid t t') : SlotsDistinct valid t' := by
  cases hmove with
  | removes hold =>
    refine ⟨?_, ?_, ?_⟩
    · intro i hi
      have heq := hold i hi
      rw [heq] at hi ⊢
      exact h.valid i hi
    · intro i j hi hj hkey
      rw [hold i hi, hold j hj] at hkey
      rw [hold i hi] at hi
      rw [hold j hj] at hj
      exact h.key i j hi hj hkey
    · intro i j hi hj hhandle
      rw [hold i hi, hold j hj] at hhandle
      rw [hold i hi] at hi
      rw [hold j hj] at hj
      exact h.handle i j hi hj hhandle
  | enters k hvalid hkeys hhandles hold =>
    refine ⟨?_, ?_, ?_⟩
    · intro i hi
      by_cases hik : i = k
      · rw [hik]
        exact hvalid
      · have heq := hold i hik hi
        rw [heq] at hi ⊢
        exact h.valid i hi
    · intro i j hi hj hkey
      by_cases hik : i = k
      · by_cases hjk : j = k
        · exact hik.trans hjk.symm
        · rw [hik, hold j hjk hj] at hkey
          exact absurd hkey.symm (hkeys j hjk hj)
      · by_cases hjk : j = k
        · rw [hjk, hold i hik hi] at hkey
          exact absurd hkey (hkeys i hik hi)
        · rw [hold i hik hi, hold j hjk hj] at hkey
          rw [hold i hik hi] at hi
          rw [hold j hjk hj] at hj
          exact h.key i j hi hj hkey
    · intro i j hi hj hhandle
      by_cases hik : i = k
      · by_cases hjk : j = k
        · exact hik.trans hjk.symm
        · rw [hik, hold j hjk hj] at hhandle
          exact absurd hhandle.symm (hhandles j hjk hj)
      · by_cases hjk : j = k
        · rw [hjk, hold i hik hi] at hhandle
          exact absurd hhandle (hhandles i hik hi)
        · rw [hold i hik hi, hold j hjk hj] at hhandle
          rw [hold i hik hi] at hi
          rw [hold j hjk hj] at hj
          exact h.handle i j hi hj hhandle

end

/-! ## Uses -/

section
variable {ι τ : Type*} {uses : List ι} {i j k : ι}

/-- `i` has not been used since `j` was. -/
def LastBefore (uses : List ι) (i j : ι) : Prop := ∃ before since, uses = before ++ since ∧ i ∉ since ∧ j ∈ since

theorem LastBefore.append (h : LastBefore uses i j) (hk : i ≠ k) : LastBefore (uses ++ [k]) i j := by
  obtain ⟨before, since, rfl, hi, hj⟩ := h
  refine ⟨before, since ++ [k], List.append_assoc _ _ _, ?_, List.mem_append_left _ hj⟩
  intro hmem
  rcases List.mem_append.mp hmem with hmem | hmem
  · exact hi hmem
  · exact hk (List.mem_singleton.mp hmem)

theorem lastBefore_append (uses : List ι) (hk : i ≠ k) : LastBefore (uses ++ [k]) i k :=
  ⟨uses, [k], rfl, fun hmem => hk (List.mem_singleton.mp hmem), List.mem_singleton.mpr rfl⟩

variable [LinearOrder τ] {inUse inUse' : ι → Prop} {stamp stamp' : ι → τ} {now now' : τ}

/-- The stamps of the slots in use are in the order of their last uses. -/
structure Stamped (inUse : ι → Prop) (stamp : ι → τ) (now : τ) (uses : List ι) : Prop where
  le : ∀ i, inUse i → stamp i ≤ now
  order : ∀ i j, inUse i → inUse j → i ≠ j →
    (stamp i < stamp j ∧ LastBefore uses i j) ∨ (stamp j < stamp i ∧ LastBefore uses j i)

/-- Time passes, and no slot is used. -/
theorem Stamped.pass (h : Stamped inUse stamp now uses) (hnow : now ≤ now')
    (hold : ∀ i, inUse' i → inUse i ∧ stamp' i = stamp i) : Stamped inUse' stamp' now' uses := by
  refine ⟨?_, ?_⟩
  · intro i hi
    obtain ⟨huse, hstamp⟩ := hold i hi
    rw [hstamp]
    exact le_trans (h.le i huse) hnow
  · intro i j hi hj hne
    obtain ⟨hi, hstampI⟩ := hold i hi
    obtain ⟨hj, hstampJ⟩ := hold j hj
    rw [hstampI, hstampJ]
    exact h.order i j hi hj hne

/-- A slot is used, and gets a later stamp than all others. -/
theorem Stamped.use (h : Stamped inUse stamp now uses) (hnow : now < now')
    (hold : ∀ i, i ≠ k → inUse' i → inUse i ∧ stamp' i = stamp i) (hk : stamp' k = now') :
    Stamped inUse' stamp' now' (uses ++ [k]) := by
  have hlater : ∀ i, i ≠ k → inUse' i → stamp' i < stamp' k := by
    intro i hne hi
    obtain ⟨huse, hstamp⟩ := hold i hne hi
    rw [hstamp, hk]
    exact lt_of_le_of_lt (h.le i huse) hnow
  refine ⟨?_, ?_⟩
  · intro i hi
    by_cases hik : i = k
    · rw [hik, hk]
    · have hlt := hlater i hik hi
      rw [hk] at hlt
      exact le_of_lt hlt
  · intro i j hi hj hne
    by_cases hik : i = k
    · have hjk : j ≠ k := fun hjk => hne (hik.trans hjk.symm)
      rw [hik]
      exact .inr ⟨hlater j hjk hj, lastBefore_append uses hjk⟩
    · by_cases hjk : j = k
      · rw [hjk]
        exact .inl ⟨hlater i hik hi, lastBefore_append uses hik⟩
      · obtain ⟨huseI, hstampI⟩ := hold i hik hi
        obtain ⟨huseJ, hstampJ⟩ := hold j hjk hj
        rw [hstampI, hstampJ]
        rcases h.order i j huseI huseJ hne with ⟨hlt, hlast⟩ | ⟨hlt, hlast⟩
        · exact .inl ⟨hlt, hlast.append hik⟩
        · exact .inr ⟨hlt, hlast.append hjk⟩

/-- The slot with the oldest stamp is the least recently used one. -/
theorem Stamped.oldest (h : Stamped inUse stamp now uses) (hi : inUse i) (hj : inUse j) (hne : j ≠ i)
    (hle : stamp i ≤ stamp j) : LastBefore uses i j := by
  rcases h.order i j hi hj (Ne.symm hne) with ⟨-, hlast⟩ | ⟨hlt, -⟩
  · exact hlast
  · exact absurd hle (not_le_of_gt hlt)

/-- The search for a slot with the oldest stamp. -/
theorem foldl_oldest (stamp : ι → τ) (l : List ι) (i : ι) :
    (l.foldl (fun oldest j => if stamp j < stamp oldest then j else oldest) i = i ∨
      l.foldl (fun oldest j => if stamp j < stamp oldest then j else oldest) i ∈ l) ∧
    ∀ j, j = i ∨ j ∈ l → stamp (l.foldl (fun oldest j => if stamp j < stamp oldest then j else oldest) i) ≤ stamp j := by
  induction l generalizing i with
  | nil =>
    refine ⟨.inl rfl, ?_⟩
    intro j hj
    rcases hj with rfl | hj
    · exact le_refl _
    · cases hj
  | cons k l ih =>
    rw [List.foldl_cons]
    obtain ⟨hmem, hle⟩ := ih (if stamp k < stamp i then k else i)
    by_cases hlt : stamp k < stamp i
    · rw [if_pos hlt] at hmem hle ⊢
      refine ⟨.inr ?_, ?_⟩
      · rcases hmem with heq | hmem
        · rw [heq]
          exact List.mem_cons_self
        · exact List.mem_cons_of_mem _ hmem
      · intro j hj
        rcases hj with rfl | hj
        · exact le_trans (hle k (.inl rfl)) (le_of_lt hlt)
        · exact hle j (List.mem_cons.mp hj)
    · rw [if_neg hlt] at hmem hle ⊢
      refine ⟨?_, ?_⟩
      · rcases hmem with heq | hmem
        · exact .inl heq
        · exact .inr (List.mem_cons_of_mem _ hmem)
      · intro j hj
        rcases hj with rfl | hj
        · exact hle j (.inl rfl)
        · rcases List.mem_cons.mp hj with rfl | hj
          · exact le_trans (hle i (.inl rfl)) (le_of_not_gt hlt)
          · exact hle j (.inr hj)

end

end Gxemul.Lib
