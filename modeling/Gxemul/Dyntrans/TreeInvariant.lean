import Gxemul.Lib.Links
import Gxemul.Dyntrans.VphSpec
import Gxemul.Dyntrans.Tree

/- The invariant of the 64-bit tables, and what the steps that the operations
   are made of do to it and to the slots: writing a slot of a table in use,
   giving a table back, and taking one. -/
namespace Gxemul

namespace Tree

def used (a : Arch) (slot : Nat → Slot) : Nat := Nat.count (fun i => (slot i).tlbindex ≠ 0) (2 ^ a.l3n)

def present (l3 : Nat → Nat) : Nat := Nat.count (fun i => l3 i ≠ l3Dummy) (2 ^ l2n)

/-- An L2 table that is not referenced and not new: the dummy or a free one. -/
def Idle (d brk : Nat) (free : List Nat) (p : Nat) : Prop := p = d ∨ p ∈ free ∨ brk ≤ p

structure Inv (a : Arch) (t : Tree) (free2 free3 : List Nat) : Prop where
  pool2 : Lib.Pool l2Dummy t.l1 (fun p => (t.l2 p).next) t.nextFreeL2 t.l2Brk free2
  pool3 : Lib.Pool l3Dummy (fun k : Nat × Nat => (t.l2 k.1).l3 k.2) (fun q => (t.l3 q).next)
    t.nextFreeL3 t.l3Brk free3
  count2 : ∀ p, (t.l2 p).refcount = present (t.l2 p).l3
  count3 : ∀ q, (t.l3 q).refcount = used a (t.l3 q).slot
  idle2 : ∀ p, Idle l2Dummy t.l2Brk free2 p → (t.l2 p).refcount = 0
  idle3 : ∀ q, Idle l3Dummy t.l3Brk free3 q → (t.l3 q).refcount = 0
  range2 : ∀ p x2, 2 ^ l2n ≤ x2 → (t.l2 p).l3 x2 = l3Dummy
  range3 : ∀ q x3, 2 ^ a.l3n ≤ x3 → (t.l3 q).slot x3 = Slot.empty
  free : ∀ q x3, ((t.l3 q).slot x3).tlbindex = 0 → (t.l3 q).slot x3 = Slot.empty
  loaded : ∀ q x3, ((t.l3 q).slot x3).tlbindex ≠ 0 → ((t.l3 q).slot x3).hostLoad ≠ none

def path (t : Tree) (x1 x2 : Nat) : Nat := (t.l2 (t.l1 x1)).l3 x2

def slotAt (t : Tree) (x1 x2 x3 : Nat) : Slot := (t.l3 (t.path x1 x2)).slot x3

variable {a : Arch} {t : Tree} {free2 free3 : List Nat}

theorem Inv.init (x : Nat) : (Tree.init x).Inv a [] [] where
  pool2 := ⟨Nat.lt_succ_self 1, rfl, List.nodup_nil, by simp, by simp [Tree.init], by simp [Tree.init]⟩
  pool3 := ⟨Nat.lt_succ_self 1, rfl, List.nodup_nil, by simp, by simp [Tree.init], by simp [Tree.init]⟩
  count2 _ := by simp [Tree.init, present]
  count3 _ := by simp [Tree.init, used, Slot.empty]
  idle2 _ _ := rfl
  idle3 _ _ := rfl
  range2 _ _ _ := rfl
  range3 _ _ _ := rfl
  free _ _ _ := rfl
  loaded _ _ h := by simp [Tree.init, Slot.empty] at h

section
variable (h : t.Inv a free2 free3)
include h

theorem Inv.l3_of_zero {p : Nat} (hp : (t.l2 p).refcount = 0) (x2 : Nat) : (t.l2 p).l3 x2 = l3Dummy := by
  by_cases hx : x2 < 2 ^ l2n
  · have hc := h.count2 p
    rw [hp] at hc
    have h0 : present (t.l2 p).l3 = 0 := by omega
    have := Nat.count_iff_forall_not.mp h0 x2 hx
    exact not_not.mp this
  · exact h.range2 p x2 (by omega)

theorem Inv.slot_of_zero {q : Nat} (hq : (t.l3 q).refcount = 0) (x3 : Nat) : (t.l3 q).slot x3 = Slot.empty := by
  by_cases hx : x3 < 2 ^ a.l3n
  · have hc := h.count3 q
    rw [hq] at hc
    have h0 : used a (t.l3 q).slot = 0 := by omega
    have := Nat.count_iff_forall_not.mp h0 x3 hx
    exact h.free q x3 (not_not.mp this)
  · exact h.range3 q x3 (by omega)

theorem Inv.dummyL2 (x2 : Nat) : (t.l2 l2Dummy).l3 x2 = l3Dummy :=
  h.l3_of_zero (h.idle2 _ (Or.inl rfl)) x2

theorem Inv.dummyL3 (x3 : Nat) : (t.l3 l3Dummy).slot x3 = Slot.empty :=
  h.slot_of_zero (h.idle3 _ (Or.inl rfl)) x3

theorem Inv.l1_of_path {x1 x2 : Nat} (hp : t.path x1 x2 ≠ l3Dummy) : t.l1 x1 ≠ l2Dummy := by
  intro he
  unfold path at hp
  rw [he, h.dummyL2] at hp
  exact hp rfl

theorem Inv.path_inj {x1 x2 x1' x2' : Nat} (he : t.path x1 x2 = t.path x1' x2')
    (hp : t.path x1 x2 ≠ l3Dummy) : x1 = x1' ∧ x2 = x2' := by
  have hk := h.pool3.inj (t.l1 x1, x2) (t.l1 x1', x2') he hp
  simp only [Prod.mk.injEq] at hk
  exact ⟨h.pool2.inj x1 x1' hk.1 (h.l1_of_path hp), hk.2⟩

theorem Inv.path_mem {x1 x2 : Nat} (hp : t.path x1 x2 ≠ l3Dummy) : ¬ Idle l3Dummy t.l3Brk free3 (t.path x1 x2) := by
  obtain ⟨_, h2, h3⟩ := h.pool3.ref_mem (t.l1 x1, x2) hp
  rintro (he | he | he)
  · exact hp he
  · exact h3 he
  · exact absurd h2 (Nat.not_lt.mpr he)

theorem Inv.l1_mem {x1 : Nat} (hp : t.l1 x1 ≠ l2Dummy) : ¬ Idle l2Dummy t.l2Brk free2 (t.l1 x1) := by
  obtain ⟨_, h2, h3⟩ := h.pool2.ref_mem x1 hp
  rintro (he | he | he)
  · exact hp he
  · exact h3 he
  · exact absurd h2 (Nat.not_lt.mpr he)

theorem Inv.of_eq {t' : Tree} (h1 : t'.l1 = t.l1) (h2 : t'.l2 = t.l2) (h3 : t'.l3 = t.l3)
    (hf2 : t'.nextFreeL2 = t.nextFreeL2) (hf3 : t'.nextFreeL3 = t.nextFreeL3) (hb2 : t'.l2Brk = t.l2Brk)
    (hb3 : t'.l3Brk = t.l3Brk) : t'.Inv a free2 free3 := by
  constructor <;> simp only [h1, h2, h3, hf2, hf3, hb2, hb3]
  · exact h.pool2
  · exact h.pool3
  · exact h.count2
  · exact h.count3
  · exact h.idle2
  · exact h.idle3
  · exact h.range2
  · exact h.range3
  · exact h.free
  · exact h.loaded

/-! ## Writing a slot -/

theorem Inv.write_slot {q x3 : Nat} {s : Slot} {rc : Int} (hq : ¬ Idle l3Dummy t.l3Brk free3 q)
    (hx : x3 < 2 ^ a.l3n) (hf : s.tlbindex = 0 → s = Slot.empty) (hl : s.tlbindex ≠ 0 → s.hostLoad ≠ none)
    (hrc : rc + (if ((t.l3 q).slot x3).tlbindex ≠ 0 then 1 else 0) =
      (t.l3 q).refcount + (if s.tlbindex ≠ 0 then 1 else 0)) :
    (t.setL3 q { t.l3 q with slot := Function.update (t.l3 q).slot x3 s, refcount := rc }).Inv a free2 free3 := by
  have hnext : (fun i => ((t.setL3 q { t.l3 q with slot := Function.update (t.l3 q).slot x3 s, refcount := rc }).l3
      i).next) = fun i => (t.l3 i).next := by
    funext i
    by_cases hi : i = q
    · subst hi; simp [setL3]
    · simp [setL3, Function.update_of_ne hi]
  refine ⟨h.pool2, ?_, h.count2, fun i => ?_, h.idle2, fun i hi => ?_, h.range2, fun i j hj => ?_, fun i j => ?_,
    fun i j => ?_⟩
  · rw [hnext]
    exact h.pool3
  · by_cases hi : i = q
    · subst hi
      have hc := Lib.count_update (fun s : Slot => s.tlbindex ≠ 0) (t.l3 i).slot x3 s hx
      have h3 := h.count3 i
      simp only [setL3, Function.update_self, used] at h3 ⊢
      split_ifs at hc hrc <;> omega
    · simp only [setL3, Function.update_of_ne hi]
      exact h.count3 i
  · have hne : i ≠ q := by
      rintro rfl
      exact hq hi
    simp only [setL3, Function.update_of_ne hne]
    exact h.idle3 i hi
  · by_cases hi : i = q
    · subst hi
      have hne : j ≠ x3 := by omega
      simp only [setL3, Function.update_self, Function.update_of_ne hne]
      exact h.range3 i j hj
    · simp only [setL3, Function.update_of_ne hi]
      exact h.range3 i j hj
  · by_cases hi : i = q
    · subst hi
      by_cases hne : j = x3
      · subst hne
        simpa [setL3] using hf
      · simp only [setL3, Function.update_self, Function.update_of_ne hne]
        exact h.free i j
    · simp only [setL3, Function.update_of_ne hi]
      exact h.free i j
  · by_cases hi : i = q
    · subst hi
      by_cases hne : j = x3
      · subst hne
        simpa [setL3] using hl
      · simp only [setL3, Function.update_self, Function.update_of_ne hne]
        exact h.loaded i j
    · simp only [setL3, Function.update_of_ne hi]
      exact h.loaded i j

theorem Inv.slotAt_write {x1 x2 x3 : Nat} {p : L3Table} (hp : t.path x1 x2 ≠ l3Dummy)
    {s : Slot} (hs : p.slot = Function.update (t.l3 (t.path x1 x2)).slot x3 s) (y1 y2 y3 : Nat) :
    (t.setL3 (t.path x1 x2) p).slotAt y1 y2 y3 =
      if y1 = x1 ∧ y2 = x2 ∧ y3 = x3 then s else t.slotAt y1 y2 y3 := by
  have hpath : (t.setL3 (t.path x1 x2) p).path y1 y2 = t.path y1 y2 := rfl
  unfold slotAt
  rw [hpath]
  by_cases he : t.path y1 y2 = t.path x1 x2
  · obtain ⟨rfl, rfl⟩ := h.path_inj he.symm hp
    simp only [setL3, Function.update_self, hs, true_and]
    by_cases h3 : y3 = x3
    · subst h3; simp
    · simp [h3]
  · have hne : ¬ (y1 = x1 ∧ y2 = x2 ∧ y3 = x3) := by
      rintro ⟨rfl, rfl, _⟩
      exact he rfl
    simp only [setL3, Function.update_of_ne he, if_neg hne]

/-! ## Giving tables back -/

theorem Inv.release_l3 {x1 x2 : Nat} {t' : Tree} (hq : t.path x1 x2 ≠ l3Dummy) (hx : x2 < 2 ^ l2n)
    (h0 : (t.l3 (t.path x1 x2)).refcount = 0)
    (ht : t' = ((t.pushFreeL3 (t.path x1 x2)).setL2Slot (t.l1 x1) x2 l3Dummy).addRefcountL2 (t.l1 x1) (-1)) :
    t'.Inv a free2 (t.path x1 x2 :: free3) ∧
      (∀ y1 y2, t'.path y1 y2 = if y1 = x1 ∧ y2 = x2 then l3Dummy else t.path y1 y2) ∧
      ∀ y1 y2 y3, t'.slotAt y1 y2 y3 = t.slotAt y1 y2 y3 := by
  have hp := h.l1_of_path hq
  have hl2 : t'.l2 = Function.update t.l2 (t.l1 x1) ⟨Function.update (t.l2 (t.l1 x1)).l3 x2 l3Dummy,
      (t.l2 (t.l1 x1)).next, (t.l2 (t.l1 x1)).refcount + -1⟩ := by
    subst ht
    simp [addRefcountL2, setL2Slot, setL2, pushFreeL3, setL3, Function.update_idem]
  have hl3 : t'.l3 = Function.update t.l3 (t.path x1 x2) { t.l3 (t.path x1 x2) with next := t.nextFreeL3 } := by
    subst ht
    rfl
  have hl1 : t'.l1 = t.l1 := by subst ht; rfl
  have hb2 : t'.l2Brk = t.l2Brk := by subst ht; rfl
  have hb3 : t'.l3Brk = t.l3Brk := by subst ht; rfl
  have hf2 : t'.nextFreeL2 = t.nextFreeL2 := by subst ht; rfl
  have hf3 : t'.nextFreeL3 = t.path x1 x2 := by subst ht; rfl
  have hn2 : (fun i => (t'.l2 i).next) = fun i => (t.l2 i).next := by
    funext i
    rw [hl2]
    by_cases hi : i = t.l1 x1
    · rw [hi]; simp
    · rw [Function.update_of_ne hi]
  have hn3 : (fun i => (t'.l3 i).next) =
      Function.update (fun i => (t.l3 i).next) (t.path x1 x2) t.nextFreeL3 := by
    funext i
    rw [hl3]
    by_cases hi : i = t.path x1 x2
    · rw [hi]; simp
    · rw [Function.update_of_ne hi, Function.update_of_ne hi]
  have hr3 : (fun k : Nat × Nat => (t'.l2 k.1).l3 k.2) =
      Function.update (fun k : Nat × Nat => (t.l2 k.1).l3 k.2) (t.l1 x1, x2) l3Dummy := by
    funext ⟨i, j⟩
    rw [hl2]
    by_cases hi : i = t.l1 x1 <;> by_cases hj : j = x2
    · subst hi hj; simp
    · subst hi; simp [hj]
    · simp [hi]
    · simp [hi]
  have hslot : ∀ q, (t'.l3 q).slot = (t.l3 q).slot := by
    intro q
    rw [hl3]
    by_cases hi : q = t.path x1 x2
    · rw [hi]; simp
    · rw [Function.update_of_ne hi]
  have hpath : ∀ y1 y2, t'.path y1 y2 = if y1 = x1 ∧ y2 = x2 then l3Dummy else t.path y1 y2 := by
    intro y1 y2
    have := congrFun hr3 (t.l1 y1, y2)
    unfold path
    rw [hl1]
    refine this.trans ?_
    by_cases hy : y1 = x1 ∧ y2 = x2
    · rw [hy.1, hy.2]; simp
    · rw [Function.update_of_ne, if_neg hy]
      intro he
      simp only [Prod.mk.injEq] at he
      exact hy ⟨(h.pool2.inj x1 y1 he.1.symm hp).symm, he.2⟩
  refine ⟨?_, hpath, fun y1 y2 y3 => ?_⟩
  · constructor
    · rw [hl1, hn2, hf2, hb2]
      exact h.pool2
    · rw [hr3, hn3, hf3, hb3]
      exact h.pool3.release hq
    · intro p
      rw [hl2]
      by_cases hi : p = t.l1 x1
      · have hc := Lib.count_update (fun q : Nat => q ≠ l3Dummy) (t.l2 (t.l1 x1)).l3 x2 l3Dummy hx
        have h2 := h.count2 (t.l1 x1)
        have hne : (t.l2 (t.l1 x1)).l3 x2 ≠ l3Dummy := hq
        rw [hi]
        simp only [Function.update_self, present] at h2 ⊢
        rw [if_pos hne, if_neg (not_not.mpr rfl)] at hc
        omega
      · rw [Function.update_of_ne hi]
        exact h.count2 p
    · intro q
      rw [hl3]
      by_cases hi : q = t.path x1 x2
      · rw [hi]; simpa using h.count3 (t.path x1 x2)
      · rw [Function.update_of_ne hi]
        exact h.count3 q
    · rw [hb2]
      intro p hidle
      have hne : p ≠ t.l1 x1 := by
        rintro rfl
        exact h.l1_mem hp hidle
      rw [hl2, Function.update_of_ne hne]
      exact h.idle2 p hidle
    · rw [hb3]
      intro q hidle
      rw [hl3]
      by_cases hi : q = t.path x1 x2
      · rw [hi]; simpa using h0
      · rw [Function.update_of_ne hi]
        refine h.idle3 q (hidle.imp id (Or.imp (fun hm => ?_) id))
        exact (List.mem_cons.mp hm).resolve_left hi
    · intro p y2 hy
      have hne : (p, y2) ≠ (t.l1 x1, x2) := by
        intro he
        simp only [Prod.mk.injEq] at he
        omega
      have := congrFun hr3 (p, y2)
      rw [Function.update_of_ne hne] at this
      exact this.trans (h.range2 p y2 hy)
    · simpa only [hslot] using h.range3
    · simpa only [hslot] using h.free
    · simpa only [hslot] using h.loaded
  · unfold slotAt
    rw [hpath, hslot]
    split
    · rename_i hy
      rw [h.dummyL3, hy.1, hy.2, h.slot_of_zero h0]
    · rfl

theorem Inv.release_l2 {x1 : Nat} {t' : Tree} (hp : t.l1 x1 ≠ l2Dummy) (h0 : (t.l2 (t.l1 x1)).refcount = 0)
    (ht : t' = (t.pushFreeL2 (t.l1 x1)).setL1 x1 l2Dummy) :
    t'.Inv a (t.l1 x1 :: free2) free3 ∧ (∀ y1 y2, t'.path y1 y2 = t.path y1 y2) ∧ t'.l3 = t.l3 := by
  have hl1 : t'.l1 = Function.update t.l1 x1 l2Dummy := by subst ht; rfl
  have hl2 : t'.l2 = Function.update t.l2 (t.l1 x1) { t.l2 (t.l1 x1) with next := t.nextFreeL2 } := by
    subst ht
    rfl
  have hl3 : t'.l3 = t.l3 := by subst ht; rfl
  have hb2 : t'.l2Brk = t.l2Brk := by subst ht; rfl
  have hb3 : t'.l3Brk = t.l3Brk := by subst ht; rfl
  have hf2 : t'.nextFreeL2 = t.l1 x1 := by subst ht; rfl
  have hf3 : t'.nextFreeL3 = t.nextFreeL3 := by subst ht; rfl
  have hn2 : (fun i => (t'.l2 i).next) = Function.update (fun i => (t.l2 i).next) (t.l1 x1) t.nextFreeL2 := by
    funext i
    rw [hl2]
    by_cases hi : i = t.l1 x1
    · rw [hi]; simp
    · rw [Function.update_of_ne hi, Function.update_of_ne hi]
  have hsame : ∀ p, (t'.l2 p).l3 = (t.l2 p).l3 ∧ (t'.l2 p).refcount = (t.l2 p).refcount := by
    intro p
    rw [hl2]
    by_cases hi : p = t.l1 x1
    · rw [hi]; simp
    · rw [Function.update_of_ne hi]; simp
  refine ⟨?_, fun y1 y2 => ?_, hl3⟩
  · constructor <;> simp only [hl1, hl3, hb2, hb3, hf2, hf3, hn2, hsame]
    · exact h.pool2.release hp
    · exact h.pool3
    · exact h.count2
    · exact h.count3
    · intro p hidle
      by_cases hi : p = t.l1 x1
      · rw [hi]; exact h0
      · refine h.idle2 p (hidle.imp id (Or.imp (fun hm => ?_) id))
        exact (List.mem_cons.mp hm).resolve_left hi
    · exact h.idle3
    · exact h.range2
    · exact h.range3
    · exact h.free
    · exact h.loaded
  · unfold path
    rw [(hsame _).1, hl1]
    by_cases hy : y1 = x1
    · rw [hy, Function.update_self, h.dummyL2, h.l3_of_zero h0]
    · rw [Function.update_of_ne hy]

/-! ## Taking tables -/

theorem Inv.take_l2 {x1 : Nat} (hd : t.l1 x1 = l2Dummy) {t' : Tree} (ht : t' = t.takeL2.1.setL1 x1 t.takeL2.2) :
    (∃ free2', t'.Inv a free2' free3) ∧ (t'.l2 t.takeL2.2).refcount = 0 ∧ t.takeL2.2 ≠ l2Dummy ∧
      (∀ y1 y2, t'.path y1 y2 = t.path y1 y2) ∧ t'.l3 = t.l3 := by
  unfold takeL2 at ht ⊢
  by_cases hf : t.nextFreeL2 ≠ 0
  · -- the first table of the free list, which references dummies only
    simp only [hf, if_true, not_false_eq_true, ne_eq] at ht ⊢
    obtain ⟨rest, hrest, hpool⟩ := h.pool2.reuse x1 hf
    have hidle : Idle l2Dummy t.l2Brk free2 t.nextFreeL2 := Or.inr (Or.inl (by rw [hrest]; simp))
    have hl1 : t'.l1 = Function.update t.l1 x1 t.nextFreeL2 := by subst ht; rfl
    have hl2 : t'.l2 = t.l2 := by subst ht; rfl
    have hd' := (h.pool2.free_mem t.nextFreeL2 (by rw [hrest]; simp)).1
    refine ⟨⟨rest, ?_⟩, ?_, by omega, fun y1 y2 => ?_, by subst ht; rfl⟩
    · subst ht
      refine ⟨hpool, h.pool3, h.count2, h.count3, fun p hp => ?_, h.idle3, h.range2, h.range3, h.free, h.loaded⟩
      refine h.idle2 p (hp.imp id (Or.imp (fun hm => ?_) id))
      rw [hrest]
      exact List.mem_cons_of_mem _ hm
    · rw [hl2]
      exact h.idle2 _ hidle
    · unfold path
      rw [hl1, hl2]
      by_cases hy : y1 = x1
      · rw [hy, Function.update_self, hd, h.dummyL2, h.l3_of_zero (h.idle2 _ hidle)]
      · rw [Function.update_of_ne hy]
  · -- a new table
    simp only [hf, if_false, ne_eq] at ht ⊢
    have hidle : Idle l2Dummy t.l2Brk free2 t.l2Brk := Or.inr (Or.inr (le_refl _))
    have hl1 : t'.l1 = Function.update t.l1 x1 t.l2Brk := by subst ht; rfl
    have hl2 : t'.l2 = Function.update t.l2 t.l2Brk ⟨fun _ => l3Dummy, 0, 0⟩ := by subst ht; rfl
    have hl3' : t'.l3 = t.l3 := by subst ht; rfl
    have hb2 : t'.l2Brk = t.l2Brk + 1 := by subst ht; rfl
    have hb3 : t'.l3Brk = t.l3Brk := by subst ht; rfl
    have hf2 : t'.nextFreeL2 = t.nextFreeL2 := by subst ht; rfl
    have hf3 : t'.nextFreeL3 = t.nextFreeL3 := by subst ht; rfl
    have hl3 : ∀ p, (t'.l2 p).l3 = (t.l2 p).l3 := by
      intro p
      rw [hl2]
      by_cases hp : p = t.l2Brk
      · funext x2
        rw [hp, Function.update_self, h.l3_of_zero (h.idle2 _ hidle)]
      · rw [Function.update_of_ne hp]
    have hrc : ∀ p, (t'.l2 p).refcount = (t.l2 p).refcount := by
      intro p
      rw [hl2]
      by_cases hp : p = t.l2Brk
      · rw [hp, Function.update_self, h.idle2 _ hidle]
      · rw [Function.update_of_ne hp]
    refine ⟨⟨free2, ?_⟩, ?_, ?_, fun y1 y2 => ?_, hl3'⟩
    · constructor
      · rw [hl1, hf2, hb2]
        refine (h.pool2.fresh x1).congr_next fun p hp => ?_
        have := (h.pool2.free_mem p hp).2
        rw [hl2, Function.update_of_ne (by omega)]
      · simp only [hl3, hl3', hf3, hb3]
        exact h.pool3
      · simpa only [hl3, hrc] using h.count2
      · rw [hl3']
        exact h.count3
      · rw [hb2]
        intro p hp
        rw [hrc]
        refine h.idle2 p (hp.imp id (Or.imp id (fun hle => ?_)))
        omega
      · rw [hl3', hb3]
        exact h.idle3
      · simpa only [hl3] using h.range2
      · rw [hl3']
        exact h.range3
      · rw [hl3']
        exact h.free
      · rw [hl3']
        exact h.loaded
    · rw [hrc]
      exact h.idle2 _ hidle
    · have := h.pool2.dummy_lt
      omega
    · unfold path
      rw [hl3, hl1]
      by_cases hy : y1 = x1
      · rw [hy, Function.update_self, hd, h.dummyL2, h.l3_of_zero (h.idle2 _ hidle)]
      · rw [Function.update_of_ne hy]

theorem Inv.attach_l3 {x1 x2 q : Nat} (t' : Tree) (free3' : List Nat) (hp : t.l1 x1 ≠ l2Dummy) (hx : x2 < 2 ^ l2n)
    (hd : t.path x1 x2 = l3Dummy) (hl1 : t'.l1 = t.l1) (hb2 : t'.l2Brk = t.l2Brk)
    (hf2 : t'.nextFreeL2 = t.nextFreeL2)
    (hl2 : t'.l2 = Function.update t.l2 (t.l1 x1) ⟨Function.update (t.l2 (t.l1 x1)).l3 x2 q,
      (t.l2 (t.l1 x1)).next, (t.l2 (t.l1 x1)).refcount + 1⟩)
    (hslot : ∀ i, (t'.l3 i).slot = (t.l3 i).slot) (hrc : ∀ i, (t'.l3 i).refcount = (t.l3 i).refcount)
    (hq : q ≠ l3Dummy) (hq0 : (t.l3 q).refcount = 0)
    (hidle : ∀ i, Idle l3Dummy t'.l3Brk free3' i → Idle l3Dummy t.l3Brk free3 i)
    (hpool : Lib.Pool l3Dummy (Function.update (fun k : Nat × Nat => (t.l2 k.1).l3 k.2) (t.l1 x1, x2) q)
      (fun i => (t'.l3 i).next) t'.nextFreeL3 t'.l3Brk free3') :
    t'.Inv a free2 free3' ∧ t'.path x1 x2 = q ∧ ∀ y1 y2 y3, t'.slotAt y1 y2 y3 = t.slotAt y1 y2 y3 := by
  have hr3 : (fun k : Nat × Nat => (t'.l2 k.1).l3 k.2) =
      Function.update (fun k : Nat × Nat => (t.l2 k.1).l3 k.2) (t.l1 x1, x2) q := by
    funext ⟨i, j⟩
    rw [hl2]
    by_cases hi : i = t.l1 x1 <;> by_cases hj : j = x2
    · subst hi hj; simp
    · subst hi; simp [hj]
    · simp [hi]
    · simp [hi]
  have hn2 : (fun i => (t'.l2 i).next) = fun i => (t.l2 i).next := by
    funext i
    rw [hl2]
    by_cases hi : i = t.l1 x1
    · rw [hi]; simp
    · rw [Function.update_of_ne hi]
  have hpath : t'.path x1 x2 = q := by
    have := congrFun hr3 (t.l1 x1, x2)
    rw [Function.update_self] at this
    unfold path
    rw [hl1]
    exact this
  refine ⟨?_, hpath, fun y1 y2 y3 => ?_⟩
  · constructor
    · rw [hl1, hn2, hf2, hb2]
      exact h.pool2
    · rw [hr3]
      exact hpool
    · intro p
      rw [hl2]
      by_cases hi : p = t.l1 x1
      · have hc := Lib.count_update (fun q : Nat => q ≠ l3Dummy) (t.l2 (t.l1 x1)).l3 x2 q hx
        have h2 := h.count2 (t.l1 x1)
        have hd' : (t.l2 (t.l1 x1)).l3 x2 = l3Dummy := hd
        rw [hi]
        simp only [Function.update_self, present] at h2 ⊢
        rw [if_neg (not_not.mpr hd'), if_pos hq] at hc
        omega
      · rw [Function.update_of_ne hi]
        exact h.count2 p
    · intro i
      rw [hrc, hslot]
      exact h.count3 i
    · rw [hb2]
      intro p hid
      have hne : p ≠ t.l1 x1 := by
        rintro rfl
        exact h.l1_mem hp hid
      rw [hl2, Function.update_of_ne hne]
      exact h.idle2 p hid
    · intro i hid
      rw [hrc]
      exact h.idle3 i (hidle i hid)
    · intro p y2 hy
      have hne : (p, y2) ≠ (t.l1 x1, x2) := by
        intro he
        simp only [Prod.mk.injEq] at he
        omega
      have := congrFun hr3 (p, y2)
      rw [Function.update_of_ne hne] at this
      exact this.trans (h.range2 p y2 hy)
    · simpa only [hslot] using h.range3
    · simpa only [hslot] using h.free
    · simpa only [hslot] using h.loaded
  · unfold slotAt
    rw [hslot]
    by_cases hy : y1 = x1 ∧ y2 = x2
    · rw [hy.1, hy.2, hpath, hd, h.dummyL3, h.slot_of_zero hq0]
    · have hne : (t.l1 y1, y2) ≠ (t.l1 x1, x2) := by
        intro he
        simp only [Prod.mk.injEq] at he
        exact hy ⟨(h.pool2.inj x1 y1 he.1.symm hp).symm, he.2⟩
      have := congrFun hr3 (t.l1 y1, y2)
      rw [Function.update_of_ne hne] at this
      have hsame : t'.path y1 y2 = t.path y1 y2 := by
        unfold path
        rw [hl1]
        exact this
      rw [hsame]

end

end Tree

end Gxemul
