import Mathlib.Data.List.Basic
import Mathlib.Logic.Function.Basic
import Mathlib.Data.List.Induction
import Mathlib.Data.List.Nodup
import Mathlib.Data.Nat.Count
import Mathlib.Tactic.Common

/- Singly linked lists through a `next` field. Cells are named by numbers and
   zero ends a list. `Chain next h l` says that the list that starts at `h` runs
   through the cells of `l`; `findChain` is the loop that looks for a cell and
   stops at the end of the list. -/
namespace Gxemul.Lib

section
variable {next next' : Nat → Nat}

/-- The list that starts at the given cell runs through the given cells. -/
def Chain (next : Nat → Nat) : Nat → List Nat → Prop
  | h, [] => h = 0
  | h, x :: l => h = x ∧ x ≠ 0 ∧ Chain next (next x) l

/-- The first cell of the list that satisfies `p`, looking at no more than
`fuel` cells. -/
def findChain (next : Nat → Nat) (p : Nat → Bool) : Nat → Nat → Option Nat
  | 0, _ => none
  | fuel + 1, h => if h = 0 then none else if p h then some h else findChain next p fuel (next h)

/-- A cell starts at most one list. -/
theorem Chain.unique : ∀ {l l' : List Nat} {h : Nat}, Chain next h l → Chain next h l' → l = l'
  | [], [], _, _, _ => rfl
  | [], _ :: _, _, h1, h2 => absurd (h2.1.symm.trans h1) h2.2.1
  | _ :: _, [], _, h1, h2 => absurd (h1.1.symm.trans h2) h1.2.1
  | _ :: _, _ :: _, _, ⟨rfl, _, h1⟩, ⟨rfl, _, h2⟩ => by rw [h1.unique h2]

/-- A list depends on the `next` fields of its own cells only. -/
theorem Chain.congr : ∀ {l : List Nat} {h : Nat}, Chain next h l → (∀ x ∈ l, next' x = next x) →
    Chain next' h l
  | [], _, hc, _ => hc
  | x :: _, _, ⟨hh, h0, hc⟩, hn => by
    refine ⟨hh, h0, ?_⟩
    rw [hn x (by simp)]
    exact hc.congr fun y hy => hn y (by simp [hy])

/-- Putting a new cell first. -/
theorem Chain.push {l : List Nat} {h x : Nat} (hc : Chain next h l) (hx : x ≠ 0) (hnot : x ∉ l) :
    Chain (Function.update next x h) x (x :: l) := by
  refine ⟨rfl, hx, ?_⟩
  rw [Function.update_self]
  refine hc.congr fun y hy => Function.update_of_ne ?_ _ _
  rintro rfl
  exact hnot hy

/-- Taking the first cell away. -/
theorem Chain.pop : ∀ {l : List Nat} {h : Nat}, Chain next h l → h ≠ 0 →
    ∃ l', l = h :: l' ∧ Chain next (next h) l'
  | [], _, hc, h0 => absurd hc h0
  | _ :: l, _, ⟨rfl, _, hc⟩, _ => ⟨l, rfl, hc⟩

/-- The loop finds the first cell of the list that satisfies `p`. -/
theorem Chain.find {p : Nat → Bool} : ∀ {l : List Nat} {h fuel : Nat}, Chain next h l → l.length < fuel →
    findChain next p fuel h = l.find? p
  | _, _, 0, _, hf => absurd hf (Nat.not_lt_zero _)
  | [], _, _ + 1, hc, _ => by
    have h0 : _ = 0 := hc
    simp [findChain, h0]
  | x :: l, _, fuel + 1, ⟨rfl, h0, hc⟩, hf => by
    have hlt : l.length < fuel := by simpa using hf
    have ih := hc.find (p := p) hlt
    simp only [findChain, h0, if_false, List.find?_cons, ih]
    cases p x <;> rfl

end

end Gxemul.Lib

/- A direct-mapped table and an array of entries that point at each other.
   `ptr k` is one more than the index of the entry that describes `k`, or zero
   when no entry does; `key r` is the index entry `r` describes while `valid r`
   holds. `Linked` says that the two sides agree, `unlink` and `link` how they
   are changed together. -/
namespace Gxemul.Lib

section
variable {K : Type*} {ptr : K → Nat} {valid : Nat → Prop} {key : Nat → K}

/-- The two sides point at each other. -/
structure Linked (ptr : K → Nat) (valid : Nat → Prop) (key : Nat → K) : Prop where
  entry_of_ptr : ∀ k r, ptr k = r + 1 → valid r ∧ key r = k
  ptr_of_entry : ∀ r, valid r → ptr (key r) = r + 1

theorem Linked.ne_zero (h : Linked ptr valid key) {r : Nat} (hr : valid r) : ptr (key r) ≠ 0 := by
  rw [h.ptr_of_entry r hr]
  exact Nat.succ_ne_zero r

variable [DecidableEq K]

/-- Dropping what describes `k`, on both sides. -/
theorem Linked.unlink (h : Linked ptr valid key) (k : K) :
    Linked (Function.update ptr k 0) (fun r => valid r ∧ ptr k ≠ r + 1) key where
  entry_of_ptr k' r hp := by
    by_cases hk : k' = k
    · subst hk
      simp at hp
    · rw [Function.update_of_ne hk] at hp
      obtain ⟨hv, hkey⟩ := h.entry_of_ptr k' r hp
      refine ⟨⟨hv, fun hp' => hk ?_⟩, hkey⟩
      rw [← hkey, ← (h.entry_of_ptr k r hp').2]
  ptr_of_entry r hr := by
    have hne : key r ≠ k := by
      rintro rfl
      exact hr.2 (h.ptr_of_entry r hr.1)
    rw [Function.update_of_ne hne]
    exact h.ptr_of_entry r hr.1

/-- Letting the free entry `r` describe the free index `k`. -/
theorem Linked.link (h : Linked ptr valid key) {k : K} {r : Nat} (hk : ptr k = 0) (hr : ¬ valid r) :
    Linked (Function.update ptr k (r + 1)) (fun i => i = r ∨ valid i) (Function.update key r k) where
  entry_of_ptr k' i hp := by
    by_cases hk' : k' = k
    · subst hk'
      simp at hp
      subst hp
      simp
    · rw [Function.update_of_ne hk'] at hp
      obtain ⟨hv, hkey⟩ := h.entry_of_ptr k' i hp
      have hi : i ≠ r := fun e => hr (e ▸ hv)
      exact ⟨Or.inr hv, by rw [Function.update_of_ne hi]; exact hkey⟩
  ptr_of_entry i hi := by
    by_cases he : i = r
    · subst he
      simp
    · have hv : valid i := hi.resolve_left he
      have hne : key i ≠ k := by
        rintro rfl
        exact h.ne_zero hv hk
      rw [Function.update_of_ne he, Function.update_of_ne hne]
      exact h.ptr_of_entry i hv

end

end Gxemul.Lib

/- Doubly linked lists. `Seg next h l t` says that the pointers of `next` that
   start with `h` run through the cells of `l` and end in `t`. A doubly linked
   list is a segment to NULL in both directions, and each operation is proved
   in one direction and used in both. -/
namespace Gxemul.Lib

section
variable {P : Type*}

/-- The pointers from `h` run through the cells of `l` and end in `t`. -/
def Seg (next : P → Option P) : Option P → List P → Option P → Prop
  | h, [], t => h = t
  | h, x :: l, t => h = some x ∧ Seg next (next x) l t

/-- The list with these end pointers has the cells of `l`, each once. -/
structure DList (next prev : P → Option P) (first last : Option P) (l : List P) : Prop where
  forward : Seg next first l none
  backward : Seg prev last l.reverse none
  nodup : l.Nodup

variable {next prev next' : P → Option P} {h t first last : Option P} {l m : List P} {x : P}

/-- A segment depends on the pointers of its own cells only. -/
theorem Seg.congr (hs : Seg next h l t) (hn : ∀ y ∈ l, next' y = next y) : Seg next' h l t := by
  induction l generalizing h with
  | nil => exact hs
  | cons y l ih =>
    obtain ⟨hh, hs⟩ := hs
    refine ⟨hh, ?_⟩
    rw [hn y (by simp)]
    exact ih hs fun z hz => hn z (by simp [hz])

theorem seg_append : Seg next h (l ++ m) t ↔ ∃ k, Seg next h l k ∧ Seg next k m t := by
  induction l generalizing h with
  | nil =>
    constructor
    · intro hs
      exact ⟨h, rfl, hs⟩
    · rintro ⟨k, rfl, hs⟩
      exact hs
  | cons y l ih =>
    show h = some y ∧ Seg next (next y) (l ++ m) t ↔ ∃ k, (h = some y ∧ Seg next (next y) l k) ∧ Seg next k m t
    rw [ih]
    constructor
    · rintro ⟨hh, k, hl, hm⟩
      exact ⟨k, ⟨hh, hl⟩, hm⟩
    · rintro ⟨k, ⟨hh, hl⟩, hm⟩
      exact ⟨hh, k, hl, hm⟩

/-- A list to NULL starts with its first cell. -/
theorem Seg.head (hs : Seg next h l none) : h = l.head? := by
  cases l with
  | nil => exact hs
  | cons y l => exact hs.1

theorem DList.last_eq (hd : DList next prev first last l) : last = l.getLast? := by
  rw [hd.backward.head, List.head?_reverse]

theorem DList.empty : DList next prev none none [] := ⟨rfl, rfl, .nil⟩

theorem DList.congr {prev' : P → Option P} (hd : DList next prev first last l) (hn : ∀ y ∈ l, next' y = next y)
    (hp : ∀ y ∈ l, prev' y = prev y) : DList next' prev' first last l :=
  ⟨hd.forward.congr hn, hd.backward.congr fun y hy => hp y (List.mem_reverse.mp hy), hd.nodup⟩

variable [DecidableEq P]

/-- `p->field = v`, unless `p` is NULL. -/
def setField (f : P → Option P) (p v : Option P) : P → Option P :=
  match p with
  | some p => Function.update f p v
  | none => f

theorem setField_of_ne {f : P → Option P} {p v : Option P} (hp : p ≠ some x) : setField f p v x = f x := by
  cases p with
  | none => rfl
  | some p => exact Function.update_of_ne (fun e => hp (by rw [e])) _ _

/-- Where a segment ends is written in its last cell, or in its start pointer. -/
theorem Seg.redirect (hs : Seg next h l t) (hl : l.Nodup) (v : Option P) :
    Seg (setField next l.getLast? v) (if l.getLast? = none then v else h) l v := by
  induction l using List.reverseRecOn generalizing t with
  | nil => exact rfl
  | append_singleton l y _ =>
    have hy : y ∉ l := by
      intro hy
      exact (List.nodup_append.mp hl).2.2 y hy y (by simp) rfl
    obtain ⟨k, hl', hk, -⟩ := seg_append.mp hs
    rw [List.getLast?_concat, if_neg (by simp), seg_append]
    refine ⟨k, hl'.congr fun z hz => Function.update_of_ne ?_ _ _, hk, Function.update_self ..⟩
    rintro rfl
    exact hy hz

/-- Adding a cell at the end. -/
theorem Seg.snoc (hs : Seg next h l none) (hl : l.Nodup) (hx : x ∉ l) (hnull : next x = none) :
    Seg (setField next l.getLast? (some x)) (if l.getLast? = none then some x else h) (l ++ [x]) none := by
  refine seg_append.mpr ⟨some x, hs.redirect hl (some x), rfl, ?_⟩
  rw [setField_of_ne, hnull]
  · exact rfl
  · intro e
    exact hx (List.mem_of_getLast? e)

/-- Taking a cell out. -/
theorem Seg.unlink (hs : Seg next h (l ++ x :: m) none) (hl : (l ++ x :: m).Nodup) :
    next x = m.head? ∧
    Seg (setField next l.getLast? (next x)) (if l.getLast? = none then next x else h) (l ++ m) none := by
  obtain ⟨k, hl', -, hm⟩ := seg_append.mp hs
  have hnodup := List.nodup_append.mp hl
  refine ⟨hm.head, seg_append.mpr ⟨next x, hl'.redirect hnodup.1 _, hm.congr fun y hy => setField_of_ne ?_⟩⟩
  intro e
  exact hnodup.2.2 y (List.mem_of_getLast? e) y (by simp [hy]) rfl

namespace DList

/-- Adding a new cell last. -/
theorem snoc (hd : DList next prev first last l) (hx : x ∉ l) (hnull : next x = none) (hprev : prev x = last) :
    DList (setField next last (some x)) prev (if last = none then some x else first) (some x) (l ++ [x]) := by
  refine ⟨?_, ?_, ?_⟩
  · rw [hd.last_eq]
    exact hd.forward.snoc hd.nodup hx hnull
  · rw [List.reverse_append]
    refine ⟨rfl, ?_⟩
    rw [hprev]
    exact hd.backward
  · exact List.nodup_append.mpr ⟨hd.nodup, by simp, fun y hy z hz e => hx (by simp_all)⟩

/-- Taking a cell out. Its own pointers say which cells are next to it. -/
theorem unlink (hd : DList next prev first last (l ++ x :: m)) : prev x = l.getLast? ∧ next x = m.head? ∧
    DList (setField next l.getLast? (next x)) (setField prev (next x) l.getLast?)
      (if l.getLast? = none then next x else first) (if next x = none then l.getLast? else last) (l ++ m) := by
  have hrev : (l ++ x :: m).reverse = m.reverse ++ x :: l.reverse := by simp
  obtain ⟨hnext, hf⟩ := hd.forward.unlink hd.nodup
  obtain ⟨hprev, hb⟩ := Seg.unlink (hrev ▸ hd.backward) (hrev ▸ (List.nodup_reverse).2 hd.nodup)
  rw [List.head?_reverse] at hprev
  rw [List.getLast?_reverse, ← hnext, hprev, ← List.reverse_append] at hb
  exact ⟨hprev, hnext, hf, hb, hd.nodup.sublist (List.Sublist.append_left (List.sublist_cons_self x m) l)⟩

end DList

end

end Gxemul.Lib

/- Tables that are handed out to owners and given back. `ref k` is the address
   of the table that owner `k` uses, or the address `d` of a dummy table that
   all the others share. Tables that nobody uses are on a free list, and the
   addresses from `brk` on have never been handed out. `Pool` says that no table
   has two owners or is both owned and free; `release`, `reuse` and `fresh` are
   the three ways it changes. -/
namespace Gxemul.Lib

section
variable {K : Type*} {d : Nat} {ref : K → Nat} {next : Nat → Nat} {head brk : Nat} {free : List Nat}

/-- No table has two owners or is both owned and free. -/
structure Pool (d : Nat) (ref : K → Nat) (next : Nat → Nat) (head brk : Nat) (free : List Nat) : Prop where
  dummy_lt : d < brk
  chain : Chain next head free
  nodup : free.Nodup
  free_mem : ∀ p ∈ free, d < p ∧ p < brk
  ref_mem : ∀ k, ref k ≠ d → d < ref k ∧ ref k < brk ∧ ref k ∉ free
  inj : ∀ k k', ref k = ref k' → ref k ≠ d → k = k'

/-- Only the `next` fields of free tables matter. -/
theorem Pool.congr_next (h : Pool d ref next head brk free) {next' : Nat → Nat}
    (hn : ∀ p ∈ free, next' p = next p) : Pool d ref next' head brk free :=
  ⟨h.dummy_lt, h.chain.congr hn, h.nodup, h.free_mem, h.ref_mem, h.inj⟩

variable [DecidableEq K]

/-- Owner `k` gives its table back. -/
theorem Pool.release (h : Pool d ref next head brk free) {k : K} (hk : ref k ≠ d) :
    Pool d (Function.update ref k d) (Function.update next (ref k) head) (ref k) brk (ref k :: free) where
  dummy_lt := h.dummy_lt
  chain := by
    obtain ⟨h1, _, h3⟩ := h.ref_mem k hk
    exact h.chain.push (by omega) h3
  nodup := List.nodup_cons.mpr ⟨(h.ref_mem k hk).2.2, h.nodup⟩
  free_mem p hp := by
    rcases List.mem_cons.mp hp with rfl | hp
    · exact ⟨(h.ref_mem k hk).1, (h.ref_mem k hk).2.1⟩
    · exact h.free_mem p hp
  ref_mem k' hk' := by
    by_cases he : k' = k
    · subst he
      simp at hk'
    · rw [Function.update_of_ne he] at hk' ⊢
      obtain ⟨h1, h2, h3⟩ := h.ref_mem k' hk'
      refine ⟨h1, h2, fun hm => ?_⟩
      rcases List.mem_cons.mp hm with hm | hm
      · exact he (h.inj k' k hm hk')
      · exact h3 hm
  inj k' k'' hr hd := by
    by_cases he : k' = k
    · subst he
      simp at hd
    · rw [Function.update_of_ne he] at hr hd
      by_cases he' : k'' = k
      · subst he'
        rw [Function.update_self] at hr
        exact absurd hr hd
      · rw [Function.update_of_ne he'] at hr
        exact h.inj k' k'' hr hd

/-- What handing out the table `p`, owned by nobody, does to the owners. -/
theorem Pool.inj_update (h : Pool d ref next head brk free) {k : K} {p : Nat} (hp : ∀ k', ref k' ≠ d → ref k' ≠ p)
    (k' k'' : K) (hr : Function.update ref k p k' = Function.update ref k p k'')
    (hd : Function.update ref k p k' ≠ d) : k' = k'' := by
  by_cases he : k' = k <;> by_cases he' : k'' = k
  · rw [he, he']
  · subst he
    rw [Function.update_self] at hr hd
    rw [Function.update_of_ne he'] at hr
    exact absurd hr.symm (hp k'' (hr ▸ hd))
  · subst he'
    rw [Function.update_of_ne he] at hr hd
    rw [Function.update_self] at hr
    exact absurd hr (hp k' hd)
  · rw [Function.update_of_ne he] at hr hd
    rw [Function.update_of_ne he'] at hr
    exact h.inj k' k'' hr hd

/-- Owner `k` gets the first table of the free list. -/
theorem Pool.reuse (h : Pool d ref next head brk free) (k : K) (hh : head ≠ 0) :
    ∃ rest, free = head :: rest ∧ Pool d (Function.update ref k head) next (next head) brk rest := by
  obtain ⟨rest, rfl, hc⟩ := h.chain.pop hh
  obtain ⟨hnot, hnd⟩ := List.nodup_cons.mp h.nodup
  refine ⟨rest, rfl, h.dummy_lt, hc, hnd, fun p hp => h.free_mem p (by simp [hp]), fun k' hk' => ?_, ?_⟩
  · by_cases he : k' = k
    · subst he
      rw [Function.update_self]
      exact ⟨(h.free_mem head (by simp)).1, (h.free_mem head (by simp)).2, hnot⟩
    · rw [Function.update_of_ne he] at hk' ⊢
      obtain ⟨h1, h2, h3⟩ := h.ref_mem k' hk'
      exact ⟨h1, h2, fun hm => h3 (by simp [hm])⟩
  · refine h.inj_update fun k' hk' he => (h.ref_mem k' hk').2.2 ?_
    rw [he]
    simp

/-- Owner `k` gets a table that has never been handed out. -/
theorem Pool.fresh (h : Pool d ref next head brk free) (k : K) :
    Pool d (Function.update ref k brk) next head (brk + 1) free where
  dummy_lt := by
    have := h.dummy_lt
    omega
  chain := h.chain
  nodup := h.nodup
  free_mem p hp := by
    have := h.free_mem p hp
    omega
  ref_mem k' hk' := by
    by_cases he : k' = k
    · subst he
      rw [Function.update_self]
      refine ⟨h.dummy_lt, by omega, fun hm => ?_⟩
      have := h.free_mem brk hm
      omega
    · rw [Function.update_of_ne he] at hk' ⊢
      obtain ⟨h1, h2, h3⟩ := h.ref_mem k' hk'
      exact ⟨h1, by omega, h3⟩
  inj := h.inj_update fun k' hk' he => by
    have := (h.ref_mem k' hk').2.1
    omega

end

/-- How changing one element of a table changes the number of elements that
satisfy `p`. -/
theorem count_update {β : Type*} (p : β → Prop) [DecidablePred p] (f : Nat → β) (i : Nat) (v : β) :
    ∀ {n : Nat}, i < n →
      Nat.count (fun j => p (Function.update f i v j)) n + (if p (f i) then 1 else 0) =
        Nat.count (fun j => p (f j)) n + (if p v then 1 else 0)
  | 0, h => absurd h (Nat.not_lt_zero i)
  | n + 1, h => by
    rw [Nat.count_succ, Nat.count_succ]
    by_cases hi : i = n
    · subst hi
      have hbelow : Nat.count (fun j => p (Function.update f i v j)) i = Nat.count (fun j => p (f j)) i := by
        apply Nat.le_antisymm <;> refine Nat.count_mono_left fun j hj hp => ?_ <;>
          simpa [Function.update_of_ne (Nat.ne_of_lt hj)] using hp
      rw [hbelow, Function.update_self]
      omega
    · have ih := count_update p f i v (n := n) (by omega)
      rw [Function.update_of_ne (Ne.symm hi)]
      omega

end Gxemul.Lib
