import Gxemul.Lib.Run
import Mathlib.Data.BitVec

/- Frames in segments, and frames in buffers.

   A sender finds segments, some of which are the first or the last one of a
   frame. `Segments` collects them, and `Segments.WellFormed.add` says that it
   collects frames from a first segment to the next last one. A receiver puts each
   frame into buffers, one after another. `Scatter` collects the buffers of each
   frame, up to the one in which it ends. -/
namespace Gxemul.Lib

/-- The frames that are complete, the segments of the one that has begun, and those that belong to no frame. -/
structure Segments (σ : Type*) where
  frames : List (List σ) := []
  cur : Option (List σ) := none
  stray : List σ := []

namespace Segments
variable {σ : Type*} (first last : σ → Bool)

/-- The next segment. A first one begins a frame; others belong to the frame that has begun, if there is one. -/
def add (c : Segments σ) (s : σ) : Segments σ :=
  match if first s then some [s] else c.cur.map (· ++ [s]) with
  | none => { c with stray := c.stray ++ [s] }
  | some l => if last s then { c with frames := c.frames ++ [l], cur := none } else { c with cur := some l }

/-- The frame that has begun is given up. -/
def cut (c : Segments σ) : Segments σ := { c with cur := none }

/-- A first segment, and others that are not. -/
def Begins (l : List σ) : Prop := ∃ s rest, l = s :: rest ∧ first s = true ∧ ∀ x ∈ rest, first x = false

/-- The segments from a first one to the next last one. -/
def IsFrame (l : List σ) : Prop :=
  Begins first l ∧ ∃ init s, l = init ++ [s] ∧ last s = true ∧ ∀ x ∈ init, last x = false

def IsOpen (l : List σ) : Prop := Begins first l ∧ ∀ x ∈ l, last x = false

structure WellFormed (c : Segments σ) : Prop where
  frames : ∀ l ∈ c.frames, IsFrame first last l
  cur : ∀ l, c.cur = some l → IsOpen first last l

variable {first last} {c : Segments σ}

theorem Begins.append {l : List σ} {s : σ} (h : Begins first l) (hs : first s = false) : Begins first (l ++ [s]) := by
  obtain ⟨x, rest, rfl, hx, hrest⟩ := h
  refine ⟨x, rest ++ [s], rfl, hx, fun y hy => ?_⟩
  obtain hy | hy := List.mem_append.mp hy
  · exact hrest y hy
  · rw [List.mem_singleton.mp hy]
    exact hs

theorem WellFormed.add (h : c.WellFormed first last) (s : σ) : (c.add first last s).WellFormed first last := by
  have hsegments : ∀ l, (if first s then some [s] else c.cur.map (· ++ [s])) = some l →
      Begins first l ∧ ∃ init, l = init ++ [s] ∧ ∀ x ∈ init, last x = false := by
    intro l hl
    split at hl
    · rename_i hfirst
      cases hl
      exact ⟨⟨s, [], rfl, hfirst, by simp⟩, [], rfl, by simp⟩
    · rename_i hfirst
      obtain ⟨init, hinit, rfl⟩ := Option.map_eq_some_iff.mp hl
      obtain ⟨hbegins, hopen⟩ := h.cur init hinit
      exact ⟨hbegins.append (by simpa using hfirst), init, rfl, hopen⟩
  unfold Segments.add
  split
  · exact ⟨h.frames, h.cur⟩
  · rename_i l hl
    obtain ⟨hbegins, init, hinit, hopen⟩ := hsegments l hl
    by_cases hlast : last s = true
    · rw [if_pos hlast]
      refine ⟨fun l' hl' => ?_, fun l' hl' => nomatch hl'⟩
      obtain hl' | hl' := List.mem_append.mp hl'
      · exact h.frames l' hl'
      · rw [List.mem_singleton.mp hl']
        exact ⟨hbegins, init, s, hinit, hlast, hopen⟩
    · rw [if_neg hlast]
      refine ⟨h.frames, fun l' hl' => ?_⟩
      cases hl'
      refine ⟨hbegins, fun x hx => ?_⟩
      rw [hinit] at hx
      obtain hx | hx := List.mem_append.mp hx
      · exact hopen x hx
      · rw [List.mem_singleton.mp hx]
        simpa using hlast

theorem WellFormed.cut (h : c.WellFormed first last) : c.cut.WellFormed first last :=
  ⟨h.frames, fun _ hl => nomatch hl⟩

end Segments

/-- The frames that have been put into buffers, the one that is being put, and those that were still being put when the
next one came. -/
structure Scatter (σ β : Type*) where
  done : List (List β × List σ) := []
  cur : Option (List β × List σ) := none
  overrun : List (List β) := []

namespace Scatter
variable {σ β : Type*} (size : σ → Nat)

/-- The room in buffers. -/
def room (l : List σ) : Nat := (l.map size).sum

def take (c : Scatter σ β) (frame : List β) : Scatter σ β :=
  { c with cur := some (frame, []), overrun := c.overrun ++ (c.cur.map Prod.fst).toList }

/-- The next buffer. -/
def add (c : Scatter σ β) (s : σ) : Scatter σ β :=
  match c.cur with
  | none => c
  | some (frame, l) =>
    if frame.length ≤ room size (l ++ [s]) then { c with done := c.done ++ [(frame, l ++ [s])], cur := none }
    else { c with cur := some (frame, l ++ [s]) }

def cut (c : Scatter σ β) : Scatter σ β := { c with cur := none }

variable {size} {l : List σ} {s : σ}

theorem room_append (s : σ) : room size (l ++ [s]) = room size l + size s := by
  simp [room]

theorem room_take_succ {k : Nat} (hs : l[k]? = some s) : room size (l.take (k + 1)) = room size (l.take k) + size s := by
  rw [List.take_add_one, hs]
  exact room_append s

theorem room_take_le (size : σ → Nat) (l : List σ) {j k : Nat} (hjk : j ≤ k) :
    room size (l.take j) ≤ room size (l.take k) := by
  have hsplit : l.take k = (l.take k).take j ++ (l.take k).drop j := (List.take_append_drop j _).symm
  rw [List.take_take, Nat.min_eq_left hjk] at hsplit
  rw [hsplit]
  simp [room]

end Scatter

end Gxemul.Lib
