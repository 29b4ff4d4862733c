import Gxemul.Lib.Run
import Mathlib.Data.List.Basic
import Mathlib.Logic.Function.Basic
import Mathlib.Logic.Function.Iterate

/- Load-and-reserve and conditional store on several processors.

   A processor that loads with a reservation holds it until some conditional store
   succeeds. A conditional store of a processor without a reservation fails. A run is
   observed: `Observed` is a state with the events so far, the value each processor
   has loaded from a counter with its last reservation, and the number of conditional
   stores to the counter that succeeded.

   `reserved_of_held` says that who holds a reservation made it after the last
   conditional store that succeeded, and `counter_eq` that no increment is lost. -/
namespace Gxemul.Lib

/-- What an operation does: processor `a` reserves the location `l`, or stores there
conditionally, or neither happens. -/
inductive Event (ι L : Type*) where
  | reserve (a : ι) (l : L)
  | store (a : ι) (l : L) (success : Bool)
  | other

section
variable {ι L : Type*}

/-- The last reservation of `a` is for `l`, and no conditional store has succeeded since. -/
def Reserved (a : ι) (l : L) (events : List (Event ι L)) : Prop :=
  ∃ before after, events = before ++ .reserve a l :: after ∧ (∀ l', .reserve a l' ∉ after) ∧
    ∀ b l', .store b l' true ∉ after

/-- What an event does to the reservations that are held. -/
def Follows (held held' : ι → Option L) : Event ι L → Prop
  | .reserve a l => held' a = some l ∧ ∀ b, b ≠ a → held' b = held b
  | .store a _ true => held a ≠ none ∧ ∀ b, held' b = none
  | .store _ _ false => ∀ b, held' b = held b ∨ held' b = none
  | .other => held' = held

variable {a : ι} {l l' : L} {events : List (Event ι L)} {e : Event ι L}

theorem Reserved.same (a : ι) (l : L) (events : List (Event ι L)) : Reserved a l (events ++ [.reserve a l]) :=
  ⟨events, [], rfl, by simp, by simp⟩

/-- An event that is no reservation of `a` and no success. -/
theorem Reserved.snoc (h : Reserved a l events) (hres : ∀ l', e ≠ .reserve a l') (hst : ∀ b l', e ≠ .store b l' true) :
    Reserved a l (events ++ [e]) := by
  obtain ⟨before, after, rfl, hno, hno'⟩ := h
  refine ⟨before, after ++ [e], by simp, fun l' hmem => ?_, fun b l' hmem => ?_⟩
  · obtain hmem | hmem := List.mem_append.mp hmem
    · exact hno l' hmem
    · exact hres l' (List.mem_singleton.mp hmem).symm
  · obtain hmem | hmem := List.mem_append.mp hmem
    · exact hno' b l' hmem
    · exact hst b l' (List.mem_singleton.mp hmem).symm

/-- There is one last reservation. -/
theorem Reserved.unique (h : Reserved a l events) (h' : Reserved a l' events) : l = l' := by
  obtain ⟨p, q, rfl, hq, -⟩ := h
  obtain ⟨p', q', heq, hq', -⟩ := h'
  obtain ⟨t, ht, ht'⟩ | ⟨t, ht, ht'⟩ := List.append_eq_append_iff.mp heq
  · cases t with
    | nil =>
      cases ht'
      rfl
    | cons e t =>
      obtain ⟨-, ht'⟩ := List.cons.inj ht'
      exact absurd (by simp [ht']) (hq l')
  · cases t with
    | nil =>
      cases ht'
      rfl
    | cons e t =>
      obtain ⟨-, ht'⟩ := List.cons.inj ht'
      exact absurd (by simp [ht']) (hq' l)

end

/-- A state with what has been observed of the run that leads to it. -/
structure Observed (σ ι L V : Type*) where
  state : σ
  events : List (Event ι L)
  seen : ι → Option V
  count : Nat

/-- A machine with reservations and a counter: its steps, what an operation does, who holds
a reservation, whether an operation is one of those on the counter, what a load from the
counter has loaded, and the value of the counter. -/
structure Llsc (σ α ε ι L V : Type*) where
  step : σ → α → Except ε σ
  event : σ → α → Event ι L
  held : σ → ι → Option L
  onCounter : α → Bool
  loaded : σ → α → V
  value : σ → V

namespace Llsc
variable {σ α ε ι L V : Type*} [DecidableEq ι] (M : Llsc σ α ε ι L V)

/-- What is known of the processors' last loads after an operation. -/
def seenAfter (seen : ι → Option V) (s s' : σ) (o : α) : ι → Option V :=
  match M.event s o with
  | .reserve a _ => Function.update seen a (if M.onCounter o then some (M.loaded s' o) else none)
  | _ => seen

/-- The conditional stores to the counter that succeed are counted. -/
def increments (s : σ) (o : α) : Nat :=
  match M.event s o with
  | .store _ _ true => if M.onCounter o then 1 else 0
  | _ => 0

/-- A step that is observed. -/
def observe (s : Observed σ ι L V) (o : α) : Except ε (Observed σ ι L V) :=
  match M.step s.state o with
  | .ok s' => .ok ⟨s', s.events ++ [M.event s.state o], M.seenAfter s.seen s.state s' o, s.count + M.increments s.state o⟩
  | .error e => .error e

/-- The start of a run. -/
def start (s : σ) : Observed σ ι L V := ⟨s, [], fun _ => none, 0⟩

/-- A run starts without reservations. -/
def NoReservations (s : σ) : Prop := ∀ a, M.held s a = none

/-- Operations that return do to the reservations what their event says. -/
def FollowsWhen (legal : σ → α → Prop) : Prop :=
  ∀ s o s', legal s o → M.step s o = .ok s' → Follows (M.held s) (M.held s') (M.event s o)

/-- A conditional store succeeds only on a processor whose last reservation has seen no success since. -/
def NoneSince (s : Observed σ ι L V) (o : α) : Prop :=
  ∀ a l s', M.step s.state o = .ok s' → M.event s.state o = .store a l true → ∃ l', Reserved a l' s.events

/-- A conditional store succeeds only if that reservation was for its own location. -/
def SameLocation (s : Observed σ ι L V) (o : α) : Prop :=
  ∀ a l s', M.step s.state o = .ok s' → M.event s.state o = .store a l true → Reserved a l s.events

/-- The counter is used by pairs of operations: a load reads its value, and a conditional store
that succeeds writes the increment of what its processor has loaded. Nothing else changes it. -/
def Counts (incr : V → V) (s : Observed σ ι L V) (o : α) : Prop :=
  ∀ s', M.step s.state o = .ok s' →
    match M.event s.state o with
    | .reserve _ _ => M.value s' = M.value s.state ∧ (M.onCounter o = true → M.loaded s' o = M.value s.state)
    | .store a _ true =>
      if M.onCounter o then ∃ v, s.seen a = some v ∧ M.value s' = incr v else M.value s' = M.value s.state
    | _ => M.value s' = M.value s.state

variable {M} {legal : σ → α → Prop} {ops : List α} {s : σ}

theorem observe_ok {s s' : Observed σ ι L V} {o : α} (h : M.observe s o = .ok s') :
    M.step s.state o = .ok s'.state ∧ s'.events = s.events ++ [M.event s.state o] ∧
      s'.seen = M.seenAfter s.seen s.state s'.state o ∧ s'.count = s.count + M.increments s.state o := by
  unfold observe at h
  cases hs : M.step s.state o with
  | error e =>
    rw [hs] at h
    cases h
  | ok t =>
    rw [hs] at h
    cases h
    exact ⟨rfl, rfl, rfl, rfl⟩

/-- One step keeps the reservations that are held the latest ones. -/
theorem reserved_step (hf : M.FollowsWhen legal) {s s' : Observed σ ι L V} {o : α} (hl : legal s.state o)
    (hinv : ∀ a l, M.held s.state a = some l → Reserved a l s.events) (h : M.observe s o = .ok s') :
    ∀ a l, M.held s'.state a = some l → Reserved a l s'.events := by
  obtain ⟨hs, hevents, -⟩ := observe_ok h
  have hfol := hf _ _ _ hl hs
  rw [hevents]
  intro a l hheld
  cases he : M.event s.state o with
  | reserve b l' =>
    rw [he] at hfol
    by_cases hab : a = b
    · subst hab
      rw [hfol.1] at hheld
      cases hheld
      exact Reserved.same a l s.events
    · rw [hfol.2 a hab] at hheld
      refine (hinv a l hheld).snoc (fun l'' e => ?_) (by nofun)
      cases e
      exact hab rfl
  | store b l' success =>
    rw [he] at hfol
    cases success with
    | true =>
      rw [hfol.2 a] at hheld
      cases hheld
    | false =>
      obtain hsame | hnone := hfol a
      · rw [hsame] at hheld
        exact (hinv a l hheld).snoc (by nofun) (by nofun)
      · rw [hnone] at hheld
        cases hheld
  | other =>
    rw [he] at hfol
    rw [show M.held s'.state = M.held s.state from hfol] at hheld
    exact (hinv a l hheld).snoc (by nofun) (by nofun)

/-- Who holds a reservation made it last, and no conditional store has succeeded since. -/
theorem reserved_of_held (hf : M.FollowsWhen legal) (h0 : M.NoReservations s)
    (hl : Along M.observe (fun s o => legal s.state o) ops (start s)) :
    Reaches M.observe (fun t : Observed σ ι L V => ∀ a l, M.held t.state a = some l → Reserved a l t.events) ops
      (start s) :=
  reaches_of_along (fun _ => True) (fun _ _ _ _ hinv hlegal h => reserved_step hf hlegal hinv h)
    (fun _ _ => trivial) (fun a l h => by rw [show (start s : Observed σ ι L V).state = s from rfl, h0 a] at h; cases h) hl

/-- What holds in every state of a run holds before each operation. -/
theorem along_of_reaches {P : Observed σ ι L V → Prop} {guard guard' : Observed σ ι L V → α → Prop}
    (hg : ∀ s o, P s → guard s o → guard' s o) :
    ∀ {ops : List α} {s : Observed σ ι L V}, Reaches M.observe P ops s → Along M.observe guard ops s →
      Along M.observe guard' ops s
  | [], _, _, _ => trivial
  | _ :: _, _, ⟨hp, hrest⟩, ⟨hgo, hgrest⟩ =>
    ⟨hg _ _ hp hgo, fun s' hs => along_of_reaches hg (hrest s' hs) (hgrest s' hs)⟩

/-- No conditional store succeeds after another success. -/
theorem noneSince (hf : M.FollowsWhen legal) (h0 : M.NoReservations s)
    (hl : Along M.observe (fun s o => legal s.state o) ops (start s)) :
    Along M.observe M.NoneSince ops (start s) := by
  refine along_of_reaches (fun t o hinv hlegal => ?_) (reserved_of_held hf h0 hl) hl
  intro a l s' hs he
  have hfol := hf _ _ _ hlegal hs
  rw [he] at hfol
  obtain ⟨l', hl'⟩ := Option.ne_none_iff_exists'.mp hfol.1
  exact ⟨l', hinv a l' hl'⟩

/-- Where a conditional store succeeds only at the location that is reserved, it is the last one that was. -/
theorem sameLocation_iff (hf : M.FollowsWhen legal) (h0 : M.NoReservations s)
    (hl : Along M.observe (fun s o => legal s.state o) ops (start s)) :
    Along M.observe M.SameLocation ops (start s) ↔
      Along M.observe (fun s o => ∀ a l s', M.step s.state o = .ok s' → M.event s.state o = .store a l true →
        M.held s.state a = some l) ops (start s) := by
  have hreach := reserved_of_held hf h0 hl
  constructor
  · intro h
    refine along_of_reaches (fun t o hinv hg => ?_) hreach (hl.and h)
    intro a l s' hs he
    have hfol := hf _ _ _ hg.1 hs
    rw [he] at hfol
    obtain ⟨l', hl'⟩ := Option.ne_none_iff_exists'.mp hfol.1
    rw [hl', (hinv a l' hl').unique (hg.2 a l s' hs he)]
  · intro h
    exact along_of_reaches (fun t o hinv hg a l s' hs he => hinv a l (hg a l s' hs he)) hreach h

/-! ## Counters -/

variable {incr : V → V}

/-- The counter has been incremented by every success, and who holds a reservation for it has its value. -/
structure CounterInv (M : Llsc σ α ε ι L V) (incr : V → V) (v0 : V) (s : Observed σ ι L V) : Prop where
  value : M.value s.state = incr^[s.count] v0
  seen : ∀ a v, M.held s.state a ≠ none → s.seen a = some v → v = M.value s.state

theorem counterInv_step (hf : M.FollowsWhen legal) {v0 : V} {s s' : Observed σ ι L V} {o : α}
    (hinv : CounterInv M incr v0 s) (hl : legal s.state o) (hc : M.Counts incr s o) (h : M.observe s o = .ok s') :
    CounterInv M incr v0 s' := by
  obtain ⟨hs, -, hseen, hcount⟩ := observe_ok h
  have hfol := hf _ _ _ hl hs
  have hval := hc _ hs
  unfold seenAfter at hseen
  unfold increments at hcount
  cases he : M.event s.state o with
  | reserve a l =>
    rw [he] at hfol hval hseen hcount
    obtain ⟨hval, hload⟩ := hval
    dsimp only at hseen hcount
    refine ⟨by rw [hval, hcount]; exact hinv.value, fun b v hheld hb => ?_⟩
    rw [hval]
    rw [hseen] at hb
    by_cases hab : b = a
    · subst hab
      rw [Function.update_self] at hb
      split at hb
      · rename_i hon
        cases hb
        exact hload hon
      · cases hb
    · rw [Function.update_of_ne hab] at hb
      rw [hfol.2 b hab] at hheld
      exact hinv.seen b v hheld hb
  | store a l success =>
    rw [he] at hfol hval hseen hcount
    cases success with
    | true =>
      dsimp only at hval hcount
      refine ⟨?_, fun b v hheld => absurd (hfol.2 b) hheld⟩
      by_cases hon : M.onCounter o = true
      · rw [if_pos hon] at hval hcount
        obtain ⟨v, hv, hval⟩ := hval
        rw [hval, hinv.seen a v hfol.1 hv, hcount, hinv.value, Function.iterate_succ_apply']
      · rw [if_neg hon] at hval hcount
        rw [hval, hcount]
        exact hinv.value
    | false =>
      refine ⟨by rw [hval, hcount]; exact hinv.value, fun b v hheld hb => ?_⟩
      rw [hval]
      rw [hseen] at hb
      obtain hsame | hnone := hfol b
      · rw [hsame] at hheld
        exact hinv.seen b v hheld hb
      · exact absurd hnone hheld
  | other =>
    rw [he] at hfol hval hseen hcount
    refine ⟨by rw [hval, hcount]; exact hinv.value, fun b v hheld hb => ?_⟩
    rw [hval]
    rw [hseen] at hb
    rw [show M.held s'.state = M.held s.state from hfol] at hheld
    exact hinv.seen b v hheld hb

/-- No increment is lost. -/
theorem counter_eq (hf : M.FollowsWhen legal) (h0 : M.NoReservations s)
    (hl : Along M.observe (fun s o => legal s.state o ∧ M.Counts incr s o) ops (start s)) :
    Reaches M.observe (fun t : Observed σ ι L V => M.value t.state = incr^[t.count] (M.value s)) ops (start s) := by
  have hstart : CounterInv M incr (M.value s) (start s) := ⟨rfl, fun a _ hheld => absurd (h0 a) hheld⟩
  have hreach := @reaches_of_along _ _ _ M.observe (fun _ => True) _ (CounterInv M incr (M.value s))
    (fun t o t' _ hinv hg h => counterInv_step hf hinv hg.1 hg.2 h) ops (start s) (fun _ _ => trivial) hstart hl
  exact hreach.mono fun t h => h.value

/-! ## Together -/

/-- What reservations are for. `reports` says that an operation that returns reports its success and that a
failing conditional store changes no memory, and `disciplined` that it belongs to the increment of a counter, or
leaves the counter alone. -/
structure NoLostUpdates (M : Llsc σ α ε ι L V) (incr : V → V) (reports : σ → α → Prop)
    (disciplined : Observed σ ι L V → α → Prop) (ops : List α) (s : σ) : Prop where
  noneSince : Along M.observe M.NoneSince ops (start s)
  sameLocation : Along M.observe M.SameLocation ops (start s)
  reports : Along M.observe (fun s o => reports s.state o) ops (start s)
  counter : Along M.observe disciplined ops (start s) →
    Reaches M.observe (fun t : Observed σ ι L V => M.value t.state = incr^[t.count] (M.value s)) ops (start s)

theorem Along.of_forall {guard guard' : Observed σ ι L V → α → Prop} (hg : ∀ s o, guard s o → guard' s o) :
    ∀ {ops : List α} {s : Observed σ ι L V}, Along M.observe guard ops s → Along M.observe guard' ops s
  | [], _, _ => trivial
  | _ :: _, _, ⟨h, hrest⟩ => ⟨hg _ _ h, fun s' hs => Along.of_forall hg (hrest s' hs)⟩

/-- For a machine that follows the protocol, only the location of the conditional stores is left to check. -/
theorem noLostUpdates_iff {reports : σ → α → Prop} {disciplined : Observed σ ι L V → α → Prop}
    (hf : M.FollowsWhen legal) (hr : ∀ s o, legal s o → reports s o)
    (hd : ∀ s o, legal s.state o → disciplined s o → M.Counts incr s o) (h0 : M.NoReservations s)
    (hl : Along M.observe (fun s o => legal s.state o) ops (start s)) :
    NoLostUpdates M incr reports disciplined ops s ↔
      Along M.observe (fun s o => ∀ a l s', M.step s.state o = .ok s' → M.event s.state o = .store a l true →
        M.held s.state a = some l) ops (start s) := by
  rw [← sameLocation_iff hf h0 hl]
  refine ⟨fun h => h.sameLocation, fun h => ⟨noneSince hf h0 hl, h, Along.of_forall (fun s o => hr s.state o) hl, ?_⟩⟩
  intro hdisc
  exact counter_eq hf h0 (Along.of_forall (fun s o hg => ⟨hg.1, hd s o hg.1 hg.2⟩) (hl.and hdisc))

end Llsc

end Gxemul.Lib
