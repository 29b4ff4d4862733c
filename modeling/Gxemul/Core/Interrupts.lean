import Mathlib.Data.BitVec
import Mathlib.Data.List.GetD
import Gxemul.Lib.Run

/- The registry of interrupt handlers (`src/core/interrupt.c`).

   The handlers are in an array that is only made larger or smaller by
   interrupt_handler_register(). interrupt_handler_remove() closes the gap with memcpy(), which
   is given the number of the handlers behind the gap for the number of bytes. The array is
   that of a host with 64-bit pointers and little endian byte order. -/
namespace Gxemul.Interrupts

open Lib

abbrev Ptr := BitVec 64

/-- `struct interrupt`, with its padding. Functions are pointers. -/
structure Interrupt where
  interruptAssert : Ptr
  interruptDeassert : Ptr
  line : BitVec 32
  pad : BitVec 32
  extra : Ptr
  name : Ptr

/-- `struct interrupt_handler`. -/
structure InterruptHandler where
  templ : Interrupt
  nrOfExclusiveUsers : BitVec 32
  nrOfNonexclusiveUsers : BitVec 32

def InterruptHandler.bits (h : InterruptHandler) : BitVec 384 :=
  h.nrOfNonexclusiveUsers ++ h.nrOfExclusiveUsers ++ h.templ.name ++ h.templ.extra ++ h.templ.pad ++ h.templ.line ++
    h.templ.interruptDeassert ++ h.templ.interruptAssert

def InterruptHandler.ofBits (x : BitVec 384) : InterruptHandler where
  templ :=
    { interruptAssert := x.extractLsb' 0 64
      interruptDeassert := x.extractLsb' 64 64
      line := x.extractLsb' 128 32
      pad := x.extractLsb' 160 32
      extra := x.extractLsb' 192 64
      name := x.extractLsb' 256 64 }
  nrOfExclusiveUsers := x.extractLsb' 320 32
  nrOfNonexclusiveUsers := x.extractLsb' 352 32

inductive Stop where
  | exit
  | abort
  | undefined

/-- The array, which may be longer than the handlers that there are, and the strings that strdup() has made. -/
structure Registry where
  interruptHandlers : List InterruptHandler
  nrOfInterruptHandlers : Nat
  strings : Ptr → Option String

def Registry.start : Registry := ⟨[], 0, fun _ => none⟩

structure Template where
  interruptAssert : Ptr
  interruptDeassert : Ptr
  line : BitVec 32
  pad : BitVec 32
  extra : Ptr
  name : String

/-- What strdup() returns, and what is in the memory that realloc() adds. -/
structure Fresh where
  string : Ptr
  handler : InterruptHandler

namespace Registry
variable (s : Registry)

def handlers : List InterruptHandler := s.interruptHandlers.take s.nrOfInterruptHandlers

def findIn (strings : Ptr → Option String) (name : String) : List InterruptHandler → Except Stop (Option Nat)
  | [] => .ok none
  | h :: l =>
    match strings h.templ.name with
    | none => .error .undefined
    | some string => if name = string then .ok (some 0) else (fun i => i.map (· + 1)) <$> findIn strings name l

def find (name : String) : Except Stop (Option Nat) := findIn s.strings name s.handlers

def interruptHandlerRegister (templ : Template) (fresh : Fresh) : Except Stop Registry := do
  match ← s.find templ.name with
  | some _ => throw .exit
  | none =>
    let n := s.nrOfInterruptHandlers + 1
    if n = 2 ^ 31 then throw .undefined
    -- realloc() keeps what there is, as far as it fits
    let handler := s.interruptHandlers.getD s.nrOfInterruptHandlers fresh.handler
    let templ' : Interrupt :=
      ⟨templ.interruptAssert, templ.interruptDeassert, templ.line, templ.pad, templ.extra, fresh.string⟩
    return { interruptHandlers := s.handlers ++ [{ handler with templ := templ' }]
             nrOfInterruptHandlers := n
             strings := Function.update s.strings fresh.string (some templ.name) }

/-- `memcpy(&interrupt_handlers[i], &interrupt_handlers[i + 1], n)`. The two must not overlap. -/
def memcpyNext (i n : Nat) : Except Stop Registry :=
  match s.interruptHandlers[i]?, s.interruptHandlers[i + 1]? with
  | some dst, some src =>
    if n ≤ 48 then
      let low := BitVec.ofNat 384 (2 ^ (8 * n) - 1)
      let h := InterruptHandler.ofBits (src.bits &&& low ||| dst.bits &&& ~~~ low)
      .ok { s with interruptHandlers := s.interruptHandlers.set i h }
    else .error .undefined
  | _, _ => .error .undefined

def interruptHandlerRemove (name : String) : Except Stop Registry := do
  match ← s.find name with
  | none => throw .exit
  | some i =>
    match s.interruptHandlers[i]? with
    | none => throw .undefined
    | some h =>
      if 0 < h.nrOfExclusiveUsers.toInt ∨ 0 < h.nrOfNonexclusiveUsers.toInt then throw .exit
      let n := s.nrOfInterruptHandlers
      let s ← if i ≠ n - 1 then s.memcpyNext i (n - i - 1) else pure s
      return { s with nrOfInterruptHandlers := n - 1 }

def interruptHandlerLookup (name : String) : Except Stop Interrupt := do
  match ← s.find name with
  | none => throw .abort
  | some i =>
    match s.interruptHandlers[i]? with
    | none => throw .undefined
    | some h => return h.templ

/-- `x ++` and `x --` of an `int`. -/
def addInt (x : BitVec 32) (d : Int) : Except Stop (BitVec 32) :=
  if -(2 ^ 31) ≤ x.toInt + d ∧ x.toInt + d < 2 ^ 31 then .ok (x + BitVec.ofInt 32 d) else .error .undefined

def modify (name : String) (notFound : Stop) (f : InterruptHandler → Except Stop InterruptHandler) :
    Except Stop Registry := do
  match ← s.find name with
  | none => throw notFound
  | some i =>
    match s.interruptHandlers[i]? with
    | none => throw .undefined
    | some h =>
      let h ← f h
      return { s with interruptHandlers := s.interruptHandlers.set i h }

def interruptConnect (name : String) (exclusive : Bool) : Except Stop Registry :=
  if name = "" then .ok s
  else
    s.modify name .abort fun h => do
      if exclusive then
        let n ← addInt h.nrOfExclusiveUsers 1
        if 1 < n.toInt then throw .abort
        return { h with nrOfExclusiveUsers := n }
      else
        let n ← addInt h.nrOfNonexclusiveUsers 1
        return { h with nrOfNonexclusiveUsers := n }

def interruptDisconnect (name : String) (exclusive : Bool) : Except Stop Registry :=
  if name = "" then .ok s
  else
    s.modify name .exit fun h => do
      if exclusive then
        let n ← addInt h.nrOfExclusiveUsers (-1)
        if n.toInt < 0 then throw .exit
        return { h with nrOfExclusiveUsers := n }
      else
        let n ← addInt h.nrOfNonexclusiveUsers (-1)
        if n.toInt < 0 then throw .exit
        return { h with nrOfNonexclusiveUsers := n }

end Registry

/-! ## The finite map -/

/-- A registered name: its template, and connects minus disconnects since it has been registered. -/
structure Entry where
  templ : Template
  exclusive : Nat
  nonexclusive : Nat

abbrev NameMap := String → Option Entry

inductive Op where
  | register (templ : Template) (fresh : Fresh)
  | remove (name : String)
  | connect (name : String) (exclusive : Bool)
  | disconnect (name : String) (exclusive : Bool)

namespace NameMap
variable (f : NameMap)

def connect (e : Entry) (exclusive : Bool) : Entry :=
  if exclusive then { e with exclusive := e.exclusive + 1 } else { e with nonexclusive := e.nonexclusive + 1 }

def disconnect (e : Entry) (exclusive : Bool) : Entry :=
  if exclusive then { e with exclusive := e.exclusive - 1 } else { e with nonexclusive := e.nonexclusive - 1 }

def users (e : Entry) (exclusive : Bool) : Nat := if exclusive then e.exclusive else e.nonexclusive

/-- A call, if it may be made: names that are registered are fresh, those that are removed have no users, there is one
exclusive user at most, and a disconnect matches an earlier connect. -/
def step : Op → Except Unit NameMap
  | .register t _ => if f t.name = none then .ok (Function.update f t.name (some ⟨t, 0, 0⟩)) else .error ()
  | .remove name =>
    match f name with
    | none => .error ()
    | some e => if e.exclusive = 0 ∧ e.nonexclusive = 0 then .ok (Function.update f name none) else .error ()
  | .connect name exclusive =>
    match f name with
    | none => .error ()
    | some e =>
      if exclusive = true → e.exclusive = 0 then .ok (Function.update f name (some (connect e exclusive))) else .error ()
  | .disconnect name exclusive =>
    match f name with
    | none => .error ()
    | some e =>
      if 0 < users e exclusive then .ok (Function.update f name (some (disconnect e exclusive))) else .error ()

end NameMap

def Registry.step (s : Registry) : Op → Except Stop Registry
  | .register t fresh => s.interruptHandlerRegister t fresh
  | .remove name => s.interruptHandlerRemove name
  | .connect name exclusive => s.interruptConnect name exclusive
  | .disconnect name exclusive => s.interruptDisconnect name exclusive

/-! ## What the array stands for -/

structure Shows (strings : Ptr → Option String) (h : InterruptHandler) (e : Entry) : Prop where
  interruptAssert : h.templ.interruptAssert = e.templ.interruptAssert
  interruptDeassert : h.templ.interruptDeassert = e.templ.interruptDeassert
  line : h.templ.line = e.templ.line
  extra : h.templ.extra = e.templ.extra
  name : strings h.templ.name = some e.templ.name
  exclusive : h.nrOfExclusiveUsers.toInt = e.exclusive
  nonexclusive : h.nrOfNonexclusiveUsers.toInt = e.nonexclusive

structure Represents (s : Registry) (f : NameMap) : Prop where
  fits : s.nrOfInterruptHandlers ≤ s.interruptHandlers.length
  shown : ∀ (i : Nat) (h : InterruptHandler), s.handlers[i]? = some h → ∃ e, f e.templ.name = some e ∧ Shows s.strings h e
  found : ∀ name e, f name = some e → e.templ.name = name ∧
    ∃ (i : Nat) (h : InterruptHandler), s.handlers[i]? = some h ∧ Shows s.strings h e
  apart : ∀ (i j : Nat) (h h' : InterruptHandler), s.handlers[i]? = some h → s.handlers[j]? = some h' →
    s.strings h.templ.name = s.strings h'.templ.name → i = j
  /-- Users of an interrupt without a name are not counted. -/
  unnamed : ∀ e, f "" = some e → e.exclusive = 0 ∧ e.nonexclusive = 0
  /-- What is left of removed handlers has no users. -/
  spare : ∀ h ∈ s.interruptHandlers.drop s.nrOfInterruptHandlers,
    h.nrOfExclusiveUsers = 0#32 ∧ h.nrOfNonexclusiveUsers = 0#32

/-- What can be seen: lookups return the template that has been registered, whose handler has the users; names that
are not registered are not found. -/
def Agrees (s : Registry) (f : NameMap) : Prop :=
  ∀ name, match f name with
    | none => s.interruptHandlerLookup name = .error .abort
    | some e => ∃ (i : Nat) (h : InterruptHandler), s.find name = .ok (some i) ∧ s.handlers[i]? = some h ∧
        s.interruptHandlerLookup name = .ok h.templ ∧ Shows s.strings h e

namespace Registry
variable {s : Registry} {f : NameMap} {name : String} {e : Entry}

theorem findIn_spec (name : String) {strings : Ptr → Option String} {l : List InterruptHandler}
    (hall : ∀ h ∈ l, ∃ string, strings h.templ.name = some string) :
    (∃ i h, findIn strings name l = .ok (some i) ∧ l[i]? = some h ∧ strings h.templ.name = some name) ∨
      (findIn strings name l = .ok none ∧ ∀ h ∈ l, strings h.templ.name ≠ some name) := by
  induction l with
  | nil => exact .inr ⟨rfl, fun h hmem => by cases hmem⟩
  | cons h l ih =>
    obtain ⟨string, hstring⟩ := hall h List.mem_cons_self
    unfold findIn
    rw [hstring]
    dsimp only
    by_cases hname : name = string
    · rw [if_pos hname]
      exact .inl ⟨0, h, rfl, rfl, hname ▸ hstring⟩
    · rw [if_neg hname]
      rcases ih fun h' hmem => hall h' (List.mem_cons_of_mem _ hmem) with ⟨i, h', hfind, hget, hname'⟩ | ⟨hfind, hnone⟩
      · exact .inl ⟨i + 1, h', by rw [hfind]; rfl, hget, hname'⟩
      · refine .inr ⟨by rw [hfind]; rfl, fun h' hmem heq => ?_⟩
        rcases List.mem_cons.mp hmem with rfl | hmem
        · exact hname (Option.some.inj (heq.symm.trans hstring))
        · exact hnone h' hmem heq

theorem find_cases (hr : Represents s f) (name : String) :
    (∃ i h e, s.find name = .ok (some i) ∧ s.handlers[i]? = some h ∧ f name = some e ∧ Shows s.strings h e) ∨
      (s.find name = .ok none ∧ f name = none) := by
  have hall : ∀ h ∈ s.handlers, ∃ string, s.strings h.templ.name = some string := by
    intro h hmem
    obtain ⟨i, hi⟩ := List.mem_iff_getElem?.mp hmem
    obtain ⟨e, -, hshows⟩ := hr.shown i h hi
    exact ⟨_, hshows.name⟩
  rcases findIn_spec name hall with ⟨i, h, hfind, hget, hname⟩ | ⟨hfind, hnone⟩
  · obtain ⟨e, he, hshows⟩ := hr.shown i h hget
    have hsame : e.templ.name = name := Option.some.inj (hshows.name.symm.trans hname)
    exact .inl ⟨i, h, e, hfind, hget, hsame ▸ he, hshows⟩
  · refine .inr ⟨hfind, ?_⟩
    cases he : f name with
    | none => rfl
    | some e =>
      obtain ⟨hsame, i, h, hget, hshows⟩ := hr.found name e he
      exact absurd (hsame ▸ hshows.name) (hnone h (List.mem_of_getElem? hget))

theorem find_some (hr : Represents s f) (he : f name = some e) :
    ∃ i h, s.find name = .ok (some i) ∧ s.handlers[i]? = some h ∧ Shows s.strings h e := by
  rcases find_cases hr name with ⟨i, h, e', hfind, hget, he', hshows⟩ | ⟨-, hnone⟩
  · cases he.symm.trans he'
    exact ⟨i, h, hfind, hget, hshows⟩
  · cases he.symm.trans hnone

theorem find_none (hr : Represents s f) (he : f name = none) : s.find name = .ok none := by
  rcases find_cases hr name with ⟨i, h, e', -, -, he', -⟩ | ⟨hfind, -⟩
  · cases he.symm.trans he'
  · exact hfind

theorem getElem?_of_handlers {i : Nat} {h : InterruptHandler} (hget : s.handlers[i]? = some h) :
    i < s.nrOfInterruptHandlers ∧ s.interruptHandlers[i]? = some h := by
  unfold handlers at hget
  rw [List.getElem?_take] at hget
  split at hget
  · exact ⟨‹_›, hget⟩
  · cases hget

theorem represents_start : Represents .start fun _ => none where
  fits := Nat.le_refl 0
  shown := by
    intro i h hget
    cases hget
  found := by
    intro name e he
    cases he
  apart := by
    intro i j h h' hget
    cases hget
  unnamed := by
    intro e he
    cases he
  spare := by
    intro h hmem
    cases hmem

theorem agrees_of_represents (hr : Represents s f) : Agrees s f := by
  intro name
  cases he : f name with
  | none =>
    unfold interruptHandlerLookup
    rw [find_none hr he]
    rfl
  | some e =>
    obtain ⟨i, h, hfind, hget, hshows⟩ := find_some hr he
    refine ⟨i, h, hfind, hget, ?_, hshows⟩
    unfold interruptHandlerLookup
    simp only [hfind, (getElem?_of_handlers hget).2, bind, Except.bind]
    rfl

/-! ## Steps -/

theorem length_handlers (hr : Represents s f) : s.handlers.length = s.nrOfInterruptHandlers := by
  unfold handlers
  rw [List.length_take]
  exact Nat.min_eq_left hr.fits

theorem Shows.zero {strings : Ptr → Option String} {h : InterruptHandler} (hshows : Shows strings h e) (h0 : e.exclusive = 0)
    (h1 : e.nonexclusive = 0) : h.nrOfExclusiveUsers = 0#32 ∧ h.nrOfNonexclusiveUsers = 0#32 := by
  have hx := hshows.exclusive
  have hn := hshows.nonexclusive
  rw [h0] at hx
  rw [h1] at hn
  exact ⟨BitVec.eq_of_toInt_eq (hx.trans BitVec.toInt_zero.symm), BitVec.eq_of_toInt_eq (hn.trans BitVec.toInt_zero.symm)⟩

theorem represents_register {t : Template} {fresh : Fresh} (hr : Represents s f) (hfresh : f t.name = none)
    (hstring : s.strings fresh.string = none) (hmax : s.nrOfInterruptHandlers + 1 ≠ 2 ^ 31)
    (hzero : s.interruptHandlers.length = s.nrOfInterruptHandlers →
      fresh.handler.nrOfExclusiveUsers = 0#32 ∧ fresh.handler.nrOfNonexclusiveUsers = 0#32) :
    ∃ s', s.interruptHandlerRegister t fresh = .ok s' ∧
      Represents s' (Function.update f t.name (some ⟨t, 0, 0⟩)) := by
  let old := s.interruptHandlers.getD s.nrOfInterruptHandlers fresh.handler
  let templ : Interrupt := ⟨t.interruptAssert, t.interruptDeassert, t.line, t.pad, t.extra, fresh.string⟩
  let h : InterruptHandler := { old with templ := templ }
  let strings := Function.update s.strings fresh.string (some t.name)
  have hlen := length_handlers hr
  have hcounters : old.nrOfExclusiveUsers = 0#32 ∧ old.nrOfNonexclusiveUsers = 0#32 := by
    by_cases hend : s.interruptHandlers.length = s.nrOfInterruptHandlers
    · have hold : old = fresh.handler := List.getD_eq_default _ _ (Nat.le_of_eq hend)
      rw [hold]
      exact hzero hend
    · have hlt : s.nrOfInterruptHandlers < s.interruptHandlers.length := Nat.lt_of_le_of_ne hr.fits (Ne.symm hend)
      have hold : old = s.interruptHandlers[s.nrOfInterruptHandlers] := List.getD_eq_getElem _ _ hlt
      apply hr.spare
      rw [hold]
      exact List.mem_drop_iff_getElem.mpr ⟨0, by omega, rfl⟩
  have hnew : Shows strings h ⟨t, 0, 0⟩ := by
    refine ⟨rfl, rfl, rfl, rfl, Function.update_self .., ?_, ?_⟩
    · exact congrArg BitVec.toInt hcounters.1
    · exact congrArg BitVec.toInt hcounters.2
  -- The strings of the other handlers are where they have been.
  have hkept (h : InterruptHandler) (e : Entry) (hshows : Shows s.strings h e) : Shows strings h e := by
    have hdiff : h.templ.name ≠ fresh.string := by
      intro heq
      have hname := hshows.name
      rw [heq, hstring] at hname
      cases hname
    exact { hshows with name := (Function.update_of_ne hdiff ..).trans hshows.name }
  have hother (name : String) (e : Entry) (he : f name = some e) : name ≠ t.name := by
    rintro rfl
    cases he.symm.trans hfresh
  refine ⟨⟨s.handlers ++ [h], s.nrOfInterruptHandlers + 1, strings⟩, ?_, ?_⟩
  · unfold interruptHandlerRegister
    simp only [find_none hr hfresh, bind, Except.bind, if_neg hmax]
    rfl
  have hhandlers : (⟨s.handlers ++ [h], s.nrOfInterruptHandlers + 1, strings⟩ : Registry).handlers = s.handlers ++ [h] := by
    apply List.take_of_length_le
    rw [List.length_append]
    exact Nat.le_of_eq (congrArg (· + 1) hlen)
  have hget (i : Nat) (h' : InterruptHandler) (hi : (s.handlers ++ [h])[i]? = some h') :
      (i < s.nrOfInterruptHandlers ∧ s.handlers[i]? = some h') ∨ (i = s.nrOfInterruptHandlers ∧ h' = h) := by
    rw [List.getElem?_append] at hi
    split at hi
    · exact .inl ⟨by omega, hi⟩
    · rw [List.getElem?_singleton] at hi
      split at hi
      · exact .inr ⟨by omega, (Option.some.inj hi).symm⟩
      · cases hi
  refine ⟨?_, fun i h' hi => ?_, fun name e he => ?_, fun i j h1 h2 hi hj hsame => ?_, fun e he => ?_,
    fun h' hmem => ?_⟩
  · rw [List.length_append]
    exact Nat.le_of_eq (congrArg (· + 1) hlen.symm)
  · rw [hhandlers] at hi
    rcases hget i h' hi with ⟨-, hi⟩ | ⟨-, rfl⟩
    · obtain ⟨e, he, hshows⟩ := hr.shown i h' hi
      exact ⟨e, (Function.update_of_ne (hother _ e he) ..).trans he, hkept h' e hshows⟩
    · exact ⟨⟨t, 0, 0⟩, Function.update_self .., hnew⟩
  · rw [hhandlers]
    by_cases hname : name = t.name
    · rw [hname, Function.update_self] at he
      cases he
      refine ⟨hname.symm, s.nrOfInterruptHandlers, h, ?_, hnew⟩
      rw [← hlen]
      exact List.getElem?_concat_length
    · rw [Function.update_of_ne hname] at he
      obtain ⟨hsame, i, h', hi, hshows⟩ := hr.found name e he
      refine ⟨hsame, i, h', ?_, hkept h' e hshows⟩
      rw [List.getElem?_append_left (List.getElem?_eq_some_iff.mp hi).1]
      exact hi
  · rw [hhandlers] at hi hj
    have hdiff (k : Nat) (h' : InterruptHandler) (hk : s.handlers[k]? = some h') :
        strings h'.templ.name ≠ strings h.templ.name := by
      obtain ⟨e, he, hshows⟩ := hr.shown k h' hk
      rw [(hkept h' e hshows).name, hnew.name]
      exact fun heq => hother _ e he (Option.some.inj heq)
    rcases hget i h1 hi with ⟨-, hi⟩ | ⟨rfl, rfl⟩
    · rcases hget j h2 hj with ⟨-, hj⟩ | ⟨rfl, rfl⟩
      · obtain ⟨e1, -, hshows1⟩ := hr.shown i h1 hi
        obtain ⟨e2, -, hshows2⟩ := hr.shown j h2 hj
        apply hr.apart i j h1 h2 hi hj
        rw [hshows1.name, hshows2.name, ← (hkept h1 e1 hshows1).name, ← (hkept h2 e2 hshows2).name]
        exact hsame
      · exact absurd hsame (hdiff i h1 hi)
    · rcases hget j h2 hj with ⟨-, hj⟩ | ⟨rfl, rfl⟩
      · exact absurd hsame.symm (hdiff j h2 hj)
      · rfl
  · by_cases hempty : "" = t.name
    · rw [hempty, Function.update_self] at he
      cases he
      exact ⟨rfl, rfl⟩
    · rw [Function.update_of_ne hempty] at he
      exact hr.unnamed e he
  · rw [List.drop_of_length_le (by rw [List.length_append]; exact Nat.le_of_eq (congrArg (· + 1) hlen))] at hmem
    cases hmem

theorem represents_remove (hr : Represents s f) (he : f name = some e) (h0 : e.exclusive = 0) (h1 : e.nonexclusive = 0)
    {h : InterruptHandler} (hlast : s.handlers[s.nrOfInterruptHandlers - 1]? = some h)
    (hname : s.strings h.templ.name = some name) :
    ∃ s', s.interruptHandlerRemove name = .ok s' ∧ Represents s' (Function.update f name none) := by
  obtain ⟨i, h', hfind, hget, hshows⟩ := find_some hr he
  have hsame : e.templ.name = name := (hr.found name e he).1
  have hi : i = s.nrOfInterruptHandlers - 1 := by
    apply hr.apart i _ h' h hget hlast
    rw [hshows.name, hname, hsame]
  cases hi
  cases hget.symm.trans hlast
  obtain ⟨hlt, harray⟩ := getElem?_of_handlers hget
  obtain ⟨hx, hn⟩ := Shows.zero hshows h0 h1
  have husers : ¬ (0 < h.nrOfExclusiveUsers.toInt ∨ 0 < h.nrOfNonexclusiveUsers.toInt) := by
    rw [hx, hn]
    decide
  have hhandlers (k : Nat) (h' : InterruptHandler)
      (hk : ({ s with nrOfInterruptHandlers := s.nrOfInterruptHandlers - 1 } : Registry).handlers[k]? = some h') :
      k < s.nrOfInterruptHandlers - 1 ∧ s.handlers[k]? = some h' := by
    obtain ⟨hklt, hk⟩ := getElem?_of_handlers hk
    refine ⟨hklt, ?_⟩
    unfold handlers
    rw [List.getElem?_take, if_pos (show k < s.nrOfInterruptHandlers from by dsimp only at hklt; omega)]
    exact hk
  refine ⟨{ s with nrOfInterruptHandlers := s.nrOfInterruptHandlers - 1 }, ?_, ?_⟩
  · unfold interruptHandlerRemove
    simp only [hfind, harray, bind, Except.bind, if_neg husers, ne_eq, not_true_eq_false, if_false]
    rfl
  refine ⟨?_, fun k h' hk => ?_, fun name' e' he' => ?_, fun i j h1 h2 hi hj => ?_, fun e' he' => ?_,
    fun h' hmem => ?_⟩
  · exact Nat.le_trans (Nat.sub_le _ _) hr.fits
  · obtain ⟨hklt, hk⟩ := hhandlers k h' hk
    obtain ⟨e', he', hshows'⟩ := hr.shown k h' hk
    refine ⟨e', ?_, hshows'⟩
    have hdiff : e'.templ.name ≠ name := by
      intro heq
      have hk' : k = s.nrOfInterruptHandlers - 1 := by
        apply hr.apart k _ h' h hk hlast
        rw [hshows'.name, hname, heq]
      omega
    exact (Function.update_of_ne hdiff ..).trans he'
  · have hdiff : name' ≠ name := by
      rintro rfl
      rw [Function.update_self] at he'
      cases he'
    rw [Function.update_of_ne hdiff] at he'
    obtain ⟨hsame', k, h', hk, hshows'⟩ := hr.found name' e' he'
    refine ⟨hsame', k, h', ?_, hshows'⟩
    have hk' : k ≠ s.nrOfInterruptHandlers - 1 := by
      rintro rfl
      cases hk.symm.trans hlast
      exact hdiff (hsame'.symm.trans (Option.some.inj (hshows'.name.symm.trans hname)))
    obtain ⟨hklt, hk⟩ := getElem?_of_handlers hk
    unfold handlers
    dsimp only
    rw [List.getElem?_take, if_pos (by omega)]
    exact hk
  · exact hr.apart i j h1 h2 (hhandlers i h1 hi).2 (hhandlers j h2 hj).2
  · by_cases hempty : "" = name
    · rw [hempty, Function.update_self] at he'
      cases he'
    · rw [Function.update_of_ne hempty] at he'
      exact hr.unnamed e' he'
  · obtain ⟨hlt', heq⟩ := List.getElem?_eq_some_iff.mp harray
    have hdrop : s.interruptHandlers.drop (s.nrOfInterruptHandlers - 1) =
        h :: s.interruptHandlers.drop s.nrOfInterruptHandlers := by
      rw [List.drop_eq_getElem_cons hlt', heq]
      congr 2
      omega
    rw [hdrop] at hmem
    rcases List.mem_cons.mp hmem with rfl | hmem
    · exact ⟨hx, hn⟩
    · exact hr.spare h' hmem

theorem represents_modify {e' : Entry} {notFound : Stop} {g : InterruptHandler → Except Stop InterruptHandler}
    (hr : Represents s f) (he : f name = some e) (hne : name ≠ "") (htempl : e'.templ = e.templ)
    (hg : ∀ h, Shows s.strings h e → ∃ h', g h = .ok h' ∧ h'.templ = h.templ ∧ Shows s.strings h' e') :
    ∃ s', s.modify name notFound g = .ok s' ∧ Represents s' (Function.update f name (some e')) := by
  obtain ⟨i, h, hfind, hget, hshows⟩ := find_some hr he
  obtain ⟨hlt, harray⟩ := getElem?_of_handlers hget
  obtain ⟨h', hh', hsame, hshows'⟩ := hg h hshows
  have hname : e.templ.name = name := (hr.found name e he).1
  have hhandlers : ({ s with interruptHandlers := s.interruptHandlers.set i h' } : Registry).handlers =
      s.handlers.set i h' := List.take_set ..
  have hself : (s.handlers.set i h')[i]? = some h' := by
    rw [List.getElem?_set_self (List.getElem?_eq_some_iff.mp hget).1]
  -- The names in the array are what they have been.
  have hold (k : Nat) (h1 : InterruptHandler) (hk : (s.handlers.set i h')[k]? = some h1) :
      ∃ h2, s.handlers[k]? = some h2 ∧ h1.templ = h2.templ ∧ (i ≠ k → h1 = h2) := by
    by_cases hik : i = k
    · cases hik
      cases hself.symm.trans hk
      exact ⟨h, hget, hsame, fun hdiff => absurd rfl hdiff⟩
    · rw [List.getElem?_set_ne hik] at hk
      exact ⟨h1, hk, rfl, fun _ => rfl⟩
  refine ⟨{ s with interruptHandlers := s.interruptHandlers.set i h' }, ?_, ?_⟩
  · unfold modify
    simp only [hfind, harray, hh', bind, Except.bind]
    rfl
  refine ⟨?_, fun k h1 hk => ?_, fun name1 e1 he1 => ?_, fun k l h1 h2 hk hl hnames => ?_, fun e1 he1 => ?_,
    fun h1 hmem => ?_⟩
  · rw [List.length_set]
    exact hr.fits
  · rw [hhandlers] at hk
    by_cases hik : i = k
    · cases hik
      cases hself.symm.trans hk
      exact ⟨e', by rw [htempl, hname, Function.update_self], hshows'⟩
    · rw [List.getElem?_set_ne hik] at hk
      obtain ⟨e1, he1, hshows1⟩ := hr.shown k h1 hk
      refine ⟨e1, ?_, hshows1⟩
      have hdiff : e1.templ.name ≠ name := by
        intro heq
        apply hik
        apply hr.apart i k h h1 hget hk
        rw [hshows.name, hshows1.name, hname, heq]
      exact (Function.update_of_ne hdiff ..).trans he1
  · rw [hhandlers]
    by_cases hsame1 : name1 = name
    · rw [hsame1, Function.update_self] at he1
      cases he1
      exact ⟨by rw [htempl, hname, hsame1], i, h', hself, hshows'⟩
    · rw [Function.update_of_ne hsame1] at he1
      obtain ⟨hname1, k, h1, hk, hshows1⟩ := hr.found name1 e1 he1
      refine ⟨hname1, k, h1, ?_, hshows1⟩
      have hik : i ≠ k := by
        rintro rfl
        cases hget.symm.trans hk
        apply hsame1
        rw [← hname1, ← hname]
        exact Option.some.inj (hshows1.name.symm.trans hshows.name)
      rw [List.getElem?_set_ne hik]
      exact hk
  · rw [hhandlers] at hk hl
    obtain ⟨h3, hk, hk', -⟩ := hold k h1 hk
    obtain ⟨h4, hl, hl', -⟩ := hold l h2 hl
    apply hr.apart k l h3 h4 hk hl
    rw [← hk', ← hl']
    exact hnames
  · rw [Function.update_of_ne (Ne.symm hne)] at he1
    exact hr.unnamed e1 he1
  · rw [List.drop_set_of_lt hlt] at hmem
    exact hr.spare h1 hmem

theorem addInt_eq {x : BitVec 32} {d : Int} (hlow : -(2 ^ 31) ≤ x.toInt + d) (hhigh : x.toInt + d < 2 ^ 31) :
    ∃ y, addInt x d = .ok y ∧ y.toInt = x.toInt + d := by
  refine ⟨x + BitVec.ofInt 32 d, if_pos ⟨hlow, hhigh⟩, ?_⟩
  have h32 : ((2 ^ 32 : Nat) : Int) = 4294967296 := rfl
  rw [BitVec.toInt_add, BitVec.toInt_ofInt, Int.add_bmod_bmod]
  apply Int.bmod_eq_of_le
  · rw [h32]
    omega
  · rw [h32]
    omega

theorem represents_connect {exclusive : Bool} (hr : Represents s f) (he : f name = some e) (hne : name ≠ "")
    (hone : exclusive = true → e.exclusive = 0) (hmax : exclusive = false → e.nonexclusive + 1 < 2 ^ 31) :
    ∃ s', s.interruptConnect name exclusive = .ok s' ∧
      Represents s' (Function.update f name (some (NameMap.connect e exclusive))) := by
  unfold interruptConnect
  rw [if_neg hne]
  cases exclusive with
  | true =>
    have h0 := hone rfl
    have htempl : (NameMap.connect e true).templ = e.templ := rfl
    apply represents_modify hr he hne htempl
    intro h hshows
    have hx := hshows.exclusive
    rw [h0] at hx
    obtain ⟨n, hn, hint⟩ := addInt_eq (x := h.nrOfExclusiveUsers) (d := 1) (by omega) (by omega)
    refine ⟨{ h with nrOfExclusiveUsers := n }, ?_, rfl, { hshows with exclusive := ?_ }⟩
    · have hle : ¬ 1 < n.toInt := by omega
      simp only [if_true, hn, bind, Except.bind, if_neg hle]
      rfl
    · change n.toInt = ((e.exclusive + 1 : Nat) : Int)
      omega
  | false =>
    have hlt := hmax rfl
    have htempl : (NameMap.connect e false).templ = e.templ := rfl
    apply represents_modify hr he hne htempl
    intro h hshows
    have hx := hshows.nonexclusive
    obtain ⟨n, hn, hint⟩ := addInt_eq (x := h.nrOfNonexclusiveUsers) (d := 1) (by omega) (by omega)
    refine ⟨{ h with nrOfNonexclusiveUsers := n }, ?_, rfl, { hshows with nonexclusive := ?_ }⟩
    · simp only [Bool.false_eq_true, if_false, hn, bind, Except.bind]
      rfl
    · change n.toInt = ((e.nonexclusive + 1 : Nat) : Int)
      omega

theorem represents_disconnect {exclusive : Bool} (hr : Represents s f) (he : f name = some e)
    (hpos : 0 < NameMap.users e exclusive) :
    ∃ s', s.interruptDisconnect name exclusive = .ok s' ∧
      Represents s' (Function.update f name (some (NameMap.disconnect e exclusive))) := by
  have hne : name ≠ "" := by
    rintro rfl
    obtain ⟨h0, h1⟩ := hr.unnamed e he
    unfold NameMap.users at hpos
    split at hpos
    · omega
    · omega
  unfold interruptDisconnect
  rw [if_neg hne]
  cases exclusive with
  | true =>
    have hpos' : 0 < e.exclusive := hpos
    have htempl : (NameMap.disconnect e true).templ = e.templ := rfl
    apply represents_modify hr he hne htempl
    intro h hshows
    have hx := hshows.exclusive
    have hlt := BitVec.toInt_lt (x := h.nrOfExclusiveUsers)
    obtain ⟨n, hn, hint⟩ := addInt_eq (x := h.nrOfExclusiveUsers) (d := -1) (by omega) (by omega)
    refine ⟨{ h with nrOfExclusiveUsers := n }, ?_, rfl, { hshows with exclusive := ?_ }⟩
    · have hle : ¬ n.toInt < 0 := by omega
      simp only [if_true, hn, bind, Except.bind, if_neg hle]
      rfl
    · change n.toInt = ((e.exclusive - 1 : Nat) : Int)
      omega
  | false =>
    have hpos' : 0 < e.nonexclusive := hpos
    have htempl : (NameMap.disconnect e false).templ = e.templ := rfl
    apply represents_modify hr he hne htempl
    intro h hshows
    have hx := hshows.nonexclusive
    have hlt := BitVec.toInt_lt (x := h.nrOfNonexclusiveUsers)
    obtain ⟨n, hn, hint⟩ := addInt_eq (x := h.nrOfNonexclusiveUsers) (d := -1) (by omega) (by omega)
    refine ⟨{ h with nrOfNonexclusiveUsers := n }, ?_, rfl, { hshows with nonexclusive := ?_ }⟩
    · have hle : ¬ n.toInt < 0 := by omega
      simp only [Bool.false_eq_true, if_false, hn, bind, Except.bind, if_neg hle]
      rfl
    · change n.toInt = ((e.nonexclusive - 1 : Nat) : Int)
      omega

end Registry

/-! ## Runs -/

/-- strdup() returns memory that is not in use. -/
def Allocates (s : Registry) : Op → Prop
  | .register _ fresh => s.strings fresh.string = none
  | _ => True

/-- Only the last handler of the array is removed, what realloc() adds to the array is zero where the users are
counted, there is a name where users are counted, and the numbers are those that an `int` holds. -/
def Meets (s : Registry) : Op → Prop
  | .register _ fresh =>
    s.nrOfInterruptHandlers + 1 ≠ 2 ^ 31 ∧
      (s.interruptHandlers.length = s.nrOfInterruptHandlers →
        fresh.handler.nrOfExclusiveUsers = 0#32 ∧ fresh.handler.nrOfNonexclusiveUsers = 0#32)
  | .remove name =>
    ∃ h, s.handlers[s.nrOfInterruptHandlers - 1]? = some h ∧ s.strings h.templ.name = some name
  | .connect name exclusive =>
    name ≠ "" ∧ (exclusive = false → ∀ h ∈ s.handlers, s.strings h.templ.name = some name →
      h.nrOfNonexclusiveUsers.toInt + 1 < 2 ^ 31)
  | .disconnect _ _ => True

theorem represents_step {s : Registry} {f f' : NameMap} {o : Op} (hr : Represents s f)
    (hguard : Allocates s o ∧ Meets s o) (hstep : NameMap.step f o = .ok f') :
    ∃ s', Registry.step s o = .ok s' ∧ Represents s' f' := by
  obtain ⟨halloc, hmeets⟩ := hguard
  cases o with
  | register t fresh =>
    dsimp only [NameMap.step] at hstep
    split at hstep
    · cases hstep
      exact Registry.represents_register hr ‹_› halloc hmeets.1 hmeets.2
    · cases hstep
  | remove name =>
    dsimp only [NameMap.step] at hstep
    split at hstep
    · cases hstep
    · split at hstep
      · rename_i e he hzero
        cases hstep
        obtain ⟨h, hlast, hname⟩ := hmeets
        exact Registry.represents_remove hr he hzero.1 hzero.2 hlast hname
      · cases hstep
  | connect name exclusive =>
    dsimp only [NameMap.step] at hstep
    split at hstep
    · cases hstep
    · split at hstep
      · rename_i e he hone
        cases hstep
        refine Registry.represents_connect hr he hmeets.1 hone fun hex => ?_
        obtain ⟨i, h, -, hget, hshows⟩ := Registry.find_some hr he
        have hlt := hmeets.2 hex h (List.mem_of_getElem? hget) (by rw [hshows.name, (hr.found name e he).1])
        have hn := hshows.nonexclusive
        omega
      · cases hstep
  | disconnect name exclusive =>
    dsimp only [NameMap.step] at hstep
    split at hstep
    · cases hstep
    · split at hstep
      · rename_i e he hpos
        cases hstep
        exact Registry.represents_disconnect hr he hpos
      · cases hstep

/-- After any calls that meet the condition, the registry is the map. -/
theorem registry_correct (ops : List Op) (f : NameMap)
    (hrun : Lib.runOps NameMap.step ops (fun _ => none) = .ok f)
    (halong : Lib.Along Registry.step (fun s o => Allocates s o ∧ Meets s o) ops .start) :
    ∃ s, Lib.runOps Registry.step ops .start = .ok s ∧ Agrees s f := by
  obtain ⟨s, hs, hr⟩ := runOps_sim_along (fun s f o f' => represents_step) Registry.represents_start halong hrun
  exact ⟨s, hs, Registry.agrees_of_represents hr⟩

def removeLast : List Op :=
  [.register ⟨0, 0, 0, 0, 0, "a"⟩ ⟨1, ⟨⟨0, 0, 0, 0, 0, 0⟩, 0, 0⟩⟩,
    .register ⟨0, 0, 0, 0, 0, "b"⟩ ⟨2, ⟨⟨0, 0, 0, 0, 0, 0⟩, 0, 0⟩⟩, .connect "b" true, .disconnect "b" true, .remove "b"]

theorem removeLast_correct :
    ∃ s f, Lib.runOps Registry.step removeLast .start = .ok s ∧ Agrees s f ∧ (f "a").isSome ∧ f "b" = none := by
  obtain ⟨f, hf, hab⟩ := runOps_eval NameMap.step removeLast (fun _ => none)
    (fun f => ((f "a").isSome, (f "b").isNone)) (true, true) (by decide +kernel)
  have halong : Lib.Along Registry.step (fun s o => Allocates s o ∧ Meets s o) removeLast .start := by
    refine ⟨⟨rfl, by decide, fun _ => ⟨rfl, rfl⟩⟩, fun s1 hs1 => ?_⟩
    cases hs1
    refine ⟨⟨rfl, by decide, fun _ => ⟨rfl, rfl⟩⟩, fun s2 hs2 => ?_⟩
    cases hs2
    refine ⟨⟨trivial, by decide, fun hex => by cases hex⟩, fun s3 hs3 => ?_⟩
    cases hs3
    refine ⟨⟨trivial, trivial⟩, fun s4 hs4 => ?_⟩
    cases hs4
    exact ⟨⟨trivial, ⟨⟨0, 0, 0, 0, 0, 2⟩, 0, 0⟩, rfl, rfl⟩, fun _ _ => trivial⟩
  obtain ⟨s, hs, hagrees⟩ := registry_correct removeLast f hf halong
  obtain ⟨ha, hb⟩ := Prod.mk.inj hab
  exact ⟨s, f, hs, hagrees, ha, Option.isNone_iff_eq_none.mp hb⟩

def Correct (guard : Registry → Op → Prop) : Prop :=
  ∀ (ops : List Op) (f : NameMap), Lib.runOps NameMap.step ops (fun _ => none) = .ok f →
    Lib.Along Registry.step guard ops .start → ∃ s, Lib.runOps Registry.step ops .start = .ok s ∧ Agrees s f

/-- Of two handlers, the first is removed. The second is no longer found. -/
def removeFirst : List Op :=
  [.register ⟨0, 0, 0, 0, 0, "a"⟩ ⟨1, ⟨⟨0, 0, 0, 0, 0, 0⟩, 0, 0⟩⟩,
    .register ⟨0, 0, 0, 0, 0, "b"⟩ ⟨2, ⟨⟨0, 0, 0, 0, 0, 0⟩, 0, 0⟩⟩, .remove "a"]

theorem not_registry_correct : ¬ Correct Allocates := by
  intro h
  obtain ⟨f, hf, hb⟩ := runOps_eval NameMap.step removeFirst (fun _ => none) (fun f => (f "b").isSome) true
    (by decide +kernel)
  obtain ⟨s, hs, hnone⟩ := runOps_eval Registry.step removeFirst .start (fun s => (s.find "b").toOption) (some none)
    (by decide +kernel)
  have halong : Lib.Along Registry.step Allocates removeFirst .start := by
    refine ⟨rfl, fun s1 hs1 => ?_⟩
    cases hs1
    refine ⟨rfl, fun s2 hs2 => ?_⟩
    exact ⟨trivial, fun _ _ => trivial⟩
  obtain ⟨s', hs', hagrees⟩ := h removeFirst f hf halong
  cases hs.symm.trans hs'
  have hb' := hagrees "b"
  cases he : f "b" with
  | none =>
    rw [he] at hb
    cases hb
  | some e =>
    rw [he] at hb'
    obtain ⟨i, h, hfind, -⟩ := hb'
    rw [hfind] at hnone
    cases hnone

end Gxemul.Interrupts
