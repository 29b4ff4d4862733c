import Gxemul.Lib.Bytes
import Gxemul.Lib.Queue
import Gxemul.Lib.Run

/- Input of a console. Characters come from the host, through reads of a descriptor,
   and from `makeavail`; they wait in a ring of 4096 slots until `readchar` takes
   them. A ring that gets full looks empty, and makeavail warns of it. charavail
   reads from the host only while more than one whole read fits in.

   `log` is history: what arrived at the descriptor, what was read from it, what was
   made available and what was returned, in order. No function looks at it. The ring
   holds what was accepted and not yet returned (`Consistent`) for as long as there
   was no warning, and charavail never causes one (`console_delivery`). -/
namespace Gxemul.Console

open Lib

def fifoLen : Nat := 4096

def readLen : Nat := 100

inductive UsingXterm
  | notUsingXterm
  | usingXtermButNotYetOpen
  | usingXterm
  deriving DecidableEq

structure Config where
  allowSlaves : Bool
  inUseForInput : Bool
  usingXterm : UsingXterm

inductive Event
  | arrived (bytes : List Byte)
  | read (bytes : List Byte)
  | made (ch : Byte)
  | returned (ch : Byte)

structure Handle where
  fifo : Queue Byte
  /-- What can be read from the descriptor. -/
  waiting : List Byte
  /-- The number of overrun warnings. -/
  warnings : Nat
  log : List Event

/-- One turn of the loop in charavail, as the host sees it: what has arrived at the
descriptor by then, and how much of it a read gives. -/
structure Turn where
  arrived : List Byte
  size : Nat

namespace Handle

def new : Handle where
  fifo := { slots := fun _ => 0, head := 0, tail := 0 }
  waiting := []
  warnings := 0
  log := []

section
variable (cfg : Config) (h : Handle)

def makeavail (ch : Byte) : Handle :=
  let head := (h.fifo.head + 1) % fifoLen
  { h with
    fifo := { slots := Function.update h.fifo.slots h.fifo.head ch, head := head, tail := h.fifo.tail }
    warnings := if head = h.fifo.tail then h.warnings + 1 else h.warnings }

def stdinAvail : Bool :=
  if !cfg.inUseForInput then false
  else if !cfg.allowSlaves then !h.waiting.isEmpty
  else if cfg.usingXterm = .usingXtermButNotYetOpen then false
  else !h.waiting.isEmpty

def roomLeftInFifo : Int :=
  let room := (h.fifo.tail : Int) - h.fifo.head
  if room ≤ 0 then room + fifoLen else room

def convert (ch : Byte) : Byte := if !cfg.allowSlaves && ch == 2 then 3 else ch

def arrive (bytes : List Byte) : Handle :=
  { h with waiting := h.waiting ++ bytes, log := h.log ++ [.arrived bytes] }

/-- A read, and what the loop in charavail does with its bytes. It gives at least one
byte, and at most as many as there are or fit into the buffer. -/
def readStdin (size : Nat) : Handle :=
  let len := min (min (max size 1) readLen) h.waiting.length
  let ch := h.waiting.take len
  (ch.map (convert cfg)).foldl makeavail
    { h with waiting := h.waiting.drop len, log := h.log ++ [.read ch] }

def charavailTurn (host : Nat → Turn) (x : Handle × Nat) : (Handle × Nat) × Bool :=
  let h := x.1.arrive (host x.2).arrived
  if h.stdinAvail cfg then
    if h.roomLeftInFifo < readLen + 1 then ((h, x.2 + 1), false)
    else ((h.readStdin cfg (host x.2).size, x.2 + 1), true)
  else ((h, x.2 + 1), false)

def charavail (host : Nat → Turn) : Option (Handle × Int) :=
  (Lib.whileLoop (charavailTurn cfg host) (fifoLen + 1) (h, 0)).map fun x =>
    (x.1, fifoLen - x.1.roomLeftInFifo)

def readchar (host : Nat → Turn) : Option (Handle × Int) :=
  (h.charavail cfg host).map fun r =>
    if r.2 = 0 then (r.1, -1)
    else
      let ch := r.1.fifo.slots r.1.fifo.tail
      ({ r.1 with
          fifo := { r.1.fifo with tail := (r.1.fifo.tail + 1) % fifoLen }
          log := r.1.log ++ [.returned ch] }, ch.toNat)

end
end Handle

inductive Op
  | charavail (host : Nat → Turn)
  | readchar (host : Nat → Turn)
  | makeavail (ch : Byte)
  | arrive (bytes : List Byte)

def step (cfg : Config) (h : Handle) : Op → Except Unit Handle
  | .charavail host => ((h.charavail cfg host).map Prod.fst).elim (.error ()) .ok
  | .readchar host => ((h.readchar cfg host).map Prod.fst).elim (.error ()) .ok
  | .makeavail ch => .ok { h.makeavail ch with log := h.log ++ [.made ch] }
  | .arrive bytes => .ok (h.arrive bytes)

/-! ## The history -/

namespace Event

def accepted (cfg : Config) : Event → List Byte
  | .read bytes => bytes.map (Handle.convert cfg)
  | .made ch => [ch]
  | _ => []

def hostRead : Event → List Byte
  | .read bytes => bytes
  | _ => []

def hostArrived : Event → List Byte
  | .arrived bytes => bytes
  | _ => []

def delivered : Event → List Byte
  | .returned ch => [ch]
  | _ => []

end Event

namespace Handle

def accepted (cfg : Config) (h : Handle) : List Byte := h.log.flatMap (Event.accepted cfg)

def returned (h : Handle) : List Byte := h.log.flatMap Event.delivered

def hostRead (h : Handle) : List Byte := h.log.flatMap Event.hostRead

def hostArrived (h : Handle) : List Byte := h.log.flatMap Event.hostArrived

def pending (cfg : Config) (h : Handle) : List Byte := (h.accepted cfg).drop h.returned.length

end Handle

/-! ## One operation -/

/-- The ring holds `l`, which is what was accepted and not yet returned if there was no
warning, and no byte of the host got lost. -/
structure Consistent (cfg : Config) (h : Handle) (l : List Byte) : Prop where
  holds : h.fifo.Holds fifoLen l
  order : h.warnings = 0 → h.returned ++ l = h.accepted cfg
  host : h.hostRead ++ h.waiting = h.hostArrived

section
variable {cfg : Config} {h h' : Handle} {l : List Byte} {ch : Byte} {bytes : List Byte}

theorem consistent_new : Consistent cfg Handle.new [] :=
  ⟨Queue.Holds.empty (by decide) rfl, fun _ => rfl, rfl⟩

theorem Consistent.pending (hc : Consistent cfg h l) (hquiet : h.warnings = 0) : h.pending cfg = l := by
  unfold Handle.pending
  rw [← hc.order hquiet, List.drop_left]

theorem roomLeftInFifo_eq (hl : h.fifo.Holds fifoLen l) : h.roomLeftInFifo = fifoLen - (l.length : Int) := by
  have htail := hl.tail_lt
  have hlen := hl.length_eq
  unfold Handle.roomLeftInFifo fifoLen at *
  dsimp only
  split at hlen <;> split <;> omega

theorem makeavail_fifo (hl : h.fifo.Holds fifoLen l) : (h.makeavail ch).fifo = h.fifo.push fifoLen ch := by
  have hhead : (h.fifo.head + 1) % fifoLen = slot fifoLen h.fifo.head 1 := slot_eq_mod hl.head_lt (by decide)
  unfold Handle.makeavail Queue.push
  rw [hhead]

theorem makeavail_quiet (hl : h.fifo.Holds fifoLen l) (hroom : l.length + 1 < fifoLen) :
    (h.makeavail ch).fifo.Holds fifoLen (l ++ [ch]) ∧ (h.makeavail ch).warnings = h.warnings := by
  have hpush : (h.makeavail ch).fifo.Holds fifoLen (l ++ [ch]) := by
    rw [makeavail_fifo hl]
    exact hl.push hroom
  refine ⟨hpush, if_neg fun hfull => ?_⟩
  have hnil : l ++ [ch] = [] := hpush.nil_iff.mp hfull
  simp at hnil

theorem makeavail_overrun (hl : h.fifo.Holds fifoLen l) (hfull : l.length + 1 = fifoLen) :
    (h.makeavail ch).fifo.Holds fifoLen [] ∧ (h.makeavail ch).warnings = h.warnings + 1 := by
  have hhead : slot fifoLen h.fifo.head 1 = h.fifo.tail := by
    have htail := hl.tail_lt
    rw [hl.head_eq, slot_slot htail (by omega), hfull]
    unfold slot
    rw [if_neg (by omega), Nat.add_sub_cancel]
  constructor
  · rw [makeavail_fifo hl]
    exact Queue.Holds.empty hl.tail_lt hhead
  · apply if_pos
    exact (slot_eq_mod hl.head_lt (by decide)).trans hhead

theorem makeavailAll_keeps : (bytes.foldl Handle.makeavail h).waiting = h.waiting ∧
    (bytes.foldl Handle.makeavail h).log = h.log := by
  induction bytes generalizing h with
  | nil => exact ⟨rfl, rfl⟩
  | cons ch bytes ih => exact @ih (h.makeavail ch)

theorem makeavailAll_quiet (hl : h.fifo.Holds fifoLen l) (hroom : l.length + bytes.length < fifoLen) :
    (bytes.foldl Handle.makeavail h).fifo.Holds fifoLen (l ++ bytes) ∧
    (bytes.foldl Handle.makeavail h).warnings = h.warnings := by
  induction bytes generalizing h l with
  | nil =>
    rw [List.append_nil]
    exact ⟨hl, rfl⟩
  | cons ch bytes ih =>
    rw [List.length_cons] at hroom
    obtain ⟨hpush, hwarn⟩ := @makeavail_quiet _ _ ch hl (by omega)
    obtain ⟨hrest, hwarns⟩ := ih hpush (by rw [List.length_append, List.length_singleton]; omega)
    rw [List.append_assoc] at hrest
    exact ⟨hrest, hwarns.trans hwarn⟩

theorem Consistent.arrive (hc : Consistent cfg h l) : Consistent cfg (h.arrive bytes) l := by
  refine ⟨hc.holds, fun hquiet => ?_, ?_⟩
  · have horder := hc.order hquiet
    simpa [Handle.arrive, Handle.returned, Handle.accepted, Event.accepted, Event.delivered] using horder
  · have hhost := hc.host
    simp only [Handle.hostRead, Handle.hostArrived] at hhost
    simp [Handle.arrive, Handle.hostRead, Handle.hostArrived, Event.hostRead, Event.hostArrived, ← hhost]

theorem Consistent.makeavail (hc : Consistent cfg h l) :
    ∃ l', Consistent cfg { h.makeavail ch with log := h.log ++ [.made ch] } l' := by
  have hroom := hc.holds.room
  have hhost := hc.host
  have hhost' : Handle.hostRead { h.makeavail ch with log := h.log ++ [.made ch] } ++ (h.makeavail ch).waiting =
      Handle.hostArrived { h.makeavail ch with log := h.log ++ [.made ch] } := by
    simpa [Handle.hostRead, Handle.hostArrived, Event.hostRead, Event.hostArrived, Handle.makeavail] using hhost
  by_cases hfull : l.length + 1 = fifoLen
  · obtain ⟨hempty, hwarn⟩ := @makeavail_overrun _ _ ch hc.holds hfull
    refine ⟨[], hempty, fun hquiet => ?_, hhost'⟩
    have hzero : (h.makeavail ch).warnings = 0 := hquiet
    omega
  · obtain ⟨hpush, hwarn⟩ := @makeavail_quiet _ _ ch hc.holds (by omega)
    refine ⟨l ++ [ch], hpush, fun hquiet => ?_, hhost'⟩
    have horder := hc.order (hwarn.symm.trans hquiet)
    simp only [Handle.returned, Handle.accepted] at horder
    simp [Handle.returned, Handle.accepted, Event.accepted, Event.delivered, ← horder]

theorem Consistent.readStdin (hc : Consistent cfg h l) (hroom : l.length + readLen < fifoLen) (size : Nat) :
    ∃ l', Consistent cfg (h.readStdin cfg size) l' ∧ (h.readStdin cfg size).warnings = h.warnings ∧
      (h.waiting ≠ [] → l.length < l'.length) := by
  obtain ⟨len, hlen⟩ : ∃ len, len = min (min (max size 1) readLen) h.waiting.length := ⟨_, rfl⟩
  obtain ⟨ch, hch⟩ : ∃ ch, ch = h.waiting.take len := ⟨_, rfl⟩
  have hcount : ch.length = len := by
    rw [hch, List.length_take]
    omega
  have hread : h.readStdin cfg size = (ch.map (Handle.convert cfg)).foldl Handle.makeavail
      { h with waiting := h.waiting.drop len, log := h.log ++ [.read ch] } := by
    rw [hch, hlen]
    rfl
  obtain ⟨hwaiting, hlog⟩ := @makeavailAll_keeps { h with waiting := h.waiting.drop len, log := h.log ++ [.read ch] }
    (ch.map (Handle.convert cfg))
  obtain ⟨hholds, hwarn⟩ := @makeavailAll_quiet { h with waiting := h.waiting.drop len, log := h.log ++ [.read ch] } l
    (ch.map (Handle.convert cfg)) hc.holds (by rw [List.length_map]; omega)
  rw [← hread] at hwaiting hlog hholds hwarn
  refine ⟨l ++ ch.map (Handle.convert cfg), ⟨hholds, fun hquiet => ?_, ?_⟩, hwarn, fun hne => ?_⟩
  · have horder := hc.order (hwarn.symm.trans hquiet)
    simp only [Handle.returned, Handle.accepted] at horder ⊢
    simp [hlog, Event.accepted, Event.delivered, ← horder]
  · have hhost := hc.host
    simp only [Handle.hostRead, Handle.hostArrived] at hhost ⊢
    have hsplit : ch ++ h.waiting.drop len = h.waiting := by
      rw [hch, List.take_append_drop]
    simp [hlog, hwaiting, Event.hostRead, Event.hostArrived, ← hhost, hsplit]
  · have hpos : 0 < h.waiting.length := List.length_pos_iff.mpr hne
    have hsome : 0 < len := by
      rw [hlen]
      unfold readLen
      omega
    rw [List.length_append, List.length_map]
    omega

/-! ## The loop -/

theorem stdinAvail_waiting (h' : h.stdinAvail cfg = true) : h.waiting ≠ [] := by
  intro hnil
  simp [Handle.stdinAvail, hnil] at h'

theorem charavailTurn_spec {host : Nat → Turn} {x : Handle × Nat} (hc : Consistent cfg x.1 l) :
    ∃ l', Consistent cfg (Handle.charavailTurn cfg host x).1.1 l' ∧
      (Handle.charavailTurn cfg host x).1.1.warnings = x.1.warnings ∧
      ((Handle.charavailTurn cfg host x).2 = true → l.length < l'.length) := by
  have harrive : Consistent cfg (x.1.arrive (host x.2).arrived) l := hc.arrive
  unfold Handle.charavailTurn
  dsimp only
  split
  · rename_i havail
    split
    · exact ⟨l, harrive, rfl, fun h => Bool.noConfusion h⟩
    · rename_i hroom
      rw [roomLeftInFifo_eq harrive.holds] at hroom
      obtain ⟨l', hc', hwarn, hmore⟩ := harrive.readStdin (by omega) (host x.2).size
      exact ⟨l', hc', hwarn, fun _ => hmore (stdinAvail_waiting havail)⟩
  · exact ⟨l, harrive, rfl, fun h => Bool.noConfusion h⟩

theorem charavail_spec (hc : Consistent cfg h l) (host : Nat → Turn) :
    ∃ h' l', h.charavail cfg host = some (h', (l'.length : Int)) ∧ Consistent cfg h' l' ∧ h'.warnings = h.warnings := by
  have hkeep : ∀ x : Handle × Nat, (∃ l, Consistent cfg x.1 l ∧ x.1.warnings = h.warnings) →
      ∃ l, Consistent cfg (Handle.charavailTurn cfg host x).1.1 l ∧
        (Handle.charavailTurn cfg host x).1.1.warnings = h.warnings := by
    intro x ⟨lx, hx, hwx⟩
    obtain ⟨l', hc', hwarn, -⟩ := @charavailTurn_spec _ _ host _ hx
    exact ⟨l', hc', hwarn.trans hwx⟩
  -- The measure is the room that is left, which the loop's body makes smaller.
  have hends : ∃ x, Lib.whileLoop (Handle.charavailTurn cfg host) (fifoLen + 1) (h, 0) = some x := by
    apply whileLoop_terminates fun x => x.1.roomLeftInFifo.toNat
    · rw [roomLeftInFifo_eq hc.holds]
      omega
    · intro x hgoes hon
      obtain ⟨lx, hx, -⟩ := hgoes.inv hkeep ⟨l, hc, rfl⟩
      obtain ⟨l', hc', -, hmore⟩ := @charavailTurn_spec _ _ host _ hx
      have hless := hmore hon
      have hroom' := hc'.holds.room
      rw [roomLeftInFifo_eq hx.holds, roomLeftInFifo_eq hc'.holds]
      omega
  obtain ⟨x, hx⟩ := hends
  obtain ⟨l', hc', hwarn⟩ := whileLoop_inv (P := fun x => ∃ l, Consistent cfg x.1 l ∧ x.1.warnings = h.warnings)
    hkeep ⟨l, hc, rfl⟩ hx
  refine ⟨x.1, l', ?_, hc', hwarn⟩
  unfold Handle.charavail
  rw [hx, Option.map_some, roomLeftInFifo_eq hc'.holds]
  congr 2
  omega

theorem readchar_spec (hc : Consistent cfg h l) (host : Nat → Turn) :
    ∃ h' l' h'' r, h.charavail cfg host = some (h', (l'.length : Int)) ∧ Consistent cfg h' l' ∧
      h.readchar cfg host = some (h'', r) ∧ h''.warnings = h.warnings ∧
      (l' = [] ∧ r = -1 ∧ h'' = h' ∨
        ∃ ch rest, l' = ch :: rest ∧ r = ch.toNat ∧ Consistent cfg h'' rest ∧
          h''.log = h'.log ++ [.returned ch]) := by
  obtain ⟨h', l', havail, hc', hwarn⟩ := charavail_spec hc host
  cases l' with
  | nil =>
    refine ⟨h', [], h', -1, havail, hc', ?_, hwarn, Or.inl ⟨rfl, rfl, rfl⟩⟩
    unfold Handle.readchar
    rw [havail]
    rfl
  | cons ch rest =>
    obtain ⟨hch, hpop⟩ := hc'.holds.pop
    obtain ⟨h'', hh⟩ : ∃ h'' : Handle, h'' = { h' with
        fifo := { h'.fifo with tail := (h'.fifo.tail + 1) % fifoLen }
        log := h'.log ++ [.returned ch] } := ⟨_, rfl⟩
    have hret : h.readchar cfg host = some (h'', (ch.toNat : Int)) := by
      have hne : ((ch :: rest).length : Int) ≠ 0 := by
        rw [List.length_cons]
        omega
      unfold Handle.readchar
      rw [havail, Option.map_some, if_neg hne, hch, hh]
    have htail : (h'.fifo.tail + 1) % fifoLen = slot fifoLen h'.fifo.tail 1 :=
      slot_eq_mod hc'.holds.tail_lt (by decide)
    have hholds : h''.fifo.Holds fifoLen rest := by
      rw [hh]
      rw [htail]
      exact hpop
    refine ⟨h', ch :: rest, h'', _, havail, hc', hret, ?_, Or.inr ⟨ch, rest, rfl, rfl, ⟨hholds, ?_, ?_⟩, ?_⟩⟩
    · rw [hh]
      exact hwarn
    · intro hquiet
      rw [hh] at hquiet
      have horder := hc'.order hquiet
      simp only [Handle.returned, Handle.accepted] at horder ⊢
      simp [hh, Event.accepted, Event.delivered, ← horder]
    · have hhost := hc'.host
      simp only [Handle.hostRead, Handle.hostArrived] at hhost ⊢
      simpa [hh, Event.hostRead, Event.hostArrived] using hhost
    · rw [hh]

/-! ## Runs -/

theorem step_consistent (o : Op) (hc : Consistent cfg h l) :
    ∃ h', step cfg h o = .ok h' ∧ ∃ l', Consistent cfg h' l' := by
  cases o with
  | charavail host =>
    obtain ⟨h', l', havail, hc', -⟩ := charavail_spec hc host
    refine ⟨h', ?_, l', hc'⟩
    simp only [step, havail, Option.map_some, Option.elim_some]
  | readchar host =>
    obtain ⟨h', l', h'', r, -, hc', hread, -, hnext⟩ := readchar_spec hc host
    refine ⟨h'', ?_, ?_⟩
    · simp only [step, hread, Option.map_some, Option.elim_some]
    · obtain ⟨-, -, rfl⟩ | ⟨ch, rest, -, -, hc'', -⟩ := hnext
      · exact ⟨l', hc'⟩
      · exact ⟨rest, hc''⟩
  | makeavail ch => exact ⟨_, rfl, hc.makeavail⟩
  | arrive bytes => exact ⟨_, rfl, l, hc.arrive⟩

theorem run_consistent (hc : Consistent cfg h l) (ops : List Op) :
    ∃ h', Lib.runOps (step cfg) ops h = .ok h' ∧ ∃ l', Consistent cfg h' l' := by
  have halways : Lib.Always (step cfg) (fun h => ∃ l, Consistent cfg h l) ops h :=
    always_of_along (fun _ => True) (fun h o _ hinv _ => step_consistent o hinv.choose_spec)
      (fun _ _ => trivial) ⟨l, hc⟩ (along_true ops h)
  exact halways.last

end

/-- Every run returns. As long as there was no warning, what readchar returned is what was
accepted, in order, up to the characters that are still pending; no byte of the host is
lost between the descriptor and the ring. The next charavail does not warn and counts the
pending characters exactly, and the next readchar returns the first of them, or -1 if
there is none. -/
theorem console_delivery (cfg : Config) (ops : List Op) (host : Nat → Turn) :
    ∃ h, Lib.runOps (step cfg) ops Handle.new = .ok h ∧
      (h.warnings = 0 → h.returned ++ h.pending cfg = h.accepted cfg) ∧
      h.hostRead ++ h.waiting = h.hostArrived ∧
      ∃ h' n h'' r, h.charavail cfg host = some (h', n) ∧ h.readchar cfg host = some (h'', r) ∧
        h'.warnings = h.warnings ∧ h''.warnings = h.warnings ∧
        h'.hostRead ++ h'.waiting = h'.hostArrived ∧
        (h.warnings = 0 → n = (h'.pending cfg).length ∧
          (h'.pending cfg = [] ∧ r = -1 ∧ h'' = h' ∨
            ∃ ch rest, h'.pending cfg = ch :: rest ∧ r = ch.toNat ∧ h''.returned = h'.returned ++ [ch] ∧
              h''.pending cfg = rest)) := by
  obtain ⟨h, hrun, l, hc⟩ := run_consistent (@consistent_new cfg) ops
  obtain ⟨h', l', h'', r, havail, hc', hread, hwarn'', hnext⟩ := readchar_spec hc host
  obtain ⟨g, lg, havail', -, hwarn'⟩ := charavail_spec hc host
  obtain ⟨rfl, -⟩ := Prod.mk.inj (Option.some.inj (havail.symm.trans havail'))
  refine ⟨h, hrun, fun hquiet => ?_, hc.host, h', _, h'', r, havail, hread, hwarn', hwarn'', hc'.host,
    fun hquiet => ?_⟩
  · rw [hc.pending hquiet]
    exact hc.order hquiet
  · have hpending : h'.pending cfg = l' := hc'.pending (hwarn'.trans hquiet)
    rw [hpending]
    refine ⟨rfl, ?_⟩
    obtain ⟨rfl, hr, hsame⟩ | ⟨ch, rest, rfl, hr, hc'', hlog⟩ := hnext
    · exact Or.inl ⟨rfl, hr, hsame⟩
    · refine Or.inr ⟨ch, rest, rfl, hr, ?_, hc''.pending (hwarn''.trans hquiet)⟩
      simp [Handle.returned, hlog, Event.delivered]

end Gxemul.Console
