import Mathlib.Data.BitVec
import Gxemul.Lib.Run

/- The line editor of the debugger (`debugger_readline()` of `src/debugger/debugger.c`).

   `Text` is what it is for: a text with a cursor, in which characters are inserted and
   erased, and which lines of the history replace. The editor has a buffer of
   MAX_CMD_BUFLEN bytes instead. It erases a character with a memmove() that moves as many
   bytes as there are in the line, from wherever the cursor is, and so leaves the buffer
   when the cursor is far enough to the right: `edits_iff` says when. What it moves beyond
   the line does no harm inside the buffer.

   The keys that only print something, or that make other keys available at the console,
   change nothing here. -/
namespace Gxemul.Readline

/-- MAX_CMD_BUFLEN. -/
def maxCmdBuflen : Nat := 72

/-- N_PREVIOUS_CMDS. -/
def nPreviousCmds : Nat := 150

/-- `last_cmd` and `last_cmd_index`. The lines are strings that fit into the buffer. -/
structure History where
  lastCmd : Nat → List (BitVec 8)
  lastCmdIndex : Nat
  fits : ∀ i, (lastCmd i).length < maxCmdBuflen
  noNul : ∀ i, 0#8 ∉ lastCmd i

inductive Fault
  | outsideBuffer
  deriving DecidableEq

inductive Key
  | backspace
  | delete
  | startOfLine
  | backwards
  | abort
  | endOfLine
  | forward
  | next
  | previous
  | backspaceWord
  | visible (ch : BitVec 8)
  | other

/-- The key of a character. -/
def keyOf (ch : BitVec 8) : Key :=
  if ch = 8 ∨ ch = 127 then .backspace
  else if ch = 4 then .delete
  else if ch = 1 then .startOfLine
  else if ch = 2 then .backwards
  else if ch = 3 then .abort
  else if ch = 5 then .endOfLine
  else if ch = 6 then .forward
  else if ch = 14 then .next
  else if ch = 16 then .previous
  else if ch = 23 then .backspaceWord
  else if 32 ≤ ch.toNat then .visible ch
  else .other

/-- The entry that CTRL-N goes on to, if it does: "if (i >= N_PREVIOUS_CMDS)" wraps around. -/
def History.next (h : History) (readFromIndex : Nat) : Option Nat :=
  if readFromIndex = h.lastCmdIndex then none
  else some (if nPreviousCmds ≤ readFromIndex + 1 then 0 else readFromIndex + 1)

/-- CTRL-P: "if (i < 0)". -/
def History.previous (readFromIndex : Nat) : Option Nat :=
  some (if readFromIndex = 0 then nPreviousCmds - 1 else readFromIndex - 1)

/-- The line of an entry: nothing for the one that is being edited. -/
def History.line? (h : History) (i : Nat) : Option (List (BitVec 8)) :=
  if i = h.lastCmdIndex then some []
  else if (h.lastCmd i).head? ≠ none then some (h.lastCmd i)
  else none

/-! ## The buffer -/

/-- `cmd`, `cmd_len`, `cursor_pos` and `read_from_index`. -/
structure Line where
  cmd : Nat → BitVec 8
  cmdLen : Nat
  cursorPos : Nat
  readFromIndex : Nat

namespace Line

/-- memmove() in the buffer, unless it leaves it. -/
def memmove (cmd : Nat → BitVec 8) (dst src n : Nat) : Except Fault (Nat → BitVec 8) :=
  if 0 < n ∧ (maxCmdBuflen < src + n ∨ maxCmdBuflen < dst + n) then .error .outsideBuffer
  else .ok fun i => if dst ≤ i ∧ i < dst + n then cmd (src + (i - dst)) else cmd i

def put (cmd : Nat → BitVec 8) (at_ : Nat) (c : BitVec 8) : Nat → BitVec 8 := fun i => if i = at_ then c else cmd i

/-- "cmd_len --", memmove(), and the NUL. -/
def erase (l : Line) (cursorPos : Nat) : Except Fault Line := do
  let cmd ← memmove l.cmd cursorPos (cursorPos + 1) (l.cmdLen - 1)
  return { l with cmd := put cmd (l.cmdLen - 1) 0, cmdLen := l.cmdLen - 1, cursorPos := cursorPos }

/-- "Backspace a full word": one of the two loops. The cursor moves at most `n` times. -/
def eraseWhile (p : BitVec 8 → Bool) : Nat → Line → Except Fault Line
  | 0, l => .ok l
  | n + 1, l =>
    if 1 ≤ l.cursorPos ∧ p (l.cmd (l.cursorPos - 1)) then l.erase (l.cursorPos - 1) >>= eraseWhile p n
    else .ok l

def insert (l : Line) (ch : BitVec 8) : Except Fault Line := do
  let cmd ← memmove l.cmd (l.cursorPos + 1) l.cursorPos (l.cmdLen - l.cursorPos)
  return { l with cmd := put (put cmd l.cursorPos ch) (l.cmdLen + 1) 0
                  cmdLen := l.cmdLen + 1, cursorPos := l.cursorPos + 1 }

/-- strlcpy() of a line of the history, or a NUL at the start. -/
def copy (l : Line) (line : List (BitVec 8)) : Line :=
  { l with cmd := fun i => if i ≤ line.length then line.getD i 0 else l.cmd i
           cmdLen := line.length, cursorPos := line.length }

def fetch (h : History) (l : Line) (i : Option Nat) : Line :=
  match i.bind fun i => (h.line? i).map (i, ·) with
  | some (i, line) => { l with readFromIndex := i }.copy line
  | none => l

def press (h : History) (l : Line) : Key → Except Fault Line
  | .backspace => if 0 < l.cursorPos then l.erase (l.cursorPos - 1) else .ok l
  | .delete => if 0 < l.cmdLen ∧ l.cursorPos < l.cmdLen then l.erase l.cursorPos else .ok l
  | .startOfLine => .ok { l with cursorPos := 0 }
  | .backwards => .ok { l with cursorPos := l.cursorPos - 1 }
  | .abort => .ok { l with cmd := put l.cmd 0 0, cmdLen := 0, cursorPos := 0 }
  | .endOfLine => .ok { l with cursorPos := max l.cursorPos l.cmdLen }
  | .forward => .ok { l with cursorPos := if l.cursorPos < l.cmdLen then l.cursorPos + 1 else l.cursorPos }
  | .backspaceWord => eraseWhile (· = 32) l.cursorPos l >>= fun l => eraseWhile (· ≠ 32) l.cursorPos l
  | .visible ch => if l.cmdLen < maxCmdBuflen - 1 then l.insert ch else .ok l
  | .other => .ok l
  | .next => .ok (l.fetch h (h.next l.readFromIndex))
  | .previous => .ok (l.fetch h (History.previous l.readFromIndex))

end Line

/-! ## The text -/

structure Text where
  text : List (BitVec 8)
  cursor : Nat
  readFromIndex : Nat

namespace Text

def erase (t : Text) (cursor : Nat) : Text := { t with text := t.text.eraseIdx cursor, cursor := cursor }

def eraseWhile (p : BitVec 8 → Bool) : Nat → Text → Text
  | 0, t => t
  | n + 1, t =>
    if 1 ≤ t.cursor ∧ (t.text[t.cursor - 1]?).any p then eraseWhile p n (t.erase (t.cursor - 1)) else t

def fetch (h : History) (t : Text) (i : Option Nat) : Text :=
  match i.bind fun i => (h.line? i).map (i, ·) with
  | some (i, line) => ⟨line, line.length, i⟩
  | none => t

def press (h : History) (t : Text) : Key → Text
  | .backspace => if 0 < t.cursor then t.erase (t.cursor - 1) else t
  | .delete => t.erase t.cursor
  | .startOfLine => { t with cursor := 0 }
  | .backwards => { t with cursor := t.cursor - 1 }
  | .abort => { t with text := [], cursor := 0 }
  | .endOfLine => { t with cursor := t.text.length }
  | .forward => { t with cursor := min (t.cursor + 1) t.text.length }
  | .backspaceWord =>
    let t := eraseWhile (· = 32) t.cursor t
    eraseWhile (· ≠ 32) t.cursor t
  | .visible ch =>
    if t.text.length < maxCmdBuflen - 1 then
      { t with text := t.text.insertIdx t.cursor ch, cursor := t.cursor + 1 }
    else t
  | .other => t
  | .next => t.fetch h (h.next t.readFromIndex)
  | .previous => t.fetch h (History.previous t.readFromIndex)

end Text

/-- The buffer has the text, as a string. -/
structure Shows (l : Line) (t : Text) : Prop where
  cmdLen : l.cmdLen = t.text.length
  cursorPos : l.cursorPos = t.cursor
  readFromIndex : l.readFromIndex = t.readFromIndex
  cursor_le : t.cursor ≤ t.text.length
  fits : t.text.length < maxCmdBuflen
  cmd : ∀ i < t.text.length, t.text[i]? = some (l.cmd i)
  nul : l.cmd t.text.length = 0
  noNul : 0#8 ∉ t.text

/-- What is erased is not too far from the start, with its line. -/
def InBuffer (t : Text) : Key → Prop
  | .backspace | .backspaceWord => 0 < t.cursor → t.cursor + t.text.length ≤ maxCmdBuflen + 1
  | .delete => t.cursor < t.text.length → t.cursor + t.text.length ≤ maxCmdBuflen
  | _ => True

section
variable {h : History} {l l' : Line} {t : Text} {p : BitVec 8 → Bool} {pos n : Nat}

theorem History.line_fits {i : Nat} {line : List (BitVec 8)} (hi : h.line? i = some line) :
    line.length < maxCmdBuflen ∧ 0#8 ∉ line := by
  unfold History.line? at hi
  split at hi
  · cases hi
    decide
  · split at hi <;> cases hi
    exact ⟨h.fits i, h.noNul i⟩

/-- A character can be erased just if it is not too far from the start, with its line. -/
theorem Shows.erase (hs : Shows l t) (hpos : pos < t.text.length) (hin : pos + t.text.length ≤ maxCmdBuflen) :
    ∃ l', l.erase pos = .ok l' ∧ Shows l' (t.erase pos) := by
  have hlen := hs.cmdLen
  have hfits := hs.fits
  have hcmd := hs.cmd
  have hmove : ¬ (0 < l.cmdLen - 1 ∧
      (maxCmdBuflen < pos + 1 + (l.cmdLen - 1) ∨ maxCmdBuflen < pos + (l.cmdLen - 1))) := by omega
  have herased : (t.text.eraseIdx pos).length = t.text.length - 1 := List.length_eraseIdx_of_lt hpos
  rw [Line.erase, Line.memmove, if_neg hmove]
  refine ⟨_, rfl, ?_⟩
  constructor
  case cmdLen => simp only [Text.erase, herased, hlen]
  case cursorPos => rfl
  case readFromIndex => exact hs.readFromIndex
  case cursor_le => simp only [Text.erase, herased]; omega
  case fits => simp only [Text.erase, herased]; omega
  case cmd =>
    intro i hi
    simp only [Text.erase, herased] at hi ⊢
    rw [List.getElem?_eraseIdx, Line.put, if_neg (show i ≠ l.cmdLen - 1 by omega)]
    -- what is moved ends behind the line
    split
    · rename_i hbefore
      rw [if_neg (by omega), hcmd i (by omega)]
    · rename_i hbehind
      rw [if_pos (by omega), hcmd (i + 1) (by omega), show pos + 1 + (i - pos) = i + 1 by omega]
  case nul => simp [Text.erase, herased, Line.put, hlen]
  case noNul => exact fun hmem => hs.noNul (List.mem_of_mem_eraseIdx hmem)

theorem Shows.erase_error (hs : Shows l t) (hpos : pos < t.text.length) (hin : maxCmdBuflen < pos + t.text.length) :
    l.erase pos = .error .outsideBuffer := by
  have hlen := hs.cmdLen
  have hfits := hs.fits
  rw [Line.erase, Line.memmove, if_pos (by omega)]
  rfl

theorem Shows.insert (hs : Shows l t) {ch : BitVec 8} (hch : ch ≠ 0) (hroom : t.text.length < maxCmdBuflen - 1) :
    ∃ l', l.insert ch = .ok l' ∧
      Shows l' { t with text := t.text.insertIdx t.cursor ch, cursor := t.cursor + 1 } := by
  have hlen := hs.cmdLen
  have hcursor := hs.cursorPos
  have hle := hs.cursor_le
  have hcmd := hs.cmd
  have hinserted : (t.text.insertIdx t.cursor ch).length = t.text.length + 1 :=
    List.length_insertIdx_of_le_length hle ch
  have hmove : ¬ (0 < l.cmdLen - l.cursorPos ∧ (maxCmdBuflen < l.cursorPos + (l.cmdLen - l.cursorPos) ∨
      maxCmdBuflen < l.cursorPos + 1 + (l.cmdLen - l.cursorPos))) := by omega
  rw [Line.insert, Line.memmove, if_neg hmove]
  refine ⟨_, rfl, ?_⟩
  constructor
  case cmdLen => simp only [hinserted, hlen]
  case cursorPos => simp only [hcursor]
  case readFromIndex => exact hs.readFromIndex
  case cursor_le => simp only [hinserted]; omega
  case fits => simp only [hinserted]; omega
  case cmd =>
    intro i hi
    simp only [hinserted] at hi
    simp only [Line.put, hcursor, hlen]
    rw [if_neg (by omega)]
    rcases Nat.lt_trichotomy i t.cursor with hbefore | rfl | hafter
    · rw [List.getElem?_insertIdx_of_lt hbefore, if_neg (by omega), if_neg (by omega), hcmd i (by omega)]
    · rw [List.getElem?_insertIdx_self, if_pos rfl, if_pos hle]
    · rw [List.getElem?_insertIdx_of_gt hafter, if_neg (by omega), if_pos (by omega), hcmd (i - 1) (by omega),
        show t.cursor + (i - (t.cursor + 1)) = i - 1 by omega]
  case nul => simp [hinserted, Line.put, hlen]
  case noNul =>
    intro hmem
    rcases List.eq_or_mem_of_mem_insertIdx hmem with hzero | hmem
    · exact hch hzero.symm
    · exact hs.noNul hmem

theorem Shows.fetch (hs : Shows l t) (i : Option Nat) : Shows (l.fetch h i) (t.fetch h i) := by
  unfold Line.fetch Text.fetch
  split
  · rename_i i line hline
    obtain ⟨j, -, hj⟩ := Option.bind_eq_some_iff.mp hline
    obtain ⟨line', hline', heq⟩ := Option.map_eq_some_iff.mp hj
    cases heq
    obtain ⟨hfits, hnoNul⟩ := History.line_fits hline'
    refine ⟨rfl, rfl, rfl, le_rfl, hfits, fun k hk => ?_, ?_, hnoNul⟩
    · simp [Line.copy, hk.le, List.getElem?_eq_getElem hk]
    · simp [Line.copy]
  · exact hs

/-- A loop over a word that starts near enough to the start stays there. -/
theorem Shows.eraseWhile (hs : Shows l t) (hin : 0 < t.cursor → t.cursor + t.text.length ≤ maxCmdBuflen + 1) :
    ∃ l', Line.eraseWhile p n l = .ok l' ∧ Shows l' (Text.eraseWhile p n t) ∧
      (0 < (Text.eraseWhile p n t).cursor →
        (Text.eraseWhile p n t).cursor + (Text.eraseWhile p n t).text.length ≤ maxCmdBuflen + 1) := by
  induction n generalizing l t with
  | zero => exact ⟨l, rfl, hs, hin⟩
  | succ n ih =>
    unfold Line.eraseWhile Text.eraseWhile
    rw [hs.cursorPos]
    by_cases hpos : 1 ≤ t.cursor
    · have hle := hs.cursor_le
      have hnear := hin hpos
      rw [hs.cmd (t.cursor - 1) (by omega), Option.any_some]
      split
      · obtain ⟨l1, hl1, hs1⟩ := hs.erase (show t.cursor - 1 < t.text.length by omega) (by omega)
        have hlength : (t.erase (t.cursor - 1)).text.length = t.text.length - 1 :=
          List.length_eraseIdx_of_lt (by omega)
        have hcursor : (t.erase (t.cursor - 1)).cursor = t.cursor - 1 := rfl
        rw [hl1, Lib.ok_bind]
        exact ih hs1 (by omega)
      · exact ⟨l, rfl, hs, hin⟩
    · rw [if_neg (fun h => hpos h.1), if_neg (fun h => hpos h.1)]
      exact ⟨l, rfl, hs, hin⟩

/-- The first round of a loop that does not. -/
theorem Shows.eraseWhile_far (hs : Shows l t) (hpos : 0 < t.cursor)
    (hout : maxCmdBuflen + 1 < t.cursor + t.text.length) :
    Line.eraseWhile p t.cursor l = if p (l.cmd (t.cursor - 1)) then .error .outsideBuffer else .ok l := by
  have hle := hs.cursor_le
  obtain ⟨n, hn⟩ := Nat.exists_eq_succ_of_ne_zero hpos.ne'
  have herror := hs.erase_error (show t.cursor - 1 < t.text.length by omega) (by omega)
  conv_lhs => rw [hn]
  rw [Line.eraseWhile, hs.cursorPos, herror]
  by_cases hp : p (l.cmd (t.cursor - 1)) = true
  · rw [if_pos ⟨hpos, hp⟩, if_pos hp]
    rfl
  · rw [if_neg (fun h => hp h.2), if_neg hp]

theorem keyOf_visible {ch c : BitVec 8} (h : keyOf ch = .visible c) : c ≠ 0 := by
  simp only [keyOf, ite_eq_iff, reduceCtorEq, and_false, false_or, or_false, Key.visible.injEq] at h
  obtain ⟨-, -, -, -, -, -, -, -, -, -, hge, rfl⟩ := h
  rintro rfl
  exact absurd hge (by decide)

/-- The keys that stay in the buffer edit the text. -/
theorem Shows.press (hs : Shows l t) {ch : BitVec 8} (hin : InBuffer t (keyOf ch)) :
    ∃ l', l.press h (keyOf ch) = .ok l' ∧ Shows l' (t.press h (keyOf ch)) := by
  have hlen := hs.cmdLen
  have hcursor := hs.cursorPos
  have hle := hs.cursor_le
  generalize hkey : keyOf ch = key at hin ⊢
  cases key with
  | backspace =>
    rw [Line.press, Text.press, hcursor]
    split
    · exact hs.erase (by omega) (by have := hin (by assumption); omega)
    · exact ⟨l, rfl, hs⟩
  | delete =>
    rw [Line.press, Text.press, hcursor, hlen]
    by_cases hlt : t.cursor < t.text.length
    · rw [if_pos ⟨by omega, hlt⟩]
      exact hs.erase hlt (hin hlt)
    · rw [if_neg (fun h => hlt h.2), Text.erase, List.eraseIdx_of_length_le (by omega)]
      exact ⟨l, rfl, hs⟩
  | startOfLine => exact ⟨_, rfl, { hs with cursorPos := rfl, cursor_le := Nat.zero_le _ }⟩
  | backwards =>
    refine ⟨_, rfl, { hs with cursorPos := by simp [hcursor, Text.press], cursor_le := ?_ }⟩
    simp only [Text.press]
    omega
  | abort =>
    refine ⟨_, rfl, ⟨rfl, rfl, hs.readFromIndex, le_rfl, Nat.succ_pos 71, fun i hi => absurd hi (Nat.not_lt_zero i),
      ?_, by simp [Text.press]⟩⟩
    simp [Line.put, Text.press]
  | endOfLine => exact ⟨_, rfl, { hs with cursorPos := by simp [hcursor, hlen, Text.press, hle], cursor_le := le_rfl }⟩
  | forward =>
    refine ⟨_, rfl, { hs with cursorPos := ?_, cursor_le := Nat.min_le_right _ _ }⟩
    simp only [Text.press, hcursor, hlen]
    split <;> omega
  | next => exact ⟨_, rfl, hs.readFromIndex ▸ hs.fetch _⟩
  | previous => exact ⟨_, rfl, hs.readFromIndex ▸ hs.fetch _⟩
  | backspaceWord =>
    rw [Line.press, Text.press, hcursor]
    obtain ⟨l1, hl1, hs1, hin1⟩ := hs.eraseWhile hin
    rw [hl1, Lib.ok_bind, hs1.cursorPos]
    obtain ⟨l', hl', hs', -⟩ := hs1.eraseWhile hin1
    exact ⟨l', hl', hs'⟩
  | visible ch =>
    rw [Line.press, Text.press, hlen]
    split
    · exact hs.insert (keyOf_visible hkey) (by assumption)
    · exact ⟨l, rfl, hs⟩
  | other => exact ⟨l, rfl, hs⟩

/-- A key that does not stop the debugger stays in the buffer. -/
theorem Shows.inBuffer (hs : Shows l t) {key : Key} (hok : l.press h key = .ok l') : InBuffer t key := by
  have hle := hs.cursor_le
  by_contra hout
  cases key with
  | backspace =>
    obtain ⟨hpos, hfar⟩ := Classical.not_imp.mp hout
    rw [Line.press, hs.cursorPos, if_pos hpos, hs.erase_error (by omega) (by omega)] at hok
    cases hok
  | delete =>
    obtain ⟨hlt, hfar⟩ := Classical.not_imp.mp hout
    rw [Line.press, hs.cursorPos, hs.cmdLen, if_pos ⟨by omega, hlt⟩, hs.erase_error hlt (by omega)] at hok
    cases hok
  | backspaceWord =>
    obtain ⟨hpos, hfar⟩ := Classical.not_imp.mp hout
    rw [Line.press, hs.cursorPos, hs.eraseWhile_far hpos (by omega)] at hok
    -- the character is erased by one of the two loops
    split at hok
    · cases hok
    · rename_i hspace
      rw [Lib.ok_bind, hs.cursorPos, hs.eraseWhile_far hpos (by omega), if_pos (by simpa using hspace)] at hok
      cases hok
  | _ => exact hout trivial

end

/-! ## Sessions -/

/-- The editor and the text, with the next character of the console. -/
def both (h : History) (s : Line × Text) (ch : BitVec 8) : Except Fault (Line × Text) :=
  (s.1.press h (keyOf ch)).map fun l => (l, s.2.press h (keyOf ch))

/-- The start of debugger_readline(). -/
def start (h : History) (cmd : Nat → BitVec 8) : Line × Text :=
  (⟨Line.put cmd 0 0, 0, 0, h.lastCmdIndex⟩, ⟨[], 0, h.lastCmdIndex⟩)

/-- For any characters and any history the editor edits the text and stays in its buffer, exactly as long as what is
erased is not too far to the right. -/
theorem edits_iff (h : History) (cmd : Nat → BitVec 8) (chars : List (BitVec 8)) :
    Lib.Always (both h) (fun s => Shows s.1 s.2) chars (start h cmd) ↔
      Lib.Along (both h) (fun s ch => InBuffer s.2 (keyOf ch)) chars (start h cmd) := by
  have hstart : Shows (start h cmd).1 (start h cmd).2 := by
    refine ⟨rfl, rfl, rfl, le_rfl, Nat.succ_pos 71, fun i hi => absurd hi (Nat.not_lt_zero i), ?_, by simp [start]⟩
    simp [start, Line.put]
  have hgood : ∀ s ch, Shows s.1 s.2 → InBuffer s.2 (keyOf ch) → ∃ s', both h s ch = .ok s' ∧ Shows s'.1 s'.2 := by
    intro s ch hs hin
    obtain ⟨l', hl', hs'⟩ := hs.press (h := h) hin
    exact ⟨(l', s.2.press h (keyOf ch)), by rw [both, hl', Except.map], hs'⟩
  constructor
  · intro halways
    refine (Lib.always_iff_of_exits hgood (fun s ch s' hs hok => ?_) hstart).mp (halways.mono fun _ _ => trivial)
    unfold both at hok
    cases hl : s.1.press h (keyOf ch) with
    | error e =>
      rw [hl] at hok
      cases hok
    | ok l' => exact hs.inBuffer hl
  · exact Lib.always_of_along (fun _ => True) (fun s ch _ => hgood s ch) (fun _ _ => trivial) hstart

end Gxemul.Readline
