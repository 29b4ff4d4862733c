import Gxemul.Lib.Run

/- The words of a configuration file (read_one_word in `src/core/emul_parse.c`).

   A character is a byte of the file. Between two words there are blanks, comments from
   an exclamation mark to the end of the line, and nested comments in braces. A word is
   read into a buffer, and what is kept of it is the string up to the first NUL. -/
namespace Gxemul.Config

open Lib

/-- Why the emulator stops: with a message about a line, with another message, or
because something is stored at an index that an array does not have. -/
inductive Stop where
  | fatal (line : Nat) (message : String)
  | exits (message : String)
  | outside (index size : Nat)
  deriving DecidableEq

def Stop.Outside : Stop → Prop
  | .outside _ _ => True
  | .fatal _ _ | .exits _ => False

/-- The file that is read, `*line` and `parenthesis_level`. -/
structure Input where
  rest : List Char
  eof : Bool
  line : Nat
  level : Int

/-- `EXPECT_WORD`, `EXPECT_LEFT_PARENTHESIS` and `EXPECT_RIGHT_PARENTHESIS`. -/
structure Expect where
  word : Bool
  left : Bool
  right : Bool

def expectWord : Expect := ⟨true, false, false⟩
def expectLeft : Expect := ⟨false, true, false⟩
def expectRight : Expect := ⟨false, false, true⟩

def isWordChar (ch : Char) : Bool :=
  ('a' ≤ ch && ch ≤ 'z') || ('A' ≤ ch && ch ≤ 'Z') || ch == '_' || ch == '$' || ('0' ≤ ch && ch ≤ '9')

/-! ## Buffers -/

/-- `buf[curlen] = ch`, for a buffer of `size` characters. -/
def put (size : Nat) (buf : List Char) (ch : Char) : Except Stop (List Char) :=
  if buf.length < size then .ok (buf ++ [ch]) else .error (.outside buf.length size)

def cstr (buf : List Char) : List Char :=
  buf.takeWhile (· ≠ '\x00')

/-! ## Reading -/

/-- What the loops of read_one_word() skip: single characters, the rest of a line, or
the rest of `depth` nested comments. -/
inductive Skip where
  | blanks
  | line
  | comment (depth : Nat)

def skipBlanks : Skip → Nat → List Char → Except Stop (Nat × List Char)
  | .comment _, line, [] => .error (.fatal line "unexpected EOF inside a nested comment")
  | _, line, [] => .ok (line, [])
  | .line, line, ch :: rest =>
    if ch = '\n' then skipBlanks .blanks (line + 1) rest else skipBlanks .line line rest
  | .comment depth, line, ch :: rest =>
    let line := if ch = '\n' then line + 1 else line
    let depth := if ch = '\x7b' then depth + 1 else if ch = '\x7d' then depth - 1 else depth
    if 0 < depth then skipBlanks (.comment depth) line rest else skipBlanks .blanks line rest
  | .blanks, line, ch :: rest =>
    if ch = '\n' then skipBlanks .blanks (line + 1) rest
    else if ch = '\r' then skipBlanks .blanks line rest
    else if ch = '!' then skipBlanks .line line rest
    else if ch = '\x7b' then skipBlanks (.comment 1) line rest
    else if ch ≤ ' ' then skipBlanks .blanks line rest
    else .ok (line, ch :: rest)

def readInWord (buflen : Nat) (f : Input) (buf : List Char) : List Char → Except Stop (Input × List Char)
  | [] => .ok ({ f with rest := [], eof := buf.length < buflen - 1 }, buf)
  | ch :: rest =>
    if buf.length < buflen - 1 ∧ isWordChar ch = true then do
      readInWord buflen f (← put buflen buf ch) rest
    else .ok ({ f with rest := ch :: rest }, buf)

def readQuoted (quote : Char) (buflen : Nat) (f : Input) (buf : List Char) :
    List Char → Except Stop (Input × List Char)
  | [] =>
    if buf.length < buflen - 1 then .error (.fatal f.line "EOF inside a quoted string?")
    else .ok ({ f with rest := [] }, buf)
  | ch :: rest =>
    if buf.length < buflen - 1 then
      if ch = '\n' then .error (.fatal f.line "newline inside quotes?")
      else if ch = quote then .ok ({ f with rest }, buf)
      else do readQuoted quote buflen f (← put buflen buf ch) rest
    else .ok ({ f with rest := ch :: rest }, buf)

def unexpected (ch : Char) : String := "unexpected character '" ++ ch.toString ++ "'"

/-- The characters that read_one_word() stores before the NUL. -/
def readChars (buflen : Nat) (expect : Expect) (f : Input) : Except Stop (Input × List Char) := do
  if buflen ≤ 1 then return (f, [])
  let (line, rest) ← skipBlanks .blanks f.line f.rest
  let f := { f with line, rest }
  match rest with
  | [] => return ({ f with eof := true }, [])
  | ch :: rest =>
    if ch = '"' ∨ ch = '\'' then
      if expect.left then .error (.fatal f.line (unexpected ch))
      else readQuoted ch buflen f [] rest
    else if expect.word && isWordChar ch then do
      readInWord buflen f (← put buflen [] ch) rest
    else if expect.left && ch == '(' then
      return ({ f with rest, level := f.level + 1 }, ← put buflen [] ch)
    else if expect.right && ch == ')' then
      return ({ f with rest, level := f.level - 1 }, ← put buflen [] ch)
    else .error (.fatal f.line (unexpected ch))

def readOneWord (buflen : Nat) (expect : Expect) (f : Input) : Except Stop (Input × List Char) := do
  let (f, buf) ← readChars buflen expect f
  return (f, cstr (← put buflen buf '\x00'))

/-! ## Buffers are not left -/

section
variable {buflen : Nat} {quote : Char}

theorem put_eq {size : Nat} {buf : List Char} (h : buf.length < size) (ch : Char) :
    put size buf ch = .ok (buf ++ [ch]) := if_pos h

theorem skipBlanks_avoids : ∀ (text : List Char) (s : Skip) (line : Nat),
    Lib.Avoids Stop.Outside (skipBlanks s line text) := by
  intro text
  induction text with
  | nil =>
    intro s line
    cases s <;> simp [skipBlanks, Stop.Outside]
  | cons ch rest ih =>
    intro s line
    cases s with
    | line => exact .ite (fun _ => ih _ _) (fun _ => ih _ _)
    | comment depth => exact .ite (fun _ => ih _ _) (fun _ => ih _ _)
    | blanks =>
      refine .ite (fun _ => ih _ _) fun _ => .ite (fun _ => ih _ _) fun _ => .ite (fun _ => ih _ _) fun _ => ?_
      exact .ite (fun _ => ih _ _) fun _ => .ite (fun _ => ih _ _) fun _ => avoids_ok _

/-- A reading that leaves room for the NUL, and does not leave the buffer. -/
def Fits (buflen : Nat) (x : Except Stop (Input × List Char)) : Prop :=
  Lib.Avoids Stop.Outside x ∧ ∀ r, x = .ok r → r.2.length < buflen

theorem fits_ok {f : Input} {buf : List Char} (h : buf.length < buflen) : Fits buflen (.ok (f, buf)) := by
  refine ⟨avoids_ok _, fun r hr => ?_⟩
  cases hr
  exact h

theorem fits_error {e : Stop} (he : ¬ e.Outside) : Fits buflen (.error e) := by
  refine ⟨avoids_error.mpr he, fun r hr => ?_⟩
  cases hr

theorem fits_fatal (line : Nat) (message : String) : Fits buflen (.error (.fatal line message)) :=
  fits_error id

theorem fits_readInWord (f : Input) : ∀ (text buf : List Char), buf.length < buflen →
    Fits buflen (readInWord buflen f buf text) := by
  intro text
  induction text with
  | nil => exact fun buf hlt => fits_ok hlt
  | cons ch rest ih =>
    intro buf hlt
    rw [readInWord, put_eq hlt]
    split
    · apply ih
      simp
      omega
    · exact fits_ok hlt

theorem fits_readQuoted (f : Input) : ∀ (text buf : List Char), buf.length < buflen →
    Fits buflen (readQuoted quote buflen f buf text) := by
  intro text
  induction text with
  | nil =>
    intro buf hlt
    rw [readQuoted]
    split
    · exact fits_fatal _ _
    · exact fits_ok hlt
  | cons ch rest ih =>
    intro buf hlt
    rw [readQuoted, put_eq hlt]
    split
    · split
      · exact fits_fatal _ _
      · split
        · exact fits_ok hlt
        · apply ih
          simp
          omega
    · exact fits_ok hlt

theorem fits_readChars (hpos : 0 < buflen) (expect : Expect) (f : Input) : Fits buflen (readChars buflen expect f) := by
  unfold readChars
  split
  · exact fits_ok hpos
  · have hskip := skipBlanks_avoids f.rest .blanks f.line
    cases hs : skipBlanks .blanks f.line f.rest with
    | error e =>
      rw [hs] at hskip
      exact fits_error (hskip e rfl)
    | ok r =>
      obtain ⟨line, rest⟩ := r
      have hone : ∀ ch : Char, [ch].length < buflen := by
        intro ch
        simp
        omega
      have hput : ∀ ch, put buflen [] ch = .ok [ch] := fun ch => if_pos hpos
      simp only [Lib.ok_bind, hput]
      cases rest with
      | nil => exact fits_ok hpos
      | cons ch rest =>
        dsimp only
        split
        · split
          · exact fits_fatal _ _
          · exact fits_readQuoted _ _ _ hpos
        · split
          · exact fits_readInWord _ _ _ (hone ch)
          · split
            · exact fits_ok (hone ch)
            · split
              · exact fits_ok (hone ch)
              · exact fits_fatal _ _

theorem readOneWord_avoids (hpos : 0 < buflen) (expect : Expect) (f : Input) :
    Lib.Avoids Stop.Outside (readOneWord buflen expect f) := by
  obtain ⟨havoids, hlength⟩ := fits_readChars hpos expect f
  refine havoids.bind fun a ha => ?_
  dsimp only
  rw [put_eq (hlength _ ha)]
  exact avoids_ok _

end

/-! ## A word takes characters from the file -/

section
variable {buflen : Nat} {expect : Expect} {quote : Char} {f f' : Input} {buf word : List Char}

theorem skipBlanks_length : ∀ {text rest : List Char} {s : Skip} {line line' : Nat},
    skipBlanks s line text = .ok (line', rest) → rest.length ≤ text.length := by
  intro text
  induction text with
  | nil =>
    intro rest s line line' h
    cases s <;> cases h <;> exact Nat.le_refl _
  | cons ch text ih =>
    intro rest s line line' h
    have hstep : ∀ {s line}, skipBlanks s line text = .ok (line', rest) → rest.length ≤ (ch :: text).length :=
      fun h => Nat.le_succ_of_le (ih h)
    cases s with
    | line =>
      rw [skipBlanks] at h
      split at h <;> exact hstep h
    | comment depth =>
      rw [skipBlanks] at h
      generalize (if ch = '\x7b' then depth + 1 else if ch = '\x7d' then depth - 1 else depth) = depth at h
      split at h <;> exact hstep h
    | blanks =>
      rw [skipBlanks] at h
      repeat
        split at h
        · exact hstep h
      cases h
      exact Nat.le_refl _

theorem readInWord_length : ∀ {text buf : List Char}, readInWord buflen f buf text = .ok (f', word) →
    f'.rest.length ≤ text.length := by
  intro text
  induction text with
  | nil =>
    intro buf h
    cases h
    exact Nat.le_refl _
  | cons ch text ih =>
    intro buf h
    rw [readInWord] at h
    split at h
    · obtain ⟨buf', -, h⟩ := Lib.bind_eq_ok h
      exact Nat.le_succ_of_le (ih h)
    · cases h
      exact Nat.le_refl _

theorem readQuoted_length : ∀ {text buf : List Char}, readQuoted quote buflen f buf text = .ok (f', word) →
    f'.rest.length ≤ text.length := by
  intro text
  induction text with
  | nil =>
    intro buf h
    rw [readQuoted] at h
    split at h
    · cases h
    · cases h
      exact Nat.le_refl _
  | cons ch text ih =>
    intro buf h
    rw [readQuoted] at h
    split at h
    · split at h
      · cases h
      · split at h
        · cases h
          exact Nat.le_succ _
        · obtain ⟨buf', -, h⟩ := Lib.bind_eq_ok h
          exact Nat.le_succ_of_le (ih h)
    · cases h
      exact Nat.le_refl _

theorem readChars_length (h : readChars buflen expect f = .ok (f', buf)) :
    f'.rest.length ≤ f.rest.length ∧ (buf ≠ [] → f'.rest.length < f.rest.length) := by
  unfold readChars at h
  split at h
  · cases h
    exact ⟨Nat.le_refl _, fun hne => absurd rfl hne⟩
  · obtain ⟨⟨line, rest⟩, hs, h⟩ := Lib.bind_eq_ok h
    have hskip := skipBlanks_length hs
    cases rest with
    | nil =>
      cases h
      exact ⟨Nat.zero_le _, fun hne => absurd rfl hne⟩
    | cons ch rest =>
      have hlt : ∀ {n}, n ≤ rest.length → n ≤ f.rest.length ∧ (buf ≠ [] → n < f.rest.length) := by
        intro n hn
        simp only [List.length_cons] at hskip
        exact ⟨by omega, fun _ => by omega⟩
      dsimp only at h
      split at h
      · split at h
        · cases h
        · exact hlt (readQuoted_length h)
      · split at h
        · obtain ⟨b, -, h⟩ := Lib.bind_eq_ok h
          exact hlt (readInWord_length h)
        · split at h
          · obtain ⟨b, -, h⟩ := Lib.bind_eq_ok h
            cases h
            exact hlt (Nat.le_refl _)
          · split at h
            · obtain ⟨b, -, h⟩ := Lib.bind_eq_ok h
              cases h
              exact hlt (Nat.le_refl _)
            · cases h

theorem readOneWord_length (h : readOneWord buflen expect f = .ok (f', word)) :
    f'.rest.length ≤ f.rest.length ∧ (word ≠ [] → f'.rest.length < f.rest.length) := by
  obtain ⟨⟨f1, buf⟩, hchars, h⟩ := Lib.bind_eq_ok h
  obtain ⟨buf', hput, h⟩ := Lib.bind_eq_ok h
  cases h
  obtain ⟨hle, hlt⟩ := readChars_length hchars
  refine ⟨hle, fun hne => hlt ?_⟩
  -- the string of a buffer that only has the NUL is empty
  rintro rfl
  apply hne
  unfold put at hput
  split at hput
  · cases hput
    rfl
  · cases hput

end

end Gxemul.Config
