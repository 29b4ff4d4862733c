import Gxemul.Lib.Run
import Mathlib.Data.BitVec
import Mathlib.Data.List.DropRight

/- Expressions of the debugger: debugger_parse_name() and debugger_parse_expression() in
   `src/debugger/debugger_expr.c`, for reading a value.

   An expression is split at its first operator of the lowest precedence that is not in
   parentheses, so that operators of one precedence are evaluated from right to left. The
   settings and the symbols of the machine are given as functions. -/
namespace Gxemul.Debugger

/-! ## Names -/

/-- `PARSE_NOMATCH`, `PARSE_MULTIPLE`, `PARSE_SETTINGS`, `PARSE_NUMBER` and `PARSE_SYMBOL`. -/
inductive ParseResult where
  | noMatch | multiple | settings | number | symbol
  deriving DecidableEq

/-- What a name is looked up in: settings_access() on the global settings, and get_symbol_addr(). -/
structure Names where
  curMachine : Nat
  curCpu : Nat
  setting : List Char → Option (BitVec 64)
  symbol : List Char → Option (BitVec 64)

def isBlank (c : Char) : Bool := c == '\t' || c == ' '

def digitValue (c : Char) : Nat :=
  if c.isDigit then c.toNat - 48
  else if 'a'.toNat ≤ c.toNat ∧ c.toNat ≤ 'f'.toNat then c.toNat - 87
  else if 'A'.toNat ≤ c.toNat ∧ c.toNat ≤ 'F'.toNat then c.toNat - 55
  else 16

/-- The number that a string begins with, in a base. What follows it does not matter. -/
def digits (base : Nat) (s : List Char) : Nat :=
  (s.takeWhile fun c => decide (digitValue c < base)).foldl (fun n c => n * base + digitValue c) 0

/-- `strtoull(s, NULL, 0)`, for a string that begins with a digit. -/
def strtoull (s : List Char) : BitVec 64 :=
  let n := match s with
    | '0' :: 'x' :: c :: s => if digitValue c < 16 then digits 16 (c :: s) else 0
    | '0' :: 'X' :: c :: s => if digitValue c < 16 then digits 16 (c :: s) else 0
    | '0' :: s => digits 8 s
    | s => digits 10 s
  BitVec.ofNat 64 (min n (2 ^ 64 - 1))

namespace Names
variable (names : Names)

/-- The names of a setting: the name itself, and with what can be left out, of which snprintf() keeps 399 bytes. -/
def settingNames (name : List Char) : List (List Char) :=
  let machine := "settings.emul.machine[".toList ++ (toString names.curMachine).toList ++ "].".toList
  name :: ["settings.".toList, "settings.emul.".toList, machine,
    machine ++ "cpu[".toList ++ (toString names.curCpu).toList ++ "].".toList].map fun path => (path ++ name).take 399

/-- `debugger_parse_name()`, which writes `*valuep` for every match. -/
def debuggerParseName (name : List Char) : ParseResult × Option (BitVec 64) :=
  let name := name.dropWhile isBlank
  let first := name.headD (Char.ofNat 0)
  let skipSettings := first == '$' || first == '@'
  let skipNumeric := first == '#' || first == '@'
  let skipSymbol := first == '$' || first == '#'
  let setting := if skipSettings then none else (names.settingNames name).findSome? names.setting
  let numeric := if !skipNumeric && first.isDigit then some (strtoull name) else none
  let symbol := if skipSymbol then none else names.symbol name
  let res :=
    if 1 < setting.isSome.toNat + symbol.isSome.toNat + numeric.isSome.toNat then .multiple
    else if setting.isSome then .settings
    else if numeric.isSome then .number
    else if symbol.isSome then .symbol
    else .noMatch
  (res, symbol.or (numeric.or setting))

end Names

/-! ## Operators -/

inductive Op where
  | add | sub | xor | and | or | mul | div | rem
  deriving DecidableEq

namespace Op

def char : Op → Char
  | .add => '+'
  | .sub => '-'
  | .xor => '^'
  | .and => '&'
  | .or => '|'
  | .mul => '*'
  | .div => '/'
  | .rem => '%'

def ofChar (c : Char) : Option Op := [add, sub, xor, and, or, mul, div, rem].find? fun op => op.char == c

/-- `+ - & | ^` have the lowest precedence. -/
def isLow : Op → Bool
  | .add | .sub | .xor | .and | .or => true
  | .mul | .div | .rem => false

def prec (op : Op) : Nat := if op.isLow then 0 else 1

end Op

/-- The process is stopped by the host, for a division by zero. -/
inductive Fault where
  | division
  deriving DecidableEq

def Op.apply (op : Op) (left right : BitVec 64) : Except Fault (BitVec 64) :=
  match op with
  | .add => .ok (left + right)
  | .sub => .ok (left - right)
  | .xor => .ok (left ^^^ right)
  | .and => .ok (left &&& right)
  | .or => .ok (left ||| right)
  | .mul => .ok (left * right)
  | .div => if right = 0#64 then .error .division else .ok (left / right)
  | .rem => if right = 0#64 then .error .division else .ok (left % right)

/-! ## Expressions -/

/-- What is returned: a failure, or `PARSE_NUMBER` with a value. -/
inductive Outcome where
  | noMatch
  | multiple
  | number (value : BitVec 64)
  deriving DecidableEq

/-- One character of the search for the lowest precedence: `nest` and `prec`. -/
def scanStep (s : Int × Nat) (c : Char) : Int × Nat :=
  if c = '(' then (s.1 + 1, s.2)
  else if c = ')' then (s.1 - 1, s.2)
  else match Op.ofChar c with
    | some op =>
      if s.1 = 0 then
        if op.isLow then (s.1, 0) else if 1 < s.2 then (s.1, 1) else s
      else s
    | none => s

/-- The first operator of the lowest precedence outside of parentheses, with what is on its left and on its right. -/
def splitFrom (prec : Nat) : Int → List Char → Option (List Char × Op × List Char)
  | _, [] => none
  | nest, c :: cs =>
    let next (nest : Int) := (splitFrom prec nest cs).map fun r => (c :: r.1, r.2)
    if c = '(' then next (nest + 1)
    else if c = ')' then next (nest - 1)
    else match Op.ofChar c with
      | some op => if (op.isLow || decide (prec ≠ 0)) && decide (nest = 0) then some ([], op, cs) else next nest
      | none => next nest

def combine (op : Op) : Outcome → Outcome → Except Fault Outcome
  | .noMatch, _ | _, .noMatch => .ok .noMatch
  | .multiple, _ | _, .multiple => .ok .multiple
  | .number left, .number right => do
    let value ← op.apply left right
    return .number value

def Names.leaf (names : Names) (expr : List Char) : Outcome :=
  let r := names.debuggerParseName expr
  match r.1 with
  | .noMatch => .noMatch
  | .multiple => .multiple
  | .settings | .number | .symbol => .number (r.2.getD 0#64)

/-- `debugger_parse_expression()`. Every part of a string is shorter than the string. -/
def parseExpression (names : Names) : Nat → List Char → Except Fault Outcome
  | 0, _ => .ok .noMatch
  | fuel + 1, expr =>
    let expr := expr.dropWhile isBlank
    let copy := expr.rdropWhile (· == ' ')
    let s := copy.foldl scanStep (0, 2)
    if s.1 ≠ 0 then .ok .noMatch
    else if s.2 = 2 ∧ copy.head? = some '(' ∧ copy.getLast? = some ')' then
      parseExpression names fuel copy.dropLast.tail
    else match splitFrom s.2 0 copy with
      | some (left, op, right) => do
        let l ← parseExpression names fuel (left.rdropWhile (· == ' '))
        let r ← parseExpression names fuel right
        combine op l r
      -- the name is not taken from the copy
      | none => .ok (names.leaf expr)

def debuggerParseExpression (names : Names) (expr : List Char) : Except Fault Outcome :=
  parseExpression names (expr.length + 1) expr

/-- The parts of a string that are given to debugger_parse_name(). -/
def parts : Nat → List Char → List (List Char)
  | 0, _ => []
  | fuel + 1, expr =>
    let expr := expr.dropWhile isBlank
    let copy := expr.rdropWhile (· == ' ')
    let s := copy.foldl scanStep (0, 2)
    if s.2 = 2 ∧ copy.head? = some '(' ∧ copy.getLast? = some ')' then parts fuel copy.dropLast.tail
    else match splitFrom s.2 0 copy with
      | some (left, _, right) => parts fuel (left.rdropWhile (· == ' ')) ++ parts fuel right
      | none => [expr]

/-! ## What expressions mean -/

def IsWord (p : List Char) : Prop :=
  p ≠ [] ∧ ∀ c ∈ p, isBlank c = false ∧ c ≠ '(' ∧ c ≠ ')' ∧ Op.ofChar c = none

inductive Expr where
  | word (p : List Char)
  | paren (e : Expr)
  | binary (op : Op) (l r : Expr)

namespace Expr

def level : Expr → Nat
  | .word _ | .paren _ => 2
  | .binary op _ _ => op.prec

def words : Expr → List (List Char)
  | .word p => [p]
  | .paren e => e.words
  | .binary _ l r => l.words ++ r.words

def padded (n : Nat) : Expr → Expr
  | .word p => .word (p ++ List.replicate n ' ')
  | .paren e => .paren e
  | .binary op l r => .binary op l r

def value (valueOf : List Char → BitVec 64) : Expr → Except Fault (BitVec 64)
  | .word p => .ok (valueOf p)
  | .paren e => e.value valueOf
  | .binary op l r => do
    let left ← l.value valueOf
    let right ← r.value valueOf
    op.apply left right

end Expr

def Blanks (b : List Char) : Prop := ∀ c ∈ b, isBlank c = true

/-- A string is read as an expression of a precedence. Of operators of the same precedence, the last one is the
outermost if they are read from the left, as is the convention, and the first one if not. -/
inductive Reads (fromLeft : Bool) : Nat → List Char → Expr → Prop where
  | word {p : List Char} (h : IsWord p) : Reads fromLeft 2 p (.word p)
  | paren {b s : List Char} {n : Nat} {e : Expr} (hb : Blanks b) (h : Reads fromLeft 0 s e) :
    Reads fromLeft 2 ('(' :: (b ++ s ++ List.replicate n ' ') ++ [')']) (.paren (e.padded n))
  | up {k : Nat} {s : List Char} {e : Expr} (h : Reads fromLeft (k + 1) s e) : Reads fromLeft k s e
  | chain {op : Op} {b s t : List Char} {n : Nat} {l r : Expr}
    (hl : Reads fromLeft (op.prec + if fromLeft then 0 else 1) s l) (hb : Blanks b)
    (hr : Reads fromLeft (op.prec + if fromLeft then 1 else 0) t r) :
    Reads fromLeft op.prec (s ++ List.replicate n ' ' ++ op.char :: (b ++ t)) (.binary op l r)

def Written (fromLeft : Bool) (s : List Char) (e : Expr) : Prop :=
  ∃ b s' n e', s = b ++ s' ++ List.replicate n ' ' ∧ Blanks b ∧ Reads fromLeft 0 s' e' ∧ e = e'.padded n

namespace Names
variable (names : Names)

def Resolves (p : List Char) : Prop := ∃ v, names.leaf p = .number v

def valueOf (p : List Char) : BitVec 64 := (names.debuggerParseName p).2.getD 0#64

end Names

def Expr.eval (names : Names) : Expr → Except Fault Outcome
  | .word p => .ok (names.leaf p)
  | .paren e => e.eval names
  | .binary op l r => do
    let left ← l.eval names
    let right ← r.eval names
    combine op left right

/-! ## The search for an operator -/

namespace Op

theorem ofChar_char (op : Op) : ofChar op.char = some op := by
  cases op <;> rfl

theorem char_of_ofChar {c : Char} {op : Op} (h : ofChar c = some op) : c = op.char := by
  have hc : (op.char == c) = true := List.find?_some (p := fun op : Op => op.char == c) h
  exact (beq_iff_eq.mp hc).symm

theorem char_ne (op : Op) : isBlank op.char = false ∧ op.char ≠ '(' ∧ op.char ≠ ')' := by
  cases op <;> decide

theorem prec_le (op : Op) : op.prec ≤ 1 := by
  cases op <;> decide

theorem splits_iff (op : Op) {prec : Nat} : (op.isLow || decide (prec ≠ 0)) = true ↔ op.prec ≤ prec := by
  unfold Op.prec
  cases op.isLow <;> simp [Nat.one_le_iff_ne_zero]

end Op

theorem blank_cases {c : Char} (h : isBlank c = true) : c = '\t' ∨ c = ' ' := by
  simpa [isBlank] using h

theorem scanStep_blank {c : Char} (h : isBlank c = true) (x : Int × Nat) : scanStep x c = x := by
  obtain rfl | rfl := blank_cases h <;> rfl

theorem scanStep_op (op : Op) {m : Int} {p : Nat} (hp : p ≤ 2) :
    scanStep (m, p) op.char = (m, if m = 0 then min p op.prec else p) := by
  obtain ⟨-, h₁, h₂⟩ := op.char_ne
  simp only [scanStep, h₁, h₂, if_false, Op.ofChar_char, Op.prec]
  by_cases hm : m = 0
  · cases op.isLow with
    | true => simp [hm]
    | false =>
      by_cases h : 1 < p
      · simp [hm, h]; omega
      · simp [hm, h]; omega
  · simp [hm]

theorem scan_blanks {b : List Char} (h : Blanks b) (x : Int × Nat) : b.foldl scanStep x = x := by
  induction b with
  | nil => rfl
  | cons c b ih =>
    rw [List.foldl_cons, scanStep_blank (h c (by simp))]
    exact ih fun d hd => h d (by simp [hd])

theorem blanks_replicate (n : Nat) : Blanks (List.replicate n ' ') := by
  intro c hc
  rw [List.eq_of_mem_replicate hc]
  rfl

theorem scan_word {p : List Char} (h : IsWord p) (x : Int × Nat) : p.foldl scanStep x = x := by
  obtain ⟨-, h⟩ := h
  induction p with
  | nil => rfl
  | cons c p ih =>
    obtain ⟨-, h₁, h₂, h₃⟩ := h c (by simp)
    rw [List.foldl_cons, show scanStep x c = x by simp [scanStep, h₁, h₂, h₃]]
    exact ih fun d hd => h d (by simp [hd])

theorem char_cases (c : Char) (m : Int) :
    (∃ op, c = Op.char op) ∨ (Op.ofChar c = none ∧ ∃ m', ∀ p, scanStep (m, p) c = (m', p)) := by
  cases h : Op.ofChar c with
  | some op => exact .inl ⟨op, Op.char_of_ofChar h⟩
  | none =>
    refine .inr ⟨rfl, (scanStep (m, 2) c).1, fun p => ?_⟩
    simp only [scanStep, h]
    split
    · rfl
    · split <;> rfl

theorem scanStep_le (c : Char) (m : Int) {p : Nat} (hp : p ≤ 2) : (scanStep (m, p) c).2 ≤ p := by
  obtain ⟨op, rfl⟩ | ⟨-, m', h⟩ := char_cases c m
  · rw [scanStep_op op hp]
    split <;> omega
  · rw [h]

theorem scan_nest (u : List Char) (m : Int) {p : Nat} (hp : p ≤ 2) :
    (u.foldl scanStep (m, p)).1 = (u.foldl scanStep (m, 2)).1 ∧
      (u.foldl scanStep (m, p)).2 = min p (u.foldl scanStep (m, 2)).2 := by
  induction u generalizing m p with
  | nil => exact ⟨rfl, (Nat.min_eq_left hp).symm⟩
  | cons c u ih =>
    rw [List.foldl_cons, List.foldl_cons]
    obtain ⟨op, rfl⟩ | ⟨-, m', h⟩ := char_cases c m
    · -- the precedence that is left is a minimum, of which the order does not matter
      rw [scanStep_op op hp, scanStep_op op (Nat.le_refl 2)]
      by_cases hm : m = 0
      · simp only [hm, if_true]
        obtain ⟨h₁, h₂⟩ := ih 0 (p := min p op.prec) (by omega)
        obtain ⟨h₃, h₄⟩ := ih 0 (p := min 2 op.prec) (by omega)
        exact ⟨h₁.trans h₃.symm, by omega⟩
      · simp only [hm, if_false]
        exact ih m hp
    · rw [h p, h 2]
      exact ih m' hp

theorem splitFrom_cons (prec : Nat) (m : Int) (c : Char) (cs : List Char) :
    (∃ op, c = Op.char op ∧ op.prec ≤ prec ∧ m = 0 ∧ splitFrom prec m (c :: cs) = some ([], op, cs)) ∨
      ((∀ op, c = Op.char op → op.prec ≤ prec → m ≠ 0) ∧ ∀ p ≤ 2, splitFrom prec m (c :: cs) =
        (splitFrom prec (scanStep (m, p) c).1 cs).map fun r => (c :: r.1, r.2)) := by
  cases ho : Op.ofChar c with
  | none =>
    refine .inr ⟨fun op hc => ?_, fun p _ => ?_⟩
    · rw [hc, op.ofChar_char] at ho
      cases ho
    · simp only [splitFrom, scanStep, ho]
      split
      · rfl
      · split <;> rfl
  | some op =>
    obtain rfl := Op.char_of_ofChar ho
    obtain ⟨-, h₁, h₂⟩ := op.char_ne
    simp only [splitFrom, h₁, h₂, if_false, ho, Bool.and_eq_true, op.splits_iff, decide_eq_true_eq]
    by_cases h : op.prec ≤ prec ∧ m = 0
    · exact .inl ⟨op, rfl, h.1, h.2, if_pos h⟩
    · refine .inr ⟨fun op' hc hle hm => ?_, fun p hp => ?_⟩
      · have hop : some op = some op' := by rw [← op.ofChar_char, hc, op'.ofChar_char]
        cases hop
        exact h ⟨hle, hm⟩
      · rw [if_neg h, scanStep_op op hp]

theorem scanStep_lt {prec p : Nat} {m : Int} {c : Char} (h : ∀ op, c = Op.char op → op.prec ≤ prec → m ≠ 0)
    (hp : p ≤ 2) (hprec : prec < p) : prec < (scanStep (m, p) c).2 := by
  obtain ⟨op, rfl⟩ | ⟨-, m', hm'⟩ := char_cases c m
  · rw [scanStep_op op hp]
    by_cases hm : m = 0
    · have hlt : ¬ op.prec ≤ prec := fun hle => h op rfl hle hm
      simp only [hm, if_true]
      omega
    · simpa only [hm, if_false] using hprec
  · simpa only [hm'] using hprec

theorem splitFrom_append (prec : Nat) (u w : List Char) {m : Int} {p : Nat} (hp : p ≤ 2)
    (h : prec < (u.foldl scanStep (m, p)).2 ∨ (u.foldl scanStep (m, p)).2 = 2) :
    splitFrom prec m (u ++ w) =
      (splitFrom prec (u.foldl scanStep (m, p)).1 w).map fun r => (u ++ r.1, r.2) := by
  induction u generalizing m p with
  | nil => simp
  | cons c u ih =>
    rw [List.foldl_cons] at h ⊢
    have hp' := scanStep_le c m hp
    obtain ⟨op, rfl, hle, rfl, -⟩ | ⟨-, hgo⟩ := splitFrom_cons prec m c (u ++ w)
    · -- the precedence found is at most that of this operator
      rw [scanStep_op op hp, if_pos rfl] at h
      have hmin := (scan_nest u 0 (p := min p op.prec) (by omega)).2
      have hop := op.prec_le
      omega
    · rw [List.cons_append, hgo p hp, ih (m := (scanStep (m, p) c).1) (p := (scanStep (m, p) c).2) (by omega) h,
        Option.map_map]
      rfl

theorem splitFrom_some {prec : Nat} {u l r : List Char} {op : Op} {m : Int} {p : Nat} (hp : p ≤ 2) (hprec : prec < p)
    (h : splitFrom prec m u = some (l, op, r)) :
    u = l ++ op.char :: r ∧ op.prec ≤ prec ∧ (l.foldl scanStep (m, p)).1 = 0 ∧
      prec < (l.foldl scanStep (m, p)).2 := by
  induction u generalizing l m p with
  | nil => cases h
  | cons c u ih =>
    have hp' := scanStep_le c m hp
    obtain ⟨op', rfl, hle, rfl, heq⟩ | ⟨hno, hgo⟩ := splitFrom_cons prec m c u
    · rw [heq] at h
      cases h
      exact ⟨rfl, hle, rfl, hprec⟩
    · rw [hgo p hp, Option.map_eq_some_iff] at h
      obtain ⟨⟨l', x⟩, hx, heq⟩ := h
      cases heq
      obtain ⟨rfl, hle, hn⟩ := ih (p := (scanStep (m, p) c).2) (by omega) (scanStep_lt hno hp hprec) hx
      exact ⟨rfl, hle, hn⟩

theorem splitFrom_scan {u l r : List Char} {op : Op} {x : Int × Nat} (hscan : u.foldl scanStep (0, 2) = x)
    (hsplit : splitFrom x.2 0 u = some (l, op, r)) :
    u = l ++ op.char :: r ∧ (l.foldl scanStep (0, 2)).1 = 0 ∧ op.prec < (l.foldl scanStep (0, 2)).2 ∧
      op.prec ≤ (r.foldl scanStep (0, 2)).2 ∧ (r.foldl scanStep (0, 2)).1 = x.1 := by
  have hle : x.2 ≤ 2 := by
    rw [← hscan, (scan_nest u 0 (Nat.le_refl 2)).2]
    exact Nat.min_le_left 2 _
  have hne : x.2 ≠ 2 := by
    intro hx
    have hpass := splitFrom_append 2 u [] (m := 0) (Nat.le_refl 2) (.inr (by rw [hscan, hx]))
    rw [List.append_nil, ← hx, hsplit] at hpass
    cases hpass
  obtain ⟨heq, hop, hnest, hlt⟩ := splitFrom_some (Nat.le_refl 2) (by omega) hsplit
  -- what is found in the whole is found on the right, or is this operator
  have hl : l.foldl scanStep (0, 2) = (0, (l.foldl scanStep (0, 2)).2) := Prod.ext hnest rfl
  have hq : (l.foldl scanStep (0, 2)).2 ≤ 2 := by
    rw [(scan_nest l 0 (Nat.le_refl 2)).2]
    exact Nat.min_le_left 2 _
  rw [heq, List.foldl_append, hl, List.foldl_cons, scanStep_op op hq, if_pos rfl] at hscan
  obtain ⟨hnest', hmin⟩ := scan_nest r 0 (p := min (l.foldl scanStep (0, 2)).2 op.prec) (by omega)
  rw [hscan] at hnest' hmin
  exact ⟨heq, hnest, by omega, by omega, hnest'.symm⟩

/-! ## Blanks around a string -/

theorem dropBlanks {b s : List Char} (hb : Blanks b) (hs : ∀ c, s.head? = some c → isBlank c = false) :
    (b ++ s).dropWhile isBlank = s := by
  rw [List.dropWhile_append_of_pos hb]
  cases s with
  | nil => rfl
  | cons c s => exact List.dropWhile_cons_of_neg (by simp [hs c rfl])

theorem dropSpaces {s : List Char} (n : Nat) (hs : s.getLast? ≠ some ' ') :
    (s ++ List.replicate n ' ').rdropWhile (· == ' ') = s := by
  induction n with
  | zero =>
    rw [List.replicate_zero, List.append_nil, List.rdropWhile_eq_self_iff]
    intro h hlast
    apply hs
    rw [List.getLast?_eq_some_getLast h, beq_iff_eq.mp hlast]
  | succ n ih =>
    rw [List.replicate_succ', ← List.append_assoc, List.rdropWhile_concat_pos _ _ _ rfl, ih]

theorem exists_blanks (s : List Char) :
    ∃ b, Blanks b ∧ s = b ++ s.dropWhile isBlank :=
  ⟨s.takeWhile isBlank, fun _ => List.mem_takeWhile_imp, List.takeWhile_append_dropWhile.symm⟩

theorem exists_spaces (s : List Char) : ∃ n, s = s.rdropWhile (· == ' ') ++ List.replicate n ' ' := by
  refine ⟨(s.rtakeWhile (· == ' ')).length, ?_⟩
  have h : s.rtakeWhile (· == ' ') = List.replicate (s.rtakeWhile (· == ' ')).length ' ' := by
    rw [List.eq_replicate_iff]
    exact ⟨rfl, fun c hc => beq_iff_eq.mp (List.mem_rtakeWhile_imp (p := fun c => c == ' ') hc)⟩
  rw [← h, List.rdropWhile_append_rtakeWhile]

/-! ## Strings that are read -/

section Reading
variable {fromLeft : Bool} {k : Nat} {s : List Char} {e : Expr}

theorem Reads.le_level (h : Reads fromLeft k s e) : k ≤ e.level := by
  induction h with
  | word | paren | chain => exact Nat.le_refl _
  | up _ ih => omega

theorem Reads.down (h : Reads fromLeft k s e) {j : Nat} (hj : j ≤ k) : Reads fromLeft j s e := by
  induction hj with
  | refl => exact h
  | step _ ih => exact ih h.up

theorem Reads.at_level (h : Reads fromLeft k s e) : Reads fromLeft e.level s e := by
  induction h with
  | word h => exact .word h
  | paren hb h => exact .paren hb h
  | up _ ih => exact ih
  | chain hl hb hr => exact .chain hl hb hr

theorem Reads.ends (h : Reads fromLeft k s e) :
    (∃ c t, s = c :: t ∧ isBlank c = false) ∧ ∃ t c, s = t ++ [c] ∧ c ≠ ' ' := by
  induction h with
  | @word p h =>
    obtain ⟨hp, h⟩ := h
    obtain ⟨c, t, rfl⟩ := List.exists_cons_of_ne_nil hp
    refine ⟨⟨c, t, rfl, (h c (by simp)).1⟩, _, _, (List.dropLast_append_getLast hp).symm, fun hc => ?_⟩
    have hlast := (h _ (List.getLast_mem hp)).1
    rw [hc] at hlast
    cases hlast
  | paren => exact ⟨⟨_, _, rfl, rfl⟩, _, _, rfl, by decide⟩
  | up _ ih => exact ih
  | @chain op b _ _ n _ _ _ _ _ ihl ihr =>
    obtain ⟨⟨c, t, rfl, hc⟩, -⟩ := ihl
    obtain ⟨-, t', c', rfl, hc'⟩ := ihr
    exact ⟨⟨c, _, rfl, hc⟩, c :: t ++ List.replicate n ' ' ++ op.char :: (b ++ t'), c', by simp, hc'⟩

theorem Reads.head (h : Reads fromLeft k s e) (u : List Char) (c : Char) (hc : (s ++ u).head? = some c) :
    isBlank c = false := by
  obtain ⟨⟨d, t, rfl, hd⟩, -⟩ := h.ends
  cases hc
  exact hd

theorem Reads.last (h : Reads fromLeft k s e) : s.getLast? ≠ some ' ' := by
  obtain ⟨-, t, c, rfl, hc⟩ := h.ends
  simpa using hc

theorem Reads.scan (h : Reads fromLeft k s e) {m : Int} {p : Nat} (hm : 0 ≤ m) (hp : p ≤ 2) :
    s.foldl scanStep (m, p) = (m, if m = 0 then min p e.level else p) := by
  induction h generalizing m p with
  | word h =>
    rw [scan_word h]
    split <;> simp [Expr.level, hp]
  | @paren b s n e hb _ ih =>
    have hm' : ¬ m + 1 = 0 := by omega
    have hopen : scanStep (m, p) '(' = (m + 1, p) := rfl
    have hclose : scanStep (m + 1, p) ')' = (m, p) := by simp [scanStep]
    rw [List.cons_append, List.foldl_cons, hopen, List.foldl_append, List.foldl_append, List.foldl_append,
      scan_blanks hb, ih (by omega) hp, if_neg hm', scan_blanks (blanks_replicate n), List.foldl_cons, hclose,
      List.foldl_nil]
    split <;> simp [Expr.level, hp]
  | up _ ih => exact ih hm hp
  | @chain op b s t n l r hl hb hr ihl ihr =>
    have hl := hl.le_level
    have hr := hr.le_level
    have hbound : ∀ q x : Nat, q ≤ 2 → (if m = 0 then min q x else q) ≤ 2 := by
      intro q x hq
      split <;> omega
    rw [List.foldl_append, List.foldl_append, ihl hm hp, scan_blanks (blanks_replicate n), List.foldl_cons,
      scanStep_op op (hbound _ _ hp), List.foldl_append, scan_blanks hb, ihr hm (hbound _ _ (hbound _ _ hp))]
    by_cases hm : m = 0
    · have hlevel : (Expr.binary op l r).level = op.prec := rfl
      simp only [hm, if_true, hlevel, Prod.mk.injEq, true_and]
      omega
    · simp only [hm, if_false]

end Reading

section Evaluation
variable {names : Names} {fuel : Nat} {s : List Char} {e : Expr}

theorem Reads.trimmed {fromLeft : Bool} {k : Nat} (h : Reads fromLeft k s e) {b : List Char} (n : Nat)
    (hb : Blanks b) :
    (b ++ s ++ List.replicate n ' ').dropWhile isBlank = s ++ List.replicate n ' ' ∧
      (s ++ List.replicate n ' ').rdropWhile (· == ' ') = s := by
  refine ⟨?_, dropSpaces n h.last⟩
  rw [List.append_assoc]
  exact dropBlanks hb (h.head _)

theorem Reads.eval {k : Nat} (h : Reads false k s e) {b : List Char} {n : Nat} (hb : Blanks b)
    (hfuel : (b ++ s ++ List.replicate n ' ').length < fuel) :
    parseExpression names fuel (b ++ s ++ List.replicate n ' ') = (e.padded n).eval names := by
  induction h generalizing b n fuel with
  | up _ ih => exact ih hb hfuel
  | @word p hp =>
    have h : Reads false 2 p (.word p) := .word hp
    obtain ⟨fuel, rfl⟩ := Nat.exists_eq_succ_of_ne_zero (Nat.ne_of_gt (Nat.zero_lt_of_lt hfuel))
    have hscan : p.foldl scanStep (0, 2) = (0, 2) := scan_word hp _
    have hopen : ¬ p.head? = some '(' := fun hc => (hp.2 '(' (List.mem_of_head? hc)).2.1 rfl
    have hsplit : splitFrom 2 0 p = none := by
      have hpass := splitFrom_append 2 p [] (m := 0) (Nat.le_refl 2) (.inr (by rw [hscan]))
      simpa [splitFrom] using hpass
    simp only [parseExpression, h.trimmed n hb, hscan, hopen, hsplit, ne_eq, not_true_eq_false, false_and, and_false,
      if_false]
    rfl
  | @paren b' s' n' e hb' hs ih =>
    have h : Reads false 2 _ (.paren (e.padded n')) := .paren hb' hs
    obtain ⟨fuel, rfl⟩ := Nat.exists_eq_succ_of_ne_zero (Nat.ne_of_gt (Nat.zero_lt_of_lt hfuel))
    have hscan := h.scan (m := 0) (p := 2) (Int.le_refl 0) (Nat.le_refl 2)
    have hlen : (b' ++ s' ++ List.replicate n' ' ').length < fuel := by
      simp only [List.length_append, List.length_cons] at hfuel ⊢
      omega
    simp only [parseExpression, h.trimmed n hb, hscan]
    rw [if_neg (by simp), if_pos ⟨rfl, rfl, List.getLast?_concat⟩]
    rw [List.dropLast_concat, List.tail_cons, ih hb' hlen]
    rfl
  | @chain op b' s' t n' l r hl hb' hr ihl ihr =>
    have h : Reads false op.prec _ (.binary op l r) := .chain (n := n') hl hb' hr
    obtain ⟨fuel, rfl⟩ := Nat.exists_eq_succ_of_ne_zero (Nat.ne_of_gt (Nat.zero_lt_of_lt hfuel))
    have hop := op.prec_le
    have hlevel : op.prec + 1 ≤ l.level := hl.le_level
    have hscan := h.scan (m := 0) (p := 2) (Int.le_refl 0) (Nat.le_refl 2)
    have hmin : min 2 (Expr.binary op l r).level = op.prec := Nat.min_eq_right (by simp only [Expr.level]; omega)
    rw [if_pos rfl, hmin] at hscan
    -- the left side, and the spaces after it, are passed over
    have hleft : (s' ++ List.replicate n' ' ').foldl scanStep (0, 2) = (0, min 2 l.level) := by
      rw [List.foldl_append, hl.scan (Int.le_refl 0) (Nat.le_refl 2), scan_blanks (blanks_replicate n'), if_pos rfl]
    have hsplit : splitFrom op.prec 0 (s' ++ List.replicate n' ' ' ++ op.char :: (b' ++ t)) =
        some (s' ++ List.replicate n' ' ', op, b' ++ t) := by
      have hhere : splitFrom op.prec 0 (op.char :: (b' ++ t)) = some ([], op, b' ++ t) := by
        obtain ⟨-, h₁, h₂⟩ := op.char_ne
        have hsplits := op.splits_iff.2 (Nat.le_refl op.prec)
        simp only [splitFrom, h₁, h₂, if_false, op.ofChar_char, hsplits, Bool.true_and, decide_true, if_true]
      rw [splitFrom_append _ _ _ (Nat.le_refl 2) (.inl (by rw [hleft]; dsimp only; omega)), hleft, hhere]
      simp
    have hl' := @ihl fuel [] 0 (fun _ hc => absurd hc List.not_mem_nil) (by
      simp only [List.length_append, List.length_cons, List.length_nil, List.length_replicate] at hfuel ⊢
      omega)
    have hr' := @ihr fuel b' 0 hb' (by
      simp only [List.length_append, List.length_cons, List.length_replicate] at hfuel ⊢
      omega)
    have hpadded : ∀ e : Expr, (e.padded 0).eval names = e.eval names := by
      intro e
      cases e <;> simp [Expr.padded, Expr.eval]
    simp only [List.replicate_zero, List.append_nil, List.nil_append, hpadded] at hl' hr'
    simp only [parseExpression, h.trimmed n hb, hscan, hsplit, dropSpaces n' hl.last, hl', hr']
    rw [if_neg (by simp), if_neg (by omega)]
    rfl

theorem combine_number {op : Op} {l r : Outcome} {v : BitVec 64} (h : combine op l r = .ok (.number v)) :
    ∃ left right, l = .number left ∧ r = .number right := by
  cases l with
  | noMatch => cases h
  | multiple => cases r <;> cases h
  | number left =>
    cases r with
    | noMatch => cases h
    | multiple => cases h
    | number right => exact ⟨left, right, rfl, rfl⟩

theorem Expr.eval_eq_value (h : ∀ p ∈ e.words, names.Resolves p) :
    e.eval names = (e.value names.valueOf).map .number := by
  induction e with
  | word p =>
    obtain ⟨v, hv⟩ := h p (by simp [Expr.words])
    have hvalue : names.leaf p = .number (names.valueOf p) := by
      unfold Names.leaf at hv ⊢
      unfold Names.valueOf
      generalize names.debuggerParseName p = x at hv ⊢
      obtain ⟨res, value⟩ := x
      cases res with
      | noMatch => cases hv
      | multiple => cases hv
      | settings | number | symbol => rfl
    rw [Expr.eval, hvalue]
    rfl
  | paren e ih => exact ih h
  | binary op l r ihl ihr =>
    rw [Expr.eval, Expr.value, ihl fun p hp => h p (by simp [Expr.words, hp]),
      ihr fun p hp => h p (by simp [Expr.words, hp])]
    cases l.value names.valueOf with
    | error => rfl
    | ok left =>
      cases r.value names.valueOf with
      | error => rfl
      | ok right => cases h : op.apply left right <;> simp [combine, Except.map, bind, Except.bind, h, pure, Except.pure]

theorem Expr.resolves_of_eval {v : BitVec 64} (h : e.eval names = .ok (.number v)) :
    ∀ p ∈ e.words, names.Resolves p := by
  induction e generalizing v with
  | word p =>
    intro q hq
    obtain rfl : q = p := by simpa [Expr.words] using hq
    exact ⟨v, by simpa [Expr.eval] using h⟩
  | paren e ih => exact ih h
  | binary op l r ihl ihr =>
    obtain ⟨left, hleft, h⟩ := Lib.bind_eq_ok h
    obtain ⟨right, hright, h⟩ := Lib.bind_eq_ok h
    obtain ⟨vl, vr, rfl, rfl⟩ := combine_number h
    intro p hp
    obtain hp | hp := List.mem_append.mp hp
    · exact ihl hleft p hp
    · exact ihr hright p hp

theorem eq_paren {u : List Char} (hopen : u.head? = some '(') (hclose : u.getLast? = some ')') :
    u = '(' :: u.dropLast.tail ++ [')'] := by
  obtain ⟨t, rfl⟩ := List.head?_eq_some_iff.mp hopen
  obtain ⟨t', ht'⟩ := List.getLast?_eq_some_iff.mp hclose
  rw [ht', List.dropLast_concat]
  cases t' with
  | nil => cases ht'
  | cons c t' =>
    cases ht'
    rfl

theorem parseExpression_cases {v : BitVec 64} (h : parseExpression names (fuel + 1) s = .ok (.number v)) :
    ∃ b copy n, s = b ++ copy ++ List.replicate n ' ' ∧ Blanks b ∧
      (∀ c, copy.head? = some c → isBlank c = false) ∧
      ((∃ inner, copy = '(' :: inner ++ [')'] ∧ parseExpression names fuel inner = .ok (.number v) ∧
          parts (fuel + 1) s = parts fuel inner) ∨
        (∃ (l : List Char) (op : Op) (r : List Char) (vl vr : BitVec 64), copy = l ++ op.char :: r ∧ (l.foldl scanStep (0, 2)).1 = 0 ∧
          op.prec < (l.foldl scanStep (0, 2)).2 ∧ op.prec ≤ (r.foldl scanStep (0, 2)).2 ∧
          parseExpression names fuel (l.rdropWhile (· == ' ')) = .ok (.number vl) ∧
          parseExpression names fuel r = .ok (.number vr) ∧
          parts (fuel + 1) s = parts fuel (l.rdropWhile (· == ' ')) ++ parts fuel r) ∨
        ∃ p, p = copy ++ List.replicate n ' ' ∧ p.rdropWhile (· == ' ') = copy ∧ names.leaf p = .number v ∧
          parts (fuel + 1) s = [p]) := by
  obtain ⟨b, hb, hs⟩ := exists_blanks s
  obtain ⟨n, hn⟩ := exists_spaces (s.dropWhile isBlank)
  have hhead : ∀ c, (s.dropWhile isBlank).head? = some c → isBlank c = false := by
    intro c hc
    have hnot := List.head?_dropWhile_not isBlank s
    rw [hc] at hnot
    exact hnot
  simp only [parts]
  simp only [parseExpression] at h
  generalize s.dropWhile isBlank = expr at hs hn hhead h ⊢
  generalize hcopy : expr.rdropWhile (· == ' ') = copy at hn h ⊢
  refine ⟨b, copy, n, by rw [List.append_assoc, ← hn, ← hs], hb, fun c hc => hhead c ?_, ?_⟩
  · rw [hn, List.head?_append, hc]
    rfl
  · generalize hscan : copy.foldl scanStep (0, 2) = x at h ⊢
    split at h
    · cases h
    · split at h
      · rename_i hparen
        rw [if_pos hparen]
        exact .inl ⟨copy.dropLast.tail, eq_paren hparen.2.1 hparen.2.2, h, rfl⟩
      · rename_i hparen
        rw [if_neg hparen]
        cases hsplit : splitFrom x.2 0 copy with
        | none =>
          simp only [hsplit] at h ⊢
          exact .inr (.inr ⟨expr, hn, hcopy, by simpa using h, rfl⟩)
        | some r =>
          obtain ⟨l, op, r⟩ := r
          simp only [hsplit] at h ⊢
          obtain ⟨left, hleft, h⟩ := Lib.bind_eq_ok h
          obtain ⟨right, hright, h⟩ := Lib.bind_eq_ok h
          obtain ⟨vl, vr, rfl, rfl⟩ := combine_number h
          obtain ⟨heq, hnest, hlt, hle, -⟩ := splitFrom_scan hscan hsplit
          exact .inr (.inl ⟨l, op, r, vl, vr, heq, hnest, hlt, hle, hleft, hright, rfl⟩)

theorem parts_resolve {v : BitVec 64} (h : parseExpression names fuel s = .ok (.number v)) :
    ∀ p ∈ parts fuel s, names.Resolves p := by
  induction fuel generalizing s v with
  | zero => cases h
  | succ fuel ih =>
    obtain ⟨b, copy, n, -, -, -, ⟨inner, -, hin, hparts⟩ | ⟨l, op, r, vl, vr, -, -, -, -, hl, hr, hparts⟩ |
      ⟨p, -, -, hp, hparts⟩⟩ := parseExpression_cases h
    · rw [hparts]
      exact ih hin
    · rw [hparts]
      intro p hp
      obtain hp | hp := List.mem_append.mp hp
      · exact ih hl p hp
      · exact ih hr p hp
    · rw [hparts]
      intro q hq
      rw [List.mem_singleton.mp hq]
      exact ⟨v, hp⟩

theorem written_of_parts {v : BitVec 64} (h : parseExpression names fuel s = .ok (.number v))
    (hwords : ∀ p ∈ parts fuel s, IsWord (p.rdropWhile (· == ' '))) : ∃ e, Written false s e := by
  induction fuel generalizing s v with
  | zero => cases h
  | succ fuel ih =>
    obtain ⟨b, copy, n, rfl, hb, hhead, ⟨inner, rfl, hin, hparts⟩ |
      ⟨l, op, r, vl, vr, rfl, hnest, hlt, hle, hl, hr, hparts⟩ | ⟨p, -, hp, -, hparts⟩⟩ := parseExpression_cases h
    · rw [hparts] at hwords
      obtain ⟨e, b', s', n', e', rfl, hb', hreads, -⟩ := ih hin hwords
      exact ⟨_, b, _, n, _, rfl, hb, (Reads.paren (n := n') hb' hreads).down (Nat.zero_le 2), rfl⟩
    · rw [hparts] at hwords
      obtain ⟨el, bl, sl, nl, el', hleft, hbl, hreadsl, -⟩ := ih hl fun p hp => hwords p (List.mem_append_left _ hp)
      obtain ⟨er, br, sr, nr, er', rfl, hbr, hreadsr, -⟩ := ih hr fun p hp => hwords p (List.mem_append_right _ hp)
      obtain ⟨m, hm⟩ := exists_spaces l
      rw [hleft] at hm
      -- there are no blanks at the beginning of the left side
      obtain rfl : bl = [] := by
        cases bl with
        | nil => rfl
        | cons c bl =>
          rw [hm] at hhead
          have hc := hbl c List.mem_cons_self
          rw [hhead c rfl] at hc
          cases hc
      obtain rfl : l = sl ++ List.replicate (nl + m) ' ' := by
        rw [hm, List.nil_append, List.append_assoc, List.replicate_append_replicate]
      have hlevel : op.prec + 1 ≤ el'.level := by
        rw [List.foldl_append, hreadsl.scan (Int.le_refl 0) (Nat.le_refl 2), scan_blanks (blanks_replicate _)] at hlt
        simp only [if_true] at hlt
        omega
      have hlevel' : op.prec ≤ er'.level := by
        rw [List.foldl_append, List.foldl_append, scan_blanks hbr, hreadsr.scan (Int.le_refl 0) (Nat.le_refl 2),
          scan_blanks (blanks_replicate _)] at hle
        simp only [if_true] at hle
        omega
      have hchain := Reads.chain (n := nl + m) (hreadsl.at_level.down hlevel) hbr (hreadsr.at_level.down hlevel')
      refine ⟨_, b, _, nr + n, _, ?_, hb, hchain.down (Nat.zero_le _), rfl⟩
      simp only [← List.replicate_append_replicate, List.append_assoc, List.cons_append]
    · have hword : IsWord copy := by
        rw [← hp]
        apply hwords p
        rw [hparts]
        exact List.mem_singleton_self p
      exact ⟨_, b, copy, n, _, rfl, hb, (Reads.word hword).down (Nat.zero_le 2), rfl⟩

theorem Written.eval (h : Written false s e) : debuggerParseExpression names s = e.eval names := by
  obtain ⟨b, s', n, e', rfl, hb, hreads, rfl⟩ := h
  exact hreads.eval hb (Nat.lt_succ_self _)

end Evaluation

/-- An expression without a space between a word alone and a closing parenthesis or the end has the value that it
has with the operators of one precedence evaluated from right to left, and has one only if every word is matched
exactly once. A string that is no expression has a value only if one of its parts is matched without being a word. -/
theorem debuggerParseExpression_correct (names : Names) (s : List Char) :
    (∀ e, Written false s e → (∀ p ∈ e.words, IsWord p) →
      ((∀ p ∈ e.words, names.Resolves p) →
        debuggerParseExpression names s = (e.value names.valueOf).map .number) ∧
      ∀ v, debuggerParseExpression names s = .ok (.number v) → ∀ p ∈ e.words, names.Resolves p) ∧
    ((¬ ∃ e, Written false s e) → ∀ v, debuggerParseExpression names s = .ok (.number v) →
      ∃ p ∈ parts (s.length + 1) s, names.Resolves p ∧ ¬ IsWord (p.rdropWhile (· == ' '))) := by
  refine ⟨fun e he _ => ⟨fun hall => ?_, fun v hv => ?_⟩, fun hno v hv => ?_⟩
  · rw [he.eval, Expr.eval_eq_value hall]
  · rw [he.eval] at hv
    exact Expr.resolves_of_eval hv
  · by_contra hwords
    push Not at hwords
    exact hno (written_of_parts hv fun p hp => hwords p hp (parts_resolve hv p hp))

/-- The convention: operators of one precedence are evaluated from left to right. -/
def ConventionalValue (names : Names) (s : List Char) : Prop :=
  ∀ e v, Written true s e → (∀ p ∈ e.words, names.Resolves p) → e.value names.valueOf = .ok v →
    debuggerParseExpression names s = .ok (.number v)

/-- `5-3-2` has the value 4. -/
theorem fiveMinus_value : ¬ ∀ names s, ConventionalValue names s := by
  intro h
  let names : Names := ⟨0, 0, fun _ => none, fun _ => none⟩
  let e : Expr := .binary .sub (.binary .sub (.word ['5']) (.word ['3'])) (.word ['2'])
  have hword : ∀ {k : Nat} {c : Char}, k ≤ 2 → IsWord [c] → Reads true k [c] (.word [c]) :=
    fun hk hc => (Reads.word hc).down hk
  have hdigit : ∀ {c : Char}, isBlank c = false → c ≠ '(' → c ≠ ')' → Op.ofChar c = none → IsWord [c] := by
    intro c h₁ h₂ h₃ h₄
    refine ⟨List.cons_ne_nil c [], fun d hd => ?_⟩
    rw [List.mem_singleton.mp hd]
    exact ⟨h₁, h₂, h₃, h₄⟩
  have h5 : IsWord ['5'] := hdigit rfl (by decide) (by decide) rfl
  have h3 : IsWord ['3'] := hdigit rfl (by decide) (by decide) rfl
  have h2 : IsWord ['2'] := hdigit rfl (by decide) (by decide) rfl
  have hblanks : Blanks [] := fun _ h => absurd h List.not_mem_nil
  -- the last operator is the outermost one
  have hleft : Reads true 0 ['5', '-', '3'] (.binary .sub (.word ['5']) (.word ['3'])) :=
    @Reads.chain true .sub [] ['5'] ['3'] 0 _ _ (hword (by decide) h5) hblanks (hword (by decide) h3)
  have hchain : Reads true 0 ['5', '-', '3', '-', '2'] e :=
    @Reads.chain true .sub [] _ ['2'] 0 _ _ hleft hblanks (hword (by decide) h2)
  have hresolves : ∀ p ∈ e.words, names.Resolves p := by
    intro p hp
    simp only [e, Expr.words, List.cons_append, List.nil_append, List.mem_cons, List.not_mem_nil, or_false] at hp
    obtain rfl | rfl | rfl := hp
    · exact ⟨5#64, by decide +kernel⟩
    · exact ⟨3#64, by decide +kernel⟩
    · exact ⟨2#64, by decide +kernel⟩
  have hvalue : e.value names.valueOf = .ok 0#64 := by decide +kernel
  have h0 := h names "5-3-2".toList e 0#64 ⟨[], _, 0, e, rfl, hblanks, hchain, rfl⟩ hresolves hvalue
  have hcode : debuggerParseExpression names "5-3-2".toList = .ok (.number 4#64) := by decide +kernel
  rw [hcode] at h0
  cases h0

end Gxemul.Debugger
