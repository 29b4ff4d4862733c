import Gxemul.Debugger.Expression

/- Whether debugger_parse_expression() survives a string: it must return, it must not divide by
   zero, and it must only read the values of two sides that both have one.

   Any string with as many closing as opening parentheses is split into an expression, whose
   words are the parts between operators. Whether there is a division by zero is a question
   about that expression. -/
namespace Gxemul.Debugger

/-- What must not happen: a division by zero, reading a value that is not there, and calls that never end. -/
inductive Stop where
  | division
  | unset
  | depth
  deriving DecidableEq

/-- `*valuep` after a call, which is only there if the call returned `PARSE_NUMBER`. -/
def Outcome.read : Outcome → Except Stop (BitVec 64)
  | .noMatch | .multiple => .error .unset
  | .number value => .ok value

def combineChecked (op : Op) (res1 res2 : Outcome) : Except Stop Outcome :=
  if res1 = .noMatch ∨ res2 = .noMatch then .ok .noMatch
  else if res1 = .multiple ∨ res2 = .multiple then .ok .multiple
  else do
    let left ← res1.read
    let right ← res2.read
    match op.apply left right with
    | .ok value => .ok (.number value)
    | .error .division => .error .division

/-- `debugger_parse_expression()`, which stops where it must not go on. -/
def evaluate (names : Names) : Nat → List Char → Except Stop Outcome
  | 0, _ => .error .depth
  | fuel + 1, expr =>
    let expr := expr.dropWhile isBlank
    let copy := expr.rdropWhile (· == ' ')
    let s := copy.foldl scanStep (0, 2)
    if s.1 ≠ 0 then .ok .noMatch
    else if s.2 = 2 ∧ copy.head? = some '(' ∧ copy.getLast? = some ')' then evaluate names fuel copy.dropLast.tail
    else match splitFrom s.2 0 copy with
      | some (left, op, right) => do
        let res1 ← evaluate names fuel (left.rdropWhile (· == ' '))
        let res2 ← evaluate names fuel right
        combineChecked op res1 res2
      | none => .ok (names.leaf expr)

def Survives (names : Names) (s : List Char) : Prop := ∃ o, evaluate names (s.length + 1) s = .ok o

/-- The expression that a string is split into, unless its parentheses do not match in number. -/
def exprOf : Nat → List Char → Option Expr
  | 0, _ => none
  | fuel + 1, expr =>
    let expr := expr.dropWhile isBlank
    let copy := expr.rdropWhile (· == ' ')
    let s := copy.foldl scanStep (0, 2)
    if s.1 ≠ 0 then none
    else if s.2 = 2 ∧ copy.head? = some '(' ∧ copy.getLast? = some ')' then
      (exprOf fuel copy.dropLast.tail).map .paren
    else match splitFrom s.2 0 copy with
      | some (left, op, right) => do
        let l ← exprOf fuel (left.rdropWhile (· == ' '))
        let r ← exprOf fuel right
        return .binary op l r
      | none => some (.word expr)

def Op.divides : Op → Bool
  | .div | .rem => true
  | .add | .sub | .xor | .and | .or | .mul => false

/-- There is a division of something that has a value by something that has the value 0. -/
inductive Expr.DividesByZero (names : Names) : Expr → Prop where
  | here {op : Op} {l r : Expr} {left : BitVec 64} (hop : op.divides = true)
    (hwords : ∀ p ∈ l.words ++ r.words, names.Resolves p) (hl : l.value names.valueOf = .ok left)
    (hr : r.value names.valueOf = .ok 0#64) : DividesByZero names (.binary op l r)
  | left {op : Op} {l r : Expr} (h : DividesByZero names l) : DividesByZero names (.binary op l r)
  | right {op : Op} {l r : Expr} (h : DividesByZero names r) : DividesByZero names (.binary op l r)
  | paren {e : Expr} (h : DividesByZero names e) : DividesByZero names (.paren e)

/-- A result of debugger_parse_expression() as it is written down without the checks. -/
def checked : Except Fault Outcome → Except Stop Outcome
  | .ok o => .ok o
  | .error .division => .error .division

section
variable {names : Names} {fuel : Nat} {s : List Char} {e : Expr}

theorem combineChecked_eq (op : Op) (res1 res2 : Outcome) :
    combineChecked op res1 res2 = checked (combine op res1 res2) := by
  cases res1 with
  | noMatch => rfl
  | multiple => cases res2 <;> rfl
  | number left =>
    cases res2 with
    | noMatch => rfl
    | multiple => rfl
    | number right =>
      have hread : combineChecked op (.number left) (.number right) = match op.apply left right with
        | .ok value => .ok (.number value)
        | .error .division => .error .division := rfl
      have hcombine : combine op (.number left) (.number right) =
          (op.apply left right >>= fun value => .ok (.number value)) := rfl
      rw [hread, hcombine]
      cases op.apply left right with
      | ok value => rfl
      | error f => rfl

/-! ## The expression of a string -/

def charNest (c : Char) : Int := if c = '(' then 1 else if c = ')' then -1 else 0

theorem scanStep_fst (m : Int) (p : Nat) (c : Char) : (scanStep (m, p) c).1 = m + charNest c := by
  unfold scanStep charNest
  split
  · rfl
  · split
    · rfl
    · split
      · split
        · split
          · exact (Int.add_zero m).symm
          · split <;> exact (Int.add_zero m).symm
        · exact (Int.add_zero m).symm
      · exact (Int.add_zero m).symm

theorem scan_shift (u : List Char) (m : Int) (p q : Nat) :
    (u.foldl scanStep (m, p)).1 = m + (u.foldl scanStep (0, q)).1 := by
  induction u generalizing m p q with
  | nil => exact (Int.add_zero m).symm
  | cons c u ih =>
    have h := scanStep_fst m p c
    have h' := scanStep_fst 0 q c
    rw [List.foldl_cons, List.foldl_cons]
    generalize scanStep (m, p) c = x at h ⊢
    generalize scanStep (0, q) c = y at h' ⊢
    obtain ⟨m₁, p₁⟩ := x
    obtain ⟨m₂, p₂⟩ := y
    rw [ih m₁ p₁ 0, ih m₂ p₂ 0]
    omega

theorem exprOf_eval (names : Names) (hnest : (s.foldl scanStep (0, 2)).1 = 0) (hfuel : s.length < fuel) :
    ∃ e, exprOf fuel s = some e ∧ parseExpression names fuel s = e.eval names ∧
      evaluate names fuel s = checked (e.eval names) := by
  induction fuel generalizing s with
  | zero => omega
  | succ fuel ih =>
    obtain ⟨b, hb, hs⟩ := exists_blanks s
    obtain ⟨n, hn⟩ := exists_spaces (s.dropWhile isBlank)
    simp only [exprOf, evaluate, parseExpression]
    generalize s.dropWhile isBlank = expr at hs hn ⊢
    generalize expr.rdropWhile (· == ' ') = copy at hn ⊢
    -- the blanks around it add nothing
    have hscan : copy.foldl scanStep (0, 2) = s.foldl scanStep (0, 2) := by
      rw [hs, hn, List.foldl_append, List.foldl_append, scan_blanks hb, scan_blanks (blanks_replicate n)]
    have hlen : copy.length ≤ s.length := by
      rw [hs, hn, List.length_append, List.length_append]
      omega
    rw [← hscan] at hnest
    generalize hx : copy.foldl scanStep (0, 2) = x at hnest ⊢
    have hno : ¬ x.1 ≠ 0 := fun h => h hnest
    rw [if_neg hno, if_neg hno, if_neg hno]
    by_cases hparen : x.2 = 2 ∧ copy.head? = some '(' ∧ copy.getLast? = some ')'
    · rw [if_pos hparen, if_pos hparen, if_pos hparen]
      have hcopy := eq_paren hparen.2.1 hparen.2.2
      generalize copy.dropLast.tail = inner at hcopy ⊢
      have hinner : (inner.foldl scanStep (0, 2)).1 = 0 := by
        have hopen : scanStep (0, 2) '(' = (1, 2) := rfl
        have hshift := scan_shift inner 1 2 2
        rw [hcopy, List.cons_append, List.foldl_cons, hopen, List.foldl_append, List.foldl_cons, List.foldl_nil] at hx
        have hlast := scanStep_fst (inner.foldl scanStep (1, 2)).1 (inner.foldl scanStep (1, 2)).2 ')'
        have hclose : charNest ')' = -1 := rfl
        rw [hx] at hlast
        omega
      have hshort : inner.length < fuel := by
        rw [hcopy] at hlen
        simp only [List.length_append, List.length_cons] at hlen
        omega
      obtain ⟨e, he, hparse, heval⟩ := ih hinner hshort
      exact ⟨.paren e, by rw [he]; rfl, hparse, heval⟩
    · rw [if_neg hparen, if_neg hparen, if_neg hparen]
      cases hsplit : splitFrom x.2 0 copy with
      | none => exact ⟨.word expr, rfl, rfl, rfl⟩
      | some r =>
        obtain ⟨l, op, r⟩ := r
        obtain ⟨hcopy, hl, -, -, hr⟩ := splitFrom_scan hx hsplit
        obtain ⟨m, hm⟩ := exists_spaces l
        have hshort : l.length + r.length < fuel := by
          rw [hcopy, List.length_append, List.length_cons] at hlen
          omega
        have hshortL : (l.rdropWhile (· == ' ')).length ≤ l.length := (List.rdropWhile_prefix _ l).length_le
        have hnestL : ((l.rdropWhile (· == ' ')).foldl scanStep (0, 2)).1 = 0 := by
          rw [hm, List.foldl_append, scan_blanks (blanks_replicate m)] at hl
          exact hl
        obtain ⟨el, hel, hparseL, hevalL⟩ := ih hnestL (by omega)
        obtain ⟨er, her, hparseR, hevalR⟩ := ih (hr.trans hnest) (by omega)
        refine ⟨.binary op el er, by simp only [hel, her]; rfl, by simp only [hparseL, hparseR]; rfl, ?_⟩
        simp only [hevalL, hevalR, Expr.eval]
        cases el.eval names with
        | error f => cases f; rfl
        | ok res1 =>
          cases er.eval names with
          | error f => cases f; rfl
          | ok res2 => exact combineChecked_eq op res1 res2

theorem exprOf_none (names : Names) (fuel : Nat) (hnest : (s.foldl scanStep (0, 2)).1 ≠ 0) :
    exprOf (fuel + 1) s = none ∧ parseExpression names (fuel + 1) s = .ok .noMatch ∧
      evaluate names (fuel + 1) s = .ok .noMatch := by
  obtain ⟨b, hb, hs⟩ := exists_blanks s
  obtain ⟨n, hn⟩ := exists_spaces (s.dropWhile isBlank)
  simp only [exprOf, evaluate, parseExpression]
  generalize s.dropWhile isBlank = expr at hs hn ⊢
  generalize expr.rdropWhile (· == ' ') = copy at hn ⊢
  have hscan : copy.foldl scanStep (0, 2) = s.foldl scanStep (0, 2) := by
    rw [hs, hn, List.foldl_append, List.foldl_append, scan_blanks hb, scan_blanks (blanks_replicate n)]
  rw [hscan, if_pos hnest, if_pos hnest, if_pos hnest]
  exact ⟨rfl, rfl, rfl⟩

/-! ## Divisions by zero -/

theorem Op.apply_error {op : Op} {left right : BitVec 64} :
    op.apply left right = .error .division ↔ op.divides = true ∧ right = 0#64 := by
  cases op with
  | add | sub | xor | and | or | mul => simp [Op.apply, Op.divides]
  | div | rem =>
    by_cases h : right = 0#64
    · simp [Op.apply, Op.divides, h]
    · simp [Op.apply, Op.divides, h]

theorem combine_error {op : Op} {res1 res2 : Outcome} :
    combine op res1 res2 = .error .division ↔
      ∃ left right, res1 = .number left ∧ res2 = .number right ∧ op.apply left right = .error .division := by
  constructor
  · intro h
    cases res1 with
    | noMatch => cases h
    | multiple => cases res2 <;> cases h
    | number left =>
      cases res2 with
      | noMatch => cases h
      | multiple => cases h
      | number right =>
        refine ⟨left, right, rfl, rfl, ?_⟩
        cases happly : op.apply left right with
        | error f => cases f; rfl
        | ok value =>
          have hcombine : combine op (.number left) (.number right) =
              (op.apply left right >>= fun value => .ok (.number value)) := rfl
          rw [hcombine, happly] at h
          cases h
  · rintro ⟨left, right, rfl, rfl, happly⟩
    have hcombine : combine op (.number left) (.number right) =
        (op.apply left right >>= fun value => .ok (.number value)) := rfl
    rw [hcombine, happly]
    rfl

theorem value_of_eval {v : BitVec 64} (h : e.eval names = .ok (.number v)) :
    (∀ p ∈ e.words, names.Resolves p) ∧ e.value names.valueOf = .ok v := by
  have hall := Expr.resolves_of_eval h
  rw [Expr.eval_eq_value hall] at h
  refine ⟨hall, ?_⟩
  cases hv : e.value names.valueOf with
  | error f =>
    rw [hv] at h
    cases h
  | ok w =>
    rw [hv] at h
    cases h
    rfl

theorem eval_of_value {v : BitVec 64} (hall : ∀ p ∈ e.words, names.Resolves p)
    (hv : e.value names.valueOf = .ok v) : e.eval names = .ok (.number v) := by
  rw [Expr.eval_eq_value hall, hv]
  rfl

theorem Expr.eval_error : e.eval names = .error .division ↔ e.DividesByZero names := by
  induction e with
  | word p =>
    refine ⟨fun h => ?_, fun h => ?_⟩
    · cases h
    · cases h
  | paren e ih =>
    refine ⟨fun h => .paren (ih.mp h), fun h => ?_⟩
    cases h with
    | paren h => exact ih.mpr h
  | binary op l r ihl ihr =>
    have heval : (Expr.binary op l r).eval names =
        (l.eval names >>= fun left => r.eval names >>= fun right => combine op left right) := rfl
    rw [heval]
    constructor
    · intro h
      cases hl : l.eval names with
      | error f =>
        cases f
        exact .left (ihl.mp hl)
      | ok left =>
        cases hr : r.eval names with
        | error f =>
          cases f
          exact .right (ihr.mp hr)
        | ok right =>
          rw [hl, hr] at h
          obtain ⟨v, w, rfl, rfl, happly⟩ := combine_error.mp h
          obtain ⟨hop, rfl⟩ := Op.apply_error.mp happly
          obtain ⟨hwordsL, hvalueL⟩ := value_of_eval hl
          obtain ⟨hwordsR, hvalueR⟩ := value_of_eval hr
          refine .here hop (fun p hp => ?_) hvalueL hvalueR
          obtain hp | hp := List.mem_append.mp hp
          · exact hwordsL p hp
          · exact hwordsR p hp
    · intro h
      cases h with
      | left h =>
        rw [ihl.mpr h]
        rfl
      | right h =>
        rw [ihr.mpr h]
        cases l.eval names with
        | error f => cases f; rfl
        | ok left => rfl
      | @here _ _ _ left hop hwords hl hr =>
        rw [eval_of_value (fun p hp => hwords p (List.mem_append_left _ hp)) hl,
          eval_of_value (fun p hp => hwords p (List.mem_append_right _ hp)) hr]
        exact combine_error.mpr ⟨left, 0#64, rfl, rfl, Op.apply_error.mpr ⟨hop, rfl⟩⟩

/-- The evaluation of a string survives unless it has a division by zero. -/
theorem survives_iff (names : Names) (s : List Char) :
    Survives names s ↔ ∀ e, exprOf (s.length + 1) s = some e → ¬ e.DividesByZero names := by
  by_cases hnest : (s.foldl scanStep (0, 2)).1 = 0
  · obtain ⟨e, he, -, heval⟩ := exprOf_eval names hnest (Nat.lt_succ_self s.length)
    unfold Survives
    rw [he, heval]
    constructor
    · rintro ⟨o, ho⟩ e' he' hdiv
      cases he'
      rw [Expr.eval_error.mpr hdiv] at ho
      cases ho
    · intro h
      cases hv : e.eval names with
      | ok o => exact ⟨o, rfl⟩
      | error f =>
        cases f
        exact absurd (Expr.eval_error.mp hv) (h e rfl)
  · obtain ⟨hnone, -, heval⟩ := exprOf_none names s.length hnest
    refine ⟨fun _ e he => ?_, fun _ => ⟨_, heval⟩⟩
    rw [hnone] at he
    cases he

end

/-- `1/0` is divided. -/
theorem oneOverZero_stops : ¬ ∀ names s, Survives names s := by
  intro h
  obtain ⟨o, ho⟩ := h ⟨0, 0, fun _ => none, fun _ => none⟩ ['1', '/', '0']
  have hstop : evaluate ⟨0, 0, fun _ => none, fun _ => none⟩ 4 ['1', '/', '0'] = .error .division := by decide +kernel
  cases hstop.symm.trans ho

end Gxemul.Debugger
