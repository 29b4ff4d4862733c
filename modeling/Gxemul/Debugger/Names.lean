import Gxemul.Core.Settings
import Gxemul.Debugger.Expression

/- Names in the debugger, on the settings objects themselves: debugger_parse_name() of
   `src/debugger/debugger_expr.c` for reading and for writing, and get_symbol_addr() of
   `src/symbol/symbol.c`.

   A name may begin with a character that says what kind of name it is. That character keeps the
   other kinds from being tried, but it is not removed before the name is looked up. -/
namespace Gxemul.Debugger
open Settings (Heap Name settingsAccess)
open Lib (ByteMem)

/-- What names are of: the settings objects with the pointer of `global_settings`, the symbols in the order of the
list or array, and what else is looked at. -/
structure NameSpaces where
  heap : Heap
  globalSettings : Nat
  symbols : List (Name × BitVec 64)
  curMachine : Nat
  curCpu : Nat
  is32bit : Bool
  isMips : Bool

namespace NameSpaces
variable (env : NameSpaces)

def getSymbolAddr (symbol : Name) : Option (BitVec 64) := (env.symbols.find? fun s => s.1 == symbol).map Prod.snd

/-- The values that are written to a 32-bit MIPS machine are sign-extended. -/
def signExtended (value : BitVec 64) : BitVec 64 :=
  if env.is32bit && env.isMips && (value >>> 32 == 0#64) && (value &&& 0x80000000#64 != 0#64) then
    value ||| 0xffffffff00000000#64
  else value

/-- The settings that a name may be of, in the order in which they are tried. -/
def settingNames (name : Name) : List Name :=
  Names.settingNames ⟨env.curMachine, env.curCpu, fun _ => none, fun _ => none⟩ name

/-- The first name with which settings_access() succeeds: whether there is one, the variables, and `*valuep`. -/
def accessFirst (write : Bool) : List Name → ByteMem → BitVec 64 → Except Settings.Stop (Bool × ByteMem × BitVec 64)
  | [], m, value => .ok (false, m, value)
  | name :: names, m, value => do
    let (res, m, value) ← settingsAccess env.heap write m value env.globalSettings name
    if res = .ok then return (true, m, value) else accessFirst write names m value

def skipSettings (name : Name) : Bool := name.head? == some '$' || name.head? == some '@'
def skipNumeric (name : Name) : Bool := name.head? == some '#' || name.head? == some '@'
def skipSymbol (name : Name) : Bool := name.head? == some '$' || name.head? == some '#'

def numberOf (name : Name) : Option (BitVec 64) :=
  if (name.headD (Char.ofNat 0)).isDigit then some (strtoull name) else none

/-- `debugger_parse_name()`: the result, the variables, and `*valuep`. A number or a symbol cannot be assigned to. -/
def parseName (write : Bool) (name : Name) (m : ByteMem) (value : BitVec 64) :
    Except Settings.Stop (ParseResult × ByteMem × BitVec 64) := do
  let name := name.dropWhile isBlank
  let value := if write then env.signExtended value else value
  let (matchSettings, m, value) ←
    if skipSettings name then .ok (false, m, value) else env.accessFirst write (env.settingNames name) m value
  let numeric := if skipNumeric name then none else numberOf name
  let symbol := if skipSymbol name then none else env.getSymbolAddr name
  let value := if write then value else symbol.getD (numeric.getD value)
  let res : ParseResult :=
    if 1 < matchSettings.toNat + symbol.isSome.toNat + numeric.isSome.toNat then .multiple
    else if matchSettings then .settings
    else if numeric.isSome then .number
    else if symbol.isSome then .symbol
    else .noMatch
  return (res, m, value)

/-! ## What is documented -/

section
variable (m : ByteMem) (value : BitVec 64) (name : Name)

/-- Reading the name succeeds, and gives the value `v`. -/
def Succeeds (v : BitVec 64) : Prop :=
  ∃ res m', env.parseName false name m value = .ok (res, m', v) ∧ res ≠ .noMatch ∧ res ≠ .multiple

/-- The name is that of a setting that can be read, with the value `v`. -/
def Readable (v : BitVec 64) : Prop :=
  ∃ m', env.accessFirst false (env.settingNames name) m value = .ok (true, m', v)

/-- The characters `$`, `#` and `@` force numbers, settings and symbols. -/
def Forced : Prop :=
  (∀ v, env.Succeeds m value ('$' :: name) v ↔ numberOf name = some v) ∧
    (∀ v, env.Succeeds m value ('#' :: name) v ↔ env.Readable m value name v) ∧
    ∀ v, env.Succeeds m value ('@' :: name) v ↔ env.getSymbolAddr name = some v

def Atomic : Prop :=
  ∀ res m' v, env.parseName true name m value = .ok (res, m', v) → res = .multiple ∨ res = .noMatch → m' = m

/-- A write changes a setting, and the name is also one of another kind. -/
def Conflict : Prop :=
  let name := name.dropWhile isBlank
  skipSettings name = false ∧
    (∃ m' v, env.accessFirst true (env.settingNames name) m (env.signExtended value) = .ok (true, m', v) ∧ m' ≠ m) ∧
    ((skipNumeric name = false ∧ (numberOf name).isSome) ∨ (skipSymbol name = false ∧ (env.getSymbolAddr name).isSome))

end

/-! ## Accesses -/

section
variable {env} {m m' : ByteMem} {value v : BitVec 64}

theorem settingsWrite_notOk {setting : Settings.Setting} {res : Settings.Result}
    (h : Settings.settingsWrite setting m value = .ok (res, m', v)) (hres : res ≠ .ok) : m' = m := by
  unfold Settings.settingsWrite at h
  split at h
  · cases h
    rfl
  · split at h
    · cases h
    · cases h
      rfl
    · split at h
      · cases h
      · cases h
        exact absurd rfl hres

theorem accessN_notOk {heap : Heap} {fuel k : Nat} {name : Name} {res : Settings.Result}
    (h : Settings.accessN heap true m value fuel k name = .ok (res, m', v)) (hres : res ≠ .ok) : m' = m := by
  induction fuel generalizing k name with
  | zero => cases h
  | succ fuel ih =>
    rw [Settings.accessN, Settings.accessWith] at h
    split at h
    · cases h
    · split at h
      · cases h
        rfl
      · exact settingsWrite_notOk h hres
      · split at h
        · exact ih h
        · cases h

theorem accessFirst_none {names : List Name} (h : env.accessFirst true names m value = .ok (false, m', v)) : m' = m := by
  induction names generalizing m value with
  | nil =>
    cases h
    rfl
  | cons name names ih =>
    obtain ⟨⟨res, m₁, value₁⟩, haccess, h⟩ := Lib.bind_eq_ok h
    dsimp only at h
    split at h
    · cases h
    · rename_i hres
      rw [ih h]
      exact accessN_notOk haccess hres

end

/-! ## Names that begin with a character -/

section
variable {env} {m : ByteMem} {value v : BitVec 64} {name : Name}

theorem succeeds_number : ¬ env.Succeeds m value ('$' :: name) v := by
  rintro ⟨res, m', h, hno, -⟩
  have hcode : env.parseName false ('$' :: name) m value = .ok (.noMatch, m, value) := rfl
  rw [hcode] at h
  cases h
  exact hno rfl

theorem succeeds_setting : env.Succeeds m value ('#' :: name) v ↔ env.Readable m value ('#' :: name) v := by
  have hcode : env.parseName false ('#' :: name) m value =
      (env.accessFirst false (env.settingNames ('#' :: name)) m value >>= fun r =>
        .ok (if r.1 then .settings else .noMatch, r.2.1, r.2.2)) := by
    have hname : ('#' :: name).dropWhile isBlank = '#' :: name := rfl
    have hskip : skipSettings ('#' :: name) = false := rfl
    have hskip₁ : skipNumeric ('#' :: name) = true := rfl
    have hskip₂ : skipSymbol ('#' :: name) = true := rfl
    unfold parseName
    simp only [hname, hskip, hskip₁, hskip₂, Bool.false_eq_true, if_false, if_true]
    cases env.accessFirst false (env.settingNames ('#' :: name)) m value with
    | error e => rfl
    | ok r =>
      obtain ⟨found, m', v'⟩ := r
      cases found <;> rfl
  unfold Succeeds Readable
  rw [hcode]
  constructor
  · rintro ⟨res, m', h, hno, -⟩
    obtain ⟨⟨found, m₁, value₁⟩, haccess, h⟩ := Lib.bind_eq_ok h
    cases found with
    | false =>
      cases h
      exact absurd rfl hno
    | true =>
      cases h
      exact ⟨_, haccess⟩
  · rintro ⟨m', h⟩
    rw [h]
    exact ⟨.settings, m', rfl, by decide, by decide⟩

theorem parseName_symbol : env.parseName false ('@' :: name) m value =
    .ok (if (env.getSymbolAddr ('@' :: name)).isSome then .symbol else .noMatch, m,
      (env.getSymbolAddr ('@' :: name)).getD value) := by
  have hcode : env.parseName false ('@' :: name) m value =
      .ok (if 1 < 0 + (env.getSymbolAddr ('@' :: name)).isSome.toNat + 0 then .multiple
        else if (env.getSymbolAddr ('@' :: name)).isSome then .symbol else .noMatch, m,
        (env.getSymbolAddr ('@' :: name)).getD value) := rfl
  rw [hcode]
  cases env.getSymbolAddr ('@' :: name) <;> rfl

theorem succeeds_symbol : env.Succeeds m value ('@' :: name) v ↔ env.getSymbolAddr ('@' :: name) = some v := by
  unfold Succeeds
  cases hsymbol : env.getSymbolAddr ('@' :: name) with
  | none =>
    have hcode : env.parseName false ('@' :: name) m value = .ok (.noMatch, m, value) := by
      rw [parseName_symbol, hsymbol]
      rfl
    rw [hcode]
    refine ⟨fun ⟨res, m', h, hno, _⟩ => ?_, fun h => by cases h⟩
    cases h
    exact absurd rfl hno
  | some w =>
    have hcode : env.parseName false ('@' :: name) m value = .ok (.symbol, m, w) := by
      rw [parseName_symbol, hsymbol]
      rfl
    rw [hcode]
    constructor
    · rintro ⟨res, m', h, -, -⟩
      cases h
      rfl
    · intro h
      cases h
      exact ⟨.symbol, m, rfl, by decide, by decide⟩

/-- The three characters do what is documented only if the name is no number, and if the settings and the symbols
with the character in their names are those without it. -/
theorem forced_iff : env.Forced m value name ↔
    numberOf name = none ∧ (∀ v, env.Readable m value ('#' :: name) v ↔ env.Readable m value name v) ∧
      env.getSymbolAddr ('@' :: name) = env.getSymbolAddr name := by
  unfold Forced
  simp only [succeeds_setting, succeeds_symbol]
  constructor
  · rintro ⟨hnumber, hsetting, hsymbol⟩
    refine ⟨?_, hsetting, ?_⟩
    · cases hn : numberOf name with
      | none => rfl
      | some v => exact absurd ((hnumber v).mpr hn) succeeds_number
    · cases hs : env.getSymbolAddr name with
      | some v => exact (hsymbol v).mpr hs
      | none =>
        cases hs' : env.getSymbolAddr ('@' :: name) with
        | none => rfl
        | some v =>
          rw [(hsymbol v).mp hs'] at hs
          cases hs
  · rintro ⟨hnumber, hsetting, hsymbol⟩
    refine ⟨fun v => ⟨fun h => absurd h succeeds_number, fun h => ?_⟩, hsetting, fun v => by rw [hsymbol]⟩
    rw [hnumber] at h
    cases h

/-! ## Writes -/

theorem atomic_iff : env.Atomic m value name ↔ ¬ env.Conflict m value name := by
  unfold Atomic Conflict parseName
  dsimp only
  generalize name.dropWhile isBlank = name
  rw [if_pos rfl]
  generalize env.signExtended value = value
  generalize hnumeric : (if skipNumeric name = true then none else numberOf name) = numeric
  generalize hsymbol : (if skipSymbol name = true then none else env.getSymbolAddr name) = symbol
  have hkinds : ((skipNumeric name = false ∧ (numberOf name).isSome) ∨
      (skipSymbol name = false ∧ (env.getSymbolAddr name).isSome)) ↔ numeric.isSome ∨ symbol.isSome := by
    rw [← hnumeric, ← hsymbol]
    cases skipNumeric name <;> cases skipSymbol name <;> simp
  rw [hkinds]
  cases hskip : skipSettings name with
  | true =>
    refine ⟨fun _ h => Bool.false_ne_true h.1.symm, fun _ res m' v h _ => ?_⟩
    cases h
    rfl
  | false =>
    simp only [Bool.false_eq_true, if_false]
    cases haccess : env.accessFirst true (env.settingNames name) m value with
    | error e =>
      refine ⟨?_, fun _ res m' v h _ => by cases h⟩
      rintro - ⟨-, ⟨m', v, h, -⟩, -⟩
      cases h
    | ok r =>
      obtain ⟨found, m₁, v₁⟩ := r
      cases found with
      | false =>
        have hsame := accessFirst_none haccess
        refine ⟨?_, fun _ res m' v h _ => ?_⟩
        · rintro - ⟨-, ⟨m', v, h, -⟩, -⟩
          cases h
        · cases h
          exact hsame
      | true =>
        constructor
        · rintro h ⟨-, ⟨m', v, haccess', hne⟩, hkind⟩
          cases haccess'
          refine hne (h .multiple m₁ v₁ ?_ (.inl rfl))
          have hmany : 1 < true.toNat + symbol.isSome.toNat + numeric.isSome.toNat := by
            obtain hk | hk := hkind
            · rw [hk, Bool.toNat_true]
              omega
            · rw [hk, Bool.toNat_true]
              omega
          exact congrArg Except.ok (congrArg (·, m₁, v₁) (if_pos hmany))
        · intro hno res m' v h hres
          by_contra hne
          obtain ⟨hres', hm⟩ := Prod.mk.inj (Except.ok.inj h)
          obtain ⟨rfl, -⟩ := Prod.mk.inj hm
          refine hno ⟨trivial, ⟨m₁, v₁, rfl, hne⟩, ?_⟩
          by_contra hkind
          have hone : ¬ 1 < true.toNat + symbol.isSome.toNat + numeric.isSome.toNat := by
            cases hn : numeric.isSome <;> cases hs : symbol.isSome <;> simp_all
          rw [if_neg hone] at hres'
          obtain rfl | rfl := hres
          · cases hres'
          · cases hres'

/-- What is documented, and that a write that fails changes nothing. -/
def Documented (env : NameSpaces) (m : ByteMem) (value : BitVec 64) (name : Name) : Prop :=
  env.Forced m value name ∧ env.Atomic m value name

end

/-! ## Reading, as expressions do it -/

section
variable (m : ByteMem)

def setting (name : Name) : Option (BitVec 64) :=
  match settingsAccess env.heap false m 0#64 env.globalSettings name with
  | .ok (.ok, _, v) => some v
  | _ => none

def names : Names := ⟨env.curMachine, env.curCpu, env.setting m, env.getSymbolAddr⟩

variable {env} {m} {m' : ByteMem} {value v : BitVec 64} {name : Name}

theorem settingsRead_ok {setting : Settings.Setting} {res : Settings.Result}
    (h : Settings.settingsRead setting m = .ok (res, m', v)) : res = .ok ∧ m' = m := by
  unfold Settings.settingsRead at h
  split at h
  · cases h
  · cases h
    exact ⟨rfl, rfl⟩
  · split at h
    · cases h
    · cases h
      exact ⟨rfl, rfl⟩

theorem accessN_read {heap : Heap} {fuel k : Nat} {res : Settings.Result}
    (h : Settings.accessN heap false m value fuel k name = .ok (res, m', v)) :
    m' = m ∧ (res = .ok → Settings.accessN heap false m 0#64 fuel k name = .ok (.ok, m, v)) ∧
      (res ≠ .ok → v = value ∧ ∃ res', res' ≠ .ok ∧ Settings.accessN heap false m 0#64 fuel k name = .ok (res', m, 0#64)) := by
  induction fuel generalizing k name with
  | zero => cases h
  | succ fuel ih =>
    rw [Settings.accessN, Settings.accessWith] at h ⊢
    cases hs : heap[k]? with
    | none =>
      rw [hs] at h
      cases h
    | some s =>
      simp only [hs] at h ⊢
      rcases hfind : Settings.find (Settings.skipGlobal name) s.settings with _ | ⟨setting, _ | rest⟩
      · simp only [hfind] at h ⊢
        cases h
        refine ⟨rfl, fun h => ?_, fun hne => ⟨rfl, _, hne, rfl⟩⟩
        cases h
      · simp only [hfind, Bool.false_eq_true, if_false] at h ⊢
        obtain ⟨rfl, rfl⟩ := settingsRead_ok h
        exact ⟨rfl, fun _ => h, fun hne => absurd rfl hne⟩
      · simp only [hfind] at h ⊢
        cases hptr : setting.ptr with
        | var a =>
          rw [hptr] at h
          cases h
        | settings j =>
          simp only [hptr] at h ⊢
          exact ih h

theorem accessFirst_read {names : List Name} {found : Bool}
    (h : env.accessFirst false names m value = .ok (found, m', v)) :
    m' = m ∧ (names.findSome? (env.setting m) = if found then some v else none) ∧ (found = false → v = value) := by
  induction names generalizing value with
  | nil =>
    cases h
    exact ⟨rfl, rfl, fun _ => rfl⟩
  | cons name names ih =>
    obtain ⟨⟨res, m₁, value₁⟩, haccess, hrest⟩ := Lib.bind_eq_ok h
    obtain ⟨hm, hok, hno⟩ := accessN_read haccess
    rw [hm] at hrest
    dsimp only at hrest
    rw [List.findSome?_cons]
    by_cases hres : res = .ok
    · rw [if_pos hres] at hrest
      cases hrest
      have hsetting : env.setting m name = some v := by
        unfold setting
        rw [show settingsAccess env.heap false m 0#64 env.globalSettings name = _ from hok hres]
      rw [hsetting]
      exact ⟨rfl, rfl, fun h => by cases h⟩
    · rw [if_neg hres] at hrest
      obtain ⟨hvalue, res', hres', hread⟩ := hno hres
      have hsetting : env.setting m name = none := by
        unfold setting
        rw [show settingsAccess env.heap false m 0#64 env.globalSettings name = _ from hread]
        cases res' with
        | ok => exact absurd rfl hres'
        | nameNotFound => rfl
        | readonly => rfl
      rw [hsetting, ← hvalue]
      exact ih hrest

theorem head_beq {c : Char} (hc : c ≠ Char.ofNat 0) (name : Name) :
    (name.head? == some c) = (name.headD (Char.ofNat 0) == c) := by
  cases name with
  | nil => exact (beq_eq_false_iff_ne.mpr hc.symm).symm
  | cons d name => rfl

theorem parseName_names {res : ParseResult} (h : env.parseName false name m value = .ok (res, m', v)) :
    m' = m ∧ ∃ o, (env.names m).debuggerParseName name = (res, o) ∧ v = o.getD value := by
  unfold parseName at h
  unfold Names.debuggerParseName
  dsimp only at h ⊢
  generalize name.dropWhile isBlank = name at h ⊢
  simp only [skipSettings, skipNumeric, skipSymbol, numberOf, head_beq (c := '$') (by decide),
    head_beq (c := '#') (by decide), head_beq (c := '@') (by decide), Bool.false_eq_true, if_false] at h
  generalize name.headD (Char.ofNat 0) = first at h ⊢
  have hnumeric : (if (!(first == '#' || first == '@') && first.isDigit) = true then some (strtoull name) else none) =
      if (first == '#' || first == '@') = true then none
      else if first.isDigit = true then some (strtoull name) else none := by
    cases (first == '#' || first == '@') <;> cases first.isDigit <;> rfl
  rw [hnumeric]
  generalize (if (first == '#' || first == '@') = true then none
    else if first.isDigit = true then some (strtoull name) else none) = numeric at h ⊢
  have hsymbol : (env.names m).symbol name = env.getSymbolAddr name := rfl
  rw [hsymbol]
  generalize (if (first == '$' || first == '#') = true then none else env.getSymbolAddr name) = symbol at h ⊢
  -- what is read from the settings, if they are tried
  have hsettings : ∃ read : Option (BitVec 64),
      (if (first == '$' || first == '@') = true then none
        else ((env.names m).settingNames name).findSome? (env.names m).setting) = read ∧
      m' = m ∧ v = symbol.getD (numeric.getD (read.getD value)) ∧
      res = if 1 < read.isSome.toNat + symbol.isSome.toNat + numeric.isSome.toNat then .multiple
        else if read.isSome then .settings
        else if numeric.isSome then .number
        else if symbol.isSome then .symbol
        else .noMatch := by
    cases hskip : (first == '$' || first == '@') with
    | true =>
      rw [hskip, if_pos rfl] at h
      cases h
      exact ⟨none, rfl, rfl, rfl, rfl⟩
    | false =>
      simp only [hskip, Bool.false_eq_true, if_false] at h ⊢
      obtain ⟨⟨found, m₁, v₁⟩, haccess, hrest⟩ := Lib.bind_eq_ok h
      obtain ⟨hm, hread, hunread⟩ := accessFirst_read haccess
      cases hrest
      refine ⟨_, hread, hm, ?_, ?_⟩
      · cases found with
        | false =>
          rw [hunread rfl]
          rfl
        | true => rfl
      · cases found <;> rfl
  obtain ⟨read, hread, rfl, rfl, rfl⟩ := hsettings
  rw [hread]
  refine ⟨rfl, _, rfl, ?_⟩
  cases symbol <;> cases numeric <;> rfl

theorem parseName_names_symbol :
    ∃ o, (names ⟨[], 0, [(['@', 'x'], 16#64)], 0, 0, false, false⟩ fun _ => 0).debuggerParseName ['@', 'x'] =
      (.symbol, o) ∧ 16#64 = o.getD 7#64 := by
  have hcode : parseName ⟨[], 0, [(['@', 'x'], 16#64)], 0, 0, false, false⟩ false ['@', 'x'] (fun _ => 0) 7#64 =
      .ok (.symbol, fun _ => 0, 16#64) := rfl
  exact (parseName_names hcode).2

end

end NameSpaces
end Gxemul.Debugger
