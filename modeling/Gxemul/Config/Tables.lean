import Gxemul.Config.Parse

/- The variables of a configuration file and its arrays.

   `Contained` says that nothing is stored at an index that an array does not have, that
   a machine begins from one zero state, and that the machine of a section depends on
   nothing before it but for its serial number. The array of devices is declared with the
   length of the one of disks, and compared with a larger limit. A file is contained
   exactly where no section comes to a device that the array has no room for
   (`contained_iff`). -/
namespace Gxemul.Config

open Lib

variable {w : World} {p p' q q' r : Parse} {f f' : Input} {word : List Char}

/-! ## Runs -/

def Reached (w : World) (p q : Parse) : Prop := Lib.Goes (parseTurn w) (.ok p) (.ok q)

theorem parseTurn_go (h : parseStep w p = .ok (some p')) : parseTurn w (.ok p) = (.ok p', true) := by
  rw [parseTurn, h]

theorem parseTurn_stop {e : Stop} (h : parseStep w p = .error e) : parseTurn w (.ok p) = (.error e, false) := by
  rw [parseTurn, h]

theorem parseTurn_cases {x y : Except Stop Parse} (h : parseTurn w x = (y, true)) :
    ∃ p p', x = .ok p ∧ y = .ok p' ∧ parseStep w p = .ok (some p') := by
  cases x with
  | error e => cases h
  | ok p =>
    rw [parseTurn] at h
    cases hs : parseStep w p with
    | error e =>
      rw [hs] at h
      cases h
    | ok next =>
      rw [hs] at h
      cases next with
      | none => cases h
      | some p' =>
        cases h
        exact ⟨p, p', rfl, rfl, hs⟩

theorem goes_ok {x : Except Stop Parse} (h : Lib.Goes (parseTurn w) (.ok p) x) : ∃ q, x = .ok q ∧ Reached w p q := by
  induction h with
  | refl => exact ⟨p, rfl, Relation.ReflTransGen.refl⟩
  | tail hgoes hstep _ =>
    obtain ⟨-, q, -, rfl, -⟩ := parseTurn_cases hstep
    exact ⟨q, rfl, Relation.ReflTransGen.tail hgoes hstep⟩

theorem readValue_length {size : Nat} {value : List Char} (h : readValue size f = .ok (f', value)) :
    f'.rest.length ≤ f.rest.length := by
  obtain ⟨⟨f1, _⟩, h1, h⟩ := Lib.bind_eq_ok h
  obtain ⟨⟨f2, _⟩, h2, h⟩ := Lib.bind_eq_ok h
  obtain ⟨⟨f3, _⟩, h3, h⟩ := Lib.bind_eq_ok h
  cases h
  calc f'.rest.length ≤ f2.rest.length := (readOneWord_length h3).1
    _ ≤ f1.rest.length := (readOneWord_length h2).1
    _ ≤ f.rest.length := (readOneWord_length h1).1

theorem readElement_length {size : TableSize} {table elements : List (List Char)}
    (h : readElement size table f = .ok (f', elements)) : f'.rest.length ≤ f.rest.length := by
  obtain ⟨⟨f1, _⟩, h1, h⟩ := Lib.bind_eq_ok h
  dsimp only at h
  split at h
  · cases h
  · split at h
    · cases h
    · obtain ⟨⟨f2, _⟩, h2, h⟩ := Lib.bind_eq_ok h
      obtain ⟨⟨f3, _⟩, h3, h⟩ := Lib.bind_eq_ok h
      cases h
      calc f3.rest.length ≤ f2.rest.length := (readOneWord_length h3).1
        _ ≤ f1.rest.length := (readOneWord_length h2).1
        _ ≤ f.rest.length := (readOneWord_length h1).1

theorem item_length {m m' : CurMachine} (h : m.item f word = .ok (f', m')) : f'.rest.length ≤ f.rest.length := by
  unfold CurMachine.item at h
  split at h
  · obtain ⟨⟨f1, _⟩, h1, h⟩ := Lib.bind_eq_ok h
    cases h
    exact readValue_length h1
  · split at h
    · obtain ⟨⟨f1, _⟩, h1, h⟩ := Lib.bind_eq_ok h
      cases h
      exact readElement_length h1
    · cases h

theorem parseEmul_length (h : parseEmul p word = .ok p') : p'.f.rest.length ≤ p.f.rest.length := by
  unfold parseEmul at h
  split at h
  · cases h
    exact Nat.le_refl _
  · split at h
    · obtain ⟨⟨f1, _⟩, h1, h⟩ := Lib.bind_eq_ok h
      cases h
      exact readValue_length h1
    · split at h
      · obtain ⟨⟨f1, _⟩, h1, h⟩ := Lib.bind_eq_ok h
        cases h
        exact (readOneWord_length h1).1
      · split at h
        · obtain ⟨⟨f1, _⟩, h1, h⟩ := Lib.bind_eq_ok h
          cases h
          exact (readOneWord_length h1).1
        · cases h

theorem parseNet_length (h : parseNet w p word = .ok p') : p'.f.rest.length ≤ p.f.rest.length := by
  unfold parseNet at h
  split at h
  · split at h
    · cases h
    · split at h
      · cases h
      · cases h
        exact Nat.le_refl _
  · split at h
    · obtain ⟨⟨f1, _⟩, h1, h⟩ := Lib.bind_eq_ok h
      cases h
      exact readValue_length h1
    · split at h
      · obtain ⟨⟨f1, _⟩, h1, h⟩ := Lib.bind_eq_ok h
        cases h
        exact readElement_length h1
      · cases h

theorem parseMachine_length (h : parseMachine w p word = .ok p') : p'.f.rest.length ≤ p.f.rest.length := by
  unfold parseMachine at h
  split at h
  · obtain ⟨m, -, h⟩ := Lib.bind_eq_ok h
    cases h
    exact Nat.le_refl _
  · obtain ⟨⟨f1, _⟩, h1, h⟩ := Lib.bind_eq_ok h
    cases h
    exact item_length h1

theorem parseWord_length (h : parseWord w p word = .ok p') : p'.f.rest.length ≤ p.f.rest.length := by
  unfold parseWord at h
  split at h
  · exact parseEmul_length h
  · exact parseNet_length h
  · exact parseMachine_length h
  · cases h
    exact Nat.le_refl _

theorem parseStep_iff : parseStep w p = .ok (some p') ↔ p.f.eof = false ∧ ∃ f word,
    readOneWord maxWordLen ⟨true, false, true⟩ p.f = .ok (f, word) ∧ word ≠ [] ∧
      parseWord w { p with f } word = .ok p' := by
  constructor
  · intro h
    unfold parseStep at h
    split at h
    · cases h
    · rename_i heof
      obtain ⟨⟨f, word⟩, hread, h⟩ := Lib.bind_eq_ok h
      dsimp only at h
      split at h
      · cases h
      · rename_i hne
        obtain ⟨q, hword, h⟩ := Lib.bind_eq_ok h
        cases h
        exact ⟨by simpa using heof, f, word, hread, by simpa using hne, hword⟩
  · rintro ⟨heof, f, word, hread, hne, hword⟩
    unfold parseStep
    rw [heof, hread]
    simp only [Bool.false_eq_true, if_false, Lib.ok_bind, List.isEmpty_iff, hne, hword]
    rfl

theorem parseStep_length (h : parseStep w p = .ok (some p')) : p'.f.rest.length < p.f.rest.length := by
  obtain ⟨-, f, word, hread, hne, hword⟩ := parseStep_iff.mp h
  exact Nat.lt_of_le_of_lt (parseWord_length hword) ((readOneWord_length hread).2 hne)

theorem parse_ends (w : World) (p : Parse) :
    ∃ r, Lib.whileLoop (parseTurn w) (p.f.rest.length + 1) (.ok p) = some r := by
  apply whileLoop_terminates fun x : Except Stop Parse => (x.toOption.map (·.f.rest.length)).getD 0
  · exact Nat.le_refl _
  · intro x hgoes hgo
    obtain ⟨q, q', rfl, hq', hstep⟩ := parseTurn_cases (Prod.ext rfl hgo : parseTurn w x = (_, true))
    rw [parseTurn_go hstep]
    exact parseStep_length hstep

theorem parseWord_machine (hp : p.state = .machine) (f : Input) :
    parseWord w { p with f } word = parseMachine w { p with f } word := by
  unfold parseWord
  rw [hp]

theorem parseWord_emul (hp : p.state = .emul) (f : Input) :
    parseWord w { p with f } word = parseEmul { p with f } word := by
  unfold parseWord
  rw [hp]

/-! ## The zero state -/

def CurMachine.zero : CurMachine where
  fields field := if field = .bootarg then ['\x08'] else []
  tables _ := []

theorem reset_eq (m : CurMachine) : m.reset = .zero := by
  unfold CurMachine.reset CurMachine.zero
  congr 1
  · funext field
    cases field <;> rfl
  · funext table
    cases table <;> rfl

theorem parseEmul_machine (h : parseEmul p word = .ok p') (hp : p.state = .emul) (hp' : p'.state = .machine) :
    word = "machine".toList ∧ ∃ f left, readOneWord maxWordLen expectLeft p.f = .ok (f, left) ∧
      p' = { p with f, state := .machine, machine := .zero } := by
  unfold parseEmul at h
  split at h
  · cases h
    cases hp'
  · split at h
    · obtain ⟨⟨f, _⟩, -, h⟩ := Lib.bind_eq_ok h
      cases h
      rw [hp] at hp'
      cases hp'
    · split at h
      · obtain ⟨⟨f, _⟩, -, h⟩ := Lib.bind_eq_ok h
        cases h
        cases hp'
      · split at h
        · obtain ⟨⟨f, left⟩, hleft, h⟩ := Lib.bind_eq_ok h
          cases h
          exact ⟨‹_›, f, left, hleft, by rw [reset_eq]⟩
        · cases h

theorem parseEmul_of_machine {left : List Char} (h : readOneWord maxWordLen expectLeft p.f = .ok (f, left)) :
    parseEmul p "machine".toList = .ok { p with f, state := .machine, machine := .zero } := by
  unfold parseEmul
  rw [if_neg (by decide), if_neg (by decide), if_neg (by decide), if_pos rfl, h, ← reset_eq p.machine]
  rfl

theorem parseStep_machine (hp : p.state = .emul) (h : parseStep w p = .ok (some p')) (hp' : p'.state = .machine) :
    p'.machine = .zero := by
  obtain ⟨-, f, word, -, -, hword⟩ := parseStep_iff.mp h
  rw [parseWord_emul hp] at hword
  obtain ⟨-, f', left, -, rfl⟩ := parseEmul_machine hword hp hp'
  rfl

/-! ## Sections -/

/-- What is read of a machine, up to the parenthesis that ends it. -/
inductive Items (w : World) : Parse → Parse → Prop
  | last {p p' : Parse} : p.state = .machine → parseStep w p = .ok (some p') → p'.state = .emul → Items w p p'
  | item {p q p' : Parse} : p.state = .machine → parseStep w p = .ok (some q) → q.state = .machine → Items w q p' →
      Items w p p'

def Section (w : World) (p p' : Parse) : Prop :=
  p.state = .emul ∧ ∃ q, parseStep w p = .ok (some q) ∧ q.state = .machine ∧ Items w q p'

/-- Two states in the same section, in runs that may have had others before. -/
structure SameSection (p q : Parse) : Prop where
  left : p.state = .machine
  right : q.state = .machine
  file : p.f = q.f
  machine : p.machine = q.machine

theorem SameSection.item (hs : SameSection p q) (h : parseStep w p = .ok (some p')) (hp' : p'.state = .machine) :
    ∃ q', parseStep w q = .ok (some q') ∧ SameSection p' q' ∧ p'.emul = p.emul ∧ q'.emul = q.emul := by
  obtain ⟨heof, f, word, hread, hne, hword⟩ := parseStep_iff.mp h
  rw [parseWord_machine hs.left, parseMachine] at hword
  split at hword
  · obtain ⟨m, -, hword⟩ := Lib.bind_eq_ok hword
    cases hword
    cases hp'
  · rename_i hparen
    obtain ⟨⟨f', machine⟩, hitem, hword⟩ := Lib.bind_eq_ok hword
    cases hword
    rw [hs.file] at heof hread
    refine ⟨{ q with f := f', machine }, parseStep_iff.mpr ⟨heof, f, word, hread, hne, ?_⟩,
      ⟨hs.left, hs.right, rfl, rfl⟩, rfl, rfl⟩
    rw [parseWord_machine hs.right, parseMachine]
    rw [if_neg hparen]
    rw [hs.machine] at hitem
    rw [hitem]
    rfl

theorem SameSection.last (hs : SameSection p q) (h : parseStep w p = .ok (some p')) (hp' : p'.state = .emul) :
    ∃ q' m serial, parseStep w q = .ok (some q') ∧ q'.state = .emul ∧ p'.f = q'.f ∧
      p'.emul.machines = p.emul.machines ++ [m] ∧
      q'.emul.machines = q.emul.machines ++ [{ m with serialNr := serial }] := by
  obtain ⟨heof, f, word, hread, hne, hword⟩ := parseStep_iff.mp h
  rw [parseWord_machine hs.left, parseMachine] at hword
  split at hword
  · rename_i hparen
    obtain ⟨m, hbuild, hword⟩ := Lib.bind_eq_ok hword
    cases hword
    rw [hs.file] at heof hread
    refine ⟨{ q with f, state := .emul, emul := q.emul.addMachine m (q.machine.serial q.emul.nextSerialNr) }, _,
      _, parseStep_iff.mpr ⟨heof, f, word, hread, hne, ?_⟩, rfl, rfl, rfl, rfl⟩
    rw [parseWord_machine hs.right, parseMachine]
    rw [if_pos hparen]
    rw [hs.machine] at hbuild
    rw [hbuild]
    rfl
  · obtain ⟨⟨f', machine⟩, -, hword⟩ := Lib.bind_eq_ok hword
    cases hword
    rw [hs.left] at hp'
    cases hp'

theorem Items.same (h : Items w p p') : ∀ {q : Parse}, SameSection p q →
    ∃ q' m serial, Items w q q' ∧ p'.f = q'.f ∧ p'.emul.machines = p.emul.machines ++ [m] ∧
      q'.emul.machines = q.emul.machines ++ [{ m with serialNr := serial }] := by
  induction h with
  | last _ hstep hp' =>
    intro q hs
    obtain ⟨q', m, serial, hq, hq', hrest⟩ := hs.last hstep hp'
    exact ⟨q', m, serial, .last hs.right hq hq', hrest⟩
  | item _ hstep hp' _ ih =>
    intro q hs
    obtain ⟨q1, hq, hs1, hp, hq1⟩ := hs.item hstep hp'
    obtain ⟨q', m, serial, hitems, hf, hm, hm'⟩ := ih hs1
    rw [hp] at hm
    rw [hq1] at hm'
    exact ⟨q', m, serial, .item hs.right hq hs1.right hitems, hf, hm, hm'⟩

/-- The machine of a section depends on the file from where the section begins, and on
nothing else but for its serial number. -/
theorem Section.same (h : Section w p p') (hq : q.state = .emul) (hf : p.f = q.f) :
    ∃ q' m serial, Section w q q' ∧ p'.f = q'.f ∧ p'.emul.machines = p.emul.machines ++ [m] ∧
      q'.emul.machines = q.emul.machines ++ [{ m with serialNr := serial }] := by
  obtain ⟨hp, p1, hstep, hp1, hitems⟩ := h
  obtain ⟨heof, f, word, hread, hne, hword⟩ := parseStep_iff.mp hstep
  rw [parseWord_emul hp] at hword
  obtain ⟨rfl, f', left, hleft, rfl⟩ := parseEmul_machine hword hp hp1
  have hs : SameSection { p with f := f', state := .machine, machine := .zero }
      { q with f := f', state := .machine, machine := .zero } := ⟨rfl, rfl, rfl, rfl⟩
  obtain ⟨q', m, serial, hq', hrest⟩ := hitems.same hs
  refine ⟨q', m, serial, ⟨hq, _, parseStep_iff.mpr ?_, rfl, hq'⟩, hrest⟩
  rw [hf] at heof hread
  refine ⟨heof, f, _, hread, hne, ?_⟩
  rw [parseWord_emul hq]
  exact parseEmul_of_machine hleft

/-! ## Stores -/

/-- A section of a machine that has as many devices as disks are declared comes to
another device. -/
def Parse.Overflows (p : Parse) : Prop :=
  p.f.eof = false ∧ p.state = .machine ∧
  (maxNDisk ≤ (p.machine.tables .device).length ∧ (p.machine.tables .device).length < maxNDevice) ∧
  ∃ f r, readOneWord maxWordLen ⟨true, false, true⟩ p.f = .ok (f, "device".toList) ∧
    readOneWord maxWordLen expectLeft f = .ok r

theorem readValue_avoids {size : Nat} (hpos : 0 < size) (f : Input) :
    Lib.Avoids Stop.Outside (readValue size f) := by
  refine (readOneWord_avoids (by decide) _ _).bind fun _ _ => ?_
  refine (readOneWord_avoids hpos _ _).bind fun _ _ => ?_
  exact (readOneWord_avoids (by decide) _ _).bind fun _ _ => avoids_ok _

theorem readElement_avoids {size : TableSize} {table : List (List Char)} (hpos : 0 < size.buflen)
    (h : table.length < size.limit → (∃ r, readOneWord maxWordLen expectLeft f = .ok r) →
      table.length < size.declared) : Lib.Avoids Stop.Outside (readElement size table f) := by
  refine (readOneWord_avoids (by decide) _ _).bind fun r hr => ?_
  refine Avoids.ite (fun _ => avoids_error.mpr id) fun hlimit => ?_
  have hroom : table.length < size.declared := h (Nat.lt_of_not_le hlimit) ⟨r, hr⟩
  rw [if_neg (Nat.not_le.mpr hroom)]
  refine (readOneWord_avoids hpos _ _).bind fun _ _ => ?_
  exact (readOneWord_avoids (by decide) _ _).bind fun _ _ => avoids_ok _

theorem addDisks_avoids (type : Int × Int) : ∀ disks added : List (List Char),
    Lib.Avoids Stop.Outside (addDisks w type added disks) := by
  intro disks
  induction disks with
  | nil => exact fun added => avoids_ok _
  | cons disk disks ih =>
    intro added
    rw [addDisks]
    exact .ite (fun _ => ih _) fun _ => avoids_error.mpr id

theorem build_avoids (m : CurMachine) : Lib.Avoids Stop.Outside (m.build w) := by
  unfold CurMachine.build
  split
  · exact avoids_error.mpr id
  · refine Avoids.bind ?_ fun _ _ => Avoids.bind ?_ fun _ _ => (addDisks_avoids _ _ _).bind fun _ _ => ?_
    · refine .ite (fun _ => avoids_ok _) fun _ => .ite (fun _ => avoids_ok _) fun _ => ?_
      exact .ite (fun _ => avoids_ok _) fun _ => avoids_error.mpr id
    · refine .ite (fun _ => avoids_ok _) fun _ => .ite (fun _ => avoids_ok _) fun _ => ?_
      exact .ite (fun _ => avoids_error.mpr id) fun _ => avoids_ok _
    · exact avoids_ok _

theorem NetField.size_pos (field : NetField) : 0 < field.size := by
  cases field <;> decide

theorem MachineField.size_pos (field : MachineField) : 0 < field.size := by
  cases field <;> decide

theorem parseEmul_avoids (p : Parse) (word : List Char) : Lib.Avoids Stop.Outside (parseEmul p word) := by
  refine .ite (fun _ => avoids_ok _) fun _ => .ite (fun _ => ?_) fun _ => .ite (fun _ => ?_) fun _ => ?_
  · exact (readValue_avoids (by decide) _).bind fun _ _ => avoids_ok _
  · exact (readOneWord_avoids (by decide) _ _).bind fun _ _ => avoids_ok _
  · refine .ite (fun _ => ?_) fun _ => avoids_error.mpr id
    exact (readOneWord_avoids (by decide) _ _).bind fun _ _ => avoids_ok _

theorem parseNet_avoids (p : Parse) (word : List Char) : Lib.Avoids Stop.Outside (parseNet w p word) := by
  refine .ite (fun _ => ?_) fun _ => ?_
  · refine .ite (fun _ => avoids_error.mpr id) fun _ => ?_
    exact .ite (fun _ => avoids_error.mpr id) fun _ => avoids_ok _
  · split
    · exact (readValue_avoids (NetField.size_pos _) _).bind fun _ _ => avoids_ok _
    · refine .ite (fun _ => ?_) fun _ => avoids_error.mpr id
      exact (readElement_avoids (by decide) fun hlt _ => hlt).bind fun _ _ => avoids_ok _

theorem declared_eq {table : MachineTable} (h : table ≠ .device) : table.size.declared = table.size.limit := by
  cases table <;> first | rfl | exact absurd rfl h

theorem find_tables {name : String} {table : MachineTable}
    (h : machineTables.find? (·.1.toList = word) = some (name, table)) : word = name.toList ∧
      (table = .device → name = "device") := by
  have hword := List.find?_some h
  have hmem := List.mem_of_find?_eq_some h
  have hall : ∀ e ∈ machineTables, e.2 = .device → e.1 = "device" := by decide
  exact ⟨(of_decide_eq_true hword).symm, hall _ hmem⟩

theorem item_avoids {m : CurMachine} (h : word = "device".toList → (m.tables .device).length < maxNDevice →
    (∃ r, readOneWord maxWordLen expectLeft f = .ok r) → (m.tables .device).length < maxNDisk) :
    Lib.Avoids Stop.Outside (m.item f word) := by
  unfold CurMachine.item
  split
  · exact (readValue_avoids (MachineField.size_pos _) _).bind fun _ _ => avoids_ok _
  · split
    · rename_i name table hfind
      obtain ⟨hword, hname⟩ := find_tables hfind
      refine (readElement_avoids (by cases table <;> decide) fun hlt hleft => ?_).bind fun _ _ => avoids_ok _
      by_cases hdevice : table = .device
      · subst hdevice
        rw [hname rfl] at hword
        exact h hword hlt hleft
      · rw [declared_eq hdevice]
        exact hlt
    · exact avoids_error.mpr id

theorem parseStep_avoids (h : ¬ p.Overflows) : Lib.Avoids Stop.Outside (parseStep w p) := by
  refine .ite (fun _ => avoids_ok _) fun heof => ?_
  refine (readOneWord_avoids (by decide) _ _).bind fun a hread => ?_
  obtain ⟨f, word⟩ := a
  refine .ite (fun _ => avoids_ok _) fun _ => Avoids.bind ?_ fun _ _ => avoids_ok _
  unfold parseWord
  split
  · exact parseEmul_avoids _ _
  · exact parseNet_avoids _ _
  · rename_i hstate
    refine .ite (fun _ => (build_avoids _).bind fun _ _ => avoids_ok _) fun _ => ?_
    refine (item_avoids fun hword hlt hleft => ?_).bind fun _ _ => avoids_ok _
    by_contra hge
    obtain ⟨r, hr⟩ := hleft
    exact h ⟨by simpa using heof, hstate, ⟨Nat.le_of_not_lt hge, hlt⟩, f, r, hword ▸ hread, hr⟩
  · exact avoids_ok _

theorem Parse.Overflows.step (h : p.Overflows) :
    parseStep w p = .error (.outside (p.machine.tables .device).length maxNDisk) := by
  obtain ⟨heof, hstate, ⟨hge, hlt⟩, f, r, hread, hleft⟩ := h
  have hitem : p.machine.item f "device".toList =
      .error (.outside (p.machine.tables .device).length maxNDisk) := by
    show (readElement MachineTable.device.size (p.machine.tables .device) f >>= _) = _
    have hlimit : ¬ MachineTable.device.size.limit ≤ (p.machine.tables .device).length := Nat.not_le.mpr hlt
    have hdeclared : MachineTable.device.size.declared ≤ (p.machine.tables .device).length := hge
    unfold readElement
    rw [hleft]
    simp only [Lib.ok_bind]
    rw [if_neg hlimit, if_pos hdeclared]
    rfl
  unfold parseStep
  rw [heof, hread]
  simp only [Bool.false_eq_true, if_false, Lib.ok_bind]
  rw [if_neg (by decide), parseWord_machine hstate, parseMachine, if_neg (by decide), hitem]
  rfl

/-! ## Files -/

/-- What is expected of a file: the loop comes to an end, not because of a store, and
every section of a machine is on its own. -/
structure Contained (w : World) (p : Parse) : Prop where
  inside : ∃ r, emulParseConfig w (p.f.rest.length + 1) p = some r ∧ Lib.Avoids Stop.Outside r
  zeroState : ∀ q q', Reached w p q → parseStep w q = .ok (some q') → q.state = .emul → q'.state = .machine →
    q'.machine = .zero
  sections : ∀ q q' r, Reached w p q → Section w q q' → r.state = .emul → q.f = r.f →
    ∃ r' m serial, Section w r r' ∧ q'.f = r'.f ∧ q'.emul.machines = q.emul.machines ++ [m] ∧
      r'.emul.machines = r.emul.machines ++ [{ m with serialNr := serial }]

/-- A file is contained where no section comes to a device that there is no room for. -/
theorem contained_iff (w : World) (net : CurNet) (machine : CurMachine) (emul : Emul) (text : List Char) :
    Contained w (.start net machine emul text) ↔
      ∀ q, Reached w (.start net machine emul text) q → ¬ q.Overflows := by
  obtain ⟨p, hp⟩ : ∃ p, p = Parse.start net machine emul text := ⟨_, rfl⟩
  rw [← hp]
  obtain ⟨x, hx⟩ := parse_ends w p
  have hrun : ∃ r, emulParseConfig w (p.f.rest.length + 1) p = some r ∧
      (Lib.Avoids Stop.Outside r ↔ Lib.Avoids Stop.Outside x) := by
    refine ⟨_, by rw [emulParseConfig, hx]; rfl, ?_⟩
    cases x with
    | error e => exact ⟨fun h => avoids_error.mpr (h e rfl), fun h => avoids_error.mpr (h e rfl)⟩
    | ok q =>
      refine iff_of_true ?_ (avoids_ok _)
      exact .ite (fun _ => avoids_error.mpr id) fun _ => avoids_ok _
  obtain ⟨r, hr, hiff⟩ := hrun
  constructor
  · intro hc q hq hover
    have hx' := Goes.whileLoop_eq hq (parseTurn_stop hover.step) hx
    obtain ⟨r', hr', havoids⟩ := hc.inside
    rw [hr] at hr'
    cases hr'
    exact hiff.mp havoids _ hx' trivial
  · intro hno
    refine ⟨⟨r, hr, hiff.mpr fun e he hout => ?_⟩, fun q q' _ hstep hq hq' => parseStep_machine hq hstep hq',
      fun q q' s _ hsec hs hf => hsec.same hs hf⟩
    -- the turn that stops outside is one of a state that is reached
    obtain ⟨y, hy, hlast⟩ := whileLoop_last hx
    obtain ⟨q, rfl, hq⟩ := goes_ok hy
    cases hs : parseStep w q with
    | error e' =>
      rw [parseTurn_stop hs] at hlast
      cases hlast
      cases he
      exact parseStep_avoids (hno q hq) e hs hout
    | ok next =>
      have hok : ∃ z, (parseTurn w (.ok q)).1 = .ok z := by
        rw [parseTurn, hs]
        cases next with
        | none => exact ⟨q, rfl⟩
        | some z => exact ⟨z, rfl⟩
      obtain ⟨z, hz⟩ := hok
      rw [hlast, he] at hz
      cases hz

def elevenDevices : List Char :=
  "machine(".toList ++ (List.replicate 11 "device(a)".toList).flatten ++ ")".toList

theorem elevenDevices_not_contained :
    ¬ Contained ⟨fun _ _ => some (0, 0), fun _ _ _ => true, fun _ => true⟩
      (.start defaultNet .zero ⟨none, none, [], 1⟩ elevenDevices) := by
  rintro ⟨⟨r, hr, havoids⟩, -, -⟩
  have hrun : emulParseConfig ⟨fun _ _ => some (0, 0), fun _ _ _ => true, fun _ => true⟩ (elevenDevices.length + 1)
      (.start defaultNet .zero ⟨none, none, [], 1⟩ elevenDevices) = some (.error (.outside 10 10)) := by
    decide +kernel
  rw [show (Parse.start defaultNet .zero ⟨none, none, [], 1⟩ elevenDevices).f.rest = elevenDevices from rfl, hrun] at hr
  cases hr
  exact havoids _ rfl trivial

end Gxemul.Config
