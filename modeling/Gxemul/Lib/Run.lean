import Mathlib.Data.List.Basic
import Mathlib.Logic.Relation
import Mathlib.Order.Basic

/- Runs of a partial step function. `runOps step ops s` performs the operations
   in order and stops at the first one that exits. `Along step guard ops s` says
   that every operation of the run meets `guard` in the state it is performed
   in, and `Always step P ops s` that no operation exits and that `P` holds in
   every state the run goes through, the first and the last included. `Reaches`
   leaves out that no operation exits.

   `always_of_along` is the invariant rule, `always_iff_along` its exact form
   for a property that a step keeps precisely when it meets the guard. The
   operations of a run can be restricted to legal ones. -/
namespace Gxemul.Lib

section
variable {σ α ε : Type*} (step : σ → α → Except ε σ)

/-- Perform the operations in order, stopping at the first one that exits. -/
def runOps : List α → σ → Except ε σ
  | [], s => .ok s
  | o :: os, s =>
    match step s o with
    | .ok s' => runOps os s'
    | .error e => .error e

/-- Every operation meets `guard` in the state it is performed in. -/
def Along (guard : σ → α → Prop) : List α → σ → Prop
  | [], _ => True
  | o :: os, s => guard s o ∧ ∀ s', step s o = .ok s' → Along guard os s'

/-- No operation exits, and `P` holds in every state of the run. -/
def Always (P : σ → Prop) : List α → σ → Prop
  | [], s => P s
  | o :: os, s => P s ∧ ∃ s', step s o = .ok s' ∧ Always P os s'

/-- `P` holds in every state of the run, up to an operation that exits. -/
def Reaches (P : σ → Prop) : List α → σ → Prop
  | [], s => P s
  | o :: os, s => P s ∧ ∀ s', step s o = .ok s' → Reaches P os s'

variable {step}

theorem Always.mono {P Q : σ → Prop} (h : ∀ s, P s → Q s) :
    ∀ {ops : List α} {s : σ}, Always step P ops s → Always step Q ops s
  | [], _, hp => h _ hp
  | _ :: _, _, ⟨hp, s', hs, hrest⟩ => ⟨h _ hp, s', hs, hrest.mono h⟩

theorem Always.first {P : σ → Prop} : ∀ {ops : List α} {s : σ}, Always step P ops s → P s
  | [], _, h => h
  | _ :: _, _, h => h.1

theorem Along.and {guard guard' : σ → α → Prop} : ∀ {ops : List α} {s : σ}, Along step guard ops s →
    Along step guard' ops s → Along step (fun s o => guard s o ∧ guard' s o) ops s
  | [], _, _, _ => trivial
  | _ :: _, _, ⟨hg, hrest⟩, ⟨hg', hrest'⟩ => ⟨⟨hg, hg'⟩, fun s' hs => (hrest s' hs).and (hrest' s' hs)⟩

theorem along_true : ∀ (ops : List α) (s : σ), Along step (fun _ _ => True) ops s
  | [], _ => trivial
  | _ :: os, _ => ⟨trivial, fun s' _ => along_true os s'⟩

theorem runOps_append : ∀ (ops ops' : List α) (s : σ),
    runOps step (ops ++ ops') s = (runOps step ops s >>= fun s' => runOps step ops' s')
  | [], _, _ => rfl
  | o :: os, ops', s => by
    simp only [List.cons_append, runOps]
    cases step s o with
    | error e => rfl
    | ok s' => exact runOps_append os ops' s'

/-- A run of one operation. -/
theorem runOps_singleton {o : α} {s s' : σ} : runOps step [o] s = .ok s' ↔ step s o = .ok s' := by
  unfold runOps
  cases step s o <;> exact Iff.rfl

instance decidableAlong {guard : σ → α → Prop} [∀ s o, Decidable (guard s o)] :
    ∀ (ops : List α) (s : σ), Decidable (Along step guard ops s)
  | [], _ => isTrue trivial
  | o :: os, s =>
    match h : step s o with
    | .ok s' =>
      have : Decidable (Along step guard os s') := decidableAlong os s'
      decidable_of_iff (guard s o ∧ Along step guard os s') (by simp [Along, h])
    | .error _ => decidable_of_iff (guard s o) (by simp [Along, h])

/-- The invariant rule. -/
theorem always_of_along (legal : α → Prop) {guard : σ → α → Prop} {Inv : σ → Prop}
    (hstep : ∀ s o, legal o → Inv s → guard s o → ∃ s', step s o = .ok s' ∧ Inv s') :
    ∀ {ops : List α} {s : σ}, (∀ o ∈ ops, legal o) → Inv s → Along step guard ops s → Always step Inv ops s
  | [], _, _, hi, _ => hi
  | o :: _, s, hl, hi, ⟨hg, hrest⟩ => by
    obtain ⟨s', hs, hi'⟩ := hstep s o (hl o (by simp)) hi hg
    exact ⟨hi, s', hs, always_of_along legal hstep (fun o' ho => hl o' (by simp [ho])) hi' (hrest s' hs)⟩

/-- The invariant rule for runs that may exit. -/
theorem reaches_of_along (legal : α → Prop) {guard : σ → α → Prop} {Inv : σ → Prop}
    (hstep : ∀ s o s', legal o → Inv s → guard s o → step s o = .ok s' → Inv s') :
    ∀ {ops : List α} {s : σ}, (∀ o ∈ ops, legal o) → Inv s → Along step guard ops s → Reaches step Inv ops s
  | [], _, _, hi, _ => hi
  | o :: _, s, hl, hi, ⟨hg, hrest⟩ =>
    ⟨hi, fun s' hs => reaches_of_along legal hstep (fun o' ho => hl o' (by simp [ho]))
      (hstep s o s' (hl o (by simp)) hi hg hs) (hrest s' hs)⟩

theorem Reaches.mono {P Q : σ → Prop} (h : ∀ s, P s → Q s) :
    ∀ {ops : List α} {s : σ}, Reaches step P ops s → Reaches step Q ops s
  | [], _, hp => h _ hp
  | _ :: _, _, ⟨hp, hrest⟩ => ⟨h _ hp, fun s' hs => (hrest s' hs).mono h⟩

theorem Reaches.first {P : σ → Prop} : ∀ {ops : List α} {s : σ}, Reaches step P ops s → P s
  | [], _, h => h
  | _ :: _, _, h => h.1

/-- The invariant rule for an invariant that every step keeps. -/
theorem reaches_of_inv {Inv P : σ → Prop} (hstep : ∀ s o s', Inv s → step s o = .ok s' → Inv s')
    (hinv : ∀ s, Inv s → P s) : ∀ {ops : List α} {s : σ}, Inv s → Reaches step P ops s
  | [], _, hi => hinv _ hi
  | o :: _, s, hi => ⟨hinv _ hi, fun s' hs => reaches_of_inv hstep hinv (hstep s o s' hi hs)⟩

/-- The last state of a run that does not exit is reached. -/
theorem Reaches.last {P : σ → Prop} : ∀ {ops : List α} {s s' : σ}, Reaches step P ops s →
    runOps step ops s = .ok s' → P s'
  | [], _, _, hp, hr => by
    cases hr
    exact hp
  | o :: os, s, s', ⟨_, hrest⟩, hr => by
    unfold runOps at hr
    split at hr
    · rename_i s1 hs
      exact (hrest s1 hs).last hr
    · cases hr

/-- The exact form. `K` is kept by every step, `P` precisely by the steps that
meet the guard: then `P` holds throughout a run exactly when all its steps meet
the guard. -/
theorem always_iff_along (legal : α → Prop) {guard : σ → α → Prop} {K P : σ → Prop}
    (hK : ∀ s o, legal o → K s → ∃ s', step s o = .ok s' ∧ K s')
    (hP : ∀ s o s', legal o → K s → P s → step s o = .ok s' → (guard s o ↔ P s')) :
    ∀ {ops : List α} {s : σ}, (∀ o ∈ ops, legal o) → K s → P s →
      (Always step P ops s ↔ Along step guard ops s)
  | [], _, _, _, hp => ⟨fun _ => trivial, fun _ => hp⟩
  | o :: os, s, hl, hk, hp => by
    have hlo : legal o := hl o (by simp)
    have hlos : ∀ o' ∈ os, legal o' := fun o' ho => hl o' (by simp [ho])
    obtain ⟨s', hs, hk'⟩ := hK s o hlo hk
    have hguard := hP s o s' hlo hk hp hs
    constructor
    · rintro ⟨_, s'', hs'', hrest⟩
      rw [hs] at hs''
      cases hs''
      have hp' : P s' := hrest.first
      refine ⟨hguard.mpr hp', fun s'' hs'' => ?_⟩
      rw [hs] at hs''
      cases hs''
      exact (always_iff_along legal hK hP hlos hk' hp').mp hrest
    · rintro ⟨hg, hrest⟩
      have hp' : P s' := hguard.mp hg
      exact ⟨hp, s', hs, (always_iff_along legal hK hP hlos hk' hp').mpr (hrest s' hs)⟩

/-- The exact form for runs that may exit. Only the steps that return have to
meet the guard. -/
theorem reaches_iff_along {guard : σ → α → Prop} {K P : σ → Prop}
    (hK : ∀ s o s', K s → step s o = .ok s' → K s')
    (hP : ∀ s o s', K s → P s → step s o = .ok s' → (guard s o ↔ P s')) :
    ∀ {ops : List α} {s : σ}, K s → P s →
      (Reaches step P ops s ↔ Along step (fun s o => (∃ s', step s o = .ok s') → guard s o) ops s)
  | [], _, _, hp => ⟨fun _ => trivial, fun _ => hp⟩
  | o :: os, s, hk, hp => by
    constructor
    · rintro ⟨_, hrest⟩
      refine ⟨fun ⟨s', hs⟩ => (hP s o s' hk hp hs).mpr (hrest s' hs).first, fun s' hs => ?_⟩
      exact (reaches_iff_along hK hP (hK s o s' hk hs) (hrest s' hs).first).mp (hrest s' hs)
    · rintro ⟨hg, hrest⟩
      refine ⟨hp, fun s' hs => ?_⟩
      have hp' : P s' := (hP s o s' hk hp hs).mp (hg ⟨s', hs⟩)
      exact (reaches_iff_along hK hP (hK s o s' hk hs) hp').mpr (hrest s' hs)

/-- The exact form for a property that needs a stronger invariant: good steps keep the invariant, and the others break
the property. -/
theorem reaches_iff_of_inv {legal guard : σ → α → Prop} {R P : σ → Prop} (hRP : ∀ s, R s → P s)
    (hstep : ∀ s o, R s → legal s o → ∃ s', step s o = .ok s' ∧ (guard s o → R s') ∧ (¬ guard s o → ¬ P s'))
    {ops : List α} {s : σ} (hs : R s) (hlegal : Along step legal ops s) :
    Reaches step P ops s ↔ Along step guard ops s := by
  induction ops generalizing s with
  | nil => exact ⟨fun _ => trivial, fun _ => hRP s hs⟩
  | cons o os ih =>
    obtain ⟨s', hs', hgood, hbad⟩ := hstep s o hs hlegal.1
    have hlegal' : Along step legal os s' := hlegal.2 s' hs'
    constructor
    · rintro ⟨-, hrest⟩
      have hguard : guard s o := by
        by_contra h
        exact hbad h (hrest s' hs').first
      refine ⟨hguard, fun s'' hs'' => ?_⟩
      obtain rfl : s' = s'' := Except.ok.inj (hs'.symm.trans hs'')
      exact (ih (hgood hguard) hlegal').mp (hrest s' hs')
    · rintro ⟨hguard, hrest⟩
      refine ⟨hRP s hs, fun s'' hs'' => ?_⟩
      obtain rfl : s' = s'' := Except.ok.inj (hs'.symm.trans hs'')
      exact (ih (hgood hguard) hlegal').mpr (hrest s' hs')

/-- The exact form for operations that exit just when they do not meet the guard. -/
theorem always_iff_of_exits {guard : σ → α → Prop} {Inv : σ → Prop}
    (hgood : ∀ s o, Inv s → guard s o → ∃ s', step s o = .ok s' ∧ Inv s')
    (hbad : ∀ s o s', Inv s → step s o = .ok s' → guard s o) :
    ∀ {ops : List α} {s : σ}, Inv s → (Always step (fun _ => True) ops s ↔ Along step guard ops s)
  | [], _, _ => ⟨fun _ => trivial, fun _ => trivial⟩
  | o :: os, s, hi => by
    constructor
    · rintro ⟨-, s', hs, hrest⟩
      have hg := hbad s o s' hi hs
      obtain ⟨s1, hs1, hi1⟩ := hgood s o hi hg
      obtain rfl : s' = s1 := Except.ok.inj (hs.symm.trans hs1)
      refine ⟨hg, fun s'' hs'' => ?_⟩
      obtain rfl : s' = s'' := Except.ok.inj (hs.symm.trans hs'')
      exact (always_iff_of_exits hgood hbad hi1).mp hrest
    · rintro ⟨hg, hrest⟩
      obtain ⟨s', hs, hi'⟩ := hgood s o hi hg
      exact ⟨trivial, s', hs, (always_iff_of_exits hgood hbad hi').mpr (hrest s' hs)⟩

/-- What holds in every state of a run holds in its last one. -/
theorem Always.last {P : σ → Prop} : ∀ {ops : List α} {s : σ}, Always step P ops s →
    ∃ s', runOps step ops s = .ok s' ∧ P s'
  | [], s, hp => ⟨s, rfl, hp⟩
  | _ :: _, _, ⟨_, s', hs, hrest⟩ => by
    obtain ⟨s'', hr, hp⟩ := hrest.last
    exact ⟨s'', by simp only [runOps, hs, hr], hp⟩

/-- The simulation rule for runs whose steps meet a guard. -/
theorem runOps_sim_along {τ ε' : Type*} {step' : τ → α → Except ε' τ} {R : σ → τ → Prop} {guard : σ → α → Prop}
    (hstep : ∀ s u o u', R s u → guard s o → step' u o = .ok u' → ∃ s', step s o = .ok s' ∧ R s' u') :
    ∀ {ops : List α} {s : σ} {u u' : τ}, R s u → Along step guard ops s → runOps step' ops u = .ok u' →
      ∃ s', runOps step ops s = .ok s' ∧ R s' u'
  | [], s, _, _, h, _, hr => by
    cases hr
    exact ⟨s, rfl, h⟩
  | o :: os, s, u, u', h, ⟨hg, hgs⟩, hr => by
    unfold runOps at hr
    split at hr
    · rename_i u1 hu
      obtain ⟨s1, hs, h1⟩ := hstep s u o u1 h hg hu
      obtain ⟨s', hrest, h'⟩ := runOps_sim_along hstep h1 (hgs s1 hs) hr
      refine ⟨s', ?_, h'⟩
      simp only [runOps, hs]
      exact hrest
    · cases hr

/-- The simulation rule: a run whose steps are simulated is simulated. -/
theorem runOps_sim {τ ε' : Type*} {step' : τ → α → Except ε' τ} {R : σ → τ → Prop}
    (hstep : ∀ s u o u', R s u → step' u o = .ok u' → ∃ s', step s o = .ok s' ∧ R s' u')
    {ops : List α} {s : σ} {u u' : τ} (h : R s u) (hr : runOps step' ops u = .ok u') :
    ∃ s', runOps step ops s = .ok s' ∧ R s' u' :=
  runOps_sim_along (fun s u o u' h _ => hstep s u o u' h) h (along_true ops s) hr

/-- The refinement rule: a run whose steps meet the guard does what the specification does. -/
theorem runOps_refines {τ : Type*} {guard : σ → α → Prop} {spec : τ → α → τ} {R : σ → τ → Prop}
    (hstep : ∀ s t o, R s t → guard s o → ∃ s', step s o = .ok s' ∧ R s' (spec t o)) :
    ∀ {ops : List α} {s : σ} {t : τ}, R s t → Along step guard ops s →
      ∃ s', runOps step ops s = .ok s' ∧ R s' (ops.foldl spec t)
  | [], s, _, h, _ => ⟨s, rfl, h⟩
  | o :: os, s, t, h, ⟨hg, hrest⟩ => by
    obtain ⟨s1, hs, h1⟩ := hstep s t o h hg
    obtain ⟨s', hr, h'⟩ := runOps_refines hstep h1 (hrest s1 hs)
    exact ⟨s', by simp only [runOps, hs, hr], h'⟩

/-- The invariant rule for runs that may exit, with what is known of the exits. -/
theorem runOps_inv {Inv : σ → Prop} {E : ε → Prop}
    (hstep : ∀ s o, Inv s → (∀ s', step s o = .ok s' → Inv s') ∧ ∀ e, step s o = .error e → E e) :
    ∀ {ops : List α} {s : σ}, Inv s →
      (∀ s', runOps step ops s = .ok s' → Inv s') ∧ ∀ e, runOps step ops s = .error e → E e
  | [], s, hi => ⟨fun s' hr => Except.ok.inj hr ▸ hi, fun e hr => nomatch hr⟩
  | o :: os, s, hi => by
    obtain ⟨hok, herr⟩ := hstep s o hi
    unfold runOps
    cases hs : step s o with
    | ok s1 => exact runOps_inv hstep (hok s1 hs)
    | error e =>
      refine ⟨fun s' hr => (nomatch hr), fun e' hr => ?_⟩
      cases hr
      exact herr e hs

/-- A map that commutes with every step commutes with a run, as long as the invariant that this takes is
kept and the steps meet the guard. -/
theorem runOps_map_along {τ : Type*} {step' : τ → α → Except ε τ} {g : σ → τ} {Inv : σ → Prop} {guard : τ → α → Prop}
    (hmap : ∀ s o, Inv s → guard (g s) o → step' (g s) o = (step s o).map g)
    (hinv : ∀ s o s', Inv s → guard (g s) o → step s o = .ok s' → Inv s') :
    ∀ {ops : List α} {s : σ}, Inv s → Along step' guard ops (g s) →
      runOps step' ops (g s) = (runOps step ops s).map g
  | [], _, _, _ => rfl
  | o :: os, s, hi, ⟨hg, hgs⟩ => by
    have hstep := hmap s o hi hg
    unfold runOps
    rw [hstep]
    cases hs : step s o with
    | error e => rfl
    | ok s1 =>
      rw [hs] at hstep
      exact runOps_map_along hmap hinv (hinv s o s1 hi hg hs) (hgs (g s1) hstep)

/-- A result that can be read is not an error. -/
theorem eval_eq_ok {ρ β : Type*} (r : Except ε ρ) (f : ρ → β) (y : β) (hy : r.toOption.map f = some y) :
    ∃ x, r = .ok x ∧ f x = y := by
  cases r with
  | error e => cases hy
  | ok x => exact ⟨x, rfl, Option.some.inj hy⟩

/-- A run whose last state can be read did not exit. -/
theorem runOps_eval {β : Type*} (step : σ → α → Except ε σ) (ops : List α) (s : σ) (f : σ → β) (y : β)
    (hy : (runOps step ops s).toOption.map f = some y) : ∃ s', runOps step ops s = .ok s' ∧ f s' = y :=
  eval_eq_ok _ f y hy

/-- Reading something off the last state of a run in which `P` always holds. -/
theorem Always.eval {β : Type*} {P : σ → Prop} {ops : List α} {s : σ} (h : Always step P ops s) {f : σ → β} {y : β}
    (hy : (runOps step ops s).toOption.map f = some y) : ∃ s', P s' ∧ f s' = y := by
  obtain ⟨s', hr, hp⟩ := h.last
  rw [hr] at hy
  exact ⟨s', hp, Option.some.inj hy⟩

/-- The rest of a program after a part that returns. -/
theorem ok_bind.{u, v} {ε : Type v} {α β : Type u} (a : α) (f : α → Except ε β) : (Except.ok a >>= f) = f a := rfl

theorem bind_eq_ok.{u, v} {ε : Type v} {α β : Type u} {x : Except ε α} {f : α → Except ε β} {b : β}
    (h : x >>= f = .ok b) :
    ∃ a, x = .ok a ∧ f a = .ok b := by
  cases x with
  | error e => cases h
  | ok a => exact ⟨a, rfl, h⟩

/-- What the body of a loop keeps holds after the loop. -/
theorem foldlM_inv {I : σ → Prop} {f : σ → α → Except ε σ} :
    ∀ {l : List α} {s s' : σ}, (∀ s o s', o ∈ l → I s → f s o = .ok s' → I s') → l.foldlM f s = .ok s' → I s → I s'
  | [], _, _, _, h, hi => by
    cases h
    exact hi
  | o :: l, s, s', hf, h, hi => by
    rw [List.foldlM_cons] at h
    obtain ⟨s1, hs, hrest⟩ := bind_eq_ok h
    exact foldlM_inv (fun s o' s' ho => hf s o' s' (by simp [ho])) hrest (hf s o s1 (by simp) hi hs)

/-- A loop fails in a way in which its body fails. -/
theorem foldlM_ne_error {f : σ → α → Except ε σ} {e : ε} (hf : ∀ s o, f s o ≠ .error e) :
    ∀ (l : List α) (s : σ), l.foldlM f s ≠ .error e
  | [], _ => fun h => by cases h
  | o :: l, s => by
    rw [List.foldlM_cons]
    intro h
    cases hs : f s o with
    | error e' =>
      rw [hs] at h
      cases h
      exact hf s o hs
    | ok s1 =>
      rw [hs] at h
      exact foldlM_ne_error hf l s1 h

/-- A loop whose body simulates another loop's body simulates the loop. -/
theorem foldlM_sim {τ : Type*} {R : σ → τ → Prop} {f : σ → α → Except ε σ} {g : τ → α → τ}
    (hf : ∀ s u o, R s u → ∃ s', f s o = .ok s' ∧ R s' (g u o)) :
    ∀ (l : List α) {s : σ} {u : τ}, R s u → ∃ s', l.foldlM f s = .ok s' ∧ R s' (l.foldl g u)
  | [], s, _, h => ⟨s, rfl, h⟩
  | o :: l, s, u, h => by
    obtain ⟨s', hs, h'⟩ := hf s u o h
    obtain ⟨s'', hs', h''⟩ := foldlM_sim hf l h'
    refine ⟨s'', ?_, h''⟩
    rw [List.foldlM_cons, hs]
    exact hs'

end

end Gxemul.Lib

/- Histories: lists of events that are right one after the other. `Each right h`
   says that every event of `h` is right after the events before it. -/
namespace Gxemul.Lib

section
variable {α : Type*} {right : List α → α → Prop} {h events : List α} {e : α}

/-- Every event is right after those before it. -/
def Each (right : List α → α → Prop) (h : List α) : Prop :=
  ∀ before e after, h = before ++ e :: after → right before e

theorem Each.nil : Each right [] := by
  intro before e after heq
  cases before <;> cases heq

/-- One event more. -/
theorem Each.snoc (hh : Each right h) (he : right h e) : Each right (h ++ [e]) := by
  intro before e' after heq
  obtain rfl | ⟨after', e'', rfl⟩ := List.eq_nil_or_concat after
  · obtain ⟨rfl, he'⟩ := List.append_inj' heq rfl
    cases he'
    exact he
  · have hsplit : before ++ e' :: (after' ++ [e'']) = (before ++ e' :: after') ++ [e''] := by simp
    rw [List.concat_eq_append, hsplit] at heq
    obtain ⟨rfl, -⟩ := List.append_inj' heq rfl
    exact hh before e' after' rfl

/-- Events that are right after anything that is kept by all of them. -/
theorem Each.append {K : List α → Prop} (hh : Each right h) (hK : K h)
    (hstep : ∀ h, K h → ∀ e ∈ events, right h e ∧ K (h ++ [e])) : Each right (h ++ events) := by
  induction events generalizing h with
  | nil => rwa [List.append_nil]
  | cons e events ih =>
    obtain ⟨he, hK'⟩ := hstep h hK e List.mem_cons_self
    have hrest := ih (hh.snoc he) hK' fun h hK e' he' => hstep h hK e' (List.mem_cons_of_mem _ he')
    rwa [List.append_assoc] at hrest

/-- What is right in a history is right in each part of it that it starts with. -/
theorem Each.of_append (hh : Each right (h ++ events)) : Each right h := by
  rintro before e after rfl
  exact hh before e (after ++ events) (by simp)

theorem each_iff : Each right h ↔ ∀ k : Fin h.length, right (h.take k) (h.get k) := by
  constructor
  · intro hh k
    exact hh _ _ (h.drop (k + 1)) (by rw [List.get_eq_getElem, List.getElem_cons_drop, List.take_append_drop])
  · rintro hh before e after rfl
    have hk := hh ⟨before.length, by simp⟩
    simpa using hk

instance [∀ h e, Decidable (right h e)] : Decidable (Each right h) := decidable_of_iff' _ each_iff

end

end Gxemul.Lib

/- Loops that go on for as long as their body says so.

   `whileLoop` has a fuel, and gives nothing when it runs out. The result does not
   depend on the fuel, an invariant of the body is one of the loop, and the loop ends
   with enough fuel when a measure decreases each time that it goes on. -/
namespace Gxemul.Lib

variable {α : Type*} (body : α → α × Bool)

/-- Repeat the body until it says that it is done. -/
def whileLoop : Nat → α → Option α
  | 0, _ => none
  | n + 1, a => if (body a).2 then whileLoop n (body a).1 else some (body a).1

/-- What the loop goes through. -/
def Goes : α → α → Prop := Relation.ReflTransGen fun a b => body a = (b, true)

variable {body} {a b : α}

theorem whileLoop_inv {P : α → Prop} (hbody : ∀ a, P a → P (body a).1) :
    ∀ {n : Nat} {a b : α}, P a → whileLoop body n a = some b → P b
  | 0, _, _, _, h => nomatch h
  | n + 1, a, b, ha, h => by
    unfold whileLoop at h
    split at h
    · exact whileLoop_inv hbody (hbody a ha) h
    · cases h
      exact hbody a ha

theorem whileLoop_mono : ∀ {n m : Nat} {a b : α}, n ≤ m → whileLoop body n a = some b → whileLoop body m a = some b
  | 0, _, _, _, _, h => nomatch h
  | n + 1, 0, _, _, hle, _ => absurd hle (Nat.not_succ_le_zero n)
  | n + 1, m + 1, a, b, hle, h => by
    unfold whileLoop at h ⊢
    split at h
    · rename_i hgo
      rw [if_pos hgo]
      exact whileLoop_mono (Nat.le_of_succ_le_succ hle) h
    · rename_i hgo
      rw [if_neg hgo]
      exact h

/-- The loop ends when a measure decreases wherever it goes on. -/
theorem whileLoop_terminates (μ : α → Nat) :
    ∀ {k : Nat} {a : α}, μ a ≤ k → (∀ b, Goes body a b → (body b).2 = true → μ (body b).1 < μ b) →
      ∃ b, whileLoop body (k + 1) a = some b
  | k, a, hk, hdec => by
    unfold whileLoop
    by_cases hgo : (body a).2 = true
    · rw [if_pos hgo]
      have hlt : μ (body a).1 < μ a := hdec a Relation.ReflTransGen.refl hgo
      cases k with
      | zero => omega
      | succ k =>
        apply whileLoop_terminates μ (by omega)
        intro b hb
        apply hdec b
        have hfirst : body a = ((body a).1, true) := Prod.ext rfl hgo
        exact Relation.ReflTransGen.head hfirst hb
    · rw [if_neg hgo]
      exact ⟨_, rfl⟩

/-- An invariant that the body keeps holds of all that the loop goes through. -/
theorem Goes.inv {P : α → Prop} (hbody : ∀ a, P a → P (body a).1) (hab : Goes body a b) (ha : P a) : P b := by
  induction hab with
  | refl => exact ha
  | tail _ hstep ih =>
    have hkeep := hbody _ ih
    rw [hstep] at hkeep
    exact hkeep

/-- What the loop ends with is the result of a turn that it reaches. -/
theorem whileLoop_last : ∀ {n : Nat} {a b : α}, whileLoop body n a = some b →
    ∃ c, Goes body a c ∧ body c = (b, false) := by
  intro n
  induction n with
  | zero =>
    intro a b h
    cases h
  | succ n ih =>
    intro a b h
    unfold whileLoop at h
    split at h
    · rename_i hgo
      obtain ⟨c, hc, hlast⟩ := ih h
      exact ⟨c, Relation.ReflTransGen.head (Prod.ext rfl hgo) hc, hlast⟩
    · rename_i hgo
      cases h
      exact ⟨a, Relation.ReflTransGen.refl, Prod.ext rfl (Bool.not_eq_true _ ▸ hgo)⟩

/-- A turn that the loop reaches and that says that it is done is the last one. -/
theorem Goes.whileLoop_eq {c r : α} (hgoes : Goes body a c) (hlast : body c = (b, false)) :
    ∀ {n : Nat}, whileLoop body n a = some r → r = b := by
  induction hgoes using Relation.ReflTransGen.head_induction_on with
  | refl =>
    intro n h
    cases n with
    | zero => cases h
    | succ n =>
      rw [whileLoop, hlast] at h
      cases h
      rfl
  | head hstep _ ih =>
    intro n h
    cases n with
    | zero => cases h
    | succ n =>
      rw [whileLoop, hstep] at h
      exact ih h

/-! ## Programs that do not stop in some ways -/

/-- A program that stops in no way that is bad. -/
def Avoids {ε α : Type*} (bad : ε → Prop) (x : Except ε α) : Prop := ∀ e, x = .error e → ¬ bad e

section
universe u v
variable {ε : Type v} {α β : Type u} {bad : ε → Prop} {x y : Except ε α} {f : α → Except ε β} {p : Prop} [Decidable p]

@[simp] theorem avoids_ok (a : α) : Avoids bad (.ok a : Except ε α) := by
  intro e h
  cases h

@[simp] theorem avoids_error {e : ε} : Avoids bad (.error e : Except ε α) ↔ ¬ bad e := by
  constructor
  · intro h
    exact h e rfl
  · intro h e' he
    cases he
    exact h

theorem Avoids.ite (hx : p → Avoids bad x) (hy : ¬ p → Avoids bad y) : Avoids bad (if p then x else y) := by
  split
  · exact hx ‹_›
  · exact hy ‹_›

theorem Avoids.bind (hx : Avoids bad x) (hf : ∀ a, x = .ok a → Avoids bad (f a)) : Avoids bad (x >>= f) := by
  cases x with
  | error e => exact avoids_error.mpr (hx e rfl)
  | ok a => exact hf a rfl

end

end Gxemul.Lib
