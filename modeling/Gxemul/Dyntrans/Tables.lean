import Gxemul.Dyntrans.TreeRefinement

/- The translation tables of a CPU, 32-bit or 64-bit. The operations are those of
   `Vph` or of `Tree`; `Tables.flat` is what both kinds stand for. Each operation
   on good tables succeeds, keeps them good and is the flat operation on the flat
   tables, so what comes after this module reasons about flat tables only. -/
namespace Gxemul

def Arch.hasMode : Arch → Mode → Bool
  | .alpha, .mode32 => false
  | _, .mode32 => true
  | .alpha, .mode64 | .mips, .mode64 | .ppc, .mode64 | .riscv, .mode64 => true
  | _, .mode64 => false

theorem Arch.ne_of_mode64 {a : Arch} (h : a.hasMode .mode64 = true) : a ≠ .arm ∧ a ≠ .m88k := by
  cases a <;> simp [Arch.hasMode] at h <;> exact ⟨by decide, by decide⟩

inductive Tables where
  | vph32 (t : Vph)
  | vph64 (t : Tree)

namespace Tables

def mode : Tables → Mode
  | vph32 _ => .mode32
  | vph64 _ => .mode64

/-- All-zero tables, or those that init_tables() makes. -/
def init : Mode → Nat → Tables
  | .mode32, x => vph32 (Vph.init x)
  | .mode64, x => vph64 (Tree.init x)

variable (a : Arch)

def updateTranslationTable (t : Tables) (vaddrPage : Addr) (hostPage writeflag : Nat) (paddrPage : Addr) :
    Except Exit Tables :=
  match t with
  | vph32 t => vph32 <$> t.updateTranslationTable a .mode32 vaddrPage hostPage writeflag paddrPage
  | vph64 t => vph64 <$> t.updateTranslationTable a vaddrPage hostPage writeflag paddrPage

def invalidateTranslationCaches (vaddrMask : Addr) (t : Tables) (addr : Addr) (flags : Nat) : Except Exit Tables :=
  match t with
  | vph32 t => .ok (vph32 (t.invalidateTranslationCaches a .mode32 vaddrMask addr flags))
  | vph64 t => vph64 <$> t.invalidateTranslationCaches a vaddrMask addr flags

def invalidateCodeEntries (t : Tables) (addr : Addr) (flags : Nat) : Except Exit Tables :=
  match t with
  | vph32 t => .ok (vph32 (t.invalidateCodeEntries a .mode32 addr flags))
  | vph64 t => vph64 <$> t.invalidateCodeEntries a addr flags

/-- The counter in update_translation_table(). -/
def x : Tables → Nat
  | vph32 t => t.x
  | vph64 t => t.x

/-- The counter in update_translation_table() moves when another CPU of the
family inserts a page. -/
def setX (t : Tables) (x : Nat) : Tables :=
  match t with
  | vph32 t => vph32 { t with x := x }
  | vph64 t => vph64 { t with x := x }

def slotOf (t : Tables) (v : Addr) : Slot :=
  match t with
  | vph32 t => t.slot (a.addrToPagenr .mode32 v)
  | vph64 t => (t.l3 ((t.l2 (t.l1 (a.x1 v))).l3 (a.x2 v))).slot (a.x3 v)

def flat : Tables → Vph
  | vph32 t => t
  | vph64 t => t.flat a

def Good (t : Tables) : Prop :=
  a.hasMode t.mode = true ∧ (t.flat a).WF a t.mode ∧
    match t with
    | vph32 _ => True
    | vph64 t => t.Good a

variable {a} {t : Tables}

theorem Good.init {mode : Mode} (hm : a.hasMode mode = true) (x : Nat) : (Tables.init mode x).Good a := by
  cases mode with
  | mode32 => exact ⟨hm, Vph.WF.init x, trivial⟩
  | mode64 =>
    refine ⟨hm, ?_, [], [], Tree.Inv.init x⟩
    change ((Tree.init x).flat a).WF a .mode64
    rw [Tree.flat_init]
    exact Vph.WF.init x

theorem flat_init (mode : Mode) (x : Nat) : (Tables.init mode x).flat a = Vph.init x := by
  cases mode with
  | mode32 => rfl
  | mode64 => exact Tree.flat_init x

@[simp] theorem mode_init (mode : Mode) (x : Nat) : (Tables.init mode x).mode = mode := by
  cases mode <;> rfl

theorem slotOf_eq (t : Tables) (v : Addr) : t.slotOf a v = (t.flat a).slot (a.addrToPagenr t.mode v) := by
  cases t with
  | vph32 t => rfl
  | vph64 t => exact (Tree.flat_pagenr t v).symm

theorem accepts_of_ok {v p : Addr} {hostPage writeflag : Nat} {t' : Tables}
    (h : t.updateTranslationTable a v hostPage writeflag p = .ok t') : Vph.Accepts a t.mode v p := by
  cases t with
  | vph32 t =>
    obtain ⟨t1, h1, -⟩ := Lib.bind_eq_ok h
    exact Vph.accepts_of_ok h1
  | vph64 t =>
    obtain ⟨t1, h1, -⟩ := Lib.bind_eq_ok h
    unfold Tree.updateTranslationTable at h1
    split at h1
    · cases h1
    · rename_i h2
      rw [not_or, not_not, not_not] at h2
      exact ⟨h2.1, h2.2, fun hm => by cases hm⟩

theorem updateTranslationTable_spec (h : t.Good a) {v p : Addr} (hacc : Vph.Accepts a t.mode v p)
    (hostPage writeflag : Nat) :
    ∃ t', t.updateTranslationTable a v hostPage writeflag p = .ok t' ∧ t'.Good a ∧ t'.mode = t.mode ∧
      t'.flat a = (t.flat a).updated a t.mode v hostPage writeflag p := by
  obtain ⟨hm, hw, hg⟩ := h
  cases t with
  | vph32 t =>
    have hok : t.updateTranslationTable a .mode32 v hostPage writeflag p = .ok (t.updated a .mode32 v hostPage
      writeflag p) := Vph.updateTranslationTable_eq hacc hostPage writeflag
    refine ⟨vph32 (t.updated a .mode32 v hostPage writeflag p), ?_, ⟨hm, hw.updated hacc _ _, trivial⟩, rfl, rfl⟩
    simp only [updateTranslationTable, hok]
    rfl
  | vph64 t =>
    obtain ⟨ha, hm88k⟩ := Arch.ne_of_mode64 hm
    obtain ⟨t', hok, hg', hfl, -⟩ := Tree.updateTranslationTable_sim ha hm88k hg hacc hostPage writeflag
    refine ⟨vph64 t', ?_, ⟨hm, ?_, hg'⟩, rfl, hfl⟩
    · simp only [updateTranslationTable, hok]
      rfl
    · change (t'.flat a).WF a .mode64
      rw [hfl]
      exact hw.updated hacc _ _

theorem invalidateTranslationCaches_spec (h : t.Good a) (vaddrMask addr : Addr) (flags : Nat) :
    ∃ t', t.invalidateTranslationCaches a vaddrMask addr flags = .ok t' ∧ t'.Good a ∧ t'.mode = t.mode ∧
      t'.flat a = (t.flat a).invalidateTranslationCaches a t.mode vaddrMask addr flags := by
  obtain ⟨hm, hw, hg⟩ := h
  have hw' := (Vph.invalidateTranslationCaches_spec hw vaddrMask addr flags).1
  cases t with
  | vph32 t => exact ⟨_, rfl, ⟨hm, hw', trivial⟩, rfl, rfl⟩
  | vph64 t =>
    obtain ⟨t', hok, hg', hfl⟩ := Tree.invalidateTranslationCaches_sim (Arch.ne_of_mode64 hm).1 hg vaddrMask addr flags
    refine ⟨vph64 t', ?_, ⟨hm, ?_, hg'⟩, rfl, hfl⟩
    · simp only [invalidateTranslationCaches, hok]
      rfl
    · change (t'.flat a).WF a .mode64
      rw [hfl]
      exact hw'

theorem invalidateCodeEntries_spec (h : t.Good a) (addr : Addr) (flags : Nat) :
    ∃ t', t.invalidateCodeEntries a addr flags = .ok t' ∧ t'.Good a ∧ t'.mode = t.mode ∧
      t'.flat a = (t.flat a).invalidateCodeEntries a t.mode addr flags := by
  obtain ⟨hm, hw, hg⟩ := h
  have hw' := (Vph.invalidateCodeEntries_spec hw addr flags).1
  cases t with
  | vph32 t => exact ⟨_, rfl, ⟨hm, hw', trivial⟩, rfl, rfl⟩
  | vph64 t =>
    obtain ⟨t', hok, hg', hfl⟩ := Tree.invalidateCodeEntries_sim hg addr flags
    refine ⟨vph64 t', ?_, ⟨hm, ?_, hg'⟩, rfl, hfl⟩
    · simp only [invalidateCodeEntries, hok]
      rfl
    · change (t'.flat a).WF a .mode64
      rw [hfl]
      exact hw'

theorem setX_spec (h : t.Good a) (x : Nat) :
    (t.setX x).Good a ∧ (t.setX x).mode = t.mode ∧ (t.setX x).flat a = { t.flat a with x := x } := by
  obtain ⟨hm, hw, hg⟩ := h
  cases t with
  | vph32 t => exact ⟨⟨hm, hw.of_eq rfl rfl, trivial⟩, rfl, rfl⟩
  | vph64 t =>
    obtain ⟨free2, free3, hi⟩ := hg
    exact ⟨⟨hm, hw.of_eq rfl rfl, free2, free3, hi.of_eq rfl rfl rfl rfl rfl rfl rfl⟩, rfl, rfl⟩

/-! ## Pointers to L3 tables

pc_to_pointers_generic() looks its L3 table up once and goes on using it while
update_translation_table() and invalidate_code_translation() change the tables.
The pointer stays a pointer to the dummy or to the table of the page. -/

variable (a) in
/-- The L3 table of a virtual address. There is none in the 32-bit tables. -/
def l3Of (t : Tables) (v : Addr) : Nat :=
  match t with
  | vph32 _ => 0
  | vph64 t => (t.l2 (t.l1 (a.x1 v))).l3 (a.x2 v)

variable (a) in
def slotVia (t : Tables) (l3 : Nat) (v : Addr) : Slot :=
  match t with
  | vph32 t => t.slot (a.addrToPagenr .mode32 v)
  | vph64 t => (t.l3 l3).slot (a.x3 v)

variable (a) in
/-- `phys_page[index] = ppp`, or `l3->phys_page[x3] = ppp`. -/
def setPhysPageVia (t : Tables) (l3 : Nat) (v : Addr) (ppp : Nat) : Tables :=
  match t with
  | vph32 t =>
    let index := a.addrToPagenr .mode32 v
    vph32 (t.setSlot index { t.slot index with physPage := some ppp })
  | vph64 t => vph64 (t.setSlot l3 (a.x3 v) { (t.l3 l3).slot (a.x3 v) with physPage := some ppp })

variable (a) in
def Handle (t : Tables) (l3 : Nat) (v : Addr) : Prop :=
  match t with
  | vph32 _ => True
  | vph64 t => l3 = l3Dummy ∨ l3 = t.path (a.x1 v) (a.x2 v)

theorem handle_l3Of (t : Tables) (v : Addr) : t.Handle a (t.l3Of a v) v := by
  cases t with
  | vph32 t => trivial
  | vph64 t => exact Or.inr rfl

theorem slotVia_l3Of (t : Tables) (v : Addr) : t.slotVia a (t.l3Of a v) v = t.slotOf a v := by
  cases t <;> rfl

theorem Handle.slotVia {l3 : Nat} {v : Addr} (hh : t.Handle a l3 v) (h : t.Good a)
    (hl : (t.slotVia a l3 v).hostLoad ≠ none) : t.slotVia a l3 v = t.slotOf a v := by
  cases t with
  | vph32 t => rfl
  | vph64 t =>
    obtain ⟨free2, free3, hi⟩ := h.2.2
    rcases hh with rfl | rfl
    · refine absurd ?_ hl
      change ((t.l3 l3Dummy).slot (a.x3 v)).hostLoad = none
      rw [hi.dummyL3]
      rfl
    · rfl

theorem x_pageAddr (v : Addr) : a.x1 (a.pageAddr v) = a.x1 v ∧ a.x2 (a.pageAddr v) = a.x2 v := by
  rw [a.x1_eq, a.x1_eq, a.x2_eq, a.x2_eq, Arch.addrToPagenr_pageAddr]
  exact ⟨rfl, rfl⟩

theorem Handle.update {l3 : Nat} {v p : Addr} (hh : t.Handle a l3 v) (h : t.Good a)
    (hacc : Vph.Accepts a t.mode (a.pageAddr v) p) {hostPage writeflag : Nat} {t' : Tables}
    (hok : t.updateTranslationTable a (a.pageAddr v) hostPage writeflag p = .ok t') : t'.Handle a l3 v := by
  cases t with
  | vph32 t =>
    obtain ⟨u, hu, -, hmode, -⟩ := updateTranslationTable_spec h hacc hostPage writeflag
    rw [hok] at hu
    cases hu
    cases t' with
    | vph32 t' => trivial
    | vph64 t' => cases hmode
  | vph64 t =>
    obtain ⟨ha, hm88k⟩ := Arch.ne_of_mode64 h.1
    obtain ⟨u, hu, -, -, hpath⟩ := Tree.updateTranslationTable_sim ha hm88k h.2.2 hacc hostPage writeflag
    simp only [updateTranslationTable, hu] at hok
    cases hok
    rw [(x_pageAddr v).1, (x_pageAddr v).2] at hpath
    by_cases hd : l3 = l3Dummy
    · exact Or.inl hd
    · have hl3 : l3 = t.path (a.x1 v) (a.x2 v) := hh.resolve_left hd
      exact Or.inr (hl3.trans (hpath (hl3 ▸ hd)).symm)

theorem Handle.invalidateCodeEntries {l3 : Nat} {v : Addr} (hh : t.Handle a l3 v) {addr : Addr} {flags : Nat}
    {t' : Tables} (hok : t.invalidateCodeEntries a addr flags = .ok t') : t'.Handle a l3 v := by
  cases t with
  | vph32 t => cases hok; trivial
  | vph64 t =>
    cases hu : t.invalidateCodeEntries a addr flags with
    | error e =>
      simp only [Tables.invalidateCodeEntries, hu] at hok
      cases hok
    | ok u =>
      simp only [Tables.invalidateCodeEntries, hu] at hok
      cases hok
      exact hh.imp id fun he => he.trans (Tree.invalidateCodeEntries_path t addr flags hu _ _).symm

theorem setPhysPageVia_spec {l3 : Nat} {v : Addr} (hh : t.Handle a l3 v) (h : t.Good a)
    (hl : (t.slotVia a l3 v).hostLoad ≠ none) (ppp : Nat) :
    (t.setPhysPageVia a l3 v ppp).Good a ∧ (t.setPhysPageVia a l3 v ppp).mode = t.mode ∧
      (t.setPhysPageVia a l3 v ppp).flat a = (t.flat a).setSlot (a.addrToPagenr t.mode v)
        { (t.flat a).slot (a.addrToPagenr t.mode v) with physPage := some ppp } := by
  have hslot := hh.slotVia h hl
  rw [slotOf_eq] at hslot
  have hl' : ((t.flat a).slot (a.addrToPagenr t.mode v)).hostLoad ≠ none := by rw [← hslot]; exact hl
  have hused := (h.2.1.loaded_iff _).mp hl'
  have hw' : ((t.flat a).setSlot (a.addrToPagenr t.mode v)
      { (t.flat a).slot (a.addrToPagenr t.mode v) with physPage := some ppp }).WF a t.mode :=
    h.2.1.set_slot rfl (fun _ => rfl) (fun _ => rfl) rfl (fun h0 => absurd h0 hused) (h.2.1.loaded _)
      (h.2.1.physAligned _)
  obtain ⟨hm, hw, hg⟩ := h
  cases t with
  | vph32 t => exact ⟨⟨hm, hw', trivial⟩, rfl, rfl⟩
  | vph64 t =>
    have hl3 : l3 = t.path (a.x1 v) (a.x2 v) := by
      refine hh.resolve_left ?_
      rintro rfl
      obtain ⟨free2, free3, hi⟩ := hg
      refine absurd ?_ hl
      change ((t.l3 l3Dummy).slot (a.x3 v)).hostLoad = none
      rw [hi.dummyL3]
      rfl
    subst hl3
    have hs := Tree.flat_pagenr (a := a) t v
    have hslotAt : (t.flat a).slot (a.addrToPagenr .mode64 v) = t.slotAt (a.x1 v) (a.x2 v) (a.x3 v) := hs
    obtain ⟨hg', hfl⟩ := Tree.setSlot_sim hg v
      (s := { (t.flat a).slot (a.addrToPagenr .mode64 v) with physPage := some ppp }) (by rw [hslotAt])
      (fun h0 => absurd h0 hused) (fun _ => hl')
    have hdef : setPhysPageVia a (vph64 t) (t.path (a.x1 v) (a.x2 v)) v ppp =
        vph64 (t.setSlot (t.path (a.x1 v) (a.x2 v)) (a.x3 v)
          { (t.flat a).slot (a.addrToPagenr .mode64 v) with physPage := some ppp }) := by
      rw [hslotAt]
      rfl
    rw [hdef]
    refine ⟨⟨hm, ?_, hg'⟩, rfl, hfl⟩
    change Vph.WF a .mode64 (Tree.flat a _)
    rw [hfl]
    exact hw'

end Tables

end Gxemul
