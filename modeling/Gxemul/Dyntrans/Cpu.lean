import Gxemul.Lib.Run
import Gxemul.Dyntrans.Tables
import Gxemul.Dyntrans.TranslationCache

/- The dyntrans state of one CPU, and the functions of `src/cpus/cpu_dyntrans.c`
   and `src/cpus/cpu.c` that work on its tables and its translation cache
   together: invalidate_code_translation(), cpu_create_or_reset_tc() and the two
   versions of pc_to_pointers().

   translate_v2p() and memory_paddr_to_hostaddr() belong to other parts of the
   emulator. A call of pc_to_pointers() is given what they return to it. -/
namespace Gxemul

/-- What does not change while the emulator runs: the CPU family,
`cpu->vaddr_mask` and `dyntrans_cache_size`. -/
structure Conf where
  arch : Arch
  vaddrMask : Addr
  dyntransCacheSize : Nat

/-- The dyntrans state of one CPU. `curIcPage` is the offset of the page that
`cur_ic_page` points to, and `nextIc` the index of `next_ic` in it. -/
structure Cpu where
  tables : Tables
  tc : Tc
  pc : Addr
  curIcPage : Nat
  nextIc : Nat

/-- What translate_v2p() does when pc_to_pointers_generic() calls it. An
exception moves the program counter to a handler and calls pc_to_pointers()
there; `again` is the result of the second attempt, for the handler. -/
inductive V2p where
  | ok (paddr : Addr)
  | exception (handler : Addr) (nested : V2p) (again : Option Addr)

def Arch.pcToIcEntry (a : Arch) (pc : Addr) : Nat :=
  (pc.toNat >>> a.instrAlignmentShift) &&& (a.icEntriesPerPage - 1)

namespace Cpu
variable (conf : Conf)

def updateTranslationTable (c : Cpu) (vaddrPage : Addr) (hostPage writeflag : Nat) (paddrPage : Addr) :
    Except Exit Cpu := do
  let tables ← c.tables.updateTranslationTable conf.arch vaddrPage hostPage writeflag paddrPage
  return { c with tables }

def invalidateTranslationCaches (c : Cpu) (addr : Addr) (flags : Nat) : Except Exit Cpu := do
  let tables ← c.tables.invalidateTranslationCaches conf.arch conf.vaddrMask addr flags
  return { c with tables }

/-- `XXX_invalidate_code_translation()`. It returns at once when a physical page
has no translations. -/
def invalidateCodeTranslation (c : Cpu) (addr : Addr) (flags : Nat) : Except Exit Cpu :=
  let addr := conf.arch.pageAddr addr
  if hasFlag flags invalidatePaddr then
    match c.tc.find conf.arch addr with
    | none => .ok c
    | some ofs => do
      let tables ← c.tables.invalidateCodeEntries conf.arch addr flags
      return { c with tc := c.tc.resetPage conf.arch ofs, tables }
  else do
    let tables ← c.tables.invalidateCodeEntries conf.arch addr flags
    return { c with tables }

def createOrResetTc (c : Cpu) : Except Exit Cpu :=
  invalidateCodeTranslation conf { c with tc := c.tc.reset } 0 invalidateAll

/-! pc_to_pointers_generic(), from where the physical address is known, has five
parts. `l3` is the L3 table of `cachedPc`, as it was looked up before. -/

def ensureMapped (c : Cpu) (host : Addr → Option Nat) (cachedPc : Addr) (l3 : Nat) (physaddr : Addr) :
    Except Exit Cpu :=
  if (c.tables.slotVia conf.arch l3 cachedPc).hostLoad = none then
    match host physaddr with
    | some hostPage => c.updateTranslationTable conf (conf.arch.pageAddr cachedPc) hostPage 0 physaddr
    | none => .ok c
  else .ok c

def ensureRoom (c : Cpu) : Except Exit Cpu :=
  if conf.dyntransCacheSize ≤ c.tc.curOfs then c.createOrResetTc conf else .ok c

/-- The translation page for a physical address, which is created when there is none. -/
def findOrCreate (c : Cpu) (physaddr : Addr) : Cpu × Nat :=
  match c.tc.find conf.arch physaddr with
  | some ofs => (c, ofs)
  | none => ({ c with tc := c.tc.create conf.arch physaddr }, c.tc.curOfs)

def linkPhysPage (c : Cpu) (cachedPc : Addr) (l3 ppp : Nat) : Cpu :=
  if (c.tables.slotVia conf.arch l3 cachedPc).hostLoad ≠ none then
    { c with tables := c.tables.setPhysPageVia conf.arch l3 cachedPc ppp }
  else c

/-- "If there are no translations yet on this page, then mark it as non-writable." -/
def protectPage (c : Cpu) (ppp : Nat) (physaddr : Addr) : Except Exit Cpu :=
  if (c.tc.page ppp).translationsBitmap = 0 then
    c.invalidateTranslationCaches conf physaddr (justMarkAsNonWritable ||| invalidatePaddr)
  else .ok c

def pointTo (c : Cpu) (host : Addr → Option Nat) (cachedPc : Addr) (l3 : Nat) (physaddr : Addr) :
    Except Exit Cpu := do
  let physaddr := conf.arch.pageAddr physaddr
  let c ← c.ensureMapped conf host cachedPc l3 physaddr
  let c ← c.ensureRoom conf
  let (c, ppp) := c.findOrCreate conf physaddr
  let c := c.linkPhysPage conf cachedPc l3 ppp
  let c ← c.protectPage conf ppp physaddr
  return { c with curIcPage := ppp, nextIc := conf.arch.pcToIcEntry cachedPc }

/-- The first part of `XXX_pc_to_pointers()`, with the generic version to fall
back on. -/
def quick (generic : Cpu → Except Exit Cpu) (c : Cpu) : Except Exit Cpu :=
  let cachedPc := c.tables.mode.trunc c.pc
  match (c.tables.slotOf conf.arch cachedPc).physPage with
  | some ppp => .ok { c with curIcPage := ppp, nextIc := conf.arch.pcToIcEntry cachedPc }
  | none => generic c

def pcToPointersGeneric (host : Addr → Option Nat) : V2p → Cpu → Except Exit Cpu
  | v2p, c =>
    let cachedPc := c.tables.mode.trunc c.pc
    let l3 := c.tables.l3Of conf.arch cachedPc
    let slot := c.tables.slotVia conf.arch l3 cachedPc
    if slot.hostLoad ≠ none then c.pointTo conf host cachedPc l3 slot.physAddr
    else
      match v2p with
      | .ok paddr => c.pointTo conf host cachedPc l3 (c.tables.mode.trunc paddr)
      | .exception handler nested again => do
        let c ← quick conf (pcToPointersGeneric host nested) { c with pc := handler }
        let cachedPc := c.tables.mode.trunc c.pc
        let l3 := c.tables.l3Of conf.arch cachedPc
        let slot := c.tables.slotVia conf.arch l3 cachedPc
        if slot.hostLoad ≠ none then c.pointTo conf host cachedPc l3 slot.physAddr
        else
          match again with
          | some paddr => c.pointTo conf host cachedPc l3 (c.tables.mode.trunc paddr)
          | none => .error .exceptionHandlerUnmapped

def pcToPointers (host : Addr → Option Nat) (v2p : V2p) (c : Cpu) : Except Exit Cpu :=
  quick conf (pcToPointersGeneric conf host v2p) c

end Cpu

/-! ## Operations -/

/-- The calls that change the tables. `otherCpu` is an insertion into the tables
of another CPU of the same family, which moves the counter of
update_translation_table(). -/
inductive TableOp where
  | update (vaddrPage : Addr) (hostPage writeflag : Nat) (paddrPage : Addr)
  | invalidate (addr : Addr) (flags : Nat)
  | invalidateCode (addr : Addr) (flags : Nat)
  | otherCpu (x : Nat)

def Cpu.tableStep (conf : Conf) (c : Cpu) : TableOp → Except Exit Cpu
  | .update vaddrPage hostPage writeflag paddrPage =>
    c.updateTranslationTable conf vaddrPage hostPage writeflag paddrPage
  | .invalidate addr flags => c.invalidateTranslationCaches conf addr flags
  | .invalidateCode addr flags => c.invalidateCodeTranslation conf addr flags
  | .otherCpu x => .ok { c with tables := c.tables.setX x }

def TableOp.Legal (a : Arch) (mode : Mode) : TableOp → Prop
  | .update vaddrPage _ _ paddrPage => Vph.Accepts a mode vaddrPage paddrPage
  | _ => True

instance (a : Arch) (mode : Mode) : (o : TableOp) → Decidable (o.Legal a mode)
  | .update v _ _ p => inferInstanceAs (Decidable (Vph.Accepts a mode v p))
  | .invalidate _ _ | .invalidateCode _ _ | .otherCpu _ => inferInstanceAs (Decidable True)

namespace Cpu
variable {conf : Conf} {c : Cpu}

theorem legal_of_ok {c' : Cpu} {o : TableOp} (h : c.tableStep conf o = .ok c') : o.Legal conf.arch c.tables.mode := by
  cases o with
  | update v hostPage w p =>
    obtain ⟨t', ht, -⟩ := Lib.bind_eq_ok h
    exact Tables.accepts_of_ok ht
  | invalidate addr flags => trivial
  | invalidateCode addr flags => trivial
  | otherCpu x => trivial

theorem tableStep_spec (h : c.tables.Good conf.arch) {o : TableOp} (hl : o.Legal conf.arch c.tables.mode) :
    ∃ c', c.tableStep conf o = .ok c' ∧ c'.tables.Good conf.arch ∧ c'.tables.mode = c.tables.mode ∧
      match o with
      | .update v hostPage w p => c'.tables.flat conf.arch =
          (c.tables.flat conf.arch).updated conf.arch c.tables.mode v hostPage w p
      | .invalidate addr flags => c'.tables.flat conf.arch =
          (c.tables.flat conf.arch).invalidateTranslationCaches conf.arch c.tables.mode conf.vaddrMask addr flags
      | .invalidateCode addr flags => c'.tables.flat conf.arch = c.tables.flat conf.arch ∨
          c'.tables.flat conf.arch = (c.tables.flat conf.arch).invalidateCodeEntries conf.arch c.tables.mode
            (conf.arch.pageAddr addr) flags
      | .otherCpu x => c'.tables.flat conf.arch = { c.tables.flat conf.arch with x := x } := by
  cases o with
  | update v hostPage w p =>
    obtain ⟨t', hok, hg, hm, hfl⟩ := Tables.updateTranslationTable_spec h hl hostPage w
    refine ⟨{ c with tables := t' }, ?_, hg, hm, hfl⟩
    simp only [tableStep, updateTranslationTable, hok]
    rfl
  | invalidate addr flags =>
    obtain ⟨t', hok, hg, hm, hfl⟩ := Tables.invalidateTranslationCaches_spec h conf.vaddrMask addr flags
    refine ⟨{ c with tables := t' }, ?_, hg, hm, hfl⟩
    simp only [tableStep, invalidateTranslationCaches, hok]
    rfl
  | invalidateCode addr flags =>
    obtain ⟨t', hok, hg, hm, hfl⟩ :=
      Tables.invalidateCodeEntries_spec h (conf.arch.pageAddr addr) flags
    simp only [tableStep, invalidateCodeTranslation, hok]
    split
    · split
      · exact ⟨c, rfl, h, rfl, Or.inl rfl⟩
      · exact ⟨_, rfl, hg, hm, Or.inr hfl⟩
    · exact ⟨_, rfl, hg, hm, Or.inr hfl⟩
  | otherCpu x =>
    obtain ⟨hg, hm, hfl⟩ := Tables.setX_spec h x
    exact ⟨_, rfl, hg, hm, hfl⟩

theorem tableStep_cases (h : c.tables.Good conf.arch) {c' : Cpu} {o : TableOp} (hs : c.tableStep conf o = .ok c') :
    c'.tables.Good conf.arch ∧ c'.tables.mode = c.tables.mode ∧
      ((∃ v hostPage w p, o = .update v hostPage w p ∧ Vph.Accepts conf.arch c.tables.mode v p ∧
        c'.tables.flat conf.arch = (c.tables.flat conf.arch).updated conf.arch c.tables.mode v hostPage w p) ∨
      (c.tables.flat conf.arch).Shrinks (c'.tables.flat conf.arch)) := by
  have hl := legal_of_ok hs
  obtain ⟨c'', hok, hg', hm, hfl⟩ := tableStep_spec h hl
  rw [hs] at hok
  cases hok
  refine ⟨hg', hm, ?_⟩
  cases o with
  | update v hostPage w p => exact .inl ⟨v, hostPage, w, p, rfl, hl, hfl⟩
  | invalidate addr flags =>
    right
    rw [hfl]
    exact (Vph.invalidateTranslationCaches_spec h.2.1 conf.vaddrMask addr flags).2.1
  | invalidateCode addr flags =>
    right
    rcases hfl with hfl | hfl
    · rw [hfl]
      exact .rfl
    · rw [hfl]
      exact (Vph.invalidateCodeEntries_spec h.2.1 _ flags).2.1
  | otherCpu x =>
    right
    rw [hfl]
    exact ⟨fun _ => .rfl, fun _ => .rfl⟩

end Cpu

end Gxemul
