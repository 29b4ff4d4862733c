import Gxemul.Dyntrans.Consistency
import Gxemul.Memory.Devices
import Gxemul.Memory.MemoryRw

/- Where the pages in the translation tables come from.

   memory_rw() puts the page of an access in the tables. With the PHYSICAL flag
   there is no virtual address: the physical address is used in its place. In
   RAM the page is left out only when the call also has NO_EXCEPTIONS, and a
   device with DM_DYNTRANS_OK puts it in with any flags.

   A run keeps a list of the pages that have been translated. The tables hold
   nothing else exactly as long as no physical access inserts a page that is not
   in the list. -/
namespace Gxemul

namespace Vph
variable {a : Arch} {mode : Mode} {t t' : Vph} {l l' : List (Nat × Addr)}

variable (a mode) in
/-- Every page in the tables, with the physical page it is mapped to, is in the
list. -/
structure From (t : Vph) (l : List (Nat × Addr)) : Prop where
  slot : ∀ k, (t.slot k).hostLoad ≠ none ∨ (t.slot k).hostStore ≠ none → (k, (t.slot k).physAddr) ∈ l
  entry : ∀ r, (t.entry r).valid = true → (t.keyOf a mode r, (t.entry r).paddrPage) ∈ l

theorem From.mono (h : t.From a mode l) (hl : ∀ x ∈ l, x ∈ l') : t.From a mode l' :=
  ⟨fun k hk => hl _ (h.slot k hk), fun r hr => hl _ (h.entry r hr)⟩

theorem From.of_slot {s : Slot} {k : Nat} (hs : (t.slot k).Shrinks s)
    (h : (t.slot k).hostLoad ≠ none ∨ (t.slot k).hostStore ≠ none → (k, (t.slot k).physAddr) ∈ l)
    (hk : s.hostLoad ≠ none ∨ s.hostStore ≠ none) : (k, s.physAddr) ∈ l := by
  rcases hs with rfl | ⟨_, hload, haddr, hstore, _⟩
  · simp [Slot.empty] at hk
  · rw [haddr]
    rw [hload] at hk
    refine h (hk.imp_right fun hne => ?_)
    rcases hstore with hstore | hstore
    · rwa [hstore] at hne
    · exact absurd hstore hne

theorem From.of_entry {e : VpgTlbEntry} {r : Nat} (he : (t.entry r).Shrinks e)
    (h : (t.entry r).valid = true → (t.keyOf a mode r, (t.entry r).paddrPage) ∈ l) (hr : e.valid = true) :
    (a.addrToPagenr mode e.vaddrPage, e.paddrPage) ∈ l := by
  obtain ⟨hv, hp, _, hval⟩ := he
  rw [hv, hp]
  exact h (hval hr)

theorem From.shrinks (h : t.From a mode l) (hs : t.Shrinks t') : t'.From a mode l :=
  ⟨fun k => From.of_slot (hs.slot k) (h.slot k), fun r => From.of_entry (hs.entry r) (h.entry r)⟩

theorem from_invalidateCodeEntries_iff (hw : t.WF a mode) (addr : Addr) (flags : Nat) :
    (t.invalidateCodeEntries a mode addr flags).From a mode l ↔ t.From a mode l := by
  obtain ⟨-, hsh, hentry, hslot⟩ := invalidateCodeEntries_spec hw addr flags
  refine ⟨fun h => ⟨fun k hk => ?_, fun r hr => ?_⟩, fun h => h.shrinks hsh⟩
  · have := h.slot k
    rw [hslot] at this
    split at this <;> exact this hk
  · have := h.entry r
    unfold keyOf at this
    rw [hentry] at this
    exact this hr

theorem from_updated_iff (hw : t.WF a mode) (h : t.From a mode l) (v : Addr) (hostPage writeflag : Nat) (p : Addr) :
    (t.updated a mode v hostPage writeflag p).From a mode l ↔
      Ignored a writeflag ∨ (a.addrToPagenr mode v, p) ∈ l := by
  by_cases hm : Ignored a writeflag
  · simp only [updated_of_ignored t v hostPage p hm, h, hm, true_or]
  have hself := updated_slot_self (a := a) mode t v hostPage p hm
  have haddr : ((t.updated a mode v hostPage writeflag p).slot (a.addrToPagenr mode v)).physAddr = p := by
    rw [hself]
    split
    · rfl
    · exact updatedSlot_physAddr _ _ _ _
  have hload := updated_loaded hw v hostPage p hm
  simp only [hm, false_or]
  constructor
  · intro h'
    have := h'.slot _ (.inl hload)
    rwa [haddr] at this
  · intro hin
    refine ⟨fun k hk => ?_, fun r hr => ?_⟩
    · by_cases hkey : k = a.addrToPagenr mode v
      · rw [hkey, haddr]
        exact hin
      · exact From.of_slot (updated_slot_other mode t v hostPage writeflag p hkey) (h.slot k) hk
    · rcases updated_entry mode t v hostPage writeflag p r with he | ⟨-, he⟩
      · exact From.of_entry he (h.entry r) hr
      · unfold keyOf
        rw [he, Arch.addrToPagenr_trunc]
        exact hin

end Vph

/-! ## Runs -/

structure Traced where
  cpu : Cpu
  mem : Memory
  translated : List (Nat × Addr)

/-- The accesses of the CPU, and what else changes its tables or the devices.
An update is an insertion by the other callers of update_translation_table(),
for an address that they have translated. -/
inductive MemOp where
  | rw (env : Env) (a : Access)
  | table (o : TableOp)
  | device (o : Memory.DeviceOp)

namespace Traced
variable (conf : Conf)

def page (s : Traced) (v p : Addr) : Nat × Addr := (conf.arch.addrToPagenr s.cpu.tables.mode v, conf.arch.pageAddr p)

/-- What an access has translated by translate_v2p(). -/
def translations (s : Traced) (env : Env) (a : Access) : List (Nat × Addr) :=
  if a.physical then []
  else match env.translateV2p with
    | some (paddr, _) => [s.page conf a.vaddr paddr]
    | none => []

def step (s : Traced) : MemOp → Except Exit Traced
  | .rw env a => do
    let (cpu, mem, _) ← s.cpu.memoryRw conf env a s.mem
    return ⟨cpu, mem, s.translations conf env a ++ s.translated⟩
  | .table o => do
    let cpu ← s.cpu.tableStep conf o
    return { s with
      cpu
      translated := match o with
        | .update v _ _ p => s.page conf v p :: s.translated
        | _ => s.translated }
  | .device o => do
    let mem ← s.mem.deviceStep o
    return { s with mem }

def Unpolluted (s : Traced) : Prop := (s.cpu.tables.flat conf.arch).From conf.arch s.cpu.tables.mode s.translated

/-- A physical access inserts its page: it finds a device with DM_DYNTRANS_OK,
or RAM, and in RAM it may cause exceptions and the R3000 caches are not isolated. -/
def InsertsPhysical (env : Env) (a : Access) (mem : Memory) : Bool :=
  match mem.deviceFor a.vaddr with
  | some i => hasFlag (mem.devices i).flags dmDyntransOk
  | none => !env.outsideRam a.vaddr && (env.hostaddr (conf.arch.pageAddr a.vaddr) a.write).isSome &&
      !env.isolated && !a.noExceptions && !(conf.arch == .m88k && hasFlag a.miscFlags memoryUserAccess)

def Pollutes (s : Traced) : MemOp → Prop
  | .rw env a => a.physical = true ∧ InsertsPhysical conf env a s.mem = true ∧ s.page conf a.vaddr a.vaddr ∉ s.translated
  | _ => False

end Traced

def TableOp.Within (a : Arch) (mode : Mode) (l : List (Nat × Addr)) : TableOp → Prop
  | .update v _ w p => Vph.Ignored a w ∨ (a.addrToPagenr mode v, p) ∈ l
  | _ => True

theorem Cpu.from_tableStep_iff {conf : Conf} {c c' : Cpu} {o : TableOp} {l : List (Nat × Addr)}
    (hg : c.tables.Good conf.arch) (h : (c.tables.flat conf.arch).From conf.arch c.tables.mode l)
    (hs : c.tableStep conf o = .ok c') :
    (c'.tables.flat conf.arch).From conf.arch c'.tables.mode l ↔ o.Within conf.arch c.tables.mode l := by
  obtain ⟨c'', hok, hg', hm, hfl⟩ := Cpu.tableStep_spec hg (Cpu.legal_of_ok hs)
  rw [hs] at hok
  cases hok
  rw [hm]
  cases o with
  | update v hostPage w p =>
    rw [hfl]
    exact Vph.from_updated_iff hg.2.1 h v hostPage w p
  | invalidate addr flags =>
    simp only [TableOp.Within, iff_true]
    rw [hfl]
    exact h.shrinks (Vph.invalidateTranslationCaches_spec hg.2.1 conf.vaddrMask addr flags).2.1
  | invalidateCode addr flags =>
    simp only [TableOp.Within, iff_true]
    rcases hfl with hfl | hfl <;> rw [hfl]
    · exact h
    · exact h.shrinks (Vph.invalidateCodeEntries_spec hg.2.1 _ flags).2.1
  | otherCpu x =>
    simp only [TableOp.Within, iff_true]
    rw [hfl]
    exact h.shrinks ⟨fun _ => .rfl, fun _ => .rfl⟩

theorem Cpu.good_tableStep {conf : Conf} {c c' : Cpu} {o : TableOp} (hg : c.tables.Good conf.arch)
    (hs : c.tableStep conf o = .ok c') : c'.tables.Good conf.arch ∧ c'.tables.mode = c.tables.mode := by
  obtain ⟨c'', hok, hg', hm, -⟩ := Cpu.tableStep_spec hg (Cpu.legal_of_ok hs)
  rw [hs] at hok
  cases hok
  exact ⟨hg', hm⟩

namespace Traced
variable {conf : Conf} {s s' : Traced}

theorem hasFlag_ramWriteflag (a : Access) :
    hasFlag (Cpu.ramWriteflag a 2) memoryUserAccess = hasFlag a.miscFlags memoryUserAccess := by
  have hw : (if a.cache = cacheInstruction then (if a.write then 1 else 0) else 2 - 1) &&& memoryUserAccess = 0 := by
    split
    · split <;> decide
    · decide
  unfold hasFlag Cpu.ramWriteflag
  rw [Nat.and_or_distrib_right, hw, Nat.or_zero, Nat.and_assoc, Nat.and_self]

theorem insertsPhysical_iff {env : Env} {a : Access} {mem : Memory} (hp : a.physical = true) :
    InsertsPhysical conf env a mem = true ↔ ∃ hostPage w, ¬ Vph.Ignored conf.arch w ∧
      Cpu.accessUpdate conf env a mem =
        some (.update (conf.arch.pageAddr a.vaddr) hostPage w (conf.arch.pageAddr a.vaddr)) := by
  have hfull : hasFlag 2 memoryNotFullPage = false := by decide
  unfold InsertsPhysical Cpu.accessUpdate
  rw [show env.physicalAddress a = some (a.vaddr, 2) from if_pos hp]
  cases hd : mem.deviceFor a.vaddr with
  | some i =>
    simp only [hd, hfull, Bool.not_false, Bool.true_and]
    constructor
    · intro hok
      refine ⟨_, _, ?_, if_pos hok⟩
      rintro ⟨-, hua⟩
      split at hua <;> exact absurd hua (by decide)
    · rintro ⟨hostPage, w, -, heq⟩
      split at heq
      · assumption
      · cases heq
  | none =>
    have hs : env.servedByCache a = false := by simp [Env.servedByCache, hp]
    simp only [hd, hfull, hs, Bool.not_false, Bool.false_or, Bool.and_true, Bool.and_eq_true, Bool.not_eq_true']
    constructor
    · rintro ⟨⟨⟨⟨ho, hh⟩, hi⟩, hne⟩, hm⟩
      obtain ⟨memblock, hmb⟩ := Option.isSome_iff_exists.mp hh
      refine ⟨memblock, Cpu.ramWriteflag a 2, ?_, ?_⟩
      · rintro ⟨harch, hua⟩
        rw [hasFlag_ramWriteflag] at hua
        simp [harch, hua] at hm
      · simp [ho, hi, hne, hmb]
    · rintro ⟨hostPage, w, hig, heq⟩
      split at heq
      · cases heq
      · rename_i ho
        split at heq
        · rename_i hcond
          obtain ⟨memblock, hmb, heq⟩ := Option.map_eq_some_iff.mp heq
          injection heq with _ _ hw _
          subst hw
          refine ⟨⟨⟨⟨by simpa using ho, by simp [hmb]⟩, hcond.1⟩, hcond.2⟩, ?_⟩
          unfold Vph.Ignored at hig
          rw [hasFlag_ramWriteflag] at hig
          simpa using hig
        · cases heq

theorem insertsPhysical_iff_of_update {env : Env} {a : Access} {mem : Memory} {hostPage w : Nat}
    (hp : a.physical = true) (h : Cpu.accessUpdate conf env a mem =
      some (.update (conf.arch.pageAddr a.vaddr) hostPage w (conf.arch.pageAddr a.vaddr))) :
    InsertsPhysical conf env a mem = true ↔ ¬ Vph.Ignored conf.arch w := by
  rw [insertsPhysical_iff hp, h]
  constructor
  · rintro ⟨hostPage', w', hw, heq⟩
    cases heq
    exact hw
  · exact fun hw => ⟨hostPage, w, hw, rfl⟩

theorem rw_ok {env : Env} {a : Access} (hs : s.step conf (.rw env a) = .ok s') :
    ∃ c1, Lib.runOps (Cpu.tableStep conf) (Cpu.accessUpdate conf env a s.mem).toList s.cpu = .ok c1 ∧
      Lib.runOps (Cpu.tableStep conf) (Cpu.accessInvalidation conf env a s.mem).toList c1 = .ok s'.cpu ∧
      s'.translated = s.translations conf env a ++ s.translated := by
  obtain ⟨⟨cpu, mem, r⟩, hrw, hs⟩ := Lib.bind_eq_ok hs
  cases hs
  obtain ⟨c1, h1, h2⟩ := Cpu.memoryRw_steps hrw
  exact ⟨c1, h1, h2, rfl⟩

theorem good_step {o : MemOp} (hg : s.cpu.tables.Good conf.arch) (hs : s.step conf o = .ok s') :
    s'.cpu.tables.Good conf.arch := by
  cases o with
  | rw env a =>
    obtain ⟨c1, h1, h2, -⟩ := rw_ok hs
    have hg1 : c1.tables.Good conf.arch := by
      rcases Cpu.runOps_toList h1 with ⟨-, rfl⟩ | ⟨op, -, hop⟩
      · exact hg
      · exact (Cpu.good_tableStep hg hop).1
    rcases Cpu.runOps_toList h2 with ⟨-, heq⟩ | ⟨op, -, hop⟩
    · rw [heq]
      exact hg1
    · exact (Cpu.good_tableStep hg1 hop).1
  | table o =>
    obtain ⟨cpu, hcpu, hs⟩ := Lib.bind_eq_ok hs
    cases hs
    exact (Cpu.good_tableStep hg hcpu).1
  | device o =>
    obtain ⟨mem, -, hs⟩ := Lib.bind_eq_ok hs
    cases hs
    exact hg

/-- A step leaves the tables unpolluted exactly when it is not a physical access
that inserts a page that has not been translated. -/
theorem unpolluted_step_iff {o : MemOp} (hg : s.cpu.tables.Good conf.arch) (h : s.Unpolluted conf)
    (hs : s.step conf o = .ok s') : ¬ s.Pollutes conf o ↔ s'.Unpolluted conf := by
  cases o with
  | rw env a =>
    obtain ⟨c1, h1, h2, htr⟩ := rw_ok hs
    have hl : ∀ x ∈ s.translated, x ∈ s'.translated := fun x hx => htr ▸ List.mem_append_right _ hx
    have hpoll : ¬ s.Pollutes conf (.rw env a) ↔
        (c1.tables.flat conf.arch).From conf.arch c1.tables.mode s'.translated := by
      have h' := h.mono hl
      rcases Cpu.runOps_toList h1 with ⟨hnone, rfl⟩ | ⟨op, hop, hstep⟩
      · refine ⟨fun _ => h', fun _ ⟨hphys, hins, _⟩ => ?_⟩
        obtain ⟨_, _, -, heq⟩ := (insertsPhysical_iff hphys).mp hins
        rw [hnone] at heq
        cases heq
      · obtain ⟨paddr, ok, hostPage, w, hpa, -, rfl⟩ := Cpu.accessUpdate_eq hop
        rw [Cpu.from_tableStep_iff hg h' hstep, TableOp.Within, Arch.addrToPagenr_pageAddr]
        cases hphys : a.physical with
        | true =>
          have hpa' : env.physicalAddress a = some (a.vaddr, 2) := if_pos hphys
          rw [hpa'] at hpa
          cases hpa
          rw [htr, show s.translations conf env a = [] from if_pos hphys, List.nil_append]
          simp only [Pollutes, hphys, true_and, insertsPhysical_iff_of_update hphys hop, page, not_and, not_not]
          exact Decidable.or_iff_not_imp_left.symm
        | false =>
          have hpa' : env.physicalAddress a = env.translateV2p := if_neg (by simp [hphys])
          have htrans : s.translations conf env a = [s.page conf a.vaddr paddr] := by
            simp [translations, hphys, ← hpa', hpa]
          refine ⟨fun _ => .inr ?_, fun _ ⟨hphys', _⟩ => by simp [hphys] at hphys'⟩
          rw [htr, htrans]
          simp [page]
    have hg1 : c1.tables.Good conf.arch := by
      rcases Cpu.runOps_toList h1 with ⟨-, rfl⟩ | ⟨op, -, hop⟩
      · exact hg
      · exact (Cpu.good_tableStep hg hop).1
    rw [hpoll]
    unfold Unpolluted
    rcases Cpu.runOps_toList h2 with ⟨-, heq⟩ | ⟨op, hop, hstep⟩
    · rw [heq]
    · obtain ⟨paddr', ok', -, rfl⟩ := Cpu.accessInvalidation_eq hop
      obtain ⟨c'', hok, -, hm, hfl⟩ := Cpu.tableStep_spec hg1 (Cpu.legal_of_ok hstep)
      rw [hstep] at hok
      cases hok
      rcases hfl with hfl | hfl <;> rw [hfl, hm]
      exact (Vph.from_invalidateCodeEntries_iff hg1.2.1 _ _).symm
  | table o =>
    obtain ⟨cpu, hcpu, hs⟩ := Lib.bind_eq_ok hs
    cases hs
    refine ⟨fun _ => ?_, fun _ => id⟩
    cases o with
    | update v hostPage w p =>
      have h' := h.mono fun x hx => List.mem_cons_of_mem (s.page conf v p) hx
      have hp : conf.arch.pageAddr p = p := conf.arch.pageAddr_of_aligned (Cpu.legal_of_ok hcpu).2.1
      refine (Cpu.from_tableStep_iff hg h' hcpu).mpr (.inr ?_)
      simp [page, hp]
    | invalidate addr flags => exact (Cpu.from_tableStep_iff hg h hcpu).mpr trivial
    | invalidateCode addr flags => exact (Cpu.from_tableStep_iff hg h hcpu).mpr trivial
    | otherCpu x => exact (Cpu.from_tableStep_iff hg h hcpu).mpr trivial
  | device o =>
    obtain ⟨mem, -, hs⟩ := Lib.bind_eq_ok hs
    cases hs
    exact ⟨fun _ => h, fun _ => id⟩

def start (mode : Mode) (x : Nat) (tc : Tc) : Traced := ⟨Cpu.start mode x tc, Memory.init, []⟩

/-- The tables hold translated pages only, throughout a run, exactly when no
physical access of the run inserts a page that has not been translated. -/
theorem unpolluted_iff (conf : Conf) {mode : Mode} (hm : conf.arch.hasMode mode = true) (x : Nat) (tc : Tc)
    (ops : List MemOp) :
    Lib.Reaches (step conf) (Unpolluted conf) ops (start mode x tc) ↔
      Lib.Along (step conf) (fun s o => (∃ s', s.step conf o = .ok s') → ¬ s.Pollutes conf o) ops
        (start mode x tc) := by
  refine Lib.reaches_iff_along (K := fun s => s.cpu.tables.Good conf.arch) (fun s o s' => good_step)
    (fun s o s' hg h hs => unpolluted_step_iff hg h hs) (Tables.Good.init hm x) ?_
  unfold Unpolluted start Cpu.start
  rw [Tables.flat_init]
  exact ⟨fun k hk => by simp [Vph.init, Slot.empty] at hk, fun r hr => by simp [Vph.init, VpgTlbEntry.empty] at hr⟩

/-- A physical access without exceptions, and a translated one. -/
theorem unpolluted_mips :
    Lib.Reaches (step mips64) (Unpolluted mips64)
      [.rw (Env.r4000 0) ⟨0x1000#64, 4, false, physicalFlag ||| noExceptionsFlag⟩,
        .rw (Env.r4000 0x2000#64) ⟨0xffffffff80002000#64, 4, true, cacheData⟩] (start .mode64 0 Tc.init) := by
  refine (unpolluted_iff mips64 rfl 0 Tc.init _).mpr ⟨fun _ h => ?_, fun s' _ => ⟨fun _ h => ?_, fun _ _ => trivial⟩⟩
  · exact absurd h.2.1 (by decide +kernel)
  · exact absurd h.1 (by decide)

theorem not_unpolluted {s : Traced} {v : Addr} (hl : (s.cpu.tables.slotOf conf.arch v).hostLoad.isSome = true)
    (ht : s.translated = []) : ¬ s.Unpolluted conf := by
  intro h
  rw [Tables.slotOf_eq] at hl
  have := h.slot _ (.inl (Option.isSome_iff_ne_none.mp hl))
  rw [ht] at this
  cases this

/-- A physical read of RAM maps the physical address as a virtual one, and so
does a physical read of a frame buffer that may not cause exceptions. -/
theorem not_unpolluted_of_physical :
    (∃ s, Lib.runOps (step mips64) [.rw (Env.r4000 0) ⟨0x1000#64, 4, false, physicalFlag ||| cacheNone⟩]
      (start .mode64 0 Tc.init) = .ok s ∧ ¬ s.Unpolluted mips64) ∧
    ∃ s, Lib.runOps (step mips64) [.device (.register 0x18000000#64 0x1000#64 1 1 3 4096),
      .rw (Env.r4000 0) ⟨0x18000000#64, 4, false, physicalFlag ||| noExceptionsFlag⟩]
      (start .mode64 0 Tc.init) = .ok s ∧ ¬ s.Unpolluted mips64 := by
  constructor
  · obtain ⟨s, hrun, heq⟩ := Lib.runOps_eval (step mips64)
      [.rw (Env.r4000 0) ⟨0x1000#64, 4, false, physicalFlag ||| cacheNone⟩] (start .mode64 0 Tc.init)
      (fun s : Traced => ((s.cpu.tables.slotOf .mips 0x1000#64).hostLoad.isSome, s.translated))
      (true, []) (by decide +kernel)
    obtain ⟨hl, ht⟩ := Prod.mk.inj heq
    exact ⟨s, hrun, not_unpolluted hl ht⟩
  · obtain ⟨s, hrun, heq⟩ := Lib.runOps_eval (step mips64)
      [.device (.register 0x18000000#64 0x1000#64 1 1 3 4096),
        .rw (Env.r4000 0) ⟨0x18000000#64, 4, false, physicalFlag ||| noExceptionsFlag⟩] (start .mode64 0 Tc.init)
      (fun s : Traced => ((s.cpu.tables.slotOf .mips 0x18000000#64).hostLoad.isSome, s.translated))
      (true, []) (by decide +kernel)
    obtain ⟨hl, ht⟩ := Prod.mk.inj heq
    exact ⟨s, hrun, not_unpolluted hl ht⟩

end Traced

end Gxemul
