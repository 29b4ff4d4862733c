import Gxemul.Dyntrans.Consistency

/- What pc_to_pointers() does, part by part, and that the quick and the generic
   lookup agree.

   `phys_page` of a virtual page, where it is set, is a translation page that is
   in its chain and has the physical address of the virtual page. Invalidations,
   evictions, resets of the cache and lookups keep this; so do updates, except
   that the 64-bit code leaves `phys_page` alone when it re-points a page. -/
namespace Gxemul

theorem Vph.physPage_invalidateAll {a : Arch} {mode : Mode} {t : Vph} (h : t.WF a mode) (addr : Addr) (k : Nat) :
    ((t.invalidateCodeEntries a mode addr invalidateAll).slot k).physPage = none := by
  rw [(Vph.invalidateCodeEntries_spec h addr invalidateAll).2.2.2]
  split
  · rfl
  · rename_i hnot
    have h0 : (t.slot k).tlbindex = 0 := by
      by_contra hne
      exact hnot (by simp [Vph.hit, hne, Vph.codeSelects, hasFlag, invalidateAll])
    rw [h.free k h0]
    rfl

namespace Cpu
variable {conf : Conf} {c : Cpu}

structure WF (conf : Conf) (c : Cpu) : Prop where
  tables : c.tables.Good conf.arch
  tc : c.tc.WF conf.arch

/-! ## The parts of pc_to_pointers_generic() -/

section
variable (h : c.WF conf) (host : Addr → Option Nat) {pc : Addr} {l3 : Nat} {p : Addr}
include h

theorem ensureMapped_spec (hh : l3 = c.tables.l3Of conf.arch pc) (hal : conf.arch.Aligned p)
    (hp : (c.tables.slotOf conf.arch pc).hostLoad = none → c.tables.mode = .mode32 → p ≤ 0xffffffff#64) :
    ∃ c', c.ensureMapped conf host pc l3 p = .ok c' ∧ c'.WF conf ∧ c'.tables.mode = c.tables.mode ∧ c'.tc = c.tc ∧
      c'.pc = c.pc ∧ c'.tables.Handle conf.arch l3 pc ∧
      (c' = c ∨ (c.tables.slotOf conf.arch pc).hostLoad = none ∧ ∃ hostPage, host p = some hostPage ∧ c'.tables.flat conf.arch =
        (c.tables.flat conf.arch).updated conf.arch c.tables.mode (conf.arch.pageAddr pc) hostPage 0 p) := by
  have hhand : c.tables.Handle conf.arch l3 pc := by
    rw [hh]
    exact c.tables.handle_l3Of pc
  have hsame : ∃ c', (.ok c : Except Exit Cpu) = .ok c' ∧ c'.WF conf ∧ c'.tables.mode = c.tables.mode ∧
      c'.tc = c.tc ∧ c'.pc = c.pc ∧ c'.tables.Handle conf.arch l3 pc ∧
      (c' = c ∨ (c.tables.slotOf conf.arch pc).hostLoad = none ∧ ∃ hostPage, host p = some hostPage ∧ c'.tables.flat conf.arch =
        (c.tables.flat conf.arch).updated conf.arch c.tables.mode (conf.arch.pageAddr pc) hostPage 0 p) :=
    ⟨c, rfl, h, rfl, rfl, rfl, hhand, Or.inl rfl⟩
  unfold ensureMapped
  split
  · rename_i hnone
    rw [hh, Tables.slotVia_l3Of] at hnone
    split
    · rename_i hostPage hhost
      have hacc : Vph.Accepts conf.arch c.tables.mode (conf.arch.pageAddr pc) p :=
        ⟨conf.arch.aligned_pageAddr pc, hal, hp hnone⟩
      obtain ⟨t', hok, hg, hm, hfl⟩ := Tables.updateTranslationTable_spec h.tables hacc hostPage 0
      refine ⟨{ c with tables := t' }, ?_, ⟨hg, h.tc⟩, hm, rfl, rfl, hhand.update h.tables hacc hok,
        Or.inr ⟨hnone, hostPage, hhost, hfl⟩⟩
      simp only [updateTranslationTable, hok]
      rfl
    · exact hsame
  · exact hsame

theorem ensureRoom_spec (hh : c.tables.Handle conf.arch l3 pc) :
    ∃ c', c.ensureRoom conf = .ok c' ∧ c'.WF conf ∧ c'.tables.mode = c.tables.mode ∧ c'.pc = c.pc ∧
      c'.tables.Handle conf.arch l3 pc ∧
      ((c.tc.curOfs < conf.dyntransCacheSize ∧ c' = c) ∨ (conf.dyntransCacheSize ≤ c.tc.curOfs ∧ c'.tc = c.tc.reset ∧
        c'.tables.flat conf.arch = (c.tables.flat conf.arch).invalidateCodeEntries conf.arch c.tables.mode
          (conf.arch.pageAddr 0) invalidateAll)) := by
  unfold ensureRoom
  split
  · rename_i hfull
    obtain ⟨t', hok, hg, hm, hfl⟩ :=
      Tables.invalidateCodeEntries_spec h.tables (conf.arch.pageAddr 0) invalidateAll
    refine ⟨{ c with tc := c.tc.reset, tables := t' }, ?_, ⟨hg, Tc.WF.of_reset _⟩, hm, rfl,
      hh.invalidateCodeEntries hok, Or.inr ⟨hfull, rfl, hfl⟩⟩
    have hflag : hasFlag invalidateAll invalidatePaddr = false := rfl
    simp only [createOrResetTc, invalidateCodeTranslation, hflag, hok, if_false, Bool.false_eq_true]
    rfl
  · rename_i hfull
    exact ⟨c, rfl, h, rfl, rfl, hh, Or.inl ⟨Nat.lt_of_not_le hfull, rfl⟩⟩

theorem findOrCreate_spec (hal : conf.arch.Aligned p) :
    ∃ c' ppp, c.findOrCreate conf p = (c', ppp) ∧ c'.WF conf ∧ c'.tables = c.tables ∧ c'.pc = c.pc ∧
      c'.tc.InChain ppp ∧ (c'.tc.page ppp).physaddr = p ∧
      (∀ o, c.tc.InChain o → c'.tc.InChain o ∧ c'.tc.page o = c.tc.page o) ∧
      ((c' = c ∧ c.tc.find conf.arch p = some ppp) ∨
        (c.tc.find conf.arch p = none ∧ c'.tc = c.tc.create conf.arch p ∧ ppp = c.tc.curOfs)) := by
  unfold findOrCreate
  cases hf : c.tc.find conf.arch p with
  | some ofs =>
    obtain ⟨hin, haddr⟩ := h.tc.of_find hf
    exact ⟨c, ofs, rfl, h, rfl, rfl, hin, haddr, fun o ho => ⟨ho, rfl⟩, Or.inl ⟨rfl, rfl⟩⟩
  | none =>
    obtain ⟨hw, hin, haddr, hold⟩ := h.tc.create hal hf
    exact ⟨_, _, rfl, ⟨h.tables, hw⟩, rfl, rfl, hin, haddr, hold, Or.inr ⟨rfl, rfl, rfl⟩⟩

theorem linkPhysPage_spec (hh : c.tables.Handle conf.arch l3 pc) (ppp : Nat) :
    (c.linkPhysPage conf pc l3 ppp).WF conf ∧ (c.linkPhysPage conf pc l3 ppp).tables.mode = c.tables.mode ∧
      (c.linkPhysPage conf pc l3 ppp).tc = c.tc ∧ (c.linkPhysPage conf pc l3 ppp).pc = c.pc ∧
      (c.linkPhysPage conf pc l3 ppp = c ∨ (c.tables.slotOf conf.arch pc).hostLoad ≠ none ∧
        (c.linkPhysPage conf pc l3 ppp).tables.flat conf.arch =
          (c.tables.flat conf.arch).setSlot (conf.arch.addrToPagenr c.tables.mode pc)
            { c.tables.slotOf conf.arch pc with physPage := some ppp }) := by
  unfold linkPhysPage
  split
  · rename_i hl
    obtain ⟨hg, hm, hfl⟩ := Tables.setPhysPageVia_spec hh h.tables hl ppp
    refine ⟨⟨hg, h.tc⟩, hm, rfl, rfl, Or.inr ⟨?_, ?_⟩⟩
    · rw [← hh.slotVia h.tables hl]
      exact hl
    · rw [Tables.slotOf_eq]
      exact hfl
  · exact ⟨h, rfl, rfl, rfl, Or.inl rfl⟩

theorem protectPage_spec (ppp : Nat) (p : Addr) :
    ∃ c', c.protectPage conf ppp p = .ok c' ∧ c'.WF conf ∧ c'.tables.mode = c.tables.mode ∧ c'.tc = c.tc ∧
      c'.pc = c.pc ∧
      ((c' = c ∧ (c.tc.page ppp).translationsBitmap ≠ 0) ∨
        c'.tables.flat conf.arch = (c.tables.flat conf.arch).invalidateTranslationCaches conf.arch c.tables.mode
          conf.vaddrMask p (justMarkAsNonWritable ||| invalidatePaddr)) := by
  unfold protectPage
  split
  · obtain ⟨t', hok, hg, hm, hfl⟩ := Tables.invalidateTranslationCaches_spec h.tables conf.vaddrMask p
      (justMarkAsNonWritable ||| invalidatePaddr)
    refine ⟨{ c with tables := t' }, ?_, ⟨hg, h.tc⟩, hm, rfl, rfl, Or.inr hfl⟩
    simp only [invalidateTranslationCaches, hok]
    rfl
  · rename_i hne
    exact ⟨c, rfl, h, rfl, rfl, rfl, Or.inl ⟨rfl, hne⟩⟩

end

/-! ## phys_page -/

/-- Every `phys_page` is a translation page in its chain, for the physical page
that the virtual page is mapped to. -/
def PhysPagesOk (conf : Conf) (c : Cpu) : Prop :=
  ∀ k o, ((c.tables.flat conf.arch).slot k).physPage = some o →
    c.tc.InChain o ∧ (c.tc.page o).physaddr = ((c.tables.flat conf.arch).slot k).physAddr

theorem PhysPagesOk.shrinks {c' : Cpu} (h : c.PhysPagesOk conf)
    (hs : (c.tables.flat conf.arch).Shrinks (c'.tables.flat conf.arch))
    (hc : ∀ o, c.tc.InChain o → c'.tc.InChain o ∧ (c'.tc.page o).physaddr = (c.tc.page o).physaddr) :
    c'.PhysPagesOk conf := by
  intro k o ho
  obtain ⟨h1, _, h3⟩ := hs.of_physPage ho
  obtain ⟨hin, haddr⟩ := h k o h1
  rw [h3, (hc o hin).2]
  exact ⟨(hc o hin).1, haddr⟩

/-- An update leaves a stale `phys_page`: the 64-bit code re-points a page that
has one. -/
def StalesPhysPage (conf : Conf) (c : Cpu) (v : Addr) (writeflag : Nat) (p : Addr) : Prop :=
  c.tables.mode = .mode64 ∧ (c.tables.flat conf.arch).Repoints conf.arch c.tables.mode v writeflag p ∧
    (c.tables.slotOf conf.arch v).physPage ≠ none

theorem updatedSlot_physPage (mode : Mode) (s : Slot) (hostPage w : Nat) (p : Addr) :
    (Vph.updatedSlot mode s hostPage w p).physPage = if mode = .mode32 then none else s.physPage := by
  unfold Vph.updatedSlot
  cases mode <;> simp only [reduceCtorEq, if_true, if_false] <;> split <;> (try split) <;> (try split) <;> rfl

theorem physPagesOk_updated_iff {c' : Cpu} (h : c.PhysPagesOk conf) {v p : Addr} {hostPage w : Nat}
    (htc : c'.tc = c.tc) (hfl : c'.tables.flat conf.arch =
      (c.tables.flat conf.arch).updated conf.arch c.tables.mode v hostPage w p) :
    ¬ c.StalesPhysPage conf v w p ↔ c'.PhysPagesOk conf := by
  have hsh : (c.tables.flat conf.arch).Shrinks (c'.tables.flat conf.arch) → c'.PhysPagesOk conf := fun hs =>
    h.shrinks hs (fun o ho => by rw [htc]; exact ⟨ho, rfl⟩)
  unfold StalesPhysPage Vph.Repoints
  rw [Tables.slotOf_eq]
  unfold Vph.updated at hfl
  by_cases hm : conf.arch = .m88k ∧ hasFlag w memoryUserAccess = true
  · rw [if_pos hm] at hfl
    simp only [hm, not_true_eq_false, false_and, and_false, not_false_eq_true, true_iff, and_self]
    exact hsh (by rw [hfl]; exact .rfl)
  · rw [if_neg hm] at hfl
    by_cases h0 : ((c.tables.flat conf.arch).slot (conf.arch.addrToPagenr c.tables.mode v)).tlbindex = 0
    · -- a new page has no `phys_page`
      simp only [h0, if_true] at hfl
      simp only [h0, ne_eq, not_true_eq_false, false_and, and_false, not_false_eq_true, true_iff]
      intro k o ho
      rw [hfl, Vph.insertPage_slot] at ho ⊢
      by_cases hk : k = conf.arch.addrToPagenr c.tables.mode (c.tables.mode.trunc v)
      · rw [hk, Function.update_self] at ho
        cases ho
      · rw [Function.update_of_ne hk] at ho ⊢
        obtain ⟨h1, _, h3⟩ := (Vph.evict_shrinks (c.tables.flat conf.arch)).of_physPage ho
        rw [h3, htc]
        exact h k o h1
    · simp only [h0, if_false] at hfl
      simp only [hm, h0, ne_eq, not_false_eq_true, true_and]
      have hslot : ∀ k, (c'.tables.flat conf.arch).slot k = Function.update (c.tables.flat conf.arch).slot
          (conf.arch.addrToPagenr c.tables.mode v) (Vph.updatedSlot c.tables.mode
            ((c.tables.flat conf.arch).slot (conf.arch.addrToPagenr c.tables.mode v)) hostPage (Vph.dataFlags w) p) k := by
        intro k
        rw [hfl, Vph.updatePage_slot, Arch.addrToPagenr_trunc]
      constructor
      · intro hg k o ho
        rw [hslot] at ho ⊢
        rw [htc]
        by_cases hk : k = conf.arch.addrToPagenr c.tables.mode v
        · rw [hk, Function.update_self, updatedSlot_physPage] at ho
          rw [hk, Function.update_self, Vph.updatedSlot_physAddr]
          split at ho
          · cases ho
          · rename_i hmode
            have hmode' : c.tables.mode = .mode64 := by
              cases hc : c.tables.mode
              · exact absurd hc hmode
              · rfl
            have hp : ((c.tables.flat conf.arch).slot (conf.arch.addrToPagenr c.tables.mode v)).physAddr = p := by
              by_contra hne
              exact hg ⟨hmode', hne, by rw [ho]; simp⟩
            obtain ⟨hin, haddr⟩ := h _ o ho
            exact ⟨hin, haddr.trans hp⟩
        · rw [Function.update_of_ne hk] at ho ⊢
          exact h k o ho
      · rintro hok ⟨hmode, hne, hpp⟩
        cases hpo : ((c.tables.flat conf.arch).slot (conf.arch.addrToPagenr c.tables.mode v)).physPage with
        | none => exact hpp hpo
        | some o =>
          have hnew : ((c'.tables.flat conf.arch).slot (conf.arch.addrToPagenr c.tables.mode v)).physPage = some o := by
            rw [hslot, Function.update_self, updatedSlot_physPage, hmode]
            rw [hmode] at hpo
            exact hpo
          have h1 := (hok _ o hnew).2
          have h2 := (h _ o hpo).2
          rw [hslot, Function.update_self, Vph.updatedSlot_physAddr, htc] at h1
          exact hne (h2.symm.trans h1)

/-! ## Lookups -/

theorem pointTo_parts (h : c.WF conf) (host : Addr → Option Nat) {pc p : Addr}
    (hp : (c.tables.slotOf conf.arch pc).hostLoad = none → c.tables.mode = .mode32 →
      conf.arch.pageAddr p ≤ 0xffffffff#64) :
    ∃ c1 c2 c3 c4 c5 ppp,
      c.pointTo conf host pc (c.tables.l3Of conf.arch pc) p =
        .ok { c5 with curIcPage := ppp, nextIc := conf.arch.pcToIcEntry pc } ∧
      (c1.WF conf ∧ c1.tables.mode = c.tables.mode ∧ c1.tc = c.tc ∧ c1.pc = c.pc ∧
        (c1 = c ∨ (c.tables.slotOf conf.arch pc).hostLoad = none ∧ ∃ hostPage,
          host (conf.arch.pageAddr p) = some hostPage ∧ c1.tables.flat conf.arch =
            (c.tables.flat conf.arch).updated conf.arch c.tables.mode (conf.arch.pageAddr pc) hostPage 0
              (conf.arch.pageAddr p))) ∧
      (c2.WF conf ∧ c2.tables.mode = c1.tables.mode ∧ c2.pc = c1.pc ∧
        ((c1.tc.curOfs < conf.dyntransCacheSize ∧ c2 = c1) ∨
          (conf.dyntransCacheSize ≤ c1.tc.curOfs ∧ c2.tc = c1.tc.reset ∧ c2.tables.flat conf.arch =
            (c1.tables.flat conf.arch).invalidateCodeEntries conf.arch c1.tables.mode (conf.arch.pageAddr 0)
              invalidateAll))) ∧
      (c3.WF conf ∧ c3.tables = c2.tables ∧ c3.pc = c2.pc ∧ c3.tc.InChain ppp ∧
        (c3.tc.page ppp).physaddr = conf.arch.pageAddr p ∧
        (∀ o, c2.tc.InChain o → c3.tc.InChain o ∧ c3.tc.page o = c2.tc.page o) ∧
        ((c3 = c2 ∧ c2.tc.find conf.arch (conf.arch.pageAddr p) = some ppp) ∨
          (c2.tc.find conf.arch (conf.arch.pageAddr p) = none ∧ c3.tc = c2.tc.create conf.arch (conf.arch.pageAddr p) ∧
            ppp = c2.tc.curOfs))) ∧
      (c4.WF conf ∧ c4.tables.mode = c3.tables.mode ∧ c4.tc = c3.tc ∧ c4.pc = c3.pc ∧
        (c4 = c3 ∨ (c3.tables.slotOf conf.arch pc).hostLoad ≠ none ∧ c4.tables.flat conf.arch =
          (c3.tables.flat conf.arch).setSlot (conf.arch.addrToPagenr c3.tables.mode pc)
            { c3.tables.slotOf conf.arch pc with physPage := some ppp })) ∧
      (c5.WF conf ∧ c5.tables.mode = c4.tables.mode ∧ c5.tc = c4.tc ∧ c5.pc = c4.pc ∧
        ((c5 = c4 ∧ (c4.tc.page ppp).translationsBitmap ≠ 0) ∨ c5.tables.flat conf.arch =
          (c4.tables.flat conf.arch).invalidateTranslationCaches conf.arch c4.tables.mode conf.vaddrMask
            (conf.arch.pageAddr p) (justMarkAsNonWritable ||| invalidatePaddr))) := by
  obtain ⟨c1, hok1, hw1, hm1, htc1, hpc1, hh1, hcase1⟩ := ensureMapped_spec h host (rfl : _ = c.tables.l3Of conf.arch pc)
    (conf.arch.aligned_pageAddr p) hp
  obtain ⟨c2, hok2, hw2, hm2, hpc2, hh2, hcase2⟩ := ensureRoom_spec hw1 hh1
  obtain ⟨c3, ppp, hok3, hw3, ht3, hpc3, hin3, haddr3, hold3, hcase3⟩ := findOrCreate_spec hw2
    (conf.arch.aligned_pageAddr p)
  rw [← ht3] at hh2
  obtain ⟨hw4, hm4, htc4, hpc4, hcase4⟩ := linkPhysPage_spec hw3 hh2 ppp
  obtain ⟨c5, hok5, hw5, hm5, htc5, hpc5, hcase5⟩ := protectPage_spec hw4 ppp (conf.arch.pageAddr p)
  refine ⟨c1, c2, c3, c3.linkPhysPage conf pc (c.tables.l3Of conf.arch pc) ppp, c5, ppp, ?_,
    ⟨hw1, hm1, htc1, hpc1, hcase1⟩, ⟨hw2, hm2, hpc2, hcase2⟩, ⟨hw3, ht3, hpc3, hin3, haddr3, hold3, hcase3⟩,
    ⟨hw4, hm4, htc4, hpc4, hcase4⟩, ⟨hw5, hm5, htc5, hpc5, hcase5⟩⟩
  simp only [pointTo, hok1, hok2, hok3, hok5, bind, Except.bind]
  rfl

theorem slotOf_updated (h : c.WF conf) {c' : Cpu} {pc p : Addr} {hostPage : Nat}
    (hnone : (c.tables.slotOf conf.arch pc).hostLoad = none) (hm : c'.tables.mode = c.tables.mode)
    (hfl : c'.tables.flat conf.arch =
      (c.tables.flat conf.arch).updated conf.arch c.tables.mode (conf.arch.pageAddr pc) hostPage 0 p) :
    (c'.tables.slotOf conf.arch pc).physAddr = p := by
  have hu : ¬ Vph.Ignored conf.arch 0 := fun hc => by simp [Vph.Ignored, hasFlag] at hc
  rw [Tables.slotOf_eq, ← Arch.addrToPagenr_pageAddr] at hnone
  have h0 : ((c.tables.flat conf.arch).slot (conf.arch.addrToPagenr c.tables.mode
      (conf.arch.pageAddr pc))).tlbindex = 0 := by
    by_contra hne
    exact h.tables.2.1.loaded _ hne hnone
  rw [Tables.slotOf_eq, hfl, hm, ← Arch.addrToPagenr_pageAddr, Vph.updated_slot_self _ _ _ _ _ hu, if_pos h0]
  rfl

theorem pointTo_spec (h : c.WF conf) (host : Addr → Option Nat) {pc p : Addr}
    (hp : (c.tables.slotOf conf.arch pc).hostLoad = none → c.tables.mode = .mode32 →
      conf.arch.pageAddr p ≤ 0xffffffff#64)
    (hload : (c.tables.slotOf conf.arch pc).hostLoad ≠ none →
      (c.tables.slotOf conf.arch pc).physAddr = conf.arch.pageAddr p) :
    ∃ c', c.pointTo conf host pc (c.tables.l3Of conf.arch pc) p = .ok c' ∧ c'.WF conf ∧
      c'.tables.mode = c.tables.mode ∧ c'.pc = c.pc ∧ (c.PhysPagesOk conf → c'.PhysPagesOk conf) ∧
      c'.nextIc = conf.arch.pcToIcEntry pc ∧
      ((c.tables.slotOf conf.arch pc).hostLoad ≠ none → c.tc.curOfs < conf.dyntransCacheSize →
        ∀ ppp, c.tc.find conf.arch (conf.arch.pageAddr p) = some ppp → c'.curIcPage = ppp) := by
  obtain ⟨c1, c2, c3, c4, c5, ppp, hok, ⟨hw1, hm1, htc1, hpc1, hcase1⟩, ⟨hw2, hm2, hpc2, hcase2⟩,
    ⟨hw3, ht3, hpc3, hin3, haddr3, hold3, hcase3⟩, ⟨hw4, hm4, htc4, hpc4, hcase4⟩, ⟨hw5, hm5, htc5, hpc5, hcase5⟩⟩ :=
    pointTo_parts h host hp
  refine ⟨_, hok, ⟨hw5.tables, hw5.tc⟩, ?_, ?_, ?_, rfl, ?_⟩
  · rw [hm5, hm4, ht3, hm2, hm1]
  · rw [hpc5, hpc4, hpc3, hpc2, hpc1]
  · intro hok
    -- the slot of the page, if it is in the tables, has the physical address
    have hslot1 : (c1.tables.slotOf conf.arch pc).hostLoad ≠ none →
        (c1.tables.slotOf conf.arch pc).physAddr = conf.arch.pageAddr p := by
      rcases hcase1 with rfl | ⟨hnone, hostPage, -, hfl⟩
      · exact hload
      · exact fun _ => slotOf_updated h hnone hm1 hfl
    have hok1 : c1.PhysPagesOk conf := by
      rcases hcase1 with rfl | ⟨hnone, hostPage, -, hfl⟩
      · exact hok
      · apply (physPagesOk_updated_iff hok htc1 hfl).mp
        intro ⟨_, ⟨_, hne, _⟩, _⟩
        rw [Tables.slotOf_eq, ← Arch.addrToPagenr_pageAddr] at hnone
        exact h.tables.2.1.loaded _ hne hnone
    have hok2 : c2.PhysPagesOk conf ∧ ((c2.tables.slotOf conf.arch pc).hostLoad ≠ none →
        (c2.tables.slotOf conf.arch pc).physAddr = conf.arch.pageAddr p) := by
      rcases hcase2 with ⟨-, rfl⟩ | ⟨-, -, hfl⟩
      · exact ⟨hok1, hslot1⟩
      · refine ⟨fun k o ho => ?_, fun hl => ?_⟩
        · rw [hfl, Vph.physPage_invalidateAll hw1.tables.2.1] at ho
          cases ho
        · have hsh := (Vph.invalidateCodeEntries_spec hw1.tables.2.1 (conf.arch.pageAddr 0) invalidateAll).2.1
          rw [Tables.slotOf_eq, hfl, hm2] at hl ⊢
          rw [Tables.slotOf_eq] at hslot1
          obtain ⟨h1, h2⟩ := hsh.of_loaded hl
          rw [h2]
          exact hslot1 (h1 ▸ hl)
    have hok3 : c3.PhysPagesOk conf :=
      hok2.1.shrinks (by rw [ht3]; exact .rfl) fun o ho => ⟨(hold3 o ho).1, by rw [(hold3 o ho).2]⟩
    have hok4 : c4.PhysPagesOk conf := by
      rcases hcase4 with rfl | ⟨hl, hfl⟩
      · exact hok3
      · intro k o ho
        rw [hfl, Vph.setSlot_slot] at ho ⊢
        rw [htc4]
        by_cases hk : k = conf.arch.addrToPagenr c3.tables.mode pc
        · rw [hk, Function.update_self] at ho ⊢
          cases ho
          refine ⟨hin3, haddr3.trans ?_⟩
          rw [ht3] at hl ⊢
          exact (hok2.2 hl).symm
        · rw [Function.update_of_ne hk] at ho ⊢
          exact hok3 k o ho
    have hsh5 : (c4.tables.flat conf.arch).Shrinks (c5.tables.flat conf.arch) := by
      rcases hcase5 with ⟨rfl, -⟩ | hfl
      · exact .rfl
      · rw [hfl]
        exact (Vph.invalidateTranslationCaches_spec hw4.tables.2.1 _ _ _).2.1
    exact @PhysPagesOk.shrinks _ _ { c5 with curIcPage := ppp, nextIc := conf.arch.pcToIcEntry pc } hok4 hsh5
      fun o ho => ⟨htc5 ▸ ho, by rw [htc5]⟩
  · intro hl hroom q hq
    have hc1 : c1 = c := by
      rcases hcase1 with rfl | ⟨hnone, -⟩
      · rfl
      · exact absurd hnone hl
    subst hc1
    rcases hcase2 with ⟨-, rfl⟩ | ⟨hfull, -⟩
    · rcases hcase3 with ⟨-, hf⟩ | ⟨hf, -⟩
      · rw [hq] at hf
        exact (Option.some.inj hf).symm
      · rw [hq] at hf
        cases hf
    · exact absurd hroom (Nat.not_lt.mpr hfull)

theorem trunc_le (a : Arch) {mode : Mode} (hm : mode = .mode32) (p : Addr) :
    a.pageAddr (mode.trunc p) ≤ 0xffffffff#64 := by
  subst hm
  unfold Arch.pageAddr Mode.trunc
  rw [BitVec.le_def, BitVec.toNat_and, BitVec.toNat_and]
  exact Nat.le_trans Nat.and_le_left Nat.and_le_right

theorem pointTo_loaded (h : c.WF conf) (host : Addr → Option Nat) {pc : Addr}
    (hl : (c.tables.slotOf conf.arch pc).hostLoad ≠ none) :
    ∃ c', c.pointTo conf host pc (c.tables.l3Of conf.arch pc) (c.tables.slotOf conf.arch pc).physAddr = .ok c' ∧
      c'.WF conf ∧ c'.tables.mode = c.tables.mode ∧ c'.pc = c.pc ∧ (c.PhysPagesOk conf → c'.PhysPagesOk conf) ∧
      c'.nextIc = conf.arch.pcToIcEntry pc ∧
      (c.tc.curOfs < conf.dyntransCacheSize →
        ∀ ppp, c.tc.find conf.arch (c.tables.slotOf conf.arch pc).physAddr = some ppp → c'.curIcPage = ppp) := by
  have hpage : conf.arch.pageAddr (c.tables.slotOf conf.arch pc).physAddr = (c.tables.slotOf conf.arch pc).physAddr := by
    refine conf.arch.pageAddr_of_aligned ?_
    rw [Tables.slotOf_eq]
    exact h.tables.2.1.physAligned _
  obtain ⟨c', hok, hw, hm, hpc, hpp, hnext, hcur⟩ := pointTo_spec (p := (c.tables.slotOf conf.arch pc).physAddr) h host
    (fun hnone => absurd hnone hl) (fun _ => hpage.symm)
  rw [hpage] at hcur
  exact ⟨c', hok, hw, hm, hpc, hpp, hnext, hcur hl⟩

theorem pointTo_translated (h : c.WF conf) (host : Addr → Option Nat) {pc : Addr}
    (hl : (c.tables.slotOf conf.arch pc).hostLoad = none) (paddr : Addr) :
    ∃ c', c.pointTo conf host pc (c.tables.l3Of conf.arch pc) (c.tables.mode.trunc paddr) = .ok c' ∧
      c'.WF conf ∧ c'.tables.mode = c.tables.mode ∧ (c.PhysPagesOk conf → c'.PhysPagesOk conf) := by
  obtain ⟨c', hok, hw, hm, -, hpp, -⟩ := pointTo_spec (p := c.tables.mode.trunc paddr) h host
    (fun _ hm => trunc_le conf.arch hm paddr) (fun hne => absurd hl hne)
  exact ⟨c', hok, hw, hm, hpp⟩

end Cpu

def V2p.Handled : V2p → Prop
  | .ok _ => True
  | .exception _ nested again => nested.Handled ∧ again ≠ none

namespace Cpu
variable {conf : Conf} {c : Cpu}

def KeepsOrder (conf : Conf) (f : Cpu → Except Exit Cpu) : Prop :=
  ∀ c : Cpu, c.WF conf → ∃ c', f c = .ok c' ∧ c'.WF conf ∧ c'.tables.mode = c.tables.mode ∧
    (c.PhysPagesOk conf → c'.PhysPagesOk conf)

theorem quick_keepsOrder {generic : Cpu → Except Exit Cpu} (h : KeepsOrder conf generic) :
    KeepsOrder conf (quick conf generic) := by
  intro c hw
  unfold quick
  dsimp only
  split
  · exact ⟨_, rfl, ⟨hw.tables, hw.tc⟩, rfl, id⟩
  · exact h c hw

theorem pcToPointersGeneric_keepsOrder (host : Addr → Option Nat) :
    ∀ v2p : V2p, v2p.Handled → KeepsOrder conf (pcToPointersGeneric conf host v2p)
  | .ok paddr, _ => by
    intro c hw
    unfold pcToPointersGeneric
    simp only [Tables.slotVia_l3Of]
    split
    · rename_i hl
      obtain ⟨c', hok, hw', hm, -, hpp, -⟩ := pointTo_loaded hw host hl
      exact ⟨c', hok, hw', hm, hpp⟩
    · rename_i hl
      exact pointTo_translated hw host (not_not.mp hl) paddr
  | .exception handler nested again, hh => by
    intro c hw
    unfold pcToPointersGeneric
    simp only [Tables.slotVia_l3Of]
    split
    · rename_i hl
      obtain ⟨c', hok, hw', hm, -, hpp, -⟩ := pointTo_loaded hw host hl
      exact ⟨c', hok, hw', hm, hpp⟩
    · -- the nested lookup for the handler, then the handler's own page
      obtain ⟨c1, hok1, hw1, hm1, hpp1⟩ := quick_keepsOrder (pcToPointersGeneric_keepsOrder host nested hh.1)
        { c with pc := handler } ⟨hw.tables, hw.tc⟩
      simp only [hok1, bind, Except.bind]
      split
      · rename_i hl
        obtain ⟨c', hok, hw', hm, -, hpp, -⟩ := pointTo_loaded hw1 host hl
        exact ⟨c', hok, hw', hm.trans hm1, fun h => hpp (hpp1 h)⟩
      · rename_i hl
        cases ha : again with
        | none => exact absurd ha hh.2
        | some paddr =>
          obtain ⟨c', hok, hw', hm, hpp⟩ := pointTo_translated hw1 host (not_not.mp hl) paddr
          exact ⟨c', hok, hw', hm.trans hm1, fun h => hpp (hpp1 h)⟩

theorem pcToPointers_keepsOrder (host : Addr → Option Nat) {v2p : V2p} (hh : v2p.Handled) :
    KeepsOrder conf (pcToPointers conf host v2p) :=
  quick_keepsOrder (pcToPointersGeneric_keepsOrder host v2p hh)

def QuickAgrees (conf : Conf) (c : Cpu) : Prop :=
  ∀ pc host v2p cGeneric, pcToPointersGeneric conf host v2p { c with pc := pc } = .ok cGeneric →
    ∃ cQuick, pcToPointers conf host v2p { c with pc := pc } = .ok cQuick ∧
      cQuick.curIcPage = cGeneric.curIcPage ∧ cQuick.nextIc = cGeneric.nextIc

/-- A `phys_page` that is right makes the two lookups agree, as long as the
generic one does not reset the translation cache. -/
theorem PhysPagesOk.quickAgrees (h : c.PhysPagesOk conf) (hw : c.WF conf)
    (hroom : c.tc.curOfs < conf.dyntransCacheSize) : c.QuickAgrees conf := by
  intro pc host v2p cg hg
  unfold pcToPointers quick
  dsimp only
  cases hpp : (c.tables.slotOf conf.arch (c.tables.mode.trunc pc)).physPage with
  | none => exact ⟨cg, hg, rfl, rfl⟩
  | some ppp =>
    refine ⟨_, rfl, ?_⟩
    have hl : (c.tables.slotOf conf.arch (c.tables.mode.trunc pc)).hostLoad ≠ none := by
      intro hnone
      rw [Tables.slotOf_eq] at hpp hnone
      have h0 : ((c.tables.flat conf.arch).slot
          (conf.arch.addrToPagenr c.tables.mode (c.tables.mode.trunc pc))).tlbindex = 0 := by
        by_contra hne
        exact hw.tables.2.1.loaded _ hne hnone
      rw [hw.tables.2.1.free _ h0] at hpp
      cases hpp
    obtain ⟨c', hok, -, -, -, -, hnext, hcur⟩ := pointTo_loaded (c := { c with pc := pc }) ⟨hw.tables, hw.tc⟩ host hl
    have hrun : pcToPointersGeneric conf host v2p { c with pc := pc } = .ok c' := by
      unfold pcToPointersGeneric
      simp only [Tables.slotVia_l3Of]
      rw [if_pos hl]
      exact hok
    rw [hrun] at hg
    cases hg
    rw [Tables.slotOf_eq] at hpp
    obtain ⟨hin, haddr⟩ := h _ ppp hpp
    have hfind := hw.tc.inChain_find hin
    rw [haddr, ← Tables.slotOf_eq] at hfind
    exact ⟨(hcur hroom ppp hfind).symm, hnext.symm⟩

end Cpu

/-! ## Runs -/

inductive DynOp where
  | table (o : TableOp)
  | resetTc
  | pcToPointers (pc : Addr) (host : Addr → Option Nat) (v2p : V2p)

def Cpu.dynStep (conf : Conf) (c : Cpu) : DynOp → Except Exit Cpu
  | .table o => c.tableStep conf o
  | .resetTc => c.createOrResetTc conf
  | .pcToPointers pc host v2p => Cpu.pcToPointers conf host v2p { c with pc := pc }

namespace DynOp

def Legal (a : Arch) (mode : Mode) : DynOp → Prop
  | .table o => o.Legal a mode
  | .resetTc => True
  | .pcToPointers _ _ v2p => v2p.Handled

/-- The call is an update that leaves a stale `phys_page`. -/
def StalesPhysPage (conf : Conf) (c : Cpu) : DynOp → Prop
  | .table (.update v _ w p) => c.StalesPhysPage conf v w p
  | _ => False

end DynOp

namespace Cpu
variable {conf : Conf} {c c' : Cpu}

theorem tableStep_tc {o : TableOp} (h : c.tableStep conf o = .ok c') :
    c'.tc = c.tc ∨ ∃ addr flags ofs, o = .invalidateCode addr flags ∧
      c.tc.find conf.arch (conf.arch.pageAddr addr) = some ofs ∧ c'.tc = c.tc.resetPage conf.arch ofs := by
  cases o with
  | update v hostPage w p =>
    simp only [tableStep, updateTranslationTable, bind, Except.bind] at h
    split at h
    · cases h
    · cases h
      exact Or.inl rfl
  | invalidate addr flags =>
    simp only [tableStep, invalidateTranslationCaches, bind, Except.bind] at h
    split at h
    · cases h
    · cases h
      exact Or.inl rfl
  | invalidateCode addr flags =>
    simp only [tableStep, invalidateCodeTranslation, bind, Except.bind] at h
    split at h
    · split at h
      · cases h
        exact Or.inl rfl
      · rename_i ofs hf
        split at h
        · cases h
        · cases h
          exact Or.inr ⟨addr, flags, ofs, rfl, hf, rfl⟩
    · split at h
      · cases h
      · cases h
        exact Or.inl rfl
  | otherCpu x =>
    cases h
    exact Or.inl rfl

theorem tableStep_inChain {o : TableOp} (h : c.tableStep conf o = .ok c') (q : Nat) (hq : c.tc.InChain q) :
    c'.tc.InChain q ∧ (c'.tc.page q).physaddr = (c.tc.page q).physaddr := by
  rcases tableStep_tc h with he | ⟨_, _, ofs, -, -, he⟩
  · rw [he]
    exact ⟨hq, rfl⟩
  · rw [he]
    exact ⟨Tc.inChain_of_same (Tc.resetPage_base c.tc ofs).1 (fun o => (Tc.resetPage_same c.tc ofs o).1) hq,
      (Tc.resetPage_same c.tc ofs q).2⟩

theorem WF.tableStep (h : c.WF conf) {o : TableOp} (hl : o.Legal conf.arch c.tables.mode) :
    ∃ c', c.tableStep conf o = .ok c' ∧ c'.WF conf ∧ c'.tables.mode = c.tables.mode := by
  obtain ⟨c', hok, hg, hm, -⟩ := tableStep_spec h.tables hl
  refine ⟨c', hok, ⟨hg, ?_⟩, hm⟩
  rcases tableStep_tc hok with he | ⟨_, _, ofs, -, -, he⟩
  · rw [he]
    exact h.tc
  · rw [he]
    exact h.tc.resetPage ofs

theorem physPagesOk_tableStep_iff (hw : c.WF conf) {o : TableOp} (hl : o.Legal conf.arch c.tables.mode)
    (h : c.PhysPagesOk conf) (hs : c.tableStep conf o = .ok c') :
    ¬ (DynOp.table o).StalesPhysPage conf c ↔ c'.PhysPagesOk conf := by
  obtain ⟨c'', hok, -, -, hfl⟩ := tableStep_spec hw.tables hl
  have hin := tableStep_inChain hs
  rw [hs] at hok
  cases hok
  cases o with
  | update v hostPage w p =>
    refine physPagesOk_updated_iff h ?_ hfl
    rcases tableStep_tc hs with he | ⟨_, _, _, ho, -, -⟩
    · exact he
    · cases ho
  | invalidate addr flags =>
    refine ⟨fun _ => h.shrinks ?_ hin, fun _ => id⟩
    rw [hfl]
    exact (Vph.invalidateTranslationCaches_spec hw.tables.2.1 conf.vaddrMask addr flags).2.1
  | invalidateCode addr flags =>
    refine ⟨fun _ => h.shrinks ?_ hin, fun _ => id⟩
    rcases hfl with hfl | hfl
    · rw [hfl]
      exact .rfl
    · rw [hfl]
      exact (Vph.invalidateCodeEntries_spec hw.tables.2.1 _ flags).2.1
  | otherCpu x =>
    refine ⟨fun _ => h.shrinks ?_ hin, fun _ => id⟩
    rw [hfl]
    exact ⟨fun _ => .rfl, fun _ => .rfl⟩

theorem createOrResetTc_spec (h : c.WF conf) :
    ∃ c', c.createOrResetTc conf = .ok c' ∧ c'.WF conf ∧ c'.tables.mode = c.tables.mode ∧ c'.PhysPagesOk conf := by
  obtain ⟨t', hok, hg, hm, hfl⟩ := Tables.invalidateCodeEntries_spec h.tables (conf.arch.pageAddr 0) invalidateAll
  refine ⟨{ c with tc := c.tc.reset, tables := t' }, ?_, ⟨hg, Tc.WF.of_reset _⟩, hm, fun k o ho => ?_⟩
  · have hflag : hasFlag invalidateAll invalidatePaddr = false := rfl
    simp only [createOrResetTc, invalidateCodeTranslation, hflag, hok, if_false, Bool.false_eq_true]
    rfl
  · rw [hfl, Vph.physPage_invalidateAll h.tables.2.1] at ho
    cases ho

/-- Where `phys_page` is set it is right, and the two lookups agree unless the
cache is due to be reset. -/
def LookupsAgree (conf : Conf) (c : Cpu) : Prop :=
  c.PhysPagesOk conf ∧ (c.tc.curOfs < conf.dyntransCacheSize → c.QuickAgrees conf)

theorem lookupsAgree_iff (h : c.WF conf) : c.LookupsAgree conf ↔ c.PhysPagesOk conf :=
  ⟨fun hp => hp.1, fun hp => ⟨hp, hp.quickAgrees h⟩⟩

end Cpu

/-- In both table layouts, every `phys_page` is right and the quick lookup
agrees with the generic one throughout a run, exactly when no update of the
64-bit tables re-points a page that has a `phys_page`. -/
theorem lookupsAgree_iff_no_stale_repoint (conf : Conf) (mode : Mode) (hm : conf.arch.hasMode mode = true)
    (x : Nat) (tc : Tc) (ops : List DynOp) (hl : ∀ o ∈ ops, o.Legal conf.arch mode) :
    Lib.Always (Cpu.dynStep conf) (Cpu.LookupsAgree conf) ops (Cpu.start mode x tc.reset) ↔
      Lib.Along (Cpu.dynStep conf) (fun c o => ¬ o.StalesPhysPage conf c) ops (Cpu.start mode x tc.reset) := by
  have hstart : (Cpu.start mode x tc.reset).WF conf := ⟨Tables.Good.init hm x, Tc.WF.of_reset tc⟩
  refine Lib.always_iff_along (fun o => o.Legal conf.arch mode)
    (K := fun c => c.WF conf ∧ c.tables.mode = mode) ?_ ?_ hl ⟨hstart, Tables.mode_init mode x⟩ ?_
  · rintro c o hlo ⟨hw, rfl⟩
    cases o with
    | table o => exact hw.tableStep hlo
    | resetTc =>
      obtain ⟨c', hok, hw', hm', -⟩ := Cpu.createOrResetTc_spec hw
      exact ⟨c', hok, hw', hm'⟩
    | pcToPointers pc host v2p =>
      obtain ⟨c', hok, hw', hm', -⟩ := Cpu.pcToPointers_keepsOrder host hlo { c with pc := pc } ⟨hw.tables, hw.tc⟩
      exact ⟨c', hok, hw', hm'⟩
  · rintro c o c' hlo ⟨hw, rfl⟩ hp hs
    have hp' := (Cpu.lookupsAgree_iff hw).mp hp
    cases o with
    | table o =>
      obtain ⟨c'', hok, hw', -⟩ := hw.tableStep hlo
      rw [Cpu.dynStep, hok] at hs
      cases hs
      rw [Cpu.lookupsAgree_iff hw']
      exact Cpu.physPagesOk_tableStep_iff hw hlo hp' hok
    | resetTc =>
      obtain ⟨c'', hok, hw', -, hpp⟩ := Cpu.createOrResetTc_spec hw
      rw [Cpu.dynStep, hok] at hs
      cases hs
      exact ⟨fun _ => (Cpu.lookupsAgree_iff hw').mpr hpp, fun _ => id⟩
    | pcToPointers pc host v2p =>
      obtain ⟨c'', hok, hw', -, hpp⟩ :=
        Cpu.pcToPointers_keepsOrder host hlo { c with pc := pc } ⟨hw.tables, hw.tc⟩
      rw [Cpu.dynStep, hok] at hs
      cases hs
      exact ⟨fun _ => (Cpu.lookupsAgree_iff hw').mpr (hpp hp'), fun _ => id⟩
  · refine (Cpu.lookupsAgree_iff hstart).mpr fun k o ho => ?_
    unfold Cpu.start at ho
    rw [Tables.flat_init] at ho
    cases ho

/-- A page of a 64-bit MIPS that is mapped, executed from and dropped. -/
theorem lookupsAgree_mips :
    Lib.Always (Cpu.dynStep mips64) (Cpu.LookupsAgree mips64)
      [.table (.update 0x1000#64 1 0 0x2000#64), .pcToPointers 0x1004#64 (fun _ => none) (.ok 0),
        .table (.invalidate 0x1000#64 invalidateVaddr)] (Cpu.start .mode64 0 Tc.init.reset) := by
  refine (lookupsAgree_iff_no_stale_repoint mips64 .mode64 rfl 0 Tc.init _ ?_).mpr ?_
  · simp only [List.mem_cons, List.not_mem_nil, or_false, forall_eq_or_imp, forall_eq, DynOp.Legal, V2p.Handled,
      TableOp.Legal, and_true]
    decide
  · refine ⟨?_, fun c _ => ⟨id, fun c _ => ⟨id, fun c _ => trivial⟩⟩⟩
    rintro ⟨-, ⟨-, h0, -⟩, -⟩
    exact h0 rfl

/-- Page 0x1000 is mapped to 0x2000 and executed from, then mapped to 0x3000:
its `phys_page` still is the page of 0x2000. -/
theorem not_lookupsAgree_of_stale_repoint :
    ¬ Lib.Always (Cpu.dynStep mips64) (Cpu.LookupsAgree mips64)
      [.table (.update 0x1000#64 1 0 0x2000#64), .pcToPointers 0x1000#64 (fun _ => none) (.ok 0),
        .table (.update 0x1000#64 2 0 0x3000#64)] (Cpu.start .mode64 0 Tc.init.reset) := by
  intro h
  obtain ⟨c, ⟨hp, -⟩, hc⟩ := h.eval
    (f := fun c => (((c.tables.flat .mips).slot 1).physPage, (c.tc.page 262144).physaddr,
      ((c.tables.flat .mips).slot 1).physAddr)) (y := (some 262144, 0x2000#64, 0x3000#64)) (by decide +kernel)
  simp only [Prod.mk.injEq] at hc
  have haddr := (hp 1 262144 hc.1).2
  rw [hc.2.1] at haddr
  exact absurd (haddr.trans hc.2.2) (by decide)

end Gxemul
