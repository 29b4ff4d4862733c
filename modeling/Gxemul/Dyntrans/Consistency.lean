import Gxemul.Dyntrans.Cpu

/- Runs of update_translation_table(), invalidate_translation_caches() and
   invalidate_code_translation().

   In the 32-bit tables the slots and `vph_tlb_entry[]` describe the same pages
   throughout a run, but not always the same mapping: an update that re-points a
   page which is already in the tables writes the slot and leaves the physical
   and the host page of the entry as they were. `consistent_iff` says that
   nothing else goes wrong.

   In the 64-bit tables the refcounts, the references and the free lists are
   right throughout a run, and none of the exits is reached. -/
namespace Gxemul

namespace Vph
variable {a : Arch} {mode : Mode} {t t' : Vph}

/-! ## Slots and entries agree -/

variable (a mode) in
/-- The entries hold the physical and the host page of the slot they describe. -/
def Agree (t : Vph) : Prop :=
  ∀ r, (t.entry r).valid = true →
    (t.entry r).paddrPage = (t.slot (t.keyOf a mode r)).physAddr ∧
      (t.entry r).hostPage = (t.slot (t.keyOf a mode r)).hostLoad

variable (a mode) in
/-- An update re-points a page that is in the tables. M88K updates for user
accesses do nothing. -/
def Repoints (t : Vph) (v : Addr) (writeflag : Nat) (p : Addr) : Prop :=
  ¬ (a = .m88k ∧ hasFlag writeflag memoryUserAccess = true) ∧
    (t.slot (a.addrToPagenr mode v)).tlbindex ≠ 0 ∧ (t.slot (a.addrToPagenr mode v)).physAddr ≠ p

instance (t : Vph) (v : Addr) (writeflag : Nat) (p : Addr) : Decidable (t.Repoints a mode v writeflag p) :=
  inferInstanceAs (Decidable (¬ _ ∧ _ ∧ _))

theorem Agree.init (x : Nat) : (Vph.init x).Agree a mode := by
  intro r hr
  simp [Vph.init, VpgTlbEntry.empty] at hr

theorem Agree.shrinks (h : t.Agree a mode) (hs : t.Shrinks t') (hw' : t'.WF a mode) : t'.Agree a mode := by
  intro r hr
  obtain ⟨hv, hp, hh, hval⟩ := hs.entry r
  have hkey : t'.keyOf a mode r = t.keyOf a mode r := by simp only [keyOf, hv]
  have hused : (t'.slot (t'.keyOf a mode r)).tlbindex ≠ 0 := by
    rw [hw'.slot_of_entry hr]
    exact Nat.succ_ne_zero r
  obtain ⟨_, hl, ha⟩ := hs.of_used hused
  rw [hp, hh, ha, hl, hkey]
  exact h r (hval hr)

theorem Agree.insertPage (h : t.Agree a mode) (hw : t.WF a mode) {v p : Addr} (hostPage writeflag : Nat) (ua : Bool)
    (hfree : (t.slot (a.addrToPagenr mode v)).tlbindex = 0) :
    (t.insertPage a mode v hostPage writeflag ua p).Agree a mode := by
  obtain ⟨-, hwe, -⟩ := evict_spec hw
  have he : (t.evict a mode).1.Agree a mode := h.shrinks (evict_shrinks t) hwe
  have hfree' := @evict_free a mode t _ hfree
  intro r hr
  unfold keyOf
  rw [insertPage_entry] at hr ⊢
  rw [insertPage_slot]
  by_cases hi : r = (t.evict a mode).2
  · subst hi
    simp [insertedSlot]
  · rw [Function.update_of_ne hi] at hr ⊢
    have hne : a.addrToPagenr mode ((t.evict a mode).1.entry r).vaddrPage ≠ a.addrToPagenr mode v := by
      intro hk
      have := hwe.slot_of_entry hr
      unfold keyOf at this
      rw [hk, hfree'] at this
      exact absurd this (Nat.succ_ne_zero r).symm
    rw [Function.update_of_ne hne]
    exact he r hr

theorem agree_updated_iff (h : t.Agree a mode) (hw : t.WF a mode) {v p : Addr}
    (hostPage writeflag : Nat) :
    ¬ t.Repoints a mode v writeflag p ↔ (t.updated a mode v hostPage writeflag p).Agree a mode := by
  unfold updated Repoints
  by_cases hm : a = .m88k ∧ hasFlag writeflag memoryUserAccess = true
  · simp only [hm, and_self, not_true_eq_false, false_and, not_false_eq_true, if_true, true_iff]
    obtain ⟨rfl, -⟩ := hm
    exact h
  · simp only [hm, not_false_eq_true, true_and, if_false]
    by_cases h0 : (t.slot (a.addrToPagenr mode v)).tlbindex = 0
    · simp only [h0, ne_eq, not_true_eq_false, false_and, not_false_eq_true, if_true, true_iff]
      rw [← Arch.addrToPagenr_trunc] at h0
      exact h.insertPage hw hostPage _ _ h0
    · simp only [h0, if_false, ne_eq, not_false_eq_true, true_and, not_not]
      obtain ⟨hval, hkey⟩ := hw.entry_of_slot h0
      have hagree := h _ hval
      rw [hkey] at hagree
      have hentry : ∀ i, ∀ r, ((Function.update t.entry r (updatedEntry (t.entry r) (dataFlags writeflag)) i).valid =
          (t.entry i).valid ∧ (Function.update t.entry r (updatedEntry (t.entry r) (dataFlags writeflag)) i).vaddrPage =
          (t.entry i).vaddrPage ∧ (Function.update t.entry r (updatedEntry (t.entry r) (dataFlags writeflag)) i).paddrPage =
          (t.entry i).paddrPage ∧ (Function.update t.entry r (updatedEntry (t.entry r) (dataFlags writeflag)) i).hostPage =
          (t.entry i).hostPage) := by
        intro i r
        by_cases hi : i = r
        · subst hi
          rw [Function.update_self]
          exact updatedEntry_same _ _
        · rw [Function.update_of_ne hi]
          exact ⟨rfl, rfl, rfl, rfl⟩
      constructor
      · intro hp r hr
        unfold keyOf
        rw [updatePage_entry] at hr ⊢
        rw [updatePage_slot, Arch.addrToPagenr_trunc, (hentry _ _).2.1, (hentry _ _).2.2.1, (hentry _ _).2.2.2]
        rw [(hentry _ _).1] at hr
        by_cases hk : a.addrToPagenr mode (t.entry r).vaddrPage = a.addrToPagenr mode v
        · rw [hk, Function.update_self, updatedSlot_physAddr, updatedSlot_hostLoad, if_pos hp]
          have := h r hr
          unfold keyOf at this
          rw [hk, hp] at this
          exact this
        · rw [Function.update_of_ne hk]
          exact h r hr
      · intro hag
        have hag' := hag ((t.slot (a.addrToPagenr mode v)).tlbindex - 1)
        unfold keyOf at hag'
        rw [updatePage_entry, updatePage_slot, Arch.addrToPagenr_trunc, (hentry _ _).1, (hentry _ _).2.1,
          (hentry _ _).2.2.1] at hag'
        have hkey' : a.addrToPagenr mode (t.entry ((t.slot (a.addrToPagenr mode v)).tlbindex - 1)).vaddrPage =
            a.addrToPagenr mode v := hkey
        have := (hag' hval).1
        rw [hkey', Function.update_self, updatedSlot_physAddr] at this
        rw [← hagree.1]
        exact this

/-! ## The 32-bit tables -/

variable (a) in
/-- The direct-mapped arrays and `vph_tlb_entry[]` describe the same mapping. -/
structure Consistent (t : Vph) : Prop where
  loaded_iff : ∀ p < 1048576, (t.slot p).hostLoad ≠ none ↔
    ∃ r, (t.slot p).tlbindex = r + 1 ∧ (t.entry r).valid = true ∧ (t.entry r).vaddrPage = BitVec.ofNat 64 (p <<< 12)
  mapping : ∀ p < 1048576, ∀ r, (t.slot p).hostLoad ≠ none → (t.slot p).tlbindex = r + 1 →
    (t.entry r).paddrPage = (t.slot p).physAddr ∧ (t.entry r).hostPage = (t.slot p).hostLoad
  back : ∀ r < a.maxVphTlbEntries, (t.entry r).valid = true →
    (t.slot (a.addrToPagenr .mode32 (t.entry r).vaddrPage)).tlbindex = r + 1

theorem pageShift_mode32 {a : Arch} (h : a.hasMode .mode32 = true) : a.pageShift = 12 := by
  cases a <;> first | rfl | simp [Arch.hasMode] at h

theorem pagenr_lt_mode32 (hm : a.hasMode .mode32 = true) (v : Addr) : a.addrToPagenr .mode32 v < 1048576 := by
  unfold Arch.addrToPagenr Mode.trunc
  rw [pageShift_mode32 hm, BitVec.toNat_and, Nat.shiftRight_eq_div_pow]
  have : v.toNat &&& (0xffffffff#64).toNat ≤ 0xffffffff := Nat.and_le_right
  omega

theorem vaddr_of_pagenr (hm : a.hasMode .mode32 = true) {v : Addr} (hal : a.Aligned v)
    (ht : Mode.mode32.trunc v = v) : v = BitVec.ofNat 64 (a.addrToPagenr .mode32 v <<< 12) := by
  rw [a.aligned_iff, pageShift_mode32 hm] at hal
  unfold Arch.addrToPagenr
  rw [ht, pageShift_mode32 hm]
  apply BitVec.eq_of_toNat_eq
  rw [BitVec.toNat_ofNat, Nat.shiftLeft_eq, Nat.shiftRight_eq_div_pow]
  omega

theorem consistent_iff_agree (hm : a.hasMode .mode32 = true) (hw : t.WF a .mode32) :
    t.Consistent a ↔ t.Agree a .mode32 := by
  constructor
  · intro h r hr
    have hidx := hw.slot_of_entry hr
    have hused : (t.slot (t.keyOf a .mode32 r)).tlbindex ≠ 0 := by
      rw [hidx]
      exact Nat.succ_ne_zero r
    exact h.mapping _ (pagenr_lt_mode32 hm _) r (hw.loaded _ hused) hidx
  · intro h
    refine ⟨fun p _ => ⟨fun hl => ?_, ?_⟩, fun p _ r _ hidx => ?_, fun r _ hr => hw.slot_of_entry hr⟩
    · have h0 := (hw.loaded_iff p).mp hl
      obtain ⟨hval, hkey⟩ := hw.entry_of_slot h0
      refine ⟨(t.slot p).tlbindex - 1, by omega, hval, ?_⟩
      obtain ⟨hal, ht⟩ := hw.aligned _ hval
      have := vaddr_of_pagenr hm hal ht
      unfold keyOf at hkey
      rw [hkey] at this
      exact this
    · rintro ⟨r, hidx, -, -⟩
      exact (hw.loaded_iff p).mpr (by omega)
    · have h0 : (t.slot p).tlbindex ≠ 0 := by omega
      obtain ⟨hval, hkey⟩ := hw.entry_of_slot h0
      rw [hidx] at hval hkey
      have := h r hval
      rw [Nat.add_sub_cancel] at hkey
      rw [hkey] at this
      exact this

end Vph

def TableOp.Repoints (a : Arch) (c : Cpu) : TableOp → Prop
  | .update v _ w p => (c.tables.flat a).Repoints a c.tables.mode v w p
  | _ => False

def Cpu.start (mode : Mode) (x : Nat) (tc : Tc) : Cpu := ⟨Tables.init mode x, tc, 0, 0, 0⟩

def Cpu.Agree (a : Arch) (c : Cpu) : Prop := (c.tables.flat a).Agree a c.tables.mode

theorem Cpu.agree_start (a : Arch) (mode : Mode) (x : Nat) (tc : Tc) : (Cpu.start mode x tc).Agree a := by
  unfold Cpu.Agree Cpu.start
  rw [Tables.flat_init]
  exact Vph.Agree.init x

theorem Cpu.agree_step_iff {conf : Conf} {c c' : Cpu} {o : TableOp} (hg : c.tables.Good conf.arch)
    (hl : o.Legal conf.arch c.tables.mode) (h : c.Agree conf.arch) (hs : c.tableStep conf o = .ok c') :
    ¬ o.Repoints conf.arch c ↔ c'.Agree conf.arch := by
  obtain ⟨c'', hok, hg', hm, hfl⟩ := Cpu.tableStep_spec hg hl
  rw [hs] at hok
  cases hok
  have hkeep : (c.tables.flat conf.arch).Shrinks (c'.tables.flat conf.arch) → c'.Agree conf.arch := fun hsh => by
    have hw' := hg'.2.1
    unfold Cpu.Agree
    rw [hm] at hw' ⊢
    exact Vph.Agree.shrinks h hsh hw'
  cases o with
  | update v hostPage w p =>
    have := Vph.agree_updated_iff h hg.2.1 (v := v) (p := p) hostPage w
    rw [← hfl, ← hm] at this
    unfold Cpu.Agree
    rw [← this]
    simp only [TableOp.Repoints, hm]
  | invalidate addr flags =>
    refine ⟨fun _ => hkeep ?_, fun _ => id⟩
    rw [hfl]
    exact (Vph.invalidateTranslationCaches_spec hg.2.1 conf.vaddrMask addr flags).2.1
  | invalidateCode addr flags =>
    refine ⟨fun _ => hkeep ?_, fun _ => id⟩
    rcases hfl with hfl | hfl
    · rw [hfl]
      exact .rfl
    · rw [hfl]
      exact (Vph.invalidateCodeEntries_spec hg.2.1 _ flags).2.1
  | otherCpu x =>
    refine ⟨fun _ => hkeep ?_, fun _ => id⟩
    rw [hfl]
    exact ⟨fun _ => .rfl, fun _ => .rfl⟩

def Cpu.Consistent32 (a : Arch) (c : Cpu) : Prop := ∃ t, c.tables = .vph32 t ∧ t.Consistent a

/-- From all-zero tables on, the 32-bit tables are consistent throughout a run
exactly when none of its updates re-points a page that is in the tables. -/
theorem consistent32_iff (conf : Conf) (hm : conf.arch.hasMode .mode32 = true) (x : Nat) (tc : Tc)
    (ops : List TableOp) (hl : ∀ o ∈ ops, o.Legal conf.arch .mode32) :
    Lib.Always (Cpu.tableStep conf) (Cpu.Consistent32 conf.arch) ops (Cpu.start .mode32 x tc) ↔
      Lib.Along (Cpu.tableStep conf) (fun c o => ¬ o.Repoints conf.arch c) ops (Cpu.start .mode32 x tc) := by
  have hiff : ∀ c : Cpu, c.tables.Good conf.arch ∧ c.tables.mode = .mode32 →
      (c.Consistent32 conf.arch ↔ c.Agree conf.arch) := by
    rintro c ⟨hg, hmode⟩
    cases ht : c.tables with
    | vph32 t =>
      rw [ht] at hg
      have := Vph.consistent_iff_agree hm hg.2.1
      unfold Cpu.Consistent32 Cpu.Agree
      rw [ht]
      constructor
      · rintro ⟨u, hu, hc⟩
        cases hu
        exact this.mp hc
      · exact fun h => ⟨t, rfl, this.mpr h⟩
    | vph64 t =>
      rw [ht] at hmode
      cases hmode
  refine Lib.always_iff_along (fun o => o.Legal conf.arch .mode32)
    (K := fun c => c.tables.Good conf.arch ∧ c.tables.mode = .mode32) ?_ ?_ hl ?_ ?_
  · rintro c o hlo ⟨hg, hmode⟩
    obtain ⟨c', hok, hg', hm', -⟩ := @Cpu.tableStep_spec conf c hg o (by rw [hmode]; exact hlo)
    exact ⟨c', hok, hg', hm'.trans hmode⟩
  · rintro c o c' hlo ⟨hg, hmode⟩ hp hs
    have hlo' : o.Legal conf.arch c.tables.mode := by rw [hmode]; exact hlo
    obtain ⟨c'', hok, hg', hm', -⟩ := Cpu.tableStep_spec hg hlo'
    rw [hs] at hok
    cases hok
    rw [hiff c' ⟨hg', hm'.trans hmode⟩]
    exact Cpu.agree_step_iff hg hlo' ((hiff c ⟨hg, hmode⟩).mp hp) hs
  · exact ⟨Tables.Good.init hm x, rfl⟩
  · exact (hiff _ ⟨Tables.Good.init hm x, rfl⟩).mpr (Cpu.agree_start _ _ _ _)

def mips32 : Conf := ⟨.mips, 0xffffffff#64, 96 * 1048576⟩

/-- Two pages that are inserted, then the invalidation of one. -/
theorem consistent32_mips :
    Lib.Always (Cpu.tableStep mips32) (Cpu.Consistent32 .mips)
      [.update 0x1000#64 1 0 0x2000#64, .update 0x2000#64 2 memWrite 0x3000#64, .invalidate 0x2000#64 invalidatePaddr]
      (Cpu.start .mode32 0 Tc.init) := by
  refine (consistent32_iff mips32 rfl 0 Tc.init _ (by decide)).mpr ?_
  refine ⟨by simp only [TableOp.Repoints]; decide, fun c hc => ?_⟩
  cases hc
  refine ⟨by simp only [TableOp.Repoints]; decide, fun c hc => ?_⟩
  cases hc
  exact ⟨id, fun c hc => trivial⟩

/-- Virtual page 0x1000 is mapped to 0x2000 and then to 0x3000. -/
theorem not_consistent32_of_repoint :
    (∀ o ∈ [TableOp.update 0x1000#64 1 0 0x2000#64, .update 0x1000#64 2 0 0x3000#64], o.Legal .mips .mode32) ∧
    ¬ Lib.Always (Cpu.tableStep mips32) (Cpu.Consistent32 .mips)
      [.update 0x1000#64 1 0 0x2000#64, .update 0x1000#64 2 0 0x3000#64] (Cpu.start .mode32 0 Tc.init) := by
  refine ⟨by decide, fun h => ?_⟩
  obtain ⟨c, hrun, t, ht, hc⟩ := h.last
  cases hrun
  cases ht
  have := (hc.mapping 1 (by decide) 0 (by decide) (by decide)).1
  exact absurd this (by decide)

/-! ## The 64-bit tables -/

namespace Tree

structure Sound (a : Arch) (t : Tree) : Prop where
  l3_refcount : ∀ x1 < 2 ^ l1n, ∀ x2 < 2 ^ l2n,
    (t.l3 (t.path x1 x2)).refcount = Nat.count (fun x3 => ((t.l3 (t.path x1 x2)).slot x3).tlbindex ≠ 0) (2 ^ a.l3n) ∧
    (t.l3 (t.path x1 x2)).refcount =
      Nat.count (fun x3 => ((t.l3 (t.path x1 x2)).slot x3).hostLoad ≠ none) (2 ^ a.l3n)
  l2_refcount : ∀ p, l2Dummy < p → p < t.l2Brk →
    (t.l2 p).refcount = Nat.count (fun x2 => (t.l2 p).l3 x2 ≠ l3Dummy) (2 ^ l2n)
  l2_once : ∀ x1 x1', t.l1 x1 ≠ l2Dummy → t.l1 x1 = t.l1 x1' → x1 = x1'
  l3_once : ∀ p p' x2 x2', (t.l2 p).l3 x2 ≠ l3Dummy → (t.l2 p).l3 x2 = (t.l2 p').l3 x2' → p = p' ∧ x2 = x2'
  l2_free : ∃ free2, Lib.Chain (fun p => (t.l2 p).next) t.nextFreeL2 free2 ∧
    ∀ p ∈ free2, p ≠ l2Dummy ∧ (∀ x1, t.l1 x1 ≠ p) ∧ (t.l2 p).refcount = 0 ∧ ∀ x2, (t.l2 p).l3 x2 = l3Dummy
  l3_free : ∃ free3, Lib.Chain (fun q => (t.l3 q).next) t.nextFreeL3 free3 ∧
    ∀ q ∈ free3, q ≠ l3Dummy ∧ (∀ p x2, (t.l2 p).l3 x2 ≠ q) ∧ (t.l3 q).refcount = 0 ∧
      ∀ x3, ((t.l3 q).slot x3).hostLoad = none
  l2_dummy : ∀ x2, (t.l2 l2Dummy).l3 x2 = l3Dummy
  l3_dummy : ∀ x3, ((t.l3 l3Dummy).slot x3).hostLoad = none

theorem Inv.sound {a : Arch} {t : Tree} {free2 free3 : List Nat} (h : t.Inv a free2 free3) : t.Sound a where
  l3_refcount x1 _ x2 _ := by
    have hsame : (fun x3 => ((t.l3 (t.path x1 x2)).slot x3).hostLoad ≠ none) =
        fun x3 => ((t.l3 (t.path x1 x2)).slot x3).tlbindex ≠ 0 := by
      funext x3
      refine propext ⟨fun hl h0 => hl ?_, h.loaded _ _⟩
      rw [h.free _ _ h0]
      rfl
    simp only [hsame]
    exact ⟨h.count3 _, h.count3 _⟩
  l2_refcount p _ _ := h.count2 p
  l2_once x1 x1' hd he := h.pool2.inj x1 x1' he hd
  l3_once p p' x2 x2' hd he := by
    have := h.pool3.inj (p, x2) (p', x2') he hd
    simpa using this
  l2_free := by
    refine ⟨free2, h.pool2.chain, fun p hp => ?_⟩
    have h0 := h.idle2 p (Or.inr (Or.inl hp))
    refine ⟨Nat.ne_of_gt (h.pool2.free_mem p hp).1, fun x1 he => ?_, h0, h.l3_of_zero h0⟩
    by_cases hd : t.l1 x1 = l2Dummy
    · have := (h.pool2.free_mem p hp).1
      omega
    · exact (h.pool2.ref_mem x1 hd).2.2 (he ▸ hp)
  l3_free := by
    refine ⟨free3, h.pool3.chain, fun q hq => ?_⟩
    have h0 := h.idle3 q (Or.inr (Or.inl hq))
    refine ⟨Nat.ne_of_gt (h.pool3.free_mem q hq).1, fun p x2 he => ?_, h0, fun x3 => ?_⟩
    · by_cases hd : (t.l2 p).l3 x2 = l3Dummy
      · have := (h.pool3.free_mem q hq).1
        omega
      · exact (h.pool3.ref_mem (p, x2) hd).2.2 (he ▸ hq)
    · rw [h.slot_of_zero h0]
      rfl
  l2_dummy := h.dummyL2
  l3_dummy x3 := by
    rw [h.dummyL3]
    rfl

end Tree

def Cpu.Sound64 (a : Arch) (c : Cpu) : Prop := ∃ t, c.tables = .vph64 t ∧ t.Sound a

/-- From the tables that init_tables() makes on, the 64-bit tables are sound in
every state of a run, and no call exits. -/
theorem sound64_run (conf : Conf) (hm : conf.arch.hasMode .mode64 = true) (x : Nat) (tc : Tc)
    (ops : List TableOp) (hl : ∀ o ∈ ops, o.Legal conf.arch .mode64) :
    Lib.Always (Cpu.tableStep conf) (Cpu.Sound64 conf.arch) ops (Cpu.start .mode64 x tc) := by
  have hrun : Lib.Always (Cpu.tableStep conf) (fun c => c.tables.Good conf.arch ∧ c.tables.mode = .mode64) ops
      (Cpu.start .mode64 x tc) := by
    refine Lib.always_of_along (fun o => o.Legal conf.arch .mode64) ?_ hl
      ⟨Tables.Good.init hm x, rfl⟩ (Lib.along_true _ _)
    rintro c o hlo ⟨hg, hmode⟩ -
    obtain ⟨c', hok, hg', hm', -⟩ := @Cpu.tableStep_spec conf c hg o (by rw [hmode]; exact hlo)
    exact ⟨c', hok, hg', hm'.trans hmode⟩
  refine hrun.mono ?_
  rintro c ⟨hg, hmode⟩
  cases ht : c.tables with
  | vph32 t =>
    rw [ht] at hmode
    cases hmode
  | vph64 t =>
    rw [ht] at hg
    obtain ⟨free2, free3, h⟩ := hg.2.2
    exact ⟨t, ht, h.sound⟩

def mips64 : Conf := ⟨.mips, 0xffffffffffffffff#64, 96 * 1048576⟩

/-- A page that is inserted and dropped again, which frees its tables. -/
theorem sound64_mips :
    Lib.Always (Cpu.tableStep mips64) (Cpu.Sound64 .mips)
      [.update 0xffffffff80001000#64 1 memWrite 0x1000#64, .invalidate 0 invalidateAll,
        .update 0x7000#64 2 0 0x2000#64] (Cpu.start .mode64 0 Tc.init) :=
  sound64_run mips64 rfl 0 Tc.init _ (by decide)

end Gxemul
