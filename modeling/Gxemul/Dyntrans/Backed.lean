import Mathlib.Data.Nat.Bitwise
import Gxemul.Dyntrans.PcToPointers
import Gxemul.Memory.MemoryRw

/- What stands behind the pages in the translation tables.

   The tables are a cache of what an MMU says. `Backed P` says that every page in
   them is allowed by `P`: `P v p false` lets the virtual page `v` be loaded from
   the physical page `p`, and `P v p true` lets it be stored to. For an MMU, `P`
   is what it says in the current state. When that state changes, `P` changes too;
   the pages that are not allowed any more are then those that the emulator has to
   invalidate. -/
namespace Gxemul

namespace Cpu
variable {conf : Conf} {c c' : Cpu} {P P' : Addr → Addr → Bool → Prop}

def Backed (conf : Conf) (P : Addr → Addr → Bool → Prop) (c : Cpu) : Prop :=
  ∀ v, conf.arch.Aligned v →
    ((c.tables.slotOf conf.arch v).hostLoad ≠ none → P v (c.tables.slotOf conf.arch v).physAddr false) ∧
    ((c.tables.slotOf conf.arch v).hostStore ≠ none → P v (c.tables.slotOf conf.arch v).physAddr true)

theorem Backed.start (mode : Mode) (x : Nat) (tc : Tc) : (Cpu.start mode x tc).Backed conf P := by
  intro v _
  rw [Tables.slotOf_eq]
  unfold Cpu.start
  rw [Tables.flat_init]
  exact ⟨fun h => absurd rfl h, fun h => absurd rfl h⟩

theorem Backed.mono (h : c.Backed conf P) (hP : ∀ v p w, P v p w → P' v p w) : c.Backed conf P' :=
  fun v hv => ⟨fun hl => hP _ _ _ ((h v hv).1 hl), fun hs => hP _ _ _ ((h v hv).2 hs)⟩

theorem Backed.of_tables (h : c.Backed conf P) (ht : c'.tables = c.tables) : c'.Backed conf P := by
  unfold Backed
  rw [ht]
  exact h

theorem Backed.shrinks (h : c.Backed conf P) (hsh : (c.tables.flat conf.arch).Shrinks (c'.tables.flat conf.arch))
    (hm : c'.tables.mode = c.tables.mode) : c'.Backed conf P := by
  intro v hv
  obtain ⟨hl, hs⟩ := h v hv
  rw [Tables.slotOf_eq] at hl hs ⊢
  rw [hm]
  constructor
  · intro hload
    obtain ⟨he, hp⟩ := hsh.of_loaded hload
    rw [hp]
    exact hl (he ▸ hload)
  · intro hstore
    obtain ⟨he, -, hp⟩ := hsh.of_stored hstore
    rw [hp]
    exact hs (he ▸ hstore)

def AllowsPage (a : Arch) (mode : Mode) (P : Addr → Addr → Bool → Prop) (v p : Addr) (w : Bool) : Prop :=
  ∀ u, a.Aligned u → mode.trunc u = mode.trunc v → P u p w

theorem trunc_of_pagenr {a : Arch} {mode : Mode} {u v : Addr} (hu : a.Aligned u) (hv : a.Aligned v)
    (h : a.addrToPagenr mode u = a.addrToPagenr mode v) : mode.trunc u = mode.trunc v := by
  refine a.eq_of_pagenr_eq mode (a.aligned_trunc mode hu) (a.aligned_trunc mode hv) (mode.trunc_trunc u)
    (mode.trunc_trunc v) ?_
  rw [Arch.addrToPagenr_trunc, Arch.addrToPagenr_trunc]
  exact h

theorem Backed.updated (h : c.Backed conf P) {v p : Addr} {hostPage w : Nat}
    (hacc : Vph.Accepts conf.arch c.tables.mode v p) (hm : c'.tables.mode = c.tables.mode)
    (hfl : c'.tables.flat conf.arch = (c.tables.flat conf.arch).updated conf.arch c.tables.mode v hostPage w p)
    (hload : AllowsPage conf.arch c.tables.mode P v p false)
    (hstore : Vph.dataFlags w ≠ 0 → AllowsPage conf.arch c.tables.mode P v p true) : c'.Backed conf P := by
  intro u hu
  obtain ⟨hl, hs⟩ := h u hu
  rw [Tables.slotOf_eq] at hl hs ⊢
  rw [hm, hfl]
  constructor
  · intro hne
    by_cases hig : Vph.Ignored conf.arch w
    · rw [Vph.updated_of_ignored _ _ _ _ hig] at hne ⊢
      exact hl hne
    · by_cases hk : conf.arch.addrToPagenr c.tables.mode u = conf.arch.addrToPagenr c.tables.mode v
      · have hself : (((c.tables.flat conf.arch).updated conf.arch c.tables.mode v hostPage w p).slot
            (conf.arch.addrToPagenr c.tables.mode v)).physAddr = p := by
          rw [Vph.updated_slot_self _ _ _ _ _ hig]
          split
          · rfl
          · exact Vph.updatedSlot_physAddr _ _ _ _
        rw [hk, hself]
        exact hload u hu (trunc_of_pagenr hu hacc.1 hk)
      · rcases Vph.updated_slot_other c.tables.mode (c.tables.flat conf.arch) v hostPage w p hk with he | ⟨-, he, hp, -⟩
        · rw [he] at hne
          exact absurd rfl hne
        · rw [hp]
          exact hl (he ▸ hne)
  · intro hne
    rcases Vph.updated_stored hne with ⟨hst, hp⟩ | ⟨hk, hp, hw⟩
    · rw [hp]
      exact hs hst
    · rw [hp]
      exact hstore hw u hu (trunc_of_pagenr hu hacc.1 hk)

def Allows (conf : Conf) (mode : Mode) (P : Addr → Addr → Bool → Prop) : TableOp → Prop
  | .update v _ w p =>
    AllowsPage conf.arch mode P v p false ∧ (Vph.dataFlags w ≠ 0 → AllowsPage conf.arch mode P v p true)
  | .invalidate _ _ | .invalidateCode _ _ | .otherCpu _ => True

theorem Backed.tableStep (h : c.Backed conf P) (hw : c.WF conf) {o : TableOp}
    (ho : Allows conf c.tables.mode P o) (hs : c.tableStep conf o = .ok c') :
    c'.Backed conf P ∧ c'.WF conf ∧ c'.tables.mode = c.tables.mode := by
  obtain ⟨c'', hok, hw', hm⟩ := hw.tableStep (legal_of_ok hs)
  cases hs.symm.trans hok
  refine ⟨?_, hw', hm⟩
  obtain ⟨-, -, ⟨v, hostPage, w, p, rfl, hacc, hfl⟩ | hsh⟩ := tableStep_cases hw.tables hs
  · exact h.updated hacc hm hfl ho.1 ho.2
  · exact h.shrinks hsh hm

theorem Backed.runOps : ∀ {ops : List TableOp} {c : Cpu}, c.Backed conf P → c.WF conf →
    (∀ o ∈ ops, Allows conf c.tables.mode P o) → Lib.runOps (Cpu.tableStep conf) ops c = .ok c' →
    c'.Backed conf P ∧ c'.WF conf ∧ c'.tables.mode = c.tables.mode := by
  intro ops
  induction ops with
  | nil =>
    intro c h hw _ hok
    cases hok
    exact ⟨h, hw, rfl⟩
  | cons o ops ih =>
    intro c h hw ho hok
    unfold Lib.runOps at hok
    split at hok
    next c1 hs =>
      obtain ⟨h1, hw1, hm1⟩ := h.tableStep hw (ho o (List.mem_cons_self ..)) hs
      obtain ⟨h2, hw2, hm2⟩ := ih h1 hw1 (fun o' ho' => hm1 ▸ ho o' (List.mem_cons_of_mem _ ho')) hok
      exact ⟨h2, hw2, hm2.trans hm1⟩
    next => cases hok

/-! ## Accesses and lookups -/

theorem dataFlags_ramWriteflag {a : Access} {ok : Nat} (hok : ok = 1 ∨ ok = 2)
    (h : Vph.dataFlags (ramWriteflag a ok) ≠ 0) : a.write = true ∨ ok = 2 := by
  by_contra hn
  rw [not_or] at hn
  have hwrite : a.write = false := by simpa using hn.1
  obtain rfl := hok.resolve_right hn.2
  refine h ?_
  unfold ramWriteflag
  simp only [hwrite, Bool.false_eq_true, if_false, Nat.sub_self, ite_self, Nat.or_zero]
  have hflag : a.miscFlags &&& memoryUserAccess = (a.miscFlags.testBit 6).toNat * 64 := Nat.and_two_pow a.miscFlags 6
  rw [hflag]
  cases a.miscFlags.testBit 6 <;> rfl

theorem accessUpdate_flags {env : Env} {a : Access} {mem : Memory} {o : TableOp}
    (h : accessUpdate conf env a mem = some o) :
    ∃ paddr ok hostPage w, env.physicalAddress a = some (paddr, ok) ∧ hasFlag ok memoryNotFullPage = false ∧
      o = .update (conf.arch.pageAddr a.vaddr) hostPage w (conf.arch.pageAddr paddr) ∧
      (w = ramWriteflag a ok ∨ w = 0 ∨ w = 1 ∧ a.write = true) := by
  unfold accessUpdate at h
  split at h
  next => cases h
  next paddr ok hp =>
    split at h
    next =>
      dsimp only at h
      split at h
      next hfull =>
        cases h
        simp only [Bool.and_eq_true, Bool.not_eq_true'] at hfull
        refine ⟨paddr, ok, _, _, hp, hfull.1, rfl, .inr ?_⟩
        split
        next hwr => exact .inr ⟨rfl, (Bool.and_eq_true_iff.mp hwr).1⟩
        next => exact .inl rfl
      next => cases h
    next =>
      split at h
      next => cases h
      next =>
        split at h
        next hfull =>
          simp only [Bool.and_eq_true, Bool.not_eq_true'] at hfull
          obtain ⟨memblock, -, rfl⟩ := Option.map_eq_some_iff.mp h
          exact ⟨paddr, ok, memblock, _, hp, hfull.1.2, rfl, .inl rfl⟩
        next => cases h

theorem Backed.memoryRw (h : c.Backed conf P) (hw : c.WF conf) {env : Env} {a : Access} {mem mem' : Memory} {r : Bool}
    (hP : ∀ paddr ok, env.physicalAddress a = some (paddr, ok) → hasFlag ok memoryNotFullPage = false →
      (ok = 1 ∨ ok = 2) ∧
      AllowsPage conf.arch c.tables.mode P (conf.arch.pageAddr a.vaddr) (conf.arch.pageAddr paddr) false ∧
      (a.write = true ∨ ok = 2 →
        AllowsPage conf.arch c.tables.mode P (conf.arch.pageAddr a.vaddr) (conf.arch.pageAddr paddr) true))
    (hok : c.memoryRw conf env a mem = .ok (c', mem', r)) :
    c'.Backed conf P ∧ c'.WF conf ∧ c'.tables.mode = c.tables.mode := by
  refine h.runOps hw ?_ (memoryRw_tables hok)
  intro o ho
  rcases List.mem_append.mp ho with ho | ho
  · have hu := Option.mem_toList.mp ho
    obtain ⟨paddr, ok, hostPage, w, hp, hfull, rfl, hflags⟩ := accessUpdate_flags hu
    obtain ⟨hok, hload, hstore⟩ := hP paddr ok hp hfull
    refine ⟨hload, fun hne => hstore ?_⟩
    rcases hflags with rfl | rfl | ⟨-, hwr⟩
    · exact dataFlags_ramWriteflag hok hne
    · exact absurd rfl hne
    · exact .inl hwr
  · obtain ⟨paddr, ok, -, rfl⟩ := accessInvalidation_eq (Option.mem_toList.mp ho)
    trivial

theorem Backed.link (h : c.Backed conf P) {k ppp : Nat} (hm : c'.tables.mode = c.tables.mode)
    (hfl : c'.tables.flat conf.arch = (c.tables.flat conf.arch).setSlot k
      { (c.tables.flat conf.arch).slot k with physPage := some ppp }) : c'.Backed conf P := by
  intro v hv
  have hv' := h v hv
  rw [Tables.slotOf_eq] at hv' ⊢
  rw [hm, hfl, Vph.setSlot_slot]
  by_cases hk : conf.arch.addrToPagenr c.tables.mode v = k
  · subst hk
    rw [Function.update_self]
    exact hv'
  · rw [Function.update_of_ne hk]
    exact hv'

theorem Backed.pointTo (h : c.Backed conf P) (hw : c.WF conf) {host : Addr → Option Nat} {pc p : Addr}
    (hp : (c.tables.slotOf conf.arch pc).hostLoad = none → c.tables.mode = .mode32 →
      conf.arch.pageAddr p ≤ 0xffffffff#64)
    (hP : (c.tables.slotOf conf.arch pc).hostLoad = none →
      AllowsPage conf.arch c.tables.mode P (conf.arch.pageAddr pc) (conf.arch.pageAddr p) false)
    (hok : c.pointTo conf host pc (c.tables.l3Of conf.arch pc) p = .ok c') :
    c'.Backed conf P ∧ c'.WF conf ∧ c'.tables.mode = c.tables.mode ∧ c'.pc = c.pc := by
  obtain ⟨c1, c2, c3, c4, c5, ppp, hok', ⟨hw1, hm1, -, hpc1, hcase1⟩, ⟨hw2, hm2, hpc2, hcase2⟩, ⟨hw3, ht3, hpc3, -⟩,
    ⟨hw4, hm4, -, hpc4, hcase4⟩, ⟨hw5, hm5, -, hpc5, hcase5⟩⟩ := pointTo_parts hw host hp
  cases hok.symm.trans hok'
  have h1 : c1.Backed conf P := by
    rcases hcase1 with rfl | ⟨hnone, hostPage, -, hfl⟩
    · exact h
    · refine h.updated ⟨conf.arch.aligned_pageAddr pc, conf.arch.aligned_pageAddr p, hp hnone⟩ hm1 hfl (hP hnone) ?_
      intro hne
      exact absurd rfl hne
  have h2 : c2.Backed conf P := by
    rcases hcase2 with ⟨-, rfl⟩ | ⟨-, -, hfl⟩
    · exact h1
    · refine h1.shrinks ?_ hm2
      rw [hfl]
      exact (Vph.invalidateCodeEntries_spec hw1.tables.2.1 _ _).2.1
  have h3 : c3.Backed conf P := h2.of_tables ht3
  have h4 : c4.Backed conf P := by
    rcases hcase4 with rfl | ⟨-, hfl⟩
    · exact h3
    · rw [Tables.slotOf_eq] at hfl
      exact h3.link hm4 hfl
  have h5 : c5.Backed conf P := by
    rcases hcase5 with ⟨rfl, -⟩ | hfl
    · exact h4
    · refine h4.shrinks ?_ hm5
      rw [hfl]
      exact (Vph.invalidateTranslationCaches_spec hw4.tables.2.1 _ _ _).2.1
  refine ⟨Backed.of_tables (c := c5) h5 rfl, ⟨hw5.tables, hw5.tc⟩, ?_, ?_⟩
  · rw [hm5, hm4, ht3, hm2, hm1]
  · rw [hpc5, hpc4, hpc3, hpc2, hpc1]

end Cpu

end Gxemul
