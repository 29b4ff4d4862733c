import Gxemul.Dyntrans.Backed

/- The bitmap `is_userpage` of ARM.

   A page in the tables has its bit set after an access with MEMORY_USER_ACCESS has
   put it there. Loads and stores that are done for user mode use host pages only
   when the bit is set. `UserBacked P` says that `P` allows what they can then do. -/
namespace Gxemul

namespace Vph
variable {mode : Mode} {t t' t'' : Vph}

/-- A page that has its bit set had it set before, and is as it was, but for
`host_store`, which may be gone. -/
def KeepsUser (t t' : Vph) : Prop :=
  ∀ k, t'.isUserpage k = true → t.isUserpage k = true ∧ (t'.slot k).hostLoad = (t.slot k).hostLoad ∧
    (t'.slot k).physAddr = (t.slot k).physAddr ∧ ((t'.slot k).hostStore ≠ none → (t.slot k).hostStore ≠ none)

theorem KeepsUser.rfl : t.KeepsUser t := fun _ h => ⟨h, by rfl, by rfl, id⟩

theorem KeepsUser.trans (h : t.KeepsUser t') (h' : t'.KeepsUser t'') : t.KeepsUser t'' := by
  intro k hk
  obtain ⟨h1, hl', hp', hs'⟩ := h' k hk
  obtain ⟨h0, hl, hp, hs⟩ := h k h1
  exact ⟨h0, hl'.trans hl, hp'.trans hp, hs ∘ hs'⟩

theorem KeepsUser.of_eq (hs : t'.slot = t.slot) (hu : t'.isUserpage = t.isUserpage) : t.KeepsUser t' := by
  intro k hk
  rw [hu] at hk
  rw [hs]
  exact ⟨hk, by rfl, by rfl, id⟩

theorem KeepsUser.setPhysPage (t : Vph) (k : Nat) (ppp : Option Nat) :
    t.KeepsUser (t.setSlot k { t.slot k with physPage := ppp }) := by
  intro j hj
  refine ⟨hj, ?_⟩
  show (Function.update t.slot k _ j).hostLoad = _ ∧ (Function.update t.slot k _ j).physAddr = _ ∧
    ((Function.update t.slot k _ j).hostStore ≠ none → _)
  by_cases hk : j = k
  · subst hk
    rw [Function.update_self]
    exact ⟨by rfl, by rfl, id⟩
  · rw [Function.update_of_ne hk]
    exact ⟨by rfl, by rfl, id⟩

theorem invalidateTlbEntry_isUserpage (t : Vph) (v : Addr) (flags : Nat) :
    (t.invalidateTlbEntry .arm mode v flags).isUserpage =
      Function.update t.isUserpage (Arch.arm.addrToPagenr mode v) false := by
  unfold Vph.invalidateTlbEntry
  dsimp only
  rw [if_pos rfl]
  split
  · rfl
  · split <;> rfl

theorem KeepsUser.invalidateTlbEntry (t : Vph) (v : Addr) (flags : Nat) :
    t.KeepsUser (t.invalidateTlbEntry .arm mode v flags) := by
  intro k hk
  rw [invalidateTlbEntry_isUserpage] at hk
  have hne : k ≠ Arch.arm.addrToPagenr mode v := by
    intro he
    rw [he, Function.update_self] at hk
    cases hk
  rw [Function.update_of_ne hne] at hk
  rw [invalidateTlbEntry_slot, Function.update_of_ne hne]
  exact ⟨hk, by rfl, by rfl, id⟩

theorem KeepsUser.forEntries {f : Vph → Nat → Vph} (hf : ∀ t r, Vph.KeepsUser t (f t r)) (t : Vph) :
    t.KeepsUser (t.forEntries .arm f) := by
  unfold Vph.forEntries
  generalize List.range Arch.arm.maxVphTlbEntries = l
  induction l generalizing t with
  | nil => exact .rfl
  | cons r l ih => exact (hf t r).trans (ih (f t r))

theorem KeepsUser.invalidateIf (p : VpgTlbEntry → Bool) (flags : Nat) (t : Vph) (r : Nat) :
    t.KeepsUser (Vph.invalidateIf .arm mode p flags t r) := by
  unfold Vph.invalidateIf
  split
  · exact .invalidateTlbEntry t _ flags
  · exact .rfl

theorem KeepsUser.invalidatePaddrEntry (addrPage : Addr) (flags : Nat) (t : Vph) (r : Nat) :
    t.KeepsUser (Vph.invalidatePaddrEntry .arm mode addrPage flags t r) := by
  unfold Vph.invalidatePaddrEntry
  split
  · refine (@KeepsUser.invalidateTlbEntry mode t (t.entry r).vaddrPage flags).trans ?_
    split <;> exact .of_eq (by rfl) (by rfl)
  · exact .rfl

theorem KeepsUser.invalidateTranslationCaches (t : Vph) (vaddrMask addr : Addr) (flags : Nat) :
    t.KeepsUser (t.invalidateTranslationCaches .arm mode vaddrMask addr flags) := by
  unfold Vph.invalidateTranslationCaches
  split
  · cases mode with
    | mode32 => exact .invalidateTlbEntry t _ flags
    | mode64 => exact .forEntries (KeepsUser.invalidateIf _ flags) t
  · split
    · exact .forEntries (KeepsUser.invalidateIf _ 0) t
    · split
      · exact .forEntries (KeepsUser.invalidateIf _ 0) t
      · exact .forEntries (KeepsUser.invalidatePaddrEntry _ flags) t

theorem KeepsUser.invalidateCodeEntries (t : Vph) (addr : Addr) (flags : Nat) :
    t.KeepsUser (t.invalidateCodeEntries .arm mode addr flags) := by
  refine KeepsUser.forEntries (fun t r => ?_) t
  dsimp only
  split
  · exact .setPhysPage t _ none
  · exact .rfl

theorem KeepsUser.evict (t : Vph) : t.KeepsUser (t.evict .arm mode).1 := by
  have hx : t.KeepsUser { t with x := (t.x + 1) % 2 ^ 32 } := .of_eq (by rfl) (by rfl)
  unfold Vph.evict
  dsimp only
  split
  · exact hx.trans (.invalidateTlbEntry _ _ 0)
  · exact hx

theorem insertPage_isUserpage (t : Vph) (v : Addr) (hostPage writeflag : Nat) (ua : Bool) (p : Addr) :
    (t.insertPage .arm mode v hostPage writeflag ua p).isUserpage =
      if ua then Function.update (t.evict .arm mode).1.isUserpage (Arch.arm.addrToPagenr mode v) true
      else (t.evict .arm mode).1.isUserpage := by
  cases ua <;> rfl

theorem updatePage_isUserpage (t : Vph) (r : Nat) (v : Addr) (hostPage writeflag : Nat) (ua : Bool) (p : Addr) :
    (t.updatePage .arm mode r v hostPage writeflag ua p).isUserpage =
      Function.update t.isUserpage (Arch.arm.addrToPagenr mode v) ua := rfl

theorem updated_isUserpage {t : Vph} {v p : Addr} {hostPage writeflag k : Nat}
    (hbit : (t.updated .arm mode v hostPage writeflag p).isUserpage k = true) :
    k = Arch.arm.addrToPagenr mode v ∧
      (hasFlag writeflag memoryUserAccess = true ∨ (t.slot k).tlbindex = 0 ∧ t.isUserpage k = true) ∨
    k ≠ Arch.arm.addrToPagenr mode v ∧ t.isUserpage k = true ∧
      ((t.updated .arm mode v hostPage writeflag p).slot k).hostLoad = (t.slot k).hostLoad ∧
      ((t.updated .arm mode v hostPage writeflag p).slot k).physAddr = (t.slot k).physAddr ∧
      (((t.updated .arm mode v hostPage writeflag p).slot k).hostStore ≠ none → (t.slot k).hostStore ≠ none) := by
  unfold Vph.updated at hbit ⊢
  rw [if_neg (fun h => by cases h.1)] at hbit ⊢
  by_cases hk : k = Arch.arm.addrToPagenr mode v
  · left
    refine ⟨hk, ?_⟩
    cases hua : hasFlag writeflag memoryUserAccess with
    | true => exact .inl rfl
    | false =>
      right
      rw [hua] at hbit
      split at hbit
      · rename_i hfree
        rw [insertPage_isUserpage] at hbit
        exact ⟨hk ▸ hfree, (KeepsUser.evict t k hbit).1⟩
      · rw [updatePage_isUserpage, Arch.addrToPagenr_trunc, hk, Function.update_self] at hbit
        cases hbit
  · right
    refine ⟨hk, ?_⟩
    split at hbit
    · rw [if_pos (by assumption), insertPage_slot, Arch.addrToPagenr_trunc, Function.update_of_ne hk]
      refine KeepsUser.evict t k ?_
      rw [insertPage_isUserpage, Arch.addrToPagenr_trunc] at hbit
      split at hbit
      · rwa [Function.update_of_ne hk] at hbit
      · exact hbit
    · rw [if_neg (by assumption), updatePage_slot, Arch.addrToPagenr_trunc, Function.update_of_ne hk]
      rw [updatePage_isUserpage, Arch.addrToPagenr_trunc, Function.update_of_ne hk] at hbit
      exact ⟨hbit, rfl, rfl, id⟩

end Vph

namespace Cpu
variable {conf : Conf} {c c' : Cpu} {P P' : Addr → Addr → Bool → Prop}

def UserBacked (conf : Conf) (P : Addr → Addr → Bool → Prop) (c : Cpu) : Prop :=
  ∀ v, conf.arch.Aligned v →
    (c.tables.flat conf.arch).isUserpage (conf.arch.addrToPagenr c.tables.mode v) = true →
    (c.tables.slotOf conf.arch v).hostLoad ≠ none ∧ P v (c.tables.slotOf conf.arch v).physAddr false ∧
    ((c.tables.slotOf conf.arch v).hostStore ≠ none → P v (c.tables.slotOf conf.arch v).physAddr true)

theorem UserBacked.start (mode : Mode) (x : Nat) (tc : Tc) : (Cpu.start mode x tc).UserBacked conf P := by
  intro v _ hbit
  have hflat : (Cpu.start mode x tc).tables.flat conf.arch = Vph.init x := Tables.flat_init mode x
  rw [hflat] at hbit
  cases hbit

theorem UserBacked.of_tables (h : c.UserBacked conf P) (ht : c'.tables = c.tables) : c'.UserBacked conf P := by
  unfold UserBacked
  rw [ht]
  exact h

theorem UserBacked.keeps (h : c.UserBacked conf P)
    (hk : (c.tables.flat conf.arch).KeepsUser (c'.tables.flat conf.arch)) (hm : c'.tables.mode = c.tables.mode) :
    c'.UserBacked conf P := by
  intro v hv hbit
  rw [hm] at hbit
  obtain ⟨hbit, hload, hphys, hstore⟩ := hk _ hbit
  obtain ⟨hl, hp, hs⟩ := h v hv hbit
  rw [Tables.slotOf_eq] at hl hp hs ⊢
  rw [hm, hload, hphys]
  exact ⟨hl, hp, hs ∘ hstore⟩

theorem hasFlag_ramWriteflag {a : Access} {ok : Nat} (hok : ok = 1 ∨ ok = 2) :
    hasFlag (ramWriteflag a ok) memoryUserAccess = hasFlag a.miscFlags memoryUserAccess := by
  have hsmall : ∀ w, w = 0 ∨ w = 1 → w &&& memoryUserAccess = 0 := by
    intro w hw
    rcases hw with rfl | rfl <;> rfl
  unfold hasFlag ramWriteflag
  rw [Nat.and_or_distrib_right, Nat.and_assoc, Nat.and_self, hsmall (ite _ _ _), Nat.or_zero]
  rcases hok with rfl | rfl
  · split
    · split
      · exact .inr rfl
      · exact .inl rfl
    · exact .inl rfl
  · split
    · split
      · exact .inr rfl
      · exact .inl rfl
    · exact .inr rfl

section
variable (harm : conf.arch = .arm)
include harm

/-- A page that an access for user mode puts in the tables, or finds there, has to be
allowed. Its `host_store` may have been set before. -/
theorem UserBacked.updated (h : c.UserBacked conf P) {v p : Addr} {hostPage w : Nat}
    (hg : c.tables.Good conf.arch) (hacc : Vph.Accepts conf.arch c.tables.mode v p)
    (hm : c'.tables.mode = c.tables.mode)
    (hfl : c'.tables.flat conf.arch = (c.tables.flat conf.arch).updated conf.arch c.tables.mode v hostPage w p)
    (hload : hasFlag w memoryUserAccess = true → AllowsPage conf.arch c.tables.mode P v p false)
    (hstore : hasFlag w memoryUserAccess = true →
      Vph.dataFlags w ≠ 0 ∨ (c.tables.slotOf conf.arch v).hostStore ≠ none →
      AllowsPage conf.arch c.tables.mode P v p true) : c'.UserBacked conf P := by
  intro u hu hbit
  have hu' := h u hu
  rw [Tables.slotOf_eq] at hstore hu' ⊢
  rw [hm, hfl] at hbit ⊢
  rw [harm] at hbit hu hload hstore hacc hu' hg ⊢
  obtain ⟨hk, hcase⟩ | ⟨-, hold, hl, hp, hs⟩ := Vph.updated_isUserpage hbit
  · have htrunc := trunc_of_pagenr hu hacc.1 hk
    rcases hcase with hua | ⟨hfree, hold⟩
    · have hself := Vph.updated_slot_self c.tables.mode (c.tables.flat .arm) v hostPage p
        (fun hi : Vph.Ignored .arm w => by cases hi.1)
      have hphys : (((c.tables.flat .arm).updated .arm c.tables.mode v hostPage w p).slot
          (Arch.arm.addrToPagenr c.tables.mode v)).physAddr = p := by
        rw [hself]
        split
        · rfl
        · exact Vph.updatedSlot_physAddr _ _ _ _
      rw [hk, hphys]
      refine ⟨?_, hload hua u hu htrunc, fun hne => hstore hua ?_ u hu htrunc⟩
      · rw [hself]
        split
        · exact Option.some_ne_none _
        · rename_i hused
          rw [Vph.updatedSlot_hostLoad]
          split
          · exact hg.2.1.loaded _ hused
          · exact Option.some_ne_none _
      · obtain ⟨hst, -⟩ | ⟨-, -, hw⟩ := Vph.updated_stored hne
        · exact .inr hst
        · exact .inl hw
    · -- a page that is not in the tables has no bit
      rw [hk] at hu' hold hfree
      refine absurd ?_ (hu' hold).1
      rw [hg.2.1.free _ hfree]
      rfl
  · rw [hl, hp]
    obtain ⟨hl', hp', hs'⟩ := hu' hold
    exact ⟨hl', hp', hs' ∘ hs⟩

theorem UserBacked.tableStep (h : c.UserBacked conf P) (hw : c.WF conf) {o : TableOp}
    (ho : ∀ v hostPage w p, o ≠ .update v hostPage w p) (hs : c.tableStep conf o = .ok c') : c'.UserBacked conf P := by
  obtain ⟨c'', hok, -, hm, hfl⟩ := tableStep_spec hw.tables (legal_of_ok hs)
  cases hs.symm.trans hok
  cases o with
  | update v hostPage w p => exact absurd rfl (ho v hostPage w p)
  | invalidate addr flags =>
    refine h.keeps ?_ hm
    rw [hfl, harm]
    exact .invalidateTranslationCaches _ _ _ _
  | invalidateCode addr flags =>
    refine h.keeps ?_ hm
    rcases hfl with hfl | hfl
    · rw [hfl]
      exact .rfl
    · rw [hfl, harm]
      exact .invalidateCodeEntries _ _ _
  | otherCpu x =>
    refine h.keeps ?_ hm
    rw [hfl]
    exact .of_eq rfl rfl

theorem UserBacked.memoryRw (h : c.UserBacked conf P) (hw : c.WF conf) {env : Env} {a : Access} {mem mem' : Memory}
    {r : Bool}
    (hP : ∀ paddr ok, env.physicalAddress a = some (paddr, ok) → hasFlag ok memoryNotFullPage = false →
      (ok = 1 ∨ ok = 2) ∧ (hasFlag a.miscFlags memoryUserAccess = true →
      AllowsPage conf.arch c.tables.mode P (conf.arch.pageAddr a.vaddr) (conf.arch.pageAddr paddr) false ∧
      ((a.write = true ∨ ok = 2) ∨ (c.tables.slotOf conf.arch (conf.arch.pageAddr a.vaddr)).hostStore ≠ none →
        AllowsPage conf.arch c.tables.mode P (conf.arch.pageAddr a.vaddr) (conf.arch.pageAddr paddr) true)))
    (hok : c.memoryRw conf env a mem = .ok (c', mem', r)) : c'.UserBacked conf P := by
  have hupdate : ∀ o c1, accessUpdate conf env a mem = some o → c.tableStep conf o = .ok c1 →
      c1.UserBacked conf P := by
    intro o c1 ho hs
    obtain ⟨paddr, ok, hostPage, w, hp, hfull, rfl, hflags⟩ := accessUpdate_flags ho
    obtain ⟨hok, hallow⟩ := hP paddr ok hp hfull
    obtain ⟨c'', hok', -, hm, hfl⟩ := tableStep_spec hw.tables (legal_of_ok hs)
    cases hs.symm.trans hok'
    have hua : hasFlag w memoryUserAccess = true → w = ramWriteflag a ok := by
      intro hua
      rcases hflags with rfl | rfl | ⟨rfl, -⟩
      · rfl
      · cases hua
      · cases hua
    refine h.updated harm hw.tables (legal_of_ok hs) hm hfl (fun hu => ?_) (fun hu hst => ?_)
    · have hw := hua hu
      rw [hw, hasFlag_ramWriteflag hok] at hu
      exact (hallow hu).1
    · have hw := hua hu
      rw [hw, hasFlag_ramWriteflag hok] at hu
      refine (hallow hu).2 (hst.imp_left fun hne => ?_)
      rw [hw] at hne
      exact dataFlags_ramWriteflag hok hne
  have hrun := memoryRw_tables hok
  rw [Lib.runOps_append] at hrun
  obtain ⟨c1, h1, h2⟩ := Lib.bind_eq_ok hrun
  obtain ⟨hu1, hw1⟩ : c1.UserBacked conf P ∧ c1.WF conf := by
    cases hu : accessUpdate conf env a mem with
    | none =>
      rw [hu] at h1
      cases h1
      exact ⟨h, hw⟩
    | some o =>
      rw [hu] at h1
      have hs := Lib.runOps_singleton.mp h1
      obtain ⟨c'', hok', hw', -⟩ := hw.tableStep (legal_of_ok hs)
      cases hs.symm.trans hok'
      exact ⟨hupdate o _ hu hs, hw'⟩
  cases hi : accessInvalidation conf env a mem with
  | none =>
    rw [hi] at h2
    cases h2
    exact hu1
  | some o =>
    rw [hi] at h2
    obtain ⟨paddr, ok, -, rfl⟩ := accessInvalidation_eq hi
    exact hu1.tableStep harm hw1 (fun _ _ _ _ h => by cases h) (Lib.runOps_singleton.mp h2)

theorem UserBacked.pointTo (h : c.UserBacked conf P) (hw : c.WF conf) {host : Addr → Option Nat} {pc p : Addr}
    (hp : (c.tables.slotOf conf.arch pc).hostLoad = none → c.tables.mode = .mode32 →
      conf.arch.pageAddr p ≤ 0xffffffff#64)
    (hok : c.pointTo conf host pc (c.tables.l3Of conf.arch pc) p = .ok c') : c'.UserBacked conf P := by
  obtain ⟨c1, c2, c3, c4, c5, ppp, hok', ⟨hw1, hm1, -, -, hcase1⟩, ⟨hw2, hm2, -, hcase2⟩, ⟨-, ht3, -⟩,
    ⟨hw4, hm4, -, -, hcase4⟩, ⟨-, hm5, -, -, hcase5⟩⟩ := pointTo_parts hw host hp
  cases hok.symm.trans hok'
  have h1 : c1.UserBacked conf P := by
    rcases hcase1 with rfl | ⟨hnone, hostPage, -, hfl⟩
    · exact h
    · have hacc : Vph.Accepts conf.arch c.tables.mode (conf.arch.pageAddr pc) (conf.arch.pageAddr p) :=
        ⟨conf.arch.aligned_pageAddr pc, conf.arch.aligned_pageAddr p, hp hnone⟩
      exact h.updated harm hw.tables hacc hm1 hfl (fun hua => by cases hua) (fun hua => by cases hua)
  have h2 : c2.UserBacked conf P := by
    rcases hcase2 with ⟨-, rfl⟩ | ⟨-, -, hfl⟩
    · exact h1
    · refine h1.keeps ?_ hm2
      rw [hfl, harm]
      exact .invalidateCodeEntries _ _ _
  have h4 : c4.UserBacked conf P := by
    rcases hcase4 with rfl | ⟨-, hfl⟩
    · exact h2.of_tables ht3
    · refine (h2.of_tables ht3).keeps ?_ hm4
      rw [hfl, Tables.slotOf_eq]
      exact .setPhysPage _ _ _
  refine UserBacked.of_tables (c := c5) ?_ rfl
  rcases hcase5 with ⟨rfl, -⟩ | hfl
  · exact h4
  · refine h4.keeps ?_ hm5
    rw [hfl, harm]
    exact .invalidateTranslationCaches _ _ _ _

end

end Cpu

end Gxemul
