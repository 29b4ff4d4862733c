import Gxemul.Dyntrans.PcToPointers
import Gxemul.Dyntrans.WriteProtect

/- The translated instructions of a page, and who can write to the page.

   A page that holds translated instructions must not be writable: a store to
   it has to go through memory_rw(), which resets the instructions. The pages
   that `phys_page` points to have to be non-writable as well, since the quick
   lookup enters them without looking. `Safe` says both. pc_to_pointers() keeps
   it, and leaves the page it enters non-writable. -/
namespace Gxemul

def PhysPage.Clean (p : PhysPage) : Prop :=
  p.translationsBitmap = 0 ∧ ∀ i n, p.ics i ≠ .translated n

namespace Tc
variable {a : Arch} {tc : Tc}

/-! ## Resetting the instruction slots -/

theorem foldl_update_range {β : Type} (f : Nat → β) (base : Nat) (v : β) (m t : Nat) :
    (List.range m).foldl (fun f j => Function.update f (base + j) v) f t =
      if base ≤ t ∧ t < base + m then v else f t := by
  induction m with
  | zero =>
    rw [if_neg (by omega)]
    rfl
  | succ m ih =>
    rw [List.range_succ, List.foldl_append]
    simp only [List.foldl_cons, List.foldl_nil]
    by_cases ht : t = base + m
    · rw [ht, Function.update_self, if_pos (by omega)]
    · rw [Function.update_of_ne ht, ih]
      exact if_congr (by omega) rfl rfl

theorem resetIcs_eq (x : BitVec 32) {m : Nat} (hm : 0 < m) (ics : Nat → IcFunc) (t : Nat) :
    resetIcs x m ics t = if t / m < 32 ∧ x.getLsbD (t / m) = true then .toBeTranslated else ics t := by
  have hn : ∀ n, (List.range n).foldl (fun ics i =>
      if x.getLsbD i then
        (List.range m).foldl (fun ics j => Function.update ics (i * m + j) .toBeTranslated) ics
      else ics) ics t = if t / m < n ∧ x.getLsbD (t / m) = true then .toBeTranslated else ics t := by
    intro n
    induction n with
    | zero =>
      rw [if_neg (fun h => absurd h.1 (Nat.not_lt_zero _))]
      rfl
    | succ n ih =>
      rw [List.range_succ, List.foldl_append]
      simp only [List.foldl_cons, List.foldl_nil]
      -- the slots of bit `n` are those from `n * m` on
      have hdiv : n * m ≤ t ∧ t < n * m + m ↔ t / m = n := by
        rw [Nat.div_eq_iff hm]
        constructor <;> intro h <;> omega
      have hlt : t / m ≠ n → (t / m < n ↔ t / m < n + 1) := by
        generalize t / m = q
        omega
      by_cases hx : x.getLsbD n = true
      · rw [if_pos hx, foldl_update_range, ih]
        by_cases ht : t / m = n
        · rw [if_pos (hdiv.mpr ht), ht, if_pos ⟨Nat.lt_succ_self n, hx⟩]
        · rw [if_neg (fun h => ht (hdiv.mp h))]
          exact if_congr (and_congr_left fun _ => hlt ht) rfl rfl
      · rw [if_neg hx, ih]
        exact if_congr (and_congr_left fun hq => hlt fun ht => hx (ht ▸ hq)) rfl rfl
  exact hn 32

theorem icsPerBit_pos (a : Arch) : 0 < a.icsPerBit := by
  cases a <;> decide

theorem icEntriesPerPage_eq (a : Arch) : a.icEntriesPerPage = 32 * a.icsPerBit := by
  cases a <;> decide

def Marked (a : Arch) (p : PhysPage) : Prop :=
  ∀ i n, p.ics i = .translated n → i < a.icEntriesPerPage ∧ p.translationsBitmap.getLsbD (i / a.icsPerBit) = true

theorem Marked.clean {p : PhysPage} (h : Marked a p) (h0 : p.translationsBitmap = 0) : p.Clean := by
  refine ⟨h0, fun i n hi => ?_⟩
  have := (h i n hi).2
  rw [h0] at this
  simp at this

theorem clean_marked {p : PhysPage} (h : p.Clean) : Marked a p := by
  intro i n hi
  exact absurd hi (h.2 i n)

theorem resetPage_clean {ofs : Nat} (h : Marked a (tc.page ofs)) : ((tc.resetPage a ofs).page ofs).Clean := by
  unfold resetPage
  dsimp only
  split
  · -- on ARM every bit is taken to be set
    have hx : ∀ j, j < 32 → (tc.page ofs).translationsBitmap.getLsbD j = true →
        (if a = .arm then 0xffffffff#32 else (tc.page ofs).translationsBitmap).getLsbD j = true := by
      intro j hj hset
      split
      · exact BitVec.getLsbD_allOnes.trans (decide_eq_true hj)
      · exact hset
    generalize (if a = .arm then 0xffffffff#32 else (tc.page ofs).translationsBitmap) = x at hx
    simp only [setPage, Function.update_self]
    refine ⟨rfl, fun i n hi => ?_⟩
    dsimp only at hi
    rw [resetIcs_eq _ (icsPerBit_pos a)] at hi
    split at hi
    · cases hi
    · rename_i hbit
      obtain ⟨hlt, hset⟩ := h i n hi
      rw [icEntriesPerPage_eq] at hlt
      have hdiv : i / a.icsPerBit < 32 := Nat.div_lt_of_lt_mul (by rw [Nat.mul_comm]; exact hlt)
      exact hbit ⟨hdiv, hx _ hdiv hset⟩
  · rename_i h0
    exact h.clean (not_not.mp h0)

theorem resetPage_other {ofs o : Nat} (ho : o ≠ ofs) : (tc.resetPage a ofs).page o = tc.page o := by
  unfold resetPage
  dsimp only
  split
  · exact Function.update_of_ne ho _ _
  · rfl

theorem resetPage_marked (ofs o : Nat) (h : Marked a (tc.page o)) : Marked a ((tc.resetPage a ofs).page o) := by
  by_cases ho : o = ofs
  · subst ho
    exact clean_marked (resetPage_clean h)
  · rw [resetPage_other ho]
    exact h

theorem template_clean (addr : Addr) (n : Nat) : ({ template a addr with nextOfs := n } : PhysPage).Clean := by
  refine ⟨rfl, fun i f hi => ?_⟩
  change (if i < a.icEntriesPerPage then IcFunc.toBeTranslated
    else if i = a.icEntriesPerPage then .endOfPage else .endOfPage2) = _ at hi
  split at hi
  · cases hi
  · split at hi <;> cases hi

end Tc

namespace Vph
variable {a : Arch} {mode : Mode} {t : Vph}

theorem updated_physPage {v p : Addr} {hostPage writeflag k o : Nat}
    (hk : ((t.updated a mode v hostPage writeflag p).slot k).physPage = some o) : (t.slot k).physPage = some o := by
  by_cases hm : Ignored a writeflag
  · rw [updated_of_ignored t v hostPage p hm] at hk
    exact hk
  by_cases hkv : k = a.addrToPagenr mode v
  · subst hkv
    rw [updated_slot_self mode t v hostPage p hm] at hk
    split at hk
    · cases hk
    · rw [Cpu.updatedSlot_physPage] at hk
      split at hk
      · cases hk
      · exact hk
  · rcases updated_slot_other (a := a) mode t v hostPage writeflag p hkv with he | ⟨_, _, _, _, hpp⟩
    · rw [he] at hk
      cases hk
    · rcases hpp with hpp | hpp <;> rw [hpp] at hk
      · exact hk
      · cases hk

end Vph

namespace Cpu
variable {conf : Conf} {c c' : Cpu} {E : Addr → Prop} {p : Addr}

/-- No page is mapped writable to physical page `p`. -/
def Protected (conf : Conf) (c : Cpu) (p : Addr) : Prop :=
  ∀ k, ((c.tables.flat conf.arch).slot k).hostStore ≠ none → ((c.tables.flat conf.arch).slot k).physAddr ≠ p

/-- The physical pages that hold translated instructions, and those that the
quick lookup can enter, are protected, with the pages in `E` left out. -/
structure SafeBut (conf : Conf) (E : Addr → Prop) (c : Cpu) : Prop where
  tracks : (c.tables.flat conf.arch).Tracks (fun _ => True)
  fits : (c.tables.flat conf.arch).Fits c.tables.mode
  marked : ∀ o, c.tc.InChain o → Tc.Marked conf.arch (c.tc.page o)
  translated : ∀ o, c.tc.InChain o → (c.tc.page o).translationsBitmap ≠ 0 → ¬ E (c.tc.page o).physaddr →
    c.Protected conf (c.tc.page o).physaddr
  linked : ∀ k o, ((c.tables.flat conf.arch).slot k).physPage = some o → ¬ E (c.tc.page o).physaddr →
    c.Protected conf (c.tc.page o).physaddr

def Safe (conf : Conf) (c : Cpu) : Prop := c.SafeBut conf (fun _ => False)

theorem Protected.shrinks (h : c.Protected conf p)
    (hs : (c.tables.flat conf.arch).Shrinks (c'.tables.flat conf.arch)) : c'.Protected conf p := by
  intro k hk
  obtain ⟨hst, _, hp⟩ := hs.of_stored hk
  rw [hp]
  exact h k (hst ▸ hk)

theorem SafeBut.shrinks (h : c.SafeBut conf E)
    (hs : (c.tables.flat conf.arch).Shrinks (c'.tables.flat conf.arch)) (hm : c'.tables.mode = c.tables.mode)
    (htc : c'.tc = c.tc) : c'.SafeBut conf E := by
  refine ⟨h.tracks.shrinks hs, hm ▸ h.fits.shrinks hs, ?_, ?_, ?_⟩
  · rw [htc]
    exact h.marked
  · rw [htc]
    intro o ho hb hE
    exact (h.translated o ho hb hE).shrinks hs
  · rw [htc]
    intro k o ho hE
    exact (h.linked k o (hs.of_physPage ho).1 hE).shrinks hs

theorem Protected.updated {q : Addr} (h : c.Protected conf q) {v : Addr} {hostPage w : Nat}
    (hfl : c'.tables.flat conf.arch = (c.tables.flat conf.arch).updated conf.arch c.tables.mode v hostPage w p)
    (hne : ¬ (q = p ∧ Vph.dataFlags w ≠ 0)) : c'.Protected conf q := by
  intro k hk he
  rw [hfl] at hk he
  rcases Vph.updated_stored hk with ⟨hk', hp⟩ | ⟨-, hp, hw⟩
  · exact h k hk' (hp.symm.trans he)
  · exact hne ⟨he.symm.trans hp, hw⟩

/-- An update that re-points nothing can take the protection from its own
physical page only, and only if it is for writing. -/
theorem SafeBut.updated (h : c.SafeBut conf E) (hg : c.tables.Good conf.arch) {v : Addr} {hostPage w : Nat}
    (hacc : Vph.Accepts conf.arch c.tables.mode v p)
    (hr : (c.tables.slotOf conf.arch v).tlbindex ≠ 0 → (c.tables.slotOf conf.arch v).physAddr = p)
    (hfl : c'.tables.flat conf.arch = (c.tables.flat conf.arch).updated conf.arch c.tables.mode v hostPage w p)
    (hm : c'.tables.mode = c.tables.mode) (htc : c'.tc = c.tc) :
    c'.SafeBut conf (fun q => E q ∨ (q = p ∧ Vph.dataFlags w ≠ 0)) := by
  refine ⟨?_, ?_, ?_, ?_, ?_⟩
  · rw [hfl]
    apply h.tracks.updated hg.2.1 hostPage w hacc
    rw [← Tables.slotOf_eq]
    intro hc
    exact hc.2.1 (hr hc.1)
  · rw [hm, hfl]
    exact h.fits.updated hostPage w hacc
  · rw [htc]
    exact h.marked
  · rw [htc]
    intro o ho hb hE
    rw [not_or] at hE
    exact (h.translated o ho hb hE.1).updated hfl hE.2
  · rw [htc]
    intro k o ho hE
    rw [not_or] at hE
    rw [hfl] at ho
    exact (h.linked k o (Vph.updated_physPage ho) hE.1).updated hfl hE.2

theorem SafeBut.resetPage (h : c.SafeBut conf E) {ofs : Nat}
    (hs : (c.tables.flat conf.arch).Shrinks (c'.tables.flat conf.arch)) (hm : c'.tables.mode = c.tables.mode)
    (htc : c'.tc = c.tc.resetPage conf.arch ofs) : c'.SafeBut conf E := by
  have hsame := fun o => Tc.resetPage_same (a := conf.arch) c.tc ofs o
  have hin : ∀ {o}, (c.tc.resetPage conf.arch ofs).InChain o → c.tc.InChain o := fun ho =>
    Tc.inChain_of_same (Tc.resetPage_base c.tc ofs).1.symm (fun q => (hsame q).1.symm) ho
  refine ⟨h.tracks.shrinks hs, hm ▸ h.fits.shrinks hs, ?_, ?_, ?_⟩
  · rw [htc]
    exact fun o ho => Tc.resetPage_marked ofs o (h.marked o (hin ho))
  · rw [htc]
    intro o ho hb hE
    by_cases he : o = ofs
    · subst he
      exact absurd (Tc.resetPage_clean (h.marked o (hin ho))).1 hb
    · rw [Tc.resetPage_other he] at hb hE ⊢
      exact (h.translated o (hin ho) hb hE).shrinks hs
  · rw [htc]
    intro k o ho hE
    rw [(hsame o).2] at hE ⊢
    exact (h.linked k o (hs.of_physPage ho).1 hE).shrinks hs

theorem SafeBut.mono {E' : Addr → Prop} (h : c.SafeBut conf E) (hE : ∀ q, E q → E' q) : c.SafeBut conf E' :=
  ⟨h.tracks, h.fits, h.marked, fun o ho hb hq => h.translated o ho hb fun he => hq (hE _ he),
    fun k o ho hq => h.linked k o ho fun he => hq (hE _ he)⟩

theorem SafeBut.of_protected (h : c.SafeBut conf (fun q => q = p)) (hp : c.Protected conf p) : c.Safe conf := by
  refine ⟨h.tracks, h.fits, h.marked, fun o ho hb _ => ?_, fun k o ho _ => ?_⟩
  · by_cases he : (c.tc.page o).physaddr = p
    · rw [he]
      exact hp
    · exact h.translated o ho hb he
  · by_cases he : (c.tc.page o).physaddr = p
    · rw [he]
      exact hp
    · exact h.linked k o ho he

theorem SafeBut.of_unused (h : c.SafeBut conf (fun q => q = p))
    (hb : ∀ o, c.tc.InChain o → (c.tc.page o).physaddr = p → (c.tc.page o).translationsBitmap = 0)
    (hl : ∀ k o, ((c.tables.flat conf.arch).slot k).physPage = some o → (c.tc.page o).physaddr ≠ p) :
    c.Safe conf :=
  ⟨h.tracks, h.fits, h.marked, fun o ho hne _ => h.translated o ho hne fun he => hne (hb o ho he),
    fun k o ho _ => h.linked k o ho (hl k o ho)⟩

theorem SafeBut.of_no_page (h : c.SafeBut conf (fun q => q = p)) (hw : c.WF conf) (hpp : c.PhysPagesOk conf)
    (hf : c.tc.find conf.arch p = none) : c.Safe conf := by
  have hne : ∀ o, c.tc.InChain o → (c.tc.page o).physaddr ≠ p := by
    intro o ho he
    have := hw.tc.inChain_find ho
    rw [he, hf] at this
    cases this
  exact h.of_unused (fun o ho he => absurd he (hne o ho)) fun k o ho => hne o (hpp k o ho).1

/-- No in-chain page of `p` has a translated instruction. -/
def CleanAt (c : Cpu) (p : Addr) : Prop := ∀ o, c.tc.InChain o → (c.tc.page o).physaddr = p → (c.tc.page o).Clean

theorem SafeBut.invalidateCode {addr : Addr} (h : c.SafeBut conf (fun q => q = conf.arch.pageAddr addr))
    (hw : c.WF conf) (hpp : c.PhysPagesOk conf)
    (hs : c.invalidateCodeTranslation conf addr invalidatePaddr = .ok c') :
    c'.Safe conf ∧ c'.CleanAt (conf.arch.pageAddr addr) := by
  have hflag : hasFlag invalidatePaddr invalidatePaddr = true := rfl
  unfold invalidateCodeTranslation at hs
  simp only [hflag, if_true] at hs
  split at hs
  · -- there is nothing to invalidate
    rename_i hf
    cases hs
    refine ⟨h.of_no_page hw hpp hf, fun o ho he => ?_⟩
    have := hw.tc.inChain_find ho
    rw [he, hf] at this
    cases this
  · rename_i ofs hf
    obtain ⟨t', ht, hs⟩ := Lib.bind_eq_ok hs
    cases hs
    obtain ⟨t'', ht', -, hm, hfl⟩ := Tables.invalidateCodeEntries_spec hw.tables (conf.arch.pageAddr addr) invalidatePaddr
    rw [ht] at ht'
    cases ht'
    obtain ⟨-, hsh, -, hphys⟩ := Vph.invalidateCodeEntries_spec hw.tables.2.1 (conf.arch.pageAddr addr) invalidatePaddr
    rw [← hfl] at hsh hphys
    have hsame := fun o => Tc.resetPage_same (a := conf.arch) c.tc ofs o
    have hin : ∀ {o}, (c.tc.resetPage conf.arch ofs).InChain o → c.tc.InChain o := fun ho =>
      Tc.inChain_of_same (Tc.resetPage_base c.tc ofs).1.symm (fun q => (hsame q).1.symm) ho
    have hclean : CleanAt { c with tc := c.tc.resetPage conf.arch ofs, tables := t' } (conf.arch.pageAddr addr) := by
      intro o ho he
      have hfo := hw.tc.inChain_find (hin ho)
      rw [(hsame o).2] at he
      rw [he, hf] at hfo
      cases hfo
      exact Tc.resetPage_clean (h.marked _ (hin ho))
    refine ⟨?_, hclean⟩
    have hreset : SafeBut conf _ { c with tc := c.tc.resetPage conf.arch ofs, tables := t' } :=
      h.resetPage hsh hm rfl
    refine hreset.of_unused (fun o ho he => (hclean o ho he).1) fun k o ho he => ?_
    -- the entry of a page that is mapped there has its address, so its `phys_page` has been dropped
    dsimp only at ho he
    rw [(hsame o).2] at he
    have ho' := (hsh.of_physPage ho).1
    have hpa := (hpp k o ho').2
    rw [hphys] at ho
    split at ho
    · cases ho
    · rename_i hnot
      apply hnot
      have h0 : ((c.tables.flat conf.arch).slot k).tlbindex ≠ 0 := by
        intro h0
        rw [hw.tables.2.1.free k h0] at ho'
        cases ho'
      have hentry := h.tracks k h0 trivial
      have hal : conf.arch.Aligned (conf.arch.pageAddr addr) := conf.arch.aligned_pageAddr addr
      have htr : c.tables.mode.trunc (conf.arch.pageAddr addr) = conf.arch.pageAddr addr := by
        rw [← he, hpa]
        exact h.fits k
      simp [Vph.hit, h0, Vph.codeSelects, hentry, ← hpa, he, conf.arch.pageAddr_of_aligned hal, htr, hasFlag,
        invalidatePaddr, invalidateVaddr, invalidateAll]

/-! ## The parts of pc_to_pointers_generic() -/

theorem Safe.ensureMapped (h : c.Safe conf) (hw : c.WF conf) {pc : Addr} {hostPage : Nat}
    (hnone : (c.tables.slotOf conf.arch pc).hostLoad = none) (hal : conf.arch.Aligned p)
    (hp : c.tables.mode = .mode32 → p ≤ 0xffffffff#64)
    (hfl : c'.tables.flat conf.arch =
      (c.tables.flat conf.arch).updated conf.arch c.tables.mode (conf.arch.pageAddr pc) hostPage 0 p)
    (hm : c'.tables.mode = c.tables.mode) (htc : c'.tc = c.tc) : c'.Safe conf := by
  refine (SafeBut.updated h hw.tables ⟨conf.arch.aligned_pageAddr pc, hal, hp⟩ ?_ hfl hm htc).mono ?_
  · intro hne
    rw [Tables.slotOf_eq, Arch.addrToPagenr_pageAddr] at hne
    rw [Tables.slotOf_eq] at hnone
    exact absurd hnone (hw.tables.2.1.loaded _ hne)
  · intro q hq
    exact hq.elim id fun hc => absurd rfl hc.2

theorem Safe.reset (h : c.Safe conf) (hw : c.WF conf) (hm : c'.tables.mode = c.tables.mode) (htc : c'.tc = c.tc.reset)
    (hfl : c'.tables.flat conf.arch = (c.tables.flat conf.arch).invalidateCodeEntries conf.arch c.tables.mode
      (conf.arch.pageAddr 0) invalidateAll) : c'.Safe conf := by
  have hsh := (Vph.invalidateCodeEntries_spec hw.tables.2.1 (conf.arch.pageAddr 0) invalidateAll).2.1
  rw [← hfl] at hsh
  refine ⟨h.tracks.shrinks hsh, hm ▸ h.fits.shrinks hsh, ?_, ?_, ?_⟩
  · intro o ho
    rw [htc] at ho
    exact absurd ho (Tc.not_inChain_reset _ o)
  · intro o ho
    rw [htc] at ho
    exact absurd ho (Tc.not_inChain_reset _ o)
  · intro k o ho
    rw [hfl, Vph.physPage_invalidateAll hw.tables.2.1] at ho
    cases ho

theorem Safe.create (h : c.Safe conf) (hw : c.WF conf) (hpp : c.PhysPagesOk conf) (hal : conf.arch.Aligned p)
    (hf : c.tc.find conf.arch p = none) (ht : c'.tables = c.tables) (htc : c'.tc = c.tc.create conf.arch p) :
    c'.Safe conf := by
  have hold := (hw.tc.create hal hf).2.2.2
  have hprot : ∀ {q}, c.Protected conf q → c'.Protected conf q := fun hq => by
    unfold Protected
    rw [ht]
    exact hq
  have hnew : ((c.tc.create conf.arch p).page c.tc.curOfs).Clean := by
    rw [Tc.create_page, Function.update_self]
    exact Tc.template_clean _ _
  refine ⟨ht ▸ h.tracks, ht ▸ h.fits, ?_, ?_, ?_⟩
  · rw [htc]
    intro o ho
    rcases hw.tc.of_inChain_create hal hf ho with rfl | ho
    · exact Tc.clean_marked hnew
    · rw [(hold o ho).2]
      exact h.marked o ho
  · rw [htc]
    intro o ho hb hE
    rcases hw.tc.of_inChain_create hal hf ho with rfl | ho
    · exact absurd hnew.1 hb
    · rw [(hold o ho).2] at hb ⊢
      exact hprot (h.translated o ho hb hE)
  · rw [htc, ht]
    intro k o ho hE
    rw [(hold o (hpp k o ho).1).2]
    exact hprot (h.linked k o ho hE)

/-- Setting `phys_page` to a translation page makes its physical page one that
can be entered quickly. -/
theorem Safe.link (h : c.Safe conf) {k ppp : Nat} (haddr : (c.tc.page ppp).physaddr = p)
    (hm : c'.tables.mode = c.tables.mode) (htc : c'.tc = c.tc)
    (hfl : c'.tables.flat conf.arch = (c.tables.flat conf.arch).setSlot k
      { (c.tables.flat conf.arch).slot k with physPage := some ppp }) :
    c'.SafeBut conf (fun q => q = p) ∧ ∀ q, c.Protected conf q → c'.Protected conf q := by
  have hslot : ∀ j, (c'.tables.flat conf.arch).slot j = if j = k then
      { (c.tables.flat conf.arch).slot k with physPage := some ppp } else (c.tables.flat conf.arch).slot j := by
    intro j
    rw [hfl, Vph.setSlot_slot]
    exact Function.update_apply _ _ _ _
  have hentry : ∀ r, (c'.tables.flat conf.arch).entry r = (c.tables.flat conf.arch).entry r := by
    intro r
    rw [hfl]
    rfl
  -- the slots differ in `phys_page` only
  have hsame : ∀ j, ((c'.tables.flat conf.arch).slot j).hostStore = ((c.tables.flat conf.arch).slot j).hostStore ∧
      ((c'.tables.flat conf.arch).slot j).physAddr = ((c.tables.flat conf.arch).slot j).physAddr ∧
      ((c'.tables.flat conf.arch).slot j).tlbindex = ((c.tables.flat conf.arch).slot j).tlbindex := by
    intro j
    rw [hslot]
    split
    · rename_i hj
      rw [hj]
      exact ⟨rfl, rfl, rfl⟩
    · exact ⟨rfl, rfl, rfl⟩
  have hprot : ∀ q, c.Protected conf q → c'.Protected conf q := by
    intro q hq j hj
    rw [(hsame j).1] at hj
    rw [(hsame j).2.1]
    exact hq j hj
  refine ⟨⟨?_, ?_, ?_, ?_, ?_⟩, hprot⟩
  · intro j hj _
    rw [(hsame j).2.2] at hj ⊢
    rw [(hsame j).2.1, hentry]
    exact h.tracks j hj trivial
  · intro j
    rw [(hsame j).2.1, hm]
    exact h.fits j
  · rw [htc]
    exact h.marked
  · rw [htc]
    exact fun o ho hb _ => hprot _ (h.translated o ho hb not_false)
  · rw [htc]
    intro j o ho hne
    rw [hslot] at ho
    split at ho
    · cases ho
      exact absurd haddr hne
    · exact hprot _ (h.linked j o ho not_false)

/-- Marking the page that has just been linked as non-writable, unless it has
translations and is protected for that reason. -/
theorem SafeBut.protect (h : c.SafeBut conf (fun q => q = p)) (hw : c.WF conf)
    (hm : c'.tables.mode = c.tables.mode) (htc : c'.tc = c.tc)
    (hcase : (c' = c ∧ c.Protected conf p) ∨ c'.tables.flat conf.arch =
      (c.tables.flat conf.arch).invalidateTranslationCaches conf.arch c.tables.mode conf.vaddrMask p
        (justMarkAsNonWritable ||| invalidatePaddr)) : c'.Safe conf ∧ c'.Protected conf p := by
  rcases hcase with ⟨rfl, hp⟩ | hfl
  · exact ⟨h.of_protected hp, hp⟩
  · have hsh := (Vph.invalidateTranslationCaches_spec hw.tables.2.1 conf.vaddrMask p
      (justMarkAsNonWritable ||| invalidatePaddr)).2.1
    rw [← hfl] at hsh
    have hp : c'.Protected conf p := by
      intro k hk he
      rw [hfl] at hk he
      exact hk (Vph.marked_nonwritable hw.tables.2.1 h.tracks h.fits trivial conf.vaddrMask he)
    exact ⟨(h.shrinks hsh hm htc).of_protected hp, hp⟩

def Entered (conf : Conf) (c : Cpu) : Prop :=
  c.tc.InChain c.curIcPage ∧ c.Protected conf (c.tc.page c.curIcPage).physaddr

theorem pointTo_safe (hs : c.Safe conf) (h : c.WF conf) (hpp : c.PhysPagesOk conf) (host : Addr → Option Nat) {pc : Addr}
    (hp : (c.tables.slotOf conf.arch pc).hostLoad = none → c.tables.mode = .mode32 →
      conf.arch.pageAddr p ≤ 0xffffffff#64)
    (hok : c.pointTo conf host pc (c.tables.l3Of conf.arch pc) p = .ok c') : c'.Safe conf ∧ c'.Entered conf := by
  have hal := conf.arch.aligned_pageAddr p
  obtain ⟨c1, c2, c3, c4, c5, ppp, hok', ⟨hw1, hm1, htc1, -, hcase1⟩, ⟨hw2, hm2, -, hcase2⟩,
    ⟨hw3, ht3, -, hin3, haddr3, hold3, hcase3⟩, ⟨hw4, hm4, htc4, -, hcase4⟩, ⟨hw5, hm5, htc5, -, hcase5⟩⟩ :=
    pointTo_parts h host hp
  rw [hok] at hok'
  cases hok'
  have hs1 : c1.Safe conf ∧ c1.PhysPagesOk conf := by
    rcases hcase1 with rfl | ⟨hnone, hostPage, -, hfl⟩
    · exact ⟨hs, hpp⟩
    · refine ⟨hs.ensureMapped h hnone hal (hp hnone) hfl hm1 htc1, fun k o ho => ?_⟩
      apply (physPagesOk_updated_iff hpp htc1 hfl).mp ?_ k o ho
      intro ⟨_, ⟨_, hne, _⟩, _⟩
      rw [Tables.slotOf_eq, ← Arch.addrToPagenr_pageAddr] at hnone
      exact h.tables.2.1.loaded _ hne hnone
  have hs2 : c2.Safe conf ∧ c2.PhysPagesOk conf := by
    rcases hcase2 with ⟨-, rfl⟩ | ⟨-, htc, hfl⟩
    · exact hs1
    · refine ⟨hs1.1.reset hw1 hm2 htc hfl, fun k o ho => ?_⟩
      rw [hfl, Vph.physPage_invalidateAll hw1.tables.2.1] at ho
      cases ho
  have hs3 : c3.Safe conf := by
    rcases hcase3 with ⟨rfl, -⟩ | ⟨hf, htc, -⟩
    · exact hs2.1
    · exact hs2.1.create hw2 hs2.2 hal hf ht3 htc
  have hs4 : c4.SafeBut conf (fun q => q = conf.arch.pageAddr p) ∧ ∀ q, c3.Protected conf q → c4.Protected conf q := by
    rcases hcase4 with rfl | ⟨-, hfl⟩
    · exact ⟨SafeBut.mono hs3 fun _ hf => hf.elim, fun _ => id⟩
    · rw [Tables.slotOf_eq] at hfl
      exact hs3.link haddr3 hm4 htc4 hfl
  have hs5 : c5.Safe conf ∧ c5.Protected conf (conf.arch.pageAddr p) := by
    apply hs4.1.protect hw4 hm5 htc5
    rcases hcase5 with ⟨he, hb⟩ | hfl
    · refine .inl ⟨he, hs4.2 _ ?_⟩
      rw [htc4] at hb
      rw [← haddr3]
      exact hs3.translated ppp hin3 hb not_false
    · exact .inr hfl
  refine ⟨⟨hs5.1.tracks, hs5.1.fits, hs5.1.marked, hs5.1.translated, hs5.1.linked⟩, ?_, ?_⟩
  · rw [htc5, htc4]
    exact hin3
  · rw [htc5, htc4, haddr3]
    exact hs5.2

/-! ## pc_to_pointers() and the calls that only invalidate -/

structure Secure (conf : Conf) (c : Cpu) : Prop where
  wf : c.WF conf
  pages : c.PhysPagesOk conf
  safe : c.Safe conf

theorem Secure.pointTo_loaded (h : c.Secure conf) {host : Addr → Option Nat} {pc : Addr}
    (hl : (c.tables.slotOf conf.arch pc).hostLoad ≠ none)
    (hok : c.pointTo conf host pc (c.tables.l3Of conf.arch pc) (c.tables.slotOf conf.arch pc).physAddr = .ok c') :
    c'.Secure conf ∧ c'.Entered conf := by
  obtain ⟨hs, he⟩ := pointTo_safe h.safe h.wf h.pages host (fun hnone => absurd hnone hl) hok
  obtain ⟨c'', hok', hw, -, -, hpp, -⟩ := Cpu.pointTo_loaded h.wf host hl
  rw [hok] at hok'
  cases hok'
  exact ⟨⟨hw, hpp h.pages, hs⟩, he⟩

theorem Secure.pointTo_translated (h : c.Secure conf) {host : Addr → Option Nat} {pc paddr : Addr}
    (hl : (c.tables.slotOf conf.arch pc).hostLoad = none)
    (hok : c.pointTo conf host pc (c.tables.l3Of conf.arch pc) (c.tables.mode.trunc paddr) = .ok c') :
    c'.Secure conf ∧ c'.Entered conf := by
  obtain ⟨hs, he⟩ := pointTo_safe h.safe h.wf h.pages host (fun _ hm => trunc_le conf.arch hm paddr) hok
  obtain ⟨c'', hok', hw, -, hpp⟩ := Cpu.pointTo_translated h.wf host hl paddr
  rw [hok] at hok'
  cases hok'
  exact ⟨⟨hw, hpp h.pages, hs⟩, he⟩

/-- A lookup that returns leaves a safe CPU in a protected page. -/
def Enters (conf : Conf) (f : Cpu → Except Exit Cpu) : Prop :=
  ∀ c c' : Cpu, c.Secure conf → f c = .ok c' → c'.Secure conf ∧ c'.Entered conf

theorem quick_enters {generic : Cpu → Except Exit Cpu} (h : Enters conf generic) : Enters conf (quick conf generic) := by
  intro c c' hc hok
  unfold quick at hok
  dsimp only at hok
  split at hok
  · -- `phys_page` is set, so the page is protected
    rename_i ppp hpp
    cases hok
    rw [Tables.slotOf_eq] at hpp
    exact ⟨⟨⟨hc.wf.tables, hc.wf.tc⟩, hc.pages, ⟨hc.safe.tracks, hc.safe.fits, hc.safe.marked, hc.safe.translated,
      hc.safe.linked⟩⟩, (hc.pages _ ppp hpp).1, hc.safe.linked _ ppp hpp not_false⟩
  · exact h c c' hc hok

theorem pcToPointersGeneric_enters (host : Addr → Option Nat) (v2p : V2p) :
    Enters conf (pcToPointersGeneric conf host v2p) := by
  induction v2p with
  | ok paddr =>
    intro c c' hc hok
    unfold pcToPointersGeneric at hok
    simp only [Tables.slotVia_l3Of] at hok
    split at hok
    · rename_i hl
      exact hc.pointTo_loaded hl hok
    · rename_i hl
      exact hc.pointTo_translated (not_not.mp hl) hok
  | exception handler nested again ih =>
    intro c c' hc hok
    unfold pcToPointersGeneric at hok
    simp only [Tables.slotVia_l3Of] at hok
    split at hok
    · rename_i hl
      exact hc.pointTo_loaded hl hok
    · obtain ⟨c1, hok1, hok⟩ := Lib.bind_eq_ok hok
      obtain ⟨hc1, -⟩ := quick_enters ih { c with pc := handler } c1
        ⟨⟨hc.wf.tables, hc.wf.tc⟩, hc.pages, ⟨hc.safe.tracks, hc.safe.fits, hc.safe.marked, hc.safe.translated,
          hc.safe.linked⟩⟩ hok1
      split at hok
      · rename_i hl
        exact hc1.pointTo_loaded hl hok
      · rename_i hl
        split at hok
        · exact hc1.pointTo_translated (not_not.mp hl) hok
        · cases hok

theorem pcToPointers_enters (host : Addr → Option Nat) (v2p : V2p) : Enters conf (pcToPointers conf host v2p) :=
  quick_enters (pcToPointersGeneric_enters host v2p)

theorem tableStep_cur {o : TableOp} (hs : c.tableStep conf o = .ok c') : c'.curIcPage = c.curIcPage := by
  cases o with
  | update v hostPage w p =>
    obtain ⟨t', -, hs⟩ := Lib.bind_eq_ok hs
    cases hs
    rfl
  | invalidate addr flags =>
    obtain ⟨t', -, hs⟩ := Lib.bind_eq_ok hs
    cases hs
    rfl
  | invalidateCode addr flags =>
    simp only [tableStep, invalidateCodeTranslation] at hs
    split at hs
    · split at hs
      · cases hs
        rfl
      · obtain ⟨t', -, hs⟩ := Lib.bind_eq_ok hs
        cases hs
        rfl
    · obtain ⟨t', -, hs⟩ := Lib.bind_eq_ok hs
      cases hs
      rfl
  | otherCpu x =>
    cases hs
    rfl

theorem Entered.shrinks (h : c.Entered conf) (hs : (c.tables.flat conf.arch).Shrinks (c'.tables.flat conf.arch))
    (hcur : c'.curIcPage = c.curIcPage)
    (hin : ∀ o, c.tc.InChain o → c'.tc.InChain o ∧ (c'.tc.page o).physaddr = (c.tc.page o).physaddr) :
    c'.Entered conf := by
  obtain ⟨h1, h2⟩ := hin _ h.1
  refine ⟨hcur ▸ h1, ?_⟩
  rw [hcur, h2]
  exact h.2.shrinks hs

theorem WF.invalidate (h : c.WF conf) (hpp : c.PhysPagesOk conf) {o : TableOp}
    (ho : ∀ v hostPage w q, o ≠ .update v hostPage w q) (hs : c.tableStep conf o = .ok c') :
    c'.WF conf ∧ c'.PhysPagesOk conf ∧ (c.Entered conf → c'.Entered conf) ∧ c'.tables.mode = c.tables.mode ∧
      (c.tables.flat conf.arch).Shrinks (c'.tables.flat conf.arch) := by
  obtain ⟨hg, hm, ⟨v, hostPage, w, q, he, -⟩ | hsh⟩ := tableStep_cases h.tables hs
  · exact absurd he (ho v hostPage w q)
  have hin := tableStep_inChain hs
  refine ⟨⟨hg, ?_⟩, hpp.shrinks hsh hin, fun he => he.shrinks hsh (tableStep_cur hs) hin, hm, hsh⟩
  rcases tableStep_tc hs with htc | ⟨_, _, ofs, -, -, htc⟩
  · rw [htc]
    exact h.tc
  · rw [htc]
    exact h.tc.resetPage ofs

theorem Secure.invalidate (h : c.Secure conf) {o : TableOp} (ho : ∀ v hostPage w q, o ≠ .update v hostPage w q)
    (hs : c.tableStep conf o = .ok c') : c'.Secure conf ∧ (c.Entered conf → c'.Entered conf) := by
  obtain ⟨hw, hpp, he, hm, hsh⟩ := h.wf.invalidate h.pages ho hs
  refine ⟨⟨hw, hpp, ?_⟩, he⟩
  rcases tableStep_tc hs with htc | ⟨_, _, ofs, -, -, htc⟩
  · exact SafeBut.shrinks h.safe hsh hm htc
  · exact SafeBut.resetPage h.safe hsh hm htc

theorem Secure.update (h : c.Secure conf) {v : Addr} {hostPage w : Nat}
    (hr : (c.tables.slotOf conf.arch v).tlbindex ≠ 0 → (c.tables.slotOf conf.arch v).physAddr = p)
    (hs : c.tableStep conf (.update v hostPage w p) = .ok c') :
    c'.WF conf ∧ c'.PhysPagesOk conf ∧ c'.SafeBut conf (fun q => q = p ∧ Vph.dataFlags w ≠ 0) ∧ c'.tc = c.tc ∧
      (c.Entered conf → ¬ ((c.tc.page c.curIcPage).physaddr = p ∧ Vph.dataFlags w ≠ 0) → c'.Entered conf) := by
  have hl := legal_of_ok hs
  obtain ⟨c'', hok, hg, hm, hfl⟩ := tableStep_spec h.wf.tables hl
  rw [hs] at hok
  cases hok
  have htc : c'.tc = c.tc := by
    rcases tableStep_tc hs with htc | ⟨_, _, _, he, -⟩
    · exact htc
    · cases he
  refine ⟨⟨hg, htc ▸ h.wf.tc⟩, ?_, (SafeBut.updated h.safe h.wf.tables hl hr hfl hm htc).mono ?_, htc, ?_⟩
  · apply (physPagesOk_updated_iff h.pages htc hfl).mp
    intro ⟨_, ⟨_, h0, hne⟩, _⟩
    rw [← Tables.slotOf_eq] at h0 hne
    exact hne (hr h0)
  · exact fun q hq => hq.elim False.elim id
  · intro he hne
    refine ⟨?_, ?_⟩
    · rw [htc, tableStep_cur hs]
      exact he.1
    · rw [htc, tableStep_cur hs]
      exact he.2.updated hfl hne

end Cpu

end Gxemul
