import Gxemul.Dyntrans.VphInvariant

/- What each table operation does, for tables that satisfy `Vph.WF`.

   Invalidations only take away: `Vph.Shrinks t t'` says that every slot of `t'`
   is either all zeroes or the slot of `t` with perhaps no `host_store` and no
   `phys_page`, and that the valid entries of `t'` are entries of `t`. An update
   evicts (which shrinks) and then writes one slot and one entry. -/
namespace Gxemul

/-! ## Shrinking -/

/-- `s'` is what invalidations can leave of `s`. -/
def Slot.Shrinks (s s' : Slot) : Prop :=
  s' = Slot.empty ∨
    (s'.tlbindex = s.tlbindex ∧ s'.hostLoad = s.hostLoad ∧ s'.physAddr = s.physAddr ∧
      (s'.hostStore = s.hostStore ∨ s'.hostStore = none) ∧ (s'.physPage = s.physPage ∨ s'.physPage = none))

/-- `e'` is what invalidations can leave of `e`. -/
def VpgTlbEntry.Shrinks (e e' : VpgTlbEntry) : Prop :=
  e'.vaddrPage = e.vaddrPage ∧ e'.paddrPage = e.paddrPage ∧ e'.hostPage = e.hostPage ∧
    (e'.valid = true → e.valid = true)

theorem Slot.Shrinks.rfl {s : Slot} : s.Shrinks s := Or.inr ⟨by rfl, by rfl, by rfl, Or.inl (by rfl), Or.inl (by rfl)⟩

theorem Slot.Shrinks.trans {s s' s'' : Slot} (h : s.Shrinks s') (h' : s'.Shrinks s'') : s.Shrinks s'' := by
  rcases h' with h' | ⟨h1, h2, h3, h4, h5⟩
  · exact Or.inl h'
  · rcases h with rfl | ⟨g1, g2, g3, g4, g5⟩
    · left
      cases s''
      simp_all [Slot.empty]
    · right
      refine ⟨h1.trans g1, h2.trans g2, h3.trans g3, ?_, ?_⟩
      · rcases h4 with h4 | h4
        · rw [h4]; exact g4
        · exact Or.inr h4
      · rcases h5 with h5 | h5
        · rw [h5]; exact g5
        · exact Or.inr h5

theorem VpgTlbEntry.Shrinks.rfl {e : VpgTlbEntry} : e.Shrinks e := ⟨by rfl, by rfl, by rfl, id⟩

theorem VpgTlbEntry.Shrinks.trans {e e' e'' : VpgTlbEntry} (h : e.Shrinks e') (h' : e'.Shrinks e'') :
    e.Shrinks e'' :=
  ⟨h'.1.trans h.1, h'.2.1.trans h.2.1, h'.2.2.1.trans h.2.2.1, fun hv => h.2.2.2 (h'.2.2.2 hv)⟩

namespace Vph

/-- `t'` is what invalidations can leave of `t`. -/
structure Shrinks (t t' : Vph) : Prop where
  slot : ∀ k, (t.slot k).Shrinks (t'.slot k)
  entry : ∀ r, (t.entry r).Shrinks (t'.entry r)

theorem Shrinks.rfl {t : Vph} : t.Shrinks t := ⟨fun _ => .rfl, fun _ => .rfl⟩

theorem Shrinks.trans {t t' t'' : Vph} (h : t.Shrinks t') (h' : t'.Shrinks t'') : t.Shrinks t'' :=
  ⟨fun k => (h.slot k).trans (h'.slot k), fun r => (h.entry r).trans (h'.entry r)⟩

section
variable {t t' : Vph} (h : t.Shrinks t')
include h

theorem Shrinks.of_used {k : Nat} (hk : (t'.slot k).tlbindex ≠ 0) :
    (t'.slot k).tlbindex = (t.slot k).tlbindex ∧ (t'.slot k).hostLoad = (t.slot k).hostLoad ∧
      (t'.slot k).physAddr = (t.slot k).physAddr := by
  rcases h.slot k with he | ⟨h1, h2, h3, _⟩
  · rw [he] at hk
    exact absurd (Eq.refl 0) hk
  · exact ⟨h1, h2, h3⟩

theorem Shrinks.of_loaded {k : Nat} (hk : (t'.slot k).hostLoad ≠ none) :
    (t'.slot k).hostLoad = (t.slot k).hostLoad ∧ (t'.slot k).physAddr = (t.slot k).physAddr := by
  rcases h.slot k with he | ⟨_, h2, h3, _⟩
  · rw [he] at hk
    exact absurd (Eq.refl none) hk
  · exact ⟨h2, h3⟩

theorem Shrinks.of_stored {k : Nat} (hk : (t'.slot k).hostStore ≠ none) :
    (t'.slot k).hostStore = (t.slot k).hostStore ∧ (t'.slot k).hostLoad = (t.slot k).hostLoad ∧
      (t'.slot k).physAddr = (t.slot k).physAddr := by
  rcases h.slot k with he | ⟨_, h2, h3, h4 | h4, _⟩
  · rw [he] at hk
    exact absurd (Eq.refl none) hk
  · exact ⟨h4, h2, h3⟩
  · exact absurd h4 hk

theorem Shrinks.of_physPage {k p : Nat} (hk : (t'.slot k).physPage = some p) :
    (t.slot k).physPage = some p ∧ (t'.slot k).hostLoad = (t.slot k).hostLoad ∧
      (t'.slot k).physAddr = (t.slot k).physAddr := by
  rcases h.slot k with he | ⟨_, h2, h3, _, h5 | h5⟩
  · rw [he] at hk
    cases hk
  · exact ⟨h5 ▸ hk, h2, h3⟩
  · rw [h5] at hk
    cases hk

end

variable {a : Arch} {mode : Mode} {t : Vph}

/-! ## The loops -/

theorem invalidatedSlot_shrinks (flags : Nat) (s : Slot) : s.Shrinks (invalidatedSlot flags s) := by
  unfold invalidatedSlot
  split
  · exact Or.inr ⟨rfl, rfl, rfl, Or.inr rfl, Or.inl rfl⟩
  · exact Or.inl rfl

theorem invalidatedEntry_shrinks (flags : Nat) (e : VpgTlbEntry) : e.Shrinks (invalidatedEntry flags e) := by
  unfold invalidatedEntry
  split
  · exact .rfl
  · exact ⟨rfl, rfl, rfl, by simp⟩

theorem forEntries_shrinks {f : Vph → Nat → Vph} {p : VpgTlbEntry → Bool} {g : Slot → Slot}
    {h : VpgTlbEntry → VpgTlbEntry} (hb : LoopBody a mode f p g h) (hw : t.WF a mode)
    (hg : ∀ s : Slot, s.Shrinks (g s)) (hh : ∀ e : VpgTlbEntry, e.Shrinks (h e)) : t.Shrinks (t.forEntries a f) := by
  obtain ⟨_, h2, h3⟩ := forEntries_spec hb hw
  refine ⟨fun k => ?_, fun r => ?_⟩
  · rw [h3]
    split
    · exact hg _
    · exact .rfl
  · rw [h2]
    split
    · exact hh _
    · exact .rfl

theorem invalidateTlbEntry_shrinks (t : Vph) (v : Addr) (flags : Nat) :
    t.Shrinks (t.invalidateTlbEntry a mode v flags) := by
  refine ⟨fun k => ?_, fun r => ?_⟩
  · rw [invalidateTlbEntry_slot]
    by_cases hk : k = a.addrToPagenr mode v
    · subst hk
      rw [Function.update_self]
      exact invalidatedSlot_shrinks flags _
    · rw [Function.update_of_ne hk]
      exact .rfl
  · rw [invalidateTlbEntry_entry]
    split
    · exact .rfl
    · by_cases hr : r = (t.slot (a.addrToPagenr mode v)).tlbindex - 1
      · rw [hr, Function.update_self]
        exact invalidatedEntry_shrinks flags _
      · rw [Function.update_of_ne hr]
        exact .rfl

theorem invalidateTlbEntry_of_entry (hw : t.WF a mode) {r : Nat} (hr : (t.entry r).valid = true)
    (flags : Nat) :
    (t.invalidateTlbEntry a mode (t.entry r).vaddrPage flags).slot =
        Function.update t.slot (t.keyOf a mode r) (invalidatedSlot flags (t.slot (t.keyOf a mode r))) ∧
      (t.invalidateTlbEntry a mode (t.entry r).vaddrPage flags).entry =
        Function.update t.entry r (invalidatedEntry flags (t.entry r)) := by
  refine ⟨invalidateTlbEntry_slot t _ flags, ?_⟩
  have hlink : (t.slot (a.addrToPagenr mode (t.entry r).vaddrPage)).tlbindex = r + 1 := hw.slot_of_entry hr
  rw [invalidateTlbEntry_entry, hlink]
  simp

theorem invalidateIf_body (p : VpgTlbEntry → Bool) (flags : Nat) :
    LoopBody a mode (invalidateIf a mode p flags) p (invalidatedSlot flags) (invalidatedEntry flags) where
  skip t r hv := by simp only [invalidateIf, hv, if_false, Bool.false_eq_true]
  slot t r hw hv := by
    simp only [invalidateIf, hv, if_true]
    exact (invalidateTlbEntry_of_entry hw (by simp at hv; exact hv.1) flags).1
  entry t r hw hv := by
    simp only [invalidateIf, hv, if_true]
    exact (invalidateTlbEntry_of_entry hw (by simp at hv; exact hv.1) flags).2
  wf t r hw hv := by
    simp only [invalidateIf, hv, if_true]
    exact hw.invalidateTlbEntry _ flags

/-- What INVALIDATE_PADDR does to an entry. -/
def invalidatedPaddrEntry (flags : Nat) (e : VpgTlbEntry) : VpgTlbEntry :=
  if hasFlag flags justMarkAsNonWritable then { e with writeflag := 0 } else { e with valid := false }

theorem invalidatedPaddrEntry_shrinks (flags : Nat) (e : VpgTlbEntry) :
    e.Shrinks (invalidatedPaddrEntry flags e) := by
  unfold invalidatedPaddrEntry
  split
  · exact ⟨rfl, rfl, rfl, id⟩
  · exact ⟨rfl, rfl, rfl, by simp⟩

theorem invalidatePaddrEntry_body (addrPage : Addr) (flags : Nat) :
    LoopBody a mode (invalidatePaddrEntry a mode addrPage flags) (fun e => addrPage == e.paddrPage)
      (invalidatedSlot flags) (invalidatedPaddrEntry flags) where
  skip t r hv := by simp only [invalidatePaddrEntry, hv, if_false, Bool.false_eq_true]
  slot t r hw hv := by
    simp only [invalidatePaddrEntry, hv, if_true]
    have h1 := (invalidateTlbEntry_of_entry hw (by simp at hv; exact hv.1) flags).1
    split <;> exact h1
  entry t r hw hv := by
    simp only [invalidatePaddrEntry, hv, if_true, invalidatedPaddrEntry]
    have h2 := (invalidateTlbEntry_of_entry hw (by simp at hv; exact hv.1) flags).2
    split <;> rename_i hj <;> simp only [setEntry_entry, h2, Function.update_idem, Function.update_self] <;>
      simp [invalidatedEntry, hj]
  wf t r hw hv := by
    have hval : (t.entry r).valid = true := by simp at hv; exact hv.1
    simp only [invalidatePaddrEntry, hv, if_true]
    have hw' := hw.invalidateTlbEntry (t.entry r).vaddrPage flags
    obtain ⟨h1, h2⟩ := invalidateTlbEntry_of_entry hw hval flags
    generalize t.invalidateTlbEntry a mode (t.entry r).vaddrPage flags = u at hw' h1 h2
    -- the last assignment to the entry changes no link: it is not valid any more, or keeps `valid`
    split <;> rename_i hj <;>
      refine hw'.of_same_links (fun _ => rfl) (fun i => ?_) (fun i => ?_) hw'.free hw'.loaded hw'.physAligned <;>
      by_cases hi : i = r <;> simp_all [invalidatedEntry]

theorem invalidateCodeEntries_body (p : VpgTlbEntry → Bool) :
    LoopBody a mode (fun t r =>
        if (t.entry r).valid && p (t.entry r) then
          t.setSlot (a.addrToPagenr mode (a.pageAddr (t.entry r).vaddrPage))
            { t.slot (a.addrToPagenr mode (a.pageAddr (t.entry r).vaddrPage)) with physPage := none }
        else t) p (fun s => { s with physPage := none }) id where
  skip t r hv := by simp only [hv, if_false, Bool.false_eq_true]
  slot t r hw hv := by
    have hal : a.pageAddr (t.entry r).vaddrPage = (t.entry r).vaddrPage :=
      a.pageAddr_of_aligned (hw.aligned r (by simp at hv; exact hv.1)).1
    simp only [hv, if_true, hal, setSlot_slot, keyOf]
  entry t r hw hv := by
    simp only [hv, if_true, setSlot_entry, id, Function.update_eq_self]
  wf t r hw hv := by
    simp only [hv, if_true]
    refine hw.set_slot rfl (fun _ => rfl) (fun _ => rfl) rfl (fun h0 => ?_) (hw.loaded _) (hw.physAligned _)
    rw [hw.free _ h0]
    rfl

/-! ## invalidate_translation_caches() and invalidate_code_translation() -/

variable (a mode) in
/-- The entries whose pages invalidate_translation_caches() invalidates. -/
def tcSelects (vaddrMask addr : Addr) (flags : Nat) (e : VpgTlbEntry) : Bool :=
  let addrPage := mode.trunc (a.pageAddr addr)
  if hasFlag flags invalidateVaddr then
    match mode with
    | .mode32 => a.addrToPagenr mode e.vaddrPage == a.addrToPagenr mode addrPage
    | .mode64 => (e.vaddrPage &&& vaddrMask) == (addrPage &&& vaddrMask)
  else if a = .ppc && hasFlag flags invalidateAll && hasFlag flags invalidateVaddrUpper4 then
    (e.vaddrPage &&& 0xf0000000#64) == addrPage
  else if hasFlag flags invalidateAll then true
  else addrPage == e.paddrPage

def tcFlags (flags : Nat) : Nat :=
  if hasFlag flags invalidateVaddr then flags else if hasFlag flags invalidateAll then 0 else flags

theorem hit_pagenr (hw : t.WF a mode) (v : Addr) (k : Nat) :
    t.hit (fun e => a.addrToPagenr mode e.vaddrPage == a.addrToPagenr mode v) k =
      (decide (k = a.addrToPagenr mode v) && (t.slot k).tlbindex != 0) := by
  unfold hit
  by_cases h0 : (t.slot k).tlbindex = 0
  · simp [h0]
  · have hkey : a.addrToPagenr mode (t.entry ((t.slot k).tlbindex - 1)).vaddrPage = k := (hw.entry_of_slot h0).2
    simp only [hkey]
    by_cases hk : k = a.addrToPagenr mode v <;> simp [h0, hk]

theorem invalidateTranslationCaches_spec (hw : t.WF a mode) (vaddrMask addr : Addr) (flags : Nat) :
    (t.invalidateTranslationCaches a mode vaddrMask addr flags).WF a mode ∧
    t.Shrinks (t.invalidateTranslationCaches a mode vaddrMask addr flags) ∧
    ∀ k, (t.invalidateTranslationCaches a mode vaddrMask addr flags).slot k =
      if t.hit (tcSelects a mode vaddrMask addr flags) k then invalidatedSlot (tcFlags flags) (t.slot k)
      else t.slot k := by
  have hloop : ∀ p fl, (t.forEntries a (invalidateIf a mode p fl)).WF a mode ∧
      t.Shrinks (t.forEntries a (invalidateIf a mode p fl)) ∧
      ∀ k, (t.forEntries a (invalidateIf a mode p fl)).slot k =
        if t.hit p k then invalidatedSlot fl (t.slot k) else t.slot k := fun p fl =>
    have hb := @invalidateIf_body a mode p fl
    ⟨(forEntries_spec hb hw).1,
      forEntries_shrinks hb hw (invalidatedSlot_shrinks fl) (invalidatedEntry_shrinks fl),
      (forEntries_spec hb hw).2.2⟩
  unfold invalidateTranslationCaches tcSelects tcFlags
  by_cases hv : hasFlag flags invalidateVaddr = true
  · simp only [hv, if_true]
    cases mode with
    | mode32 =>
      refine ⟨hw.invalidateTlbEntry _ flags, invalidateTlbEntry_shrinks t _ flags, fun k => ?_⟩
      rw [invalidateTlbEntry_slot, hit_pagenr hw]
      by_cases hk : k = a.addrToPagenr .mode32 (Mode.mode32.trunc (a.pageAddr addr))
      · rw [← hk, Function.update_self]
        by_cases h0 : (t.slot k).tlbindex = 0
        · rw [hw.free k h0]
          simp [Slot.empty, invalidatedSlot]
        · simp [h0]
      · rw [Function.update_of_ne hk]
        simp [hk]
    | mode64 => exact hloop _ flags
  · simp only [hv, if_false, Bool.false_eq_true]
    by_cases ha : hasFlag flags invalidateAll = true
    · split
      · exact hloop _ 0
      · exact hloop _ 0
    · have hp : (decide (a = .ppc) && false && hasFlag flags invalidateVaddrUpper4) = false := by simp
      simp only [ha, hp, if_false, Bool.false_eq_true]
      have hb := @invalidatePaddrEntry_body a mode (mode.trunc (a.pageAddr addr)) flags
      exact ⟨(forEntries_spec hb hw).1,
        forEntries_shrinks hb hw (invalidatedSlot_shrinks flags) (invalidatedPaddrEntry_shrinks flags),
        (forEntries_spec hb hw).2.2⟩

variable (a mode) in
/-- The entries whose pages lose their `phys_page`. -/
def codeSelects (addr : Addr) (flags : Nat) (e : VpgTlbEntry) : Bool :=
  hasFlag flags invalidateAll ||
    (hasFlag flags invalidatePaddr && (mode.trunc (a.pageAddr e.paddrPage) == addr)) ||
    (hasFlag flags invalidateVaddr && (mode.trunc (a.pageAddr e.vaddrPage) == addr))

theorem invalidateCodeEntries_spec (hw : t.WF a mode) (addr : Addr) (flags : Nat) :
    (t.invalidateCodeEntries a mode addr flags).WF a mode ∧
    t.Shrinks (t.invalidateCodeEntries a mode addr flags) ∧
    (t.invalidateCodeEntries a mode addr flags).entry = t.entry ∧
    ∀ k, (t.invalidateCodeEntries a mode addr flags).slot k =
      if t.hit (codeSelects a mode addr flags) k then { t.slot k with physPage := none } else t.slot k := by
  have hb := @invalidateCodeEntries_body a mode (codeSelects a mode addr flags)
  obtain ⟨h1, h2, h3⟩ := forEntries_spec hb hw
  refine ⟨h1, forEntries_shrinks hb hw (fun s => ?_) (fun e => .rfl), ?_, h3⟩
  · exact Or.inr ⟨rfl, rfl, rfl, Or.inl rfl, Or.inr rfl⟩
  · funext r
    refine (h2 r).trans ?_
    simp

/-! ## update_translation_table() -/

theorem WF.of_eq (hw : t.WF a mode) {t' : Vph} (hs : t'.slot = t.slot) (he : t'.entry = t.entry) :
    t'.WF a mode := by
  refine hw.of_same_links ?_ ?_ ?_ ?_ ?_ ?_ <;> simp only [hs, he, implies_true]
  · exact hw.free
  · exact hw.loaded
  · exact hw.physAligned

theorem evict_spec (hw : t.WF a mode) :
    (t.evict a mode).2 = t.x % a.maxVphTlbEntries ∧
    (t.evict a mode).1.WF a mode ∧
    ((t.evict a mode).1.entry (t.evict a mode).2).valid = false ∧
    (∀ k, ((t.evict a mode).1.slot k = t.slot k ∨ (t.slot k).tlbindex = (t.evict a mode).2 + 1)) ∧
    ∀ r, r ≠ (t.evict a mode).2 → (t.evict a mode).1.entry r = t.entry r := by
  unfold evict
  by_cases hv : (t.entry (t.x % a.maxVphTlbEntries)).valid = true
  · simp only [hv, if_true]
    have hw' : Vph.WF a mode { t with x := (t.x + 1) % 2 ^ 32 } := hw.of_eq rfl rfl
    have hs := invalidateTlbEntry_of_entry hw' hv 0
    refine ⟨trivial, hw'.invalidateTlbEntry _ 0, ?_, ?_, ?_⟩
    · rw [hs.2]
      simp [invalidatedEntry, hasFlag]
    · intro k
      rw [hs.1]
      by_cases hk : k = Vph.keyOf a mode { t with x := (t.x + 1) % 2 ^ 32 } (t.x % a.maxVphTlbEntries)
      · right
        rw [hk]
        exact hw'.slot_of_entry hv
      · left
        rw [Function.update_of_ne hk]
    · intro r hr
      rw [hs.2, Function.update_of_ne hr]
  · simp only [hv, if_false, Bool.false_eq_true]
    exact ⟨trivial, hw.of_eq rfl rfl, trivial, fun _ => Or.inl trivial,
      fun _ _ => trivial⟩

def insertedSlot (r hostPage writeflag : Nat) (paddrPage : Addr) : Slot :=
  ⟨some hostPage, if writeflag ≠ 0 then some hostPage else none, paddrPage, none, r + 1⟩

theorem insertPage_slot (t : Vph) (v : Addr) (hostPage writeflag : Nat) (ua : Bool) (p : Addr) :
    (t.insertPage a mode v hostPage writeflag ua p).slot = Function.update (t.evict a mode).1.slot
      (a.addrToPagenr mode v) (insertedSlot (t.evict a mode).2 hostPage writeflag p) := by
  have hr : ((t.evict a mode).2 + 1) % 2 ^ a.tlbindexBits = (t.evict a mode).2 + 1 := by
    have h1 : (t.evict a mode).2 < a.maxVphTlbEntries := by
      unfold evict
      dsimp only
      split <;> exact Nat.mod_lt _ a.maxVphTlbEntries_pos
    have h2 := a.maxVphTlbEntries_lt
    exact Nat.mod_eq_of_lt (by omega)
  unfold insertPage insertedSlot
  simp only [hr]
  split <;> rfl

theorem insertPage_entry (t : Vph) (v : Addr) (hostPage writeflag : Nat) (ua : Bool) (p : Addr) :
    (t.insertPage a mode v hostPage writeflag ua p).entry = Function.update (t.evict a mode).1.entry
      (t.evict a mode).2 ⟨true, writeflag &&& memWrite, v, p, some hostPage⟩ := by
  unfold insertPage
  dsimp only
  split <;> rfl

theorem WF.insert (hw : t.WF a mode) {t' : Vph} {r : Nat} {v : Addr} {s : Slot} {e : VpgTlbEntry}
    (hs : t'.slot = Function.update t.slot (a.addrToPagenr mode v) s) (he : t'.entry = Function.update t.entry r e)
    (hfree : (t.slot (a.addrToPagenr mode v)).tlbindex = 0) (hr : (t.entry r).valid = false)
    (hmax : r < a.maxVphTlbEntries) (hsi : s.tlbindex = r + 1) (hsl : s.hostLoad ≠ none)
    (hsp : a.Aligned s.physAddr) (hev : e.valid = true) (hea : e.vaddrPage = v) (hv : a.Aligned v)
    (ht : mode.trunc v = v) : t'.WF a mode where
  linked := by
    have hk : t'.keyOf a mode = Function.update (t.keyOf a mode) r (a.addrToPagenr mode v) := by
      funext i
      unfold keyOf
      rw [he]
      by_cases hi : i = r
      · subst hi; simp [hea]
      · simp [Function.update_of_ne hi]
    have hp : (fun i => (t'.slot i).tlbindex) =
        Function.update (fun i => (t.slot i).tlbindex) (a.addrToPagenr mode v) (r + 1) := by
      funext i
      rw [hs]
      by_cases hi : i = a.addrToPagenr mode v
      · rw [hi]; simp [hsi]
      · simp [Function.update_of_ne hi]
    have hvalid : (fun i => (t'.entry i).valid = true) = fun i => i = r ∨ (t.entry i).valid = true := by
      funext i
      rw [he]
      by_cases hi : i = r
      · subst hi; simp [hev]
      · simp [hi]
    rw [hp, hk, hvalid]
    exact hw.linked.link hfree (by simp [hr])
  bounded i hi := by
    rw [he] at hi
    by_cases h : i = r
    · subst h; exact hmax
    · rw [Function.update_of_ne h] at hi
      exact hw.bounded i hi
  aligned i hi := by
    rw [he] at hi ⊢
    by_cases h : i = r
    · subst h
      rw [Function.update_self, hea]
      exact ⟨hv, ht⟩
    · rw [Function.update_of_ne h] at hi ⊢
      exact hw.aligned i hi
  free i hi := by
    rw [hs] at hi ⊢
    by_cases h : i = a.addrToPagenr mode v
    · rw [h, Function.update_self, hsi] at hi
      omega
    · rw [Function.update_of_ne h] at hi ⊢
      exact hw.free i hi
  loaded i hi := by
    rw [hs] at hi ⊢
    by_cases h : i = a.addrToPagenr mode v
    · rw [h, Function.update_self]
      exact hsl
    · rw [Function.update_of_ne h] at hi ⊢
      exact hw.loaded i hi
  physAligned i := by
    rw [hs]
    by_cases h : i = a.addrToPagenr mode v
    · rw [h, Function.update_self]
      exact hsp
    · rw [Function.update_of_ne h]
      exact hw.physAligned i

theorem evict_shrinks (t : Vph) : t.Shrinks (t.evict a mode).1 := by
  unfold evict
  dsimp only
  split
  · have hx : t.Shrinks { t with x := (t.x + 1) % 2 ^ 32 } := ⟨fun _ => .rfl, fun _ => .rfl⟩
    exact hx.trans (invalidateTlbEntry_shrinks _ _ 0)
  · exact ⟨fun _ => .rfl, fun _ => .rfl⟩

theorem evict_free {k : Nat} (hk : (t.slot k).tlbindex = 0) :
    ((t.evict a mode).1.slot k).tlbindex = 0 := by
  rcases (evict_shrinks t).slot k with he | ⟨h1, _⟩
  · rw [he]
    rfl
  · rw [h1, hk]

theorem WF.insertPage (hw : t.WF a mode) {v p : Addr} (hostPage writeflag : Nat) (ua : Bool)
    (hfree : (t.slot (a.addrToPagenr mode v)).tlbindex = 0) (hv : a.Aligned v) (ht : mode.trunc v = v)
    (hp : a.Aligned p) : (t.insertPage a mode v hostPage writeflag ua p).WF a mode := by
  obtain ⟨hr, hwe, hval, _⟩ := evict_spec hw
  refine hwe.insert (insertPage_slot t v hostPage writeflag ua p) (insertPage_entry t v hostPage writeflag ua p)
    (evict_free hfree) hval ?_ rfl ?_ hp rfl rfl hv ht
  · rw [hr]
    exact Nat.mod_lt _ a.maxVphTlbEntries_pos
  · simp [insertedSlot]

theorem updatePage_slot (t : Vph) (r : Nat) (v : Addr) (hostPage writeflag : Nat) (ua : Bool) (p : Addr) :
    (t.updatePage a mode r v hostPage writeflag ua p).slot = Function.update t.slot (a.addrToPagenr mode v)
      (updatedSlot mode (t.slot (a.addrToPagenr mode v)) hostPage writeflag p) := by
  unfold updatePage
  split <;> rfl

theorem updatePage_entry (t : Vph) (r : Nat) (v : Addr) (hostPage writeflag : Nat) (ua : Bool) (p : Addr) :
    (t.updatePage a mode r v hostPage writeflag ua p).entry =
      Function.update t.entry r (updatedEntry (t.entry r) writeflag) := by
  unfold updatePage
  split <;> rfl

@[simp] theorem updatedEntry_same (e : VpgTlbEntry) (w : Nat) :
    (updatedEntry e w).valid = e.valid ∧ (updatedEntry e w).vaddrPage = e.vaddrPage ∧
      (updatedEntry e w).paddrPage = e.paddrPage ∧ (updatedEntry e w).hostPage = e.hostPage := by
  unfold updatedEntry
  split <;> split <;> simp

theorem updatedSlot_tlbindex (s : Slot) (hostPage w : Nat) (p : Addr) :
    (updatedSlot mode s hostPage w p).tlbindex = s.tlbindex := by
  unfold updatedSlot
  cases mode <;> dsimp only <;> split <;> (try split) <;> (try split) <;> rfl

theorem updatedSlot_physAddr (s : Slot) (hostPage w : Nat) (p : Addr) :
    (updatedSlot mode s hostPage w p).physAddr = p := by
  unfold updatedSlot
  cases mode <;> dsimp only <;> split <;> (try split) <;> (try split) <;> first | rfl | assumption

theorem updatedSlot_hostLoad (s : Slot) (hostPage w : Nat) (p : Addr) :
    (updatedSlot mode s hostPage w p).hostLoad = if s.physAddr = p then s.hostLoad else some hostPage := by
  unfold updatedSlot
  cases mode <;> dsimp only <;> split <;> (try split) <;> (try split) <;> rfl

theorem WF.updatePage (hw : t.WF a mode) {v p : Addr} (r hostPage writeflag : Nat) (ua : Bool)
    (hused : (t.slot (a.addrToPagenr mode v)).tlbindex ≠ 0) (hp : a.Aligned p) :
    (t.updatePage a mode r v hostPage writeflag ua p).WF a mode := by
  have hsame : ∀ i, ((t.updatePage a mode r v hostPage writeflag ua p).entry i).valid = (t.entry i).valid ∧
      ((t.updatePage a mode r v hostPage writeflag ua p).entry i).vaddrPage = (t.entry i).vaddrPage := by
    intro i
    rw [updatePage_entry]
    by_cases hi : i = r
    · subst hi; simp
    · simp [Function.update_of_ne hi]
  refine hw.set_slot (updatePage_slot t r v hostPage writeflag ua p) (fun i => (hsame i).1) (fun i => (hsame i).2)
    (updatedSlot_tlbindex _ _ _ _) (fun h0 => absurd h0 hused) (fun _ => ?_) ?_
  · rw [updatedSlot_hostLoad]
    split
    · exact hw.loaded _ hused
    · simp
  · rw [updatedSlot_physAddr]
    exact hp

end Vph

theorem Arch.aligned_trunc (a : Arch) (mode : Mode) {v : Addr} (h : a.Aligned v) : a.Aligned (mode.trunc v) := by
  cases mode
  · unfold Arch.Aligned Mode.trunc
    have h' : v &&& a.offsetMask = 0 := h
    rw [BitVec.and_assoc, BitVec.and_comm 0xffffffff#64, ← BitVec.and_assoc, h']
    simp
  · exact h

theorem Arch.aligned_of_trunc (a : Arch) (mode : Mode) {v : Addr} (h : a.Aligned (mode.trunc v)) : a.Aligned v := by
  cases mode
  · unfold Arch.Aligned Mode.trunc at h
    rw [BitVec.and_assoc] at h
    cases a <;> exact h
  · exact h

namespace Vph
variable {a : Arch} {mode : Mode} {t : Vph}

/-- The addresses update_translation_table() accepts: page-aligned, and below
4 GB for a physical address in the 32-bit tables. -/
def Accepts (a : Arch) (mode : Mode) (v p : Addr) : Prop :=
  a.Aligned v ∧ a.Aligned p ∧ (mode = .mode32 → p ≤ 0xffffffff#64)

instance (v p : Addr) : Decidable (Accepts a mode v p) := inferInstanceAs (Decidable (_ ∧ _ ∧ (_ → _)))

def updated (a : Arch) (mode : Mode) (t : Vph) (v : Addr) (hostPage writeflag : Nat) (p : Addr) : Vph :=
  let ua := hasFlag writeflag memoryUserAccess
  let found := (t.slot (a.addrToPagenr mode v)).tlbindex
  if a = .m88k ∧ ua then t
  else if found = 0 then t.insertPage a mode (mode.trunc v) hostPage (dataFlags writeflag) ua p
  else t.updatePage a mode (found - 1) (mode.trunc v) hostPage (dataFlags writeflag) ua p

theorem updateTranslationTable_eq {v p : Addr} (h : Accepts a mode v p) (hostPage writeflag : Nat) :
    t.updateTranslationTable a mode v hostPage writeflag p = .ok (t.updated a mode v hostPage writeflag p) := by
  obtain ⟨hv, hp, hb⟩ := h
  have h1 : ¬ (mode = .mode32 ∧ 0xffffffff#64 < p) := fun hc => absurd hc.2 (BitVec.not_lt.mpr (hb hc.1))
  have h2 : ¬ (¬ a.Aligned (mode.trunc v) ∨ ¬ a.Aligned p) := by
    simp [a.aligned_trunc mode hv, hp]
  unfold updateTranslationTable updated
  rw [if_neg h1, if_neg h2]
  simp only [Arch.addrToPagenr_trunc]
  split
  · rfl
  · split <;> rfl

theorem WF.updated (hw : t.WF a mode) {v p : Addr} (h : Accepts a mode v p) (hostPage writeflag : Nat) :
    (t.updated a mode v hostPage writeflag p).WF a mode := by
  unfold Vph.updated
  dsimp only
  split
  · exact hw
  · split <;> rename_i h0 <;> rw [← Arch.addrToPagenr_trunc] at h0
    · exact hw.insertPage hostPage _ _ h0 (a.aligned_trunc mode h.1) (mode.trunc_trunc v) h.2.1
    · exact hw.updatePage _ hostPage _ _ h0 h.2.1

theorem accepts_of_ok {v p : Addr} {hostPage writeflag : Nat} {t' : Vph}
    (h : t.updateTranslationTable a mode v hostPage writeflag p = .ok t') : Accepts a mode v p := by
  unfold updateTranslationTable at h
  dsimp only at h
  split at h
  · cases h
  split at h
  · cases h
  rename_i h1 h2
  rw [not_or, not_not, not_not] at h2
  refine ⟨a.aligned_of_trunc mode h2.1, h2.2, fun hm => BitVec.not_lt.mp fun hlt => h1 ⟨hm, hlt⟩⟩

def Ignored (a : Arch) (writeflag : Nat) : Prop := a = .m88k ∧ hasFlag writeflag memoryUserAccess = true

instance (a : Arch) (writeflag : Nat) : Decidable (Ignored a writeflag) := inferInstanceAs (Decidable (_ ∧ _))

theorem updated_slot_self (mode : Mode) (t : Vph) (v : Addr) (hostPage : Nat) {writeflag : Nat} (p : Addr)
    (hm : ¬ Ignored a writeflag) :
    (t.updated a mode v hostPage writeflag p).slot (a.addrToPagenr mode v) =
      if (t.slot (a.addrToPagenr mode v)).tlbindex = 0 then
        insertedSlot (t.evict a mode).2 hostPage (dataFlags writeflag) p
      else updatedSlot mode (t.slot (a.addrToPagenr mode v)) hostPage (dataFlags writeflag) p := by
  unfold updated
  rw [if_neg (show ¬ (a = .m88k ∧ hasFlag writeflag memoryUserAccess = true) from hm)]
  split
  · rw [insertPage_slot, Arch.addrToPagenr_trunc, Function.update_self]
  · rw [updatePage_slot, Arch.addrToPagenr_trunc, Function.update_self]

theorem updated_loaded (hw : t.WF a mode) (v : Addr) (hostPage : Nat) {writeflag : Nat} (p : Addr)
    (hm : ¬ Ignored a writeflag) :
    ((t.updated a mode v hostPage writeflag p).slot (a.addrToPagenr mode v)).hostLoad ≠ none := by
  rw [updated_slot_self mode t v hostPage p hm]
  split
  · simp [insertedSlot]
  · rename_i h0
    rw [updatedSlot_hostLoad]
    split
    · exact hw.loaded _ h0
    · simp

theorem updated_slot_other (mode : Mode) (t : Vph) (v : Addr) (hostPage writeflag : Nat) (p : Addr) {k : Nat}
    (hk : k ≠ a.addrToPagenr mode v) : (t.slot k).Shrinks ((t.updated a mode v hostPage writeflag p).slot k) := by
  unfold updated
  dsimp only
  split
  · exact .rfl
  · split
    · rw [insertPage_slot, Arch.addrToPagenr_trunc, Function.update_of_ne hk]
      exact (evict_shrinks t).slot k
    · rw [updatePage_slot, Arch.addrToPagenr_trunc, Function.update_of_ne hk]
      exact .rfl

theorem updated_of_ignored (t : Vph) (v : Addr) (hostPage : Nat) {writeflag : Nat} (p : Addr)
    (hm : Ignored a writeflag) : t.updated a mode v hostPage writeflag p = t := by
  exact if_pos hm

theorem updatedEntry_shrinks (e : VpgTlbEntry) (w : Nat) : e.Shrinks (updatedEntry e w) := by
  obtain ⟨h1, h2, h3, h4⟩ := updatedEntry_same e w
  exact ⟨h2, h3, h4, fun h => h1 ▸ h⟩

theorem updated_entry (mode : Mode) (t : Vph) (v : Addr) (hostPage writeflag : Nat) (p : Addr) (r : Nat) :
    (t.entry r).Shrinks ((t.updated a mode v hostPage writeflag p).entry r) ∨
      ¬ Ignored a writeflag ∧ (t.updated a mode v hostPage writeflag p).entry r =
        ⟨true, dataFlags writeflag &&& memWrite, mode.trunc v, p, some hostPage⟩ := by
  by_cases hm : Ignored a writeflag
  · rw [updated_of_ignored t v hostPage p hm]
    exact .inl .rfl
  unfold updated
  rw [if_neg (show ¬ (a = .m88k ∧ hasFlag writeflag memoryUserAccess = true) from hm)]
  split
  · rw [insertPage_entry]
    by_cases hr : r = (t.evict a mode).2
    · subst hr
      rw [Function.update_self]
      exact .inr ⟨hm, rfl⟩
    · rw [Function.update_of_ne hr]
      exact .inl ((evict_shrinks t).entry r)
  · rw [updatePage_entry]
    by_cases hr : r = (t.slot (a.addrToPagenr mode v)).tlbindex - 1
    · rw [hr, Function.update_self]
      exact .inl (updatedEntry_shrinks _ _)
    · rw [Function.update_of_ne hr]
      exact .inl .rfl

end Vph

end Gxemul
