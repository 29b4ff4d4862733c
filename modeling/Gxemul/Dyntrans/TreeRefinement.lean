import Gxemul.Lib.Run
import Gxemul.Dyntrans.TreeInvariant

/- The 64-bit tables refine the flat ones. `Tree.flat` reads a slot for every
   page number through the three levels. Each operation on a tree that satisfies
   the invariant succeeds, keeps the invariant, and does to the flat tables what
   the flat operation does. -/
namespace Gxemul

/-! ## Indices of a page number -/

namespace Arch
variable (a : Arch)

def i1 (k : Nat) : Nat := k / 2 ^ (l2n + a.l3n) % 2 ^ l1n
def i2 (k : Nat) : Nat := k / 2 ^ a.l3n % 2 ^ l2n
def i3 (k : Nat) : Nat := k % 2 ^ a.l3n

theorem x1_eq (v : Addr) : a.x1 v = a.i1 (a.addrToPagenr .mode64 v) := by
  unfold x1 i1 addrToPagenr
  rw [Nat.and_two_pow_sub_one_eq_mod, Nat.shiftRight_eq_div_pow, Nat.shiftRight_eq_div_pow,
    Nat.div_div_eq_div_mul, ← Nat.pow_add]
  cases a <;> rfl

theorem x2_eq (v : Addr) : a.x2 v = a.i2 (a.addrToPagenr .mode64 v) := by
  unfold x2 i2 addrToPagenr
  rw [Nat.and_two_pow_sub_one_eq_mod, Nat.shiftRight_eq_div_pow, Nat.shiftRight_eq_div_pow,
    Nat.div_div_eq_div_mul, ← Nat.pow_add]
  cases a <;> rfl

theorem x3_eq (v : Addr) : a.x3 v = a.i3 (a.addrToPagenr .mode64 v) := by
  unfold x3 i3 addrToPagenr
  rw [Nat.and_two_pow_sub_one_eq_mod, Nat.shiftRight_eq_div_pow, Nat.shiftRight_eq_div_pow]
  cases a <;> rfl

theorem x2_lt (v : Addr) : a.x2 v < 2 ^ l2n := by
  rw [x2_eq]
  exact Nat.mod_lt _ (Nat.two_pow_pos _)

theorem x3_lt (v : Addr) : a.x3 v < 2 ^ a.l3n := by
  rw [x3_eq]
  exact Nat.mod_lt _ (Nat.two_pow_pos _)

theorem pagenr_lt (v : Addr) : a.addrToPagenr .mode64 v < 2 ^ (64 - a.pageShift) := by
  unfold addrToPagenr Mode.trunc
  rw [Nat.shiftRight_eq_div_pow]
  cases a <;> simp only [pageShift] <;> omega

theorem index_inj {k k' : Nat} (hk : k < 2 ^ (64 - a.pageShift)) (hk' : k' < 2 ^ (64 - a.pageShift))
    (h1 : a.i1 k = a.i1 k') (h2 : a.i2 k = a.i2 k') (h3 : a.i3 k = a.i3 k') : k = k' := by
  unfold i1 at h1
  unfold i2 at h2
  unfold i3 at h3
  cases a <;> simp only [pageShift, l1n, l2n, l3n] at * <;> omega

end Arch

namespace Tree
variable {a : Arch} {t : Tree} {free2 free3 : List Nat}

variable (a) in
def Good (t : Tree) : Prop := ∃ free2 free3, t.Inv a free2 free3

variable (a) in
def flat (t : Tree) : Vph where
  slot k := if k < 2 ^ (64 - a.pageShift) then t.slotAt (a.i1 k) (a.i2 k) (a.i3 k) else Slot.empty
  entry := t.entry
  isUserpage _ := false
  x := t.x

theorem flat_init (x : Nat) : (Tree.init x).flat a = Vph.init x := by
  ext1
  · funext k
    simp [flat, slotAt, path, Tree.init, Vph.init]
  · rfl
  · rfl
  · rfl

theorem flat_pagenr (t : Tree) (v : Addr) :
    (t.flat a).slot (a.addrToPagenr .mode64 v) = t.slotAt (a.x1 v) (a.x2 v) (a.x3 v) := by
  simp only [flat, a.pagenr_lt v, if_true, a.x1_eq, a.x2_eq, a.x3_eq]

theorem flat_slot_update {t' : Tree} {v : Addr} {s : Slot}
    (hs : ∀ y1 y2 y3, t'.slotAt y1 y2 y3 =
      if y1 = a.x1 v ∧ y2 = a.x2 v ∧ y3 = a.x3 v then s else t.slotAt y1 y2 y3) :
    (t'.flat a).slot = Function.update (t.flat a).slot (a.addrToPagenr .mode64 v) s := by
  funext k
  by_cases hk : k = a.addrToPagenr .mode64 v
  · rw [hk, Function.update_self, flat_pagenr, hs]
    simp
  · rw [Function.update_of_ne hk]
    simp only [flat]
    split
    · rename_i hlt
      rw [hs, if_neg]
      rintro ⟨h1, h2, h3⟩
      rw [a.x1_eq] at h1
      rw [a.x2_eq] at h2
      rw [a.x3_eq] at h3
      exact hk (a.index_inj hlt (a.pagenr_lt v) h1 h2 h3)
    · rfl

theorem flat_slot_eq {t' : Tree} (hs : ∀ y1 y2 y3, t'.slotAt y1 y2 y3 = t.slotAt y1 y2 y3) :
    (t'.flat a).slot = (t.flat a).slot := by
  funext k
  simp only [flat, hs]

/-! ## invalidate_tlb_entry() -/

/-- The paths stay, except for one that may now end in the dummy: its L3 table
is the first one on the free list. -/
def KeepsPaths (t t' : Tree) : Prop :=
  ∀ y1 y2, t'.path y1 y2 = t.path y1 y2 ∨ (t'.path y1 y2 = l3Dummy ∧ t'.nextFreeL3 = t.path y1 y2)

theorem releaseTables_spec (h : t.Inv a free2 free3) (x1 x2 : Nat) (hq : t.path x1 x2 ≠ l3Dummy)
    (hx : x2 < 2 ^ l2n) :
    ∃ t', t.releaseTables x1 (t.l1 x1) x2 (t.path x1 x2) = .ok t' ∧ t'.Good a ∧
      (∀ y1 y2 y3, t'.slotAt y1 y2 y3 = t.slotAt y1 y2 y3) ∧ t.KeepsPaths t' ∧ t'.entry = t.entry ∧ t'.x = t.x := by
  have hge : ¬ (t.l3 (t.path x1 x2)).refcount < 0 := by
    rw [h.count3]
    omega
  unfold releaseTables
  rw [if_neg hge]
  by_cases h0 : (t.l3 (t.path x1 x2)).refcount = 0
  · rw [if_pos h0]
    obtain ⟨t1, ht1⟩ : ∃ t1, t1 = ((t.pushFreeL3 (t.path x1 x2)).setL2Slot (t.l1 x1) x2
      l3Dummy).addRefcountL2 (t.l1 x1) (-1) := ⟨_, rfl⟩
    obtain ⟨hi, hpath1, hslot⟩ := h.release_l3 hq hx h0 ht1
    have hkeep : t.KeepsPaths t1 := by
      intro y1 y2
      rw [hpath1]
      by_cases hy : y1 = x1 ∧ y2 = x2
      · rw [if_pos hy, hy.1, hy.2, ht1]
        exact Or.inr ⟨rfl, rfl⟩
      · rw [if_neg hy]
        exact Or.inl rfl
    have hl1 : t1.l1 x1 = t.l1 x1 := by rw [ht1]; rfl
    have hentry : t1.entry = t.entry ∧ t1.x = t.x := by rw [ht1]; exact ⟨rfl, rfl⟩
    have hge2 : ¬ (t1.l2 (t.l1 x1)).refcount < 0 := by
      rw [hi.count2]
      omega
    simp only [← ht1, if_neg hge2]
    split
    · rename_i h2
      rw [← hl1] at h2 ⊢
      have hp : t1.l1 x1 ≠ l2Dummy := by
        rw [hl1]
        exact h.l1_of_path hq
      obtain ⟨hi', hpath, hl3⟩ := hi.release_l2 hp h2 rfl
      refine ⟨_, rfl, ⟨_, _, hi'⟩, fun y1 y2 y3 => ?_, fun y1 y2 => ?_, hentry.1, hentry.2⟩
      · rw [← hslot]
        unfold slotAt
        rw [hpath, hl3]
      · rw [hpath]
        exact hkeep y1 y2
    · exact ⟨t1, rfl, ⟨_, _, hi⟩, hslot, hkeep, hentry.1, hentry.2⟩
  · rw [if_neg h0]
    exact ⟨t, rfl, ⟨_, _, h⟩, fun _ _ _ => rfl, fun _ _ => Or.inl rfl, rfl, rfl⟩

theorem clearSlot_eq (t : Tree) (l3 x3 : Nat) :
    t.clearSlot l3 x3 =
      { t.setL3 l3 { t.l3 l3 with
          slot := Function.update (t.l3 l3).slot x3 Slot.empty
          refcount := (t.l3 l3).refcount + (if ((t.l3 l3).slot x3).tlbindex ≠ 0 then -1 else 0) } with
        entry := if ((t.l3 l3).slot x3).tlbindex = 0 then t.entry
          else Function.update t.entry (((t.l3 l3).slot x3).tlbindex - 1)
            { t.entry (((t.l3 l3).slot x3).tlbindex - 1) with valid := false } } := by
  unfold clearSlot
  by_cases h0 : ((t.l3 l3).slot x3).tlbindex = 0
  · simp [h0, setSlot, setL3]
  · simp [h0, setSlot, setL3, setEntry, addRefcountL3, Function.update_idem]

theorem invalidateTlbEntry_sim (ha : a ≠ .arm) (h : t.Good a) (v : Addr) (flags : Nat) :
    ∃ t', t.invalidateTlbEntry a v flags = .ok t' ∧ t'.Good a ∧
      t'.flat a = (t.flat a).invalidateTlbEntry a .mode64 v flags ∧ t.KeepsPaths t' := by
  obtain ⟨free2, free3, h⟩ := h
  have hx : ((t.flat a).invalidateTlbEntry a .mode64 v flags).x = t.x ∧
      ((t.flat a).invalidateTlbEntry a .mode64 v flags).isUserpage = fun _ => false := by
    unfold Vph.invalidateTlbEntry
    simp only [ha, if_false]
    split
    · exact ⟨rfl, rfl⟩
    · split <;> exact ⟨rfl, rfl⟩
  unfold invalidateTlbEntry
  by_cases hd : t.path (a.x1 v) (a.x2 v) = l3Dummy
  · -- the page has no L3 table: nothing happens, and its flat slot is empty
    have hok : t.invalidateTlbEntry a v flags = .ok t := by
      unfold invalidateTlbEntry
      have hd' : (t.l2 (t.l1 (a.x1 v))).l3 (a.x2 v) = l3Dummy := hd
      simp [hd']
    refine ⟨t, hok, ⟨_, _, h⟩, ?_, fun _ _ => Or.inl rfl⟩
    have hempty : (t.flat a).slot (a.addrToPagenr .mode64 v) = Slot.empty := by
      rw [flat_pagenr, slotAt, hd, h.dummyL3]
    ext1
    · rw [Vph.invalidateTlbEntry_slot, hempty]
      have hsame : Vph.invalidatedSlot flags Slot.empty = Slot.empty := by
        unfold Vph.invalidatedSlot
        split <;> rfl
      rw [hsame, ← hempty, Function.update_eq_self]
    · rw [Vph.invalidateTlbEntry_entry, hempty]
      simp [Slot.empty]
    · rw [hx.2]
      rfl
    · rw [hx.1]
      rfl
  · have hl1 : t.l1 (a.x1 v) ≠ l2Dummy := h.l1_of_path hd
    have hl3 : ¬ (t.l2 (t.l1 (a.x1 v))).l3 (a.x2 v) = l3Dummy := hd
    have hs : (t.flat a).slot (a.addrToPagenr .mode64 v) = (t.l3 (t.path (a.x1 v) (a.x2 v))).slot (a.x3 v) :=
      flat_pagenr t v
    simp only [hl1, hl3, if_false]
    by_cases hj : hasFlag flags justMarkAsNonWritable = true
    · simp only [hj, if_true]
      refine ⟨_, rfl, ⟨free2, free3, ?_⟩, ?_, fun _ _ => Or.inl rfl⟩
      · refine h.write_slot (h.path_mem hd) (a.x3_lt v) (fun h0 => ?_) (h.loaded _ _) rfl
        have := h.free _ _ h0
        rw [this]
        rfl
      · ext1
        · rw [Vph.invalidateTlbEntry_slot, hs]
          simp only [Vph.invalidatedSlot, hj, if_true]
          exact flat_slot_update (h.slotAt_write hd rfl)
        · rw [Vph.invalidateTlbEntry_entry]
          simp [Vph.invalidatedEntry, hj, flat, setSlot, setL3]
        · rw [hx.2]
          rfl
        · rw [hx.1]
          rfl
    · simp only [hj, if_false, Bool.false_eq_true]
      obtain ⟨t1, ht1⟩ : ∃ t1, t1 = t.clearSlot (t.path (a.x1 v) (a.x2 v)) (a.x3 v) := ⟨_, rfl⟩
      have heq := ht1.trans (clearSlot_eq t (t.path (a.x1 v) (a.x2 v)) (a.x3 v))
      have hi1 : t1.Inv a free2 free3 := by
        rw [heq]
        refine Inv.of_eq (h.write_slot (h.path_mem hd) (a.x3_lt v) (fun _ => rfl) (fun hne => absurd rfl hne) ?_)
          rfl rfl rfl rfl rfl rfl rfl
        simp only [Slot.empty]
        split_ifs <;> omega
      have hslot1 : ∀ y1 y2 y3, t1.slotAt y1 y2 y3 =
          if y1 = a.x1 v ∧ y2 = a.x2 v ∧ y3 = a.x3 v then Slot.empty else t.slotAt y1 y2 y3 := by
        rw [heq]
        exact h.slotAt_write hd rfl
      have hpath1 : t1.path (a.x1 v) (a.x2 v) = t.path (a.x1 v) (a.x2 v) := by rw [heq]; rfl
      have hl1' : t1.l1 (a.x1 v) = t.l1 (a.x1 v) := by rw [heq]; rfl
      obtain ⟨t', hok, hg, hslot, hkeep, hentry, hxx⟩ := releaseTables_spec hi1 (a.x1 v) (a.x2 v)
        (by rw [hpath1]; exact hd) (a.x2_lt v)
      have hsame : ∀ y1 y2, t1.path y1 y2 = t.path y1 y2 := fun y1 y2 => by rw [heq]; rfl
      rw [hpath1, hl1', ht1] at hok
      refine ⟨t', hok, hg, ?_, fun y1 y2 => by rw [← hsame]; exact hkeep y1 y2⟩
      ext1
      · rw [Vph.invalidateTlbEntry_slot]
        simp only [Vph.invalidatedSlot, hj, if_false, Bool.false_eq_true]
        exact flat_slot_update fun y1 y2 y3 => (hslot y1 y2 y3).trans (hslot1 y1 y2 y3)
      · rw [Vph.invalidateTlbEntry_entry, hs]
        simp only [Vph.invalidatedEntry, hj, if_false, Bool.false_eq_true]
        change t'.entry = _
        rw [hentry, heq]
        rfl
      · rw [hx.2]
        rfl
      · rw [hx.1]
        change t'.x = t.x
        rw [hxx, heq]
        rfl

/-! ## Loops over the entries -/

theorem forEntries_sim {f : Tree → Nat → Except Exit Tree} {g : Vph → Nat → Vph}
    (hf : ∀ t r, Good a t → ∃ t', f t r = .ok t' ∧ t'.Good a ∧ t'.flat a = g (t.flat a) r) (h : t.Good a) :
    ∃ t', t.forEntries a f = .ok t' ∧ t'.Good a ∧ t'.flat a = (t.flat a).forEntries a g := by
  have hbody : ∀ (s : Tree) (u : Vph) (r : Nat), (s.Good a ∧ s.flat a = u) →
      ∃ s', f s r = .ok s' ∧ (s'.Good a ∧ s'.flat a = g u r) := by
    rintro s u r ⟨hs, rfl⟩
    exact hf s r hs
  exact Lib.foldlM_sim hbody (List.range a.maxVphTlbEntries) ⟨h, rfl⟩

theorem invalidateIf_sim (ha : a ≠ .arm) (p : VpgTlbEntry → Bool) (flags : Nat) (t : Tree) (r : Nat)
    (h : t.Good a) :
    ∃ t', invalidateIf a p flags t r = .ok t' ∧ t'.Good a ∧
      t'.flat a = Vph.invalidateIf a .mode64 p flags (t.flat a) r := by
  unfold invalidateIf Vph.invalidateIf
  have he : (t.flat a).entry = t.entry := rfl
  rw [he]
  split
  · obtain ⟨t', hok, hg, hfl, -⟩ := invalidateTlbEntry_sim ha h (t.entry r).vaddrPage flags
    exact ⟨t', hok, hg, hfl⟩
  · exact ⟨t, rfl, h, rfl⟩

theorem Good.setEntry (h : t.Good a) (r : Nat) (e : VpgTlbEntry) : (t.setEntry r e).Good a := by
  obtain ⟨free2, free3, h⟩ := h
  exact ⟨free2, free3, h.of_eq rfl rfl rfl rfl rfl rfl rfl⟩

theorem invalidatePaddrEntry_sim (ha : a ≠ .arm) (addrPage : Addr) (flags : Nat) (t : Tree) (r : Nat)
    (h : t.Good a) :
    ∃ t', invalidatePaddrEntry a addrPage flags t r = .ok t' ∧ t'.Good a ∧
      t'.flat a = Vph.invalidatePaddrEntry a .mode64 addrPage flags (t.flat a) r := by
  unfold invalidatePaddrEntry Vph.invalidatePaddrEntry
  have he : (t.flat a).entry = t.entry := rfl
  rw [he]
  split
  · obtain ⟨t1, hok, hg, hfl, -⟩ := invalidateTlbEntry_sim ha h (t.entry r).vaddrPage flags
    rw [hok, ← hfl]
    by_cases hj : hasFlag flags justMarkAsNonWritable = true
    · simp only [hj, if_true]
      exact ⟨_, rfl, hg.setEntry _ _, rfl⟩
    · simp only [hj, if_false, Bool.false_eq_true]
      exact ⟨_, rfl, hg.setEntry _ _, rfl⟩
  · exact ⟨t, rfl, h, rfl⟩

theorem invalidateTranslationCaches_sim (ha : a ≠ .arm) (h : t.Good a) (vaddrMask addr : Addr) (flags : Nat) :
    ∃ t', t.invalidateTranslationCaches a vaddrMask addr flags = .ok t' ∧ t'.Good a ∧
      t'.flat a = (t.flat a).invalidateTranslationCaches a .mode64 vaddrMask addr flags := by
  unfold invalidateTranslationCaches Vph.invalidateTranslationCaches
  split
  · exact forEntries_sim (fun t r => invalidateIf_sim ha _ flags t r) h
  · split
    · exact forEntries_sim (fun t r => invalidateIf_sim ha _ 0 t r) h
    · split
      · exact forEntries_sim (fun t r => invalidateIf_sim ha _ 0 t r) h
      · exact forEntries_sim (fun t r => invalidatePaddrEntry_sim ha _ flags t r) h

theorem setSlot_self (t : Tree) (q x3 : Nat) : t.setSlot q x3 ((t.l3 q).slot x3) = t := by
  simp [setSlot, setL3]

/-- Writing a slot that keeps its index, through its path. Where the path ends
in the dummy the slot that is written is the empty one. -/
theorem setSlot_sim (h : t.Good a) (v : Addr) {s : Slot} (hi : s.tlbindex = (t.slotAt (a.x1 v) (a.x2 v) (a.x3 v)).tlbindex)
    (hf : s.tlbindex = 0 → s = Slot.empty) (hl : s.tlbindex ≠ 0 → s.hostLoad ≠ none) :
    (t.setSlot (t.path (a.x1 v) (a.x2 v)) (a.x3 v) s).Good a ∧
      (t.setSlot (t.path (a.x1 v) (a.x2 v)) (a.x3 v) s).flat a =
        (t.flat a).setSlot (a.addrToPagenr .mode64 v) s := by
  obtain ⟨free2, free3, h⟩ := h
  by_cases hd : t.path (a.x1 v) (a.x2 v) = l3Dummy
  · have hempty : (t.l3 (t.path (a.x1 v) (a.x2 v))).slot (a.x3 v) = Slot.empty := by
      rw [hd]
      exact h.dummyL3 _
    have hs : s = (t.l3 (t.path (a.x1 v) (a.x2 v))).slot (a.x3 v) := by
      rw [hempty]
      refine hf ?_
      rw [hi, slotAt, hempty]
      rfl
    rw [hs, setSlot_self]
    refine ⟨⟨free2, free3, h⟩, ?_⟩
    ext1
    · have := flat_pagenr (a := a) t v
      unfold slotAt at this
      rw [← this, Vph.setSlot_slot, Function.update_eq_self]
    · rfl
    · rfl
    · rfl
  · refine ⟨⟨free2, free3, ?_⟩, ?_⟩
    · refine h.write_slot (h.path_mem hd) (a.x3_lt v) hf hl ?_
      rw [hi]
      rfl
    · ext1
      · exact flat_slot_update (h.slotAt_write hd rfl)
      · rfl
      · rfl
      · rfl

theorem invalidateCodeEntries_sim (h : t.Good a) (addr : Addr) (flags : Nat) :
    ∃ t', t.invalidateCodeEntries a addr flags = .ok t' ∧ t'.Good a ∧
      t'.flat a = (t.flat a).invalidateCodeEntries a .mode64 addr flags := by
  refine forEntries_sim (fun t r h => ?_) h
  by_cases hc : ((t.entry r).valid && Vph.codeSelects a .mode64 addr flags (t.entry r)) = true
  · have hslot := flat_pagenr (a := a) t (a.pageAddr (t.entry r).vaddrPage)
    obtain ⟨hg, hfl⟩ := setSlot_sim h (a.pageAddr (t.entry r).vaddrPage)
      (s := { t.slotAt (a.x1 (a.pageAddr (t.entry r).vaddrPage)) (a.x2 (a.pageAddr (t.entry r).vaddrPage))
        (a.x3 (a.pageAddr (t.entry r).vaddrPage)) with physPage := none }) rfl
      (fun h0 => by
        obtain ⟨free2, free3, h⟩ := h
        have := h.free _ _ h0
        unfold slotAt
        rw [this]
        rfl)
      (fun hne => by
        obtain ⟨free2, free3, h⟩ := h
        exact h.loaded _ _ hne)
    refine ⟨_, if_pos hc, hg, hfl.trans (Eq.trans ?_ (if_pos hc).symm)⟩
    rw [← hslot]
    rfl
  · exact ⟨t, if_neg hc, h, (if_neg hc).symm⟩

theorem invalidateCodeEntries_path (t : Tree) (addr : Addr) (flags : Nat) {t' : Tree}
    (hok : t.invalidateCodeEntries a addr flags = .ok t') (y1 y2 : Nat) : t'.path y1 y2 = t.path y1 y2 := by
  have hloop := Lib.foldlM_sim (R := fun (s : Tree) (_ : Unit) => s.l1 = t.l1 ∧ s.l2 = t.l2)
    (g := fun _ _ => ()) (f := fun (t : Tree) r =>
      let e := t.entry r
      if e.valid && Vph.codeSelects a .mode64 addr flags e then
        let v := a.pageAddr e.vaddrPage
        let l3 := (t.l2 (t.l1 (a.x1 v))).l3 (a.x2 v)
        (.ok (t.setSlot l3 (a.x3 v) { (t.l3 l3).slot (a.x3 v) with physPage := none }) : Except Exit Tree)
      else .ok t)
    (fun s _ r hs => by
      dsimp only
      split
      · exact ⟨_, rfl, hs⟩
      · exact ⟨s, rfl, hs⟩) (List.range a.maxVphTlbEntries) (u := ()) ⟨rfl, rfl⟩
  obtain ⟨s', hok', hs'⟩ := hloop
  have he : s' = t' := Except.ok.inj (hok'.symm.trans hok)
  subst he
  unfold path
  rw [hs'.1, hs'.2]

/-! ## update_translation_table() -/

theorem evict_sim (ha : a ≠ .arm) (h : t.Good a) :
    ∃ t', t.evict a = .ok (t', ((t.flat a).evict a .mode64).2) ∧ t'.Good a ∧
      t'.flat a = ((t.flat a).evict a .mode64).1 ∧ t.KeepsPaths t' := by
  have h' : Good a { t with x := (t.x + 1) % 2 ^ 32 } := by
    obtain ⟨free2, free3, h⟩ := h
    exact ⟨free2, free3, h.of_eq rfl rfl rfl rfl rfl rfl rfl⟩
  unfold evict Vph.evict
  have he : (t.flat a).entry = t.entry := rfl
  have hx : (t.flat a).x = t.x := rfl
  dsimp only
  rw [he, hx]
  split
  · obtain ⟨t1, hok, hg, hfl, hkeep⟩ :=
      invalidateTlbEntry_sim ha h' (t.entry (t.x % a.maxVphTlbEntries)).vaddrPage 0
    exact ⟨t1, by rw [hok]; rfl, hg, hfl, hkeep⟩
  · exact ⟨_, rfl, h', rfl, fun _ _ => Or.inl rfl⟩

theorem obtainL2_spec (h : t.Inv a free2 free3) (x1 : Nat) :
    ∃ t', t.obtainL2 x1 = .ok (t', t'.l1 x1) ∧ (∃ free2', t'.Inv a free2' free3) ∧ t'.l1 x1 ≠ l2Dummy ∧
      (∀ y1 y2, t'.path y1 y2 = t.path y1 y2) ∧ t'.l3 = t.l3 ∧ t'.nextFreeL3 = t.nextFreeL3 ∧
      t'.entry = t.entry ∧ t'.x = t.x := by
  unfold obtainL2
  by_cases hd : t.l1 x1 = l2Dummy
  · obtain ⟨hi, h0, hne, hpath, hl3⟩ := h.take_l2 hd rfl
    have hl1 : (t.takeL2.1.setL1 x1 t.takeL2.2).l1 x1 = t.takeL2.2 := by simp [setL1]
    have hrest : t.takeL2.1.nextFreeL3 = t.nextFreeL3 ∧ t.takeL2.1.entry = t.entry ∧ t.takeL2.1.x = t.x := by
      unfold takeL2
      split <;> exact ⟨rfl, rfl, rfl⟩
    refine ⟨t.takeL2.1.setL1 x1 t.takeL2.2, ?_, hi, by rw [hl1]; exact hne, hpath, hl3, hrest⟩
    simp only [hd, if_true, h0, ne_eq, not_true_eq_false, if_false, hne, hl1]
  · simp only [hd, if_false]
    exact ⟨t, rfl, ⟨free2, h⟩, hd, fun _ _ => rfl, rfl, rfl, rfl, rfl⟩

theorem obtainL3_spec (h : t.Inv a free2 free3) {x1 x2 : Nat} (hp : t.l1 x1 ≠ l2Dummy) (hx : x2 < 2 ^ l2n) :
    ∃ t', t.obtainL3 (t.l1 x1) x2 = .ok (t', t'.path x1 x2) ∧ (∃ free3', t'.Inv a free2 free3') ∧
      t'.path x1 x2 ≠ l3Dummy ∧ (∀ y1 y2 y3, t'.slotAt y1 y2 y3 = t.slotAt y1 y2 y3) ∧
      (t'.path x1 x2 = t.path x1 x2 ∨ t.path x1 x2 = l3Dummy ∧ (t.nextFreeL3 ≠ 0 → t'.path x1 x2 = t.nextFreeL3)) ∧
      t'.entry = t.entry ∧ t'.x = t.x := by
  unfold obtainL3
  by_cases hd : (t.l2 (t.l1 x1)).l3 x2 = l3Dummy
  · simp only [hd, if_true]
    by_cases hf : t.nextFreeL3 ≠ 0
    · -- the first table of the free list
      obtain ⟨rest, hrest, hpool⟩ := h.pool3.reuse (t.l1 x1, x2) hf
      have hne : t.nextFreeL3 ≠ l3Dummy := by
        have := (h.pool3.free_mem t.nextFreeL3 (by rw [hrest]; simp)).1
        omega
      have h0 : (t.l3 t.nextFreeL3).refcount = 0 := h.idle3 _ (Or.inr (Or.inl (by rw [hrest]; simp)))
      have htake : t.takeL3 = ({ t with nextFreeL3 := (t.l3 t.nextFreeL3).next }, t.nextFreeL3) := by
        simp [takeL3, hf]
      obtain ⟨hi, hpath, hslot⟩ := h.attach_l3 (q := t.nextFreeL3)
        ((({ t with nextFreeL3 := (t.l3 t.nextFreeL3).next } : Tree).setL2Slot (t.l1 x1) x2
          t.nextFreeL3).addRefcountL2 (t.l1 x1) 1) rest hp hx hd rfl rfl rfl
        (by simp [addRefcountL2, setL2Slot, setL2, Function.update_idem]) (fun _ => rfl) (fun _ => rfl) hne h0
        (fun i hi => hi.imp id (Or.imp (fun hm => by rw [hrest]; exact List.mem_cons_of_mem _ hm) id)) hpool
      refine ⟨_, ?_, ⟨rest, hi⟩, by rw [hpath]; exact hne, hslot, Or.inr ⟨hd, fun _ => hpath⟩, rfl, rfl⟩
      rw [hpath, htake]
      have h0' : ((({ t with nextFreeL3 := (t.l3 t.nextFreeL3).next } : Tree).setL2Slot (t.l1 x1) x2
        t.nextFreeL3).l3 t.nextFreeL3).refcount = 0 := h0
      simp only [h0', ne_eq, not_true_eq_false, if_false, hne]
    · -- a new table
      have hf' : t.nextFreeL3 = 0 := not_not.mp hf
      have hne : t.l3Brk ≠ l3Dummy := by
        have := h.pool3.dummy_lt
        omega
      have hidle : Idle l3Dummy t.l3Brk free3 t.l3Brk := Or.inr (Or.inr (le_refl _))
      have h0 : (t.l3 t.l3Brk).refcount = 0 := h.idle3 _ hidle
      have htake : t.takeL3 = ({ t.setL3 t.l3Brk ⟨fun _ => Slot.empty, 0, 0⟩ with l3Brk := t.l3Brk + 1 },
          t.l3Brk) := by
        simp [takeL3, hf']
      have hl3 : ∀ i, i ≠ t.l3Brk →
          Function.update t.l3 t.l3Brk ⟨fun _ => Slot.empty, 0, 0⟩ i = t.l3 i := fun i hi =>
        Function.update_of_ne hi _ _
      obtain ⟨hi, hpath, hslot⟩ := h.attach_l3 (q := t.l3Brk)
        ((({ t.setL3 t.l3Brk ⟨fun _ => Slot.empty, 0, 0⟩ with l3Brk := t.l3Brk + 1 } : Tree).setL2Slot
          (t.l1 x1) x2 t.l3Brk).addRefcountL2 (t.l1 x1) 1) free3 hp hx hd rfl rfl rfl
        (by simp [addRefcountL2, setL2Slot, setL2, setL3, Function.update_idem])
        (fun i => by
          by_cases hib : i = t.l3Brk
          · funext x3
            rw [hib, h.slot_of_zero h0]
            simp [addRefcountL2, setL2Slot, setL2, setL3]
          · exact congrArg L3Table.slot (hl3 i hib))
        (fun i => by
          by_cases hib : i = t.l3Brk
          · rw [hib, h0]
            simp [addRefcountL2, setL2Slot, setL2, setL3]
          · exact congrArg L3Table.refcount (hl3 i hib)) hne h0
        (fun i hi => hi.imp id (Or.imp id fun hle => by
          have : t.l3Brk + 1 ≤ i := hle
          omega))
        ((h.pool3.fresh (t.l1 x1, x2)).congr_next fun i hm => by
          have hlt := (h.pool3.free_mem i hm).2
          exact congrArg L3Table.next (hl3 i (by omega)))
      refine ⟨_, ?_, ⟨free3, hi⟩, by rw [hpath]; exact hne, hslot, Or.inr ⟨hd, fun hc => absurd hf' hc⟩, rfl, rfl⟩
      rw [hpath, htake]
      have h0' : ((({ t.setL3 t.l3Brk ⟨fun _ => Slot.empty, 0, 0⟩ with l3Brk := t.l3Brk + 1 } : Tree).setL2Slot
        (t.l1 x1) x2 t.l3Brk).l3 t.l3Brk).refcount = 0 := by
        simp [setL2Slot, setL2, setL3]
      simp only [h0', ne_eq, not_true_eq_false, if_false, hne]
  · simp only [hd, if_false]
    exact ⟨t, rfl, ⟨free3, h⟩, hd, fun _ _ _ => rfl, Or.inl rfl, rfl, rfl⟩

/-- Inserting a page succeeds and does what it does to the flat tables. An L3
table that the eviction put on the free list is the one that is taken again. -/
theorem insertPage_sim (ha : a ≠ .arm) (h : t.Good a) {v : Addr} (hostPage writeflag : Nat) (ua : Bool) (p : Addr)
    (hfree : ((t.flat a).slot (a.addrToPagenr .mode64 v)).tlbindex = 0) :
    ∃ t', t.insertPage a v hostPage writeflag p = .ok t' ∧ t'.Good a ∧
      t'.flat a = (t.flat a).insertPage a .mode64 v hostPage writeflag ua p ∧
      (t.path (a.x1 v) (a.x2 v) ≠ l3Dummy → t'.path (a.x1 v) (a.x2 v) = t.path (a.x1 v) (a.x2 v)) := by
  obtain ⟨t1, hev, hg1, hfl1, hkeep⟩ := evict_sim ha h
  obtain ⟨r, hr⟩ : ∃ r, r = ((t.flat a).evict a .mode64).2 := ⟨_, rfl⟩
  obtain ⟨e, he⟩ : ∃ e : VpgTlbEntry, e = ⟨true, writeflag &&& memWrite, v, p, some hostPage⟩ := ⟨_, rfl⟩
  obtain ⟨free2, free3, hi1⟩ := hg1.setEntry r e
  obtain ⟨t2, hl2, ⟨free2', hi2⟩, hne2, hpath2, hl3, hfree2, hent2, hx2⟩ := obtainL2_spec hi1 (a.x1 v)
  obtain ⟨t3, hok3, ⟨free3', hi3⟩, hne3, hslot3, hpath3, hent3, hx3⟩ := obtainL3_spec hi2 hne2 (a.x2_lt v)
  have hpath : t.path (a.x1 v) (a.x2 v) ≠ l3Dummy → t3.path (a.x1 v) (a.x2 v) = t.path (a.x1 v) (a.x2 v) := by
    intro hne
    have hsame : t2.path (a.x1 v) (a.x2 v) = t1.path (a.x1 v) (a.x2 v) := hpath2 _ _
    rcases hkeep (a.x1 v) (a.x2 v) with h1 | ⟨h1, hf⟩ <;> rcases hpath3 with h3 | ⟨h3, hf3⟩
    · rw [h3, hsame, h1]
    · rw [hsame, h1] at h3
      exact absurd h3 hne
    · rw [h3, hsame, h1] at hne3
      exact absurd rfl hne3
    · have hfree : t2.nextFreeL3 = t.path (a.x1 v) (a.x2 v) := hfree2.trans hf
      obtain ⟨_, _, h⟩ := h
      have := (h.pool3.ref_mem (t.l1 (a.x1 v), a.x2 v) hne).1
      rw [hf3 (by rw [hfree]; exact Nat.ne_of_gt (Nat.zero_lt_of_lt this)), hfree]
  have hslot : ∀ y1 y2 y3, t3.slotAt y1 y2 y3 = t1.slotAt y1 y2 y3 := by
    intro y1 y2 y3
    rw [hslot3]
    unfold slotAt
    rw [hpath2, hl3]
    rfl
  have hold : (t3.slotAt (a.x1 v) (a.x2 v) (a.x3 v)).tlbindex = 0 := by
    rw [hslot, ← flat_pagenr, hfl1]
    exact Vph.evict_free hfree
  have hrlt : r < a.maxVphTlbEntries := by
    rw [hr]
    unfold Vph.evict
    dsimp only
    split <;> exact Nat.mod_lt _ a.maxVphTlbEntries_pos
  have hmod : (r + 1) % 2 ^ a.tlbindexBits = r + 1 := by
    have := a.maxVphTlbEntries_lt
    exact Nat.mod_eq_of_lt (by omega)
  have hrun : t.insertPage a v hostPage writeflag p =
      .ok ((t3.setSlot (t3.path (a.x1 v) (a.x2 v)) (a.x3 v)
        (Vph.insertedSlot r hostPage writeflag p)).addRefcountL3 (t3.path (a.x1 v) (a.x2 v)) 1) := by
    unfold insertPage
    rw [hev, ← hr]
    simp only [bind, Except.bind, ← he, hl2, hok3, hmod]
    rfl
  have hset : (t3.setSlot (t3.path (a.x1 v) (a.x2 v)) (a.x3 v)
        (Vph.insertedSlot r hostPage writeflag p)).addRefcountL3 (t3.path (a.x1 v) (a.x2 v)) 1 =
      t3.setL3 (t3.path (a.x1 v) (a.x2 v))
        { t3.l3 (t3.path (a.x1 v) (a.x2 v)) with
          slot := Function.update (t3.l3 (t3.path (a.x1 v) (a.x2 v))).slot (a.x3 v)
            (Vph.insertedSlot r hostPage writeflag p)
          refcount := (t3.l3 (t3.path (a.x1 v) (a.x2 v))).refcount + 1 } := by
    simp [setSlot, setL3, addRefcountL3, Function.update_idem]
  rw [hrun, hset]
  refine ⟨_, rfl, ⟨free2', free3', ?_⟩, ?_, hpath⟩
  · refine hi3.write_slot (hi3.path_mem hne3) (a.x3_lt v) (fun h0 => ?_) (fun _ => ?_) ?_
    · simp [Vph.insertedSlot] at h0
    · simp [Vph.insertedSlot]
    · have hold' : ((t3.l3 (t3.path (a.x1 v) (a.x2 v))).slot (a.x3 v)).tlbindex = 0 := hold
      simp [hold', Vph.insertedSlot]
  · have hrest : ((t.flat a).insertPage a .mode64 v hostPage writeflag ua p).isUserpage =
          ((t.flat a).evict a .mode64).1.isUserpage ∧
        ((t.flat a).insertPage a .mode64 v hostPage writeflag ua p).x = ((t.flat a).evict a .mode64).1.x := by
      unfold Vph.insertPage
      simp [ha, Vph.setSlot, Vph.setEntry]
    ext1
    · rw [Vph.insertPage_slot, ← hfl1, ← hr, ← flat_slot_eq hslot]
      exact flat_slot_update (hi3.slotAt_write hne3 rfl)
    · rw [Vph.insertPage_entry, ← hfl1, ← hr, ← he]
      change t3.entry = _
      rw [hent3, hent2]
      rfl
    · rw [hrest.1, ← hfl1]
      rfl
    · rw [hrest.2, ← hfl1]
      change t3.x = t1.x
      rw [hx3, hx2]
      rfl

theorem updatePage_sim (ha : a ≠ .arm) (h : t.Good a) {v : Addr} (r hostPage writeflag : Nat) (ua : Bool) (p : Addr)
    (hused : ((t.flat a).slot (a.addrToPagenr .mode64 v)).tlbindex ≠ 0) :
    (t.updatePage a r v hostPage writeflag p).Good a ∧
      (t.updatePage a r v hostPage writeflag p).flat a =
        (t.flat a).updatePage a .mode64 r v hostPage writeflag ua p := by
  have hs := flat_pagenr (a := a) t v
  obtain ⟨s, hsdef⟩ : ∃ s, s = Vph.updatedSlot .mode64 (t.slotAt (a.x1 v) (a.x2 v) (a.x3 v)) hostPage writeflag p :=
    ⟨_, rfl⟩
  have hi : s.tlbindex = (t.slotAt (a.x1 v) (a.x2 v) (a.x3 v)).tlbindex := by
    rw [hsdef, Vph.updatedSlot_tlbindex]
  rw [hs] at hused
  obtain ⟨hg, hfl⟩ := setSlot_sim (h.setEntry r (Vph.updatedEntry (t.entry r) writeflag)) v (s := s) hi
    (fun h0 => absurd (hi.symm.trans h0) hused)
    (fun _ => by
      rw [hsdef, Vph.updatedSlot_hostLoad]
      split
      · obtain ⟨free2, free3, h⟩ := h
        exact h.loaded _ _ hused
      · simp)
  subst hsdef
  refine ⟨hg, hfl.trans ?_⟩
  unfold Vph.updatePage
  simp only [ha, if_false]
  rw [Vph.setEntry_slot, hs]
  rfl

theorem found_eq (h : t.Good a) (v : Addr) :
    t.found a v = ((t.flat a).slot (a.addrToPagenr .mode64 v)).tlbindex := by
  obtain ⟨free2, free3, h⟩ := h
  rw [flat_pagenr]
  unfold found slotAt path
  by_cases hl2 : t.l1 (a.x1 v) = l2Dummy
  · simp only [hl2, if_true, h.dummyL2, h.dummyL3]
    rfl
  · simp only [hl2, if_false]
    by_cases hl3 : (t.l2 (t.l1 (a.x1 v))).l3 (a.x2 v) = l3Dummy
    · simp only [hl3, if_true, h.dummyL3]
      rfl
    · simp only [hl3, if_false]

theorem updateTranslationTable_sim (ha : a ≠ .arm) (hm : a ≠ .m88k) (h : t.Good a) {v p : Addr}
    (hacc : Vph.Accepts a .mode64 v p) (hostPage writeflag : Nat) :
    ∃ t', t.updateTranslationTable a v hostPage writeflag p = .ok t' ∧ t'.Good a ∧
      t'.flat a = (t.flat a).updated a .mode64 v hostPage writeflag p ∧
      (t.path (a.x1 v) (a.x2 v) ≠ l3Dummy → t'.path (a.x1 v) (a.x2 v) = t.path (a.x1 v) (a.x2 v)) := by
  have hfound := found_eq h v
  unfold updateTranslationTable Vph.updated
  simp only [hacc.1, hacc.2.1, not_true_eq_false, or_self, if_false, hfound, hm, false_and, Mode.trunc]
  by_cases h0 : ((t.flat a).slot (a.addrToPagenr .mode64 v)).tlbindex = 0
  · simp only [h0, if_true]
    exact insertPage_sim ha h hostPage _ _ p h0
  · simp only [h0, if_false]
    obtain ⟨hg, hfl⟩ := updatePage_sim ha h (((t.flat a).slot (a.addrToPagenr .mode64 v)).tlbindex - 1) hostPage
      (Vph.dataFlags writeflag) (hasFlag writeflag memoryUserAccess) p h0
    exact ⟨_, rfl, hg, hfl, fun _ => rfl⟩

end Tree

end Gxemul
