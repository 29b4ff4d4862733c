import Gxemul.Dyntrans.Cpu

/- Which pages can be written without memory_rw() noticing.

   A page is writable while its `host_store` is set. Marking a physical page as
   non-writable scans `vph_tlb_entry[]` for its address, so it reaches a virtual
   page only if the entry of that page has the physical address of its slot.
   `Tracks D` says that this is so for the physical pages in `D`. -/
namespace Gxemul

namespace Vph
variable {a : Arch} {mode : Mode} {t t' : Vph} {D : Addr → Prop}

/-- The entry of a page that is mapped to a physical page in `D` has its address. -/
def Tracks (D : Addr → Prop) (t : Vph) : Prop :=
  ∀ k, (t.slot k).tlbindex ≠ 0 → D (t.slot k).physAddr →
    (t.entry ((t.slot k).tlbindex - 1)).paddrPage = (t.slot k).physAddr

theorem Tracks.init (x : Nat) : (Vph.init x).Tracks D := by
  intro k hk
  exact absurd rfl hk

theorem Tracks.shrinks (h : t.Tracks D) (hs : t.Shrinks t') : t'.Tracks D := by
  intro k hk hd
  obtain ⟨hi, _, hp⟩ := hs.of_used hk
  rw [(hs.entry _).2.1, hi, hp]
  rw [hp] at hd
  exact h k (hi ▸ hk) hd

theorem Tracks.updated (h : t.Tracks D) (hw : t.WF a mode) {v p : Addr} (hostPage writeflag : Nat)
    (hacc : Accepts a mode v p)
    (hr : ¬ ((t.slot (a.addrToPagenr mode v)).tlbindex ≠ 0 ∧
      (t.slot (a.addrToPagenr mode v)).physAddr ≠ p ∧ D p)) :
    (t.updated a mode v hostPage writeflag p).Tracks D := by
  by_cases hm : Ignored a writeflag
  · rw [updated_of_ignored t v hostPage p hm]
    exact h
  have hw' := hw.updated hacc hostPage writeflag
  have hself := updated_slot_self mode t v hostPage p hm
  intro k hk hd
  obtain ⟨hval, hkey⟩ := hw'.entry_of_slot hk
  generalize hr' : ((t.updated a mode v hostPage writeflag p).slot k).tlbindex - 1 = r at hval hkey ⊢
  have hentry := updated_entry (a := a) mode t v hostPage writeflag p r
  by_cases hkv : k = a.addrToPagenr mode v
  · have hp : ((t.updated a mode v hostPage writeflag p).slot k).physAddr = p := by
      rw [hkv, hself]
      split
      · rfl
      · exact updatedSlot_physAddr _ _ _ _
    rcases hentry with ⟨hv, hpa, _, hval'⟩ | ⟨-, he⟩
    · -- the entry was there: the page was in the tables, and not re-pointed
      have hlink := hw.slot_of_entry (hval' hval)
      have hkeyt : t.keyOf a mode r = k := by
        unfold keyOf at hkey ⊢
        rw [← hv]
        exact hkey
      rw [hkeyt] at hlink
      rw [hp] at hd
      have hused : (t.slot k).tlbindex ≠ 0 := by omega
      have hsame : (t.slot k).physAddr = p := by
        by_contra hne
        exact hr (hkv ▸ ⟨hused, hne, hd⟩)
      have := h k hused (hsame ▸ hd)
      rw [hlink, hsame] at this
      rw [hpa, hp]
      exact this
    · rw [he, hp]
  · have hsh := updated_slot_other (a := a) mode t v hostPage writeflag p hkv
    rcases hsh with he | ⟨hi, _, hpa, _⟩
    · rw [he] at hk
      exact absurd rfl hk
    rcases hentry with ⟨_, hpe, _⟩ | ⟨-, he⟩
    · rw [hpa] at hd
      rw [hpe, hpa, ← hr', hi]
      exact h k (hi ▸ hk) hd
    · -- a new entry describes the page of the update
      refine absurd ?_ hkv
      rw [← hkey]
      unfold keyOf
      rw [he, Arch.addrToPagenr_trunc]

def Fits (mode : Mode) (t : Vph) : Prop := ∀ k, mode.trunc (t.slot k).physAddr = (t.slot k).physAddr

theorem trunc_zero (mode : Mode) : mode.trunc 0 = 0 := by cases mode <;> rfl

theorem Fits.init (x : Nat) : (Vph.init x).Fits mode := fun _ => trunc_zero mode

theorem Fits.of_slot {s s' : Slot} (h : mode.trunc s.physAddr = s.physAddr) (hs : s.Shrinks s') :
    mode.trunc s'.physAddr = s'.physAddr := by
  rcases hs with rfl | ⟨_, _, hp, _⟩
  · exact trunc_zero mode
  · rw [hp]
    exact h

theorem Fits.shrinks (h : t.Fits mode) (hs : t.Shrinks t') : t'.Fits mode := fun k => Fits.of_slot (h k) (hs.slot k)

theorem trunc_of_accepts {v p : Addr} (h : Accepts a mode v p) : mode.trunc p = p := by
  cases mode with
  | mode32 =>
    have hp : p ≤ 0xffffffff#64 := h.2.2 rfl
    have hlt : p.toNat < 2 ^ 32 := by
      rw [BitVec.le_def] at hp
      exact Nat.lt_succ_of_le hp
    apply BitVec.eq_of_toNat_eq
    change (p &&& 0xffffffff#64).toNat = p.toNat
    rw [BitVec.toNat_and]
    exact (Nat.and_two_pow_sub_one_eq_mod p.toNat 32).trans (Nat.mod_eq_of_lt hlt)
  | mode64 => rfl

theorem Fits.updated (h : t.Fits mode) {v p : Addr} (hostPage writeflag : Nat) (hacc : Accepts a mode v p) :
    (t.updated a mode v hostPage writeflag p).Fits mode := by
  by_cases hm : Ignored a writeflag
  · rw [updated_of_ignored t v hostPage p hm]
    exact h
  intro k
  by_cases hkv : k = a.addrToPagenr mode v
  · subst hkv
    rw [updated_slot_self mode t v hostPage p hm]
    split
    · exact trunc_of_accepts hacc
    · rw [updatedSlot_physAddr]
      exact trunc_of_accepts hacc
  · exact Fits.of_slot (h k) (updated_slot_other mode t v hostPage writeflag p hkv)

/-- A page that is writable after an update was writable before, or is the page
of the update and the update is for writing. -/
theorem updated_stored {v p : Addr} {hostPage writeflag k : Nat}
    (hk : ((t.updated a mode v hostPage writeflag p).slot k).hostStore ≠ none) :
    ((t.slot k).hostStore ≠ none ∧
      ((t.updated a mode v hostPage writeflag p).slot k).physAddr = (t.slot k).physAddr) ∨
    (k = a.addrToPagenr mode v ∧ ((t.updated a mode v hostPage writeflag p).slot k).physAddr = p ∧
      dataFlags writeflag ≠ 0) := by
  by_cases hm : Ignored a writeflag
  · rw [updated_of_ignored t v hostPage p hm] at hk ⊢
    exact .inl ⟨hk, rfl⟩
  by_cases hkv : k = a.addrToPagenr mode v
  · subst hkv
    rw [updated_slot_self mode t v hostPage p hm] at hk ⊢
    split at hk
    · rename_i h0
      rw [if_pos h0]
      refine .inr ⟨rfl, rfl, fun hz => hk ?_⟩
      simp [insertedSlot, hz]
    · rename_i h0
      rw [if_neg h0, updatedSlot_physAddr]
      by_cases hz : dataFlags writeflag = 0
      · left
        rw [hz] at hk
        unfold updatedSlot at hk
        cases mode <;> simp only [hasFlag, Nat.zero_and, bne_self_eq_false, Bool.false_eq_true, if_false] at hk <;>
          split at hk <;> rename_i hp
        · exact ⟨hk, hp.symm⟩
        · simp at hk
        · exact ⟨hk, hp.symm⟩
        · simp at hk
      · exact .inr ⟨rfl, rfl, hz⟩
  · rcases updated_slot_other (a := a) mode t v hostPage writeflag p hkv with he | ⟨_, _, hpa, hst, _⟩
    · rw [he] at hk
      exact absurd rfl hk
    · refine .inl ⟨?_, hpa⟩
      rcases hst with hst | hst
      · rwa [hst] at hk
      · exact absurd hst hk

/-- `JUST_MARK_AS_NON_WRITABLE | INVALIDATE_PADDR` makes every page that is mapped
to a tracked physical page non-writable. -/
theorem marked_nonwritable (hw : t.WF a mode) (h : t.Tracks D) (hf : t.Fits mode) {q : Addr} (hq : D q)
    (vaddrMask : Addr) {k : Nat}
    (hk : ((t.invalidateTranslationCaches a mode vaddrMask q (justMarkAsNonWritable ||| invalidatePaddr)).slot k).physAddr
      = q) :
    ((t.invalidateTranslationCaches a mode vaddrMask q (justMarkAsNonWritable ||| invalidatePaddr)).slot k).hostStore =
      none := by
  obtain ⟨hw', hsh, hslot⟩ :=
    invalidateTranslationCaches_spec hw vaddrMask q (justMarkAsNonWritable ||| invalidatePaddr)
  by_cases h0 : ((t.invalidateTranslationCaches a mode vaddrMask q
      (justMarkAsNonWritable ||| invalidatePaddr)).slot k).tlbindex = 0
  · rw [hw'.free k h0]
    rfl
  obtain ⟨hi, _, hp⟩ := hsh.of_used h0
  rw [hp] at hk
  have hentry := h k (hi ▸ h0) (hk ▸ hq)
  have hal : a.Aligned q := hk ▸ hw.physAligned k
  have htr : mode.trunc q = q := hk ▸ hf k
  have hhit : t.hit (tcSelects a mode vaddrMask q (justMarkAsNonWritable ||| invalidatePaddr)) k = true := by
    have hsel : tcSelects a mode vaddrMask q (justMarkAsNonWritable ||| invalidatePaddr)
        (t.entry ((t.slot k).tlbindex - 1)) = true := by
      unfold tcSelects
      rw [hentry, hk, a.pageAddr_of_aligned hal, htr]
      simp [hasFlag, justMarkAsNonWritable, invalidatePaddr, invalidateVaddr, invalidateAll]
    rw [hi] at h0
    simp [hit, h0, hsel]
  rw [hslot, hhit]
  rfl

end Vph

/-- A call re-points a page that is in the tables to a physical page in `D`. -/
def TableOp.RepointsTo (a : Arch) (D : Addr → Prop) (c : Cpu) : TableOp → Prop
  | .update v _ _ p => (c.tables.slotOf a v).tlbindex ≠ 0 ∧ (c.tables.slotOf a v).physAddr ≠ p ∧ D p
  | _ => False

namespace Cpu
variable {conf : Conf} {c c' : Cpu} {o : TableOp} {D : Addr → Prop}

theorem tableStep_tracks (hg : c.tables.Good conf.arch) (h : (c.tables.flat conf.arch).Tracks D)
    (hr : ¬ o.RepointsTo conf.arch D c) (hs : c.tableStep conf o = .ok c') :
    (c'.tables.flat conf.arch).Tracks D := by
  obtain ⟨-, -, ⟨v, hostPage, w, p, rfl, hacc, hfl⟩ | hsh⟩ := tableStep_cases hg hs
  · rw [hfl]
    simp only [TableOp.RepointsTo, Tables.slotOf_eq] at hr
    exact h.updated hg.2.1 hostPage w hacc hr
  · exact h.shrinks hsh

theorem tableStep_fits (hg : c.tables.Good conf.arch) (h : (c.tables.flat conf.arch).Fits c.tables.mode)
    (hs : c.tableStep conf o = .ok c') : (c'.tables.flat conf.arch).Fits c'.tables.mode := by
  obtain ⟨-, hm, ⟨v, hostPage, w, p, rfl, hacc, hfl⟩ | hsh⟩ := tableStep_cases hg hs
  · rw [hm, hfl]
    exact h.updated hostPage w hacc
  · rw [hm]
    exact h.shrinks hsh

theorem tableStep_stored (hg : c.tables.Good conf.arch) (hs : c.tableStep conf o = .ok c') {k : Nat}
    (hk : ((c'.tables.flat conf.arch).slot k).hostStore ≠ none) :
    (((c.tables.flat conf.arch).slot k).hostStore ≠ none ∧
      ((c'.tables.flat conf.arch).slot k).physAddr = ((c.tables.flat conf.arch).slot k).physAddr) ∨
    ∃ v hostPage w p, o = .update v hostPage w p ∧ k = conf.arch.addrToPagenr c.tables.mode v ∧
      ((c'.tables.flat conf.arch).slot k).physAddr = p ∧ Vph.dataFlags w ≠ 0 := by
  obtain ⟨-, -, ⟨v, hostPage, w, p, rfl, hacc, hfl⟩ | hsh⟩ := tableStep_cases hg hs
  · rw [hfl] at hk ⊢
    rcases Vph.updated_stored hk with h | ⟨hkv, hp, hw⟩
    · exact .inl h
    · exact .inr ⟨v, hostPage, w, p, rfl, hkv, hp, hw⟩
  · obtain ⟨hst, _, hp⟩ := hsh.of_stored hk
    exact .inl ⟨hst ▸ hk, hp⟩

end Cpu

end Gxemul
