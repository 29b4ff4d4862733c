import Mathlib.Data.List.Range
import Mathlib.Tactic.Common
import Gxemul.Lib.Links
import Gxemul.Dyntrans.Vph

/- What the table operations keep. `Vph.WF` says that the slots and the linear
   array point at each other, that a slot without an entry is all zeroes and
   that a slot with one has a host page. Every operation keeps it, whatever it
   is called with. The loops over `vph_tlb_entry[]` all have the same shape, so
   `forEntries_spec` says once what such a loop does to every slot and every
   entry. -/
namespace Gxemul

/-! ## Addresses -/

namespace Arch
variable (a : Arch) (mode : Mode)

theorem aligned_iff (v : Addr) : a.Aligned v ↔ v.toNat % 2 ^ a.pageShift = 0 := by
  have hlt : 2 ^ a.pageShift - 1 < 2 ^ 64 := by cases a <;> decide
  unfold Aligned offsetMask
  rw [← BitVec.toNat_inj]
  simp only [BitVec.toNat_and, BitVec.toNat_ofNat, Nat.mod_eq_of_lt hlt, Nat.and_two_pow_sub_one_eq_mod]
  rfl

theorem eq_of_pagenr_eq {v w : Addr} (hv : a.Aligned v) (hw : a.Aligned w)
    (htv : mode.trunc v = v) (htw : mode.trunc w = w)
    (h : a.addrToPagenr mode v = a.addrToPagenr mode w) : v = w := by
  rw [aligned_iff] at hv hw
  unfold addrToPagenr at h
  rw [htv, htw, Nat.shiftRight_eq_div_pow, Nat.shiftRight_eq_div_pow] at h
  apply BitVec.eq_of_toNat_eq
  rw [← Nat.div_add_mod v.toNat (2 ^ a.pageShift), ← Nat.div_add_mod w.toNat (2 ^ a.pageShift), hv, hw, h]

theorem pageAddr_of_aligned {v : Addr} (h : a.Aligned v) : a.pageAddr v = v := by
  have h' : v &&& a.offsetMask = 0 := h
  unfold pageAddr
  apply BitVec.eq_of_getElem_eq
  intro i hi
  have hbit := congrArg (fun w : Addr => w.getLsbD i) h'
  simp [hi] at hbit ⊢
  exact hbit

theorem aligned_pageAddr (v : Addr) : a.Aligned (a.pageAddr v) := by
  unfold Aligned pageAddr
  rw [BitVec.and_assoc, BitVec.and_comm (~~~ a.offsetMask)]
  simp

end Arch

theorem Mode.trunc_trunc (mode : Mode) (v : Addr) : mode.trunc (mode.trunc v) = mode.trunc v := by
  cases mode
  · simp only [Mode.trunc, BitVec.and_assoc, BitVec.and_self]
  · rfl

theorem Mode.trunc_pageAddr (a : Arch) (mode : Mode) (v : Addr) :
    mode.trunc (a.pageAddr v) = a.pageAddr (mode.trunc v) := by
  cases mode
  · simp only [Mode.trunc, Arch.pageAddr, BitVec.and_assoc, BitVec.and_comm (~~~ a.offsetMask)]
  · rfl

theorem Arch.addrToPagenr_pageAddr (a : Arch) (mode : Mode) (v : Addr) :
    a.addrToPagenr mode (a.pageAddr v) = a.addrToPagenr mode v := by
  unfold Arch.addrToPagenr
  rw [Mode.trunc_pageAddr]
  apply Nat.eq_of_testBit_eq
  intro i
  have hmask : a.offsetMask.getLsbD (a.pageShift + i) = false := by
    unfold Arch.offsetMask
    rw [BitVec.getLsbD_ofNat, Nat.testBit_two_pow_sub_one]
    simp
  simp only [Nat.testBit_shiftRight, BitVec.testBit_toNat, Arch.pageAddr, BitVec.getLsbD_and, BitVec.getLsbD_not,
    hmask]
  by_cases hi : a.pageShift + i < 64
  · simp [hi]
  · simp [hi, BitVec.getLsbD_of_ge _ _ (Nat.le_of_not_lt hi)]

theorem Arch.toNat_offsetMask (a : Arch) : a.offsetMask.toNat = 2 ^ a.pageShift - 1 := by
  cases a <;> rfl

theorem Arch.toNat_pageAddr (a : Arch) (v : Addr) :
    (a.pageAddr v).toNat = v.toNat / 2 ^ a.pageShift * 2 ^ a.pageShift := by
  have hmod := (a.aligned_iff _).mp (a.aligned_pageAddr v)
  have hdiv := a.addrToPagenr_pageAddr .mode64 v
  simp only [addrToPagenr, Mode.trunc, Nat.shiftRight_eq_div_pow] at hdiv
  rw [← hdiv, Nat.div_mul_cancel (Nat.dvd_of_mod_eq_zero hmod)]

theorem Arch.toNat_or_offsetMask (a : Arch) (v : Addr) :
    (v ||| a.offsetMask).toNat = v.toNat / 2 ^ a.pageShift * 2 ^ a.pageShift + (2 ^ a.pageShift - 1) := by
  have hmask : (2 ^ a.pageShift - 1) >>> a.pageShift = 0 := by
    rw [Nat.shiftRight_eq_div_pow, Nat.div_eq_of_lt (Nat.sub_lt (Nat.two_pow_pos _) Nat.one_pos)]
  have hdiv : (v ||| a.offsetMask).toNat / 2 ^ a.pageShift = v.toNat / 2 ^ a.pageShift := by
    rw [← Nat.shiftRight_eq_div_pow, ← Nat.shiftRight_eq_div_pow, BitVec.toNat_or, a.toNat_offsetMask,
      Nat.shiftRight_or_distrib, hmask, Nat.or_zero]
  have hmod : (v ||| a.offsetMask).toNat % 2 ^ a.pageShift = 2 ^ a.pageShift - 1 := by
    rw [← Nat.and_two_pow_sub_one_eq_mod, BitVec.toNat_or, a.toNat_offsetMask]
    apply Nat.eq_of_testBit_eq
    intro i
    rw [Nat.testBit_and, Nat.testBit_or]
    cases (2 ^ a.pageShift - 1).testBit i <;> simp
  have := Nat.div_add_mod (v ||| a.offsetMask).toNat (2 ^ a.pageShift)
  rw [hdiv, hmod, Nat.mul_comm] at this
  exact this.symm
theorem Arch.pageAddr_add (a : Arch) {p : Addr} (hp : a.Aligned p) (v : Addr) :
    a.pageAddr (p + (v &&& a.offsetMask)) = p ∧
      (p + (v &&& a.offsetMask)).toNat % 2 ^ a.pageShift = v.toNat % 2 ^ a.pageShift := by
  have hal := (a.aligned_iff p).mp hp
  have hoff : (v &&& a.offsetMask).toNat = v.toNat % 2 ^ a.pageShift := by
    rw [BitVec.toNat_and, a.toNat_offsetMask, Nat.and_two_pow_sub_one_eq_mod]
  have hadd : (p + (v &&& a.offsetMask)).toNat = p.toNat + v.toNat % 2 ^ a.pageShift := by
    rw [BitVec.toNat_add, hoff]
    rcases a.pageSize_cases with hps | hps <;> rw [hps] at hal ⊢ <;> omega
  refine ⟨BitVec.eq_of_toNat_eq ?_, ?_⟩
  · rw [a.toNat_pageAddr, hadd]
    rcases a.pageSize_cases with hps | hps <;> rw [hps] at hal ⊢ <;> omega
  · rw [hadd]
    rcases a.pageSize_cases with hps | hps <;> rw [hps] at hal ⊢ <;> omega

theorem Arch.addrToPagenr_trunc (a : Arch) (mode : Mode) (v : Addr) :
    a.addrToPagenr mode (mode.trunc v) = a.addrToPagenr mode v := by
  simp only [Arch.addrToPagenr, Mode.trunc_trunc]

namespace Vph

@[simp] theorem setSlot_slot (t : Vph) (k : Nat) (s : Slot) :
    (t.setSlot k s).slot = Function.update t.slot k s := rfl
@[simp] theorem setSlot_entry (t : Vph) (k : Nat) (s : Slot) : (t.setSlot k s).entry = t.entry := rfl
@[simp] theorem setEntry_slot (t : Vph) (r : Nat) (e : VpgTlbEntry) : (t.setEntry r e).slot = t.slot := rfl
@[simp] theorem setEntry_entry (t : Vph) (r : Nat) (e : VpgTlbEntry) :
    (t.setEntry r e).entry = Function.update t.entry r e := rfl
@[simp] theorem setUserpage_slot (t : Vph) (k : Nat) (b : Bool) : (t.setUserpage k b).slot = t.slot := rfl
@[simp] theorem setUserpage_entry (t : Vph) (k : Nat) (b : Bool) : (t.setUserpage k b).entry = t.entry := rfl

variable (a : Arch) (mode : Mode)

/-- The page that entry `r` describes. -/
def keyOf (t : Vph) (r : Nat) : Nat := a.addrToPagenr mode (t.entry r).vaddrPage

structure WF (t : Vph) : Prop where
  linked : Lib.Linked (fun k => (t.slot k).tlbindex) (fun r => (t.entry r).valid = true) (t.keyOf a mode)
  bounded : ∀ r, (t.entry r).valid = true → r < a.maxVphTlbEntries
  aligned : ∀ r, (t.entry r).valid = true →
    a.Aligned (t.entry r).vaddrPage ∧ mode.trunc (t.entry r).vaddrPage = (t.entry r).vaddrPage
  free : ∀ k, (t.slot k).tlbindex = 0 → t.slot k = Slot.empty
  loaded : ∀ k, (t.slot k).tlbindex ≠ 0 → (t.slot k).hostLoad ≠ none
  physAligned : ∀ k, a.Aligned (t.slot k).physAddr

variable {a mode} {t : Vph}

theorem WF.init (x : Nat) : (Vph.init x).WF a mode where
  linked := ⟨fun _ _ h => by simp [Vph.init, Slot.empty] at h,
    fun _ h => by simp [Vph.init, VpgTlbEntry.empty] at h⟩
  bounded _ h := by simp [Vph.init, VpgTlbEntry.empty] at h
  aligned _ h := by simp [Vph.init, VpgTlbEntry.empty] at h
  free _ _ := rfl
  loaded _ h := by simp [Vph.init, Slot.empty] at h
  physAligned _ := by simp [Vph.init, Slot.empty, Arch.Aligned]

theorem WF.loaded_iff (h : t.WF a mode) (k : Nat) :
    (t.slot k).hostLoad ≠ none ↔ (t.slot k).tlbindex ≠ 0 := by
  refine ⟨fun hl h0 => hl ?_, h.loaded k⟩
  rw [h.free k h0]
  rfl

theorem WF.entry_of_slot (h : t.WF a mode) {k : Nat} (hk : (t.slot k).tlbindex ≠ 0) :
    (t.entry ((t.slot k).tlbindex - 1)).valid = true ∧ t.keyOf a mode ((t.slot k).tlbindex - 1) = k :=
  h.linked.entry_of_ptr k _ (by omega)

theorem WF.slot_of_entry (h : t.WF a mode) {r : Nat} (hr : (t.entry r).valid = true) :
    (t.slot (t.keyOf a mode r)).tlbindex = r + 1 :=
  h.linked.ptr_of_entry r hr

/-! ## Changing a slot without moving it -/

/-- The tables keep `WF` when slots change without changing what they point
at, and entries without changing what they describe. -/
theorem WF.of_same_links (h : t.WF a mode) {t' : Vph}
    (hi : ∀ k, (t'.slot k).tlbindex = (t.slot k).tlbindex)
    (hv : ∀ r, (t'.entry r).valid = (t.entry r).valid)
    (ha : ∀ r, (t'.entry r).vaddrPage = (t.entry r).vaddrPage)
    (hf : ∀ k, (t.slot k).tlbindex = 0 → t'.slot k = Slot.empty)
    (hl : ∀ k, (t.slot k).tlbindex ≠ 0 → (t'.slot k).hostLoad ≠ none)
    (hp : ∀ k, a.Aligned (t'.slot k).physAddr) : t'.WF a mode where
  linked := by
    have hk : t'.keyOf a mode = t.keyOf a mode := by funext r; simp only [keyOf, ha]
    simp only [hi, hv, hk]
    exact h.linked
  bounded r hr := h.bounded r (by rw [← hv r]; exact hr)
  aligned r hr := by
    rw [ha]
    exact h.aligned r (by rw [← hv r]; exact hr)
  free k hk := hf k (by rw [← hi k]; exact hk)
  loaded k hk := hl k (by rw [← hi k]; exact hk)
  physAligned := hp

theorem WF.set_slot (h : t.WF a mode) {t' : Vph} {k : Nat} {s : Slot}
    (hslot : t'.slot = Function.update t.slot k s)
    (hv : ∀ r, (t'.entry r).valid = (t.entry r).valid)
    (ha : ∀ r, (t'.entry r).vaddrPage = (t.entry r).vaddrPage)
    (hi : s.tlbindex = (t.slot k).tlbindex)
    (hf : (t.slot k).tlbindex = 0 → s = Slot.empty)
    (hl : (t.slot k).tlbindex ≠ 0 → s.hostLoad ≠ none)
    (hp : a.Aligned s.physAddr) : t'.WF a mode := by
  refine h.of_same_links ?_ hv ha ?_ ?_ ?_ <;> intro k' <;> rw [hslot] <;> by_cases hk : k' = k
  · subst hk; simpa using hi
  · simp [Function.update_of_ne hk]
  · subst hk; simpa using hf
  · rw [Function.update_of_ne hk]; exact h.free k'
  · subst hk; simpa using hl
  · rw [Function.update_of_ne hk]; exact h.loaded k'
  · subst hk; simpa using hp
  · rw [Function.update_of_ne hk]; exact h.physAligned k'

/-! ## invalidate_tlb_entry() -/

def invalidatedSlot (flags : Nat) (s : Slot) : Slot :=
  if hasFlag flags justMarkAsNonWritable then { s with hostStore := none } else Slot.empty

def invalidatedEntry (flags : Nat) (e : VpgTlbEntry) : VpgTlbEntry :=
  if hasFlag flags justMarkAsNonWritable then e else { e with valid := false }

theorem invalidateTlbEntry_slot (t : Vph) (v : Addr) (flags : Nat) :
    (t.invalidateTlbEntry a mode v flags).slot = Function.update t.slot (a.addrToPagenr mode v)
      (invalidatedSlot flags (t.slot (a.addrToPagenr mode v))) := by
  unfold invalidateTlbEntry invalidatedSlot
  by_cases ha : a = .arm <;> by_cases hj : hasFlag flags justMarkAsNonWritable = true <;>
    simp only [ha, hj, if_true, if_false, setSlot_slot, setUserpage_slot, Bool.false_eq_true] <;>
    split <;> rfl

theorem invalidateTlbEntry_entry (t : Vph) (v : Addr) (flags : Nat) :
    (t.invalidateTlbEntry a mode v flags).entry =
      if (t.slot (a.addrToPagenr mode v)).tlbindex = 0 then t.entry
      else Function.update t.entry ((t.slot (a.addrToPagenr mode v)).tlbindex - 1)
        (invalidatedEntry flags (t.entry ((t.slot (a.addrToPagenr mode v)).tlbindex - 1))) := by
  unfold invalidateTlbEntry invalidatedEntry
  by_cases ha : a = .arm <;> by_cases hj : hasFlag flags justMarkAsNonWritable = true <;>
    by_cases h0 : (t.slot (a.addrToPagenr mode v)).tlbindex = 0 <;>
    simp_all [Nat.pos_iff_ne_zero]

theorem WF.mark_nonwritable (h : t.WF a mode) {t' : Vph} {k : Nat}
    (hslot : t'.slot = Function.update t.slot k { t.slot k with hostStore := none })
    (hv : ∀ r, (t'.entry r).valid = (t.entry r).valid)
    (ha : ∀ r, (t'.entry r).vaddrPage = (t.entry r).vaddrPage) : t'.WF a mode := by
  refine h.set_slot hslot hv ha rfl ?_ (h.loaded k) (h.physAligned k)
  intro h0
  rw [h.free k h0]
  rfl

theorem WF.drop (h : t.WF a mode) {t' : Vph} {k : Nat}
    (hslot : t'.slot = Function.update t.slot k Slot.empty)
    (hv : ∀ r, (t'.entry r).valid = true ↔ (t.entry r).valid = true ∧ (t.slot k).tlbindex ≠ r + 1)
    (ha : ∀ r, (t'.entry r).vaddrPage = (t.entry r).vaddrPage) : t'.WF a mode where
  linked := by
    have hk : t'.keyOf a mode = t.keyOf a mode := by funext r; simp only [keyOf, ha]
    have hp : (fun i => (t'.slot i).tlbindex) = Function.update (fun i => (t.slot i).tlbindex) k 0 := by
      funext i
      rw [hslot]
      by_cases hi : i = k
      · subst hi; simp [Slot.empty]
      · simp [Function.update_of_ne hi]
    rw [hp, hk]
    simp only [hv]
    exact h.linked.unlink k
  bounded r hr := h.bounded r ((hv r).mp hr).1
  aligned r hr := by
    rw [ha]
    exact h.aligned r ((hv r).mp hr).1
  free i hi := by
    rw [hslot] at hi ⊢
    by_cases he : i = k
    · subst he; simp
    · rw [Function.update_of_ne he] at hi ⊢
      exact h.free i hi
  loaded i hi := by
    rw [hslot] at hi ⊢
    by_cases he : i = k
    · subst he; simp [Slot.empty] at hi
    · rw [Function.update_of_ne he] at hi ⊢
      exact h.loaded i hi
  physAligned i := by
    rw [hslot]
    by_cases he : i = k
    · subst he; simp [Slot.empty, Arch.Aligned]
    · rw [Function.update_of_ne he]
      exact h.physAligned i

theorem WF.invalidateTlbEntry (h : t.WF a mode) (v : Addr) (flags : Nat) :
    (t.invalidateTlbEntry a mode v flags).WF a mode := by
  have hslot := @invalidateTlbEntry_slot a mode t v flags
  have hentry := @invalidateTlbEntry_entry a mode t v flags
  have ha : ∀ r, ((t.invalidateTlbEntry a mode v flags).entry r).vaddrPage = (t.entry r).vaddrPage := by
    intro r
    rw [hentry]
    split
    · rfl
    · by_cases hr : r = (t.slot (a.addrToPagenr mode v)).tlbindex - 1
      · rw [hr, Function.update_self]
        unfold invalidatedEntry
        split <;> rfl
      · rw [Function.update_of_ne hr]
  by_cases hj : hasFlag flags justMarkAsNonWritable = true
  · simp only [invalidatedSlot, hj, if_true] at hslot
    refine h.mark_nonwritable hslot (fun r => ?_) ha
    rw [hentry]
    simp [invalidatedEntry, hj]
  · simp only [invalidatedSlot, hj, if_false, Bool.false_eq_true] at hslot
    refine h.drop hslot (fun r => ?_) ha
    rw [hentry]
    by_cases h0 : (t.slot (a.addrToPagenr mode v)).tlbindex = 0
    · simp [h0]
    · by_cases hr : r = (t.slot (a.addrToPagenr mode v)).tlbindex - 1
      · subst hr
        simp [h0, invalidatedEntry, hj]
        omega
      · have : (t.slot (a.addrToPagenr mode v)).tlbindex ≠ r + 1 := by omega
        simp [h0, Function.update_of_ne hr, this]

/-! ## Loops over the entries -/

/-- A loop body that, for the valid entries that satisfy `p`, changes the entry
by `h` and the slot of the page it describes by `g`. -/
structure LoopBody (a : Arch) (mode : Mode) (f : Vph → Nat → Vph) (p : VpgTlbEntry → Bool)
    (g : Slot → Slot) (h : VpgTlbEntry → VpgTlbEntry) : Prop where
  skip : ∀ t r, ((t.entry r).valid && p (t.entry r)) = false → f t r = t
  slot : ∀ t r, t.WF a mode → ((t.entry r).valid && p (t.entry r)) = true →
    (f t r).slot = Function.update t.slot (t.keyOf a mode r) (g (t.slot (t.keyOf a mode r)))
  entry : ∀ t r, t.WF a mode → ((t.entry r).valid && p (t.entry r)) = true →
    (f t r).entry = Function.update t.entry r (h (t.entry r))
  wf : ∀ t r, t.WF a mode → ((t.entry r).valid && p (t.entry r)) = true → (f t r).WF a mode

/-- Whether the entry that describes page `k` satisfies `p`. -/
def hit (t : Vph) (p : VpgTlbEntry → Bool) (k : Nat) : Bool :=
  (t.slot k).tlbindex != 0 && p (t.entry ((t.slot k).tlbindex - 1))

section
variable {f : Vph → Nat → Vph} {p : VpgTlbEntry → Bool} {g : Slot → Slot} {h : VpgTlbEntry → VpgTlbEntry}

theorem foldl_spec (hb : LoopBody a mode f p g h) (hw : t.WF a mode) : ∀ n,
    ((List.range n).foldl f t).WF a mode ∧
    (∀ r, ((List.range n).foldl f t).entry r =
      if decide (r < n) && ((t.entry r).valid && p (t.entry r)) then h (t.entry r) else t.entry r) ∧
    ∀ k, ((List.range n).foldl f t).slot k =
      if decide ((t.slot k).tlbindex - 1 < n) && t.hit p k then g (t.slot k) else t.slot k
  | 0 => by simp [hw]
  | n + 1 => by
    obtain ⟨hwn, hen, hsn⟩ := foldl_spec hb hw n
    rw [List.range_succ, List.foldl_append]
    simp only [List.foldl_cons, List.foldl_nil]
    generalize (List.range n).foldl f t = u at hwn hen hsn ⊢
    have hn : u.entry n = t.entry n := by simpa using hen n
    by_cases hv : ((t.entry n).valid && p (t.entry n)) = true
    · -- entry `n` is hit: its slot still is what it was before the loop
      have hv' : ((u.entry n).valid && p (u.entry n)) = true := by rw [hn]; exact hv
      have hval : (t.entry n).valid = true := by simp at hv; exact hv.1
      have hkey : u.keyOf a mode n = t.keyOf a mode n := by simp only [keyOf, hn]
      have hlink := hw.slot_of_entry hval
      refine ⟨hb.wf u n hwn hv', fun r => ?_, fun k => ?_⟩
      · rw [hb.entry u n hwn hv']
        by_cases hr : r = n
        · subst hr
          simp [hn, hv]
        · have hlt : (r < n + 1) = (r < n) := by simp; omega
          rw [Function.update_of_ne hr, hen r]
          simp only [hlt]
      · rw [hb.slot u n hwn hv', hkey]
        by_cases hk : k = t.keyOf a mode n
        · subst hk
          have hp : p (t.entry n) = true := by simp at hv; exact hv.2
          have hs : u.slot (t.keyOf a mode n) = t.slot (t.keyOf a mode n) := by
            rw [hsn, hlink]
            simp
          simp [hs, hlink, hit, hp]
        · rw [Function.update_of_ne hk, hsn k]
          by_cases h0 : (t.slot k).tlbindex = 0
          · simp [hit, h0]
          · have hne : (t.slot k).tlbindex - 1 ≠ n := by
              intro he
              have := (hw.entry_of_slot h0).2
              rw [he] at this
              exact hk this.symm
            have hlt : ((t.slot k).tlbindex - 1 < n + 1) = ((t.slot k).tlbindex - 1 < n) := by simp; omega
            simp only [hlt]
    · -- entry `n` is not hit
      have hv' : ((u.entry n).valid && p (u.entry n)) = false := by rw [hn]; simpa using hv
      rw [hb.skip u n hv']
      refine ⟨hwn, fun r => ?_, fun k => ?_⟩
      · rw [hen r]
        by_cases hr : r = n
        · subst hr
          simp [hv]
        · have hlt : (r < n + 1) = (r < n) := by simp; omega
          simp only [hlt]
      · rw [hsn k]
        by_cases h0 : (t.slot k).tlbindex = 0
        · simp [hit, h0]
        · by_cases he : (t.slot k).tlbindex - 1 = n
          · have hval := (hw.entry_of_slot h0).1
            rw [he] at hval
            have hp : p (t.entry n) = false := by simpa [hval] using hv
            simp [hit, he, hp]
          · have hlt : ((t.slot k).tlbindex - 1 < n + 1) = ((t.slot k).tlbindex - 1 < n) := by simp; omega
            simp only [hlt]

theorem forEntries_spec (hb : LoopBody a mode f p g h) (hw : t.WF a mode) :
    (t.forEntries a f).WF a mode ∧
    (∀ r, (t.forEntries a f).entry r =
      if (t.entry r).valid && p (t.entry r) then h (t.entry r) else t.entry r) ∧
    ∀ k, (t.forEntries a f).slot k = if t.hit p k then g (t.slot k) else t.slot k := by
  obtain ⟨h1, h2, h3⟩ := foldl_spec hb hw a.maxVphTlbEntries
  refine ⟨h1, fun r => ?_, fun k => ?_⟩
  · unfold forEntries
    rw [h2]
    by_cases hv : (t.entry r).valid = true
    · simp [hw.bounded r hv]
    · simp [hv]
  · unfold forEntries
    rw [h3]
    by_cases h0 : (t.slot k).tlbindex = 0
    · simp [hit, h0]
    · have := hw.bounded _ (hw.entry_of_slot h0).1
      simp [this]

end

end Vph

end Gxemul
