import Gxemul.Lib.Run
import Gxemul.Sh.Banked

/- Banked registers on SuperH.

   In the architecture the banks stay where they are, and the status registers tell
   which one a name means: r0 to r7 are in bank 1 if SR has both MD and RB, and FPSCR
   selects a bank of the floating-point registers by FR.

   The emulator keeps the registers that are visible in `r` and `fr`, and the others in
   `r_bank` and `xf`. It changes the integer banks whenever RB changes, and does not
   look at MD. The two agree as long as RB is not set without MD. -/
namespace Gxemul.Sh
open Lib (runOps Along)

/-! ## The architecture -/

inductive Cell where
  | bank (b : Bool) (i : BitVec 3)
  | fpBank (b : Bool) (i : BitVec 4)
  | other (x : RegName)
  deriving DecidableEq

/-- The contents of two banks of integer registers, of two floating-point banks, and of the other registers. -/
abbrev Banks := Cell → Word

def bankSelected (sr : Word) : Bool := anyBit sr shSrMd && anyBit sr shSrRb

def fpBankSelected (fpscr : Word) : Bool := anyBit fpscr shFpscrFr

def cellOf (b fb : Bool) : RegName → Cell
  | .r i => if i < 8#4 then .bank b (i.setWidth 3) else .other (.r i)
  | .rBank i => .bank (!b) i
  | .fr i => .fpBank fb i
  | .xf i => .fpBank (!fb) i
  | x => .other x

namespace Banks
variable (a : Banks)

def cell (x : RegName) : Cell := cellOf (bankSelected (a (.other .sr))) (fpBankSelected (a (.other .fpscr))) x

def view : Regs := fun x => a (a.cell x)

def set (x : RegName) (value : Word) : Banks := Function.update a (a.cell x) value

end Banks

def banksFile : RegFile Banks where
  read := Banks.view
  write := Banks.set
  writeSr a v := a.set .sr v
  writeFpscr a v := a.set .fpscr v

/-! ## Cells and names -/

def nameOf (b fb : Bool) : Cell → RegName
  | .bank b' i => if b' = b then .r (i.setWidth 4) else .rBank i
  | .fpBank b' i => if b' = fb then .fr i else .xf i
  | .other x => x

theorem nameOf_cellOf (b fb : Bool) (x : RegName) : nameOf b fb (cellOf b fb x) = x := by
  cases x with
  | r i =>
    show nameOf b fb (if i < 8#4 then .bank b (i.setWidth 3) else .other (.r i)) = .r i
    by_cases hi : i < 8#4
    · have hwidth : ∀ i : BitVec 4, i < 8#4 → (i.setWidth 3).setWidth 4 = i := by decide
      rw [if_pos hi, nameOf, if_pos rfl, hwidth i hi]
    · rw [if_neg hi, nameOf]
  | rBank i => cases b <;> rfl
  | fr i => simp [cellOf, nameOf]
  | xf i => cases fb <;> rfl
  | mach | macl | pr | fpscr | fpul | sr | ssr | spc | gbr | vbr | sgr | dbr => rfl

theorem cellOf_inj {b fb : Bool} {x y : RegName} (h : cellOf b fb x = cellOf b fb y) : x = y := by
  rw [← nameOf_cellOf b fb x, h, nameOf_cellOf]

namespace Banks
variable {a : Banks} {x : RegName} {v : Word}

theorem view_sr (a : Banks) : a.view .sr = a (.other .sr) := rfl

theorem view_fpscr (a : Banks) : a.view .fpscr = a (.other .fpscr) := rfl

theorem set_sr (a : Banks) (v : Word) : a.set .sr v = Function.update a (.other .sr) v := rfl

theorem set_fpscr (a : Banks) (v : Word) : a.set .fpscr v = Function.update a (.other .fpscr) v := rfl

theorem cell_set (hsr : x ≠ .sr) (hfp : x ≠ .fpscr) (y : RegName) : (a.set x v).cell y = a.cell y := by
  have hcellSr : .other .sr ≠ a.cell x := fun h => hsr (cellOf_inj (x := .sr) h).symm
  have hcellFp : .other .fpscr ≠ a.cell x := fun h => hfp (cellOf_inj (x := .fpscr) h).symm
  unfold cell set
  rw [Function.update_of_ne hcellSr, Function.update_of_ne hcellFp]

theorem view_set (hsr : x ≠ .sr) (hfp : x ≠ .fpscr) : (a.set x v).view = a.view.set x v := by
  funext y
  show a.set x v ((a.set x v).cell y) = _
  rw [cell_set hsr hfp]
  by_cases hy : y = x
  · rw [hy, Regs.set_same]
    exact Function.update_self ..
  · rw [Regs.set_of_ne hy]
    exact Function.update_of_ne (fun h => hy (cellOf_inj h)) ..

theorem exists_view (s : Regs) : ∃ a : Banks, a.view = s := by
  refine ⟨fun c => s (nameOf (bankSelected (s .sr)) (fpBankSelected (s .fpscr)) c), ?_⟩
  funext x
  exact congrArg s (nameOf_cellOf _ _ x)

end Banks

/-! ## The status registers -/

def RbPrivileged (sr : Word) : Prop := anyBit sr shSrRb = true → anyBit sr shSrMd = true

instance (sr : Word) : Decidable (RbPrivileged sr) := inferInstanceAs (Decidable (_ → _))

theorem bankSelected_of_rbPrivileged {sr : Word} (h : RbPrivileged sr) : bankSelected sr = anyBit sr shSrRb := by
  unfold bankSelected
  cases hrb : anyBit sr shSrRb with
  | true => rw [h hrb]; rfl
  | false => rw [Bool.and_false]

theorem and_twoPow_eq_iff (x y : Word) (i : Nat) :
    x &&& BitVec.twoPow 32 i = y &&& BitVec.twoPow 32 i ↔
      anyBit x (BitVec.twoPow 32 i) = anyBit y (BitVec.twoPow 32 i) := by
  unfold anyBit
  rw [BitVec.and_twoPow, BitVec.and_twoPow]
  cases x.getLsbD i <;> cases y.getLsbD i <;> constructor <;> intro h <;> simp_all

namespace Banks
variable {a : Banks} {v : Word}

theorem view_set_sr (hold : RbPrivileged (a.view .sr)) (hnew : RbPrivileged v) :
    (a.set .sr v).view = a.view.shUpdateSr v := by
  have hfp : (a.set .sr v) (.other .fpscr) = a (.other .fpscr) := by
    rw [set_sr]
    exact Function.update_of_ne (by decide) ..
  have hsr : (a.set .sr v) (.other .sr) = v := by
    rw [set_sr]
    exact Function.update_self ..
  have hrb : v &&& shSrRb = a.view .sr &&& shSrRb ↔ anyBit v shSrRb = anyBit (a.view .sr) shSrRb :=
    and_twoPow_eq_iff v (a.view .sr) 29
  have hb := bankSelected_of_rbPrivileged hold
  have hb' := bankSelected_of_rbPrivileged hnew
  have hcell : ∀ y, (a.set .sr v).cell y = cellOf (anyBit v shSrRb) (fpBankSelected (a (.other .fpscr))) y := by
    intro y
    unfold cell
    rw [hfp, hsr, hb']
  have hkeep : ∀ y, cellOf (anyBit v shSrRb) (fpBankSelected (a (.other .fpscr))) y ≠ .other .sr →
      (a.set .sr v).view y = a (cellOf (anyBit v shSrRb) (fpBankSelected (a (.other .fpscr))) y) := by
    intro y hy
    show a.set .sr v ((a.set .sr v).cell y) = _
    rw [hcell]
    exact Function.update_of_ne hy ..
  have hview : ∀ y, a.view y = a (cellOf (anyBit (a.view .sr) shSrRb) (fpBankSelected (a (.other .fpscr))) y) := by
    intro y
    show a (a.cell y) = _
    unfold cell
    rw [← view_sr a, hb]
  funext y
  by_cases hy : y = .sr
  · rw [hy]
    unfold Regs.shUpdateSr
    rw [Regs.set_same]
    exact hsr
  · have hother : ∀ b fb, cellOf b fb y ≠ .other .sr := fun b fb h => hy (@cellOf_inj b fb y .sr h)
    rw [hkeep y (hother _ _)]
    unfold Regs.shUpdateSr
    rw [Regs.set_of_ne hy]
    by_cases hsame : v &&& shSrRb = a.view .sr &&& shSrRb
    · rw [if_neg (not_not_intro hsame), hview y, hrb.mp hsame]
    · rw [if_pos hsame]
      have hflip : anyBit v shSrRb = !anyBit (a.view .sr) shSrRb := Bool.eq_not_iff.mpr fun h => hsame (hrb.mpr h)
      rw [hflip]
      cases y with
      | r i =>
        unfold Regs.swapBanks
        by_cases hi : i < 8#4
        · simp only [if_pos hi, hview, cellOf]
        · simp only [if_neg hi, hview, cellOf]
      | rBank i =>
        have hlt : ∀ i : BitVec 3, i.setWidth 4 < 8#4 := by decide
        have hwidth : ∀ i : BitVec 3, (i.setWidth 4).setWidth 3 = i := by decide
        unfold Regs.swapBanks
        simp only [hview, cellOf, if_pos (hlt i), hwidth i, Bool.not_not]
      | fr | xf | mach | macl | pr | fpscr | fpul | sr | ssr | spc | gbr | vbr | sgr | dbr =>
        unfold Regs.swapBanks
        simp only [hview, cellOf]

theorem view_set_fpscr : (a.set .fpscr v).view = a.view.shUpdateFpscr v := by
  have hsr : (a.set .fpscr v) (.other .sr) = a (.other .sr) := by
    rw [set_fpscr]
    exact Function.update_of_ne (by decide) ..
  have hfp : (a.set .fpscr v) (.other .fpscr) = v := by
    rw [set_fpscr]
    exact Function.update_self ..
  have hfr : v &&& shFpscrFr = a.view .fpscr &&& shFpscrFr ↔ anyBit v shFpscrFr = anyBit (a.view .fpscr) shFpscrFr :=
    and_twoPow_eq_iff v (a.view .fpscr) 21
  have hcell : ∀ y, (a.set .fpscr v).cell y = cellOf (bankSelected (a (.other .sr))) (anyBit v shFpscrFr) y := by
    intro y
    unfold cell
    rw [hfp, hsr]
    rfl
  have hkeep : ∀ y, cellOf (bankSelected (a (.other .sr))) (anyBit v shFpscrFr) y ≠ .other .fpscr →
      (a.set .fpscr v).view y = a (cellOf (bankSelected (a (.other .sr))) (anyBit v shFpscrFr) y) := by
    intro y hy
    show a.set .fpscr v ((a.set .fpscr v).cell y) = _
    rw [hcell]
    exact Function.update_of_ne hy ..
  have hview : ∀ y, a.view y = a (cellOf (bankSelected (a (.other .sr))) (anyBit (a.view .fpscr) shFpscrFr) y) :=
    fun y => rfl
  funext y
  by_cases hy : y = .fpscr
  · rw [hy]
    unfold Regs.shUpdateFpscr
    rw [Regs.set_same]
    exact hfp
  · have hother : ∀ b fb, cellOf b fb y ≠ .other .fpscr :=
      fun b fb h => hy (@cellOf_inj b fb y .fpscr h)
    rw [hkeep y (hother _ _)]
    unfold Regs.shUpdateFpscr
    rw [Regs.set_of_ne hy]
    by_cases hsame : v &&& shFpscrFr = a.view .fpscr &&& shFpscrFr
    · rw [if_neg (not_not_intro hsame), hview y, hfr.mp hsame]
    · rw [if_pos hsame]
      have hflip : anyBit v shFpscrFr = !anyBit (a.view .fpscr) shFpscrFr :=
        Bool.eq_not_iff.mpr fun h => hsame (hfr.mpr h)
      rw [hflip]
      cases y with
      | xf i =>
        unfold Regs.swapFpBanks
        simp only [hview, cellOf, Bool.not_not]
      | r | rBank | fr | mach | macl | pr | fpscr | fpul | sr | ssr | spc | gbr | vbr | sgr | dbr =>
        unfold Regs.swapFpBanks
        simp only [hview, cellOf]

end Banks

/-! ## Instructions and exceptions -/

def ShCpu.view (s : ShCpu Banks) : ShCpu Regs := { s with regs := s.regs.view }

/-- What the emulator does, and what the architecture does: the same, and SR stays as it should be. -/
structure Simulates (x : Except Exit (ShCpu Regs)) (y : Except Exit (ShCpu Banks)) : Prop where
  eq : x = y.map ShCpu.view
  privileged : ∀ s', y = .ok s' → RbPrivileged (s'.read banksFile .sr)

section
variable {s : ShCpu Banks} {x : RegName} {v : Word}

theorem Simulates.ok {t : ShCpu Regs} (h : t = s.view) (hs : RbPrivileged (s.read banksFile .sr)) :
    Simulates (.ok t) (.ok s) :=
  ⟨congrArg Except.ok h, fun s' hs' => by cases hs'; exact hs⟩

theorem Simulates.error (e : Exit) : Simulates (.error e) (.error e) := ⟨rfl, nofun⟩

theorem Simulates.bind {x : Except Exit (ShCpu Regs)} {y : Except Exit (ShCpu Banks)}
    {k : ShCpu Regs → Except Exit (ShCpu Regs)} {k' : ShCpu Banks → Except Exit (ShCpu Banks)} (h : Simulates x y)
    (hk : ∀ s, y = .ok s → RbPrivileged (s.read banksFile .sr) → Simulates (k s.view) (k' s)) :
    Simulates (x >>= k) (y >>= k') := by
  rw [h.eq]
  cases y with
  | error e => exact .error e
  | ok s => exact hk s rfl (h.privileged s rfl)

theorem read_view (x : RegName) : s.view.read shRegFile x = s.read banksFile x := rfl

theorem write_view (hsr : x ≠ .sr) (hfp : x ≠ .fpscr) :
    s.view.write shRegFile x v = (s.write banksFile x v).view := by
  unfold ShCpu.write ShCpu.view
  dsimp only [shRegFile, banksFile]
  rw [Banks.view_set hsr hfp]

theorem read_write_of_ne {y : RegName} (hsr : x ≠ .sr) (hfp : x ≠ .fpscr) (hy : y ≠ x) :
    (s.write banksFile x v).read banksFile y = s.read banksFile y := by
  show (s.regs.set x v).view y = _
  rw [Banks.view_set hsr hfp, Regs.set_of_ne hy]
  rfl

theorem updateSr_view (hold : RbPrivileged (s.read banksFile .sr)) (hnew : RbPrivileged v) :
    s.view.updateSr shRegFile v = (s.updateSr banksFile v).view := by
  unfold ShCpu.updateSr ShCpu.view
  dsimp only [shRegFile, banksFile]
  rw [Banks.view_set_sr hold hnew]

theorem read_updateSr : (s.updateSr banksFile v).read banksFile .sr = v := by
  show (s.regs.set .sr v) (.other .sr) = v
  rw [Banks.set_sr]
  exact Function.update_self ..

theorem updateFpscr_view : s.view.updateFpscr shRegFile v = (s.updateFpscr banksFile v).view := by
  unfold ShCpu.updateFpscr ShCpu.view
  dsimp only [shRegFile, banksFile]
  rw [Banks.view_set_fpscr]

theorem read_updateFpscr : (s.updateFpscr banksFile v).read banksFile .sr = s.read banksFile .sr := by
  show (s.regs.set .fpscr v) (.other .sr) = s.regs (.other .sr)
  rw [Banks.set_fpscr]
  exact Function.update_of_ne (by decide) ..

theorem setPc_view (pc : Addr) : s.view.setPc pc = (s.setPc pc).view := rfl

theorem noteAddress_view (vaddr : Word) : s.view.noteAddress vaddr = (s.noteAddress vaddr).view := rfl

theorem synchPc_view (lowPc : Nat) : s.view.synchPc lowPc = (s.synchPc lowPc).view := rfl

theorem wake_view : s.view.wake = s.wake.view := by
  unfold ShCpu.wake
  by_cases h : s.isHalted = true
  · rw [if_pos h, if_pos (by exact h)]
    rfl
  · rw [if_neg h, if_neg (by exact h)]

theorem leaveSlot_view : s.view.leaveSlot = s.leaveSlot.view := by
  unfold ShCpu.leaveSlot
  by_cases h : s.delaySlot ≠ notDelayed
  · rw [if_pos h, if_pos (by exact h)]
    rfl
  · rw [if_neg h, if_neg (by exact h)]

theorem saveState_view : s.view.saveState shRegFile = (s.saveState banksFile).view := by
  unfold ShCpu.saveState
  dsimp only
  rw [write_view (by decide) (by decide), read_view, write_view (by decide) (by decide), read_view,
    write_view (by decide) (by decide)]
  rfl

theorem saveState_sr : (s.saveState banksFile).read banksFile .sr = s.read banksFile .sr := by
  unfold ShCpu.saveState
  rw [read_write_of_ne (by decide) (by decide) (by decide), read_write_of_ne (by decide) (by decide) (by decide),
    read_write_of_ne (by decide) (by decide) (by decide)]

theorem rbPrivileged_exception (sr : Word) : RbPrivileged (sr ||| shSrMd ||| shSrRb ||| shSrBl) := by
  intro _
  rw [anyBit_or, anyBit_or, anyBit_or, show anyBit shSrMd shSrMd = true from rfl, Bool.or_true, Bool.true_or,
    Bool.true_or]

theorem rbPrivileged_reset {sr : Word} (h : RbPrivileged sr) : RbPrivileged ((sr ||| shSrImask) &&& ~~~ shSrFd) := by
  intro hrb
  rw [anyBit_keep (by decide), anyBit_or] at hrb ⊢
  have hmask : anyBit shSrImask shSrRb = false := rfl
  rw [hmask, Bool.or_false] at hrb
  rw [h hrb, Bool.true_or]

theorem specificCases_view {vbr vaddr : Word} {expevt : Option Word} (hs : RbPrivileged (s.read banksFile .sr)) :
    Simulates (s.view.specificCases shRegFile vbr expevt vaddr) (s.specificCases banksFile vbr expevt vaddr) := by
  unfold ShCpu.specificCases
  cases expevt with
  | none => exact .ok (setPc_view _) (by rwa [ShCpu.read_setPc])
  | some expevt =>
    dsimp only
    split
    · -- a reset
      have hvbr : ((s.setPc 0xa0000000#64).write banksFile .vbr 0#32).read banksFile .sr = s.read banksFile .sr :=
        read_write_of_ne (by decide) (by decide) (by decide)
      rw [setPc_view, write_view (by decide) (by decide), read_view, hvbr,
        updateSr_view (hvbr.symm ▸ hs) (rbPrivileged_reset hs)]
      refine .ok rfl ?_
      rw [read_updateSr]
      exact rbPrivileged_reset hs
    · split
      · rw [setPc_view, noteAddress_view]
        exact .ok rfl (by rwa [ShCpu.read_noteAddress, ShCpu.read_setPc])
      · split
        · exact .ok (noteAddress_view _) (by rwa [ShCpu.read_noteAddress])
        · split
          · refine .ok ?_ ?_
            · rw [read_view, write_view (by decide) (by decide)]
            · rw [read_write_of_ne (by decide) (by decide) (by decide)]
              exact hs
          · split
            · exact .error _
            · split
              · exact .ok rfl hs
              · exact .error _

theorem shException_view {expevt intevt vaddr : Word} (hs : RbPrivileged (s.read banksFile .sr)) :
    Simulates (s.view.shException shRegFile expevt intevt vaddr) (s.shException banksFile expevt intevt vaddr) := by
  unfold ShCpu.shException
  dsimp only
  rw [wake_view, leaveSlot_view, saveState_view]
  have hsr : RbPrivileged ((s.wake.leaveSlot.saveState banksFile).read banksFile .sr) := by
    rw [saveState_sr]
    unfold ShCpu.leaveSlot ShCpu.wake
    split <;> split <;> exact hs
  generalize s.wake.leaveSlot.saveState banksFile = t at hsr ⊢
  -- the event is noted, and the mode is changed
  obtain ⟨t', ht', hregs⟩ : ∃ t' : ShCpu Banks, (if (0#32).slt intevt then { t.view with intevt }
      else { t.view with expevt := if anyBit (s.view.read shRegFile .sr) shSrBl then expevtResetPower else expevt }) =
        t'.view ∧ t' = (if (0#32).slt intevt then { t with intevt }
      else { t with expevt := if anyBit (s.read banksFile .sr) shSrBl then expevtResetPower else expevt }) := by
    refine ⟨_, ?_, rfl⟩
    split <;> rfl
  rw [ht', ← hregs]
  have hsr' : t'.read banksFile .sr = t.read banksFile .sr := by
    rw [hregs]
    split <;> rfl
  have hnew := rbPrivileged_exception (t'.read banksFile .sr)
  rw [read_view, read_view, read_view, updateSr_view (hsr'.symm ▸ hsr) hnew, setPc_view]
  refine specificCases_view ?_
  show RbPrivileged ((t'.updateSr banksFile _).read banksFile .sr)
  rw [read_updateSr]
  exact hnew

/-! ## Instructions -/

theorem resInstIfNotMd_view {lowPc : Nat} {x : Except Exit (ShCpu Regs)} {y : Except Exit (ShCpu Banks)}
    (hs : RbPrivileged (s.read banksFile .sr))
    (hnext : anyBit (s.read banksFile .sr) shSrMd = true → Simulates x y) :
    Simulates (s.view.resInstIfNotMd shRegFile lowPc x) (s.resInstIfNotMd banksFile lowPc y) := by
  unfold ShCpu.resInstIfNotMd
  rw [read_view]
  cases hmd : anyBit (s.read banksFile .sr) shSrMd with
  | false =>
    have hnot : (!false) = true := rfl
    rw [if_pos hnot, if_pos hnot, synchPc_view]
    exact shException_view (by rwa [ShCpu.read_synchPc])
  | true => exact hnext hmd

theorem floatingPointAvailableCheck_view {lowPc : Nat} {x : Except Exit (ShCpu Regs)} {y : Except Exit (ShCpu Banks)}
    (hs : RbPrivileged (s.read banksFile .sr)) (hnext : Simulates x y) :
    Simulates (s.view.floatingPointAvailableCheck shRegFile lowPc x)
      (s.floatingPointAvailableCheck banksFile lowPc y) := by
  unfold ShCpu.floatingPointAvailableCheck
  rw [read_view]
  cases anyBit (s.read banksFile .sr) shSrFd with
  | true =>
    rw [if_pos rfl, if_pos rfl, synchPc_view]
    exact shException_view (by rwa [ShCpu.read_synchPc])
  | false => exact hnext

def Answer.Brings (answer : Answer) (data : Word) : Prop := answer = .page data ∨ answer = .memoryRw data

theorem answered_view {lowPc : Nat} {answer : Answer} {addr : Word} {k : ShCpu Regs → Word → ShCpu Regs}
    {k' : ShCpu Banks → Word → ShCpu Banks} (hs : RbPrivileged (s.read banksFile .sr))
    (hnext : ∀ (t : ShCpu Banks) data, (∀ x, t.read banksFile x = s.read banksFile x) → answer.Brings data →
      Simulates (.ok (k t.view data)) (.ok (k' t data))) :
    Simulates (s.view.answered shRegFile lowPc answer addr k) (s.answered banksFile lowPc answer addr k') := by
  unfold ShCpu.answered
  cases answer with
  | page data => exact hnext s data (fun _ => rfl) (Or.inl rfl)
  | memoryRw data => exact hnext (s.synchPc lowPc) data (fun _ => ShCpu.read_synchPc ..) (Or.inr rfl)
  | fault expevt => exact shException_view (s := s.synchPc lowPc) (by rwa [ShCpu.read_synchPc])

theorem Simulates.write (hs : RbPrivileged (s.read banksFile .sr)) (hsr : x ≠ .sr) (hfp : x ≠ .fpscr) (v : Word) :
    Simulates (.ok (s.view.write shRegFile x v)) (.ok (s.write banksFile x v)) :=
  .ok (write_view hsr hfp) (by rwa [read_write_of_ne hsr hfp hsr.symm])

theorem Simulates.updateSr (hs : RbPrivileged (s.read banksFile .sr)) (hv : RbPrivileged v) :
    Simulates (.ok (s.view.updateSr shRegFile v)) (.ok (s.updateSr banksFile v)) :=
  .ok (updateSr_view hs hv) (by rwa [read_updateSr])

theorem Simulates.updateFpscr (hs : RbPrivileged (s.read banksFile .sr)) (v : Word) :
    Simulates (.ok (s.view.updateFpscr shRegFile v)) (.ok (s.updateFpscr banksFile v)) :=
  .ok updateFpscr_view (by rwa [read_updateFpscr])

theorem r_ne_sr (i : BitVec 4) : RegName.r i ≠ .sr := nofun

theorem r_ne_fpscr (i : BitVec 4) : RegName.r i ≠ .fpscr := nofun

def BankedInstr.KeepsMode {σ : Type} (f : RegFile σ) (s : ShCpu σ) (answer : Answer) : BankedInstr → Prop
  | .ldcRmSr m => anyBit (s.read f .sr) shSrMd = true → RbPrivileged (s.read f (.r m))
  | .movLArg1PostincToArg0Md .sr _ =>
    anyBit (s.read f .sr) shSrMd = true → ∀ data, answer.Brings data → RbPrivileged data
  | _ => True

theorem exec_view {lowPc : Nat} {answer : Answer} {i : BankedInstr} (hs : RbPrivileged (s.read banksFile .sr))
    (hlegal : i.Legal) (hmode : i.KeepsMode banksFile s answer) :
    Simulates (s.view.exec shRegFile lowPc answer i) (s.exec banksFile lowPc answer i) := by
  cases i with
  | copyPrivilegedRegister src dst => exact resInstIfNotMd_view hs fun _ => .write hs hlegal.1 hlegal.2 _
  | ldcRmSr m => exact resInstIfNotMd_view hs fun hmd => .updateSr hs (hmode hmd)
  | stcLRmPredecRnMd src n =>
    refine resInstIfNotMd_view hs fun _ => answered_view hs fun t data ht _ => .write ?_ (r_ne_sr n) (r_ne_fpscr n) _
    rwa [ht]
  | movLArg1PostincToArg0Md dst m =>
    refine resInstIfNotMd_view hs fun hmd => answered_view hs fun t data ht hdata => ?_
    have hsr : (t.write banksFile (.r m) (s.read banksFile (.r m) + 4#32)).read banksFile .sr = s.read banksFile .sr :=
      (read_write_of_ne (r_ne_sr m) (r_ne_fpscr m) (r_ne_sr m).symm).trans (ht _)
    rw [read_view, write_view (r_ne_sr m) (r_ne_fpscr m)]
    by_cases hdst : dst = .sr
    · subst hdst
      rw [if_pos rfl, if_pos rfl]
      exact .updateSr (by rwa [hsr]) (hmode hmd data hdata)
    · rw [if_neg hdst, if_neg hdst]
      exact .write (by rwa [hsr]) hdst hlegal _
  | copyFpRegister src dst => exact floatingPointAvailableCheck_view hs (.write hs hlegal.1 hlegal.2 _)
  | ldsRmFpscr m => exact floatingPointAvailableCheck_view hs (.updateFpscr hs _)
  | movLArg1PostincToArg0Fp dst m =>
    refine floatingPointAvailableCheck_view hs (answered_view hs fun t data ht hdata => ?_)
    have hsr : (t.write banksFile (.r m) (s.read banksFile (.r m) + 4#32)).read banksFile .sr = s.read banksFile .sr :=
      (read_write_of_ne (r_ne_sr m) (r_ne_fpscr m) (r_ne_sr m).symm).trans (ht _)
    rw [read_view, write_view (r_ne_sr m) (r_ne_fpscr m)]
    by_cases hdst : dst = .fpscr
    · subst hdst
      rw [if_pos rfl, if_pos rfl]
      exact .updateFpscr (by rwa [hsr]) _
    · rw [if_neg hdst, if_neg hdst]
      exact .write (by rwa [hsr]) hlegal hdst _
  | fmovFrmFrn m n =>
    have hpair : ∀ i, ((pairOf i).1 ≠ .sr ∧ (pairOf i).1 ≠ .fpscr) ∧ (pairOf i).2 ≠ .sr ∧ (pairOf i).2 ≠ .fpscr := by
      intro i
      unfold pairOf
      split <;> exact ⟨⟨nofun, nofun⟩, nofun, nofun⟩
    obtain ⟨⟨hsr1, hfp1⟩, hsr2, hfp2⟩ := hpair n
    refine floatingPointAvailableCheck_view hs ?_
    rw [read_view]
    cases anyBit (s.read banksFile .fpscr) shFpscrSz with
    | false => exact .write (x := .fr n) hs nofun nofun _
    | true =>
      have hfirst := read_write_of_ne (s := s) (v := s.read banksFile (pairOf m).1) hsr1 hfp1 hsr1.symm
      rw [write_view hsr1 hfp1]
      exact .write (by rwa [read_view, hfirst]) hsr2 hfp2 _
  | frchg => exact floatingPointAvailableCheck_view hs (.updateFpscr hs _)
  | fschg => exact floatingPointAvailableCheck_view hs (.updateFpscr hs _)

end

/-! ## Runs -/

/-- What happens to the registers: instructions write ordinary registers and T, they change or name banks, and
there are exceptions and interrupts. rte has another instruction in its delay slot. -/
inductive BankedOp where
  | writeR (i : BitVec 4) (value : Word)
  | writeFr (i : BitVec 4) (value : Word)
  | setT (t : Bool)
  | instr (w : BankedWord) (lowPc : Nat) (answer : Answer)
  | rte (lowPc : Nat) (slot : BankedOp)
  | exception (expevt vaddr : Word)
  | interrupt (intevt : Word)
  | synchPc (lowPc : Nat)

namespace BankedOp
variable {σ : Type} (f : RegFile σ)

def exec : BankedOp → ShCpu σ → Except Exit (ShCpu σ)
  | writeR i value, s => .ok (s.write f (.r i) value)
  | writeFr i value, s => .ok (s.write f (.fr i) value)
  | setT t, s => .ok (s.write f .sr (if t then s.read f .sr ||| shSrT else s.read f .sr &&& ~~~ shSrT))
  | instr w lowPc answer, s => s.exec f lowPc answer w.instr
  | rte lowPc slot, s => s.rte f lowPc (exec slot)
  | exception expevt vaddr, s => s.shException f expevt 0#32 vaddr
  | interrupt intevt, s => s.shException f 0#32 intevt 0#32
  | synchPc lowPc, s => .ok (s.synchPc lowPc)

/-- What the operation writes to SR has RB only with MD: the value of the instruction ldc, the one that ldc.l
loads, or SSR when rte returns. -/
def KeepsMode : BankedOp → ShCpu σ → Prop
  | instr w _ answer, s => w.instr.KeepsMode f s answer
  | rte _ slot, s =>
    anyBit (s.read f .sr) shSrMd = true → KeepsMode slot { s with delaySlot := toBeDelayed } ∧
      ∀ s', exec f slot { s with delaySlot := toBeDelayed } = .ok s' →
        hasFlag s'.delaySlot exceptionInDelaySlot = false → RbPrivileged (s'.read f .ssr)
  | _, _ => True

end BankedOp

section
variable {s : ShCpu Banks}

theorem rbPrivileged_setT {sr : Word} (h : RbPrivileged sr) (t : Bool) :
    RbPrivileged (if t then sr ||| shSrT else sr &&& ~~~ shSrT) := by
  intro hrb
  cases t with
  | true =>
    rw [if_pos rfl, anyBit_or] at hrb ⊢
    have hmask : anyBit shSrT shSrRb = false := rfl
    rw [hmask, Bool.or_false] at hrb
    rw [h hrb, Bool.true_or]
  | false =>
    rw [if_neg (by decide), anyBit_keep (by decide)] at hrb ⊢
    exact h hrb

theorem setT_view (hs : RbPrivileged (s.read banksFile .sr)) (t : Bool) :
    s.view.write shRegFile .sr (if t then s.read banksFile .sr ||| shSrT else s.read banksFile .sr &&& ~~~ shSrT) =
      (s.write banksFile .sr (if t then s.read banksFile .sr ||| shSrT
        else s.read banksFile .sr &&& ~~~ shSrT)).view := by
  have hsame : ∀ sr : Word, (if t then sr ||| shSrT else sr &&& ~~~ shSrT) &&& shSrRb = sr &&& shSrRb := by
    intro sr
    have hT : shSrT &&& shSrRb = 0#32 := rfl
    have hnT : ~~~ shSrT &&& shSrRb = shSrRb := rfl
    cases t with
    | true => rw [if_pos rfl, BitVec.and_or_distrib_right, hT, BitVec.or_zero]
    | false => rw [if_neg (by decide), BitVec.and_assoc, hnT]
  have hupdate := updateSr_view hs (rbPrivileged_setT hs t)
  have hplain : ∀ v, v &&& shSrRb = s.read banksFile .sr &&& shSrRb →
      s.view.updateSr shRegFile v = s.view.write shRegFile .sr v := by
    intro v hv
    unfold ShCpu.updateSr ShCpu.write
    dsimp only [shRegFile]
    unfold Regs.shUpdateSr
    rw [if_neg (not_not_intro (by exact hv))]
  rw [← hplain _ (hsame _)]
  exact hupdate

theorem bankedOp_view {o : BankedOp} (hs : RbPrivileged (s.read banksFile .sr)) (hmode : o.KeepsMode banksFile s) :
    Simulates (o.exec shRegFile s.view) (o.exec banksFile s) := by
  induction o generalizing s with
  | writeR i value => exact .write hs (r_ne_sr i) (r_ne_fpscr i) value
  | writeFr i value => exact .write (x := .fr i) hs nofun nofun value
  | setT t =>
    refine .ok (setT_view hs t) ?_
    show RbPrivileged ((s.updateSr banksFile _).read banksFile .sr)
    rw [read_updateSr]
    exact rbPrivileged_setT hs t
  | instr w lowPc answer => exact exec_view hs (legal_of_translated w.translated) hmode
  | rte lowPc slot ih =>
    refine resInstIfNotMd_view hs fun hmd => ?_
    obtain ⟨hslot, hssr⟩ := hmode hmd
    refine Simulates.bind (ih (s := { s with delaySlot := toBeDelayed }) hs hslot) fun s' hs' hpriv => ?_
    have hflag : s'.view.delaySlot = s'.delaySlot := rfl
    rw [hflag]
    cases hexc : hasFlag s'.delaySlot exceptionInDelaySlot with
    | true => exact .ok rfl hpriv
    | false => exact .updateSr (s := { s' with pc := _, delaySlot := notDelayed }) hpriv (hssr s' hs' hexc)
  | exception expevt vaddr => exact shException_view hs
  | interrupt intevt => exact shException_view hs
  | synchPc lowPc => exact .ok (synchPc_view lowPc) (by rwa [ShCpu.read_synchPc])

theorem keepsMode_of_view {o : BankedOp} (hs : RbPrivileged (s.read banksFile .sr)) (h : o.KeepsMode shRegFile s.view) :
    o.KeepsMode banksFile s := by
  induction o generalizing s with
  | instr w lowPc answer =>
    exact h
  | rte lowPc slot ih =>
    intro hmd
    obtain ⟨hslot, hssr⟩ := h hmd
    have hslot' := ih (s := { s with delaySlot := toBeDelayed }) hs hslot
    refine ⟨hslot', fun s' hs' hexc => ?_⟩
    have hsim := (bankedOp_view (s := { s with delaySlot := toBeDelayed }) hs hslot').eq
    rw [hs'] at hsim
    exact hssr s'.view hsim hexc
  | writeR | writeFr | setT | exception | interrupt | synchPc => exact trivial

/-- As long as nothing writes RB without MD to SR, the registers of the emulator are those of the architecture, in
every run from every state. -/
theorem registers_represent_banks (s : ShCpu Regs) (hs : RbPrivileged (s.read shRegFile .sr)) :
    ∃ a : ShCpu Banks, a.view = s ∧
      ∀ ops, Along (fun s (o : BankedOp) => o.exec shRegFile s) (fun s o => o.KeepsMode shRegFile s) ops s →
        runOps (fun s (o : BankedOp) => o.exec shRegFile s) ops s =
          (runOps (fun s (o : BankedOp) => o.exec banksFile s) ops a).map ShCpu.view := by
  obtain ⟨banks, hview⟩ := Banks.exists_view s.regs
  refine ⟨{ s with regs := banks }, ?_, fun ops hkeeps => ?_⟩
  · unfold ShCpu.view
    rw [hview]
  · have hstart : ShCpu.view { s with regs := banks } = s := by
      unfold ShCpu.view
      rw [hview]
    rw [← hstart] at hs hkeeps ⊢
    refine @Lib.runOps_map_along _ _ _ _ _ _ _ (fun a => RbPrivileged (a.read banksFile .sr)) _ ?_ ?_ _ _ hs hkeeps
    · exact fun a o hinv hmode => (bankedOp_view hinv (keepsMode_of_view hinv hmode)).eq
    · exact fun a o a' hinv hmode ha' => (bankedOp_view hinv (keepsMode_of_view hinv hmode)).privileged a' ha'

end

/-! ## RB without MD -/

/-- The state after a reset, with a value in r1 that has RB set and MD cleared, and with different values of r0
in the two banks. -/
def startBanks : ShCpu Banks where
  regs
    | .bank false 1#3 => 0x20000000#32
    | .bank false 0#3 => 5#32
    | .bank true 0#3 => 7#32
    | .other .sr => shSrMd ||| shSrImask
    | .other .fpscr => 0x00040001#32
    | _ => 0#32
  pc := 0xa0000000#64
  delaySlot := notDelayed
  isHalted := false
  mmu := ⟨0#32, 0#32, 0#32, 0#32, 0#32, fun _ => ⟨0#32, 0#32⟩, fun _ => ⟨0#32, 0#32⟩⟩
  tra := 0#32
  expevt := 0#32
  intevt := 0#32

/-- An interrupt, and a write to r0 of bank 1. -/
theorem registers_represent_banks_interrupt :
    ∃ a : ShCpu Banks, a.view = startBanks.view ∧
      runOps (fun s (o : BankedOp) => o.exec shRegFile s) [.interrupt 0x3e0#32, .writeR 0#4 9#32] startBanks.view =
        (runOps (fun s (o : BankedOp) => o.exec banksFile s) [.interrupt 0x3e0#32, .writeR 0#4 9#32] a).map
          ShCpu.view := by
  obtain ⟨a, ha, hrun⟩ := registers_represent_banks startBanks.view (by decide +kernel)
  exact ⟨a, ha, hrun _ ⟨trivial, fun _ _ => ⟨trivial, fun _ _ => trivial⟩⟩⟩

/-- `ldc r1,sr`. -/
def ldcR1Sr : BankedOp := .instr ⟨0x410e#16, .ldcRmSr 1#4, rfl⟩ 0 (.page 0#32)

/-- In user mode r0 to r7 are in bank 0, and the emulator shows bank 1 after this instruction. -/
theorem registers_not_banks :
    ¬ (runOps (fun s (o : BankedOp) => o.exec shRegFile s) [ldcR1Sr] startBanks.view =
      (runOps (fun s (o : BankedOp) => o.exec banksFile s) [ldcR1Sr] startBanks).map ShCpu.view) := by
  intro h
  have hr0 := congrArg (fun r => r.toOption.map fun s : ShCpu Regs => s.regs (.r 0#4)) h
  revert hr0
  decide +kernel

end Gxemul.Sh
