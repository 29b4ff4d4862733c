import Gxemul.Arm.LoadStoreAgree
import Gxemul.Sh.PairAccess

/- Pairs of floating-point registers in memory: what the two stores leave there, and
   what the two loads bring back.

   All four use the tables for the first word only. The second word of the store
   without decrement is not converted to the byte order of the guest, and a page of
   1 KB is in the tables as if all 4 KB around it were mapped with it. -/
namespace Gxemul.Sh

open Lib
open Arm (swap32 hostWord)

/-! ## Words -/

theorem swap32_swap32 (x : Word) : swap32 (swap32 x) = x := by
  have hrev := Arm.leBytes_swap32 (swap32 x)
  rw [Arm.leBytes_swap32 x, List.reverse_reverse, leBytes_inj] at hrev
  apply BitVec.eq_of_toNat_eq
  omega

section
variable {c : ShConf}

theorem toHost32_toHost32 (x : Word) : c.toHost32 (c.toHost32 x) = x := by
  unfold ShConf.toHost32
  split
  · rfl
  · exact swap32_swap32 x

theorem toHost32_eq_iff (x : Word) : x = c.toHost32 x ↔ c.big = c.hostBig ∨ swap32 x = x := by
  unfold ShConf.toHost32
  split
  · next h => exact ⟨fun _ => .inl h, fun _ => rfl⟩
  · next h => exact ⟨fun hx => .inr hx.symm, fun hx => (hx.resolve_left h).symm⟩

theorem hostWord_write (hostBig : Bool) (host : ByteMem) (p : Nat) (x : Word) :
    hostWord hostBig (host.write p (bytes hostBig 4 x.toNat)) p = x := by
  have hread := host.read_write p (bytes hostBig 4 x.toNat)
  rw [length_bytes] at hread
  unfold hostWord
  rw [hread, value_bytes]
  apply BitVec.eq_of_toNat_eq
  rw [BitVec.toNat_ofNat]
  omega

theorem hostWord_write_other (hostBig : Bool) (host : ByteMem) {p q : Nat} {l : List Byte} (hlen : l.length = 4)
    (h : p + 4 ≤ q ∨ q + 4 ≤ p) : hostWord hostBig (host.write p l) q = hostWord hostBig host q := by
  unfold hostWord ByteMem.read
  congr 2
  apply List.map_congr_left
  intro i hi
  have hi := List.mem_range.mp hi
  exact ByteMem.write_other _ (by omega)

end

/-! ## Accesses -/

namespace ShMachine
variable {c : ShConf} {io : ShIo} {lowPc : Nat} {s : ShMachine} {a paddr : Word} {block : Nat}

def firstPtr (a paddr : Word) (block : Nat) (p : Option Nat) : Nat :=
  block + if p.isSome then a.toNat % 4096 else paddr.toNat % 4096

theorem wordOfPage_eq (ha : a.toNat % 8 = 0) : wordOfPage block a = block + a.toNat % 4096 := by
  have hmask : (0xfff#32 : Word) = ~~~ pageBits 12 := by decide
  unfold wordOfPage
  rw [BitVec.toNat_ushiftRight, hmask, toNat_and_not_pageBits, Nat.shiftRight_eq_div_pow]
  omega

theorem PairRam.synchPc (h : s.PairRam io a paddr block) (lowPc : Nat) : (s.synchPc lowPc).PairRam io a paddr block :=
  h.of_regs rfl rfl rfl rfl

theorem PairRam.loadWord (h : s.PairRam io a paddr block) (second : Bool) :
    ∃ s', s.loadWord c io lowPc none (wordAt a second) =
        .ok (s', some (hostWord c.hostBig s.host (wordPtr paddr block second))) ∧
      s'.PairRam io a paddr block ∧ s'.cpu.regs = s.cpu.regs ∧ s'.host = s.host := by
  obtain ⟨s', hrw, hram, hregs, hhost, -⟩ := (h.synchPc lowPc).memoryRw (c := c) false second
    (show (List.replicate 4 (0 : Byte)).length = 4 from rfl)
  refine ⟨s', ?_, hram, hregs, hhost⟩
  show (ShMachine.memoryRw c io (s.synchPc lowPc) (wordAccess (wordAt a second) false) _ >>= _) = _
  rw [hrw]
  rfl

theorem PairRam.storeWord (h : s.PairRam io a paddr block) (second : Bool) (data : Word) :
    ∃ s', s.storeWord c io lowPc none (wordAt a second) data = .ok (s', some ()) ∧
      s'.PairRam io a paddr block ∧ s'.cpu.regs = s.cpu.regs ∧
      s'.host = s.host.write (wordPtr paddr block second) (bytes c.hostBig 4 data.toNat) ∧
      s'.hostLoad a = some block := by
  obtain ⟨s', hrw, hram, hregs, hhost, hload⟩ := (h.synchPc lowPc).memoryRw (c := c) true second
    (length_bytes c.hostBig 4 data.toNat)
  refine ⟨s', ?_, hram, hregs, hhost, hload⟩
  show (ShMachine.memoryRw c io (s.synchPc lowPc) (wordAccess (wordAt a second) true) _ >>= _) = _
  rw [hrw]
  rfl

theorem PairRam.loadFirst (h : s.PairRam io a paddr block) {p : Option Nat} (hp : ∀ q, p = some q → q = block) :
    ∃ s', s.loadWord c io lowPc p a = .ok (s', some (hostWord c.hostBig s.host (firstPtr a paddr block p))) ∧
      s'.PairRam io a paddr block ∧ s'.cpu.regs = s.cpu.regs ∧ s'.host = s.host := by
  cases p with
  | none => exact h.loadWord false
  | some q =>
    obtain rfl := hp q rfl
    refine ⟨s, ?_, h, rfl, rfl⟩
    unfold ShMachine.loadWord
    dsimp only
    rw [wordOfPage_eq h.aligned]
    rfl

theorem PairRam.storeFirst (h : s.PairRam io a paddr block) {p : Option Nat} (hp : ∀ q, p = some q → q = block)
    (data : Word) :
    ∃ s', s.storeWord c io lowPc p a data = .ok (s', some ()) ∧ s'.PairRam io a paddr block ∧
      s'.cpu.regs = s.cpu.regs ∧ s'.host = s.host.write (firstPtr a paddr block p) (bytes c.hostBig 4 data.toNat) ∧
      (s.hostLoad a = some block → s'.hostLoad a = some block) := by
  cases p with
  | none =>
    obtain ⟨s', hrw, hram, hregs, hhost, hload⟩ := h.storeWord false data
    exact ⟨s', hrw, hram, hregs, hhost, fun _ => hload⟩
  | some q =>
    obtain rfl := hp q rfl
    refine ⟨{ s with host := s.host.write (firstPtr a paddr q (some q)) (bytes c.hostBig 4 data.toNat) }, ?_,
      h.of_regs rfl rfl rfl rfl, rfl, rfl, fun hl => hl⟩
    unfold ShMachine.storeWord
    dsimp only
    rw [wordOfPage_eq h.aligned]
    rfl

/-! ## The instructions -/

variable (c io lowPc s) in
/-- `fmov DRm,@Rn` and `fmov DRm,@-Rn`, with the address to store to. -/
def storePair (decrement : Bool) (m n : BitVec 4) (a : Word) : Except Exit (ShMachine × Bool) :=
  if decrement then (s.setReg (.r n) (a + 8#32)).fmovFrmPredecRn c io lowPc m n
  else (s.setReg (.r n) a).fmovFrmRn c io lowPc m n

variable (c io lowPc s) in
/-- `fmov @Rm,DRn` and `fmov @Rm+,DRn`, with the address to load from. -/
def loadPair (increment : Bool) (m n : BitVec 4) (a : Word) : Except Exit (ShMachine × Bool) :=
  if increment then (s.setReg (.r m) a).fmovRmPostincFrn c io lowPc m n
  else (s.setReg (.r m) a).fmovRmFrn c io lowPc m n

def MovesPairs (s : ShMachine) : Prop := anyBit (s.reg .sr) shSrFd = false ∧ s.pairSize = true

theorem MovesPairs.of_regs {s' : ShMachine} (h : s.MovesPairs) (hsr : s'.reg .sr = s.reg .sr)
    (hfpscr : s'.reg .fpscr = s.reg .fpscr) : s'.MovesPairs := by
  unfold MovesPairs pairSize at h ⊢
  rw [hsr, hfpscr]
  exact h

@[simp] theorem reg_setReg (x : RegName) (v : Word) : (s.setReg x v).reg x = v := Regs.set_same

theorem reg_setReg_of_ne {x y : RegName} (h : y ≠ x) (v : Word) : (s.setReg x v).reg y = s.reg y := Regs.set_of_ne h

@[simp] theorem reg_sr_setReg (i : BitVec 4) (v : Word) : (s.setReg (.r i) v).reg .sr = s.reg .sr :=
  reg_setReg_of_ne (by nofun) v

@[simp] theorem reg_fpscr_setReg (i : BitVec 4) (v : Word) : (s.setReg (.r i) v).reg .fpscr = s.reg .fpscr :=
  reg_setReg_of_ne (by nofun) v

@[simp] theorem reg_fr_setReg (i j : BitVec 4) (v : Word) : (s.setReg (.r i) v).reg (.fr j) = s.reg (.fr j) :=
  reg_setReg_of_ne (by nofun) v

theorem MovesPairs.setReg (h : s.MovesPairs) (i : BitVec 4) (v : Word) : (s.setReg (.r i) v).MovesPairs :=
  h.of_regs (by simp) (by simp)

theorem PairRam.setReg (h : s.PairRam io a paddr block) (i : BitVec 4) (v : Word) :
    (s.setReg (.r i) v).PairRam io a paddr block :=
  h.of_regs rfl (by simp) rfl rfl

theorem andThen_some {α : Type} (x : α) (next : ShMachine → α → Except Exit (ShMachine × Bool)) :
    andThen (.ok (s, some x)) next = next s x := rfl

theorem available_of_enabled (h : s.MovesPairs) (next : Except Exit (ShMachine × Bool)) :
    s.floatingPointAvailableCheck c io lowPc next = next := by
  unfold floatingPointAvailableCheck
  rw [h.1]
  rfl

theorem odd_of_not_even {n : BitVec 4} : ¬ n &&& 1#4 = 0#4 → n &&& 1#4 = 1#4 := by
  revert n
  decide

theorem pair_even {m : BitVec 4} (hm : m &&& 1#4 = 0#4) :
    pairOf m = (.fr m, .fr (m + 1#4)) ∧ ¬ m &&& 1#4 = 1#4 ∧ m ≠ 15#4 ∧ m + 1#4 ≠ m := by
  have hodd : ¬ m &&& 1#4 = 1#4 := by rw [hm]; decide
  refine ⟨if_neg hodd, hodd, ?_, ?_⟩
  · rintro rfl
    exact hodd rfl
  · revert m
    decide

section
variable {m n : BitVec 4}

theorem fmovFrmPredecRn_pair (hp : s.MovesPairs) (hm : m &&& 1#4 = 0#4) : s.fmovFrmPredecRn c io lowPc m n =
    andThen (s.storeWord c io lowPc (s.hostStore (s.reg (.r n) - 8#32)) (s.reg (.r n) - 8#32) (c.toHost32 (s.reg (.fr m))))
      fun s1 _ => andThen (s1.storeWord c io lowPc none (s.reg (.r n) - 8#32 + 4#32) (c.toHost32 (s1.reg (.fr (m + 1#4)))))
        fun s2 _ => .ok (s2.setReg (.r n) (s.reg (.r n) - 8#32), true) := by
  unfold fmovFrmPredecRn
  rw [available_of_enabled hp]
  simp only [hp.2, if_true, (pair_even hm).1]

theorem fmovFrmRn_pair (hp : s.MovesPairs) (hm : m &&& 1#4 = 0#4) : s.fmovFrmRn c io lowPc m n =
    if n &&& 1#4 = 1#4 then .error .oddFloatRegister
    else andThen (s.storeWord c io lowPc none (s.reg (.r n) + 4#32) (s.reg (.fr (m + 1#4))))
      fun s1 _ => andThen (s1.storeWord c io lowPc (s.hostStore (s.reg (.r n))) (s.reg (.r n)) (c.toHost32 (s.reg (.fr m))))
        fun s2 _ => .ok (s2, true) := by
  unfold fmovFrmRn
  rw [available_of_enabled hp]
  simp only [hp.2, if_true, if_neg (pair_even hm).2.2.1]

theorem fmovRmPostincFrn_pair (hp : s.MovesPairs) (hn : n &&& 1#4 = 0#4) : s.fmovRmPostincFrn c io lowPc m n =
    andThen (s.loadWord c io lowPc (s.hostLoad (s.reg (.r m))) (s.reg (.r m))) fun s1 data =>
      andThen (s1.loadWord c io lowPc none (s.reg (.r m) + 4#32)) fun s2 data2 =>
        .ok (((s2.setReg (.fr (n + 1#4)) (c.toHost32 data2)).setReg (.fr n) (c.toHost32 data)).setReg (.r m)
          (s.reg (.r m) + 4#32 + 4#32), true) := by
  unfold fmovRmPostincFrn
  rw [available_of_enabled hp]
  simp only [hp.2, if_true, (pair_even hn).1]

theorem fmovRmFrn_pair (hp : s.MovesPairs) (hn : n &&& 1#4 = 0#4) : s.fmovRmFrn c io lowPc m n =
    andThen (s.loadWord c io lowPc none (s.reg (.r m) + 4#32)) fun s1 data2 =>
      andThen (s1.loadWord c io lowPc (s.hostLoad (s.reg (.r m))) (s.reg (.r m))) fun s2 data =>
        .ok ((s2.setReg (.fr n) (c.toHost32 data)).setReg (.fr (n + 1#4)) (c.toHost32 data2), true) := by
  unfold fmovRmFrn
  rw [available_of_enabled hp]
  simp only [hp.2, if_true, if_neg (pair_even hn).2.1]

end

variable (c) in
/-- The second word, as it is given to memory_rw(). -/
def secondStored (decrement : Bool) (x : Word) : Word := if decrement then c.toHost32 x else x

variable (c s) in
def storedPair (a paddr : Word) (block : Nat) (decrement : Bool) (m : BitVec 4) : ByteMem :=
  (s.host.write (firstPtr a paddr block (s.hostStore a)) (bytes c.hostBig 4 (c.toHost32 (s.reg (.fr m))).toNat)).write
    (wordPtr paddr block true) (bytes c.hostBig 4 (secondStored c decrement (s.reg (.fr (m + 1#4)))).toNat)

theorem PairRam.apart (h : s.PairRam io a paddr block) (p : Option Nat) :
    firstPtr a paddr block p + 4 ≤ wordPtr paddr block true ∨ wordPtr paddr block true + 4 ≤ firstPtr a paddr block p := by
  have ha := h.aligned
  have hpaddr := h.paddr_aligned
  unfold firstPtr wordPtr
  rw [if_pos rfl]
  split <;> omega

theorem PairRam.storePair (h : s.PairRam io a paddr block) (hp : s.MovesPairs) {decrement : Bool} {m n : BitVec 4}
    (hm : m &&& 1#4 = 0#4) (hn : decrement = true ∨ n &&& 1#4 = 0#4) :
    ∃ s', s.storePair c io lowPc decrement m n a = .ok (s', true) ∧ s'.PairRam io a paddr block ∧ s'.MovesPairs ∧
      s'.hostLoad a = some block ∧ s'.host = s.storedPair c a paddr block decrement m := by
  have hstore : ∀ q, s.hostStore a = some q → q = block := h.mapped.2
  cases decrement with
  | true =>
    have haddr : (s.setReg (.r n) (a + 8#32)).reg (.r n) - 8#32 = a := by
      rw [reg_setReg]
      exact BitVec.add_sub_cancel _ _
    obtain ⟨s1, hs1, hram1, hregs1, hhost1, -⟩ := @PairRam.storeFirst c io lowPc _ a paddr block
      (h.setReg n (a + 8#32)) (s.hostStore a) hstore (c.toHost32 (s.reg (.fr m)))
    obtain ⟨s2, hs2, hram2, hregs2, hhost2, hload2⟩ := @PairRam.storeWord c io lowPc s1 a paddr block hram1 true
      (c.toHost32 (s.reg (.fr (m + 1#4))))
    have hsecond : s1.reg (.fr (m + 1#4)) = s.reg (.fr (m + 1#4)) := (congrFun hregs1 _).trans (reg_fr_setReg ..)
    refine ⟨s2.setReg (.r n) a, ?_, hram2.setReg n a, ?_, hload2, ?_⟩
    · unfold ShMachine.storePair
      rw [if_pos rfl, fmovFrmPredecRn_pair (hp.setReg n _) hm, haddr, reg_fr_setReg]
      show andThen (ShMachine.storeWord c io lowPc _ (s.hostStore a) a _) _ = _
      rw [hs1, andThen_some, hsecond]
      show andThen (s1.storeWord c io lowPc none (wordAt a true) _) _ = _
      rw [hs2, andThen_some]
    · have hregs : ∀ x, s2.reg x = (s.setReg (.r n) (a + 8#32)).reg x := fun x => by
        show s2.cpu.regs x = _
        rw [hregs2, hregs1]
        rfl
      exact MovesPairs.setReg ((hp.setReg n (a + 8#32)).of_regs (hregs _) (hregs _)) n a
    · show s2.host = _
      rw [hhost2, hhost1]
      rfl
  | false =>
    have hodd : ¬ n &&& 1#4 = 1#4 := (pair_even (hn.resolve_left Bool.false_ne_true)).2.1
    obtain ⟨s1, hs1, hram1, hregs1, hhost1, hload1⟩ := @PairRam.storeWord c io lowPc _ a paddr block (h.setReg n a) true
      (s.reg (.fr (m + 1#4)))
    obtain ⟨s2, hs2, hram2, hregs2, hhost2, hload2⟩ := @PairRam.storeFirst c io lowPc s1 a paddr block hram1 (s.hostStore a)
      hstore (c.toHost32 (s.reg (.fr m)))
    refine ⟨s2, ?_, hram2, ?_, hload2 hload1, ?_⟩
    · unfold ShMachine.storePair
      rw [if_neg Bool.false_ne_true, fmovFrmRn_pair (hp.setReg n _) hm, if_neg hodd, reg_setReg, reg_fr_setReg, reg_fr_setReg]
      show andThen (ShMachine.storeWord c io lowPc _ none (wordAt a true) _) _ = _
      rw [hs1, andThen_some]
      show andThen (s1.storeWord c io lowPc (s.hostStore a) a _) _ = _
      rw [hs2, andThen_some]
    · have hregs : ∀ x, s2.reg x = (s.setReg (.r n) a).reg x := fun x => by
        show s2.cpu.regs x = _
        rw [hregs2, hregs1]
        rfl
      exact (hp.setReg n a).of_regs (hregs _) (hregs _)
    · -- the second word was stored first
      rw [hhost2, hhost1]
      refine ByteMem.write_comm _ ?_
      rw [length_bytes, length_bytes]
      exact (h.apart _).symm

theorem PairRam.loadPair (h : s.PairRam io a paddr block) (hp : s.MovesPairs) (hl : s.hostLoad a = some block)
    (increment : Bool) {m n : BitVec 4} (hn : n &&& 1#4 = 0#4) :
    ∃ s', s.loadPair c io lowPc increment m n a = .ok (s', true) ∧
      s'.reg (.fr n) = c.toHost32 (hostWord c.hostBig s.host (firstPtr a paddr block (some block))) ∧
      s'.reg (.fr (n + 1#4)) = c.toHost32 (hostWord c.hostBig s.host (wordPtr paddr block true)) := by
  have hload : ∀ q, some block = some q → q = block := fun q hq => (Option.some.inj hq).symm
  obtain ⟨-, -, -, hne⟩ := pair_even hn
  have hreg : RegName.fr (n + 1#4) ≠ .fr n := fun heq => hne (RegName.fr.inj heq)
  cases increment with
  | true =>
    obtain ⟨s1, hs1, hram1, hregs1, hhost1⟩ := @PairRam.loadFirst c io lowPc _ a paddr block (h.setReg m a) _ hload
    obtain ⟨s2, hs2, -, -, -⟩ := @PairRam.loadWord c io lowPc s1 a paddr block hram1 true
    rw [hhost1] at hs2
    refine ⟨((s2.setReg (.fr (n + 1#4)) (c.toHost32 (hostWord c.hostBig s.host (wordPtr paddr block true)))).setReg (.fr n)
      (c.toHost32 (hostWord c.hostBig s.host (firstPtr a paddr block (some block))))).setReg (.r m) (a + 4#32 + 4#32),
      ?_, (reg_fr_setReg ..).trans (reg_setReg ..), (reg_fr_setReg ..).trans ?_⟩
    · unfold ShMachine.loadPair
      rw [if_pos rfl, fmovRmPostincFrn_pair (hp.setReg m _) hn, reg_setReg]
      show andThen (ShMachine.loadWord c io lowPc _ (s.hostLoad a) a) _ = _
      rw [hl, hs1, andThen_some]
      show andThen (s1.loadWord c io lowPc none (wordAt a true)) _ = _
      rw [hs2, andThen_some]
      rfl
    · exact (reg_setReg_of_ne hreg _).trans (reg_setReg ..)
  | false =>
    obtain ⟨s1, hs1, hram1, hregs1, hhost1⟩ := @PairRam.loadWord c io lowPc _ a paddr block (h.setReg m a) true
    obtain ⟨s2, hs2, -, -, -⟩ := @PairRam.loadFirst c io lowPc s1 a paddr block hram1 _ hload
    rw [hhost1] at hs2
    refine ⟨(s2.setReg (.fr n) (c.toHost32 (hostWord c.hostBig s.host (firstPtr a paddr block (some block))))).setReg
      (.fr (n + 1#4)) (c.toHost32 (hostWord c.hostBig s.host (wordPtr paddr block true))), ?_,
      (reg_setReg_of_ne hreg.symm _).trans (reg_setReg ..), reg_setReg ..⟩
    unfold ShMachine.loadPair
    rw [if_neg Bool.false_ne_true, fmovRmFrn_pair (hp.setReg m _) hn, reg_setReg]
    show andThen (ShMachine.loadWord c io lowPc _ none (wordAt a true)) _ = _
    rw [hs1, andThen_some]
    show andThen (s1.loadWord c io lowPc (s.hostLoad a) a) _ = _
    rw [hl, hs2, andThen_some]
    rfl

/-! ## Stores and loads -/

theorem PairRam.hostWord_second (h : s.PairRam io a paddr block) (decrement : Bool) (m : BitVec 4) :
    hostWord c.hostBig (s.storedPair c a paddr block decrement m) (wordPtr paddr block true) =
      secondStored c decrement (s.reg (.fr (m + 1#4))) :=
  hostWord_write ..

theorem PairRam.hostWord_first (h : s.PairRam io a paddr block) (decrement : Bool) (m : BitVec 4) :
    hostWord c.hostBig (s.storedPair c a paddr block decrement m) (firstPtr a paddr block (some block)) =
      if a.toNat % 4096 = paddr.toNat % 4096 ∨ s.hostStore a ≠ none then c.toHost32 (s.reg (.fr m))
      else hostWord c.hostBig s.host (block + a.toNat % 4096) := by
  have hapart := h.apart (some block)
  unfold storedPair
  rw [hostWord_write_other _ _ (length_bytes ..) hapart.symm]
  split
  · next hsame =>
    have hptr : firstPtr a paddr block (some block) = firstPtr a paddr block (s.hostStore a) := by
      unfold firstPtr
      cases hst : s.hostStore a with
      | none =>
        rw [hst] at hsame
        have heq := hsame.resolve_right (fun hne => hne rfl)
        simpa using heq
      | some q => rfl
    rw [hptr]
    exact hostWord_write ..
  · next hother =>
    rw [not_or, not_not] at hother
    have ha := h.aligned
    have hpaddr := h.paddr_aligned
    have hnone : firstPtr a paddr block (s.hostStore a) = block + paddr.toNat % 4096 := by
      rw [hother.2]
      rfl
    have hload : firstPtr a paddr block (some block) = block + a.toNat % 4096 := rfl
    rw [hnone, hload]
    exact hostWord_write_other _ _ (length_bytes ..) (by omega)

variable (c io s) in
/-- Both stores leave the same memory, and both loads bring the two words back from it. -/
def MovesInverse (m n : BitVec 4) (a : Word) : Prop :=
  ∃ host, ∀ decrement lowPc, ∃ s', s.storePair c io lowPc decrement m n a = .ok (s', true) ∧ s'.host = host ∧
    ∀ increment lowPc q k, k &&& 1#4 = 0#4 → ∃ s'', s'.loadPair c io lowPc increment q k a = .ok (s'', true) ∧
      s''.reg (.fr k) = s.reg (.fr m) ∧ s''.reg (.fr (k + 1#4)) = s.reg (.fr (m + 1#4))

variable (c s) in
/-- A load finds the first word where a store puts it, or finds the same word there. -/
def FindsFirst (a paddr : Word) (block : Nat) (m : BitVec 4) : Prop :=
  a.toNat % 4096 = paddr.toNat % 4096 ∨ s.hostStore a ≠ none ∨
    c.toHost32 (hostWord c.hostBig s.host (block + a.toNat % 4096)) = s.reg (.fr m)

theorem movesInverse_iff (h : s.PairRam io a paddr block) (hp : s.MovesPairs) {m n : BitVec 4} (hm : m &&& 1#4 = 0#4) :
    s.MovesInverse c io m n a ↔
      n &&& 1#4 = 0#4 ∧ (c.big = c.hostBig ∨ swap32 (s.reg (.fr (m + 1#4))) = s.reg (.fr (m + 1#4))) ∧
        s.FindsFirst c a paddr block m := by
  have hfirst := fun decrement => @PairRam.hostWord_first c io s a paddr block h decrement m
  constructor
  · rintro ⟨host, hall⟩
    have hn : n &&& 1#4 = 0#4 := by
      by_contra hodd
      -- the store without decrement takes an odd address register for an odd register of the FPU
      obtain ⟨s', hs', -⟩ := hall false 0
      unfold ShMachine.storePair at hs'
      rw [if_neg Bool.false_ne_true, fmovFrmRn_pair (hp.setReg n _) hm, if_pos (odd_of_not_even hodd)] at hs'
      cases hs'
    have hstored : ∀ decrement, ∃ s' : ShMachine, s'.PairRam io a paddr block ∧ s'.MovesPairs ∧ s'.hostLoad a = some block ∧
        s'.host = s.storedPair c a paddr block decrement m ∧ s'.host = host ∧
        ∀ increment lowPc q k, k &&& 1#4 = 0#4 → ∃ s'', s'.loadPair c io lowPc increment q k a = .ok (s'', true) ∧
          s''.reg (.fr k) = s.reg (.fr m) ∧ s''.reg (.fr (k + 1#4)) = s.reg (.fr (m + 1#4)) := by
      intro decrement
      obtain ⟨s', hs', hhost, hload⟩ := hall decrement 0
      obtain ⟨t, ht, hram, hpt, hlt, hht⟩ := @PairRam.storePair c io 0 s a paddr block h hp decrement m n hm (.inr hn)
      cases hs'.symm.trans ht
      exact ⟨_, hram, hpt, hlt, hht, hhost, hload⟩
    obtain ⟨t, hramt, hpt, hlt, hht, hhost, hload⟩ := hstored true
    obtain ⟨u, -, -, -, hhu, hhost', -⟩ := hstored false
    refine ⟨hn, ?_, ?_⟩
    · have hsame : s.storedPair c a paddr block false m = s.storedPair c a paddr block true m := by
        rw [← hhu, hhost', ← hhost, hht]
      have hword := congrArg (fun host => hostWord c.hostBig host (wordPtr paddr block true)) hsame
      rw [h.hostWord_second, h.hostWord_second] at hword
      exact (toHost32_eq_iff _).mp hword
    · by_cases hsame : a.toNat % 4096 = paddr.toNat % 4096 ∨ s.hostStore a ≠ none
      · exact or_assoc.mp (.inl hsame)
      · obtain ⟨s'', hs'', hk, -⟩ := hload false 0 0#4 0#4 (by decide)
        obtain ⟨v, hv, hkv, -⟩ := @PairRam.loadPair c io 0 t a paddr block hramt hpt hlt false 0#4 0#4 (by decide)
        cases hs''.symm.trans hv
        rw [hk, hht, hfirst, if_neg hsame] at hkv
        exact .inr (.inr hkv.symm)
  · rintro ⟨hn, horder, hfinds⟩
    have hsecond : ∀ decrement, secondStored c decrement (s.reg (.fr (m + 1#4))) = c.toHost32 (s.reg (.fr (m + 1#4))) := by
      intro decrement
      cases decrement with
      | true => rfl
      | false => exact (toHost32_eq_iff _).mpr horder
    refine ⟨s.storedPair c a paddr block true m, fun decrement lowPc => ?_⟩
    obtain ⟨t, ht, hram, hpt, hlt, hht⟩ := @PairRam.storePair c io lowPc s a paddr block h hp decrement m n hm (.inr hn)
    refine ⟨t, ht, ?_, fun increment lowPc q k hk => ?_⟩
    · rw [hht]
      unfold storedPair
      rw [hsecond, hsecond]
    · obtain ⟨v, hv, hk1, hk2⟩ := @PairRam.loadPair c io lowPc t a paddr block hram hpt hlt increment q k hk
      refine ⟨v, hv, ?_, ?_⟩
      · rw [hk1, hht, hfirst]
        split
        · exact toHost32_toHost32 _
        · next hother => exact (or_assoc.mpr hfinds).resolve_left hother
      · rw [hk2, hht, h.hostWord_second, hsecond, toHost32_toHost32]

/-! ## Faults -/

theorem loadWord_raised {s' : ShMachine} {p : Option Nat} {addr : Word} {x : Option Word}
    (h : s.loadWord c io lowPc p addr = .ok (s', x)) :
    Raised s.cpu s'.cpu ∧ (x.isSome = true → s'.cpu.regs = s.cpu.regs) := by
  cases p with
  | some p =>
    cases h
    exact ⟨.same rfl, fun _ => rfl⟩
  | none =>
    obtain ⟨y, hy, h⟩ := Lib.bind_eq_ok h
    obtain ⟨hr, hregs⟩ := @memoryRw_raised c io _ y.1 _ _ y.2.1 y.2.2 hy
    cases h
    refine ⟨hr.of_regs rfl, fun hx => hregs ?_⟩
    by_contra hnot
    rw [if_neg hnot] at hx
    cases hx

theorem storeWord_raised {s' : ShMachine} {p : Option Nat} {addr data : Word} {x : Option Unit}
    (h : s.storeWord c io lowPc p addr data = .ok (s', x)) :
    Raised s.cpu s'.cpu ∧ (x.isSome = true → s'.cpu.regs = s.cpu.regs) := by
  cases p with
  | some p =>
    cases h
    exact ⟨.same rfl, fun _ => rfl⟩
  | none =>
    obtain ⟨y, hy, h⟩ := Lib.bind_eq_ok h
    obtain ⟨hr, hregs⟩ := @memoryRw_raised c io _ y.1 _ _ y.2.1 y.2.2 hy
    cases h
    refine ⟨hr.of_regs rfl, fun hx => hregs ?_⟩
    by_contra hnot
    rw [if_neg hnot] at hx
    cases hx

def GivesUp (s : ShMachine) (r : Except Exit (ShMachine × Bool)) : Prop := ∀ s', r = .ok (s', false) → Raised s.cpu s'.cpu

theorem GivesUp.done (s s' : ShMachine) : s.GivesUp (.ok (s', true)) := fun _ h => by cases h

theorem GivesUp.error (s : ShMachine) (e : Exit) : s.GivesUp (.error e) := fun _ h => by cases h

theorem GivesUp.andThen {α : Type} {r : Except Exit (ShMachine × Option α)}
    {next : ShMachine → α → Except Exit (ShMachine × Bool)}
    (hr : ∀ t x, r = .ok (t, x) → Raised s.cpu t.cpu ∧ (x.isSome = true → t.cpu.regs = s.cpu.regs))
    (hnext : ∀ (t : ShMachine) x, t.GivesUp (next t x)) : s.GivesUp (andThen r next) := by
  intro s' h
  obtain ⟨y, hy, h⟩ := Lib.bind_eq_ok h
  obtain ⟨t, x⟩ := y
  obtain ⟨hraised, hregs⟩ := hr t x hy
  cases x with
  | none =>
    cases h
    exact hraised
  | some x => exact (hnext t x s' h).of_regs (hregs rfl)

theorem GivesUp.available {next : Except Exit (ShMachine × Bool)} (hnext : s.GivesUp next) :
    s.GivesUp (s.floatingPointAvailableCheck c io lowPc next) := by
  intro s' h
  unfold floatingPointAvailableCheck at h
  split at h
  · obtain ⟨t, ht, h⟩ := Lib.bind_eq_ok h
    cases h
    exact (exception_raised ht).of_regs rfl
  · exact hnext s' h

section
variable (m n : BitVec 4)

theorem fmovRmFrn_givesUp : s.GivesUp (s.fmovRmFrn c io lowPc m n) := by
  refine .available ?_
  split
  · split
    · exact .error _ _
    · refine .andThen (fun _ _ h => loadWord_raised h) fun _ _ => ?_
      exact .andThen (fun _ _ h => loadWord_raised h) fun _ _ => .done _ _
  · exact .andThen (fun _ _ h => loadWord_raised h) fun _ _ => .done _ _

theorem fmovRmPostincFrn_givesUp : s.GivesUp (s.fmovRmPostincFrn c io lowPc m n) := by
  refine .available (.andThen (fun _ _ h => loadWord_raised h) fun _ _ => ?_)
  split
  · exact .andThen (fun _ _ h => loadWord_raised h) fun _ _ => .done _ _
  · exact .done _ _

theorem fmovFrmRn_givesUp : s.GivesUp (s.fmovFrmRn c io lowPc m n) := by
  refine .available ?_
  split
  · split
    · exact .error _ _
    · refine .andThen (fun _ _ h => storeWord_raised h) fun _ _ => ?_
      exact .andThen (fun _ _ h => storeWord_raised h) fun _ _ => .done _ _
  · exact .andThen (fun _ _ h => storeWord_raised h) fun _ _ => .done _ _

theorem fmovFrmPredecRn_givesUp : s.GivesUp (s.fmovFrmPredecRn c io lowPc m n) := by
  refine .available (.andThen (fun _ _ h => storeWord_raised h) fun _ _ => ?_)
  split
  · exact .andThen (fun _ _ h => storeWord_raised h) fun _ _ => .done _ _
  · exact .done _ _

end

/-- An instruction that does not complete leaves all registers alone: they are written by the exceptions that it causes,
if any, which save the state and select the bank. -/
def KeepsRegisters (s : ShMachine) (r : Except Exit (ShMachine × Bool)) : Prop :=
  ∀ s', r = .ok (s', false) → Raised s.cpu s'.cpu ∧ Regs.Unchanged s.cpu.regs s'.cpu.regs

variable (c io) in
def FaultsKeepRegisters : Prop :=
  ∀ (s : ShMachine) lowPc m n, s.KeepsRegisters (s.fmovRmFrn c io lowPc m n) ∧
    s.KeepsRegisters (s.fmovRmPostincFrn c io lowPc m n) ∧ s.KeepsRegisters (s.fmovFrmRn c io lowPc m n) ∧
    s.KeepsRegisters (s.fmovFrmPredecRn c io lowPc m n)

theorem GivesUp.keeps {r : Except Exit (ShMachine × Bool)} (h : s.GivesUp r) : s.KeepsRegisters r :=
  fun s' hs => ⟨h s' hs, (h s' hs).unchanged⟩

theorem faults_keep_registers : FaultsKeepRegisters c io :=
  fun _ _ m n => ⟨(fmovRmFrn_givesUp m n).keeps, (fmovRmPostincFrn_givesUp m n).keeps, (fmovFrmRn_givesUp m n).keeps,
    (fmovFrmPredecRn_givesUp m n).keeps⟩

theorem pairs_move_iff (h : s.PairRam io a paddr block) (hp : s.MovesPairs) {m n : BitVec 4} (hm : m &&& 1#4 = 0#4) :
    s.MovesInverse c io m n a ∧ FaultsKeepRegisters c io ↔
      n &&& 1#4 = 0#4 ∧ (c.big = c.hostBig ∨ swap32 (s.reg (.fr (m + 1#4))) = s.reg (.fr (m + 1#4))) ∧
        s.FindsFirst c a paddr block m := by
  rw [and_iff_left faults_keep_registers]
  exact movesInverse_iff h hp hm

/-! RAM without address translation, and 1 in register FR1. -/

def ramIo : ShIo :=
  ⟨Env.r4000 0, ⟨fun _ _ _ _ host data => (host, data), fun _ _ _ host data => (host, data)⟩,
    fun page => some page.toNat, 16⟩

def ramCpu : ShCpu Regs where
  regs x := if x = .fpscr then shFpscrSz else if x = .fr 1#4 then 1#32 else 0#32
  pc := 0#64
  delaySlot := 0
  isHalted := false
  mmu := { emptyMmu with mmucr := 0#32 }
  tra := 0#32
  expevt := 0#32
  intevt := 0#32

def ramMachine : ShMachine where
  cpu := ramCpu
  dyn := Cpu.start .mode32 0 Tc.init
  mem := Memory.init
  host _ := 0

theorem pairRam_ram : ramMachine.PairRam ramIo 0x1000#32 0x1000#32 0x1000 where
  aligned := by decide
  good := @Tables.Good.init .sh .mode32 rfl 0
  mode := rfl
  translated write := ⟨2, rfl⟩
  ram second := by cases second <;> decide +kernel
  hostaddr write := by cases write <;> decide +kernel
  mapped := by
    rw [Tables.slotOf_eq]
    exact ⟨nofun, nofun⟩

theorem movesPairs_ram : ramMachine.MovesPairs := ⟨by decide +kernel, by decide +kernel⟩

/-- A little endian CPU on a little endian host, which stores through r2. -/
theorem pairs_move_ram : ramMachine.MovesInverse ⟨65536, false, false⟩ ramIo 0#4 2#4 0x1000#32 ∧
    FaultsKeepRegisters ⟨65536, false, false⟩ ramIo :=
  (pairs_move_iff pairRam_ram movesPairs_ram (by decide)).mpr ⟨by decide, .inl rfl, .inl rfl⟩

/-- The same through r1, and a big endian CPU on that host. -/
theorem pairs_not_inverse : ¬ ramMachine.MovesInverse ⟨65536, false, false⟩ ramIo 0#4 1#4 0x1000#32 ∧
    ¬ ramMachine.MovesInverse ⟨65536, true, false⟩ ramIo 0#4 2#4 0x1000#32 := by
  constructor
  · intro h
    have hodd := ((movesInverse_iff pairRam_ram movesPairs_ram (by decide)).mp h).1
    revert hodd
    decide
  · intro h
    have horder := ((movesInverse_iff pairRam_ram movesPairs_ram (by decide)).mp h).2.1
    revert horder
    decide +kernel

end ShMachine

end Gxemul.Sh
