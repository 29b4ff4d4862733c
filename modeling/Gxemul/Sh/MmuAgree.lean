import Gxemul.Sh.Mmu

/- Address translation as the SuperH manual describes it, and how sh_translate_v2p()
   compares.

   With exceptions the two agree, as long as no address is in two entries of a TLB.
   Without exceptions sh_translate_v2p() returns success for every address. -/
namespace Gxemul.Sh

/-! ## The reference -/

def TlbEntry.pageShift (e : TlbEntry) : Nat :=
  match e.lo.getLsbD 7, e.lo.getLsbD 4 with
  | false, false => 10
  | false, true => 12
  | true, false => 16
  | true, true => 20

/-- A valid entry that has the page of an address, in the current address space or shared. In privileged
mode, SV makes all address spaces visible. -/
def Matches (sr : Word) (m : Mmu) (vaddr : Word) (e : TlbEntry) : Prop :=
  e.lo.getLsbD 8 = true ∧ e.hi.toNat / 2 ^ e.pageShift = vaddr.toNat / 2 ^ e.pageShift ∧
    (e.lo.getLsbD 1 = true ∨ (m.mmucr.getLsbD 8 = true ∧ sr.getLsbD 30 = true) ∨
      e.hi.toNat % 2 ^ 8 = m.pteh.toNat % 2 ^ 8)

instance (sr : Word) (m : Mmu) (vaddr : Word) (e : TlbEntry) : Decidable (Matches sr m vaddr e) :=
  inferInstanceAs (Decidable (_ ∧ _))

def FirstMatch (sr : Word) (m : Mmu) (vaddr : Word) (l : List TlbEntry) (e : TlbEntry) : Prop :=
  ∃ l1 l2, l = l1 ++ e :: l2 ∧ Matches sr m vaddr e ∧ ∀ x ∈ l1, ¬ Matches sr m vaddr x

def Unique {n : Nat} (sr : Word) (m : Mmu) (vaddr : Word) (tlb : Fin n → TlbEntry) : Prop :=
  ∀ i j, Matches sr m vaddr (tlb i) → Matches sr m vaddr (tlb j) → i = j

/-- The entry that a lookup takes: for an instruction one of the ITLB, if it has the address. -/
def Selected (sr : Word) (m : Mmu) (vaddr : Word) (instr : Bool) (e : TlbEntry) : Prop :=
  Matches sr m vaddr e ∧
    ((instr = true ∧ ∃ i, m.itlb i = e) ∨
      ((instr = true → ∀ i, ¬ Matches sr m vaddr (m.itlb i)) ∧ ∃ i, m.utlb i = e))

def TlbEntry.paddr (e : TlbEntry) (vaddr : Word) : Nat :=
  e.lo.toNat % 2 ^ 29 / 2 ^ e.pageShift * 2 ^ e.pageShift + vaddr.toNat % 2 ^ e.pageShift

/-- What an entry permits: to read only, or to write as well. Writing needs the dirty bit. -/
inductive Permission where
  | readOnly | readWrite | protection | initialWrite

/-- PR is 0 or 1 for pages of the privileged mode, and even for pages that are not written. -/
def TlbEntry.permission (e : TlbEntry) (privileged : Bool) (write instr : Bool) : Permission :=
  let user := e.lo.getLsbD 6
  let writable := e.lo.getLsbD 5
  if !privileged && !user then .protection
  else if instr then .readOnly
  else if write && !writable then .protection
  else if write && !e.lo.getLsbD 2 then .initialWrite
  else if writable && e.lo.getLsbD 2 then .readWrite
  else .readOnly

def TlbEntry.Permits (e : TlbEntry) (privileged : Bool) (write instr : Bool) : Prop :=
  e.permission privileged write instr = .readOnly ∨ e.permission privileged write instr = .readWrite

def TlbEntry.result (e : TlbEntry) (privileged : Bool) (vaddr : Word) (write instr : Bool) : V2pResult :=
  match e.permission privileged write instr with
  | .readOnly => .returned 1 (BitVec.ofNat 32 (e.paddr vaddr))
  | .readWrite => .returned 2 (BitVec.ofNat 32 (e.paddr vaddr))
  | .protection => .exception (if write then 0x0c0#32 else 0x0a0#32)
  | .initialWrite => .exception 0x080#32

inductive Segment where
  | mapped | direct (paddr : Word) | noAccess | reserved

/-- Where an address is. Below 0x80000000, and from 0xc0000000 to 0xdfffffff, addresses are mapped if AT is set. -/
def segment (sr : Word) (m : Mmu) (vaddr : Word) (instr : Bool) : Segment :=
  let v := vaddr.toNat
  if v < 0x80000000 ∨ 0xc0000000 ≤ v ∧ v < 0xe0000000 then
    if m.mmucr.getLsbD 0 then .mapped else .direct (BitVec.ofNat 32 (v % 2 ^ 29))
  else if 0xe0000000 ≤ v ∧ v < 0xe4000000 then .direct vaddr
  else if !sr.getLsbD 30 then .noAccess
  else if v < 0xc0000000 then .direct (BitVec.ofNat 32 (v % 2 ^ 29))
  else if 0xf0000000 ≤ v ∧ instr = false then .direct vaddr
  else .reserved

/-! ## Bits -/

theorem anyBit_twoPow (x : Word) {i : Nat} (hi : i < 32) : anyBit x (BitVec.twoPow 32 i) = x.getLsbD i := by
  unfold anyBit
  rw [BitVec.and_twoPow]
  cases x.getLsbD i with
  | true =>
    rw [if_pos rfl, bne_iff_ne]
    intro h0
    have hbit := congrArg (fun y : Word => y.getLsbD i) h0
    simp [hi] at hbit
  | false => rfl

theorem and_twoBits (x : Word) (i j : Nat) :
    x &&& (BitVec.twoPow 32 i ||| BitVec.twoPow 32 j) =
      (if x.getLsbD i then BitVec.twoPow 32 i else 0#32) ||| (if x.getLsbD j then BitVec.twoPow 32 j else 0#32) := by
  rw [BitVec.and_or_distrib_left, BitVec.and_twoPow, BitVec.and_twoPow]

def pageBits (s : Nat) : Word := BitVec.allOnes 32 <<< s

theorem toNat_and_pageBits (x : Word) (s : Nat) : (x &&& pageBits s).toNat = x.toNat / 2 ^ s * 2 ^ s := by
  have hshift : x &&& pageBits s = (x >>> s) <<< s := by
    apply BitVec.eq_of_getLsbD_eq
    intro i hi
    simp only [pageBits, BitVec.getLsbD_and, BitVec.getLsbD_shiftLeft, BitVec.getLsbD_allOnes,
      BitVec.getLsbD_ushiftRight]
    by_cases hlt : i < s
    · simp [hlt]
    · have hsub : s + (i - s) = i := by omega
      simp [hlt, hi, hsub, show i - s < 32 by omega]
  have hle : x.toNat / 2 ^ s * 2 ^ s ≤ x.toNat := Nat.div_mul_le_self _ _
  rw [hshift, BitVec.toNat_shiftLeft, BitVec.toNat_ushiftRight, Nat.shiftRight_eq_div_pow, Nat.shiftLeft_eq,
    Nat.mod_eq_of_lt (by omega)]

theorem toNat_and_not_pageBits (x : Word) (s : Nat) : (x &&& ~~~ pageBits s).toNat = x.toNat % 2 ^ s := by
  have hle : x.toNat % 2 ^ s ≤ x.toNat := Nat.mod_le _ _
  have hlow : x &&& ~~~ pageBits s = BitVec.ofNat 32 (x.toNat % 2 ^ s) := by
    apply BitVec.eq_of_getLsbD_eq
    intro i hi
    simp only [pageBits, BitVec.getLsbD_and, BitVec.getLsbD_not, BitVec.getLsbD_shiftLeft, BitVec.getLsbD_allOnes,
      BitVec.getLsbD_ofNat, Nat.testBit_mod_two_pow]
    by_cases hlt : i < s
    · simp [hlt, hi, BitVec.getLsbD]
    · simp [hlt, hi, show i - s < 32 by omega]
  rw [hlow, BitVec.toNat_ofNat, Nat.mod_eq_of_lt (by omega)]

theorem and_pageBits_eq_iff {x y : Word} {s : Nat} :
    x &&& pageBits s = y &&& pageBits s ↔ x.toNat / 2 ^ s = y.toNat / 2 ^ s := by
  rw [← BitVec.toNat_inj, toNat_and_pageBits, toNat_and_pageBits, Nat.mul_left_inj (Nat.two_pow_pos s).ne']

namespace TlbEntry
variable (e : TlbEntry)

theorem mask_eq : e.mask = pageBits e.pageShift := by
  have hsz : e.lo &&& sh4PtelSzMask = _ := and_twoBits e.lo 7 4
  unfold mask pageShift
  rw [hsz]
  cases e.lo.getLsbD 7 <;> cases e.lo.getLsbD 4 <;> decide

theorem pageShift_cases : e.pageShift = 10 ∨ e.pageShift = 12 ∨ e.pageShift = 16 ∨ e.pageShift = 20 := by
  unfold pageShift
  split <;> simp

theorem paddr_eq (vaddr : Word) :
    (vaddr &&& ~~~ e.mask) ||| (e.lo &&& e.mask &&& 0x1fffffff#32) = BitVec.ofNat 32 (e.paddr vaddr) := by
  have h29 : (0x1fffffff#32 : Word) = ~~~ pageBits 29 := by decide
  have hdisj : (vaddr &&& ~~~ e.mask) &&& (e.lo &&& e.mask &&& 0x1fffffff#32) = 0#32 := by
    apply BitVec.eq_of_getLsbD_eq
    intro i hi
    simp only [BitVec.getLsbD_and, BitVec.getLsbD_not, BitVec.getLsbD_zero]
    cases e.mask.getLsbD i <;> simp
  have hpage : (e.lo &&& e.mask &&& 0x1fffffff#32).toNat = e.lo.toNat % 2 ^ 29 / 2 ^ e.pageShift * 2 ^ e.pageShift := by
    have hcomm : e.lo &&& e.mask &&& 0x1fffffff#32 = e.lo &&& 0x1fffffff#32 &&& e.mask := by
      rw [BitVec.and_assoc, BitVec.and_assoc, BitVec.and_comm e.mask]
    rw [hcomm, mask_eq, h29, toNat_and_pageBits, toNat_and_not_pageBits]
  rw [← BitVec.add_eq_or_of_and_eq_zero _ _ hdisj]
  apply BitVec.eq_of_toNat_eq
  rw [BitVec.toNat_add, hpage, mask_eq, toNat_and_not_pageBits, BitVec.toNat_ofNat, paddr, Nat.add_comm]

end TlbEntry

/-! ## The scan -/

section
variable (sr : Word) (m : Mmu) (vaddr : Word) (e : TlbEntry)

theorem countUrc_mmucr {i : Nat} (hi : i < 10) : m.countUrc.mmucr.getLsbD i = m.mmucr.getLsbD i := by
  have hkeep : ∀ urc : Word, ((m.mmucr &&& ~~~ sh4MmucrUrcMask) ||| (urc <<< sh4MmucrUrcShift)).getLsbD i =
      m.mmucr.getLsbD i := by
    intro urc
    have hall : ∀ j < 10, sh4MmucrUrcMask.getLsbD j = false := by decide
    rw [BitVec.getLsbD_or, BitVec.getLsbD_and, BitVec.getLsbD_not, hall i hi, BitVec.getLsbD_shiftLeft]
    have h32 : i < 32 := by omega
    simp [sh4MmucrUrcShift, hi, h32]
  exact hkeep _

theorem requireAsidMatch_eq : m.requireAsidMatch sr = !(m.mmucr.getLsbD 8 && sr.getLsbD 30) := by
  have hsv : anyBit m.mmucr sh4MmucrSv = m.mmucr.getLsbD 8 := anyBit_twoPow _ (i := 8) (by decide)
  have hmd : anyBit sr shSrMd = sr.getLsbD 30 := anyBit_twoPow _ (i := 30) (by decide)
  unfold Mmu.requireAsidMatch
  rw [hsv, hmd, Bool.not_and]

theorem hit_iff : m.hit sr vaddr e = true ↔ Matches sr m vaddr e := by
  have hv : anyBit e.lo sh4PtelV = e.lo.getLsbD 8 := anyBit_twoPow _ (i := 8) (by decide)
  have hsh : anyBit e.lo sh4PtelSh = e.lo.getLsbD 1 := anyBit_twoPow _ (i := 1) (by decide)
  have hmask : sh4PtehAsidMask = ~~~ pageBits 8 := by decide
  have hasid : (e.hi &&& sh4PtehAsidMask == m.pteh &&& sh4PtehAsidMask) = true ↔
      e.hi.toNat % 2 ^ 8 = m.pteh.toNat % 2 ^ 8 := by
    rw [beq_iff_eq, ← BitVec.toNat_inj, hmask, toNat_and_not_pageBits, toNat_and_not_pageBits]
  have hpage : e.hi &&& e.mask = vaddr &&& e.mask ↔ e.hi.toNat / 2 ^ e.pageShift = vaddr.toNat / 2 ^ e.pageShift := by
    rw [TlbEntry.mask_eq]
    exact and_pageBits_eq_iff
  unfold Mmu.hit Matches
  rw [hv, hsh, requireAsidMatch_eq, ← hpage]
  by_cases hvalid : e.lo.getLsbD 8 = true
  · by_cases hsame : e.hi &&& e.mask = vaddr &&& e.mask
    · rw [hvalid, if_neg (by decide), if_neg (not_not_intro hsame)]
      by_cases hshared : e.lo.getLsbD 1 = true
      · simp [hshared, hsame]
      · by_cases hsv : (m.mmucr.getLsbD 8 && sr.getLsbD 30) = true
        · rw [hsv]
          rw [Bool.and_eq_true] at hsv
          simp [hsame, hsv]
        · have hsv' : ¬ (m.mmucr.getLsbD 8 = true ∧ sr.getLsbD 30 = true) := by rwa [← Bool.and_eq_true]
          rw [Bool.not_eq_true] at hsv hshared
          rw [hsv, hshared, if_pos (by decide), hasid]
          constructor
          · exact fun h => ⟨rfl, hsame, Or.inr (Or.inr h)⟩
          · rintro ⟨-, -, h | h | h⟩
            · exact absurd h (by decide)
            · exact absurd h hsv'
            · exact h
    · rw [hvalid, if_neg (by decide), if_pos hsame]
      exact ⟨fun h => absurd h (by decide), fun h => absurd h.2.1 hsame⟩
  · rw [Bool.not_eq_true] at hvalid
    rw [hvalid, if_pos (by decide)]
    exact ⟨fun h => absurd h (by decide), fun h => absurd h.1 (by decide)⟩

theorem matches_countUrc : Matches sr m.countUrc vaddr e ↔ Matches sr m vaddr e := by
  unfold Matches
  rw [countUrc_mmucr m (by decide)]
  rfl

theorem permission_eq (f : V2pFlags) (paddr : Word) :
    Mmu.permission sr f e.lo paddr =
      match e.permission (sr.getLsbD 30) f.write f.instr with
      | .readOnly => .returned 1 paddr
      | .readWrite => .returned 2 paddr
      | .protection => Mmu.failed f (Mmu.protectionViolation f)
      | .initialWrite => Mmu.failed f expevtTlbMod := by
  have hd : anyBit e.lo sh4PtelD = e.lo.getLsbD 2 := anyBit_twoPow _ (i := 2) (by decide)
  have hmd : anyBit sr shSrMd = sr.getLsbD 30 := anyBit_twoPow _ (i := 30) (by decide)
  have hpr : e.lo &&& sh4PtelPrMask = _ := and_twoBits e.lo 6 5
  unfold Mmu.permission TlbEntry.permission
  rw [hd, hmd, hpr]
  cases e.lo.getLsbD 6 <;> cases e.lo.getLsbD 5 <;> cases sr.getLsbD 30 <;> cases f.instr <;> cases f.write <;>
    cases e.lo.getLsbD 2 <;> rfl

theorem find_iff (instr : Bool) :
    (m.searched instr).find? (m.hit sr vaddr) = some e ↔ FirstMatch sr m vaddr (m.searched instr) e := by
  rw [List.find?_eq_some_iff_append]
  constructor
  · rintro ⟨hhit, l1, l2, hl, hnone⟩
    refine ⟨l1, l2, hl, (hit_iff sr m vaddr e).mp hhit, fun x hx hm => ?_⟩
    have hnot := hnone x hx
    rw [(hit_iff sr m vaddr x).mpr hm] at hnot
    exact absurd hnot (by decide)
  · rintro ⟨l1, l2, hl, hm, hnone⟩
    refine ⟨(hit_iff sr m vaddr e).mpr hm, l1, l2, hl, fun x hx => ?_⟩
    rw [Bool.not_eq_true']
    exact Bool.eq_false_iff.mpr fun hhit => hnone x hx ((hit_iff sr m vaddr x).mp hhit)

theorem find_countUrc (instr : Bool) :
    (m.countUrc.searched instr).find? (m.countUrc.hit sr vaddr) = (m.searched instr).find? (m.hit sr vaddr) := by
  have hhit : m.countUrc.hit sr vaddr = m.hit sr vaddr := by
    funext x
    rw [Bool.eq_iff_iff, hit_iff, hit_iff, matches_countUrc]
  rw [hhit]
  rfl

variable {sr m vaddr e}

theorem find_ofFn {n : Nat} {tlb : Fin n → TlbEntry} (hu : Unique sr m vaddr tlb) :
    (List.ofFn tlb).find? (m.hit sr vaddr) = some e ↔ Matches sr m vaddr e ∧ ∃ i, tlb i = e := by
  constructor
  · intro h
    exact ⟨(hit_iff sr m vaddr e).mp (List.find?_some h), List.mem_ofFn.mp (List.mem_of_find?_eq_some h)⟩
  · rintro ⟨hm, i, rfl⟩
    cases hfind : (List.ofFn tlb).find? (m.hit sr vaddr) with
    | none =>
      have hnot := List.find?_eq_none.mp hfind (tlb i) (List.mem_ofFn.mpr ⟨i, rfl⟩)
      exact absurd ((hit_iff sr m vaddr (tlb i)).mpr hm) hnot
    | some x =>
      obtain ⟨j, rfl⟩ := List.mem_ofFn.mp (List.mem_of_find?_eq_some hfind)
      rw [hu j i ((hit_iff sr m vaddr (tlb j)).mp (List.find?_some hfind)) hm]

theorem find_ofFn_none {n : Nat} {tlb : Fin n → TlbEntry} :
    (List.ofFn tlb).find? (m.hit sr vaddr) = none ↔ ∀ i, ¬ Matches sr m vaddr (tlb i) := by
  rw [List.find?_eq_none]
  constructor
  · intro h i hm
    exact h (tlb i) (List.mem_ofFn.mpr ⟨i, rfl⟩) ((hit_iff sr m vaddr (tlb i)).mpr hm)
  · intro h x hx hhit
    obtain ⟨i, rfl⟩ := List.mem_ofFn.mp hx
    exact h i ((hit_iff sr m vaddr (tlb i)).mp hhit)

theorem find_selected (hi : Unique sr m vaddr m.itlb) (hu : Unique sr m vaddr m.utlb) (instr : Bool) :
    (m.searched instr).find? (m.hit sr vaddr) = some e ↔ Selected sr m vaddr instr e := by
  unfold Mmu.searched Selected
  rw [List.find?_append]
  cases instr with
  | false =>
    rw [if_neg (by decide), List.find?_nil, Option.none_or, find_ofFn hu]
    simp
  | true =>
    rw [if_pos rfl]
    cases hitlb : (List.ofFn m.itlb).find? (m.hit sr vaddr) with
    | none =>
      have hno := find_ofFn_none.mp hitlb
      rw [Option.none_or, find_ofFn hu]
      constructor
      · exact fun h => ⟨h.1, Or.inr ⟨fun _ => hno, h.2⟩⟩
      · rintro ⟨hm, ⟨-, i, rfl⟩ | ⟨-, h⟩⟩
        · exact absurd hm (hno i)
        · exact ⟨hm, h⟩
    | some x =>
      obtain ⟨hx, i, rfl⟩ := (find_ofFn hi).mp hitlb
      rw [Option.some_or, Option.some_inj]
      constructor
      · rintro rfl
        exact ⟨hx, Or.inl ⟨rfl, i, rfl⟩⟩
      · rintro ⟨hm, ⟨-, j, rfl⟩ | ⟨hno, -⟩⟩
        · rw [hi i j hx hm]
        · exact absurd hx (hno rfl i)

end

/-! ## The translation -/

def ReferenceResult (sr : Word) (m : Mmu) (vaddr : Word) (write instr : Bool) (r : V2pResult) : Prop :=
  (∃ e, Selected sr m vaddr instr e ∧ r = e.result (sr.getLsbD 30) vaddr write instr) ∨
    ((∀ e, ¬ Selected sr m vaddr instr e) ∧ r = .exception (if write then 0x060#32 else 0x040#32))

def AgreesWithReference (sr : Word) (m : Mmu) (vaddr : Addr) (write instr : Bool) : Prop :=
  let v : Word := vaddr.setWidth 32
  Unique sr m v m.itlb → Unique sr m v m.utlb →
    match segment sr m v instr with
    | .mapped =>
      ∃ m' r, m.shTranslateV2p sr ⟨write, false, instr⟩ vaddr = .ok (m', r) ∧
        ReferenceResult sr m v write instr r
    | .direct paddr => m.shTranslateV2p sr ⟨write, false, instr⟩ vaddr = .ok (m, .returned 2 paddr)
    | .noAccess | .reserved =>
      ∀ m' ok paddr, m.shTranslateV2p sr ⟨write, false, instr⟩ vaddr ≠ .ok (m', .returned ok paddr)

/-- The call without exceptions changes nothing, and it returns success when the call with exceptions does, with
the same address. -/
def NoExceptionsFaithful (sr : Word) (m : Mmu) (vaddr : Addr) (write instr : Bool) : Prop :=
  ∃ ok paddr, m.shTranslateV2p sr ⟨write, true, instr⟩ vaddr = .ok (m, .returned ok paddr) ∧
    (ok ≠ 0 ↔ ∃ m' ok' paddr',
      m.shTranslateV2p sr ⟨write, false, instr⟩ vaddr = .ok (m', .returned ok' paddr') ∧ ok' ≠ 0) ∧
    ∀ m' ok' paddr',
      m.shTranslateV2p sr ⟨write, false, instr⟩ vaddr = .ok (m', .returned ok' paddr') → paddr = paddr'

/-- An address that can be accessed: it is in a segment that is not mapped, or the first entry that matches
permits it. -/
def Accessible (sr : Word) (m : Mmu) (vaddr : Addr) (write instr : Bool) : Prop :=
  let v : Word := vaddr.setWidth 32
  match segment sr m v instr with
  | .mapped => ∃ e, FirstMatch sr m v (m.searched instr) e ∧ e.Permits (sr.getLsbD 30) write instr
  | .direct _ => True
  | .noAccess | .reserved => False

section
variable (sr : Word) (m : Mmu) (vaddr : Addr) (f : V2pFlags)

theorem and_direct (v : Word) : v &&& 0x1fffffff#32 = BitVec.ofNat 32 (v.toNat % 2 ^ 29) := by
  have hmask : (0x1fffffff#32 : Word) = ~~~ pageBits 29 := by decide
  apply BitVec.eq_of_toNat_eq
  rw [hmask, toNat_and_not_pageBits, BitVec.toNat_ofNat]
  omega

theorem shTranslateV2p_eq :
    m.shTranslateV2p sr f vaddr =
      match segment sr m (vaddr.setWidth 32) f.instr with
      | .mapped => .ok (m.translateViaMmu sr (vaddr.setWidth 32) f)
      | .direct paddr => .ok (m, .returned 2 paddr)
      | .noAccess => .ok (m, Mmu.failed f (Mmu.tlbMiss f))
      | .reserved =>
        if f.instr = false ∧ f.noExceptions = true then .ok (m, .returned 2 0#32)
        else .error .unimplementedShAddress := by
  unfold Mmu.shTranslateV2p segment
  generalize (vaddr.setWidth 32 : Word) = v
  have hat : anyBit m.mmucr sh4MmucrAt = m.mmucr.getLsbD 0 := anyBit_twoPow _ (i := 0) (by decide)
  have hmd : anyBit sr shSrMd = sr.getLsbD 30 := anyBit_twoPow _ (i := 30) (by decide)
  have hlow : v &&& 0x80000000#32 = 0#32 ↔ v.toNat < 0x80000000 := by
    have hmask : (0x80000000#32 : Word) = pageBits 31 := by decide
    rw [← BitVec.toNat_inj, hmask, toNat_and_pageBits]
    show _ = 0 ↔ _
    omega
  have hhigh : v &&& 0xf0000000#32 = 0xf0000000#32 ↔ 0xf0000000 ≤ v.toNat := by
    have hmask : (0xf0000000#32 : Word) = pageBits 28 := by decide
    rw [← BitVec.toNat_inj, hmask, toNat_and_pageBits]
    show _ = 0xf0000000 ↔ _
    omega
  have hle : ∀ b : Word, b ≤ v ↔ b.toNat ≤ v.toNat := fun b => Iff.rfl
  have hlt : ∀ b : Word, v < b ↔ v.toNat < b.toNat := fun b => Iff.rfl
  simp only [hat, hmd, hlow, hhigh, hle, hlt, and_direct]
  show (if v.toNat < 0x80000000 ∨ 0xc0000000 ≤ v.toNat ∧ v.toNat < 0xe0000000 then _
    else if 0xe0000000 ≤ v.toNat ∧ v.toNat < 0xe4000000 then _
    else if (!sr.getLsbD 30) = true then _
    else if 0x80000000 ≤ v.toNat ∧ v.toNat < 0xc0000000 then _
    else _) = _
  by_cases hp0 : v.toNat < 0x80000000 ∨ 0xc0000000 ≤ v.toNat ∧ v.toNat < 0xe0000000
  · rw [if_pos hp0, if_pos hp0]
    cases m.mmucr.getLsbD 0 <;> rfl
  rw [if_neg hp0, if_neg hp0]
  by_cases hsq : 0xe0000000 ≤ v.toNat ∧ v.toNat < 0xe4000000
  · rw [if_pos hsq, if_pos hsq]
  rw [if_neg hsq, if_neg hsq]
  cases sr.getLsbD 30 with
  | false =>
    have hnot : (!false) = true := rfl
    rw [if_pos hnot, if_pos hnot]
    cases hno : f.noExceptions <;> simp [Mmu.failed, Mmu.tlbMiss, hno]
  | true =>
    have hnot : ¬ (!true) = true := by decide
    rw [if_neg hnot, if_neg hnot]
    by_cases hp1 : v.toNat < 0xc0000000
    · rw [if_pos (by omega), if_pos hp1]
    · rw [if_neg (by omega), if_neg hp1]
      cases hinstr : f.instr with
      | true => simp
      | false =>
        by_cases hp4 : 0xf0000000 ≤ v.toNat
        · simp [hp4]
        · cases hno : f.noExceptions <;> simp [hp4]

theorem translateViaMmu_eq (v : Word) :
    m.translateViaMmu sr v f =
      (if f.noExceptions then m else m.countUrc,
        match (m.searched f.instr).find? (m.hit sr v) with
        | none => Mmu.failed f (Mmu.tlbMiss f)
        | some e => Mmu.permission sr f e.lo (BitVec.ofNat 32 (e.paddr v))) := by
  unfold Mmu.translateViaMmu
  dsimp only
  have hfind : ((if f.noExceptions then m else m.countUrc).searched f.instr).find?
      ((if f.noExceptions then m else m.countUrc).hit sr v) = (m.searched f.instr).find? (m.hit sr v) := by
    split
    · rfl
    · exact find_countUrc sr m v f.instr
  rw [hfind]
  cases (m.searched f.instr).find? (m.hit sr v) with
  | none => rfl
  | some e =>
    dsimp only
    rw [TlbEntry.paddr_eq]

end

section
variable {sr : Word} {m : Mmu} {vaddr : Addr} {write instr : Bool}

theorem agreesWithReference : AgreesWithReference sr m vaddr write instr := by
  intro hi hu
  have heq := shTranslateV2p_eq sr m vaddr ⟨write, false, instr⟩
  cases hseg : segment sr m (vaddr.setWidth 32) instr with
  | mapped =>
    rw [hseg] at heq
    rw [translateViaMmu_eq] at heq
    refine ⟨_, _, heq, ?_⟩
    cases hfind : (m.searched instr).find? (m.hit sr (vaddr.setWidth 32)) with
    | none =>
      refine Or.inr ⟨fun e he => ?_, ?_⟩
      · rw [(find_selected hi hu instr).mpr he] at hfind
        cases hfind
      · cases write <;> rfl
    | some e =>
      refine Or.inl ⟨e, (find_selected hi hu instr).mp hfind, ?_⟩
      dsimp only
      rw [permission_eq]
      unfold TlbEntry.result
      cases e.permission (sr.getLsbD 30) write instr <;> cases write <;> rfl
  | direct paddr =>
    rw [hseg] at heq
    exact heq
  | noAccess =>
    rw [hseg] at heq
    intro m' ok paddr h
    rw [heq] at h
    cases h
  | reserved =>
    rw [hseg] at heq
    intro m' ok paddr h
    rw [heq, if_neg (by simp)] at h
    cases h

theorem faithful_of_same {m' : Mmu} {ok : Nat} {paddr : Word} (hok : ok ≠ 0)
    (hno : m.shTranslateV2p sr ⟨write, true, instr⟩ vaddr = .ok (m, .returned ok paddr))
    (hexc : m.shTranslateV2p sr ⟨write, false, instr⟩ vaddr = .ok (m', .returned ok paddr)) :
    NoExceptionsFaithful sr m vaddr write instr := by
  refine ⟨ok, paddr, hno, ⟨fun _ => ⟨m', ok, paddr, hexc, hok⟩, fun _ => hok⟩, fun m2 ok2 paddr2 h => ?_⟩
  rw [hexc] at h
  cases h
  rfl

theorem not_faithful_of_fails {ok : Nat} {paddr : Word} (hok : ok ≠ 0)
    (hno : m.shTranslateV2p sr ⟨write, true, instr⟩ vaddr = .ok (m, .returned ok paddr))
    (hexc : ∀ m' ok' paddr', m.shTranslateV2p sr ⟨write, false, instr⟩ vaddr ≠ .ok (m', .returned ok' paddr')) :
    ¬ NoExceptionsFaithful sr m vaddr write instr := by
  rintro ⟨ok1, paddr1, h1, hiff, -⟩
  rw [hno] at h1
  cases h1
  obtain ⟨m', ok', paddr', hsuccess, -⟩ := hiff.mp hok
  exact hexc m' ok' paddr' hsuccess

theorem faithful_mapped_iff (hseg : segment sr m (vaddr.setWidth 32) instr = .mapped) :
    NoExceptionsFaithful sr m vaddr write instr ↔
      ∃ e, FirstMatch sr m (vaddr.setWidth 32) (m.searched instr) e ∧ e.Permits (sr.getLsbD 30) write instr := by
  have hno := shTranslateV2p_eq sr m vaddr ⟨write, true, instr⟩
  have hexc := shTranslateV2p_eq sr m vaddr ⟨write, false, instr⟩
  rw [hseg] at hno hexc
  rw [translateViaMmu_eq] at hno hexc
  generalize (vaddr.setWidth 32 : Word) = v at hno hexc ⊢
  cases hfind : (m.searched instr).find? (m.hit sr v) with
  | none =>
    rw [hfind] at hno hexc
    refine iff_of_false (not_faithful_of_fails two_ne_zero hno fun m' ok' paddr' h => ?_) ?_
    · rw [hexc] at h
      cases h
    · rintro ⟨e, he, -⟩
      rw [(find_iff sr m v e instr).mpr he] at hfind
      cases hfind
  | some e =>
    rw [hfind] at hno hexc
    dsimp only at hno hexc
    rw [permission_eq] at hno hexc
    have hfirst := (find_iff sr m v e instr).mp hfind
    have hexists : (∃ e, FirstMatch sr m v (m.searched instr) e ∧ e.Permits (sr.getLsbD 30) write instr) ↔
        e.Permits (sr.getLsbD 30) write instr := by
      constructor
      · rintro ⟨e', he', hperm⟩
        have hsame := (find_iff sr m v e' instr).mpr he'
        rw [hfind] at hsame
        cases hsame
        exact hperm
      · exact fun hperm => ⟨e, hfirst, hperm⟩
    rw [hexists, TlbEntry.Permits]
    cases hperm : e.permission (sr.getLsbD 30) write instr with
    | readOnly =>
      rw [hperm] at hno hexc
      exact iff_of_true (faithful_of_same one_ne_zero hno hexc) (Or.inl rfl)
    | readWrite =>
      rw [hperm] at hno hexc
      exact iff_of_true (faithful_of_same two_ne_zero hno hexc) (Or.inr rfl)
    | protection =>
      rw [hperm] at hno hexc
      refine iff_of_false (not_faithful_of_fails two_ne_zero hno fun m' ok' paddr' h => ?_) nofun
      rw [hexc] at h
      cases h
    | initialWrite =>
      rw [hperm] at hno hexc
      refine iff_of_false (not_faithful_of_fails two_ne_zero hno fun m' ok' paddr' h => ?_) nofun
      rw [hexc] at h
      cases h

/-- The call without exceptions agrees with the other one for the addresses that can be accessed, and for no
other address. -/
theorem translateV2p_noExceptions_iff (sr : Word) (m : Mmu) (vaddr : Addr) (write instr : Bool) :
    NoExceptionsFaithful sr m vaddr write instr ∧ AgreesWithReference sr m vaddr write instr ↔
      Accessible sr m vaddr write instr := by
  rw [and_iff_left agreesWithReference]
  unfold Accessible
  have hno := shTranslateV2p_eq sr m vaddr ⟨write, true, instr⟩
  have hexc := shTranslateV2p_eq sr m vaddr ⟨write, false, instr⟩
  dsimp only at hno hexc ⊢
  cases hseg : segment sr m (vaddr.setWidth 32) instr with
  | mapped => exact faithful_mapped_iff hseg
  | direct paddr =>
    rw [hseg] at hno hexc
    exact iff_of_true (faithful_of_same two_ne_zero hno hexc) trivial
  | noAccess =>
    rw [hseg] at hno hexc
    refine iff_of_false (not_faithful_of_fails two_ne_zero hno fun m' ok' paddr' h => ?_) not_false
    rw [hexc] at h
    cases h
  | reserved =>
    rw [hseg] at hno hexc
    dsimp only at hno hexc
    rw [if_neg (by simp)] at hexc
    refine iff_of_false ?_ not_false
    by_cases hinstr : instr = false
    · rw [if_pos ⟨hinstr, rfl⟩] at hno
      refine not_faithful_of_fails two_ne_zero hno fun m' ok' paddr' h => ?_
      rw [hexc] at h
      cases h
    · rw [if_neg fun h => hinstr h.1] at hno
      rintro ⟨ok, paddr, h, -⟩
      rw [hno] at h
      cases h

end

def emptyMmu : Mmu where
  pteh := 0#32
  ptel := 0#32
  ttb := 0#32
  tea := 0#32
  mmucr := 0x00000001#32
  itlb := fun _ => ⟨0#32, 0#32⟩
  utlb := fun _ => ⟨0#32, 0#32⟩

/-- A read of address 0 misses the TLB, and without exceptions it succeeds. -/
theorem translateV2p_noExceptions_fails : ¬ NoExceptionsFaithful shSrMd emptyMmu 0#64 false false :=
  @not_faithful_of_fails _ _ _ _ _ 2 0#32 two_ne_zero (by rfl) (by rintro m' ok' paddr' h; cases h)

end Gxemul.Sh
