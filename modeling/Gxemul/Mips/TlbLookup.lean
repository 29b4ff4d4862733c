import Gxemul.Mips.TranslateV2p

/- Address translation as the architecture describes it, and how translate_v2p()
   compares.

   The reference looks for an entry that matches anywhere in the TLB, and builds
   the physical address from all bits of its page number. translate_v2p() does
   the same, except that it drops the bits of a physical address above the lowest
   32. -/
namespace Gxemul.Mips

open Lib

/-! ## The reference -/

def dualPageMask (v : Variant) (e : MipsTlb) : Reg := e.mask ||| BitVec.ofNat 64 (2 ^ v.pagemaskShift - 1)

def pageMask (v : Variant) (e : MipsTlb) : Reg :=
  match v with
  | .mmu3k => 0xfff#64
  | .mmu8k | .mmu10k | .mmu4100 | .generic => dualPageMask v e >>> 1

def vpnMask (v : Variant) (e : MipsTlb) : Reg :=
  match v with
  | .mmu3k => r2k3kEntryhiVpnMask
  | .mmu8k | .mmu10k | .mmu4100 | .generic => v.vpn2Mask &&& ~~~ dualPageMask v e

def MipsTlb.isGlobal (v : Variant) (e : MipsTlb) : Bool :=
  match v with
  | .mmu3k => anyBit e.lo0 r2k3kEntryloG
  | .mmu4100 => anyBit (e.lo1 &&& e.lo0) entryloG
  | .mmu8k | .mmu10k | .generic => anyBit e.hi tlbG

def Matches (v : Variant) (asid : Reg) (vaddr : Addr) (e : MipsTlb) : Prop :=
  e.hi &&& vpnMask v e = vaddr &&& vpnMask v e ∧ (currentAsid v e.hi = asid ∨ e.isGlobal v = true)

instance (v : Variant) (asid : Reg) (vaddr : Addr) (e : MipsTlb) : Decidable (Matches v asid vaddr e) :=
  inferInstanceAs (Decidable (_ ∧ _))

def MipsTlb.half (v : Variant) (e : MipsTlb) (vaddr : Addr) : Reg :=
  match v with
  | .mmu3k => e.lo0
  | .mmu8k | .mmu10k | .mmu4100 | .generic => if anyBit vaddr (pageMask v e + 1) then e.lo1 else e.lo0

def isValid (v : Variant) (lo : Reg) : Bool :=
  match v with
  | .mmu3k => anyBit lo r2k3kEntryloV
  | .mmu8k | .mmu10k | .mmu4100 | .generic => anyBit lo entryloV

def isDirty (v : Variant) (lo : Reg) : Bool :=
  match v with
  | .mmu3k => anyBit lo r2k3kEntryloD
  | .mmu8k | .mmu10k | .mmu4100 | .generic => anyBit lo entryloD

def MipsTlb.paddr (v : Variant) (e : MipsTlb) (vaddr : Addr) : Addr :=
  (pfnAddr v (e.half v vaddr) &&& ~~~ pageMask v e) ||| (vaddr &&& pageMask v e)

/-- Translation of a mapped address. The VPN that an exception reports is left
out: it depends on the page size of the entry that was looked at last. -/
def lookup (v : Variant) (n : Nat) (tlbs : Nat → MipsTlb) (asid : Reg) (vaddr : Addr) (write noExceptions x64 : Bool) :
    V2pResult :=
  let tlbException := if write then Exccode.tlbs else .tlbl
  match (List.range n).find? (fun i => Matches v asid vaddr (tlbs i)) with
  | none => failure v noExceptions tlbException true vaddr 0 asid x64
  | some i =>
    let lo := (tlbs i).half v vaddr
    if isValid v lo then
      if isDirty v lo || !write then .ok ((tlbs i).paddr v vaddr) (isDirty v lo)
      else failure v noExceptions .mod false vaddr 0 asid x64
    else failure v noExceptions tlbException false vaddr 0 asid x64

def architecture (t : CpuType) (m : Mmu) (vaddr : Addr) (write noExceptions : Bool) : Except Exit V2pResult := do
  let v := t.variant
  let asid := currentAsid v m.cop0.entryhi
  let (ksu, x64) ← ksuAndX64 v m.cop0.status
  match segment v m.cop0.status ksu x64 vaddr with
  | .unmapped paddr => return .ok paddr true
  | .addressError vaddr => return failure v noExceptions (if write then .ades else .adel) false vaddr 0 asid x64
  | .mapped vaddr => return lookup v t.nTlbs m.tlbs asid vaddr write noExceptions x64

def V2pResult.withoutVpn2 : V2pResult → V2pResult
  | .ok paddr writable => .ok paddr writable
  | .failed exception => .failed (exception.map fun e => { e with vaddrVpn2 := 0 })

/-! ## Page masks -/

/-- The page sizes that translate_v2p() knows: 1 KB to 256 KB on an R4100, and
4 KB to 16 MB elsewhere. -/
def legalShifts : Variant → List Nat
  | .mmu3k => []
  | .mmu4100 => [10, 12, 14, 16, 18]
  | .mmu8k | .mmu10k | .generic => [12, 14, 16, 18, 20, 22, 24]

def LegalMask (v : Variant) (e : MipsTlb) : Prop :=
  v = .mmu3k ∨ ∃ s ∈ legalShifts v, dualPageMask v e = BitVec.ofNat 64 (2 ^ (s + 1) - 1)

instance (v : Variant) (e : MipsTlb) : Decidable (LegalMask v e) := inferInstanceAs (Decidable (_ ∨ ∃ s ∈ _, _))

theorem pagemaskMask_low (v : Variant) : BitVec.ofNat 64 (2 ^ v.pagemaskShift - 1) &&& v.pagemaskMask = 0 := by
  cases v <;> decide

theorem shift_cases {v : Variant} {s : Nat} (hs : s ∈ legalShifts v) :
    s = 10 ∨ s = 12 ∨ s = 14 ∨ s = 16 ∨ s = 18 ∨ s = 20 ∨ s = 22 ∨ s = 24 := by
  cases v <;> simp only [legalShifts, List.mem_cons, List.not_mem_nil, or_false] at hs <;> omega

theorem pageshift_of_legal {v : Variant} {e : MipsTlb} {s : Nat} (hs : s ∈ legalShifts v)
    (h : dualPageMask v e = BitVec.ofNat 64 (2 ^ (s + 1) - 1)) :
    pageshift v ((e.mask &&& v.pagemaskMask).setWidth 32) = .ok s := by
  have hmask : e.mask &&& v.pagemaskMask = BitVec.ofNat 64 (2 ^ (s + 1) - 1) &&& v.pagemaskMask := by
    rw [← h]
    unfold dualPageMask
    apply BitVec.eq_of_getLsbD_eq
    intro i hi
    -- the bits that the mask is extended with are not looked at
    have hlow : ((BitVec.ofNat 64 (2 ^ v.pagemaskShift - 1)).getLsbD i && v.pagemaskMask.getLsbD i) = false := by
      rw [← BitVec.getLsbD_and, pagemaskMask_low]
      exact BitVec.getLsbD_zero
    rw [BitVec.getLsbD_and, BitVec.getLsbD_and, BitVec.getLsbD_or]
    cases hp : v.pagemaskMask.getLsbD i with
    | false => rw [Bool.and_false, Bool.and_false]
    | true =>
      rw [hp, Bool.and_true] at hlow
      rw [hlow, Bool.or_false]
  rw [hmask]
  cases v <;> simp only [legalShifts, List.mem_cons, List.not_mem_nil, or_false] at hs
  · rcases hs with rfl | rfl | rfl | rfl | rfl | rfl | rfl <;> rfl
  · rcases hs with rfl | rfl | rfl | rfl | rfl | rfl | rfl <;> rfl
  · rcases hs with rfl | rfl | rfl | rfl | rfl <;> rfl
  · rcases hs with rfl | rfl | rfl | rfl | rfl | rfl | rfl <;> rfl

theorem pageMask_of_legal {v : Variant} {e : MipsTlb} {s : Nat} (hv : v ≠ .mmu3k) (hs : s ∈ legalShifts v)
    (h : dualPageMask v e = BitVec.ofNat 64 (2 ^ (s + 1) - 1)) :
    pageMask v e = BitVec.ofNat 64 (2 ^ s - 1) ∧ pageMask v e + 1 = BitVec.twoPow 64 s := by
  have hp : pageMask v e = BitVec.ofNat 64 (2 ^ (s + 1) - 1) >>> 1 := by
    rw [← h]
    cases v <;> first | rfl | exact absurd rfl hv
  rw [hp]
  rcases shift_cases hs with rfl | rfl | rfl | rfl | rfl | rfl | rfl | rfl <;> decide

/-! ## One entry -/

theorem ushiftRight_eq_iff (a b : BitVec 64) (k : Nat) : a >>> k = b >>> k ↔
    a &&& ~~~ BitVec.ofNat 64 (2 ^ k - 1) = b &&& ~~~ BitVec.ofNat 64 (2 ^ k - 1) := by
  constructor
  · intro h
    apply BitVec.eq_of_getLsbD_eq
    intro i hi
    simp only [BitVec.getLsbD_and, BitVec.getLsbD_not, BitVec.getLsbD_ofNat, Nat.testBit_two_pow_sub_one]
    by_cases hk : k ≤ i
    · have hbit := congrArg (fun x => x.getLsbD (i - k)) h
      simp only [BitVec.getLsbD_ushiftRight, Nat.add_sub_cancel' hk] at hbit
      rw [hbit]
    · have hlt : i < k := Nat.lt_of_not_le hk
      simp [hi, hlt]
  · intro h
    apply BitVec.eq_of_getLsbD_eq
    intro i hi
    have hbit := congrArg (fun x => x.getLsbD (k + i)) h
    have hnot : ¬ k + i < k := by omega
    simp only [BitVec.getLsbD_and, BitVec.getLsbD_not, BitVec.getLsbD_ofNat, Nat.testBit_two_pow_sub_one, hnot,
      decide_false, Bool.and_false, Bool.not_false, Bool.and_true] at hbit
    simp only [BitVec.getLsbD_ushiftRight]
    by_cases hk : k + i < 64
    · simpa [hk] using hbit
    · rw [BitVec.getLsbD_of_ge _ _ (Nat.le_of_not_lt hk), BitVec.getLsbD_of_ge _ _ (Nat.le_of_not_lt hk)]

theorem anyBit_twoPow (x : Reg) {s : Nat} (hs : s < 64) : anyBit x (BitVec.twoPow 64 s) = x.getLsbD s := by
  unfold anyBit
  rw [BitVec.and_twoPow]
  cases x.getLsbD s with
  | false => rfl
  | true =>
    have hne : BitVec.twoPow 64 s ≠ 0 := by
      intro h
      have := congrArg (fun x => x.getLsbD s) h
      simp [hs] at this
    simpa using hne

theorem odd_eq (x : Reg) (s : Nat) : ((x >>> s) &&& 1#64 != 0) = x.getLsbD s := by
  have h := anyBit_twoPow (x >>> s) (s := 0) (by decide)
  rw [BitVec.getLsbD_ushiftRight, Nat.add_zero] at h
  exact h

theorem setWidth_pageMask {s : Nat} (_ : s ≤ 32) :
    (BitVec.ofNat 64 (2 ^ s - 1)).setWidth 32 = BitVec.ofNat 32 (2 ^ s - 1) := by
  apply BitVec.eq_of_getLsbD_eq
  intro i hi
  have h64 : i < 64 := by omega
  simp only [BitVec.getLsbD_setWidth, BitVec.getLsbD_ofNat, hi, h64, decide_true, Bool.true_and]

theorem setWidth_lowMask {s : Nat} (_ : s ≤ 32) :
    (BitVec.ofNat 32 (2 ^ s - 1)).setWidth 64 = BitVec.ofNat 64 (2 ^ s - 1) := by
  apply BitVec.eq_of_getLsbD_eq
  intro i hi
  simp only [BitVec.getLsbD_setWidth, BitVec.getLsbD_ofNat, hi, decide_true, Bool.true_and,
    Nat.testBit_two_pow_sub_one]
  by_cases h : i < s
  · have h32 : i < 32 := by omega
    simp [h, h32]
  · simp [h]

theorem paddr_eq_iff (x y : Addr) {s : Nat} (hs : s < 32) :
    (x &&& (~~~ BitVec.ofNat 32 (2 ^ s - 1)).setWidth 64) ||| (y &&& (BitVec.ofNat 32 (2 ^ s - 1)).setWidth 64) =
      (x &&& ~~~ BitVec.ofNat 64 (2 ^ s - 1)) ||| (y &&& BitVec.ofNat 64 (2 ^ s - 1)) ↔ x.toNat < 2 ^ 32 := by
  constructor
  · intro h
    apply Nat.lt_pow_two_of_testBit
    intro i hi
    have hbit := congrArg (fun z => z.getLsbD i) h
    have h1 : ¬ i < 32 := by omega
    have h2 : ¬ i < s := by omega
    by_cases h64 : i < 64
    · simp only [BitVec.getLsbD_or, BitVec.getLsbD_and, BitVec.getLsbD_setWidth, BitVec.getLsbD_not,
        BitVec.getLsbD_ofNat, Nat.testBit_two_pow_sub_one, h1, h2, h64, decide_false, decide_true,
        Bool.and_false, Bool.or_self, Bool.not_false, Bool.and_true, Bool.or_false] at hbit
      exact hbit.symm
    · exact BitVec.getLsbD_of_ge x i (Nat.le_of_not_lt h64)
  · intro h
    apply BitVec.eq_of_getLsbD_eq
    intro i hi
    simp only [BitVec.getLsbD_or, BitVec.getLsbD_and, BitVec.getLsbD_setWidth, BitVec.getLsbD_not,
      BitVec.getLsbD_ofNat, Nat.testBit_two_pow_sub_one, hi, decide_true, Bool.true_and]
    by_cases h32 : i < 32
    · simp [h32]
    · have hx : x.getLsbD i = false :=
        Nat.testBit_lt_two_pow (Nat.lt_of_lt_of_le h (Nat.pow_le_pow_right (by decide) (by omega)))
      have h2 : ¬ i < s := by omega
      simp [h32, h2, hx]

/-- The physical address that translate_v2p() gets from an entry. -/
def MipsTlb.v2pAddr (v : Variant) (e : MipsTlb) (vaddr : Addr) : Addr :=
  match v with
  | .mmu3k => e.paddr v vaddr
  | .mmu8k | .mmu10k | .mmu4100 | .generic =>
    (pfnAddr v (e.half v vaddr) &&& (~~~ (pageMask v e).setWidth 32).setWidth 64) ||| (vaddr &&& pageMask v e)

theorem v2pAddr_eq {v : Variant} (hv : v ≠ .mmu3k) (e : MipsTlb) (vaddr : Addr) : e.v2pAddr v vaddr =
    (pfnAddr v (e.half v vaddr) &&& (~~~ (pageMask v e).setWidth 32).setWidth 64) ||| (vaddr &&& pageMask v e) := by
  cases v <;> first | rfl | exact absurd rfl hv

theorem v2pAddr_eq_paddr_iff {v : Variant} {e : MipsTlb} (hm : LegalMask v e) (vaddr : Addr) :
    e.v2pAddr v vaddr = e.paddr v vaddr ↔ (pfnAddr v (e.half v vaddr)).toNat < 2 ^ 32 := by
  by_cases h3k : v = .mmu3k
  · subst h3k
    refine iff_of_true rfl ?_
    unfold pfnAddr r2k3kEntryloPfnMask
    rw [BitVec.toNat_and]
    exact Nat.lt_of_le_of_lt Nat.and_le_right (by decide)
  · obtain ⟨s, hs, hd⟩ := hm.resolve_left h3k
    have hs32 : s < 32 := by
      rcases shift_cases hs with rfl | rfl | rfl | rfl | rfl | rfl | rfl | rfl <;> decide
    rw [v2pAddr_eq h3k]
    unfold MipsTlb.paddr
    rw [(pageMask_of_legal h3k hs hd).1, setWidth_pageMask (by omega)]
    have hiff := paddr_eq_iff (pfnAddr v (e.half v vaddr)) vaddr hs32
    rw [setWidth_lowMask (by omega)] at hiff
    exact hiff

theorem look_spec {v : Variant} (hv : v ≠ .mmu8k) (vaddr : Addr) {e : MipsTlb} (hm : LegalMask v e) (asid : Reg) :
    ∃ k, look v vaddr e = .ok k ∧ (k.hit asid = true ↔ Matches v asid vaddr e) ∧
      k.vBit = isValid v (e.half v vaddr) ∧ k.dBit = isDirty v (e.half v vaddr) ∧
      k.paddr v vaddr = e.v2pAddr v vaddr := by
  by_cases h3k : v = .mmu3k
  · subst h3k
    refine ⟨look3k vaddr e, rfl, ?_, rfl, rfl, ?_⟩
    · simp [Look.hit, look3k, Matches, vpnMask, currentAsid, MipsTlb.isGlobal]
    · have hmask : pfnAddr .mmu3k e.lo0 &&& ~~~ 0xfff#64 = pfnAddr .mmu3k e.lo0 := by
        unfold pfnAddr r2k3kEntryloPfnMask
        rw [BitVec.and_assoc]
        rfl
      unfold MipsTlb.v2pAddr MipsTlb.paddr MipsTlb.half pageMask
      rw [hmask]
      rfl
  · obtain ⟨s, hs, hd⟩ := hm.resolve_left h3k
    obtain ⟨hp, hp1⟩ := pageMask_of_legal h3k hs hd
    have hs32 : s < 32 := by
      rcases shift_cases hs with rfl | rfl | rfl | rfl | rfl | rfl | rfl | rfl <;> decide
    have hlook : look v vaddr e = look4k v vaddr e := by
      cases v <;> first | rfl | exact absurd rfl h3k
    have hodd : ((vaddr >>> s) &&& 1#64 != 0) = anyBit vaddr (pageMask v e + 1) := by
      rw [odd_eq, hp1, anyBit_twoPow _ (by omega)]
    have hhalf : e.half v vaddr = if (vaddr >>> s) &&& 1#64 != 0 then e.lo1 else e.lo0 := by
      rw [hodd]
      cases v <;> first | rfl | exact absurd rfl h3k
    have h8k : (v == .mmu8k) = false := by simpa using hv
    rw [hlook]
    unfold look4k
    rw [pageshift_of_legal hs hd]
    refine ⟨_, rfl, ?_, ?_, ?_, ?_⟩
    · unfold Look.hit Matches
      have hvpn : (e.hi &&& v.vpn2Mask) >>> (s + 1) = (vaddr &&& v.vpn2Mask) >>> (s + 1) ↔
          e.hi &&& vpnMask v e = vaddr &&& vpnMask v e := by
        rw [ushiftRight_eq_iff, ← hd]
        have hmask : vpnMask v e = v.vpn2Mask &&& ~~~ dualPageMask v e := by
          cases v <;> first | rfl | exact absurd rfl h3k
        rw [hmask, BitVec.and_assoc, BitVec.and_assoc]
      have hasid : currentAsid v e.hi = e.hi &&& entryhiAsid := by
        cases v <;> first | rfl | exact absurd rfl h3k
      simp only [Bool.and_eq_true, Bool.or_eq_true, beq_iff_eq, hvpn, hasid]
      cases v <;> first | exact Iff.rfl | exact absurd rfl h3k
    · rw [hhalf, h8k]
      cases v <;> first | rfl | exact absurd rfl h3k
    · rw [hhalf, h8k]
      cases v <;> first | rfl | exact absurd rfl h3k
    · have hpaddr : ∀ k : Look, k.paddr v vaddr = (pfnAddr v k.lo &&& (~~~ k.pmask).setWidth 64) |||
          (vaddr &&& k.pmask.setWidth 64) := by
        intro k
        cases v <;> first | rfl | exact absurd rfl h3k
      rw [hpaddr, v2pAddr_eq h3k, hp, hhalf, setWidth_pageMask (by omega), setWidth_lowMask (by omega)]

/-! ## The scan -/

def AtMostOne (v : Variant) (n : Nat) (tlbs : Nat → MipsTlb) (asid : Reg) (vaddr : Addr) : Prop :=
  ∀ i j, i < n → j < n → Matches v asid vaddr (tlbs i) → Matches v asid vaddr (tlbs j) → i = j

theorem scanTlb_spec {t : CpuType} {m : Mmu} (hv : t.variant ≠ .mmu8k) (hhint : m.lastWrittenTlbIndex < t.nTlbs)
    (hm : ∀ i, i < t.nTlbs → LegalMask t.variant (m.tlbs i)) (vaddr : Addr) :
    (∃ i k, i < t.nTlbs ∧ Matches t.variant (currentAsid t.variant m.cop0.entryhi) vaddr (m.tlbs i) ∧
      look t.variant vaddr (m.tlbs i) = .ok k ∧ scanTlb t m vaddr = .ok (.inl k)) ∨
    ((∀ i, i < t.nTlbs → ¬ Matches t.variant (currentAsid t.variant m.cop0.entryhi) vaddr (m.tlbs i)) ∧
      ∃ vpn2, scanTlb t m vaddr = .ok (.inr vpn2)) := by
  have hlook := fun i hi => look_spec hv vaddr (hm i hi) (currentAsid t.variant m.cop0.entryhi)
  let f : Nat → Except Exit (Look ⊕ Reg) := fun i => do
    let k ← look t.variant vaddr (m.tlbs i)
    return if k.hit (currentAsid t.variant m.cop0.entryhi) then .inl k else .inr k.vaddrVpn2
  have hf : ∀ i, i < t.nTlbs → ∃ r, f i = .ok r := by
    intro i hi
    obtain ⟨k, hk, -⟩ := hlook i hi
    exact ⟨_, by simp only [f, hk]; rfl⟩
  refine (scanRing_all hf hhint).imp ?_ ?_
  · intro ⟨i, b, hi, hb, hscan⟩
    obtain ⟨k, hk, hhit, -⟩ := hlook i hi
    simp only [f, hk, bind, Except.bind, pure, Except.pure, Except.ok.injEq] at hb
    split at hb
    next hkhit =>
      cases hb
      exact ⟨i, b, hi, hhit.mp hkhit, hk, hscan⟩
    next => cases hb
  · intro ⟨hall, c, hscan⟩
    refine ⟨fun i hi hmatch => ?_, c, hscan⟩
    obtain ⟨k, hk, hhit, -⟩ := hlook i hi
    obtain ⟨c, hc⟩ := hall i hi
    simp only [f, hk, bind, Except.bind, pure, Except.pure, Except.ok.injEq, hhit.mpr hmatch, if_true] at hc
    cases hc

def scanHits (t : CpuType) (m : Mmu) (vaddr : Addr) (i : Nat) : Bool :=
  match look t.variant vaddr (m.tlbs i) with
  | .ok k => k.hit (currentAsid t.variant m.cop0.entryhi)
  | .error _ => false

/-- The index that the scan ends at: of the first entry that matches, from the one that was written last, or of the one
before that. -/
def lastIndex (t : CpuType) (m : Mmu) (vaddr : Addr) : Nat :=
  Lib.scanEnd t.nTlbs (Lib.ringPrev t.nTlbs m.lastWrittenTlbIndex) (scanHits t m vaddr) t.nTlbs m.lastWrittenTlbIndex

theorem scanTlb_last {t : CpuType} {m : Mmu} {va : Addr} {r : Look ⊕ Reg} (hr : scanTlb t m va = .ok r) :
    ∃ k, look t.variant va (m.tlbs (lastIndex t m va)) = .ok k ∧
      (scanHits t m va (lastIndex t m va) = true ∧ r = .inl k ∨
        scanHits t m va (lastIndex t m va) = false ∧ r = .inr k.vaddrVpn2) := by
  have hp : ∀ (i : Nat) (r : Look ⊕ Reg), (do
      let k ← look t.variant va (m.tlbs i)
      return if k.hit (currentAsid t.variant m.cop0.entryhi) then .inl k else .inr k.vaddrVpn2 : Except Exit (Look ⊕ Reg)) =
        .ok r → scanHits t m va i = r.isLeft := by
    intro i r hi
    obtain ⟨k, hk, hi⟩ := Lib.bind_eq_ok hi
    cases hi
    rw [scanHits, hk]
    dsimp only
    cases k.hit (currentAsid t.variant m.cop0.entryhi) with
    | true => rfl
    | false => rfl
  have hlast := scanRing_end hp hr
  have hhit := hp _ r hlast
  obtain ⟨k, hk, hlast⟩ := Lib.bind_eq_ok hlast
  refine ⟨k, hk, ?_⟩
  cases hlast
  rw [← lastIndex] at hhit
  rw [hhit]
  split
  · exact Or.inl ⟨rfl, rfl⟩
  · exact Or.inr ⟨rfl, rfl⟩

theorem scanTlb_cases {t : CpuType} {m : Mmu} {va : Addr} (hhint : m.lastWrittenTlbIndex < t.nTlbs)
    (hlook : ∀ i, i < t.nTlbs → ∃ k, look t.variant va (m.tlbs i) = .ok k) :
    (∃ k, scanTlb t m va = .ok (.inl k) ∧ lastIndex t m va < t.nTlbs ∧ scanHits t m va (lastIndex t m va) = true) ∨
    (∃ vpn2, scanTlb t m va = .ok (.inr vpn2) ∧ ∀ i, i < t.nTlbs → scanHits t m va i = false) := by
  let f : Nat → Except Exit (Look ⊕ Reg) := fun i => do
    let k ← look t.variant va (m.tlbs i)
    return if k.hit (currentAsid t.variant m.cop0.entryhi) then .inl k else .inr k.vaddrVpn2
  have hf : ∀ i, i < t.nTlbs → ∃ r, f i = .ok r := by
    intro i hi
    obtain ⟨k, hk⟩ := hlook i hi
    exact ⟨_, by simp only [f, hk]; rfl⟩
  obtain ⟨_, k, -, -, hscan⟩ | ⟨hall, vpn2, hscan⟩ := scanRing_all hf hhint
  · refine Or.inl ⟨k, hscan, scanEnd_lt hhint, ?_⟩
    obtain ⟨_, -, ⟨hhit, -⟩ | ⟨-, hr⟩⟩ := scanTlb_last hscan
    · exact hhit
    · cases hr
  · refine Or.inr ⟨vpn2, hscan, fun i hi => ?_⟩
    obtain ⟨k, hk⟩ := hlook i hi
    obtain ⟨c, hc⟩ := hall i hi
    unfold scanHits
    rw [hk]
    dsimp only
    cases hhit : k.hit (currentAsid t.variant m.cop0.entryhi) with
    | false => rfl
    | true =>
      simp only [f, hk, bind, Except.bind, pure, Except.pure, Except.ok.injEq, hhit, if_true] at hc
      cases hc

/-! ## translate_v2p() against the reference -/

theorem find_of_matches {v : Variant} {n : Nat} {tlbs : Nat → MipsTlb} {asid : Reg} {vaddr : Addr} {i : Nat}
    (hu : AtMostOne v n tlbs asid vaddr) (hi : i < n) (hmatch : Matches v asid vaddr (tlbs i)) :
    (List.range n).find? (fun i => Matches v asid vaddr (tlbs i)) = some i := by
  cases hfind : (List.range n).find? (fun i => Matches v asid vaddr (tlbs i)) with
  | none =>
    have := List.find?_eq_none.mp hfind i (List.mem_range.mpr hi)
    exact absurd hmatch (by simpa using this)
  | some j =>
    have hj : Matches v asid vaddr (tlbs j) := by simpa using List.find?_some hfind
    have hjn : j < n := List.mem_range.mp (List.mem_of_find?_eq_some hfind)
    rw [hu j i hjn hi hj hmatch]

theorem find_of_not_matches {v : Variant} {n : Nat} {tlbs : Nat → MipsTlb} {asid : Reg} {vaddr : Addr}
    (h : ∀ i, i < n → ¬ Matches v asid vaddr (tlbs i)) :
    (List.range n).find? (fun i => Matches v asid vaddr (tlbs i)) = none := by
  apply List.find?_eq_none.mpr
  intro i hi
  simpa using h i (List.mem_range.mp hi)

theorem withoutVpn2_failure (v : Variant) (noExceptions : Bool) (exccode : Exccode) (tlb : Bool) (vaddr : Addr)
    (vpn2 asid : Reg) (x64 : Bool) : (failure v noExceptions exccode tlb vaddr vpn2 asid x64).withoutVpn2 =
      failure v noExceptions exccode tlb vaddr 0 asid x64 := by
  unfold failure
  split
  · rfl
  · cases v <;> rfl

/-- The entry `i` lets the access through, to a page above 4 GB. -/
def PageAbove4GB (v : Variant) (e : MipsTlb) (asid : Reg) (vaddr : Addr) (write : Bool) : Prop :=
  Matches v asid vaddr e ∧ isValid v (e.half v vaddr) = true ∧ (isDirty v (e.half v vaddr) || !write) = true ∧
    2 ^ 32 ≤ (pfnAddr v (e.half v vaddr)).toNat

theorem translateMapped_eq_lookup_iff {t : CpuType} {m : Mmu} (hv : t.variant ≠ .mmu8k)
    (hhint : m.lastWrittenTlbIndex < t.nTlbs) (hm : ∀ i, i < t.nTlbs → LegalMask t.variant (m.tlbs i)) (vaddr : Addr)
    (hu : AtMostOne t.variant t.nTlbs m.tlbs (currentAsid t.variant m.cop0.entryhi) vaddr)
    (x64 write noExceptions : Bool) :
    (translateMapped t m vaddr x64 write noExceptions).map V2pResult.withoutVpn2 =
      .ok (lookup t.variant t.nTlbs m.tlbs (currentAsid t.variant m.cop0.entryhi) vaddr write noExceptions x64) ↔
    ¬ ∃ i < t.nTlbs,
      PageAbove4GB t.variant (m.tlbs i) (currentAsid t.variant m.cop0.entryhi) vaddr write := by
  unfold translateMapped lookup
  obtain ⟨i, k, hi, hmatch, hlook, hscan⟩ | ⟨hnone, vpn2, hscan⟩ := scanTlb_spec hv hhint hm vaddr
  · obtain ⟨k', hlook', -, hvalid, hdirty, hpaddr⟩ :=
      look_spec hv vaddr (hm i hi) (currentAsid t.variant m.cop0.entryhi)
    cases hlook.symm.trans hlook'
    have hone : (∃ i < t.nTlbs,
        PageAbove4GB t.variant (m.tlbs i) (currentAsid t.variant m.cop0.entryhi) vaddr write) ↔
        PageAbove4GB t.variant (m.tlbs i) (currentAsid t.variant m.cop0.entryhi) vaddr write := by
      constructor
      · intro ⟨j, hj, habove⟩
        rw [hu i j hi hj hmatch habove.1]
        exact habove
      · intro habove
        exact ⟨i, hi, habove⟩
    rw [hscan, find_of_matches hu hi hmatch, hone]
    simp only [bind, Except.bind, pure, Except.pure, Except.map, Except.ok.injEq]
    unfold Look.result PageAbove4GB
    rw [hvalid, hdirty]
    simp only [hmatch, true_and]
    split
    next hval =>
      split
      next hdir =>
        simp only [V2pResult.withoutVpn2, V2pResult.ok.injEq, and_true, hpaddr, v2pAddr_eq_paddr_iff (hm i hi), hval,
          hdir, true_and]
        exact Nat.not_le.symm
      next hdir => simp [withoutVpn2_failure, hdir]
    next hval => simp [withoutVpn2_failure, hval]
  · rw [hscan, find_of_not_matches hnone]
    refine iff_of_true ?_ fun ⟨i, hi, habove⟩ => hnone i hi habove.1
    simp only [bind, Except.bind, pure, Except.pure, Except.map, withoutVpn2_failure]

/-- translate_v2p() computes what the architecture says, except for pages above
4 GB. -/
theorem translateV2p_eq_architecture_iff (t : CpuType) (m : Mmu) (vaddr : Addr) (write noExceptions : Bool)
    (hv : t.variant ≠ .mmu8k) (hhint : m.lastWrittenTlbIndex < t.nTlbs)
    (hm : ∀ i, i < t.nTlbs → LegalMask t.variant (m.tlbs i))
    (hu : ∀ va, mappedAddr t.variant m.cop0.status vaddr = some va →
      AtMostOne t.variant t.nTlbs m.tlbs (currentAsid t.variant m.cop0.entryhi) va) :
    (translateV2p t m vaddr write noExceptions).map V2pResult.withoutVpn2 = architecture t m vaddr write noExceptions ↔
      ¬ ∃ va, mappedAddr t.variant m.cop0.status vaddr = some va ∧ ∃ i < t.nTlbs,
        PageAbove4GB t.variant (m.tlbs i) (currentAsid t.variant m.cop0.entryhi) va write := by
  cases hmode : ksuAndX64 t.variant m.cop0.status with
  | error e =>
    rw [translateV2p_of_error hmode]
    unfold architecture mappedAddr
    dsimp only
    rw [hmode]
    simp [Except.map, bind, Except.bind]
  | ok mode =>
    obtain ⟨ksu, x64⟩ := mode
    simp only [mappedAddr_of_segment hmode] at hu ⊢
    rw [translateV2p_of_segment hmode]
    unfold architecture
    dsimp only
    rw [hmode]
    simp only [bind, Except.bind]
    cases hseg : segment t.variant m.cop0.status ksu x64 vaddr with
    | unmapped paddr => simp [pure, Except.pure, Except.map, V2pResult.withoutVpn2]
    | addressError va => simp [pure, Except.pure, Except.map, withoutVpn2_failure]
    | mapped va =>
      simpa [pure, Except.pure] using translateMapped_eq_lookup_iff hv hhint hm va (hu va hseg) x64 write noExceptions

/-! ## An R4000 with one page -/

def r4000 : CpuType := ⟨.mmu4k, false, false, false, 48⟩

/-- Entry 3 maps the pages at 0x40000000 in the address space 1. The scan starts
at entry 7. -/
def onePage (lo0 : Reg) : Mmu where
  cop0 := ⟨0, 0, 0, 0, 0, 0, 0, 0, 1, 0, 0, 0, 0, 0⟩
  tlbs := fun i => if i = 3 then ⟨0x40000001, lo0, 0, 0⟩ else ⟨0, 0, 0, 0⟩
  lastWrittenTlbIndex := 7

theorem onePage_legal (lo0 : Reg) (i : Nat) : LegalMask r4000.variant ((onePage lo0).tlbs i) := by
  have hmask : ((onePage lo0).tlbs i).mask = 0 := by
    unfold onePage
    dsimp only
    split <;> rfl
  refine .inr ⟨12, by decide, ?_⟩
  unfold dualPageMask
  rw [hmask]
  decide

theorem onePage_matches {lo0 : Reg} {i : Nat} (h : Matches .generic 1 0x40000678 ((onePage lo0).tlbs i)) : i = 3 := by
  by_contra hne
  simp only [onePage, hne, if_false] at h
  revert h
  decide

/-- A load from the page, at 0x12345000. -/
theorem translateV2p_onePage : (translateV2p r4000 (onePage 0x48d15e) 0x40000678 false false).map V2pResult.withoutVpn2 =
    architecture r4000 (onePage 0x48d15e) 0x40000678 false false := by
  have hmapped : mappedAddr .generic 0 0x40000678 = some 0x40000678 := by decide
  refine (translateV2p_eq_architecture_iff r4000 (onePage 0x48d15e) 0x40000678 false false (by decide) (by decide)
    (fun i _ => onePage_legal _ i) ?_).mpr ?_
  · intro va hva i j _ _ hi hj
    cases hmapped.symm.trans hva
    exact (onePage_matches hi).trans (onePage_matches hj).symm
  · intro ⟨va, hva, i, _, hmatch, _, _, hpfn⟩
    cases hmapped.symm.trans hva
    obtain rfl := onePage_matches hmatch
    revert hpfn
    decide

theorem translateV2p_onePage_at_4GB :
    translateV2p r4000 (onePage 0x400001e) 0x40000678 false false = .ok (.ok 0x678 true) ∧
    architecture r4000 (onePage 0x400001e) 0x40000678 false false = .ok (.ok 0x100000678 true) ∧
    (∀ i, i < r4000.nTlbs → LegalMask r4000.variant ((onePage 0x400001e).tlbs i)) ∧
    (∀ va, mappedAddr r4000.variant (onePage 0x400001e).cop0.status 0x40000678 = some va →
      AtMostOne r4000.variant r4000.nTlbs (onePage 0x400001e).tlbs
        (currentAsid r4000.variant (onePage 0x400001e).cop0.entryhi) va) := by
  refine ⟨by decide, by decide, fun i _ => onePage_legal _ i, ?_⟩
  have hmapped : mappedAddr .generic 0 0x40000678 = some 0x40000678 := by decide
  intro va hva i j _ _ hi hj
  cases hmapped.symm.trans hva
  exact (onePage_matches hi).trans (onePage_matches hj).symm

end Gxemul.Mips
