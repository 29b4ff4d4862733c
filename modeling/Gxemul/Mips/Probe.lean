import Gxemul.Mips.TlbPages

/- tlbp, and the entry that translate_v2p() finds.

   tlbp compares page numbers without the bits of the page mask, from entry 0 on.
   translate_v2p() shifts them down to the page size, from the entry that was written
   last on, and knows fewer page sizes: of a page mask it only sees the bits up to
   those of 16 MB. -/
namespace Gxemul.Mips

/-! ## Page masks -/

/-- The page sizes that coproc_register_write() takes for valid. -/
def writableShifts : Variant → List Nat
  | .mmu8k | .generic => [12, 14, 16, 18, 20, 22, 24, 26, 28]
  | v => legalShifts v

def WritableMask (v : Variant) (e : MipsTlb) : Prop :=
  v = .mmu3k ∨ ∃ s ∈ writableShifts v, dualPageMask v e = BitVec.ofNat 64 (2 ^ (s + 1) - 1)

instance (v : Variant) (e : MipsTlb) : Decidable (WritableMask v e) := inferInstanceAs (Decidable (_ ∨ ∃ s ∈ _, _))

/-- An entry with the bits of its page mask that translate_v2p() sees. -/
def MipsTlb.seen (v : Variant) (e : MipsTlb) : MipsTlb := { e with mask := e.mask &&& v.pagemaskMask }

/-- The bits of a page number that tlbp leaves out, and translate_v2p() does not. -/
def unseenBits (v : Variant) (e : MipsTlb) : Reg :=
  match v with
  | .mmu3k => 0
  | .mmu8k | .mmu10k | .mmu4100 | .generic => v.vpn2Mask &&& (e.mask &&& ~~~ v.pagemaskMask)

section
variable {v : Variant} {va : Addr} {asid : Reg} {e : MipsTlb}

theorem look_seen : look v va (e.seen v) = look v va e := by
  have hmask : (e.mask &&& v.pagemaskMask) &&& v.pagemaskMask = e.mask &&& v.pagemaskMask := by
    rw [BitVec.and_assoc, BitVec.and_self]
  have h4k : look4k v va (e.seen v) = look4k v va e := by
    unfold look4k MipsTlb.seen
    rw [hmask]
  cases v with
  | mmu3k => rfl
  | _ => exact h4k

theorem seen_legal (h : WritableMask v e) : LegalMask v (e.seen v) := by
  obtain h3k | ⟨s, hs, hd⟩ := h
  · exact Or.inl h3k
  · have hlow := pagemaskMask_low v
    have hseen : dualPageMask v (e.seen v) = (dualPageMask v e &&& v.pagemaskMask) |||
        BitVec.ofNat 64 (2 ^ v.pagemaskShift - 1) := by
      unfold dualPageMask MipsTlb.seen
      rw [BitVec.and_or_distrib_right, hlow]
      exact congrArg (· ||| _) BitVec.or_zero.symm
    have hall : ∀ s ∈ writableShifts v, v = .mmu3k ∨ ∃ s' ∈ legalShifts v,
        (BitVec.ofNat 64 (2 ^ (s + 1) - 1) &&& v.pagemaskMask) ||| BitVec.ofNat 64 (2 ^ v.pagemaskShift - 1) =
          BitVec.ofNat 64 (2 ^ (s' + 1) - 1) := by
      cases v <;> decide
    rw [LegalMask, hseen, hd]
    exact hall s hs

theorem vpnMask_seen : vpnMask v (e.seen v) = vpnMask v e ||| unseenBits v e := by
  have hlow : v.vpn2Mask &&& BitVec.ofNat 64 (2 ^ v.pagemaskShift - 1) = 0 := by
    cases v <;> decide
  have h4k : v.vpn2Mask &&& ~~~ dualPageMask v (e.seen v) =
      (v.vpn2Mask &&& ~~~ dualPageMask v e) ||| (v.vpn2Mask &&& (e.mask &&& ~~~ v.pagemaskMask)) := by
    unfold dualPageMask MipsTlb.seen
    apply BitVec.eq_of_getLsbD_eq
    intro i hi
    have hzero : (0 : Reg).getLsbD i = false := BitVec.getLsbD_zero
    have hbit := congrArg (fun x => x.getLsbD i) hlow
    simp only [BitVec.getLsbD_and, hzero] at hbit
    simp only [BitVec.getLsbD_and, BitVec.getLsbD_or, BitVec.getLsbD_not, hi, decide_true, Bool.true_and]
    cases hv : v.vpn2Mask.getLsbD i with
    | false => simp
    | true =>
      rw [hv, Bool.true_and] at hbit
      rw [hbit]
      cases e.mask.getLsbD i <;> cases v.pagemaskMask.getLsbD i <;> rfl
  cases v with
  | mmu3k => exact BitVec.or_zero.symm
  | _ => exact h4k

theorem or_and_self (a b : Reg) : (a ||| b) &&& a = a := by
  apply BitVec.eq_of_getLsbD_eq
  intro i _
  rw [BitVec.getLsbD_and, BitVec.getLsbD_or]
  cases a.getLsbD i <;> simp

theorem and_or_eq_iff (x y a b : Reg) : x &&& (a ||| b) = y &&& (a ||| b) ↔ x &&& a = y &&& a ∧ x &&& b = y &&& b := by
  constructor
  · intro h
    have ha : (a ||| b) &&& a = a := or_and_self a b
    have hb : (a ||| b) &&& b = b := by
      rw [BitVec.or_comm]
      exact or_and_self b a
    refine ⟨?_, ?_⟩
    · rw [← ha, ← BitVec.and_assoc, h, BitVec.and_assoc]
    · rw [← hb, ← BitVec.and_assoc, h, BitVec.and_assoc]
  · intro ⟨ha, hb⟩
    rw [BitVec.and_or_distrib_left, BitVec.and_or_distrib_left, ha, hb]

/-- An entry matches in translate_v2p() if it matches, and the rest of the page number is the same. -/
theorem matches_seen : Matches v asid va (e.seen v) ↔
    Matches v asid va e ∧ e.hi &&& unseenBits v e = va &&& unseenBits v e := by
  have hglobal : (e.seen v).isGlobal v = e.isGlobal v := by
    cases v <;> rfl
  unfold Matches
  rw [vpnMask_seen, hglobal]
  rw [and_or_eq_iff]
  exact ⟨fun ⟨⟨h1, h2⟩, h3⟩ => ⟨⟨h1, h3⟩, h2⟩, fun ⟨⟨h1, h3⟩, h2⟩ => ⟨⟨h1, h2⟩, h3⟩⟩

end

/-! ## The scan -/

section
variable {t : CpuType} {m : Mmu} {vaddr va : Addr}

/-- translate_v2p() takes the entry `i` for an address, valid or not. -/
def Selects (t : CpuType) (m : Mmu) (va : Addr) (i : Nat) : Prop :=
  lastIndex t m va = i ∧ ∃ k, scanTlb t m va = .ok (.inl k)

/-- translate_v2p() reports that there is no entry. -/
def Refills (t : CpuType) (m : Mmu) (vaddr : Addr) : Prop :=
  ∀ write, ∃ e, translateV2p t m vaddr write false = .ok (.failed (some e)) ∧ e.tlb = true

theorem scanHits_iff (hv : t.variant ≠ .mmu8k) {i : Nat} (hm : WritableMask t.variant (m.tlbs i)) :
    scanHits t m va i = true ↔
      Matches t.variant (currentAsid t.variant m.cop0.entryhi) va ((m.tlbs i).seen t.variant) := by
  obtain ⟨k, hk, hhit, -⟩ := look_spec hv va (seen_legal hm) (currentAsid t.variant m.cop0.entryhi)
  rw [look_seen] at hk
  unfold scanHits
  rw [hk]
  exact hhit

theorem result_tlb {v : Variant} {k : Look} {asid : Reg} {x64 write : Bool} {e : ExceptionArgs}
    (h : k.result v false va asid x64 write = .failed (some e)) : e.tlb = false := by
  have hfailure : ∀ {exccode : Exccode} {vpn2 : Reg},
      failure v false exccode false va vpn2 asid x64 = .failed (some e) → e.tlb = false := by
    intro exccode vpn2 hf
    cases v <;> cases hf <;> rfl
  unfold Look.result at h
  split at h
  · split at h
    · cases h
    · exact hfailure h
  · exact hfailure h

theorem refills_iff (hmapped : mappedAddr t.variant m.cop0.status vaddr = some va) {r : Look ⊕ Reg}
    (hr : scanTlb t m va = .ok r) : Refills t m vaddr ↔ r.isRight = true := by
  have hmap : ∀ write, ∃ x64, translateV2p t m vaddr write false = translateMapped t m va x64 write false :=
    fun write => translateV2p_of_mapped hmapped
  cases r with
  | inl k =>
    refine iff_of_false (fun h => ?_) Bool.false_ne_true
    obtain ⟨x64, hx⟩ := hmap false
    obtain ⟨e, he, htlb⟩ := h false
    rw [hx, translateMapped, hr] at he
    rw [result_tlb (Except.ok.inj he)] at htlb
    cases htlb
  | inr vpn2 =>
    refine iff_of_true (fun write => ?_) rfl
    obtain ⟨x64, hx⟩ := hmap write
    rw [hx, translateMapped, hr]
    cases t.variant <;> exact ⟨_, rfl, rfl⟩

end

/-! ## tlbp -/

section
variable {t : CpuType} {c : Cop0} {e : MipsTlb}

def Variant.pageBits : Variant → Reg
  | .mmu3k => r2k3kEntryhiVpnMask
  | v => v.vpn2Mask

theorem vpnMask_pageBits (v : Variant) (e : MipsTlb) : ∃ q, vpnMask v e = v.pageBits &&& q := by
  cases v with
  | mmu3k =>
    refine ⟨~~~ 0#64, ?_⟩
    show r2k3kEntryhiVpnMask = r2k3kEntryhiVpnMask &&& ~~~ 0#64
    decide
  | _ => exact ⟨~~~ dualPageMask _ e, rfl⟩

theorem unseenBits_pageBits (v : Variant) (e : MipsTlb) : ∃ q, unseenBits v e = v.pageBits &&& q := by
  cases v with
  | mmu3k => exact ⟨0, BitVec.and_zero.symm⟩
  | _ => exact ⟨_, rfl⟩

theorem and_of_pageBits {v : Variant} {x y m : Reg} (h : x &&& v.pageBits = y &&& v.pageBits)
    (hm : ∃ q, m = v.pageBits &&& q) : x &&& m = y &&& m := by
  obtain ⟨q, rfl⟩ := hm
  rw [← BitVec.and_assoc, h, BitVec.and_assoc]

theorem vpn2Mask_dual (v : Variant) (e : MipsTlb) : v.vpn2Mask &&& ~~~ dualPageMask v e = v.vpn2Mask &&& ~~~ e.mask := by
  have hlow : v.vpn2Mask &&& ~~~ BitVec.ofNat 64 (2 ^ v.pagemaskShift - 1) = v.vpn2Mask := by
    cases v <;> decide
  unfold dualPageMask
  rw [BitVec.not_or, BitVec.and_comm (~~~ e.mask), ← BitVec.and_assoc, hlow]

theorem probeHits_iff (ht : t.Supported) :
    MipsCpu.probeHits t c e = true ↔ Matches t.variant (currentAsid t.variant c.entryhi) c.entryhi e := by
  by_cases h3k : t.mmuModel = .mmu3k
  · have hv : t.variant = .mmu3k := CpuType.Supported.variant_eq_mmu3k.mpr h3k
    unfold MipsCpu.probeHits Matches
    rw [if_pos h3k, hv]
    simp only [Bool.and_eq_true, Bool.or_eq_true, beq_iff_eq]
    exact And.comm
  · have hv3k : t.variant ≠ .mmu3k := fun h => h3k (CpuType.Supported.variant_eq_mmu3k.mp h)
    have hxmask : (if t.mmuModel = .mmu10k then entryhiRMask ||| entryhiVpn2MaskR10k
        else if t.r4100 then entryhiRMask ||| entryhiVpn2Mask ||| 0x1800#64
        else entryhiRMask ||| entryhiVpn2Mask) = t.variant.vpn2Mask := by
      cases hv : t.variant with
      | mmu3k => exact absurd hv hv3k
      | mmu8k => exact absurd hv ht.variant_ne
      | mmu10k => rw [if_pos (CpuType.Supported.variant_eq_mmu10k.mp hv)]; rfl
      | mmu4100 =>
        have h10k : t.mmuModel ≠ .mmu10k := by
          intro h
          rw [CpuType.Supported.variant_eq_mmu10k.mpr h] at hv
          cases hv
        rw [if_neg h10k, if_pos (ht.variant_eq_mmu4100.mp hv)]
        rfl
      | generic =>
        have h10k : t.mmuModel ≠ .mmu10k := by
          intro h
          rw [CpuType.Supported.variant_eq_mmu10k.mpr h] at hv
          cases hv
        have hr : ¬ t.r4100 = true := by
          intro h
          rw [ht.variant_eq_mmu4100.mpr h] at hv
          cases hv
        rw [if_neg h10k, if_neg hr]
        rfl
    have hgbit : (if t.r4100 then anyBit e.lo0 entryloG && anyBit e.lo1 entryloG else anyBit e.hi tlbG) =
        e.isGlobal t.variant := by
      have hg : entryloG = BitVec.twoPow 64 0 := by decide
      cases hr : t.r4100 with
      | true =>
        rw [ht.variant_eq_mmu4100.mpr hr, if_pos rfl, MipsTlb.isGlobal, hg]
        rw [anyBit_twoPow _ (by decide), anyBit_twoPow _ (by decide), anyBit_twoPow _ (by decide)]
        rw [BitVec.getLsbD_and, Bool.and_comm]
      | false =>
        have h4100 : t.variant ≠ .mmu4100 := by
          intro h
          rw [ht.variant_eq_mmu4100.mp h] at hr
          cases hr
        cases hv : t.variant <;> first | rfl | exact absurd hv hv3k | exact absurd hv h4100
    have hvpn : vpnMask t.variant e = t.variant.vpn2Mask &&& ~~~ e.mask := by
      rw [← vpn2Mask_dual]
      cases hv : t.variant <;> first | rfl | exact absurd hv hv3k
    have hasid : ∀ x, currentAsid t.variant x = x &&& entryhiAsid := by
      intro x
      cases hv : t.variant <;> first | rfl | exact absurd hv hv3k
    unfold MipsCpu.probeHits Matches
    rw [if_neg h3k]
    rw [hxmask, hgbit, hvpn, hasid, hasid]
    simp only [Bool.and_eq_true, Bool.or_eq_true, beq_iff_eq, BitVec.and_assoc]
    rw [and_comm, eq_comm]

def tlbpIndex (t : CpuType) (i : Nat) : Reg :=
  if t.mmuModel = .mmu3k then BitVec.ofNat 64 i <<< r2k3kIndexShift else BitVec.ofNat 64 i

def tlbpMiss : Reg := 0xffffffff80000000#64

theorem tlbpIndex_sign {i : Nat} (hi : i < 64) : anyBit (tlbpIndex t i) 0x80000000#64 = false := by
  have hall : ∀ i < 64, anyBit (BitVec.ofNat 64 i <<< r2k3kIndexShift) 0x80000000#64 = false ∧
      anyBit (BitVec.ofNat 64 i) 0x80000000#64 = false := by
    decide
  unfold tlbpIndex
  split
  · exact (hall i hi).1
  · exact (hall i hi).2

theorem tlbpIndex_inj {i j : Nat} (hi : i < 64) (hj : j < 64) (h : tlbpIndex t i = tlbpIndex t j) : i = j := by
  have hall : ∀ i < 64, (BitVec.ofNat 64 i <<< r2k3kIndexShift) >>> r2k3kIndexShift = BitVec.ofNat 64 i := by
    decide
  have hnat : BitVec.ofNat 64 i = BitVec.ofNat 64 j := by
    unfold tlbpIndex at h
    split at h
    · rw [← hall i hi, h, hall j hj]
    · exact h
  have := congrArg BitVec.toNat hnat
  rw [BitVec.toNat_ofNat, BitVec.toNat_ofNat] at this
  omega

theorem tlbpIndex_ne_miss {i : Nat} (hi : i < 64) : tlbpIndex t i ≠ tlbpMiss := by
  intro h
  have hsign := tlbpIndex_sign (t := t) hi
  rw [h] at hsign
  revert hsign
  decide

end

section
variable {t : CpuType} {s : MipsCpu}

theorem tlbp_index (hn : t.nrOfTlbEntries ≤ 64) : (s.coprocTlbp t).mmu.cop0.index =
    match (List.range t.nrOfTlbEntries).find? (fun i => MipsCpu.probeHits t s.mmu.cop0 (s.mmu.tlbs i)) with
    | none => tlbpMiss
    | some i => tlbpIndex t i := by
  have hsign : ∀ index : Reg, anyBit index 0x80000000#64 = false →
      (if index >>> 32 = 0 ∧ anyBit index 0x80000000#64 = true then index ||| 0xffffffff00000000#64 else index) =
        index := by
    intro index h
    rw [h, if_neg fun hp => Bool.false_ne_true hp.2]
  have hdef : (s.coprocTlbp t).mmu.cop0.index =
      (let index : Reg :=
        match (List.range t.nrOfTlbEntries).find? (fun i => MipsCpu.probeHits t s.mmu.cop0 (s.mmu.tlbs i)) with
        | none => indexP
        | some i => tlbpIndex t i
      if index >>> 32 = 0 ∧ anyBit index 0x80000000#64 = true then index ||| 0xffffffff00000000#64 else index) :=
    rfl
  have hmiss : (if indexP >>> 32 = 0 ∧ anyBit indexP 0x80000000#64 = true then indexP ||| 0xffffffff00000000#64
      else indexP) = tlbpMiss := by
    decide
  rw [hdef]
  cases hfind : (List.range t.nrOfTlbEntries).find? (fun i => MipsCpu.probeHits t s.mmu.cop0 (s.mmu.tlbs i)) with
  | none => exact hmiss
  | some i =>
    have hi : i < 64 := Nat.lt_of_lt_of_le (List.mem_range.mp (List.mem_of_find?_eq_some hfind)) hn
    exact hsign (tlbpIndex t i) (tlbpIndex_sign hi)

theorem tlbp_found_iff (ht : t.Supported) {i : Nat} (hi : i < t.nrOfTlbEntries)
    (hu : AtMostOne t.variant t.nrOfTlbEntries s.mmu.tlbs (currentAsid t.variant s.mmu.cop0.entryhi)
      s.mmu.cop0.entryhi) :
    (s.coprocTlbp t).mmu.cop0.index = tlbpIndex t i ↔
      Matches t.variant (currentAsid t.variant s.mmu.cop0.entryhi) s.mmu.cop0.entryhi (s.mmu.tlbs i) := by
  have hn := ht.entries.2
  rw [tlbp_index hn]
  cases hfind : (List.range t.nrOfTlbEntries).find? (fun i => MipsCpu.probeHits t s.mmu.cop0 (s.mmu.tlbs i)) with
  | none =>
    have hnone := List.find?_eq_none.mp hfind i (List.mem_range.mpr hi)
    refine iff_of_false (fun h => ?_) (fun h => hnone ((probeHits_iff ht).mpr h))
    exact tlbpIndex_ne_miss (Nat.lt_of_lt_of_le hi hn) h.symm
  | some j =>
    have hj : j < t.nrOfTlbEntries := List.mem_range.mp (List.mem_of_find?_eq_some hfind)
    have hhit : MipsCpu.probeHits t s.mmu.cop0 (s.mmu.tlbs j) = true := by
      simpa using List.find?_some hfind
    have hmatch := (probeHits_iff ht).mp hhit
    constructor
    · intro h
      rw [← tlbpIndex_inj (Nat.lt_of_lt_of_le hj hn) (Nat.lt_of_lt_of_le hi hn) h]
      exact hmatch
    · intro h
      rw [hu j i hj hi hmatch h]

theorem tlbp_missed_iff (ht : t.Supported) : (s.coprocTlbp t).mmu.cop0.index = tlbpMiss ↔
    ∀ i < t.nrOfTlbEntries,
      ¬ Matches t.variant (currentAsid t.variant s.mmu.cop0.entryhi) s.mmu.cop0.entryhi (s.mmu.tlbs i) := by
  have hn := ht.entries.2
  rw [tlbp_index hn]
  cases hfind : (List.range t.nrOfTlbEntries).find? (fun i => MipsCpu.probeHits t s.mmu.cop0 (s.mmu.tlbs i)) with
  | none =>
    refine iff_of_true rfl (fun i hi h => ?_)
    exact List.find?_eq_none.mp hfind i (List.mem_range.mpr hi) ((probeHits_iff ht).mpr h)
  | some j =>
    have hj : j < t.nrOfTlbEntries := List.mem_range.mp (List.mem_of_find?_eq_some hfind)
    refine iff_of_false (tlbpIndex_ne_miss (Nat.lt_of_lt_of_le hj hn)) (fun h => ?_)
    have hhit : MipsCpu.probeHits t s.mmu.cop0 (s.mmu.tlbs j) = true := by
      simpa using List.find?_some hfind
    exact h j hj ((probeHits_iff ht).mp hhit)

/-- tlbp and translate_v2p() agree about an address. -/
structure ProbeAgrees (t : CpuType) (m : Mmu) (index : Reg) (vaddr va : Addr) : Prop where
  found : ∀ i < t.nrOfTlbEntries, index = tlbpIndex t i ↔ Selects t m va i
  missed : index = tlbpMiss ↔ Refills t m vaddr

/-- tlbp agrees with translate_v2p() about an address of the page in ENTRYHI, in a segment that is mapped, if and only
if ENTRYHI has the same bits as the entry that matches where tlbp does not look. -/
theorem probeAgrees_iff {vaddr va : Addr} (ht : t.Supported) (hhint : s.mmu.lastWrittenTlbIndex < t.nTlbs)
    (hm : ∀ i < t.nrOfTlbEntries, WritableMask t.variant (s.mmu.tlbs i))
    (hu : AtMostOne t.variant t.nrOfTlbEntries s.mmu.tlbs (currentAsid t.variant s.mmu.cop0.entryhi)
      s.mmu.cop0.entryhi)
    (hmapped : mappedAddr t.variant s.mmu.cop0.status vaddr = some va)
    (hpage : va &&& t.variant.pageBits = s.mmu.cop0.entryhi &&& t.variant.pageBits) :
    ProbeAgrees t s.mmu (s.coprocTlbp t).mmu.cop0.index vaddr va ↔
      ∀ i < t.nrOfTlbEntries,
        Matches t.variant (currentAsid t.variant s.mmu.cop0.entryhi) s.mmu.cop0.entryhi (s.mmu.tlbs i) →
        (s.mmu.tlbs i).hi &&& unseenBits t.variant (s.mmu.tlbs i) =
          s.mmu.cop0.entryhi &&& unseenBits t.variant (s.mmu.tlbs i) := by
  have hn : t.nTlbs = t.nrOfTlbEntries := ht.nTlbs
  have hunseen : ∀ e, va &&& unseenBits t.variant e = s.mmu.cop0.entryhi &&& unseenBits t.variant e :=
    fun e => and_of_pageBits hpage (unseenBits_pageBits t.variant e)
  have hvpn : ∀ e, Matches t.variant (currentAsid t.variant s.mmu.cop0.entryhi) va e ↔
      Matches t.variant (currentAsid t.variant s.mmu.cop0.entryhi) s.mmu.cop0.entryhi e := by
    intro e
    rw [Matches, and_of_pageBits hpage (vpnMask_pageBits t.variant e)]
    exact Iff.rfl
  -- what the scan finds matches, and has the bits that tlbp does not look at
  have hhits : ∀ i < t.nrOfTlbEntries, scanHits t s.mmu va i = true ↔
      Matches t.variant (currentAsid t.variant s.mmu.cop0.entryhi) s.mmu.cop0.entryhi (s.mmu.tlbs i) ∧
        (s.mmu.tlbs i).hi &&& unseenBits t.variant (s.mmu.tlbs i) =
          s.mmu.cop0.entryhi &&& unseenBits t.variant (s.mmu.tlbs i) := by
    intro i hi
    rw [scanHits_iff ht.variant_ne (hm i hi), matches_seen, hvpn, hunseen]
  have hlook : ∀ i, i < t.nTlbs → ∃ k, look t.variant va (s.mmu.tlbs i) = .ok k := by
    intro i hi
    obtain ⟨k, hk, -⟩ := look_spec ht.variant_ne va (seen_legal (hm i (hn ▸ hi))) 0
    rw [look_seen] at hk
    exact ⟨k, hk⟩
  obtain ⟨k, hscan, hlast, hhit⟩ | ⟨vpn2, hscan, hnone⟩ := scanTlb_cases hhint hlook
  · have hlast' : lastIndex t s.mmu va < t.nrOfTlbEntries := hn ▸ hlast
    obtain ⟨hmatch, hsame⟩ := (hhits _ hlast').mp hhit
    refine iff_of_true ⟨?_, ?_⟩ ?_
    · intro i hi
      rw [tlbp_found_iff ht hi hu]
      constructor
      · intro h
        exact ⟨hu _ i hlast' hi hmatch h, k, hscan⟩
      · rintro ⟨h, -⟩
        rw [← h]
        exact hmatch
    · rw [tlbp_missed_iff ht, refills_iff hmapped hscan]
      exact iff_of_false (fun h => h _ hlast' hmatch) Bool.false_ne_true
    · intro i hi h
      obtain rfl := hu i _ hi hlast' h hmatch
      exact hsame
  · constructor
    · intro hagree i hi h
      have hmiss := hagree.missed.mpr ((refills_iff hmapped hscan).mpr rfl)
      exact absurd h ((tlbp_missed_iff ht).mp hmiss i hi)
    · intro h
      have hno : ∀ i < t.nrOfTlbEntries,
          ¬ Matches t.variant (currentAsid t.variant s.mmu.cop0.entryhi) s.mmu.cop0.entryhi (s.mmu.tlbs i) := by
        intro i hi hmatch
        have := (hhits i hi).mpr ⟨hmatch, h i hi hmatch⟩
        rw [hnone i (hn.symm ▸ hi)] at this
        cases this
      refine ⟨?_, ?_⟩
      · intro i hi
        rw [tlbp_found_iff ht hi hu]
        refine iff_of_false (hno i hi) ?_
        rintro ⟨-, k, hk⟩
        rw [hscan] at hk
        cases hk
      · rw [refills_iff hmapped hscan]
        exact iff_of_true ((tlbp_missed_iff ht).mpr hno) rfl

end

/-! ## An R4000 with one pair of large pages -/

def largePages (mask entryhi : Reg) : MipsCpu where
  dyn := Cpu.start .mode64 0 Tc.init
  mem := Memory.init
  mmu := ⟨⟨0, 0, 0, 0, 0, 0, 0, 0, entryhi, 0, 0, 0, 0, 0⟩,
    fun i => if i = 3 then ⟨0x40000000, 0, 0, mask⟩ else ⟨0, 0, 0, 0⟩, 0⟩
  delaySlot := 0
  isHalted := false

theorem r4000_supported : r4000.Supported := by
  refine ⟨?_, ?_, ?_, ?_, ?_, ?_⟩ <;> decide

theorem largePages_writable {mask entryhi : Reg} (h : WritableMask .generic ⟨0x40000000, 0, 0, mask⟩) (i : Nat) :
    WritableMask r4000.variant ((largePages mask entryhi).mmu.tlbs i) := by
  show WritableMask .generic (if i = 3 then ⟨0x40000000, 0, 0, mask⟩ else ⟨0, 0, 0, 0⟩)
  split
  · exact h
  · decide

theorem largePages_matches {mask entryhi : Reg} {i : Nat} (hne : ¬ Matches .generic 0 entryhi ⟨0, 0, 0, 0⟩)
    (h : Matches .generic 0 entryhi ((largePages mask entryhi).mmu.tlbs i)) : i = 3 := by
  by_contra hi
  simp only [largePages, hi, if_false] at h
  exact hne h

/-- Pages of 16 MB. -/
theorem probeAgrees_largePages : ProbeAgrees r4000 (largePages 0x1ffe000 0x41000000).mmu
    ((largePages 0x1ffe000 0x41000000).coprocTlbp r4000).mmu.cop0.index 0x41000678 0x41000678 := by
  refine (probeAgrees_iff r4000_supported (by decide) (fun i _ => largePages_writable (by decide) i) ?_ (by decide)
    (by decide)).mpr ?_
  · intro i j _ _ hi hj
    exact (largePages_matches (by decide) hi).trans (largePages_matches (by decide) hj).symm
  · intro i _ h
    obtain rfl := largePages_matches (by decide) h
    decide

/-- Pages of 64 MB: tlbp finds the entry, and translate_v2p() does not. -/
theorem not_probeAgrees_largePages :
    (∀ i < r4000.nrOfTlbEntries, WritableMask r4000.variant ((largePages 0x7ffe000 0x44000000).mmu.tlbs i)) ∧
    AtMostOne r4000.variant r4000.nrOfTlbEntries (largePages 0x7ffe000 0x44000000).mmu.tlbs 0 0x44000000 ∧
    mappedAddr r4000.variant 0 0x44000678 = some 0x44000678 ∧
    ((largePages 0x7ffe000 0x44000000).coprocTlbp r4000).mmu.cop0.index = 3 ∧
    ¬ ProbeAgrees r4000 (largePages 0x7ffe000 0x44000000).mmu
      ((largePages 0x7ffe000 0x44000000).coprocTlbp r4000).mmu.cop0.index 0x44000678 0x44000678 := by
  have hindex : ((largePages 0x7ffe000 0x44000000).coprocTlbp r4000).mmu.cop0.index = 3 := by
    decide +kernel
  refine ⟨fun i _ => largePages_writable (by decide) i, ?_, by decide, hindex, fun h => ?_⟩
  · intro i j _ _ hi hj
    exact (largePages_matches (by decide) hi).trans (largePages_matches (by decide) hj).symm
  · obtain ⟨-, k, hk⟩ := (h.found 3 (by decide)).mp (by rw [hindex]; rfl)
    have hscan : (scanTlb r4000 (largePages 0x7ffe000 0x44000000).mmu 0x44000678).map Sum.isLeft = .ok false := by
      decide +kernel
    rw [hk] at hscan
    cases hscan

end Gxemul.Mips
