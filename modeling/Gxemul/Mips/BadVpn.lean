import Gxemul.Mips.TlbPages

/- What the TLB exceptions of an R4000 report.

   BADVADDR, CONTEXT, XCONTEXT and ENTRYHI are about the address that failed. The
   page number in CONTEXT and XCONTEXT is the one that the scan of the TLB has
   computed for the entry that it looked at last, with the page size of that entry. -/
namespace Gxemul.Mips

structure CpuType.R4000Class (t : CpuType) : Prop where
  exc4k : t.exc3k = false
  not3k : t.mmuModel ≠ .mmu3k
  not4100 : t.r4100 = false

def ExceptionArgs.IsTlb (e : ExceptionArgs) : Prop := e.exccode = .tlbl ∨ e.exccode = .tlbs ∨ e.exccode = .mod

def CpuType.badvaddr (t : CpuType) (vaddr : Addr) : Addr := if t.is32bit then sext32 vaddr else vaddr

structure Cop0.Reports (t : CpuType) (before after : Cop0) (vaddr : Addr) : Prop where
  badvaddr : after.badvaddr = t.badvaddr vaddr
  context : after.context &&& contextBadvpn2Mask =
    ((t.badvaddr vaddr >>> 13) <<< contextBadvpn2Shift) &&& contextBadvpn2Mask
  xcontext : after.xcontext &&& xcontextBadvpn2Mask =
    ((t.badvaddr vaddr >>> 13) <<< xcontextBadvpn2Shift) &&& xcontextBadvpn2Mask
  vpn2 : after.entryhi &&& t.variant.vpn2Mask = t.badvaddr vaddr &&& t.variant.vpn2Mask
  asid : after.entryhi &&& entryhiAsid = before.entryhi &&& entryhiAsid

/-! ## The entry that is looked at last -/

def lastEntry (t : CpuType) (m : Mmu) (vaddr : Addr) : MipsTlb := m.tlbs (lastIndex t m vaddr)

def MipsTlb.pageshift (v : Variant) (e : MipsTlb) : Except Exit Nat :=
  Mips.pageshift v ((e.mask &&& v.pagemaskMask).setWidth 32)

section
variable {t : CpuType} {m : Mmu} {vaddr va : Addr} {write : Bool} {e : ExceptionArgs}

theorem variant_of_r4000Class (ht : t.R4000Class) : t.variant ≠ .mmu3k ∧ t.variant ≠ .mmu4100 := by
  obtain ⟨-, h3k, h4100⟩ := ht
  unfold CpuType.variant
  rw [h4100]
  cases h : t.mmuModel <;> simp_all

theorem look_of_r4000 {v : Variant} {k : Look} {x : MipsTlb} (hv : v ≠ .mmu3k) (hk : look v va x = .ok k) :
    ∃ s, x.pageshift v = .ok s ∧ k.vaddrVpn2 = (va &&& v.vpn2Mask) >>> (s + 1) := by
  have hlook : look v va x = look4k v va x := by
    cases v <;> first | rfl | exact absurd rfl hv
  rw [hlook] at hk
  obtain ⟨s, hs, hk⟩ := Lib.bind_eq_ok hk
  cases hk
  exact ⟨s, hs, rfl⟩

theorem failure_eq {v : Variant} {exccode : Exccode} {tlb : Bool} {vpn2 asid : Reg} {x64 : Bool} (hv : v ≠ .mmu3k) :
    failure v false exccode tlb va vpn2 asid x64 = .failed (some ⟨exccode, tlb, va, vpn2, asid, x64⟩) := by
  cases v <;> first | rfl | exact absurd rfl hv

/-- A TLB exception is for a mapped address. Its page number is computed with the page size of the entry that was looked
at last. -/
theorem tlb_exception (ht : t.R4000Class) (he : e.IsTlb)
    (hv : translateV2p t m vaddr write false = .ok (.failed (some e))) :
    ∃ va s, mappedAddr t.variant m.cop0.status vaddr = some va ∧ (lastEntry t m va).pageshift t.variant = .ok s ∧
      e.vaddr = va ∧ e.vaddrVpn2 = (va &&& t.variant.vpn2Mask) >>> (s + 1) ∧ e.vaddrAsid = m.cop0.entryhi &&& entryhiAsid := by
  have h3k := (variant_of_r4000Class ht).1
  have hasid : currentAsid t.variant m.cop0.entryhi = m.cop0.entryhi &&& entryhiAsid := by
    cases hvar : t.variant <;> first | rfl | exact absurd hvar h3k
  cases hmode : ksuAndX64 t.variant m.cop0.status with
  | error x =>
    rw [translateV2p_of_error hmode] at hv
    cases hv
  | ok mode =>
    obtain ⟨ksu, x64⟩ := mode
    rw [translateV2p_of_segment hmode] at hv
    cases hseg : segment t.variant m.cop0.status ksu x64 vaddr with
    | unmapped paddr =>
      rw [hseg] at hv
      cases hv
    | addressError va =>
      -- An address error is no TLB exception.
      rw [hseg] at hv
      dsimp only at hv
      rw [failure_eq h3k] at hv
      cases hv
      obtain h | h | h := he <;> cases write <;> cases h
    | mapped va =>
      rw [hseg] at hv
      obtain ⟨r, hr, hv⟩ := Lib.bind_eq_ok hv
      obtain ⟨k, hk, hlast⟩ := scanTlb_last hr
      obtain ⟨s, hs, hvpn2⟩ := look_of_r4000 h3k hk
      refine ⟨va, s, (mappedAddr_of_segment hmode).mpr hseg, hs, ?_⟩
      obtain ⟨-, rfl⟩ | ⟨-, rfl⟩ := hlast
      · have hv : k.result t.variant false va (currentAsid t.variant m.cop0.entryhi) x64 write =
            .failed (some e) := Except.ok.inj hv
        unfold Look.result at hv
        rw [failure_eq h3k, failure_eq h3k] at hv
        split at hv
        · split at hv
          · cases hv
          · cases hv
            exact ⟨rfl, hvpn2, hasid⟩
        · cases hv
          exact ⟨rfl, hvpn2, hasid⟩
      · dsimp only at hv
        rw [failure_eq h3k] at hv
        cases hv
        exact ⟨rfl, hvpn2, hasid⟩

end

/-! ## The fields -/

def badvpn2Bits : Reg := 0x7ffffff#64

theorem xcontext_iff (x y : Reg) : (x <<< xcontextBadvpn2Shift) &&& xcontextBadvpn2Mask =
    (y <<< xcontextBadvpn2Shift) &&& xcontextBadvpn2Mask ↔ x &&& badvpn2Bits = y &&& badvpn2Bits := by
  have hmask : xcontextBadvpn2Mask = badvpn2Bits <<< xcontextBadvpn2Shift := by decide
  have hlow : ∀ z : Reg, ((z &&& badvpn2Bits) <<< 4).toNat = (z &&& badvpn2Bits).toNat * 16 := by
    intro z
    have hlt : (z &&& badvpn2Bits).toNat ≤ 0x7ffffff := by
      rw [BitVec.toNat_and]
      exact Nat.and_le_right
    rw [BitVec.toNat_shiftLeft, Nat.shiftLeft_eq]
    omega
  rw [hmask, ← BitVec.shiftLeft_and_distrib, ← BitVec.shiftLeft_and_distrib]
  constructor
  · intro h
    apply BitVec.eq_of_toNat_eq
    have hnat := congrArg BitVec.toNat h
    have hx := hlow x
    have hy := hlow y
    unfold xcontextBadvpn2Shift at hnat
    omega
  · intro h
    rw [h]

theorem context_of_xcontext {x y : Reg} (h : x &&& badvpn2Bits = y &&& badvpn2Bits) :
    (x <<< contextBadvpn2Shift) &&& contextBadvpn2Mask = (y <<< contextBadvpn2Shift) &&& contextBadvpn2Mask := by
  have hmask : contextBadvpn2Mask = xcontextBadvpn2Mask &&& contextBadvpn2Mask := by decide
  rw [hmask, ← BitVec.and_assoc, ← BitVec.and_assoc]
  exact congrArg (· &&& contextBadvpn2Mask) ((xcontext_iff x y).mpr h)

theorem badvpn2_of_vpn2 {v : Variant} {a b : Addr} (hv : v ≠ .mmu3k) (h : a &&& v.vpn2Mask = b &&& v.vpn2Mask) :
    (a >>> 13) &&& badvpn2Bits = (b >>> 13) &&& badvpn2Bits := by
  have hmask : badvpn2Bits = (v.vpn2Mask >>> 13) &&& badvpn2Bits := by
    cases v <;> decide
  rw [hmask, ← BitVec.and_assoc, ← BitVec.and_assoc, ← BitVec.ushiftRight_and_distrib, ← BitVec.ushiftRight_and_distrib, h]

/-! ## The exception -/

section
variable {t : CpuType} {c : Cop0} {e : ExceptionArgs} {coprocNr delaySlot : Nat} {pc : Addr}

theorem enterException_noteReturn : ((c.noteReturn t pc delaySlot).enterException t).badvaddr = c.badvaddr ∧
    ((c.noteReturn t pc delaySlot).enterException t).context = c.context ∧
    ((c.noteReturn t pc delaySlot).enterException t).xcontext = c.xcontext ∧
    ((c.noteReturn t pc delaySlot).enterException t).entryhi = c.entryhi := by
  unfold Cop0.noteReturn Cop0.enterException
  split
  · exact ⟨rfl, rfl, rfl, rfl⟩
  · split <;> exact ⟨rfl, rfl, rfl, rfl⟩

theorem set_field (x y m : Reg) : ((x &&& ~~~ m) ||| (y &&& m)) &&& m = y &&& m := by
  rw [BitVec.and_or_distrib_right, BitVec.and_assoc, BitVec.and_assoc, BitVec.and_self, BitVec.and_comm (~~~ m),
    BitVec.and_not_self]
  exact (congrArg (· ||| (y &&& m)) BitVec.and_zero).trans BitVec.zero_or

theorem noteAddress_eq (ht : t.R4000Class) (he : e.IsTlb) :
    (c.noteAddress t e).badvaddr = t.badvaddr e.vaddr ∧
    (c.noteAddress t e).context &&& contextBadvpn2Mask =
      (e.vaddrVpn2 <<< contextBadvpn2Shift) &&& contextBadvpn2Mask ∧
    (c.noteAddress t e).xcontext &&& xcontextBadvpn2Mask =
      (e.vaddrVpn2 <<< xcontextBadvpn2Shift) &&& xcontextBadvpn2Mask ∧
    (c.noteAddress t e).entryhi = (e.vaddr &&& t.variant.vpn2Mask) ||| e.vaddrAsid := by
  have hnotes : e.notesAddress = true := by
    unfold ExceptionArgs.notesAddress
    obtain h | h | h := he <;> rw [h] <;> simp [Exccode.toNat]
  have hentryhi : Cop0.exceptionEntryhi t e = (e.vaddr &&& t.variant.vpn2Mask) ||| e.vaddrAsid := by
    unfold Cop0.exceptionEntryhi CpuType.variant
    rw [ht.exc4k, ht.not4100]
    cases h : t.mmuModel <;> first | rfl | exact absurd h h3k
  unfold Cop0.noteAddress
  rw [hnotes, ht.exc4k, ht.not4100]
  refine ⟨rfl, ?_, ?_, hentryhi⟩
  · exact set_field c.context (e.vaddrVpn2 <<< contextBadvpn2Shift) contextBadvpn2Mask
  · -- The R bits are above the page number.
    have hr : (((e.vaddr >>> 62) &&& 0x3#64) <<< xcontextRShift) &&& xcontextBadvpn2Mask = 0 := by
      rw [BitVec.shiftLeft_and_distrib, BitVec.and_assoc]
      have hmask : (0x3#64 <<< xcontextRShift) &&& xcontextBadvpn2Mask = 0 := by decide
      rw [hmask]
      exact BitVec.and_zero
    show ((c.xcontext &&& ~~~ xcontextRMask &&& ~~~ xcontextBadvpn2Mask) |||
      ((e.vaddrVpn2 <<< xcontextBadvpn2Shift) &&& xcontextBadvpn2Mask) |||
      (((e.vaddr >>> 62) &&& 0x3#64) <<< xcontextRShift)) &&& xcontextBadvpn2Mask = _
    rw [BitVec.and_or_distrib_right, hr, set_field]
    exact BitVec.or_zero

end

/-! ## The registers after a TLB exception -/

/-- The address that is looked up is the one that the access is for: a CPU in a mode with 32-bit addresses only looks at
the lower half. -/
def AddressKept (t : CpuType) (vaddr va : Addr) : Prop :=
  va &&& t.variant.vpn2Mask = t.badvaddr vaddr &&& t.variant.vpn2Mask ∧ (t.is32bit = false → va = vaddr)

/-- The entry that is looked at last has pages of 4 KB, or a page number that is the same when it is shifted down to its
page size. -/
def PageNumberKept (t : CpuType) (m : Mmu) (va : Addr) : Prop :=
  ∃ s, (lastEntry t m va).pageshift t.variant = .ok s ∧
    ((va &&& t.variant.vpn2Mask) >>> (s + 1)) &&& badvpn2Bits = (va >>> 13) &&& badvpn2Bits

section
variable {t : CpuType} {m : Mmu} {vaddr va : Addr} {write : Bool} {e : ExceptionArgs}

theorem pageNumberKept_of_4k (ht : t.R4000Class) (h : (lastEntry t m va).pageshift t.variant = .ok 12) :
    PageNumberKept t m va := by
  refine ⟨12, h, badvpn2_of_vpn2 (variant_of_r4000Class ht).1 ?_⟩
  rw [BitVec.and_assoc, BitVec.and_self]

theorem badvaddr_iff {v : Variant} {status : Reg} (h : mappedAddr v status vaddr = some va) :
    t.badvaddr va = t.badvaddr vaddr ↔ (t.is32bit = false → va = vaddr) := by
  unfold CpuType.badvaddr
  cases hbit : t.is32bit with
  | false => simp
  | true =>
    refine iff_of_true ?_ fun hno => nomatch hno
    rw [if_pos rfl, if_pos rfl]
    obtain rfl | rfl := mappedAddr_eq h
    · rfl
    · exact sext32_sext32 vaddr

theorem entryhi_fields {v : Variant} {x c : Reg} (hv : v ≠ .mmu3k) :
    ((x &&& v.vpn2Mask) ||| (c &&& entryhiAsid)) &&& v.vpn2Mask = x &&& v.vpn2Mask ∧
    ((x &&& v.vpn2Mask) ||| (c &&& entryhiAsid)) &&& entryhiAsid = c &&& entryhiAsid := by
  have hdisjoint : v.vpn2Mask &&& entryhiAsid = 0 := by
    cases v <;> decide
  constructor
  · rw [BitVec.and_or_distrib_right, BitVec.and_assoc, BitVec.and_self, BitVec.and_assoc,
      BitVec.and_comm entryhiAsid, hdisjoint]
    exact (congrArg ((x &&& v.vpn2Mask) ||| ·) BitVec.and_zero).trans BitVec.or_zero
  · rw [BitVec.and_or_distrib_right, BitVec.and_assoc, hdisjoint, BitVec.and_assoc, BitVec.and_self]
    exact (congrArg (· ||| (c &&& entryhiAsid)) BitVec.and_zero).trans BitVec.zero_or

/-- A TLB exception reports its address if the page number fits the entry that was looked at last, and only then. -/
theorem reports_iff {s s' : MipsCpu} {cacheSize : Nat} {host : Addr → Option Nat} (ht : t.R4000Class) (he : e.IsTlb)
    (hv : translateV2p t s.mmu vaddr write false = .ok (.failed (some e)))
    (hs : s.mipsCpuException t cacheSize host e 0 = .ok s') :
    s.mmu.cop0.Reports t s'.mmu.cop0 vaddr ↔
      ∃ va, mappedAddr t.variant s.mmu.cop0.status vaddr = some va ∧ AddressKept t vaddr va ∧
        PageNumberKept t s.mmu va := by
  obtain ⟨va, sh, hmapped, hshift, hvaddr, hvpn2, hasid⟩ := tlb_exception ht he hv
  have h3k := (variant_of_r4000Class ht).1
  have hcop0 : s'.mmu.cop0 = (s.notedCop0 t e 0).enterException t := by
    obtain ⟨dyn, -, hs⟩ := Lib.bind_eq_ok hs
    cases hs
    rfl
  obtain ⟨hb, hc, hx, hh⟩ := @enterException_noteReturn t ((s.mmu.cop0.noteCause t e 0).noteAddress t e) s.delaySlot
    s.exceptionPc
  obtain ⟨hb', hc', hx', hh'⟩ := @noteAddress_eq t (s.mmu.cop0.noteCause t e 0) e ht he
  rw [hvaddr] at hb' hh'
  rw [hvpn2] at hc' hx'
  rw [hasid] at hh'
  obtain ⟨hfield, hasid'⟩ := @entryhi_fields t.variant va s.mmu.cop0.entryhi h3k
  rw [hcop0]
  constructor
  · rintro ⟨hbadvaddr, -, hxcontext, hentryhi, -⟩
    have hkept : va &&& t.variant.vpn2Mask = t.badvaddr vaddr &&& t.variant.vpn2Mask := by
      rw [← hentryhi, ← hfield, ← hh']
      exact congrArg (· &&& t.variant.vpn2Mask) hh.symm
    have haddr : t.badvaddr va = t.badvaddr vaddr := (hb.trans hb').symm.trans hbadvaddr
    refine ⟨va, hmapped, ⟨hkept, (badvaddr_iff hmapped).mp haddr⟩, sh, hshift, ?_⟩
    have hnumber := hx'.symm.trans ((congrArg (· &&& xcontextBadvpn2Mask) hx).symm.trans hxcontext)
    rw [badvpn2_of_vpn2 h3k hkept]
    exact (xcontext_iff _ _).mp hnumber
  · rintro ⟨va', hmapped', ⟨hkept, haddr⟩, sh', hshift', hnumber⟩
    cases hmapped.symm.trans hmapped'
    cases hshift.symm.trans hshift'
    rw [badvpn2_of_vpn2 h3k hkept] at hnumber
    refine ⟨(hb.trans hb').trans ((badvaddr_iff hmapped).mpr haddr), ?_, ?_, ?_, ?_⟩
    · exact ((congrArg (· &&& contextBadvpn2Mask) hc).trans hc').trans (context_of_xcontext hnumber)
    · exact ((congrArg (· &&& xcontextBadvpn2Mask) hx).trans hx').trans ((xcontext_iff _ _).mpr hnumber)
    · exact (congrArg (· &&& t.variant.vpn2Mask) (hh.trans hh')).trans (hfield.trans hkept)
    · exact (congrArg (· &&& entryhiAsid) (hh.trans hh')).trans hasid'

end

/-! ## An R4000 with no pages -/

/-- No entry is for anything but the lowest addresses. All entries have the same page mask. -/
def noPages (mask : Reg) : MipsCpu where
  dyn := Cpu.start .mode64 0 Tc.init
  mem := Memory.init
  mmu := ⟨⟨0, 0, 0, 0, 0, 0, 0, 0, 0, 0, 0, 0, 0, 0⟩, fun _ => ⟨0, 0, 0, mask⟩, 0⟩
  delaySlot := 0
  isHalted := false

def refill (vpn2 : Reg) : ExceptionArgs := ⟨.tlbl, true, 0x40002000, vpn2, 0, false⟩

theorem r4000_class : r4000.R4000Class := ⟨rfl, by decide, rfl⟩

/-- Pages of 4 KB. -/
theorem reports_noPages : ∃ s', (noPages 0).mipsCpuException r4000 65536 (fun _ => none) (refill 0x20001) 0 = .ok s' ∧
    (noPages 0).mmu.cop0.Reports r4000 s'.mmu.cop0 0x40002000 := by
  obtain ⟨s', hs, -⟩ := Lib.eval_eq_ok ((noPages 0).mipsCpuException r4000 65536 (fun _ => none) (refill 0x20001) 0)
    (fun _ => ()) () (by decide +kernel)
  refine ⟨s', hs, (reports_iff r4000_class (Or.inl rfl)
    (by decide +kernel : translateV2p r4000 (noPages 0).mmu 0x40002000 false false = .ok (.failed (some (refill 0x20001))))
    hs).mpr ⟨0x40002000, by decide, ⟨by decide, by decide⟩, ?_⟩⟩
  exact pageNumberKept_of_4k r4000_class (by decide +kernel)

/-- Pages of 16 KB: the page number is shifted too far. -/
theorem not_reports_noPages :
    translateV2p r4000 (noPages 0x6000).mmu 0x40002000 false false = .ok (.failed (some (refill 0x8000))) ∧
    ∃ s', (noPages 0x6000).mipsCpuException r4000 65536 (fun _ => none) (refill 0x8000) 0 = .ok s' ∧
      s'.mmu.cop0.context &&& contextBadvpn2Mask = 0x80000 ∧
      ¬ (noPages 0x6000).mmu.cop0.Reports r4000 s'.mmu.cop0 0x40002000 := by
  obtain ⟨s', hs, hcontext⟩ := Lib.eval_eq_ok
    ((noPages 0x6000).mipsCpuException r4000 65536 (fun _ => none) (refill 0x8000) 0)
    (fun s => s.mmu.cop0.context &&& contextBadvpn2Mask) 0x80000 (by decide +kernel)
  refine ⟨by decide +kernel, s', hs, hcontext, fun h => ?_⟩
  have hfield := hcontext.symm.trans h.context
  revert hfield
  decide

end Gxemul.Mips
