import Gxemul.Lib.Queue
import Gxemul.Mips.Cop0

/- translate_v2p() for MIPS (`src/cpus/memory_mips_v2p.c`).

   The source is compiled once for each kind of MMU. Here the kind is an argument.
   The function first sorts out the segment of an address. If the address is
   mapped it goes around the TLB, from the entry that was written last. -/
namespace Gxemul.Mips

/-- The versions of translate_v2p(). -/
inductive Variant where
  | mmu3k | mmu8k | mmu10k | mmu4100 | generic
  deriving DecidableEq

/-- The version that mips_cpu_new() chooses. -/
def CpuType.variant (t : CpuType) : Variant :=
  match t.mmuModel with
  | .mmu3k => .mmu3k
  | .mmu8k => .mmu8k
  | .mmu10k => .mmu10k
  | .mmu4k | .mmu32 | .mmu64 => if t.r4100 then .mmu4100 else .generic

structure Mmu where
  cop0 : Cop0
  tlbs : Nat → MipsTlb
  lastWrittenTlbIndex : Nat

/-- The arguments of mips_cpu_exception() for a failed translation. `tlb` is set
when there was no TLB entry for the address. -/
structure ExceptionArgs where
  exccode : Exccode
  tlb : Bool
  vaddr : Addr
  vaddrVpn2 : Reg
  vaddrAsid : Reg
  x64 : Bool
  deriving DecidableEq

/-- The return value: 2 or 1 with the physical address, or 0. A failure causes an
exception, except with FLAG_NOEXCEPTIONS. -/
inductive V2pResult where
  | ok (paddr : Addr) (writable : Bool)
  | failed (exception : Option ExceptionArgs)
  deriving DecidableEq

namespace Variant

def vpn2Mask : Variant → Reg
  | .mmu10k => entryhiRMask ||| entryhiVpn2MaskR10k
  | .mmu4100 => entryhiRMask ||| entryhiVpn2Mask ||| 0x1800#64
  | .mmu3k | .mmu8k | .generic => entryhiRMask ||| entryhiVpn2Mask

/-- `xuseg_top` for 64-bit addresses. -/
def xusegTop : Variant → Addr
  | .mmu10k => entryhiVpn2MaskR10k ||| 0x1fff#64
  | .mmu3k | .mmu8k | .mmu4100 | .generic => entryhiVpn2Mask ||| 0x1fff#64

def pagemaskMask : Variant → Reg
  | .mmu4100 => 0x0007f800#64
  | .mmu3k | .mmu8k | .mmu10k | .generic => 0x01ffe000#64

def pagemaskShift : Variant → Nat
  | .mmu4100 => 11
  | .mmu3k | .mmu8k | .mmu10k | .generic => 13

def pfnShift : Variant → Nat
  | .mmu4100 => 10
  | .mmu3k | .mmu8k | .mmu10k | .generic => 12

end Variant

def CpuType.nTlbs (t : CpuType) : Nat :=
  match t.variant with
  | .mmu3k => 64
  | .mmu8k | .mmu10k | .mmu4100 | .generic => t.nrOfTlbEntries

/-- The ASID that the CPU runs with (`vaddr_asid`). -/
def currentAsid (v : Variant) (entryhi : Reg) : Reg :=
  match v with
  | .mmu3k => entryhi &&& r2k3kEntryhiAsidMask
  | .mmu8k | .mmu10k | .mmu4100 | .generic => entryhi &&& entryhiAsid

/-! ## Segments -/

inductive Ksu where
  | kernel | user
  deriving DecidableEq

/-- `ksu` and `x_64`. "Supervisor address spaces are not really implemented yet." -/
def ksuAndX64 (v : Variant) (status : Reg) : Except Exit (Ksu × Bool) :=
  match v with
  | .mmu3k => .ok (if anyBit status mips1SrKuCur then .user else .kernel, false)
  | .mmu8k | .mmu10k | .mmu4100 | .generic =>
    if anyBit status (statusExl ||| statusErl) then .ok (.kernel, anyBit status statusKx)
    else
      match ((status &&& statusKsuMask) >>> statusKsuShift).toNat with
      | 0 => .ok (.kernel, anyBit status statusKx)
      | 2 => .ok (.user, anyBit status statusUx)
      | _ => .error .ksuNotImplemented

/-- What becomes of an address before the TLB is looked at. With 32-bit
addressing the address is sign-extended. -/
inductive Segment where
  | unmapped (paddr : Addr)
  | mapped (vaddr : Addr)
  | addressError (vaddr : Addr)

def segment (v : Variant) (status : Reg) (ksu : Ksu) (x64 : Bool) (vaddr : Addr) : Segment :=
  if v ≠ .mmu3k ∧ ksu = .kernel ∧ anyBit status statusErl = true ∧ vaddr ≤ 0x7fffffff#64 then
    .unmapped (vaddr &&& 0x7fffffff#64)
  else if v ≠ .mmu3k ∧ ksu = .kernel ∧ vaddr &&& entryhiRMask = entryhiRXkphys then
    .unmapped (vaddr &&& 0xfffffffffff#64)
  else
    let vaddr := if x64 then vaddr else sext32 vaddr
    let xusegTop := if x64 then v.xusegTop else 0x7fffffff#64
    if vaddr ≤ xusegTop then .mapped vaddr
    else
      match ksu with
      | .kernel =>
        if 0xffffffff80000000#64 ≤ vaddr ∧ vaddr ≤ 0xffffffffbfffffff#64 then .unmapped (vaddr &&& 0x1fffffff#64)
        else .mapped vaddr
      | .user => .addressError vaddr

def mappedAddr (v : Variant) (status : Reg) (vaddr : Addr) : Option Addr :=
  match ksuAndX64 v status with
  | .ok (ksu, x64) =>
    match segment v status ksu x64 vaddr with
    | .mapped vaddr => some vaddr
    | .unmapped _ | .addressError _ => none
  | .error _ => none

/-! ## One TLB entry -/

/-- What translate_v2p() works out about an entry. -/
structure Look where
  vaddrVpn2 : Reg
  entryVpn2 : Reg
  entryAsid : Reg
  pmask : BitVec 32
  lo : Reg
  gBit : Bool
  vBit : Bool
  dBit : Bool

/-- `pageshift`, from the page mask of an entry. -/
def pageshift (v : Variant) (pmask : BitVec 32) : Except Exit Nat :=
  if pmask = 0 then .ok (v.pagemaskShift - 1)
  else
    match (pmask ||| BitVec.ofNat 32 (2 ^ v.pagemaskShift - 1)).toNat with
    | 0x00007ff => .ok 10
    | 0x0001fff => .ok 12
    | 0x0007fff => .ok 14
    | 0x001ffff => .ok 16
    | 0x007ffff => .ok 18
    | 0x01fffff => .ok 20
    | 0x07fffff => .ok 22
    | 0x1ffffff => .ok 24
    | 0x7ffffff => .ok 26
    | _ => .error .invalidPmask

/-- "R3000 or similar". -/
def look3k (vaddr : Addr) (e : MipsTlb) : Look where
  vaddrVpn2 := vaddr &&& r2k3kEntryhiVpnMask
  entryVpn2 := e.hi &&& r2k3kEntryhiVpnMask
  entryAsid := e.hi &&& r2k3kEntryhiAsidMask
  pmask := 0xfff#32
  lo := e.lo0
  gBit := anyBit e.lo0 r2k3kEntryloG
  vBit := anyBit e.lo0 r2k3kEntryloV
  dBit := anyBit e.lo0 r2k3kEntryloD

/-- "R4000 or similar". The R8000 takes even pages to be valid and dirty. -/
def look4k (v : Variant) (vaddr : Addr) (e : MipsTlb) : Except Exit Look := do
  let pageshift ← pageshift v ((e.mask &&& v.pagemaskMask).setWidth 32)
  let odd := (vaddr >>> pageshift) &&& 1#64 != 0
  let lo := if odd then e.lo1 else e.lo0
  return {
    vaddrVpn2 := (vaddr &&& v.vpn2Mask) >>> (pageshift + 1)
    entryVpn2 := (e.hi &&& v.vpn2Mask) >>> (pageshift + 1)
    entryAsid := e.hi &&& entryhiAsid
    pmask := BitVec.ofNat 32 (2 ^ pageshift - 1)
    lo := lo
    gBit := match v with
      | .mmu4100 => anyBit (e.lo1 &&& e.lo0) entryloG
      | .mmu3k | .mmu8k | .mmu10k | .generic => anyBit e.hi tlbG
    vBit := (v == .mmu8k && !odd) || anyBit lo entryloV
    dBit := (v == .mmu8k && !odd) || anyBit lo entryloD }

def look (v : Variant) (vaddr : Addr) (e : MipsTlb) : Except Exit Look :=
  match v with
  | .mmu3k => .ok (look3k vaddr e)
  | .mmu8k | .mmu10k | .mmu4100 | .generic => look4k v vaddr e

/-- "Is there a VPN and ASID match?" -/
def Look.hit (k : Look) (asid : Reg) : Bool := k.entryVpn2 == k.vaddrVpn2 && (k.entryAsid == asid || k.gBit)

def pfnAddr (v : Variant) (lo : Reg) : Addr :=
  match v with
  | .mmu3k => lo &&& r2k3kEntryloPfnMask
  | .mmu8k | .mmu10k | .mmu4100 | .generic => ((lo &&& entryloPfnMask) >>> entryloPfnShift) <<< v.pfnShift

/-- The physical address. `~pmask` is an `uint32_t`. -/
def Look.paddr (k : Look) (v : Variant) (vaddr : Addr) : Addr :=
  match v with
  | .mmu3k => pfnAddr v k.lo ||| (vaddr &&& k.pmask.setWidth 64)
  | .mmu8k | .mmu10k | .mmu4100 | .generic =>
    (pfnAddr v k.lo &&& (~~~ k.pmask).setWidth 64) ||| (vaddr &&& k.pmask.setWidth 64)

/-! ## translate_v2p() -/

/-- The scan of the TLB: the entry for the address, or `vaddr_vpn2` as the last
entry leaves it. -/
def scanTlb (t : CpuType) (m : Mmu) (vaddr : Addr) : Except Exit (Look ⊕ Reg) :=
  Lib.scanRing t.nTlbs (Lib.ringPrev t.nTlbs m.lastWrittenTlbIndex)
    (fun i => do
      let k ← look t.variant vaddr (m.tlbs i)
      return if k.hit (currentAsid t.variant m.cop0.entryhi) then .inl k else .inr k.vaddrVpn2)
    t.nTlbs m.lastWrittenTlbIndex

/-- The exception that a failure causes. The R3000 numbers of page and address
space are shifted down. -/
def failure (v : Variant) (noExceptions : Bool) (exccode : Exccode) (tlb : Bool) (vaddr : Addr) (vpn2 asid : Reg)
    (x64 : Bool) : V2pResult :=
  if noExceptions then .failed none
  else
    match v with
    | .mmu3k => .failed (some ⟨exccode, tlb, vaddr, vpn2 >>> 12, asid >>> r2k3kEntryhiAsidShift, x64⟩)
    | .mmu8k | .mmu10k | .mmu4100 | .generic => .failed (some ⟨exccode, tlb, vaddr, vpn2, asid, x64⟩)

def Look.result (k : Look) (v : Variant) (noExceptions : Bool) (vaddr : Addr) (asid : Reg) (x64 write : Bool) :
    V2pResult :=
  if k.vBit then
    if k.dBit || !write then .ok (k.paddr v vaddr) k.dBit
    else failure v noExceptions .mod false vaddr k.vaddrVpn2 asid x64
  else failure v noExceptions (if write then .tlbs else .tlbl) false vaddr k.vaddrVpn2 asid x64

/-- translate_v2p() from the scan of the TLB on. -/
def translateMapped (t : CpuType) (m : Mmu) (vaddr : Addr) (x64 write noExceptions : Bool) : Except Exit V2pResult := do
  let v := t.variant
  let asid := currentAsid v m.cop0.entryhi
  match ← scanTlb t m vaddr with
  | .inl k => return k.result v noExceptions vaddr asid x64 write
  | .inr vpn2 => return failure v noExceptions (if write then .tlbs else .tlbl) true vaddr vpn2 asid x64

def translateV2p (t : CpuType) (m : Mmu) (vaddr : Addr) (write noExceptions : Bool) : Except Exit V2pResult := do
  let v := t.variant
  let (ksu, x64) ← ksuAndX64 v m.cop0.status
  match segment v m.cop0.status ksu x64 vaddr with
  | .unmapped paddr => return .ok paddr true
  | .addressError vaddr =>
    let vpn2 := if v = .mmu3k then vaddr &&& r2k3kEntryhiVpnMask else 0
    return failure v noExceptions (if write then .ades else .adel) false vaddr vpn2 (currentAsid v m.cop0.entryhi) x64
  | .mapped vaddr => translateMapped t m vaddr x64 write noExceptions

section
variable {t : CpuType} {m : Mmu} {vaddr va : Addr} {write noExceptions : Bool} {ksu : Ksu} {x64 : Bool}

theorem mappedAddr_of_segment (h : ksuAndX64 t.variant m.cop0.status = .ok (ksu, x64)) :
    mappedAddr t.variant m.cop0.status vaddr = some va ↔
      segment t.variant m.cop0.status ksu x64 vaddr = .mapped va := by
  unfold mappedAddr
  rw [h]
  dsimp only
  split <;> simp_all

theorem translateV2p_of_error {e : Exit} (h : ksuAndX64 t.variant m.cop0.status = .error e) :
    translateV2p t m vaddr write noExceptions = .error e := by
  unfold translateV2p
  dsimp only
  rw [h]
  rfl

theorem translateV2p_of_segment (h : ksuAndX64 t.variant m.cop0.status = .ok (ksu, x64)) :
    translateV2p t m vaddr write noExceptions =
      match segment t.variant m.cop0.status ksu x64 vaddr with
      | .unmapped paddr => .ok (.ok paddr true)
      | .addressError va =>
        .ok (failure t.variant noExceptions (if write then .ades else .adel) false va
          (if t.variant = .mmu3k then va &&& r2k3kEntryhiVpnMask else 0) (currentAsid t.variant m.cop0.entryhi) x64)
      | .mapped va => translateMapped t m va x64 write noExceptions := by
  unfold translateV2p
  dsimp only
  rw [h]
  rfl

theorem translateV2p_of_mapped (h : mappedAddr t.variant m.cop0.status vaddr = some va) :
    ∃ x64, translateV2p t m vaddr write noExceptions = translateMapped t m va x64 write noExceptions := by
  cases hmode : ksuAndX64 t.variant m.cop0.status with
  | error e =>
    unfold mappedAddr at h
    rw [hmode] at h
    cases h
  | ok mode =>
    have hseg := (mappedAddr_of_segment hmode).mp h
    refine ⟨mode.2, ?_⟩
    rw [translateV2p_of_segment hmode, hseg]

end

end Gxemul.Mips
