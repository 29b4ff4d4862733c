import Gxemul.Arm.LoadStore

/- What the MMU of an ARM CPU permits.

   `Permits` says that arm_translate_v2p_mmu(), or the identity mapping when the MMU is
   off, lets an address be accessed in a page. When the descriptor is not one of a part
   of a page, what it permits for one address it permits for the whole page, and what it
   permits to user mode it permits to every other mode. -/
namespace Gxemul.Arm

/-! ## Access permissions -/

theorem armCheckAccess_le {control : Word} {ap dav acc : Nat} {user : Bool}
    (h : armCheckAccess control ap dav user = .ok acc) : acc ≤ 2 := by
  unfold armCheckAccess at h
  dsimp only at h
  split at h
  · cases h; omega
  · cases h
  · cases h; omega
  · split at h
    · generalize (if control &&& armControlS ≠ 0 then 1 else 0) + (if control &&& armControlR ≠ 0 then 2 else 0) = sr at h
      split at h
      · cases h; omega
      · cases h
        split <;> omega
      · cases h; omega
      · cases h; omega
    · cases h
      split <;> omega
    · cases h
      split <;> omega
    · cases h; omega

theorem armCheckAccess_user {control : Word} {ap dav acc : Nat} (h : armCheckAccess control ap dav true = .ok acc) :
    ∃ acc', armCheckAccess control ap dav false = .ok acc' ∧ acc ≤ acc' := by
  unfold armCheckAccess at h ⊢
  dsimp only at h ⊢
  split at h
  · exact ⟨_, rfl, (Except.ok.inj h).symm.le⟩
  · cases h
  · exact ⟨_, rfl, (Except.ok.inj h).symm.le⟩
  · split at h
    · generalize (if control &&& armControlS ≠ 0 then 1 else 0) + (if control &&& armControlR ≠ 0 then 2 else 0) = sr at h ⊢
      split at h
      · exact ⟨_, rfl, (Except.ok.inj h).symm.le⟩
      · refine ⟨_, rfl, ?_⟩
        rw [← Except.ok.inj h]
        exact Nat.zero_le _
      · exact ⟨_, rfl, (Except.ok.inj h).symm.le⟩
      · refine ⟨_, rfl, (Except.ok.inj h).symm.le⟩
    · refine ⟨_, rfl, ?_⟩
      rw [← Except.ok.inj h]
      exact Nat.zero_le _
    · refine ⟨_, rfl, ?_⟩
      rw [← Except.ok.inj h]
      decide
    · exact ⟨_, rfl, (Except.ok.inj h).symm.le⟩

/-! ## The descriptors of an address -/

structure Mapping where
  paddr : Word
  domain : Word
  ap : Nat
  dav : Nat
  subpage : Bool

namespace Walk
variable (c : ArmConf) (w : Walk)

def lookup (vaddr : Word) : Option Mapping :=
  let d := w.firstLevel c vaddr
  let domain := (d >>> 5) &&& 15#32
  let dav := ((w.dacr >>> (domain.toNat * 2)) &&& 3#32).toNat
  match (d &&& 3#32).toNat with
  | 1 =>
    if dav = 0 then none
    else
      let addr := (d &&& 0xfffffc00#32) + ((vaddr &&& 0x000ff000#32) >>> 10)
      (w.hostaddr ((addr &&& 0x0fffffff#32).setWidth 64)).bind fun q =>
        (secondLevel c.xscale (c.convert (hostWord c.hostBig w.host q)) vaddr).map fun x =>
          ⟨x.1, domain, x.2.1, dav, x.2.2⟩
  | 2 =>
    if dav = 0 then none
    else some ⟨(d &&& 0xfff00000#32) ||| (vaddr &&& 0x000fffff#32), domain, ((d >>> 10) &&& 3#32).toNat, dav, false⟩
  | _ => none

variable {c w} {vaddr u v paddr : Word} {write useraccess sub : Bool} {acc : Nat}

theorem check_ok_iff {domain : Word} {ap dav : Nat} {user : Bool} {fs : Word} {sp : Bool} :
    w.check paddr domain ap dav sp user write fs = .ok (.ok u acc sub) ↔
      u = paddr ∧ sub = sp ∧ armCheckAccess w.control ap dav user = .ok acc ∧ (if write then 1 else 0) < acc := by
  unfold check
  generalize (if write then 1 else 0 : Nat) = need
  cases armCheckAccess w.control ap dav user with
  | error e =>
    constructor
    · intro h
      cases h
    · intro h
      cases h.2.2.1
  | ok n =>
    show (if need < n then _ else _) = _ ↔ _
    by_cases hlt : need < n
    · rw [if_pos hlt]
      constructor
      · intro h
        cases h
        exact ⟨rfl, rfl, rfl, hlt⟩
      · rintro ⟨rfl, rfl, hn, -⟩
        cases hn
        rfl
    · rw [if_neg hlt]
      constructor
      · intro h
        cases h
      · rintro ⟨-, -, hn, hacc⟩
        cases hn
        exact absurd hacc hlt

theorem translate_ok_iff : w.translate c vaddr write useraccess = .ok (.ok paddr acc sub) ↔
    ∃ m, w.lookup c vaddr = some m ∧ m.paddr = paddr ∧ m.subpage = sub ∧
      armCheckAccess w.control m.ap m.dav (w.user useraccess) = .ok acc ∧ (if write then 1 else 0) < acc := by
  unfold translate lookup
  dsimp only
  generalize w.firstLevel c vaddr = d
  generalize ((w.dacr >>> (((d >>> 5) &&& 15#32).toNat * 2)) &&& 3#32).toNat = dav
  have hnone : ∀ r, (∀ p n s, r ≠ (Except.ok (V2pResult.ok p n s) : Except Exit V2pResult)) →
      (r = .ok (.ok paddr acc sub) ↔ ∃ m : Mapping, none = some m ∧ m.paddr = paddr ∧ m.subpage = sub ∧
        armCheckAccess w.control m.ap m.dav (w.user useraccess) = .ok acc ∧ (if write then 1 else 0) < acc) := by
    intro r hr
    constructor
    · intro h
      exact absurd h (hr _ _ _)
    · rintro ⟨m, hm, -⟩
      cases hm
  have hsome : ∀ m : Mapping, ∀ fs, (w.check m.paddr m.domain m.ap m.dav m.subpage (w.user useraccess) write fs =
      .ok (.ok paddr acc sub) ↔ ∃ m', some m = some m' ∧ m'.paddr = paddr ∧ m'.subpage = sub ∧
        armCheckAccess w.control m'.ap m'.dav (w.user useraccess) = .ok acc ∧ (if write then 1 else 0) < acc) := by
    intro m fs
    rw [check_ok_iff]
    constructor
    · rintro ⟨rfl, rfl, h⟩
      exact ⟨m, rfl, rfl, rfl, h⟩
    · rintro ⟨m', hm, rfl, rfl, h⟩
      cases hm
      exact ⟨rfl, rfl, h⟩
  generalize (d &&& 3#32).toNat = type
  obtain _ | _ | _ | n := type
  · exact hnone _ (fun _ _ _ h => by cases h)
  · show (if dav = 0 then _ else _) = _ ↔ ∃ m, (if dav = 0 then _ else _) = _ ∧ _
    split
    · exact hnone _ (fun _ _ _ h => by cases h)
    · cases w.hostaddr _ with
      | none => exact hnone _ (fun _ _ _ h => by cases h)
      | some q =>
        rw [Option.bind_some]
        dsimp only
        cases secondLevel c.xscale (c.convert (hostWord c.hostBig w.host q)) vaddr with
        | none => exact hnone _ (fun _ _ _ h => by cases h)
        | some x => exact hsome ⟨x.1, _, x.2.1, dav, x.2.2⟩ _
  · show (if dav = 0 then _ else _) = _ ↔ ∃ m, (if dav = 0 then _ else _) = _ ∧ _
    split
    · exact hnone _ (fun _ _ _ h => by cases h)
    · exact hsome ⟨_, _, _, dav, false⟩ _
  · exact hnone _ (fun _ _ _ h => by cases h)

/-! ## One page -/

theorem and_of_page (huv : u &&& ~~~ 0xfff#32 = v &&& ~~~ 0xfff#32) {mask : Word}
    (hmask : ~~~ 0xfff#32 &&& mask = mask) : u &&& mask = v &&& mask := by
  calc u &&& mask = (u &&& ~~~ 0xfff#32) &&& mask := by rw [BitVec.and_assoc, hmask]
    _ = (v &&& ~~~ 0xfff#32) &&& mask := by rw [huv]
    _ = v &&& mask := by rw [BitVec.and_assoc, hmask]

theorem page_or_and (huv : u &&& ~~~ 0xfff#32 = v &&& ~~~ 0xfff#32) (base mask : Word) :
    (base ||| (u &&& mask)) &&& ~~~ 0xfff#32 = (base ||| (v &&& mask)) &&& ~~~ 0xfff#32 := by
  rw [BitVec.and_or_distrib_right, BitVec.and_or_distrib_right, BitVec.and_assoc, BitVec.and_comm mask,
    ← BitVec.and_assoc, huv, BitVec.and_assoc, BitVec.and_comm _ mask, ← BitVec.and_assoc]

theorem subpageAp_eq {d2 : Word} (h : (subpageAp d2 0 != subpageAp d2 1 || subpageAp d2 0 != subpageAp d2 2 ||
    subpageAp d2 0 != subpageAp d2 3) = false) (x : Word) :
    subpageAp d2 ((x &&& 0xc00#32) >>> 10).toNat = subpageAp d2 0 := by
  simp only [Bool.or_eq_false_iff, bne_eq_false_iff_eq] at h
  obtain ⟨⟨h1, h2⟩, h3⟩ := h
  have hlt : ((x &&& 0xc00#32) >>> 10).toNat < 4 := by
    rw [BitVec.toNat_ushiftRight, BitVec.toNat_and, Nat.shiftRight_eq_div_pow]
    have hle : x.toNat &&& (0xc00#32).toNat ≤ 0xc00 := Nat.and_le_right
    omega
  generalize ((x &&& 0xc00#32) >>> 10).toNat = n at hlt
  obtain rfl | rfl | rfl | rfl : n = 0 ∨ n = 1 ∨ n = 2 ∨ n = 3 := by omega
  · rfl
  · exact h1.symm
  · exact h2.symm
  · exact h3.symm

theorem secondLevel_page (huv : u &&& ~~~ 0xfff#32 = v &&& ~~~ 0xfff#32) {xscale : Bool} {d2 : Word}
    {x : Word × Nat × Bool} (h : secondLevel xscale d2 v = some x) (hs : x.2.2 = false) :
    ∃ y, secondLevel xscale d2 u = some y ∧ y.1 &&& ~~~ 0xfff#32 = x.1 &&& ~~~ 0xfff#32 ∧ y.2 = x.2 := by
  unfold secondLevel at h ⊢
  generalize (d2 &&& 3#32).toNat = type at h
  obtain _ | _ | _ | n := type
  · cases h
  · cases h
    rw [and_of_page huv (by decide : ~~~ 0xfff#32 &&& 0xc000#32 = 0xc000#32)]
    exact ⟨_, rfl, page_or_and huv _ _, rfl⟩
  · cases h
    refine ⟨_, rfl, page_or_and huv _ _, ?_⟩
    rw [subpageAp_eq hs, subpageAp_eq hs]
  · change (if xscale = true then _ else _) = some x at h
    split at h
    · rename_i hx
      cases h
      rw [if_pos hx]
      exact ⟨_, rfl, page_or_and huv _ _, rfl⟩
    · cases h
      cases hs

theorem lookup_page (huv : u &&& ~~~ 0xfff#32 = v &&& ~~~ 0xfff#32) {m : Mapping} (h : w.lookup c v = some m)
    (hs : m.subpage = false) :
    ∃ m', w.lookup c u = some m' ∧ m'.paddr &&& ~~~ 0xfff#32 = m.paddr &&& ~~~ 0xfff#32 ∧ m'.ap = m.ap ∧
      m'.dav = m.dav ∧ m'.subpage = false := by
  have hfirst : w.firstLevel c u = w.firstLevel c v := by
    unfold firstLevel
    rw [and_of_page huv (by decide : ~~~ 0xfff#32 &&& 0xfff00000#32 = 0xfff00000#32)]
  unfold lookup at h ⊢
  rw [hfirst, and_of_page huv (by decide : ~~~ 0xfff#32 &&& 0x000ff000#32 = 0x000ff000#32)]
  dsimp only at h ⊢
  generalize w.firstLevel c v = d at h
  generalize ((w.dacr >>> (((d >>> 5) &&& 15#32).toNat * 2)) &&& 3#32).toNat = dav at h
  generalize (d &&& 3#32).toNat = type at h
  obtain _ | _ | _ | n := type
  · cases h
  · change (if dav = 0 then none else _) = some m at h
    split at h
    · cases h
    · rename_i hdav
      rw [if_neg hdav]
      obtain ⟨q, hq, h⟩ := Option.bind_eq_some_iff.mp h
      obtain ⟨x, hx, rfl⟩ := Option.map_eq_some_iff.mp h
      obtain ⟨y, hy, hpage, hxy⟩ := secondLevel_page huv hx hs
      rw [hq, Option.bind_some, hy]
      exact ⟨_, rfl, hpage, congrArg Prod.fst hxy, rfl, (congrArg Prod.snd hxy).trans hs⟩
  · change (if dav = 0 then none else _) = some m at h
    show ∃ m', (if dav = 0 then none else _) = some m' ∧ _
    split at h
    · cases h
    · rename_i hdav
      rw [if_neg hdav]
      cases h
      exact ⟨_, rfl, page_or_and huv _ _, rfl, rfl, rfl⟩
  · cases h

theorem lookup_offset {m : Mapping} (h : w.lookup c v = some m) (hs : m.subpage = false) :
    m.paddr &&& 0xfff#32 = v &&& 0xfff#32 := by
  have hoffset : ∀ d base mask : Word, base &&& 0xfff#32 = 0#32 → mask &&& 0xfff#32 = 0xfff#32 →
      ((d &&& base) ||| (v &&& mask)) &&& 0xfff#32 = v &&& 0xfff#32 := by
    intro d base mask hbase hmask
    rw [BitVec.and_or_distrib_right, BitVec.and_assoc, hbase, BitVec.and_zero, BitVec.zero_or, BitVec.and_assoc, hmask]
  unfold lookup at h
  dsimp only at h
  generalize w.firstLevel c v = d at h
  generalize ((w.dacr >>> (((d >>> 5) &&& 15#32).toNat * 2)) &&& 3#32).toNat = dav at h
  generalize (d &&& 3#32).toNat = type at h
  obtain _ | _ | _ | n := type
  · cases h
  · change (if dav = 0 then none else _) = some m at h
    split at h
    · cases h
    · obtain ⟨q, -, h⟩ := Option.bind_eq_some_iff.mp h
      obtain ⟨x, hx, rfl⟩ := Option.map_eq_some_iff.mp h
      generalize c.convert (hostWord c.hostBig w.host q) = d2 at hx
      unfold secondLevel at hx
      generalize (d2 &&& 3#32).toNat = type at hx
      obtain _ | _ | _ | n := type
      · cases hx
      · cases hx
        exact hoffset _ _ _ (by decide) (by decide)
      · cases hx
        exact hoffset _ _ _ (by decide) (by decide)
      · change (if c.xscale = true then _ else _) = some x at hx
        split at hx
        · cases hx
          exact hoffset _ _ _ (by decide) (by decide)
        · cases hx
          cases hs
  · change (if dav = 0 then none else _) = some m at h
    split at h
    · cases h
    · cases h
      exact hoffset _ _ _ (by decide) (by decide)
  · cases h

end Walk

/-! ## What is permitted -/

theorem pageAddr_setWidth (x : Word) : Arch.arm.pageAddr (x.setWidth 64) = (x &&& ~~~ 0xfff#32).setWidth 64 := by
  have hlow : x.setWidth 64 = x.setWidth 64 &&& 0xffffffff#64 := by
    calc x.setWidth 64 = (x &&& BitVec.allOnes 32).setWidth 64 := by rw [BitVec.and_allOnes]
      _ = x.setWidth 64 &&& 0xffffffff#64 := by rw [BitVec.setWidth_and]; rfl
  calc x.setWidth 64 &&& ~~~ 0xfff#64 = x.setWidth 64 &&& (0xffffffff#64 &&& ~~~ 0xfff#64) := by
        rw [← BitVec.and_assoc, ← hlow]
    _ = x.setWidth 64 &&& (~~~ 0xfff#32).setWidth 64 := by rfl
    _ = (x &&& ~~~ 0xfff#32).setWidth 64 := BitVec.setWidth_and.symm

theorem pageAddr_eq_iff (u v : Word) :
    Arch.arm.pageAddr (u.setWidth 64) = Arch.arm.pageAddr (v.setWidth 64) ↔
      u &&& ~~~ 0xfff#32 = v &&& ~~~ 0xfff#32 := by
  rw [pageAddr_setWidth, pageAddr_setWidth]
  constructor
  · intro h
    have hback := congrArg (BitVec.setWidth 32) h
    simpa using hback
  · intro h
    rw [h]

namespace ArmMachine
variable (c : ArmConf) (hostaddr : Addr → Option Nat) (s : ArmMachine)

def table : Option Nat :=
  if s.translationTable = none ∨ s.cpu.ttb ≠ s.lastTtb then hostaddr ((s.cpu.ttb &&& 0x0fffffff#32).setWidth 64)
  else s.translationTable

/-- What arm_translate_v2p_mmu() reads in the next translation. -/
def nextWalk : Walk := ⟨s.cpu.control, s.cpu.dacr, s.cpu.cpsr, s.table hostaddr, s.host, hostaddr⟩

def translation (vaddr : Word) (write useraccess : Bool) : Except Exit V2pResult :=
  if s.mmuOn then (s.nextWalk hostaddr).translate c vaddr write useraccess else .ok (.ok vaddr 2 false)

def Permits (useraccess : Bool) (vaddr : Word) (write : Bool) (page : Addr) : Prop :=
  ∃ paddr access subpage, s.translation c hostaddr vaddr write useraccess = .ok (.ok paddr access subpage) ∧
    Arch.arm.pageAddr (paddr.setWidth 64) = page ∧ paddr &&& 0xfff#32 = vaddr &&& 0xfff#32

def userMode : Bool := s.cpu.cpsr &&& armFlagMode == ArmMode.usr.bits

variable {c hostaddr s} {s' : ArmMachine} {io : ArmIo} {vaddr u v paddr : Word} {write useraccess sub : Bool} {acc : Nat}

theorem findTable_translationTable : (s.findTable io).translationTable = s.table io.hostaddr := by
  unfold findTable table
  split <;> rfl

theorem findTable_table : (s.findTable io).table io.hostaddr = s.table io.hostaddr := by
  unfold table findTable
  by_cases h : s.translationTable = none ∨ s.cpu.ttb ≠ s.lastTtb
  · rw [if_pos h, if_pos h]
    exact ite_self _
  · rw [if_neg h, if_neg h]

theorem findTable_same (s : ArmMachine) (io : ArmIo) : (s.findTable io).dyn = s.dyn ∧ (s.findTable io).host = s.host ∧
    (s.findTable io).mmuOn = s.mmuOn ∧ (s.findTable io).mem = s.mem := by
  unfold findTable
  split <;> exact ⟨rfl, rfl, rfl, rfl⟩

theorem translateV2p_ok {r : V2pResult} (h : s.translateV2p c io vaddr write useraccess = .ok (s', r)) :
    s.translation c io.hostaddr vaddr write useraccess = .ok r ∧ (s' = s.findTable io ∨ s' = s) := by
  refine ⟨?_, translateV2p_same h⟩
  unfold translateV2p at h
  unfold translation
  split at h
  · rename_i hmmu
    obtain ⟨r', hr', hr⟩ := Lib.bind_eq_ok h
    cases hr
    rw [if_pos hmmu, ← hr']
    unfold walk nextWalk
    rw [findTable_translationTable, findTable_cpu, (findTable_same s io).2.1]
  · rename_i hmmu
    cases h
    rw [if_neg hmmu]

/-! ## The other addresses of the page, and other modes -/

theorem permits_page (h : s.translation c hostaddr v write useraccess = .ok (.ok paddr acc false))
    (huv : u &&& ~~~ 0xfff#32 = v &&& ~~~ 0xfff#32) {write' : Bool} (hw : write' = true → write = true ∨ acc = 2) :
    s.Permits c hostaddr useraccess u write' (Arch.arm.pageAddr (paddr.setWidth 64)) := by
  unfold Permits translation at *
  split at h
  · rename_i hmmu
    rw [if_pos hmmu]
    obtain ⟨m, hm, rfl, hs, hacc, hlt⟩ := Walk.translate_ok_iff.mp h
    obtain ⟨m', hm', hpage, hap, hdav, hs'⟩ := Walk.lookup_page huv hm hs
    refine ⟨m'.paddr, acc, m'.subpage, Walk.translate_ok_iff.mpr ⟨m', hm', rfl, rfl, ?_, ?_⟩, ?_,
      Walk.lookup_offset hm' hs'⟩
    · rw [hap, hdav]
      exact hacc
    · cases write' with
      | false => exact Nat.lt_of_le_of_lt (Nat.zero_le _) hlt
      | true =>
        rcases hw rfl with rfl | rfl
        · exact hlt
        · decide
    · exact (pageAddr_eq_iff _ _).mpr hpage
  · rename_i hmmu
    cases h
    rw [if_neg hmmu]
    exact ⟨u, 2, false, rfl, (pageAddr_eq_iff _ _).mpr huv, rfl⟩

structure SameMap (hostaddr : Addr → Option Nat) (s s' : ArmMachine) : Prop where
  mmuOn : s'.mmuOn = s.mmuOn
  control : s'.cpu.control = s.cpu.control
  dacr : s'.cpu.dacr = s.cpu.dacr
  table : s'.table hostaddr = s.table hostaddr
  host : s'.host = s.host

theorem SameMap.lookup (h : SameMap hostaddr s s') (v : Word) :
    (s'.nextWalk hostaddr).lookup c v = (s.nextWalk hostaddr).lookup c v := by
  unfold Walk.lookup Walk.firstLevel nextWalk
  rw [h.dacr, h.table, h.host]

theorem SameMap.permits_of_user (h : SameMap hostaddr s s') {useraccess' : Bool} {page : Addr}
    (hu : (useraccess' || s'.userMode) = true → (useraccess || s.userMode) = true)
    (hp : s.Permits c hostaddr useraccess v write page) : s'.Permits c hostaddr useraccess' v write page := by
  obtain ⟨paddr, acc, sub, htr, hpage⟩ := hp
  unfold Permits ArmMachine.translation at *
  rw [h.mmuOn]
  split at htr
  · rename_i hmmu
    obtain ⟨m, hm, hmp, hs, hacc, hlt⟩ := Walk.translate_ok_iff.mp htr
    rw [if_pos hmmu]
    have hcontrol : (s'.nextWalk hostaddr).control = (s.nextWalk hostaddr).control := h.control
    obtain ⟨acc', hacc', hle⟩ : ∃ acc', armCheckAccess (s'.nextWalk hostaddr).control m.ap m.dav
        ((s'.nextWalk hostaddr).user useraccess') = .ok acc' ∧ acc ≤ acc' := by
      rw [hcontrol]
      cases hf : (s.nextWalk hostaddr).user useraccess with
      | true =>
        rw [hf] at hacc
        cases (s'.nextWalk hostaddr).user useraccess' with
        | true => exact ⟨acc, hacc, le_rfl⟩
        | false => exact armCheckAccess_user hacc
      | false =>
        have hf' : (s'.nextWalk hostaddr).user useraccess' = false := by
          cases hmode : (s'.nextWalk hostaddr).user useraccess' with
          | true => exact absurd (hu hmode) (by rw [show (useraccess || s.userMode) = false from hf]; decide)
          | false => rfl
        rw [hf] at hacc
        exact ⟨acc, by rw [hf', hacc], le_rfl⟩
    exact ⟨paddr, acc', sub, Walk.translate_ok_iff.mpr ⟨m, (h.lookup v).trans hm, hmp, hs, hacc', hlt.trans_le hle⟩, hpage⟩
  · rename_i hmmu
    rw [if_neg hmmu]
    cases htr
    exact ⟨_, _, _, rfl, hpage⟩

theorem SameMap.permits (h : SameMap hostaddr s s') {page : Addr}
    (hu : useraccess = false → s'.userMode = true → s.userMode = true)
    (hp : s.Permits c hostaddr useraccess v write page) : s'.Permits c hostaddr useraccess v write page := by
  refine h.permits_of_user (fun hf => ?_) hp
  cases useraccess with
  | true => rfl
  | false => exact hu rfl hf

theorem translation_access (h : s.translation c hostaddr v write useraccess = .ok (.ok paddr acc sub)) :
    (acc = 1 ∨ acc = 2) ∧ (write = true → acc = 2) := by
  unfold ArmMachine.translation at h
  split at h
  · obtain ⟨m, -, -, -, hacc, hlt⟩ := Walk.translate_ok_iff.mp h
    have hle := armCheckAccess_le hacc
    cases write with
    | true =>
      have hlt : 1 < acc := hlt
      exact ⟨by omega, fun _ => by omega⟩
    | false =>
      exact ⟨by omega, fun hf => by cases hf⟩
  · cases h
    exact ⟨.inr rfl, fun _ => rfl⟩

theorem SameMap.translation (h : SameMap hostaddr s s') (hu : useraccess = false → s'.userMode = s.userMode) :
    s'.translation c hostaddr v write useraccess = s.translation c hostaddr v write useraccess := by
  have huser : (s'.nextWalk hostaddr).user useraccess = (s.nextWalk hostaddr).user useraccess := by
    cases useraccess with
    | true => rfl
    | false => exact hu rfl
  have hfirst : (s'.nextWalk hostaddr).firstLevel c v = (s.nextWalk hostaddr).firstLevel c v := by
    unfold Walk.firstLevel nextWalk
    rw [h.table, h.host]
  unfold ArmMachine.translation
  rw [h.mmuOn]
  congr 1
  unfold Walk.translate Walk.check
  rw [huser, hfirst, show (s'.nextWalk hostaddr).control = (s.nextWalk hostaddr).control from h.control,
    show (s'.nextWalk hostaddr).dacr = (s.nextWalk hostaddr).dacr from h.dacr,
    show (s'.nextWalk hostaddr).host = (s.nextWalk hostaddr).host from h.host]
  rfl

end ArmMachine

end Gxemul.Arm
