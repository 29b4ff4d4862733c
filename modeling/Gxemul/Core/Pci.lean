import Gxemul.Memory.Data
import Gxemul.Lib.Masks
import Gxemul.Lib.Run

/- Base address registers of PCI devices (`src/devices/bus_pci.c`).

   The ranges that are allocated on a bus are aligned, and apart from each other as long
   as the addresses do not wrap. Sizing does not work: the masks are not the ones that the
   guest's rule needs, and the flag for them is one flag for all registers (`sizing_iff`). -/
namespace Gxemul.Pci

open Lib

def mapregStart : Nat := 0x10
def mapregEnd : Nat := 0x28

structure Device where
  cfgMem : ByteMem
  cfgMemSize : ByteMem
  curMapregOffset : Nat := 0
  /-- What a device-specific function does to the configuration memory. -/
  cfgRegWrite : Option (Nat → BitVec 32 → ByteMem → ByteMem) := none

/-- PCI_SET_DATA and PCI_SET_DATA_SIZE. -/
def setData (m : ByteMem) (ofs : Nat) (value : BitVec 64) : ByteMem := m.write ofs (memoryWritemax64 false 4 value)

def load (m : ByteMem) (reg len : Nat) : BitVec 64 :=
  memoryReadmax64 false ((List.range len).map fun i => m ((reg + i) % 0x100))

abbrev Tag := Nat × Nat × Nat

/-- `struct pci_data`. No two devices have the same tag. -/
structure Data where
  devices : Tag → Option Device
  cur : Tag := (0, 0, 0)
  curReg : Nat := 0
  lastWasWriteFfffffff : Bool := false
  curPciPortbase : BitVec 64
  curPciMembase : BitVec 64

namespace Data
variable (d : Data)

def isMapreg : Bool := mapregStart ≤ d.curReg ∧ d.curReg ≤ mapregEnd - 4

/-- bus_pci_data_access(), for a read. -/
def dataRead (len : Nat) : BitVec 64 × Data :=
  match d.devices d.cur with
  | none => (if d.curReg = 0 then BitVec.allOnes 64 else 0#64, d)
  | some dev =>
    let cfgBase := if d.lastWasWriteFfffffff && d.isMapreg then dev.cfgMemSize else dev.cfgMem
    (load cfgBase d.curReg len, { d with lastWasWriteFfffffff := false })

/-- bus_pci_data_access(), for a write. -/
def dataWrite (idata : BitVec 64) : Data :=
  match d.devices d.cur with
  | none => d
  | some dev =>
    if idata = 0xffffffff#64 ∧ d.isMapreg = true then { d with lastWasWriteFfffffff := true }
    else
      match dev.cfgRegWrite with
      | none => d
      | some f =>
        let dev := { dev with cfgMem := f d.curReg (idata.setWidth 32) dev.cfgMem }
        { d with devices := Function.update d.devices d.cur (some dev) }

def setaddr (tag : Tag) (reg : Nat) : Data := { d with cur := tag, curReg := reg }

end Data

def sizeMask (io : Bool) (size : BitVec 64) : BitVec 64 :=
  ((size - 1#64) &&& ~~~0xf#64) ||| if io then 0xd#64 else 0x0#64

/-- The next base address register gets an address and the mask of a size. -/
def Device.setMapreg (pd : Device) (io : Bool) (addr size : BitVec 64) : Device :=
  let ofs := mapregStart + pd.curMapregOffset
  { pd with
    cfgMem := setData pd.cfgMem ofs (addr ||| if io then 0x00000001#64 else 0x0#64)
    cfgMemSize := setData pd.cfgMemSize ofs (sizeMask io size)
    curMapregOffset := pd.curMapregOffset + 4 }

def alignedBase (base size : BitVec 64) : BitVec 64 := ((base - 1#64) ||| (size - 1#64)) + 1#64

/-- allocate_device_space(), for ports or for memory: a size of zero allocates nothing. -/
def Device.allocate (pd : Device) (io : Bool) (base size : BitVec 64) : Device × BitVec 64 :=
  if size ≠ 0#64 then (pd.setMapreg io (alignedBase base size) size, alignedBase base size) else (pd, base)

def Data.allocateDeviceSpace (d : Data) (tag : Tag) (pd : Device) (portsize memsize : BitVec 64) :
    Data × BitVec 64 × BitVec 64 :=
  let (pd, port) := pd.allocate true d.curPciPortbase portsize
  let (pd, mem) := pd.allocate false d.curPciMembase memsize
  ({ d with
    devices := Function.update d.devices tag (some pd)
    curPciPortbase := port + portsize
    curPciMembase := mem + memsize }, port, mem)

/-! ## Runs -/

abbrev Size := Option { k : Nat // 4 ≤ k ∧ k < 64 }

def Size.value : Size → Nat
  | none => 0
  | some k => 2 ^ k.1

inductive Op where
  | allocate (tag : Tag) (portsize memsize : Size)
  | setaddr (tag : Tag) (reg : Nat)
  | read (len : Nat)
  | write (idata : BitVec 64)

/-- The bus, the ranges that have been allocated, what has been allocated for each register, the registers that the
guest has written 0xffffffff to, and whether all reads have been right. -/
structure Run where
  bus : Data
  ports : List (Nat × Nat) := []
  mems : List (Nat × Nat) := []
  sizes : Tag → Nat → Option (Bool × Nat) := fun _ _ => none
  probed : Tag → Nat → Bool := fun _ _ => false
  readsRight : Prop := True

def sizing (io : Bool) (value : Nat) : Nat :=
  (2 ^ 32 - value / (if io then 4 else 16) * (if io then 4 else 16)) % 2 ^ 32

/-- What has been allocated for the registers, with one more allocation if it has a size. -/
def note (sizes : Tag → Nat → Option (Bool × Nat)) (tag : Tag) (pd : Device) (io : Bool) (size : Size) :
    Tag → Nat → Option (Bool × Nat) :=
  fun t r => if size.isSome ∧ t = tag ∧ r = mapregStart + pd.curMapregOffset then some (io, size.value) else sizes t r

def range (start : BitVec 64) (size : Size) : List (Nat × Nat) :=
  if size.isSome then [(start.toNat, size.value)] else []

namespace Run
variable (s : Run)

/-- A register is read with its size where it has been written to with 0xffffffff, and with its contents elsewhere. -/
def ReadRight (value : BitVec 64) : Prop :=
  s.bus.curReg % 4 = 0 → s.bus.curReg < 0x100 → ∀ dev, s.bus.devices s.bus.cur = some dev →
    if s.probed s.bus.cur s.bus.curReg then
      ∀ io size, s.sizes s.bus.cur s.bus.curReg = some (io, size) → sizing io value.toNat = size
    else value = load dev.cfgMem s.bus.curReg 4

def step : Op → Except Empty Run
  | .allocate tag portsize memsize =>
    match s.bus.devices tag with
    | none => .ok s
    | some pd =>
      let space := s.bus.allocateDeviceSpace tag pd (BitVec.ofNat 64 portsize.value) (BitVec.ofNat 64 memsize.value)
      let pd1 := (pd.allocate true s.bus.curPciPortbase (BitVec.ofNat 64 portsize.value)).1
      .ok { s with
        bus := space.1
        ports := range space.2.1 portsize ++ s.ports
        mems := range space.2.2 memsize ++ s.mems
        sizes := note (note s.sizes tag pd true portsize) tag pd1 false memsize }
  | .setaddr tag reg => .ok { s with bus := s.bus.setaddr tag reg }
  | .read len =>
    .ok { s with
      bus := (s.bus.dataRead len).2
      readsRight := s.readsRight ∧ (len = 4 → s.ReadRight (s.bus.dataRead len).1) }
  | .write idata =>
    .ok { s with
      bus := s.bus.dataWrite idata
      probed := fun t r => if t = s.bus.cur ∧ r = s.bus.curReg then decide (idata = 0xffffffff#64) else s.probed t r }

def RangesRight (l : List (Nat × Nat)) : Prop :=
  (∀ r ∈ l, r.2 ∣ r.1) ∧ l.Pairwise fun r r' => r.1 + r.2 ≤ r'.1 ∨ r'.1 + r'.2 ≤ r.1

structure Right (s : Run) : Prop where
  ports : RangesRight s.ports
  mems : RangesRight s.mems
  reads : s.readsRight

def RangeFits (base : BitVec 64) (size : Size) : Prop :=
  (base.toNat + size.value - 1) / size.value * size.value + size.value < 2 ^ 64

def Fits (s : Run) : Op → Prop
  | .allocate tag portsize memsize => RangeFits s.bus.curPciPortbase portsize ∧ RangeFits s.bus.curPciMembase memsize ∧
    ∀ pd, s.bus.devices tag = some pd →
      pd.curMapregOffset + (if portsize.isSome then 4 else 0) + (if memsize.isSome then 4 else 0) ≤
        mapregEnd - mapregStart
  | _ => True

/-- A register that has been written to with 0xffffffff is not read while masks are returned, and has an address whose
bits happen to be the mask of its size. Another one is read while no masks are returned, or has its mask as address. -/
def ReadGood (s : Run) : Op → Prop
  | .read len => len = 4 → s.bus.curReg % 4 = 0 → s.bus.curReg < 0x100 → ∀ dev, s.bus.devices s.bus.cur = some dev →
    if s.probed s.bus.cur s.bus.curReg then
      ∀ io size, s.sizes s.bus.cur s.bus.curReg = some (io, size) → s.bus.lastWasWriteFfffffff = false ∧
        sizing io (load dev.cfgMem s.bus.curReg 4).toNat = size
    else s.bus.lastWasWriteFfffffff = true → s.bus.isMapreg = true →
      load dev.cfgMemSize s.bus.curReg 4 = load dev.cfgMem s.bus.curReg 4
  | _ => True

end Run

/-! ## Ranges -/

section
variable {k : Nat} {base : BitVec 64} {size : Size} {l : List (Nat × Nat)}

theorem toNat_or_mask (x : BitVec 64) (hk : k ≤ 64) :
    (x ||| BitVec.ofNat 64 (2 ^ k - 1)).toNat = x.toNat / 2 ^ k * 2 ^ k + (2 ^ k - 1) := by
  have hor : x ||| BitVec.ofNat 64 (2 ^ k - 1) =
      (x &&& ~~~BitVec.ofNat 64 (2 ^ k - 1)) + BitVec.ofNat 64 (2 ^ k - 1) := by
    rw [BitVec.add_eq_or_of_and_eq_zero] <;> ext i hi <;>
      simp only [BitVec.getElem_and, BitVec.getElem_or, BitVec.getElem_not, BitVec.getElem_zero] <;>
      cases x[i] <;> cases (BitVec.ofNat 64 (2 ^ k - 1))[i] <;> rfl
  have hpos := Nat.two_pow_pos k
  have hdvd : 2 ^ 64 / 2 ^ k * 2 ^ k = 2 ^ 64 := Nat.div_mul_cancel (pow_dvd_pow 2 hk)
  have hlt : x.toNat / 2 ^ k < 2 ^ 64 / 2 ^ k := (Nat.div_lt_iff_lt_mul hpos).mpr (by rw [hdvd]; exact x.isLt)
  have hbound : (x.toNat / 2 ^ k + 1) * 2 ^ k ≤ 2 ^ 64 / 2 ^ k * 2 ^ k := Nat.mul_le_mul_right _ hlt
  rw [hdvd, Nat.succ_mul] at hbound
  rw [hor, BitVec.toNat_add, toNat_and_not_mask, BitVec.toNat_ofNat,
    Nat.mod_eq_of_lt (show 2 ^ k - 1 < 2 ^ 64 by omega)]
  exact Nat.mod_eq_of_lt (by omega)

theorem two_pow_ne_zero (hk : k < 64) : BitVec.ofNat 64 (2 ^ k) ≠ 0#64 := by
  intro h
  have hzero := congrArg BitVec.toNat h
  rw [BitVec.toNat_ofNat, Nat.mod_eq_of_lt (Nat.pow_lt_pow_right (by decide) hk)] at hzero
  exact absurd hzero (Nat.ne_of_gt (Nat.two_pow_pos k))

theorem ofNat_sub_one (hk : k < 64) : BitVec.ofNat 64 (2 ^ k) - 1#64 = BitVec.ofNat 64 (2 ^ k - 1) := by
  have hpos := Nat.two_pow_pos k
  apply BitVec.eq_of_toNat_eq
  simp only [BitVec.toNat_sub, BitVec.toNat_ofNat]
  omega

theorem toNat_alignedBase (base : BitVec 64) (hk : k < 64) (hfits : (base.toNat + 2 ^ k - 1) / 2 ^ k * 2 ^ k < 2 ^ 64) :
    (alignedBase base (BitVec.ofNat 64 (2 ^ k))).toNat = (base.toNat + 2 ^ k - 1) / 2 ^ k * 2 ^ k := by
  have hpos := Nat.two_pow_pos k
  unfold alignedBase
  rw [ofNat_sub_one hk, BitVec.toNat_add, toNat_or_mask _ (by omega)]
  by_cases hzero : base.toNat = 0
  · have hx : (base - 1#64).toNat = 2 ^ 64 - 1 := by
      rw [BitVec.toNat_sub, hzero]
      rfl
    have hdvd : (2 ^ 64 - 1) / 2 ^ k * 2 ^ k + (2 ^ k - 1) = 2 ^ 64 - 1 := by
      obtain ⟨n, hn⟩ := pow_dvd_pow 2 (Nat.le_of_lt hk)
      have hn1 : 1 ≤ n := by
        rcases Nat.eq_zero_or_pos n with rfl | h
        · omega
        · exact h
      have hsub : 2 ^ 64 - 1 = 2 ^ k * (n - 1) + (2 ^ k - 1) := by
        rw [hn, Nat.mul_sub, Nat.mul_one]
        have := Nat.mul_le_mul_left (2 ^ k) hn1
        omega
      rw [hsub, Nat.mul_add_div hpos, Nat.div_eq_of_lt (by omega), Nat.add_zero, Nat.mul_comm]
    rw [hx, hdvd, hzero, Nat.zero_add, Nat.div_eq_of_lt (by omega), Nat.zero_mul]
    rfl
  · have hx : (base - 1#64).toNat = base.toNat - 1 := by
      rw [BitVec.toNat_sub]
      show (2 ^ 64 - 1 + base.toNat) % 2 ^ 64 = _
      omega
    have hround : (base.toNat + 2 ^ k - 1) / 2 ^ k = (base.toNat - 1) / 2 ^ k + 1 := by
      rw [← Nat.add_div_right _ hpos]
      congr 1
      omega
    rw [hround, Nat.succ_mul] at hfits ⊢
    rw [hx]
    show ((base.toNat - 1) / 2 ^ k * 2 ^ k + (2 ^ k - 1) + 1) % 2 ^ 64 = _
    rw [Nat.mod_eq_of_lt (by omega)]
    omega

theorem ranges_allocate (pd : Device) (io : Bool) (hright : Run.RangesRight l)
    (hend : ∀ r ∈ l, r.1 + r.2 ≤ base.toNat) (hfits : Run.RangeFits base size) :
    Run.RangesRight (range (pd.allocate io base (BitVec.ofNat 64 size.value)).2 size ++ l) ∧
      ∀ r ∈ range (pd.allocate io base (BitVec.ofNat 64 size.value)).2 size ++ l,
        r.1 + r.2 ≤ ((pd.allocate io base (BitVec.ofNat 64 size.value)).2 + BitVec.ofNat 64 size.value).toNat := by
  cases size with
  | none =>
    have hsame : (pd.allocate io base (BitVec.ofNat 64 (Size.value none))).2 = base := rfl
    rw [hsame]
    refine ⟨hright, fun r hr => ?_⟩
    rw [show base + BitVec.ofNat 64 (Size.value none) = base from BitVec.add_zero base]
    exact hend r hr
  | some k =>
    obtain ⟨k, hk4, hk⟩ := k
    have hpow : 2 ^ k < 2 ^ 64 := Nat.pow_lt_pow_right (by decide) hk
    have hpos := Nat.two_pow_pos k
    replace hfits : (base.toNat + 2 ^ k - 1) / 2 ^ k * 2 ^ k + 2 ^ k < 2 ^ 64 := hfits
    have hstart : (pd.allocate io base (BitVec.ofNat 64 (2 ^ k))).2 = alignedBase base (BitVec.ofNat 64 (2 ^ k)) := by
      rw [Device.allocate, if_pos (two_pow_ne_zero hk)]
    have haligned := toNat_alignedBase base hk (by omega)
    have hle : base.toNat ≤ (base.toNat + 2 ^ k - 1) / 2 ^ k * 2 ^ k := by
      have hdiv := Nat.div_add_mod' (base.toNat + 2 ^ k - 1) (2 ^ k)
      omega
    have hnext : (alignedBase base (BitVec.ofNat 64 (2 ^ k)) + BitVec.ofNat 64 (2 ^ k)).toNat =
        (base.toNat + 2 ^ k - 1) / 2 ^ k * 2 ^ k + 2 ^ k := by
      rw [BitVec.toNat_add, haligned, BitVec.toNat_ofNat, Nat.mod_eq_of_lt hpow, Nat.mod_eq_of_lt hfits]
    show Run.RangesRight (((pd.allocate io base (BitVec.ofNat 64 (2 ^ k))).2.toNat, 2 ^ k) :: l) ∧
      ∀ r ∈ ((pd.allocate io base (BitVec.ofNat 64 (2 ^ k))).2.toNat, 2 ^ k) :: l,
        r.1 + r.2 ≤ ((pd.allocate io base (BitVec.ofNat 64 (2 ^ k))).2 + BitVec.ofNat 64 (2 ^ k)).toNat
    rw [hstart, hnext, haligned]
    refine ⟨⟨?_, List.pairwise_cons.mpr ⟨fun r hr => .inr ((hend r hr).trans hle), hright.2⟩⟩, ?_⟩
    · rintro r (_ | ⟨_, hr⟩)
      · exact Nat.dvd_mul_left _ _
      · exact hright.1 r hr
    · rintro r (_ | ⟨_, hr⟩)
      · exact Nat.le_refl _
      · exact ((hend r hr).trans hle).trans (Nat.le_add_right _ _)

end

/-! ## Masks -/

section
variable {m : ByteMem} {reg ofs : Nat} {v : BitVec 64}

theorem load_eq (h : reg + 4 ≤ 0x100) : load m reg 4 = BitVec.ofNat 64 (Lib.value false (m.read reg 4)) := by
  rw [load, memoryReadmax64_eq]
  refine congrArg (fun l => BitVec.ofNat 64 (Lib.value false l)) (List.map_congr_left fun i hi => ?_)
  rw [Nat.mod_eq_of_lt (by have := List.mem_range.mp hi; omega)]

theorem load_setData (h : ofs + 4 ≤ 0x100) : load (setData m ofs v) ofs 4 = BitVec.ofNat 64 (v.toNat % 2 ^ 32) := by
  have hread := m.read_write ofs (memoryWritemax64 false 4 v)
  rw [memoryWritemax64_eq, length_bytes] at hread
  rw [load_eq h, setData, memoryWritemax64_eq, hread, value_bytes]
  rfl

theorem load_setData_other (h : ofs + 4 ≤ 0x100) (hreg : reg + 4 ≤ ofs) :
    load (setData m ofs v) reg 4 = load m reg 4 := by
  rw [load_eq (by omega), load_eq (by omega)]
  refine congrArg (fun l => BitVec.ofNat 64 (Lib.value false l)) (List.map_congr_left fun i hi => ?_)
  exact m.write_other (.inl (by have := List.mem_range.mp hi; omega))

end

theorem sizing_sizeMask (io : Bool) {k : Nat} (hk4 : 4 ≤ k) (hk : k < 64) :
    sizing io (BitVec.ofNat 64 ((sizeMask io (BitVec.ofNat 64 (2 ^ k))).toNat % 2 ^ 32)).toNat ≠ 2 ^ k := by
  obtain ⟨n, hn⟩ : 2 ^ 4 ∣ 2 ^ k := pow_dvd_pow 2 hk4
  have hpow : 2 ^ k < 2 ^ 64 := Nat.pow_lt_pow_right (by decide) hk
  have hpos := Nat.two_pow_pos k
  have hhigh : ((BitVec.ofNat 64 (2 ^ k) - 1#64) &&& ~~~0xf#64).toNat = 2 ^ k - 16 := by
    have hmask := toNat_and_not_mask (BitVec.ofNat 64 (2 ^ k) - 1#64) 4
    rw [ofNat_sub_one hk, BitVec.toNat_ofNat, Nat.mod_eq_of_lt (by omega)] at hmask
    rw [ofNat_sub_one hk]
    exact hmask.trans (by omega)
  have hmask : (sizeMask io (BitVec.ofNat 64 (2 ^ k))).toNat = 2 ^ k - 16 + if io then 13 else 0 := by
    unfold sizeMask
    generalize hx : (BitVec.ofNat 64 (2 ^ k) - 1#64) &&& ~~~0xf#64 = x at hhigh
    cases io with
    | false => simpa using hhigh
    | true =>
      have hdisj : x &&& 0xd#64 = 0#64 := by
        rw [← hx, BitVec.and_assoc]
        exact BitVec.and_zero
      rw [if_pos rfl, if_pos rfl, ← BitVec.add_eq_or_of_and_eq_zero _ _ hdisj, BitVec.toNat_add, hhigh]
      show (2 ^ k - 16 + 13) % 2 ^ 64 = _
      omega
  rw [hmask, BitVec.toNat_ofNat]
  unfold sizing
  cases io <;> simp only [if_true, if_false, Bool.false_eq_true] <;> omega

def Masks (devices : Tag → Option Device) (sizes : Tag → Nat → Option (Bool × Nat)) : Prop :=
  ∀ tag reg io size, sizes tag reg = some (io, size) → ∃ pd k, devices tag = some pd ∧ 4 ≤ k ∧ k < 64 ∧ size = 2 ^ k ∧
    mapregStart ≤ reg ∧ reg + 4 ≤ mapregStart + pd.curMapregOffset ∧ mapregStart + pd.curMapregOffset ≤ mapregEnd ∧
    load pd.cfgMemSize reg 4 = BitVec.ofNat 64 ((sizeMask io (BitVec.ofNat 64 (2 ^ k))).toNat % 2 ^ 32)

theorem masks_allocate {devices : Tag → Option Device} {sizes : Tag → Nat → Option (Bool × Nat)} {tag : Tag}
    {pd : Device} (io : Bool) (base : BitVec 64) {size : Size} (h : Masks devices sizes) (hpd : devices tag = some pd)
    (hfits : pd.curMapregOffset + (if size.isSome then 4 else 0) ≤ mapregEnd - mapregStart) :
    Masks (Function.update devices tag (some (pd.allocate io base (BitVec.ofNat 64 size.value)).1))
      (note sizes tag pd io size) ∧
    (pd.allocate io base (BitVec.ofNat 64 size.value)).1.curMapregOffset =
      pd.curMapregOffset + if size.isSome then 4 else 0 := by
  cases size with
  | none =>
    have hsame : (pd.allocate io base (BitVec.ofNat 64 (Size.value none))).1 = pd := rfl
    rw [hsame, ← hpd, Function.update_eq_self]
    exact ⟨h, rfl⟩
  | some k =>
    obtain ⟨k, hk4, hk⟩ := k
    replace hfits : pd.curMapregOffset + 4 ≤ 24 := hfits
    have hpd1 : (pd.allocate io base (BitVec.ofNat 64 (2 ^ k))).1 =
        pd.setMapreg io (alignedBase base (BitVec.ofNat 64 (2 ^ k))) (BitVec.ofNat 64 (2 ^ k)) := by
      rw [Device.allocate, if_pos (two_pow_ne_zero hk)]
    refine ⟨fun t r io' size' hsize => ?_, congrArg Device.curMapregOffset hpd1⟩
    show ∃ pd' k', Function.update devices tag (some (pd.allocate io base (BitVec.ofNat 64 (2 ^ k))).1) t = _ ∧ _
    rw [hpd1]
    unfold note at hsize
    split at hsize
    · rename_i hnew
      obtain ⟨-, rfl, rfl⟩ := hnew
      cases hsize
      refine ⟨_, k, Function.update_self .., hk4, hk, rfl, Nat.le_add_right _ _, Nat.le_refl _, ?_, load_setData ?_⟩
      · show 16 + (pd.curMapregOffset + 4) ≤ 40
        omega
      · show 16 + pd.curMapregOffset + 4 ≤ 0x100
        omega
    · obtain ⟨pd', k', hpd', h4', h64', hsize', hlow, hhigh, hend, hload⟩ := h t r io' size' hsize
      by_cases htag : t = tag
      · subst htag
        obtain rfl : pd = pd' := Option.some.inj (hpd.symm.trans hpd')
        refine ⟨_, k', Function.update_self .., h4', h64', hsize', hlow, ?_, ?_, ?_⟩
        · show r + 4 ≤ mapregStart + (pd.curMapregOffset + 4)
          omega
        · show 16 + (pd.curMapregOffset + 4) ≤ 40
          omega
        · refine (load_setData_other ?_ hhigh).trans hload
          show 16 + pd.curMapregOffset + 4 ≤ 0x100
          omega
      · exact ⟨pd', k', by rwa [Function.update_of_ne htag], h4', h64', hsize', hlow, hhigh, hend, hload⟩

namespace Run
variable {s : Run}

structure Inv (s : Run) : Prop where
  masks : Masks s.bus.devices s.sizes
  ports : RangesRight s.ports
  portsEnd : ∀ r ∈ s.ports, r.1 + r.2 ≤ s.bus.curPciPortbase.toNat
  mems : RangesRight s.mems
  memsEnd : ∀ r ∈ s.mems, r.1 + r.2 ≤ s.bus.curPciMembase.toNat
  reads : s.readsRight

theorem Inv.read_iff (h : s.Inv) (len : Nat) :
    (len = 4 → s.ReadRight (s.bus.dataRead len).1) ↔ s.ReadGood (.read len) := by
  refine forall_congr' fun hlen => forall_congr' fun haligned => forall_congr' fun hreg => forall_congr' fun dev =>
    forall_congr' fun hdev => ?_
  subst hlen
  have hvalue : (s.bus.dataRead 4).1 = load (if s.bus.lastWasWriteFfffffff && s.bus.isMapreg then dev.cfgMemSize
      else dev.cfgMem) s.bus.curReg 4 := by
    unfold Data.dataRead
    rw [hdev]
  rw [hvalue]
  split
  · refine forall_congr' fun io => forall_congr' fun size => forall_congr' fun hsize => ?_
    obtain ⟨pd, k, hpd, hk4, hk, rfl, hlow, hhigh, hend, hload⟩ := h.masks _ _ _ _ hsize
    obtain rfl : dev = pd := Option.some.inj (hdev.symm.trans hpd)
    have hmapreg : s.bus.isMapreg = true := decide_eq_true ⟨hlow, by
      rw [mapregEnd] at hend ⊢
      omega⟩
    cases hflag : s.bus.lastWasWriteFfffffff with
    | false => simp
    | true =>
      -- the mask is returned
      rw [hmapreg]
      exact iff_of_false (by
        show ¬ sizing io (load dev.cfgMemSize s.bus.curReg 4).toNat = 2 ^ k
        rw [hload]
        exact sizing_sizeMask io hk4 hk) fun hno => Bool.noConfusion hno.1
  · cases s.bus.lastWasWriteFfffffff <;> cases s.bus.isMapreg <;> simp

theorem masks_dataWrite (h : Masks s.bus.devices s.sizes) (idata : BitVec 64) :
    Masks (s.bus.dataWrite idata).devices s.sizes ∧ (s.bus.dataWrite idata).curPciPortbase = s.bus.curPciPortbase ∧
      (s.bus.dataWrite idata).curPciMembase = s.bus.curPciMembase := by
  unfold Data.dataWrite
  split
  · exact ⟨h, rfl, rfl⟩
  · rename_i dev hdev
    split
    · exact ⟨h, rfl, rfl⟩
    · split
      · exact ⟨h, rfl, rfl⟩
      · refine ⟨fun tag reg io size hsize => ?_, rfl, rfl⟩
        obtain ⟨pd, k, hpd, hrest⟩ := h tag reg io size hsize
        by_cases htag : tag = s.bus.cur
        · subst htag
          obtain rfl : dev = pd := Option.some.inj (hdev.symm.trans hpd)
          exact ⟨_, k, Function.update_self .., hrest⟩
        · exact ⟨pd, k, (Function.update_of_ne htag _ _).trans hpd, hrest⟩

theorem Inv.step (h : s.Inv) (o : Op) (hfits : s.Fits o) :
    ∃ s', s.step o = .ok s' ∧ (s.ReadGood o → s'.Inv) ∧ (¬ s.ReadGood o → ¬ s'.Right) := by
  cases o with
  | setaddr tag reg => exact ⟨_, rfl, fun _ => { h with }, fun hbad => absurd trivial hbad⟩
  | write idata =>
    obtain ⟨hmasks, hport, hmem⟩ := masks_dataWrite h.masks idata
    exact ⟨_, rfl, fun _ => ⟨hmasks, h.ports, by rw [hport]; exact h.portsEnd, h.mems, by rw [hmem]; exact h.memsEnd,
      h.reads⟩, fun hbad => absurd trivial hbad⟩
  | read len =>
    refine ⟨_, rfl, fun hgood => ?_, fun hbad hright => hbad ((h.read_iff len).mp hright.reads.2)⟩
    have hbus : (s.bus.dataRead len).2.devices = s.bus.devices ∧
        (s.bus.dataRead len).2.curPciPortbase = s.bus.curPciPortbase ∧
        (s.bus.dataRead len).2.curPciMembase = s.bus.curPciMembase := by
      unfold Data.dataRead
      split <;> exact ⟨rfl, rfl, rfl⟩
    obtain ⟨hdevices, hport, hmem⟩ := hbus
    exact ⟨by rw [hdevices]; exact h.masks, h.ports, by rw [hport]; exact h.portsEnd, h.mems,
      by rw [hmem]; exact h.memsEnd, h.reads, (h.read_iff len).mpr hgood⟩
  | allocate tag portsize memsize =>
    obtain ⟨hportFits, hmemFits, hregs⟩ := hfits
    cases hpd : s.bus.devices tag with
    | none => exact ⟨s, by rw [Run.step, hpd], fun _ => h, fun hbad => absurd trivial hbad⟩
    | some pd =>
      have hregs' := hregs pd hpd
      obtain ⟨hmasks, hoffset⟩ := masks_allocate true s.bus.curPciPortbase h.masks hpd
        (show pd.curMapregOffset + (if portsize.isSome then 4 else 0) ≤ mapregEnd - mapregStart by omega)
      obtain ⟨hmasks', -⟩ := masks_allocate false s.bus.curPciMembase hmasks (Function.update_self ..)
        (by rw [hoffset]; exact hregs')
      rw [Function.update_idem] at hmasks'
      obtain ⟨hports, hportsEnd⟩ := ranges_allocate pd true h.ports h.portsEnd hportFits
      obtain ⟨hmems, hmemsEnd⟩ := ranges_allocate (pd.allocate true s.bus.curPciPortbase
        (BitVec.ofNat 64 portsize.value)).1 false h.mems h.memsEnd hmemFits
      refine ⟨_, by rw [Run.step, hpd], fun _ => ?_, fun hbad => absurd trivial hbad⟩
      exact ⟨hmasks', hports, hportsEnd, hmems, hmemsEnd, h.reads⟩

end Run

def start (devices : Tag → Option Device) (portbase membase : BitVec 64) : Run where
  bus := { devices, curPciPortbase := portbase, curPciMembase := membase }

def PciRight (devices : Tag → Option Device) (portbase membase : BitVec 64) (ops : List Op) : Prop :=
  Lib.Reaches Run.step Run.Right ops (start devices portbase membase)

/-- In the runs whose allocations fit, everything is right if and only if all reads are good. -/
theorem sizing_iff {devices : Tag → Option Device} {portbase membase : BitVec 64} {ops : List Op}
    (hfits : Lib.Along Run.step Run.Fits ops (start devices portbase membase)) :
    PciRight devices portbase membase ops ↔ Lib.Along Run.step Run.ReadGood ops (start devices portbase membase) := by
  refine reaches_iff_of_inv (R := Run.Inv) (fun s h => ⟨h.ports, h.mems, h.reads⟩) (fun s o h hf => h.step o hf)
    ⟨(fun _ _ _ _ h => by cases h), ?_, ?_, ?_, ?_, trivial⟩ hfits
  · exact ⟨fun _ h => absurd h List.not_mem_nil, List.Pairwise.nil⟩
  · exact fun _ h => absurd h List.not_mem_nil
  · exact ⟨fun _ h => absurd h List.not_mem_nil, List.Pairwise.nil⟩
  · exact fun _ h => absurd h List.not_mem_nil

def oneDevice (tag : Tag) : Option Device :=
  if tag = (0, 0, 0) then some ⟨fun _ => 0#8, fun _ => 0#8, 0, none⟩ else none

def probe : List Op :=
  [.allocate (0, 0, 0) (some ⟨8, by decide⟩) none, .setaddr (0, 0, 0) 0x10, .write 0xffffffff#64, .read 4]

theorem probe_not_right : ¬ PciRight oneDevice 0#64 0#64 probe := by
  rintro ⟨-, h1⟩
  obtain ⟨-, h2⟩ := h1 _ rfl
  obtain ⟨-, h3⟩ := h2 _ rfl
  obtain ⟨-, h4⟩ := h3 _ rfl
  have hread := (h4 _ rfl).reads.2 rfl (by decide) (by decide) _ rfl true 256 rfl
  exact absurd hread (by decide +kernel)

theorem allocation_right : PciRight oneDevice 0#64 0#64 [.allocate (0, 0, 0) (some ⟨8, by decide⟩) none] := by
  have hfits : Lib.Along Run.step Run.Fits [.allocate (0, 0, 0) (some ⟨8, by decide⟩) none]
      (start oneDevice 0#64 0#64) := by
    refine ⟨⟨?_, ?_, ?_⟩, fun _ _ => trivial⟩
    · show (0 + 2 ^ 8 - 1) / 2 ^ 8 * 2 ^ 8 + 2 ^ 8 < 2 ^ 64
      decide
    · show (0 + 0 - 1) / 0 * 0 + 0 < 2 ^ 64
      decide
    · intro pd hpd
      cases hpd
      decide
  exact (sizing_iff hfits).mpr ⟨trivial, fun _ _ => trivial⟩

end Gxemul.Pci
