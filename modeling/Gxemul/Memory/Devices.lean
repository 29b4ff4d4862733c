import Gxemul.Dyntrans.Vph
import Gxemul.Lib.Run

/- Memory mapped devices (`src/include/memory.h`, `src/core/memory.c`, and the
   device lookup in `src/cpus/memory_rw.c`).

   The devices are in an array that is sorted by base address. The array only
   grows: a removed device stays in its last slot until a new one overwrites it,
   so a slot at or above `n_mmapped_devices` may hold a device that is not
   registered any more. -/
namespace Gxemul

/-- `struct memory_device`. The handler, its `extra` pointer and the host memory
behind the device are named by numbers; zero is NULL. -/
structure MemoryDevice where
  baseaddr : Addr
  endaddr : Addr
  length : Addr
  flags : Nat
  dyntransData : Nat
  dyntransWriteLow : Addr
  dyntransWriteHigh : Addr
  f : Nat
  extra : Nat

def dmDyntransOk : Nat := 1
def dmDyntransWriteOk : Nat := 2
def dmReadsHaveNoSideEffects : Nat := 4
def dmEmulatedRam : Nat := 8

/-- The part of `struct memory` that is about devices. -/
structure Memory where
  nMmappedDevices : Nat
  devices : Nat → MemoryDevice
  lastAccessedDevice : Nat
  mmapDevMinaddr : Addr
  mmapDevMaxaddr : Addr

namespace Memory

def devDyntransAlignment : Addr := 4095#64

/-- memory_new(). -/
def init : Memory where
  nMmappedDevices := 0
  devices _ := ⟨0, 0, 0, 0, 0, 0, 0, 0, 0⟩
  lastAccessedDevice := 0
  mmapDevMinaddr := 0xffffffffffffffff#64
  mmapDevMaxaddr := 0

/-! ## Registering and removing -/

/-- One iteration of the loop that looks for the index of a new device. `none`
is -1. -/
def findIndexStep (mem : Memory) (baseaddr len : Addr) (newi : Option Nat) (i : Nat) : Except Exit (Option Nat) :=
  let d := mem.devices i
  let newi := if i = 0 ∧ baseaddr + len ≤ d.baseaddr then some i else newi
  let newi := if 0 < i ∧ baseaddr + len ≤ d.baseaddr ∧ (mem.devices (i - 1)).endaddr ≤ baseaddr then some i else newi
  let newi := if i + 1 = mem.nMmappedDevices ∧ d.endaddr ≤ baseaddr then some (i + 1) else newi
  if baseaddr + len ≤ d.baseaddr then .ok newi
  else if d.endaddr ≤ baseaddr then .ok newi
  else .error .deviceCollides

def findIndex (mem : Memory) (baseaddr len : Addr) : Except Exit Nat := do
  let newi ← (List.range mem.nMmappedDevices).foldlM (mem.findIndexStep baseaddr len) none
  let newi := if mem.nMmappedDevices = 0 then some 0 else newi
  match newi with
  | some i => return i
  | none => throw .deviceInternalError

def dataReused (mem : Memory) (flags dyntransData : Nat) : Bool :=
  (List.range mem.nMmappedDevices).any fun i =>
    (dyntransData == (mem.devices i).dyntransData) &&
      hasFlag (mem.devices i).flags (dmDyntransOk ||| dmDyntransWriteOk) &&
      hasFlag flags (dmDyntransOk ||| dmDyntransWriteOk)

/-- "Make space for the new entry", and fill it in. -/
def insertAt (mem : Memory) (newi : Nat) (d : MemoryDevice) : Nat → MemoryDevice := fun j =>
  if j < newi then mem.devices j
  else if j = newi then d
  else if j ≤ mem.nMmappedDevices then mem.devices (j - 1)
  else mem.devices j

def deviceRegister (mem : Memory) (baseaddr len : Addr) (f extra flags dyntransData : Nat) : Except Exit Memory := do
  let newi ← mem.findIndex baseaddr len
  if mem.dataReused flags dyntransData then throw .dyntransDataReused
  else if hasFlag flags (dmDyntransOk ||| dmDyntransWriteOk) && !hasFlag flags dmEmulatedRam && dyntransData == 0 then
    throw .dyntransDataNull
  else if dyntransData % 8 ≠ 0 then throw .dyntransDataUnaligned
  else return {
    nMmappedDevices := mem.nMmappedDevices + 1
    devices := mem.insertAt newi
      ⟨baseaddr, baseaddr + len, len, flags, dyntransData, 0xffffffffffffffff#64, 0, f, extra⟩
    mmapDevMinaddr :=
      if baseaddr < mem.mmapDevMinaddr then baseaddr &&& ~~~ devDyntransAlignment else mem.mmapDevMinaddr
    mmapDevMaxaddr :=
      if mem.mmapDevMaxaddr < baseaddr + len then ((baseaddr + len - 1) ||| devDyntransAlignment) + 1
      else mem.mmapDevMaxaddr
    lastAccessedDevice :=
      if newi < mem.lastAccessedDevice then mem.lastAccessedDevice + 1 else mem.lastAccessedDevice }

/-- `memory_device_remove()`. The last device is removed without looking at
`last_accessed_device`. -/
def deviceRemove (mem : Memory) (i : Nat) : Except Exit Memory :=
  if mem.nMmappedDevices ≤ i then .error .invalidDeviceNumber
  else
    let n := mem.nMmappedDevices - 1
    if i = n then .ok { mem with nMmappedDevices := n }
    else .ok { mem with
      nMmappedDevices := n
      devices := fun j => if i ≤ j ∧ j < n then mem.devices (j + 1) else mem.devices j
      lastAccessedDevice := if i ≤ mem.lastAccessedDevice then mem.lastAccessedDevice - 1 else mem.lastAccessedDevice }

/-! ## Lookup -/

def Contains (d : MemoryDevice) (paddr : Addr) : Prop := d.baseaddr ≤ paddr ∧ paddr < d.endaddr

instance (d : MemoryDevice) (paddr : Addr) : Decidable (Contains d paddr) := inferInstanceAs (Decidable (_ ∧ _))

/-- "Scan through all devices": the do-while loop of memory_rw(). It returns the
index of the device, if there is one, and the indices it looked at. `none` is a
search that has not ended after `fuel` iterations. -/
def scan (mem : Memory) (paddr : Addr) : Nat → Int → Int → Int → Option (Option Nat × List Int)
  | 0, _, _, _ => none
  | fuel + 1, start, end_, i =>
    let d := mem.devices i.toNat
    if Contains d paddr then some (some i.toNat, [i])
    else
      let end' := if paddr < d.baseaddr then i - 1 else end_
      let start' := if d.endaddr ≤ paddr then i + 1 else start
      if start' ≤ end' then
        (mem.scan paddr fuel start' end' ((start' + end') / 2)).map fun (r, l) => (r, i :: l)
      else some (none, [i])

/-- The device lookup of memory_rw(). -/
def deviceLookup (mem : Memory) (paddr : Addr) : Option (Option Nat × List Int) :=
  if mem.mmapDevMinaddr ≤ paddr ∧ paddr < mem.mmapDevMaxaddr then
    mem.scan paddr (mem.nMmappedDevices + 1) 0 (mem.nMmappedDevices - 1) mem.lastAccessedDevice
  else some (none, [])

/-- The device that memory_rw() calls for a physical address. -/
def deviceFor (mem : Memory) (paddr : Addr) : Option Nat := (mem.deviceLookup paddr).bind (·.1)

/-- A device that allows it gets the range of its writes widened. `offset` is
relative to the device. -/
def noteWrite (d : MemoryDevice) (offset offsetMask : Addr) : MemoryDevice :=
  { d with
    dyntransWriteLow := if offset < d.dyntransWriteLow then offset &&& ~~~ offsetMask else d.dyntransWriteLow
    dyntransWriteHigh := if d.dyntransWriteHigh ≤ offset then offset ||| offsetMask else d.dyntransWriteHigh }

/-- What an access to device `i` leaves in `struct memory`. `fullPage` says that
translate_v2p() did not return MEMORY_NOT_FULL_PAGE. -/
def noteAccess (mem : Memory) (i : Nat) (paddr offsetMask : Addr) (write fullPage : Bool) : Memory :=
  let d := mem.devices i
  { mem with
    lastAccessedDevice := i
    devices := if fullPage && hasFlag d.flags dmDyntransOk && hasFlag d.flags dmDyntransWriteOk && write then
        Function.update mem.devices i (noteWrite d (paddr - d.baseaddr) offsetMask)
      else mem.devices }

end Memory

end Gxemul

/- The device lookup of memory_rw() against a linear scan of the registered
   devices.

   The binary search starts at `last_accessed_device`, and its do-while loop
   looks at that slot before it has compared anything. Registering a device and
   removing one from the middle of the array keep the hint valid. Removing the
   last device returns before the hint is looked at: when the hint is that
   device, the next lookup starts in a slot that is not in use any more. -/
namespace Gxemul

namespace Memory

/-- The registered devices are sorted and apart, lie within the pre-checked
range, and the hint is one of them. -/
structure Sorted (mem : Memory) : Prop where
  ordered : ∀ i, i < mem.nMmappedDevices → (mem.devices i).baseaddr ≤ (mem.devices i).endaddr
  apart : ∀ i j, i < j → j < mem.nMmappedDevices → (mem.devices i).endaddr ≤ (mem.devices j).baseaddr
  within : ∀ i, i < mem.nMmappedDevices →
    mem.mmapDevMinaddr ≤ (mem.devices i).baseaddr ∧ (mem.devices i).endaddr ≤ mem.mmapDevMaxaddr
  hint : (mem.nMmappedDevices = 0 ∧ mem.lastAccessedDevice = 0 ∧ mem.mmapDevMaxaddr = 0) ∨
    mem.lastAccessedDevice < mem.nMmappedDevices

theorem sorted_init : Sorted init where
  ordered i hi := absurd hi (Nat.not_lt_zero i)
  apart _ j _ hj := absurd hj (Nat.not_lt_zero j)
  within i hi := absurd hi (Nat.not_lt_zero i)
  hint := .inl ⟨rfl, rfl, rfl⟩

/-- The search result of a linear scan: the registered device that contains the
address. -/
def Finds (mem : Memory) (paddr : Addr) (res : Option Nat) : Prop :=
  ∀ i, res = some i ↔ i < mem.nMmappedDevices ∧ Contains (mem.devices i) paddr

/-- The lookup ends, looks at registered devices only, and finds what a linear
scan finds. -/
def Dispatches (mem : Memory) : Prop :=
  ∀ paddr, ∃ res probed, mem.deviceLookup paddr = some (res, probed) ∧
    (∀ j ∈ probed, 0 ≤ j ∧ j < mem.nMmappedDevices) ∧ Finds mem paddr res

section
variable {mem : Memory} {paddr : Addr}

theorem Sorted.unique (h : Sorted mem) {i j : Nat} (hi : i < mem.nMmappedDevices) (hj : j < mem.nMmappedDevices)
    (hci : Contains (mem.devices i) paddr) (hcj : Contains (mem.devices j) paddr) : i = j := by
  unfold Contains at hci hcj
  rcases Nat.lt_trichotomy i j with hlt | heq | hgt
  · have := h.apart i j hlt hj
    bv_omega
  · exact heq
  · have := h.apart j i hgt hi
    bv_omega

theorem Sorted.finds_some (h : Sorted mem) {i : Nat} (hi : i < mem.nMmappedDevices)
    (hc : Contains (mem.devices i) paddr) : Finds mem paddr (some i) := by
  intro j
  constructor
  · rintro ⟨⟩
    exact ⟨hi, hc⟩
  · rintro ⟨hj, hcj⟩
    rw [h.unique hi hj hc hcj]

/-- What the search has ruled out: the devices below `start` end at or before
the address, those above `end_` begin after it. -/
structure Bracket (mem : Memory) (paddr : Addr) (start end_ : Int) : Prop where
  lower : 0 ≤ start
  upper : end_ < mem.nMmappedDevices
  below : ∀ j : Nat, j < mem.nMmappedDevices → (j : Int) < start → (mem.devices j).endaddr ≤ paddr
  above : ∀ j : Nat, j < mem.nMmappedDevices → end_ < (j : Int) → paddr < (mem.devices j).baseaddr

theorem Bracket.finds_none {start end_ : Int} (hb : Bracket mem paddr start end_) (hlt : end_ < start) :
    Finds mem paddr none := by
  intro i
  constructor
  · rintro ⟨⟩
  · rintro ⟨hi, hc⟩
    unfold Contains at hc
    by_cases hi' : (i : Int) < start
    · have := hb.below i hi hi'
      bv_omega
    · have := hb.above i hi (by omega)
      bv_omega

theorem Bracket.step {start end_ : Int} {i : Nat} (h : Sorted mem) (hb : Bracket mem paddr start end_)
    (hs : start ≤ i) (he : (i : Int) ≤ end_) (hc : ¬ Contains (mem.devices i) paddr) :
    let end' := if paddr < (mem.devices i).baseaddr then (i : Int) - 1 else end_
    let start' := if (mem.devices i).endaddr ≤ paddr then (i : Int) + 1 else start
    Bracket mem paddr start' end' ∧ end' - start' < end_ - start := by
  intro end' start'
  have hi : i < mem.nMmappedDevices := by
    have := hb.upper
    omega
  have hord := h.ordered i hi
  have hl := hb.lower
  by_cases hlt : paddr < (mem.devices i).baseaddr
  · have hend : end' = i - 1 := if_pos hlt
    have hstart : start' = start := if_neg (by bv_omega)
    rw [hend, hstart]
    refine ⟨⟨hl, by omega, hb.below, fun j hj hij => ?_⟩, by omega⟩
    rcases Nat.lt_or_ge i j with hij' | hij'
    · have := h.apart i j hij' hj
      bv_omega
    · obtain rfl : j = i := by omega
      exact hlt
  · have hge : (mem.devices i).endaddr ≤ paddr := by
      unfold Contains at hc
      bv_omega
    have hend : end' = end_ := if_neg hlt
    have hstart : start' = i + 1 := if_pos hge
    rw [hend, hstart]
    refine ⟨⟨by omega, hb.upper, fun j hj hij => ?_, hb.above⟩, by omega⟩
    rcases Nat.lt_or_ge j i with hij' | hij'
    · have := h.apart j i hij' hi
      bv_omega
    · obtain rfl : j = i := by omega
      exact hge

theorem scan_spec (h : Sorted mem) : ∀ (fuel : Nat) {start end_ : Int} {i : Nat}, Bracket mem paddr start end_ →
    start ≤ i → (i : Int) ≤ end_ → end_ - start < fuel →
    ∃ res probed, mem.scan paddr fuel start end_ i = some (res, probed) ∧
      (∀ j ∈ probed, 0 ≤ j ∧ j < mem.nMmappedDevices) ∧ Finds mem paddr res
  | 0, _, _, _, _, _, _, _ => by omega
  | fuel + 1, start, end_, i, hb, hs, he, hf => by
    have hi : i < mem.nMmappedDevices := by
      have := hb.upper
      omega
    unfold scan
    simp only [Int.toNat_natCast]
    by_cases hc : Contains (mem.devices i) paddr
    · rw [if_pos hc]
      refine ⟨_, _, rfl, ?_, h.finds_some hi hc⟩
      simp only [List.mem_singleton, forall_eq]
      omega
    · rw [if_neg hc]
      obtain ⟨hb', hless⟩ := hb.step h hs he hc
      revert hb' hless
      generalize (if paddr < (mem.devices i).baseaddr then (i : Int) - 1 else end_) = end'
      generalize (if (mem.devices i).endaddr ≤ paddr then (i : Int) + 1 else start) = start'
      intro hb' hless
      split
      · -- the middle of a bracket that is not empty is inside it
        have hl' := hb'.lower
        obtain ⟨m, hm⟩ : ∃ m : Nat, (start' + end') / 2 = m := ⟨((start' + end') / 2).toNat, by omega⟩
        rw [hm]
        obtain ⟨res, probed, hscan, hin, hfinds⟩ := scan_spec h fuel (i := m) hb' (by omega) (by omega) (by omega)
        rw [hscan]
        refine ⟨res, i :: probed, rfl, ?_, hfinds⟩
        simp only [List.mem_cons, forall_eq_or_imp]
        exact ⟨by omega, hin⟩
      · refine ⟨none, _, rfl, ?_, hb'.finds_none (by omega)⟩
        simp only [List.mem_singleton, forall_eq]
        omega

theorem Sorted.dispatches (h : Sorted mem) : Dispatches mem := by
  intro paddr
  unfold deviceLookup
  split
  · rename_i hin
    have hlast : mem.lastAccessedDevice < mem.nMmappedDevices := by
      rcases h.hint with ⟨_, _, hmax⟩ | hlast
      · rw [hmax] at hin
        bv_omega
      · exact hlast
    exact scan_spec h _ ⟨by omega, by omega, fun j _ _ => by omega, fun j _ _ => by omega⟩ (by omega) (by omega)
      (by omega)
  · rename_i hout
    refine ⟨none, [], rfl, by simp, fun i => ⟨by rintro ⟨⟩, ?_⟩⟩
    rintro ⟨hi, hc⟩
    have hw := h.within i hi
    unfold Contains at hc
    exact absurd ⟨by bv_omega, by bv_omega⟩ hout

theorem Sorted.deviceFor_eq (h : Sorted mem) {i : Nat} (hi : i < mem.nMmappedDevices)
    (hc : Contains (mem.devices i) paddr) : mem.deviceFor paddr = some i := by
  obtain ⟨res, probed, hlook, -, hfinds⟩ := h.dispatches paddr
  unfold deviceFor
  rw [hlook]
  exact (hfinds i).mpr ⟨hi, hc⟩

theorem Sorted.contains_of_deviceFor (h : Sorted mem) {i : Nat} (hi : mem.deviceFor paddr = some i) :
    i < mem.nMmappedDevices ∧ Contains (mem.devices i) paddr := by
  obtain ⟨res, probed, hlook, -, hfinds⟩ := h.dispatches paddr
  unfold deviceFor at hi
  rw [hlook] at hi
  exact (hfinds i).mp hi

/-! ## Registering -/

/-- A place for the new device: those before it end where it begins or earlier,
those after it begin where it ends or later. -/
structure Position (mem : Memory) (baseaddr endaddr : Addr) (newi : Nat) : Prop where
  le : newi ≤ mem.nMmappedDevices
  before : ∀ j, j < newi → (mem.devices j).endaddr ≤ baseaddr
  after : ∀ j, newi ≤ j → j < mem.nMmappedDevices → endaddr ≤ (mem.devices j).baseaddr

theorem Sorted.after_first (h : Sorted mem) {endaddr : Addr} {i : Nat} (he : endaddr ≤ (mem.devices i).baseaddr) :
    ∀ j, i ≤ j → j < mem.nMmappedDevices → endaddr ≤ (mem.devices j).baseaddr := by
  intro j hij hj
  rcases Nat.lt_or_ge i j with hlt | hge
  · have h1 := h.ordered i (by omega)
    have h2 := h.apart i j hlt hj
    bv_omega
  · obtain rfl : j = i := by omega
    exact he

theorem Sorted.before_last (h : Sorted mem) {baseaddr : Addr} {i : Nat} (hi : i < mem.nMmappedDevices)
    (hb : (mem.devices i).endaddr ≤ baseaddr) : ∀ j, j < i + 1 → (mem.devices j).endaddr ≤ baseaddr := by
  intro j hj
  rcases Nat.lt_or_ge j i with hlt | hge
  · have h1 := h.ordered i hi
    have h2 := h.apart j i hlt hi
    bv_omega
  · obtain rfl : j = i := by omega
    exact hb

theorem findIndexStep_position (h : Sorted mem) {baseaddr len : Addr} {newi newi' : Option Nat} {i : Nat}
    (hi : i < mem.nMmappedDevices) (hp : ∀ k, newi = some k → Position mem baseaddr (baseaddr + len) k)
    (hs : mem.findIndexStep baseaddr len newi i = .ok newi') :
    ∀ k, newi' = some k → Position mem baseaddr (baseaddr + len) k := by
  unfold findIndexStep at hs
  simp only at hs
  obtain rfl : newi' = _ := by
    split at hs
    · exact (Except.ok.inj hs).symm
    · split at hs
      · exact (Except.ok.inj hs).symm
      · cases hs
  intro k hk
  split at hk
  · -- at the end
    rename_i hlast
    cases hk
    exact ⟨by omega, h.before_last hi hlast.2, fun j _ _ => by omega⟩
  · split at hk
    · -- between two devices
      rename_i hmid
      cases hk
      refine ⟨hi.le, fun j hj => ?_, h.after_first hmid.2.1⟩
      exact h.before_last (by omega) hmid.2.2 j (by omega)
    · split at hk
      · -- at the beginning
        rename_i hfirst
        cases hk
        exact ⟨hi.le, fun j _ => by omega, h.after_first hfirst.2⟩
      · exact hp k hk

theorem findIndex_position (h : Sorted mem) {baseaddr len : Addr} {newi : Nat}
    (hf : mem.findIndex baseaddr len = .ok newi) : Position mem baseaddr (baseaddr + len) newi := by
  obtain ⟨r, hr, hf⟩ := Lib.bind_eq_ok hf
  have hpos := Lib.foldlM_inv (I := fun r => ∀ k, r = some k → Position mem baseaddr (baseaddr + len) k)
    (fun r i r' hi hp hs => findIndexStep_position h (List.mem_range.mp hi) hp hs) hr (by rintro k ⟨⟩)
  by_cases hn : mem.nMmappedDevices = 0
  · simp only [hn, if_true] at hf
    cases hf
    exact ⟨by omega, fun j _ => by omega, fun j _ _ => by omega⟩
  · simp only [hn, if_false] at hf
    cases r with
    | none => cases hf
    | some i =>
      cases hf
      exact hpos _ rfl

theorem Sorted.insertAt (h : Sorted mem) {d : MemoryDevice} {newi : Nat} (hd : d.baseaddr ≤ d.endaddr)
    (hp : Position mem d.baseaddr d.endaddr newi) :
    (∀ i, i < mem.nMmappedDevices + 1 → (mem.insertAt newi d i).baseaddr ≤ (mem.insertAt newi d i).endaddr) ∧
    (∀ i j, i < j → j < mem.nMmappedDevices + 1 →
      (mem.insertAt newi d i).endaddr ≤ (mem.insertAt newi d j).baseaddr) := by
  have hle := hp.le
  have hlow : ∀ j, j < newi → mem.insertAt newi d j = mem.devices j := fun j hj => if_pos hj
  have hnew : mem.insertAt newi d newi = d := by simp [Memory.insertAt]
  have hhigh : ∀ j, newi < j → j ≤ mem.nMmappedDevices → mem.insertAt newi d j = mem.devices (j - 1) := by
    intro j hj hjn
    unfold Memory.insertAt
    rw [if_neg (by omega), if_neg (by omega), if_pos hjn]
  constructor
  · intro i hi
    rcases Nat.lt_trichotomy i newi with hlt | rfl | hgt
    · rw [hlow i hlt]
      exact h.ordered i (by omega)
    · rw [hnew]
      exact hd
    · rw [hhigh i hgt (by omega)]
      exact h.ordered (i - 1) (by omega)
  · intro i j hij hj
    rcases Nat.lt_trichotomy j newi with hlt | rfl | hgt
    · rw [hlow i (by omega), hlow j hlt]
      exact h.apart i j hij (by omega)
    · rw [hlow i hij, hnew]
      exact hp.before i hij
    · rw [hhigh j hgt (by omega)]
      rcases Nat.lt_trichotomy i newi with hlt' | rfl | hgt'
      · rw [hlow i hlt']
        exact h.apart i (j - 1) (by omega) (by omega)
      · rw [hnew]
        exact hp.after (j - 1) (by omega) (by omega)
      · rw [hhigh i hgt' (by omega)]
        exact h.apart (i - 1) (j - 1) (by omega) (by omega)

theorem le_roundUp {x : Addr} (hx : 0 < x) (hmax : x ≤ 0xfffffffffffff000#64) :
    x ≤ ((x - 1) ||| devDyntransAlignment) + 1 := by
  have h1 : (x - 1).toNat ≤ ((x - 1) ||| devDyntransAlignment).toNat := by
    rw [BitVec.toNat_or]
    exact Nat.left_le_or
  have h2 : ((x - 1) ||| devDyntransAlignment).toNat >>> 12 = (x - 1).toNat >>> 12 := by
    rw [BitVec.toNat_or, Nat.shiftRight_or_distrib]
    exact Nat.or_zero _
  rw [Nat.shiftRight_eq_div_pow, Nat.shiftRight_eq_div_pow] at h2
  bv_omega

theorem roundDown_le (x : Addr) : x &&& ~~~ devDyntransAlignment ≤ x := by
  rw [BitVec.le_def, BitVec.toNat_and]
  exact Nat.and_le_left

theorem deviceRegister_eq {mem' : Memory} {baseaddr len : Addr} {f extra flags dyntransData : Nat}
    (hr : mem.deviceRegister baseaddr len f extra flags dyntransData = .ok mem') :
    ∃ newi, mem.findIndex baseaddr len = .ok newi ∧ mem'.nMmappedDevices = mem.nMmappedDevices + 1 ∧
      mem'.devices = mem.insertAt newi
        ⟨baseaddr, baseaddr + len, len, flags, dyntransData, 0xffffffffffffffff#64, 0, f, extra⟩ ∧
      mem'.mmapDevMinaddr =
        (if baseaddr < mem.mmapDevMinaddr then baseaddr &&& ~~~ devDyntransAlignment else mem.mmapDevMinaddr) ∧
      mem'.mmapDevMaxaddr =
        (if mem.mmapDevMaxaddr < baseaddr + len then ((baseaddr + len - 1) ||| devDyntransAlignment) + 1
        else mem.mmapDevMaxaddr) ∧
      mem'.lastAccessedDevice =
        (if newi < mem.lastAccessedDevice then mem.lastAccessedDevice + 1 else mem.lastAccessedDevice) := by
  obtain ⟨newi, hnewi, hr⟩ := Lib.bind_eq_ok hr
  refine ⟨newi, hnewi, ?_⟩
  split at hr
  · cases hr
  split at hr
  · cases hr
  split at hr
  · cases hr
  cases hr
  exact ⟨rfl, rfl, rfl, rfl, rfl⟩

theorem Sorted.deviceRegister (h : Sorted mem) {mem' : Memory} {baseaddr len : Addr} {f extra flags dyntransData : Nat}
    (hlen : baseaddr.toNat + len.toNat ≤ 2 ^ 64 - 4096)
    (hr : mem.deviceRegister baseaddr len f extra flags dyntransData = .ok mem') : Sorted mem' := by
  obtain ⟨newi, hnewi, hn, hdev, hmin, hmax, hlast⟩ := deviceRegister_eq hr
  have hpos := findIndex_position h hnewi
  have hend : baseaddr ≤ baseaddr + len ∧ baseaddr + len ≤ 0xfffffffffffff000#64 := by bv_omega
  generalize hd : MemoryDevice.mk baseaddr (baseaddr + len) len flags dyntransData 0xffffffffffffffff#64 0 f extra = d
    at hdev
  have hbase : d.baseaddr = baseaddr := by rw [← hd]
  have hendaddr : d.endaddr = baseaddr + len := by rw [← hd]
  rw [← hendaddr, ← hbase] at hpos
  obtain ⟨hord, hap⟩ := h.insertAt (by rw [hbase, hendaddr]; exact hend.1) hpos
  have hmin' : mem'.mmapDevMinaddr ≤ baseaddr ∧ mem'.mmapDevMinaddr ≤ mem.mmapDevMinaddr := by
    have := roundDown_le baseaddr
    rw [hmin]
    split <;> constructor <;> bv_omega
  have hmax' : baseaddr + len ≤ mem'.mmapDevMaxaddr ∧ mem.mmapDevMaxaddr ≤ mem'.mmapDevMaxaddr := by
    rw [hmax]
    split
    · have := le_roundUp (x := baseaddr + len) (by bv_omega) hend.2
      constructor <;> bv_omega
    · constructor <;> bv_omega
  refine ⟨by rwa [hn, hdev], by rwa [hn, hdev], ?_, .inr ?_⟩
  · intro i hi
    rw [hn] at hi
    rw [hdev]
    have hold : ∀ j, j < mem.nMmappedDevices →
        mem'.mmapDevMinaddr ≤ (mem.devices j).baseaddr ∧ (mem.devices j).endaddr ≤ mem'.mmapDevMaxaddr := by
      intro j hj
      have := h.within j hj
      constructor <;> bv_omega
    have hle := hpos.le
    unfold Memory.insertAt
    split
    · exact hold i (by omega)
    · split
      · rw [hbase, hendaddr]
        exact ⟨hmin'.1, hmax'.1⟩
      · rw [if_pos (by omega)]
        exact hold (i - 1) (by omega)
  · rw [hn, hlast]
    rcases h.hint with ⟨_, h0, _⟩ | hlt <;> split <;> omega

/-! ## Removing, accessing -/

theorem Sorted.deviceRemove (h : Sorted mem) {mem' : Memory} {i : Nat}
    (hhint : ¬ (i + 1 = mem.nMmappedDevices ∧ mem.lastAccessedDevice = i))
    (hr : mem.deviceRemove i = .ok mem') : Sorted mem' := by
  unfold Memory.deviceRemove at hr
  split at hr
  · cases hr
  have hlast : mem.lastAccessedDevice < mem.nMmappedDevices := by
    rcases h.hint with ⟨h0, _⟩ | hlt
    · omega
    · exact hlt
  simp only at hr
  split at hr
  · -- the last device: nothing moves
    cases hr
    refine ⟨fun k hk => h.ordered k ?_, fun j k hjk hk => h.apart j k hjk ?_, fun k hk => h.within k ?_, .inr ?_⟩ <;>
      dsimp only at * <;> omega
  · -- the devices above it move down
    cases hr
    refine ⟨fun k hk => ?_, fun j k hjk hk => ?_, fun k hk => ?_, .inr ?_⟩
    · dsimp only at *
      split
      · exact h.ordered (k + 1) (by omega)
      · exact h.ordered k (by omega)
    · dsimp only at *
      split <;> split
      · exact h.apart (j + 1) (k + 1) (by omega) (by omega)
      · omega
      · exact h.apart j (k + 1) (by omega) (by omega)
      · exact h.apart j k hjk (by omega)
    · dsimp only at *
      split
      · exact h.within (k + 1) (by omega)
      · exact h.within k (by omega)
    · dsimp only
      split <;> omega

theorem noteAccess_same (mem : Memory) (i : Nat) (paddr offsetMask : Addr) (write fullPage : Bool) (j : Nat) :
    (mem.noteAccess i paddr offsetMask write fullPage).devices j =
      { mem.devices j with
        dyntransWriteLow := ((mem.noteAccess i paddr offsetMask write fullPage).devices j).dyntransWriteLow
        dyntransWriteHigh := ((mem.noteAccess i paddr offsetMask write fullPage).devices j).dyntransWriteHigh } := by
  unfold noteAccess
  dsimp only
  split
  · by_cases hj : j = i
    · subst hj
      simp [noteWrite]
    · simp [hj]
  · rfl

theorem Sorted.noteAccess (h : Sorted mem) {i : Nat} (hi : i < mem.nMmappedDevices) (offsetMask : Addr)
    (write fullPage : Bool) : Sorted (mem.noteAccess i paddr offsetMask write fullPage) where
  ordered k hk := by
    rw [noteAccess_same]
    exact h.ordered k hk
  apart j k hjk hk := by
    rw [noteAccess_same, noteAccess_same mem i paddr offsetMask write fullPage k]
    exact h.apart j k hjk hk
  within k hk := by
    rw [noteAccess_same]
    exact h.within k hk
  hint := .inr hi

end

/-! ## Runs -/

inductive DeviceOp where
  | register (baseaddr len : Addr) (f extra flags dyntransData : Nat)
  | remove (i : Nat)
  | access (paddr offsetMask : Addr) (write fullPage : Bool)

/-- An access to a device notes it; one that finds no device goes on to RAM. -/
def access (mem : Memory) (paddr offsetMask : Addr) (write fullPage : Bool) : Memory :=
  match mem.deviceFor paddr with
  | some i => mem.noteAccess i paddr offsetMask write fullPage
  | none => mem

def deviceStep (mem : Memory) : DeviceOp → Except Exit Memory
  | .register baseaddr len f extra flags dyntransData => mem.deviceRegister baseaddr len f extra flags dyntransData
  | .remove i => mem.deviceRemove i
  | .access paddr offsetMask write fullPage => .ok (mem.access paddr offsetMask write fullPage)

/-- A new device ends at least a page below the top of the address space, and a
removed device is not both the last one and the one accessed last. -/
def KeepsHint (mem : Memory) : DeviceOp → Prop
  | .register baseaddr len _ _ _ _ => baseaddr.toNat + len.toNat ≤ 2 ^ 64 - 4096
  | .remove i => ¬ (i + 1 = mem.nMmappedDevices ∧ mem.lastAccessedDevice = i)
  | .access _ _ _ _ => True

instance (mem : Memory) (o : DeviceOp) : Decidable (KeepsHint mem o) := by
  cases o <;> unfold KeepsHint <;> infer_instance

theorem Sorted.step {mem mem' : Memory} {o : DeviceOp} (h : Sorted mem) (hg : KeepsHint mem o)
    (hs : mem.deviceStep o = .ok mem') : Sorted mem' := by
  cases o with
  | register baseaddr len f extra flags dyntransData => exact h.deviceRegister hg hs
  | remove i => exact h.deviceRemove hg hs
  | access paddr offsetMask write fullPage =>
    cases hs
    unfold access
    split
    · rename_i i hi
      exact h.noteAccess (h.contains_of_deviceFor hi).1 _ _ _
    · exact h

/-- In every run that keeps the hint valid, every lookup in every state reached
ends, stays within the registered devices and finds the device of the address. -/
theorem dispatches_of_keepsHint {ops : List DeviceOp} (hg : Lib.Along deviceStep KeepsHint ops init) :
    Lib.Reaches deviceStep Dispatches ops init :=
  (Lib.reaches_of_along (fun _ => True) (fun _ _ _ _ h hg hs => h.step hg hs) (fun _ _ => trivial) sorted_init
    hg).mono fun _ h => h.dispatches

def twoDevices : List DeviceOp :=
  [.register 0x20000000#64 0x1000#64 1 1 0 0, .register 0x10000000#64 0x1000#64 2 2 0 0]

theorem dispatches_twoDevices :
    Lib.Reaches deviceStep Dispatches (twoDevices ++ [.access 0x20000000#64 4095#64 false true, .remove 0]) init :=
  dispatches_of_keepsHint (by decide +kernel)

/-- The last device is accessed and then removed: the next lookup begins in its
slot and finds it there. -/
theorem not_dispatches_of_remove_last :
    ∃ mem, Lib.runOps deviceStep (twoDevices ++ [.access 0x20000000#64 4095#64 false true, .remove 1]) init = .ok mem ∧
      mem.nMmappedDevices = 1 ∧ mem.deviceLookup 0x20000000#64 = some (some 1, [1]) ∧ ¬ Dispatches mem := by
  obtain ⟨mem, hrun, hlook⟩ := Lib.runOps_eval deviceStep
    (twoDevices ++ [.access 0x20000000#64 4095#64 false true, .remove 1]) init
    (fun mem : Memory => (mem.nMmappedDevices, mem.deviceLookup 0x20000000#64)) (1, some (some 1, [1])) (by decide +kernel)
  obtain ⟨hn, hlook⟩ := Prod.mk.inj hlook
  refine ⟨mem, hrun, hn, hlook, fun hd => ?_⟩
  obtain ⟨res, probed, hlook', _, hfinds⟩ := hd 0x20000000#64
  rw [hlook] at hlook'
  cases hlook'
  have := ((hfinds 1).mp rfl).1
  omega

end Memory

end Gxemul
