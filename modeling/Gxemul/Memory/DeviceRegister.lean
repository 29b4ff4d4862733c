import Mathlib.Data.List.Perm.Basic
import Gxemul.Memory.Devices

/- What memory_device_register() does to the table of devices, for any table that is
   sorted and without overlaps, with devices of any length.

   The index of the new device comes from the loop that looks for collisions. When
   there is none, each device ends before the new one begins or begins after it ends,
   and the index is that of the first device of the second kind. -/
namespace Gxemul

namespace Memory

def table (mem : Memory) : List MemoryDevice := (List.range mem.nMmappedDevices).map mem.devices

/-- The devices are sorted by base address, do not overlap, and lie within the pre-checked range. -/
structure Table (mem : Memory) : Prop where
  ordered : ∀ i, i < mem.nMmappedDevices → (mem.devices i).baseaddr ≤ (mem.devices i).endaddr
  sorted : ∀ i j, i < j → j < mem.nMmappedDevices → (mem.devices i).baseaddr ≤ (mem.devices j).baseaddr
  apart : ∀ i j, i < j → j < mem.nMmappedDevices →
    (mem.devices i).endaddr ≤ (mem.devices j).baseaddr ∨ (mem.devices j).endaddr ≤ (mem.devices i).baseaddr
  within : ∀ i, i < mem.nMmappedDevices →
    mem.mmapDevMinaddr ≤ (mem.devices i).baseaddr ∧ (mem.devices i).endaddr ≤ mem.mmapDevMaxaddr

/-- The range from `baseaddr` to `endaddr` overlaps that of a device. An empty range overlaps one that it lies in the
middle of. -/
def Overlaps (d : MemoryDevice) (baseaddr endaddr : Addr) : Prop := baseaddr < d.endaddr ∧ d.baseaddr < endaddr

def Collides (mem : Memory) (baseaddr len : Addr) : Prop :=
  ∃ i, i < mem.nMmappedDevices ∧ Overlaps (mem.devices i) baseaddr (baseaddr + len)

def DataOk (mem : Memory) (flags dyntransData : Nat) : Prop :=
  mem.dataReused flags dyntransData = false ∧
    ¬ (hasFlag flags (dmDyntransOk ||| dmDyntransWriteOk) && !hasFlag flags dmEmulatedRam && dyntransData == 0) = true ∧
    dyntransData % 8 = 0

instance (mem : Memory) (flags dyntransData : Nat) : Decidable (DataOk mem flags dyntransData) :=
  inferInstanceAs (Decidable (_ ∧ _ ∧ _))

/-- `last_accessed_device` is the index of `d`. -/
def Designates (mem : Memory) (d : MemoryDevice) : Prop :=
  mem.lastAccessedDevice < mem.nMmappedDevices ∧ mem.devices mem.lastAccessedDevice = d

/-- What memory_device_register() fills in. -/
def newDevice (baseaddr len : Addr) (f extra flags dyntransData : Nat) : MemoryDevice :=
  ⟨baseaddr, baseaddr + len, len, flags, dyntransData, 0xffffffffffffffff#64, 0, f, extra⟩

section
variable {mem mem' : Memory} {baseaddr len : Addr} {newi : Nat} {d : MemoryDevice} {f extra flags dyntransData : Nat}

theorem not_overlaps {baseaddr endaddr : Addr} :
    ¬ Overlaps d baseaddr endaddr ↔ endaddr ≤ d.baseaddr ∨ d.endaddr ≤ baseaddr := by
  unfold Overlaps
  rw [not_and_or, BitVec.not_lt, BitVec.not_lt]
  exact or_comm

/-! ## The index -/

structure Place (mem : Memory) (baseaddr : Addr) (newi : Nat) : Prop where
  le : newi ≤ mem.nMmappedDevices
  before : ∀ j, j < newi → (mem.devices j).baseaddr ≤ baseaddr
  after : ∀ j, newi ≤ j → j < mem.nMmappedDevices → baseaddr ≤ (mem.devices j).baseaddr

/-- Round `i` of the loop does not take an index for a range from `baseaddr` to `endaddr`. -/
structure Skips (mem : Memory) (baseaddr endaddr : Addr) (i : Nat) : Prop where
  first : i = 0 → ¬ endaddr ≤ (mem.devices i).baseaddr
  between : 0 < i → endaddr ≤ (mem.devices i).baseaddr → ¬ (mem.devices (i - 1)).endaddr ≤ baseaddr
  last : i + 1 = mem.nMmappedDevices → ¬ (mem.devices i).endaddr ≤ baseaddr

theorem findIndexStep_error {newi : Option Nat} {i : Nat} (h : Overlaps (mem.devices i) baseaddr (baseaddr + len)) :
    mem.findIndexStep baseaddr len newi i = .error .deviceCollides := by
  unfold findIndexStep
  rw [if_neg (BitVec.not_le.mpr h.2), if_neg (BitVec.not_le.mpr h.1)]

theorem findIndexStep_ok {newi : Option Nat} {i : Nat} (h : ¬ Overlaps (mem.devices i) baseaddr (baseaddr + len)) :
    ∃ newi', mem.findIndexStep baseaddr len newi i = .ok newi' := by
  unfold findIndexStep
  rcases not_overlaps.mp h with hb | ha
  · exact ⟨_, if_pos hb⟩
  · dsimp only
    rw [if_pos ha, ite_self]
    exact ⟨_, rfl⟩

theorem Table.base_mono (h : Table mem) {i j : Nat} (hij : i ≤ j) (hj : j < mem.nMmappedDevices) :
    (mem.devices i).baseaddr ≤ (mem.devices j).baseaddr := by
  rcases Nat.eq_or_lt_of_le hij with rfl | hlt
  · exact BitVec.le_refl _
  · exact h.sorted i j hlt hj

theorem findIndexStep_place (h : Table mem) (hend : baseaddr ≤ baseaddr + len) {newi newi' : Option Nat} {i : Nat}
    (hi : i < mem.nMmappedDevices) (hs : mem.findIndexStep baseaddr len newi i = .ok newi') :
    (∃ k, newi' = some k ∧ Place mem baseaddr k) ∨ (newi' = newi ∧ Skips mem baseaddr (baseaddr + len) i) := by
  unfold findIndexStep at hs
  dsimp only at hs
  obtain rfl : newi' = _ := by
    split at hs
    · exact (Except.ok.inj hs).symm
    · split at hs
      · exact (Except.ok.inj hs).symm
      · cases hs
  have hafter : baseaddr + len ≤ (mem.devices i).baseaddr →
      ∀ j, i ≤ j → j < mem.nMmappedDevices → baseaddr ≤ (mem.devices j).baseaddr := by
    intro he j hij hj
    have hmono := h.base_mono hij hj
    bv_omega
  have hbefore : ∀ k, k < mem.nMmappedDevices → (mem.devices k).endaddr ≤ baseaddr →
      ∀ j, j ≤ k → (mem.devices j).baseaddr ≤ baseaddr := by
    intro k hk he j hjk
    have hmono := h.base_mono hjk hk
    have hord := h.ordered k hk
    bv_omega
  by_cases hlast : i + 1 = mem.nMmappedDevices ∧ (mem.devices i).endaddr ≤ baseaddr
  · rw [if_pos hlast]
    exact .inl ⟨i + 1, rfl, by omega, fun j hj => hbefore i hi hlast.2 j (by omega), fun j _ _ => by omega⟩
  · rw [if_neg hlast]
    by_cases hmid : 0 < i ∧ baseaddr + len ≤ (mem.devices i).baseaddr ∧ (mem.devices (i - 1)).endaddr ≤ baseaddr
    · rw [if_pos hmid]
      exact .inl ⟨i, rfl, hi.le, fun j hj => hbefore (i - 1) (by omega) hmid.2.2 j (by omega), hafter hmid.2.1⟩
    · rw [if_neg hmid]
      by_cases hfirst : i = 0 ∧ baseaddr + len ≤ (mem.devices i).baseaddr
      · rw [if_pos hfirst]
        exact .inl ⟨i, rfl, hi.le, fun j _ => by omega, hafter hfirst.2⟩
      · rw [if_neg hfirst]
        exact .inr ⟨rfl, fun h0 he => hfirst ⟨h0, he⟩, fun h0 he hb => hmid ⟨h0, he, hb⟩, fun hn he => hlast ⟨hn, he⟩⟩

theorem findIndexLoop_ok (h : Table mem) (hend : baseaddr ≤ baseaddr + len) (hno : ¬ Collides mem baseaddr len) :
    ∀ n, n ≤ mem.nMmappedDevices → ∃ r, (List.range n).foldlM (mem.findIndexStep baseaddr len) none = .ok r ∧
      ((∃ k, r = some k ∧ Place mem baseaddr k) ∨
        (r = none ∧ ∀ i, i < n → Skips mem baseaddr (baseaddr + len) i)) := by
  intro n
  induction n with
  | zero => exact fun _ => ⟨none, rfl, .inr ⟨rfl, fun i hi => absurd hi (Nat.not_lt_zero i)⟩⟩
  | succ n ih =>
    intro hn
    obtain ⟨r, hr, hcase⟩ := ih (by omega)
    obtain ⟨r', hr'⟩ := @findIndexStep_ok mem baseaddr len r n fun ho => hno ⟨n, hn, ho⟩
    refine ⟨r', ?_, ?_⟩
    · rw [List.range_succ, List.foldlM_append, hr]
      show (mem.findIndexStep baseaddr len r n >>= pure) = _
      rw [hr']
      rfl
    · rcases findIndexStep_place h hend hn hr' with hplace | ⟨rfl, hskip⟩
      · exact .inl hplace
      · refine hcase.imp id fun ⟨hnone, hall⟩ => ⟨hnone, fun i hi => ?_⟩
        rcases Nat.lt_succ_iff_lt_or_eq.mp hi with hlt | rfl
        · exact hall i hlt
        · exact hskip

theorem exists_not_skips (hno : ¬ Collides mem baseaddr len) (hn : 0 < mem.nMmappedDevices) :
    ∃ i, i < mem.nMmappedDevices ∧ ¬ Skips mem baseaddr (baseaddr + len) i := by
  by_contra hall
  push Not at hall
  have hclear : ∀ i, i < mem.nMmappedDevices →
      baseaddr + len ≤ (mem.devices i).baseaddr ∨ (mem.devices i).endaddr ≤ baseaddr :=
    fun i hi => not_overlaps.mp fun ho => hno ⟨i, hi, ho⟩
  have hnever : ∀ i, i < mem.nMmappedDevices → ¬ baseaddr + len ≤ (mem.devices i).baseaddr := by
    intro i
    induction i with
    | zero => exact fun hi => (hall 0 hi).first rfl
    | succ i ih =>
      intro hi he
      have hi' : i < mem.nMmappedDevices := by omega
      exact (hall (i + 1) hi).between (by omega) he ((hclear i hi').resolve_left (ih hi'))
  have hlt : mem.nMmappedDevices - 1 < mem.nMmappedDevices := by omega
  exact (hall _ hlt).last (by omega) ((hclear _ hlt).resolve_left (hnever _ hlt))

theorem findIndex_ok (h : Table mem) (hend : baseaddr ≤ baseaddr + len) (hno : ¬ Collides mem baseaddr len) :
    ∃ newi, mem.findIndex baseaddr len = .ok newi ∧ Place mem baseaddr newi := by
  obtain ⟨r, hr, hcase⟩ := findIndexLoop_ok h hend hno _ (Nat.le_refl _)
  unfold findIndex
  rw [hr]
  by_cases hn : mem.nMmappedDevices = 0
  · refine ⟨0, ?_, by omega, fun j _ => by omega, fun j _ _ => by omega⟩
    simp only [hn, if_true]
    rfl
  · obtain ⟨k, rfl, hplace⟩ := hcase.resolve_right fun ⟨_, hall⟩ => by
      obtain ⟨i, hi, hskip⟩ := exists_not_skips hno (Nat.pos_of_ne_zero hn)
      exact hskip (hall i hi)
    refine ⟨k, ?_, hplace⟩
    simp only [hn, if_false]
    rfl

theorem findIndexLoop_error : ∀ (l : List Nat) (r : Option Nat),
    (∃ i ∈ l, Overlaps (mem.devices i) baseaddr (baseaddr + len)) →
      l.foldlM (mem.findIndexStep baseaddr len) r = .error .deviceCollides
  | [], _, ⟨i, hi, _⟩ => by cases hi
  | k :: l, r, ⟨i, hi, ho⟩ => by
    rw [List.foldlM_cons]
    by_cases hk : Overlaps (mem.devices k) baseaddr (baseaddr + len)
    · rw [findIndexStep_error hk]
      rfl
    · obtain ⟨r', hr'⟩ := @findIndexStep_ok mem baseaddr len r k hk
      rw [hr']
      rcases List.mem_cons.mp hi with rfl | hi
      · exact absurd ho hk
      · exact findIndexLoop_error l r' ⟨i, hi, ho⟩

theorem findIndex_error (hc : Collides mem baseaddr len) : mem.findIndex baseaddr len = .error .deviceCollides := by
  obtain ⟨i, hi, ho⟩ := hc
  unfold findIndex
  rw [findIndexLoop_error _ none ⟨i, List.mem_range.mpr hi, ho⟩]
  rfl

/-! ## The new table -/

theorem insertAt_lt {j : Nat} (hj : j < newi) : mem.insertAt newi d j = mem.devices j := if_pos hj

theorem insertAt_self : mem.insertAt newi d newi = d := by simp [Memory.insertAt]

theorem insertAt_gt {j : Nat} (hj : newi < j) (hjn : j ≤ mem.nMmappedDevices) :
    mem.insertAt newi d j = mem.devices (j - 1) := by
  unfold Memory.insertAt
  rw [if_neg (by omega), if_neg (by omega), if_pos hjn]

theorem perm_insertAt (hn : mem'.nMmappedDevices = mem.nMmappedDevices + 1) (hle : newi ≤ mem.nMmappedDevices)
    (hdev : mem'.devices = mem.insertAt newi d) : mem'.table.Perm (d :: mem.table) := by
  have hsplit : mem'.table = mem.table.take newi ++ d :: mem.table.drop newi := by
    refine List.ext_getElem ?_ fun i hi hi' => ?_
    · simp [table, hn]
      omega
    · simp only [table, List.length_map, List.length_range, hn] at hi
      have hget : ∀ (m : Memory) j (hj : j < m.table.length), m.table[j] = m.devices j := fun m j hj => by simp [table]
      rw [hget, hdev]
      have hlen : (mem.table.take newi).length = newi := by simp [table, hle]
      rcases Nat.lt_trichotomy i newi with hlt | rfl | hgt
      · rw [insertAt_lt hlt, List.getElem_append_left (by omega), List.getElem_take, hget]
      · rw [insertAt_self, List.getElem_append_right (by omega)]
        simp [hlen]
      · obtain ⟨k, rfl⟩ : ∃ k, i = newi + k + 1 := ⟨i - newi - 1, by omega⟩
        rw [insertAt_gt hgt (by omega), List.getElem_append_right (by omega)]
        have hk : newi + k + 1 - (mem.table.take newi).length = k + 1 := by omega
        simp only [hk, List.getElem_cons_succ, List.getElem_drop, hget]
        rfl
  rw [hsplit]
  have hold := @List.perm_middle _ d (mem.table.take newi) (mem.table.drop newi)
  rwa [List.take_append_drop] at hold

theorem insertAt_index (hle : newi ≤ mem.nMmappedDevices) {j : Nat} (hj : j < mem.nMmappedDevices + 1) : j = newi ∨
    ∃ i, i < mem.nMmappedDevices ∧ mem.insertAt newi d j = mem.devices i ∧
      ((j < newi ∧ i = j) ∨ (newi < j ∧ i + 1 = j)) := by
  rcases Nat.lt_trichotomy j newi with hlt | heq | hgt
  · exact .inr ⟨j, by omega, insertAt_lt hlt, .inl ⟨hlt, rfl⟩⟩
  · exact .inl heq
  · exact .inr ⟨j - 1, by omega, insertAt_gt hgt (by omega), .inr ⟨hgt, by omega⟩⟩

theorem Table.insertAt (h : Table mem) (hd : d.baseaddr ≤ d.endaddr) (hp : Place mem d.baseaddr newi)
    (hclear : ∀ i, i < mem.nMmappedDevices → ¬ Overlaps (mem.devices i) d.baseaddr d.endaddr) :
    (∀ i, i < mem.nMmappedDevices + 1 → (mem.insertAt newi d i).baseaddr ≤ (mem.insertAt newi d i).endaddr) ∧
    (∀ i j, i < j → j < mem.nMmappedDevices + 1 →
      (mem.insertAt newi d i).baseaddr ≤ (mem.insertAt newi d j).baseaddr) ∧
    (∀ i j, i < j → j < mem.nMmappedDevices + 1 →
      (mem.insertAt newi d i).endaddr ≤ (mem.insertAt newi d j).baseaddr ∨
        (mem.insertAt newi d j).endaddr ≤ (mem.insertAt newi d i).baseaddr) := by
  refine ⟨fun j hj => ?_, fun i j hij hj => ?_, fun i j hij hj => ?_⟩
  · rcases insertAt_index hp.le hj with rfl | ⟨k, hk, hdev, -⟩
    · rwa [insertAt_self]
    · rw [hdev]
      exact h.ordered k hk
  · rcases @insertAt_index mem newi d hp.le i (by omega) with rfl | ⟨k, hk, hi, hki⟩
    · obtain hji | ⟨l, hl, hj', hlj⟩ := @insertAt_index mem i d hp.le j hj
      · omega
      · rw [insertAt_self, hj']
        exact hp.after l (by omega) hl
    · obtain rfl | ⟨l, hl, hj', hlj⟩ := @insertAt_index mem newi d hp.le j hj
      · rw [insertAt_self, hi]
        exact hp.before k (by omega)
      · rw [hi, hj']
        exact h.sorted k l (by omega) hl
  · rcases @insertAt_index mem newi d hp.le i (by omega) with rfl | ⟨k, hk, hi, hki⟩
    · obtain hji | ⟨l, hl, hj', hlj⟩ := @insertAt_index mem i d hp.le j hj
      · omega
      · rw [insertAt_self, hj']
        exact not_overlaps.mp (hclear l hl)
    · obtain rfl | ⟨l, hl, hj', hlj⟩ := @insertAt_index mem newi d hp.le j hj
      · rw [insertAt_self, hi]
        exact (not_overlaps.mp (hclear k hk)).symm
      · rw [hi, hj']
        exact h.apart k l (by omega) hl

/-! ## Registering -/

theorem deviceRegister_error {e : Exit} (hf : mem.findIndex baseaddr len = .error e) :
    mem.deviceRegister baseaddr len f extra flags dyntransData = .error e := by
  unfold deviceRegister
  rw [hf]
  rfl

theorem deviceRegister_found (hf : mem.findIndex baseaddr len = .ok newi) :
    (DataOk mem flags dyntransData ∧ ∃ mem', mem.deviceRegister baseaddr len f extra flags dyntransData = .ok mem') ∨
    (¬ DataOk mem flags dyntransData ∧ ∃ e, mem.deviceRegister baseaddr len f extra flags dyntransData = .error e ∧
      e ≠ .deviceCollides ∧ e ≠ .deviceInternalError) := by
  unfold deviceRegister DataOk
  rw [hf]
  dsimp only [bind, Except.bind]
  by_cases hused : mem.dataReused flags dyntransData = true
  · rw [if_pos hused]
    exact .inr ⟨fun h => Bool.false_ne_true (h.1.symm.trans hused), _, rfl, by decide, by decide⟩
  · rw [if_neg hused]
    by_cases hnull : (hasFlag flags (dmDyntransOk ||| dmDyntransWriteOk) && !hasFlag flags dmEmulatedRam &&
        dyntransData == 0) = true
    · rw [if_pos hnull]
      exact .inr ⟨fun h => h.2.1 hnull, _, rfl, by decide, by decide⟩
    · rw [if_neg hnull]
      by_cases halign : dyntransData % 8 ≠ 0
      · rw [if_pos halign]
        exact .inr ⟨fun h => halign h.2.2, _, rfl, by decide, by decide⟩
      · rw [if_neg halign]
        exact .inl ⟨⟨Bool.not_eq_true _ ▸ hused, hnull, not_not.mp halign⟩, _, rfl⟩

theorem Table.registered (h : Table mem) (hlen : baseaddr.toNat + len.toNat ≤ 2 ^ 64 - 4096)
    (hno : ¬ Collides mem baseaddr len)
    (hr : mem.deviceRegister baseaddr len f extra flags dyntransData = .ok mem') :
    mem'.Table ∧ mem'.table.Perm (newDevice baseaddr len f extra flags dyntransData :: mem.table) ∧
      (mem.lastAccessedDevice = 0 ∨ mem.lastAccessedDevice < mem.nMmappedDevices →
        mem'.lastAccessedDevice < mem'.nMmappedDevices) ∧
      (∀ d, mem.Designates d → mem'.Designates d ∨
        mem'.Designates (newDevice baseaddr len f extra flags dyntransData)) := by
  have hend : baseaddr ≤ baseaddr + len ∧ baseaddr + len ≤ 0xfffffffffffff000#64 := by bv_omega
  obtain ⟨newi, hnewi, hn, hdev, hmin, hmax, hlast⟩ := deviceRegister_eq hr
  obtain ⟨k, hk, hplace⟩ := findIndex_ok h hend.1 hno
  rw [hnewi] at hk
  cases hk
  change mem'.devices = mem.insertAt newi (newDevice baseaddr len f extra flags dyntransData) at hdev
  generalize hd : newDevice baseaddr len f extra flags dyntransData = d at hdev ⊢
  have hbase : d.baseaddr = baseaddr := by rw [← hd]; rfl
  have hendaddr : d.endaddr = baseaddr + len := by rw [← hd]; rfl
  have hle := hplace.le
  rw [← hbase] at hplace
  obtain ⟨hord, hsorted, hap⟩ := h.insertAt (by rw [hbase, hendaddr]; exact hend.1) hplace fun i hi ho => by
    rw [hbase, hendaddr] at ho
    exact hno ⟨i, hi, ho⟩
  have hmin' : mem'.mmapDevMinaddr ≤ baseaddr ∧ mem'.mmapDevMinaddr ≤ mem.mmapDevMinaddr := by
    have := roundDown_le baseaddr
    rw [hmin]
    split <;> constructor <;> bv_omega
  have hmax' : baseaddr + len ≤ mem'.mmapDevMaxaddr ∧ mem.mmapDevMaxaddr ≤ mem'.mmapDevMaxaddr := by
    rw [hmax]
    split
    · have := @le_roundUp (baseaddr + len) (by bv_omega) hend.2
      constructor <;> bv_omega
    · constructor <;> bv_omega
  refine ⟨⟨by rwa [hn, hdev], by rwa [hn, hdev], by rwa [hn, hdev], fun j hj => ?_⟩, perm_insertAt hn hle hdev, ?_, ?_⟩
  · rw [hn] at hj
    rw [hdev]
    rcases @insertAt_index mem newi d hle j hj with rfl | ⟨i, hi, hj', -⟩
    · rw [insertAt_self, hbase, hendaddr]
      exact ⟨hmin'.1, hmax'.1⟩
    · have hold := h.within i hi
      rw [hj']
      constructor <;> bv_omega
  · intro hhint
    rw [hn, hlast]
    split <;> omega
  · rintro _ ⟨hlt, rfl⟩
    unfold Designates
    rw [hn, hdev, hlast]
    by_cases hnew : newi < mem.lastAccessedDevice
    · rw [if_pos hnew]
      refine .inl ⟨by omega, ?_⟩
      rw [insertAt_gt (by omega) (by omega)]
      rfl
    · rw [if_neg hnew]
      rcases Nat.lt_or_eq_of_le (Nat.le_of_not_lt hnew) with hbelow | heq
      · exact .inl ⟨by omega, insertAt_lt hbelow⟩
      · refine .inr ⟨by omega, ?_⟩
        rw [heq, insertAt_self]

/-- memory_device_register(): a collision is reported exactly when there is one, an index is always found, and the
table has the new device in it when its data are accepted. -/
theorem deviceRegister_table (h : Table mem) (hlen : baseaddr.toNat + len.toNat ≤ 2 ^ 64 - 4096) :
    (mem.deviceRegister baseaddr len f extra flags dyntransData = .error .deviceCollides ↔ Collides mem baseaddr len) ∧
    mem.deviceRegister baseaddr len f extra flags dyntransData ≠ .error .deviceInternalError ∧
    (¬ Collides mem baseaddr len → DataOk mem flags dyntransData →
      ∃ mem', mem.deviceRegister baseaddr len f extra flags dyntransData = .ok mem') ∧
    ∀ mem', mem.deviceRegister baseaddr len f extra flags dyntransData = .ok mem' →
      DataOk mem flags dyntransData ∧ mem'.Table ∧
      mem'.table.Perm (newDevice baseaddr len f extra flags dyntransData :: mem.table) ∧
      (mem.lastAccessedDevice = 0 ∨ mem.lastAccessedDevice < mem.nMmappedDevices →
        mem'.lastAccessedDevice < mem'.nMmappedDevices) ∧
      (∀ d, mem.Designates d → mem'.Designates d ∨
        mem'.Designates (newDevice baseaddr len f extra flags dyntransData)) := by
  by_cases hc : Collides mem baseaddr len
  · have herr := @deviceRegister_error mem baseaddr len f extra flags dyntransData _ (findIndex_error hc)
    rw [herr]
    exact ⟨iff_of_true rfl hc, by simp, fun hno => absurd hc hno, fun _ hr => nomatch hr⟩
  · have hend : baseaddr ≤ baseaddr + len := by bv_omega
    obtain ⟨newi, hf, -⟩ := findIndex_ok h hend hc
    rcases @deviceRegister_found mem baseaddr len newi f extra flags dyntransData hf with
      ⟨hok, mem', hr⟩ | ⟨hbad, e, hr, hne, hne'⟩
    · refine ⟨⟨fun he => ?_, fun h' => absurd h' hc⟩, fun he => ?_, fun _ _ => ⟨mem', hr⟩, fun mem'' hr' => ?_⟩
      · rw [hr] at he
        cases he
      · rw [hr] at he
        cases he
      · exact ⟨hok, h.registered hlen hc hr'⟩
    · rw [hr]
      exact ⟨⟨fun he => absurd (Except.error.inj he) hne, fun h' => absurd h' hc⟩,
        fun he => hne' (Except.error.inj he), fun _ hok => absurd hok hbad, fun _ hr' => nomatch hr'⟩

theorem table_init : Table init :=
  ⟨fun i hi => absurd hi (Nat.not_lt_zero i), fun _ j _ hj => absurd hj (Nat.not_lt_zero j),
    fun _ j _ hj => absurd hj (Nat.not_lt_zero j), fun i hi => absurd hi (Nat.not_lt_zero i)⟩

/-- A device in the first page, with data at 8. -/
theorem deviceRegister_table_first : ∃ mem', init.deviceRegister 0 4096 1 0 dmDyntransOk 8 = .ok mem' ∧ mem'.Table ∧
    mem'.table.Perm [newDevice 0 4096 1 0 dmDyntransOk 8] := by
  obtain ⟨-, -, hok, hall⟩ := @deviceRegister_table init 0 4096 1 0 dmDyntransOk 8 table_init (by decide)
  obtain ⟨mem', hr⟩ := hok (by rintro ⟨i, hi, -⟩; exact absurd hi (Nat.not_lt_zero i)) (by decide)
  obtain ⟨-, htable, hperm, -⟩ := hall mem' hr
  exact ⟨mem', hr, htable, hperm⟩

/-- A device for dyntrans accesses, without data. -/
theorem deviceRegister_table_noData : ¬ Collides init 0 4096 ∧
    init.deviceRegister 0 4096 1 0 dmDyntransOk 0 = .error .dyntransDataNull := by
  refine ⟨?_, rfl⟩
  rintro ⟨i, hi, -⟩
  exact absurd hi (Nat.not_lt_zero i)

end

end Memory

end Gxemul
