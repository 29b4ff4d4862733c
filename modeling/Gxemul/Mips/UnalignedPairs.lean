import Gxemul.Mips.LoadStoreAgree
import Gxemul.Mips.TlbWrite
import Gxemul.Mips.Loads

/- The two instructions for an unaligned word in RAM: what both transfer together. -/
namespace Gxemul.Mips

open Lib

/-! ## Accesses to RAM -/

namespace MipsCpu
variable {t : CpuType} {cacheSize : Nat} {s : MipsCpu} {io : Io} {a : Access} {p : Nat}

/-- An access is to RAM that is at `p` in the host. -/
def RamAccess (t : CpuType) (s : MipsCpu) (io : Io) (a : Access) (p : Nat) : Prop :=
  ∃ paddr writable memblock, s.accessV2p t a = .ok (.ok paddr writable) ∧ s.mem.deviceFor paddr = none ∧
    (s.accessEnv t io.env paddr writable).servedByCache a = false ∧
    (s.accessEnv t io.env paddr writable).outsideRam paddr = false ∧
    (s.accessEnv t io.env paddr writable).hostaddr (Arch.mips.pageAddr paddr) a.write = some memblock ∧
    paddr.toNat % memblockSize + a.len ≤ memblockSize ∧
    (t.mode = .mode32 → Arch.mips.pageAddr paddr ≤ 0xffffffff#64) ∧
    p = memblock + (paddr &&& Arch.mips.offsetMask).toNat

theorem RamAccess.unique {p' : Nat} (h : s.RamAccess t io a p) (h' : s.RamAccess t io a p') : p = p' := by
  obtain ⟨paddr, writable, memblock, hv, -, -, -, hm, -, -, rfl⟩ := h
  obtain ⟨paddr', writable', memblock', hv', -, -, -, hm', -, -, rfl⟩ := h'
  cases hv.symm.trans hv'
  cases hm.symm.trans hm'
  rfl

theorem RamAccess.congr {s' : MipsCpu} (h : s.RamAccess t io a p) (hmmu : s'.mmu = s.mmu) (hmem : s'.mem = s.mem) :
    s'.RamAccess t io a p := by
  unfold RamAccess accessV2p accessEnv at h ⊢
  rw [hmmu, hmem]
  exact h

theorem memoryRw_ram (hready : s.TablesReady t) (h : s.RamAccess t io a p) :
    ∃ dyn, TablesReady t { s with dyn := dyn } ∧ ∀ host data, data.length = a.len →
      s.memoryRw t cacheSize io a host data = .ok ({ s with dyn := dyn }, a.copy p host data, true) := by
  obtain ⟨paddr, writable, memblock, hv, hd, hc, ho, hm, hblock, hbelow, hptr⟩ := h
  have hp := @physicalAddress_of_accessV2p t s io a paddr writable hv
  have hfit : s.dyn.tables.mode = .mode32 → Arch.mips.pageAddr paddr ≤ 0xffffffff#64 :=
    fun h32 => hbelow (hready.mode.symm.trans h32)
  obtain ⟨dyn, hrw⟩ := @Cpu.memoryRw_ram (t.conf cacheSize) (s.accessEnv t io.env paddr writable) a s.mem s.dyn paddr _
    memblock hready.good hfit hp hd hc ho hm hblock
  have hacc := @Cpu.accesses_ram (t.conf cacheSize) (s.accessEnv t io.env paddr writable) io.dev a s.mem paddr _
    memblock hp hd hc ho hm
  obtain ⟨⟨hgood, hmode⟩, -⟩ := @Cpu.memoryRw_spec (t.conf cacheSize) (s.accessEnv t io.env paddr writable) a s.dyn dyn
    s.mem s.mem true hready.good hrw
  refine ⟨dyn, ⟨hgood, hmode.trans hready.mode⟩, fun host data hlen => ?_⟩
  have hcopy := hacc host data hlen
  rw [hptr]
  unfold memoryRw
  rw [hv]
  show s.accessPaddr t cacheSize io a paddr writable host data = _
  unfold accessPaddr
  rw [hrw, hcopy]
  rfl

end MipsCpu

/-! ## The loop -/

namespace Wlen
variable (w : Wlen)

theorem toNat_cases : w.toNat = 4 ∨ w.toNat = 8 := by
  cases w
  · exact Or.inl rfl
  · exact Or.inr rfl

theorem toNat_and_mask (x : Addr) : (x &&& w.mask).toNat = x.toNat % w.toNat := by
  rw [BitVec.toNat_and]
  cases w
  · exact Nat.and_two_pow_sub_one_eq_mod x.toNat 2
  · exact Nat.and_two_pow_sub_one_eq_mod x.toNat 3

theorem same_iff (x y : Addr) : x &&& ~~~ w.mask = y &&& ~~~ w.mask ↔ x.toNat / w.toNat = y.toNat / w.toNat := by
  have hshift : ∀ k, x >>> k = y >>> k ↔ x.toNat / 2 ^ k = y.toNat / 2 ^ k := by
    intro k
    rw [← BitVec.toNat_inj, BitVec.toNat_ushiftRight, BitVec.toNat_ushiftRight, Nat.shiftRight_eq_div_pow,
      Nat.shiftRight_eq_div_pow]
  cases w
  · exact (ushiftRight_eq_iff x y 2).symm.trans (hshift 2)
  · exact (ushiftRight_eq_iff x y 3).symm.trans (hshift 3)

end Wlen

theorem unalignedLoop_eq {α : Type} {transfer : α → Nat → Nat → α} {w : Wlen} {addr : Addr} {dir regDir regOfs : Int}
    {c : Nat → Bool} {o r : Nat → Nat}
    (hsame : ∀ i < w.toNat, (addr + BitVec.ofInt 64 (i * dir)) &&& ~~~ w.mask = addr &&& ~~~ w.mask ↔ c i = true)
    (hofs : ∀ i < w.toNat, c i = true → ((addr + BitVec.ofInt 64 (i * dir)) &&& w.mask).toNat = o i)
    (hreg : ∀ i < w.toNat, (regOfs + i * regDir).toNat = r i)
    (hstop : ∀ i, c (i + 1) = true → c i = true) (x : α) :
    unalignedLoop transfer w addr dir regDir w.toNat 0 regOfs x =
      (List.range w.toNat).foldl (fun x i => if c i then transfer x (o i) (r i) else x) x := by
  have hrest : ∀ (n i : Nat), c i = false → ∀ x : α,
      (List.range' i n).foldl (fun x i => if c i then transfer x (o i) (r i) else x) x = x := by
    intro n
    induction n with
    | zero => exact fun _ _ _ => rfl
    | succ n ih =>
      intro i hi x
      have hi' : c (i + 1) = false := by
        cases hc : c (i + 1) with
        | false => rfl
        | true => exact absurd (hstop i hc) (by rw [hi]; exact Bool.false_ne_true)
      rw [List.range'_succ, List.foldl_cons, hi, if_neg Bool.false_ne_true]
      exact ih (i + 1) hi' x
  have hloop : ∀ (n i : Nat), i + n = w.toNat → ∀ x : α,
      unalignedLoop transfer w addr dir regDir n i (regOfs + i * regDir) x =
        (List.range' i n).foldl (fun x i => if c i then transfer x (o i) (r i) else x) x := by
    intro n
    induction n with
    | zero => exact fun _ _ _ => rfl
    | succ n ih =>
      intro i hi x
      have hlt : i < w.toNat := by omega
      rw [unalignedLoop]
      cases hc : c i with
      | false =>
        have hne : ¬ (addr + BitVec.ofInt 64 (i * dir)) &&& ~~~ w.mask = addr &&& ~~~ w.mask := by
          rw [hsame i hlt, hc]
          exact Bool.false_ne_true
        rw [if_pos hne]
        exact (hrest (n + 1) i hc x).symm
      | true =>
        rw [if_neg (not_not.mpr ((hsame i hlt).mpr hc)), hofs i hlt hc, hreg i hlt, List.range'_succ, List.foldl_cons,
          if_pos hc, ← ih (i + 1) (by omega)]
        congr 1
        push_cast
        ring
  have h0 := hloop w.toNat 0 (by omega) x
  rw [List.range_eq_range']
  simpa using h0

/-! ## One instruction -/

/-- The byte of the register for byte `i` in memory. -/
def regByte (big : Bool) (n i : Nat) : Nat := if big then n - 1 - i else i

/-- An instruction transfers byte `i` of those in memory, where `k` is the offset in the aligned word of the end that
the instruction is for. -/
def transfers (isLeft big : Bool) (n k i : Nat) : Bool := if isLeft = big then k + i < n else n ≤ k + i + 1

/-- The offset in the aligned word of byte `i`. -/
def transferOfs (isLeft big : Bool) (n k i : Nat) : Nat := if isLeft = big then k + i else k + i + 1 - n

/-- Byte `i` of those in memory is transferred in this iteration. -/
def iteration (isLeft big : Bool) (n i : Nat) : Nat := if isLeft = big then i else n - 1 - i

section
variable {α : Type} {transfer : α → Nat → Nat → α} {w : Wlen} {addr : Addr} {isLeft big : Bool}

theorem toNat_add_ofInt (x : Addr) (i : Nat) (hi : i < 8) :
    (x + BitVec.ofInt 64 (i * 1)).toNat = (x.toNat + i) % 2 ^ 64 ∧
    (x + BitVec.ofInt 64 (i * -1)).toNat = (x.toNat + (2 ^ 64 - i)) % 2 ^ 64 := by
  have hup : ∀ i < 8, (BitVec.ofInt 64 ((i : Nat) * 1)).toNat = i := by decide
  have hdown : ∀ i < 8, (BitVec.ofInt 64 ((i : Nat) * -1)).toNat % 2 ^ 64 = (2 ^ 64 - i) % 2 ^ 64 := by decide
  constructor
  · rw [BitVec.toNat_add, hup i hi]
  · rw [BitVec.toNat_add, Nat.add_mod, hdown i hi, ← Nat.add_mod]

theorem unalignedLoop_transfers (x : α) :
    unalignedLoop transfer w addr (unalignedDir isLeft big) (unalignedRegDir isLeft) w.toNat 0 (unalignedRegOfs isLeft w)
        x =
      (List.range w.toNat).foldl (fun x i =>
        if transfers isLeft big w.toNat (addr.toNat % w.toNat) (iteration isLeft big w.toNat i) then
          transfer x (transferOfs isLeft big w.toNat (addr.toNat % w.toNat) (iteration isLeft big w.toNat i))
            (regByte big w.toNat (iteration isLeft big w.toNat i))
        else x) x := by
  have hn := w.toNat_cases
  have hdir : unalignedDir isLeft big = if isLeft = big then 1 else -1 := by
    cases isLeft <;> cases big <;> rfl
  apply unalignedLoop_eq
  · intro i hi
    obtain ⟨hup, hdown⟩ := toNat_add_ofInt addr i (by omega)
    rw [w.same_iff, hdir]
    unfold transfers iteration
    split
    · rw [hup]
      simp only [decide_eq_true_eq]
      obtain hn | hn := hn <;> rw [hn] at hi ⊢ <;> omega
    · rw [hdown]
      simp only [decide_eq_true_eq]
      obtain hn | hn := hn <;> rw [hn] at hi ⊢ <;> omega
  · intro i hi hc
    obtain ⟨hup, hdown⟩ := toNat_add_ofInt addr i (by omega)
    rw [w.toNat_and_mask, hdir]
    unfold transfers iteration at hc
    unfold transferOfs iteration
    split
    · rename_i hend
      rw [if_pos hend, if_pos hend] at hc
      rw [hup]
      simp only [decide_eq_true_eq] at hc
      obtain hn | hn := hn <;> rw [hn] at hi hc ⊢ <;> omega
    · rename_i hend
      rw [if_neg hend, if_neg hend] at hc
      rw [hdown]
      simp only [decide_eq_true_eq] at hc
      obtain hn | hn := hn <;> rw [hn] at hi hc ⊢ <;> omega
  · intro i hi
    unfold unalignedRegOfs unalignedRegDir regByte iteration
    cases isLeft <;> cases big <;> simp <;> omega
  · intro i hc
    unfold transfers iteration at hc ⊢
    split
    · rename_i hend
      rw [if_pos hend, if_pos hend] at hc
      simp only [decide_eq_true_eq] at hc ⊢
      omega
    · rename_i hend
      rw [if_neg hend, if_neg hend] at hc
      simp only [decide_eq_true_eq] at hc ⊢
      omega

theorem regByte_lt {n i : Nat} (hi : i < n) : regByte big n i < n := by
  unfold regByte
  split <;> omega

theorem regByte_inj {n i j : Nat} (hi : i < n) (hj : j < n) (h : regByte big n i = regByte big n j) : i = j := by
  unfold regByte at h
  split at h <;> omega

theorem iteration_lt {n i : Nat} (hi : i < n) : iteration isLeft big n i < n := by
  unfold iteration
  split <;> omega

theorem iteration_iteration (isLeft big : Bool) {n i : Nat} (hi : i < n) : iteration isLeft big n (iteration isLeft big n i) = i := by
  unfold iteration
  split <;> omega

theorem loadLoop_byte (alignedWord : List Byte) (x : Reg) {i : Nat} (hi : i < w.toNat) :
    byteOf (unalignedLoop (loadByte alignedWord) w addr (unalignedDir isLeft big) (unalignedRegDir isLeft) w.toNat 0
        (unalignedRegOfs isLeft w) x) (regByte big w.toNat i) =
      if transfers isLeft big w.toNat (addr.toNat % w.toNat) i then
        alignedWord.getD (transferOfs isLeft big w.toNat (addr.toNat % w.toNat) i) 0
      else byteOf x (regByte big w.toNat i) := by
  have hn := w.toNat_cases
  rw [unalignedLoop_transfers]
  obtain ⟨-, hputs, hkeep⟩ := get_foldl_put (I := fun _ : Reg => True) byteOf setByte (m := 8) (n := w.toNat)
    (fun _ _ _ _ => trivial) (fun x i b j _ hj => byteOf_setByte x i b (by omega))
    (c := fun i => transfers isLeft big w.toNat (addr.toNat % w.toNat) (iteration isLeft big w.toNat i))
    (r := fun i => regByte big w.toNat (iteration isLeft big w.toNat i))
    (b := fun i => alignedWord.getD (transferOfs isLeft big w.toNat (addr.toNat % w.toNat)
      (iteration isLeft big w.toNat i)) 0)
    (by
      intro i hi j hj _ _ h
      have := regByte_inj (iteration_lt hi) (iteration_lt hj) h
      rw [← iteration_iteration isLeft big hi, this, iteration_iteration isLeft big hj]) (x := x) trivial
  have hreg := @regByte_lt big _ _ hi
  split
  · rename_i hc
    have h := hputs (iteration isLeft big w.toNat i) (iteration_lt hi)
    simp only [iteration_iteration isLeft big hi] at h
    exact h (by omega) hc
  · rename_i hc
    apply hkeep _ (by omega)
    intro i' hi' hc' h
    have := regByte_inj (iteration_lt hi') hi h
    rw [this] at hc'
    exact hc hc'

theorem storeByte_eq_set (value : Reg) (alignedWord : List Byte) (ofs regOfs : Nat) :
    storeByte value alignedWord ofs regOfs = alignedWord.set ofs (byteOf value regOfs) := by
  unfold storeByte byteOf
  congr 1
  apply BitVec.eq_of_getLsbD_eq
  intro k hk
  have h255 : ∀ k < 8, (255#64).getLsbD k = true := by decide
  rw [BitVec.getLsbD_setWidth, BitVec.getLsbD_and, h255 k hk, Bool.and_true, BitVec.getLsbD_setWidth]

theorem storeLoop_byte (value : Reg) {alignedWord : List Byte} (hlen : alignedWord.length = w.toNat) :
    (unalignedLoop (storeByte value) w addr (unalignedDir isLeft big) (unalignedRegDir isLeft) w.toNat 0
        (unalignedRegOfs isLeft w) alignedWord).length = w.toNat ∧
    (∀ i < w.toNat, transfers isLeft big w.toNat (addr.toNat % w.toNat) i = true →
      (unalignedLoop (storeByte value) w addr (unalignedDir isLeft big) (unalignedRegDir isLeft) w.toNat 0
        (unalignedRegOfs isLeft w) alignedWord).getD (transferOfs isLeft big w.toNat (addr.toNat % w.toNat) i) 0 =
        byteOf value (regByte big w.toNat i)) ∧
    ∀ o < w.toNat, (∀ i < w.toNat, transfers isLeft big w.toNat (addr.toNat % w.toNat) i = true →
        transferOfs isLeft big w.toNat (addr.toNat % w.toNat) i ≠ o) →
      (unalignedLoop (storeByte value) w addr (unalignedDir isLeft big) (unalignedRegDir isLeft) w.toNat 0
        (unalignedRegOfs isLeft w) alignedWord).getD o 0 = alignedWord.getD o 0 := by
  have hget : ∀ (l : List Byte) (i : Nat) (b : Byte) (j : Nat), l.length = w.toNat → j < w.toNat →
      (l.set i b).getD j 0 = if j = i then b else l.getD j 0 := by
    intro l i b j hl hj
    rw [List.getD_eq_getElem?_getD, List.getD_eq_getElem?_getD, List.getElem?_set]
    by_cases hij : j = i
    · subst hij
      rw [if_pos rfl, if_pos rfl, if_pos (by omega)]
      rfl
    · rw [if_neg (Ne.symm hij), if_neg hij]
  have hinj : ∀ i < w.toNat, ∀ j < w.toNat,
      transfers isLeft big w.toNat (addr.toNat % w.toNat) (iteration isLeft big w.toNat i) = true →
      transfers isLeft big w.toNat (addr.toNat % w.toNat) (iteration isLeft big w.toNat j) = true →
      transferOfs isLeft big w.toNat (addr.toNat % w.toNat) (iteration isLeft big w.toNat i) =
        transferOfs isLeft big w.toNat (addr.toNat % w.toNat) (iteration isLeft big w.toNat j) → i = j := by
    intro i hi j hj hci hcj h
    unfold transfers at hci hcj
    unfold transferOfs at h
    have hsame : iteration isLeft big w.toNat i = iteration isLeft big w.toNat j := by
      split at h
      · omega
      · rename_i hend
        rw [if_neg hend, decide_eq_true_eq] at hci hcj
        omega
    rw [← iteration_iteration isLeft big hi, hsame, iteration_iteration isLeft big hj]
  have hfold := get_foldl_put (I := fun l : List Byte => l.length = w.toNat) (fun l j => l.getD j 0) List.set
    (m := w.toNat) (n := w.toNat) (fun l i b hl => (List.length_set).trans hl) hget
    (c := fun i => transfers isLeft big w.toNat (addr.toNat % w.toNat) (iteration isLeft big w.toNat i))
    (r := fun i => transferOfs isLeft big w.toNat (addr.toNat % w.toNat) (iteration isLeft big w.toNat i))
    (b := fun i => byteOf value (regByte big w.toNat (iteration isLeft big w.toNat i))) hinj (x := alignedWord) hlen
  obtain ⟨hlength, hputs, hkeep⟩ := hfold
  have hloop := @unalignedLoop_transfers _ (storeByte value) w addr isLeft big alignedWord
  simp only [storeByte_eq_set] at hloop
  rw [hloop]
  refine ⟨hlength, ?_, ?_⟩
  · intro i hi hc
    have h := hputs (iteration isLeft big w.toNat i) (iteration_lt hi)
    simp only [iteration_iteration isLeft big hi] at h
    refine h ?_ hc
    unfold transfers at hc
    unfold transferOfs
    have hk : addr.toNat % w.toNat < w.toNat := Nat.mod_lt _ (by omega)
    split
    · rename_i hend
      rw [if_pos hend, decide_eq_true_eq] at hc
      exact hc
    · omega
  · intro o ho hnone
    apply hkeep o ho
    intro i hi hc
    exact hnone _ (iteration_lt hi) hc

end

/-! ## The bytes in memory -/

def wordAddr (w : Wlen) (x : Addr) : Addr := x &&& ~~~ w.mask

/-- The address of the last byte of those from `a` on. -/
def lastAddr (conf : LsConf) (w : Wlen) (a : Addr) : Addr :=
  let last := a + BitVec.ofNat 64 (w.toNat - 1)
  if conf.cpuType.is32bit then sext32 last else last

/-- The end of the bytes from `a` on that a left or right instruction is for. -/
def endAddr (conf : LsConf) (w : Wlen) (isLeft : Bool) (a : Addr) : Addr :=
  if isLeft = conf.big then a else lastAddr conf w a

/-- Where byte `i` of those from `a` on is in the host. The words that they begin and end in are at `p0` and `p1`. -/
def bytePtr (w : Wlen) (a : Addr) (p0 p1 i : Nat) : Nat :=
  if a.toNat % w.toNat + i < w.toNat then p0 + (a.toNat % w.toNat + i) else p1 + (a.toNat % w.toNat + i - w.toNat)

/-- The bytes from `a` on are in RAM that can be read, and written if `writable`. -/
structure UnalignedRam (conf : LsConf) (io : Bool → Io) (w : Wlen) (writable : Bool) (cpu : MipsCpu) (a : Addr) (p0 p1 : Nat) :
    Prop where
  ready : cpu.TablesReady conf.cpuType
  first : ∀ write, (write = true → writable = true) →
    cpu.RamAccess conf.cpuType (io write) ⟨wordAddr w a, w.toNat, write, cacheData⟩ p0
  last : ∀ write, (write = true → writable = true) →
    cpu.RamAccess conf.cpuType (io write) ⟨wordAddr w (lastAddr conf w a), w.toNat, write, cacheData⟩ p1
  -- they are in two words, at different places
  apart : a.toNat % w.toNat ≠ 0 → p0 + w.toNat ≤ p1 ∨ p1 + w.toNat ≤ p0

section
variable {conf : LsConf} {io : Bool → Io} {w : Wlen} {writable : Bool} {cpu cpu' : MipsCpu} {a : Addr} {p0 p1 : Nat}

theorem UnalignedRam.congr (h : UnalignedRam conf io w writable cpu a p0 p1) (hready : cpu'.TablesReady conf.cpuType)
    (hmmu : cpu'.mmu = cpu.mmu) (hmem : cpu'.mem = cpu.mem) : UnalignedRam conf io w writable cpu' a p0 p1 :=
  ⟨hready, fun write hw => (h.first write hw).congr hmmu hmem, fun write hw => (h.last write hw).congr hmmu hmem, h.apart⟩

theorem toNat_sext32_mod (x : Addr) : (sext32 x).toNat % w.toNat = x.toNat % w.toNat := by
  rw [← w.toNat_and_mask, ← w.toNat_and_mask, sext32_and]
  cases w <;> decide

theorem toNat_lastAddr_mod (conf : LsConf) (w : Wlen) (a : Addr) :
    (lastAddr conf w a).toNat % w.toNat = (a.toNat + (w.toNat - 1)) % w.toNat := by
  have hsum : (a + BitVec.ofNat 64 (w.toNat - 1)).toNat % w.toNat = (a.toNat + (w.toNat - 1)) % w.toNat := by
    rw [BitVec.toNat_add, BitVec.toNat_ofNat]
    cases w <;> simp only [Wlen.toNat] <;> omega
  unfold lastAddr
  split
  · rw [toNat_sext32_mod, hsum]
  · exact hsum

theorem sext32_wordAddr (x : Addr) : sext32 (x &&& ~~~ w.mask) = sext32 x &&& ~~~ w.mask := by
  have hmask : w.mask.getLsbD 31 = false ∧ ∀ i, 32 ≤ i → w.mask.getLsbD i = false := by
    have hlt : w.mask.toNat < 2 ^ 31 := by cases w <;> decide
    refine ⟨Nat.testBit_lt_two_pow hlt, fun i hi => ?_⟩
    exact Nat.testBit_lt_two_pow (Nat.lt_of_lt_of_le hlt (Nat.pow_le_pow_right (by decide) (by omega)))
  apply BitVec.eq_of_getLsbD_eq
  intro i hi
  simp only [BitVec.getLsbD_and, BitVec.getLsbD_not, getLsbD_sext32 _ hi]
  split
  · rfl
  · rw [hmask.1, hmask.2 i (by omega), decide_eq_true hi]
    rfl

theorem alignedAddr_eq (s : Machine) (ic : LsCall) : s.alignedAddr conf w ic = wordAddr w (s.unalignedAddr conf ic) := by
  unfold Machine.alignedAddr Machine.unalignedAddr wordAddr
  split
  · exact sext32_wordAddr _
  · rfl

theorem wordAddr_lastAddr (ha : conf.cpuType.is32bit = true → sext32 a = a) (h : a.toNat % w.toNat = 0) :
    wordAddr w (lastAddr conf w a) = wordAddr w a := by
  have hsum : (a + BitVec.ofNat 64 (w.toNat - 1)) &&& ~~~ w.mask = a &&& ~~~ w.mask := by
    rw [w.same_iff, BitVec.toNat_add, BitVec.toNat_ofNat]
    cases w <;> simp only [Wlen.toNat] at h ⊢ <;> omega
  unfold wordAddr lastAddr
  split
  · rename_i h32
    rw [← sext32_wordAddr, hsum, sext32_wordAddr, ha h32]
  · exact hsum

theorem UnalignedRam.same (h : UnalignedRam conf io w writable cpu a p0 p1)
    (ha : conf.cpuType.is32bit = true → sext32 a = a) (hk : a.toNat % w.toNat = 0) : p1 = p0 := by
  have hlast := h.last false (fun hw => by cases hw)
  rw [wordAddr_lastAddr ha hk] at hlast
  exact hlast.unique (h.first false (fun hw => by cases hw))

theorem bytePtr_of_transfers {isLeft : Bool} (hsame : a.toNat % w.toNat = 0 → p1 = p0) {i : Nat} (hi : i < w.toNat)
    (h : transfers isLeft conf.big w.toNat ((endAddr conf w isLeft a).toNat % w.toNat) i = true) :
    (if isLeft = conf.big then p0 else p1) +
        transferOfs isLeft conf.big w.toNat ((endAddr conf w isLeft a).toNat % w.toNat) i = bytePtr w a p0 p1 i ∧
      transferOfs isLeft conf.big w.toNat ((endAddr conf w isLeft a).toNat % w.toNat) i < w.toNat := by
  have hn := w.toNat_cases
  have hk : a.toNat % w.toNat < w.toNat := Nat.mod_lt _ (by omega)
  unfold transfers at h
  unfold transferOfs bytePtr
  by_cases hend : isLeft = conf.big
  · rw [if_pos hend, decide_eq_true_eq] at h
    have ha : endAddr conf w isLeft a = a := if_pos hend
    rw [ha] at h ⊢
    rw [if_pos hend, if_pos hend, if_pos h]
    exact ⟨rfl, h⟩
  · rw [if_neg hend, decide_eq_true_eq] at h
    have ha : endAddr conf w isLeft a = lastAddr conf w a := if_neg hend
    rw [ha, toNat_lastAddr_mod] at h ⊢
    rw [if_neg hend, if_neg hend]
    by_cases hk0 : a.toNat % w.toNat = 0
    · have hmod : (a.toNat + (w.toNat - 1)) % w.toNat = w.toNat - 1 := by
        rw [Nat.add_mod, hk0, Nat.zero_add, Nat.mod_mod]
        exact Nat.mod_eq_of_lt (by omega)
      rw [hmod] at h ⊢
      rw [hk0, if_pos (by omega), hsame hk0]
      omega
    · have hmod : (a.toNat + (w.toNat - 1)) % w.toNat = a.toNat % w.toNat - 1 := by
        obtain hn | hn := hn <;> rw [hn] at hk0 hk ⊢ <;> omega
      rw [hmod] at h ⊢
      rw [if_neg (by omega)]
      omega

theorem toNat_endAddr_mod (isLeft : Bool) : (endAddr conf w isLeft a).toNat % w.toNat =
    if isLeft = conf.big then a.toNat % w.toNat else (a.toNat + (w.toNat - 1)) % w.toNat := by
  unfold endAddr
  split
  · rfl
  · exact toNat_lastAddr_mod conf w a

theorem transfers_or (isLeft : Bool) {i : Nat} (hi : i < w.toNat) :
    transfers isLeft conf.big w.toNat ((endAddr conf w isLeft a).toNat % w.toNat) i = true ∨
    transfers (!isLeft) conf.big w.toNat ((endAddr conf w (!isLeft) a).toNat % w.toNat) i = true := by
  have hn := w.toNat_cases
  have hboth : a.toNat % w.toNat + i < w.toNat ∨ w.toNat ≤ (a.toNat + (w.toNat - 1)) % w.toNat + i + 1 := by
    obtain hn | hn := hn <;> rw [hn] at hi ⊢ <;> omega
  rw [toNat_endAddr_mod, toNat_endAddr_mod]
  unfold transfers
  by_cases hend : isLeft = conf.big
  · have hother : ¬ (!isLeft) = conf.big := by
      rw [hend]
      cases conf.big <;> decide
    simpa only [if_pos hend, if_neg hother, decide_eq_true_eq] using hboth
  · have hother : (!isLeft) = conf.big := by
      cases isLeft <;> cases hbig : conf.big <;> first | rfl | exact absurd hbig.symm hend
    simpa only [if_neg hend, if_pos hother, decide_eq_true_eq] using hboth.symm

theorem bytePtr_inj (hsame : a.toNat % w.toNat = 0 → p1 = p0)
    (hapart : a.toNat % w.toNat ≠ 0 → p0 + w.toNat ≤ p1 ∨ p1 + w.toNat ≤ p0) {i j : Nat} (hi : i < w.toNat)
    (hj : j < w.toNat) (h : bytePtr w a p0 p1 i = bytePtr w a p0 p1 j) : i = j := by
  unfold bytePtr at h
  by_cases hk0 : a.toNat % w.toNat = 0
  · rw [hk0, if_pos (by omega), if_pos (by omega)] at h
    omega
  · split at h <;> split at h <;> omega

end

/-! ## One load, one store -/

namespace Machine
variable {conf : LsConf} {io : Bool → Io} {isLeft : Bool} {w : Wlen} {ic : LsCall} {s : Machine}

structure CpuKept (conf : LsConf) (cpu cpu' : MipsCpu) : Prop where
  ready : cpu'.TablesReady conf.cpuType
  mmu : cpu'.mmu = cpu.mmu
  mem : cpu'.mem = cpu.mem

theorem unaligned_load {p : Nat} (hready : s.cpu.TablesReady conf.cpuType)
    (hram : s.cpu.RamAccess conf.cpuType (io false) ⟨wordAddr w (s.unalignedAddr conf ic), w.toNat, false, cacheData⟩ p) :
    ∃ cpu, CpuKept conf s.cpu cpu ∧ s.mipsUnalignedLoadstore conf io isLeft w ic false =
      .ok { s with
        cpu
        regs := Function.update s.regs ic.arg0 (s.unalignedLoaded conf isLeft w ic (s.host.read p w.toNat)) } := by
  have hready' : (s.cpu.syncPc ic.lowPc).TablesReady conf.cpuType := ⟨hready.good, hready.mode⟩
  have hram' : (s.cpu.syncPc ic.lowPc).RamAccess conf.cpuType (io false) (s.unalignedAccess conf w ic false) p := by
    unfold unalignedAccess
    rw [alignedAddr_eq]
    exact hram.congr rfl rfl
  obtain ⟨dyn, hready1, hrw⟩ := @MipsCpu.memoryRw_ram _ conf.cacheSize _ _ _ _ hready' hram'
  refine ⟨{ s.cpu.syncPc ic.lowPc with dyn := dyn }, ⟨hready1, rfl, rfl⟩, ?_⟩
  unfold mipsUnalignedLoadstore
  dsimp only
  rw [hrw s.host (List.replicate w.toNat 0) List.length_replicate]
  rfl

theorem unaligned_store {p : Nat} (hready : s.cpu.TablesReady conf.cpuType)
    (hram : ∀ write, s.cpu.RamAccess conf.cpuType (io write)
      ⟨wordAddr w (s.unalignedAddr conf ic), w.toNat, write, cacheData⟩ p) :
    ∃ cpu, CpuKept conf s.cpu cpu ∧ s.mipsUnalignedLoadstore conf io isLeft w ic true =
      .ok { s with
        cpu
        host := s.host.write p (s.unalignedStored conf isLeft w ic (s.host.read p w.toNat)) } := by
  have hready' : (s.cpu.syncPc ic.lowPc).TablesReady conf.cpuType := ⟨hready.good, hready.mode⟩
  have hram' : ∀ write, (s.cpu.syncPc ic.lowPc).RamAccess conf.cpuType (io write) (s.unalignedAccess conf w ic write) p := by
    intro write
    unfold unalignedAccess
    rw [alignedAddr_eq]
    exact (hram write).congr rfl rfl
  obtain ⟨dyn, hready1, hrw⟩ := @MipsCpu.memoryRw_ram _ conf.cacheSize _ _ _ _ hready' (hram' false)
  obtain ⟨dyn', hready2, hrw'⟩ := @MipsCpu.memoryRw_ram _ conf.cacheSize _ _ _ _ hready1 ((hram' true).congr rfl rfl)
  refine ⟨{ s.cpu.syncPc ic.lowPc with dyn := dyn' }, ⟨hready2, rfl, rfl⟩, ?_⟩
  have hlen : (s.unalignedStored conf isLeft w ic (s.host.read p w.toNat)).length = w.toNat :=
    (storeLoop_byte _ (ByteMem.length_read _ _ _)).1
  unfold mipsUnalignedLoadstore
  dsimp only
  rw [hrw s.host (List.replicate w.toNat 0) List.length_replicate]
  show (MipsCpu.memoryRw conf.cpuType conf.cacheSize _ (io true) (s.unalignedAccess conf w ic true) s.host
    (s.unalignedStored conf isLeft w ic (s.host.read p w.toNat)) >>= fun r =>
      Except.ok ({ s with cpu := r.1, host := r.2.1.1 } : Machine)) = _
  rw [hrw' s.host _ hlen]
  rfl

theorem unaligned_regs {store : Bool} {s' : Machine} (h : s.mipsUnalignedLoadstore conf io isLeft w ic store = .ok s') :
    ∀ r, r ≠ ic.arg0 → s'.regs r = s.regs r := by
  intro r hr
  obtain ⟨⟨cpu1, copied1, ok1⟩, -, h⟩ := Lib.bind_eq_ok h
  dsimp only at h
  split at h
  · split at h
    · split at h <;> cases h <;> rfl
    · obtain ⟨⟨cpu2, copied2, ok2⟩, -, h⟩ := Lib.bind_eq_ok h
      cases h
      rfl
  · split at h
    · cases h
      rfl
    · cases h
      exact Function.update_of_ne hr _ _

theorem sext32_unalignedAddr (h : conf.cpuType.is32bit = true) :
    sext32 (s.unalignedAddr conf ic) = s.unalignedAddr conf ic := by
  unfold unalignedAddr
  rw [if_pos h, sext32_sext32]

theorem byteOf_sext32 (x : Reg) {j : Nat} (hj : j < 4) : byteOf (sext32 x) j = byteOf x j := by
  apply BitVec.eq_of_getLsbD_eq
  intro k hk
  have hlt : j * 8 + k < 32 := by omega
  rw [getLsbD_byteOf _ _ hk, getLsbD_byteOf _ _ hk, getLsbD_sext32 _ (by omega), if_pos hlt]

theorem byteOf_unalignedValue (hw : w = .doubleword → conf.cpuType.is32bit = false) {i : Nat} (hi : i < w.toNat) :
    byteOf (s.unalignedValue conf ic) (regByte conf.big w.toNat i) =
      byteOf (s.regs ic.arg0) (regByte conf.big w.toNat i) := by
  unfold unalignedValue
  split
  · rename_i h32
    cases w with
    | doubleword =>
      rw [hw rfl] at h32
      cases h32
    | word => exact byteOf_sext32 _ (regByte_lt hi)
  · rfl

theorem getD_read (m : ByteMem) (p n o : Nat) (ho : o < n) : (m.read p n).getD o 0 = m (p + o) := by
  rw [List.getD_eq_getElem?_getD, ByteMem.getElem?_read, if_pos ho]
  rfl

section
variable {a : Addr} {p0 p1 : Nat} (haddr : s.unalignedAddr conf ic = endAddr conf w isLeft a)
  (hw : w = .doubleword → conf.cpuType.is32bit = false) (hsame : a.toNat % w.toNat = 0 → p1 = p0)
include haddr hw hsame

theorem loaded_byte {i : Nat} (hi : i < w.toNat) :
    byteOf (s.unalignedLoaded conf isLeft w ic (s.host.read (if isLeft = conf.big then p0 else p1) w.toNat))
        (regByte conf.big w.toNat i) =
      if transfers isLeft conf.big w.toNat ((endAddr conf w isLeft a).toNat % w.toNat) i then
        s.host (bytePtr w a p0 p1 i)
      else byteOf (s.regs ic.arg0) (regByte conf.big w.toNat i) := by
  have hloop : byteOf (s.unalignedLoaded conf isLeft w ic (s.host.read (if isLeft = conf.big then p0 else p1) w.toNat))
      (regByte conf.big w.toNat i) = byteOf (unalignedLoop
        (loadByte (s.host.read (if isLeft = conf.big then p0 else p1) w.toNat)) w (s.unalignedAddr conf ic)
        (unalignedDir isLeft conf.big) (unalignedRegDir isLeft) w.toNat 0 (unalignedRegOfs isLeft w)
        (s.unalignedValue conf ic)) (regByte conf.big w.toNat i) := by
    unfold unalignedLoaded
    dsimp only
    split
    · rename_i hword
      subst hword
      exact byteOf_sext32 _ (regByte_lt hi)
    · rfl
  rw [hloop, loadLoop_byte _ _ hi, haddr]
  split
  · rename_i hc
    obtain ⟨hptr, hlt⟩ := bytePtr_of_transfers hsame hi hc
    rw [getD_read _ _ _ _ hlt, hptr]
  · exact byteOf_unalignedValue hw hi

theorem stored_byte {host : ByteMem}
    (hhost : host = s.host.write (if isLeft = conf.big then p0 else p1)
      (s.unalignedStored conf isLeft w ic (s.host.read (if isLeft = conf.big then p0 else p1) w.toNat))) :
    (∀ i < w.toNat, transfers isLeft conf.big w.toNat ((endAddr conf w isLeft a).toNat % w.toNat) i = true →
      host (bytePtr w a p0 p1 i) = byteOf (s.regs ic.arg0) (regByte conf.big w.toNat i)) ∧
    ∀ x, (∀ i < w.toNat, transfers isLeft conf.big w.toNat ((endAddr conf w isLeft a).toNat % w.toNat) i = true →
      x ≠ bytePtr w a p0 p1 i) → host x = s.host x := by
  obtain ⟨hlen, hputs, hkeep⟩ := @storeLoop_byte w (s.unalignedAddr conf ic) isLeft conf.big (s.unalignedValue conf ic)
    (s.host.read (if isLeft = conf.big then p0 else p1) w.toNat) (ByteMem.length_read _ _ _)
  rw [haddr] at hputs hkeep
  have hwritten : ∀ o < w.toNat, host ((if isLeft = conf.big then p0 else p1) + o) =
      (s.unalignedStored conf isLeft w ic (s.host.read (if isLeft = conf.big then p0 else p1) w.toNat)).getD o 0 := by
    intro o ho
    rw [hhost]
    unfold ByteMem.write
    rw [if_pos (Nat.le_add_right _ _), Nat.add_sub_cancel_left, List.getD_eq_getElem?_getD]
    have hsome : o < (s.unalignedStored conf isLeft w ic
        (s.host.read (if isLeft = conf.big then p0 else p1) w.toNat)).length := by
      unfold unalignedStored
      rw [hlen]
      exact ho
    rw [List.getElem?_eq_getElem hsome]
    rfl
  have hstored : s.unalignedStored conf isLeft w ic (s.host.read (if isLeft = conf.big then p0 else p1) w.toNat) =
      unalignedLoop (storeByte (s.unalignedValue conf ic)) w (endAddr conf w isLeft a) (unalignedDir isLeft conf.big)
        (unalignedRegDir isLeft) w.toNat 0 (unalignedRegOfs isLeft w)
        (s.host.read (if isLeft = conf.big then p0 else p1) w.toNat) := by
    unfold unalignedStored
    rw [haddr]
  constructor
  · intro i hi hc
    obtain ⟨hptr, hlt⟩ := bytePtr_of_transfers hsame hi hc
    rw [← hptr, hwritten _ hlt, hstored, hputs i hi hc]
    exact byteOf_unalignedValue hw hi
  · intro x hx
    by_cases hin : (if isLeft = conf.big then p0 else p1) ≤ x ∧ x < (if isLeft = conf.big then p0 else p1) + w.toNat
    · obtain ⟨o, rfl⟩ : ∃ o, x = (if isLeft = conf.big then p0 else p1) + o :=
        ⟨x - (if isLeft = conf.big then p0 else p1), by omega⟩
      have ho : o < w.toNat := by omega
      have hnone : ∀ i < w.toNat,
          transfers isLeft conf.big w.toNat ((endAddr conf w isLeft a).toNat % w.toNat) i = true →
          transferOfs isLeft conf.big w.toNat ((endAddr conf w isLeft a).toNat % w.toNat) i ≠ o := by
        intro i hi hc heq
        apply hx i hi hc
        rw [← (bytePtr_of_transfers hsame hi hc).1, heq]
      rw [hwritten o ho, hstored, hkeep o ho hnone, getD_read _ _ _ _ ho]
    · rw [hhost]
      apply ByteMem.write_other
      have hlen' : (s.unalignedStored conf isLeft w ic
          (s.host.read (if isLeft = conf.big then p0 else p1) w.toNat)).length = w.toNat := by
        rw [hstored, ← haddr]
        exact hlen
      rw [hlen']
      omega

end

/-! ## Pairs -/

/-- A left and a right instruction, in either order. `isLeft` is for the first one. -/
def unalignedPair (conf : LsConf) (io : Bool → Io) (w : Wlen) (store isLeft : Bool) (ic ic' : LsCall) (s : Machine) :
    Except Exit Machine := do
  let s ← s.mipsUnalignedLoadstore conf io isLeft w ic store
  s.mipsUnalignedLoadstore conf io (!isLeft) w ic' store

/-- The bytes from `a` on. -/
def bytesAt (w : Wlen) (a : Addr) (p0 p1 : Nat) (host : ByteMem) : List Byte :=
  (List.range w.toNat).map fun i => host (bytePtr w a p0 p1 i)

def extended (w : Wlen) (x : Reg) : Reg := if w = .word then sext32 x else x

/-- Both instructions of a pair are for the ends of the bytes from `a` on. -/
structure OnEnds (conf : LsConf) (io : Bool → Io) (w : Wlen) (store isLeft : Bool) (ic ic' : LsCall) (s : Machine) (a : Addr) :
    Prop where
  width : w = .doubleword → conf.cpuType.is32bit = false
  register : ic'.arg0 = ic.arg0
  first : s.unalignedAddr conf ic = endAddr conf w isLeft a
  second : ∀ s1, s.mipsUnalignedLoadstore conf io isLeft w ic store = .ok s1 →
    s1.unalignedAddr conf ic' = endAddr conf w (!isLeft) a

section
variable {a : Addr} {p0 p1 : Nat} {ic' : LsCall} {store : Bool}

theorem ramAccess_end {writable : Bool} {cpu : MipsCpu} (h : UnalignedRam conf io w writable cpu a p0 p1) (isLeft : Bool)
    (write : Bool) (hwrite : write = true → writable = true) :
    cpu.RamAccess conf.cpuType (io write) ⟨wordAddr w (endAddr conf w isLeft a), w.toNat, write, cacheData⟩
      (if isLeft = conf.big then p0 else p1) := by
  unfold endAddr
  split
  · exact h.first write hwrite
  · exact h.last write hwrite

theorem canonical_of_ends {s1 : Machine} (h1 : s.unalignedAddr conf ic = endAddr conf w isLeft a)
    (h2 : s1.unalignedAddr conf ic' = endAddr conf w (!isLeft) a) (h32 : conf.cpuType.is32bit = true) : sext32 a = a := by
  by_cases hend : isLeft = conf.big
  · have ha : s.unalignedAddr conf ic = a := h1.trans (if_pos hend)
    rw [← ha]
    exact sext32_unalignedAddr h32
  · have hother : (!isLeft) = conf.big := by
      cases isLeft <;> cases hbig : conf.big <;> first | rfl | exact absurd hbig.symm hend
    have ha : s1.unalignedAddr conf ic' = a := h2.trans (if_pos hother)
    rw [← ha]
    exact sext32_unalignedAddr h32

theorem length_bytesAt (host : ByteMem) : (bytesAt w a p0 p1 host).length = w.toNat := by
  unfold bytesAt
  rw [List.length_map, List.length_range]

theorem byteOf_bytesAt (big : Bool) (host : ByteMem) {i : Nat} (hi : i < w.toNat) :
    byteOf (memoryReadmax64 big (bytesAt w a p0 p1 host)) (regByte big w.toNat i) = host (bytePtr w a p0 p1 i) := by
  have hn := w.toNat_cases
  have hj := @regByte_lt big _ _ hi
  have hbyte := @byteOf_value 64 big (bytesAt w a p0 p1 host) (regByte big w.toNat i)
    (by rw [length_bytesAt]; exact hj) (by omega)
  have hindex : (if big then w.toNat - 1 - regByte big w.toNat i else regByte big w.toNat i) = i := by
    unfold regByte
    split <;> omega
  rw [length_bytesAt, hindex] at hbyte
  rw [memoryReadmax64_eq]
  unfold bytesAt at hbyte ⊢
  rw [List.getElem?_map, List.getElem?_range hi] at hbyte
  exact Option.some.inj hbyte

theorem extended_congr {x y : Reg} (h : ∀ i < w.toNat, byteOf x (regByte conf.big w.toNat i) =
    byteOf y (regByte conf.big w.toNat i)) : extended w x = extended w y := by
  have hall : ∀ j < w.toNat, byteOf x j = byteOf y j := by
    intro j hj
    have hreg : regByte conf.big w.toNat (regByte conf.big w.toNat j) = j := by
      unfold regByte
      split <;> omega
    have := h _ (@regByte_lt conf.big _ _ hj)
    rwa [hreg] at this
  cases w with
  | doubleword => exact @eq_of_byteOf 8 x y hall
  | word =>
    have hlow : x.setWidth 32 = y.setWidth 32 := by
      apply @eq_of_byteOf 4
      intro j hj
      rw [byteOf_setWidth _ (by omega), byteOf_setWidth _ (by omega)]
      exact hall j hj
    show sext32 x = sext32 y
    unfold sext32
    rw [hlow]

theorem extended_unalignedLoaded (alignedWord : List Byte) :
    extended w (s.unalignedLoaded conf isLeft w ic alignedWord) = s.unalignedLoaded conf isLeft w ic alignedWord := by
  unfold extended unalignedLoaded
  split
  · exact sext32_sext32 _
  · rfl

theorem loadPair (hram : UnalignedRam conf io w false s.cpu a p0 p1) (h : OnEnds conf io w false isLeft ic ic' s a) :
    ∃ cpu, CpuKept conf s.cpu cpu ∧ s.unalignedPair conf io w false isLeft ic ic' = .ok { s with
      cpu
      regs := Function.update s.regs ic.arg0
        (extended w (memoryReadmax64 conf.big (bytesAt w a p0 p1 s.host))) } := by
  have hread : false = true → false = true := id
  have hram1 := ramAccess_end hram isLeft false hread
  rw [← h.first] at hram1
  obtain ⟨cpu1, hkept1, hs1⟩ := @unaligned_load conf io isLeft w ic s _ hram.ready hram1
  let s1 : Machine := { s with
    cpu := cpu1
    regs := Function.update s.regs ic.arg0 (s.unalignedLoaded conf isLeft w ic
      (s.host.read (if isLeft = conf.big then p0 else p1) w.toNat)) }
  have hsecond : s1.unalignedAddr conf ic' = endAddr conf w (!isLeft) a := h.second s1 hs1
  have hram2 := (ramAccess_end hram (!isLeft) false hread).congr hkept1.mmu hkept1.mem
  rw [← hsecond] at hram2
  obtain ⟨cpu2, hkept2, hs2⟩ := @unaligned_load conf io (!isLeft) w ic' s1 _ hkept1.ready hram2
  have hsame := hram.same (canonical_of_ends h.first hsecond)
  -- the second instruction leaves what the first one has loaded, as far as it does not load it again
  have hbytes : ∀ i < w.toNat, byteOf (s1.unalignedLoaded conf (!isLeft) w ic'
      (s1.host.read (if (!isLeft) = conf.big then p0 else p1) w.toNat)) (regByte conf.big w.toNat i) =
        byteOf (memoryReadmax64 conf.big (bytesAt w a p0 p1 s.host)) (regByte conf.big w.toNat i) := by
    intro i hi
    have hfirst := loaded_byte h.first h.width hsame hi
    have hreg : s1.regs ic'.arg0 = s.unalignedLoaded conf isLeft w ic
        (s.host.read (if isLeft = conf.big then p0 else p1) w.toNat) := by
      rw [h.register]
      exact Function.update_self _ _ _
    rw [byteOf_bytesAt conf.big s.host hi, loaded_byte hsecond h.width hsame hi]
    split
    · rfl
    · rename_i hnot
      rw [hreg, hfirst, if_pos ((transfers_or isLeft hi).resolve_right hnot)]
  have hvalue := extended_congr hbytes
  rw [extended_unalignedLoaded] at hvalue
  refine ⟨cpu2, ⟨hkept2.ready, hkept2.mmu.trans hkept1.mmu, hkept2.mem.trans hkept1.mem⟩, ?_⟩
  unfold unalignedPair
  rw [hs1]
  refine Eq.trans hs2 ?_
  rw [hvalue, h.register]
  rw [Function.update_idem]

theorem storePair (hram : UnalignedRam conf io w true s.cpu a p0 p1) (h : OnEnds conf io w true isLeft ic ic' s a) :
    ∃ cpu host, CpuKept conf s.cpu cpu ∧ s.unalignedPair conf io w true isLeft ic ic' = .ok { s with cpu, host } ∧
      bytesAt w a p0 p1 host = memoryWritemax64 conf.big w.toNat (s.regs ic.arg0) ∧
      ∀ x, (∀ i < w.toNat, x ≠ bytePtr w a p0 p1 i) → host x = s.host x := by
  have hram1 := fun write => ramAccess_end hram isLeft write (fun _ => rfl)
  rw [← h.first] at hram1
  obtain ⟨cpu1, hkept1, hs1⟩ := @unaligned_store conf io isLeft w ic s _ hram.ready hram1
  let host1 := s.host.write (if isLeft = conf.big then p0 else p1)
    (s.unalignedStored conf isLeft w ic (s.host.read (if isLeft = conf.big then p0 else p1) w.toNat))
  let s1 : Machine := { s with cpu := cpu1, host := host1 }
  have hsecond : s1.unalignedAddr conf ic' = endAddr conf w (!isLeft) a := h.second s1 hs1
  have hram2 := fun write => (ramAccess_end hram (!isLeft) write (fun _ => rfl)).congr hkept1.mmu hkept1.mem
  rw [← hsecond] at hram2
  obtain ⟨cpu2, hkept2, hs2⟩ := @unaligned_store conf io (!isLeft) w ic' s1 _ hkept1.ready hram2
  let host2 := s1.host.write (if (!isLeft) = conf.big then p0 else p1)
    (s1.unalignedStored conf (!isLeft) w ic' (s1.host.read (if (!isLeft) = conf.big then p0 else p1) w.toNat))
  have hsame := hram.same (canonical_of_ends h.first hsecond)
  obtain ⟨hput1, hkeep1⟩ := stored_byte h.first h.width hsame (show host1 = _ from rfl)
  obtain ⟨hput2, hkeep2⟩ := stored_byte hsecond h.width hsame (show host2 = _ from rfl)
  have hbyte : ∀ i < w.toNat, host2 (bytePtr w a p0 p1 i) = byteOf (s.regs ic.arg0) (regByte conf.big w.toNat i) := by
    intro i hi
    by_cases hc : transfers (!isLeft) conf.big w.toNat ((endAddr conf w (!isLeft) a).toNat % w.toNat) i = true
    · rw [hput2 i hi hc, h.register]
    · -- the second instruction leaves what the first one has stored
      refine (hkeep2 (bytePtr w a p0 p1 i) ?_).trans (hput1 i hi ((transfers_or isLeft hi).resolve_right hc))
      intro j hj hcj heq
      rw [bytePtr_inj hsame hram.apart hi hj heq] at hc
      exact hc hcj
  refine ⟨cpu2, host2, ⟨hkept2.ready, hkept2.mmu.trans hkept1.mmu, hkept2.mem.trans hkept1.mem⟩, ?_, ?_, ?_⟩
  · unfold unalignedPair
    rw [hs1]
    exact hs2
  · have hn := w.toNat_cases
    rw [memoryWritemax64_eq]
    apply List.ext_getElem?
    intro i
    by_cases hi : i < w.toNat
    · rw [getElem?_bytes conf.big (s.regs ic.arg0) hi (by omega)]
      unfold bytesAt
      rw [List.getElem?_map, List.getElem?_range hi]
      exact congrArg some (hbyte i hi)
    · rw [List.getElem?_eq_none, List.getElem?_eq_none]
      · rw [length_bytes]
        omega
      · rw [length_bytesAt]
        omega
  · intro x hx
    exact (hkeep2 x (fun i hi _ => hx i hi)).trans (hkeep1 x (fun i hi _ => hx i hi))

theorem onEnds_of_base (hwidth : w = .doubleword → conf.cpuType.is32bit = false) (h0 : ic'.arg0 = ic.arg0)
    (h1 : ic'.arg1 = ic.arg1) (hbase : ic.arg1 ≠ ic.arg0) (hfirst : s.unalignedAddr conf ic = endAddr conf w isLeft a)
    (hsecond : s.unalignedAddr conf ic' = endAddr conf w (!isLeft) a) : OnEnds conf io w store isLeft ic ic' s a := by
  refine ⟨hwidth, h0, hfirst, fun s1 hs1 => ?_⟩
  have hreg : s1.regs ic'.arg1 = s.regs ic'.arg1 := by
    rw [h1]
    exact unaligned_regs hs1 _ hbase
  unfold unalignedAddr unalignedSum at hsecond ⊢
  rw [hreg]
  exact hsecond

/-- Pairs of unaligned instructions load and store the bytes from `a` on, and a pair of loads after a pair of stores
loads what has been stored. -/
theorem pairs_transfer (isLeft : Bool) (ic ic' : LsCall) :
    (UnalignedRam conf io w false s.cpu a p0 p1 → OnEnds conf io w false isLeft ic ic' s a →
      ∃ s', s.unalignedPair conf io w false isLeft ic ic' = .ok s' ∧ s'.host = s.host ∧
        s'.regs = Function.update s.regs ic.arg0
          (extended w (memoryReadmax64 conf.big (bytesAt w a p0 p1 s.host)))) ∧
    (UnalignedRam conf io w true s.cpu a p0 p1 → OnEnds conf io w true isLeft ic ic' s a →
      ∃ s', s.unalignedPair conf io w true isLeft ic ic' = .ok s' ∧ s'.regs = s.regs ∧
        bytesAt w a p0 p1 s'.host = memoryWritemax64 conf.big w.toNat (s.regs ic.arg0) ∧
        (∀ x, (∀ i < w.toNat, x ≠ bytePtr w a p0 p1 i) → s'.host x = s.host x) ∧
        ∀ loadLeft jc jc', OnEnds conf io w false loadLeft jc jc' s' a →
          ∃ s'', s'.unalignedPair conf io w false loadLeft jc jc' = .ok s'' ∧ s''.host = s'.host ∧
            s''.regs = Function.update s.regs jc.arg0 (extended w (s.regs ic.arg0))) := by
  constructor
  · intro hram h
    obtain ⟨cpu, -, hs⟩ := loadPair hram h
    exact ⟨_, hs, rfl, rfl⟩
  · intro hram h
    obtain ⟨cpu, host, hkept, hs, hbytes, hother⟩ := storePair hram h
    refine ⟨_, hs, rfl, hbytes, hother, fun loadLeft jc jc' hload => ?_⟩
    have hram' : UnalignedRam conf io w false cpu a p0 p1 := by
      have hall := hram.congr hkept.ready hkept.mmu hkept.mem
      exact ⟨hall.ready, fun write _ => hall.first write (fun _ => rfl), fun write _ => hall.last write (fun _ => rfl),
        hall.apart⟩
    obtain ⟨cpu', -, hs'⟩ := @loadPair conf io loadLeft w jc { s with cpu := cpu, host := host } a p0 p1 jc' hram' hload
    refine ⟨_, hs', rfl, ?_⟩
    have hvalue : extended w (memoryReadmax64 conf.big (bytesAt w a p0 p1 host)) = extended w (s.regs ic.arg0) := by
      have hn := w.toNat_cases
      apply @extended_congr conf
      intro i hi
      have hread := getElem?_bytes conf.big (s.regs ic.arg0) hi (by omega)
      rw [← memoryWritemax64_eq, ← hbytes] at hread
      unfold bytesAt at hread
      rw [List.getElem?_map, List.getElem?_range hi] at hread
      calc byteOf (memoryReadmax64 conf.big (bytesAt w a p0 p1 host)) (regByte conf.big w.toNat i) =
            host (bytePtr w a p0 p1 i) := byteOf_bytesAt conf.big host hi
        _ = byteOf (s.regs ic.arg0) (regByte conf.big w.toNat i) := Option.some.inj hread
    show Function.update s.regs jc.arg0 (extended w (memoryReadmax64 conf.big (bytesAt w a p0 p1 host))) = _
    rw [hvalue]

end

/-! A doubleword in two words of kseg0, on a big-endian R4000. -/

def bigR4000 : LsConf := ⟨r4000, 65536, true, false⟩

def kseg0Bytes : Machine where
  cpu := emptyTlb (entryRegisters 0 0 0 0)
  regs r := if r = .ofNat 1 then 0xffffffff80000000#64 else 0x1122334455667788#64
  host a := BitVec.ofNat 8 a

def leftCall : LsCall := ⟨.ofNat 2, .ofNat 1, 3, 0⟩
def rightCall : LsCall := ⟨.ofNat 2, .ofNat 1, 10, 1⟩

theorem ramAccess_kseg0 (second write : Bool) : kseg0Bytes.cpu.RamAccess r4000 ramIo
    ⟨if second then 0xffffffff80000008#64 else 0xffffffff80000000#64, 8, write, cacheData⟩ (if second then 8 else 0) := by
  obtain ⟨v, hv, rfl⟩ := eval_eq_ok (kseg0Bytes.cpu.accessV2p r4000
    ⟨if second then 0xffffffff80000008#64 else 0xffffffff80000000#64, 8, write, cacheData⟩) id
    (.ok (if second then 8#64 else 0#64) true) (by cases second <;> cases write <;> decide +kernel)
  refine ⟨if second then 8#64 else 0#64, true, 0, hv, ?_, ?_, ?_, ?_, ?_, ?_, ?_⟩
  · cases second <;> decide +kernel
  · cases second <;> cases write <;> decide +kernel
  · cases second <;> cases write <;> decide +kernel
  · cases second <;> cases write <;> decide +kernel
  · cases second <;> cases write <;> decide
  · intro h
    cases h
  · cases second <;> decide

theorem unalignedRam_kseg0 (writable : Bool) :
    UnalignedRam bigR4000 (fun _ => ramIo) .doubleword writable kseg0Bytes.cpu 0xffffffff80000003#64 0 8 := by
  have hfirst : wordAddr .doubleword 0xffffffff80000003#64 = 0xffffffff80000000#64 := by decide
  have hlast : wordAddr .doubleword (lastAddr bigR4000 .doubleword 0xffffffff80000003#64) = 0xffffffff80000008#64 := by
    decide
  refine ⟨emptyTlb_ready rfl _, fun write _ => ?_, fun write _ => ?_, fun _ => Or.inl (Nat.le_refl 8)⟩
  · rw [hfirst]
    exact ramAccess_kseg0 false write
  · rw [hlast]
    exact ramAccess_kseg0 true write

theorem pairs_transfer_kseg0 :
    (∃ s', kseg0Bytes.unalignedPair bigR4000 (fun _ => ramIo) .doubleword false true leftCall rightCall = .ok s' ∧
      s'.regs (.ofNat 2) = 0x030405060708090a#64) ∧
    ∃ s', kseg0Bytes.unalignedPair bigR4000 (fun _ => ramIo) .doubleword true true leftCall rightCall = .ok s' ∧
      bytesAt .doubleword 0xffffffff80000003#64 0 8 s'.host = [0x11, 0x22, 0x33, 0x44, 0x55, 0x66, 0x77, 0x88] ∧
      s'.host 2 = 2 ∧ s'.host 11 = 11 ∧
      ∃ s'', s'.unalignedPair bigR4000 (fun _ => ramIo) .doubleword false false rightCall leftCall = .ok s'' ∧
        s''.regs (.ofNat 2) = 0x1122334455667788#64 := by
  have h := @pairs_transfer bigR4000 (fun _ => ramIo) .doubleword kseg0Bytes 0xffffffff80000003#64 0 8 true leftCall rightCall
  have hends : ∀ store, OnEnds bigR4000 (fun _ => ramIo) .doubleword store true leftCall rightCall kseg0Bytes
      0xffffffff80000003#64 := fun store => onEnds_of_base (fun _ => rfl) rfl rfl (by decide) (by decide) (by decide)
  obtain ⟨s1, hs1, -, hregs⟩ := h.1 (unalignedRam_kseg0 false) (hends false)
  obtain ⟨s2, hs2, hsame, hbytes, hother, hload⟩ := h.2 (unalignedRam_kseg0 true) (hends true)
  have haddr : ∀ ic, s2.unalignedAddr bigR4000 ic = kseg0Bytes.unalignedAddr bigR4000 ic := by
    intro ic
    unfold unalignedAddr unalignedSum
    rw [hsame]
  obtain ⟨s3, hs3, -, hregs3⟩ := hload false rightCall leftCall (onEnds_of_base (fun _ => rfl) rfl rfl (by decide)
    ((haddr _).trans (by decide)) ((haddr _).trans (by decide)))
  refine ⟨⟨s1, hs1, ?_⟩, s2, hs2, hbytes.trans (by decide), ?_, ?_, s3, hs3, ?_⟩
  · rw [hregs]
    decide +kernel
  · exact (hother 2 (by decide)).trans (by decide)
  · exact (hother 11 (by decide)).trans (by decide)
  · rw [hregs3]
    decide +kernel

end Machine

end Gxemul.Mips
