import Gxemul.Mips.TlbPages

/- tlbwi, tlbwr and tlbr: what is written to the TLB, and what is read back.

   The global bit is in ENTRYLO0 and ENTRYLO1, and in the upper word of an entry.
   On an R4100 it stays where it is, and on other CPUs it is moved there and back. -/
namespace Gxemul.Mips

/-! ## Values of registers -/

def Cop0.get (c : Cop0) (r : Cop0Reg) : Reg :=
  match r with
  | .index => c.index
  | .random => c.random
  | .entrylo0 => c.entrylo0
  | .entrylo1 => c.entrylo1
  | .context => c.context
  | .pagemask => c.pagemask
  | .wired => c.wired
  | .badvaddr => c.badvaddr
  | .entryhi => c.entryhi
  | .status => c.status
  | .cause => c.cause
  | .epc => c.epc
  | .xcontext => c.xcontext
  | .errorepc => c.errorepc

/-- A value that coproc_register_write() can leave in a register. -/
def Leaves (t : CpuType) (r : Cop0Reg) (x : Reg) : Prop :=
  ∃ (cacheSize : Nat) (s s' : MipsCpu) (value : Reg) (flag64 : Bool),
    s.coprocRegisterWrite t cacheSize r value flag64 = .ok s' ∧ s'.mmu.cop0.get r = x

section
variable {t : CpuType} {r : Cop0Reg} {x : Reg}

theorem Leaves.value (h : Leaves t r x) (hcontext : r ≠ .context) (hcause : r ≠ .cause) :
    ∃ value, x = writtenValue t r value ∨ x = sext32 (writtenValue t r value) := by
  obtain ⟨cacheSize, s, s', value, flag64, hs, hx⟩ := h
  have hfinal : (if flag64 then writtenValue t r value else sext32 (writtenValue t r value)) = x := by
    unfold MipsCpu.coprocRegisterWrite at hs
    cases r with
    | context => exact absurd rfl hcontext
    | cause => exact absurd rfl hcause
    | entrylo1 =>
      dsimp only at hs
      split at hs
      · cases hs
      · cases hs
        exact hx
    | entryhi =>
      dsimp only at hs
      split at hs <;> obtain ⟨s1, -, hs⟩ := Lib.bind_eq_ok hs <;> cases hs <;> exact hx
    | status =>
      dsimp only at hs
      split at hs <;> obtain ⟨s1, -, hs⟩ := Lib.bind_eq_ok hs <;> cases hs <;> exact hx
    | _ =>
      cases hs
      exact hx
  refine ⟨value, ?_⟩
  cases flag64 with
  | true => exact Or.inl hfinal.symm
  | false => exact Or.inr hfinal.symm

theorem Leaves.clear {m : Reg} (h : Leaves t r x) (hcontext : r ≠ .context) (hcause : r ≠ .cause)
    (hm : m.toNat < 2 ^ 32) (hclear : ∀ value, writtenValue t r value &&& m = 0) : x &&& m = 0 := by
  obtain ⟨value, rfl | rfl⟩ := h.value hcontext hcause
  · exact hclear value
  · rw [sext32_and hm]
    exact hclear value

theorem Leaves.entryhi_tlbG (h : Leaves t .entryhi x) (h3k : t.mmuModel ≠ .mmu3k) (hr : t.r4100 = false) :
    x &&& tlbG = 0 := by
  apply h.clear (by decide) (by decide) (by decide)
  intro value
  have hbits : entryhiBits t &&& tlbG = 0 := by
    unfold entryhiBits
    rw [if_neg h3k, hr]
    split <;> decide
  show value &&& entryhiBits t &&& tlbG = 0
  rw [BitVec.and_assoc, hbits]
  exact BitVec.and_zero

theorem Leaves.wired_lt (h : Leaves t .wired x) : x.toNat < 64 := by
  have hall : ∀ w < 64, sext32 (BitVec.ofNat 64 w) = BitVec.ofNat 64 w := by decide
  have hlt : ∀ y : Reg, (y &&& indexMask).toNat < 64 := by
    intro y
    rw [BitVec.toNat_and]
    exact Nat.lt_of_le_of_lt Nat.and_le_right (by decide)
  have hsext : ∀ y : Reg, sext32 (y &&& indexMask) = y &&& indexMask := by
    intro y
    have hy := hall _ (hlt y)
    rw [BitVec.ofNat_toNat, BitVec.setWidth_eq] at hy
    exact hy
  obtain ⟨value, rfl | rfl⟩ := h.value (by decide) (by decide)
  · exact hlt _
  · show (sext32 (_ &&& indexMask)).toNat < 64
    rw [hsext]
    exact hlt _

end

/-! ## Calls that return -/

namespace MipsCpu
variable {t : CpuType} {cacheSize : Nat} {host : Addr → Option Nat} {s s' : MipsCpu}

structure TablesReady (t : CpuType) (s : MipsCpu) : Prop where
  good : s.dyn.tables.Good .mips
  mode : s.dyn.tables.mode = t.mode

theorem TablesReady.of_dyn (h : s.TablesReady t) (hd : s'.dyn = s.dyn) : s'.TablesReady t :=
  ⟨hd ▸ h.good, hd ▸ h.mode⟩

theorem TablesReady.of_tableOps (h : s.TablesReady t) {ops : List TableOp}
    (hs : s.tableOps t cacheSize ops = .ok s') : s'.TablesReady t := by
  obtain ⟨dyn, hrun, hs⟩ := Lib.bind_eq_ok hs
  cases hs
  have hstep : ∀ (c : Cpu) (o : TableOp), c.tables.Good .mips ∧ c.tables.mode = t.mode →
      (∀ c', c.tableStep (t.conf cacheSize) o = .ok c' → c'.tables.Good .mips ∧ c'.tables.mode = t.mode) ∧
        ∀ e, c.tableStep (t.conf cacheSize) o = .error e → True := by
    intro c o ⟨hgood, hmode⟩
    refine ⟨fun c' hc => ?_, fun _ _ => trivial⟩
    obtain ⟨hgood', hmode', -⟩ := @Cpu.tableStep_cases (t.conf cacheSize) c hgood c' o hc
    exact ⟨hgood', hmode'.trans hmode⟩
  obtain ⟨hgood, hmode⟩ := (Lib.runOps_inv hstep ⟨h.good, h.mode⟩).1 dyn hrun
  exact ⟨hgood, hmode⟩

theorem TablesReady.tableOps (h : s.TablesReady t) {ops : List TableOp} (hl : ∀ o ∈ ops, o.Legal .mips t.mode) :
    ∃ s', s.tableOps t cacheSize ops = .ok s' := by
  have hrun : ∃ dyn, Lib.runOps (Cpu.tableStep (t.conf cacheSize)) ops s.dyn = .ok dyn := by
    obtain ⟨hgood, hmode⟩ := h
    generalize s.dyn = c at hgood hmode
    induction ops generalizing c with
    | nil => exact ⟨c, rfl⟩
    | cons o ops ih =>
      have ho : o.Legal .mips c.tables.mode := by
        rw [hmode]
        exact hl o List.mem_cons_self
      obtain ⟨c', hstep, hgood', hmode', -⟩ := @Cpu.tableStep_spec (t.conf cacheSize) c hgood o ho
      rw [Lib.runOps, hstep]
      exact ih (fun o' ho' => hl o' (List.mem_cons_of_mem o ho')) c' hgood' (hmode'.trans hmode)
  obtain ⟨dyn, hok⟩ := hrun
  refine ⟨{ s with dyn := dyn }, ?_⟩
  show (Lib.runOps (Cpu.tableStep (t.conf cacheSize)) ops s.dyn).bind _ = _
  rw [hok]
  rfl

theorem tableOps_mmu {ops : List TableOp} (h : s.tableOps t cacheSize ops = .ok s') : s'.mmu = s.mmu := by
  obtain ⟨dyn, -, h⟩ := Lib.bind_eq_ok h
  cases h
  rfl

theorem addTranslation_mmu {vaddr paddr : Addr} {wf : Nat}
    (h : s.addTranslation t cacheSize host vaddr paddr wf = .ok s') : s'.mmu = s.mmu := by
  unfold addTranslation at h
  split at h
  · exact tableOps_mmu h
  · cases h
    rfl

theorem TablesReady.of_addTranslation (h : s.TablesReady t) {vaddr paddr : Addr} {wf : Nat}
    (hs : s.addTranslation t cacheSize host vaddr paddr wf = .ok s') : s'.TablesReady t := by
  unfold MipsCpu.addTranslation at hs
  split at hs
  · exact h.of_tableOps hs
  · cases hs
    exact h

theorem TablesReady.addTranslation (h : s.TablesReady t) {vaddr paddr : Addr} {wf : Nat}
    (hv : Arch.mips.Aligned vaddr) (hp : Arch.mips.Aligned paddr) :
    (∃ s', s.addTranslation t cacheSize host vaddr paddr wf = .ok s') ↔
      ¬ (host paddr ≠ none ∧ t.mode = .mode32 ∧ 0xffffffff#64 < paddr) := by
  unfold MipsCpu.addTranslation
  cases hhost : host paddr with
  | none => exact iff_of_true ⟨s, rfl⟩ (fun hn => hn.1 rfl)
  | some memblock =>
    constructor
    · rintro ⟨s', hs⟩ ⟨-, hmode, habove⟩
      obtain ⟨dyn, hdyn, -⟩ := Lib.bind_eq_ok hs
      have hlegal := Cpu.legal_of_ok (Lib.runOps_singleton.mp hdyn)
      have hbelow := hlegal.2.2 (h.mode.trans hmode)
      exact absurd habove (BitVec.not_lt.mpr hbelow)
    · intro hn
      apply h.tableOps
      intro o ho
      obtain rfl := List.mem_singleton.mp ho
      refine ⟨hv, hp, fun hmode => ?_⟩
      rw [← BitVec.not_lt]
      exact fun habove => hn ⟨Option.some_ne_none memblock, hmode, habove⟩

/-! ## Small pages -/

theorem dpmask_low {mask : Reg} (h : t.dpmask mask >>> 1 + 1 = 0x1000#64) : t.dpmask mask &&& 0xfff#64 = 0xfff#64 := by
  have hshift : t.dpmask mask >>> 1 = 0xfff#64 := by
    have := congrArg (· - 1#64) h
    simpa using this
  have hfff : ∀ i < 64, (0xfff#64).getLsbD i = decide (i < 12) := by decide
  apply BitVec.eq_of_getLsbD_eq
  intro i hi
  rw [BitVec.getLsbD_and, hfff i hi]
  by_cases h12 : i < 12
  · have hbit : (t.dpmask mask).getLsbD i = true := by
      cases i with
      | zero =>
        unfold CpuType.dpmask
        rw [BitVec.getLsbD_or]
        split <;> exact Bool.or_true _
      | succ i =>
        have hbit := congrArg (fun x => x.getLsbD i) hshift
        simp only [BitVec.getLsbD_ushiftRight, hfff i (by omega)] at hbit
        rw [Nat.add_comm, hbit]
        exact decide_eq_true (by omega)
    rw [hbit, Bool.true_and]
  · rw [decide_eq_false h12, Bool.and_false]

theorem aligned_vaddr {mask x : Reg} (h : t.dpmask mask >>> 1 + 1 = 0x1000#64) :
    Arch.mips.Aligned (x &&& ~~~ t.dpmask mask) := by
  have hzero : ~~~ t.dpmask mask &&& (t.dpmask mask &&& 0xfff#64) = 0 := by
    rw [← BitVec.and_assoc, BitVec.and_comm (~~~ _), BitVec.and_not_self]
    exact BitVec.zero_and
  rw [dpmask_low h] at hzero
  show x &&& ~~~ t.dpmask mask &&& 0xfff#64 = 0
  rw [BitVec.and_assoc, hzero]
  exact BitVec.and_zero

theorem aligned_paddr {mask x : Reg} (h : t.dpmask mask >>> 1 + 1 = 0x1000#64) :
    Arch.mips.Aligned (x &&& ~~~ (t.dpmask mask >>> 1)) := by
  have hshift : t.dpmask mask >>> 1 = 0xfff#64 := by
    have := congrArg (· - 1#64) h
    simpa using this
  show x &&& ~~~ (t.dpmask mask >>> 1) &&& 0xfff#64 = 0
  rw [hshift, BitVec.and_assoc]
  exact BitVec.and_zero

/-! ## Calls for one page -/

def addPage (t : CpuType) (cacheSize : Nat) (s : MipsCpu) (host : Addr → Option Nat) (psize vaddr paddr lo : Reg) :
    Except Exit MipsCpu :=
  if psize = 0x1000#64 ∧ anyBit lo entryloV = true then
    s.addTranslation t cacheSize host vaddr paddr (lo &&& entryloD).toNat
  else .ok s

def PageRejected (t : CpuType) (host : Addr → Option Nat) (psize paddr lo : Reg) : Prop :=
  (psize = 0x1000#64 ∧ anyBit lo entryloV = true) ∧ host paddr ≠ none ∧ t.mode = .mode32 ∧ 0xffffffff#64 < paddr

theorem addPage_mmu {psize vaddr paddr lo : Reg} (h : s.addPage t cacheSize host psize vaddr paddr lo = .ok s') :
    s'.mmu = s.mmu := by
  unfold addPage at h
  split at h
  · exact addTranslation_mmu h
  · cases h
    rfl

theorem TablesReady.addPage (h : s.TablesReady t) {psize vaddr paddr lo : Reg}
    (halign : psize = 0x1000#64 → Arch.mips.Aligned vaddr ∧ Arch.mips.Aligned paddr) :
    (∃ s', s.addPage t cacheSize host psize vaddr paddr lo = .ok s') ↔ ¬ PageRejected t host psize paddr lo := by
  unfold MipsCpu.addPage PageRejected
  by_cases hpage : psize = 0x1000#64 ∧ anyBit lo entryloV = true
  · obtain ⟨hv, hp⟩ := halign hpage.1
    rw [if_pos hpage, h.addTranslation hv hp]
    exact not_congr (and_iff_right hpage).symm
  · rw [if_neg hpage]
    exact iff_of_true ⟨s, rfl⟩ (fun hr => hpage hr.1)

theorem TablesReady.of_addPage (h : s.TablesReady t) {psize vaddr paddr lo : Reg}
    (hs : s.addPage t cacheSize host psize vaddr paddr lo = .ok s') : s'.TablesReady t := by
  unfold MipsCpu.addPage at hs
  split at hs
  · exact h.of_addTranslation hs
  · cases hs
    exact h

/-! ## Writing an entry -/

theorem writeEntry4k_eq (index : Nat) : s.writeEntry4k t cacheSize host index =
    if hasOneKbPages t s.mmu.cop0.pagemask s.mmu.cop0.entrylo0 s.mmu.cop0.entrylo1 then .error .oneKbPages
    else do
      let dpmask := t.dpmask s.mmu.cop0.pagemask
      let psize := dpmask >>> 1 + 1
      let paddr0 := entryPaddr t s.mmu.cop0.entrylo0 &&& ~~~ (dpmask >>> 1)
      let paddr1 := entryPaddr t s.mmu.cop0.entrylo1 &&& ~~~ (dpmask >>> 1)
      let vaddr0 := t.hiVaddr s.mmu.cop0.entryhi &&& ~~~ dpmask
      let s1 ← (s.setEntry index (newEntry t s.mmu.cop0 (s.mmu.tlbs index))).tableOps t cacheSize
        (codeOps paddr0 psize s.mmu.cop0.entrylo0)
      let s2 ← s1.tableOps t cacheSize (codeOps paddr1 psize s.mmu.cop0.entrylo1)
      let s3 ← s2.addPage t cacheSize host psize vaddr0 paddr0 s.mmu.cop0.entrylo0
      let s4 ← s3.addPage t cacheSize host psize (vaddr0 ||| psize) paddr1 s.mmu.cop0.entrylo1
      return s4.setHint index := by
  unfold writeEntry4k addPage
  dsimp only
  split
  · rfl
  · refine bind_congr fun s1 => bind_congr fun s2 => ?_
    split <;> split <;> rfl

/-- What a call of tlbwi or tlbwr that returns leaves, if the index is not too high. -/
def written (t : CpuType) (m : Mmu) (index : Nat) : Mmu where
  cop0 := m.cop0
  tlbs := Function.update m.tlbs index (newEntry t m.cop0 (m.tlbs index))
  lastWrittenTlbIndex := index

theorem writeEntry3k_mmu {index : Nat} (h : s.writeEntry3k t cacheSize host index = .ok s') :
    s'.mmu = written t s.mmu index := by
  obtain ⟨s1, h1, h⟩ := Lib.bind_eq_ok h
  have hs1 : (s1.setHint index).mmu = written t s.mmu index := by
    rw [setHint, tableOps_mmu h1]
    rfl
  dsimp only at h
  split at h
  · cases h
  · split at h
    · exact (addTranslation_mmu h).trans hs1
    · cases h
      exact hs1

theorem writeEntry4k_mmu {index : Nat} (h : s.writeEntry4k t cacheSize host index = .ok s') :
    s'.mmu = written t s.mmu index := by
  rw [writeEntry4k_eq] at h
  split at h
  · cases h
  · obtain ⟨s1, h1, h⟩ := Lib.bind_eq_ok h
    obtain ⟨s2, h2, h⟩ := Lib.bind_eq_ok h
    obtain ⟨s3, h3, h⟩ := Lib.bind_eq_ok h
    obtain ⟨s4, h4, h⟩ := Lib.bind_eq_ok h
    cases h
    rw [setHint, addPage_mmu h4, addPage_mmu h3, tableOps_mmu h2, tableOps_mmu h1]
    rfl

theorem coprocTlbwri_mmu {randomflag : Bool} {random : Reg}
    (h : s.coprocTlbwri t cacheSize host randomflag random = .ok s') :
    ∃ index cop0, tlbwIndex t s.mmu.cop0 randomflag random = .ok (index, cop0) ∧
      s'.mmu = if t.nrOfTlbEntries ≤ index then { s.mmu with cop0 := cop0 }
        else written t { s.mmu with cop0 := cop0 } index := by
  obtain ⟨⟨index, cop0⟩, hindex, h⟩ := Lib.bind_eq_ok h
  refine ⟨index, cop0, hindex, ?_⟩
  dsimp only at h
  split at h
  · rename_i hhigh
    cases h
    rw [if_pos hhigh]
    rfl
  · rename_i hlow
    rw [if_neg hlow]
    split at h
    · cases h
    · obtain ⟨s1, h1, h⟩ := Lib.bind_eq_ok h
      have hs1 : s1.mmu = { s.mmu with cop0 := cop0 } := tableOps_mmu h1
      split at h
      · rw [writeEntry3k_mmu h, hs1]
      · rw [writeEntry4k_mmu h, hs1]

/-! ## When tlbwi exits -/

def Exits3k (c : Cop0) : Prop := anyBit c.status mips1IsolCaches = true

/-- Other CPUs: valid pages of 1 KB, or a page above 4 GB for 32-bit addresses. -/
def Exits4k (t : CpuType) (host : Addr → Option Nat) (c : Cop0) (old : MipsTlb) : Prop :=
  let mask := t.dpmask c.pagemask >>> 1
  hasOneKbPages t old.mask old.lo0 old.lo1 = true ∨ hasOneKbPages t c.pagemask c.entrylo0 c.entrylo1 = true ∨
    PageRejected t host (mask + 1) (entryPaddr t c.entrylo0 &&& ~~~ mask) c.entrylo0 ∨
    PageRejected t host (mask + 1) (entryPaddr t c.entrylo1 &&& ~~~ mask) c.entrylo1

def TlbwiExits (t : CpuType) (host : Addr → Option Nat) (s : MipsCpu) : Prop :=
  if t.mmuModel = .mmu3k then Exits3k s.mmu.cop0
  else Exits4k t host s.mmu.cop0 (s.mmu.tlbs (tlbIndex t s.mmu.cop0))

theorem TablesReady.invalidations (h : s.TablesReady t) {ops : List TableOp}
    (hops : ∀ o ∈ ops, ∃ addr flags, o = .invalidate addr flags ∨ o = .invalidateCode addr flags) :
    ∃ s', s.tableOps t cacheSize ops = .ok s' := by
  apply h.tableOps
  intro o ho
  obtain ⟨addr, flags, rfl | rfl⟩ := hops o ho
  · trivial
  · trivial

theorem codeOps_invalidate {paddr psize lo : Reg} : ∀ o ∈ codeOps paddr psize lo,
    ∃ addr flags, o = TableOp.invalidate addr flags ∨ o = .invalidateCode addr flags := by
  intro o ho
  unfold codeOps at ho
  split at ho
  · obtain ⟨addr, -, rfl⟩ := List.mem_map.mp ho
    exact ⟨addr, invalidatePaddr, Or.inr rfl⟩
  · cases ho

theorem TablesReady.writeEntry3k (h : s.TablesReady t) (index : Nat) :
    (∃ s', s.writeEntry3k t cacheSize host index = .ok s') ↔ ¬ Exits3k s.mmu.cop0 := by
  have hset : TablesReady t (s.setEntry index (newEntry t s.mmu.cop0 (s.mmu.tlbs index))) := h.of_dyn rfl
  obtain ⟨s1, h1⟩ := @invalidations t cacheSize _ hset
    ( if anyBit s.mmu.cop0.entrylo0 r2k3kEntryloD then
      [.invalidateCode (s.mmu.cop0.entrylo0 &&& r2k3kEntryloPfnMask) invalidatePaddr] else []) (by
    intro o ho
    split at ho
    · obtain rfl := List.mem_singleton.mp ho
      exact ⟨_, _, Or.inr rfl⟩
    · cases ho)
  have hv : Arch.mips.Aligned (s.mmu.cop0.entryhi &&& r2k3kEntryhiVpnMask) := by
    show s.mmu.cop0.entryhi &&& r2k3kEntryhiVpnMask &&& 0xfff#64 = 0
    rw [BitVec.and_assoc]
    exact BitVec.and_zero
  have hp : Arch.mips.Aligned (s.mmu.cop0.entrylo0 &&& r2k3kEntryloPfnMask) := by
    show s.mmu.cop0.entrylo0 &&& r2k3kEntryloPfnMask &&& 0xfff#64 = 0
    rw [BitVec.and_assoc]
    exact BitVec.and_zero
  have hbelow : ¬ 0xffffffff#64 < s.mmu.cop0.entrylo0 &&& r2k3kEntryloPfnMask := by
    have hle : (s.mmu.cop0.entrylo0 &&& r2k3kEntryloPfnMask).toNat ≤ r2k3kEntryloPfnMask.toNat := by
      rw [BitVec.toNat_and]
      exact Nat.and_le_right
    rw [BitVec.lt_def]
    exact Nat.not_lt.mpr (Nat.le_trans hle (by decide))
  unfold MipsCpu.writeEntry3k Exits3k
  dsimp only
  rw [h1]
  cases hisol : anyBit s.mmu.cop0.status mips1IsolCaches with
  | true =>
    refine iff_of_false ?_ (fun hn => hn rfl)
    rintro ⟨s', hs⟩
    cases hs
  | false =>
    refine iff_of_true ?_ Bool.false_ne_true
    show ∃ s', (if anyBit s.mmu.cop0.entrylo0 r2k3kEntryloV = true then _ else _) = Except.ok s'
    split
    · have hready : TablesReady t (s1.setHint index) := (hset.of_tableOps h1).of_dyn rfl
      exact (hready.addTranslation hv hp).mpr (fun hr => hbelow hr.2.2)
    · exact ⟨_, rfl⟩

theorem TablesReady.writeEntry4k (h : s.TablesReady t) (index : Nat) :
    (∃ s', s.writeEntry4k t cacheSize host index = .ok s') ↔
      ¬ (hasOneKbPages t s.mmu.cop0.pagemask s.mmu.cop0.entrylo0 s.mmu.cop0.entrylo1 = true ∨
        PageRejected t host (t.dpmask s.mmu.cop0.pagemask >>> 1 + 1)
          (entryPaddr t s.mmu.cop0.entrylo0 &&& ~~~ (t.dpmask s.mmu.cop0.pagemask >>> 1)) s.mmu.cop0.entrylo0 ∨
        PageRejected t host (t.dpmask s.mmu.cop0.pagemask >>> 1 + 1)
          (entryPaddr t s.mmu.cop0.entrylo1 &&& ~~~ (t.dpmask s.mmu.cop0.pagemask >>> 1)) s.mmu.cop0.entrylo1) := by
  rw [writeEntry4k_eq]
  split
  · rename_i hkb
    refine iff_of_false ?_ (fun hn => hn (Or.inl hkb))
    rintro ⟨s', hs⟩
    cases hs
  · rename_i hkb
    dsimp only
    have halign : t.dpmask s.mmu.cop0.pagemask >>> 1 + 1 = 0x1000#64 →
        Arch.mips.Aligned (t.hiVaddr s.mmu.cop0.entryhi &&& ~~~ t.dpmask s.mmu.cop0.pagemask) :=
      aligned_vaddr
    have halign1 : t.dpmask s.mmu.cop0.pagemask >>> 1 + 1 = 0x1000#64 →
        Arch.mips.Aligned ((t.hiVaddr s.mmu.cop0.entryhi &&& ~~~ t.dpmask s.mmu.cop0.pagemask) |||
          (t.dpmask s.mmu.cop0.pagemask >>> 1 + 1)) := by
      intro hsize
      have hv := aligned_vaddr (x := t.hiVaddr s.mmu.cop0.entryhi) hsize
      rw [hsize]
      show (_ ||| 0x1000#64) &&& 0xfff#64 = 0
      rw [BitVec.and_or_distrib_right]
      exact (congrArg (· ||| _) hv).trans BitVec.zero_or
    have hset : TablesReady t (s.setEntry index (newEntry t s.mmu.cop0 (s.mmu.tlbs index))) := h.of_dyn rfl
    constructor
    · rintro ⟨s', hs⟩
      obtain ⟨s1, h1, hs⟩ := Lib.bind_eq_ok hs
      obtain ⟨s2, h2, hs⟩ := Lib.bind_eq_ok hs
      obtain ⟨s3, h3, hs⟩ := Lib.bind_eq_ok hs
      obtain ⟨s4, h4, -⟩ := Lib.bind_eq_ok hs
      have hready2 : s2.TablesReady t := (hset.of_tableOps h1).of_tableOps h2
      have hok0 := (hready2.addPage (fun hsize => ⟨halign hsize, aligned_paddr hsize⟩)).mp ⟨s3, h3⟩
      have hok1 := ((hready2.of_addPage h3).addPage (fun hsize => ⟨halign1 hsize, aligned_paddr hsize⟩)).mp ⟨s4, h4⟩
      rintro (h | h | h)
      · exact hkb h
      · exact hok0 h
      · exact hok1 h
    · intro hn
      rw [not_or, not_or] at hn
      obtain ⟨-, hok0, hok1⟩ := hn
      obtain ⟨s1, h1⟩ := hset.invalidations codeOps_invalidate
      obtain ⟨s2, h2⟩ := (hset.of_tableOps h1).invalidations codeOps_invalidate
      have hready2 : s2.TablesReady t := (hset.of_tableOps h1).of_tableOps h2
      obtain ⟨s3, h3⟩ := (hready2.addPage (fun hsize => ⟨halign hsize, aligned_paddr hsize⟩)).mpr hok0
      obtain ⟨s4, h4⟩ := ((hready2.of_addPage h3).addPage
        (fun hsize => ⟨halign1 hsize, aligned_paddr hsize⟩)).mpr hok1
      rw [h1]
      refine ⟨s4.setHint index, ?_⟩
      show (s1.tableOps t cacheSize _).bind _ = _
      rw [h2]
      show (s2.addPage t cacheSize host _ _ _ _).bind _ = _
      rw [h3]
      show (s3.addPage t cacheSize host _ _ _ _).bind _ = _
      rw [h4]
      rfl

theorem coprocTlbwi_eq (random : Reg) (hi : tlbIndex t s.mmu.cop0 < t.nrOfTlbEntries) :
    s.coprocTlbwri t cacheSize host false random =
      if t.mmuModel ≠ .mmu3k ∧ hasOneKbPages t (s.mmu.tlbs (tlbIndex t s.mmu.cop0)).mask
        (s.mmu.tlbs (tlbIndex t s.mmu.cop0)).lo0 (s.mmu.tlbs (tlbIndex t s.mmu.cop0)).lo1 = true then
        .error .oneKbPages
      else (do
        let s1 ← s.invalidatePages t cacheSize
          (oldEntryPages t s.mmu.cop0.entryhi (s.mmu.tlbs (tlbIndex t s.mmu.cop0)))
        if t.mmuModel = .mmu3k then s1.writeEntry3k t cacheSize host (tlbIndex t s.mmu.cop0)
        else s1.writeEntry4k t cacheSize host (tlbIndex t s.mmu.cop0)) := by
  show (if t.nrOfTlbEntries ≤ tlbIndex t s.mmu.cop0 then _ else _) = _
  rw [if_neg (Nat.not_le.mpr hi)]
  unfold setCop0
  by_cases hkb : t.mmuModel ≠ .mmu3k ∧ hasOneKbPages t (s.mmu.tlbs (tlbIndex t s.mmu.cop0)).mask
      (s.mmu.tlbs (tlbIndex t s.mmu.cop0)).lo0 (s.mmu.tlbs (tlbIndex t s.mmu.cop0)).lo1 = true
  · rw [if_pos hkb, if_pos hkb]
    rfl
  · rw [if_neg hkb, if_neg hkb]

theorem TablesReady.coprocTlbwi (h : s.TablesReady t) (random : Reg) (hi : tlbIndex t s.mmu.cop0 < t.nrOfTlbEntries) :
    (∃ s', s.coprocTlbwri t cacheSize host false random = .ok s') ↔ ¬ TlbwiExits t host s := by
  have hinvalid : ∃ s1, s.invalidatePages t cacheSize
      (oldEntryPages t s.mmu.cop0.entryhi (s.mmu.tlbs (tlbIndex t s.mmu.cop0))) = .ok s1 := by
    apply h.invalidations
    intro o ho
    obtain ⟨addr, -, rfl⟩ := List.mem_map.mp ho
    exact ⟨addr, invalidateVaddr, Or.inl rfl⟩
  obtain ⟨s1, h1⟩ := hinvalid
  have hready1 : s1.TablesReady t := h.of_tableOps h1
  have hmmu1 : s1.mmu = s.mmu := tableOps_mmu h1
  have hcall : s.coprocTlbwri t cacheSize host false random =
      if t.mmuModel ≠ .mmu3k ∧ hasOneKbPages t (s.mmu.tlbs (tlbIndex t s.mmu.cop0)).mask
        (s.mmu.tlbs (tlbIndex t s.mmu.cop0)).lo0 (s.mmu.tlbs (tlbIndex t s.mmu.cop0)).lo1 = true then
        .error .oneKbPages
      else if t.mmuModel = .mmu3k then s1.writeEntry3k t cacheSize host (tlbIndex t s.mmu.cop0)
      else s1.writeEntry4k t cacheSize host (tlbIndex t s.mmu.cop0) := by
    rw [coprocTlbwi_eq random hi, h1]
    rfl
  rw [hcall]
  unfold TlbwiExits Exits4k
  by_cases h3k : t.mmuModel = .mmu3k
  · rw [if_neg (fun hkb => hkb.1 h3k), if_pos h3k, if_pos h3k, hready1.writeEntry3k, hmmu1]
  · rw [if_neg h3k, if_neg h3k]
    by_cases hkb : hasOneKbPages t (s.mmu.tlbs (tlbIndex t s.mmu.cop0)).mask
        (s.mmu.tlbs (tlbIndex t s.mmu.cop0)).lo0 (s.mmu.tlbs (tlbIndex t s.mmu.cop0)).lo1 = true
    · rw [if_pos ⟨h3k, hkb⟩]
      refine iff_of_false ?_ (fun hn => hn (Or.inl hkb))
      rintro ⟨s', hs⟩
      cases hs
    · rw [if_neg (fun hk => hkb hk.2), hready1.writeEntry4k, hmmu1]
      exact not_congr (or_iff_right hkb).symm

/-! ## tlbr after tlbwi -/

/-- The registers after a tlbr of an entry that was written from `saved`. -/
def restored (t : CpuType) (saved c : Cop0) : Cop0 :=
  if t.mmuModel = .mmu3k then { c with entryhi := saved.entryhi, entrylo0 := saved.entrylo0 }
  else if t.r4100 then
    { c with
      pagemask := saved.pagemask
      entryhi := saved.entryhi &&& ~~~ saved.pagemask
      entrylo0 := saved.entrylo0
      entrylo1 := saved.entrylo1 }
  else
    { c with
      pagemask := saved.pagemask
      entryhi := saved.entryhi
      entrylo0 := (saved.entrylo0 &&& ~~~ entryloG) ||| (saved.entrylo0 &&& saved.entrylo1 &&& entryloG)
      entrylo1 := (saved.entrylo1 &&& ~~~ entryloG) ||| (saved.entrylo0 &&& saved.entrylo1 &&& entryloG) }

/-- tlbr restores what tlbwi has written, whatever is in the registers by then, and other entries stay. -/
structure RoundTrip (t : CpuType) (s s' : MipsCpu) : Prop where
  unchanged : s'.mmu.cop0 = s.mmu.cop0
  registers : ∀ c, tlbIndex t c = tlbIndex t s.mmu.cop0 →
    ((s'.setCop0 c).coprocTlbr t).mmu.cop0 = restored t s.mmu.cop0 c
  immediately : (s'.coprocTlbr t).mmu.cop0 = restored t s.mmu.cop0 s.mmu.cop0
  others : ∀ j, j ≠ tlbIndex t s.mmu.cop0 →
    s'.mmu.tlbs j = s.mmu.tlbs j ∧ (s'.coprocTlbr t).mmu.tlbs j = s.mmu.tlbs j

theorem coprocTlbr_tlbs (s : MipsCpu) : (s.coprocTlbr t).mmu.tlbs = s.mmu.tlbs := by
  unfold coprocTlbr
  dsimp only
  split
  · rfl
  · split
    · rfl
    · split <;> rfl

theorem tlbG_or (x : Reg) (b : Bool) : anyBit ((x &&& ~~~ tlbG) ||| (if b then tlbG else 0)) tlbG = b ∧
    ((x &&& ~~~ tlbG) ||| (if b then tlbG else 0)) &&& ~~~ tlbG = x &&& ~~~ tlbG := by
  have hoff : x &&& ~~~ tlbG &&& tlbG = 0 := by
    rw [BitVec.and_assoc, BitVec.and_comm (~~~ tlbG), BitVec.and_not_self]
    exact BitVec.and_zero
  have hkeep : x &&& ~~~ tlbG &&& ~~~ tlbG = x &&& ~~~ tlbG := by
    rw [BitVec.and_assoc, BitVec.and_self]
  cases b with
  | true =>
    refine ⟨?_, ?_⟩
    · unfold anyBit
      rw [if_pos rfl, BitVec.and_or_distrib_right, hoff]
      decide
    · rw [if_pos rfl, BitVec.and_or_distrib_right, hkeep, BitVec.and_not_self]
      exact BitVec.or_zero
  | false =>
    have hzero : (x &&& ~~~ tlbG) ||| (if false = true then tlbG else 0) = x &&& ~~~ tlbG := BitVec.or_zero
    rw [hzero]
    exact ⟨anyBit_eq_false hoff, hkeep⟩

theorem entryloG_and (x : Reg) : (if anyBit x entryloG then entryloG else 0) = x &&& entryloG := by
  have hg : entryloG = BitVec.twoPow 64 0 := by decide
  rw [hg, anyBit_twoPow x (by decide), BitVec.and_twoPow]
  rfl

theorem coprocTlbr_written {c saved : Cop0} (hi : tlbIndex t c < t.nrOfTlbEntries)
    (hg : t.mmuModel ≠ .mmu3k → t.r4100 = false → saved.entryhi &&& tlbG = 0) {old : MipsTlb}
    (he : s.mmu.tlbs (tlbIndex t c) = newEntry t saved old) (hc : s.mmu.cop0 = c) :
    (s.coprocTlbr t).mmu.cop0 = restored t saved c := by
  subst hc
  unfold coprocTlbr restored
  rw [if_neg (Nat.not_le.mpr hi), he]
  by_cases h3k : t.mmuModel = .mmu3k
  · unfold newEntry
    rw [if_pos h3k, if_pos h3k, if_pos h3k]
    rfl
  · rw [if_neg h3k, if_neg h3k]
    cases hr : t.r4100 with
    | true =>
      unfold newEntry
      rw [if_neg h3k, if_pos hr]
      rfl
    | false =>
      have hhi : saved.entryhi &&& ~~~ tlbG = saved.entryhi := by
        calc saved.entryhi &&& ~~~ tlbG
            = (saved.entryhi &&& ~~~ tlbG) ||| (saved.entryhi &&& tlbG) := by
              rw [hg h3k hr]
              exact BitVec.or_zero.symm
          _ = saved.entryhi &&& (~~~ tlbG ||| tlbG) := BitVec.and_or_distrib_left.symm
          _ = saved.entryhi := by
              rw [BitVec.or_comm, BitVec.or_not_self, BitVec.and_allOnes]
      obtain ⟨hbit, hclear⟩ := tlbG_or saved.entryhi (anyBit (saved.entrylo0 &&& saved.entrylo1) entryloG)
      have hnew : newEntry t saved old =
          { hi := (saved.entryhi &&& ~~~ tlbG) |||
              (if anyBit (saved.entrylo0 &&& saved.entrylo1) entryloG then tlbG else 0)
            lo0 := saved.entrylo0 &&& ~~~ entryloG
            lo1 := saved.entrylo1 &&& ~~~ entryloG
            mask := saved.pagemask } := by
        unfold newEntry
        rw [if_neg h3k, hr]
        rfl
      rw [hnew]
      rw [hbit, hclear, hhi, entryloG_and, BitVec.and_assoc saved.entrylo0 (~~~ entryloG), BitVec.and_self,
        BitVec.and_assoc saved.entrylo1 (~~~ entryloG), BitVec.and_self]
      rfl

/-- tlbwi and tlbr, from any ENTRYHI that can be written: unless the emulator exits, the registers are restored. -/
theorem roundTrip_iff (h : s.TablesReady t) (hi : tlbIndex t s.mmu.cop0 < t.nrOfTlbEntries)
    (hhi : Leaves t .entryhi s.mmu.cop0.entryhi) (random : Reg) :
    (∃ s', s.coprocTlbwri t cacheSize host false random = .ok s' ∧ RoundTrip t s s') ↔ ¬ TlbwiExits t host s := by
  rw [← h.coprocTlbwi random hi]
  constructor
  · intro ⟨s', hs, _⟩
    exact ⟨s', hs⟩
  · intro ⟨s', hs⟩
    obtain ⟨index, cop0, hindex, hmmu⟩ := coprocTlbwri_mmu hs
    cases hindex
    rw [if_neg (Nat.not_le.mpr hi)] at hmmu
    have hcop0 : s'.mmu.cop0 = s.mmu.cop0 := by
      rw [hmmu]
      rfl
    have hentry : ∀ c, tlbIndex t c = tlbIndex t s.mmu.cop0 →
        s'.mmu.tlbs (tlbIndex t c) = newEntry t s.mmu.cop0 (s.mmu.tlbs (tlbIndex t s.mmu.cop0)) := by
      intro c hc
      rw [hc, hmmu]
      exact Function.update_self _ _ _
    have hothers : ∀ j, j ≠ tlbIndex t s.mmu.cop0 → s'.mmu.tlbs j = s.mmu.tlbs j := by
      intro j hj
      rw [hmmu]
      exact Function.update_of_ne hj _ _
    refine ⟨s', hs, hcop0, ?_, ?_, ?_⟩
    · intro c hc
      exact coprocTlbr_written (hc ▸ hi) hhi.entryhi_tlbG (hentry c hc) rfl
    · exact coprocTlbr_written hi hhi.entryhi_tlbG (hentry _ rfl) hcop0
    · intro j hj
      rw [coprocTlbr_tlbs]
      exact ⟨hothers j hj, hothers j hj⟩

/-! ## tlbwr -/

/-- tlbwr with a result of random(): it does not divide by zero, and what it writes is not a wired entry. -/
structure TlbwrSafe (t : CpuType) (cacheSize : Nat) (host : Addr → Option Nat) (s : MipsCpu) (random : Reg) : Prop where
  index : ∃ i c, tlbwIndex t s.mmu.cop0 true random = .ok (i, c) ∧
    (i < t.nrOfTlbEntries → s.mmu.cop0.wired.toNat ≤ i)
  kept : ∀ s', s.coprocTlbwri t cacheSize host true random = .ok s' →
    ∀ j < s.mmu.cop0.wired.toNat, s'.mmu.tlbs j = s.mmu.tlbs j

theorem tlbwrSafe_of_index {random : Reg} (h : ∃ i c, tlbwIndex t s.mmu.cop0 true random = .ok (i, c) ∧
    (i < t.nrOfTlbEntries → s.mmu.cop0.wired.toNat ≤ i)) : TlbwrSafe t cacheSize host s random := by
  refine ⟨h, fun s' hs j hj => ?_⟩
  obtain ⟨i, c, hi, hwired⟩ := h
  obtain ⟨index, cop0, hindex, hmmu⟩ := coprocTlbwri_mmu hs
  cases hi.symm.trans hindex
  rw [hmmu]
  split
  · rfl
  · have hne : j ≠ i := by
      omega
    exact Function.update_of_ne hne _ _

theorem tlbwIndex_random (h3k : t.exc3k = false) (c : Cop0) (random : Reg) : tlbwIndex t c true random =
    if BitVec.ofNat 64 t.nrOfTlbEntries - c.wired = 0 then .error .divisionByZero
    else .ok (((c.wired + random % (BitVec.ofNat 64 t.nrOfTlbEntries - c.wired)) &&& randomMask).toNat,
      { c with random := c.wired + random % (BitVec.ofNat 64 t.nrOfTlbEntries - c.wired) }) := by
  unfold tlbwIndex
  rw [if_pos rfl, h3k]
  rfl

theorem toNat_randomMask (x : Reg) : (x &&& randomMask).toNat = x.toNat % 64 := by
  rw [BitVec.toNat_and]
  exact Nat.and_two_pow_sub_one_eq_mod x.toNat 6

theorem nrOfTlbEntries_le {name : String} (h : (name, t) ∈ mipsCpuTypeDefs) :
    0 < t.nrOfTlbEntries ∧ t.nrOfTlbEntries ≤ 192 := by
  have hall : ∀ d ∈ mipsCpuTypeDefs, 0 < d.2.nrOfTlbEntries ∧ d.2.nrOfTlbEntries ≤ 192 := by
    decide +kernel
  exact hall _ h

/-- tlbwr is safe, whatever random() returns, if and only if there are fewer wired entries than entries, and RANDOM
has enough bits for the entries or no entry is wired. -/
theorem tlbwrSafe_iff {name : String} (ht : (name, t) ∈ mipsCpuTypeDefs) (h3k : t.exc3k = false)
    (hw : Leaves t .wired s.mmu.cop0.wired) :
    (∀ random : Reg, random.toNat < 2 ^ 31 → TlbwrSafe t cacheSize host s random) ↔
      s.mmu.cop0.wired.toNat < t.nrOfTlbEntries ∧ (t.nrOfTlbEntries ≤ 64 ∨ s.mmu.cop0.wired = 0) := by
  obtain ⟨hpos, hn⟩ := nrOfTlbEntries_le ht
  have hwired := hw.wired_lt
  have hn64 : (BitVec.ofNat 64 t.nrOfTlbEntries).toNat = t.nrOfTlbEntries := by
    rw [BitVec.toNat_ofNat]
    exact Nat.mod_eq_of_lt (by omega)
  have hrange : (BitVec.ofNat 64 t.nrOfTlbEntries - s.mmu.cop0.wired).toNat =
      (2 ^ 64 - s.mmu.cop0.wired.toNat + t.nrOfTlbEntries) % 2 ^ 64 := by
    rw [BitVec.toNat_sub, hn64]
  constructor
  · intro h
    by_contra hcond
    -- a result of random() for which the sum is 64, so that the index is 0
    have hwrap : ∀ random : Reg, random.toNat = 64 - s.mmu.cop0.wired.toNat →
        random.toNat < (BitVec.ofNat 64 t.nrOfTlbEntries - s.mmu.cop0.wired).toNat → s.mmu.cop0.wired.toNat = 0 := by
      intro random hrandom hlt
      obtain ⟨i, c, hi, hsafe⟩ := (h random (by omega)).index
      rw [tlbwIndex_random h3k] at hi
      split at hi
      · cases hi
      · cases hi
        rw [toNat_randomMask, BitVec.toNat_add, BitVec.toNat_umod, Nat.mod_eq_of_lt hlt, hrandom] at hsafe
        have hzero : (s.mmu.cop0.wired.toNat + (64 - s.mmu.cop0.wired.toNat)) % 2 ^ 64 % 64 = 0 := by omega
        rw [hzero] at hsafe
        have := hsafe hpos
        omega
    obtain ⟨random, hrandom⟩ : ∃ random : Reg, random.toNat = 64 - s.mmu.cop0.wired.toNat :=
      ⟨BitVec.ofNat 64 (64 - s.mmu.cop0.wired.toNat), by rw [BitVec.toNat_ofNat]; omega⟩
    by_cases heq : s.mmu.cop0.wired.toNat = t.nrOfTlbEntries
    · -- the division by zero
      obtain ⟨i, c, hi, -⟩ := (h 0 (by decide)).index
      have hdiff : BitVec.ofNat 64 t.nrOfTlbEntries - s.mmu.cop0.wired = 0 := by
        apply BitVec.eq_of_toNat_eq
        rw [hrange, heq]
        show _ = 0
        omega
      rw [tlbwIndex_random h3k, if_pos hdiff] at hi
      cases hi
    · have hwired0 := hwrap random hrandom (by rw [hrange, hrandom]; omega)
      refine hcond ⟨by omega, Or.inr ?_⟩
      apply BitVec.eq_of_toNat_eq
      exact hwired0
  · intro ⟨hlt, hbits⟩ random _
    apply tlbwrSafe_of_index
    have hdiff : (BitVec.ofNat 64 t.nrOfTlbEntries - s.mmu.cop0.wired).toNat =
        t.nrOfTlbEntries - s.mmu.cop0.wired.toNat := by
      rw [hrange]
      omega
    have hne : BitVec.ofNat 64 t.nrOfTlbEntries - s.mmu.cop0.wired ≠ 0 := by
      intro h0
      rw [h0] at hdiff
      have : (0 : Reg).toNat = 0 := rfl
      omega
    rw [tlbwIndex_random h3k, if_neg hne]
    refine ⟨_, _, rfl, fun _ => ?_⟩
    have hmod : random.toNat % (t.nrOfTlbEntries - s.mmu.cop0.wired.toNat) <
        t.nrOfTlbEntries - s.mmu.cop0.wired.toNat :=
      Nat.mod_lt _ (by omega)
    rw [toNat_randomMask, BitVec.toNat_add, BitVec.toNat_umod, hdiff]
    obtain hbits | hzero := hbits
    · rw [Nat.mod_eq_of_lt (by omega), Nat.mod_eq_of_lt (by omega)]
      exact Nat.le_add_right _ _
    · rw [hzero]
      exact Nat.zero_le _

end MipsCpu

/-! ## An R4000 and a VR4121 -/

def emptyTlb (c : Cop0) : MipsCpu where
  dyn := Cpu.start .mode64 0 Tc.init
  mem := Memory.init
  mmu := ⟨c, fun _ => ⟨0, 0, 0, 0⟩, 0⟩
  delaySlot := 0
  isHalted := false

def vr4121 : CpuType := cpuTypeDef true false .mmu4k 3 32

def entryRegisters (entrylo0 entrylo1 pagemask entryhi : Reg) : Cop0 :=
  ⟨5, 0, entrylo0, entrylo1, 0, pagemask, 0, 0, entryhi, 0, 0, 0, 0, 0⟩

theorem emptyTlb_ready {t : CpuType} (ht : t.mode = .mode64) (c : Cop0) : (emptyTlb c).TablesReady t :=
  ⟨@Tables.Good.init .mips .mode64 rfl 0, ht.symm⟩

theorem leaves_of_eval {t : CpuType} {r : Cop0Reg} (s : MipsCpu) (value : Reg) {x : Reg}
    (h : (s.coprocRegisterWrite t 65536 r value true).toOption.map (fun s => s.mmu.cop0.get r) = some x) :
    Leaves t r x := by
  obtain ⟨s', hs, hx⟩ := Lib.eval_eq_ok _ _ _ h
  exact ⟨65536, s, s', value, true, hs, hx⟩

/-- A pair of pages of 16 KB, of which one is global. -/
theorem roundTrip_r4000 : ∃ s', (emptyTlb (entryRegisters 0x1f 0x41e 0x6000 0x40000007)).coprocTlbwri r4000 65536
      (fun _ => none) false 0 = .ok s' ∧
    MipsCpu.RoundTrip r4000 (emptyTlb (entryRegisters 0x1f 0x41e 0x6000 0x40000007)) s' := by
  refine (MipsCpu.roundTrip_iff (emptyTlb_ready rfl _) (by decide)
    (leaves_of_eval (emptyTlb (entryRegisters 0 0 0 0)) 0x40000007 (by decide +kernel)) 0).mpr ?_
  intro h
  rw [MipsCpu.TlbwiExits, if_neg (by decide)] at h
  obtain h | h | ⟨-, h, -⟩ | ⟨-, h, -⟩ := h
  · exact absurd h (by decide)
  · exact absurd h (by decide)
  · exact h rfl
  · exact h rfl

/-- Pages of 1 KB. -/
theorem not_roundTrip_vr4121 :
    Leaves vr4121 .entrylo0 0x1e ∧ Leaves vr4121 .entrylo1 0 ∧ Leaves vr4121 .pagemask 0 ∧ Leaves vr4121 .entryhi 0 ∧
    ¬ ∃ s', (emptyTlb (entryRegisters 0x1e 0 0 0)).coprocTlbwri vr4121 65536 (fun _ => none) false 0 = .ok s' ∧
      MipsCpu.RoundTrip vr4121 (emptyTlb (entryRegisters 0x1e 0 0 0)) s' := by
  refine ⟨leaves_of_eval (emptyTlb (entryRegisters 0 0 0 0)) 0x1e (by decide +kernel),
    leaves_of_eval (emptyTlb (entryRegisters 0 0 0 0)) 0 (by decide +kernel),
    leaves_of_eval (emptyTlb (entryRegisters 0 0 0 0)) 0 (by decide +kernel),
    leaves_of_eval (emptyTlb (entryRegisters 0 0 0 0)) 0 (by decide +kernel), ?_⟩
  rintro ⟨s', hs, -⟩
  have hexit : (emptyTlb (entryRegisters 0x1e 0 0 0)).coprocTlbwri vr4121 65536 (fun _ => none) false 0 =
      .error .oneKbPages := by
    rw [MipsCpu.coprocTlbwi_eq 0 (by decide)]
    rfl
  rw [hexit] at hs
  cases hs

/-- With `n` wired entries. -/
def wiredEntries (n : Reg) : MipsCpu := emptyTlb ⟨0, 0, 0, 0, 0, 0, n, 0, 0, 0, 0, 0, 0, 0⟩

/-- The last entry is not wired. -/
theorem tlbwrSafe_r4000 : MipsCpu.TlbwrSafe r4000 65536 (fun _ => none) (wiredEntries 47) 0x7fffffff :=
  (MipsCpu.tlbwrSafe_iff (by decide +kernel : ("R4000", r4000) ∈ mipsCpuTypeDefs) rfl
    (leaves_of_eval (wiredEntries 0) 47 (by decide +kernel))).mpr (by decide) 0x7fffffff (by decide)

/-- All entries are wired, or more. -/
theorem not_tlbwrSafe_r4000 :
    Leaves r4000 .wired 48 ∧ MipsCpu.tlbwIndex r4000 (wiredEntries 48).mmu.cop0 true 7 = .error .divisionByZero ∧
    Leaves r4000 .wired 49 ∧
    (MipsCpu.tlbwIndex r4000 (wiredEntries 49).mmu.cop0 true 15).map (·.1) = .ok 0 ∧
    ¬ MipsCpu.TlbwrSafe r4000 65536 (fun _ => none) (wiredEntries 48) 7 ∧
    ¬ MipsCpu.TlbwrSafe r4000 65536 (fun _ => none) (wiredEntries 49) 15 := by
  refine ⟨leaves_of_eval (wiredEntries 0) 48 (by decide +kernel), by decide +kernel,
    leaves_of_eval (wiredEntries 0) 49 (by decide +kernel), by decide +kernel, ?_, ?_⟩
  · intro h
    obtain ⟨i, c, hi, -⟩ := h.index
    have hzero : MipsCpu.tlbwIndex r4000 (wiredEntries 48).mmu.cop0 true 7 = .error .divisionByZero := by
      decide +kernel
    rw [hzero] at hi
    cases hi
  · intro h
    obtain ⟨i, c, hi, hsafe⟩ := h.index
    have hindex : (MipsCpu.tlbwIndex r4000 (wiredEntries 49).mmu.cop0 true 15).map (·.1) = .ok 0 := by
      decide +kernel
    rw [hi] at hindex
    cases hindex
    exact absurd (hsafe (by decide)) (by decide)

end Gxemul.Mips
