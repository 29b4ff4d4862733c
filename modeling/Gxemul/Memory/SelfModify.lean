import Gxemul.Dyntrans.CodePages
import Gxemul.Memory.MemoryRw

/- Code that modifies itself.

   A page with translated instructions is not writable, so a store to it goes
   through memory_rw(), which resets the instructions. pc_to_pointers() makes the
   page it enters non-writable. A slow access makes it writable again, without
   leaving it: from then on to_be_translated() fills a page that can be written.

   A run keeps account of whether pc_to_pointers() has been called since. As long
   as it has, whenever an instruction is translated, no instruction outlives a
   store to its page. -/
namespace Gxemul

namespace Arch

def instrMask (a : Arch) : Addr := BitVec.ofNat 64 (2 ^ a.instrAlignmentShift - 1)

theorem and_not_instrMask (a : Arch) (v : Addr) :
    (v &&& ~~~ a.instrMask).toNat = v.toNat / 2 ^ a.instrAlignmentShift * 2 ^ a.instrAlignmentShift := by
  apply Nat.eq_of_testBit_eq
  intro i
  rw [Nat.testBit_mul_two_pow, Nat.testBit_div_two_pow]
  simp only [BitVec.testBit_toNat, instrMask, BitVec.getLsbD_and, BitVec.getLsbD_not, BitVec.getLsbD_ofNat,
    Nat.testBit_two_pow_sub_one]
  by_cases hi : i < 64
  · by_cases hs : a.instrAlignmentShift ≤ i
    · simp [hi, hs, Nat.not_lt.mpr hs, Nat.sub_add_cancel hs]
    · simp [hi, hs, Nat.lt_of_not_le hs]
  · have : v.getLsbD i = false := BitVec.getLsbD_of_ge v i (Nat.le_of_not_lt hi)
    by_cases hs : a.instrAlignmentShift ≤ i
    · simp [this, Nat.sub_add_cancel hs]
    · simp [this, hs]

def icAddr (a : Arch) (pc : Addr) (lowPc : Nat) : Addr :=
  ((pc &&& ~~~ BitVec.ofNat 64 ((a.icEntriesPerPage - 1) <<< a.instrAlignmentShift)) +
    BitVec.ofNat 64 (lowPc <<< a.instrAlignmentShift)) &&& ~~~ a.instrMask

theorem instrAlignmentShift_le (a : Arch) : a.instrAlignmentShift ≤ a.pageShift := by
  cases a <;> decide

theorem icAddr_offset (a : Arch) (pc : Addr) {lowPc : Nat} (h : lowPc < a.icEntriesPerPage) :
    (a.icAddr pc lowPc &&& a.offsetMask).toNat = lowPc * 2 ^ a.instrAlignmentShift := by
  have hle := a.instrAlignmentShift_le
  have hsplit : 2 ^ a.pageShift = a.icEntriesPerPage * 2 ^ a.instrAlignmentShift := by
    cases a <;> decide
  -- the bits of the page offset that are kept are those below the instruction's alignment
  have hlow : (pc &&& ~~~ BitVec.ofNat 64 ((a.icEntriesPerPage - 1) <<< a.instrAlignmentShift)).toNat % 2 ^ a.pageShift =
      pc.toNat % 2 ^ a.instrAlignmentShift := by
    apply Nat.eq_of_testBit_eq
    intro i
    rw [Nat.testBit_mod_two_pow, Nat.testBit_mod_two_pow]
    simp only [BitVec.testBit_toNat, BitVec.getLsbD_and, BitVec.getLsbD_not, BitVec.getLsbD_ofNat,
      Nat.testBit_shiftLeft, icEntriesPerPage, Nat.testBit_two_pow_sub_one]
    have := a.pageShift_lt
    by_cases h1 : i < a.instrAlignmentShift
    · have h2 : i < a.pageShift := by omega
      have h3 : ¬ a.instrAlignmentShift ≤ i := by omega
      have h4 : i < 64 := by omega
      simp [h1, h2, h3, h4]
    · by_cases h2 : i < a.pageShift
      · have h4 : i < 64 := by omega
        have h5 : i - a.instrAlignmentShift < a.pageShift - a.instrAlignmentShift := by omega
        simp [h1, h2, h4, h5, Nat.le_of_not_lt h1]
      · simp [h1, h2]
  have hpos : 0 < 2 ^ a.instrAlignmentShift := Nat.two_pow_pos _
  have hmod := Nat.mod_lt pc.toNat hpos
  have hlt : lowPc * 2 ^ a.instrAlignmentShift + 2 ^ a.instrAlignmentShift ≤ 2 ^ a.pageShift := by
    rw [hsplit, ← Nat.succ_mul]
    exact Nat.mul_le_mul_right _ h
  have hps := a.pageSize_cases
  unfold icAddr
  generalize pc &&& ~~~ BitVec.ofNat 64 ((a.icEntriesPerPage - 1) <<< a.instrAlignmentShift) = y at hlow ⊢
  rw [BitVec.toNat_and, a.toNat_offsetMask, Nat.and_two_pow_sub_one_eq_mod, a.and_not_instrMask, BitVec.toNat_add,
    BitVec.toNat_ofNat, Nat.shiftLeft_eq]
  generalize pc.toNat % 2 ^ a.instrAlignmentShift = r at hlow hmod
  have hs : 2 ^ a.instrAlignmentShift = 2 ∨ 2 ^ a.instrAlignmentShift = 4 := by
    cases a <;> decide
  rcases hs with hs | hs <;> rcases hps with hps | hps <;> rw [hs, hps] at hlt <;> rw [hs] at hmod ⊢ <;>
    rw [hps] at hlow ⊢ <;> omega
end Arch

/-! ## to_be_translated() -/

/-- Instruction `i` of a page has been translated: `ic->f` and bit `x` are set. -/
def Tc.noteTranslation (tc : Tc) (ofs i n x : Nat) : Tc :=
  let ppp := tc.page ofs
  let ics := Function.update ppp.ics i (.translated n)
  tc.setPage ofs { ppp with ics, translationsBitmap := ppp.translationsBitmap ||| 1#32 <<< x }

namespace Cpu
variable (conf : Conf) (env : Env)

/-- The end of to_be_translated(): "mark the page as containing a translation at
this part of the page". -/
def noteTranslation (c : Cpu) (addr : Addr) (lowPc n : Nat) : Cpu :=
  let x := (addr &&& conf.arch.offsetMask).toNat / (2 ^ conf.arch.pageShift / 32)
  { c with tc := c.tc.noteTranslation c.curIcPage lowPc n x }

/-- `to_be_translated()`, for instruction `lowPc` of the current page. `n` stands
for the function and the arguments that the instruction word is turned into. -/
def toBeTranslated (c : Cpu) (mem : Memory) (lowPc n : Nat) : Except Exit (Cpu × Memory) :=
  let addr := conf.arch.icAddr c.pc lowPc
  let c := { c with pc := addr }
  if (c.tables.slotOf conf.arch addr).hostLoad ≠ none then .ok (c.noteTranslation conf addr lowPc n, mem)
  else do
    let (c, mem, ok) ← c.memoryRw conf env ⟨addr, 2 ^ conf.arch.instrAlignmentShift, false, cacheInstruction⟩ mem
    return (if ok then c.noteTranslation conf addr lowPc n else c, mem)

end Cpu

/-! ## Runs -/

/-- A CPU and its memory, with two things to remember: whether pc_to_pointers()
has been called since an access mapped the current page writable, and the
physical page that has just been stored to. -/
structure Executing where
  cpu : Cpu
  mem : Memory
  entered : Bool
  stored : Option Addr

/-- What a CPU does. A data access uses the fast path if it can. -/
inductive ExecOp where
  | pcToPointers (pc : Addr) (host : Addr → Option Nat) (v2p : V2p)
  | pcToPointersGeneric (pc : Addr) (host : Addr → Option Nat) (v2p : V2p)
  | toBeTranslated (env : Env) (lowPc n : Nat)
  | data (env : Env) (vaddr : Addr) (len : Nat) (write : Bool)
  | invalidate (o : TableOp)

/-- An update that makes physical page `p` writable. -/
def TableOp.mapsWritable (p : Addr) : TableOp → Bool
  | .update _ _ w q => q == p && Vph.dataFlags w != 0
  | _ => false

/-- The physical page that a store through memory_rw() changes: a device's or
that of the RAM, but not what the R3000 caches hold or what is outside of RAM. -/
def Env.storedPage (env : Env) (a : Arch) (acc : Access) (mem : Memory) : Option Addr :=
  match env.physicalAddress acc with
  | none => none
  | some (paddr, _) =>
    if (mem.deviceFor paddr).isNone && (env.servedByCache acc || env.outsideRam paddr) then none
    else some (a.pageAddr paddr)

namespace Executing
variable (conf : Conf)

def fastPage (s : Executing) (vaddr : Addr) (write : Bool) : Option Nat :=
  let slot := s.cpu.tables.slotOf conf.arch vaddr
  if write then slot.hostStore else slot.hostLoad

def curPage (s : Executing) : Addr := (s.cpu.tc.page s.cpu.curIcPage).physaddr

def step (s : Executing) : ExecOp → Except Exit Executing
  | .pcToPointers pc host v2p => do
    let cpu ← Cpu.pcToPointers conf host v2p { s.cpu with pc }
    return { s with cpu, entered := true, stored := none }
  | .pcToPointersGeneric pc host v2p => do
    let cpu ← Cpu.pcToPointersGeneric conf host v2p { s.cpu with pc }
    return { s with cpu, entered := true, stored := none }
  | .toBeTranslated env lowPc n => do
    let (cpu, mem) ← s.cpu.toBeTranslated conf env s.mem lowPc n
    return { s with cpu, mem, stored := none }
  | .data env vaddr len write =>
    if s.fastPage conf vaddr write ≠ none then
      .ok { s with stored := if write then some (s.cpu.tables.slotOf conf.arch vaddr).physAddr else none }
    else do
      let a : Access := ⟨vaddr, len, write, cacheData⟩
      let (cpu, mem, _) ← s.cpu.memoryRw conf env a s.mem
      return {
        cpu, mem
        entered := s.entered && !(Cpu.accessUpdate conf env a s.mem).any (TableOp.mapsWritable s.curPage)
        stored := if write then env.storedPage conf.arch a s.mem else none }
  | .invalidate o => do
    let cpu ← s.cpu.tableStep conf o
    return { s with cpu, stored := none }

/-- translate_v2p() allows reading and writing, and instructions are in the page. -/
def Legal : ExecOp → Prop
  | .toBeTranslated _ lowPc _ => lowPc < conf.arch.icEntriesPerPage
  | .data env _ _ _ => ∀ r, env.translateV2p = some r → r.2 = 2
  | .invalidate o => ∀ v hostPage w p, o ≠ .update v hostPage w p
  | _ => True

/-- A physical page with translated instructions is not writable, and no
instruction of a page is left translated when it has been stored to. -/
def CodeSafe (s : Executing) : Prop :=
  (∀ o, s.cpu.tc.InChain o → (s.cpu.tc.page o).translationsBitmap ≠ 0 →
    s.cpu.Protected conf (s.cpu.tc.page o).physaddr) ∧
  ∀ p, s.stored = some p → s.cpu.CleanAt p

/-- An instruction is translated in a page that has been mapped writable since it
was entered, an access re-points a page, or a device with a translation page is
stored to. -/
def Hazard (s : Executing) : ExecOp → Prop
  | .toBeTranslated _ _ _ => s.entered = false
  | .data env vaddr len write => s.fastPage conf vaddr write = none ∧
      ((∃ o, Cpu.accessUpdate conf env ⟨vaddr, len, write, cacheData⟩ s.mem = some o ∧
        o.RepointsTo conf.arch (fun _ => True) s.cpu) ∨
      (write = true ∧ ∃ paddr ok, env.translateV2p = some (paddr, ok) ∧ (s.mem.deviceFor paddr).isSome ∧
        s.cpu.tc.find conf.arch (conf.arch.pageAddr paddr) ≠ none))
  | _ => False

instance (c : Cpu) : (o : TableOp) → Decidable (o.RepointsTo conf.arch (fun _ => True) c)
  | .update _ _ _ _ => inferInstanceAs (Decidable (_ ∧ _ ∧ True))
  | .invalidate _ _ | .invalidateCode _ _ | .otherCpu _ => inferInstanceAs (Decidable False)

instance (s : Executing) : (o : ExecOp) → Decidable (s.Hazard conf o)
  | .toBeTranslated _ _ _ => inferInstanceAs (Decidable (_ = _))
  | .data env vaddr len write =>
    decidable_of_iff (s.fastPage conf vaddr write = none ∧
      (((Cpu.accessUpdate conf env ⟨vaddr, len, write, cacheData⟩ s.mem).any
        fun o => decide (o.RepointsTo conf.arch (fun _ => True) s.cpu)) = true ∨
      (write = true ∧ (env.translateV2p.any fun r => (s.mem.deviceFor r.1).isSome &&
        s.cpu.tc.find conf.arch (conf.arch.pageAddr r.1) != none) = true)))
      (by simp [Hazard, Option.any_eq_true])
  | .pcToPointers _ _ _ | .pcToPointersGeneric _ _ _ | .invalidate _ => inferInstanceAs (Decidable False)

def start (mode : Mode) (x : Nat) (tc : Tc) (mem : Memory) : Executing :=
  ⟨Cpu.start mode x tc.reset, mem, false, none⟩

end Executing

/-! ## One instruction -/

namespace Tc
variable {a : Arch} {tc : Tc} {ofs i n x : Nat}

theorem noteTranslation_same (tc : Tc) (ofs i n x o : Nat) :
    ((tc.noteTranslation ofs i n x).page o).nextOfs = (tc.page o).nextOfs ∧
      ((tc.noteTranslation ofs i n x).page o).physaddr = (tc.page o).physaddr := by
  by_cases ho : o = ofs
  · subst ho
    simp [noteTranslation, setPage]
  · simp [noteTranslation, setPage, Function.update_of_ne ho]

theorem noteTranslation_other {o : Nat} (ho : o ≠ ofs) : (tc.noteTranslation ofs i n x).page o = tc.page o :=
  Function.update_of_ne ho _ _

theorem noteTranslation_inChain (o : Nat) : (tc.noteTranslation ofs i n x).InChain o ↔ tc.InChain o := by
  have hbase : (tc.noteTranslation ofs i n x).base = tc.base := rfl
  exact ⟨inChain_of_same hbase.symm fun q => (noteTranslation_same tc ofs i n x q).1.symm,
    inChain_of_same hbase fun q => (noteTranslation_same tc ofs i n x q).1⟩

theorem WF.noteTranslation (h : tc.WF a) : (tc.noteTranslation ofs i n x).WF a := by
  obtain ⟨chain, h⟩ := h
  exact ⟨chain, h.of_same rfl rfl (fun o => (noteTranslation_same tc ofs i n x o).1)
    fun o => (noteTranslation_same tc ofs i n x o).2⟩

theorem noteTranslation_marked (hi : i < a.icEntriesPerPage) (hx : x = i / a.icsPerBit) {o : Nat}
    (h : Marked a (tc.page o)) : Marked a ((tc.noteTranslation ofs i n x).page o) := by
  by_cases ho : o = ofs
  · subst ho
    intro j m hj
    simp only [noteTranslation, setPage, Function.update_self] at hj ⊢
    by_cases hji : j = i
    · have hbit : i / a.icsPerBit < 32 := by
        rw [icEntriesPerPage_eq] at hi
        exact Nat.div_lt_of_lt_mul (by rw [Nat.mul_comm]; exact hi)
      rw [hji, hx]
      exact ⟨hi, by simp [hbit]⟩
    · rw [Function.update_of_ne hji] at hj
      obtain ⟨h1, h2⟩ := h j m hj
      exact ⟨h1, by rw [BitVec.getLsbD_or, h2, Bool.true_or]⟩
  · rw [noteTranslation_other ho]
    exact h

end Tc

namespace Cpu
variable {conf : Conf} {env : Env} {c c' : Cpu} {mem mem' : Memory}

theorem bit_of_offset (a : Arch) (lowPc : Nat) :
    lowPc * 2 ^ a.instrAlignmentShift / (2 ^ a.pageShift / 32) = lowPc / a.icsPerBit := by
  have hsize : 2 ^ a.pageShift / 32 = a.icsPerBit * 2 ^ a.instrAlignmentShift := by
    cases a <;> decide
  rw [hsize, Nat.mul_div_mul_right _ _ (Nat.two_pow_pos _)]

theorem Secure.noteTranslation (h : c.Secure conf) (he : c.Entered conf) {addr : Addr} {lowPc : Nat} (n : Nat)
    (hlow : lowPc < conf.arch.icEntriesPerPage)
    (haddr : (addr &&& conf.arch.offsetMask).toNat = lowPc * 2 ^ conf.arch.instrAlignmentShift) :
    (c.noteTranslation conf addr lowPc n).Secure conf ∧ (c.noteTranslation conf addr lowPc n).Entered conf := by
  unfold Cpu.noteTranslation
  rw [haddr, bit_of_offset]
  have hsame := Tc.noteTranslation_same c.tc c.curIcPage lowPc n (lowPc / conf.arch.icsPerBit)
  have hin := fun o => (@Tc.noteTranslation_inChain c.tc c.curIcPage lowPc n (lowPc / conf.arch.icsPerBit) o).mp
  refine ⟨⟨⟨h.wf.tables, h.wf.tc.noteTranslation⟩, ?_, ⟨h.safe.tracks, h.safe.fits, ?_, ?_, ?_⟩⟩, ?_, ?_⟩
  · intro k o ho
    obtain ⟨h1, h2⟩ := h.pages k o ho
    exact ⟨(Tc.noteTranslation_inChain o).mpr h1, (hsame o).2.trans h2⟩
  · exact fun o ho => Tc.noteTranslation_marked hlow rfl (h.safe.marked o (hin o ho))
  · intro o ho hb _
    rw [(hsame o).2]
    by_cases hcur : o = c.curIcPage
    · subst hcur
      exact he.2
    · rw [Tc.noteTranslation_other hcur] at hb
      exact h.safe.translated o (hin o ho) hb not_false
  · intro k o ho _
    rw [(hsame o).2]
    exact h.safe.linked k o ho not_false
  · exact (Tc.noteTranslation_inChain _).mpr he.1
  · rw [(hsame _).2]
    exact he.2

/-! ## One access -/

theorem page_of_mapsWritable {a : Access} {paddr q : Addr} {ok : Nat} (hp : env.physicalAddress a = some (paddr, ok))
    (h : (accessUpdate conf env a mem).any (TableOp.mapsWritable q) = true) : q = conf.arch.pageAddr paddr := by
  cases ho : accessUpdate conf env a mem with
  | none =>
    rw [ho] at h
    cases h
  | some o =>
    obtain ⟨paddr', ok', hostPage, w, hp', -, rfl⟩ := accessUpdate_eq ho
    rw [hp] at hp'
    cases hp'
    rw [ho] at h
    simp only [Option.any_some, TableOp.mapsWritable, Bool.and_eq_true, beq_iff_eq] at h
    exact h.1.symm

theorem Secure.mapped (h : c.Secure conf) {a : Access} {c1 : Cpu}
    (hr : ∀ o, accessUpdate conf env a mem = some o → ¬ o.RepointsTo conf.arch (fun _ => True) c)
    (hrun : Lib.runOps (tableStep conf) (accessUpdate conf env a mem).toList c = .ok c1) :
    c1.WF conf ∧ c1.PhysPagesOk conf ∧
      c1.SafeBut conf (fun q => (accessUpdate conf env a mem).any (TableOp.mapsWritable q) = true) ∧
      (c.Entered conf →
        (accessUpdate conf env a mem).any (TableOp.mapsWritable (c.tc.page c.curIcPage).physaddr) = false →
        c1.Entered conf) ∧ c1.tc = c.tc := by
  rcases runOps_toList hrun with ⟨-, rfl⟩ | ⟨op, ho, hs⟩
  · exact ⟨h.wf, h.pages, SafeBut.mono h.safe fun _ hf => hf.elim, fun he _ => he, rfl⟩
  · obtain ⟨paddr, ok, hostPage, w, -, -, rfl⟩ := accessUpdate_eq ho
    have hmaps : ∀ q, (accessUpdate conf env a mem).any (TableOp.mapsWritable q) = true ↔
        q = conf.arch.pageAddr paddr ∧ Vph.dataFlags w ≠ 0 := by
      intro q
      simp only [ho, Option.any_some, TableOp.mapsWritable, Bool.and_eq_true, beq_iff_eq, bne_iff_ne]
      exact and_congr_left fun _ => eq_comm
    have hrep := hr _ ho
    simp only [TableOp.RepointsTo, and_true, not_and, not_not] at hrep
    obtain ⟨hw, hpp, hsafe, htc, he⟩ := h.update hrep hs
    refine ⟨hw, hpp, hsafe.mono fun q hq => (hmaps q).mpr hq, fun hen hno => he hen fun hc => ?_, htc⟩
    rw [(hmaps _).mpr hc] at hno
    cases hno

theorem Secure.fetch (h : c.Secure conf) {addr : Addr} {len : Nat} {r : Bool}
    (hl : (c.tables.slotOf conf.arch addr).hostLoad = none)
    (hs : c.memoryRw conf env ⟨addr, len, false, cacheInstruction⟩ mem = .ok (c', mem', r)) :
    c'.Secure conf ∧ (c.Entered conf → c'.Entered conf) := by
  obtain ⟨c1, h1, h2⟩ := memoryRw_steps hs
  have hinv : accessInvalidation conf env ⟨addr, len, false, cacheInstruction⟩ mem = none := by
    unfold accessInvalidation
    split
    · rfl
    · simp [Access.cache, cacheInstruction, cacheData, cacheFlagsMask]
  have hread : ∀ q, (accessUpdate conf env ⟨addr, len, false, cacheInstruction⟩ mem).any
      (TableOp.mapsWritable q) = false := by
    intro q
    unfold accessUpdate
    split
    · rfl
    · split
      · dsimp only
        split <;> simp [TableOp.mapsWritable, Vph.dataFlags, hasFlag]
      · split
        · rfl
        · split
          · cases env.hostaddr (conf.arch.pageAddr _) false <;>
              simp [TableOp.mapsWritable, Vph.dataFlags, hasFlag, ramWriteflag, Access.cache, cacheInstruction,
                cacheFlagsMask, memoryUserAccess]
          · rfl
  have hr : ∀ o, accessUpdate conf env ⟨addr, len, false, cacheInstruction⟩ mem = some o →
      ¬ o.RepointsTo conf.arch (fun _ => True) c := by
    intro o ho hrep
    obtain ⟨paddr, ok, hostPage, w, -, -, rfl⟩ := accessUpdate_eq ho
    have h0 := hrep.1
    rw [Tables.slotOf_eq, Arch.addrToPagenr_pageAddr] at h0
    rw [Tables.slotOf_eq] at hl
    exact h.wf.tables.2.1.loaded _ h0 hl
  obtain ⟨hw, hpp, hsafe, he, -⟩ := h.mapped hr h1
  rw [hinv] at h2
  cases h2
  refine ⟨⟨hw, hpp, hsafe.mono fun q hq => ?_⟩, fun hen => he hen (hread _)⟩
  rw [hread q] at hq
  cases hq

theorem cleanAt_of_no_page (hw : c.WF conf) {p : Addr} (hf : c.tc.find conf.arch p = none) : c.CleanAt p := by
  intro o ho he
  have := hw.tc.inChain_find ho
  rw [he, hf] at this
  cases this

theorem Secure.data (h : c.Secure conf) {a : Access} {r : Bool} (hcache : a.cache = cacheData)
    (hphys : env.physicalAddress a = env.translateV2p) (h2 : ∀ r, env.translateV2p = some r → r.2 = 2)
    (hr : ∀ o, accessUpdate conf env a mem = some o → ¬ o.RepointsTo conf.arch (fun _ => True) c)
    (hdev : a.write = true → ∀ paddr ok, env.translateV2p = some (paddr, ok) → (mem.deviceFor paddr).isSome →
      c.tc.find conf.arch (conf.arch.pageAddr paddr) = none)
    (hs : c.memoryRw conf env a mem = .ok (c', mem', r)) :
    c'.Secure conf ∧
      (c.Entered conf →
        (accessUpdate conf env a mem).any (TableOp.mapsWritable (c.tc.page c.curIcPage).physaddr) = false →
        c'.Entered conf) ∧
      (a.write = true → ∀ p, env.storedPage conf.arch a mem = some p → c'.CleanAt p) := by
  obtain ⟨c1, h1, hinv⟩ := memoryRw_steps hs
  obtain ⟨hw, hpp, hsafe, he, htc⟩ := h.mapped hr h1
  -- an access that finds nothing behind its address leaves the CPU alone
  have hidle : accessUpdate conf env a mem = none → accessInvalidation conf env a mem = none → c' = c := by
    intro hno hno'
    rw [hno] at h1
    rw [hno'] at hinv
    cases h1
    cases hinv
    rfl
  cases ht : env.translateV2p with
  | none =>
    rw [ht] at hphys
    obtain rfl := hidle (by simp only [accessUpdate, hphys]) (by simp only [accessInvalidation, hphys])
    refine ⟨h, fun hen _ => hen, fun _ p hp => ?_⟩
    simp only [Env.storedPage, hphys] at hp
    cases hp
  | some pok =>
    obtain ⟨paddr, ok⟩ := pok
    obtain rfl : ok = 2 := h2 _ ht
    rw [ht] at hphys
    have hbut : c1.SafeBut conf (fun q => q = conf.arch.pageAddr paddr) :=
      hsafe.mono fun q hq => page_of_mapsWritable hphys hq
    have hstored : ∀ p, env.storedPage conf.arch a mem = some p → p = conf.arch.pageAddr paddr := by
      intro p hp
      simp only [Env.storedPage, hphys] at hp
      split at hp
      · cases hp
      · exact (Option.some.inj hp).symm
    cases hd : mem.deviceFor paddr with
    | some i =>
      have hno : accessInvalidation conf env a mem = none := by
        simp only [accessInvalidation, hphys, hd, Option.isSome_some, Bool.true_or, if_true]
      rw [hno] at hinv
      cases hinv
      cases hwr : a.write with
      | true =>
        have hf := hdev hwr paddr 2 ht (by rw [hd]; rfl)
        rw [← htc] at hf
        exact ⟨⟨hw, hpp, hbut.of_no_page hw hpp hf⟩, he, fun _ p hp => hstored p hp ▸ cleanAt_of_no_page hw hf⟩
      | false =>
        refine ⟨⟨hw, hpp, hsafe.mono fun q hq => ?_⟩, he, fun hf => by cases hf⟩
        simp only [accessUpdate, hphys, hd, hwr] at hq
        split at hq
        · simp [TableOp.mapsWritable, Vph.dataFlags, hasFlag] at hq
        · cases hq
    | none =>
      cases hout : (env.servedByCache a || env.outsideRam paddr) with
      | true =>
        obtain rfl := hidle (by simp only [accessUpdate, hphys, hd, hout, if_true])
          (by simp only [accessInvalidation, hphys, hd, hout, Option.isSome_none, Bool.false_or, Bool.true_or, if_true])
        refine ⟨h, fun hen _ => hen, fun _ p hp => ?_⟩
        simp only [Env.storedPage, hphys, hd, hout, Option.isNone_none, Bool.and_self, if_true] at hp
        cases hp
      | false =>
        cases hh : env.hostaddr (conf.arch.pageAddr paddr) a.write with
        | none =>
          obtain rfl := hidle
            (by simp only [accessUpdate, hphys, hd, hh, hout, Option.map_none, ite_self])
            (by simp only [accessInvalidation, hphys, hh, Option.isNone_none, Bool.or_true, if_true])
          refine ⟨h, fun hen _ => hen, fun hwr => ?_⟩
          rw [hwr] at hh
          cases hh
        | some memblock =>
          -- the page may be writable now, and its translations are reset
          have hyes : accessInvalidation conf env a mem = some (.invalidateCode paddr invalidatePaddr) := by
            simp only [accessInvalidation, hphys, hd, hh, hout, hcache, Option.isSome_none, Option.isNone_some,
              Bool.false_or, Bool.or_self, beq_self_eq_true, Bool.and_self, Bool.or_true, if_true, if_false,
              Bool.false_eq_true]
          rw [hyes] at hinv
          rcases runOps_toList hinv with ⟨hc, -⟩ | ⟨op, hop, hs'⟩
          · cases hc
          cases hop
          obtain ⟨hsafe', hclean⟩ := hbut.invalidateCode hw hpp hs'
          obtain ⟨hw', hpp', he', -⟩ := hw.invalidate hpp (fun _ _ _ _ hc => by cases hc) hs'
          exact ⟨⟨hw', hpp', hsafe'⟩, fun hen hno => he' (he hen hno), fun _ p hp => hstored p hp ▸ hclean⟩

end Cpu

/-! ## Whole runs -/

namespace Executing
variable {conf : Conf} {s s' : Executing}

structure Inv (conf : Conf) (s : Executing) : Prop where
  secure : s.cpu.Secure conf
  inPage : s.entered = true → s.cpu.Entered conf
  clean : ∀ p, s.stored = some p → s.cpu.CleanAt p

theorem Inv.codeSafe (h : s.Inv conf) : s.CodeSafe conf :=
  ⟨fun o ho hb => h.secure.safe.translated o ho hb not_false, h.clean⟩

theorem secure_pc {c : Cpu} (h : c.Secure conf) (pc : Addr) : Cpu.Secure conf { c with pc } :=
  ⟨⟨h.wf.tables, h.wf.tc⟩, h.pages, ⟨h.safe.tracks, h.safe.fits, h.safe.marked, h.safe.translated, h.safe.linked⟩⟩

theorem inv_lookup (h : s.Inv conf) {f : Cpu → Except Exit Cpu} (hf : Cpu.Enters conf f) (pc : Addr) {cpu : Cpu}
    (hs : f { s.cpu with pc } = .ok cpu) : Inv conf { s with cpu, entered := true, stored := none } := by
  obtain ⟨hsec, hen⟩ := hf _ _ (secure_pc h.secure pc) hs
  exact ⟨hsec, fun _ => hen, fun p hp => by cases hp⟩

theorem inv_toBeTranslated (h : s.Inv conf) (hen : s.entered = true) {env : Env} {lowPc n : Nat}
    (hlow : lowPc < conf.arch.icEntriesPerPage) {cpu : Cpu} {mem : Memory}
    (hs : s.cpu.toBeTranslated conf env s.mem lowPc n = .ok (cpu, mem)) :
    Inv conf { s with cpu, mem, stored := none } := by
  have hoff := conf.arch.icAddr_offset s.cpu.pc hlow
  have hsec := secure_pc h.secure (conf.arch.icAddr s.cpu.pc lowPc)
  have hcur : Cpu.Entered conf { s.cpu with pc := conf.arch.icAddr s.cpu.pc lowPc } := h.inPage hen
  unfold Cpu.toBeTranslated at hs
  dsimp only at hs
  split at hs
  · cases hs
    obtain ⟨h1, h2⟩ := hsec.noteTranslation hcur n hlow hoff
    exact ⟨h1, fun _ => h2, fun p hp => by cases hp⟩
  · rename_i hl
    obtain ⟨⟨c1, mem1, ok⟩, hs1, hs⟩ := Lib.bind_eq_ok hs
    cases hs
    obtain ⟨hsec1, hen1⟩ := hsec.fetch (not_not.mp hl) hs1
    split
    · obtain ⟨h1, h2⟩ := hsec1.noteTranslation (hen1 hcur) n hlow hoff
      exact ⟨h1, fun _ => h2, fun p hp => by cases hp⟩
    · exact ⟨hsec1, fun _ => hen1 hcur, fun p hp => by cases hp⟩

theorem inv_fast (h : s.Inv conf) {vaddr : Addr} {write : Bool} (hf : s.fastPage conf vaddr write ≠ none) :
    Inv conf { s with stored := if write then some (s.cpu.tables.slotOf conf.arch vaddr).physAddr else none } := by
  refine ⟨h.secure, h.inPage, fun p hp o ho he => ?_⟩
  cases write with
  | false => cases hp
  | true =>
    cases hp
    change (s.cpu.tables.slotOf conf.arch vaddr).hostStore ≠ none at hf
    rw [Tables.slotOf_eq] at hf he
    apply (h.secure.safe.marked o ho).clean
    by_contra hb
    exact h.secure.safe.translated o ho hb not_false _ hf he.symm

theorem inv_data (h : s.Inv conf) {env : Env} {vaddr : Addr} {len : Nat} {write : Bool}
    (hslow : s.fastPage conf vaddr write = none) (hl : Legal conf (.data env vaddr len write))
    (hz : ¬ s.Hazard conf (.data env vaddr len write)) {cpu : Cpu} {mem : Memory} {r : Bool}
    (hs : s.cpu.memoryRw conf env ⟨vaddr, len, write, cacheData⟩ s.mem = .ok (cpu, mem, r)) :
    Inv conf {
      cpu, mem
      entered := s.entered && !(Cpu.accessUpdate conf env ⟨vaddr, len, write, cacheData⟩ s.mem).any
        (TableOp.mapsWritable s.curPage)
      stored := if write then env.storedPage conf.arch ⟨vaddr, len, write, cacheData⟩ s.mem else none } := by
  simp only [Hazard, hslow, true_and, not_or, not_exists, not_and] at hz
  have hphys : env.physicalAddress ⟨vaddr, len, write, cacheData⟩ = env.translateV2p := by
    simp [Env.physicalAddress, Access.physical, hasFlag, cacheData]
  obtain ⟨hsec, hen, hclean⟩ := h.secure.data (a := ⟨vaddr, len, write, cacheData⟩) (Nat.zero_and _) hphys hl hz.1
    (fun hw paddr ok ht hd => not_not.mp (hz.2 hw paddr ok ht hd)) hs
  refine ⟨hsec, fun he => ?_, fun p hp => ?_⟩
  · simp only [Bool.and_eq_true, Bool.not_eq_true'] at he
    exact hen (h.inPage he.1) he.2
  · cases write with
    | false => cases hp
    | true => exact hclean rfl p hp

theorem inv_step {o : ExecOp} (hl : Legal conf o) (h : s.Inv conf) (hz : ¬ s.Hazard conf o)
    (hs : s.step conf o = .ok s') : s'.Inv conf := by
  cases o with
  | pcToPointers pc host v2p =>
    obtain ⟨cpu, hs1, hs⟩ := Lib.bind_eq_ok hs
    cases hs
    exact inv_lookup h (Cpu.pcToPointers_enters host v2p) pc hs1
  | pcToPointersGeneric pc host v2p =>
    obtain ⟨cpu, hs1, hs⟩ := Lib.bind_eq_ok hs
    cases hs
    exact inv_lookup h (Cpu.pcToPointersGeneric_enters host v2p) pc hs1
  | toBeTranslated env lowPc n =>
    obtain ⟨⟨cpu, mem⟩, hs1, hs⟩ := Lib.bind_eq_ok hs
    cases hs
    exact inv_toBeTranslated h (Bool.not_eq_false _ ▸ hz) hl hs1
  | data env vaddr len write =>
    unfold step at hs
    dsimp only at hs
    split at hs
    · rename_i hf
      cases hs
      exact inv_fast h hf
    · rename_i hf
      obtain ⟨⟨cpu, mem, r⟩, hs1, hs⟩ := Lib.bind_eq_ok hs
      cases hs
      exact inv_data h (not_not.mp hf) hl hz hs1
  | invalidate o =>
    obtain ⟨cpu, hs1, hs⟩ := Lib.bind_eq_ok hs
    cases hs
    obtain ⟨hsec, hen⟩ := h.secure.invalidate hl hs1
    exact ⟨hsec, fun he => hen (h.inPage he), fun p hp => by cases hp⟩

theorem inv_start {mode : Mode} (hm : conf.arch.hasMode mode = true) (x : Nat) (tc : Tc) (mem : Memory) :
    (start mode x tc mem).Inv conf := by
  have hflat : ((start mode x tc mem).cpu.tables.flat conf.arch) = Vph.init x := Tables.flat_init mode x
  refine ⟨⟨⟨Tables.Good.init hm x, Tc.WF.of_reset tc⟩, fun k o ho => ?_, ⟨?_, ?_, ?_, ?_, fun k o ho => ?_⟩⟩,
    fun he => ?_, fun p hp => ?_⟩
  · rw [hflat] at ho
    cases ho
  · rw [hflat]
    exact Vph.Tracks.init x
  · rw [hflat]
    exact Vph.Fits.init x
  · exact fun o ho => absurd ho (Tc.not_inChain_reset tc o)
  · exact fun o ho => absurd ho (Tc.not_inChain_reset tc o)
  · rw [hflat] at ho
    cases ho
  · cases he
  · cases hp

end Executing

/-- In a run without hazards, no page with translated instructions is ever
writable, and a store leaves no translated instruction in the page it changes. -/
theorem codeSafe_of_not_hazard (conf : Conf) (mode : Mode) (hm : conf.arch.hasMode mode = true) (x : Nat) (tc : Tc)
    (mem : Memory) (ops : List ExecOp) (hl : ∀ o ∈ ops, Executing.Legal conf o)
    (h : Lib.Along (Executing.step conf) (fun s o => ¬ s.Hazard conf o) ops (Executing.start mode x tc mem)) :
    Lib.Reaches (Executing.step conf) (Executing.CodeSafe conf) ops (Executing.start mode x tc mem) :=
  (Lib.reaches_of_along (Executing.Legal conf)
    (fun _ _ _ hlo hi hz hs => Executing.inv_step hlo hi hz hs) hl (Executing.inv_start hm x tc mem) h).mono
    fun _ hi => hi.codeSafe

/-- A store to the page that is executed, which is entered again before the next
instruction is translated. -/
theorem codeSafe_mips :
    Lib.Reaches (Executing.step mips64) (Executing.CodeSafe mips64)
      [.pcToPointers 0xffffffff80001000#64 (fun p => some p.toNat) (.ok 0x1000#64),
        .toBeTranslated (Env.r4000 0x1000#64) 0 1, .data (Env.r4000 0x1800#64) 0xffffffff80001800#64 4 true,
        .pcToPointers 0xffffffff80001004#64 (fun p => some p.toNat) (.ok 0x1000#64),
        .toBeTranslated (Env.r4000 0x1000#64) 1 2] (Executing.start .mode64 0 Tc.init Memory.init) := by
  refine codeSafe_of_not_hazard mips64 .mode64 rfl 0 Tc.init Memory.init _ ?_ (by decide +kernel)
  intro o ho
  simp only [List.mem_cons, List.not_mem_nil, or_false] at ho
  rcases ho with rfl | rfl | rfl | rfl | rfl
  · trivial
  · exact (by decide : 0 < Arch.mips.icEntriesPerPage)
  · intro r hr
    cases hr
    rfl
  · trivial
  · exact (by decide : 1 < Arch.mips.icEntriesPerPage)

/-- The same store, after which execution goes on in the page: the next
instruction is translated while the page is writable, and a second store leaves
it in place. -/
theorem not_codeSafe_of_store_to_current_page :
    ¬ Lib.Reaches (Executing.step mips64) (Executing.CodeSafe mips64)
      [.pcToPointers 0xffffffff80001000#64 (fun p => some p.toNat) (.ok 0x1000#64),
        .toBeTranslated (Env.r4000 0x1000#64) 0 1, .data (Env.r4000 0x1800#64) 0xffffffff80001800#64 4 true,
        .toBeTranslated (Env.r4000 0x1000#64) 1 2, .data (Env.r4000 0x1004#64) 0xffffffff80001004#64 4 true]
      (Executing.start .mode64 0 Tc.init Memory.init) := by
  intro h
  obtain ⟨s, hrun, heq⟩ := Lib.runOps_eval (Executing.step mips64)
    [.pcToPointers 0xffffffff80001000#64 (fun p => some p.toNat) (.ok 0x1000#64),
      .toBeTranslated (Env.r4000 0x1000#64) 0 1, .data (Env.r4000 0x1800#64) 0xffffffff80001800#64 4 true,
      .toBeTranslated (Env.r4000 0x1000#64) 1 2, .data (Env.r4000 0x1004#64) 0xffffffff80001004#64 4 true]
    (Executing.start .mode64 0 Tc.init Memory.init)
    (fun s => (s.cpu.tc.base 1, (s.cpu.tc.page 262144).nextOfs, (s.cpu.tc.page 262144).physaddr,
      (s.cpu.tc.page 262144).ics 1, s.stored))
    (262144, 0, 0x1000#64, .translated 2, some 0x1000#64) (by decide +kernel)
  simp only [Prod.mk.injEq] at heq
  obtain ⟨hbase, hnext, haddr, hic, hst⟩ := heq
  have hin : s.cpu.tc.InChain 262144 := ⟨1, [262144], ⟨hbase, by decide, hnext⟩, by simp⟩
  exact ((h.last hrun).2 _ hst 262144 hin haddr).2 1 2 hic

end Gxemul
