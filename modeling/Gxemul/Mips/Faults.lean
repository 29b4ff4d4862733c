import Gxemul.Memory.Devices
import Gxemul.Mips.LoadStore
import Gxemul.Mips.TlbPages

/- How accesses of a MIPS CPU end: they succeed, they fail because the emulator
   stops, or they raise an exception. -/
namespace Gxemul

/-! ## The program counter -/

namespace Cpu
variable {conf : Conf} {c c' : Cpu}

theorem tableStep_pc {o : TableOp} (h : c.tableStep conf o = .ok c') : c'.pc = c.pc := by
  cases o with
  | update v hostPage w p =>
    obtain ⟨t, -, h⟩ := Lib.bind_eq_ok h
    cases h
    rfl
  | invalidate addr flags =>
    obtain ⟨t, -, h⟩ := Lib.bind_eq_ok h
    cases h
    rfl
  | invalidateCode addr flags =>
    unfold tableStep invalidateCodeTranslation at h
    dsimp only at h
    split at h
    · split at h
      · cases h
        rfl
      · obtain ⟨t, -, h⟩ := Lib.bind_eq_ok h
        cases h
        rfl
    · obtain ⟨t, -, h⟩ := Lib.bind_eq_ok h
      cases h
      rfl
  | otherCpu x =>
    cases h
    rfl

theorem runOps_pc {ops : List TableOp} (h : Lib.runOps (tableStep conf) ops c = .ok c') : c'.pc = c.pc := by
  refine (@Lib.runOps_inv Cpu TableOp Exit (tableStep conf) (fun d => d.pc = c.pc) (fun _ => True) ?_ _ _ rfl).1 c' h
  exact fun d o hd => ⟨fun d' hs => (tableStep_pc hs).trans hd, fun _ _ => trivial⟩

theorem memoryRw_pc {env : Env} {a : Access} {mem mem' : Memory} {ok : Bool}
    (h : c.memoryRw conf env a mem = .ok (c', mem', ok)) : c'.pc = c.pc :=
  runOps_pc (memoryRw_tables h)

theorem findOrCreate_pc (c : Cpu) (p : Addr) : (c.findOrCreate conf p).1.pc = c.pc := by
  unfold findOrCreate
  split <;> rfl

theorem linkPhysPage_pc (c : Cpu) (cachedPc : Addr) (l3 ppp : Nat) : (c.linkPhysPage conf cachedPc l3 ppp).pc = c.pc := by
  unfold linkPhysPage
  split <;> rfl

theorem pointTo_pc {host : Addr → Option Nat} {cachedPc p : Addr} {l3 : Nat}
    (h : c.pointTo conf host cachedPc l3 p = .ok c') : c'.pc = c.pc := by
  obtain ⟨c1, h1, h⟩ := Lib.bind_eq_ok h
  obtain ⟨c2, h2, h⟩ := Lib.bind_eq_ok h
  have hmapped : c1.pc = c.pc := by
    unfold ensureMapped at h1
    split at h1
    · split at h1
      · exact @tableStep_pc conf _ _ (.update _ _ _ _) h1
      · cases h1
        rfl
    · cases h1
      rfl
  have hroom : c2.pc = c1.pc := by
    unfold ensureRoom at h2
    split at h2
    · exact @tableStep_pc conf { c1 with tc := c1.tc.reset } c2 (.invalidateCode 0 invalidateAll) h2
    · cases h2
      rfl
  have hcreate := @findOrCreate_pc conf c2 (conf.arch.pageAddr p)
  generalize c2.findOrCreate conf (conf.arch.pageAddr p) = d at h hcreate
  obtain ⟨d, ppp⟩ := d
  obtain ⟨c3, h3, h⟩ := Lib.bind_eq_ok h
  have hlink := @linkPhysPage_pc conf d cachedPc l3 ppp
  have hprotect : c3.pc = (d.linkPhysPage conf cachedPc l3 ppp).pc := by
    unfold protectPage at h3
    split at h3
    · exact @tableStep_pc conf _ _ (.invalidate _ _) h3
    · cases h3
      rfl
  cases h
  calc c3.pc = (d.linkPhysPage conf cachedPc l3 ppp).pc := hprotect
    _ = d.pc := hlink
    _ = c2.pc := hcreate
    _ = c1.pc := hroom
    _ = c.pc := hmapped

theorem pcToPointers_pc {host : Addr → Option Nat} {p : Addr} (h : pcToPointers conf host (.ok p) c = .ok c') :
    c'.pc = c.pc := by
  unfold pcToPointers quick at h
  dsimp only at h
  split at h
  · cases h
    rfl
  · unfold pcToPointersGeneric at h
    dsimp only at h
    split at h <;> exact pointTo_pc h

end Cpu

/-! ## The device table -/

structure Memory.SameLookup (mem mem' : Memory) : Prop where
  deviceFor : ∀ paddr, mem'.deviceFor paddr = mem.deviceFor paddr
  flags : ∀ i, (mem'.devices i).flags = (mem.devices i).flags

namespace Memory
variable {mem mem' mem'' : Memory}

theorem SameLookup.refl (mem : Memory) : mem.SameLookup mem := ⟨fun _ => Eq.refl _, fun _ => Eq.refl _⟩

theorem Sorted.deviceFor_eq_some_iff (h : Sorted mem) {paddr : Addr} {i : Nat} :
    mem.deviceFor paddr = some i ↔ i < mem.nMmappedDevices ∧ Contains (mem.devices i) paddr := by
  constructor
  · exact h.contains_of_deviceFor
  · rintro ⟨hi, hc⟩
    exact h.deviceFor_eq hi hc

theorem Sorted.sameLookup_noteAccess (h : Sorted mem) {i : Nat} (hi : i < mem.nMmappedDevices) (paddr offsetMask : Addr)
    (write fullPage : Bool) : mem.SameLookup (mem.noteAccess i paddr offsetMask write fullPage) := by
  have hsorted := @Sorted.noteAccess mem paddr h i hi offsetMask write fullPage
  refine ⟨fun q => ?_, fun j => ?_⟩
  · apply Option.ext
    intro j
    rw [h.deviceFor_eq_some_iff, hsorted.deviceFor_eq_some_iff]
    rw [noteAccess_same]
    exact Iff.rfl
  · rw [noteAccess_same]

theorem Sorted.sameLookup_accessMem (h : Sorted mem) (conf : Conf) (env : Env) (a : Access) :
    mem.SameLookup (Cpu.accessMem conf env a mem) := by
  unfold Cpu.accessMem
  split
  · exact SameLookup.refl mem
  · split
    · rename_i i hi
      exact h.sameLookup_noteAccess (h.contains_of_deviceFor hi).1 _ _ _ _
    · exact SameLookup.refl mem

end Memory

namespace Mips
open Lib (Byte ByteMem)

/-! ## Exceptions -/

namespace MipsCpu
variable {t : CpuType} {cacheSize : Nat} {host : Addr → Option Nat} {s s' : MipsCpu} {e : ExceptionArgs} {n : Nat}

theorem mipsCpuException_spec (h : s.mipsCpuException t cacheSize host e n = .ok s') :
    s'.dyn.pc = (s.notedCop0 t e n).handler t e ∧
    s'.mmu = { s.mmu with cop0 := (s.notedCop0 t e n).enterException t } ∧ s'.mem = s.mem ∧
    s'.delaySlot = (if s.delaySlot ≠ 0 then exceptionInDelaySlot else notDelayed) ∧ s'.isHalted = false := by
  obtain ⟨dyn, hdyn, h⟩ := Lib.bind_eq_ok h
  cases h
  exact ⟨Cpu.pcToPointers_pc hdyn, rfl, rfl, rfl, rfl⟩

end MipsCpu

def causeExccode (t : CpuType) (cause : Reg) : Reg :=
  (cause &&& (if t.exc3k then r2k3kCauseExccodeMask else causeExccodeMask)) >>> causeExccodeShift

section
variable {t : CpuType} {c : Cop0} {e : ExceptionArgs}

theorem exccodeMask_bits (t : CpuType) {i : Nat}
    (h : (if t.exc3k then r2k3kCauseExccodeMask else causeExccodeMask).getLsbD i = true) :
    2 ≤ i ∧ i ≤ 6 := by
  have hlt : i < 64 := BitVec.lt_of_getLsbD h
  have hall : ∀ b : Bool, ∀ i < 64, (if b then r2k3kCauseExccodeMask else causeExccodeMask).getLsbD i = true →
      2 ≤ i ∧ i ≤ 6 := by
    decide
  exact hall t.exc3k i hlt h

theorem causeExccode_congr {x y : Reg} (h : ∀ i, 2 ≤ i → i ≤ 6 → x.getLsbD i = y.getLsbD i) :
    causeExccode t x = causeExccode t y := by
  unfold causeExccode
  congr 1
  apply BitVec.eq_of_getLsbD_eq
  intro i _
  rw [BitVec.getLsbD_and, BitVec.getLsbD_and]
  cases hm : (if t.exc3k then r2k3kCauseExccodeMask else causeExccodeMask).getLsbD i with
  | false => rw [Bool.and_false, Bool.and_false]
  | true => rw [h i (exccodeMask_bits t hm).1 (exccodeMask_bits t hm).2]

theorem causeExccode_noteReturn (pc : Addr) (delaySlot : Nat) :
    causeExccode t ((c.noteReturn t pc delaySlot).enterException t).cause = causeExccode t c.cause := by
  have hbd : ∀ i ≤ 6, causeBd.getLsbD i = false := by decide
  apply causeExccode_congr
  intro i _ hi
  show (sext32 (c.noteReturn t pc delaySlot).cause).getLsbD i = _
  rw [getLsbD_sext32 _ (by omega), if_pos (by omega)]
  unfold Cop0.noteReturn
  split
  · rfl
  · split
    · rw [BitVec.getLsbD_or, hbd i hi, Bool.or_false]
    · rw [BitVec.getLsbD_and, BitVec.getLsbD_not, hbd i hi, decide_eq_true (by omega : i < 64)]
      simp

theorem noteAddress_cause : (c.noteAddress t e).cause = c.cause := by
  unfold Cop0.noteAddress
  dsimp only
  split
  · split <;> rfl
  · rfl

theorem causeExccode_noteCause (n : Nat) (he : e.exccode.toNat < 16) :
    causeExccode t (c.noteCause t e n).cause = BitVec.ofNat 64 e.exccode.toNat := by
  let m := if t.exc3k then r2k3kCauseExccodeMask else causeExccodeMask
  let code := BitVec.ofNat 64 e.exccode.toNat <<< causeExccodeShift
  have hnumber : causeExccode t (c.noteCause t e n).cause = causeExccode t ((c.cause &&& ~~~ m) ||| code) := by
    have hce : ∀ i ≤ 6, causeCeMask.getLsbD i = false := by decide
    apply causeExccode_congr
    intro i _ hi
    show ((((c.cause &&& ~~~ m) ||| code) &&& ~~~ causeCeMask) ||| (BitVec.ofNat 64 n <<< causeCeShift)).getLsbD i = _
    have hlt : i < causeCeShift := by
      unfold causeCeShift
      omega
    have h64 : i < 64 := by omega
    rw [BitVec.getLsbD_or, BitVec.getLsbD_and, BitVec.getLsbD_not, hce i hi, BitVec.getLsbD_shiftLeft]
    simp [hlt, h64]
  have hfield : ((c.cause &&& ~~~ m) ||| code) &&& m = code &&& m := by
    apply BitVec.eq_of_getLsbD_eq
    intro i hi
    simp only [BitVec.getLsbD_and, BitVec.getLsbD_or, BitVec.getLsbD_not, hi, decide_true, Bool.true_and]
    cases m.getLsbD i <;> simp
  have hcode : ∀ b : Bool, ∀ k < 16, ((BitVec.ofNat 64 k <<< causeExccodeShift) &&&
      (if b then r2k3kCauseExccodeMask else causeExccodeMask)) >>> causeExccodeShift = BitVec.ofNat 64 k := by
    decide
  rw [hnumber]
  show (((c.cause &&& ~~~ m) ||| code) &&& m) >>> causeExccodeShift = _
  rw [hfield]
  exact hcode t.exc3k _ he

theorem causeExccode_noteException (n : Nat) (pc : Addr) (delaySlot : Nat) (he : e.exccode.toNat < 16) :
    causeExccode t ((c.noteException t e n pc delaySlot).enterException t).cause =
      BitVec.ofNat 64 e.exccode.toNat := by
  unfold Cop0.noteException
  rw [causeExccode_noteReturn, noteAddress_cause, causeExccode_noteCause n he]

end

/-! ## The end of an access -/

/-- An access succeeds, fails without an exception, or raises one. -/
inductive AccessEnd where
  | done
  | failed
  | raised (e : ExceptionArgs)
  deriving DecidableEq

/-- A byte of host memory that neither devices nor the R3000 caches change. -/
def Io.Untouched (io : Io) (x : Nat) : Prop :=
  (∀ f ofs len write host data, (io.dev.device f ofs len write host data).1 x = host x) ∧
    ∀ paddr len write host data, (io.dev.cacheR3000 paddr len write host data).1 x = host x

namespace MipsCpu

section
variable (t : CpuType) (s : MipsCpu) (io : Io) (a : Access)

/-- The end of an access to a physical address. A device may fail, and it may stop the emulator. So may accesses
outside of RAM. -/
def paddrEnd (paddr : Addr) (writable : Bool) : AccessEnd :=
  let env := s.accessEnv t io.env paddr writable
  match s.mem.deviceFor paddr with
  | some i =>
    if Cpu.deviceResult env a (s.mem.devices i) then .done
    else if io.env.handlerStops then .failed
    else .raised (busError a)
  | none =>
    if env.servedByCache a then .done
    else if env.outsideRam paddr && !(env.isSprite paddr || a.noExceptions || !env.warnFails) then .failed
    else .done

def accessEnd : Except Exit AccessEnd :=
  match s.accessV2p t a with
  | .error e => .error e
  | .ok (.failed none) => .ok .failed
  | .ok (.failed (some e)) => .ok (.raised e)
  | .ok (.ok paddr writable) => .ok (s.paddrEnd t io a paddr writable)

end

/-- What accesses leave as it is, except when they raise exceptions. -/
structure Kept (s s' : MipsCpu) : Prop where
  mmu : s'.mmu = s.mmu
  delaySlot : s'.delaySlot = s.delaySlot
  isHalted : s'.isHalted = s.isHalted
  pc : s'.dyn.pc = s.dyn.pc
  lookup : s.mem.Sorted → s.mem.SameLookup s'.mem

theorem Kept.refl (s : MipsCpu) : s.Kept s := ⟨rfl, rfl, rfl, rfl, fun _ => .refl _⟩

variable {t : CpuType} {cacheSize : Nat} {s s' : MipsCpu} {io : Io} {a : Access} {host : ByteMem} {data : List Byte}
  {copied : ByteMem × List Byte} {ok : Bool}

theorem accessV2p_data (ha : a.miscFlags = cacheData) :
    s.accessV2p t a = translateV2p t s.mmu a.vaddr a.write false := by
  have hphys : a.physical = false := by
    unfold Access.physical
    rw [ha]
    decide
  have hexc : a.noExceptions = false := by
    unfold Access.noExceptions
    rw [ha]
    decide
  unfold accessV2p
  rw [hphys, hexc, if_neg Bool.false_ne_true]

theorem accessEnd_of_failed {e : ExceptionArgs} (ha : a.miscFlags = cacheData)
    (hv : translateV2p t s.mmu a.vaddr a.write false = .ok (.failed (some e))) : s.accessEnd t io a = .ok (.raised e) := by
  unfold accessEnd
  rw [accessV2p_data ha, hv]

theorem accessEnd_congr (hmmu : s'.mmu = s.mmu) (h : s.mem.SameLookup s'.mem) :
    s'.accessEnd t io a = s.accessEnd t io a := by
  unfold accessEnd accessV2p paddrEnd accessEnv Cpu.deviceResult
  simp only [hmmu, h.deviceFor, h.flags]

/-- What memory_rw() returns of the end of an access, and leaves of the CPU. -/
def EndsIn (t : CpuType) (cacheSize : Nat) (io : Io) (s s' : MipsCpu) (ok : Bool) : AccessEnd → Prop
  | .done => ok = true ∧ s.Kept s'
  | .failed => ok = false ∧ s.Kept s'
  | .raised e => ok = false ∧ ∃ s1, s.Kept s1 ∧ s1.mipsCpuException t cacheSize io.hostaddr e 0 = .ok s'

theorem memoryRw_ok {paddr : Addr} {writable : Bool} {dyn : Cpu} {mem : Memory} {r : Bool}
    (hp : (s.accessEnv t io.env paddr writable).physicalAddress a = some (paddr, if writable then 2 else 1))
    (h : s.dyn.memoryRw (t.conf cacheSize) (s.accessEnv t io.env paddr writable) a s.mem = .ok (dyn, mem, r)) :
    r = match s.mem.deviceFor paddr with
      | some i => Cpu.deviceResult (s.accessEnv t io.env paddr writable) a (s.mem.devices i)
      | none => s.paddrEnd t io a paddr writable == .done := by
  unfold Cpu.memoryRw at h
  rw [hp] at h
  dsimp only at h
  unfold paddrEnd
  cases hd : s.mem.deviceFor paddr with
  | some i =>
    rw [hd] at h
    obtain ⟨c1, -, h⟩ := Lib.bind_eq_ok h
    cases h
    rfl
  | none =>
    rw [hd] at h
    dsimp only at h ⊢
    split at h
    · rename_i hserved
      cases h
      rw [if_pos hserved]
      rfl
    · rename_i hserved
      rw [if_neg hserved]
      split at h
      · rename_i hout
        cases h
        rw [hout, Bool.true_and]
        cases (Env.isSprite (s.accessEnv t io.env paddr writable) paddr || a.noExceptions ||
          !(s.accessEnv t io.env paddr writable).warnFails) <;> rfl
      · rename_i hout
        obtain ⟨c1, -, h⟩ := Lib.bind_eq_ok h
        cases h
        rw [Bool.eq_false_of_not_eq_true hout, Bool.false_and]
        rfl

theorem memoryRw_end (h : s.memoryRw t cacheSize io a host data = .ok (s', copied, ok)) :
    ∃ fin, s.accessEnd t io a = .ok fin ∧ EndsIn t cacheSize io s s' ok fin := by
  obtain ⟨v, hv, h⟩ := Lib.bind_eq_ok h
  unfold accessEnd
  rw [hv]
  cases v with
  | failed exception =>
    cases exception with
    | none =>
      cases h
      exact ⟨.failed, rfl, rfl, .refl s⟩
    | some e =>
      obtain ⟨s1, hs1, h⟩ := Lib.bind_eq_ok h
      cases h
      exact ⟨.raised e, rfl, rfl, s, .refl s, hs1⟩
  | ok paddr writable =>
    refine ⟨s.paddrEnd t io a paddr writable, rfl, ?_⟩
    have hp := @physicalAddress_of_accessV2p t s io a paddr writable hv
    obtain ⟨⟨dyn, mem, r⟩, hrw, h⟩ := Lib.bind_eq_ok (show s.accessPaddr t cacheSize io a paddr writable host data = _ from h)
    have hkept : s.Kept { s with dyn := dyn, mem := mem } := by
      refine ⟨rfl, rfl, rfl, Cpu.memoryRw_pc hrw, fun hsorted => ?_⟩
      rw [Cpu.memoryRw_mem hrw]
      exact hsorted.sameLookup_accessMem _ _ _
    have hok := memoryRw_ok hp hrw
    dsimp only at h
    unfold paddrEnd at hok ⊢
    cases hd : s.mem.deviceFor paddr with
    | some i =>
      rw [hd] at hok h
      dsimp only at hok ⊢
      rw [← hok]
      cases r with
      | true =>
        cases h
        exact ⟨rfl, hkept⟩
      | false =>
        cases hstop : io.env.handlerStops with
        | true =>
          rw [hstop] at h
          cases h
          exact ⟨rfl, hkept⟩
        | false =>
          rw [hstop] at h
          obtain ⟨s1, hs1, h⟩ := Lib.bind_eq_ok h
          cases h
          exact ⟨rfl, _, hkept, hs1⟩
    | none =>
      rw [hd] at hok h
      dsimp only at hok ⊢
      rw [Option.isSome_none, Bool.and_false, Bool.false_and, if_neg Bool.false_ne_true] at h
      cases h
      split
      · rename_i hserved
        rw [if_pos hserved] at hok
        exact ⟨hok, hkept⟩
      · rename_i hserved
        rw [if_neg hserved] at hok
        split
        · rename_i hout
          rw [if_pos hout] at hok
          exact ⟨hok, hkept⟩
        · rename_i hout
          rw [if_neg hout] at hok
          exact ⟨hok, hkept⟩

theorem memoryRw_host {x : Nat} (hx : io.Untouched x) (h : s.memoryRw t cacheSize io a host data = .ok (s', copied, ok))
    (hw : a.write = false ∨ ok = false) : copied.1 x = host x := by
  obtain ⟨v, hv, h⟩ := Lib.bind_eq_ok h
  cases v with
  | failed exception =>
    cases exception with
    | none =>
      cases h
      rfl
    | some e =>
      obtain ⟨s1, -, h⟩ := Lib.bind_eq_ok h
      cases h
      rfl
  | ok paddr writable =>
    have hp := @physicalAddress_of_accessV2p t s io a paddr writable hv
    obtain ⟨⟨dyn, mem, r⟩, hrw, h⟩ :=
      Lib.bind_eq_ok (show s.accessPaddr t cacheSize io a paddr writable host data = _ from h)
    have hok := memoryRw_ok hp hrw
    have hcopied : copied = Cpu.transfer (t.conf cacheSize) (s.accessEnv t io.env paddr writable) io.dev a s.mem host
        data ∧ (r = true → ok = true) := by
      dsimp only at h
      split at h
      · rename_i hfail
        obtain ⟨s1, -, h⟩ := Lib.bind_eq_ok h
        cases h
        refine ⟨rfl, fun hr => ?_⟩
        rw [hr] at hfail
        cases hfail
      · cases h
        exact ⟨rfl, id⟩
    rw [hcopied.1]
    unfold Cpu.transfer
    rw [hp]
    dsimp only
    unfold paddrEnd at hok
    dsimp only at hok
    cases hd : s.mem.deviceFor paddr with
    | some i =>
      dsimp only
      split
      · exact hx.1 _ _ _ _ _ _
      · rfl
    | none =>
      dsimp only
      rw [hd] at hok
      split
      · exact hx.2 _ _ _ _ _
      · rename_i hserved
        split
        · rfl
        · rename_i hout
          split
          · rfl
          · -- RAM is accessed
            have hdone : ok = true := by
              apply hcopied.2
              rw [hok, if_neg hserved, Bool.eq_false_of_not_eq_true hout, Bool.false_and]
              rfl
            obtain hread | hfail := hw
            · unfold Access.copy
              rw [hread]
              rfl
            · rw [hdone] at hfail
              cases hfail

end MipsCpu

end Mips

end Gxemul
