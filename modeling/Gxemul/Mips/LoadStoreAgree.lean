import Gxemul.Dyntrans.Consistency
import Gxemul.Mips.LoadStore

/- The fast and the slow functions of a load or store do the same. Both make one
   number of the bytes in memory, or bytes of one number, and differ only in how
   much of a register they take it from or put it in. -/
namespace Gxemul.Mips

open Lib

/-! ## The numbers of both functions -/

/-- The bytes from `p` on, as the number in the byte order of the CPU. -/
def wordAt (big : Bool) (n : Nat) (p : Nat → Byte) : Nat := value big ((List.range n).map p)

theorem wordAt_two (big : Bool) (p : Nat → Byte) : wordAt big 2 p =
    if big then (p 1).toNat + 256 * (p 0).toNat else (p 0).toNat + 256 * (p 1).toNat := by
  cases big <;> simp [wordAt, value, leValue, List.range_succ]

theorem load2_eq (hostBig be : Bool) (p : Nat → Byte) : load2 hostBig be p = BitVec.ofNat 32 (wordAt be 2 p) := by
  unfold load2
  cases be <;> cases hostBig
  · rfl
  · apply BitVec.eq_of_toNat_eq
    simp [toInt, wordAt_two, BitVec.toNat_add, Nat.shiftLeft_eq]
    omega
  · apply BitVec.eq_of_toNat_eq
    simp [toInt, wordAt_two, BitVec.toNat_add, Nat.shiftLeft_eq]
    omega
  · rfl

theorem load4_eq (hostBig be : Bool) (p : Nat → Byte) : load4 hostBig be p = BitVec.ofNat 32 (wordAt be 4 p) := by
  unfold load4
  cases be <;> cases hostBig
  · rfl
  · apply BitVec.eq_of_toNat_eq
    simp [toInt, wordAt, value, leValue, List.range_succ, BitVec.toNat_add, Nat.shiftLeft_eq]
    omega
  · apply BitVec.eq_of_toNat_eq
    simp [toInt, wordAt, value, leValue, List.range_succ, BitVec.toNat_add, Nat.shiftLeft_eq]
    omega
  · rfl

theorem signExtend_of_lt {x : BitVec 32} (h : x.toNat < 2 ^ 31) : (x.signExtend 64).toNat = x.toNat := by
  have hmsb : x.msb = false := BitVec.msb_eq_false_iff_two_mul_lt.mpr (by omega)
  rw [BitVec.signExtend_eq_setWidth_of_msb_false hmsb, BitVec.toNat_setWidth]
  omega

theorem load8_eq (hostBig be : Bool) (p : Nat → Byte) : load8 hostBig be p = BitVec.ofNat 64 (wordAt be 8 p) := by
  unfold load8
  cases be <;> cases hostBig
  · rfl
  · apply BitVec.eq_of_toNat_eq
    have hlow : (toInt (p 0) + (toInt (p 1) <<< 8) + (toInt (p 2) <<< 16)).toNat =
        (p 0).toNat + (p 1).toNat * 256 + (p 2).toNat * 65536 := by
      simp [toInt, BitVec.toNat_add, Nat.shiftLeft_eq]
      omega
    have hlow64 : ((toInt (p 0) + (toInt (p 1) <<< 8) + (toInt (p 2) <<< 16)).signExtend 64).toNat =
        (p 0).toNat + (p 1).toNat * 256 + (p 2).toNat * 65536 := by
      rw [signExtend_of_lt (by omega), hlow]
    simp [toU64, wordAt, value, leValue, List.range_succ, BitVec.toNat_add, Nat.shiftLeft_eq]
    omega
  · apply BitVec.eq_of_toNat_eq
    have hint16 : (toInt (p 5) <<< 16).toNat = (p 5).toNat * 65536 := by
      simp [toInt, Nat.shiftLeft_eq]
      omega
    have hint8 : (toInt (p 6) <<< 8).toNat = (p 6).toNat * 256 := by
      simp [toInt, Nat.shiftLeft_eq]
      omega
    have h16 : ((toInt (p 5) <<< 16).signExtend 64).toNat = (p 5).toNat * 65536 := by
      rw [signExtend_of_lt (by omega), hint16]
    have h8 : ((toInt (p 6) <<< 8).signExtend 64).toNat = (p 6).toNat * 256 := by
      rw [signExtend_of_lt (by omega), hint8]
    simp [toU64, wordAt, value, leValue, List.range_succ, Nat.shiftLeft_eq]
    omega
  · rfl

theorem loadValue_eq (k : LsKind) (hostBig be : Bool) (p : Nat → Byte) :
    k.loadValue hostBig be p = k.extend (memoryReadmax64 be ((List.range k.size.toNat).map p)) := by
  rw [memoryReadmax64_eq]
  show _ = k.extend (BitVec.ofNat 64 (wordAt be k.size.toNat p))
  have hlt : wordAt be k.size.toNat p < 256 ^ k.size.toNat := by
    have := value_lt be ((List.range k.size.toNat).map p)
    rwa [List.length_map, List.length_range] at this
  obtain ⟨size, store, signed⟩ := k
  cases size with
  | ls1 =>
    have h1 : wordAt be 1 p = (p 0).toNat := by cases be <;> simp [wordAt, value, leValue, List.range_succ]
    have hb : BitVec.ofNat 64 (p 0).toNat = (p 0).setWidth 64 := by
      apply BitVec.eq_of_toNat_eq
      simp
    cases signed <;> simp [LsKind.loadValue, LsKind.extend, LsSize.toNat, h1, hb, toU64, sextFrom]
  | ls2 =>
    have hnonneg : (BitVec.ofNat 32 (wordAt be 2 p)).signExtend 64 = BitVec.ofNat 64 (wordAt be 2 p) := by
      apply BitVec.eq_of_toNat_eq
      have h16 : wordAt be 2 p < 2 ^ 16 := hlt
      have h32 : (BitVec.ofNat 32 (wordAt be 2 p)).toNat = wordAt be 2 p := by
        rw [BitVec.toNat_ofNat]
        omega
      rw [signExtend_of_lt (by omega), h32, BitVec.toNat_ofNat]
      omega
    cases signed with
    | false => simp [LsKind.loadValue, LsKind.extend, LsSize.toNat, load2_eq, hnonneg]
    | true => simp [LsKind.loadValue, LsKind.extend, LsSize.toNat, load2_eq, sextFrom, BitVec.setWidth_ofNat_of_le]
  | ls4 =>
    cases signed with
    | false =>
      show (load4 hostBig be p).setWidth 64 = _
      rw [load4_eq]
      apply BitVec.eq_of_toNat_eq
      have h32 : wordAt be 4 p < 2 ^ 32 := hlt
      simp only [BitVec.toNat_setWidth, BitVec.toNat_ofNat, LsKind.extend, LsSize.toNat, Bool.false_eq_true, if_false]
      omega
    | true => simp [LsKind.loadValue, LsKind.extend, LsSize.toNat, load4_eq, sextFrom, BitVec.setWidth_ofNat_of_le]
  | ls8 =>
    cases signed <;> exact load8_eq hostBig be p

theorem byteAt_eq (x : Reg) (n : Nat) : byteAt x n = BitVec.ofNat 8 (x.toNat / 2 ^ n) := by
  apply BitVec.eq_of_toNat_eq
  simp [byteAt, Nat.shiftRight_eq_div_pow]

theorem storeBytes_eq (size : LsSize) (hostBig be : Bool) (x : Reg) :
    size.storeBytes hostBig be x = memoryWritemax64 be size.toNat x := by
  rw [memoryWritemax64_eq]
  unfold LsSize.storeBytes
  split
  · subst size
    cases be <;> simp [bytes, leBytes, LsSize.toNat, byteAt_eq]
  · split
    · subst be
      rfl
    · cases size <;> cases be <;>
        simp [bytes, leBytes, LsSize.toNat, byteAt_eq, Nat.div_div_eq_div_mul]

/-! ## Halves of registers -/

theorem regWrite_eq_iff (old x : Reg) : regWrite true old x = x ↔ x >>> 32 = old >>> 32 := by
  have hbit : ∀ i, i < 64 → (regWrite true old x).getLsbD i = if i < 32 then x.getLsbD i else old.getLsbD i := by
    intro i hi
    have hhigh : 0xffffffff00000000#64 = BitVec.allOnes 64 <<< 32 := by decide
    have hlow : 0xffffffff#64 = (BitVec.allOnes 32).setWidth 64 := by decide
    simp only [regWrite, if_true, hhigh, hlow, BitVec.getLsbD_or, BitVec.getLsbD_and, BitVec.getLsbD_shiftLeft,
      BitVec.getLsbD_setWidth, BitVec.getLsbD_allOnes, hi, decide_true, Bool.true_and]
    by_cases hlt : i < 32
    · simp [hlt]
    · have : i - 32 < 64 := by omega
      simp [hlt, this]
  constructor
  · intro h
    apply BitVec.eq_of_getLsbD_eq
    intro i hi
    rw [BitVec.getLsbD_ushiftRight, BitVec.getLsbD_ushiftRight]
    by_cases hlt : 32 + i < 64
    · have := hbit (32 + i) hlt
      rw [h, if_neg (by omega)] at this
      exact this
    · rw [BitVec.getLsbD_of_ge _ _ (by omega), BitVec.getLsbD_of_ge _ _ (by omega)]
  · intro h
    apply BitVec.eq_of_getLsbD_eq
    intro i hi
    rw [hbit i hi]
    split
    · rfl
    · have := congrArg (fun y => y.getLsbD (i - 32)) h
      simp only [BitVec.getLsbD_ushiftRight] at this
      rw [show 32 + (i - 32) = i by omega] at this
      exact this.symm

theorem regRead_eq_iff (x : Reg) : regRead true x = x ↔ x >>> 32 = 0 := by
  have h := regWrite_eq_iff 0 x
  have hzero : regWrite true 0 x = regRead true x := by simp [regWrite, regRead]
  have hshift : (0 : Reg) >>> 32 = 0 := by decide
  rwa [hzero, hshift] at h

namespace Machine
variable (conf : LsConf) (k : LsKind) (io : Io) (ic : LsCall) (s : Machine)

def fastAddr : Option Nat :=
  if k.size.unaligned (s.addr conf ic) then none
  else (s.hostPage conf k ic).map fun p => p + (s.addr conf ic &&& 0xfff#64).toNat

/-- The page is mapped to the host bytes that memory_rw() accesses. -/
def PageMapped : Prop :=
  ∀ p, s.fastAddr conf k ic = some p →
    (s.cpu.syncPc ic.lowPc).SameBytes conf.cpuType conf.cacheSize io (s.access conf k ic) p

/-- The upper half of a doubleword that is loaded into a register of a 32-bit CPU, or
stored from one, is the one that the other function leaves there. -/
def UpperHalfKept : Prop :=
  ∀ p, s.fastAddr conf k ic = some p → conf.cpuType.is32bit = true → k.size = .ls8 →
    if k.store then s.regs ic.arg0 >>> 32 = 0
    else BitVec.ofNat 64 (value conf.big (s.host.read p 8)) >>> 32 = s.regs ic.arg0 >>> 32

def SameResult : Except Exit Machine → Except Exit Machine → Prop
  | .ok s, .ok s' => s.regs = s'.regs ∧ s.host = s'.host
  | .error e, .error e' => e = e'
  | _, _ => False

theorem SameResult.rfl (r : Except Exit Machine) : SameResult r r := by
  cases r <;> simp [SameResult]

variable {conf k io ic s}

theorem lsN_of_none (h : s.fastAddr conf k ic = none) : s.lsN conf k io ic = s.lsGeneric conf k io ic := by
  unfold fastAddr at h
  unfold lsN
  cases hp : s.hostPage conf k ic with
  | none => rfl
  | some p =>
    dsimp only
    rw [hp] at h
    split at h
    · rw [if_pos ‹_›]
    · cases h

theorem fastAddr_eq_some {p : Nat} (h : s.fastAddr conf k ic = some p) :
    k.size.unaligned (s.addr conf ic) = false ∧
      ∃ page, s.hostPage conf k ic = some page ∧ p = page + (s.addr conf ic &&& 0xfff#64).toNat := by
  unfold fastAddr at h
  split at h
  · cases h
  · rename_i hal
    obtain ⟨page, hpage, rfl⟩ := Option.map_eq_some_iff.mp h
    exact ⟨by simpa using hal, page, hpage, Eq.refl _⟩

theorem lsN_of_some {p : Nat} (h : s.fastAddr conf k ic = some p) : s.lsN conf k io ic =
    if k.store then
      .ok { s with host := s.host.write p (memoryWritemax64 conf.big k.size.toNat (k.size.fastStored conf.cpuType.is32bit (s.regs ic.arg0))) }
    else
      .ok { s with
        regs := Function.update s.regs ic.arg0 (k.size.fastReg conf.cpuType.is32bit (s.regs ic.arg0)
          (k.extend (memoryReadmax64 conf.big (s.host.read p k.size.toNat)))) } := by
  obtain ⟨hal, page, hpage, rfl⟩ := fastAddr_eq_some h
  unfold lsN
  rw [hpage]
  dsimp only
  rw [hal, storeBytes_eq, loadValue_eq]
  rfl

theorem lsGeneric_of_some {p : Nat} (h : s.fastAddr conf k ic = some p) (hm : s.PageMapped conf k io ic) :
    ∃ cpu, s.lsGeneric conf k io ic =
      if k.store then
        .ok { s with
          cpu
          host := s.host.write p (memoryWritemax64 conf.big k.size.toNat
            (regRead conf.cpuType.is32bit (s.regs ic.arg0))) }
      else
        .ok { s with
          cpu
          regs := Function.update s.regs ic.arg0 (regWrite conf.cpuType.is32bit (s.regs ic.arg0)
            (k.extend (memoryReadmax64 conf.big (s.host.read p k.size.toNat)))) } := by
  obtain ⟨cpu, hrw⟩ := hm p h
  obtain ⟨hal, -⟩ := fastAddr_eq_some h
  refine ⟨cpu, ?_⟩
  unfold lsGeneric
  dsimp only
  rw [hal, if_neg Bool.false_ne_true]
  cases hstore : k.store with
  | true =>
    rw [if_pos rfl, if_pos rfl, hrw _ _ (by rw [memoryWritemax64_eq, length_bytes]; rfl)]
    simp only [Access.copy, access, hstore, if_true]
    rfl
  | false =>
    rw [if_neg Bool.false_ne_true, if_neg Bool.false_ne_true, hrw _ _ (by rw [List.length_replicate]; rfl)]
    simp only [Access.copy, access, hstore, Bool.false_eq_true, if_false]
    rfl

theorem stored_iff (size : LsSize) (mode32 : Bool) (x : Reg) :
    (size.fastStored mode32 x).toNat % 256 ^ size.toNat = (regRead mode32 x).toNat % 256 ^ size.toNat ↔
      (mode32 = true → size = .ls8 → x >>> 32 = 0) := by
  unfold LsSize.fastStored
  by_cases h8 : size = .ls8
  · subst h8
    have hlt : ∀ y : Reg, y.toNat % 256 ^ LsSize.ls8.toNat = y.toNat := fun y => Nat.mod_eq_of_lt y.isLt
    rw [if_pos rfl, hlt, hlt, BitVec.toNat_inj]
    cases mode32 with
    | false => simp [regRead]
    | true =>
      rw [eq_comm, regRead_eq_iff]
      simp
  · simp [h8]

theorem loaded_iff (size : LsSize) (mode32 : Bool) (old x : Reg) :
    size.fastReg mode32 old x = regWrite mode32 old x ↔ (mode32 = true → size = .ls8 → x >>> 32 = old >>> 32) := by
  unfold LsSize.fastReg
  by_cases h8 : size = .ls8
  · subst h8
    rw [if_pos rfl]
    cases mode32 with
    | false => simp [regWrite]
    | true =>
      rw [eq_comm, regWrite_eq_iff]
      simp
  · simp [h8]

/-- LS_N and LS_GENERIC_N agree on registers and memory, except when a 32-bit CPU
loads or stores a doubleword whose upper half the slow function does not transfer. -/
theorem lsN_eq_lsGeneric_iff (hm : s.PageMapped conf k io ic) :
    SameResult (s.lsN conf k io ic) (s.lsGeneric conf k io ic) ↔ s.UpperHalfKept conf k ic := by
  cases hfast : s.fastAddr conf k ic with
  | none =>
    rw [lsN_of_none hfast]
    refine ⟨fun _ p hp => ?_, fun _ => SameResult.rfl _⟩
    rw [hfast] at hp
    cases hp
  | some p =>
    obtain ⟨cpu, hslow⟩ := lsGeneric_of_some hfast hm
    rw [lsN_of_some hfast, hslow]
    have hkept : s.UpperHalfKept conf k ic ↔ (conf.cpuType.is32bit = true → k.size = .ls8 →
        if k.store then s.regs ic.arg0 >>> 32 = 0
        else BitVec.ofNat 64 (value conf.big (s.host.read p 8)) >>> 32 = s.regs ic.arg0 >>> 32) := by
      unfold UpperHalfKept
      rw [hfast]
      simp
    rw [hkept]
    cases hstore : k.store with
    | true =>
      simp only [if_true, SameResult, true_and]
      rw [ByteMem.write_inj _ _ (by simp [memoryWritemax64_eq]), memoryWritemax64_eq, memoryWritemax64_eq,
        bytes_inj]
      exact stored_iff k.size conf.cpuType.is32bit (s.regs ic.arg0)
    | false =>
      simp only [Bool.false_eq_true, if_false, SameResult, and_true]
      rw [(Function.update_injective s.regs ic.arg0).eq_iff]
      refine (loaded_iff k.size conf.cpuType.is32bit _ _).trans (forall_congr' fun _ => forall_congr' fun h8 => ?_)
      -- a doubleword is not converted
      have hx : k.extend (memoryReadmax64 conf.big (s.host.read p k.size.toNat)) =
          BitVec.ofNat 64 (value conf.big (s.host.read p 8)) := by
        rw [memoryReadmax64_eq, h8]
        unfold LsKind.extend
        rw [h8]
        split <;> rfl
      rw [hx]

/-! A 32-bit CPU that has written to the first page of RAM, at the start of kseg0,
and loads from there to the variable of ldc1. -/

def mips4Kc : LsConf := ⟨⟨.mmu32, false, false, true, 16⟩, 65536, false, false⟩

def ramIo : Io := ⟨Env.r4000 0, ⟨fun _ _ _ _ host data => (host, data), fun _ _ _ host data => (host, data)⟩,
  fun page => some page.toNat⟩

def ldc1 : LsCall := ⟨.fprVar, .gpr 1, 0, 0⟩

def kseg0 (word : Byte) : Machine where
  cpu := {
    dyn := (Cpu.updateTranslationTable (mips4Kc.cpuType.conf mips4Kc.cacheSize) (Cpu.start .mode32 0 Tc.init)
      0xffffffff80000000#64 0 1 0).toOption.getD (Cpu.start .mode32 0 Tc.init)
    mem := Memory.init
    mmu := ⟨⟨0, 0, 0, 0, 0, 0, 0, 0, 0, 0, 0, 0, 0, 0⟩, fun _ => ⟨0, 0, 0, 0⟩, 0⟩
    delaySlot := 0
    isHalted := false }
  regs r := if r = .gpr 1 then 0x80000000#64 else 0
  host a := if a = 7 then word else 0

def ldc1Kind : LsKind := ⟨.ls8, false, true⟩

theorem fastAddr_kseg0 (word : Byte) : (kseg0 word).fastAddr mips4Kc ldc1Kind ldc1 = some 0 := by
  show (kseg0 0).fastAddr mips4Kc ldc1Kind ldc1 = some 0
  decide +kernel

theorem pageMapped_kseg0 (word : Byte) : (kseg0 word).PageMapped mips4Kc ldc1Kind ramIo ldc1 := by
  intro p hp
  rw [fastAddr_kseg0] at hp
  cases hp
  obtain ⟨v, hv, rfl⟩ := eval_eq_ok
    (((kseg0 0).cpu.syncPc 0).accessV2p mips4Kc.cpuType ⟨0xffffffff80000000#64, 8, false, cacheData⟩) id
    (.ok 0#64 true) (by decide +kernel)
  obtain ⟨r, hr, hok⟩ := eval_eq_ok
    (((kseg0 0).cpu.syncPc 0).dyn.memoryRw (mips4Kc.cpuType.conf mips4Kc.cacheSize)
      (((kseg0 0).cpu.syncPc 0).accessEnv mips4Kc.cpuType ramIo.env 0 true)
      ⟨0xffffffff80000000#64, 8, false, cacheData⟩ Memory.init) (fun r => r.2.2) true (by decide +kernel)
  obtain ⟨dyn, mem, ok⟩ := r
  cases hok
  have haccess : (kseg0 word).access mips4Kc ldc1Kind ldc1 = ⟨0xffffffff80000000#64, 8, false, cacheData⟩ := by
    show (kseg0 0).access mips4Kc ldc1Kind ldc1 = _
    decide +kernel
  rw [haccess]
  refine MipsCpu.sameBytes_of_accesses hv hr ?_
  exact @Cpu.accesses_ram (mips4Kc.cpuType.conf mips4Kc.cacheSize)
    (((kseg0 0).cpu.syncPc 0).accessEnv mips4Kc.cpuType ramIo.env 0 true) ramIo.dev
    ⟨0xffffffff80000000#64, 8, false, cacheData⟩ Memory.init 0#64 2 0 (by decide +kernel) (by decide +kernel)
    (by decide +kernel) (by decide +kernel) (by decide +kernel)

/-- A doubleword with nothing in its upper half. -/
theorem lsN_kseg0 : SameResult ((kseg0 0).lsN mips4Kc ldc1Kind ramIo ldc1)
    ((kseg0 0).lsGeneric mips4Kc ldc1Kind ramIo ldc1) :=
  (lsN_eq_lsGeneric_iff (pageMapped_kseg0 0)).mpr fun p hp => by
    rw [fastAddr_kseg0] at hp
    cases hp
    decide +kernel

/-- The upper half of a doubleword is not loaded by the slow function. -/
theorem lsN_kseg0_upper_half : (kseg0 1).PageMapped mips4Kc ldc1Kind ramIo ldc1 ∧
    ¬ SameResult ((kseg0 1).lsN mips4Kc ldc1Kind ramIo ldc1) ((kseg0 1).lsGeneric mips4Kc ldc1Kind ramIo ldc1) := by
  refine ⟨pageMapped_kseg0 1, fun h => ?_⟩
  obtain ⟨cpu, hslow⟩ := lsGeneric_of_some (fastAddr_kseg0 1) (pageMapped_kseg0 1)
  rw [lsN_of_some (fastAddr_kseg0 1), hslow] at h
  have hreg := congrFun h.1 .fprVar
  dsimp only at hreg
  revert hreg
  decide +kernel

end Machine

end Gxemul.Mips
