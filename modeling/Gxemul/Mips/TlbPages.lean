import Gxemul.Dyntrans.Backed
import Gxemul.Mips.Coproc
import Gxemul.Mips.TlbLookup

/- The kinds of MIPS CPU, and their addresses.

   MIPS_CPU_TYPE_DEFS says what kinds of CPU there are. A mapped address is looked
   up as it is, or as its lower half with the sign. -/
namespace Gxemul.Mips

/-! ## CPU types -/

/-- An element of `MIPS_CPU_TYPE_DEFS`: what is used of it. -/
def cpuTypeDef (r4100 exc3k : Bool) (mmuModel : MmuModel) (isaLevel nrOfTlbEntries : Nat) : CpuType :=
  ⟨mmuModel, exc3k, r4100, decide (isaLevel ≤ 2) || isaLevel == 32, nrOfTlbEntries⟩

def mipsCpuTypeDefs : List (String × CpuType) :=
  [("R2000", cpuTypeDef false true .mmu3k 1 64), ("R2000A", cpuTypeDef false true .mmu3k 1 64),
    ("R3000", cpuTypeDef false true .mmu3k 1 64), ("R3000A", cpuTypeDef false true .mmu3k 1 64),
    ("R6000", cpuTypeDef false true .mmu3k 2 32), ("R4000", cpuTypeDef false false .mmu4k 3 48),
    ("R4000PC", cpuTypeDef false false .mmu4k 3 48), ("R10000", cpuTypeDef false false .mmu10k 4 64),
    ("R4200", cpuTypeDef false false .mmu4k 3 32), ("R4300", cpuTypeDef false false .mmu4k 3 32),
    ("R4100", cpuTypeDef true false .mmu4k 3 32), ("VR4102", cpuTypeDef true false .mmu4k 3 32),
    ("VR4181", cpuTypeDef true false .mmu4k 3 32), ("VR4121", cpuTypeDef true false .mmu4k 3 32),
    ("VR4122", cpuTypeDef true false .mmu4k 3 32), ("VR4131", cpuTypeDef true false .mmu4k 3 32),
    ("R4400", cpuTypeDef false false .mmu4k 3 48), ("R4600", cpuTypeDef false false .mmu4k 3 48),
    ("R4700", cpuTypeDef false false .mmu4k 3 48), ("R4650", cpuTypeDef false false .mmu4k 3 48),
    ("R8000", cpuTypeDef false false .mmu8k 4 192), ("R12000", cpuTypeDef false false .mmu10k 4 64),
    ("R14000", cpuTypeDef false false .mmu10k 4 64), ("R5000", cpuTypeDef false false .mmu4k 4 48),
    ("R5900", cpuTypeDef false false .mmu4k 3 48), ("TX3920", cpuTypeDef false false .mmu32 1 32),
    ("TX7901", cpuTypeDef false false .mmu4k 3 48), ("VR5432", cpuTypeDef false false .mmu4k 4 48),
    ("RM5200", cpuTypeDef false false .mmu4k 4 48), ("RM7000", cpuTypeDef false false .mmu4k 4 48),
    ("RM7900", cpuTypeDef false false .mmu4k 4 64), ("RM9000", cpuTypeDef false false .mmu4k 4 48),
    ("RC32334", cpuTypeDef false false .mmu4k 32 16), ("4Kc", cpuTypeDef false false .mmu32 32 16),
    ("4KEc", cpuTypeDef false false .mmu32 32 16), ("5Kc", cpuTypeDef false false .mmu64 64 48),
    ("5KE", cpuTypeDef false false .mmu64 64 48), ("24KEc", cpuTypeDef false false .mmu32 32 32),
    ("BCM4710", cpuTypeDef false false .mmu32 32 32), ("BCM4712", cpuTypeDef false false .mmu32 32 32),
    ("AU1000", cpuTypeDef false false .mmu32 32 32), ("AU1500", cpuTypeDef false false .mmu32 32 32),
    ("AU1100", cpuTypeDef false false .mmu32 32 32), ("SB1", cpuTypeDef false false .mmu64 64 32),
    ("SR7100", cpuTypeDef false false .mmu64 64 32), ("Allegrex", cpuTypeDef false false .mmu32 2 4)]

/-- The kinds of CPU that the code is consistent about. The R8000 has no page masks
and takes even pages to be valid, and the R6000 has a TLB of 32 entries, of which
translate_v2p() reads 64. -/
structure CpuType.Supported (t : CpuType) : Prop where
  not8k : t.mmuModel ≠ .mmu8k
  exc3k : t.exc3k = true ↔ t.mmuModel = .mmu3k
  r3000 : t.mmuModel = .mmu3k → t.is32bit = true ∧ t.nrOfTlbEntries = 64 ∧ t.r4100 = false
  r10000 : t.mmuModel = .mmu10k → t.is32bit = false ∧ t.r4100 = false
  r4100 : t.r4100 = true → t.is32bit = false
  entries : 0 < t.nrOfTlbEntries ∧ t.nrOfTlbEntries ≤ 64

namespace CpuType.Supported
variable {t : CpuType} (ht : t.Supported)
include ht

theorem variant_ne : t.variant ≠ .mmu8k := by
  have := ht.not8k
  unfold CpuType.variant
  cases h : t.mmuModel <;> simp_all
  all_goals split <;> simp

omit ht in
theorem variant_eq_mmu3k : t.variant = .mmu3k ↔ t.mmuModel = .mmu3k := by
  unfold CpuType.variant
  cases h : t.mmuModel <;> simp
  all_goals split <;> simp

theorem variant_eq_mmu4100 : t.variant = .mmu4100 ↔ t.r4100 = true := by
  unfold CpuType.variant
  cases h : t.mmuModel <;> simp
  · exact (ht.r3000 h).2.2
  · exact absurd h ht.not8k
  · exact (ht.r10000 h).2

omit ht in
theorem variant_eq_mmu10k : t.variant = .mmu10k ↔ t.mmuModel = .mmu10k := by
  unfold CpuType.variant
  cases h : t.mmuModel <;> simp
  all_goals split <;> simp

theorem nTlbs : t.nTlbs = t.nrOfTlbEntries := by
  unfold CpuType.nTlbs
  cases h : t.variant <;> simp
  exact (ht.r3000 (variant_eq_mmu3k.mp h)).2.1.symm

end CpuType.Supported

/-! ## Addresses -/

theorem getLsbD_sext32 (x : Addr) {i : Nat} (hi : i < 64) : (sext32 x).getLsbD i =
    if i < 32 then x.getLsbD i else x.getLsbD 31 := by
  unfold sext32
  rw [BitVec.getLsbD_signExtend]
  simp only [hi, decide_true, Bool.true_and, BitVec.getLsbD_setWidth, BitVec.msb_eq_getLsbD_last]
  split <;> simp_all

theorem sext32_and {m : Addr} (hm : m.toNat < 2 ^ 32) (x : Addr) : sext32 x &&& m = x &&& m := by
  apply BitVec.eq_of_getLsbD_eq
  intro i hi
  simp only [BitVec.getLsbD_and, getLsbD_sext32 _ hi]
  split
  · rfl
  · rename_i hge
    have : m.getLsbD i = false := Nat.testBit_lt_two_pow
      (Nat.lt_of_lt_of_le hm (Nat.pow_le_pow_right (by decide) (Nat.le_of_not_lt hge)))
    rw [this, Bool.and_false, Bool.and_false]

theorem sext32_sext32 (x : Addr) : sext32 (sext32 x) = sext32 x := by
  apply BitVec.eq_of_getLsbD_eq
  intro i hi
  rw [getLsbD_sext32 _ hi, getLsbD_sext32 _ hi, getLsbD_sext32 _ (by decide)]
  split <;> rfl

/-! ## Mapped addresses -/

theorem mappedAddr_eq {v : Variant} {status : Reg} {vaddr va : Addr} (h : mappedAddr v status vaddr = some va) :
    va = vaddr ∨ va = sext32 vaddr := by
  unfold mappedAddr at h
  split at h
  next ksu x64 _ =>
    split at h
    next va' hseg =>
      cases h
      unfold segment at hseg
      dsimp only at hseg
      have hw : (if x64 = true then vaddr else sext32 vaddr) = vaddr ∨
          (if x64 = true then vaddr else sext32 vaddr) = sext32 vaddr := by
        cases x64
        · exact .inr rfl
        · exact .inl rfl
      generalize (if x64 = true then vaddr else sext32 vaddr) = w at hseg hw
      generalize (if x64 = true then v.xusegTop else 0x7fffffff#64) = top at hseg
      split at hseg
      · cases hseg
      · split at hseg
        · cases hseg
        · split at hseg
          · cases hseg
            exact hw
          · split at hseg
            · split at hseg
              · cases hseg
              · cases hseg
                exact hw
            · cases hseg
    next => cases h
    next => cases h
  next => cases h

end Gxemul.Mips
