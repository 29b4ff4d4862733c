import Gxemul.Lib.Masks

/- The size of a disk image (diskimage_recalc_size() in `src/disk/diskimage.c`).

   The capacity is a number of full cylinders. Their number is only worked out for a disk
   that is no floppy and whose geometry is not given, and the sectors of a floppy are
   worked out from a capacity that is not known yet (`capacity_iff`). -/
namespace Gxemul.Disk

inductive DiskType where
  | unknown | scsi | ide | floppy
  deriving DecidableEq

inductive SizeExit where
  | divisionByZero
  deriving DecidableEq

/-- The fields of `struct diskimage` that the size of an image is about. -/
structure Geometry where
  type : DiskType
  chsOverride : Bool
  cylinders : Int
  heads : Int
  sectorsPerTrack : Int
  totalSize : Int
  logicalBlockSize : Int
  nrOfLogicalBlocks : Int
  isACdrom : Bool
  deriving DecidableEq

/-- The result of an operation on int64_t. -/
def int64 (x : Int) : Int := (BitVec.ofInt 64 x).toInt

theorem int64_eq {x : Int} (hlow : -2 ^ 63 ≤ x) (hhigh : x < 2 ^ 63) : int64 x = x := by
  rw [int64, BitVec.toInt_ofInt]
  exact Int.bmod_eq_of_le (by omega) (by omega)

theorem int64_zero : int64 0 = 0 := rfl

theorem int64_over {x : Int} (hlow : 2 ^ 63 ≤ x) (hhigh : x < 2 ^ 64) : int64 x = x - 2 ^ 64 := by
  rw [int64, BitVec.toInt_ofInt, Int.bmod_def]
  rw [Int.emod_eq_of_lt (by omega) (by omega), if_neg (by omega)]
  rfl

namespace Geometry
variable (d : Geometry)

/-- `st_size`, or a guess for a CD-ROM device. -/
def sizeOf (size : Int) : Int := if d.isACdrom ∧ size = 0 then 762048000 else size

def guessType (totalSize : Int) : DiskType :=
  if (totalSize = 720 * 1024 ∨ totalSize = 1474560 ∨ totalSize = 2949120 ∨ totalSize = 1228800) ∧ d.type = .unknown
  then .floppy else d.type

/-- The cylinders, heads and sectors per track that `size` has where they are not given. -/
def chs (size : Int) : Geometry :=
  if d.chsOverride then d
  else if d.type = .floppy then
    { d with
      cylinders := 80
      heads := 2
      sectorsPerTrack := (int64 (d.nrOfLogicalBlocks * d.logicalBlockSize)).tdiv (80 * 2 * 512) }
  else
    let bytespercyl := 16 * 63 * 512
    let cylinders := size.tdiv bytespercyl
    { d with
      cylinders := if int64 (cylinders * bytespercyl) < size then cylinders + 1 else cylinders
      heads := 16
      sectorsPerTrack := 63 }

def fullSize : Int := int64 (int64 (int64 (d.heads * d.sectorsPerTrack) * d.cylinders) * 512)

/-- `nr_of_logical_blocks` for a size in bytes. -/
def blocks (size : Int) : Except SizeExit Int :=
  if d.logicalBlockSize = 0 then .error .divisionByZero
  else .ok (size.tdiv d.logicalBlockSize +
    if BitVec.ofInt 64 size &&& BitVec.ofInt 64 (d.logicalBlockSize - 1) ≠ 0#64 then 1 else 0)

def sized (totalSize : Int) : Geometry := { d with totalSize, type := d.guessType totalSize }

/-- diskimage_recalc_size(), and whether stat() was successful. -/
def recalcSize (st : Option Int) : Except SizeExit (Geometry × Bool) := do
  match st with
  | none => return (d, false)
  | some size =>
    let size := d.sizeOf size
    let d := (d.sized size).chs size
    return ({ d with nrOfLogicalBlocks := ← d.blocks d.fullSize }, true)

end Geometry

/-! ## Capacity -/

/-- A geometry that is given with the prefix `g`. -/
structure Override where
  heads : Int
  sectorsPerTrack : Int
  heads_pos : 1 ≤ heads
  sectors_pos : 1 ≤ sectorsPerTrack
  heads_lt : heads < 2 ^ 31
  sectors_lt : sectorsPerTrack < 2 ^ 31

/-- The image that diskimage_add() calls diskimage_recalc_size() for. -/
def addedImage (type : DiskType) (override : Option Override) (isACdrom : Bool) : Geometry where
  type := type
  chsOverride := override.isSome
  cylinders := 0
  heads := (override.map (·.heads)).getD 0
  sectorsPerTrack := (override.map (·.sectorsPerTrack)).getD 0
  totalSize := 0
  logicalBlockSize := 512
  nrOfLogicalBlocks := 0
  isACdrom := isACdrom

/-- The capacity is enough for the image, and less than a cylinder more than that. -/
def Geometry.Covers (d : Geometry) : Prop :=
  d.totalSize ≤ d.nrOfLogicalBlocks * d.logicalBlockSize ∧
  d.nrOfLogicalBlocks * d.logicalBlockSize < d.totalSize + d.heads * d.sectorsPerTrack * 512

abbrev FileSize := { size : Int // 0 ≤ size ∧ size < 2 ^ 63 }

def CapacityCovers (type : DiskType) (override : Option Override) (isACdrom : Bool) (size : FileSize) : Prop :=
  ∃ d, (addedImage type override isACdrom).recalcSize (some size) = .ok (d, true) ∧ d.Covers

theorem blocks_full {d : Geometry} (hsize : d.logicalBlockSize = 512) (k : Int) : d.blocks (k * 512) = .ok k := by
  have hmask : BitVec.ofInt 64 (k * 512) &&& BitVec.ofInt 64 (512 - 1) = 0#64 := by
    apply BitVec.eq_of_toNat_eq
    have hmod := Lib.toNat_and_mask (BitVec.ofInt 64 (k * 512)) 9 (by decide)
    have hdvd : (BitVec.ofInt 64 (k * 512)).toNat % 512 = 0 := by
      rw [BitVec.toNat_ofInt]
      omega
    calc (BitVec.ofInt 64 (k * 512) &&& BitVec.ofInt 64 (512 - 1)).toNat
        = (BitVec.ofInt 64 (k * 512)).toNat % 512 := hmod
      _ = (0#64).toNat := hdvd
  unfold Geometry.blocks
  rw [hsize, if_neg (by decide), if_neg (fun h => h hmask), Int.mul_tdiv_cancel _ (by decide), Int.add_zero]

/-- What `size` is rounded up to without a given geometry. -/
def fullCylinders (size : Int) : Int := (size + (16 * 63 * 512 - 1)) / (16 * 63 * 512) * (16 * 63 * 512)

section
variable {type : DiskType} {override : Option Override} {isACdrom : Bool} {size : FileSize} {total : Int}

theorem sizeOf_bounds (d : Geometry) (size : FileSize) : 0 ≤ d.sizeOf size ∧ d.sizeOf size < 2 ^ 63 := by
  have hsize := size.2
  unfold Geometry.sizeOf
  split
  · decide
  · exact hsize

theorem capacityCovers_iff {d : Geometry} {k : Int} (htotal : (addedImage type override isACdrom).sizeOf size = total)
    (hd : ((addedImage type override isACdrom).sized total).chs total = d) (hblock : d.logicalBlockSize = 512)
    (hfull : d.fullSize = k * 512) : CapacityCovers type override isACdrom size ↔
      d.totalSize ≤ k * 512 ∧ k * 512 < d.totalSize + d.heads * d.sectorsPerTrack * 512 := by
  have hrun : (addedImage type override isACdrom).recalcSize (some size) =
      .ok ({ d with nrOfLogicalBlocks := k }, true) := by
    unfold Geometry.recalcSize
    dsimp only
    rw [htotal, hd, hfull, blocks_full hblock]
    rfl
  unfold CapacityCovers
  rw [hrun]
  constructor
  · rintro ⟨d', heq, hcovers⟩
    rw [← (Prod.mk.inj (Except.ok.inj heq)).1, Geometry.Covers] at hcovers
    rwa [hblock] at hcovers
  · intro hcovers
    refine ⟨_, rfl, ?_⟩
    rw [Geometry.Covers]
    rwa [hblock]

theorem cylinders_eq (hlow : 0 ≤ total) (hhigh : total < 2 ^ 63) :
    (if int64 (total.tdiv (16 * 63 * 512) * (16 * 63 * 512)) < total then total.tdiv (16 * 63 * 512) + 1
      else total.tdiv (16 * 63 * 512)) * 1008 * 512 = fullCylinders total := by
  unfold fullCylinders
  rw [Int.tdiv_eq_ediv_of_nonneg hlow, int64_eq (by omega) (by omega)]
  split <;> omega

theorem fullSize_cylinders (hlow : 0 ≤ total) (hhigh : total < 2 ^ 63) {d : Geometry} (hheads : d.heads = 16)
    (hsectors : d.sectorsPerTrack = 63) (hcyl : d.cylinders * 1008 * 512 = fullCylinders total) :
    d.fullSize = int64 (fullCylinders total) := by
  have hbound : 0 ≤ fullCylinders total ∧ fullCylinders total < 2 ^ 63 + 516096 := by
    unfold fullCylinders
    omega
  have hprod : int64 (16 * 63) = 1008 := rfl
  have hcyl' : int64 (1008 * d.cylinders) = 1008 * d.cylinders := int64_eq (by omega) (by omega)
  have hassoc : 1008 * d.cylinders * 512 = d.cylinders * 1008 * 512 := by omega
  unfold Geometry.fullSize
  rw [hheads, hsectors, hprod, hcyl', hassoc, hcyl]

end

/-- The images whose capacity covers them: with a given geometry only the empty ones, and otherwise all but floppies
whose full cylinders are less than 8 EB. -/
theorem capacity_iff (type : DiskType) (override : Option Override) (isACdrom : Bool) (size : FileSize) :
    CapacityCovers type override isACdrom size ↔
      match override with
      | some _ => (addedImage type override isACdrom).sizeOf size = 0
      | none => (addedImage type override isACdrom).guessType ((addedImage type override isACdrom).sizeOf size) ≠ .floppy ∧
          fullCylinders ((addedImage type override isACdrom).sizeOf size) < 2 ^ 63 := by
  obtain ⟨hlow, hhigh⟩ := sizeOf_bounds (addedImage type override isACdrom) size
  generalize htotal : (addedImage type override isACdrom).sizeOf size = total at hlow hhigh ⊢
  cases override with
  | some o =>
    -- no cylinders: the capacity is zero
    have hfull : ((addedImage type (some o) isACdrom).sized total).fullSize = 0 * 512 := by
      show int64 (int64 (int64 (o.heads * o.sectorsPerTrack) * 0) * 512) = 0 * 512
      rw [Int.mul_zero, int64_zero, Int.zero_mul, int64_zero]
    rw [capacityCovers_iff htotal (if_pos rfl) rfl hfull]
    have hcylinder : 0 < o.heads * o.sectorsPerTrack := Int.mul_pos o.heads_pos o.sectors_pos
    show total ≤ _ ∧ _ < total + o.heads * o.sectorsPerTrack * 512 ↔ _
    dsimp only
    omega
  | none =>
    dsimp only
    have hchs : ((addedImage type none isACdrom).sized total).chs total = _ := if_neg Bool.false_ne_true
    by_cases hfloppy : (addedImage type none isACdrom).guessType total = .floppy
    · -- no sectors: the capacity is zero
      have hsectors := hchs.trans (if_pos hfloppy)
      have hzero : (int64 (0 * 512)).tdiv (80 * 2 * 512) = 0 := rfl
      have hfull : (((addedImage type none isACdrom).sized total).chs total).fullSize = 0 * 512 := by
        rw [hsectors]
        show int64 (int64 (int64 (2 * (int64 (0 * 512)).tdiv (80 * 2 * 512)) * 80) * 512) = 0 * 512
        rw [hzero]
        rfl
      rw [capacityCovers_iff htotal rfl (by rw [hsectors]; rfl) hfull, hsectors]
      show total ≤ _ ∧ _ < total + 2 * (int64 (0 * 512)).tdiv (80 * 2 * 512) * 512 ↔ _
      rw [hzero]
      exact iff_of_false (by omega) fun h => h.1 hfloppy
    · have hcyl := hchs.trans (if_neg hfloppy)
      have hfull : (((addedImage type none isACdrom).sized total).chs total).fullSize =
          int64 (fullCylinders total) := by
        rw [hcyl]
        exact fullSize_cylinders hlow hhigh rfl rfl (cylinders_eq hlow hhigh)
      have hbound : 0 ≤ fullCylinders total ∧ fullCylinders total < 2 ^ 63 + 516096 := by
        unfold fullCylinders
        omega
      by_cases hfits : fullCylinders total < 2 ^ 63
      · have hk : int64 (fullCylinders total) = (total + 516095) / 516096 * 1008 * 512 := by
          rw [int64_eq (by omega) hfits]
          unfold fullCylinders
          omega
        rw [capacityCovers_iff htotal rfl (by rw [hcyl]; rfl) (hfull.trans hk), hcyl]
        show total ≤ _ ∧ _ < total + 16 * 63 * 512 ↔ _
        exact iff_of_true (by omega) ⟨hfloppy, hfits⟩
      · -- the product is negative
        have hk : int64 (fullCylinders total) = ((total + 516095) / 516096 * 1008 - 2 ^ 55) * 512 := by
          rw [int64_over (by omega) (by omega)]
          unfold fullCylinders
          omega
        rw [capacityCovers_iff htotal rfl (by rw [hcyl]; rfl) (hfull.trans hk), hcyl]
        show total ≤ _ ∧ _ ↔ _
        exact iff_of_false (by omega) fun h => hfits h.2

/-- A floppy of 1.44 MB has no capacity. -/
theorem floppy_not_covered : ¬ CapacityCovers .unknown none false ⟨1474560, by decide⟩ := by
  rintro ⟨d, hrun, hcovers⟩
  have hsize : (addedImage .unknown none false).recalcSize (some 1474560) =
      .ok (⟨.floppy, false, 80, 2, 0, 1474560, 512, 0, false⟩, true) := by decide +kernel
  rw [← (Prod.mk.inj (Except.ok.inj (hsize.symm.trans hrun))).1] at hcovers
  exact absurd hcovers.1 (by decide)

end Gxemul.Disk
