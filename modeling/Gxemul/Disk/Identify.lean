import Gxemul.Disk.WdcStore

/- What IDENTIFY tells a guest about a drive (`src/devices/dev_wdc.c`).

   The sector counts are split into bytes by hand, and three of their four bytes are
   taken modulo 255. The guest gets the right counts for just the disks where that makes
   no difference (`identify_iff`). -/
namespace Gxemul.Disk

open Lib (Byte Queue)

/-- The size and the file name of a disk image (diskimage_getsize() and diskimage_getname()). -/
structure ImageInfo where
  totalSize : BitVec 64
  fname : List Byte

inductive IdentifyCommand where
  | identify
  | atapiIdentify
  deriving DecidableEq

/-- `namebuf`, where the name is followed by blanks. -/
def namebuf (fname : List Byte) : List Byte :=
  let name := ((fname.reverse.takeWhile (· ≠ 0x2f#8)).reverse.takeWhile (· ≠ 0x00#8)).take 39
  name ++ List.replicate (40 - name.length) 0x20#8

theorem length_namebuf (fname : List Byte) : (namebuf fname).length = 40 := by
  unfold namebuf
  simp only [List.length_append, List.length_replicate, List.length_take]
  omega

/-- "#0" and "1.0", with the blanks behind them. -/
def serialNumber : List Byte := [0x23#8, 0x30#8] ++ List.replicate 18 0x20#8
def firmwareVersion : List Byte := [0x31#8, 0x2e#8, 0x30#8] ++ List.replicate 5 0x20#8

namespace Wdc
variable (d : Wdc) (cyls : Nat → Nat) (info : ImageInfo)

/-- wdc_initialize_identify_struct(). The words have their high byte first. -/
def initializeIdentifyStruct (cdrom : Bool) : Nat → Byte :=
  let put (s : Nat → Byte) (word high low : Nat) := Queue.fill s (2 * word) [BitVec.ofNat 8 high, BitVec.ofNat 8 low]
  let sectors := info.totalSize.toNat / 512
  let drive := d.regs.drive
  let flags := if cdrom then 0x8580 else 1 <<< 6
  let s := fun _ => 0x00#8
  let s := put s 0 (flags >>> 8) flags
  let s := put s 1 (cyls drive >>> 8) (cyls drive)
  let s := put s 3 (d.heads drive >>> 8) (d.heads drive)
  let s := put s 6 (d.sectorsPerTrack drive >>> 8) (d.sectorsPerTrack drive)
  let s := Queue.fill s (2 * 10) serialNumber
  let s := Queue.fill s (2 * 23) firmwareVersion
  let s := Queue.fill s (2 * 27) (namebuf info.fname)
  let s := put s 47 0x80 128
  let s := put s 49 0 0
  let s := put s 51 0x00 0x00
  let s := put s 53 0x00 0x02
  let s := put s 58 ((sectors >>> 24) % 255) ((sectors >>> 16) % 255)
  let s := put s 57 ((sectors >>> 8) % 255) (sectors &&& 255)
  let s := put s 61 ((sectors >>> 24) % 255) ((sectors >>> 16) % 255)
  let s := put s 60 ((sectors >>> 8) % 255) (sectors &&& 255)
  let s := put s 64 0x00 0x03
  let s := put s 67 0 120
  put s 68 0 120

def identifyBytes (s : Nat → Byte) : List Byte := (List.range 256).flatMap fun w => [s (2 * w + 1), s (2 * w)]

/-- wdc_command() for IDENTIFY. -/
def identify (cmd : IdentifyCommand) : Wdc :=
  let d := { d with error := 0x00#8 }
  match d.selected with
  | none => { d with error := d.error ||| wdceAbrt, intAssert := true }
  | some disk =>
    if disk.image.isACdrom ∧ cmd = .identify then { d with error := d.error ||| wdceAbrt, intAssert := true }
    else
      { (identifyBytes (d.initializeIdentifyStruct cyls info disk.image.isACdrom)).foldl addtoinbuf d with
        intAssert := true }

def dataReads (big : Bool) : List Nat → Wdc → List Byte
  | [], _ => []
  | len :: lens, d => (d.dataRead big len).2 ++ dataReads big lens (d.dataRead big len).1

end Wdc

/-! ## Decoding -/

def identifyWord (b : List Byte) (w : Nat) : Nat := (b.getD (2 * w) 0#8).toNat + 256 * (b.getD (2 * w + 1) 0#8).toNat

def TaskFile.Within (r : TaskFile) (cyls heads sectors : Nat) : Prop :=
  r.cylHi.toNat * 256 + r.cylLo.toNat < cyls ∧ r.head < 16 ∧ r.head < heads ∧ 1 ≤ r.sector.toNat ∧
    r.sector.toNat ≤ sectors

def Wdc.Sectors (d : Wdc) (cyls heads sectors : Nat) : Set Int :=
  { k | ∃ r : TaskFile, r.drive = d.regs.drive ∧ r.Within cyls heads sectors ∧
    ({ d with regs := r } : Wdc).offset = 512 * k }

structure Addressable (cyls heads sectors : Nat) : Prop where
  cyls : 1 ≤ cyls ∧ cyls ≤ 65536
  heads : 1 ≤ heads ∧ heads ≤ 16
  sectors : 1 ≤ sectors ∧ sectors ≤ 255

/-- The data describes a drive with its geometry, and an image with its number of sectors. -/
structure Wdc.Describes (d : Wdc) (cyls : Nat → Nat) (sectors : Nat) (b : List Byte) : Prop where
  length : b.length = 512
  capacity : identifyWord b 57 + 65536 * identifyWord b 58 = sectors % 2 ^ 32
  addressable : identifyWord b 60 + 65536 * identifyWord b 61 = sectors % 2 ^ 32
  cylinders : identifyWord b 1 = cyls d.regs.drive
  heads : identifyWord b 3 = d.heads d.regs.drive
  sectorsPerTrack : identifyWord b 6 = d.sectorsPerTrack d.regs.drive
  /-- The sectors of the geometry are those of the drive, -/
  sameSectors : d.Sectors (identifyWord b 1) (identifyWord b 3) (identifyWord b 6) =
    d.Sectors (cyls d.regs.drive) (d.heads d.regs.drive) (d.sectorsPerTrack d.regs.drive)
  /-- and the last one is the last sector of the image. -/
  last : Addressable (cyls d.regs.drive) (d.heads d.regs.drive) (d.sectorsPerTrack d.regs.drive) →
    cyls d.regs.drive * d.heads d.regs.drive * d.sectorsPerTrack d.regs.drive = sectors →
      IsGreatest (d.Sectors (identifyWord b 1) (identifyWord b 3) (identifyWord b 6)) (sectors - 1)

theorem isGreatest_sectors (d : Wdc) {c h s : Nat} (hheads : d.heads d.regs.drive = h)
    (hsectors : d.sectorsPerTrack d.regs.drive = s) (hgeometry : Addressable c h s) :
    IsGreatest (d.Sectors c h s) (((c * h * s : Nat) : Int) - 1) := by
  obtain ⟨⟨hc, hc'⟩, ⟨hh, hh'⟩, hs, hs'⟩ := hgeometry
  obtain ⟨c, rfl⟩ := Nat.exists_eq_add_of_le hc
  obtain ⟨h, rfl⟩ := Nat.exists_eq_add_of_le hh
  have htotal : (1 + c) * (1 + h) * s = s + h * s + (1 + h) * s * c := by ring
  have hoffset : ∀ r : TaskFile, r.drive = d.regs.drive → ({ d with regs := r } : Wdc).offset = 512 *
      (((r.sector.toNat + r.head * s + (1 + h) * s * (r.cylHi.toNat * 256 + r.cylLo.toNat) : Nat) : Int) - 1) := by
    intro r hdrive
    simp only [Wdc.offset, hdrive, hheads, hsectors]
    push_cast
    ring
  constructor
  · refine ⟨⟨0#8, 0#8, BitVec.ofNat 8 s, BitVec.ofNat 8 c, BitVec.ofNat 8 (c / 256), 0, 0, d.regs.drive, h⟩,
      rfl, ?_, ?_⟩
    · simp only [TaskFile.Within, BitVec.toNat_ofNat]
      omega
    · have hcyl : c / 256 % 2 ^ 8 * 256 + c % 2 ^ 8 = c := by omega
      have hsector : s % 2 ^ 8 = s := by omega
      refine (hoffset _ ?_).trans ?_
      · rfl
      · simp only [BitVec.toNat_ofNat, hcyl, hsector, htotal]
  · rintro k ⟨r, hdrive, ⟨hcyl, -, hhead, -, hsector⟩, hk⟩
    rw [hoffset r hdrive] at hk
    have hhead' : r.head * s ≤ h * s := Nat.mul_le_mul_right s (by omega)
    have hcyl' : (1 + h) * s * (r.cylHi.toNat * 256 + r.cylLo.toNat) ≤ (1 + h) * s * c :=
      Nat.mul_le_mul_left _ (by omega)
    omega

/-! ## The data that the guest gets -/

theorem getD_flatMap_pair (f g : Nat → Byte) (n : Nat) :
    ((List.range n).flatMap fun w => [f w, g w]).length = 2 * n ∧ ∀ w < n,
      ((List.range n).flatMap fun w => [f w, g w]).getD (2 * w) 0#8 = f w ∧
      ((List.range n).flatMap fun w => [f w, g w]).getD (2 * w + 1) 0#8 = g w := by
  induction n with
  | zero => exact ⟨rfl, fun w hw => by omega⟩
  | succ n ih =>
    obtain ⟨hlen, hget⟩ := ih
    simp only [List.range_succ, List.flatMap_append, List.flatMap_singleton]
    refine ⟨by simp only [List.length_append, hlen, List.length_cons, List.length_nil]; omega, fun w hw => ?_⟩
    by_cases hlast : w < n
    · rw [List.getD_append _ _ _ _ (by omega), List.getD_append _ _ _ _ (by omega)]
      exact hget w hlast
    · obtain rfl : w = n := by omega
      rw [List.getD_append_right _ _ _ _ (by omega), List.getD_append_right _ _ _ _ (by omega), hlen]
      simp

theorem length_identifyBytes (s : Nat → Byte) : (Wdc.identifyBytes s).length = 512 :=
  (getD_flatMap_pair _ _ 256).1

theorem identifyWord_bytes (s : Nat → Byte) {w : Nat} (hw : w < 256) :
    identifyWord (Wdc.identifyBytes s) w = (s (2 * w + 1)).toNat + 256 * (s (2 * w)).toNat := by
  obtain ⟨hlow, hhigh⟩ := (getD_flatMap_pair (fun w => s (2 * w + 1)) (fun w => s (2 * w)) 256).2 w hw
  rw [identifyWord, Wdc.identifyBytes, hlow, hhigh]

namespace Wdc
variable {d : Wdc} {lens : List Nat} {l : List Byte}

theorem dataReads_eq (big : Bool) (hd : d.inbuf.Holds wdcInbufSize l) (hlens : ∀ len ∈ lens, DataLen len)
    (hsum : l.length = lens.sum) : dataReads big lens d = l := by
  induction lens generalizing l d with
  | nil => exact (List.length_eq_zero_iff.mp hsum).symm
  | cons len lens ih =>
    rw [List.sum_cons] at hsum
    have htake : (l.take len).length = len := by
      rw [List.length_take]
      omega
    rw [← List.take_append_drop len l] at hd
    obtain ⟨q, i, hread, hholds⟩ := dataRead_eq big hd (by rw [htake]; exact hlens len List.mem_cons_self)
    rw [htake] at hread
    have hrest := ih (d := { d.withInbuf q with intAssert := i }) hholds
      (fun len' hlen' => hlens len' (List.mem_cons_of_mem _ hlen')) (by rw [List.length_drop]; omega)
    rw [dataReads, hread, hrest, List.take_append_drop]

def Answers (d : Wdc) (cmd : IdentifyCommand) : Prop :=
  ∃ disk, d.selected = some disk ∧ (disk.image.isACdrom = true → cmd = .atapiIdentify)

theorem dataReads_identify (big : Bool) (cyls : Nat → Nat) (info : ImageInfo) {cmd : IdentifyCommand}
    (hring : d.inbuf.Holds wdcInbufSize []) (hanswers : d.Answers cmd) (hlens : ∀ len ∈ lens, DataLen len)
    (hsum : lens.sum = 512) : ∃ cdrom, dataReads big lens (d.identify cyls info cmd) =
      identifyBytes (d.initializeIdentifyStruct cyls info cdrom) := by
  obtain ⟨disk, hdisk, hcmd⟩ := hanswers
  have hhandled : ¬(disk.image.isACdrom = true ∧ cmd = .identify) := by
    rintro ⟨hcdrom, rfl⟩
    cases hcmd hcdrom
  obtain ⟨q, hq, hholds⟩ := @foldl_addtoinbuf
    (identifyBytes (d.initializeIdentifyStruct cyls info disk.image.isACdrom)) [] { d with error := 0x00#8 } hring
    (by rw [length_identifyBytes]; decide)
  have hidentify : d.identify cyls info cmd =
      { ({ d with error := 0x00#8 } : Wdc).withInbuf q with intAssert := true } := by
    rw [← hq]
    show (match d.selected with | none => _ | some disk => _) = _
    rw [hdisk]
    exact if_neg hhandled
  refine ⟨disk.image.isACdrom, ?_⟩
  rw [hidentify]
  exact dataReads_eq big hholds hlens (by rw [length_identifyBytes, hsum])

theorem identifyWord_struct (cyls : Nat → Nat) (info : ImageInfo) (cdrom : Bool) :
    let b := identifyBytes (d.initializeIdentifyStruct cyls info cdrom)
    let sectors := info.totalSize.toNat / 512
    let low := sectors % 256 + 256 * (sectors / 2 ^ 8 % 255)
    let high := sectors / 2 ^ 16 % 255 + 256 * (sectors / 2 ^ 24 % 255)
    identifyWord b 57 = low ∧ identifyWord b 58 = high ∧ identifyWord b 60 = low ∧ identifyWord b 61 = high ∧
      identifyWord b 1 = cyls d.regs.drive % 65536 ∧ identifyWord b 3 = d.heads d.regs.drive % 65536 ∧
      identifyWord b 6 = d.sectorsPerTrack d.regs.drive % 65536 := by
  have hmask : ∀ n : Nat, n &&& 255 = n % 2 ^ 8 := fun n => Nat.and_two_pow_sub_one_eq_mod n 8
  simp only [identifyWord_bytes _ (show 57 < 256 by decide), identifyWord_bytes _ (show 58 < 256 by decide),
    identifyWord_bytes _ (show 60 < 256 by decide), identifyWord_bytes _ (show 61 < 256 by decide),
    identifyWord_bytes _ (show 1 < 256 by decide), identifyWord_bytes _ (show 3 < 256 by decide),
    identifyWord_bytes _ (show 6 < 256 by decide)]
  simp [initializeIdentifyStruct, Queue.fill, length_namebuf, serialNumber, firmwareVersion, hmask,
    Nat.shiftRight_eq_div_pow]
  omega

/-- The data that IDENTIFY returns describes the drive and the image, whatever the widths of the reads. -/
def IdentifyRight (d : Wdc) (cyls : Nat → Nat) (info : ImageInfo) (cmd : IdentifyCommand) (big : Bool)
    (lens : List Nat) : Prop :=
  d.Describes cyls (info.totalSize.toNat / 512) (dataReads big lens (d.identify cyls info cmd))

/-- A number of sectors whose upper bytes are the same modulo 255. -/
def SectorsFit (sectors : Nat) : Prop :=
  sectors / 2 ^ 8 % 65280 < 255 ∧ sectors / 2 ^ 16 % 65280 < 255 ∧ sectors / 2 ^ 24 % 65280 < 255

/-- IDENTIFY is right for the drives whose geometry has 16 bits in each word, and for the images with such a number of
sectors. -/
theorem identify_iff (cyls : Nat → Nat) (info : ImageInfo) (big : Bool) {cmd : IdentifyCommand}
    (hring : d.inbuf.Holds wdcInbufSize []) (hanswers : d.Answers cmd) (hlens : ∀ len ∈ lens, DataLen len)
    (hsum : lens.sum = 512) : IdentifyRight d cyls info cmd big lens ↔ SectorsFit (info.totalSize.toNat / 512) ∧
      cyls d.regs.drive < 65536 ∧ d.heads d.regs.drive < 65536 ∧ d.sectorsPerTrack d.regs.drive < 65536 := by
  obtain ⟨cdrom, hdata⟩ := dataReads_identify big cyls info hring hanswers hlens hsum
  obtain ⟨h57, h58, h60, h61, h1, h3, h6⟩ := identifyWord_struct (d := d) cyls info cdrom
  unfold IdentifyRight SectorsFit
  rw [hdata]
  generalize info.totalSize.toNat / 512 = sectors at *
  constructor
  · rintro ⟨-, hcapacity, -, hcyls, hheads, hsectors, -, -⟩
    rw [h57, h58] at hcapacity
    omega
  · rintro ⟨⟨hb1, hb2, hb3⟩, hcyls, hheads, hsectors⟩
    have hwords : sectors % 256 + 256 * (sectors / 2 ^ 8 % 255) +
        65536 * (sectors / 2 ^ 16 % 255 + 256 * (sectors / 2 ^ 24 % 255)) = sectors % 2 ^ 32 := by
      omega
    rw [Nat.mod_eq_of_lt hcyls] at h1
    rw [Nat.mod_eq_of_lt hheads] at h3
    rw [Nat.mod_eq_of_lt hsectors] at h6
    refine ⟨length_identifyBytes _, by rw [h57, h58, hwords], by rw [h60, h61, hwords], h1, h3, h6, by rw [h1, h3, h6],
      fun hgeometry htotal => ?_⟩
    rw [h1, h3, h6, ← htotal]
    exact isGreatest_sectors d rfl rfl hgeometry

def cylinders65 : Wdc := { WdcRun.oneSector with heads := fun _ => 16, sectorsPerTrack := fun _ => 63 }

/-- It has 65520 sectors, and word 57 says 240. -/
theorem cylinders65_not_right : ¬ IdentifyRight cylinders65 (fun _ => 65) ⟨33546240#64, []⟩ .identify false
    (List.replicate 128 4) := by
  have hring : cylinders65.inbuf.Holds wdcInbufSize [] := Queue.Holds.empty (by decide) rfl
  obtain ⟨cdrom, hdata⟩ := dataReads_identify false (fun _ => 65) ⟨33546240#64, []⟩ hring
    ⟨_, rfl, fun h => by cases h⟩ (fun len hlen => .inr (.inr (List.eq_of_mem_replicate hlen)))
    (show (List.replicate 128 4).sum = 512 from List.sum_replicate_nat)
  obtain ⟨h57, h58, -⟩ := identifyWord_struct (d := cylinders65) (fun _ => 65) ⟨33546240#64, []⟩ cdrom
  rintro ⟨-, hcapacity, -⟩
  rw [hdata, h57, h58] at hcapacity
  exact absurd hcapacity (by decide)

/-- A drive of one cylinder is described. -/
theorem identify_cylinder : IdentifyRight cylinders65 (fun _ => 1) ⟨516096#64, []⟩ .identify false
    (List.replicate 128 4) :=
  (identify_iff _ _ _ (Queue.Holds.empty (by decide) rfl) ⟨_, rfl, fun h => by cases h⟩
    (fun len hlen => .inr (.inr (List.eq_of_mem_replicate hlen))) (List.sum_replicate_nat)).mpr
    ⟨by unfold SectorsFit; decide, by decide, by decide, by decide⟩

end Wdc
end Gxemul.Disk
