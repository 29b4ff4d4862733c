import Gxemul.Disk.Diskimage
import Mathlib.Data.BitVec

/- READ and WRITE commands of SCSI disks (`src/disk/diskimage_scsicmd.c`).

   A controller allocates a transfer for each command and calls
   diskimage_scsicommand(). A WRITE is called twice: the first call says how much
   data it wants, and the controller calls again when it has the data. What
   malloc() returns is not cleared, so a READ is told what the memory holds.
   The disk is not a tape, and the other commands are left out. -/
namespace Gxemul.Disk

open Lib (Byte)

def scsicmdRead : Byte := 0x08#8
def scsicmdWrite : Byte := 0x0a#8
def scsicmdRead10 : Byte := 0x28#8
def scsicmdWrite10 : Byte := 0x2a#8

/-- `struct scsi_transfer`. A pointer that is NULL is `none`; `dataOut` has the bytes up to `dataOutOffset`. -/
structure ScsiTransfer where
  cmd : List Byte
  dataOut : Option (List Byte) := none
  dataOutLen : Nat := 0
  dataOutOffset : Nat := 0
  dataIn : Option (List Byte) := none
  msgIn : Option (List Byte) := none
  status : Option (List Byte) := none

/-- A disk image that is a SCSI disk. diskimage_add() sets the block size to 512, and a driver may set it to 2048. -/
structure ScsiDisk where
  image : Diskimage
  logicalBlockSize : Nat
  size_ok : logicalBlockSize = 512 ∨ logicalBlockSize = 2048

inductive ScsiExit where
  | bufNull
  | disk (e : DiskExit)

/-- What diskimage_scsicommand() returns. -/
inductive ScsiResult where
  | error
  | ok
  | wantsDataOut
  deriving DecidableEq

/-! ## The commands -/

def cmdByte (cmd : List Byte) (i : Nat) : Nat := (cmd.getD i 0x00#8).toNat

def blocks6 (cmd : List Byte) : Nat × Nat :=
  let ofs := ((cmdByte cmd 1 &&& 0x1f) <<< 16) + (cmdByte cmd 2 <<< 8) + cmdByte cmd 3
  let retlen := cmdByte cmd 4
  (ofs, if retlen = 0 then 256 else retlen)

def blocks10 (cmd : List Byte) : Nat × Nat :=
  ((cmdByte cmd 2 <<< 24) + (cmdByte cmd 3 <<< 16) + (cmdByte cmd 4 <<< 8) + cmdByte cmd 5,
    (cmdByte cmd 7 <<< 8) + cmdByte cmd 8)

namespace ScsiDisk
variable (d : ScsiDisk)

def extent (blocks : Nat × Nat) : Nat × Nat := (blocks.1 * d.logicalBlockSize, blocks.2 * d.logicalBlockSize)

/-- diskimage__internal_access() on a pointer. The result is ignored. -/
def access (writeflag : Bool) (ofs : Nat) (buf : Option (List Byte)) : Except ScsiExit (ScsiDisk × List Byte) :=
  match buf with
  | none => .error .bufNull
  | some buf =>
    match d.image.internalAccess writeflag ofs buf with
    | .ok (image, buf, _) => .ok ({ d with image := image }, buf)
    | .error e => .error (.disk e)

def returnDefaultStatusAndMessage (xferp : ScsiTransfer) : ScsiTransfer :=
  { xferp with status := some [0x00#8], msgIn := some [0x00#8] }

/-- A READ. `mem` is what the memory of the new buffer holds. -/
def read (mem : Nat → Byte) (xferp : ScsiTransfer) : Except ScsiExit (ScsiDisk × ScsiTransfer × ScsiResult) := do
  let (ofs, size) := d.extent
    (if xferp.cmd.head? = some scsicmdRead then blocks6 xferp.cmd else blocks10 xferp.cmd)
  let (d, dataIn) ← d.access false ofs (some ((List.range size).map mem))
  .ok (d, returnDefaultStatusAndMessage { xferp with dataIn := some dataIn }, .ok)

def write (xferp : ScsiTransfer) : Except ScsiExit (ScsiDisk × ScsiTransfer × ScsiResult) :=
  let (ofs, size) := d.extent
    (if xferp.cmd.head? = some scsicmdWrite then blocks6 xferp.cmd else blocks10 xferp.cmd)
  if xferp.dataOutOffset ≠ size then .ok (d, { xferp with dataOutLen := size }, .wantsDataOut)
  else do
    let (d, _) ← d.access true ofs (xferp.dataOut.map fun buf => buf.take size)
    .ok (d, returnDefaultStatusAndMessage xferp, .ok)

/-- diskimage_scsicommand() for a transfer that has one of the four commands. -/
def scsicommand (mem : Nat → Byte) (xferp : ScsiTransfer) : Except ScsiExit (ScsiDisk × ScsiTransfer × ScsiResult) :=
  if xferp.cmd.head? = some scsicmdRead ∨ xferp.cmd.head? = some scsicmdRead10 then d.read mem xferp
  else if xferp.cmd.head? = some scsicmdWrite ∨ xferp.cmd.head? = some scsicmdWrite10 then d.write xferp
  else .ok (d, xferp, .error)

end ScsiDisk

/-! ## What a command asks for -/

inductive Request where
  | six (isWrite : Bool) (lun : BitVec 3) (address : BitVec 21) (count : Byte) (control : Byte)
  | ten (isWrite : Bool) (flags : Byte) (address : BitVec 32) (reserved : Byte) (count : BitVec 16) (control : Byte)

namespace Request

def isWrite : Request → Bool
  | .six w .. => w
  | .ten w .. => w

def address : Request → Nat
  | .six _ _ a _ _ => a.toNat
  | .ten _ _ a _ _ _ => a.toNat

def blocks : Request → Nat
  | .six _ _ _ n _ => if n = 0x00#8 then 256 else n.toNat
  | .ten _ _ _ _ n _ => n.toNat

def cmd : Request → List Byte
  | .six w lun a n c =>
    [if w then scsicmdWrite else scsicmdRead, lun ++ a.extractLsb' 16 5, a.extractLsb' 8 8, a.extractLsb' 0 8, n, c]
  | .ten w flags a r n c =>
    [if w then scsicmdWrite10 else scsicmdRead10, flags, a.extractLsb' 24 8, a.extractLsb' 16 8, a.extractLsb' 8 8,
      a.extractLsb' 0 8, r, n.extractLsb' 8 8, n.extractLsb' 0 8, c]

variable (r : Request)

def decoded : Nat × Nat :=
  if r.cmd.head? = some (if r.isWrite then scsicmdWrite else scsicmdRead) then blocks6 r.cmd else blocks10 r.cmd

theorem lun_bits (lun : BitVec 3) (hi : BitVec 5) : (lun ++ hi : BitVec 8).toNat &&& 0x1f = hi.toNat := by
  have hmask : (0x1f : Nat) = 2 ^ 5 - 1 := rfl
  rw [BitVec.toNat_append, hmask, Nat.and_two_pow_sub_one_eq_mod, Nat.shiftLeft_eq, Nat.mul_comm,
    ← Nat.two_pow_add_eq_or_of_lt hi.isLt]
  omega

theorem decoded_eq : r.decoded = (r.address, r.blocks) := by
  cases r with
  | six w lun a n c =>
    have hop : (Request.six w lun a n c).cmd.head? = some (if w then scsicmdWrite else scsicmdRead) := rfl
    rw [decoded, isWrite, if_pos hop]
    have haddress : ((lun ++ a.extractLsb' 16 5 : BitVec 8).toNat &&& 0x1f) <<< 16 +
        (a.extractLsb' 8 8).toNat <<< 8 + (a.extractLsb' 0 8).toNat = a.toNat := by
      rw [lun_bits]
      simp only [BitVec.extractLsb'_toNat, Nat.shiftLeft_eq, Nat.shiftRight_eq_div_pow]
      omega
    have hcount : (if n.toNat = 0 then 256 else n.toNat) = if n = 0x00#8 then 256 else n.toNat := by
      refine if_congr ?_ rfl rfl
      rw [← BitVec.toNat_inj]
      rfl
    exact Prod.ext haddress hcount
  | ten w flags a r n c =>
    have hhead : (Request.ten w flags a r n c).cmd.head? = some (if w then scsicmdWrite10 else scsicmdRead10) := rfl
    have hop : (Request.ten w flags a r n c).cmd.head? ≠ some (if w then scsicmdWrite else scsicmdRead) := by
      rw [hhead]
      cases w <;> decide
    rw [decoded, isWrite, if_neg hop]
    have haddress : (a.extractLsb' 24 8).toNat <<< 24 + (a.extractLsb' 16 8).toNat <<< 16 +
        (a.extractLsb' 8 8).toNat <<< 8 + (a.extractLsb' 0 8).toNat = a.toNat := by
      simp only [BitVec.extractLsb'_toNat, Nat.shiftLeft_eq, Nat.shiftRight_eq_div_pow]
      omega
    have hcount : (n.extractLsb' 8 8).toNat <<< 8 + (n.extractLsb' 0 8).toNat = n.toNat := by
      simp only [BitVec.extractLsb'_toNat, Nat.shiftLeft_eq, Nat.shiftRight_eq_div_pow]
      omega
    exact Prod.ext haddress hcount

end Request

end Gxemul.Disk
