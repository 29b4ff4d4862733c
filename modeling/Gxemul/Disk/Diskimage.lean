import Gxemul.Lib.Bytes

/- Disk images with overlays (`src/disk/diskimage.c`).

   An overlay is a data file and a bitmap file with one bit for each block of the
   data file that is in use. Writes go to the last overlay. A read looks for each
   block by itself in the overlays, from the last one to the first, and then in
   the base file. The host's files can always be written and sought in. -/
namespace Gxemul.Disk

open Lib (Byte File)

def overlayBlockSize : Nat := 512

def cdromSectorSize : Nat := 2048

/-- `struct diskimage_overlay`. -/
structure Overlay where
  data : File
  bitmap : File
  deriving DecidableEq

/-- `struct diskimage`, the part that accesses use. -/
structure Diskimage where
  f : Option File
  overlays : List Overlay
  writable : Bool
  isACdrom : Bool
  deriving DecidableEq

/-- `abort()` on an access that is not aligned. -/
inductive DiskExit where
  | lenNotMultiple
  | unalignedAccess
  deriving DecidableEq

/-! ## The bitmap -/

namespace Overlay
variable (o : Overlay)

def setBlockInUse (ofs : Nat) : Overlay :=
  let bitNr := ofs / overlayBlockSize
  let data := (o.bitmap.read (bitNr / 8) 1).getD 0 0x00#8
  { o with bitmap := o.bitmap.write (bitNr / 8) [data ||| 1#8 <<< (bitNr % 8)] }

def hasBlock (ofs : Nat) : Bool :=
  let bitNr := ofs / overlayBlockSize
  match o.bitmap.read (bitNr / 8) 1 with
  | [data] => data &&& 1#8 <<< (bitNr % 8) != 0#8
  | _ => false

/-- One block of fwrite_helper(). -/
def writeBlock (ofs : Nat) (block : List Byte) : Overlay :=
  { o with data := o.data.write ofs block }.setBlockInUse ofs

end Overlay

namespace Diskimage
variable (d : Diskimage)

/-! ## Writes -/

/-- The loop of fwrite_helper(), on the last overlay. `n` is the number of blocks. -/
def fwriteLoop : Nat → Nat → List Byte → Overlay → Overlay
  | 0, _, _, o => o
  | n + 1, curofs, buf, o =>
    fwriteLoop n (curofs + overlayBlockSize) (buf.drop overlayBlockSize)
      (o.writeBlock curofs (buf.take overlayBlockSize))

/-- fwrite_helper(), with the number of bytes written. `f` is the base file. -/
def fwriteHelper (f : File) (offset : Nat) (buf : List Byte) : Except DiskExit (Diskimage × Nat) :=
  match d.overlays.getLast? with
  | none => .ok ({ d with f := some (f.write offset buf) }, buf.length)
  | some o =>
    if buf.length % overlayBlockSize ≠ 0 then .error .lenNotMultiple
    else if offset % overlayBlockSize ≠ 0 then .error .unalignedAccess
    else
      let o := fwriteLoop (buf.length / overlayBlockSize) offset buf o
      .ok ({ d with overlays := d.overlays.dropLast ++ [o] }, buf.length)

/-! ## Reads -/

/-- The file that has the block at `ofs`: the data of the last overlay that has it, or the base file. -/
def findFile (f : File) (ofs : Nat) : File :=
  match d.overlays.reverse.find? fun o => o.hasBlock ofs with
  | some o => o.data
  | none => f

/-- The loop of fread_helper(): the buffer, and the number of bytes that were read. What is not read keeps what was in
the buffer. -/
def freadLoop (f : File) : Nat → Nat → List Byte → List Byte × Nat
  | 0, _, buf => (buf, 0)
  | n + 1, curofs, buf =>
    if buf.length = 0 then (buf, 0)
    else
      let lentoread := min buf.length overlayBlockSize
      let got := (d.findFile f curofs).read curofs lentoread
      let rest := freadLoop f n ((curofs ||| (overlayBlockSize - 1)) + 1) (buf.drop overlayBlockSize)
      (got ++ (buf.take overlayBlockSize).drop got.length ++ rest.1, got.length + rest.2)

def freadHelper (f : File) (offset : Nat) (buf : List Byte) : List Byte × Nat :=
  if d.overlays = [] then
    let got := f.read offset buf.length
    (got ++ buf.drop got.length, got.length)
  else d.freadLoop f buf.length offset buf

/-- The loop of diskimage_access__cdrom() over `n` bytes; `none` when a sector is not complete. -/
def cdromLoop (f : File) : Nat → Nat → Nat → Nat → Option (List Byte)
  | 0, _, _, len => if len = 0 then some [] else none
  | fuel + 1, alignedOffset, offset, len =>
    if len = 0 then some []
    else
      let cdromBuf := f.read alignedOffset cdromSectorSize
      if cdromBuf.length ≠ cdromSectorSize then none
      else
        let copied := (cdromBuf.drop (offset - alignedOffset)).take len
        (cdromLoop f fuel (alignedOffset + cdromSectorSize) (alignedOffset + cdromSectorSize)
          (len - copied.length)).map (copied ++ ·)

/-- diskimage_access__cdrom(). When it has read nothing the caller clears the buffer. -/
def accessCdrom (f : File) (offset : Nat) (buf : List Byte) : List Byte × Nat :=
  match cdromLoop f buf.length (offset / cdromSectorSize * cdromSectorSize) offset buf.length with
  | some copied => (copied, buf.length)
  | none => (buf, 0)

/-- diskimage__internal_access(): the disk image, the buffer, and whether the access was successful. -/
def internalAccess (writeflag : Bool) (offset : Nat) (buf : List Byte) :
    Except DiskExit (Diskimage × List Byte × Bool) :=
  if buf.length = 0 then .ok (d, buf, true)
  else
    match d.f with
    | none => .ok (d, buf, false)
    | some f =>
      if writeflag then
        if d.writable then do
          let (d', _) ← d.fwriteHelper f offset buf
          .ok (d', buf, true)
        else .ok (d, buf, false)
      else
        let (buf', lendone) := if d.isACdrom then accessCdrom f offset buf else d.freadHelper f offset buf
        .ok (d, buf'.take lendone ++ List.replicate (buf.length - lendone) 0#8, true)

end Diskimage

end Gxemul.Disk
