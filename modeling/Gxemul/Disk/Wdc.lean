import Gxemul.Disk.Diskimage
import Gxemul.Lib.Queue
import Gxemul.Memory.Data
import Gxemul.Disk.Content

/- The IDE controller (`src/devices/dev_wdc.c`).

   A ring of bytes has the data between the disk images and the data register, in
   both directions. READ fills it in chunks of up to 64 sectors; a data register
   write that completes what the drive waits for empties it. The I/O registers are
   enabled. The interrupt line itself, IDENTIFY, the ATAPI packet commands and the
   commands that transfer no data are left out. -/
namespace Gxemul.Disk

open Lib

def wdcMaxSectors : Nat := 512
def wdcInbufSize : Nat := 512 * (wdcMaxSectors + 1)
def maxSectorsPerChunk : Nat := 64

def wdceAbrt : Byte := 0x04#8

/-- What terminates the emulator. `negativeOffset` is an access before the first sector, which the host refuses; what
it does is not modelled. -/
inductive WdcExit where
  | disk (e : DiskExit)
  | writeLen
  | negativeOffset

structure IdeDisk where
  image : Diskimage
  overrideBaseOffset : Nat := 0

/-- diskimage_access(), when there is such an image: the image and the buffer. -/
def IdeDisk.access (d : IdeDisk) (writeflag : Bool) (offset : Nat) (buf : List Byte) :
    Except WdcExit (IdeDisk × List Byte) :=
  if offset < d.overrideBaseOffset then .ok (d, List.replicate buf.length 0x00#8)
  else
    match d.image.internalAccess writeflag (offset - d.overrideBaseOffset) buf with
    | .ok (image, buf, _) => .ok ({ d with image := image }, buf)
    | .error e => .error (.disk e)

inductive WdcCommand where
  | read
  | readMulti
  | write
  | writeMulti
  deriving DecidableEq

structure TaskFile where
  precomp : Byte := 0x00#8
  seccnt : Byte := 0x00#8
  sector : Byte := 0x00#8
  cylLo : Byte := 0x00#8
  cylHi : Byte := 0x00#8
  sectorsize : Nat := 0
  lba : Nat := 0
  drive : Nat := 0
  head : Nat := 0

inductive WdReg where
  | precomp
  | seccnt
  | sector
  | cylLo
  | cylHi
  | sdh

def TaskFile.set (r : TaskFile) (reg : WdReg) (idata : Byte) : TaskFile :=
  match reg with
  | .precomp => { r with precomp := idata }
  | .seccnt => { r with seccnt := idata }
  | .sector => { r with sector := idata }
  | .cylLo => { r with cylLo := idata }
  | .cylHi => { r with cylHi := idata }
  | .sdh =>
    { r with
      sectorsize := ((idata >>> 6) &&& 3#8).toNat
      lba := ((idata >>> 5) &&& 1#8).toNat
      drive := ((idata >>> 4) &&& 1#8).toNat
      head := (idata &&& 0x0f#8).toNat }

def TaskFile.count (r : TaskFile) : Nat := if r.seccnt ≠ 0x00#8 then r.seccnt.toNat else 256

/-- `struct wdc_data`, and the IDE disk images of the machine by id. -/
structure Wdc where
  baseDrive : Nat
  heads : Nat → Nat
  sectorsPerTrack : Nat → Nat
  images : Nat → Option IdeDisk
  /-- `inbuf`, `inbuf_head` and `inbuf_tail`. -/
  inbuf : Queue Byte := ⟨fun _ => 0x00#8, 0, 0⟩
  intAssert : Bool := false
  /-- The command that is being written, if it is not zero. -/
  writeInProgress : Option WdcCommand := none
  writeCount : Nat := 0
  writeOffset : Nat := 0
  error : Byte := 0x01#8
  regs : TaskFile := {}
  /-- The warnings about an overrun, or about reading too much. -/
  warnings : Nat := 0

namespace Wdc
variable (d : Wdc)

/-! ## The ring -/

def addtoinbuf (c : Byte) : Wdc :=
  let inbuf := { d.inbuf with
    slots := Function.update d.inbuf.slots d.inbuf.head c
    head := (d.inbuf.head + 1) % wdcInbufSize }
  { d with inbuf := inbuf, warnings := if inbuf.head = inbuf.tail then d.warnings + 1 else d.warnings }

def getInbuf : BitVec 64 × Wdc :=
  if d.inbuf.head = d.inbuf.tail then (BitVec.allOnes 64, { d with warnings := d.warnings + 1 })
  else
    ((d.inbuf.slots d.inbuf.tail).setWidth 64,
      { d with inbuf := { d.inbuf with tail := (d.inbuf.tail + 1) % wdcInbufSize } })

def inbufLen : Nat :=
  if d.inbuf.head < d.inbuf.tail then d.inbuf.head + wdcInbufSize - d.inbuf.tail else d.inbuf.head - d.inbuf.tail

/-! ## The commands -/

/-- diskimage_access() on the selected drive. -/
def diskimageAccess (writeflag : Bool) (offset : Nat) (buf : List Byte) : Except WdcExit (Wdc × List Byte) :=
  match d.images (d.regs.drive + d.baseDrive) with
  | none => .ok (d, buf)
  | some disk => do
    let (disk, buf) ← disk.access writeflag offset buf
    .ok ({ d with images := Function.update d.images (d.regs.drive + d.baseDrive) (some disk) }, buf)

def offset : Int :=
  let cyl := d.regs.cylHi.toNat * 256 + d.regs.cylLo.toNat
  512 * ((d.regs.sector.toNat : Int) - 1 + d.regs.head * d.sectorsPerTrack d.regs.drive +
    d.heads d.regs.drive * d.sectorsPerTrack d.regs.drive * cyl)

/-- One chunk of wdc__read(). `mem` is what the buffer on the stack holds. -/
def readChunk (mem : Nat → Byte) (offset toRead : Nat) : Except WdcExit Wdc :=
  if d.inbuf.head + 512 * toRead ≤ wdcInbufSize then do
    let (d, buf) ← d.diskimageAccess false offset
      ((List.range (512 * toRead)).map fun i => d.inbuf.slots (d.inbuf.head + i))
    let head := d.inbuf.head + 512 * toRead
    .ok { d with inbuf := { d.inbuf with
      slots := Queue.fill d.inbuf.slots d.inbuf.head buf
      head := if head = wdcInbufSize then 0 else head } }
  else do
    let (d, buf) ← d.diskimageAccess false offset ((List.range (512 * toRead)).map mem)
    .ok (buf.foldl addtoinbuf d)

/-- The loop of wdc__read() over `count` sectors. -/
def readLoop (mem : Nat → Byte) : Nat → Wdc → Nat → Nat → Except WdcExit Wdc
  | 0, d, _, _ => .ok d
  | fuel + 1, d, offset, count =>
    if count = 0 then .ok d
    else do
      let toRead := if maxSectorsPerChunk < count then maxSectorsPerChunk else count
      let d ← d.readChunk mem offset toRead
      readLoop mem fuel d (offset + 512 * toRead) (count - toRead)

def read (mem : Nat → Byte) : Except WdcExit Wdc :=
  if d.offset < 0 then .error .negativeOffset
  else do
    let d ← readLoop mem d.regs.count d d.offset.toNat d.regs.count
    .ok { d with intAssert := true }

def write (cmd : WdcCommand) : Except WdcExit Wdc :=
  if d.offset < 0 then .error .negativeOffset
  else .ok { d with writeInProgress := some cmd, writeCount := d.regs.count, writeOffset := d.offset.toNat }

def command (cmd : WdcCommand) (mem : Nat → Byte) : Except WdcExit Wdc :=
  let d := { d with error := 0x00#8 }
  if (d.images (d.regs.drive + d.baseDrive)).isNone then
    .ok { d with error := d.error ||| wdceAbrt, intAssert := true }
  else
    match cmd with
    | .read | .readMulti => d.read mem
    | .write | .writeMulti => d.write cmd

/-! ## The data register -/

/-- `odata` of a read of the data register. -/
def dataOdata (big : Bool) (len : Nat) : BitVec 64 × Wdc :=
  let (odata, d) := d.getInbuf
  if big then
    let (odata, d) := if 2 ≤ len then
        let (c, d) := d.getInbuf
        ((odata <<< 8) + c, d)
      else (odata, d)
    if len = 4 then
      let (c, d) := d.getInbuf
      let (c', d) := d.getInbuf
      ((((odata <<< 8) + c) <<< 8) + c', d)
    else (odata, d)
  else
    let (odata, d) := if 2 ≤ len then
        let (c, d) := d.getInbuf
        (odata + (c <<< 8), d)
      else (odata, d)
    if len = 4 then
      let (c, d) := d.getInbuf
      let (c', d) := d.getInbuf
      (odata + (c <<< 16) + (c' <<< 24), d)
    else (odata, d)

def dataRead (big : Bool) (len : Nat) : Wdc × List Byte :=
  let (odata, d) := d.dataOdata big len
  let intAssert := if d.inbuf.tail ≠ d.inbuf.head ∧ ((d.inbuf.tail : Int) - d.inbuf.head) % 512 = 0 then true
    else d.intAssert
  ({ d with intAssert := intAssert }, memoryWritemax64 big len odata)

/-- The bytes of a write to the data register, in the order in which they go into the ring. -/
def dataBytes (big : Bool) (len : Nat) (idata : BitVec 64) : Option (List Byte) :=
  match len with
  | 4 =>
    let l := [(idata &&& 0xff#64).setWidth 8, ((idata >>> 8) &&& 0xff#64).setWidth 8,
      ((idata >>> 16) &&& 0xff#64).setWidth 8, ((idata >>> 24) &&& 0xff#64).setWidth 8]
    some (if big then l.reverse else l)
  | 2 =>
    let l := [(idata &&& 0xff#64).setWidth 8, ((idata >>> 8) &&& 0xff#64).setWidth 8]
    some (if big then l.reverse else l)
  | 1 => some [idata.setWidth 8]
  | _ => none

def writeUnit : Nat := if d.writeInProgress = some .writeMulti then d.writeCount else 1

/-- The bytes that are written: the ring's own memory, or a copy when they go around its end. -/
def takeUnit (count : Nat) : List Byte × Wdc :=
  if d.inbuf.tail + 512 * count ≤ wdcInbufSize then
    (d.inbuf.block (512 * count),
      { d with inbuf := { d.inbuf with tail := (d.inbuf.tail + 512 * count) % wdcInbufSize } })
  else
    (List.range (512 * count)).foldl (fun (buf, d) _ =>
      let (c, d) := d.getInbuf
      (buf ++ [c.setWidth 8], d)) ([], d)

def writeSectors : Except WdcExit Wdc := do
  let count := d.writeUnit
  let start := d.inbuf.tail
  let inPlace := decide (d.inbuf.tail + 512 * count ≤ wdcInbufSize)
  let (b, d) := d.takeUnit count
  let (d, b) ← d.diskimageAccess true d.writeOffset b
  let slots := if inPlace then Queue.fill d.inbuf.slots start b else d.inbuf.slots
  let writeCount := d.writeCount - count
  .ok { d with
    inbuf := { d.inbuf with slots := slots }
    writeCount := writeCount
    writeOffset := d.writeOffset + 512 * count
    intAssert := true
    writeInProgress := if writeCount = 0 then none else d.writeInProgress }

def dataWrite (big : Bool) (data : List Byte) : Except WdcExit Wdc :=
  match dataBytes big data.length (memoryReadmax64 big data) with
  | none => .error .writeLen
  | some l =>
    let d := l.foldl addtoinbuf d
    if d.writeInProgress = some .writeMulti ∧ d.inbufLen % (512 * d.writeCount) = 0 ∨
        d.writeInProgress = some .write ∧ d.inbufLen % 512 = 0 then d.writeSectors
    else .ok d

end Wdc

end Gxemul.Disk

/- What the functions of the IDE controller do with the ring and the images.

   The ring is a queue of bytes. A read of the data register takes bytes off it in
   the order in which they are there, whatever the width and the byte order, READ
   puts the sectors behind what it has, and a write to the drive takes its sectors
   off it. Each function has one lemma, which says what it does to the queue and
   leaves the rest of the device as it is. -/
namespace Gxemul.Disk

open Lib

/-! ## Disk images with a base offset -/

namespace IdeDisk
variable {d : IdeDisk} {offset n : Nat} {buf : List Byte}

def content (d : IdeDisk) (pos : Nat) : Byte :=
  if pos < d.overrideBaseOffset then 0x00#8 else d.image.content (pos - d.overrideBaseOffset)

/-- `len` bytes of the drive. -/
def range (d : IdeDisk) (offset len : Nat) : List Byte := (List.range len).map fun i => d.content (offset + i)

@[simp] theorem length_range : (d.range offset n).length = n := by
  simp [range]

theorem range_append (m : Nat) : d.range offset n ++ d.range (offset + n) m = d.range offset (n + m) := by
  simp only [range, List.range_add, List.map_append, List.map_map, List.append_cancel_left_eq]
  exact List.map_congr_left fun i _ => by rw [Function.comp_apply, Nat.add_assoc]

/-- The ranges of `n` sectors that a read returns as they are. -/
def Plain (d : IdeDisk) (offset n : Nat) : Prop :=
  if offset < d.overrideBaseOffset then ∀ i < 512 * n, d.content (offset + i) = 0x00#8
  else d.image.Plain (offset - d.overrideBaseOffset) n

def Storable (d : IdeDisk) (offset : Nat) : Prop :=
  d.overrideBaseOffset ≤ offset ∧ d.image.Storable (offset - d.overrideBaseOffset)

theorem access_read (hplain : d.Plain offset n) (hlen : buf.length = 512 * n) :
    d.access false offset buf = .ok (d, d.range offset (512 * n)) := by
  unfold Plain at hplain
  unfold access
  split at hplain
  · rename_i hbefore
    rw [if_pos hbefore, hlen]
    refine congrArg (fun out => Except.ok (d, out)) (List.eq_replicate_iff.mpr ⟨by simp, fun b hb => ?_⟩).symm
    obtain ⟨i, hi, rfl⟩ := List.mem_map.mp hb
    exact hplain i (List.mem_range.mp hi)
  · rename_i hbehind
    rw [if_neg hbehind, Diskimage.internalAccess_readRange hplain hlen]
    refine congrArg (fun out => Except.ok (d, out)) (List.map_congr_left fun i _ => ?_)
    have hpos : offset + i - d.overrideBaseOffset = offset - d.overrideBaseOffset + i := by omega
    rw [content, if_neg (by omega), hpos]

theorem access_write (hstorable : d.Storable offset) (hlen : 512 ∣ buf.length) :
    ∃ d', d.access true offset buf = .ok (d', buf) ∧ ∀ pos, d'.content pos =
      if offset ≤ pos ∧ pos < offset + buf.length then buf.getD (pos - offset) 0#8 else d.content pos := by
  obtain ⟨hle, hstorable⟩ := hstorable
  obtain ⟨image, haccess, -, hcontent⟩ := Diskimage.internalAccess_write hstorable hlen
  refine ⟨{ d with image := image }, ?_, fun pos => ?_⟩
  · rw [access, if_neg (by omega), haccess]
  · rw [content, content]
    dsimp only
    rw [hcontent]
    by_cases hbefore : pos < d.overrideBaseOffset
    · rw [if_pos hbefore, if_pos hbefore, if_neg (by omega)]
    · have hpos : pos - d.overrideBaseOffset - (offset - d.overrideBaseOffset) = pos - offset := by omega
      rw [if_neg hbefore, if_neg hbefore, hpos]
      refine if_congr ?_ rfl rfl
      omega

end IdeDisk

/-! ## The ring -/

namespace Wdc
variable {d : Wdc} {q : Queue Byte} {l rest data : List Byte} {c : Byte}

def withInbuf (d : Wdc) (q : Queue Byte) : Wdc := { d with inbuf := q }

@[simp] theorem withInbuf_inbuf : (d.withInbuf q).inbuf = q := rfl
@[simp] theorem withInbuf_withInbuf (q' : Queue Byte) : (d.withInbuf q).withInbuf q' = d.withInbuf q' := rfl
theorem addtoinbuf_eq (h : d.inbuf.Holds wdcInbufSize l) (hroom : l.length + 1 < wdcInbufSize) :
    d.addtoinbuf c = d.withInbuf (d.inbuf.push wdcInbufSize c) := by
  have hpush := h.push (a := c) hroom
  have hhead : (d.inbuf.head + 1) % wdcInbufSize = Lib.slot wdcInbufSize d.inbuf.head 1 :=
    slot_eq_mod h.head_lt (by decide)
  have hne : (d.inbuf.push wdcInbufSize c).head ≠ (d.inbuf.push wdcInbufSize c).tail := by
    rw [Ne, hpush.nil_iff]
    simp
  unfold addtoinbuf
  rw [hhead]
  exact congrArg (fun w => { d with inbuf := d.inbuf.push wdcInbufSize c, warnings := w }) (if_neg hne)

theorem foldl_addtoinbuf : ∀ {data l : List Byte} {d : Wdc}, d.inbuf.Holds wdcInbufSize l →
    l.length + data.length < wdcInbufSize →
    ∃ q, data.foldl addtoinbuf d = d.withInbuf q ∧ q.Holds wdcInbufSize (l ++ data)
  | [], l, d, h, _ => ⟨d.inbuf, rfl, by rwa [List.append_nil]⟩
  | c :: data, l, d, h, hroom => by
    rw [List.length_cons] at hroom
    have hpush := h.push (a := c) (by omega)
    obtain ⟨q, hq, hholds⟩ := @foldl_addtoinbuf data _ (d.withInbuf (d.inbuf.push wdcInbufSize c)) hpush
      (by rw [List.length_append, List.length_singleton]; omega)
    refine ⟨q, ?_, by simpa using hholds⟩
    rw [List.foldl_cons, addtoinbuf_eq h (by omega), hq, withInbuf_withInbuf]

theorem getInbuf_eq (h : q.Holds wdcInbufSize (c :: l)) :
    (d.withInbuf q).getInbuf = (c.setWidth 64, d.withInbuf (q.pop wdcInbufSize)) := by
  have hne : q.head ≠ q.tail := by
    rw [Ne, h.nil_iff]
    simp
  have htail : (q.tail + 1) % wdcInbufSize = Lib.slot wdcInbufSize q.tail 1 :=
    slot_eq_mod h.tail_lt (by decide)
  rw [getInbuf, withInbuf_inbuf, if_neg hne, htail, h.pop.1]
  rfl

theorem inbufLen_eq (h : d.inbuf.Holds wdcInbufSize l) : d.inbufLen = l.length := by
  rw [h.length_eq, inbufLen]
  split <;> split <;> first | rfl | omega

theorem takeUnit_eq {count : Nat} (h : d.inbuf.Holds wdcInbufSize l) (hcount : 512 * count ≤ l.length) :
    ∃ q, d.takeUnit count = (l.take (512 * count), d.withInbuf q) ∧
      q.Holds wdcInbufSize (l.drop (512 * count)) ∧
      (d.inbuf.tail + 512 * count ≤ wdcInbufSize →
        Queue.fill q.slots d.inbuf.tail (l.take (512 * count)) = q.slots) := by
  unfold takeUnit
  split
  · rename_i hend
    have hblock := h.block hcount hend
    refine ⟨d.inbuf.skip wdcInbufSize (512 * count), ?_, h.skip hcount, fun _ => ?_⟩
    · rw [hblock, slot_eq_mod h.tail_lt (by omega)]
      rfl
    · rw [← hblock]
      exact Queue.fill_block _
  · rename_i hend
    have hloop : ∀ n, n ≤ l.length → ∃ q, (List.range n).foldl (fun (bd : List Byte × Wdc) _ =>
        (bd.1 ++ [bd.2.getInbuf.1.setWidth 8], bd.2.getInbuf.2)) ([], d) = (l.take n, d.withInbuf q) ∧
        q.Holds wdcInbufSize (l.drop n) := by
      intro n
      induction n with
      | zero => exact fun _ => ⟨d.inbuf, rfl, by simpa using h⟩
      | succ n ih =>
        intro hn
        obtain ⟨q, hq, hholds⟩ := ih (by omega)
        rw [List.drop_eq_getElem_cons (by omega)] at hholds
        have hget := getInbuf_eq (d := d) hholds
        refine ⟨q.pop wdcInbufSize, ?_, hholds.pop.2⟩
        rw [List.range_succ, List.foldl_append, hq, List.foldl_cons, List.foldl_nil]
        rw [hget, List.take_succ_eq_append_getElem (by omega)]
        simp
    obtain ⟨q, hq, hholds⟩ := hloop (512 * count) hcount
    exact ⟨q, hq, hholds, fun h => absurd h hend⟩

/-! ## The data register -/

def DataLen (len : Nat) : Prop := len = 1 ∨ len = 2 ∨ len = 4

instance (len : Nat) : Decidable (DataLen len) := inferInstanceAs (Decidable (_ ∨ _))

theorem toNat_shiftLeft_byte (c : Byte) (k : Nat) : (c.setWidth 64 <<< k).toNat = c.toNat * 2 ^ k % 2 ^ 64 := by
  have hc : c.toNat % 2 ^ 64 = c.toNat := Nat.mod_eq_of_lt (by omega)
  rw [BitVec.toNat_shiftLeft, BitVec.toNat_setWidth, Nat.shiftLeft_eq, hc]

theorem dataOdata_eq (big : Bool) (h : d.inbuf.Holds wdcInbufSize (l ++ rest)) (hlen : DataLen l.length) :
    ∃ odata q, d.dataOdata big l.length = (odata, d.withInbuf q) ∧ odata.toNat = Lib.value big l ∧
      q.Holds wdcInbufSize rest := by
  unfold dataOdata
  obtain h1 | h2 | h4 := hlen
  · obtain ⟨c0, rfl⟩ := List.length_eq_one_iff.mp h1
    have hget : d.getInbuf = (c0.setWidth 64, d.withInbuf (d.inbuf.pop wdcInbufSize)) := getInbuf_eq (d := d) h
    refine ⟨c0.setWidth 64, d.inbuf.pop wdcInbufSize, ?_, ?_, h.pop.2⟩
    · cases big <;> simp [hget]
    · rw [BitVec.toNat_setWidth]
      cases big <;> simp [Lib.value, Lib.leValue] <;> omega
  · obtain ⟨c0, c1, rfl⟩ := List.length_eq_two.mp h2
    have hget : d.getInbuf = (c0.setWidth 64, d.withInbuf (d.inbuf.pop wdcInbufSize)) := getInbuf_eq (d := d) h
    have hget1 := getInbuf_eq (d := d) h.pop.2
    refine ⟨if big then c0.setWidth 64 <<< 8 + c1.setWidth 64 else c0.setWidth 64 + c1.setWidth 64 <<< 8, _, ?_, ?_,
      h.pop.2.pop.2⟩
    · cases big <;> simp [hget, hget1]
    · cases big with
      | false =>
        rw [if_neg (by decide), BitVec.toNat_add, toNat_shiftLeft_byte, BitVec.toNat_setWidth]
        simp [Lib.value, Lib.leValue]
        omega
      | true =>
        rw [if_pos rfl, BitVec.toNat_add, toNat_shiftLeft_byte, BitVec.toNat_setWidth]
        simp [Lib.value, Lib.leValue]
        omega
  · obtain ⟨c0, l3, rfl⟩ : ∃ c0 l3, l = c0 :: l3 := List.exists_cons_of_length_eq_add_one h4
    obtain ⟨c1, c2, c3, rfl⟩ := List.length_eq_three.mp (Nat.succ.inj h4)
    have hget : d.getInbuf = (c0.setWidth 64, d.withInbuf (d.inbuf.pop wdcInbufSize)) := getInbuf_eq (d := d) h
    have hget1 := getInbuf_eq (d := d) h.pop.2
    have hget2 := getInbuf_eq (d := d) h.pop.2.pop.2
    have hget3 := getInbuf_eq (d := d) h.pop.2.pop.2.pop.2
    refine ⟨if big then
        (((c0.setWidth 64 <<< 8 + c1.setWidth 64) <<< 8) + c2.setWidth 64) <<< 8 + c3.setWidth 64
      else c0.setWidth 64 + c1.setWidth 64 <<< 8 + c2.setWidth 64 <<< 16 + c3.setWidth 64 <<< 24, _, ?_, ?_,
      h.pop.2.pop.2.pop.2.pop.2⟩
    · cases big <;> simp [hget, hget1, hget2, hget3]
    · cases big with
      | false =>
        simp [Lib.value, Lib.leValue]
        omega
      | true =>
        simp [Lib.value, Lib.leValue]
        omega

theorem dataRead_eq (big : Bool) (h : d.inbuf.Holds wdcInbufSize (l ++ rest)) (hlen : DataLen l.length) :
    ∃ q i, d.dataRead big l.length = ({ d.withInbuf q with intAssert := i }, l) ∧ q.Holds wdcInbufSize rest := by
  obtain ⟨odata, q, hodata, hvalue, hholds⟩ := dataOdata_eq big h hlen
  have hbytes : memoryWritemax64 big l.length odata = l := by
    rw [memoryWritemax64_eq, hvalue, bytes_value]
  rw [dataRead, hodata]
  exact ⟨q, _, Prod.ext rfl hbytes, hholds⟩

theorem dataBytes_eq (big : Bool) (hlen : DataLen data.length) :
    dataBytes big data.length (memoryReadmax64 big data) = some data := by
  have hlt := value_lt big data
  have hwrite : memoryWritemax64 big data.length (memoryReadmax64 big data) = data := by
    have hmod : Lib.value big data % 2 ^ 64 = Lib.value big data := by
      refine Nat.mod_eq_of_lt (Nat.lt_of_lt_of_le hlt ?_)
      obtain h | h | h := hlen <;> rw [h] <;> decide
    rw [memoryWritemax64_eq, memoryReadmax64_eq, BitVec.toNat_ofNat, hmod, bytes_value]
  have hshift : ∀ (x : BitVec 64) (i j : Nat), x >>> i >>> j = x >>> (i + j) := fun x i j =>
    (BitVec.shiftRight_add x i j).symm
  have hlow : ∀ x : BitVec 64, (x &&& 255#64).setWidth 8 = x.setWidth 8 := by
    intro x
    have hmask : x.toNat &&& 255 = x.toNat % 2 ^ 8 := Nat.and_two_pow_sub_one_eq_mod x.toNat 8
    apply BitVec.eq_of_toNat_eq
    rw [BitVec.toNat_setWidth, BitVec.toNat_setWidth, BitVec.toNat_and]
    show (x.toNat &&& 255) % 2 ^ 8 = x.toNat % 2 ^ 8
    omega
  conv_rhs => rw [← hwrite]
  generalize memoryReadmax64 big data = idata
  obtain h | h | h := hlen <;>
    (rw [h]; cases big <;> simp only [dataBytes, memoryWritemax64, writemaxLoop, hshift, hlow] <;> rfl)

/-! ## READ -/

def selected (d : Wdc) : Option IdeDisk := d.images (d.regs.drive + d.baseDrive)

theorem diskimageAccess_read {disk : IdeDisk} {offset n : Nat} {buf : List Byte} (himage : d.selected = some disk)
    (hplain : disk.Plain offset n) (hlen : buf.length = 512 * n) :
    d.diskimageAccess false offset buf = .ok (d, disk.range offset (512 * n)) := by
  rw [selected] at himage
  have hsame : Function.update d.images (d.regs.drive + d.baseDrive) (some disk) = d.images := by
    rw [← himage, Function.update_eq_self]
  rw [diskimageAccess, himage]
  dsimp only
  rw [IdeDisk.access_read hplain hlen]
  show Except.ok ({ d with images := Function.update d.images _ (some disk) }, _) = _
  rw [hsame]

theorem readChunk_eq {disk : IdeDisk} {mem : Nat → Byte} {offset n : Nat} (h : d.inbuf.Holds wdcInbufSize l)
    (himage : d.selected = some disk) (hplain : disk.Plain offset n) (hroom : l.length + 512 * n < wdcInbufSize) :
    ∃ q, d.readChunk mem offset n = .ok (d.withInbuf q) ∧
      q.Holds wdcInbufSize (l ++ disk.range offset (512 * n)) := by
  unfold readChunk
  split
  · rename_i hend
    have hpush := @Queue.Holds.pushBlock _ _ _ _ (disk.range offset (512 * n)) h (by simpa using hroom) (by simpa using hend)
    refine ⟨_, ?_, hpush⟩
    rw [diskimageAccess_read himage hplain (by simp)]
    refine congrArg Except.ok (congrArg d.withInbuf ?_)
    have hhead : (if d.inbuf.head + 512 * n = wdcInbufSize then 0 else d.inbuf.head + 512 * n) =
        Lib.slot wdcInbufSize d.inbuf.head (512 * n) := by
      unfold Lib.slot
      split <;> split <;> omega
    rw [Queue.pushBlock, IdeDisk.length_range, ← hhead]
  · rw [diskimageAccess_read himage hplain (by simp)]
    obtain ⟨q, hq, hholds⟩ := @foldl_addtoinbuf (disk.range offset (512 * n)) l d h (by simpa using hroom)
    exact ⟨q, congrArg Except.ok hq, hholds⟩

/-- The chunks that `count` sectors are read in. -/
def ChunksPlain (disk : IdeDisk) (offset count : Nat) : Prop :=
  ∀ k, 64 * k < count → disk.Plain (offset + 512 * (64 * k)) (min 64 (count - 64 * k))

theorem readLoop_eq {disk : IdeDisk} {mem : Nat → Byte} : ∀ {fuel : Nat} {d : Wdc} {l : List Byte} {offset count : Nat},
    d.inbuf.Holds wdcInbufSize l → d.selected = some disk → ChunksPlain disk offset count → count ≤ fuel →
    l.length + 512 * count < wdcInbufSize →
    ∃ q, readLoop mem fuel d offset count = .ok (d.withInbuf q) ∧
      q.Holds wdcInbufSize (l ++ disk.range offset (512 * count))
  | 0, d, l, offset, count, h, _, _, hfuel, _ => by
    have hzero : count = 0 := by omega
    subst hzero
    exact ⟨d.inbuf, rfl, by simpa [IdeDisk.range] using h⟩
  | fuel + 1, d, l, offset, count, h, himage, hplain, hfuel, hroom => by
    unfold readLoop
    by_cases hzero : count = 0
    · subst hzero
      exact ⟨d.inbuf, rfl, by simpa [IdeDisk.range] using h⟩
    · have hmin : (if maxSectorsPerChunk < count then maxSectorsPerChunk else count) = min 64 count := by
        unfold maxSectorsPerChunk
        split <;> omega
      have hfirst : disk.Plain offset (min 64 count) := hplain 0 (by omega)
      obtain ⟨q, hchunk, hholds⟩ := @readChunk_eq d l disk mem offset (min 64 count) h himage hfirst (by omega)
      have hrest : ChunksPlain disk (offset + 512 * min 64 count) (count - min 64 count) := by
        intro k hk
        have hlarge : min 64 count = 64 := by omega
        have hnext := hplain (k + 1) (by omega)
        have hpos : offset + 512 * (64 * (k + 1)) = offset + 512 * 64 + 512 * (64 * k) := by omega
        have hcount : count - 64 * (k + 1) = count - 64 - 64 * k := by omega
        rw [hpos, hcount] at hnext
        rw [hlarge]
        exact hnext
      obtain ⟨q', hloop, hholds'⟩ := @readLoop_eq disk mem fuel (d.withInbuf q) _ _ _ hholds himage hrest
        (by omega) (by rw [List.length_append, IdeDisk.length_range]; omega)
      refine ⟨q', ?_, ?_⟩
      · rw [if_neg hzero, hmin]
        dsimp only
        rw [hchunk]
        exact hloop
      · have hsum : 512 * min 64 count + 512 * (count - min 64 count) = 512 * count := by omega
        rwa [List.append_assoc, IdeDisk.range_append, hsum] at hholds'

/-! ## WRITE -/

theorem writeSectors_eq {disk : IdeDisk} (h : d.inbuf.Holds wdcInbufSize l) (himage : d.selected = some disk)
    (hstorable : disk.Storable d.writeOffset) (hcount : 512 * d.writeUnit ≤ l.length) :
    ∃ q disk', d.writeSectors = .ok { d.withInbuf q with
        images := Function.update d.images (d.regs.drive + d.baseDrive) (some disk')
        writeCount := d.writeCount - d.writeUnit
        writeOffset := d.writeOffset + 512 * d.writeUnit
        intAssert := true
        writeInProgress := if d.writeCount - d.writeUnit = 0 then none else d.writeInProgress } ∧
      q.Holds wdcInbufSize (l.drop (512 * d.writeUnit)) ∧ ∀ pos, disk'.content pos =
        if d.writeOffset ≤ pos ∧ pos < d.writeOffset + 512 * d.writeUnit then
          (l.take (512 * d.writeUnit)).getD (pos - d.writeOffset) 0#8
        else disk.content pos := by
  obtain ⟨q, htake, hholds, hfill⟩ := takeUnit_eq h hcount
  have hlen : (l.take (512 * d.writeUnit)).length = 512 * d.writeUnit := by
    rw [List.length_take]
    omega
  obtain ⟨disk', haccess, hcontent⟩ := IdeDisk.access_write hstorable (by rw [hlen]; exact Nat.dvd_mul_right ..)
  rw [hlen] at hcontent
  refine ⟨q, disk', ?_, hholds, hcontent⟩
  rw [selected] at himage
  have hdrive : (d.withInbuf q).diskimageAccess true d.writeOffset (l.take (512 * d.writeUnit)) =
      .ok ({ d.withInbuf q with images := Function.update d.images (d.regs.drive + d.baseDrive) (some disk') },
        l.take (512 * d.writeUnit)) := by
    have hselected : (d.withInbuf q).images ((d.withInbuf q).regs.drive + (d.withInbuf q).baseDrive) = some disk := himage
    rw [diskimageAccess, hselected]
    dsimp only
    rw [haccess]
    rfl
  have hslots : (if decide (d.inbuf.tail + 512 * d.writeUnit ≤ wdcInbufSize) = true then
      Queue.fill q.slots d.inbuf.tail (l.take (512 * d.writeUnit)) else q.slots) = q.slots := by
    split
    · rename_i hend
      exact hfill (of_decide_eq_true hend)
    · rfl
  unfold writeSectors
  dsimp only
  rw [htake]
  rw [show (d.withInbuf q).writeOffset = d.writeOffset from rfl, hdrive]
  exact congrArg (fun slots => Except.ok { d.withInbuf q with
    inbuf := { q with slots := slots }
    images := Function.update d.images (d.regs.drive + d.baseDrive) (some disk')
    writeCount := d.writeCount - d.writeUnit
    writeOffset := d.writeOffset + 512 * d.writeUnit
    intAssert := true
    writeInProgress := if d.writeCount - d.writeUnit = 0 then none else d.writeInProgress }) hslots

end Wdc

end Gxemul.Disk
