import Gxemul.Disk.Content
import Gxemul.Disk.ScsiCommand

/- A SCSI disk as a block store.

   `Session` is a controller's use of the disk: it starts commands, passes on data
   for a WRITE that wants it, and calls the disk again. `Store` says what this
   should do: it remembers the completed writes, and a READ returns what was
   written last. `block_store` is the simulation. The code leaves the store at a
   WRITE of no blocks, which has no data to write and exits, at a WRITE to an
   image that cannot be written to, and at a READ that is not plain. -/
namespace Gxemul.Disk

open Lib (Byte runOps Along)

inductive ScsiOp where
  /-- Start a command. A READ finds `mem` in its buffer. -/
  | command (r : Request) (mem : Nat → Byte)
  /-- Pass on data. -/
  | dataOut (bytes : List Byte)
  /-- Call the disk again. -/
  | again

/-! ## The code -/

structure Session where
  disk : ScsiDisk
  xfer : ScsiTransfer
  /-- The last call returned that it wants data. -/
  wantsDataOut : Bool

namespace Session

/-- Call diskimage_scsicommand(). -/
def call (d : ScsiDisk) (mem : Nat → Byte) (xfer : ScsiTransfer) : Except ScsiExit Session := do
  let (disk, xfer, res) ← d.scsicommand mem xfer
  .ok ⟨disk, xfer, res = .wantsDataOut⟩

/-- The controller adds data behind what the transfer has already, up to the length that the disk wants. -/
def addDataOut (xfer : ScsiTransfer) (bytes : List Byte) : ScsiTransfer :=
  let added := bytes.take (xfer.dataOutLen - xfer.dataOutOffset)
  { xfer with
    dataOut := some (xfer.dataOut.getD [] ++ added)
    dataOutOffset := xfer.dataOutOffset + added.length }

def step (s : Session) : ScsiOp → Except ScsiExit Session
  | .command r mem => call s.disk mem { cmd := r.cmd }
  | .dataOut bytes => .ok (if s.wantsDataOut then { s with xfer := addDataOut s.xfer bytes } else s)
  | .again => if s.wantsDataOut then call s.disk (fun _ => 0x00#8) s.xfer else .ok s

end Session

/-! ## The store -/

/-- The completed writes, and the command that is not complete or was completed last. -/
structure Store where
  writes : List (Nat × List Byte) := []
  request : Option Request := none
  data : List Byte := []
  completed : Bool := false

namespace Store
variable (bs : Nat)

/-- A command, for blocks of `bs` bytes. -/
def step (t : Store) : ScsiOp → Store
  | .command r _ =>
    { t with request := some r, data := [], completed := !r.isWrite || r.blocks == 0 }
  | .dataOut bytes =>
    match t.request, t.completed with
    | some r, false => { t with data := (t.data ++ bytes).take (r.blocks * bs) }
    | _, _ => t
  | .again =>
    match t.request, t.completed with
    | some r, false =>
      if t.data.length = r.blocks * bs then
        { t with writes := t.writes ++ [(r.address * bs, t.data)], completed := true }
      else t
    | _, _ => t

/-- The byte at a position: of the last completed write that covers it, or of the image at first. -/
def content (t : Store) (image : Diskimage) (pos : Nat) : Byte :=
  (Diskimage.lastWritten t.writes pos).getD (image.content pos)

end Store

/-- A session and the store, for the image as it was at first. A READ has its data, a WRITE that is not complete has no
status, and the disk has the bytes of the store. -/
structure Session.Serves (image : Diskimage) (s : Session) (t : Store) : Prop where
  bytes : ∀ pos, s.disk.image.content pos = t.content image pos
  status : ∀ r, t.request = some r → s.xfer.status = if t.completed then some [0x00#8] else none
  wants : s.wantsDataOut = (t.request.isSome && !t.completed)
  data : ∀ r, t.request = some r → r.isWrite = false → s.xfer.dataIn =
    some ((List.range (r.blocks * s.disk.logicalBlockSize)).map fun i =>
      t.content image (r.address * s.disk.logicalBlockSize + i))

/-! ## What the calls do -/

namespace ScsiDisk
variable {d : ScsiDisk} {r : Request} {mem : Nat → Byte} {x : ScsiTransfer}

theorem scsicommand_isRead (hx : x.cmd = r.cmd) (hread : r.isWrite = false) :
    d.scsicommand mem x = d.read mem x ∧
      (if x.cmd.head? = some scsicmdRead then blocks6 x.cmd else blocks10 x.cmd) = (r.address, r.blocks) := by
  have hdecoded := r.decoded_eq
  rw [Request.decoded, hread] at hdecoded
  rw [hx]
  refine ⟨?_, hdecoded⟩
  rw [scsicommand, hx]
  refine if_pos ?_
  cases r with
  | six w => cases hread; exact .inl rfl
  | ten w => cases hread; exact .inr rfl

theorem scsicommand_isWrite (hx : x.cmd = r.cmd) (hwrite : r.isWrite = true) :
    d.scsicommand mem x = d.write x ∧
      (if x.cmd.head? = some scsicmdWrite then blocks6 x.cmd else blocks10 x.cmd) = (r.address, r.blocks) := by
  have hdecoded := r.decoded_eq
  rw [Request.decoded, hwrite] at hdecoded
  rw [hx]
  refine ⟨?_, hdecoded⟩
  rw [scsicommand, hx]
  cases r with
  | six w =>
    cases hwrite
    rw [if_neg (by simp [Request.cmd, scsicmdRead, scsicmdRead10, scsicmdWrite]), if_pos (.inl rfl)]
  | ten w =>
    cases hwrite
    rw [if_neg (by simp [Request.cmd, scsicmdRead, scsicmdRead10, scsicmdWrite10]), if_pos (.inr rfl)]

theorem dvd_extent (d : ScsiDisk) (n : Nat) : 512 ∣ n * d.logicalBlockSize := by
  obtain h | h := d.size_ok
  · exact ⟨n, by rw [h, Nat.mul_comm]⟩
  · exact ⟨4 * n, by rw [h]; omega⟩

theorem scsicommand_read (hx : x.cmd = r.cmd) (hread : r.isWrite = false)
    (hplain : d.image.Plain (r.address * d.logicalBlockSize) (r.blocks * d.logicalBlockSize / 512)) :
    d.scsicommand mem x = .ok (d, returnDefaultStatusAndMessage { x with
      dataIn := some (d.image.range (r.address * d.logicalBlockSize) (r.blocks * d.logicalBlockSize)) }, .ok) := by
  obtain ⟨hcommand, hblocks⟩ := @scsicommand_isRead d r mem x hx hread
  have hsize : 512 * (r.blocks * d.logicalBlockSize / 512) = r.blocks * d.logicalBlockSize :=
    Nat.mul_div_cancel' (d.dvd_extent r.blocks)
  have haccess := @Diskimage.internalAccess_readRange d.image _ _
    ((List.range (r.blocks * d.logicalBlockSize)).map mem) hplain (by simp [hsize])
  rw [hsize] at haccess
  rw [hcommand, read, hblocks, extent]
  simp only [access, haccess]
  rfl

theorem scsicommand_write_wants (hx : x.cmd = r.cmd) (hwrite : r.isWrite = true)
    (hlen : x.dataOutOffset ≠ r.blocks * d.logicalBlockSize) :
    d.scsicommand mem x = .ok (d, { x with dataOutLen := r.blocks * d.logicalBlockSize }, .wantsDataOut) := by
  obtain ⟨hcommand, hblocks⟩ := @scsicommand_isWrite d r mem x hx hwrite
  rw [hcommand, write, hblocks, extent]
  exact if_pos hlen

theorem scsicommand_write {data : List Byte} (hx : x.cmd = r.cmd) (hwrite : r.isWrite = true)
    (hdata : x.dataOut = some data) (hlen : data.length = r.blocks * d.logicalBlockSize)
    (hofs : x.dataOutOffset = data.length) (hf : d.image.f.isSome) (hw : d.image.writable = true) :
    ∃ d', d.scsicommand mem x = .ok (d', returnDefaultStatusAndMessage x, .ok) ∧
      d'.logicalBlockSize = d.logicalBlockSize ∧ d'.image.f.isSome ∧ ∀ pos, d'.image.content pos =
        if r.address * d.logicalBlockSize ≤ pos ∧ pos < r.address * d.logicalBlockSize + data.length then
          data.getD (pos - r.address * d.logicalBlockSize) 0#8
        else d.image.content pos := by
  obtain ⟨hcommand, hblocks⟩ := @scsicommand_isWrite d r mem x hx hwrite
  obtain ⟨image, haccess, hf', hcontent⟩ := Diskimage.internalAccess_write
    ⟨hf, hw, .inr (d.dvd_extent r.address)⟩ (hlen ▸ d.dvd_extent r.blocks : 512 ∣ data.length)
  refine ⟨{ d with image := image }, ?_, rfl, hf', hcontent⟩
  rw [hcommand, write, hblocks, extent]
  dsimp only
  rw [if_neg (by rw [hofs, hlen]; exact fun h => h rfl), hdata, Option.map_some, ← hlen, List.take_length]
  simp only [access, haccess]
  rfl

end ScsiDisk

/-! ## The simulation -/

namespace Session

/-- The steps at which the disk is a block store: a WRITE of some blocks, a READ of a plain range, and a WRITE that
finds the image writable when it has its data. -/
def Good (s : Session) : ScsiOp → Prop
  | .command r _ =>
    if r.isWrite then r.blocks ≠ 0
    else s.disk.image.Plain (r.address * s.disk.logicalBlockSize) (r.blocks * s.disk.logicalBlockSize / 512)
  | .dataOut _ => True
  | .again => s.wantsDataOut = true → s.xfer.dataOutOffset = s.xfer.dataOutLen → s.disk.image.writable = true

structure Pending (bs : Nat) (x : ScsiTransfer) (t : Store) (r : Request) : Prop where
  cmd : x.cmd = r.cmd
  isWrite : r.isWrite = true
  blocks : r.blocks ≠ 0
  len : x.dataOutLen = r.blocks * bs
  ofs : x.dataOutOffset = t.data.length
  le : t.data.length ≤ r.blocks * bs
  dataOut : t.data ≠ [] → x.dataOut = some t.data
  none : t.data = [] → x.dataOut.getD [] = []
  status : x.status = .none

/-- The session serves the store, and what a WRITE has so far is in the transfer. -/
structure Inv (image : Diskimage) (bs : Nat) (s : Session) (t : Store) : Prop extends s.Serves image t where
  size : s.disk.logicalBlockSize = bs
  file : s.disk.image.f.isSome
  pending : ∀ r, t.request = some r → t.completed = false → Pending bs s.xfer t r

variable {image : Diskimage} {bs : Nat} {s : Session} {t : Store}

theorem inv_command {r : Request} {mem : Nat → Byte} (hinv : s.Inv image bs t) (hgood : s.Good (.command r mem)) :
    ∃ s', s.step (.command r mem) = .ok s' ∧ s'.Inv image bs (t.step bs (.command r mem)) := by
  cases hw : r.isWrite with
  | false =>
    rw [Good, hw, if_neg (by decide)] at hgood
    have hcall := @ScsiDisk.scsicommand_read s.disk r mem { cmd := r.cmd } rfl hw hgood
    refine ⟨⟨s.disk, _, false⟩, by rw [step, call, hcall]; rfl, ?_⟩
    have hcompleted : (t.step bs (.command r mem)).completed = true := by
      show (!r.isWrite || r.blocks == 0) = true
      rw [hw]
      rfl
    refine ⟨⟨hinv.bytes, fun r' _ => ?_, ?_, fun r' hr _ => ?_⟩, hinv.size, hinv.file, fun r' _ h => ?_⟩
    · rw [hcompleted, if_pos rfl]
      rfl
    · rw [hcompleted]
      rfl
    · cases hr
      refine congrArg some (List.map_congr_left fun i _ => ?_)
      exact hinv.bytes _
    · rw [hcompleted] at h
      cases h
  | true =>
    rw [Good, hw, if_pos rfl] at hgood
    have hbs : s.disk.logicalBlockSize ≠ 0 := by
      obtain h | h := s.disk.size_ok <;> omega
    have hsize : 0 ≠ r.blocks * s.disk.logicalBlockSize := (Nat.mul_ne_zero hgood hbs).symm
    have hcall := @ScsiDisk.scsicommand_write_wants s.disk r mem { cmd := r.cmd } rfl hw hsize
    refine ⟨⟨s.disk, _, true⟩, by rw [step, call, hcall]; rfl, ?_⟩
    have hcompleted : (t.step bs (.command r mem)).completed = false := by
      show (!r.isWrite || r.blocks == 0) = false
      rw [hw, beq_eq_false_iff_ne.mpr hgood]
      rfl
    refine ⟨⟨hinv.bytes, fun r' _ => ?_, ?_, fun r' hr hread => ?_⟩, hinv.size, hinv.file, fun r' hr _ => ?_⟩
    · rw [hcompleted]
      rfl
    · rw [hcompleted]
      rfl
    · cases hr
      rw [hw] at hread
      cases hread
    · cases hr
      refine ⟨rfl, hw, hgood, ?_, rfl, Nat.zero_le _, fun h => absurd rfl h, fun _ => rfl, rfl⟩
      rw [← hinv.size]

theorem inv_dataOut {bytes : List Byte} (hinv : s.Inv image bs t) :
    ∃ s', s.step (.dataOut bytes) = .ok s' ∧ s'.Inv image bs (t.step bs (.dataOut bytes)) := by
  refine ⟨_, rfl, ?_⟩
  cases hr : t.request with
  | none =>
    have hwants : s.wantsDataOut = false := by
      rw [hinv.wants, hr]
      rfl
    simpa only [hwants, Bool.false_eq_true, if_false, Store.step, hr] using hinv
  | some r =>
    cases hc : t.completed with
    | true =>
      have hwants : s.wantsDataOut = false := by
        rw [hinv.wants, hr, hc]
        rfl
      simpa only [hwants, Bool.false_eq_true, if_false, Store.step, hr, hc] using hinv
    | false =>
      have hwants : s.wantsDataOut = true := by
        rw [hinv.wants, hr, hc]
        rfl
      obtain ⟨hcmd, hw, hblocks, hlen, hofs, hle, hdata, hnone, hstatus⟩ := hinv.pending r hr hc
      have hbefore : s.xfer.dataOut.getD [] = t.data := by
        by_cases hempty : t.data = []
        · rw [hnone hempty, hempty]
        · rw [hdata hempty]
          rfl
      have hadded : t.data ++ bytes.take (r.blocks * bs - t.data.length) = (t.data ++ bytes).take (r.blocks * bs) := by
        rw [List.take_append, List.take_of_length_le hle]
      rw [if_pos hwants]
      simp only [Store.step, hr, hc]
      refine ⟨⟨hinv.bytes, fun r' h => ?_, ?_, fun r' h hread => ?_⟩, hinv.size, hinv.file, fun r' h _ => ?_⟩
      · exact (hinv.status r hr).trans (by rw [hc])
      · rw [hwants]
        rfl
      · cases h
        exact hinv.data r hr hread
      · cases h
        have htotal : (addDataOut s.xfer bytes).dataOut = some ((t.data ++ bytes).take (r.blocks * bs)) := by
          rw [addDataOut, hlen, hofs, hbefore, hadded]
        refine ⟨hcmd, hw, hblocks, hlen, ?_, ?_, fun _ => htotal, fun h => ?_, hstatus⟩
        · rw [addDataOut, hlen, hofs, ← hadded, List.length_append]
        · rw [List.length_take]
          exact Nat.min_le_left ..
        · rw [htotal]
          exact h

theorem inv_again (hinv : s.Inv image bs t) (hgood : s.Good .again) :
    ∃ s', s.step .again = .ok s' ∧ s'.Inv image bs (t.step bs .again) := by
  cases hr : t.request with
  | none =>
    have hwants : s.wantsDataOut = false := by
      rw [hinv.wants, hr]
      rfl
    exact ⟨s, by rw [step, if_neg (by rw [hwants]; decide)], by simpa only [Store.step, hr] using hinv⟩
  | some r =>
    cases hc : t.completed with
    | true =>
      have hwants : s.wantsDataOut = false := by
        rw [hinv.wants, hr, hc]
        rfl
      exact ⟨s, by rw [step, if_neg (by rw [hwants]; decide)], by simpa only [Store.step, hr, hc] using hinv⟩
    | false =>
      have hwants : s.wantsDataOut = true := by
        rw [hinv.wants, hr, hc]
        rfl
      have hpending := hinv.pending r hr hc
      by_cases hcomplete : t.data.length = r.blocks * bs
      · -- The data is complete: it is written now.
        have hbs : bs ≠ 0 := by
          obtain h | h := s.disk.size_ok <;> rw [hinv.size] at h <;> omega
        have hne : t.data ≠ [] := by
          intro h
          rw [h] at hcomplete
          exact Nat.mul_ne_zero hpending.blocks hbs hcomplete.symm
        have hwritable := hgood hwants (by rw [hpending.ofs, hpending.len, hcomplete])
        obtain ⟨d', hcall, hsize', hf', hcontent⟩ := @ScsiDisk.scsicommand_write s.disk r (fun _ => 0x00#8) s.xfer t.data
          hpending.cmd hpending.isWrite (hpending.dataOut hne) (by rw [hcomplete, hinv.size]) hpending.ofs
          hinv.file hwritable
        refine ⟨⟨d', _, false⟩, by rw [step, if_pos hwants, call, hcall]; rfl, ?_⟩
        simp only [Store.step, hr, hc, if_pos hcomplete]
        refine ⟨⟨fun pos => ?_, fun _ _ => rfl, by rw [Option.isSome_some]; rfl, fun r' h hread => ?_⟩,
          hsize'.trans hinv.size, hf', fun _ _ h => nomatch h⟩
        · rw [hcontent, hinv.size, hinv.bytes, Store.content, Store.content, Diskimage.lastWritten_concat]
          split <;> rfl
        · cases h
          rw [hpending.isWrite] at hread
          cases hread
      · have hofs : s.xfer.dataOutOffset ≠ r.blocks * s.disk.logicalBlockSize := by
          rw [hpending.ofs, hinv.size]
          exact hcomplete
        have hcall := @ScsiDisk.scsicommand_write_wants s.disk r (fun _ => 0x00#8) s.xfer hpending.cmd
          hpending.isWrite hofs
        refine ⟨⟨s.disk, _, true⟩, by rw [step, if_pos hwants, call, hcall]; rfl, ?_⟩
        simp only [Store.step, hr, hc, if_neg hcomplete]
        refine ⟨⟨hinv.bytes, hinv.status, by rw [hr, hc]; rfl, hinv.data⟩, hinv.size, hinv.file, fun r' h _ => ?_⟩
        have hr' : r = r' := Option.some.inj (hr.symm.trans h)
        subst hr'
        exact { hpending with len := by rw [← hinv.size] }

def start (d : ScsiDisk) : Session := ⟨d, { cmd := [] }, false⟩

theorem inv_start {d : ScsiDisk} {f : Lib.File} (hf : d.image.f = some f) :
    (start d).Inv d.image d.logicalBlockSize {} :=
  ⟨⟨fun _ => rfl, (fun _ h => nomatch h), rfl, (fun _ h => nomatch h)⟩, rfl, by rw [start, hf]; rfl, (fun _ h => nomatch h)⟩

/-- The disk is a block store in the runs of a controller: no run exits, and it does what the store does. -/
def BlockStore (d : ScsiDisk) (ops : List ScsiOp) : Prop :=
  ∃ s', runOps step ops (start d) = .ok s' ∧
    s'.Serves d.image (ops.foldl (Store.step d.logicalBlockSize) {})

/-- A run whose steps are all good is a run of the store. -/
theorem block_store {d : ScsiDisk} {f : Lib.File} {ops : List ScsiOp} (hf : d.image.f = some f)
    (hgood : Along step Good ops (start d)) : BlockStore d ops := by
  have hstep : ∀ s t o, s.Inv d.image d.logicalBlockSize t → s.Good o →
      ∃ s', step s o = .ok s' ∧ s'.Inv d.image d.logicalBlockSize (t.step d.logicalBlockSize o) := by
    intro s t o hinv ho
    cases o with
    | command r mem => exact inv_command hinv ho
    | dataOut bytes => exact inv_dataOut hinv
    | again => exact inv_again hinv ho
  obtain ⟨s', hrun, hinv⟩ := Lib.runOps_refines hstep (inv_start hf) hgood
  exact ⟨s', hrun, hinv.toServes⟩

def oneBlockDisk (writable : Bool) : ScsiDisk :=
  ⟨⟨some (List.replicate 512 0x42#8), [], writable, false⟩, 512, .inl rfl⟩

def writeAndRead : List ScsiOp :=
  [.command (.six true 0#3 0#21 1#8 0#8) fun _ => 0x00#8, .dataOut (List.replicate 512 0x41#8), .again,
    .command (.six false 0#3 0#21 1#8 0#8) fun _ => 0xff#8]

theorem block_store_writeAndRead : BlockStore (oneBlockDisk true) writeAndRead := by
  have hblocks : (Request.six true 0#3 0#21 1#8 0#8).blocks ≠ 0 := by decide
  refine block_store rfl ⟨hblocks, fun s1 h1 => ⟨trivial, fun s2 h2 => ⟨fun _ _ => ?_, fun s3 h3 =>
    ⟨?_, fun _ _ => trivial⟩⟩⟩⟩
  · cases h1
    cases h2
    rfl
  · -- What the READ finds after the write.
    obtain ⟨s, hs, himage⟩ := Lib.runOps_eval step (writeAndRead.take 3) (start (oneBlockDisk true))
      (fun s => (s.disk.image.f.isSome, s.disk.image.isACdrom, s.disk.image.overlays)) (true, false, [])
      (by decide +kernel)
    have hs3 : runOps step (writeAndRead.take 3) (start (oneBlockDisk true)) = .ok s3 := by
      simp only [writeAndRead, List.take, runOps, h1, h2, h3]
    rw [hs3] at hs
    cases hs
    obtain ⟨hf, hcdrom, hov⟩ : s3.disk.image.f.isSome = true ∧ s3.disk.image.isACdrom = false ∧
        s3.disk.image.overlays = [] := by
      simpa only [Prod.mk.injEq] using himage
    obtain ⟨f, hf⟩ := Option.isSome_iff_exists.mp hf
    exact ⟨f, hf, .inl ⟨by rw [hcdrom]; decide, hov⟩⟩

/-- A WRITE of no blocks gets no data, and its NULL pointer terminates the emulator. A WRITE to an image that cannot be
written to completes like one that has written its data. -/
theorem not_block_store :
    runOps step [.command (.ten true 0#8 0#32 0#8 0#16 0#8) fun _ => 0x00#8] (start (oneBlockDisk true)) =
      .error .bufNull ∧
    ¬ BlockStore (oneBlockDisk true) [.command (.ten true 0#8 0#32 0#8 0#16 0#8) fun _ => 0x00#8] ∧
    ¬ BlockStore (oneBlockDisk false) writeAndRead := by
  refine ⟨rfl, ?_, ?_⟩
  · rintro ⟨s', hrun, -⟩
    cases hrun
  · rintro ⟨s', hrun, hserves⟩
    obtain ⟨s'', hrun', hbyte⟩ := Lib.runOps_eval step writeAndRead (start (oneBlockDisk false))
      (fun s => s.disk.image.content 0) 0x42#8 (by decide +kernel)
    rw [hrun'] at hrun
    cases hrun
    have hstore : (writeAndRead.foldl (Store.step 512) {}).content (oneBlockDisk false).image 0 = 0x41#8 := by
      decide +kernel
    have hsame := hserves.bytes 0
    rw [hbyte] at hsame
    exact absurd (hsame.trans hstore) (by decide)

end Session

end Gxemul.Disk
