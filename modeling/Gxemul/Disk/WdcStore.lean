import Gxemul.Disk.Wdc

/- The IDE controller as a block store.

   `Ide` says what a guest that keeps to the protocol should see: a READ has the
   sectors to be read, WRITE stores each sector when the guest has supplied it,
   WRITEMULTI all of them together, and a new command leaves nothing of an
   unfinished write. `ide_store` is the simulation, with the ring holding the bytes
   that are to be read, or that have been supplied. The code leaves `Ide` at a
   command that finds bytes of an unfinished write in the ring, at a data write
   that goes across the end of a sector, and where the disk image itself cannot be
   read or written. -/
namespace Gxemul.Disk

open Lib

/-- What a guest does with the registers. A READ finds `mem` on the stack. -/
inductive WdcOp where
  | reg (r : WdReg) (idata : Byte)
  | status
  | command (cmd : WdcCommand) (mem : Nat → Byte)
  | dataRead (len : Nat)
  | dataWrite (data : List Byte)

/-! ## The code -/

structure WdcRun where
  dev : Wdc
  out : List Byte := []

def WdcRun.step (big : Bool) (s : WdcRun) : WdcOp → Except WdcExit WdcRun
  | .reg r idata => .ok { s with dev := { s.dev with regs := s.dev.regs.set r idata } }
  | .status => .ok { s with dev := { s.dev with intAssert := false } }
  | .command cmd mem => do .ok { s with dev := ← s.dev.command cmd mem }
  | .dataRead len => .ok ⟨(s.dev.dataRead big len).1, (s.dev.dataRead big len).2⟩
  | .dataWrite data => do .ok { s with dev := ← s.dev.dataWrite big data }

/-! ## The store -/

structure Drives where
  present : Nat → Bool
  heads : Nat → Nat
  sectorsPerTrack : Nat → Nat
  content : Nat → Nat → Byte

structure IdeWrite where
  multi : Bool
  drive : Nat
  offset : Nat
  /-- The sectors that have not been stored. -/
  remaining : Nat
  supplied : List Byte

def IdeWrite.unit (w : IdeWrite) : Nat := if w.multi then w.remaining else 1

structure Ide where
  regs : TaskFile := {}
  /-- What has been written to each drive. -/
  writes : Nat → List (Nat × List Byte) := fun _ => []
  /-- What a READ has for the guest. -/
  unread : List Byte := []
  write : Option IdeWrite := none
  out : List Byte := []

inductive IdeMisuse where
  | dataNotRead
  | noSuchSector
  | noData
  | noWrite

namespace Ide
variable (dr : Drives) (t : Ide)

def content (drive pos : Nat) : Byte := (Diskimage.lastWritten (t.writes drive) pos).getD (dr.content drive pos)

/-- The position of the sector in the registers: its cylinder, its track of the cylinder and its place on the track. -/
def position : Nat :=
  let cyl := t.regs.cylHi.toNat * 256 + t.regs.cylLo.toNat
  512 * ((cyl * dr.heads t.regs.drive + t.regs.head) * dr.sectorsPerTrack t.regs.drive + (t.regs.sector.toNat - 1))

/-- A command has the drive to itself: nothing of an unfinished write is left. -/
def command (cmd : WdcCommand) : Ide :=
  if dr.present t.regs.drive = false then { t with write := none }
  else
    match cmd with
    | .read | .readMulti =>
      { t with
        write := none
        unread := (List.range (512 * t.regs.count)).map fun i => t.content dr t.regs.drive (t.position dr + i) }
    | .write => { t with write := some ⟨false, t.regs.drive, t.position dr, t.regs.count, []⟩ }
    | .writeMulti => { t with write := some ⟨true, t.regs.drive, t.position dr, t.regs.count, []⟩ }

def supply (w : IdeWrite) (data : List Byte) : Ide :=
  let supplied := w.supplied ++ data
  if supplied.length < 512 * w.unit then { t with write := some { w with supplied := supplied } }
  else
    { t with
      writes := Function.update t.writes w.drive (t.writes w.drive ++ [(w.offset, supplied.take (512 * w.unit))])
      write := if w.remaining - w.unit = 0 then none else
        some { w with
          offset := w.offset + 512 * w.unit
          remaining := w.remaining - w.unit
          supplied := supplied.drop (512 * w.unit) } }

def step : WdcOp → Except IdeMisuse Ide
  | .reg r idata => .ok { t with regs := t.regs.set r idata }
  | .status => .ok t
  | .command cmd _ =>
    if t.unread ≠ [] then .error .dataNotRead
    else if t.regs.sector = 0x00#8 then .error .noSuchSector
    else .ok (t.command dr cmd)
  | .dataRead len =>
    if ¬ Wdc.DataLen len ∨ t.unread.length < len then .error .noData
    else .ok { t with out := t.unread.take len, unread := t.unread.drop len }
  | .dataWrite data =>
    match t.write with
    | none => .error .noWrite
    | some w =>
      if ¬ Wdc.DataLen data.length ∨ t.regs.drive ≠ w.drive ∨ 512 * w.remaining < w.supplied.length + data.length then
        .error .noWrite
      else .ok (t.supply w data)

def supplied : List Byte :=
  match t.write with
  | some w => w.supplied
  | none => []

end Ide

/-! ## The simulation -/

namespace Wdc
variable (d : Wdc)

def content (drive pos : Nat) : Byte :=
  match d.images (drive + d.baseDrive) with
  | some disk => disk.content pos
  | none => 0x00#8

def drives : Drives where
  present drive := (d.images (drive + d.baseDrive)).isSome
  heads := d.heads
  sectorsPerTrack := d.sectorsPerTrack
  content := d.content

/-- The steps at which the controller is a block store: a command that finds the ring empty, a READ of plain chunks, and
a data write that does not go across the end of a sector and that finds a drive that can be written to, if the sectors
are complete with it. -/
def Good : WdcOp → Prop
  | .command cmd _ => d.inbuf.head = d.inbuf.tail ∧ (cmd = .read ∨ cmd = .readMulti →
    ∀ disk, d.selected = some disk → ChunksPlain disk d.offset.toNat d.regs.count)
  | .dataWrite data => d.inbufLen + data.length ≤ 512 * d.writeUnit ∧ (d.inbufLen + data.length = 512 * d.writeUnit →
    ∀ disk, d.selected = some disk → disk.Storable d.writeOffset)
  | _ => True

end Wdc

/-- The guest sees what it should: its registers, the bytes of the drives, what it has read, and a ring that has exactly
what is to be read or has been supplied. -/
structure WdcRun.Serves (dr : Drives) (s : WdcRun) (t : Ide) : Prop where
  regs : s.dev.regs = t.regs
  bytes : ∀ drive pos, s.dev.content drive pos = t.content dr drive pos
  out : s.out = t.out
  ring : s.dev.inbuf.Holds wdcInbufSize (t.unread ++ t.supplied)
  empty : t.unread = [] → t.write = none → s.dev.inbuf.head = s.dev.inbuf.tail
  warnings : s.dev.warnings = 0

/-- The write of the store is the one that the device has in progress. -/
structure Wdc.Writing (d : Wdc) (w : IdeWrite) : Prop where
  cmd : d.writeInProgress = some (if w.multi then .writeMulti else .write)
  count : d.writeCount = w.remaining
  offset : d.writeOffset = w.offset
  pos : 0 < w.remaining
  le : w.remaining ≤ 256
  short : w.supplied.length < 512 * w.unit

def Wdc.clearError (d : Wdc) : Wdc := { d with error := 0x00#8 }

theorem Wdc.command_read {d : Wdc} {cmd : WdcCommand} {mem : Nat → Byte} (hcmd : cmd = .read ∨ cmd = .readMulti)
    (hsome : (d.images (d.regs.drive + d.baseDrive)).isNone = false) : d.command cmd mem = d.clearError.read mem := by
  have hpresent : ¬ (d.images (d.regs.drive + d.baseDrive)).isNone = true := by
    rw [hsome]
    decide
  obtain rfl | rfl := hcmd
  · exact if_neg hpresent
  · exact if_neg hpresent

theorem Wdc.command_write {d : Wdc} {cmd : WdcCommand} {mem : Nat → Byte} (hcmd : cmd = .write ∨ cmd = .writeMulti)
    (hsome : (d.images (d.regs.drive + d.baseDrive)).isNone = false) : d.command cmd mem = d.clearError.write cmd := by
  have hpresent : ¬ (d.images (d.regs.drive + d.baseDrive)).isNone = true := by
    rw [hsome]
    decide
  obtain rfl | rfl := hcmd
  · exact if_neg hpresent
  · exact if_neg hpresent

/-- The session serves the store, and an unfinished write of the store is in progress. -/
structure WdcRun.Inv (dr : Drives) (s : WdcRun) (t : Ide) : Prop extends s.Serves dr t where
  drives : dr.present = s.dev.drives.present ∧ dr.heads = s.dev.heads ∧ dr.sectorsPerTrack = s.dev.sectorsPerTrack
  writing : ∀ w, t.write = some w → s.dev.Writing w ∧ dr.present w.drive = true ∧ t.unread = []
  unread : t.unread.length ≤ 512 * 256

namespace WdcRun
variable {big : Bool} {dr : Drives} {s : WdcRun} {t t' : Ide}

theorem count_le (r : TaskFile) : 0 < r.count ∧ r.count ≤ 256 := by
  unfold TaskFile.count
  split
  · rename_i hne
    have hpos : r.seccnt.toNat ≠ 0 := fun h => hne (BitVec.eq_of_toNat_eq h)
    omega
  · omega

theorem offset_eq (hinv : s.Inv dr t) (hsector : t.regs.sector ≠ 0x00#8) : s.dev.offset = (t.position dr : Int) := by
  obtain ⟨-, hheads, hspt⟩ := hinv.drives
  have hpos : 1 ≤ t.regs.sector.toNat := by
    have hne : t.regs.sector.toNat ≠ 0 := fun h => hsector (BitVec.eq_of_toNat_eq h)
    omega
  rw [Wdc.offset, Ide.position, hinv.regs, hheads, hspt]
  push_cast [hpos]
  ring

theorem selected_eq (hinv : s.Inv dr t) :
    (∃ disk, s.dev.selected = some disk ∧ ∀ pos, disk.content pos = t.content dr t.regs.drive pos) ∨
      s.dev.selected = none := by
  cases hsel : s.dev.selected with
  | none => exact .inr rfl
  | some disk =>
    refine .inl ⟨disk, rfl, fun pos => ?_⟩
    rw [← hinv.bytes, Wdc.content]
    rw [Wdc.selected, hinv.regs] at hsel
    rw [hsel]

theorem present_eq (hinv : s.Inv dr t) : dr.present t.regs.drive = s.dev.selected.isSome := by
  rw [hinv.drives.1, Wdc.selected, hinv.regs]
  rfl

theorem read_eq {disk : IdeDisk} {mem : Nat → Byte} (hinv : s.Inv dr t) (hring : s.dev.inbuf.Holds wdcInbufSize [])
    (hsel : s.dev.selected = some disk) (hsector : t.regs.sector ≠ 0x00#8)
    (hplain : Wdc.ChunksPlain disk s.dev.offset.toNat s.dev.regs.count) :
    ∃ q, s.dev.clearError.read mem =
        .ok { s.dev.clearError.withInbuf q with intAssert := true } ∧
      q.Holds wdcInbufSize (disk.range (t.position dr) (512 * t.regs.count)) := by
  have hoffset := offset_eq hinv hsector
  have hcount := count_le t.regs
  have hsize : wdcInbufSize = 262656 := rfl
  rw [hoffset, hinv.regs, Int.toNat_natCast] at hplain
  obtain ⟨q, hloop, hholds⟩ := @Wdc.readLoop_eq disk mem t.regs.count s.dev.clearError _ _ _ hring hsel hplain (Nat.le_refl _) (by rw [List.length_nil, hsize]; omega)
  refine ⟨q, ?_, hholds⟩
  have hoffset' : s.dev.clearError.offset = (t.position dr : Int) := hoffset
  rw [Wdc.read, hoffset', if_neg (by omega), Int.toNat_natCast]
  show (Wdc.readLoop mem s.dev.regs.count _ _ s.dev.regs.count >>= _) = _
  rw [hinv.regs, hloop]
  rfl

theorem inv_command {cmd : WdcCommand} {mem : Nat → Byte} (hinv : s.Inv dr t) (hgood : s.dev.Good (.command cmd mem))
    (hstep : t.step dr (.command cmd mem) = .ok t') :
    ∃ s', s.step big (.command cmd mem) = .ok s' ∧ s'.Inv dr t' := by
  obtain ⟨hempty, hplain⟩ := hgood
  rw [Ide.step] at hstep
  split at hstep
  · cases hstep
  · rename_i hread
    split at hstep
    · cases hstep
    · rename_i hsector
      cases hstep
      have hunread : t.unread = [] := not_not.mp hread
      have hnil := hinv.ring.nil_iff.mp hempty
      have hring : s.dev.inbuf.Holds wdcInbufSize [] := hnil ▸ hinv.ring
      have hoffset := offset_eq hinv hsector
      have hpresent := present_eq hinv
      have hcount := count_le t.regs
      obtain ⟨disk, hsel, hcontent⟩ | hsel := selected_eq hinv
      · rw [hsel, Option.isSome_some] at hpresent
        have hsome : (s.dev.images (s.dev.regs.drive + s.dev.baseDrive)).isNone = false := by
          rw [Wdc.selected] at hsel
          rw [hsel]
          rfl
        have hwrite : ∀ multi : Bool, ∃ d, s.dev.clearError.write
            (if multi then .writeMulti else .write) = .ok d ∧ WdcRun.Inv dr { s with dev := d }
              { t with write := some ⟨multi, t.regs.drive, t.position dr, t.regs.count, []⟩ } := by
          intro multi
          have hoffset' : s.dev.clearError.offset = (t.position dr : Int) := hoffset
          rw [Wdc.write, hoffset', if_neg (by omega), Int.toNat_natCast]
          refine ⟨_, rfl, ⟨hinv.regs, hinv.bytes, hinv.out, ?_, (fun _ h => by cases h), hinv.warnings⟩, hinv.drives,
            fun w hw => ?_, hinv.unread⟩
          · rw [hunread]
            exact hring
          · cases hw
            refine ⟨⟨rfl, congrArg TaskFile.count hinv.regs, rfl, hcount.1, hcount.2, ?_⟩, hpresent, hunread⟩
            cases multi with
            | false => exact (by decide : 0 < 512 * 1)
            | true => exact Nat.mul_pos (by decide) hcount.1
        have hread : cmd = .read ∨ cmd = .readMulti → ∃ d, s.dev.clearError.read mem = .ok d ∧
            WdcRun.Inv dr { s with dev := d } { t with
              write := none
              unread := (List.range (512 * t.regs.count)).map fun i =>
                t.content dr t.regs.drive (t.position dr + i) } := by
          intro hcmd
          obtain ⟨q, hok, hholds⟩ := @read_eq dr s t disk mem hinv hring hsel hsector (hplain hcmd disk hsel)
          have hrange : disk.range (t.position dr) (512 * t.regs.count) = (List.range (512 * t.regs.count)).map fun i =>
              t.content dr t.regs.drive (t.position dr + i) := List.map_congr_left fun i _ => hcontent _
          rw [hrange] at hholds
          refine ⟨_, hok, ⟨hinv.regs, hinv.bytes, hinv.out, ?_, fun hu _ => ?_, hinv.warnings⟩, hinv.drives,
            (fun w hw => by cases hw), ?_⟩
          · rw [Ide.supplied, List.append_nil]
            exact hholds
          · exact hholds.nil_iff.mpr hu
          · simp only [List.length_map, List.length_range]
            omega
        unfold Ide.command
        rw [hpresent, if_neg (by decide), step]
        cases cmd with
        | read =>
          obtain ⟨d, hd, hinv'⟩ := hread (.inl rfl)
          exact ⟨{ s with dev := d }, by rw [Wdc.command_read (.inl rfl) hsome, hd]; rfl, hinv'⟩
        | readMulti =>
          obtain ⟨d, hd, hinv'⟩ := hread (.inr rfl)
          exact ⟨{ s with dev := d }, by rw [Wdc.command_read (.inr rfl) hsome, hd]; rfl, hinv'⟩
        | write =>
          obtain ⟨d, hd, hinv'⟩ := hwrite false
          rw [if_neg (by decide)] at hd
          exact ⟨{ s with dev := d }, by rw [Wdc.command_write (.inl rfl) hsome, hd]; rfl, hinv'⟩
        | writeMulti =>
          obtain ⟨d, hd, hinv'⟩ := hwrite true
          rw [if_pos rfl] at hd
          exact ⟨{ s with dev := d }, by rw [Wdc.command_write (.inr rfl) hsome, hd]; rfl, hinv'⟩
      · -- There is no such drive.
        rw [hsel, Option.isSome_none] at hpresent
        have hnone : (s.dev.images (s.dev.regs.drive + s.dev.baseDrive)).isNone = true := by
          rw [Wdc.selected] at hsel
          rw [hsel]
          rfl
        have hcommand : s.dev.command cmd mem =
            .ok { s.dev.clearError with error := 0x00#8 ||| wdceAbrt, intAssert := true } := by
          show (if (s.dev.images (s.dev.regs.drive + s.dev.baseDrive)).isNone = true then _ else _) = _
          rw [hnone]
          rfl
        rw [step, hcommand]
        unfold Ide.command
        rw [hpresent, if_pos rfl]
        refine ⟨_, rfl, ⟨hinv.regs, hinv.bytes, hinv.out, ?_, fun _ _ => hempty, hinv.warnings⟩, hinv.drives,
          (fun w hw => by cases hw), hinv.unread⟩
        rw [hunread]
        exact hring

theorem supplied_eq {w : IdeWrite} (hw : t.write = some w) : t.supplied = w.supplied := by
  rw [Ide.supplied, hw]

theorem inv_dataRead {len : Nat} (hinv : s.Inv dr t) (hstep : t.step dr (.dataRead len) = .ok t') :
    ∃ s', s.step big (.dataRead len) = .ok s' ∧ s'.Inv dr t' := by
  rw [Ide.step] at hstep
  split at hstep
  · cases hstep
  · rename_i hlegal
    cases hstep
    obtain ⟨hlen, hle⟩ := not_or.mp hlegal
    have hwidth : Wdc.DataLen len := not_not.mp hlen
    have htake : (t.unread.take len).length = len := by
      rw [List.length_take]
      omega
    have hring := hinv.ring
    rw [← List.take_append_drop len t.unread, List.append_assoc] at hring
    obtain ⟨q, i, hread, hholds⟩ := Wdc.dataRead_eq big hring (by rwa [htake])
    rw [htake] at hread
    refine ⟨⟨{ s.dev.withInbuf q with intAssert := i }, t.unread.take len⟩, by rw [step, hread],
      ⟨hinv.regs, hinv.bytes, rfl, hholds, fun hu hw => ?_, hinv.warnings⟩, hinv.drives, fun w hw => ?_, ?_⟩
    · have hu' : t.unread.drop len = [] := hu
      have hw' : t.write = none := hw
      rw [hu', Ide.supplied, hw'] at hholds
      exact hholds.nil_iff.mpr rfl
    · -- There is nothing to read while a write waits for data.
      obtain ⟨-, -, hnil⟩ := hinv.writing w hw
      rw [hnil] at hle
      obtain h | h | h := hwidth <;> rw [h] at hle <;> exact absurd (by decide) hle
    · have hunread := hinv.unread
      rw [List.length_drop]
      omega

theorem writes_iff {d : Wdc} {w : IdeWrite} {l : List Byte} (hw : d.Writing w) (h : d.inbuf.Holds wdcInbufSize l)
    (hpos : 0 < l.length) (hle : l.length ≤ 512 * w.unit) :
    (d.writeInProgress = some .writeMulti ∧ d.inbufLen % (512 * d.writeCount) = 0 ∨
      d.writeInProgress = some .write ∧ d.inbufLen % 512 = 0) ↔ l.length = 512 * w.unit := by
  have hmod : ∀ n, l.length ≤ n → (l.length % n = 0 ↔ l.length = n) := by
    intro n hn
    obtain heq | hlt := Nat.eq_or_lt_of_le hn
    · simp [heq]
    · rw [Nat.mod_eq_of_lt hlt]
      omega
  rw [hw.cmd, hw.count, Wdc.inbufLen_eq h]
  cases hm : w.multi with
  | false =>
    have hunit : w.unit = 1 := by rw [IdeWrite.unit, hm]; rfl
    rw [hunit, Nat.mul_one] at hle ⊢
    rw [← hmod 512 hle]
    simp
  | true =>
    have hunit : w.unit = w.remaining := by rw [IdeWrite.unit, hm]; rfl
    rw [hunit] at hle ⊢
    rw [← hmod _ hle]
    simp

theorem inv_dataWrite {data : List Byte} (hinv : s.Inv dr t) (hgood : s.dev.Good (.dataWrite data))
    (hstep : t.step dr (.dataWrite data) = .ok t') :
    ∃ s', s.step big (.dataWrite data) = .ok s' ∧ s'.Inv dr t' := by
  rw [Ide.step] at hstep
  split at hstep
  · cases hstep
  · rename_i w hw
    split at hstep
    · cases hstep
    · rename_i hlegal
      cases hstep
      obtain ⟨hlen, hlegal⟩ := not_or.mp hlegal
      obtain ⟨hdrive, hroom⟩ := not_or.mp hlegal
      have hwidth : Wdc.DataLen data.length := not_not.mp hlen
      have hdrive : t.regs.drive = w.drive := not_not.mp hdrive
      have hpos : 0 < data.length := by
        obtain h | h | h := hwidth <;> omega
      obtain ⟨hwriting, hpresent, hunread⟩ := hinv.writing w hw
      have hsize : wdcInbufSize = 262656 := rfl
      have hle := hwriting.le
      have hring : s.dev.inbuf.Holds wdcInbufSize w.supplied := by
        have h := hinv.ring
        rwa [hunread, supplied_eq hw] at h
      have hunit : s.dev.writeUnit = w.unit := by
        rw [Wdc.writeUnit, hwriting.cmd, hwriting.count, IdeWrite.unit]
        cases w.multi <;> rfl
      obtain ⟨hcross, hstorable⟩ := hgood
      rw [Wdc.inbufLen_eq hring, hunit] at hcross hstorable
      obtain ⟨q, hadd, hholds⟩ := @Wdc.foldl_addtoinbuf data _ _ hring (by rw [hsize]; omega)
      have hall : (w.supplied ++ data).length = w.supplied.length + data.length := List.length_append
      have hwriting' : (s.dev.withInbuf q).Writing w := { hwriting with }
      have hwhen := writes_iff hwriting' (l := w.supplied ++ data) hholds (by omega) (by omega)
      have hdata : s.dev.dataWrite big data = if w.supplied.length + data.length = 512 * w.unit then
          (s.dev.withInbuf q).writeSectors else .ok (s.dev.withInbuf q) := by
        rw [Wdc.dataWrite, Wdc.dataBytes_eq big hwidth]
        dsimp only
        rw [hadd]
        exact if_congr (hwhen.trans (by rw [hall])) rfl rfl
      rw [step, hdata, Ide.supply, hall]
      by_cases hcomplete : w.supplied.length + data.length = 512 * w.unit
      · -- The sectors are complete.
        rw [if_pos hcomplete, if_neg (by omega)]
        obtain ⟨disk, hsel, hcontent⟩ | hsel := selected_eq hinv
        · obtain ⟨q', disk', hwrite, hholds', hcontent'⟩ := @Wdc.writeSectors_eq (s.dev.withInbuf q) _ disk
            hholds hsel (hstorable hcomplete disk hsel) (by
              show 512 * s.dev.writeUnit ≤ _
              rw [hunit]
              omega)
          have hunit' : (s.dev.withInbuf q).writeUnit = w.unit := hunit
          rw [hunit'] at hwrite hholds' hcontent'
          have hcount : (s.dev.withInbuf q).writeCount = w.remaining := hwriting.count
          have hoffset : (s.dev.withInbuf q).writeOffset = w.offset := hwriting.offset
          have hdrop : (w.supplied ++ data).drop (512 * w.unit) = [] := List.drop_eq_nil_of_le (by omega)
          have htake : (w.supplied ++ data).take (512 * w.unit) = w.supplied ++ data := List.take_of_length_le (by omega)
          rw [hdrop] at hholds' ⊢
          rw [htake] at hcontent' ⊢
          rw [hoffset] at hcontent'
          rw [hwrite, hcount, hoffset]
          have hregs : s.dev.regs.drive = w.drive := by rw [hinv.regs, hdrive]
          have himage : s.dev.images (w.drive + s.dev.baseDrive) = some disk := by
            rw [← hregs]
            exact hsel
          refine ⟨_, rfl, ⟨hinv.regs, fun drive pos => ?_, hinv.out, ?_, fun _ _ => hholds'.nil_iff.mpr rfl,
            hinv.warnings⟩, ⟨?_, hinv.drives.2⟩, fun w' hw' => ?_, hinv.unread⟩
          · show _ = (Diskimage.lastWritten (Function.update t.writes w.drive
              (t.writes w.drive ++ [(w.offset, w.supplied ++ data)]) drive) pos).getD (dr.content drive pos)
            simp only [Wdc.content, Wdc.withInbuf]
            have hbefore := hinv.bytes drive pos
            rw [Wdc.content] at hbefore
            rw [hregs]
            by_cases hsame : drive = w.drive
            · subst hsame
              rw [himage] at hbefore
              rw [Function.update_self, Function.update_self, Diskimage.lastWritten_concat]
              dsimp only at hbefore ⊢
              rw [hcontent', hall, hcomplete, hbefore, Ide.content]
              split <;> rfl
            · rw [Function.update_of_ne (by omega), Function.update_of_ne hsame]
              exact hbefore
          · rw [hunread, Ide.supplied]
            dsimp only
            split
            · rename_i w' hw'
              split at hw'
              · cases hw'
              · cases hw'
                exact hholds'
            · exact hholds'
          · rw [hinv.drives.1]
            funext drive
            show _ = (Function.update s.dev.images (s.dev.regs.drive + s.dev.baseDrive) (some disk')
              (drive + s.dev.baseDrive)).isSome
            rw [hregs]
            by_cases hsame : drive = w.drive
            · subst hsame
              rw [Function.update_self]
              show (s.dev.images (w.drive + s.dev.baseDrive)).isSome = true
              rw [himage]
              rfl
            · rw [Function.update_of_ne (by omega)]
              rfl
          · split at hw'
            · cases hw'
            · rename_i hmore
              cases hw'
              have hmulti : w.multi = false := by
                rw [Bool.eq_false_iff]
                intro hm
                rw [IdeWrite.unit, hm] at hmore
                exact hmore (Nat.sub_self _)
              refine ⟨⟨?_, rfl, rfl, Nat.pos_of_ne_zero hmore, by dsimp only; omega, ?_⟩, hpresent, hunread⟩
              · show (if w.remaining - w.unit = 0 then none else s.dev.writeInProgress) = _
                rw [if_neg hmore, hwriting.cmd]
              · rw [IdeWrite.unit, hmulti]
                exact (by decide : 0 < 512 * 1)
        · have hp := present_eq hinv
          rw [hsel, hdrive, hpresent] at hp
          cases hp
      · rw [if_neg hcomplete, if_pos (by omega)]
        refine ⟨_, rfl, ⟨hinv.regs, hinv.bytes, hinv.out, ?_, (fun _ h => by cases h), hinv.warnings⟩, hinv.drives,
          fun w' hw' => ?_, hinv.unread⟩
        · rw [hunread]
          exact hholds
        · cases hw'
          refine ⟨{ hwriting' with short := ?_ }, hpresent, hunread⟩
          show (w.supplied ++ data).length < 512 * w.unit
          omega

def Idle (d : Wdc) : Prop :=
  d.inbuf.tail < wdcInbufSize ∧ d.inbuf.head = d.inbuf.tail ∧ d.warnings = 0

def IdeStore (big : Bool) (d : Wdc) (ops : List WdcOp) : Prop :=
  ∀ t, runOps (Ide.step d.drives) ops { regs := d.regs } = .ok t →
    ∃ s, runOps (step big) ops ⟨d, []⟩ = .ok s ∧ s.Serves d.drives t

/-- The controller is a block store in the runs whose steps are all good. -/
theorem ide_store {d : Wdc} {ops : List WdcOp} (hidle : Idle d)
    (hgood : Along (step big) (fun s o => s.dev.Good o) ops ⟨d, []⟩) : IdeStore big d ops := by
  intro t hlegal
  have hstart : WdcRun.Inv d.drives ⟨d, []⟩ { regs := d.regs } := by
    obtain ⟨htail, hempty, hwarnings⟩ := hidle
    exact ⟨⟨rfl, fun _ _ => rfl, rfl, Queue.Holds.empty htail hempty, fun _ _ => hempty, hwarnings⟩, ⟨rfl, rfl, rfl⟩,
      (fun w hw => by cases hw), Nat.zero_le _⟩
  have hstep : ∀ s u o u', WdcRun.Inv d.drives s u → s.dev.Good o → Ide.step d.drives u o = .ok u' →
      ∃ s', step big s o = .ok s' ∧ WdcRun.Inv d.drives s' u' := by
    intro s u o u' hinv ho hu
    cases o with
    | reg r idata =>
      cases hu
      exact ⟨_, rfl, ⟨congrArg (fun r' => r'.set r idata) hinv.regs, hinv.bytes, hinv.out, hinv.ring, hinv.empty,
        hinv.warnings⟩, hinv.drives, (fun w hw => ⟨{ (hinv.writing w hw).1 with }, (hinv.writing w hw).2⟩), hinv.unread⟩
    | status =>
      cases hu
      exact ⟨_, rfl, ⟨hinv.regs, hinv.bytes, hinv.out, hinv.ring, hinv.empty, hinv.warnings⟩, hinv.drives,
        (fun w hw => ⟨{ (hinv.writing w hw).1 with }, (hinv.writing w hw).2⟩), hinv.unread⟩
    | command cmd mem => exact inv_command hinv ho hu
    | dataRead len => exact inv_dataRead hinv hu
    | dataWrite data => exact inv_dataWrite hinv ho hu
  obtain ⟨s, hrun, hinv⟩ := runOps_sim_along hstep hstart hgood hlegal
  exact ⟨s, hrun, hinv.toServes⟩

def oneSector : Wdc where
  baseDrive := 0
  heads := fun _ => 1
  sectorsPerTrack := fun _ => 1
  images := fun id => if id = 0 then some ⟨⟨some (List.replicate 512 0x42#8), [], true, false⟩, 0⟩ else none

def readSector : List WdcOp :=
  [.reg .seccnt 1#8, .reg .sector 1#8, .command .read fun _ => 0x00#8, .dataRead 4]

theorem ide_store_readSector : IdeStore true oneSector readSector ∧
    ∃ t, runOps (Ide.step oneSector.drives) readSector { regs := oneSector.regs } = .ok t ∧
      t.out = [0x42#8, 0x42#8, 0x42#8, 0x42#8] := by
  refine ⟨ide_store ⟨by decide, rfl, rfl⟩ ⟨trivial, fun s1 h1 => ⟨trivial, fun s2 h2 => ⟨?_, fun s3 _ =>
    ⟨trivial, fun _ _ => trivial⟩⟩⟩⟩, runOps_eval _ _ _ Ide.out _ (by decide +kernel)⟩
  cases h1
  cases h2
  refine ⟨rfl, fun _ disk hsel k hk => ?_⟩
  cases hsel
  have hcount : 64 * k < 1 := hk
  have hzero : k = 0 := by omega
  subst hzero
  exact ⟨_, rfl, .inl ⟨by decide, rfl⟩⟩

/-- A WRITE gets one byte of data, and then the sector is read: the guest gets its byte and not the first one of the
sector. -/
def readAfterByte : List WdcOp :=
  [.reg .seccnt 1#8, .reg .sector 1#8, .command .write fun _ => 0x00#8, .dataWrite [0x55#8],
    .command .read fun _ => 0x00#8, .dataRead 1]

theorem not_ide_store : ¬ IdeStore true oneSector readAfterByte := by
  intro h
  obtain ⟨t, ht, hexpected⟩ := runOps_eval (Ide.step oneSector.drives) readAfterByte { regs := oneSector.regs }
    Ide.out [0x42#8] (by decide +kernel)
  obtain ⟨s, hs, hgot⟩ := runOps_eval (step true) readAfterByte ⟨oneSector, []⟩ WdcRun.out [0x55#8]
    (by decide +kernel)
  obtain ⟨s', hs', hserves⟩ := h t ht
  rw [hs] at hs'
  cases hs'
  have hsame := hserves.out
  rw [hgot, hexpected] at hsame
  exact absurd hsame (by decide)

end WdcRun

end Gxemul.Disk
