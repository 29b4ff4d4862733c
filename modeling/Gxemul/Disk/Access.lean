import Gxemul.Disk.SplitReads

/- Reads of CD-ROM images and of images with a base offset (diskimage_access() in
   `src/disk/diskimage.c`).

   A CD-ROM is read by sectors of 2048 bytes, and one sector that is not complete clears
   all of the buffer: it reads as a disk where all sectors of the range are complete, or
   where there are only zeros (`cdromReads_iff`). An access that begins before the base
   offset clears the buffer, and says that it has been successful, whatever comes after
   the base offset and also when it writes (`baseOffset_iff`). -/
namespace Gxemul.Disk

open Lib (Byte File)

namespace Diskimage

variable {d : Diskimage} {f : File} {ofs len : Nat}

/-! ## CD-ROM images -/

theorem right_iff_cdrom (hf : d.f = some f) (hcdrom : d.isACdrom = true) : d.Right ofs len ↔
    ∀ i < len, d.byteAt f (ofs + i) = if SectorsComplete f ofs len then f.byteAt (ofs + i) else 0#8 := by
  obtain ⟨out, hout⟩ : ∃ out, out = if len = 0 ∨ SectorsComplete f ofs len then f.read ofs len
    else List.replicate len 0#8 := ⟨_, rfl⟩
  have hright : d.Right ofs len ↔ out = d.range ofs len := by
    constructor
    · intro h
      have hread := h (List.replicate len 0#8) List.length_replicate
      rw [internalAccess_cdrom hf hcdrom, List.length_replicate, ← hout] at hread
      exact (Prod.mk.inj (Prod.mk.inj (Except.ok.inj hread)).2).1
    · intro h buf hlen
      rw [internalAccess_cdrom hf hcdrom, hlen, ← hout, h]
  have hlength : out.length = len := by
    rw [hout]
    split
    · rw [File.length_read]
      rename_i hc
      unfold SectorsComplete at hc
      omega
    · exact List.length_replicate
  have hbyte : ∀ i < len, out.getD i 0#8 = if SectorsComplete f ofs len then f.byteAt (ofs + i) else 0#8 := by
    intro i hi
    rw [hout]
    by_cases hc : SectorsComplete f ofs len
    · rw [if_pos (.inr hc), if_pos hc, File.getD_read hi]
    · rw [if_neg (fun h => h.elim (by omega) hc), if_neg hc, List.getD_eq_getElem?_getD, List.getElem?_replicate,
        if_pos hi]
      rfl
  rw [hright]
  constructor
  · intro h i hi
    rw [← hbyte i hi, h, getD_range hi, content_eq hf]
  · intro h
    refine eq_of_getD (hlength.trans length_range.symm) fun i hi => ?_
    rw [hlength] at hi
    rw [hbyte i hi, getD_range hi, content_eq hf, h i hi]

def ofFile (f : File) (writable isACdrom : Bool) : Diskimage := ⟨some f, [], writable, isACdrom⟩

/-- A CD-ROM fills a buffer as a disk does: with the bytes of the file, and zeros behind its end. -/
def ReadsAsDisk (f : File) (writable : Bool) (ofs len : Nat) : Prop :=
  ∀ buf : List Byte, buf.length = len → ∃ out,
    (ofFile f writable true).internalAccess false ofs buf = .ok (ofFile f writable true, out, true) ∧
    (ofFile f writable false).internalAccess false ofs buf = .ok (ofFile f writable false, out, true) ∧
    out.length = len ∧ ∀ i < len, out.getD i 0#8 = if ofs + i < f.length then f.byteAt (ofs + i) else 0#8

theorem byteAt_of_le {pos : Nat} (h : f.length ≤ pos) : f.byteAt pos = 0#8 :=
  List.getD_eq_default _ _ h

theorem range_ofFile {writable isACdrom : Bool} {i : Nat} (hi : i < len) :
    ((ofFile f writable isACdrom).range ofs len).getD i 0#8 =
      if ofs + i < f.length then f.byteAt (ofs + i) else 0#8 := by
  rw [getD_range hi, content_eq rfl, byteAt_base rfl]
  split
  · rfl
  · exact byteAt_of_le (Nat.le_of_not_lt ‹_›)

/-- Exactly the ranges whose sectors are complete, and those that have only zeros, are read as from a disk. -/
theorem cdromReads_iff (f : File) (writable : Bool) (ofs len : Nat) : ReadsAsDisk f writable ofs len ↔
    SectorsComplete f ofs len ∨ ∀ i < len, ofs + i < f.length → f.byteAt (ofs + i) = 0#8 := by
  have hdisk : ∀ buf : List Byte, buf.length = len → (ofFile f writable false).internalAccess false ofs buf =
      .ok (ofFile f writable false, (ofFile f writable true).range ofs len, true) := by
    intro buf hlen
    rw [internalAccess_base rfl rfl rfl, hlen]
    rfl
  have hright : ReadsAsDisk f writable ofs len ↔ (ofFile f writable true).Right ofs len := by
    refine forall_congr' fun buf => forall_congr' fun hlen => ?_
    rw [hdisk buf hlen]
    constructor
    · rintro ⟨out, hcdrom, hout, -⟩
      rw [(Prod.mk.inj (Prod.mk.inj (Except.ok.inj hout)).2).1]
      exact hcdrom
    · intro h
      exact ⟨_, h, rfl, length_range, fun i hi => range_ofFile hi⟩
  rw [hright, right_iff_cdrom rfl rfl]
  by_cases hc : SectorsComplete f ofs len
  · simp only [if_pos hc, hc, true_or, iff_true]
    exact fun i _ => byteAt_base rfl
  · simp only [if_neg hc, hc, false_or]
    refine forall_congr' fun i => forall_congr' fun _ => ?_
    rw [byteAt_base rfl]
    constructor
    · exact fun h _ => h
    · intro h
      by_cases hin : ofs + i < f.length
      · exact h hin
      · exact byteAt_of_le (Nat.le_of_not_lt hin)

/-- A file of one byte is not read at all. -/
theorem oneByte_not_asDisk : ¬ ReadsAsDisk [0x41#8] false 0 1 := by
  intro h
  obtain ⟨out, hcdrom, -, -, hbytes⟩ := h [0#8] rfl
  have hzero : (ofFile [0x41#8] false true).internalAccess false 0 [0#8] =
      .ok (ofFile [0x41#8] false true, [0#8], true) := by decide +kernel
  have hout : [0#8] = out := (Prod.mk.inj (Prod.mk.inj (Except.ok.inj (hzero.symm.trans hcdrom))).2).1
  have hbyte := hbytes 0 (by decide)
  rw [← hout] at hbyte
  revert hbyte
  decide

/-! ## Base offsets -/

/-- diskimage_access(), for an image that has been found, with its `override_base_offset`. -/
def access (d : Diskimage) (base : Nat) (writeflag : Bool) (offset : Nat) (buf : List Byte) :
    Except DiskExit (Diskimage × List Byte × Bool) :=
  if offset < base then .ok (d, List.replicate buf.length 0#8, true)
  else d.internalAccess writeflag (offset - base) buf

/-- A read returns zeros below the base offset and the image from there on. A write that begins below it leaves the
buffer, and is only successful where it has stored all bytes of the buffer. -/
def AccessRight (d : Diskimage) (base : Nat) (writeflag : Bool) (offset len : Nat) : Prop :=
  ∀ buf : List Byte, buf.length = len →
    if writeflag then
      offset < base → ∃ d' ok, d.access base true offset buf = .ok (d', buf, ok) ∧
        (ok = true → ∀ i < len, base ≤ offset + i ∧ d'.content (offset + i - base) = buf.getD i 0#8)
    else
      ∃ out, d.access base false offset buf = .ok (d, out, true) ∧ out.length = len ∧
        ∀ i < len, out.getD i 0#8 = if offset + i < base then 0#8 else d.content (offset + i - base)

def Returned (d : Diskimage) (ofs len : Nat) : Prop :=
  match d.f with
  | none => len = 0
  | some f =>
    if d.isACdrom then
      ∀ i < len, d.byteAt f (ofs + i) = if SectorsComplete f ofs len then f.byteAt (ofs + i) else 0#8
    else d.overlays = [] ∨ d.Served f ofs len

theorem right_iff_returned (d : Diskimage) (ofs len : Nat) : d.Right ofs len ↔ d.Returned ofs len := by
  unfold Returned
  cases hf : d.f with
  | none =>
    constructor
    · intro h
      by_contra hne
      have hread := h (List.replicate len 0#8) List.length_replicate
      rw [internalAccess, if_neg (by rw [List.length_replicate]; exact hne), hf] at hread
      exact absurd (Prod.mk.inj (Prod.mk.inj (Except.ok.inj hread)).2).2 Bool.false_ne_true
    · rintro rfl buf hlen
      rw [internalAccess, if_pos hlen, List.length_eq_zero_iff.mp hlen]
      rfl
  | some f =>
    dsimp only
    by_cases hcdrom : d.isACdrom = true
    · rw [if_pos hcdrom]
      exact right_iff_cdrom hf hcdrom
    · rw [if_neg hcdrom]
      have hdisk : d.isACdrom = false := by simpa using hcdrom
      by_cases hov : d.overlays = []
      · refine iff_of_true (fun buf hlen => ?_) (.inl hov)
        rw [internalAccess_base hf hov hdisk, hlen]
      · simp only [hov, false_or]
        exact right_iff_served hf hov hdisk

/-- The accesses that are right: writes do not begin below the base offset, and reads that do have nothing of the
image but zeros. -/
theorem baseOffset_iff (d : Diskimage) (base : Nat) (writeflag : Bool) (offset len : Nat) :
    d.AccessRight base writeflag offset len ↔
      if writeflag then base ≤ offset ∨ len = 0
      else if offset < base then ∀ i < len, base ≤ offset + i → d.content (offset + i - base) = 0#8
      else d.Returned (offset - base) len := by
  cases writeflag with
  | true =>
    simp only [AccessRight, if_true]
    constructor
    · intro h
      by_contra hno
      rw [not_or] at hno
      have hbelow : offset < base := Nat.lt_of_not_le hno.1
      obtain ⟨d', ok, haccess, hstored⟩ := h (List.replicate len 0#8) List.length_replicate hbelow
      rw [access, if_pos hbelow] at haccess
      have hok : true = ok := (Prod.mk.inj (Prod.mk.inj (Except.ok.inj haccess)).2).2
      exact hno.1 (hstored hok.symm 0 (Nat.pos_of_ne_zero hno.2)).1
    · rintro (hle | rfl) buf hlen hbelow
      · omega
      · refine ⟨d, true, ?_, fun _ i hi => absurd hi (Nat.not_lt_zero i)⟩
        rw [access, if_pos hbelow, List.length_eq_zero_iff.mp hlen]
        rfl
  | false =>
    simp only [AccessRight, Bool.false_eq_true, if_false]
    by_cases hbelow : offset < base
    · rw [if_pos hbelow]
      have hzeros : ∀ buf : List Byte, d.access base false offset buf =
          .ok (d, List.replicate buf.length 0#8, true) := fun buf => if_pos hbelow
      have hzero : ∀ i < len, (List.replicate len 0#8).getD i 0#8 = 0#8 := by
        intro i hi
        rw [List.getD_eq_getElem?_getD, List.getElem?_replicate, if_pos hi]
        rfl
      constructor
      · intro h i hi hge
        obtain ⟨out, hout, -, hbytes⟩ := h (List.replicate len 0#8) List.length_replicate
        rw [hzeros, List.length_replicate] at hout
        have hbyte := hbytes i hi
        rw [← (Prod.mk.inj (Prod.mk.inj (Except.ok.inj hout)).2).1, hzero i hi, if_neg (Nat.not_lt.mpr hge)] at hbyte
        exact hbyte.symm
      · intro h buf hlen
        refine ⟨_, hzeros buf, by rw [List.length_replicate, hlen], fun i hi => ?_⟩
        rw [hlen, hzero i hi]
        split
        · rfl
        · exact (h i hi (Nat.le_of_not_lt ‹_›)).symm
    · rw [if_neg hbelow, ← right_iff_returned]
      refine forall_congr' fun buf => forall_congr' fun hlen => ?_
      rw [access, if_neg hbelow]
      have hpos : ∀ i, offset + i - base = offset - base + i := fun i => by omega
      constructor
      · rintro ⟨out, hout, hlength, hbytes⟩
        rw [hout, eq_of_getD (hlength.trans length_range.symm : out.length = (d.range (offset - base) len).length)
          fun i hi => ?_]
        rw [hlength] at hi
        rw [hbytes i hi, if_neg (by omega), hpos, getD_range hi]
      · intro h
        refine ⟨_, h, length_range, fun i hi => ?_⟩
        rw [getD_range hi, if_neg (by omega), hpos]

/-- A write of one byte before the base offset is said to be successful. -/
theorem discardedWrite_not_right : ¬ ∀ (d : Diskimage) (base : Nat) (writeflag : Bool) (offset len : Nat),
    d.AccessRight base writeflag offset len := by
  intro h
  obtain ⟨d', ok, haccess, hstored⟩ := h (ofFile [0x41#8] true false) 1 true 0 1 [0#8] rfl (by decide)
  have hzeros : (ofFile [0x41#8] true false).access 1 true 0 [0#8] =
      .ok (ofFile [0x41#8] true false, [0#8], true) := rfl
  have hok : true = ok := (Prod.mk.inj (Prod.mk.inj (Except.ok.inj (hzeros.symm.trans haccess))).2).2
  exact absurd (hstored hok.symm 0 (by decide)).1 (by decide)

end Diskimage

end Gxemul.Disk
