import Gxemul.Disk.ReadAfterWrite

/- What an access does to the content of a disk image.

   `content` is the byte of every position, with or without overlays.
   `internalAccess_write` and `internalAccess_readRange` say what the callers of
   diskimage__internal_access() need to know: a write of whole blocks changes its
   range, and a read of a `Plain` range returns it. -/
namespace Gxemul.Disk

open Lib (Byte File)

namespace Diskimage

section
variable (d : Diskimage)

def content (pos : Nat) : Byte :=
  match d.f with
  | some f => d.byteAt f pos
  | none => 0x00#8

/-- `len` bytes of the image. -/
def range (ofs len : Nat) : List Byte := (List.range len).map fun i => d.content (ofs + i)

/-- The ranges of `n` blocks that a read returns as they are, whatever is in its buffer. -/
def Plain (ofs n : Nat) : Prop :=
  ∃ f, d.f = some f ∧ (¬ d.isACdrom ∧ d.overlays = [] ∨ 512 ∣ ofs ∧ d.Readable f ofs n)

def Storable (ofs : Nat) : Prop := d.f.isSome ∧ d.writable = true ∧ (d.overlays = [] ∨ 512 ∣ ofs)

end

variable {d d' : Diskimage} {f : File} {ofs pos n : Nat} {buf : List Byte}

theorem content_eq (hf : d.f = some f) : d.content pos = d.byteAt f pos := by
  rw [content, hf]

@[simp] theorem length_range : (d.range ofs n).length = n := by
  simp [range]

theorem getD_range {i : Nat} (hi : i < n) : (d.range ofs n).getD i 0#8 = d.content (ofs + i) := by
  rw [range, List.getD_eq_getElem?_getD, List.getElem?_map, List.getElem?_range hi]
  rfl

theorem want_eq_range (hf : d.f = some f) (hofs : 512 ∣ ofs) : d.want f ofs n = d.range ofs (512 * n) := by
  refine eq_of_getD (length_want.trans length_range.symm) fun i hi => ?_
  rw [length_want] at hi
  rw [getD_want hofs hi, getD_range hi, content_eq hf]

theorem byteAt_base (hov : d.overlays = []) : d.byteAt f pos = f.byteAt pos := by
  rw [byteAt, findFile, hov]
  rfl

theorem internalAccess_write (hstorable : d.Storable ofs) (hlen : 512 ∣ buf.length) :
    ∃ d', d.internalAccess true ofs buf = .ok (d', buf, true) ∧ d'.f.isSome ∧ ∀ pos, d'.content pos =
      if ofs ≤ pos ∧ pos < ofs + buf.length then buf.getD (pos - ofs) 0#8 else d.content pos := by
  obtain ⟨hsome, hw, hofs⟩ := hstorable
  obtain ⟨f, hf⟩ := Option.isSome_iff_exists.mp hsome
  by_cases hempty : buf.length = 0
  · refine ⟨d, by rw [internalAccess, if_pos hempty], hsome, fun pos => ?_⟩
    rw [if_neg (by omega)]
  · have haccess : d.internalAccess true ofs buf =
        (d.fwriteHelper f ofs buf >>= fun r => .ok (r.1, buf, true)) := by
      rw [internalAccess, if_neg hempty, hf]
      dsimp only
      rw [if_pos rfl, if_pos hw]
    cases hlast : d.overlays.getLast? with
    | none =>
      -- The base file itself is written to.
      have hov : d.overlays = [] := List.getLast?_eq_none_iff.mp hlast
      have hwrite : d.fwriteHelper f ofs buf = .ok ({ d with f := some (f.write ofs buf) }, buf.length) := by
        rw [fwriteHelper, hlast]
      refine ⟨{ d with f := some (f.write ofs buf) }, by rw [haccess, hwrite]; rfl, rfl, fun pos => ?_⟩
      rw [content_eq rfl, content_eq hf, byteAt_base hov, byteAt_base (d := { d with f := some (f.write ofs buf) }) hov,
        File.byteAt_write]
    | some o =>
      have hov : d.overlays ≠ [] := by
        intro hnil
        rw [hnil] at hlast
        cases hlast
      have hofs := hofs.resolve_left hov
      obtain ⟨d', hwrite⟩ : ∃ d', d.fwriteHelper f ofs buf = .ok (d', buf.length) := by
        rw [fwriteHelper, hlast]
        dsimp only
        rw [if_neg (by unfold overlayBlockSize; omega), if_neg (by unfold overlayBlockSize; omega)]
        exact ⟨_, rfl⟩
      have hok : d.internalAccess true ofs buf = .ok (d', buf, true) := by
        rw [haccess, hwrite]
        rfl
      obtain ⟨hf', -, hbytes⟩ := byteAt_write hf hov hok
      refine ⟨d', hok, by rw [hf']; rfl, fun pos => ?_⟩
      rw [content_eq hf', content_eq hf, hbytes]

theorem freadHelper_base (hf : d.f = some f) (hov : d.overlays = []) :
    cleared (d.freadHelper f ofs buf).1 (d.freadHelper f ofs buf).2 buf.length = d.range ofs buf.length := by
  rw [freadHelper, if_pos hov]
  dsimp only
  have hgot : (f.read ofs buf.length).length = min buf.length (f.length - ofs) := File.length_read
  refine eq_of_getD ?_ fun i hi => ?_
  · rw [cleared, length_range, List.length_append, List.length_take, List.length_append, List.length_drop,
      List.length_replicate, hgot]
    omega
  · rw [cleared, List.take_left' rfl] at hi ⊢
    rw [List.length_append, List.length_replicate, hgot] at hi
    rw [getD_range (by omega), content_eq hf, byteAt_base hov, List.getD_eq_getElem?_getD]
    by_cases hin : i < (f.read ofs buf.length).length
    · rw [List.getElem?_append_left hin, ← List.getD_eq_getElem?_getD, File.getD_read (by omega)]
    · have hbehind : f.length ≤ ofs + i := by omega
      rw [List.getElem?_append_right (by omega), List.getElem?_replicate, if_pos (by omega)]
      exact (List.getD_eq_default _ _ hbehind).symm

theorem internalAccess_readRange (hplain : d.Plain ofs n) (hlen : buf.length = 512 * n) :
    d.internalAccess false ofs buf = .ok (d, d.range ofs (512 * n), true) := by
  obtain ⟨f, hf, hright⟩ := hplain
  by_cases hempty : buf.length = 0
  · have hnil : buf = [] := List.length_eq_zero_iff.mp hempty
    have hrange : d.range ofs (512 * n) = [] := List.length_eq_zero_iff.mp (by rw [length_range, ← hlen, hempty])
    rw [hrange, internalAccess, if_pos hempty, hnil]
  · have haccess : d.internalAccess false ofs buf = .ok (d, cleared (if d.isACdrom then accessCdrom f ofs buf
        else d.freadHelper f ofs buf).1 (if d.isACdrom then accessCdrom f ofs buf
        else d.freadHelper f ofs buf).2 buf.length, true) := by
      rw [internalAccess, if_neg hempty, hf]
      rfl
    rw [haccess, hlen]
    refine congrArg (fun out => Except.ok (d, out, true)) ?_
    by_cases hov : d.overlays = []
    · by_cases hcdrom : d.isACdrom = true
      · obtain ⟨hofs, hreadable⟩ := hright.resolve_left fun h => h.1 hcdrom
        have hread := readInto_right hofs |>.mpr hreadable buf hlen
        rw [readInto, if_pos hcdrom] at hread
        rw [if_pos hcdrom, hread, want_eq_range hf hofs]
      · rw [if_neg hcdrom, ← hlen]
        exact freadHelper_base hf hov
    · obtain ⟨hofs, hreadable⟩ := hright.resolve_left fun h => hov h.2
      have hread := readInto_right hofs |>.mpr hreadable buf hlen
      have hinto : d.readInto f ofs buf = if d.isACdrom then accessCdrom f ofs buf else d.freadHelper f ofs buf := by
        rw [readInto, freadHelper, if_neg hov]
      rw [← hinto, hread, want_eq_range hf hofs]

theorem lastWritten_concat (w : Nat × List Byte) (pos : Nat) : ∀ ws : List (Nat × List Byte),
    lastWritten (ws ++ [w]) pos =
      if w.1 ≤ pos ∧ pos < w.1 + w.2.length then some (w.2.getD (pos - w.1) 0#8) else lastWritten ws pos
  | [] => by simp [lastWritten]
  | v :: ws => by
    rw [List.cons_append, lastWritten, lastWritten, lastWritten_concat w pos ws]
    split <;> rfl

end Diskimage

end Gxemul.Disk
