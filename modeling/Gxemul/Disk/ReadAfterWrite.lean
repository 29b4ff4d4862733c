import Gxemul.Disk.Diskimage
import Gxemul.Lib.Run

/- Reading back what has been written to a disk image with overlays.

   `byteAt` is the byte that the overlays and the base file have for a position,
   and a write changes it in the written range only (`byteAt_write`). A read
   counts the bytes that the blocks were short of and clears as many at the end
   of the buffer. That is right when only the last blocks of a range are short,
   and `read_after_write_iff` says that it is wrong otherwise. -/
namespace Gxemul.Disk

open Lib (Byte File)

/-! ## The bitmap -/

theorem getLsbD_bit (k j : Nat) (hj : j < 8) : (1#8 <<< k).getLsbD j = decide (j = k) := by
  rw [BitVec.getLsbD_shiftLeft, BitVec.getLsbD_one]
  simp only [hj, decide_true, Bool.true_and]
  by_cases h : j < k
  · simp [h]; omega
  · simp [h]; omega

theorem getLsbD_or_bit (b : Byte) (k j : Nat) (hj : j < 8) :
    (b ||| 1#8 <<< k).getLsbD j = (b.getLsbD j || decide (j = k)) := by
  rw [BitVec.getLsbD_or, getLsbD_bit _ _ hj]

theorem bit_ne_zero (b : Byte) (k : Nat) (hk : k < 8) : (b &&& 1#8 <<< k != 0#8) = b.getLsbD k := by
  rw [Bool.eq_iff_iff, bne_iff_ne]
  constructor
  · intro hne
    by_contra hbit
    apply hne
    apply BitVec.eq_of_getLsbD_eq
    intro j hj
    rw [BitVec.getLsbD_and, getLsbD_bit _ _ hj, BitVec.getLsbD_zero]
    by_cases h : j = k
    · subst h; simpa using hbit
    · simp [h]
  · intro hbit h0
    have h := congrArg (fun x => x.getLsbD k) h0
    simp only [BitVec.getLsbD_and, getLsbD_bit _ _ hk, hbit, BitVec.getLsbD_zero] at h
    simp at h

namespace Overlay
variable {o : Overlay} {ofs pos : Nat}

theorem hasBlock_eq : o.hasBlock ofs = (o.bitmap.byteAt (ofs / 512 / 8)).getLsbD (ofs / 512 % 8) := by
  unfold hasBlock overlayBlockSize
  dsimp only
  rw [File.read_one]
  by_cases h : ofs / 512 / 8 < o.bitmap.length
  · rw [if_pos h]
    exact bit_ne_zero _ _ (Nat.mod_lt _ (by decide))
  · rw [if_neg h, File.byteAt, List.getD_eq_default _ _ (by omega)]
    simp

theorem hasBlock_setBlockInUse : (o.setBlockInUse ofs).hasBlock pos =
    (o.hasBlock pos || decide (pos / 512 = ofs / 512)) := by
  have hold : (o.bitmap.read (ofs / 512 / 8) 1).getD 0 0x00#8 = o.bitmap.byteAt (ofs / 512 / 8) := by
    rw [File.getD_read (by decide), Nat.add_zero]
  rw [hasBlock_eq, hasBlock_eq]
  show ((o.bitmap.write (ofs / 512 / 8) _).byteAt _).getLsbD _ = _
  rw [File.byteAt_write]
  simp only [overlayBlockSize, hold, List.length_singleton]
  by_cases hbyte : pos / 512 / 8 = ofs / 512 / 8
  · rw [if_pos (by omega), hbyte, Nat.sub_self, List.getD_cons_zero,
      getLsbD_or_bit _ _ _ (Nat.mod_lt _ (by decide))]
    congr 1
    apply decide_eq_decide.mpr
    omega
  · rw [if_neg (by omega), decide_eq_false (by omega), Bool.or_false]

theorem writeBlock_spec {block : List Byte} (hlen : block.length = 512) :
    (o.writeBlock ofs block).hasBlock pos = (o.hasBlock pos || decide (pos / 512 = ofs / 512)) ∧
    (o.writeBlock ofs block).data.byteAt pos =
      if ofs ≤ pos ∧ pos < ofs + 512 then block.getD (pos - ofs) 0#8 else o.data.byteAt pos := by
  constructor
  · exact hasBlock_setBlockInUse
  · show (o.data.write ofs block).byteAt pos = _
    rw [File.byteAt_write, hlen]

end Overlay

/-! ## Writes -/

namespace Diskimage
variable {d : Diskimage} {f : File}

/-- The byte at a position: from the last overlay that has its block, or from the base file. -/
def byteAt (d : Diskimage) (f : File) (pos : Nat) : Byte := (d.findFile f pos).byteAt pos

theorem byteAt_concat (pos : Nat) (init : List Overlay) (o : Overlay) :
    byteAt { d with overlays := init ++ [o] } f pos =
      if o.hasBlock pos then o.data.byteAt pos else byteAt { d with overlays := init } f pos := by
  unfold byteAt findFile
  rw [List.reverse_append, List.reverse_singleton, List.singleton_append, List.find?_cons]
  cases o.hasBlock pos <;> rfl

theorem fwriteLoop_spec {init : List Overlay} (pos : Nat) : ∀ (n ofs : Nat) (buf : List Byte) (o : Overlay),
    512 ∣ ofs → buf.length = 512 * n →
    byteAt { d with overlays := init ++ [fwriteLoop n ofs buf o] } f pos =
      if ofs ≤ pos ∧ pos < ofs + buf.length then buf.getD (pos - ofs) 0#8
      else byteAt { d with overlays := init ++ [o] } f pos
  | 0, ofs, buf, o, _, hlen => by
    rw [hlen, if_neg (by omega)]
    rfl
  | n + 1, ofs, buf, o, hofs, hlen => by
    have htake : (buf.take 512).length = 512 := by
      rw [List.length_take]
      omega
    obtain ⟨hhas, hdata⟩ := @Overlay.writeBlock_spec o ofs pos (buf.take 512) htake
    show byteAt { d with overlays := init ++ [fwriteLoop n (ofs + 512) (buf.drop 512)
      (o.writeBlock ofs (buf.take 512))] } f pos = _
    rw [fwriteLoop_spec pos n (ofs + 512) (buf.drop 512) _ (by omega) (by rw [List.length_drop]; omega),
      byteAt_concat, byteAt_concat, hhas, hdata, List.length_drop]
    by_cases hrest : ofs + 512 ≤ pos ∧ pos < ofs + 512 + (buf.length - 512)
    · have hall : ofs ≤ pos ∧ pos < ofs + buf.length := by omega
      have hindex : 512 + (pos - (ofs + 512)) = pos - ofs := by omega
      rw [if_pos hrest, if_pos hall]
      simp only [List.getD_eq_getElem?_getD, List.getElem?_drop]
      rw [hindex]
    · by_cases hfirst : ofs ≤ pos ∧ pos < ofs + 512
      · -- The first block: it is written now and the others leave it.
        have hall : ofs ≤ pos ∧ pos < ofs + buf.length := by omega
        have hblock : pos / 512 = ofs / 512 := by omega
        rw [if_neg hrest, if_pos hfirst, if_pos hall, if_pos (by simp [hblock])]
        simp only [List.getD_eq_getElem?_getD, List.getElem?_take]
        rw [if_pos (by omega : pos - ofs < 512)]
      · have hnone : ¬ (ofs ≤ pos ∧ pos < ofs + buf.length) := by omega
        have hblock : pos / 512 ≠ ofs / 512 := by omega
        rw [if_neg hrest, if_neg hfirst, if_neg hnone, decide_eq_false hblock, Bool.or_false]

theorem byteAt_write {offset : Nat} {buf : List Byte} {d' : Diskimage} (hf : d.f = some f) (hov : d.overlays ≠ [])
    (h : d.internalAccess true offset buf = .ok (d', buf, true)) :
    d'.f = some f ∧ d'.overlays ≠ [] ∧ ∀ pos, d'.byteAt f pos =
      if offset ≤ pos ∧ pos < offset + buf.length then buf.getD (pos - offset) 0#8 else d.byteAt f pos := by
  unfold internalAccess at h
  split at h
  · rename_i hempty
    cases h
    refine ⟨hf, hov, fun pos => ?_⟩
    rw [hempty, if_neg (by omega)]
  · rw [hf] at h
    dsimp only at h
    rw [if_pos rfl] at h
    split at h
    · obtain ⟨o, ho⟩ : ∃ o, d.overlays.getLast? = some o := by
        rw [List.getLast?_eq_some_getLast hov]
        exact ⟨_, rfl⟩
      obtain ⟨⟨d1, n⟩, hw, hrest⟩ := Lib.bind_eq_ok h
      cases hrest
      unfold fwriteHelper at hw
      rw [ho] at hw
      dsimp only at hw
      split at hw
      · cases hw
      · rename_i hlen
        split at hw
        · cases hw
        · rename_i hofs
          cases hw
          refine ⟨hf, by simp, fun pos => ?_⟩
          have hoverlays : d.overlays = d.overlays.dropLast ++ [o] := by
            obtain ⟨l, hl⟩ := List.getLast?_eq_some_iff.mp ho
            rw [hl, List.dropLast_concat]
          simp only [overlayBlockSize] at hlen hofs ⊢
          rw [fwriteLoop_spec pos _ offset buf o (by omega) (by omega), ← hoverlays]
    · cases h

def Writes : Diskimage → List (Nat × List Byte) → Diskimage → Prop
  | d, [], d' => d' = d
  | d, w :: ws, d' => ∃ d1, d.internalAccess true w.1 w.2 = .ok (d1, w.2, true) ∧ Writes d1 ws d'

def lastWritten : List (Nat × List Byte) → Nat → Option Byte
  | [], _ => none
  | w :: ws, pos =>
    (lastWritten ws pos).or (if w.1 ≤ pos ∧ pos < w.1 + w.2.length then some (w.2.getD (pos - w.1) 0#8) else none)

theorem byteAt_writes : ∀ {ws : List (Nat × List Byte)} {d d' : Diskimage}, d.f = some f → d.overlays ≠ [] →
    Writes d ws d' → d'.f = some f ∧ d'.overlays ≠ [] ∧
      ∀ pos, d'.byteAt f pos = (lastWritten ws pos).getD (d.byteAt f pos)
  | [], d, d', hf, hov, h => by
    cases (show d' = d from h)
    exact ⟨hf, hov, fun _ => rfl⟩
  | w :: ws, d, d', hf, hov, ⟨d1, hw, hrest⟩ => by
    obtain ⟨hf1, hov1, hbytes1⟩ := byteAt_write hf hov hw
    obtain ⟨hf', hov', hbytes'⟩ := byteAt_writes hf1 hov1 hrest
    refine ⟨hf', hov', fun pos => ?_⟩
    rw [hbytes' pos, hbytes1 pos, lastWritten]
    cases lastWritten ws pos with
    | some b => rfl
    | none => split <;> rfl

/-! ## Reads -/

section
variable (d f)

def block (ofs : Nat) : List Byte := (d.findFile f ofs).read ofs 512

def want : Nat → Nat → List Byte
  | _, 0 => []
  | ofs, n + 1 => d.block f ofs ++ List.replicate (512 - (d.block f ofs).length) 0#8 ++ want (ofs + 512) n

def total : Nat → Nat → Nat
  | _, 0 => 0
  | ofs, n + 1 => (d.block f ofs).length + total (ofs + 512) n

/-- After a block that its file does not have completely, the files have nothing of the others. -/
def OnlyEndShort (ofs n : Nat) : Prop :=
  ∀ i j, i < j → j < n → (d.block f (ofs + 512 * i)).length < 512 → (d.block f (ofs + 512 * j)).length = 0

end

variable {ofs n : Nat}

theorem length_block_le : (d.block f ofs).length ≤ 512 := by
  rw [block, File.length_read]
  exact Nat.min_le_left ..

theorem length_want : ∀ {n ofs : Nat}, (d.want f ofs n).length = 512 * n
  | 0, _ => rfl
  | n + 1, ofs => by
    have hle : (d.block f ofs).length ≤ 512 := length_block_le
    rw [want, List.length_append, List.length_append, List.length_replicate, length_want]
    omega

theorem findFile_block {pos : Nat} (h : pos / 512 = ofs / 512) : d.findFile f pos = d.findFile f ofs := by
  have hhas : (fun o : Overlay => o.hasBlock pos) = fun o => o.hasBlock ofs := by
    funext o
    rw [Overlay.hasBlock_eq, Overlay.hasBlock_eq, h]
  rw [findFile, findFile, hhas]

theorem getD_want : ∀ {n ofs i : Nat}, 512 ∣ ofs → i < 512 * n →
    (d.want f ofs n).getD i 0#8 = d.byteAt f (ofs + i)
  | n + 1, ofs, i, hofs, hi => by
    have hle : (d.block f ofs).length ≤ 512 := length_block_le
    rw [want, List.append_assoc, List.getD_eq_getElem?_getD]
    by_cases hfirst : i < 512
    · have hblock : (ofs + i) / 512 = ofs / 512 := by omega
      rw [byteAt, findFile_block hblock]
      by_cases hgot : i < (d.block f ofs).length
      · rw [List.getElem?_append_left hgot, ← List.getD_eq_getElem?_getD]
        exact File.getD_read hfirst
      · rw [List.getElem?_append_right (by omega), List.getElem?_append_left (by simp; omega),
          List.getElem?_replicate, if_pos (by omega)]
        have hend : (d.findFile f ofs).length ≤ ofs + i := by
          rw [block, File.length_read] at hgot
          omega
        exact (List.getD_eq_default _ _ hend).symm
    · have hlen : (d.block f ofs ++ List.replicate (512 - (d.block f ofs).length) 0#8).length = 512 := by
        simp
        omega
      have hpos : ofs + 512 + (i - 512) = ofs + i := by omega
      rw [← List.append_assoc, List.getElem?_append_right (by omega), hlen, ← List.getD_eq_getElem?_getD,
        getD_want (by omega) (by omega), hpos]

theorem or_511 (hofs : 512 ∣ ofs) : (ofs ||| 511) + 1 = ofs + 512 := by
  obtain ⟨k, rfl⟩ := hofs
  have h := Nat.two_pow_add_eq_or_of_lt (by decide : 511 < 2 ^ 9) k
  rw [show 2 ^ 9 * k = 512 * k from rfl] at h
  rw [← h]

theorem freadLoop_succ {fuel : Nat} {buf : List Byte} (hofs : 512 ∣ ofs) (hlen : buf.length = 512 * (n + 1)) :
    d.freadLoop f (fuel + 1) ofs buf =
      (d.block f ofs ++ (buf.take 512).drop (d.block f ofs).length ++
        (d.freadLoop f fuel (ofs + 512) (buf.drop 512)).1,
       (d.block f ofs).length + (d.freadLoop f fuel (ofs + 512) (buf.drop 512)).2) := by
  have hmin : min buf.length overlayBlockSize = 512 := by
    unfold overlayBlockSize
    omega
  rw [freadLoop, if_neg (by omega), hmin, overlayBlockSize, or_511 hofs]
  rfl

theorem freadLoop_total : ∀ {n ofs fuel : Nat} {buf : List Byte}, 512 ∣ ofs → buf.length = 512 * n → 512 * n ≤ fuel →
    (d.freadLoop f fuel ofs buf).1.length = 512 * n ∧ (d.freadLoop f fuel ofs buf).2 = d.total f ofs n
  | 0, ofs, fuel, buf, _, hlen, _ => by
    have hnil : buf = [] := List.length_eq_zero_iff.mp hlen
    subst hnil
    cases fuel with
    | zero => exact ⟨rfl, rfl⟩
    | succ fuel => exact ⟨rfl, rfl⟩
  | n + 1, ofs, fuel, buf, hofs, hlen, hfuel => by
    obtain ⟨fuel, rfl⟩ : ∃ k, fuel = k + 1 := ⟨fuel - 1, by omega⟩
    obtain ⟨h1, h2⟩ := @freadLoop_total n (ofs + 512) fuel (buf.drop 512) (by omega)
      (by rw [List.length_drop]; omega) (by omega)
    have hle : (d.block f ofs).length ≤ 512 := length_block_le
    rw [freadLoop_succ hofs hlen]
    refine ⟨?_, ?_⟩
    · simp only [List.length_append, List.length_drop, List.length_take, h1]
      omega
    · show _ + (d.freadLoop f fuel (ofs + 512) (buf.drop 512)).2 = _
      rw [h2, total]

def cleared (buf : List Byte) (lendone len : Nat) : List Byte := buf.take lendone ++ List.replicate (len - lendone) 0#8

theorem want_of_total : ∀ {n ofs : Nat}, d.total f ofs n = 0 → d.want f ofs n = List.replicate (512 * n) 0#8
  | 0, _, _ => rfl
  | n + 1, ofs, h => by
    rw [total] at h
    have hblock : d.block f ofs = [] := List.length_eq_zero_iff.mp (by omega)
    rw [want, hblock, want_of_total (by omega), List.nil_append, List.replicate_append_replicate]
    congr 1
    simp
    omega

theorem block_shift (ofs j : Nat) : ofs + 512 + 512 * j = ofs + 512 * (j + 1) := by omega

theorem total_eq_zero : ∀ {n ofs : Nat}, d.total f ofs n = 0 ↔ ∀ j < n, (d.block f (ofs + 512 * j)).length = 0
  | 0, _ => ⟨fun _ j hj => absurd hj (Nat.not_lt_zero j), fun _ => rfl⟩
  | n + 1, ofs => by
    rw [total, Nat.add_eq_zero_iff, total_eq_zero]
    constructor
    · rintro ⟨h0, hrest⟩ j hj
      cases j with
      | zero => exact h0
      | succ j =>
        rw [← block_shift]
        exact hrest j (by omega)
    · intro h
      refine ⟨h 0 (by omega), fun j hj => ?_⟩
      rw [block_shift]
      exact h (j + 1) (by omega)

theorem onlyEndShort_succ : d.OnlyEndShort f ofs (n + 1) ↔
    ((d.block f ofs).length < 512 → d.total f (ofs + 512) n = 0) ∧ d.OnlyEndShort f (ofs + 512) n := by
  rw [total_eq_zero]
  constructor
  · intro h
    refine ⟨fun hshort j hj => ?_, fun i j hij hj => ?_⟩
    · rw [block_shift]
      exact h 0 (j + 1) (by omega) (by omega) hshort
    · rw [block_shift, block_shift]
      exact h (i + 1) (j + 1) (by omega) (by omega)
  · rintro ⟨hfirst, hrest⟩ i j hij hj hshort
    obtain ⟨j, rfl⟩ : ∃ k, j = k + 1 := ⟨j - 1, by omega⟩
    rw [← block_shift]
    cases i with
    | zero => exact hfirst hshort j (by omega)
    | succ i =>
      rw [← block_shift] at hshort
      exact hrest i j (by omega) (by omega) hshort

theorem freadLoop_right : ∀ {n ofs fuel : Nat}, 512 ∣ ofs → 512 * n ≤ fuel →
    ((∀ buf : List Byte, buf.length = 512 * n →
      cleared (d.freadLoop f fuel ofs buf).1 (d.freadLoop f fuel ofs buf).2 (512 * n) = d.want f ofs n) ↔
      d.OnlyEndShort f ofs n)
  | 0, ofs, fuel, _, _ => by
    refine ⟨fun _ i j _ hj => absurd hj (Nat.not_lt_zero j), fun _ buf hlen => ?_⟩
    obtain ⟨h1, -⟩ := @freadLoop_total d f 0 ofs fuel buf ‹_› hlen (Nat.zero_le _)
    have hnil : (d.freadLoop f fuel ofs buf).1 = [] := List.length_eq_zero_iff.mp h1
    simp [cleared, hnil, want]
  | n + 1, ofs, fuel, hofs, hfuel => by
    obtain ⟨fuel, rfl⟩ : ∃ k, fuel = k + 1 := ⟨fuel - 1, by omega⟩
    have ih := @freadLoop_right n (ofs + 512) fuel (by omega) (by omega)
    have hle : (d.block f ofs).length ≤ 512 := length_block_le
    have hrestlen : ∀ buf : List Byte, buf.length = 512 * (n + 1) → (buf.drop 512).length = 512 * n := by
      intro buf hlen
      rw [List.length_drop]
      omega
    rw [onlyEndShort_succ]
    by_cases hfull : (d.block f ofs).length = 512
    · -- A complete block: the rest of the buffer decides.
      have hstep : ∀ buf : List Byte, buf.length = 512 * (n + 1) →
          cleared (d.freadLoop f (fuel + 1) ofs buf).1 (d.freadLoop f (fuel + 1) ofs buf).2 (512 * (n + 1)) =
            d.block f ofs ++ cleared (d.freadLoop f fuel (ofs + 512) (buf.drop 512)).1
              (d.freadLoop f fuel (ofs + 512) (buf.drop 512)).2 (512 * n) := by
        intro buf hlen
        have hdrop : (buf.take 512).drop (d.block f ofs).length = [] := by
          apply List.drop_eq_nil_of_le
          rw [List.length_take]
          omega
        have hleft : ∀ k, 512 * (n + 1) - ((d.block f ofs).length + k) = 512 * n - k := by omega
        rw [freadLoop_succ hofs hlen, cleared, cleared, hdrop, List.append_nil, List.take_length_add_append, hleft,
          List.append_assoc]
      have hwant : d.want f ofs (n + 1) = d.block f ofs ++ d.want f (ofs + 512) n := by
        rw [want, hfull, Nat.sub_self, List.replicate_zero, List.append_nil]
      constructor
      · intro h
        refine ⟨fun hs => absurd hfull (Nat.ne_of_lt hs), ih.mp fun buf hbuf => ?_⟩
        have hlen : (List.replicate 512 0#8 ++ buf).length = 512 * (n + 1) := by
          rw [List.length_append, List.length_replicate, hbuf]
          omega
        have hwhole := h _ hlen
        rw [hstep _ hlen, hwant] at hwhole
        have hdrop : (List.replicate 512 0#8 ++ buf).drop 512 = buf := List.drop_left' List.length_replicate
        rw [hdrop] at hwhole
        exact List.append_cancel_left hwhole
      · rintro ⟨-, hrest⟩ buf hlen
        rw [hstep buf hlen, hwant, ih.mpr hrest _ (hrestlen buf hlen)]
    · have hshort : (d.block f ofs).length < 512 := by omega
      constructor
      · intro h
        have htotal : d.total f (ofs + 512) n = 0 := by
          -- A later block has bytes: what was in the buffer after the first block's bytes stays there.
          by_contra hpos
          generalize hbuf : List.replicate (512 * (n + 1)) 0xff#8 = buf at h
          have hlen : buf.length = 512 * (n + 1) := by
            rw [← hbuf]
            exact List.length_replicate
          obtain ⟨-, hsnd⟩ := @freadLoop_total d f n (ofs + 512) fuel _ (by omega) (hrestlen buf hlen) (by omega)
          have htail : ((buf.take 512).drop (d.block f ofs).length)[0]? = some 0xff#8 := by
            rw [List.getElem?_drop, List.getElem?_take, if_pos (by omega), ← hbuf, List.getElem?_replicate,
              if_pos (by omega)]
          have hkept : (cleared (d.freadLoop f (fuel + 1) ofs buf).1 (d.freadLoop f (fuel + 1) ofs buf).2
              (512 * (n + 1)))[(d.block f ofs).length]? = some 0xff#8 := by
            obtain ⟨b, l, hcons⟩ : ∃ b l, (buf.take 512).drop (d.block f ofs).length = b :: l := by
              cases hl : (buf.take 512).drop (d.block f ofs).length with
              | nil =>
                rw [hl] at htail
                cases htail
              | cons b l => exact ⟨b, l, rfl⟩
            rw [hcons] at htail
            obtain ⟨k, hk⟩ : ∃ k, d.total f (ofs + 512) n = k + 1 := ⟨d.total f (ofs + 512) n - 1, by omega⟩
            rw [freadLoop_succ hofs hlen, cleared, hsnd, hcons, hk, List.append_assoc, List.take_length_add_append,
              List.append_assoc, List.getElem?_append_right (Nat.le_refl _), Nat.sub_self]
            exact htail
          have hzero : (d.want f ofs (n + 1))[(d.block f ofs).length]? = some 0#8 := by
            obtain ⟨k, hk⟩ : ∃ k, 512 - (d.block f ofs).length = k + 1 := ⟨511 - (d.block f ofs).length, by omega⟩
            rw [want, hk, List.append_assoc, List.getElem?_append_right (Nat.le_refl _), Nat.sub_self]
            rfl
          rw [h buf hlen, hzero] at hkept
          exact absurd hkept (by decide)
        exact ⟨fun _ => htotal, fun i j _ hj _ => total_eq_zero.mp htotal j hj⟩
      · rintro ⟨hfirst, -⟩ buf hlen
        have htotal := hfirst hshort
        obtain ⟨-, hsnd⟩ := @freadLoop_total d f n (ofs + 512) fuel _ (by omega) (hrestlen buf hlen) (by omega)
        have hgap : 512 * (n + 1) - (d.block f ofs).length = 512 - (d.block f ofs).length + 512 * n := by omega
        rw [freadLoop_succ hofs hlen, cleared, hsnd, htotal, want, want_of_total htotal, List.append_assoc]
        dsimp only
        rw [Nat.add_zero, List.take_left' rfl, hgap, List.append_assoc, List.replicate_append_replicate]

/-! ## CD-ROMs -/

def SectorsComplete (f : File) (offset len : Nat) : Prop := (offset + len + 2047) / 2048 * 2048 ≤ f.length

instance (f : File) (offset len : Nat) : Decidable (SectorsComplete f offset len) :=
  inferInstanceAs (Decidable (_ ≤ _))

theorem cdromLoop_spec (f : File) : ∀ (fuel aligned offset len : Nat), 2048 ∣ aligned → aligned ≤ offset →
    offset < aligned + 2048 → len ≤ fuel → cdromLoop f fuel aligned offset len =
      if len = 0 ∨ SectorsComplete f offset len then some (f.read offset len) else none
  | 0, aligned, offset, len, _, _, _, hfuel => by
    have hlen : len = 0 := by omega
    rw [hlen, if_pos (.inl rfl)]
    simp [cdromLoop, File.read]
  | fuel + 1, aligned, offset, len, haligned, hle, hlt, hfuel => by
    rw [cdromLoop]
    by_cases hlen : len = 0
    · rw [hlen, if_pos rfl, if_pos (.inl rfl)]
      simp [File.read]
    · rw [if_neg hlen]
      have hsector : (f.read aligned cdromSectorSize).length = min 2048 (f.length - aligned) := File.length_read
      have hcopied : ((f.read aligned cdromSectorSize).drop (offset - aligned)).take len =
          f.read offset (min len (2048 - (offset - aligned))) := by
        rw [File.take_drop_read, Nat.add_sub_of_le hle]
        rfl
      by_cases hshort : f.length < aligned + 2048
      · have hnot : ¬ (len = 0 ∨ SectorsComplete f offset len) := by
          unfold SectorsComplete
          omega
        have hne : (f.read aligned cdromSectorSize).length ≠ cdromSectorSize := by
          rw [hsector, cdromSectorSize]
          omega
        rw [if_pos hne, if_neg hnot]
      · have heq : ¬ (f.read aligned cdromSectorSize).length ≠ cdromSectorSize := by
          rw [hsector, cdromSectorSize]
          omega
        dsimp only
        rw [if_neg heq, hcopied, File.length_read, cdromSectorSize,
          cdromLoop_spec f fuel (aligned + 2048) (aligned + 2048) _ (by omega) (Nat.le_refl _) (by omega) (by omega)]
        by_cases hlast : len ≤ 2048 - (offset - aligned)
        · -- The last sector.
          have hdone : len - min (min len (2048 - (offset - aligned))) (f.length - offset) = 0 := by omega
          have hcomplete : len = 0 ∨ SectorsComplete f offset len := by
            unfold SectorsComplete
            omega
          rw [hdone, if_pos (.inl rfl), if_pos hcomplete, Nat.min_eq_left hlast]
          simp [File.read]
        · have hmin : min len (2048 - (offset - aligned)) = 2048 - (offset - aligned) := by omega
          have hgot : min (2048 - (offset - aligned)) (f.length - offset) = 2048 - (offset - aligned) := by omega
          rw [hmin, hgot]
          have hsame : (len - (2048 - (offset - aligned)) = 0 ∨
              SectorsComplete f (aligned + 2048) (len - (2048 - (offset - aligned)))) ↔
              (len = 0 ∨ SectorsComplete f offset len) := by
            unfold SectorsComplete
            have hend : aligned + 2048 + (len - (2048 - (offset - aligned))) = offset + len := by omega
            rw [hend]
            omega
          rw [if_congr hsame rfl rfl]
          split
          · have hpos : aligned + 2048 = offset + (2048 - (offset - aligned)) := by omega
            have hlen' : 2048 - (offset - aligned) + (len - (2048 - (offset - aligned))) = len := by omega
            rw [Option.map_some, hpos, File.read_append, hlen']
          · rfl

/-! ## Reading back -/

section
variable (d f)

/-- A CD-ROM is read from the base file only: then no overlay changes the range, or where a sector is not complete all
of it is zero. -/
def CdromSame (ofs len : Nat) : Prop :=
  if SectorsComplete f ofs len then ∀ i < len, f.byteAt (ofs + i) = d.byteAt f (ofs + i)
  else ∀ i < len, d.byteAt f (ofs + i) = 0#8

/-- The reads of `n` blocks that are right. -/
def Readable (ofs n : Nat) : Prop :=
  if d.isACdrom then d.CdromSame f ofs (512 * n) else d.OnlyEndShort f ofs n

end

def readInto (d : Diskimage) (f : File) (ofs : Nat) (buf : List Byte) : List Byte × Nat :=
  if d.isACdrom then accessCdrom f ofs buf else d.freadLoop f buf.length ofs buf

theorem internalAccess_read {buf : List Byte} (hf : d.f = some f) (hov : d.overlays ≠ []) (hlen : buf.length ≠ 0) :
    d.internalAccess false ofs buf =
      .ok (d, cleared (d.readInto f ofs buf).1 (d.readInto f ofs buf).2 buf.length, true) := by
  unfold internalAccess readInto freadHelper
  rw [if_neg hlen, hf]
  dsimp only
  rw [if_neg (by decide : ¬ false = true), if_neg hov]
  rfl

theorem eq_of_getD {l l' : List Byte} (hlen : l.length = l'.length) (h : ∀ i < l.length, l.getD i 0#8 = l'.getD i 0#8) :
    l = l' := by
  refine List.ext_getElem hlen fun i h1 h2 => ?_
  have hi := h i h1
  rwa [List.getD_eq_getElem _ _ h1, List.getD_eq_getElem _ _ h2] at hi

theorem readInto_right (hofs : 512 ∣ ofs) : (∀ buf : List Byte, buf.length = 512 * n →
      cleared (d.readInto f ofs buf).1 (d.readInto f ofs buf).2 (512 * n) = d.want f ofs n) ↔
    d.Readable f ofs n := by
  unfold Readable
  cases hcdrom : d.isACdrom with
  | false =>
    rw [if_neg (by decide), ← @freadLoop_right d f n ofs (512 * n) hofs (Nat.le_refl _)]
    refine forall_congr' fun buf => forall_congr' fun hlen => ?_
    rw [readInto, hcdrom, if_neg (by decide), hlen]
  | true =>
    rw [if_pos rfl]
    have hcleared : ∀ buf : List Byte, buf.length = 512 * n →
        cleared (d.readInto f ofs buf).1 (d.readInto f ofs buf).2 (512 * n) =
          if 512 * n = 0 ∨ SectorsComplete f ofs (512 * n) then f.read ofs (512 * n)
          else List.replicate (512 * n) 0#8 := by
      intro buf hlen
      rw [readInto, hcdrom, if_pos rfl, accessCdrom, hlen, cdromSectorSize,
        cdromLoop_spec f _ _ ofs (512 * n) (by omega) (by omega) (by omega) (Nat.le_refl _)]
      by_cases hc : 512 * n = 0 ∨ SectorsComplete f ofs (512 * n)
      · rw [if_pos hc, if_pos hc]
        simp [cleared, File.read, List.take_take]
      · rw [if_neg hc, if_neg hc]
        simp [cleared]
    have hsame : (if 512 * n = 0 ∨ SectorsComplete f ofs (512 * n) then f.read ofs (512 * n)
        else List.replicate (512 * n) 0#8) = d.want f ofs n ↔ d.CdromSame f ofs (512 * n) := by
      unfold CdromSame
      by_cases hn : 512 * n = 0
      · have hempty : f.read ofs (512 * n) = [] := by simp [hn, File.read]
        have hwant : d.want f ofs n = [] := List.length_eq_zero_iff.mp (length_want.trans hn)
        rw [if_pos (.inl hn), hempty, hwant, hn]
        simp
      · by_cases hc : SectorsComplete f ofs (512 * n)
        · have hlen : (f.read ofs (512 * n)).length = 512 * n := by
            unfold SectorsComplete at hc
            rw [File.length_read]
            omega
          rw [if_pos (.inr hc), if_pos hc]
          constructor
          · intro h i hi
            rw [← getD_want hofs hi, ← h, File.getD_read hi]
          · intro h
            refine eq_of_getD (hlen.trans length_want.symm) fun i hi => ?_
            rw [hlen] at hi
            rw [File.getD_read hi, getD_want hofs hi, h i hi]
        · rw [if_neg (fun h => h.elim hn hc), if_neg hc]
          constructor
          · intro h i hi
            rw [← getD_want hofs hi, ← h, List.getD_eq_getElem _ _ (by rwa [List.length_replicate]),
              List.getElem_replicate]
          · intro h
            refine eq_of_getD (List.length_replicate.trans length_want.symm) fun i hi => ?_
            rw [List.length_replicate] at hi
            rw [getD_want hofs hi, h i hi, List.getD_eq_getElem _ _ (by rwa [List.length_replicate]),
              List.getElem_replicate]
    rw [← hsame]
    constructor
    · intro h
      rw [← hcleared _ List.length_replicate]
      exact h (List.replicate (512 * n) 0#8) List.length_replicate
    · intro h buf hlen
      rw [hcleared buf hlen, h]

/-- A read of `n` blocks of `d'`, into any buffer, returns for every position the byte that the last of the writes `ws`
to the disk image `d` left there. -/
def ReadsLastWritten (d' d : Diskimage) (f : File) (ws : List (Nat × List Byte)) (ofs n : Nat) : Prop :=
  ∀ buf : List Byte, buf.length = 512 * n → ∃ out, d'.internalAccess false ofs buf = .ok (d', out, true) ∧
    out.length = 512 * n ∧ ∀ i < 512 * n, out.getD i 0#8 =
      (lastWritten ws (ofs + i)).getD (d.byteAt f (ofs + i))

/-- After any successful writes a read of whole blocks returns the byte of every position, whatever was in the buffer,
exactly when the range is readable. -/
theorem read_after_write_iff {d' : Diskimage} {ws : List (Nat × List Byte)} (hf : d.f = some f)
    (hov : d.overlays ≠ []) (hws : Writes d ws d') (hofs : 512 ∣ ofs) :
    ReadsLastWritten d' d f ws ofs n ↔ d'.Readable f ofs n := by
  obtain ⟨hf', hov', hbytes⟩ := byteAt_writes hf hov hws
  rw [← readInto_right hofs]
  refine forall_congr' fun buf => forall_congr' fun hlen => ?_
  have hwant : ∀ out : List Byte, (out.length = 512 * n ∧ ∀ i < 512 * n, out.getD i 0#8 =
      (lastWritten ws (ofs + i)).getD (d.byteAt f (ofs + i))) ↔ out = d'.want f ofs n := by
    intro out
    constructor
    · rintro ⟨hout, hi⟩
      refine eq_of_getD (hout.trans length_want.symm) fun i hlt => ?_
      rw [hi i (hout ▸ hlt), getD_want hofs (hout ▸ hlt), hbytes]
    · rintro rfl
      exact ⟨length_want, fun i hlt => by rw [getD_want hofs hlt, hbytes]⟩
  by_cases hempty : buf.length = 0
  · have hn : n = 0 := by omega
    subst hn
    have hnil : buf = [] := List.length_eq_zero_iff.mp hempty
    subst hnil
    refine ⟨fun _ => ?_, fun _ => ⟨[], by simp [internalAccess], rfl, by simp⟩⟩
    have hread : d'.readInto f ofs [] = ([], 0) := by
      unfold readInto
      split
      · simp [accessCdrom, cdromLoop]
      · rfl
    rw [hread]
    rfl
  · rw [internalAccess_read hf' hov' hempty, hlen]
    constructor
    · rintro ⟨out, hout, hright⟩
      obtain ⟨-, hread⟩ := Prod.mk.inj (Except.ok.inj hout)
      rw [(Prod.mk.inj hread).1]
      exact (hwant out).mp hright
    · intro h
      exact ⟨_, rfl, (hwant _).mpr h⟩

def oneBlock : Diskimage := ⟨some (List.replicate 512 0x42#8), [⟨[], []⟩], true, false⟩

/-- `oneBlock` after a write of the block at an offset. -/
def oneBlockWritten (data : File) (bitmap : Byte) : Diskimage :=
  ⟨some (List.replicate 512 0x42#8), [⟨data, [bitmap]⟩], true, false⟩

theorem oneBlock_writes_first : Writes oneBlock [(0, List.replicate 512 0x41#8)]
    (oneBlockWritten (List.replicate 512 0x41#8) 1#8) :=
  ⟨oneBlockWritten (List.replicate 512 0x41#8) 1#8, by decide +kernel, rfl⟩

/-- The first block is written, and read together with the missing one after it. -/
theorem read_after_write_first :
    ReadsLastWritten (oneBlockWritten (List.replicate 512 0x41#8) 1#8) oneBlock (List.replicate 512 0x42#8)
      [(0, List.replicate 512 0x41#8)] 0 2 := by
  refine (read_after_write_iff rfl (by decide) oneBlock_writes_first (by decide : 512 ∣ 0)).mpr ?_
  intro i j hij hj hshort
  have hi : i = 0 := by omega
  subst hi
  have hfull : ((oneBlockWritten (List.replicate 512 0x41#8) 1#8).block (List.replicate 512 0x42#8)
      (0 + 512 * 0)).length = 512 := by decide +kernel
  omega

/-- The third block is written and read back together with the first one and the missing second one. The block that
was written reads as zeros, and the second one as what was in the buffer. -/
theorem not_read_after_write : ∃ d' out, Writes oneBlock [(1024, List.replicate 512 0x41#8)] d' ∧
    d'.internalAccess false 0 (List.replicate 1536 0xff#8) = .ok (d', out, true) ∧
    lastWritten [(1024, List.replicate 512 0x41#8)] 1024 = some 0x41#8 ∧ out.getD 1024 0#8 = 0x00#8 ∧
    lastWritten [(1024, List.replicate 512 0x41#8)] 512 = none ∧
    oneBlock.byteAt (List.replicate 512 0x42#8) 512 = 0x00#8 ∧ out.getD 512 0#8 = 0xff#8 :=
  ⟨oneBlockWritten (List.replicate 1024 0x00#8 ++ List.replicate 512 0x41#8) 4#8,
    List.replicate 512 0x42#8 ++ List.replicate 512 0xff#8 ++ List.replicate 512 0x00#8,
    ⟨_, by decide +kernel, rfl⟩, by decide +kernel, by decide +kernel, by decide +kernel, by decide +kernel,
    by decide +kernel, by decide +kernel⟩

end Diskimage

end Gxemul.Disk
