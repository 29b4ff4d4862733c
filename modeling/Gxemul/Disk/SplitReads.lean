import Mathlib.Data.Nat.Count
import Gxemul.Disk.Content

/- Reads in two parts.

   With overlays a read takes its first block from the place of its offset, up to 512
   bytes even where the offset is not aligned, and each later one from the start of a
   block (`placeOf`): the byte at `i` of the buffer comes from `ofs + i` if the offset
   is aligned, and behind the first 512 bytes it does not otherwise. A CD-ROM's read is
   all zeros if one of its sectors is not complete. `reads_compose_iff` says for which
   ranges that makes no difference wherever they are split. -/
namespace Gxemul.Disk

open Lib (Byte File)

/-! ## Counting -/

section
variable {p : Nat → Prop} [DecidablePred p] {n i : Nat}

theorem count_tail_eq_zero (hcount : Nat.count p n ≤ Nat.count p i) : ∀ k, i ≤ k → k < n → ¬ p k := by
  intro k hik hkn hp
  have hmore : Nat.count p i < Nat.count p (k + 1) := by
    have hmono := Nat.count_monotone p hik
    rw [Nat.count_succ, if_pos hp]
    omega
  have hmono := Nat.count_monotone p (show k + 1 ≤ n from hkn)
  omega

theorem iff_lt_count (hall : ∀ i < Nat.count p n, p i) (hi : i < n) : p i ↔ i < Nat.count p n := by
  refine ⟨fun hp => ?_, hall i⟩
  by_contra hge
  have hprefix : Nat.count p (Nat.count p n) = Nat.count p n := Nat.count_iff_forall.mpr hall
  exact count_tail_eq_zero hprefix.ge i (by omega) hi hp

theorem of_lt_count (hdown : ∀ i < n, ∀ j < i, p i → p j) (hi : i < Nat.count p n) : p i := by
  by_contra hnot
  have hle : Nat.count p n ≤ n := Nat.count_le p
  have hnone : ∀ k, i ≤ k → k < n → ¬ p k := by
    intro k hik hkn hp
    rcases Nat.eq_or_lt_of_le hik with rfl | hlt
    · exact hnot hp
    · exact hnot (hdown k hkn i hlt hp)
  have hsplit : Nat.count p n = Nat.count p i + Nat.count (fun k => p (i + k)) (n - i) := by
    rw [← Nat.count_add, Nat.add_sub_cancel' (by omega)]
  have hrest : Nat.count (fun k => p (i + k)) (n - i) = 0 :=
    Nat.count_iff_forall_not.mpr fun k hk => hnone (i + k) (by omega) (by omega)
  have hfirst : Nat.count p i ≤ i := Nat.count_le p
  omega

end

namespace Diskimage

/-! ## What the loop takes -/

/-- Where the byte at `i` of the buffer comes from. -/
def placeOf (ofs i : Nat) : Nat := if i < 512 then ofs + i else ofs / 512 * 512 + i

section
variable (d : Diskimage) (f : File) (ofs : Nat)

/-- The file that it comes from: one file for the first 512 bytes. -/
def fileOf (i : Nat) : File := d.findFile f (if i < 512 then ofs else ofs / 512 * 512 + i)

def There (i : Nat) : Prop := placeOf ofs i < (d.fileOf f ofs i).length

instance : DecidablePred (d.There f ofs) := fun _ => inferInstanceAs (Decidable (_ < _))

def taken (i : Nat) : Byte := (d.fileOf f ofs i).byteAt (placeOf ofs i)

/-- The bytes that a read with overlays returns in a buffer. What its files are short of is cleared at the end. -/
def answer (buf : List Byte) : List Byte :=
  (List.range buf.length).map fun i =>
    if i < Nat.count (d.There f ofs) buf.length then
      if d.There f ofs i then d.taken f ofs i else buf.getD i 0#8
    else 0#8

end

variable {d : Diskimage} {f : File} {ofs len i : Nat} {buf : List Byte}

theorem next_block (ofs : Nat) : (ofs ||| (overlayBlockSize - 1)) + 1 = ofs / 512 * 512 + 512 := by
  have hor : ofs ||| 511 = 2 ^ 9 * (ofs / 512) + 511 := by
    apply Nat.eq_of_testBit_eq
    intro j
    rw [Nat.testBit_or, Nat.testBit_two_pow_mul_add _ (by decide : 511 < 2 ^ 9)]
    split
    · rename_i hj
      have hbit : Nat.testBit 511 j = true := by
        rw [show 511 = 2 ^ 9 - 1 from rfl, Nat.testBit_two_pow_sub_one]
        exact decide_eq_true hj
      rw [hbit, Bool.or_true]
    · rename_i hj
      have hbit : Nat.testBit 511 j = false := by
        rw [show 511 = 2 ^ 9 - 1 from rfl, Nat.testBit_two_pow_sub_one]
        exact decide_eq_false hj
      rw [hbit, Bool.or_false, show 512 = 2 ^ 9 from rfl, Nat.testBit_div_two_pow, Nat.sub_add_cancel (by omega)]
  show (ofs ||| 511) + 1 = _
  omega

theorem there_first (hi : i < 512) : d.There f ofs i ↔ ofs + i < (d.findFile f ofs).length := by
  unfold There placeOf fileOf
  rw [if_pos hi, if_pos hi]

theorem there_rest : d.There f ofs (512 + i) ↔ d.There f (ofs / 512 * 512 + 512) i := by
  have hplace : placeOf ofs (512 + i) = placeOf (ofs / 512 * 512 + 512) i := by
    unfold placeOf
    split <;> split <;> omega
  have hfile : d.fileOf f ofs (512 + i) = d.fileOf f (ofs / 512 * 512 + 512) i := by
    unfold fileOf
    rw [if_neg (by omega)]
    apply findFile_block
    split <;> omega
  unfold There
  rw [hplace, hfile]

theorem taken_rest : d.taken f ofs (512 + i) = d.taken f (ofs / 512 * 512 + 512) i := by
  have hplace : placeOf ofs (512 + i) = placeOf (ofs / 512 * 512 + 512) i := by
    unfold placeOf
    split <;> split <;> omega
  have hfile : d.fileOf f ofs (512 + i) = d.fileOf f (ofs / 512 * 512 + 512) i := by
    unfold fileOf
    rw [if_neg (by omega)]
    apply findFile_block
    split <;> omega
  unfold taken
  rw [hplace, hfile]

theorem taken_of_not_there (h : ¬ d.There f ofs i) : d.taken f ofs i = 0#8 :=
  List.getD_eq_default _ _ (Nat.not_lt.mp h)

theorem count_first {n : Nat} (hn : n ≤ 512) :
    Nat.count (d.There f ofs) n = ((d.findFile f ofs).read ofs n).length := by
  rw [File.length_read]
  induction n with
  | zero => simp
  | succ n ih =>
    rw [Nat.count_succ, ih (by omega), if_congr (there_first (by omega)) rfl rfl]
    split <;> omega

theorem freadLoop_spec : ∀ {fuel ofs : Nat} {buf : List Byte}, buf.length ≤ fuel →
    (d.freadLoop f fuel ofs buf).1.length = buf.length ∧
    (∀ i < buf.length, (d.freadLoop f fuel ofs buf).1.getD i 0#8 =
      if d.There f ofs i then d.taken f ofs i else buf.getD i 0#8) ∧
    (d.freadLoop f fuel ofs buf).2 = Nat.count (d.There f ofs) buf.length := by
  intro fuel
  induction fuel with
  | zero =>
    intro ofs buf hlen
    have hnil : buf = [] := List.length_eq_zero_iff.mp (by omega)
    subst hnil
    exact ⟨rfl, fun i hi => absurd hi (Nat.not_lt_zero i), rfl⟩
  | succ fuel ih =>
    intro ofs buf hlen
    rw [freadLoop]
    by_cases hempty : buf.length = 0
    · have hnil : buf = [] := List.length_eq_zero_iff.mp hempty
      subst hnil
      exact ⟨rfl, fun i hi => absurd hi (Nat.not_lt_zero i), rfl⟩
    · obtain ⟨h1, h2, h3⟩ := @ih (ofs / 512 * 512 + 512) (buf.drop 512) (by rw [List.length_drop]; omega)
      have hgot := @count_first d f ofs _ (Nat.min_le_right buf.length 512)
      have hle : ((d.findFile f ofs).read ofs (min buf.length 512)).length ≤ min buf.length 512 := by
        rw [File.length_read]
        exact Nat.min_le_left ..
      rw [if_neg hempty, next_block]
      simp only [overlayBlockSize]
      have hfirst : ((d.findFile f ofs).read ofs (min buf.length 512) ++
          (buf.take 512).drop ((d.findFile f ofs).read ofs (min buf.length 512)).length).length =
          min buf.length 512 := by
        rw [List.length_append, List.length_drop, List.length_take]
        omega
      refine ⟨?_, fun i hi => ?_, ?_⟩
      · rw [List.length_append, hfirst, h1, List.length_drop]
        omega
      · rw [List.getD_eq_getElem?_getD]
        by_cases hblock : i < 512
        · rw [List.getElem?_append_left (by rw [hfirst]; omega), if_congr (there_first hblock) rfl rfl]
          by_cases hin : i < ((d.findFile f ofs).read ofs (min buf.length 512)).length
          · have hthere : ofs + i < (d.findFile f ofs).length := by
              rw [File.length_read] at hin
              omega
            rw [List.getElem?_append_left hin, if_pos hthere, ← List.getD_eq_getElem?_getD,
              File.getD_read (by omega), taken, fileOf, placeOf, if_pos hblock, if_pos hblock]
          · have hshort : ¬ ofs + i < (d.findFile f ofs).length := by
              rw [File.length_read] at hin
              omega
            rw [List.getElem?_append_right (by omega), if_neg hshort, List.getElem?_drop, List.getElem?_take,
              if_pos (by omega), List.getD_eq_getElem?_getD]
            congr 2
            omega
        · obtain ⟨k, rfl⟩ : ∃ k, i = 512 + k := ⟨i - 512, by omega⟩
          have hk : k < (buf.drop 512).length := by
            rw [List.length_drop]
            omega
          have hindex : 512 + k - min buf.length 512 = k := by omega
          rw [List.getElem?_append_right (by rw [hfirst]; omega), hfirst, hindex, ← List.getD_eq_getElem?_getD, h2 k hk,
            if_congr there_rest rfl rfl, taken_rest]
          congr 1
          rw [List.getD_eq_getElem?_getD, List.getD_eq_getElem?_getD, List.getElem?_drop]
      · rw [h3, ← hgot, List.length_drop]
        by_cases hblock : buf.length ≤ 512
        · rw [Nat.min_eq_left hblock, Nat.sub_eq_zero_of_le hblock, Nat.count_zero, Nat.add_zero]
        · obtain ⟨k, hk⟩ : ∃ k, buf.length = 512 + k := ⟨buf.length - 512, by omega⟩
          have hrest : Nat.count (d.There f (ofs / 512 * 512 + 512)) k =
              Nat.count (fun j => d.There f ofs (512 + j)) k := by
            apply le_antisymm
            · exact Nat.count_mono_left fun j _ => there_rest.mpr
            · exact Nat.count_mono_left fun j _ => there_rest.mp
          rw [hk, Nat.min_eq_right (by omega), Nat.count_add, Nat.add_sub_cancel_left, hrest]

/-! ## One read -/

@[simp] theorem length_answer : (d.answer f ofs buf).length = buf.length := by
  simp [answer]

theorem getElem?_answer (hi : i < buf.length) : (d.answer f ofs buf)[i]? = some
    (if i < Nat.count (d.There f ofs) buf.length then if d.There f ofs i then d.taken f ofs i else buf.getD i 0#8
    else 0#8) := by
  rw [answer, List.getElem?_map, List.getElem?_range hi]
  rfl

theorem answer_last (hlen : buf.length = i + 1) : (d.answer f ofs buf)[i]? = some
    (if i < Nat.count (d.There f ofs) (i + 1) then d.taken f ofs i else 0#8) := by
  rw [getElem?_answer (by omega), hlen]
  split
  · have hle : Nat.count (d.There f ofs) (i + 1) ≤ i + 1 := Nat.count_le _
    have hall : Nat.count (d.There f ofs) (i + 1) = i + 1 := by omega
    rw [if_pos (Nat.count_iff_forall.mp hall i (by omega))]
  · rfl

theorem internalAccess_overlays (hf : d.f = some f) (hov : d.overlays ≠ []) (hcdrom : d.isACdrom = false) :
    d.internalAccess false ofs buf = .ok (d, d.answer f ofs buf, true) := by
  by_cases hempty : buf.length = 0
  · have hnil : buf = [] := List.length_eq_zero_iff.mp hempty
    rw [hnil, internalAccess, if_pos List.length_nil]
    rfl
  · obtain ⟨h1, h2, h3⟩ := @freadLoop_spec d f _ ofs _ (Nat.le_refl buf.length)
    rw [internalAccess_read hf hov hempty, readInto, if_neg (by rw [hcdrom]; decide)]
    refine congrArg (fun out => Except.ok (d, out, true)) (List.ext_getElem? fun i => ?_)
    rw [cleared, h3]
    by_cases hi : i < buf.length
    · rw [getElem?_answer hi]
      by_cases hin : i < Nat.count (d.There f ofs) buf.length
      · have hbyte := h2 i hi
        rw [List.getD_eq_getElem?_getD, List.getElem?_eq_getElem (by omega), Option.getD_some] at hbyte
        rw [List.getElem?_append_left (by rw [List.length_take]; omega), List.getElem?_take, if_pos hin, if_pos hin,
          List.getElem?_eq_getElem (by omega), hbyte]
      · have hlen : ((d.freadLoop f buf.length ofs buf).1.take (Nat.count (d.There f ofs) buf.length)).length =
            Nat.count (d.There f ofs) buf.length := by
          rw [List.length_take]
          omega
        rw [List.getElem?_append_right (by omega), if_neg hin, List.getElem?_replicate, if_pos (by omega)]
    · have hend : ((d.freadLoop f buf.length ofs buf).1.take (Nat.count (d.There f ofs) buf.length) ++
          List.replicate (buf.length - Nat.count (d.There f ofs) buf.length) 0#8).length = buf.length := by
        rw [List.length_append, List.length_take, List.length_replicate]
        omega
      rw [List.getElem?_eq_none (by omega), List.getElem?_eq_none (by rw [length_answer]; omega)]

theorem internalAccess_cdrom (hf : d.f = some f) (hcdrom : d.isACdrom = true) :
    d.internalAccess false ofs buf = .ok (d, if buf.length = 0 ∨ SectorsComplete f ofs buf.length
      then f.read ofs buf.length else List.replicate buf.length 0#8, true) := by
  by_cases hempty : buf.length = 0
  · have hnil : buf = [] := List.length_eq_zero_iff.mp hempty
    rw [hnil, internalAccess, if_pos List.length_nil, if_pos (Or.inl List.length_nil)]
    simp [File.read]
  · rw [internalAccess, if_neg hempty, hf]
    dsimp only
    rw [if_neg Bool.false_ne_true, if_pos hcdrom, accessCdrom, cdromSectorSize,
      cdromLoop_spec f _ _ ofs buf.length (by omega) (by omega) (by omega) (Nat.le_refl _)]
    by_cases hc : buf.length = 0 ∨ SectorsComplete f ofs buf.length
    · rw [if_pos hc, if_pos hc]
      simp [File.read, List.take_take]
    · rw [if_neg hc, if_neg hc]
      simp

theorem internalAccess_base (hf : d.f = some f) (hov : d.overlays = []) (hcdrom : d.isACdrom = false) :
    d.internalAccess false ofs buf = .ok (d, d.range ofs buf.length, true) := by
  by_cases hempty : buf.length = 0
  · have hnil : buf = [] := List.length_eq_zero_iff.mp hempty
    rw [hnil, internalAccess, if_pos List.length_nil]
    rfl
  · rw [← freadHelper_base hf hov, internalAccess, if_neg hempty, hf]
    dsimp only
    rw [if_neg Bool.false_ne_true, if_neg (by rw [hcdrom]; decide)]
    rfl

/-! ## Reads in two parts -/

/-- A read of `a` and `n` bytes, into any buffer, returns the bytes that the two reads return. -/
def Composes (d : Diskimage) (ofs a n : Nat) : Prop :=
  ∀ buf₁ buf₂ : List Byte, buf₁.length = a → buf₂.length = n → ∃ out₁ out₂ ok ok₁ ok₂,
    d.internalAccess false ofs (buf₁ ++ buf₂) = .ok (d, out₁ ++ out₂, ok) ∧
    d.internalAccess false ofs buf₁ = .ok (d, out₁, ok₁) ∧
    d.internalAccess false (ofs + a) buf₂ = .ok (d, out₂, ok₂)

def ReadsCompose (d : Diskimage) (ofs len : Nat) : Prop := ∀ a ≤ len, d.Composes ofs a (len - a)

/-- A read, into any buffer, returns the bytes at their own offsets. -/
def Right (d : Diskimage) (ofs len : Nat) : Prop :=
  ∀ buf : List Byte, buf.length = len → d.internalAccess false ofs buf = .ok (d, d.range ofs len, true)

/-- The places that a read with overlays looks at have the bytes of the range, and no byte is missing before one that
is there. -/
def Served (d : Diskimage) (f : File) (ofs len : Nat) : Prop :=
  (∀ i < len, ∀ j < i, d.There f ofs i → d.There f ofs j) ∧ ∀ i < len, d.taken f ofs i = d.byteAt f (ofs + i)

/-- The ranges for which it makes no difference where they are split. Without overlays that is any. On a CD-ROM all
sectors are complete, or those that are have only zeros of the range. With overlays each part is served. -/
def Composable (d : Diskimage) (ofs len : Nat) : Prop :=
  match d.f with
  | none => True
  | some f =>
    if d.isACdrom then
      SectorsComplete f ofs len ∨ ∀ i < len, ((ofs + i) / 2048 + 1) * 2048 ≤ f.length → f.byteAt (ofs + i) = 0#8
    else d.overlays = [] ∨ ∀ a ≤ len, d.Served f ofs a ∧ d.Served f (ofs + a) (len - a)

theorem range_append {a n : Nat} : d.range ofs a ++ d.range (ofs + a) n = d.range ofs (a + n) := by
  unfold range
  rw [List.range_add, List.map_append, List.map_map]
  congr 1
  refine List.map_congr_left fun i _ => ?_
  rw [Function.comp_apply, Nat.add_assoc]

theorem Right.composes {a n : Nat} (hwhole : d.Right ofs (a + n)) (h₁ : d.Right ofs a) (h₂ : d.Right (ofs + a) n) :
    d.Composes ofs a n := by
  intro buf₁ buf₂ hlen₁ hlen₂
  refine ⟨d.range ofs a, d.range (ofs + a) n, true, true, true, ?_, h₁ buf₁ hlen₁, h₂ buf₂ hlen₂⟩
  rw [range_append]
  exact hwhole _ (by rw [List.length_append, hlen₁, hlen₂])

section
variable (hf : d.f = some f) (hov : d.overlays ≠ []) (hcdrom : d.isACdrom = false)
include hf hov hcdrom

theorem right_iff_answer : d.Right ofs len ↔
    ∀ buf : List Byte, buf.length = len → ∀ i < len, (d.answer f ofs buf)[i]? = some (d.byteAt f (ofs + i)) := by
  have hrange : ∀ i < len, (d.range ofs len)[i]? = some (d.byteAt f (ofs + i)) := by
    intro i hi
    rw [range, List.getElem?_map, List.getElem?_range hi, Option.map_some, content_eq hf]
  refine forall_congr' fun buf => forall_congr' fun hlen => ?_
  rw [internalAccess_overlays hf hov hcdrom]
  constructor
  · intro h i hi
    obtain ⟨-, hout⟩ := Prod.mk.inj (Except.ok.inj h)
    rw [(Prod.mk.inj hout).1]
    exact hrange i hi
  · intro h
    refine congrArg (fun out => Except.ok (d, out, true)) (List.ext_getElem? fun i => ?_)
    by_cases hi : i < len
    · rw [h i hi, hrange i hi]
    · rw [List.getElem?_eq_none (by rw [length_answer]; omega), List.getElem?_eq_none (by rw [length_range]; omega)]

theorem right_iff_served : d.Right ofs len ↔ d.Served f ofs len := by
  rw [right_iff_answer hf hov hcdrom]
  constructor
  · intro h
    -- What is not there before the count is left as it was in the buffer.
    have hall : ∀ i < Nat.count (d.There f ofs) len, d.There f ofs i := by
      intro i hi
      by_contra hmissing
      have hlen : i < len := Nat.lt_of_lt_of_le hi (Nat.count_le _)
      have hbyte := h (List.replicate len (d.byteAt f (ofs + i) + 1#8)) List.length_replicate i hlen
      rw [getElem?_answer (by rw [List.length_replicate]; exact hlen), List.length_replicate, if_pos hi,
        if_neg hmissing, List.getD_eq_getElem?_getD, List.getElem?_replicate, if_pos hlen] at hbyte
      have hsame : d.byteAt f (ofs + i) + 1#8 = d.byteAt f (ofs + i) := Option.some.inj hbyte
      bv_omega
    constructor
    · intro i hi j hj hthere
      rw [iff_lt_count hall hi] at hthere
      exact hall j (by omega)
    · intro i hi
      have hbyte := h (List.replicate len 0#8) List.length_replicate i hi
      rw [getElem?_answer (by rw [List.length_replicate]; exact hi), List.length_replicate] at hbyte
      have hin := iff_lt_count hall hi
      split at hbyte
      · rw [if_pos (hin.mpr ‹_›)] at hbyte
        exact Option.some.inj hbyte
      · rw [taken_of_not_there fun hthere => ‹¬ _› (hin.mp hthere)]
        exact Option.some.inj hbyte
  · rintro ⟨hdown, hbytes⟩ buf hlen i hi
    have hall : ∀ i < Nat.count (d.There f ofs) len, d.There f ofs i := fun i hi => of_lt_count hdown hi
    have hin := iff_lt_count hall hi
    rw [getElem?_answer (by omega), hlen, ← hbytes i hi]
    split
    · rw [if_pos (hin.mpr ‹_›)]
    · rw [taken_of_not_there fun hthere => ‹¬ _› (hin.mp hthere)]

theorem answer_of_readsCompose (h : d.ReadsCompose ofs len) (hlen : buf.length = len) {i : Nat} (hi : i < len) :
    (d.answer f ofs buf)[i]? = (d.answer f ofs (buf.take (i + 1)))[i]? ∧
    (d.answer f ofs buf)[i]? = (d.answer f (ofs + i) (buf.drop i))[0]? := by
  have hsplit : ∀ a ≤ len, d.answer f ofs buf = d.answer f ofs (buf.take a) ++ d.answer f (ofs + a) (buf.drop a) := by
    intro a ha
    obtain ⟨out₁, out₂, ok, ok₁, ok₂, hwhole, hfirst, hsecond⟩ := h a ha (buf.take a) (buf.drop a)
      (by rw [List.length_take]; omega) (by rw [List.length_drop]; omega)
    rw [List.take_append_drop, internalAccess_overlays hf hov hcdrom] at hwhole
    rw [internalAccess_overlays hf hov hcdrom] at hfirst hsecond
    obtain ⟨-, hwhole⟩ := Prod.mk.inj (Except.ok.inj hwhole)
    obtain ⟨-, hfirst⟩ := Prod.mk.inj (Except.ok.inj hfirst)
    obtain ⟨-, hsecond⟩ := Prod.mk.inj (Except.ok.inj hsecond)
    rw [(Prod.mk.inj hwhole).1, (Prod.mk.inj hfirst).1, (Prod.mk.inj hsecond).1]
  constructor
  · rw [hsplit (i + 1) hi, List.getElem?_append_left (by rw [length_answer, List.length_take]; omega)]
  · have hfirst : (d.answer f ofs (buf.take i)).length = i := by
      rw [length_answer, List.length_take]
      omega
    rw [hsplit i (by omega), List.getElem?_append_right (by omega), hfirst, Nat.sub_self]

theorem right_of_readsCompose (h : d.ReadsCompose ofs len) : d.Right ofs len := by
  rw [right_iff_answer hf hov hcdrom]
  intro buf hlen i hi
  obtain ⟨b, hb⟩ : ∃ b, ∀ buf : List Byte, buf.length = len → (d.answer f ofs buf)[i]? = some b := by
    refine ⟨if i < Nat.count (d.There f ofs) (i + 1) then d.taken f ofs i else 0#8, fun buf hlen => ?_⟩
    rw [(answer_of_readsCompose hf hov hcdrom h hlen hi).1]
    exact answer_last (by rw [List.length_take]; omega)
  have hfirst : ∀ buf : List Byte, buf.length = len → b =
      if 0 < Nat.count (d.There f (ofs + i)) (len - i) then
        if d.There f (ofs + i) 0 then d.taken f (ofs + i) 0 else buf.getD i 0#8
      else 0#8 := by
    intro buf hlen
    have hdrop : (buf.drop i).length = len - i := by
      rw [List.length_drop]
      omega
    have hbyte := (answer_of_readsCompose hf hov hcdrom h hlen hi).2
    rw [hb buf hlen, getElem?_answer (by omega), hdrop] at hbyte
    rw [Option.some.inj hbyte]
    simp only [List.getD_eq_getElem?_getD, List.getElem?_drop, Nat.add_zero]
  rw [hb buf hlen]
  have hown : d.taken f (ofs + i) 0 = d.byteAt f (ofs + i) := rfl
  have hbyte := hfirst buf hlen
  rw [← hown]
  by_cases hthere : d.There f (ofs + i) 0
  · have hcount : 0 < Nat.count (d.There f (ofs + i)) (len - i) := by
      rw [Nat.pos_iff_ne_zero, Nat.count_ne_iff_exists]
      exact ⟨0, by omega, hthere⟩
    rw [if_pos hcount, if_pos hthere] at hbyte
    rw [hbyte]
  · rw [taken_of_not_there hthere]
    by_cases hcount : 0 < Nat.count (d.There f (ofs + i)) (len - i)
    · -- The byte would be that of any buffer.
      have hother := hfirst (List.replicate len (b + 1#8)) List.length_replicate
      rw [if_pos hcount, if_neg hthere, List.getD_eq_getElem?_getD, List.getElem?_replicate, if_pos hi] at hother
      have hsame : b = b + 1#8 := hother
      bv_omega
    · rw [if_neg hcount] at hbyte
      rw [hbyte]

theorem readsCompose_overlays : d.ReadsCompose ofs len ↔
    ∀ a ≤ len, d.Served f ofs a ∧ d.Served f (ofs + a) (len - a) := by
  constructor
  · intro h a ha
    rw [← right_iff_served hf hov hcdrom, ← right_iff_served hf hov hcdrom]
    have hwhole := right_of_readsCompose hf hov hcdrom h
    have hparts : ∀ buf₁ buf₂ : List Byte, buf₁.length = a → buf₂.length = len - a →
        d.answer f ofs buf₁ = d.range ofs a ∧ d.answer f (ofs + a) buf₂ = d.range (ofs + a) (len - a) := by
      intro buf₁ buf₂ hlen₁ hlen₂
      obtain ⟨out₁, out₂, ok, ok₁, ok₂, hall, hfirst, hsecond⟩ := h a ha buf₁ buf₂ hlen₁ hlen₂
      rw [hwhole _ (by rw [List.length_append]; omega)] at hall
      rw [internalAccess_overlays hf hov hcdrom] at hfirst hsecond
      obtain ⟨-, hall⟩ := Prod.mk.inj (Except.ok.inj hall)
      obtain ⟨-, hfirst⟩ := Prod.mk.inj (Except.ok.inj hfirst)
      obtain ⟨-, hsecond⟩ := Prod.mk.inj (Except.ok.inj hsecond)
      have hsum : len = a + (len - a) := by omega
      have heq : d.answer f ofs buf₁ ++ d.answer f (ofs + a) buf₂ = d.range ofs a ++ d.range (ofs + a) (len - a) := by
        rw [range_append, ← hsum, (Prod.mk.inj hall).1, (Prod.mk.inj hfirst).1, (Prod.mk.inj hsecond).1]
      exact List.append_inj heq (by rw [length_answer, length_range, hlen₁])
    constructor
    · intro buf hlen
      rw [internalAccess_overlays hf hov hcdrom, (hparts buf (List.replicate (len - a) 0#8) hlen
        List.length_replicate).1]
    · intro buf hlen
      rw [internalAccess_overlays hf hov hcdrom, (hparts (List.replicate a 0#8) buf List.length_replicate hlen).2]
  · intro h a ha
    have hwhole : d.Right ofs (a + (len - a)) := by
      have hserved := (h len (Nat.le_refl len)).1
      rw [Nat.add_sub_cancel' ha]
      exact (right_iff_served hf hov hcdrom).mpr hserved
    obtain ⟨h₁, h₂⟩ := h a ha
    exact hwhole.composes ((right_iff_served hf hov hcdrom).mpr h₁) ((right_iff_served hf hov hcdrom).mpr h₂)

end

theorem sectorsComplete_succ : SectorsComplete f ofs (i + 1) ↔ ((ofs + i) / 2048 + 1) * 2048 ≤ f.length := by
  have hend : (ofs + (i + 1) + 2047) / 2048 = (ofs + i) / 2048 + 1 := by omega
  unfold SectorsComplete
  rw [hend]

theorem readsCompose_cdrom (hf : d.f = some f) (hcdrom : d.isACdrom = true) : d.ReadsCompose ofs len ↔
    SectorsComplete f ofs len ∨ ∀ i < len, ((ofs + i) / 2048 + 1) * 2048 ≤ f.length → f.byteAt (ofs + i) = 0#8 := by
  have hread : ∀ a n, (f.read a n).length = min n (f.length - a) := fun _ _ => File.length_read
  constructor
  · intro h
    by_cases hcomplete : SectorsComplete f ofs len
    · exact Or.inl hcomplete
    · -- The read up to a byte in a complete sector returns that byte, and the whole read zeros.
      refine Or.inr fun i hi hsector => ?_
      obtain ⟨out₁, out₂, ok, ok₁, ok₂, hwhole, hfirst, -⟩ := h (i + 1) hi (List.replicate (i + 1) 0#8)
        (List.replicate (len - (i + 1)) 0#8) List.length_replicate List.length_replicate
      have hlen : (List.replicate (i + 1) 0#8 ++ List.replicate (len - (i + 1)) 0#8).length = len := by
        rw [List.length_append, List.length_replicate, List.length_replicate]
        omega
      have hfits : SectorsComplete f ofs (i + 1) := sectorsComplete_succ.mpr hsector
      rw [internalAccess_cdrom hf hcdrom, hlen, if_neg (fun h => h.elim (by omega) hcomplete)] at hwhole
      rw [internalAccess_cdrom hf hcdrom, List.length_replicate, if_pos (Or.inr hfits)] at hfirst
      obtain ⟨-, hwhole⟩ := Prod.mk.inj (Except.ok.inj hwhole)
      obtain ⟨-, hfirst⟩ := Prod.mk.inj (Except.ok.inj hfirst)
      have hzeros := (Prod.mk.inj hwhole).1
      rw [← (Prod.mk.inj hfirst).1] at hzeros
      have hbyte := congrArg (fun l : List Byte => l.getD i 0#8) hzeros
      simp only [List.getD_eq_getElem?_getD] at hbyte
      rw [List.getElem?_append_left (by rw [hread]; omega), List.getElem?_replicate, if_pos hi,
        ← List.getD_eq_getElem?_getD, File.getD_read (by omega)] at hbyte
      exact hbyte.symm
  · intro h a ha buf₁ buf₂ hlen₁ hlen₂
    have hlen : (buf₁ ++ buf₂).length = len := by
      rw [List.length_append]
      omega
    rw [internalAccess_cdrom hf hcdrom, internalAccess_cdrom hf hcdrom, internalAccess_cdrom hf hcdrom, hlen, hlen₁,
      hlen₂]
    refine ⟨_, _, true, true, true, ?_, rfl, rfl⟩
    refine congrArg (fun out => Except.ok (d, out, true)) ?_
    by_cases hcomplete : len = 0 ∨ SectorsComplete f ofs len
    · have hfirst : a = 0 ∨ SectorsComplete f ofs a := by
        unfold SectorsComplete at hcomplete ⊢
        omega
      have hsecond : len - a = 0 ∨ SectorsComplete f (ofs + a) (len - a) := by
        unfold SectorsComplete at hcomplete ⊢
        omega
      rw [if_pos hcomplete, if_pos hfirst, if_pos hsecond, File.read_append, Nat.add_sub_cancel' ha]
    · have hzero := h.resolve_left fun hc => hcomplete (Or.inr hc)
      -- A first part without an incomplete sector has zeros only.
      have hfirst : (if a = 0 ∨ SectorsComplete f ofs a then f.read ofs a else List.replicate a 0#8) =
          List.replicate a 0#8 := by
        split
        · rename_i hfits
          unfold SectorsComplete at hfits
          refine eq_of_getD (by rw [hread, List.length_replicate]; omega) fun i hi => ?_
          rw [hread] at hi
          rw [File.getD_read (by omega), hzero i (by omega) (by omega), List.getD_eq_getElem?_getD,
            List.getElem?_replicate, if_pos (by omega)]
          rfl
        · rfl
      have hsecond : (if len - a = 0 ∨ SectorsComplete f (ofs + a) (len - a) then f.read (ofs + a) (len - a)
          else List.replicate (len - a) 0#8) = List.replicate (len - a) 0#8 := by
        split
        · rename_i hfits
          have hend : len - a = 0 := by
            unfold SectorsComplete at hfits hcomplete
            omega
          rw [hend]
          simp [File.read]
        · rfl
      rw [if_neg hcomplete, hfirst, hsecond, List.replicate_append_replicate, Nat.add_sub_cancel' ha]

/-- Reads of a range compose wherever it is split, exactly when the range is composable. -/
theorem reads_compose_iff (d : Diskimage) (ofs len : Nat) : d.ReadsCompose ofs len ↔ d.Composable ofs len := by
  unfold Composable
  cases hf : d.f with
  | none =>
    -- Nothing is read: the buffer stays as it is.
    have hnone : ∀ (ofs : Nat) (buf : List Byte), ∃ ok, d.internalAccess false ofs buf = .ok (d, buf, ok) := by
      intro ofs buf
      unfold internalAccess
      split
      · exact ⟨true, rfl⟩
      · rw [hf]
        exact ⟨false, rfl⟩
    refine ⟨fun _ => trivial, fun _ a _ buf₁ buf₂ _ _ => ?_⟩
    obtain ⟨ok, hwhole⟩ := hnone ofs (buf₁ ++ buf₂)
    obtain ⟨ok₁, hfirst⟩ := hnone ofs buf₁
    obtain ⟨ok₂, hsecond⟩ := hnone (ofs + a) buf₂
    exact ⟨buf₁, buf₂, ok, ok₁, ok₂, hwhole, hfirst, hsecond⟩
  | some f =>
    dsimp only
    by_cases hcdrom : d.isACdrom = true
    · rw [if_pos hcdrom]
      exact readsCompose_cdrom hf hcdrom
    · rw [if_neg hcdrom]
      have hcdrom : d.isACdrom = false := by simpa using hcdrom
      by_cases hov : d.overlays = []
      · refine ⟨fun _ => Or.inl hov, fun _ a ha => ?_⟩
        have hright : ∀ ofs len, d.Right ofs len := by
          intro ofs len buf hlen
          rw [internalAccess_base hf hov hcdrom, hlen]
        exact (hright ofs _).composes (hright ofs a) (hright (ofs + a) (len - a))
      · rw [readsCompose_overlays hf hov hcdrom]
        exact ⟨Or.inr, fun h => h.resolve_left hov⟩

def markedFile : File := List.replicate 513 0x41#8 ++ [0x42#8]

def markedDisk : Diskimage := ⟨some markedFile, [⟨[], []⟩], true, false⟩

/-- A read of 513 bytes from offset 1 has byte 512 at its end, and a read of that byte by itself has byte 513. -/
theorem markedDisk_not_compose : ¬ ∀ (d : Diskimage) (ofs len : Nat), d.ReadsCompose ofs len := by
  intro h
  have hf : markedDisk.f = some markedFile := rfl
  have hov : markedDisk.overlays ≠ [] := List.cons_ne_nil _ _
  have hcdrom : markedDisk.isACdrom = false := rfl
  have hright : markedDisk.Right 1 513 := right_of_readsCompose hf hov hcdrom (h markedDisk 1 513)
  have hserved : markedDisk.Served markedFile 1 513 := (right_iff_served hf hov hcdrom).mp hright
  have hlast := hserved.2 512 (by omega)
  have hne : markedDisk.taken markedFile 1 512 ≠ markedDisk.byteAt markedFile (1 + 512) := by decide +kernel
  exact hne hlast

end Diskimage

end Gxemul.Disk
