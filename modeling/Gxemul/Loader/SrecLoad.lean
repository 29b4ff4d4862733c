import Mathlib.Data.List.GetD
import Mathlib.Data.List.TakeWhile
import Gxemul.Loader.Srec

/- What is loaded from S-records.

   The digits of a line give the first bytes of the array (`converted_eq`), and a record
   that uses others, or passes a length that its digits do not bear out, does not fit
   (`Fits`). Well-formed records are loaded as they should be wherever they stand in the
   file (`WellFormed.handle`, `pieces_record`). `srec_loads_iff` says which files are loaded
   right. -/
namespace Gxemul.Loader.Srec

open Lib (Byte File)

/-! ## The array -/

/-- The byte that a line's digits give for a place of the array; the first digit by itself where the line ends. -/
def own (line : List Byte) (k : Nat) : Byte :=
  if 4 + 2 * k + 1 < line.length then digit line (4 + 2 * k) * 16#8 + digit line (4 + 2 * k + 1)
  else digit line (4 + 2 * k) * 16#8

section
variable {line piece : List Byte} {bytes bytes' : Nat → Byte} {i j k : Nat}

theorem convertLoop_even : ∀ (cs : List Byte) {i j : Nat} {bytes : Nat → Byte}, 4 ≤ i → i % 2 = 0 → ∀ k,
    convertLoop i cs j bytes k =
      if k < j ∨ cs.length ≤ 2 * (k - j) then bytes k
      else if 2 * (k - j) + 1 < cs.length then
        convert (cs.getD (2 * (k - j)) 0#8) * 16#8 + convert (cs.getD (2 * (k - j) + 1) 0#8)
      else convert (cs.getD (2 * (k - j)) 0#8) * 16#8
  | [], i, j, bytes, _, _, k => by
    rw [List.length_nil, if_pos (Or.inr (Nat.zero_le _)), convertLoop]
  | [c], i, j, bytes, hi, heven, k => by
    rw [convertLoop, if_pos hi, if_neg (by omega), convertLoop]
    by_cases hk : k = j
    · subst hk
      rw [Function.update_self, Nat.sub_self, if_neg (by simp), if_neg (by simp)]
      rfl
    · rw [Function.update_of_ne hk, if_pos (by rw [List.length_singleton]; omega)]
  | c :: d :: cs, i, j, bytes, hi, heven, k => by
    rw [convertLoop, if_pos hi, if_neg (by omega), convertLoop, if_pos (by omega), if_pos (by omega),
      convertLoop_even cs (by omega) (by omega)]
    rw [Function.update_self, List.length_cons, List.length_cons]
    rcases Nat.lt_trichotomy k j with hlt | rfl | hgt
    · rw [if_pos (Or.inl (by omega)), if_pos (Or.inl hlt), Function.update_of_ne (by omega),
        Function.update_of_ne (by omega)]
    · rw [if_pos (Or.inl (by omega)), if_neg (by omega), if_pos (by omega), Function.update_self, Nat.sub_self]
      rfl
    · have hindex : 2 * (k - j) = 2 * (k - (j + 1)) + 2 := by omega
      rw [Function.update_of_ne (by omega), Function.update_of_ne (by omega), hindex]
      have hcond : (k < j + 1 ∨ cs.length ≤ 2 * (k - (j + 1))) ↔
          (k < j ∨ cs.length + 1 + 1 ≤ 2 * (k - (j + 1)) + 2) := by omega
      have hcond' : 2 * (k - (j + 1)) + 1 < cs.length ↔ 2 * (k - (j + 1)) + 2 + 1 < cs.length + 1 + 1 := by omega
      rw [if_congr hcond rfl (if_congr hcond' rfl rfl)]
      rfl

theorem converted_eq (hlen : 10 ≤ line.length) (k : Nat) :
    converted line bytes k = if 4 + 2 * k < line.length then own line k else bytes k := by
  obtain ⟨c0, c1, c2, c3, cs, rfl⟩ : ∃ c0 c1 c2 c3 cs, line = c0 :: c1 :: c2 :: c3 :: cs := by
    rcases line with - | ⟨c0, - | ⟨c1, - | ⟨c2, - | ⟨c3, cs⟩⟩⟩⟩
    · simp at hlen
    · simp at hlen
    · simp at hlen
    · simp at hlen
    · exact ⟨c0, c1, c2, c3, cs, rfl⟩
  have hstart : converted (c0 :: c1 :: c2 :: c3 :: cs) bytes = convertLoop 4 cs 0 bytes := rfl
  have hdigit : ∀ i, digit (c0 :: c1 :: c2 :: c3 :: cs) (4 + i) = convert (cs.getD i 0#8) := by
    intro i
    rw [digit, Nat.add_comm]
    rfl
  rw [hstart, convertLoop_even cs (Nat.le_refl 4) rfl]
  unfold own
  simp only [Nat.sub_zero, Nat.not_lt_zero, false_or, List.length_cons, Nat.add_assoc 4, hdigit]
  by_cases hk : cs.length ≤ 2 * k
  · rw [if_pos hk, if_neg (show ¬ 4 + 2 * k < cs.length + 1 + 1 + 1 + 1 by omega)]
  · rw [if_neg hk, if_pos (show 4 + 2 * k < cs.length + 1 + 1 + 1 + 1 by omega)]
    exact if_congr (by omega) rfl rfl

/-! ## What is used of it -/

def digits (line : List Byte) : Nat := ((line.drop 4).takeWhile fun c => c != cr && c != lf).length

theorem digits_le (hlen : 4 ≤ line.length) : 4 + digits line ≤ line.length := by
  have hle : digits line ≤ (line.drop 4).length := (List.takeWhile_sublist _).length_le
  rw [List.length_drop] at hle
  omega

/-- A record for which no negative length and none that exceeds its digits is passed to memory_rw(), and which does not
use what is in the array from before. -/
structure Sane (line : List Byte) : Prop where
  length : ∀ bytes, ∀ c ∈ (handle line bytes).1.calls, 0 ≤ c.len ∧ c.dataStart + c.len ≤ digits line / 2
  fresh : ∀ bytes bytes', (handle line bytes).1 = (handle line bytes').1

/-- The counts and lengths of records that are handled like that. A data record has at least its address and the
checksum, and no more than its digits; the address of an S7 record has its 8 digits; a header record's text ends before
the line does. -/
def Fits (line : List Byte) : Prop :=
  IsRecord line →
    (∀ type ∈ [1, 2, 3], recordType line = type →
      type + 2 ≤ recordCount line ∧ recordCount line - 1 ≤ digits line / 2) ∧
    (recordType line = 7 → 11 ≤ line.length) ∧
    (recordType line = 0 → recordCount line ≤ 3 ∨ 2 * recordCount line < line.length)

theorem converted_same (hlen : 10 ≤ line.length) (hk : 4 + 2 * k < line.length) :
    converted line bytes k = converted line bytes' k := by
  rw [converted_eq hlen, converted_eq hlen, if_pos hk, if_pos hk]

theorem write_same {v v' : BitVec 64} {dataStart count : Nat} (hv : v = v')
    (h : ∀ k, k + 1 < count → bytes k = bytes' k) :
    write bytes v dataStart count = write bytes' v' dataStart count := by
  subst hv
  unfold write
  dsimp only
  have hdata : ∀ k ∈ List.range ((count : Int) - 1 - dataStart).toNat,
      bytes (dataStart + k) = bytes' (dataStart + k) := by
    intro k hk
    rw [List.mem_range] at hk
    exact h _ (by omega)
  rw [List.map_congr_left hdata]

theorem header_same {count : Nat} (h : ∀ k, 2 ≤ k → k + 1 < count → bytes k = bytes' k) :
    header bytes count = header bytes' count := by
  refine List.map_congr_left fun k hk => ?_
  rw [List.mem_range] at hk
  rw [h (2 + k) (by omega) (by omega)]

theorem effect_length {type count n : Nat} :
    (∀ c ∈ (effect bytes type count).calls, 0 ≤ c.len ∧ c.dataStart + c.len ≤ (n : Int)) ↔
      ∀ t ∈ [1, 2, 3], type = t → t + 2 ≤ count ∧ count - 1 ≤ n := by
  have hwrite : ∀ (v : BitVec 64) (dataStart : Nat),
      (∀ c ∈ (write bytes v dataStart count).calls, 0 ≤ c.len ∧ c.dataStart + c.len ≤ (n : Int)) ↔
        dataStart + 1 ≤ count ∧ count - 1 ≤ n := by
    intro v dataStart
    unfold write
    simp only [List.mem_singleton, forall_eq]
    omega
  unfold effect
  split
  case h_2 => rw [hwrite]; simp
  case h_3 => rw [hwrite]; simp
  case h_4 => rw [hwrite]; simp
  all_goals simp_all

theorem effect_same {type count : Nat} (hfirst : ∀ k < 3, bytes k = bytes' k)
    (hdata : type ∈ [1, 2, 3] → type + 2 ≤ count ∧ ∀ k, k + 1 < count → bytes k = bytes' k)
    (hseven : type = 7 → bytes 3 = bytes' 3) (hzero : type = 0 → ∀ k, 2 ≤ k → k + 1 < count → bytes k = bytes' k) :
    effect bytes type count = effect bytes' type count := by
  have haddr16 : addr16 bytes = addr16 bytes' := by
    rw [addr16, hfirst 0 (by decide), hfirst 1 (by decide), addr16]
  have haddr24 : addr24 bytes = addr24 bytes' := by
    rw [addr24, hfirst 0 (by decide), hfirst 1 (by decide), hfirst 2 (by decide), addr24]
  have haddr32 : bytes 3 = bytes' 3 → addr32 bytes = addr32 bytes' := by
    intro hthird
    rw [addr32, hfirst 0 (by decide), hfirst 1 (by decide), hfirst 2 (by decide), hthird, addr32]
  unfold effect
  split
  · rw [header_same (hzero rfl)]
  · exact write_same haddr16 (hdata (by decide)).2
  · exact write_same haddr24 (hdata (by decide)).2
  · obtain ⟨hcount, hsame⟩ := hdata (by decide)
    exact write_same (haddr32 (hsame 3 (by omega))) hsame
  · rw [haddr32 (hseven rfl)]
  · rw [haddr24]
  · rw [haddr16]
  · rfl

theorem Fits.sane (h : Fits line) : Sane line := by
  by_cases hrec : IsRecord line
  · obtain ⟨hdata, hseven, hzero⟩ := h hrec
    have hlen := hrec.2
    have hdigits := @digits_le line (by omega)
    have hhandle : ∀ bytes, (handle line bytes).1 =
        effect (converted line bytes) (recordType line) (recordCount line) := by
      intro bytes
      rw [handle, if_pos hrec]
    refine ⟨fun bytes => ?_, fun bytes bytes' => ?_⟩
    · rw [hhandle]
      exact effect_length.mpr hdata
    · rw [hhandle, hhandle]
      apply effect_same
      · exact fun k hk => converted_same hlen (by omega)
      · intro htype
        obtain ⟨hcount, hmax⟩ := hdata _ htype rfl
        exact ⟨hcount, fun k hk => converted_same hlen (by omega)⟩
      · intro htype
        exact converted_same hlen (by have := hseven htype; omega)
      · intro htype k hk hcount
        exact converted_same hlen (by have := hzero htype; omega)
  · refine ⟨fun bytes c hc => ?_, fun bytes bytes' => ?_⟩
    · rw [handle, if_neg hrec] at hc
      exact absurd hc List.not_mem_nil
    · rw [handle, handle, if_neg hrec, if_neg hrec]

theorem Sane.fits (h : Sane line) : Fits line := by
  intro hrec
  have hlen := hrec.2
  have hhandle : ∀ bytes, (handle line bytes).1 =
      effect (converted line bytes) (recordType line) (recordCount line) := by
    intro bytes
    rw [handle, if_pos hrec]
  have hplace : ∀ b k, ¬ 4 + 2 * k < line.length → converted line (fun _ => b) k = b := by
    intro b k hk
    rw [converted_eq hlen, if_neg hk]
  refine ⟨?_, fun htype => ?_, fun htype => ?_⟩
  · have hlength := h.length fun _ => 0#8
    rw [hhandle] at hlength
    exact effect_length.mp hlength
  · by_contra hshort
    -- The last byte of the address is one of the array.
    have hsame := h.fresh (fun _ => 0#8) (fun _ => 1#8)
    rw [hhandle, hhandle, htype] at hsame
    have hentry : addr32 (converted line fun _ => 0#8) = addr32 (converted line fun _ => 1#8) :=
      Option.some.inj (congrArg Effect.entry hsame)
    have hfirst : ∀ k < 3, converted line (fun _ => 0#8) k = converted line (fun _ => 1#8) k :=
      fun k hk => converted_same hlen (by omega)
    rw [addr32, addr32, hfirst 0 (by decide), hfirst 1 (by decide), hfirst 2 (by decide), BitVec.add_right_inj,
      hplace _ 3 (by omega), hplace _ 3 (by omega)] at hentry
    exact absurd hentry (by decide)
  · by_contra hlong
    rw [not_or, Nat.not_le, Nat.not_lt] at hlong
    have hsame := h.fresh (fun _ => 0x41#8) (fun _ => 0x42#8)
    rw [hhandle, hhandle, htype] at hsame
    have htext : header (converted line fun _ => 0x41#8) (recordCount line) =
        header (converted line fun _ => 0x42#8) (recordCount line) := congrArg Effect.printed hsame
    have hlast := congrArg (fun l : List Byte => l[recordCount line - 4]?) htext
    simp only [header, List.getElem?_map] at hlast
    rw [List.getElem?_range (by omega)] at hlast
    have hindex : 2 + (recordCount line - 4) = recordCount line - 2 := by omega
    rw [Option.map_some, Option.map_some, hindex, hplace _ _ (by omega), hplace _ _ (by omega)] at hlast
    exact absurd hlast (by decide)

end

/-! ## Pieces -/

section
variable {f g rest pre : File} {n : Nat}

theorem fgets_append_drop : ∀ (n : Nat) (f : File), fgets n f ++ f.drop (fgets n f).length = f
  | 0, _ => rfl
  | _ + 1, [] => rfl
  | n + 1, c :: cs => by
    rw [fgets]
    split
    · rfl
    · rw [List.cons_append, List.length_cons, List.drop_succ_cons, fgets_append_drop n cs]

theorem fgets_pos (hn : 0 < n) (hf : f ≠ []) : 0 < (fgets n f).length := by
  obtain ⟨c, cs, rfl⟩ := List.exists_cons_of_ne_nil hf
  obtain ⟨m, rfl⟩ : ∃ m, n = m + 1 := ⟨n - 1, by omega⟩
  rw [fgets]
  split <;> simp

theorem fgets_last : ∀ (n : Nat) (f : File), (fgets n f).length < n → (fgets n f).getLast? ≠ some lf →
    f.drop (fgets n f).length = []
  | 0, _, h, _ => absurd h (Nat.not_lt_zero _)
  | _ + 1, [], _, _ => rfl
  | n + 1, c :: cs, hlen, hlast => by
    rw [fgets] at hlen hlast ⊢
    split at hlast
    · rename_i hc
      rw [hc] at hlast
      exact absurd rfl hlast
    · rename_i hc
      rw [if_neg hc] at hlen ⊢
      rw [List.length_cons] at hlen ⊢
      rw [List.drop_succ_cons]
      apply fgets_last n cs (by omega)
      intro hend
      apply hlast
      rw [List.getLast?_cons, hend]
      rfl

theorem fgets_append : ∀ (n : Nat) (f g : File), lf ∈ f → fgets n (f ++ g) = fgets n f
  | 0, _, _, _ => by rw [fgets, fgets]
  | n + 1, [], g, h => absurd h List.not_mem_nil
  | n + 1, c :: cs, g, h => by
    rw [List.cons_append, fgets, fgets]
    split
    · rfl
    · rename_i hc
      have hrest : lf ∈ cs := (List.mem_cons.mp h).resolve_left fun heq => hc heq.symm
      rw [fgets_append n cs g hrest]

theorem fgets_line : ∀ {n : Nat} {f : File} (g : File), lf ∉ f → f.length ≤ n →
    fgets n (f ++ g) = f ++ fgets (n - f.length) g
  | n, [], g, _, _ => rfl
  | 0, c :: cs, g, _, hlen => by simp at hlen
  | n + 1, c :: cs, g, h, hlen => by
    have hc : c ≠ lf := fun heq => h (heq ▸ List.mem_cons_self)
    rw [List.cons_append, fgets, if_neg hc, fgets_line g (fun hmem => h (List.mem_cons_of_mem _ hmem))
      (by simpa using hlen), List.length_cons, Nat.add_sub_add_right, List.cons_append]

theorem pieces_succ (hf : f ≠ []) :
    pieces (n + 1) f = fgets lineLen f :: pieces n (f.drop (fgets lineLen f).length) := by
  obtain ⟨c, cs, rfl⟩ := List.exists_cons_of_ne_nil hf
  rfl

@[simp] theorem pieces_nil : pieces n [] = [] := by
  cases n <;> rfl

theorem pieces_fuel : ∀ {n : Nat} {f : File}, f.length ≤ n → pieces n f = pieces f.length f := by
  intro n
  induction n using Nat.strong_induction_on with
  | _ n ih =>
    intro f hn
    by_cases hf : f = []
    · rw [hf, pieces_nil, pieces_nil]
    · have hpos := fgets_pos (n := lineLen) (by decide) hf
      have hlen : 0 < f.length := List.length_pos_iff.mpr hf
      obtain ⟨k, hk⟩ : ∃ k, f.length = k + 1 := ⟨f.length - 1, by omega⟩
      obtain ⟨m, rfl⟩ : ∃ m, n = m + 1 := ⟨n - 1, by omega⟩
      have hdrop : (f.drop (fgets lineLen f).length).length ≤ k := by
        rw [List.length_drop]
        omega
      rw [hk, pieces_succ hf, pieces_succ hf, ih m (by omega) (by omega)]
      congr 1
      by_cases hsame : k = m
      · rw [hsame, ih m (by omega) (by omega)]
      · rw [ih k (by omega) hdrop]

def LineStart (pre : File) : Prop := pre = [] ∨ pre.getLast? = some lf

theorem pieces_append : ∀ {n : Nat} {pre rest : File}, pre.length ≤ n → LineStart pre →
    pieces (pre ++ rest).length (pre ++ rest) = pieces pre.length pre ++ pieces rest.length rest := by
  intro n
  induction n with
  | zero =>
    intro pre rest hn _
    have hnil : pre = [] := List.length_eq_zero_iff.mp (by omega)
    rw [hnil]
    rfl
  | succ n ih =>
    intro pre rest hn hstart
    by_cases hpre : pre = []
    · rw [hpre]
      rfl
    · have hlast := hstart.resolve_left hpre
      have hmem : lf ∈ pre := List.mem_of_getLast? hlast
      have hpos := fgets_pos (n := lineLen) (by decide) hpre
      have hle : (fgets lineLen pre).length ≤ pre.length := by
        have hsplit := congrArg List.length (fgets_append_drop lineLen pre)
        rw [List.length_append] at hsplit
        omega
      obtain ⟨k, hk⟩ : ∃ k, (pre ++ rest).length = k + 1 := by
        refine ⟨(pre ++ rest).length - 1, ?_⟩
        rw [List.length_append]
        omega
      obtain ⟨m, hm⟩ : ∃ m, pre.length = m + 1 := ⟨pre.length - 1, by omega⟩
      have hdrop : (pre.drop (fgets lineLen pre).length).length ≤ m := by
        rw [List.length_drop]
        omega
      have hstart' : LineStart (pre.drop (fgets lineLen pre).length) := by
        by_cases hend : pre.drop (fgets lineLen pre).length = []
        · exact Or.inl hend
        · refine Or.inr ?_
          rw [List.getLast?_drop, if_neg]
          · exact hlast
          · intro hall
            exact hend (List.drop_eq_nil_of_le hall)
      have hrest := @ih (pre.drop (fgets lineLen pre).length) rest (by omega) hstart'
      rw [hk, hm, pieces_succ (by simp [hpre]), pieces_succ hpre, fgets_append lineLen pre rest hmem,
        List.drop_append_of_le_length hle, List.cons_append]
      congr 1
      rw [pieces_fuel (by rw [List.length_append] at hk ⊢; omega), hrest, pieces_fuel hdrop]

end

/-! ## The loop -/

section
variable {f : File} {st : State} {bytes : Nat → Byte}

def effects : (Nat → Byte) → List (List Byte) → List Effect
  | _, [] => []
  | bytes, piece :: ps => (handle (text piece) bytes).1 :: effects (handle (text piece) bytes).2 ps

theorem metEof_drop (h : metEof (fgets lineLen f) = true) : f.drop (fgets lineLen f).length = [] := by
  obtain ⟨hlen, hlast⟩ := Bool.and_eq_true_iff.mp h
  exact fgets_last lineLen f (of_decide_eq_true hlen) (bne_iff_ne.mp hlast)

theorem loadLoop_eq : ∀ {fuel : Nat} {f : File} {st : State}, f.length + 3 ≤ fuel →
    loadLoop fuel f false st = some ((pieces f.length f).foldl handlePiece st) := by
  intro fuel
  induction fuel with
  | zero => intro f st h; omega
  | succ fuel ih =>
    intro f st hfuel
    have hend : ∀ {g : File} {st : State}, loadLoop fuel g true st = some st := by
      intro g st
      obtain ⟨k, rfl⟩ : ∃ k, fuel = k + 1 := ⟨fuel - 1, by omega⟩
      rw [loadLoop, if_pos rfl]
    rw [loadLoop, if_neg Bool.false_ne_true]
    dsimp only
    by_cases hf : f = []
    · -- The end of the file is met without a piece.
      subst hf
      have hnone : handlePiece st (fgets lineLen []) = st := by
        unfold handlePiece handle
        rw [if_neg (by decide)]
        simp
      rw [hnone, show metEof (fgets lineLen []) = true from rfl, hend]
      rfl
    · obtain ⟨k, hk⟩ : ∃ k, f.length = k + 1 := ⟨f.length - 1, by have := List.length_pos_iff.mpr hf; omega⟩
      have hpos := fgets_pos (n := lineLen) (by decide) hf
      rw [hk, pieces_succ hf, List.foldl_cons]
      by_cases heof : metEof (fgets lineLen f) = true
      · rw [heof, hend, metEof_drop heof, pieces_nil]
        rfl
      · have hdrop : (f.drop (fgets lineLen f).length).length ≤ k := by
          rw [List.length_drop]
          omega
        rw [Bool.not_eq_true] at heof
        rw [heof, ih (by omega), pieces_fuel hdrop]

theorem foldl_handlePiece : ∀ (ps : List (List Byte)) (st : State),
    (ps.foldl handlePiece st).calls = st.calls ++ (effects st.bytes ps).flatMap Effect.calls ∧
    (ps.foldl handlePiece st).entry = ((effects st.bytes ps).filterMap Effect.entry).getLast?.or st.entry
  | [], st => ⟨(List.append_nil _).symm, rfl⟩
  | piece :: ps, st => by
    obtain ⟨hcalls, hentry⟩ := foldl_handlePiece ps (handlePiece st piece)
    rw [List.foldl_cons, effects, List.flatMap_cons]
    constructor
    · rw [hcalls, ← List.append_assoc]
      rfl
    · rw [hentry]
      show _ = (List.filterMap Effect.entry ((handle (text piece) st.bytes).1 :: effects _ ps)).getLast?.or st.entry
      have hthis : (handlePiece st piece).entry = (handle (text piece) st.bytes).1.entry.or st.entry := rfl
      rw [hthis]
      cases he : (handle (text piece) st.bytes).1.entry with
      | none =>
        rw [List.filterMap_cons_none he]
        rfl
      | some e =>
        rw [List.filterMap_cons_some he, List.getLast?_cons]
        show (List.filterMap Effect.entry (effects (handle (text piece) st.bytes).2 ps)).getLast?.or _ = _
        generalize (List.filterMap Effect.entry (effects (handle (text piece) st.bytes).2 ps)).getLast? = last
        cases last with
        | none => rfl
        | some e' => rfl

end

/-! ## Well-formed records -/

def HexDigit (c v : Byte) : Prop :=
  0x30#8 ≤ c ∧ c ≤ 0x39#8 ∧ v = c - 0x30#8 ∨ 0x41#8 ≤ c ∧ c ≤ 0x46#8 ∧ v = c - 0x37#8 ∨
  0x61#8 ≤ c ∧ c ≤ 0x66#8 ∧ v = c - 0x57#8

def Encodes : List Byte → List Byte → Prop
  | [], [] => True
  | c :: d :: cs, b :: bs => (∃ v w, HexDigit c v ∧ HexDigit d w ∧ b = v * 16#8 + w) ∧ Encodes cs bs
  | _, _ => False

def addrLen : Nat → Nat
  | 1 => 2
  | 2 => 3
  | 3 => 4
  | 7 => 4
  | 8 => 3
  | 9 => 2
  | _ => 0

/-- `S`, the type, and digits for the count, the address, the data and the checksum. -/
structure WellFormed (rec : List Byte) (type : Nat) (addr data : List Byte) : Prop where
  known : type ∈ [1, 2, 3, 7, 8, 9]
  addrLength : addr.length = addrLen type
  noData : 7 ≤ type → data = []
  countLt : addr.length + data.length + 1 < 256
  digits : ∃ body checksum, rec = 0x53#8 :: BitVec.ofNat 8 (0x30 + type) :: body ∧
    Encodes body (BitVec.ofNat 8 (addr.length + data.length + 1) :: (addr ++ data ++ [checksum]))

def expected (type : Nat) (addr data : List Byte) : Effect :=
  if type ≤ 3 then { calls := [⟨BitVec.ofNat 64 (Lib.value true addr), addr.length, data.length, data⟩] }
  else { entry := some (BitVec.ofNat 64 (Lib.value true addr)) }

def LineEnd (stop post : List Byte) : Prop :=
  stop = [lf] ∨ stop = [cr, lf] ∨ (stop = [] ∨ stop = [cr]) ∧ post = []

section
variable {c v : Byte} {cs bs : List Byte} {rec addr data stop post tail : List Byte} {type k : Nat}
  {bytes : Nat → Byte}

theorem HexDigit.convert (h : HexDigit c v) : convert c = v := by
  unfold Srec.convert
  obtain ⟨h1, h2, rfl⟩ | ⟨h1, h2, rfl⟩ | ⟨h1, h2, rfl⟩ := h
  · rw [if_neg (by bv_omega), if_neg (by bv_omega), if_pos ⟨h1, h2⟩]
  · rw [if_neg (by bv_omega), if_pos ⟨h1, h2⟩]
    bv_omega
  · rw [if_pos ⟨h1, h2⟩]
    bv_omega

theorem HexDigit.lt (h : HexDigit c v) : v.toNat < 16 := by
  unfold HexDigit at h
  bv_omega

theorem HexDigit.plain (h : HexDigit c v) : c ≠ 0#8 ∧ c ≠ lf ∧ c ≠ cr := by
  unfold HexDigit at h
  unfold lf cr
  refine ⟨?_, ?_, ?_⟩ <;> rintro rfl <;> revert h <;> bv_omega

theorem Encodes.length : ∀ {cs bs : List Byte}, Encodes cs bs → cs.length = 2 * bs.length
  | [], [], _ => rfl
  | c :: d :: cs, b :: bs, h => by
    rw [List.length_cons, List.length_cons, List.length_cons, h.2.length]
    omega

theorem Encodes.plain : ∀ {cs bs : List Byte}, Encodes cs bs → ∀ c ∈ cs, c ≠ 0#8 ∧ c ≠ lf ∧ c ≠ cr
  | [], [], _ => fun _ h => absurd h List.not_mem_nil
  | c :: d :: cs, b :: bs, ⟨⟨v, w, hc, hd, _⟩, hrest⟩ => by
    intro x hx
    rcases List.mem_cons.mp hx with rfl | hx
    · exact hc.plain
    rcases List.mem_cons.mp hx with rfl | hx
    · exact hd.plain
    · exact hrest.plain x hx

theorem Encodes.getD : ∀ {cs bs : List Byte} {k : Nat}, Encodes cs bs → k < bs.length →
    convert (cs.getD (2 * k) 0#8) * 16#8 + convert (cs.getD (2 * k + 1) 0#8) = bs.getD k 0#8
  | [], [], k, _, hk => absurd hk (Nat.not_lt_zero k)
  | c :: d :: cs, b :: bs, 0, ⟨⟨v, w, hc, hd, hb⟩, _⟩, _ => by
    rw [hb, ← hc.convert, ← hd.convert]
    rfl
  | c :: d :: cs, b :: bs, k + 1, ⟨_, hrest⟩, hk => by
    have hnext := hrest.getD (k := k) (by simpa using hk)
    rw [show 2 * (k + 1) = 2 * k + 1 + 1 by omega]
    exact hnext

theorem value_addr16 {a b : Byte} (h0 : bytes 0 = a) (h1 : bytes 1 = b) :
    addr16 bytes = BitVec.ofNat 64 (Lib.value true [a, b]) := by
  rw [addr16, h0, h1]
  apply BitVec.eq_of_toNat_eq
  simp [Lib.value, Lib.leValue, Nat.shiftLeft_eq]
  omega

theorem value_addr24 {a b d : Byte} (h0 : bytes 0 = a) (h1 : bytes 1 = b) (h2 : bytes 2 = d) :
    addr24 bytes = BitVec.ofNat 64 (Lib.value true [a, b, d]) := by
  rw [addr24, h0, h1, h2]
  apply BitVec.eq_of_toNat_eq
  simp [Lib.value, Lib.leValue, Nat.shiftLeft_eq]
  omega

theorem value_addr32 {a b d e : Byte} (h0 : bytes 0 = a) (h1 : bytes 1 = b) (h2 : bytes 2 = d) (h3 : bytes 3 = e) :
    addr32 bytes = BitVec.ofNat 64 (Lib.value true [a, b, d, e]) := by
  rw [addr32, h0, h1, h2, h3]
  apply BitVec.eq_of_toNat_eq
  simp [Lib.value, Lib.leValue, Nat.shiftLeft_eq]
  omega

theorem write_eq (v : BitVec 64) {n : Nat} (hn : addr.length = n)
    (hbytes : ∀ k < (addr ++ data).length, bytes k = (addr ++ data).getD k 0#8) :
    write bytes v n (addr.length + data.length + 1) = { calls := [⟨v, addr.length, data.length, data⟩] } := by
  subst hn
  unfold write
  dsimp only
  have hlen : ((addr.length + data.length + 1 : Nat) : Int) - 1 - addr.length = data.length := by omega
  have hdata : (List.range data.length).map (fun k => bytes (addr.length + k)) = data := by
    refine List.ext_getElem (by simp) fun k hk hk' => ?_
    rw [List.getElem_map, List.getElem_range, hbytes _ (by rw [List.length_append]; omega), List.getD_eq_getElem?_getD,
      List.getElem?_append_right (by omega), Nat.add_sub_cancel_left, List.getElem?_eq_getElem hk']
    rfl
  rw [hlen, Int.toNat_natCast, hdata]

theorem effect_eq (hknown : type ∈ [1, 2, 3, 7, 8, 9]) (haddr : addr.length = addrLen type)
    (hbytes : ∀ k < (addr ++ data).length, bytes k = (addr ++ data).getD k 0#8) :
    effect bytes type (addr.length + data.length + 1) = expected type addr data := by
  have hplace : ∀ k < addr.length, bytes k = addr.getD k 0#8 := by
    intro k hk
    rw [hbytes k (by rw [List.length_append]; omega), List.getD_eq_getElem?_getD, List.getElem?_append_left hk,
      ← List.getD_eq_getElem?_getD]
  have h16 : addr.length = 2 → addr16 bytes = BitVec.ofNat 64 (Lib.value true addr) := by
    intro h
    obtain ⟨a, b, rfl⟩ := List.length_eq_two.mp h
    exact value_addr16 (hplace 0 (by simp)) (hplace 1 (by simp))
  have h24 : addr.length = 3 → addr24 bytes = BitVec.ofNat 64 (Lib.value true addr) := by
    intro h
    obtain ⟨a, b, d, rfl⟩ := List.length_eq_three.mp h
    exact value_addr24 (hplace 0 (by simp)) (hplace 1 (by simp)) (hplace 2 (by simp))
  have h32 : addr.length = 4 → addr32 bytes = BitVec.ofNat 64 (Lib.value true addr) := by
    intro h
    obtain ⟨a, l, rfl⟩ := List.exists_cons_of_length_eq_add_one h
    obtain ⟨b, d, e, rfl⟩ := List.length_eq_three.mp (Nat.succ.inj h)
    exact value_addr32 (hplace 0 (by simp)) (hplace 1 (by simp)) (hplace 2 (by simp)) (hplace 3 (by simp))
  simp only [List.mem_cons, List.not_mem_nil, or_false] at hknown
  unfold expected
  rcases hknown with rfl | rfl | rfl | rfl | rfl | rfl
  · rw [effect, h16 haddr, write_eq _ (n := 2) haddr hbytes, if_pos (by decide)]
  · rw [effect, h24 haddr, write_eq _ (n := 3) haddr hbytes, if_pos (by decide)]
  · rw [effect, h32 haddr, write_eq _ (n := 4) haddr hbytes, if_pos (by decide)]
  · rw [effect, h32 haddr, if_neg (by decide)]
  · rw [effect, h24 haddr, if_neg (by decide)]
  · rw [effect, h16 haddr, if_neg (by decide)]

theorem WellFormed.handle (h : WellFormed rec type addr data) (tail : List Byte) (bytes : Nat → Byte) :
    (handle (rec ++ tail) bytes).1 = expected type addr data := by
  obtain ⟨body, checksum, hrec, henc⟩ := h.digits
  have haddr := h.addrLength
  have hcountLt := h.countLt
  obtain ⟨bs, hbs⟩ : ∃ bs, bs = addr ++ data ++ [checksum] := ⟨_, rfl⟩
  rw [← hbs] at henc
  have hbsLen : bs.length = addr.length + data.length + 1 := by
    rw [hbs, List.length_append, List.length_append, List.length_singleton]
  have hbody := henc.length
  obtain ⟨c, d, cs, rfl⟩ : ∃ c d cs, body = c :: d :: cs := by
    rcases body with - | ⟨c, - | ⟨d, cs⟩⟩
    · simp at hbody
    · rw [List.length_cons, List.length_nil, List.length_cons] at hbody
      omega
    · exact ⟨c, d, cs, rfl⟩
  obtain ⟨⟨v, w, hc, hd, hcount⟩, henc⟩ := henc
  have hcs := henc.length
  subst hrec
  have hlong : 2 ≤ addr.length := by
    have hknown := h.known
    rw [haddr]
    simp only [List.mem_cons, List.not_mem_nil, or_false] at hknown
    rcases hknown with rfl | rfl | rfl | rfl | rfl | rfl <;> decide
  have hrecord : IsRecord (0x53#8 :: BitVec.ofNat 8 (0x30 + type) :: c :: d :: cs ++ tail) := by
    refine ⟨rfl, ?_⟩
    simp only [List.length_append, List.length_cons]
    omega
  have htype : recordType (0x53#8 :: BitVec.ofNat 8 (0x30 + type) :: c :: d :: cs ++ tail) = type := by
    have hknown := h.known
    simp only [List.mem_cons, List.not_mem_nil, or_false] at hknown
    show (convert (BitVec.ofNat 8 (0x30 + type))).toNat = type
    rcases hknown with rfl | rfl | rfl | rfl | rfl | rfl <;> decide
  have hrecordCount : recordCount (0x53#8 :: BitVec.ofNat 8 (0x30 + type) :: c :: d :: cs ++ tail) =
      addr.length + data.length + 1 := by
    show (convert c).toNat * 16 + (convert d).toNat = _
    have hv := hc.lt
    have hw := hd.lt
    have hnat := congrArg BitVec.toNat hcount
    rw [BitVec.toNat_ofNat, BitVec.toNat_add, BitVec.toNat_mul, BitVec.toNat_ofNat] at hnat
    rw [hc.convert, hd.convert]
    omega
  rw [Srec.handle, if_pos hrecord, htype, hrecordCount]
  refine effect_eq h.known haddr fun k hk => ?_
  rw [List.length_append] at hk
  have hdigit : ∀ i < cs.length, digit (0x53#8 :: BitVec.ofNat 8 (0x30 + type) :: c :: d :: cs ++ tail) (4 + i) =
      convert (cs.getD i 0#8) := by
    intro i hi
    have hindex : (0x53#8 :: BitVec.ofNat 8 (0x30 + type) :: c :: d :: cs ++ tail).getD (4 + i) 0#8 =
        cs.getD i 0#8 := by
      rw [Nat.add_comm 4 i]
      show (cs ++ tail).getD i 0#8 = _
      rw [List.getD_eq_getElem?_getD, List.getElem?_append_left hi, ← List.getD_eq_getElem?_getD]
    rw [digit, hindex]
  have hlen : (0x53#8 :: BitVec.ofNat 8 (0x30 + type) :: c :: d :: cs ++ tail).length =
      4 + cs.length + tail.length := by
    simp only [List.length_append, List.length_cons]
    omega
  rw [converted_eq hrecord.2, if_pos (by omega), own, if_pos (by omega), hdigit _ (by omega), Nat.add_assoc,
    hdigit _ (by omega), henc.getD (by omega), hbs, List.getD_eq_getElem?_getD, List.getElem?_append_left
      (by rw [List.length_append]; omega), ← List.getD_eq_getElem?_getD]

theorem WellFormed.plain (h : WellFormed rec type addr data) : ∀ c ∈ rec, c ≠ 0#8 ∧ c ≠ lf := by
  obtain ⟨body, checksum, rfl, henc⟩ := h.digits
  have hknown := h.known
  simp only [List.mem_cons, List.not_mem_nil, or_false] at hknown
  intro c hc
  rcases List.mem_cons.mp hc with rfl | hc
  · decide
  rcases List.mem_cons.mp hc with rfl | hc
  · rcases hknown with rfl | rfl | rfl | rfl | rfl | rfl <;> decide
  · exact ⟨(henc.plain c hc).1, (henc.plain c hc).2.1⟩

theorem WellFormed.length_le (h : WellFormed rec type addr data) : rec.length ≤ lineLen := by
  obtain ⟨body, checksum, rfl, henc⟩ := h.digits
  have hlen := henc.length
  have hcount := h.countLt
  simp only [List.length_cons, List.length_append, List.length_nil] at hlen ⊢
  unfold lineLen
  omega

theorem LineEnd.fgets (h : LineEnd stop post) (n : Nat) : ∀ c ∈ fgets n (stop ++ post), c ≠ 0#8 := by
  obtain rfl | rfl | ⟨rfl | rfl, rfl⟩ := h
  · rcases n with - | n
    · exact fun c hc => absurd hc List.not_mem_nil
    · have hstop : Srec.fgets (n + 1) ([lf] ++ post) = [lf] := if_pos rfl
      rw [hstop]
      decide
  · rcases n with - | - | n
    · exact fun c hc => absurd hc List.not_mem_nil
    · have hstop : Srec.fgets 1 ([cr, lf] ++ post) = [cr] := if_neg (by decide)
      rw [hstop]
      decide
    · have hstop : Srec.fgets (n + 2) ([cr, lf] ++ post) = [cr, lf] := by
        show (if cr = lf then [cr] else cr :: Srec.fgets (n + 1) (lf :: post)) = _
        rw [if_neg (by decide), Srec.fgets, if_pos rfl]
      rw [hstop]
      decide
  · rcases n with - | n
    · exact fun c hc => absurd hc List.not_mem_nil
    · exact fun c hc => absurd hc List.not_mem_nil
  · rcases n with - | - | n
    · exact fun c hc => absurd hc List.not_mem_nil
    · decide
    · show ∀ c ∈ (if cr = lf then [cr] else cr :: Srec.fgets (n + 1) []), c ≠ 0#8
      rw [if_neg (by decide), Srec.fgets]
      decide

theorem pieces_record {pre : File} (h : WellFormed rec type addr data) (hpre : LineStart pre)
    (hend : LineEnd stop post) :
    ∃ tail after, pieces (pre ++ (rec ++ (stop ++ post))).length (pre ++ (rec ++ (stop ++ post))) =
      pieces pre.length pre ++ (rec ++ tail) :: after ∧ text (rec ++ tail) = rec ++ tail := by
  have hplain := h.plain
  have hne : rec ++ (stop ++ post) ≠ [] := by
    obtain ⟨body, checksum, rfl, -⟩ := h.digits
    exact List.cons_ne_nil _ _
  have hpiece : Srec.fgets lineLen (rec ++ (stop ++ post)) =
      rec ++ Srec.fgets (lineLen - rec.length) (stop ++ post) :=
    fgets_line _ (fun hmem => (hplain lf hmem).2 rfl) h.length_le
  obtain ⟨k, hk⟩ : ∃ k, (rec ++ (stop ++ post)).length = k + 1 :=
    ⟨_, (Nat.succ_pred_eq_of_pos (List.length_pos_iff.mpr hne)).symm⟩
  refine ⟨Srec.fgets (lineLen - rec.length) (stop ++ post), pieces k ((rec ++ (stop ++ post)).drop
    (rec ++ Srec.fgets (lineLen - rec.length) (stop ++ post)).length), ?_, ?_⟩
  · rw [pieces_append (Nat.le_refl _) hpre, hk, pieces_succ hne, hpiece]
  · apply List.takeWhile_eq_self_iff.mpr
    intro c hc
    rcases List.mem_append.mp hc with hc | hc
    · exact bne_iff_ne.mpr (hplain c hc).1
    · exact bne_iff_ne.mpr (hend.fgets _ c hc)

end

/-! ## Files -/

/-- Loading ends, with the calls of all pieces in order and the last entry point. A well-formed record on a line of its
own leads to the write of its data or to its entry point. All other pieces are handled without a negative length, one
that exceeds the digits, or what was in the array from before. -/
structure LoadsRight (f : File) : Prop where
  returns : ∀ bytes, ∃ st, load bytes f = some st ∧
    st.calls = (effects bytes (pieces f.length f)).flatMap Effect.calls ∧
    st.entry = ((effects bytes (pieces f.length f)).filterMap Effect.entry).getLast?
  records : ∀ pre rec stop post type addr data, f = pre ++ (rec ++ (stop ++ post)) → LineStart pre →
    LineEnd stop post → WellFormed rec type addr data → ∃ piece after,
      pieces f.length f = pieces pre.length pre ++ piece :: after ∧
      ∀ bytes, (handle (text piece) bytes).1 = expected type addr data
  malformed : ∀ piece ∈ pieces f.length f, Sane (text piece)

/-- A file is loaded right exactly when all its pieces fit. -/
theorem srec_loads_iff (f : File) : LoadsRight f ↔ ∀ piece ∈ pieces f.length f, Fits (text piece) := by
  constructor
  · intro h piece hpiece
    exact (h.malformed piece hpiece).fits
  · intro h
    refine ⟨fun bytes => ?_, fun pre rec stop post type addr data hf hpre hend hrec => ?_, fun piece hpiece => ?_⟩
    · obtain ⟨hcalls, hentry⟩ := foldl_handlePiece (pieces f.length f) ⟨bytes, [], none, []⟩
      refine ⟨_, loadLoop_eq (Nat.le_refl _), ?_, ?_⟩
      · rw [hcalls, List.nil_append]
      · rw [hentry, Option.or_none]
    · obtain ⟨tail, after, hpieces, htext⟩ := pieces_record hrec hpre hend
      refine ⟨rec ++ tail, after, by rw [hf]; exact hpieces, fun bytes => ?_⟩
      rw [htext]
      exact hrec.handle tail bytes
    · exact (h piece hpiece).sane

/-- A data record whose count leaves no room for its address and the checksum: `S1020000FD`. -/
def shortCount : File := [0x53#8, 0x31#8, 0x30#8, 0x32#8, 0x30#8, 0x30#8, 0x30#8, 0x30#8, 0x46#8, 0x44#8]

/-- A length of -1 is passed to memory_rw(). -/
theorem shortCount_not_right : ¬ ∀ f : File, LoadsRight f := by
  intro h
  have hpieces : pieces shortCount.length shortCount = [shortCount] := by decide +kernel
  have hsane : Sane (text shortCount) := by
    apply (h shortCount).malformed
    rw [hpieces]
    exact List.mem_singleton_self _
  have hcalls : (handle (text shortCount) fun _ => 0#8).1.calls = [⟨0#64, 2, -1, []⟩] := by decide +kernel
  have hlength := hsane.length (fun _ => 0#8) ⟨0#64, 2, -1, []⟩ (by rw [hcalls]; exact List.mem_singleton_self _)
  exact absurd hlength.1 (by decide)

end Gxemul.Loader.Srec
