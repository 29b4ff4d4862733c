import Gxemul.Lib.Run
import Mathlib.Data.BitVec
import Mathlib.Tactic.SplitIfs

/- Rotations and masks of words whose bits are numbered from the top, and loops that go
   from one bit to another.

   A mask whose last bit comes before its first one goes around the end of the word. -/
namespace Gxemul.Lib

/-! ## Masks -/

section
variable {w mb me : Nat}

/-- From bit `mb` to bit `me`. -/
def InMask (mb me i : Nat) : Prop := if mb ≤ me then mb ≤ i ∧ i ≤ me else mb ≤ i ∨ i ≤ me

instance (mb me i : Nat) : Decidable (InMask mb me i) :=
  inferInstanceAs (Decidable (if mb ≤ me then mb ≤ i ∧ i ≤ me else mb ≤ i ∨ i ≤ me))

def mask (w mb me : Nat) : BitVec w :=
  if mb ≤ me then (BitVec.allOnes w >>> mb) &&& (BitVec.allOnes w <<< (w - 1 - me))
  else (BitVec.allOnes w >>> mb) ||| (BitVec.allOnes w <<< (w - 1 - me))

theorem getMsbD_mask (hme : me < w) {i : Nat} (hi : i < w) : (mask w mb me).getMsbD i = decide (InMask mb me i) := by
  have hfrom : (BitVec.allOnes w >>> mb).getMsbD i = decide (mb ≤ i) := by
    rw [BitVec.getMsbD_ushiftRight, BitVec.getMsbD_allOnes]
    by_cases hle : mb ≤ i
    · simp [hle, hi, show i - mb < w by omega]
    · simp [hle, show i < mb by omega]
  have hto : (BitVec.allOnes w <<< (w - 1 - me)).getMsbD i = decide (i ≤ me) := by
    rw [BitVec.getMsbD_shiftLeft, BitVec.getMsbD_allOnes]
    exact decide_eq_decide.mpr (by omega)
  unfold mask InMask
  by_cases hle : mb ≤ me
  · simp only [if_pos hle, BitVec.getMsbD_and, hfrom, hto, Bool.decide_and]
  · simp only [if_neg hle, BitVec.getMsbD_or, hfrom, hto, Bool.decide_or]

/-- Bit `i` of a word. -/
def topBit (w i : Nat) : BitVec w := 1#w <<< (w - 1 - i)

theorem getMsbD_topBit {i j : Nat} (hi : i < w) (hj : j < w) : (topBit w i).getMsbD j = decide (j = i) := by
  unfold topBit
  rw [BitVec.getMsbD_shiftLeft, BitVec.getMsbD, BitVec.getLsbD_one]
  by_cases heq : j = i
  · subst heq
    simp [show j + (w - 1 - j) < w by omega, show w - 1 - (j + (w - 1 - j)) = 0 by omega, show 0 < w by omega]
  · simp only [heq, decide_false]
    by_cases hlt : j + (w - 1 - i) < w
    · have hne : w - 1 - (j + (w - 1 - i)) ≠ 0 := by omega
      simp [hne]
    · simp [hlt]

end

/-! ## Rotations -/

section
variable {w : Nat}

/-- `while (n-- != 0)`, with a rotation by one bit. The counter is -1 in the end. -/
def rotateBody (s : Int × BitVec w) : (Int × BitVec w) × Bool :=
  if s.1 ≠ 0 then ((s.1 - 1, (s.2 <<< 1) ||| ((s.2 >>> (w - 1)) &&& 1#w)), true) else ((s.1 - 1, s.2), false)

theorem rotateLeft_none (x : BitVec w) : x.rotateLeft 0 = x := by
  apply BitVec.eq_of_getLsbD_eq
  intro i hi
  rw [BitVec.getLsbD_rotateLeft]
  simp [hi]

/-- Once more. -/
theorem rotateLeft_one_rotateLeft (x : BitVec w) {n : Nat} (hn : n + 1 < w) :
    (x.rotateLeft 1).rotateLeft n = x.rotateLeft (n + 1) := by
  apply BitVec.eq_of_getLsbD_eq
  intro i hi
  simp only [BitVec.getLsbD_rotateLeft, Nat.mod_eq_of_lt hn, Nat.mod_eq_of_lt (show n < w by omega),
    Nat.mod_eq_of_lt (show 1 < w by omega), Bool.cond_decide]
  rcases Nat.lt_trichotomy i n with hlt | heq | hgt
  · have hnear : ¬ w - n + i < 1 := by omega
    rw [if_pos hlt, if_neg hnear, if_pos (Nat.lt_succ_of_lt hlt), decide_eq_true (show w - n + i < w by omega),
      Bool.true_and]
    congr 1
    omega
  · subst heq
    rw [if_neg (Nat.lt_irrefl i), Nat.sub_self, if_pos Nat.one_pos, if_pos (Nat.lt_succ_self i), decide_eq_true hi,
      Bool.true_and]
    congr 1
    omega
  · have hfar : ¬ i - n < 1 := by omega
    rw [if_neg (Nat.not_lt_of_gt hgt), if_neg hfar, if_neg (show ¬ i < n + 1 by omega),
      decide_eq_true (show i - n < w by omega), Bool.true_and]
    congr 2

theorem rotate_one (x : BitVec w) (hw : 1 < w) :
    (x <<< 1) ||| ((x >>> (w - 1)) &&& 1#w) = x.rotateLeft 1 := by
  have hbit : (x >>> (w - 1)) &&& 1#w = x >>> (w - 1) := by
    apply BitVec.eq_of_getLsbD_eq
    intro i hi
    rw [BitVec.getLsbD_and, BitVec.getLsbD_one, BitVec.getLsbD_ushiftRight]
    by_cases hzero : i = 0
    · simp [hzero, show 0 < w by omega]
    · rw [BitVec.getLsbD_of_ge x (w - 1 + i) (by omega), Bool.false_and]
  rw [hbit, BitVec.rotateLeft_eq_rotateLeftAux_of_lt hw]
  rfl

theorem whileLoop_rotate {n : Nat} (hn : n < w) (x : BitVec w) :
    whileLoop rotateBody (n + 1) ((n : Int), x) = some (-1, x.rotateLeft n) := by
  induction n generalizing x with
  | zero =>
    rw [rotateLeft_none]
    rfl
  | succ n ih =>
    have hstep : rotateBody (((n + 1 : Nat) : Int), x) = (((n : Int), x.rotateLeft 1), true) := by
      unfold rotateBody
      rw [if_pos (by simp only [ne_eq]; omega), rotate_one x (by omega)]
      simp
    rw [whileLoop, hstep, if_pos rfl, ← rotateLeft_one_rotateLeft x hn]
    exact ih (by omega) (x.rotateLeft 1)

end

/-! ## Shifts -/

section
variable {w : Nat} (x : BitVec w) {n : Nat}

theorem getLsbD_mask {mb me : Nat} (hme : me < w) {i : Nat} (hi : i < w) :
    (mask w mb me).getLsbD i = decide (InMask mb me (w - 1 - i)) := by
  rw [BitVec.getLsbD_eq_getMsbD, decide_eq_true hi, Bool.true_and]
  exact getMsbD_mask hme (by omega)

/-- A shift to the left is a rotation and a mask. -/
theorem rotateLeft_and_mask (hn : n < w) : x.rotateLeft n &&& mask w 0 (w - 1 - n) = x <<< n := by
  apply BitVec.eq_of_getLsbD_eq
  intro i hi
  have hmask : decide (InMask 0 (w - 1 - n) (w - 1 - i)) = !decide (i < n) := by
    rw [← decide_not]
    apply decide_eq_decide.mpr
    unfold InMask
    rw [if_pos (Nat.zero_le _)]
    omega
  rw [BitVec.getLsbD_and, getLsbD_mask (by omega) hi, hmask, BitVec.getLsbD_shiftLeft, BitVec.getLsbD_rotateLeft,
    Nat.mod_eq_of_lt hn, decide_eq_true hi, Bool.true_and, Bool.true_and]
  by_cases hlt : i < n
  · simp [hlt]
  · simp [hlt]

/-- What a rotation to the right brings to a bit. -/
theorem getLsbD_rotateLeft_sub (hn : n < w) {i : Nat} (hi : i < w) :
    (x.rotateLeft (w - n)).getLsbD i = if i + n < w then x.getLsbD (n + i) else x.getLsbD (i + n - w) := by
  rw [BitVec.getLsbD_rotateLeft]
  by_cases hzero : n = 0
  · subst hzero
    rw [Nat.sub_zero, Nat.mod_self, if_pos (show i + 0 < w from hi), Nat.zero_add]
    simp [hi]
  · rw [Nat.mod_eq_of_lt (show w - n < w by omega), decide_eq_true hi, Bool.true_and, Bool.cond_decide]
    by_cases hlt : i + n < w
    · rw [if_pos (show i < w - n by omega), if_pos hlt]
      congr 1
      omega
    · rw [if_neg (show ¬ i < w - n by omega), if_neg hlt]
      congr 1
      omega

theorem getLsbD_rightMask (hn : n < w) {i : Nat} (hi : i < w) : (mask w n (w - 1)).getLsbD i = decide (i + n < w) := by
  rw [getLsbD_mask (by omega) hi]
  apply decide_eq_decide.mpr
  unfold InMask
  rw [if_pos (by omega)]
  omega

/-- A shift to the right is a rotation and a mask. -/
theorem rotateLeft_sub_and_mask (hn : n < w) : x.rotateLeft (w - n) &&& mask w n (w - 1) = x >>> n := by
  apply BitVec.eq_of_getLsbD_eq
  intro i hi
  rw [BitVec.getLsbD_and, getLsbD_rightMask hn hi, BitVec.getLsbD_ushiftRight, getLsbD_rotateLeft_sub x hn hi]
  by_cases hlt : i + n < w
  · rw [if_pos hlt, decide_eq_true hlt, Bool.and_true]
  · rw [decide_eq_false hlt, Bool.and_false, BitVec.getLsbD_of_ge x (n + i) (by omega)]

/-- An algebraic shift has the sign outside of the mask. -/
theorem rotateLeft_sub_sshiftRight (hn : n < w) :
    (x.rotateLeft (w - n) &&& mask w n (w - 1)) |||
      ((if x.msb then BitVec.allOnes w else 0#w) &&& ~~~ mask w n (w - 1)) = x.sshiftRight n := by
  rw [rotateLeft_sub_and_mask x hn]
  apply BitVec.eq_of_getLsbD_eq
  intro i hi
  have hsign : (if x.msb then BitVec.allOnes w else 0#w).getLsbD i = x.msb := by
    cases x.msb <;> simp [hi]
  rw [BitVec.getLsbD_or, BitVec.getLsbD_and, BitVec.getLsbD_not, hsign, getLsbD_rightMask hn hi,
    BitVec.getLsbD_ushiftRight, BitVec.getLsbD_sshiftRight]
  by_cases hlt : i + n < w
  · have hlt' : n + i < w := by omega
    simp [hlt, hlt', hi]
  · have hge : ¬ n + i < w := by omega
    have hnone : x.getLsbD (n + i) = false := BitVec.getLsbD_of_ge x (n + i) (by omega)
    simp [hlt, hge, hi, hnone]

/-- The bits outside of the mask are those that a shift loses. -/
theorem rotateLeft_sub_and_not_mask (hn : n < w) :
    x.rotateLeft (w - n) &&& ~~~ mask w n (w - 1) ≠ 0#w ↔ ∃ i < n, x.getLsbD i = true := by
  constructor
  · intro hne
    by_contra hnone
    apply hne
    apply BitVec.eq_of_getLsbD_eq
    intro i hi
    rw [BitVec.getLsbD_and, BitVec.getLsbD_not, getLsbD_rightMask hn hi, getLsbD_rotateLeft_sub x hn hi,
      BitVec.getLsbD_zero]
    by_cases hlt : i + n < w
    · simp [hlt]
    · have hlow : x.getLsbD (i + n - w) = false := by
        apply Bool.eq_false_iff.mpr
        exact fun hbit => hnone ⟨i + n - w, by omega, hbit⟩
      simp [hlt, hlow]
  · rintro ⟨i, hi, hbit⟩ hzero
    have hbits := congrArg (·.getLsbD (i + w - n)) hzero
    have hback : i + w - n + n - w = i := by omega
    simp only [BitVec.getLsbD_and, BitVec.getLsbD_not, getLsbD_rightMask hn (show i + w - n < w by omega),
      getLsbD_rotateLeft_sub x hn (show i + w - n < w by omega), BitVec.getLsbD_zero,
      if_neg (show ¬ i + w - n + n < w by omega), hback, hbit] at hbits
    simp [show i + w - n < w by omega, show ¬ i + w - n + n < w by omega] at hbits

end

/-! ## Loops over bits -/

section
variable {w : Nat} {l : List Nat} {j : Nat}

/-- A loop that sets bits. -/
theorem getMsbD_foldl_or (hl : ∀ i ∈ l, i < w) (x : BitVec w) (hj : j < w) :
    (l.foldl (fun x i => x ||| topBit w i) x).getMsbD j = (x.getMsbD j || decide (j ∈ l)) := by
  induction l generalizing x with
  | nil => simp
  | cons i l ih =>
    rw [List.foldl_cons, ih (fun k hk => hl k (List.mem_cons_of_mem i hk)), BitVec.getMsbD_or,
      getMsbD_topBit (hl i List.mem_cons_self) hj]
    simp [Bool.or_assoc]

/-- A loop that clears bits. -/
theorem getMsbD_foldl_clear (hl : ∀ i ∈ l, i < w) (x : BitVec w) (hj : j < w) :
    (l.foldl (fun x i => x &&& ~~~ topBit w i) x).getMsbD j = (x.getMsbD j && !decide (j ∈ l)) := by
  induction l generalizing x with
  | nil => simp
  | cons i l ih =>
    rw [List.foldl_cons, ih (fun k hk => hl k (List.mem_cons_of_mem i hk)), BitVec.getMsbD_and, BitVec.getMsbD_not,
      getMsbD_topBit (hl i List.mem_cons_self) hj]
    simp [hj, Bool.and_assoc]

/-- A loop that copies bits. -/
theorem getMsbD_foldl_copy (hl : ∀ i ∈ l, i < w) (t x : BitVec w) (hj : j < w) :
    (l.foldl (fun x i => x &&& ~~~ topBit w i ||| (t &&& topBit w i)) x).getMsbD j =
      if j ∈ l then t.getMsbD j else x.getMsbD j := by
  induction l generalizing x with
  | nil => simp
  | cons i l ih =>
    rw [List.foldl_cons, ih (fun k hk => hl k (List.mem_cons_of_mem i hk))]
    by_cases hmem : j ∈ l
    · simp [hmem]
    · simp only [hmem, if_false, BitVec.getMsbD_or, BitVec.getMsbD_and, BitVec.getMsbD_not, hj, decide_true,
        Bool.true_and, getMsbD_topBit (hl i List.mem_cons_self) hj, List.mem_cons, or_false]
      by_cases heq : j = i
      · simp [heq]
      · simp [heq]

end

/-! ## Loops that count -/

section
variable {β : Type*} (f : β → Nat → β)

/-- `while (i < stop) { f(i); i++; }`. -/
def upBody (stop : Nat) (s : Nat × β) : (Nat × β) × Bool :=
  if s.1 < stop then ((s.1 + 1, f s.2 s.1), true) else (s, false)

theorem whileLoop_up {stop i : Nat} (hi : i ≤ stop) (x : β) :
    whileLoop (upBody f stop) (stop - i + 1) (i, x) = some (stop, (List.range' i (stop - i)).foldl f x) := by
  induction hn : stop - i generalizing i x with
  | zero =>
    have heq : i = stop := by omega
    subst heq
    simp [whileLoop, upBody]
  | succ n ih =>
    have hlt : i < stop := by omega
    have hrest := ih hlt (f x i) (by omega)
    rw [whileLoop, upBody, if_pos hlt, if_pos rfl, List.range'_succ, List.foldl_cons]
    exact hrest

/-- `for (;;) { f(i); if (i == last) break; i = next(i); }`. -/
def roundBody (next : Nat → Nat) (last : Nat) (s : Nat × β) : (Nat × β) × Bool :=
  if s.1 = last then ((s.1, f s.2 s.1), false) else ((next s.1, f s.2 s.1), true)

end

/-- How far it is from one bit to another. -/
def distance (w i last : Nat) : Nat := if i ≤ last then last - i else last + w - i

/-- The bits from one to another, around the end of the word. -/
def positions (w i last : Nat) : List Nat := (List.range (distance w i last + 1)).map fun k => (i + k) % w

section
variable {w i last : Nat}

theorem distance_lt (hi : i < w) (hlast : last < w) : distance w i last < w := by
  unfold distance
  split <;> omega

theorem add_mod_of_lt {k : Nat} (hi : i < w) (hk : k < w) : (i + k) % w = if i + k < w then i + k else i + k - w := by
  split
  · exact Nat.mod_eq_of_lt (by assumption)
  · rw [Nat.mod_eq_sub_mod (by omega)]
    exact Nat.mod_eq_of_lt (by omega)

theorem mem_positions (hi : i < w) (hlast : last < w) {j : Nat} (hj : j < w) :
    j ∈ positions w i last ↔ InMask i last j := by
  have hlt := distance_lt hi hlast
  unfold positions
  rw [List.mem_map]
  constructor
  · rintro ⟨k, hk, heq⟩
    have hk' := List.mem_range.mp hk
    rw [add_mod_of_lt hi (by omega)] at heq
    unfold distance at hk'
    unfold InMask
    split_ifs at heq hk' ⊢ <;> omega
  · intro hin
    refine ⟨if i ≤ j then j - i else j + w - i, List.mem_range.mpr ?_, ?_⟩
    · unfold InMask at hin
      unfold distance
      split_ifs at hin ⊢ <;> omega
    · rw [add_mod_of_lt hi (by split <;> omega)]
      split_ifs <;> omega

theorem positions_lt (hi : i < w) {j : Nat} (hj : j ∈ positions w i last) : j < w := by
  obtain ⟨k, -, rfl⟩ := List.mem_map.mp hj
  exact Nat.mod_lt _ (by omega)

theorem positions_last (hi : i < w) : positions w i i = [i] := by
  unfold positions distance
  rw [if_pos (Nat.le_refl i), Nat.sub_self]
  simp [Nat.mod_eq_of_lt hi]

theorem next_lt (hi : i < w) : (i + 1) % w < w := Nat.mod_lt _ (by omega)

/-- The next bit is one nearer. -/
theorem distance_next (hi : i < w) (hlast : last < w) (hne : i ≠ last) :
    distance w i last = distance w ((i + 1) % w) last + 1 := by
  have hnext := @add_mod_of_lt w i 1 hi (by omega)
  rw [hnext]
  unfold distance
  split_ifs <;> omega

theorem positions_next (hi : i < w) (hlast : last < w) (hne : i ≠ last) :
    positions w i last = i :: positions w ((i + 1) % w) last := by
  unfold positions
  rw [distance_next hi hlast hne, List.range_succ_eq_map, List.map_cons, List.map_map, Nat.add_zero,
    Nat.mod_eq_of_lt hi]
  congr 1
  apply List.map_congr_left
  intro k _
  change (i + (k + 1)) % w = ((i + 1) % w + k) % w
  rw [Nat.mod_add_mod]
  congr 1
  omega

theorem whileLoop_round {β : Type*} (f : β → Nat → β) {next : Nat → Nat} (hnext : ∀ i < w, next i = (i + 1) % w)
    (hi : i < w) (hlast : last < w) (x : β) :
    whileLoop (roundBody f next last) (distance w i last + 1) (i, x) =
      some (last, (positions w i last).foldl f x) := by
  induction hn : distance w i last generalizing i x with
  | zero =>
    have heq : i = last := by
      by_contra hne
      have hfar := distance_next hi hlast hne
      omega
    subst heq
    rw [positions_last hi]
    simp [whileLoop, roundBody]
  | succ n ih =>
    have hne : i ≠ last := by
      rintro rfl
      unfold distance at hn
      rw [if_pos (Nat.le_refl _)] at hn
      omega
    have hrest := ih (next_lt hi) (f x i) (by have hfar := distance_next hi hlast hne; omega)
    rw [whileLoop, roundBody, if_neg hne, if_pos rfl, positions_next hi hlast hne, List.foldl_cons, hnext i hi]
    exact hrest

end

end Gxemul.Lib
