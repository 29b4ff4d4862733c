import Gxemul.Lib.Bounds

/- Ones' complement sums of 16-bit words, as in RFC 1071.

   A carry is added again, so that a sum is the sum of the words modulo 65535, where 0 is
   only the sum of zeros. With the complement of a sum in its place, all words together have
   the sum 0xffff. -/
namespace Gxemul.Lib

/-- The sum of two words. -/
def onesAdd (a b : Nat) : Nat := if 65535 < a + b then a + b - 65535 else a + b

/-- The words of a string of bytes. A last byte alone is padded. -/
def words16 : List Byte → List Nat
  | [] => []
  | [hi] => [hi.toNat * 256]
  | hi :: lo :: rest => (hi.toNat * 256 + lo.toNat) :: words16 rest

def onesSum (bytes : List Byte) : Nat := (words16 bytes).foldl onesAdd 0

/-- A number whose carries are added again. -/
def onesFold (n : Nat) : Nat := if n = 0 then 0 else (n - 1) % 65535 + 1

section
variable {n w : Nat} {ws : List Nat}

theorem onesFold_le (n : Nat) : onesFold n ≤ 65535 := by
  unfold onesFold
  split <;> omega

theorem onesAdd_onesFold (hw : w ≤ 65535) : onesAdd (onesFold n) w = onesFold (n + w) := by
  unfold onesAdd onesFold
  by_cases hn : n = 0
  · by_cases hw0 : w = 0
    · simp [hn, hw0]
    · rw [if_pos hn, if_neg (by omega), if_neg (by omega)]
      omega
  · rw [if_neg hn, if_neg (show ¬ n + w = 0 by omega)]
    split <;> omega

/-- The sum of words is the number that is their sum, with the carries added again. -/
theorem foldl_onesAdd (hws : ∀ w ∈ ws, w ≤ 65535) : ws.foldl onesAdd (onesFold n) = onesFold (n + ws.sum) := by
  induction ws generalizing n with
  | nil => rfl
  | cons w ws ih =>
    have hw : w ≤ 65535 := hws w List.mem_cons_self
    calc (w :: ws).foldl onesAdd (onesFold n)
        = ws.foldl onesAdd (onesFold (n + w)) := by rw [List.foldl_cons, onesAdd_onesFold hw]
      _ = onesFold (n + w + ws.sum) := ih fun w' hw' => hws w' (List.mem_cons_of_mem _ hw')
      _ = onesFold (n + (w :: ws).sum) := by rw [List.sum_cons, Nat.add_assoc]

/-- The complement of a sum makes it 0xffff. -/
theorem onesFold_complement (n : Nat) : onesFold (n + (65535 - onesFold n)) = 65535 := by
  unfold onesFold
  split <;> split <;> omega

/-- Another word makes another sum. -/
theorem onesFold_ne (hw : 0 < w) (hlt : w < 65535) : onesFold (n + w) ≠ onesFold n := by
  unfold onesFold
  split <;> split <;> omega

end

/-! ## Words of bytes -/

section
variable {bytes a b : List Byte}

/-- The word at `2 * k`. -/
def wordAt (f : Nat → Byte) (k : Nat) : Nat := (f (2 * k)).toNat * 256 + (f (2 * k + 1)).toNat

theorem wordAt_le (f : Nat → Byte) (k : Nat) : wordAt f k ≤ 65535 := by
  unfold wordAt
  omega

theorem words16_eq (bytes : List Byte) :
    words16 bytes = (List.range ((bytes.length + 1) / 2)).map (wordAt (Buf.byte bytes)) := by
  induction bytes using words16.induct with
  | case1 => rfl
  | case2 hi =>
    simp [words16, wordAt, Buf.byte]
  | case3 hi lo rest ih =>
    have hlen : ((hi :: lo :: rest).length + 1) / 2 = (rest.length + 1) / 2 + 1 := by
      simp only [List.length_cons]
      omega
    rw [hlen, List.range_succ_eq_map, List.map_cons, List.map_map, words16, ih]
    congr 1

theorem words16_append (ha : a.length % 2 = 0) : words16 (a ++ b) = words16 a ++ words16 b := by
  induction a using words16.induct with
  | case1 => rfl
  | case2 hi => cases ha
  | case3 hi lo rest ih =>
    have hrest : rest.length % 2 = 0 := by
      simp only [List.length_cons] at ha
      omega
    change _ :: words16 (rest ++ b) = _ :: (words16 rest ++ words16 b)
    rw [ih hrest]

theorem onesSum_eq (bytes : List Byte) : onesSum bytes = onesFold (words16 bytes).sum := by
  have hwords : ∀ w ∈ words16 bytes, w ≤ 65535 := by
    intro w hw
    rw [words16_eq] at hw
    obtain ⟨k, -, hk⟩ := List.mem_map.mp hw
    rw [← hk]
    exact wordAt_le _ k
  have hsum := foldl_onesAdd (n := 0) hwords
  rw [Nat.zero_add] at hsum
  exact hsum

/-- The sum of words is one of them and the sum of the others. -/
theorem sum_range_split (f : Nat → Nat) {j n : Nat} (hj : j < n) :
    ((List.range n).map f).sum = f j + ((List.range n).map fun k => if k = j then 0 else f k).sum := by
  induction n with
  | zero => omega
  | succ n ih =>
    rw [List.range_succ, List.map_append, List.sum_append, List.map_append, List.sum_append]
    by_cases hn : j = n
    · have hothers : (List.range n).map (fun k => if k = j then 0 else f k) = (List.range n).map f := by
        apply List.map_congr_left
        intro k hk
        rw [if_neg (by have := List.mem_range.mp hk; omega)]
      rw [hothers, hn]
      simp
      omega
    · rw [ih (by omega)]
      simp [show n ≠ j from fun h => hn h.symm]
      omega

end

end Gxemul.Lib
