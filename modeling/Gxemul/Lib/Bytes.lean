import Mathlib.Data.List.Basic
import Mathlib.Data.List.GetD
import Mathlib.Data.Nat.Log
import Mathlib.Tactic.Ring

/- Numbers in memory: the bytes of a number in either byte order, and a memory of
   bytes that is read and written by runs of bytes. -/
namespace Gxemul.Lib

abbrev Byte := BitVec 8

/-! ## The bytes of a number -/

/-- The number that bytes stand for, the least significant one first. -/
def leValue : List Byte → Nat
  | [] => 0
  | b :: l => b.toNat + 256 * leValue l

/-- The number that bytes stand for, in big endian byte order or in little endian. -/
def value (big : Bool) (l : List Byte) : Nat := leValue (if big then l.reverse else l)

/-- The `n` low bytes of a number, the least significant one first. -/
def leBytes : Nat → Nat → List Byte
  | 0, _ => []
  | n + 1, x => BitVec.ofNat 8 x :: leBytes n (x / 256)

/-- The `n` low bytes of a number, in big endian byte order or in little endian. -/
def bytes (big : Bool) (n x : Nat) : List Byte := if big then (leBytes n x).reverse else leBytes n x

@[simp] theorem length_leBytes (n x : Nat) : (leBytes n x).length = n := by
  induction n generalizing x with
  | zero => rfl
  | succ n ih => simp [leBytes, ih]

@[simp] theorem length_bytes (big : Bool) (n x : Nat) : (bytes big n x).length = n := by
  unfold bytes
  split <;> simp

theorem leValue_lt (l : List Byte) : leValue l < 256 ^ l.length := by
  induction l with
  | nil => decide
  | cons b l ih =>
    simp only [leValue, List.length_cons, Nat.pow_succ]
    omega

theorem value_lt (big : Bool) (l : List Byte) : value big l < 256 ^ l.length := by
  cases big
  · exact leValue_lt l
  · have := leValue_lt l.reverse
    rwa [List.length_reverse] at this

theorem leValue_append (l l' : List Byte) : leValue (l ++ l') = leValue l + 256 ^ l.length * leValue l' := by
  induction l with
  | nil => simp [leValue]
  | cons b l ih =>
    simp only [List.cons_append, leValue, ih, List.length_cons, Nat.pow_succ]
    ring

theorem leValue_leBytes (n x : Nat) : leValue (leBytes n x) = x % 256 ^ n := by
  induction n generalizing x with
  | zero => simp [leBytes, leValue, Nat.mod_one]
  | succ n ih =>
    rw [leBytes, leValue, ih, BitVec.toNat_ofNat, Nat.pow_succ 256, Nat.mul_comm (256 ^ n) 256, Nat.mod_mul]

/-- Bytes that have been written are read as the number they were written for. -/
theorem value_bytes (big : Bool) (n x : Nat) : value big (bytes big n x) = x % 256 ^ n := by
  unfold value bytes
  cases big <;> simp [leValue_leBytes]

theorem leBytes_leValue (l : List Byte) : leBytes l.length (leValue l) = l := by
  induction l with
  | nil => rfl
  | cons b l ih =>
    have hdiv : (b.toNat + 256 * leValue l) / 256 = leValue l := by omega
    rw [List.length_cons, leValue, leBytes, hdiv, ih]
    congr 1
    apply BitVec.eq_of_toNat_eq
    rw [BitVec.toNat_ofNat]
    omega

theorem bytes_value (big : Bool) (l : List Byte) : bytes big l.length (value big l) = l := by
  unfold value bytes
  cases big
  · exact leBytes_leValue l
  · have := leBytes_leValue l.reverse
    rw [List.length_reverse] at this
    simp [this]

/-- Numbers with the same low bytes. -/
theorem leBytes_inj (n x y : Nat) : leBytes n x = leBytes n y ↔ x % 256 ^ n = y % 256 ^ n := by
  constructor
  · intro h
    rw [← leValue_leBytes, ← leValue_leBytes, h]
  · intro h
    have hx := leBytes_leValue (leBytes n x)
    have hy := leBytes_leValue (leBytes n y)
    rw [length_leBytes, leValue_leBytes] at hx hy
    rw [← hx, ← hy, h]

theorem bytes_inj (big : Bool) (n x y : Nat) : bytes big n x = bytes big n y ↔ x % 256 ^ n = y % 256 ^ n := by
  unfold bytes
  cases big <;> simp [leBytes_inj]

theorem value_inj {big : Bool} {l l' : List Byte} (hlen : l.length = l'.length) (h : value big l = value big l') :
    l = l' := by
  rw [← bytes_value big l, ← bytes_value big l', hlen, h]

/-! ## The bytes of a word -/

section
variable {n : Nat}

/-- Byte `j` of a word, from the least significant one on. -/
def byteOf (x : BitVec n) (j : Nat) : Byte := (x >>> (j * 8)).setWidth 8

/-- A word with another byte `j`. -/
def setByte (x : BitVec n) (j : Nat) (b : Byte) : BitVec n :=
  (x &&& ~~~ ((0xff#8).setWidth n <<< (j * 8))) ||| (b.setWidth n <<< (j * 8))

theorem getLsbD_byteOf (x : BitVec n) (j : Nat) {k : Nat} (hk : k < 8) : (byteOf x j).getLsbD k = x.getLsbD (j * 8 + k) := by
  unfold byteOf
  rw [BitVec.getLsbD_setWidth, BitVec.getLsbD_ushiftRight, decide_eq_true hk, Bool.true_and]

theorem byteOf_setByte (x : BitVec n) (i : Nat) {j : Nat} (b : Byte) (hj : j * 8 + 8 ≤ n) :
    byteOf (setByte x i b) j = if j = i then b else byteOf x j := by
  apply BitVec.eq_of_getLsbD_eq
  intro k hk
  have hff : ∀ m, (0xff#8).getLsbD m = decide (m < 8) := by
    intro m
    by_cases hm : m < 8
    · rw [decide_eq_true hm]
      have hall : ∀ m < 8, (0xff#8).getLsbD m = true := by decide
      exact hall m hm
    · rw [decide_eq_false hm]
      exact BitVec.getLsbD_of_ge _ _ (Nat.le_of_not_lt hm)
  rw [getLsbD_byteOf _ _ hk]
  unfold setByte
  simp only [BitVec.getLsbD_or, BitVec.getLsbD_and, BitVec.getLsbD_not, BitVec.getLsbD_shiftLeft,
    BitVec.getLsbD_setWidth, hff]
  by_cases hij : j = i
  · subst hij
    have h1 : j * 8 + k < n := by omega
    have h2 : j * 8 + k - j * 8 = k := by omega
    have h3 : k < n := by omega
    simp [h1, h2, h3, hk]
  · rw [if_neg hij, getLsbD_byteOf _ _ hk]
    have h1 : j * 8 + k < n := by omega
    by_cases hlt : j * 8 + k < i * 8
    · simp [h1, hlt]
    · have hge : 8 ≤ j * 8 + k - i * 8 := by omega
      have hb : b.getLsbD (j * 8 + k - i * 8) = false := BitVec.getLsbD_of_ge _ _ hge
      have hnot : ¬ j * 8 + k - i * 8 < 8 := by omega
      simp [h1, hlt, hb, hnot]

/-- A word is its bytes. -/
theorem eq_of_byteOf {m : Nat} {x y : BitVec (m * 8)} (h : ∀ j < m, byteOf x j = byteOf y j) : x = y := by
  apply BitVec.eq_of_getLsbD_eq
  intro i hi
  have hbit := congrArg (fun b => b.getLsbD (i % 8)) (h (i / 8) (by omega))
  simp only [getLsbD_byteOf _ _ (Nat.mod_lt i (by decide : 0 < 8))] at hbit
  have hindex : i / 8 * 8 + i % 8 = i := by omega
  rwa [hindex] at hbit

theorem byteOf_setWidth {m : Nat} (x : BitVec n) {j : Nat} (hj : j * 8 + 8 ≤ m) : byteOf (x.setWidth m) j = byteOf x j := by
  apply BitVec.eq_of_getLsbD_eq
  intro k hk
  have hlt : j * 8 + k < m := by omega
  rw [getLsbD_byteOf _ _ hk, getLsbD_byteOf _ _ hk, BitVec.getLsbD_setWidth, decide_eq_true hlt, Bool.true_and]

theorem byteOf_ofNat (x j : Nat) (hj : j * 8 + 8 ≤ n) : byteOf (BitVec.ofNat n x) j = BitVec.ofNat 8 (x / 256 ^ j) := by
  apply BitVec.eq_of_getLsbD_eq
  intro k hk
  have hpow : (256 : Nat) ^ j = 2 ^ (j * 8) := by
    rw [Nat.mul_comm, Nat.pow_mul]
  have hlt : j * 8 + k < n := by omega
  rw [getLsbD_byteOf _ _ hk, hpow, BitVec.getLsbD_ofNat, BitVec.getLsbD_ofNat, Nat.testBit_div_two_pow,
    decide_eq_true hlt, decide_eq_true hk, Nat.add_comm]

theorem getElem?_leBytes (n x j : Nat) : (leBytes n x)[j]? = if j < n then some (BitVec.ofNat 8 (x / 256 ^ j)) else none := by
  induction n generalizing x j with
  | zero => rfl
  | succ n ih =>
    cases j with
    | zero => simp [leBytes]
    | succ j =>
      rw [leBytes, List.getElem?_cons_succ, ih, Nat.div_div_eq_div_mul, Nat.pow_succ']
      simp only [Nat.add_lt_add_iff_right]

/-- Byte `i` of a word, in either byte order. -/
theorem getElem?_bytes (big : Bool) {k : Nat} (x : BitVec n) {i : Nat} (hi : i < k) (hn : k * 8 ≤ n) :
    (bytes big k x.toNat)[i]? = some (byteOf x (if big then k - 1 - i else i)) := by
  have hle : ∀ j < k, (leBytes k x.toNat)[j]? = some (byteOf x j) := by
    intro j hj
    have hx : BitVec.ofNat n x.toNat = x := by
      rw [BitVec.ofNat_toNat, BitVec.setWidth_eq]
    rw [getElem?_leBytes, if_pos hj, ← byteOf_ofNat (n := n) _ _ (by omega), hx]
  unfold bytes
  cases big with
  | false => exact hle i hi
  | true =>
    rw [if_pos rfl, if_pos rfl, List.getElem?_reverse (by rwa [length_leBytes]), length_leBytes]
    exact hle _ (by omega)

/-- The bytes of a number that bytes stand for. -/
theorem byteOf_value (big : Bool) (l : List Byte) {j : Nat} (hj : j < l.length) (hn : j * 8 + 8 ≤ n) :
    some (byteOf (BitVec.ofNat n (value big l)) j) = l[if big then l.length - 1 - j else j]? := by
  have hle : ∀ l : List Byte, j < l.length → some (BitVec.ofNat 8 (leValue l / 256 ^ j)) = l[j]? := by
    intro l hl
    have h := getElem?_leBytes l.length (leValue l) j
    rw [leBytes_leValue, if_pos hl] at h
    exact h.symm
  rw [byteOf_ofNat _ _ hn]
  cases big with
  | false => exact hle l hj
  | true =>
    have h := hle l.reverse (by rwa [List.length_reverse])
    rwa [List.getElem?_reverse hj] at h

end

/-! ## Several puts -/

section
variable {σ β : Type} (get : σ → Nat → β) (put : σ → Nat → β → σ)

/-- Some of `n` values are put in their places, which are different. -/
theorem get_foldl_put {I : σ → Prop} {m n : Nat} (hput : ∀ x i b, I x → I (put x i b))
    (hget : ∀ x i b j, I x → j < m → get (put x i b) j = if j = i then b else get x j)
    {c : Nat → Bool} {r : Nat → Nat} {b : Nat → β} (hr : ∀ i < n, ∀ j < n, c i = true → c j = true → r i = r j → i = j) {x : σ} (hx : I x) :
    I ((List.range n).foldl (fun x i => if c i then put x (r i) (b i) else x) x) ∧
    (∀ i < n, r i < m → c i = true →
      get ((List.range n).foldl (fun x i => if c i then put x (r i) (b i) else x) x) (r i) = b i) ∧
    ∀ j < m, (∀ i < n, c i = true → r i ≠ j) →
      get ((List.range n).foldl (fun x i => if c i then put x (r i) (b i) else x) x) j = get x j := by
  induction n with
  | zero => exact ⟨hx, fun i hi => absurd hi (Nat.not_lt_zero i), fun j _ _ => rfl⟩
  | succ n ih =>
    obtain ⟨hinv, hputs, hkeep⟩ := ih (fun i hi j hj => hr i (Nat.lt_succ_of_lt hi) j (Nat.lt_succ_of_lt hj))
    rw [List.range_succ, List.foldl_append, List.foldl_cons, List.foldl_nil]
    refine ⟨?_, ?_, ?_⟩
    · split
      · exact hput _ _ _ hinv
      · exact hinv
    · intro i hi hm hc
      by_cases hin : i = n
      · subst hin
        rw [if_pos hc, hget _ _ _ _ hinv hm, if_pos rfl]
      · have hlast := hputs i (by omega) hm hc
        split
        · rename_i hcn
          have hne : r i ≠ r n := fun h => hin (hr i hi n (Nat.lt_succ_self n) hc hcn h)
          rw [hget _ _ _ _ hinv hm, if_neg hne]
          exact hlast
        · exact hlast
    · intro j hj hnone
      have hlast := hkeep j hj (fun i hi => hnone i (Nat.lt_succ_of_lt hi))
      split
      · rename_i hc
        rw [hget _ _ _ _ hinv hj, if_neg (hnone n (Nat.lt_succ_self n) hc).symm]
        exact hlast
      · exact hlast

end

/-! ## A memory of bytes -/

/-- A memory. -/
abbrev ByteMem := Nat → Byte

namespace ByteMem
variable (m : ByteMem)

/-- The `n` bytes from `p` on. -/
def read (p n : Nat) : List Byte := (List.range n).map fun i => m (p + i)

/-- The memory after bytes have been written from `p` on. -/
def write (p : Nat) (l : List Byte) : ByteMem := fun a => if p ≤ a then (l[a - p]?).getD (m a) else m a

@[simp] theorem length_read (p n : Nat) : (m.read p n).length = n := by simp [read]

theorem getElem?_read (p n i : Nat) : (m.read p n)[i]? = if i < n then some (m (p + i)) else none := by
  unfold read
  rw [List.getElem?_map]
  split
  · rw [List.getElem?_range ‹_›]
    rfl
  · rw [List.getElem?_eq_none (by simp; omega)]
    rfl

/-- What has been written is read back. -/
theorem read_write (p : Nat) (l : List Byte) : (m.write p l).read p l.length = l := by
  apply List.ext_getElem?
  intro i
  rw [getElem?_read]
  split
  · rename_i hi
    simp [write, hi]
  · rw [List.getElem?_eq_none (by omega)]

/-- The other bytes stay. -/
theorem write_other {p a : Nat} {l : List Byte} (h : a < p ∨ p + l.length ≤ a) : m.write p l a = m a := by
  unfold write
  split
  · rw [List.getElem?_eq_none (by omega)]
    rfl
  · rfl

/-- Two runs of bytes of the same length leave the same memory only if they are the same. -/
theorem write_inj (p : Nat) {l l' : List Byte} (hlen : l.length = l'.length) :
    m.write p l = m.write p l' ↔ l = l' := by
  refine ⟨fun h => ?_, fun h => h ▸ rfl⟩
  have h1 := m.read_write p l
  have h2 := m.read_write p l'
  rw [h, hlen, h2] at h1
  exact h1.symm

/-- Writes to different places can be done in either order. -/
theorem write_comm {p q : Nat} {l l' : List Byte} (h : p + l.length ≤ q ∨ q + l'.length ≤ p) :
    (m.write p l).write q l' = (m.write q l').write p l := by
  funext a
  by_cases hp : a < p ∨ p + l.length ≤ a
  · rw [write_other _ hp]
    show (if q ≤ a then (l'[a - q]?).getD (m.write p l a) else m.write p l a) = _
    rw [write_other _ hp]
    rfl
  · have hq : a < q ∨ q + l'.length ≤ a := by omega
    rw [write_other _ hq]
    show _ = if p ≤ a then (l[a - p]?).getD (m.write q l' a) else m.write q l' a
    rw [write_other _ hq]
    rfl

/-- A run of bytes is written one byte after the other. -/
theorem write_cons (p : Nat) (b : Byte) (l : List Byte) : m.write p (b :: l) = (m.write p [b]).write (p + 1) l := by
  funext a
  unfold write
  by_cases hlt : a < p
  · have h1 : ¬ p ≤ a := Nat.not_le.mpr hlt
    have h2 : ¬ p + 1 ≤ a := by omega
    rw [if_neg h1, if_neg h2, if_neg h1]
  · by_cases heq : a = p
    · subst heq
      simp
    · -- beyond its first byte
      obtain ⟨k, rfl⟩ : ∃ k, a = p + 1 + k := ⟨a - (p + 1), by omega⟩
      have hsub : p + 1 + k - p = k + 1 := by omega
      simp [hsub, Nat.le_add_right, show p ≤ p + 1 + k by omega]

/-! ## Several writes -/

section
variable {ι : Type} (ptr : ι → Nat) (f : ι → List Byte)

/-- The memory after the bytes of each item of a list have been written. -/
def writeAll (l : List ι) : ByteMem := l.foldl (fun m i => m.write (ptr i) (f i)) m

/-- The items of a list are written to different places. -/
def Apart (l : List ι) : Prop :=
  ∀ i ∈ l, ∀ j ∈ l, i ≠ j → ptr i + (f i).length ≤ ptr j ∨ ptr j + (f j).length ≤ ptr i

variable {ptr f} {l l' : List ι}

/-- The order does not matter. -/
theorem writeAll_perm (hl : l.Perm l') (h : Apart ptr f l) : m.writeAll ptr f l = m.writeAll ptr f l' := by
  refine hl.foldl_eq' (fun i hi j hj m => ?_) m
  by_cases hij : i = j
  · rw [hij]
  · exact write_comm m (h i hi j hj hij)

theorem writeAll_other {a : Nat} (h : ∀ i ∈ l, a < ptr i ∨ ptr i + (f i).length ≤ a) : m.writeAll ptr f l a = m a := by
  induction l generalizing m with
  | nil => rfl
  | cons i l ih =>
    calc (m.write (ptr i) (f i)).writeAll ptr f l a = m.write (ptr i) (f i) a :=
          ih _ fun j hj => h j (List.mem_cons_of_mem _ hj)
      _ = m a := write_other _ (h i List.mem_cons_self)

/-- Each item is found where it has been written. -/
theorem read_writeAll (hnodup : l.Nodup) (h : Apart ptr f l) {i : ι} (hi : i ∈ l) :
    (m.writeAll ptr f l).read (ptr i) (f i).length = f i := by
  induction l generalizing m with
  | nil => cases hi
  | cons j l ih =>
    obtain ⟨hj, hnodup⟩ := List.nodup_cons.mp hnodup
    obtain rfl | hi := List.mem_cons.mp hi
    · have hsame : ((m.write (ptr i) (f i)).writeAll ptr f l).read (ptr i) (f i).length =
          (m.write (ptr i) (f i)).read (ptr i) (f i).length := by
        refine List.map_congr_left fun k hk => writeAll_other _ fun j' hj' => ?_
        have := h i List.mem_cons_self j' (List.mem_cons_of_mem _ hj') (fun he => hj (he ▸ hj'))
        have := List.mem_range.mp hk
        omega
      exact hsame.trans (read_write m _ _)
    · exact ih _ hnodup (fun i hi j hj => h i (List.mem_cons_of_mem _ hi) j (List.mem_cons_of_mem _ hj)) hi

/-- Two runs of writes to the same places leave the same memory only if they write the same. -/
theorem writeAll_inj {g : ι → List Byte} (hnodup : l.Nodup) (h : Apart ptr f l)
    (hlen : ∀ i ∈ l, (g i).length = (f i).length) :
    m.writeAll ptr f l = m.writeAll ptr g l ↔ ∀ i ∈ l, f i = g i := by
  have hg : Apart ptr g l := fun i hi j hj hij => by
    rw [hlen i hi, hlen j hj]
    exact h i hi j hj hij
  constructor
  · intro heq i hi
    calc f i = (m.writeAll ptr f l).read (ptr i) (f i).length := (read_writeAll m hnodup h hi).symm
      _ = (m.writeAll ptr g l).read (ptr i) (g i).length := by rw [heq, hlen i hi]
      _ = g i := read_writeAll m hnodup hg hi
  · intro heq
    exact List.foldl_ext _ _ m fun m i hi => by rw [heq i hi]

end

end ByteMem

end Gxemul.Lib

/- Runs of bytes that follow each other: the bytes of a number of two parts, and such
   runs in a memory. -/
namespace Gxemul.Lib

section
variable {x y n k : Nat}

/-- The part with the low bytes comes first. -/
theorem leBytes_add (hy : y < 256 ^ n) : leBytes (n + k) (256 ^ n * x + y) = leBytes n y ++ leBytes k x := by
  induction n generalizing y with
  | zero =>
    have hzero : y = 0 := by
      rw [Nat.pow_zero] at hy
      omega
    subst hzero
    rw [Nat.zero_add, Nat.pow_zero, Nat.one_mul, Nat.add_zero]
    rfl
  | succ n ih =>
    have hlow : BitVec.ofNat 8 (256 ^ (n + 1) * x + y) = BitVec.ofNat 8 y := by
      apply BitVec.eq_of_toNat_eq
      rw [BitVec.toNat_ofNat, BitVec.toNat_ofNat, Nat.pow_succ 256, Nat.mul_comm (256 ^ n), Nat.mul_assoc]
      omega
    have hhigh : (256 ^ (n + 1) * x + y) / 256 = 256 ^ n * x + y / 256 := by
      rw [Nat.pow_succ 256, Nat.mul_comm (256 ^ n), Nat.mul_assoc]
      omega
    have hlt : y / 256 < 256 ^ n := by
      rw [Nat.pow_succ] at hy
      omega
    rw [Nat.succ_add_eq_add_succ, Nat.add_succ, leBytes, leBytes, hlow, hhigh, ih hlt, List.cons_append]

/-- In big endian byte order the part with the high bytes comes first. -/
theorem bytes_add (big : Bool) (hy : y < 256 ^ n) :
    bytes big (n + k) (256 ^ n * x + y) =
      if big then bytes big k x ++ bytes big n y else bytes big n y ++ bytes big k x := by
  unfold bytes
  cases big with
  | true =>
    rw [if_pos rfl, if_pos rfl, if_pos rfl, if_pos rfl, leBytes_add hy, List.reverse_append]
  | false =>
    rw [if_neg (by decide), if_neg (by decide), if_neg (by decide), if_neg (by decide), leBytes_add hy]

theorem value_append (big : Bool) (l l' : List Byte) :
    value big (l ++ l') =
      if big then 256 ^ l'.length * value big l + value big l' else 256 ^ l.length * value big l' + value big l := by
  unfold value
  cases big with
  | true =>
    rw [if_pos rfl, if_pos rfl, if_pos rfl, if_pos rfl, List.reverse_append, leValue_append, List.length_reverse,
      Nat.add_comm]
  | false =>
    rw [if_neg (by decide), if_neg (by decide), if_neg (by decide), if_neg (by decide), leValue_append, Nat.add_comm]

end

namespace ByteMem
variable (m : ByteMem) (p : Nat)

theorem read_add (n k : Nat) : m.read p (n + k) = m.read p n ++ m.read (p + n) k := by
  unfold read
  rw [List.range_add, List.map_append, List.map_map]
  refine congrArg _ (List.map_congr_left fun i _ => ?_)
  rw [Function.comp_apply, Nat.add_assoc]

theorem write_append (l l' : List Byte) : m.write p (l ++ l') = (m.write p l).write (p + l.length) l' := by
  funext a
  unfold write
  by_cases hp : p ≤ a
  · by_cases hl : p + l.length ≤ a
    · rw [if_pos hp, if_pos hl, if_pos hp, List.getElem?_append_right (by omega), Nat.sub_add_eq,
        List.getElem?_eq_none (l := l) (by omega), Option.getD_none]
    · rw [if_pos hp, if_neg hl, if_pos hp, List.getElem?_append_left (by omega)]
  · rw [if_neg hp, if_neg (by omega), if_neg hp]

end ByteMem

end Gxemul.Lib

/- Files of bytes that are read and written at a position. A read stops at the end
   of the file, and a write behind the end fills the gap with zeros. `byteAt` is
   the byte at a position, zero behind the end; `byteAt_write` says what a write
   does to it. -/
namespace Gxemul.Lib

abbrev File := List Byte

namespace File
variable (f : File)

/-- `fread()` of `n` bytes at position `pos`. -/
def read (pos n : Nat) : List Byte := (f.drop pos).take n

/-- `fwrite()` at position `pos`. -/
def write (pos : Nat) (data : List Byte) : File :=
  f.take pos ++ List.replicate (pos - f.length) 0#8 ++ data ++ f.drop (pos + data.length)

/-- The byte at a position. Behind the end it is zero. -/
def byteAt (i : Nat) : Byte := f.getD i 0#8

variable {f} {pos n i : Nat} {data : List Byte}

theorem length_read : (f.read pos n).length = min n (f.length - pos) := by
  simp [read]

theorem getD_read (hi : i < n) : (f.read pos n).getD i 0#8 = f.byteAt (pos + i) := by
  simp [read, byteAt, List.getD_eq_getElem?_getD, List.getElem?_drop, hi]

/-- A byte is the written one inside the written range, and the old one elsewhere. -/
theorem byteAt_write : (f.write pos data).byteAt i =
    if pos ≤ i ∧ i < pos + data.length then data.getD (i - pos) 0#8 else f.byteAt i := by
  have hlen : (f.take pos ++ List.replicate (pos - f.length) 0#8).length = pos := by
    simp
    omega
  unfold write byteAt
  simp only [List.getD_eq_getElem?_getD]
  by_cases hlow : i < pos
  · rw [if_neg (by omega), List.append_assoc, List.getElem?_append_left (by rw [hlen]; exact hlow)]
    by_cases hf : i < f.length
    · rw [List.getElem?_append_left (by simp; omega), List.getElem?_take, if_pos hlow]
    · rw [List.getElem?_append_right (by simp; omega), List.getElem?_replicate, List.getElem?_eq_none (by omega)]
      split <;> rfl
  · by_cases hin : i < pos + data.length
    · rw [if_pos (by omega), List.getElem?_append_left (by simp; omega), List.getElem?_append_right (by omega), hlen]
    · rw [if_neg (by omega), List.getElem?_append_right (by simp; omega), List.getElem?_drop]
      congr 2
      simp
      omega

/-- A read in two parts. -/
theorem read_append {m : Nat} : f.read pos n ++ f.read (pos + n) m = f.read pos (n + m) := by
  rw [read, read, read, List.take_add, List.drop_drop]

/-- A part of what has been read. -/
theorem take_drop_read {k m : Nat} : ((f.read pos n).drop k).take m = f.read (pos + k) (min m (n - k)) := by
  rw [read, read, List.drop_take, List.take_take, List.drop_drop]

/-- A read of one byte. -/
theorem read_one : f.read i 1 = if i < f.length then [f.byteAt i] else [] := by
  unfold read byteAt
  split
  · rename_i h
    rw [List.getD_eq_getElem f 0#8 h, List.drop_eq_getElem_cons h]
    rfl
  · rw [List.drop_eq_nil_of_le (by omega)]
    rfl

end File

end Gxemul.Lib
