import Gxemul.Lib.Bytes
import Gxemul.Memory.Data
import Gxemul.Ppc.LoadStore

/- What PowerPC loads and stores do, and when each byte is accessed where its own address is
   translated to.

   LS_GENERIC_N does not go on at a page boundary. The words of X(lmw) and X(stmw) do, with the
   translation of their first bytes. X(lswi) and X(stswi) translate every byte. -/
namespace Gxemul.Ppc
open Lib (Byte ByteMem value bytes)
open Mips (LsSize)

/-! ## Loaded values -/

def LsForm.archValue (f : LsForm) (data : List Byte) : Reg :=
  let x := BitVec.ofNat 64 (value (!f.reverse) data)
  if f.zero || f.reverse then x
  else
    match f.size with
    | .ls1 => (x.setWidth 8).signExtend 64
    | .ls2 => (x.setWidth 16).signExtend 64
    | .ls4 => (x.setWidth 32).signExtend 64
    | .ls8 => x

section
variable (a b c d : Byte)

theorem half_sum : ((a.setWidth 32 <<< 8) + b.setWidth 32 : Word) = BitVec.ofNat 32 (value true [a, b]) := by
  apply BitVec.eq_of_toNat_eq
  simp only [BitVec.toNat_add, BitVec.toNat_shiftLeft, BitVec.toNat_setWidth, BitVec.toNat_ofNat, Nat.shiftLeft_eq, value,
    Lib.leValue, List.reverse_cons, List.reverse_nil, List.nil_append, List.cons_append, if_true]
  omega

theorem word_sum : ((a.setWidth 32 <<< 24) + (b.setWidth 32 <<< 16) + (c.setWidth 32 <<< 8) + d.setWidth 32 : Word) =
    BitVec.ofNat 32 (value true [a, b, c, d]) := by
  apply BitVec.eq_of_toNat_eq
  simp only [BitVec.toNat_add, BitVec.toNat_shiftLeft, BitVec.toNat_setWidth, BitVec.toNat_ofNat, Nat.shiftLeft_eq, value,
    Lib.leValue, List.reverse_cons, List.reverse_nil, List.nil_append, List.cons_append, if_true]
  omega

theorem value_reverse (big : Bool) (l : List Byte) : value (!big) l = value big l.reverse := by
  unfold value
  cases big <;> simp

theorem signExtend_word (x : Word) : x.signExtend 64 = x.setWidth 64 ↔ x.msb = false := by
  constructor
  · intro h
    have hbit := congrArg (·.getLsbD 32) h
    simp only [BitVec.getLsbD_signExtend, BitVec.getLsbD_setWidth, BitVec.getLsbD_of_ge x 32 (le_refl 32)] at hbit
    simpa using hbit
  · exact BitVec.signExtend_eq_setWidth_of_msb_false

def wordIn (big : Bool) (data : List Byte) : Word := BitVec.ofNat 32 (value big data)

theorem setWidth_ofNat {n : Nat} (hn : n ≤ 64) {v : Nat} (hv : v < 2 ^ n) :
    (BitVec.ofNat n v).setWidth 64 = BitVec.ofNat 64 v := by
  apply BitVec.eq_of_toNat_eq
  rw [BitVec.toNat_setWidth, BitVec.toNat_ofNat, BitVec.toNat_ofNat, Nat.mod_eq_of_lt hv]

theorem setWidth_low_ofNat {m n : Nat} (hn : n ≤ m) (v : Nat) : (BitVec.ofNat m v).setWidth n = BitVec.ofNat n v := by
  apply BitVec.eq_of_toNat_eq
  rw [BitVec.toNat_setWidth, BitVec.toNat_ofNat, BitVec.toNat_ofNat, Nat.mod_mod_of_dvd]
  exact Nat.pow_dvd_pow 2 hn

theorem half_lt (big : Bool) : value big [a, b] < 2 ^ 16 := lt_of_lt_of_eq (Lib.value_lt big [a, b]) (by norm_num)

theorem word_lt (big : Bool) : value big [a, b, c, d] < 2 ^ 32 :=
  lt_of_lt_of_eq (Lib.value_lt big [a, b, c, d]) (by norm_num)

theorem double_sum (p : Nat → Byte) :
    ((p 0).setWidth 64 <<< 56) + ((p 1).setWidth 64 <<< 48) + ((p 2).setWidth 64 <<< 40) + ((p 3).setWidth 64 <<< 32) +
      ((p 4).setWidth 64 <<< 24) + ((p 5).setWidth 32 <<< 16 : Word).signExtend 64 +
      ((p 6).setWidth 32 <<< 8 : Word).signExtend 64 + (p 7).setWidth 64 =
    BitVec.ofNat 64 (value true [p 0, p 1, p 2, p 3, p 4, p 5, p 6, p 7]) := by
  have hb (k : Nat) : (p k).toNat < 256 := (p k).isLt
  have hshift (k n : Nat) (hn : n ≤ 16) :
      (((p k).setWidth 32 <<< n : Word).signExtend 64).toNat = (p k).toNat * 2 ^ n := by
    have hlt : (p k).toNat * 2 ^ n < 2 ^ 31 := by
      have hpow : 2 ^ n ≤ 2 ^ 16 := Nat.pow_le_pow_right (by decide) hn
      calc (p k).toNat * 2 ^ n ≤ (p k).toNat * 2 ^ 16 := Nat.mul_le_mul_left _ hpow
        _ < 2 ^ 31 := by have := hb k; omega
    have hnat : ((p k).setWidth 32 <<< n : Word).toNat = (p k).toNat * 2 ^ n := by
      have hsmall : (p k).toNat % 2 ^ 32 = (p k).toNat := Nat.mod_eq_of_lt (by have := hb k; omega)
      rw [BitVec.toNat_shiftLeft, BitVec.toNat_setWidth, Nat.shiftLeft_eq, hsmall, Nat.mod_eq_of_lt (by omega)]
    have hmsb : ((p k).setWidth 32 <<< n : Word).msb = false := by
      rw [BitVec.msb_eq_decide, hnat, decide_eq_false_iff_not]
      omega
    rw [(signExtend_word _).mpr hmsb, BitVec.toNat_setWidth, hnat, Nat.mod_eq_of_lt (by omega)]
  apply BitVec.eq_of_toNat_eq
  simp only [BitVec.toNat_add, hshift 5 16 (le_refl 16), hshift 6 8 (by decide), BitVec.toNat_shiftLeft, BitVec.toNat_setWidth,
    BitVec.toNat_ofNat, Nat.shiftLeft_eq, value, Lib.leValue, List.reverse_cons, List.reverse_nil, List.nil_append,
    List.cons_append, if_true]
  omega

theorem loadValue_eq (f : LsForm) (p : Nat → Byte) (hrev : f.reverse = true → f.size = .ls2) :
    f.loadValue p = f.archValue ((List.range f.size.toNat).map p) := by
  unfold LsForm.loadValue LsForm.archValue
  cases hsize : f.size with
  | ls1 =>
    have hno : f.reverse = false := by
      cases h : f.reverse with
      | true => exact absurd (hsize.symm.trans (hrev h)) (by decide)
      | false => rfl
    have hlist : (List.range LsSize.ls1.toNat).map p = [p 0] := rfl
    have hbyte : value (!f.reverse) [p 0] = (p 0).toNat := by
      unfold value
      cases f.reverse <;> simp [Lib.leValue]
    have hlow : BitVec.ofNat 64 (p 0).toNat = (p 0).setWidth 64 := (BitVec.ofNat_toNat 64 (p 0))
    rw [hlist, hbyte, hlow, hno]
    cases f.zero with
    | true => rfl
    | false =>
      rw [if_neg (by decide), if_neg (by decide), BitVec.setWidth_setWidth_of_le _ (by decide), BitVec.setWidth_eq]
  | ls2 =>
    have hlist : (List.range LsSize.ls2.toNat).map p = [p 0, p 1] := rfl
    have hpos (l : List Byte) (hl : value true l < 2 ^ 16) :
        (BitVec.ofNat 32 (value true l)).signExtend 64 = BitVec.ofNat 64 (value true l) := by
      have hmsb : (BitVec.ofNat 32 (value true l)).msb = false := by
        rw [BitVec.msb_eq_decide, BitVec.toNat_ofNat, decide_eq_false_iff_not]
        omega
      rw [(signExtend_word _).mpr hmsb, setWidth_ofNat (by decide) (by omega)]
    dsimp only
    rw [hlist, half_sum, half_sum, hpos _ (half_lt _ _ true), hpos _ (half_lt _ _ true)]
    cases f.reverse with
    | true =>
      rw [if_pos rfl, Bool.or_true, if_pos rfl]
      exact congrArg (BitVec.ofNat 64) (value_reverse true [p 0, p 1]).symm
    | false =>
      rw [if_neg (by decide), Bool.or_false, Bool.not_false]
      cases f.zero with
      | true => rw [if_pos rfl, if_pos rfl]
      | false =>
        rw [if_neg (by decide), if_neg (by decide), setWidth_low_ofNat (by decide)]
        rw [setWidth_low_ofNat (by decide)]
  | ls4 =>
    have hno : f.reverse = false := by
      cases h : f.reverse with
      | true => exact absurd (hsize.symm.trans (hrev h)) (by decide)
      | false => rfl
    have hlist : (List.range LsSize.ls4.toNat).map p = [p 0, p 1, p 2, p 3] := rfl
    dsimp only
    rw [hlist, hno, if_neg (by decide), word_sum, Bool.or_false, Bool.not_false]
    cases f.zero with
    | true =>
      rw [if_pos rfl, if_pos rfl]
      exact setWidth_ofNat (by decide) (word_lt _ _ _ _ true)
    | false =>
      rw [if_neg (by decide), if_neg (by decide), setWidth_low_ofNat (by decide)]
  | ls8 =>
    have hno : f.reverse = false := by
      cases h : f.reverse with
      | true => exact absurd (hsize.symm.trans (hrev h)) (by decide)
      | false => rfl
    have hlist : (List.range LsSize.ls8.toNat).map p = [p 0, p 1, p 2, p 3, p 4, p 5, p 6, p 7] := rfl
    dsimp only
    rw [hlist, hno, Bool.or_false, Bool.not_false, double_sum, ite_self]

theorem loadValue_lwbrx (f : LsForm) (p : Nat → Byte) (hsize : f.size = .ls4) (hrev : f.reverse = true) :
    f.loadValue p = (wordIn false ((List.range 4).map p)).signExtend 64 ∧
      f.archValue ((List.range 4).map p) = (wordIn false ((List.range 4).map p)).setWidth 64 := by
  have hlist : (List.range 4).map p = [p 0, p 1, p 2, p 3] := rfl
  unfold LsForm.loadValue LsForm.archValue wordIn
  rw [hsize, hrev, hlist]
  dsimp only
  rw [if_pos rfl, Bool.or_true, if_pos rfl, word_sum, setWidth_ofNat (by decide) (word_lt _ _ _ _ false)]
  exact ⟨rfl, rfl⟩

end

/-! ## Stored values -/

theorem shifted_byte (x : Reg) (n : Nat) : (x >>> n).setWidth 8 = BitVec.ofNat 8 (x.toNat / 2 ^ n) := by
  apply BitVec.eq_of_toNat_eq
  rw [BitVec.toNat_setWidth, BitVec.toNat_ushiftRight, BitVec.toNat_ofNat, Nat.shiftRight_eq_div_pow]

theorem leBytes_eq_map (n x : Nat) : Lib.leBytes n x = (List.range n).map fun j => BitVec.ofNat 8 (x / 2 ^ (8 * j)) := by
  induction n generalizing x with
  | zero => rfl
  | succ n ih =>
    have hnext (j : Nat) : x / 256 / 2 ^ (8 * j) = x / 2 ^ (8 * (j + 1)) := by
      rw [Nat.div_div_eq_div_mul, Nat.mul_add, Nat.pow_add, Nat.mul_comm]
    have hfirst : x = x / 2 ^ (8 * 0) := (Nat.div_one x).symm
    rw [Lib.leBytes, ih, List.range_succ_eq_map, List.map_cons, List.map_map, ← hfirst]
    exact congrArg _ (List.map_congr_left fun j _ => congrArg (BitVec.ofNat 8) (hnext j))

theorem storeBytes_eq (f : LsForm) (x : Reg) (hrev : f.reverse = true → f.size = .ls2 ∨ f.size = .ls4) :
    f.storeBytes x = bytes (!f.reverse) f.size.toNat x.toNat := by
  have hno (h : f.size ≠ .ls2) (h' : f.size ≠ .ls4) : f.reverse = false := by
    cases hr : f.reverse with
    | true => exact ((hrev hr).elim h h').elim
    | false => rfl
  unfold LsForm.storeBytes bytes
  simp only [shifted_byte, leBytes_eq_map]
  cases hsize : f.size with
  | ls1 =>
    rw [hno (by rw [hsize]; decide) (by rw [hsize]; decide)]
    rfl
  | ls2 => cases f.reverse <;> rfl
  | ls4 => cases f.reverse <;> rfl
  | ls8 =>
    rw [hno (by rw [hsize]; decide) (by rw [hsize]; decide)]
    rfl

/-! ## Addresses and pages -/

namespace PpcCpu
variable (c : PpcCpu)

def space : Nat := if c.is32bit then 2 ^ 32 else 2 ^ 64

/-- The address of a byte of the operand at `a`. -/
def byteAddr (a : Addr) (k : Nat) : Addr := c.modeUint (a + BitVec.ofNat 64 k)

/-- `n` bytes at `a` are on two pages. -/
def straddles (a : Addr) (n : Nat) : Prop := 4096 < a.toNat % 4096 + n

variable {c} {a : Addr} {k : Nat}

variable (c) in
theorem space_cases : c.space = 2 ^ 32 ∨ c.space = 2 ^ 64 := by
  unfold space
  split
  · exact .inl rfl
  · exact .inr rfl

theorem toNat_modeUint (x : Reg) : (c.modeUint x).toNat = x.toNat % c.space := by
  unfold modeUint space
  split
  · rw [BitVec.toNat_setWidth, BitVec.toNat_setWidth]
    omega
  · omega

theorem modeUint_lt (x : Reg) : (c.modeUint x).toNat < c.space := by
  rw [toNat_modeUint]
  apply Nat.mod_lt
  unfold space
  split <;> decide

theorem toNat_byteAddr : (c.byteAddr a k).toNat = (a.toNat + k) % c.space := by
  have hdvd : c.space ∣ 2 ^ 64 := by
    unfold space
    split
    · exact Nat.pow_dvd_pow 2 (by decide)
    · exact dvd_refl _
  unfold byteAddr
  rw [toNat_modeUint, BitVec.toNat_add, BitVec.toNat_ofNat, Nat.add_mod_mod, Nat.mod_mod_of_dvd _ hdvd]

theorem toNat_byteAddr_of_fits (ha : a.toNat < c.space) (hk : a.toNat % 4096 + k < 4096) :
    (c.byteAddr a k).toNat = a.toNat + k := by
  rw [toNat_byteAddr]
  apply Nat.mod_eq_of_lt
  rcases c.space_cases with h | h
  · rw [h] at ha ⊢
    omega
  · rw [h] at ha ⊢
    omega

theorem toNat_page (a : Addr) : (a.extractLsb' 12 52).toNat = a.toNat / 4096 := by
  rw [BitVec.extractLsb'_toNat, Nat.shiftRight_eq_div_pow]
  omega

theorem page_eq {a b : Addr} (h : a.toNat / 4096 = b.toNat / 4096) : a.extractLsb' 12 52 = b.extractLsb' 12 52 := by
  apply BitVec.eq_of_toNat_eq
  rw [toNat_page, toNat_page, h]

theorem page_last {i j : Nat} (hi : 4096 ≤ a.toNat % 4096 + i) (hij : i ≤ j) (hj : j < 4096) :
    (c.byteAddr a i).toNat / 4096 = (c.byteAddr a j).toNat / 4096 ∧
      (c.byteAddr a i).toNat % 4096 = a.toNat % 4096 + i - 4096 := by
  rw [toNat_byteAddr, toNat_byteAddr]
  rcases c.space_cases with h | h
  · rw [h]
    omega
  · rw [h]
    omega

end PpcCpu

section
variable {ρ : Type} {M : MemorySystem ρ} {m : LsMachine ρ} {w : Bool} {a : Addr} {p k n : Nat}

theorem translate_byte (ha : a.toNat < m.cpu.space) (hp : M.translate m.rest m.mem w a = some p)
    (hk : a.toNat % 4096 + k < 4096) : M.translate m.rest m.mem w (m.cpu.byteAddr a k) = some (p + k) := by
  have hnat := PpcCpu.toNat_byteAddr_of_fits ha hk
  have hpage : (m.cpu.byteAddr a k).extractLsb' 12 52 = a.extractLsb' 12 52 := by
    apply PpcCpu.page_eq
    omega
  unfold MemorySystem.translate at hp ⊢
  rw [hpage, hnat]
  obtain ⟨q, hq, rfl⟩ := Option.map_eq_some_iff.mp hp
  rw [hq, Option.map_some]
  have hsum : q * 4096 + (a.toNat + k) % 4096 = q * 4096 + a.toNat % 4096 + k := by omega
  rw [hsum]

theorem own_of_fits (ha : a.toNat < m.cpu.space) (hp : M.translate m.rest m.mem w a = some p)
    (hn : a.toNat % 4096 + n ≤ 4096) : m.own M w a n = (List.range n).map fun k => some (p + k) := by
  refine List.map_congr_left fun k hk => translate_byte ha hp ?_
  have hlt := List.mem_range.mp hk
  omega

/-- An access that is on two pages goes on with the physical page after the first one. -/
def MemorySystem.Contiguous (M : MemorySystem ρ) (c : PpcCpu) (rest : ρ) (mem : ByteMem) (w : Bool) (a : Addr) (n : Nat) :
    Prop :=
  PpcCpu.straddles a n → M.translatePage rest mem w ((c.byteAddr a (n - 1)).extractLsb' 12 52) =
    (M.translatePage rest mem w (a.extractLsb' 12 52)).map (· + 1)

theorem own_iff (ha : a.toNat < m.cpu.space) (hp : M.translate m.rest m.mem w a = some p) (hn : n ≤ 4096) :
    (m.own M w a n = (List.range n).map fun k => some (p + k)) ↔ M.Contiguous m.cpu m.rest m.mem w a n := by
  unfold MemorySystem.Contiguous
  by_cases hcross : PpcCpu.straddles a n
  · have hcross' : 4096 < a.toNat % 4096 + n := hcross
    obtain ⟨q, hq, rfl⟩ := Option.map_eq_some_iff.mp hp
    rw [forall_prop_of_true hcross, hq, Option.map_some]
    constructor
    · intro h
      have hget := congrArg (·[n - 1]?) h
      have hrange : (List.range n)[n - 1]? = some (n - 1) := by
        rw [List.getElem?_range (by omega)]
      have hown : M.translate m.rest m.mem w (m.cpu.byteAddr a (n - 1)) = some (q * 4096 + a.toNat % 4096 + (n - 1)) := by
        simpa [LsMachine.own, PpcCpu.byteAddr, hrange] using hget
      obtain ⟨q', hq', heq⟩ := Option.map_eq_some_iff.mp hown
      have hnext : q' = q + 1 := by omega
      rw [hq', hnext]
    · intro h
      refine List.map_congr_left fun k hk => ?_
      have hlt := List.mem_range.mp hk
      by_cases hfits : a.toNat % 4096 + k < 4096
      · exact translate_byte ha hp hfits
      · obtain ⟨hpage, hofs⟩ :=
          PpcCpu.page_last (c := m.cpu) (a := a) (i := k) (j := n - 1) (by omega) (by omega) (by omega)
        change M.translate m.rest m.mem w (m.cpu.byteAddr a k) = _
        unfold MemorySystem.translate
        have hsum : (q + 1) * 4096 + (a.toNat % 4096 + k - 4096) = q * 4096 + a.toNat % 4096 + k := by omega
        rw [PpcCpu.page_eq hpage, h, Option.map_some, hofs, hsum]
  · have hfits : a.toNat % 4096 + n ≤ 4096 := by
      unfold PpcCpu.straddles at hcross
      omega
    exact iff_of_true (own_of_fits ha hp hfits) fun h => absurd h hcross

end

/-! ## LS_N and LS_GENERIC_N -/

structure SameResult {ρ : Type} (m m' : LsMachine ρ) : Prop where
  gpr : m.cpu.gpr = m'.cpu.gpr
  mem : m.mem = m'.mem
  running : m.running = m'.running

section
variable {ρ : Type} (M : MemorySystem ρ)

def MemorySystem.IsRam (rest : ρ) (mem : ByteMem) (write : Bool) (p : Nat) (data : List Byte) : Prop :=
  let r := M.access rest mem write p data
  r.ok = true ∧ r.running = true ∧ r.mem = (if write then mem.write p data else mem) ∧
    (write = false → r.data = mem.read p data.length)

/-- The tables map pages to the RAM that memory_rw() accesses. -/
structure MemorySystem.Tables (m : LsMachine ρ) : Prop where
  translated : ∀ store page q, M.hostPage m.rest store page = some q →
    M.translatePage m.rest m.mem store (page.setWidth 52) = some q
  ram : ∀ store page q ofs data, M.hostPage m.rest store page = some q → ofs + data.length ≤ 4096 →
    M.IsRam m.rest m.mem store (q * 4096 + ofs) data

structure OwnBytes (events : List LsEvent) : Prop where
  completes : LsEvent.refused ∉ events
  own : ∀ w a p data own, LsEvent.access w a p data own ∈ events → own = (List.range data.length).map fun k => some (p + k)

namespace LsInstr
variable (i : LsInstr) (m : LsMachine ρ)

def archBytes (c : PpcCpu) : List Byte :=
  bytes (!i.form.reverse) i.form.size.toNat (if i.form.size = .ls8 then c.gpr i.rs else c.reg i.rs).toNat

def archResult (c : PpcCpu) (data : List Byte) : PpcCpu :=
  let c' :=
    if i.form.load then
      if i.form.size = .ls8 then c.setGpr i.rs (i.form.archValue data) else c.setReg i.rs (i.form.archValue data)
    else c
  i.updated c' (i.addr c)

/-- The access has been done, with all that follows from it, or else nothing but what ppc_translate_v2p() does
when it fails. -/
def Settled (r : LsMachine ρ × List LsEvent) : Prop :=
  (∃ p data own, r.2 = [.access (!i.form.load) (i.addr m.cpu) p data own] ∧
    (i.form.load = false → data = i.archBytes m.cpu) ∧ r.1.cpu.gpr = (i.archResult m.cpu data).gpr) ∨
  ((r.2 = [.failed] ∨ r.2 = [.refused]) ∧
    (r.1.cpu.gpr = m.cpu.gpr ∨
      r.1.cpu.gpr = (M.raise m.rest m.mem (!i.form.load) (i.addr m.cpu) (m.cpu.syncPc i.lowPc)).gpr))

variable {M i m}

theorem addr_lt : (i.addr m.cpu).toNat < m.cpu.space := PpcCpu.modeUint_lt _

theorem lsAddr_eq : i.lsAddr m.cpu = i.addr m.cpu := by
  unfold lsAddr
  split
  · rename_i hzero
    unfold ignoreofs at hzero
    rw [Bool.and_eq_true, Bool.not_eq_true', beq_iff_eq] at hzero
    unfold addr
    rw [hzero.1, hzero.2, if_neg (by decide)]
    exact congrArg m.cpu.modeUint (BitVec.add_zero _).symm
  · rfl

theorem crosses_iff (f : LsForm) (a : Addr) :
    f.crosses a = true ↔ f.size ≠ .ls1 ∧ 4096 < a.toNat % 4096 + f.size.toNat := by
  have hmask : (a &&& 0xfff#64).toNat = a.toNat % 4096 := by
    rw [BitVec.toNat_and]
    exact Nat.and_two_pow_sub_one_eq_mod _ 12
  unfold LsForm.crosses
  rw [Bool.and_eq_true, bne_iff_ne, decide_eq_true_iff, hmask]
  refine and_congr_right fun _ => ?_
  omega

theorem length_stored (c : PpcCpu) : (i.stored c).length = i.form.size.toNat := by
  unfold stored LsForm.storeBytes
  cases i.form.size <;> dsimp only <;> (try split) <;> rfl

theorem lsGeneric_refused (h : i.form.crosses (i.addr m.cpu) = true) :
    i.lsGeneric M m = ({ m with cpu := m.cpu.syncPc i.lowPc, running := false }, [.refused]) := if_pos h

theorem lsGeneric_raise (h : i.form.crosses (i.addr m.cpu) = false)
    (hp : M.translate m.rest m.mem (!i.form.load) (i.addr m.cpu) = none) :
    i.lsGeneric M m = ({ m with
      cpu := M.raise m.rest m.mem (!i.form.load) (i.addr m.cpu) (m.cpu.syncPc i.lowPc) }, [.failed]) := by
  unfold lsGeneric LsMachine.memoryRw
  dsimp only
  rw [h, if_neg (by decide)]
  cases hload : i.form.load with
  | true =>
    rw [hload, Bool.not_true] at hp
    rw [if_pos rfl, hp]
    rfl
  | false =>
    rw [hload, Bool.not_false] at hp
    rw [if_neg (by decide), hp]
    rfl

/-- The data that the instruction gives to memory_rw(). -/
def buffer (i : LsInstr) (c : PpcCpu) : List Byte :=
  if i.form.load then List.replicate i.form.size.toNat 0#8 else i.stored c

theorem length_buffer (c : PpcCpu) : (i.buffer c).length = i.form.size.toNat := by
  unfold buffer
  split
  · exact List.length_replicate
  · exact length_stored c

theorem lsGeneric_access {p : Nat} (h : i.form.crosses (i.addr m.cpu) = false)
    (hp : M.translate m.rest m.mem (!i.form.load) (i.addr m.cpu) = some p) :
    let r := M.access m.rest m.mem (!i.form.load) p (i.buffer m.cpu)
    let m' := { m with cpu := m.cpu.syncPc i.lowPc, mem := r.mem, rest := r.rest, running := m.running && r.running }
    i.lsGeneric M m =
      if r.ok then
        ({ m' with cpu := i.updated (if i.form.load then i.load m'.cpu fun k => r.data.getD k 0#8 else m'.cpu) (i.addr m.cpu) },
          [.access (!i.form.load) (i.addr m.cpu) p (if i.form.load then r.data else i.stored m.cpu)
            (m.own M (!i.form.load) (i.addr m.cpu) i.form.size.toNat)])
      else (m', [.failed]) := by
  have hlen := i.length_buffer m.cpu
  unfold buffer at hlen ⊢
  unfold lsGeneric LsMachine.memoryRw
  dsimp only
  rw [h, if_neg (by decide)]
  cases hload : i.form.load with
  | true =>
    rw [hload, if_pos rfl] at hlen
    rw [hload, Bool.not_true] at hp
    rw [if_pos rfl, if_pos rfl, hp]
    dsimp only
    rw [hlen, Bool.not_true]
    cases (M.access m.rest m.mem false p (List.replicate i.form.size.toNat 0#8)).ok <;> rfl
  | false =>
    rw [hload, if_neg (by decide)] at hlen
    rw [hload, Bool.not_false] at hp
    simp only [Bool.false_eq_true, if_false, Bool.not_false, hp]
    have hstored : i.stored (m.cpu.syncPc i.lowPc) = i.stored m.cpu := rfl
    rw [hstored, hlen]
    cases (M.access m.rest m.mem true p (i.stored m.cpu)).ok <;> rfl

theorem loadValue_congr (f : LsForm) {g h : Nat → Byte} (heq : ∀ k < f.size.toNat, g k = h k) : f.loadValue g = f.loadValue h := by
  unfold LsForm.loadValue
  cases hsize : f.size with
  | ls1 =>
    rw [hsize] at heq
    simp only [heq 0 (by decide)]
  | ls2 =>
    rw [hsize] at heq
    simp only [heq 0 (by decide), heq 1 (by decide)]
  | ls4 =>
    rw [hsize] at heq
    simp only [heq 0 (by decide), heq 1 (by decide), heq 2 (by decide), heq 3 (by decide)]
  | ls8 =>
    rw [hsize] at heq
    simp only [heq 0 (by decide), heq 1 (by decide), heq 2 (by decide), heq 3 (by decide), heq 4 (by decide),
      heq 5 (by decide), heq 6 (by decide), heq 7 (by decide)]

theorem load_congr (c : PpcCpu) {g h : Nat → Byte} (heq : ∀ k < i.form.size.toNat, g k = h k) : i.load c g = i.load c h := by
  unfold load
  rw [loadValue_congr i.form heq]

theorem fits_of_aligned {f : LsForm} {a : Addr} (h : a &&& BitVec.ofNat 64 (f.size.toNat - 1) = 0#64) :
    a.toNat % 4096 + f.size.toNat ≤ 4096 := by
  have hnat := congrArg BitVec.toNat h
  rw [BitVec.toNat_and] at hnat
  have hmod (n : Nat) (hn : n ≤ 3) (hsize : f.size.toNat = 2 ^ n) : a.toNat % 2 ^ n = 0 := by
    have hpow : 2 ^ n ≤ 2 ^ 3 := Nat.pow_le_pow_right (by decide) hn
    rw [hsize, BitVec.toNat_ofNat, Nat.mod_eq_of_lt (by omega), Nat.and_two_pow_sub_one_eq_mod] at hnat
    exact hnat
  cases hsize : f.size with
  | ls1 =>
    change a.toNat % 4096 + 1 ≤ 4096
    omega
  | ls2 =>
    have h0 := hmod 1 (by decide) (by rw [hsize]; rfl)
    change a.toNat % 4096 + 2 ≤ 4096
    omega
  | ls4 =>
    have h0 := hmod 2 (by decide) (by rw [hsize]; rfl)
    change a.toNat % 4096 + 4 ≤ 4096
    omega
  | ls8 =>
    have h0 := hmod 3 (by decide) (by rw [hsize]; rfl)
    change a.toNat % 4096 + 8 ≤ 4096
    omega

theorem crosses_of_fits {f : LsForm} {a : Addr} (h : a.toNat % 4096 + f.size.toNat ≤ 4096) : f.crosses a = false := by
  rw [← Bool.not_eq_true, crosses_iff]
  omega

theorem table_page {a : Addr} (ha : a.toNat < 2 ^ 32) : ((a >>> 12).setWidth 20).setWidth 52 = a.extractLsb' 12 52 := by
  apply BitVec.eq_of_toNat_eq
  rw [PpcCpu.toNat_page, BitVec.toNat_setWidth, BitVec.toNat_setWidth, BitVec.toNat_ushiftRight, Nat.shiftRight_eq_div_pow]
  omega

theorem lsN_same (ht : M.Tables m) :
    SameResult (i.lsN M m).1 (i.lsGeneric M m).1 ∧ (i.lsN M m).2 = (i.lsGeneric M m).2 := by
  have hrefl : SameResult (i.lsGeneric M m).1 (i.lsGeneric M m).1 ∧ (i.lsGeneric M m).2 = (i.lsGeneric M m).2 :=
    ⟨⟨rfl, rfl, rfl⟩, rfl⟩
  unfold lsN
  rw [lsAddr_eq]
  by_cases h32 : m.cpu.is32bit = false
  · rw [if_pos h32]
    exact hrefl
  rw [if_neg h32]
  by_cases haligned : i.addr m.cpu &&& BitVec.ofNat 64 (i.form.size.toNat - 1) ≠ 0#64
  · rw [if_pos haligned]
    exact hrefl
  rw [if_neg haligned]
  cases hpage : M.hostPage m.rest (!i.form.load) ((i.addr m.cpu >>> 12).setWidth 20) with
  | none => exact hrefl
  | some q =>
    have hspace : m.cpu.space = 2 ^ 32 := if_pos (by simpa using h32)
    have ha := addr_lt (i := i) (m := m)
    rw [hspace] at ha
    have hfits := fits_of_aligned (not_not.mp haligned)
    have hofs : (i.addr m.cpu &&& 4095#64).toNat = (i.addr m.cpu).toNat % 4096 := by
      rw [BitVec.toNat_and]
      exact Nat.and_two_pow_sub_one_eq_mod _ 12
    have htranslated := ht.translated _ _ _ hpage
    rw [table_page ha] at htranslated
    have hp : M.translate m.rest m.mem (!i.form.load) (i.addr m.cpu) = some (q * 4096 + (i.addr m.cpu).toNat % 4096) := by
      unfold MemorySystem.translate
      rw [htranslated]
      rfl
    have hlen := i.length_buffer m.cpu
    obtain ⟨hok, hrun, hmem, hdata⟩ := ht.ram _ _ _ ((i.addr m.cpu).toNat % 4096) (i.buffer m.cpu) hpage (by omega)
    have hgeneric := lsGeneric_access (crosses_of_fits hfits) hp
    rw [hofs, hgeneric, hok, if_pos rfl, hrun, Bool.and_true, hmem]
    unfold lsFast
    rw [lsAddr_eq]
    cases hload : i.form.load with
    | true =>
      rw [hload] at hdata hmem
      have hread := hdata rfl
      rw [hlen] at hread
      simp only [Bool.not_true, Bool.false_eq_true, if_true, if_false] at hread ⊢
      rw [hread]
      refine ⟨⟨?_, rfl, rfl⟩, rfl⟩
      have hbytes : ∀ k < i.form.size.toNat, m.mem (q * 4096 + (i.addr m.cpu).toNat % 4096 + k) =
          (m.mem.read (q * 4096 + (i.addr m.cpu).toNat % 4096) i.form.size.toNat).getD k 0#8 := by
        intro k hk
        rw [List.getD_eq_getElem?_getD, ByteMem.getElem?_read, if_pos hk]
        rfl
      rw [load_congr m.cpu hbytes]
      unfold updated load
      split <;> split <;> rfl
    | false =>
      have hbuffer : i.buffer m.cpu = i.stored m.cpu := by
        unfold buffer
        rw [hload, if_neg (by decide)]
      simp only [Bool.not_false, Bool.false_eq_true, if_true, if_false, hbuffer]
      refine ⟨⟨?_, rfl, rfl⟩, trivial⟩
      unfold updated
      split <;> rfl

def ValueMeets (i : LsInstr) (M : MemorySystem ρ) (m : LsMachine ρ) : Prop :=
  i.form.size = .ls4 → i.form.reverse = true → i.form.load = true → m.cpu.is32bit = false →
    ¬ PpcCpu.straddles (i.addr m.cpu) 4 → ∀ p, M.translate m.rest m.mem false (i.addr m.cpu) = some p →
      let r := M.access m.rest m.mem false p (List.replicate 4 0#8)
      r.ok = true → (wordIn false r.data).msb = false

theorem crosses_word {f : LsForm} (h : f.size = .ls4) (a : Addr) : f.crosses a = true ↔ PpcCpu.straddles a 4 := by
  rw [crosses_iff, h]
  constructor
  · intro hcross
    exact hcross.2
  · intro hcross
    exact ⟨by decide, hcross⟩

theorem map_getD {l : List Byte} {n : Nat} (h : l.length = n) : (List.range n).map (fun k => l.getD k 0#8) = l := by
  subst h
  apply List.ext_getElem
  · simp
  · intro k h1 h2
    simp [List.getElem?_eq_getElem h2]

theorem reverse_size {f : LsForm} (hgen : f.generated = true) (hrev : f.reverse = true) :
    (f.size = .ls2 ∨ f.size = .ls4) ∧ f.update = false := by
  unfold LsForm.generated at hgen
  rw [hrev, if_pos rfl] at hgen
  simp only [Bool.and_eq_true, Bool.or_eq_true, beq_iff_eq, Bool.not_eq_true'] at hgen
  exact ⟨hgen.2, hgen.1.1.2⟩

theorem gpr_setReg_of_32 {c : PpcCpu} (h : c.is32bit = true) (n : BitVec 5) {v v' : Reg} (hv : v.setWidth 32 = v'.setWidth 32) :
    (c.setReg n v).gpr = (c.setReg n v').gpr := by
  unfold PpcCpu.setReg
  rw [h, if_pos rfl, if_pos rfl, hv]

theorem gpr_setReg_of_64 {c : PpcCpu} (h : c.is32bit = false) (n : BitVec 5) (v v' : Reg) :
    (c.setReg n v).gpr = (c.setReg n v').gpr ↔ v = v' := by
  unfold PpcCpu.setReg
  rw [h, if_neg (by decide), if_neg (by decide)]
  constructor
  · intro heq
    have hn := congrFun heq n
    dsimp only at hn
    rwa [Function.update_self, Function.update_self] at hn
  · rintro rfl
    rfl

theorem gpr_updated {c c' : PpcCpu} (h : c.gpr = c'.gpr) (hmode : c.is32bit = c'.is32bit) (a : Addr) :
    (i.updated c a).gpr = (i.updated c' a).gpr := by
  unfold updated PpcCpu.setReg
  split
  · rw [h, hmode]
  · exact h

theorem is32bit_load (c : PpcCpu) (g : Nat → Byte) : (i.load c g).is32bit = c.is32bit := by
  unfold load
  split <;> rfl

theorem gpr_loaded_iff (htr : i.Translated) (hload : i.form.load = true) {data : List Byte}
    (hlen : data.length = i.form.size.toNat) :
    (i.updated (i.load (m.cpu.syncPc i.lowPc) fun k => data.getD k 0#8) (i.addr m.cpu)).gpr = (i.archResult m.cpu data).gpr ↔
      (i.form.size = .ls4 → i.form.reverse = true → m.cpu.is32bit = false → (wordIn false data).msb = false) := by
  have hmap := map_getD hlen
  unfold archResult
  rw [hload, if_pos rfl]
  by_cases hlwbrx : i.form.size = .ls4 ∧ i.form.reverse = true
  · obtain ⟨hsize, hrev⟩ := hlwbrx
    have hupdate := (reverse_size htr.generated hrev).2
    have hno : ¬ i.form.size = .ls8 := by
      rw [hsize]
      decide
    obtain ⟨hvalue, harch⟩ := loadValue_lwbrx i.form (fun k => data.getD k 0#8) hsize hrev
    rw [hsize] at hmap
    have hmap' : (List.range 4).map (fun k => data.getD k 0#8) = data := hmap
    rw [hmap'] at hvalue harch
    unfold updated load
    simp only [hupdate, Bool.false_eq_true, if_false, if_neg hno, hvalue, harch]
    have hsync : ((m.cpu.syncPc i.lowPc).setReg i.rs ((wordIn false data).signExtend 64)).gpr =
        (m.cpu.setReg i.rs ((wordIn false data).signExtend 64)).gpr := rfl
    rw [hsync]
    cases hmode : m.cpu.is32bit with
    | true =>
      refine iff_of_true (gpr_setReg_of_32 hmode i.rs ?_) fun _ _ h => by cases h
      rw [BitVec.setWidth_setWidth_of_le _ (by decide), BitVec.setWidth_eq]
      apply BitVec.eq_of_getLsbD_eq
      intro j hj
      rw [BitVec.getLsbD_setWidth, BitVec.getLsbD_signExtend]
      simp [hj, show j < 64 by omega]
    | false =>
      rw [gpr_setReg_of_64 hmode, signExtend_word]
      exact ⟨fun h _ _ _ => h, fun h => h hsize hrev rfl⟩
  · have hvalue : i.form.loadValue (fun k => data.getD k 0#8) = i.form.archValue data := by
      have heq := loadValue_eq i.form (fun k => data.getD k 0#8) fun hrev =>
        (reverse_size htr.generated hrev).1.resolve_right fun hsize => hlwbrx ⟨hsize, hrev⟩
      rw [hmap] at heq
      exact heq
    refine iff_of_true ?_ fun hsize hrev => absurd ⟨hsize, hrev⟩ hlwbrx
    refine gpr_updated ?_ ?_ _
    · unfold load
      rw [hvalue]
      split <;> rfl
    · rw [is32bit_load]
      split <;> rfl

theorem settled_of_access {r : LsMachine ρ × List LsEvent} {p : Nat} {data : List Byte} {own : List (Option Nat)}
    (h : r.2 = [.access (!i.form.load) (i.addr m.cpu) p data own]) :
    i.Settled M m r ↔ (i.form.load = false → data = i.archBytes m.cpu) ∧ r.1.cpu.gpr = (i.archResult m.cpu data).gpr := by
  constructor
  · rintro (⟨p', data', own', hr, hdata, hgpr⟩ | ⟨hr, -⟩)
    · obtain ⟨heq, -⟩ := List.cons.inj (h.symm.trans hr)
      cases heq
      exact ⟨hdata, hgpr⟩
    · rcases hr with hr | hr
      · cases h.symm.trans hr
      · cases h.symm.trans hr
  · rintro ⟨hdata, hgpr⟩
    exact .inl ⟨p, data, own, h, hdata, hgpr⟩

theorem stored_eq (htr : i.Translated) (c : PpcCpu) : i.stored c = i.archBytes c :=
  storeBytes_eq i.form _ fun hrev => (reverse_size htr.generated hrev).1

theorem lsGeneric_settled_iff (htr : i.Translated) : i.Settled M m (i.lsGeneric M m) ↔ i.ValueMeets M m := by
  cases hcross : i.form.crosses (i.addr m.cpu) with
  | true =>
    rw [lsGeneric_refused hcross]
    refine iff_of_true (.inr ⟨.inr rfl, .inl rfl⟩) ?_
    intro hsize _ _ _ hno
    exact absurd ((crosses_word hsize _).mp hcross) hno
  | false =>
    cases hp : M.translate m.rest m.mem (!i.form.load) (i.addr m.cpu) with
    | none =>
      rw [lsGeneric_raise hcross hp]
      refine iff_of_true (.inr ⟨.inl rfl, .inr rfl⟩) ?_
      intro _ _ hload _ _ p hp'
      rw [hload, Bool.not_true, hp'] at hp
      cases hp
    | some p =>
      have hgeneric := lsGeneric_access hcross hp
      have hlen := M.length_access m.rest m.mem (!i.form.load) p (i.buffer m.cpu)
      rw [length_buffer] at hlen
      have hbuffer (hload : i.form.load = true) (hsize : i.form.size = .ls4) : i.buffer m.cpu = List.replicate 4 0#8 := by
        unfold buffer
        rw [hload, if_pos rfl, hsize]
        rfl
      dsimp only at hgeneric
      cases hok : (M.access m.rest m.mem (!i.form.load) p (i.buffer m.cpu)).ok with
      | false =>
        rw [hok, if_neg (by decide)] at hgeneric
        rw [hgeneric]
        refine iff_of_true (.inr ⟨.inl rfl, .inl rfl⟩) ?_
        intro hsize _ hload _ _ p' hp' r hok'
        rw [hload, Bool.not_true, hp'] at hp
        cases hp
        rw [hload, Bool.not_true, hbuffer hload hsize] at hok
        exact absurd (hok'.symm.trans hok) (by decide)
      | true =>
        rw [hok, if_pos rfl] at hgeneric
        rw [hgeneric, settled_of_access rfl]
        cases hload : i.form.load with
        | true =>
          have hiff := gpr_loaded_iff (m := m) htr hload hlen
          simp only [hload, if_true, Bool.true_eq_false, false_implies, true_and, Bool.not_true] at hiff hp ⊢
          rw [hiff]
          constructor
          · intro h hsize hrev _ hmode _ p' hp'
            rw [hp'] at hp
            cases hp
            rw [← hbuffer hload hsize]
            exact fun _ => h hsize hrev hmode
          · intro h hsize hrev hmode
            have hno : ¬ PpcCpu.straddles (i.addr m.cpu) 4 := by
              rw [← crosses_word hsize, hcross]
              decide
            have hmsb := h hsize hrev hload hmode hno p hp
            rw [← hbuffer hload hsize] at hmsb
            exact hmsb (by rw [hload, Bool.not_true] at hok; exact hok)
        | false =>
          refine iff_of_true ⟨fun _ => ?_, ?_⟩ ?_
          · rw [if_neg (by decide)]
            exact stored_eq htr m.cpu
          · unfold archResult
            rw [hload]
            have hsync : (m.cpu.syncPc i.lowPc).gpr = m.cpu.gpr := rfl
            exact gpr_updated hsync rfl _
          · intro _ _ h
            rw [hload] at h
            cases h

theorem lsGeneric_own_iff (hsize : i.form.size = .ls4) :
    OwnBytes (i.lsGeneric M m).2 ↔ ¬ PpcCpu.straddles (i.addr m.cpu) 4 := by
  have hfailed : OwnBytes [LsEvent.failed] := ⟨by simp, by simp⟩
  rw [← crosses_word hsize]
  cases hcross : i.form.crosses (i.addr m.cpu) with
  | true =>
    rw [lsGeneric_refused hcross]
    exact iff_of_false (fun h => h.completes (List.mem_singleton_self _)) (fun h => h rfl)
  | false =>
    refine iff_of_true ?_ (by decide)
    cases hp : M.translate m.rest m.mem (!i.form.load) (i.addr m.cpu) with
    | none =>
      rw [lsGeneric_raise hcross hp]
      exact hfailed
    | some p =>
      have hlen := M.length_access m.rest m.mem (!i.form.load) p (i.buffer m.cpu)
      rw [length_buffer] at hlen
      rw [lsGeneric_access hcross hp]
      split
      · refine ⟨by simp, fun w a p' data own h => ?_⟩
        have hfits : (i.addr m.cpu).toNat % 4096 + i.form.size.toNat ≤ 4096 := by
          have hno : ¬ PpcCpu.straddles (i.addr m.cpu) 4 := by
            rw [← crosses_word hsize, hcross]
            decide
          unfold PpcCpu.straddles at hno
          rw [hsize]
          change _ + 4 ≤ 4096
          omega
        obtain ⟨rfl, rfl, rfl, rfl, rfl⟩ := LsEvent.access.inj (List.mem_singleton.mp h)
        have hdata : (if i.form.load = true then (M.access m.rest m.mem (!i.form.load) p' (i.buffer m.cpu)).data
            else i.stored m.cpu).length = i.form.size.toNat := by
          split
          · exact hlen
          · exact length_stored m.cpu
        rw [hdata]
        exact own_of_fits addr_lt hp hfits
      · exact hfailed

end LsInstr

end

end Gxemul.Ppc
