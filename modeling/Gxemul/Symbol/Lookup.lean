import Mathlib.Data.BitVec
import Mathlib.Data.List.GetD
import Gxemul.Lib.Bisection
import Gxemul.Lib.Run

/- Symbols (`src/symbol/symbol.c`): adding them, making the sorted array, and looking up an
   address.

   qsort() may put symbols of one address in any order, so the array is any one that is sorted
   and has the same symbols. The address is looked up by bisection, which may pass the symbol
   that has it when symbols overlap. -/
namespace Gxemul.Symbol
open Lib (passes)

abbrev Name := List Char

/-- `struct symbol`. -/
structure Symbol where
  name : Name
  addr : BitVec 64
  len : BitVec 64
  type : Int
  nArgs : Int
  deriving DecidableEq

/-- `struct symbol_context`: the list, or the array. -/
structure Context where
  symbols : List Symbol
  sortedArray : Bool

inductive Stop where
  | exit
  | overflow
  | outside
  deriving DecidableEq

def signExtend (addr : BitVec 64) : BitVec 64 :=
  if (addr >>> 32 == 0#64) && (addr &&& 0x80000000#64 != 0#64) then addr ||| 0xffffffff00000000#64 else addr

def knownArgs : List (String × Int) :=
  [("strlen", 1), ("strcmp", 2), ("strcpy", 2), ("strncpy", 3), ("strlcpy", 3), ("strlcat", 3), ("strncmp", 3),
    ("memset", 3), ("memcpy", 3), ("bzero", 2), ("bcopy", 3)]

/-- `add_symbol_name()`. `symbol_demangle_cplusplus()` is a parameter. -/
def addSymbolName (demangle : Name → Option Name) (sc : Context) (addr len : BitVec 64) (name : Name)
    (type nArgs : Int) : Except Stop Context :=
  if sc.sortedArray then .error .exit
  else if addr = 0#64 ∧ name = "_DYNAMIC_LINK".toList then .ok sc
  else if name = [] ∨ name.head? = some '.' ∨ name.head? = some '$' then .ok sc
  else
    let known := knownArgs.find? fun f => f.1.toList == name
    let nArgs := if nArgs < 0 then (known.map Prod.snd).getD nArgs else nArgs
    let s : Symbol := ⟨(demangle name).getD name, signExtend addr, len, type, nArgs⟩
    .ok { sc with symbols := s :: sc.symbols }

def recalc : List Symbol → List Symbol
  | [] => []
  | [s] => [if s.len = 0#64 then { s with len := 1#64 } else s]
  | s :: t :: l => (if s.len = 0#64 then { s with len := t.addr - s.addr } else s) :: recalc (t :: l)

/-- `symbol_recalc_sizes()`. -/
def Recalculated (sc sc' : Context) : Prop :=
  ∃ array, array.Perm sc.symbols ∧ array.Pairwise (fun s t => s.addr.toNat ≤ t.addr.toNat) ∧
    sc' = ⟨recalc array, true⟩

def Symbol.hit (s : Symbol) (addr : BitVec 64) : Bool :=
  decide (s.addr ≤ addr) && decide (addr ≤ s.addr + (s.len - 1#64))

/-- The bisection, from `lowest` to `highest`. -/
def search (array : List Symbol) (addr : BitVec 64) : Nat → Int → Int → Except Stop (Option Symbol)
  | 0, _, _ => .ok none
  | fuel + 1, lowest, highest =>
    if lowest ≤ highest then
      if 2 ^ 31 ≤ lowest + highest then .error .overflow
      else
        let ofs := ((lowest + highest) / 2).toNat
        match array[ofs]? with
        | none => .error .outside
        | some s =>
          if s.hit addr then .ok (some s)
          else if addr < s.addr then search array addr fuel lowest (ofs - 1)
          else search array addr fuel (ofs + 1) highest
    else .ok none

/-- `get_symbol_name_and_n_args()`: the symbol whose name is returned, and `*offset`. -/
def getSymbolNameAndNArgs (sc : Context) (addr : BitVec 64) : Except Stop (Option (Symbol × BitVec 64)) :=
  let addr := signExtend addr
  if sc.symbols.length = 0 then .ok none
  else if !sc.sortedArray then
    .ok ((sc.symbols.find? fun s => decide (s.addr ≤ addr) && decide (addr < s.addr + s.len)).map
      fun s => (s, addr - s.addr))
  else do
    let s ← search sc.symbols addr (sc.symbols.length + 1) 0 (sc.symbols.length - 1)
    return s.map fun s => (s, addr - s.addr)

/-! ## What is looked up -/

def Symbol.Covers (s : Symbol) (addr : BitVec 64) : Prop :=
  s.len ≠ 0#64 ∧ s.addr.toNat ≤ addr.toNat ∧ addr.toNat ≤ s.addr.toNat + s.len.toNat - 1

instance (s : Symbol) (addr : BitVec 64) : Decidable (s.Covers addr) :=
  inferInstanceAs (Decidable (_ ∧ _))

def LooksUp (sc : Context) (addr : BitVec 64) : Prop :=
  ∃ r, getSymbolNameAndNArgs sc addr = .ok r ∧
    match r with
    | some (s, offset) => s ∈ sc.symbols ∧ s.Covers (signExtend addr) ∧
        offset.toNat = (signExtend addr).toNat - s.addr.toNat
    | none => ∀ s ∈ sc.symbols, ¬ s.Covers (signExtend addr)

/-- The places that a bisection passes on its way to the one behind the last symbol that does not begin behind the
address. -/
def path (array : List Symbol) (addr : BitVec 64) : List Nat :=
  let k := array.countP fun s => decide (s.addr ≤ addr)
  passes (fun i => decide (i < k)) (array.length + 1) 0 (array.length - 1)

def Symbol.Ends (s : Symbol) : Prop := s.addr.toNat + s.len.toNat ≤ 2 ^ 64

def Symbol.Empty (s : Symbol) : Prop := s.addr = 0#64 ∧ s.len = 0#64

/-- On the way is a symbol that has the address and ends in the address space, in front of any place from 2^30 on and
any symbol of length 0 at the address 0. Or there is neither, and no symbol has the address. -/
def Finds (array : List Symbol) (addr : BitVec 64) : List Nat → Prop
  | [] => ∀ s ∈ array, ¬ s.Covers addr
  | i :: places => i < 2 ^ 30 ∧ ∃ s, array[i]? = some s ∧ ¬ s.Empty ∧ (s.Covers addr ∧ s.Ends ∨ Finds array addr places)

theorem Symbol.hit_iff {s : Symbol} {addr : BitVec 64} :
    s.hit addr = true ↔ (s.Covers addr ∧ s.Ends) ∨ s.Empty := by
  unfold Symbol.hit Symbol.Covers Symbol.Ends Symbol.Empty
  simp only [Bool.and_eq_true, decide_eq_true_eq, BitVec.le_def, BitVec.toNat_add, BitVec.toNat_sub, ne_eq,
    BitVec.toNat_eq, BitVec.toNat_ofNat]
  omega

/-! ## The sorted array -/

theorem recalc_addr (l : List Symbol) : (recalc l).map Symbol.addr = l.map Symbol.addr := by
  induction l using recalc.induct with
  | case1 => rfl
  | case2 s =>
    rw [recalc]
    split <;> rfl
  | case3 s t l ih =>
    rw [recalc, List.map_cons, ih]
    split <;> rfl

section
variable {array : List Symbol} {addr : BitVec 64}

theorem sorted_recalc (h : array.Pairwise fun s t => s.addr.toNat ≤ t.addr.toNat) :
    (recalc array).Pairwise fun s t => s.addr.toNat ≤ t.addr.toNat := by
  have hmap : (array.map Symbol.addr).Pairwise fun a b => a.toNat ≤ b.toNat := List.pairwise_map.mpr h
  rw [← recalc_addr] at hmap
  rwa [List.pairwise_map] at hmap

theorem lt_countP_iff (h : array.Pairwise fun s t => s.addr.toNat ≤ t.addr.toNat) {i : Nat} {s : Symbol}
    (hs : array[i]? = some s) : i < array.countP (fun s => decide (s.addr ≤ addr)) ↔ s.addr ≤ addr := by
  induction array generalizing i with
  | nil => cases hs
  | cons t l ih =>
    obtain ⟨hfirst, h⟩ := List.pairwise_cons.mp h
    rw [List.countP_cons]
    by_cases ht : t.addr ≤ addr
    · cases i with
      | zero =>
        cases hs
        simp [ht]
      | succ i =>
        rw [if_pos (by simpa using ht), Nat.succ_lt_succ_iff]
        exact ih h hs
    · -- nothing behind a symbol that begins behind the address begins in front of it
      have hnone : l.countP (fun s => decide (s.addr ≤ addr)) = 0 := by
        rw [List.countP_eq_zero]
        intro u hu hle
        have hle := decide_eq_true_eq.mp hle
        have hfirst := hfirst u hu
        rw [BitVec.le_def] at ht hle
        omega
      have hs' : ¬ s.addr ≤ addr := by
        cases i with
        | zero =>
          cases hs
          exact ht
        | succ i =>
          have hmem : s ∈ l := List.mem_of_getElem? (List.getElem?_cons_succ ▸ hs)
          intro hle
          have hfirst := hfirst s hmem
          rw [BitVec.le_def] at ht hle
          omega
      simp [hnone, ht, hs']

def Right (array : List Symbol) (addr : BitVec 64) : Option Symbol → Prop
  | some s => s ∈ array ∧ s.Covers addr
  | none => ∀ s ∈ array, ¬ s.Covers addr

theorem search_right_iff {k fuel : Nat} {lo hi' : Int} (hlo : 0 ≤ lo) (hhi : hi' < array.length) (hfuel : hi' - lo < fuel)
    (hk : ∀ i s, array[i]? = some s → (i < k ↔ s.addr ≤ addr)) :
    (∃ r, search array addr fuel lo hi' = .ok r ∧ Right array addr r) ↔
      Finds array addr (passes (fun i => decide (i < k)) fuel lo hi') := by
  induction fuel generalizing lo hi' with
  | zero =>
    constructor
    · rintro ⟨r, hr, hright⟩
      cases hr
      exact hright
    · intro h
      exact ⟨none, rfl, h⟩
  | succ fuel ih =>
    rw [search, passes]
    by_cases hle : lo ≤ hi'
    · obtain ⟨hcast, hmid, hmid'⟩ := Lib.middle_mem hlo hle
      rw [if_pos hle, if_pos hle]
      generalize ((lo + hi') / 2).toNat = i at hcast ⊢
      have hi : i < array.length := by omega
      obtain ⟨s, hs⟩ : ∃ s, array[i]? = some s := ⟨_, List.getElem?_eq_getElem hi⟩
      have hsum : 2 ^ 31 ≤ lo + hi' ↔ 2 ^ 30 ≤ i := by omega
      rw [Finds]
      simp only [hs, Option.some.injEq, exists_eq_left']
      by_cases hover : 2 ^ 30 ≤ i
      · rw [if_pos (hsum.mpr hover)]
        constructor
        · rintro ⟨r, hr, -⟩
          cases hr
        · rintro ⟨hlt, -⟩
          omega
      · rw [if_neg (mt hsum.mp hover)]
        have hlt : i < 2 ^ 30 := by omega
        by_cases hempty : s.Empty
        · -- it is found, and has no address
          have hhit : s.hit addr = true := Symbol.hit_iff.mpr (.inr hempty)
          rw [if_pos hhit]
          constructor
          · rintro ⟨r, hr, hright⟩
            cases hr
            exact absurd hempty.2 hright.2.1
          · rintro ⟨-, hno, -⟩
            exact absurd hempty hno
        · by_cases hcovers : s.Covers addr ∧ s.Ends
          · have hhit : s.hit addr = true := Symbol.hit_iff.mpr (.inl hcovers)
            rw [if_pos hhit]
            constructor
            · intro _
              exact ⟨hlt, hempty, .inl hcovers⟩
            · intro _
              exact ⟨some s, rfl, List.mem_of_getElem? hs, hcovers.1⟩
          · have hhit : ¬ s.hit addr = true := fun h => by
              rcases Symbol.hit_iff.mp h with h | h
              · exact hcovers h
              · exact hempty h
            rw [if_neg hhit]
            have hside : addr < s.addr ↔ ¬ i < k := by
              rw [hk i s hs, BitVec.not_le]
            by_cases hik : i < k
            · rw [if_neg fun h => hside.mp h hik, ih (by omega) hhi (by omega)]
              simp only [hik, decide_true, if_true, hlt, hempty, hcovers, true_and, false_or, not_false_eq_true]
            · rw [if_pos (hside.mpr hik), ih hlo (by omega) (by omega)]
              simp only [hik, decide_false, Bool.false_eq_true, if_false, hlt, hempty, hcovers, true_and, false_or,
                not_false_eq_true]
    · rw [if_neg hle, if_neg hle]
      constructor
      · rintro ⟨r, hr, hright⟩
        cases hr
        exact hright
      · intro h
        exact ⟨none, rfl, h⟩

end

theorem looksUp_sorted {array : List Symbol} (hsorted : array.Pairwise fun s t => s.addr.toNat ≤ t.addr.toNat)
    (addr : BitVec 64) :
    LooksUp ⟨array, true⟩ addr ↔ Finds array (signExtend addr) (path array (signExtend addr)) := by
  unfold LooksUp getSymbolNameAndNArgs path
  generalize signExtend addr = addr
  rw [← search_right_iff (Int.le_refl 0) (by omega) (by omega) fun i s hs => lt_countP_iff hsorted hs]
  -- the offset is that of the symbol
  have hoffset : ∀ s : Symbol, s.Covers addr → (addr - s.addr).toNat = addr.toNat - s.addr.toNat :=
    fun s hs => BitVec.toNat_sub_of_le (BitVec.le_def.mpr hs.2.1)
  constructor
  · rintro ⟨r, hr, hright⟩
    split at hr
    · rename_i hzero
      cases hr
      obtain rfl := List.length_eq_zero_iff.mp hzero
      exact ⟨none, rfl, hright⟩
    · obtain ⟨o, ho, hr⟩ := Lib.bind_eq_ok hr
      refine ⟨o, ho, ?_⟩
      cases o with
      | none =>
        cases hr
        exact hright
      | some s =>
        cases hr
        exact ⟨hright.1, hright.2.1⟩
  · rintro ⟨o, ho, hright⟩
    by_cases hzero : array.length = 0
    · rw [if_pos hzero]
      obtain rfl := List.length_eq_zero_iff.mp hzero
      exact ⟨none, rfl, fun s hs => absurd hs List.not_mem_nil⟩
    · rw [if_neg hzero, ho]
      cases o with
      | none => exact ⟨none, rfl, hright⟩
      | some s => exact ⟨some (s, addr - s.addr), rfl, hright.1, hright.2, hoffset s hright.2⟩

/-! ## Any symbols -/

/-- After symbol_recalc_sizes(), the lookup of an address is right exactly if the bisection finds what there is. -/
theorem looksUp_iff (sc sc' : Context) (addr : BitVec 64) (h : Recalculated sc sc') :
    LooksUp sc' addr ↔ Finds sc'.symbols (signExtend addr) (path sc'.symbols (signExtend addr)) := by
  obtain ⟨array, -, hsorted, rfl⟩ := h
  exact looksUp_sorted (sorted_recalc hsorted) addr

def nested : List Symbol :=
  [⟨['a'], 0x100#64, 0x100#64, 0, 0⟩, ⟨['b'], 0x110#64, 1#64, 0, 0⟩, ⟨['c'], 0x300#64, 0#64, 0, 0⟩]

theorem nested_recalculated : Recalculated ⟨nested, false⟩ ⟨recalc nested, true⟩ :=
  ⟨nested, .refl _, by decide +kernel, rfl⟩

theorem nested_looksUp : LooksUp ⟨recalc nested, true⟩ 0x100#64 := by
  apply (looksUp_iff ⟨nested, false⟩ _ _ nested_recalculated).mpr
  have haddr : signExtend 0x100#64 = 0x100#64 := by decide +kernel
  have hpath : path (recalc nested) 0x100#64 = [1, 0] := by decide +kernel
  rw [haddr, hpath]
  refine ⟨by decide, ⟨['b'], 0x110#64, 1#64, 0, 0⟩, rfl, fun h => ?_, .inr ?_⟩
  · cases h.2
  · refine ⟨by decide, ⟨['a'], 0x100#64, 0x100#64, 0, 0⟩, rfl, fun h => ?_, .inl ⟨by decide +kernel, ?_⟩⟩
    · cases h.2
    · unfold Symbol.Ends
      decide +kernel

/-- The address 0x180 is in the first symbol, and is not found. -/
theorem nested_missed : ¬ ∀ sc sc' addr, Recalculated sc sc' → LooksUp sc' addr := by
  intro h
  obtain ⟨r, hr, hright⟩ := h _ _ 0x180#64 nested_recalculated
  have hnone : getSymbolNameAndNArgs ⟨recalc nested, true⟩ 0x180#64 = .ok none := by decide +kernel
  cases hnone.symm.trans hr
  exact hright _ List.mem_cons_self (by decide +kernel)

end Gxemul.Symbol
