import Mathlib.Data.List.Perm.Subperm
import Gxemul.Lib.Links
import Gxemul.Dyntrans.VphInvariant

/- The translation cache (`src/include/cpu.h`, `cpu_create_or_reset_tc()` in
   `src/cpus/cpu.c`, and the parts of `src/cpus/cpu_dyntrans.c` that handle it).

   The cache starts with a table of 65536 offsets, one for each value of the low
   bits of a physical page number. Each is the start of a chain of translation
   pages, linked by `next_ofs`. Pages are allocated at increasing offsets and
   put first in their chain, and they are only dropped all at once. Offsets name
   the pages here. `translation_ranges_ofs` is left out: it is zero in every
   page, as nothing writes it. -/
namespace Gxemul

/-- `ic->f`: not translated yet, the ends of the page, or some instruction. -/
inductive IcFunc where
  | toBeTranslated
  | endOfPage
  | endOfPage2
  | translated (n : Nat)
  deriving DecidableEq

/-- `struct arch_tc_physpage`. -/
structure PhysPage where
  ics : Nat → IcFunc
  nextOfs : Nat
  translationsBitmap : BitVec 32
  physaddr : Addr

/-- The translation cache of one CPU: the table at its start, the pages by
offset, and `translation_cache_cur_ofs`. -/
structure Tc where
  base : Nat → Nat
  page : Nat → PhysPage
  curOfs : Nat

namespace Arch

def nIcArgs : Arch → Nat
  | .sh => 2
  | _ => 3

/-- `sizeof(struct arch_tc_physpage)` on a 64-bit host. -/
def physpageSize (a : Arch) : Nat :=
  (a.icEntriesPerPage + 2) * (8 + 8 * a.nIcArgs) +
    match a with
    | .alpha | .mips | .ppc | .riscv => 24
    | .arm | .i960 | .m88k | .sh => 16

/-- `PAGENR_TO_TABLE_INDEX(DYNTRANS_ADDR_TO_PAGENR(addr))`. -/
def tableIndex (a : Arch) (addr : Addr) : Nat := (addr.toNat >>> a.pageShift) &&& 65535

theorem physpageSize_pos (a : Arch) : 0 < a.physpageSize := by
  cases a <;> decide

def icsPerBit (a : Arch) : Nat := a.icEntriesPerPage / 32

end Arch

namespace Tc

/-- `N_BASE_TABLE_ENTRIES * sizeof(uint32_t)`. -/
def firstOfs : Nat := 65536 * 4

variable (a : Arch)

def template (physaddr : Addr) : PhysPage where
  ics i :=
    if i < a.icEntriesPerPage then .toBeTranslated
    else if i = a.icEntriesPerPage then .endOfPage else .endOfPage2
  nextOfs := 0
  translationsBitmap := 0
  physaddr := physaddr

/-- `ofs --; ofs |= 63; ofs ++`. -/
def align (ofs : Nat) : Nat := ((ofs - 1) ||| 63) + 1

def setPage (tc : Tc) (ofs : Nat) (p : PhysPage) : Tc := { tc with page := Function.update tc.page ofs p }

/-- cpu_create_or_reset_tc(), less the call of invalidate_code_translation(). -/
def reset (tc : Tc) : Tc := { tc with base := fun _ => 0, curOfs := firstOfs }

def init : Tc where
  base _ := 0
  page _ := ⟨fun _ => .toBeTranslated, 0, 0, 0⟩
  curOfs := firstOfs

def allocateDefaultPage (tc : Tc) (physaddr : Addr) : Tc :=
  { tc.setPage tc.curOfs (template a (a.pageAddr physaddr)) with curOfs := align (tc.curOfs + a.physpageSize) }

def nextOfs (tc : Tc) (ofs : Nat) : Nat := (tc.page ofs).nextOfs

/-- "Traverse the physical page chain". A chain has fewer pages than
`translation_cache_cur_ofs`. -/
def find (tc : Tc) (physaddr : Addr) : Option Nat :=
  Lib.findChain tc.nextOfs (fun ofs => (tc.page ofs).physaddr == physaddr) (tc.curOfs + 1)
    (tc.base (a.tableIndex physaddr))

def create (tc : Tc) (physaddr : Addr) : Tc :=
  let ofs := tc.curOfs
  let previousFirst := tc.base (a.tableIndex physaddr)
  let tc := { tc with base := Function.update tc.base (a.tableIndex physaddr) ofs }
  let tc := tc.allocateDefaultPage a physaddr
  tc.setPage ofs { tc.page ofs with nextOfs := previousFirst }

/-- Set the instruction slots that the bits of `x` stand for to to_be_translated. -/
def resetIcs (x : BitVec 32) (m : Nat) (ics : Nat → IcFunc) : Nat → IcFunc :=
  (List.range 32).foldl (fun ics i =>
    if x.getLsbD i then
      (List.range m).foldl (fun ics j => Function.update ics (i * m + j) .toBeTranslated) ics
    else ics) ics

/-- What invalidate_code_translation() does to the page it found. -/
def resetPage (tc : Tc) (ofs : Nat) : Tc :=
  let ppp := tc.page ofs
  if ppp.translationsBitmap ≠ 0 then
    let x := if a = .arm then 0xffffffff#32 else ppp.translationsBitmap
    tc.setPage ofs { ppp with ics := resetIcs x a.icsPerBit ppp.ics, translationsBitmap := 0 }
  else tc

/-! ## Chains -/

structure Chained (tc : Tc) (chain : Nat → List Nat) : Prop where
  linked : ∀ i, Lib.Chain tc.nextOfs (tc.base i) (chain i)
  nodup : ∀ i, (chain i).Nodup
  index : ∀ i, ∀ o ∈ chain i, a.tableIndex (tc.page o).physaddr = i
  bound : ∀ i, ∀ o ∈ chain i, firstOfs ≤ o ∧ o + a.physpageSize ≤ tc.curOfs
  aligned : ∀ i, ∀ o ∈ chain i, a.Aligned (tc.page o).physaddr
  distinct : ∀ i, ∀ o ∈ chain i, ∀ o' ∈ chain i, (tc.page o).physaddr = (tc.page o').physaddr → o = o'
  cur : firstOfs ≤ tc.curOfs

def InChain (tc : Tc) (ofs : Nat) : Prop := ∃ i l, Lib.Chain tc.nextOfs (tc.base i) l ∧ ofs ∈ l

def WF (tc : Tc) : Prop := ∃ chain, tc.Chained a chain

variable {a} {tc : Tc} {chain : Nat → List Nat}

theorem Chained.inChain (h : tc.Chained a chain) {i o : Nat} (ho : o ∈ chain i) : tc.InChain o :=
  ⟨i, chain i, h.linked i, ho⟩

theorem Chained.of_inChain (h : tc.Chained a chain) {o : Nat} (ho : tc.InChain o) : ∃ i, o ∈ chain i := by
  obtain ⟨i, l, hl, ho⟩ := ho
  rw [hl.unique (h.linked i)] at ho
  exact ⟨i, ho⟩

theorem Chained.length_lt (h : tc.Chained a chain) (i : Nat) : (chain i).length < tc.curOfs + 1 := by
  have hsub : chain i ⊆ List.range tc.curOfs := fun o ho => by
    have := (h.bound i o ho).2
    have := a.physpageSize_pos
    exact List.mem_range.mpr (by omega)
  have hle := (List.subperm_of_subset (h.nodup i) hsub).length_le
  rw [List.length_range] at hle
  omega

theorem Chained.find_eq (h : tc.Chained a chain) (addr : Addr) :
    tc.find a addr = (chain (a.tableIndex addr)).find? (fun ofs => (tc.page ofs).physaddr == addr) :=
  (h.linked _).find (h.length_lt _)

theorem Chained.of_find (h : tc.Chained a chain) {addr : Addr} {o : Nat} (hf : tc.find a addr = some o) :
    o ∈ chain (a.tableIndex addr) ∧ (tc.page o).physaddr = addr := by
  rw [h.find_eq] at hf
  refine ⟨List.mem_of_find?_eq_some hf, ?_⟩
  have := List.find?_some hf
  simpa using this

theorem Chained.find_of_mem (h : tc.Chained a chain) {i o : Nat} (ho : o ∈ chain i) :
    tc.find a (tc.page o).physaddr = some o := by
  have hi := h.index i o ho
  cases hf : tc.find a (tc.page o).physaddr with
  | none =>
    rw [h.find_eq, hi, List.find?_eq_none] at hf
    exact absurd (beq_self_eq_true _) (hf o ho)
  | some o' =>
    obtain ⟨h1, h2⟩ := h.of_find hf
    rw [hi] at h1
    rw [h.distinct i o' h1 o ho h2]

theorem WF.inChain_find (h : tc.WF a) {o : Nat} (ho : tc.InChain o) : tc.find a (tc.page o).physaddr = some o := by
  obtain ⟨chain, h⟩ := h
  obtain ⟨i, hi⟩ := h.of_inChain ho
  exact h.find_of_mem hi

theorem WF.of_find (h : tc.WF a) {addr : Addr} {o : Nat} (hf : tc.find a addr = some o) :
    tc.InChain o ∧ (tc.page o).physaddr = addr := by
  obtain ⟨chain, h⟩ := h
  obtain ⟨h1, h2⟩ := h.of_find hf
  exact ⟨h.inChain h1, h2⟩

theorem Chained.of_reset (tc : Tc) : tc.reset.Chained a (fun _ => []) :=
  ⟨fun _ => rfl, fun _ => List.nodup_nil, by simp, by simp, by simp, by simp, le_refl _⟩

theorem WF.of_reset (tc : Tc) : tc.reset.WF a := ⟨_, Chained.of_reset tc⟩

theorem Chained.of_same (h : tc.Chained a chain) {tc' : Tc} (hb : tc'.base = tc.base) (hc : tc'.curOfs = tc.curOfs)
    (hn : ∀ o, (tc'.page o).nextOfs = (tc.page o).nextOfs) (hp : ∀ o, (tc'.page o).physaddr = (tc.page o).physaddr) :
    tc'.Chained a chain := by
  refine ⟨fun i => ?_, h.nodup, ?_, ?_, ?_, ?_, ?_⟩
  · rw [hb]
    exact (h.linked i).congr fun o _ => hn o
  · simpa only [hp] using h.index
  · simpa only [hc] using h.bound
  · simpa only [hp] using h.aligned
  · simpa only [hp] using h.distinct
  · simpa only [hc] using h.cur

theorem inChain_of_same {tc' : Tc} (hb : tc'.base = tc.base)
    (hn : ∀ o, (tc'.page o).nextOfs = (tc.page o).nextOfs) {o : Nat} (ho : tc.InChain o) : tc'.InChain o := by
  obtain ⟨i, l, hl, ho⟩ := ho
  exact ⟨i, l, by rw [hb]; exact hl.congr fun o _ => hn o, ho⟩

theorem le_align (n : Nat) : n ≤ align n := by
  have := Nat.left_le_or (n := n - 1) (m := 63)
  unfold align
  omega

theorem create_page (tc : Tc) (addr : Addr) :
    (tc.create a addr).page = Function.update tc.page tc.curOfs
      { template a (a.pageAddr addr) with nextOfs := tc.base (a.tableIndex addr) } := by
  simp [create, allocateDefaultPage, setPage, Function.update_idem]

theorem Chained.create (h : tc.Chained a chain) {addr : Addr} (hal : a.Aligned addr) (hf : tc.find a addr = none) :
    (tc.create a addr).Chained a
      (Function.update chain (a.tableIndex addr) (tc.curOfs :: chain (a.tableIndex addr))) := by
  have hnone : ∀ i, ∀ o ∈ chain i, (tc.page o).physaddr ≠ addr := by
    intro i o ho he
    have := h.find_of_mem ho
    rw [he, hf] at this
    cases this
  have hlt : ∀ i, ∀ o ∈ chain i, o ≠ tc.curOfs := by
    intro i o ho
    have := (h.bound i o ho).2
    have := a.physpageSize_pos
    omega
  have hpage := create_page (a := a) tc addr
  have hold : ∀ i, ∀ o ∈ chain i, (tc.create a addr).page o = tc.page o := fun i o ho => by
    rw [hpage, Function.update_of_ne (hlt i o ho)]
  have hnew : ((tc.create a addr).page tc.curOfs).physaddr = addr := by
    rw [hpage, Function.update_self]
    exact a.pageAddr_of_aligned hal
  have hbase : (tc.create a addr).base = Function.update tc.base (a.tableIndex addr) tc.curOfs := rfl
  have hcur : (tc.create a addr).curOfs = align (tc.curOfs + a.physpageSize) := rfl
  have hle := le_align (tc.curOfs + a.physpageSize)
  have hmem : ∀ i, ∀ o ∈ Function.update chain (a.tableIndex addr) (tc.curOfs :: chain (a.tableIndex addr)) i,
      (i = a.tableIndex addr ∧ o = tc.curOfs) ∨ o ∈ chain i := by
    intro i o ho
    by_cases hi : i = a.tableIndex addr
    · subst hi
      rw [Function.update_self] at ho
      exact (List.mem_cons.mp ho).imp (fun he => ⟨rfl, he⟩) id
    · rw [Function.update_of_ne hi] at ho
      exact Or.inr ho
  refine ⟨fun i => ?_, fun i => ?_, fun i o ho => ?_, fun i o ho => ?_, fun i o ho => ?_,
    fun i o ho o' ho' he => ?_, ?_⟩
  · have hcong : ∀ o ∈ chain i, (tc.create a addr).nextOfs o = tc.nextOfs o := fun o ho => by
      unfold nextOfs
      rw [hold i o ho]
    rw [hbase]
    by_cases hi : i = a.tableIndex addr
    · subst hi
      have hne : tc.curOfs ≠ 0 := by
        have := h.cur
        unfold firstOfs at this
        omega
      rw [Function.update_self, Function.update_self]
      refine ⟨rfl, hne, ?_⟩
      unfold nextOfs
      rw [hpage, Function.update_self]
      rw [← hpage]
      exact (h.linked _).congr hcong
    · rw [Function.update_of_ne hi, Function.update_of_ne hi]
      exact (h.linked i).congr hcong
  · by_cases hi : i = a.tableIndex addr
    · subst hi
      rw [Function.update_self]
      exact List.nodup_cons.mpr ⟨fun hm => hlt _ _ hm rfl, h.nodup _⟩
    · rw [Function.update_of_ne hi]
      exact h.nodup i
  · rcases hmem i o ho with ⟨rfl, rfl⟩ | ho
    · rw [hnew]
    · rw [hold i o ho]
      exact h.index i o ho
  · rw [hcur]
    rcases hmem i o ho with ⟨rfl, rfl⟩ | ho
    · exact ⟨h.cur, hle⟩
    · obtain ⟨h1, h2⟩ := h.bound i o ho
      exact ⟨h1, by omega⟩
  · rcases hmem i o ho with ⟨rfl, rfl⟩ | ho
    · rw [hnew]
      exact hal
    · rw [hold i o ho]
      exact h.aligned i o ho
  · rcases hmem i o ho with ⟨rfl, rfl⟩ | ho <;> rcases hmem _ o' ho' with ⟨hi', rfl⟩ | ho'
    · rfl
    · rw [hnew, hold _ o' ho'] at he
      exact absurd he.symm (hnone _ o' ho')
    · rw [hnew, hold _ o ho] at he
      exact absurd he (hnone _ o ho)
    · rw [hold _ o ho, hold _ o' ho'] at he
      exact h.distinct i o ho o' ho' he
  · have := h.cur
    rw [hcur]
    omega

theorem WF.create (h : tc.WF a) {addr : Addr} (hal : a.Aligned addr) (hf : tc.find a addr = none) :
    (tc.create a addr).WF a ∧ (tc.create a addr).InChain tc.curOfs ∧
      ((tc.create a addr).page tc.curOfs).physaddr = addr ∧
      ∀ o, tc.InChain o → (tc.create a addr).InChain o ∧ (tc.create a addr).page o = tc.page o := by
  obtain ⟨chain, h⟩ := h
  have h' := h.create hal hf
  refine ⟨⟨_, h'⟩, h'.inChain (i := a.tableIndex addr) (by simp), ?_, fun o ho => ?_⟩
  · rw [create_page, Function.update_self]
    exact a.pageAddr_of_aligned hal
  · obtain ⟨i, hi⟩ := h.of_inChain ho
    refine ⟨h'.inChain (i := i) ?_, ?_⟩
    · by_cases he : i = a.tableIndex addr
      · subst he
        simp [hi]
      · rw [Function.update_of_ne he]
        exact hi
    · have := (h.bound i o hi).2
      have := a.physpageSize_pos
      rw [create_page, Function.update_of_ne (by omega)]

theorem WF.of_inChain_create (h : tc.WF a) {addr : Addr} (hal : a.Aligned addr) (hf : tc.find a addr = none) {o : Nat}
    (ho : (tc.create a addr).InChain o) : o = tc.curOfs ∨ tc.InChain o := by
  obtain ⟨chain, h⟩ := h
  obtain ⟨i, hi⟩ := (h.create hal hf).of_inChain ho
  by_cases he : i = a.tableIndex addr
  · rw [he, Function.update_self, List.mem_cons] at hi
    exact hi.imp id h.inChain
  · rw [Function.update_of_ne he] at hi
    exact .inr (h.inChain hi)

theorem not_inChain_reset (tc : Tc) (o : Nat) : ¬ tc.reset.InChain o := by
  intro ho
  obtain ⟨i, hi⟩ := (Chained.of_reset (a := .mips) tc).of_inChain ho
  cases hi

/-! ## Resetting a page -/

theorem resetPage_same (tc : Tc) (ofs o : Nat) :
    ((tc.resetPage a ofs).page o).nextOfs = (tc.page o).nextOfs ∧
      ((tc.resetPage a ofs).page o).physaddr = (tc.page o).physaddr := by
  unfold resetPage
  dsimp only
  split
  · by_cases ho : o = ofs
    · subst ho; simp [setPage]
    · simp [setPage, Function.update_of_ne ho]
  · exact ⟨rfl, rfl⟩

theorem resetPage_base (tc : Tc) (ofs : Nat) :
    (tc.resetPage a ofs).base = tc.base ∧ (tc.resetPage a ofs).curOfs = tc.curOfs := by
  unfold resetPage
  dsimp only
  split <;> exact ⟨rfl, rfl⟩

theorem WF.resetPage (h : tc.WF a) (ofs : Nat) : (tc.resetPage a ofs).WF a := by
  obtain ⟨chain, h⟩ := h
  have hb := resetPage_base (a := a) tc ofs
  exact ⟨chain, h.of_same hb.1 hb.2 (fun o => (resetPage_same tc ofs o).1) (fun o => (resetPage_same tc ofs o).2)⟩

end Tc

end Gxemul
