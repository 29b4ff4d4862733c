import Gxemul.Memory.SelfModify

/- How to_be_translated() fills the slots of a page, and how an invalidation finds
   them again.

   A slot is filled when its instruction is about to be executed, or ahead of it.
   `translations_bitmap` has a bit for each 1/32 of the page, computed from the
   address of the instruction; the reset computes the slots from the bits. Slots
   that are combined afterwards have been filled before, and a slot whose
   instruction turns out to be bad is emptied again. -/
namespace Gxemul

/-- What to_be_translated() makes of the instruction word of a slot: nothing (`goto bad`), or a function. The
combinations are those that `combination_check` finds: how many slots back, and the function to put there. -/
inductive Decoded where
  | bad
  | good (n : Nat) (combinations : List (Nat × Nat))

/-- One call of to_be_translated(). -/
structure Translation where
  decode : Nat → Decoded
  /-- Not single-stepping, and `allow_instruction_combinations`. -/
  combine : Bool
  /-- A breakpoint has been stepped over, or the instruction is in a delay slot on another page. -/
  once : Bool
  /-- Not single-stepping, and no breakpoints. -/
  readahead : Bool

def maxDyntransReadahead : Nat := 128

namespace PhysPage
variable (a : Arch)

/-- `ic->f = TO_BE_TRANSLATED`. -/
def clear (p : PhysPage) (i : Nat) : PhysPage := { p with ics := Function.update p.ics i .toBeTranslated }

/-- `ic->f` is set, and the page is marked "as containing a translation at this part of the page". -/
def fill (p : PhysPage) (addr : Addr) (i n : Nat) : PhysPage :=
  let x := (addr &&& a.offsetMask).toNat / (2 ^ a.pageShift / 32)
  { p with
    ics := Function.update p.ics i (.translated n)
    translationsBitmap := p.translationsBitmap ||| 1#32 <<< x }

/-- `ic[-back].f = instr(n)`, where `ic[-back].f` has been compared with the functions of other instructions. -/
def combine (i : Nat) (p : PhysPage) (change : Nat × Nat) : PhysPage :=
  match p.ics (i - change.1) with
  | .translated _ =>
    if change.1 ≤ i then { p with ics := Function.update p.ics (i - change.1) (.translated change.2) } else p
  | _ => p

def translate (combining : Bool) (p : PhysPage) (addr : Addr) (i : Nat) : Decoded → PhysPage
  | .bad => p.clear i
  | .good n changes =>
    let p := p.fill a addr i n
    if combining then changes.foldl (combine i) p else p

/-- "Translation read-ahead". `baseaddr` is the address of slot `i`, and the slots from `i + j` on are next. -/
def readAhead (t : Translation) (baseaddr : Addr) (i : Nat) : Nat → Nat → Addr → PhysPage → PhysPage
  | 0, _, _, p => p
  | left + 1, j, pc, p =>
    if (baseaddr + BitVec.ofNat 64 (j <<< a.instrAlignmentShift)) >>> a.pageShift ≠ baseaddr >>> a.pageShift then p
    else if p.ics (i + j) ≠ .toBeTranslated then p
    else
      let addr := a.icAddr pc (i + j)
      let p := p.translate a t.combine addr (i + j) (t.decode (i + j))
      if p.ics (i + j) = .toBeTranslated then p else readAhead t baseaddr i left (j + 1) addr p

/-- to_be_translated() for slot `i`. -/
def toBeTranslated (t : Translation) (p : PhysPage) (pc : Addr) (i : Nat) : PhysPage :=
  let addr := a.icAddr pc i
  let p := p.translate a t.combine addr i (t.decode i)
  match t.decode i with
  | .bad => p
  | .good _ _ => if t.once || !t.readahead then p else p.readAhead a t addr i maxDyntransReadahead 1 addr

/-- Every slot that is filled has its bit set, and the page ends where it should. -/
structure Complete (p : PhysPage) : Prop where
  marked : ∀ i, i < a.icEntriesPerPage → p.ics i ≠ .toBeTranslated →
    p.translationsBitmap.getLsbD (i / a.icsPerBit) = true
  ends : ∀ i, a.icEntriesPerPage ≤ i → p.ics i = if i = a.icEntriesPerPage then .endOfPage else .endOfPage2

structure Emptied (before p : PhysPage) : Prop where
  slots : ∀ i, i < a.icEntriesPerPage → p.ics i = .toBeTranslated
  bitmap : p.translationsBitmap = 0
  ends : ∀ i, a.icEntriesPerPage ≤ i → p.ics i = before.ics i

section
variable {a} {p : PhysPage} {i : Nat}

theorem Complete.of_template (addr : Addr) (n : Nat) :
    Complete a ({ Tc.template a addr with nextOfs := n } : PhysPage) := by
  refine ⟨fun i hi hne => ?_, fun i hi => ?_⟩
  · exact absurd (if_pos hi) hne
  · exact if_neg (Nat.not_lt.mpr hi)

theorem Complete.lt_of_toBeTranslated (h : p.Complete a) (hi : p.ics i = .toBeTranslated) : i < a.icEntriesPerPage := by
  by_contra hle
  have hend := h.ends i (Nat.le_of_not_lt hle)
  rw [hi] at hend
  split at hend <;> cases hend

theorem Complete.lt_of_translated (h : p.Complete a) {n : Nat} (hi : p.ics i = .translated n) :
    i < a.icEntriesPerPage := by
  by_contra hle
  have hend := h.ends i (Nat.le_of_not_lt hle)
  rw [hi] at hend
  split at hend <;> cases hend

theorem Complete.clear (h : p.Complete a) (hi : i < a.icEntriesPerPage) : (p.clear i).Complete a := by
  refine ⟨fun j hj hne => ?_, fun j hj => ?_⟩
  · by_cases hji : j = i
    · subst hji
      exact absurd (Function.update_self j _ _) hne
    · refine h.marked j hj fun hj' => hne ?_
      exact (Function.update_of_ne hji _ _).trans hj'
  · exact (Function.update_of_ne (by omega) _ _).trans (h.ends j hj)

theorem div_icsPerBit_lt (hi : i < a.icEntriesPerPage) : i / a.icsPerBit < 32 := by
  rw [Tc.icEntriesPerPage_eq] at hi
  exact Nat.div_lt_of_lt_mul (by rw [Nat.mul_comm]; exact hi)

theorem Complete.fill (h : p.Complete a) {addr : Addr} (hi : i < a.icEntriesPerPage)
    (haddr : (addr &&& a.offsetMask).toNat = i * 2 ^ a.instrAlignmentShift) (n : Nat) :
    (p.fill a addr i n).Complete a := by
  have hbit : (addr &&& a.offsetMask).toNat / (2 ^ a.pageShift / 32) = i / a.icsPerBit := by
    rw [haddr, Cpu.bit_of_offset]
  refine ⟨fun j hj hne => ?_, fun j hj => ?_⟩
  · change (p.translationsBitmap ||| 1#32 <<< _).getLsbD _ = true
    rw [hbit, BitVec.getLsbD_or]
    by_cases hji : j = i
    · subst hji
      have hlt := div_icsPerBit_lt hj
      simp [hlt]
    · have hj' : p.ics j ≠ .toBeTranslated := fun he => hne ((Function.update_of_ne hji _ _).trans he)
      rw [h.marked j hj hj', Bool.true_or]
  · exact (Function.update_of_ne (by omega) _ _).trans (h.ends j hj)

theorem Complete.combine (h : p.Complete a) (change : Nat × Nat) : (p.combine i change).Complete a := by
  unfold PhysPage.combine
  split
  · rename_i m hm
    split
    · have hlt := h.lt_of_translated hm
      refine ⟨fun j hj hne => ?_, fun j hj => ?_⟩
      · apply h.marked j hj
        by_cases hji : j = i - change.1
        · rw [hji, hm]
          exact fun he => nomatch he
        · exact fun he => hne ((Function.update_of_ne hji _ _).trans he)
      · exact (Function.update_of_ne (by omega) _ _).trans (h.ends j hj)
    · exact h
  · exact h

theorem Complete.combinations (changes : List (Nat × Nat)) :
    ∀ {p : PhysPage}, p.Complete a → (changes.foldl (PhysPage.combine i) p).Complete a := by
  induction changes with
  | nil => exact id
  | cons change changes ih => exact fun h => ih (h.combine change)

theorem Complete.translate (h : p.Complete a) (combining : Bool) {addr : Addr} (hi : i < a.icEntriesPerPage)
    (haddr : (addr &&& a.offsetMask).toNat = i * 2 ^ a.instrAlignmentShift) (d : Decoded) :
    (p.translate a combining addr i d).Complete a := by
  cases d with
  | bad => exact h.clear hi
  | good n changes =>
    have hfill := h.fill hi haddr n
    unfold PhysPage.translate
    dsimp only
    split
    · exact hfill.combinations changes
    · exact hfill

theorem Complete.readAhead (t : Translation) (baseaddr : Addr) (i left : Nat) :
    ∀ {j : Nat} {pc : Addr} {p : PhysPage}, p.Complete a → (p.readAhead a t baseaddr i left j pc).Complete a := by
  induction left with
  | zero => exact fun h => h
  | succ left ih =>
    intro j pc p h
    unfold PhysPage.readAhead
    split
    · exact h
    · split
      · exact h
      · rename_i hslot
        have hlt := h.lt_of_toBeTranslated (not_not.mp hslot)
        have hnext := h.translate t.combine hlt (a.icAddr_offset pc hlt) (t.decode (i + j))
        dsimp only
        split
        · exact hnext
        · exact ih hnext

theorem Complete.toBeTranslated (h : p.Complete a) (t : Translation) (pc : Addr) (hi : i < a.icEntriesPerPage) :
    (p.toBeTranslated a t pc i).Complete a := by
  have hslot := h.translate t.combine hi (a.icAddr_offset pc hi) (t.decode i)
  unfold PhysPage.toBeTranslated
  split
  · exact hslot
  · split
    · exact hslot
    · exact .readAhead t _ i _ hslot

end

end PhysPage

/-! ## invalidate_code_translation() -/

namespace Tc
variable {a : Arch} {tc : Tc} {ofs : Nat}

theorem resetPage_emptied (h : (tc.page ofs).Complete a) :
    PhysPage.Emptied a (tc.page ofs) ((tc.resetPage a ofs).page ofs) := by
  have hpos := icsPerBit_pos a
  unfold resetPage
  dsimp only
  split
  · -- on ARM every bit is taken to be set
    have hx : ∀ j, j < 32 → (tc.page ofs).translationsBitmap.getLsbD j = true →
        (if a = .arm then 0xffffffff#32 else (tc.page ofs).translationsBitmap).getLsbD j = true := by
      intro j hj hset
      split
      · exact BitVec.getLsbD_allOnes.trans (decide_eq_true hj)
      · exact hset
    generalize (if a = .arm then 0xffffffff#32 else (tc.page ofs).translationsBitmap) = x at hx
    simp only [setPage, Function.update_self]
    refine ⟨fun i hi => ?_, rfl, fun i hi => ?_⟩
    · dsimp only
      rw [resetIcs_eq x hpos]
      split
      · rfl
      · rename_i hbit
        by_contra hne
        have hdiv := PhysPage.div_icsPerBit_lt hi
        exact hbit ⟨hdiv, hx _ hdiv (h.marked i hi hne)⟩
    · dsimp only
      rw [resetIcs_eq x hpos, if_neg]
      rintro ⟨hdiv, -⟩
      rw [icEntriesPerPage_eq] at hi
      have hle := Nat.div_le_div_right (c := a.icsPerBit) hi
      rw [Nat.mul_div_cancel _ hpos] at hle
      omega
  · rename_i h0
    have hzero : (tc.page ofs).translationsBitmap = 0 := not_not.mp h0
    refine ⟨fun i hi => ?_, hzero, fun _ _ => rfl⟩
    by_contra hne
    have hset := h.marked i hi hne
    rw [hzero] at hset
    simp at hset

theorem resetPage_complete {o : Nat} (h : (tc.page o).Complete a) (ofs : Nat) :
    ((tc.resetPage a ofs).page o).Complete a := by
  by_cases ho : o = ofs
  · subst ho
    have he := resetPage_emptied h
    exact ⟨fun i hi hne => absurd (he.slots i hi) hne, fun i hi => (he.ends i hi).trans (h.ends i hi)⟩
  · rw [resetPage_other ho]
    exact h

theorem setPage_inChain {p : PhysPage} (hn : p.nextOfs = (tc.page ofs).nextOfs) (o : Nat) :
    (tc.setPage ofs p).InChain o ↔ tc.InChain o := by
  have hnext : ∀ q, ((tc.setPage ofs p).page q).nextOfs = (tc.page q).nextOfs := by
    intro q
    by_cases hq : q = ofs
    · subst hq
      simp [setPage, hn]
    · simp [setPage, Function.update_of_ne hq]
  have hbase : (tc.setPage ofs p).base = tc.base := rfl
  exact ⟨inChain_of_same hbase.symm fun q => (hnext q).symm, inChain_of_same hbase hnext⟩

theorem WF.setPage (h : tc.WF a) {p : PhysPage} (hn : p.nextOfs = (tc.page ofs).nextOfs)
    (hp : p.physaddr = (tc.page ofs).physaddr) : (tc.setPage ofs p).WF a := by
  obtain ⟨chain, h⟩ := h
  refine ⟨chain, h.of_same rfl rfl (fun o => ?_) fun o => ?_⟩ <;> by_cases ho : o = ofs
  · subst ho
    simp [Tc.setPage, hn]
  · simp [Tc.setPage, Function.update_of_ne ho]
  · subst ho
    simp [Tc.setPage, hp]
  · simp [Tc.setPage, Function.update_of_ne ho]

end Tc

namespace PhysPage
variable {a : Arch} {p : PhysPage}

def SamePlace (p p' : PhysPage) : Prop := p'.nextOfs = p.nextOfs ∧ p'.physaddr = p.physaddr

theorem SamePlace.trans {p' p'' : PhysPage} (h : p.SamePlace p') (h' : p'.SamePlace p'') : p.SamePlace p'' :=
  ⟨h'.1.trans h.1, h'.2.trans h.2⟩

theorem combine_samePlace (i : Nat) (p : PhysPage) (change : Nat × Nat) : p.SamePlace (p.combine i change) := by
  unfold combine
  split
  · split <;> exact ⟨rfl, rfl⟩
  · exact ⟨rfl, rfl⟩

theorem combinations_samePlace (i : Nat) (changes : List (Nat × Nat)) :
    ∀ p : PhysPage, p.SamePlace (changes.foldl (combine i) p) := by
  induction changes with
  | nil => exact fun _ => ⟨rfl, rfl⟩
  | cons change changes ih => exact fun p => (combine_samePlace i p change).trans (ih _)

theorem translate_samePlace (combining : Bool) (p : PhysPage) (addr : Addr) (i : Nat) (d : Decoded) :
    p.SamePlace (p.translate a combining addr i d) := by
  cases d with
  | bad => exact ⟨rfl, rfl⟩
  | good n changes =>
    have hfill : p.SamePlace (p.fill a addr i n) := ⟨rfl, rfl⟩
    unfold translate
    dsimp only
    split
    · exact hfill.trans (combinations_samePlace i changes _)
    · exact hfill

theorem readAhead_samePlace (t : Translation) (baseaddr : Addr) (i left : Nat) :
    ∀ (j : Nat) (pc : Addr) (p : PhysPage), p.SamePlace (p.readAhead a t baseaddr i left j pc) := by
  induction left with
  | zero => exact fun _ _ _ => ⟨rfl, rfl⟩
  | succ left ih =>
    intro j pc p
    unfold readAhead
    split
    · exact ⟨rfl, rfl⟩
    · split
      · exact ⟨rfl, rfl⟩
      · have hslot := translate_samePlace (a := a) t.combine p (a.icAddr pc (i + j)) (i + j) (t.decode (i + j))
        dsimp only
        split
        · exact hslot
        · exact hslot.trans (ih _ _ _)

theorem toBeTranslated_samePlace (t : Translation) (p : PhysPage) (pc : Addr) (i : Nat) :
    p.SamePlace (p.toBeTranslated a t pc i) := by
  have hslot := translate_samePlace (a := a) t.combine p (a.icAddr pc i) i (t.decode i)
  unfold toBeTranslated
  split
  · exact hslot
  · split
    · exact hslot
    · exact hslot.trans (readAhead_samePlace t _ i _ _ _ _)

end PhysPage

/-! ## Runs -/

/-- A CPU, and the slot whose function is to be taken back when it returns. -/
structure Translating where
  cpu : Cpu
  taken : Option (Nat × Nat)

/-- What a CPU does to its translation pages. `call` is the call of the function in a slot of the current page. -/
inductive CodeOp where
  | pcToPointers (pc : Addr) (host : Addr → Option Nat) (v2p : V2p)
  | pcToPointersGeneric (pc : Addr) (host : Addr → Option Nat) (v2p : V2p)
  | table (o : TableOp)
  | call (t : Translation) (i : Nat)
  | takeBack

namespace Translating
variable (conf : Conf)

def afterCall (t : Translation) (ofs i : Nat) : Option (Nat × Nat) :=
  match t.decode i with
  | .bad => none
  | .good _ _ => if t.once then some (ofs, i) else none

def step (s : Translating) : CodeOp → Except Exit Translating
  | .pcToPointers pc host v2p => do
    let cpu ← Cpu.pcToPointers conf host v2p { s.cpu with pc }
    return { s with cpu }
  | .pcToPointersGeneric pc host v2p => do
    let cpu ← Cpu.pcToPointersGeneric conf host v2p { s.cpu with pc }
    return { s with cpu }
  | .table o => do
    let cpu ← s.cpu.tableStep conf o
    return { s with cpu }
  | .call t i =>
    let c := s.cpu
    let p := c.tc.page c.curIcPage
    if p.ics i = .toBeTranslated then
      let p := p.toBeTranslated conf.arch t c.pc i
      .ok ⟨{ c with tc := c.tc.setPage c.curIcPage p, pc := conf.arch.icAddr c.pc i }, afterCall t c.curIcPage i⟩
    else .ok s
  | .takeBack =>
    match s.taken with
    | some (ofs, i) =>
      let c := s.cpu
      .ok ⟨{ c with tc := c.tc.setPage ofs ((c.tc.page ofs).clear i) }, none⟩
    | none => .ok s

/-- Every page of the cache has its filled slots marked, and an invalidation of a physical page empties its page. -/
def CompletePages (s : Translating) : Prop :=
  ∀ o, s.cpu.tc.InChain o → (s.cpu.tc.page o).Complete conf.arch ∧
    ∀ addr flags c', hasFlag flags invalidatePaddr = true →
      conf.arch.pageAddr addr = (s.cpu.tc.page o).physaddr →
      s.cpu.invalidateCodeTranslation conf addr flags = .ok c' →
      PhysPage.Emptied conf.arch (s.cpu.tc.page o) (c'.tc.page o)

end Translating

namespace Cpu
variable {conf : Conf} {c c' : Cpu}

/-- Every `phys_page` is a page of the cache, and the pages of the cache are complete. -/
structure Translated (conf : Conf) (c : Cpu) : Prop where
  wf : c.WF conf
  linked : ∀ k o, ((c.tables.flat conf.arch).slot k).physPage = some o → c.tc.InChain o
  complete : ∀ o, c.tc.InChain o → (c.tc.page o).Complete conf.arch

theorem Translated.moved (h : c.Translated conf) (pc : Addr) (ofs next : Nat) :
    Translated conf { c with pc := pc, curIcPage := ofs, nextIc := next } :=
  ⟨⟨h.wf.tables, h.wf.tc⟩, h.linked, h.complete⟩

theorem Translated.pointTo (h : c.Translated conf) (host : Addr → Option Nat) {pc p : Addr}
    (hp : (c.tables.slotOf conf.arch pc).hostLoad = none → c.tables.mode = .mode32 →
      conf.arch.pageAddr p ≤ 0xffffffff#64)
    (hok : c.pointTo conf host pc (c.tables.l3Of conf.arch pc) p = .ok c') :
    c'.Translated conf ∧ c'.tc.InChain c'.curIcPage := by
  have hal := conf.arch.aligned_pageAddr p
  obtain ⟨c1, c2, c3, c4, c5, ppp, hok', ⟨hw1, -, htc1, -, hcase1⟩, ⟨hw2, -, -, hcase2⟩,
    ⟨hw3, ht3, -, hin3, -, hold3, hcase3⟩, ⟨hw4, -, htc4, -, hcase4⟩, ⟨hw5, -, htc5, -, hcase5⟩⟩ :=
    pointTo_parts h.wf host hp
  rw [hok] at hok'
  cases hok'
  have h1 : c1.Translated conf := by
    refine ⟨hw1, fun k o ho => ?_, htc1 ▸ h.complete⟩
    rw [htc1]
    rcases hcase1 with rfl | ⟨-, hostPage, -, hfl⟩
    · exact h.linked k o ho
    · rw [hfl] at ho
      exact h.linked k o (Vph.updated_physPage ho)
  have h2 : c2.Translated conf := by
    rcases hcase2 with ⟨-, rfl⟩ | ⟨-, htc, hfl⟩
    · exact h1
    · refine ⟨hw2, fun k o ho => ?_, fun o ho => ?_⟩
      · rw [hfl, Vph.physPage_invalidateAll hw1.tables.2.1] at ho
        cases ho
      · rw [htc] at ho
        exact absurd ho (Tc.not_inChain_reset _ o)
  have h3 : c3.Translated conf := by
    refine ⟨hw3, fun k o ho => ?_, fun o ho => ?_⟩
    · rw [ht3] at ho
      exact (hold3 o (h2.linked k o ho)).1
    · rcases hcase3 with ⟨rfl, -⟩ | ⟨hf, htc, -⟩
      · exact h2.complete o ho
      · rw [htc] at ho ⊢
        rcases hw2.tc.of_inChain_create hal hf ho with rfl | hold
        · rw [Tc.create_page, Function.update_self]
          exact .of_template _ _
        · rw [← htc, (hold3 o hold).2]
          exact h2.complete o hold
  have h4 : c4.Translated conf := by
    refine ⟨hw4, fun k o ho => ?_, htc4 ▸ h3.complete⟩
    rw [htc4]
    rcases hcase4 with rfl | ⟨-, hfl⟩
    · exact h3.linked k o ho
    · rw [hfl, Vph.setSlot_slot] at ho
      by_cases hk : k = conf.arch.addrToPagenr c3.tables.mode pc
      · rw [hk, Function.update_self] at ho
        cases ho
        exact hin3
      · rw [Function.update_of_ne hk] at ho
        exact h3.linked k o ho
  have h5 : c5.Translated conf := by
    refine ⟨hw5, fun k o ho => ?_, htc5 ▸ h4.complete⟩
    rw [htc5]
    rcases hcase5 with ⟨rfl, -⟩ | hfl
    · exact h4.linked k o ho
    · have hsh := (Vph.invalidateTranslationCaches_spec hw4.tables.2.1 conf.vaddrMask (conf.arch.pageAddr p)
        (justMarkAsNonWritable ||| invalidatePaddr)).2.1
      rw [← hfl] at hsh
      exact h4.linked k o (hsh.of_physPage ho).1
  refine ⟨h5.moved _ _ _, ?_⟩
  rw [htc5, htc4]
  exact hin3

/-- A lookup that returns keeps the pages complete, and leaves the CPU in one of them. -/
def Arrives (conf : Conf) (f : Cpu → Except Exit Cpu) : Prop :=
  ∀ c c' : Cpu, c.Translated conf → f c = .ok c' → c'.Translated conf ∧ c'.tc.InChain c'.curIcPage

theorem quick_arrives {generic : Cpu → Except Exit Cpu} (h : Arrives conf generic) :
    Arrives conf (quick conf generic) := by
  intro c c' hc hok
  unfold quick at hok
  dsimp only at hok
  split at hok
  · rename_i ppp hpp
    cases hok
    rw [Tables.slotOf_eq] at hpp
    exact ⟨hc.moved _ _ _, hc.linked _ ppp hpp⟩
  · exact h c c' hc hok

theorem Translated.pointTo_loaded (h : c.Translated conf) {host : Addr → Option Nat} {pc : Addr}
    (hl : (c.tables.slotOf conf.arch pc).hostLoad ≠ none)
    (hok : c.pointTo conf host pc (c.tables.l3Of conf.arch pc) (c.tables.slotOf conf.arch pc).physAddr = .ok c') :
    c'.Translated conf ∧ c'.tc.InChain c'.curIcPage :=
  h.pointTo host (fun hnone => absurd hnone hl) hok

theorem Translated.pointTo_translated (h : c.Translated conf) {host : Addr → Option Nat} {pc paddr : Addr}
    (hok : c.pointTo conf host pc (c.tables.l3Of conf.arch pc) (c.tables.mode.trunc paddr) = .ok c') :
    c'.Translated conf ∧ c'.tc.InChain c'.curIcPage :=
  h.pointTo host (fun _ hm => trunc_le conf.arch hm paddr) hok

theorem pcToPointersGeneric_arrives (host : Addr → Option Nat) (v2p : V2p) :
    Arrives conf (pcToPointersGeneric conf host v2p) := by
  induction v2p with
  | ok paddr =>
    intro c c' hc hok
    unfold pcToPointersGeneric at hok
    simp only [Tables.slotVia_l3Of] at hok
    split at hok
    · rename_i hl
      exact hc.pointTo_loaded hl hok
    · exact hc.pointTo_translated hok
  | exception handler nested again ih =>
    intro c c' hc hok
    unfold pcToPointersGeneric at hok
    simp only [Tables.slotVia_l3Of] at hok
    split at hok
    · rename_i hl
      exact hc.pointTo_loaded hl hok
    · -- the page of the handler is looked up first
      obtain ⟨c1, hok1, hok⟩ := Lib.bind_eq_ok hok
      obtain ⟨hc1, -⟩ := quick_arrives ih { c with pc := handler } c1 (hc.moved _ _ _) hok1
      split at hok
      · rename_i hl
        exact hc1.pointTo_loaded hl hok
      · split at hok
        · exact hc1.pointTo_translated hok
        · cases hok

theorem Translated.tableStep (h : c.Translated conf) {o : TableOp} (hs : c.tableStep conf o = .ok c') :
    c'.Translated conf := by
  have hl := legal_of_ok hs
  obtain ⟨c'', hok, hw, -⟩ := h.wf.tableStep hl
  rw [hs] at hok
  cases hok
  have hin := tableStep_inChain hs
  refine ⟨hw, fun k q hq => (hin q ?_).1, fun q hq => ?_⟩
  · obtain ⟨-, -, hcase⟩ := tableStep_cases h.wf.tables hs
    rcases hcase with ⟨v, hostPage, w, p, -, -, hfl⟩ | hsh
    · rw [hfl] at hq
      exact h.linked k q (Vph.updated_physPage hq)
    · exact h.linked k q (hsh.of_physPage hq).1
  · rcases tableStep_tc hs with he | ⟨_, _, ofs, -, -, he⟩
    · rw [he] at hq ⊢
      exact h.complete q hq
    · rw [he] at hq ⊢
      refine Tc.resetPage_complete (h.complete q ?_) ofs
      exact Tc.inChain_of_same (Tc.resetPage_base c.tc ofs).1.symm (fun o => (Tc.resetPage_same c.tc ofs o).1.symm) hq

theorem Translated.setPage (h : c.Translated conf) {ofs : Nat} {p : PhysPage} (hp : (c.tc.page ofs).SamePlace p)
    (hc : c.tc.InChain ofs → p.Complete conf.arch) (pc : Addr) :
    Translated conf { c with tc := c.tc.setPage ofs p, pc := pc } := by
  have hin := @Tc.setPage_inChain c.tc ofs p hp.1
  refine ⟨⟨h.wf.tables, h.wf.tc.setPage hp.1 hp.2⟩, fun k o ho => (hin o).mpr (h.linked k o ho), fun o ho => ?_⟩
  have ho' := (hin o).mp ho
  by_cases hoo : o = ofs
  · subst hoo
    simp only [Tc.setPage, Function.update_self]
    exact hc ho'
  · simp only [Tc.setPage, Function.update_of_ne hoo]
    exact h.complete o ho'

theorem Translated.emptied (h : c.Translated conf) {addr : Addr} {flags o : Nat}
    (hflag : hasFlag flags invalidatePaddr = true) (ho : c.tc.InChain o)
    (haddr : conf.arch.pageAddr addr = (c.tc.page o).physaddr)
    (hok : c.invalidateCodeTranslation conf addr flags = .ok c') :
    PhysPage.Emptied conf.arch (c.tc.page o) (c'.tc.page o) := by
  have hfind := h.wf.tc.inChain_find ho
  unfold invalidateCodeTranslation at hok
  rw [if_pos hflag, haddr, hfind] at hok
  obtain ⟨t, -, ht⟩ := Lib.bind_eq_ok hok
  cases ht
  exact Tc.resetPage_emptied (h.complete o ho)

end Cpu

namespace Translating
variable {conf : Conf} {s s' : Translating}

/-- What a run keeps. The slot that is to be taken back is a slot of a page. -/
structure Inv (conf : Conf) (s : Translating) : Prop where
  translated : s.cpu.Translated conf
  current : s.cpu.tc.InChain s.cpu.curIcPage
  taken : ∀ ofs i, s.taken = some (ofs, i) → i < conf.arch.icEntriesPerPage

theorem Inv.complete_pages (h : s.Inv conf) : s.CompletePages conf := fun o ho =>
  ⟨h.translated.complete o ho, fun _ _ _ hflag haddr hok => h.translated.emptied hflag ho haddr hok⟩

theorem Inv.lookup (h : s.Inv conf) {f : Cpu → Except Exit Cpu} (hf : Cpu.Arrives conf f) {pc : Addr} {cpu : Cpu}
    (hok : f { s.cpu with pc } = .ok cpu) : Inv conf { s with cpu } := by
  obtain ⟨ht, hin⟩ := hf _ _ (h.translated.moved _ _ _) hok
  exact ⟨ht, hin, h.taken⟩

theorem Inv.step (h : s.Inv conf) {o : CodeOp} (hs : s.step conf o = .ok s') : s'.Inv conf := by
  cases o with
  | pcToPointers pc host v2p =>
    obtain ⟨cpu, hcpu, hs⟩ := Lib.bind_eq_ok hs
    cases hs
    exact h.lookup (Cpu.quick_arrives (Cpu.pcToPointersGeneric_arrives host v2p)) hcpu
  | pcToPointersGeneric pc host v2p =>
    obtain ⟨cpu, hcpu, hs⟩ := Lib.bind_eq_ok hs
    cases hs
    exact h.lookup (Cpu.pcToPointersGeneric_arrives host v2p) hcpu
  | table o =>
    obtain ⟨cpu, hcpu, hs⟩ := Lib.bind_eq_ok hs
    cases hs
    refine ⟨h.translated.tableStep hcpu, ?_, h.taken⟩
    rw [Cpu.tableStep_cur hcpu]
    exact (Cpu.tableStep_inChain hcpu _ h.current).1
  | call t i =>
    unfold Translating.step at hs
    dsimp only at hs
    split at hs
    · rename_i hslot
      cases hs
      have hpage := h.translated.complete _ h.current
      have hlt := hpage.lt_of_toBeTranslated hslot
      have hplace := PhysPage.toBeTranslated_samePlace (a := conf.arch) t (s.cpu.tc.page s.cpu.curIcPage) s.cpu.pc i
      refine ⟨h.translated.setPage hplace (fun _ => hpage.toBeTranslated t _ hlt) _, ?_, fun ofs j hj => ?_⟩
      · exact (Tc.setPage_inChain hplace.1 _).mpr h.current
      · -- only the slot of the call itself is taken back
        dsimp only [afterCall] at hj
        split at hj
        · cases hj
        · split at hj <;> cases hj
          exact hlt
    · cases hs
      exact h
  | takeBack =>
    unfold Translating.step at hs
    dsimp only at hs
    split at hs
    · rename_i ofs i htaken
      cases hs
      have hplace : (s.cpu.tc.page ofs).SamePlace ((s.cpu.tc.page ofs).clear i) := ⟨rfl, rfl⟩
      refine ⟨h.translated.setPage hplace (fun ho => ?_) _, (Tc.setPage_inChain hplace.1 _).mpr h.current,
        fun ofs j hj => nomatch hj⟩
      exact (h.translated.complete ofs ho).clear (h.taken ofs i htaken)
    · cases hs
      exact h

end Translating

/-- From the first page that a CPU enters on, every slot that is filled has its bit set in the bitmap of its page, and
an invalidation of a physical page leaves nothing of its page but the end. -/
theorem completePages (conf : Conf) (mode : Mode) (hm : conf.arch.hasMode mode = true) (x : Nat) (tc : Tc) {pc : Addr}
    {host : Addr → Option Nat} {v2p : V2p} {c : Cpu}
    (hstart : Cpu.pcToPointers conf host v2p { Cpu.start mode x tc.reset with pc } = .ok c) (ops : List CodeOp) :
    Lib.Reaches (Translating.step conf) (Translating.CompletePages conf) ops ⟨c, none⟩ := by
  have hfirst : (Cpu.start mode x tc.reset).Translated conf := by
    refine ⟨⟨Tables.Good.init hm x, Tc.WF.of_reset tc⟩, fun k o ho => ?_, fun o ho => ?_⟩
    · unfold Cpu.start at ho
      rw [Tables.flat_init] at ho
      cases ho
    · exact absurd ho (Tc.not_inChain_reset _ o)
  obtain ⟨ht, hin⟩ := Cpu.quick_arrives (Cpu.pcToPointersGeneric_arrives host v2p) _ _ (hfirst.moved _ _ _) hstart
  have hinv : Translating.Inv conf ⟨c, none⟩ := ⟨ht, hin, fun _ _ h => nomatch h⟩
  exact Lib.reaches_of_inv (fun s o s' h hs => Translating.Inv.step h hs) (fun s h => Translating.Inv.complete_pages h) hinv

/-- A 64-bit MIPS enters physical page 0x5000. Slots 6 to 9 are filled, of which the first two become one, slot 10 is
bad, and the page is stored to. -/
theorem completePages_mips64 : ∃ c,
    Cpu.pcToPointers mips64 (fun _ => none) (.ok 0x5000#64) { Cpu.start .mode64 0 Tc.init.reset with pc := 0x1018#64 } =
      .ok c ∧
    Lib.Reaches (Translating.step mips64) (Translating.CompletePages mips64)
      [.call ⟨fun i => if i = 7 then .good 1 [(1, 2)] else if i < 10 then .good 1 [] else .bad, true, false, true⟩ 6,
        .table (.invalidateCode 0x5010#64 invalidatePaddr)] ⟨c, none⟩ := by
  have hgood : (Tables.init .mode64 0).Good .mips := .init rfl 0
  have hwf : (Cpu.start .mode64 0 Tc.init.reset).WF mips64 := ⟨hgood, Tc.WF.of_reset Tc.init⟩
  have hstart : Cpu.WF mips64 { Cpu.start .mode64 0 Tc.init.reset with pc := 0x1018#64 } := ⟨hwf.tables, hwf.tc⟩
  obtain ⟨c, hc, -⟩ := Cpu.pcToPointers_keepsOrder (fun _ => none) (show V2p.Handled (.ok 0x5000#64) from trivial) _ hstart
  exact ⟨c, hc, completePages mips64 .mode64 rfl 0 Tc.init hc _⟩

end Gxemul
