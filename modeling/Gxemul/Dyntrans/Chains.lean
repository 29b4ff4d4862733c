import Gxemul.Dyntrans.CodePages

/- The pages of the translation cache in memory.

   The cache is filled from its start. A page is put at `translation_cache_cur_ofs`, first
   in the chain of its table entry, so that every chain runs from the newest page to the
   oldest one. The limit is tested before the chain is searched: a page that is created
   starts below `dyntrans_cache_size`, and ends before the margin does. -/
namespace Gxemul

def dyntransCacheMargin : Nat := 200000

theorem Arch.physpageSize_le_margin (a : Arch) : a.physpageSize ≤ dyntransCacheMargin := by
  cases a <;> decide

namespace Tc
variable (conf : Conf)

structure Packed (tc : Tc) (chain : Nat → List Nat) : Prop where
  chained : tc.Chained conf.arch chain
  decreasing : ∀ i, (chain i).Pairwise (· > ·)
  below : ∀ i, ∀ o ∈ chain i, o < conf.dyntransCacheSize
  apart : ∀ i j, ∀ o ∈ chain i, ∀ o' ∈ chain j, o ≠ o' →
    o + conf.arch.physpageSize ≤ o' ∨ o' + conf.arch.physpageSize ≤ o

/-- What the chains have to be. The chain of entry `i` is `chain i`, and the walk along `next_ofs` ends with it. -/
structure InOrder (tc : Tc) (chain : Nat → List Nat) : Prop where
  linked : ∀ i, Lib.Chain tc.nextOfs (tc.base i) (chain i)
  decreasing : ∀ i, (chain i).Pairwise (· > ·)
  index : ∀ i, ∀ o ∈ chain i, conf.arch.tableIndex (tc.page o).physaddr = i
  distinct : ∀ i j, ∀ o ∈ chain i, ∀ o' ∈ chain j, (tc.page o).physaddr = (tc.page o').physaddr → o = o'
  bound : ∀ i, ∀ o ∈ chain i,
    firstOfs ≤ o ∧ o + conf.arch.physpageSize ≤ conf.dyntransCacheSize + dyntransCacheMargin
  apart : ∀ i j, ∀ o ∈ chain i, ∀ o' ∈ chain j, o ≠ o' →
    o + conf.arch.physpageSize ≤ o' ∨ o' + conf.arch.physpageSize ≤ o

def lookup (tc : Tc) (physaddr : Addr) : Tc × Nat :=
  let tc := if conf.dyntransCacheSize ≤ tc.curOfs then tc.reset else tc
  match tc.find conf.arch physaddr with
  | some ofs => (tc, ofs)
  | none => (tc.create conf.arch physaddr, tc.curOfs)

section
variable {conf} {tc tc' : Tc} {chain : Nat → List Nat} {p : Addr}

theorem Packed.inOrder (h : tc.Packed conf chain) : tc.InOrder conf chain := by
  refine ⟨h.chained.linked, h.decreasing, h.chained.index, fun i j o ho o' ho' he => ?_, fun i o ho => ?_, h.apart⟩
  · -- pages with the same address have the same index
    have hi := h.chained.index i o ho
    have hj := h.chained.index j o' ho'
    rw [he, hj] at hi
    subst hi
    exact h.chained.distinct j o ho o' ho' he
  · have hlt := h.below i o ho
    have hsize := conf.arch.physpageSize_le_margin
    exact ⟨(h.chained.bound i o ho).1, by omega⟩

theorem Packed.reset (tc : Tc) : tc.reset.Packed conf fun _ => [] :=
  ⟨.of_reset tc, fun _ => .nil, by simp, by simp⟩

theorem Packed.of_same (h : tc.Packed conf chain) (hb : tc'.base = tc.base) (hc : tc'.curOfs = tc.curOfs)
    (hn : ∀ o, (tc'.page o).nextOfs = (tc.page o).nextOfs) (hp : ∀ o, (tc'.page o).physaddr = (tc.page o).physaddr) :
    tc'.Packed conf chain :=
  ⟨h.chained.of_same hb hc hn hp, h.decreasing, h.below, h.apart⟩

theorem Packed.create (h : tc.Packed conf chain) (hal : conf.arch.Aligned p) (hf : tc.find conf.arch p = none)
    (hroom : tc.curOfs < conf.dyntransCacheSize) :
    (tc.create conf.arch p).Packed conf
      (Function.update chain (conf.arch.tableIndex p) (tc.curOfs :: chain (conf.arch.tableIndex p))) := by
  have hold : ∀ i, ∀ o ∈ chain i, o + conf.arch.physpageSize ≤ tc.curOfs := fun i o ho => (h.chained.bound i o ho).2
  have hpos := conf.arch.physpageSize_pos
  have hmem : ∀ i, ∀ o ∈ Function.update chain (conf.arch.tableIndex p) (tc.curOfs :: chain (conf.arch.tableIndex p)) i,
      o = tc.curOfs ∨ o ∈ chain i := by
    intro i o ho
    by_cases hi : i = conf.arch.tableIndex p
    · subst hi
      rw [Function.update_self] at ho
      exact List.mem_cons.mp ho
    · rw [Function.update_of_ne hi] at ho
      exact .inr ho
  refine ⟨h.chained.create hal hf, fun i => ?_, fun i o ho => ?_, fun i j o ho o' ho' hne => ?_⟩
  · by_cases hi : i = conf.arch.tableIndex p
    · subst hi
      rw [Function.update_self]
      refine List.pairwise_cons.mpr ⟨fun o ho => ?_, h.decreasing _⟩
      have := hold _ o ho
      omega
    · rw [Function.update_of_ne hi]
      exact h.decreasing i
  · rcases hmem i o ho with rfl | ho
    · exact hroom
    · exact h.below i o ho
  · rcases hmem i o ho with rfl | ho <;> rcases hmem j o' ho' with rfl | ho'
    · exact absurd rfl hne
    · exact .inr (hold j o' ho')
    · exact .inl (hold i o ho)
    · exact h.apart i j o ho o' ho' hne

structure Only (tc : Tc) (chain : Nat → List Nat) (p : Addr) (o : Nat) : Prop where
  mem : ∃ i, o ∈ chain i
  physaddr : (tc.page o).physaddr = p
  unique : ∀ i, ∀ o' ∈ chain i, (tc.page o').physaddr = p → o' = o

theorem InOrder.only (h : tc.InOrder conf chain) {i o : Nat} (ho : o ∈ chain i) (hp : (tc.page o).physaddr = p) :
    tc.Only chain p o :=
  ⟨⟨i, ho⟩, hp, fun j o' ho' hp' => h.distinct j i o' ho' o ho (hp'.trans hp.symm)⟩

theorem Packed.lookup (h : tc.Packed conf chain) (hsize : firstOfs < conf.dyntransCacheSize)
    (hal : conf.arch.Aligned p) : ∃ chain', (tc.lookup conf p).1.Packed conf chain' ∧
      (tc.lookup conf p).1.Only chain' p (tc.lookup conf p).2 := by
  -- the limit is tested first, so there is room for the page
  obtain ⟨tc1, chain1, heq, h1, hroom⟩ : ∃ tc1 chain1,
      tc1 = (if conf.dyntransCacheSize ≤ tc.curOfs then tc.reset else tc) ∧ tc1.Packed conf chain1 ∧
        tc1.curOfs < conf.dyntransCacheSize := by
    by_cases hfull : conf.dyntransCacheSize ≤ tc.curOfs
    · exact ⟨tc.reset, _, (if_pos hfull).symm, .reset tc, hsize⟩
    · exact ⟨tc, chain, (if_neg hfull).symm, h, Nat.lt_of_not_le hfull⟩
  unfold Tc.lookup
  rw [← heq]
  dsimp only
  cases hf : tc1.find conf.arch p with
  | some o =>
    obtain ⟨hmem, haddr⟩ := h1.chained.of_find hf
    exact ⟨chain1, h1, h1.inOrder.only hmem haddr⟩
  | none =>
    have h2 := h1.create hal hf hroom
    refine ⟨_, h2, h2.inOrder.only (i := conf.arch.tableIndex p) ?_ ?_⟩
    · rw [Function.update_self]
      exact List.mem_cons_self
    · rw [create_page, Function.update_self]
      exact conf.arch.pageAddr_of_aligned hal

end

end Tc

/-! ## pc_to_pointers_generic() -/

namespace Cpu
variable (conf : Conf)

/-- The first part of pc_to_pointers_generic(): the program counter, its L3 table, and the physical address that the
page is looked up with. -/
def locate (host : Addr → Option Nat) : V2p → Cpu → Except Exit (Cpu × Addr × Nat × Addr)
  | v2p, c =>
    let cachedPc := c.tables.mode.trunc c.pc
    let l3 := c.tables.l3Of conf.arch cachedPc
    let slot := c.tables.slotVia conf.arch l3 cachedPc
    if slot.hostLoad ≠ none then .ok (c, cachedPc, l3, slot.physAddr)
    else
      match v2p with
      | .ok paddr => .ok (c, cachedPc, l3, c.tables.mode.trunc paddr)
      | .exception handler nested again => do
        let c ← quick conf (pcToPointersGeneric conf host nested) { c with pc := handler }
        let cachedPc := c.tables.mode.trunc c.pc
        let l3 := c.tables.l3Of conf.arch cachedPc
        let slot := c.tables.slotVia conf.arch l3 cachedPc
        if slot.hostLoad ≠ none then .ok (c, cachedPc, l3, slot.physAddr)
        else
          match again with
          | some paddr => .ok (c, cachedPc, l3, c.tables.mode.trunc paddr)
          | none => .error .exceptionHandlerUnmapped

variable {conf} {c c' : Cpu} {host : Addr → Option Nat} {v2p : V2p}

theorem pcToPointersGeneric_eq : pcToPointersGeneric conf host v2p c =
    (locate conf host v2p c >>= fun r => r.1.pointTo conf host r.2.1 r.2.2.1 r.2.2.2) := by
  cases v2p with
  | ok paddr =>
    simp only [pcToPointersGeneric, locate]
    split <;> rfl
  | exception handler nested again =>
    simp only [pcToPointersGeneric, locate]
    split
    · rfl
    · -- the lookup of the handler's page may exit, and so may the second attempt
      cases quick conf (pcToPointersGeneric conf host nested) { c with pc := handler } with
      | error e => rfl
      | ok c1 =>
        simp only [bind, Except.bind]
        split
        · rfl
        · cases again <;> rfl

theorem ensureMapped_tc {pc p : Addr} {l3 : Nat} (h : c.ensureMapped conf host pc l3 p = .ok c') : c'.tc = c.tc := by
  unfold ensureMapped at h
  split at h
  · split at h
    · obtain ⟨t, -, ht⟩ := Lib.bind_eq_ok h
      cases ht
      rfl
    · cases h
      rfl
  · cases h
    rfl

theorem createOrResetTc_tc (h : c.createOrResetTc conf = .ok c') : c'.tc = c.tc.reset := by
  unfold createOrResetTc invalidateCodeTranslation at h
  rw [if_neg (by decide)] at h
  obtain ⟨t, -, ht⟩ := Lib.bind_eq_ok h
  cases ht
  rfl

theorem ensureRoom_tc (h : c.ensureRoom conf = .ok c') :
    c'.tc = if conf.dyntransCacheSize ≤ c.tc.curOfs then c.tc.reset else c.tc := by
  unfold ensureRoom at h
  split at h
  · rename_i hfull
    rw [if_pos hfull]
    exact createOrResetTc_tc h
  · rename_i hroom
    rw [if_neg hroom]
    cases h
    rfl

theorem findOrCreate_tc (c : Cpu) (p : Addr) : ((c.findOrCreate conf p).1.tc, (c.findOrCreate conf p).2) =
    match c.tc.find conf.arch p with
    | some ofs => (c.tc, ofs)
    | none => (c.tc.create conf.arch p, c.tc.curOfs) := by
  unfold findOrCreate
  cases c.tc.find conf.arch p <;> rfl

theorem linkPhysPage_tc (c : Cpu) (pc : Addr) (l3 ppp : Nat) : (c.linkPhysPage conf pc l3 ppp).tc = c.tc := by
  unfold linkPhysPage
  split <;> rfl

theorem protectPage_tc {ppp : Nat} {p : Addr} (h : c.protectPage conf ppp p = .ok c') : c'.tc = c.tc := by
  unfold protectPage at h
  split at h
  · obtain ⟨t, -, ht⟩ := Lib.bind_eq_ok h
    cases ht
    rfl
  · cases h
    rfl

theorem pointTo_lookup {pc p : Addr} {l3 : Nat} (h : c.pointTo conf host pc l3 p = .ok c') :
    (c'.tc, c'.curIcPage) = c.tc.lookup conf (conf.arch.pageAddr p) := by
  obtain ⟨c1, h1, h⟩ := Lib.bind_eq_ok h
  obtain ⟨c2, h2, h⟩ := Lib.bind_eq_ok h
  obtain ⟨c5, h5, h⟩ := Lib.bind_eq_ok h
  cases h
  have htc5 : c5.tc = (c2.findOrCreate conf (conf.arch.pageAddr p)).1.tc :=
    (protectPage_tc h5).trans (linkPhysPage_tc _ _ _ _)
  have htc2 := ensureRoom_tc h2
  rw [ensureMapped_tc h1] at htc2
  change (c5.tc, (c2.findOrCreate conf (conf.arch.pageAddr p)).2) = _
  rw [htc5, findOrCreate_tc, htc2]
  rfl

def Packed (conf : Conf) (c : Cpu) : Prop :=
  ∃ chain, c.tc.Packed conf chain

theorem Packed.locate_of_nested (v2p : V2p) (hnested : ∀ {handler nested again}, v2p = .exception handler nested again →
      ∀ c c' : Cpu, c.Packed conf → pcToPointersGeneric conf host nested c = .ok c' → c'.Packed conf)
    (h : c.Packed conf) {r : Cpu × Addr × Nat × Addr} (hok : locate conf host v2p c = .ok r) : r.1.Packed conf := by
  cases v2p with
  | ok paddr =>
    simp only [locate] at hok
    split at hok <;> cases hok <;> exact h
  | exception handler nested again =>
    simp only [locate] at hok
    split at hok
    · cases hok
      exact h
    · obtain ⟨c1, h1, hok⟩ := Lib.bind_eq_ok hok
      have hc1 : c1.Packed conf := by
        unfold quick at h1
        dsimp only at h1
        split at h1
        · cases h1
          exact h
        · exact hnested rfl { c with pc := handler } _ h h1
      split at hok
      · cases hok
        exact hc1
      · split at hok <;> cases hok
        exact hc1

section
variable (hsize : Tc.firstOfs < conf.dyntransCacheSize)
include hsize

theorem Packed.pointTo (h : c.Packed conf) {pc p : Addr} {l3 : Nat} (hok : c.pointTo conf host pc l3 p = .ok c') :
    ∃ chain, c'.tc.Packed conf chain ∧ c'.tc.Only chain (conf.arch.pageAddr p) c'.curIcPage := by
  obtain ⟨chain, hp⟩ := h
  obtain ⟨chain', hp', honly⟩ := hp.lookup hsize (conf.arch.aligned_pageAddr p)
  rw [← pointTo_lookup hok] at hp' honly
  exact ⟨chain', hp', honly⟩

theorem Packed.generic (v2p : V2p) : ∀ c c' : Cpu, c.Packed conf → pcToPointersGeneric conf host v2p c = .ok c' →
    c'.Packed conf := by
  induction v2p with
  | ok paddr =>
    intro c c' h hok
    rw [pcToPointersGeneric_eq] at hok
    obtain ⟨r, hr, hok⟩ := Lib.bind_eq_ok hok
    obtain ⟨chain, hp, -⟩ := (Packed.locate_of_nested (.ok paddr) (fun h => by cases h) h hr).pointTo
      hsize hok
    exact ⟨chain, hp⟩
  | exception handler nested again ih =>
    intro c c' h hok
    rw [pcToPointersGeneric_eq] at hok
    obtain ⟨r, hr, hok⟩ := Lib.bind_eq_ok hok
    have hnested := Packed.locate_of_nested (.exception handler nested again) (fun h => by
      cases h
      exact ih) h hr
    obtain ⟨chain, hp, -⟩ := hnested.pointTo hsize hok
    exact ⟨chain, hp⟩

theorem Packed.locate (h : c.Packed conf) {r : Cpu × Addr × Nat × Addr} (hok : Cpu.locate conf host v2p c = .ok r) :
    r.1.Packed conf :=
  h.locate_of_nested v2p (fun _ => Packed.generic hsize _) hok

end

end Cpu

/-! ## Runs -/

/-- A CPU, and the page that pc_to_pointers_generic() was last called for. -/
structure Lookups where
  cpu : Cpu
  requested : Option Addr

/-- The calls that change the translation cache. `pc` is the program counter that the CPU has arrived at. -/
inductive ChainOp where
  | generic (pc : Addr) (host : Addr → Option Nat) (v2p : V2p)
  | table (o : TableOp)
  | reset

namespace Lookups

def step (conf : Conf) (s : Lookups) : ChainOp → Except Exit Lookups
  | .generic pc host v2p => do
    let (_, _, _, physaddr) ← Cpu.locate conf host v2p { s.cpu with pc }
    let cpu ← Cpu.pcToPointersGeneric conf host v2p { s.cpu with pc }
    return ⟨cpu, some (conf.arch.pageAddr physaddr)⟩
  | .table o => do
    let cpu ← s.cpu.tableStep conf o
    return { s with cpu }
  | .reset => do
    let cpu ← s.cpu.createOrResetTc conf
    return ⟨cpu, none⟩

variable {conf : Conf} {s s' : Lookups}

/-- The chains are in order, and `cur_ic_page` is the page that was requested. -/
def Sound (conf : Conf) (s : Lookups) : Prop :=
  ∃ chain, s.cpu.tc.InOrder conf chain ∧ ∀ p, s.requested = some p → s.cpu.tc.Only chain p s.cpu.curIcPage

def Packed (conf : Conf) (s : Lookups) : Prop :=
  ∃ chain, s.cpu.tc.Packed conf chain ∧ ∀ p, s.requested = some p → s.cpu.tc.Only chain p s.cpu.curIcPage

theorem Packed.sound (h : s.Packed conf) : s.Sound conf := by
  obtain ⟨chain, hp, ho⟩ := h
  exact ⟨chain, hp.inOrder, ho⟩

theorem Packed.generic (h : s.Packed conf) (hsize : Tc.firstOfs < conf.dyntransCacheSize) {pc : Addr}
    {host : Addr → Option Nat} {v2p : V2p} (hs : s.step conf (.generic pc host v2p) = .ok s') : s'.Packed conf := by
  obtain ⟨chain, hp, -⟩ := h
  obtain ⟨r, hr, hs⟩ := Lib.bind_eq_ok hs
  obtain ⟨c', hc, hs⟩ := Lib.bind_eq_ok hs
  cases hs
  -- the page that is requested is the one that the first part arrives at
  rw [Cpu.pcToPointersGeneric_eq, hr] at hc
  have hstart : Cpu.Packed conf { s.cpu with pc := pc } := ⟨chain, hp⟩
  obtain ⟨chain', hp', honly⟩ := (hstart.locate hsize hr).pointTo hsize hc
  refine ⟨chain', hp', fun p hreq => ?_⟩
  cases hreq
  exact honly

theorem Packed.table (h : s.Packed conf) {o : TableOp} (hs : s.step conf (.table o) = .ok s') : s'.Packed conf := by
  obtain ⟨chain, hp, honly⟩ := h
  obtain ⟨c', hc, hs⟩ := Lib.bind_eq_ok hs
  cases hs
  -- an invalidation resets the instructions of a page, and leaves its place and its address
  have hsame : c'.tc.base = s.cpu.tc.base ∧ c'.tc.curOfs = s.cpu.tc.curOfs ∧
      ∀ o, (c'.tc.page o).nextOfs = (s.cpu.tc.page o).nextOfs ∧
        (c'.tc.page o).physaddr = (s.cpu.tc.page o).physaddr := by
    rcases Cpu.tableStep_tc hc with he | ⟨_, _, ofs, -, -, he⟩
    · rw [he]
      exact ⟨rfl, rfl, fun _ => ⟨rfl, rfl⟩⟩
    · rw [he]
      exact ⟨(Tc.resetPage_base _ ofs).1, (Tc.resetPage_base _ ofs).2, Tc.resetPage_same _ ofs⟩
  have hcur := Cpu.tableStep_cur hc
  refine ⟨chain, hp.of_same hsame.1 hsame.2.1 (fun o => (hsame.2.2 o).1) fun o => (hsame.2.2 o).2, fun p hreq => ?_⟩
  obtain ⟨hmem, haddr, hunique⟩ := honly p hreq
  rw [hcur]
  exact ⟨hmem, (hsame.2.2 _).2.trans haddr, fun i o' ho' hp' => hunique i o' ho' ((hsame.2.2 o').2.symm.trans hp')⟩

theorem Packed.reset {c c' : Cpu} (h : c.createOrResetTc conf = .ok c') : Packed conf ⟨c', none⟩ := by
  refine ⟨fun _ => [], ?_, fun p hp => nomatch hp⟩
  rw [Cpu.createOrResetTc_tc h]
  exact .reset c.tc

theorem Packed.step (h : s.Packed conf) (hsize : Tc.firstOfs < conf.dyntransCacheSize) {o : ChainOp}
    (hs : s.step conf o = .ok s') : s'.Packed conf := by
  cases o with
  | generic pc host v2p => exact h.generic hsize hs
  | table o => exact h.table hs
  | reset =>
    obtain ⟨c', hc, hs⟩ := Lib.bind_eq_ok hs
    cases hs
    exact .reset hc

end Lookups

/-- From cpu_create_or_reset_tc() on the chains are in order, and the page that is current is the one that
pc_to_pointers_generic() was called for. The cache has a megabyte at least. -/
theorem lookups_sound (conf : Conf) (hsize : 1048576 ≤ conf.dyntransCacheSize) {c0 c : Cpu}
    (hstart : c0.createOrResetTc conf = .ok c) (ops : List ChainOp) :
    Lib.Reaches (Lookups.step conf) (Lookups.Sound conf) ops ⟨c, none⟩ := by
  have hfirst : Tc.firstOfs < conf.dyntransCacheSize := Nat.lt_of_lt_of_le (by decide) hsize
  refine Lib.reaches_of_inv (fun s o s' h hs => ?_) (fun s h => Lookups.Packed.sound h) (Lookups.Packed.reset hstart)
  exact Lookups.Packed.step h hfirst hs

/-- A 64-bit MIPS that looks two pages up that share a chain, and the first one again. -/
theorem lookups_sound_mips64 : ∃ c, (Cpu.start .mode64 0 Tc.init).createOrResetTc mips64 = .ok c ∧
    Lib.Reaches (Lookups.step mips64) (Lookups.Sound mips64)
      [.generic 0x1000#64 (fun _ => none) (.ok 0x5000#64), .generic 0x2004#64 (fun _ => none) (.ok 0x10005000#64),
        .generic 0x1008#64 (fun _ => none) (.ok 0x5000#64)] ⟨c, none⟩ := by
  have hgood : (Tables.init .mode64 0).Good .mips := .init rfl 0
  have hstart : (Cpu.start .mode64 0 Tc.init).WF mips64 := ⟨hgood, Tc.WF.of_reset Tc.init⟩
  obtain ⟨c, hc, -⟩ := Cpu.createOrResetTc_spec hstart
  exact ⟨c, hc, lookups_sound mips64 (by decide) hc _⟩

end Gxemul
