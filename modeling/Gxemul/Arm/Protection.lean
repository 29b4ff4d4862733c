import Gxemul.Arm.BankedRuns
import Gxemul.Arm.Coproc
import Gxemul.Arm.LoadStoreMultiple
import Gxemul.Arm.Permission
import Gxemul.Dyntrans.Userpage

/- The pages in the translation tables of an ARM CPU are those that the MMU permits.

   A page is put in the tables by an access or a fetch that the MMU permits at that
   time. Later the mode, the control register, DACR, TTB or the page tables can change.
   Only the TLB functions take pages out again. -/
namespace Gxemul.Arm
open Lib (Byte ByteMem)

namespace ArmMachine
variable (c : ArmConf) (hostaddr : Addr → Option Nat) (s : ArmMachine)

/-! ## Pages -/

def PermitsPage (useraccess : Bool) (v p : Addr) (write : Bool) : Prop :=
  ∀ u : Word, Arch.arm.pageAddr (u.setWidth 64) = Mode.mode32.trunc v → s.Permits c hostaddr useraccess u write p

/-- The page of the program counter can be read as a whole, if it can be read there. -/
def FetchesPage : Prop :=
  ∀ paddr access subpage, s.translation c hostaddr s.cpu.pc false false = .ok (.ok paddr access subpage) →
    ∀ u : Word, Arch.arm.pageAddr (u.setWidth 64) = Arch.arm.pageAddr (s.cpu.pc.setWidth 64) →
      s.Permits c hostaddr false u false (Arch.arm.pageAddr (paddr.setWidth 64))

def HandlerFetchesPage (e : ArmException) : Prop :=
  ∀ cpu, s.cpu.armException e = .ok cpu → ArmMachine.FetchesPage c hostaddr { s with cpu }

/-- The lookup of the program counter puts only pages in the tables that can be read as a whole. -/
def LooksUp : Prop :=
  s.FetchesPage c hostaddr ∧ ∀ fsr, s.translation c hostaddr s.cpu.pc false false = .ok (.fault fsr) →
    s.HandlerFetchesPage c hostaddr .prefAbt

def HandlerLooksUp (e : ArmException) : Prop :=
  ∀ cpu, s.cpu.armException e = .ok cpu → ArmMachine.LooksUp c hostaddr { s with cpu }

/-- An access of data succeeds, or the handler of its abort is looked up. -/
def AbortLooksUp (vaddr : Word) (write useraccess : Bool) : Prop :=
  ∀ fsr, s.translation c hostaddr vaddr write useraccess = .ok (.fault fsr) → s.HandlerLooksUp c hostaddr .dataAbt

/-- What an access for user mode finds may be stored to, if other modes have stored to it. -/
def UserMayStore (vaddr : Word) (write : Bool) : Prop :=
  ∀ paddr access, s.translation c hostaddr vaddr write true = .ok (.ok paddr access false) →
    (s.dyn.tables.slotOf .arm (Arch.arm.pageAddr (vaddr.setWidth 64))).hostStore ≠ none → access = 2

/-- A page in the tables is used for loads or for stores, of the current mode or of user mode. -/
def InUse (v : Addr) (useraccess write : Bool) : Prop :=
  (if write then (s.dyn.tables.slotOf .arm v).hostStore else (s.dyn.tables.slotOf .arm v).hostLoad) ≠ none ∧
    (useraccess = true → (s.dyn.tables.flat .arm).isUserpage (Arch.arm.addrToPagenr s.dyn.tables.mode v) = true)

/-- A change from `s` to `s'` takes nothing away that the pages in the tables of `s` are used for. -/
def KeepsPages (hostaddr' : Addr → Option Nat) (s' : ArmMachine) : Prop :=
  ∀ v useraccess write, Arch.arm.Aligned v → s.InUse v useraccess write →
    s.PermitsPage c hostaddr useraccess v (s.dyn.tables.slotOf .arm v).physAddr write →
    s'.PermitsPage c hostaddr' useraccess v (s.dyn.tables.slotOf .arm v).physAddr write

/-- The pages in the tables are those that the MMU permits in the current mode, and
those with a bit in `is_userpage` the MMU permits in user mode. -/
structure Protected : Prop where
  mode : s.dyn.tables.mode = .mode32
  wf : s.dyn.WF c.conf
  backed : s.dyn.Backed c.conf (s.PermitsPage c hostaddr false)
  user : s.dyn.UserBacked c.conf (s.PermitsPage c hostaddr true)

variable {c hostaddr s} {s' : ArmMachine} {io : ArmIo}

theorem trunc_setWidth (u : Word) : Mode.mode32.trunc (u.setWidth 64) = u.setWidth 64 := by
  show u.setWidth 64 &&& (BitVec.allOnes 32).setWidth 64 = _
  rw [← BitVec.setWidth_and, BitVec.and_allOnes]

theorem trunc_pageAddr (u : Word) :
    Mode.mode32.trunc (Arch.arm.pageAddr (u.setWidth 64)) = Arch.arm.pageAddr (u.setWidth 64) := by
  rw [Mode.trunc_pageAddr, trunc_setWidth]

theorem allowsPage {useraccess : Bool} {v : Word} {p : Addr} {write : Bool}
    (h : ∀ u : Word, Arch.arm.pageAddr (u.setWidth 64) = Arch.arm.pageAddr (v.setWidth 64) →
      s.Permits c hostaddr useraccess u write p) :
    Cpu.AllowsPage .arm .mode32 (s.PermitsPage c hostaddr useraccess) (Arch.arm.pageAddr (v.setWidth 64)) p write := by
  intro v' _ hv u hu
  rw [hv, trunc_pageAddr] at hu
  exact h u hu

theorem allowsPage_of_translation {useraccess : Bool} {v paddr : Word} {write write' : Bool} {acc : Nat}
    (h : s.translation c hostaddr v write useraccess = .ok (.ok paddr acc false))
    (hw : write' = true → write = true ∨ acc = 2) :
    Cpu.AllowsPage .arm .mode32 (s.PermitsPage c hostaddr useraccess) (Arch.arm.pageAddr (v.setWidth 64))
      (Arch.arm.pageAddr (paddr.setWidth 64)) write' :=
  allowsPage fun u hu => permits_page h ((pageAddr_eq_iff u v).mp hu) hw

theorem SameMap.refl (s : ArmMachine) : SameMap hostaddr s s := ⟨rfl, rfl, rfl, rfl, rfl⟩

theorem SameMap.trans {s'' : ArmMachine} (h : SameMap hostaddr s s') (h' : SameMap hostaddr s' s'') :
    SameMap hostaddr s s'' :=
  ⟨h'.mmuOn.trans h.mmuOn, h'.control.trans h.control, h'.dacr.trans h.dacr, h'.table.trans h.table, h'.host.trans h.host⟩

theorem SameMap.symm (h : SameMap hostaddr s s') : SameMap hostaddr s' s :=
  ⟨h.mmuOn.symm, h.control.symm, h.dacr.symm, h.table.symm, h.host.symm⟩

theorem SameMap.permitsPage (h : SameMap hostaddr s s') {useraccess write : Bool} {v p : Addr}
    (hu : useraccess = false → s'.userMode = true → s.userMode = true)
    (hp : s.PermitsPage c hostaddr useraccess v p write) : s'.PermitsPage c hostaddr useraccess v p write :=
  fun u hv => h.permits hu (hp u hv)

theorem SameMap.fetchesPage (h : SameMap hostaddr s s') (hu : s'.userMode = s.userMode)
    (hpc : s'.cpu.pc = s.cpu.pc) (hf : s.FetchesPage c hostaddr) : s'.FetchesPage c hostaddr := by
  intro paddr access subpage htr u hv
  rw [h.translation (fun _ => hu), hpc] at htr
  rw [hpc] at hv
  exact h.permits (fun _ => hu ▸ id) (hf paddr access subpage htr u hv)

/-! ## What keeps the tables protected -/

theorem Protected.of_same (h : s.Protected c hostaddr) (hs : SameMap hostaddr s s') (hd : s'.dyn.tables = s.dyn.tables)
    (hw : s'.dyn.WF c.conf) (hu : s'.userMode = true → s.userMode = true) : s'.Protected c hostaddr where
  mode := hd ▸ h.mode
  wf := hw
  backed := (h.backed.of_tables hd).mono fun _ _ _ hp => hs.permitsPage (fun _ => hu) hp
  user := by
    intro v hv hbit
    obtain ⟨hl, hp, hst⟩ := (h.user.of_tables hd) v hv hbit
    exact ⟨hl, hs.permitsPage (fun hf => by cases hf) hp,
      fun hne => hs.permitsPage (fun hf => by cases hf) (hst hne)⟩

theorem SameMap.findTable : SameMap io.hostaddr s (s.findTable io) := by
  obtain ⟨-, hhost, hmmu, -⟩ := findTable_same s io
  exact ⟨hmmu, by rw [findTable_cpu], by rw [findTable_cpu], findTable_table, hhost⟩

theorem Protected.findTable (h : s.Protected c io.hostaddr) : (s.findTable io).Protected c io.hostaddr := by
  have hd := (findTable_same s io).1
  refine h.of_same .findTable (by rw [hd]) (by rw [hd]; exact h.wf) ?_
  unfold userMode
  rw [findTable_cpu]
  exact id

theorem userMode_findTable : (s.findTable io).userMode = s.userMode := by
  unfold userMode
  rw [findTable_cpu]

theorem Protected.pointTo (h : s.Protected c io.hostaddr) (p : Word)
    (hp : s.pcSlot.hostLoad = none → ∀ u : Word,
      Arch.arm.pageAddr (u.setWidth 64) = Arch.arm.pageAddr (s.cpu.pc.setWidth 64) →
      s.Permits c io.hostaddr false u false (Arch.arm.pageAddr (p.setWidth 64)))
    {physaddr : Addr} (hphys : s.pcSlot.hostLoad = none → physaddr = p.setWidth 64)
    (hok : s.pointTo c io physaddr = .ok s') :
    s'.Protected c io.hostaddr ∧ SameMap io.hostaddr s s' ∧ s'.cpu = s.cpu := by
  obtain ⟨dyn, hdyn, hok⟩ := Lib.bind_eq_ok hok
  cases hok
  have hle : (s.dyn.tables.slotOf .arm (s.cpu.pc.setWidth 64)).hostLoad = none → s.dyn.tables.mode = .mode32 →
      Arch.arm.pageAddr physaddr ≤ 0xffffffff#64 := by
    intro hnone hm
    rw [hphys hnone, ← trunc_setWidth]
    have hle := Cpu.trunc_le .arm hm (p.setWidth 64)
    rwa [hm] at hle
  obtain ⟨hb, hw, hm, -⟩ := h.backed.pointTo h.wf hle (fun hnone => by
    rw [h.mode, hphys hnone]
    exact allowsPage (hp hnone)) hdyn
  have hu := h.user.pointTo rfl h.wf hle hdyn
  exact ⟨⟨hm.trans h.mode, hw, hb, hu⟩, ⟨rfl, rfl, rfl, rfl, rfl⟩, rfl⟩

/-- After a lookup the program counter and the mode are as before, or those of the handler
of a prefetch abort. -/
def Fetched (hostaddr : Addr → Option Nat) (s s' : ArmMachine) : Prop :=
  SameMap hostaddr s s' ∧ (s'.cpu.pc = s.cpu.pc ∧ s'.userMode = s.userMode ∨
    s'.cpu.pc = s.cpu.vector .prefAbt ∧ s'.userMode = false)

theorem armException_sameMap {cpu : ArmCpu} {e : ArmException} (h : s.cpu.armException e = .ok cpu) :
    SameMap hostaddr s { s with cpu } ∧ ArmMachine.userMode { s with cpu } = false ∧ cpu.pc = s.cpu.vector e ∧
      cpu.control = s.cpu.control := by
  have hsystem := ArmCpu.armException_system h
  have hcontrol : cpu.control = s.cpu.control := congrArg Prod.fst hsystem
  have httb : cpu.ttb = s.cpu.ttb := congrArg (fun x => x.2.1) hsystem
  have hdacr : cpu.dacr = s.cpu.dacr := congrArg (fun x => x.2.2.1) hsystem
  obtain ⟨hmode, hpc⟩ := ArmCpu.armException_enters h
  refine ⟨⟨rfl, hcontrol, hdacr, ?_, rfl⟩, ?_, hpc, hcontrol⟩
  · unfold table
    rw [httb]
  · unfold userMode
    rw [beq_eq_false_iff_ne]
    intro husr
    have : armMode cpu.cpsr = some .usr := by
      unfold armMode
      rw [husr]
      rfl
    rw [hmode] at this
    cases e <;> cases this

theorem vector_congr {s s' : ArmCpu} (h : s'.control = s.control) (e : ArmException) : s'.vector e = s.vector e := by
  unfold ArmCpu.vector
  rw [h]

/-- The handlers of two states with the same map. -/
theorem SameMap.armException (h : SameMap hostaddr s s') {m : ArmMode} (hm : armMode s.cpu.cpsr = some m)
    {e : ArmException} {cpu' : ArmCpu} (hcpu' : s'.cpu.armException e = .ok cpu') :
    ∃ cpu, s.cpu.armException e = .ok cpu ∧ SameMap hostaddr { s with cpu } { s' with cpu := cpu' } ∧
      ArmMachine.userMode { s' with cpu := cpu' } = ArmMachine.userMode { s with cpu } ∧ cpu'.pc = cpu.pc := by
  obtain ⟨he, -⟩ := ArmCpu.armMode_of_exception hcpu'
  obtain ⟨cpu, hcpu, -⟩ := (ArmCpu.represents_architecture hm).armException he
  obtain ⟨hs, hu, hpc, -⟩ := @armException_sameMap hostaddr _ _ _ hcpu
  obtain ⟨hs', hu', hpc', -⟩ := @armException_sameMap hostaddr _ _ _ hcpu'
  exact ⟨cpu, hcpu, hs.symm.trans (h.trans hs'), hu'.trans hu.symm,
    hpc'.trans ((vector_congr h.control _).trans hpc.symm)⟩

theorem SameMap.handler (h : SameMap hostaddr s s') {m : ArmMode} (hm : armMode s.cpu.cpsr = some m)
    {e : ArmException} (hf : s.HandlerFetchesPage c hostaddr e) : s'.HandlerFetchesPage c hostaddr e := by
  intro cpu' hcpu'
  obtain ⟨cpu, hcpu, hsame, huser, hpc⟩ := h.armException hm hcpu'
  exact hsame.fetchesPage huser hpc (hf cpu hcpu)

theorem SameMap.handlerLooksUp (h : SameMap hostaddr s s') {m : ArmMode} (hm : armMode s.cpu.cpsr = some m)
    {e : ArmException} (hl : s.HandlerLooksUp c hostaddr e) : s'.HandlerLooksUp c hostaddr e := by
  intro cpu' hcpu'
  obtain ⟨cpu, hcpu, hsame, huser, hpc⟩ := h.armException hm hcpu'
  obtain ⟨hf, hh⟩ := hl cpu hcpu
  refine ⟨hsame.fetchesPage huser hpc hf, fun fsr htr => ?_⟩
  rw [hsame.translation (fun _ => huser)] at htr
  exact hsame.handler (ArmCpu.armException_enters hcpu).1 (hh fsr (hpc ▸ htr))

theorem HandlerFetchesPage.again {cpu : ArmCpu} {e : ArmException} (h : s.cpu.armException e = .ok cpu)
    (hf : s.HandlerFetchesPage c hostaddr .prefAbt) : ArmMachine.HandlerFetchesPage c hostaddr { s with cpu } .prefAbt := by
  obtain ⟨-, m, hm⟩ := ArmCpu.armMode_of_exception h
  exact (armException_sameMap h).1.handler hm hf

theorem Protected.quick {generic : ArmMachine → Except Exit ArmMachine} (h : s.Protected c hostaddr)
    (hg : ∀ s', generic s = .ok s' → s'.Protected c hostaddr ∧ Fetched hostaddr s s')
    (hok : s.quick generic = .ok s') : s'.Protected c hostaddr ∧ Fetched hostaddr s s' := by
  unfold ArmMachine.quick at hok
  split at hok
  · cases hok
    exact ⟨h.of_same ⟨rfl, rfl, rfl, rfl, rfl⟩ rfl ⟨h.wf.tables, h.wf.tc⟩ id, ⟨rfl, rfl, rfl, rfl, rfl⟩, .inl ⟨rfl, rfl⟩⟩
  · exact hg s' hok

theorem Protected.pcToPointersGeneric (n : Nat) (h : s.Protected c io.hostaddr) (hl : s.LooksUp c io.hostaddr)
    (hok : s.pcToPointersGeneric c io n = .ok s') :
    s'.Protected c io.hostaddr ∧ Fetched io.hostaddr s s' := by
  -- the page of the program counter, when it has been translated
  have hpoint : ∀ {s t s' : ArmMachine} {paddr acc sub}, s.Protected c io.hostaddr → s.FetchesPage c io.hostaddr →
      s.translateV2p c io s.cpu.pc false false = .ok (t, .ok paddr acc sub) →
      t.pointTo c io (paddr.setWidth 64) = .ok s' → s'.Protected c io.hostaddr ∧ Fetched io.hostaddr s s' := by
    intro s t s' paddr acc sub h hf hv hok
    obtain ⟨htr, ht⟩ := translateV2p_ok hv
    obtain ⟨hp, hs, hu, hcpu⟩ : t.Protected c io.hostaddr ∧ SameMap io.hostaddr s t ∧ t.userMode = s.userMode ∧
        t.cpu = s.cpu := by
      obtain rfl | rfl := ht
      · exact ⟨h.findTable, .findTable, userMode_findTable, findTable_cpu⟩
      · exact ⟨h, .refl _, rfl, rfl⟩
    obtain ⟨hp', hs', hcpu'⟩ := hp.pointTo paddr (fun _ u hu' => by
      rw [hcpu] at hu'
      exact hs.permits (fun _ => hu ▸ id) (hf paddr acc sub htr u hu')) (fun _ => rfl) hok
    refine ⟨hp', hs.trans hs', .inl ⟨by rw [hcpu', hcpu], ?_⟩⟩
    unfold userMode
    rw [hcpu', hcpu]
  -- a page that is in the tables already
  have hloaded : ∀ {s s' : ArmMachine}, s.Protected c io.hostaddr → s.pcSlot.hostLoad ≠ none →
      s.pointTo c io s.pcSlot.physAddr = .ok s' → s'.Protected c io.hostaddr ∧ Fetched io.hostaddr s s' := by
    intro s s' h hl hok
    obtain ⟨hp', hs', hcpu'⟩ := h.pointTo 0 (fun hn => absurd hn hl) (fun hn => absurd hn hl) hok
    refine ⟨hp', hs', .inl ⟨by rw [hcpu'], ?_⟩⟩
    unfold userMode
    rw [hcpu']
  induction n generalizing s s' with
  | zero => cases hok
  | succ n ih =>
    rw [ArmMachine.pcToPointersGeneric] at hok
    split at hok
    · rename_i hl
      exact hloaded h hl hok
    · obtain ⟨⟨t, r⟩, hv, hok⟩ := Lib.bind_eq_ok hok
      cases r with
      | ok paddr acc sub => exact hpoint h hl.1 hv hok
      | fault fsr =>
        have hh := hl.2 fsr (translateV2p_ok hv).1
        obtain ⟨cpu, hcpu, hok⟩ := Lib.bind_eq_ok hok
        obtain ⟨t1, hquick, hok⟩ := Lib.bind_eq_ok hok
        obtain ⟨-, ht⟩ := translateV2p_ok hv
        obtain ⟨hp, hs, htcpu⟩ : t.Protected c io.hostaddr ∧ SameMap io.hostaddr s t ∧ t.cpu = s.cpu := by
          obtain rfl | rfl := ht
          · exact ⟨h.findTable, .findTable, findTable_cpu⟩
          · exact ⟨h, .refl _, rfl⟩
        obtain ⟨-, m, hm⟩ := ArmCpu.armMode_of_exception hcpu
        have hht := hs.handler (htcpu ▸ hm) hh
        obtain ⟨hs1, hu1, hpc1, hcontrol⟩ := @armException_sameMap io.hostaddr _ _ _ hcpu
        have hp1 : ArmMachine.Protected c io.hostaddr { t with cpu } :=
          hp.of_same hs1 rfl hp.wf (fun hu => absurd hu (by rw [hu1]; decide))
        obtain ⟨hp2, hs2, hcase⟩ :=
          hp1.quick (fun _ hgen => ih hp1 ⟨hht cpu hcpu, fun _ _ => hht.again hcpu⟩ hgen) hquick
        -- in the handler of the abort, whether or not that has caused another one
        obtain ⟨hpc2, hu2⟩ : t1.cpu.pc = cpu.pc ∧ t1.userMode = false := by
          obtain ⟨hpc, hu⟩ | ⟨hpc, hu⟩ := hcase
          · exact ⟨hpc, hu.trans hu1⟩
          · exact ⟨hpc.trans ((vector_congr hcontrol _).trans hpc1.symm), hu⟩
        have hafter : ∀ s', s'.Protected c io.hostaddr ∧ Fetched io.hostaddr t1 s' →
            s'.Protected c io.hostaddr ∧ Fetched io.hostaddr s s' := by
          rintro s' ⟨hp', hs', hcase'⟩
          have hvec : cpu.pc = s.cpu.vector .prefAbt := by rw [hpc1, htcpu]
          refine ⟨hp', (hs.trans hs1).trans (hs2.trans hs'), .inr ?_⟩
          obtain ⟨hpc, hu⟩ | ⟨hpc, hu⟩ := hcase'
          · exact ⟨hpc.trans (hpc2.trans hvec), hu.trans hu2⟩
          · have hcontrol' : t1.cpu.control = s.cpu.control := ((hs.trans hs1).trans hs2).control
            exact ⟨hpc.trans (vector_congr hcontrol' _), hu⟩
        split at hok
        · rename_i hl
          exact hafter _ (hloaded hp2 hl hok)
        · obtain ⟨⟨t2, r2⟩, hv2, hok⟩ := Lib.bind_eq_ok hok
          cases r2 with
          | ok paddr acc sub =>
            exact hafter _ (hpoint hp2 (hs2.fetchesPage (hu2.trans hu1.symm) hpc2 (hht cpu hcpu)) hv2 hok)
          | fault fsr => cases hok

theorem Protected.pcToPointers (h : s.Protected c io.hostaddr) (hl : s.LooksUp c io.hostaddr)
    (hok : s.pcToPointers c io = .ok s') : s'.Protected c io.hostaddr ∧ Fetched io.hostaddr s s' :=
  h.quick (fun _ hgen => h.pcToPointersGeneric io.stack hl hgen) hok

theorem Protected.exception (h : s.Protected c io.hostaddr) {e : ArmException} (he : s.HandlerLooksUp c io.hostaddr e)
    (hok : s.exception c io e = .ok s') : s'.Protected c io.hostaddr ∧ SameMap io.hostaddr s s' := by
  obtain ⟨cpu, hcpu, hok⟩ := Lib.bind_eq_ok hok
  obtain ⟨hs1, hu1, hpc1, hcontrol⟩ := @armException_sameMap io.hostaddr _ _ _ hcpu
  have hp1 : ArmMachine.Protected c io.hostaddr { s with cpu } :=
    h.of_same hs1 rfl h.wf (fun hu => absurd hu (by rw [hu1]; decide))
  obtain ⟨hp2, hs2, -⟩ := hp1.pcToPointers (he cpu hcpu) hok
  exact ⟨hp2, hs1.trans hs2⟩

/-! ## Accesses -/

/-- Memory may have changed after an access, which the translation has not seen. -/
def before (s s' : ArmMachine) : ArmMachine := { s' with host := s.host }

theorem allowsPage_current {v : Addr} {useraccess write : Bool} {p : Addr}
    (h : Cpu.AllowsPage .arm .mode32 (s.PermitsPage c hostaddr useraccess) v p write) :
    Cpu.AllowsPage .arm .mode32 (s.PermitsPage c hostaddr false) v p write := by
  intro v' hv' hv u hu
  refine (SameMap.refl s).permits_of_user (fun hm => ?_) (h v' hv' hv u hu)
  rw [Bool.false_or] at hm
  rw [hm, Bool.or_true]

theorem Protected.accessPaddr (h : s.Protected c io.hostaddr) {a : Access} {v paddr : Word} {acc : Nat} {sub : Bool}
    {data data' : List Byte} {done : Bool} (ha : a.physical = false) (hv : a.vaddr = v.setWidth 64)
    (htr : s.translation c io.hostaddr v a.write (hasFlag a.miscFlags memoryUserAccess) = .ok (.ok paddr acc sub))
    (hstore : hasFlag a.miscFlags memoryUserAccess = true → s.UserMayStore c io.hostaddr v a.write)
    (hok : s.accessPaddr c io a (paddr.setWidth 64) (acc ||| (if sub then memoryNotFullPage else 0)) data =
      .ok (s', data', done)) :
    (before s s').Protected c io.hostaddr ∧ s'.cpu = s.cpu := by
  obtain ⟨⟨dyn, mem, d⟩, hrw, hok⟩ := Lib.bind_eq_ok hok
  cases hok
  obtain ⟨hacc, hwrite⟩ := translation_access htr
  -- what memory_rw() is told about the page
  have hfound : ∀ paddr' ok, (accessEnv io.env (paddr.setWidth 64)
      (acc ||| (if sub then memoryNotFullPage else 0))).physicalAddress a = some (paddr', ok) →
      hasFlag ok memoryNotFullPage = false → paddr' = paddr.setWidth 64 ∧ ok = acc ∧ sub = false := by
    intro paddr' ok hp hfull
    unfold Env.physicalAddress accessEnv at hp
    rw [ha] at hp
    cases hp
    cases sub with
    | true =>
      rcases hacc with rfl | rfl
      · cases hfull
      · cases hfull
    | false => exact ⟨rfl, Nat.or_zero _, rfl⟩
  have hallow : ∀ write', (write' = true → a.write = true ∨ acc = 2) → sub = false →
      Cpu.AllowsPage .arm .mode32 (s.PermitsPage c io.hostaddr (hasFlag a.miscFlags memoryUserAccess))
        (Arch.arm.pageAddr (v.setWidth 64)) (Arch.arm.pageAddr (paddr.setWidth 64)) write' := by
    intro write' hw hs
    subst hs
    exact allowsPage_of_translation htr hw
  obtain ⟨hb, hw, hm⟩ := h.backed.memoryRw h.wf (fun paddr' ok hp hfull => by
    obtain ⟨rfl, rfl, hs⟩ := hfound paddr' ok hp hfull
    rw [h.mode, hv]
    exact ⟨hacc, allowsPage_current (hallow false (fun hf => by cases hf) hs),
      fun hwr => allowsPage_current (hallow true (fun _ => hwr) hs)⟩) hrw
  have hu := h.user.memoryRw rfl h.wf (fun paddr' ok hp hfull => by
    obtain ⟨rfl, rfl, hs⟩ := hfound paddr' ok hp hfull
    rw [h.mode, hv]
    refine ⟨hacc, fun hua => ⟨?_, fun hst => ?_⟩⟩
    · have hload := hallow false (fun hf => by cases hf) hs
      rwa [hua] at hload
    · have hboth : a.write = true ∨ ok = 2 := by
        rcases hst with hst | hst
        · exact hst
        · subst hs
          rw [hua] at htr
          exact .inr (hstore hua paddr ok htr hst)
      have hst := hallow true (fun _ => hboth) hs
      rwa [hua] at hst) hrw
  exact ⟨⟨hm.trans h.mode, hw, hb, hu⟩, rfl⟩

theorem Protected.memoryRw (h : s.Protected c io.hostaddr) {a : Access} {v : Word} {data data' : List Byte} {done : Bool}
    (ha : a.physical = false) (hv : a.vaddr = v.setWidth 64) (hcache : a.cache ≠ cacheInstruction)
    (hstore : hasFlag a.miscFlags memoryUserAccess = true → s.UserMayStore c io.hostaddr v a.write)
    (habt : s.AbortLooksUp c io.hostaddr v a.write (hasFlag a.miscFlags memoryUserAccess))
    (hok : s.memoryRw c io a data = .ok (s', data', done)) : (before s s').Protected c io.hostaddr := by
  unfold ArmMachine.memoryRw at hok
  rw [ha, hv, BitVec.setWidth_setWidth_of_le v (by decide), BitVec.setWidth_eq] at hok
  obtain ⟨⟨t, r⟩, htr, hok⟩ := Lib.bind_eq_ok hok
  obtain ⟨htr, ht⟩ := translateV2p_ok htr
  obtain ⟨hp, hs, hd, hcpu⟩ : t.Protected c io.hostaddr ∧ SameMap io.hostaddr s t ∧ t.dyn = s.dyn ∧ t.cpu = s.cpu := by
    obtain rfl | rfl := ht
    · exact ⟨h.findTable, .findTable, (findTable_same s io).1, findTable_cpu⟩
    · exact ⟨h, .refl _, rfl, rfl⟩
  have hu : t.userMode = s.userMode := by
    unfold userMode
    rw [hcpu]
  have hbefore : ∀ s', before t s' = before s s' := by
    intro s'
    unfold before
    rw [hs.host]
  rw [← hbefore]
  cases r with
  | ok paddr acc sub =>
    have htr' := htr
    rw [← hs.translation (fun _ => hu)] at htr'
    refine (hp.accessPaddr ha hv htr' (fun hua paddr access htr2 hst => ?_) hok).1
    rw [hs.translation (fun _ => hu)] at htr2
    rw [hd] at hst
    exact hstore hua paddr access htr2 hst
  | fault fsr =>
    dsimp only at hok
    split at hok
    · cases hok
      exact hp
    · obtain ⟨t', hfault, hok⟩ := Lib.bind_eq_ok hok
      cases hok
      unfold ArmMachine.fault at hfault
      rw [if_neg hcache] at hfault
      generalize ht1 : ({ t with cpu := { t.cpu with far := a.vaddr.setWidth 32, fsr } } : ArmMachine) = t1 at hfault
      have hs1 : SameMap io.hostaddr t t1 := by
        subst ht1
        exact ⟨rfl, rfl, rfl, rfl, rfl⟩
      have hp1 : t1.Protected c io.hostaddr := by
        refine hp.of_same hs1 ?_ ?_ ?_
        · subst ht1
          rfl
        · subst ht1
          exact hp.wf
        · subst ht1
          exact id
      obtain ⟨cpu, hexc, -⟩ := Lib.bind_eq_ok hfault
      obtain ⟨-, m, hm⟩ := ArmCpu.armMode_of_exception hexc
      have hm' : armMode s.cpu.cpsr = some m := by
        subst ht1
        rw [← hcpu]
        exact hm
      obtain ⟨hp2, hs2⟩ := hp1.exception ((hs.trans hs1).handlerLooksUp hm' (habt fsr htr)) hfault
      have hhost : before t s' = s' := by
        unfold before
        rw [← (hs1.trans hs2).host]
      rw [hhost]
      exact hp2

/-! ## Instructions -/

def SetsRegs (s s' : ArmMachine) : Prop :=
  ∃ r pc tmpPc tmpBranch, s' = { s with cpu := { s.cpu with r, pc }, tmpPc, tmpBranch }

theorem SetsRegs.refl (s : ArmMachine) : SetsRegs s s := ⟨_, _, _, _, rfl⟩

theorem SetsRegs.trans {s'' : ArmMachine} (h : SetsRegs s s') (h' : SetsRegs s' s'') : SetsRegs s s'' := by
  obtain ⟨r, pc, x, y, rfl⟩ := h
  obtain ⟨r', pc', x', y', rfl⟩ := h'
  exact ⟨r', pc', x', y', rfl⟩

theorem SetsRegs.setReg (s : ArmMachine) (x : RegName) (value : Word) : SetsRegs s (s.setReg x value) := by
  cases x with
  | r i => exact ⟨_, _, _, _, rfl⟩
  | tmpPc => exact ⟨_, _, _, _, rfl⟩
  | tmpBranch => exact ⟨_, _, _, _, rfl⟩

theorem SetsRegs.writeBack (k : LsKind) (ic : LsCall) (s : ArmMachine) (addr offset : Word) :
    SetsRegs s (s.writeBack k ic addr offset) := by
  unfold ArmMachine.writeBack
  split
  · split
    · exact .setReg s _ _
    · exact .refl s
  · exact .setReg s _ _

theorem SetsRegs.loadRegs (k : LsKind) (ic : LsCall) (s : ArmMachine) (data : List Byte) :
    SetsRegs s (s.loadRegs c k ic data) := by
  unfold ArmMachine.loadRegs
  split
  · exact (SetsRegs.setReg s _ _).trans (.setReg _ _ _)
  · exact .setReg s _ _

theorem SetsRegs.sameMap (h : SetsRegs s s') : SameMap hostaddr s s' := by
  obtain ⟨r, pc, x, y, rfl⟩ := h
  exact ⟨rfl, rfl, rfl, rfl, rfl⟩

theorem SetsRegs.protected (h : SetsRegs s s') (hp : s.Protected c hostaddr) : s'.Protected c hostaddr := by
  have hs := @SetsRegs.sameMap hostaddr _ _ h
  obtain ⟨r, pc, x, y, rfl⟩ := h
  exact hp.of_same hs rfl hp.wf id

theorem SetsRegs.before {t : ArmMachine} (h : SetsRegs s s') : SetsRegs (before t s) (before t s') := by
  obtain ⟨r, pc, x, y, rfl⟩ := h
  exact ⟨r, pc, x, y, rfl⟩

def LsUserMayStore (c : ArmConf) (hostaddr : Addr → Option Nat) (k : LsKind) (ic : LsCall) (s : ArmMachine) : Prop :=
  k.p = false → k.w = true → s.UserMayStore c hostaddr (k.align (s.lsAddr k ic)) (!k.load)

theorem hasFlag_memoryRwFlags (k : LsKind) :
    hasFlag k.memoryRwFlags memoryUserAccess = (!k.p && k.w) ∧ k.memoryRwFlags &&& cacheFlagsMask = 0 ∧
      hasFlag k.memoryRwFlags physicalFlag = false := by
  unfold LsKind.memoryRwFlags
  cases (!k.p && k.w) with
  | true => exact ⟨rfl, rfl, rfl⟩
  | false => exact ⟨rfl, rfl, rfl⟩

theorem Protected.lsGeneral {k : LsKind} {ic : LsCall} {done : Bool} (h : s.Protected c io.hostaddr)
    (hu : LsUserMayStore c io.hostaddr k ic s)
    (habt : s.AbortLooksUp c io.hostaddr (k.align (s.lsAddr k ic)) (!k.load) (!k.p && k.w))
    (hok : s.lsGeneral c k io ic = .ok (s', done)) : (before s s').Protected c io.hostaddr := by
  obtain ⟨⟨t, data', ok⟩, hrw, hok⟩ := Lib.bind_eq_ok hok
  obtain ⟨hua, hcache, hphys⟩ := hasFlag_memoryRwFlags k
  have hsync : SetsRegs s (s.syncPc ic.lowPc) := ⟨_, _, _, _, rfl⟩
  have hs := @SetsRegs.sameMap io.hostaddr _ _ hsync
  -- the handler is that of the state whose program counter is synchronized
  have hhandler : (s.syncPc ic.lowPc).AbortLooksUp c io.hostaddr (k.align (s.lsAddr k ic)) (!k.load)
      (hasFlag k.memoryRwFlags memoryUserAccess) := by
    intro fsr htr cpu hcpu
    rw [hs.translation (fun _ => rfl), hua] at htr
    obtain ⟨-, m, hm⟩ := ArmCpu.armMode_of_exception hcpu
    exact hs.handlerLooksUp hm (habt fsr htr) cpu hcpu
  have ht : (before (s.syncPc ic.lowPc) t).Protected c io.hostaddr := by
    have hdata : (s.access k ic).physical = false := hphys
    refine Protected.memoryRw (hsync.protected h) hdata rfl ?_ (fun hflag => ?_) hhandler hrw
    · show k.memoryRwFlags &&& cacheFlagsMask ≠ cacheInstruction
      rw [hcache]
      decide
    · have hpw : k.p = false ∧ k.w = true := by
        have hflag : hasFlag k.memoryRwFlags memoryUserAccess = true := hflag
        rw [hua] at hflag
        simpa using hflag
      intro paddr access htr hst
      rw [hs.translation (fun hf => by cases hf)] at htr
      exact hu hpw.1 hpw.2 paddr access htr hst
  have hregs : SetsRegs t s' := by
    dsimp only at hok
    have hin : SetsRegs t (if (inRegister c k && data' != s.buffer c k ic) = true then
        t.setReg ic.arg2 (BitVec.ofNat 32 (Lib.value c.hostBig data')) else t) := by
      split
      · exact .setReg t _ _
      · exact .refl t
    generalize (if (inRegister c k && data' != s.buffer c k ic) = true then
      t.setReg ic.arg2 (BitVec.ofNat 32 (Lib.value c.hostBig data')) else t) = t1 at hok hin
    split at hok
    · cases hok
      exact hin
    · cases hok
      refine hin.trans (SetsRegs.trans ?_ (.writeBack k ic _ _ _))
      split
      · exact .loadRegs k ic _ data'
      · exact .refl _
  exact hregs.before.protected ht

theorem Protected.lsFast {k : LsKind} {ic : LsCall} {done : Bool} (h : s.Protected c io.hostaddr)
    (hu : LsUserMayStore c io.hostaddr k ic s)
    (habt : s.AbortLooksUp c io.hostaddr (k.align (s.lsAddr k ic)) (!k.load) (!k.p && k.w))
    (hok : s.lsFast c k io ic = .ok (s', done)) : (before s s').Protected c io.hostaddr := by
  unfold ArmMachine.lsFast at hok
  split at hok
  · exact h.lsGeneral hu habt hok
  · cases hok
    refine (SetsRegs.before (.writeBack k ic _ _ _)).protected ?_
    split
    · exact (SetsRegs.before (.setReg s _ _)).protected h
    · exact h

theorem Protected.wordAccess {addr : Word} {write : Bool} {data data' : List Byte} {done : Bool}
    (h : s.Protected c io.hostaddr) (habt : s.AbortLooksUp c io.hostaddr addr write false)
    (hok : s.memoryRw c io ⟨addr.setWidth 64, 4, write, cacheData⟩ data = .ok (s', data', done)) :
    (before s s').Protected c io.hostaddr := by
  have hphys : Access.physical ⟨addr.setWidth 64, 4, write, cacheData⟩ = false := by
    show hasFlag cacheData physicalFlag = false
    decide
  have huser : hasFlag (Access.miscFlags ⟨addr.setWidth 64, 4, write, cacheData⟩) memoryUserAccess = false := by
    show hasFlag cacheData memoryUserAccess = false
    decide
  refine h.memoryRw hphys rfl ?_ (fun hflag => ?_) (huser ▸ habt) hok
  · show cacheData &&& cacheFlagsMask ≠ cacheInstruction
    decide
  · rw [huser] at hflag
    cases hflag

theorem Protected.popWord {addr : Word} {value : Option Word} (h : s.Protected c io.hostaddr)
    (habt : s.AbortLooksUp c io.hostaddr addr false false)
    (hok : s.popWord c io addr = .ok (s', value)) : (before s s').Protected c io.hostaddr := by
  unfold ArmMachine.popWord at hok
  split at hok
  · cases hok
    exact h
  · obtain ⟨⟨t, data, ok⟩, hrw, hok⟩ := Lib.bind_eq_ok hok
    cases hok
    exact h.wordAccess habt hrw

theorem Protected.pushWord {addr value : Word} {done : Bool} (h : s.Protected c io.hostaddr)
    (habt : s.AbortLooksUp c io.hostaddr addr true false)
    (hok : s.pushWord c io addr value = .ok (s', done)) : (before s s').Protected c io.hostaddr := by
  unfold ArmMachine.pushWord at hok
  split at hok
  · cases hok
    exact h
  · obtain ⟨⟨t, data, ok⟩, hrw, hok⟩ := Lib.bind_eq_ok hok
    cases hok
    exact h.wordAccess habt hrw

/-! ## Changes of the mode and of the translation -/

theorem Protected.keeps {hostaddr' : Addr → Option Nat} (h : s.Protected c hostaddr)
    (hk : s.KeepsPages c hostaddr hostaddr' s') (hd : s'.dyn = s.dyn) : s'.Protected c hostaddr' where
  mode := hd ▸ h.mode
  wf := hd ▸ h.wf
  backed := by
    intro v hv
    rw [hd]
    obtain ⟨hl, hst⟩ := h.backed v hv
    exact ⟨fun hne => hk v false false hv ⟨hne, fun hf => by cases hf⟩ (hl hne),
      fun hne => hk v false true hv ⟨hne, fun hf => by cases hf⟩ (hst hne)⟩
  user := by
    intro v hv hbit
    rw [hd] at hbit ⊢
    obtain ⟨hl, hp, hst⟩ := h.user v hv hbit
    exact ⟨hl, hk v true false hv ⟨hl, fun _ => hbit⟩ hp, fun hne => hk v true true hv ⟨hne, fun _ => hbit⟩ (hst hne)⟩

theorem Protected.enterUser (h : s.Protected c hostaddr) (hs : SameMap hostaddr s s') (hd : s'.dyn = s.dyn)
    (hu : s'.userMode = true → s.userMode = true ∨ s.dyn.Backed c.conf (s.PermitsPage c hostaddr true)) :
    s'.Protected c hostaddr := by
  cases hm : s'.userMode with
  | false => exact h.of_same hs (by rw [hd]) (hd ▸ h.wf) (fun hf => by rw [hm] at hf; cases hf)
  | true =>
    obtain hmode | hb := hu hm
    · exact h.of_same hs (by rw [hd]) (hd ▸ h.wf) (fun _ => hmode)
    · refine ⟨hd ▸ h.mode, hd ▸ h.wf, ?_, ?_⟩
      · rw [hd]
        exact hb.mono fun v p w hp u hv => hs.permits_of_user (fun _ => rfl) (hp u hv)
      · intro v hv hbit
        rw [hd] at hbit ⊢
        obtain ⟨hl, hp, hst⟩ := h.user v hv hbit
        exact ⟨hl, hs.permitsPage (fun hf => by cases hf) hp, fun hne => hs.permitsPage (fun hf => by cases hf) (hst hne)⟩

theorem Protected.invalidate {addr : Addr} {flags : Nat} (h : s.Protected c hostaddr)
    (hok : s.invalidateTranslationCaches c addr flags = .ok s') : s'.Protected c hostaddr := by
  obtain ⟨dyn, hdyn, hok⟩ := Lib.bind_eq_ok hok
  cases hok
  obtain ⟨hb, hw, hm⟩ := @Cpu.Backed.tableStep c.conf s.dyn dyn _ h.backed h.wf (.invalidate addr flags) trivial hdyn
  have hu := @Cpu.UserBacked.tableStep c.conf s.dyn dyn _ rfl h.user h.wf (.invalidate addr flags)
    (fun _ _ _ _ hf => by cases hf) hdyn
  exact ⟨hm.trans h.mode, hw, hb, hu⟩

end ArmMachine

end Gxemul.Arm
