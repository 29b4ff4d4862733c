import Gxemul.Arm.Protection

/- Runs of an ARM CPU whose accesses the MMU protects.

   In a run, the fast functions complete only what the MMU permits at that time, as long
   as no step takes away what pages in the tables are used for. Exceptions never do. A
   return to user mode, and a write to the control register, DACR or TTB, may do so, as
   may the fetch of an instruction from a page of which only a part can be read, and an
   access that is done for user mode to a page that other modes have stored to. -/
namespace Gxemul.Arm
open Lib (ByteMem)

structure ArmSystem where
  machine : ArmMachine
  cp15 : Cp15
  hostaddr : Addr → Option Nat

structure Around where
  env : Env
  dev : DataEnv
  stack : Nat

/-- A step of an ARM CPU, or a change of memory by something else. A load or store multiple is a number of
words, and then a `bank` operation. -/
inductive ArmOp where
  | loadStore (k : LsKind) (ic : LsCall)
  | popWord (addr : Word)
  | pushWord (addr value : Word)
  | fetch
  | exception (e : ArmException)
  | bank (op : ArmCpu.BankOp)
  | coproc (m : Mcr)
  | memory (host : ByteMem) (hostaddr : Addr → Option Nat)

def Mcr.setsTranslation (m : Mcr) : Bool := !m.lBit && (m.crn == 1 && m.opcode2 != 1 || m.crn == 2 || m.crn == 3)

namespace ArmMachine
variable {c : ArmConf} {hostaddr : Addr → Option Nat} {s s' : ArmMachine}

theorem writeControl_dyn {value : Word} (h : s.writeControl c value = .ok s') : s'.dyn = s.dyn := by
  unfold writeControl at h
  dsimp only at h
  generalize (if c.big = true then s.cpu.control &&& ~~~ armControlBig ||| armControlBig
    else s.cpu.control &&& ~~~ armControlBig) = old at h
  split at h
  · cases h
  · cases h
    rfl

/-- The registers that the translation depends on are those of the guard, and the TLB functions only take
pages out. -/
theorem Protected.armCoproc15 {x cp15 : Cp15} {m : Mcr} (h : s.Protected c hostaddr)
    (hm : m.setsTranslation = true → s.KeepsPages c hostaddr hostaddr s')
    (hok : s.armCoproc15 c x m = .ok (s', cp15)) : s'.Protected c hostaddr := by
  have hmap : ∀ {y : Except Exit ArmMachine}, y.map (·, x) = .ok (s', cp15) → y = .ok s' := by
    intro y hy
    cases y with
    | error e => cases hy
    | ok t =>
      cases hy
      rfl
  have hread : ∀ value, (s.setReg (.r m.rd) value).Protected c hostaddr :=
    fun value => (SetsRegs.setReg s _ value).protected h
  unfold ArmMachine.armCoproc15 at hok
  dsimp only at hok
  -- a register that the translation does not depend on
  have hother : ∀ far fsr, ArmMachine.Protected c hostaddr { s with cpu := { s.cpu with far, fsr } } :=
    fun _ _ => h.of_same ⟨rfl, rfl, rfl, rfl, rfl⟩ rfl h.wf id
  split at hok
  · cases hok
  split at hok
  · split at hok
    · cases hok
      exact h
    · split at hok
      · cases hok
        exact hread _
      · cases hok
        exact hread _
      · cases hok
        exact h
  · rename_i hcrn
    split at hok
    · split at hok
      · cases hok
        exact hread _
      · cases hok
        exact hread _
      · cases hok
        exact h
    · rename_i hl
      split at hok
      · cases hok
        exact h
      · rename_i hop
        exact h.keeps (hm (by simp [Mcr.setsTranslation, hl, hcrn, hop])) (writeControl_dyn (hmap hok))
  · rename_i hcrn
    split at hok
    · cases hok
      exact hread _
    · rename_i hl
      cases hok
      exact h.keeps (hm (by simp [Mcr.setsTranslation, hl, hcrn])) rfl
  · rename_i hcrn
    split at hok
    · cases hok
      exact hread _
    · rename_i hl
      cases hok
      exact h.keeps (hm (by simp [Mcr.setsTranslation, hl, hcrn])) rfl
  · split at hok
    · cases hok
      exact hread _
    · cases hok
      exact hother _ _
  · split at hok
    · cases hok
      exact hread _
    · cases hok
      exact hother _ _
  · split at hok
    · cases hok
      exact h
    · split at hok
      · exact h.invalidate (hmap hok)
      · exact h.invalidate (hmap hok)
  · split at hok
    · split at hok
      · cases hok
      · cases hok
        exact hread _
    · split at hok
      · cases hok
      · cases hok
        exact h
  · split at hok
    · split at hok
      · cases hok
        exact hread _
      · cases hok
        exact h
    · cases hok
      exact h
  · cases hok
    exact h

end ArmMachine

namespace ArmSystem
variable (c : ArmConf) (x : ArmSystem) (a : Around)

def io : ArmIo := ⟨a.env, a.dev, x.hostaddr, a.stack⟩

def step : Around × ArmOp → Except Exit ArmSystem
  | (a, .loadStore k ic) => do
    let r ← x.machine.lsFast c k (x.io a) ic
    return { x with machine := r.1 }
  | (a, .popWord addr) => do
    let r ← x.machine.popWord c (x.io a) addr
    return { x with machine := r.1 }
  | (a, .pushWord addr value) => do
    let r ← x.machine.pushWord c (x.io a) addr value
    return { x with machine := r.1 }
  | (a, .fetch) => do
    let machine ← x.machine.pcToPointers c (x.io a)
    return { x with machine }
  | (a, .exception e) => do
    let machine ← x.machine.exception c (x.io a) e
    return { x with machine }
  | (_, .bank op) => do
    let r ← ArmCpu.bankStep (x.machine.cpu, []) op
    return { x with machine := { x.machine with cpu := r.1 } }
  | (_, .coproc m) => do
    let r ← x.machine.armCoproc15 c x.cp15 m
    return { x with machine := r.1, cp15 := r.2 }
  | (_, .memory host hostaddr) => .ok { x with machine := { x.machine with host }, hostaddr }

/-- An access leaves the translation of the pages in the tables as it is: it does not change their descriptors. -/
def KeepsTables (o : Around × ArmOp) : Prop :=
  ∀ x', x.step c o = .ok x' →
    (x.machine.before x'.machine).KeepsPages c x.hostaddr x.hostaddr x'.machine

/-- A step takes away nothing that pages in the tables are used for, and puts only pages in the tables that
can be used as a whole. -/
def Guard (x : ArmSystem) : Around × ArmOp → Prop
  | (a, .loadStore k ic) =>
    x.KeepsTables c (a, .loadStore k ic) ∧ ArmMachine.LsUserMayStore c x.hostaddr k ic x.machine ∧
      x.machine.AbortLooksUp c x.hostaddr (k.align (x.machine.lsAddr k ic)) (!k.load) (!k.p && k.w)
  | (a, .popWord addr) => x.KeepsTables c (a, .popWord addr) ∧ x.machine.AbortLooksUp c x.hostaddr addr false false
  | (a, .pushWord addr value) =>
    x.KeepsTables c (a, .pushWord addr value) ∧ x.machine.AbortLooksUp c x.hostaddr addr true false
  | (_, .fetch) => x.machine.LooksUp c x.hostaddr
  | (_, .exception e) => x.machine.HandlerLooksUp c x.hostaddr e
  | (_, .bank op) => ∀ cpu log, ArmCpu.bankStep (x.machine.cpu, []) op = .ok (cpu, log) →
    ArmMachine.userMode { x.machine with cpu } = true → x.machine.userMode = true ∨
      x.machine.dyn.Backed c.conf (x.machine.PermitsPage c x.hostaddr true)
  | (_, .coproc m) => m.setsTranslation = true → ∀ s' cp15, x.machine.armCoproc15 c x.cp15 m = .ok (s', cp15) →
    x.machine.KeepsPages c x.hostaddr x.hostaddr s'
  | (_, .memory host hostaddr) => x.machine.KeepsPages c x.hostaddr hostaddr { x.machine with host }

/-- The fast functions complete only what the MMU permits: in the mode that the access is made for, and in
the physical page that the tables have for the address. -/
def Respected : Prop :=
  ∀ k ic page, x.machine.fastPage k ic = some page →
    x.machine.Permits c x.hostaddr (!k.p && k.w) (k.align (x.machine.lsAddr k ic)) (!k.l)
      (x.machine.dyn.tables.slotOf .arm ((x.machine.lsAddr k ic).setWidth 64)).physAddr

variable {c x}

def Protected (c : ArmConf) (x : ArmSystem) : Prop := x.machine.Protected c x.hostaddr

theorem step_protected {o : Around × ArmOp} {x' : ArmSystem} (h : Protected c x) (hg : x.Guard c o)
    (hok : x.step c o = .ok x') : Protected c x' := by
  obtain ⟨a, o⟩ := o
  cases o with
  | loadStore k ic =>
    obtain ⟨hk, hu, habt⟩ := hg
    have hkeep := hk x' hok
    obtain ⟨r, hr, hok⟩ := Lib.bind_eq_ok hok
    cases hok
    have hp : (x.machine.before r.1).Protected c x.hostaddr :=
      @ArmMachine.Protected.lsFast c x.machine r.1 (x.io a) k ic r.2 h hu habt hr
    exact hp.keeps hkeep rfl
  | popWord addr =>
    obtain ⟨hk, habt⟩ := hg
    have hkeep := hk x' hok
    obtain ⟨r, hr, hok⟩ := Lib.bind_eq_ok hok
    cases hok
    have hp : (x.machine.before r.1).Protected c x.hostaddr :=
      @ArmMachine.Protected.popWord c x.machine r.1 (x.io a) addr r.2 h habt hr
    exact hp.keeps hkeep rfl
  | pushWord addr value =>
    obtain ⟨hk, habt⟩ := hg
    have hkeep := hk x' hok
    obtain ⟨r, hr, hok⟩ := Lib.bind_eq_ok hok
    cases hok
    have hp : (x.machine.before r.1).Protected c x.hostaddr :=
      @ArmMachine.Protected.pushWord c x.machine r.1 (x.io a) addr value r.2 h habt hr
    exact hp.keeps hkeep rfl
  | fetch =>
    obtain ⟨r, hr, hok⟩ := Lib.bind_eq_ok hok
    cases hok
    exact (@ArmMachine.Protected.pcToPointers c x.machine r (x.io a) h hg hr).1
  | exception e =>
    obtain ⟨r, hr, hok⟩ := Lib.bind_eq_ok hok
    cases hok
    exact (@ArmMachine.Protected.exception c x.machine r (x.io a) h e hg hr).1
  | bank op =>
    obtain ⟨⟨cpu, log⟩, hr, hok⟩ := Lib.bind_eq_ok hok
    cases hok
    have hsystem := ArmCpu.bankStep_system hr
    have hs : ArmMachine.SameMap x.hostaddr x.machine { x.machine with cpu } := by
      refine ⟨rfl, congrArg Prod.fst hsystem, congrArg (fun y => y.2.2.1) hsystem, ?_, rfl⟩
      have httb : cpu.ttb = x.machine.cpu.ttb := congrArg (fun y => y.2.1) hsystem
      unfold ArmMachine.table
      rw [httb]
    exact ArmMachine.Protected.enterUser h hs rfl (hg cpu log hr)
  | coproc m =>
    obtain ⟨⟨s', cp15⟩, hr, hok⟩ := Lib.bind_eq_ok hok
    cases hok
    have hkeep : m.setsTranslation = true → x.machine.KeepsPages c x.hostaddr x.hostaddr s' :=
      fun hm => hg hm s' cp15 hr
    exact ArmMachine.Protected.armCoproc15 h hkeep hr
  | memory host hostaddr =>
    cases hok
    exact ArmMachine.Protected.keeps h hg rfl

end ArmSystem

namespace ArmMachine
variable {c : ArmConf} {hostaddr : Addr → Option Nat} {s : ArmMachine}

theorem align_page (k : LsKind) (addr : Word) :
    Arch.arm.pageAddr ((k.align addr).setWidth 64) = Arch.arm.pageAddr (addr.setWidth 64) := by
  rw [pageAddr_eq_iff]
  have hmask : ~~~ BitVec.ofNat 32 (k.datalen - 1) &&& ~~~ 0xfff#32 = ~~~ 0xfff#32 := by
    unfold LsKind.datalen
    split
    · decide
    · split
      · decide
      · split <;> decide
  unfold LsKind.align
  rw [BitVec.and_assoc, hmask]

theorem slotOf_pageAddr (v : Addr) : s.dyn.tables.slotOf .arm (Arch.arm.pageAddr v) = s.dyn.tables.slotOf .arm v := by
  rw [Tables.slotOf_eq, Tables.slotOf_eq, Arch.addrToPagenr_pageAddr]

theorem keepsPages_mmuOff {s' : ArmMachine} {hostaddr' : Addr → Option Nat} (h : s.mmuOn = false)
    (h' : s'.mmuOn = false) : s.KeepsPages c hostaddr hostaddr' s' := by
  intro v useraccess write _ _ hp u hu
  obtain ⟨paddr, acc, sub, htr, hpage⟩ := hp u hu
  refine ⟨paddr, acc, sub, ?_, hpage⟩
  unfold translation at htr ⊢
  rw [h']
  rwa [h] at htr

theorem isUserpage_eq (hm : s.dyn.tables.mode = .mode32) (addr : Word) :
    s.isUserpage addr = (s.dyn.tables.flat .arm).isUserpage
      (Arch.arm.addrToPagenr s.dyn.tables.mode (Arch.arm.pageAddr (addr.setWidth 64))) := by
  have hk : Arch.arm.addrToPagenr .mode32 (Arch.arm.pageAddr (addr.setWidth 64)) = (addr >>> 12).toNat := by
    rw [Arch.addrToPagenr_pageAddr]
    show (Mode.mode32.trunc (addr.setWidth 64)).toNat >>> 12 = _
    rw [trunc_setWidth, BitVec.toNat_setWidth_of_le (by decide), BitVec.toNat_ushiftRight]
  unfold isUserpage
  cases ht : s.dyn.tables with
  | vph32 t =>
    show t.isUserpage _ = t.isUserpage (Arch.arm.addrToPagenr .mode32 _)
    rw [hk]
  | vph64 t =>
    rw [ht] at hm
    cases hm

theorem Protected.permits (h : s.Protected c hostaddr) {addr u : Word} {useraccess write : Bool}
    (hu : Arch.arm.pageAddr (u.setWidth 64) = Arch.arm.pageAddr (addr.setWidth 64))
    (huser : useraccess = true → s.isUserpage addr = true)
    (hslot : (if write then (s.dyn.tables.slotOf .arm (addr.setWidth 64)).hostStore
      else (s.dyn.tables.slotOf .arm (addr.setWidth 64)).hostLoad) ≠ none) :
    s.Permits c hostaddr useraccess u write (s.dyn.tables.slotOf .arm (addr.setWidth 64)).physAddr := by
  have hal := Arch.arm.aligned_pageAddr (addr.setWidth 64)
  have hv : Arch.arm.pageAddr (u.setWidth 64) = Mode.mode32.trunc (Arch.arm.pageAddr (addr.setWidth 64)) := by
    rw [hu, trunc_pageAddr]
  rw [← slotOf_pageAddr (addr.setWidth 64)] at hslot ⊢
  cases useraccess with
  | true =>
    obtain ⟨-, hl, hst⟩ := h.user _ hal (by
      rw [← huser rfl, isUserpage_eq h.mode]
      rfl)
    cases write with
    | true => exact hst hslot u hv
    | false => exact hl u hv
  | false =>
    obtain ⟨hl, hst⟩ := h.backed _ hal
    cases write with
    | true => exact hst hslot u hv
    | false => exact hl hslot u hv

end ArmMachine

namespace ArmSystem
variable {c : ArmConf} {x : ArmSystem}

theorem Protected.respected (h : Protected c x) : x.Respected c := by
  intro k ic page hpage
  unfold ArmMachine.fastPage at hpage
  split at hpage
  · cases hpage
  · split at hpage
    · cases hpage
    · rename_i hnot
      refine ArmMachine.Protected.permits h (ArmMachine.align_page k _) (fun hu => ?_) ?_
      · simpa [hu] using hnot
      · cases hl : k.l with
        | true =>
          rw [if_pos hl] at hpage
          exact fun hn => absurd (hpage.symm.trans hn) (by simp)
        | false =>
          rw [if_neg (by simp [hl])] at hpage
          exact fun hn => absurd (hpage.symm.trans hn) (by simp)

/-- In every run from empty tables the fast functions complete only what the MMU permits, if no step takes
away what the pages in the tables are used for. -/
theorem reaches_respected {n : Nat} {tc : Tc} {ops : List (Around × ArmOp)} (hstart : x.machine.dyn.tables = Tables.init .mode32 n)
    (htc : x.machine.dyn.tc = tc.reset) (hg : Lib.Along (step c) (Guard c) ops x) :
    Lib.Reaches (step c) (Respected c) ops x := by
  have h0 : Protected c x := by
    have hb := @Cpu.Backed.start c.conf (x.machine.PermitsPage c x.hostaddr false) .mode32 n tc.reset
    have hu := @Cpu.UserBacked.start c.conf (x.machine.PermitsPage c x.hostaddr true) .mode32 n tc.reset
    refine ⟨by rw [hstart]; exact Tables.mode_init _ _, ⟨?_, ?_⟩, hb.of_tables hstart, hu.of_tables hstart⟩
    · rw [hstart]
      exact Tables.Good.init rfl n
    · rw [htc]
      exact Tc.WF.of_reset tc
  have hstep : ∀ x o x', True → Protected c x → Guard c x o → step c x o = .ok x' → Protected c x' :=
    fun _ _ _ _ hp hg hs => step_protected hp hg hs
  exact (Lib.reaches_of_along (fun _ => True) hstep (fun _ _ => trivial) h0 hg).mono fun _ => Protected.respected

def ldrKind : LsKind := ⟨true, false, false, false, false, true, true, false, Eq.refl true⟩

def ldrCall : LsCall := ⟨.r 1, 0, .r 0, 0⟩

/-- Whether the MMU is on, with a section at address 0 that only privileged modes may access. -/
def sectionSystem (mmuOn : Bool) : ArmSystem where
  machine :=
    { cpu := { ArmCpu.new false with dacr := 1 }
      dyn := Cpu.start .mode32 0 Tc.init.reset
      mem := Memory.init
      mmuOn
      translationTable := none
      lastTtb := 0
      tmpPc := 0
      tmpBranch := 0
      host := fun p => if p = 0 then 2 else if p = 1 then 4 else 0 }
  cp15 := ⟨0, 0, 0, 0, 0⟩
  hostaddr page := some page.toNat

def quietAround : Around :=
  ⟨Env.r4000 0, ⟨fun _ _ _ _ host data => (host, data), fun _ _ _ host data => (host, data)⟩, 16⟩

def littleConf : ArmConf := ⟨65536, false, false, false⟩

/-- A load with the MMU off puts its page in the tables. -/
theorem reaches_respected_section :
    Lib.Reaches (step littleConf) (Respected littleConf) [(quietAround, .loadStore ldrKind ldrCall)] (sectionSystem false) ∧
    ∃ x', (sectionSystem false).step littleConf (quietAround, .loadStore ldrKind ldrCall) = .ok x' ∧
      x'.machine.fastPage ldrKind ldrCall = some 0 := by
  obtain ⟨x', hx', hread⟩ := Lib.eval_eq_ok
    ((sectionSystem false).step littleConf (quietAround, .loadStore ldrKind ldrCall))
    (fun x' => (x'.machine.fastPage ldrKind ldrCall, x'.machine.mmuOn)) (some 0, false) (by decide +kernel)
  obtain ⟨hpage, hmmu⟩ := Prod.mk.inj hread
  have hoff : ∀ v write useraccess, (sectionSystem false).machine.translation littleConf (sectionSystem false).hostaddr v
      write useraccess = .ok (.ok v 2 false) := fun _ _ _ => rfl
  have hkeep : (sectionSystem false).KeepsTables littleConf (quietAround, .loadStore ldrKind ldrCall) := by
    intro x'' hx''
    obtain rfl := Except.ok.inj (hx'.symm.trans hx'')
    exact ArmMachine.keepsPages_mmuOff hmmu hmmu
  have hstore : ArmMachine.LsUserMayStore littleConf (sectionSystem false).hostaddr ldrKind ldrCall
      (sectionSystem false).machine := fun hp _ => absurd hp (by decide)
  have habt : ∀ v write useraccess, (sectionSystem false).machine.AbortLooksUp littleConf (sectionSystem false).hostaddr v
      write useraccess := by
    intro v write useraccess fsr htr
    rw [hoff] at htr
    cases htr
  exact ⟨@reaches_respected littleConf (sectionSystem false) 0 Tc.init _ rfl rfl
    ⟨⟨hkeep, hstore, habt _ _ _⟩, fun _ _ => trivial⟩, x', hx', hpage⟩

/-- A section that only privileged modes may access is loaded from, and then user mode is entered. User mode
can now load from it. -/
theorem not_respected_section : ∃ x',
    Lib.runOps (step littleConf) [(quietAround, .loadStore ldrKind ldrCall), (quietAround, .bank (.msrImm 1 0x10#32))]
      (sectionSystem true) = .ok x' ∧ x'.machine.userMode = true ∧ ¬ x'.Respected littleConf := by
  obtain ⟨x', hx', hread⟩ := Lib.eval_eq_ok
    (Lib.runOps (step littleConf) [(quietAround, .loadStore ldrKind ldrCall), (quietAround, .bank (.msrImm 1 0x10#32))]
      (sectionSystem true))
    (fun x' => (x'.machine.fastPage ldrKind ldrCall, x'.machine.userMode,
      (x'.machine.translation littleConf x'.hostaddr (ldrKind.align (x'.machine.lsAddr ldrKind ldrCall)) false
        false).toOption))
    (some 0, true, some (.fault faultPermS)) (by decide +kernel)
  obtain ⟨hpage, hread⟩ := Prod.mk.inj hread
  obtain ⟨huser, htr⟩ := Prod.mk.inj hread
  refine ⟨x', hx', huser, fun h => ?_⟩
  obtain ⟨paddr, acc, sub, hok, -⟩ := h ldrKind ldrCall 0 hpage
  have hok : x'.machine.translation littleConf x'.hostaddr (ldrKind.align (x'.machine.lsAddr ldrKind ldrCall)) false
      false = .ok (.ok paddr acc sub) := hok
  rw [hok] at htr
  cases htr

end ArmSystem

end Gxemul.Arm
