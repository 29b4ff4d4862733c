import Gxemul.Sh.Mmu

/- Exceptions on SuperH (`src/cpus/cpu_sh.c`).

   sh_exception() ends with a call of sh_pc_to_pointers(), which is not part of this
   module: when the page of the handler cannot be read, it is a further exception. -/
namespace Gxemul.Sh

def notDelayed : Nat := 0
def toBeDelayed : Nat := 2
def exceptionInDelaySlot : Nat := 8

/-- What instructions do with the registers: they read and write them, and have two
functions for the status registers. -/
structure RegFile (σ : Type) where
  read : σ → RegName → Word
  write : σ → RegName → Word → σ
  writeSr : σ → Word → σ
  writeFpscr : σ → Word → σ

/-- `struct sh_cpu`. -/
def shRegFile : RegFile Regs where
  read s := s
  write := Regs.set
  writeSr := Regs.shUpdateSr
  writeFpscr := Regs.shUpdateFpscr

/-- A CPU: its registers, and what sh_exception() works on. -/
structure ShCpu (σ : Type) where
  regs : σ
  pc : Addr
  delaySlot : Nat
  isHalted : Bool
  mmu : Mmu
  tra : Word
  expevt : Word
  intevt : Word

namespace ShCpu
variable {σ : Type} (f : RegFile σ) (s : ShCpu σ)

def read (x : RegName) : Word := f.read s.regs x

/-- `reg(x) = value`. -/
def write (x : RegName) (value : Word) : ShCpu σ := { s with regs := f.write s.regs x value }

def updateSr (newSr : Word) : ShCpu σ := { s with regs := f.writeSr s.regs newSr }

def updateFpscr (newFpscr : Word) : ShCpu σ := { s with regs := f.writeFpscr s.regs newFpscr }

def setPc (pc : Addr) : ShCpu σ := { s with pc }

def synchPc (lowPc : Nat) : ShCpu σ :=
  s.setPc ((s.pc &&& ~~~ 0xffe#64) + (BitVec.ofNat 64 lowPc <<< Arch.sh.instrAlignmentShift))

/-- "let the instruction following the sleep instruction be the one where execution resumes". -/
def wake : ShCpu σ := if s.isHalted then { s with isHalted := false, pc := s.pc + 2#64 } else s

def leaveSlot : ShCpu σ :=
  if s.delaySlot ≠ notDelayed then { s with delaySlot := exceptionInDelaySlot, pc := s.pc - 2#64 } else s

/-- "Stuff common to all exceptions". -/
def saveState : ShCpu σ :=
  let s := s.write f .spc (s.pc.setWidth 32)
  let s := s.write f .ssr (s.read f .sr)
  s.write f .sgr (s.read f (.r 15#4))

def noteAddress (vaddr : Word) : ShCpu σ :=
  { s with mmu := { s.mmu with
      tea := vaddr
      pteh := (s.mmu.pteh &&& ~~~ sh4PtehVpnMask) ||| (vaddr &&& sh4PtehVpnMask) } }

/-- "Specific cases". `none` is an interrupt. -/
def specificCases (vbr : Word) (expevt : Option Word) (vaddr : Word) : Except Exit (ShCpu σ) :=
  match expevt with
  | none => .ok (s.setPc ((vbr + 0x600#32).setWidth 64))
  | some expevt =>
    if expevt = expevtResetPower ∨ expevt = expevtResetManual then
      let s := (s.setPc 0xa0000000#64).write f .vbr 0#32
      .ok (s.updateSr f ((s.read f .sr ||| shSrImask) &&& ~~~ shSrFd))
    else if expevt = expevtTlbMissLd ∨ expevt = expevtTlbMissSt then
      .ok ((s.setPc ((vbr + 0x400#32).setWidth 64)).noteAddress vaddr)
    else if expevt = expevtTlbProtLd ∨ expevt = expevtTlbProtSt ∨ expevt = expevtTlbMod then .ok (s.noteAddress vaddr)
    else if expevt = expevtTrapa then .ok (s.write f .spc (s.read f .spc + 2#32))
    else if expevt = expevtResInst then .error .reservedInstruction
    else if expevt = expevtFpuDisable then .ok s
    else .error .unimplementedShException

def shException (expevt intevt vaddr : Word) : Except Exit (ShCpu σ) :=
  let vbr := s.read f .vbr
  let expevt := if anyBit (s.read f .sr) shSrBl then expevtResetPower else expevt
  let interrupt := (0#32).slt intevt
  let s := s.wake.leaveSlot.saveState f
  let s := if interrupt then { s with intevt } else { s with expevt }
  let s := s.updateSr f (s.read f .sr ||| shSrMd ||| shSrRb ||| shSrBl)
  let s := s.setPc ((vbr + 0x100#32).setWidth 64)
  s.specificCases f vbr (if interrupt then none else some expevt) vaddr

variable {s}

@[simp] theorem read_setPc (pc : Addr) (x : RegName) : (s.setPc pc).read f x = s.read f x := rfl

@[simp] theorem read_synchPc (lowPc : Nat) (x : RegName) : (s.synchPc lowPc).read f x = s.read f x := rfl

@[simp] theorem read_noteAddress (vaddr : Word) (x : RegName) : (s.noteAddress vaddr).read f x = s.read f x := rfl

end ShCpu

end Gxemul.Sh

/- memory_rw() and pc_to_pointers() on a SuperH CPU: with sh_translate_v2p(), and with
   the exceptions that a failed translation causes.

   Registers are only written by sh_exception() on the way. `Raised` says so. -/
namespace Gxemul.Sh
open Lib (Byte ByteMem)

/-- `dyntrans_cache_size`, and the byte orders of the guest and of the host. -/
structure ShConf where
  cacheSize : Nat
  big : Bool
  hostBig : Bool

def ShConf.conf (c : ShConf) : Conf := ⟨.sh, 0xffffffff#64, c.cacheSize⟩

/-- What an access is given by the rest of the emulator, and how many calls of
pc_to_pointers() fit on the host's stack. -/
structure ShIo where
  env : Env
  dev : DataEnv
  hostaddr : Addr → Option Nat
  stack : Nat

structure ShMachine where
  cpu : ShCpu Regs
  dyn : Cpu
  mem : Memory
  host : ByteMem

namespace ShMachine
variable (c : ShConf) (io : ShIo) (s : ShMachine)

def reg (x : RegName) : Word := s.cpu.regs x

def setReg (x : RegName) (value : Word) : ShMachine := { s with cpu := s.cpu.write shRegFile x value }

def synchPc (lowPc : Nat) : ShMachine := { s with cpu := s.cpu.synchPc lowPc }

/-- `cpu->translate_v2p()`, without the exception. -/
def translateV2p (f : V2pFlags) (vaddr : Addr) : Except Exit (ShMachine × V2pResult) := do
  let (mmu, r) ← s.cpu.mmu.shTranslateV2p (s.reg .sr) f vaddr
  return ({ s with cpu := { s.cpu with mmu } }, r)

/-! ## pc_to_pointers() -/

def cachedPc : Addr := (s.cpu.pc.setWidth 32).setWidth 64

/-- pc_to_pointers_generic() from where the physical address is known. -/
def pointTo (physaddr : Addr) : Except Exit ShMachine := do
  let dyn ← s.dyn.pointTo c.conf io.hostaddr s.cachedPc (s.dyn.tables.l3Of .sh s.cachedPc) physaddr
  return { s with dyn }

def pcSlot : Slot := s.dyn.tables.slotOf .sh s.cachedPc

/-- The first part of `sh_pc_to_pointers()`. -/
def quick (generic : ShMachine → Except Exit ShMachine) : Except Exit ShMachine :=
  match s.pcSlot.physPage with
  | some ppp => .ok { s with dyn := { s.dyn with curIcPage := ppp, nextIc := Arch.sh.pcToIcEntry s.cachedPc } }
  | none => generic s

def lookupHandler : Except Exit ShMachine :=
  if s.pcSlot.hostLoad ≠ none then s.pointTo c io s.pcSlot.physAddr
  else do
    let (s, r) ← s.translateV2p ⟨false, false, true⟩ s.cachedPc
    match r with
    | .returned _ paddr => s.pointTo c io (paddr.setWidth 64)
    | .exception _ => throw .exceptionHandlerUnmapped

/-- `sh_pc_to_pointers_generic()`. An exception looks its handler up, and then the page of
the handler is looked up here again. -/
def pcToPointersGeneric : Nat → ShMachine → Except Exit ShMachine
  | 0, _ => .error .stackOverflow
  | n + 1, s =>
    if s.pcSlot.hostLoad ≠ none then s.pointTo c io s.pcSlot.physAddr
    else do
      let vaddr := s.cachedPc
      let (s, r) ← s.translateV2p ⟨false, false, true⟩ vaddr
      match r with
      | .returned _ paddr => s.pointTo c io (paddr.setWidth 64)
      | .exception expevt =>
        let cpu ← s.cpu.shException shRegFile expevt 0#32 (vaddr.setWidth 32)
        let s ← ShMachine.quick { s with cpu } (pcToPointersGeneric n)
        s.lookupHandler c io

def pcToPointers : Except Exit ShMachine := s.quick (pcToPointersGeneric c io io.stack)

/-- `sh_exception()`, to its end. -/
def exception (expevt vaddr : Word) : Except Exit ShMachine := do
  let cpu ← s.cpu.shException shRegFile expevt 0#32 vaddr
  ShMachine.pcToPointers c io { s with cpu }

/-! ## memory_rw() -/

/-- The part of the environment of memory_rw() that the CPU decides. -/
def accessEnv (env : Env) (paddr : Addr) (ok : Nat) : Env :=
  { env with
    translateV2p := some (paddr, ok)
    memMips := false
    mmu3k := false
    isolCaches := false }

/-- memory_rw() from where the physical address is known. -/
def accessPaddr (a : Access) (paddr : Addr) (ok : Nat) (data : List Byte) :
    Except Exit (ShMachine × List Byte × Bool) := do
  let env := accessEnv io.env paddr ok
  let (dyn, mem, done) ← s.dyn.memoryRw c.conf env a s.mem
  let copied := Cpu.transfer c.conf env io.dev a s.mem s.host data
  return ({ s with dyn, mem, host := copied.1 }, copied.2, done)

def memoryRw (a : Access) (data : List Byte) : Except Exit (ShMachine × List Byte × Bool) :=
  if a.physical then s.accessPaddr c io a a.vaddr 2 data
  else do
    let (s, r) ← s.translateV2p ⟨a.write, a.noExceptions, a.cache == cacheInstruction⟩ a.vaddr
    match r with
    | .returned ok paddr => s.accessPaddr c io a (paddr.setWidth 64) ok data
    | .exception expevt =>
      let s ← s.exception c io expevt (a.vaddr.setWidth 32)
      return (s, data, false)

end ShMachine

/-! ## Registers -/

/-- A CPU that exceptions lead to. Between them no register is written. -/
inductive Raised : ShCpu Regs → ShCpu Regs → Prop where
  | same {s s' : ShCpu Regs} (h : s'.regs = s.regs) : Raised s s'
  | exception {s t u s' : ShCpu Regs} {expevt vaddr : Word} (h : t.regs = s.regs)
      (hx : t.shException shRegFile expevt 0#32 vaddr = .ok u) (hr : Raised u s') : Raised s s'

theorem Raised.of_regs {s t s' : ShCpu Regs} (h : Raised t s') (ht : t.regs = s.regs) : Raised s s' := by
  cases h with
  | same h => exact .same (h.trans ht)
  | exception h hx hr => exact .exception (h.trans ht) hx hr

theorem Raised.trans {s t u : ShCpu Regs} (h : Raised s t) (h' : Raised t u) : Raised s u := by
  induction h with
  | same h => exact h'.of_regs h
  | exception h hx _ ih => exact .exception h hx (ih h')

/-! What exceptions leave in the registers. -/

namespace Regs
variable {r r' : Regs}

/-- The registers that sh_exception() writes. -/
def exceptionRegs : List RegName := [.sr, .ssr, .spc, .sgr, .vbr]

/-- The registers are those of `r`, but for those that exceptions write. An exception selects the other bank. -/
def Unchanged (r r' : Regs) : Prop :=
  ∃ swapped : Bool, ∀ x, x ∉ exceptionRegs → r' x = (if swapped then r.swapBanks else r) x

theorem swapBanks_swapBanks (r : Regs) : r.swapBanks.swapBanks = r := by
  funext x
  cases x with
  | r i =>
    by_cases hi : i < 8#4
    · have hback : (i.setWidth 3).setWidth 4 = i := by
        revert i
        decide
      simp [swapBanks, hi, hback]
    · simp [swapBanks, hi]
  | rBank i =>
    have hi : i.setWidth 4 < 8#4 := by
      revert i
      decide
    have hback : (i.setWidth 4).setWidth 3 = i := by
      revert i
      decide
    simp [swapBanks, hi, hback]
  | _ => rfl

theorem swapBanks_congr (h : ∀ x, x ∉ exceptionRegs → r' x = r x) {x : RegName} (hx : x ∉ exceptionRegs) :
    r'.swapBanks x = r.swapBanks x := by
  cases x with
  | r i =>
    unfold swapBanks
    dsimp only
    split
    · exact h _ (by simp [exceptionRegs])
    · exact h _ hx
  | rBank i => exact h _ (by simp [exceptionRegs])
  | _ => exact h _ hx

theorem Unchanged.of_eq (h : ∀ x, x ∉ exceptionRegs → r' x = r x) : Unchanged r r' := ⟨false, h⟩

theorem Unchanged.trans {r'' : Regs} (h : Unchanged r r') (h' : Unchanged r' r'') : Unchanged r r'' := by
  obtain ⟨b, h⟩ := h
  obtain ⟨b', h'⟩ := h'
  refine ⟨b ^^ b', fun x hx => ?_⟩
  rw [h' x hx]
  cases b' with
  | false => simpa using h x hx
  | true =>
    have hswap := swapBanks_congr h hx
    cases b with
    | false => simpa using hswap
    | true => simpa [swapBanks_swapBanks] using hswap

theorem Unchanged.set {x : RegName} (hx : x ∈ exceptionRegs) (v : Word) : Unchanged r (r.set x v) :=
  .of_eq fun y hy => set_of_ne fun heq => hy (heq ▸ hx)

theorem Unchanged.shUpdateSr (v : Word) : Unchanged r (r.shUpdateSr v) := by
  have hset : ∀ r : Regs, Unchanged r (r.set .sr v) := fun r => .set (by decide) v
  unfold Regs.shUpdateSr
  split
  · exact Unchanged.trans ⟨true, fun x _ => rfl⟩ (hset _)
  · exact hset _

end Regs

namespace ShCpu
variable {s u : ShCpu Regs}

@[simp] theorem regs_setPc (pc : Addr) : (s.setPc pc).regs = s.regs := rfl

@[simp] theorem regs_noteAddress (vaddr : Word) : (s.noteAddress vaddr).regs = s.regs := rfl

@[simp] theorem regs_write (x : RegName) (v : Word) : (s.write shRegFile x v).regs = s.regs.set x v := rfl

@[simp] theorem regs_updateSr (v : Word) : (s.updateSr shRegFile v).regs = s.regs.shUpdateSr v := rfl

theorem saveState_unchanged (s : ShCpu Regs) : Regs.Unchanged s.regs (s.saveState shRegFile).regs :=
  ((Regs.Unchanged.set (by decide) _).trans (.set (by decide) _)).trans (.set (by decide) _)

theorem specificCases_unchanged {vbr vaddr : Word} {expevt : Option Word}
    (h : s.specificCases shRegFile vbr expevt vaddr = .ok u) : Regs.Unchanged s.regs u.regs := by
  have hrefl : Regs.Unchanged s.regs s.regs := .of_eq fun _ _ => rfl
  unfold specificCases at h
  split at h
  · cases h
    rw [regs_setPc]
    exact hrefl
  · split at h
    · rw [← Except.ok.inj h, regs_updateSr, regs_write, regs_setPc]
      exact (Regs.Unchanged.set (by decide) 0#32).trans (.shUpdateSr _)
    · split at h
      · cases h
        rw [regs_noteAddress, regs_setPc]
        exact hrefl
      · split at h
        · cases h
          exact hrefl
        · split at h
          · cases h
            exact .set (by decide) _
          · split at h
            · cases h
            · split at h
              · cases h
                exact hrefl
              · cases h

theorem shException_unchanged {expevt intevt vaddr : Word} (h : s.shException shRegFile expevt intevt vaddr = .ok u) :
    Regs.Unchanged s.regs u.regs := by
  have hbefore : s.wake.leaveSlot.regs = s.regs := by
    unfold wake leaveSlot
    split <;> split <;> rfl
  have hsave := saveState_unchanged s.wake.leaveSlot
  rw [hbefore] at hsave
  refine hsave.trans ?_
  have hspecific := specificCases_unchanged h
  refine Regs.Unchanged.trans ?_ hspecific
  rw [regs_setPc, regs_updateSr]
  split <;> exact .shUpdateSr _

end ShCpu

theorem Raised.unchanged {s s' : ShCpu Regs} (h : Raised s s') : Regs.Unchanged s.regs s'.regs := by
  induction h with
  | same h => exact .of_eq fun x _ => by rw [h]
  | exception h hx _ ih => exact h ▸ (ShCpu.shException_unchanged hx).trans ih

namespace ShMachine
variable {c : ShConf} {io : ShIo} {s s' : ShMachine}

theorem translateV2p_cpu {f : V2pFlags} {vaddr : Addr} {r : V2pResult} (h : s.translateV2p f vaddr = .ok (s', r)) :
    s'.cpu.regs = s.cpu.regs := by
  obtain ⟨x, -, hx⟩ := Lib.bind_eq_ok h
  cases hx
  rfl

theorem pointTo_cpu {physaddr : Addr} (h : s.pointTo c io physaddr = .ok s') : s'.cpu = s.cpu := by
  obtain ⟨dyn, -, hd⟩ := Lib.bind_eq_ok h
  cases hd
  rfl

theorem lookupHandler_raised (h : s.lookupHandler c io = .ok s') : Raised s.cpu s'.cpu := by
  unfold lookupHandler at h
  split at h
  · exact .same (by rw [pointTo_cpu h])
  · obtain ⟨x, hx, h⟩ := Lib.bind_eq_ok h
    have hregs := @translateV2p_cpu _ x.1 _ _ x.2 hx
    obtain ⟨t, r⟩ := x
    cases r with
    | returned ok paddr => exact .same ((congrArg ShCpu.regs (pointTo_cpu h)).trans hregs)
    | exception expevt => cases h

theorem quick_raised {generic : ShMachine → Except Exit ShMachine}
    (hg : ∀ {s s'}, generic s = .ok s' → Raised s.cpu s'.cpu) (h : s.quick generic = .ok s') : Raised s.cpu s'.cpu := by
  unfold quick at h
  split at h
  · cases h
    exact .same rfl
  · exact hg h

theorem pcToPointersGeneric_raised {n : Nat} (h : pcToPointersGeneric c io n s = .ok s') : Raised s.cpu s'.cpu := by
  induction n generalizing s s' with
  | zero => cases h
  | succ n ih =>
    rw [pcToPointersGeneric] at h
    split at h
    · exact .same (by rw [pointTo_cpu h])
    · obtain ⟨x, hx, h⟩ := Lib.bind_eq_ok h
      have hregs := @translateV2p_cpu _ x.1 _ _ x.2 hx
      obtain ⟨t, r⟩ := x
      cases r with
      | returned ok paddr => exact .same ((congrArg ShCpu.regs (pointTo_cpu h)).trans hregs)
      | exception expevt =>
        obtain ⟨cpu, hcpu, h⟩ := Lib.bind_eq_ok h
        obtain ⟨u, hu, h⟩ := Lib.bind_eq_ok h
        -- the handler is looked up by the exception, and once more afterwards
        exact .exception hregs hcpu ((quick_raised (fun h => ih h) hu).trans (lookupHandler_raised h))

theorem exception_raised {expevt vaddr : Word} (h : s.exception c io expevt vaddr = .ok s') : Raised s.cpu s'.cpu := by
  obtain ⟨cpu, hcpu, h⟩ := Lib.bind_eq_ok h
  exact .exception rfl hcpu (quick_raised (fun h => pcToPointersGeneric_raised h) h)

theorem accessPaddr_cpu {a : Access} {paddr : Addr} {ok : Nat} {data data' : List Byte} {done : Bool}
    (h : s.accessPaddr c io a paddr ok data = .ok (s', data', done)) : s'.cpu = s.cpu := by
  obtain ⟨x, -, hx⟩ := Lib.bind_eq_ok h
  cases hx
  rfl

theorem memoryRw_raised {a : Access} {data data' : List Byte} {done : Bool}
    (h : s.memoryRw c io a data = .ok (s', data', done)) :
    Raised s.cpu s'.cpu ∧ (done = true → s'.cpu.regs = s.cpu.regs) := by
  unfold memoryRw at h
  split at h
  · have hcpu := accessPaddr_cpu h
    exact ⟨.same (by rw [hcpu]), fun _ => by rw [hcpu]⟩
  · obtain ⟨x, hx, h⟩ := Lib.bind_eq_ok h
    have hregs := @translateV2p_cpu _ x.1 _ _ x.2 hx
    obtain ⟨t, r⟩ := x
    cases r with
    | returned ok paddr =>
      have hcpu : s'.cpu.regs = s.cpu.regs := (congrArg ShCpu.regs (accessPaddr_cpu h)).trans hregs
      exact ⟨.same hcpu, fun _ => hcpu⟩
    | exception expevt =>
      obtain ⟨u, hu, h⟩ := Lib.bind_eq_ok h
      cases h
      exact ⟨(exception_raised hu).of_regs hregs, fun h => by cases h⟩

end ShMachine

end Gxemul.Sh
