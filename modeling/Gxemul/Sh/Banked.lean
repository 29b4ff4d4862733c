import Gxemul.Sh.Access

/- The SuperH instructions that write the status registers, or that name registers of
   the other bank (`src/cpus/cpu_sh_instr.c`).

   What the memory brings for an instruction that loads or stores is given to it: the
   data, in the byte order of the host, or the exception that memory_rw() has caused. -/
namespace Gxemul.Sh

/-- The answer to a load or a store: from a page that `host_load` or `host_store` knows,
or from memory_rw(). -/
inductive Answer where
  | page (data : Word)
  | memoryRw (data : Word)
  | fault (expevt : Word)

inductive BankedInstr where
  | copyPrivilegedRegister (src dst : RegName)
  | ldcRmSr (m : BitVec 4)
  | stcLRmPredecRnMd (src : RegName) (n : BitVec 4)
  | movLArg1PostincToArg0Md (dst : RegName) (m : BitVec 4)
  | copyFpRegister (src dst : RegName)
  | ldsRmFpscr (m : BitVec 4)
  | movLArg1PostincToArg0Fp (dst : RegName) (m : BitVec 4)
  | fmovFrmFrn (m n : BitVec 4)
  | frchg
  | fschg

/-- The pair of registers that an even or an odd number names, when pairs are moved. -/
def pairOf (i : BitVec 4) : RegName × RegName :=
  if i &&& 1#4 = 1#4 then (.xf (i &&& ~~~ 1#4), .xf ((i &&& ~~~ 1#4) + 1#4)) else (.fr i, .fr (i + 1#4))

namespace ShCpu
variable {σ : Type} (f : RegFile σ) (lowPc : Nat) (s : ShCpu σ)

def resInstIfNotMd (next : Except Exit (ShCpu σ)) : Except Exit (ShCpu σ) :=
  if !anyBit (s.read f .sr) shSrMd then (s.synchPc lowPc).shException f expevtResInst 0#32 0#32 else next

def floatingPointAvailableCheck (next : Except Exit (ShCpu σ)) : Except Exit (ShCpu σ) :=
  if anyBit (s.read f .sr) shSrFd then
    (s.synchPc lowPc).shException f
      (if s.delaySlot ≠ notDelayed then expevtFpuSlotDisable else expevtFpuDisable) 0#32 0#32
  else next

/-- What follows the access to `addr`. -/
def answered (answer : Answer) (addr : Word) (next : ShCpu σ → Word → ShCpu σ) : Except Exit (ShCpu σ) :=
  match answer with
  | .page data => .ok (next s data)
  | .memoryRw data => .ok (next (s.synchPc lowPc) data)
  | .fault expevt => (s.synchPc lowPc).shException f expevt 0#32 addr

def copyPrivilegedRegister (src dst : RegName) : Except Exit (ShCpu σ) :=
  s.resInstIfNotMd f lowPc (.ok (s.write f dst (s.read f src)))

def ldcRmSr (m : BitVec 4) : Except Exit (ShCpu σ) :=
  s.resInstIfNotMd f lowPc (.ok (s.updateSr f (s.read f (.r m))))

def stcLRmPredecRnMd (answer : Answer) (n : BitVec 4) : Except Exit (ShCpu σ) :=
  let addr := s.read f (.r n) - 4#32
  s.resInstIfNotMd f lowPc (s.answered f lowPc answer addr fun s _ => s.write f (.r n) addr)

/-- "Special case when loading into the SR register". -/
def movLArg1PostincToArg0Md (answer : Answer) (dst : RegName) (m : BitVec 4) : Except Exit (ShCpu σ) :=
  let addr := s.read f (.r m)
  s.resInstIfNotMd f lowPc (s.answered f lowPc answer addr fun s data =>
    let s := s.write f (.r m) (addr + 4#32)
    if dst = .sr then s.updateSr f data else s.write f dst data)

def copyFpRegister (src dst : RegName) : Except Exit (ShCpu σ) :=
  s.floatingPointAvailableCheck f lowPc (.ok (s.write f dst (s.read f src)))

def ldsRmFpscr (m : BitVec 4) : Except Exit (ShCpu σ) :=
  s.floatingPointAvailableCheck f lowPc (.ok (s.updateFpscr f (s.read f (.r m))))

/-- "Ugly special case for FPSCR". -/
def movLArg1PostincToArg0Fp (answer : Answer) (dst : RegName) (m : BitVec 4) : Except Exit (ShCpu σ) :=
  let addr := s.read f (.r m)
  s.floatingPointAvailableCheck f lowPc (s.answered f lowPc answer addr fun s data =>
    let s := s.write f (.r m) (addr + 4#32)
    if dst = .fpscr then s.updateFpscr f data else s.write f dst data)

def fmovFrmFrn (m n : BitVec 4) : Except Exit (ShCpu σ) :=
  s.floatingPointAvailableCheck f lowPc <|
    if !anyBit (s.read f .fpscr) shFpscrSz then .ok (s.write f (.fr n) (s.read f (.fr m)))
    else
      let s := s.write f (pairOf n).1 (s.read f (pairOf m).1)
      .ok (s.write f (pairOf n).2 (s.read f (pairOf m).2))

def frchg : Except Exit (ShCpu σ) :=
  s.floatingPointAvailableCheck f lowPc (.ok (s.updateFpscr f (s.read f .fpscr ^^^ shFpscrFr)))

def fschg : Except Exit (ShCpu σ) :=
  s.floatingPointAvailableCheck f lowPc (.ok (s.updateFpscr f (s.read f .fpscr ^^^ shFpscrSz)))

/-- `ic->f(cpu, ic)`. -/
def exec (answer : Answer) : BankedInstr → Except Exit (ShCpu σ)
  | .copyPrivilegedRegister src dst => s.copyPrivilegedRegister f lowPc src dst
  | .ldcRmSr m => s.ldcRmSr f lowPc m
  | .stcLRmPredecRnMd _ n => s.stcLRmPredecRnMd f lowPc answer n
  | .movLArg1PostincToArg0Md dst m => s.movLArg1PostincToArg0Md f lowPc answer dst m
  | .copyFpRegister src dst => s.copyFpRegister f lowPc src dst
  | .ldsRmFpscr m => s.ldsRmFpscr f lowPc m
  | .movLArg1PostincToArg0Fp dst m => s.movLArg1PostincToArg0Fp f lowPc answer dst m
  | .fmovFrmFrn m n => s.fmovFrmFrn f lowPc m n
  | .frchg => s.frchg f lowPc
  | .fschg => s.fschg f lowPc

/-- `X(rte)`, with what the instruction in the delay slot does. -/
def rte (slot : ShCpu σ → Except Exit (ShCpu σ)) : Except Exit (ShCpu σ) :=
  s.resInstIfNotMd f lowPc do
    let s ← slot { s with delaySlot := toBeDelayed }
    if hasFlag s.delaySlot exceptionInDelaySlot then return { s with delaySlot := notDelayed }
    else
      let s := { s with pc := (s.read f .spc).setWidth 64, delaySlot := notDelayed }
      return s.updateSr f (s.read f .ssr)

end ShCpu

/-! ## Translation -/

/-- The control registers that have load and store instructions of their own, by the digit that selects them. -/
def controlReg (d : BitVec 4) : Option RegName :=
  if d = 0x2#4 then some .vbr
  else if d = 0x3#4 then some .ssr
  else if d = 0x4#4 then some .spc
  else if d.extractLsb' 3 1 = 1#1 then some (.rBank (d.extractLsb' 0 3))
  else none

def translateBanked0 (r8 r4 lo4 : BitVec 4) (lo8 : BitVec 8) : Option BankedInstr :=
  if lo8 = 0x02#8 then some (.copyPrivilegedRegister .sr (.r r8))
  else if lo8 = 0xfa#8 then some (.copyPrivilegedRegister .dbr (.r r8))
  else if lo8 = 0x5a#8 then some (.copyFpRegister .fpul (.r r8))
  else if lo8 = 0x6a#8 then some (.copyFpRegister .fpscr (.r r8))
  else if lo4 = 0x2#4 then (controlReg r4).map fun c => .copyPrivilegedRegister c (.r r8)
  else none

def translateBanked4 (r8 r4 lo4 : BitVec 4) (lo8 : BitVec 8) : Option BankedInstr :=
  if lo8 = 0x03#8 then some (.stcLRmPredecRnMd .sr r8)
  else if lo8 = 0x07#8 then some (.movLArg1PostincToArg0Md .sr r8)
  else if lo8 = 0x0e#8 then some (.ldcRmSr r8)
  else if lo8 = 0xfa#8 then some (.copyPrivilegedRegister (.r r8) .dbr)
  else if lo8 = 0x56#8 then some (.movLArg1PostincToArg0Fp .fpul r8)
  else if lo8 = 0x5a#8 then some (.copyFpRegister (.r r8) .fpul)
  else if lo8 = 0x66#8 then some (.movLArg1PostincToArg0Fp .fpscr r8)
  else if lo8 = 0x6a#8 then some (.ldsRmFpscr r8)
  else if lo4 = 0x3#4 then (controlReg r4).map fun c => .stcLRmPredecRnMd c r8
  else if lo4 = 0x7#4 then (controlReg r4).map fun c => .movLArg1PostincToArg0Md c r8
  else if lo4 = 0xe#4 then (controlReg r4).map fun c => .copyPrivilegedRegister (.r r8) c
  else none

def translateBankedF (r8 r4 lo4 : BitVec 4) (lo8 : BitVec 8) : Option BankedInstr :=
  if lo4 = 0xc#4 then some (.fmovFrmFrn r4 r8)
  else if lo8 = 0x0d#8 then some (.copyFpRegister .fpul (.fr r8))
  else if lo8 = 0x1d#8 then some (.copyFpRegister (.fr r8) .fpul)
  else if r8 = 0x3#4 ∧ lo8 = 0xfd#8 then some .fschg
  else if r8 = 0xb#4 ∧ lo8 = 0xfd#8 then some .frchg
  else none

/-- What to_be_translated() makes of these instruction words. -/
def translateBanked (iword : BitVec 16) : Option BankedInstr :=
  let r8 := iword.extractLsb' 8 4
  let r4 := iword.extractLsb' 4 4
  let lo8 := iword.extractLsb' 0 8
  let lo4 := iword.extractLsb' 0 4
  match iword.extractLsb' 12 4 with
  | 0x0#4 => translateBanked0 r8 r4 lo4 lo8
  | 0x4#4 => translateBanked4 r8 r4 lo4 lo8
  | 0xf#4 => translateBankedF r8 r4 lo4 lo8
  | _ => none

structure BankedWord where
  iword : BitVec 16
  instr : BankedInstr
  translated : translateBanked iword = some instr

def BankedInstr.Legal : BankedInstr → Prop
  | .copyPrivilegedRegister _ dst | .copyFpRegister _ dst => dst ≠ .sr ∧ dst ≠ .fpscr
  | .movLArg1PostincToArg0Md dst _ => dst ≠ .fpscr
  | .movLArg1PostincToArg0Fp dst _ => dst ≠ .sr
  | _ => True

theorem controlReg_legal {d : BitVec 4} {c : RegName} (h : controlReg d = some c) : c ≠ .sr ∧ c ≠ .fpscr := by
  unfold controlReg at h
  split at h
  · cases h; decide
  · split at h
    · cases h; decide
    · split at h
      · cases h; decide
      · split at h
        · cases h; exact ⟨nofun, nofun⟩
        · cases h

theorem legal_of_map {d : BitVec 4} {k : RegName → BankedInstr} {i : BankedInstr}
    (h : (controlReg d).map k = some i) (hk : ∀ c, c ≠ .sr ∧ c ≠ .fpscr → (k c).Legal) : i.Legal := by
  obtain ⟨c, hc, rfl⟩ := Option.map_eq_some_iff.mp h
  exact hk c (controlReg_legal hc)

theorem legal_of_translated {iword : BitVec 16} {i : BankedInstr} (h : translateBanked iword = some i) : i.Legal := by
  unfold translateBanked at h
  dsimp only at h
  generalize iword.extractLsb' 8 4 = r8 at h
  generalize iword.extractLsb' 4 4 = r4 at h
  generalize iword.extractLsb' 0 8 = lo8 at h
  generalize iword.extractLsb' 0 4 = lo4 at h
  split at h
  · unfold translateBanked0 at h
    repeat' split at h
    all_goals first | exact legal_of_map h fun c hc => ⟨nofun, nofun⟩ | cases h
    all_goals exact ⟨nofun, nofun⟩
  · unfold translateBanked4 at h
    repeat' split at h
    all_goals
      first
      | exact legal_of_map h fun c hc => hc
      | exact legal_of_map h fun c hc => hc.2
      | exact legal_of_map h fun c hc => trivial
      | cases h
    all_goals first | trivial | exact ⟨nofun, nofun⟩ | exact nofun
  · unfold translateBankedF at h
    repeat' split at h
    all_goals cases h
    all_goals first | trivial | exact ⟨nofun, nofun⟩
  · cases h

end Gxemul.Sh
