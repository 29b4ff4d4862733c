import Gxemul.Dyntrans.WriteProtect
import Gxemul.Memory.Devices

/- memory_rw() (`src/cpus/memory_rw.c`).

   The function finds the physical address, then the device or the RAM behind
   it, and on its way puts the page in the translation tables and drops code
   translations. The data itself is left out. What memory_rw() is told by the
   functions it calls is given with each call. -/
namespace Gxemul

def cacheData : Nat := 0
def cacheInstruction : Nat := 1
def cacheNone : Nat := 2
def cacheFlagsMask : Nat := 3
def noExceptionsFlag : Nat := 16
def physicalFlag : Nat := 32
def memoryNotFullPage : Nat := 256

/-- The arguments of memory_rw(). -/
structure Access where
  vaddr : Addr
  len : Nat
  write : Bool
  miscFlags : Nat
  deriving DecidableEq

namespace Access

def cache (a : Access) : Nat := a.miscFlags &&& cacheFlagsMask
def noExceptions (a : Access) : Bool := hasFlag a.miscFlags noExceptionsFlag
def physical (a : Access) : Bool := hasFlag a.miscFlags physicalFlag

end Access

/-- What memory_rw() is told during a call: the result of translate_v2p() (`none`
is 0), the host pages that memory_paddr_to_hostaddr() finds when reading and
finds or allocates when writing, `mem->physical_max`, the base that an emulated
RAM device points to, what the device's function returns and whether it stopped
the CPU, and what memory_warn_about_unimplemented_addr() returns. The last four
are for MIPS: `MEM_MIPS`, `mmu_model == MMU3K`, `MIPS1_ISOL_CACHES` and the result
of memory_cache_R3000(). -/
structure Env where
  translateV2p : Option (Addr × Nat)
  hostRead : Addr → Option Nat
  hostWrite : Addr → Nat
  physicalMax : Addr
  emulatedRamBase : Nat → Addr
  handlerResult : Int
  handlerStops : Bool
  warnFails : Bool
  memMips : Bool
  mmu3k : Bool
  isolCaches : Bool
  cacheR3000 : Bool

namespace Env

def hostaddr (env : Env) (page : Addr) (write : Bool) : Option Nat :=
  if write then some (env.hostWrite page) else env.hostRead page

/-- The physical address of an access, and the value of `ok`. -/
def physicalAddress (env : Env) (a : Access) : Option (Addr × Nat) :=
  if a.physical then some (a.vaddr, 2) else env.translateV2p

def servedByCache (env : Env) (a : Access) : Bool :=
  env.memMips && env.mmu3k && !a.physical && a.cache != cacheNone &&
    !(decide (0xa0000000#64 ≤ (a.vaddr &&& 0xffffffff#64)) && decide ((a.vaddr &&& 0xffffffff#64) ≤ 0xbfffffff#64)) &&
    env.cacheR3000

/-- "Ok, this is PROM stuff". -/
def isProm (env : Env) (paddr : Addr) : Bool := env.memMips && ((paddr &&& 0xffffc00000#64) == 0x1fc00000#64)

/-- "Sprite reads from this area of memory..." -/
def isSprite (env : Env) (paddr : Addr) : Bool := env.memMips && ((paddr &&& 0xfffff00000#64) == 0x1ff00000#64)

def outsideRam (env : Env) (paddr : Addr) : Bool := decide (env.physicalMax ≤ paddr) && !env.isProm paddr

/-- "Ugly hack for R2000/R3000 caches". -/
def isolated (env : Env) : Bool := env.memMips && env.mmu3k && env.isolCaches

/-- An R4000 with 64 MB of RAM that accesses `paddr`, through a page that may be
written. -/
def r4000 (paddr : Addr) : Env where
  translateV2p := some (paddr, 2)
  hostRead page := some page.toNat
  hostWrite page := page.toNat
  physicalMax := 0x4000000#64
  emulatedRamBase _ := 0
  handlerResult := 1
  handlerStops := false
  warnFails := false
  memMips := true
  mmu3k := false
  isolCaches := false
  cacheR3000 := false

end Env

/-- `1 << BITS_PER_MEMBLOCK`. -/
def memblockSize : Nat := 2 ^ 20

namespace Cpu
variable (conf : Conf) (env : Env)

/-- The host page behind an address of a device with DM_DYNTRANS_OK. -/
def deviceHostAddr (d : MemoryDevice) (paddr : Addr) : Nat :=
  if hasFlag d.flags dmEmulatedRam then
    env.hostWrite (conf.arch.pageAddr (paddr - env.emulatedRamBase d.dyntransData))
  else d.dyntransData + (conf.arch.pageAddr (paddr - d.baseaddr)).toNat

/-- The call of update_translation_table() for device `d`. -/
def updateForDevice (a : Access) (d : MemoryDevice) (paddr : Addr) (ok : Nat) (c : Cpu) : Except Exit Cpu :=
  if !hasFlag ok memoryNotFullPage && hasFlag d.flags dmDyntransOk then
    let wf := if a.write && hasFlag d.flags dmDyntransWriteOk then 1 else 0
    c.updateTranslationTable conf (conf.arch.pageAddr a.vaddr) (deviceHostAddr conf env d paddr) wf
      (conf.arch.pageAddr paddr)
  else .ok c

/-- The value that memory_rw() returns for a device. -/
def deviceResult (a : Access) (d : MemoryDevice) : Bool :=
  let called := !a.noExceptions || hasFlag d.flags dmReadsHaveNoSideEffects
  let res := if called then env.handlerResult else 0
  if called && env.handlerStops then false
  else a.noExceptions || decide (0 < res)

/-- The writeflag that memory_rw() passes for RAM. -/
def ramWriteflag (a : Access) (ok : Nat) : Nat :=
  (a.miscFlags &&& memoryUserAccess) |||
    (if a.cache = cacheInstruction then (if a.write then 1 else 0) else ok - 1)

/-- The call of update_translation_table() for RAM. -/
def updateForRam (a : Access) (paddr : Addr) (ok memblock : Nat) (c : Cpu) : Except Exit Cpu :=
  if !env.isolated && !hasFlag ok memoryNotFullPage && !a.noExceptions then
    c.updateTranslationTable conf (conf.arch.pageAddr a.vaddr) memblock (ramWriteflag a ok) (conf.arch.pageAddr paddr)
  else .ok c

/-- "If writing, or if mapping a page where writing is ok later on, then
invalidate code translations for the (physical) page address". -/
def invalidateCodeForRam (a : Access) (paddr : Addr) (ok : Nat) (c : Cpu) : Except Exit Cpu :=
  if a.write || (ok == 2 && a.cache == cacheData) then c.invalidateCodeTranslation conf paddr invalidatePaddr
  else .ok c

/-- "Uncached access". -/
def ramAccess (a : Access) (paddr : Addr) (ok : Nat) (c : Cpu) : Except Exit Cpu :=
  match env.hostaddr (conf.arch.pageAddr paddr) a.write with
  | none => .ok c
  | some memblock => do
    let c ← c.updateForRam conf env a paddr ok memblock
    let c ← c.invalidateCodeForRam conf a paddr ok
    if memblockSize < paddr.toNat % memblockSize + a.len then throw .memblockBoundary else return c

/-- `memory_rw()`, with MEMORY_ACCESS_OK as `true`. -/
def memoryRw (a : Access) (c : Cpu) (mem : Memory) : Except Exit (Cpu × Memory × Bool) :=
  match env.physicalAddress a with
  | none => .ok (c, mem, false)
  | some (paddr, ok) =>
    match mem.deviceFor paddr with
    | some i => do
      let c ← c.updateForDevice conf env a (mem.devices i) paddr ok
      let mem' := mem.noteAccess i paddr conf.arch.offsetMask a.write (!hasFlag ok memoryNotFullPage)
      return (c, mem', deviceResult env a (mem.devices i))
    | none =>
      if env.servedByCache a then .ok (c, mem, true)
      else if env.outsideRam paddr then
        .ok (c, mem, env.isSprite paddr || a.noExceptions || !env.warnFails)
      else do
        let c ← c.ramAccess conf env a paddr ok
        return (c, mem, true)

/-! ## The table operations of an access -/

/-- The call of update_translation_table() that an access makes, if any. -/
def accessUpdate (a : Access) (mem : Memory) : Option TableOp :=
  match env.physicalAddress a with
  | none => none
  | some (paddr, ok) =>
    match mem.deviceFor paddr with
    | some i =>
      let d := mem.devices i
      if !hasFlag ok memoryNotFullPage && hasFlag d.flags dmDyntransOk then
        some (.update (conf.arch.pageAddr a.vaddr) (deviceHostAddr conf env d paddr)
          (if a.write && hasFlag d.flags dmDyntransWriteOk then 1 else 0) (conf.arch.pageAddr paddr))
      else none
    | none =>
      if env.servedByCache a || env.outsideRam paddr then none
      else if !env.isolated && !hasFlag ok memoryNotFullPage && !a.noExceptions then
        (env.hostaddr (conf.arch.pageAddr paddr) a.write).map fun memblock =>
          .update (conf.arch.pageAddr a.vaddr) memblock (ramWriteflag a ok) (conf.arch.pageAddr paddr)
      else none

/-- The call of invalidate_code_translation() that an access makes, if any. -/
def accessInvalidation (a : Access) (mem : Memory) : Option TableOp :=
  match env.physicalAddress a with
  | none => none
  | some (paddr, ok) =>
    if (mem.deviceFor paddr).isSome || env.servedByCache a || env.outsideRam paddr ||
        (env.hostaddr (conf.arch.pageAddr paddr) a.write).isNone then none
    else if a.write || (ok == 2 && a.cache == cacheData) then some (.invalidateCode paddr invalidatePaddr)
    else none

variable {conf env}

theorem accessUpdate_eq {a : Access} {mem : Memory} {o : TableOp} (h : accessUpdate conf env a mem = some o) :
    ∃ paddr ok hostPage w, env.physicalAddress a = some (paddr, ok) ∧ hasFlag ok memoryNotFullPage = false ∧
      o = .update (conf.arch.pageAddr a.vaddr) hostPage w (conf.arch.pageAddr paddr) := by
  unfold accessUpdate at h
  split at h
  · cases h
  rename_i paddr ok hp
  split at h
  · dsimp only at h
    split at h
    · rename_i hfull
      cases h
      simp only [Bool.and_eq_true, Bool.not_eq_true'] at hfull
      exact ⟨paddr, ok, _, _, hp, hfull.1, rfl⟩
    · cases h
  · split at h
    · cases h
    · split at h
      · rename_i hfull
        simp only [Bool.and_eq_true, Bool.not_eq_true'] at hfull
        obtain ⟨memblock, -, rfl⟩ := Option.map_eq_some_iff.mp h
        exact ⟨paddr, ok, memblock, _, hp, hfull.1.2, rfl⟩
      · cases h

theorem runOps_ite {b : Bool} {o : TableOp} {c c' : Cpu}
    (h : (if b then c.tableStep conf o else .ok c) = .ok c') :
    Lib.runOps (tableStep conf) (if b then some o else none).toList c = .ok c' := by
  cases b with
  | false => exact h
  | true =>
    simp only [if_true, Option.toList, Lib.runOps] at h ⊢
    rw [h]

theorem runOps_toList {o : Option TableOp} {c c' : Cpu} (h : Lib.runOps (tableStep conf) o.toList c = .ok c') :
    (o = none ∧ c' = c) ∨ ∃ op, o = some op ∧ c.tableStep conf op = .ok c' := by
  cases o with
  | none =>
    cases h
    exact .inl ⟨rfl, rfl⟩
  | some op =>
    refine .inr ⟨op, rfl, ?_⟩
    simp only [Option.toList, Lib.runOps] at h
    split at h
    · rename_i hs
      rw [hs, h]
    · cases h

theorem memoryRw_tables {a : Access} {c c' : Cpu} {mem mem' : Memory} {r : Bool}
    (h : c.memoryRw conf env a mem = .ok (c', mem', r)) :
    Lib.runOps (tableStep conf) ((accessUpdate conf env a mem).toList ++ (accessInvalidation conf env a mem).toList) c =
      .ok c' := by
  unfold memoryRw at h
  unfold accessUpdate accessInvalidation
  cases hp : env.physicalAddress a with
  | none =>
    rw [hp] at h
    cases h
    rfl
  | some pok =>
    obtain ⟨paddr, ok⟩ := pok
    rw [hp] at h
    simp only at h ⊢
    cases hd : mem.deviceFor paddr with
    | some i =>
      rw [hd] at h
      obtain ⟨c1, hc1, h⟩ := Lib.bind_eq_ok h
      cases h
      simp only [Option.isSome_some, Bool.true_or, if_true, Option.toList_none, List.append_nil]
      exact runOps_ite hc1
    | none =>
      rw [hd] at h
      by_cases hs : env.servedByCache a = true
      · rw [if_pos hs] at h
        cases h
        simp [hs, Lib.runOps]
      · by_cases ho : env.outsideRam paddr = true
        · rw [if_neg hs, if_pos ho] at h
          cases h
          simp [ho, Lib.runOps]
        · rw [if_neg hs, if_neg ho] at h
          obtain ⟨c1, hc1, h⟩ := Lib.bind_eq_ok h
          cases h
          unfold ramAccess at hc1
          simp only [hs, ho, Bool.or_self, Bool.false_eq_true, if_false, Bool.false_or] at hc1 ⊢
          cases hh : env.hostaddr (conf.arch.pageAddr paddr) a.write with
          | none =>
            rw [hh] at hc1
            cases hc1
            simp [Lib.runOps]
          | some memblock =>
            rw [hh] at hc1
            obtain ⟨c2, hc2, hc1⟩ := Lib.bind_eq_ok hc1
            obtain ⟨c3, hc3, hc1⟩ := Lib.bind_eq_ok hc1
            split at hc1
            · cases hc1
            cases hc1
            simp only [Option.map_some, Option.isNone_some, Bool.false_eq_true, if_false]
            have hrun := runOps_ite (o := .update (conf.arch.pageAddr a.vaddr) memblock (ramWriteflag a ok)
              (conf.arch.pageAddr paddr)) hc2
            rw [Lib.runOps_append, hrun]
            exact runOps_ite (o := .invalidateCode paddr invalidatePaddr) hc3

theorem memoryRw_steps {a : Access} {c c' : Cpu} {mem mem' : Memory} {r : Bool}
    (h : c.memoryRw conf env a mem = .ok (c', mem', r)) :
    ∃ c1, Lib.runOps (tableStep conf) (accessUpdate conf env a mem).toList c = .ok c1 ∧
      Lib.runOps (tableStep conf) (accessInvalidation conf env a mem).toList c1 = .ok c' := by
  have hrun := memoryRw_tables h
  rw [Lib.runOps_append] at hrun
  exact Lib.bind_eq_ok hrun

theorem accessInvalidation_eq {a : Access} {mem : Memory} {o : TableOp}
    (h : accessInvalidation conf env a mem = some o) :
    ∃ paddr ok, env.physicalAddress a = some (paddr, ok) ∧ o = .invalidateCode paddr invalidatePaddr := by
  unfold accessInvalidation at h
  split at h
  · cases h
  · rename_i paddr ok hp
    split at h
    · cases h
    · split at h
      · cases h
        exact ⟨paddr, ok, hp, rfl⟩
      · cases h

/-- What an access does to the tables: it keeps them good, it keeps track of
physical pages unless it re-points a page to one of them, and the only page it
can make writable is its own. -/
theorem memoryRw_spec {a : Access} {c c' : Cpu} {mem mem' : Memory} {r : Bool} (hg : c.tables.Good conf.arch)
    (h : c.memoryRw conf env a mem = .ok (c', mem', r)) :
    (c'.tables.Good conf.arch ∧ c'.tables.mode = c.tables.mode) ∧
    ((c.tables.flat conf.arch).Fits c.tables.mode → (c'.tables.flat conf.arch).Fits c'.tables.mode) ∧
    (∀ D : Addr → Prop, (c.tables.flat conf.arch).Tracks D →
      (∀ o, accessUpdate conf env a mem = some o → ¬ o.RepointsTo conf.arch D c) →
      (c'.tables.flat conf.arch).Tracks D) ∧
    ∀ k, ((c'.tables.flat conf.arch).slot k).hostStore ≠ none →
      (((c.tables.flat conf.arch).slot k).hostStore ≠ none ∧
        ((c'.tables.flat conf.arch).slot k).physAddr = ((c.tables.flat conf.arch).slot k).physAddr) ∨
      ∃ v hostPage w p, accessUpdate conf env a mem = some (.update v hostPage w p) ∧
        k = conf.arch.addrToPagenr c.tables.mode v ∧ ((c'.tables.flat conf.arch).slot k).physAddr = p ∧
        Vph.dataFlags w ≠ 0 := by
  obtain ⟨c1, h1, h2⟩ := memoryRw_steps h
  -- the second operation only invalidates
  have hsh : c1.tables.Good conf.arch → (c'.tables.Good conf.arch ∧ c'.tables.mode = c1.tables.mode) ∧
      (c1.tables.flat conf.arch).Shrinks (c'.tables.flat conf.arch) := fun hg1 => by
    rcases runOps_toList h2 with ⟨-, rfl⟩ | ⟨op, hop, hs⟩
    · exact ⟨⟨hg1, rfl⟩, .rfl⟩
    · obtain ⟨paddr, ok, -, rfl⟩ := accessInvalidation_eq hop
      obtain ⟨hg', hm, ⟨_, _, _, _, hc, -⟩ | hsh⟩ := tableStep_cases hg1 hs
      · cases hc
      · exact ⟨⟨hg', hm⟩, hsh⟩
  rcases runOps_toList h1 with ⟨-, rfl⟩ | ⟨op, hop, hs⟩
  · obtain ⟨hg', hsh⟩ := hsh hg
    refine ⟨hg', fun hf => hg'.2 ▸ hf.shrinks hsh, fun D ht _ => ht.shrinks hsh, fun k hk => .inl ?_⟩
    obtain ⟨hst, -, hp⟩ := hsh.of_stored hk
    exact ⟨hst ▸ hk, hp⟩
  · obtain ⟨hg1, hm1, -⟩ := tableStep_cases hg hs
    obtain ⟨⟨hg', hm'⟩, hsh⟩ := hsh hg1
    refine ⟨⟨hg', hm'.trans hm1⟩, fun hf => hm' ▸ (tableStep_fits hg hf hs).shrinks hsh,
      fun D ht hr => (tableStep_tracks hg ht (hr op hop) hs).shrinks hsh, fun k hk => ?_⟩
    obtain ⟨hst, -, hp⟩ := hsh.of_stored hk
    rw [hst] at hk
    rcases tableStep_stored hg hs hk with ⟨hk', hp'⟩ | ⟨v, hostPage, w, p, rfl, hkv, hp', hw⟩
    · exact .inl ⟨hk', hp.trans hp'⟩
    · exact .inr ⟨v, hostPage, w, p, hop, hkv, hp.trans hp', hw⟩

variable (conf env) in
/-- What an access leaves in `struct memory`. -/
def accessMem (a : Access) (mem : Memory) : Memory :=
  match env.physicalAddress a with
  | none => mem
  | some (paddr, ok) =>
    match mem.deviceFor paddr with
    | some i => mem.noteAccess i paddr conf.arch.offsetMask a.write (!hasFlag ok memoryNotFullPage)
    | none => mem

theorem memoryRw_mem {a : Access} {c c' : Cpu} {mem mem' : Memory} {r : Bool}
    (h : c.memoryRw conf env a mem = .ok (c', mem', r)) : mem' = accessMem conf env a mem := by
  unfold memoryRw at h
  unfold accessMem
  split at h
  · cases h
    rfl
  · split at h
    · obtain ⟨c1, -, h⟩ := Lib.bind_eq_ok h
      cases h
      rfl
    · split at h
      · cases h
        rfl
      · split at h
        · cases h
          rfl
        · obtain ⟨c1, -, h⟩ := Lib.bind_eq_ok h
          cases h
          rfl

end Cpu

end Gxemul
