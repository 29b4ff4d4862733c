import Mathlib.Data.BitVec
import Mathlib.Logic.Function.Basic

/- The virtual -> physical -> host translation tables of one CPU
   (`src/include/cpu.h`, `src/cpus/cpu_dyntrans.c`).

   A table is an array of slots, one for each virtual page (`host_load`,
   `host_store`, `phys_addr`, `phys_page` and `vaddr_to_tlbindex` are always
   indexed together, so a slot holds one element of each), and the linear array
   `vph_tlb_entry`. The functions below carry the source's `MODE32` as the
   argument `mode`. At `.mode32` they are the code. At `.mode64` they are what
   the code does to the slots when the three-level tree that holds them is left
   out; the tree itself is in `Gxemul.Dyntrans.Tree`. -/
namespace Gxemul

/-- A `uint64_t` address. -/
abbrev Addr := BitVec 64

inductive Arch where
  | alpha | arm | i960 | m88k | mips | ppc | riscv | sh
  deriving DecidableEq

namespace Arch

def maxVphTlbEntries : Arch → Nat
  | .arm => 384
  | .mips | .riscv => 192
  | .alpha | .i960 | .m88k | .ppc | .sh => 128

/-- The width of `vaddr_to_tlbindex`: `uint16_t` on ARM, `uint8_t` elsewhere. -/
def tlbindexBits : Arch → Nat
  | .arm => 16
  | _ => 8

/-- log2 of `DYNTRANS_PAGESIZE`. -/
def pageShift : Arch → Nat
  | .alpha => 13
  | _ => 12

def instrAlignmentShift : Arch → Nat
  | .riscv | .sh => 1
  | _ => 2

def icEntriesPerPage (a : Arch) : Nat := 2 ^ (a.pageShift - a.instrAlignmentShift)

theorem maxVphTlbEntries_lt (a : Arch) : a.maxVphTlbEntries < 2 ^ a.tlbindexBits := by
  cases a <;> decide

theorem maxVphTlbEntries_pos (a : Arch) : 0 < a.maxVphTlbEntries := by
  cases a <;> decide

theorem pageSize_cases (a : Arch) : 2 ^ a.pageShift = 4096 ∨ 2 ^ a.pageShift = 8192 := by
  cases a <;> decide

theorem pageShift_lt (a : Arch) : a.pageShift < 32 := by
  cases a <;> decide

end Arch

/-- `MODE32` defined or not. -/
inductive Mode where
  | mode32 | mode64
  deriving DecidableEq

/-- What is left of an address in a variable of the mode's address type. -/
def Mode.trunc : Mode → Addr → Addr
  | .mode32, v => v &&& 0xffffffff#64
  | .mode64, v => v

/-- `DYNTRANS_PAGESIZE - 1`, which is also memory_rw()'s `offset_mask`. -/
def Arch.offsetMask (a : Arch) : Addr := BitVec.ofNat 64 (2 ^ a.pageShift - 1)

/-- `addr & ~(DYNTRANS_PAGESIZE - 1)`. -/
def Arch.pageAddr (a : Arch) (v : Addr) : Addr := v &&& ~~~ a.offsetMask

/-- `(addr & (DYNTRANS_PAGESIZE - 1)) == 0`. -/
def Arch.Aligned (a : Arch) (v : Addr) : Prop := v &&& a.offsetMask = 0

instance (a : Arch) (v : Addr) : Decidable (a.Aligned v) := inferInstanceAs (Decidable (_ = _))

/-- `DYNTRANS_ADDR_TO_PAGENR` of an address in the mode's type. -/
def Arch.addrToPagenr (a : Arch) (mode : Mode) (v : Addr) : Nat := (mode.trunc v).toNat >>> a.pageShift

/-- `x & bit`, as a truth value. -/
def hasFlag (x bit : Nat) : Bool := x &&& bit != 0

def memRead : Nat := 0
def memWrite : Nat := 1
def memDowngrade : Nat := 128
def memoryUserAccess : Nat := 64

def justMarkAsNonWritable : Nat := 1
def invalidateAll : Nat := 2
def invalidatePaddr : Nat := 4
def invalidateVaddr : Nat := 8
def invalidateVaddrUpper4 : Nat := 16

/-- The ways the emulator gives up (`exit(1)`, `abort()`, a failed `assert`). -/
inductive Exit where
  | assertion
  | paddrTooLarge
  | refcountBug
  | refcountBugL2
  | l2RefcountProblem
  | l3RefcountProblem
  | internalErrorL2Reuse
  | internalErrorL3Reuse
  | exceptionHandlerUnmapped
  | deviceCollides
  | deviceInternalError
  | dyntransDataReused
  | dyntransDataNull
  | dyntransDataUnaligned
  | invalidDeviceNumber
  | memblockBoundary
  | ksuNotImplemented
  | invalidPmask
  | oneKbPages
  | tlbWriteWhileIsolated
  | entrylo1OnMmu3k
  | divisionByZero
  | unimplementedMode
  | armReset
  | reservedDomainAccess
  | pageTableOutsideMemory
  | unimplementedDescriptor
  | coprocRegisterPc
  | switchEndianness
  | fastContextSwitch
  | stackOverflow
  | translationNotFound
  | kernelVirtualMemory
  | loadStoreFailed
  | llRcBit
  | scRcBit
  | badIndex
  | badPointer
  | unimplementedCmmuRegister
  | unimplementedCmmuCommand
  | loadLinkedUnaligned
  | unimplementedShAddress
  | unimplementedShException
  | reservedInstruction
  | oddFloatRegister
  deriving DecidableEq

/-- One element of each of the arrays that are indexed by virtual page. Host
pages and translation pages are named by numbers; `none` is NULL. -/
structure Slot where
  hostLoad : Option Nat
  hostStore : Option Nat
  physAddr : Addr
  physPage : Option Nat
  tlbindex : Nat
  deriving DecidableEq

def Slot.empty : Slot := ⟨none, none, 0, none, 0⟩

/-- `struct arch_vpg_tlb_entry`. -/
structure VpgTlbEntry where
  valid : Bool
  writeflag : Nat
  vaddrPage : Addr
  paddrPage : Addr
  hostPage : Option Nat

def VpgTlbEntry.empty : VpgTlbEntry := ⟨false, 0, 0, 0, none⟩

/-- The tables. `isUserpage` is ARM's bitmap, and `x` the `static unsigned int`
that update_translation_table() draws its victims from. -/
@[ext] structure Vph where
  slot : Nat → Slot
  entry : Nat → VpgTlbEntry
  isUserpage : Nat → Bool
  x : Nat

namespace Vph

def init (x : Nat) : Vph := ⟨fun _ => Slot.empty, fun _ => VpgTlbEntry.empty, fun _ => false, x⟩

def setSlot (t : Vph) (k : Nat) (s : Slot) : Vph := { t with slot := Function.update t.slot k s }

def setEntry (t : Vph) (r : Nat) (e : VpgTlbEntry) : Vph := { t with entry := Function.update t.entry r e }

def setUserpage (t : Vph) (k : Nat) (b : Bool) : Vph :=
  { t with isUserpage := Function.update t.isUserpage k b }

variable (a : Arch) (mode : Mode)

def invalidateTlbEntry (t : Vph) (vaddrPage : Addr) (flags : Nat) : Vph :=
  let index := a.addrToPagenr mode vaddrPage
  let t := if a = .arm then t.setUserpage index false else t
  if hasFlag flags justMarkAsNonWritable then
    t.setSlot index { t.slot index with hostStore := none }
  else
    let tlbi := (t.slot index).tlbindex
    let t := if 0 < tlbi then t.setEntry (tlbi - 1) { t.entry (tlbi - 1) with valid := false } else t
    t.setSlot index Slot.empty

/-- The body of the loops over `vph_tlb_entry[]`: entries that satisfy `p` have
their page invalidated. -/
def invalidateIf (p : VpgTlbEntry → Bool) (flags : Nat) (t : Vph) (r : Nat) : Vph :=
  if (t.entry r).valid && p (t.entry r) then t.invalidateTlbEntry a mode (t.entry r).vaddrPage flags else t

/-- The body of the INVALIDATE_PADDR loop, which also writes the entry. -/
def invalidatePaddrEntry (addrPage : Addr) (flags : Nat) (t : Vph) (r : Nat) : Vph :=
  if (t.entry r).valid && (addrPage == (t.entry r).paddrPage) then
    let t := t.invalidateTlbEntry a mode (t.entry r).vaddrPage flags
    if hasFlag flags justMarkAsNonWritable then t.setEntry r { t.entry r with writeflag := 0 }
    else t.setEntry r { t.entry r with valid := false }
  else t

/-- `for (r=0; r<DYNTRANS_MAX_VPH_TLB_ENTRIES; r++)`. -/
def forEntries (f : Vph → Nat → Vph) (t : Vph) : Vph := (List.range a.maxVphTlbEntries).foldl f t

/-- `XXX_invalidate_translation_caches()`. `vaddrMask` is `cpu->vaddr_mask`. -/
def invalidateTranslationCaches (vaddrMask : Addr) (t : Vph) (addr : Addr) (flags : Nat) : Vph :=
  let addrPage := mode.trunc (a.pageAddr addr)
  if hasFlag flags invalidateVaddr then
    match mode with
    | .mode32 => t.invalidateTlbEntry a mode addrPage flags
    | .mode64 => t.forEntries a
        (invalidateIf a mode (fun e => (e.vaddrPage &&& vaddrMask) == (addrPage &&& vaddrMask)) flags)
  else if a = .ppc && hasFlag flags invalidateAll && hasFlag flags invalidateVaddrUpper4 then
    t.forEntries a (invalidateIf a mode (fun e => (e.vaddrPage &&& 0xf0000000#64) == addrPage) 0)
  else if hasFlag flags invalidateAll then
    t.forEntries a (invalidateIf a mode (fun _ => true) 0)
  else
    t.forEntries a (invalidatePaddrEntry a mode addrPage flags)

/-- The last part of `XXX_invalidate_code_translation()`: the pages whose entry
matches lose their `phys_page`. -/
def invalidateCodeEntries (t : Vph) (addr : Addr) (flags : Nat) : Vph :=
  t.forEntries a fun t r =>
    let e := t.entry r
    if e.valid && (hasFlag flags invalidateAll ||
        (hasFlag flags invalidatePaddr && (mode.trunc (a.pageAddr e.paddrPage) == addr)) ||
        (hasFlag flags invalidateVaddr && (mode.trunc (a.pageAddr e.vaddrPage) == addr))) then
      let index := a.addrToPagenr mode (a.pageAddr e.vaddrPage)
      t.setSlot index { t.slot index with physPage := none }
    else t

def evict (t : Vph) : Vph × Nat :=
  let r := t.x % a.maxVphTlbEntries
  let t := { t with x := (t.x + 1) % 2 ^ 32 }
  if (t.entry r).valid then (t.invalidateTlbEntry a mode (t.entry r).vaddrPage 0, r) else (t, r)

/-- The part of update_translation_table() for a page that is not in the tables. -/
def insertPage (t : Vph) (vaddrPage : Addr) (hostPage writeflag : Nat) (useraccess : Bool)
    (paddrPage : Addr) : Vph :=
  let (t, r) := t.evict a mode
  let t := t.setEntry r ⟨true, writeflag &&& memWrite, vaddrPage, paddrPage, some hostPage⟩
  let index := a.addrToPagenr mode vaddrPage
  let t := t.setSlot index
    { hostLoad := some hostPage
      hostStore := if writeflag ≠ 0 then some hostPage else none
      physAddr := paddrPage
      physPage := none
      tlbindex := (r + 1) % 2 ^ a.tlbindexBits }
  if a = .arm && useraccess then t.setUserpage index true else t

/-- The slot of a page that is already in the tables, after the update. The
64-bit code leaves `phys_page` alone. -/
def updatedSlot (s : Slot) (hostPage writeflag : Nat) (paddrPage : Addr) : Slot :=
  let s := match mode with
    | .mode32 => { s with physPage := none }
    | .mode64 => s
  if s.physAddr = paddrPage then
    let s := if hasFlag writeflag memWrite then { s with hostStore := some hostPage } else s
    if hasFlag writeflag memDowngrade then { s with hostStore := none } else s
  else
    { s with
      hostLoad := some hostPage
      hostStore := if writeflag ≠ 0 then some hostPage else none
      physAddr := paddrPage }

def updatedEntry (e : VpgTlbEntry) (writeflag : Nat) : VpgTlbEntry :=
  let e := if hasFlag writeflag memWrite then { e with writeflag := 1 } else e
  if hasFlag writeflag memDowngrade then { e with writeflag := 0 } else e

/-- The part of update_translation_table() for a page that entry `r` describes. -/
def updatePage (t : Vph) (r : Nat) (vaddrPage : Addr) (hostPage writeflag : Nat) (useraccess : Bool)
    (paddrPage : Addr) : Vph :=
  let t := t.setEntry r (updatedEntry (t.entry r) writeflag)
  let index := a.addrToPagenr mode vaddrPage
  let t := if a = .arm then t.setUserpage index useraccess else t
  t.setSlot index (updatedSlot mode (t.slot index) hostPage writeflag paddrPage)

/-- `writeflag & ~MEMORY_USER_ACCESS`. -/
def dataFlags (writeflag : Nat) : Nat :=
  if hasFlag writeflag memoryUserAccess then writeflag ^^^ memoryUserAccess else writeflag

/-- `XXX_update_translation_table()`. Every caller passes a host page that is
not NULL. -/
def updateTranslationTable (t : Vph) (vaddrPage : Addr) (hostPage writeflag : Nat)
    (paddrPage : Addr) : Except Exit Vph :=
  let vaddrPage := mode.trunc vaddrPage
  if mode = .mode32 ∧ 0xffffffff#64 < paddrPage then .error .paddrTooLarge
  else if ¬ a.Aligned vaddrPage ∨ ¬ a.Aligned paddrPage then .error .assertion
  else
    let useraccess := hasFlag writeflag memoryUserAccess
    let writeflag := dataFlags writeflag
    if a = .m88k ∧ useraccess then .ok t
    else
      let found := (t.slot (a.addrToPagenr mode vaddrPage)).tlbindex
      if found = 0 then .ok (t.insertPage a mode vaddrPage hostPage writeflag useraccess paddrPage)
      else .ok (t.updatePage a mode (found - 1) vaddrPage hostPage writeflag useraccess paddrPage)

end Vph

end Gxemul
