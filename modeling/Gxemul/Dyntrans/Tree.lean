import Gxemul.Dyntrans.Vph

/- The 64-bit translation tables (`src/include/cpu.h`, the `!MODE32` parts of
   `src/cpus/cpu_dyntrans.c`).

   The slots live in L3 tables that are reached through `l1_64` and an L2 table.
   Tables are named by their addresses: 0 is NULL, 1 is the dummy table, and
   malloc() hands out the addresses from 2 on. Tables are never given back to
   the host; one that is not in use any more is put on a free list that runs
   through its `next` field. -/
namespace Gxemul

/-! ## Table indices -/

def l1n : Nat := 17

def l2n : Nat := 17

def Arch.l3n : Arch → Nat
  | .alpha => 17
  | _ => 18

def Arch.x1 (_ : Arch) (v : Addr) : Nat := (v.toNat >>> (64 - l1n)) &&& (2 ^ l1n - 1)

def Arch.x2 (_ : Arch) (v : Addr) : Nat := (v.toNat >>> (64 - l1n - l2n)) &&& (2 ^ l2n - 1)

def Arch.x3 (a : Arch) (v : Addr) : Nat := (v.toNat >>> (64 - l1n - l2n - a.l3n)) &&& (2 ^ a.l3n - 1)

/-! ## Tables -/

/-- `struct arch_l3_64_table`. -/
structure L3Table where
  slot : Nat → Slot
  next : Nat
  refcount : Int

/-- `struct arch_l2_64_table`. -/
structure L2Table where
  l3 : Nat → Nat
  next : Nat
  refcount : Int

/-- `l2_64_dummy`. -/
def l2Dummy : Nat := 1

/-- `l3_64_dummy`. -/
def l3Dummy : Nat := 1

/-- The 64-bit tables of one CPU. `l2Brk` and `l3Brk` are the addresses malloc()
hands out next. -/
structure Tree where
  l1 : Nat → Nat
  l2 : Nat → L2Table
  l3 : Nat → L3Table
  nextFreeL2 : Nat
  nextFreeL3 : Nat
  l2Brk : Nat
  l3Brk : Nat
  entry : Nat → VpgTlbEntry
  x : Nat

namespace Tree

/-- `XXX_init_tables()`. -/
def init (x : Nat) : Tree where
  l1 _ := l2Dummy
  l2 _ := ⟨fun _ => l3Dummy, 0, 0⟩
  l3 _ := ⟨fun _ => Slot.empty, 0, 0⟩
  nextFreeL2 := 0
  nextFreeL3 := 0
  l2Brk := 2
  l3Brk := 2
  entry _ := VpgTlbEntry.empty
  x := x

def setL1 (t : Tree) (x1 l2 : Nat) : Tree := { t with l1 := Function.update t.l1 x1 l2 }

def setL2 (t : Tree) (l2 : Nat) (p : L2Table) : Tree := { t with l2 := Function.update t.l2 l2 p }

def setL3 (t : Tree) (l3 : Nat) (p : L3Table) : Tree := { t with l3 := Function.update t.l3 l3 p }

def setEntry (t : Tree) (r : Nat) (e : VpgTlbEntry) : Tree := { t with entry := Function.update t.entry r e }

/-- `l3->host_load[x3] = ...` and so on. -/
def setSlot (t : Tree) (l3 x3 : Nat) (s : Slot) : Tree :=
  t.setL3 l3 { t.l3 l3 with slot := Function.update (t.l3 l3).slot x3 s }

/-- `l2->l3[x2] = l3`. -/
def setL2Slot (t : Tree) (l2 x2 l3 : Nat) : Tree :=
  t.setL2 l2 { t.l2 l2 with l3 := Function.update (t.l2 l2).l3 x2 l3 }

/-- `l3->refcount += n`. -/
def addRefcountL3 (t : Tree) (l3 : Nat) (n : Int) : Tree :=
  t.setL3 l3 { t.l3 l3 with refcount := (t.l3 l3).refcount + n }

/-- `l2->refcount += n`. -/
def addRefcountL2 (t : Tree) (l2 : Nat) (n : Int) : Tree :=
  t.setL2 l2 { t.l2 l2 with refcount := (t.l2 l2).refcount + n }

def pushFreeL3 (t : Tree) (l3 : Nat) : Tree :=
  { t.setL3 l3 { t.l3 l3 with next := t.nextFreeL3 } with nextFreeL3 := l3 }

def pushFreeL2 (t : Tree) (l2 : Nat) : Tree :=
  { t.setL2 l2 { t.l2 l2 with next := t.nextFreeL2 } with nextFreeL2 := l2 }

variable (a : Arch)

/-! ## Invalidation -/

/-- Remove the translation in slot `x3` of an L3 table. -/
def clearSlot (t : Tree) (l3 x3 : Nat) : Tree :=
  let tlbi := ((t.l3 l3).slot x3).tlbindex
  let t := if tlbi ≠ 0 then
      (t.setEntry (tlbi - 1) { t.entry (tlbi - 1) with valid := false }).addRefcountL3 l3 (-1)
    else t
  t.setSlot l3 x3 Slot.empty

def releaseTables (t : Tree) (x1 l2 x2 l3 : Nat) : Except Exit Tree :=
  if (t.l3 l3).refcount < 0 then .error .refcountBug
  else if (t.l3 l3).refcount = 0 then
    let t := ((t.pushFreeL3 l3).setL2Slot l2 x2 l3Dummy).addRefcountL2 l2 (-1)
    if (t.l2 l2).refcount < 0 then .error .refcountBugL2
    else if (t.l2 l2).refcount = 0 then .ok ((t.pushFreeL2 l2).setL1 x1 l2Dummy)
    else .ok t
  else .ok t

def invalidateTlbEntry (t : Tree) (vaddrPage : Addr) (flags : Nat) : Except Exit Tree :=
  let l2 := t.l1 (a.x1 vaddrPage)
  let l3 := (t.l2 l2).l3 (a.x2 vaddrPage)
  let x3 := a.x3 vaddrPage
  if l2 = l2Dummy then .ok t
  else if l3 = l3Dummy then .ok t
  else if hasFlag flags justMarkAsNonWritable then
    .ok (t.setSlot l3 x3 { (t.l3 l3).slot x3 with hostStore := none })
  else (t.clearSlot l3 x3).releaseTables (a.x1 vaddrPage) l2 (a.x2 vaddrPage) l3

def invalidateIf (p : VpgTlbEntry → Bool) (flags : Nat) (t : Tree) (r : Nat) : Except Exit Tree :=
  if (t.entry r).valid && p (t.entry r) then t.invalidateTlbEntry a (t.entry r).vaddrPage flags else .ok t

def invalidatePaddrEntry (addrPage : Addr) (flags : Nat) (t : Tree) (r : Nat) : Except Exit Tree :=
  if (t.entry r).valid && (addrPage == (t.entry r).paddrPage) then do
    let t ← t.invalidateTlbEntry a (t.entry r).vaddrPage flags
    if hasFlag flags justMarkAsNonWritable then return t.setEntry r { t.entry r with writeflag := 0 }
    else return t.setEntry r { t.entry r with valid := false }
  else .ok t

/-- `for (r=0; r<DYNTRANS_MAX_VPH_TLB_ENTRIES; r++)`. -/
def forEntries (f : Tree → Nat → Except Exit Tree) (t : Tree) : Except Exit Tree :=
  (List.range a.maxVphTlbEntries).foldlM f t

def invalidateTranslationCaches (vaddrMask : Addr) (t : Tree) (addr : Addr) (flags : Nat) : Except Exit Tree :=
  let addrPage := a.pageAddr addr
  if hasFlag flags invalidateVaddr then
    t.forEntries a (invalidateIf a (fun e => (e.vaddrPage &&& vaddrMask) == (addrPage &&& vaddrMask)) flags)
  else if a = .ppc && hasFlag flags invalidateAll && hasFlag flags invalidateVaddrUpper4 then
    t.forEntries a (invalidateIf a (fun e => (e.vaddrPage &&& 0xf0000000#64) == addrPage) 0)
  else if hasFlag flags invalidateAll then
    t.forEntries a (invalidateIf a (fun _ => true) 0)
  else
    t.forEntries a (invalidatePaddrEntry a addrPage flags)

/-- The last part of `XXX_invalidate_code_translation()`. -/
def invalidateCodeEntries (t : Tree) (addr : Addr) (flags : Nat) : Except Exit Tree :=
  t.forEntries a fun t r =>
    let e := t.entry r
    if e.valid && (hasFlag flags invalidateAll ||
        (hasFlag flags invalidatePaddr && (a.pageAddr e.paddrPage == addr)) ||
        (hasFlag flags invalidateVaddr && (a.pageAddr e.vaddrPage == addr))) then
      let v := a.pageAddr e.vaddrPage
      let l3 := (t.l2 (t.l1 (a.x1 v))).l3 (a.x2 v)
      .ok (t.setSlot l3 (a.x3 v) { (t.l3 l3).slot (a.x3 v) with physPage := none })
    else .ok t

/-! ## Update -/

def evict (t : Tree) : Except Exit (Tree × Nat) :=
  let r := t.x % a.maxVphTlbEntries
  let t := { t with x := (t.x + 1) % 2 ^ 32 }
  if (t.entry r).valid then do
    let t ← t.invalidateTlbEntry a (t.entry r).vaddrPage 0
    return (t, r)
  else .ok (t, r)

def takeL2 (t : Tree) : Tree × Nat :=
  if t.nextFreeL2 ≠ 0 then ({ t with nextFreeL2 := (t.l2 t.nextFreeL2).next }, t.nextFreeL2)
  else ({ t.setL2 t.l2Brk ⟨fun _ => l3Dummy, 0, 0⟩ with l2Brk := t.l2Brk + 1 }, t.l2Brk)

def takeL3 (t : Tree) : Tree × Nat :=
  if t.nextFreeL3 ≠ 0 then ({ t with nextFreeL3 := (t.l3 t.nextFreeL3).next }, t.nextFreeL3)
  else ({ t.setL3 t.l3Brk ⟨fun _ => Slot.empty, 0, 0⟩ with l3Brk := t.l3Brk + 1 }, t.l3Brk)

/-- The L2 table of `l1_64[x1]`, which is not the dummy any more afterwards. -/
def obtainL2 (t : Tree) (x1 : Nat) : Except Exit (Tree × Nat) :=
  if t.l1 x1 = l2Dummy then
    let (t, l2) := t.takeL2
    let t := t.setL1 x1 l2
    if (t.l2 l2).refcount ≠ 0 then .error .l2RefcountProblem
    else if l2 = l2Dummy then .error .internalErrorL2Reuse
    else .ok (t, l2)
  else .ok (t, t.l1 x1)

/-- The L3 table of `l2->l3[x2]`, which is not the dummy any more afterwards. -/
def obtainL3 (t : Tree) (l2 x2 : Nat) : Except Exit (Tree × Nat) :=
  if (t.l2 l2).l3 x2 = l3Dummy then
    let (t, l3) := t.takeL3
    let t := t.setL2Slot l2 x2 l3
    if (t.l3 l3).refcount ≠ 0 then .error .l3RefcountProblem
    else
      let t := t.addRefcountL2 l2 1
      if l3 = l3Dummy then .error .internalErrorL3Reuse else .ok (t, l3)
  else .ok (t, (t.l2 l2).l3 x2)

/-- The part of update_translation_table() for a page that is not in the tables. -/
def insertPage (t : Tree) (vaddrPage : Addr) (hostPage writeflag : Nat) (paddrPage : Addr) :
    Except Exit Tree := do
  let (t, r) ← t.evict a
  let t := t.setEntry r ⟨true, writeflag &&& memWrite, vaddrPage, paddrPage, some hostPage⟩
  let (t, l2) ← t.obtainL2 (a.x1 vaddrPage)
  let (t, l3) ← t.obtainL3 l2 (a.x2 vaddrPage)
  let t := t.setSlot l3 (a.x3 vaddrPage)
    { hostLoad := some hostPage
      hostStore := if writeflag ≠ 0 then some hostPage else none
      physAddr := paddrPage
      physPage := none
      tlbindex := (r + 1) % 2 ^ a.tlbindexBits }
  return t.addRefcountL3 l3 1

/-- The part of update_translation_table() for a page that entry `r` describes. -/
def updatePage (t : Tree) (r : Nat) (vaddrPage : Addr) (hostPage writeflag : Nat) (paddrPage : Addr) : Tree :=
  let t := t.setEntry r (Vph.updatedEntry (t.entry r) writeflag)
  let l3 := (t.l2 (t.l1 (a.x1 vaddrPage))).l3 (a.x2 vaddrPage)
  let s := (t.l3 l3).slot (a.x3 vaddrPage)
  t.setSlot l3 (a.x3 vaddrPage) (Vph.updatedSlot .mode64 s hostPage writeflag paddrPage)

/-- `vaddr_to_tlbindex` of a page, zero when its tables are dummies. -/
def found (t : Tree) (vaddrPage : Addr) : Nat :=
  let l2 := t.l1 (a.x1 vaddrPage)
  let l3 := (t.l2 l2).l3 (a.x2 vaddrPage)
  if l2 = l2Dummy then 0
  else if l3 = l3Dummy then 0
  else ((t.l3 l3).slot (a.x3 vaddrPage)).tlbindex

def updateTranslationTable (t : Tree) (vaddrPage : Addr) (hostPage writeflag : Nat) (paddrPage : Addr) :
    Except Exit Tree :=
  if ¬ a.Aligned vaddrPage ∨ ¬ a.Aligned paddrPage then .error .assertion
  else
    let writeflag := Vph.dataFlags writeflag
    let found := t.found a vaddrPage
    if found = 0 then t.insertPage a vaddrPage hostPage writeflag paddrPage
    else .ok (t.updatePage a (found - 1) vaddrPage hostPage writeflag paddrPage)

end Tree

end Gxemul
