import Gxemul.Mips.Exception

/- The instructions of coprocessor 0 that change the TLB, the address space or the
   mode (`src/cpus/cpu_mips_coproc.c`, `src/cpus/cpu_mips_instr.c`).

   Each of them invalidates the translations that it takes to be out of date. The
   calls are given as lists: those of a loop are performed one after the other. -/
namespace Gxemul.Mips

def contextBits (t : CpuType) : Reg :=
  if t.mmuModel = .mmu3k then r2k3kContextBadvpnMask
  else if t.r4100 then contextBadvpn2MaskR4100
  else contextBadvpn2Mask

/-- The registers that can be written, the ones that are not modelled left out. -/
inductive Cop0Reg where
  | index | random | entrylo0 | entrylo1 | context | pagemask | wired | badvaddr | entryhi | status | cause | epc
  | xcontext | errorepc
  deriving DecidableEq

def Cop0.set (c : Cop0) (r : Cop0Reg) (x : Reg) : Cop0 :=
  match r with
  | .index => { c with index := x }
  | .random => { c with random := x }
  | .entrylo0 => { c with entrylo0 := x }
  | .entrylo1 => { c with entrylo1 := x }
  | .context => { c with context := x }
  | .pagemask => { c with pagemask := x }
  | .wired => { c with wired := x }
  | .badvaddr => { c with badvaddr := x }
  | .entryhi => { c with entryhi := x }
  | .status => { c with status := x }
  | .cause => { c with cause := x }
  | .epc => { c with epc := x }
  | .xcontext => { c with xcontext := x }
  | .errorepc => { c with errorepc := x }

def entryhiBits (t : CpuType) : Reg :=
  if t.mmuModel = .mmu3k then r2k3kEntryhiVpnMask ||| r2k3kEntryhiAsidMask
  else if t.mmuModel = .mmu10k then entryhiRMask ||| entryhiVpn2MaskR10k ||| entryhiAsid
  else if t.r4100 then entryhiRMask ||| entryhiVpn2Mask ||| 0x1800#64 ||| entryhiAsid
  else entryhiRMask ||| entryhiVpn2Mask ||| entryhiAsid

def entryloBits (t : CpuType) : Reg :=
  if t.mmuModel = .mmu3k then
    r2k3kEntryloPfnMask ||| r2k3kEntryloN ||| r2k3kEntryloD ||| r2k3kEntryloV ||| r2k3kEntryloG
  else entryloPfnMask ||| entryloCMask ||| entryloD ||| entryloV ||| entryloG

/-- The value that coproc_register_write() puts in a register, from `tmp`. -/
def writtenValue (t : CpuType) (r : Cop0Reg) (tmp : Reg) : Reg :=
  match r with
  | .entrylo0 | .entrylo1 => tmp &&& entryloBits t
  | .pagemask =>
    if t.r4100 then tmp
    else if t.mmuModel = .mmu10k then tmp &&& (0xfff#64 <<< 13)
    else tmp &&& (0xffff#64 <<< 13)
  | .wired => (if t.mmuModel = .mmu3k then 8#64 else tmp) &&& indexMask
  | .entryhi => tmp &&& entryhiBits t
  | .status => tmp &&& ~~~ 0x200000#64
  | .index | .random | .badvaddr | .context | .cause | .epc | .xcontext | .errorepc => tmp

/-! ## Invalidations -/

/-- `for (ofs = 0; ofs < pagesize; ofs += 0x1000)`: the addresses from `base` on. -/
def pageAddresses (base pagesize : Addr) : List Addr :=
  (List.range ((pagesize.toNat + 0xfff) / 0x1000)).map fun k => base + BitVec.ofNat 64 (k * 0x1000)

/-- `oldvaddr`: the address in ENTRYHI or in the upper word of an entry. -/
def CpuType.hiVaddr (t : CpuType) (hi : Reg) : Addr :=
  if t.mmuModel = .mmu3k then sext32 (hi &&& r2k3kEntryhiVpnMask)
  else if t.mmuModel = .mmu10k then hi &&& (entryhiVpn2MaskR10k ||| entryhiRMask)
  else if t.is32bit then sext32 (hi &&& entryhiVpn2Mask)
  else hi &&& (entryhiRMask ||| entryhiVpn2Mask)

/-- The loops over both pages of an entry: only valid pages are invalidated. -/
def entryPages (oldvaddr pagesize : Addr) (e : MipsTlb) : List Addr :=
  (if anyBit e.lo0 entryloV then pageAddresses oldvaddr pagesize else []) ++
    (if anyBit e.lo1 entryloV then pageAddresses (oldvaddr + pagesize) pagesize else [])

/-- `while ((tmp & 1)) { tmp >>= 1; pagesize <<= 1; }`. After 64 times `tmp` is 0. -/
def growPagesize : Nat → Reg → Reg → Reg
  | 0, _, pagesize => pagesize
  | fuel + 1, tmp, pagesize =>
    if anyBit tmp 1#64 then growPagesize fuel (tmp >>> 1) (pagesize <<< 1) else pagesize

/-- What invalidate_asid() invalidates for one entry. -/
def invalidateAsidEntry (t : CpuType) (asid : Reg) (e : MipsTlb) : List Addr :=
  if t.mmuModel = .mmu3k then
    if e.hi &&& r2k3kEntryhiAsidMask = asid ∧ anyBit e.lo0 r2k3kEntryloV = true ∧ anyBit e.lo0 r2k3kEntryloG = false then
      [e.hi &&& r2k3kEntryhiVpnMask]
    else []
  else if e.hi &&& entryhiAsid ≠ asid ∨ anyBit e.hi tlbG = true then []
  else
    let pagesize := growPagesize 64 (e.mask >>> 13) 0x1000#64
    entryPages (t.hiVaddr e.hi &&& ~~~ (e.mask ||| 0x1fff#64)) pagesize e

/-- The invalidations of invalidate_asid(). -/
def invalidateAsidPages (t : CpuType) (asid : Reg) (tlbs : Nat → MipsTlb) : List Addr :=
  (List.range t.nrOfTlbEntries).flatMap fun i => invalidateAsidEntry t asid (tlbs i)

/-- `dpmask`, for a page mask. -/
def CpuType.dpmask (t : CpuType) (mask : Reg) : Reg := mask ||| (if t.r4100 then 0x7ff#64 else 0x1fff#64)

/-- What tlbwi and tlbwr invalidate for the old entry. On an R3000 the entry has to
be global or in the address space of the new entry. -/
def oldEntryPages (t : CpuType) (entryhi : Reg) (e : MipsTlb) : List Addr :=
  if t.mmuModel = .mmu3k then
    if anyBit e.lo0 r2k3kEntryloV && (anyBit e.lo0 r2k3kEntryloG ||
        e.hi &&& r2k3kEntryhiAsidMask == entryhi &&& r2k3kEntryhiAsidMask) then
      [t.hiVaddr e.hi]
    else []
  else
    let dpmask := t.dpmask e.mask
    entryPages (t.hiVaddr e.hi &&& ~~~ dpmask) ((dpmask >>> 1) + 1) e

def hasOneKbPages (t : CpuType) (mask lo0 lo1 : Reg) : Bool :=
  t.dpmask mask == 0x7ff#64 && (anyBit lo0 entryloV || anyBit lo1 entryloV)

namespace MipsCpu
variable (t : CpuType) (cacheSize : Nat)

/-- Calls of invalidate_translation_caches() and the like. -/
def tableOps (s : MipsCpu) (ops : List TableOp) : Except Exit MipsCpu := do
  let dyn ← Lib.runOps (Cpu.tableStep (t.conf cacheSize)) ops s.dyn
  return { s with dyn }

/-- Calls of invalidate_translation_caches() with INVALIDATE_VADDR. -/
def invalidatePages (s : MipsCpu) (xs : List Addr) : Except Exit MipsCpu :=
  s.tableOps t cacheSize (xs.map (.invalidate · invalidateVaddr))

def setCop0 (s : MipsCpu) (cop0 : Cop0) : MipsCpu := { s with mmu := { s.mmu with cop0 } }

/-! ## mtc0 and dmtc0 -/

/-- A write to STATUS switches between 32-bit and 64-bit addresses, or isolates the
caches of an R3000: everything is invalidated. -/
def statusFlushes (old new : Reg) : Bool :=
  (!t.is32bit && (old &&& (statusKx ||| statusSx ||| statusUx) != new &&& (statusKx ||| statusSx ||| statusUx))) ||
    (t.mmuModel == .mmu3k && (old &&& mips1IsolCaches != new &&& mips1IsolCaches) && anyBit new mips1IsolCaches)

/-- `coproc_register_write()`, for coprocessor 0. -/
def coprocRegisterWrite (s : MipsCpu) (r : Cop0Reg) (value : Reg) (flag64 : Bool) : Except Exit MipsCpu := do
  let cop0 := s.mmu.cop0
  let tmp := writtenValue t r value
  let final := if flag64 then tmp else sext32 tmp
  match r with
  | .context => return s.setCop0 { cop0 with context := (tmp &&& ~~~ contextBits t) ||| (cop0.context &&& contextBits t) }
  | .cause => return s.setCop0 { cop0 with cause := (cop0.cause &&& ~~~ 0x300#64) ||| (tmp &&& 0x300#64) }
  | .entrylo1 =>
    if t.mmuModel = .mmu3k then throw .entrylo1OnMmu3k else return s.setCop0 { cop0 with entrylo1 := final }
  | .wired => return s.setCop0 { cop0 with random := BitVec.ofNat 64 (t.nrOfTlbEntries - 1), wired := final }
  | .entryhi =>
    let asid := currentAsid t.variant cop0.entryhi
    let s ← if asid ≠ currentAsid t.variant value then
        s.invalidatePages t cacheSize (invalidateAsidPages t asid s.mmu.tlbs)
      else pure s
    return s.setCop0 { cop0 with entryhi := final }
  | .status =>
    let s ← if statusFlushes t cop0.status tmp then s.tableOps t cacheSize [.invalidate 0 invalidateAll] else pure s
    return s.setCop0 { cop0 with status := final }
  | .index | .random | .entrylo0 | .pagemask | .badvaddr | .epc | .xcontext | .errorepc =>
    return s.setCop0 (cop0.set r final)

/-! ## tlbr and tlbp -/

def tlbIndex (cop0 : Cop0) : Nat :=
  if t.mmuModel = .mmu3k then ((cop0.index &&& r2k3kIndexMask) >>> r2k3kIndexShift).toNat
  else (cop0.index &&& indexMask).toNat

/-- `coproc_tlbpr()` with `readflag`. -/
def coprocTlbr (s : MipsCpu) : MipsCpu :=
  let cop0 := s.mmu.cop0
  let i := tlbIndex t cop0
  let e := s.mmu.tlbs i
  if t.nrOfTlbEntries ≤ i then s
  else if t.mmuModel = .mmu3k then s.setCop0 { cop0 with entryhi := e.hi, entrylo0 := e.lo0 }
  else
    let cop0 := { cop0 with pagemask := e.mask, entryhi := e.hi, entrylo1 := e.lo1, entrylo0 := e.lo0 }
    if t.r4100 then s.setCop0 cop0
    else
      let g := if anyBit e.hi tlbG then entryloG else 0
      s.setCop0 { cop0 with
        entryhi := e.hi &&& ~~~ tlbG
        entrylo0 := (e.lo0 &&& ~~~ entryloG) ||| g
        entrylo1 := (e.lo1 &&& ~~~ entryloG) ||| g }

def probeHits (cop0 : Cop0) (e : MipsTlb) : Bool :=
  if t.mmuModel = .mmu3k then
    (e.hi &&& r2k3kEntryhiAsidMask == cop0.entryhi &&& r2k3kEntryhiAsidMask || anyBit e.lo0 r2k3kEntryloG) &&
      e.hi &&& r2k3kEntryhiVpnMask == cop0.entryhi &&& r2k3kEntryhiVpnMask
  else
    let xmask :=
      if t.mmuModel = .mmu10k then entryhiRMask ||| entryhiVpn2MaskR10k
      else if t.r4100 then entryhiRMask ||| entryhiVpn2Mask ||| 0x1800#64
      else entryhiRMask ||| entryhiVpn2Mask
    let gbit := if t.r4100 then anyBit e.lo0 entryloG && anyBit e.lo1 entryloG else anyBit e.hi tlbG
    (e.hi &&& entryhiAsid == cop0.entryhi &&& entryhiAsid || gbit) &&
      (cop0.entryhi &&& xmask &&& ~~~ e.mask) == (e.hi &&& xmask &&& ~~~ e.mask)

/-- `coproc_tlbpr()` without `readflag`. -/
def coprocTlbp (s : MipsCpu) : MipsCpu :=
  let cop0 := s.mmu.cop0
  let index : Reg :=
    match (List.range t.nrOfTlbEntries).find? (fun i => probeHits t cop0 (s.mmu.tlbs i)) with
    | none => indexP
    | some i => if t.mmuModel = .mmu3k then BitVec.ofNat 64 i <<< r2k3kIndexShift else BitVec.ofNat 64 i
  let index :=
    if index >>> 32 = 0 ∧ anyBit index 0x80000000#64 = true then index ||| 0xffffffff00000000#64 else index
  s.setCop0 { cop0 with index := index }

/-! ## tlbwi and tlbwr -/

/-- The index that is written, and RANDOM. `random` is what random() returns. -/
def tlbwIndex (cop0 : Cop0) (randomflag : Bool) (random : Reg) : Except Exit (Nat × Cop0) :=
  if randomflag then
    if t.exc3k then
      let r := ((cop0.random &&& r2k3kRandomMask) >>> r2k3kRandomShift).toNat
      -- "R3000 always has 8 wired entries"
      let index := if r < 9 then t.nrOfTlbEntries - 1 else r - 1
      .ok (index, { cop0 with random := BitVec.ofNat 64 index <<< r2k3kRandomShift })
    else
      let range := BitVec.ofNat 64 t.nrOfTlbEntries - cop0.wired
      if range = 0 then .error .divisionByZero
      else
        let random := cop0.wired + random % range
        .ok ((random &&& randomMask).toNat, { cop0 with random })
  else .ok (tlbIndex t cop0, cop0)

def newEntry (cop0 : Cop0) (old : MipsTlb) : MipsTlb :=
  if t.mmuModel = .mmu3k then { old with hi := cop0.entryhi, lo0 := cop0.entrylo0 }
  else if t.r4100 then
    { hi := cop0.entryhi &&& ~~~ cop0.pagemask, lo0 := cop0.entrylo0, lo1 := cop0.entrylo1, mask := cop0.pagemask }
  else
    { hi := (cop0.entryhi &&& ~~~ tlbG) ||| (if anyBit (cop0.entrylo0 &&& cop0.entrylo1) entryloG then tlbG else 0)
      lo0 := cop0.entrylo0 &&& ~~~ entryloG
      lo1 := cop0.entrylo1 &&& ~~~ entryloG
      mask := cop0.pagemask }

def setEntry (s : MipsCpu) (index : Nat) (e : MipsTlb) : MipsCpu :=
  { s with mmu := { s.mmu with tlbs := Function.update s.mmu.tlbs index e } }

/-- `cpu->cd.mips.last_written_tlb_index = index`. -/
def setHint (s : MipsCpu) (index : Nat) : MipsCpu := { s with mmu := { s.mmu with lastWrittenTlbIndex := index } }

/-- "If we have a memblock (host page) for the physical page, then add a translation
for it immediately". -/
def addTranslation (s : MipsCpu) (host : Addr → Option Nat) (vaddr paddr : Addr) (wf : Nat) : Except Exit MipsCpu :=
  match host paddr with
  | some memblock => s.tableOps t cacheSize [.update vaddr memblock wf paddr]
  | none => .ok s

/-- tlbwi and tlbwr on an R3000, from the writing of the entry on. -/
def writeEntry3k (s : MipsCpu) (host : Addr → Option Nat) (index : Nat) : Except Exit MipsCpu := do
  let cop0 := s.mmu.cop0
  let wf := anyBit cop0.entrylo0 r2k3kEntryloD
  let s := s.setEntry index (newEntry t cop0 (s.mmu.tlbs index))
  let vaddr := cop0.entryhi &&& r2k3kEntryhiVpnMask
  let paddr := cop0.entrylo0 &&& r2k3kEntryloPfnMask
  let s ← s.tableOps t cacheSize (if wf then [.invalidateCode paddr invalidatePaddr] else [])
  let s := s.setHint index
  if anyBit cop0.status mips1IsolCaches then throw .tlbWriteWhileIsolated
  if anyBit cop0.entrylo0 r2k3kEntryloV then
    s.addTranslation t cacheSize host vaddr paddr (if wf then 1 else 0)
  else return s

def entryPaddr (lo : Reg) : Addr := ((lo &&& entryloPfnMask) >>> entryloPfnShift) <<< (if t.r4100 then 10 else 12)

def codeOps (paddr psize lo : Reg) : List TableOp :=
  if anyBit lo entryloD then (pageAddresses paddr psize).map (.invalidateCode · invalidatePaddr) else []

/-- "R4000, R10000, VR41xx etc.". -/
def writeEntry4k (s : MipsCpu) (host : Addr → Option Nat) (index : Nat) : Except Exit MipsCpu := do
  let cop0 := s.mmu.cop0
  let s := s.setEntry index (newEntry t cop0 (s.mmu.tlbs index))
  if hasOneKbPages t cop0.pagemask cop0.entrylo0 cop0.entrylo1 then throw .oneKbPages
  let dpmask := t.dpmask cop0.pagemask
  let mask := dpmask >>> 1
  let psize := mask + 1
  let paddr0 := entryPaddr t cop0.entrylo0 &&& ~~~ mask
  let paddr1 := entryPaddr t cop0.entrylo1 &&& ~~~ mask
  let vaddr0 := t.hiVaddr cop0.entryhi &&& ~~~ dpmask
  let vaddr1 := vaddr0 ||| psize
  let s ← s.tableOps t cacheSize (codeOps paddr0 psize cop0.entrylo0)
  let s ← s.tableOps t cacheSize (codeOps paddr1 psize cop0.entrylo1)
  let s ← if psize = 0x1000#64 ∧ anyBit cop0.entrylo0 entryloV = true then
      s.addTranslation t cacheSize host vaddr0 paddr0 (cop0.entrylo0 &&& entryloD).toNat
    else pure s
  let s ← if psize = 0x1000#64 ∧ anyBit cop0.entrylo1 entryloV = true then
      s.addTranslation t cacheSize host vaddr1 paddr1 (cop0.entrylo1 &&& entryloD).toNat
    else pure s
  return s.setHint index

/-- `coproc_tlbwri()`. An index that is too high is ignored. -/
def coprocTlbwri (s : MipsCpu) (host : Addr → Option Nat) (randomflag : Bool) (random : Reg) : Except Exit MipsCpu := do
  let (index, cop0) ← tlbwIndex t s.mmu.cop0 randomflag random
  let s := s.setCop0 cop0
  let old := s.mmu.tlbs index
  if t.nrOfTlbEntries ≤ index then return s
  if t.mmuModel ≠ .mmu3k ∧ hasOneKbPages t old.mask old.lo0 old.lo1 = true then throw .oneKbPages
  let s ← s.invalidatePages t cacheSize (oldEntryPages t cop0.entryhi old)
  if t.mmuModel = .mmu3k then s.writeEntry3k t cacheSize host index
  else s.writeEntry4k t cacheSize host index

end MipsCpu

end Gxemul.Mips
