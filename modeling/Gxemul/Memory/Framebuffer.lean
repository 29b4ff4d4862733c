import Gxemul.Dyntrans.Consistency
import Gxemul.Dyntrans.WriteProtect
import Gxemul.Memory.Devices
import Gxemul.Memory.MemoryRw

/- Which part of a frame buffer has been written to.

   A device with DM_DYNTRANS_WRITE_OK is written without calling its handler.
   memory_rw() widens the device's range of written offsets when it makes a page
   writable, and memory_device_dyntrans_access() returns the range, empties it
   and makes the pages in it non-writable again. It does so in the tables of the
   CPU that it is given, and of no other. -/
namespace Gxemul

namespace Memory

/-- The device that memory_device_dyntrans_access() works on. -/
def dyntransDevice (mem : Memory) (extra : Nat) : Option Nat :=
  (List.range mem.nMmappedDevices).find? fun i =>
    (mem.devices i).extra == extra && hasFlag (mem.devices i).flags dmDyntransWriteOk &&
      (mem.devices i).dyntransData != 0

/-- What it returns in `low` and `high`. -/
def dyntransRange (mem : Memory) (extra : Nat) : Option (Addr × Addr) :=
  (mem.dyntransDevice extra).map fun i => ((mem.devices i).dyntransWriteLow, (mem.devices i).dyntransWriteHigh)

/-- What it leaves in `struct memory`. -/
def resetRange (mem : Memory) (i : Nat) : Memory :=
  let d := { mem.devices i with dyntransWriteLow := 0xffffffffffffffff#64, dyntransWriteHigh := 0 }
  { mem with devices := Function.update mem.devices i d }

end Memory

/-- `for (s = *low; s <= *high; s += cpu->machine->arch_pagesize)`. -/
def dirtyPages (a : Arch) (low high : Addr) : List Addr :=
  if low ≤ high then
    (List.range ((high.toNat - low.toNat) / 2 ^ a.pageShift + 1)).map fun i => low + BitVec.ofNat 64 (i * 2 ^ a.pageShift)
  else []

/-- "Invalidate any pages of this device that might be in the dyntrans load/store
cache, by marking the pages read-only." -/
def Cpu.markReadOnly (conf : Conf) (c : Cpu) (baseaddr : Addr) (pages : List Addr) : Except Exit Cpu :=
  pages.foldlM (fun c s => c.invalidateTranslationCaches conf (baseaddr + s) (justMarkAsNonWritable ||| invalidatePaddr)) c

/-- A machine with `N + 1` CPUs. `stored` has the offsets of the frame buffer
that were stored to since the last call of memory_device_dyntrans_access(). -/
structure Machine (N : Nat) where
  cpus : Fin (N + 1) → Cpu
  mem : Memory
  stored : List Addr

namespace Machine
variable {N : Nat} (conf : Conf) (fb : Nat)

/-- The tables of CPU `n` have changed. The counter that victims are drawn from
is shared by all CPUs. -/
def setCpu (m : Machine N) (n : Fin (N + 1)) (c : Cpu) : Machine N :=
  { m with cpus := fun j =>
      if j = n then c else { m.cpus j with tables := (m.cpus j).tables.setX c.tables.x } }

def footprint (m : Machine N) (paddr : Addr) (len : Nat) : List Addr :=
  if Memory.Contains (m.mem.devices fb) paddr then
    (List.range len).map fun j => paddr - (m.mem.devices fb).baseaddr + BitVec.ofNat 64 j
  else []

/-- A load or a store through memory_rw(). -/
def slowAccess (m : Machine N) (n : Fin (N + 1)) (env : Env) (a : Access) : Except Exit (Machine N) := do
  let (c, mem, _) ← (m.cpus n).memoryRw conf env a m.mem
  let written := if a.write then
      match env.physicalAddress a with
      | some (paddr, _) => m.footprint fb paddr a.len
      | none => []
    else []
  return { m.setCpu n c with mem, stored := written ++ m.stored }

def slotFor (m : Machine N) (n : Fin (N + 1)) (a : Access) : Slot := (m.cpus n).tables.slotOf conf.arch a.vaddr

/-- An access goes through memory_rw(). -/
def isSlow (m : Machine N) (n : Fin (N + 1)) (a : Access) : Bool :=
  if a.write then (m.slotFor conf n a).hostStore.isNone else (m.slotFor conf n a).hostLoad.isNone

/-- A load or a store of CPU `n`. -/
def access (m : Machine N) (n : Fin (N + 1)) (env : Env) (a : Access) : Except Exit (Machine N) :=
  if m.isSlow conf n a then m.slowAccess conf fb n env a
  else if a.write then
    .ok { m with stored := m.footprint fb ((m.slotFor conf n a).physAddr + (a.vaddr &&& conf.arch.offsetMask)) a.len
      ++ m.stored }
  else .ok m

/-- `memory_device_dyntrans_access()`, called with the first CPU. -/
def dyntransAccess (m : Machine N) (extra : Nat) : Except Exit (Machine N) :=
  match m.mem.dyntransDevice extra with
  | none => .ok { m with stored := [] }
  | some i =>
    let d := m.mem.devices i
    let m' := { m with mem := m.mem.resetRange i, stored := [] }
    if d.dyntransWriteLow = 0xffffffffffffffff#64 then .ok m'
    else do
      let c ← (m.cpus 0).markReadOnly conf d.baseaddr (dirtyPages conf.arch d.dyntransWriteLow d.dyntransWriteHigh)
      return { m'.setCpu 0 c with stored := [] }

end Machine

/-- What the CPUs do, and the call that asks what was written. A fetch is
pc_to_pointers() mapping a page, for reading. -/
inductive ScreenOp (N : Nat) where
  | access (n : Fin (N + 1)) (env : Env) (a : Access)
  | fetch (n : Fin (N + 1)) (vaddrPage : Addr) (hostPage : Nat) (paddrPage : Addr)
  | invalidate (n : Fin (N + 1)) (addr : Addr) (flags : Nat)
  | invalidateCode (n : Fin (N + 1)) (addr : Addr) (flags : Nat)
  | dyntransAccess

/-- The bytes that are stored at `paddr` are in its page. -/
def InPage (a : Arch) (paddr : Addr) (len : Nat) : Prop := paddr.toNat % 2 ^ a.pageShift + len ≤ 2 ^ a.pageShift

instance (a : Arch) (paddr : Addr) (len : Nat) : Decidable (InPage a paddr len) :=
  inferInstanceAs (Decidable (_ ≤ _))

def ScreenOp.WithinPages {N : Nat} (a : Arch) : ScreenOp N → Prop
  | .access _ env acc => InPage a acc.vaddr acc.len ∧
      ∀ paddr ok, env.physicalAddress acc = some (paddr, ok) → InPage a paddr acc.len
  | _ => True

namespace Machine
variable {N : Nat} (conf : Conf) (fb : Nat)

/-- CPU `n` calls one of the functions that change its tables. -/
def table (m : Machine N) (n : Fin (N + 1)) (o : TableOp) : Except Exit (Machine N) := do
  let c ← (m.cpus n).tableStep conf o
  return m.setCpu n c

def screenStep (m : Machine N) : ScreenOp N → Except Exit (Machine N)
  | .access n env a => m.access conf fb n env a
  | .fetch n v hostPage p => m.table conf n (.update v hostPage 0 p)
  | .invalidate n addr flags => m.table conf n (.invalidate addr flags)
  | .invalidateCode n addr flags => m.table conf n (.invalidateCode addr flags)
  | .dyntransAccess => m.dyntransAccess conf (m.mem.devices fb).extra

/-- Every offset that was stored to since the last call is in the range that the
next call returns. -/
def Covers (m : Machine N) : Prop :=
  ∀ o ∈ m.stored, ∃ low high, m.mem.dyntransRange (m.mem.devices fb).extra = some (low, high) ∧ low ≤ o ∧ o ≤ high

/-- What makes CPU `n` of the machine lose track of what is written: a store
that translate_v2p() allows for less than a page, a page that is re-pointed to
the frame buffer, and a call of memory_device_dyntrans_access() while another
CPU can write to the frame buffer. -/
def Loses (m : Machine N) : ScreenOp N → Prop
  | .access n env a => m.isSlow conf n a = true ∧
      ((a.write = true ∧ ∃ paddr ok, env.physicalAddress a = some (paddr, ok) ∧
        Memory.Contains (m.mem.devices fb) paddr ∧ hasFlag ok memoryNotFullPage = true) ∨
      (n = 0 ∧ ∃ o, Cpu.accessUpdate conf env a m.mem = some o ∧
        o.RepointsTo conf.arch (Memory.Contains (m.mem.devices fb)) (m.cpus n)))
  | .fetch n v hostPage p => n = 0 ∧
      (TableOp.update v hostPage 0 p).RepointsTo conf.arch (Memory.Contains (m.mem.devices fb)) (m.cpus n)
  | .dyntransAccess => ∃ n, n ≠ 0 ∧ ∃ k, (((m.cpus n).tables.flat conf.arch).slot k).hostStore ≠ none ∧
      Memory.Contains (m.mem.devices fb) (((m.cpus n).tables.flat conf.arch).slot k).physAddr
  | _ => False

end Machine

/-! ## The device -/

namespace Memory
variable {a : Arch} {mem mem' : Memory} {fb : Nat}

/-- A page-aligned device that can be written without its handler. Its pages are
asked for by its own `extra` pointer. -/
structure Framebuffer (a : Arch) (mem : Memory) (fb : Nat) : Prop where
  sorted : mem.Sorted
  lt : fb < mem.nMmappedDevices
  aligned : a.Aligned (mem.devices fb).baseaddr
  pages : (mem.devices fb).length.toNat % 2 ^ a.pageShift = 0
  endaddr : (mem.devices fb).endaddr.toNat = (mem.devices fb).baseaddr.toNat + (mem.devices fb).length.toNat
  dyntransOk : hasFlag (mem.devices fb).flags dmDyntransOk = true
  dyntransWriteOk : hasFlag (mem.devices fb).flags dmDyntransWriteOk = true
  own : mem.dyntransDevice (mem.devices fb).extra = some fb

def SameDevices (mem mem' : Memory) : Prop :=
  mem'.nMmappedDevices = mem.nMmappedDevices ∧
    ∀ j, mem'.devices j =
      { mem.devices j with
        dyntransWriteLow := (mem'.devices j).dyntransWriteLow
        dyntransWriteHigh := (mem'.devices j).dyntransWriteHigh }

theorem SameDevices.dyntransDevice (h : SameDevices mem mem') (extra : Nat) :
    mem'.dyntransDevice extra = mem.dyntransDevice extra := by
  obtain ⟨hn, hd⟩ := h
  unfold Memory.dyntransDevice
  rw [hn]
  congr
  funext j
  rw [hd j]

theorem Framebuffer.same (h : Framebuffer a mem fb) (hs : SameDevices mem mem') (hsorted : mem'.Sorted) :
    Framebuffer a mem' fb := by
  obtain ⟨hn, hd⟩ := hs
  have hfb := hd fb
  constructor
  · exact hsorted
  · rw [hn]
    exact h.lt
  · rw [hfb]
    exact h.aligned
  · rw [hfb]
    exact h.pages
  · rw [hfb]
    exact h.endaddr
  · rw [hfb]
    exact h.dyntransOk
  · rw [hfb]
    exact h.dyntransWriteOk
  · rw [hfb, SameDevices.dyntransDevice ⟨hn, hd⟩]
    exact h.own

theorem Framebuffer.contains_pageAddr (h : Framebuffer a mem fb) (p : Addr) :
    Contains (mem.devices fb) (a.pageAddr p) ↔ Contains (mem.devices fb) p := by
  have hal := (a.aligned_iff _).mp h.aligned
  have hpages := h.pages
  have hend := h.endaddr
  have hp := a.toNat_pageAddr p
  unfold Contains
  simp only [BitVec.le_def, BitVec.lt_def]
  rw [hend, hp]
  generalize (mem.devices fb).baseaddr.toNat = base at *
  generalize (mem.devices fb).length.toNat = length at *
  rcases a.pageSize_cases with hps | hps <;> rw [hps] at hal hpages ⊢ <;> omega

theorem Framebuffer.offset_page (h : Framebuffer a mem fb) {p : Addr} (hc : Contains (mem.devices fb) p) :
    (a.pageAddr p - (mem.devices fb).baseaddr).toNat / 2 ^ a.pageShift =
      (p - (mem.devices fb).baseaddr).toNat / 2 ^ a.pageShift := by
  have hal := (a.aligned_iff _).mp h.aligned
  have hc' := ((h.contains_pageAddr p).mpr hc).1
  have hp := a.toNat_pageAddr p
  have h1 : (a.pageAddr p - (mem.devices fb).baseaddr).toNat =
      (a.pageAddr p).toNat - (mem.devices fb).baseaddr.toNat := by bv_omega
  have h2 : (p - (mem.devices fb).baseaddr).toNat = p.toNat - (mem.devices fb).baseaddr.toNat := by
    have := hc.1
    bv_omega
  rw [h1, h2, hp]
  rw [BitVec.le_def, hp] at hc'
  rcases a.pageSize_cases with hps | hps <;> rw [hps] at hal hc' ⊢ <;> omega

end Memory

/-! ## The written range -/

/-- A range that has been widened to whole pages, or no range. -/
def WrittenRange (a : Arch) (d : MemoryDevice) : Prop :=
  (d.dyntransWriteLow = 0xffffffffffffffff#64 ∧ d.dyntransWriteHigh = 0) ∨
    (d.dyntransWriteLow.toNat % 2 ^ a.pageShift = 0 ∧
      d.dyntransWriteHigh.toNat % 2 ^ a.pageShift = 2 ^ a.pageShift - 1 ∧ d.dyntransWriteLow ≤ d.dyntransWriteHigh)

def Covered (d : MemoryDevice) (o : Addr) : Prop := d.dyntransWriteLow ≤ o ∧ o ≤ d.dyntransWriteHigh

section
variable {a : Arch} {d : MemoryDevice} {o o' : Addr}

theorem not_covered_of_empty (h : d.dyntransWriteLow = 0xffffffffffffffff#64) (hh : d.dyntransWriteHigh = 0) :
    ¬ Covered d o := by
  unfold Covered
  rw [h, hh]
  bv_omega

theorem WrittenRange.covered_page (h : WrittenRange a d) (hc : Covered d o)
    (ho : o.toNat / 2 ^ a.pageShift = o'.toNat / 2 ^ a.pageShift) : Covered d o' := by
  rcases h with ⟨hl, hh⟩ | ⟨hl, hh, -⟩
  · exact absurd hc (not_covered_of_empty hl hh)
  · unfold Covered at hc ⊢
    rw [BitVec.le_def, BitVec.le_def] at hc ⊢
    rcases a.pageSize_cases with hps | hps <;> rw [hps] at hl hh ho <;> omega

theorem WrittenRange.noteWrite (h : WrittenRange a d) (ho : o ≠ 0xffffffffffffffff#64) :
    WrittenRange a (Memory.noteWrite d o a.offsetMask) ∧ Covered (Memory.noteWrite d o a.offsetMask) o ∧
      ∀ o', Covered d o' → Covered (Memory.noteWrite d o a.offsetMask) o' := by
  have hlo : (o &&& ~~~ a.offsetMask).toNat = o.toNat / 2 ^ a.pageShift * 2 ^ a.pageShift := a.toNat_pageAddr o
  have hhi := a.toNat_or_offsetMask o
  unfold Memory.noteWrite Covered WrittenRange
  unfold WrittenRange at h
  generalize o &&& ~~~ a.offsetMask = lo at *
  generalize o ||| a.offsetMask = hi at *
  generalize d.dyntransWriteLow = low at *
  generalize d.dyntransWriteHigh = high at *
  rcases h with ⟨rfl, rfl⟩ | ⟨hl, hh, hle⟩
  · -- the first write since the range was emptied
    rw [if_pos (by bv_omega), if_pos (by bv_omega)]
    refine ⟨.inr ⟨?_, ?_, ?_⟩, ⟨?_, ?_⟩, fun o' ho' => absurd ho' (by bv_omega)⟩ <;>
      simp only [BitVec.le_def, hlo, hhi] <;> rcases a.pageSize_cases with hps | hps <;> rw [hps] <;> omega
  · have hlow : (if o < low then lo else low).toNat = if o.toNat < low.toNat then lo.toNat else low.toNat := by
      simp only [BitVec.lt_def]
      split <;> rfl
    have hhigh : (if high ≤ o then hi else high).toNat = if high.toNat ≤ o.toNat then hi.toNat else high.toNat := by
      simp only [BitVec.le_def]
      split <;> rfl
    generalize (if o < low then lo else low) = low' at *
    generalize (if high ≤ o then hi else high) = high' at *
    simp only [BitVec.le_def, hlo, hhi] at *
    rcases a.pageSize_cases with hps | hps <;> rw [hps] at hl hh hlow hhigh ⊢ <;>
      refine ⟨.inr ⟨?_, ?_, ?_⟩, ⟨?_, ?_⟩, fun o' ho' => ⟨?_, ?_⟩⟩ <;> split at hlow <;> split at hhigh <;> omega

end

/-! ## What an access does to the range -/

namespace Memory
variable {conf : Conf} {env : Env} {a : Access} {mem : Memory} {fb : Nat}

theorem noteAccess_sameDevices (mem : Memory) (i : Nat) (paddr offsetMask : Addr) (write fullPage : Bool) :
    SameDevices mem (mem.noteAccess i paddr offsetMask write fullPage) :=
  ⟨rfl, noteAccess_same mem i paddr offsetMask write fullPage⟩

theorem Framebuffer.accessMem (hf : Framebuffer conf.arch mem fb) :
    Framebuffer conf.arch (Cpu.accessMem conf env a mem) fb := by
  unfold Cpu.accessMem
  split
  · exact hf
  · split
    · rename_i i hi
      exact hf.same (noteAccess_sameDevices _ _ _ _ _ _)
        (hf.sorted.noteAccess (hf.sorted.contains_of_deviceFor hi).1 _ _ _)
    · exact hf

/-- An access to another device, or to none, leaves the frame buffer alone; one
to the frame buffer may note a write. -/
theorem Framebuffer.accessMem_cases (hf : Framebuffer conf.arch mem fb) :
    (Cpu.accessMem conf env a mem).devices fb = mem.devices fb ∧
      (∀ paddr ok, env.physicalAddress a = some (paddr, ok) → a.write = true → hasFlag ok memoryNotFullPage = false →
        ¬ Contains (mem.devices fb) paddr) ∨
    ∃ paddr ok, env.physicalAddress a = some (paddr, ok) ∧ Contains (mem.devices fb) paddr ∧
      (Cpu.accessMem conf env a mem).devices fb =
        noteWrite (mem.devices fb) (paddr - (mem.devices fb).baseaddr) conf.arch.offsetMask := by
  unfold Cpu.accessMem
  cases hp : env.physicalAddress a with
  | none => exact .inl ⟨rfl, fun _ _ h => by cases h⟩
  | some pok =>
    obtain ⟨paddr, ok⟩ := pok
    dsimp only
    cases hd : mem.deviceFor paddr with
    | none =>
      refine .inl ⟨rfl, ?_⟩
      rintro _ _ ⟨⟩ - - hc
      rw [hf.sorted.deviceFor_eq hf.lt hc] at hd
      cases hd
    | some i =>
      by_cases hi : i = fb
      · subst hi
        by_cases hw : a.write = true ∧ hasFlag ok memoryNotFullPage = false
        · right
          refine ⟨paddr, ok, rfl, (hf.sorted.contains_of_deviceFor hd).2, ?_⟩
          simp [noteAccess, hw.1, hw.2, hf.dyntransOk, hf.dyntransWriteOk]
        · left
          refine ⟨?_, fun _ _ h hwr hfull => by cases h; exact absurd ⟨hwr, hfull⟩ hw⟩
          unfold noteAccess
          dsimp only
          rw [if_neg]
          simp only [hf.dyntransOk, hf.dyntransWriteOk, Bool.and_true, Bool.and_eq_true, Bool.not_eq_true']
          exact fun h => hw ⟨h.2, h.1⟩
      · left
        refine ⟨?_, ?_⟩
        · unfold noteAccess
          dsimp only
          split
          · rw [Function.update_of_ne (Ne.symm hi)]
          · rfl
        · rintro _ _ ⟨⟩ - - hc
          rw [hf.sorted.deviceFor_eq hf.lt hc] at hd
          exact hi (Option.some.inj hd).symm

theorem Framebuffer.accessMem_range (hf : Framebuffer conf.arch mem fb)
    (hr : WrittenRange conf.arch (mem.devices fb)) :
    WrittenRange conf.arch ((Cpu.accessMem conf env a mem).devices fb) ∧
    (∀ o, Covered (mem.devices fb) o → Covered ((Cpu.accessMem conf env a mem).devices fb) o) ∧
    ∀ paddr ok, env.physicalAddress a = some (paddr, ok) → a.write = true → hasFlag ok memoryNotFullPage = false →
      Contains (mem.devices fb) paddr →
      Covered ((Cpu.accessMem conf env a mem).devices fb) (paddr - (mem.devices fb).baseaddr) := by
  rcases @accessMem_cases conf env a mem fb hf with ⟨hd, hno⟩ | ⟨paddr, ok, hp, hc, hd⟩
  · rw [hd]
    exact ⟨hr, fun _ h => h, fun paddr ok hp hw hfull hc => absurd hc (hno paddr ok hp hw hfull)⟩
  · have hlast : paddr - (mem.devices fb).baseaddr ≠ 0xffffffffffffffff#64 := by
      unfold Contains at hc
      bv_omega
    obtain ⟨hr', hself, hold⟩ := hr.noteWrite hlast
    rw [hd]
    refine ⟨hr', hold, fun paddr' ok' hp' _ _ _ => ?_⟩
    rw [hp] at hp'
    cases hp'
    exact hself

end Memory

end Gxemul
