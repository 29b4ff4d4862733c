import Gxemul.Memory.MemoryRw
import Gxemul.Memory.Data

/- Emulated RAM in the host (`memory_paddr_to_hostaddr()` in `src/core/memory.c`).

   RAM is a table of memblocks of 1 MB, which are allocated when they are first
   written to. A physical address has 40 bits here, so higher ones wrap around. -/
namespace Gxemul

/-- `mem->pagetable`: where the memblock of each entry is in the host, and where the
next one that is allocated will be. -/
structure Ram where
  table : BitVec 20 → Option Nat
  next : BitVec 20 → Nat

namespace Ram
variable (ram : Ram)

def entry (paddr : Addr) : BitVec 20 := (paddr >>> 20).setWidth 20

def offset (paddr : Addr) : Nat := (paddr &&& BitVec.ofNat 64 (memblockSize - 1)).toNat

def paddrToHostaddr (paddr : Addr) (write : Bool) : Option Nat :=
  match ram.table (entry paddr) with
  | some block => some (block + offset paddr)
  | none => if write then some (ram.next (entry paddr) + offset paddr) else none

/-- memory_rw() asks for host pages of this RAM. -/
def env (env : Env) : Env :=
  { env with
    hostRead := fun paddr => ram.paddrToHostaddr paddr false
    hostWrite := fun paddr => (ram.paddrToHostaddr paddr true).getD 0 }

variable {ram}

end Ram

end Gxemul

/- The page of the host that a virtual page is loaded from and stored to, as long as
   all accesses to it find the same page. -/
namespace Gxemul

/-- If a slot points to a page of the host, it is the page `h`. -/
def Slot.PointsTo (s : Slot) (h : Nat) : Prop :=
  (∀ p, s.hostLoad = some p → p = h) ∧ ∀ p, s.hostStore = some p → p = h

namespace Slot
variable {s s' : Slot} {h : Nat}

theorem PointsTo.shrinks (hp : s.PointsTo h) (hsh : s.Shrinks s') : s'.PointsTo h := by
  obtain ⟨hload, hstore⟩ := hp
  rcases hsh with rfl | ⟨-, hl, -, hs, -⟩
  · exact ⟨nofun, nofun⟩
  · refine ⟨fun p hp => hload p (hl ▸ hp), fun p hp => ?_⟩
    rcases hs with hs | hs
    · exact hstore p (hs ▸ hp)
    · rw [hs] at hp
      cases hp

/-- An update of the page to the same page of the host. When it is to another physical page, nothing is left of the
pointers from before. -/
theorem PointsTo.updated {paddrPage : Addr} (hp : s.physAddr = paddrPage → s.PointsTo h) (mode : Mode) (w : Nat) :
    (Vph.updatedSlot mode s h w paddrPage).PointsTo h := by
  have hbase : ∀ t : Slot, (t.physAddr = paddrPage → t.PointsTo h) → (if t.physAddr = paddrPage then
      let t := if hasFlag w memWrite then { t with hostStore := some h } else t
      if hasFlag w memDowngrade then { t with hostStore := none } else t
    else
      { t with
        hostLoad := some h
        hostStore := if w ≠ 0 then some h else none
        physAddr := paddrPage }).PointsTo h := by
    intro t ht
    split
    next hsame =>
      have hwrite : (if hasFlag w memWrite then { t with hostStore := some h } else t).PointsTo h := by
        split
        · exact ⟨(ht hsame).1, fun p hp => (Option.some.inj hp).symm⟩
        · exact ht hsame
      generalize (if hasFlag w memWrite then { t with hostStore := some h } else t) = u at hwrite
      split
      · exact ⟨hwrite.1, fun p hp => by cases hp⟩
      · exact hwrite
    next =>
      refine ⟨fun p hp => (Option.some.inj hp).symm, fun p hp => ?_⟩
      split at hp
      · exact (Option.some.inj hp).symm
      · cases hp
  cases mode with
  | mode32 => exact hbase _ hp
  | mode64 => exact hbase _ hp

end Slot

namespace Cpu
variable {conf : Conf} {c c' : Cpu} {v : Addr} {h : Nat}

theorem pointsTo_tableStep (hg : c.tables.Good conf.arch) {o : TableOp}
    (hp : (c.tables.slotOf conf.arch v).PointsTo h)
    (ho : ∀ u hostPage w p, o = .update u hostPage w p →
      conf.arch.addrToPagenr c.tables.mode v = conf.arch.addrToPagenr c.tables.mode u → hostPage = h)
    (hs : c.tableStep conf o = .ok c') : (c'.tables.slotOf conf.arch v).PointsTo h := by
  obtain ⟨-, hm, ⟨u, hostPage, w, p, rfl, -, hfl⟩ | hsh⟩ := tableStep_cases hg hs
  · rw [Tables.slotOf_eq] at hp ⊢
    rw [hm, hfl]
    by_cases hig : Vph.Ignored conf.arch w
    · rw [Vph.updated_of_ignored _ _ _ _ hig]
      exact hp
    · by_cases hk : conf.arch.addrToPagenr c.tables.mode v = conf.arch.addrToPagenr c.tables.mode u
      · obtain rfl := ho u hostPage w p rfl hk
        rw [hk] at hp ⊢
        rw [Vph.updated_slot_self _ _ _ _ _ hig]
        split
        · refine ⟨fun q hq => (Option.some.inj hq).symm, fun q hq => ?_⟩
          unfold Vph.insertedSlot at hq
          split at hq
          · exact (Option.some.inj hq).symm
          · cases hq
        · exact Slot.PointsTo.updated (fun _ => hp) _ _
      · exact hp.shrinks (Vph.updated_slot_other _ _ _ _ _ _ hk)
  · rw [Tables.slotOf_eq] at hp ⊢
    rw [hm]
    exact hp.shrinks (hsh.slot _)

theorem pointsTo_memoryRw (hg : c.tables.Good conf.arch) (hp : (c.tables.slotOf conf.arch v).PointsTo h) {env : Env}
    {a : Access} {mem mem' : Memory} {r : Bool}
    (ha : ∀ u hostPage w p, accessUpdate conf env a mem = some (.update u hostPage w p) →
      conf.arch.addrToPagenr c.tables.mode v = conf.arch.addrToPagenr c.tables.mode u → hostPage = h)
    (hok : c.memoryRw conf env a mem = .ok (c', mem', r)) : (c'.tables.slotOf conf.arch v).PointsTo h := by
  obtain ⟨c1, h1, h2⟩ := memoryRw_steps hok
  -- the update comes first, and the second call only invalidates
  have hfirst : c1.tables.Good conf.arch ∧ (c1.tables.slotOf conf.arch v).PointsTo h := by
    rcases runOps_toList h1 with ⟨-, rfl⟩ | ⟨op, hop, hs⟩
    · exact ⟨hg, hp⟩
    · refine ⟨(tableStep_cases hg hs).1, pointsTo_tableStep hg hp (fun u hostPage w p heq => ?_) hs⟩
      exact ha u hostPage w p (hop.trans (congrArg some heq))
  rcases runOps_toList h2 with ⟨-, rfl⟩ | ⟨op, hop, hs⟩
  · exact hfirst.2
  · obtain ⟨paddr, ok, -, rfl⟩ := accessInvalidation_eq hop
    exact pointsTo_tableStep hfirst.1 hfirst.2 (fun u hostPage w p heq => by cases heq) hs

theorem loaded_memoryRw (hg : c.tables.Good conf.arch) {env : Env} {a : Access} {mem mem' : Memory} {r : Bool} {u p : Addr}
    {hostPage w : Nat} (hu : accessUpdate conf env a mem = some (.update u hostPage w p))
    (hv : conf.arch.addrToPagenr c.tables.mode v = conf.arch.addrToPagenr c.tables.mode u)
    (hig : ¬ Vph.Ignored conf.arch w) (hok : c.memoryRw conf env a mem = .ok (c', mem', r)) :
    (c'.tables.slotOf conf.arch v).hostLoad ≠ none := by
  obtain ⟨c1, h1, h2⟩ := memoryRw_steps hok
  have hstep := Lib.runOps_singleton.mp (show Lib.runOps (tableStep conf) [.update u hostPage w p] c = .ok c1 by
    rw [← h1, hu]
    rfl)
  obtain ⟨c2, hs, hg1, hm1, hfl⟩ := tableStep_spec hg (legal_of_ok hstep)
  cases hstep.symm.trans hs
  have hload : ((c1.tables.flat conf.arch).slot (conf.arch.addrToPagenr c.tables.mode v)).hostLoad ≠ none := by
    rw [show c1.tables.flat conf.arch = _ from hfl, hv]
    exact Vph.updated_loaded hg.2.1 u hostPage p hig
  rw [Tables.slotOf_eq]
  rcases runOps_toList h2 with ⟨-, rfl⟩ | ⟨op, hop, hs2⟩
  · rw [hm1]
    exact hload
  · obtain ⟨paddr, ok, -, rfl⟩ := accessInvalidation_eq hop
    obtain ⟨c3, hs3, hg3, hm3, hfl3⟩ := tableStep_spec hg1 (legal_of_ok hs2)
    cases hs2.symm.trans hs3
    rw [hm3, hm1]
    -- translations are dropped, the page stays
    rcases hfl3 with hfl3 | hfl3
    · rw [hfl3]
      exact hload
    · rw [hfl3, (Vph.invalidateCodeEntries_spec hg1.2.1 _ _).2.2.2]
      split
      · exact hload
      · exact hload

end Cpu

end Gxemul
