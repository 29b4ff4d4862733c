import Gxemul.Alpha.Reservations
import Gxemul.Ppc.Llsc

/- Reservations and lost updates. On PowerPC a conditional store compares its address
   with `ll_addr`, and reservations do all that they are for. On Alpha nothing compares
   the line of a store conditional with `load_linked_addr`, so that a reservation of one
   line lets a store to another line succeed. -/
namespace Gxemul.Smp

open Lib
open Alpha (AlphaMachine)
open Ppc (PpcMachine)

section
variable {conf : Conf} {big : Bool} {p n : Nat} {ppc : PpcMachine} {ppcOps : List Ppc.LlscOp}
  {ls : Alpha.LsConf} {q k : Nat} {alpha : AlphaMachine} {alphaOps : List Alpha.LlscOp}

/-- No updates are lost on PowerPC, and on Alpha exactly if every store conditional that a CPU performs is to the
line of its reservation. -/
theorem lostUpdates_none_iff (hppc : (PpcMachine.llscMachine conf big p n).NoReservations ppc)
    (hppcLegal : Along (PpcMachine.llscMachine conf big p n).observe (fun s o => PpcMachine.Legal s.state o) ppcOps
      (Llsc.start ppc))
    (halpha : (AlphaMachine.llscMachine ls q k).NoReservations alpha)
    (halphaLegal : Along (AlphaMachine.llscMachine ls q k).observe (fun s o => AlphaMachine.Legal s.state o) alphaOps
      (Llsc.start alpha)) :
    (Llsc.NoLostUpdates (PpcMachine.llscMachine conf big p n) (PpcMachine.incr n) (PpcMachine.Reports conf)
        (PpcMachine.Disciplined conf big p n) ppcOps ppc ∧
      Llsc.NoLostUpdates (AlphaMachine.llscMachine ls q k) (AlphaMachine.incr k) (AlphaMachine.Reports ls)
        (AlphaMachine.Disciplined ls q k) alphaOps alpha) ↔
      Along (AlphaMachine.llscMachine ls q k).observe (fun s o => s.state.SameLine ls o) alphaOps (Llsc.start alpha) := by
  have hppcKept := PpcMachine.noLostUpdates hppc hppcLegal
  have halphaIff := AlphaMachine.noLostUpdates_iff halpha halphaLegal
  constructor
  · intro h
    exact halphaIff.mp h.2
  · intro h
    exact ⟨hppcKept, halphaIff.mpr h⟩

end

/-! A PowerPC CPU executes `lwarx 1,0,0` and `stwcx. 2,0,0`, and an Alpha CPU `ldl_l $1,0($3)` and `stl_c $2` to an
offset from the same register. All registers are zero at first. -/

def conf32 : Conf := ⟨.ppc, BitVec.allOnes 64, 65536⟩

def ppcMachine : PpcMachine where
  cpus _ := Ppc.PpcCpu.zero true false
  dyn _ := Cpu.start .mode32 0 Tc.init
  ncpus := 1
  mem := Memory.init
  host _ := 0

def ppcIo : Ppc.Io :=
  ⟨{ Env.r4000 0 with memMips := false },
    ⟨fun _ _ _ _ host data => (host, data), fun _ _ _ host data => (host, data)⟩⟩

def ppcPair : List Ppc.LlscOp := [.llsc 0 0x7c200028#32 ppcIo true, .llsc 0 0x7c40012d#32 ppcIo true]

def ldlL (offset : BitVec 32) : Alpha.LlscOp :=
  .ls 0 ⟨.l, true, true, false, false⟩ ⟨.r 1#5, .r 3#5, offset⟩ AlphaMachine.ramIo true

def stlC (offset : BitVec 32) : Alpha.LlscOp :=
  .ls 0 ⟨.l, false, true, false, false⟩ ⟨.r 2#5, .r 3#5, offset⟩ AlphaMachine.ramIo true

abbrev ppcCounter := PpcMachine.llscMachine conf32 true 0 4

abbrev alphaCounter := AlphaMachine.llscMachine AlphaMachine.lsConf 0x8000 4

theorem noReservations_ppcMachine : ppcCounter.NoReservations ppcMachine :=
  fun _ => if_neg fun h => Bool.false_ne_true h.2

theorem noReservations_paged : alphaCounter.NoReservations AlphaMachine.paged :=
  fun _ => if_neg fun h => Bool.false_ne_true h.2

theorem legal_ppcPair : Along ppcCounter.observe
    (fun s o => PpcMachine.Legal s.state o) ppcPair (Llsc.start ppcMachine) := by
  refine ⟨Nat.one_pos, fun s hs => ⟨?_, fun _ _ => trivial⟩⟩
  obtain ⟨s', hs', hn⟩ := eval_eq_ok (ppcCounter.observe (Llsc.start ppcMachine)
    (.llsc 0 0x7c200028#32 ppcIo true)) (fun s : Observed PpcMachine Nat Addr Nat => s.state.ncpus) 1 (by decide +kernel)
  rw [hs'] at hs
  obtain rfl := Except.ok.inj hs
  show 0 < s'.state.ncpus
  exact hn ▸ Nat.one_pos

theorem observe_ldlL : ∃ s, alphaCounter.observe (Llsc.start AlphaMachine.paged) (ldlL 0) = .ok s ∧
    s.state.ncpus = 1 ∧ (s.state.cpus 0).loadLinkedAddr = 0#64 ∧ (s.state.cpus 0).llFlag = true ∧
      (s.state.cpus 0).reg (.r 3#5) = 0#64 := by
  obtain ⟨s, hs, hread⟩ := eval_eq_ok (alphaCounter.observe (Llsc.start AlphaMachine.paged) (ldlL 0))
    (fun s : Observed AlphaMachine Nat Addr Nat => (s.state.ncpus, (s.state.cpus 0).loadLinkedAddr,
      (s.state.cpus 0).llFlag, (s.state.cpus 0).reg (.r 3#5))) (1, 0#64, true, 0#64) (by decide +kernel)
  simp only [Prod.mk.injEq] at hread
  exact ⟨s, hs, hread⟩

theorem legal_pair (offset : BitVec 32) : Along alphaCounter.observe
    (fun s o => AlphaMachine.Legal s.state o) [ldlL 0, stlC offset] (Llsc.start AlphaMachine.paged) := by
  refine ⟨Nat.one_pos, fun s hs => ⟨?_, fun _ _ => trivial⟩⟩
  obtain ⟨s', hs', hn, -⟩ := observe_ldlL
  rw [hs'] at hs
  obtain rfl := Except.ok.inj hs
  show 0 < s'.state.ncpus
  exact hn ▸ Nat.one_pos

/-- Both pairs use one location. -/
theorem lostUpdates_none : Llsc.NoLostUpdates ppcCounter (PpcMachine.incr 4)
      (PpcMachine.Reports conf32) (PpcMachine.Disciplined conf32 true 0 4) ppcPair ppcMachine ∧
    Llsc.NoLostUpdates alphaCounter (AlphaMachine.incr 4)
      (AlphaMachine.Reports AlphaMachine.lsConf) (AlphaMachine.Disciplined AlphaMachine.lsConf 0x8000 4)
      [ldlL 0, stlC 4] AlphaMachine.paged := by
  refine (lostUpdates_none_iff noReservations_ppcMachine legal_ppcPair noReservations_paged (legal_pair 4)).mpr ?_
  refine ⟨fun _ hload => absurd hload (by decide), fun s hs => ⟨fun _ _ _ _ => ?_, fun _ _ => trivial⟩⟩
  obtain ⟨s', hs', -, haddr, -, hreg⟩ := observe_ldlL
  rw [hs'] at hs
  obtain rfl := Except.ok.inj hs
  show (s'.state.cpus 0).loadLinkedAddr = (AlphaMachine.alignedAddr _ ((s'.state.cpus 0).reg (.r 3#5) + 4#64)) &&& ~~~ 63#64
  rw [haddr, hreg]
  decide

/-- The store conditional is to the next line. It succeeds, and the bytes of that line change. -/
theorem lostUpdates_otherLine : alphaCounter.NoReservations AlphaMachine.paged ∧
    Along alphaCounter.observe (fun s o => AlphaMachine.Legal s.state o)
      [ldlL 0, stlC 64] (Llsc.start AlphaMachine.paged) ∧
    (∃ s, Lib.runOps alphaCounter.observe [ldlL 0, stlC 64]
      (Llsc.start AlphaMachine.paged) = .ok s ∧ (s.state.cpus 0).reg (.r 2#5) = 1#64) ∧
    ¬ Llsc.NoLostUpdates alphaCounter (AlphaMachine.incr 4)
      (AlphaMachine.Reports AlphaMachine.lsConf) (AlphaMachine.Disciplined AlphaMachine.lsConf 0x8000 4)
      [ldlL 0, stlC 64] AlphaMachine.paged := by
  have hrun := runOps_eval alphaCounter.observe [ldlL 0, stlC 64]
    (Llsc.start AlphaMachine.paged) (fun s : Observed AlphaMachine Nat Addr Nat => (s.state.cpus 0).reg (.r 2#5)) 1#64 (by decide +kernel)
  refine ⟨noReservations_paged, legal_pair 64, hrun, fun h => ?_⟩
  obtain ⟨s1, hs1, -, -, hflag, hreg⟩ := observe_ldlL
  obtain ⟨s2, hs2, -⟩ := hrun
  simp only [Lib.runOps, hs1] at hs2
  cases hs3 : alphaCounter.observe s1 (stlC 64) with
  | error e =>
    rw [hs3] at hs2
    cases hs2
  | ok s3 =>
    have hevents : s1.events = [.reserve 0 0#64] := (Llsc.observe_ok hs1).2.1
    have hstore : alphaCounter.event s1.state (stlC 64) = .store 0 64#64 true := by
      show Lib.Event.store 0 (AlphaMachine.line _ _ 0 s1.state) (s1.state.cpus 0).llFlag = _
      rw [hflag]
      unfold AlphaMachine.line AlphaMachine.addr AlphaMachine.lookupAddr
      rw [hreg]
      rfl
    have hreserved := (h.sameLocation.2 s1 hs1).1 0 64#64 s3.state (Llsc.observe_ok hs3).1 hstore
    rw [hevents] at hreserved
    exact absurd (hreserved.unique (Reserved.same 0 0#64 [])) (by decide)

end Gxemul.Smp
