import Gxemul.Lib.Reservation
import Gxemul.Memory.Data
import Gxemul.Ppc.Alu

/- PowerPC reservations: X(llsc) in `src/cpus/cpu_ppc_instr.c`, on a machine with
   several CPUs.

   What ppc_translate_v2p() and the rest of the emulator answer to memory_rw() is
   given with each instruction. No other function reads or writes `ll_bit` and
   `ll_addr`, so all other instructions, devices and interrupts are any change of the
   machine that leaves them alone. -/
namespace Gxemul.Ppc

open Lib

def ppc31Lwarx : BitVec 32 := 20#32
def ppc31Ldarx : BitVec 32 := 84#32
def ppc31StdcxDot : BitVec 32 := 214#32

structure PpcMachine where
  cpus : Nat → PpcCpu
  dyn : Nat → Cpu
  ncpus : Nat
  mem : Memory
  host : ByteMem

structure Io where
  env : Env
  dev : DataEnv

/-! ## The instruction word -/

section
variable (iw : BitVec 32)

def llscXo : BitVec 32 := (iw >>> 1) &&& 1023#32
def llscRc : BitVec 32 := iw &&& 1#32
def llscRt : BitVec 5 := iw.extractLsb' 21 5
def llscRa : BitVec 5 := iw.extractLsb' 16 5
def llscRb : BitVec 5 := iw.extractLsb' 11 5

/-- `load`. -/
def llscLoad : Bool := llscXo iw == ppc31Ldarx || llscXo iw == ppc31Lwarx

/-- `len`. -/
def llscLen : Nat := if llscXo iw = ppc31Ldarx ∨ llscXo iw = ppc31StdcxDot then 8 else 4

end

namespace PpcCpu
variable (c : PpcCpu) (iw : BitVec 32)

/-- `addr`. -/
def llscAddr : Reg := (if llscRa iw ≠ 0#5 then c.gpr (llscRa iw) else 0#64) + c.gpr (llscRb iw)

def llscHit : Bool := c.llBit && c.llAddr == c.llscAddr iw

/-- `cr` after a conditional store: "If the store is performed, bits 0-2 of Condition Register Field 0
are set to 0b001, otherwise, they are set to 0b000." -/
def storeCr (success : Bool) : BitVec 32 :=
  (c.cr &&& 0x0fffffff#32) ||| (if success then 0x20000000#32 else 0#32) |||
    (if (c.spr sprXer).setWidth 32 &&& ppcXerSo.setWidth 32 ≠ 0#32 then 0x10000000#32 else 0#32)

def crEq : Bool := c.cr.getLsbD 29

end PpcCpu

namespace PpcMachine
variable (conf : Conf) (io : Io) (i : Nat) (m : PpcMachine)

def setCpu (c : PpcCpu) : PpcMachine := { m with cpus := Function.update m.cpus i c }

def memoryRw (a : Access) (data : List Byte) : Except Exit (PpcMachine × List Byte × Bool) := do
  let (dyn, mem, ok) ← (m.dyn i).memoryRw conf io.env a m.mem
  let copied := Cpu.transfer conf io.env io.dev a m.mem m.host data
  return ({ m with dyn := Function.update m.dyn i dyn, mem, host := copied.1 }, copied.2, ok)

/-- "Clear _all_ CPUs' ll_bits". -/
def clearBits : PpcMachine :=
  { m with cpus := fun j => if j < m.ncpus then { m.cpus j with llBit := false } else m.cpus j }

def llscAccess (iw : BitVec 32) : Access := ⟨(m.cpus i).llscAddr iw, llscLen iw, !llscLoad iw, cacheData⟩

/-- `X(llsc)`. Its loops over the bytes are those of memory_readmax64() and memory_writemax64(). -/
def llsc (iw : BitVec 32) : Except Exit PpcMachine :=
  let c := m.cpus i
  if llscLoad iw then
    if llscRc iw ≠ 0#32 then .error .llRcBit
    else do
      let (m, d, ok) ← m.memoryRw conf io i (m.llscAccess i iw) (List.replicate (llscLen iw) 0#8)
      if !ok then throw .loadStoreFailed
      let value := memoryReadmax64 c.bigEndian d
      return m.setCpu i { m.cpus i with
        gpr := Function.update (m.cpus i).gpr (llscRt iw) value, llAddr := c.llscAddr iw, llBit := true }
  else if llscRc iw = 0#32 then .error .scRcBit
  else if !c.llscHit iw then .ok (m.setCpu i { c with cr := c.storeCr false, llBit := false })
  else do
    let d := memoryWritemax64 c.bigEndian (llscLen iw) (c.gpr (llscRt iw))
    let (m, _, ok) ← m.memoryRw conf io i (m.llscAccess i iw) d
    if !ok then throw .loadStoreFailed
    return (m.setCpu i { m.cpus i with cr := (m.cpus i).storeCr true }).clearBits

structure SameReservations (m m' : PpcMachine) : Prop where
  ncpus : m'.ncpus = m.ncpus
  llBit : ∀ j, (m'.cpus j).llBit = (m.cpus j).llBit
  llAddr : ∀ j, (m'.cpus j).llAddr = (m.cpus j).llAddr

end PpcMachine

/-! ## Runs -/

/-- What happens on a machine: CPU `i` executes X(llsc), on the counter that is observed or elsewhere, or
anything else. -/
inductive LlscOp where
  | llsc (i : Nat) (iw : BitVec 32) (io : Io) (onCounter : Bool)
  | other (m' : PpcMachine)

namespace PpcMachine
variable (conf : Conf) (big : Bool) (p n : Nat)

def step (m : PpcMachine) : LlscOp → Except Exit PpcMachine
  | .llsc i iw io _ => m.llsc conf io i iw
  | .other m' => .ok m'

def event (m : PpcMachine) : LlscOp → Event Nat Addr
  | .llsc i iw _ _ =>
    if llscLoad iw then .reserve i ((m.cpus i).llscAddr iw)
    else .store i ((m.cpus i).llscAddr iw) ((m.cpus i).llscHit iw)
  | .other _ => .other

def held (m : PpcMachine) (j : Nat) : Option Addr :=
  if j < m.ncpus ∧ (m.cpus j).llBit = true then some (m.cpus j).llAddr else none

/-- What the register of an instruction has of a counter of `n` bytes. -/
def register (m : PpcMachine) : LlscOp → Nat
  | .llsc i iw _ _ => ((m.cpus i).gpr (llscRt iw)).toNat % 256 ^ n
  | .other _ => 0

/-- PowerPC machines with a counter in the `n` bytes of host memory from `p` on. -/
def llscMachine : Llsc PpcMachine LlscOp Exit Nat Addr Nat where
  step := step conf
  event := event
  held := held
  onCounter o := match o with
    | .llsc _ _ _ onCounter => onCounter
    | .other _ => false
  loaded m o := m.register n o
  value m := Lib.value big (m.host.read p n)

def Legal (m : PpcMachine) : LlscOp → Prop
  | .llsc i _ _ _ => i < m.ncpus
  | .other m' => SameReservations m m'

/-- A conditional store that returns has set CR0.EQ when it succeeded, and when it failed it has changed no memory. -/
def Reports (m : PpcMachine) (o : LlscOp) : Prop :=
  ∀ i l success m', m.event o = .store i l success → m.step conf o = .ok m' →
    (m'.cpus i).crEq = success ∧ (success = false → m'.host = m.host ∧ m'.mem = m.mem)

def incr (v : Nat) : Nat := (v + 1) % 256 ^ n

/-- An instruction on the counter accesses its bytes, and a conditional store has the increment of what the
last load of its CPU has loaded. Everything else leaves the counter alone. -/
def Disciplined (s : Observed PpcMachine Nat Addr Nat) : LlscOp → Prop
  | .llsc i iw io true =>
    Cpu.Accesses conf io.env io.dev (s.state.llscAccess i iw) s.state.mem p ∧ llscLen iw = n ∧
      (s.state.cpus i).bigEndian = big ∧
      (llscLoad iw = false → ∃ v, s.seen i = some v ∧ s.state.register n (.llsc i iw io true) = incr n v)
  | o => ∀ m', s.state.step conf o = .ok m' → m'.host.read p n = s.state.host.read p n

section
variable {conf big p n} {io : Io} {i : Nat} {iw : BitVec 32} {m m' : PpcMachine} {c : PpcCpu} {j : Nat}

@[simp] theorem setCpu_same : (m.setCpu i c).cpus i = c := Function.update_self ..

theorem setCpu_ne (h : j ≠ i) : (m.setCpu i c).cpus j = m.cpus j := Function.update_of_ne h ..

theorem clearBits_llBit (h : j < m.ncpus) : (m.clearBits.cpus j).llBit = false := by
  unfold clearBits
  dsimp only
  rw [if_pos h]

theorem clearBits_cr (j : Nat) : (m.clearBits.cpus j).cr = (m.cpus j).cr := by
  unfold clearBits
  dsimp only
  split <;> rfl

theorem memoryRw_ok {a : Access} {data data' : List Byte} {ok : Bool}
    (h : m.memoryRw conf io i a data = .ok (m', data', ok)) : m'.cpus = m.cpus ∧ m'.ncpus = m.ncpus ∧
      (m'.host, data') = Cpu.transfer conf io.env io.dev a m.mem m.host data := by
  obtain ⟨⟨dyn, mem, ok'⟩, -, h⟩ := Lib.bind_eq_ok h
  cases h
  exact ⟨rfl, rfl, rfl⟩

theorem llsc_load (hload : llscLoad iw = true) (h : m.llsc conf io i iw = .ok m') : ∃ host d,
    (host, d) = Cpu.transfer conf io.env io.dev (m.llscAccess i iw) m.mem m.host (List.replicate (llscLen iw) 0#8) ∧
      m'.host = host ∧ m'.ncpus = m.ncpus ∧ (∀ j ≠ i, m'.cpus j = m.cpus j) ∧
      m'.cpus i = { m.cpus i with
        gpr := Function.update (m.cpus i).gpr (llscRt iw) (memoryReadmax64 (m.cpus i).bigEndian d)
        llAddr := (m.cpus i).llscAddr iw, llBit := true } := by
  unfold llsc at h
  dsimp only at h
  rw [if_pos hload] at h
  split at h
  · cases h
  · obtain ⟨⟨m1, d, ok⟩, hrw, h⟩ := Lib.bind_eq_ok h
    obtain ⟨hcpus, hncpus, hdata⟩ := memoryRw_ok hrw
    split at h
    · cases h
    · cases h
      refine ⟨m1.host, d, hdata, rfl, hncpus, fun j hj => ?_, ?_⟩
      · rw [setCpu_ne hj, hcpus]
      · rw [setCpu_same, hcpus]

theorem llsc_fail (hload : llscLoad iw = false) (hhit : (m.cpus i).llscHit iw = false)
    (h : m.llsc conf io i iw = .ok m') :
    m' = m.setCpu i { m.cpus i with cr := (m.cpus i).storeCr false, llBit := false } := by
  unfold llsc at h
  dsimp only at h
  rw [hload, hhit, if_neg Bool.false_ne_true] at h
  split at h
  · cases h
  · cases h
    rfl

theorem llsc_success (hload : llscLoad iw = false) (hhit : (m.cpus i).llscHit iw = true)
    (h : m.llsc conf io i iw = .ok m') : ∃ d,
    (m'.host, d) = Cpu.transfer conf io.env io.dev (m.llscAccess i iw) m.mem m.host
      (memoryWritemax64 (m.cpus i).bigEndian (llscLen iw) ((m.cpus i).gpr (llscRt iw))) ∧
      m'.ncpus = m.ncpus ∧ (m'.cpus i).cr = (m.cpus i).storeCr true ∧ ∀ j < m.ncpus, (m'.cpus j).llBit = false := by
  unfold llsc at h
  dsimp only at h
  rw [hload, hhit, if_neg Bool.false_ne_true] at h
  split at h
  · cases h
  · obtain ⟨⟨m1, d, ok⟩, hrw, h⟩ := Lib.bind_eq_ok h
    obtain ⟨hcpus, hncpus, hdata⟩ := memoryRw_ok hrw
    split at h
    · cases h
    · cases h
      refine ⟨d, hdata, hncpus, ?_, fun j hj => clearBits_llBit (hncpus ▸ hj)⟩
      rw [clearBits_cr, setCpu_same, hcpus]

theorem held_of_lt (h : j < m.ncpus) : m.held j = if (m.cpus j).llBit then some (m.cpus j).llAddr else none := by
  unfold held
  by_cases hb : (m.cpus j).llBit = true
  · rw [if_pos ⟨h, hb⟩, if_pos hb]
  · rw [if_neg fun hb' => hb hb'.2, if_neg hb]

theorem followsWhen : (llscMachine conf big p n).FollowsWhen Legal := by
  rintro m (⟨i, iw, io, onCounter⟩ | ⟨m'⟩) m'' hlegal h
  · have hlt : i < m.ncpus := hlegal
    show Lib.Follows m.held m''.held (m.event (.llsc i iw io onCounter))
    simp only [event]
    cases hload : llscLoad iw with
    | true =>
      obtain ⟨host, d, -, -, hncpus, hother, hself⟩ := llsc_load hload h
      refine ⟨?_, fun j hj => ?_⟩
      · rw [held_of_lt (hncpus ▸ hlt), hself]
        rfl
      · unfold held
        rw [hother j hj, hncpus]
    | false =>
      cases hhit : (m.cpus i).llscHit iw with
      | true =>
        obtain ⟨d, -, hncpus, -, hclear⟩ := llsc_success hload hhit h
        refine ⟨?_, fun j => ?_⟩
        · have hbit : (m.cpus i).llBit = true := by
            exact (Bool.and_eq_true _ _ ▸ hhit).1
          rw [held_of_lt hlt, hbit]
          simp
        · unfold held
          rw [hncpus]
          exact if_neg fun hj => by rw [hclear j hj.1] at hj; exact absurd hj.2 Bool.false_ne_true
      | false =>
        rw [llsc_fail hload hhit h]
        intro j
        by_cases hj : j = i
        · subst hj
          right
          unfold held
          rw [setCpu_same]
          exact if_neg fun hb => absurd hb.2 Bool.false_ne_true
        · left
          unfold held
          rw [setCpu_ne hj]
          rfl
  · cases h
    show held m' = held m
    obtain ⟨hncpus, hbit, haddr⟩ : SameReservations m m' := hlegal
    funext j
    unfold held
    rw [hncpus, hbit, haddr]

theorem crEq_storeCr (c : PpcCpu) (success : Bool) : ({ c with cr := c.storeCr success } : PpcCpu).crEq = success := by
  unfold PpcCpu.crEq PpcCpu.storeCr
  simp only [BitVec.getLsbD_or, BitVec.getLsbD_and]
  have hmask : (0x0fffffff#32).getLsbD 29 = false := by decide
  have hso : ∀ P : Prop, [Decidable P] → (if P then 0x10000000#32 else 0#32).getLsbD 29 = false := by
    intro P _
    split <;> decide
  rw [hmask, hso]
  cases success <;> simp

theorem reports (o : LlscOp) (hl : Legal m o) : m.Reports conf o := by
  intro i l success m' he h
  cases o with
  | other m'' => cases he
  | llsc j iw io onCounter =>
    simp only [event] at he
    split at he
    · cases he
    · rename_i hload
      rw [Bool.not_eq_true] at hload
      injection he with hji _ hhit
      subst hji
      cases success with
      | true =>
        obtain ⟨d, -, -, hcr, -⟩ := llsc_success hload hhit h
        refine ⟨?_, fun hf => by cases hf⟩
        have heq := crEq_storeCr (m.cpus j) true
        unfold PpcCpu.crEq at heq ⊢
        rw [hcr]
        exact heq
      | false =>
        rw [llsc_fail hload hhit h]
        refine ⟨?_, fun _ => ⟨rfl, rfl⟩⟩
        rw [setCpu_same]
        exact crEq_storeCr (m.cpus j) false

theorem counts_of_disciplined {s : Observed PpcMachine Nat Addr Nat} {o : LlscOp}
    (hd : Disciplined conf big p n s o) : (llscMachine conf big p n).Counts (incr n) s o := by
  intro m' h
  have hother : (∀ m', s.state.step conf o = .ok m' → m'.host.read p n = s.state.host.read p n) →
      Lib.value big (m'.host.read p n) = Lib.value big (s.state.host.read p n) := fun hsame => by rw [hsame m' h]
  cases o with
  | other m'' => exact hother hd
  | llsc i iw io onCounter =>
    have hevent : (llscMachine conf big p n).event s.state (.llsc i iw io onCounter) =
        if llscLoad iw then .reserve i ((s.state.cpus i).llscAddr iw)
        else .store i ((s.state.cpus i).llscAddr iw) ((s.state.cpus i).llscHit iw) := rfl
    rw [hevent]
    cases onCounter with
    | false =>
      have hval := hother hd
      cases hload : llscLoad iw with
      | true => exact ⟨hval, fun hon => by cases hon⟩
      | false => cases (s.state.cpus i).llscHit iw <;> exact hval
    | true =>
      obtain ⟨hacc, hlen, hbig, hinc⟩ := hd
      cases hload : llscLoad iw with
      | true =>
        obtain ⟨host, d, hdata, hhost, -, -, hself⟩ := llsc_load hload h
        rw [hacc _ _ (by simp [llscAccess])] at hdata
        simp only [Access.copy, llscAccess, hload, Bool.not_true, Bool.false_eq_true, if_false, Prod.mk.injEq] at hdata
        obtain ⟨rfl, rfl⟩ := hdata
        have hval : Lib.value big (m'.host.read p n) = Lib.value big (s.state.host.read p n) := by rw [hhost]
        refine ⟨hval, fun _ => ?_⟩
        show ((m'.cpus i).gpr (llscRt iw)).toNat % 256 ^ n = Lib.value big (s.state.host.read p n)
        have hlt : Lib.value big (s.state.host.read p n) < 256 ^ n := by
          have := value_lt big (s.state.host.read p n)
          rwa [ByteMem.length_read] at this
        have hn : n ≤ 8 := by
          rw [← hlen]
          unfold llscLen
          split <;> decide
        have h64 : 256 ^ n ≤ 256 ^ 8 := Nat.pow_le_pow_right (by decide) hn
        have hmod : Lib.value big (s.state.host.read p n) % 2 ^ 64 = Lib.value big (s.state.host.read p n) :=
          Nat.mod_eq_of_lt (Nat.lt_of_lt_of_le hlt h64)
        have hreg : (m'.cpus i).gpr (llscRt iw) = memoryReadmax64 big (s.state.host.read p n) := by
          rw [hself, hbig, hlen]
          exact Function.update_self ..
        rw [hreg, memoryReadmax64_eq, BitVec.toNat_ofNat, hmod, Nat.mod_eq_of_lt hlt]
      | false =>
        cases hhit : (s.state.cpus i).llscHit iw with
        | true =>
          obtain ⟨d, hdata, -⟩ := llsc_success hload hhit h
          rw [hacc _ _ (by simp [llscAccess, memoryWritemax64_eq])] at hdata
          simp only [Access.copy, llscAccess, hload, Bool.not_false, if_true, Prod.mk.injEq] at hdata
          obtain ⟨v, hv, hreg⟩ := hinc hload
          refine ⟨v, hv, ?_⟩
          show Lib.value big (m'.host.read p n) = incr n v
          have hread := s.state.host.read_write p (Lib.bytes big n ((s.state.cpus i).gpr (llscRt iw)).toNat)
          rw [length_bytes] at hread
          rw [hdata.1, hbig, hlen, memoryWritemax64_eq, hread, value_bytes]
          exact hreg
        | false =>
          rw [llsc_fail hload hhit h]
          rfl

theorem held_of_success {o : LlscOp} (hl : Legal m o) {a : Nat} {l : Addr} (he : m.event o = .store a l true) :
    m.held a = some l := by
  cases o with
  | other m' => cases he
  | llsc i iw io onCounter =>
    simp only [event] at he
    split at he
    · cases he
    · injection he with hia haddr hhit
      subst hia haddr
      unfold PpcCpu.llscHit at hhit
      rw [Bool.and_eq_true, beq_iff_eq] at hhit
      rw [held_of_lt hl, if_pos hhit.1, hhit.2]

theorem noLostUpdates {ops : List LlscOp} (h0 : (llscMachine conf big p n).NoReservations m)
    (hl : Lib.Along (llscMachine conf big p n).observe (fun s o => Legal s.state o) ops (Llsc.start m)) :
    Llsc.NoLostUpdates (llscMachine conf big p n) (incr n) (Reports conf) (Disciplined conf big p n) ops m :=
  (Llsc.noLostUpdates_iff followsWhen (fun _ o => reports o) (fun _ _ _ => counts_of_disciplined) h0 hl).mpr
    (Llsc.Along.of_forall (fun _ _ hlegal _ _ _ _ he => held_of_success hlegal he) hl)

end

end PpcMachine

end Gxemul.Ppc
