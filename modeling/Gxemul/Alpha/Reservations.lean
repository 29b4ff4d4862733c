import Gxemul.Alpha.ZeroRegisters
import Gxemul.Lib.Reservation

/- Alpha reservations: ldl_l, ldq_l, stl_c and stq_c (LS_N with LS_LLSC), on a machine
   with several CPUs.

   A load-locked notes its line in `load_linked_addr`, and nothing reads it. A store
   conditional succeeds whenever `ll_flag` is set. As on PowerPC, everything else is any
   change of the machine that leaves the reservations alone. -/
namespace Gxemul.Alpha
open Lib (Byte ByteMem Event Llsc Observed leValue leBytes)

/-- What happens on a machine: CPU `i` executes a load or store, on the counter that is observed
or elsewhere, or anything else. -/
inductive LlscOp where
  | ls (i : Nat) (k : LsKind) (ic : LsCall) (io : Io) (onCounter : Bool)
  | other (m' : AlphaMachine)

namespace AlphaMachine
variable (conf : LsConf) (k : LsKind) (io : Io) (ic : LsCall) (i : Nat) (p n : Nat)

/-- The line of an access, as it is noted in `load_linked_addr`. -/
def line (m : AlphaMachine) : Addr := m.addr k ic i &&& ~~~ 63#64

structure SameReservations (m m' : AlphaMachine) : Prop where
  ncpus : m'.ncpus = m.ncpus
  llFlag : ∀ j, (m'.cpus j).llFlag = (m.cpus j).llFlag
  loadLinkedAddr : ∀ j, (m'.cpus j).loadLinkedAddr = (m.cpus j).loadLinkedAddr

def step (m : AlphaMachine) : LlscOp → Except Exit AlphaMachine
  | .ls i k ic io _ => m.lsN conf k io ic i
  | .other m' => .ok m'

def event (m : AlphaMachine) : LlscOp → Event Nat Addr
  | .ls i k ic _ _ =>
    if k.llsc then
      if k.load then .reserve i (m.line k ic i) else .store i (m.line k ic i) (m.cpus i).llFlag
    else .other
  | .other _ => .other

def held (m : AlphaMachine) (j : Nat) : Option Addr :=
  if j < m.ncpus ∧ (m.cpus j).llFlag = true then some (m.cpus j).loadLinkedAddr else none

/-- What the register of an instruction has of a counter of `n` bytes. -/
def register (m : AlphaMachine) : LlscOp → Nat
  | .ls i _ ic _ _ => ((m.cpus i).reg ic.arg0).toNat % 256 ^ n
  | .other _ => 0

/-- Alpha machines with a counter in the `n` bytes of host memory from `p` on. -/
def llscMachine : Llsc AlphaMachine LlscOp Exit Nat Addr Nat where
  step := step conf
  event := event
  held := held
  onCounter o := match o with
    | .ls _ _ _ _ onCounter => onCounter
    | .other _ => false
  loaded m o := m.register n o
  value m := leValue (m.host.read p n)

def Legal (m : AlphaMachine) : LlscOp → Prop
  | .ls i _ _ _ _ => i < m.ncpus
  | .other m' => SameReservations m m'

/-- A store conditional that returns has left 1 in its register when it succeeded, and 0 when it failed. When it
failed it has changed no memory. -/
def Reports (m : AlphaMachine) (o : LlscOp) : Prop :=
  ∀ j l success m', m.event o = .store j l success → m.step conf o = .ok m' →
    match o with
    | .ls i _ ic _ _ => (m'.cpus i).reg ic.arg0 = (if success then 1#64 else 0#64) ∧
        (success = false → m'.host = m.host ∧ m'.mem = m.mem)
    | .other _ => True

/-- A load or store accesses the host bytes from `p` on: in a page of the tables, or through memory_rw(). -/
def Touches (m : AlphaMachine) : Prop :=
  if misaligned k.size (m.addr k ic i) = false ∧ (m.hostPage k ic i).isSome = true then
    (m.hostPage k ic i).getD 0 + (m.addr k ic i &&& 8191#64).toNat = p
  else ∀ paddr, alphaTranslateV2p io.ram m.host (m.cpus i) (m.genericAddr k ic i) = .ok paddr →
    Cpu.Accesses (alphaConf conf.cacheSize) (accessEnv io paddr) io.dev
      ⟨m.genericAddr k ic i, k.size.toNat, !k.load, cacheData⟩ m.mem p

def incr (v : Nat) : Nat := (v + 1) % 256 ^ n

/-- An instruction on the counter is a load-locked or a store conditional of its bytes, and a store conditional
has the increment of what the last load-locked of its CPU has loaded. Everything else leaves the counter alone. -/
def Disciplined (s : Observed AlphaMachine Nat Addr Nat) : LlscOp → Prop
  | .ls i k ic io true =>
    k.llsc = true ∧ k.size.toNat = n ∧ s.state.Touches conf k io ic i p ∧
      (k.load = false → ∃ v, s.seen i = some v ∧ s.state.register n (.ls i k ic io true) = incr n v)
  | o => ∀ m', s.state.step conf o = .ok m' → m'.host.read p n = s.state.host.read p n

/-- A store conditional of a CPU with a reservation is to the line that is reserved, or the emulator exits. -/
def SameLine (m : AlphaMachine) : LlscOp → Prop
  | .ls i k ic io _ => k.llsc = true → k.load = false → (m.cpus i).llFlag = true → m.Completes io i conf k ic →
      (m.cpus i).loadLinkedAddr = m.line k ic i
  | .other _ => True

section
variable {conf k io ic i p n} {m m' : AlphaMachine} {j : Nat}

/-! ## What LS_N does to reservations -/

theorem SameReservations.trans {m1 m2 m3 : AlphaMachine} (h : SameReservations m1 m2) (h' : SameReservations m2 m3) :
    SameReservations m1 m3 :=
  ⟨h'.ncpus.trans h.ncpus, fun j => (h'.llFlag j).trans (h.llFlag j),
    fun j => (h'.loadLinkedAddr j).trans (h.loadLinkedAddr j)⟩

theorem SameReservations.held (h : SameReservations m m') : m'.held = m.held := by
  funext j
  unfold AlphaMachine.held
  rw [h.ncpus, h.llFlag, h.loadLinkedAddr]

theorem sameReservations_setCpu {c : AlphaCpu} (hflag : c.llFlag = (m.cpus i).llFlag)
    (haddr : c.loadLinkedAddr = (m.cpus i).loadLinkedAddr) : SameReservations m (m.setCpu i c) := by
  refine ⟨rfl, fun j => ?_, fun j => ?_⟩ <;> by_cases hj : j = i
  · subst hj
    rw [setCpu_same, hflag]
  · rw [setCpu_ne hj]
  · subst hj
    rw [setCpu_same, haddr]
  · rw [setCpu_ne hj]

theorem sameReservations_setReg (x : RegName) (v : Reg) : SameReservations m (m.setReg i x v) :=
  sameReservations_setCpu rfl rfl

/-- memory_rw() leaves registers and reservations alone, and does to the memory what it does to the data. -/
theorem memoryRw_ok {a : Access} {data data' : List Byte} {ok : Bool}
    (h : m.memoryRw conf io i a data = .ok (m', data', ok)) : SameReservations m m' ∧
      (m'.cpus i).reg = (m.cpus i).reg ∧ ∃ paddr, alphaTranslateV2p io.ram m.host (m.cpus i) a.vaddr = .ok paddr ∧
        (m'.host, data') = Cpu.transfer (alphaConf conf.cacheSize) (accessEnv io paddr) io.dev a m.mem m.host data := by
  obtain ⟨paddr, hv, h⟩ := Lib.bind_eq_ok h
  obtain ⟨⟨dyn, mem, ok'⟩, -, h⟩ := Lib.bind_eq_ok h
  cases h
  have hsame : SameReservations m (m.setCpu i { m.cpus i with dyn }) := sameReservations_setCpu rfl rfl
  refine ⟨⟨rfl, hsame.llFlag, hsame.loadLinkedAddr⟩, ?_, paddr, hv, rfl⟩
  show ((m.setCpu i _).cpus i).reg = _
  rw [setCpu_same]

theorem lsGeneric_ok (h : m.lsGeneric conf k io ic i = .ok m') : SameReservations m m' ∧
    ∀ p, (∀ paddr, alphaTranslateV2p io.ram m.host (m.cpus i) (m.genericAddr k ic i) = .ok paddr →
      Cpu.Accesses (alphaConf conf.cacheSize) (accessEnv io paddr) io.dev
        ⟨m.genericAddr k ic i, k.size.toNat, !k.load, cacheData⟩ m.mem p) →
      if k.load then m'.host = m.host ∧ (m'.cpus i).reg ic.arg0 = k.size.extend (k.size.dataX fun n => m.host (p + n))
      else m'.host = m.host.write p (k.size.dataBytes ((m.cpus i).reg ic.arg0)) := by
  unfold lsGeneric at h
  dsimp only at h
  cases hload : k.load with
  | true =>
    rw [hload, if_pos rfl] at h
    obtain ⟨⟨m1, data, ok⟩, hrw, h⟩ := Lib.bind_eq_ok h
    obtain ⟨hsame, -, paddr, hv, hdata⟩ := memoryRw_ok hrw
    split at h
    · cases h
    · cases h
      refine ⟨hsame.trans (sameReservations_setReg _ _), fun p hacc => ?_⟩
      have hcopy := hacc paddr hv m.host (List.replicate k.size.toNat 0#8) List.length_replicate
      rw [Bool.not_true] at hcopy
      rw [hcopy] at hdata
      simp only [Access.copy, Bool.false_eq_true, if_false, Prod.mk.injEq] at hdata
      obtain ⟨hhost, rfl⟩ := hdata
      rw [if_pos rfl, ← dataX_read]
      refine ⟨hhost, ?_⟩
      show ((m1.setCpu i _).cpus i).reg ic.arg0 = _
      rw [setCpu_same]
      exact Function.update_self ..
  | false =>
    rw [hload, if_neg Bool.false_ne_true] at h
    obtain ⟨⟨m1, data, ok⟩, hrw, h⟩ := Lib.bind_eq_ok h
    obtain ⟨hsame, -, paddr, hv, hdata⟩ := memoryRw_ok hrw
    split at h
    · cases h
    · cases h
      have hstored : ∀ p, (∀ paddr, alphaTranslateV2p io.ram m.host (m.cpus i) (m.genericAddr k ic i) = .ok paddr →
          Cpu.Accesses (alphaConf conf.cacheSize) (accessEnv io paddr) io.dev
            ⟨m.genericAddr k ic i, k.size.toNat, !false, cacheData⟩ m.mem p) →
          m1.host = m.host.write p (k.size.dataBytes ((m.cpus i).reg ic.arg0)) := by
        intro p hacc
        have hcopy := hacc paddr hv m.host _ (length_dataBytes k.size ((m.cpus i).reg ic.arg0))
        rw [Bool.not_false] at hcopy
        rw [hcopy] at hdata
        simp only [Access.copy, if_true, Prod.mk.injEq] at hdata
        exact hdata.1
      split
      · exact ⟨hsame.trans (sameReservations_setReg _ _), hstored⟩
      · exact ⟨hsame, hstored⟩

theorem fastTransfer_ok (p : Nat) : SameReservations m (m.fastTransfer conf k ic i p) ∧
    if k.load then (m.fastTransfer conf k ic i p).host = m.host ∧
      ((m.fastTransfer conf k ic i p).cpus i).reg ic.arg0 = k.size.extend (k.size.dataX fun n => m.host (p + n))
    else (m.fastTransfer conf k ic i p).host = m.host.write p (k.size.dataBytes ((m.cpus i).reg ic.arg0)) := by
  unfold fastTransfer
  rw [loadValue_eq, storeBytes_eq]
  split
  · refine ⟨sameReservations_setReg _ _, rfl, ?_⟩
    show ((m.setCpu i _).cpus i).reg ic.arg0 = _
    rw [setCpu_same]
    exact Function.update_self ..
  · dsimp only
    split
    · have hreg := @sameReservations_setReg i
        { m with host := m.host.write p (k.size.dataBytes ((m.cpus i).reg ic.arg0)) } ic.arg0 1#64
      exact ⟨⟨hreg.ncpus, hreg.llFlag, hreg.loadLinkedAddr⟩, rfl⟩
    · exact ⟨⟨rfl, fun _ => rfl, fun _ => rfl⟩, rfl⟩

/-- What LS_N does, unless it is a store conditional that fails: it changes the reservations before the transfer
only, and transfers the bytes that it touches. -/
theorem lsN_ok (hgo : (k.llsc && !k.load && !(m.cpus i).llFlag) = false) (h : m.lsN conf k io ic i = .ok m') :
    SameReservations (m.beforeTransfer k ic i) m' ∧ ∀ p, m.Touches conf k io ic i p →
      if k.load then m'.host = m.host ∧ (m'.cpus i).reg ic.arg0 = k.size.extend (k.size.dataX fun n => m.host (p + n))
      else m'.host = m.host.write p (k.size.dataBytes ((m.cpus i).reg ic.arg0)) := by
  unfold lsN lsNWith at h
  rw [hgo, if_neg Bool.false_ne_true] at h
  have hhost := @beforeTransfer_host k ic i m
  have hmem := @beforeTransfer_mem k ic i m
  have hreg := @beforeTransfer_reg k ic i m i
  have hgen : (m.beforeTransfer k ic i).genericAddr k ic i = m.genericAddr k ic i := by
    unfold genericAddr
    rw [hreg]
  have hslow : (m.beforeTransfer k ic i).lsGeneric conf k io ic i = .ok m' → SameReservations (m.beforeTransfer k ic i) m' ∧
      ∀ p, (∀ paddr, alphaTranslateV2p io.ram m.host (m.cpus i) (m.genericAddr k ic i) = .ok paddr →
        Cpu.Accesses (alphaConf conf.cacheSize) (accessEnv io paddr) io.dev
          ⟨m.genericAddr k ic i, k.size.toNat, !k.load, cacheData⟩ m.mem p) →
        if k.load then m'.host = m.host ∧ (m'.cpus i).reg ic.arg0 = k.size.extend (k.size.dataX fun n => m.host (p + n))
        else m'.host = m.host.write p (k.size.dataBytes ((m.cpus i).reg ic.arg0)) := by
    intro hs
    obtain ⟨hsame, heff⟩ := lsGeneric_ok hs
    rw [hhost, hmem, hgen, hreg] at heff
    simp only [beforeTransfer_translate] at heff
    exact ⟨hsame, heff⟩
  unfold lsTransfer at h
  unfold Touches
  split at h
  · rename_i hmis
    have hno : ¬ (misaligned k.size (m.addr k ic i) = false ∧ (m.hostPage k ic i).isSome = true) := fun hf => by
      rw [hmis] at hf
      cases hf.1
    refine ⟨(hslow h).1, fun p hp => (hslow h).2 p ?_⟩
    rwa [if_neg hno] at hp
  · rename_i hal
    rw [Bool.not_eq_true] at hal
    cases hpage : m.hostPage k ic i with
    | none =>
      rw [hpage] at h
      refine ⟨(hslow h).1, fun p hp => (hslow h).2 p ?_⟩
      rwa [if_neg (fun hf => by cases hf.2)] at hp
    | some page =>
      rw [hpage] at h
      cases h
      obtain ⟨hsame, heff⟩ := @fastTransfer_ok conf k ic i (m.beforeTransfer k ic i)
        (page + (m.addr k ic i &&& 8191#64).toNat)
      rw [hhost, hreg] at heff
      refine ⟨hsame, fun p hp => ?_⟩
      rw [if_pos ⟨hal, rfl⟩] at hp
      subst hp
      exact heff

theorem lsN_fail (hllsc : k.llsc = true) (hload : k.load = false) (hflag : (m.cpus i).llFlag = false)
    (h : m.lsN conf k io ic i = .ok m') : m' = m.setReg i ic.arg0 0#64 := by
  unfold lsN lsNWith at h
  rw [hllsc, hload, hflag] at h
  cases h
  rfl

/-! ## The protocol -/

theorem held_of_lt (h : j < m.ncpus) : m.held j = if (m.cpus j).llFlag then some (m.cpus j).loadLinkedAddr else none := by
  unfold held
  by_cases hb : (m.cpus j).llFlag = true
  · rw [if_pos ⟨h, hb⟩, if_pos hb]
  · rw [if_neg fun hb' => hb hb'.2, if_neg hb]

theorem held_setReg (x : RegName) (v : Reg) : (m.setReg i x v).held = m.held :=
  (sameReservations_setReg x v).held

theorem held_clearFlags (m : AlphaMachine) (j : Nat) : m.clearFlags.held j = none := by
  refine if_neg fun hb => ?_
  obtain ⟨hj, hflag⟩ := hb
  unfold clearFlags at hj hflag
  dsimp only at hj hflag
  rw [if_pos hj] at hflag
  cases hflag

theorem held_reserve_same {addr : Addr} (h : i < m.ncpus) : (m.reserve i addr).held i = some (addr &&& ~~~ 63#64) := by
  have hlt : i < (m.reserve i addr).ncpus := h
  rw [held_of_lt hlt]
  simp [reserve]

theorem held_reserve_ne {addr : Addr} (h : j ≠ i) : (m.reserve i addr).held j = m.held j := by
  unfold held
  rw [show (m.reserve i addr).cpus j = m.cpus j from setCpu_ne h]
  rfl

theorem followsWhen : (llscMachine conf p n).FollowsWhen Legal := by
  rintro m (⟨i, k, ic, io, onCounter⟩ | ⟨m'⟩) m'' hlegal h
  · have hlt : i < m.ncpus := hlegal
    show Lib.Follows m.held m''.held (m.event (.ls i k ic io onCounter))
    simp only [event]
    cases hllsc : k.llsc with
    | false =>
      have hsame := (lsN_ok (by rw [hllsc]; rfl) h).1.held
      unfold beforeTransfer at hsame
      rw [hllsc] at hsame
      exact hsame
    | true =>
      cases hload : k.load with
      | true =>
        have hsame := (lsN_ok (by rw [hllsc, hload]; rfl) h).1.held
        unfold beforeTransfer at hsame
        rw [hllsc, hload] at hsame
        refine ⟨?_, fun j hj => ?_⟩
        · rw [hsame]
          exact held_reserve_same hlt
        · rw [hsame]
          exact held_reserve_ne hj
      | false =>
        cases hflag : (m.cpus i).llFlag with
        | true =>
          have hsame := (lsN_ok (by rw [hllsc, hload, hflag]; rfl) h).1.held
          unfold beforeTransfer at hsame
          rw [hllsc, hload] at hsame
          refine ⟨?_, fun j => ?_⟩
          · rw [held_of_lt hlt, if_pos hflag]
            simp
          · rw [hsame]
            exact held_clearFlags m j
        | false =>
          rw [lsN_fail hllsc hload hflag h]
          exact fun j => .inl (congrFun (held_setReg _ _) j)
  · cases h
    exact SameReservations.held hlegal

theorem reports (o : LlscOp) : m.Reports conf o := by
  intro j l success m' he h
  cases o with
  | other m'' => cases he
  | ls i k ic io onCounter =>
    simp only [event] at he
    split at he
    · rename_i hllsc
      split at he
      · cases he
      · rename_i hload
        rw [Bool.not_eq_true] at hload
        injection he with _ _ hflag
        subst hflag
        refine ⟨lsN_storeConditional hllsc hload h, fun hflag => ?_⟩
        rw [lsN_fail hllsc hload hflag h]
        exact ⟨rfl, rfl⟩
    · cases he

/-! ## Counters -/

theorem extend_mod (size : LsSize) (x : Reg) : (size.extend x).toNat % 256 ^ size.toNat = x.toNat % 256 ^ size.toNat := by
  cases size with
  | b | w | q => rfl
  | l =>
    have hlow : ((x.setWidth 32).signExtend 64).setWidth 32 = x.setWidth 32 := by
      apply BitVec.eq_of_getLsbD_eq
      intro b hb
      have hb64 : b < 64 := by omega
      rw [BitVec.getLsbD_setWidth, BitVec.getLsbD_signExtend]
      simp [hb, hb64]
    have hnat := congrArg BitVec.toNat hlow
    rw [BitVec.toNat_setWidth, BitVec.toNat_setWidth] at hnat
    exact hnat

theorem extend_dataX_mod (size : LsSize) (host : ByteMem) (p : Nat) :
    (size.extend (size.dataX fun b => host (p + b))).toNat % 256 ^ size.toNat = leValue (host.read p size.toNat) := by
  have hread : (List.range size.toNat).map (fun b => host (p + b)) = host.read p size.toNat := rfl
  have hlt := Lib.leValue_lt (host.read p size.toNat)
  rw [ByteMem.length_read] at hlt
  have h64 : 256 ^ size.toNat ≤ 2 ^ 64 := by cases size <;> decide
  rw [extend_mod, dataX_eq, hread, BitVec.toNat_ofNat, Nat.mod_eq_of_lt (Nat.lt_of_lt_of_le hlt h64),
    Nat.mod_eq_of_lt hlt]

theorem counts_of_disciplined {s : Observed AlphaMachine Nat Addr Nat} {o : LlscOp}
    (hd : Disciplined conf p n s o) : (llscMachine conf p n).Counts (incr n) s o := by
  intro m' h
  have hother : (∀ m', s.state.step conf o = .ok m' → m'.host.read p n = s.state.host.read p n) →
      leValue (m'.host.read p n) = leValue (s.state.host.read p n) := fun hsame => by rw [hsame m' h]
  cases o with
  | other m'' => exact hother hd
  | ls i k ic io onCounter =>
    have hevent : (llscMachine conf p n).event s.state (.ls i k ic io onCounter) =
        if k.llsc then
          if k.load then .reserve i (s.state.line k ic i)
          else .store i (s.state.line k ic i) (s.state.cpus i).llFlag
        else .other := rfl
    rw [hevent]
    cases onCounter with
    | false =>
      have hval := hother hd
      cases k.llsc with
      | false => exact hval
      | true =>
        cases k.load with
        | true => exact ⟨hval, fun hon => by cases hon⟩
        | false => cases (s.state.cpus i).llFlag <;> exact hval
    | true =>
      obtain ⟨hllsc, hlen, htouch, hinc⟩ := hd
      rw [hllsc]
      cases hload : k.load with
      | true =>
        obtain ⟨hhost, hreg⟩ := by
          have heff := (lsN_ok (by rw [hload, Bool.not_true, Bool.and_false, Bool.false_and]) h).2 p htouch
          rwa [if_pos hload] at heff
        have hval : leValue (m'.host.read p n) = leValue (s.state.host.read p n) := by rw [hhost]
        refine ⟨hval, fun _ => ?_⟩
        show ((m'.cpus i).reg ic.arg0).toNat % 256 ^ n = leValue (s.state.host.read p n)
        rw [hreg, ← hlen]
        exact extend_dataX_mod k.size s.state.host p
      | false =>
        cases hflag : (s.state.cpus i).llFlag with
        | true =>
          have hwrite : m'.host = s.state.host.write p (k.size.dataBytes ((s.state.cpus i).reg ic.arg0)) := by
            have heff := (lsN_ok (by rw [hflag, Bool.not_true, Bool.and_false]) h).2 p htouch
            rwa [if_neg (by rw [hload]; decide)] at heff
          obtain ⟨v, hv, hreg⟩ := hinc hload
          refine ⟨v, hv, ?_⟩
          show leValue (m'.host.read p n) = incr n v
          have hread := s.state.host.read_write p (k.size.dataBytes ((s.state.cpus i).reg ic.arg0))
          rw [length_dataBytes, hlen] at hread
          rw [hwrite, hread, dataBytes_eq, Lib.leValue_leBytes, hlen]
          exact hreg
        | false =>
          rw [lsN_fail hllsc hload hflag h]
          rfl

/-- The store conditionals that succeed go to the line of the reservation, exactly if those of CPUs with a
reservation do. -/
theorem held_of_success_iff {o : LlscOp} (hl : Legal m o) :
    (∀ a l m', m.step conf o = .ok m' → m.event o = .store a l true → m.held a = some l) ↔ m.SameLine conf o := by
  cases o with
  | other m' =>
    refine ⟨fun _ => trivial, fun _ a l m'' _ he => ?_⟩
    cases he
  | ls i k ic io onCounter =>
    have hlt : i < m.ncpus := hl
    constructor
    · intro h hllsc hload hflag hcomp
      obtain ⟨m', hok⟩ := (lsN_isOk_iff hllsc hload hflag).mpr hcomp
      have hheld := h i (m.line k ic i) m' hok (by simp only [event, hllsc, hload, hflag]; rfl)
      rw [held_of_lt hlt, if_pos hflag] at hheld
      exact Option.some.inj hheld
    · intro h a l m' hok he
      simp only [event] at he
      split at he
      · rename_i hllsc
        split at he
        · cases he
        · rename_i hload
          rw [Bool.not_eq_true] at hload
          injection he with hia hline hflag
          subst hia hline
          have hcomp := (lsN_isOk_iff hllsc hload hflag).mp ⟨m', hok⟩
          rw [held_of_lt hlt, if_pos hflag, h hllsc hload hflag hcomp]
      · cases he

theorem noLostUpdates_iff {ops : List LlscOp} (h0 : (llscMachine conf p n).NoReservations m)
    (hl : Lib.Along (llscMachine conf p n).observe (fun s o => Legal s.state o) ops (Llsc.start m)) :
    Llsc.NoLostUpdates (llscMachine conf p n) (incr n) (Reports conf) (Disciplined conf p n) ops m ↔
      Lib.Along (llscMachine conf p n).observe (fun s o => s.state.SameLine conf o) ops (Llsc.start m) := by
  rw [Llsc.noLostUpdates_iff followsWhen (fun _ o _ => reports o) (fun _ _ _ => counts_of_disciplined) h0 hl]
  constructor <;> intro h
  · exact Llsc.Along.of_forall (fun s o hg => (held_of_success_iff hg.1).mp hg.2) (hl.and h)
  · exact Llsc.Along.of_forall (fun s o hg => (held_of_success_iff hg.1).mpr hg.2) (hl.and h)

end

end AlphaMachine

end Gxemul.Alpha
