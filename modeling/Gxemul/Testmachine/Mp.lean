import Gxemul.Lib.Bytes
import Gxemul.Lib.Run

/- Interrupts between the CPUs of a test machine (`src/devices/dev_mp.c`).

   `Mail` is what the device is for: a queue of interrupts for each CPU, which the CPU reads
   one at a time or discards, with a pin that is high while there are any. How many are
   pending, and the pins, are always right. Of what is pending this holds for as long as
   memmove(), which is passed a number of entries where it takes bytes, moves enough
   (`delivered_iff`). `big` is the byte order of the host. -/
namespace Gxemul.Mp

open Lib (bytes value)

/-- What `struct mp_data` has of one CPU, and what the CPU's reads of DEV_MP_IPI_READ have returned. -/
structure Ipis where
  nPendingIpis : Nat
  ipi : List (BitVec 8)
  ipiIrq : Bool
  returned : List (BitVec 64)

/-- What an access does to one CPU. -/
inductive Event
  | send (idata : BitVec 64)
  | read
  | discard

/-- DEV_MP_IPI_ONE, DEV_MP_IPI_MANY, and a read or a write of DEV_MP_IPI_READ by a CPU. -/
inductive Access (ncpus : Nat)
  | ipiOne (idata : BitVec 64)
  | ipiMany (idata : BitVec 64)
  | ipiRead (cpu : Fin ncpus)
  | ipiDiscard (cpu : Fin ncpus)

/-- The loop over the CPUs, and what is at the index of the CPU. -/
def Access.event {ncpus : Nat} (i : Fin ncpus) : Access ncpus → Option Event
  | .ipiOne idata => if i.val = (idata &&& 0xffff).toNat then some (.send idata) else none
  | .ipiMany idata => if i.val ≠ (idata &&& 0xffff).toNat then some (.send idata) else none
  | .ipiRead cpu => if i = cpu then some .read else none
  | .ipiDiscard cpu => if i = cpu then some .discard else none

/-- "IPI_nr". -/
def ipiNr (idata : BitVec 64) : BitVec 32 := (idata >>> 16).setWidth 32

/-- "memmove(&d->ipi[cpu->cpu_id][0], &d->ipi[cpu->cpu_id][1], n)". -/
def memmove (ipi : List (BitVec 8)) (n : Nat) : List (BitVec 8) := (ipi.drop 4).take n ++ ipi.drop n

namespace Ipis

variable (big : Bool) (d : Ipis)

def init : Ipis := ⟨0, [], false, []⟩

/-- "Deassert the interrupt, if there are no pending IPIs". -/
def deassert : Ipis := if d.nPendingIpis = 0 then { d with ipiIrq := false } else d

def odata : BitVec 64 := (BitVec.ofNat 32 (value big (d.ipi.take 4))).signExtend 64

def step : Event → Ipis
  | .send idata => { d with
      nPendingIpis := d.nPendingIpis + 1
      -- realloc() keeps the entries before the new one
      ipi := d.ipi.take (4 * d.nPendingIpis) ++ bytes big 4 (ipiNr idata).toNat
      ipiIrq := true }
  | .discard => deassert { d with nPendingIpis := 0 }
  | .read =>
    let n := d.nPendingIpis - 1
    if 0 < d.nPendingIpis then
      deassert { d with
        nPendingIpis := n
        ipi := if 0 < n then memmove d.ipi n else d.ipi
        returned := d.returned ++ [d.odata big] }
    else deassert { d with returned := d.returned ++ [0] }

end Ipis

/-! ## The mail -/

structure Mail where
  queue : List (BitVec 32)
  returned : List (BitVec 64)

def Mail.step (m : Mail) : Event → Mail
  | .send idata => { m with queue := m.queue ++ [ipiNr idata] }
  | .discard => { m with queue := [] }
  | .read => ⟨m.queue.tail, m.returned ++ [(m.queue.head?.getD 0).signExtend 64]⟩

section
variable (big : Bool)

/-- The entries of an array. -/
def entries (q : List (BitVec 32)) : List (BitVec 8) := q.flatMap fun x => bytes big 4 x.toNat

/-- As much is pending as there is in the queue, and the pin is high while there is. -/
structure Counts (d : Ipis) (m : Mail) : Prop where
  pending : d.nPendingIpis = m.queue.length
  allocated : 4 * d.nPendingIpis ≤ d.ipi.length
  irq : d.ipiIrq = true ↔ m.queue ≠ []

/-- What is pending, and what has been read, is what has been sent. -/
structure Delivers (d : Ipis) (m : Mail) : Prop where
  ipi : d.ipi.take (4 * d.nPendingIpis) = entries big m.queue
  returned : d.returned = m.returned

/-- The bytes that are not moved are the same as those that they should become. -/
def Moved (ipi : List (BitVec 8)) (n : Nat) : Prop := (ipi.drop n).take (3 * n) = (ipi.drop (4 + n)).take (3 * n)

def Whole (d : Ipis) : Event → Prop
  | .read => Moved d.ipi (d.nPendingIpis - 1)
  | .send _ | .discard => True

/-- Moving `n` bytes moves the `n` entries behind the first one exactly if the other bytes are the same. -/
theorem memmove_iff {ipi : List (BitVec 8)} {n : Nat} (h : 4 * (n + 1) ≤ ipi.length) :
    (memmove ipi n).take (4 * n) = (ipi.drop 4).take (4 * n) ↔ Moved ipi n := by
  have hlength : ((ipi.drop 4).take n).length = n := by
    simp only [List.length_take, List.length_drop]
    omega
  have hmoved : (memmove ipi n).take (4 * n) = (ipi.drop 4).take n ++ (ipi.drop n).take (3 * n) := by
    rw [show 4 * n = ((ipi.drop 4).take n).length + 3 * n by omega, memmove, List.take_length_add_append]
  have hrest : (ipi.drop 4).take (4 * n) = (ipi.drop 4).take n ++ (ipi.drop (4 + n)).take (3 * n) := by
    rw [show 4 * n = n + 3 * n by omega, List.take_add, List.drop_drop]
  rw [hmoved, hrest, List.append_right_inj, Moved]

variable {big} {d : Ipis} {m : Mail}

theorem Counts.deassert (hpending : d.nPendingIpis = m.queue.length) (hallocated : 4 * d.nPendingIpis ≤ d.ipi.length)
    (hirq : m.queue ≠ [] → d.ipiIrq = true) : Counts d.deassert m := by
  unfold Ipis.deassert
  split
  · rename_i hzero
    have hempty : m.queue = [] := List.eq_nil_of_length_eq_zero (hpending.symm.trans hzero)
    exact ⟨hpending, hallocated, by simp [hempty]⟩
  · rename_i hsome
    have hne : m.queue ≠ [] := fun hempty => hsome (by rw [hpending, hempty, List.length_nil])
    exact ⟨hpending, hallocated, iff_of_true (hirq hne) hne⟩

theorem Counts.step (h : Counts d m) (e : Event) : Counts (d.step big e) (m.step e) := by
  have hroom := h.allocated
  cases e with
  | send idata =>
    refine ⟨by simp [Ipis.step, Mail.step, h.pending], ?_, by simp [Ipis.step, Mail.step]⟩
    simp only [Ipis.step, List.length_append, List.length_take, Lib.length_bytes]
    omega
  | discard => exact Counts.deassert rfl (Nat.zero_le _) fun h => absurd rfl h
  | read =>
    -- the pin was high if there is something left
    have hirq : m.queue.tail ≠ [] → d.ipiIrq = true := fun hne => h.irq.mpr fun hempty => hne (by rw [hempty]; rfl)
    have hpending := h.pending
    rw [Ipis.step]
    split
    · refine Counts.deassert (by simp [Mail.step, hpending]) ?_ hirq
      dsimp only
      split
      · simp only [memmove, List.length_append, List.length_take, List.length_drop]
        omega
      · omega
    · refine Counts.deassert ?_ hroom hirq
      simp only [Mail.step, List.length_tail]
      omega

theorem delivers_deassert : Delivers big d.deassert m ↔ Delivers big d m := by
  unfold Ipis.deassert
  split
  · exact ⟨fun h => ⟨h.ipi, h.returned⟩, fun h => ⟨h.ipi, h.returned⟩⟩
  · rfl

theorem Delivers.send (hc : Counts d m) (h : Delivers big d m) (idata : BitVec 64) :
    Delivers big (d.step big (.send idata)) (m.step (.send idata)) := by
  refine ⟨?_, h.returned⟩
  have hroom := hc.allocated
  have hall : (d.ipi.take (4 * d.nPendingIpis) ++ bytes big 4 (ipiNr idata).toNat).length ≤
      4 * (d.nPendingIpis + 1) := by
    simp only [List.length_append, List.length_take, Lib.length_bytes]
    omega
  simp only [Ipis.step, Mail.step]
  rw [List.take_of_length_le hall, h.ipi]
  simp [entries]

/-- A read returns the first entry. The others are still there just if memmove() has moved enough. -/
theorem delivers_read_iff (hc : Counts d m) (h : Delivers big d m) :
    Delivers big (d.step big .read) (m.step .read) ↔ Moved d.ipi (d.nPendingIpis - 1) := by
  have hn := hc.pending
  have hroom := hc.allocated
  have hipi := h.ipi
  rw [Ipis.step, Mail.step]
  cases hq : m.queue with
  | nil =>
    have hzero : d.nPendingIpis = 0 := by rw [hn, hq, List.length_nil]
    simp only [hzero, if_neg (Nat.lt_irrefl 0), delivers_deassert]
    refine iff_of_true ⟨by simp [entries], by simp [h.returned]⟩ ?_
    simp [Moved]
  | cons x q =>
    have hsome : d.nPendingIpis = q.length + 1 := by rw [hn, hq, List.length_cons]
    rw [hq, hsome, show 4 * (q.length + 1) = 4 + 4 * q.length by omega, List.take_add, entries,
      List.flatMap_cons] at hipi
    rw [hsome] at hroom
    have hfour : (d.ipi.take 4).length = (bytes big 4 x.toNat).length := by
      rw [List.length_take, Lib.length_bytes]
      omega
    obtain ⟨hfirst, hrest⟩ := List.append_inj hipi hfour
    have hodata : d.odata big = x.signExtend 64 := by
      rw [Ipis.odata, hfirst, Lib.value_bytes, Nat.mod_eq_of_lt (by omega), BitVec.ofNat_toNat, BitVec.setWidth_eq]
    have hleft : ((if 0 < q.length then memmove d.ipi q.length else d.ipi).take (4 * q.length) = entries big q) ↔
        Moved d.ipi q.length := by
      rw [← memmove_iff hroom, hrest, ← entries]
      split
      · rfl
      · have hnone : q.length = 0 := by omega
        simp [List.eq_nil_of_length_eq_zero hnone, entries]
    simp only [hsome, if_pos (Nat.succ_pos _), delivers_deassert, Nat.add_sub_cancel, hodata, h.returned]
    rw [← hleft]
    exact ⟨fun h' => h'.ipi, fun h' => ⟨h', rfl⟩⟩

theorem delivers_step_iff (hc : Counts d m) (h : Delivers big d m) (e : Event) :
    Delivers big (d.step big e) (m.step e) ↔ Whole d e := by
  cases e with
  | send idata => exact iff_of_true (h.send hc idata) trivial
  | read => exact delivers_read_iff hc h
  | discard => exact iff_of_true (delivers_deassert.mpr ⟨rfl, h.returned⟩) trivial

end

/-! ## Runs -/

section
variable {ncpus : Nat} (big : Bool)

/-- The device and the mail of all CPUs. -/
structure Both (ncpus : Nat) where
  ipis : Fin ncpus → Ipis
  mail : Fin ncpus → Mail

def Both.init : Both ncpus := ⟨fun _ => .init, fun _ => ⟨[], []⟩⟩

/-- DEVICE_ACCESS(mp). -/
def Both.step (s : Both ncpus) (a : Access ncpus) : Except Empty (Both ncpus) :=
  .ok ⟨fun i => (a.event i).elim (s.ipis i) ((s.ipis i).step big), fun i => (a.event i).elim (s.mail i) (s.mail i).step⟩

/-- The interrupts are counted right throughout every run, with the pins. They are delivered, each once and in order,
exactly when memmove() moves enough in all reads. -/
theorem delivered_iff (accesses : List (Access ncpus)) :
    Lib.Always (Both.step big) (fun s => ∀ i, Counts (s.ipis i) (s.mail i)) accesses Both.init ∧
      (Lib.Always (Both.step big) (fun s => ∀ i, Delivers big (s.ipis i) (s.mail i)) accesses Both.init ↔
        Lib.Along (Both.step big) (fun s a => ∀ i, ∀ e ∈ a.event i, Whole (s.ipis i) e) accesses Both.init) := by
  have hcounts : ∀ s (a : Access ncpus), (∀ i, Counts (s.ipis i) (s.mail i)) →
      ∃ s', Both.step big s a = .ok s' ∧ ∀ i, Counts (s'.ipis i) (s'.mail i) := by
    refine fun s a h => ⟨_, rfl, fun i => ?_⟩
    cases ha : a.event i with
    | none => simpa [ha] using h i
    | some e => simpa [ha] using (h i).step e
  have hinit : ∀ i : Fin ncpus, Counts (Both.init.ipis i) (Both.init.mail i) :=
    fun i => ⟨rfl, Nat.zero_le _, by simp [Both.init, Ipis.init]⟩
  constructor
  · exact Lib.always_of_along (fun _ => True) (fun s a _ h _ => hcounts s a h) (fun _ _ => trivial) hinit
      (Lib.along_true accesses _)
  · apply Lib.always_iff_along (fun _ => True) (fun s a _ h => hcounts s a h) ?_ (fun _ _ => trivial) hinit
      fun i => ⟨rfl, rfl⟩
    rintro s a s' - hc h hs
    cases hs
    refine forall_congr' fun i => ?_
    cases ha : a.event i with
    | none => simpa [ha] using h i
    | some e => simpa [ha] using (delivers_step_iff (hc i) (h i) e).symm

-- With three interrupts pending the second one is read twice, and the third one never.
example : (([.send 0x10000, .send 0x20000, .send 0x30000, .read, .read, .read] : List Event).foldl
    (Ipis.step false) Ipis.init).returned = [1, 2, 2] := by
  decide

end

end Gxemul.Mp
