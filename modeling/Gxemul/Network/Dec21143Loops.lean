import Gxemul.Network.Dec21143Rings

/- The loops of the DEC 21143's tick function, and what its rings do in a run.

   Each turn of a loop hands a descriptor back, or puts a part of a frame into a
   buffer. As long as the descriptors that a loop comes to do not overlap, one that
   has been handed back is not owned again before the loop ends, except by a frame
   that is put over it. There are finitely many descriptors, and finitely many
   bytes of frames. -/
namespace Gxemul.Dec21143

open Lib

def DecData.transmits (d : DecData) (fuel : Nat) : Option DecData :=
  if has (d.reg csrOpmode) opmodeSt then whileLoop DecData.tx fuel d else some d

def Visited (d : DecData) (p : Nat) : Prop :=
  (has (d.reg csrOpmode) opmodeSt = true ∧ ∃ b, Goes DecData.tx d b ∧ p = b.phys b.curTxAddr) ∨
  ∃ fuel d1, d.transmits fuel = some d1 ∧ has (d1.reg csrOpmode) opmodeSr = true ∧
    ∃ b, Goes DecData.rx d1 b ∧ p = b.phys b.curRxAddr

def NonOverlapping (P : Nat → Prop) : Prop := ∀ p q, P p → P q → p = q ∨ p + 16 ≤ q ∨ q + 16 ≤ p

def physLimit : Nat := 4294967296

open Classical in
/-- How many of some descriptors are owned by the chip. -/
noncomputable def ownedCount (P : Nat → Prop) (mem : Mem) : Nat :=
  ((Finset.range physLimit).filter fun p => P p ∧ has (loadLe32 mem p) tdstatOwn = true).card

open Classical in
theorem ownedCount_le (P : Nat → Prop) (mem : Mem) : ownedCount P mem ≤ physLimit := by
  calc ownedCount P mem ≤ (Finset.range physLimit).card := Finset.card_filter_le _ _
    _ = physLimit := Finset.card_range _

open Classical in
theorem ownedCount_lt {P : Nat → Prop} {s : DecStep} (hP : NonOverlapping P) (hplace : P s.place) (hback : s.HandedBack) :
    ownedCount P s.post < ownedCount P s.pre := by
  have hlimit : s.place < physLimit := by
    exact (s.addr &&& s.mask).isLt
  have hsame : ∀ q, P q → q ≠ s.place → loadLe32 s.post q = loadLe32 s.pre q := by
    intro q hq hne
    have hapart := hP q s.place hq hplace
    unfold loadLe32
    rw [hback.others (q + 3) (by omega), hback.others (q + 2) (by omega), hback.others (q + 1) (by omega),
      hback.others q (by omega)]
  apply Finset.card_lt_card
  refine ⟨fun q hq => ?_, fun hsub => ?_⟩
  · obtain ⟨hrange, hPq, hown⟩ := Finset.mem_filter.mp hq
    have hne : q ≠ s.place := by
      rintro rfl
      have hgiven := hback.given
      rw [DecStep.own, hown] at hgiven
      cases hgiven
    rw [hsame q hPq hne] at hown
    exact Finset.mem_filter.mpr ⟨hrange, hPq, hown⟩
  · have hmem := hsub (Finset.mem_filter.mpr ⟨Finset.mem_range.mpr hlimit, hplace, hback.owned⟩)
    have hgiven := hback.given
    rw [DecStep.own, (Finset.mem_filter.mp hmem).2.2] at hgiven
    cases hgiven

/-- The bytes of frames that are still to be put into buffers, and a bit more for each frame. -/
def DecData.left (d : DecData) : Nat :=
  (d.arrived.map fun packet => packet.length + 5).sum +
    match d.curRxBuf with
    | none => 0
    | some f => f.length - d.curRxOffset

namespace DecData
variable {window : DmaWindow} {mem : Mem} {d d' : DecData}

theorem fetch_left : ∀ {arrived : List (List Byte)} {d : DecData}, d.curRxBuf = none →
    (fetch arrived d).curRxBuf ≠ none →
    (fetch arrived d).left < (arrived.map fun packet => packet.length + 5).sum
  | [], d, hidle, hsome => absurd hidle hsome
  | packet :: arrived, d, hidle, hsome => by
    unfold fetch at hsome ⊢
    rw [List.map_cons, List.sum_cons]
    split at hsome
    · rename_i hdrop
      rw [if_pos hdrop]
      have hrest := fetch_left hidle hsome
      omega
    · rename_i hdrop
      rw [if_neg hdrop]
      unfold left
      simp only [List.length_append, List.length_replicate]
      omega

theorem fetch_keeps : ∀ {arrived : List (List Byte)} {d : DecData}, (fetch arrived d).curRxAddr = d.curRxAddr ∧
    (fetch arrived d).xxxDmaToPhysMask = d.xxxDmaToPhysMask
  | [], _ => ⟨rfl, rfl⟩
  | packet :: arrived, d => by
    unfold fetch
    split
    · exact fetch_keeps
    · exact ⟨rfl, rfl⟩

theorem rxFetch_keeps : d.rxFetch.curRxAddr = d.curRxAddr ∧ d.rxFetch.xxxDmaToPhysMask = d.xxxDmaToPhysMask := by
  unfold rxFetch
  split
  · exact ⟨rfl, rfl⟩
  · exact fetch_keeps

theorem rxFetch_left (hsome : d.rxFetch.curRxBuf ≠ none) : d.rxFetch = d ∨ d.rxFetch.left < d.left := by
  unfold rxFetch at hsome ⊢
  split
  · exact Or.inl rfl
  · rename_i hidle
    rw [if_neg hidle] at hsome
    have hidle : d.curRxBuf = none := by simpa using hidle
    have hlt := fetch_left hidle hsome
    refine Or.inr (lt_of_lt_of_le hlt ?_)
    exact Nat.le_add_right _ _

theorem rxBuffer_left {P : Nat → Prop} (hP : NonOverlapping P) (hplace : P (d.phys d.curRxAddr))
    (hinv : Inv window mem d) (hgo : d.rxBuffer.2 = true) :
    d.rxBuffer.1.left < d.left ∨
      (d.rxBuffer.1.left = d.left ∧ ownedCount P d.rxBuffer.1.mem < ownedCount P d.mem) := by
  cases hbuf : d.curRxBuf with
  | none =>
    unfold rxBuffer at hgo
    rw [hbuf] at hgo
    cases hgo
  | some f =>
    have hreceiving := hinv.rx.receiving
    rw [hbuf] at hreceiving
    obtain ⟨l, -, -, hlt, -⟩ := hreceiving
    obtain ⟨s, hstep⟩ := rxBuffer_go window hinv.mask hbuf hlt hgo
    have hold : d.left = (d.arrived.map fun packet => packet.length + 5).sum + (f.length - d.curRxOffset) := by
      unfold left
      rw [hbuf]
    by_cases hend : f.length ≤ d.curRxOffset + s.bufsize
    · have hnew : d.rxBuffer.1.left = (d.arrived.map fun packet => packet.length + 5).sum := by
        unfold left
        rw [hstep.buf, if_pos hend, hstep.arrived]
        rfl
      left
      omega
    · have hnew : d.rxBuffer.1.left =
          (d.arrived.map fun packet => packet.length + 5).sum + (f.length - (d.curRxOffset + s.bufsize)) := by
        unfold left
        rw [hstep.buf, if_neg hend, hstep.arrived, hstep.offset (not_le.mp hend)]
      by_cases hzero : s.bufsize = 0
      · right
        refine ⟨by omega, ?_⟩
        have hback : s.HandedBack := by
          refine ⟨hstep.put.filled.owned, hstep.put.filled.given, fun a ha => ?_⟩
          apply hstep.put.filled.others a ha
          intro i hi
          omega
        have hat : P s.place := by
          unfold DecStep.place
          rw [hstep.mask, hstep.addr]
          exact hplace
        have hlt := ownedCount_lt hP hat hback
        rwa [hstep.pre, ← hstep.mem] at hlt
      · left
        omega

theorem txLoop_terminates (hapart : NonOverlapping fun p => ∃ b, Goes tx d b ∧ p = b.phys b.curTxAddr) :
    ∃ n d', whileLoop tx n d = some d' := by
  have hdec : ∀ b, Goes tx d b → b.tx.2 = true →
      ownedCount (fun p => ∃ b, Goes tx d b ∧ p = b.phys b.curTxAddr) b.tx.1.mem <
        ownedCount (fun p => ∃ b, Goes tx d b ∧ p = b.phys b.curTxAddr) b.mem := by
    intro b hb hgo
    obtain ⟨s, hstep⟩ := tx_go hgo
    have hat : ∃ b, Goes tx d b ∧ s.place = b.phys b.curTxAddr := by
      refine ⟨b, hb, ?_⟩
      unfold DecStep.place
      rw [hstep.mask, hstep.addr]
      rfl
    have hlt := ownedCount_lt hapart hat hstep.handedBack
    rwa [hstep.pre, ← hstep.mem] at hlt
  obtain ⟨d', hd'⟩ := whileLoop_terminates
    (fun b : DecData => ownedCount (fun p => ∃ b, Goes tx d b ∧ p = b.phys b.curTxAddr) b.mem) (Nat.le_refl _) hdec
  exact ⟨_, d', hd'⟩

theorem rxLoop_terminates (hinv : Inv window mem d)
    (hapart : NonOverlapping fun p => ∃ b, Goes rx d b ∧ p = b.phys b.curRxAddr) :
    ∃ n d', whileLoop rx n d = some d' := by
  -- Bytes of frames count more than all descriptors together.
  have hdec : ∀ b, Goes rx d b → b.rx.2 = true →
      b.rx.1.left * (physLimit + 1) +
          ownedCount (fun p => ∃ b, Goes rx d b ∧ p = b.phys b.curRxAddr) b.rx.1.mem <
        b.left * (physLimit + 1) + ownedCount (fun p => ∃ b, Goes rx d b ∧ p = b.phys b.curRxAddr) b.mem := by
    intro b hb hgo
    have hb_inv : Inv window mem b := hb.inv (fun _ => rx_inv) hinv
    have hsome : b.rxFetch.curRxBuf ≠ none := by
      intro hnone
      unfold rx rxBuffer at hgo
      rw [hnone] at hgo
      cases hgo
    have hat : ∃ c, Goes rx d c ∧ b.rxFetch.phys b.rxFetch.curRxAddr = c.phys c.curRxAddr := by
      refine ⟨b, hb, ?_⟩
      unfold phys
      rw [rxFetch_keeps.1, rxFetch_keeps.2]
    have hstep := rxBuffer_left hapart hat (rxFetch_inv hb_inv) hgo
    have hfetch := rxFetch_left hsome
    have hle := ownedCount_le (fun p => ∃ b, Goes rx d b ∧ p = b.phys b.curRxAddr) b.rx.1.mem
    have hrx : b.rx.1 = b.rxFetch.rxBuffer.1 := rfl
    rw [hrx] at hle ⊢
    unfold physLimit at hle ⊢
    obtain heq | hlt := hfetch
    · rw [heq] at hstep hle ⊢
      omega
    · omega
  obtain ⟨d', hd'⟩ := whileLoop_terminates
    (fun b : DecData => b.left * (physLimit + 1) +
      ownedCount (fun p => ∃ b, Goes rx d b ∧ p = b.phys b.curRxAddr) b.mem) (Nat.le_refl _) hdec
  exact ⟨_, d', hd'⟩

theorem tick_terminates (hinv : Inv window mem d) (hapart : NonOverlapping (Visited d)) :
    ∃ fuel d', d.tick fuel = some d' := by
  have htx : ∃ n d1, d.transmits n = some d1 := by
    unfold transmits
    by_cases hst : has (d.reg csrOpmode) opmodeSt = true
    · simp only [if_pos hst]
      apply txLoop_terminates
      intro p q hp hq
      exact hapart p q (Or.inl ⟨hst, hp⟩) (Or.inl ⟨hst, hq⟩)
    · simp only [if_neg hst]
      exact ⟨0, d, rfl⟩
  obtain ⟨n, d1, hd1⟩ := htx
  have hinv1 : Inv window mem d1 := by
    unfold transmits at hd1
    split at hd1
    · exact whileLoop_inv (fun _ => tx_inv) hinv hd1
    · cases hd1
      exact hinv
  have hrx : ∃ m d2, (if has (d1.reg csrOpmode) opmodeSr then whileLoop rx m d1 else some d1) = some d2 := by
    by_cases hsr : has (d1.reg csrOpmode) opmodeSr = true
    · simp only [if_pos hsr]
      apply rxLoop_terminates hinv1
      intro p q hp hq
      exact hapart p q (Or.inr ⟨n, d1, hd1, hsr, hp⟩) (Or.inr ⟨n, d1, hd1, hsr, hq⟩)
    · simp only [if_neg hsr]
      exact ⟨0, d1, rfl⟩
  obtain ⟨m, d2, hd2⟩ := hrx
  refine ⟨max n m, d2.summary, ?_⟩
  have htx' : d.transmits (max n m) = some d1 := by
    unfold transmits at hd1 ⊢
    split
    · rename_i hst
      rw [if_pos hst] at hd1
      exact whileLoop_mono (le_max_left n m) hd1
    · rename_i hst
      rwa [if_neg hst] at hd1
  have hrx' : (if has (d1.reg csrOpmode) opmodeSr then whileLoop rx (max n m) d1 else some d1) = some d2 := by
    split
    · rename_i hsr
      rw [if_pos hsr] at hd2
      exact whileLoop_mono (le_max_right n m) hd2
    · rename_i hsr
      rwa [if_neg hsr] at hd2
  have htransfers : d.transfers (max n m) = some d2 := by
    unfold transfers
    unfold transmits at htx'
    rw [htx']
    exact hrx'
  rw [tick, htransfers]
  rfl

end DecData

/-- Whole frames are transferred in the runs in which the guest keeps to what the chip can do, and the loops end in all
runs. -/
theorem rings_transfer (window : DmaWindow) (mem : Mem) (sromAddress : List Byte) (tapdev : Bool) (junk : Nat → Byte)
    (ops : List DecOp) :
    (∀ fuel d, ops.foldlM (DecData.step fuel) (start window mem sromAddress tapdev junk) = some d →
      Clean d.history → RingsRight mem d) ∧
    (∀ fuel d op, ops.foldlM (DecData.step fuel) (start window mem sromAddress tapdev junk) = some d →
      NonOverlapping (Visited (d.access op).1) → ∃ fuel' d', d.step fuel' op = some d') := by
  have hinv : ∀ fuel d, ops.foldlM (DecData.step fuel) (start window mem sromAddress tapdev junk) = some d →
      Inv window mem d :=
    fun fuel d hrun => run_inv (start_inv window mem sromAddress tapdev junk) hrun
  constructor
  · intro fuel d hrun hclean
    have h := hinv fuel d hrun
    obtain ⟨hsent, -⟩ := h.tx.clean hclean.noStray hclean.oneBuffer
    refine ⟨hsent, h.tx.wellFormed.frames, (h.txOrder hclean.txAligned).2, h.tx.handedBack, fun fl hfl => ?_,
      (h.rxOrder hclean.rxAligned).2, h.rx.filled, h.rx.overrun, h.linked⟩
    obtain ⟨hputs, hends⟩ := h.rx.done fl hfl
    exact (hclean.fits fl hfl).stored hputs hends
  · intro fuel d op hrun hapart
    unfold DecData.step
    by_cases htick : (d.access op).2 = true
    · simp only [if_pos htick]
      exact DecData.tick_terminates (DecData.access_inv op (hinv fuel d hrun)) hapart
    · simp only [if_neg htick]
      exact ⟨0, _, rfl⟩

def twoBuffersMem : Mem :=
  memoryWrite (fun _ => 0x5a#8) 0x100
    (storeLe32 0x80000000#32 ++ storeLe32 0x62002004#32 ++ storeLe32 0x200#32 ++ storeLe32 0x300#32)

/-- The guest sets the address of the list and starts the transmitter. -/
def twoBuffersRun : List DecOp := [.write 32 0x100#32, .write 48 0x2000#32]

/-- The second buffer is not transmitted. -/
theorem not_rings_transfer : ∃ d, twoBuffersRun.foldlM (DecData.step 2)
    (start .other twoBuffersMem [] false fun _ => 0#8) = some d ∧ ¬ RingsRight twoBuffersMem d := by
  have hlengths : (twoBuffersRun.foldlM (DecData.step 2) (start .other twoBuffersMem [] false fun _ => 0#8)).map
      (fun d => (d.sent.map List.length,
        ((txView d.history).frames.map fun l => l.flatMap DecStep.data).map List.length)) = some ([4], [8]) := by
    decide +kernel
  obtain ⟨d, hrun, hd⟩ := Option.map_eq_some_iff.mp hlengths
  refine ⟨d, hrun, fun hright => ?_⟩
  rw [← hright.sent] at hd
  have hsame := (congrArg Prod.fst hd).symm.trans (congrArg Prod.snd hd)
  exact absurd hsame (by decide)

end Gxemul.Dec21143
