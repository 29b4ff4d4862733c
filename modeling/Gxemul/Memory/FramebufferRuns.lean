import Gxemul.Memory.Framebuffer

/- Runs of a machine with a frame buffer.

   Every page of the frame buffer that some CPU can write without memory_rw()
   is in the range of written offsets. A run keeps this up as long as no other
   CPU than the first can write to the frame buffer when the range is asked for,
   the first CPU's entries have the physical address of their pages, and stores
   through memory_rw() are for whole pages. -/
namespace Gxemul

/-! ## The invariant -/

namespace Machine
variable {N : Nat} (conf : Conf) (fb : Nat)

/-- Every page of the frame buffer that a CPU can write is in the written range,
and so is everything that was stored. -/
structure Inv (m : Machine N) : Prop where
  device : m.mem.Framebuffer conf.arch fb
  range : WrittenRange conf.arch (m.mem.devices fb)
  good : ∀ n, (m.cpus n).tables.Good conf.arch
  writable : ∀ n k, (((m.cpus n).tables.flat conf.arch).slot k).hostStore ≠ none →
    Memory.Contains (m.mem.devices fb) (((m.cpus n).tables.flat conf.arch).slot k).physAddr →
    Covered (m.mem.devices fb) ((((m.cpus n).tables.flat conf.arch).slot k).physAddr - (m.mem.devices fb).baseaddr)
  stored : ∀ o ∈ m.stored, Covered (m.mem.devices fb) o
  tracks : ((m.cpus 0).tables.flat conf.arch).Tracks (Memory.Contains (m.mem.devices fb))
  fits : ∀ n, ((m.cpus n).tables.flat conf.arch).Fits (m.cpus n).tables.mode

variable {conf fb} {m : Machine N}

theorem Inv.covers (h : Inv conf fb m) : m.Covers fb := by
  intro o ho
  refine ⟨_, _, ?_, h.stored o ho⟩
  unfold Memory.dyntransRange
  rw [h.device.own]
  rfl

theorem setCpu_other {n j : Fin (N + 1)} (hj : j ≠ n) (hg : (m.cpus j).tables.Good conf.arch) (c : Cpu) :
    ((m.setCpu n c).cpus j).tables.Good conf.arch ∧
      ((m.setCpu n c).cpus j).tables.mode = (m.cpus j).tables.mode ∧
      (((m.setCpu n c).cpus j).tables.flat conf.arch).slot = ((m.cpus j).tables.flat conf.arch).slot ∧
      (((m.setCpu n c).cpus j).tables.flat conf.arch).entry = ((m.cpus j).tables.flat conf.arch).entry := by
  obtain ⟨hg', hm, hfl⟩ := Tables.setX_spec hg c.tables.x
  simp only [setCpu, if_neg hj]
  rw [hfl]
  exact ⟨hg', hm, rfl, rfl⟩

theorem Inv.setCpu (h : Inv conf fb m) {n : Fin (N + 1)} {c : Cpu} {mem' : Memory} {stored' : List Addr}
    (hdev : mem'.Framebuffer conf.arch fb) (hsame : Memory.SameDevices m.mem mem')
    (hrange : WrittenRange conf.arch (mem'.devices fb))
    (hmono : ∀ o, Covered (m.mem.devices fb) o → Covered (mem'.devices fb) o)
    (hg : c.tables.Good conf.arch)
    (hw : ∀ k, ((c.tables.flat conf.arch).slot k).hostStore ≠ none →
      Memory.Contains (m.mem.devices fb) ((c.tables.flat conf.arch).slot k).physAddr →
      Covered (mem'.devices fb) (((c.tables.flat conf.arch).slot k).physAddr - (m.mem.devices fb).baseaddr))
    (hstored : ∀ o ∈ stored', Covered (mem'.devices fb) o)
    (htracks : n = 0 → (c.tables.flat conf.arch).Tracks (Memory.Contains (m.mem.devices fb)))
    (hfits : (c.tables.flat conf.arch).Fits c.tables.mode) :
    Inv conf fb { m.setCpu n c with mem := mem', stored := stored' } := by
  have hcont : Memory.Contains (mem'.devices fb) = Memory.Contains (m.mem.devices fb) := by
    funext p
    rw [hsame.2 fb]
    rfl
  have hbase : (mem'.devices fb).baseaddr = (m.mem.devices fb).baseaddr := by rw [hsame.2 fb]
  have hself : (m.setCpu n c).cpus n = c := if_pos rfl
  refine ⟨hdev, hrange, fun j => ?_, fun j k hs hc => ?_, hstored, ?_, fun j => ?_⟩
  · by_cases hj : j = n
    · subst hj
      rw [hself]
      exact hg
    · exact (setCpu_other hj (h.good j) c).1
  · rw [hcont] at hc
    rw [hbase]
    by_cases hj : j = n
    · subst hj
      rw [hself] at hs hc ⊢
      exact hw k hs hc
    · rw [(setCpu_other hj (h.good j) c).2.2.1] at hs hc ⊢
      exact hmono _ (h.writable j k hs hc)
  · rw [hcont]
    by_cases hj : (0 : Fin (N + 1)) = n
    · subst hj
      rw [hself]
      exact htracks rfl
    · obtain ⟨-, -, hslot, hentry⟩ := setCpu_other hj (h.good 0) c
      have := h.tracks
      unfold Vph.Tracks at this ⊢
      rw [hslot, hentry]
      exact this
  · by_cases hj : j = n
    · subst hj
      rw [hself]
      exact hfits
    · obtain ⟨-, hm, hslot, -⟩ := setCpu_other hj (h.good j) c
      unfold Vph.Fits
      rw [hm, hslot]
      exact h.fits j

/-! ## Steps -/

theorem footprint_covered (hf : m.mem.Framebuffer conf.arch fb) {d : MemoryDevice} (hr : WrittenRange conf.arch d)
    {paddr : Addr} {len : Nat} (hin : InPage conf.arch paddr len)
    (hc : Memory.Contains (m.mem.devices fb) paddr → Covered d (paddr - (m.mem.devices fb).baseaddr)) :
    ∀ o ∈ m.footprint fb paddr len, Covered d o := by
  intro o ho
  unfold footprint at ho
  split at ho
  · rename_i hcont
    obtain ⟨j, hj, rfl⟩ := List.mem_map.mp ho
    rw [List.mem_range] at hj
    refine hr.covered_page (hc hcont) ?_
    have hal := (conf.arch.aligned_iff _).mp hf.aligned
    have hle : (m.mem.devices fb).baseaddr ≤ paddr := hcont.1
    unfold InPage at hin
    have hsub : (paddr - (m.mem.devices fb).baseaddr).toNat = paddr.toNat - (m.mem.devices fb).baseaddr.toNat := by
      bv_omega
    rw [BitVec.toNat_add, hsub, BitVec.toNat_ofNat]
    rw [BitVec.le_def] at hle
    generalize (m.mem.devices fb).baseaddr.toNat = base at *
    generalize paddr.toNat = p at *
    rcases conf.arch.pageSize_cases with hps | hps <;> rw [hps] at hin hal ⊢ <;> omega
  · cases ho

theorem accessUpdate_device {env : Env} {a : Access} {mem : Memory} {paddr : Addr} {ok i : Nat}
    (hp : env.physicalAddress a = some (paddr, ok)) (hd : mem.deviceFor paddr = some i) {v p : Addr} {hostPage w : Nat}
    (hu : Cpu.accessUpdate conf env a mem = some (.update v hostPage w p)) (hw : Vph.dataFlags w ≠ 0) :
    a.write = true := by
  unfold Cpu.accessUpdate at hu
  rw [hp] at hu
  simp only [hd] at hu
  split at hu
  · cases hu
    by_contra hwrite
    simp [hwrite, Vph.dataFlags, hasFlag] at hw
  · cases hu

theorem Inv.slowAccess (h : Inv conf fb m) {n : Fin (N + 1)} {env : Env} {a : Access} {m' : Machine N}
    (hin : (ScreenOp.access n env a).WithinPages conf.arch) (hslow : m.isSlow conf n a = true)
    (hl : ¬ m.Loses conf fb (.access n env a)) (hs : m.slowAccess conf fb n env a = .ok m') : Inv conf fb m' := by
  obtain ⟨⟨c, mem', r⟩, hrw, hs⟩ := Lib.bind_eq_ok hs
  cases hs
  have hmem := Cpu.memoryRw_mem hrw
  obtain ⟨⟨hg, -⟩, hfits, htracks, hstore⟩ := Cpu.memoryRw_spec (h.good n) hrw
  obtain ⟨hrange, hmono, hnew⟩ := @Memory.Framebuffer.accessMem_range conf env a m.mem fb h.device h.range
  have hsame : Memory.SameDevices m.mem mem' := by
    rw [hmem]
    unfold Cpu.accessMem
    split
    · exact ⟨rfl, fun _ => rfl⟩
    · split
      · exact Memory.noteAccess_sameDevices _ _ _ _ _ _
      · exact ⟨rfl, fun _ => rfl⟩
  rw [← hmem] at hrange hmono hnew
  simp only [Loses, hslow, true_and, not_or, not_and, not_exists] at hl
  obtain ⟨hfull, hre⟩ := hl
  refine h.setCpu (hmem ▸ h.device.accessMem) hsame hrange hmono hg (fun k hk hc => ?_) ?_
    (fun hn => htracks _ (hn ▸ h.tracks) fun o ho => hre hn o ho) (hfits (h.fits n))
  · rcases hstore k hk with ⟨hk', hp⟩ | ⟨v, hostPage, w, p, hu, -, hp, hw⟩
    · rw [hp] at hc ⊢
      exact hmono _ (h.writable n k hk' hc)
    · -- the page has been made writable: the access is a write to the device
      obtain ⟨paddr, ok, hostPage', w', hpa, hnf, heq⟩ := Cpu.accessUpdate_eq hu
      cases heq
      rw [hp] at hc ⊢
      have hc' := (h.device.contains_pageAddr paddr).mp hc
      have hwrite := accessUpdate_device hpa (h.device.sorted.deviceFor_eq h.device.lt hc') hu hw
      exact hrange.covered_page (hnew paddr ok hpa hwrite hnf hc') (h.device.offset_page hc').symm
  · intro o ho
    rw [List.mem_append] at ho
    rcases ho with ho | ho
    · split at ho
      · rename_i hwrite
        split at ho
        · rename_i paddr ok hpa
          refine footprint_covered h.device hrange (hin.2 paddr ok hpa) (fun hc => ?_) o ho
          refine hnew paddr ok hpa hwrite ?_ hc
          rw [← Bool.not_eq_true]
          exact fun hnf => hfull hwrite paddr ok hpa hc hnf
        · cases ho
      · cases ho
    · exact hmono o (h.stored o ho)

theorem Inv.fastStore (h : Inv conf fb m) {n : Fin (N + 1)} {a : Access} (hin : InPage conf.arch a.vaddr a.len)
    (hfast : (m.slotFor conf n a).hostStore ≠ none) : Inv conf fb
      { m with stored := m.footprint fb ((m.slotFor conf n a).physAddr + (a.vaddr &&& conf.arch.offsetMask)) a.len
        ++ m.stored } := by
  refine ⟨h.device, h.range, h.good, h.writable, fun o ho => ?_, h.tracks, h.fits⟩
  rw [List.mem_append] at ho
  rcases ho with ho | ho
  · unfold slotFor at ho hfast
    rw [Tables.slotOf_eq] at ho hfast
    have hal := (h.good n).2.1.physAligned (conf.arch.addrToPagenr (m.cpus n).tables.mode a.vaddr)
    have hwr := h.writable n _ hfast
    generalize (((m.cpus n).tables.flat conf.arch).slot _).physAddr = p at ho hal hwr
    obtain ⟨hpage, hmod⟩ := conf.arch.pageAddr_add hal a.vaddr
    refine footprint_covered h.device h.range ?_ (fun hc => ?_) o ho
    · unfold InPage at hin ⊢
      rw [hmod]
      exact hin
    · have hc' := (h.device.contains_pageAddr _).mpr hc
      rw [hpage] at hc'
      have hoff := h.device.offset_page hc
      rw [hpage] at hoff
      exact h.range.covered_page (hwr hc') hoff
  · exact h.stored o ho

theorem Inv.access (h : Inv conf fb m) {n : Fin (N + 1)} {env : Env} {a : Access} {m' : Machine N}
    (hin : (ScreenOp.access n env a).WithinPages conf.arch) (hl : ¬ m.Loses conf fb (.access n env a))
    (hs : m.access conf fb n env a = .ok m') : Inv conf fb m' := by
  unfold Machine.access at hs
  split at hs
  · rename_i hslow
    exact h.slowAccess hin hslow hl hs
  · rename_i hfast
    split at hs
    · rename_i hwrite
      cases hs
      refine h.fastStore hin.1 fun hnone => hfast ?_
      simp [isSlow, hwrite, hnone]
    · cases hs
      exact h

theorem Inv.table (h : Inv conf fb m) {n : Fin (N + 1)} {o : TableOp} {m' : Machine N}
    (hread : ∀ v hostPage w p, o = .update v hostPage w p → Vph.dataFlags w = 0)
    (hl : n = 0 → ¬ o.RepointsTo conf.arch (Memory.Contains (m.mem.devices fb)) (m.cpus n))
    (hs : m.table conf n o = .ok m') : Inv conf fb m' := by
  obtain ⟨c, hc, hs⟩ := Lib.bind_eq_ok hs
  cases hs
  obtain ⟨hg, -, -⟩ := Cpu.tableStep_cases (h.good n) hc
  refine h.setCpu h.device ⟨rfl, fun _ => rfl⟩ h.range (fun _ ho => ho) hg (fun k hk hcont => ?_) h.stored
    (fun hn => Cpu.tableStep_tracks (h.good n) (hn ▸ h.tracks) (hl hn) hc) (Cpu.tableStep_fits (h.good n) (h.fits n) hc)
  rcases Cpu.tableStep_stored (h.good n) hc hk with ⟨hk', hp⟩ | ⟨v, hostPage, w, p, ho, -, -, hw⟩
  · rw [hp] at hcont ⊢
    exact h.writable n k hk' hcont
  · exact absurd (hread v hostPage w p ho) hw

/-! ## memory_device_dyntrans_access() -/

theorem mem_dirtyPages {a : Arch} {low high s : Addr} (hl : low.toNat % 2 ^ a.pageShift = 0)
    (hs : s.toNat % 2 ^ a.pageShift = 0) (h1 : low ≤ s) (h2 : s ≤ high) : s ∈ dirtyPages a low high := by
  unfold dirtyPages
  rw [if_pos (by bv_omega)]
  refine List.mem_map.mpr ⟨(s.toNat - low.toNat) / 2 ^ a.pageShift, List.mem_range.mpr ?_, ?_⟩
  · exact Nat.lt_succ_of_le (Nat.div_le_div_right (Nat.sub_le_sub_right h2 _))
  · apply BitVec.eq_of_toNat_eq
    rw [BitVec.le_def] at h1
    rw [BitVec.toNat_add, BitVec.toNat_ofNat]
    rcases a.pageSize_cases with hps | hps <;> rw [hps] at hl hs ⊢ <;> omega

theorem written_mem_dirtyPages (hf : m.mem.Framebuffer conf.arch fb) (hr : WrittenRange conf.arch (m.mem.devices fb))
    (hne : (m.mem.devices fb).dyntransWriteLow ≠ 0xffffffffffffffff#64) {p : Addr}
    (hc : Memory.Contains (m.mem.devices fb) p) (hp : conf.arch.Aligned p)
    (hcov : Covered (m.mem.devices fb) (p - (m.mem.devices fb).baseaddr)) :
    p - (m.mem.devices fb).baseaddr ∈
      dirtyPages conf.arch (m.mem.devices fb).dyntransWriteLow (m.mem.devices fb).dyntransWriteHigh := by
  rcases hr with ⟨hl, -⟩ | ⟨hl, -, -⟩
  · exact absurd hl hne
  · have hal := (conf.arch.aligned_iff _).mp hp
    have hbase := (conf.arch.aligned_iff _).mp hf.aligned
    refine mem_dirtyPages hl ?_ hcov.1 hcov.2
    have hle := hc.1
    have hsub : (p - (m.mem.devices fb).baseaddr).toNat = p.toNat - (m.mem.devices fb).baseaddr.toNat := by bv_omega
    rw [hsub]
    rw [BitVec.le_def] at hle
    rcases conf.arch.pageSize_cases with hps | hps <;> rw [hps] at hal hbase ⊢ <;> omega

theorem markReadOnly_spec {D : Addr → Prop} {baseaddr : Addr} : ∀ (pages : List Addr) {c c' : Cpu},
    c.tables.Good conf.arch → (c.tables.flat conf.arch).Tracks D → (c.tables.flat conf.arch).Fits c.tables.mode →
    c.markReadOnly conf baseaddr pages = .ok c' →
    c'.tables.Good conf.arch ∧ c'.tables.mode = c.tables.mode ∧
      (c.tables.flat conf.arch).Shrinks (c'.tables.flat conf.arch) ∧
      ∀ s ∈ pages, D (baseaddr + s) → ∀ k, ((c'.tables.flat conf.arch).slot k).physAddr = baseaddr + s →
        ((c'.tables.flat conf.arch).slot k).hostStore = none
  | [], c, _, hg, _, _, h => by
    cases h
    exact ⟨hg, rfl, .rfl, fun s hs => by cases hs⟩
  | s :: pages, c, c', hg, ht, hf, h => by
    unfold Cpu.markReadOnly at h
    rw [List.foldlM_cons] at h
    obtain ⟨c1, hc1, h⟩ := Lib.bind_eq_ok h
    obtain ⟨c1', hok, hg1, hm1, hfl⟩ := @Cpu.tableStep_spec conf c hg
      (.invalidate (baseaddr + s) (justMarkAsNonWritable ||| invalidatePaddr)) trivial
    rw [show c.tableStep conf (.invalidate (baseaddr + s) (justMarkAsNonWritable ||| invalidatePaddr)) = .ok c1 from hc1]
      at hok
    cases hok
    have hsh : (c.tables.flat conf.arch).Shrinks (c1.tables.flat conf.arch) := by
      rw [hfl]
      exact (Vph.invalidateTranslationCaches_spec hg.2.1 _ _ _).2.1
    obtain ⟨hg', hm', hsh', hrest⟩ := markReadOnly_spec pages hg1 (ht.shrinks hsh) (hm1 ▸ hf.shrinks hsh) h
    refine ⟨hg', hm'.trans hm1, hsh.trans hsh', fun s' hs' hd k hk => ?_⟩
    rcases List.mem_cons.mp hs' with rfl | hs'
    · by_contra hst
      obtain ⟨hst1, -, hp1⟩ := hsh'.of_stored hst
      rw [hst1, hfl] at hst
      rw [hp1, hfl] at hk
      exact hst (Vph.marked_nonwritable hg.2.1 ht hf hd _ hk)
    · exact hrest s' hs' hd k hk

theorem resetRange_same (mem : Memory) (i : Nat) : Memory.SameDevices mem (mem.resetRange i) := by
  refine ⟨rfl, fun j => ?_⟩
  unfold Memory.resetRange
  by_cases hj : j = i
  · subst hj
    simp
  · simp [Function.update_of_ne hj]

theorem sorted_resetRange {mem : Memory} (h : mem.Sorted) (i : Nat) : (mem.resetRange i).Sorted := by
  have hd := (resetRange_same mem i).2
  refine ⟨fun j hj => ?_, fun j k hjk hk => ?_, fun j hj => ?_, h.hint⟩
  · rw [hd]
    exact h.ordered j hj
  · rw [hd, hd k]
    exact h.apart j k hjk hk
  · rw [hd]
    exact h.within j hj

theorem Inv.emptied (h : Inv conf fb m) {cpus : Fin (N + 1) → Cpu} (hg : ∀ j, (cpus j).tables.Good conf.arch)
    (hw : ∀ j k, (((cpus j).tables.flat conf.arch).slot k).hostStore ≠ none →
      ¬ Memory.Contains (m.mem.devices fb) (((cpus j).tables.flat conf.arch).slot k).physAddr)
    (ht : ((cpus 0).tables.flat conf.arch).Tracks (Memory.Contains (m.mem.devices fb)))
    (hf : ∀ j, ((cpus j).tables.flat conf.arch).Fits (cpus j).tables.mode) :
    Inv conf fb ⟨cpus, m.mem.resetRange fb, []⟩ := by
  have hsame := resetRange_same m.mem fb
  have hcont : Memory.Contains ((m.mem.resetRange fb).devices fb) = Memory.Contains (m.mem.devices fb) := by
    funext p
    rw [hsame.2 fb]
    rfl
  refine ⟨h.device.same hsame (sorted_resetRange h.device.sorted fb), .inl ?_, hg, fun j k hk hc => ?_, ?_, ?_, hf⟩
  · simp [Memory.resetRange]
  · rw [hcont] at hc
    exact absurd hc (hw j k hk)
  · intro o ho
    cases ho
  · rw [hcont]
    exact ht

theorem Inv.dyntransAccess (h : Inv conf fb m) {m' : Machine N} (hl : ¬ m.Loses conf fb .dyntransAccess)
    (hs : m.dyntransAccess conf (m.mem.devices fb).extra = .ok m') : Inv conf fb m' := by
  unfold Machine.dyntransAccess at hs
  rw [h.device.own] at hs
  dsimp only at hs
  split at hs
  · -- nothing was written
    rename_i hlow
    cases hs
    refine h.emptied h.good (fun j k hk hc => ?_) h.tracks h.fits
    have hcov := h.writable j k hk hc
    rcases h.range with ⟨hl', hh⟩ | ⟨hl', -⟩
    · exact not_covered_of_empty hl' hh hcov
    · rw [hlow] at hl'
      rcases conf.arch.pageSize_cases with hps | hps <;> rw [hps] at hl' <;> exact absurd hl' (by decide)
  · rename_i hlow
    obtain ⟨c, hc, hs⟩ := Lib.bind_eq_ok hs
    cases hs
    obtain ⟨hg, hm, hsh, hmarked⟩ := markReadOnly_spec _ (h.good 0) h.tracks (h.fits 0) hc
    refine h.emptied (fun j => ?_) (fun j k hk hcont => ?_) ?_ (fun j => ?_) <;>
      simp only [Machine.setCpu] at *
    · split
      · exact hg
      · exact (Tables.setX_spec (h.good j) _).1
    · split at hk
      · -- the first CPU: the page was in the range, and has been marked
        rename_i hj
        rw [if_pos hj] at hcont
        obtain ⟨hst, -, hp⟩ := hsh.of_stored hk
        have hcov := h.writable 0 k (hst ▸ hk) (hp ▸ hcont)
        rw [← hp] at hcov
        have hmem := written_mem_dirtyPages h.device h.range hlow hcont (hg.2.1.physAligned k) hcov
        have hadd : (m.mem.devices fb).baseaddr + (((c.tables.flat conf.arch).slot k).physAddr -
            (m.mem.devices fb).baseaddr) = ((c.tables.flat conf.arch).slot k).physAddr := by bv_omega
        exact hk (hmarked _ hmem (by rw [hadd]; exact hcont) k hadd.symm)
      · -- the others
        rename_i hj
        rw [if_neg hj] at hcont
        obtain ⟨-, -, hfl⟩ := Tables.setX_spec (h.good j) c.tables.x
        rw [hfl] at hk hcont
        exact hl ⟨j, hj, k, hk, hcont⟩
    · rw [if_pos trivial]
      exact h.tracks.shrinks hsh
    · split
      · rw [hm]
        exact (h.fits 0).shrinks hsh
      · obtain ⟨-, hm', hfl⟩ := Tables.setX_spec (h.good j) c.tables.x
        rw [hm', hfl]
        exact h.fits j

theorem Inv.step (h : Inv conf fb m) {o : ScreenOp N} {m' : Machine N} (hin : o.WithinPages conf.arch)
    (hl : ¬ m.Loses conf fb o) (hs : m.screenStep conf fb o = .ok m') : Inv conf fb m' := by
  cases o with
  | access n env a => exact h.access hin hl hs
  | fetch n v hostPage p =>
    refine h.table (fun _ _ _ _ heq => ?_) (fun hn hr => hl ⟨hn, hr⟩) hs
    cases heq
    rfl
  | invalidate n addr flags => exact h.table (fun _ _ _ _ heq => by cases heq) (fun _ => id) hs
  | invalidateCode n addr flags => exact h.table (fun _ _ _ _ heq => by cases heq) (fun _ => id) hs
  | dyntransAccess => exact h.dyntransAccess hl hs

/-! ## Runs -/

def start (N : Nat) (mode : Mode) (x : Nat) (tc : Tc) (mem : Memory) : Machine N := ⟨fun _ => Cpu.start mode x tc, mem, []⟩

theorem Inv.start {mode : Mode} (hm : conf.arch.hasMode mode = true) (x : Nat) (tc : Tc) {mem : Memory}
    (hf : mem.Framebuffer conf.arch fb) (hl : (mem.devices fb).dyntransWriteLow = 0xffffffffffffffff#64)
    (hh : (mem.devices fb).dyntransWriteHigh = 0) : Inv conf fb (Machine.start N mode x tc mem) := by
  have hfl : ((Cpu.start mode x tc).tables.flat conf.arch) = Vph.init x := Tables.flat_init mode x
  refine ⟨hf, .inl ⟨hl, hh⟩, fun _ => Tables.Good.init hm x, fun _ k hk => ?_, ?_, ?_, fun _ => ?_⟩
  · simp only [Machine.start] at hk
    rw [hfl] at hk
    exact absurd rfl hk
  · intro o ho
    cases ho
  · simp only [Machine.start]
    rw [hfl]
    exact .init x
  · simp only [Machine.start]
    rw [hfl]
    exact .init x

/-- In every run of naturally aligned accesses whose steps do not lose track of
what is written, what was stored to since the last call is in the range that the
next call returns. -/
theorem covers_of_not_loses (conf : Conf) {mode : Mode} (hm : conf.arch.hasMode mode = true) (x : Nat) (tc : Tc)
    {mem : Memory} {fb : Nat} (hf : mem.Framebuffer conf.arch fb)
    (hfresh : (mem.devices fb).dyntransWriteLow = 0xffffffffffffffff#64 ∧ (mem.devices fb).dyntransWriteHigh = 0)
    (ops : List (ScreenOp N)) (hin : ∀ o ∈ ops, o.WithinPages conf.arch)
    (hl : Lib.Along (screenStep conf fb) (fun m o => ¬ m.Loses conf fb o) ops (start N mode x tc mem)) :
    Lib.Reaches (screenStep conf fb) (Covers fb) ops (start N mode x tc mem) :=
  (Lib.reaches_of_along _ (fun _ _ _ ho h hl hs => h.step ho hl hs) hin (Inv.start hm x tc hf hfresh.1 hfresh.2) hl).mono
    fun _ h => h.covers

def screenMem : Memory :=
  match Memory.init.deviceRegister 0x18000000#64 0x2000#64 1 1 (dmDyntransOk ||| dmDyntransWriteOk) 4096 with
  | .ok mem => mem
  | .error _ => Memory.init

theorem screenMem_framebuffer : screenMem.Framebuffer .mips 0 where
  sorted := @Memory.Sorted.deviceRegister Memory.init Memory.sorted_init screenMem 0x18000000#64 0x2000#64 1 1
    (dmDyntransOk ||| dmDyntransWriteOk) 4096 (by decide) rfl
  lt := by decide
  aligned := by decide
  pages := by decide
  endaddr := by decide
  dyntransOk := by decide
  dyntransWriteOk := by decide
  own := by decide

/-- A store of the only CPU, and a call. -/
theorem covers_oneCpu :
    Lib.Reaches (screenStep mips64 0) (Covers 0)
      [.access 0 (Env.r4000 0x18001010#64) ⟨0xffffffffb8001010#64, 4, true, cacheData⟩, .dyntransAccess]
      (start 0 .mode64 0 Tc.init screenMem) := by
  refine covers_of_not_loses mips64 rfl 0 Tc.init screenMem_framebuffer (by decide) _ ?_ ⟨?_, fun m' _ => ⟨?_, fun _ _ => trivial⟩⟩
  · simp only [List.mem_cons, List.not_mem_nil, or_false, forall_eq_or_imp, forall_eq]
    refine ⟨⟨by decide, fun paddr ok hp => ?_⟩, trivial⟩
    cases hp
    decide
  · rintro ⟨-, ⟨-, paddr, ok, hp, -, hfull⟩ | ⟨-, o, ho, hr⟩⟩
    · cases hp
      exact absurd hfull (by decide)
    · cases ho
      exact absurd rfl hr.1
  · rintro ⟨n, hn, -⟩
    exact hn (Fin.fin_one_eq_zero n)

/-- The second CPU stores, the first one is asked for the range, and the second
CPU stores again to the page, which it can still write. -/
theorem not_covers_of_second_cpu :
    ∃ m, Lib.runOps (screenStep (N := 1) mips64 0)
      [.access 1 (Env.r4000 0x18001010#64) ⟨0xffffffffb8001010#64, 4, true, cacheData⟩, .dyntransAccess,
        .access 1 (Env.r4000 0x18001020#64) ⟨0xffffffffb8001020#64, 4, true, cacheData⟩]
      (start 1 .mode64 0 Tc.init screenMem) = .ok m ∧ ¬ m.Covers 0 := by
  obtain ⟨m, hrun, heq⟩ := Lib.runOps_eval (screenStep (N := 1) mips64 0)
    [.access 1 (Env.r4000 0x18001010#64) ⟨0xffffffffb8001010#64, 4, true, cacheData⟩, .dyntransAccess,
      .access 1 (Env.r4000 0x18001020#64) ⟨0xffffffffb8001020#64, 4, true, cacheData⟩]
    (start 1 .mode64 0 Tc.init screenMem)
    (fun m : Machine 1 => (m.stored.head?, m.mem.dyntransRange (m.mem.devices 0).extra))
    (some 0x1020#64, some (0xffffffffffffffff#64, 0)) (by decide +kernel)
  obtain ⟨hst, hrange⟩ := Prod.mk.inj heq
  refine ⟨m, hrun, fun hc => ?_⟩
  obtain ⟨low, high, hr, hlow, hhigh⟩ := hc _ (List.mem_of_head? hst)
  rw [hrange] at hr
  cases hr
  exact absurd hlow (by decide)

end Machine

end Gxemul
