import Gxemul.Memory.HostPages
import Gxemul.Sh.LoadStore
import Gxemul.Sh.MmuAgree

/- The two words of eight bytes in RAM, and the accesses that loads and stores of them
   make.

   Both words are in one page, whatever its size. An access may count URC and may put
   the page in the translation tables. Neither changes where the words are. -/
namespace Gxemul.Sh
open Lib (Byte ByteMem value bytes)
open Arm (hostWord)

/-! ## Lookups -/

namespace Mmu
variable (m : Mmu) (sr : Word) (f : V2pFlags)

/-- What sh_translate_v2p() returns. -/
def lookup (vaddr : Word) : Except Exit V2pResult := Prod.snd <$> m.shTranslateV2p sr f (vaddr.setWidth 64)

theorem setWidth_setWidth (vaddr : Word) : (vaddr.setWidth 64).setWidth 32 = vaddr := by
  apply BitVec.eq_of_toNat_eq
  rw [BitVec.toNat_setWidth, BitVec.toNat_setWidth]
  omega

theorem lookup_eq (vaddr : Word) : m.lookup sr f vaddr =
    match segment sr m vaddr f.instr with
    | .mapped => .ok (match (m.searched f.instr).find? (m.hit sr vaddr) with
      | none => Mmu.failed f (Mmu.tlbMiss f)
      | some e => Mmu.permission sr f e.lo (BitVec.ofNat 32 (e.paddr vaddr)))
    | .direct paddr => .ok (.returned 2 paddr)
    | .noAccess => .ok (Mmu.failed f (Mmu.tlbMiss f))
    | .reserved =>
      if f.instr = false ∧ f.noExceptions = true then .ok (.returned 2 0#32) else .error .unimplementedShAddress := by
  unfold lookup
  rw [shTranslateV2p_eq, setWidth_setWidth]
  cases segment sr m vaddr f.instr with
  | mapped =>
    rw [translateViaMmu_eq]
    rfl
  | direct paddr => rfl
  | noAccess => rfl
  | reserved =>
    dsimp only
    split <;> rfl

theorem shTranslateV2p_mmu {m m' : Mmu} {sr : Word} {f : V2pFlags} {vaddr : Addr} {r : V2pResult}
    (h : m.shTranslateV2p sr f vaddr = .ok (m', r)) : m' = m ∨ m' = m.countUrc := by
  rw [shTranslateV2p_eq] at h
  cases hs : segment sr m (vaddr.setWidth 32) f.instr with
  | mapped =>
    rw [hs, translateViaMmu_eq] at h
    cases h
    cases f.noExceptions with
    | false => exact .inr rfl
    | true => exact .inl rfl
  | direct paddr =>
    rw [hs] at h
    cases h
    exact .inl rfl
  | noAccess =>
    rw [hs] at h
    cases h
    exact .inl rfl
  | reserved =>
    rw [hs] at h
    dsimp only at h
    split at h
    · cases h
      exact .inl rfl
    · cases h

theorem lookup_countUrc (vaddr : Word) : m.countUrc.lookup sr f vaddr = m.lookup sr f vaddr := by
  have hseg : segment sr m.countUrc vaddr f.instr = segment sr m vaddr f.instr := by
    unfold segment
    rw [countUrc_mmucr m (by decide)]
  rw [lookup_eq, lookup_eq, hseg, find_countUrc]

variable {m sr f}

theorem permission_paddr {lo paddr q : Word} {ok : Nat} (hf : f.noExceptions = false)
    (h : Mmu.permission sr f lo paddr = .returned ok q) :
    (ok = 1 ∨ ok = 2) ∧ q = paddr ∧ ∀ paddr', Mmu.permission sr f lo paddr' = .returned ok paddr' := by
  have heq := fun paddr => permission_eq sr ⟨0#32, lo⟩ f paddr
  rw [heq] at h
  have hfail : ∀ expevt, Mmu.failed f expevt = .exception expevt := by
    intro expevt
    unfold Mmu.failed
    rw [hf]
    rfl
  cases hp : TlbEntry.permission ⟨0#32, lo⟩ (sr.getLsbD 30) f.write f.instr with
  | readOnly =>
    rw [hp] at h
    cases h
    exact ⟨.inl rfl, rfl, fun paddr' => by rw [heq, hp]⟩
  | readWrite =>
    rw [hp] at h
    cases h
    exact ⟨.inr rfl, rfl, fun paddr' => by rw [heq, hp]⟩
  | protection =>
    rw [hp] at h
    rw [hfail] at h
    cases h
  | initialWrite =>
    rw [hp] at h
    dsimp only at h
    rw [hfail] at h
    cases h

theorem lookup_returned {a paddr : Word} {ok : Nat} (hf : f.noExceptions = false)
    (h : m.lookup sr f a = .ok (.returned ok paddr)) :
    (segment sr m a f.instr = .direct paddr ∧ ok = 2) ∨
      (segment sr m a f.instr = .mapped ∧ (ok = 1 ∨ ok = 2) ∧ ∃ e, (m.searched f.instr).find? (m.hit sr a) = some e ∧
        paddr = BitVec.ofNat 32 (e.paddr a) ∧ ∀ p, Mmu.permission sr f e.lo p = .returned ok p) := by
  have hfail : ∀ expevt ok paddr, Mmu.failed f expevt ≠ .returned ok paddr := by
    intro expevt ok paddr
    unfold Mmu.failed
    rw [hf]
    exact nofun
  rw [lookup_eq] at h
  cases hs : segment sr m a f.instr with
  | mapped =>
    rw [hs] at h
    have h := Except.ok.inj h
    cases hfind : (m.searched f.instr).find? (m.hit sr a) with
    | none =>
      rw [hfind] at h
      exact absurd h (hfail _ _ _)
    | some e =>
      rw [hfind] at h
      obtain ⟨hok, rfl, hall⟩ := permission_paddr hf h
      exact .inr ⟨rfl, hok, e, rfl, rfl, hall⟩
  | direct p =>
    rw [hs] at h
    cases h
    exact .inl ⟨rfl, rfl⟩
  | noAccess =>
    rw [hs] at h
    exact absurd (Except.ok.inj h) (hfail _ _ _)
  | reserved =>
    have hno : ¬ (f.instr = false ∧ f.noExceptions = true) := by
      rw [hf]
      exact fun h => by cases h.2
    rw [hs] at h
    rw [if_neg hno] at h
    cases h

end Mmu

section
variable {a : Word}

theorem toNat_second (ha : a.toNat % 8 = 0) : (a + 4#32).toNat = a.toNat + 4 := by
  rw [BitVec.toNat_add, BitVec.toNat_ofNat]
  omega

theorem page_second (ha : a.toNat % 8 = 0) (e : TlbEntry) :
    (a + 4#32).toNat / 2 ^ e.pageShift = a.toNat / 2 ^ e.pageShift ∧
      (a + 4#32).toNat % 2 ^ e.pageShift = a.toNat % 2 ^ e.pageShift + 4 := by
  rw [toNat_second ha]
  rcases e.pageShift_cases with h | h | h | h <;> rw [h] <;> omega

theorem hit_second (ha : a.toNat % 8 = 0) (m : Mmu) (sr : Word) : m.hit sr (a + 4#32) = m.hit sr a := by
  funext e
  rw [Bool.eq_iff_iff, hit_iff, hit_iff]
  unfold Matches
  rw [(page_second ha e).1]

theorem paddr_second (ha : a.toNat % 8 = 0) (e : TlbEntry) :
    BitVec.ofNat 32 (e.paddr (a + 4#32)) = BitVec.ofNat 32 (e.paddr a) + 4#32 := by
  unfold TlbEntry.paddr
  rw [(page_second ha e).2, ← Nat.add_assoc, BitVec.ofNat_add]

theorem segment_second (ha : a.toNat % 8 = 0) (m : Mmu) (sr : Word) (instr : Bool) :
    segment sr m (a + 4#32) instr =
      match segment sr m a instr with
      | .direct paddr => .direct (paddr + 4#32)
      | x => x := by
  have hlow : BitVec.ofNat 32 ((a.toNat + 4) % 2 ^ 29) = BitVec.ofNat 32 (a.toNat % 2 ^ 29) + 4#32 := by
    have h29 : (a.toNat + 4) % 2 ^ 29 = a.toNat % 2 ^ 29 + 4 := by omega
    rw [h29, BitVec.ofNat_add]
  unfold segment
  rw [toNat_second ha]
  by_cases h0 : a.toNat < 0x80000000 ∨ 0xc0000000 ≤ a.toNat ∧ a.toNat < 0xe0000000
  · rw [if_pos (by omega), if_pos h0, hlow]
    cases m.mmucr.getLsbD 0 <;> rfl
  rw [if_neg (by omega), if_neg h0]
  by_cases h1 : 0xe0000000 ≤ a.toNat ∧ a.toNat < 0xe4000000
  · rw [if_pos (by omega), if_pos h1]
  rw [if_neg (by omega), if_neg h1]
  cases sr.getLsbD 30 with
  | false => rfl
  | true =>
    by_cases h2 : a.toNat < 0xc0000000
    · rw [if_pos (show a.toNat + 4 < 0xc0000000 by omega), if_pos h2, hlow]
      rfl
    · rw [if_neg (show ¬ a.toNat + 4 < 0xc0000000 by omega), if_neg h2]
      by_cases h3 : 0xf0000000 ≤ a.toNat ∧ instr = false
      · rw [if_pos (show 0xf0000000 ≤ a.toNat + 4 ∧ instr = false from ⟨by omega, h3.2⟩), if_pos h3]
        rfl
      · rw [if_neg (show ¬ (0xf0000000 ≤ a.toNat + 4 ∧ instr = false) from fun h => h3 ⟨by omega, h.2⟩), if_neg h3]
        rfl

section
variable {m : Mmu} {sr : Word} {f : V2pFlags} {ok : Nat} {paddr : Word}

theorem lookup_second (ha : a.toNat % 8 = 0) (hf : f.noExceptions = false)
    (h : m.lookup sr f a = .ok (.returned ok paddr)) :
    m.lookup sr f (a + 4#32) = .ok (.returned ok (paddr + 4#32)) := by
  rw [Mmu.lookup_eq, segment_second ha, hit_second ha]
  rcases Mmu.lookup_returned hf h with ⟨hs, rfl⟩ | ⟨hs, -, e, hfind, rfl, hall⟩
  · rw [hs]
  · rw [hs]
    rw [hfind]
    dsimp only
    rw [paddr_second ha, hall]

theorem lookup_low (hf : f.noExceptions = false) (h : m.lookup sr f a = .ok (.returned ok paddr)) :
    paddr.toNat % 8 = a.toNat % 8 := by
  rcases Mmu.lookup_returned hf h with ⟨hs, -⟩ | ⟨-, -, e, -, rfl, -⟩
  · unfold segment at hs
    dsimp only at hs
    repeat' split at hs
    all_goals cases hs
    all_goals try rw [BitVec.toNat_ofNat]
    all_goals omega
  · rw [BitVec.toNat_ofNat]
    unfold TlbEntry.paddr
    rcases e.pageShift_cases with h | h | h | h <;> rw [h] <;> omega

theorem lookup_full (hf : f.noExceptions = false) (h : m.lookup sr f a = .ok (.returned ok paddr)) :
    hasFlag ok memoryNotFullPage = false := by
  rcases Mmu.lookup_returned hf h with ⟨-, rfl⟩ | ⟨-, rfl | rfl, -⟩
  · rfl
  · rfl
  · rfl

end

end

/-! ## RAM -/

def wordAt (a : Word) (second : Bool) : Word := if second then a + 4#32 else a

namespace ShMachine

/-- Eight bytes that may be loaded and stored are in RAM, in the page `block` of the host. -/
structure PairRam (io : ShIo) (s : ShMachine) (a paddr : Word) (block : Nat) : Prop where
  aligned : a.toNat % 8 = 0
  good : s.dyn.tables.Good .sh
  mode : s.dyn.tables.mode = .mode32
  translated : ∀ write, ∃ ok, s.cpu.mmu.lookup (s.reg .sr) ⟨write, false, false⟩ a = .ok (.returned ok paddr)
  ram : ∀ second, s.mem.deviceFor ((wordAt paddr second).setWidth 64) = none ∧
    (wordAt paddr second).setWidth 64 < io.env.physicalMax
  hostaddr : ∀ write, io.env.hostaddr (Arch.sh.pageAddr (paddr.setWidth 64)) write = some block
  mapped : (s.dyn.tables.slotOf .sh (a.setWidth 64)).PointsTo block

def wordPtr (paddr : Word) (block : Nat) (second : Bool) : Nat :=
  block + paddr.toNat % 4096 + if second then 4 else 0

variable {c : ShConf} {io : ShIo} {s s' : ShMachine} {a paddr : Word} {block : Nat}

theorem PairRam.kept (h : s.PairRam io a paddr block)
    (hmmu : s'.cpu.mmu = s.cpu.mmu ∨ s'.cpu.mmu = s.cpu.mmu.countUrc) (hsr : s'.reg .sr = s.reg .sr)
    (hmem : s'.mem = s.mem) (hgood : s'.dyn.tables.Good .sh) (hmode : s'.dyn.tables.mode = s.dyn.tables.mode)
    (hmapped : (s'.dyn.tables.slotOf .sh (a.setWidth 64)).PointsTo block) : s'.PairRam io a paddr block := by
  refine ⟨h.aligned, hgood, hmode.trans h.mode, fun write => ?_, fun second => ?_, h.hostaddr, hmapped⟩
  · obtain ⟨ok, hok⟩ := h.translated write
    refine ⟨ok, ?_⟩
    rw [hsr]
    rcases hmmu with hmmu | hmmu
    · rw [hmmu, hok]
    · rw [hmmu, Mmu.lookup_countUrc, hok]
  · rw [hmem]
    exact h.ram second

theorem PairRam.of_regs (h : s.PairRam io a paddr block) (hmmu : s'.cpu.mmu = s.cpu.mmu) (hsr : s'.reg .sr = s.reg .sr)
    (hmem : s'.mem = s.mem) (hdyn : s'.dyn = s.dyn) : s'.PairRam io a paddr block :=
  h.kept (.inl hmmu) hsr hmem (hdyn ▸ h.good) (by rw [hdyn]) (hdyn ▸ h.mapped)

theorem PairRam.paddr_aligned (h : s.PairRam io a paddr block) : paddr.toNat % 8 = 0 := by
  obtain ⟨ok, hok⟩ := h.translated false
  have hlow := lookup_low rfl hok
  rw [hlow]
  exact h.aligned

theorem PairRam.lookup (h : s.PairRam io a paddr block) (write second : Bool) :
    ∃ ok, s.cpu.mmu.lookup (s.reg .sr) ⟨write, false, false⟩ (wordAt a second) =
      .ok (.returned ok (wordAt paddr second)) := by
  obtain ⟨ok, hok⟩ := h.translated write
  refine ⟨ok, ?_⟩
  cases second with
  | false => exact hok
  | true => exact lookup_second h.aligned rfl hok

theorem toNat_wordAt (ha : a.toNat % 8 = 0) (second : Bool) :
    (wordAt a second).toNat = a.toNat + if second then 4 else 0 := by
  cases second with
  | false => rfl
  | true => exact toNat_second ha

theorem page_wordAt (ha : a.toNat % 8 = 0) (second : Bool) :
    Arch.sh.pageAddr ((wordAt a second).setWidth 64) = Arch.sh.pageAddr (a.setWidth 64) ∧
      ((wordAt a second).setWidth 64 &&& Arch.sh.offsetMask).toNat = a.toNat % 4096 + if second then 4 else 0 := by
  have hword := toNat_wordAt ha second
  have hwide : ((wordAt a second).setWidth 64).toNat = a.toNat + if second then 4 else 0 := by
    rw [BitVec.toNat_setWidth, hword]
    split <;> omega
  have hlow : (a.setWidth 64).toNat = a.toNat := by
    rw [BitVec.toNat_setWidth]
    omega
  constructor
  · apply BitVec.eq_of_toNat_eq
    rw [Arch.toNat_pageAddr, Arch.toNat_pageAddr, hwide, hlow]
    show (_ : Nat) / 4096 * 4096 = _ / 4096 * 4096
    split <;> omega
  · rw [BitVec.toNat_and, Arch.toNat_offsetMask, Nat.and_two_pow_sub_one_eq_mod, hwide]
    show (_ : Nat) % 4096 = _
    split <;> omega

def wordAccess (a : Word) (write : Bool) : Access := ⟨a.setWidth 64, 4, write, cacheData⟩

theorem accessUpdate_ram {env : Env} {acc : Access} {p : Addr} {ok : Nat} (hp : env.physicalAddress acc = some (p, ok))
    (hd : s.mem.deviceFor p = none) (hc : env.servedByCache acc = false) (ho : env.outsideRam p = false)
    (hm : env.hostaddr (Arch.sh.pageAddr p) acc.write = some block) (hiso : env.isolated = false)
    (hfull : hasFlag ok memoryNotFullPage = false) (hno : acc.noExceptions = false) :
    Cpu.accessUpdate c.conf env acc s.mem =
      some (.update (Arch.sh.pageAddr acc.vaddr) block (Cpu.ramWriteflag acc ok) (Arch.sh.pageAddr p)) := by
  unfold Cpu.accessUpdate
  rw [hp]
  dsimp only
  rw [hd]
  rw [hc, ho, hiso, hfull, hno]
  show Option.map _ (env.hostaddr (Arch.sh.pageAddr p) acc.write) = _
  rw [hm]
  rfl

theorem PairRam.memoryRw (h : s.PairRam io a paddr block) (write second : Bool) {data : List Byte}
    (hlen : data.length = 4) :
    ∃ s', s.memoryRw c io (wordAccess (wordAt a second) write) data =
        .ok (s', if write then data else s.host.read (wordPtr paddr block second) 4, true) ∧
      s'.PairRam io a paddr block ∧ s'.cpu.regs = s.cpu.regs ∧
      (s'.host = if write then s.host.write (wordPtr paddr block second) data else s.host) ∧
      s'.hostLoad a = some block := by
  obtain ⟨ok, hok⟩ := h.lookup write second
  obtain ⟨⟨mmu, r⟩, hv, hr⟩ := Lib.bind_eq_ok hok
  obtain rfl : r = .returned ok (wordAt paddr second) := Except.ok.inj hr
  obtain ⟨hdev, hmax⟩ := h.ram second
  obtain ⟨hpage, hofs⟩ := page_wordAt h.paddr_aligned second
  have hphys : (wordAccess (wordAt a second) write).physical = false := by
    simp [wordAccess, Access.physical, hasFlag, physicalFlag, cacheData]
  have hflags : (⟨write, (wordAccess (wordAt a second) write).noExceptions,
      (wordAccess (wordAt a second) write).cache == cacheInstruction⟩ : V2pFlags) = ⟨write, false, false⟩ := by
    simp [wordAccess, Access.noExceptions, Access.cache, hasFlag, cacheData, cacheInstruction]
  generalize hacc : wordAccess (wordAt a second) write = acc at hphys hflags ⊢
  generalize henv : accessEnv io.env ((wordAt paddr second).setWidth 64) ok = env
  have hwrite : acc.write = write := by rw [← hacc]; rfl
  have hlen4 : acc.len = 4 := by rw [← hacc]; rfl
  have hp : env.physicalAddress acc = some ((wordAt paddr second).setWidth 64, ok) := by
    unfold Env.physicalAddress
    rw [hphys, ← henv]
    rfl
  have hc : env.servedByCache acc = false := by rw [← henv]; rfl
  have ho : env.outsideRam ((wordAt paddr second).setWidth 64) = false := by
    rw [← henv]
    show (decide (io.env.physicalMax ≤ (wordAt paddr second).setWidth 64) && _) = false
    rw [decide_eq_false (BitVec.not_le.mpr hmax)]
    rfl
  have hm : env.hostaddr (Arch.sh.pageAddr ((wordAt paddr second).setWidth 64)) acc.write = some block := by
    rw [hpage, hwrite, ← henv]
    exact h.hostaddr write
  have hptr : block + ((wordAt paddr second).setWidth 64 &&& Arch.sh.offsetMask).toNat = wordPtr paddr block second := by
    rw [hofs]
    exact (Nat.add_assoc ..).symm
  have hal := h.paddr_aligned
  have hblock : ((wordAt paddr second).setWidth 64).toNat % memblockSize + acc.len ≤ memblockSize := by
    rw [BitVec.toNat_setWidth, toNat_wordAt hal, hlen4]
    unfold memblockSize
    split <;> omega
  have hbelow : s.dyn.tables.mode = .mode32 →
      Arch.sh.pageAddr ((wordAt paddr second).setWidth 64) ≤ 0xffffffff#64 := by
    intro _
    rw [BitVec.le_def, Arch.toNat_pageAddr, BitVec.toNat_setWidth]
    show _ ≤ 4294967295
    have hdiv := Nat.div_mul_le_self ((wordAt paddr second).toNat % 2 ^ 64) (2 ^ Arch.sh.pageShift)
    omega
  obtain ⟨dyn, hrw⟩ := @Cpu.memoryRw_ram c.conf env acc s.mem s.dyn _ ok block h.good hbelow hp hdev hc ho hm hblock
  have hcopy : Cpu.transfer c.conf env io.dev acc s.mem s.host data =
      acc.copy (wordPtr paddr block second) s.host data := by
    rw [← hptr]
    exact @Cpu.accesses_ram c.conf env io.dev acc s.mem _ ok block hp hdev hc ho hm s.host data (hlen.trans hlen4.symm)
  obtain ⟨⟨hgood, hmode⟩, -⟩ := @Cpu.memoryRw_spec c.conf env acc s.dyn dyn s.mem s.mem true h.good hrw
  have hno : acc.noExceptions = false := congrArg V2pFlags.noExceptions hflags
  have hiso : env.isolated = false := by rw [← henv]; rfl
  have hupdate := @accessUpdate_ram c s block env acc _ ok hp hdev hc ho hm hiso (lookup_full rfl hok) hno
  have hmapped : (dyn.tables.slotOf .sh (a.setWidth 64)).PointsTo block := by
    refine @Cpu.pointsTo_memoryRw c.conf _ _ _ _ h.good h.mapped env acc _ _ _ (fun u hostPage w q hu _ => ?_) hrw
    cases hupdate.symm.trans hu
    rfl
  have hloaded : (dyn.tables.slotOf .sh (a.setWidth 64)).hostLoad ≠ none := by
    refine @Cpu.loaded_memoryRw c.conf _ _ _ h.good env acc _ _ _ _ _ _ _ hupdate ?_ (fun hig => by cases hig.1) hrw
    rw [← hacc]
    show Arch.sh.addrToPagenr _ _ = Arch.sh.addrToPagenr _ (Arch.sh.pageAddr ((wordAt a second).setWidth 64))
    rw [(page_wordAt h.aligned second).1, Arch.addrToPagenr_pageAddr]
  let s' : ShMachine := { s with
    cpu := { s.cpu with mmu }
    dyn
    host := (acc.copy (wordPtr paddr block second) s.host data).1 }
  refine ⟨s', ?_, ?_, rfl, ?_, ?_⟩
  · unfold ShMachine.memoryRw
    rw [hphys, if_neg Bool.false_ne_true]
    have htr : s.translateV2p ⟨write, false, false⟩ acc.vaddr =
        .ok ({ s with cpu := { s.cpu with mmu } }, .returned ok (wordAt paddr second)) := by
      rw [← hacc]
      show (s.cpu.mmu.shTranslateV2p (s.reg .sr) ⟨write, false, false⟩ ((wordAt a second).setWidth 64) >>= _) = _
      rw [hv]
      rfl
    rw [hwrite, hflags, htr]
    show ShMachine.accessPaddr c io { s with cpu := { s.cpu with mmu } } acc ((wordAt paddr second).setWidth 64) ok data = _
    unfold accessPaddr
    rw [henv]
    dsimp only
    rw [hrw, hcopy]
    have hdata : (acc.copy (wordPtr paddr block second) s.host data).2 =
        if write then data else s.host.read (wordPtr paddr block second) 4 := by
      unfold Access.copy
      rw [hwrite, hlen4]
      split <;> rfl
    rw [← hdata]
    rfl
  · exact h.kept (Mmu.shTranslateV2p_mmu hv) rfl rfl hgood hmode hmapped
  · show (acc.copy _ s.host data).1 = _
    unfold Access.copy
    rw [hwrite]
    split <;> rfl
  · obtain ⟨q, hq⟩ := Option.ne_none_iff_exists'.mp hloaded
    show (dyn.tables.slotOf .sh (a.setWidth 64)).hostLoad = _
    rw [hq, hmapped.1 q hq]

end ShMachine

end Gxemul.Sh
