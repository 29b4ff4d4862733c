import Gxemul.Mips.Faults
import Gxemul.Mips.UnalignedPairs

/- Unaligned stores that fault: the exception that they leave in CAUSE is the one of
   their read, as far as it has not been converted. -/
namespace Gxemul.Mips
open Lib (Byte ByteMem)

/-! ## Reads and writes of the same address -/

def Exccode.ofStore : Exccode → Exccode
  | .tlbl => .tlbs
  | .adel => .ades
  | e => e

section
variable {t : CpuType} {m : Mmu} {vaddr : Addr} {e : ExceptionArgs}

theorem failure_ofStore {v : Variant} {code code' : Exccode} {tlb : Bool} {va : Addr} {vpn2 asid : Reg} {x64 : Bool}
    (h : failure v false code tlb va vpn2 asid x64 = .failed (some e)) :
    e.exccode = code ∧ failure v false code' tlb va vpn2 asid x64 = .failed (some { e with exccode := code' }) := by
  unfold failure at h ⊢
  rw [if_neg Bool.false_ne_true] at h ⊢
  cases v <;> cases h <;> exact ⟨rfl, rfl⟩

theorem translateV2p_exccode {write : Bool} (h : translateV2p t m vaddr write false = .ok (.failed (some e))) :
    e.exccode = (if write then .ades else .adel) ∨ e.exccode = (if write then .tlbs else .tlbl) ∨
      (write = true ∧ e.exccode = .mod) := by
  cases hmode : ksuAndX64 t.variant m.cop0.status with
  | error x =>
    rw [translateV2p_of_error hmode] at h
    cases h
  | ok mode =>
    obtain ⟨ksu, x64⟩ := mode
    rw [translateV2p_of_segment hmode] at h
    cases hseg : segment t.variant m.cop0.status ksu x64 vaddr with
    | unmapped p =>
      rw [hseg] at h
      cases h
    | addressError va =>
      rw [hseg] at h
      exact Or.inl (@failure_ofStore _ _ _ .int _ _ _ _ _ (Except.ok.inj h)).1
    | mapped va =>
      rw [hseg] at h
      obtain ⟨scan, -, h⟩ := Lib.bind_eq_ok h
      cases scan with
      | inr vpn2 => exact Or.inr (Or.inl (@failure_ofStore _ _ _ .int _ _ _ _ _ (Except.ok.inj h)).1)
      | inl k =>
        have hres := Except.ok.inj h
        unfold Look.result at hres
        split at hres
        · split at hres
          · cases hres
          · rename_i hclean
            cases write with
            | true => exact Or.inr (Or.inr ⟨rfl, (@failure_ofStore _ _ _ .int _ _ _ _ _ hres).1⟩)
            | false =>
              rw [Bool.not_false, Bool.or_true] at hclean
              exact absurd rfl hclean
        · exact Or.inr (Or.inl (@failure_ofStore _ _ _ .int _ _ _ _ _ hres).1)

theorem translateV2p_ofStore (h : translateV2p t m vaddr false false = .ok (.failed (some e))) :
    translateV2p t m vaddr true false = .ok (.failed (some { e with exccode := e.exccode.ofStore })) := by
  cases hmode : ksuAndX64 t.variant m.cop0.status with
  | error x =>
    rw [translateV2p_of_error hmode] at h
    cases h
  | ok mode =>
    obtain ⟨ksu, x64⟩ := mode
    rw [translateV2p_of_segment hmode] at h ⊢
    cases hseg : segment t.variant m.cop0.status ksu x64 vaddr with
    | unmapped p =>
      rw [hseg] at h
      cases h
    | addressError va =>
      rw [hseg] at h
      obtain ⟨hcode, hstore⟩ := failure_ofStore (Except.ok.inj h)
      rw [hcode]
      exact congrArg Except.ok hstore
    | mapped va =>
      rw [hseg] at h
      dsimp only at h ⊢
      unfold translateMapped at h ⊢
      obtain ⟨scan, hscan, h⟩ := Lib.bind_eq_ok h
      rw [hscan]
      cases scan with
      | inr vpn2 =>
        obtain ⟨hcode, hstore⟩ := failure_ofStore (Except.ok.inj h)
        rw [hcode]
        exact congrArg Except.ok hstore
      | inl k =>
        have hres := Except.ok.inj h
        show Except.ok (k.result t.variant false va (currentAsid t.variant m.cop0.entryhi) x64 true) = _
        unfold Look.result at hres ⊢
        cases hv : k.vBit with
        | true =>
          rw [hv, Bool.not_false, Bool.or_true, if_pos rfl, if_pos rfl] at hres
          cases hres
        | false =>
          rw [hv, if_neg Bool.false_ne_true] at hres
          rw [if_neg Bool.false_ne_true]
          obtain ⟨hcode, hstore⟩ := failure_ofStore hres
          rw [hcode]
          exact congrArg Except.ok hstore

theorem translateV2p_clean {paddr : Addr} {writable : Bool}
    (hread : translateV2p t m vaddr false false = .ok (.ok paddr writable))
    (h : translateV2p t m vaddr true false = .ok (.failed (some e))) : e.exccode = .mod := by
  cases hmode : ksuAndX64 t.variant m.cop0.status with
  | error x =>
    rw [translateV2p_of_error hmode] at h
    cases h
  | ok mode =>
    obtain ⟨ksu, x64⟩ := mode
    rw [translateV2p_of_segment hmode] at h hread
    cases hseg : segment t.variant m.cop0.status ksu x64 vaddr with
    | unmapped p =>
      rw [hseg] at h
      cases h
    | addressError va =>
      rw [hseg] at hread
      have hres := Except.ok.inj hread
      unfold failure at hres
      rw [if_neg Bool.false_ne_true] at hres
      split at hres <;> cases hres
    | mapped va =>
      rw [hseg] at h hread
      dsimp only at h hread
      unfold translateMapped at h hread
      obtain ⟨scan, hscan, h⟩ := Lib.bind_eq_ok h
      rw [hscan] at hread
      cases scan with
      | inr vpn2 =>
        have hres := Except.ok.inj hread
        unfold failure at hres
        rw [if_neg Bool.false_ne_true] at hres
        split at hres <;> cases hres
      | inl k =>
        have hok := Except.ok.inj (show Except.ok (k.result t.variant false va (currentAsid t.variant m.cop0.entryhi) x64
          false) = _ from hread)
        have hres := Except.ok.inj h
        unfold Look.result at hok hres
        cases hv : k.vBit with
        | true =>
          rw [hv, if_pos rfl] at hres
          split at hres
          · cases hres
          · exact (@failure_ofStore _ _ _ .int _ _ _ _ _ hres).1
        | false =>
          rw [hv, if_neg Bool.false_ne_true] at hok
          unfold failure at hok
          rw [if_neg Bool.false_ne_true] at hok
          split at hok <;> cases hok

end

/-! ## Unaligned stores -/

namespace Machine

section
variable (conf : LsConf) (io : Bool → Io) (w : Wlen) (ic : LsCall) (s : Machine)

def wordEnd (write : Bool) : Except Exit AccessEnd :=
  (s.cpu.syncPc ic.lowPc).accessEnd conf.cpuType (io write) (s.unalignedAccess conf w ic write)

/-- The end of the access of LS_N. The fast function has nothing that could fail. -/
def lsEnd (conf : LsConf) (k : LsKind) (io : Io) (ic : LsCall) (s : Machine) : Except Exit AccessEnd :=
  match s.fastAddr conf k ic with
  | some _ => .ok .done
  | none =>
    if k.size.unaligned (s.addr conf ic) then
      .ok (.raised (alignmentError conf.cpuType s.cpu.mmu.cop0 k.store (s.addr conf ic)))
    else (s.cpu.syncPc ic.lowPc).accessEnd conf.cpuType io (s.access conf k ic)

def storeEnd : Except Exit AccessEnd :=
  match s.wordEnd conf io w ic false with
  | .ok .done => s.wordEnd conf io w ic true
  | r => r

def handlerPc (e : ExceptionArgs) : Addr :=
  ((s.cpu.syncPc ic.lowPc).notedCop0 conf.cpuType e 0).handler conf.cpuType e

/-- A store that does not succeed leaves the exception code of an aligned store to the same word, and changes neither
registers nor memory. -/
structure FaultsAsStore (s' : Machine) : Prop where
  code : ∀ e, s.storeEnd conf io w ic = .ok (.raised e) → ∃ e', s.wordEnd conf io w ic true = .ok (.raised e') ∧
    causeExccode conf.cpuType s'.cpu.mmu.cop0.cause = BitVec.ofNat 64 e'.exccode.toNat
  regs : s'.regs = s.regs
  memory : s.storeEnd conf io w ic ≠ .ok .done → ∀ x, (io false).Untouched x → (io true).Untouched x →
    s'.host x = s.host x

end

variable {conf : LsConf} {io : Bool → Io} {isLeft : Bool} {w : Wlen} {ic : LsCall} {s s' : Machine}

theorem accessV2p_word (write : Bool) :
    (s.cpu.syncPc ic.lowPc).accessV2p conf.cpuType (s.unalignedAccess conf w ic write) =
      translateV2p conf.cpuType s.cpu.mmu (s.alignedAddr conf w ic) write false :=
  MipsCpu.accessV2p_data rfl

theorem wordEnd_of_failed {write : Bool} {e : ExceptionArgs}
    (h : translateV2p conf.cpuType s.cpu.mmu (s.alignedAddr conf w ic) write false = .ok (.failed (some e))) :
    s.wordEnd conf io w ic write = .ok (.raised e) :=
  MipsCpu.accessEnd_of_failed rfl h

theorem wordEnd_raised {write : Bool} {e : ExceptionArgs} (h : s.wordEnd conf io w ic write = .ok (.raised e)) :
    translateV2p conf.cpuType s.cpu.mmu (s.alignedAddr conf w ic) write false = .ok (.failed (some e)) ∨
      (e.exccode = .dbe ∧ ∃ paddr writable,
        translateV2p conf.cpuType s.cpu.mmu (s.alignedAddr conf w ic) write false = .ok (.ok paddr writable)) := by
  unfold wordEnd MipsCpu.accessEnd at h
  rw [accessV2p_word] at h
  split at h
  · cases h
  · cases h
  · rename_i hfailed
    cases h
    exact Or.inl hfailed
  · rename_i paddr writable hv
    refine Or.inr ⟨?_, paddr, writable, hv⟩
    have hcache : ¬ (s.unalignedAccess conf w ic write).cache = cacheInstruction := by
      show ¬ cacheData &&& cacheFlagsMask = cacheInstruction
      decide
    have hend := Except.ok.inj h
    unfold MipsCpu.paddrEnd at hend
    dsimp only at hend
    split at hend
    · split at hend
      · cases hend
      · split at hend
        · cases hend
        · cases hend
          exact if_neg hcache
    · split at hend
      · cases hend
      · split at hend <;> cases hend

theorem exccode_lt {write : Bool} {e : ExceptionArgs} (h : s.wordEnd conf io w ic write = .ok (.raised e)) :
    e.exccode.toNat < 16 := by
  obtain h | h := wordEnd_raised h
  · obtain h | h | ⟨-, h⟩ := translateV2p_exccode h
    · rw [h]
      cases write <;> decide
    · rw [h]
      cases write <;> decide
    · rw [h]
      decide
  · rw [h.1]
    decide

theorem causeExccode_converted (t : CpuType) (cause : Reg) :
    causeExccode t (convertedCause cause) = BitVec.ofNat 64 Exccode.tlbs.toNat := by
  have hbits : ∀ i, 2 ≤ i → i ≤ 6 → (convertedCause cause).getLsbD i =
      (BitVec.ofNat 64 Exccode.tlbs.toNat <<< causeExccodeShift).getLsbD i := by
    intro i hlow hi
    have hmask : ∀ i, 2 ≤ i → i ≤ 6 → causeExccodeMask.getLsbD i = true := by
      intro i h2 h6
      have hall : ∀ i ≤ 6, 2 ≤ i → causeExccodeMask.getLsbD i = true := by decide
      exact hall i h6 h2
    unfold convertedCause
    rw [BitVec.getLsbD_or, BitVec.getLsbD_and, BitVec.getLsbD_not, hmask i hlow hi]
    simp
  rw [@causeExccode_congr t _ _ hbits]
  unfold causeExccode
  cases t.exc3k <;> decide

theorem causeExccode_raised {s1 s2 : MipsCpu} {host : Addr → Option Nat} {e : ExceptionArgs}
    (he : e.exccode.toNat < 16) (h : s1.mipsCpuException conf.cpuType conf.cacheSize host e 0 = .ok s2) :
    causeExccode conf.cpuType s2.mmu.cop0.cause = BitVec.ofNat 64 e.exccode.toNat := by
  obtain ⟨-, hmmu, -⟩ := MipsCpu.mipsCpuException_spec h
  rw [hmmu]
  exact causeExccode_noteException 0 _ _ he

/-- An unaligned store reports its exceptions as an aligned one does if and only if its read does not raise any, or it
is a TLB exception with the handler elsewhere, or it is the one of a device that fails writes as well, and the handler
is at the store itself. -/
theorem faultsAsStore_iff (hdev : s.cpu.mem.Sorted)
    (hrun : s.mipsUnalignedLoadstore conf io isLeft w ic true = .ok s') :
    FaultsAsStore conf io w ic s s' ↔ ∀ e, s.wordEnd conf io w ic false = .ok (.raised e) →
      (e.exccode = .tlbl ∧ s.handlerPc conf ic e ≠ (s.cpu.syncPc ic.lowPc).dyn.pc) ∨
      (s.handlerPc conf ic e = (s.cpu.syncPc ic.lowPc).dyn.pc ∧
        ∃ e', s.wordEnd conf io w ic true = .ok (.raised e') ∧ e.exccode = .dbe ∧ e'.exccode = .dbe) := by
  obtain ⟨⟨cpu1, copied1, ok1⟩, h1, hrun⟩ := Lib.bind_eq_ok hrun
  obtain ⟨fin1, hread, hend1⟩ := MipsCpu.memoryRw_end h1
  change s.wordEnd conf io w ic false = .ok fin1 at hread
  have hhost1 : ∀ x, (io false).Untouched x → copied1.1 x = s.host x :=
    fun x hx => MipsCpu.memoryRw_host hx h1 (Or.inl rfl)
  cases fin1 with
  | done =>
    -- the write reports its own exceptions
    obtain ⟨rfl, hkept⟩ := hend1
    obtain ⟨⟨cpu2, copied2, ok2⟩, h2, hrun⟩ := Lib.bind_eq_ok hrun
    cases hrun
    obtain ⟨fin2, hwrite, hend2⟩ := MipsCpu.memoryRw_end h2
    rw [MipsCpu.accessEnd_congr hkept.mmu (hkept.lookup hdev)] at hwrite
    change s.wordEnd conf io w ic true = .ok fin2 at hwrite
    have hstore : s.storeEnd conf io w ic = .ok fin2 := by
      unfold storeEnd
      rw [hread]
      exact hwrite
    refine iff_of_true ⟨fun e he => ?_, rfl, fun hend x hx hx' => ?_⟩ fun e he => ?_
    · rw [hstore] at he
      cases he
      obtain ⟨-, s1, -, hexc⟩ := hend2
      exact ⟨e, hwrite, causeExccode_raised (exccode_lt hwrite) hexc⟩
    · have hfail : ok2 = false := by
        cases fin2 with
        | done => exact absurd hstore hend
        | failed => exact hend2.1
        | raised e => exact hend2.1
      exact (MipsCpu.memoryRw_host hx' h2 (Or.inr hfail)).trans (hhost1 x hx)
    · rw [hread] at he
      cases he
  | failed =>
    obtain ⟨rfl, hkept⟩ := hend1
    have hpc : ¬ cpu1.dyn.pc ≠ (s.cpu.syncPc ic.lowPc).dyn.pc := not_not.mpr hkept.pc
    dsimp only at hrun
    rw [if_pos rfl, if_pos (by rfl), if_neg hpc] at hrun
    cases hrun
    have hstore : s.storeEnd conf io w ic = .ok .failed := by
      unfold storeEnd
      rw [hread]
    refine iff_of_true ⟨fun e he => ?_, rfl, fun _ x hx _ => hhost1 x hx⟩ fun e he => ?_
    · rw [hstore] at he
      cases he
    · rw [hread] at he
      cases he
  | raised e =>
    obtain ⟨rfl, s1, hkept, hexc⟩ := hend1
    have hhandler : cpu1.dyn.pc = s.handlerPc conf ic e := by
      obtain ⟨hpc, -⟩ := MipsCpu.mipsCpuException_spec hexc
      rw [hpc]
      unfold handlerPc MipsCpu.notedCop0 MipsCpu.exceptionPc
      rw [hkept.mmu, hkept.isHalted, hkept.pc, hkept.delaySlot]
    have hstore : s.storeEnd conf io w ic = .ok (.raised e) := by
      unfold storeEnd
      rw [hread]
    dsimp only at hrun
    rw [if_pos rfl, if_pos (by rfl), hhandler] at hrun
    -- the exception code is the one of a TLB exception, or the one of the read
    have hleft : causeExccode conf.cpuType s'.cpu.mmu.cop0.cause = BitVec.ofNat 64
        (if s.handlerPc conf ic e ≠ (s.cpu.syncPc ic.lowPc).dyn.pc then Exccode.tlbs else e.exccode).toNat ∧
        s'.regs = s.regs ∧ s'.host = copied1.1 := by
      split at hrun
      · cases hrun
        rw [if_pos (by assumption)]
        exact ⟨causeExccode_converted _ _, rfl, rfl⟩
      · cases hrun
        rw [if_neg (by assumption)]
        exact ⟨causeExccode_raised (exccode_lt hread) hexc, rfl, rfl⟩
    obtain ⟨hcause, hregs, hhost⟩ := hleft
    have hmemory : s.storeEnd conf io w ic ≠ .ok .done → ∀ x, (io false).Untouched x → (io true).Untouched x →
        s'.host x = s.host x := by
      intro _ x hx _
      rw [hhost]
      exact hhost1 x hx
    constructor
    · intro h e0 he0
      rw [hread] at he0
      cases he0
      obtain ⟨e', hwrite, hcode⟩ := h.code e hstore
      rw [hcause] at hcode
      obtain hv | ⟨hdbe, paddr, writable, hv⟩ := wordEnd_raised hread
      · have haligned := @wordEnd_of_failed conf io w ic s true _ (translateV2p_ofStore hv)
        rw [hwrite] at haligned
        cases haligned
        change _ = BitVec.ofNat 64 e.exccode.ofStore.toNat at hcode
        obtain hadel | htlbl | ⟨hmod, -⟩ := translateV2p_exccode hv
        · -- neither TLBS nor ADEL is ADES
          rw [show e.exccode = .adel from hadel] at hcode
          split at hcode <;> exact absurd hcode (by decide)
        · refine Or.inl ⟨htlbl, fun heq => ?_⟩
          rw [show e.exccode = .tlbl from htlbl, if_neg (not_not.mpr heq)] at hcode
          exact absurd hcode (by decide)
        · cases hmod
      · have hkinds : e'.exccode = .mod ∨ e'.exccode = .dbe := by
          obtain hv' | ⟨hdbe', -⟩ := wordEnd_raised hwrite
          · exact Or.inl (translateV2p_clean hv hv')
          · exact Or.inr hdbe'
        rw [hdbe] at hcode
        split at hcode
        · obtain h' | h' := hkinds <;> rw [h'] at hcode <;> exact absurd hcode (by decide)
        · rename_i hpc
          obtain h' | h' := hkinds
          · rw [h'] at hcode
            exact absurd hcode (by decide)
          · exact Or.inr ⟨not_not.mp hpc, e', hwrite, hdbe, h'⟩
    · intro h
      refine ⟨fun e0 he0 => ?_, hregs, hmemory⟩
      rw [hstore] at he0
      cases he0
      obtain ⟨htlbl, hpc⟩ | ⟨hpc, e', hwrite, hdbe, hdbe'⟩ := h e hread
      · obtain hv | ⟨hdbe, -⟩ := wordEnd_raised hread
        · refine ⟨_, wordEnd_of_failed (translateV2p_ofStore hv), ?_⟩
          rw [hcause, if_pos hpc, htlbl]
          rfl
        · rw [htlbl] at hdbe
          cases hdbe
      · refine ⟨e', hwrite, ?_⟩
        rw [hcause, if_neg (not_not.mpr hpc), hdbe, hdbe']

/-! A program in user mode with an empty TLB that stores to `base`. -/

def userStore (base : Addr) : Machine where
  cpu := emptyTlb { entryRegisters 0 0 0 0 with status := 0x10 }
  regs _ := base
  host _ := 0

def swl : LsCall := ⟨.scratch, .fprVar, 0, 0⟩

theorem faultsAsStore_refill : ∃ s', (userStore 0x40000001).mipsUnalignedLoadstore bigR4000 (fun _ => ramIo) true .word
      swl true = .ok s' ∧
    FaultsAsStore bigR4000 (fun _ => ramIo) .word swl (userStore 0x40000001) s' := by
  obtain ⟨s', hs, -⟩ := Lib.eval_eq_ok ((userStore 0x40000001).mipsUnalignedLoadstore bigR4000 (fun _ => ramIo) true .word
    swl true) (fun _ => ()) () (by decide +kernel)
  refine ⟨s', hs, (faultsAsStore_iff Memory.sorted_init hs).mpr fun e he => Or.inl ?_⟩
  have hv := @wordEnd_of_failed bigR4000 (fun _ => ramIo) .word swl (userStore 0x40000001) false
    ⟨.tlbl, true, 0x40000000, 0x20000, 0, false⟩ (by decide +kernel)
  rw [hv] at he
  cases he
  exact ⟨rfl, by decide +kernel⟩

theorem not_faultsAsStore_kernel : ∃ s', (userStore 0xffffffff80000001).mipsUnalignedLoadstore bigR4000 (fun _ => ramIo)
      true .word swl true = .ok s' ∧
    ¬ FaultsAsStore bigR4000 (fun _ => ramIo) .word swl (userStore 0xffffffff80000001) s' := by
  obtain ⟨s', hs, hleft⟩ := Lib.eval_eq_ok ((userStore 0xffffffff80000001).mipsUnalignedLoadstore bigR4000
    (fun _ => ramIo) true .word swl true) (fun s => causeExccode r4000 s.cpu.mmu.cop0.cause) 3 (by decide +kernel)
  refine ⟨s', hs, fun h => ?_⟩
  have hread := @wordEnd_of_failed bigR4000 (fun _ => ramIo) .word swl (userStore 0xffffffff80000001) false
    ⟨.adel, false, 0xffffffff80000000, 0, 0, false⟩ (by decide +kernel)
  have hwrite := @wordEnd_of_failed bigR4000 (fun _ => ramIo) .word swl (userStore 0xffffffff80000001) true
    ⟨.ades, false, 0xffffffff80000000, 0, 0, false⟩ (by decide +kernel)
  have hstore : (userStore 0xffffffff80000001).storeEnd bigR4000 (fun _ => ramIo) .word swl = .ok (.raised
      ⟨.adel, false, 0xffffffff80000000, 0, 0, false⟩) := by
    unfold storeEnd
    rw [hread]
  obtain ⟨e', hraised, hcode⟩ := h.code _ hstore
  rw [hwrite] at hraised
  cases hraised
  rw [show bigR4000.cpuType = r4000 from rfl, hleft] at hcode
  exact absurd hcode (by decide)

end Machine

end Gxemul.Mips
