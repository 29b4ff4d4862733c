import Gxemul.Alpha.LoadStore
import Gxemul.Dyntrans.Consistency

/- The fast and the slow function of an Alpha load or store transfer the same bytes
   where the address translation is right.

   Both find the page in the same place in the host. The fast function takes the
   page offset from the virtual address, the slow one from the physical address. -/
namespace Gxemul.Alpha
open Lib (Byte ByteMem leValue leBytes)

/-! ## The numbers of both functions -/

theorem toNat_shiftedInt (b : Byte) {n : Nat} (hn : n ≤ 16) : (shiftedInt b n).toNat = b.toNat * 2 ^ n := by
  have hpow : 2 ^ n ≤ 2 ^ 16 := Nat.pow_le_pow_right (by decide) hn
  have hlt : b.toNat * 2 ^ n < 2 ^ 31 :=
    calc b.toNat * 2 ^ n ≤ 255 * 2 ^ 16 := Nat.mul_le_mul (by omega) hpow
      _ < 2 ^ 31 := by decide
  have hval : (b.setWidth 32 <<< n).toNat = b.toNat * 2 ^ n := by
    have hbyte : b.toNat % 2 ^ 32 = b.toNat := Nat.mod_eq_of_lt (by omega)
    rw [BitVec.toNat_shiftLeft, BitVec.toNat_setWidth, hbyte, Nat.shiftLeft_eq, Nat.mod_eq_of_lt (by omega)]
  have hmsb : (b.setWidth 32 <<< n).msb = false := BitVec.msb_eq_false_iff_two_mul_lt.mpr (by omega)
  rw [shiftedInt, BitVec.signExtend_eq_setWidth_of_msb_false hmsb, BitVec.toNat_setWidth, hval]
  omega

theorem toNat_shiftedByte (b : Byte) {n : Nat} (hn : n ≤ 56) : ((b.setWidth 64 : Reg) <<< n).toNat = b.toNat * 2 ^ n := by
  have hpow : 2 ^ n ≤ 2 ^ 56 := Nat.pow_le_pow_right (by decide) hn
  have hlt : b.toNat * 2 ^ n < 2 ^ 64 :=
    calc b.toNat * 2 ^ n ≤ 255 * 2 ^ 56 := Nat.mul_le_mul (by omega) hpow
      _ < 2 ^ 64 := by decide
  have hbyte : b.toNat % 2 ^ 64 = b.toNat := Nat.mod_eq_of_lt (by omega)
  rw [BitVec.toNat_shiftLeft, BitVec.toNat_setWidth, hbyte, Nat.shiftLeft_eq, Nat.mod_eq_of_lt hlt]

theorem dataX_eq (size : LsSize) (data : Nat → Byte) :
    size.dataX data = BitVec.ofNat 64 (leValue ((List.range size.toNat).map data)) := by
  have h1 := @toNat_shiftedInt (data 1) 8 (by decide)
  have h2 := @toNat_shiftedInt (data 2) 16 (by decide)
  have h3 := @toNat_shiftedByte (data 3) 24 (by decide)
  have h4 := @toNat_shiftedByte (data 4) 32 (by decide)
  have h5 := @toNat_shiftedByte (data 5) 40 (by decide)
  have h6 := @toNat_shiftedByte (data 6) 48 (by decide)
  have h7 := @toNat_shiftedByte (data 7) 56 (by decide)
  apply BitVec.eq_of_toNat_eq
  cases size with
  | b => simp [LsSize.dataX, LsSize.toNat, List.range_succ, leValue]
  | w =>
    simp [LsSize.dataX, LsSize.toNat, List.range_succ, leValue, BitVec.toNat_add, h1]
    omega
  | l =>
    simp [LsSize.dataX, LsSize.toNat, List.range_succ, leValue, BitVec.toNat_add, h1, h2, h3]
    omega
  | q =>
    simp [LsSize.dataX, LsSize.toNat, List.range_succ, leValue, BitVec.toNat_add, h1, h2, h3, h4, h5, h6, h7]
    omega

theorem dataBytes_eq (size : LsSize) (x : Reg) : size.dataBytes x = leBytes size.toNat x.toNat := by
  have hbyte : ∀ n, (x >>> n).setWidth 8 = BitVec.ofNat 8 (x.toNat / 2 ^ n) := by
    intro n
    apply BitVec.eq_of_toNat_eq
    simp [Nat.shiftRight_eq_div_pow]
  unfold LsSize.dataBytes
  simp only [hbyte]
  cases size <;> simp [LsSize.toNat, List.range_succ, leBytes, Nat.div_div_eq_div_mul]

theorem loadValue_eq (size : LsSize) (hostBig : Bool) (page : Nat → Byte) :
    size.loadValue hostBig page = size.extend (size.dataX page) := by
  cases hostBig with
  | false => rw [dataX_eq]; rfl
  | true => rfl

theorem storeBytes_eq (size : LsSize) (hostBig : Bool) (x : Reg) : size.storeBytes hostBig x = size.dataBytes x := by
  cases hostBig with
  | false => rw [dataBytes_eq]; rfl
  | true => rfl

@[simp] theorem length_dataBytes (size : LsSize) (x : Reg) : (size.dataBytes x).length = size.toNat := by
  simp [LsSize.dataBytes]

theorem dataX_read (size : LsSize) (host : ByteMem) (p : Nat) :
    size.dataX (fun n => (host.read p size.toNat).getD n 0#8) = size.dataX fun n => host (p + n) := by
  have hmap : (List.range size.toNat).map (fun n => (host.read p size.toNat).getD n 0#8) =
      (List.range size.toNat).map fun n => host (p + n) := by
    apply List.map_congr_left
    intro n hn
    rw [List.getD_eq_getElem?_getD, Lib.ByteMem.getElem?_read, if_pos (List.mem_range.mp hn)]
    rfl
  rw [dataX_eq, dataX_eq, hmap]

namespace AlphaMachine
variable (conf : LsConf) (k : LsKind) (io : Io) (ic : LsCall) (i : Nat) (m : AlphaMachine)

/-! ## Where both functions find their bytes -/

/-- The physical page of an entry is the host page from `page` on: every access to the
physical page with a length that stays in it succeeds, and accesses the bytes there. -/
def PageBacked (write : Bool) (pte page : Nat) : Prop :=
  ∀ vaddr len ofs, 0 < len → ofs + len ≤ 8192 → ∀ paddr, paddr = BitVec.ofNat 64 (pte / 2 ^ 32 * 8192 + ofs) →
    (∃ dyn mem, (m.cpus i).dyn.memoryRw (alphaConf conf.cacheSize) (accessEnv io paddr)
      ⟨vaddr, len, write, cacheData⟩ m.mem = .ok (dyn, mem, true)) ∧
    Cpu.Accesses (alphaConf conf.cacheSize) (accessEnv io paddr) io.dev ⟨vaddr, len, write, cacheData⟩ m.mem (page + ofs)

structure SameData (m m' : AlphaMachine) : Prop where
  host : m.host = m'.host
  reg : ∀ j, (m.cpus j).reg = (m'.cpus j).reg
  llFlag : ∀ j, (m.cpus j).llFlag = (m'.cpus j).llFlag
  loadLinkedAddr : ∀ j, (m.cpus j).loadLinkedAddr = (m'.cpus j).loadLinkedAddr

def SameResult : Except Exit AlphaMachine → Except Exit AlphaMachine → Prop
  | .ok m, .ok m' => m.SameData m'
  | .error e, .error e' => e = e'
  | _, _ => False

/-- The translation of `vaddr` is right on CPU `i`, and a load or store there does the same
with the page in the tables and without. -/
def Consistent (vaddr : Addr) (pte : Nat) : Prop :=
  alphaTranslateV2p io.ram m.host (m.cpus i) vaddr = .ok (pagePaddr pte vaddr) ∧
    ∀ (k : LsKind) (ic : LsCall) (page : Nat), (k.ignoreOffset = true → ic.arg2 = 0) → m.addr k ic i = vaddr →
      m.PageBacked conf io i (!k.load) pte page →
      SameResult (m.lsNWith conf k io ic i (some page)) (m.lsNWith conf k io ic i none)

variable {conf k io ic i m}

theorem SameData.refl (m : AlphaMachine) : m.SameData m := ⟨rfl, fun _ => rfl, fun _ => rfl, fun _ => rfl⟩

theorem SameResult.refl (r : Except Exit AlphaMachine) : SameResult r r := by
  cases r with
  | error e => exact Eq.refl e
  | ok m => exact SameData.refl m

theorem SameData.setReg {m' : AlphaMachine} (h : m.SameData m') (x : RegName) (v : Reg) :
    (m.setReg i x v).SameData (m'.setReg i x v) := by
  refine ⟨h.host, fun j => ?_, fun j => ?_, fun j => ?_⟩ <;> by_cases hj : j = i
  · subst hj
    show ((m.setCpu j _).cpus j).reg = ((m'.setCpu j _).cpus j).reg
    rw [setCpu_same, setCpu_same]
    show Function.update (m.cpus j).reg x v = Function.update (m'.cpus j).reg x v
    rw [h.reg j]
  · show ((m.setCpu i _).cpus j).reg = ((m'.setCpu i _).cpus j).reg
    rw [setCpu_ne hj, setCpu_ne hj, h.reg j]
  · subst hj
    show ((m.setCpu j _).cpus j).llFlag = ((m'.setCpu j _).cpus j).llFlag
    rw [setCpu_same, setCpu_same]
    exact h.llFlag j
  · show ((m.setCpu i _).cpus j).llFlag = ((m'.setCpu i _).cpus j).llFlag
    rw [setCpu_ne hj, setCpu_ne hj, h.llFlag j]
  · subst hj
    show ((m.setCpu j _).cpus j).loadLinkedAddr = ((m'.setCpu j _).cpus j).loadLinkedAddr
    rw [setCpu_same, setCpu_same]
    exact h.loadLinkedAddr j
  · show ((m.setCpu i _).cpus j).loadLinkedAddr = ((m'.setCpu i _).cpus j).loadLinkedAddr
    rw [setCpu_ne hj, setCpu_ne hj, h.loadLinkedAddr j]

theorem sameData_setDyn (dyn : Cpu) (mem : Memory) (host : ByteMem) :
    ({ m with host } : AlphaMachine).SameData { m.setCpu i { m.cpus i with dyn } with mem, host } := by
  refine ⟨rfl, fun j => ?_, fun j => ?_, fun j => ?_⟩ <;> by_cases hj : j = i
  all_goals first | subst hj; simp [setCpu] | simp [setCpu, Function.update_of_ne hj]

theorem offset_le_of_aligned {size : LsSize} {addr : Addr} (h : misaligned size addr = false) :
    addr.toNat % 8192 + size.toNat ≤ 8192 := by
  have hand : (addr &&& 8191#64).toNat = addr.toNat % 8192 := by
    rw [BitVec.toNat_and]
    exact Nat.and_two_pow_sub_one_eq_mod addr.toNat 13
  have hzero : (addr.toNat % 8192) &&& (size.toNat - 1) = 0 := by
    have := congrArg BitVec.toNat (bne_eq_false_iff_eq.mp h)
    rw [BitVec.toNat_and, hand, BitVec.toNat_ofNat] at this
    cases size <;> exact this
  have hmod : addr.toNat % 8192 % size.toNat = 0 := by
    cases size with
    | b => exact Nat.mod_one _
    | w => exact (Nat.and_two_pow_sub_one_eq_mod _ 1).symm.trans hzero
    | l => exact (Nat.and_two_pow_sub_one_eq_mod _ 2).symm.trans hzero
    | q => exact (Nat.and_two_pow_sub_one_eq_mod _ 3).symm.trans hzero
  cases size <;> simp only [LsSize.toNat] at hmod ⊢ <;> omega

theorem memoryRw_backed {vaddr : Addr} {pte page len : Nat} {write : Bool} {data : List Byte}
    (hv : alphaTranslateV2p io.ram m.host (m.cpus i) vaddr = .ok (pagePaddr pte vaddr))
    (hb : m.PageBacked conf io i write pte page) (hpos : 0 < len) (hlen : vaddr.toNat % 8192 + len ≤ 8192)
    (hdata : data.length = len) :
    ∃ dyn mem, m.memoryRw conf io i ⟨vaddr, len, write, cacheData⟩ data =
      .ok ({ m.setCpu i { m.cpus i with dyn } with
        mem, host := (Access.copy ⟨vaddr, len, write, cacheData⟩ (page + vaddr.toNat % 8192) m.host data).1 },
        (Access.copy ⟨vaddr, len, write, cacheData⟩ (page + vaddr.toNat % 8192) m.host data).2, true) := by
  obtain ⟨⟨dyn, mem, hrw⟩, hacc⟩ := hb vaddr len _ hpos hlen _ (Eq.refl _)
  refine ⟨dyn, mem, ?_⟩
  unfold memoryRw
  rw [hv]
  show m.accessPaddr conf io i _ (pagePaddr pte vaddr) data = _
  unfold accessPaddr
  change (m.cpus i).dyn.memoryRw _ (accessEnv io (pagePaddr pte vaddr)) _ _ = _ at hrw
  rw [hrw]
  have hcopy := hacc m.host data hdata
  change Cpu.transfer _ (accessEnv io (pagePaddr pte vaddr)) _ _ _ _ _ = _ at hcopy
  simp only [bind, Except.bind, pure, Except.pure]
  rw [hcopy]

theorem lsGeneric_same {pte page : Nat}
    (hv : alphaTranslateV2p io.ram m.host (m.cpus i) (m.genericAddr k ic i) = .ok (pagePaddr pte (m.genericAddr k ic i)))
    (hb : m.PageBacked conf io i (!k.load) pte page) (hal : misaligned k.size (m.genericAddr k ic i) = false) :
    ∃ m', m.lsGeneric conf k io ic i = .ok m' ∧
      (m.fastTransfer conf k ic i (page + (m.genericAddr k ic i).toNat % 8192)).SameData m' := by
  have hofs := offset_le_of_aligned hal
  have hpos : 0 < k.size.toNat := by cases k.size <;> decide
  unfold lsGeneric fastTransfer
  rw [loadValue_eq, storeBytes_eq]
  cases hl : k.load with
  | true =>
    rw [hl] at hb
    obtain ⟨dyn, mem, hrw⟩ := @memoryRw_backed conf io i m _ _ _ _ _ (List.replicate k.size.toNat 0#8) hv hb hpos
      hofs List.length_replicate
    rw [if_pos rfl, if_pos rfl]
    simp only [Bool.not_true] at hrw
    rw [hrw]
    refine ⟨_, rfl, ?_⟩
    simp only [Access.copy, Bool.false_eq_true, if_false, dataX_read]
    exact (sameData_setDyn dyn mem m.host).setReg _ _
  | false =>
    rw [hl] at hb
    obtain ⟨dyn, mem, hrw⟩ := @memoryRw_backed conf io i m _ _ _ _ _ (k.size.dataBytes ((m.cpus i).reg ic.arg0)) hv hb
      hpos hofs (length_dataBytes _ _)
    dsimp only
    rw [if_neg Bool.false_ne_true, if_neg Bool.false_ne_true]
    simp only [Bool.not_false] at hrw
    rw [hrw]
    refine ⟨_, rfl, ?_⟩
    split
    · exact (sameData_setDyn dyn mem _).setReg _ _
    · exact sameData_setDyn dyn mem _

theorem beforeTransfer_translate (ram : Ram) (host : ByteMem) (vaddr : Addr) :
    alphaTranslateV2p ram host ((m.beforeTransfer k ic i).cpus i) vaddr =
      alphaTranslateV2p ram host (m.cpus i) vaddr := by
  obtain ⟨_, _, h⟩ := @beforeTransfer_cpus k ic i m i
  rw [h]
  rfl

theorem genericAddr_eq (h0 : k.ignoreOffset = true → ic.arg2 = 0) : m.genericAddr k ic i = m.addr k ic i := by
  unfold genericAddr addr lookupAddr
  split
  · rw [h0 ‹_›]
    rfl
  · rfl

theorem lsNWith_same {vaddr : Addr} {pte page : Nat}
    (hv : alphaTranslateV2p io.ram m.host (m.cpus i) vaddr = .ok (pagePaddr pte vaddr))
    (h0 : k.ignoreOffset = true → ic.arg2 = 0) (haddr : m.addr k ic i = vaddr)
    (hb : m.PageBacked conf io i (!k.load) pte page) :
    SameResult (m.lsNWith conf k io ic i (some page)) (m.lsNWith conf k io ic i none) := by
  unfold lsNWith
  split
  · exact SameResult.refl _
  have hgen : (m.beforeTransfer k ic i).genericAddr k ic i = vaddr := by
    have hsame : (m.beforeTransfer k ic i).genericAddr k ic i = m.genericAddr k ic i := by
      unfold genericAddr
      rw [beforeTransfer_reg]
    rw [hsame, genericAddr_eq h0, haddr]
  have hback : (m.beforeTransfer k ic i).PageBacked conf io i (!k.load) pte page := by
    intro v len ofs hpos hofs paddr hp
    rw [beforeTransfer_dyn, beforeTransfer_mem]
    exact hb v len ofs hpos hofs paddr hp
  unfold lsTransfer
  rw [haddr]
  split
  · exact SameResult.refl _
  · rename_i hal
    rw [Bool.not_eq_true] at hal
    rw [← hgen, ← beforeTransfer_translate, ← @beforeTransfer_host k ic i m] at hv
    rw [← hgen] at hal
    obtain ⟨m', hslow, hsame⟩ := lsGeneric_same hv hback hal
    have hand : (vaddr &&& 8191#64).toNat = vaddr.toNat % 8192 := by
      rw [BitVec.toNat_and]
      exact Nat.and_two_pow_sub_one_eq_mod vaddr.toNat 13
    rw [hslow, hand]
    rw [hgen] at hsame
    exact hsame

/-- Alpha address translation is consistent, for an address with three valid entries, exactly
where the page offset is not lost. -/
theorem consistent_iff {vaddr : Addr} {pte : Nat} (hseg : ¬ (alphaK0segBase ≤ vaddr ∧ vaddr ≤ alphaK0segEnd))
    (hwalk : Walk io.ram m.host (m.cpus i).ptbr vaddr pte) :
    m.Consistent conf io i vaddr pte ↔ (m.cpus i).OffsetKept vaddr pte := by
  rw [← alphaTranslateV2p_eq_iff hseg hwalk]
  constructor
  · intro h
    exact h.1
  · intro hv
    exact ⟨hv, fun k ic page h0 haddr hb => lsNWith_same hv h0 haddr hb⟩

/-! A machine whose first page is mapped to the physical page 4. The page tables are the pages 1, 2
and 3. -/

def ramIo : Io :=
  ⟨Env.r4000 0, ⟨fun e => if e = 0 then some 0 else none, fun e => e.toNat * memblockSize⟩,
    fun _ _ _ _ host data => (host, data), fun _ _ _ host data => (host, data)⟩

def pagedHost : ByteMem := fun a =>
  if a = 0x2000 ∨ a = 0x4000 ∨ a = 0x6000 then 1
  else if a = 0x2004 then 2
  else if a = 0x4004 then 3
  else if a = 0x6004 then 4
  else if a = 0x8008 then 0x55
  else 0

def paged : AlphaMachine where
  cpus _ := ⟨Cpu.start .mode64 0 Tc.init, fun _ => 0, 0, 0, false, 0, 1⟩
  ncpus := 1
  mem := Memory.init
  host := pagedHost

def lsConf : LsConf := ⟨65536, false⟩

def pagedPte : Nat := 4 * 2 ^ 32 + 1

theorem walk_paged (vaddr : Addr) (h : vaddr.toNat < 8192) : Walk ramIo.ram pagedHost 1#64 vaddr pagedPte := by
  have h1 : vaddr.toNat / 2 ^ 33 % 1024 = 0 := by omega
  have h2 : vaddr.toNat / 2 ^ 23 % 1024 = 0 := by omega
  have h3 : vaddr.toNat / 2 ^ 13 % 1024 = 0 := by omega
  unfold Walk
  rw [h1, h2, h3]
  exact ⟨2 * 2 ^ 32 + 1, 3 * 2 ^ 32 + 1, ⟨0x2000, by decide +kernel, by decide +kernel, by decide⟩,
    ⟨0x4000, by decide +kernel, by decide +kernel, by decide⟩,
    ⟨0x6000, by decide +kernel, by decide +kernel, by decide⟩⟩

/-- The first byte of the page. -/
theorem consistent_paged : paged.Consistent lsConf ramIo 0 0#64 pagedPte := by
  have hseg : ¬ (alphaK0segBase ≤ 0#64 ∧ 0#64 ≤ alphaK0segEnd) := by decide
  have hwalk : Walk ramIo.ram paged.host (paged.cpus 0).ptbr 0#64 pagedPte := walk_paged 0#64 (by decide)
  refine (consistent_iff hseg hwalk).mpr ?_
  show if (paged.cpus 0).BeforeVm then _ else (0#64).toNat % 8192 = 0
  rw [if_neg (by decide +kernel)]
  rfl

def ldq : LsKind := ⟨.q, true, false, false, false⟩

def ldq8 : LsCall := ⟨.r 1#5, .r 2#5, 8#32⟩

/-- The second quadword of the page. The first access reads the first one, the next ones read the second. -/
theorem not_consistent_paged : Walk ramIo.ram pagedHost 1#64 8#64 pagedPte ∧
    alphaTranslateV2p ramIo.ram pagedHost (paged.cpus 0) 8#64 = .ok 0x8000#64 ∧ pagePaddr pagedPte 8#64 = 0x8008#64 ∧
    (∃ m', paged.lsNWith lsConf ldq ramIo ldq8 0 none = .ok m' ∧ (m'.cpus 0).reg (.r 1#5) = 0#64) ∧
    (∃ m', paged.lsNWith lsConf ldq ramIo ldq8 0 (some 0x8000) = .ok m' ∧ (m'.cpus 0).reg (.r 1#5) = 0x55#64) ∧
    ¬ paged.Consistent lsConf ramIo 0 8#64 pagedPte := by
  refine ⟨walk_paged _ (by decide), by decide +kernel, by decide +kernel, ?_, ?_, ?_⟩
  · exact Lib.eval_eq_ok _ (fun m' : AlphaMachine => (m'.cpus 0).reg (.r 1#5)) _ (by decide +kernel)
  · exact Lib.eval_eq_ok _ (fun m' : AlphaMachine => (m'.cpus 0).reg (.r 1#5)) _ (by decide +kernel)
  · intro h
    have hv := h.1
    revert hv
    decide +kernel

end AlphaMachine

end Gxemul.Alpha
