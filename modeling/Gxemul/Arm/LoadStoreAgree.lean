import Gxemul.Arm.LoadStore
import Gxemul.Dyntrans.Consistency

/- The fast and the general functions of an ARM load or store, and what they do to the
   base register and to the data.

   Both transfer the same bytes, except that on a little endian host the general
   function stores a word straight from the register. -/
namespace Gxemul.Arm

open Lib

/-! ## Bytes of a register -/

theorem byteAt_eq (x : Word) (i : Nat) : byteAt x (8 * i) = BitVec.ofNat 8 (x.toNat / 256 ^ i) := by
  apply BitVec.eq_of_toNat_eq
  unfold byteAt
  rw [BitVec.toNat_setWidth, BitVec.toNat_ushiftRight, BitVec.toNat_ofNat, Nat.shiftRight_eq_div_pow,
    Nat.pow_mul]

theorem leBytes_one (x : Word) : leBytes 1 x.toNat = [byteAt x 0] := by
  rw [byteAt_eq x 0]
  simp [leBytes]

theorem leBytes_two (x : Word) : leBytes 2 x.toNat = [byteAt x 0, byteAt x 8] := by
  rw [byteAt_eq x 0, byteAt_eq x 1]
  simp [leBytes]

theorem leBytes_four (x : Word) : leBytes 4 x.toNat = [byteAt x 0, byteAt x 8, byteAt x 16, byteAt x 24] := by
  rw [byteAt_eq x 0, byteAt_eq x 1, byteAt_eq x 2, byteAt_eq x 3]
  simp [leBytes, Nat.div_div_eq_div_mul]

theorem leBytes_swap32 (x : Word) : leBytes 4 (swap32 x).toNat = (leBytes 4 x.toNat).reverse := by
  rw [leBytes_four, leBytes_four]
  simp only [List.reverse_cons, List.reverse_nil, List.nil_append, List.cons_append, List.cons.injEq, and_true]
  unfold byteAt swap32
  refine ⟨?_, ?_, ?_, ?_⟩ <;> apply BitVec.eq_of_getLsbD_eq <;> intro i hi
  all_goals
    have hcases : i = 0 ∨ i = 1 ∨ i = 2 ∨ i = 3 ∨ i = 4 ∨ i = 5 ∨ i = 6 ∨ i = 7 := by omega
    obtain rfl | rfl | rfl | rfl | rfl | rfl | rfl | rfl := hcases <;> simp

/-- A word is stored the same way in both byte orders exactly when swap32() does not change it. -/
theorem bytes_eq_iff (big hostBig : Bool) (x : Word) :
    bytes big 4 x.toNat = bytes hostBig 4 x.toNat ↔ (big ≠ hostBig → swap32 x = x) := by
  have hswap : (leBytes 4 x.toNat).reverse = leBytes 4 x.toNat ↔ swap32 x = x := by
    rw [← leBytes_swap32, leBytes_inj, Nat.mod_eq_of_lt (by omega), Nat.mod_eq_of_lt (by omega), BitVec.toNat_inj]
  unfold bytes
  cases big <;> cases hostBig <;> simp [hswap, eq_comm (a := leBytes 4 x.toNat)]

section
variable {c : ArmConf} {k : LsKind}

theorem storeBytes_eq (hs : k.strd = false) (hl : k.ldrd = false) (x x1 : Word) :
    storeBytes c k x x1 = bytes c.big k.datalen x.toNat := by
  unfold storeBytes LsKind.datalen bytes
  rw [hs, hl]
  cases k.b
  · cases k.h
    · simp [leBytes_four]
    · simp [leBytes_two]
  · simp [leBytes_one]

theorem storeBytes_strd (hs : k.strd = true) (x x1 : Word) : storeBytes c k x x1 =
    if c.big then (leBytes 4 x1.toNat).reverse ++ (leBytes 4 x.toNat).reverse
    else leBytes 4 x.toNat ++ leBytes 4 x1.toNat := by
  have hkind : k.signed = true ∧ k.h = true := by
    unfold LsKind.strd at hs
    simp only [Bool.and_eq_true] at hs
    exact hs.1
  have hb : k.b = false := by
    have hv := k.valid
    simp only [hkind.2, Bool.and_true, Bool.and_eq_true, Bool.not_eq_true'] at hv
    exact hv.1
  unfold storeBytes
  rw [hs, hb, leBytes_four, leBytes_four]
  simp

/-- The number in the bytes at `d`, in the byte order of the CPU. -/
def numberAt (big : Bool) (n : Nat) (d : Nat → Byte) : Nat := value big ((List.range n).map d)

theorem toNat_signExtend_mod (n : Nat) (hn : n ≤ 32) (x : BitVec n) : (x.signExtend 32).toNat % 2 ^ n = x.toNat := by
  have hlow : (x.signExtend 32).setWidth n = x := by
    apply BitVec.eq_of_getLsbD_eq
    intro i hi
    rw [BitVec.getLsbD_setWidth, BitVec.getLsbD_signExtend]
    simp [hi, show i < 32 by omega]
  rw [← BitVec.toNat_setWidth, hlow]

theorem loadValue_low (hl : k.ldrd = false) (hs : k.strd = false) (d : Nat → Byte) :
    (loadValue c k d).toNat % 256 ^ k.datalen = numberAt c.big k.datalen d := by
  unfold loadValue LsKind.datalen numberAt
  rw [hs, hl]
  cases k.b
  · cases k.h
    · cases c.big
      · simp [toInt, value, leValue, List.range_succ, BitVec.toNat_add, Nat.shiftLeft_eq]
        omega
      · simp [toInt, value, leValue, List.range_succ, BitVec.toNat_add, Nat.shiftLeft_eq]
        omega
    · have hx : (if c.big then toInt (d 1) + (toInt (d 0) <<< 8) else toInt (d 0) + (toInt (d 1) <<< 8)).toNat =
          value c.big ((List.range 2).map d) := by
        cases c.big <;> simp [toInt, value, leValue, List.range_succ, BitVec.toNat_add, Nat.shiftLeft_eq] <;> omega
      have hlt := value_lt c.big ((List.range 2).map d)
      rw [List.length_map, List.length_range] at hlt
      show (if k.signed then (BitVec.setWidth 16 _).signExtend 32 else _).toNat % 2 ^ 16 = _
      cases k.signed
      · rw [if_neg Bool.false_ne_true, hx]
        exact Nat.mod_eq_of_lt hlt
      · rw [if_pos rfl, toNat_signExtend_mod 16 (by decide), BitVec.toNat_setWidth, hx]
        exact Nat.mod_eq_of_lt hlt
  · have hone : value c.big ((List.range 1).map d) = (d 0).toNat := by
      cases c.big <;> simp [value, leValue, List.range_succ]
    refine Eq.trans ?_ hone.symm
    cases k.signed
    · simp [toInt]
      omega
    · exact toNat_signExtend_mod 8 (by decide) (d 0)

/-! ## Doublewords -/

theorem toNat_eq_bytes (x : Word) : x.toNat =
    (byteAt x 0).toNat + 256 * (byteAt x 8).toNat + 65536 * (byteAt x 16).toNat + 16777216 * (byteAt x 24).toNat := by
  have hval := leValue_leBytes 4 x.toNat
  rw [leBytes_four, Nat.mod_eq_of_lt (by omega)] at hval
  simp only [leValue] at hval
  omega

theorem byteAt_swap32 (x : Word) : byteAt (swap32 x) 0 = byteAt x 24 ∧ byteAt (swap32 x) 8 = byteAt x 16 ∧
    byteAt (swap32 x) 16 = byteAt x 8 ∧ byteAt (swap32 x) 24 = byteAt x 0 := by
  have h := leBytes_swap32 x
  rw [leBytes_four, leBytes_four] at h
  simpa using h

theorem sum_bytes (b0 b1 b2 b3 : Byte) :
    (toInt b0 + (toInt b1 <<< 8) + (toInt b2 <<< 16) + (toInt b3 <<< 24)).toNat =
      b0.toNat + 256 * b1.toNat + 65536 * b2.toNat + 16777216 * b3.toNat := by
  simp [toInt, BitVec.toNat_add, Nat.shiftLeft_eq]
  omega

theorem sum_bytes_eq (x : Word) :
    toInt (byteAt x 0) + (toInt (byteAt x 8) <<< 8) + (toInt (byteAt x 16) <<< 16) + (toInt (byteAt x 24) <<< 24) = x := by
  apply BitVec.eq_of_toNat_eq
  rw [sum_bytes, ← toNat_eq_bytes]

theorem sum_bytes_swap32 (x : Word) :
    toInt (byteAt x 24) + (toInt (byteAt x 16) <<< 8) + (toInt (byteAt x 8) <<< 16) + (toInt (byteAt x 0) <<< 24) =
      swap32 x := by
  obtain ⟨h0, h1, h2, h3⟩ := byteAt_swap32 x
  rw [← h0, ← h1, ← h2, ← h3, sum_bytes_eq]

/-- The sum that LDRD makes on a big endian CPU: `data[1] << 6` stands in the place of
`data[6] << 8`. -/
theorem sum_ldrd_iff (x : Word) (b : Byte) :
    toInt (byteAt x 0) + (toInt b <<< 6) + (toInt (byteAt x 16) <<< 16) + (toInt (byteAt x 24) <<< 24) = x ↔
      b.toNat = 4 * (byteAt x 8).toNat := by
  have hx := toNat_eq_bytes x
  rw [← BitVec.toNat_inj]
  have hsum : (toInt (byteAt x 0) + (toInt b <<< 6) + (toInt (byteAt x 16) <<< 16) + (toInt (byteAt x 24) <<< 24)).toNat =
      ((byteAt x 0).toNat + 64 * b.toNat + 65536 * (byteAt x 16).toNat + 16777216 * (byteAt x 24).toNat) % 2 ^ 32 := by
    simp [toInt, BitVec.toNat_add, Nat.shiftLeft_eq]
    omega
  rw [hsum]
  omega

theorem ldrd_storeBytes_iff (hs : k.strd = true) (x x1 : Word) {d : Nat → Byte}
    (hd : ∀ i < 8, d i = (storeBytes c k x x1).getD i 0) :
    ldrdValue c d = x ∧ ldrdValue1 c d = x1 ↔
      (c.big = true → (byteAt x1 16).toNat = 4 * (byteAt x 8).toNat ∧ swap32 x1 = x1) := by
  have h0 := hd 0 (by decide)
  have h1 := hd 1 (by decide)
  have h2 := hd 2 (by decide)
  have h3 := hd 3 (by decide)
  have h4 := hd 4 (by decide)
  have h5 := hd 5 (by decide)
  have h6 := hd 6 (by decide)
  have h7 := hd 7 (by decide)
  rw [storeBytes_strd hs, leBytes_four, leBytes_four] at h0 h1 h2 h3 h4 h5 h6 h7
  unfold ldrdValue ldrdValue1
  cases hbig : c.big
  · simp only [hbig, Bool.false_eq_true, if_false, List.cons_append, List.nil_append, List.getD_cons_zero,
      List.getD_cons_succ] at h0 h1 h2 h3 h4 h5 h6 h7
    simp only [Bool.false_eq_true, if_false, h0, h1, h2, h3, h4, h5, h6, h7, sum_bytes_eq, and_self, false_imp_iff]
  · simp only [hbig, if_true, List.reverse_cons, List.reverse_nil, List.cons_append, List.nil_append,
      List.getD_cons_zero, List.getD_cons_succ] at h0 h1 h2 h3 h4 h5 h6 h7
    simp only [if_true, h0, h1, h2, h3, h4, h5, h7, sum_bytes_swap32, sum_ldrd_iff, true_imp_iff]

end

/-! ## What a program sees -/

namespace ArmMachine

/-- The registers and the memory. The program counter is left out: only the general
function brings it up to date. -/
def visible (s : ArmMachine) : ArmCpu × Word × Word × ByteMem := ({ s.cpu with pc := 0 }, s.tmpPc, s.tmpBranch, s.host)

def SameResult : Except Exit (ArmMachine × Bool) → Except Exit (ArmMachine × Bool) → Prop
  | .ok (s, ok), .ok (s', ok') => s.visible = s'.visible ∧ ok = ok'
  | .error e, .error e' => e = e'
  | _, _ => False

theorem SameResult.rfl (r : Except Exit (ArmMachine × Bool)) : SameResult r r := by
  cases r with
  | error e => exact Eq.refl e
  | ok x => exact ⟨Eq.refl _, Eq.refl _⟩

variable {c : ArmConf} {k : LsKind} {io : ArmIo} {ic : LsCall} {s s' : ArmMachine}

theorem host_of_visible (h : s.visible = s'.visible) : s.host = s'.host :=
  (Prod.mk.inj (Prod.mk.inj (Prod.mk.inj h).2).2).2

theorem visible_setReg (h : s.visible = s'.visible) (x : RegName) (v : Word) :
    (s.setReg x v).visible = (s'.setReg x v).visible := by
  obtain ⟨hcpu, hpc, hbranch, hhost⟩ : _ ∧ _ ∧ _ ∧ _ := by simpa only [visible, Prod.mk.injEq] using h
  cases x with
  | r i =>
    show (ArmCpu.setReg { s.cpu with pc := 0 } i v, s.tmpPc, s.tmpBranch, s.host) =
      (ArmCpu.setReg { s'.cpu with pc := 0 } i v, s'.tmpPc, s'.tmpBranch, s'.host)
    rw [hcpu, hpc, hbranch, hhost]
  | tmpPc =>
    show ({ s.cpu with pc := 0 }, v, s.tmpBranch, s.host) = ({ s'.cpu with pc := 0 }, v, s'.tmpBranch, s'.host)
    rw [hcpu, hbranch, hhost]
  | tmpBranch =>
    show ({ s.cpu with pc := 0 }, s.tmpPc, v, s.host) = ({ s'.cpu with pc := 0 }, s'.tmpPc, v, s'.host)
    rw [hcpu, hpc, hhost]

theorem visible_host (h : s.visible = s'.visible) (host : ByteMem) :
    ({ s with host } : ArmMachine).visible = ({ s' with host } : ArmMachine).visible := by
  obtain ⟨hcpu, hpc, hbranch, -⟩ : _ ∧ _ ∧ _ ∧ _ := by simpa only [visible, Prod.mk.injEq] using h
  show ({ s.cpu with pc := 0 }, s.tmpPc, s.tmpBranch, host) = ({ s'.cpu with pc := 0 }, s'.tmpPc, s'.tmpBranch, host)
  rw [hcpu, hpc, hbranch]

@[simp] theorem host_setReg (x : RegName) (v : Word) : (s.setReg x v).host = s.host := by cases x <;> rfl

theorem reg_setReg (x y : RegName) (v : Word) : (s.setReg x v).reg y = if y = x then v else s.reg y := by
  cases x <;> cases y <;> simp [setReg, reg, ArmCpu.setReg, Function.update_apply]

theorem setReg_setReg (x : RegName) (v w : Word) : (s.setReg x v).setReg x w = s.setReg x w := by
  cases x <;> simp [setReg, ArmCpu.setReg]

theorem visible_writeBack (h : s.visible = s'.visible) (addr offset : Word) :
    (s.writeBack k ic addr offset).visible = (s'.writeBack k ic addr offset).visible := by
  unfold writeBack
  split
  · split
    · exact visible_setReg h _ _
    · exact h
  · exact visible_setReg h _ _

theorem host_writeBack (addr offset : Word) : (s.writeBack k ic addr offset).host = s.host := by
  unfold writeBack
  split
  · split <;> simp
  · simp

/-! ## What the two functions do -/

variable (c io) in
/-- memory_rw() succeeds, and accesses the host bytes from `p` on. -/
def SameBytes (a : Access) (p : Nat) (s : ArmMachine) : Prop :=
  ∃ s0 : ArmMachine, s0.visible = s.visible ∧ ∀ data, data.length = a.len →
    s.memoryRw c io a data = .ok ({ s0 with host := (a.copy p s.host data).1 }, (a.copy p s.host data).2, true)

variable (k ic s) in
def fastAddr : Option Nat := (s.fastPage k ic).map (· + (k.align (s.lsAddr k ic) &&& 0xfff#32).toNat)

variable (c k io ic s) in
/-- The tables map the page to the host bytes that memory_rw() accesses. -/
def PageMapped : Prop :=
  ∀ p, s.fastAddr k ic = some p → SameBytes c io (s.access k ic) p (s.syncPc ic.lowPc)

theorem inRegister_kind (h : inRegister c k = true) :
    k.ldrd = false ∧ k.strd = false ∧ k.datalen = 4 ∧ c.hostBig = false := by
  unfold inRegister at h
  simp only [Bool.and_eq_true, Bool.not_eq_true'] at h
  obtain ⟨⟨hb, hh⟩, hhost⟩ := h
  have hv := k.valid
  simp only [hb, hh, Bool.or_false, Bool.and_self, Bool.not_false, Bool.true_and, Bool.not_eq_true'] at hv
  simp [LsKind.datalen, LsKind.strd, LsKind.ldrd, hv, hb, hh, hhost]

theorem length_storeBytes (hl : k.ldrd = false) (x x1 : Word) : (storeBytes c k x x1).length = k.datalen := by
  cases hs : k.strd with
  | false => rw [storeBytes_eq hs hl, length_bytes]
  | true =>
    rw [storeBytes_strd hs]
    unfold LsKind.datalen
    rw [hs]
    split <;> simp

theorem length_buffer : (s.buffer c k ic).length = k.datalen := by
  unfold buffer
  split
  · rename_i hin
    rw [(inRegister_kind hin).2.2.1]
    exact length_bytes _ _ _
  · split
    · exact List.length_replicate
    · rename_i hload
      simp only [LsKind.load, Bool.not_eq_true, Bool.or_eq_false_iff] at hload
      exact length_storeBytes hload.2 _ _

theorem loadRegs_setReg (hl : k.ldrd = false) (v : Word) (data : List Byte) :
    (s.setReg ic.arg2 v).loadRegs c k ic data = s.loadRegs c k ic data := by
  unfold loadRegs
  rw [hl]
  exact setReg_setReg _ _ _

theorem lsGeneral_of_same {p : Nat} (h : SameBytes c io (s.access k ic) p (s.syncPc ic.lowPc)) :
    ∃ s0 : ArmMachine, s0.visible = s.visible ∧ s.lsGeneral c k io ic =
      .ok ((if k.load then s0.loadRegs c k ic (s.host.read p k.datalen)
        else { s0 with host := s.host.write p (s.buffer c k ic) }).writeBack k ic (k.align (s.lsAddr k ic))
          (s.offset k ic), true) := by
  obtain ⟨s0, hvis, hrw⟩ := h
  refine ⟨{ s0 with host := s.host }, ?_, ?_⟩
  · exact visible_host hvis s.host
  have haddr : (s.access k ic).vaddr.setWidth 32 = k.align (s.lsAddr k ic) := by simp [access]
  unfold lsGeneral
  dsimp only
  rw [hrw _ length_buffer, haddr]
  cases hload : k.load with
  | true =>
    have hcopy : (s.access k ic).copy p (s.syncPc ic.lowPc).host (s.buffer c k ic) =
        (s.host, s.host.read p k.datalen) := by simp [Access.copy, access, hload, syncPc]
    rw [hcopy]
    by_cases hin : (inRegister c k && s.host.read p k.datalen != s.buffer c k ic) = true
    · have hl := (inRegister_kind (Bool.and_eq_true_iff.mp hin).1).1
      simp only [hin, if_true, bind, Except.bind, Bool.not_true, Bool.false_eq_true, if_false]
      rw [loadRegs_setReg hl]
      rfl
    · simp only [hin, if_false, if_true, bind, Except.bind, Bool.not_true, Bool.false_eq_true]
      rfl
  | false =>
    have hcopy : (s.access k ic).copy p (s.syncPc ic.lowPc).host (s.buffer c k ic) =
        (s.host.write p (s.buffer c k ic), s.buffer c k ic) := by simp [Access.copy, access, hload, syncPc]
    rw [hcopy]
    simp only [bne_self_eq_false, Bool.and_false, Bool.false_eq_true, if_false, bind, Except.bind, Bool.not_true]
    rfl

theorem fastAddr_eq_some {p : Nat} (h : s.fastAddr k ic = some p) : k.ldrd = false ∧ k.strd = false ∧
    ∃ page, s.fastPage k ic = some page ∧ p = page + (k.align (s.lsAddr k ic) &&& 0xfff#32).toNat := by
  obtain ⟨page, hpage, hp⟩ := Option.map_eq_some_iff.mp h
  have hdouble : (k.ldrd || k.strd) = false := by
    unfold fastPage at hpage
    split at hpage
    · cases hpage
    · rename_i hd
      simpa using hd
  obtain ⟨hl, hs⟩ := Bool.or_eq_false_iff.mp hdouble
  exact ⟨hl, hs, page, hpage, hp.symm⟩

theorem lsFast_of_none (h : s.fastAddr k ic = none) : s.lsFast c k io ic = s.lsGeneral c k io ic := by
  unfold lsFast
  rw [Option.map_eq_none_iff.mp h]

theorem loadValue_congr (hl : k.ldrd = false) (hs : k.strd = false) {d d' : Nat → Byte}
    (h : ∀ i < k.datalen, d i = d' i) : loadValue c k d = loadValue c k d' := by
  unfold loadValue
  unfold LsKind.datalen at h
  rw [hl, hs] at h
  cases hb : k.b
  · cases hh : k.h
    · simp [hb, hh] at h
      simp [h]
    · simp [hb, hh] at h
      simp [h]
  · simp [hb] at h
    simp [h]

theorem getD_read (host : ByteMem) (p : Nat) {n i : Nat} (hi : i < n) : (host.read p n).getD i 0 = host (p + i) := by
  rw [List.getD_eq_getElem?_getD, ByteMem.getElem?_read, if_pos hi]
  rfl

theorem lsFast_of_some {p : Nat} (h : s.fastAddr k ic = some p) : s.lsFast c k io ic =
    .ok ((if k.load then s.loadRegs c k ic (s.host.read p k.datalen)
      else { s with host := s.host.write p (storeBytes c k (s.reg ic.arg2) 0) }).writeBack k ic
        (k.align (s.lsAddr k ic)) (s.offset k ic), true) := by
  obtain ⟨hl, hs, page, hpage, rfl⟩ := fastAddr_eq_some h
  have hload : k.load = k.l := by simp [LsKind.load, hl]
  unfold lsFast
  rw [hpage, hload]
  have hvalue := loadValue_congr (c := c) hl hs fun i hi =>
    getD_read s.host (page + (k.align (s.lsAddr k ic) &&& 0xfff#32).toNat) hi
  unfold loadRegs
  rw [hl]
  dsimp only
  rw [hvalue]
  rfl

theorem visible_loadRegs (h : s.visible = s'.visible) (data : List Byte) :
    (s.loadRegs c k ic data).visible = (s'.loadRegs c k ic data).visible := by
  unfold loadRegs
  split
  · exact visible_setReg (visible_setReg h _ _) _ _
  · exact visible_setReg h _ _

variable (c k ic s) in
/-- A word that is stored from the register of a big endian CPU is the same in both
byte orders. -/
def KeepsOrder : Prop :=
  k.load = false → inRegister c k = true → c.big = true → swap32 (s.reg ic.arg2) = s.reg ic.arg2

theorem storeBytes_eq_buffer_iff (hl : k.ldrd = false) (hs : k.strd = false) (hload : k.load = false) :
    storeBytes c k (s.reg ic.arg2) 0 = s.buffer c k ic ↔ s.KeepsOrder c k ic := by
  unfold KeepsOrder buffer
  rw [storeBytes_eq hs hl, hload]
  cases hin : inRegister c k with
  | true =>
    obtain ⟨-, -, hlen, hhost⟩ := inRegister_kind hin
    unfold image
    rw [hlen, if_pos rfl, bytes_eq_iff, hhost]
    cases c.big <;> simp
  | false => simp [storeBytes_eq hs hl]

theorem lsFast_eq_lsGeneral_iff (hm : s.PageMapped c k io ic) :
    SameResult (s.lsFast c k io ic) (s.lsGeneral c k io ic) ↔ (s.fastAddr k ic ≠ none → s.KeepsOrder c k ic) := by
  cases hfast : s.fastAddr k ic with
  | none =>
    rw [lsFast_of_none hfast]
    exact ⟨fun _ h => absurd rfl h, fun _ => SameResult.rfl _⟩
  | some p =>
    obtain ⟨hl, hs, -⟩ := fastAddr_eq_some hfast
    obtain ⟨s0, hvis, hslow⟩ := lsGeneral_of_same (hm p hfast)
    rw [lsFast_of_some hfast, hslow]
    simp only [ne_eq, reduceCtorEq, not_false_eq_true, true_imp_iff]
    cases hload : k.load with
    | true =>
      refine ⟨fun _ h => ?_, fun _ => ⟨?_, rfl⟩⟩
      · rw [hload] at h
        cases h
      · exact visible_writeBack (visible_loadRegs hvis.symm _) _ _
    | false =>
      rw [← storeBytes_eq_buffer_iff hl hs hload]
      constructor
      · intro h
        have hhost := host_of_visible h.1
        rw [host_writeBack, host_writeBack] at hhost
        exact (ByteMem.write_inj _ _ ((length_storeBytes hl _ _).trans length_buffer.symm)).mp hhost
      · intro h
        rw [h]
        exact ⟨visible_writeBack (visible_host hvis.symm _) _ _, rfl⟩

/-! ## Write-back -/

theorem lsGeneral_completes (h : s.lsGeneral c k io ic = .ok (s', true)) :
    ∃ t : ArmMachine, s' = t.writeBack k ic (k.align (s.lsAddr k ic)) (s.offset k ic) := by
  obtain ⟨⟨t, data, ok⟩, -, hrest⟩ := Lib.bind_eq_ok h
  cases ok with
  | false =>
    cases hrest
  | true =>
    cases hrest
    have haddr : (s.access k ic).vaddr.setWidth 32 = k.align (s.lsAddr k ic) := by simp [access]
    rw [haddr]
    exact ⟨_, rfl⟩

theorem lsFast_completes (h : s.lsFast c k io ic = .ok (s', true)) :
    ∃ t : ArmMachine, s' = t.writeBack k ic (k.align (s.lsAddr k ic)) (s.offset k ic) := by
  cases hfast : s.fastAddr k ic with
  | none =>
    rw [lsFast_of_none hfast] at h
    exact lsGeneral_completes h
  | some p =>
    rw [lsFast_of_some hfast] at h
    cases h
    exact ⟨_, rfl⟩

theorem writeBack_reg_iff (hw : k.p = true → k.w = true) (t : ArmMachine) :
    (t.writeBack k ic (k.align (s.lsAddr k ic)) (s.offset k ic)).reg ic.arg0 = s.reg ic.arg0 + s.offset k ic ↔
      k.align (s.lsAddr k ic) = s.lsAddr k ic := by
  unfold writeBack lsAddr
  cases hp : k.p with
  | true =>
    rw [if_pos rfl, if_pos rfl, if_pos (hw hp), reg_setReg, if_pos rfl]
  | false =>
    have hbase : s.reg ic.arg0 + (0 : Word) = s.reg ic.arg0 := BitVec.add_zero _
    simp only [Bool.false_eq_true, if_false, reg_setReg, if_true, hbase]
    exact add_left_inj _

/-! ## Storing and loading back -/

variable (c k io ic s) in
/-- The instruction accesses the host bytes from `p` on, whichever way it goes. -/
def TransfersAt (p : Nat) : Prop :=
  SameBytes c io (s.access k ic) p (s.syncPc ic.lowPc) ∧ ∀ q, s.fastAddr k ic = some q → q = p

theorem lsFast_store {p : Nat} (ht : s.TransfersAt c k io ic p) (hload : k.load = false)
    (h : s.lsFast c k io ic = .ok (s', true)) :
    s'.host = s.host.write p (if s.fastAddr k ic = none then s.buffer c k ic else storeBytes c k (s.reg ic.arg2) 0) := by
  cases hfast : s.fastAddr k ic with
  | none =>
    obtain ⟨s0, -, hslow⟩ := lsGeneral_of_same ht.1
    rw [lsFast_of_none hfast, hslow] at h
    cases h
    rw [host_writeBack, hload, if_pos rfl, if_neg Bool.false_ne_true]
  | some q =>
    rw [lsFast_of_some hfast] at h
    cases h
    rw [host_writeBack, hload, if_neg Bool.false_ne_true, if_neg (by simp), ht.2 q hfast]

theorem reg_writeBack {x : RegName} (hx : (k.p = true ∧ k.w = false) ∨ ic.arg0 ≠ x) (addr offset : Word) :
    (s.writeBack k ic addr offset).reg x = s.reg x := by
  unfold writeBack
  obtain ⟨hp, hw⟩ | hne := hx
  · simp [hp, hw]
  · split
    · split
      · rw [reg_setReg, if_neg (Ne.symm hne)]
      · rfl
    · rw [reg_setReg, if_neg (Ne.symm hne)]

theorem lsFast_load {p : Nat} (ht : s.TransfersAt c k io ic p) (hload : k.load = true)
    (h : s.lsFast c k io ic = .ok (s', true)) :
    ∃ t : ArmMachine, s' = (t.loadRegs c k ic (s.host.read p k.datalen)).writeBack k ic (k.align (s.lsAddr k ic))
      (s.offset k ic) := by
  cases hfast : s.fastAddr k ic with
  | none =>
    obtain ⟨s0, -, hslow⟩ := lsGeneral_of_same ht.1
    rw [lsFast_of_none hfast, hslow, hload] at h
    cases h
    exact ⟨s0, rfl⟩
  | some q =>
    rw [lsFast_of_some hfast, hload] at h
    cases h
    rw [ht.2 q hfast]
    exact ⟨s, rfl⟩

variable (c k ic s) in
/-- A store that the same kind of load undoes: a word is not stored from the register,
or is the same in both byte orders, and so is the second register of a doubleword. -/
def LoadsBack : Prop :=
  if k.strd then
    c.big = true → (byteAt (s.reg ic.arg2.next) 16).toNat = 4 * (byteAt (s.reg ic.arg2) 8).toNat ∧
      swap32 (s.reg ic.arg2.next) = s.reg ic.arg2.next
  else s.fastAddr k ic = none → s.KeepsOrder c k ic

theorem numberAt_stored_iff (hl : k.ldrd = false) (hs : k.strd = false) (hload : k.load = false) {d : Nat → Byte}
    (hd : (List.range k.datalen).map d =
      if s.fastAddr k ic = none then s.buffer c k ic else storeBytes c k (s.reg ic.arg2) 0) :
    numberAt c.big k.datalen d = (s.reg ic.arg2).toNat % 256 ^ k.datalen ↔
      (s.fastAddr k ic = none → s.KeepsOrder c k ic) := by
  have hfast : ∀ l : List Byte, l = storeBytes c k (s.reg ic.arg2) 0 ↔
      l = bytes c.big k.datalen (s.reg ic.arg2).toNat := fun l => by rw [storeBytes_eq hs hl]
  have hnumber : numberAt c.big k.datalen d = (s.reg ic.arg2).toNat % 256 ^ k.datalen ↔
      (List.range k.datalen).map d = bytes c.big k.datalen (s.reg ic.arg2).toNat := by
    unfold numberAt
    rw [← value_bytes c.big]
    exact ⟨value_inj (by simp), fun h => by rw [h]⟩
  rw [hnumber, ← hfast, hd]
  by_cases hnone : s.fastAddr k ic = none
  · simp only [if_pos hnone]
    rw [eq_comm, storeBytes_eq_buffer_iff hl hs hload]
    simp [hnone]
  · simp [hnone]

theorem not_strd_of_load (h : k.load = true) : k.strd = false := by
  unfold LsKind.load LsKind.ldrd at h
  unfold LsKind.strd
  cases hl : k.l <;> cases hh : k.h <;> simp_all

theorem datalen_eq_eight_iff : k.datalen = 8 ↔ (k.strd || k.ldrd) = true := by
  unfold LsKind.datalen
  split
  · simp_all
  · split
    · simp_all
    · split <;> simp_all

variable {k' : LsKind} {ic' : LsCall} {s1 s2 : ArmMachine}

theorem loads_back_iff {p : Nat} (hstore : k.load = false) (hload : k'.load = true)
    (hlen : k'.datalen = k.datalen) (ht : s.TransfersAt c k io ic p) (h1 : s.lsFast c k io ic = .ok (s1, true))
    (ht' : s1.TransfersAt c k' io ic' p) (h2 : s1.lsFast c k' io ic' = .ok (s2, true))
    (hbase : (k'.p = true ∧ k'.w = false) ∨ ic'.arg0 ≠ ic'.arg2 ∧ ic'.arg0 ≠ ic'.arg2.next)
    (hreg : ic'.arg2 ≠ ic'.arg2.next) :
    (if k.strd then s2.reg ic'.arg2 = s.reg ic.arg2 ∧ s2.reg ic'.arg2.next = s.reg ic.arg2.next
      else (s2.reg ic'.arg2).toNat % 256 ^ k.datalen = (s.reg ic.arg2).toNat % 256 ^ k.datalen) ↔
      s.LoadsBack c k ic := by
  have hl : k.ldrd = false := (Bool.or_eq_false_iff.mp hstore).2
  have hmem := lsFast_store ht hstore h1
  obtain ⟨t, rfl⟩ := lsFast_load ht' hload h2
  rw [reg_writeBack (hbase.imp_right And.left), reg_writeBack (hbase.imp_right And.right)]
  generalize hL : (if s.fastAddr k ic = none then s.buffer c k ic else storeBytes c k (s.reg ic.arg2) 0) = L at hmem
  have hLlen : L.length = k.datalen := by
    rw [← hL]
    split
    · exact length_buffer
    · exact length_storeBytes hl _ _
  have hread : s1.host.read p k'.datalen = L := by
    rw [hmem, hlen, ← hLlen, ByteMem.read_write]
  rw [hread]
  unfold loadRegs LoadsBack
  have hs' := not_strd_of_load hload
  have hdouble : k'.ldrd = k.strd := by
    have hiff := (datalen_eq_eight_iff (k := k')).symm.trans (hlen ▸ datalen_eq_eight_iff (k := k))
    rw [hs', hl, Bool.false_or, Bool.or_false] at hiff
    exact Bool.eq_iff_iff.mpr hiff
  rw [hdouble]
  cases hs : k.strd with
  | true =>
    have hnone : s.fastAddr k ic = none := by
      unfold fastAddr fastPage
      simp [hs]
    have hbuffer : s.buffer c k ic = storeBytes c k (s.reg ic.arg2) (s.reg ic.arg2.next) := by
      have hin : inRegister c k = false := by
        by_contra hin
        have := (inRegister_kind (Bool.not_eq_false _ ▸ hin)).2.1
        rw [hs] at this
        cases this
      simp [buffer, hin, hstore]
    rw [if_pos hnone, hbuffer] at hL
    simp only [if_true, reg_setReg, if_neg hreg]
    exact ldrd_storeBytes_iff hs _ _ fun i _ => by rw [hL]
  | false =>
    rw [if_neg Bool.false_ne_true, if_neg Bool.false_ne_true, if_neg Bool.false_ne_true, reg_setReg, if_pos rfl,
      ← numberAt_stored_iff (d := fun i => L.getD i 0) hl hs hstore, ← hlen]
    · rw [loadValue_low (hdouble.trans hs) hs']
    · rw [hL, ← hLlen]
      apply List.ext_getElem
      · simp
      · intro i h1 h2
        simp [List.getElem?_eq_getElem h2]

/-- Loads and stores. The two functions agree, the base register is written back as the
base plus the offset, and what is stored is loaded back, exactly under these conditions:
a word that the general function stores on a little endian host is the same in both byte
orders if the CPU is big endian, the address is aligned, and the registers of a
doubleword are such that LDRD finds them again. -/
theorem ls_iff (hm : s.PageMapped c k io ic) :
    (SameResult (s.lsFast c k io ic) (s.lsGeneral c k io ic) ↔ (s.fastAddr k ic ≠ none → s.KeepsOrder c k ic)) ∧
    (∀ s', s.lsFast c k io ic = .ok (s', true) ∨ s.lsGeneral c k io ic = .ok (s', true) → (k.p = true → k.w = true) →
      (s'.reg ic.arg0 = s.reg ic.arg0 + s.offset k ic ↔ k.align (s.lsAddr k ic) = s.lsAddr k ic)) ∧
    (∀ k' ic' s1 s2 p, k.load = false → k'.load = true → k'.datalen = k.datalen → s.TransfersAt c k io ic p →
      s.lsFast c k io ic = .ok (s1, true) → s1.TransfersAt c k' io ic' p → s1.lsFast c k' io ic' = .ok (s2, true) →
      ((k'.p = true ∧ k'.w = false) ∨ ic'.arg0 ≠ ic'.arg2 ∧ ic'.arg0 ≠ ic'.arg2.next) → ic'.arg2 ≠ ic'.arg2.next →
      ((if k.strd then s2.reg ic'.arg2 = s.reg ic.arg2 ∧ s2.reg ic'.arg2.next = s.reg ic.arg2.next
        else (s2.reg ic'.arg2).toNat % 256 ^ k.datalen = (s.reg ic.arg2).toNat % 256 ^ k.datalen) ↔
        s.LoadsBack c k ic)) := by
  refine ⟨lsFast_eq_lsGeneral_iff hm, fun s' h hw => ?_, ?_⟩
  · obtain ⟨t, rfl⟩ : ∃ t : ArmMachine, s' = t.writeBack k ic (k.align (s.lsAddr k ic)) (s.offset k ic) :=
      h.elim lsFast_completes lsGeneral_completes
    exact writeBack_reg_iff hw t
  · exact fun k' ic' s1 s2 p hstore hload hlen ht h1 ht' h2 hbase hreg =>
      loads_back_iff hstore hload hlen ht h1 ht' h2 hbase hreg

/-! A CPU with its MMU off, that has written to the first page of RAM and stores r0 there. -/

theorem sameBytes_of_accesses {a : Access} {t : ArmMachine} {paddr : Word} {access p : Nat} {subpage : Bool} {dyn : Cpu}
    {mem : Memory} (hphys : a.physical = false)
    (hv : s.translateV2p c io (a.vaddr.setWidth 32) a.write (hasFlag a.miscFlags memoryUserAccess) =
      .ok (t, .ok paddr access subpage))
    (hrw : t.dyn.memoryRw c.conf (accessEnv io.env (paddr.setWidth 64)
      (access ||| (if subpage then memoryNotFullPage else 0))) a t.mem = .ok (dyn, mem, true))
    (hacc : Cpu.Accesses c.conf (accessEnv io.env (paddr.setWidth 64)
      (access ||| (if subpage then memoryNotFullPage else 0))) io.dev a t.mem p) : SameBytes c io a p s := by
  have hvis : t.visible = s.visible := by
    obtain rfl | rfl := translateV2p_same hv
    · unfold findTable
      split <;> rfl
    · rfl
  have hhost := host_of_visible hvis
  refine ⟨{ t with dyn, mem }, hvis, fun data hlen => ?_⟩
  unfold memoryRw
  rw [hphys, if_neg Bool.false_ne_true, hv]
  show t.accessPaddr c io a _ _ data = _
  unfold accessPaddr
  dsimp only
  rw [hrw, hacc t.host data hlen, hhost]
  rfl

def ramIo : ArmIo :=
  ⟨Env.r4000 0, ⟨fun _ _ _ _ host data => (host, data), fun _ _ _ host data => (host, data)⟩,
    fun page => some page.toNat, 16⟩

def ramConf (big : Bool) : ArmConf := ⟨65536, big, false, false⟩

def strKind : LsKind := ⟨false, false, false, false, false, true, false, false, by decide⟩

def strCall : LsCall := ⟨.r 1, 4, .r 0, 0⟩

def ramMachine : ArmMachine where
  cpu := (ArmCpu.new false).setReg 0 1
  dyn := (Cpu.updateTranslationTable (ramConf false).conf (Cpu.start .mode32 0 Tc.init) 0 0 1 0).toOption.getD
    (Cpu.start .mode32 0 Tc.init)
  mem := Memory.init
  mmuOn := false
  translationTable := none
  lastTtb := 0
  tmpPc := 0
  tmpBranch := 0
  host _ := 0

theorem fastAddr_ram : ramMachine.fastAddr strKind strCall = some 0 := by decide +kernel

theorem pageMapped_ram (big : Bool) : ramMachine.PageMapped (ramConf big) strKind ramIo strCall := by
  intro p hp
  rw [fastAddr_ram] at hp
  cases hp
  have haccess : ramMachine.access strKind strCall = ⟨0#64, 4, true, cacheData⟩ := by decide +kernel
  obtain ⟨⟨dyn, mem, ok⟩, hr, hok⟩ := eval_eq_ok ((ramMachine.syncPc 0).dyn.memoryRw (ramConf big).conf
    (accessEnv ramIo.env 0 2) ⟨0#64, 4, true, cacheData⟩ Memory.init) (fun r => r.2.2) true (by
      cases big <;> decide +kernel)
  cases hok
  rw [haccess]
  have hacc := @Cpu.accesses_ram (ramConf big).conf (accessEnv ramIo.env 0 2) ramIo.dev ⟨0#64, 4, true, cacheData⟩
    Memory.init 0#64 2 0 (by decide +kernel) (by decide +kernel) (by decide +kernel) (by decide +kernel)
    (by cases big <;> decide +kernel)
  have hofs : 0 + (0#64 &&& (ramConf big).conf.arch.offsetMask).toNat = 0 := by cases big <;> decide +kernel
  rw [hofs] at hacc
  exact sameBytes_of_accesses (t := ramMachine.syncPc 0) rfl rfl hr hacc

/-- A little endian CPU: the store does the same both ways, and writes the base back. -/
theorem ls_ram : SameResult (ramMachine.lsFast (ramConf false) strKind ramIo strCall)
      (ramMachine.lsGeneral (ramConf false) strKind ramIo strCall) ∧
    ∃ s', ramMachine.lsFast (ramConf false) strKind ramIo strCall = .ok (s', true) ∧ s'.reg (.r 1) = 4 := by
  obtain ⟨hsame, hbase, -⟩ := ls_iff (pageMapped_ram false)
  have hfast := @lsFast_of_some (ramConf false) strKind ramIo strCall ramMachine 0 fastAddr_ram
  refine ⟨hsame.mpr fun _ _ _ hbig => absurd hbig (by decide), _, hfast, ?_⟩
  exact (hbase _ (.inl hfast) (fun h => absurd h (by decide))).mpr (by decide +kernel)

/-- A big endian CPU: the general function stores the word in the byte order of the host. -/
theorem lsFast_ram_big : ramMachine.PageMapped (ramConf true) strKind ramIo strCall ∧
    ¬ SameResult (ramMachine.lsFast (ramConf true) strKind ramIo strCall)
      (ramMachine.lsGeneral (ramConf true) strKind ramIo strCall) := by
  refine ⟨pageMapped_ram true, fun h => ?_⟩
  have hfast : ramMachine.fastAddr strKind strCall ≠ none := by simp [fastAddr_ram]
  have hkeeps := (lsFast_eq_lsGeneral_iff (pageMapped_ram true)).mp h hfast rfl rfl rfl
  revert hkeeps
  decide +kernel

end ArmMachine

end Gxemul.Arm
