import Gxemul.Ppc.Mmu

/- ppc_translate_v2p() against the architecture's block and page translation.

   It follows it but for a block that denies the access, where it calls exit(). The search of
   the page table leaves its hashes and the word it looks for in registers, also when
   it may not change any. -/
namespace Gxemul.Ppc

/-! ## The reference -/

inductive Access where
  | denied
  | readOnly
  | readWrite

/-- What ppc_translate_v2p() returns for a page with these rights. -/
def Access.grant (writeflag : Bool) : Access → Nat
  | denied => 0
  | readOnly => if writeflag then 0 else 1
  | readWrite => 2

structure Bat where
  upper : Word
  lower : Word

namespace Bat
variable (b : Bat)

def bepi : BitVec 15 := b.upper.extractLsb' 17 15
def bl : BitVec 11 := b.upper.extractLsb' 2 11
def brpn : BitVec 15 := b.lower.extractLsb' 17 15

def valid (user : Bool) : Bool := if user then b.upper.getLsbD 0 else b.upper.getLsbD 1

def offsetMask : Word := 0#4 ++ b.bl ++ 0x1ffff#17

def covers (ea : Word) : Bool := ea &&& ~~~ b.offsetMask == (b.bepi ++ 0#17) &&& ~~~ b.offsetMask

def physical (ea : Word) : Word := (ea &&& b.offsetMask) ||| ((b.brpn ++ 0#17) &&& ~~~ b.offsetMask)

def access : Access :=
  match b.lower.extractLsb' 0 2 with
  | 0#2 => .denied
  | 2#2 => .readWrite
  | _ => .readOnly

end Bat

structure Pte where
  upper : Word
  lower : Word

namespace Pte
variable (p : Pte)

def isFor (vsid : BitVec 24) (h : Bool) (api : BitVec 6) : Bool :=
  p.upper.getLsbD 31 && p.upper.extractLsb' 7 24 == vsid && p.upper.getLsbD 6 == h && p.upper.extractLsb' 0 6 == api

def guarded : Bool := p.lower.getLsbD 3

def physical (ea : Word) : Word := p.lower.extractLsb' 12 20 ++ ea.extractLsb' 0 12

def access (key : Bool) : Access :=
  match p.lower.extractLsb' 0 2 with
  | 3#2 => .readOnly
  | 2#2 => .readWrite
  | 1#2 => if key then .readOnly else .readWrite
  | _ => if key then .denied else .readWrite

end Pte

def ptegAddr (sdr1 : Word) (hash : BitVec 19) : Word :=
  sdr1.extractLsb' 25 7 ++ (sdr1.extractLsb' 16 9 ||| (sdr1.extractLsb' 0 9 &&& hash.extractLsb' 10 9)) ++
    hash.extractLsb' 0 10 ++ 0#6

def pteg (mem : Addr → BitVec 8) (addr : Word) : List Pte :=
  (List.range 8).map fun i =>
    ⟨beWord mem (addr.setWidth 64 + BitVec.ofNat 64 (8 * i)), beWord mem (addr.setWidth 64 + BitVec.ofNat 64 (8 * i) + 4#64)⟩

namespace MmuCpu
variable (c : MmuCpu) (mem : Addr → BitVec 8) (instr : Bool) (ea : Word)

def user : Bool := c.msr.getLsbD 14

def relocate : Bool := if instr then c.msr.getLsbD 5 else c.msr.getLsbD 4

def bats : List Bat :=
  (List.range 4).map fun i =>
    let nr := (if instr then 0x210#10 else 0x218#10) + BitVec.ofNat 10 (2 * i)
    ⟨(c.spr nr).setWidth 32, (c.spr (nr + 1#10)).setWidth 32⟩

def batFor : Option Bat := (c.bats instr).find? fun b => b.valid c.user && b.covers ea

def segment : Word := c.sr (ea.extractLsb' 28 4)
def vsid : BitVec 24 := (c.segment ea).extractLsb' 0 24
def api : BitVec 6 := ea.extractLsb' 22 6

def key : Bool := if c.user then (c.segment ea).getLsbD 29 else (c.segment ea).getLsbD 30

def primaryHash : BitVec 19 := (c.vsid ea).extractLsb' 0 19 ^^^ (0#3 ++ ea.extractLsb' 12 16)

def primaryPteg : Word := ptegAddr ((c.spr sprSdr1).setWidth 32) (c.primaryHash ea)
def secondaryPteg : Word := ptegAddr ((c.spr sprSdr1).setWidth 32) (~~~ c.primaryHash ea)

def pteFor : Option Pte :=
  ((pteg mem (c.primaryPteg ea)).find? fun p => p.isFor (c.vsid ea) false (api ea)).or
    ((pteg mem (c.secondaryPteg ea)).find? fun p => p.isFor (c.vsid ea) true (api ea))

/-- No instruction is fetched from a no-execute segment or a guarded page. -/
def pteAccess (p : Pte) : Access :=
  if instr && ((c.segment ea).getLsbD 28 || p.guarded) then .denied else p.access (c.key ea)

/-- The rights and the physical address, with the real address where there is no translation. -/
def translation (vaddr : Addr) : Option (Access × Addr) :=
  let ea := vaddr.setWidth 32
  if c.relocate instr then
    match c.batFor instr ea with
    | some b => some (b.access, (b.physical ea).setWidth 64)
    | none => (c.pteFor mem ea).map fun p => (c.pteAccess instr ea p, (p.physical ea).setWidth 64)
  else some (.readWrite, if c.is32bit then ea.setWidth 64 else vaddr)

end MmuCpu

/-! ## Blocks -/

section
variable {α β : Type}

theorem findSome?_eq_map_find? {l : List α} {f : α → Option β} {p : α → Bool} {g : α → β}
    (h : ∀ a ∈ l, f a = if p a then some (g a) else none) : l.findSome? f = (l.find? p).map g := by
  induction l with
  | nil => rfl
  | cons a l ih =>
    have hl := ih fun b hb => h b (List.mem_cons_of_mem _ hb)
    rw [List.findSome?_cons, h a List.mem_cons_self, List.find?_cons]
    cases p a with
    | true => rfl
    | false => exact hl

end

section
variable {c : MmuCpu} {ea : Word} {f : V2pFlags}

theorem offsetMask_eq (b : Bat) : ((b.upper &&& batBl) <<< 15) ||| 0x1ffff#32 = b.offsetMask := by
  have hbl : ∀ j < 32, batBl.getLsbD j = (decide (2 ≤ j) && decide (j < 13)) := by decide
  have hlow : ∀ j < 32, (0x1ffff#32).getLsbD j = decide (j < 17) := by decide
  have hlow' : ∀ j < 17, (0x1ffff#17).getLsbD j = true := by decide
  apply BitVec.eq_of_getLsbD_eq
  intro j hj
  unfold Bat.offsetMask Bat.bl
  grind

theorem epi_eq (b : Bat) : b.upper &&& batEpi = b.bepi ++ 0#17 := by
  have hepi : ∀ j < 32, batEpi.getLsbD j = decide (17 ≤ j) := by decide
  apply BitVec.eq_of_getLsbD_eq
  intro j hj
  unfold Bat.bepi
  grind

theorem rpn_eq (b : Bat) : b.lower &&& batRpn = b.brpn ++ 0#17 := epi_eq ⟨b.lower, b.lower⟩

theorem pp_eq (w : Word) : w &&& 0x3#32 = (w.extractLsb' 0 2).setWidth 32 := by
  have hpp : ∀ j < 32, (0x3#32).getLsbD j = decide (j < 2) := by decide
  apply BitVec.eq_of_getLsbD_eq
  intro j hj
  grind

theorem setWidth_inj {x y : Word} : x.setWidth 64 = y.setWidth 64 ↔ x = y := by
  constructor
  · intro h
    have hback := congrArg (BitVec.setWidth 32) h
    rwa [BitVec.setWidth_setWidth_of_le _ (by decide), BitVec.setWidth_setWidth_of_le _ (by decide),
      BitVec.setWidth_eq, BitVec.setWidth_eq] at hback
  · intro h
    rw [h]

theorem bat_grant (b : Bat) (w : Bool) :
    (if b.lower &&& batPp = 0#32 then 0
      else if b.lower &&& batPp = 1#32 ∨ b.lower &&& batPp = 3#32 then if w then 0 else 1 else 2) =
      b.access.grant w := by
  unfold batPp Bat.access
  rw [pp_eq]
  generalize b.lower.extractLsb' 0 2 = pp
  revert pp w
  decide

theorem bats_eq : c.bats f.instr =
    (List.range' (if f.instr then 0 else 4) 4).map fun i =>
      ⟨(c.spr (sprIbat0u + BitVec.ofNat 10 (i * 2))).setWidth 32,
        (c.spr (sprIbat0u + BitVec.ofNat 10 (i * 2) + 1#10)).setWidth 32⟩ := by
  cases f.instr <;> rfl

theorem bit_eq_zero_iff {n : Nat} (w : BitVec n) (k : Nat) (hk : k < n) : w &&& (1#n <<< k) = 0#n ↔ w.getLsbD k = false := by
  constructor
  · intro h
    have hbit := congrArg (·.getLsbD k) h
    simpa [hk] using hbit
  · intro h
    apply BitVec.eq_of_getLsbD_eq
    intro j hj
    by_cases hjk : j = k
    · subst hjk
      rw [BitVec.getLsbD_and, h, Bool.false_and, BitVec.getLsbD_zero]
    · have hone : ((1#n) <<< k).getLsbD j = false := by
        rw [BitVec.getLsbD_shiftLeft, BitVec.getLsbD_one]
        simp only [Bool.and_eq_false_iff, decide_eq_false_iff_not, Bool.not_eq_false', decide_eq_true_eq]
        omega
      rw [BitVec.getLsbD_and, hone, Bool.and_false, BitVec.getLsbD_zero]

theorem batRound_eq (b : Bat) (user w : Bool) :
    (if user = true ∧ b.upper &&& batVu = 0#32 then none
      else if user = false ∧ b.upper &&& batVs = 0#32 then none
      else if ea.setWidth 64 &&& (~~~ (((b.upper &&& batBl) <<< 15) ||| 0x1ffff#32)).setWidth 64 ≠
          ((b.upper &&& batEpi) &&& ~~~ (((b.upper &&& batBl) <<< 15) ||| 0x1ffff#32)).setWidth 64 then none
      else some (if b.lower &&& batPp = 0#32 then 0
          else if b.lower &&& batPp = 1#32 ∨ b.lower &&& batPp = 3#32 then if w then 0 else 1 else 2,
        (ea.setWidth 64 &&& (((b.upper &&& batBl) <<< 15) ||| 0x1ffff#32).setWidth 64) |||
          ((b.lower &&& batRpn) &&& ~~~ (((b.upper &&& batBl) <<< 15) ||| 0x1ffff#32)).setWidth 64)) =
      if b.valid user && b.covers ea then some (b.access.grant w, (b.physical ea).setWidth 64) else none := by
  have hvu : b.upper &&& batVu = 0#32 ↔ b.upper.getLsbD 0 = false := bit_eq_zero_iff b.upper 0 (by decide)
  have hvs : b.upper &&& batVs = 0#32 ↔ b.upper.getLsbD 1 = false := bit_eq_zero_iff b.upper 1 (by decide)
  have hcovers : (ea.setWidth 64 &&& (~~~ b.offsetMask).setWidth 64 = ((b.bepi ++ 0#17) &&& ~~~ b.offsetMask).setWidth 64) ↔
      b.covers ea = true := by
    unfold Bat.covers
    rw [← BitVec.setWidth_and, setWidth_inj, beq_iff_eq]
  have hpaddr : (ea.setWidth 64 &&& b.offsetMask.setWidth 64) |||
      ((b.brpn ++ 0#17) &&& ~~~ b.offsetMask).setWidth 64 = (b.physical ea).setWidth 64 := by
    unfold Bat.physical
    rw [BitVec.setWidth_or, ← BitVec.setWidth_and]
  rw [offsetMask_eq, epi_eq, rpn_eq, bat_grant, hpaddr]
  simp only [hvu, hvs, ne_eq, hcovers]
  unfold Bat.valid
  generalize some (b.access.grant w, (b.physical ea).setWidth 64) = found
  cases user with
  | true => cases b.upper.getLsbD 0 <;> cases b.covers ea <;> rfl
  | false => cases b.upper.getLsbD 1 <;> cases b.covers ea <;> rfl

theorem ppcBat_eq (c : MmuCpu) (ea : Word) (f : V2pFlags) (h32 : c.is32bit = true) (h601 : c.is601 = false) :
    c.ppcBat (ea.setWidth 64) f c.user =
      some ((c.batFor f.instr ea).map fun b => (b.access.grant f.writeflag, (b.physical ea).setWidth 64)) := by
  have hgo : ¬ (c.is32bit = false ∨ c.is601 = true) := by
    rw [h32, h601]
    decide
  unfold MmuCpu.ppcBat MmuCpu.batFor
  rw [if_neg hgo, bats_eq, List.find?_map, Option.map_map]
  refine congrArg some (findSome?_eq_map_find? fun i _ => ?_)
  exact batRound_eq ⟨(c.spr (sprIbat0u + BitVec.ofNat 10 (i * 2))).setWidth 32,
    (c.spr (sprIbat0u + BitVec.ofNat 10 (i * 2) + 1#10)).setWidth 32⟩ c.user f.writeflag

/-! ## The page table -/

theorem ptegSelect_eq (sdr1 : Reg) (hash : BitVec 19) :
    ptegSelect sdr1 (hash.setWidth 32) = ptegAddr (sdr1.setWidth 32) hash := by
  have horg : ∀ j < 64, (0xffff0000#64).getLsbD j = (decide (16 ≤ j) && decide (j < 32)) := by decide
  have hmask : ∀ j < 64, (0x1ff#64).getLsbD j = decide (j < 9) := by decide
  have hhigh : ∀ j < 32, (0xfe000000#32).getLsbD j = decide (25 ≤ j) := by decide
  have hlow : ∀ j < 32, (0x3ff#32).getLsbD j = decide (j < 10) := by decide
  have hmid : ∀ j < 32, (0x01ff0000#32).getLsbD j = (decide (16 ≤ j) && decide (j < 25)) := by decide
  apply BitVec.eq_of_getLsbD_eq
  intro j hj
  unfold ptegSelect ptegAddr
  simp only [BitVec.getLsbD_or, BitVec.getLsbD_and, BitVec.getLsbD_shiftLeft, BitVec.getLsbD_ushiftRight,
    BitVec.getLsbD_setWidth, BitVec.getLsbD_append, BitVec.getLsbD_extractLsb', BitVec.getLsbD_zero,
    horg j (by omega), hhigh j hj, hmid j hj]
  by_cases h6 : j < 6
  · simp [h6, show ¬ 16 ≤ j by omega, show ¬ 25 ≤ j by omega, show j < 16 by omega]
  · rw [hlow (j - 6) (by omega)]
    by_cases h16 : j < 16
    · simp [h6, h16, hj, show ¬ 16 ≤ j by omega, show ¬ 25 ≤ j by omega, show j - 6 < 10 by omega, show j - 6 < 32 by omega]
    · rw [hmask (j - 16) (by omega)]
      by_cases h25 : j < 25
      · simp [h6, h16, h25, hj, show 16 ≤ j by omega, show ¬ 25 ≤ j by omega, show ¬ j - 6 < 10 by omega,
          show j - 16 < 9 by omega]
        grind
      · simp [h6, h16, h25, hj, show 16 ≤ j by omega, show 25 ≤ j by omega, show ¬ j - 6 < 10 by omega,
          show ¬ j - 16 < 9 by omega]
        grind

theorem hash1_eq (c : MmuCpu) (ea : Word) :
    ((c.segment ea &&& 0x00ffffff#32) &&& 0x7ffff#32) ^^^ ((ea >>> 12) &&& 0xffff#32) = (c.primaryHash ea).setWidth 32 := by
  have hsr : ∀ j < 32, (0x00ffffff#32).getLsbD j = decide (j < 24) := by decide
  have hhash : ∀ j < 32, (0x7ffff#32).getLsbD j = decide (j < 19) := by decide
  have hpage : ∀ j < 32, (0xffff#32).getLsbD j = decide (j < 16) := by decide
  apply BitVec.eq_of_getLsbD_eq
  intro j hj
  unfold MmuCpu.primaryHash MmuCpu.vsid
  grind

theorem hash2_eq (hash : BitVec 19) : hash.setWidth 32 ^^^ 0x7ffff#32 = (~~~ hash).setWidth 32 := by
  have hones : ∀ j < 32, (0x7ffff#32).getLsbD j = decide (j < 19) := by decide
  apply BitVec.eq_of_getLsbD_eq
  intro j hj
  grind

theorem cmp_eq (c : MmuCpu) (ea : Word) (h : Bool) :
    (pteValid ||| ((ea >>> 22) &&& pteApi) ||| ((c.segment ea &&& 0x00ffffff#32) <<< 7)) ||| (if h then pteHid else 0#32) =
      1#1 ++ c.vsid ea ++ BitVec.ofBool h ++ MmuCpu.api ea := by
  have hsr : ∀ j < 32, (0x00ffffff#32).getLsbD j = decide (j < 24) := by decide
  have hvalid : ∀ j < 32, pteValid.getLsbD j = decide (j = 31) := by decide
  have hapi : ∀ j < 32, pteApi.getLsbD j = decide (j < 6) := by decide
  have hhid : ∀ j < 32, (if h then pteHid else 0#32).getLsbD j = (decide (j = 6) && h) := by
    revert h
    decide
  apply BitVec.eq_of_getLsbD_eq
  intro j hj
  unfold MmuCpu.vsid MmuCpu.api
  simp only [BitVec.getLsbD_or, BitVec.getLsbD_and, BitVec.getLsbD_ushiftRight, BitVec.getLsbD_shiftLeft,
    BitVec.getLsbD_append, BitVec.getLsbD_extractLsb', BitVec.getLsbD_ofBool, BitVec.getLsbD_one, hvalid j hj,
    hapi j hj, hhid j hj]
  by_cases h7 : j < 7
  · grind
  · rw [hsr (j - 7) (by omega)]
    grind

theorem isFor_iff (p : Pte) (vsid : BitVec 24) (h : Bool) (api : BitVec 6) :
    p.upper = 1#1 ++ vsid ++ BitVec.ofBool h ++ api ↔ p.isFor vsid h api = true := by
  unfold Pte.isFor
  simp only [Bool.and_eq_true, beq_iff_eq]
  constructor
  · intro heq
    rw [heq]
    refine ⟨⟨⟨?_, ?_⟩, ?_⟩, ?_⟩
    all_goals try (apply BitVec.eq_of_getLsbD_eq; intro j hj)
    all_goals
      grind
  · rintro ⟨⟨⟨hv, hvsid⟩, hh⟩, hapi⟩
    apply BitVec.eq_of_getLsbD_eq
    intro j hj
    grind

theorem getPteLow_eq (mem : Addr → BitVec 8) (addr : Word) (vsid : BitVec 24) (h : Bool) (api : BitVec 6) :
    getPteLow mem addr (1#1 ++ vsid ++ BitVec.ofBool h ++ api) =
      ((pteg mem addr).find? fun p => p.isFor vsid h api).map (·.lower) := by
  unfold getPteLow pteg
  rw [List.find?_map, Option.map_map]
  refine findSome?_eq_map_find? fun i _ => ?_
  rw [Nat.mul_comm i 8]
  dsimp only [Function.comp]
  have hiff := isFor_iff ⟨beWord mem (addr.setWidth 64 + BitVec.ofNat 64 (8 * i)),
    beWord mem (addr.setWidth 64 + BitVec.ofNat 64 (8 * i) + 4#64)⟩ vsid h api
  simp only [hiff]

theorem segment_eq (c : MmuCpu) (ea : Word) : c.sr ((ea >>> 28).setWidth 4) = c.segment ea := by
  have hsrn : (ea >>> 28).setWidth 4 = ea.extractLsb' 28 4 := by
    apply BitVec.eq_of_getLsbD_eq
    intro j hj
    simp only [BitVec.getLsbD_setWidth, BitVec.getLsbD_ushiftRight, BitVec.getLsbD_extractLsb']
  unfold MmuCpu.segment
  rw [hsrn]

theorem segment_setSpr (c : MmuCpu) (n : SprNr) (v : Reg) (ea : Word) :
    (c.setSpr n v).segment ea = c.segment ea := rfl

theorem physical_eq (p : Pte) (ea : Word) : (p.lower &&& pteRpgn) ||| (ea &&& ~~~ pteRpgn) = p.physical ea := by
  have hrpgn : ∀ j < 32, pteRpgn.getLsbD j = decide (12 ≤ j) := by decide
  apply BitVec.eq_of_getLsbD_eq
  intro j hj
  unfold Pte.physical
  grind

theorem user_iff (c : MmuCpu) : c.msr &&& ppcMsrPr = 0#64 ↔ c.user = false := bit_eq_zero_iff c.msr 14 (by decide)

theorem key_iff (c : MmuCpu) (ea : Word) :
    ((c.segment ea &&& srPrkey ≠ 0#32 ∧ c.msr &&& ppcMsrPr ≠ 0#64) ∨
      (c.segment ea &&& srSukey ≠ 0#32 ∧ c.msr &&& ppcMsrPr = 0#64)) ↔ c.key ea = true := by
  have hkp : c.segment ea &&& srPrkey = 0#32 ↔ (c.segment ea).getLsbD 29 = false := bit_eq_zero_iff _ 29 (by decide)
  have hks : c.segment ea &&& srSukey = 0#32 ↔ (c.segment ea).getLsbD 30 = false := bit_eq_zero_iff _ 30 (by decide)
  unfold MmuCpu.key
  simp only [ne_eq, hkp, hks, user_iff]
  cases c.user <;> simp

theorem pte_grant (p : Pte) (key w : Bool) :
    (if key then if p.lower &&& ptePp = 1#32 ∨ p.lower &&& ptePp = 3#32 then if w then 0 else 1
        else if p.lower &&& ptePp = 2#32 then 2 else 0
      else if p.lower &&& ptePp = 3#32 then if w then 0 else 1 else 2) = (p.access key).grant w := by
  unfold ptePp Pte.access
  rw [pp_eq]
  generalize p.lower.extractLsb' 0 2 = pp
  revert pp key w
  decide

namespace MmuCpu

def hashed (c : MmuCpu) (instr : Bool) (ea : Word) : MmuCpu :=
  ((c.setSpr sprHash1 ((c.primaryPteg ea).setWidth 64)).setSpr (if instr then sprIcmp else sprDcmp)
    ((1#1 ++ c.vsid ea ++ 0#1 ++ api ea : Word).setWidth 64)).setSpr sprHash2 ((c.secondaryPteg ea).setWidth 64)

end MmuCpu

/-- What ppc_vtp32() finds. -/
structure VtpSpec (c : MmuCpu) (mem : Addr → BitVec 8) (ea : Word) (w instr : Bool) (r : Vtp) : Prop where
  cpu : r.cpu = c.hashed instr ea
  found : r.found = (c.pteFor mem ea).isSome
  res : r.res = ((c.pteFor mem ea).map fun p => (c.pteAccess instr ea p).grant w).getD 0
  paddr : 0 < r.res → some r.paddr = (c.pteFor mem ea).map fun p => (p.physical ea).setWidth 64

theorem ppcVtp32_spec (c : MmuCpu) (mem : Addr → BitVec 8) (ea : Word) (paddr : Addr) (w instr : Bool) :
    VtpSpec c mem ea w instr (c.ppcVtp32 mem ea paddr c.msr w instr) := by
  have hcmp := cmp_eq c ea false
  have hcmp' := cmp_eq c ea true
  rw [if_neg (by decide), BitVec.or_zero] at hcmp
  rw [if_pos rfl, hcmp] at hcmp'
  have hlower : (getPteLow mem (ptegAddr ((c.spr sprSdr1).setWidth 32) (c.primaryHash ea))
        (1#1 ++ c.vsid ea ++ BitVec.ofBool false ++ MmuCpu.api ea)).or
      (getPteLow mem (ptegAddr ((c.spr sprSdr1).setWidth 32) (~~~ c.primaryHash ea))
        (1#1 ++ c.vsid ea ++ BitVec.ofBool true ++ MmuCpu.api ea)) =
      (c.pteFor mem ea).map (·.lower) := by
    rw [getPteLow_eq, getPteLow_eq, ← Option.map_or]
    rfl
  unfold MmuCpu.ppcVtp32
  simp only [segment_eq, segment_setSpr, hash1_eq, hash2_eq, ptegSelect_eq, hcmp, hcmp']
  rw [hlower]
  cases hpte : c.pteFor mem ea with
  | none => exact ⟨rfl, by rw [hpte]; rfl, by rw [hpte]; rfl, fun h => absurd h (Nat.lt_irrefl 0)⟩
  | some p =>
    have hn : c.segment ea &&& srNoexec = 0#32 ↔ (c.segment ea).getLsbD 28 = false := bit_eq_zero_iff _ 28 (by decide)
    have hg : p.lower &&& pteG = 0#32 ↔ p.guarded = false := bit_eq_zero_iff _ 3 (by decide)
    have hdenied : (instr = true ∧ c.segment ea &&& srNoexec ≠ 0#32) ∨ (instr = true ∧ p.lower &&& pteG ≠ 0#32) →
        VtpSpec c mem ea w instr ⟨c.hashed instr ea, true, 0, paddr⟩ := by
      intro hno
      have haccess : c.pteAccess instr ea p = .denied := by
        unfold MmuCpu.pteAccess
        rw [if_pos]
        grind
      refine ⟨rfl, by rw [hpte]; rfl, ?_, fun h => absurd h (Nat.lt_irrefl 0)⟩
      rw [hpte, Option.map_some, haccess]
      rfl
    simp only [Option.map_some]
    by_cases h1 : instr = true ∧ c.segment ea &&& srNoexec ≠ 0#32
    · rw [if_pos h1]
      exact hdenied (.inl h1)
    · rw [if_neg h1]
      by_cases h2 : instr = true ∧ p.lower &&& pteG ≠ 0#32
      · rw [if_pos h2]
        exact hdenied (.inr h2)
      · rw [if_neg h2]
        have haccess : c.pteAccess instr ea p = p.access (c.key ea) := by
          unfold MmuCpu.pteAccess
          rw [if_neg]
          grind
        refine ⟨rfl, by rw [hpte]; rfl, ?_, ?_⟩
        · rw [hpte, Option.map_some, haccess, Option.getD_some, ← pte_grant]
          simp only [key_iff]
        · intro _
          rw [hpte, physical_eq]
          rfl

end

/-! ## The whole translation -/

namespace MmuCpu
variable (c : MmuCpu) (mem : Addr → BitVec 8) (vaddr paddr : Addr) (f : V2pFlags)

/-- What the architecture lets ppc_translate_v2p() return. -/
def archRes : Nat := ((c.translation mem f.instr vaddr).map fun t => t.1.grant f.writeflag).getD 0

def Succeeds : Prop := ∃ s res pa, c.ppcTranslateV2p mem vaddr paddr f = some (s, res, pa) ∧ 0 < res

/-- The architecture's translation, without side effects if there may be none. -/
structure Follows : Prop where
  returns : ∃ s pa, c.ppcTranslateV2p mem vaddr paddr f = some (s, c.archRes mem vaddr f, pa) ∧
    (0 < c.archRes mem vaddr f → some pa = (c.translation mem f.instr vaddr).map (·.2))
  quiet : f.noExceptions = true → ∀ r, c.ppcTranslateV2p mem vaddr paddr f = some r → r.1 = c
  same : f.noExceptions = true →
    (c.Succeeds mem vaddr paddr f ↔ c.Succeeds mem vaddr paddr { f with noExceptions := false })

def LeKept : Prop := c.msr.getLsbD 0 = !c.bigEndian

def HashKept (instr : Bool) (ea : Word) : Prop :=
  c.spr sprHash1 = (c.primaryPteg ea).setWidth 64 ∧ c.spr sprHash2 = (c.secondaryPteg ea).setWidth 64 ∧
    c.spr (if instr then sprIcmp else sprDcmp) = (1#1 ++ c.vsid ea ++ 0#1 ++ api ea : Word).setWidth 64

/-- Where ppc_translate_v2p() does as it should. -/
structure Meets : Prop where
  supported : c.relocate f.instr = true → c.is32bit = true ∧ c.is601 = false
  allowed : c.relocate f.instr = true → ∀ b, c.batFor f.instr (vaddr.setWidth 32) = some b →
    0 < b.access.grant f.writeflag
  le : f.noExceptions = true → c.LeKept
  hash : f.noExceptions = true → c.relocate f.instr = true → c.batFor f.instr (vaddr.setWidth 32) = none →
    c.HashKept f.instr (vaddr.setWidth 32)

variable {c mem vaddr paddr f}

theorem getLsbD_fixLe {k : Nat} (hk : 0 < k) : c.fixLe.msr.getLsbD k = c.msr.getLsbD k := by
  have hle : ppcMsrLe.getLsbD k = false := by
    unfold ppcMsrLe
    rw [BitVec.getLsbD_one]
    simp only [Bool.and_eq_false_iff, decide_eq_false_iff_not]
    omega
  have hbit : (if c.bigEndian then 0#64 else ppcMsrLe).getLsbD k = false := by
    split
    · exact BitVec.getLsbD_zero
    · exact hle
  unfold fixLe
  rw [BitVec.getLsbD_or, hbit, Bool.or_false, BitVec.getLsbD_and, BitVec.getLsbD_not, hle]
  by_cases hlt : k < 64
  · simp [hlt]
  · simp [hlt, BitVec.getLsbD_of_ge _ _ (Nat.le_of_not_lt hlt)]

theorem msr_fixLe_iff : c.fixLe.msr = c.msr ↔ c.LeKept := by
  unfold LeKept
  constructor
  · intro h
    rw [← h]
    unfold fixLe
    cases c.bigEndian <;> simp [ppcMsrLe]
  · intro h
    apply BitVec.eq_of_getLsbD_eq
    intro k hk
    by_cases hzero : k = 0
    · subst hzero
      rw [h]
      unfold fixLe
      cases c.bigEndian <;> simp [ppcMsrLe]
    · exact getLsbD_fixLe (Nat.pos_of_ne_zero hzero)

theorem fixLe_eq_iff : c.fixLe = c ↔ c.LeKept := by
  rw [← msr_fixLe_iff]
  constructor
  · intro h
    rw [h]
  · intro h
    unfold fixLe at h ⊢
    dsimp only at h
    rw [h]

theorem user_fixLe : c.fixLe.user = c.user := getLsbD_fixLe (by decide)

theorem relocate_fixLe (instr : Bool) : c.fixLe.relocate instr = c.relocate instr := by
  unfold relocate
  rw [getLsbD_fixLe (by decide), getLsbD_fixLe (by decide)]

theorem batFor_fixLe (instr : Bool) (ea : Word) : c.fixLe.batFor instr ea = c.batFor instr ea := by
  unfold batFor
  rw [user_fixLe]
  rfl

theorem pteAccess_fixLe (instr : Bool) (ea : Word) (p : Pte) : c.fixLe.pteAccess instr ea p = c.pteAccess instr ea p := by
  unfold pteAccess key
  rw [user_fixLe]
  rfl

theorem spr_setSpr (n m : SprNr) (v : Reg) : (c.setSpr n v).spr m = if m = n then v else c.spr m :=
  Function.update_apply ..

theorem setSpr_eq_iff {n : SprNr} {v : Reg} : c.setSpr n v = c ↔ c.spr n = v := by
  constructor
  · intro h
    rw [← h, spr_setSpr, if_pos rfl]
  · intro h
    subst h
    unfold setSpr PpcCpu.setSpr
    rw [Function.update_eq_self]

theorem hashed_eq_iff (instr : Bool) (ea : Word) : c.fixLe.hashed instr ea = c ↔ c.LeKept ∧ c.HashKept instr ea := by
  have hne1 : (if instr then sprIcmp else sprDcmp) ≠ sprHash1 := by
    cases instr <;> decide
  have hne2 : (if instr then sprIcmp else sprDcmp) ≠ sprHash2 := by
    cases instr <;> decide
  have hne3 : sprHash1 ≠ sprHash2 := by decide
  constructor
  · intro h
    have hspr (n : SprNr) : (c.fixLe.hashed instr ea).spr n = c.spr n := congrArg (fun s => s.spr n) h
    have hmsr : c.fixLe.msr = c.msr := congrArg (fun s => s.msr) h
    have h1 := hspr sprHash1
    have h2 := hspr sprHash2
    have h3 := hspr (if instr then sprIcmp else sprDcmp)
    unfold hashed at h1 h2 h3
    rw [spr_setSpr, if_neg hne3, spr_setSpr, if_neg hne1.symm, spr_setSpr, if_pos rfl] at h1
    rw [spr_setSpr, if_pos rfl] at h2
    rw [spr_setSpr, if_neg hne2, spr_setSpr, if_pos rfl] at h3
    exact ⟨msr_fixLe_iff.mp hmsr, h1.symm, h2.symm, h3.symm⟩
  · rintro ⟨hle, h1, h2, h3⟩
    rw [fixLe_eq_iff.mpr hle]
    unfold hashed
    rw [setSpr_eq_iff.mpr h1, setSpr_eq_iff.mpr h3, setSpr_eq_iff.mpr h2]

theorem low_word (x : Addr) : x &&& 0xffffffff#64 = (x.setWidth 32).setWidth 64 := by
  have hones : ∀ j < 64, (0xffffffff#64).getLsbD j = decide (j < 32) := by decide
  apply BitVec.eq_of_getLsbD_eq
  intro j hj
  rw [BitVec.getLsbD_and, hones j hj, BitVec.getLsbD_setWidth, BitVec.getLsbD_setWidth, decide_eq_true hj,
    Bool.true_and, Bool.and_comm]

theorem translate_real (mem : Addr → BitVec 8) (vaddr paddr : Addr) (hreal : c.relocate f.instr = false) :
    c.ppcTranslateV2p mem vaddr paddr f =
      some (c.fixLe, 2, if c.is32bit then (vaddr.setWidth 32).setWidth 64 else vaddr) := by
  have hir : c.fixLe.msr &&& ppcMsrIr = 0#64 ↔ c.fixLe.msr.getLsbD 5 = false := bit_eq_zero_iff _ 5 (by decide)
  have hdr : c.fixLe.msr &&& ppcMsrDr = 0#64 ↔ c.fixLe.msr.getLsbD 4 = false := bit_eq_zero_iff _ 4 (by decide)
  have hoff : (f.instr = true ∧ c.fixLe.msr &&& ppcMsrIr = 0#64) ∨ (f.instr = false ∧ c.fixLe.msr &&& ppcMsrDr = 0#64) := by
    rw [hir, hdr]
    rw [← relocate_fixLe] at hreal
    unfold relocate at hreal
    cases hi : f.instr <;> rw [hi] at hreal <;> simp_all
  unfold ppcTranslateV2p
  rw [if_pos hoff, low_word]
  rfl

theorem translate_relocated (mem : Addr → BitVec 8) (vaddr paddr : Addr) (hon : c.relocate f.instr = true) :
    c.ppcTranslateV2p mem vaddr paddr f =
      if c.is32bit = true ∧ c.is601 = false then
        match c.batFor f.instr (vaddr.setWidth 32) with
        | some b => if b.access.grant f.writeflag = 0 then none
            else some (c.fixLe, b.access.grant f.writeflag, (b.physical (vaddr.setWidth 32)).setWidth 64)
        | none =>
          let r := c.fixLe.ppcVtp32 mem (vaddr.setWidth 32) paddr c.fixLe.msr f.writeflag f.instr
          if 0 < r.res then some (r.cpu, r.res, r.paddr)
          else if f.noExceptions then some (r.cpu, 0, r.paddr)
          else some (r.cpu.ppcFault ((vaddr.setWidth 32).setWidth 64) c.fixLe.msr f r.found, 0, r.paddr)
      else none := by
  have hir : c.fixLe.msr &&& ppcMsrIr = 0#64 ↔ c.fixLe.msr.getLsbD 5 = false := bit_eq_zero_iff _ 5 (by decide)
  have hdr : c.fixLe.msr &&& ppcMsrDr = 0#64 ↔ c.fixLe.msr.getLsbD 4 = false := bit_eq_zero_iff _ 4 (by decide)
  have hnot : ¬ ((f.instr = true ∧ c.fixLe.msr &&& ppcMsrIr = 0#64) ∨
      (f.instr = false ∧ c.fixLe.msr &&& ppcMsrDr = 0#64)) := by
    rw [hir, hdr]
    rw [← relocate_fixLe] at hon
    unfold relocate at hon
    cases hi : f.instr <;> rw [hi] at hon <;> simp_all
  have huser : decide (c.fixLe.msr &&& ppcMsrPr ≠ 0#64) = c.fixLe.user := by
    have h := user_iff c.fixLe
    cases hu : c.fixLe.user <;> simp_all
  unfold ppcTranslateV2p
  rw [if_neg hnot, huser]
  by_cases hsup : c.is32bit = true ∧ c.is601 = false
  · have hgo : ¬ (c.fixLe.is601 = true ∨ c.fixLe.is32bit = false) := by
      change ¬ (c.is601 = true ∨ c.is32bit = false)
      rw [hsup.1, hsup.2]
      decide
    have hmode : c.fixLe.is32bit = true := hsup.1
    rw [if_neg hgo, if_pos hsup, if_pos hmode, low_word,
      ppcBat_eq c.fixLe (vaddr.setWidth 32) f hmode hsup.2, batFor_fixLe]
    cases c.batFor f.instr (vaddr.setWidth 32) with
    | some b => rfl
    | none =>
      have hspec := ppcVtp32_spec c.fixLe mem (vaddr.setWidth 32) paddr f.writeflag f.instr
      have hres : 0 < (c.fixLe.ppcVtp32 mem (vaddr.setWidth 32) paddr c.fixLe.msr f.writeflag f.instr).res →
          (c.fixLe.ppcVtp32 mem (vaddr.setWidth 32) paddr c.fixLe.msr f.writeflag f.instr).found = true := by
        rw [hspec.res, hspec.found]
        cases c.fixLe.pteFor mem (vaddr.setWidth 32) with
        | none => exact fun h => absurd h (Nat.lt_irrefl 0)
        | some p => exact fun _ => rfl
      rw [BitVec.setWidth_setWidth_of_le _ (by decide), BitVec.setWidth_eq]
      generalize c.fixLe.ppcVtp32 mem (vaddr.setWidth 32) paddr c.fixLe.msr f.writeflag f.instr = r at hres
      by_cases hpos : 0 < r.res
      · rw [if_pos ⟨hres hpos, hpos⟩, if_pos hpos]
        rfl
      · rw [if_neg (fun h => hpos h.2), if_neg hpos]
        rfl
  · have hgo : c.fixLe.is601 = true ∨ c.fixLe.is32bit = false := by
      change c.is601 = true ∨ c.is32bit = false
      cases h1 : c.is32bit <;> cases h2 : c.is601 <;> simp_all
    rw [if_pos hgo, if_neg hsup]

theorem succeeds_iff :
    c.Succeeds mem vaddr paddr f ↔ c.Succeeds mem vaddr paddr { f with noExceptions := false } := by
  unfold Succeeds
  cases hon : c.relocate f.instr with
  | false => rw [translate_real _ _ _ hon, translate_real (f := { f with noExceptions := false }) _ _ _ hon]
  | true =>
    rw [translate_relocated _ _ _ hon, translate_relocated (f := { f with noExceptions := false }) _ _ _ hon]
    by_cases hsup : c.is32bit = true ∧ c.is601 = false
    · rw [if_pos hsup, if_pos hsup]
      cases c.batFor f.instr (vaddr.setWidth 32) with
      | some b => exact Iff.rfl
      | none =>
        generalize c.fixLe.ppcVtp32 mem (vaddr.setWidth 32) paddr c.fixLe.msr f.writeflag f.instr = r
        by_cases hpos : 0 < r.res
        · rw [if_pos hpos, if_pos hpos]
        · rw [if_neg hpos, if_neg hpos]
          constructor
          · rintro ⟨s, res, pa, heq, hres⟩
            by_cases hno : f.noExceptions = true
            · rw [if_pos hno] at heq
              cases heq
              exact absurd hres (Nat.lt_irrefl 0)
            · rw [if_neg hno] at heq
              cases heq
              exact absurd hres (Nat.lt_irrefl 0)
          · rintro ⟨s, res, pa, heq, hres⟩
            cases heq
            exact absurd hres (Nat.lt_irrefl 0)
    · rw [if_neg hsup, if_neg hsup]

theorem pteFor_fixLe (ea : Word) : c.fixLe.pteFor mem ea = c.pteFor mem ea := rfl

theorem search_eq (mem : Addr → BitVec 8) (vaddr paddr : Addr) (hon : c.relocate f.instr = true)
    (hbat : c.batFor f.instr (vaddr.setWidth 32) = none) :
    let r := c.fixLe.ppcVtp32 mem (vaddr.setWidth 32) paddr c.fixLe.msr f.writeflag f.instr
    r.res = c.archRes mem vaddr f ∧ (0 < r.res → some r.paddr = (c.translation mem f.instr vaddr).map (·.2)) ∧
      r.cpu = c.fixLe.hashed f.instr (vaddr.setWidth 32) := by
  have hspec := ppcVtp32_spec c.fixLe mem (vaddr.setWidth 32) paddr f.writeflag f.instr
  have htrans : c.translation mem f.instr vaddr =
      (c.pteFor mem (vaddr.setWidth 32)).map fun p =>
        (c.pteAccess f.instr (vaddr.setWidth 32) p, (p.physical (vaddr.setWidth 32)).setWidth 64) := by
    unfold translation
    rw [if_pos hon, hbat]
  refine ⟨?_, ?_, hspec.cpu⟩
  · rw [hspec.res, pteFor_fixLe]
    unfold archRes
    rw [htrans, Option.map_map]
    cases c.pteFor mem (vaddr.setWidth 32) with
    | none => rfl
    | some p =>
      rw [Option.map_some, pteAccess_fixLe]
      rfl
  · intro hpos
    rw [hspec.paddr hpos, pteFor_fixLe, htrans, Option.map_map]
    rfl

theorem Follows.of_some {s : MmuCpu} {pa : Addr}
    (heq : c.ppcTranslateV2p mem vaddr paddr f = some (s, c.archRes mem vaddr f, pa))
    (hpa : 0 < c.archRes mem vaddr f → some pa = (c.translation mem f.instr vaddr).map (·.2))
    (hquiet : f.noExceptions = true → s = c) : c.Follows mem vaddr paddr f where
  returns := ⟨s, pa, heq, hpa⟩
  quiet := by
    intro hno r hr
    rw [heq] at hr
    cases hr
    exact hquiet hno
  same := fun _ => succeeds_iff

theorem follows_real_iff (hon : c.relocate f.instr = false) : c.Follows mem vaddr paddr f ↔ c.Meets vaddr f := by
  have hoff : ¬ c.relocate f.instr = true := by
    rw [hon]
    decide
  have htrans : c.translation mem f.instr vaddr =
      some (.readWrite, if c.is32bit then (vaddr.setWidth 32).setWidth 64 else vaddr) := by
    unfold translation
    rw [hon, if_neg (by decide)]
  have hres : c.archRes mem vaddr f = 2 := by
    unfold archRes
    rw [htrans]
    rfl
  have heq := translate_real mem vaddr paddr hon
  constructor
  · intro h
    refine ⟨fun h => absurd h hoff, fun h => absurd h hoff, fun hno => ?_, fun _ h => absurd h hoff⟩
    exact fixLe_eq_iff.mp (h.quiet hno _ heq)
  · intro h
    rw [← hres] at heq
    refine .of_some heq (fun _ => ?_) fun hno => fixLe_eq_iff.mpr (h.le hno)
    rw [htrans]
    rfl

theorem follows_block_iff (hon : c.relocate f.instr = true) (hsup : c.is32bit = true ∧ c.is601 = false) {b : Bat}
    (hbat : c.batFor f.instr (vaddr.setWidth 32) = some b) : c.Follows mem vaddr paddr f ↔ c.Meets vaddr f := by
  have htrans : c.translation mem f.instr vaddr = some (b.access, (b.physical (vaddr.setWidth 32)).setWidth 64) := by
    unfold translation
    rw [if_pos hon, hbat]
  have hres : c.archRes mem vaddr f = b.access.grant f.writeflag := by
    unfold archRes
    rw [htrans]
    rfl
  have heq := translate_relocated mem vaddr paddr hon
  rw [if_pos hsup, hbat] at heq
  dsimp only at heq
  constructor
  · intro h
    obtain ⟨s, pa, hsome, _⟩ := h.returns
    have hpos : b.access.grant f.writeflag ≠ 0 := by
      intro hzero
      rw [heq, if_pos hzero] at hsome
      cases hsome
    rw [if_neg hpos] at heq
    refine ⟨fun _ => hsup, fun _ b' hb' => ?_, fun hno => ?_, fun _ _ hnone => ?_⟩
    · rw [hbat] at hb'
      cases hb'
      exact Nat.pos_of_ne_zero hpos
    · exact fixLe_eq_iff.mp (h.quiet hno _ heq)
    · rw [hbat] at hnone
      cases hnone
  · intro h
    rw [if_neg (Nat.ne_of_gt (h.allowed hon b hbat)), ← hres] at heq
    refine .of_some heq (fun _ => ?_) fun hno => fixLe_eq_iff.mpr (h.le hno)
    rw [htrans]
    rfl

theorem follows_page_iff (hon : c.relocate f.instr = true) (hsup : c.is32bit = true ∧ c.is601 = false)
    (hbat : c.batFor f.instr (vaddr.setWidth 32) = none) : c.Follows mem vaddr paddr f ↔ c.Meets vaddr f := by
  have hsearch := search_eq mem _ paddr hon hbat
  have heq := translate_relocated mem vaddr paddr hon
  rw [if_pos hsup, hbat] at heq
  dsimp only at heq hsearch
  generalize c.fixLe.ppcVtp32 mem (vaddr.setWidth 32) paddr c.fixLe.msr f.writeflag f.instr = r at heq hsearch
  obtain ⟨hres, hpaddr, hcpu⟩ := hsearch
  -- without exceptions the CPU is as the search leaves it
  have hquiet (hno : f.noExceptions = true) : c.ppcTranslateV2p mem vaddr paddr f = some (r.cpu, r.res, r.paddr) := by
    rw [heq, if_pos hno]
    by_cases hpos : 0 < r.res
    · rw [if_pos hpos]
    · rw [if_neg hpos, Nat.eq_zero_of_not_pos hpos]
  constructor
  · intro h
    have hkept (hno : f.noExceptions = true) : c.LeKept ∧ c.HashKept f.instr (vaddr.setWidth 32) := by
      have hsame : r.cpu = c := h.quiet hno _ (hquiet hno)
      rw [hcpu] at hsame
      exact (hashed_eq_iff _ _).mp hsame
    refine ⟨fun _ => hsup, fun _ b hb => ?_, fun hno => (hkept hno).1, fun hno _ _ => (hkept hno).2⟩
    rw [hbat] at hb
    cases hb
  · intro h
    by_cases hno : f.noExceptions = true
    · have hsome := hquiet hno
      rw [hres] at hsome hpaddr
      refine .of_some hsome hpaddr fun _ => ?_
      rw [hcpu]
      exact (hashed_eq_iff _ _).mpr ⟨h.le hno, h.hash hno hon hbat⟩
    · by_cases hpos : 0 < r.res
      · rw [if_pos hpos, hres] at heq
        rw [hres] at hpaddr
        exact .of_some heq hpaddr fun h => absurd h hno
      · rw [if_neg hpos, if_neg hno, ← Nat.eq_zero_of_not_pos hpos, hres] at heq
        rw [hres] at hpos
        exact .of_some heq (fun h => absurd h hpos) fun h => absurd h hno

/-- Every call, in every state and with every page table. -/
theorem follows_iff (c : MmuCpu) (mem : Addr → BitVec 8) (vaddr paddr : Addr) (f : V2pFlags) :
    c.Follows mem vaddr paddr f ↔ c.Meets vaddr f := by
  cases hon : c.relocate f.instr with
  | false => exact follows_real_iff hon
  | true =>
    by_cases hsup : c.is32bit = true ∧ c.is601 = false
    · cases hbat : c.batFor f.instr (vaddr.setWidth 32) with
      | some b => exact follows_block_iff hon hsup hbat
      | none => exact follows_page_iff hon hsup hbat
    · constructor
      · intro h
        obtain ⟨s, pa, heq, _⟩ := h.returns
        rw [translate_relocated _ _ _ hon, if_neg hsup] at heq
        cases heq
      · exact fun h => absurd (h.supported hon) hsup

/-- The debugger reads an address while the guest runs with an empty page table. -/
theorem not_follows :
    ¬ ∀ (c : MmuCpu) (mem : Addr → BitVec 8) (vaddr paddr : Addr) (f : V2pFlags), c.Follows mem vaddr paddr f := by
  intro hall
  have hquiet := (hall { MmuCpu.zero true false true with msr := ppcMsrDr } (fun _ => 0#8) 0x1000#64 0#64
    ⟨false, false, true⟩).quiet rfl
  have hsome : (ppcTranslateV2p { MmuCpu.zero true false true with msr := ppcMsrDr } (fun _ => 0#8) 0x1000#64 0#64
      ⟨false, false, true⟩).isSome = true := by decide +kernel
  obtain ⟨r, hr⟩ := Option.isSome_iff_exists.mp hsome
  have hcmp : (ppcTranslateV2p { MmuCpu.zero true false true with msr := ppcMsrDr } (fun _ => 0#8) 0x1000#64 0#64
      ⟨false, false, true⟩).map (fun r => r.1.spr sprDcmp) = some 0x80000000#64 := by decide +kernel
  rw [hr, Option.map_some, hquiet r hr] at hcmp
  exact absurd hcmp (by decide)

end MmuCpu

end Gxemul.Ppc
