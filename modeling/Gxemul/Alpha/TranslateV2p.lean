import Gxemul.Alpha.Alu

/- Alpha address translation (`src/cpus/memory_alpha.c`).

   A virtual address has a page offset of 13 bits and above it three indices of
   10 bits, one for each level of page tables. The physical address that
   alpha_translate_v2p() returns is that of the page: the offset is left out. -/
namespace Gxemul.Alpha
open Lib (ByteMem leValue)

def alphaPageshift : Nat := 13
def alphaK0segBase : Addr := 0xfffffc0000000000#64
def alphaK0segEnd : Addr := 0xfffffdffffffffff#64
def alphaPslUsermode : Reg := 0x0008#64
def alphaPteValid : Reg := 0x0001#64
def alphaPteToPfn (pte : Reg) : Reg := pte >>> 32

def hwrpbPaddr : Addr := 0x14000#64
def promArgspacePaddr : Addr := 0x12000#64

/-- The "UGLY hack" for the time before virtual memory has been set up. -/
def identityPaddr (vaddr : Addr) : Except Exit Addr :=
  if vaddr = 0xfffffffd80000000#64 then .error .kernelVirtualMemory
  else
    let paddr := vaddr &&& 0x000003ffffffffff#64
    let paddr := if vaddr &&& ~~~ 0x7fff#64 = 0x0000000010000000#64 then (vaddr &&& 0x7fff#64) + hwrpbPaddr else paddr
    let paddr :=
      if vaddr &&& ~~~ 0xffffff#64 = 0xfffffe0000000000#64 then 0x7efa000#64 + (vaddr &&& 0xffffff#64) else paddr
    -- "At 0x20000000, NetBSD stores 8KB temp prom data"
    .ok (if vaddr &&& ~~~ 0x1fff#64 = 0x0000000020000000#64 then (vaddr &&& 0x1fff#64) + promArgspacePaddr else paddr)

/-- The number of an entry in its table. `level` is 2 for the first table. -/
def pteIndex (vaddr : Addr) (level : Nat) : Addr := (vaddr >>> (alphaPageshift + level * 10)) &&& 1023#64

def readPte (ram : Ram) (host : ByteMem) (addr : Addr) : Except Exit Reg :=
  match ram.paddrToHostaddr addr false with
  | none => .error .translationNotFound
  | some p =>
    let pte := BitVec.ofNat 64 (leValue (host.read p 8))
    if pte &&& alphaPteValid = 0#64 then .error .translationNotFound else .ok pte

/-- `alpha_translate_v2p()`, which returns 2 whenever it returns. -/
def alphaTranslateV2p (ram : Ram) (host : ByteMem) (c : AlphaCpu) (vaddr : Addr) : Except Exit Addr :=
  let base := c.ptbr <<< alphaPageshift
  let userMode := c.ps &&& alphaPslUsermode
  if userMode = 0#64 ∧ alphaK0segBase ≤ vaddr ∧ vaddr ≤ alphaK0segEnd then .ok (vaddr &&& 0x000003ffffffffff#64)
  else if userMode = 0#64 ∧ base = 0#64 then identityPaddr vaddr
  else do
    let pte1 ← readPte ram host (base + pteIndex vaddr 2 * 8#64)
    let pte2 ← readPte ram host (((pte1 >>> 32) <<< alphaPageshift) + pteIndex vaddr 1 * 8#64)
    let pte3 ← readPte ram host (((pte2 >>> 32) <<< alphaPageshift) + pteIndex vaddr 0 * 8#64)
    return alphaPteToPfn pte3 <<< alphaPageshift

/-! ## The page tables as numbers -/

/-- The valid entry of a table. The table is the page of number `pfn`, and the entries
have eight bytes each. Bit 0 is the valid bit. -/
def ValidEntry (ram : Ram) (host : ByteMem) (pfn index pte : Nat) : Prop :=
  ∃ p, ram.paddrToHostaddr (BitVec.ofNat 64 (pfn * 8192 + index * 8)) false = some p ∧
    leValue (host.read p 8) = pte ∧ pte % 2 = 1

/-- The three entries for an address are valid, and the last one is `pte`. -/
def Walk (ram : Ram) (host : ByteMem) (ptbr : Reg) (vaddr : Addr) (pte : Nat) : Prop :=
  ∃ pte1 pte2, ValidEntry ram host ptbr.toNat (vaddr.toNat / 2 ^ 33 % 1024) pte1 ∧
    ValidEntry ram host (pte1 / 2 ^ 32) (vaddr.toNat / 2 ^ 23 % 1024) pte2 ∧
    ValidEntry ram host (pte2 / 2 ^ 32) (vaddr.toNat / 2 ^ 13 % 1024) pte

/-- The physical address of `vaddr` in the page of an entry. -/
def pagePaddr (pte : Nat) (vaddr : Addr) : Addr := BitVec.ofNat 64 (pte / 2 ^ 32 * 8192 + vaddr.toNat % 8192)

def AlphaCpu.BeforeVm (c : AlphaCpu) : Prop := c.ps &&& alphaPslUsermode = 0#64 ∧ c.ptbr <<< alphaPageshift = 0#64

instance (c : AlphaCpu) : Decidable c.BeforeVm := inferInstanceAs (Decidable (_ ∧ _))

/-- The inputs on which the translation is right: the first byte of a page, or an
address that the identity mapping happens to map to the same place. -/
def AlphaCpu.OffsetKept (c : AlphaCpu) (vaddr : Addr) (pte : Nat) : Prop :=
  if c.BeforeVm then identityPaddr vaddr = .ok (pagePaddr pte vaddr) else vaddr.toNat % 8192 = 0

section
variable {ram : Ram} {host : ByteMem} {c : AlphaCpu} {vaddr : Addr} {pfn index pte : Nat}

theorem ValidEntry.lt (h : ValidEntry ram host pfn index pte) : pte < 2 ^ 64 := by
  obtain ⟨p, -, rfl, -⟩ := h
  have := Lib.leValue_lt (host.read p 8)
  rw [Lib.ByteMem.length_read] at this
  exact this

theorem toNat_pteIndex (vaddr : Addr) {level : Nat} :
    (pteIndex vaddr level).toNat = vaddr.toNat / 2 ^ (13 + level * 10) % 1024 := by
  have hmask := Nat.and_two_pow_sub_one_eq_mod (vaddr.toNat / 2 ^ (13 + level * 10)) 10
  rw [pteIndex, BitVec.toNat_and, BitVec.toNat_ushiftRight, Nat.shiftRight_eq_div_pow]
  exact hmask

theorem entryAddr_eq (x : Reg) {i : Addr} {n : Nat} (hi : i.toNat = n) :
    (x <<< alphaPageshift) + i * 8#64 = BitVec.ofNat 64 (x.toNat * 8192 + n * 8) := by
  apply BitVec.eq_of_toNat_eq
  rw [BitVec.toNat_add, BitVec.toNat_shiftLeft, BitVec.toNat_mul, BitVec.toNat_ofNat, BitVec.toNat_ofNat, hi,
    Nat.shiftLeft_eq]
  show (x.toNat * 2 ^ 13 % 2 ^ 64 + n * (8 % 2 ^ 64) % 2 ^ 64) % 2 ^ 64 = _
  omega

theorem toNat_pfn (h : pte < 2 ^ 64) : ((BitVec.ofNat 64 pte) >>> 32).toNat = pte / 2 ^ 32 := by
  rw [BitVec.toNat_ushiftRight, BitVec.toNat_ofNat, Nat.mod_eq_of_lt h, Nat.shiftRight_eq_div_pow]

theorem ValidEntry.readPte (h : ValidEntry ram host pfn index pte) :
    readPte ram host (BitVec.ofNat 64 (pfn * 8192 + index * 8)) = .ok (BitVec.ofNat 64 pte) := by
  have hlt := h.lt
  obtain ⟨p, hp, hpte, hodd⟩ := h
  have hvalid : BitVec.ofNat 64 pte &&& alphaPteValid ≠ 0#64 := by
    intro hzero
    have hbit := congrArg BitVec.toNat hzero
    rw [BitVec.toNat_and, BitVec.toNat_ofNat, Nat.mod_eq_of_lt hlt] at hbit
    have hmod : pte &&& 1 = pte % 2 := Nat.and_two_pow_sub_one_eq_mod pte 1
    change pte &&& 1 = 0 at hbit
    omega
  unfold Alpha.readPte
  rw [hp]
  dsimp only
  rw [hpte, if_neg hvalid]

theorem alphaTranslateV2p_beforeVm (hseg : ¬ (alphaK0segBase ≤ vaddr ∧ vaddr ≤ alphaK0segEnd)) (hvm : c.BeforeVm) :
    alphaTranslateV2p ram host c vaddr = identityPaddr vaddr := by
  unfold alphaTranslateV2p
  rw [if_neg (fun hk => hseg hk.2)]
  exact if_pos hvm

theorem alphaTranslateV2p_walk (hseg : ¬ (alphaK0segBase ≤ vaddr ∧ vaddr ≤ alphaK0segEnd)) (hvm : ¬ c.BeforeVm)
    (h : Walk ram host c.ptbr vaddr pte) :
    alphaTranslateV2p ram host c vaddr = .ok (BitVec.ofNat 64 (pte / 2 ^ 32 * 8192)) := by
  obtain ⟨pte1, pte2, h1, h2, h3⟩ := h
  have hread1 : readPte ram host ((c.ptbr <<< alphaPageshift) + pteIndex vaddr 2 * 8#64) =
      .ok (BitVec.ofNat 64 pte1) := by
    rw [entryAddr_eq _ (toNat_pteIndex vaddr)]
    exact h1.readPte
  have hread2 : readPte ram host ((((BitVec.ofNat 64 pte1) >>> 32) <<< alphaPageshift) + pteIndex vaddr 1 * 8#64) =
      .ok (BitVec.ofNat 64 pte2) := by
    rw [entryAddr_eq _ (toNat_pteIndex vaddr), toNat_pfn h1.lt]
    exact h2.readPte
  have hread3 : readPte ram host ((((BitVec.ofNat 64 pte2) >>> 32) <<< alphaPageshift) + pteIndex vaddr 0 * 8#64) =
      .ok (BitVec.ofNat 64 pte) := by
    rw [entryAddr_eq _ (toNat_pteIndex vaddr), toNat_pfn h2.lt]
    exact h3.readPte
  have hpage : alphaPteToPfn (BitVec.ofNat 64 pte) <<< alphaPageshift = BitVec.ofNat 64 (pte / 2 ^ 32 * 8192) := by
    apply BitVec.eq_of_toNat_eq
    rw [alphaPteToPfn, BitVec.toNat_shiftLeft, toNat_pfn h3.lt, BitVec.toNat_ofNat, Nat.shiftLeft_eq]
    rfl
  unfold alphaTranslateV2p
  rw [if_neg (fun hk => hseg hk.2)]
  refine (if_neg hvm).trans ?_
  rw [hread1]
  show (readPte ram host _ >>= _) = _
  rw [hread2]
  show (readPte ram host _ >>= _) = _
  rw [hread3]
  show Except.ok _ = _
  rw [hpage]

theorem pagePaddr_inj :
    BitVec.ofNat 64 (pte / 2 ^ 32 * 8192) = pagePaddr pte vaddr ↔ vaddr.toNat % 8192 = 0 := by
  rw [pagePaddr, BitVec.toNat_eq, BitVec.toNat_ofNat, BitVec.toNat_ofNat]
  omega

theorem alphaTranslateV2p_eq_iff (hseg : ¬ (alphaK0segBase ≤ vaddr ∧ vaddr ≤ alphaK0segEnd))
    (h : Walk ram host c.ptbr vaddr pte) :
    alphaTranslateV2p ram host c vaddr = .ok (pagePaddr pte vaddr) ↔ c.OffsetKept vaddr pte := by
  unfold AlphaCpu.OffsetKept
  by_cases hvm : c.BeforeVm
  · rw [if_pos hvm, alphaTranslateV2p_beforeVm hseg hvm]
  · rw [if_neg hvm, alphaTranslateV2p_walk hseg hvm h, Except.ok.injEq]
    exact pagePaddr_inj

end

end Gxemul.Alpha
