import Gxemul.Lib.Masks
import Gxemul.Loader.Elf

/- What is loaded from an ELF file.

   Each turn of the copying loop reads a chunk of the size that the address is aligned to
   and writes it, or the rest of the segment (`Copying`), until a shorter chunk ends the
   loop. `ofs` is an int, and a segment near its limit makes it overflow where the file
   goes on behind the segment. Symbols are looked up in the string table at an offset that
   is not checked. `elf_loads_iff` says which files are loaded right. -/
namespace Gxemul.Loader

open Lib

theorem int_of_lt {x : Int} (hlow : -2 ^ 31 ≤ x) (hhigh : x < 2 ^ 31) : int x = x := by
  unfold int
  omega

theorem int_lt (x : Int) : -2 ^ 31 ≤ int x ∧ int x < 2 ^ 31 := by
  unfold int
  omega

namespace Elf

section
variable {ph : Phdr} {c c' : Copy} {addr : BitVec 64} {a n : Nat}

/-! ## Sizes -/

/-- A power of two up to 64 KB that the address is a multiple of. -/
structure Aligned (a : Nat) (addr : BitVec 64) : Prop where
  pos : 0 < a
  block : a ∣ 2 ^ 16
  dvd : a ∣ addr.toNat

theorem Aligned.le (h : Aligned a addr) : a ≤ 2 ^ 16 := Nat.le_of_dvd (by decide) h.block

theorem and_mask_eq_zero (s : Nat) (hs : s ≤ 64) : (addr &&& BitVec.ofNat 64 (2 ^ s - 1) == 0#64) = true ↔
    2 ^ s ∣ addr.toNat := by
  rw [beq_iff_eq, ← BitVec.toNat_inj, toNat_and_mask addr s hs, BitVec.toNat_ofNat, Nat.zero_mod]
  exact Nat.dvd_iff_mod_eq_zero.symm

theorem aligned_alignOf (addr : BitVec 64) : Aligned (alignOf addr) addr := by
  have h16 := @and_mask_eq_zero addr 16 (by decide)
  have h14 := @and_mask_eq_zero addr 14 (by decide)
  have h12 := @and_mask_eq_zero addr 12 (by decide)
  have h8 := @and_mask_eq_zero addr 8 (by decide)
  have h6 := @and_mask_eq_zero addr 6 (by decide)
  have h4 := @and_mask_eq_zero addr 4 (by decide)
  unfold alignOf
  split
  · exact ⟨by decide, by decide, h16.mp ‹_›⟩
  split
  · exact ⟨by decide, by decide, h14.mp ‹_›⟩
  split
  · exact ⟨by decide, by decide, h12.mp ‹_›⟩
  split
  · exact ⟨by decide, by decide, h8.mp ‹_›⟩
  split
  · exact ⟨by decide, by decide, h6.mp ‹_›⟩
  split
  · exact ⟨by decide, by decide, h4.mp ‹_›⟩
  · exact ⟨by decide, by decide, Nat.one_dvd _⟩

theorem aligned_largerSize (h : Aligned a addr) : Aligned (largerSize a addr) addr := by
  have h16 := @and_mask_eq_zero addr 16 (by decide)
  have h12 := @and_mask_eq_zero addr 12 (by decide)
  unfold largerSize
  split
  · rename_i hlarger
    exact ⟨by decide, by decide, h16.mp (Bool.and_eq_true_iff.mp hlarger).2⟩
  split
  · rename_i hlarger
    exact ⟨by decide, by decide, h12.mp (Bool.and_eq_true_iff.mp hlarger).2⟩
  · exact h

theorem largerSize_block (ha : a ≤ 2 ^ 16) (h : 2 ^ 16 ∣ addr.toNat) : largerSize a addr = 2 ^ 16 := by
  have h16 : (addr &&& 0xffff#64 == 0#64) = true := (and_mask_eq_zero 16 (by decide)).mpr h
  unfold largerSize
  by_cases hlt : a < 0x10000
  · exact if_pos (Bool.and_eq_true_iff.mpr ⟨decide_eq_true hlt, h16⟩)
  · have heq : a = 2 ^ 16 := by omega
    rw [heq, if_neg (by simp), if_neg (by simp)]

theorem le_largerSize :
    largerSize a addr = 2 ^ 16 ∨ largerSize a addr = 2 ^ 12 ∧ a < 2 ^ 12 ∨ largerSize a addr = a := by
  unfold largerSize
  split
  · exact Or.inl rfl
  split
  · rename_i hlarger
    exact Or.inr (Or.inl ⟨rfl, of_decide_eq_true (Bool.and_eq_true_iff.mp hlarger).1⟩)
  · exact Or.inr (Or.inr rfl)

/-! ## One chunk -/

theorem writeChunk_some {v : BitVec 64} {ch : List Byte} {len ofs : Int} {fuel : Nat} {writes : List Write}
    (hpos : 0 < len) (hle : len ≤ a) (ha : a ≤ 2 ^ 16) : writeChunk v a ch len (fuel + 2) 0 ofs writes =
      some (int (ofs + a), writes ++ [⟨v + BitVec.ofInt 64 ofs, ch.take len.toNat⟩]) := by
  have hcopy : (if 0 + (a : Int) ≤ len then (a : Int) else len - 0) = len := by
    split <;> omega
  have hnext : int (0 + (a : Int)) = a := by
    rw [Int.zero_add]
    apply int_of_lt <;> omega
  rw [writeChunk, if_pos hpos]
  rw [hcopy, hnext, writeChunk, if_neg (by omega)]
  rfl

theorem writeChunk_none {v : BitVec 64} {ch : List Byte} {len ofs : Int} {fuel : Nat} {writes : List Write}
    (hpos : len ≤ 0) : writeChunk v a ch len (fuel + 1) 0 ofs writes = some (ofs, writes) := by
  rw [writeChunk, if_neg (by omega)]

structure Small (c : Copy) : Prop where
  chunk : c.chunkLen = c.alignLen
  pos : 0 < c.alignLen
  le : c.alignLen ≤ 2 ^ 16
  low : -2 ^ 31 ≤ c.ofs
  high : c.ofs < 2 ^ 31

def Copy.size (c : Copy) (ph : Phdr) : Nat := largerSize c.alignLen (ph.pVaddr + BitVec.ofInt 64 c.ofs)

def Copy.chunk (c : Copy) (ph : Phdr) : List Byte := c.f.bytes.read c.f.pos (c.size ph)

def Copy.count (c : Copy) (ph : Phdr) : Int :=
  if int (c.ofs + (c.chunk ph).length) > ph.pFilesz.toInt then int (ph.pFilesz.toInt - c.ofs) else (c.chunk ph).length

theorem length_chunk_le : (c.chunk ph).length ≤ c.size ph := by
  rw [Copy.chunk, File.length_read]
  exact Nat.min_le_left ..

theorem size_bounds (hc : Small c) : 0 < c.size ph ∧ c.size ph ≤ 2 ^ 16 := by
  have hsize := @le_largerSize (ph.pVaddr + BitVec.ofInt 64 c.ofs) c.alignLen
  have hpos := hc.pos
  have hle := hc.le
  unfold Copy.size
  omega

theorem count_le (hc : Small c) (hofs : c.ofs < ph.pFilesz.toInt) :
    0 ≤ c.count ph ∧ c.count ph ≤ (c.chunk ph).length := by
  have hsize := @size_bounds ph c hc
  have hchunk := @length_chunk_le ph c
  have hlow := hc.low
  unfold Copy.count int
  split
  · omega
  · omega

theorem copyChunk_eq (hc : Small c) (hofs : c.ofs < ph.pFilesz.toInt) : copyChunk ph c = some
    { f := { c.f with pos := c.f.pos + (c.chunk ph).length }
      ofs := if 0 < c.count ph then int (c.ofs + c.size ph) else c.ofs
      alignLen := c.size ph
      chunkLen := c.size ph
      len := c.count ph
      writes := if 0 < c.count ph
        then c.writes ++ [⟨ph.pVaddr + BitVec.ofInt 64 c.ofs, (c.chunk ph).take (c.count ph).toNat⟩]
        else c.writes } := by
  have hchunkLen : (if c.size ph = c.alignLen then c.chunkLen else c.size ph) = c.size ph := by
    split
    · rw [hc.chunk]
      exact Eq.symm ‹_›
    · rfl
  obtain ⟨hsizePos, hsize⟩ := @size_bounds ph c hc
  have hchunk := @length_chunk_le ph c
  have hcount := count_le hc hofs
  have hstep : copyChunk ph c =
      (writeChunk ph.pVaddr (c.size ph) (c.chunk ph) (c.count ph) (c.size ph + 1) 0 c.ofs c.writes).map fun r =>
        { f := { c.f with pos := c.f.pos + (c.chunk ph).length }, ofs := r.1, alignLen := c.size ph,
          chunkLen := c.size ph, len := c.count ph, writes := r.2 } := by
    unfold copyChunk
    dsimp only
    have hlarger : largerSize c.alignLen (ph.pVaddr + BitVec.ofInt 64 c.ofs) = c.size ph := rfl
    rw [hlarger, hchunkLen]
    rfl
  rw [hstep]
  by_cases hpos : 0 < c.count ph
  · obtain ⟨k, hk⟩ : ∃ k, c.size ph + 1 = k + 2 := ⟨c.size ph - 1, by omega⟩
    rw [hk, writeChunk_some hpos (by omega) hsize, if_pos hpos, if_pos hpos]
    rfl
  · rw [writeChunk_none (by omega), if_neg hpos, if_neg hpos]
    rfl

theorem Small.next (hc : Small c) (hofs : c.ofs < ph.pFilesz.toInt) (h : copyChunk ph c = some c') : Small c' := by
  obtain ⟨hsizePos, hsize⟩ := @size_bounds ph c hc
  rw [copyChunk_eq hc hofs] at h
  cases h
  have hwrap := int_lt (c.ofs + c.size ph)
  have hlow := hc.low
  have hhigh := hc.high
  refine ⟨rfl, hsizePos, hsize, ?_, ?_⟩
  · dsimp only
    split <;> omega
  · dsimp only
    split <;> omega

/-! ## The loop -/

theorem chunk_whole (hc : Small c) (hofs : c.ofs < ph.pFilesz.toInt) (hgo : c.count ph = c.size ph) :
    (c.chunk ph).length = c.size ph ∧ c.f.pos + c.size ph ≤ c.f.bytes.length := by
  obtain ⟨hsizePos, -⟩ := @size_bounds ph c hc
  have hcount := count_le hc hofs
  have hlen : (c.chunk ph).length = min (c.size ph) (c.f.bytes.length - c.f.pos) := File.length_read
  omega

theorem copyLoop_ends : ∀ {k : Nat} {c : Copy}, Small c → c.f.bytes.length - c.f.pos < k →
    ∃ c', copyLoop ph (k + 1) c = some c' := by
  intro k
  induction k with
  | zero => exact fun _ h => absurd h (Nat.not_lt_zero _)
  | succ k ih =>
    intro c hc hk
    rw [copyLoop]
    split
    · rename_i hgo
      have hstep := copyChunk_eq hc hgo.1
      have hc1 := hc.next hgo.1 hstep
      rw [hstep, Option.bind_some]
      by_cases hagain : c.count ph = c.size ph
      · obtain ⟨hwhole, hroom⟩ := chunk_whole hc hgo.1 hagain
        obtain ⟨hsizePos, -⟩ := @size_bounds ph c hc
        apply ih hc1
        dsimp only
        omega
      · rw [copyLoop, if_neg fun h => hagain h.2]
        exact ⟨_, rfl⟩
    · exact ⟨c, rfl⟩

theorem copyLoop_writes : ∀ {k : Nat} {c c' : Copy}, Small c → copyLoop ph k c = some c' →
    c'.f.bytes = c.f.bytes ∧ ∀ w ∈ c.writes, w ∈ c'.writes := by
  intro k
  induction k with
  | zero =>
    intro _ _ _ h
    cases h
  | succ k ih =>
    intro c c' hc h
    rw [copyLoop] at h
    split at h
    · rename_i hgo
      have hstep := copyChunk_eq hc hgo.1
      have hc1 := hc.next hgo.1 hstep
      rw [hstep, Option.bind_some] at h
      obtain ⟨hbytes, hkeep⟩ := ih hc1 h
      refine ⟨hbytes, fun w hw => hkeep w ?_⟩
      split
      · exact List.mem_append_left _ hw
      · exact hw
    · cases h
      exact ⟨rfl, fun _ hw => hw⟩

end

/-! ## A segment -/

/-- The sizes of a segment to which the loader has to be true: it is not empty, it is not larger in the file than in
memory, and the file has all of it. The fields are as the loader decodes them. -/
structure Eligible (file : File) (ph : Phdr) : Prop where
  load : ph.pType = ptLoad
  memsz : ph.pFilesz ≤ ph.pMemsz
  pos : 0 < ph.pFilesz.toNat
  lt : ph.pFilesz.toNat < 2 ^ 31
  file : ph.pOffset.toNat + ph.pFilesz.toNat ≤ file.length

/-- The first `n` bytes are written, and nothing else, in blocks of 64 KB. -/
structure Copied (file : File) (ph : Phdr) (n : Nat) (writes : List Write) : Prop where
  covers : ∀ k < n, ∃ w ∈ writes, ∃ j < w.data.length,
    w.addr + BitVec.ofNat 64 j = ph.pVaddr + BitVec.ofNat 64 k ∧ w.data.getD j 0#8 = file.byteAt (ph.pOffset.toNat + k)
  inside : ∀ w ∈ writes, ∀ j < w.data.length, ∃ k < n,
    w.addr + BitVec.ofNat 64 j = ph.pVaddr + BitVec.ofNat 64 k ∧ w.data.getD j 0#8 = file.byteAt (ph.pOffset.toNat + k)
  block : ∀ w ∈ writes, w.addr.toNat % 2 ^ 16 + w.data.length ≤ 2 ^ 16

section
variable {file : File} {ph : Phdr} {c c' : Copy} {n m : Nat} {writes : List Write}

theorem Copied.nil : Copied file ph 0 [] :=
  ⟨fun _ h => absurd h (Nat.not_lt_zero _), fun _ h => absurd h List.not_mem_nil, fun _ h => absurd h List.not_mem_nil⟩

theorem Copied.snoc (h : Copied file ph n writes)
    (hlen : (file.read (ph.pOffset.toNat + n) m).length = m)
    (hblock : (ph.pVaddr + BitVec.ofNat 64 n).toNat % 2 ^ 16 + m ≤ 2 ^ 16) :
    Copied file ph (n + m)
      (writes ++ [⟨ph.pVaddr + BitVec.ofNat 64 n, file.read (ph.pOffset.toNat + n) m⟩]) := by
  have hnew : ∀ j < m, ph.pVaddr + BitVec.ofNat 64 n + BitVec.ofNat 64 j = ph.pVaddr + BitVec.ofNat 64 (n + j) ∧
      (file.read (ph.pOffset.toNat + n) m).getD j 0#8 = file.byteAt (ph.pOffset.toNat + (n + j)) := by
    intro j hj
    refine ⟨?_, ?_⟩
    · rw [BitVec.ofNat_add, BitVec.add_assoc]
    · rw [File.getD_read hj, Nat.add_assoc]
  refine ⟨fun k hk => ?_, fun w hw j hj => ?_, fun w hw => ?_⟩
  · by_cases hold : k < n
    · obtain ⟨w, hw, hrest⟩ := h.covers k hold
      exact ⟨w, List.mem_append_left _ hw, hrest⟩
    · refine ⟨_, List.mem_append_right _ (List.mem_singleton_self _), k - n, by rw [hlen]; omega, ?_⟩
      have hbyte := hnew (k - n) (by omega)
      rw [Nat.add_sub_cancel' (by omega)] at hbyte
      exact hbyte
  · rcases List.mem_append.mp hw with hw | hw
    · obtain ⟨k, hk, hrest⟩ := h.inside w hw j hj
      exact ⟨k, by omega, hrest⟩
    · rw [List.mem_singleton] at hw
      subst hw
      rw [hlen] at hj
      exact ⟨n + j, by omega, hnew j hj⟩
  · rcases List.mem_append.mp hw with hw | hw
    · exact h.block w hw
    · rw [List.mem_singleton] at hw
      subst hw
      rw [hlen]
      exact hblock

/-- The state of the loop after `n` bytes, where it goes on. Before the first 64 KB boundary chunks can be smaller. -/
structure Copying (file : File) (ph : Phdr) (n : Nat) (c : Copy) : Prop where
  small : Small c
  bytes : c.f.bytes = file
  pos : c.f.pos = ph.pOffset.toNat + n
  ofs : c.ofs = n
  len : c.len = c.chunkLen
  aligned : Aligned c.alignLen (ph.pVaddr + BitVec.ofNat 64 n)
  first : c.alignLen = 2 ^ 16 ∨ ph.pVaddr.toNat % 2 ^ 16 + n ≤ 2 ^ 16
  copied : Copied file ph n c.writes

/-- Where the copying of the segment would end if all of its last block was written. -/
def blockEnd (ph : Phdr) : Nat :=
  (ph.pVaddr.toNat % 2 ^ 16 + ph.pFilesz.toNat + (2 ^ 16 - 1)) / 2 ^ 16 * 2 ^ 16 - ph.pVaddr.toNat % 2 ^ 16

/-- What is read from the file does not go beyond the largest int. -/
def Fits (file : File) (ph : Phdr) : Prop := file.length - ph.pOffset.toNat < 2 ^ 31 ∨ blockEnd ph < 2 ^ 31

theorem Aligned.in_block {addr : BitVec 64} {a : Nat} (h : Aligned a addr) : addr.toNat % 2 ^ 16 + a ≤ 2 ^ 16 := by
  obtain ⟨q, hq⟩ : a ∣ addr.toNat % 2 ^ 16 := (Nat.dvd_mod_iff h.block).mpr h.dvd
  obtain ⟨r, hr⟩ := h.block
  have hlt : addr.toNat % 2 ^ 16 < 2 ^ 16 := Nat.mod_lt _ (by decide)
  rw [hq, hr] at hlt
  have hqr : q + 1 ≤ r := Nat.lt_of_mul_lt_mul_left hlt
  calc addr.toNat % 2 ^ 16 + a = a * (q + 1) := by rw [hq, Nat.mul_add, Nat.mul_one]
    _ ≤ a * r := Nat.mul_le_mul_left a hqr
    _ = 2 ^ 16 := hr.symm

theorem toNat_add_mod (v : BitVec 64) (n : Nat) :
    (v + BitVec.ofNat 64 n).toNat % 2 ^ 16 = (v.toNat % 2 ^ 16 + n) % 2 ^ 16 := by
  rw [BitVec.toNat_add, BitVec.toNat_ofNat]
  omega

namespace Copying
variable (h : Copying file ph n c)
include h

theorem addr_eq : ph.pVaddr + BitVec.ofInt 64 c.ofs = ph.pVaddr + BitVec.ofNat 64 n := by
  rw [h.ofs, BitVec.ofInt_natCast]

theorem aligned_size : Aligned (c.size ph) (ph.pVaddr + BitVec.ofNat 64 n) := by
  rw [Copy.size, h.addr_eq]
  exact aligned_largerSize h.aligned

theorem size_first : c.size ph = 2 ^ 16 ∨ ph.pVaddr.toNat % 2 ^ 16 + n + c.size ph ≤ 2 ^ 16 := by
  by_cases hsize : c.size ph = 2 ^ 16
  · exact Or.inl hsize
  · have hmod := toNat_add_mod ph.pVaddr n
    have hblock := h.aligned_size.in_block
    have hlarger := @le_largerSize (ph.pVaddr + BitVec.ofInt 64 c.ofs) c.alignLen
    have hboundary : ¬ 2 ^ 16 ∣ (ph.pVaddr + BitVec.ofNat 64 n).toNat := by
      intro hdvd
      apply hsize
      rw [Copy.size, h.addr_eq]
      exact largerSize_block h.small.le hdvd
    rw [Nat.dvd_iff_mod_eq_zero] at hboundary
    have hfirst : ph.pVaddr.toNat % 2 ^ 16 + n ≤ 2 ^ 16 := by
      refine h.first.resolve_left fun hfull => hsize ?_
      unfold Copy.size
      omega
    right
    omega

theorem length_chunk : (c.chunk ph).length = min (c.size ph) (file.length - (ph.pOffset.toNat + n)) := by
  rw [Copy.chunk, File.length_read, h.bytes, h.pos]

theorem count_eq (he : Eligible file ph) (hn : n < ph.pFilesz.toNat) (hfits : n + (c.chunk ph).length < 2 ^ 31) :
    c.count ph = (min (c.size ph) (ph.pFilesz.toNat - n) : Nat) := by
  have hlen := h.length_chunk
  have hfile := he.file
  have hlt := he.lt
  have hF : ph.pFilesz.toInt = ph.pFilesz.toNat := BitVec.toInt_eq_toNat_of_lt (by omega)
  unfold Copy.count
  rw [hF, h.ofs, int_of_lt (by omega) (by omega), int_of_lt (by omega) (by omega)]
  split <;> omega

theorem step (he : Eligible file ph) (hn : n < ph.pFilesz.toNat) (hfits : n + (c.chunk ph).length < 2 ^ 31)
    (hstep : copyChunk ph c = some c') :
    Copied file ph (n + min (c.size ph) (ph.pFilesz.toNat - n)) c'.writes ∧
    (n + c.size ph ≤ ph.pFilesz.toNat → Copying file ph (n + c.size ph) c') ∧
    (ph.pFilesz.toNat < n + c.size ph → c'.len ≠ c'.chunkLen) := by
  have hF : ph.pFilesz.toInt = ph.pFilesz.toNat := BitVec.toInt_eq_toNat_of_lt (by have := he.lt; omega)
  have hofs : c.ofs < ph.pFilesz.toInt := by
    rw [h.ofs, hF]
    exact Int.ofNat_lt.mpr hn
  have hsmall := h.small.next hofs hstep
  obtain ⟨hsizePos, hsize⟩ := @size_bounds ph c h.small
  have hcount := h.count_eq he hn hfits
  have hlen := h.length_chunk
  have hfile := he.file
  obtain ⟨m, hm⟩ : ∃ m, m = min (c.size ph) (ph.pFilesz.toNat - n) := ⟨_, rfl⟩
  rw [← hm] at hcount ⊢
  have hpos : 0 < c.count ph := by omega
  have hdata : (c.chunk ph).take (c.count ph).toNat = file.read (ph.pOffset.toNat + n) m := by
    rw [Copy.chunk, h.bytes, h.pos, hcount, Int.toNat_natCast, File.read, File.read, List.take_take]
    congr 1
    omega
  have hcopied : Copied file ph (n + m)
      (c.writes ++ [⟨ph.pVaddr + BitVec.ofNat 64 n, file.read (ph.pOffset.toNat + n) m⟩]) := by
    have hblock := h.aligned_size.in_block
    apply h.copied.snoc
    · rw [File.length_read]
      omega
    · omega
  rw [copyChunk_eq h.small hofs, if_pos hpos, if_pos hpos, h.addr_eq, hdata] at hstep
  cases hstep
  refine ⟨hcopied, fun hwhole => ?_, fun hshort => ?_⟩
  · have hmsize : m = c.size ph := by omega
    have hchunk : (c.chunk ph).length = c.size ph := by omega
    have haligned := h.aligned_size
    refine ⟨hsmall, h.bytes, ?_, ?_, ?_, ⟨haligned.pos, haligned.block, ?_⟩, ?_, ?_⟩
    · rw [h.pos, hchunk, Nat.add_assoc]
    · rw [h.ofs, int_of_lt (by omega) (by omega), Int.natCast_add]
    · rw [hcount, hmsize]
    · -- The size divides the address space.
      have hspace : c.size ph ∣ 2 ^ 64 := haligned.block.trans (by decide)
      rw [BitVec.ofNat_add, ← BitVec.add_assoc, BitVec.toNat_add, BitVec.toNat_ofNat, Nat.dvd_mod_iff hspace]
      exact Nat.dvd_add haligned.dvd ((Nat.dvd_mod_iff hspace).mpr (Nat.dvd_refl _))
    · dsimp only
      have hfirst := h.size_first
      omega
    · rw [← hmsize]
      exact hcopied
  · dsimp only
    omega

theorem overflow (he : Eligible file ph) (hn : n < ph.pFilesz.toNat) (hover : 2 ^ 31 ≤ n + (c.chunk ph).length)
    (hstep : copyChunk ph c = some c') : ∃ w ∈ c'.writes, ∃ j < w.data.length, ∀ k < ph.pFilesz.toNat,
      w.addr + BitVec.ofNat 64 j ≠ ph.pVaddr + BitVec.ofNat 64 k := by
  have hF : ph.pFilesz.toInt = ph.pFilesz.toNat := BitVec.toInt_eq_toNat_of_lt (by have := he.lt; omega)
  have hofs : c.ofs < ph.pFilesz.toInt := by
    rw [h.ofs, hF]
    exact Int.ofNat_lt.mpr hn
  obtain ⟨-, hsize⟩ := @size_bounds ph c h.small
  have hle := @length_chunk_le ph c
  have hlt := he.lt
  have hcount : c.count ph = (c.chunk ph).length := by
    unfold Copy.count
    rw [hF, h.ofs, if_neg]
    unfold int
    omega
  rw [copyChunk_eq h.small hofs, if_pos (by omega), if_pos (by omega), h.addr_eq, hcount] at hstep
  cases hstep
  refine ⟨_, List.mem_append_right _ (List.mem_singleton_self _), ph.pFilesz.toNat - n, ?_, fun k hk heq => ?_⟩
  · dsimp only
    rw [Int.toNat_natCast, List.take_length]
    omega
  · rw [BitVec.add_assoc, ← BitVec.ofNat_add, Nat.add_sub_cancel' (by omega)] at heq
    have hoffset := (BitVec.add_right_inj _).mp heq
    have hnat := congrArg BitVec.toNat hoffset
    rw [BitVec.toNat_ofNat, BitVec.toNat_ofNat] at hnat
    omega

end Copying

theorem Copying.le_blockEnd (h : Copying file ph n c) (hn : n < ph.pFilesz.toNat) : n + c.size ph ≤ blockEnd ph := by
  have hmod := toNat_add_mod ph.pVaddr n
  have hblock := h.aligned_size.in_block
  unfold blockEnd
  omega

theorem copyLoop_copied (he : Eligible file ph) (hfits : Fits file ph) :
    ∀ {fuel n : Nat} {c : Copy}, Copying file ph n c → n ≤ ph.pFilesz.toNat → copyLoop ph fuel c = some c' →
      Copied file ph ph.pFilesz.toNat c'.writes := by
  have hF : ph.pFilesz.toInt = ph.pFilesz.toNat := BitVec.toInt_eq_toNat_of_lt (by have := he.lt; omega)
  intro fuel
  induction fuel with
  | zero =>
    intro _ _ _ _ h
    cases h
  | succ fuel ih =>
    intro n c h hn hrun
    rw [copyLoop] at hrun
    by_cases hdone : n = ph.pFilesz.toNat
    · rw [if_neg (by rw [h.ofs, hF]; omega)] at hrun
      cases hrun
      rw [← hdone]
      exact h.copied
    · have hlt : n < ph.pFilesz.toNat := by omega
      have hofs : c.ofs < ph.pFilesz.toInt := by
        rw [h.ofs, hF]
        exact Int.ofNat_lt.mpr hlt
      rw [if_pos ⟨hofs, h.len⟩] at hrun
      obtain ⟨c1, hstep, hrest⟩ := Option.bind_eq_some_iff.mp hrun
      have hroom : n + (c.chunk ph).length < 2 ^ 31 := by
        have hlen := h.length_chunk
        have hend := h.le_blockEnd hlt
        have hall := he.file
        rcases hfits with hfile | hend'
        · omega
        · omega
      obtain ⟨hcopied, hnext, hstop⟩ := h.step he hlt hroom hstep
      by_cases hwhole : n + c.size ph ≤ ph.pFilesz.toNat
      · exact ih (hnext hwhole) hwhole hrest
      · -- The last chunk is not a whole one, so that the loop ends.
        cases fuel with
        | zero => cases hrest
        | succ fuel =>
          rw [copyLoop, if_neg fun hgo => hstop (by omega) hgo.2] at hrest
          cases hrest
          have hall : n + min (c.size ph) (ph.pFilesz.toNat - n) = ph.pFilesz.toNat := by omega
          rw [← hall]
          exact hcopied

theorem copyLoop_overflow (he : Eligible file ph) (hfits : ¬ Fits file ph) :
    ∀ {fuel n : Nat} {c : Copy}, Copying file ph n c → n < ph.pFilesz.toNat → copyLoop ph fuel c = some c' →
      ∃ w ∈ c'.writes, ∃ j < w.data.length, ∀ k < ph.pFilesz.toNat,
        w.addr + BitVec.ofNat 64 j ≠ ph.pVaddr + BitVec.ofNat 64 k := by
  have hF : ph.pFilesz.toInt = ph.pFilesz.toNat := BitVec.toInt_eq_toNat_of_lt (by have := he.lt; omega)
  have hbig : 2 ^ 31 ≤ file.length - ph.pOffset.toNat ∧ 2 ^ 31 ≤ blockEnd ph := by
    unfold Fits at hfits
    omega
  intro fuel
  induction fuel with
  | zero =>
    intro _ _ _ _ h
    cases h
  | succ fuel ih =>
    intro n c h hn hrun
    have hofs : c.ofs < ph.pFilesz.toInt := by
      rw [h.ofs, hF]
      exact Int.ofNat_lt.mpr hn
    rw [copyLoop, if_pos ⟨hofs, h.len⟩] at hrun
    obtain ⟨c1, hstep, hrest⟩ := Option.bind_eq_some_iff.mp hrun
    by_cases hover : 2 ^ 31 ≤ n + (c.chunk ph).length
    · obtain ⟨w, hw, hbad⟩ := h.overflow he hn hover hstep
      exact ⟨w, (copyLoop_writes (h.small.next hofs hstep) hrest).2 w hw, hbad⟩
    · -- Then the whole chunk is there and it does not reach the end of the segment.
      have hmore : n + c.size ph < ph.pFilesz.toNat := by
        have hlen := h.length_chunk
        have hfirst := h.size_first
        have hmod := toNat_add_mod ph.pVaddr n
        have hblock := h.aligned_size.in_block
        have hend := hbig.2
        unfold blockEnd at hend
        by_contra hlast
        rcases hfirst with hsize | hsmall
        · omega
        · omega
      obtain ⟨-, hnext, -⟩ := h.step he hn (by omega) hstep
      exact ih (hnext (by omega)) hmore hrest

theorem small_start (f : Stream) (ph : Phdr) : Small (Copy.start f ph) := by
  have haligned := aligned_alignOf ph.pVaddr
  have hzero : -2 ^ 31 ≤ (0 : Int) ∧ (0 : Int) < 2 ^ 31 := by decide
  exact ⟨rfl, haligned.pos, haligned.le, hzero.1, hzero.2⟩

theorem copying_zero (he : Eligible file ph) (hsize : file.length < 2 ^ 63) {f : Stream} (hf : f.bytes = file) :
    Copying file ph 0 (Copy.start f ph) := by
  have haligned := aligned_alignOf ph.pVaddr
  have hfile := he.file
  have hseek : f.seek ph.pOffset = { f with pos := ph.pOffset.toNat } := by
    have hpos : ¬ ph.pOffset.toInt < 0 := by
      rw [BitVec.toInt_eq_toNat_of_lt (by omega)]
      omega
    rw [Stream.seek, if_neg hpos]
  refine ⟨small_start f ph, ?_, ?_, rfl, rfl, ?_, Or.inr ?_, Copied.nil⟩
  · rw [Copy.start, hseek]
    exact hf
  · rw [Copy.start, hseek]
    rfl
  · rw [BitVec.add_zero]
    exact haligned
  · omega

theorem copySegment_ends (f : Stream) (ph : Phdr) : ∃ c, copySegment f ph = some c := by
  have hbytes : (Copy.start f ph).f.bytes = f.bytes := by
    unfold Copy.start Stream.seek
    split <;> rfl
  apply copyLoop_ends (small_start f ph)
  rw [hbytes]
  omega

theorem copySegment_iff (he : Eligible file ph) (hsize : file.length < 2 ^ 63) {f : Stream} (hf : f.bytes = file)
    (h : copySegment f ph = some c) : Copied file ph ph.pFilesz.toNat c.writes ↔ Fits file ph := by
  have hzero := copying_zero he hsize hf
  constructor
  · intro hcopied
    by_contra hfits
    obtain ⟨w, hw, j, hj, hbad⟩ := copyLoop_overflow he hfits hzero he.pos h
    obtain ⟨k, hk, haddr, -⟩ := hcopied.inside w hw j hj
    exact hbad k hk haddr
  · intro hfits
    exact copyLoop_copied he hfits hzero (Nat.zero_le _) h

end

/-! ## Program headers -/

/-- The writes of a segment that is loaded come from a copying of the file. -/
def FromFile (file : File) (seg : Segment) : Prop :=
  seg.ph.isLoaded = true → ∃ f c, f.bytes = file ∧ copySegment f seg.ph = some c ∧ seg.writes = c.writes

section
variable {file : File} {arch : Arch} {elf64 little : Bool} {eh : Ehdr}

@[simp] theorem seek_bytes (f : Stream) (ofs : BitVec 64) : (f.seek ofs).bytes = f.bytes := by
  unfold Stream.seek
  split <;> rfl

@[simp] theorem read_bytes (f : Stream) (n : Nat) : (f.read n).2.bytes = f.bytes := rfl

theorem copySegment_bytes {f : Stream} {ph : Phdr} {c : Copy} (h : copySegment f ph = some c) :
    c.f.bytes = f.bytes := by
  obtain ⟨hbytes, -⟩ := copyLoop_writes (small_start f ph) h
  exact hbytes.trans (seek_bytes f ph.pOffset)

theorem loadPhdr_fromFile {st st' : Segments} {i : Nat}
    (hst : st.f.bytes = file ∧ ∀ seg ∈ st.segments, FromFile file seg)
    (h : loadPhdr arch elf64 little eh st i = .ok st') :
    st'.f.bytes = file ∧ ∀ seg ∈ st'.segments, FromFile file seg := by
  obtain ⟨hbytes, hsegs⟩ := hst
  have hsnoc : ∀ seg, FromFile file seg → ∀ seg' ∈ st.segments ++ [seg], FromFile file seg' := by
    intro seg hseg seg' hmem
    rcases List.mem_append.mp hmem with hold | hnew
    · exact hsegs seg' hold
    · rw [List.mem_singleton.mp hnew]
      exact hseg
  unfold loadPhdr at h
  dsimp only at h
  split at h
  · cases h
  split at h
  · split at h
    · cases h
    split at h
    · cases h
    · rename_i c hcopy
      cases h
      have hread : ((st.f.seek (eh.ephoff + BitVec.ofInt 64 (i * eh.ephentsize.toInt))).read
          (sizeofPhdr elf64)).2.bytes = file := by
        rw [read_bytes, seek_bytes, hbytes]
      exact ⟨(copySegment_bytes hcopy).trans hread, hsnoc _ fun _ => ⟨_, c, hread, hcopy, rfl⟩⟩
  · rename_i hnot
    cases h
    refine ⟨by rw [read_bytes, seek_bytes, hbytes], hsnoc _ fun hload => absurd hload hnot⟩

theorem loadPhdr_ends (st : Segments) (i : Nat) : loadPhdr arch elf64 little eh st i ≠ .error .endless := by
  intro h
  unfold loadPhdr at h
  dsimp only at h
  split at h
  · cases h
  split at h
  · split at h
    · cases h
    split at h
    · rename_i hnone
      obtain ⟨c, hc⟩ := copySegment_ends _ _
      rw [hc] at hnone
      cases hnone
    · cases h
  · cases h

theorem loadShdr_ends (st : Sections) (i : Nat) : loadShdr elf64 little eh st i ≠ .error .endless := by
  intro h
  unfold loadShdr at h
  dsimp only at h
  split at h
  · cases h
  split at h
  · split at h <;> cases h
  split at h
  · split at h <;> cases h
  · cases h

theorem loadHeader_bytes {hd : Header} (h : loadHeader arch file = .ok hd) : hd.f.bytes = file := by
  unfold loadHeader at h
  dsimp only at h
  split at h
  · cases h
  · cases h
    split <;> simp

theorem headerChecks_ends {hdr32 hdr : List Byte} : ∀ c ∈ headerChecks arch hdr32 hdr elf64 eh, c.2 ≠ .endless := by
  simp [headerChecks]

theorem loadHeader_ends : loadHeader arch file ≠ .error .endless := by
  intro h
  unfold loadHeader at h
  dsimp only at h
  split at h
  · rename_i hfind
    cases h
    exact headerChecks_ends _ (List.mem_of_find?_eq_some hfind) rfl
  · cases h

theorem loadFile_ends (arch : Arch) (file : File) : loadFile arch file ≠ .error .endless := by
  intro h
  unfold loadFile at h
  cases hhead : loadHeader arch file with
  | error e =>
    rw [hhead] at h
    cases h
    exact loadHeader_ends hhead
  | ok hd =>
    rw [hhead] at h
    cases hphdrs : (List.range hd.eh.ephnum.toInt.toNat).foldlM (loadPhdr arch hd.elf64 hd.little hd.eh)
        ⟨hd.f, false, []⟩ with
    | error e =>
      rw [Lib.ok_bind, hphdrs] at h
      cases h
      exact foldlM_ne_error loadPhdr_ends _ _ hphdrs
    | ok st =>
      cases hshdrs : (List.range hd.eh.eshnum.toInt.toNat).foldlM (loadShdr hd.elf64 hd.little hd.eh)
          ⟨st.f, [], 0, none⟩ with
      | error e =>
        rw [Lib.ok_bind, hphdrs, Lib.ok_bind, hshdrs] at h
        cases h
        exact foldlM_ne_error loadShdr_ends _ _ hshdrs
      | ok se =>
        rw [Lib.ok_bind, hphdrs, Lib.ok_bind, hshdrs] at h
        cases h

theorem loadFile_segments {img : Image} (h : loadFile arch file = .ok img) :
    ∀ seg ∈ img.segments, FromFile file seg := by
  obtain ⟨hd, hhead, h⟩ := Lib.bind_eq_ok h
  obtain ⟨st, hphdrs, h⟩ := Lib.bind_eq_ok h
  obtain ⟨se, -, h⟩ := Lib.bind_eq_ok h
  cases h
  have hinv := foldlM_inv (I := fun st : Segments => st.f.bytes = file ∧ ∀ seg ∈ st.segments, FromFile file seg)
    (fun _ _ _ _ hst hs => loadPhdr_fromFile hst hs) hphdrs
    ⟨loadHeader_bytes hhead, fun _ h => absurd h List.not_mem_nil⟩
  exact hinv.2

end

/-! ## Symbols -/

section
variable {strings : List Byte} {i : Nat}

theorem byte_nul {i : Nat} (hi : i ≤ strings.length) (hne : Lib.Buf.byte (strings ++ [0#8]) i ≠ 0#8) :
    i + 1 ≤ strings.length := by
  by_contra hlast
  have hend : i = strings.length := by omega
  apply hne
  rw [hend, Lib.Buf.byte, List.getD_eq_getElem?_getD, List.getElem?_concat_length]
  rfl

theorem readByte_nul : InBounds (Lib.Buf.readByte (strings ++ [0#8]) i) ↔ i ≤ strings.length := by
  unfold Lib.Buf.readByte
  rw [inBounds_ite, List.length_append, List.length_singleton]
  constructor
  · intro h
    by_contra hi
    exact not_inBounds_error _ (h.2 (by omega))
  · intro hi
    exact ⟨fun _ => inBounds_ok _, fun hn => absurd (by omega) hn⟩

theorem readString_inBounds : ∀ {fuel i : Nat}, i ≤ strings.length → strings.length < i + fuel →
    InBounds (readString (strings ++ [0#8]) fuel i) := by
  intro fuel
  induction fuel with
  | zero => intro i hi hfuel; omega
  | succ fuel ih =>
    intro i hi hfuel
    rw [readString, Buf.readByte_of_lt (by rw [List.length_append, List.length_singleton]; omega), Lib.ok_bind]
    by_cases hnul : Lib.Buf.byte (strings ++ [0#8]) i = 0#8
    · rw [if_pos hnul]
      exact inBounds_pure _
    · rw [if_neg hnul, inBounds_bind_pure]
      exact ih (byte_nul hi hnul) (by omega)

theorem strcmp_inBounds : ∀ {cs : List Byte} {i : Nat}, (∀ c ∈ cs, c ≠ 0#8) → i ≤ strings.length →
    InBounds (strcmp (strings ++ [0#8]) (cs ++ [0#8]) i) := by
  intro cs
  induction cs with
  | nil =>
    intro i _ hi
    rw [List.nil_append, strcmp, Buf.readByte_of_lt (by rw [List.length_append, List.length_singleton]; omega),
      Lib.ok_bind]
    split
    · exact inBounds_ok _
    · exact inBounds_pure _
  | cons c cs ih =>
    intro i hcs hi
    rw [List.cons_append, strcmp, Buf.readByte_of_lt (by rw [List.length_append, List.length_singleton]; omega),
      Lib.ok_bind]
    split
    · rename_i hsame
      apply ih (fun c hc => hcs c (List.mem_cons_of_mem _ hc))
      apply byte_nul hi
      rw [hsame]
      exact hcs c List.mem_cons_self
    · exact inBounds_pure _

theorem decodeSymbol_inBounds (img : Image) (out : Decoded) (i : Nat) :
    InBounds (decodeSymbol img (strings ++ [0#8]) out i) ↔ (img.sym i).stName.toNat ≤ strings.length := by
  rw [decodeSymbol, inBounds_bind]
  constructor
  · rintro ⟨names, -, h⟩
    rw [inBounds_bind_pure] at h
    rw [strcmp, inBounds_bind] at h
    obtain ⟨x, hx, -⟩ := h
    exact readByte_nul.mp ⟨x, hx⟩
  · intro hname
    have hcmp : InBounds (strcmp (strings ++ [0#8]) ([0x5f#8, 0x67#8, 0x70#8] ++ [0#8]) (img.sym i).stName.toNat) :=
      strcmp_inBounds (by decide) hname
    have hadd : InBounds (addName (strings ++ [0#8]) out.names (img.sym i)) := by
      unfold addName
      split
      · exact inBounds_ok _
      · rw [inBounds_bind_pure]
        exact readString_inBounds hname (by rw [List.length_append, List.length_singleton]; omega)
    obtain ⟨names, hnames⟩ := hadd
    exact ⟨names, hnames, inBounds_bind_pure.mpr hcmp⟩

end

def NamesInside (img : Image) : Prop :=
  ∀ strings, img.strings = some strings → ∀ i < img.nSymbols.toNat, (img.sym i).stName.toNat ≤ strings.length

theorem decodeSymbols_inBounds (img : Image) : InBounds (decodeSymbols img) ↔ NamesInside img := by
  unfold decodeSymbols NamesInside
  cases img.strings with
  | none =>
    refine ⟨fun _ strings h => ?_, fun _ => inBounds_ok _⟩
    cases h
  | some strings =>
    rw [inBounds_foldlM fun out i => decodeSymbol_inBounds img out i]
    simp only [List.mem_range, Option.some.injEq, forall_eq']

/-! ## Files -/

/-- A file of the host, whose positions an `off_t` can say. -/
structure HostFile where
  bytes : File
  length_lt : bytes.length < 2 ^ 63

/-- Loading ends, the segments of an image are copied, and its symbols are decoded inside the string table. -/
structure LoadsRight (arch : Arch) (file : File) : Prop where
  ends : loadFile arch file ≠ .error .endless
  segments : ∀ img, loadFile arch file = .ok img → ∀ seg ∈ img.segments, Eligible file seg.ph →
    Copied file seg.ph seg.ph.pFilesz.toNat seg.writes
  symbols : ∀ img, loadFile arch file = .ok img → InBounds (decodeSymbols img)

/-- A file is loaded right exactly when all its segments fit and the names of its symbols start in the string table. -/
theorem elf_loads_iff (arch : Arch) (file : HostFile) : LoadsRight arch file.bytes ↔
    ∀ img, loadFile arch file.bytes = .ok img →
      (∀ seg ∈ img.segments, Eligible file.bytes seg.ph → Fits file.bytes seg.ph) ∧ NamesInside img := by
  have hcopied : ∀ img, loadFile arch file.bytes = .ok img → ∀ seg ∈ img.segments, Eligible file.bytes seg.ph →
      (Copied file.bytes seg.ph seg.ph.pFilesz.toNat seg.writes ↔ Fits file.bytes seg.ph) := by
    intro img himg seg hseg he
    have hload : seg.ph.isLoaded = true := by
      have hmemsz : seg.ph.pMemsz ≠ 0#64 := by
        have hle : seg.ph.pFilesz.toNat ≤ seg.ph.pMemsz.toNat := he.memsz
        have hpos := he.pos
        intro hzero
        rw [hzero, BitVec.toNat_ofNat] at hle
        omega
      unfold Phdr.isLoaded
      rw [he.load, bne_iff_ne.mpr hmemsz]
      rfl
    obtain ⟨f, c, hf, hcopy, hwrites⟩ := loadFile_segments himg seg hseg hload
    rw [hwrites]
    exact copySegment_iff he file.length_lt hf hcopy
  constructor
  · intro h img himg
    exact ⟨fun seg hseg he => (hcopied img himg seg hseg he).mp (h.segments img himg seg hseg he),
      (decodeSymbols_inBounds img).mp (h.symbols img himg)⟩
  · intro h
    refine ⟨loadFile_ends arch file.bytes, fun img himg seg hseg he => ?_, fun img himg => ?_⟩
    · exact (hcopied img himg seg hseg he).mpr ((h img himg).1 seg hseg he)
    · exact (decodeSymbols_inBounds img).mpr (h img himg).2

/-- An ELF32 file of a symbol table with one symbol, whose name is at index 2, and a string table of one byte. -/
def farName : File :=
  [0x7f#8, 0x45#8, 0x4c#8, 0x46#8, 1#8, 1#8] ++ List.replicate 10 0#8 ++ [2#8, 0#8, 8#8, 0#8] ++
  List.replicate 12 0#8 ++ [52#8] ++ List.replicate 9 0#8 ++ [32#8, 0#8, 0#8, 0#8, 40#8, 0#8, 2#8, 0#8, 0#8, 0#8] ++
  (List.replicate 4 0#8 ++ [2#8] ++ List.replicate 11 0#8 ++ [132#8, 0#8, 0#8, 0#8, 16#8] ++ List.replicate 19 0#8) ++
  (List.replicate 4 0#8 ++ [3#8] ++ List.replicate 11 0#8 ++ [148#8, 0#8, 0#8, 0#8, 1#8] ++ List.replicate 19 0#8) ++
  ([2#8] ++ List.replicate 15 0#8) ++ [0#8]

/-- The name is read behind the NUL of the table. -/
theorem farName_not_right : ¬ ∀ (arch : Arch) (file : HostFile), LoadsRight arch file.bytes := by
  intro h
  obtain ⟨img, himg, hread⟩ := eval_eq_ok (loadFile .mips farName)
    (fun img => decide (decodeSymbols img).toOption.isNone) true (by decide +kernel)
  have hlen : farName.length < 2 ^ 63 := by decide +kernel
  have hright : LoadsRight .mips farName := h .mips ⟨farName, hlen⟩
  obtain ⟨out, hout⟩ := hright.symbols img himg
  rw [hout] at hread
  cases hread

end Elf

end Gxemul.Loader
