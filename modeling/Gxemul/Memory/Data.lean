import Gxemul.Lib.Bytes
import Gxemul.Memory.MemoryRw

/- The data of memory accesses: what memory_rw() (`src/cpus/memory_rw.c`) copies,
   and memory_readmax64() and memory_writemax64() (`src/core/memory.c`).

   Host memory is a memory of bytes. -/
namespace Gxemul
open Lib (Byte ByteMem leValue value leBytes bytes)

/-! ## Numbers in a buffer -/

/-- The loops of memory_readmax64(), over the bytes in the order in which they are added. -/
def readmaxLoop (l : List Byte) : BitVec 64 := l.foldl (fun x b => (x <<< 8) ||| b.setWidth 64) 0

/-- `memory_readmax64()`. `len` is the length of the buffer. -/
def memoryReadmax64 (big : Bool) (buf : List Byte) : BitVec 64 :=
  if big then readmaxLoop buf else readmaxLoop buf.reverse

/-- The loops of memory_writemax64(): the bytes in the order in which they are taken off. -/
def writemaxLoop : Nat → BitVec 64 → List Byte
  | 0, _ => []
  | len + 1, data => (data &&& 255#64).setWidth 8 :: writemaxLoop len (data >>> 8)

def memoryWritemax64 (big : Bool) (len : Nat) (data : BitVec 64) : List Byte :=
  if big then (writemaxLoop len data).reverse else writemaxLoop len data

theorem shift_or (x : BitVec 64) (b : Byte) : ((x <<< 8) ||| b.setWidth 64).toNat = (x.toNat * 256 + b.toNat) % 2 ^ 64 := by
  have hdisj : (x <<< 8) &&& b.setWidth 64 = 0#64 := by
    apply BitVec.eq_of_getLsbD_eq
    intro i hi
    by_cases hlt : i < 8
    · simp [hlt]
    · simp [BitVec.getLsbD_of_ge b i (by omega)]
  rw [← BitVec.add_eq_or_of_and_eq_zero _ _ hdisj, BitVec.toNat_add, BitVec.toNat_shiftLeft, BitVec.toNat_setWidth,
    Nat.shiftLeft_eq]
  omega

theorem readmaxLoop_append (l : List Byte) (b : Byte) :
    readmaxLoop (l ++ [b]) = (readmaxLoop l <<< 8) ||| b.setWidth 64 := by
  simp [readmaxLoop]

theorem toNat_readmaxLoop (l : List Byte) : (readmaxLoop l.reverse).toNat = leValue l % 2 ^ 64 := by
  induction l with
  | nil => rfl
  | cons b l ih =>
    rw [List.reverse_cons, readmaxLoop_append, shift_or, ih, leValue]
    omega

theorem memoryReadmax64_eq (big : Bool) (buf : List Byte) :
    memoryReadmax64 big buf = BitVec.ofNat 64 (value big buf) := by
  apply BitVec.eq_of_toNat_eq
  rw [BitVec.toNat_ofNat]
  cases big with
  | false => exact toNat_readmaxLoop buf
  | true =>
    have := toNat_readmaxLoop buf.reverse
    rwa [List.reverse_reverse] at this

theorem writemaxLoop_eq (len : Nat) (data : BitVec 64) : writemaxLoop len data = leBytes len data.toNat := by
  induction len generalizing data with
  | zero => rfl
  | succ len ih =>
    rw [writemaxLoop, leBytes, ih]
    congr 1
    · apply BitVec.eq_of_toNat_eq
      have hmask : data.toNat &&& 255 = data.toNat % 2 ^ 8 := Nat.and_two_pow_sub_one_eq_mod data.toNat 8
      rw [BitVec.toNat_setWidth, BitVec.toNat_and, BitVec.toNat_ofNat, BitVec.toNat_ofNat]
      show (data.toNat &&& 255) % 2 ^ 8 = data.toNat % 2 ^ 8
      omega
    · rw [BitVec.toNat_ushiftRight, Nat.shiftRight_eq_div_pow]

theorem memoryWritemax64_eq (big : Bool) (len : Nat) (data : BitVec 64) :
    memoryWritemax64 big len data = bytes big len data.toNat := by
  unfold memoryWritemax64 bytes
  rw [writemaxLoop_eq]

/-! ## The data of memory_rw() -/

/-- What the functions of the devices, and memory_cache_R3000(), do with host memory
and the data of an access. They are given an address, the length and the direction. -/
structure DataEnv where
  device : Nat → Addr → Nat → Bool → ByteMem → List Byte → ByteMem × List Byte
  cacheR3000 : Addr → Nat → Bool → ByteMem → List Byte → ByteMem × List Byte

/-- The two calls of memcpy(), with host address `p`. -/
def Access.copy (a : Access) (p : Nat) (host : ByteMem) (data : List Byte) : ByteMem × List Byte :=
  if a.write then (host.write p data, data) else (host, host.read p a.len)

/-- "Return all zeroes?" -/
def Access.zeroes (a : Access) (host : ByteMem) (data : List Byte) : ByteMem × List Byte :=
  (host, if a.write then data else List.replicate a.len 0)

/-- What memory_rw() does with host memory and with its buffer. -/
def Cpu.transfer (conf : Conf) (env : Env) (dev : DataEnv) (a : Access) (mem : Memory) (host : ByteMem)
    (data : List Byte) : ByteMem × List Byte :=
  match env.physicalAddress a with
  | none => (host, data)
  | some (paddr, _) =>
    match mem.deviceFor paddr with
    | some i =>
      let d := mem.devices i
      let ofs := paddr - d.baseaddr
      let len := if d.length < ofs + BitVec.ofNat 64 a.len then (d.length - ofs).toNat else a.len
      if !a.noExceptions || hasFlag d.flags dmReadsHaveNoSideEffects then dev.device d.f ofs len a.write host data
      else (host, data)
    | none =>
      if env.servedByCache a then dev.cacheR3000 paddr a.len a.write host data
      else if env.outsideRam paddr then a.zeroes host data
      else
        match env.hostaddr (conf.arch.pageAddr paddr) a.write with
        | none => a.zeroes host data
        | some memblock => a.copy (memblock + (paddr &&& conf.arch.offsetMask).toNat) host data

/-- memory_rw() accesses the host bytes from `p` on. -/
def Cpu.Accesses (conf : Conf) (env : Env) (dev : DataEnv) (a : Access) (mem : Memory) (p : Nat) : Prop :=
  ∀ host data, data.length = a.len → Cpu.transfer conf env dev a mem host data = a.copy p host data

theorem Cpu.accesses_ram {conf : Conf} {env : Env} {dev : DataEnv} {a : Access} {mem : Memory} {paddr : Addr}
    {ok memblock : Nat} (hp : env.physicalAddress a = some (paddr, ok)) (hd : mem.deviceFor paddr = none)
    (hc : env.servedByCache a = false) (ho : env.outsideRam paddr = false)
    (hm : env.hostaddr (conf.arch.pageAddr paddr) a.write = some memblock) :
    Cpu.Accesses conf env dev a mem (memblock + (paddr &&& conf.arch.offsetMask).toNat) := by
  intro host data _
  unfold Cpu.transfer
  simp [hp, hd, hc, ho, hm]

theorem Cpu.memoryRw_ram {conf : Conf} {env : Env} {a : Access} {mem : Memory} {c : Cpu} {paddr : Addr}
    {ok memblock : Nat} (hgood : c.tables.Good conf.arch)
    (hbelow : c.tables.mode = .mode32 → conf.arch.pageAddr paddr ≤ 0xffffffff#64)
    (hp : env.physicalAddress a = some (paddr, ok)) (hd : mem.deviceFor paddr = none)
    (hc : env.servedByCache a = false) (ho : env.outsideRam paddr = false)
    (hm : env.hostaddr (conf.arch.pageAddr paddr) a.write = some memblock)
    (hblock : paddr.toNat % memblockSize + a.len ≤ memblockSize) :
    ∃ c', c.memoryRw conf env a mem = .ok (c', mem, true) := by
  have hupdate : ∃ c1, c.updateForRam conf env a paddr ok memblock = .ok c1 ∧ c1.tables.Good conf.arch := by
    unfold updateForRam
    split
    · have hlegal : (TableOp.update (conf.arch.pageAddr a.vaddr) memblock (ramWriteflag a ok)
          (conf.arch.pageAddr paddr)).Legal conf.arch c.tables.mode :=
        ⟨conf.arch.aligned_pageAddr _, conf.arch.aligned_pageAddr _, hbelow⟩
      obtain ⟨c1, hok, hg, -⟩ := tableStep_spec hgood hlegal
      exact ⟨c1, hok, hg⟩
    · exact ⟨c, rfl, hgood⟩
  obtain ⟨c1, hok1, hg1⟩ := hupdate
  have hinvalidate : ∃ c2, c1.invalidateCodeForRam conf a paddr ok = .ok c2 := by
    unfold invalidateCodeForRam
    split
    · obtain ⟨c2, hok, -⟩ := tableStep_spec (o := .invalidateCode paddr invalidatePaddr) hg1 trivial
      exact ⟨c2, hok⟩
    · exact ⟨c1, rfl⟩
  obtain ⟨c2, hok2⟩ := hinvalidate
  refine ⟨c2, ?_⟩
  have hram : c.ramAccess conf env a paddr ok = .ok c2 := by
    unfold ramAccess
    rw [hm]
    show (c.updateForRam conf env a paddr ok memblock >>= _) = _
    rw [hok1]
    show (c1.invalidateCodeForRam conf a paddr ok >>= _) = _
    rw [hok2]
    show (if memblockSize < paddr.toNat % memblockSize + a.len then _ else _) = _
    rw [if_neg (by omega)]
    rfl
  unfold memoryRw
  rw [hp]
  dsimp only
  rw [hd]
  rw [hc, ho, hram]
  rfl

end Gxemul
