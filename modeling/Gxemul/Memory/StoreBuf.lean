import Mathlib.Tactic.IntervalCases
import Gxemul.Dyntrans.Consistency
import Gxemul.Memory.Data

/- store_buf() (`src/core/memory.c`).

   The buffer is stored in chunks, each aligned to its own size, from 1024 bytes
   down to single bytes. Together the chunks are the bytes of the buffer, in
   order. memory_rw() stores a chunk where its first byte goes: in RAM the others
   go next to it, as a chunk does not leave a page. -/
namespace Gxemul
open Lib (Byte ByteMem)

/-- A call of memory_rw() with MEM_WRITE and CACHE_DATA. -/
structure StoreCall where
  addr : Addr
  data : List Byte
  deriving DecidableEq

def storeByte (addr : Addr) (data : Byte) : StoreCall :=
  let addr := if addr >>> 32 = 0 then (addr.setWidth 32).signExtend 64 else addr
  ⟨addr, [data]⟩

/-- The last loop of store_buf(). -/
def storeBytes : Addr → List Byte → List StoreCall
  | _, [] => []
  | addr, b :: s => storeByte addr b :: storeBytes (addr + 1) s

/-- "while (len >= psize)". What is left is the address and the bytes that come next. `none` is a loop that has not ended
after `fuel` iterations. -/
def storeChunks (psize : Nat) : Nat → Addr → List Byte → Option (List StoreCall × Addr × List Byte)
  | 0, _, _ => none
  | fuel + 1, addr, s =>
    if psize ≤ s.length then do
      let (calls, rest) ← storeChunks psize fuel (addr + BitVec.ofNat 64 psize) (s.drop psize)
      return (⟨addr, s.take psize⟩ :: calls, rest)
    else some ([], addr, s)

/-- "while (len != 0)". -/
def storeBufFrom : Nat → Nat → Addr → List Byte → Option (List StoreCall)
  | 0, _, _, _ => none
  | fuel + 1, psize, addr, s =>
    if s.length = 0 then some (storeBytes addr s)
    else do
      let (calls, addr, s) ←
        if addr &&& (BitVec.ofNat 64 psize - 1) = 0 then storeChunks psize fuel addr s else some ([], addr, s)
      let rest ← storeBufFrom fuel (psize >>> 2) addr s
      return calls ++ rest

/-- `store_buf()`: the calls that it makes. -/
def storeBuf (fuel : Nat) (addr : Addr) (s : List Byte) : Option (List StoreCall) := storeBufFrom fuel 1024 addr s

namespace StoreCall

def byBytes : Addr → List Byte → List StoreCall
  | _, [] => []
  | addr, b :: s => ⟨addr, [b]⟩ :: byBytes (addr + 1) s

/-- A call of a size that store_buf() uses, aligned to it. -/
def Aligned (c : StoreCall) : Prop :=
  ∃ k, k ≤ 5 ∧ c.data.length = 4 ^ k ∧ c.addr.toNat % 4 ^ k = 0

variable (conf : Conf) (env : Addr → Env) (dev : DataEnv) (mem : Memory)

/-- What a call does to host memory. `env v` is what memory_rw() is told about address `v`. -/
def perform (host : ByteMem) (c : StoreCall) : ByteMem :=
  (Cpu.transfer conf (env c.addr) dev ⟨c.addr, c.data.length, true, cacheData⟩ mem host c.data).1

def performAll (calls : List StoreCall) (host : ByteMem) : ByteMem := calls.foldl (perform conf env dev mem) host

end StoreCall

/-! ## The calls -/

namespace StoreCall

theorem byBytes_append (addr : Addr) (s t : List Byte) :
    byBytes addr (s ++ t) = byBytes addr s ++ byBytes (addr + BitVec.ofNat 64 s.length) t := by
  induction s generalizing addr with
  | nil => simp [byBytes]
  | cons b s ih =>
    have hnext : addr + 1 + BitVec.ofNat 64 s.length = addr + BitVec.ofNat 64 (s.length + 1) := by
      rw [Nat.add_comm s.length 1, BitVec.ofNat_add, ← BitVec.add_assoc]
      rfl
    rw [List.cons_append, byBytes, byBytes, ih, hnext]
    rfl

def bytesOf (calls : List StoreCall) : List StoreCall := calls.flatMap fun c => byBytes c.addr c.data

theorem and_mask_eq_zero {k : Nat} (hk : k ≤ 5) (addr : Addr) :
    addr &&& (BitVec.ofNat 64 (4 ^ k) - 1) = 0 ↔ addr.toNat % 4 ^ k = 0 := by
  have hpow : 4 ^ k = 2 ^ (2 * k) := by rw [Nat.pow_mul]
  have hmask : (BitVec.ofNat 64 (4 ^ k) - 1).toNat = 2 ^ (2 * k) - 1 := by
    rw [hpow]
    interval_cases k <;> rfl
  rw [← BitVec.toNat_inj, BitVec.toNat_and, hmask, Nat.and_two_pow_sub_one_eq_mod, hpow]
  rfl

theorem storeChunks_spec {k : Nat} (hk : k ≤ 5) (fuel : Nat) : ∀ (addr : Addr) (s : List Byte), s.length < fuel →
    addr.toNat % 4 ^ k = 0 → ∃ calls addr' s', storeChunks (4 ^ k) fuel addr s = some (calls, addr', s') ∧
      s'.length < 4 ^ k ∧ s'.length ≤ s.length ∧ byBytes addr s = bytesOf calls ++ byBytes addr' s' ∧
      ∀ c ∈ calls, c.Aligned := by
  induction fuel with
  | zero => exact fun _ _ h => absurd h (Nat.not_lt_zero _)
  | succ fuel ih =>
    intro addr s hfuel hal
    unfold storeChunks
    split
    · rename_i hle
      have hdrop : (s.drop (4 ^ k)).length < fuel := by
        rw [List.length_drop]
        omega
      have hnext : (addr + BitVec.ofNat 64 (4 ^ k)).toNat % 4 ^ k = 0 := by
        have hdvd : 4 ^ k ∣ 2 ^ 64 := ⟨2 ^ 64 / 4 ^ k, by interval_cases k <;> rfl⟩
        rw [BitVec.toNat_add, BitVec.toNat_ofNat, Nat.mod_mod_of_dvd _ hdvd, Nat.add_mod, hal,
          Nat.mod_mod_of_dvd _ hdvd, Nat.mod_self]
        rfl
      obtain ⟨calls, addr', s', hok, hlt, hlen, hbytes, hcalls⟩ := ih _ _ hdrop hnext
      rw [hok]
      refine ⟨_, addr', s', rfl, hlt, ?_, ?_, ?_⟩
      · rw [List.length_drop] at hlen
        omega
      · have htake : (s.take (4 ^ k)).length = 4 ^ k := List.length_take_of_le hle
        calc byBytes addr s
            = byBytes addr (s.take (4 ^ k) ++ s.drop (4 ^ k)) := by rw [List.take_append_drop]
          _ = byBytes addr (s.take (4 ^ k)) ++ byBytes (addr + BitVec.ofNat 64 (4 ^ k)) (s.drop (4 ^ k)) := by
              rw [byBytes_append, htake]
          _ = byBytes addr (s.take (4 ^ k)) ++ (bytesOf calls ++ byBytes addr' s') := by rw [hbytes]
          _ = bytesOf (⟨addr, s.take (4 ^ k)⟩ :: calls) ++ byBytes addr' s' := by
              rw [← List.append_assoc]
              rfl
      · intro c hc
        rcases List.mem_cons.mp hc with rfl | hc
        · exact ⟨k, hk, List.length_take_of_le hle, hal⟩
        · exact hcalls c hc
    · rename_i hlt
      exact ⟨[], addr, s, rfl, Nat.lt_of_not_le hlt, Nat.le_refl _, rfl, fun c hc => nomatch hc⟩

theorem storeBufFrom_spec {k : Nat} (hk : k ≤ 5) : ∀ (fuel : Nat) (addr : Addr) (s : List Byte),
    s.length + k + 2 ≤ fuel → ∃ calls, storeBufFrom fuel (4 ^ k) addr s = some calls ∧
      bytesOf calls = byBytes addr s ∧ ∀ c ∈ calls, c.Aligned := by
  induction k with
  | zero =>
    intro fuel addr s hfuel
    obtain ⟨fuel, rfl⟩ : ∃ f, fuel = f + 1 := ⟨fuel - 1, by omega⟩
    unfold storeBufFrom
    split
    · rename_i hnil
      rw [List.length_eq_zero_iff.mp hnil]
      exact ⟨[], rfl, rfl, fun c hc => nomatch hc⟩
    · rw [if_pos ((and_mask_eq_zero hk addr).mpr (Nat.mod_one _))]
      obtain ⟨calls, addr', s', hok, hlt, -, hbytes, hcalls⟩ :=
        storeChunks_spec hk fuel addr s (by omega) (Nat.mod_one _)
      -- nothing is left, so the next iteration is the last
      have hs' : s' = [] := List.length_eq_zero_iff.mp (by omega)
      subst hs'
      obtain ⟨fuel, rfl⟩ : ∃ f, fuel = f + 1 := ⟨fuel - 1, by omega⟩
      refine ⟨calls, ?_, ?_, hcalls⟩
      · rw [hok]
        change some (calls ++ []) = some calls
        rw [List.append_nil]
      · rw [hbytes]
        exact (List.append_nil _).symm
  | succ k ih =>
    intro fuel addr s hfuel
    obtain ⟨fuel, rfl⟩ : ∃ f, fuel = f + 1 := ⟨fuel - 1, by omega⟩
    have hshift : 4 ^ (k + 1) >>> 2 = 4 ^ k := by
      rw [Nat.shiftRight_eq_div_pow, Nat.pow_succ]
      exact Nat.mul_div_cancel _ (by decide)
    unfold storeBufFrom
    split
    · rename_i hnil
      rw [List.length_eq_zero_iff.mp hnil]
      exact ⟨[], rfl, rfl, fun c hc => nomatch hc⟩
    · rw [hshift]
      by_cases hal : addr.toNat % 4 ^ (k + 1) = 0
      · rw [if_pos ((and_mask_eq_zero hk addr).mpr hal)]
        obtain ⟨calls, addr', s', hok, -, hlen, hbytes, hcalls⟩ := storeChunks_spec hk fuel addr s (by omega) hal
        obtain ⟨rest, hrest, hbytes', hcalls'⟩ := ih (by omega) fuel addr' s' (by omega)
        refine ⟨calls ++ rest, ?_, ?_, fun c hc => ?_⟩
        · rw [hok]
          change (storeBufFrom fuel (4 ^ k) addr' s' >>= fun rest => some (calls ++ rest)) = _
          rw [hrest]
          rfl
        · unfold bytesOf at hbytes hbytes' ⊢
          rw [List.flatMap_append, hbytes', hbytes]
        · exact (List.mem_append.mp hc).elim (hcalls c) (hcalls' c)
      · rw [if_neg fun h => hal ((and_mask_eq_zero hk addr).mp h)]
        obtain ⟨rest, hrest, hbytes, hcalls⟩ := ih (by omega) fuel addr s (by omega)
        refine ⟨rest, ?_, hbytes, hcalls⟩
        change (storeBufFrom fuel (4 ^ k) addr s >>= fun rest => some ([] ++ rest)) = _
        rw [hrest]
        rfl

theorem storeBuf_spec (addr : Addr) (s : List Byte) {fuel : Nat} (hfuel : s.length + 7 ≤ fuel) :
    ∃ calls, storeBuf fuel addr s = some calls ∧ bytesOf calls = byBytes addr s ∧ ∀ c ∈ calls, c.Aligned :=
  storeBufFrom_spec (k := 5) (by decide) fuel addr s hfuel

theorem Aligned.page {c : StoreCall} (h : c.Aligned) (a : Arch) {i : Nat} (hi : i < c.data.length) :
    a.pageAddr (c.addr + BitVec.ofNat 64 i) = a.pageAddr c.addr ∧
      ((c.addr + BitVec.ofNat 64 i) &&& a.offsetMask).toNat = (c.addr &&& a.offsetMask).toNat + i := by
  obtain ⟨k, hk, hlen, hal⟩ := h
  have hsize := a.pageSize_cases
  have hmod : ∀ v : Addr, (v &&& a.offsetMask).toNat = v.toNat % 2 ^ a.pageShift := fun v => by
    rw [BitVec.toNat_and, a.toNat_offsetMask, Nat.and_two_pow_sub_one_eq_mod]
  -- the bytes of the call have the same quotient by its size, and so by the size of a page
  have hadd : (c.addr + BitVec.ofNat 64 i).toNat = c.addr.toNat + i := by
    rw [BitVec.toNat_add, BitVec.toNat_ofNat]
    interval_cases k <;> omega
  have hdiv : (c.addr.toNat + i) / 2 ^ a.pageShift = c.addr.toNat / 2 ^ a.pageShift := by
    rcases hsize with hs | hs <;> rw [hs] <;> interval_cases k <;> omega
  refine ⟨BitVec.eq_of_toNat_eq ?_, ?_⟩
  · rw [a.toNat_pageAddr, a.toNat_pageAddr, hadd, hdiv]
  · rw [hmod, hmod, hadd]
    rcases hsize with hs | hs <;> rw [hs] at hdiv ⊢ <;> omega

theorem mem_byBytes {c : StoreCall} {addr : Addr} {s : List Byte} (h : c ∈ byBytes addr s) :
    ∃ i, i < s.length ∧ c.addr = addr + BitVec.ofNat 64 i := by
  induction s generalizing addr with
  | nil => cases h
  | cons b s ih =>
    rcases List.mem_cons.mp h with rfl | h
    · exact ⟨0, Nat.zero_lt_succ _, (BitVec.add_zero addr).symm⟩
    · obtain ⟨i, hi, hc⟩ := ih h
      refine ⟨i + 1, Nat.succ_lt_succ hi, ?_⟩
      rw [hc, Nat.add_comm i 1, BitVec.ofNat_add, ← BitVec.add_assoc]
      rfl

theorem byBytes_mem (addr : Addr) (s : List Byte) {i : Nat} (hi : i < s.length) :
    ∃ c ∈ byBytes addr s, c.addr = addr + BitVec.ofNat 64 i := by
  induction s generalizing addr i with
  | nil => cases hi
  | cons b s ih =>
    cases i with
    | zero => exact ⟨_, List.mem_cons_self, (BitVec.add_zero addr).symm⟩
    | succ i =>
      obtain ⟨c, hc, haddr⟩ := ih (addr + 1) (Nat.lt_of_succ_lt_succ hi)
      refine ⟨c, List.mem_cons_of_mem _ hc, ?_⟩
      rw [haddr, Nat.add_comm i 1, BitVec.ofNat_add, ← BitVec.add_assoc]
      rfl

end StoreCall

/-! ## Host memory -/

/-- The byte at `v` is RAM: there is no exception, no device, and no isolated cache. `pages` is the mapping of virtual
pages to physical pages, and `hostPages` that of physical pages to host memory. -/
structure InRam (conf : Conf) (env : Addr → Env) (mem : Memory) (pages : Addr → Addr) (hostPages : Addr → Nat)
    (v : Addr) : Prop where
  aligned : conf.arch.Aligned (pages (conf.arch.pageAddr v))
  translated : ∃ ok, (env v).translateV2p = some (pages (conf.arch.pageAddr v) + (v &&& conf.arch.offsetMask), ok)
  noDevice : mem.deviceFor (pages (conf.arch.pageAddr v) + (v &&& conf.arch.offsetMask)) = none
  uncached : (env v).cacheR3000 = false
  inside : (env v).outsideRam (pages (conf.arch.pageAddr v) + (v &&& conf.arch.offsetMask)) = false
  host : (env v).hostWrite (pages (conf.arch.pageAddr v)) = hostPages (pages (conf.arch.pageAddr v))

/-- Where the byte at `v` is in the host. -/
def hostAddrOf (conf : Conf) (pages : Addr → Addr) (hostPages : Addr → Nat) (v : Addr) : Nat :=
  hostPages (pages (conf.arch.pageAddr v)) + (v &&& conf.arch.offsetMask).toNat

namespace StoreCall
variable {conf : Conf} {env : Addr → Env} {dev : DataEnv} {mem : Memory} {pages : Addr → Addr} {hostPages : Addr → Nat}

theorem perform_ram {c : StoreCall} (h : InRam conf env mem pages hostPages c.addr) (host : ByteMem) :
    c.perform conf env dev mem host = host.write (hostAddrOf conf pages hostPages c.addr) c.data := by
  obtain ⟨ok, hok⟩ := h.translated
  obtain ⟨hpage, hmod⟩ := conf.arch.pageAddr_add h.aligned c.addr
  have hphys : (env c.addr).physicalAddress ⟨c.addr, c.data.length, true, cacheData⟩ =
      some (pages (conf.arch.pageAddr c.addr) + (c.addr &&& conf.arch.offsetMask), ok) := by
    rw [← hok]
    exact if_neg (show ¬ hasFlag cacheData physicalFlag = true by decide)
  have hserved : (env c.addr).servedByCache ⟨c.addr, c.data.length, true, cacheData⟩ = false := by
    unfold Env.servedByCache
    rw [h.uncached, Bool.and_false]
  have hhost : (env c.addr).hostaddr
      (conf.arch.pageAddr (pages (conf.arch.pageAddr c.addr) + (c.addr &&& conf.arch.offsetMask))) true =
        some (hostPages (pages (conf.arch.pageAddr c.addr))) := by
    rw [hpage, ← h.host]
    rfl
  have hoffset : ((pages (conf.arch.pageAddr c.addr) + (c.addr &&& conf.arch.offsetMask)) &&& conf.arch.offsetMask).toNat =
      (c.addr &&& conf.arch.offsetMask).toNat := by
    rw [BitVec.toNat_and, BitVec.toNat_and, conf.arch.toNat_offsetMask, Nat.and_two_pow_sub_one_eq_mod, hmod,
      Nat.and_two_pow_sub_one_eq_mod]
  have hacc := @Cpu.accesses_ram conf (env c.addr) dev ⟨c.addr, c.data.length, true, cacheData⟩ mem _ _ _ hphys
    h.noDevice hserved h.inside hhost host c.data rfl
  unfold perform
  rw [hacc, hoffset]
  rfl

theorem performAll_byBytes {p : Nat} (s : List Byte) : ∀ (addr : Addr) (host : ByteMem),
    (∀ c ∈ byBytes addr s, InRam conf env mem pages hostPages c.addr) →
    (∀ i, i < s.length → hostAddrOf conf pages hostPages (addr + BitVec.ofNat 64 i) = p + i) →
    performAll conf env dev mem (byBytes addr s) host = host.write p s := by
  induction s generalizing p with
  | nil =>
    intro addr host _ _
    funext a
    unfold ByteMem.write
    split <;> rfl
  | cons b s ih =>
    intro addr host hram hplace
    have hfirst : perform conf env dev mem host ⟨addr, [b]⟩ = host.write (hostAddrOf conf pages hostPages addr) [b] :=
      perform_ram (hram ⟨addr, [b]⟩ List.mem_cons_self) host
    have hp : hostAddrOf conf pages hostPages addr = p := by
      have h0 := hplace 0 (Nat.zero_lt_succ _)
      rwa [BitVec.add_zero] at h0
    have hrest := ih (p := p + 1) (addr + 1) (host.write p [b]) (fun c hc => hram c (List.mem_cons_of_mem _ hc))
      fun i hi => by
        have hi' := hplace (i + 1) (Nat.succ_lt_succ hi)
        rw [Nat.add_comm i 1, BitVec.ofNat_add, ← BitVec.add_assoc] at hi'
        rw [Nat.add_assoc]
        exact hi'
    rw [ByteMem.write_cons, ← hrest, ← hp, ← hfirst]
    rfl

theorem performAll_bytesOf : ∀ (calls : List StoreCall) (host : ByteMem), (∀ c ∈ calls, c.Aligned) →
    (∀ c ∈ bytesOf calls, InRam conf env mem pages hostPages c.addr) →
    performAll conf env dev mem calls host = performAll conf env dev mem (bytesOf calls) host := by
  intro calls
  induction calls with
  | nil => exact fun _ _ _ => rfl
  | cons c calls ih =>
    intro host hal hram
    have hbytes : ∀ x ∈ byBytes c.addr c.data, InRam conf env mem pages hostPages x.addr := fun x hx =>
      hram x (List.mem_append_left _ hx)
    have hplace : ∀ i, i < c.data.length → hostAddrOf conf pages hostPages (c.addr + BitVec.ofNat 64 i) =
        hostAddrOf conf pages hostPages c.addr + i := by
      intro i hi
      obtain ⟨hpage, hoffset⟩ := (hal c List.mem_cons_self).page conf.arch hi
      unfold hostAddrOf
      rw [hpage, hoffset, Nat.add_assoc]
    have hne : 0 < c.data.length := by
      obtain ⟨k, -, hlen, -⟩ := hal c List.mem_cons_self
      rw [hlen]
      exact Nat.pow_pos (by decide)
    have hfirst : InRam conf env mem pages hostPages c.addr := by
      obtain ⟨x, hx, haddr⟩ := byBytes_mem c.addr c.data hne
      rw [BitVec.add_zero] at haddr
      rw [← haddr]
      exact hbytes x hx
    have hcall : c.perform conf env dev mem host = performAll conf env dev mem (byBytes c.addr c.data) host := by
      rw [perform_ram hfirst, performAll_byBytes c.data c.addr host hbytes hplace]
    have hrest := ih (c.perform conf env dev mem host) (fun x hx => hal x (List.mem_cons_of_mem _ hx))
      fun x hx => hram x (List.mem_append_right _ hx)
    calc performAll conf env dev mem (c :: calls) host
        = performAll conf env dev mem (bytesOf calls) (c.perform conf env dev mem host) := hrest
      _ = performAll conf env dev mem (bytesOf calls)
            (performAll conf env dev mem (byBytes c.addr c.data) host) := by rw [hcall]
      _ = performAll conf env dev mem (bytesOf (c :: calls)) host := by
          unfold performAll bytesOf
          rw [List.flatMap_cons, List.foldl_append]

theorem performAll_other {q : Nat} : ∀ (s : List Byte) (addr : Addr) (host : ByteMem),
    (∀ c ∈ byBytes addr s, InRam conf env mem pages hostPages c.addr ∧ q ≠ hostAddrOf conf pages hostPages c.addr) →
    performAll conf env dev mem (byBytes addr s) host q = host q := by
  intro s
  induction s with
  | nil => exact fun _ _ _ => rfl
  | cons b s ih =>
    intro addr host h
    obtain ⟨hram, hq⟩ := h ⟨addr, [b]⟩ List.mem_cons_self
    have hrest := ih (addr + 1) (perform conf env dev mem host ⟨addr, [b]⟩) fun c hc => h c (List.mem_cons_of_mem _ hc)
    refine hrest.trans ?_
    rw [perform_ram hram]
    refine ByteMem.write_other host ?_
    change q ≠ hostAddrOf conf pages hostPages addr at hq
    change q < hostAddrOf conf pages hostPages addr ∨ hostAddrOf conf pages hostPages addr + 1 ≤ q
    omega

end StoreCall

/-- store_buf() ends. The calls it makes are aligned to their sizes, do not leave a page, and are the bytes of the buffer
in order. In RAM they do what storing the bytes one at a time does, and nothing else. -/
theorem storeBuf_bytes (addr : Addr) (s : List Byte) {fuel : Nat} (hfuel : s.length + 7 ≤ fuel) :
    ∃ calls, storeBuf fuel addr s = some calls ∧ StoreCall.bytesOf calls = StoreCall.byBytes addr s ∧
      (∀ c ∈ calls, c.Aligned ∧ ∀ (a : Arch) (i : Nat), i < c.data.length →
        a.pageAddr (c.addr + BitVec.ofNat 64 i) = a.pageAddr c.addr) ∧
      ∀ conf env dev mem pages hostPages,
        (∀ i, i < s.length → InRam conf env mem pages hostPages (addr + BitVec.ofNat 64 i)) →
        ∀ host, StoreCall.performAll conf env dev mem calls host =
            StoreCall.performAll conf env dev mem (StoreCall.byBytes addr s) host ∧
          ∀ q, (∀ i, i < s.length → q ≠ hostAddrOf conf pages hostPages (addr + BitVec.ofNat 64 i)) →
            StoreCall.performAll conf env dev mem calls host q = host q := by
  obtain ⟨calls, hok, hbytes, hal⟩ := StoreCall.storeBuf_spec addr s hfuel
  refine ⟨calls, hok, hbytes, fun c hc => ⟨hal c hc, fun a i hi => ((hal c hc).page a hi).1⟩, ?_⟩
  intro conf env dev mem pages hostPages hram host
  have hmem : ∀ c ∈ StoreCall.byBytes addr s, InRam conf env mem pages hostPages c.addr := by
    intro c hc
    obtain ⟨i, hi, haddr⟩ := StoreCall.mem_byBytes hc
    rw [haddr]
    exact hram i hi
  have hsame : StoreCall.performAll conf env dev mem calls host =
      StoreCall.performAll conf env dev mem (StoreCall.bytesOf calls) host :=
    StoreCall.performAll_bytesOf calls host hal (hbytes ▸ hmem)
  rw [hbytes] at hsame
  refine ⟨hsame, fun q hq => ?_⟩
  rw [hsame]
  refine StoreCall.performAll_other s addr host fun c hc => ⟨hmem c hc, ?_⟩
  obtain ⟨i, hi, haddr⟩ := StoreCall.mem_byBytes hc
  rw [haddr]
  exact hq i hi

/-- Six bytes across the end of a page, on an R4000 without devices. -/
theorem storeBuf_bytes_r4000 : ∃ calls, storeBuf 13 0x1ffe#64 [1, 2, 3, 4, 5, 6] = some calls ∧
    ∀ dev host, StoreCall.performAll mips64 Env.r4000 dev Memory.init calls host =
      StoreCall.performAll mips64 Env.r4000 dev Memory.init (StoreCall.byBytes 0x1ffe#64 [1, 2, 3, 4, 5, 6]) host := by
  have hfuel : ([1, 2, 3, 4, 5, 6] : List Byte).length + 7 ≤ 13 := by decide
  obtain ⟨calls, hok, -, -, hram⟩ := storeBuf_bytes 0x1ffe#64 [1, 2, 3, 4, 5, 6] hfuel
  refine ⟨calls, hok, fun dev host => (hram mips64 Env.r4000 dev Memory.init id BitVec.toNat (fun i hi => ?_) host).1⟩
  have hlt : i < 6 := hi
  refine ⟨Arch.aligned_pageAddr _ _, ⟨2, ?_⟩, ?_, rfl, ?_, rfl⟩ <;> interval_cases i <;> rfl

def oneByteDevice : Memory where
  nMmappedDevices := 1
  devices _ := ⟨0x1000#64, 0x1001#64, 1, 0, 0, 0xffffffffffffffff#64, 0, 1, 0⟩
  lastAccessedDevice := 0
  mmapDevMinaddr := 0x1000#64
  mmapDevMaxaddr := 0x2000#64

/-- Four bytes that are stored at the device are one call, which is the device's: the three bytes of RAM after the
device are not written. -/
theorem not_storeBuf_bytes_of_device :
    ¬ ∀ conf env dev mem addr s fuel calls host, storeBuf fuel addr s = some calls →
      StoreCall.performAll conf env dev mem calls host =
        StoreCall.performAll conf env dev mem (StoreCall.byBytes addr s) host := by
  intro h
  have hbyte := congrFun (h mips64 Env.r4000 ⟨fun _ _ _ _ host data => (host, data), fun _ _ _ host data => (host, data)⟩
    oneByteDevice 0x1000#64 [1, 2, 3, 4] 11 [⟨0x1000#64, [1, 2, 3, 4]⟩] (fun _ => 0) (by decide)) 0x1001
  exact absurd hbyte (by decide)

end Gxemul
