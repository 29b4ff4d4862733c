import Gxemul.Lib.Masks
import Gxemul.Ppc.LoadStoreAgree

/- lmw, stmw, lswi and stswi are runs of accesses, of a word or of a byte each, and what has
   been stored is loaded again.

   An access is translated once. The bytes of a string are accessed where they should be, and
   those of a word that is on two pages if the second page follows the first one in memory,
   too. -/
namespace Gxemul.Ppc

open Lib
open Mips (LsSize)

section
variable {ρ : Type} (M : MemorySystem ρ)

/-! ## One access -/

namespace LsMachine
variable {M} {m : LsMachine ρ} {w : Bool} {a : Addr} {data : List Byte} {p : Nat}

theorem memoryRw_raise (hp : M.translate m.rest m.mem w a = none) :
    m.memoryRw M w a data = ({ m with cpu := M.raise m.rest m.mem w a m.cpu }, none, .failed) := by
  unfold memoryRw
  rw [hp]

theorem memoryRw_fail (hp : M.translate m.rest m.mem w a = some p) (hok : (M.access m.rest m.mem w p data).ok = false) :
    let r := M.access m.rest m.mem w p data
    m.memoryRw M w a data =
      ({ m with mem := r.mem, rest := r.rest, running := m.running && r.running }, none, .failed) := by
  unfold memoryRw
  rw [hp]
  dsimp only
  rw [hok, if_neg (by decide)]

theorem memoryRw_done (hp : M.translate m.rest m.mem w a = some p) (hok : (M.access m.rest m.mem w p data).ok = true) :
    let r := M.access m.rest m.mem w p data
    m.memoryRw M w a data =
      ({ m with mem := r.mem, rest := r.rest, running := m.running && r.running }, some r.data,
        .access w a p (if w then data else r.data) (m.own M w a data.length)) := by
  unfold memoryRw
  rw [hp]
  dsimp only
  rw [hok, if_pos rfl]

end LsMachine

theorem ownBytes_nil : OwnBytes [] := ⟨by simp, by simp⟩

theorem ownBytes_failed : OwnBytes [.failed] := ⟨by simp, by simp⟩

theorem ownBytes_cons_access {w : Bool} {a : Addr} {p : Nat} {data : List Byte} {own : List (Option Nat)}
    {l : List LsEvent} : OwnBytes (.access w a p data own :: l) ↔
      own = ((List.range data.length).map fun k => some (p + k)) ∧ OwnBytes l := by
  constructor
  · intro h
    exact ⟨h.own _ _ _ _ _ List.mem_cons_self, fun hmem => h.completes (List.mem_cons_of_mem _ hmem),
      fun w a p data own hmem => h.own w a p data own (List.mem_cons_of_mem _ hmem)⟩
  · rintro ⟨hown, h⟩
    refine ⟨fun hmem => ?_, fun w' a' p' data' own' hmem => ?_⟩
    · rcases List.mem_cons.mp hmem with hmem | hmem
      · cases hmem
      · exact h.completes hmem
    · rcases List.mem_cons.mp hmem with heq | hmem
      · cases heq
        exact hown
      · exact h.own _ _ _ _ _ hmem

/-! ## Runs of accesses -/

def LsEvent.place : LsEvent → Option (Nat × List Byte)
  | .access _ _ p data _ => some (p, data)
  | _ => none

def Completed (events : List LsEvent) : Prop := ∀ e ∈ events, e.place.isSome = true

def places (events : List LsEvent) : List (Nat × List Byte) := events.filterMap LsEvent.place

theorem completed_cons {e : LsEvent} {l : List LsEvent} : Completed (e :: l) ↔ e.place.isSome = true ∧ Completed l :=
  List.forall_mem_cons

def MemorySystem.Ram (M : MemorySystem ρ) (p n : Nat) : Prop :=
  ∀ rest mem w data, data.length = n → M.IsRam rest mem w p data

/-- Consecutive operands of `len` bytes, from the address `a` on. Translation keeps the offset in a page. -/
def Placed (c : PpcCpu) (len : Nat) : Addr → List (Nat × List Byte) → Prop
  | _, [] => True
  | a, x :: l => x.1 % 4096 = a.toNat % 4096 ∧ x.2.length = len ∧ Placed c len (c.modeUint (a + BitVec.ofNat 64 len)) l

theorem placed_getElem {c : PpcCpu} {len : Nat} {a : Addr} {l : List (Nat × List Byte)} (h : Placed c len a l) {k : Nat}
    (hk : k < l.length) : l[k].1 % 4096 = (a.toNat + len * k) % 4096 ∧ l[k].2.length = len := by
  induction l generalizing a k with
  | nil => cases hk
  | cons x l ih =>
    obtain ⟨hofs, hlen, hrest⟩ := h
    cases k with
    | zero => exact ⟨by simpa using hofs, hlen⟩
    | succ k =>
      obtain ⟨hofs', hlen'⟩ := ih hrest (Nat.lt_of_succ_lt_succ hk)
      refine ⟨?_, hlen'⟩
      have hnext := PpcCpu.toNat_byteAddr (c := c) (a := a) (k := len)
      unfold PpcCpu.byteAddr at hnext
      have hmod : (c.modeUint (a + BitVec.ofNat 64 len)).toNat % 4096 = (a.toNat + len) % 4096 := by
        rw [hnext]
        rcases c.space_cases with hs | hs
        · rw [hs]
          omega
        · rw [hs]
          omega
      rw [List.getElem_cons_succ, hofs', Nat.add_mod, hmod, ← Nat.add_mod, Nat.mul_succ]
      congr 1
      omega

theorem placed_apart {c : PpcCpu} {len : Nat} {a : Addr} {l : List (Nat × List Byte)} (h : Placed c len a l)
    (hsize : len * l.length ≤ 4096) :
    l.Pairwise fun x y => x.1 + x.2.length ≤ y.1 ∨ y.1 + y.2.length ≤ x.1 := by
  rw [List.pairwise_iff_getElem]
  intro i j hi hj hij
  obtain ⟨hofs, hl⟩ := placed_getElem h hi
  obtain ⟨hofs', hl'⟩ := placed_getElem h hj
  rw [hl, hl']
  have hgap : len * i + len ≤ len * j := by
    rw [← Nat.mul_succ]
    exact Nat.mul_le_mul_left len hij
  have hend : len * j + len ≤ 4096 := by
    rw [← Nat.mul_succ]
    exact (Nat.mul_le_mul_left len hj).trans hsize
  generalize len * i = u at *
  generalize len * j = v at *
  omega

theorem read_stored {c : PpcCpu} {len : Nat} {a : Addr} {l : List (Nat × List Byte)} (h : Placed c len a l)
    (hlen : 0 < len) (hsize : len * l.length ≤ 4096) (mem : ByteMem) {x : Nat × List Byte} (hx : x ∈ l) :
    (mem.writeAll Prod.fst Prod.snd l).read x.1 len = x.2 := by
  have hpair := placed_apart h hsize
  have hl {y : Nat × List Byte} (hy : y ∈ l) : y.2.length = len := by
    obtain ⟨k, hk, rfl⟩ := List.getElem_of_mem hy
    exact (placed_getElem h hk).2
  have hapart : ByteMem.Apart Prod.fst Prod.snd l := by
    intro y hy z hz hne
    have hsymm : Std.Symm fun x y : Nat × List Byte => x.1 + x.2.length ≤ y.1 ∨ y.1 + y.2.length ≤ x.1 := ⟨fun _ _ => Or.symm⟩
    exact hpair.forall hy hz hne
  have hnodup : l.Nodup := by
    refine hpair.imp_of_mem fun hy hz hor heq => ?_
    subst heq
    rw [hl hy] at hor
    omega
  have hread := ByteMem.read_writeAll mem hnodup hapart hx
  rwa [hl hx] at hread

structure RunStep (len : Nat) where
  buf : List Byte
  put : List Byte → PpcCpu → PpcCpu
  length_buf : buf.length = len
  is32bit_put : ∀ data c, (put data c).is32bit = c.is32bit

def accessRun (w : Bool) {len : Nat} : List (RunStep len) → Addr → LsMachine ρ → LsMachine ρ × List LsEvent
  | [], _, m => (m, [])
  | s :: l, a, m =>
    match m.memoryRw M w a s.buf with
    | (m, none, e) => (m, [e])
    | (m, some data, e) =>
      let m := { m with cpu := s.put data m.cpu }
      let r := accessRun w l (m.cpu.modeUint (a + BitVec.ofNat 64 len)) m
      (r.1, e :: r.2)

/-- The operands, as far as the run gets, are each on one page or on physical pages that follow each other. -/
def MemorySystem.RunContiguous (c : PpcCpu) (w : Bool) {len : Nat} : List (RunStep len) → Addr → ρ → ByteMem → Prop
  | [], _, _, _ => True
  | s :: l, a, rest, mem => ∀ p, M.translate rest mem w a = some p →
    let r := M.access rest mem w p s.buf
    r.ok = true → M.Contiguous c rest mem w a len ∧
      MemorySystem.RunContiguous c w l (c.modeUint (a + BitVec.ofNat 64 len)) r.rest r.mem

section
variable {M} {c c' : PpcCpu} {w : Bool} {len : Nat} {l : List (RunStep len)} {a : Addr} {m : LsMachine ρ}

theorem modeUint_congr (h : c.is32bit = c'.is32bit) (x : Reg) : c.modeUint x = c'.modeUint x := by
  unfold PpcCpu.modeUint
  rw [h]

theorem runContiguous_congr (h : c.is32bit = c'.is32bit) (rest : ρ) (mem : ByteMem) :
    M.RunContiguous c w l a rest mem ↔ M.RunContiguous c' w l a rest mem := by
  induction l generalizing a rest mem with
  | nil => rfl
  | cons s l ih =>
    have hcont : M.Contiguous c rest mem w a len ↔ M.Contiguous c' rest mem w a len := by
      unfold MemorySystem.Contiguous PpcCpu.byteAddr
      rw [modeUint_congr h]
    unfold MemorySystem.RunContiguous
    dsimp only
    simp only [hcont, modeUint_congr h, ih]

theorem accessRun_own_iff (ha : a.toNat < m.cpu.space) (hlen : len ≤ 4096) :
    OwnBytes (accessRun M w l a m).2 ↔ M.RunContiguous m.cpu w l a m.rest m.mem := by
  induction l generalizing a m with
  | nil => exact iff_of_true ownBytes_nil trivial
  | cons s l ih =>
    unfold accessRun MemorySystem.RunContiguous
    dsimp only
    cases hp : M.translate m.rest m.mem w a with
    | none =>
      rw [LsMachine.memoryRw_raise hp]
      apply iff_of_true ownBytes_failed
      intro p h
      cases h
    | some p =>
      cases hok : (M.access m.rest m.mem w p s.buf).ok with
      | false =>
        rw [LsMachine.memoryRw_fail hp hok]
        apply iff_of_true ownBytes_failed
        intro p' h
        cases h
        intro h
        exact absurd (hok.symm.trans h) (by decide)
      | true =>
        have hdata : (if w then s.buf else (M.access m.rest m.mem w p s.buf).data).length = len := by
          split
          · exact s.length_buf
          · rw [M.length_access, s.length_buf]
        let r := M.access m.rest m.mem w p s.buf
        let m' : LsMachine ρ :=
          { m with cpu := s.put r.data m.cpu, mem := r.mem, rest := r.rest, running := m.running && r.running }
        have hmode : m'.cpu.is32bit = m.cpu.is32bit := s.is32bit_put r.data m.cpu
        have hrest := ih (m := m') (PpcCpu.modeUint_lt (c := m'.cpu) (a + BitVec.ofNat 64 len))
        rw [runContiguous_congr hmode, modeUint_congr hmode] at hrest
        rw [LsMachine.memoryRw_done hp hok]
        dsimp only
        rw [ownBytes_cons_access, hdata, s.length_buf, own_iff ha hp hlen, modeUint_congr hmode, hrest]
        constructor
        · intro h p' hp'
          cases hp'
          exact fun _ => h
        · intro h
          exact h p rfl hok

theorem runContiguous_bytes {l : List (RunStep 1)} (rest : ρ) (mem : ByteMem) : M.RunContiguous c w l a rest mem := by
  induction l generalizing a rest mem with
  | nil => trivial
  | cons s l ih =>
    intro p _ r _
    refine ⟨fun hcross => ?_, ih _ _⟩
    unfold PpcCpu.straddles at hcross
    omega

end

/-! ## What has been stored is loaded again -/

section
variable {M} {c : PpcCpu} {len : Nat} {l : List (RunStep len)} {a : Addr} {m : LsMachine ρ}

def putAll : List (RunStep len) → List (List Byte) → PpcCpu → PpcCpu
  | s :: l, data :: rest, c => putAll l rest (s.put data c)
  | _, _, c => c

theorem placed_congr {c c' : PpcCpu} (h : c.is32bit = c'.is32bit) {l : List (Nat × List Byte)} :
    Placed c len a l ↔ Placed c' len a l := by
  induction l generalizing a with
  | nil => rfl
  | cons x l ih =>
    unfold Placed
    rw [modeUint_congr h, ih]

theorem translate_ofs {rest : ρ} {mem : ByteMem} {w : Bool} {p : Nat} (hp : M.translate rest mem w a = some p) :
    p % 4096 = a.toNat % 4096 := by
  obtain ⟨q, -, rfl⟩ := Option.map_eq_some_iff.mp hp
  omega

theorem memoryRw_ram {w : Bool} {buf : List Byte} {m' : LsMachine ρ} {data : Option (List Byte)} {e : LsEvent}
    (h : m.memoryRw M w a buf = (m', data, e)) (hplace : e.place.isSome = true)
    (hram : ∀ x ∈ places [e], M.Ram x.1 x.2.length) :
    ∃ p, p % 4096 = a.toNat % 4096 ∧ m'.cpu = m.cpu ∧ m'.power = m.power ∧
      m'.mem = (if w then m.mem.write p buf else m.mem) ∧
      e.place = some (p, if w then buf else m.mem.read p buf.length) ∧
      ∃ d, data = some d ∧ (w = false → d = m.mem.read p buf.length) := by
  cases hp : M.translate m.rest m.mem w a with
  | none =>
    rw [LsMachine.memoryRw_raise hp] at h
    cases h
    cases hplace
  | some p =>
    cases hok : (M.access m.rest m.mem w p buf).ok with
    | false =>
      rw [LsMachine.memoryRw_fail hp hok] at h
      cases h
      cases hplace
    | true =>
      rw [LsMachine.memoryRw_done hp hok] at h
      cases h
      have hlen : (if w then buf else (M.access m.rest m.mem w p buf).data).length = buf.length := by
        split
        · rfl
        · exact M.length_access ..
      have hat : M.Ram p buf.length := by
        have hx := hram (p, if w then buf else (M.access m.rest m.mem w p buf).data) (List.mem_singleton_self _)
        rwa [hlen] at hx
      obtain ⟨-, -, hmem, hdata⟩ := hat m.rest m.mem w buf rfl
      refine ⟨p, translate_ofs hp, rfl, rfl, hmem, ?_, _, rfl, hdata⟩
      cases w with
      | true => rfl
      | false => exact congrArg (fun d => some (p, d)) (hdata rfl)

theorem places_cons {e : LsEvent} {l : List LsEvent} {x : Nat × List Byte} (h : e.place = some x) :
    places (e :: l) = x :: places l := List.filterMap_cons_some h

theorem accessRun_stored (hdone : Completed (accessRun M true l a m).2)
    (hram : ∀ x ∈ places (accessRun M true l a m).2, M.Ram x.1 x.2.length) :
    Placed m.cpu len a (places (accessRun M true l a m).2) ∧
      (places (accessRun M true l a m).2).map Prod.snd = l.map RunStep.buf ∧
      (accessRun M true l a m).1.mem = m.mem.writeAll Prod.fst Prod.snd (places (accessRun M true l a m).2) := by
  induction l generalizing a m with
  | nil => exact ⟨trivial, rfl, rfl⟩
  | cons s l ih =>
    unfold accessRun at hdone hram ⊢
    rcases hrw : m.memoryRw M true a s.buf with ⟨m', data, e⟩
    rw [hrw] at hdone hram
    cases data with
    | none =>
      have hplace := hdone e (List.mem_singleton_self e)
      obtain ⟨-, -, -, -, -, -, d, hd, -⟩ := memoryRw_ram hrw hplace hram
      cases hd
    | some d =>
      obtain ⟨hplace, hdone⟩ := completed_cons.mp hdone
      have hfirst : ∀ x ∈ places [e], M.Ram x.1 x.2.length := by
        intro x hx
        apply hram
        obtain ⟨y, hy⟩ := Option.isSome_iff_exists.mp hplace
        rw [places_cons hy] at hx ⊢
        exact List.mem_cons.mpr (.inl (List.mem_singleton.mp hx))
      obtain ⟨p, hofs, hcpu, -, hmem, hxe, -⟩ := memoryRw_ram hrw hplace hfirst
      rw [places_cons hxe] at hram ⊢
      obtain ⟨hplaced, hbufs, hfinal⟩ := ih hdone fun x hx => hram x (List.mem_cons_of_mem _ hx)
      have hmode : (s.put d m'.cpu).is32bit = m.cpu.is32bit := by rw [s.is32bit_put, hcpu]
      refine ⟨⟨hofs, s.length_buf, ?_⟩, ?_, ?_⟩
      · rw [placed_congr hmode, modeUint_congr hmode] at hplaced
        rwa [modeUint_congr hmode]
      · rw [List.map_cons, List.map_cons, hbufs]
        rfl
      · rw [hfinal]
        dsimp only
        rw [hmem]
        rfl

theorem accessRun_loaded (hdone : Completed (accessRun M false l a m).2)
    (hram : ∀ x ∈ places (accessRun M false l a m).2, M.Ram x.1 x.2.length) :
    (places (accessRun M false l a m).2).length = l.length ∧
      (accessRun M false l a m).1.cpu =
        putAll l ((places (accessRun M false l a m).2).map fun x => m.mem.read x.1 len) m.cpu := by
  induction l generalizing a m with
  | nil => exact ⟨rfl, rfl⟩
  | cons s l ih =>
    unfold accessRun at hdone hram ⊢
    rcases hrw : m.memoryRw M false a s.buf with ⟨m', data, e⟩
    rw [hrw] at hdone hram
    cases data with
    | none =>
      have hplace := hdone e (List.mem_singleton_self e)
      obtain ⟨-, -, -, -, -, -, d, hd, -⟩ := memoryRw_ram hrw hplace hram
      cases hd
    | some d =>
      obtain ⟨hplace, hdone⟩ := completed_cons.mp hdone
      have hfirst : ∀ x ∈ places [e], M.Ram x.1 x.2.length := by
        intro x hx
        apply hram
        obtain ⟨y, hy⟩ := Option.isSome_iff_exists.mp hplace
        rw [places_cons hy] at hx ⊢
        exact List.mem_cons.mpr (.inl (List.mem_singleton.mp hx))
      obtain ⟨p, -, hcpu, -, hmem, hxe, d', hd, hdata⟩ := memoryRw_ram hrw hplace hfirst
      cases hd
      rw [places_cons hxe] at hram ⊢
      obtain ⟨hcount, hfinal⟩ := ih hdone fun x hx => hram x (List.mem_cons_of_mem _ hx)
      have hsame : m'.mem = m.mem := hmem
      have hread := hdata rfl
      rw [s.length_buf] at hread
      refine ⟨?_, ?_⟩
      · rw [List.length_cons, List.length_cons, hcount]
      · rw [hfinal]
        dsimp only
        rw [List.map_cons, putAll, hsame, hcpu, hread]

end

/-! ## Load/Store Multiple -/

theorem length_multipleBytes (big : Bool) (x : Word) : (multipleBytes big x).length = 4 := by
  unfold multipleBytes
  cases big <;> rfl

theorem multipleWord_multipleBytes (big : Bool) (x : Word) : multipleWord big (multipleBytes big x) = x := by
  have hsum : (((x >>> 24).setWidth 8).setWidth 32 <<< 24) + (((x >>> 16).setWidth 8).setWidth 32 <<< 16) +
      (((x >>> 8).setWidth 8).setWidth 32 <<< 8) + ((x >>> 0).setWidth 8).setWidth 32 = x := by
    apply BitVec.eq_of_toNat_eq
    simp only [BitVec.toNat_add, BitVec.toNat_shiftLeft, BitVec.toNat_setWidth, BitVec.toNat_ushiftRight,
      Nat.shiftLeft_eq, Nat.shiftRight_eq_div_pow]
    omega
  unfold multipleWord multipleBytes
  cases big <;> exact hsum

/-- X(lmw), from register `rs` on. -/
def lmwSteps : Nat → BitVec 5 → List (RunStep 4)
  | 0, _ => []
  | n + 1, rs =>
    { buf := List.replicate 4 0#8
      put := fun d c => c.setGpr rs ((multipleWord c.bigEndian d).signExtend 64)
      length_buf := rfl
      is32bit_put := fun _ _ => rfl } :: lmwSteps n (rs + 1#5)

/-- X(stmw), with these registers. -/
def stmwSteps (big : Bool) (g : BitVec 5 → Reg) : Nat → BitVec 5 → List (RunStep 4)
  | 0, _ => []
  | n + 1, rs =>
    { buf := multipleBytes big ((g rs).setWidth 32)
      put := fun _ c => c
      length_buf := length_multipleBytes big _
      is32bit_put := fun _ _ => rfl } :: stmwSteps big g n (rs + 1#5)

/-! ## Load/store string -/

/-- X(lswi). -/
def lswiSteps (power : Bool) : Nat → BitVec 5 → Nat → List (RunStep 1)
  | 0, _, _ => []
  | nb + 1, rt, sub =>
    { buf := [0#8]
      put := fun d c => c.setGpr rt (insertByte power sub (d.getD 0 0#8) (c.gpr rt))
      length_buf := rfl
      is32bit_put := fun _ _ => rfl } ::
      lswiSteps power nb (if sub + 1 = 4 then rt + 1#5 else rt) (if sub + 1 = 4 then 0 else sub + 1)

/-- X(stswi). -/
def stswiSteps (g : BitVec 5 → Reg) : Nat → BitVec 5 → Word → Nat → List (RunStep 1)
  | 0, _, _, _ => []
  | nb + 1, rs, cur, sub =>
    let rs' := if sub + 1 = 4 then rs + 1#5 else rs
    { buf := [(cur >>> 24).setWidth 8]
      put := fun _ c => c
      length_buf := rfl
      is32bit_put := fun _ _ => rfl } ::
      stswiSteps g nb rs' (if sub + 1 = 4 then (g rs').setWidth 32 else cur <<< 8) (if sub + 1 = 4 then 0 else sub + 1)

section
variable {M} {n : Nat} {rs : BitVec 5} {a : Addr} {m : LsMachine ρ}

theorem cpu_memoryRw {w : Bool} {buf d : List Byte} {m' : LsMachine ρ} {e : LsEvent}
    (h : m.memoryRw M w a buf = (m', some d, e)) : m'.cpu = m.cpu ∧ m'.power = m.power := by
  cases hp : M.translate m.rest m.mem w a with
  | none =>
    rw [LsMachine.memoryRw_raise hp] at h
    cases h
  | some p =>
    cases hok : (M.access m.rest m.mem w p buf).ok with
    | false =>
      rw [LsMachine.memoryRw_fail hp hok] at h
      cases h
    | true =>
      rw [LsMachine.memoryRw_done hp hok] at h
      cases h
      exact ⟨rfl, rfl⟩

theorem lmwLoop_eq : lmwLoop M n rs a m = accessRun M false (lmwSteps n rs) a m := by
  induction n generalizing rs a m with
  | zero => rfl
  | succ n ih =>
    unfold lmwLoop lmwSteps accessRun
    rcases m.memoryRw M false a (List.replicate 4 0#8) with ⟨m', data, e⟩
    cases data with
    | none => rfl
    | some d =>
      dsimp only
      rw [ih]

theorem stmwLoop_eq :
    stmwLoop M n rs a m = accessRun M true (stmwSteps m.cpu.bigEndian m.cpu.gpr n rs) a m := by
  induction n generalizing rs a m with
  | zero => rfl
  | succ n ih =>
    unfold stmwLoop stmwSteps accessRun
    rcases hrw : m.memoryRw M true a (multipleBytes m.cpu.bigEndian ((m.cpu.gpr rs).setWidth 32)) with ⟨m', data, e⟩
    cases data with
    | none => rfl
    | some d =>
      dsimp only
      rw [ih, ← (cpu_memoryRw hrw).1]

theorem lswiLoop_eq {sub : Nat} : lswiLoop M n rs sub a m = accessRun M false (lswiSteps m.power n rs sub) a m := by
  induction n generalizing rs sub a m with
  | zero => rfl
  | succ n ih =>
    unfold lswiLoop lswiSteps accessRun
    rcases hrw : m.memoryRw M false a [0#8] with ⟨m', data, e⟩
    cases data with
    | none => rfl
    | some d =>
      dsimp only
      rw [ih, (cpu_memoryRw hrw).2]

theorem stswiLoop_eq {cur : Word} {sub : Nat} :
    stswiLoop M n rs cur sub a m = accessRun M true (stswiSteps m.cpu.gpr n rs cur sub) a m := by
  induction n generalizing rs cur sub a m with
  | zero => rfl
  | succ n ih =>
    unfold stswiLoop stswiSteps accessRun
    rcases hrw : m.memoryRw M true a [(cur >>> 24).setWidth 8] with ⟨m', data, e⟩
    cases data with
    | none => rfl
    | some d =>
      dsimp only
      rw [ih, ← (cpu_memoryRw hrw).1]

end

/-! ## The registers -/

section
variable {c c' : PpcCpu} {n k : Nat} {r rs : BitVec 5} {g : BitVec 5 → Reg}

theorem word_setGpr (v : Reg) : (c.setGpr rs v).word r = if r = rs then v.setWidth 32 else c.word r := by
  unfold PpcCpu.word PpcCpu.setGpr
  dsimp only
  by_cases h : r = rs
  · rw [if_pos h, h, Function.update_self]
  · rw [if_neg h, Function.update_of_ne h]

theorem low_signExtend (x : Word) : (x.signExtend 64).setWidth 32 = x := setWidth_signExtend x (by decide)

theorem word_putAll_lmw (rs : BitVec 5) (hn : n ≤ 32) :
    let c' := putAll (lmwSteps n rs) ((stmwSteps c.bigEndian g n rs).map RunStep.buf) c
    (∀ k < n, c'.word (rs + BitVec.ofNat 5 k) = (g (rs + BitVec.ofNat 5 k)).setWidth 32) ∧
      ∀ r, (∀ k < n, r ≠ rs + BitVec.ofNat 5 k) → c'.word r = c.word r := by
  induction n generalizing rs c with
  | zero => exact ⟨fun k hk => by omega, fun r _ => rfl⟩
  | succ n ih =>
    let x : Reg := (multipleWord c.bigEndian (multipleBytes c.bigEndian ((g rs).setWidth 32))).signExtend 64
    have hx : x.setWidth 32 = (g rs).setWidth 32 := by
      unfold x
      rw [multipleWord_multipleBytes, low_signExtend]
    have hnext (k : Nat) : rs + 1#5 + BitVec.ofNat 5 k = rs + BitVec.ofNat 5 (k + 1) := by
      rw [BitVec.add_assoc, BitVec.ofNat_add, BitVec.add_comm 1#5]
    obtain ⟨hloaded, hframe⟩ := ih (c := c.setGpr rs x) (rs + 1#5) (by omega)
    simp only [hnext] at hloaded hframe
    refine ⟨fun k hk => ?_, fun r hr => ?_⟩
    · cases k with
      | zero =>
        have hself : rs + BitVec.ofNat 5 0 = rs := BitVec.add_zero rs
        have hkept := hframe rs fun k hk heq => by
          have hnat := congrArg BitVec.toNat heq
          rw [BitVec.toNat_add, BitVec.toNat_ofNat] at hnat
          omega
        rw [word_setGpr, if_pos rfl, hx] at hkept
        rw [hself]
        exact hkept
      | succ k => exact hloaded k (by omega)
    · have hkept := hframe r fun k hk => hr (k + 1) (by omega)
      have hne : r ≠ rs := by
        have h0 := hr 0 (by omega)
        rwa [show rs + BitVec.ofNat 5 0 = rs from BitVec.add_zero rs] at h0
      rw [word_setGpr, if_neg hne] at hkept
      exact hkept

theorem word_insertByte {power : Bool} {sub : Nat} (hsub : sub < 4) (d : Byte) (x : Reg) :
    (insertByte power sub d x).setWidth 32 =
      setByte (if power = true ∧ sub = 0 then 0#32 else x.setWidth 32) (3 - sub) d := by
  have hshift : 24 - 8 * sub = (3 - sub) * 8 := by omega
  unfold insertByte setByte
  dsimp only
  rw [hshift, BitVec.setWidth_or, BitVec.setWidth_and, low_signExtend, low_signExtend]
  split <;> rfl

/-- Byte `k` of a register, in the order in which a string has them. -/
def stringByte (c : PpcCpu) (r : BitVec 5) (k : Nat) : Byte := byteOf (c.word r) (3 - k)

theorem stringByte_insert (power : Bool) (r rs : BitVec 5) {sub : Nat} (hsub : sub < 4) (hk : k < 4) (d : Byte) :
    stringByte (c.setGpr rs (insertByte power sub d (c.gpr rs))) r k =
      if r = rs then if k = sub then d else if power = true ∧ sub = 0 then 0#8 else stringByte c rs k
      else stringByte c r k := by
  unfold stringByte
  rw [word_setGpr]
  by_cases hr : r = rs
  · have hindex : (3 - k = 3 - sub) = (k = sub) := by
      apply propext
      omega
    rw [if_pos hr, if_pos hr, word_insertByte hsub, byteOf_setByte _ _ _ (by omega)]
    simp only [hindex]
    split
    · rfl
    · split
      · unfold byteOf
        simp
      · rfl
  · rw [if_neg hr, if_neg hr]

theorem byte_cur {x : Word} {sub : Nat} (hsub : sub < 4) : ((x <<< (8 * sub)) >>> 24).setWidth 8 = byteOf x (3 - sub) := by
  apply BitVec.eq_of_getLsbD_eq
  intro i hi
  have hindex : 24 + i - 8 * sub = (3 - sub) * 8 + i := by omega
  have hlt : 24 + i < 32 := by omega
  have hge : ¬ 24 + i < 8 * sub := by omega
  rw [getLsbD_byteOf _ _ hi, BitVec.getLsbD_setWidth, BitVec.getLsbD_ushiftRight, BitVec.getLsbD_shiftLeft, hindex,
    decide_eq_true hi, decide_eq_true hlt, decide_eq_false hge]
  simp

theorem reg_apart (rs : BitVec 5) {i j : Nat} (hij : i < j) (hj : j < 32) : rs + BitVec.ofNat 5 i ≠ rs + BitVec.ofNat 5 j := by
  intro heq
  have hnat := congrArg BitVec.toNat heq
  rw [BitVec.toNat_add, BitVec.toNat_add, BitVec.toNat_ofNat, BitVec.toNat_ofNat] at hnat
  omega

theorem string_putAll (power : Bool) (rs : BitVec 5) (sub : Nat) (hsub : sub < 4) (hn : sub + n ≤ 128) :
    let c' := putAll (lswiSteps power n rs sub)
      ((stswiSteps g n rs ((g rs).setWidth 32 <<< (8 * sub)) sub).map RunStep.buf) c
    (∀ j < n, stringByte c' (rs + BitVec.ofNat 5 ((sub + j) / 4)) ((sub + j) % 4) =
        byteOf ((g (rs + BitVec.ofNat 5 ((sub + j) / 4))).setWidth 32) (3 - (sub + j) % 4)) ∧
      ∀ r k, k < 4 → (∀ j < n, r ≠ rs + BitVec.ofNat 5 ((sub + j) / 4)) ∨ (r = rs ∧ k < sub) →
        stringByte c' r k = stringByte c r k := by
  induction n generalizing rs sub c with
  | zero => exact ⟨fun j hj => by omega, fun r k _ _ => rfl⟩
  | succ n ih =>
    let d : Byte := byteOf ((g rs).setWidth 32) (3 - sub)
    let c1 : PpcCpu := c.setGpr rs (insertByte power sub d (c.gpr rs))
    have hbyte := byte_cur (x := (g rs).setWidth 32) hsub
    have hself : rs + BitVec.ofNat 5 (sub / 4) = rs := by
      rw [Nat.div_eq_of_lt hsub]
      exact BitVec.add_zero rs
    -- What the rest of the run keeps, whether it goes on in this register or in the next one.
    have hrest :
        let c' := putAll (lswiSteps power (n + 1) rs sub)
          ((stswiSteps g (n + 1) rs ((g rs).setWidth 32 <<< (8 * sub)) sub).map RunStep.buf) c
        (∀ j < n, stringByte c' (rs + BitVec.ofNat 5 ((sub + (j + 1)) / 4)) ((sub + (j + 1)) % 4) =
            byteOf ((g (rs + BitVec.ofNat 5 ((sub + (j + 1)) / 4))).setWidth 32) (3 - (sub + (j + 1)) % 4)) ∧
          ∀ r k, k < 4 → (∀ j < n, r ≠ rs + BitVec.ofNat 5 ((sub + (j + 1)) / 4)) ∨ (r = rs ∧ k ≤ sub) →
            stringByte c' r k = stringByte c1 r k := by
      unfold lswiSteps stswiSteps
      rw [List.map_cons, putAll]
      dsimp only
      rw [hbyte, List.getD_cons_zero]
      by_cases hlast : sub + 1 = 4
      · rw [if_pos hlast, if_pos hlast, if_pos hlast]
        obtain ⟨hloaded, hframe⟩ := ih (c := c1) (rs + 1#5) 0 (by omega) (by omega)
        have hnext (j : Nat) : rs + 1#5 + BitVec.ofNat 5 ((0 + j) / 4) = rs + BitVec.ofNat 5 ((sub + (j + 1)) / 4) := by
          have hindex : (sub + (j + 1)) / 4 = (0 + j) / 4 + 1 := by omega
          rw [hindex, BitVec.add_assoc, BitVec.ofNat_add, BitVec.add_comm 1#5]
        have hofs (j : Nat) : (0 + j) % 4 = (sub + (j + 1)) % 4 := by omega
        simp only [hnext, hofs, Nat.mul_zero, BitVec.shiftLeft_zero] at hloaded hframe
        refine ⟨hloaded, fun r k hk hor => hframe r k hk (.inl ?_)⟩
        rcases hor with hr | ⟨rfl, -⟩
        · exact hr
        · intro j hj heq
          have hapart := reg_apart r (i := sub / 4) (j := (sub + (j + 1)) / 4) (by omega) (by omega)
          rw [hself] at hapart
          exact hapart heq
      · rw [if_neg hlast, if_neg hlast, if_neg hlast]
        have hcur : ((g rs).setWidth 32 <<< (8 * sub)) <<< 8 = (g rs).setWidth 32 <<< (8 * (sub + 1)) := by
          rw [← BitVec.shiftLeft_add, Nat.mul_succ]
        rw [hcur]
        obtain ⟨hloaded, hframe⟩ := ih (c := c1) rs (sub + 1) (by omega) (by omega)
        have hindex (j : Nat) : sub + 1 + j = sub + (j + 1) := by omega
        simp only [hindex] at hloaded hframe
        exact ⟨hloaded, fun r k hk hor => hframe r k hk (hor.imp_right fun h => ⟨h.1, by omega⟩)⟩
    obtain ⟨hloaded, hframe⟩ := hrest
    refine ⟨fun j hj => ?_, fun r k hk hor => ?_⟩
    · cases j with
      | zero =>
        have hkept := hframe rs sub hsub (.inr ⟨rfl, le_refl sub⟩)
        have hfirst := stringByte_insert (c := c) power rs rs hsub hsub d
        rw [if_pos rfl, if_pos rfl] at hfirst
        simp only [Nat.add_zero, hself, Nat.mod_eq_of_lt hsub]
        exact hkept.trans hfirst
      | succ j => exact hloaded j (by omega)
    · have hkept := hframe r k hk (hor.imp (fun h j hj => h (j + 1) (by omega)) fun h => ⟨h.1, by omega⟩)
      have hfirst := stringByte_insert (c := c) power r rs hsub hk d
      refine hkept.trans (hfirst.trans ?_)
      rcases hor with hr | ⟨rfl, hlt⟩
      · have hne : r ≠ rs := by
          have h0 := hr 0 (by omega)
          rwa [Nat.add_zero, hself] at h0
        rw [if_neg hne]
      · have hone : ¬ k = sub := by omega
        have hpower : ¬ (power = true ∧ sub = 0) := by omega
        rw [if_pos rfl, if_neg hone, if_neg hpower]

end

/-! ## stw and lwz -/

def LsForm.isWord (f : LsForm) : Bool := f.size == .ls4 && !f.reverse && f.zero

section
variable {M} {i j : LsInstr} {m m1 : LsMachine ρ}

theorem isWord_iff (f : LsForm) : f.isWord = true ↔ f.size = .ls4 ∧ f.reverse = false ∧ f.zero = true := by
  unfold LsForm.isWord
  rw [Bool.and_eq_true, Bool.and_eq_true, Bool.not_eq_true', beq_iff_eq, and_assoc]

theorem lsN_ram (hdone : Completed (i.lsN M m).2) (hram : ∀ x ∈ places (i.lsN M m).2, M.Ram x.1 x.2.length) :
    ∃ p c, c.gpr = m.cpu.gpr ∧ c.is32bit = m.cpu.is32bit ∧
      places (i.lsN M m).2 = [(p, if i.form.load then m.mem.read p i.form.size.toNat else i.stored m.cpu)] ∧
      (i.lsN M m).1.mem = (if i.form.load then m.mem else m.mem.write p (i.stored m.cpu)) ∧
      (i.lsN M m).1.cpu = i.updated
        (if i.form.load then i.load c fun k => (m.mem.read p i.form.size.toNat).getD k 0#8 else c) (i.addr m.cpu) := by
  have hgeneric (hdone : Completed (i.lsGeneric M m).2)
      (hram : ∀ x ∈ places (i.lsGeneric M m).2, M.Ram x.1 x.2.length) :
      ∃ p c, c.gpr = m.cpu.gpr ∧ c.is32bit = m.cpu.is32bit ∧
        places (i.lsGeneric M m).2 = [(p, if i.form.load then m.mem.read p i.form.size.toNat else i.stored m.cpu)] ∧
        (i.lsGeneric M m).1.mem = (if i.form.load then m.mem else m.mem.write p (i.stored m.cpu)) ∧
        (i.lsGeneric M m).1.cpu = i.updated
          (if i.form.load then i.load c fun k => (m.mem.read p i.form.size.toNat).getD k 0#8 else c)
          (i.addr m.cpu) := by
    cases hcross : i.form.crosses (i.addr m.cpu) with
    | true =>
      rw [LsInstr.lsGeneric_refused hcross] at hdone
      cases hdone _ (List.mem_singleton_self _)
    | false =>
      cases hp : M.translate m.rest m.mem (!i.form.load) (i.addr m.cpu) with
      | none =>
        rw [LsInstr.lsGeneric_raise hcross hp] at hdone
        cases hdone _ (List.mem_singleton_self _)
      | some p =>
        have hrun := LsInstr.lsGeneric_access hcross hp
        dsimp only at hrun
        cases hok : (M.access m.rest m.mem (!i.form.load) p (i.buffer m.cpu)).ok with
        | false =>
          rw [hok, if_neg (by decide)] at hrun
          rw [hrun] at hdone
          cases hdone _ (List.mem_singleton_self _)
        | true =>
          rw [hok, if_pos rfl] at hrun
          rw [hrun] at hram ⊢
          have hlen := i.length_buffer m.cpu
          have hplace := hram (p, _) (List.mem_singleton_self _)
          have hat : M.Ram p i.form.size.toNat := by
            have hdata : (if i.form.load = true then (M.access m.rest m.mem (!i.form.load) p (i.buffer m.cpu)).data
                else i.stored m.cpu).length = i.form.size.toNat := by
              split
              · rw [M.length_access, hlen]
              · exact LsInstr.length_stored m.cpu
            rwa [hdata] at hplace
          obtain ⟨-, -, hmem, hread⟩ := hat m.rest m.mem (!i.form.load) (i.buffer m.cpu) hlen
          rw [hlen] at hread
          refine ⟨p, m.cpu.syncPc i.lowPc, rfl, rfl, ?_, ?_, ?_⟩
          · cases hload : i.form.load with
            | true =>
              rw [hload] at hread
              exact congrArg (fun d => [(p, d)]) (hread rfl)
            | false => rfl
          · dsimp only
            rw [hmem]
            cases hload : i.form.load with
            | true => rfl
            | false =>
              have hbuffer : i.buffer m.cpu = i.stored m.cpu := by
                unfold LsInstr.buffer
                rw [hload, if_neg (by decide)]
              rw [hbuffer]
              rfl
          · dsimp only
            cases hload : i.form.load with
            | true =>
              rw [hload] at hread
              rw [if_pos rfl, if_pos rfl, hread rfl]
            | false => rfl
  unfold LsInstr.lsN at hdone hram ⊢
  rw [LsInstr.lsAddr_eq] at hdone hram ⊢
  by_cases h32 : m.cpu.is32bit = false
  · rw [if_pos h32] at hdone hram ⊢
    exact hgeneric hdone hram
  rw [if_neg h32] at hdone hram ⊢
  by_cases haligned : i.addr m.cpu &&& BitVec.ofNat 64 (i.form.size.toNat - 1) ≠ 0#64
  · rw [if_pos haligned] at hdone hram ⊢
    exact hgeneric hdone hram
  rw [if_neg haligned] at hdone hram ⊢
  cases hpage : M.hostPage m.rest (!i.form.load) ((i.addr m.cpu >>> 12).setWidth 20) with
  | none =>
    rw [hpage] at hdone hram
    exact hgeneric hdone hram
  | some q =>
    let p := q * 4096 + (i.addr m.cpu &&& 4095#64).toNat
    refine ⟨p, m.cpu, rfl, rfl, ?_, ?_, ?_⟩
    · unfold LsInstr.lsFast
      dsimp only
      split <;> rfl
    · unfold LsInstr.lsFast
      dsimp only
      split <;> rfl
    · unfold LsInstr.lsFast
      dsimp only
      rw [LsInstr.lsAddr_eq]
      cases hload : i.form.load with
      | true =>
        rw [if_pos rfl, if_pos rfl]
        have hbytes : ∀ k < i.form.size.toNat, m.mem (p + k) = (m.mem.read p i.form.size.toNat).getD k 0#8 := by
          intro k hk
          rw [List.getD_eq_getElem?_getD, ByteMem.getElem?_read, if_pos hk]
          rfl
        exact congrArg (fun c => i.updated c (i.addr m.cpu)) (LsInstr.load_congr m.cpu hbytes)
      | false => rfl

theorem word_returned (htr : i.Translated) (hstore : i.form.load = false) (hi : i.form.isWord = true)
    (hload : j.form.load = true) (hj : j.form.isWord = true) (hne : j.form.update = true → j.ra ≠ j.rs)
    (hdone : Completed (i.lsN M m).2) (hdone1 : Completed (j.lsN M m1).2) (hmem : m1.mem = (i.lsN M m).1.mem)
    (hsame : (places (j.lsN M m1).2).map Prod.fst = (places (i.lsN M m).2).map Prod.fst)
    (hram : ∀ x ∈ places (i.lsN M m).2, M.Ram x.1 x.2.length)
    (hram1 : ∀ x ∈ places (j.lsN M m1).2, M.Ram x.1 x.2.length) :
    (j.lsN M m1).1.cpu.word j.rs = m.cpu.word i.rs := by
  obtain ⟨hsize, hrev, -⟩ := (isWord_iff i.form).mp hi
  obtain ⟨hsize1, hrev1, hzero1⟩ := (isWord_iff j.form).mp hj
  obtain ⟨p, -, -, -, hplaces, hwritten, -⟩ := lsN_ram hdone hram
  obtain ⟨p1, c, -, -, hplaces1, -, hcpu⟩ := lsN_ram hdone1 hram1
  have hp : p1 = p := by
    rw [hplaces, hplaces1] at hsame
    exact (List.cons.inj hsame).1
  have hdata : m1.mem.read p1 j.form.size.toNat = bytes true 4 (m.cpu.reg i.rs).toNat := by
    have hstored : i.stored m.cpu = bytes true 4 (m.cpu.reg i.rs).toNat := by
      have hno : ¬ i.form.size = .ls8 := by
        rw [hsize]
        decide
      rw [LsInstr.stored_eq htr]
      unfold LsInstr.archBytes
      rw [if_neg hno, hrev, hsize]
      rfl
    have hlen : (bytes true 4 (m.cpu.reg i.rs).toNat).length = j.form.size.toNat := by
      rw [length_bytes, hsize1]
      rfl
    rw [hmem, hwritten, hstore, if_neg (by decide), hstored, hp, ← hlen]
    exact ByteMem.read_write m.mem p _
  have hvalue : j.form.loadValue (fun k => (bytes true 4 (m.cpu.reg i.rs).toNat).getD k 0#8) =
      BitVec.ofNat 64 ((m.cpu.reg i.rs).toNat % 256 ^ 4) := by
    have hmap := LsInstr.map_getD (length_bytes true 4 (m.cpu.reg i.rs).toNat)
    rw [loadValue_eq j.form _ (fun h => by rw [hrev1] at h; cases h), hsize1]
    change j.form.archValue ((List.range 4).map _) = _
    rw [hmap]
    unfold LsForm.archValue
    rw [hzero1, hrev1, Bool.true_or, if_pos rfl, Bool.not_false, value_bytes]
  have hword : ((BitVec.ofNat 64 ((m.cpu.reg i.rs).toNat % 256 ^ 4)).setWidth 32 : Word) = m.cpu.word i.rs := by
    rw [← PpcCpu.setWidth_reg]
    apply BitVec.eq_of_toNat_eq
    rw [BitVec.toNat_setWidth, BitVec.toNat_ofNat, BitVec.toNat_setWidth]
    omega
  have hno1 : ¬ j.form.size = .ls8 := by
    rw [hsize1]
    decide
  rw [hcpu, hload, if_pos rfl, hdata]
  unfold LsInstr.updated LsInstr.load
  rw [if_neg hno1, hvalue]
  by_cases hupdate : j.form.update = true
  · rw [if_pos hupdate, PpcCpu.word_setReg, if_neg (fun h => hne hupdate h.symm), PpcCpu.word_setReg, if_pos rfl, hword]
  · rw [if_neg hupdate, PpcCpu.word_setReg, if_pos rfl, hword]

end

/-! ## All of them -/

theorem read_bufs {M} {len : Nat} {ls ll : List (RunStep len)} {a a1 : Addr} {m m1 : LsMachine ρ} {mem : ByteMem}
    (hlen : 0 < len) (hsize : len * ls.length ≤ 4096)
    (hdone : Completed (accessRun M true ls a m).2)
    (hram : ∀ x ∈ places (accessRun M true ls a m).2, M.Ram x.1 x.2.length)
    (hmem : mem = (accessRun M true ls a m).1.mem)
    (hsame : (places (accessRun M false ll a1 m1).2).map Prod.fst = (places (accessRun M true ls a m).2).map Prod.fst) :
    (places (accessRun M false ll a1 m1).2).map (fun x => mem.read x.1 len) = ls.map RunStep.buf := by
  obtain ⟨hplaced, hbufs, hfinal⟩ := accessRun_stored hdone hram
  have hcount : (places (accessRun M true ls a m).2).length = ls.length := by
    have h := congrArg List.length hbufs
    rwa [List.length_map, List.length_map] at h
  calc (places (accessRun M false ll a1 m1).2).map (fun x => mem.read x.1 len)
      = ((places (accessRun M false ll a1 m1).2).map Prod.fst).map fun p => mem.read p len := by
        rw [List.map_map]
        rfl
    _ = ((places (accessRun M true ls a m).2).map Prod.fst).map fun p => mem.read p len := by rw [hsame]
    _ = (places (accessRun M true ls a m).2).map fun x => mem.read x.1 len := by
        rw [List.map_map]
        rfl
    _ = (places (accessRun M true ls a m).2).map Prod.snd := by
        refine List.map_congr_left fun x hx => ?_
        rw [hmem, hfinal]
        exact read_stored hplaced hlen (by rw [hcount]; exact hsize) m.mem hx
    _ = ls.map RunStep.buf := hbufs

namespace MemOp
variable (op : MemOp) (m : LsMachine ρ)

def Translated : MemOp → Prop
  | .ls i => i.Translated
  | .lswi _ _ nb _ | .stswi _ _ nb _ => nb ≤ 32
  | _ => True

def Matches : MemOp → MemOp → Prop
  | .ls i, .ls j =>
    i.form.load = false ∧ i.form.isWord = true ∧ j.form.load = true ∧ j.form.isWord = true ∧
      (j.form.update = true → j.ra ≠ j.rs)
  | .stmw rs _ _ _, .lmw rt _ _ _ => rt = rs
  | .stswi rs _ nb _, .lswi rt _ nb' _ => rt = rs ∧ nb' = nb
  | _, _ => False

/-- The registers of `c`, which the store has stored, are in `c'` again. A string is of bytes. -/
def Returned (c c' : PpcCpu) : MemOp → MemOp → Prop
  | .ls i, .ls j => c'.word j.rs = c.word i.rs
  | .stmw rs _ _ _, _ => ∀ r, rs ≤ r → c'.word r = c.word r
  | .stswi rs _ nb _, _ => ∀ k < nb,
    stringByte c' (rs + BitVec.ofNat 5 (k / 4)) (k % 4) = stringByte c (rs + BitVec.ofNat 5 (k / 4)) (k % 4)
  | _, _ => True

/-- The matching load of what a store has left in RAM, where the addresses are translated to the same, returns the
registers, whatever has happened to the registers since. -/
def RoundTrip : Prop :=
  ∀ load m1, op.Matches load → m1.mem = (op.run M m).1.mem → m1.cpu.bigEndian = m.cpu.bigEndian →
    Completed (op.run M m).2 → Completed (load.run M m1).2 →
    (places (load.run M m1).2).map Prod.fst = (places (op.run M m).2).map Prod.fst →
    (∀ x ∈ places (op.run M m).2, M.Ram x.1 x.2.length) →
    (∀ x ∈ places (load.run M m1).2, M.Ram x.1 x.2.length) →
    op.Returned m.cpu (load.run M m1).1.cpu load

/-- The function for the tables and the one for memory_rw() do the same, which is what the instruction is for. The
bytes of stw, lwz and of the multiples and strings are accessed through the translations of their own addresses,
and what has been stored is loaded again. -/
def Correct : Prop :=
  (match op with
    | .ls i => (SameResult (i.lsN M m).1 (i.lsGeneric M m).1 ∧ (i.lsN M m).2 = (i.lsGeneric M m).2) ∧
      i.Settled M m (i.lsN M m) ∧ (i.form.isWord = true → OwnBytes (i.lsN M m).2)
    | _ => OwnBytes (op.run M m).2) ∧
  op.RoundTrip M m

/-- No word of stw or lwz is on two pages, and those of stmw and lmw that are on two pages are on physical pages
that follow each other. What lwbrx loads in 64-bit mode has bit 31 clear. -/
def Meets : Prop :=
  match op with
  | .ls i => i.ValueMeets M m ∧ (i.form.isWord = true → ¬ PpcCpu.straddles (i.addr m.cpu) 4)
  | .lmw rt _ _ _ => M.RunContiguous m.cpu false (lmwSteps (32 - rt.toNat) rt) (op.addr m.cpu) m.rest m.mem
  | .stmw rs _ _ _ =>
    M.RunContiguous m.cpu true (stmwSteps m.cpu.bigEndian m.cpu.gpr (32 - rs.toNat) rs) (op.addr m.cpu) m.rest m.mem
  | _ => True

variable {op M m}

theorem length_stmwSteps (big : Bool) (g : BitVec 5 → Reg) (n : Nat) (rs : BitVec 5) : (stmwSteps big g n rs).length = n := by
  induction n generalizing rs with
  | zero => rfl
  | succ n ih => exact congrArg Nat.succ (ih (rs + 1#5))

theorem length_stswiSteps (g : BitVec 5 → Reg) (n : Nat) (rs : BitVec 5) (cur : Word) (sub : Nat) :
    (stswiSteps g n rs cur sub).length = n := by
  induction n generalizing rs cur sub with
  | zero => rfl
  | succ n ih => exact congrArg Nat.succ (ih _ _ _)

theorem roundTrip_stmw {rs ra ra' : BitVec 5} {imm imm' : BitVec 16} {lowPc lowPc' : Nat} {m1 : LsMachine ρ}
    (hmem : m1.mem = ((MemOp.stmw rs ra imm lowPc).run M m).1.mem) (hbig : m1.cpu.bigEndian = m.cpu.bigEndian)
    (hdone : Completed ((MemOp.stmw rs ra imm lowPc).run M m).2)
    (hdone1 : Completed ((MemOp.lmw rs ra' imm' lowPc').run M m1).2)
    (hsame : (places ((MemOp.lmw rs ra' imm' lowPc').run M m1).2).map Prod.fst =
      (places ((MemOp.stmw rs ra imm lowPc).run M m).2).map Prod.fst)
    (hram : ∀ x ∈ places ((MemOp.stmw rs ra imm lowPc).run M m).2, M.Ram x.1 x.2.length)
    (hram1 : ∀ x ∈ places ((MemOp.lmw rs ra' imm' lowPc').run M m1).2, M.Ram x.1 x.2.length) (r : BitVec 5)
    (hr : rs ≤ r) : ((MemOp.lmw rs ra' imm' lowPc').run M m1).1.cpu.word r = m.cpu.word r := by
  unfold run at hmem hdone hdone1 hsame hram hram1 ⊢
  dsimp only at hmem hdone hdone1 hsame hram hram1 ⊢
  rw [stmwLoop_eq] at hmem hdone hsame hram
  rw [lmwLoop_eq] at hdone1 hsame hram1 ⊢
  have hbufs := read_bufs (by decide) (by rw [length_stmwSteps]; omega) hdone hram hmem hsame
  rw [(accessRun_loaded hdone1 hram1).2, hbufs]
  have hle : rs.toNat ≤ r.toNat := hr
  obtain ⟨hloaded, -⟩ := word_putAll_lmw (c := m1.cpu.syncPc lowPc') (n := 32 - rs.toNat) (g := m.cpu.gpr) rs (by omega)
  have hword := hloaded (r.toNat - rs.toNat) (by omega)
  have hreg : rs + BitVec.ofNat 5 (r.toNat - rs.toNat) = r := by
    apply BitVec.eq_of_toNat_eq
    rw [BitVec.toNat_add, BitVec.toNat_ofNat]
    omega
  have horder : (m1.cpu.syncPc lowPc').bigEndian = (m.cpu.syncPc lowPc).bigEndian := hbig
  rw [hreg, horder] at hword
  exact hword

theorem roundTrip_stswi {rs ra ra' : BitVec 5} {nb lowPc lowPc' : Nat} {m1 : LsMachine ρ} (hnb : nb ≤ 32)
    (hmem : m1.mem = ((MemOp.stswi rs ra nb lowPc).run M m).1.mem)
    (hdone : Completed ((MemOp.stswi rs ra nb lowPc).run M m).2)
    (hdone1 : Completed ((MemOp.lswi rs ra' nb lowPc').run M m1).2)
    (hsame : (places ((MemOp.lswi rs ra' nb lowPc').run M m1).2).map Prod.fst =
      (places ((MemOp.stswi rs ra nb lowPc).run M m).2).map Prod.fst)
    (hram : ∀ x ∈ places ((MemOp.stswi rs ra nb lowPc).run M m).2, M.Ram x.1 x.2.length)
    (hram1 : ∀ x ∈ places ((MemOp.lswi rs ra' nb lowPc').run M m1).2, M.Ram x.1 x.2.length) (k : Nat) (hk : k < nb) :
    stringByte ((MemOp.lswi rs ra' nb lowPc').run M m1).1.cpu (rs + BitVec.ofNat 5 (k / 4)) (k % 4) =
      stringByte m.cpu (rs + BitVec.ofNat 5 (k / 4)) (k % 4) := by
  unfold run at hmem hdone hdone1 hsame hram hram1 ⊢
  dsimp only at hmem hdone hdone1 hsame hram hram1 ⊢
  rw [stswiLoop_eq] at hmem hdone hsame hram
  rw [lswiLoop_eq] at hdone1 hsame hram1 ⊢
  have hbufs := read_bufs (by decide) (by rw [length_stswiSteps]; omega) hdone hram hmem hsame
  rw [(accessRun_loaded hdone1 hram1).2, hbufs]
  obtain ⟨hloaded, -⟩ := string_putAll (c := m1.cpu.syncPc lowPc') (n := nb) (g := m.cpu.gpr) m1.power rs 0
    (by decide) (by omega)
  have hbyte := hloaded k hk
  rw [Nat.zero_add, Nat.mul_zero, BitVec.shiftLeft_zero] at hbyte
  exact hbyte

theorem roundTrip (htr : op.Translated) : op.RoundTrip M m := by
  intro load m1 hmatch hmem hbig hdone hdone1 hsame hram hram1
  cases op with
  | ls i =>
    cases load with
    | ls j =>
      obtain ⟨hstore, hi, hload, hj, hne⟩ := hmatch
      exact word_returned htr hstore hi hload hj hne hdone hdone1 hmem hsame hram hram1
    | _ => cases hmatch
  | stmw rs ra imm lowPc =>
    cases load with
    | lmw rt ra' imm' lowPc' =>
      cases hmatch
      exact roundTrip_stmw hmem hbig hdone hdone1 hsame hram hram1
    | _ => cases hmatch
  | stswi rs ra nb lowPc =>
    cases load with
    | lswi rt ra' nb' lowPc' =>
      obtain ⟨rfl, rfl⟩ := hmatch
      exact roundTrip_stswi htr hmem hdone hdone1 hsame hram hram1
    | _ => cases hmatch
  | lmw rt ra imm lowPc => cases load <;> cases hmatch
  | lswi rt ra nb lowPc => cases load <;> cases hmatch

theorem addr_lt : (op.addr m.cpu).toNat < m.cpu.space := by
  cases op <;> exact PpcCpu.modeUint_lt _

theorem run_own_iff {w : Bool} {len : Nat} {l : List (RunStep len)} (hlen : len ≤ 4096) :
    OwnBytes (accessRun M w l (op.addr m.cpu) { m with cpu := m.cpu.syncPc op.lowPc }).2 ↔
      M.RunContiguous m.cpu w l (op.addr m.cpu) m.rest m.mem := by
  have ha : (op.addr m.cpu).toNat < (m.cpu.syncPc op.lowPc).space := addr_lt
  refine (accessRun_own_iff (m := { m with cpu := m.cpu.syncPc op.lowPc }) ha hlen).trans ?_
  have hmode : (m.cpu.syncPc op.lowPc).is32bit = m.cpu.is32bit := rfl
  exact runContiguous_congr hmode m.rest m.mem

/-- What each of the instructions needs. -/
theorem correct_iff (htr : op.Translated) (ht : M.Tables m) : op.Correct M m ↔ op.Meets M m := by
  have h1 : 1 ≤ 4096 := by decide
  have h4 : 4 ≤ 4096 := by decide
  unfold Correct Meets
  rw [and_iff_left (roundTrip htr)]
  cases op with
  | ls i =>
    obtain ⟨hsame, hevents⟩ := LsInstr.lsN_same (i := i) ht
    have hsettled : i.Settled M m (i.lsN M m) ↔ i.Settled M m (i.lsGeneric M m) := by
      unfold LsInstr.Settled
      rw [hevents, hsame.gpr]
    dsimp only
    rw [hsettled, hevents, LsInstr.lsGeneric_settled_iff htr, and_iff_right ⟨hsame, rfl⟩]
    refine and_congr_right fun _ => forall_congr' fun hword => ?_
    exact LsInstr.lsGeneric_own_iff ((isWord_iff i.form).mp hword).1
  | lmw rt ra imm lowPc =>
    unfold run
    dsimp only
    rw [lmwLoop_eq]
    exact run_own_iff h4
  | stmw rs ra imm lowPc =>
    unfold run
    dsimp only
    rw [stmwLoop_eq]
    exact run_own_iff h4
  | lswi rt ra nb lowPc =>
    unfold run
    dsimp only
    rw [lswiLoop_eq]
    refine iff_of_true ((run_own_iff h1).mpr ?_) trivial
    exact runContiguous_bytes _ _
  | stswi rs ra nb lowPc =>
    unfold run
    dsimp only
    rw [stswiLoop_eq]
    refine iff_of_true ((run_own_iff h1).mpr ?_) trivial
    exact runContiguous_bytes _ _

end MemOp

end

/-! ## Examples -/

def flatMemory : MemorySystem Unit where
  hostPage _ _ page := some page.toNat
  translatePage _ _ _ page := some page.toNat
  raise _ _ _ _ c := c
  access _ mem w p data :=
    { rest := (), mem := if w then mem.write p data else mem
      data := if w then data else mem.read p data.length, ok := true, running := true }
  length_access := by
    intro _ mem w p data
    cases w with
    | true => rfl
    | false => exact ByteMem.length_read mem p data.length

theorem flatMemory_tables (m : LsMachine Unit) : flatMemory.Tables m where
  translated := by
    intro store page q h
    cases h
    refine congrArg some ?_
    rw [BitVec.toNat_setWidth]
    omega
  ram := by
    intro store page q ofs data _ _
    refine ⟨rfl, rfl, rfl, fun h => ?_⟩
    subst h
    rfl

/-- `stw` or `lwz` of r3, at address 0 and this displacement. -/
def wordAtOfs (load : Bool) (imm : BitVec 16) : LsInstr where
  form := { size := .ls4, load := load, zero := true, update := false, indexed := false, reverse := false }
  rs := 3#5
  ra := 0#5
  rb := 0#5
  imm := imm
  lowPc := 0

theorem wordAtOfs_translated (load : Bool) (imm : BitVec 16) : (wordAtOfs load imm).Translated where
  generated := by cases load <;> rfl
  update := fun h => by cases h

def lsExample : LsMachine Unit where
  cpu := PpcCpu.zero true true
  power := false
  running := true
  mem := fun _ => 0#8
  rest := ()

/-- `stw r3,16(0)`. -/
theorem memOp_correct : (MemOp.ls (wordAtOfs false 16#16)).Correct flatMemory lsExample := by
  have htr : (MemOp.ls (wordAtOfs false 16#16)).Translated := wordAtOfs_translated false 16#16
  refine (MemOp.correct_iff htr (flatMemory_tables _)).mpr ⟨?_, fun _ => ?_⟩
  · intro _ hrev
    cases hrev
  · unfold PpcCpu.straddles
    decide +kernel

/-- `lwz r3,0xffe(0)` stops the CPU. -/
theorem not_memOp_correct : ¬ (MemOp.ls (wordAtOfs true 0xffe#16)).Correct flatMemory lsExample := by
  intro h
  have hown := h.1.2.2 rfl
  apply hown.completes
  have hevents : ((wordAtOfs true 0xffe#16).lsN flatMemory lsExample).2 = [.refused] := by
    decide +kernel
  rw [hevents]
  exact List.mem_singleton_self _

end Gxemul.Ppc
