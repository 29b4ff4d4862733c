import Gxemul.Arm.LoadStoreMultiple

/- A block within one page, transferred by the generated function and by the general one.

   The words of such a block are in one host page. Both functions reach the same words
   there, whichever way the address is stepped, and both leave the same address in the
   base register. -/
namespace Gxemul.Arm
open Lib (Byte ByteMem)

/-! ## Addresses -/

theorem slotOf_congr (t : Tables) {x y : Word} (h : x.toNat / 4096 = y.toNat / 4096) :
    t.slotOf .arm (x.setWidth 64) = t.slotOf .arm (y.setWidth 64) := by
  have htrunc : ∀ z : Word, t.mode.trunc (z.setWidth 64) = z.setWidth 64 := by
    intro z
    cases t.mode with
    | mode64 => rfl
    | mode32 =>
      apply BitVec.eq_of_toNat_eq
      have hz := z.isLt
      show (z.setWidth 64 &&& 0xffffffff#64).toNat = (z.setWidth 64).toNat
      rw [BitVec.toNat_and, BitVec.toNat_setWidth, Nat.mod_eq_of_lt (by omega)]
      exact (Nat.and_two_pow_sub_one_eq_mod z.toNat 32).trans (Nat.mod_eq_of_lt hz)
  have hpage : ∀ z : Word, Arch.arm.addrToPagenr t.mode (z.setWidth 64) = z.toNat / 4096 := by
    intro z
    unfold Arch.addrToPagenr
    rw [htrunc, BitVec.toNat_setWidth, Nat.mod_eq_of_lt (by omega), Nat.shiftRight_eq_div_pow]
    rfl
  rw [Tables.slotOf_eq, Tables.slotOf_eq, hpage, hpage, h]

theorem toNat_and_fff (x : Word) : (x &&& 0xfff#32).toNat = x.toNat % 4096 := by
  rw [BitVec.toNat_and]
  exact Nat.and_two_pow_sub_one_eq_mod x.toNat 12

theorem toNat_and_ffc (x : Word) : (x &&& 0xffc#32).toNat = 4 * (x.toNat % 4096 / 4) := by
  have hshift : x &&& 0xffc#32 = ((x >>> 2) &&& 0x3ff#32) <<< 2 := by
    rw [show 0xffc#32 = 0x3ff#32 <<< 2 by decide]
    apply BitVec.eq_of_getLsbD_eq
    intro i hi
    simp only [BitVec.getLsbD_and, BitVec.getLsbD_shiftLeft, BitVec.getLsbD_ushiftRight, hi, decide_true, Bool.true_and]
    by_cases h2 : i < 2
    · simp [h2]
    · simp [h2, show 2 + (i - 2) = i by omega]
  have hmask : ((x >>> 2) &&& 0x3ff#32).toNat = x.toNat / 4 % 1024 := by
    rw [BitVec.toNat_and, BitVec.toNat_ushiftRight, Nat.shiftRight_eq_div_pow]
    exact Nat.and_two_pow_sub_one_eq_mod (x.toNat / 4) 10
  rw [hshift, BitVec.toNat_shiftLeft, hmask, Nat.shiftLeft_eq]
  omega

theorem toNat_and_not_ffc (x : Word) : (x &&& ~~~ 0xffc#32).toNat = x.toNat - 4 * (x.toNat % 4096 / 4) := by
  have hdisjoint : (x &&& ~~~ 0xffc#32) &&& (x &&& 0xffc#32) = 0#32 := by
    rw [BitVec.and_assoc, BitVec.and_comm (~~~ 0xffc#32), BitVec.and_assoc, show 0xffc#32 &&& ~~~ 0xffc#32 = 0#32 by decide,
      BitVec.and_zero, BitVec.and_zero]
  have hsplit : (x &&& ~~~ 0xffc#32) + (x &&& 0xffc#32) = x := by
    rw [BitVec.add_eq_or_of_and_eq_zero _ _ hdisjoint, ← BitVec.and_or_distrib_left, BitVec.not_or_self, BitVec.and_allOnes]
  have htoNat := congrArg BitVec.toNat hsplit
  rw [BitVec.toNat_add, toNat_and_ffc] at htoNat
  omega

/-- The address of word `k` of a block, from the address of its first word. -/
def wordAddr (u : Bool) (addr : Word) (k : Nat) : Word :=
  if u then addr + BitVec.ofNat 32 (4 * k) else addr - BitVec.ofNat 32 (4 * k)

theorem stepWord_wordAddr (u : Bool) (addr : Word) (k : Nat) : wordAddr u (stepWord u addr) k = wordAddr u addr (k + 1) := by
  have hk : BitVec.ofNat 32 (4 * (k + 1)) = 4#32 + BitVec.ofNat 32 (4 * k) := by
    rw [Nat.mul_add, Nat.add_comm, BitVec.ofNat_add]
  unfold wordAddr stepWord
  rw [hk]
  cases u
  · simp [BitVec.sub_sub]
  · simp [BitVec.add_assoc]

theorem wordAddr_inPage {opcode addr : Word} {k : Nat} (h : inPage opcode (addr &&& 0xffc#32).toNat = true)
    (hk : k < nRegs opcode) :
    (wordAddr (uBit opcode) addr k).toNat / 4096 = addr.toNat / 4096 ∧
    ∀ page, (ArmMachine.wordInPage page (wordAddr (uBit opcode) addr k) : Int) =
      page + (addr &&& 0xffc#32).toNat + (if uBit opcode then 4 * (k : Int) else -(4 * (k : Int))) := by
  have hn : nRegs opcode ≤ 16 := by
    exact (List.length_filter_le _ _).trans (by simp)
  have hword : ∀ page x, ArmMachine.wordInPage page x = page + 4 * (x.toNat % 4096 / 4) := by
    intro page x
    unfold ArmMachine.wordInPage
    rw [BitVec.toNat_ushiftRight, toNat_and_fff, Nat.shiftRight_eq_div_pow]
  simp only [hword]
  rw [toNat_and_ffc] at h ⊢
  unfold inPage at h
  unfold wordAddr
  cases hu : uBit opcode with
  | true =>
    have hofs : 4 * (addr.toNat % 4096 / 4) + 4 * k ≤ 0xffc := by
      rw [hu] at h
      split at h
      · omega
      · have := of_decide_eq_true h
        omega
    have hsum : (addr + BitVec.ofNat 32 (4 * k)).toNat = addr.toNat + 4 * k := by
      rw [BitVec.toNat_add, BitVec.toNat_ofNat]
      omega
    simp only [if_true, hsum]
    exact ⟨by omega, fun page => by omega⟩
  | false =>
    have hofs : 4 * k ≤ 4 * (addr.toNat % 4096 / 4) := by
      rw [hu] at h
      split at h
      · omega
      · have := of_decide_eq_true h
        omega
    have hsub : (addr - BitVec.ofNat 32 (4 * k)).toNat = addr.toNat - 4 * k := by
      rw [BitVec.toNat_sub, BitVec.toNat_ofNat]
      omega
    simp only [Bool.false_eq_true, if_false, hsub]
    exact ⟨by omega, fun page => by omega⟩

/-! ## The register list -/

theorem nodup_regList (opcode : Word) : (regList opcode).Nodup := List.nodup_range.filter _

theorem mem_regList {opcode : Word} {i : Nat} : i ∈ regList opcode ↔ i < 16 ∧ ArmCpu.inList opcode i = true := by
  simp [regList]

def blockOrder (opcode : Word) : List Nat := (ArmCpu.regOrder (uBit opcode)).filter (ArmCpu.inList opcode)

theorem blockOrder_eq (opcode : Word) :
    blockOrder opcode = if uBit opcode then regList opcode else (regList opcode).reverse := by
  unfold blockOrder regList ArmCpu.regOrder
  cases uBit opcode
  · simp [List.filter_reverse]
  · rfl

theorem blockOrder_perm (opcode : Word) : (blockOrder opcode).Perm (regList opcode) := by
  rw [blockOrder_eq]
  split
  · exact .refl _
  · exact List.reverse_perm _

theorem nodup_blockOrder (opcode : Word) : (blockOrder opcode).Nodup :=
  (blockOrder_perm opcode).nodup_iff.mpr (nodup_regList opcode)

/-- Which word of `p[]` register `i` has. -/
def wordIndex (opcode : Word) (i : Nat) : Int :=
  if uBit opcode then ((regList opcode).idxOf i : Int) else ((regList opcode).idxOf i : Int) + 1 - (nRegs opcode : Int)

theorem words_eq (opcode : Word) : words opcode = (regList opcode).map fun i => (i, wordIndex opcode i) := by
  have hzip : (regList opcode).zipIdx = (regList opcode).map fun i => (i, (regList opcode).idxOf i) := by
    apply List.ext_getElem
    · simp
    · intro k h1 h2
      rw [List.getElem_zipIdx, List.getElem_map, (nodup_regList opcode).idxOf_getElem, Nat.zero_add]
  unfold words
  rw [hzip, List.map_map]
  rfl

theorem wordIndex_order {opcode : Word} {i : Nat} (hi : i ∈ regList opcode) :
    (blockOrder opcode).idxOf i < nRegs opcode ∧
    wordIndex opcode i = if uBit opcode then ((blockOrder opcode).idxOf i : Int) else -((blockOrder opcode).idxOf i : Int) := by
  have hlt : (regList opcode).idxOf i < (regList opcode).length := List.idxOf_lt_length_of_mem hi
  unfold wordIndex nRegs
  rw [blockOrder_eq]
  cases uBit opcode with
  | true => exact ⟨hlt, rfl⟩
  | false =>
    have hrev : (regList opcode).reverse.idxOf i = (regList opcode).length - 1 - (regList opcode).idxOf i := by
      have hk : (regList opcode).length - 1 - (regList opcode).idxOf i < (regList opcode).reverse.length := by
        rw [List.length_reverse]
        omega
      have hget : (regList opcode).reverse[(regList opcode).length - 1 - (regList opcode).idxOf i] = i := by
        rw [List.getElem_reverse]
        simp only [show (regList opcode).length - 1 - ((regList opcode).length - 1 - (regList opcode).idxOf i) =
          (regList opcode).idxOf i by omega]
        exact List.getElem_idxOf hlt
      have hidx := (List.nodup_reverse.mpr (nodup_regList opcode)).idxOf_getElem _ hk
      rwa [hget] at hidx
    simp only [Bool.false_eq_true, if_false, hrev]
    omega

namespace ArmMachine
variable {c : ArmConf} {io : ArmIo} {s s' : ArmMachine}

/-! ## The general functions within one page -/

def firstWord (p u : Bool) (addr : Word) : Word := if p then stepWord u addr else addr

theorem firstWord_step (p u : Bool) (addr : Word) : firstWord p u (stepWord u addr) = stepWord u (firstWord p u addr) := by
  cases p <;> rfl

theorem popWords_filter (p u : Bool) (iw : Word) (order : List Nat) (addr : Word) (new : Nat → Word) :
    s.popWords c io p u iw order addr new = s.popWords c io p u iw (order.filter (ArmCpu.inList iw)) addr new := by
  induction order generalizing s addr new with
  | nil => rfl
  | cons i order ih =>
    cases hi : ArmCpu.inList iw i with
    | false =>
      rw [List.filter_cons_of_neg (by simp [hi]), popWords, if_neg (by simp [hi])]
      exact ih addr new
    | true =>
      rw [List.filter_cons_of_pos hi, popWords, popWords, if_pos hi, if_pos hi]
      dsimp only
      congr 1
      funext x
      obtain ⟨t, _ | value⟩ := x
      · rfl
      · exact ih _ _

theorem pushWords_filter (p u sb : Bool) (iw : Word) (order : List Nat) (addr : Word) :
    s.pushWords c io p u sb iw order addr = s.pushWords c io p u sb iw (order.filter (ArmCpu.inList iw)) addr := by
  induction order generalizing s addr with
  | nil => rfl
  | cons i order ih =>
    cases hi : ArmCpu.inList iw i with
    | false =>
      rw [List.filter_cons_of_neg (by simp [hi]), pushWords, if_neg (by simp [hi])]
      exact ih addr
    | true =>
      rw [List.filter_cons_of_pos hi, pushWords, pushWords, if_pos hi, if_pos hi]
      dsimp only
      congr 1
      funext x
      obtain ⟨t, _ | _⟩ := x
      · rfl
      · exact ih _

theorem nextAddr (p u : Bool) (addr : Word) :
    (if p then firstWord p u addr else stepWord u (firstWord p u addr)) = stepWord u addr := by
  cases p <;> rfl

variable (c s) in
/-- The words from `addr` on are loaded from one host page. -/
def pageWord (page : Nat) (addr : Word) : Word := c.convert (hostWord c.hostBig s.host (wordInPage page addr))

def loaded (order : List Nat) (f : Nat → Word) (new : Nat → Word) : Nat → Word :=
  fun i => if i ∈ order then f (order.idxOf i) else new i

theorem loaded_cons {i : Nat} {order : List Nat} (hi : i ∉ order) (f : Nat → Word) (new : Nat → Word) :
    loaded order (fun k => f (k + 1)) (Function.update new i (f 0)) = loaded (i :: order) f new := by
  funext j
  unfold loaded
  by_cases hj : j ∈ order
  · have hne : i ≠ j := fun he => hi (he ▸ hj)
    rw [if_pos hj, if_pos (List.mem_cons_of_mem _ hj), List.idxOf_cons_ne _ hne]
  · rw [if_neg hj]
    by_cases he : j = i
    · subst he
      rw [Function.update_self, if_pos List.mem_cons_self, List.idxOf_cons_self]
    · rw [Function.update_of_ne he, if_neg (by simp [he, hj])]

theorem popWords_page (p u : Bool) {iw : Word} {page : Nat} {order : List Nat} (addr : Word) (new : Nat → Word)
    (hin : ∀ i ∈ order, ArmCpu.inList iw i = true) (hnodup : order.Nodup)
    (hpage : ∀ k < order.length,
      (s.dyn.tables.slotOf .arm ((wordAddr u (firstWord p u addr) k).setWidth 64)).hostLoad = some page) :
    s.popWords c io p u iw order addr new = .ok (s, some (wordAddr u addr order.length,
      loaded order (fun k => s.pageWord c page (wordAddr u (firstWord p u addr) k)) new)) := by
  induction order generalizing addr new with
  | nil =>
    have haddr : wordAddr u addr 0 = addr := by cases u <;> simp [wordAddr]
    have hnew : ∀ f, loaded [] f new = new := fun f => funext fun i => by simp [loaded]
    rw [List.length_nil, haddr, hnew]
    rfl
  | cons i order ih =>
    obtain ⟨hi, hnodup⟩ := List.nodup_cons.mp hnodup
    have hfirst : wordAddr u (firstWord p u addr) 0 = firstWord p u addr := by cases u <;> simp [wordAddr]
    have hstep : ∀ k, wordAddr u (firstWord p u (stepWord u addr)) k = wordAddr u (firstWord p u addr) (k + 1) := by
      intro k
      rw [firstWord_step, stepWord_wordAddr]
    have hword : s.popWord c io (firstWord p u addr) = .ok (s, some (s.pageWord c page (firstWord p u addr))) := by
      have h0 := hpage 0 (by simp)
      rw [hfirst] at h0
      unfold popWord
      rw [h0]
      rfl
    rw [popWords, if_pos (hin i List.mem_cons_self)]
    show (do
      let r ← s.popWord c io (firstWord p u addr)
      _) = _
    rw [hword]
    show popWords c io p u iw order (if p then firstWord p u addr else stepWord u (firstWord p u addr))
      (Function.update new i (s.pageWord c page (firstWord p u addr))) s = _
    rw [nextAddr]
    refine (ih _ _ (fun j hj => hin j (List.mem_cons_of_mem _ hj)) hnodup fun k hk => ?_).trans ?_
    · rw [hstep]
      exact hpage (k + 1) (by simpa using hk)
    · simp only [hstep]
      rw [← loaded_cons hi, hfirst, stepWord_wordAddr, List.length_cons]

theorem pushWords_page (p u sb : Bool) {iw : Word} {page : Nat} {order : List Nat} (addr : Word)
    (hin : ∀ i ∈ order, ArmCpu.inList iw i = true) (hnodup : order.Nodup)
    (hpage : ∀ k < order.length,
      (s.dyn.tables.slotOf .arm ((wordAddr u (firstWord p u addr) k).setWidth 64)).hostStore = some page) :
    s.pushWords c io p u sb iw order addr = .ok (
      { s with
        host := s.host.writeAll (fun i => wordInPage page (wordAddr u (firstWord p u addr) (order.idxOf i)))
          (fun i => image c (c.convert (s.cpu.pushValue sb i))) order },
      some (wordAddr u addr order.length)) := by
  induction order generalizing s addr with
  | nil =>
    have haddr : wordAddr u addr 0 = addr := by cases u <;> simp [wordAddr]
    simp [pushWords, haddr, ByteMem.writeAll]
  | cons i order ih =>
    obtain ⟨hi, hnodup⟩ := List.nodup_cons.mp hnodup
    have hfirst : wordAddr u (firstWord p u addr) 0 = firstWord p u addr := by cases u <;> simp [wordAddr]
    have hstep : ∀ k, wordAddr u (firstWord p u (stepWord u addr)) k = wordAddr u (firstWord p u addr) (k + 1) := by
      intro k
      rw [firstWord_step, stepWord_wordAddr]
    have hword : s.pushWord c io (firstWord p u addr) (s.cpu.pushValue sb i) = .ok (
        { s with
          host := s.host.write (wordInPage page (firstWord p u addr)) (image c (c.convert (s.cpu.pushValue sb i))) },
        true) := by
      have h0 := hpage 0 (by simp)
      rw [hfirst] at h0
      unfold pushWord
      rw [h0]
    rw [pushWords, if_pos (hin i List.mem_cons_self)]
    show (do
      let r ← s.pushWord c io (firstWord p u addr) (s.cpu.pushValue sb i)
      if r.2 then pushWords c io p u sb iw order (if p then firstWord p u addr else stepWord u (firstWord p u addr)) r.1
      else return (r.1, none)) = _
    rw [hword, nextAddr]
    refine (ih (s := { s with
      host := s.host.write (wordInPage page (firstWord p u addr)) (image c (c.convert (s.cpu.pushValue sb i))) })
      _ (fun j hj => hin j (List.mem_cons_of_mem _ hj)) hnodup fun k hk => ?_).trans ?_
    · rw [hstep]
      exact hpage (k + 1) (by simpa using hk)
    · have hmem : ∀ m : ByteMem, m.writeAll
          (fun j => wordInPage page (wordAddr u (firstWord p u (stepWord u addr)) (order.idxOf j)))
          (fun j => image c (c.convert (s.cpu.pushValue sb j))) order =
          m.writeAll (fun j => wordInPage page (wordAddr u (firstWord p u addr) ((i :: order).idxOf j)))
            (fun j => image c (c.convert (s.cpu.pushValue sb j))) order := by
        intro m
        refine List.foldl_ext _ _ m fun m j hj => ?_
        simp only [hstep, List.idxOf_cons_ne _ (fun he : i = j => hi (he ▸ hj)), Nat.succ_eq_add_one]
      rw [hmem, stepWord_wordAddr, List.length_cons]
      show _ = Except.ok (
        { s with
          host := (s.host.write (wordInPage page (wordAddr u (firstWord p u addr) ((i :: order).idxOf i))) _).writeAll _ _
            order }, _)
      rw [List.idxOf_cons_self, hfirst]

/-! ## Loads -/

/-- The registers in a list are loaded with `word`, but not where the instruction writes its
base back. -/
def regsLoaded (opcode : Word) (word : Nat → Word) (r : Nat → Word) : Nat → Word := fun i =>
  if i ∈ regList opcode ∧ i ≠ 15 ∧ ¬ (wBit opcode = true ∧ i = rn opcode) then word i else r i

/-- The word of register `i` in host memory. -/
def multiWord (c : ArmConf) (s : ArmMachine) (opcode : Word) (p i : Nat) : Word :=
  hostWord c.hostBig s.host (wordPtr p (wordIndex opcode i))

variable (s) in
def withRegs (r : Nat → Word) (pc : Word) : ArmMachine := { s with cpu := { s.cpu with r, pc } }

theorem multiLoad_eq (op : MultiOpcode) (p : Nat) : s.multiLoad c op.opcode p =
    s.withRegs (regsLoaded op.opcode (s.multiWord c op.opcode p) s.cpu.r)
      (if 15 ∈ regList op.opcode then s.multiWord c op.opcode p 15 else s.cpu.pc) := by
  unfold multiLoad regsLoaded
  rw [words_eq, List.foldl_map]
  generalize hl : regList op.opcode = l
  generalize hw : s.multiWord c op.opcode p = w
  have hword : ∀ i, hostWord c.hostBig s.host (wordPtr p (wordIndex op.opcode i)) = w i := fun i => by rw [← hw]; rfl
  clear hl hw
  induction l generalizing s with
  | nil => simp [withRegs]
  | cons i l ih =>
    rw [List.foldl_cons]
    by_cases hskip : (wBit op.opcode && i == rn op.opcode) = true
    · have hi : wBit op.opcode = true ∧ i = rn op.opcode := by simpa using hskip
      have h15 : (15 : Nat) ≠ i := fun h => op.base (hi.2.symm.trans h.symm)
      refine (congrArg (List.foldl _ · l) (if_pos hskip)).trans ((ih hword).trans ?_)
      congr 1
      · funext j
        by_cases hj : j = i
        · subst hj
          rw [if_neg (fun h => h.2.2 hi), if_neg (fun h => h.2.2 hi)]
        · simp only [List.mem_cons, hj, false_or]
      · simp only [List.mem_cons, h15, false_or]
    · have hi : ¬ (wBit op.opcode = true ∧ i = rn op.opcode) := by simpa using hskip
      refine (congrArg (List.foldl _ · l) (if_neg hskip)).trans ?_
      rw [hword]
      by_cases h15 : i = 15
      · subst h15
        refine (ih (s := s.withRegs s.cpu.r (w 15)) hword).trans ?_
        show s.withRegs _ _ = s.withRegs _ _
        congr 1
        · funext j
          by_cases hj : j = 15
          · rw [if_neg (fun h => h.2.1 hj), if_neg (fun h => h.2.1 hj)]
            rfl
          · simp only [List.mem_cons, hj, false_or]
            rfl
        · simp [withRegs]
      · refine (congrArg (List.foldl _ · l) (if_neg h15)).trans ?_
        refine (ih (s := s.setReg (.r i) (w i)) hword).trans ?_
        show s.withRegs (fun j => if j ∈ l ∧ j ≠ 15 ∧ ¬ (wBit op.opcode = true ∧ j = rn op.opcode) then w j
          else Function.update s.cpu.r i (w i) j) _ = s.withRegs _ _
        congr 1
        · funext j
          by_cases hj : j = i
          · subst hj
            rw [Function.update_self, ite_self, if_pos ⟨List.mem_cons_self, h15, hi⟩]
          · simp only [Function.update_of_ne hj, List.mem_cons, hj, false_or]
        · simp only [List.mem_cons, Ne.symm h15, false_or]
          rfl

theorem popRegs_eq (cpu : ArmCpu) (u : Bool) (iw : Word) (new : Nat → Word) :
    cpu.popRegs false u iw new = { cpu with r := fun i => if i ∈ regList iw then new i else cpu.r i } := by
  have hfold : ∀ order : List Nat, order.foldl
      (fun s i => if ArmCpu.inList iw i then s.popReg false i (new i) else s) cpu =
      { cpu with r := fun i => if i ∈ order ∧ ArmCpu.inList iw i = true then new i else cpu.r i } := by
    intro order
    induction order generalizing cpu with
    | nil => simp
    | cons i order ih =>
      rw [List.foldl_cons, ih]
      by_cases hi : ArmCpu.inList iw i = true
      · rw [if_pos hi]
        congr 1
        funext j
        show (if _ then _ else Function.update cpu.r i (new i) j) = _
        by_cases hj : j = i
        · subst hj
          rw [Function.update_self, ite_self, if_pos ⟨List.mem_cons_self, hi⟩]
        · simp only [Function.update_of_ne hj, List.mem_cons, hj, false_or]
      · rw [if_neg hi]
        congr 1
        funext j
        by_cases hj : j = i
        · subst hj
          rw [if_neg (fun h => hi h.2), if_neg (fun h => hi h.2)]
        · simp only [List.mem_cons, hj, false_or]
  unfold ArmCpu.popRegs
  rw [hfold]
  congr 1
  funext i
  have hmem : i ∈ ArmCpu.regOrder u ↔ i < 16 := by
    unfold ArmCpu.regOrder
    cases u <;> simp
  simp only [mem_regList, hmem]

theorem popFinish_eq (cpu : ArmCpu) {np : Nat} (hnp : np ≠ 15) (u w : Bool) (iw : Word) (new : Nat → Word) (addr : Word) :
    cpu.popFinish np u false w iw new addr = .ok { cpu with
      r := if w then Function.update (fun i => if i ∈ regList iw then new i else cpu.r i) np addr
        else fun i => if i ∈ regList iw then new i else cpu.r i
      pc := if ArmCpu.inList iw 15 then new 15 &&& 0xfffffffc#32 else cpu.pc } := by
  have h15 : ArmCpu.inList iw 15 = true → 15 ∈ regList iw := fun h => mem_regList.mpr ⟨by decide, h⟩
  unfold ArmCpu.popFinish ArmCpu.popMode
  simp only [Bool.false_eq_true, if_false, popRegs_eq]
  cases hin : ArmCpu.inList iw 15 with
  | false =>
    cases w <;> rfl
  | true =>
    cases w with
    | false =>
      show Except.ok ({ cpu with r := _, pc := (if 15 ∈ regList iw then new 15 else cpu.r 15) &&& _ } : ArmCpu) = _
      rw [if_pos (h15 hin)]
      rfl
    | true =>
      show Except.ok ({ cpu with
        r := _
        pc := Function.update (fun i => if i ∈ regList iw then new i else cpu.r i) np addr 15 &&& _ } : ArmCpu) = _
      rw [Function.update_of_ne (Ne.symm hnp), if_pos (h15 hin)]
      rfl

/-! ## The instruction word and the opcode -/

section
variable {iw opcode : Word}

theorem getLsbD_opcode (h : iw &&& 0x0fffffff#32 = opcode) {i : Nat} (hi : i < 28) : opcode.getLsbD i = iw.getLsbD i := by
  have hmask : ∀ j : Fin 28, (0x0fffffff#32).getLsbD j = true := by decide
  rw [← h, BitVec.getLsbD_and, hmask ⟨i, hi⟩, Bool.and_true]

theorem bdt_opcode (h : iw &&& 0x0fffffff#32 = opcode) (lowPc : Nat) : s.bdt c io iw lowPc = s.bdt c io opcode lowPc := by
  have hp : pBit iw = pBit opcode := (getLsbD_opcode h (by decide)).symm
  have hu : uBit iw = uBit opcode := (getLsbD_opcode h (by decide)).symm
  have hs : sBit iw = sBit opcode := (getLsbD_opcode h (by decide)).symm
  have hw : wBit iw = wBit opcode := (getLsbD_opcode h (by decide)).symm
  have hl : lBit iw = lBit opcode := (getLsbD_opcode h (by decide)).symm
  have hrn : rn iw = rn opcode := by
    unfold rn
    rw [← h, BitVec.ushiftRight_and_distrib, BitVec.and_assoc, show (0x0fffffff#32 >>> 16) &&& 15#32 = 15#32 by decide]
  have hregs : iw &&& 0xffff#32 = opcode &&& 0xffff#32 := by
    rw [← h, BitVec.and_assoc, show 0x0fffffff#32 &&& 0xffff#32 = 0xffff#32 by decide]
  unfold bdt bdtLoad bdtStore
  rw [hp, hu, hs, hw, hl, hrn, hregs]

theorem inList_regs {i : Nat} (hi : i < 16) : ArmCpu.inList (opcode &&& 0xffff#32) i = ArmCpu.inList opcode i := by
  have hmask : ∀ j : Fin 16, (0xffff#32).getLsbD j = true := by decide
  show (opcode &&& 0xffff#32).getLsbD i = opcode.getLsbD i
  rw [BitVec.getLsbD_and, hmask ⟨i, hi⟩, Bool.and_true]

theorem regList_regs : regList (opcode &&& 0xffff#32) = regList opcode :=
  List.filter_congr fun _ hi => inList_regs (List.mem_range.mp hi)

theorem order_regs : (ArmCpu.regOrder (uBit opcode)).filter (ArmCpu.inList (opcode &&& 0xffff#32)) = blockOrder opcode := by
  refine List.filter_congr fun i hi => inList_regs ?_
  unfold ArmCpu.regOrder at hi
  cases huf : uBit opcode <;> rw [huf] at hi <;> simpa using hi

end

/-! ## One block both ways -/

variable (s) in
def baseWritten (opcode : Word) (r : Nat → Word) : Nat → Word :=
  if wBit opcode then
    Function.update r (rn opcode) (wordAddr (uBit opcode) (s.cpu.r (rn opcode)) (nRegs opcode))
  else r

theorem multiPtr_spec {opcode : Word} {p : Nat} (h : s.multiPtr opcode = some p) :
    ∃ page, (∀ k < nRegs opcode,
      (if lBit opcode then
        (s.dyn.tables.slotOf .arm ((wordAddr (uBit opcode) (s.multiAddr opcode) k).setWidth 64)).hostLoad
      else (s.dyn.tables.slotOf .arm ((wordAddr (uBit opcode) (s.multiAddr opcode) k).setWidth 64)).hostStore) = some page) ∧
      ∀ i ∈ regList opcode,
        (wordInPage page (wordAddr (uBit opcode) (s.multiAddr opcode) ((blockOrder opcode).idxOf i)) : Int) =
          (p : Int) + 4 * wordIndex opcode i := by
  unfold multiPtr at h
  dsimp only at h
  split at h
  · rename_i hin
    obtain ⟨page, hpage, rfl⟩ := Option.map_eq_some_iff.mp h
    refine ⟨page, fun k hk => ?_, fun i hi => ?_⟩
    · rw [slotOf_congr _ (wordAddr_inPage hin hk).1]
      exact hpage
    · obtain ⟨hlt, hindex⟩ := wordIndex_order hi
      rw [(wordAddr_inPage hin hlt).2 page, hindex]
      cases uBit opcode
      · simp
      · simp
  · cases h

theorem wordPtr_of {opcode : Word} {p page : Nat}
    (h : ∀ i ∈ regList opcode,
      (wordInPage page (wordAddr (uBit opcode) (s.multiAddr opcode) ((blockOrder opcode).idxOf i)) : Int) =
        (p : Int) + 4 * wordIndex opcode i) {i : Nat} (hi : i ∈ regList opcode) :
    wordInPage page (wordAddr (uBit opcode) (s.multiAddr opcode) ((blockOrder opcode).idxOf i)) =
      wordPtr p (wordIndex opcode i) := by
  unfold wordPtr
  rw [← h i hi, Int.toNat_natCast]

theorem icPc_syncPc {lowPc : Nat} (hlow : lowPc < 1024) : (s.syncPc lowPc).icPc lowPc = s.icPc lowPc := by
  have hsync : (s.syncPc lowPc).cpu.pc = (s.cpu.pc &&& ~~~ 0xffc#32) + BitVec.ofNat 32 (lowPc * 4) := rfl
  have htoNat : ((s.cpu.pc &&& ~~~ 0xffc#32) + BitVec.ofNat 32 (lowPc * 4)).toNat =
      s.cpu.pc.toNat - 4 * (s.cpu.pc.toNat % 4096 / 4) + 4 * lowPc := by
    rw [BitVec.toNat_add, BitVec.toNat_ofNat, toNat_and_not_ffc]
    omega
  unfold icPc
  rw [hsync]
  congr 1
  apply BitVec.eq_of_toNat_eq
  rw [toNat_and_not_ffc, toNat_and_not_ffc, htoNat]
  omega

theorem bdtLoad_page (op : MultiOpcode) {p : Nat} (hl : lBit op.opcode = true) (h : s.multiPtr op.opcode = some p)
    (lowPc : Nat) : s.bdtLoad c io op.opcode lowPc = .ok (s.withRegs
      (s.baseWritten op.opcode fun i =>
        if i ∈ regList op.opcode then c.convert (s.multiWord c op.opcode p i) else s.cpu.r i)
      (if 15 ∈ regList op.opcode then c.convert (s.multiWord c op.opcode p 15) &&& 0xfffffffc#32 else s.icPc lowPc),
      if ArmCpu.inList op.opcode 15 then .branch else .next) := by
  obtain ⟨page, hpage, hptr⟩ := multiPtr_spec h
  simp only [hl, if_true] at hpage
  have hlen : (blockOrder op.opcode).length = nRegs op.opcode := (blockOrder_perm op.opcode).length_eq
  have hpop := @popWords_page c io (s.syncPc lowPc) (pBit op.opcode) (uBit op.opcode) (op.opcode &&& 0xffff#32) page
    (blockOrder op.opcode) (s.cpu.r (rn op.opcode)) (fun _ => 0) (fun i hi => by
      have hi' := mem_regList.mp ((blockOrder_perm op.opcode).mem_iff.mp hi)
      exact (inList_regs hi'.1).trans hi'.2) (nodup_blockOrder op.opcode) (fun k hk => hpage k (hlen ▸ hk))
  unfold bdtLoad armPop
  rw [popWords_filter, order_regs, op.noS]
  show (do
    let r ← popWords c io _ _ _ _ (s.cpu.r (rn op.opcode)) _ (s.syncPc lowPc)
    _) = _
  rw [hpop]
  have hregs : ∀ i ∈ regList op.opcode, loaded (blockOrder op.opcode)
      (fun k => (s.syncPc lowPc).pageWord c page
        (wordAddr (uBit op.opcode) (firstWord (pBit op.opcode) (uBit op.opcode) (s.cpu.r (rn op.opcode))) k))
      (fun _ => 0) i = c.convert (s.multiWord c op.opcode p i) := by
    intro i hi
    unfold loaded
    rw [if_pos ((blockOrder_perm op.opcode).mem_iff.mpr hi)]
    unfold pageWord multiWord
    rw [← wordPtr_of hptr hi]
    rfl
  have h15 : ArmCpu.inList (op.opcode &&& 0xffff#32) 15 = ArmCpu.inList op.opcode 15 := inList_regs (by decide)
  have hmem : 15 ∈ regList op.opcode ↔ ArmCpu.inList op.opcode 15 = true := by
    rw [mem_regList]
    exact and_iff_right (by decide)
  show (do
    let cpu ← (s.syncPc lowPc).cpu.popFinish _ _ false _ _ _ _
    return (({ s.syncPc lowPc with cpu } : ArmMachine), _)) = _
  rw [popFinish_eq _ op.base, h15, regList_regs, hlen]
  have hvalues : (fun i => if i ∈ regList op.opcode then loaded (blockOrder op.opcode)
      (fun k => (s.syncPc lowPc).pageWord c page
        (wordAddr (uBit op.opcode) (firstWord (pBit op.opcode) (uBit op.opcode) (s.cpu.r (rn op.opcode))) k))
      (fun _ => 0) i else (s.syncPc lowPc).cpu.r i) =
      fun i => if i ∈ regList op.opcode then c.convert (s.multiWord c op.opcode p i) else s.cpu.r i := by
    funext i
    by_cases hi : i ∈ regList op.opcode
    · rw [if_pos hi, if_pos hi, hregs i hi]
    · rw [if_neg hi, if_neg hi]
      rfl
  rw [hvalues]
  by_cases hin : ArmCpu.inList op.opcode 15 = true
  · rw [if_pos hin, if_pos (hmem.mpr hin), hregs 15 (hmem.mpr hin), hin]
    rfl
  · rw [if_neg hin, if_neg (fun h => hin (hmem.mp h)), Bool.eq_false_iff.mpr hin]
    rfl

theorem multi_load_page (op : MultiOpcode) {p : Nat} (hl : lBit op.opcode = true) (h : s.multiPtr op.opcode = some p)
    (iw : Word) (lowPc : Nat) : s.multi c io op iw lowPc = .ok (s.withRegs
      (s.baseWritten op.opcode (regsLoaded op.opcode (s.multiWord c op.opcode p) s.cpu.r))
      (if 15 ∈ regList op.opcode then s.multiWord c op.opcode p 15 else s.cpu.pc),
      if ArmCpu.inList op.opcode 15 then .branch else .next) := by
  unfold multi
  rw [h]
  dsimp only
  rw [if_pos hl, multiLoad_eq]
  unfold multiBase baseWritten
  cases hw : wBit op.opcode with
  | false => rfl
  | true =>
    have hbase : regsLoaded op.opcode (s.multiWord c op.opcode p) s.cpu.r (rn op.opcode) = s.cpu.r (rn op.opcode) :=
      if_neg fun h => h.2.2 ⟨hw, rfl⟩
    rw [show (s.withRegs (regsLoaded op.opcode (s.multiWord c op.opcode p) s.cpu.r) _).cpu.r (rn op.opcode) =
      s.cpu.r (rn op.opcode) from hbase]
    rfl

/-! ## Stores -/

variable (s) in
/-- What is stored for register `i`. -/
def stored (lowPc i : Nat) : Word := if i = 15 then s.icPc lowPc + 12#32 else s.cpu.r i

theorem multiStore_eq (opcode : Word) (lowPc p : Nat) : s.multiStore c opcode lowPc p =
    { s with
      host := s.host.writeAll (fun i => wordPtr p (wordIndex opcode i)) (fun i => image c (s.stored lowPc i))
        (regList opcode) } := by
  unfold multiStore stored
  rw [words_eq, List.foldl_map]
  generalize s.icPc lowPc + 12#32 = tmpPc
  generalize regList opcode = l
  induction l generalizing s with
  | nil => rfl
  | cons i l ih => exact ih

theorem multi_store_page (op : MultiOpcode) {p : Nat} (hl : lBit op.opcode = false) (h : s.multiPtr op.opcode = some p)
    (iw : Word) (lowPc : Nat) : s.multi c io op iw lowPc = .ok (
      { s.withRegs (s.baseWritten op.opcode s.cpu.r) s.cpu.pc with
        host := s.host.writeAll (fun i => wordPtr p (wordIndex op.opcode i)) (fun i => image c (s.stored lowPc i))
          (regList op.opcode) }, .next) := by
  unfold multi
  rw [h]
  dsimp only
  rw [if_neg (by simp [hl]), multiStore_eq]
  unfold multiBase baseWritten
  cases wBit op.opcode <;> rfl

theorem apart_words {opcode : Word} {p page : Nat}
    (h : ∀ i ∈ regList opcode,
      (wordInPage page (wordAddr (uBit opcode) (s.multiAddr opcode) ((blockOrder opcode).idxOf i)) : Int) =
        (p : Int) + 4 * wordIndex opcode i) (f : Nat → Word) :
    ByteMem.Apart (fun i => wordPtr p (wordIndex opcode i)) (fun i => image c (f i)) (regList opcode) := by
  intro i hi j hj hij
  have hidx : (regList opcode).idxOf i ≠ (regList opcode).idxOf j := fun he => hij ((List.idxOf_inj hi).mp he)
  have hindex : wordIndex opcode i ≠ wordIndex opcode j := by
    unfold wordIndex
    split <;> omega
  have hi' := h i hi
  have hj' := h j hj
  have hlen : ∀ x : Word, (image c x).length = 4 := fun x => Lib.length_bytes c.hostBig 4 x.toNat
  simp only [hlen, ← wordPtr_of h hi, ← wordPtr_of h hj]
  omega

theorem bdtStore_page (op : MultiOpcode) {p : Nat} (hl : lBit op.opcode = false) (h : s.multiPtr op.opcode = some p)
    (lowPc : Nat) : s.bdtStore c io op.opcode lowPc = .ok (
      { s.withRegs (s.baseWritten op.opcode s.cpu.r) (s.icPc lowPc) with
        host := s.host.writeAll (fun i => wordPtr p (wordIndex op.opcode i))
          (fun i => image c (c.convert (s.stored lowPc i))) (regList op.opcode) }, .next) := by
  obtain ⟨page, hpage, hptr⟩ := multiPtr_spec h
  simp only [hl, Bool.false_eq_true, if_false] at hpage
  have hlen : (blockOrder op.opcode).length = nRegs op.opcode := (blockOrder_perm op.opcode).length_eq
  have hpush := @pushWords_page c io (s.syncPc lowPc) (pBit op.opcode) (uBit op.opcode) false (op.opcode &&& 0xffff#32)
    page (blockOrder op.opcode) (s.cpu.r (rn op.opcode)) (fun i hi => by
      have hi' := mem_regList.mp ((blockOrder_perm op.opcode).mem_iff.mp hi)
      exact (inList_regs hi'.1).trans hi'.2) (nodup_blockOrder op.opcode) (fun k hk => hpage k (hlen ▸ hk))
  have hmem : (s.syncPc lowPc).host.writeAll (fun i => wordInPage page
      (wordAddr (uBit op.opcode) (s.multiAddr op.opcode) ((blockOrder op.opcode).idxOf i)))
      (fun i => image c (c.convert (s.stored lowPc i))) (blockOrder op.opcode) =
      s.host.writeAll (fun i => wordPtr p (wordIndex op.opcode i)) (fun i => image c (c.convert (s.stored lowPc i)))
        (regList op.opcode) := by
    calc _ = s.host.writeAll (fun i => wordPtr p (wordIndex op.opcode i))
          (fun i => image c (c.convert (s.stored lowPc i))) (blockOrder op.opcode) := by
          refine List.foldl_ext _ _ _ fun m i hi => ?_
          dsimp only
          rw [wordPtr_of hptr ((blockOrder_perm op.opcode).mem_iff.mp hi)]
      _ = _ := (ByteMem.writeAll_perm _ (blockOrder_perm op.opcode).symm (apart_words hptr _)).symm
  unfold bdtStore armPush
  rw [pushWords_filter, order_regs, op.noS]
  show (do
    let r ← pushWords c io _ _ _ _ _ (s.cpu.r (rn op.opcode)) (s.syncPc lowPc)
    _) = _
  rw [hpush]
  rw [← hmem, hlen]
  unfold baseWritten
  cases wBit op.opcode <;> rfl

end ArmMachine

end Gxemul.Arm
