import Gxemul.Lib.Bytes
import Gxemul.Lib.Run
import Mathlib.Data.BitVec

/- Buffers that are read and written within their bounds.

   A read or a write of a buffer at an index that it does not have is an error, and so
   is a negative length that is handed to a function. `InBounds` says that there is no
   error; its lemmas turn a program into the conditions on the buffers it needs. -/
namespace Gxemul.Lib

/-- What a program does that leaves the bounds of a buffer. -/
inductive BoundsError where
  | read (i : Nat)
  | write (i : Nat)
  | negative

abbrev Checked := Except BoundsError

/-- A program that comes to its end and does not leave the bounds of a buffer. -/
def InBounds {ε α : Type*} (x : Except ε α) : Prop := ∃ a, x = .ok a

/-- An array of `n` bytes. -/
abbrev Block (n : Nat) := { l : List Byte // l.length = n }

def Block.zero (n : Nat) : Block n := ⟨List.replicate n 0#8, List.length_replicate⟩

@[simp] theorem length_block {n : Nat} (b : Block n) : b.1.length = n := b.2

/-- A length as it is passed to a function. -/
def checkLength (n : Int) : Checked Nat := if 0 ≤ n then .ok n.toNat else .error .negative

namespace Buf
variable (buf : List Byte)

def byte (i : Nat) : Byte := buf.getD i 0#8

def slice (i n : Nat) : List Byte := (buf.drop i).take n

/-- `memcpy()` into an array. -/
def block (i n : Nat) : Block n := ⟨(List.range n).map fun k => byte buf (i + k), by simp⟩

def readByte (i : Nat) : Checked Byte := if i < buf.length then .ok (byte buf i) else .error (.read i)

/-- The `n` bytes from `i` on. -/
def readBytes (i n : Nat) : Checked (List Byte) :=
  if i + n ≤ buf.length then .ok (slice buf i n) else .error (.read (max i buf.length))

def readBlock (i n : Nat) : Checked (Block n) :=
  if i + n ≤ buf.length then .ok (block buf i n) else .error (.read (max i buf.length))

/-- The buffer with `d` at `i`. -/
def set (i : Nat) (d : List Byte) : List Byte := buf.take i ++ d ++ buf.drop (i + d.length)

def write (i : Nat) (d : List Byte) : Checked (List Byte) :=
  if i + d.length ≤ buf.length then .ok (set buf i d) else .error (.write (max i buf.length))

/-- Several writes, one after the other. -/
def writeAll (ws : List (Nat × List Byte)) : Checked (List Byte) := ws.foldlM (fun buf w => write buf w.1 w.2) buf

def setAll (ws : List (Nat × List Byte)) : List Byte := ws.foldl (fun buf w => set buf w.1 w.2) buf

end Buf

section
variable {ε α β : Type*} {x : Except ε α} {f : α → Except ε β} {p : Prop} [Decidable p] {y : Except ε α}

@[simp] theorem inBounds_ok (a : α) : InBounds (.ok a : Except ε α) := ⟨a, rfl⟩

@[simp] theorem inBounds_pure (a : α) : InBounds (pure a : Except ε α) := ⟨a, rfl⟩

@[simp] theorem not_inBounds_error (e : ε) : ¬ InBounds (.error e : Except ε α) := by
  rintro ⟨a, h⟩
  cases h

theorem inBounds_ite : InBounds (if p then x else y) ↔ (p → InBounds x) ∧ (¬ p → InBounds y) := by
  split <;> rename_i hp <;> simp [hp]

end

section
variable {ε : Type*} {α β : Type} {x : Except ε α} {f : α → Except ε β}

/-- A sequence comes to its end if its second part does, from what the first returns. -/
theorem inBounds_bind : InBounds (x >>= f) ↔ ∃ a, x = .ok a ∧ InBounds (f a) := by
  cases x with
  | error e =>
    constructor
    · rintro ⟨b, h⟩
      cases h
    · rintro ⟨a, h, -⟩
      cases h
  | ok a =>
    constructor
    · intro h
      exact ⟨a, rfl, h⟩
    · rintro ⟨b, hb, h⟩
      cases hb
      exact h

/-- A function that returns, before a result is made of what it returns. -/
theorem inBounds_bind_pure {g : α → β} : InBounds (x >>= fun a => pure (g a)) ↔ InBounds x := by
  rw [inBounds_bind]
  exact ⟨fun ⟨a, h, _⟩ => ⟨a, h⟩, fun ⟨a, h⟩ => ⟨a, h, _, rfl⟩⟩

/-- A loop whose turns need something that does not depend on the state. -/
theorem inBounds_foldlM {σ ι : Type} {body : σ → ι → Except ε σ} {need : ι → Prop}
    (h : ∀ s i, InBounds (body s i) ↔ need i) : ∀ (l : List ι) (s : σ), InBounds (l.foldlM body s) ↔ ∀ i ∈ l, need i
  | [], s => ⟨fun _ i hi => absurd hi List.not_mem_nil, fun _ => ⟨s, rfl⟩⟩
  | i :: l, s => by
    rw [List.foldlM_cons, inBounds_bind, List.forall_mem_cons, ← h s i]
    constructor
    · rintro ⟨s', hs, hrest⟩
      exact ⟨⟨s', hs⟩, (inBounds_foldlM h l s').mp hrest⟩
    · rintro ⟨⟨s', hs⟩, hrest⟩
      exact ⟨s', hs, (inBounds_foldlM h l s').mpr hrest⟩

end

namespace Buf
variable {buf : List Byte} {i j n : Nat} {d : List Byte} {ws : List (Nat × List Byte)} {β : Type}

/-- A check that is followed by the rest of the program. -/
theorem inBounds_guard_bind {α : Type} {c : Prop} [Decidable c] {a : α} {e : BoundsError} {f : α → Checked β} :
    InBounds ((if c then .ok a else .error e) >>= f) ↔ c ∧ InBounds (f a) := by
  by_cases hc : c
  · rw [if_pos hc]
    exact ⟨fun hr => ⟨hc, hr⟩, fun hr => hr.2⟩
  · rw [if_neg hc]
    exact ⟨fun ⟨_, hr⟩ => (by cases hr), fun hr => absurd hr.1 hc⟩

theorem readByte_of_lt (h : i < buf.length) : readByte buf i = .ok (byte buf i) := if_pos h

theorem readBytes_of_le (h : i + n ≤ buf.length) : readBytes buf i n = .ok (slice buf i n) := if_pos h

theorem write_of_le (h : i + d.length ≤ buf.length) : write buf i d = .ok (set buf i d) := if_pos h

@[simp] theorem length_set (h : i + d.length ≤ buf.length) : (set buf i d).length = buf.length := by
  simp [set]
  omega

@[simp] theorem length_slice (h : i + n ≤ buf.length) : (slice buf i n).length = n := by
  simp [slice]
  omega

/-! ## What a program needs -/

theorem inBounds_readByte_bind {f : Byte → Checked β} :
    InBounds (readByte buf i >>= f) ↔ i < buf.length ∧ InBounds (f (byte buf i)) :=
  inBounds_guard_bind

theorem inBounds_readBytes_bind {f : List Byte → Checked β} :
    InBounds (readBytes buf i n >>= f) ↔ i + n ≤ buf.length ∧ InBounds (f (slice buf i n)) :=
  inBounds_guard_bind

theorem inBounds_readBlock_bind {f : Block n → Checked β} :
    InBounds (readBlock buf i n >>= f) ↔ i + n ≤ buf.length ∧ InBounds (f (block buf i n)) :=
  inBounds_guard_bind

theorem inBounds_write_bind {f : List Byte → Checked β} :
    InBounds (write buf i d >>= f) ↔ i + d.length ≤ buf.length ∧ InBounds (f (set buf i d)) :=
  inBounds_guard_bind

theorem inBounds_checkLength_bind {f : Nat → Checked β} {n : Int} :
    InBounds (checkLength n >>= f) ↔ 0 ≤ n ∧ InBounds (f n.toNat) :=
  inBounds_guard_bind

/-- Writes within the bounds of a buffer. -/
theorem writeAll_of_le (h : ∀ w ∈ ws, w.1 + w.2.length ≤ buf.length) :
    writeAll buf ws = .ok (setAll buf ws) ∧ (setAll buf ws).length = buf.length := by
  induction ws generalizing buf with
  | nil => exact ⟨rfl, rfl⟩
  | cons w ws ih =>
    have hw : w.1 + w.2.length ≤ buf.length := h w List.mem_cons_self
    have hlen := length_set hw
    obtain ⟨hok, hsame⟩ := @ih (set buf w.1 w.2) fun w' hw' => by
      rw [hlen]
      exact h w' (List.mem_cons_of_mem _ hw')
    refine ⟨?_, hsame.trans hlen⟩
    unfold writeAll
    rw [List.foldlM_cons, write_of_le hw]
    exact hok

theorem inBounds_writeAll_bind {f : List Byte → Checked β} : InBounds (writeAll buf ws >>= f) ↔
    (∀ w ∈ ws, w.1 + w.2.length ≤ buf.length) ∧ InBounds (f (setAll buf ws)) := by
  constructor
  · intro hr
    have hall : ∀ w ∈ ws, w.1 + w.2.length ≤ buf.length := by
      obtain ⟨a, ha, -⟩ := inBounds_bind.mp hr
      clear hr
      induction ws generalizing buf with
      | nil => simp
      | cons w ws ih =>
        unfold writeAll at ha
        rw [List.foldlM_cons] at ha
        obtain ⟨hw, hrest⟩ := inBounds_write_bind.mp ⟨a, ha⟩
        rw [write_of_le hw] at ha
        have hlen := length_set hw
        intro w' hw'
        obtain rfl | hw' := List.mem_cons.mp hw'
        · exact hw
        · have hle := ih ha w' hw'
          omega
    rw [(writeAll_of_le hall).1] at hr
    exact ⟨hall, hr⟩
  · rintro ⟨hall, hr⟩
    rw [(writeAll_of_le hall).1]
    exact hr

/-! ## What is read back -/

theorem byte_set (h : i + d.length ≤ buf.length) :
    byte (set buf i d) j = if i ≤ j ∧ j < i + d.length then byte d (j - i) else byte buf j := by
  unfold byte set
  have hi : (buf.take i).length = i := by
    rw [List.length_take]
    omega
  simp only [List.getD_eq_getElem?_getD]
  by_cases hj : j < i
  · rw [if_neg (by omega), List.append_assoc, List.getElem?_append_left (by omega), List.getElem?_take, if_pos hj]
  · by_cases hd : j < i + d.length
    · rw [if_pos (by omega), List.getElem?_append_left (by simp; omega), List.getElem?_append_right (by omega), hi]
    · rw [if_neg (by omega), List.getElem?_append_right (by simp; omega), List.getElem?_drop]
      congr 2
      simp only [List.length_append, hi]
      omega

/-- A write leaves the rest of the buffer as it is. -/
theorem slice_set_other {k : Nat} (h : i + d.length ≤ buf.length) (hk : j + k ≤ i ∨ i + d.length ≤ j) :
    slice (set buf i d) j k = slice buf j k := by
  apply List.ext_getElem?
  intro m
  unfold slice
  rw [List.getElem?_take, List.getElem?_take]
  split
  · have hi : (buf.take i).length = i := by
      rw [List.length_take]
      omega
    rw [List.getElem?_drop, List.getElem?_drop]
    unfold set
    obtain hk | hk := hk
    · rw [List.append_assoc, List.getElem?_append_left (by omega), List.getElem?_take, if_pos (by omega)]
    · rw [List.getElem?_append_right (by simp; omega), List.getElem?_drop]
      congr 1
      simp only [List.length_append, hi]
      omega
  · rfl

theorem slice_set_same (h : i + d.length ≤ buf.length) : slice (set buf i d) i d.length = d := by
  have hi : (buf.take i).length = i := by
    rw [List.length_take]
    omega
  unfold slice set
  rw [List.append_assoc, List.drop_left' hi, List.take_left]

/-- Several writes leave the rest of the buffer as it is. -/
theorem slice_setAll_other {k : Nat} (h : ∀ w ∈ ws, w.1 + w.2.length ≤ buf.length ∧ (j + k ≤ w.1 ∨ w.1 + w.2.length ≤ j)) :
    slice (setAll buf ws) j k = slice buf j k := by
  induction ws generalizing buf with
  | nil => rfl
  | cons w ws ih =>
    obtain ⟨hw, hdis⟩ := h w List.mem_cons_self
    refine (ih fun w' hw' => ?_).trans (slice_set_other hw hdis)
    rw [length_set hw]
    exact h w' (List.mem_cons_of_mem _ hw')

/-- Of several writes, one that no later one overwrites is read back. -/
theorem slice_setAll {pre post : List (Nat × List Byte)} (hb : i + d.length ≤ buf.length)
    (hpre : ∀ w ∈ pre, w.1 + w.2.length ≤ buf.length)
    (hpost : ∀ w ∈ post, w.1 + w.2.length ≤ buf.length ∧ (i + d.length ≤ w.1 ∨ w.1 + w.2.length ≤ i)) :
    slice (setAll buf (pre ++ (i, d) :: post)) i d.length = d := by
  have hlen := (writeAll_of_le hpre).2
  have hsplit : setAll buf (pre ++ (i, d) :: post) = setAll (set (setAll buf pre) i d) post := by
    unfold setAll
    rw [List.foldl_append]
    rfl
  have hbound : i + d.length ≤ (setAll buf pre).length := by omega
  rw [hsplit, slice_setAll_other fun w hw => ?_]
  · exact slice_set_same hbound
  · rw [length_set hbound, hlen]
    exact hpost w hw

/-- Of several writes, one that all later ones are behind. -/
theorem slice_setAll_at {w : Nat × List Byte} (k : Nat) (hk : ws[k]? = some w)
    (hfits : ∀ w ∈ ws, w.1 + w.2.length ≤ buf.length) (hpost : ∀ w' ∈ ws.drop (k + 1), w.1 + w.2.length ≤ w'.1) :
    slice (setAll buf ws) w.1 w.2.length = w.2 := by
  obtain ⟨hlt, hw⟩ := List.getElem?_eq_some_iff.mp hk
  have hsplit : ws = ws.take k ++ w :: ws.drop (k + 1) := by
    rw [← hw, ← List.drop_eq_getElem_cons hlt, List.take_append_drop]
  rw [hsplit]
  apply slice_setAll
  · exact hfits w (List.mem_of_getElem? hk)
  · exact fun w' hw' => hfits w' (List.mem_of_mem_take hw')
  · exact fun w' hw' => ⟨hfits w' (List.mem_of_mem_drop hw'), .inl (hpost w' hw')⟩

theorem byte_slice : byte (slice buf i n) j = if j < n then byte buf (i + j) else 0#8 := by
  unfold byte slice
  simp only [List.getD_eq_getElem?_getD, List.getElem?_take, List.getElem?_drop]
  split <;> rfl

theorem slice_slice {j k : Nat} (h : j + k ≤ n) : slice (slice buf i n) j k = slice buf (i + j) k := by
  unfold slice
  rw [List.drop_take, List.take_take, List.drop_drop, Nat.min_eq_left (by omega)]

/-- Two bytes of a buffer, as a number. -/
theorem value_slice (h : i + 2 ≤ buf.length) :
    value true (slice buf i 2) = (byte buf i).toNat * 256 + (byte buf (i + 1)).toNat := by
  have hslice : slice buf i 2 = [byte buf i, byte buf (i + 1)] := by
    apply List.ext_getElem?
    intro j
    unfold slice byte
    rw [List.getElem?_take, List.getElem?_drop]
    rcases j with _ | _ | j
    · simp [List.getD_eq_getElem?_getD, show i < buf.length by omega]
    · simp [List.getD_eq_getElem?_getD, show i + 1 < buf.length by omega]
    · simp
  rw [hslice]
  change (byte buf (i + 1)).toNat + 256 * ((byte buf i).toNat + 256 * 0) = _
  omega

end Buf

/-! ## Buffers that agree -/

namespace Buf
variable {P Q : Nat → Prop} {b b' d : List Byte} {ws : List (Nat × List Byte)} {i : Nat}

/-- Two buffers of one length, with the same bytes where `P` says so. -/
structure Agree (P : Nat → Prop) (b b' : List Byte) : Prop where
  length : b.length = b'.length
  byte : ∀ i, P i → byte b i = byte b' i

/-- One of the writes writes the byte at `i`. -/
def Covers (ws : List (Nat × List Byte)) (i : Nat) : Prop := ∃ w ∈ ws, w.1 ≤ i ∧ i < w.1 + w.2.length

theorem Agree.mono (h : Agree P b b') (hQ : ∀ i, Q i → P i) : Agree Q b b' := ⟨h.length, fun i hi => h.byte i (hQ i hi)⟩

/-- Buffers that agree everywhere are the same. -/
theorem Agree.eq (h : Agree P b b') (hP : ∀ i, i < b.length → P i) : b = b' := by
  apply List.ext_getElem h.length
  intro i hi hi'
  have hbyte := h.byte i (hP i hi)
  unfold Buf.byte at hbyte
  simpa [List.getD_eq_getElem?_getD, hi, hi'] using hbyte

/-- What is written to both is the same in both. -/
theorem Agree.set (h : Agree P b b') (hd : i + d.length ≤ b.length) :
    Agree (fun j => P j ∨ (i ≤ j ∧ j < i + d.length)) (set b i d) (set b' i d) := by
  have hd' : i + d.length ≤ b'.length := by
    rw [← h.length]
    exact hd
  refine ⟨by rw [length_set hd, length_set hd', h.length], ?_⟩
  intro j hj
  rw [byte_set hd, byte_set hd']
  split
  · rfl
  · rename_i hout
    rcases hj with hj | hj
    · exact h.byte j hj
    · exact absurd hj hout

theorem Agree.setAll (h : Agree P b b') (hws : ∀ w ∈ ws, w.1 + w.2.length ≤ b.length) :
    Agree (fun j => P j ∨ Covers ws j) (setAll b ws) (setAll b' ws) := by
  induction ws generalizing b b' P with
  | nil =>
    apply h.mono
    intro j hj
    rcases hj with hj | hj
    · exact hj
    · obtain ⟨w, hw, -⟩ := hj
      cases hw
  | cons w ws ih =>
    have hw : w.1 + w.2.length ≤ b.length := hws w List.mem_cons_self
    have hstep := ih (h.set hw) fun w' hw' => by
      rw [length_set hw]
      exact hws w' (List.mem_cons_of_mem _ hw')
    apply hstep.mono
    intro j hj
    rcases hj with hj | hj
    · exact .inl (.inl hj)
    · obtain ⟨w', hw', hin⟩ := hj
      rcases List.mem_cons.mp hw' with heq | hw'
      · rw [heq] at hin
        exact .inl (.inr hin)
      · exact .inr ⟨w', hw', hin⟩

/-- A byte that no write covers is left as it is. -/
theorem byte_setAll_other (hws : ∀ w ∈ ws, w.1 + w.2.length ≤ b.length) (hi : ¬ Covers ws i) :
    byte (Buf.setAll b ws) i = byte b i := by
  induction ws generalizing b with
  | nil => rfl
  | cons w ws ih =>
    have hw : w.1 + w.2.length ≤ b.length := hws w List.mem_cons_self
    have hrest : ¬ Covers ws i := fun hcov => by
      obtain ⟨w', hw', hin⟩ := hcov
      exact hi ⟨w', List.mem_cons_of_mem _ hw', hin⟩
    have hstep := ih (b := Buf.set b w.1 w.2) (fun w' hw' => by
      rw [length_set hw]
      exact hws w' (List.mem_cons_of_mem _ hw')) hrest
    calc byte (Buf.setAll b (w :: ws)) i
        = byte (Buf.set b w.1 w.2) i := hstep
      _ = byte b i := by
          rw [byte_set hw, if_neg fun hin => hi ⟨w, List.mem_cons_self, hin⟩]

end Buf

end Gxemul.Lib
