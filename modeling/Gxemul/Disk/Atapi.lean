import Gxemul.Disk.WdcStore
import Gxemul.Lib.Run

/- The data of ATAPI packet commands (`src/devices/dev_wdc.c`).

   All of the data is put into the ring at once, and announced in pieces. The second
   piece is all that is left, and no piece at all when that is more than a piece can be:
   a transfer completes when it has two pieces at most (`atapi_iff`). -/
namespace Gxemul.Disk

open Lib (Byte Queue)

inductive AtapiPhase where
  | dataIn
  | completed
  deriving DecidableEq

/-- The device during a packet command whose data is `dataIn`, and what the guest has got of that. -/
structure Atapi where
  dev : Wdc
  atapiLen : Nat
  atapiReceived : Nat
  dataIn : List Byte
  phase : AtapiPhase
  out : List Byte := []

/-- diskimage_scsicommand() has been successful, and there is data. -/
def Wdc.atapiCommand (d : Wdc) (dataIn : List Byte) : Atapi where
  dev := { dataIn.foldl Wdc.addtoinbuf d with intAssert := true }
  atapiLen := if 32768 < dataIn.length then 32768 else dataIn.length
  atapiReceived := 0
  dataIn := dataIn
  phase := .dataIn

namespace Atapi
variable (s : Atapi) (big : Bool)

/-- CYL_LO and CYL_HI. -/
def announced : Nat :=
  let x := if 32768 < s.atapiLen then 32768 else s.atapiLen
  (x &&& 255) + 256 * ((x >>> 8) &&& 255)

def read (len : Nat) : Atapi :=
  let odata := s.dev.dataOdata big len
  let s := { s with
    dev := odata.2
    atapiLen := s.atapiLen - len
    atapiReceived := s.atapiReceived + len
    out := s.out ++ memoryWritemax64 big len odata.1 }
  if s.atapiLen = 0 then
    let left := s.dataIn.length - s.atapiReceived
    let s := { s with dev := { s.dev with intAssert := true } }
    if s.atapiReceived < s.dataIn.length then { s with phase := .dataIn, atapiLen := if 32768 < left then 0 else left }
    else { s with phase := .completed }
  else s

/-- What the guest does against the protocol: it reads without data, or not as many bytes as were announced. -/
inductive Misuse where
  | read

def step (s : Atapi) (lens : List Nat) : Except Misuse Atapi :=
  if s.phase = .dataIn ∧ (∀ len ∈ lens, Wdc.DataLen len) ∧ lens.sum = s.announced then .ok (lens.foldl (read · big) s)
  else .error .read

/-- The guest has got the first bytes of the data, all of it just at the end, and otherwise some more are announced. -/
structure Right (s : Atapi) : Prop where
  out : s.out <+: s.dataIn
  completed : s.phase = .completed ↔ s.out.length = s.dataIn.length
  announced : s.phase = .dataIn → 1 ≤ s.announced ∧ s.announced ≤ 32768 ∧
    s.announced ≤ s.dataIn.length - s.out.length

variable {s big}

theorem announced_eq (h : s.atapiLen ≤ 32768) : s.announced = s.atapiLen := by
  have hmask : ∀ n : Nat, n &&& 255 = n % 2 ^ 8 := fun n => Nat.and_two_pow_sub_one_eq_mod n 8
  unfold announced
  rw [if_neg (by omega)]
  dsimp only
  rw [hmask, hmask, Nat.shiftRight_eq_div_pow]
  omega

theorem foldl_read (big : Bool) {lens : List Nat} (hlens : ∀ len ∈ lens, Wdc.DataLen len) (hsum : lens.sum = s.atapiLen)
    (hpos : 0 < s.atapiLen) : ∃ s', lens.foldl (read · big) s = s' ∧ s'.dataIn = s.dataIn ∧
      let left := s.dataIn.length - (s.atapiReceived + s.atapiLen)
      if 0 < left then s'.phase = .dataIn ∧ s'.atapiReceived = s.atapiReceived + s.atapiLen ∧
        s'.atapiLen = if 32768 < left then 0 else left
      else s'.phase = .completed := by
  induction lens generalizing s with
  | nil => exact absurd hsum (by rw [List.sum_nil]; omega)
  | cons len lens ih =>
    rw [List.sum_cons] at hsum
    rw [List.foldl_cons]
    by_cases hlast : lens.sum = 0
    · -- the last access: there is none of width zero
      have hnil : lens = [] := by
        cases lens with
        | nil => rfl
        | cons len' lens =>
          rw [List.sum_cons] at hlast
          obtain h | h | h := hlens len' (List.mem_cons_of_mem _ List.mem_cons_self) <;> omega
      have hall : s.atapiLen - len = 0 := by omega
      have heq : s.atapiReceived + len = s.atapiReceived + s.atapiLen := by omega
      rw [hnil, List.foldl_nil]
      refine ⟨_, rfl, ?_⟩
      unfold read
      dsimp only
      rw [if_pos hall, heq]
      split
      · exact ⟨rfl, by rw [if_pos (by omega)]; exact ⟨rfl, rfl, rfl⟩⟩
      · exact ⟨rfl, by rw [if_neg (by omega)]⟩
    · have hrest : s.read big len = { s with
          dev := (s.dev.dataOdata big len).2
          atapiLen := s.atapiLen - len
          atapiReceived := s.atapiReceived + len
          out := s.out ++ memoryWritemax64 big len (s.dev.dataOdata big len).1 } := if_neg (by dsimp only; omega)
      obtain ⟨s', hs', hdata, hleft⟩ := ih (s := s.read big len) (fun l hl => hlens l (List.mem_cons_of_mem _ hl))
        (by rw [hrest]; dsimp only; omega) (by rw [hrest]; dsimp only; omega)
      have heq : s.atapiReceived + len + (s.atapiLen - len) = s.atapiReceived + s.atapiLen := by omega
      rw [hrest] at hdata hleft
      rw [heq] at hleft
      exact ⟨s', hs', hdata, hleft⟩

theorem foldl_read_out (big : Bool) {lens : List Nat} {l rest : List Byte} (hlens : ∀ len ∈ lens, Wdc.DataLen len)
    (hring : s.dev.inbuf.Holds wdcInbufSize (l ++ rest)) (hsum : l.length = lens.sum) :
    (lens.foldl (read · big) s).out = s.out ++ l ∧
      (lens.foldl (read · big) s).dev.inbuf.Holds wdcInbufSize rest := by
  induction lens generalizing s l with
  | nil =>
    obtain rfl := List.length_eq_zero_iff.mp hsum
    exact ⟨(List.append_nil _).symm, hring⟩
  | cons len lens ih =>
    rw [List.sum_cons] at hsum
    have htake : (l.take len).length = len := by
      rw [List.length_take]
      omega
    rw [← List.take_append_drop len l, List.append_assoc] at hring
    obtain ⟨odata, q, hodata, hvalue, hholds⟩ := Wdc.dataOdata_eq big hring
      (by rw [htake]; exact hlens len List.mem_cons_self)
    rw [htake] at hodata
    have hbytes : memoryWritemax64 big len odata = l.take len := by
      have h := Lib.bytes_value big (l.take len)
      rwa [htake, ← hvalue, ← memoryWritemax64_eq] at h
    have hread : (s.read big len).out = s.out ++ l.take len ∧ (s.read big len).dev.inbuf = q := by
      unfold read
      dsimp only
      rw [hodata, hbytes]
      split
      · split <;> exact ⟨rfl, rfl⟩
      · exact ⟨rfl, rfl⟩
    obtain ⟨hout, hrest⟩ := ih (s := s.read big len) (l := l.drop len)
      (fun len' hlen' => hlens len' (List.mem_cons_of_mem _ hlen')) (by rw [hread.2]; exact hholds)
      (by rw [List.length_drop]; omega)
    rw [List.foldl_cons]
    exact ⟨by rw [hout, hread.1, List.append_assoc, List.take_append_drop], hrest⟩

/-- What is left is in the ring, and it is at most one piece more than what is announced. -/
structure Inv (data : List Byte) (s : Atapi) : Prop where
  dataIn : s.dataIn = data
  completed : s.phase = .completed → s.out = data
  running : s.phase = .dataIn → ∃ l, s.out ++ l = data ∧ s.dev.inbuf.Holds wdcInbufSize l ∧
    s.atapiReceived = s.out.length ∧ 0 < s.atapiLen ∧ s.atapiLen ≤ 32768 ∧ s.atapiLen ≤ l.length ∧
    l.length ≤ s.atapiLen + 32768

variable {data : List Byte}

theorem Inv.right (h : Inv data s) : s.Right := by
  cases hphase : s.phase with
  | completed =>
    have hout := h.completed hphase
    rw [← h.dataIn] at hout
    exact ⟨by rw [hout], by rw [hout]; exact iff_of_true hphase rfl, fun hno => by rw [hphase] at hno; cases hno⟩
  | dataIn =>
    obtain ⟨l, hl, -, -, hpos, hle, hlen, -⟩ := h.running hphase
    have hsize : s.out.length + l.length = s.dataIn.length := by rw [h.dataIn, ← hl, List.length_append]
    refine ⟨by rw [h.dataIn, ← hl]; exact List.prefix_append _ _, iff_of_false (by rw [hphase]; decide) (by omega),
      fun _ => ?_⟩
    rw [announced_eq hle]
    omega

theorem Inv.step {lens : List Nat} {s' : Atapi} (h : Inv data s) (hstep : s.step big lens = .ok s') : Inv data s' := by
  unfold Atapi.step at hstep
  split at hstep
  · rename_i hprotocol
    obtain ⟨hphase, hlens, hsum⟩ := hprotocol
    cases hstep
    obtain ⟨l, hl, hring, hreceived, hpos, hle, hlen, hpiece⟩ := h.running hphase
    rw [announced_eq hle] at hsum
    have htake : (l.take s.atapiLen).length = s.atapiLen := by
      rw [List.length_take]
      omega
    obtain ⟨s', hs', hdata, hleft⟩ := foldl_read big hlens hsum hpos
    rw [← List.take_append_drop s.atapiLen l] at hring
    obtain ⟨hout, hrest⟩ := foldl_read_out big hlens hring (htake.trans hsum.symm)
    have hsize : s.out.length + l.length = s.dataIn.length := by rw [h.dataIn, ← hl, List.length_append]
    rw [hs'] at hout hrest ⊢
    have hall : s'.out ++ l.drop s.atapiLen = data := by
      rw [hout, List.append_assoc, List.take_append_drop, hl]
    have hdrop : (l.drop s.atapiLen).length = s.dataIn.length - (s.atapiReceived + s.atapiLen) := by
      rw [List.length_drop]
      omega
    dsimp only at hleft
    split at hleft
    · obtain ⟨hphase', hreceived', hlen'⟩ := hleft
      rw [if_neg (by omega), ← hdrop] at hlen'
      refine ⟨hdata.trans h.dataIn, (fun hno => by rw [hphase'] at hno; cases hno), fun _ => ⟨_, hall, hrest, ?_, ?_⟩⟩
      · rw [hreceived', hout, List.length_append, htake, hreceived]
      · omega
    · have hnil : l.drop s.atapiLen = [] := List.length_eq_zero_iff.mp (by omega)
      rw [hnil, List.append_nil] at hall
      exact ⟨hdata.trans h.dataIn, fun _ => hall, fun hno => by rw [hleft] at hno; cases hno⟩
  · cases hstep

end Atapi

/-- Whatever widths the guest reads with, the transfer goes on until it has all of the data. -/
def AtapiRight (big : Bool) (d : Wdc) (data : List Byte) : Prop :=
  ∀ pieces, Lib.Reaches (fun s lens => s.step big lens) Atapi.Right pieces (d.atapiCommand data)

theorem atapi_stops (big : Bool) (d : Wdc) {data : List Byte} (hlong : 65536 < data.length) :
    ¬ AtapiRight big d data := by
  intro hright
  have hlen : (d.atapiCommand data).atapiLen = 32768 := if_pos (by omega)
  obtain ⟨lens, hwidths, hsum⟩ : ∃ lens : List Nat, (∀ len ∈ lens, Wdc.DataLen len) ∧ lens.sum = 32768 :=
    ⟨List.replicate 8192 4, fun len h => .inr (.inr (List.eq_of_mem_replicate h)), List.sum_replicate_nat⟩
  obtain ⟨s', hs', hin, hleft⟩ := Atapi.foldl_read big hwidths (hsum.trans hlen.symm) (by rw [hlen]; decide)
  obtain ⟨-, hreach⟩ := hright [lens]
  have hstep : (d.atapiCommand data).step big lens = .ok s' := by
    rw [Atapi.step, if_pos ⟨rfl, hwidths, by rw [Atapi.announced_eq (by rw [hlen]), hsum, hlen]⟩, hs']
  have hreceived : (d.atapiCommand data).dataIn.length - ((d.atapiCommand data).atapiReceived +
      (d.atapiCommand data).atapiLen) = data.length - 32768 := by
    rw [hlen]
    show data.length - (0 + 32768) = _
    rw [Nat.zero_add]
  rw [hreceived] at hleft
  rw [if_pos (by omega), if_pos (by omega)] at hleft
  obtain ⟨hphase, -, hzero⟩ := hleft
  have hannounced := ((hreach s' hstep).announced hphase).1
  rw [Atapi.announced_eq (by rw [hzero]; decide), hzero] at hannounced
  omega

/-- A transfer is right if and only if it has no more than two pieces. -/
theorem atapi_iff (big : Bool) {d : Wdc} {data : List Byte} (hring : d.inbuf.Holds wdcInbufSize []) (hdata : data ≠ []) :
    AtapiRight big d data ↔ data.length ≤ 65536 := by
  have hpos := List.length_pos_of_ne_nil hdata
  constructor
  · intro hright
    by_contra hlong
    exact atapi_stops big d (by omega) hright
  · intro hshort pieces
    have hroom : data.length < wdcInbufSize := Nat.lt_of_le_of_lt hshort (by decide)
    obtain ⟨q, hq, hholds⟩ := @Wdc.foldl_addtoinbuf data [] d hring (by simpa using hroom)
    have hlen : (d.atapiCommand data).atapiLen = if 32768 < data.length then 32768 else data.length := rfl
    have hinbuf : (d.atapiCommand data).dev.inbuf = q := by
      show (data.foldl Wdc.addtoinbuf d).inbuf = q
      rw [hq]
      rfl
    have hinv : Atapi.Inv data (d.atapiCommand data) := by
      refine ⟨rfl, (fun hno => by cases hno), fun _ => ⟨data, rfl, by rw [hinbuf]; exact hholds, rfl, ?_⟩⟩
      rw [hlen]
      split <;> omega
    exact Lib.reaches_of_inv (fun _ _ _ h hs => h.step hs) (fun _ h => h.right) hinv

/-- 32 sectors of a CD-ROM, and one byte more. -/
theorem atapi_not_right : ¬ AtapiRight false WdcRun.oneSector (List.replicate 65537 0x00#8) :=
  atapi_stops _ _ (by rw [List.length_replicate]; decide)

theorem atapi_oneByte : AtapiRight false WdcRun.oneSector [0x42#8] :=
  (atapi_iff false (Queue.Holds.empty (by decide) rfl) (by decide)).mpr (by decide)

end Gxemul.Disk
