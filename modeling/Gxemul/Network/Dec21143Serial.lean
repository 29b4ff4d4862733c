import Gxemul.Network.Dec21143

/- The serial interfaces behind CSR9 of a DEC 21143: the management interface of the PHYs,
   and the serial ROM (mii_access() and srom_access() in `src/devices/dev_dec21143.c`).

   Frames are decoded right, however many there are (`miiFrames_decoded`,
   `sromFrames_decoded`). But the clocks of a read are also counted while the direction is
   wrong, and then the read has no end: the count is a shift amount (`serial_iff`). -/
namespace Gxemul.Dec21143

open Lib

def miiromSromsk : BitVec 32 := 0x00000002#32
def miiromSromdi : BitVec 32 := 0x00000004#32
def miiromSromdo : BitVec 32 := 0x00000008#32
def miiromSr : BitVec 32 := 0x00000800#32
def miiromBr : BitVec 32 := 0x00001000#32
def miiromMdc : BitVec 32 := 0x00010000#32
def miiromMdo : BitVec 32 := 0x00020000#32
def miiromMiidir : BitVec 32 := 0x00040000#32
def miiromMdi : BitVec 32 := 0x00080000#32

def romWidth : Nat := 6
def tulipSromOpcRead : Nat := 6
def miiCommandWrite : Nat := 1
def miiCommandRead : Nat := 2

inductive MiiState where
  | reset
  | startWait
  | readOp
  | readPhyaddrRegaddr
  | a
  | d
  | idle

/-- What C leaves undefined: a shift amount, or an index of an array. -/
inductive SerialFault where
  | shift
  | index

/-- The part of `struct dec21143_data` that writes to CSR9 work on. -/
structure Serial where
  /-- `reg[CSR_MIIROM / 8]`. -/
  miirom : BitVec 32
  srom : List (BitVec 8)
  sromCurbit : Nat
  sromOpcode : Nat
  sromOpcodeHasStarted : Bool
  sromAddr : Nat
  miiPhyReg : List (BitVec 16)
  miiState : MiiState
  miiBit : Int
  miiOpcode : Nat
  miiPhyaddr : Nat
  miiRegaddr : Nat

def drive (x bit : BitVec 32) (value : Bool) : BitVec 32 :=
  if value then (x &&& ~~~bit) ||| bit else x &&& ~~~bit

def shiftAmount (n : Int) : Except SerialFault Nat :=
  if 0 ≤ n ∧ n ≤ 31 then .ok n.toNat else .error .shift

def element {α : Type*} (l : List α) (i : Nat) : Except SerialFault α :=
  match l[i]? with
  | some x => .ok x
  | none => .error .index

namespace Serial
variable (d : Serial)

def driveMdi (value : Bool) : Serial := { d with miirom := drive d.miirom miiromMdi value }

def driveSromdo (value : Bool) : Serial := { d with miirom := drive d.miirom miiromSromdo value }

/-- `mii_bit ++`. -/
def nextMiiBit : Serial := { d with miiBit := (d.miiBit + 1).bmod (2 ^ 32) }

/-- A bit of the addresses in mii_access(). -/
def miiAddrBit (obit : Nat) : Except SerialFault Serial :=
  if d.miiBit ≤ 6 then do
    let n ← shiftAmount (6 - d.miiBit)
    pure { d with miiPhyaddr := d.miiPhyaddr ||| obit <<< n }
  else do
    let n ← shiftAmount (11 - d.miiBit)
    pure { d with miiRegaddr := d.miiRegaddr ||| obit <<< n }

/-- The end of a data clock in mii_access(). -/
def miiDataBit (last : Int) (ibit : Bool) : Serial :=
  let d := if last ≤ d.miiBit then { d with miiState := .idle } else d
  d.nextMiiBit.driveMdi ibit

/-- mii_access(), at a clock. -/
def miiClock (idata : BitVec 32) : Except SerialFault Serial :=
  let obit := (has idata miiromMdo).toNat
  match d.miiState with
  | .reset =>
    if obit = 1 then .ok d
    else if has idata miiromMiidir then .ok d
    else .ok ({ d with miiState := .startWait, miiOpcode := 0, miiPhyaddr := 0, miiRegaddr := 0 }.driveMdi false)
  | .startWait =>
    if obit = 0 then .ok d
    else if has idata miiromMiidir then .ok { d with miiState := .reset }
    else .ok ({ d with miiState := .readOp, miiBit := 0 }.driveMdi false)
  | .readOp =>
    let d := if d.miiBit = 0 then { d with miiOpcode := obit <<< 1 }
      else { d with miiOpcode := d.miiOpcode ||| obit, miiState := .readPhyaddrRegaddr }
    .ok (d.nextMiiBit.driveMdi false)
  | .readPhyaddrRegaddr => do
    let d ← d.miiAddrBit obit
    let d := d.nextMiiBit
    let d := if 12 ≤ d.miiBit then { d with miiState := .a } else d
    pure (d.driveMdi false)
  | .a =>
    let d :=
      if d.miiOpcode = miiCommandWrite then (if 13 ≤ d.miiBit then { d with miiState := .d } else d)
      else if d.miiOpcode = miiCommandRead then { d with miiState := .d }
      else { d with miiState := .reset }
    .ok (d.nextMiiBit.driveMdi false)
  | .d =>
    if d.miiOpcode = miiCommandWrite then do
      if obit = 1 then
        let _ ← shiftAmount (d.miiBit - 14)
      -- what is written is only printed
      let _ ← element d.miiPhyReg ((d.miiPhyaddr <<< 5) + d.miiRegaddr)
      pure (d.miiDataBit 29 false)
    else if d.miiOpcode = miiCommandRead then
      if has idata miiromMiidir then do
        let tmp ← element d.miiPhyReg ((d.miiPhyaddr <<< 5) + d.miiRegaddr)
        let n ← shiftAmount (d.miiBit - 13)
        pure (d.miiDataBit 28 (tmp &&& 0x8000#16 >>> n != 0#16))
      else .ok (d.nextMiiBit.driveMdi false)
    else .ok (d.nextMiiBit.driveMdi false)
  | .idle =>
    let d := d.nextMiiBit
    let d := if 31 ≤ d.miiBit then { d with miiState := .reset } else d
    .ok (d.driveMdi false)

def miiAccess (oldreg idata : BitVec 32) : Except SerialFault Serial :=
  if has idata miiromMdc = false then .ok d
  else if has oldreg miiromMdc then .ok d
  else if has idata miiromBr then .ok d
  else d.miiClock idata

def resetSrom : Serial :=
  { d with sromCurbit := 0, sromOpcode := 0, sromOpcodeHasStarted := false, sromAddr := 0 }

/-- A bit of srom_access() after the opcode. -/
def sromBit (ibit : Bool) : Except SerialFault Serial :=
  if d.sromOpcode = tulipSromOpcRead then
    if d.sromCurbit < romWidth + 3 then
      .ok ({ d with sromAddr := d.sromAddr <<< 1 ||| ibit.toNat }.driveSromdo (d.sromCurbit < romWidth + 2))
    else do
      let low ← element d.srom (d.sromAddr * 2)
      let high ← element d.srom (d.sromAddr * 2 + 1)
      let n ← shiftAmount (d.sromCurbit - romWidth - 3)
      pure (d.driveSromdo ((high ++ low : BitVec 16) &&& 0x8000#16 >>> n != 0#16))
  else .ok (d.driveSromdo false)

/-- `srom_curbit ++`, and the end of a transfer. -/
def nextSromBit : Serial :=
  if 3 + romWidth + 16 ≤ d.sromCurbit + 1 then { d with sromCurbit := d.sromCurbit + 1 }.resetSrom
  else { d with sromCurbit := d.sromCurbit + 1 }

/-- srom_access(), at a clock. -/
def sromClock (idata : BitVec 32) : Except SerialFault Serial :=
  let ibit := has idata miiromSromdi
  if ibit = false ∧ d.sromOpcodeHasStarted = false then .ok d
  else if d.sromCurbit < 3 then
    .ok { d with sromOpcodeHasStarted := true, sromOpcode := d.sromOpcode <<< 1 ||| ibit.toNat }.nextSromBit
  else do
    let d ← d.sromBit ibit
    pure d.nextSromBit

def sromAccess (oldreg idata : BitVec 32) : Except SerialFault Serial :=
  let d := if has idata miiromSr = true ∧ has oldreg miiromSr = false then d.resetSrom else d
  if has idata miiromSromsk = false then .ok d else d.sromClock idata

def write (idata : BitVec 32) : Except SerialFault Serial :=
  if has idata miiromMdc then { d with miirom := idata }.miiAccess d.miirom idata
  else { d with miirom := idata }.sromAccess d.miirom idata

end Serial

/-- After DEVINIT, with the contents of the serial ROM and of the registers of the PHYs. -/
def Serial.start (srom : Fin 128 → BitVec 8) (miiPhyReg : Fin 1024 → BitVec 16) : Serial where
  miirom := 0xfff483ff#32
  srom := List.ofFn srom
  sromCurbit := 0
  sromOpcode := 0
  sromOpcodeHasStarted := false
  sromAddr := 0
  miiPhyReg := List.ofFn miiPhyReg
  miiState := .reset
  miiBit := 0
  miiOpcode := 0
  miiPhyaddr := 0
  miiRegaddr := 0

section
variable {x bit other : BitVec 32} {value : Bool}

theorem has_drive (hbit : bit ≠ 0#32) : has (drive x bit value) bit = value := by
  unfold has drive
  cases value with
  | false =>
    have hnone : x &&& ~~~bit &&& bit = 0#32 := by rw [BitVec.and_assoc]; simp
    simp [hnone]
  | true =>
    have hall : (x &&& ~~~bit ||| bit) &&& bit = bit := by
      ext i
      simp
      tauto
    simpa [hall] using hbit

theorem has_drive_other (hother : other &&& bit = 0#32) : has (drive x bit value) other = has x other := by
  have hkeep : drive x bit value &&& other = x &&& other := by
    unfold drive
    ext i hi
    have hoff : (other[i] && bit[i]) = false := by
      have h := congrArg (fun y : BitVec 32 => y[i]) hother
      simpa using h
    cases hb : bit[i] <;> cases ho : other[i] <;> cases value <;> simp_all
  unfold has
  rw [hkeep]

end

/-! ## Steps -/

theorem shiftAmount_ok {n : Int} (h0 : 0 ≤ n) (h31 : n ≤ 31) : shiftAmount n = .ok n.toNat := if_pos ⟨h0, h31⟩

theorem element_ok {α : Type*} {l : List α} {i : Nat} (h : i < l.length) : ∃ x, element l i = .ok x :=
  ⟨l[i], by simp [element, h]⟩

namespace Serial
variable {d d' : Serial}

/-- What srom_access() leaves as it is. -/
structure SameMii (d d' : Serial) : Prop where
  srom : d'.srom = d.srom
  miiPhyReg : d'.miiPhyReg = d.miiPhyReg
  miiState : d'.miiState = d.miiState
  miiBit : d'.miiBit = d.miiBit
  miiOpcode : d'.miiOpcode = d.miiOpcode
  miiPhyaddr : d'.miiPhyaddr = d.miiPhyaddr
  miiRegaddr : d'.miiRegaddr = d.miiRegaddr

/-- srom_access() changes no other bit of CSR9 than its own. -/
structure OnlySrom (d d' : Serial) : Prop extends SameMii d d' where
  word : ∀ other, other &&& miiromSromdo = 0#32 → has d'.miirom other = has d.miirom other

/-- What mii_access() leaves as it is. -/
structure OnlyMii (d d' : Serial) : Prop where
  srom : d'.srom = d.srom
  sromCurbit : d'.sromCurbit = d.sromCurbit
  sromAddr : d'.sromAddr = d.sromAddr
  miiPhyReg : d'.miiPhyReg = d.miiPhyReg

theorem SameMii.trans {d'' : Serial} (h : SameMii d d') (h' : SameMii d' d'') : SameMii d d'' where
  srom := h'.srom.trans h.srom
  miiPhyReg := h'.miiPhyReg.trans h.miiPhyReg
  miiState := h'.miiState.trans h.miiState
  miiBit := h'.miiBit.trans h.miiBit
  miiOpcode := h'.miiOpcode.trans h.miiOpcode
  miiPhyaddr := h'.miiPhyaddr.trans h.miiPhyaddr
  miiRegaddr := h'.miiRegaddr.trans h.miiRegaddr

theorem OnlySrom.refl (d : Serial) : OnlySrom d d := ⟨⟨rfl, rfl, rfl, rfl, rfl, rfl, rfl⟩, fun _ _ => rfl⟩

theorem OnlySrom.trans {d'' : Serial} (h : OnlySrom d d') (h' : OnlySrom d' d'') : OnlySrom d d'' :=
  ⟨h.toSameMii.trans h'.toSameMii, fun other ho => (h'.word other ho).trans (h.word other ho)⟩

/-- The counter of the serial ROM's bits is one of a frame, and the address has no more bits than were read. -/
structure SromFits (d : Serial) : Prop where
  length : d.srom.length = 128
  curbit : d.sromCurbit < 25
  addr : d.sromAddr < 2 ^ min (d.sromCurbit - 3) 6

theorem SromFits.reset (h : d.SromFits) : d.resetSrom.SromFits :=
  ⟨h.length, Nat.succ_pos 24, Nat.two_pow_pos _⟩

theorem OnlySrom.reset : OnlySrom d d.resetSrom := { OnlySrom.refl d with }

theorem OnlySrom.driveSromdo (value : Bool) : OnlySrom d (d.driveSromdo value) where
  __ := OnlySrom.refl d
  word _ hother := has_drive_other hother

theorem OnlySrom.nextSromBit : OnlySrom d d.nextSromBit := by
  unfold Serial.nextSromBit
  split <;> exact { OnlySrom.refl d with }

theorem SromFits.nextSromBit (hlen : d.srom.length = 128) (haddr : d.sromAddr < 2 ^ min (d.sromCurbit + 1 - 3) 6) :
    d.nextSromBit.SromFits := by
  unfold Serial.nextSromBit
  split
  · exact ⟨hlen, Nat.succ_pos 24, Nat.two_pow_pos _⟩
  · rename_i hlast
    exact ⟨hlen, Nat.lt_of_not_le hlast, haddr⟩

theorem SromFits.sromBit (h : d.SromFits) (h3 : 3 ≤ d.sromCurbit) (ibit : Bool) :
    ∃ addr value, d.sromBit ibit = .ok ({ d with sromAddr := addr }.driveSromdo value) ∧
      addr < 2 ^ min (d.sromCurbit + 1 - 3) 6 := by
  have haddr := h.addr
  have hmono : 2 ^ min (d.sromCurbit - 3) 6 ≤ 2 ^ min (d.sromCurbit + 1 - 3) 6 :=
    Nat.pow_le_pow_right (by decide) (by omega)
  unfold Serial.sromBit
  split
  · split
    · rename_i h9
      have h9 : d.sromCurbit < 9 := h9
      have hmin : min (d.sromCurbit + 1 - 3) 6 = min (d.sromCurbit - 3) 6 + 1 := by omega
      refine ⟨_, _, rfl, ?_⟩
      rw [hmin]
      have hbit : ibit.toNat < 2 ^ (min (d.sromCurbit - 3) 6 + 1) :=
        lt_of_lt_of_le (Bool.toNat_lt ibit) (Nat.pow_le_pow_right Nat.two_pos (Nat.succ_pos _))
      refine Nat.or_lt_two_pow ?_ hbit
      rw [Nat.shiftLeft_eq, pow_succ]
      omega
    · rename_i h9
      have h9 : ¬ d.sromCurbit < 9 := h9
      have h64 : d.sromAddr < 64 := lt_of_lt_of_le haddr (Nat.pow_le_pow_right (by decide) (min_le_right _ _))
      have hcurbit := h.curbit
      obtain ⟨low, hlow⟩ : ∃ x, element d.srom (d.sromAddr * 2) = .ok x := element_ok (by rw [h.length]; omega)
      obtain ⟨high, hhigh⟩ : ∃ x, element d.srom (d.sromAddr * 2 + 1) = .ok x := element_ok (by rw [h.length]; omega)
      rw [hlow, hhigh, shiftAmount_ok (by rw [romWidth]; omega) (by rw [romWidth]; omega)]
      exact ⟨d.sromAddr, _, rfl, lt_of_lt_of_le haddr hmono⟩
  · exact ⟨d.sromAddr, false, rfl, lt_of_lt_of_le haddr hmono⟩

theorem SromFits.sromClock (h : d.SromFits) (idata : BitVec 32) :
    ∃ d', d.sromClock idata = .ok d' ∧ d'.SromFits ∧ OnlySrom d d' := by
  have hmono : 2 ^ min (d.sromCurbit - 3) 6 ≤ 2 ^ min (d.sromCurbit + 1 - 3) 6 :=
    Nat.pow_le_pow_right (by decide) (by omega)
  unfold Serial.sromClock
  dsimp only
  split
  · exact ⟨d, rfl, h, .refl d⟩
  · split
    · refine ⟨_, rfl, SromFits.nextSromBit h.length (lt_of_lt_of_le h.addr hmono), OnlySrom.trans ?_ .nextSromBit⟩
      exact { OnlySrom.refl d with }
    · rename_i h3
      obtain ⟨addr, value, heq, haddr⟩ := h.sromBit (Nat.le_of_not_lt h3) (has idata miiromSromdi)
      rw [heq]
      refine ⟨_, rfl, SromFits.nextSromBit h.length haddr, OnlySrom.trans ?_ .nextSromBit⟩
      have haddr : OnlySrom d { d with sromAddr := addr } := { OnlySrom.refl d with }
      exact haddr.trans (.driveSromdo value)

theorem SromFits.sromAccess (h : d.SromFits) (oldreg idata : BitVec 32) :
    ∃ d', d.sromAccess oldreg idata = .ok d' ∧ d'.SromFits ∧ OnlySrom d d' := by
  unfold Serial.sromAccess
  have hselect : ∃ d1, (if has idata miiromSr = true ∧ has oldreg miiromSr = false then d.resetSrom else d) = d1 ∧
      d1.SromFits ∧ OnlySrom d d1 := by
    refine ⟨_, rfl, ?_⟩
    split
    · exact ⟨h.reset, .reset⟩
    · exact ⟨h, .refl d⟩
  obtain ⟨d1, heq, h1, honly⟩ := hselect
  rw [heq]
  split
  · exact ⟨d1, rfl, h1, honly⟩
  · obtain ⟨d2, hd2, h2, honly2⟩ := h1.sromClock idata
    exact ⟨d2, hd2, h2, honly.trans honly2⟩

/-- What the counter of the bits of a frame can be. In a read it has no bound, once the data have begun. -/
def BitsFit (miiState : MiiState) (miiBit : Int) (miiOpcode : Nat) : Prop :=
  match miiState with
  | .readOp => miiBit = 0 ∨ miiBit = 1
  | .readPhyaddrRegaddr => 2 ≤ miiBit ∧ miiBit ≤ 11
  | .a => miiBit = 12 ∨ miiBit = 13 ∧ miiOpcode = miiCommandWrite
  | .d => miiOpcode = miiCommandWrite → 14 ≤ miiBit ∧ miiBit ≤ 29
  | _ => True

structure MiiFits (d : Serial) : Prop where
  length : d.miiPhyReg.length = 1024
  phyaddr : d.miiPhyaddr < 32
  regaddr : d.miiRegaddr < 32
  bits : BitsFit d.miiState d.miiBit d.miiOpcode

/-- A data clock of a read whose direction is right is one of the first 32 since the data began. -/
def InTime (d : Serial) (idata : BitVec 32) : Prop :=
  d.miiState = .d → d.miiOpcode = miiCommandRead → has idata miiromMiidir → 13 ≤ d.miiBit ∧ d.miiBit ≤ 44

theorem nextMiiBit_eq (h0 : 0 ≤ d.miiBit) (h : d.miiBit ≤ 100) :
    d.nextMiiBit = { d with miiBit := d.miiBit + 1 } := by
  unfold nextMiiBit
  rw [Int.bmod_eq_of_le (by omega) (by omega)]

theorem MiiFits.element (h : d.MiiFits) :
    ∃ x, element d.miiPhyReg ((d.miiPhyaddr <<< 5) + d.miiRegaddr) = .ok x := by
  have hphyaddr := h.phyaddr
  have hregaddr := h.regaddr
  refine element_ok ?_
  rw [h.length, Nat.shiftLeft_eq]
  omega

theorem MiiFits.addrBit (h : d.MiiFits) (hstate : d.miiState = .readPhyaddrRegaddr) (b : Bool) :
    ∃ phyaddr regaddr, d.miiAddrBit b.toNat = .ok { d with miiPhyaddr := phyaddr, miiRegaddr := regaddr } ∧
      phyaddr < 32 ∧ regaddr < 32 := by
  have hbits := h.bits
  rw [hstate] at hbits
  obtain ⟨h2, h11⟩ := hbits
  have hbit : ∀ n ≤ 4, b.toNat <<< n < 2 ^ 5 := by
    cases b <;> decide
  unfold miiAddrBit
  split
  · rw [shiftAmount_ok (by omega) (by omega)]
    exact ⟨_, _, rfl, Nat.or_lt_two_pow h.phyaddr (hbit _ (by omega)), h.regaddr⟩
  · rw [shiftAmount_ok (by omega) (by omega)]
    exact ⟨_, _, rfl, h.phyaddr, Nat.or_lt_two_pow h.regaddr (hbit _ (by omega))⟩

theorem MiiFits.dataBit (h : d.MiiFits) (hstate : d.miiState = .d) {last : Int} (ibit : Bool)
    (hlast : d.miiOpcode = miiCommandWrite → last ≤ 29) :
    (d.miiDataBit last ibit).MiiFits ∧ OnlyMii d (d.miiDataBit last ibit) := by
  have hbits := h.bits
  rw [hstate] at hbits
  unfold miiDataBit
  split
  · exact ⟨⟨h.length, h.phyaddr, h.regaddr, trivial⟩, ⟨rfl, rfl, rfl, rfl⟩⟩
  · refine ⟨⟨h.length, h.phyaddr, h.regaddr, ?_⟩, ⟨rfl, rfl, rfl, rfl⟩⟩
    simp only [driveMdi, nextMiiBit, hstate, BitsFit]
    intro hwrite
    obtain ⟨h14, -⟩ := hbits hwrite
    rw [Int.bmod_eq_of_le (by omega) (by omega)]
    omega

theorem MiiFits.clock (h : d.MiiFits) {idata : BitVec 32} (hguard : d.InTime idata) :
    ∃ d', d.miiClock idata = .ok d' ∧ d'.MiiFits ∧ OnlyMii d d' := by
  obtain ⟨x, hx⟩ := h.element
  obtain ⟨hlen, hphyaddr, hregaddr, hbits⟩ := id h
  unfold miiClock
  cases hstate : d.miiState <;> simp only [hstate] at hbits ⊢
  case reset =>
    split
    · exact ⟨d, rfl, h, ⟨rfl, rfl, rfl, rfl⟩⟩
    · split
      · exact ⟨d, rfl, h, ⟨rfl, rfl, rfl, rfl⟩⟩
      · exact ⟨_, rfl, ⟨hlen, Nat.two_pow_pos 5, Nat.two_pow_pos 5, trivial⟩, ⟨rfl, rfl, rfl, rfl⟩⟩
  case startWait =>
    split
    · exact ⟨d, rfl, h, ⟨rfl, rfl, rfl, rfl⟩⟩
    · split
      · exact ⟨_, rfl, ⟨hlen, hphyaddr, hregaddr, trivial⟩, ⟨rfl, rfl, rfl, rfl⟩⟩
      · exact ⟨_, rfl, ⟨hlen, hphyaddr, hregaddr, Or.inl rfl⟩, ⟨rfl, rfl, rfl, rfl⟩⟩
  case readOp =>
    obtain h0 | h1 := hbits
    · rw [if_pos h0, nextMiiBit_eq (by simp [h0]) (by simp [h0])]
      exact ⟨_, rfl, ⟨hlen, hphyaddr, hregaddr, by simp [driveMdi, BitsFit, h0]⟩, ⟨rfl, rfl, rfl, rfl⟩⟩
    · rw [if_neg (by simp [h1]), nextMiiBit_eq (by simp [h1]) (by simp [h1])]
      exact ⟨_, rfl, ⟨hlen, hphyaddr, hregaddr, by simp [driveMdi, BitsFit, h1]⟩, ⟨rfl, rfl, rfl, rfl⟩⟩
  case readPhyaddrRegaddr =>
    obtain ⟨phyaddr, regaddr, heq, hphyaddr', hregaddr'⟩ :=
      h.addrBit hstate (has idata miiromMdo)
    obtain ⟨h2, h11⟩ := hbits
    rw [heq, ok_bind, nextMiiBit_eq (by dsimp only; omega) (by dsimp only; omega)]
    refine ⟨_, rfl, ?_⟩
    dsimp only
    split
    · exact ⟨⟨hlen, hphyaddr', hregaddr', Or.inl (by simp only [driveMdi]; omega)⟩, ⟨rfl, rfl, rfl, rfl⟩⟩
    · refine ⟨⟨hlen, hphyaddr', hregaddr', ?_⟩, ⟨rfl, rfl, rfl, rfl⟩⟩
      simp only [driveMdi, hstate, BitsFit]
      omega
  case a =>
    have h13 : 12 ≤ d.miiBit ∧ d.miiBit ≤ 13 := by
      obtain h12 | ⟨h13, -⟩ := hbits <;> omega
    split
    · split
      · rw [nextMiiBit_eq (by dsimp only; omega) (by dsimp only; omega)]
        refine ⟨_, rfl, ⟨hlen, hphyaddr, hregaddr, fun _ => ?_⟩, ⟨rfl, rfl, rfl, rfl⟩⟩
        simp only [driveMdi]
        omega
      · rw [nextMiiBit_eq (by omega) (by omega)]
        refine ⟨_, rfl, ⟨hlen, hphyaddr, hregaddr, ?_⟩, ⟨rfl, rfl, rfl, rfl⟩⟩
        simp only [driveMdi, hstate, BitsFit]
        omega
    · rename_i hwrite
      split
      · exact ⟨_, rfl, ⟨hlen, hphyaddr, hregaddr, fun h => absurd h hwrite⟩, ⟨rfl, rfl, rfl, rfl⟩⟩
      · exact ⟨_, rfl, ⟨hlen, hphyaddr, hregaddr, trivial⟩, ⟨rfl, rfl, rfl, rfl⟩⟩
  case d =>
    split
    · rename_i hwrite
      obtain ⟨h14, h29⟩ := hbits hwrite
      rw [hx, shiftAmount_ok (by omega) (by omega)]
      split <;> exact ⟨_, rfl, h.dataBit hstate false fun _ => le_rfl⟩
    · split
      · rename_i hread
        split
        · rename_i hdir
          obtain ⟨h13, h44⟩ := hguard hstate hread hdir
          rw [hx, shiftAmount_ok (by omega) (by omega)]
          exact ⟨_, rfl, h.dataBit hstate _ fun _ => by decide⟩
        · refine ⟨_, rfl, ⟨hlen, hphyaddr, hregaddr, ?_⟩, ⟨rfl, rfl, rfl, rfl⟩⟩
          simp only [driveMdi, nextMiiBit, hstate, BitsFit]
          exact fun h => absurd h ‹_›
      · refine ⟨_, rfl, ⟨hlen, hphyaddr, hregaddr, ?_⟩, ⟨rfl, rfl, rfl, rfl⟩⟩
        simp only [driveMdi, nextMiiBit, hstate, BitsFit]
        exact fun h => absurd h ‹_›
  case idle =>
    refine ⟨_, rfl, ?_⟩
    split
    · exact ⟨⟨hlen, hphyaddr, hregaddr, trivial⟩, ⟨rfl, rfl, rfl, rfl⟩⟩
    · exact ⟨⟨hlen, hphyaddr, hregaddr, by simp only [driveMdi, nextMiiBit, hstate, BitsFit]⟩, ⟨rfl, rfl, rfl, rfl⟩⟩

theorem inTime_of_clock {idata : BitVec 32} (h : d.miiClock idata = .ok d') : d.InTime idata := by
  intro hstate hread hdir
  have hwrite : d.miiOpcode ≠ miiCommandWrite := by
    rw [hread]
    decide
  simp only [miiClock, hstate] at h
  rw [if_neg hwrite, if_pos hread, if_pos hdir] at h
  obtain ⟨x, -, h⟩ := bind_eq_ok h
  obtain ⟨n, hn, -⟩ := bind_eq_ok h
  unfold shiftAmount at hn
  split at hn
  · omega
  · cases hn

/-- A write to CSR9 that is a data clock of a read comes in time. -/
def WriteInTime (d : Serial) (idata : BitVec 32) : Prop :=
  has idata miiromMdc = true → has d.miirom miiromMdc = false → has idata miiromBr = false → d.InTime idata

structure Fits (d : Serial) : Prop where
  srom : d.SromFits
  mii : d.MiiFits

theorem Fits.onlySrom (h : d.Fits) (hsrom : d'.SromFits) (honly : SameMii d d') : d'.Fits := by
  obtain ⟨hlen, hphyaddr, hregaddr, hbits⟩ := h.mii
  refine ⟨hsrom, ?_, ?_, ?_, ?_⟩
  · rwa [honly.miiPhyReg]
  · rwa [honly.miiPhyaddr]
  · rwa [honly.miiRegaddr]
  · rwa [honly.miiState, honly.miiBit, honly.miiOpcode]

theorem Fits.onlyMii (h : d.Fits) (hmii : d'.MiiFits) (honly : OnlyMii d d') : d'.Fits := by
  obtain ⟨hlen, hcurbit, haddr⟩ := h.srom
  refine ⟨⟨?_, ?_, ?_⟩, hmii⟩
  · rwa [honly.srom]
  · rwa [honly.sromCurbit]
  · rwa [honly.sromAddr, honly.sromCurbit]

theorem Fits.word (h : d.Fits) (word : BitVec 32) : { d with miirom := word }.Fits :=
  ⟨⟨h.srom.length, h.srom.curbit, h.srom.addr⟩, h.mii.length, h.mii.phyaddr, h.mii.regaddr, h.mii.bits⟩

theorem Fits.write (h : d.Fits) {idata : BitVec 32} (hguard : d.WriteInTime idata) :
    ∃ d', d.write idata = .ok d' ∧ d'.Fits := by
  have hd := h.word idata
  unfold Serial.write
  split
  · rename_i hmdc
    unfold miiAccess
    rw [if_neg (by simp [hmdc])]
    split
    · exact ⟨_, rfl, hd⟩
    · rename_i hold
      split
      · exact ⟨_, rfl, hd⟩
      · rename_i hbr
        obtain ⟨d', heq, hmii, honly⟩ := hd.mii.clock
          (hguard hmdc (Bool.eq_false_iff.mpr hold) (Bool.eq_false_iff.mpr hbr))
        exact ⟨d', heq, hd.onlyMii hmii honly⟩
  · obtain ⟨d', heq, hsrom, honly⟩ := hd.srom.sromAccess d.miirom idata
    exact ⟨d', heq, hd.onlySrom hsrom honly.toSameMii⟩

theorem writeInTime_of_ok {idata : BitVec 32} (h : d.write idata = .ok d') : d.WriteInTime idata := by
  intro hmdc hold hbr
  unfold Serial.write miiAccess at h
  rw [if_pos hmdc, if_neg (by simp [hmdc]), if_neg (by simp [hold]), if_neg (by simp [hbr])] at h
  have hin : { d with miirom := idata }.InTime idata := inTime_of_clock h
  exact hin

theorem Fits.low (h : d.Fits) {idata : BitVec 32} (hlow : has idata miiromMdc = false) :
    ∃ d', d.write idata = .ok d' ∧ d'.Fits ∧ SameMii d d' ∧ has d'.miirom miiromMdc = false := by
  have hd := h.word idata
  have hword : SameMii d { d with miirom := idata } := ⟨rfl, rfl, rfl, rfl, rfl, rfl, rfl⟩
  obtain ⟨d', heq, hsrom, honly⟩ := hd.srom.sromAccess d.miirom idata
  refine ⟨d', ?_, hd.onlySrom hsrom honly.toSameMii, hword.trans honly.toSameMii, ?_⟩
  · rw [Serial.write, if_neg (by simp [hlow])]
    exact heq
  · rw [honly.word _ (by decide)]
    exact hlow

theorem Fits.lows {lows : List (BitVec 32)} (hlow : ∀ w ∈ lows, has w miiromMdc = false) (hne : lows ≠ []) :
    ∀ {d : Serial}, d.Fits → ∃ d', runOps Serial.write lows d = .ok d' ∧ d'.Fits ∧ SameMii d d' ∧
      has d'.miirom miiromMdc = false := by
  induction lows with
  | nil => exact absurd rfl hne
  | cons w lows ih =>
    intro d h
    obtain ⟨d1, hd1, h1, hsame, hmdc⟩ := h.low (hlow w List.mem_cons_self)
    rw [runOps, hd1]
    by_cases hnil : lows = []
    · subst hnil
      exact ⟨d1, rfl, h1, hsame, hmdc⟩
    · obtain ⟨d', hd', h', hsame', hmdc'⟩ := ih (fun w hw => hlow w (List.mem_cons_of_mem _ hw)) hnil h1
      exact ⟨d', hd', h', hsame.trans hsame', hmdc'⟩

theorem Fits.of_clock (h : d.Fits) {idata : BitVec 32} (hok : d.miiClock idata = .ok d') : d'.Fits := by
  obtain ⟨d1, hd1, hmii, honly⟩ := h.mii.clock (inTime_of_clock hok)
  obtain rfl : d' = d1 := Except.ok.inj (hok.symm.trans hd1)
  exact h.onlyMii hmii honly

/-! ## Frames -/

end Serial

/-- A clock: writes while it is low, and the write with which it rises. -/
structure Clock where
  lows : List (BitVec 32)
  high : BitVec 32

def Serial.clocks : List Clock → Serial → Except SerialFault (List (BitVec 32) × Serial)
  | [], d => .ok ([], d)
  | c :: cs, d => do
    let d ← runOps Serial.write (c.lows ++ [c.high]) d
    let (words, d') ← Serial.clocks cs d
    pure (d.miirom :: words, d')

/-- A bit of CSR9 is as it should be, if it should be something. -/
def Shows (bit word : BitVec 32) (b : Option Bool) : Prop := ∀ x ∈ b, has word bit = x

theorem clocks_run {P : Nat → Serial → Prop} {Carries : Nat → Clock → Prop} {bit : BitVec 32}
    {answer : Nat → Option Bool} {n : Nat}
    (hstep : ∀ i < n, ∀ d c, P i d → Carries i c → ∃ d', runOps Serial.write (c.lows ++ [c.high]) d = .ok d' ∧
      P (i + 1) d' ∧ Shows bit d'.miirom (answer i)) :
    ∀ {m i : Nat} {cs : List Clock} {d : Serial}, i + m = n → P i d →
      List.Forall₂ Carries (List.range' i m) cs → ∃ words d', Serial.clocks cs d = .ok (words, d') ∧ P n d' ∧
        List.Forall₂ (Shows bit) words ((List.range' i m).map answer)
  | 0, i, [], d, him, hp, _ => ⟨[], d, rfl, by rwa [← him], .nil⟩
  | m + 1, i, c :: cs, d, him, hp, .cons hc hcs => by
    obtain ⟨d1, hd1, hp1, hshows⟩ := hstep i (by omega) d c hp hc
    obtain ⟨words, d', hd', hp', hwords⟩ := clocks_run hstep (by omega) hp1 hcs
    refine ⟨d1.miirom :: words, d', ?_, hp', .cons hshows hwords⟩
    rw [Serial.clocks, hd1, ok_bind, hd']
    rfl

theorem clocks_append {cs cs' : List Clock} {d d1 d' : Serial} {words words' : List (BitVec 32)}
    (h : Serial.clocks cs d = .ok (words, d1)) (h' : Serial.clocks cs' d1 = .ok (words', d')) :
    Serial.clocks (cs ++ cs') d = .ok (words ++ words', d') := by
  induction cs generalizing d words with
  | nil =>
    cases h
    exact h'
  | cons c cs ih =>
    obtain ⟨d2, hd2, h⟩ := bind_eq_ok h
    obtain ⟨⟨words2, d3⟩, hcs, h⟩ := bind_eq_ok h
    cases h
    rw [List.cons_append, Serial.clocks, hd2, ok_bind, ih hcs]
    rfl

theorem clocks_frames {F : Type*} {Spells : F → List Clock → Prop} {Ready : Serial → Prop} {bit : BitVec 32}
    {answers : F → List (Option Bool)}
    (hframe : ∀ f cs d, Ready d → Spells f cs → ∃ words d', Serial.clocks cs d = .ok (words, d') ∧ Ready d' ∧
      List.Forall₂ (Shows bit) words (answers f)) {fs : List F} {css : List (List Clock)} {d : Serial} (hd : Ready d)
    (h : List.Forall₂ Spells fs css) : ∃ words d', Serial.clocks css.flatten d = .ok (words, d') ∧ Ready d' ∧
      List.Forall₂ (Shows bit) words (fs.flatMap answers) := by
  induction h generalizing d with
  | nil => exact ⟨[], d, rfl, hd, .nil⟩
  | @cons f cs fs css hf _ ih =>
    obtain ⟨words, d1, hd1, hready, hwords⟩ := hframe f cs d hd hf
    obtain ⟨words', d', hd', hready', hwords'⟩ := ih hready
    refine ⟨words ++ words', d', clocks_append hd1 hd', hready', ?_⟩
    rw [List.flatMap_cons]
    exact List.rel_append hwords hwords'

/-- A clock of the MII that sends a bit, or during which a PHY sends one. -/
structure Clock.IsMii (c : Clock) (bit : Option Bool) : Prop where
  falls : c.lows ≠ []
  low : ∀ w ∈ c.lows, has w miiromMdc = false
  high : has c.high miiromMdc = true
  noBr : has c.high miiromBr = false
  dir : has c.high miiromMiidir = bit.isNone
  bit : ∀ b ∈ bit, has c.high miiromMdo = b

theorem Clock.IsMii.run {c : Clock} {b : Option Bool} (hc : c.IsMii b) {d : Serial} (h : d.Fits) :
    ∃ d1 : Serial, d1.Fits ∧ Serial.SameMii d d1 ∧ runOps Serial.write (c.lows ++ [c.high]) d = d1.miiClock c.high := by
  obtain ⟨d1, hd1, h1, hsame, hmdc⟩ := Serial.Fits.lows hc.low hc.falls h
  refine ⟨{ d1 with miirom := c.high }, h1.word _, hsame.trans ⟨rfl, rfl, rfl, rfl, rfl, rfl, rfl⟩, ?_⟩
  rw [runOps_append, hd1, ok_bind, runOps, Serial.write, if_pos hc.high, Serial.miiAccess, if_neg (by simp [hc.high]),
    if_neg (by simp [hmdc]), if_neg (by simp [hc.noBr])]
  cases Serial.miiClock { d1 with miirom := c.high } c.high <;> rfl

structure MiiFrame where
  ones : Nat
  twoOnes : 2 ≤ ones
  isWrite : Bool
  phyaddr : BitVec 5
  regaddr : BitVec 5
  data : BitVec 16

namespace MiiFrame
variable (f : MiiFrame)

/-- The clocks from the opcode on. There are two turnaround bits in a write, and one in a read. -/
def length : Nat := if f.isWrite then 30 else 29

/-- What is sent with the `k`th of these clocks. -/
def sent (k : Nat) : Option Bool :=
  if k = 0 then some !f.isWrite
  else if k = 1 then some f.isWrite
  else if k < 7 then some (f.phyaddr.getMsbD (k - 2))
  else if k < 12 then some (f.regaddr.getMsbD (k - 7))
  else if !f.isWrite then none
  else if k < 14 then some (k = 12)
  else some (f.data.getMsbD (k - 14))

def answer (x : BitVec 16) (k : Nat) : Option Bool :=
  if !f.isWrite ∧ 13 ≤ k then some (x.getMsbD (k - 13)) else none

def clock (i : Nat) : Option Bool :=
  if i < f.ones then some true
  else if i < f.ones + 2 then some (i = f.ones + 1)
  else f.sent (i - f.ones - 2)

def answers (x : BitVec 16) (i : Nat) : Option Bool := if i < f.ones + 2 then none else f.answer x (i - f.ones - 2)

def Spells (cs : List Clock) : Prop :=
  List.Forall₂ (fun i c => c.IsMii (f.clock i)) (List.range' 0 (f.ones + 2 + f.length)) cs

def register : Nat := f.phyaddr.toNat * 32 + f.regaddr.toNat

def top (x : BitVec 5) (j : Nat) : Nat := (x.toNat >>> (5 - j)) <<< (5 - j)

theorem top_succ : ∀ j < 5, ∀ x : BitVec 5, top x j ||| (x.getMsbD j).toNat <<< (4 - j) = top x (j + 1) := by
  decide

theorem top_zero : ∀ x : BitVec 5, top x 0 = 0 := by decide

theorem top_all {x : BitVec 5} {j : Nat} (hj : 5 ≤ j) : top x j = x.toNat := by
  rw [top, Nat.sub_eq_zero_of_le hj]
  rfl

def stateAt (k : Nat) : MiiState :=
  if k < 2 then .readOp
  else if k < 12 then .readPhyaddrRegaddr
  else if k < f.length - 16 then .a
  else if k < f.length then .d
  else .idle

def opcodeAt (k : Nat) : Nat :=
  if f.isWrite then (if k < 2 then 0 else miiCommandWrite) else if k = 0 then 0 else miiCommandRead

/-- Before the `k`th clock of a frame after its start. -/
structure Partway (k : Nat) (d : Serial) : Prop where
  state : d.miiState = f.stateAt k
  bit : d.miiBit = k
  opcode : d.miiOpcode = f.opcodeAt k
  phyaddr : d.miiPhyaddr = top f.phyaddr (k - 2)
  regaddr : d.miiRegaddr = top f.regaddr (k - 7)

variable {f} {k : Nat} {d : Serial} {idata : BitVec 32} {x : BitVec 16}

theorem Partway.readOp (h : f.Partway k d) (hk : k < 2) (hbit : ∀ b ∈ f.sent k, has idata miiromMdo = b) :
    ∃ d', d.miiClock idata = .ok d' ∧ f.Partway (k + 1) d' ∧ d'.miiPhyReg = d.miiPhyReg := by
  have hstate : d.miiState = .readOp := h.state.trans (if_pos hk)
  have hopcode := h.opcode
  simp only [Serial.miiClock, hstate]
  obtain rfl | rfl : k = 0 ∨ k = 1 := by omega
  · have hk' : d.miiBit = 0 := h.bit
    have hobit : has idata miiromMdo = !f.isWrite := hbit _ rfl
    rw [if_pos hk', Serial.nextMiiBit_eq (by simp [hk']) (by simp [hk'])]
    refine ⟨_, rfl, ⟨rfl, ?_, ?_, h.phyaddr, h.regaddr⟩, rfl⟩
    · simp [Serial.driveMdi, hk']
    · simp only [Serial.driveMdi, hobit]
      cases hw : f.isWrite <;> simp [opcodeAt, hw, miiCommandRead]
  · have hk' : d.miiBit = 1 := h.bit
    have hobit : has idata miiromMdo = f.isWrite := hbit _ rfl
    rw [if_neg (by omega), Serial.nextMiiBit_eq (by simp [hk']) (by simp [hk'])]
    refine ⟨_, rfl, ⟨rfl, ?_, ?_, h.phyaddr, h.regaddr⟩, rfl⟩
    · simp [Serial.driveMdi, hk']
    · simp only [Serial.driveMdi, hobit, hopcode]
      cases hw : f.isWrite <;> simp [opcodeAt, hw, miiCommandRead, miiCommandWrite]

theorem opcodeAt_eq (h2 : 2 ≤ k) : f.opcodeAt k = if f.isWrite then miiCommandWrite else miiCommandRead := by
  unfold opcodeAt
  rw [if_neg (by omega : ¬ k < 2), if_neg (by omega : ¬ k = 0)]

theorem Partway.addrBit (h : f.Partway k d) (h2 : 2 ≤ k) (hk : k < 12)
    (hbit : ∀ b ∈ f.sent k, has idata miiromMdo = b) : d.miiAddrBit (has idata miiromMdo).toNat =
      .ok { d with miiPhyaddr := top f.phyaddr (k + 1 - 2), miiRegaddr := top f.regaddr (k + 1 - 7) } := by
  have hk' := h.bit
  have hphyaddr := h.phyaddr
  have hregaddr := h.regaddr
  unfold Serial.miiAddrBit
  by_cases h7 : k < 7
  · have hobit : has idata miiromMdo = f.phyaddr.getMsbD (k - 2) :=
      hbit _ (by simp [sent, show k ≠ 0 by omega, show k ≠ 1 by omega, h7])
    have htop := top_succ (k - 2) (by omega) f.phyaddr
    rw [if_pos (by omega), shiftAmount_ok (by omega) (by omega), ok_bind, hobit, hphyaddr]
    rw [show (6 - d.miiBit).toNat = 4 - (k - 2) by omega, htop, show k - 2 + 1 = k + 1 - 2 by omega,
      show k + 1 - 7 = k - 7 by omega, ← hregaddr]
    rfl
  · have hobit : has idata miiromMdo = f.regaddr.getMsbD (k - 7) :=
      hbit _ (by simp [sent, show k ≠ 0 by omega, show k ≠ 1 by omega, h7, hk])
    have htop := top_succ (k - 7) (by omega) f.regaddr
    rw [if_neg (by omega), shiftAmount_ok (by omega) (by omega), ok_bind, hobit, hregaddr]
    rw [show (11 - d.miiBit).toNat = 4 - (k - 7) by omega, htop, show k - 7 + 1 = k + 1 - 7 by omega,
      top_all (show 5 ≤ k + 1 - 2 by omega), ← top_all (x := f.phyaddr) (show 5 ≤ k - 2 by omega), ← hphyaddr]
    rfl

theorem Partway.address (h : f.Partway k d) (h2 : 2 ≤ k) (hk : k < 12)
    (hbit : ∀ b ∈ f.sent k, has idata miiromMdo = b) :
    ∃ d', d.miiClock idata = .ok d' ∧ f.Partway (k + 1) d' ∧ d'.miiPhyReg = d.miiPhyReg := by
  have hk' := h.bit
  have hstate : d.miiState = .readPhyaddrRegaddr :=
    h.state.trans ((if_neg (Nat.not_lt_of_le h2)).trans (if_pos hk))
  have hopcode : d.miiOpcode = f.opcodeAt (k + 1) := by
    rw [h.opcode, opcodeAt_eq h2, opcodeAt_eq (by omega)]
  simp only [Serial.miiClock, hstate, h.addrBit h2 hk hbit, ok_bind]
  rw [Serial.nextMiiBit_eq (by dsimp only; omega) (by dsimp only; omega)]
  refine ⟨_, rfl, ?_⟩
  split
  · rename_i hlast
    obtain rfl : k = 11 := by
      dsimp only at hlast
      omega
    have hstate' : f.stateAt 12 = .a := by
      cases hw : f.isWrite <;> simp [stateAt, length, hw]
    refine ⟨⟨hstate'.symm, ?_, hopcode, rfl, rfl⟩, rfl⟩
    simp only [Serial.driveMdi, hk']
    rfl
  · rename_i hlast
    have hk12 : k + 1 < 12 := by
      dsimp only at hlast
      omega
    have hstate' : f.stateAt (k + 1) = .readPhyaddrRegaddr := by
      simp [stateAt, hk12, show ¬ k + 1 < 2 by omega]
    refine ⟨⟨hstate'.symm, ?_, hopcode, rfl, rfl⟩, rfl⟩
    simp only [Serial.driveMdi, hk']
    rfl

theorem stateAt_late (h12 : 12 ≤ k) :
    f.stateAt k = if k < f.length - 16 then .a else if k < f.length then .d else .idle := by
  rw [stateAt, if_neg (by omega), if_neg (by omega)]

theorem Partway.late {d' : Serial} (h : f.Partway k d) (h12 : 12 ≤ k) (hstate : d'.miiState = f.stateAt (k + 1))
    (hbit : d'.miiBit = d.miiBit + 1) (hopcode : d'.miiOpcode = d.miiOpcode) (hphyaddr : d'.miiPhyaddr = d.miiPhyaddr)
    (hregaddr : d'.miiRegaddr = d.miiRegaddr) : f.Partway (k + 1) d' where
  state := hstate
  bit := by rw [hbit, h.bit]; rfl
  opcode := by rw [hopcode, h.opcode, opcodeAt_eq (by omega), opcodeAt_eq (by omega)]
  phyaddr := by rw [hphyaddr, h.phyaddr, top_all (by omega), top_all (by omega)]
  regaddr := by rw [hregaddr, h.regaddr, top_all (by omega), top_all (by omega)]

theorem Partway.turnaround (h : f.Partway k d) (h12 : 12 ≤ k) (hk : k < f.length - 16) :
    ∃ d', d.miiClock idata = .ok d' ∧ f.Partway (k + 1) d' ∧ d'.miiPhyReg = d.miiPhyReg := by
  have hk' := h.bit
  have hstate : d.miiState = .a := h.state.trans ((stateAt_late h12).trans (if_pos hk))
  have hopcode := h.opcode
  rw [opcodeAt_eq (by omega)] at hopcode
  simp only [Serial.miiClock, hstate]
  cases hw : f.isWrite with
  | false =>
    obtain rfl : k = 12 := by
      have hk : k < 29 - 16 := by simpa [length, hw] using hk
      omega
    have hread : d.miiOpcode = miiCommandRead := by rw [hopcode, hw]; rfl
    rw [if_neg (by rw [hread]; decide), if_pos hread, Serial.nextMiiBit_eq (by dsimp only; omega) (by dsimp only; omega)]
    refine ⟨_, rfl, h.late h12 ?_ rfl rfl rfl rfl, rfl⟩
    simp [Serial.driveMdi, stateAt, length, hw]
  | true =>
    have hwrite : d.miiOpcode = miiCommandWrite := by rw [hopcode, hw]; rfl
    obtain rfl | rfl : k = 12 ∨ k = 13 := by
      have hk : k < 30 - 16 := by simpa [length, hw] using hk
      omega
    · rw [if_pos hwrite, if_neg (by omega), Serial.nextMiiBit_eq (by omega) (by omega)]
      refine ⟨_, rfl, h.late h12 ?_ rfl rfl rfl rfl, rfl⟩
      simp [Serial.driveMdi, stateAt, length, hw, hstate]
    · rw [if_pos hwrite, if_pos (by omega), Serial.nextMiiBit_eq (by dsimp only; omega) (by dsimp only; omega)]
      refine ⟨_, rfl, h.late h12 ?_ rfl rfl rfl rfl, rfl⟩
      simp [Serial.driveMdi, stateAt, length, hw]

theorem and_shift_ne_zero (x : BitVec 16) {n : Nat} (hn : n < 16) : (x &&& 0x8000#16 >>> n != 0#16) = x.getMsbD n := by
  have hmask : ∀ n < 16, 0x8000#16 >>> n = BitVec.twoPow 16 (15 - n) := by decide
  rw [hmask n hn, BitVec.and_twoPow, BitVec.getMsbD_eq_getLsbD]
  have hne : ∀ n < 16, BitVec.twoPow 16 (15 - n) ≠ 0#16 := by decide
  simp only [hn, decide_true, Bool.true_and, show 16 - 1 - n = 15 - n by omega]
  split
  · rename_i hx
    simp [hx, hne n hn]
  · rename_i hx
    simp [hx]

theorem Partway.dataBit (h : f.Partway k d) (hstate : d.miiState = .d) (h13 : 13 ≤ k) (hlast : f.length - 16 ≤ k)
    (hk : k < f.length) (hk30 : k < 30) {last : Int} (heq : last = f.length - 1) (ibit : Bool) :
    f.Partway (k + 1) (d.miiDataBit last ibit) ∧ (d.miiDataBit last ibit).miiPhyReg = d.miiPhyReg := by
  have hk' := h.bit
  have hnext : f.stateAt (k + 1) = if k + 1 < f.length then .d else .idle := by
    rw [stateAt_late (by omega), if_neg (by omega)]
  unfold Serial.miiDataBit
  dsimp only
  split
  · rw [Serial.nextMiiBit_eq (by dsimp only; omega) (by dsimp only; omega)]
    refine ⟨h.late (by omega) ?_ rfl rfl rfl rfl, rfl⟩
    rw [hnext, if_neg (by omega)]
    rfl
  · rw [Serial.nextMiiBit_eq (by omega) (by omega)]
    refine ⟨h.late (by omega) ?_ rfl rfl rfl rfl, rfl⟩
    rw [hnext, if_pos (by omega)]
    exact hstate

theorem Partway.data (h : f.Partway k d) (hlast : f.length - 16 ≤ k) (hk : k < f.length)
    (hdir : has idata miiromMiidir = (f.sent k).isNone) (hx : d.miiPhyReg[f.register]? = some x) :
    ∃ d', d.miiClock idata = .ok d' ∧ f.Partway (k + 1) d' ∧ d'.miiPhyReg = d.miiPhyReg ∧
      Shows miiromMdi d'.miirom (f.answer x k) := by
  have hk' := h.bit
  have hlen : f.length = if f.isWrite then 30 else 29 := rfl
  have h13 : 13 ≤ k := by
    rw [hlen] at hlast
    split at hlast <;> omega
  have hopcode := h.opcode
  rw [opcodeAt_eq (by omega)] at hopcode
  have hstate : d.miiState = .d := by
    rw [h.state, stateAt_late (by omega), if_neg (by omega), if_pos hk]
  have hindex : (d.miiPhyaddr <<< 5) + d.miiRegaddr = f.register := by
    rw [h.phyaddr, h.regaddr, top_all (by omega), top_all (by omega), Nat.shiftLeft_eq]
    rfl
  have helement : element d.miiPhyReg ((d.miiPhyaddr <<< 5) + d.miiRegaddr) = .ok x := by
    rw [hindex, element, hx]
  simp only [Serial.miiClock, hstate]
  cases hw : f.isWrite with
  | false =>
    have hread : d.miiOpcode = miiCommandRead := by rw [hopcode, hw]; rfl
    have hsent : f.sent k = none := by
      simp [sent, hw, show k ≠ 0 by omega, show k ≠ 1 by omega, show ¬ k < 7 by omega, show ¬ k < 12 by omega]
    have hlen : f.length = 29 := by rw [hlen, hw]; rfl
    rw [if_neg (by rw [hread]; decide), if_pos hread, if_pos (by rw [hdir, hsent]; rfl), helement,
      shiftAmount_ok (by omega) (by omega), show (d.miiBit - 13).toNat = k - 13 by omega]
    obtain ⟨hnext, hreg⟩ := h.dataBit hstate h13 hlast hk (by omega) (show (28 : Int) = f.length - 1 by omega)
      (x &&& 0x8000#16 >>> (k - 13) != 0#16)
    refine ⟨_, rfl, hnext, hreg, fun b hb => ?_⟩
    rw [Serial.miiDataBit, Serial.driveMdi, has_drive (by decide), and_shift_ne_zero x (by omega)]
    simpa [answer, hw, h13] using hb
  | true =>
    have hwrite : d.miiOpcode = miiCommandWrite := by rw [hopcode, hw]; rfl
    have hlen : f.length = 30 := by rw [hlen, hw]; rfl
    have hnone : Shows miiromMdi (d.miiDataBit 29 false).miirom (f.answer x k) := by
      intro b hb
      simp [answer, hw] at hb
    obtain ⟨hnext, hreg⟩ := h.dataBit hstate h13 hlast hk (by omega) (show (29 : Int) = f.length - 1 by omega) false
    rw [if_pos hwrite, helement, shiftAmount_ok (by omega) (by omega)]
    split <;> exact ⟨_, rfl, hnext, hreg, hnone⟩

theorem Partway.next (h : f.Partway k d) (hk : k < f.length) (hdir : has idata miiromMiidir = (f.sent k).isNone)
    (hbit : ∀ b ∈ f.sent k, has idata miiromMdo = b) (hx : d.miiPhyReg[f.register]? = some x) :
    ∃ d', d.miiClock idata = .ok d' ∧ f.Partway (k + 1) d' ∧ d'.miiPhyReg = d.miiPhyReg ∧
      Shows miiromMdi d'.miirom (f.answer x k) := by
  by_cases hdata : f.length - 16 ≤ k
  · exact h.data hdata hk hdir hx
  · have h13 : k < 13 ∨ f.isWrite = true ∧ k < 14 := by
      unfold length at hdata
      split at hdata <;> simp_all
    have hnone : ∀ word, Shows miiromMdi word (f.answer x k) := by
      intro word b hb
      simp only [answer] at hb
      split at hb
      · simp_all
        omega
      · cases hb
    have hrest : ∃ d', d.miiClock idata = .ok d' ∧ f.Partway (k + 1) d' ∧ d'.miiPhyReg = d.miiPhyReg := by
      by_cases h2 : k < 2
      · exact h.readOp h2 hbit
      · by_cases h12 : k < 12
        · exact h.address (by omega) h12 hbit
        · exact h.turnaround (by omega) (by omega)
    obtain ⟨d', hd', hpartway, hreg⟩ := hrest
    exact ⟨d', hd', hpartway, hreg, hnone _⟩

theorem Partway.same {d' : Serial} (h : f.Partway k d) (hsame : Serial.SameMii d d') : f.Partway k d' where
  state := hsame.miiState.trans h.state
  bit := hsame.miiBit.trans h.bit
  opcode := hsame.miiOpcode.trans h.opcode
  phyaddr := hsame.miiPhyaddr.trans h.phyaddr
  regaddr := hsame.miiRegaddr.trans h.regaddr

/-- After `n` ones at most, the next frame can start. -/
def Rests (n : Nat) (d : Serial) : Prop :=
  d.miiState = .reset ∨ d.miiState = .idle ∧ 31 ≤ d.miiBit + n ∧ 0 ≤ d.miiBit ∧ d.miiBit ≤ 30

structure Starts (d : Serial) : Prop where
  state : d.miiState = .startWait
  opcode : d.miiOpcode = 0
  phyaddr : d.miiPhyaddr = 0
  regaddr : d.miiRegaddr = 0

theorem Rests.one {n : Nat} (h : Rests n d) (hobit : has idata miiromMdo = true) :
    ∃ d', d.miiClock idata = .ok d' ∧ Rests (n - 1) d' ∧ d'.miiPhyReg = d.miiPhyReg := by
  obtain hstate | ⟨hstate, hn, h0, h30⟩ := h
  · refine ⟨d, ?_, Or.inl hstate, rfl⟩
    simp [Serial.miiClock, hstate, hobit]
  · simp only [Serial.miiClock, hstate]
    rw [Serial.nextMiiBit_eq h0 (by omega)]
    refine ⟨_, rfl, ?_⟩
    split
    · exact ⟨Or.inl rfl, rfl⟩
    · rename_i hlt
      dsimp only at hlt
      refine ⟨Or.inr ⟨hstate, ?_⟩, rfl⟩
      simp only [Serial.driveMdi]
      omega

theorem Rests.start (h : Rests 0 d) (hobit : has idata miiromMdo = false) (hdir : has idata miiromMiidir = false) :
    ∃ d', d.miiClock idata = .ok d' ∧ Starts d' ∧ d'.miiPhyReg = d.miiPhyReg := by
  obtain hstate | ⟨-, hn, -, h30⟩ := h
  · simp only [Serial.miiClock, hstate]
    rw [if_neg (by simp [hobit]), if_neg (by simp [hdir])]
    exact ⟨_, rfl, ⟨rfl, rfl, rfl, rfl⟩, rfl⟩
  · omega

theorem Starts.start (h : Starts d) (hobit : has idata miiromMdo = true) (hdir : has idata miiromMiidir = false) :
    ∃ d', d.miiClock idata = .ok d' ∧ f.Partway 0 d' ∧ d'.miiPhyReg = d.miiPhyReg := by
  simp only [Serial.miiClock, h.state]
  rw [if_neg (by simp [hobit]), if_neg (by simp [hdir])]
  refine ⟨_, rfl, ⟨rfl, rfl, ?_, ?_, ?_⟩, rfl⟩
  · cases hw : f.isWrite <;> simp [Serial.driveMdi, h.opcode, opcodeAt, hw]
  · exact h.phyaddr.trans (top_zero f.phyaddr).symm
  · exact h.regaddr.trans (top_zero f.regaddr).symm

theorem Partway.rests (h : f.Partway f.length d) : Rests 2 d := by
  have hstate := h.state
  have hbit := h.bit
  refine Or.inr ⟨?_, ?_⟩
  · rw [hstate]
    cases hw : f.isWrite <;> simp [stateAt, length, hw]
  · have hlen : f.length = 30 ∨ f.length = 29 := by
      unfold length
      split
      · exact Or.inl rfl
      · exact Or.inr rfl
    omega

/-- Before the `i`th clock of a frame. -/
def Progress (f : MiiFrame) (i : Nat) (d : Serial) : Prop :=
  if i ≤ f.ones then Rests (2 - i) d
  else if i = f.ones + 1 then Starts d
  else f.Partway (i - f.ones - 2) d

theorem Progress.same {i : Nat} {d' : Serial} (h : f.Progress i d) (hsame : Serial.SameMii d d') : f.Progress i d' := by
  unfold Progress at h ⊢
  by_cases h0 : i ≤ f.ones
  · rw [if_pos h0] at h ⊢
    unfold Rests at h ⊢
    rwa [hsame.miiState, hsame.miiBit]
  · rw [if_neg h0] at h ⊢
    by_cases h1 : i = f.ones + 1
    · rw [if_pos h1] at h ⊢
      obtain ⟨hstate, hopcode, hphyaddr, hregaddr⟩ := h
      exact ⟨hsame.miiState.trans hstate, hsame.miiOpcode.trans hopcode, hsame.miiPhyaddr.trans hphyaddr,
        hsame.miiRegaddr.trans hregaddr⟩
    · rw [if_neg h1] at h ⊢
      exact h.same hsame

theorem Progress.next {i : Nat} (h : f.Progress i d) (hi : i < f.ones + 2 + f.length)
    (hdir : has idata miiromMiidir = (f.clock i).isNone) (hbit : ∀ b ∈ f.clock i, has idata miiromMdo = b)
    (hx : d.miiPhyReg[f.register]? = some x) : ∃ d', d.miiClock idata = .ok d' ∧ f.Progress (i + 1) d' ∧
      d'.miiPhyReg = d.miiPhyReg ∧ Shows miiromMdi d'.miirom (f.answers x i) := by
  have hones := f.twoOnes
  unfold Progress at h
  unfold clock at hdir hbit
  have hnone : ∀ word, i < f.ones + 2 → Shows miiromMdi word (f.answers x i) := by
    intro word hi b hb
    simp [answers, hi] at hb
  split at h
  · by_cases hlt : i < f.ones
    · rw [if_pos hlt] at hbit
      obtain ⟨d', hd', hrests, hreg⟩ := h.one (hbit true rfl)
      refine ⟨d', hd', ?_, hreg, hnone _ (by omega)⟩
      rwa [Progress, if_pos (by omega)]
    · obtain rfl : i = f.ones := by omega
      rw [if_neg hlt, if_pos (by omega)] at hbit hdir
      have hrests : Rests 0 d := by rwa [show 2 - f.ones = 0 by omega] at h
      obtain ⟨d', hd', hstarts, hreg⟩ := hrests.start (by simpa using hbit _ rfl) hdir
      refine ⟨d', hd', ?_, hreg, hnone _ (by omega)⟩
      rwa [Progress, if_neg (by omega), if_pos rfl]
  · split at h
    · rename_i hi'
      rw [if_neg (by omega), if_pos (by omega)] at hbit hdir
      obtain ⟨d', hd', hpartway, hreg⟩ := h.start (f := f) (by simpa [hi'] using hbit _ rfl) hdir
      refine ⟨d', hd', ?_, hreg, hnone _ (by omega)⟩
      rwa [Progress, if_neg (by omega), if_neg (by omega), show i + 1 - f.ones - 2 = 0 by omega]
    · rw [if_neg (by omega), if_neg (by omega)] at hbit hdir
      obtain ⟨d', hd', hpartway, hreg, hshows⟩ := h.next (by omega) hdir hbit hx
      refine ⟨d', hd', ?_, hreg, ?_⟩
      · rwa [Progress, if_neg (by omega), if_neg (by omega), show i + 1 - f.ones - 2 = i - f.ones - 2 + 1 by omega]
      · rwa [answers, if_neg (by omega)]

end MiiFrame

/-- The next frame of the MII can start, and the registers of the PHYs are these. -/
structure Serial.MiiReady (regs : List (BitVec 16)) (d : Serial) : Prop where
  fits : d.Fits
  rests : MiiFrame.Rests 2 d
  regs : d.miiPhyReg = regs

def MiiFrame.shown (f : MiiFrame) (regs : List (BitVec 16)) : List (Option Bool) :=
  (List.range' 0 (f.ones + 2 + f.length)).map (f.answers (regs.getD f.register 0#16))

theorem MiiFrame.decoded {regs : List (BitVec 16)} (f : MiiFrame) (cs : List Clock) (d : Serial) (hd : d.MiiReady regs)
    (h : f.Spells cs) : ∃ words d', Serial.clocks cs d = .ok (words, d') ∧ d'.MiiReady regs ∧
      List.Forall₂ (Shows miiromMdi) words (f.shown regs) := by
  have hregister : f.register < regs.length := by
    rw [← hd.regs, hd.fits.mii.length, register]
    omega
  have hx : regs[f.register]? = some (regs.getD f.register 0#16) := by
    rw [List.getD_eq_getElem?_getD, List.getElem?_eq_getElem hregister]
    rfl
  have hstep : ∀ i < f.ones + 2 + f.length, ∀ (d : Serial) (c : Clock), (d.Fits ∧ f.Progress i d ∧ d.miiPhyReg = regs) →
      c.IsMii (f.clock i) → ∃ d', runOps Serial.write (c.lows ++ [c.high]) d = .ok d' ∧
        (d'.Fits ∧ f.Progress (i + 1) d' ∧ d'.miiPhyReg = regs) ∧
        Shows miiromMdi d'.miirom (f.answers (regs.getD f.register 0#16) i) := by
    rintro i hi d c ⟨hfits, hprogress, hregs⟩ hc
    obtain ⟨d1, hfits1, hsame, hrun⟩ := hc.run hfits
    have hregs1 : d1.miiPhyReg = regs := hsame.miiPhyReg.trans hregs
    obtain ⟨d', hd', hprogress', hregs', hshows⟩ :=
      (hprogress.same hsame).next hi hc.dir hc.bit (by rw [hregs1]; exact hx)
    exact ⟨d', hrun.trans hd', ⟨hfits1.of_clock hd', hprogress', hregs'.trans hregs1⟩, hshows⟩
  have hfirst : f.Progress 0 d := by
    rw [Progress, if_pos (Nat.zero_le _)]
    exact hd.rests
  obtain ⟨words, d', hd', ⟨hfits, hlast, hregs⟩, hwords⟩ :=
    clocks_run hstep (Nat.zero_add _) ⟨hd.fits, hfirst, hd.regs⟩ h
  refine ⟨words, d', hd', ⟨hfits, ?_, hregs⟩, hwords⟩
  have hpartway : f.Partway f.length d' := by
    rw [Progress, if_neg (by omega), if_neg (by unfold length; split <;> omega)] at hlast
    rwa [show f.ones + 2 + f.length - f.ones - 2 = f.length by omega] at hlast
  exact hpartway.rests

structure Clock.IsSrom (c : Clock) (bit : Option Bool) : Prop where
  low : ∀ w ∈ c.lows, has w miiromMdc = false ∧ has w miiromSromsk = false
  noMdc : has c.high miiromMdc = false
  high : has c.high miiromSromsk = true
  selected : has c.high miiromSr = true
  bit : ∀ b ∈ bit, has c.high miiromSromdi = b

/-- A read of a word of the serial ROM, with the zeros in front of it. -/
structure SromFrame where
  zeros : Nat
  addr : BitVec 6

namespace SromFrame
variable (f : SromFrame)

def sent (k : Nat) : Option Bool :=
  if k < 3 then some (k ≠ 2) else if k < 9 then some (f.addr.getMsbD (k - 3)) else none

/-- The pattern by which the width of addresses is found out, and the word. -/
def answer (x : BitVec 16) (k : Nat) : Option Bool :=
  if k < 3 then none else if k < 9 then some (k ≠ 8) else some (x.getMsbD (k - 9))

def clock (i : Nat) : Option Bool := if i < f.zeros then some false else f.sent (i - f.zeros)

def answers (x : BitVec 16) (i : Nat) : Option Bool := if i < f.zeros then none else answer x (i - f.zeros)

/-- Clocks that are those of the frame. The ROM is not selected anew within a frame. -/
def Spells (cs : List Clock) : Prop :=
  List.Forall₂ (fun i c => c.IsSrom (f.clock i) ∧ (i ≠ 0 → ∀ w ∈ c.lows, has w miiromSr = true))
    (List.range' 0 (f.zeros + 25)) cs

def word (rom : List (BitVec 8)) : BitVec 16 :=
  rom.getD (f.addr.toNat * 2 + 1) 0#8 ++ rom.getD (f.addr.toNat * 2) 0#8

def shown (rom : List (BitVec 8)) : List (Option Bool) := (List.range' 0 (f.zeros + 25)).map (f.answers (f.word rom))

/-- In front of the `k`th clock from the opcode on. -/
structure Partway (k : Nat) (d : Serial) : Prop where
  curbit : d.sromCurbit = k
  opcode : d.sromOpcode = if k = 0 then 0 else if k = 1 then 1 else if k = 2 then 3 else tulipSromOpcRead
  started : d.sromOpcodeHasStarted = decide (0 < k)
  addr : d.sromAddr = f.addr.toNat >>> (6 - (k - 3))

/-- Before the `i`th clock of a frame. -/
structure Progress (rom : List (BitVec 8)) (i : Nat) (d : Serial) : Prop where
  partway : f.Partway ((i - f.zeros) % 25) d
  selected : i ≠ 0 → has d.miirom miiromSr = true
  rom : d.srom = rom

variable {f} {rom : List (BitVec 8)} {i : Nat} {d : Serial} {idata : BitVec 32}

theorem addr_zero : ∀ x : BitVec 6, x.toNat >>> 6 = 0 := by decide

theorem addr_succ : ∀ j < 6, ∀ x : BitVec 6,
    (x.toNat >>> (6 - j)) <<< 1 ||| (x.getMsbD j).toNat = x.toNat >>> (6 - (j + 1)) := by
  decide

theorem Progress.select (h : f.Progress rom i d) (hsr : i ≠ 0 → has idata miiromSr = true) :
    f.Progress rom i (if has idata miiromSr = true ∧ has d.miirom miiromSr = false
      then { d with miirom := idata }.resetSrom else { d with miirom := idata }) := by
  split
  · rename_i hedge
    obtain rfl : i = 0 := by
      by_contra hne
      rw [h.selected hne] at hedge
      exact Bool.noConfusion hedge.2
    refine ⟨?_, fun hne => absurd rfl hne, h.rom⟩
    rw [Nat.zero_sub, Nat.zero_mod]
    exact ⟨rfl, rfl, rfl, (addr_zero _).symm⟩
  · exact ⟨⟨h.partway.curbit, h.partway.opcode, h.partway.started, h.partway.addr⟩, hsr, h.rom⟩

theorem Progress.lows {lows : List (BitVec 32)}
    (hlow : ∀ w ∈ lows, has w miiromMdc = false ∧ has w miiromSromsk = false)
    (hsr : i ≠ 0 → ∀ w ∈ lows, has w miiromSr = true) (h : f.Progress rom i d) :
    ∃ d', runOps Serial.write lows d = .ok d' ∧ f.Progress rom i d' := by
  induction lows generalizing d with
  | nil => exact ⟨d, rfl, h⟩
  | cons w lows ih =>
    obtain ⟨hmdc, hsk⟩ := hlow w List.mem_cons_self
    have hselect := h.select (fun hne => hsr hne w List.mem_cons_self)
    obtain ⟨d', hd', h'⟩ := ih (fun w hw => hlow w (List.mem_cons_of_mem _ hw))
      (fun hne w hw => hsr hne w (List.mem_cons_of_mem _ hw)) hselect
    refine ⟨d', ?_, h'⟩
    rw [runOps, Serial.write, if_neg (by simp [hmdc]), Serial.sromAccess]
    simp only [hsk, if_true]
    exact hd'

theorem element_getD {α : Type*} {l : List α} {i : Nat} (h : i < l.length) (x : α) : element l i = .ok (l.getD i x) := by
  simp [element, h]

theorem partway_nextSromBit {k : Nat} (hk : k < 25) (hcurbit : d.sromCurbit = k)
    (hopcode : d.sromOpcode = if k = 0 then 1 else if k = 1 then 3 else tulipSromOpcRead)
    (hstarted : d.sromOpcodeHasStarted = true) (haddr : d.sromAddr = f.addr.toNat >>> (6 - (k + 1 - 3))) :
    f.Partway ((k + 1) % 25) d.nextSromBit := by
  unfold Serial.nextSromBit
  split
  · rename_i hlast
    have hlast : 25 ≤ d.sromCurbit + 1 := hlast
    obtain rfl : k = 24 := by omega
    exact ⟨rfl, rfl, rfl, (addr_zero _).symm⟩
  · rename_i hlast
    have hlast : ¬ 25 ≤ d.sromCurbit + 1 := hlast
    rw [Nat.mod_eq_of_lt (by omega)]
    refine ⟨by rw [← hcurbit], ?_, hstarted.trans (decide_eq_true (Nat.succ_pos k)).symm, haddr⟩
    simp only [hopcode, Nat.succ_ne_zero, if_false, Nat.add_eq_right, Nat.reduceEqDiff]

theorem Partway.next {k : Nat} (h : f.Partway k d) (hk : k < 25) (hrom : d.srom = rom) (hlen : rom.length = 128)
    (hbit : ∀ b ∈ f.sent k, has idata miiromSromdi = b) :
    ∃ d', d.sromClock idata = .ok d' ∧ f.Partway ((k + 1) % 25) d' ∧ Serial.OnlySrom d d' ∧
      Shows miiromSromdo d'.miirom (answer (f.word rom) k) := by
  obtain ⟨hcurbit, hopcode, hstarted, haddr⟩ := h
  unfold Serial.sromClock
  by_cases h3 : k < 3
  · have hibit : has idata miiromSromdi = decide (k ≠ 2) := hbit _ (by simp [sent, h3])
    have hgoes : ¬ (has idata miiromSromdi = false ∧ d.sromOpcodeHasStarted = false) := by
      rw [hibit, hstarted]
      simp
      omega
    rw [if_neg hgoes, if_pos (by omega)]
    refine ⟨_, rfl, partway_nextSromBit hk hcurbit ?_ rfl ?_, Serial.OnlySrom.trans ?_ .nextSromBit, ?_⟩
    · simp only [hopcode, hibit]
      obtain rfl | rfl | rfl : k = 0 ∨ k = 1 ∨ k = 2 := by omega
      all_goals rfl
    · simp only [haddr]
      rw [show k + 1 - 3 = k - 3 by omega]
    · exact { Serial.OnlySrom.refl d with }
    · intro b hb
      simp [answer, h3] at hb
  · have hread : d.sromOpcode = tulipSromOpcRead := by
      rw [hopcode, if_neg (by omega), if_neg (by omega), if_neg (by omega)]
    have hstarted' : d.sromOpcodeHasStarted = true := hstarted.trans (decide_eq_true (by omega))
    have hopcode' : d.sromOpcode = if k = 0 then 1 else if k = 1 then 3 else tulipSromOpcRead := by
      rw [hread, if_neg (by omega), if_neg (by omega)]
    have hshows : ∀ d1 : Serial, d1.nextSromBit.miirom = d1.miirom := by
      intro d1
      unfold Serial.nextSromBit
      split <;> rfl
    rw [if_neg (by simp [hstarted']), if_neg (by omega), Serial.sromBit, if_pos hread]
    by_cases h9 : k < 9
    · have hibit : has idata miiromSromdi = f.addr.getMsbD (k - 3) := hbit _ (by simp [sent, h3, h9])
      rw [if_pos (by rw [hcurbit]; exact h9)]
      refine ⟨_, rfl, partway_nextSromBit hk hcurbit hopcode' hstarted' ?_, Serial.OnlySrom.trans ?_ .nextSromBit, ?_⟩
      · simp only [Serial.driveSromdo, haddr, hibit]
        rw [addr_succ (k - 3) (by omega), show k - 3 + 1 = k + 1 - 3 by omega]
      · have haddr : Serial.OnlySrom d { d with sromAddr := d.sromAddr <<< 1 ||| (has idata miiromSromdi).toNat } :=
          { Serial.OnlySrom.refl d with }
        exact haddr.trans (.driveSromdo _)
      · intro b hb
        rw [hshows, Serial.driveSromdo, has_drive (by decide), hcurbit]
        have hb : decide (k ≠ 8) = b := by simpa [answer, h3, h9] using hb
        rw [← hb]
        exact decide_eq_decide.mpr (by rw [romWidth]; omega)
    · have haddr' : d.sromAddr = f.addr.toNat := by
        rw [haddr, show 6 - (k - 3) = 0 by omega]
        rfl
      rw [if_neg (by rw [hcurbit]; exact h9), hrom, haddr', element_getD (by omega) 0#8,
        element_getD (by omega) 0#8, shiftAmount_ok (by rw [romWidth]; omega) (by rw [romWidth]; omega)]
      refine ⟨_, rfl, partway_nextSromBit hk hcurbit hopcode' hstarted' ?_,
        Serial.OnlySrom.trans (.driveSromdo _) .nextSromBit, ?_⟩
      · rw [show 6 - (k + 1 - 3) = 0 by omega]
        exact haddr'
      · intro b hb
        rw [hshows, Serial.driveSromdo, has_drive (by decide),
          show ((d.sromCurbit : Int) - romWidth - 3).toNat = k - 9 by rw [romWidth]; omega,
          MiiFrame.and_shift_ne_zero _ (by omega)]
        have hb : (f.word rom).getMsbD (k - 9) = b := by simpa [answer, h3, h9] using hb
        exact hb

theorem Progress.next (h : f.Progress rom i d) (hlen : rom.length = 128) (hi : i < f.zeros + 25) {c : Clock}
    (hc : c.IsSrom (f.clock i)) (hsr : i ≠ 0 → ∀ w ∈ c.lows, has w miiromSr = true) :
    ∃ d', runOps Serial.write (c.lows ++ [c.high]) d = .ok d' ∧ f.Progress rom (i + 1) d' ∧
      Shows miiromSromdo d'.miirom (f.answers (f.word rom) i) := by
  obtain ⟨d1, hd1, h1⟩ := h.lows hc.low hsr
  obtain ⟨d2, hd2⟩ : ∃ d2, (if has c.high miiromSr = true ∧ has d1.miirom miiromSr = false
      then { d1 with miirom := c.high }.resetSrom else { d1 with miirom := c.high }) = d2 := ⟨_, rfl⟩
  have h2 := h1.select (fun _ => hc.selected)
  rw [hd2] at h2
  have hrun : runOps Serial.write (c.lows ++ [c.high]) d = d2.sromClock c.high := by
    rw [runOps_append, hd1, ok_bind, runOps, Serial.write, if_neg (by simp [hc.noMdc]), Serial.sromAccess]
    simp only [hd2, hc.high, Bool.true_eq_false, if_false]
    cases d2.sromClock c.high <;> rfl
  have hword : has d2.miirom miiromSr = true := by
    rw [← hd2]
    split <;> exact hc.selected
  have hbit := hc.bit
  unfold clock at hbit
  rw [hrun]
  by_cases hz : i < f.zeros
  · rw [if_pos hz] at hbit
    have hstarted : d2.sromOpcodeHasStarted = false := by
      have hstarted := h2.partway.started
      rwa [show (i - f.zeros) % 25 = 0 by omega] at hstarted
    refine ⟨d2, ?_, ⟨?_, fun _ => hword, h2.rom⟩, ?_⟩
    · rw [Serial.sromClock, if_pos ⟨hbit false rfl, hstarted⟩]
    · rw [show i + 1 - f.zeros = i - f.zeros by omega]
      exact h2.partway
    · intro b hb
      simp [answers, hz] at hb
  · rw [if_neg hz] at hbit
    have hk : (i - f.zeros) % 25 = i - f.zeros := Nat.mod_eq_of_lt (by omega)
    have hpartway := h2.partway
    rw [hk] at hpartway
    obtain ⟨d', hd', hpartway', honly, hshows⟩ := hpartway.next (by omega) h2.rom hlen hbit
    refine ⟨d', hd', ⟨?_, fun _ => (honly.word _ (by decide)).trans hword, honly.srom.trans h2.rom⟩, ?_⟩
    · rwa [show i + 1 - f.zeros = i - f.zeros + 1 by omega]
    · rwa [answers, if_neg hz]

end SromFrame

/-- The next frame of the serial ROM can start, and these are its contents. -/
structure Serial.SromReady (rom : List (BitVec 8)) (d : Serial) : Prop where
  length : rom.length = 128
  curbit : d.sromCurbit = 0
  opcode : d.sromOpcode = 0
  started : d.sromOpcodeHasStarted = false
  addr : d.sromAddr = 0
  rom : d.srom = rom

theorem SromFrame.decoded {rom : List (BitVec 8)} (f : SromFrame) (cs : List Clock) (d : Serial) (hd : d.SromReady rom)
    (h : f.Spells cs) : ∃ words d', Serial.clocks cs d = .ok (words, d') ∧ d'.SromReady rom ∧
      List.Forall₂ (Shows miiromSromdo) words (f.shown rom) := by
  have hfirst : f.Progress rom 0 d := by
    refine ⟨?_, fun hne => absurd rfl hne, hd.rom⟩
    rw [Nat.zero_sub, Nat.zero_mod]
    exact ⟨hd.curbit, hd.opcode, hd.started, hd.addr.trans (addr_zero _).symm⟩
  obtain ⟨words, d', hd', hlast, hwords⟩ :=
    clocks_run (fun i hi _ _ hp hc => hp.next hd.length hi hc.1 hc.2) (Nat.zero_add _) hfirst h
  have hpartway := hlast.partway
  rw [Nat.add_sub_cancel_left] at hpartway
  obtain ⟨hcurbit, hopcode, hstarted, haddr⟩ := hpartway
  exact ⟨words, d', hd', ⟨hd.length, hcurbit, hopcode, hstarted, haddr.trans (addr_zero _), hlast.rom⟩, hwords⟩

theorem start_ready (srom : Fin 128 → BitVec 8) (regs : Fin 1024 → BitVec 16) :
    (Serial.start srom regs).MiiReady (List.ofFn regs) ∧ (Serial.start srom regs).SromReady (List.ofFn srom) := by
  have hsrom : (Serial.start srom regs).srom = List.ofFn srom := by rw [Serial.start]
  have hregs : (Serial.start srom regs).miiPhyReg = List.ofFn regs := by rw [Serial.start]
  have hlen : (List.ofFn srom).length = 128 := by rw [List.length_ofFn]
  have hmii : (Serial.start srom regs).MiiFits :=
    ⟨by rw [hregs, List.length_ofFn], Nat.succ_pos 31, Nat.succ_pos 31, trivial⟩
  have hfits : (Serial.start srom regs).Fits := ⟨⟨by rw [hsrom, hlen], Nat.succ_pos 24, Nat.two_pow_pos _⟩, hmii⟩
  exact ⟨⟨hfits, Or.inl rfl, hregs⟩, hlen, rfl, rfl, rfl, rfl, hsrom⟩

/-- Frames of the MII and of the serial ROM are decoded right. Nothing that C leaves undefined is done just as long as
every data clock of a read whose direction is right is one of the first 32 since the data began. -/
theorem serial_iff (srom : Fin 128 → BitVec 8) (regs : Fin 1024 → BitVec 16) :
    (∀ fs css, List.Forall₂ MiiFrame.Spells fs css → ∃ words d',
      Serial.clocks css.flatten (Serial.start srom regs) = .ok (words, d') ∧ d'.MiiReady (List.ofFn regs) ∧
        List.Forall₂ (Shows miiromMdi) words (fs.flatMap fun f => f.shown (List.ofFn regs))) ∧
    (∀ fs css, List.Forall₂ SromFrame.Spells fs css → ∃ words d',
      Serial.clocks css.flatten (Serial.start srom regs) = .ok (words, d') ∧ d'.SromReady (List.ofFn srom) ∧
        List.Forall₂ (Shows miiromSromdo) words (fs.flatMap fun f => f.shown (List.ofFn srom))) ∧
    ∀ ws, Always Serial.write (fun _ => True) ws (Serial.start srom regs) ↔
      Along Serial.write Serial.WriteInTime ws (Serial.start srom regs) := by
  obtain ⟨hmii, hsrom⟩ := start_ready srom regs
  refine ⟨fun fs css h => clocks_frames MiiFrame.decoded hmii h, fun fs css h => clocks_frames SromFrame.decoded hsrom h,
    fun ws => ?_⟩
  exact always_iff_of_exits (fun d w hd hguard => hd.write hguard) (fun d w d' _ hok => Serial.writeInTime_of_ok hok)
    hmii.fits

/-- A read of register 0 that is clocked 32 times in the wrong direction, and then once in the right one. -/
def lateRead : List (BitVec 32) :=
  let send (mdo : Bool) : List (BitVec 32) := [0#32, if mdo then miiromMdc ||| miiromMdo else miiromMdc]
  [false, true, true, false].flatMap send ++ (List.replicate 43 false).flatMap send ++
    [0#32, miiromMdc ||| miiromMiidir]

theorem lateRead_shifts : ¬ ∀ srom regs ws, Always Serial.write (fun _ => True) ws (Serial.start srom regs) := by
  intro h
  have hlate := h (fun _ => 0#8) (fun _ => 0#16) lateRead
  obtain ⟨d, hd, -⟩ := hlate.last
  have hexit : ((runOps Serial.write lateRead (Serial.start (fun _ => 0#8) fun _ => 0#16)).toOption.isNone) = true := by
    decide +kernel
  rw [hd] at hexit
  cases hexit

end Gxemul.Dec21143
