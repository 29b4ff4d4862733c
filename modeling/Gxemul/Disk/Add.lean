import Gxemul.Config.Parse
import Gxemul.Disk.Size
import Gxemul.Lib.Run
import Mathlib.Data.List.Perm.Subperm

/- The disk images of a machine (diskimage_add() in `src/disk/diskimage.c`).

   An image is put into the chain before its file is looked at, and nothing takes it out
   again. The chain has the images that were added in just the runs whose calls do not
   fail after that (`added_iff`). -/
namespace Gxemul.Disk.Chain

open Config (atoi)

inductive MachineType where
  | pmax | arc | sgi | luna88k | mvme88k | other
  deriving DecidableEq

/-- get_default_disk_type_for_machine(). -/
def MachineType.defaultDiskType : MachineType → DiskType
  | .other => .ide
  | _ => .scsi

/-! ## Prefixes -/

structure Prefixes where
  id : Int := -1
  b : Bool := false
  c : Bool := false
  d : Bool := false
  f : Bool := false
  g : Bool := false
  i : Bool := false
  o : Bool := false
  r : Bool := false
  R : Bool := false
  s : Bool := false
  t : Bool := false
  V : Bool := false
  overrideHeads : Int := 0
  overrideSpt : Int := 0
  overrideBaseOffset : Int := 0

def skipOne (chars s : List Char) : List Char := if s.head?.any (· ∈ chars) then s.tail else s

/-- One character, and what it takes from the rest of the name. -/
def readOne (p : Prefixes) (ch : Char) (s : List Char) : Option (Prefixes × List Char) :=
  if '0' ≤ ch ∧ ch ≤ '7' then some ({ p with id := ch.toNat - 48 }, s)
  else match ch with
    | 'b' => some ({ p with b := true }, s)
    | 'c' => some ({ p with c := true }, s)
    | 'd' => some ({ p with d := true }, s)
    | 'f' => some ({ p with f := true }, s)
    | 'g' =>
      let heads := atoi s
      let s := skipOne [';'] (s.dropWhile (· ≠ ';'))
      let spt := atoi s
      let s := skipOne [';'] (s.dropWhile (· ∉ [';', ':']))
      if heads < 1 ∨ spt < 1 then none
      else some ({ p with g := true, overrideHeads := heads, overrideSpt := spt }, s)
    | 'i' => some ({ p with i := true }, s)
    | 'o' =>
      let offset := atoi s
      if offset < 0 then none
      else some ({ p with o := true, overrideBaseOffset := offset },
        skipOne [':', ';'] (s.dropWhile (· ∉ [':', ';'])))
    | 'R' => some ({ p with R := true }, s)
    | 'r' => some ({ p with r := true }, s)
    | 's' => some ({ p with s := true }, s)
    | 't' => some ({ p with t := true }, s)
    | 'V' => some ({ p with V := true }, s)
    | ':' => some (p, s)
    | _ => none

/-- The loop over the prefixes. `colon` characters of the name are left at the colon, and each turn reads one at
least. -/
def readPrefixes (colon : Nat) : Nat → Prefixes → List Char → Option (Prefixes × List Char)
  | fuel + 1, p, ch :: s =>
    if colon ≤ (ch :: s).length then (readOne p ch s).bind fun (p, s) => readPrefixes colon fuel p s
    else some (p, ch :: s)
  | _, p, s => some (p, s)

def readName (fname : List Char) : Option (Prefixes × List Char) :=
  if ':' ∈ fname then readPrefixes (fname.dropWhile (· ≠ ':')).length fname.length {} fname else some ({}, fname)

/-- `d->type` before the size of the image is known. -/
def Prefixes.type (p : Prefixes) : DiskType :=
  if p.s then .scsi else if p.f then .floppy else if p.i then .ide else .unknown

/-! ## The chain -/

structure Image where
  id : Int
  fname : List Char
  geometry : Geometry
  overrideBaseOffset : Int
  isATape : Bool
  isBootDevice : Bool
  rpms : Nat
  writable : Bool
  isOpen : Bool
  overlays : List (List Char)
  deriving DecidableEq

def Image.type (d : Image) : DiskType := d.geometry.type

structure Host where
  /-- `st_size`. -/
  stat : List Char → Option Int
  readable : List Char → Bool
  writable : List Char → Bool
  /-- fopen() for reading, and also for writing. -/
  fopen : Bool → List Char → Bool
  /-- The temporary overlay for an id, when its files can be created. -/
  tmpOverlay : Int → Option (List Char)

structure Machine where
  machineType : MachineType
  chain : List Image

/-- What terminates the emulator. `endless` is a search for an id that does not end, and `tmpOverlay` closes a file
that is not open. -/
inductive AddExit where
  | prefixes | tooManyIds | idInUse | tmpOverlay | size (e : SizeExit) | endless

def Image.addOverlay (d : Image) (host : Host) (basename : List Char) : Option Image :=
  if host.fopen d.writable basename ∧ host.fopen d.writable (basename ++ ".map".toList) then
    some { d with overlays := d.overlays ++ [basename] }
  else none

def isCdromName (fname : List Char) : Bool :=
  let ending := (fname.drop (fname.length - 4)).map Char.toLower
  4 < fname.length ∧ (ending = ".cdr".toList ∨ ending = ".iso".toList)

/-- The new image up to the call of diskimage_recalc_size(). -/
def newImage (p : Prefixes) (fname : List Char) : Image where
  id := 0
  fname
  geometry := {
    type := p.type
    chsOverride := p.g
    cylinders := 0
    heads := if p.g then p.overrideHeads else 0
    sectorsPerTrack := if p.g then p.overrideSpt else 0
    totalSize := 0
    logicalBlockSize := 512
    nrOfLogicalBlocks := 0
    isACdrom := !p.t && (p.c || isCdromName fname && !p.d) }
  overrideBaseOffset := if p.o then p.overrideBaseOffset else 0
  isATape := p.t
  isBootDevice := false
  rpms := 0
  writable := false
  isOpen := false
  overlays := []

namespace Machine
variable (m : Machine)

def ids (type : DiskType) : List Int := (m.chain.filter fun d => d.type = type).map (·.id)

def searchId (ids : List Int) (delta : Int) : Nat → Int → Option Int
  | 0, _ => none
  | fuel + 1, free => if free ∈ ids then searchId ids delta fuel (free + delta) else some free

def chooseId (p : Prefixes) (type : DiskType) : Except AddExit Int :=
  if p.id = -1 then
    let luna := m.machineType = .luna88k
    match searchId (m.ids type) (if luna then -1 else 1) (m.chain.length + 1) (if luna then 6 else 0) with
    | none => .error .endless
    | some id => if id < 0 then .error .tooManyIds else .ok id
  else if p.id ∈ m.ids type then .error .idInUse
  else .ok p.id

def addToImage (host : Host) (p : Prefixes) (fname : List Char) : Int × Machine :=
  if p.id < 0 then (-1, m)
  else
    let type := if p.type = .unknown then m.machineType.defaultDiskType else p.type
    match m.chain.findIdx? fun dx => type = dx.type ∧ p.id = dx.id with
    | none => (-1, m)
    | some i =>
      match m.chain[i]?.bind fun dx => dx.addOverlay host fname with
      | none => (-1, m)
      | some dx => (dx.id, { m with chain := m.chain.set i dx })

def sizedImage (host : Host) (p : Prefixes) (fname : List Char) : Except AddExit Image :=
  let d := newImage p fname
  match d.geometry.recalcSize (host.stat fname) with
  | .error e => .error (.size e)
  | .ok (geometry, _) =>
    .ok { d with
      geometry :=
        if geometry.type = .unknown then { geometry with type := m.machineType.defaultDiskType } else geometry
      rpms := 3600
      isBootDevice := p.b
      writable := host.writable fname }

/-- The image is in the chain from the beginning, whatever comes then. -/
def addImage (host : Host) (p : Prefixes) (fname : List Char) : Except AddExit (Int × Machine) := do
  let linked (d : Image) : Machine := { m with chain := m.chain ++ [d] }
  let d ← m.sizedImage host p fname
  if host.readable fname = false then return (-1, linked d)
  if (d.geometry.isACdrom || p.r) = false ∧ d.writable = false ∧ p.R = false then return (-1, linked d)
  let d := { d with writable := !(d.geometry.isACdrom || p.r) }
  if host.fopen (d.writable && !p.R) fname = false then return (-1, linked d)
  let id ← m.chooseId p d.type
  let d := { d with isOpen := true, id }
  if p.R then
    match host.tmpOverlay id with
    | none => .error .tmpOverlay
    | some tmpname =>
      match d.addOverlay host tmpname with
      | none => return (-1, linked d)
      | some d => return (id, linked d)
  else return (id, linked d)

def add (host : Host) (fname : Option (List Char)) : Except AddExit (Int × Machine) :=
  match fname.bind readName with
  | none => .ok (-1, m)
  | some (p, fname) =>
    if 1 < p.i.toNat + p.f.toNat + p.s.toNat then .error .prefixes
    else if p.V && p.R then .ok (-1, m)
    else if p.V then .ok (m.addToImage host p fname)
    else m.addImage host p fname

end Machine

/-! ## Runs -/

/-- A call of diskimage_add(). -/
structure Call where
  host : Host
  fname : Option (List Char)

/-- The file of a call that adds an image, and not an overlay. -/
def Call.file (c : Call) : Option (List Char) :=
  (c.fname.bind readName).bind fun (p, fname) => if p.V then none else some fname

/-- The machine, the ids and files of the calls that have added an image, and whether all calls that returned -1 have
left the chain as it was. -/
structure Run where
  machine : Machine
  added : List (Int × List Char) := []
  kept : Bool := true

def Run.step (s : Run) (c : Call) : Except AddExit Run := do
  let (id, m) ← s.machine.add c.host c.fname
  return {
    machine := m
    added := s.added ++ (c.file.filter fun _ => 0 ≤ id).toList.map fun fname => (id, fname)
    kept := s.kept && (id ≠ -1 || m.chain = s.machine.chain) }

/-- The chain has one image for each of the calls, in their order, and no two images have the same type and id. -/
structure Run.Right (s : Run) : Prop where
  images : s.machine.chain.map (fun d => (d.id, d.fname)) = s.added
  unique : (s.machine.chain.map fun d => (d.type, d.id)).Nodup
  kept : s.kept = true

/-- The host opens the file of an image in the way that the call asks for, and its temporary overlay. -/
structure Machine.Usable (m : Machine) (host : Host) (p : Prefixes) (fname : List Char) (d : Image) : Prop where
  readable : host.readable fname = true
  writable : (d.geometry.isACdrom || p.r || host.writable fname || p.R) = true
  opened : host.fopen (!(d.geometry.isACdrom || p.r) && !p.R) fname = true
  overlay : p.R = true → ∀ id tmpname, m.chooseId p d.type = .ok id → host.tmpOverlay id = some tmpname →
    host.fopen (!(d.geometry.isACdrom || p.r)) tmpname = true ∧
      host.fopen (!(d.geometry.isACdrom || p.r)) (tmpname ++ ".map".toList) = true

/-- A call that does not put an image into the chain, or one that the host can use. -/
def Run.Good (s : Run) (c : Call) : Prop :=
  ∀ p fname d, c.fname.bind readName = some (p, fname) → p.V = false → p.i.toNat + p.f.toNat + p.s.toNat ≤ 1 →
    s.machine.sizedImage c.host p fname = .ok d → s.machine.Usable c.host p fname d

/-! ## Ids -/

section
variable {m m' : Machine} {host : Host} {p p' : Prefixes} {fname fname' : List Char} {r : Int}

theorem readOne_id {ch : Char} (hid : p.id = -1 ∨ 0 ≤ p.id) (h : readOne p ch fname = some (p', fname')) :
    p'.id = -1 ∨ 0 ≤ p'.id := by
  unfold readOne at h
  split at h
  · rename_i hdigit
    cases h
    have hlow : 48 ≤ ch.toNat := hdigit.1
    right
    show (0 : Int) ≤ (ch.toNat : Int) - 48
    omega
  · split at h <;> first | (cases h; done) | (cases h; exact hid) | skip
    all_goals
      dsimp only at h
      split at h
      · cases h
      · cases h
        exact hid

theorem readPrefixes_id {colon fuel : Nat} (hid : p.id = -1 ∨ 0 ≤ p.id)
    (h : readPrefixes colon fuel p fname = some (p', fname')) : p'.id = -1 ∨ 0 ≤ p'.id := by
  induction fuel generalizing p fname with
  | zero =>
    cases h
    exact hid
  | succ fuel ih =>
    cases fname with
    | nil =>
      cases h
      exact hid
    | cons ch s =>
      rw [readPrefixes] at h
      split at h
      · obtain ⟨⟨p1, s1⟩, hone, hrest⟩ := Option.bind_eq_some_iff.mp h
        exact ih (readOne_id hid hone) hrest
      · cases h
        exact hid

theorem readName_id (h : readName fname = some (p, fname')) : p.id = -1 ∨ 0 ≤ p.id := by
  unfold readName at h
  split at h
  · exact readPrefixes_id (.inl rfl) h
  · cases h
    exact .inl rfl

namespace Machine

theorem searchId_free {ids : List Int} {delta : Int} {fuel : Nat} {free id : Int}
    (h : searchId ids delta fuel free = some id) : id ∉ ids := by
  induction fuel generalizing free with
  | zero => cases h
  | succ fuel ih =>
    rw [searchId] at h
    split at h
    · exact ih h
    · rename_i hfree
      cases h
      exact hfree

theorem searchId_first {ids : List Int} {delta : Int} {n fuel : Nat} {free : Int} (hn : n < fuel)
    (hused : ∀ k < n, free + delta * k ∈ ids) (hfree : free + delta * n ∉ ids) :
    searchId ids delta fuel free = some (free + delta * n) := by
  obtain ⟨fuel, rfl⟩ := Nat.exists_eq_succ_of_ne_zero (Nat.ne_zero_of_lt hn)
  rw [searchId]
  induction n generalizing fuel free with
  | zero =>
    rw [Nat.cast_zero, mul_zero, add_zero] at hfree ⊢
    exact if_neg hfree
  | succ n ih =>
    have hstep (k : Nat) : free + delta * (k + 1 : Nat) = free + delta + delta * k := by push_cast; ring
    have hfirst : free ∈ ids := by simpa using hused 0 (Nat.succ_pos n)
    obtain ⟨fuel, rfl⟩ := Nat.exists_eq_succ_of_ne_zero (show fuel ≠ 0 by omega)
    rw [if_pos hfirst, searchId, hstep]
    exact ih (fun k hk => hstep k ▸ hused (k + 1) (by omega)) (hstep n ▸ hfree) fuel (by omega)

/-- The search for an ID ends with the first one that is free. -/
theorem chooseId_first (m : Machine) (p : Prefixes) (type : DiskType) :
    let start : Int := if m.machineType = .luna88k then 6 else 0
    let delta : Int := if m.machineType = .luna88k then -1 else 1
    ∃ n ≤ m.chain.length, (∀ k < n, start + delta * k ∈ m.ids type) ∧ start + delta * n ∉ m.ids type ∧
      m.chooseId { p with id := -1 } type =
        if start + delta * n < 0 then .error .tooManyIds else .ok (start + delta * n) := by
  intro start delta
  have hsome : ∃ n : Nat, n ≤ m.chain.length ∧ start + delta * n ∉ m.ids type := by
    by_contra! hall
    have hne : delta ≠ 0 := by
      unfold delta
      split <;> decide
    have hnodup : ((List.range (m.chain.length + 1)).map fun k : Nat => start + delta * k).Nodup := by
      refine List.nodup_range.map fun j k hjk => ?_
      exact_mod_cast mul_left_cancel₀ hne (add_left_cancel hjk)
    have hsub : ∀ x ∈ (List.range (m.chain.length + 1)).map fun k : Nat => start + delta * k, x ∈ m.ids type := by
      intro x hx
      obtain ⟨k, hk, rfl⟩ := List.mem_map.mp hx
      exact hall k (Nat.lt_succ_iff.mp (List.mem_range.mp hk))
    have hlen := (hnodup.subperm hsub).length_le
    have hids : (m.ids type).length ≤ m.chain.length := by
      rw [ids, List.length_map]
      exact List.length_filter_le _ _
    rw [List.length_map, List.length_range] at hlen
    omega
  obtain ⟨hn, hfree⟩ := Nat.find_spec hsome
  have hused : ∀ k < Nat.find hsome, start + delta * k ∈ m.ids type := by
    intro k hk
    by_contra hfree
    exact Nat.find_min hsome hk ⟨by omega, hfree⟩
  refine ⟨Nat.find hsome, hn, hused, hfree, ?_⟩
  have hsearch := searchId_first (Nat.lt_succ_of_le hn) hused hfree
  unfold chooseId
  rw [if_pos rfl]
  dsimp only
  rw [hsearch]

theorem chooseId_ok {type : DiskType} {id : Int} (hid : p.id = -1 ∨ 0 ≤ p.id) (h : m.chooseId p type = .ok id) :
    0 ≤ id ∧ id ∉ m.ids type := by
  unfold chooseId at h
  split at h
  · dsimp only at h
    split at h
    · cases h
    · rename_i hsearch
      split at h
      · cases h
      · cases h
        exact ⟨by omega, searchId_free hsearch⟩
  · split at h
    · cases h
    · cases h
      exact ⟨by omega, ‹_›⟩

/-! ## One call -/

theorem sizedImage_ok (m : Machine) (host : Host) (p : Prefixes) (fname : List Char) :
    ∃ d, m.sizedImage host p fname = .ok d ∧ d.fname = fname ∧ d.writable = host.writable fname := by
  have hblock : ∀ size, (((newImage p fname).geometry.sized size).chs size).logicalBlockSize = 512 := by
    intro size
    unfold Geometry.chs
    split
    · rfl
    · split <;> rfl
  obtain ⟨g, b, hg⟩ : ∃ g b, (newImage p fname).geometry.recalcSize (host.stat fname) = .ok (g, b) := by
    unfold Geometry.recalcSize
    cases host.stat fname with
    | none => exact ⟨_, _, rfl⟩
    | some size =>
      dsimp only
      unfold Geometry.blocks
      rw [hblock, if_neg (by decide)]
      exact ⟨_, _, rfl⟩
  unfold sizedImage
  dsimp only
  rw [hg]
  exact ⟨_, rfl, rfl, rfl⟩

theorem addImage_cases {d : Image} (hid : p.id = -1 ∨ 0 ≤ p.id) (hd : m.sizedImage host p fname = .ok d)
    (hfname : d.fname = fname) (hwritable : d.writable = host.writable fname) :
    (m.Usable host p fname d → ∀ r m', m.addImage host p fname = .ok (r, m') → 0 ≤ r ∧
      ∃ d', m' = { m with chain := m.chain ++ [d'] } ∧ d'.fname = fname ∧ d'.id = r ∧ r ∉ m.ids d'.type) ∧
    (¬ m.Usable host p fname d → ∃ d', m.addImage host p fname = .ok (-1, { m with chain := m.chain ++ [d'] })) := by
  unfold addImage
  rw [hd]
  simp only [Lib.ok_bind]
  by_cases hreadable : host.readable fname = false
  · rw [if_pos hreadable]
    exact ⟨fun h => absurd h.readable (by rw [hreadable]; decide), fun _ => ⟨_, rfl⟩⟩
  rw [if_neg hreadable]
  by_cases hro : (d.geometry.isACdrom || p.r) = false ∧ d.writable = false ∧ p.R = false
  · rw [if_pos hro]
    obtain ⟨hmode, hw, hR⟩ := hro
    refine ⟨fun h => absurd h.writable ?_, fun _ => ⟨_, rfl⟩⟩
    rw [hmode, ← hwritable, hw, hR]
    decide
  rw [if_neg hro]
  by_cases hopen : host.fopen (!(d.geometry.isACdrom || p.r) && !p.R) fname = false
  · rw [if_pos hopen]
    exact ⟨fun h => absurd h.opened (by rw [hopen]; decide), fun _ => ⟨_, rfl⟩⟩
  rw [if_neg hopen]
  have husable : (p.R = true → ∀ id tmpname, m.chooseId p d.type = .ok id → host.tmpOverlay id = some tmpname →
      host.fopen (!(d.geometry.isACdrom || p.r)) tmpname = true ∧
        host.fopen (!(d.geometry.isACdrom || p.r)) (tmpname ++ ".map".toList) = true) → m.Usable host p fname d := by
    refine fun h => ⟨by simpa using hreadable, ?_, by simpa using hopen, h⟩
    rw [← hwritable]
    revert hro
    cases d.geometry.isACdrom <;> cases p.r <;> cases d.writable <;> cases p.R <;> simp
  have htype : ({ d with writable := !(d.geometry.isACdrom || p.r) } : Image).type = d.type := rfl
  rw [htype]
  cases hchoose : m.chooseId p d.type with
  | error e =>
    exact ⟨fun _ r m' h => (by cases h), fun hnot => absurd (husable fun _ id tmpname hid' => by
      rw [hchoose] at hid'
      cases hid') hnot⟩
  | ok id =>
    obtain ⟨hpos, hfree⟩ := chooseId_ok hid hchoose
    simp only [Lib.ok_bind]
    by_cases hR : p.R = true
    · rw [if_pos hR]
      cases htmp : host.tmpOverlay id with
      | none =>
        exact ⟨fun _ r m' h => (by cases h), fun hnot => absurd (husable fun _ id' tmpname hid' htmp' => by
          rw [hchoose] at hid'
          cases hid'
          rw [htmp] at htmp'
          cases htmp') hnot⟩
      | some tmpname =>
        unfold Image.addOverlay
        dsimp only
        by_cases hoverlay : host.fopen (!(d.geometry.isACdrom || p.r)) tmpname = true ∧
            host.fopen (!(d.geometry.isACdrom || p.r)) (tmpname ++ ".map".toList) = true
        · rw [if_pos hoverlay]
          refine ⟨fun _ r m' h => ?_, fun hnot => absurd (husable fun _ id' tmpname' hid' htmp' => ?_) hnot⟩
          · cases h
            exact ⟨hpos, _, rfl, hfname, rfl, hfree⟩
          · rw [hchoose] at hid'
            cases hid'
            rw [htmp] at htmp'
            cases htmp'
            exact hoverlay
        · rw [if_neg hoverlay]
          exact ⟨fun h => absurd (h.overlay hR id tmpname hchoose htmp) hoverlay, fun _ => ⟨_, rfl⟩⟩
    · rw [if_neg hR]
      refine ⟨fun _ r m' h => ?_, fun hnot => absurd (husable fun h => absurd h hR) hnot⟩
      cases h
      exact ⟨hpos, _, rfl, hfname, rfl, hfree⟩

theorem addToImage_cases {m' : Machine} (h : m.addToImage host p fname = (r, m')) : (r = -1 ∧ m' = m) ∨ 0 ≤ r ∧
    m'.chain.map (fun d => (d.id, d.fname)) = m.chain.map (fun d => (d.id, d.fname)) ∧
    (m'.chain.map fun d => (d.type, d.id)) = m.chain.map fun d => (d.type, d.id) := by
  unfold addToImage at h
  split at h
  · cases h
    exact .inl ⟨rfl, rfl⟩
  · dsimp only at h
    split at h
    · cases h
      exact .inl ⟨rfl, rfl⟩
    · rename_i i hfind
      split at h
      · cases h
        exact .inl ⟨rfl, rfl⟩
      · rename_i dx' hdx'
        cases h
        obtain ⟨dx, hdx, hoverlay⟩ := Option.bind_eq_some_iff.mp hdx'
        obtain ⟨hi, hfound, -⟩ := List.findIdx?_eq_some_iff_getElem.mp hfind
        have hget : m.chain[i] = dx := Option.some.inj ((List.getElem?_eq_getElem hi).symm.trans hdx)
        rw [hget] at hfound
        have hsame : dx'.id = dx.id ∧ dx'.fname = dx.fname ∧ dx'.type = dx.type := by
          unfold Image.addOverlay at hoverlay
          split at hoverlay
          · cases hoverlay
            exact ⟨rfl, rfl, rfl⟩
          · cases hoverlay
        obtain ⟨hid, hname, htype⟩ := hsame
        have hset : ∀ {β : Type} (f : Image → β), f dx' = f dx → (m.chain.set i dx').map f = m.chain.map f := by
          intro β f hf
          refine List.ext_getElem? fun j => ?_
          rw [List.getElem?_map, List.getElem?_map, List.getElem?_set]
          split
          · rename_i hij
            rw [← hij, hdx, Option.map_some, Option.map_some, hf]
          · rfl
        refine .inr ⟨?_, hset _ (by rw [hid, hname]), hset _ (by rw [htype, hid])⟩
        rw [hid, ← (of_decide_eq_true hfound).2]
        omega

end Machine
end

/-! ## Sequences of calls -/

namespace Run
variable {s s' : Run} {c : Call}

theorem step_right (hright : s.Right) (hstep : s.step c = .ok s') : s.Good c ↔ s'.Right := by
  obtain ⟨⟨r, m'⟩, hadd, hs'⟩ := Lib.bind_eq_ok hstep
  cases hs'
  -- calls that leave the ids and the files as they are
  have hsame : c.file = none → (r = -1 ∧ m' = s.machine ∨ 0 ≤ r ∧
      m'.chain.map (fun d => (d.id, d.fname)) = s.machine.chain.map (fun d => (d.id, d.fname)) ∧
      (m'.chain.map fun d => (d.type, d.id)) = s.machine.chain.map fun d => (d.type, d.id)) →
      Right ⟨m', s.added ++ (c.file.filter fun _ => 0 ≤ r).toList.map fun fname => (r, fname),
        s.kept && (r ≠ -1 || m'.chain = s.machine.chain)⟩ := by
    rintro hfile (⟨rfl, rfl⟩ | ⟨hpos, hfiles, hids⟩)
    · exact ⟨by simpa [hfile] using hright.images, hright.unique, by simpa using hright.kept⟩
    · have hne : r ≠ -1 := by omega
      exact ⟨by simpa [hfile, hfiles] using hright.images, by simpa only [hids] using hright.unique,
        by simpa [hne] using hright.kept⟩
  unfold Machine.add at hadd
  unfold Good
  cases hread : c.fname.bind readName with
  | none =>
    rw [hread] at hadd
    cases hadd
    exact iff_of_true (fun p fname d h => by cases h) (hsame (by rw [Call.file, hread]; rfl) (.inl ⟨rfl, rfl⟩))
  | some pair =>
    obtain ⟨p, fname⟩ := pair
    rw [hread] at hadd
    dsimp only at hadd
    obtain ⟨d, hd, hname, hwritable⟩ := s.machine.sizedImage_ok c.host p fname
    have hfile : c.file = if p.V then none else some fname := by
      rw [Call.file, hread]
      rfl
    split at hadd
    · cases hadd
    by_cases hV : p.V = true
    · rw [hV, if_pos rfl] at hfile
      refine iff_of_true (fun p' fname' d' h hV' => ?_) (hsame hfile ?_)
      · cases h
        rw [hV] at hV'
        cases hV'
      · split at hadd
        · cases hadd
          exact .inl ⟨rfl, rfl⟩
        · exact Machine.addToImage_cases (Except.ok.inj hadd)
    · have hV' : p.V = false := by simpa using hV
      rw [hV', if_neg (by decide)] at hfile
      rw [hV', Bool.false_and, if_neg (by decide), if_neg (by decide)] at hadd
      have hid : p.id = -1 ∨ 0 ≤ p.id := by
        obtain ⟨fname', -, hfname'⟩ := Option.bind_eq_some_iff.mp hread
        exact readName_id hfname'
      obtain ⟨hgood, hbad⟩ := Machine.addImage_cases hid hd hname hwritable
      have husable : (∀ p' fname' d', some (p, fname) = some (p', fname') → p'.V = false →
          p'.i.toNat + p'.f.toNat + p'.s.toNat ≤ 1 → s.machine.sizedImage c.host p' fname' = .ok d' →
          s.machine.Usable c.host p' fname' d') ↔ s.machine.Usable c.host p fname d := by
        constructor
        · exact fun h => h p fname d rfl hV' (by omega) hd
        · rintro h p' fname' d' ⟨⟩ - - hd'
          rw [hd] at hd'
          cases hd'
          exact h
      rw [husable]
      constructor
      · intro h
        obtain ⟨hpos, d', rfl, hfname, rfl, hfree⟩ := hgood h r m' hadd
        have hne : d'.id ≠ -1 := by omega
        refine ⟨by simp [hfile, hpos, hright.images, hfname, Option.filter], ?_, by simp [hne, hright.kept]⟩
        rw [List.map_append, List.map_singleton, ← List.concat_eq_append]
        refine hright.unique.concat fun hmem => hfree ?_
        obtain ⟨x, hx, hkey⟩ := List.mem_map.mp hmem
        exact List.mem_map.mpr ⟨x, List.mem_filter.mpr ⟨hx, decide_eq_true (Prod.mk.inj hkey).1⟩, (Prod.mk.inj hkey).2⟩
      · intro hright'
        by_contra h
        obtain ⟨d', hd'⟩ := hbad h
        rw [hd'] at hadd
        cases hadd
        have hkept := hright'.kept
        simp at hkept

theorem good_of_returns (h : (∃ s', s.step c = .ok s') → s.Good c) : s.Good c := by
  intro p fname d hread hV hprefixes hd
  by_contra hnot
  have hid : p.id = -1 ∨ 0 ≤ p.id := by
    obtain ⟨fname', -, hfname'⟩ := Option.bind_eq_some_iff.mp hread
    exact readName_id hfname'
  obtain ⟨d1, hd1, hname, hwritable⟩ := s.machine.sizedImage_ok c.host p fname
  rw [hd] at hd1
  cases hd1
  obtain ⟨d', hd'⟩ := (Machine.addImage_cases hid hd hname hwritable).2 hnot
  have hadd : s.machine.add c.host c.fname = .ok (-1, { s.machine with chain := s.machine.chain ++ [d'] }) := by
    unfold Machine.add
    rw [hread]
    dsimp only
    rw [if_neg (by omega), hV, Bool.false_and, if_neg (by decide), if_neg (by decide), hd']
  refine hnot (h ?_ p fname d hread hV hprefixes hd)
  unfold step
  rw [hadd]
  exact ⟨_, rfl⟩

end Run

/-- Whatever calls are made for a machine without images, the chain is right after each of them. -/
def AddsRight (machineType : MachineType) (calls : List Call) : Prop :=
  Lib.Reaches Run.step Run.Right calls ⟨⟨machineType, []⟩, [], true⟩

/-- The chain is right in just the runs whose calls are all good. -/
theorem added_iff (machineType : MachineType) (calls : List Call) : AddsRight machineType calls ↔
    Lib.Along Run.step Run.Good calls ⟨⟨machineType, []⟩, [], true⟩ := by
  have hgood : (fun (s : Run) c => (∃ s', s.step c = .ok s') → s.Good c) = Run.Good := by
    funext s c
    exact propext ⟨Run.good_of_returns, fun h _ => h⟩
  rw [← hgood]
  exact Lib.reaches_iff_along (K := fun _ => True) (fun _ _ _ _ _ => trivial)
    (fun _ _ _ _ hright hstep => Run.step_right hright hstep) trivial ⟨rfl, List.nodup_nil, rfl⟩

def noFiles : Host := ⟨fun _ => none, fun _ => false, fun _ => false, fun _ _ => false, fun _ => none⟩

theorem noFiles_not_right : ¬ AddsRight .other [⟨noFiles, some ['x']⟩] := by
  rintro ⟨-, hreach⟩
  have hright := hreach _ rfl
  exact absurd hright.kept (by decide)

end Gxemul.Disk.Chain
