import Mathlib.Data.List.Nodup
import Gxemul.Lib.Bytes
import Gxemul.Lib.Masks
import Gxemul.Lib.Run

/- Settings (`src/core/settings.c`).

   A settings object has arrays of names, flags, types and pointers, one entry for each setting.
   They are one list here, since every function uses them with one index. A pointer is to a
   settings object or to a variable of the emulator, on a little endian host. What the source
   does with a pointer of the wrong kind is undefined. -/
namespace Gxemul.Settings
open Lib

abbrev Name := List Char

def globalSettingsName : Name := ['s', 'e', 't', 't', 'i', 'n', 'g', 's']

inductive StorageType where
  | subsettings
  | string
  | int
  | int8
  | int16
  | int32
  | int64
  | uint
  | uint8
  | uint16
  | uint32
  | uint64
  deriving DecidableEq

namespace StorageType

/-- Bytes of the C type. A string is a pointer, and so are subsettings. -/
def size : StorageType → Nat
  | subsettings | string => 8
  | int8 | uint8 => 1
  | int16 | uint16 => 2
  | int | uint | int32 | uint32 => 4
  | int64 | uint64 => 8

def signed : StorageType → Bool
  | int | int8 | int16 | int32 | int64 => true
  | subsettings | string | uint | uint8 | uint16 | uint32 | uint64 => false

/-- `x` in 64 bits. -/
def extend (type : StorageType) (x : BitVec (type.size * 8)) : BitVec 64 :=
  if type.signed then x.signExtend 64 else x.setWidth 64

def convert (type : StorageType) (x : BitVec 64) : BitVec 64 := type.extend (x.setWidth _)

def load (type : StorageType) (m : ByteMem) (a : Nat) : BitVec 64 :=
  type.extend (BitVec.ofNat _ (leValue (m.read a type.size)))

def store (type : StorageType) (m : ByteMem) (a : Nat) (x : BitVec 64) : ByteMem :=
  m.write a (leBytes type.size x.toNat)

end StorageType

inductive Ptr where
  | settings (k : Nat)
  | var (a : Nat)

structure Setting where
  name : Name
  writable : Bool
  storageType : StorageType
  presentationFormat : Nat
  ptr : Ptr

/-- `struct settings`. -/
structure Settings where
  parent : Option Nat
  nameInParent : Option Name
  settings : List Setting

abbrev Heap := List Settings

inductive Stop where
  | exit
  | undefined

inductive Result where
  | ok
  | nameNotFound
  | readonly
  deriving DecidableEq

/-- The result, the variables, and `*valuep`. -/
abbrev Outcome := Result × ByteMem × BitVec 64

def settingsNew (heap : Heap) : Heap := heap ++ [⟨none, none, []⟩]

def settingsAdd (heap : Heap) (k : Nat) (setting : Setting) : Except Stop Heap :=
  match heap[k]? with
  | none => .error .undefined
  | some s =>
    if ∃ old ∈ s.settings, old.name = setting.name then .error .exit
    else if s.settings.length + 1 = 2 ^ 31 then .error .undefined
    else
      let heap := heap.set k { s with settings := s.settings ++ [setting] }
      if setting.storageType = .subsettings then
        match setting.ptr with
        | .var _ => .error .undefined
        | .settings j =>
          match heap[j]? with
          | none => .error .undefined
          | some sub => .ok (heap.set j { sub with parent := some k, nameInParent := some setting.name })
      else .ok heap

def settingsRemove (heap : Heap) (k : Nat) (name : Name) : Except Stop Heap :=
  match heap[k]? with
  | none => .error .undefined
  | some s =>
    match s.settings.findIdx? (·.name = name) with
    | none => .ok heap
    | some i =>
      let removed := heap.set k { s with settings := s.settings.eraseIdx i }
      match s.settings[i]? with
      | some ⟨_, _, .subsettings, _, .var _⟩ => .error .undefined
      | some ⟨_, _, .subsettings, _, .settings j⟩ =>
        match heap[j]? with
        | none => .error .undefined
        | some sub => if sub.settings ≠ [] then .error .exit else .ok removed
      | _ => .ok removed

def settingsRead (setting : Setting) (m : ByteMem) : Except Stop Outcome :=
  match setting.storageType with
  | .subsettings => .error .exit
  | .string => .ok (.ok, m, 0)
  | type =>
    match setting.ptr with
    | .settings _ => .error .undefined
    | .var a => .ok (.ok, m, type.load m a)

def settingsWrite (setting : Setting) (m : ByteMem) (value : BitVec 64) : Except Stop Outcome :=
  if !setting.writable then .ok (.readonly, m, value)
  else
    match setting.storageType with
    | .subsettings => .error .exit
    | .string => .ok (.ok, m, value)
    | type =>
      match setting.ptr with
      | .settings _ => .error .undefined
      | .var a => .ok (.ok, type.store m a value, value)

/-- A prefix `settings.` is skipped. -/
def skipGlobal (fullname : Name) : Name :=
  if (globalSettingsName ++ ['.']).isPrefixOf fullname then fullname.drop (globalSettingsName.length + 1) else fullname

/-- The loop that compares names. It finds a setting whose name is all of `fullname`, or all up to a dot, with what is
behind the dot. -/
def find (fullname : Name) : List Setting → Option (Setting × Option Name)
  | [] => none
  | setting :: l =>
    if setting.name.isPrefixOf fullname then
      match fullname.drop setting.name.length with
      | [] => some (setting, none)
      | c :: rest => if c = '.' then some (setting, some rest) else find fullname l
    else find fullname l

section
variable (heap : Heap) (write : Bool) (m : ByteMem) (value : BitVec 64)

/-- One level of `settings_access()`. -/
def accessWith (access : Nat → Name → Except Stop Outcome) (k : Nat) (fullname : Name) : Except Stop Outcome :=
  match heap[k]? with
  | none => .error .undefined
  | some s =>
    match find fullname s.settings with
    | none => .ok (.nameNotFound, m, value)
    | some (setting, none) => if write then settingsWrite setting m value else settingsRead setting m
    | some (setting, some rest) =>
      match setting.ptr with
      | .settings j => access j rest
      | .var _ => .error .undefined

def accessN : Nat → Nat → Name → Except Stop Outcome
  | 0, _, _ => .error .undefined
  | fuel + 1, k, fullname => accessWith heap write m value (accessN fuel) k (skipGlobal fullname)

def settingsAccess (k : Nat) (fullname : Name) : Except Stop Outcome :=
  accessN heap write m value (fullname.length + 1) k fullname

end

/-! ## What names are of -/

/-- From an object with a name, over subsettings, to an object with what is left of the name. -/
inductive Walk (heap : Heap) : Nat → Name → Nat → Name → Prop where
  | here (k : Nat) (fullname : Name) : Walk heap k fullname k (skipGlobal fullname)
  | down {k j j' : Nat} {fullname rest left : Name} {s : Settings} {setting : Setting} (hs : heap[k]? = some s)
      (hmem : setting ∈ s.settings) (htype : setting.storageType = .subsettings) (hptr : setting.ptr = .settings j)
      (hname : skipGlobal fullname = setting.name ++ '.' :: rest) (hbelow : Walk heap j rest j' left) :
      Walk heap k fullname j' left

/-- The name is that of a variable, which is a setting of the object `j`. -/
def Leaf (heap : Heap) (k : Nat) (fullname : Name) (j : Nat) (setting : Setting) : Prop :=
  Walk heap k fullname j setting.name ∧ (∃ s, heap[j]? = some s ∧ setting ∈ s.settings) ∧
    setting.storageType ≠ .subsettings

def AtSubsettings (heap : Heap) (k : Nat) (fullname : Name) : Prop :=
  ∃ j s setting, Walk heap k fullname j setting.name ∧ heap[j]? = some s ∧ setting ∈ s.settings ∧
    setting.storageType = .subsettings

def BelowLeaf (heap : Heap) (k : Nat) (fullname : Name) : Prop :=
  ∃ j s setting rest, Walk heap k fullname j (setting.name ++ '.' :: rest) ∧ heap[j]? = some s ∧ setting ∈ s.settings ∧
    setting.storageType ≠ .subsettings

/-! ## Names in a settings object -/

/-- Names are without dots, one for each setting, and pointers are of the kind that the type says. -/
structure WellFormed (heap : Heap) : Prop where
  nodup : ∀ s ∈ heap, (s.settings.map Setting.name).Nodup
  noDot : ∀ s ∈ heap, ∀ setting ∈ s.settings, '.' ∉ setting.name
  subsettings : ∀ s ∈ heap, ∀ setting ∈ s.settings, setting.storageType = .subsettings →
    ∃ j, setting.ptr = .settings j ∧ j < heap.length
  leaf : ∀ s ∈ heap, ∀ setting ∈ s.settings, setting.storageType ≠ .subsettings → ∃ a, setting.ptr = .var a

section
variable {l : List Setting} {fullname rest : Name} {setting : Setting}

theorem find_cons (setting : Setting) (l : List Setting) :
    find fullname (setting :: l) =
      if setting.name.isPrefixOf fullname then
        match fullname.drop setting.name.length with
        | [] => some (setting, none)
        | c :: rest => if c = '.' then some (setting, some rest) else find fullname l
      else find fullname l := rfl

theorem find_some {left : Option Name} (hfind : find fullname l = some (setting, left)) :
    setting ∈ l ∧ fullname = setting.name ++ (left.elim [] fun rest => '.' :: rest) := by
  induction l with
  | nil => cases hfind
  | cons head l ih =>
    rw [find_cons] at hfind
    by_cases hprefix : head.name.isPrefixOf fullname
    · rw [if_pos hprefix] at hfind
      obtain ⟨t, ht⟩ := List.isPrefixOf_iff_prefix.mp hprefix
      rw [← ht, List.drop_left, ht] at hfind
      cases t with
      | nil =>
        cases hfind
        exact ⟨List.mem_cons_self, ht.symm⟩
      | cons c rest =>
        dsimp only at hfind
        by_cases hdot : c = '.'
        · rw [if_pos hdot] at hfind
          cases hfind
          exact ⟨List.mem_cons_self, by rw [← ht, hdot]; rfl⟩
        · rw [if_neg hdot] at hfind
          obtain ⟨hmem, hname⟩ := ih hfind
          exact ⟨List.mem_cons_of_mem _ hmem, hname⟩
    · rw [if_neg hprefix] at hfind
      obtain ⟨hmem, hname⟩ := ih hfind
      exact ⟨List.mem_cons_of_mem _ hmem, hname⟩

theorem find_isSome (hmem : setting ∈ l) (left : Option Name) :
    (find (setting.name ++ (left.elim [] fun rest => '.' :: rest)) l).isSome := by
  induction l with
  | nil => cases hmem
  | cons head l ih =>
    rw [find_cons]
    rcases List.mem_cons.mp hmem with rfl | hmem
    · have hprefix : setting.name.isPrefixOf (setting.name ++ left.elim [] fun rest => '.' :: rest) :=
        List.isPrefixOf_iff_prefix.mpr (List.prefix_append ..)
      rw [if_pos hprefix, List.drop_left]
      cases left with
      | none => rfl
      | some rest => rfl
    · have htail := ih hmem
      split
      · split
        · rfl
        · split
          · rfl
          · exact htail
      · exact htail

theorem append_dot_inj {name name' rest' : Name} (hdot : '.' ∉ name) (hdot' : '.' ∉ name')
    (heq : name ++ '.' :: rest = name' ++ '.' :: rest') : name = name' ∧ rest = rest' := by
  induction name generalizing name' with
  | nil =>
    cases name' with
    | nil => exact ⟨rfl, (List.cons.inj heq).2⟩
    | cons c name' => exact absurd ((List.cons.inj heq).1 ▸ List.mem_cons_self) hdot'
  | cons c name ih =>
    cases name' with
    | nil => exact absurd ((List.cons.inj heq).1 ▸ List.mem_cons_self) hdot
    | cons c' name' =>
      obtain ⟨rfl, htail⟩ := List.cons.inj heq
      obtain ⟨rfl, hrest⟩ := ih (fun h => hdot (List.mem_cons_of_mem _ h)) (fun h => hdot' (List.mem_cons_of_mem _ h)) htail
      exact ⟨rfl, hrest⟩

theorem name_inj {name name' : Name} {left left' : Option Name} (hdot : '.' ∉ name) (hdot' : '.' ∉ name')
    (heq : name ++ (left.elim [] fun rest => '.' :: rest) = name' ++ left'.elim [] fun rest => '.' :: rest) :
    name = name' ∧ left = left' := by
  cases left with
  | none =>
    cases left' with
    | none => exact ⟨by simpa using heq, rfl⟩
    | some rest' =>
      exfalso
      apply hdot
      have heq' : name = name' ++ '.' :: rest' := by simpa using heq
      rw [heq']
      exact List.mem_append_right _ List.mem_cons_self
  | some rest =>
    cases left' with
    | none =>
      exfalso
      apply hdot'
      have heq' : name ++ '.' :: rest = name' := by simpa using heq
      rw [← heq']
      exact List.mem_append_right _ List.mem_cons_self
    | some rest' =>
      obtain ⟨hname, hrest⟩ := append_dot_inj hdot hdot' heq
      exact ⟨hname, congrArg some hrest⟩

end

section
variable {heap : Heap} {s : Settings} {setting : Setting} {k : Nat}

theorem find_eq (hwf : WellFormed heap) (hs : heap[k]? = some s) (hmem : setting ∈ s.settings) (left : Option Name) :
    find (setting.name ++ left.elim [] fun rest => '.' :: rest) s.settings = some (setting, left) := by
  have hheap := List.mem_of_getElem? hs
  obtain ⟨⟨setting', left'⟩, hfind⟩ := Option.isSome_iff_exists.mp (find_isSome hmem left)
  obtain ⟨hmem', hname'⟩ := find_some hfind
  obtain ⟨hname, rfl⟩ := name_inj (hwf.noDot s hheap _ hmem) (hwf.noDot s hheap _ hmem') hname'
  rw [List.inj_on_of_nodup_map (hwf.nodup s hheap) hmem hmem' hname]
  rw [List.inj_on_of_nodup_map (hwf.nodup s hheap) hmem hmem' hname] at hfind
  exact hfind

end

/-! ## What settings_access() finds -/

section
variable {heap : Heap} {write : Bool} {m : ByteMem} {value : BitVec 64} {k j : Nat} {fullname left : Name}

theorem length_skipGlobal (fullname : Name) : (skipGlobal fullname).length ≤ fullname.length := by
  unfold skipGlobal
  split
  · rw [List.length_drop]
    exact Nat.sub_le _ _
  · exact Nat.le_refl _

theorem accessWith_congr {access access' : Nat → Name → Except Stop Outcome}
    (h : ∀ j rest, rest.length < fullname.length → access j rest = access' j rest) :
    accessWith heap write m value access k fullname = accessWith heap write m value access' k fullname := by
  unfold accessWith
  cases hs : heap[k]? with
  | none => rfl
  | some s =>
    dsimp only
    cases hfind : find fullname s.settings with
    | none => rfl
    | some found =>
      obtain ⟨setting, left⟩ := found
      cases left with
      | none => rfl
      | some rest =>
        dsimp only
        cases hptr : setting.ptr with
        | var a => rfl
        | settings j =>
          apply h
          have hlen := congrArg List.length (find_some hfind).2
          simp only [Option.elim_some, List.length_append, List.length_cons] at hlen
          omega

theorem accessN_eq {fuel fuel' : Nat} (hfuel : fullname.length < fuel) (hfuel' : fullname.length < fuel') :
    accessN heap write m value fuel k fullname = accessN heap write m value fuel' k fullname := by
  induction fuel generalizing fuel' k fullname with
  | zero => exact absurd hfuel (Nat.not_lt_zero _)
  | succ fuel ih =>
    cases fuel' with
    | zero => exact absurd hfuel' (Nat.not_lt_zero _)
    | succ fuel' =>
      have hskip := length_skipGlobal fullname
      apply accessWith_congr
      intro j rest hlt
      apply ih
      · omega
      · omega

theorem settingsAccess_eq : settingsAccess heap write m value k fullname =
    accessWith heap write m value (settingsAccess heap write m value) k (skipGlobal fullname) := by
  have hskip := length_skipGlobal fullname
  apply accessWith_congr
  intro j rest hlt
  apply accessN_eq
  · omega
  · omega

theorem settingsAccess_walk (hwf : WellFormed heap) (hwalk : Walk heap k fullname j left) :
    settingsAccess heap write m value k fullname =
      accessWith heap write m value (settingsAccess heap write m value) j left := by
  induction hwalk with
  | here k fullname => exact settingsAccess_eq
  | @down k j j' fullname rest left s setting hs hmem htype hptr hname hbelow ih =>
    rw [← ih, settingsAccess_eq]
    unfold accessWith
    have hfind := find_eq hwf hs hmem (some rest)
    simp only [Option.elim_some] at hfind
    rw [hs, hname]
    dsimp only
    rw [hfind]
    dsimp only
    rw [hptr]

theorem accessWith_name (hwf : WellFormed heap) {s : Settings} {setting : Setting} (hs : heap[j]? = some s)
    (hmem : setting ∈ s.settings) (access : Nat → Name → Except Stop Outcome) :
    accessWith heap write m value access j setting.name =
      if write then settingsWrite setting m value else settingsRead setting m := by
  have hfind := find_eq hwf hs hmem none
  simp only [Option.elim_none, List.append_nil] at hfind
  unfold accessWith
  rw [hs]
  dsimp only
  rw [hfind]

theorem access_leaf {setting : Setting} (hwf : WellFormed heap) (hleaf : Leaf heap k fullname j setting) :
    settingsAccess heap write m value k fullname =
      if write then settingsWrite setting m value else settingsRead setting m := by
  obtain ⟨hwalk, ⟨s, hs, hmem⟩, -⟩ := hleaf
  rw [settingsAccess_walk hwf hwalk]
  exact accessWith_name hwf hs hmem _

theorem access_atSubsettings (hwf : WellFormed heap) (hat : AtSubsettings heap k fullname) :
    settingsAccess heap false m value k fullname = .error .exit := by
  obtain ⟨j, s, setting, hwalk, hs, hmem, htype⟩ := hat
  rw [settingsAccess_walk hwf hwalk, accessWith_name hwf hs hmem]
  simp only [Bool.false_eq_true, if_false]
  unfold settingsRead
  rw [htype]

theorem access_belowLeaf (hwf : WellFormed heap) (hbelow : BelowLeaf heap k fullname) :
    settingsAccess heap write m value k fullname = .error .undefined := by
  obtain ⟨j, s, setting, rest, hwalk, hs, hmem, htype⟩ := hbelow
  obtain ⟨a, hptr⟩ := hwf.leaf s (List.mem_of_getElem? hs) setting hmem htype
  rw [settingsAccess_walk hwf hwalk]
  have hfind := find_eq hwf hs hmem (some rest)
  simp only [Option.elim_some] at hfind
  unfold accessWith
  rw [hs]
  dsimp only
  rw [hfind]
  dsimp only
  rw [hptr]

theorem access_cases (hwf : WellFormed heap) (hk : k < heap.length) (fullname : Name) :
    (∃ j setting, Leaf heap k fullname j setting) ∨ AtSubsettings heap k fullname ∨ BelowLeaf heap k fullname ∨
      ∀ write m value, settingsAccess heap write m value k fullname = .ok (.nameNotFound, m, value) := by
  -- By the length of the name: every level takes something from it.
  induction hn : fullname.length using Nat.strong_induction_on generalizing k fullname with
  | _ n ih =>
    have hs := List.getElem?_eq_getElem hk
    have hheap := List.mem_of_getElem? hs
    have hwalk : Walk heap k fullname k (skipGlobal fullname) := .here k fullname
    cases hfind : find (skipGlobal fullname) heap[k].settings with
    | none =>
      refine .inr (.inr (.inr fun write m value => ?_))
      rw [settingsAccess_eq]
      unfold accessWith
      rw [hs]
      dsimp only
      rw [hfind]
    | some found =>
      obtain ⟨setting, left⟩ := found
      obtain ⟨hmem, hname⟩ := find_some hfind
      by_cases htype : setting.storageType = .subsettings
      · cases left with
        | none =>
          rw [Option.elim_none, List.append_nil] at hname
          exact .inr (.inl ⟨k, _, setting, hname ▸ hwalk, hs, hmem, htype⟩)
        | some rest =>
          rw [Option.elim_some] at hname
          obtain ⟨j, hptr, hj⟩ := hwf.subsettings _ hheap setting hmem htype
          have hlen := congrArg List.length hname
          have hskip := length_skipGlobal fullname
          rw [List.length_append, List.length_cons] at hlen
          rcases ih rest.length (by omega) hj rest rfl with ⟨j', setting', hw, hin, ht⟩ | ⟨j', s', setting', hw, hrest⟩ |
            ⟨j', s', setting', left', hw, hrest⟩ | hnone
          · exact .inl ⟨j', setting', .down hs hmem htype hptr hname hw, hin, ht⟩
          · exact .inr (.inl ⟨j', s', setting', .down hs hmem htype hptr hname hw, hrest⟩)
          · exact .inr (.inr (.inl ⟨j', s', setting', left', .down hs hmem htype hptr hname hw, hrest⟩))
          · refine .inr (.inr (.inr fun write m value => ?_))
            rw [settingsAccess_walk hwf (.down hs hmem htype hptr hname (.here j rest)), ← settingsAccess_eq]
            exact hnone write m value
      · cases left with
        | none =>
          rw [Option.elim_none, List.append_nil] at hname
          exact .inl ⟨k, setting, hname ▸ hwalk, ⟨_, hs, hmem⟩, htype⟩
        | some rest =>
          rw [Option.elim_some] at hname
          exact .inr (.inr (.inl ⟨k, _, setting, rest, hname ▸ hwalk, hs, hmem, htype⟩))

end

/-! ## Variables -/

namespace StorageType
variable (type : StorageType) (m : ByteMem)

theorem size_le : type.size ≤ 8 := by
  cases type <;> decide

theorem size_pos : 0 < type.size := by
  cases type <;> decide

theorem setWidth_extend (x : BitVec (type.size * 8)) : (type.extend x).setWidth _ = x := by
  have hle : type.size * 8 ≤ 64 := by
    have := type.size_le
    omega
  unfold extend
  split
  · exact setWidth_signExtend x hle
  · rw [BitVec.setWidth_setWidth_of_le x hle, BitVec.setWidth_eq]

theorem load_store (a : Nat) (x : BitVec 64) : type.load (type.store m a x) a = type.convert x := by
  have hread := m.read_write a (leBytes type.size x.toNat)
  rw [length_leBytes] at hread
  unfold load store convert
  rw [hread, leValue_leBytes]
  congr 1
  apply BitVec.eq_of_toNat_eq
  rw [BitVec.toNat_ofNat, BitVec.toNat_setWidth, show 256 ^ type.size = 2 ^ (type.size * 8) by
    rw [Nat.mul_comm, Nat.pow_mul]]
  exact Nat.mod_mod ..

theorem read_store_other {type' : StorageType} {a a' : Nat} (x : BitVec 64)
    (hapart : a + type.size ≤ a' ∨ a' + type'.size ≤ a) : type'.load (type.store m a x) a' = type'.load m a' := by
  have hread : (type.store m a x).read a' type'.size = m.read a' type'.size := by
    apply List.map_congr_left
    intro i hi
    apply m.write_other
    rw [length_leBytes]
    have := List.mem_range.mp hi
    omega
  unfold load
  rw [hread]

theorem eq_zero_of_load {a : Nat} (hload : type.load m a = 0) {i : Nat} (hi : i < type.size) : m (a + i) = 0 := by
  have hzero : BitVec.ofNat (type.size * 8) (leValue (m.read a type.size)) = 0 := by
    rw [← type.setWidth_extend (BitVec.ofNat _ _)]
    have hextend : type.extend (BitVec.ofNat _ (leValue (m.read a type.size))) = 0 := hload
    rw [hextend]
    exact BitVec.setWidth_zero ..
  have hlt := leValue_lt (m.read a type.size)
  have hvalue := congrArg BitVec.toNat hzero
  rw [ByteMem.length_read, show 256 ^ type.size = 2 ^ (type.size * 8) by rw [Nat.mul_comm, Nat.pow_mul]] at hlt
  rw [BitVec.toNat_ofNat, Nat.mod_eq_of_lt hlt, BitVec.ofNat_eq_ofNat, BitVec.toNat_zero] at hvalue
  have hbytes := leBytes_leValue (m.read a type.size)
  have hget := ByteMem.getElem?_read m a type.size i
  rw [if_pos hi, ← hbytes, hvalue, ByteMem.length_read, getElem?_leBytes, if_pos hi] at hget
  rw [← Option.some.inj hget, Nat.zero_div]
  rfl

theorem load_zero (a : Nat) : type.load (fun _ => 0) a = 0 := by
  have hread : ByteMem.read (fun _ => 0) a type.size = leBytes type.size 0 := by
    apply List.ext_getElem?
    intro i
    rw [ByteMem.getElem?_read, getElem?_leBytes]
    rw [Nat.zero_div]
    rfl
  unfold load
  rw [hread, leValue_leBytes, Nat.zero_mod]
  cases type <;> rfl

theorem store_allOnes {a i : Nat} (hi : i < type.size) : type.store m a (BitVec.allOnes 64) (a + i) = 255 := by
  have hread := m.read_write a (leBytes type.size (BitVec.allOnes 64).toNat)
  rw [length_leBytes] at hread
  have hget := ByteMem.getElem?_read (type.store m a (BitVec.allOnes 64)) a type.size i
  unfold store at hget
  rw [hread, getElem?_leBytes, if_pos hi, if_pos hi] at hget
  unfold store
  rw [← Option.some.inj hget]
  have hall : ∀ i < 8, BitVec.ofNat 8 ((BitVec.allOnes 64).toNat / 256 ^ i) = 255 := by decide
  exact hall i (Nat.lt_of_lt_of_le hi type.size_le)

end StorageType

/-! ## When names are full paths -/

def Apart (setting setting' : Setting) : Prop :=
  ∀ a a', setting.ptr = .var a → setting'.ptr = .var a' →
    a + setting.storageType.size ≤ a' ∨ a' + setting'.storageType.size ≤ a

def readSetting (heap : Heap) (m : ByteMem) (k : Nat) (fullname : Name) (value : BitVec 64) :
    Except Stop (Result × BitVec 64) :=
  (settingsAccess heap false m value k fullname).map fun out => (out.1, out.2.2)

/-- Names of variables are found, and no others. What is written is read again, as the type holds it, and nothing else
is read anew. -/
def Correct (heap : Heap) (k : Nat) (fullname : Name) : Prop :=
  ∀ (m : ByteMem) (value : BitVec 64),
    (∀ write, (∃ out, settingsAccess heap write m value k fullname = .ok out ∧ (out.1 = .ok ∨ out.1 = .readonly)) ↔
      ∃ j setting, Leaf heap k fullname j setting) ∧
    (∀ write, (¬ ∃ j setting, Leaf heap k fullname j setting) →
      settingsAccess heap write m value k fullname = .ok (.nameNotFound, m, value)) ∧
    ∀ m' value', settingsAccess heap true m value k fullname = .ok (.ok, m', value') →
      ∀ j setting, Leaf heap k fullname j setting → ∀ value',
        readSetting heap m' k fullname value' = .ok (.ok, setting.storageType.convert value) ∧
        ∀ other, ¬ Leaf heap k other j setting → readSetting heap m' k other value' = readSetting heap m k other value'

/-- The name neither is that of subsettings nor goes on behind a variable. If it is that of a variable that can be
written, this is not a string, and no other variable that can be read has a byte in common with it. -/
def Meets (heap : Heap) (k : Nat) (fullname : Name) : Prop :=
  ¬ AtSubsettings heap k fullname ∧ ¬ BelowLeaf heap k fullname ∧
    ∀ j setting, Leaf heap k fullname j setting → setting.writable = true → setting.storageType ≠ .string ∧
      ∀ other j' setting', Leaf heap k other j' setting' → ¬ Leaf heap k other j setting →
        setting'.storageType ≠ .string → Apart setting setting'

section
variable {heap : Heap} {m : ByteMem} {value : BitVec 64} {k j : Nat} {fullname : Name} {setting : Setting}

theorem Leaf.ptr (hwf : WellFormed heap) (hleaf : Leaf heap k fullname j setting) : ∃ a, setting.ptr = .var a := by
  obtain ⟨-, ⟨s, hs, hmem⟩, htype⟩ := hleaf
  exact hwf.leaf s (List.mem_of_getElem? hs) setting hmem htype

theorem settingsRead_string (htype : setting.storageType = .string) :
    settingsRead setting m = .ok (.ok, m, 0) := by
  unfold settingsRead
  rw [htype]

theorem settingsRead_var {a : Nat} (htype : setting.storageType ≠ .subsettings) (hstring : setting.storageType ≠ .string)
    (hptr : setting.ptr = .var a) : settingsRead setting m = .ok (.ok, m, setting.storageType.load m a) := by
  unfold settingsRead
  rw [hptr]
  cases hcase : setting.storageType with
  | subsettings => exact absurd hcase htype
  | string => exact absurd hcase hstring
  | _ => rfl

theorem settingsWrite_readonly (hwrite : setting.writable = false) :
    settingsWrite setting m value = .ok (.readonly, m, value) := by
  unfold settingsWrite
  rw [hwrite]
  rfl

theorem settingsWrite_string (hwrite : setting.writable = true) (htype : setting.storageType = .string) :
    settingsWrite setting m value = .ok (.ok, m, value) := by
  unfold settingsWrite
  rw [hwrite, htype]
  rfl

theorem settingsWrite_var {a : Nat} (hwrite : setting.writable = true) (htype : setting.storageType ≠ .subsettings)
    (hstring : setting.storageType ≠ .string) (hptr : setting.ptr = .var a) :
    settingsWrite setting m value = .ok (.ok, setting.storageType.store m a value, value) := by
  unfold settingsWrite
  rw [hwrite, hptr]
  cases hcase : setting.storageType with
  | subsettings => exact absurd hcase htype
  | string => exact absurd hcase hstring
  | _ => rfl

theorem access_leaf_ok (hwf : WellFormed heap) (hleaf : Leaf heap k fullname j setting) (write : Bool) :
    ∃ out, settingsAccess heap write m value k fullname = .ok out ∧ (out.1 = .ok ∨ out.1 = .readonly) := by
  obtain ⟨a, hptr⟩ := hleaf.ptr hwf
  have htype := hleaf.2.2
  rw [access_leaf hwf hleaf]
  by_cases hstring : setting.storageType = .string
  · cases write with
    | false => exact ⟨_, settingsRead_string hstring, .inl rfl⟩
    | true =>
      cases hwrite : setting.writable with
      | false => exact ⟨_, settingsWrite_readonly hwrite, .inr rfl⟩
      | true => exact ⟨_, settingsWrite_string hwrite hstring, .inl rfl⟩
  · cases write with
    | false => exact ⟨_, settingsRead_var htype hstring hptr, .inl rfl⟩
    | true =>
      cases hwrite : setting.writable with
      | false => exact ⟨_, settingsWrite_readonly hwrite, .inr rfl⟩
      | true => exact ⟨_, settingsWrite_var hwrite htype hstring hptr, .inl rfl⟩

theorem read_other {m' : ByteMem} (hwf : WellFormed heap) (hk : k < heap.length) (other : Name)
    (hsame : ∀ j' setting' a', Leaf heap k other j' setting' → setting'.ptr = .var a' → setting'.storageType ≠ .string →
      setting'.storageType.load m' a' = setting'.storageType.load m a') :
    readSetting heap m' k other value = readSetting heap m k other value := by
  unfold readSetting
  rcases access_cases hwf hk other with ⟨j', setting', hleaf⟩ | hat | hbelow | hnone
  · obtain ⟨a', hptr⟩ := hleaf.ptr hwf
    rw [access_leaf hwf hleaf, access_leaf hwf hleaf]
    by_cases hstring : setting'.storageType = .string
    · rw [settingsRead_string hstring, settingsRead_string hstring]
      rfl
    · rw [settingsRead_var hleaf.2.2 hstring hptr, settingsRead_var hleaf.2.2 hstring hptr,
        ← hsame j' setting' a' hleaf hptr hstring]
      rfl
  · rw [access_atSubsettings hwf hat, access_atSubsettings hwf hat]
  · rw [access_belowLeaf hwf hbelow, access_belowLeaf hwf hbelow]
  · rw [hnone, hnone]
    rfl

theorem correct_of_meets (hwf : WellFormed heap) (hk : k < heap.length) (hmeets : Meets heap k fullname) :
    Correct heap k fullname := by
  obtain ⟨hat, hbelow, hwritten⟩ := hmeets
  intro m value
  have hnone (write : Bool) (hno : ¬ ∃ j setting, Leaf heap k fullname j setting) :
      settingsAccess heap write m value k fullname = .ok (.nameNotFound, m, value) := by
    rcases access_cases hwf hk fullname with hleaf | h | h | h
    · exact absurd hleaf hno
    · exact absurd h hat
    · exact absurd h hbelow
    · exact h write m value
  refine ⟨fun write => ⟨?_, ?_⟩, hnone, ?_⟩
  · rintro ⟨out, hout, hresult⟩
    by_contra hno
    cases (hnone write hno).symm.trans hout
    rcases hresult with h | h
    · cases h
    · cases h
  · rintro ⟨j, setting, hleaf⟩
    exact access_leaf_ok hwf hleaf write
  · intro m' out hok j setting hleaf value'
    obtain ⟨a, hptr⟩ := hleaf.ptr hwf
    have htype := hleaf.2.2
    rw [access_leaf hwf hleaf, if_pos rfl] at hok
    cases hwrite : setting.writable with
    | false =>
      rw [settingsWrite_readonly hwrite] at hok
      cases hok
    | true =>
      obtain ⟨hstring, hapart⟩ := hwritten j setting hleaf hwrite
      rw [settingsWrite_var hwrite htype hstring hptr] at hok
      cases hok
      refine ⟨?_, fun other hother => ?_⟩
      · unfold readSetting
        rw [access_leaf hwf hleaf]
        rw [settingsRead_var htype hstring hptr, StorageType.load_store]
        rfl
      · apply read_other hwf hk other
        intro j' setting' a' hleaf' hptr' hstring'
        apply StorageType.read_store_other
        exact hapart other j' setting' hleaf' hother hstring' a a' hptr hptr'

theorem not_string_of_correct (hwf : WellFormed heap) (hcorrect : Correct heap k fullname)
    (hleaf : Leaf heap k fullname j setting) (hwrite : setting.writable = true) : setting.storageType ≠ .string := by
  intro hstring
  obtain ⟨-, -, hread⟩ := hcorrect (fun _ => 0) 1
  have hok : settingsAccess heap true (fun _ => 0) 1 k fullname = .ok (.ok, fun _ => 0, 1) := by
    rw [access_leaf hwf hleaf, if_pos rfl, settingsWrite_string hwrite hstring]
  obtain ⟨hsame, -⟩ := hread _ _ hok j setting hleaf 0
  unfold readSetting at hsame
  rw [access_leaf hwf hleaf] at hsame
  rw [settingsRead_string hstring, hstring] at hsame
  have hzero : (0 : BitVec 64) = StorageType.string.convert 1 := congrArg Prod.snd (Except.ok.inj hsame)
  exact absurd hzero (by decide)

theorem apart_of_correct {other : Name} {j' : Nat} {setting' : Setting} (hwf : WellFormed heap)
    (hcorrect : Correct heap k fullname) (hleaf : Leaf heap k fullname j setting) (hwrite : setting.writable = true)
    (hleaf' : Leaf heap k other j' setting') (hother : ¬ Leaf heap k other j setting)
    (hstring' : setting'.storageType ≠ .string) : Apart setting setting' := by
  intro a a' hptr hptr'
  by_contra hoverlap
  have hstring := not_string_of_correct hwf hcorrect hleaf hwrite
  have hpos := setting.storageType.size_pos
  have hpos' := setting'.storageType.size_pos
  obtain ⟨-, -, hread⟩ := hcorrect (fun _ => 0) (BitVec.allOnes 64)
  have hok : settingsAccess heap true (fun _ => 0) (BitVec.allOnes 64) k fullname =
      .ok (.ok, setting.storageType.store (fun _ => 0) a (BitVec.allOnes 64), BitVec.allOnes 64) := by
    rw [access_leaf hwf hleaf, if_pos rfl, settingsWrite_var hwrite hleaf.2.2 hstring hptr]
  obtain ⟨-, hsame⟩ := hread _ _ hok j setting hleaf 0
  have hsame' := hsame other hother
  unfold readSetting at hsame'
  rw [access_leaf hwf hleaf', access_leaf hwf hleaf'] at hsame'
  rw [settingsRead_var hleaf'.2.2 hstring' hptr', settingsRead_var hleaf'.2.2 hstring' hptr'] at hsame'
  have hload : setting'.storageType.load (setting.storageType.store (fun _ => 0) a (BitVec.allOnes 64)) a' = 0 :=
    (congrArg Prod.snd (Except.ok.inj hsame')).trans (StorageType.load_zero ..)
  obtain ⟨i, i', hi, hi', hbyte⟩ : ∃ i i', i < setting.storageType.size ∧ i' < setting'.storageType.size ∧
      a + i = a' + i' := by
    by_cases hle : a ≤ a'
    · exact ⟨a' - a, 0, by omega, by omega, by omega⟩
    · exact ⟨0, a - a', by omega, by omega, by omega⟩
  have hzero := StorageType.eq_zero_of_load _ _ hload hi'
  rw [← hbyte, StorageType.store_allOnes _ _ hi] at hzero
  exact absurd hzero (by decide)

theorem meets_of_correct (hwf : WellFormed heap) (hcorrect : Correct heap k fullname) : Meets heap k fullname := by
  obtain ⟨hfound, hnone, -⟩ := hcorrect (fun _ => 0) 0
  -- What is undefined or exits is neither of the two results.
  have hno (stop : Stop) (hstop : settingsAccess heap false (fun _ => 0) 0 k fullname = .error stop) : False := by
    by_cases hleaf : ∃ j setting, Leaf heap k fullname j setting
    · obtain ⟨out, hout, -⟩ := (hfound false).mpr hleaf
      cases hstop.symm.trans hout
    · cases hstop.symm.trans (hnone false hleaf)
  refine ⟨fun hat => ?_, fun hbelow => ?_, fun j setting hleaf hwrite => ?_⟩
  · exact hno _ (access_atSubsettings hwf hat)
  · exact hno _ (access_belowLeaf hwf hbelow)
  · refine ⟨not_string_of_correct hwf hcorrect hleaf hwrite, fun other j' setting' hleaf' hother hstring' => ?_⟩
    exact apart_of_correct hwf hcorrect hleaf hwrite hleaf' hother hstring'

end

/-! ## Trees that are built -/

inductive Op where
  | new
  | add (k : Nat) (setting : Setting)
  | remove (k : Nat) (name : Name)

def step (heap : Heap) : Op → Except Stop Heap
  | .new => .ok (settingsNew heap)
  | .add k setting => settingsAdd heap k setting
  | .remove k name => settingsRemove heap k name

/-- Names have no dots, and what is not subsettings is a variable. -/
def Legal : Op → Prop
  | .add _ setting => '.' ∉ setting.name ∧ (setting.storageType ≠ .subsettings → ∃ a, setting.ptr = .var a)
  | _ => True

section
variable {heap heap' : Heap} {k : Nat} {s : Settings}

theorem wellFormed_new (hwf : WellFormed heap) : WellFormed (settingsNew heap) := by
  have hcases (s : Settings) (hmem : s ∈ settingsNew heap) : s ∈ heap ∨ s = ⟨none, none, []⟩ := by
    rcases List.mem_append.mp hmem with h | h
    · exact .inl h
    · exact .inr (List.mem_singleton.mp h)
  refine ⟨fun s hs => ?_, fun s hs setting hmem => ?_, fun s hs setting hmem htype => ?_, fun s hs setting hmem htype => ?_⟩
  · rcases hcases s hs with h | rfl
    · exact hwf.nodup s h
    · exact List.nodup_nil
  · rcases hcases s hs with h | rfl
    · exact hwf.noDot s h setting hmem
    · cases hmem
  · rcases hcases s hs with h | rfl
    · obtain ⟨j, hptr, hj⟩ := hwf.subsettings s h setting hmem htype
      refine ⟨j, hptr, ?_⟩
      unfold settingsNew
      rw [List.length_append]
      exact Nat.lt_add_right _ hj
    · cases hmem
  · rcases hcases s hs with h | rfl
    · exact hwf.leaf s h setting hmem htype
    · cases hmem

theorem wellFormed_set (hwf : WellFormed heap) (hnodup : (s.settings.map Setting.name).Nodup)
    (hdot : ∀ setting ∈ s.settings, '.' ∉ setting.name)
    (hsub : ∀ setting ∈ s.settings, setting.storageType = .subsettings →
      ∃ j, setting.ptr = .settings j ∧ j < heap.length)
    (hleaf : ∀ setting ∈ s.settings, setting.storageType ≠ .subsettings → ∃ a, setting.ptr = .var a) :
    WellFormed (heap.set k s) where
  nodup := by
    intro s' hs'
    rcases List.mem_or_eq_of_mem_set hs' with h | rfl
    · exact hwf.nodup s' h
    · exact hnodup
  noDot := by
    intro s' hs'
    rcases List.mem_or_eq_of_mem_set hs' with h | rfl
    · exact hwf.noDot s' h
    · exact hdot
  subsettings := by
    intro s' hs' setting hmem htype
    rw [List.length_set]
    rcases List.mem_or_eq_of_mem_set hs' with h | rfl
    · exact hwf.subsettings s' h setting hmem htype
    · exact hsub setting hmem htype
  leaf := by
    intro s' hs'
    rcases List.mem_or_eq_of_mem_set hs' with h | rfl
    · exact hwf.leaf s' h
    · exact hleaf

theorem wellFormed_add {setting : Setting} (hwf : WellFormed heap) (hlegal : Legal (.add k setting))
    (hadd : settingsAdd heap k setting = .ok heap') : WellFormed heap' := by
  obtain ⟨hdot, hleaf⟩ := hlegal
  unfold settingsAdd at hadd
  cases hs : heap[k]? with
  | none =>
    rw [hs] at hadd
    cases hadd
  | some s =>
    have hmem := List.mem_of_getElem? hs
    rw [hs] at hadd
    dsimp only at hadd
    by_cases hused : ∃ old ∈ s.settings, old.name = setting.name
    · rw [if_pos hused] at hadd
      cases hadd
    rw [if_neg hused] at hadd
    by_cases hmax : s.settings.length + 1 = 2 ^ 31
    · rw [if_pos hmax] at hadd
      cases hadd
    rw [if_neg hmax] at hadd
    have hcases (old : Setting) (hold : old ∈ s.settings ++ [setting]) : old ∈ s.settings ∨ old = setting := by
      rcases List.mem_append.mp hold with h | h
      · exact .inl h
      · exact .inr (List.mem_singleton.mp h)
    -- The object with one setting more, if what is added is in order.
    have hset (hsub : setting.storageType = .subsettings → ∃ j, setting.ptr = .settings j ∧ j < heap.length) :
        WellFormed (heap.set k { s with settings := s.settings ++ [setting] }) := by
      apply wellFormed_set hwf
      · rw [List.map_append, List.nodup_append]
        refine ⟨hwf.nodup s hmem, List.nodup_singleton _, fun name hname name' hname' => ?_⟩
        obtain ⟨old, hold, rfl⟩ := List.mem_map.mp hname
        rw [List.mem_singleton.mp hname']
        exact fun heq => hused ⟨old, hold, heq⟩
      · intro old hold
        rcases hcases old hold with h | rfl
        · exact hwf.noDot s hmem old h
        · exact hdot
      · intro old hold htype
        rcases hcases old hold with h | rfl
        · exact hwf.subsettings s hmem old h htype
        · exact hsub htype
      · intro old hold htype
        rcases hcases old hold with h | rfl
        · exact hwf.leaf s hmem old h htype
        · exact hleaf htype
    by_cases htype : setting.storageType = .subsettings
    · rw [if_pos htype] at hadd
      cases hptr : setting.ptr with
      | var a =>
        rw [hptr] at hadd
        cases hadd
      | settings j =>
        rw [hptr] at hadd
        dsimp only at hadd
        split at hadd
        · cases hadd
        · rename_i sub hsub
          cases hadd
          have hj := (List.getElem?_eq_some_iff.mp hsub).1
          rw [List.length_set] at hj
          have hwf' := hset fun _ => ⟨j, hptr, hj⟩
          have hsub' := List.mem_of_getElem? hsub
          apply wellFormed_set hwf'
          · exact hwf'.nodup sub hsub'
          · exact hwf'.noDot sub hsub'
          · exact hwf'.subsettings sub hsub'
          · exact hwf'.leaf sub hsub'
    · rw [if_neg htype] at hadd
      cases hadd
      exact hset fun h => absurd h htype

theorem wellFormed_remove {name : Name} (hwf : WellFormed heap) (hremove : settingsRemove heap k name = .ok heap') :
    WellFormed heap' := by
  unfold settingsRemove at hremove
  cases hs : heap[k]? with
  | none =>
    rw [hs] at hremove
    cases hremove
  | some s =>
    have hmem := List.mem_of_getElem? hs
    rw [hs] at hremove
    dsimp only at hremove
    cases hi : s.settings.findIdx? (·.name = name) with
    | none =>
      rw [hi] at hremove
      cases hremove
      exact hwf
    | some i =>
      have hset : WellFormed (heap.set k { s with settings := s.settings.eraseIdx i }) := by
        apply wellFormed_set hwf
        · exact (hwf.nodup s hmem).sublist ((List.eraseIdx_sublist ..).map _)
        · exact fun setting h => hwf.noDot s hmem setting (List.mem_of_mem_eraseIdx h)
        · exact fun setting h => hwf.subsettings s hmem setting (List.mem_of_mem_eraseIdx h)
        · exact fun setting h => hwf.leaf s hmem setting (List.mem_of_mem_eraseIdx h)
      rw [hi] at hremove
      dsimp only at hremove
      split at hremove
      · cases hremove
      · split at hremove
        · cases hremove
        · split at hremove
          · cases hremove
          · cases hremove
            exact hset
      · cases hremove
        exact hset

theorem wellFormed_step {o : Op} (hwf : WellFormed heap) (hlegal : Legal o) (hstep : step heap o = .ok heap') :
    WellFormed heap' := by
  cases o with
  | new =>
    cases hstep
    exact wellFormed_new hwf
  | add k setting => exact wellFormed_add hwf hlegal hstep
  | remove k name => exact wellFormed_remove hwf hstep

theorem wellFormed_run {ops : List Op} (hlegal : ∀ o ∈ ops, Legal o) (hwf : WellFormed heap)
    (hrun : runOps step ops heap = .ok heap') : WellFormed heap' := by
  induction ops generalizing heap with
  | nil =>
    cases hrun
    exact hwf
  | cons o ops ih =>
    unfold runOps at hrun
    split at hrun
    · rename_i heap1 hstep
      apply ih
      · exact fun o' ho' => hlegal o' (List.mem_cons_of_mem _ ho')
      · exact wellFormed_step hwf (hlegal o List.mem_cons_self) hstep
      · exact hrun
    · cases hrun

theorem wellFormed_nil : WellFormed [] where
  nodup := by
    intro s h
    cases h
  noDot := by
    intro s h
    cases h
  subsettings := by
    intro s h
    cases h
  leaf := by
    intro s h
    cases h

/-- In every tree that is built, a name meets the condition exactly if settings_access() takes it for a full path. -/
theorem settingsAccess_correct_iff {ops : List Op} (hlegal : ∀ o ∈ ops, Legal o) (hrun : runOps step ops [] = .ok heap)
    (hk : k < heap.length) (fullname : Name) : Correct heap k fullname ↔ Meets heap k fullname := by
  have hwf := wellFormed_run hlegal wellFormed_nil hrun
  exact ⟨meets_of_correct hwf, correct_of_meets hwf hk⟩

end

def verbose : Setting := ⟨['v'], true, .int, 1, .var 0⟩

def buildVerbose : List Op := [.new, .add 0 verbose]

theorem buildVerbose_legal : ∀ o ∈ buildVerbose, Legal o := by
  intro o ho
  rcases List.mem_cons.mp ho with rfl | ho
  · trivial
  · cases List.mem_singleton.mp ho
    exact ⟨by decide, fun _ => ⟨0, rfl⟩⟩

theorem verbose_correct : Correct [⟨none, none, [verbose]⟩] 0 ['v'] := by
  have hwf : WellFormed [⟨none, none, [verbose]⟩] := wellFormed_run buildVerbose_legal wellFormed_nil rfl
  have hok : (settingsAccess [⟨none, none, [verbose]⟩] false (fun _ => 0) 0 0 ['v']).toOption.map (·.1) = some .ok := by
    decide
  have hone (name : Name) (j : Nat) (setting : Setting) (hleaf : Leaf [⟨none, none, [verbose]⟩] 0 name j setting) :
      j = 0 ∧ setting = verbose := by
    obtain ⟨-, ⟨s, hs, hmem⟩, -⟩ := hleaf
    obtain ⟨hj, hs'⟩ := List.getElem?_eq_some_iff.mp hs
    have hzero : j = 0 := Nat.lt_one_iff.mp hj
    subst hzero
    cases hs'
    exact ⟨rfl, List.mem_singleton.mp hmem⟩
  apply (settingsAccess_correct_iff buildVerbose_legal rfl (by decide) ['v']).mpr
  refine ⟨fun hat => ?_, fun hbelow => ?_, fun j setting hleaf hwrite => ⟨?_, fun other j' setting' hleaf' hother => ?_⟩⟩
  · rw [access_atSubsettings hwf hat] at hok
    cases hok
  · rw [access_belowLeaf hwf hbelow] at hok
    cases hok
  · rw [(hone _ j setting hleaf).2]
    decide
  · obtain ⟨rfl, rfl⟩ := hone _ j setting hleaf
    obtain ⟨rfl, rfl⟩ := hone _ j' setting' hleaf'
    exact absurd hleaf' hother

/-- The name `v.x` goes on behind a variable. -/
theorem not_settingsAccess_correct :
    ¬ ∀ (ops : List Op) (heap : Heap), (∀ o ∈ ops, Legal o) → runOps step ops [] = .ok heap →
      ∀ k < heap.length, ∀ fullname, Correct heap k fullname := by
  intro h
  have hwf : WellFormed [⟨none, none, [verbose]⟩] := wellFormed_run buildVerbose_legal wellFormed_nil rfl
  have hcorrect := h buildVerbose [⟨none, none, [verbose]⟩] buildVerbose_legal rfl 0 Nat.zero_lt_one ['v', '.', 'x']
  obtain ⟨-, hbelow, -⟩ := meets_of_correct hwf hcorrect
  exact hbelow ⟨0, _, verbose, ['x'], Walk.here 0 ['v', '.', 'x'], rfl, List.mem_cons_self, by decide⟩

end Gxemul.Settings
