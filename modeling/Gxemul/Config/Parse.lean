import Mathlib.Algebra.Group.Int.Defs
import Gxemul.Config.Text

/- Configuration files (`src/core/emul_parse.c`).

   What is read of a net or a machine is kept in static variables, which a section
   begins to fill from their zero state, until the parenthesis that ends it. -/
namespace Gxemul.Config

/-! ## Static variables -/

inductive NetField where
  | tapdev | ipv4net | ipv4len | localPort
  deriving DecidableEq

def NetField.size : NetField → Nat
  | .tapdev | .ipv4net | .ipv4len => 50
  | .localPort => 10

structure CurNet where
  fields : NetField → List Char
  remote : List (List Char)

inductive MachineField where
  | name | cpu | type | subtype | bootname | bootarg | slowsi | promEmulation | useX11 | x11Scaledown | byteOrder
  | randomMem | randomCpu | forceNetboot | startPaused | ncpus | nGfxCards | serialNr | emulatedHz | memory
  deriving DecidableEq

def MachineField.size : MachineField → Nat
  | .name | .cpu | .type | .subtype => 50
  | .bootname => 150
  | .bootarg => 250
  | .byteOrder => 20
  | .slowsi | .promEmulation | .useX11 | .x11Scaledown | .randomMem | .randomCpu | .forceNetboot | .startPaused
  | .ncpus | .nGfxCards | .serialNr | .emulatedHz | .memory => 10

inductive MachineTable where
  | load | disk | device | x11Disp
  deriving DecidableEq

/-- What a word that is added to an array is compared with, and stored in. -/
structure TableSize where
  message : String
  limit : Nat
  declared : Nat
  buflen : Nat

def maxNRemote : Nat := 20
def maxRemoteLen : Nat := 100
def maxNLoad : Nat := 15
def maxLoadLen : Nat := 2000
def maxNDisk : Nat := 10
def maxDiskLen : Nat := 2000
def maxNDevice : Nat := 20
def maxDeviceLen : Nat := 400
def maxNX11Disp : Nat := 5
def maxX11DispLen : Nat := 1000

def remoteSize : TableSize := ⟨"too many remote networks", maxNRemote, maxNRemote, maxRemoteLen⟩

def MachineTable.size : MachineTable → TableSize
  | .load => ⟨"too many loads", maxNLoad, maxNLoad, maxLoadLen⟩
  | .disk => ⟨"too many disks", maxNDisk, maxNDisk, maxDiskLen⟩
  | .device => ⟨"too many devices", maxNDevice, maxNDisk, maxDeviceLen⟩
  | .x11Disp => ⟨"too many x11 displays", maxNX11Disp, maxNX11Disp, maxX11DispLen⟩

/-- The length of an array is `cur_machine_n_…`. -/
structure CurMachine where
  fields : MachineField → List Char
  tables : MachineTable → List (List Char)

/-! ## Numbers and switches -/

def lower (ch : Char) : Char :=
  if 'A' ≤ ch ∧ ch ≤ 'Z' then Char.ofNat (ch.toNat + 32) else ch

/-- `strcasecmp(s, t) == 0`. -/
def strcaseeq (s t : List Char) : Bool := s.map lower == t.map lower

/-- `strncasecmp(s, t, n) == 0`. -/
def strncaseeq (s t : List Char) (n : Nat) : Bool := (s.take n).map lower == (t.take n).map lower

def isSpace (ch : Char) : Bool := ch == ' ' || ('\t' ≤ ch && ch ≤ '\r')

/-- `strtol(s, NULL, 10)`, as an int. -/
def atoi (s : List Char) : Int :=
  let s := s.dropWhile isSpace
  let digits := if s.head? = some '-' ∨ s.head? = some '+' then s.tail else s
  let value : Nat := (digits.takeWhile Char.isDigit).foldl (fun (n : Nat) ch => 10 * n + (ch.toNat - 48)) 0
  let value : Int := if s.head? = some '-' then -value else value
  (BitVec.ofInt 32 (max (-2 ^ 63) (min (2 ^ 63 - 1) value))).toInt

/-- The value of a digit of mystrtoull(). -/
def digit (ch : Char) : Option Nat :=
  if '0' ≤ ch ∧ ch ≤ '9' then some (ch.toNat - 48)
  else if 'a' ≤ ch ∧ ch ≤ 'f' then some (ch.toNat - 97 + 10)
  else if 'A' ≤ ch ∧ ch ≤ 'F' then some (ch.toNat - 65 + 10)
  else none

/-- The loop of mystrtoull(). -/
def digits (base : Nat) (res : BitVec 64) : List Char → BitVec 64
  | [] => res
  | ch :: s =>
    match digit ch with
    | none => res
    | some c =>
      let res := match base with
        | 8 => res <<< 3 ||| BitVec.ofNat 64 c
        | 16 => res <<< 4 ||| BitVec.ofNat 64 c
        | _ => res * BitVec.ofNat 64 base + BitVec.ofNat 64 c
      digits base res s

/-- `mystrtoull(s, NULL, 0)`. -/
def mystrtoull (s : List Char) : BitVec 64 :=
  let minusSign := s.head? = some '-'
  let s := if minusSign then s.tail else s
  let res := match s with
    | ['0'] => 0
    | '0' :: 'x' :: s | '0' :: 'X' :: s => digits 16 0 s
    | '0' :: s => digits 8 0 s
    | ch :: _ => digits (if '1' ≤ ch ∧ ch ≤ '9' then 10 else 0) 0 s
    | [] => 0
  if minusSign then -res else res

/-- `parse_on_off()`, which prints a warning for other words. -/
def parseOnOff (s : List Char) : Bool :=
  ["on", "yes", "enable", "1"].any fun t => strcaseeq s t.toList

/-! ## What is built -/

/-- The arguments of net_init(). -/
structure Net where
  tapdev : Option (List Char)
  ipv4net : List Char
  ipv4len : Int
  remote : List (List Char)
  localPort : Int
  deriving DecidableEq

inductive ByteOrder where
  | noOverride | big | little
  deriving DecidableEq

/-- What a section sets of a machine, with the arguments of emul_machine_setup(). -/
structure Machine where
  name : List Char
  machineType : Int × Int
  cpuName : Option (List Char)
  x11InUse : Bool
  promEmulation : Bool
  randomMemContents : Bool
  useRandomBootstrapCpu : Bool
  byteOrderOverride : ByteOrder
  forceNetboot : Bool
  startPaused : Bool
  ncpus : Int
  nGfxCards : Int
  serialNr : Int
  emulatedHz : BitVec 64
  physicalRamInMb : Int
  x11Scale : Int × Int
  disks : List (List Char)
  bootKernelFilename : List Char
  bootStringArgument : Option (List Char)
  displayNames : List (List Char)
  loads : List (List Char)
  devices : List (List Char)
  deriving DecidableEq

structure Emul where
  name : Option (List Char)
  net : Option Net
  machines : List Machine
  nextSerialNr : Int
  deriving DecidableEq

/-- The functions that are called: what machine_name_to_type() finds for two words, whether
diskimage_add() finds the image for a type and the disks that a machine has, and whether
net_init() returns a net. -/
structure World where
  machineNameToType : List Char → List Char → Option (Int × Int)
  diskimageAdd : Int × Int → List (List Char) → List Char → Bool
  netInit : Net → Bool

/-! ## Words in parentheses -/

def maxWordLen : Nat := 200

/-- The macro `WORD`, behind the word. -/
def readValue (size : Nat) (f : Input) : Except Stop (Input × List Char) := do
  let (f, _) ← readOneWord maxWordLen expectLeft f
  let (f, value) ← readOneWord size expectWord f
  let (f, _) ← readOneWord maxWordLen expectRight f
  return (f, value)

def readElement (size : TableSize) (table : List (List Char)) (f : Input) :
    Except Stop (Input × List (List Char)) := do
  let (f, _) ← readOneWord maxWordLen expectLeft f
  if size.limit ≤ table.length then .error (.exits size.message)
  else if size.declared ≤ table.length then .error (.outside table.length size.declared)
  else
    let (f, value) ← readOneWord size.buflen expectWord f
    let (f, _) ← readOneWord maxWordLen expectRight f
    return (f, table ++ [value])

/-! ## Sections -/

inductive ParseState where
  | none | emul | net | machine

/-- The variables of emul_parse_config(), and the static ones. -/
structure Parse where
  f : Input
  state : ParseState
  net : CurNet
  machine : CurMachine
  emul : Emul

def defaultNet : CurNet where
  fields
    | .tapdev => []
    | .ipv4net => "10.0.0.0".toList
    | .ipv4len => "8".toList
    | .localPort => []
  remote := []

/-- The variables that are emptied when a machine begins, in their order. -/
def machineResets : List MachineField :=
  [.name, .cpu, .type, .subtype, .bootname, .slowsi, .promEmulation, .useX11, .x11Scaledown, .byteOrder, .randomMem,
    .randomCpu, .forceNetboot, .startPaused, .ncpus, .nGfxCards, .serialNr, .emulatedHz, .memory]

/-- The "zero state". -/
def CurMachine.reset (m : CurMachine) : CurMachine where
  fields field :=
    if field = .bootarg then ['\x08'] else if field ∈ machineResets then [] else m.fields field
  tables table :=
    if table ∈ [MachineTable.load, .disk, .device, .x11Disp] then [] else m.tables table

def notExpecting (word : List Char) (what : String) : String :=
  "not expecting '" ++ String.ofList word ++ "' in " ++ what ++ " section"

def parseEmul (p : Parse) (word : List Char) : Except Stop Parse := do
  if word.head? = some ')' then return { p with state := .none }
  else if word = "name".toList then
    let (f, tmp) ← readValue 200 p.f
    return { p with f, emul.name := some tmp }
  else if word = "net".toList then
    let (f, _) ← readOneWord maxWordLen expectLeft p.f
    return { p with f, state := .net, net := defaultNet }
  else if word = "machine".toList then
    let (f, _) ← readOneWord maxWordLen expectLeft p.f
    return { p with f, state := .machine, machine := p.machine.reset }
  else .error (.fatal p.f.line (notExpecting word "an 'emul'"))

/-- `if (!s[0]) strlcpy(s, value, sizeof(s))`. -/
def orDefault (s : List Char) (value : String) : List Char := if s.isEmpty then value.toList else s

def CurNet.netInit (n : CurNet) : Net where
  tapdev := if (n.fields .tapdev).isEmpty then none else some (n.fields .tapdev)
  ipv4net := n.fields .ipv4net
  ipv4len := atoi (n.fields .ipv4len)
  remote := n.remote
  localPort := atoi (orDefault (n.fields .localPort) "0")

def netWords : List (String × NetField) :=
  [("tapdev", .tapdev), ("ipv4net", .ipv4net), ("ipv4len", .ipv4len), ("local_port", .localPort)]

def parseNet (w : World) (p : Parse) (word : List Char) : Except Stop Parse := do
  if word.head? = some ')' then
    if p.emul.net.isSome then .error (.fatal p.f.line "more than one net isn't really supported yet")
    else if w.netInit p.net.netInit = false then .error (.fatal p.f.line "fatal error: could not create the net (?)")
    else return { p with state := .emul, emul.net := some p.net.netInit }
  else match netWords.find? (·.1.toList = word) with
    | some (_, field) =>
      let (f, value) ← readValue field.size p.f
      return { p with f, net.fields := fun x => if x = field then value else p.net.fields x }
    | none =>
      if word = "add_remote".toList then
        let (f, remote) ← readElement remoteSize p.net.remote p.f
        return { p with f, net.remote := remote }
      else .error (.fatal p.f.line (notExpecting word "a 'net'"))

def byteOrderOf (s : List Char) : Except Stop ByteOrder :=
  if s.isEmpty then .ok .noOverride
  else if strncaseeq s "big".toList 3 then .ok .big
  else if strncaseeq s "little".toList 6 then .ok .little
  else .error (.exits "Byte order must be big-endian or little-endian")

/-- `x11_md.scaledown` and `x11_md.scaleup`. -/
def x11ScaleOf (s : List Char) : Except Stop (Int × Int) :=
  if s.isEmpty then .ok (1, 1)
  else if atoi s < 0 then .ok (1, -atoi s)
  else if atoi s < 1 then .error (.exits "Invalid scaledown value")
  else .ok (atoi s, 1)

def addDisks (w : World) (type : Int × Int) : List (List Char) → List (List Char) → Except Stop (List (List Char))
  | added, [] => .ok added
  | added, disk :: disks =>
    if w.diskimageAdd type added disk then addDisks w type (added ++ [disk]) disks else .error (.exits "TODO")

/-- The machine of a section, with the serial number that machine_new() gives it. -/
def CurMachine.build (w : World) (m : CurMachine) : Except Stop Machine := do
  let onOff field value := parseOnOff (orDefault (m.fields field) value)
  match w.machineNameToType (m.fields .type) (m.fields .subtype) with
  | none => .error (.exits "")
  | some machineType =>
    let byteOrderOverride ← byteOrderOf (m.fields .byteOrder)
    let x11Scale ← x11ScaleOf (m.fields .x11Scaledown)
    let disks ← addDisks w machineType [] (m.tables .disk)
    return {
      name := orDefault (m.fields .name) "no_name"
      machineType
      cpuName := if (m.fields .cpu).isEmpty then none else some (m.fields .cpu)
      x11InUse := onOff .useX11 "no"
      promEmulation := onOff .promEmulation "yes"
      randomMemContents := onOff .randomMem "no"
      useRandomBootstrapCpu := onOff .randomCpu "no"
      byteOrderOverride
      forceNetboot := onOff .forceNetboot "no"
      startPaused := onOff .startPaused "no"
      ncpus := atoi (orDefault (m.fields .ncpus) "0")
      nGfxCards := if (m.fields .nGfxCards).isEmpty then 1 else atoi (m.fields .nGfxCards)
      serialNr := 1
      emulatedHz := if (m.fields .emulatedHz).isEmpty then 0 else mystrtoull (m.fields .emulatedHz)
      physicalRamInMb := atoi (orDefault (m.fields .memory) "0")
      x11Scale
      disks
      bootKernelFilename := m.fields .bootname
      bootStringArgument := if (m.fields .bootarg).head? = some '\x08' then none else some (m.fields .bootarg)
      displayNames := m.tables .x11Disp
      loads := m.tables .load
      devices := m.tables .device }

/-- `m->serial_nr`: the one of the section, or the next one. -/
def CurMachine.serial (m : CurMachine) (next : Int) : Int :=
  if (m.fields .serialNr).isEmpty then next else atoi (m.fields .serialNr)

def Emul.addMachine (e : Emul) (m : Machine) (serial : Int) : Emul :=
  { e with machines := e.machines ++ [{ m with serialNr := serial }], nextSerialNr := serial + 1 }

def machineWords : List (String × MachineField) :=
  [("name", .name), ("cpu", .cpu), ("type", .type), ("subtype", .subtype), ("bootname", .bootname),
    ("bootarg", .bootarg), ("prom_emulation", .promEmulation), ("use_x11", .useX11), ("x11_scaledown", .x11Scaledown),
    ("byte_order", .byteOrder), ("random_mem_contents", .randomMem), ("use_random_bootstrap_cpu", .randomCpu),
    ("force_netboot", .forceNetboot), ("ncpus", .ncpus), ("serial_nr", .serialNr), ("n_gfx_cards", .nGfxCards),
    ("emulated_hz", .emulatedHz), ("memory", .memory), ("start_paused", .startPaused)]

def machineTables : List (String × MachineTable) :=
  [("load", .load), ("disk", .disk), ("device", .device), ("add_x11_display", .x11Disp)]

/-- What parse__machine() does with a word that is not `)`. -/
def CurMachine.item (m : CurMachine) (f : Input) (word : List Char) : Except Stop (Input × CurMachine) := do
  match machineWords.find? (·.1.toList = word) with
  | some (_, field) =>
    let (f, value) ← readValue field.size f
    return (f, { m with fields := fun x => if x = field then value else m.fields x })
  | none =>
    match machineTables.find? (·.1.toList = word) with
    | some (_, table) =>
      let (f, elements) ← readElement table.size (m.tables table) f
      return (f, { m with tables := fun x => if x = table then elements else m.tables x })
    | none => .error (.fatal f.line (notExpecting word "a 'machine'"))

def parseMachine (w : World) (p : Parse) (word : List Char) : Except Stop Parse := do
  if word.head? = some ')' then
    let m ← p.machine.build w
    return { p with state := .emul, emul := p.emul.addMachine m (p.machine.serial p.emul.nextSerialNr) }
  else
    let (f, machine) ← p.machine.item p.f word
    return { p with f, machine }

/-! ## The file -/

/-- The switch on `parsestate`. -/
def parseWord (w : World) (p : Parse) (word : List Char) : Except Stop Parse :=
  match p.state with
  | .emul => parseEmul p word
  | .net => parseNet w p word
  | .machine => parseMachine w p word
  | .none => .ok p

/-- One turn of the loop in emul_parse_config(): nothing at the end. -/
def parseStep (w : World) (p : Parse) : Except Stop (Option Parse) := do
  if p.f.eof then return none
  let (f, word) ← readOneWord maxWordLen ⟨true, false, true⟩ p.f
  if word.isEmpty then return none
  return some (← parseWord w { p with f } word)

def parseTurn (w : World) : Except Stop Parse → Except Stop Parse × Bool
  | .error e => (.error e, false)
  | .ok p =>
    match parseStep w p with
    | .error e => (.error e, false)
    | .ok none => (.ok p, false)
    | .ok (some p') => (.ok p', true)

def Parse.start (net : CurNet) (machine : CurMachine) (emul : Emul) (text : List Char) : Parse where
  f := ⟨text, false, 1, 0⟩
  state := .emul
  net := net
  machine := machine
  emul := emul

/-- emul_parse_config(), with fuel for the loop. -/
def emulParseConfig (w : World) (fuel : Nat) (p : Parse) : Option (Except Stop Emul) :=
  (Lib.whileLoop (parseTurn w) fuel (.ok p)).map fun r => do
    let p ← r
    if p.f.level ≠ 0 then .error (.exits "EOF but not enough right parentheses?") else return p.emul

end Gxemul.Config
