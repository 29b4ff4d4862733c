import Gxemul.Lib.Bounds

/- Loading ELF files (`src/file/file_elf.c`).

   The file is read in order and through fseek(), which fails and leaves the position as it
   is for a negative offset. What the loader writes to the emulated memory is a list of calls
   of memory_rw(), kept for each program header. Reads of the symbol strings are checked
   against the table, which has a NUL behind its last byte. -/
namespace Gxemul.Loader

open Lib (Byte File Checked)

/-! ## Files of the host -/

/-- `FILE *`. -/
structure Stream where
  bytes : File
  pos : Nat

namespace Stream

/-- fseek() with SEEK_SET. -/
def seek (s : Stream) (offset : BitVec 64) : Stream :=
  if offset.toInt < 0 then s else { s with pos := offset.toNat }

/-- fread() of up to `n` bytes. -/
def read (s : Stream) (n : Nat) : List Byte × Stream :=
  (s.bytes.read s.pos n, { s with pos := s.pos + (s.bytes.read s.pos n).length })

end Stream

/-- An `int`. -/
def int (x : Int) : Int := (x + 2 ^ 31) % 2 ^ 32 - 2 ^ 31

/-- A call of memory_rw() with MEM_WRITE. -/
structure Write where
  addr : BitVec 64
  data : List Byte

namespace Elf

inductive Arch where
  | alpha
  | arm
  | i960
  | m88k
  | mips
  | ppc
  | riscv
  | sh
  | other
  deriving DecidableEq

inductive ElfExit where
  | notElf
  | notElf64
  | unknownClass
  | unknownEncoding
  | phentsize
  | shentsize
  | notExecutable
  | machineType
  | sh64
  | phdr
  | memszFilesz
  | header
  | symbols
  /-- The copying of a segment does not come to an end. -/
  | endless

/-- `unencode()`: `size` bytes at `ofs`, sign-extended. -/
def unencode (w : Nat) (little : Bool) (data : List Byte) (ofs size : Nat) : BitVec w :=
  let wp := (data.drop ofs).take size
  match if little then wp.reverse else wp with
  | [] => 0
  | b :: rest =>
    let first : BitVec w := (if b.msb then (0 - 1) <<< 8 else 0) ||| b.setWidth w
    rest.foldl (fun var b => var <<< 8 ||| b.setWidth w) first

/-! ## Headers -/

/-- The fields of `Elf32_Ehdr` or `Elf64_Ehdr` that are used. -/
structure Ehdr where
  etype : BitVec 32
  emachine : BitVec 32
  eentry : BitVec 64
  ephoff : BitVec 64
  eshoff : BitVec 64
  ephentsize : BitVec 32
  ephnum : BitVec 32
  eshentsize : BitVec 32
  eshnum : BitVec 32

def Ehdr.decode (elf64 little : Bool) (d : List Byte) : Ehdr :=
  if elf64 then
    { etype := unencode 32 little d 16 2
      emachine := unencode 32 little d 18 2
      eentry := unencode 64 little d 24 8
      ephoff := unencode 64 little d 32 8
      eshoff := unencode 64 little d 40 8
      ephentsize := unencode 32 little d 54 2
      ephnum := unencode 32 little d 56 2
      eshentsize := unencode 32 little d 58 2
      eshnum := unencode 32 little d 60 2 }
  else
    { etype := unencode 32 little d 16 2
      emachine := unencode 32 little d 18 2
      eentry := unencode 64 little d 24 4
      ephoff := unencode 64 little d 28 4
      eshoff := unencode 64 little d 32 4
      ephentsize := unencode 32 little d 42 2
      ephnum := unencode 32 little d 44 2
      eshentsize := unencode 32 little d 46 2
      eshnum := unencode 32 little d 48 2 }

def sizeofPhdr (elf64 : Bool) : Nat := if elf64 then 56 else 32

def sizeofShdr (elf64 : Bool) : Nat := if elf64 then 64 else 40

def sizeofSym (elf64 : Bool) : Nat := if elf64 then 24 else 16

/-- The fields of `Elf32_Phdr` or `Elf64_Phdr` that are used. -/
structure Phdr where
  pType : BitVec 32
  pOffset : BitVec 64
  pVaddr : BitVec 64
  pFilesz : BitVec 64
  pMemsz : BitVec 64

def Phdr.decode (elf64 little : Bool) (d : List Byte) : Phdr :=
  if elf64 then
    { pType := unencode 32 little d 0 4
      pOffset := unencode 64 little d 8 8
      pVaddr := unencode 64 little d 16 8
      pFilesz := unencode 64 little d 32 8
      pMemsz := unencode 64 little d 40 8 }
  else
    { pType := unencode 32 little d 0 4
      pOffset := unencode 64 little d 4 4
      pVaddr := unencode 64 little d 8 4
      pFilesz := unencode 64 little d 16 4
      pMemsz := unencode 64 little d 20 4 }

/-- The fields of `Elf32_Shdr` or `Elf64_Shdr` that are used. -/
structure Shdr where
  shType : BitVec 32
  shOffset : BitVec 64
  shSize : BitVec 64

def Shdr.decode (elf64 little : Bool) (d : List Byte) : Shdr :=
  if elf64 then
    { shType := unencode 32 little d 4 4
      shOffset := unencode 64 little d 24 8
      shSize := unencode 64 little d 32 8 }
  else
    { shType := unencode 32 little d 4 4
      shOffset := unencode 64 little d 16 4
      shSize := unencode 64 little d 20 4 }

/-- The fields of `Elf32_Sym` or `Elf64_Sym` that are used. -/
structure Sym where
  stName : BitVec 64
  addr : BitVec 64
  size : BitVec 64

def Sym.decode (elf64 little : Bool) (d : List Byte) : Sym :=
  if elf64 then
    { stName := unencode 64 little d 0 4
      addr := unencode 64 little d 8 8
      size := unencode 64 little d 16 8 }
  else
    { stName := unencode 64 little d 0 4
      addr := unencode 64 little d 4 4
      size := unencode 64 little d 8 4 }

def ptLoad : BitVec 32 := 1#32

def ptMipsReginfo : BitVec 32 := 0x70000000#32

def pfMaskproc : BitVec 32 := 0xf0000000#32

def shtSymtab : BitVec 32 := 2#32

def shtStrtab : BitVec 32 := 3#32

def etExec : BitVec 32 := 2#32

def machineOk : Arch → BitVec 32 → Bool
  | .m88k, m => m == 5#32
  | .alpha, m => m == 41#32 || m == BitVec.ofInt 32 (-28634)
  | .arm, m => m == 40#32
  | .i960, m => m == 19#32
  | .mips, m => m == 8#32 || m == 10#32
  | .ppc, m => m == 20#32 || m == 21#32
  | .riscv, m => m == 243#32
  | .sh, m => m == 42#32
  | .other, _ => false

/-! ## Segments -/

structure Copy where
  f : Stream
  ofs : Int
  alignLen : Nat
  chunkLen : Nat
  len : Int
  writes : List Write

def alignOf (vaddr : BitVec 64) : Nat :=
  if vaddr &&& 0xffff#64 == 0#64 then 0x10000
  else if vaddr &&& 0x3fff#64 == 0#64 then 0x4000
  else if vaddr &&& 0xfff#64 == 0#64 then 0x1000
  else if vaddr &&& 0xff#64 == 0#64 then 0x100
  else if vaddr &&& 0x3f#64 == 0#64 then 0x40
  else if vaddr &&& 0xf#64 == 0#64 then 0x10
  else 1

def largerSize (alignLen : Nat) (addr : BitVec 64) : Nat :=
  if alignLen < 0x10000 && addr &&& 0xffff#64 == 0#64 then 0x10000
  else if alignLen < 0x1000 && addr &&& 0xfff#64 == 0#64 then 0x1000
  else alignLen

/-- The inner loop, which writes a chunk. It returns `ofs` and the writes. -/
def writeChunk (vaddr : BitVec 64) (alignLen : Nat) (ch : List Byte) (len : Int) :
    Nat → Int → Int → List Write → Option (Int × List Write)
  | 0, _, _, _ => none
  | fuel + 1, j, ofs, writes =>
    if j < len then
      let lenToCopy := if j + alignLen ≤ len then (alignLen : Int) else len - j
      writeChunk vaddr alignLen ch len fuel (int (j + alignLen)) (int (ofs + alignLen))
        (writes ++ [⟨vaddr + BitVec.ofInt 64 ofs, (ch.drop j.toNat).take lenToCopy.toNat⟩])
    else some (ofs, writes)

def copyChunk (ph : Phdr) (c : Copy) : Option Copy :=
  let larger := largerSize c.alignLen (ph.pVaddr + BitVec.ofInt 64 c.ofs)
  let alignLen := larger
  let chunkLen := if larger = c.alignLen then c.chunkLen else larger
  let (ch, f) := c.f.read chunkLen
  let len : Int := ch.length
  let len := if int (c.ofs + len) > ph.pFilesz.toInt then int (ph.pFilesz.toInt - c.ofs) else len
  (writeChunk ph.pVaddr alignLen ch len (chunkLen + 1) 0 c.ofs c.writes).map fun r =>
    { f := f, ofs := r.1, alignLen := alignLen, chunkLen := chunkLen, len := len, writes := r.2 }

def copyLoop (ph : Phdr) : Nat → Copy → Option Copy
  | 0, _ => none
  | fuel + 1, c =>
    if c.ofs < ph.pFilesz.toInt ∧ c.len = c.chunkLen then (copyChunk ph c).bind (copyLoop ph fuel)
    else some c

def Copy.start (f : Stream) (ph : Phdr) : Copy where
  f := f.seek ph.pOffset
  ofs := 0
  alignLen := alignOf ph.pVaddr
  chunkLen := alignOf ph.pVaddr
  len := alignOf ph.pVaddr
  writes := []

/-- The copying of a segment. Each turn but the last moves on in the file. -/
def copySegment (f : Stream) (ph : Phdr) : Option Copy := copyLoop ph (f.bytes.length + 2) (Copy.start f ph)

structure Segment where
  ph : Phdr
  writes : List Write

structure Segments where
  f : Stream
  /-- Address translation has been switched on, on a PPC. -/
  translate : Bool
  segments : List Segment

def Phdr.isLoaded (ph : Phdr) : Bool :=
  ph.pMemsz != 0#64 && (ph.pType == ptLoad || ph.pType &&& pfMaskproc == ptMipsReginfo)

def loadPhdr (arch : Arch) (elf64 little : Bool) (eh : Ehdr) (st : Segments) (i : Nat) : Except ElfExit Segments :=
  let (d, f) := (st.f.seek (eh.ephoff + BitVec.ofInt 64 (i * eh.ephentsize.toInt))).read (sizeofPhdr elf64)
  if d.length ≠ sizeofPhdr elf64 then .error .phdr
  else
    let ph := Phdr.decode elf64 little d
    let translate := st.translate || (arch == .ppc &&
      (elf64 && ph.pVaddr >>> 60 != 0#64 || !elf64 && ph.pVaddr >>> 28 != 0#64))
    if ph.isLoaded then
      if ph.pMemsz < ph.pFilesz then .error .memszFilesz
      else
        match copySegment f ph with
        | none => .error .endless
        | some c => .ok ⟨c.f, translate, st.segments ++ [⟨ph, c.writes⟩]⟩
    else .ok ⟨f, translate, st.segments ++ [⟨ph, []⟩]⟩

/-! ## Sections -/

structure Sections where
  f : Stream
  /-- The symbol table, and the number of its entries. -/
  symbols : List Byte
  nSymbols : Int
  /-- The largest string table. -/
  strings : Option (List Byte)

def Sections.symbolLength (st : Sections) : Nat := (st.strings.map List.length).getD 0

def loadShdr (elf64 little : Bool) (eh : Ehdr) (st : Sections) (i : Nat) : Except ElfExit Sections :=
  let (d, f) := (st.f.seek (eh.eshoff + BitVec.ofInt 64 (i * eh.eshentsize.toInt))).read (sizeofShdr elf64)
  if d.length ≠ sizeofShdr elf64 then .error .header
  else
    let sh := Shdr.decode elf64 little d
    let shEntsize := sizeofSym elf64
    if sh.shType = shtSymtab then
      let nEntries := int (sh.shSize.toNat / shEntsize)
      let len := (BitVec.ofInt 64 (int (shEntsize * nEntries))).toNat
      let (symbols, f) := (f.seek sh.shOffset).read len
      if symbols.length ≠ sh.shSize.toNat then .error .symbols
      else .ok { st with f := f, symbols := symbols, nSymbols := nEntries }
    else if sh.shType = shtStrtab ∧ sh.shSize.toNat > st.symbolLength then
      let (strings, f) := (f.seek sh.shOffset).read sh.shSize.toNat
      if strings.length ≠ sh.shSize.toNat then .error .symbols
      else .ok { st with f := f, strings := some strings }
    else .ok { st with f := f }

structure Image where
  elf64 : Bool
  little : Bool
  entry : BitVec 64
  translate : Bool
  segments : List Segment
  symbols : List Byte
  nSymbols : Int
  strings : Option (List Byte)

structure Header where
  elf64 : Bool
  little : Bool
  eh : Ehdr
  f : Stream

/-- The checks of the ELF header in the order in which they are made, each with the exit that it leads to. `hdr` is
`hdr32`, or a larger part of the file in an ELF64. -/
def headerChecks (arch : Arch) (hdr32 hdr : List Byte) (elf64 : Bool) (eh : Ehdr) : List (Bool × ElfExit) :=
  let elfClass := hdr32.getD 4 0#8
  let encoding := hdr32.getD 5 0#8
  [(decide (hdr32.length < 52), .notElf),
   (hdr32.take 4 != [0x7f#8, 0x45#8, 0x4c#8, 0x46#8], .notElf),
   (elfClass != 1#8 && elfClass != 2#8, .unknownClass),
   (elf64 && decide (hdr.length < 64), .notElf64),
   (encoding != 1#8 && encoding != 2#8, .unknownEncoding),
   (eh.ephentsize.toInt != sizeofPhdr elf64, .phentsize),
   (eh.eshentsize.toInt != sizeofShdr elf64, .shentsize),
   (eh.etype != etExec, .notExecutable),
   (!machineOk arch eh.emachine, .machineType),
   (arch == .sh && eh.eentry.getLsbD 0, .sh64)]

def loadHeader (arch : Arch) (file : File) : Except ElfExit Header :=
  let (hdr32, f) := (Stream.mk file 0).read 52
  let elf64 := hdr32.getD 4 0#8 == 2#8
  let little := hdr32.getD 5 0#8 == 1#8
  let (hdr, f) := if elf64 then (f.seek 0).read 64 else (hdr32, f)
  let eh := Ehdr.decode elf64 little hdr
  match (headerChecks arch hdr32 hdr elf64 eh).find? Prod.fst with
  | some (_, e) => .error e
  | none => .ok { elf64 := elf64, little := little, eh := eh, f := f }

/-- file_load_elf(), until it closes the file. -/
def loadFile (arch : Arch) (file : File) : Except ElfExit Image := do
  let h ← loadHeader arch file
  let st ← (List.range h.eh.ephnum.toInt.toNat).foldlM (loadPhdr arch h.elf64 h.little h.eh) ⟨h.f, false, []⟩
  let se ← (List.range h.eh.eshnum.toInt.toNat).foldlM (loadShdr h.elf64 h.little h.eh) ⟨st.f, [], 0, none⟩
  .ok { elf64 := h.elf64, little := h.little, entry := h.eh.eentry, translate := st.translate,
        segments := st.segments, symbols := se.symbols, nSymbols := se.nSymbols, strings := se.strings }

/-! ## Symbols -/

def readString (strings : List Byte) : Nat → Nat → Checked (List Byte)
  | 0, i => .error (.read i)
  | fuel + 1, i => do
    let c ← Lib.Buf.readByte strings i
    if c = 0#8 then pure []
    else do
      let rest ← readString strings fuel (i + 1)
      pure (c :: rest)

/-- strcmp() of the string at an index with one that is given with its NUL: whether they are equal. -/
def strcmp (strings : List Byte) : List Byte → Nat → Checked Bool
  | [], _ => .ok true
  | c :: cs, i => do
    let x ← Lib.Buf.readByte strings i
    if x = c then strcmp strings cs (i + 1) else pure false

/-- A call of add_symbol_name(). -/
structure SymbolName where
  addr : BitVec 64
  size : BitVec 64
  name : List Byte

/-- What the symbols lead to: the names that are added, and the value of `_gp`. -/
structure Decoded where
  names : List SymbolName
  gp : Option (BitVec 64)

def Image.sym (img : Image) (i : Nat) : Sym :=
  Sym.decode img.elf64 img.little ((img.symbols.drop (i * sizeofSym img.elf64)).take (sizeofSym img.elf64))

def addName (strings : List Byte) (names : List SymbolName) (sym : Sym) : Checked (List SymbolName) :=
  if sym.addr = 0#64 then .ok names
  else do
    let name ← readString strings (strings.length + 1) sym.stName.toNat
    pure (names ++ [⟨sym.addr, if sym.size = 0#64 then sym.size + 1#64 else sym.size, name⟩])

/-- One symbol. `strings` is the table with the NUL behind it. -/
def decodeSymbol (img : Image) (strings : List Byte) (out : Decoded) (i : Nat) : Checked Decoded := do
  let names ← addName strings out.names (img.sym i)
  let isGp ← strcmp strings [0x5f#8, 0x67#8, 0x70#8, 0#8] (img.sym i).stName.toNat
  pure { names := names, gp := if isGp then some (img.sym i).addr else out.gp }

def decodeSymbols (img : Image) : Checked Decoded :=
  match img.strings with
  | none => .ok ⟨[], none⟩
  | some strings => (List.range img.nSymbols.toNat).foldlM (decodeSymbol img (strings ++ [0#8])) ⟨[], none⟩

end Elf

end Gxemul.Loader
