import Mathlib.Logic.Function.Basic
import Gxemul.Lib.Bytes
import Gxemul.Lib.Run

/- Loading S-records (`src/file/file_srec.c`).

   fgets() gives the file in pieces of at most 514 characters that end at a newline. The
   digits of a piece are converted in place and put together in an array of bytes that is
   not cleared, and the record's count says how much of it is used. -/
namespace Gxemul.Loader.Srec

open Lib (Byte File)

def lf : Byte := 0x0a#8

def cr : Byte := 0x0d#8

/-- How many characters fgets() reads at most: `sizeof(buf) - 1`, less the NUL. -/
def lineLen : Nat := 514

/-- A call of memory_rw() with MEM_WRITE: the address, the place in the array, the length as it is passed, and the bytes
from that place on. -/
structure Call where
  vaddr : BitVec 64
  dataStart : Nat
  len : Int
  data : List Byte
  deriving DecidableEq

/-- What a record leads to. `printed` is the text of a header record. -/
structure Effect where
  calls : List Call := []
  entry : Option (BitVec 64) := none
  printed : List Byte := []

/-! ## One record -/

/-- The digit of a character. Other characters stay as they are. -/
def convert (c : Byte) : Byte :=
  if 0x61#8 ≤ c ∧ c ≤ 0x66#8 then c + 10#8 - 0x61#8
  else if 0x41#8 ≤ c ∧ c ≤ 0x46#8 then c + 10#8 - 0x41#8
  else if 0x30#8 ≤ c ∧ c ≤ 0x39#8 then c - 0x30#8
  else c

/-- The loop over the characters from the `i`th one on. The array is given as a function, with what is behind it. -/
def convertLoop : Nat → List Byte → Nat → (Nat → Byte) → Nat → Byte
  | _, [], _, bytes => bytes
  | i, c :: cs, j, bytes =>
    if 4 ≤ i then
      if i % 2 = 1 then convertLoop (i + 1) cs (j + 1) (Function.update bytes j (bytes j + convert c))
      else convertLoop (i + 1) cs j (Function.update bytes j (convert c * 16#8))
    else convertLoop (i + 1) cs j bytes

def converted (line : List Byte) (bytes : Nat → Byte) : Nat → Byte := convertLoop 1 (line.drop 1) 0 bytes

def digit (line : List Byte) (i : Nat) : Byte := convert (line.getD i 0#8)

def recordType (line : List Byte) : Nat := (digit line 1).toNat

def recordCount (line : List Byte) : Nat := (digit line 2).toNat * 16 + (digit line 3).toNat

section
variable (bytes : Nat → Byte)

def addr16 : BitVec 64 := (bytes 0).setWidth 64 <<< 8 + (bytes 1).setWidth 64

def addr24 : BitVec 64 := (bytes 0).setWidth 64 <<< 16 + (bytes 1).setWidth 64 <<< 8 + (bytes 2).setWidth 64

def addr32 : BitVec 64 :=
  (bytes 0).setWidth 64 <<< 24 + (bytes 1).setWidth 64 <<< 16 + (bytes 2).setWidth 64 <<< 8 + (bytes 3).setWidth 64

def write (vaddr : BitVec 64) (dataStart count : Nat) : Effect :=
  let len : Int := count - 1 - dataStart
  { calls := [⟨vaddr, dataStart, len, (List.range len.toNat).map fun k => bytes (dataStart + k)⟩] }

def header (count : Nat) : List Byte :=
  (List.range (count - 3)).map fun k =>
    if 0x20#8 ≤ bytes (2 + k) ∧ bytes (2 + k) < 0x7f#8 then bytes (2 + k) else 0x3f#8

/-- The `switch` on the type. -/
def effect (type count : Nat) : Effect :=
  match type with
  | 0 => { printed := header bytes count }
  | 1 => write bytes (addr16 bytes) 2 count
  | 2 => write bytes (addr24 bytes) 3 count
  | 3 => write bytes (addr32 bytes) 4 count
  | 7 => { entry := some (addr32 bytes) }
  | 8 => { entry := some (addr24 bytes) }
  | 9 => { entry := some (addr16 bytes) }
  | _ => {}

end

/-- A line that is handled as a record. Empty lines, other ones and short ones are left out. -/
def IsRecord (line : List Byte) : Prop := line.head? = some 0x53#8 ∧ 10 ≤ line.length

instance (line : List Byte) : Decidable (IsRecord line) := inferInstanceAs (Decidable (_ ∧ _))

def handle (line : List Byte) (bytes : Nat → Byte) : Effect × (Nat → Byte) :=
  if IsRecord line then (effect (converted line bytes) (recordType line) (recordCount line), converted line bytes)
  else ({}, bytes)

/-! ## The file -/

def fgets : Nat → File → List Byte
  | 0, _ => []
  | _ + 1, [] => []
  | n + 1, c :: cs => if c = lf then [c] else c :: fgets n cs

def metEof (piece : List Byte) : Bool := decide (piece.length < lineLen) && piece.getLast? != some lf

/-- The variables of file_load_srec(). -/
structure State where
  bytes : Nat → Byte
  calls : List Call
  entry : Option (BitVec 64)
  printed : List Byte

def text (piece : List Byte) : List Byte := piece.takeWhile (· != 0#8)

def handlePiece (st : State) (piece : List Byte) : State :=
  let r := handle (text piece) st.bytes
  { bytes := r.2, calls := st.calls ++ r.1.calls, entry := r.1.entry.or st.entry, printed := st.printed ++ r.1.printed }

def loadLoop : Nat → File → Bool → State → Option State
  | 0, _, _, _ => none
  | fuel + 1, f, eof, st =>
    if eof then some st
    else
      let piece := fgets lineLen f
      loadLoop fuel (f.drop piece.length) (metEof piece) (handlePiece st piece)

/-- file_load_srec(). `bytes` is what was in the array before. -/
def load (bytes : Nat → Byte) (f : File) : Option State := loadLoop (f.length + 3) f false ⟨bytes, [], none, []⟩

def pieces : Nat → File → List (List Byte)
  | 0, _ => []
  | _ + 1, [] => []
  | fuel + 1, f => fgets lineLen f :: pieces fuel (f.drop (fgets lineLen f).length)

end Gxemul.Loader.Srec
