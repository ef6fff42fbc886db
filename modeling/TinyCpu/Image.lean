import TinyCpu.SortedMap
import TinyCpu.Text.Numeral

/-!
# Memory images

An image holds the bytes that were stored, each at its address.  A stored zero is not the same as
an address without a byte.

* `Image.dense`         the bytes from address zero to the last one stored, with zeros in the gaps;
* `MemoryText.render`   the text form in which a simulator loads a memory: a header line, and a line
                        with the words of the memory in hexadecimal, up to the last word with a
                        stored byte.  A word takes one to eight bytes, the most significant first.
-/

namespace TinyCpu
open Text

/-- the stored bytes, in the order of their addresses -/
abbrev Image := SortedMap UInt32 UInt8

namespace Image

/-- one past the greatest address with a byte, and zero for the empty image -/
def endAddress (m : Image) : UInt32 :=
  match m.lastKey? with
  | some a => a + 1
  | none => 0

/-- the bytes from address `start` on, with zeros in the gaps -/
def denseFrom (start : Nat) : List (UInt32 × UInt8) → List UInt8
  | [] => []
  | (a, b) :: es => List.replicate (a.toNat - start) 0 ++ b :: denseFrom (a.toNat + 1) es

def dense (m : Image) : List UInt8 := denseFrom 0 m.entries

end Image

/-! ## Memory texts -/

inductive WidthError
  | notBytes (bits : Nat)
  deriving DecidableEq, Repr

def WidthError.message : WidthError → String
  | notBytes bits =>
    s!"memory image word size must be a multiple of 8 bits up to 64, got {bits}"

namespace MemoryText

def programBits : Nat := 8

def microcodeBits : Nat := 24

def bytesPerWord (bits : Nat) : Except WidthError Nat :=
  if bits % 8 = 0 ∧ bits ≤ 64 then .ok (bits / 8) else .error (.notBytes bits)

def header : Text := "v2.0 raw".toList

/-- a word while its bytes are read: the value so far, and whether one of them is stored -/
structure Gathered where
  value : UInt64 := 0
  assigned : Bool := false
  deriving DecidableEq, Repr

/-- the word with one more byte at its low end; a missing byte is zero -/
def Gathered.push (w : Gathered) (byte : Option UInt8) : Gathered where
  value := w.value <<< 8 ||| (byte.getD 0).toUInt64
  assigned := w.assigned || byte.isSome

/-- word number `i` of `b` bytes -/
def gather (m : Image) (b i : Nat) : Gathered :=
  (List.range b).foldl (fun w j => w.push (m.get? (UInt32.ofNat (i * b + j)))) {}

/-- the words read so far, and the number of the last one with a stored byte -/
structure Scan where
  words : Array UInt64 := #[]
  last : Option Nat := none
  deriving DecidableEq, Repr

def Scan.push (s : Scan) (i : Nat) (w : Gathered) : Scan where
  words := s.words.push w.value
  last := if w.assigned then some i else s.last

/-- number of words of `b` bytes up to the greatest address with a byte -/
def wordsUpTo (m : Image) (b : Nat) : Nat :=
  match m.lastKey? with
  | some a => a.toNat / b + 1
  | none => 0

/-- all words of `b` bytes up to the greatest address with a byte -/
def scan (m : Image) (b : Nat) : Scan :=
  (List.range (wordsUpTo m b)).foldl (fun s i => s.push i (gather m b i)) {}

/-- the line of words of `b` bytes, up to the last one with a stored byte; an image without bytes
has a zero, and words without bytes leave the line empty -/
def body (m : Image) (b : Nat) : Text :=
  if b = 0 then []
  else
    let s := scan m b
    match s.last with
    | none => ['0']
    | some last => [' '].intercalate ((s.words.toList.take (last + 1)).map fun w => hex w.toNat)

def render (bits : Nat) (m : Image) : Except WidthError Text :=
  (bytesPerWord bits).map fun b => header ++ '\n' :: body m b ++ ['\n']

end MemoryText

structure Artifacts where
  binary : List UInt8
  memoryText : Text
  deriving DecidableEq, Repr

def Artifacts.ofImage (bits : Nat) (m : Image) : Except WidthError Artifacts :=
  (MemoryText.render bits m).map fun memoryText => ⟨m.dense, memoryText⟩

end TinyCpu
