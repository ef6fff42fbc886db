import TinyCpu.Image
import TinyCpu.Microcode.ControlWord

/-!
# The control store

The words of the micro-instructions, each at its address.

* `Rom.assemble`   the store of a list of records; the first record at fault decides;
* `Rom.binary`, `Rom.image`, `Rom.memoryText`   the store as bytes and as text;
* `Rom.listing`    the store as a table for readers.
-/

namespace TinyCpu
open Text

structure RomEntry where
  word : Nat
  description : Text
  deriving DecidableEq, Repr

structure Rom where
  entries : SortedMap (Fin romWords) RomEntry := ∅
  /-- the warnings about the records, each with the address of its word -/
  warnings : List (Fin romWords × FieldWarning) := []
  deriving DecidableEq

def Record.romAddress (r : Record) : Except RomError (Fin romWords) :=
  match microAddress? r.address with
  | none => .error (.malformedAddress r.address r.title)
  | some v =>
    if h : v < romWords then .ok ⟨v, h⟩ else .error (.addressOutOfRange r.address r.title)

namespace Rom

def store (rom : Rom) (a : Fin romWords) (r : Record) (e : Encoded) : Rom where
  entries := rom.entries.insert a ⟨e.word, r.title⟩
  warnings := rom.warnings ++ e.warnings.map fun w => (a, w)

/-- one more record: its address is checked before its fields -/
def add (rom : Rom) (r : Record) : Except RomError Rom :=
  r.romAddress.bind fun a =>
    if rom.entries.contains a then .error (.duplicateAddress r.address r.title)
    else (encode r).map (rom.store a r)

def assemble (records : List Record) : Except RomError Rom := records.foldlM add {}

def word? (rom : Rom) (a : Nat) : Option Nat :=
  if h : a < romWords then (rom.entries.get? ⟨a, h⟩).map RomEntry.word else none

/-! ## Bytes -/

/-- the three bytes of a word, the most significant one first -/
def wordBytes (word : Nat) : List UInt8 :=
  [UInt8.ofNat (word >>> 16), UInt8.ofNat (word >>> 8), UInt8.ofNat word]

/-- the words as bytes, word `n` from address `3 n` on -/
def image (rom : Rom) : Image :=
  .ofList (rom.entries.entries.flatMap fun (a, e) =>
    (wordBytes e.word).zipIdx.map fun (b, i) => (UInt32.ofNat (3 * a + i), b))

/-- all words of the store as bytes, zero where there is no word -/
def binary (rom : Rom) : List UInt8 :=
  (List.range romWords).flatMap fun a => wordBytes ((rom.word? a).getD 0)

def memoryText (rom : Rom) : Except WidthError Text :=
  MemoryText.render MemoryText.microcodeBits rom.image

def artifacts (rom : Rom) : Except WidthError Artifacts :=
  rom.memoryText.map fun memoryText => ⟨rom.binary, memoryText⟩

/-! ## Listing -/

def heading : Text :=
  ("Address | Hex Value | Binary Value                     | Description\n" ++
    "--------|-----------|----------------------------------|-------------\n").toList

/-- six groups of four binary digits -/
def nibbles (word : Nat) : Text :=
  [' '].intercalate ((List.range 6).map fun i => fixed 2 4 (word >>> (4 * (5 - i))))

/-- a word of the listing: address, hexadecimal and binary value, description -/
def row (a : Nat) (e : RomEntry) : Text :=
  "0x".toList ++ upper (paddedHex 2 a) ++ "    | 0x".toList ++ upper (paddedHex 6 e.word) ++
    "  | ".toList ++ (nibbles e.word).rightpad 32 ' ' ++ " | ".toList ++ e.description ++ ['\n']

def listing (rom : Rom) : Text :=
  heading ++ rom.entries.entries.flatMap fun (a, e) => row a e

end Rom
end TinyCpu
