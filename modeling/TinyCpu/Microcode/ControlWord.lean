import TinyCpu.Text.Numeral
import TinyCpu.Microcode.Record
import TinyCpu.Microcode.Signal

/-!
# The control word of a record

```text
 23      18 17 16 15  12 11  9  8  7                         0
| next      |JZ| J| ALU  | bus  |MW| OUT BUF A B SP PC MBR MAR |
```

A name that the word has no bits for is left out with a warning.  Only one thing has no word at
all: the memory buffer register cannot be written by name while the memory reads or writes.

* `encode`   the word of a record and the warnings about it, in the order of the fields.
-/

namespace TinyCpu
open Text

inductive FieldWarning
  | unknownRegister (text : Text)
  | unknownBusSource (text : Text)
  | unknownOperation (text : Text)
  /-- the low six bits of the address are used -/
  | nextOutOfRange (text : Text)
  | malformedNext (text : Text)
  deriving DecidableEq, Repr

def FieldWarning.message : FieldWarning → String
  | unknownRegister t => s!"unknown register in writeTo: {String.ofList t}"
  | unknownBusSource t => s!"unknown bBus source: {String.ofList t}"
  | unknownOperation t => s!"unknown ALU operation: {String.ofList t}"
  | nextOutOfRange t => s!"next address {String.ofList t} out of range, masked to 6 bits"
  | malformedNext t => s!"invalid next address format: {String.ofList t}"

inductive RomError
  | malformedAddress (address description : Text)
  | addressOutOfRange (address description : Text)
  | duplicateAddress (address description : Text)
  /-- the memory buffer register is written by name and used by the memory at once -/
  | unsupportedCombination (address : Text) (mbrWritten : Bool) (action : MemoryAction)
  deriving DecidableEq, Repr

def RomError.message : RomError → String
  | malformedAddress a d =>
    s!"malformed microcode address '{String.ofList a}' for instruction: {String.ofList d}"
  | addressOutOfRange a d =>
    s!"address {String.ofList a} is out of range for instruction: {String.ofList d}"
  | duplicateAddress a d =>
    s!"duplicate address {String.ofList a} for instruction: {String.ofList d}"
  | unsupportedCombination a w m =>
    s!"unsupported combination at {String.ofList a}: MBR in writeTo = {w}, memoryAction = " ++
      String.ofList m.name

abbrev romWords : Nat := 64

def microAddress? (t : Text) : Option Nat := hex? (trim t)

/-! ## Fields -/

def isMbr (t : Text) : Bool := sameLetters ControlLine.mbr.name t

/-- the write-enable bits of the named registers; the memory buffer register is not driven here -/
def destinationBits (names : List Text) : Nat :=
  names.foldl (fun word t =>
    if isMbr t then word else word ||| ((ControlLine.writeEnable? t).map ControlLine.mask).getD 0) 0

def destinationWarnings (names : List Text) : List FieldWarning :=
  (names.filter fun t => (ControlLine.writeEnable? t).isNone).map .unknownRegister

/-- the bits of the memory buffer register and the memory -/
def memoryBits? : (mbrWritten : Bool) → MemoryAction → Option Nat
  | false, .idle => some 0
  | false, .read => some ControlLine.mbr.mask
  | false, .write => some ControlLine.memWrite.mask
  | true, .idle => some (ControlLine.memWrite.mask ||| ControlLine.mbr.mask)
  | true, _ => none

/-- the code of something named, zero if there is no name or nothing has it -/
def namedField {α : Type} (ofName? : Text → Option α) (code : α → Nat)
    (unknown : Text → FieldWarning) : Option Text → Nat × List FieldWarning
  | none => (0, [])
  | some t =>
    match ofName? t with
    | some x => (code x, [])
    | none => (0, [unknown t])

def busField : Option Text → Nat × List FieldWarning :=
  namedField BusSource.ofName? BusSource.code .unknownBusSource

def aluField : Option Text → Nat × List FieldWarning :=
  namedField AluFunction.ofName? AluFunction.code .unknownOperation

/-- the low six bits of an explicit next address -/
def nextField : NextAddress → Nat × List FieldWarning
  | .fromMemory => (0, [])
  | .explicit t =>
    match microAddress? t with
    | none => (0, [.malformedNext t])
    | some v => (v % romWords, if v < romWords then [] else [.nextOutOfRange t])

def jumpBit : NextAddress → Nat
  | .fromMemory => 0
  | .explicit _ => ControlLine.jump.mask

/-! ## Words -/

structure Encoded where
  word : Nat
  warnings : List FieldWarning
  deriving DecidableEq, Repr

/-- the word of a record, given the bits of its memory fields -/
def Record.word (r : Record) (memory : Nat) : Nat :=
  destinationBits r.destinations ||| memory ||| (busField r.bus).1 <<< 9 |||
    (aluField r.operation).1 <<< 12 ||| jumpBit r.next |||
    (if r.jumpZero then ControlLine.jumpZero.mask else 0) ||| (nextField r.next).1 <<< 18

/-- the warnings about a record, in the order of the fields -/
def Record.warnings (r : Record) : List FieldWarning :=
  destinationWarnings r.destinations ++ (busField r.bus).2 ++ (aluField r.operation).2 ++
    (nextField r.next).2

def encode (r : Record) : Except RomError Encoded :=
  let mbrWritten := r.destinations.any isMbr
  match memoryBits? mbrWritten r.action with
  | some memory => .ok ⟨r.word memory, r.warnings⟩
  | none => .error (.unsupportedCombination r.address mbrWritten r.action)

end TinyCpu
