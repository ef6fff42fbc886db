import TinyCpu.Isa.Resolve
import TinyCpu.SortedMap
import TinyCpu.Source
import TinyCpu.Text.Numeral

/-!
# Symbols, operands and statements

What the body of a line says: nothing, an instruction, or data.  A statement has a size, which does
not depend on any label, and bytes, which do.

* `Symbols`           labels and their addresses; names are kept in lower case, so case never tells
                      two labels apart;
* `operandByte`       the byte that an operand stands for: an optional `#` and then a hexadecimal
                      literal, a decimal literal or a label; numbers are read as signed or unsigned
                      bytes alike;
* `Statement.read`    the statement of a body;
* `Statement.size`    how many bytes it takes;
* `Statement.bytes`   the bytes, given the addresses of the labels.
-/

namespace TinyCpu
open Text

/-! ## Symbol tables -/

/-- the address of every label, in the order of the names -/
abbrev Symbols := SortedMap Text UInt32

namespace Symbols

/-- the table with one more label; a name can be bound once -/
def define (s : Symbols) (name : Text) (address : UInt32) : Except LineFault Symbols :=
  if s.contains (lower name) then .error (.duplicateLabel (lower name))
  else .ok (s.insert (lower name) address)

def address? (s : Symbols) (name : Text) : Option UInt32 := s.get? (lower name)

end Symbols

/-! ## Operands -/

/-- the operand without the blanks around it and without the immediate marker -/
def operandBody (t : Text) : Text := trim (dropLead '#' (trim t))

/-- the byte of a number that was read from `body` -/
def numberByte (body : Text) : Option Int → Except LineFault UInt8
  | none => .error (.malformedNumber body)
  | some v => if -128 ≤ v ∧ v ≤ 255 then .ok (UInt8.ofInt v) else .error (.outOfRange body)

/-- the byte of the address that the label `body` has -/
def labelByte (body : Text) : Option UInt32 → Except LineFault UInt8
  | none => .error (.undefinedLabel body)
  | some a => if a ≤ 0xFF then .ok a.toUInt8 else .error (.outOfRange body)

def operandByte (symbols : Symbols) (t : Text) : Except LineFault UInt8 :=
  let body := operandBody t
  if body.isEmpty then .error (.malformedNumber body)
  else if startsHex body then numberByte body ((hex? body).map Int.ofNat)
  else if startsDecimal body then numberByte body (decimal? body)
  else labelByte body (symbols.address? body)

/-! ## Statements -/

inductive Statement
  | blank
  | instruction (m : Match)
  | data (items : List Text)
  deriving DecidableEq, Repr

def Match.operandBytes (symbols : Symbols) (m : Match) : Except LineFault (List UInt8) :=
  match m.form.encoding with
  | .implied => .ok []
  | .byte =>
    match m.operand with
    | some t => (operandByte symbols t).map fun b => [b]
    | none => .error (.unknownMnemonic m.form.text)

namespace Statement

def directive : Text := "DB".toList

def readData (list : Text) : Except LineFault Statement :=
  if list.isEmpty then .error .emptyDirective
  else if (fields ',' list).any List.isEmpty then .error (.malformedDirective list)
  else .ok (.data (fields ',' list))

def read (set : InstructionSet) (body : Text) : Except LineFault Statement :=
  if body.isEmpty then .ok .blank
  else match set.resolve? body with
    | some m => .ok (.instruction m)
    | none =>
      let (mnemonic, rest) := splitMnemonic body
      if sameLetters mnemonic directive then readData rest
      else .error (.unknownMnemonic (upper mnemonic))

def size : Statement → UInt32
  | blank => 0
  | instruction m => m.form.size
  | data items => UInt32.ofNat items.length

/-- the bytes, given the addresses of the labels; the first operand without a byte decides -/
def bytes (symbols : Symbols) : Statement → Except LineFault (List UInt8)
  | blank => .ok []
  | instruction m => (m.operandBytes symbols).map fun bs => m.form.opcode :: bs
  | data items => items.mapM (operandByte symbols)

end Statement

end TinyCpu
