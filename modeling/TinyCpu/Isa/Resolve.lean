import TinyCpu.Isa.InstructionSet

/-!
# From text to form

A line of text is a mnemonic and operands separated by commas.  Each operand is read on its own, as
a register keyword, a value token or a token in brackets, and the line means the most specific form
that its operands fit.

* `Operand.ofText`          the reading of one operand;
* `InstructionSet.resolve?` the form that a line means, with the text of its value operand.
-/

namespace TinyCpu
open Text

inductive Operand
  /-- a register keyword, which can also be a label -/
  | register (r : Register) (text : Text)
  | value (text : Text)
  /-- the token inside brackets -/
  | memory (text : Text)
  | invalid
  deriving DecidableEq, Repr

namespace Operand

def isTokenChar (c : Char) : Bool := isNameChar c || c == '-' || c == '+'

/-- a value token: an optional `#`, then letters, digits, underscores and signs.  Whether it is a
number or a known label is decided when the operand is encoded. -/
def isToken (t : Text) : Bool :=
  let body := dropLead '#' t
  !body.isEmpty && body.all isTokenChar

def ofText (t : Text) : Operand :=
  match Register.ofKeyword? t with
  | some r => .register r t
  | none =>
    match inside? '[' ']' t with
    | some inner => if isToken (trim inner) then .memory (trim inner) else .invalid
    | none => if isToken t then .value t else .invalid

def fits (o : Operand) : Slot → Bool
  | .register want => match o with
    | .register got _ => want == got
    | _ => false
  | .value => match o with
    | .value _ => true
    | .register _ _ => true
    | _ => false
  | .memory => match o with
    | .memory _ => true
    | _ => false

def text? : Operand → Option Text
  | register _ t => some t
  | value t => some t
  | memory t => some t
  | invalid => none

end Operand

/-! ## Lines -/

/-- the first word of a text and the rest, both trimmed -/
def splitMnemonic (t : Text) : Text × Text :=
  match cut isBlank (trim t) with
  | some (mnemonic, rest) => (mnemonic, trim rest)
  | none => (trim t, [])

/-- the first word of a text and the operands after it -/
def splitInstruction (t : Text) : Text × List Text :=
  let (mnemonic, rest) := splitMnemonic t
  (mnemonic, if rest.isEmpty then [] else fields ',' rest)

structure Match where
  form : Form
  /-- the token in the first slot that is no register -/
  operand : Option Text
  deriving DecidableEq, Repr

namespace Form

/-- a line with this mnemonic and these operands has the shape of the form -/
def fits (f : Form) (mnemonic : Text) (operands : List Operand) : Bool :=
  sameLetters f.mnemonic mnemonic && f.slots.length == operands.length &&
    (f.slots.zip operands).all fun p => p.2.fits p.1

/-- the token in the first slot that is no register -/
def valueText? (f : Form) (operands : List Operand) : Option Text :=
  ((f.slots.zip operands).find? fun p => !p.1.isRegister).bind fun p => p.2.text?

/-- the form with the most register slots, the last one if there are several -/
def mostSpecific? : List Form → Option Form
  | [] => none
  | f :: fs =>
    match mostSpecific? fs with
    | none => some f
    | some g => if f.registers ≤ g.registers then some g else some f

end Form

namespace InstructionSet

def candidates (set : InstructionSet) (mnemonic : Text) (operands : List Operand) : List Form :=
  set.forms.filter fun f => f.fits mnemonic operands

/-- the form that a line means: the most specific one that it fits -/
def resolve? (set : InstructionSet) (t : Text) : Option Match :=
  let (mnemonic, raw) := splitInstruction t
  let operands := raw.map Operand.ofText
  (Form.mostSpecific? (set.candidates mnemonic operands)).map fun f =>
    ⟨f, f.valueText? operands⟩

end InstructionSet
end TinyCpu
