import TinyCpu.Text.Basic

/-!
# Source lines and their errors

A program text is read line by line.  A semicolon starts a comment, a name right before a colon is
a label, and what is left is the body: an instruction or a directive.  Lines that hold nothing but
blanks and a comment are left out, and every other line keeps its number.

What is wrong with a line is a fault, with the literal text that caused it; an error is a fault
pinned to its line.
-/

namespace TinyCpu
open Text

/-- a source line that holds a label or a body -/
structure Line where
  /-- counted from one, over all lines of the text -/
  number : Nat
  /-- the line as written -/
  raw : Text
  label : Option Text
  /-- the instruction or directive, trimmed; empty on a line with a label only -/
  body : Text
  deriving DecidableEq, Repr

namespace Line

/-- the part of a line in front of its comment -/
def code (raw : Text) : Text := raw.takeWhile (· != ';')

/-- the label in front of the first colon, if a name stands there, and the rest of the text -/
def splitLabel (t : Text) : Option Text × Text :=
  match cut (· == ':') t with
  | some (name, rest) => if isName name then (some name, rest) else (none, t)
  | none => (none, t)

/-- the line with this number and text, unless it is empty -/
def read? (number : Nat) (raw : Text) : Option Line :=
  let text := trim (code raw)
  if text.isEmpty then none
  else
    let (label, rest) := splitLabel text
    some { number, raw, label, body := trim rest }

end Line

def sourceLines (source : Text) : List Line :=
  ((lines source).zipIdx 1).filterMap fun (raw, number) => Line.read? number raw

/-! ## Errors -/

inductive LineFault
  | duplicateLabel (name : Text)
  | undefinedLabel (name : Text)
  | outOfRange (operand : Text)
  | malformedNumber (operand : Text)
  | unknownMnemonic (mnemonic : Text)
  /-- a data directive without operands -/
  | emptyDirective
  /-- a data directive with an empty operand -/
  | malformedDirective (operands : Text)
  deriving DecidableEq, Repr

def LineFault.message : LineFault → String
  | duplicateLabel t => s!"duplicate label definition '{String.ofList t}'"
  | undefinedLabel t => s!"undefined label '{String.ofList t}'"
  | outOfRange t => s!"operand '{String.ofList t}' out of 8-bit range"
  | malformedNumber t => s!"invalid number format for operand '{String.ofList t}'"
  | unknownMnemonic t => s!"unknown mnemonic '{String.ofList t}'"
  | emptyDirective => "DB directive requires operands"
  | malformedDirective t => s!"malformed DB operand list '{String.ofList t}'"

structure LineError where
  fault : LineFault
  line : Nat
  /-- the line as written, trimmed -/
  text : Text
  deriving DecidableEq, Repr

def LineError.message (e : LineError) : String :=
  s!"{e.fault.message} (at line {e.line}: \"{String.ofList e.text}\")"

def Line.pin {α : Type} (line : Line) : Except LineFault α → Except LineError α
  | .ok a => .ok a
  | .error fault => .error ⟨fault, line.number, trim line.raw⟩

end TinyCpu
