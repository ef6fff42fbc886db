import TinyCpu.Text.Basic

/-!
# Instruction forms

A form is one row of an instruction table: a mnemonic, the operand slots that it takes, and how it
is encoded.

* `Form.dominates`       slot by slot the same, or a register where the other form takes a value;
* `Form.ambiguousWith`   some text can fill both forms, and neither is the more specific one.
-/

namespace TinyCpu
open Text

inductive Register
  | a | b | sp
  deriving DecidableEq, Repr

namespace Register

def all : List Register := [a, b, sp]

/-- the keyword that names the register in a source text -/
def keyword : Register → Text
  | a => "A".toList
  | b => "B".toList
  | sp => "SP".toList

def ofKeyword? (t : Text) : Option Register := all.find? fun r => sameLetters r.keyword t

end Register

inductive Slot
  /-- exactly this register -/
  | register (r : Register)
  /-- a number or a label -/
  | value
  /-- a number or a label in brackets, a memory address -/
  | memory
  deriving DecidableEq, Repr

namespace Slot

def isRegister : Slot → Bool
  | register _ => true
  | _ => false

def text : Slot → Text
  | register r => r.keyword
  | value => "value".toList
  | memory => "[value]".toList

/-- some operand can fill both slots: a register keyword is also a label in a value slot, and
everything else fills slots of its own kind only -/
def overlaps : Slot → Slot → Bool
  | register r, register s => r == s
  | register _, value => true
  | value, register _ => true
  | value, value => true
  | memory, memory => true
  | _, _ => false

/-- the same slot, or a register where the other takes a value -/
def refines (s t : Slot) : Bool := s == t || (s.isRegister && t == value)

end Slot

inductive Encoding
  /-- the opcode alone -/
  | implied
  /-- the opcode and one operand byte -/
  | byte
  deriving DecidableEq, Repr

structure Form where
  mnemonic : Text
  slots : List Slot
  opcode : UInt8
  encoding : Encoding
  deriving DecidableEq, Repr

namespace Form

def operandBytes (f : Form) : UInt32 :=
  match f.encoding with
  | .implied => 0
  | .byte => 1

def size (f : Form) : UInt32 := 1 + f.operandBytes

/-- number of register slots, the measure of how specific a form is -/
def registers (f : Form) : Nat := f.slots.countP Slot.isRegister

def text (f : Form) : Text :=
  match f.slots with
  | [] => f.mnemonic
  | slots => f.mnemonic ++ ' ' :: ", ".toList.intercalate (slots.map Slot.text)

/-- every slot is the other's slot or a register where the other takes a value -/
def dominates (f g : Form) : Bool := (f.slots.zip g.slots).all fun p => p.1.refines p.2

def sharesText (f g : Form) : Bool :=
  sameLetters f.mnemonic g.mnemonic && f.slots.length == g.slots.length &&
    (f.slots.zip g.slots).all fun p => p.1.overlaps p.2

/-- some line can match both forms and neither is the more specific one -/
def ambiguousWith (f g : Form) : Bool :=
  f.sharesText g && (f.slots == g.slots || !(f.dominates g || g.dominates f))

end Form
end TinyCpu
