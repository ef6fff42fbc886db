import TinyCpu.Text.Basic

/-!
# Micro-instruction records

A record describes one micro-instruction by names: the address of its word, what drives the bus,
which registers are written, what the ALU computes, what the memory does and where the sequencer
goes next.  Names are judged when the record is encoded; here they are text.
-/

namespace TinyCpu
open Text

inductive MemoryAction
  | idle | read | write
  deriving DecidableEq, Repr

namespace MemoryAction

def all : List MemoryAction := [idle, read, write]

def name : MemoryAction → Text
  | idle => "none".toList
  | read => "read".toList
  | write => "write".toList

def ofName? (t : Text) : Option MemoryAction := all.find? fun a => sameLetters a.name t

def unknownMessage (t : Text) : String :=
  s!"unknown memoryAction '{String.ofList t}' (expected none, read or write)"

end MemoryAction

inductive NextAddress
  /-- to the address in the memory buffer register -/
  | fromMemory
  /-- to the address with this text -/
  | explicit (text : Text)
  deriving DecidableEq, Repr

namespace NextAddress

/-- the text that stands for the memory buffer register -/
def sentinel : Text := "mbr".toList

def ofText (t : Text) : NextAddress :=
  if sameLetters (trim t) sentinel then fromMemory else explicit t

def text : NextAddress → Text
  | fromMemory => sentinel
  | explicit t => t

end NextAddress

structure Record where
  description : Option Text := none
  address : Text
  /-- the register that drives the bus -/
  bus : Option Text := none
  /-- the registers that are written -/
  writeTo : Option (List Text) := none
  /-- the function of the ALU -/
  operation : Option Text := none
  action : MemoryAction := .idle
  next : NextAddress := .fromMemory
  /-- jump only if the ALU gives zero -/
  jumpZero : Bool := false
  deriving DecidableEq, Repr

namespace Record

def title (r : Record) : Text := r.description.getD "N/A".toList

def destinations (r : Record) : List Text := r.writeTo.getD []

end Record
end TinyCpu
