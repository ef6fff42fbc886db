import TinyCpu.Assembly.Basic
import TinyCpu.Microcode.Rom
import TinyCpu.Text.Quoted

/-!
# The log of a run

What a run reports on the way: a level, the part of the program that speaks, a message and named
values.  A log is the list of events; which of them are shown is decided by a level.

* `shownLog`              the events that a level shows;
* `assembleEvents`        every label and every line with bytes when it is reached, and the end of
                          each of the two readings;
* `Rom.assembleEvents`    every warning with the address of its record as written, and the whole
                          store at the end.
-/

namespace TinyCpu
open Text

inductive Level
  | error | warn | info | debug | trace
  deriving DecidableEq, Repr

namespace Level

def all : List Level := [error, warn, info, debug, trace]

def name : Level → Text
  | error => "ERROR".toList
  | warn => "WARN".toList
  | info => "INFO".toList
  | debug => "DEBUG".toList
  | trace => "TRACE".toList

def detail : Level → Nat
  | error => 1
  | warn => 2
  | info => 3
  | debug => 4
  | trace => 5

def ofName? (t : Text) : Option Level := all.find? fun l => sameLetters l.name t

end Level

structure Event where
  level : Level
  /-- the part of the program that speaks -/
  source : Text
  message : Text
  /-- named values, as they are shown -/
  values : List (Text × Text) := []
  deriving DecidableEq, Repr

namespace Event

/-- characters that steer a terminal are shown by number -/
def messageChar (c : Char) : Text :=
  if c = '\x1b' ∨ c = '\x07' ∨ c = '\x08' ∨ c = '\x0c' ∨ c = '\x7f' then
    "\\x".toList ++ fixed 16 2 c.toNat
  else if 0x80 ≤ c.toNat ∧ c.toNat ≤ 0x9F then numbered c
  else [c]

def text (e : Event) : Text :=
  e.level.name ++ ' ' :: e.source ++ ": ".toList ++ e.message.flatMap messageChar ++
    (e.values.flatMap fun (name, value) => ' ' :: name ++ '=' :: value) ++ ['\n']

end Event

/-- the events that a level shows, as lines; without a level there are none -/
def shownLog (level : Option Level) (log : List Event) : Text :=
  match level with
  | none => []
  | some l => (log.filter fun e => e.level.detail ≤ l.detail).flatMap Event.text

/-! ## The events of a fold -/

/-- the events of a fold that can fail: those of every step up to the failing one, and `last` if
none fails -/
def foldEvents {σ α ε : Type} (step : σ → α → Except ε σ) (events : σ → α → List Event)
    (last : σ → List Event) : σ → List α → List Event
  | s, [] => last s
  | s, a :: as =>
    events s a ++
      match step s a with
      | .ok s => foldEvents step events last s as
      | .error _ => []

/-! ## Sources and values -/

namespace Log

def assembler : Text := "mcasm_rs::assembler".toList

def instructions : Text := "mcasm_rs::instructions".toList

def fields : Text := "mcasm_rs::microcode::fields".toList

def rom : Text := "mcasm_rs::microcode::rom".toList

def number (name : String) (n : Nat) : Text × Text := (name.toList, decimal n)

def quotedText (name : String) (t : Text) : Text × Text := (name.toList, quoted t)

def plainText (name : String) (t : Text) : Text × Text := (name.toList, t)

def byteList (bytes : List UInt8) : Text :=
  '[' :: ", ".toList.intercalate (bytes.map fun b => decimal b.toNat) ++ [']']

end Log

open Log

/-! ## Assemblies -/

/-- the label of a line, if it can be bound -/
def Layout.lineEvents (l : Layout) (line : Line) : List Event :=
  match line.label, l.bind line.label with
  | some name, .ok _ =>
    [{ level := .debug, source := assembler, message := "label defined".toList,
       values := [quotedText "label" name, number "addr" l.size.toNat] }]
  | _, _ => []

def layOutEvents (set : InstructionSet) (source : List Line) : List Event :=
  foldEvents (Layout.addLine set) Layout.lineEvents
    (fun l => [{ level := .info, source := assembler, message := "pass 1 complete".toList,
                 values := [number "labels" l.symbols.size, number "size" l.size.toNat] }])
    {} source

/-- the operand that is about to be encoded at an address -/
def Statement.operandEvents (address : UInt32) : Statement → List Event
  | .instruction ⟨form, some operand⟩ =>
    if form.encoding = .byte then
      [{ level := .trace, source := instructions, message := "resolving operand".toList,
         values := [number "at" address.toNat, quotedText "operand" operand] }]
    else []
  | _ => []

def Emission.lineEvents (set : InstructionSet) (symbols : Symbols) (e : Emission) (line : Line) :
    List Event :=
  match Statement.read set line.body with
  | .error _ => []
  | .ok .blank => []
  | .ok s =>
    s.operandEvents (e.next + 1) ++
      match s.bytes symbols with
      | .error _ => []
      | .ok bytes =>
        [{ level := .debug, source := assembler, message := "assembled".toList,
           values := [number "addr" e.next.toNat, quotedText "line" (trim line.raw),
             plainText "bytes" (byteList bytes)] }]

def emitEvents (set : InstructionSet) (symbols : Symbols) (source : List Line) : List Event :=
  foldEvents (Emission.addLine set symbols) (Emission.lineEvents set symbols)
    (fun e => [{ level := .info, source := assembler, message := "pass 2 complete".toList,
                 values := [number "bytes" e.image.size] }])
    {} source

def assembleEvents (set : InstructionSet) (source : Text) : List Event :=
  layOutEvents set (sourceLines source) ++
    match layOut set (sourceLines source) with
    | .ok l => emitEvents set l.symbols (sourceLines source)
    | .error _ => []

/-! ## Control stores -/

/-- the warnings about a record that is added to a store -/
def Rom.recordEvents (rom : Rom) (r : Record) : List Event :=
  match rom.add r with
  | .error _ => []
  | .ok _ => r.warnings.map fun w =>
    { level := .warn, source := Log.fields, message := w.message.toList,
      values := [Log.plainText "address" r.address] }

def Rom.assembleEvents (records : List Record) : List Event :=
  foldEvents Rom.add Rom.recordEvents
    (fun rom => [{ level := .info, source := Log.rom, message := "microcode assembled".toList,
                   values := [Log.number "words" rom.entries.size,
                     Log.number "warnings" rom.warnings.length] }])
    {} records

end TinyCpu
