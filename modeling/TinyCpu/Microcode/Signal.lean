import TinyCpu.Text.Basic

/-!
# Signals of the control word

The names that a micro-instruction can use and the bits that they set: single control lines, the
registers that can drive the bus, and the functions of the ALU.
-/

namespace TinyCpu
open Text

/-- a control line, with a bit of its own in the control word -/
inductive ControlLine
  | mar | mbr | pc | sp | b | a | buf | out | memWrite | jump | jumpZero
  deriving DecidableEq, Repr

namespace ControlLine

def all : List ControlLine := [mar, mbr, pc, sp, b, a, buf, out, memWrite, jump, jumpZero]

/-- the lines that let a register be written -/
def writeEnables : List ControlLine := [mar, mbr, pc, sp, b, a, buf, out]

def name : ControlLine → Text
  | mar => "MAR".toList
  | mbr => "MBR".toList
  | pc => "PC".toList
  | sp => "SP".toList
  | b => "B".toList
  | a => "A".toList
  | buf => "BUF".toList
  | out => "OUT".toList
  | memWrite => "MEM_WRITE".toList
  | jump => "J".toList
  | jumpZero => "JZ".toList

def position : ControlLine → Nat
  | mar => 0
  | mbr => 1
  | pc => 2
  | sp => 3
  | b => 4
  | a => 5
  | buf => 6
  | out => 7
  | memWrite => 8
  | jump => 16
  | jumpZero => 17

def mask (l : ControlLine) : Nat := 1 <<< l.position

/-- the line that writes the register with this name, in any case -/
def writeEnable? (t : Text) : Option ControlLine :=
  writeEnables.find? fun l => sameLetters l.name t

/-- the lines that are set in a word -/
def ofWord (word : Nat) : List ControlLine := all.filter fun l => word.testBit l.position

end ControlLine

/-- a register that can drive the bus; code seven is free -/
inductive BusSource
  | a | b | sp | pc | mbr | mar | input
  deriving DecidableEq, Repr

namespace BusSource

def all : List BusSource := [a, b, sp, pc, mbr, mar, input]

def name : BusSource → Text
  | a => "A".toList
  | b => "B".toList
  | sp => "SP".toList
  | pc => "PC".toList
  | mbr => "MBR".toList
  | mar => "MAR".toList
  | input => "INPUT".toList

def code : BusSource → Nat
  | a => 0
  | b => 1
  | sp => 2
  | pc => 3
  | mbr => 4
  | mar => 5
  | input => 6

def ofName? (t : Text) : Option BusSource := all.find? fun s => sameLetters s.name t

end BusSource

/-- a function of the ALU; codes from nine on are free -/
inductive AluFunction
  | a | b | aPlusOne | bPlusOne | aPlusB | aMinusB | aAndB | aOrB | bMinusOne
  deriving DecidableEq, Repr

namespace AluFunction

def all : List AluFunction :=
  [a, b, aPlusOne, bPlusOne, aPlusB, aMinusB, aAndB, aOrB, bMinusOne]

def name : AluFunction → Text
  | a => "A".toList
  | b => "B".toList
  | aPlusOne => "APLUS1".toList
  | bPlusOne => "BPLUS1".toList
  | aPlusB => "APLUSB".toList
  | aMinusB => "AMINUSB".toList
  | aAndB => "AANDB".toList
  | aOrB => "AORB".toList
  | bMinusOne => "BMINUS1".toList

def code : AluFunction → Nat
  | a => 0
  | b => 1
  | aPlusOne => 2
  | bPlusOne => 3
  | aPlusB => 4
  | aMinusB => 5
  | aAndB => 6
  | aOrB => 7
  | bMinusOne => 8

def ofName? (t : Text) : Option AluFunction := all.find? fun f => sameLetters f.name t

end AluFunction
end TinyCpu
