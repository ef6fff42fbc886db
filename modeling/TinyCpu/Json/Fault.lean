import TinyCpu.Text.Quoted

/-!
# What can be wrong with a JSON text

A text is read from left to right and the first problem decides.  It is of one of three kinds: the
text ends too early, it is no JSON, or it is JSON of another shape than the reader wants.
-/

namespace TinyCpu.Json
open Text

/-- what a reader is in the middle of -/
inductive Construct
  | value | list | object | string
  deriving DecidableEq, Repr

/-- a place where the text is no JSON -/
inductive Malformation
  | value
  | literal
  | number
  | numberRange
  | colon
  | listSeparator
  | objectSeparator
  | trailingComma
  | trailingText
  | key
  | escape
  /-- half of a surrogate pair -/
  | loneSurrogate
  /-- a first half of a surrogate pair with no escape after it -/
  | unpairedSurrogate
  | controlCharacter
  deriving DecidableEq, Repr

/-- what stands in the text where another kind of value is wanted -/
inductive Found
  | null
  | boolean (b : Bool)
  | integer (i : Int)
  /-- a number with a fraction or an exponent, or one too large for an integer -/
  | decimal (text : Text)
  | string (t : Text)
  | sequence
  | map
  deriving DecidableEq, Repr

inductive Fault
  | ended (inside : Construct)
  | malformed (what : Malformation)
  | unexpected (found : Found) (wanted : String)
  | missingField (name : Text)
  | duplicateField (name : Text)
  | wrongLength (length : Nat) (wanted : String)
  /-- a value of the right shape that the reader refuses -/
  | refused (message : String)
  deriving DecidableEq, Repr

inductive Category
  | ended | malformed | data
  deriving DecidableEq, Repr

def Fault.category : Fault → Category
  | ended _ => .ended
  | malformed _ => .malformed
  | _ => .data

def Construct.message : Construct → String
  | value => "EOF while parsing a value"
  | list => "EOF while parsing a list"
  | object => "EOF while parsing an object"
  | string => "EOF while parsing a string"

def Malformation.message : Malformation → String
  | value => "expected value"
  | literal => "expected ident"
  | number => "invalid number"
  | numberRange => "number out of range"
  | colon => "expected `:`"
  | listSeparator => "expected `,` or `]`"
  | objectSeparator => "expected `,` or `\x7d`"
  | trailingComma => "trailing comma"
  | trailingText => "trailing characters"
  | key => "key must be a string"
  | escape => "invalid escape"
  | loneSurrogate => "lone leading surrogate in hex escape"
  | unpairedSurrogate => "unexpected end of hex escape"
  | controlCharacter => "control character (\\u0000-\\u001F) found while parsing a string"

def Found.message : Found → String
  | null => "null"
  | boolean b => s!"boolean `{b}`"
  | integer i => s!"integer `{i}`"
  | decimal t => s!"floating point `{String.ofList t}`"
  | string t => s!"string {String.ofList (quoted t)}"
  | sequence => "sequence"
  | map => "map"

def Fault.message : Fault → String
  | ended c => c.message
  | malformed m => m.message
  | unexpected found wanted => s!"invalid type: {found.message}, expected {wanted}"
  | missingField name => s!"missing field `{String.ofList name}`"
  | duplicateField name => s!"duplicate field `{String.ofList name}`"
  | wrongLength n wanted => s!"invalid length {n}, expected {wanted}"
  | refused m => m

end TinyCpu.Json
