import TinyCpu.Json.Fault

/-!
# Lexemes of JSON

The parts of a JSON text below values: blanks, literals, strings and numerals.  Each reader takes a
text and gives what it read together with the text after it.

* `literal`      the rest of `null`, `true` or `false`;
* `stringRest`   the rest of a string, with its escapes decoded;
* `numeral`      a number, as its digits.
-/

namespace TinyCpu.Json
open Text

def isSpace (c : Char) : Bool := c == ' ' || c == '\t' || c == '\n' || c == '\r'

def skipSpace (t : Text) : Text := t.dropWhile isSpace

def literal : (letters : Text) → Text → Except Fault Text
  | [], t => .ok t
  | _ :: _, [] => .error (.ended .value)
  | l :: ls, c :: t => if c = l then literal ls t else .error (.malformed .literal)

/-! ## Strings -/

/-- the character of an escape with one letter -/
def escaped? (c : Char) : Option Char :=
  if c = '"' ∨ c = '\\' ∨ c = '/' then some c
  else if c = 'b' then some '\x08'
  else if c = 'f' then some '\x0c'
  else if c = 'n' then some '\n'
  else if c = 'r' then some '\r'
  else if c = 't' then some '\t'
  else none

/-- the fault of a code unit with fewer than four digits: the text ends, if less than four bytes
of it are left -/
def shortUnit (t : Text) : Fault :=
  if byteLength t < 4 then .ended .string else .malformed .escape

def isHighSurrogate (n : Nat) : Bool := 0xD800 ≤ n && n ≤ 0xDBFF

def isLowSurrogate (n : Nat) : Bool := 0xDC00 ≤ n && n ≤ 0xDFFF

def pairChar (high low : Nat) : Char :=
  Char.ofNat ((high - 0xD800) * 0x400 + (low - 0xDC00) + 0x10000)

def prepend (c : Char) : Except Fault (Text × Text) → Except Fault (Text × Text)
  | .ok (s, t) => .ok (c :: s, t)
  | .error e => .error e

/-- the rest of a string after its opening quotation mark.  A strict reader wants the halves of
surrogate pairs to stand together; another one lets every code unit pass. -/
def stringRest (strict : Bool) : Text → Except Fault (Text × Text)
  | [] => .error (.ended .string)
  | c :: t =>
    if c = '"' then .ok ([], t)
    else if c = '\\' then
      match t with
      | [] => .error (.ended .string)
      | e :: t =>
        if e = 'u' then
          match t with
          | a :: b :: c :: d :: t =>
            match natural? 16 [a, b, c, d] with
            | none => .error (.malformed .escape)
            | some n =>
              if strict && isLowSurrogate n then .error (.malformed .loneSurrogate)
              else if strict && isHighSurrogate n then
                match t with
                | [] => .error (.ended .string)
                | s :: t =>
                  if s = '\\' then
                    match t with
                    | [] => .error (.ended .string)
                    | u :: t =>
                      if u = 'u' then
                        match t with
                        | a :: b :: c :: d :: t =>
                          match natural? 16 [a, b, c, d] with
                          | none => .error (.malformed .escape)
                          | some m =>
                            if isLowSurrogate m then prepend (pairChar n m) (stringRest strict t)
                            else .error (.malformed .loneSurrogate)
                        | short => .error (shortUnit short)
                      else .error (.malformed .unpairedSurrogate)
                  else .error (.malformed .unpairedSurrogate)
              else prepend (Char.ofNat n) (stringRest strict t)
          | short => .error (shortUnit short)
        else
          match escaped? e with
          | some x => prepend x (stringRest strict t)
          | none => .error (.malformed .escape)
    else if c.toNat < 0x20 then .error (.malformed .controlCharacter)
    else prepend c (stringRest strict t)

/-! ## Numerals -/

structure Numeral where
  negative : Bool
  whole : Text
  /-- the digits after the point, if there is one -/
  fraction : Option Text
  /-- the sign and the digits of the exponent, if there is one -/
  exponent : Option (Bool × Text)
  deriving DecidableEq, Repr

/-- at least one digit; `atEnd` is the fault of a text that ends instead -/
def digits (atEnd : Fault) (t : Text) : Except Fault (Text × Text) :=
  match t with
  | [] => .error atEnd
  | c :: _ =>
    if c.isDigit then .ok (t.takeWhile Char.isDigit, t.dropWhile Char.isDigit)
    else .error (.malformed .number)

/-- the digits before the point; only a zero starts with a zero -/
def wholePart (atEnd : Fault) (t : Text) : Except Fault (Text × Text) :=
  (digits atEnd t).bind fun (ds, rest) =>
    if ds.head? = some '0' ∧ ds.length ≠ 1 then .error (.malformed .number) else .ok (ds, rest)

def fractionPart (atEnd : Fault) : Text → Except Fault (Option Text × Text)
  | '.' :: t => (digits atEnd t).map fun (ds, rest) => (some ds, rest)
  | t => .ok (none, t)

def exponentPart (atEnd : Fault) : Text → Except Fault (Option (Bool × Text) × Text)
  | [] => .ok (none, [])
  | c :: t =>
    if c = 'e' ∨ c = 'E' then
      (digits atEnd (afterSign t)).map fun (ds, rest) => (some (t.head? == some '-', ds), rest)
    else .ok (none, c :: t)

def numeral (atEnd : Fault) (t : Text) : Except Fault (Numeral × Text) := do
  let negative := t.head? == some '-'
  let (whole, t) ← wholePart atEnd (if negative then t.drop 1 else t)
  let (fraction, t) ← fractionPart atEnd t
  let (exponent, t) ← exponentPart atEnd t
  pure (⟨negative, whole, fraction, exponent⟩, t)

end TinyCpu.Json
