import TinyCpu.Text.Shortest
import TinyCpu.Json.Lexeme

/-!
# The value of a number

A number without fraction and exponent that 64 bits can hold is an integer.  Every other one is a
double.  Its leading digits make a significand of 64 bits, the digits after those only move the
point, and the significand is then multiplied with a power of ten or divided by one.  Each of these
steps rounds, so the double can differ from the nearest one in its last bits.  A number beyond all
doubles is malformed.

* `Numeral.scaled`     the significand and the power of ten of a number;
* `Numeral.integer?`   the integer that a number is;
* `Numeral.found`      what a number is, integer or double.
-/

namespace TinyCpu.Json
open Text

def significandLimit : Nat := 0xFFFFFFFFFFFFFFFF

/-- the significand `n` with the leading digits of `ds` that it has room for, and the number of
digits that it has none for -/
def pushDigits (n : Nat) : (ds : Text) → Nat × Nat
  | [] => (n, 0)
  | c :: ds =>
    let m := n * 10 + (digit? c).getD 0
    if m ≤ significandLimit then pushDigits m ds else (n, ds.length + 1)

/-- a significand and the power of ten that it is multiplied with -/
structure Scaled where
  significand : Nat
  power : Int
  deriving DecidableEq, Repr

namespace Scaled

/-- the greatest power of ten among the doubles -/
def topPower : Nat := 308

def tenTo (k : Nat) : Float := Float.ofScientific 1 false k

/-- the double, infinite if it is beyond all others.  The significand is below the twentieth power
of ten, so twice the top power leaves nothing of it. -/
def double (s : Scaled) : Float :=
  let f := (UInt64.ofNat s.significand).toFloat
  let down := (-s.power).toNat
  if 0 ≤ s.power then
    if s.power ≤ topPower then f * tenTo s.power.toNat
    else if s.significand = 0 then 0.0 else 1.0 / 0.0
  else if down ≤ topPower then f / tenTo down
  else if down ≤ 2 * topPower then f / tenTo topPower / tenTo (down - topPower)
  else 0.0

end Scaled

namespace Numeral

def shift (n : Numeral) : Int :=
  match n.exponent with
  | none => 0
  | some (negative, ds) =>
    let e : Int := (natural? 10 ds).getD 0
    if negative then -e else e

/-- the significand and the power of ten of the number.  Digits of the whole part without room count
as zeros, and those of the fraction are left out. -/
def scaled (n : Numeral) : Scaled :=
  let fraction := n.fraction.getD []
  let (s, above) := pushDigits 0 n.whole
  let (s, below) := pushDigits s fraction
  ⟨s, above - (fraction.length - below : Nat) + n.shift⟩

/-- the integer, if the number is one of 64 bits; minus zero is none -/
def integer? (n : Numeral) : Option Int :=
  if n.fraction.isSome || n.exponent.isSome then none
  else
    match pushDigits 0 n.whole with
    | (v, 0) =>
      if !n.negative then some v
      else if 0 < v ∧ v ≤ literalLimit then some (-(v : Int))
      else none
    | _ => none

def found (n : Numeral) : Except Fault Found :=
  match n.integer? with
  | some i => .ok (.integer i)
  | none =>
    let x := n.scaled.double
    if x.isFinite then .ok (.decimal (shortest (if n.negative then -x else x)))
    else .error (.malformed .numberRange)

end Numeral
end TinyCpu.Json
