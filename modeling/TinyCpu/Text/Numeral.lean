import TinyCpu.Text.Basic

/-!
# Numerals

Numbers as text, read and written.

* `natural?`    digits in a base up to sixteen, any number of them;
* `hex?`        a hexadecimal literal, `0x` or `0X` and digits;
* `decimal?`    an optional sign and decimal digits;
* `hex`, `paddedHex`, `fixed`   the shortest numeral, one of at least a width, one of exactly it.

Literals are numbers of 64 signed bits: a larger one is no literal.
-/

namespace TinyCpu.Text

/-- the value of a digit, in either case -/
def digit? (c : Char) : Option Nat :=
  if '0' ≤ c ∧ c ≤ '9' then some (c.toNat - 48)
  else if 'a' ≤ c ∧ c ≤ 'f' then some (c.toNat - 87)
  else if 'A' ≤ c ∧ c ≤ 'F' then some (c.toNat - 55)
  else none

/-- one more digit of a numeral whose value so far is `n` -/
def pushDigit? (base n : Nat) (c : Char) : Option Nat :=
  (digit? c).bind fun d => if d < base then some (n * base + d) else none

/-- the value of a non-empty numeral -/
def natural? (base : Nat) : Text → Option Nat
  | [] => none
  | c :: t => (c :: t).foldlM (pushDigit? base) 0

/-- the least number that needs more than 64 signed bits -/
def literalLimit : Nat := 0x8000000000000000

def startsHex : Text → Bool
  | '0' :: x :: _ => x == 'x' || x == 'X'
  | _ => false

def hex? (t : Text) : Option Nat :=
  if startsHex t then (natural? 16 (t.drop 2)).filter (· < literalLimit) else none

/-- the text after an optional sign -/
def afterSign : Text → Text
  | [] => []
  | c :: t => if c = '-' ∨ c = '+' then t else c :: t

/-- a text that starts like a decimal literal: an optional sign and a digit -/
def startsDecimal (t : Text) : Bool :=
  match afterSign t with
  | [] => false
  | c :: _ => c.isDigit

def decimal? (t : Text) : Option Int :=
  (natural? 10 (afterSign t)).bind fun n =>
    if t.head? = some '-' then
      if n ≤ literalLimit then some (-(n : Int)) else none
    else
      if n < literalLimit then some (n : Int) else none

/-! ## Writing -/

/-- the shortest lower-case hexadecimal numeral -/
def hex (n : Nat) : Text := Nat.toDigits 16 n

/-- the same with zeros in front, where it has fewer digits than `w` -/
def paddedHex (w n : Nat) : Text := (hex n).leftpad w '0'

def decimal (n : Nat) : Text := Nat.toDigits 10 n

/-- the last `width` digits of a number, in lower case -/
def fixed (base : Nat) : (width : Nat) → Nat → Text
  | 0, _ => []
  | w + 1, n => fixed base w (n / base) ++ [Nat.digitChar (n % base)]

@[simp] theorem length_fixed (base w n : Nat) : (fixed base w n).length = w := by
  induction w generalizing n with
  | zero => rfl
  | succ w ih => simp [fixed, ih]

end TinyCpu.Text
