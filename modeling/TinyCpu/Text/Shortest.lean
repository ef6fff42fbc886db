import TinyCpu.Text.Numeral

/-!
# The shortest decimal of a binary fraction

A double stands for every real number that rounds to it.  Its shortest decimal is the one with the
fewest digits among those, and of two the nearer one.

* `Ratio`            an exact quotient, the measure of all comparisons here;
* `shortestDigits`   the digits of a double and the place of its point;
* `shortest`         the decimal: positional with sixteen places at most before the point and four
                     zeros at most after it, beyond that with a signed power of ten.
-/

namespace TinyCpu.Text

structure Ratio where
  num : Nat
  den : Nat

namespace Ratio

/-- the product of `m` and a power of `base` -/
def ofPow (base : Nat) (m : Nat) : Int → Ratio
  | .ofNat e => ⟨m * base.pow e, 1⟩
  | .negSucc e => ⟨m, base.pow (e + 1)⟩

def le (a b : Ratio) : Bool := a.num * b.den ≤ b.num * a.den

def lt (a b : Ratio) : Bool := a.num * b.den < b.num * a.den

def distance (a b : Ratio) : Ratio :=
  ⟨(a.num * b.den - b.num * a.den) + (b.num * a.den - a.num * b.den), a.den * b.den⟩

/-- the whole number of times that `b` goes into `a` -/
def quotient (a b : Ratio) : Nat := (a.num * b.den) / (a.den * b.num)

end Ratio

/-- the least significand of a normal double -/
def leastNormal : Nat := 1 <<< 52

/-- the significand and the binary exponent of a positive double -/
def significand (bits : UInt64) : Nat × Int :=
  let e := (bits >>> 52).toNat % 2048
  let m := bits.toNat % leastNormal
  if e = 0 then (m, -1074) else (m + leastNormal, (e : Int) - 1075)

/-- the numbers that round to the double `m * 2 ^ q`: the two ends, and whether they belong to it -/
def roundingInterval (m : Nat) (q : Int) : Ratio × Ratio × Bool :=
  let low := if m = leastNormal ∧ -1074 < q then 4 * m - 1 else 4 * m - 2
  (.ofPow 2 low (q - 2), .ofPow 2 (4 * m + 2) (q - 2), m % 2 = 0)

/-- a multiple of `unit` in an interval, the nearest one to `v` -/
def gridPoint? (interval : Ratio × Ratio × Bool) (v unit : Ratio) : Option Nat :=
  let (low, high, closed) := interval
  let n := v.quotient unit
  let point (k : Nat) : Ratio := ⟨k * unit.num, unit.den⟩
  let inside (k : Nat) : Bool :=
    if closed then low.le (point k) && (point k).le high
    else low.lt (point k) && (point k).lt high
  match inside n, inside (n + 1) with
  | true, true =>
    let below := v.distance (point n)
    let above := v.distance (point (n + 1))
    some (if below.lt above || (below.le above && n % 2 = 0) then n else n + 1)
  | true, false => some n
  | false, true => some (n + 1)
  | false, false => none

/-- the least `e` up to `limit` with `v` below `10 ^ e`, counted up from `start` -/
def decimalPlace (v : Ratio) (start : Int) : (limit : Nat) → Int
  | 0 => start
  | n + 1 => if v.lt (.ofPow 10 1 start) then start else decimalPlace v (start + 1) n

/-- the digits of a positive double and the place of its point: the value is `0.d₁d₂… * 10 ^ place` -/
def shortestDigits (bits : UInt64) : Text × Int :=
  let (m, q) := significand bits
  let v := Ratio.ofPow 2 m q
  let place := decimalPlace v (-330) 660
  let found := (List.range 17).findSome? fun (n : Nat) =>
    (gridPoint? (roundingInterval m q) v (.ofPow 10 1 (place - (n + 1 : Nat)))).map fun k =>
      (n + 1, k)
  match found with
  | none => ("0".toList, 1)
  | some (n, k) =>
    let ds := decimal k
    -- a grid point can be the next power of ten, which has one digit more
    ((ds.reverse.dropWhile (· == '0')).reverse, place + ((ds.length : Int) - n))

def placed (ds : Text) (place : Int) : Text :=
  let n : Int := ds.length
  if n ≤ place ∧ place ≤ 16 then ds ++ List.replicate (place - n).toNat '0' ++ ".0".toList
  else if 0 < place ∧ place ≤ 16 then ds.take place.toNat ++ '.' :: ds.drop place.toNat
  else if -5 < place ∧ place ≤ 0 then
    "0.".toList ++ List.replicate (-place).toNat '0' ++ ds
  else
    let mantissa := if n = 1 then ds else ds.take 1 ++ '.' :: ds.drop 1
    let e := place - 1
    mantissa ++ 'e' :: (if e < 0 then '-' :: decimal (-e).toNat else '+' :: decimal e.toNat)

def shortest (x : Float) : Text :=
  let bits := x.toBits &&& 0x7FFFFFFFFFFFFFFF
  let magnitude := if bits = 0 then "0.0".toList else
    let (ds, place) := shortestDigits bits
    placed ds place
  if x.toBits = bits then magnitude else '-' :: magnitude

end TinyCpu.Text
