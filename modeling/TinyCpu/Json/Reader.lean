import TinyCpu.Json.Number

/-!
# Reading JSON values

A reader takes a text and gives a value and the text after it.  It knows the shape that it wants,
so a value of another shape is a fault as soon as it has been read, whatever follows.

* `string`, `boolean`, `nullable`, `list`   values of one shape;
* `unexpected`                              the fault of a value of another shape;
* `skip`                                    any value at all.
-/

namespace TinyCpu.Json
open Text

/-- a value and the text after it -/
abbrev Reader (α : Type) := Text → Except Fault (α × Text)

/-- the fault of the value that a text starts with, where another one is wanted -/
def unexpected (wanted : String) (t : Text) : Fault :=
  match t with
  | [] => .ended .value
  | c :: rest =>
    let found (r : Except Fault Found) : Fault :=
      match r with
      | .ok f => .unexpected f wanted
      | .error e => e
    if c = 'n' then found ((literal "ull".toList rest).map fun _ => .null)
    else if c = 't' then found ((literal "rue".toList rest).map fun _ => .boolean true)
    else if c = 'f' then found ((literal "alse".toList rest).map fun _ => .boolean false)
    else if c = '-' ∨ c.isDigit then
      found ((numeral (.ended .value) t).bind fun r => r.1.found)
    else if c = '"' then found ((stringRest true rest).map fun r => .string r.1)
    else if c = '[' then found (.ok .sequence)
    else if c = '\x7b' then found (.ok .map)
    else .malformed .value

/-! ## Values of one shape -/

def string : Reader Text := fun t =>
  match skipSpace t with
  | '"' :: rest => stringRest true rest
  | t => .error (unexpected "a string" t)

def boolean : Reader Bool := fun t =>
  match skipSpace t with
  | 't' :: rest => (literal "rue".toList rest).map fun t => (true, t)
  | 'f' :: rest => (literal "alse".toList rest).map fun t => (false, t)
  | t => .error (unexpected "a boolean" t)

/-- a value or nothing, which is written as `null` -/
def nullable {α : Type} (r : Reader α) : Reader (Option α) := fun t =>
  match skipSpace t with
  | 'n' :: rest => (literal "ull".toList rest).map fun t => (none, t)
  | t => (r t).map fun (a, t) => (some a, t)

/-- the text of the next element of a list, if there is one -/
def nextElement (first : Bool) (t : Text) : Except Fault (Option Text) :=
  match skipSpace t with
  | [] => .error (.ended .list)
  | c :: rest =>
    if c = ']' then .ok none
    else if first then .ok (some (c :: rest))
    else if c = ',' then
      match skipSpace rest with
      | [] => .error (.ended .value)
      | ']' :: _ => .error (.malformed .trailingComma)
      | t => .ok (some t)
    else .error (.malformed .listSeparator)

/-- the rest of a list after its opening bracket.  Every element takes at least one character, so
`fuel` is the number of characters at most. -/
def listRest {α : Type} (r : Reader α) : (fuel : Nat) → (first : Bool) → Reader (List α)
  | 0, _, _ => .error (.ended .list)
  | fuel + 1, first, t => do
    match ← nextElement first t with
    | none => pure ([], (skipSpace t).drop 1)
    | some t =>
      let (a, t) ← r t
      let (as, t) ← listRest r fuel false t
      pure (a :: as, t)

def list {α : Type} (r : Reader α) : Reader (List α) := fun t =>
  match skipSpace t with
  | '[' :: rest => listRest r (rest.length + 1) true rest
  | t => .error (unexpected "a sequence" t)

/-! ## Objects -/

/-- the text of the next key of an object after its quotation mark, if there is one -/
def nextKey (first : Bool) (t : Text) : Except Fault (Option Text) :=
  match skipSpace t with
  | [] => .error (.ended .object)
  | c :: rest =>
    if c = '\x7d' then .ok none
    else if first then
      if c = '"' then .ok (some rest) else .error (.malformed .key)
    else if c = ',' then
      match skipSpace rest with
      | [] => .error (.ended .value)
      | c :: rest =>
        if c = '"' then .ok (some rest)
        else if c = '\x7d' then .error (.malformed .trailingComma)
        else .error (.malformed .key)
    else .error (.malformed .objectSeparator)

def afterColon (t : Text) : Except Fault Text :=
  match skipSpace t with
  | [] => .error (.ended .object)
  | c :: rest => if c = ':' then .ok rest else .error (.malformed .colon)

/-! ## Any value -/

/-- what a value that is passed over stands in -/
inductive Enclosure
  | list | object
  deriving DecidableEq, Repr

/-- what is wanted next while values are passed over -/
inductive Stage
  | value | key | separator
  deriving DecidableEq, Repr

/-- the text after the key and the colon that it starts with -/
def skipKey (t : Text) : Except Fault Text :=
  match skipSpace t with
  | [] => .error (.ended .object)
  | c :: rest =>
    if c = '"' then (stringRest false rest).bind fun r => afterColon r.2
    else .error (.malformed .key)

/-- the text after a value without parts, or the enclosure that the value opens -/
def skipScalar (t : Text) : Except Fault (Option Enclosure × Text) :=
  match skipSpace t with
  | [] => .error (.ended .value)
  | c :: rest =>
    if c = 'n' then (literal "ull".toList rest).map fun t => (none, t)
    else if c = 't' then (literal "rue".toList rest).map fun t => (none, t)
    else if c = 'f' then (literal "alse".toList rest).map fun t => (none, t)
    else if c = '-' ∨ c.isDigit then
      (numeral (.malformed .number) (c :: rest)).map fun r => (none, r.2)
    else if c = '"' then (stringRest false rest).map fun r => (none, r.2)
    else if c = '[' then .ok (some .list, rest)
    else if c = '\x7b' then .ok (some .object, rest)
    else .error (.malformed .value)

/-- what follows the opening of an enclosure: its end, or a value or a key in it -/
def opened (stack : List Enclosure) : Enclosure → Text → Except Fault (Stage × List Enclosure × Text)
  | .list, t =>
    match skipSpace t with
    | [] => .error (.ended .list)
    | ']' :: rest => .ok (.separator, stack, rest)
    | t => .ok (.value, .list :: stack, t)
  | .object, t =>
    match skipSpace t with
    | [] => .error (.ended .object)
    | c :: rest =>
      if c = '\x7d' then .ok (.separator, stack, rest) else .ok (.key, .object :: stack, c :: rest)

/-- what follows a value in an enclosure: its end, or one more value or key -/
def separated (stack : List Enclosure) : Enclosure → Text → Except Fault (Stage × List Enclosure × Text)
  | .list, t =>
    match skipSpace t with
    | [] => .error (.ended .list)
    | c :: rest =>
      if c = ',' then .ok (.value, .list :: stack, rest)
      else if c = ']' then .ok (.separator, stack, rest)
      else .error (.malformed .listSeparator)
  | .object, t =>
    match skipSpace t with
    | [] => .error (.ended .object)
    | c :: rest =>
      if c = ',' then .ok (.key, .object :: stack, rest)
      else if c = '\x7d' then .ok (.separator, stack, rest)
      else .error (.malformed .objectSeparator)

/-- the text after a value, of any depth; `stack` holds what encloses the place, innermost first.
Every step but the last takes at least one character. -/
def skipFrom : (fuel : Nat) → Stage → (stack : List Enclosure) → Text → Except Fault Text
  | 0, _, _, _ => .error (.ended .value)
  | _ + 1, .separator, [], t => .ok t
  | fuel + 1, .separator, e :: stack, t => do
    let (stage, stack, t) ← separated stack e t
    skipFrom fuel stage stack t
  | fuel + 1, .key, stack, t => do
    skipFrom fuel .value stack (← skipKey t)
  | fuel + 1, .value, stack, t => do
    match ← skipScalar t with
    | (none, t) => skipFrom fuel .separator stack t
    | (some e, t) =>
      let (stage, stack, t) ← opened stack e t
      skipFrom fuel stage stack t

def skip (t : Text) : Except Fault Text := skipFrom (t.length + 2) .value [] t

end TinyCpu.Json
