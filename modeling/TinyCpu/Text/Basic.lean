/-!
# Text as characters

Text is a list of characters.  This file holds the cuts that every reader of the project uses, and
case, which is ASCII case only: every other character stands for itself.

* `isBlank`, `trim`   the characters with the Unicode property White_Space, and text without them
                      at either end;
* `cut`               the text before and after the first character of a kind;
* `lines`             the lines of a text: a line ends at a newline, and a carriage return right
                      before that newline belongs to the line end;
* `toUtf8`, `byteLength`, `ofUtf8?`   text as UTF-8;
* `lower`, `upper`, `sameLetters`     the text in one case, and equality up to case;
* `isName`            a letter or underscore, then letters, digits and underscores.
-/

namespace TinyCpu

abbrev Text := List Char

namespace Text

/-! ## Blanks -/

/-- first and last code point of every run of White_Space characters -/
def blankRanges : List (Nat × Nat) :=
  [(0x9, 0xD), (0x20, 0x20), (0x85, 0x85), (0xA0, 0xA0), (0x1680, 0x1680), (0x2000, 0x200A),
    (0x2028, 0x2029), (0x202F, 0x202F), (0x205F, 0x205F), (0x3000, 0x3000)]

def isBlank (c : Char) : Bool :=
  blankRanges.any fun r => r.1 ≤ c.toNat && c.toNat ≤ r.2

def trimStart (t : Text) : Text := t.dropWhile isBlank

def trimEnd (t : Text) : Text := (t.reverse.dropWhile isBlank).reverse

def trim (t : Text) : Text := trimEnd (trimStart t)

/-! ## Cuts -/

/-- what stands before and after the first character that satisfies `p` -/
def cut (p : Char → Bool) (t : Text) : Option (Text × Text) :=
  match t.dropWhile fun c => !p c with
  | [] => none
  | _ :: after => some (t.takeWhile fun c => !p c, after)

/-- the text without one leading `c`, if it has one -/
def dropLead (c : Char) : Text → Text
  | [] => []
  | d :: t => if d = c then t else d :: t

/-- the text inside a leading `l` and a closing `r` -/
def inside? (l r : Char) : Text → Option Text
  | [] => none
  | c :: t => if c = l ∧ t.getLast? = some r then some t.dropLast else none

/-- the pieces between the separators `c`, each trimmed -/
def fields (c : Char) (t : Text) : List Text := (t.splitOn c).map trim

/-! ## Lines -/

def dropReturn (t : Text) : Text :=
  if t.getLast? = some '\r' then t.dropLast else t

/-- the lines of a text; what follows the last newline is a line unless it is empty, and keeps a
carriage return at its end -/
def lines (t : Text) : List Text :=
  (t.splitOn '\n').dropLast.map dropReturn ++
    (t.splitOn '\n').getLast?.toList.filter fun rest => !rest.isEmpty

/-! ## UTF-8 -/

def toUtf8 (t : Text) : List UInt8 := t.flatMap String.utf8EncodeChar

def byteLength (t : Text) : Nat := (toUtf8 t).length

/-- the text that the bytes encode, if they are well-formed UTF-8 -/
def ofUtf8? (bytes : List UInt8) : Option Text :=
  (String.fromUTF8? bytes.toByteArray).map String.toList

/-! ## Letters and names -/

def lower (t : Text) : Text := t.map Char.toLower

def upper (t : Text) : Text := t.map Char.toUpper

def sameLetters (s t : Text) : Bool := lower s == lower t

def isNameChar (c : Char) : Bool := c.isAlphanum || c == '_'

/-- a name: not empty, of name characters, the first no digit -/
def isName : Text → Bool
  | [] => false
  | c :: t => (c.isAlpha || c == '_') && t.all isNameChar

@[simp] theorem sameLetters_iff (s t : Text) : sameLetters s t = true ↔ lower s = lower t := by
  simp [sameLetters]

@[simp] theorem length_lower (t : Text) : (lower t).length = t.length := by simp [lower]

end Text
end TinyCpu
