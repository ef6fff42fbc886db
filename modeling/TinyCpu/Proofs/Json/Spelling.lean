import TinyCpu.Json.Reader
import TinyCpu.Proofs.Text.Literal

/-!
# JSON values and their spellings

A value can be written in many ways: with blanks between its parts, with escapes for its characters,
and an object with its fields in any order.  The relations below say what the ways are, by the
grammar of JSON, and the writer takes one of them.

* `CharSpells`, `RestSpells`   a character and a string, with short escapes, code units and pairs;
* `Items`                      items with commas between them, up to the end of what encloses them;
* `Spells`, `Document`         a value, and a text that holds nothing else;
* `Value.write`                the text without blanks; `spells_write` says that it is a spelling.
-/

namespace TinyCpu.Json
open Text

/-- a JSON value without numbers -/
inductive Value
  | null
  | boolean (b : Bool)
  | string (s : Text)
  | list (values : List Value)
  | object (fields : List (Text × Value))

/-! ## Strings -/

def Spaces (t : Text) : Prop := ∀ c ∈ t, isSpace c = true

/-- the letters of short escapes, each with its character -/
def shortEscapes : List (Char × Char) :=
  [('"', '"'), ('\\', '\\'), ('/', '/'), ('b', '\x08'), ('f', '\x0c'), ('n', '\n'), ('r', '\r'),
    ('t', '\t')]

structure CodeUnit (ds : Text) (n : Nat) : Prop where
  length : ds.length = 4
  digits : IsNumeral 16 ds
  value : numeralValue 16 ds = n

inductive CharSpells : Char → Text → Prop
  | plain (c : Char) (hquote : c ≠ '"') (hback : c ≠ '\\') (h : 0x20 ≤ c.toNat) : CharSpells c [c]
  | short (e c : Char) (h : (e, c) ∈ shortEscapes) : CharSpells c ['\\', e]
  | unit (c : Char) (ds : Text) (h : CodeUnit ds c.toNat) : CharSpells c ('\\' :: 'u' :: ds)
  | pair (c : Char) (high low : Text) (h : 0x10000 ≤ c.toNat)
      (hhigh : CodeUnit high (0xD800 + (c.toNat - 0x10000) / 0x400))
      (hlow : CodeUnit low (0xDC00 + (c.toNat - 0x10000) % 0x400)) :
      CharSpells c ('\\' :: 'u' :: (high ++ '\\' :: 'u' :: low))

/-- the spellings of a string after its opening quotation mark -/
inductive RestSpells : Text → Text → Prop
  | close : RestSpells [] ['"']
  | char {c : Char} {u s t : Text} (hc : CharSpells c u) (hs : RestSpells s t) :
      RestSpells (c :: s) (u ++ t)

/-! ## Values -/

/-- what stands in front of an item: blanks, with a comma among them after another item -/
inductive Separator : (first : Bool) → Text → Prop
  | first {blank : Text} (h : Spaces blank) : Separator true blank
  | comma {left right : Text} (hl : Spaces left) (hr : Spaces right) :
      Separator false (left ++ ',' :: right)

/-- the spellings of items up to the end of what encloses them -/
inductive Items {α : Type} (close : Char) (spells : α → Text → Prop) :
    (first : Bool) → List α → Text → Prop
  | close {first : Bool} {blank : Text} (h : Spaces blank) :
      Items close spells first [] (blank ++ [close])
  | item {first : Bool} {sep t rest : Text} {a : α} {as : List α} (hsep : Separator first sep)
      (ha : spells a t) (has : Items close spells false as rest) :
      Items close spells first (a :: as) (sep ++ (t ++ rest))

inductive FieldSpells (spells : Value → Text → Prop) : Text × Value → Text → Prop
  | mk {name key left right t : Text} {v : Value} (hkey : RestSpells name key) (hl : Spaces left)
      (hr : Spaces right) (hv : spells v t) :
      FieldSpells spells (name, v) ('"' :: (key ++ (left ++ ':' :: (right ++ t))))

inductive Spells : Value → Text → Prop
  | null : Spells .null "null".toList
  | boolean (b : Bool) : Spells (.boolean b) (if b then "true" else "false").toList
  | string {s t : Text} (h : RestSpells s t) : Spells (.string s) ('"' :: t)
  | list {vs : List Value} {t : Text} (h : Items ']' Spells true vs t) :
      Spells (.list vs) ('[' :: t)
  | object {fs order : List (Text × Value)} {t : Text} (horder : order.Perm fs)
      (h : Items '\x7d' (FieldSpells Spells) true order t) : Spells (.object fs) ('\x7b' :: t)

/-- the texts of a value: a spelling of it between blanks -/
def Document (v : Value) (t : Text) : Prop :=
  ∃ left u right, Spaces left ∧ Spells v u ∧ Spaces right ∧ t = left ++ (u ++ right)

/-! ## Writing -/

/-- a character of a string, escaped if it has to be -/
def writeChar (c : Char) : Text :=
  if c = '"' ∨ c = '\\' then ['\\', c]
  else if c.toNat < 0x20 then
    match shortEscapes.find? fun p => p.2 == c with
    | some (e, _) => ['\\', e]
    | none => '\\' :: 'u' :: fixed 16 4 c.toNat
  else [c]

def writeRest (s : Text) : Text := s.flatMap writeChar ++ ['"']

def writeSeparator (first : Bool) : Text := if first then [] else [',']

mutual

/-- a value without blanks, and with as few escapes as can be -/
def Value.write : Value → Text
  | .null => "null".toList
  | .boolean b => (if b then "true" else "false").toList
  | .string s => '"' :: writeRest s
  | .list vs => '[' :: writeElements true vs
  | .object fs => '\x7b' :: writeFields true fs

def writeElements (first : Bool) : List Value → Text
  | [] => [']']
  | v :: vs => writeSeparator first ++ (v.write ++ writeElements false vs)

def writeFields (first : Bool) : List (Text × Value) → Text
  | [] => ['\x7d']
  | (name, v) :: fs =>
    writeSeparator first ++ ('"' :: (writeRest name ++ ':' :: v.write) ++ writeFields false fs)

end

theorem spaces_nil : Spaces [] := fun _ hc => absurd hc List.not_mem_nil

theorem codeUnit_fixed (n : Nat) (h : n < 0x10000) : CodeUnit (fixed 16 4 n) n := by
  obtain ⟨hdigits, hvalue⟩ := (natural?_eq_some_iff 16 _ n).mp
    (natural?_fixed 16 4 n (by decide) (by decide) (by decide) (by omega))
  exact ⟨length_fixed 16 4 n, hdigits, hvalue.symm⟩

theorem charSpells_write (c : Char) : CharSpells c (writeChar c) := by
  unfold writeChar
  split
  · next h =>
    rcases h with rfl | rfl <;> exact .short _ _ (by decide)
  · next h =>
    rw [not_or] at h
    split
    · next hlt =>
      split
      · next e d hfind =>
        have hd : d = c := by simpa using List.find?_some hfind
        rw [hd] at hfind
        exact .short e c (List.mem_of_find?_eq_some hfind)
      · exact .unit c _ (codeUnit_fixed _ (by omega))
    · next hge => exact .plain c h.1 h.2 (by omega)

theorem restSpells_write (s : Text) : RestSpells s (writeRest s) := by
  unfold writeRest
  induction s with
  | nil => exact .close
  | cons c s ih =>
    rw [List.flatMap_cons, List.append_assoc]
    exact .char (charSpells_write c) ih

theorem separator_write (first : Bool) : Separator first (writeSeparator first) := by
  cases first with
  | true => exact .first spaces_nil
  | false => exact .comma spaces_nil spaces_nil

mutual

theorem spells_write : ∀ v : Value, Spells v v.write
  | .null => .null
  | .boolean b => .boolean b
  | .string s => .string (restSpells_write s)
  | .list vs => .list (items_writeElements true vs)
  | .object fs => .object (.refl fs) (items_writeFields true fs)

theorem items_writeElements (first : Bool) :
    ∀ vs : List Value, Items ']' Spells first vs (writeElements first vs)
  | [] => .close spaces_nil
  | v :: vs => .item (separator_write first) (spells_write v) (items_writeElements false vs)

theorem items_writeFields (first : Bool) :
    ∀ fs : List (Text × Value), Items '\x7d' (FieldSpells Spells) first fs (writeFields first fs)
  | [] => .close spaces_nil
  | (name, v) :: fs =>
    .item (separator_write first)
      (.mk (restSpells_write name) spaces_nil spaces_nil (spells_write v))
      (items_writeFields false fs)

end

theorem document_write (v : Value) : Document v v.write :=
  ⟨[], _, [], spaces_nil, spells_write v, spaces_nil, (List.append_nil _).symm⟩

end TinyCpu.Json
