import TinyCpu.Json.Reader
import TinyCpu.Microcode.Record

/-!
# Records as JSON

A microcode file is a JSON list of records.  A record is an object with the fields by name, unknown
ones passed over, or a list with the fields in order; all fields but the address can be left out.

* `Draft`                the fields that have been read so far;
* `Record.ofJson`        one record;
* `Record.listOfJson`    a whole file.
-/

namespace TinyCpu
open Text Json

inductive RecordField
  | description | address | bus | writeTo | operation | action | next | jumpZero
  deriving DecidableEq, Repr

namespace RecordField

/-- the fields in the order of a record that is written as a list -/
def all : List RecordField :=
  [description, address, bus, writeTo, operation, action, next, jumpZero]

def name : RecordField → Text
  | description => "description".toList
  | address => "address".toList
  | bus => "bBus".toList
  | writeTo => "writeTo".toList
  | operation => "operation".toList
  | action => "memoryAction".toList
  | next => "next".toList
  | jumpZero => "jZ".toList

/-- the field with exactly this name -/
def ofName? (t : Text) : Option RecordField := all.find? fun f => f.name == t

end RecordField

structure Draft where
  description : Option (Option Text) := none
  address : Option Text := none
  bus : Option (Option Text) := none
  writeTo : Option (Option (List Text)) := none
  operation : Option (Option Text) := none
  action : Option MemoryAction := none
  next : Option NextAddress := none
  jumpZero : Option Bool := none
  deriving DecidableEq, Repr

namespace Draft

def has (d : Draft) : RecordField → Bool
  | .description => d.description.isSome
  | .address => d.address.isSome
  | .bus => d.bus.isSome
  | .writeTo => d.writeTo.isSome
  | .operation => d.operation.isSome
  | .action => d.action.isSome
  | .next => d.next.isSome
  | .jumpZero => d.jumpZero.isSome

def memoryAction : Reader MemoryAction := fun t => do
  let (name, t) ← string t
  match MemoryAction.ofName? name with
  | some a => pure (a, t)
  | none => throw (.refused (MemoryAction.unknownMessage name))

/-- the draft with the value of one more field -/
def read (d : Draft) : RecordField → Reader Draft
  | .description, t => do
    let (v, t) ← nullable string t
    pure ({ d with description := some v }, t)
  | .address, t => do
    let (v, t) ← string t
    pure ({ d with address := some v }, t)
  | .bus, t => do
    let (v, t) ← nullable string t
    pure ({ d with bus := some v }, t)
  | .writeTo, t => do
    let (v, t) ← nullable (list string) t
    pure ({ d with writeTo := some v }, t)
  | .operation, t => do
    let (v, t) ← nullable string t
    pure ({ d with operation := some v }, t)
  | .action, t => do
    let (v, t) ← memoryAction t
    pure ({ d with action := some v }, t)
  | .next, t => do
    let (v, t) ← string t
    pure ({ d with next := some (.ofText v) }, t)
  | .jumpZero, t => do
    let (v, t) ← boolean t
    pure ({ d with jumpZero := some v }, t)

/-- the record with this address, fields that were not read left out -/
def complete (d : Draft) (address : Text) : Record where
  description := d.description.getD none
  address := address
  bus := d.bus.getD none
  writeTo := d.writeTo.getD none
  operation := d.operation.getD none
  action := d.action.getD .idle
  next := d.next.getD .fromMemory
  jumpZero := d.jumpZero.getD false

/-- the rest of a record that is written as an object; every field takes at least one character -/
def objectRest : (fuel : Nat) → (first : Bool) → Draft → Reader Record
  | 0, _, _, _ => .error (.ended .object)
  | fuel + 1, first, d, t => do
    match ← nextKey first t with
    | none =>
      match d.address with
      | some a => pure (d.complete a, (skipSpace t).drop 1)
      | none => throw (.missingField RecordField.address.name)
    | some t =>
      let (name, t) ← stringRest true t
      match RecordField.ofName? name with
      | some f =>
        if d.has f then throw (.duplicateField f.name)
        else
          let (d, t) ← d.read f (← afterColon t)
          objectRest fuel false d t
      | none => objectRest fuel false d (← skip (← afterColon t))

def closeList (t : Text) : Except Fault Text :=
  match skipSpace t with
  | [] => .error (.ended .list)
  | c :: rest =>
    if c = ']' then .ok rest
    else if c = ',' ∧ (skipSpace rest).head? = some ']' then .error (.malformed .trailingComma)
    else .error (.malformed .trailingText)

/-- the rest of a record that is written as a list, from the given fields on -/
def listRest (first : Bool) (d : Draft) : List RecordField → Reader Draft
  | [], t => .ok (d, t)
  | f :: fs, t => do
    match ← nextElement first t with
    | none =>
      if f = .address then
        throw (.wrongLength 1 "struct MicroInstructionRecord with 8 elements")
      else listRest first d fs t
    | some t =>
      let (d, t) ← d.read f t
      listRest false d fs t

end Draft

namespace Record

def ofJson : Reader Record := fun t =>
  match skipSpace t with
  | '[' :: rest => do
    let (d, t) ← Draft.listRest true {} RecordField.all rest
    match d.address with
    | some a => pure (d.complete a, ← Draft.closeList t)
    | none => throw (.missingField RecordField.address.name)
  | c :: rest =>
    if c = '\x7b' then Draft.objectRest (rest.length + 1) true {} rest
    else .error (unexpected "struct MicroInstructionRecord" (c :: rest))
  | [] => .error (.ended .value)

def listOfJson (t : Text) : Except Fault (List Record) := do
  let (records, t) ← list ofJson t
  if (skipSpace t).isEmpty then pure records else throw (.malformed .trailingText)

end Record
end TinyCpu
