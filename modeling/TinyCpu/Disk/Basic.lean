import TinyCpu.SortedMap
import TinyCpu.Text.Basic

/-!
# Paths and disks

A path is text with components between slashes.  The outputs of a command stand next to its input
and differ from it in the extension only.  A disk holds files and directories by their location, the
names on the way from the root; `locate` walks a path to the directory that holds its last
component, and the file operations act there.

* `Path.splitName?`              the last component of a path and what stands before it;
* `Path.withExtension`           a path with another extension;
* `OutputPaths`                  where the outputs for an input go;
* `Disk.read`, `Disk.write`      the contents of a file;
* `Disk.rename`                  a file takes the place of another one;
* `Disk.remove`                  a file goes away; a directory stays;
* `Disk.listing`                 everything below the working directory.
-/

namespace TinyCpu
open Text

/-! ## Paths -/

namespace Path

def here : Text := ['.']

def above : Text := ['.', '.']

/-- what stands before the last component, and that component.  Slashes and dots at the end of the
path do not count, and `..` is no name. -/
def splitName? (p : Text) : Option (Text × Text) :=
  match (p.splitOn '/').reverse.dropWhile fun c => c.isEmpty || c == here with
  | [] => none
  | name :: before =>
    if name = above then none else some (before.reverse.flatMap fun c => c ++ ['/'], name)

/-- the name up to its last dot and what follows it; a dot in front does not count -/
def splitExtension (name : Text) : Text × Option Text :=
  match name.reverse.dropWhile (· != '.') with
  | [] => (name, none)
  | _ :: stem =>
    if stem.isEmpty then (name, none)
    else (stem.reverse, some (name.reverse.takeWhile (· != '.')).reverse)

/-- a reversed text without `n` bytes in front; a character that would be cut in two stays -/
def dropBytes (n : Nat) : Text → Text
  | [] => []
  | c :: t => if 0 < n ∧ c.utf8Size ≤ n then dropBytes (n - c.utf8Size) t else c :: t

/-- the path without as many bytes at its end as its extension has -/
def cutExtension (p : Text) : Text :=
  match (splitName? p).bind fun r => (splitExtension r.2).2 with
  | some extension => (dropBytes (byteLength extension) p.reverse).reverse
  | none => p

/-- the path with this extension in place of its own; a path without a name stays as it is -/
def withExtension (extension p : Text) : Text :=
  let cut := cutExtension p
  match splitName? cut with
  | some (before, name) => before ++ (splitExtension name).1 ++ '.' :: extension
  | none => cut

/-- the path under which a file is written before it takes its place -/
def staging (p : Text) : Text := p ++ ".part".toList

end Path

structure OutputPaths where
  binary : Text
  memoryText : Text
  deriving DecidableEq, Repr

/-- the outputs next to an input, with their own extensions -/
def OutputPaths.forInput (input : Text) : OutputPaths where
  binary := Path.withExtension "bin".toList input
  memoryText := Path.withExtension "logisimimg".toList input

/-! ## Disks -/

inductive OsError
  | notFound
  | busy
  | notDirectory
  | isDirectory
  | nameTooLong
  /-- a path that holds the character NUL -/
  | invalidName
  /-- anything else, in the words of the system -/
  | other (text : String)
  deriving DecidableEq, Repr

def OsError.message : OsError → String
  | notFound => "No such file or directory (os error 2)"
  | busy => "Device or resource busy (os error 16)"
  | notDirectory => "Not a directory (os error 20)"
  | isDirectory => "Is a directory (os error 21)"
  | nameTooLong => "File name too long (os error 36)"
  | invalidName => "file name contained an unexpected NUL byte"
  | other text => text

/-- the names on the way from the root -/
abbrev Location := List Text

inductive Entry
  | file (contents : List UInt8)
  | directory
  deriving DecidableEq, Repr

/-- files and directories, and the directory that relative paths start from -/
structure Disk where
  entries : SortedMap Location Entry := ∅
  current : Location := []
  deriving DecidableEq

/-- the end of a path: a directory, and the name in it if the path ends with one -/
structure Place where
  directory : Location
  name : Option Text
  /-- a slash follows the name -/
  slash : Bool
  deriving DecidableEq, Repr

namespace Disk

/-- longest name, in bytes -/
def nameLimit : Nat := 255

/-- longest path, in bytes -/
def pathLimit : Nat := 4095

/-- what stands at a location; the root is a directory -/
def entry? (d : Disk) (l : Location) : Option Entry :=
  if l.isEmpty then some .directory else d.entries.get? l

/-! ## Walking -/

/-- from a directory to the one that a component of a path leads to -/
def enter (d : Disk) (l : Location) (name : Text) : Except OsError Location :=
  if name = Path.here then .ok l
  else if name = Path.above then .ok l.dropLast
  else if nameLimit < byteLength name then .error .nameTooLong
  else match d.entry? (l ++ [name]) with
    | some .directory => .ok (l ++ [name])
    | some (.file _) => .error .notDirectory
    | none => .error .notFound

/-- the end of a path, if all directories on the way to it exist -/
def locate (d : Disk) (p : Text) : Except OsError Place :=
  if p.contains '\x00' then .error .invalidName
  else if p.isEmpty then .error .notFound
  else if pathLimit < byteLength p then .error .nameTooLong
  else
    let names := (p.splitOn '/').filter fun c => !c.isEmpty
    let start := if p.head? = some '/' then [] else d.current
    (names.dropLast.foldlM d.enter start).bind fun l =>
      match names.getLast? with
      | none => .ok ⟨l, none, true⟩
      | some name =>
        if name = Path.here ∨ name = Path.above then .ok ⟨l, none, true⟩
        else if nameLimit < byteLength name then .error .nameTooLong
        else .ok ⟨l, some name, p.getLast? = some '/'⟩

/-! ## File operations -/

def read (d : Disk) (p : Text) : Except OsError (List UInt8) :=
  (d.locate p).bind fun place =>
    match place.name with
    | none => .error .isDirectory
    | some name =>
      match d.entry? (place.directory ++ [name]) with
      | none => .error .notFound
      | some .directory => .error .isDirectory
      | some (.file contents) => if place.slash then .error .notDirectory else .ok contents

def put (d : Disk) (l : Location) (contents : List UInt8) : Disk :=
  { d with entries := d.entries.insert l (.file contents) }

/-- the disk with these contents in a file, which need not exist before -/
def write (d : Disk) (p : Text) (contents : List UInt8) : Except OsError Disk :=
  (d.locate p).bind fun place =>
    match place.name with
    | none => .error .isDirectory
    | some name =>
      if place.slash ∨ d.entry? (place.directory ++ [name]) = some .directory then
        .error .isDirectory
      else .ok (d.put (place.directory ++ [name]) contents)

/-- the disk with the file at one path moved to another one, in place of a file there; a directory
is neither moved nor replaced -/
def rename (d : Disk) (source target : Text) : Except OsError Disk :=
  (d.locate source).bind fun s =>
    (d.locate target).bind fun t =>
      match s.name, t.name with
      | some sourceName, some targetName =>
        match d.entry? (s.directory ++ [sourceName]) with
        | none => .error .notFound
        | some .directory => .error .isDirectory
        | some (.file contents) =>
          if s.slash ∨ t.slash then .error .notDirectory
          else if d.entry? (t.directory ++ [targetName]) = some .directory then
            .error .isDirectory
          else .ok ({ d with entries := d.entries.erase (s.directory ++ [sourceName]) }.put
            (t.directory ++ [targetName]) contents)
      | _, _ => .error .busy

/-- the disk without the file at a path, if there is one -/
def remove (d : Disk) (p : Text) : Disk :=
  match d.locate p with
  | .ok ⟨l, some name, false⟩ =>
    match d.entry? (l ++ [name]) with
    | some (.file _) => { d with entries := d.entries.erase (l ++ [name]) }
    | _ => d
  | _ => d

/-! ## Whole disks -/

/-- the location that a path names, whether or not it exists -/
def locationOf (d : Disk) (p : Text) : Location :=
  ((p.splitOn '/').filter fun c => !c.isEmpty && c != Path.here).foldl
    (fun l name => if name = Path.above then l.dropLast else l ++ [name])
    (if p.head? = some '/' then [] else d.current)

/-- the disk with a directory at a location, and all directories above it -/
def makeDirectories (d : Disk) (l : Location) : Disk :=
  { d with entries := (List.range l.length).foldl (fun es i =>
      es.insert (l.take (i + 1)) .directory) d.entries }

/-- everything below the working directory, with the path to it, in the order of the paths -/
def listing (d : Disk) : List (Text × Entry) :=
  let below := d.entries.entries.filterMap fun (l, e) =>
    if d.current.isPrefixOf l ∧ l ≠ d.current then
      some (['/'].intercalate (l.drop d.current.length), e)
    else none
  below.mergeSort fun a b => (compare a.1 b.1).isLE

end Disk

end TinyCpu
