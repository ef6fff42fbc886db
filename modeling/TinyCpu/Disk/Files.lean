import TinyCpu.Disk.Basic
import TinyCpu.Image

/-!
# File operations and the two-file save

Programs use files through the class `Files`, so they run on a `Disk` value as well as on the disk
of a computer.

* `readText`         a file as text;
* `Artifacts.save`   both output files, each written under a staging path first; if a step fails,
                     what the save had written is removed again.
-/

namespace TinyCpu
open Text

class Files (m : Type → Type) where
  read : Text → m (Except OsError (List UInt8))
  write : Text → List UInt8 → m (Except OsError Unit)
  rename : Text → Text → m (Except OsError Unit)
  /-- a path that names no file is left alone -/
  remove : Text → m Unit

def Disk.attempt (change : Disk → Except OsError Disk) : StateM Disk (Except OsError Unit) := fun d =>
  match change d with
  | .ok d' => (.ok (), d')
  | .error e => (.error e, d)

instance : Files (StateM Disk) where
  read p := fun d => (d.read p, d)
  write p contents := Disk.attempt fun d => d.write p contents
  rename source target := Disk.attempt fun d => d.rename source target
  remove p := fun d => ((), d.remove p)

variable {m : Type → Type} [Monad m] [Files m]

/-! ## Reading -/

inductive ReadError
  | os (e : OsError)
  /-- the bytes are no UTF-8 -/
  | notText
  deriving DecidableEq, Repr

def ReadError.message : ReadError → String
  | os e => e.message
  | notText => "stream did not contain valid UTF-8"

def readText (p : Text) : m (Except ReadError Text) := do
  match ← Files.read p with
  | .error e => pure (.error (.os e))
  | .ok bytes =>
    match ofUtf8? bytes with
    | some t => pure (.ok t)
    | none => pure (.error .notText)

/-! ## Saving -/

/-- the path that could not be written, and why -/
structure WriteError where
  path : Text
  cause : OsError
  deriving DecidableEq, Repr

def WriteError.message (e : WriteError) : String := s!"writing {String.ofList e.path}"

/-- a file operation, with the path that its failure is about -/
def about (path : Text) (action : m (Except OsError Unit)) : ExceptT WriteError m Unit :=
  ExceptT.mk ((Except.mapError (WriteError.mk path)) <$> action)

namespace Artifacts

/-- both files under their staging paths, and the binary moved to its own -/
def stage (a : Artifacts) (binaryPath textPath : Text) : ExceptT WriteError m Unit := do
  let stagedBinary := Path.staging binaryPath
  let stagedText := Path.staging textPath
  about stagedBinary (Files.write stagedBinary a.binary)
  about stagedText (Files.write stagedText (toUtf8 a.memoryText))
  about binaryPath (Files.rename stagedBinary binaryPath)

/-- both files at their paths; a step that fails is reported once the files written so far are
removed, and that goes for a binary already in its place -/
def save (a : Artifacts) (binaryPath textPath : Text) : m (Except WriteError Unit) := do
  match ← (a.stage binaryPath textPath).run with
  | .error e =>
    Files.remove (Path.staging binaryPath)
    Files.remove (Path.staging textPath)
    pure (.error e)
  | .ok () =>
    match ← (about textPath (Files.rename (Path.staging textPath) textPath)).run with
    | .error e =>
      Files.remove binaryPath
      Files.remove (Path.staging textPath)
      pure (.error e)
    | .ok () => pure (.ok ())

end Artifacts
end TinyCpu
