import TinyCpu.Command.Basic

/-!
# The command line

The first argument names the command, the others are its command line.  The log goes to standard
error; the variable `LOG` sets how much of it is shown.
-/

namespace TinyCpu

/-- an error of the system as one of the file operations -/
def OsError.ofSystem : IO.Error → OsError
  | .noFileOrDirectory .. => .notFound
  | e => .other (toString e)

def attempt {α : Type} (action : IO α) : IO (Except OsError α) := do
  try
    pure (.ok (← action))
  catch e =>
    pure (.error (.ofSystem e))

instance : Files IO where
  read p := attempt do
    let bytes ← IO.FS.readBinFile (String.ofList p)
    pure bytes.toList
  write p contents := attempt (IO.FS.writeBinFile (String.ofList p) contents.toByteArray)
  rename source target := attempt (IO.FS.rename (String.ofList source) (String.ofList target))
  remove p := do
    discard (attempt (IO.FS.removeFile (String.ofList p)))

def logLevel : IO (Option Level) := do
  match ← IO.getEnv "LOG" with
  | some name => pure (Level.ofName? name.toList)
  | none => pure (some .info)

end TinyCpu

open TinyCpu in
def main (arguments : List String) : IO UInt32 := do
  match arguments with
  | [] =>
    IO.eprintln "usage: (mcasm | microasm) [FILE]"
    pure 2
  | name :: arguments =>
    match Command.ofName? name.toList with
    | none =>
      IO.eprintln s!"unknown command '{name}'"
      pure 2
    | some c =>
      let exit ← runCommand c (← logLevel) (arguments.map String.toList)
      IO.print (String.ofList exit.printed)
      IO.eprint (String.ofList exit.errors)
      pure (UInt32.ofNat exit.code)
