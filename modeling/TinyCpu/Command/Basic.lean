import TinyCpu.Disk.Files
import TinyCpu.Log
import TinyCpu.Microcode.Json

/-!
# The two commands

One command assembles a program, the other packs microcode.  Each reads its input, and only when
everything else has succeeded writes its two outputs.  Both take one argument, the path of their
input, and have a default for it.

* `inputArgument`      the input that a command line names;
* `loadMicrocode`      the records of a microcode file; a file that does not exist is told apart
                       from one that cannot be read;
* `Outcome`            what a run leaves besides files: log, printed text, success or failure;
* `assembleFile`       the command for programs;
* `packFile`           the command for microcode;
* `runCommand`         a command with its command line.
-/

namespace TinyCpu
open Text

variable {m : Type → Type} [Monad m] [Files m]

/-! ## Arguments -/

inductive UsageError
  | unknownOption (argument : Text)
  | unexpectedArgument (argument : Text)
  | emptyArgument
  deriving DecidableEq, Repr

def UsageError.message : UsageError → String
  | unknownOption t => s!"unknown option '{String.ofList t}'"
  | unexpectedArgument t => s!"unexpected argument '{String.ofList t}'"
  | emptyArgument => "a path cannot be empty"

/-- an option starts with a dash and goes on -/
def isOption : Text → Bool
  | '-' :: _ :: _ => true
  | _ => false

/-- the paths on a command line.  After `--` every argument is a path. -/
def pathArguments (options : Bool) : List Text → Except UsageError (List Text)
  | [] => .ok []
  | a :: as =>
    if options ∧ a = "--".toList then pathArguments false as
    else if options ∧ isOption a then .error (.unknownOption a)
    else (pathArguments options as).map fun ps => a :: ps

def inputArgument (default : Text) (arguments : List Text) : Except UsageError Text :=
  (pathArguments true arguments).bind fun paths =>
    match paths with
    | [] => .ok default
    | [p] => if p.isEmpty then .error .emptyArgument else .ok p
    | _ :: p :: _ => .error (.unexpectedArgument p)

/-! ## Microcode files -/

inductive LoadError
  | notFound (path : Text)
  | unreadable (path : Text) (cause : ReadError)
  | malformed (path : Text) (cause : Json.Fault)
  deriving DecidableEq, Repr

namespace LoadError

def message : LoadError → String
  | notFound p => s!"microcode input file not found: {String.ofList p}"
  | unreadable p e => s!"reading {String.ofList p}: {e.message}"
  | malformed p e => s!"parsing {String.ofList p}: {e.message}"

def cause? : LoadError → Option String
  | notFound _ => none
  | unreadable _ e => some e.message
  | malformed _ e => some e.message

end LoadError

def loadMicrocode (p : Text) : m (Except LoadError (List Record)) := do
  match ← readText p with
  | .error (.os .notFound) => pure (.error (.notFound p))
  | .error e => pure (.error (.unreadable p e))
  | .ok t => pure ((Record.listOfJson t).mapError (LoadError.malformed p))

/-! ## Runs -/

inductive CommandError
  | reading (path : Text) (cause : ReadError)
  | loading (e : LoadError)
  | assembling (e : LineError)
  | packing (e : RomError)
  | rendering (e : WidthError)
  | writing (e : WriteError)
  deriving DecidableEq, Repr

namespace CommandError

def message : CommandError → String
  | reading p _ => s!"reading {String.ofList p}"
  | loading e => e.message
  | assembling _ => "assembly failed"
  | packing _ => "microcode assembly failed"
  | rendering e => e.message
  | writing e => e.message

def cause? : CommandError → Option String
  | reading _ e => some e.message
  | loading e => e.cause?
  | assembling e => some e.message
  | packing e => some e.message
  | rendering _ => none
  | writing e => some e.cause.message

def indented (t : Text) : Text :=
  ['\n'].intercalate ((t.splitOn '\n').map fun line => "    ".toList ++ line)

/-- the failure as it is shown at the end of a run -/
def report (e : CommandError) : Text :=
  "Error: ".toList ++ e.message.toList ++ ['\n'] ++
    match e.cause? with
    | none => []
    | some cause => "\nCaused by:\n".toList ++ indented cause.toList ++ ['\n']

end CommandError

structure Outcome where
  log : List Event := []
  /-- the text on standard output -/
  printed : Text := []
  result : Except CommandError Unit := .ok ()

inductive Command
  /-- assembles a program -/
  | assembler
  /-- packs microcode -/
  | microassembler
  deriving DecidableEq, Repr

namespace Command

def all : List Command := [assembler, microassembler]

def name : Command → Text
  | assembler => "mcasm".toList
  | microassembler => "microasm".toList

/-- the input of a command line without arguments -/
def defaultInput : Command → Text
  | assembler => "program.asm".toList
  | microassembler => "microcode.json".toList

def ofName? (t : Text) : Option Command := all.find? fun c => c.name == t

def event (c : Command) (level : Level) (message : Text) (values : List (Text × Text)) : Event :=
  { level, source := c.name, message, values }

def doneEvent (c : Command) (message : String) (out : OutputPaths) : Event :=
  c.event .info message.toList
    [Log.plainText "binary" out.binary, Log.plainText "image" out.memoryText]

/-- a label and its address in hexadecimal and decimal -/
def symbolMessage (name : Text) (address : UInt32) : Text :=
  "  ".toList ++ name.rightpad 10 ' ' ++ ": 0x".toList ++ paddedHex 2 address.toNat ++
    " (".toList ++ decimal address.toNat ++ ")".toList

end Command

/-- the outputs of a run at their paths; `done` is reported if that succeeds -/
def saveOutputs (o : Outcome) (artifacts : Except WidthError Artifacts) (out : OutputPaths)
    (done : Event) : m Outcome := do
  match artifacts with
  | .error e => pure { o with result := .error (.rendering e) }
  | .ok a =>
    match ← a.save out.binary out.memoryText with
    | .error e => pure { o with result := .error (.writing e) }
    | .ok () => pure { o with log := o.log ++ [done] }

def assembleFile (input : Text) : m Outcome := do
  match ← readText input with
  | .error e => pure { result := .error (.reading input e) }
  | .ok source =>
    let c := Command.assembler
    let log := c.event .info "assembling".toList [Log.plainText "input" input] ::
      assembleEvents .standard source
    match assemble .standard source with
    | .error e => pure { log, result := .error (.assembling e) }
    | .ok a =>
      let symbols := a.symbols.entries.map fun (name, address) =>
        c.event .info (Command.symbolMessage name address) []
      let out := OutputPaths.forInput input
      saveOutputs { log := log ++ symbols } (Artifacts.ofImage MemoryText.programBits a.image) out
        (c.doneEvent "assembly successful" out)

def packFile (input : Text) : m Outcome := do
  match ← loadMicrocode input with
  | .error e => pure { result := .error (.loading e) }
  | .ok records =>
    let c := Command.microassembler
    let log := Rom.assembleEvents records
    match Rom.assemble records with
    | .error e => pure { log, result := .error (.packing e) }
    | .ok rom =>
      let warned := if rom.warnings.isEmpty then [] else
        [c.event .warn "microcode assembled with warnings".toList
          [Log.number "count" rom.warnings.length]]
      let out := OutputPaths.forInput input
      saveOutputs { log := log ++ warned, printed := rom.listing } rom.artifacts out
        (c.doneEvent "assembly complete" out)

def Command.run : Command → (input : Text) → m Outcome
  | .assembler, input => assembleFile input
  | .microassembler, input => packFile input

/-! ## Command lines -/

/-- what a process leaves: its exit code and its two texts -/
structure Exit where
  code : Nat
  printed : Text
  errors : Text
  deriving DecidableEq, Repr

/-- the end of a run, with the log up to a level -/
def Outcome.exit (level : Option Level) (o : Outcome) : Exit :=
  match o.result with
  | .ok () => ⟨0, o.printed, shownLog level o.log⟩
  | .error e => ⟨1, o.printed, shownLog level o.log ++ e.report⟩

/-- a command with its command line; one that it does not understand changes nothing -/
def runCommand (c : Command) (level : Option Level) (arguments : List Text) : m Exit := do
  match inputArgument c.defaultInput arguments with
  | .error e => pure ⟨2, [], "error: ".toList ++ e.message.toList ++ ['\n']⟩
  | .ok input => Outcome.exit level <$> c.run input

end TinyCpu
