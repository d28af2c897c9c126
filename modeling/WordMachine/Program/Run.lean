import WordMachine.Program.Basic

/-! # The program that runs an image

It reads its options, the settings and the program image, and then holds a
conversation on the console.  If the conversation fails, it prints the output that was
not collected yet, the error and a report on the machine. -/

namespace WordMachine

/-- The options of the program. -/
structure RunOptions where
  image : Option String := none
  settings : Option String := none
  trace : Bool := false
  commands : Bool := false
  deriving DecidableEq, Repr

/-- Why options are refused. -/
inductive OptionError where
  | unknown (text : String)
  | settingsWithoutFile
  | noImage
  deriving DecidableEq, Repr

namespace OptionError

/-- The wording of an option error. -/
def message : OptionError → String
  | .unknown text => "Unknown option: " ++ text
  | .settingsWithoutFile => "--config needs a file"
  | .noImage => "No program image given"

end OptionError

namespace Run

/-- The help text. -/
def usage (programName : String) : String :=
  unlines
    ["synacor - virtual machine for the Synacor challenge binary",
      "",
      "Usage: " ++ programName ++ " <challenge.bin> [--config file.toml] [--trace] [--debug]",
      "",
      "  --config  Load machine settings from a TOML file",
      "  --trace   Record an execution trace (shown after errors)",
      "  --debug   Accept debugger commands on input lines starting with '!'"]

/-- Reads the options from left to right; `none` if help is asked for. -/
def readOptions (o : RunOptions) : List String → Except OptionError (Option RunOptions)
  | [] => .ok (some o)
  | "--config" :: path :: args => readOptions { o with settings := some path } args
  | ["--config"] => .error .settingsWithoutFile
  | "--trace" :: args => readOptions { o with trace := true } args
  | "--debug" :: args => readOptions { o with commands := true } args
  | "-h" :: _ | "--help" :: _ => .ok none
  | arg :: args =>
    match arg.toList with
    | '-' :: _ => .error (.unknown arg)
    | _ => readOptions { o with image := some arg } args

/-- The settings of a file. -/
def loadSettings (w : World) (path : String) : Except SettingsError Settings :=
  match w.file path with
  | .error e => .error (.unreadable path e.message)
  | .ok bytes =>
    match decodeUtf8 bytes with
    | some text => w.readSettings text
    | none => .error (.unreadable path "stream did not contain valid UTF-8")

/-- The settings of the file that is asked for, the environment and the options. -/
def settings (w : World) (o : RunOptions) : Except SettingsError Settings := do
  let s ← match o.settings with
    | some path => loadSettings w path
    | none => .ok {}
  let s := if w.terminal then s else { s with echo := true }
  let s ← s.override w.traceVariable w.limitVariable
  return if o.trace || o.commands then { s with trace := { s.trace with enabled := true } } else s

/-- The wording of the failure to open an image. -/
def cannotOpen (path : String) (e : FileError) : String :=
  "Cannot open program image '" ++ path ++ "': " ++ e.message

/-- The console of a program, or how it ends without one. -/
def start (w : World) (args : List String) : Except Exit Console :=
  if args.isEmpty then .error ⟨0, usage w.programName, ""⟩
  else match readOptions {} args with
    | .error e => .error (.failure (Text.quoted e.message))
    | .ok none => .error ⟨0, usage w.programName, ""⟩
    | .ok (some o) =>
      match o.image with
      | none => .error (.failure (Text.quoted OptionError.noImage.message))
      | some path =>
        match settings w o with
        | .error e => .error (.failure (Error.settings e).details)
        | .ok s => do
          let memory ← w.loadImage (cannotOpen path) path
          return ⟨Debugger.ofMachine (Machine.ofSettings memory s), s.echo, o.commands⟩

/-- How a program ends after its conversation. -/
def finish (turn : Turn) : Exit :=
  match turn.status with
  | .failed e =>
    let (pending, d) := turn.console.debugger.takeOutput
    ⟨1, turn.printed ++ pending,
      "\nError during execution: " ++ e.message ++ "\n" ++ d.report ++ "\n"⟩
  | _ => ⟨0, turn.printed, ""⟩

end Run

/-- Runs the program with the given arguments and lines of input; `none` if the fuel does
not suffice. -/
def runProgram (fuel : Nat) (w : World) (args : List String) (lines : List InputLine) :
    Option Exit :=
  match Run.start w args with
  | .error exit => some exit
  | .ok console => (console.converse fuel lines).map Run.finish

end WordMachine
