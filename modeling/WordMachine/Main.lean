import WordMachine.Program.Disassemble
import WordMachine.Program.Run
import WordMachine.Toml.Settings

/-! # The command line

Reads files, variables and lines, and prints.  The name that the executable is called
by decides which of the two programs it is. -/

namespace WordMachine.CommandLine

/-- So many steps that no run takes them. -/
def endless : Nat := 0x4000000000000000

/-- The name under which the executable lists images instead of running them. -/
def listerName : String := "synacor-dasm"

/-- Why reading a file failed. -/
def fileErrorOf : IO.Error → FileError
  | .permissionDenied .. => .permissionDenied
  | .inappropriateType _ 21 _ => .isADirectory
  | .inappropriateType .. => .notADirectory
  | .invalidArgument .. => .nameTooLong
  | _ => .notFound

/-- The contents of the files among the arguments, read in advance. -/
def readFiles (args : List String) : IO (List (String × Except FileError (List UInt8))) :=
  args.mapM fun (path : String) => do
    try
      let bytes ← IO.FS.readBinFile path
      return (path, .ok bytes.toList)
    catch e => return (path, .error (fileErrorOf e))

/-- What the system offers. -/
def world (programName : String) (args : List String) : IO World := do
  let files ← readFiles args
  return {
    programName
    file := fun path => (files.lookup path).getD (.error .notFound)
    traceVariable := ← IO.getEnv "SYNACOR_TRACE"
    limitVariable := ← IO.getEnv "SYNACOR_MAX_INSTRUCTIONS"
    terminal := ← (← IO.getStdin).isTty
    readSettings := Settings.ofToml }

/-- Prints what a program leaves behind. -/
def report (exit : Exit) : IO UInt32 := do
  IO.print exit.output
  (← IO.getStdout).flush
  IO.eprint exit.errors
  return UInt32.ofNat exit.code

/-- The bytes of the next line behind those read so far. -/
partial def lineBytes (input : IO.FS.Stream) (line : Array UInt8) : IO (List UInt8) := do
  match (← input.read 1).toList with
  | [] => return line.toList
  | b :: _ =>
    let line := line.push b
    if b == 10 then return line.toList else lineBytes input line

/-- The next line of the user's input, if there is one. -/
def nextLine : IO (Option InputLine) := do
  return (inputLines (← lineBytes (← IO.getStdin) #[]))[0]?

/-- Holds the conversation from a turn on. -/
partial def converse (turn : Turn) : IO UInt32 := do
  match turn.status with
  | .wantsLine =>
    IO.print turn.printed
    (← IO.getStdout).flush
    match ← nextLine with
    | none => return 0
    | some line =>
      match turn.console.accept endless line with
      | some next => converse next
      | none => return 1
  | _ => report (Run.finish turn)

/-- Runs an image on the console. -/
def runImage (w : World) (args : List String) : IO UInt32 := do
  match Run.start w args with
  | .error exit => report exit
  | .ok console =>
    match console.settle endless with
    | some turn => converse turn
    | none => return 1

end WordMachine.CommandLine

/-- The entry point of the executable. -/
def main (args : List String) : IO UInt32 := do
  let programName := (← IO.appPath).fileName.getD "synacor"
  let w ← WordMachine.CommandLine.world programName args
  if programName == WordMachine.CommandLine.listerName then
    WordMachine.CommandLine.report (WordMachine.disassembleProgram w args)
  else WordMachine.CommandLine.runImage w args
