import WordMachine.Console
import WordMachine.Program.File
import WordMachine.Settings

/-! # Programs

What the two programs share: what they are given by the system, what they leave
behind, and the wording of the errors that end them. -/

namespace WordMachine

/-- What the system offers to a program. -/
structure World where
  /-- The name that the program was called by. -/
  programName : String
  /-- The contents of a file. -/
  file : String → Except FileError (List UInt8)
  /-- The variable that switches tracing on or off. -/
  traceVariable : Option String
  /-- The variable that sets the instruction limit. -/
  limitVariable : Option String
  /-- Whether the input comes from a terminal, which echoes by itself. -/
  terminal : Bool
  /-- The settings that the text of a settings file gives. -/
  readSettings : String → Except SettingsError Settings

/-- What a program leaves behind. -/
structure Exit where
  code : Nat
  output : String
  errors : String
  deriving DecidableEq, Repr

namespace Exit

/-- The end of a program that has reported an error. -/
def failure (message : String) : Exit := ⟨1, "", "Error: " ++ message ++ "\n"⟩

/-- The end of a program that asks for a larger block of memory than there can be.  The
system breaks it off; of the notice of that only the cause is kept. -/
def overflow : Exit := ⟨101, "", "capacity overflow\n"⟩

end Exit

/-- The parts of the errors that keep a program from starting; the others are worded. -/
def Error.details : Error → String
  | .imageTooLarge words => "ImageTooLarge \x7b words: " ++ Text.decimal words ++ " \x7d"
  | .settings cause => "Config(" ++ Text.quoted cause.message ++ ")"
  | e => e.message

/-- The memory that an image file fills, or how the program ends without it; `cannotOpen`
words the failure to open the file. -/
def World.loadImage (w : World) (cannotOpen : FileError → String) (path : String) :
    Except Exit Memory :=
  match w.file path with
  | .error .isADirectory =>
    .error (.failure ("Io(" ++ FileError.details .isADirectory ++ ")"))
  | .error e => .error (.failure (cannotOpen e))
  | .ok bytes => (Memory.ofBytes bytes).mapError (fun e => .failure e.details)

/-- Lines of text with their ends. -/
def unlines (ls : List String) : String := String.join (ls.map (fun l => l ++ "\n"))

/-! ### Lines of bytes -/

/-- The lines of a list of bytes behind the bytes of the first line read so far, newest
first. -/
def byteLinesFrom (line : List UInt8) : List UInt8 → List (List UInt8)
  | [] => if line.isEmpty then [] else [line.reverse]
  | 10 :: rest =>
    match line with
    | 13 :: line => line.reverse :: byteLinesFrom [] rest
    | line => line.reverse :: byteLinesFrom [] rest
  | b :: rest => byteLinesFrom (b :: line) rest

/-- The lines of a list of bytes.  A line ends with a line feed, perhaps behind a carriage
return; the last one need not have an end. -/
def byteLines (bytes : List UInt8) : List (List UInt8) := byteLinesFrom [] bytes

/-- The text that a list of bytes encodes in UTF-8. -/
def decodeUtf8 (bytes : List UInt8) : Option String :=
  String.fromUTF8? (ByteArray.mk bytes.toArray)

/-- The lines of an input stream. -/
def inputLines (bytes : List UInt8) : List InputLine :=
  (byteLines bytes).map fun line =>
    match decodeUtf8 line with
    | some text => .text text
    | none => .undecodable

end WordMachine
