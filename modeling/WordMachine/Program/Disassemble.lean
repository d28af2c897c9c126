import WordMachine.Program.Basic

/-! # The program that lists an image

It lists the instructions of an image from a start address: as many as asked for, or
those of the loaded words. -/

namespace WordMachine

/-- The options of the program and its other arguments. -/
structure ListOptions where
  raw : Bool := false
  /-- The arguments that are no options: the image, the start and the count. -/
  positional : List String := []
  deriving DecidableEq, Repr

namespace Disassemble

/-- The help text. -/
def usage (programName : String) : String :=
  unlines
    ["Usage: " ++ programName ++ " [options] <image> [start] [count]",
      "",
      "Options:",
      "  -d   Dump the raw words of each instruction",
      "  -h   Show this help message"]

/-- Reads the options from left to right, or tells how the program ends without them. -/
def readOptions (programName : String) (o : ListOptions) :
    List String → Except Exit ListOptions
  | [] => .ok o
  | "-d" :: args => readOptions programName { o with raw := true } args
  | "-h" :: _ | "--help" :: _ => .error ⟨0, "", usage programName⟩
  | arg :: args =>
    match arg.toList with
    | '-' :: _ => .error ⟨1, "", "Unknown option: " ++ arg ++ "\n"⟩
    | _ => readOptions programName { o with positional := o.positional ++ [arg] } args

/-- A number of 64 bits. -/
def number? (text : String) : Option Nat := Text.number? (0xFFFFFFFFFFFFFFFF) text

/-- The address to start from; the first one by default. -/
def readStart : Option String → Except Exit Word
  | none => .ok 0
  | some text =>
    match number? text with
    | none => .error (.failure (Text.quoted ("Bad start address: " ++ text)))
    | some n =>
      if n ≤ 65535 then .ok (UInt16.ofNat n)
      else .error (.failure (Text.quoted ("Start address out of range: " ++ Text.decimal n)))

/-- The number of instructions to list, if one is given. -/
def readCount : Option String → Except Exit (Option Nat)
  | none => .ok none
  | some text =>
    match number? text with
    | none => .error (.failure (Text.quoted ("Bad count: " ++ text)))
    | some n => .ok (some n)

/-- The lines for a number of instructions, or how the program ends without room for
them. -/
def counted (ws : Array Word) (raw : Bool) (start : Word) (count : Nat) :
    Except Exit (List String) :=
  match listing? ws raw start count with
  | some ls => .ok ls
  | none => .error .overflow

/-- The lines of the listing.  The start is read before the image, the count after it. -/
def lines (w : World) (args : List String) : Except Exit (List String) := do
  let o ← readOptions w.programName {} args
  match o.positional with
  | [] => .error ⟨1, "", usage w.programName⟩
  | path :: rest =>
    let start ← readStart rest[0]?
    let memory ← w.loadImage FileError.details path
    match ← readCount rest[1]? with
    | some count => counted memory.words.toArray o.raw start count
    | none =>
      return listingUpTo memory.words.toArray o.raw start (UInt16.ofNat memory.loaded)

end Disassemble

/-- Lists the program with the given arguments. -/
def disassembleProgram (w : World) (args : List String) : Exit :=
  match Disassemble.lines w args with
  | .error exit => exit
  | .ok ls => ⟨0, unlines ls, ""⟩

end WordMachine
