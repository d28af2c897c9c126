import WordMachine.Debugger.Report
import WordMachine.Text.Blank

/-! # Debugger commands

A command is a line of words.  It is first read, which may refuse it, and then
executed on a debugger; both answer with a text. -/

namespace WordMachine

/-- What a user can ask of the debugger. -/
inductive Command where
  | step (count : Nat)
  | resume
  | report
  | history
  /-- List instructions, by default from the instruction pointer. -/
  | list (addr : Option Word) (count : Word)
  | addBreakpoint (addr : Word)
  | removeBreakpoint (addr : Word)
  | breakpoints
  | setRegister (index : Fin 8) (value : Word)
  | poke (addr value : Word)
  | peek (addr : Word)
  deriving DecidableEq, Repr

/-- Why a line is no command. -/
inductive Refusal where
  | badCount (text : String)
  | badAddress (text : String)
  | badRegister (text : String)
  | badValue (text : String)
  | unknown
  deriving DecidableEq, Repr

namespace Refusal

/-- The overview of the commands. -/
def help : String :=
  "Commands: n(ext) [count], c(ontinue), s(tate), h(istory), d(isasm) [addr] [count]\n" ++
  "          b <addr> (breakpoint), rb <addr> (remove), bl (list)\n" ++
  "          set r<n> <value>, poke <addr> <value>, peek <addr>"

/-- The wording of a refusal. -/
def message : Refusal → String
  | .badCount text => "Invalid count: " ++ text
  | .badAddress text => "Invalid address: " ++ text
  | .badRegister text => "Invalid register: " ++ text
  | .badValue text => "Invalid value: " ++ text
  | .unknown => help

end Refusal

namespace Command

/-! ### Reading -/

/-- A numeral that fits in a word. -/
def word? (text : String) : Option Word := (Text.number? 65535 text).map UInt16.ofNat

/-- A count of steps or lines. -/
def readCount (text : String) : Except Refusal Nat :=
  match Text.number? 65535 text with
  | some n => .ok n
  | none => .error (.badCount text)

/-- A value for a register or a word of memory. -/
def readValue (text : String) : Except Refusal Word :=
  match word? text with
  | some w => .ok w
  | none => .error (.badValue text)

/-- An address inside the memory. -/
def readAddress (text : String) : Except Refusal Word :=
  match word? text with
  | some w => if w.isNarrow then .ok w else .error (.badAddress text)
  | none => .error (.badAddress text)

/-- A register: `r` and its number in decimal. -/
def readRegister (text : String) : Except Refusal (Fin 8) :=
  match text.toList with
  | 'r' :: cs =>
    match Text.unsigned? 10 (0xFFFFFFFFFFFFFFFF) cs with
    | some n => if h : n < 8 then .ok ⟨n, h⟩ else .error (.badRegister text)
    | none => .error (.badRegister text)
  | _ => .error (.badRegister text)

/-! ### Keywords -/

/-- The first word of a command. -/
inductive Keyword where
  | step
  | resume
  | report
  | history
  | list
  | addBreakpoint
  | removeBreakpoint
  | breakpoints
  | setRegister
  | poke
  | peek
  deriving DecidableEq, Repr

/-- Reads a command that takes no argument. -/
def bare (c : Command) : List String → Except Refusal Command
  | [] => .ok c
  | _ => .error .unknown

/-- Reads a command that takes one argument. -/
def unary (read : String → Except Refusal Command) : List String → Except Refusal Command
  | [s] => read s
  | _ => .error .unknown

/-- Reads a command that takes two arguments. -/
def binary (read : String → String → Except Refusal Command) :
    List String → Except Refusal Command
  | [s, t] => read s t
  | _ => .error .unknown

/-- Reads the arguments of a step: the number of steps, one by default. -/
def readStep : List String → Except Refusal Command
  | [] => .ok (.step 1)
  | args => unary (fun count => do return .step (← readCount count)) args

/-- Reads the arguments of a listing: the address and the number of lines, five by
default. -/
def readList : List String → Except Refusal Command
  | [] => .ok (.list none 5)
  | [addr] => do return .list (some (← readAddress addr)) 5
  | args => binary (fun addr count => do
      let a ← readAddress addr
      let n ← readCount count
      return .list (some a) (UInt16.ofNat n)) args

namespace Keyword

/-- The keyword that a word is. -/
def ofWord? : String → Option Keyword
  | "n" | "next" => some .step
  | "c" | "continue" => some .resume
  | "s" | "state" => some .report
  | "h" | "history" => some .history
  | "d" | "disasm" => some .list
  | "b" => some .addBreakpoint
  | "rb" => some .removeBreakpoint
  | "bl" => some .breakpoints
  | "set" => some .setRegister
  | "poke" => some .poke
  | "peek" => some .peek
  | _ => none

/-- Reads the words behind a keyword. -/
def readArguments : Keyword → List String → Except Refusal Command
  | .step => readStep
  | .resume => bare .resume
  | .report => bare .report
  | .history => bare .history
  | .list => readList
  | .addBreakpoint => unary fun addr => do return .addBreakpoint (← readAddress addr)
  | .removeBreakpoint => unary fun addr => do return .removeBreakpoint (← readAddress addr)
  | .breakpoints => bare .breakpoints
  | .setRegister => binary fun reg value => do
    let r ← readRegister reg
    let v ← readValue value
    return .setRegister r v
  | .poke => binary fun addr value => do
    let a ← readAddress addr
    let v ← readValue value
    return .poke a v
  | .peek => unary fun addr => do return .peek (← readAddress addr)

end Keyword

/-- The command that a list of words spells; no words at all ask for one step. -/
def ofWords : List String → Except Refusal Command
  | [] => .ok (.step 1)
  | w :: args =>
    match Keyword.ofWord? w with
    | some k => k.readArguments args
    | none => .error .unknown

/-- Reads a line as a command. -/
def read (line : String) : Except Refusal Command := ofWords (Text.words line)

end Command

namespace Debugger

/-! ### Executing -/

/-- The listing of the next instruction; empty outside the memory. -/
def currentLine (d : Debugger) : String :=
  d.nextLine?.getD ""

/-- A note on the way in which a number of steps ended. -/
def pauseText : Pause → String
  | .halted => "Machine halted.\n"
  | .awaitingInput => "Awaiting input.\n"
  | .spent => ""
  | .faulted f => f.message

/-- Takes a number of steps and shows the output and the next instruction.  After a
fault the output stays uncollected. -/
def stepText (d : Debugger) (count : Nat) : String × Debugger :=
  let bs := d.breakpoints
  match d.machine.advance count with
  | (.faulted f, m) => (pauseText (.faulted f), ⟨m, bs⟩)
  | (pause, m) =>
    let (output, d) := takeOutput ⟨m, bs⟩
    (pauseText pause ++ output ++ d.currentLine, d)

/-- The wording of a stop. -/
def stopText : StopReason → String
  | .breakpoint pc => "Hit breakpoint at " ++ Text.address pc.toNat
  | .halted => "Machine halted."
  | .awaitingInput => "Awaiting input."
  | .stepLimit => "Step limit reached."

/-- Continues and shows the output and the reason for stopping. -/
def resumeText (fuel : Nat) (d : Debugger) : Option (String × Debugger) :=
  (d.resume fuel none).map fun
    | (.ok reason, d) =>
      let (output, d) := d.takeOutput
      (output ++ stopText reason, d)
    | (.error f, d) => (f.message, d)

/-- The breakpoints, one a line. -/
def breakpointText (d : Debugger) : String :=
  if d.breakpoints.isEmpty then "No breakpoints set."
  else "\n".intercalate (d.breakpoints.map (fun a => "  " ++ Text.address a.toNat))

/-- The answer to an edit. -/
def editText (d : Debugger) (done : String) : Except EditError Debugger → String × Debugger
  | .ok d => (done, d)
  | .error e => (e.message, d)

/-- The lines of a listing as one text. -/
def listText (d : Debugger) (addr count : Word) : String :=
  "\n".intercalate ((d.listingAt addr count.toNat).getD [])

/-- There is room for a number of lines that fits in a word. -/
theorem listText_eq (d : Debugger) (addr count : Word) :
    d.listText addr count =
      "\n".intercalate (listing d.machine.core.memory.words.toArray false addr count.toNat) := by
  have hlt := count.toNat_lt
  unfold listText listingAt
  rw [listing?_eq, if_pos (by omega), Option.getD_some]

/-- Executes a command; `none` if the fuel does not suffice for continuing. -/
def perform (fuel : Nat) (d : Debugger) : Command → Option (String × Debugger)
  | .step count => some (d.stepText count)
  | .resume => d.resumeText fuel
  | .report => some (d.report, d)
  | .history => some (d.history 10, d)
  | .list addr count => some (d.listText (addr.getD d.machine.core.pc) count, d)
  | .addBreakpoint a =>
    let (new, d) := d.addBreakpoint a
    some ((if new then "Breakpoint added at " else "Breakpoint already exists at ") ++
      Text.address a.toNat, d)
  | .removeBreakpoint a =>
    let (found, d) := d.removeBreakpoint a
    some ((if found then "Breakpoint removed from " else "No breakpoint at ") ++
      Text.address a.toNat, d)
  | .breakpoints => some (d.breakpointText, d)
  | .setRegister r v =>
    some (d.editText ("r" ++ Text.decimal r.val ++ " = " ++ Text.decimal v.toNat)
      (d.setRegister r.val v))
  | .poke a v =>
    some (d.editText ("[" ++ Text.decimal a.toNat ++ "] = " ++ Text.decimal v.toNat)
      (d.poke a v))
  | .peek a =>
    some ("[" ++ Text.decimal a.toNat ++ "] = " ++
      Text.decimal (d.machine.core.read a).toNat, d)

/-- Reads and executes a line; `none` if the fuel does not suffice for continuing. -/
def command (fuel : Nat) (d : Debugger) (line : String) : Option (String × Debugger) :=
  match Command.read line with
  | .ok c => d.perform fuel c
  | .error r => some (r.message, d)

/-- The events of executing a line. -/
def commandEvents (fuel : Nat) (d : Debugger) (line : String) : List Event :=
  match Command.read line with
  | .ok (.step count) => (d.machine.advanceEvents count #[]).toList
  | .ok .resume => d.resumeEvents fuel none
  | _ => []

end Debugger
end WordMachine
