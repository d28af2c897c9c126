import WordMachine.Debugger.Command

/-! # The console

The conversation between a program and its user.  The console runs the machine as
far as it goes, prints what it has written, and asks for a line whenever it waits for
input.  Lines are echoed if asked for.  If the user may give debugger commands, a line
that begins with an exclamation mark is one. -/

namespace WordMachine

/-- A line of the user's input. -/
inductive InputLine where
  | text (line : String)
  /-- Bytes that are not UTF-8. -/
  | undecodable
  deriving DecidableEq, Repr

/-- Where a conversation stands. -/
inductive Status where
  | wantsLine
  | finished
  | failed (error : Error)
  deriving DecidableEq, Repr

/-- The machine of a conversation and how lines are treated. -/
structure Console where
  debugger : Debugger
  /-- Whether lines are printed as they are read. -/
  echo : Bool
  /-- Whether lines may be debugger commands. -/
  commands : Bool

/-- What a console has printed by the time it stops, and where it stands then. -/
structure Turn where
  printed : String
  status : Status
  console : Console

/-- A turn that has printed a text before. -/
def Turn.after (t : Turn) (text : String) : Turn := { t with printed := text ++ t.printed }

namespace Console

/-- Where a conversation stands after a run that did not fail. -/
def statusOf : Mode → Status
  | .halted => .finished
  | _ => .wantsLine

/-- The turn that a run makes, behind a text that is printed first. -/
def afterRun (c : Console) (printed : String) : Except Error RunOutput × Machine → Turn
  | (.ok r, m) =>
    ⟨printed ++ r.text, statusOf r.mode, { c with debugger := { c.debugger with machine := m } }⟩
  | (.error e, m) =>
    ⟨printed, .failed e, { c with debugger := { c.debugger with machine := m } }⟩

/-- Goes on until a line is needed or the conversation ends.  Output left by debugger
commands is printed first. -/
def settle (fuel : Nat) (c : Console) : Option Turn :=
  match c.debugger.machine.mode with
  | .halted => some ⟨"", .finished, c⟩
  | .awaitingInput => some ⟨"", .wantsLine, c⟩
  | .running =>
    let (pending, d) := c.debugger.takeOutput
    (d.machine.run fuel).map (fun r => afterRun { c with debugger := d } pending r)

/-- The command in a line, if it may hold one. -/
def command? (c : Console) (line : String) : Option String :=
  match line.toList with
  | '!' :: cs => if c.commands then some (String.ofList cs) else none
  | _ => none

/-- Takes a line, and goes on until the next one is needed or the conversation ends. -/
def accept (fuel : Nat) (c : Console) : InputLine → Option Turn
  | .undecodable =>
    some ⟨"", .failed (.stream "stream did not contain valid UTF-8"), c⟩
  | .text line =>
    match c.command? line with
    | some text => do
      let (answer, d) ← c.debugger.command fuel text
      let turn ← settle fuel { c with debugger := d }
      return turn.after (answer ++ "\n")
    | none =>
      let echoed := if c.echo then line ++ "\n" else ""
      (c.debugger.machine.runLine fuel line).map (afterRun c echoed)

/-- Goes on with the lines of the user for as long as they are asked for. -/
def feed (fuel : Nat) : List InputLine → Turn → Option Turn
  | [], turn => some turn
  | line :: lines, turn =>
    match turn.status with
    | .wantsLine => do
      let next ← turn.console.accept fuel line
      feed fuel lines (next.after turn.printed)
    | _ => some turn

/-- A whole conversation with a user who has the given lines to offer. -/
def converse (fuel : Nat) (c : Console) (lines : List InputLine) : Option Turn := do
  feed fuel lines (← c.settle fuel)

end Console
end WordMachine
