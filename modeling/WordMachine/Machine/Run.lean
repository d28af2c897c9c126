import WordMachine.Machine.Step

/-! # Runs

A run steps until the program waits for input, halts or fails, and hands out the
output collected by then.  A program need not do any of these: a run without an
instruction limit takes an amount of fuel, the number of steps after which it gives
up with `none`.  With a limit no fuel is needed. -/

namespace WordMachine

/-- How a stretch of execution of bounded length ended. -/
inductive Pause where
  /-- Every step went on, and as many were taken as allowed. -/
  | spent
  | awaitingInput
  | halted
  | faulted (fault : Fault)
  deriving DecidableEq, Repr

/-- The output that a run hands out and the mode that it ended in. -/
structure RunOutput where
  words : List Word
  mode : Mode
  deriving DecidableEq, Repr

namespace RunOutput

/-- The output of a run as text. -/
def text (r : RunOutput) : String := Text.ofWords r.words

end RunOutput

namespace Machine

/-- Takes at most `n` steps, as long as each goes on. -/
def advance : Nat → Machine → Pause × Machine
  | 0, m => (.spent, m)
  | n + 1, m =>
    match m.step with
    | (.ok .advanced, m) => advance n m
    | (.ok .jumped, m) => advance n m
    | (.ok .awaitingInput, m) => (.awaitingInput, m)
    | (.ok .halted, m) => (.halted, m)
    | (.error f, m) => (.faulted f, m)

/-- Runs until the program waits, halts or fails, or the limit is reached; `none` if
there is no limit and the fuel does not suffice.  A failed run keeps its output. -/
def run (fuel : Nat) (m : Machine) : Option (Except Error RunOutput × Machine) :=
  if m.mode = .halted then some (.ok ⟨[], .halted⟩, m)
  else
    let limit := m.limit
    match m.advance (limit.getD fuel) with
    | (.spent, m) => limit.map (fun l => (.error (.instructionLimit l), m))
    | (.faulted f, m) => some (.error (.fault f), m)
    | (_, m) =>
      let (ws, m) := m.takeOutput
      some (.ok ⟨ws, m.mode⟩, m)

/-- Queues a batch of input and runs.  A refused batch is not followed by a run. -/
def runWords (fuel : Nat) (m : Machine) (ws : List Word) :
    Option (Except Error RunOutput × Machine) :=
  match m.queue ws with
  | .ok m => m.run fuel
  | .error e => some (.error e, m)

/-- Queues a line of text and runs. -/
def runLine (fuel : Nat) (m : Machine) (text : String) :
    Option (Except Error RunOutput × Machine) :=
  m.runWords fuel (Text.lineUnits text)

end Machine
end WordMachine
