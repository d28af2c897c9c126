import WordMachine.Trace

/-! # The machine

A machine is a core with an input queue and an output buffer, together with what
is kept about its execution: whether it runs, waits or has halted, how many
instructions it has executed, an optional trace and an optional limit on the length
of one run.

Input is accepted as a whole or not at all: one word above fifteen bits refuses
its batch.  A machine that has halted accepts and ignores everything. -/

namespace WordMachine

/-- Where a machine stands between runs. -/
inductive Mode where
  | running | awaitingInput | halted
  deriving DecidableEq, Repr

/-- A core with its channels and the record of its execution. -/
structure Machine where
  core : Core
  mode : Mode
  /-- The input that no instruction has taken yet. -/
  input : List Word
  /-- The output that nobody has collected yet. -/
  output : Array Word
  trace : Option Trace
  /-- The number of instructions executed so far. -/
  executed : Nat
  /-- The number of instructions that one run may execute. -/
  limit : Option Nat

namespace Machine

/-- A machine at the start of a program. -/
def ofCore (core : Core) : Machine := ⟨core, .running, [], #[], none, 0, none⟩

/-- A machine at the start of the program in a memory. -/
def ofMemory (memory : Memory) : Machine := ofCore (Core.ofMemory memory)

/-- Starts a new trace. -/
def enableTrace (m : Machine) (capacity : Nat) : Machine :=
  { m with trace := some (Trace.ofCapacity capacity) }

/-- Stops tracing. -/
def disableTrace (m : Machine) : Machine := { m with trace := none }

/-- Forgets the lines of the trace. -/
def clearTrace (m : Machine) : Machine := { m with trace := m.trace.map Trace.clear }

/-- Sets the number of instructions that one run may execute. -/
def setLimit (m : Machine) (limit : Option Nat) : Machine := { m with limit }

/-- Sets the instruction pointer. -/
def setPc (m : Machine) (pc : Word) : Machine := { m with core := { m.core with pc } }

/-- The uncollected output, and the machine without it. -/
def takeOutput (m : Machine) : List Word × Machine :=
  (m.output.toList, { m with output := #[] })

/-- Appends a batch of input words. -/
def queue (m : Machine) (ws : List Word) : Except Error Machine :=
  if m.mode = .halted then .ok m
  else match ws.find? (fun w => !w.isNarrow) with
    | some w => .error (.invalidInput w)
    | none => .ok { m with input := m.input ++ ws }

/-- Appends a line of text and a line feed to the input. -/
def queueLine (m : Machine) (text : String) : Except Error Machine :=
  m.queue (Text.lineUnits text)

end Machine
end WordMachine
