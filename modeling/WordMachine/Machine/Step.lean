import WordMachine.Action
import WordMachine.Machine.Basic

/-! # Steps

One step executes the instruction at the instruction pointer.  A step that waits
for input leaves the instruction pointer in place and is not counted; a step that
fails changes nothing but the mode, which is running again. -/

namespace WordMachine

/-- How the execution of one instruction ended. -/
inductive Outcome where
  /-- Execution goes on behind the instruction. -/
  | advanced
  /-- The instruction set the instruction pointer itself. -/
  | jumped
  /-- The instruction waits for input. -/
  | awaitingInput
  | halted
  deriving DecidableEq, Repr

namespace Action

/-- How an action ends. -/
def outcome : Action → Outcome
  | .halt | .returnFromTop => .halted
  | .jump _ | .call _ | .ret _ => .jumped
  | .await => .awaitingInput
  | _ => .advanced

end Action

namespace Core

/-- The core after an action.  The instruction pointer moves only if the action sets it. -/
def perform (c : Core) : Action → Core
  | .assign dst v => c.store dst v
  | .push v => c.push v
  | .pop dst v => { c with stack := c.stack.tail }.store dst v
  | .overwrite addr v => c.write addr v
  | .jump target => { c with pc := target }
  | .call target => { c with stack := (c.pc + 2) :: c.stack, pc := target }
  | .ret target => { c with stack := c.stack.tail, pc := target }
  | .receive dst v => c.store dst v
  | .halt | .returnFromTop | .skip | .emit _ | .await => c

end Core

namespace Machine

/-- The machine after an action. -/
def perform (m : Machine) (a : Action) : Machine :=
  let m := { m with core := m.core.perform a }
  match a with
  | .emit v => { m with output := m.output.push v }
  | .receive _ _ => { m with input := m.input.tail }
  | _ => m

/-- What an operation would do, planned by the planner of its own family. -/
def plan (m : Machine) (op : Opcode) (operands : List Word) : Except Fault Action :=
  m.core.plan m.input.head? op operands

/-- Performs what was planned: the outcome of the action, or the fault. -/
def carryOut (m : Machine) : Except Fault Action → Except Fault Outcome × Machine
  | .ok a => (.ok a.outcome, m.perform a)
  | .error f => (.error f, m)

/-- Executes an operation on its own, without moving on, counting or tracing. -/
def execute (m : Machine) (op : Opcode) (operands : List Word) :
    Except Fault Outcome × Machine :=
  m.carryOut (m.plan op operands)

/-- Executes an operation by the planner of a given family. -/
def executeIn (m : Machine) (family : Family) (op : Opcode) (operands : List Word) :
    Except Fault Outcome × Machine :=
  m.carryOut (m.core.planIn m.input.head? family op operands)

/-- Counts an executed instruction and records its trace line. -/
def count (m : Machine) (line? : Option String) : Machine :=
  let trace := match m.trace, line? with
    | some t, some line => some (t.record line)
    | t, _ => t
  { m with executed := m.executed + 1, trace }

/-- Moves the instruction pointer on by a number of words. -/
def moveOn (m : Machine) (size : Nat) : Machine :=
  { m with core := { m.core with pc := m.core.pc + UInt16.ofNat size } }

/-- Performs an action of the instruction at the instruction pointer: moves on, counts
it and records its trace line, unless it waits. -/
def complete (m : Machine) (i : Instruction) (a : Action) : Machine :=
  let line? := m.trace.map (fun _ => Trace.line m.core i)
  let m := m.perform a
  match a.outcome with
  | .advanced => (m.moveOn i.size).count line?
  | .jumped => m.count line?
  | .halted => { m with mode := .halted }.count line?
  | .awaitingInput => { m with mode := .awaitingInput }

/-- Executes the instruction at the instruction pointer. -/
def step (m : Machine) : Except Fault Outcome × Machine :=
  if m.mode = .halted then (.ok .halted, m)
  else
    let m := { m with mode := .running }
    match m.core.fetch with
    | .error w => (.error (.unknownOpcode m.core.pc w), m)
    | .ok i =>
      match m.plan i.opcode i.operands with
      | .error f => (.error f, m)
      | .ok a => (.ok a.outcome, m.complete i a)

end Machine
end WordMachine
