import WordMachine.Machine.Step

/-! # Instructions effect by effect

The instructions once more, as programs that change the machine while they read it.  The top of the
stack and the head of the input are gone as soon as they are read, each operand is resolved when its turn
comes, and a fault ends the program where it arises: what was changed before it stays changed.  So nothing
in the form of these programs says that a fault leaves no trace.

* `Effect` : programs over a machine.
* `Effect.memory`, `Effect.arithmetic`, `Effect.flow`, `Effect.channel` : the four families.
* `Effect.execute`, `Effect.step` : one operation, and one step. -/

namespace WordMachine

/-- A program over a machine that may fail. -/
abbrev Effect (α : Type) := ExceptT Fault (StateM Machine) α

namespace Effect

/-- The result of a program on a machine, and the machine after it. -/
def on {α : Type} (x : Effect α) (m : Machine) : Except Fault α × Machine := x.run.run m

/-! ### Effects -/

/-- Reads the core. -/
def core : Effect Core := return (← get).core

/-- Changes the core. -/
def modifyCore (f : Core → Core) : Effect Unit := modify fun m => { m with core := f m.core }

/-- Fails if there is no result. -/
def ofExcept {α : Type} : Except Fault α → Effect α
  | .ok a => return a
  | .error f => throw f

/-- Resolves an operand. -/
def resolve (w : Word) : Effect Word := do ofExcept ((← core).value w)

/-- Stores a value in the place that a destination word names. -/
def store (dst v : Word) : Effect Unit := modifyCore fun c => c.store dst v

/-- Sets the instruction pointer. -/
def jump (target : Word) : Effect Unit := modifyCore fun c => { c with pc := target }

/-- Puts a word on the stack. -/
def push (v : Word) : Effect Unit := modifyCore fun c => c.push v

/-- Takes the top of the stack, if there is one. -/
def pop? : Effect (Option Word) := do
  match (← core).stack with
  | v :: rest =>
    modifyCore fun c => { c with stack := rest }
    return some v
  | [] => return none

/-- Takes the top of the stack. -/
def pop : Effect Word := do
  match ← pop? with
  | some v => return v
  | none => throw (.stackUnderflow (← core).pc)

/-- Takes the head of the input, if there is one. -/
def nextInput? : Effect (Option Word) := do
  match (← get).input with
  | v :: rest =>
    modify fun m => { m with input := rest }
    return some v
  | [] => return none

/-- Appends a word to the output. -/
def emit (v : Word) : Effect Unit := modify fun m => { m with output := m.output.push v }

/-- Refuses an opcode. -/
def refuse (op : Opcode) : Effect Outcome := do throw (.unknownOpcode (← core).pc op.toWord)

/-! ### The four families -/

/-- An operation on registers, stack and memory. -/
def memory (op : Opcode) (operands : List Word) : Effect Outcome :=
  match op, operands with
  | .set, dst :: src :: _ => do
    let v ← resolve src
    store dst v
    return .advanced
  | .push, src :: _ => do
    let v ← resolve src
    push v
    return .advanced
  | .pop, dst :: _ => do
    let v ← pop
    store dst v
    return .advanced
  | .rmem, dst :: src :: _ => do
    let addr ← resolve src
    let v := (← core).read addr
    store dst v
    return .advanced
  | .wmem, dst :: src :: _ => do
    let addr ← resolve dst
    let v ← resolve src
    modifyCore fun c => c.write addr v
    return .advanced
  | _, _ => refuse op

/-- An arithmetic operation. -/
def arithmetic (op : Opcode) (operands : List Word) : Effect Outcome :=
  match op, operands with
  | .not, dst :: src :: _ => do
    let x ← resolve src
    store dst (Word.complement x)
    return .advanced
  | op, dst :: left :: right :: _ => do
    let x ← resolve left
    let y ← resolve right
    let v ← ofExcept ((← core).compute op x y)
    store dst v
    return .advanced
  | op, _ => refuse op

/-- A jump that is taken on a condition. -/
def jumpIf (taken : Bool) (target : Word) : Effect Outcome := do
  if taken then
    jump target
    return .jumped
  else
    return .advanced

/-- A jump, call or return. -/
def flow (op : Opcode) (operands : List Word) : Effect Outcome :=
  match op, operands with
  | .jmp, dst :: _ => do
    let target ← resolve dst
    jump target
    return .jumped
  | .jt, cond :: dst :: _ => do
    let x ← resolve cond
    let target ← resolve dst
    jumpIf (x != 0) target
  | .jf, cond :: dst :: _ => do
    let x ← resolve cond
    let target ← resolve dst
    jumpIf (x == 0) target
  | .call, dst :: _ => do
    let target ← resolve dst
    push ((← core).pc + 2)
    jump target
    return .jumped
  | .ret, _ => do
    match ← pop? with
    | some target =>
      jump target
      return .jumped
    | none => return .halted
  | _, _ => refuse op

/-- An output or input. -/
def channel (op : Opcode) (operands : List Word) : Effect Outcome :=
  match op, operands with
  | .output, src :: _ => do
    let v ← resolve src
    emit v
    return .advanced
  | .input, dst :: _ => do
    match ← nextInput? with
    | some v =>
      store dst v
      return .advanced
    | none => return .awaitingInput
  | _, _ => refuse op

/-! ### Instructions -/

/-- An operation by the program of a family. -/
def executeIn (family : Family) (op : Opcode) (operands : List Word) : Effect Outcome :=
  match family with
  | .memory => memory op operands
  | .arithmetic => arithmetic op operands
  | .flow => flow op operands
  | .channel => channel op operands

/-- An operation by the program of its own family. -/
def execute (op : Opcode) (operands : List Word) : Effect Outcome :=
  match op.family? with
  | some family => executeIn family op operands
  | none => return if op = .halt then .halted else .advanced

/-- What follows the execution of an instruction: it moves on, is counted and recorded, unless it waits. -/
def conclude (pc : Word) (i : Instruction) (line? : Option String) (o : Outcome) : Effect Outcome := do
  match o with
  | .advanced => jump (pc + UInt16.ofNat i.size)
  | .jumped => pure ()
  | .awaitingInput =>
    modify fun m => { m with mode := .awaitingInput }
    return o
  | .halted => modify fun m => { m with mode := .halted }
  modify fun m => m.count line?
  return o

/-- Executes the instruction at the instruction pointer. -/
def step : Effect Outcome := do
  if (← get).mode = .halted then return .halted
  modify fun m => { m with mode := .running }
  let c ← core
  match c.fetch with
  | .error w => throw (.unknownOpcode c.pc w)
  | .ok i =>
    let line? := (← get).trace.map fun _ => Trace.line c i
    let o ← execute i.opcode i.operands
    conclude c.pc i line? o

end Effect
end WordMachine
