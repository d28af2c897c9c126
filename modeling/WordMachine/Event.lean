import WordMachine.Machine.Run

/-! # Events

What a machine reports about its work, as data.  Reporting is apart from the work:
the events of an operation are computed from the machine before it, so nothing that
a machine does can depend on them. -/

namespace WordMachine

/-- How important an event is. -/
inductive Level where
  | trace | debug | info
  deriving DecidableEq, Repr

/-- Something worth reporting. -/
inductive Event where
  /-- A program image ends in half a word. -/
  | oddImage (bytes : Nat)
  | imageLoaded (words : Nat)
  | executing (pc : Word) (instruction : Instruction)
  | stackUnderflow (pc : Word)
  /-- A write outside the memory. -/
  | droppedWrite (value addr pc : Word)
  /-- A store through a word that names no place. -/
  | ignoredStore (value dst pc : Word)
  /-- A write over the loaded program. -/
  | programWrite (addr value pc : Word)
  | call (target pc : Word)
  | returnFromTop (pc : Word)
  | awaitingInput (pc : Word)
  | halted (pc : Word) (executed : Nat)
  /-- Input for a machine that has halted. -/
  | inputDiscarded (words : Nat)
  | breakpointHit (pc : Word)
  deriving DecidableEq, Repr

namespace Event

/-- How important an event is. -/
def level : Event → Level
  | .executing _ _ => .trace
  | .imageLoaded _ | .returnFromTop _ | .halted _ _ => .info
  | _ => .debug

/-- The wording of an event. -/
def message : Event → String
  | .oddImage bytes =>
    "Image has odd length " ++ Text.decimal bytes ++ ", padding final word"
  | .imageLoaded words => "Loaded program image: " ++ Text.decimal words ++ " words"
  | .executing pc i => Text.address pc.toNat ++ ": " ++ i.text
  | .stackUnderflow pc => "Stack underflow at " ++ Text.address pc.toNat
  | .droppedWrite value addr pc =>
    "Dropped write of " ++ Text.decimal value.toNat ++ " to address " ++
      Text.decimal addr.toNat ++ " at " ++ Text.address pc.toNat
  | .ignoredStore value dst pc =>
    "Ignored write of " ++ Text.decimal value.toNat ++ " to destination " ++
      Text.decimal dst.toNat ++ " at " ++ Text.address pc.toNat
  | .programWrite addr value pc =>
    "wmem " ++ Text.decimal addr.toNat ++ " := " ++ Text.decimal value.toNat ++ " at " ++
      Text.address pc.toNat
  | .call target pc =>
    "call " ++ Text.address target.toNat ++ " from " ++ Text.address pc.toNat
  | .returnFromTop pc => "ret with empty stack at " ++ Text.address pc.toNat
  | .awaitingInput pc => "Awaiting input at " ++ Text.address pc.toNat
  | .halted pc executed =>
    "Halted at " ++ Text.address pc.toNat ++ " after " ++ Text.decimal executed ++
      " instructions"
  | .inputDiscarded words =>
    "Discarding " ++ Text.decimal words ++ " input words for halted machine"
  | .breakpointHit pc => "Hit breakpoint at " ++ Text.address pc.toNat

end Event

namespace Level

/-- The name of a level. -/
def name : Level → String
  | .trace => "TRACE"
  | .debug => "DEBUG"
  | .info => "INFO"

end Level

/-- An event as one line. -/
def Event.line (e : Event) : String := e.level.name ++ " " ++ e.message

/-! ### Events of loading -/

namespace Memory

/-- The events of loading a list of words. -/
def loadEvents (ws : List Word) : List Event :=
  if ws.length ≤ 32768 then [.imageLoaded ws.length] else []

/-- The events of loading a list of bytes. -/
def loadBytesEvents (bytes : List UInt8) : List Event :=
  (if bytes.length % 2 = 1 then [.oddImage bytes.length] else []) ++
    loadEvents (wordsOfBytes bytes)

/-- The events of loading from a stream. -/
def loadStreamEvents : Except String (List UInt8) → List Event
  | .ok bytes => loadBytesEvents bytes
  | .error _ => []

end Memory

/-! ### Events of execution -/

namespace Core

/-- The events of taking the stack top. -/
def popEvents (c : Core) : List Event :=
  if c.stack.isEmpty then [.stackUnderflow c.pc] else []

/-- The events of a write to memory. -/
def writeEvents (c : Core) (addr value : Word) : List Event :=
  if Memory.isWritable addr.toNat then [] else [.droppedWrite value addr c.pc]

/-- The events of a store through a destination word. -/
def storeEvents (c : Core) (dst v : Word) : List Event :=
  match Operand.ofWord? dst with
  | some (.literal addr) => c.writeEvents addr v
  | some (.register _) => []
  | none => [.ignoredStore v dst c.pc]

/-- The events of carrying out what was planned. -/
def planEvents (c : Core) : Except Fault Action → List Event
  | .ok (.assign dst v) | .ok (.pop dst v) | .ok (.receive dst v) => c.storeEvents dst v
  | .ok (.overwrite addr v) =>
    (if addr.toNat < c.memory.loaded then [.programWrite addr v c.pc] else []) ++
      c.writeEvents addr v
  | .ok (.call target) => [.call target c.pc]
  | .ok .returnFromTop => [.returnFromTop c.pc]
  | .error (.stackUnderflow pc) => [.stackUnderflow pc]
  | _ => []

end Core

namespace Machine

/-- The events of queuing a batch of input. -/
def queueEvents (m : Machine) (ws : List Word) : List Event :=
  if m.mode = .halted then [.inputDiscarded ws.length] else []

/-- The events of executing an operation on its own. -/
def executeEvents (m : Machine) (op : Opcode) (operands : List Word) : List Event :=
  m.core.planEvents (m.plan op operands)

/-- The events of executing an operation by the planner of a given family. -/
def executeInEvents (m : Machine) (family : Family) (op : Opcode) (operands : List Word) :
    List Event :=
  m.core.planEvents (m.core.planIn m.input.head? family op operands)

/-- The events that close a step with a given outcome. -/
def outcomeEvents (m : Machine) : Outcome → List Event
  | .awaitingInput => [.awaitingInput m.core.pc]
  | .halted => [.halted m.core.pc (m.executed + 1)]
  | _ => []

/-- The events of a step. -/
def stepEvents (m : Machine) : List Event :=
  if m.mode = .halted then []
  else match m.core.fetch with
    | .error _ => []
    | .ok i =>
      let planned := m.plan i.opcode i.operands
      .executing m.core.pc i :: m.core.planEvents planned ++
        match planned with
        | .ok a => m.outcomeEvents a.outcome
        | .error _ => []

/-- The events of at most `n` steps, as long as each goes on, behind earlier events. -/
def advanceEvents : Nat → Array Event → Machine → Array Event
  | 0, events, _ => events
  | n + 1, events, m =>
    let events := events ++ m.stepEvents
    match m.step with
    | (.ok .advanced, m) => advanceEvents n events m
    | (.ok .jumped, m) => advanceEvents n events m
    | _ => events

/-- The events of a run. -/
def runEvents (fuel : Nat) (m : Machine) : List Event :=
  if m.mode = .halted then [] else (m.advanceEvents (m.limit.getD fuel) #[]).toList

/-- The events of queuing a batch of input and running. -/
def runWordsEvents (fuel : Nat) (m : Machine) (ws : List Word) : List Event :=
  m.queueEvents ws ++
    match m.queue ws with
    | .ok m => m.runEvents fuel
    | .error _ => []

end Machine
end WordMachine
