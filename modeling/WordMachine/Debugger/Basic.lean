import WordMachine.Event
import WordMachine.Listing

/-! # The debugger

A machine with a set of breakpoints.  Continuing stops in front of an instruction
at a breakpoint, but the instruction at which it starts is always executed, so that
continuing from a breakpoint makes progress. -/

namespace WordMachine

/-- Breakpoints in increasing order. -/
abbrev Breakpoints := List Word

namespace Breakpoints

/-- Adds an address, keeping the order. -/
def insert (a : Word) : Breakpoints → Breakpoints
  | [] => [a]
  | b :: bs =>
    if a < b then a :: b :: bs
    else if a = b then b :: bs
    else b :: insert a bs

/-- Removes an address. -/
def remove (a : Word) (bs : Breakpoints) : Breakpoints := bs.filter (fun b => b != a)

theorem mem_insert {a x : Word} {bs : Breakpoints} :
    x ∈ insert a bs ↔ x = a ∨ x ∈ bs := by
  induction bs with
  | nil => simp [insert]
  | cons b bs ih =>
    simp only [insert]
    split
    · simp
    · split
      next heq => simp [heq]
      next => simp [ih, or_left_comm]

theorem mem_remove {a x : Word} {bs : Breakpoints} :
    x ∈ remove a bs ↔ x ∈ bs ∧ x ≠ a := by
  simp [remove]

end Breakpoints

/-- Why continuing stopped. -/
inductive StopReason where
  | breakpoint (pc : Word)
  | halted
  | awaitingInput
  /-- As many steps were taken as allowed. -/
  | stepLimit
  deriving DecidableEq, Repr

/-- Why a register or a word of memory was not set. -/
inductive EditError where
  /-- The value does not fit in fifteen bits. -/
  | wideValue (value : Word)
  | noRegister (index : Nat)
  | outsideMemory (addr : Word)
  deriving DecidableEq, Repr

namespace EditError

/-- The wording of an edit error. -/
def message : EditError → String
  | .wideValue value => "Value " ++ Text.decimal value.toNat ++ " does not fit in 15 bits"
  | .noRegister index => "No register r" ++ Text.decimal index
  | .outsideMemory addr => "Address " ++ Text.decimal addr.toNat ++ " outside memory"

end EditError

/-- A machine with breakpoints. -/
structure Debugger where
  machine : Machine
  breakpoints : Breakpoints

namespace Debugger

/-- The number of trace lines kept for looking back. -/
def historySize : Nat := 100

/-- A debugger without breakpoints. -/
def ofMachine (m : Machine) : Debugger := ⟨m, []⟩

/-- A debugger without breakpoints whose machine is traced. -/
def withHistory (m : Machine) : Debugger :=
  ofMachine (if m.trace.isNone then m.enableTrace historySize else m)

/-- Adds a breakpoint, and tells whether it is new. -/
def addBreakpoint (d : Debugger) (a : Word) : Bool × Debugger :=
  (!d.breakpoints.contains a, { d with breakpoints := d.breakpoints.insert a })

/-- Removes a breakpoint, and tells whether there was one. -/
def removeBreakpoint (d : Debugger) (a : Word) : Bool × Debugger :=
  (d.breakpoints.contains a, { d with breakpoints := d.breakpoints.remove a })

/-- Executes one instruction. -/
def step (d : Debugger) : Except Fault Outcome × Debugger :=
  let bs := d.breakpoints
  let (r, m) := d.machine.step
  (r, ⟨m, bs⟩)

/-- Takes at most `n` steps, up to one that stops or arrives at a breakpoint. -/
def advanceTo (bs : Breakpoints) : Nat → Machine → Except Fault StopReason × Machine
  | 0, m => (.ok .stepLimit, m)
  | n + 1, m =>
    match m.step with
    | (.error f, m) => (.error f, m)
    | (.ok .halted, m) => (.ok .halted, m)
    | (.ok .awaitingInput, m) => (.ok .awaitingInput, m)
    | (.ok _, m) =>
      let pc := m.core.pc
      if bs.contains pc then (.ok (.breakpoint pc), m) else advanceTo bs n m

/-- Continues up to a breakpoint, the end of the program, a wait for input, or
`limit` steps; `none` if there is no limit and the fuel does not suffice. -/
def resume (fuel : Nat) (d : Debugger) (limit : Option Nat) :
    Option (Except Fault StopReason × Debugger) :=
  let bs := d.breakpoints
  match advanceTo bs (limit.getD fuel) d.machine with
  | (.ok .stepLimit, m) => limit.map (fun _ => (.ok .stepLimit, ⟨m, bs⟩))
  | (r, m) => some (r, ⟨m, bs⟩)

/-- Appends a line of text and a line feed to the input of the machine. -/
def feedLine (d : Debugger) (text : String) : Except Error Debugger :=
  (d.machine.queueLine text).map (fun m => { d with machine := m })

/-- Sets a register to a value of fifteen bits. -/
def setRegister (d : Debugger) (index : Nat) (value : Word) : Except EditError Debugger :=
  if !value.isNarrow then .error (.wideValue value)
  else if h : index < 8 then
    .ok { d with machine := { d.machine with
      core := d.machine.core.setRegister ⟨index, h⟩ value } }
  else .error (.noRegister index)

/-- Sets a word of memory. -/
def poke (d : Debugger) (addr value : Word) : Except EditError Debugger :=
  if !addr.isNarrow then .error (.outsideMemory addr)
  else .ok { d with machine := { d.machine with core := d.machine.core.write addr value } }

/-- The number of bytes of a word. -/
def wordBytes : Nat := 2

/-- Words of memory from an address; `none` if there is no room for so many. -/
def peek (d : Debugger) (addr : Word) (count : Nat) : Option (List Word) :=
  withRoom wordBytes count (d.machine.core.memory.slice addr.toNat (addr.toNat + count))

/-- The listing of instructions from an address; `none` if there is no room for so many
lines. -/
def listingAt (d : Debugger) (addr : Word) (count : Nat) : Option (List String) :=
  listing? d.machine.core.memory.words.toArray false addr count

/-- The listing of the next instruction; no line outside the memory. -/
def nextLine? (d : Debugger) : Option String :=
  (d.listingAt d.machine.core.pc 1).bind List.head?

/-- The uncollected output as text, and the debugger without it. -/
def takeOutput (d : Debugger) : String × Debugger :=
  let bs := d.breakpoints
  let (ws, m) := d.machine.takeOutput
  (Text.ofWords ws, ⟨m, bs⟩)

/-- Whether the machine has halted. -/
def isHalted (d : Debugger) : Bool := d.machine.mode = .halted

/-! ### Events -/

/-- The events of at most `n` steps up to one that stops or arrives at a breakpoint,
behind earlier events. -/
def advanceToEvents (bs : Breakpoints) : Nat → Array Event → Machine → Array Event
  | 0, events, _ => events
  | n + 1, events, m =>
    let events := events ++ m.stepEvents
    match m.step with
    | (.error _, _) | (.ok .halted, _) | (.ok .awaitingInput, _) => events
    | (.ok _, m) =>
      let pc := m.core.pc
      if bs.contains pc then events.push (.breakpointHit pc)
      else advanceToEvents bs n events m

/-- The events of continuing. -/
def resumeEvents (fuel : Nat) (d : Debugger) (limit : Option Nat) : List Event :=
  (advanceToEvents d.breakpoints (limit.getD fuel) #[] d.machine).toList

end Debugger
end WordMachine
