import WordMachine.Core

/-! # The execution trace

A trace keeps the newest lines of a history of executed instructions, up to its
capacity, and counts all that were ever recorded.  A line shows an instruction with
the values that its operands had just before it was executed. -/

namespace WordMachine

/-- The newest lines of a history. -/
structure Trace where
  /-- The lines kept, oldest first. -/
  lines : Array String
  capacity : Nat
  /-- The number of lines ever recorded. -/
  total : Nat
  capacity_pos : 0 < capacity

namespace Trace

/-- The number of lines kept when nothing else is asked for. -/
def defaultCapacity : Nat := 1024

/-- An empty trace.  A capacity of zero counts as one. -/
def ofCapacity (capacity : Nat) : Trace := ⟨#[], max capacity 1, 0, by omega⟩

/-- Appends a line; a full trace loses its oldest one. -/
def record (t : Trace) (line : String) : Trace :=
  let kept := if t.lines.size = t.capacity then t.lines.extract 1 else t.lines
  { t with lines := kept.push line, total := t.total + 1 }

/-- The newest `n` lines, oldest first. -/
def last (t : Trace) (n : Nat) : List String :=
  t.lines.toList.drop (t.lines.size - n)

/-- Forgets the lines, but not how many there were. -/
def clear (t : Trace) : Trace := { t with lines := #[] }

/-- A destination word in a trace line. -/
def destinationText (w : Word) : String :=
  match Operand.ofWord? w with
  | some (.literal addr) => "[" ++ Text.decimal addr.toNat ++ "]"
  | some (.register r) => "r" ++ Text.decimal r.val
  | none => Operand.badText w

/-- A source word in a trace line: a register is shown with its value. -/
def sourceText (c : Core) (w : Word) : String :=
  match Operand.ofWord? w with
  | some (.literal v) => Text.decimal v.toNat
  | some (.register r) =>
    "r" ++ Text.decimal r.val ++ "=" ++ Text.decimal (c.registers.get r).toNat
  | none => Operand.badText w

/-- The operand words of an instruction in a trace line. -/
def operandTexts (c : Core) (i : Instruction) : List String :=
  match i.operands with
  | [] => []
  | w :: ws =>
    (if i.opcode.storesResult then destinationText w else sourceText c w) ::
      ws.map (sourceText c)

/-- The character that an `out` is about to print. -/
def outputText (c : Core) (i : Instruction) : String :=
  match i.opcode, i.operands with
  | .output, w :: _ =>
    match c.value w with
    | .ok v => " " ++ Text.quoteCode v
    | .error _ => ""
  | _, _ => ""

/-- The trace line of an instruction that is about to be executed. -/
def line (c : Core) (i : Instruction) : String :=
  Text.address i.addr.toNat ++ ": " ++ i.opcode.name ++
    String.join ((operandTexts c i).map (fun s => " " ++ s)) ++ outputText c i

end Trace
end WordMachine
