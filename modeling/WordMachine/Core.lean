import WordMachine.Memory
import WordMachine.Instruction

/-! # The core

The part of the machine that instructions compute with: memory, registers, stack
and instruction pointer.  The stack is a list with its top first and serves both
data and return addresses. -/

namespace WordMachine

/-- Memory, registers, stack and instruction pointer. -/
structure Core where
  memory : Memory
  registers : Vector Word 8
  stack : List Word
  pc : Word

namespace Core

/-- The core at the start of a program. -/
def ofMemory (memory : Memory) : Core := ⟨memory, Vector.replicate 8 0, [], 0⟩

/-- The word at an address. -/
def read (c : Core) (addr : Word) : Word := c.memory.read addr.toNat

/-- Writes a word of memory. -/
def write (c : Core) (addr value : Word) : Core :=
  { c with memory := c.memory.write addr.toNat value }

/-- Writes a register. -/
def setRegister (c : Core) (index : Fin 8) (value : Word) : Core :=
  { c with registers := c.registers.set index value }

/-- The register with a given number. -/
def register? (c : Core) (index : Nat) : Option Word := c.registers[index]?

/-- Puts a word on the stack. -/
def push (c : Core) (value : Word) : Core := { c with stack := value :: c.stack }

/-- The word on top of the stack and the core without it. -/
def pop (c : Core) : Except Fault (Word × Core) :=
  match c.stack with
  | value :: rest => .ok (value, { c with stack := rest })
  | [] => .error (.stackUnderflow c.pc)

/-- The value that an operand word denotes. -/
def value (c : Core) (w : Word) : Except Fault Word :=
  match Operand.ofWord? w with
  | some (.literal v) => .ok v
  | some (.register r) => .ok (c.registers.get r)
  | none => .error (.invalidOperand c.pc w)

/-- Stores a value in the place that an operand word names: memory for a literal, else a
register.  A word that names nothing drops the value. -/
def store (c : Core) (dst v : Word) : Core :=
  match Operand.ofWord? dst with
  | some (.literal addr) => c.write addr v
  | some (.register r) => c.setRegister r v
  | none => c

/-- The instruction at the instruction pointer, or the word there if it is no opcode. -/
def fetch (c : Core) : Except Word Instruction := Instruction.decode c.memory.read c.pc

/-- A one-line summary of the core. -/
def summary (c : Core) : String :=
  "VM \x7b pc: " ++ Text.decimal c.pc.toNat ++
    ", registers: [" ++
    ", ".intercalate (c.registers.toList.map (fun w => Text.decimal w.toNat)) ++
    "], stack_depth: " ++ Text.decimal c.stack.length ++
    ", loaded_words: " ++ Text.decimal c.memory.loaded ++ " \x7d"

end Core
end WordMachine
