import WordMachine.Word

/-! # Opcodes

The twenty-two operations, their numbers, mnemonics and operand counts, and the
family of operations that each belongs to. -/

namespace WordMachine

/-- The operations of the machine. -/
inductive Opcode where
  | halt | set | push | pop | eq | gt | jmp | jt | jf | add | mult | mod
  | and | or | not | rmem | wmem | call | ret | output | input | noop
  deriving DecidableEq, Repr

/-- The families of operations that are executed alike. -/
inductive Family where
  | memory | arithmetic | flow | channel
  deriving DecidableEq, Repr

namespace Opcode

/-- Every opcode, in the order of their numbers. -/
def all : List Opcode :=
  [.halt, .set, .push, .pop, .eq, .gt, .jmp, .jt, .jf, .add, .mult, .mod,
    .and, .or, .not, .rmem, .wmem, .call, .ret, .output, .input, .noop]

/-- The word that encodes an opcode. -/
def toWord : Opcode → Word
  | .halt => 0
  | .set => 1
  | .push => 2
  | .pop => 3
  | .eq => 4
  | .gt => 5
  | .jmp => 6
  | .jt => 7
  | .jf => 8
  | .add => 9
  | .mult => 10
  | .mod => 11
  | .and => 12
  | .or => 13
  | .not => 14
  | .rmem => 15
  | .wmem => 16
  | .call => 17
  | .ret => 18
  | .output => 19
  | .input => 20
  | .noop => 21

/-- The opcode that a word encodes. -/
def ofWord? (w : Word) : Option Opcode := all[w.toNat]?

/-- The mnemonic of an opcode. -/
def name : Opcode → String
  | .halt => "halt"
  | .set => "set"
  | .push => "push"
  | .pop => "pop"
  | .eq => "eq"
  | .gt => "gt"
  | .jmp => "jmp"
  | .jt => "jt"
  | .jf => "jf"
  | .add => "add"
  | .mult => "mult"
  | .mod => "mod"
  | .and => "and"
  | .or => "or"
  | .not => "not"
  | .rmem => "rmem"
  | .wmem => "wmem"
  | .call => "call"
  | .ret => "ret"
  | .output => "out"
  | .input => "in"
  | .noop => "noop"

/-- The opcode with a given mnemonic, in either case of the ASCII letters. -/
def ofName? (text : String) : Option Opcode :=
  let lower := String.ofList (text.toList.map Char.toLower)
  all.find? (fun op => op.name == lower)

/-- The number of operand words. -/
def arity : Opcode → Nat
  | .halt | .ret | .noop => 0
  | .push | .pop | .jmp | .call | .output | .input => 1
  | .set | .jt | .jf | .not | .rmem | .wmem => 2
  | .eq | .gt | .add | .mult | .mod | .and | .or => 3

/-- Whether the first operand names the place that the result is stored in. -/
def storesResult : Opcode → Bool
  | .set | .pop | .eq | .gt | .add | .mult | .mod | .and | .or | .not | .rmem | .input => true
  | _ => false

/-- The family of an opcode; `halt` and `noop` belong to none. -/
def family? : Opcode → Option Family
  | .set | .push | .pop | .rmem | .wmem => some .memory
  | .eq | .gt | .add | .mult | .mod | .and | .or | .not => some .arithmetic
  | .jmp | .jt | .jf | .call | .ret => some .flow
  | .output | .input => some .channel
  | .halt | .noop => none

/-- The number of an opcode encodes it. -/
@[simp] theorem ofWord?_toWord (op : Opcode) : ofWord? op.toWord = some op := by
  cases op <;> rfl

end Opcode
end WordMachine
