import WordMachine.Core

/-! # Actions

Executing an instruction has two halves.  *Planning* reads the operands, the stack
top and the head of the input, and either fails or settles on an action.
*Performing* the action changes the machine and cannot fail.  A fault therefore
leaves no trace of the instruction behind.

Each family of operations has its own planner, which refuses the opcodes of the
other families. -/

namespace WordMachine

/-- What an instruction does once its operands are known. -/
inductive Action where
  /-- Stop for good. -/
  | halt
  /-- Return with an empty stack, which stops the machine for good. -/
  | returnFromTop
  /-- Do nothing. -/
  | skip
  /-- Store a value in the place that a destination word names. -/
  | assign (dst value : Word)
  /-- Put a value on the stack. -/
  | push (value : Word)
  /-- Move the stack top to a destination. -/
  | pop (dst value : Word)
  /-- Write a word of memory. -/
  | overwrite (addr value : Word)
  /-- Go on at another address. -/
  | jump (target : Word)
  /-- Put the return address on the stack and go on at another address. -/
  | call (target : Word)
  /-- Take the return address from the stack and go on there. -/
  | ret (target : Word)
  /-- Append a word to the output. -/
  | emit (value : Word)
  /-- Move the head of the input to a destination. -/
  | receive (dst value : Word)
  /-- Wait for input. -/
  | await
  deriving DecidableEq, Repr

namespace Core

/-- The refusal of an opcode. -/
def refuse (c : Core) (op : Opcode) : Except Fault Action :=
  .error (.unknownOpcode c.pc op.toWord)

/-- Plans an operation on registers, stack and memory. -/
def planMemory (c : Core) (op : Opcode) (operands : List Word) : Except Fault Action :=
  match op, operands with
  | .set, dst :: src :: _ => do
    let v ← c.value src
    return .assign dst v
  | .push, src :: _ => do
    let v ← c.value src
    return .push v
  | .pop, dst :: _ =>
    match c.stack with
    | v :: _ => .ok (.pop dst v)
    | [] => .error (.stackUnderflow c.pc)
  | .rmem, dst :: src :: _ => do
    let addr ← c.value src
    return .assign dst (c.read addr)
  | .wmem, dst :: src :: _ => do
    let addr ← c.value dst
    let v ← c.value src
    return .overwrite addr v
  | _, _ => c.refuse op

/-- The result of an arithmetic operation on two values. -/
def compute (c : Core) (op : Opcode) (x y : Word) : Except Fault Word :=
  match op with
  | .eq => .ok (if x = y then 1 else 0)
  | .gt => .ok (if y < x then 1 else 0)
  | .add => .ok (Word.sum x y)
  | .mult => .ok (Word.product x y)
  | .mod => if y = 0 then .error (.divisionByZero c.pc) else .ok (x % y)
  | .and => .ok (x &&& y)
  | .or => .ok (x ||| y)
  | _ => .error (.unknownOpcode c.pc op.toWord)

/-- Plans an arithmetic operation.  The two sources are read before the opcode is
looked at, except for the complement, which has one source only. -/
def planArithmetic (c : Core) (op : Opcode) (operands : List Word) : Except Fault Action :=
  match op, operands with
  | .not, dst :: src :: _ => do
    let x ← c.value src
    return .assign dst (Word.complement x)
  | op, dst :: left :: right :: _ => do
    let x ← c.value left
    let y ← c.value right
    let v ← c.compute op x y
    return .assign dst v
  | op, _ => c.refuse op

/-- Plans a jump, call or return.  A conditional jump reads its target also when it is
not taken. -/
def planFlow (c : Core) (op : Opcode) (operands : List Word) : Except Fault Action :=
  match op, operands with
  | .jmp, dst :: _ => do
    let target ← c.value dst
    return .jump target
  | .jt, cond :: dst :: _ => do
    let x ← c.value cond
    let target ← c.value dst
    return if x = 0 then .skip else .jump target
  | .jf, cond :: dst :: _ => do
    let x ← c.value cond
    let target ← c.value dst
    return if x = 0 then .jump target else .skip
  | .call, dst :: _ => do
    let target ← c.value dst
    return .call target
  | .ret, _ =>
    match c.stack with
    | target :: _ => .ok (.ret target)
    | [] => .ok .returnFromTop
  | _, _ => c.refuse op

/-- Plans an output or input; `next?` is the head of the input. -/
def planChannel (c : Core) (next? : Option Word) (op : Opcode) (operands : List Word) :
    Except Fault Action :=
  match op, operands with
  | .output, src :: _ => do
    let v ← c.value src
    return .emit v
  | .input, dst :: _ =>
    match next? with
    | some v => .ok (.receive dst v)
    | none => .ok .await
  | _, _ => c.refuse op

/-- Plans an operation by the planner of a family. -/
def planIn (c : Core) (next? : Option Word) (family : Family) (op : Opcode)
    (operands : List Word) : Except Fault Action :=
  match family with
  | .memory => c.planMemory op operands
  | .arithmetic => c.planArithmetic op operands
  | .flow => c.planFlow op operands
  | .channel => c.planChannel next? op operands

/-- Plans an operation by the planner of its own family. -/
def plan (c : Core) (next? : Option Word) (op : Opcode) (operands : List Word) :
    Except Fault Action :=
  match op.family? with
  | some family => c.planIn next? family op operands
  | none => .ok (if op = .halt then .halt else .skip)

end Core
end WordMachine
