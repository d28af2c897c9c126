import WordMachine.Opcode
import WordMachine.Operand
import WordMachine.Text.Glyph

/-! # Instructions

An instruction is an opcode word and the operand words that follow it.  Decoding
reads words through a function from addresses, so that it applies alike to the
machine's memory and to a bare list of words. -/

namespace WordMachine

/-- An instruction with its operand words as they stand in memory. -/
structure Instruction where
  /-- The address that the opcode word was read from. -/
  addr : Word
  opcode : Opcode
  operands : List Word
  deriving DecidableEq, Repr

namespace Instruction

/-- The instruction at an address, or the word found there if it is no opcode. -/
def decode (read : Nat → Word) (addr : Word) : Except Word Instruction :=
  let w := read addr.toNat
  match Opcode.ofWord? w with
  | none => .error w
  | some opcode =>
    .ok ⟨addr, opcode, (List.range opcode.arity).map (fun i => read (addr.toNat + 1 + i))⟩

theorem decode_of_none {read : Nat → Word} {addr : Word}
    (h : Opcode.ofWord? (read addr.toNat) = none) :
    decode read addr = .error (read addr.toNat) := by
  unfold decode
  simp only [h]

theorem decode_of_some {read : Nat → Word} {addr : Word} {op : Opcode}
    (h : Opcode.ofWord? (read addr.toNat) = some op) :
    decode read addr =
      .ok ⟨addr, op, (List.range op.arity).map (fun i => read (addr.toNat + 1 + i))⟩ := by
  unfold decode
  simp only [h]

/-- The number of words that an instruction takes. -/
def size (i : Instruction) : Nat := 1 + i.operands.length

/-- The character that an `out` of a literal prints, if a listing can show it. -/
def printedChar? (i : Instruction) : Option Char :=
  match i.opcode, i.operands with
  | .output, w :: _ => if w.isNarrow then Text.printable? w else none
  | _, _ => none

/-- The operand words of an instruction, each behind a space. -/
def operandText (operands : List Word) : String :=
  String.join (operands.map (fun w => " " ++ Operand.textOfWord w))

/-- An instruction as it is written in listings. -/
def text (i : Instruction) : String :=
  let quoted := match i.printedChar?, i.operands with
    | some _, w :: _ => " " ++ Text.quoteCode w
    | _, _ => ""
  i.opcode.name ++ operandText i.operands ++ quoted

end Instruction
end WordMachine
