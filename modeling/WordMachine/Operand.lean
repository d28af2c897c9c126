import WordMachine.Word
import WordMachine.Text.Numeral

/-! # Operands

An operand word below `2 ^ 15` is a literal, the next eight words name the
registers, and the rest name nothing. -/

namespace WordMachine

/-- What an operand word names. -/
inductive Operand where
  | literal (value : Word)
  | register (index : Fin 8)
  deriving DecidableEq, Repr

namespace Operand

/-- The operand that a word encodes. -/
def ofWord? (w : Word) : Option Operand :=
  if w.toNat < 32768 then some (.literal w)
  else if h : w.toNat < 32776 then some (.register ⟨w.toNat - 32768, by omega⟩)
  else none

/-- The word that encodes an operand. -/
def toWord : Operand → Word
  | .literal value => value
  | .register index => UInt16.ofNat (32768 + index.val)

/-- An operand as it is written in listings. -/
def text : Operand → String
  | .literal value => Text.decimal value.toNat
  | .register index => "r" ++ Text.decimal index.val

/-- A word that encodes no operand, as it is written in listings. -/
def badText (w : Word) : String := "<bad " ++ Text.decimal w.toNat ++ ">"

/-- An operand word as it is written in listings. -/
def textOfWord (w : Word) : String :=
  match ofWord? w with
  | some operand => operand.text
  | none => badText w

end Operand
end WordMachine
