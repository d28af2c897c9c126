import WordMachine.Word
import WordMachine.Text.Numeral

/-! # Faults and errors

A *fault* stops the program at an instruction and carries the address of that
instruction.  An *error* is a fault or a reason for which a machine was not built,
not fed or not run to an end. -/

namespace WordMachine

/-- What can go wrong in executing one instruction. -/
inductive Fault where
  /-- An operand word that is neither a literal nor a register was used as a value. -/
  | invalidOperand (pc value : Word)
  /-- The stack was empty. -/
  | stackUnderflow (pc : Word)
  /-- The divisor was zero. -/
  | divisionByZero (pc : Word)
  /-- The word at the instruction pointer is no opcode. -/
  | unknownOpcode (pc opcode : Word)
  deriving DecidableEq, Repr

namespace Fault

/-- The address of the instruction that failed. -/
def pc : Fault → Word
  | .invalidOperand pc _ => pc
  | .stackUnderflow pc => pc
  | .divisionByZero pc => pc
  | .unknownOpcode pc _ => pc

/-- The wording of a fault. -/
def message : Fault → String
  | .invalidOperand pc value =>
    "invalid operand " ++ Text.decimal value.toNat ++ " at " ++ Text.address pc.toNat
  | .stackUnderflow pc => "stack underflow at " ++ Text.address pc.toNat
  | .divisionByZero pc => "division by zero at " ++ Text.address pc.toNat
  | .unknownOpcode pc opcode =>
    "unknown opcode " ++ Text.decimal opcode.toNat ++ " at " ++ Text.address pc.toNat

end Fault

/-- Why settings were refused. -/
inductive SettingsError where
  /-- The settings file is no document of the expected shape. -/
  | malformed
  /-- The settings file could not be read. -/
  | unreadable (path reason : String)
  /-- The instruction limit of the environment is no number. -/
  | badLimit (text : String)
  deriving DecidableEq, Repr

namespace SettingsError

/-- The wording of a settings error. -/
def message : SettingsError → String
  | .malformed => "malformed settings"
  | .unreadable path reason => path ++ ": " ++ reason
  | .badLimit text => "SYNACOR_MAX_INSTRUCTIONS: invalid number '" ++ text ++ "'"

end SettingsError

/-- Everything that can go wrong in building, feeding or running a machine. -/
inductive Error where
  | fault (fault : Fault)
  /-- An input word does not fit in fifteen bits. -/
  | invalidInput (value : Word)
  /-- One run executed as many instructions as it was allowed. -/
  | instructionLimit (limit : Nat)
  /-- A program has more words than there are addresses. -/
  | imageTooLarge (words : Nat)
  /-- A stream could not be read. -/
  | stream (reason : String)
  | settings (cause : SettingsError)
  deriving DecidableEq, Repr

namespace Error

/-- The address of the failed instruction, for a fault. -/
def pc? : Error → Option Word
  | .fault f => some f.pc
  | _ => none

/-- The wording of an error. -/
def message : Error → String
  | .fault f => f.message
  | .invalidInput value =>
    "input word " ++ Text.decimal value.toNat ++ " is not a 15-bit value"
  | .instructionLimit limit => "instruction limit of " ++ Text.decimal limit ++ " reached"
  | .imageTooLarge words =>
    "program image of " ++ Text.decimal words ++ " words exceeds the 32768 word address space"
  | .stream reason => "I/O error: " ++ reason
  | .settings cause => "configuration error: " ++ cause.message

end Error
end WordMachine
