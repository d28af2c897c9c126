/-! # Numerals

How numbers are written and read.  Addresses are written with at least five
decimal digits and raw words with at least four hexadecimal ones.  A numeral that is
read may carry a plus sign and any number of leading zeros, and is refused when its
value passes a bound.

* `unsigned? base bound` : an optional `+` and at least one digit.
* `number? bound` : hexadecimal after `0x`, decimal otherwise. -/

namespace WordMachine.Text

/-! ### Writing -/

/-- A number in decimal. -/
def decimal (n : Nat) : String := String.ofList (Nat.toDigits 10 n)

/-- A number in lower-case hexadecimal. -/
def hexadecimal (n : Nat) : String := String.ofList (Nat.toDigits 16 n)

/-- Zeros in front of a text up to a width. -/
def zeroPadded (width : Nat) (text : String) : String :=
  String.ofList (List.replicate (width - text.length) '0') ++ text

/-- An address: decimal, at least five digits. -/
def address (n : Nat) : String := zeroPadded 5 (decimal n)

/-- A raw word: hexadecimal, at least four digits. -/
def rawWord (n : Nat) : String := zeroPadded 4 (hexadecimal n)

/-- Spaces behind a text up to a width. -/
def spacePadded (width : Nat) (text : String) : String :=
  text ++ String.ofList (List.replicate (width - text.length) ' ')

/-! ### Reading -/

/-- The value of a digit, letters of either case standing for ten and more. -/
def digitValue? (c : Char) : Option Nat :=
  if '0' ≤ c ∧ c ≤ '9' then some (c.toNat - 48)
  else if 'a' ≤ c ∧ c ≤ 'z' then some (c.toNat - 87)
  else if 'A' ≤ c ∧ c ≤ 'Z' then some (c.toNat - 55)
  else none

/-- The value of a digit below a base. -/
def digit? (base : Nat) (c : Char) : Option Nat :=
  (digitValue? c).filter (· < base)

/-- The value of a digit list, most significant first, read behind the value `acc`. -/
def digits? (base : Nat) : Nat → List Char → Option Nat
  | acc, [] => some acc
  | acc, c :: cs =>
    match digit? base c with
    | some d => digits? base (acc * base + d) cs
    | none => none

/-- A character list without one leading plus sign. -/
def dropPlus : List Char → List Char
  | '+' :: cs => cs
  | cs => cs

/-- An optional plus sign and at least one digit, with a value of at most `bound`. -/
def unsigned? (base bound : Nat) (cs : List Char) : Option Nat :=
  match dropPlus cs with
  | [] => none
  | ds => (digits? base 0 ds).filter (· ≤ bound)

/-- A numeral of value at most `bound`: hexadecimal after `0x`, decimal otherwise. -/
def number? (bound : Nat) (text : String) : Option Nat :=
  match text.toList with
  | '0' :: 'x' :: cs => unsigned? 16 bound cs
  | cs => unsigned? 10 bound cs

end WordMachine.Text
