import WordMachine.Text.Numeral

/-! # Decimal numbers and the range of binary64

A number with a fraction or an exponent is stored in the format binary64.  Only one thing
about the rounding matters here: which numbers lie beyond the range.

* `Decimal.ofDigits?` : the number that some digits and an exponent spell.
* `Decimal.overflows` : whether the nearest number of the format is infinity. -/

namespace WordMachine.Toml

/-- The number `coefficient * 10 ^ exponent`. -/
structure Decimal where
  coefficient : Nat
  exponent : Int
  deriving DecidableEq, Repr

namespace Decimal

/-- The number with the digits `whole` before the point and `places` behind it, times ten
to the power `exponent`. -/
def ofDigits? (whole places : List Char) (exponent : Int) : Option Decimal :=
  (Text.digits? 10 0 (whole ++ places)).map fun n => ⟨n, exponent - places.length⟩

/-- The position of the first digit: a number other than zero is at least ten to the power
of its magnitude less one, and less than ten to the power of its magnitude. -/
def magnitude (d : Decimal) : Int := (Nat.toDigits 10 d.coefficient).length + d.exponent

/-- The least number that rounds to infinity, `2 ^ 1024 - 2 ^ 970`.  It lies half way
between the largest number of the format, `2 ^ 1024 - 2 ^ 971`, and the next power of two,
and has 309 digits. -/
def overflowBound : Nat := 0x3FFFFFFFFFFFFF <<< 970

/-- Whether a number is at least `bound`. -/
def reaches (bound : Nat) (d : Decimal) : Bool :=
  match d.exponent with
  | .ofNat e => bound ≤ d.coefficient * Nat.pow 10 e
  | .negSucc e => bound * Nat.pow 10 (e + 1) ≤ d.coefficient

/-- Whether a number rounds to infinity.  The magnitude decides it without large powers
of ten unless it is that of the bound. -/
def overflows (d : Decimal) : Bool :=
  if d.coefficient = 0 then false
  else if d.magnitude < 309 then false
  else if 309 < d.magnitude then true
  else d.reaches overflowBound

end Decimal
end WordMachine.Toml
