import WordMachine.Text.Pieces

/-! # Blank characters

Commands are split at blanks and settings are trimmed of them.  A blank is any
character with the Unicode property `White_Space`, not only an ASCII one.

* `words` : the maximal blank-free runs of a text, in order.
* `trim` : a text without the blanks at its two ends. -/

namespace WordMachine.Text

/-- Whether a character has the Unicode property `White_Space`. -/
def isBlank (c : Char) : Bool :=
  let n := c.toNat
  (0x9 ≤ n && n ≤ 0xD) || n == 0x20 || n == 0x85 || n == 0xA0 || n == 0x1680 ||
    (0x2000 ≤ n && n ≤ 0x200A) || n == 0x2028 || n == 0x2029 || n == 0x202F ||
    n == 0x205F || n == 0x3000

/-- The words of a text: its pieces between blanks that are not empty. -/
def words (text : String) : List String :=
  ((pieces isBlank text.toList).filter (fun w => !w.isEmpty)).map String.ofList

/-- A character list without the blanks at its end. -/
def dropTrailingBlanks (cs : List Char) : List Char :=
  (cs.reverse.dropWhile isBlank).reverse

/-- A character list without the blanks at its two ends. -/
def trim (cs : List Char) : List Char :=
  dropTrailingBlanks (cs.dropWhile isBlank)

end WordMachine.Text
