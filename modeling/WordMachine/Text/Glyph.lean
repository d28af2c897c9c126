import WordMachine.Word
import WordMachine.Text.Numeral

/-! # Character codes

The machine prints words as characters and listings quote them.  A word that is no
Unicode scalar value prints as the replacement character; in a listing a control
character is quoted by its code, except for the line feed, which is quoted as `\n`.
Lines of input become UTF-16 units. -/

namespace WordMachine.Text

/-- The character with a given code, if the code is a Unicode scalar value. -/
def scalar? (n : Nat) : Option Char :=
  if h : n.isValidChar then some (Char.ofNatAux n h) else none

/-- Whether a character has the general category `Cc`. -/
def isControl (c : Char) : Bool :=
  let n := c.toNat
  n < 0x20 || (0x7F ≤ n && n < 0xA0)

/-- The character that a word shows as in a listing: control characters have none,
the line feed apart. -/
def printable? (w : Word) : Option Char :=
  (scalar? w.toNat).filter (fun c => !isControl c || c == '\n')

/-- A word quoted as a character. -/
def quoteCode (w : Word) : String :=
  match printable? w with
  | some '\n' => "'\\n'"
  | some c => "'" ++ String.singleton c ++ "'"
  | none => "'\\u\x7b" ++ hexadecimal w.toNat ++ "\x7d'"

/-- The character that a word prints as. -/
def printed (w : Word) : Char := (scalar? w.toNat).getD '\ufffd'

/-- The text that a list of words prints as. -/
def ofWords (ws : List Word) : String := String.ofList (ws.map printed)

/-- A text has one character for each of its words. -/
theorem toList_ofWords (ws : List Word) : (ofWords ws).toList = ws.map printed :=
  String.toList_ofList

/-- The UTF-16 units of a character. -/
def units (c : Char) : List Word :=
  let n := c.toNat
  if n < 0x10000 then [UInt16.ofNat n]
  else [UInt16.ofNat (0xD800 + (n - 0x10000) / 0x400),
    UInt16.ofNat (0xDC00 + (n - 0x10000) % 0x400)]

/-- A line of text as input words: its UTF-16 units and a line feed. -/
def lineUnits (text : String) : List Word := text.toList.flatMap units ++ [10]

end WordMachine.Text
