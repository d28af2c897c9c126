import WordMachine.Text.Numeral
import WordMachine.Text.Unprintable

/-! # Quoted texts

A text in double quotes.  Quotes and backslashes are escaped, and so are characters
that would not show; everything else stands for itself. -/

namespace WordMachine.Text

/-- A character inside double quotes. -/
def quotedChar (c : Char) : String :=
  match c with
  | '\x00' => "\\0"
  | '\t' => "\\t"
  | '\n' => "\\n"
  | '\r' => "\\r"
  | '\"' => "\\\""
  | '\\' => "\\\\"
  | c => if isUnprintable c then "\\u\x7b" ++ hexadecimal c.toNat ++ "\x7d"
    else String.singleton c

/-- A text in double quotes. -/
def quoted (text : String) : String := "\"" ++ String.join (text.toList.map quotedChar) ++ "\""

end WordMachine.Text
