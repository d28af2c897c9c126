import WordMachine.Text.Glyph
import WordMachine.Toml.Decimal
import WordMachine.Toml.Value

/-! # Reading TOML values

Readers consume the front of a list of characters and return the rest.  Line ends
are single line feeds here; `Toml.Document` replaces the two-character ones first.
Values nest up to a limit.  Besides the levels that are left, the readers of arrays and
braces take fuel, since these may have any number of elements. -/

namespace WordMachine.Toml

/-- Reads a value off the front of a list of characters. -/
abbrev Reader := StateT (List Char) Option

namespace Reader

/-! ### Characters -/

/-- The characters that only separate: space and tab. -/
def isSpace (c : Char) : Bool := c == ' ' || c == '\t'

/-- The characters that may stand in comments and strings. -/
def isText (c : Char) : Bool := c == '\t' || (0x20 ≤ c.toNat && c.toNat != 0x7F)

/-- The characters of a key without quotes. -/
def isBare (c : Char) : Bool := c.isAlphanum || c == '-' || c == '_'

/-- The next character, left in place. -/
def peek? : Reader (Option Char) := fun cs => some (cs.head?, cs)

/-- Skips spaces and tabs. -/
def spaces : Reader Unit := fun cs => some ((), cs.dropWhile isSpace)

/-- Reads a given text. -/
def exactly (text : String) : Reader Unit := fun cs =>
  if text.toList.isPrefixOf cs then some ((), cs.drop text.length) else none

/-- Reads a character of a class. -/
def satisfying (p : Char → Bool) : Reader Char
  | c :: cs => if p c then some (c, cs) else none
  | [] => none

/-- Reads the longest text of characters of a class. -/
def run (p : Char → Bool) : Reader (List Char) := fun cs =>
  some (cs.takeWhile p, cs.dropWhile p)

/-- Reads with `r`, or leaves the input in place if it fails. -/
def optional {α : Type} (r : Reader α) : Reader (Option α) := fun cs =>
  match r cs with
  | some (a, rest) => some (some a, rest)
  | none => some (none, cs)

/-- Reads with `r`, and also returns the text that it consumes. -/
def withText {α : Type} (r : Reader α) : Reader (α × String) := fun cs =>
  match r cs with
  | some (a, rest) => some ((a, String.ofList (cs.take (cs.length - rest.length))), rest)
  | none => none

/-- Skips a comment, if there is one. -/
def comment : Reader Unit := fun cs =>
  match cs with
  | '#' :: rest => some ((), rest.dropWhile isText)
  | _ => some ((), cs)

/-- Reads the end of a line: spaces, a comment, and a line feed or the end of the text. -/
def lineEnd : Reader Unit := fun cs =>
  match (spaces *> comment) cs with
  | some (_, []) => some ((), [])
  | some (_, '\n' :: rest) => some ((), rest)
  | _ => none

/-- Skips spaces, comments and line feeds. -/
def filler : Nat → Reader Unit
  | 0, cs => some ((), cs)
  | n + 1, cs =>
    match cs.dropWhile (fun c => isSpace c || c == '\n') with
    | '#' :: rest => filler n (rest.dropWhile isText)
    | rest => some ((), rest)

/-! ### Strings -/

/-- The character that a letter behind a backslash stands for. -/
def escape? : Char → Option Char
  | 'b' => some '\x08'
  | 't' => some '\t'
  | 'n' => some '\n'
  | 'f' => some '\x0c'
  | 'r' => some '\r'
  | '\"' => some '\"'
  | '\\' => some '\\'
  | _ => none

/-- The character whose code some hexadecimal digits spell. -/
def coded? (digits : List Char) : Option Char :=
  (Text.digits? 16 0 digits).bind Text.scalar?

/-- The rest of a string in double quotes. -/
def quotedBody : Reader (List Char)
  | '\"' :: rest => some ([], rest)
  | '\\' :: 'u' :: a :: b :: c :: d :: rest => do
    let x ← coded? [a, b, c, d]
    let (xs, rest) ← quotedBody rest
    return (x :: xs, rest)
  | '\\' :: 'U' :: a :: b :: c :: d :: e :: f :: g :: h :: rest => do
    let x ← coded? [a, b, c, d, e, f, g, h]
    let (xs, rest) ← quotedBody rest
    return (x :: xs, rest)
  | '\\' :: e :: rest => do
    let x ← escape? e
    let (xs, rest) ← quotedBody rest
    return (x :: xs, rest)
  | x :: rest =>
    if isText x && x != '\\' then do
      let (xs, rest) ← quotedBody rest
      return (x :: xs, rest)
    else none
  | [] => none

/-- The rest of a string in single quotes. -/
def literalBody : Reader (List Char)
  | '\'' :: rest => some ([], rest)
  | x :: rest =>
    if isText x then do
      let (xs, rest) ← literalBody rest
      return (x :: xs, rest)
    else none
  | [] => none

/-- The end of a string of several lines: three quotes, with at most two more in front
that belong to the string. -/
def closing? (quote : Char) (cs : List Char) : Option (List Char × List Char) :=
  let quotes := (cs.takeWhile (· == quote)).length
  if quotes < 3 then none
  else
    let extra := min (quotes - 3) 2
    some (List.replicate extra quote, cs.drop (extra + 3))

/-- The rest of a string of several lines in single quotes. -/
def literalLines (cs : List Char) : Option (List Char × List Char) :=
  match closing? '\'' cs with
  | some r => some r
  | none =>
    match cs with
    | x :: rest =>
      if isText x || x == '\n' then do
        let (xs, rest) ← literalLines rest
        return (x :: xs, rest)
      else none
    | [] => none

/-- What follows a backslash at the end of a line: the text behind all white space. -/
def continued? (cs : List Char) : Option (List Char) :=
  match cs.dropWhile isSpace with
  | '\n' :: rest => some (rest.dropWhile (fun c => isSpace c || c == '\n'))
  | _ => none

/-- The rest of a string of several lines in double quotes. -/
def quotedLines : Nat → Reader (List Char)
  | 0, _ => none
  | n + 1, cs =>
    match closing? '\"' cs with
    | some r => some r
    | none =>
      match cs with
      | '\\' :: rest =>
        match continued? rest with
        | some rest => quotedLines n rest
        | none =>
          match rest with
          | 'u' :: a :: b :: c :: d :: rest => do
            let x ← coded? [a, b, c, d]
            let (xs, rest) ← quotedLines n rest
            return (x :: xs, rest)
          | 'U' :: a :: b :: c :: d :: e :: f :: g :: h :: rest => do
            let x ← coded? [a, b, c, d, e, f, g, h]
            let (xs, rest) ← quotedLines n rest
            return (x :: xs, rest)
          | e :: rest => do
            let x ← escape? e
            let (xs, rest) ← quotedLines n rest
            return (x :: xs, rest)
          | [] => none
      | x :: rest =>
        if isText x || x == '\n' then do
          let (xs, rest) ← quotedLines n rest
          return (x :: xs, rest)
        else none
      | [] => none

/-- The rest of a string of several lines without the line feed that opens it. -/
def dropLineFeed : List Char → List Char
  | '\n' :: cs => cs
  | cs => cs

/-- A string of one line in either kind of quotes. -/
def lineString : Reader (List Char)
  | '\"' :: rest => quotedBody rest
  | '\'' :: rest => literalBody rest
  | _ => none

/-- A string in any of its four forms. -/
def string : Reader String := fun cs => do
  let (xs, rest) ← match cs with
    | '\"' :: '\"' :: '\"' :: rest =>
      let body := dropLineFeed rest
      quotedLines (body.length + 1) body
    | '\'' :: '\'' :: '\'' :: rest => literalLines (dropLineFeed rest)
    | cs => lineString cs
  return (String.ofList xs, rest)

/-! ### Keys -/

/-- One part of a key. -/
def keyPart : Reader String := do
  match ← peek? with
  | some '\"' | some '\'' => return String.ofList (← lineString)
  | _ =>
    let cs ← run isBare
    if cs.isEmpty then failure else return String.ofList cs

/-- The number of levels that a document may have: of parts in a key, and of brackets and
braces that are open at once in a value. -/
def levels : Nat := 79

/-- A key of at most so many parts, with points between them and spaces around each. -/
def keyUpTo : Nat → Reader (List String)
  | 0 => failure
  | n + 1 => do
    spaces
    let part ← keyPart
    spaces
    match ← peek? with
    | some '.' =>
      exactly "."
      return part :: (← keyUpTo n)
    | _ => return [part]

/-- A key. -/
def key : Reader (List String) := keyUpTo levels

/-! ### Numbers -/

/-- Digits of a class, with single underscores between them. -/
def moreDigits (p : Char → Bool) : List Char → List Char × List Char
  | '_' :: c :: rest =>
    if p c then
      let (ds, rest) := moreDigits p rest
      (c :: ds, rest)
    else ([], '_' :: c :: rest)
  | c :: rest =>
    if p c then
      let (ds, rest) := moreDigits p rest
      (c :: ds, rest)
    else ([], c :: rest)
  | [] => ([], [])

/-- At least one digit of a class, with single underscores between digits. -/
def digitRun (p : Char → Bool) : Reader (List Char) := do
  let c ← satisfying p
  let ds ← fun cs => some (moreDigits p cs)
  return c :: ds

/-- A sign: whether it is a minus. -/
def sign : Reader Bool := do
  match ← peek? with
  | some '+' => exactly "+"; return false
  | some '-' => exactly "-"; return true
  | _ => return false

/-- A decimal number without leading zeros. -/
def decimalDigits : Reader (List Char) := do
  match ← peek? with
  | some '0' => exactly "0"; return ['0']
  | _ => digitRun Char.isDigit

/-- The number that digits of a base spell, if it is an integer of 64 bits. -/
def integerOf (base : Nat) (negative : Bool) (ds : List Char) : Reader Value := do
  match Text.digits? base 0 ds with
  | some n =>
    if negative then
      if n ≤ 0x8000000000000000 then return .integer (-(n : Int)) else failure
    else if n < 0x8000000000000000 then return .integer n
    else failure
  | none => failure

/-- Whether a character is a digit of a base. -/
def isDigitOf (base : Nat) (c : Char) : Bool := (Text.digit? base c).isSome

/-- An integer: signed decimal, or unsigned in one of three other bases. -/
def integer : Reader Value := fun cs =>
  match cs with
  | '0' :: 'x' :: rest => (digitRun (isDigitOf 16) >>= integerOf 16 false) rest
  | '0' :: 'o' :: rest => (digitRun (isDigitOf 8) >>= integerOf 8 false) rest
  | '0' :: 'b' :: rest => (digitRun (isDigitOf 2) >>= integerOf 2 false) rest
  | cs => (do
      let negative ← sign
      let ds ← decimalDigits
      integerOf 10 negative ds : Reader Value) cs

/-- The exponent of a number. -/
def exponent : Reader Int := do
  let _ ← satisfying (fun c => c == 'e' || c == 'E')
  let negative ← sign
  let ds ← digitRun Char.isDigit
  match Text.digits? 10 0 ds with
  | some n => return if negative then -(n : Int) else n
  | none => failure

/-- The digits behind a decimal point. -/
def fraction : Reader (List Char) := do
  exactly "."
  digitRun Char.isDigit

/-- A number with a fraction or an exponent, without its sign. -/
def decimal : Reader Decimal := do
  let whole ← decimalDigits
  let scaled : Reader (Option Decimal) := do
    return Decimal.ofDigits? whole [] (← exponent)
  let pointed : Reader (Option Decimal) := do
    let places ← fraction
    let e ← optional exponent
    return Decimal.ofDigits? whole places (e.getD 0)
  match ← scaled <|> pointed with
  | some d => return d
  | none => failure

/-- A number with a fraction or an exponent, or one of the two special words.  A number
above the range of binary64 is refused; one below it counts as infinite. -/
def float : Reader Value := do
  let number : Reader Unit := do
    let negative ← sign
    let special := exactly "inf" <|> exactly "nan"
    let finite : Reader Unit := do
      let d ← decimal
      if d.overflows && !negative then failure else return
    special <|> finite
  return .float (← withText number).2

/-! ### Points in time -/

/-- A number of exactly `n` digits. -/
def fixedDigits : Nat → Nat → Reader Nat
  | 0, acc => return acc
  | n + 1, acc => do
    let c ← satisfying Char.isDigit
    fixedDigits n (acc * 10 + (c.toNat - 48))

/-- A number of two digits in a range. -/
def twoDigits (least most : Nat) : Reader Nat := do
  let n ← fixedDigits 2 0
  if least ≤ n && n ≤ most then return n else failure

/-- The number of days of a month. -/
def daysIn (year month : Nat) : Nat :=
  if month = 2 then
    if year % 4 = 0 && (year % 100 != 0 || year % 400 = 0) then 29 else 28
  else if month = 4 || month = 6 || month = 9 || month = 11 then 30
  else 31

/-- A calendar date. -/
def date : Reader Unit := do
  let year ← fixedDigits 4 0
  exactly "-"
  let month ← twoDigits 1 12
  exactly "-"
  let _ ← twoDigits 1 (daysIn year month)
  return

/-- A time of day; a minute may have a leap second. -/
def time : Reader Unit := do
  let _ ← twoDigits 0 23
  exactly ":"
  let _ ← twoDigits 0 59
  exactly ":"
  let _ ← twoDigits 0 60
  let _ ← optional do
    exactly "."
    let _ ← satisfying Char.isDigit
    let _ ← run Char.isDigit
    return
  return

/-- The distance of a time from universal time. -/
def offset : Reader Unit := do
  let c ← satisfying (fun c => c == 'Z' || c == 'z' || c == '+' || c == '-')
  if c == 'Z' || c == 'z' then return
  else
    let _ ← twoDigits 0 23
    exactly ":"
    let _ ← twoDigits 0 59
    return

/-- A date, a time, or both. -/
def dateTime : Reader Value := do
  let dated : Reader Unit := do
    date
    let _ ← optional do
      let _ ← satisfying (fun c => c == 'T' || c == 't' || c == ' ')
      time
      let _ ← optional offset
      return
    return
  return .dateTime (← withText (dated <|> time)).2

/-! ### Values -/

mutual

/-- A value that may open so many levels. -/
def value : Nat → Nat → Reader Value
  | 0, _ => failure
  | n + 1, room => do
    match ← peek? with
    | some '\"' | some '\'' => return .string (← string)
    | some '[' =>
      exactly "["
      match room with
      | 0 => failure
      | room + 1 => return .array (← elements n room)
    | some '\x7b' =>
      exactly "\x7b"
      spaces
      match room with
      | 0 => failure
      | room + 1 =>
        match ← peek? with
        | some '\x7d' => exactly "\x7d"; return .table .inline []
        | _ => return .table .inline (← pairs n room [])
    | some 't' => exactly "true"; return .boolean true
    | some 'f' => exactly "false"; return .boolean false
    | _ => dateTime <|> float <|> integer

/-- The rest of an array. -/
def elements : Nat → Nat → Reader (List Value)
  | 0, _ => failure
  | n + 1, room => do
    filler n
    match ← peek? with
    | some ']' => exactly "]"; return []
    | _ =>
      let v ← value n room
      filler n
      match ← peek? with
      | some ',' =>
        exactly ","
        return v :: (← elements n room)
      | _ => exactly "]"; return [v]

/-- The rest of a table in braces, behind the entries read so far. -/
def pairs : Nat → Nat → Entries → Reader Entries
  | 0, _, _ => failure
  | n + 1, room, es => do
    let path ← key
    exactly "="
    spaces
    let v ← value n room
    spaces
    match es.insert v path with
    | none => failure
    | some es =>
      match ← peek? with
      | some ',' => exactly ","; pairs n room es
      | _ => exactly "\x7d"; return es

end

end Reader
end WordMachine.Toml
