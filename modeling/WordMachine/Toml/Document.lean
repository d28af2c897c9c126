import WordMachine.Toml.Reader

/-! # TOML documents

A document is read line by line.  A line is empty, a header that opens a table, or
a key with a value for the table that was opened last.  A value may go on over
several lines. -/

namespace WordMachine.Toml

/-- A document with a part of its lines read. -/
structure Draft where
  root : Entries
  /-- The header under which keys are read now. -/
  header : List String

namespace Reader

/-- A header: its key, and whether it opens one more table of an array. -/
def header : Reader (List String × Bool) := do
  exactly "["
  let double := (← optional (exactly "[")).isSome
  let path ← key
  exactly (if double then "]]" else "]")
  return (path, double)

/-- A key and its value. -/
def pair (fuel : Nat) : Reader (List String × Value) := do
  let path ← key
  exactly "="
  spaces
  return (path, ← value fuel levels)

/-- One line of a document, or more if a value goes on. -/
def line (fuel : Nat) (d : Draft) : Reader Draft := do
  spaces
  match ← peek? with
  | none | some '\n' | some '#' => lineEnd; return d
  | some '[' =>
    let (path, double) ← header
    lineEnd
    match (if double then d.root.openElement path else d.root.openTable path) with
    | some root => return ⟨root, path⟩
    | none => failure
  | _ =>
    let (path, v) ← pair fuel
    lineEnd
    match d.root.insertUnder d.header path v with
    | some root => return { d with root }
    | none => failure

/-- The lines of a document. -/
def lines (fuel : Nat) : Nat → Draft → List Char → Option Entries
  | _, d, [] => some d.root
  | 0, _, _ => none
  | n + 1, d, cs =>
    match line fuel d cs with
    | some (d, rest) => lines fuel n d rest
    | none => none

end Reader

/-- Line ends as single line feeds. -/
def unifyLineEnds : List Char → List Char
  | '\r' :: '\n' :: cs => '\n' :: unifyLineEnds cs
  | c :: cs => c :: unifyLineEnds cs
  | [] => []

/-- A text without the byte-order mark at its front. -/
def dropByteOrderMark : List Char → List Char
  | '\ufeff' :: cs => cs
  | cs => cs

/-- The top-level table of a document, or `none` if the text is no document. -/
def read? (text : String) : Option Entries :=
  let cs := unifyLineEnds (dropByteOrderMark text.toList)
  -- A nested value takes two units of fuel at each opening bracket.
  let fuel := 2 * cs.length + 2
  Reader.lines fuel fuel ⟨[], []⟩ cs

end WordMachine.Toml
