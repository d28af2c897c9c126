/-! # TOML values

The values of a TOML document and the tables that its lines build up.  A table
remembers how it was written, because that decides what may be added to it later: a
table in braces is closed, a table under a header may not get a second header, and
dotted keys extend only tables that dotted keys made.

* `Entries.insert` : a value under a dotted key.
* `Entries.openTable`, `Entries.openElement` : the headers `[key]` and `[[key]]`.
* `Entries.insertUnder` : a value under a dotted key below a header. -/

namespace WordMachine.Toml

/-- How a table was written. -/
inductive Origin where
  /-- In braces. -/
  | inline
  /-- Under a header of its own. -/
  | header
  /-- Only as the parent of a table with a header. -/
  | implied
  /-- By dotted keys. -/
  | dotted
  deriving DecidableEq, Repr

/-- A TOML value.  Numbers with a fraction and points in time are kept as written. -/
inductive Value where
  | string (text : String)
  | integer (value : Int)
  | float (text : String)
  | boolean (value : Bool)
  | dateTime (text : String)
  | array (elements : List Value)
  | table (origin : Origin) (entries : List (String × Value))
  /-- The tables under headers in double brackets, oldest first. -/
  | tables (elements : List (List (String × Value)))

/-- The contents of a table, in the order of their keys' first mention. -/
abbrev Entries := List (String × Value)

namespace Entries

/-- The value under a key. -/
def find? (es : Entries) (key : String) : Option Value := es.lookup key

/-- Replaces the value under a key, or appends it. -/
def put (key : String) (v : Value) : Entries → Entries
  | [] => [(key, v)]
  | (k, w) :: es => if k = key then (key, v) :: es else (k, w) :: put key v es

/-- Adds a value under a dotted key.  A key holds one value only, and a dotted key goes
through tables that dotted keys made. -/
def insert (v : Value) : List String → Entries → Option Entries
  | [], _ => none
  | [key], es =>
    match es.find? key with
    | none => some (es.put key v)
    | some _ => none
  | key :: path, es =>
    match es.find? key with
    | none => (insert v path []).map (fun sub => es.put key (.table .dotted sub))
    | some (.table .dotted sub) =>
      (insert v path sub).map (fun sub => es.put key (.table .dotted sub))
    | some _ => none

/-- Applies a change below a header: to the table that a path names, the newest one in
an array of tables.  Missing tables on the way are made. -/
def modify (change : String → Entries → Option Entries) :
    List String → Entries → Option Entries
  | [], _ => none
  | [key], es => change key es
  | key :: path, es =>
    match es.find? key with
    | none => (modify change path []).map (fun sub => es.put key (.table .implied sub))
    | some (.table .inline _) => none
    | some (.table origin sub) =>
      (modify change path sub).map (fun sub => es.put key (.table origin sub))
    | some (.tables elements) =>
      match elements.getLast? with
      | some last =>
        (modify change path last).map
          (fun sub => es.put key (.tables (elements.dropLast ++ [sub])))
      | none => none
    | some _ => none

/-- Opens the table of a header. -/
def openTable (path : List String) (es : Entries) : Option Entries :=
  modify (fun key es =>
    match es.find? key with
    | none => some (es.put key (.table .header []))
    | some (.table .implied sub) => some (es.put key (.table .header sub))
    | some _ => none) path es

/-- Opens one more table of a header in double brackets. -/
def openElement (path : List String) (es : Entries) : Option Entries :=
  modify (fun key es =>
    match es.find? key with
    | none => some (es.put key (.tables [[]]))
    | some (.tables elements) => some (es.put key (.tables (elements ++ [[]])))
    | some _ => none) path es

/-- Adds a value under a dotted key to the table of a header. -/
def insertUnder (header path : List String) (v : Value) (es : Entries) : Option Entries :=
  if header.isEmpty then es.insert v path
  else modify (fun key es =>
    match es.find? key with
    | some (.table origin sub) =>
      (insert v path sub).map (fun sub => es.put key (.table origin sub))
    | some (.tables elements) =>
      match elements.getLast? with
      | some last =>
        (insert v path last).map
          (fun sub => es.put key (.tables (elements.dropLast ++ [sub])))
      | none => none
    | _ => none) header es

end Entries
end WordMachine.Toml
