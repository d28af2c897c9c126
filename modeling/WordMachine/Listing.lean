import WordMachine.Instruction
import WordMachine.Room

/-! # Listings

A listing shows a list of words as instructions, one a line.  A word that is no
opcode is listed as data, and the next line starts at the word behind it.

* `lineStarts` : the positions at which the lines of a listing start.
* `listing`, `listingUpTo` : the lines for a number of instructions, or for a range.
* `listing?` : the lines for a number of instructions, if there is room for so many.

Line addresses have sixteen bits; a longer list of words shows its positions modulo
`2 ^ 16`. -/

namespace WordMachine

namespace Listing

/-- The word at a position; zero behind the end. -/
def wordAt (ws : Array Word) (a : Nat) : Word := ws.getD a 0

/-- The address that a position is listed under. -/
def lineAddr (a : Nat) : Word := UInt16.ofNat a

/-- The number of words that the line at an address covers. -/
def lineSize (ws : Array Word) (addr : Word) : Nat :=
  match Instruction.decode (wordAt ws) addr with
  | .ok i => i.size
  | .error _ => 1

/-- The words of an instruction that lie inside the list. -/
def coveredWords (ws : Array Word) (start size : Nat) : List Word :=
  (ws.extract start (start + size)).toList

/-- The column of raw words. -/
def rawColumn (ws : List Word) : String :=
  Text.spacePadded 24 (" ".intercalate (ws.map (fun w => Text.rawWord w.toNat)))

/-- A data word as it is written in listings. -/
def dataText (w : Word) : String :=
  ".word " ++ Text.decimal w.toNat ++ if w ≤ 0x7F then " " ++ Text.quoteCode w else ""

/-- The line at an address, with the column of raw words if `raw`. -/
def line (ws : Array Word) (raw : Bool) (addr : Word) : String :=
  let shown : String × List Word :=
    match Instruction.decode (wordAt ws) addr with
    | .ok i => (i.text, coveredWords ws addr.toNat i.size)
    | .error w => (dataText w, [w])
  Text.address addr.toNat ++ ": " ++ (if raw then rawColumn shown.2 else "") ++ shown.1

/-- The positions below `stop` at which the first `n` lines from a position start. -/
def lineStarts (ws : Array Word) (stop : Nat) : Nat → Nat → List Nat
  | 0, _ => []
  | n + 1, a =>
    if a < stop then a :: lineStarts ws stop n (a + lineSize ws (lineAddr a)) else []

/-- The lines that start at the given positions. -/
def linesAt (ws : Array Word) (raw : Bool) (starts : List Nat) : List String :=
  starts.map (fun a => line ws raw (lineAddr a))

/-- The number of bytes that a line takes in a list of lines. -/
def lineBytes : Nat := 24

end Listing

open Listing

/-- The lines of the first `count` instructions from an address, whether or not there is
room for so many. -/
def listing (ws : Array Word) (raw : Bool) (start : Word) (count : Nat) : List String :=
  linesAt ws raw (lineStarts ws ws.size count start.toNat)

/-- Lists the first `count` instructions from an address.  Room for `count` lines is made
before the first one, also where the words have fewer; `none` if there is no such room. -/
def listing? (ws : Array Word) (raw : Bool) (start : Word) (count : Nat) :
    Option (List String) :=
  withRoom lineBytes count (listing ws raw start count)

/-- The lines of the instructions that start in a range of addresses. -/
def listingUpTo (ws : Array Word) (raw : Bool) (start stop : Word) : List String :=
  let stop := min stop.toNat ws.size
  linesAt ws raw (lineStarts ws stop (stop - start.toNat) start.toNat)

/-- The lines of the first `count` instructions as one text. -/
def listingText (ws : Array Word) (raw : Bool) (start : Word) (count : Nat) : String :=
  String.join ((listing ws raw start count).map (fun l => l ++ "\n"))

/-- Lists the first `count` instructions as one text; `none` if there is no room for so
many lines. -/
def listingText? (ws : Array Word) (raw : Bool) (start : Word) (count : Nat) :
    Option String :=
  withRoom lineBytes count (listingText ws raw start count)

/-- The bound on the number of lines. -/
theorem listing?_eq (ws : Array Word) (raw : Bool) (start : Word) (count : Nat) :
    listing? ws raw start count =
      if count < 384307168202282326 then some (listing ws raw start count) else none := by
  have hroom : HasRoom lineBytes count ↔ count < 384307168202282326 := by
    unfold HasRoom lineBytes
    omega
  unfold listing? withRoom
  simp only [hroom]

theorem listing?_eq_some_iff {ws : Array Word} {raw : Bool} {start : Word} {count : Nat}
    {lines : List String} :
    listing? ws raw start count = some lines ↔
      count < 384307168202282326 ∧ listing ws raw start count = lines := by
  rw [listing?_eq]
  split
  next h => simp [h]
  next h => simp [h]

end WordMachine
