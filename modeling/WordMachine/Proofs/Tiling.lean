import Mathlib.Order.Monotone.Basic
import WordMachine.Program.Disassemble
import WordMachine.Proofs.InstructionPointer
import WordMachine.Proofs.Loading

/-! # A listing tiles its words

The first word of a line decides how many words the line covers: an opcode takes its operands with
it, and any other word stands alone.  So the lines from a position on start at positions that are fixed
by the words alone.  A listing shows the lines at the first of these positions, and a listing of a range
those below a bound, so that the two agree as far as they go, and no word is left out or shown twice.
The machine reads its memory in the same steps as long as it moves on.

Room for the lines of a listing is made by their number before the words are looked at.  So a listing is
refused for a number of lines that no block of memory can hold, also if the words have a single line.

* `Listing.position` : where the lines from a position on start.
* `Listing.getElem?_lineStarts` : the starts that a listing goes through.
* `Listing.exists_unique_line` : each word belongs to one line.
* `Listing.position_of_advanced` : a step that moves on goes to the start of the next line.
* `disassembleProgram_of_count` : the program that lists an image, with a number of lines.
* `listing_tiles` : the statement about listings. -/

namespace WordMachine

namespace Listing

/-! ### Positions -/

/-- The number of words of a line with a given first word. -/
def span (w : Word) : Nat :=
  match Opcode.ofWord? w with
  | some op => 1 + op.arity
  | none => 1

/-- The position behind the line at a position. -/
def following (ws : Array Word) (a : Nat) : Nat := a + span (wordAt ws a)

/-- Where the lines from a position on start, the line at that position being the line of number
zero. -/
def position (ws : Array Word) (a i : Nat) : Nat := (following ws)^[i] a

theorem span_of_opcode {w : Word} {op : Opcode} (h : w = op.toWord) : span w = 1 + op.arity := by
  unfold span
  rw [Opcode.ofWord?_eq_some_iff.mpr h]

theorem span_of_data {w : Word} (h : Opcode.ofWord? w = none) : span w = 1 := by
  unfold span
  rw [h]

theorem span_pos (w : Word) : 1 ≤ span w := by
  unfold span
  split <;> omega

theorem span_le (w : Word) : span w ≤ 4 := by
  unfold span
  split
  next op _ =>
    have := op.arity_le
    omega
  next => omega

theorem lt_following (ws : Array Word) (a : Nat) : a < following ws a := by
  have := span_pos (wordAt ws a)
  unfold following
  omega

theorem position_zero (ws : Array Word) (a : Nat) : position ws a 0 = a := rfl

theorem position_succ (ws : Array Word) (a i : Nat) :
    position ws a (i + 1) = following ws (position ws a i) := by
  unfold position
  rw [Function.iterate_succ_apply']

theorem position_succ' (ws : Array Word) (a i : Nat) :
    position ws a (i + 1) = position ws (following ws a) i := rfl

theorem strictMono_position (ws : Array Word) (a : Nat) : StrictMono (position ws a) := by
  apply strictMono_nat_of_lt_succ
  intro i
  rw [position_succ]
  exact lt_following ws _

theorem add_le_position (ws : Array Word) (a i : Nat) : a + i ≤ position ws a i := by
  induction i with
  | zero => exact Nat.le_refl a
  | succ i ih =>
      have := lt_following ws (position ws a i)
      rw [position_succ]
      omega

/-- Each word behind the start and in front of a later line belongs to exactly one line between
them. -/
theorem exists_unique_line {ws : Array Word} {start a k : Nat} (hstart : start ≤ a)
    (hend : a < position ws start k) :
    ∃! i, i < k ∧ position ws start i ≤ a ∧ a < position ws start (i + 1) := by
  have hmono := strictMono_position ws start
  have hexists : ∃ i, i < k ∧ position ws start i ≤ a ∧ a < position ws start (i + 1) := by
    induction k with
    | zero =>
        rw [position_zero] at hend
        omega
    | succ k ih =>
        rcases Nat.lt_or_ge a (position ws start k) with hlt | hge
        · obtain ⟨i, hi, hcovers⟩ := ih hlt
          exact ⟨i, by omega, hcovers⟩
        · exact ⟨k, by omega, hge, hend⟩
  obtain ⟨i, hi, hle, hlt⟩ := hexists
  refine ⟨i, ⟨hi, hle, hlt⟩, ?_⟩
  rintro j ⟨_, hle', hlt'⟩
  -- Neither of two lines that cover the word can start behind the other.
  have hij := hmono.lt_iff_lt.mp (Nat.lt_of_le_of_lt hle hlt')
  have hji := hmono.lt_iff_lt.mp (Nat.lt_of_le_of_lt hle' hlt)
  omega

/-! ### Lines -/

theorem toNat_lineAddr {a : Nat} (h : a < 65536) : (lineAddr a).toNat = a := by
  exact UInt16.toNat_ofNat_of_lt' h

theorem lineSize_eq (ws : Array Word) (addr : Word) :
    lineSize ws addr = span (wordAt ws addr.toNat) := by
  unfold lineSize span
  cases h : Opcode.ofWord? (wordAt ws addr.toNat) with
  | none => rw [Instruction.decode_of_none h]
  | some op =>
      rw [Instruction.decode_of_some h]
      simp [Instruction.size]

/-- A line ends where the next one starts. -/
theorem add_lineSize {ws : Array Word} {a : Nat} (h : a < 65536) :
    a + lineSize ws (lineAddr a) = following ws a := by
  rw [lineSize_eq, toNat_lineAddr h]
  rfl

/-- What a line shows of its words: an instruction, or a data word. -/
def lineText (ws : Array Word) (addr : Word) : String :=
  match Instruction.decode (wordAt ws) addr with
  | .ok i => i.text
  | .error w => dataText w

theorem line_plain (ws : Array Word) (addr : Word) :
    line ws false addr = Text.address addr.toNat ++ ": " ++ lineText ws addr := by
  have hempty : Text.address addr.toNat ++ ": " ++ "" = Text.address addr.toNat ++ ": " :=
    String.append_empty
  unfold line lineText
  cases Instruction.decode (wordAt ws) addr with
  | ok i => exact congrArg (· ++ i.text) hempty
  | error w => exact congrArg (· ++ dataText w) hempty

/-- The starts that a listing goes through. -/
theorem getElem?_lineStarts {ws : Array Word} {stop : Nat} (hstop : stop ≤ 65536) (n a i : Nat) :
    (lineStarts ws stop n a)[i]? =
      if i < n ∧ position ws a i < stop then some (position ws a i) else none := by
  induction n generalizing a i with
  | zero => simp [lineStarts]
  | succ n ih =>
      unfold lineStarts
      by_cases ha : a < stop
      · rw [if_pos ha, add_lineSize (by omega)]
        cases i with
        | zero => simp [position_zero, ha]
        | succ i =>
            rw [List.getElem?_cons_succ, ih, position_succ']
            simp only [Nat.add_lt_add_iff_right]
      · have hge := add_le_position ws a i
        rw [if_neg ha, if_neg (by omega), List.getElem?_nil]

/-- The lines behind some number of lines are those from the next position on. -/
theorem lineStarts_add {ws : Array Word} {stop : Nat} (hstop : stop ≤ 65536) {n a : Nat} (m : Nat)
    (h : position ws a n < stop) :
    lineStarts ws stop (n + m) a =
      lineStarts ws stop n a ++ lineStarts ws stop m (position ws a n) := by
  induction n generalizing a with
  | zero => simp [lineStarts, position_zero]
  | succ n ih =>
      have hge := add_le_position ws a (n + 1)
      have ha : a < stop := by omega
      rw [Nat.succ_add, lineStarts, lineStarts, if_pos ha, if_pos ha, add_lineSize (by omega),
        ih h, List.cons_append, position_succ']

theorem length_linesAt (ws : Array Word) (raw : Bool) (starts : List Nat) :
    (linesAt ws raw starts).length = starts.length :=
  List.length_map _

theorem getElem?_linesAt (ws : Array Word) (raw : Bool) (starts : List Nat) (i : Nat) :
    (linesAt ws raw starts)[i]? = starts[i]?.map (fun a => line ws raw (lineAddr a)) :=
  List.getElem?_map

end Listing

open Listing

theorem getElem?_listing {ws : Array Word} (hsize : ws.size ≤ 65536) (raw : Bool) (start : Word)
    (n i : Nat) :
    (listing ws raw start n)[i]? =
      if i < n ∧ position ws start.toNat i < ws.size then
        some (line ws raw (lineAddr (position ws start.toNat i))) else none := by
  unfold listing
  rw [getElem?_linesAt, getElem?_lineStarts hsize]
  split <;> rfl

theorem getElem?_listingUpTo {ws : Array Word} (hsize : ws.size ≤ 65536) (raw : Bool)
    (start stop : Word) (i : Nat) :
    (listingUpTo ws raw start stop)[i]? =
      if position ws start.toNat i < min stop.toNat ws.size then
        some (line ws raw (lineAddr (position ws start.toNat i))) else none := by
  unfold listingUpTo
  have hge := add_le_position ws start.toNat i
  rw [getElem?_linesAt, getElem?_lineStarts (by omega)]
  -- The number of lines is bounded by the length of the range, which is no further condition.
  have hcount : (i < min stop.toNat ws.size - start.toNat ∧
      position ws start.toNat i < min stop.toNat ws.size) ↔
      position ws start.toNat i < min stop.toNat ws.size := by omega
  simp only [hcount]
  split <;> rfl

theorem lt_length_listing_iff {ws : Array Word} (hsize : ws.size ≤ 65536) {raw : Bool}
    {start : Word} {n i : Nat} :
    i < (listing ws raw start n).length ↔ i < n ∧ position ws start.toNat i < ws.size := by
  rw [← Nat.not_le, ← List.getElem?_eq_none_iff, getElem?_listing hsize]
  simp

theorem lt_length_listingUpTo_iff {ws : Array Word} (hsize : ws.size ≤ 65536) {raw : Bool}
    {start stop : Word} {i : Nat} :
    i < (listingUpTo ws raw start stop).length ↔
      position ws start.toNat i < min stop.toNat ws.size := by
  rw [← Nat.not_le, ← List.getElem?_eq_none_iff, getElem?_listingUpTo hsize]
  simp

/-- The listing of a range is the beginning of a long listing. -/
theorem listingUpTo_prefix {ws : Array Word} (hsize : ws.size ≤ 65536) (raw : Bool)
    (start stop : Word) {n : Nat} (hn : ws.size ≤ n) :
    listingUpTo ws raw start stop <+: listing ws raw start n := by
  rw [List.prefix_iff_getElem?]
  intro i hi
  have hlt := (lt_length_listingUpTo_iff hsize).mp hi
  have hge := add_le_position ws start.toNat i
  rw [← List.getElem?_eq_getElem hi, getElem?_listing hsize, getElem?_listingUpTo hsize,
    if_pos hlt, if_pos (by omega)]

theorem listing_add {ws : Array Word} (hsize : ws.size ≤ 65536) (raw : Bool) (start : Word)
    {n : Nat} (m : Nat) (h : position ws start.toNat n < ws.size) :
    listing ws raw start (n + m) =
      listing ws raw start n ++ listing ws raw (lineAddr (position ws start.toNat n)) m := by
  unfold listing linesAt
  rw [lineStarts_add hsize m h, List.map_append, toNat_lineAddr (by omega)]

/-- In a listing whose lines all start among the words, each word up to the end of the last line
belongs to one line. -/
theorem exists_unique_covering {ws : Array Word} (hsize : ws.size ≤ 65536) {start k a : Nat}
    (hk : ∀ i < k, position ws start i < ws.size) (hstart : start ≤ a)
    (hend : a < position ws start k) :
    ∃! i, i < k ∧ position ws start i ≤ a ∧
      a < position ws start i + lineSize ws (lineAddr (position ws start i)) := by
  have hsame : ∀ i, (i < k ∧ position ws start i ≤ a ∧
      a < position ws start i + lineSize ws (lineAddr (position ws start i))) ↔
      i < k ∧ position ws start i ≤ a ∧ a < position ws start (i + 1) := by
    intro i
    refine and_congr_right fun hi => ?_
    have hlt := hk i hi
    rw [add_lineSize (by omega), position_succ]
  simp only [hsame]
  exact exists_unique_line hstart hend

/-! ### Execution -/

theorem wordAt_words (memory : Memory) (a : Nat) :
    wordAt memory.words.toArray a = memory.read a := by
  unfold wordAt Memory.read
  split
  next h => simp [h]
  next h => simp [h]

/-- A step that moves on goes to the start of the next line. -/
theorem position_of_advanced {m m' : Machine} {a i : Nat}
    (hpc : m.core.pc.toNat = position m.core.memory.words.toArray a i)
    (h : m.step = (.ok .advanced, m')) :
    m'.core.pc.toNat = position m.core.memory.words.toArray a (i + 1) := by
  obtain ⟨ins, hfetch, _, hnext, _⟩ := Machine.pc_of_advanced h
  obtain ⟨hop, _, hoperands⟩ := Core.fetch_eq_ok_iff.mp hfetch
  have hword : wordAt m.core.memory.words.toArray m.core.pc.toNat = ins.opcode.toWord :=
    (wordAt_words _ _).trans hop
  have hsize : ins.size = span (wordAt m.core.memory.words.toArray m.core.pc.toNat) := by
    rw [span_of_opcode hword, Instruction.size, hoperands, Core.length_operandWords]
  rw [position_succ, ← hpc, hnext, hsize]
  rfl

/-! ### The program -/

namespace Disassemble

theorem readStart_of_number? {text : String} {start : Word} (h : number? text = some start.toNat) :
    readStart (some text) = .ok start := by
  have hlt := start.toNat_lt
  simp only [readStart, h]
  rw [if_pos (by omega), UInt16.ofNat_toNat]

theorem counted_eq (ws : Array Word) (raw : Bool) (start : Word) (n : Nat) :
    counted ws raw start n =
      if n < 384307168202282326 then .ok (listing ws raw start n) else .error .overflow := by
  unfold counted
  rw [listing?_eq]
  by_cases h : n < 384307168202282326
  · simp only [if_pos h]
  · simp only [if_neg h]

end Disassemble

/-- Asked for a number of lines, the program lists the image if there is room for so many lines, and is
broken off otherwise. -/
theorem disassembleProgram_of_count {w : World} {args : List String} {o : ListOptions}
    {path startText countText : String} {rest : List String} {start : Word} {memory : Memory} {n : Nat}
    (ho : Disassemble.readOptions w.programName {} args = .ok o)
    (hargs : o.positional = path :: startText :: countText :: rest)
    (hstart : Disassemble.number? startText = some start.toNat)
    (hload : w.loadImage FileError.details path = .ok memory)
    (hcount : Disassemble.number? countText = some n) :
    disassembleProgram w args =
      if n < 384307168202282326 then
        ⟨0, unlines (listing memory.words.toArray o.raw start n), ""⟩ else .overflow := by
  have hlines : Disassemble.lines w args =
      Disassemble.counted memory.words.toArray o.raw start n := by
    unfold Disassemble.lines
    rw [ho]
    simp only [bind, Except.bind, hargs, List.getElem?_cons_zero, List.getElem?_cons_succ,
      Disassemble.readStart_of_number? hstart, hload, Disassemble.readCount, hcount]
  unfold disassembleProgram
  rw [hlines, Disassemble.counted_eq]
  by_cases h : n < 384307168202282326
  · simp only [if_pos h]
  · simp only [if_neg h]

/-- **A listing tiles its words, if there is room for it.**  A number of lines is listed if and only if a
block of memory can hold so many, however few of them there are; the program that lists an image is broken
off otherwise.  A listing shows the lines at the first positions from its start on, each under its own
address, and no line behind the words; a listing of a range shows those below its end, and so is the
beginning of a long listing.  A listing can be made in two parts.  Each word from the start to the end of
the last line belongs to exactly one line, and the words of a line that are shown in the raw column lie
among the words.  On the memory of a machine, a step that moves on goes from the start of a line to the
start of the next one. -/
theorem listing_tiles (ws : Array Word) (hsize : ws.size ≤ 65536) (raw : Bool) (start : Word) :
    (∀ n, (∃ lines, listing? ws raw start n = some lines) ↔ n < 384307168202282326) ∧
    (∀ n lines, listing? ws raw start n = some lines → ∀ i, lines[i]? =
      if i < n ∧ position ws start.toNat i < ws.size then
        some (line ws raw (lineAddr (position ws start.toNat i))) else none) ∧
    (∀ stop i, (listingUpTo ws raw start stop)[i]? =
      if position ws start.toNat i < min stop.toNat ws.size then
        some (line ws raw (lineAddr (position ws start.toNat i))) else none) ∧
    (∀ a < ws.size, ∃ text, line ws raw (lineAddr a) = Text.address a ++ ": " ++ text) ∧
    (∀ stop n lines, ws.size ≤ n → listing? ws raw start n = some lines →
      listingUpTo ws raw start stop <+: lines) ∧
    (∀ n m, position ws start.toNat n < ws.size → n + m < 384307168202282326 →
      ∃ first second, listing? ws raw start n = some first ∧
        listing? ws raw (lineAddr (position ws start.toNat n)) m = some second ∧
        listing? ws raw start (n + m) = some (first ++ second)) ∧
    (∀ lines, (∃ n, listing? ws raw start n = some lines) ∨
        (∃ stop, lines = listingUpTo ws raw start stop) →
      ∀ a, start.toNat ≤ a → a < position ws start.toNat lines.length →
        ∃! i, i < lines.length ∧ position ws start.toNat i ≤ a ∧
          a < position ws start.toNat i + lineSize ws (lineAddr (position ws start.toNat i))) ∧
    (∀ a < ws.size, (lineAddr a).toNat < min ((lineAddr a).toNat + lineSize ws (lineAddr a)) ws.size) ∧
    (∀ (m m' : Machine) a i, m.core.pc.toNat = position m.core.memory.words.toArray a i →
      m.step = (.ok .advanced, m') →
      m'.core.pc.toNat = position m.core.memory.words.toArray a (i + 1)) ∧
    (∀ (w : World) args o path startText countText rest memory n,
      Disassemble.readOptions w.programName {} args = .ok o →
      o.positional = path :: startText :: countText :: rest →
      Disassemble.number? startText = some start.toNat →
      w.loadImage FileError.details path = .ok memory →
      Disassemble.number? countText = some n →
      disassembleProgram w args =
        if n < 384307168202282326 then
          ⟨0, unlines (listing memory.words.toArray o.raw start n), ""⟩ else .overflow) := by
  refine ⟨?_, ?_, getElem?_listingUpTo hsize raw start, ?_, ?_, ?_, ?_, ?_, ?_, ?_⟩
  · intro n
    simp [listing?_eq_some_iff]
  · intro n lines h
    obtain ⟨_, rfl⟩ := listing?_eq_some_iff.mp h
    exact getElem?_listing hsize raw start n
  · intro a ha
    unfold line
    rw [toNat_lineAddr (by omega), String.append_assoc]
    exact ⟨_, rfl⟩
  · intro stop n lines hn h
    obtain ⟨_, rfl⟩ := listing?_eq_some_iff.mp h
    exact listingUpTo_prefix hsize raw start stop hn
  · intro n m h hroom
    refine ⟨_, _, listing?_eq_some_iff.mpr ⟨by omega, rfl⟩, listing?_eq_some_iff.mpr ⟨by omega, rfl⟩, ?_⟩
    exact listing?_eq_some_iff.mpr ⟨hroom, listing_add hsize raw start m h⟩
  · rintro lines (⟨n, hn⟩ | ⟨stop, rfl⟩) a hstart hend
    · obtain ⟨_, rfl⟩ := listing?_eq_some_iff.mp hn
      refine exists_unique_covering hsize ?_ hstart hend
      intro i hi
      exact ((lt_length_listing_iff hsize).mp hi).2
    · refine exists_unique_covering hsize ?_ hstart hend
      intro i hi
      have := (lt_length_listingUpTo_iff hsize).mp hi
      omega
  · intro a ha
    have hnext := lt_following ws a
    rw [toNat_lineAddr (by omega), add_lineSize (by omega)]
    omega
  · intro m m' a i hpc h
    exact position_of_advanced hpc h
  · intro w args o path startText countText rest memory n ho hargs hstart hload hcount
    exact disassembleProgram_of_count ho hargs hstart hload hcount

/-- Two data words and an `add` that lacks its last operand. -/
def Listing.straddling : Array Word := #[22, 65, 9, 32768, 4]

/-- A system whose only file holds a `halt`. -/
def haltingWorld : World where
  programName := "list"
  file _ := .ok (bytesOfWords [0])
  traceVariable := none
  limitVariable := none
  terminal := false
  readSettings _ := .error .malformed

theorem loadImage_halting : haltingWorld.loadImage FileError.details "image" =
    .ok (Memory.holding [0] (by decide)) := by
  have hload : Memory.ofWords [0] = .ok (Memory.holding [0] (by decide)) :=
    Memory.ofWords_of_le (by decide)
  have hwords : wordsOfBytes (bytesOfWords [0]) = [0] := by decide
  unfold World.loadImage Memory.ofBytes
  simp only [haltingWorld, hwords, hload]
  rfl

/-- The three lines start at the positions zero, one and two, and the last one ends one position
behind the words.  The listing of the first two words is its beginning, it can be made in two parts, and
the word at position four belongs to the last line.  There is no room for a listing of as many lines as a
number of 64 bits can ask for, and the program that is asked for so many is broken off, although its image
has one line at the start.  A machine that moves on from a `noop` gets to the next line of its memory. -/
theorem straddling_tiles :
    Listing.straddling.size ≤ 65536 ∧
    (∃ lines, listing? Listing.straddling true 0 10 = some lines ∧ lines.length = 3 ∧
      lines[2]? = some (line Listing.straddling true 2) ∧
      listingUpTo Listing.straddling true 0 2 <+: lines ∧
      ∃! i, i < 3 ∧ position Listing.straddling 0 i ≤ 4 ∧
        4 < position Listing.straddling 0 i +
          lineSize Listing.straddling (lineAddr (position Listing.straddling 0 i))) ∧
    [0, 1, 2, 3].map (position Listing.straddling 0) = [0, 1, 2, 6] ∧
    (∃ first second, listing? Listing.straddling true 0 1 = some first ∧
      listing? Listing.straddling true 1 9 = some second ∧
      listing? Listing.straddling true 0 (1 + 9) = some (first ++ second)) ∧
    (¬∃ lines, listing? Listing.straddling true 0 18446744073709551615 = some lines) ∧
    disassembleProgram haltingWorld ["image", "0", "18446744073709551615"] = .overflow ∧
    ∃ m', (Machine.holding [21, 9] (by decide)).step = (.ok .advanced, m') ∧
      m'.core.pc.toNat =
        position (Machine.holding [21, 9] (by decide)).core.memory.words.toArray 0 1 := by
  have hsize : Listing.straddling.size ≤ 65536 := by decide
  obtain ⟨lines, hlines, hlength⟩ :
      ∃ lines, listing? Listing.straddling true 0 10 = some lines ∧ lines.length = 3 := ⟨_, rfl, rfl⟩
  have hpositions : [0, 1, 2, 3].map (position Listing.straddling 0) = [0, 1, 2, 6] := by decide
  obtain ⟨m', hstep⟩ : ∃ m', (Machine.holding [21, 9] (by decide)).step = (.ok .advanced, m') :=
    ⟨_, rfl⟩
  obtain ⟨hroom, hshown, _, _, hprefix, hparts, hcovers, _, hmachine, hprogram⟩ :=
    listing_tiles Listing.straddling hsize true 0
  refine ⟨hsize, ⟨lines, hlines, hlength, ?_, hprefix 2 10 lines (by decide) hlines, ?_⟩, hpositions,
    hparts 1 9 (by decide) (by decide), ?_, ?_, m', hstep, hmachine _ _ 0 0 rfl hstep⟩
  · exact (hshown 10 lines hlines 2).trans (if_pos (by decide))
  · have hcover := hcovers lines (Or.inl ⟨10, hlines⟩) 4 (by decide)
    rw [hlength] at hcover
    exact hcover (by decide)
  · exact fun h => absurd ((hroom _).mp h) (by decide)
  · exact (hprogram haltingWorld _ _ "image" "0" "18446744073709551615" [] _ 18446744073709551615 rfl
      rfl rfl loadImage_halting rfl).trans (if_neg (by decide))

end WordMachine
