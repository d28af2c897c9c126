import Mathlib.Data.List.Forall2
import WordMachine.Proofs.Pieces
import WordMachine.Proofs.Tiling

/-! # The column of raw words

A listing can show the words of each line behind the address, as hexadecimal numbers of four digits in a
column of twenty-four characters.  At most four words stand in a line, so the column is always wide
enough and what follows it is aligned.  Apart from the column the line is the same.

* `Listing.pieces_rawColumn` : the column can be taken apart again.
* `Listing.line_raw` : a line with the column, in its three parts.
* `Listing.ShowsWords` : what the column adds to a line.
* `raw_column_is_faithful` : the statement about listings. -/

namespace WordMachine

/-! ### Lines -/

namespace Listing

theorem toList_rawColumn (ws : List Word) :
    (rawColumn ws).toList =
      [' '].intercalate (ws.map (fun w => (Text.rawWord w.toNat).toList)) ++
        List.replicate
          (24 - ([' '].intercalate (ws.map (fun w => (Text.rawWord w.toNat).toList))).length) ' ' := by
  unfold rawColumn Text.spacePadded
  rw [String.toList_append, String.toList_ofList, ← String.length_toList, String.toList_intercalate,
    List.map_map]
  rfl

/-- The column is as wide as intended if there are no more words than an instruction has. -/
theorem length_rawColumn {ws : List Word} (h : ws.length ≤ 4) : (rawColumn ws).toList.length = 24 := by
  have hle : ([' '].intercalate (ws.map (fun w => (Text.rawWord w.toNat).toList))).length ≤
      (ws.map (fun w => (Text.rawWord w.toNat).toList)).length * (4 + 1) := by
    apply Text.length_intercalate_le
    intro xs hxs
    obtain ⟨w, _, rfl⟩ := List.mem_map.mp hxs
    exact (Text.rawNumeral_rawWord w).length
  rw [List.length_map] at hle
  rw [toList_rawColumn, List.length_append, List.length_replicate]
  omega

/-- The column, trimmed and cut at its spaces, is the list of the words. -/
theorem pieces_rawColumn {ws : List Word} (h : ws ≠ []) :
    Text.pieces (· == ' ') (Text.trim (rawColumn ws).toList) =
      ws.map (fun w => (Text.rawWord w.toNat).toList) := by
  generalize hxss : ws.map (fun w => (Text.rawWord w.toNat).toList) = xss
  have hnumeral : ∀ xs ∈ xss, xs ≠ [] ∧ ∀ c ∈ xs, Text.isBlank c = false := by
    intro xs hxs
    rw [← hxss] at hxs
    obtain ⟨w, _, rfl⟩ := List.mem_map.mp hxs
    obtain ⟨hlength, hlower, _⟩ := Text.rawNumeral_rawWord w
    refine ⟨List.ne_nil_of_length_pos (by omega), ?_⟩
    intro c hc
    exact Text.isBlank_of_isLowerHex (hlower c hc)
  have hne : xss ≠ [] := by
    rw [← hxss]
    exact fun he => h (List.map_eq_nil_iff.mp he)
  have hends : ∀ c, (∃ xs ∈ xss, c ∈ xs) → Text.isBlank c = false := by
    rintro c ⟨xs, hxs, hc⟩
    exact (hnumeral xs hxs).2 c hc
  rw [toList_rawColumn, hxss, Text.trim_append_spaces]
  · apply Text.pieces_intercalate rfl hne
    intro xs hxs c hc
    have hblank := (hnumeral xs hxs).2 c hc
    rw [beq_eq_false_iff_ne]
    rintro rfl
    exact absurd hblank (by decide)
  · intro c hc
    exact hends c (Text.mem_of_head?_intercalate (fun xs hxs => (hnumeral xs hxs).1) hc)
  · intro c hc
    exact hends c (Text.mem_of_getLast?_intercalate (fun xs hxs => (hnumeral xs hxs).1) hc)

/-- A line with the column: the address, the words that the line covers, and what it shows of them. -/
theorem line_raw {ws : Array Word} {a : Nat} (ha : a < ws.size) (hsize : ws.size ≤ 65536) :
    line ws true (lineAddr a) =
      Text.address a ++ ": " ++ rawColumn (ws.extract a (following ws a)).toList ++
        lineText ws (lineAddr a) := by
  have haddr := toNat_lineAddr (show a < 65536 by omega)
  unfold line lineText
  rw [haddr]
  cases hop : Opcode.ofWord? (wordAt ws a) with
  | none =>
      have hword : (ws.extract a (following ws a)).toList = [wordAt ws a] := by
        have hlt : a < ws.toList.length := ha
        rw [following, span_of_data hop, Array.toList_extract, List.extract_eq_take_drop,
          Nat.add_sub_cancel_left, List.drop_eq_getElem_cons hlt]
        simp [wordAt, ha]
      rw [Instruction.decode_of_none (by rw [haddr]; exact hop), hword, haddr]
      rfl
  | some op =>
      have hspan : following ws a = a + (1 + op.arity) := by
        rw [following, span_of_opcode (Opcode.ofWord?_eq_some_iff.mp hop)]
      rw [Instruction.decode_of_some (by rw [haddr]; exact hop), hspan]
      simp [coveredWords, Instruction.size]

/-- `ShowsWords ws a b plain full`: the second text is the first one with a column of twenty-four
characters inserted behind the first seven characters.  Trimmed and cut at its spaces, the column
consists of numerals of four hexadecimal digits, which denote the words at the positions from `a` up to
`b`, as far as there are any. -/
def ShowsWords (ws : Array Word) (a b : Nat) (plain full : String) : Prop :=
  ∃ column : List Char, column.length = 24 ∧ 7 ≤ plain.toList.length ∧
    full.toList = plain.toList.take 7 ++ column ++ plain.toList.drop 7 ∧
    List.Forall₂ Text.RawNumeral (Text.pieces (· == ' ') (Text.trim column)) (ws.extract a b).toList

/-- A line covers at least one word and at most four. -/
theorem length_covered {ws : Array Word} {a : Nat} (ha : a < ws.size) :
    1 ≤ (ws.extract a (following ws a)).toList.length ∧
      (ws.extract a (following ws a)).toList.length ≤ 4 := by
  have hpos := span_pos (wordAt ws a)
  have hle := span_le (wordAt ws a)
  rw [Array.length_toList, Array.size_extract]
  unfold following
  omega

/-- What the column adds to a line. -/
theorem showsWords_line {ws : Array Word} {a : Nat} (ha : a < ws.size) (hsize : ws.size ≤ 65536) :
    ShowsWords ws a (following ws a) (line ws false (lineAddr a)) (line ws true (lineAddr a)) := by
  obtain ⟨hpos, hle⟩ := length_covered ha
  have haddr := toNat_lineAddr (show a < 65536 by omega)
  have hlabel : (Text.address a ++ ": ").toList.length = 7 := by
    rw [String.toList_append, List.length_append, Text.length_address (by omega)]
    rfl
  have hplain : (line ws false (lineAddr a)).toList =
      (Text.address a ++ ": ").toList ++ (lineText ws (lineAddr a)).toList := by
    rw [line_plain, haddr, String.toList_append]
  refine ⟨(rawColumn (ws.extract a (following ws a)).toList).toList, length_rawColumn hle, ?_, ?_, ?_⟩
  · rw [hplain, List.length_append]
    omega
  · rw [hplain, List.take_left' hlabel, List.drop_left' hlabel, line_raw ha hsize,
      String.toList_append, String.toList_append]
  · rw [pieces_rawColumn (List.ne_nil_of_length_pos hpos), List.forall₂_map_left_iff,
      List.forall₂_same]
    intro w _
    exact Text.rawNumeral_rawWord w

/-- What the column adds to the lines that start among the words below a bound. -/
theorem showsWords_linesAt {ws : Array Word} (hsize : ws.size ≤ 65536) {stop n a i : Nat}
    (hstop : stop ≤ ws.size) {plain full : String}
    (hplain : (linesAt ws false (lineStarts ws stop n a))[i]? = some plain)
    (hfull : (linesAt ws true (lineStarts ws stop n a))[i]? = some full) :
    ShowsWords ws (position ws a i) (position ws a (i + 1)) plain full := by
  rw [getElem?_linesAt, getElem?_lineStarts (by omega)] at hplain hfull
  split at hplain
  next hi =>
    rw [if_pos hi] at hfull
    obtain rfl := Option.some.inj hplain
    obtain rfl := Option.some.inj hfull
    rw [position_succ]
    exact showsWords_line (by omega) hsize
  next => cases hplain

end Listing

open Listing

/-- **The column of raw words is faithful and aligned.**  With and without the column a listing has the
same number of lines.  Each line with the column is the line without it, with twenty-four characters
inserted behind the address, which are the words that the line covers.  The same is true of the listing
of a range. -/
theorem raw_column_is_faithful (ws : Array Word) (hsize : ws.size ≤ 65536) (start : Word) :
    (∀ n, (listing ws true start n).length = (listing ws false start n).length ∧
      ∀ i plain full, (listing ws false start n)[i]? = some plain →
        (listing ws true start n)[i]? = some full →
        ShowsWords ws (position ws start.toNat i) (position ws start.toNat (i + 1)) plain full) ∧
    (∀ stop, (listingUpTo ws true start stop).length = (listingUpTo ws false start stop).length ∧
      ∀ i plain full, (listingUpTo ws false start stop)[i]? = some plain →
        (listingUpTo ws true start stop)[i]? = some full →
        ShowsWords ws (position ws start.toNat i) (position ws start.toNat (i + 1)) plain full) := by
  constructor
  · intro n
    refine ⟨(length_linesAt _ _ _).trans (length_linesAt _ _ _).symm, ?_⟩
    intro i plain full hplain hfull
    exact showsWords_linesAt hsize (Nat.le_refl _) hplain hfull
  · intro stop
    refine ⟨(length_linesAt _ _ _).trans (length_linesAt _ _ _).symm, ?_⟩
    intro i plain full hplain hfull
    exact showsWords_linesAt hsize (Nat.min_le_right _ _) hplain hfull

/-- In the listing of a data word and an `add` that lacks its last operand, the column of the second
line has three numerals, of the words that there are. -/
theorem straddling_raw_words :
    (listing #[22, 9, 32768, 4] true 0 2)[1]? =
      some "00001: 0009 8000 0004          add r0 4 0" ∧
    (listing #[22, 9, 32768, 4] false 0 2)[1]? = some "00001: add r0 4 0" ∧
    ShowsWords #[22, 9, 32768, 4] 1 5 "00001: add r0 4 0"
      "00001: 0009 8000 0004          add r0 4 0" := by
  have hfull : (listing #[22, 9, 32768, 4] true 0 2)[1]? =
      some "00001: 0009 8000 0004          add r0 4 0" := by decide
  have hplain : (listing #[22, 9, 32768, 4] false 0 2)[1]? = some "00001: add r0 4 0" := by decide
  exact ⟨hfull, hplain,
    ((raw_column_is_faithful #[22, 9, 32768, 4] (by decide) 0).1 2).2 1 _ _ hplain hfull⟩

end WordMachine
