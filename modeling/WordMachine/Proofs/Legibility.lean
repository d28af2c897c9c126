import WordMachine.Proofs.Numeral
import WordMachine.Proofs.Tiling

/-! # A listing determines its words

Everything that stands in a line of a listing can be read off it again.  A mnemonic has no space in it
and tells how many operands follow.  An operand starts with a digit, an `r` or a `<` according to its
kind, and its number ends with the first character that is no digit.  What is quoted behind an `out` or
a data word therefore cannot be taken for anything else, whichever character it shows.  So two lists of
words with the same listing agree in all words that are listed.

* `Operand.textOfWord_append_inj` : an operand can be told from what follows it.
* `Instruction.text_inj` : the text of an instruction determines opcode and operands.
* `Listing.words_of_line` : a line determines the words that it covers.
* `listing_determines_words` : the statement about listings. -/

namespace WordMachine

namespace Text

/-- The characters end or go on with a space. -/
def Breaks (cs : List Char) : Prop := ∀ c ∈ cs.head?, c = ' '

theorem breaks_nil : Breaks [] := by
  intro c hc
  cases hc

theorem breaks_space (cs : List Char) : Breaks (' ' :: cs) := by
  intro c hc
  cases hc
  rfl

theorem Breaks.noDigit {cs : List Char} (h : Breaks cs) : NoDigit cs := by
  intro c hc
  rw [h c hc]
  decide

theorem noDigit_cons {c : Char} (h : c.isDigit = false) (cs : List Char) : NoDigit (c :: cs) := by
  intro d hd
  cases hd
  exact h

end Text

open Text (Breaks)

/-! ### Operands -/

namespace Operand

/-- The three kinds of operand word and their texts. -/
theorem textOfWord_cases (w : Word) :
    (textOfWord w).toList = Nat.toDigits 10 w.toNat ∨
    (∃ r, w.toNat = 32768 + r ∧ (textOfWord w).toList = 'r' :: Nat.toDigits 10 r) ∨
    (textOfWord w).toList = "<bad ".toList ++ (Nat.toDigits 10 w.toNat ++ ['>']) := by
  unfold textOfWord ofWord?
  by_cases hl : w.toNat < 32768
  · rw [if_pos hl]
    exact Or.inl (Text.toList_decimal _)
  · rw [if_neg hl]
    by_cases hr : w.toNat < 32776
    · rw [dif_pos hr]
      refine Or.inr (Or.inl ⟨w.toNat - 32768, by omega, ?_⟩)
      simp only [text, String.toList_append, Text.toList_decimal]
      rfl
    · rw [dif_neg hr]
      refine Or.inr (Or.inr ?_)
      simp only [badText, String.toList_append, Text.toList_decimal, List.append_assoc]
      rfl

/-- What starts with no digit is no numeral. -/
theorem cons_ne_toDigits_append {c : Char} (h : c.isDigit = false) (n : Nat) (cs s : List Char) :
    c :: cs ≠ Nat.toDigits 10 n ++ s := by
  intro he
  cases hd : Nat.toDigits 10 n with
  | nil => exact Nat.toDigits_ne_nil hd
  | cons d ds =>
      rw [hd, List.cons_append] at he
      have hdigit := Text.isDigit_of_mem (n := n) d (by rw [hd]; exact List.mem_cons_self)
      rw [← (List.cons.inj he).1, h] at hdigit
      cases hdigit

/-- An operand can be told from what follows it behind a space. -/
theorem textOfWord_append_inj {v w : Word} {s t : List Char} (hs : Breaks s) (ht : Breaks t)
    (h : (textOfWord v).toList ++ s = (textOfWord w).toList ++ t) : v = w ∧ s = t := by
  have hr : 'r'.isDigit = false := by decide
  have hlt : '<'.isDigit = false := by decide
  -- Two operands of different kinds differ in their first characters.
  rcases textOfWord_cases v with hv | ⟨q, hq, hv⟩ | hv
  · rcases textOfWord_cases w with hw | ⟨r, _, hw⟩ | hw
    · rw [hv, hw] at h
      obtain ⟨hvw, hst⟩ := Text.toDigits_append_inj hs.noDigit ht.noDigit h
      exact ⟨UInt16.toNat_inj.mp hvw, hst⟩
    · rw [hv, hw] at h
      exact absurd h.symm (cons_ne_toDigits_append hr _ _ _)
    · rw [hv, hw] at h
      exact absurd h.symm (cons_ne_toDigits_append hlt _ _ _)
  · rcases textOfWord_cases w with hw | ⟨r, hr', hw⟩ | hw
    · rw [hv, hw] at h
      exact absurd h (cons_ne_toDigits_append hr _ _ _)
    · rw [hv, hw] at h
      obtain ⟨hqr, hst⟩ := Text.toDigits_append_inj hs.noDigit ht.noDigit (List.cons.inj h).2
      exact ⟨UInt16.toNat_inj.mp (by omega), hst⟩
    · rw [hv, hw] at h
      cases h
  · rcases textOfWord_cases w with hw | ⟨r, _, hw⟩ | hw
    · rw [hv, hw] at h
      exact absurd h (cons_ne_toDigits_append hlt _ _ _)
    · rw [hv, hw] at h
      cases h
    · rw [hv, hw] at h
      simp only [List.append_assoc, List.append_cancel_left_eq] at h
      obtain ⟨hvw, hst⟩ := Text.toDigits_append_inj (Text.noDigit_cons (by decide) _)
        (Text.noDigit_cons (by decide) _) h
      exact ⟨UInt16.toNat_inj.mp hvw, (List.cons.inj hst).2⟩

end Operand

/-! ### Instructions -/

namespace Opcode

theorem ofName?_name (op : Opcode) : ofName? op.name = some op := by
  cases op <;> rfl

theorem name_inj {op op' : Opcode} (h : op.name = op'.name) : op = op' := by
  have hnames := congrArg ofName? h
  rw [ofName?_name, ofName?_name] at hnames
  exact Option.some.inj hnames

theorem isLower_of_mem_name (op : Opcode) : ∀ c ∈ op.name.toList, c.isLower = true := by
  have hall : op.name.toList.all Char.isLower = true := by cases op <;> rfl
  exact List.all_eq_true.mp hall

/-- A mnemonic can be told from what follows it behind a space. -/
theorem name_append_inj {op op' : Opcode} {s t : List Char} (hs : Breaks s) (ht : Breaks t)
    (h : op.name.toList ++ s = op'.name.toList ++ t) : op = op' ∧ s = t := by
  have hbreak : ∀ {u : List Char}, Breaks u → ∀ c ∈ u.head?, c.isLower = false := by
    intro u hu c hc
    rw [hu c hc]
    decide
  obtain ⟨hname, hrest⟩ := Text.append_inj_of_class op.isLower_of_mem_name op'.isLower_of_mem_name
    (hbreak hs) (hbreak ht) h
  exact ⟨name_inj (String.toList_inj.mp hname), hrest⟩

end Opcode

namespace Instruction

theorem toList_operandText_cons (w : Word) (ws : List Word) :
    (operandText (w :: ws)).toList =
      ' ' :: ((Operand.textOfWord w).toList ++ (operandText ws).toList) := by
  unfold operandText
  rw [List.map_cons, String.join_cons, String.toList_append, String.toList_append]
  rfl

theorem breaks_operandText_append {ws : List Word} {s : List Char} (hs : Breaks s) :
    Breaks ((operandText ws).toList ++ s) := by
  cases ws with
  | nil => exact hs
  | cons w ws =>
      rw [toList_operandText_cons]
      exact Text.breaks_space _

/-- As many operands as are expected can be told from what follows them. -/
theorem operandText_append_inj {us vs : List Word} {s t : List Char}
    (hlength : us.length = vs.length) (hs : Breaks s) (ht : Breaks t)
    (h : (operandText us).toList ++ s = (operandText vs).toList ++ t) : us = vs ∧ s = t := by
  induction us generalizing vs with
  | nil =>
      obtain rfl := List.eq_nil_of_length_eq_zero hlength.symm
      exact ⟨rfl, h⟩
  | cons u us ih =>
      cases vs with
      | nil => cases hlength
      | cons v vs =>
          rw [toList_operandText_cons, toList_operandText_cons, List.cons_append, List.cons_append,
            List.append_assoc, List.append_assoc] at h
          obtain ⟨rfl, hrest⟩ := Operand.textOfWord_append_inj (breaks_operandText_append hs)
            (breaks_operandText_append ht) (List.cons.inj h).2
          obtain ⟨rfl, hst⟩ := ih (Nat.succ.inj hlength) hrest
          exact ⟨rfl, hst⟩

/-- The character that is quoted behind an `out`, or nothing. -/
def quotedText (i : Instruction) : String :=
  match i.printedChar?, i.operands with
  | some _, w :: _ => " " ++ Text.quoteCode w
  | _, _ => ""

theorem toList_text (i : Instruction) :
    i.text.toList = i.opcode.name.toList ++ ((operandText i.operands).toList ++ i.quotedText.toList) := by
  have htext : i.text = i.opcode.name ++ operandText i.operands ++ i.quotedText := rfl
  rw [htext, String.toList_append, String.toList_append, List.append_assoc]

theorem breaks_quotedText (i : Instruction) : Breaks i.quotedText.toList := by
  unfold quotedText
  split
  · rw [String.toList_append]
    exact Text.breaks_space _
  · exact Text.breaks_nil

theorem length_operands_of_decode {read : Nat → Word} {addr : Word} {i : Instruction}
    (h : decode read addr = .ok i) : i.operands.length = i.opcode.arity := by
  cases hop : Opcode.ofWord? (read addr.toNat) with
  | none =>
      rw [decode_of_none hop] at h
      cases h
  | some op =>
      rw [decode_of_some hop] at h
      cases h
      simp

/-- The text of an instruction determines its opcode and its operands, if it has as many of them as
its opcode takes. -/
theorem text_inj {i j : Instruction} (hi : i.operands.length = i.opcode.arity)
    (hj : j.operands.length = j.opcode.arity) (h : i.text = j.text) :
    i.opcode = j.opcode ∧ i.operands = j.operands := by
  have hlist := congrArg String.toList h
  rw [toList_text, toList_text] at hlist
  obtain ⟨hop, hrest⟩ := Opcode.name_append_inj (breaks_operandText_append i.breaks_quotedText)
    (breaks_operandText_append j.breaks_quotedText) hlist
  have hlength : i.operands.length = j.operands.length := by rw [hi, hj, hop]
  exact ⟨hop, (operandText_append_inj hlength i.breaks_quotedText j.breaks_quotedText hrest).1⟩

end Instruction

/-! ### Lines -/

namespace Listing

theorem toList_dataText (w : Word) :
    ∃ quoted, Breaks quoted ∧
      (dataText w).toList = ".word ".toList ++ (Nat.toDigits 10 w.toNat ++ quoted) := by
  unfold dataText
  rw [String.toList_append, String.toList_append, Text.toList_decimal, List.append_assoc]
  refine ⟨_, ?_, rfl⟩
  split
  · rw [String.toList_append]
    exact Text.breaks_space _
  · exact Text.breaks_nil

/-- The text of a data word determines the word. -/
theorem dataText_inj {v w : Word} (h : dataText v = dataText w) : v = w := by
  obtain ⟨s, hs, hv⟩ := toList_dataText v
  obtain ⟨t, ht, hw⟩ := toList_dataText w
  have hlist := congrArg String.toList h
  rw [hv, hw] at hlist
  obtain ⟨hvw, _⟩ := Text.toDigits_append_inj hs.noDigit ht.noDigit (List.append_cancel_left hlist)
  exact UInt16.toNat_inj.mp hvw

/-- A mnemonic starts with a letter, and a data word with a point. -/
theorem text_ne_dataText (i : Instruction) (w : Word) : i.text ≠ dataText w := by
  intro h
  obtain ⟨t, _, hw⟩ := toList_dataText w
  have hlist := congrArg String.toList h
  rw [Instruction.toList_text, hw] at hlist
  cases hname : i.opcode.name.toList with
  | nil =>
      have hempty := Opcode.ofName?_name i.opcode
      rw [String.toList_eq_nil_iff.mp hname] at hempty
      cases hempty
  | cons c cs =>
      have hlower := i.opcode.isLower_of_mem_name c (by rw [hname]; exact List.mem_cons_self)
      rw [hname, List.cons_append] at hlist
      obtain ⟨rfl, _⟩ := List.cons.inj hlist
      cases hlower

/-- A first word and the operands behind it, position by position. -/
theorem wordAt_of_operands {us ws : Array Word} {a n : Nat} (hfirst : wordAt us a = wordAt ws a)
    (h : (List.range n).map (fun k => wordAt us (a + 1 + k)) =
      (List.range n).map (fun k => wordAt ws (a + 1 + k))) {k : Nat} (hk : k < 1 + n) :
    wordAt us (a + k) = wordAt ws (a + k) := by
  cases k with
  | zero => exact hfirst
  | succ j =>
      have hj := List.map_inj_left.mp h j (List.mem_range.mpr (by omega))
      rw [Nat.add_assoc, Nat.add_comm 1 j] at hj
      exact hj

/-- Two lines at the same address show the same only if they cover the same words. -/
theorem words_of_lineText {us ws : Array Word} {addr : Word} (h : lineText us addr = lineText ws addr) :
    lineSize us addr = lineSize ws addr ∧
      ∀ k < lineSize us addr, wordAt us (addr.toNat + k) = wordAt ws (addr.toNat + k) := by
  unfold lineText at h
  cases hu : Opcode.ofWord? (wordAt us addr.toNat) with
  | none =>
      rw [Instruction.decode_of_none hu] at h
      cases hw : Opcode.ofWord? (wordAt ws addr.toNat) with
      | none =>
          rw [Instruction.decode_of_none hw] at h
          have hword := dataText_inj h
          refine ⟨by rw [lineSize_eq, lineSize_eq, hword], ?_⟩
          intro k hk
          rw [lineSize_eq, span_of_data hu] at hk
          obtain rfl : k = 0 := by omega
          exact hword
      | some op =>
          rw [Instruction.decode_of_some hw] at h
          exact absurd h.symm (text_ne_dataText _ _)
  | some op =>
      rw [Instruction.decode_of_some hu] at h
      cases hw : Opcode.ofWord? (wordAt ws addr.toNat) with
      | none =>
          rw [Instruction.decode_of_none hw] at h
          exact absurd h (text_ne_dataText _ _)
      | some op' =>
          rw [Instruction.decode_of_some hw] at h
          obtain ⟨hop, hoperands⟩ := Instruction.text_inj (by simp) (by simp) h
          obtain rfl : op = op' := hop
          have hword : wordAt us addr.toNat = wordAt ws addr.toNat :=
            (Opcode.ofWord?_eq_some_iff.mp hu).trans (Opcode.ofWord?_eq_some_iff.mp hw).symm
          refine ⟨by rw [lineSize_eq, lineSize_eq, hword], ?_⟩
          intro k hk
          rw [lineSize_eq, span_of_opcode (Opcode.ofWord?_eq_some_iff.mp hu)] at hk
          exact wordAt_of_operands hword hoperands hk

/-- Two lines at the same address are the same only if they cover the same words. -/
theorem words_of_line {us ws : Array Word} {addr : Word} (h : line us false addr = line ws false addr) :
    lineSize us addr = lineSize ws addr ∧
      ∀ k < lineSize us addr, wordAt us (addr.toNat + k) = wordAt ws (addr.toNat + k) := by
  rw [line_plain, line_plain] at h
  exact words_of_lineText (String.append_right_inj _ |>.mp h)

end Listing

open Listing

/-- The line of a given number in a listing. -/
theorem getElem?_listing_of_lt {ws : Array Word} (hsize : ws.size ≤ 65536) {start : Word} {count i : Nat}
    (hi : i < (listing ws false start count).length) :
    (listing ws false start count)[i]? =
      some (line ws false (lineAddr (position ws start.toNat i))) := by
  rw [getElem?_listing hsize, if_pos ((lt_length_listing_iff hsize).mp hi)]

section

variable {us ws : Array Word} {start : Word} {count : Nat}

/-- Lines of two equal listings that start at the same position are the same. -/
theorem line_of_listing (husize : us.size ≤ 65536) (hwsize : ws.size ≤ 65536)
    (h : listing us false start count = listing ws false start count) {i : Nat}
    (hi : i < (listing us false start count).length)
    (hposition : position us start.toNat i = position ws start.toNat i) :
    line us false (lineAddr (position us start.toNat i)) =
      line ws false (lineAddr (position us start.toNat i)) := by
  have hu := getElem?_listing_of_lt husize hi
  have hw := getElem?_listing_of_lt hwsize (h ▸ hi)
  rw [h, hw, ← hposition] at hu
  exact (Option.some.inj hu).symm

/-- Two equal listings have their lines at the same positions. -/
theorem positions_of_listing (husize : us.size ≤ 65536) (hwsize : ws.size ≤ 65536)
    (h : listing us false start count = listing ws false start count) {i : Nat}
    (hi : i ≤ (listing us false start count).length) :
    position us start.toNat i = position ws start.toNat i := by
  induction i with
  | zero => rfl
  | succ i ih =>
      have hposition := ih (by omega)
      have hlt := ((lt_length_listing_iff husize).mp hi).2
      -- The lines before are the same, so they end at the same position.
      obtain ⟨hsize, _⟩ := words_of_line (line_of_listing husize hwsize h hi hposition)
      rw [position_succ, position_succ, ← hposition, ← add_lineSize (by omega),
        ← add_lineSize (by omega), hsize]

end

theorem getElem?_of_wordAt {us ws : Array Word} (hsame : us.size = ws.size) {a : Nat}
    (h : wordAt us a = wordAt ws a) : us[a]? = ws[a]? := by
  unfold wordAt at h
  by_cases ha : a < us.size
  · have ha' : a < ws.size := by omega
    simpa [ha, ha'] using h
  · have ha' : ¬ a < ws.size := by omega
    simp [ha, ha']

/-- **A listing determines its words.**  Two lists of the same length with the same listing agree in
every word that a line of the listing covers.  In particular the texts of two decoded instructions are
equal only if opcodes and operand words are, and no instruction has the text of a data word. -/
theorem listing_determines_words :
    (∀ (us ws : Array Word) (start : Word) (count : Nat), us.size = ws.size → us.size ≤ 65536 →
      listing us false start count = listing ws false start count →
      ∀ i < (listing us false start count).length, ∀ a, position us start.toNat i ≤ a →
        a < position us start.toNat i + lineSize us (lineAddr (position us start.toNat i)) →
        us[a]? = ws[a]?) ∧
    (∀ (read read' : Nat → Word) (addr addr' : Word) (i j : Instruction),
      Instruction.decode read addr = .ok i → Instruction.decode read' addr' = .ok j →
      i.text = j.text → i.opcode = j.opcode ∧ i.operands = j.operands) ∧
    ∀ (i : Instruction) (w : Word), i.text ≠ dataText w := by
  refine ⟨?_, ?_, text_ne_dataText⟩
  · intro us ws start count hsame hsize h i hi a hle hlt
    have hposition := positions_of_listing hsize (hsame ▸ hsize) h (Nat.le_of_lt hi)
    obtain ⟨_, hwords⟩ := words_of_line (line_of_listing hsize (hsame ▸ hsize) h hi hposition)
    have hbelow := ((lt_length_listing_iff hsize).mp hi).2
    rw [toNat_lineAddr (by omega)] at hwords
    have hword := hwords (a - position us start.toNat i) (by omega)
    rw [Nat.add_sub_cancel' hle] at hword
    exact getElem?_of_wordAt hsame hword
  · intro read read' addr addr' i j hi hj h
    exact Instruction.text_inj (Instruction.length_operands_of_decode hi)
      (Instruction.length_operands_of_decode hj) h

/-- Two lists that both start with the `out` of a space.  Their listings of one line are the same, so
they agree in its two words, and they differ in the word behind it. -/
theorem space_listed_twice :
    listing #[19, 32, 9] false 0 1 = ["00000: out 32 ' '"] ∧
    listing #[19, 32, 9] false 0 1 = listing #[19, 32, 7] false 0 1 ∧
    (#[19, 32, 9] : Array Word)[1]? = (#[19, 32, 7] : Array Word)[1]? ∧
    (#[19, 32, 9] : Array Word)[2]? ≠ (#[19, 32, 7] : Array Word)[2]? ∧
    ∃ i j, Instruction.decode (wordAt #[19, 32, 9]) 0 = .ok i ∧
      Instruction.decode (wordAt #[19, 32, 7]) 0 = .ok j ∧ i.text = "out 32 ' '" ∧
      i.opcode = j.opcode ∧ i.operands = j.operands := by
  have hfirst : listing #[19, 32, 9] false 0 1 = ["00000: out 32 ' '"] := by decide
  have hsecond : listing #[19, 32, 7] false 0 1 = ["00000: out 32 ' '"] := by decide
  have hsame := hfirst.trans hsecond.symm
  obtain ⟨i, j, hi, hj, htext, htexts⟩ : ∃ i j, Instruction.decode (wordAt #[19, 32, 9]) 0 = .ok i ∧
      Instruction.decode (wordAt #[19, 32, 7]) 0 = .ok j ∧ i.text = "out 32 ' '" ∧
      i.text = j.text := ⟨_, _, rfl, rfl, rfl, rfl⟩
  obtain ⟨hwords, hinstructions, _⟩ := listing_determines_words
  obtain ⟨hop, hoperands⟩ := hinstructions _ _ _ _ i j hi hj htexts
  have hword := hwords #[19, 32, 9] #[19, 32, 7] 0 1 rfl (by decide) hsame 0
    (by rw [hfirst]; decide) 1 (by decide) (by decide)
  exact ⟨hfirst, hsame, hword, by decide, i, j, hi, hj, htext, hop, hoperands⟩

end WordMachine
