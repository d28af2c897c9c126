import WordMachine.Proofs.Legibility
import WordMachine.Proofs.Loading
import WordMachine.Proofs.RawColumn

/-! # Rendered lines are single lines

Words of a program and of its registers reach a listing or a trace as characters on three ways: the literal
of an `out` and a data word in a listing, and the value of an `out` in a trace.  On all three ways they are
quoted, and a quoted character is never a control character.  All else in a line is written in digits,
letters and a few signs.  So a line never breaks, and the text of a listing, cut at its line feeds, gives
back the lines.

* `Text.IsControlCode` : the general category `Cc`, by its codes.
* `Text.ControlFree` : a text without control characters.
* `Text.controlFree_quoteCode` : a quoted word is such a text, whichever word it is.
* `rendered_lines_are_single` : the statement about listings and traces. -/

namespace WordMachine

namespace Text

/-- The codes of the general category `Cc`: the codes below the space, and from the delete code up to the
end of the second block of controls. -/
def IsControlCode (n : Nat) : Prop := n ≤ 0x1F ∨ (0x7F ≤ n ∧ n ≤ 0x9F)

instance (n : Nat) : Decidable (IsControlCode n) :=
  inferInstanceAs (Decidable (n ≤ 0x1F ∨ (0x7F ≤ n ∧ n ≤ 0x9F)))

theorem isControl_iff {c : Char} : isControl c = true ↔ IsControlCode c.toNat := by
  simp only [isControl, IsControlCode, Bool.or_eq_true, Bool.and_eq_true, decide_eq_true_eq]
  omega

/-- A text without control characters.  It is a test, so that fixed texts pass it by computation. -/
def ControlFree (text : String) : Prop := text.toList.all (fun c => !isControl c) = true

theorem controlFree_iff {text : String} :
    ControlFree text ↔ ∀ c ∈ text.toList, ¬ IsControlCode c.toNat := by
  simp [ControlFree, ← isControl_iff]

@[simp] theorem controlFree_space : ControlFree " " := rfl

@[simp] theorem controlFree_colon : ControlFree ": " := rfl

@[simp] theorem controlFree_r : ControlFree "r" := rfl

/-! ### Texts that are put together -/

@[simp] theorem controlFree_append {s t : String} :
    ControlFree (s ++ t) ↔ ControlFree s ∧ ControlFree t := by
  simp [ControlFree]

theorem controlFree_join {ss : List String} (h : ∀ s ∈ ss, ControlFree s) :
    ControlFree (String.join ss) := by
  induction ss with
  | nil => rfl
  | cons s ss ih =>
      rw [String.join_cons, controlFree_append]
      exact ⟨h s List.mem_cons_self, ih (fun t ht => h t (List.mem_cons_of_mem s ht))⟩

theorem controlFree_intercalate {sep : String} (hsep : ControlFree sep) {ss : List String}
    (h : ∀ s ∈ ss, ControlFree s) : ControlFree (sep.intercalate ss) := by
  induction ss with
  | nil => rfl
  | cons s ss ih =>
      have hs := h s List.mem_cons_self
      have hrest := ih (fun t ht => h t (List.mem_cons_of_mem s ht))
      cases ss with
      | nil => simpa using hs
      | cons t ts => simp [String.intercalate_cons_cons, hs, hsep, hrest]

theorem controlFree_replicate {c : Char} (hc : isControl c = false) (n : Nat) :
    ControlFree (String.ofList (List.replicate n c)) := by
  simp [ControlFree, hc]

/-! ### Numbers -/

theorem isControl_digitChar {d : Nat} (h : d < 16) : isControl (Nat.digitChar d) = false := by
  have hall : ∀ d < 16, isControl (Nat.digitChar d) = false := by decide
  exact hall d h

theorem controlFree_toDigits {b : Nat} (hb : 1 < b) (hb' : b ≤ 16) (n : Nat) :
    ControlFree (String.ofList (Nat.toDigits b n)) := by
  simp only [ControlFree, String.toList_ofList, List.all_eq_true]
  intro c hc
  obtain ⟨d, hd, rfl⟩ := exists_digit_of_mem hb hc
  simp [isControl_digitChar (show d < 16 by omega)]

@[simp] theorem controlFree_decimal (n : Nat) : ControlFree (decimal n) :=
  controlFree_toDigits (by decide) (by decide) n

@[simp] theorem controlFree_hexadecimal (n : Nat) : ControlFree (hexadecimal n) :=
  controlFree_toDigits (by decide) (by decide) n

@[simp] theorem controlFree_zeroPadded {width : Nat} {text : String} :
    ControlFree (zeroPadded width text) ↔ ControlFree text := by
  simp [zeroPadded, controlFree_replicate (show isControl '0' = false by decide)]

@[simp] theorem controlFree_spacePadded {width : Nat} {text : String} :
    ControlFree (spacePadded width text) ↔ ControlFree text := by
  simp [spacePadded, controlFree_replicate (show isControl ' ' = false by decide)]

@[simp] theorem controlFree_address (n : Nat) : ControlFree (address n) := by
  simp [address]

@[simp] theorem controlFree_rawWord (n : Nat) : ControlFree (rawWord n) := by
  simp [rawWord]

/-! ### Quoted words -/

/-- A word that shows as a character shows as no control character, the line feed apart. -/
theorem isControl_of_printable? {w : Word} {c : Char} (h : printable? w = some c) (hc : c ≠ '\n') :
    isControl c = false := by
  obtain ⟨_, hshown⟩ := Option.filter_eq_some_iff.mp h
  simpa [hc] using hshown

@[simp] theorem controlFree_quoteCode (w : Word) : ControlFree (quoteCode w) := by
  have hquote : ControlFree "'" := rfl
  unfold quoteCode
  split
  next => rfl
  next c hne hshown =>
    have hc := isControl_of_printable? hshown hne
    have hsingle : ControlFree (String.singleton c) := by simp [ControlFree, hc]
    simp only [controlFree_append, hquote, hsingle, and_self]
  next =>
    have hopen : ControlFree "'\\u\x7b" := rfl
    have hclose : ControlFree "\x7d'" := rfl
    simp [hopen, hclose]

end Text

open Text

/-! ### Operands and instructions -/

@[simp] theorem Operand.controlFree_badText (w : Word) : ControlFree (badText w) := by
  have hopen : ControlFree "<bad " := rfl
  have hclose : ControlFree ">" := rfl
  simp [badText, hopen, hclose]

@[simp] theorem Operand.controlFree_text (o : Operand) : ControlFree o.text := by
  cases o <;> simp [text]

@[simp] theorem Operand.controlFree_textOfWord (w : Word) : ControlFree (textOfWord w) := by
  unfold textOfWord
  split <;> simp

@[simp] theorem Opcode.controlFree_name (op : Opcode) : ControlFree op.name := by
  cases op <;> rfl

/-- Texts that each stand behind a space. -/
theorem controlFree_spaced {ss : List String} (h : ∀ s ∈ ss, ControlFree s) :
    ControlFree (String.join (ss.map (fun s => " " ++ s))) := by
  apply controlFree_join
  intro t ht
  obtain ⟨s, hs, rfl⟩ := List.mem_map.mp ht
  simp [h s hs]

@[simp] theorem Instruction.controlFree_operandText (ws : List Word) :
    ControlFree (operandText ws) := by
  have hspaced : ControlFree (String.join ((ws.map Operand.textOfWord).map (fun s => " " ++ s))) := by
    apply controlFree_spaced
    intro s hs
    obtain ⟨w, _, rfl⟩ := List.mem_map.mp hs
    exact Operand.controlFree_textOfWord w
  rw [List.map_map] at hspaced
  exact hspaced

@[simp] theorem Instruction.controlFree_text (i : Instruction) : ControlFree i.text := by
  have hquoted : ControlFree i.quotedText := by
    unfold quotedText
    split
    · simp
    · rfl
  have htext : i.text = i.opcode.name ++ operandText i.operands ++ i.quotedText := rfl
  simp [htext, hquoted]

/-! ### Lines of a listing -/

namespace Listing

@[simp] theorem controlFree_dataText (w : Word) : ControlFree (dataText w) := by
  have hword : ControlFree ".word " := rfl
  unfold dataText
  split <;> simp [hword]

@[simp] theorem controlFree_rawColumn (ws : List Word) : ControlFree (rawColumn ws) := by
  rw [rawColumn, controlFree_spacePadded]
  apply controlFree_intercalate controlFree_space
  intro s hs
  obtain ⟨w, _, rfl⟩ := List.mem_map.mp hs
  exact controlFree_rawWord w.toNat

theorem controlFree_line (ws : Array Word) (raw : Bool) (addr : Word) :
    ControlFree (line ws raw addr) := by
  have hcolumn (vs : List Word) : ControlFree (if raw then rawColumn vs else "") := by
    split
    · exact controlFree_rawColumn vs
    · rfl
  unfold line
  cases Instruction.decode (wordAt ws) addr with
  | ok i => simp [hcolumn]
  | error w => simp [hcolumn]

end Listing

open Listing

theorem controlFree_of_mem_listing {ws : Array Word} {raw : Bool} {start : Word} {count : Nat}
    {l : String} (hl : l ∈ listing ws raw start count) : ControlFree l := by
  obtain ⟨a, _, rfl⟩ := List.mem_map.mp hl
  exact controlFree_line ws raw (lineAddr a)

theorem toList_listingText (ws : Array Word) (raw : Bool) (start : Word) (count : Nat) :
    (listingText ws raw start count).toList =
      ((listing ws raw start count).map String.toList).flatMap (· ++ ['\n']) := by
  simp [listingText, String.toList_join, List.flatMap_map]

/-! ### Lines of a trace -/

namespace Trace

@[simp] theorem controlFree_destinationText (w : Word) : ControlFree (destinationText w) := by
  have hopen : ControlFree "[" := rfl
  have hclose : ControlFree "]" := rfl
  unfold destinationText
  split <;> simp [hopen, hclose]

@[simp] theorem controlFree_sourceText (c : Core) (w : Word) : ControlFree (sourceText c w) := by
  have hequals : ControlFree "=" := rfl
  unfold sourceText
  split <;> simp [hequals]

theorem controlFree_operandTexts (c : Core) (i : Instruction) :
    ∀ s ∈ operandTexts c i, ControlFree s := by
  intro s hs
  unfold operandTexts at hs
  split at hs
  · cases hs
  · rcases List.mem_cons.mp hs with rfl | hs
    · split <;> simp
    · obtain ⟨w, _, rfl⟩ := List.mem_map.mp hs
      exact controlFree_sourceText c w

@[simp] theorem controlFree_outputText (c : Core) (i : Instruction) : ControlFree (outputText c i) := by
  unfold outputText
  split
  · split
    · simp
    · rfl
  · rfl

theorem controlFree_line (c : Core) (i : Instruction) : ControlFree (line c i) := by
  simp [line, controlFree_spaced (controlFree_operandTexts c i)]

end Trace

/-- **Rendered lines are single lines without control characters.**  No line of a listing has a control
character in it, with or without the column of raw words, and neither has a trace line of any instruction,
whatever the core holds.  So the text of a listing, cut at its line feeds, gives back exactly the lines, each
of them closed by one line feed. -/
theorem rendered_lines_are_single :
    (∀ (ws : Array Word) (raw : Bool) (start : Word) (count : Nat),
      ∀ l ∈ listing ws raw start count, ∀ x ∈ l.toList, ¬ IsControlCode x.toNat) ∧
    (∀ (c : Core) (i : Instruction), ∀ x ∈ (Trace.line c i).toList, ¬ IsControlCode x.toNat) ∧
    ∀ (ws : Array Word) (raw : Bool) (start : Word) (count : Nat),
      pieces (· == '\n') (listingText ws raw start count).toList =
        (listing ws raw start count).map String.toList ++ [[]] := by
  refine ⟨?_, ?_, ?_⟩
  · intro ws raw start count l hl
    exact controlFree_iff.mp (controlFree_of_mem_listing hl)
  · intro c i
    exact controlFree_iff.mp (Trace.controlFree_line c i)
  · intro ws raw start count
    rw [toList_listingText]
    apply pieces_terminated rfl
    intro xs hxs x hx
    obtain ⟨l, hl, rfl⟩ := List.mem_map.mp hxs
    rw [beq_eq_false_iff_ne]
    rintro rfl
    -- The line feed is a control character.
    exact controlFree_iff.mp (controlFree_of_mem_listing hl) _ hx (by decide)

/-- The core of a machine that is about to print a control character from a register. -/
def Core.breaking : Core := (Machine.holding [19, 32768] (by decide)).core.setRegister 0 133

/-- An `out` of a line feed and a data word that is a control character, and the trace line of an `out` of a
register that holds one.  All three are shown by their codes. -/
theorem controls_shown_by_code :
    listing #[19, 10, 22] false 0 2 = ["00000: out 10 '\\n'", "00002: .word 22 '\\u\x7b16\x7d'"] ∧
    (∀ x ∈ "00000: out 10 '\\n'".toList, ¬ IsControlCode x.toNat) ∧
    Trace.line Core.breaking ⟨0, .output, [32768]⟩ = "00000: out r0=133 '\\u\x7b85\x7d'" ∧
    (∀ x ∈ "00000: out r0=133 '\\u\x7b85\x7d'".toList, ¬ IsControlCode x.toNat) ∧
    pieces (· == '\n') (listingText #[19, 10, 22] false 0 2).toList =
      ["00000: out 10 '\\n'".toList, "00002: .word 22 '\\u\x7b16\x7d'".toList, []] := by
  have hlisting : listing #[19, 10, 22] false 0 2 =
      ["00000: out 10 '\\n'", "00002: .word 22 '\\u\x7b16\x7d'"] := by decide
  have htrace : Trace.line Core.breaking ⟨0, .output, [32768]⟩ =
      "00000: out r0=133 '\\u\x7b85\x7d'" := by decide
  obtain ⟨hlines, htraces, hpieces⟩ := rendered_lines_are_single
  refine ⟨hlisting, hlines #[19, 10, 22] false 0 2 _ (by simp [hlisting]), htrace, ?_, ?_⟩
  · rw [← htrace]
    exact htraces _ _
  · rw [hpieces, hlisting]
    rfl

end WordMachine
