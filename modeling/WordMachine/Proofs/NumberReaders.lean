import WordMachine.Program.Disassemble
import WordMachine.Proofs.Pieces
import WordMachine.Proofs.Spelling

/-! # The readers of numbers

Numbers are read from commands, from the arguments of the program that lists an image, and from a variable of
the environment.  Each reader accepts the numerals of its grammar that are within its bound, with as many
zeros in front as one likes, and nothing else.  All of them read an address or a word back that was written in
decimal, padded or not.

* `Text.unsigned_zeroPadded` : a number in decimal denotes itself, with any number of zeros in front.
* `Settings.IsLimit` : the texts that set an instruction limit.
* `numbers_are_read_exactly` : the statement about all readers. -/

namespace WordMachine

/-! ### Written numbers -/

namespace Text

theorem unsigned_zeroPadded (width n : Nat) : Unsigned 10 (zeroPadded width (decimal n)).toList n := by
  have hne : (zeroPadded width (decimal n)).toList ≠ [] := by
    rw [toList_zeroPadded, toList_decimal]
    exact List.append_ne_nil_of_right_ne_nil _ Nat.toDigits_ne_nil
  refine .bare ((digits?_eq_some_iff (by decide)).mp ⟨hne, ?_⟩)
  rw [toList_zeroPadded, toList_decimal, digits?_zeros_append (by decide) (by decide),
    digits?_toDigits (by decide) (by decide)]

theorem isBlank_of_mem_zeroPadded {width n : Nat} {c : Char}
    (h : c ∈ (zeroPadded width (decimal n)).toList) : isBlank c = false := by
  rw [toList_zeroPadded, toList_decimal] at h
  rcases List.mem_append.mp h with h | h
  · rw [List.eq_of_mem_replicate h]
    decide
  · obtain ⟨d, hd, rfl⟩ := exists_digit_of_mem (by decide) h
    exact isBlank_of_isLowerHex (isLowerHex_digitChar (by omega))

/-- There is nothing to trim off a text without blanks. -/
theorem trimmed_of_forall {cs : List Char} (h : ∀ c ∈ cs, isBlank c = false) : Trimmed cs cs := by
  refine ⟨[], [], by simp, by simp, ?_, ?_⟩
  · intro c hc
    exact h c (List.mem_of_head? hc)
  · intro c hc
    exact h c (List.mem_of_getLast? hc)

/-- The ways in which a number is written in decimal. -/
inductive WrittenAs (n : Nat) : String → Prop
  | plain : WrittenAs n (decimal n)
  | padded : WrittenAs n (address n)

theorem WrittenAs.exists_width {n : Nat} {text : String} (h : WrittenAs n text) :
    ∃ width, text = zeroPadded width (decimal n) := by
  cases h with
  | plain => exact ⟨0, by simp [zeroPadded]⟩
  | padded => exact ⟨5, rfl⟩

theorem WrittenAs.numeral {n : Nat} {text : String} (h : WrittenAs n text) : Numeral text n := by
  obtain ⟨width, rfl⟩ := h.exists_width
  exact .decimal (unsigned_zeroPadded width n)

end Text

/-! ### The limit -/

namespace Settings

/-- The text, trimmed of blanks, denotes a number of 64 bits in decimal. -/
def IsLimit (text : String) (n : Nat) : Prop :=
  (∃ cs, Text.Trimmed text.toList cs ∧ Text.Unsigned 10 cs n) ∧ n ≤ 2 ^ 64 - 1

theorem limit?_eq_some_iff {text : String} {n : Nat} : limit? text = some n ↔ IsLimit text n := by
  unfold limit? IsLimit
  rw [Text.unsigned?_eq_some_iff (by decide)]
  simp only [← Text.trim_eq_iff, exists_eq_left']
  rfl

theorem isLimit_of_writtenAs {n : Nat} {text : String} (h : Text.WrittenAs n text) (hn : n ≤ 2 ^ 64 - 1) :
    IsLimit text n := by
  obtain ⟨width, rfl⟩ := h.exists_width
  exact ⟨⟨_, Text.trimmed_of_forall fun c hc => Text.isBlank_of_mem_zeroPadded hc,
    Text.unsigned_zeroPadded width n⟩, hn⟩

/-- A number becomes the limit; all else is as without it. -/
theorem override_of_isLimit {s s₁ : Settings} {trace : Option String} {text : String} {n : Nat}
    (h : IsLimit text n) (h₁ : s.override trace none = .ok s₁) :
    s.override trace (some text) = .ok { s₁ with limit := some n } := by
  cases h₁
  simp only [override, limit?_eq_some_iff.mpr h]

theorem override_of_not_isLimit (s : Settings) (trace : Option String) {text : String}
    (h : ∀ n, ¬IsLimit text n) : s.override trace (some text) = .error (.badLimit text) := by
  have hnone : limit? text = none := by
    rw [Option.eq_none_iff_forall_ne_some]
    exact fun n hn => h n (limit?_eq_some_iff.mp hn)
  simp only [override, hnone]

theorem override_eq_ok_iff {s s' : Settings} {trace : Option String} {text : String} :
    s.override trace (some text) = .ok s' ↔
      ∃ n s₁, IsLimit text n ∧ s.override trace none = .ok s₁ ∧ s' = { s₁ with limit := some n } := by
  obtain ⟨s₁, h₁⟩ : ∃ s₁, s.override trace none = .ok s₁ := ⟨_, rfl⟩
  constructor
  · intro h
    by_cases hlimit : ∃ n, IsLimit text n
    · obtain ⟨n, hn⟩ := hlimit
      exact ⟨n, s₁, hn, h₁, Except.ok.inj (h.symm.trans (override_of_isLimit hn h₁))⟩
    · cases h.symm.trans (s.override_of_not_isLimit trace (not_exists.mp hlimit))
  · rintro ⟨n, s₂, hn, h₂, rfl⟩
    exact override_of_isLimit hn h₂

end Settings

/-! ### All readers -/

theorem Disassemble.number?_eq_some_iff {text : String} {n : Nat} :
    number? text = some n ↔ Text.Numeral text n ∧ n ≤ 2 ^ 64 - 1 :=
  Text.number?_eq_some_iff

theorem Command.map_word?_eq_some_iff {text : String} {n : Nat} :
    (word? text).map UInt16.toNat = some n ↔ Text.Numeral text n ∧ n ≤ 65535 := by
  rw [Option.map_eq_some_iff]
  constructor
  · rintro ⟨w, hw, rfl⟩
    have hlt := w.toNat_lt
    exact ⟨word?_eq_some_iff.mp hw, by omega⟩
  · rintro ⟨hn, hle⟩
    have htoNat : (UInt16.ofNat n).toNat = n :=
      UInt16.toNat_ofNat_of_lt' (by simp only [UInt16.size]; omega)
    refine ⟨UInt16.ofNat n, word?_eq_some_iff.mpr ?_, htoNat⟩
    rwa [htoNat]

/-- **Numbers are read by their grammar.**  A command reads the numerals up to the largest word, as a value,
as a count, and as an address if it is inside the memory; the program that lists an image reads those of 64
bits.  A text for the instruction limit is accepted if and only if it is a decimal numeral of 64 bits between
blanks, and then sets the limit to the number and nothing else; any other text is reported.  What was written
in decimal for a word, padded to five digits or not, is read back by all of them. -/
theorem numbers_are_read_exactly :
    (∀ text n, (Command.word? text).map UInt16.toNat = some n ↔ Text.Numeral text n ∧ n ≤ 65535) ∧
    (∀ text n, Command.readCount text = .ok n ↔ Text.Numeral text n ∧ n ≤ 65535) ∧
    (∀ text a, Command.readAddress text = .ok a ↔ Text.Numeral text a.toNat ∧ a.toNat ≤ 32767) ∧
    (∀ text n, Disassemble.number? text = some n ↔ Text.Numeral text n ∧ n ≤ 2 ^ 64 - 1) ∧
    (∀ (s : Settings) trace text s', s.override trace (some text) = .ok s' ↔
      ∃ n s₁, Settings.IsLimit text n ∧ s.override trace none = .ok s₁ ∧
        s' = { s₁ with limit := some n }) ∧
    (∀ (s : Settings) trace text, (∀ n, ¬Settings.IsLimit text n) →
      s.override trace (some text) = .error (.badLimit text)) ∧
    (∀ (w : Word) text, Text.WrittenAs w.toNat text →
      Command.word? text = some w ∧ Disassemble.number? text = some w.toNat ∧
      Settings.limit? text = some w.toNat ∧
      (w.toNat ≤ 32767 → Command.readAddress text = .ok w)) := by
  refine ⟨fun _ _ => Command.map_word?_eq_some_iff, fun _ _ => Command.readCount_eq_ok_iff,
    fun _ _ => Command.readAddress_eq_ok_iff, fun _ _ => Disassemble.number?_eq_some_iff,
    fun _ _ _ _ => Settings.override_eq_ok_iff,
    fun s trace _ h => s.override_of_not_isLimit trace h, ?_⟩
  intro w text hwritten
  have hlt := w.toNat_lt
  refine ⟨Command.word?_eq_some_iff.mpr hwritten.numeral,
    Disassemble.number?_eq_some_iff.mpr ⟨hwritten.numeral, by omega⟩,
    Settings.limit?_eq_some_iff.mpr (Settings.isLimit_of_writtenAs hwritten (by omega)), ?_⟩
  intro hle
  exact Command.readAddress_eq_ok_iff.mpr ⟨hwritten.numeral, hle⟩

/-- The largest word in hexadecimal with a sign behind the mark, one more than it, the largest limit between
blanks, a sign on its own, and a padded address. -/
theorem bounds_are_read :
    Text.Numeral "0x+00fFfF" 65535 ∧ (¬∃ n ≤ 65535, Text.Numeral "65536" n) ∧
    Settings.IsLimit "\u2003+018446744073709551615\n" 18446744073709551615 ∧
    (¬∃ n, Settings.IsLimit "+" n) ∧
    (Text.WrittenAs (13 : Word).toNat "00013" ∧ Command.readAddress "00013" = .ok 13) := by
  obtain ⟨hword, _, _, _, hlimit, _, hback⟩ := numbers_are_read_exactly
  refine ⟨((hword "0x+00fFfF" 65535).mp rfl).1, ?_, ?_, ?_, .padded, ?_⟩
  · rintro ⟨n, hle, hn⟩
    have hnone : (Command.word? "65536").map UInt16.toNat = none := rfl
    cases hnone.symm.trans ((hword "65536" n).mpr ⟨hn, hle⟩)
  · obtain ⟨n, s₁, hn, h₁, hs⟩ := (hlimit {} none "\u2003+018446744073709551615\n"
      { limit := some 18446744073709551615 }).mp rfl
    cases h₁
    cases hs
    exact hn
  · rintro ⟨n, hn⟩
    have hbad : Settings.override {} none (some "+") = .error (.badLimit "+") := rfl
    cases hbad.symm.trans ((hlimit {} none "+" _).mpr ⟨n, _, hn, rfl, rfl⟩)
  · exact (hback 13 "00013" .padded).2.2.2 (by decide)

end WordMachine
