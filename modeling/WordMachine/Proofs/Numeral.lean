import Mathlib.Data.Nat.Digits.Defs
import WordMachine.Text.Numeral

/-! # Written numbers

A number is written with the digits of its base, so a numeral reads back as the number, with any
number of zeros in front of it (`Text.digits?_zeros_append`, `Text.digits?_toDigits`).  A decimal numeral
ends in front of the first character that is no digit, so that a number can be told from a text that
it stands in front of (`Text.toDigits_append_inj`). -/

namespace WordMachine.Text

/-! ### Digits -/

/-- Whether a character is a lower-case hexadecimal digit. -/
def isLowerHex (c : Char) : Bool := ('0' ≤ c && c ≤ '9') || ('a' ≤ c && c ≤ 'f')

theorem exists_digit_of_mem {b n : Nat} (hb : 1 < b) {c : Char} (h : c ∈ Nat.toDigits b n) :
    ∃ d < b, c = Nat.digitChar d := by
  induction n using Nat.strong_induction_on with
  | _ n ih =>
      rcases Nat.lt_or_ge n b with hlt | hge
      · rw [Nat.toDigits_of_lt_base hlt, List.mem_singleton] at h
        exact ⟨n, hlt, h⟩
      · rw [Nat.toDigits_of_base_le hb hge, List.mem_append, List.mem_singleton] at h
        rcases h with h | h
        · exact ih (n / b) (Nat.div_lt_self (by omega) hb) h
        · exact ⟨n % b, Nat.mod_lt n (by omega), h⟩

theorem digitValue?_digitChar {d : Nat} (h : d < 16) : digitValue? (Nat.digitChar d) = some d := by
  have hall : ∀ d < 16, digitValue? (Nat.digitChar d) = some d := by decide
  exact hall d h

theorem isLowerHex_digitChar {d : Nat} (h : d < 16) : isLowerHex (Nat.digitChar d) = true := by
  have hall : ∀ d < 16, isLowerHex (Nat.digitChar d) = true := by decide
  exact hall d h

theorem digit?_digitChar {b d : Nat} (hb : b ≤ 16) (h : d < b) :
    digit? b (Nat.digitChar d) = some d := by
  unfold digit?
  rw [digitValue?_digitChar (by omega)]
  simp [h]

/-! ### Reading back -/

theorem digits?_append (b acc : Nat) (xs ys : List Char) :
    digits? b acc (xs ++ ys) = (digits? b acc xs).bind (fun v => digits? b v ys) := by
  induction xs generalizing acc with
  | nil => rfl
  | cons c cs ih =>
      rw [List.cons_append, digits?, digits?]
      cases digit? b c with
      | none => rfl
      | some d => exact ih _

theorem digits?_zeros_append {b : Nat} (hb : 1 < b) (hb' : b ≤ 16) (n : Nat) (cs : List Char) :
    digits? b 0 (List.replicate n '0' ++ cs) = digits? b 0 cs := by
  have hzero : digit? b '0' = some 0 := digit?_digitChar hb' (d := 0) (by omega)
  induction n with
  | zero => rfl
  | succ n ih =>
      rw [List.replicate_succ, List.cons_append, digits?, hzero]
      simpa using ih

/-- A numeral reads back as the number that it was written for. -/
theorem digits?_toDigits {b : Nat} (hb : 1 < b) (hb' : b ≤ 16) (n : Nat) :
    digits? b 0 (Nat.toDigits b n) = some n := by
  induction n using Nat.strong_induction_on with
  | _ n ih =>
      rcases Nat.lt_or_ge n b with hlt | hge
      · rw [Nat.toDigits_of_lt_base hlt, digits?, digit?_digitChar hb' hlt]
        simp [digits?]
      · have hmod := Nat.mod_lt n (show 0 < b by omega)
        rw [Nat.toDigits_of_base_le hb hge, digits?_append,
          ih (n / b) (Nat.div_lt_self (by omega) hb), Option.bind_some, digits?,
          digit?_digitChar hb' hmod]
        simp [digits?, Nat.div_add_mod']

/-! ### Padded numerals -/

theorem toList_zeroPadded (width : Nat) (text : String) :
    (zeroPadded width text).toList =
      List.replicate (width - text.toList.length) '0' ++ text.toList := by
  unfold zeroPadded
  rw [String.toList_append, String.toList_ofList, String.length_toList]

theorem toList_decimal (n : Nat) : (decimal n).toList = Nat.toDigits 10 n := String.toList_ofList

theorem toList_rawWord (n : Nat) :
    (rawWord n).toList =
      List.replicate (4 - (Nat.toDigits 16 n).length) '0' ++ Nat.toDigits 16 n := by
  unfold rawWord hexadecimal
  rw [toList_zeroPadded, String.toList_ofList]

/-- An address of sixteen bits is written with five digits. -/
theorem length_address {n : Nat} (h : n < 65536) : (address n).toList.length = 5 := by
  have hle : (Nat.toDigits 10 n).length ≤ 5 :=
    (Nat.length_toDigits_le_iff (by decide) (by decide)).mpr (by omega)
  unfold address
  rw [toList_zeroPadded, toList_decimal, List.length_append, List.length_replicate]
  omega

/-- `RawNumeral cs w`: the characters are four lower-case hexadecimal digits that denote the word. -/
structure RawNumeral (cs : List Char) (w : UInt16) : Prop where
  length : cs.length = 4
  lower : ∀ c ∈ cs, isLowerHex c = true
  value : digits? 16 0 cs = some w.toNat

theorem rawNumeral_rawWord (w : UInt16) : RawNumeral (rawWord w.toNat).toList w := by
  have hle : (Nat.toDigits 16 w.toNat).length ≤ 4 :=
    (Nat.length_toDigits_le_iff (by decide) (by decide)).mpr w.toNat_lt
  rw [toList_rawWord]
  refine ⟨?_, ?_, ?_⟩
  · rw [List.length_append, List.length_replicate]
    omega
  · intro c hc
    rcases List.mem_append.mp hc with hc | hc
    · rw [List.eq_of_mem_replicate hc]
      decide
    · obtain ⟨d, hd, rfl⟩ := exists_digit_of_mem (by decide) hc
      exact isLowerHex_digitChar hd
  · rw [digits?_zeros_append (by decide) (by decide), digits?_toDigits (by decide) (by decide)]

/-! ### Numerals in front of other texts -/

/-- A text all of whose characters are in a class can be told from what follows it, if that does not
begin with a character of the class. -/
theorem append_inj_of_class {p : Char → Bool} {xs ys s t : List Char} (hxs : ∀ c ∈ xs, p c = true)
    (hys : ∀ c ∈ ys, p c = true) (hs : ∀ c ∈ s.head?, p c = false)
    (ht : ∀ c ∈ t.head?, p c = false) (h : xs ++ s = ys ++ t) : xs = ys ∧ s = t := by
  have hrest : ∀ {u : List Char}, (∀ c ∈ u.head?, p c = false) → u.takeWhile p = [] := by
    intro u hu
    cases u with
    | nil => rfl
    | cons c cs => simp [hu c rfl]
  have htake := congrArg (List.takeWhile p) h
  rw [List.takeWhile_append_of_pos hxs, List.takeWhile_append_of_pos hys, hrest hs, hrest ht,
    List.append_nil, List.append_nil] at htake
  subst htake
  exact ⟨rfl, List.append_cancel_left h⟩

/-- The characters do not begin with a decimal digit. -/
def NoDigit (cs : List Char) : Prop := ∀ c ∈ cs.head?, c.isDigit = false

theorem isDigit_of_mem {n : Nat} : ∀ c ∈ Nat.toDigits 10 n, c.isDigit = true := by
  intro c hc
  exact Nat.isDigit_of_mem_toDigits (by decide) (by decide) hc

/-- A decimal numeral can be told from what follows it. -/
theorem toDigits_append_inj {m n : Nat} {s t : List Char} (hs : NoDigit s) (ht : NoDigit t)
    (h : Nat.toDigits 10 m ++ s = Nat.toDigits 10 n ++ t) : m = n ∧ s = t := by
  obtain ⟨hdigits, hrest⟩ := append_inj_of_class isDigit_of_mem isDigit_of_mem hs ht h
  refine ⟨?_, hrest⟩
  rw [← Nat.ofDigitChars_ten_toDigits (n := m), hdigits, Nat.ofDigitChars_ten_toDigits]

end WordMachine.Text
