import Mathlib.Data.List.Induction
import WordMachine.Proofs.Numeral

/-! # The grammar of numerals

What a numeral is, said without reading it.

* `Text.Digit b c d` : a character is the digit of a value below a base.
* `Text.Digits b cs n` : digits, most significant first, denote a number.
* `Text.Unsigned b cs n` : the same with an optional plus sign in front.
* `Text.Numeral text n` : a text is decimal, or hexadecimal after `0x`.

The readers accept exactly these, up to their bounds (`Text.unsigned?_eq_some_iff`,
`Text.number?_eq_some_iff`). -/

namespace WordMachine.Text

/-- The character is the digit of value `d` in base `b`, a letter being of either case. -/
def Digit (b : Nat) (c : Char) (d : Nat) : Prop :=
  d < b ∧ (c = Nat.digitChar d ∨ c = (Nat.digitChar d).toUpper)

/-- One or more digits denote a number. -/
inductive Digits (b : Nat) : List Char → Nat → Prop
  | single {c : Char} {d : Nat} : Digit b c d → Digits b [c] d
  | snoc {cs : List Char} {c : Char} {n d : Nat} :
      Digits b cs n → Digit b c d → Digits b (cs ++ [c]) (n * b + d)

/-- An optional plus sign and digits denote a number. -/
inductive Unsigned (b : Nat) : List Char → Nat → Prop
  | bare {cs : List Char} {n : Nat} : Digits b cs n → Unsigned b cs n
  | plus {cs : List Char} {n : Nat} : Digits b cs n → Unsigned b ('+' :: cs) n

/-- A text denotes a number: in decimal, or in hexadecimal after `0x`. -/
inductive Numeral (text : String) : Nat → Prop
  | decimal {n : Nat} : Unsigned 10 text.toList n → Numeral text n
  | hexadecimal {cs : List Char} {n : Nat} :
      text.toList = '0' :: 'x' :: cs → Unsigned 16 cs n → Numeral text n

/-! ### Digits -/

theorem digitValue?_toUpper {d : Nat} (h : d < 16) :
    digitValue? (Nat.digitChar d).toUpper = some d := by
  have hall : ∀ d < 16, digitValue? (Nat.digitChar d).toUpper = some d := by decide
  exact hall d h

theorem eq_digitChar_of_digitValue? {c : Char} {d : Nat} (h : digitValue? c = some d)
    (hd : d < 16) : c = Nat.digitChar d ∨ c = (Nat.digitChar d).toUpper := by
  -- The codes of the sixteen digits, from which a character is known by its own code.
  have hlower : ∀ d < 16, (Nat.digitChar d).toNat = if d < 10 then d + 48 else d + 87 := by decide
  have hupper : ∀ d < 16,
      (Nat.digitChar d).toUpper.toNat = if d < 10 then d + 48 else d + 55 := by decide
  unfold digitValue? at h
  split at h
  next hc =>
    change 48 ≤ c.toNat ∧ c.toNat ≤ 57 at hc
    cases h
    left
    apply Char.toNat_inj.mp
    rw [hlower _ hd, if_pos (by omega)]
    omega
  next =>
    split at h
    next hc =>
      change 97 ≤ c.toNat ∧ c.toNat ≤ 122 at hc
      cases h
      left
      apply Char.toNat_inj.mp
      rw [hlower _ hd, if_neg (by omega)]
      omega
    next =>
      split at h
      next hc =>
        change 65 ≤ c.toNat ∧ c.toNat ≤ 90 at hc
        cases h
        right
        apply Char.toNat_inj.mp
        rw [hupper _ hd, if_neg (by omega)]
        omega
      next => cases h

theorem digit?_eq_some_iff {b : Nat} (hb : b ≤ 16) {c : Char} {d : Nat} :
    digit? b c = some d ↔ Digit b c d := by
  unfold digit? Digit
  rw [Option.filter_eq_some_iff]
  constructor
  · rintro ⟨hvalue, hlt⟩
    have hlt : d < b := by simpa using hlt
    exact ⟨hlt, eq_digitChar_of_digitValue? hvalue (by omega)⟩
  · rintro ⟨hlt, rfl | rfl⟩
    · exact ⟨digitValue?_digitChar (by omega), by simpa using hlt⟩
    · exact ⟨digitValue?_toUpper (by omega), by simpa using hlt⟩

theorem digits?_snoc (b acc : Nat) (cs : List Char) (c : Char) :
    digits? b acc (cs ++ [c]) =
      (digits? b acc cs).bind fun n => (digit? b c).map fun d => n * b + d := by
  rw [digits?_append]
  congr 1
  funext n
  rw [digits?]
  cases digit? b c with
  | none => rfl
  | some d => rfl

/-- Reading digits behind no value accepts the digits and gives what they denote. -/
theorem digits?_eq_some_iff {b : Nat} (hb : b ≤ 16) {cs : List Char} {n : Nat} :
    (cs ≠ [] ∧ digits? b 0 cs = some n) ↔ Digits b cs n := by
  constructor
  · rintro ⟨hcs, h⟩
    induction cs using List.reverseRecOn generalizing n with
    | nil => exact absurd rfl hcs
    | append_singleton cs c ih =>
        rw [digits?_snoc, Option.bind_eq_some_iff] at h
        obtain ⟨m, hm, hc⟩ := h
        obtain ⟨d, hd, rfl⟩ := Option.map_eq_some_iff.mp hc
        have hdigit := (digit?_eq_some_iff hb).mp hd
        rcases eq_or_ne cs [] with rfl | hne
        · cases hm
          simpa using Digits.single hdigit
        · exact .snoc (ih hne hm) hdigit
  · intro h
    induction h with
    | single hd => simp [digits?, (digit?_eq_some_iff hb).mpr hd]
    | snoc _ hd ih =>
        rw [digits?_snoc, ih.2, (digit?_eq_some_iff hb).mpr hd]
        exact ⟨by simp, rfl⟩

/-- A list that begins with something else than a digit denotes nothing. -/
theorem not_digits_of_digit? {b : Nat} (hb : b ≤ 16) {c : Char} (hc : digit? b c = none)
    (cs : List Char) (n : Nat) : ¬Digits b (c :: cs) n := by
  intro h
  have hread := ((digits?_eq_some_iff hb).mpr h).2
  rw [digits?, hc] at hread
  cases hread

/-! ### Readers -/

theorem digits_dropPlus_iff {b : Nat} (hb : b ≤ 16) {cs : List Char} {n : Nat} :
    Digits b (dropPlus cs) n ↔ Unsigned b cs n := by
  have hplus : digit? b '+' = none := rfl
  constructor
  · intro h
    unfold dropPlus at h
    split at h
    next => exact .plus h
    next => exact .bare h
  · rintro (h | h)
    · unfold dropPlus
      split
      next => exact absurd h (not_digits_of_digit? hb hplus _ _)
      next => exact h
    · exact h

/-- An unsigned numeral is read if and only if it denotes a number within the bound. -/
theorem unsigned?_eq_some_iff {b : Nat} (hb : b ≤ 16) {bound : Nat} {cs : List Char} {n : Nat} :
    unsigned? b bound cs = some n ↔ Unsigned b cs n ∧ n ≤ bound := by
  rw [← digits_dropPlus_iff hb, ← digits?_eq_some_iff hb]
  unfold unsigned?
  split
  next h => simp [h]
  next h =>
    have hne : dropPlus cs ≠ [] := h
    rw [Option.filter_eq_some_iff]
    simp [hne]

/-- The mark of hexadecimal is no decimal digit. -/
theorem not_unsigned_ten (cs : List Char) (n : Nat) : ¬Unsigned 10 ('0' :: 'x' :: cs) n := by
  intro h
  have hread := ((digits?_eq_some_iff (by decide)).mpr ((digits_dropPlus_iff (by decide)).mpr h)).2
  have hnone : digits? 10 0 ('0' :: 'x' :: cs) = none := rfl
  exact absurd (hnone.symm.trans hread) (by simp)

/-- A numeral is read if and only if it denotes a number within the bound. -/
theorem number?_eq_some_iff {bound : Nat} {text : String} {n : Nat} :
    number? bound text = some n ↔ Numeral text n ∧ n ≤ bound := by
  unfold number?
  split
  next cs htext =>
    rw [unsigned?_eq_some_iff (by decide)]
    refine and_congr_left fun _ => ⟨.hexadecimal htext, ?_⟩
    rintro (h | ⟨h, hn⟩)
    · rw [htext] at h
      exact absurd h (not_unsigned_ten cs n)
    · cases htext.symm.trans h
      exact hn
  next htext =>
    rw [unsigned?_eq_some_iff (by decide)]
    refine and_congr_left fun _ => ⟨.decimal, ?_⟩
    rintro (h | ⟨h, hn⟩)
    · exact h
    · exact absurd h (htext _)

end WordMachine.Text
