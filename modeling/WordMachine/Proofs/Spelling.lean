import WordMachine.Debugger.Command
import WordMachine.Proofs.NumeralGrammar

/-! # The spelling of commands

Which words spell which command, said without reading them (`Command.Spells`).  A reader of
arguments accepts exactly the numerals in its range, so a line is read as a command if and only if
its words spell it (`Command.read_eq_ok_iff`). -/

namespace WordMachine

/-! ### Arguments -/

namespace Command

/-- The text denotes an address inside the memory. -/
def IsAddress (text : String) (a : Word) : Prop := Text.Numeral text a.toNat ∧ a.toNat ≤ 32767

/-- The text is `r` and the number of a register in decimal. -/
def IsRegister (text : String) (i : Fin 8) : Prop :=
  ∃ cs, text.toList = 'r' :: cs ∧ Text.Unsigned 10 cs i.val

theorem word?_eq_some_iff {text : String} {w : Word} :
    word? text = some w ↔ Text.Numeral text w.toNat := by
  unfold word?
  rw [Option.map_eq_some_iff]
  constructor
  · rintro ⟨n, hn, rfl⟩
    obtain ⟨hnumeral, hle⟩ := Text.number?_eq_some_iff.mp hn
    rwa [UInt16.toNat_ofNat_of_lt' (by simp only [UInt16.size]; omega)]
  · intro h
    have hlt := w.toNat_lt
    exact ⟨w.toNat, Text.number?_eq_some_iff.mpr ⟨h, by omega⟩, UInt16.ofNat_toNat⟩

theorem readCount_eq_ok_iff {text : String} {n : Nat} :
    readCount text = .ok n ↔ Text.Numeral text n ∧ n ≤ 65535 := by
  rw [← Text.number?_eq_some_iff]
  unfold readCount
  split
  next h => simp [h]
  next h => simp [h]

theorem readValue_eq_ok_iff {text : String} {v : Word} :
    readValue text = .ok v ↔ Text.Numeral text v.toNat := by
  rw [← word?_eq_some_iff]
  unfold readValue
  split
  next h => simp [h]
  next h => simp [h]

theorem readAddress_eq_ok_iff {text : String} {a : Word} :
    readAddress text = .ok a ↔ IsAddress text a := by
  unfold IsAddress
  rw [← word?_eq_some_iff]
  unfold readAddress
  split
  next w h =>
    rw [h]
    split
    next hw =>
      have hle := Word.isNarrow_iff.mp hw
      constructor
      · rintro ⟨⟩
        exact ⟨rfl, hle⟩
      · rintro ⟨⟨⟩, _⟩
        rfl
    next hw =>
      constructor
      · rintro ⟨⟩
      · rintro ⟨⟨⟩, hle⟩
        exact absurd (Word.isNarrow_iff.mpr hle) hw
  next h => simp [h]

theorem readRegister_eq_ok_iff {text : String} {i : Fin 8} :
    readRegister text = .ok i ↔ IsRegister text i := by
  have hread {cs : List Char} : Text.unsigned? 10 0xFFFFFFFFFFFFFFFF cs = some i.val ↔
      Text.Unsigned 10 cs i.val := by
    rw [Text.unsigned?_eq_some_iff (by decide), and_iff_left (by omega)]
  unfold readRegister IsRegister
  split
  next cs htext =>
    simp only [htext, List.cons.injEq, true_and, exists_eq_left', ← hread]
    split
    next n hn =>
      rw [hn]
      split
      next hlt => simp [Fin.ext_iff]
      next hlt =>
        have hne : n ≠ i.val := by omega
        simp [hne]
    next hn => simp [hn]
  next htext =>
    constructor
    · rintro ⟨⟩
    · rintro ⟨cs, h, _⟩
      exact absurd h (htext cs)

/-! ### Commands -/

/-- `Spells ws c`: the words spell the command. -/
inductive Spells : List String → Command → Prop
  | blank : Spells [] (.step 1)
  | step {w : String} : w = "n" ∨ w = "next" → Spells [w] (.step 1)
  | steps {w s : String} {n : Nat} :
      w = "n" ∨ w = "next" → Text.Numeral s n ∧ n ≤ 65535 → Spells [w, s] (.step n)
  | resume {w : String} : w = "c" ∨ w = "continue" → Spells [w] .resume
  | report {w : String} : w = "s" ∨ w = "state" → Spells [w] .report
  | history {w : String} : w = "h" ∨ w = "history" → Spells [w] .history
  | list {w : String} : w = "d" ∨ w = "disasm" → Spells [w] (.list none 5)
  | listFrom {w s : String} {a : Word} :
      w = "d" ∨ w = "disasm" → IsAddress s a → Spells [w, s] (.list (some a) 5)
  | listLines {w s t : String} {a n : Word} :
      w = "d" ∨ w = "disasm" → IsAddress s a → Text.Numeral t n.toNat →
      Spells [w, s, t] (.list (some a) n)
  | addBreakpoint {s : String} {a : Word} : IsAddress s a → Spells ["b", s] (.addBreakpoint a)
  | removeBreakpoint {s : String} {a : Word} :
      IsAddress s a → Spells ["rb", s] (.removeBreakpoint a)
  | breakpoints : Spells ["bl"] .breakpoints
  | setRegister {s t : String} {i : Fin 8} {v : Word} :
      IsRegister s i → Text.Numeral t v.toNat → Spells ["set", s, t] (.setRegister i v)
  | poke {s t : String} {a v : Word} :
      IsAddress s a → Text.Numeral t v.toNat → Spells ["poke", s, t] (.poke a v)
  | peek {s : String} {a : Word} : IsAddress s a → Spells ["peek", s] (.peek a)

theorem bind_eq_ok {α β : Type} {x : Except Refusal α} {f : α → Except Refusal β} {b : β}
    (h : (x >>= f) = .ok b) : ∃ a, x = .ok a ∧ f a = .ok b := by
  cases x with
  | ok a => exact ⟨a, rfl, h⟩
  | error e => cases h

theorem bind_of_eq_ok {α β : Type} {x : Except Refusal α} {a : α} (h : x = .ok a)
    (f : α → Except Refusal β) : (x >>= f) = f a := by
  rw [h]
  rfl

/-! ### Keywords -/

/-- The words that are a keyword. -/
def Keyword.spellings : Keyword → List String
  | .step => ["n", "next"]
  | .resume => ["c", "continue"]
  | .report => ["s", "state"]
  | .history => ["h", "history"]
  | .list => ["d", "disasm"]
  | .addBreakpoint => ["b"]
  | .removeBreakpoint => ["rb"]
  | .breakpoints => ["bl"]
  | .setRegister => ["set"]
  | .poke => ["poke"]
  | .peek => ["peek"]

theorem Keyword.mem_spellings_of_ofWord? {w : String} {k : Keyword} (h : ofWord? w = some k) :
    w ∈ k.spellings := by
  unfold ofWord? at h
  split at h
  all_goals cases h
  all_goals simp [spellings]

theorem bare_eq_ok_iff {c c' : Command} {args : List String} :
    bare c args = .ok c' ↔ args = [] ∧ c = c' := by
  cases args with
  | nil => simp [bare]
  | cons s args => simp [bare]

theorem unary_eq_ok_iff {read : String → Except Refusal Command} {args : List String}
    {c : Command} : unary read args = .ok c ↔ ∃ s, args = [s] ∧ read s = .ok c := by
  match args with
  | [] => simp [unary]
  | [s] => simp [unary]
  | s :: t :: args => simp [unary]

theorem binary_eq_ok_iff {read : String → String → Except Refusal Command} {args : List String}
    {c : Command} : binary read args = .ok c ↔ ∃ s t, args = [s, t] ∧ read s t = .ok c := by
  match args with
  | [] => simp [binary]
  | [s] => simp [binary]
  | [s, t] => simp [binary]
  | s :: t :: u :: args => simp [binary]

section

variable {w : String} {args : List String} {c : Command}

/-- A command that takes an address. -/
theorem unary_address_eq_ok {f : Word → Command}
    (h : unary (fun addr => do return f (← readAddress addr)) args = .ok c) :
    ∃ s a, args = [s] ∧ IsAddress s a ∧ c = f a := by
  obtain ⟨s, hargs, hread⟩ := unary_eq_ok_iff.mp h
  obtain ⟨a, ha, hc⟩ := bind_eq_ok hread
  cases hc
  exact ⟨s, a, hargs, readAddress_eq_ok_iff.mp ha, rfl⟩

/-- A command that takes a place and a value for it. -/
theorem binary_value_eq_ok {α : Type} {readPlace : String → Except Refusal α}
    {f : α → Word → Command}
    (h : binary (fun place value => do
      let x ← readPlace place
      let v ← readValue value
      return f x v) args = .ok c) :
    ∃ s t x v, args = [s, t] ∧ readPlace s = .ok x ∧ Text.Numeral t v.toNat ∧ c = f x v := by
  obtain ⟨s, t, hargs, hread⟩ := binary_eq_ok_iff.mp h
  obtain ⟨x, hx, hread⟩ := bind_eq_ok hread
  obtain ⟨v, hv, hc⟩ := bind_eq_ok hread
  cases hc
  exact ⟨s, t, x, v, hargs, hx, readValue_eq_ok_iff.mp hv, rfl⟩

theorem spells_of_readStep (hw : w = "n" ∨ w = "next") (h : readStep args = .ok c) :
    Spells (w :: args) c := by
  cases args with
  | nil =>
      cases h
      exact .step hw
  | cons s args =>
      obtain ⟨_, ⟨⟩, hread⟩ := unary_eq_ok_iff.mp h
      obtain ⟨n, hn, hc⟩ := bind_eq_ok hread
      cases hc
      exact .steps hw (readCount_eq_ok_iff.mp hn)

theorem spells_of_readList (hw : w = "d" ∨ w = "disasm") (h : readList args = .ok c) :
    Spells (w :: args) c := by
  match args with
  | [] =>
      cases h
      exact .list hw
  | [s] =>
      obtain ⟨a, ha, hc⟩ := bind_eq_ok h
      cases hc
      exact .listFrom hw (readAddress_eq_ok_iff.mp ha)
  | s :: t :: args =>
      obtain ⟨_, _, ⟨⟩, hread⟩ := binary_eq_ok_iff.mp h
      obtain ⟨a, ha, hread⟩ := bind_eq_ok hread
      obtain ⟨n, hn, hc⟩ := bind_eq_ok hread
      cases hc
      obtain ⟨hnumeral, hle⟩ := readCount_eq_ok_iff.mp hn
      refine .listLines hw (readAddress_eq_ok_iff.mp ha) ?_
      rwa [UInt16.toNat_ofNat_of_lt' (by simp only [UInt16.size]; omega)]

/-- The words behind a keyword are read as a command that they spell together with it. -/
theorem Keyword.spells_of_readArguments {k : Keyword} (hw : w ∈ k.spellings)
    (h : k.readArguments args = .ok c) : Spells (w :: args) c := by
  cases k with
  | step => exact spells_of_readStep (by simpa [spellings] using hw) h
  | list => exact spells_of_readList (by simpa [spellings] using hw) h
  | resume =>
      obtain ⟨rfl, rfl⟩ := bare_eq_ok_iff.mp h
      exact .resume (by simpa [spellings] using hw)
  | report =>
      obtain ⟨rfl, rfl⟩ := bare_eq_ok_iff.mp h
      exact .report (by simpa [spellings] using hw)
  | history =>
      obtain ⟨rfl, rfl⟩ := bare_eq_ok_iff.mp h
      exact .history (by simpa [spellings] using hw)
  | breakpoints =>
      obtain ⟨rfl, rfl⟩ := bare_eq_ok_iff.mp h
      obtain rfl := List.mem_singleton.mp hw
      exact .breakpoints
  | addBreakpoint =>
      obtain ⟨s, a, rfl, ha, rfl⟩ := unary_address_eq_ok h
      obtain rfl := List.mem_singleton.mp hw
      exact .addBreakpoint ha
  | removeBreakpoint =>
      obtain ⟨s, a, rfl, ha, rfl⟩ := unary_address_eq_ok h
      obtain rfl := List.mem_singleton.mp hw
      exact .removeBreakpoint ha
  | peek =>
      obtain ⟨s, a, rfl, ha, rfl⟩ := unary_address_eq_ok h
      obtain rfl := List.mem_singleton.mp hw
      exact .peek ha
  | setRegister =>
      obtain ⟨s, t, i, v, rfl, hi, hv, rfl⟩ := binary_value_eq_ok h
      obtain rfl := List.mem_singleton.mp hw
      exact .setRegister (readRegister_eq_ok_iff.mp hi) hv
  | poke =>
      obtain ⟨s, t, a, v, rfl, ha, hv, rfl⟩ := binary_value_eq_ok h
      obtain rfl := List.mem_singleton.mp hw
      exact .poke (readAddress_eq_ok_iff.mp ha) hv

end

theorem spells_of_ofWords {ws : List String} {c : Command} (h : ofWords ws = .ok c) :
    Spells ws c := by
  cases ws with
  | nil =>
      cases h
      exact .blank
  | cons w args =>
      simp only [ofWords] at h
      split at h
      next k hk => exact Keyword.spells_of_readArguments (Keyword.mem_spellings_of_ofWord? hk) h
      next => cases h

theorem ofWords_of_spells {ws : List String} {c : Command} (h : Spells ws c) :
    ofWords ws = .ok c := by
  cases h with
  | blank => rfl
  | step hw => rcases hw with rfl | rfl <;> rfl
  | steps hw hn =>
      have hread := readCount_eq_ok_iff.mpr hn
      rcases hw with rfl | rfl <;> exact bind_of_eq_ok hread _
  | resume hw => rcases hw with rfl | rfl <;> rfl
  | report hw => rcases hw with rfl | rfl <;> rfl
  | history hw => rcases hw with rfl | rfl <;> rfl
  | list hw => rcases hw with rfl | rfl <;> rfl
  | listFrom hw ha =>
      have hread := readAddress_eq_ok_iff.mpr ha
      rcases hw with rfl | rfl <;> exact bind_of_eq_ok hread _
  | @listLines w s t a n hw ha hn =>
      have hlt := n.toNat_lt
      have haddr := readAddress_eq_ok_iff.mpr ha
      have hcount := readCount_eq_ok_iff.mpr ⟨hn, (by omega : n.toNat ≤ 65535)⟩
      have hread : readList [s, t] = .ok (.list (some a) (UInt16.ofNat n.toNat)) :=
        (bind_of_eq_ok haddr _).trans (bind_of_eq_ok hcount _)
      rw [UInt16.ofNat_toNat] at hread
      rcases hw with rfl | rfl <;> exact hread
  | addBreakpoint ha => exact bind_of_eq_ok (readAddress_eq_ok_iff.mpr ha) _
  | removeBreakpoint ha => exact bind_of_eq_ok (readAddress_eq_ok_iff.mpr ha) _
  | breakpoints => rfl
  | setRegister hi hv =>
      have hregister := readRegister_eq_ok_iff.mpr hi
      have hvalue := readValue_eq_ok_iff.mpr hv
      exact (bind_of_eq_ok hregister _).trans (bind_of_eq_ok hvalue _)
  | poke ha hv =>
      have haddr := readAddress_eq_ok_iff.mpr ha
      have hvalue := readValue_eq_ok_iff.mpr hv
      exact (bind_of_eq_ok haddr _).trans (bind_of_eq_ok hvalue _)
  | peek ha => exact bind_of_eq_ok (readAddress_eq_ok_iff.mpr ha) _

/-- A line is read as a command if and only if its words spell the command. -/
theorem read_eq_ok_iff {line : String} {c : Command} :
    read line = .ok c ↔ Spells (Text.words line) c :=
  ⟨spells_of_ofWords, ofWords_of_spells⟩

end Command
end WordMachine
