import WordMachine.Proofs.Course
import WordMachine.Proofs.Dialogue

/-! # Lines of input

A line of text is brought to a machine as the units of its characters and a line feed.  It is accepted as a
whole or not at all: each character above `U+7FFF` has a first unit that does not fit in fifteen bits, whether
the character takes one unit or two, and the first such unit is what the refusal names.  What is accepted are
the code points themselves, which print as the line again.

* `Text.Utf16` : the units of a character.
* `Text.units_of_le`, `Text.ofWords_lineUnits` : the characters that a machine accepts, and back again.
* `Text.lineUnits_of_wide` : the first unit that a machine does not accept.
* `Debugger.Refuses` : a refusal, which leaves everything as it is.
* `Debugger.lines_are_taken_whole` : the statement about lines and batches. -/

namespace WordMachine

namespace Text

/-! ### Units -/

/-- `Utf16 c us`: the units encode the character.  One unit is its code; two units are a high and a low
surrogate, which share out what the code exceeds `0x10000` by. -/
inductive Utf16 (c : Char) : List Word → Prop
  | unit {w : Word} : w.toNat = c.toNat → Utf16 c [w]
  | pair {hi lo : Word} : 0xD800 ≤ hi.toNat → hi.toNat ≤ 0xDBFF → 0xDC00 ≤ lo.toNat → lo.toNat ≤ 0xDFFF →
      c.toNat = 0x10000 + (hi.toNat - 0xD800) * 0x400 + (lo.toNat - 0xDC00) → Utf16 c [hi, lo]

theorem toNat_lt (c : Char) : c.toNat < 0x110000 := by
  rcases c.valid with h | h
  · exact Nat.lt_trans h (by decide)
  · exact h.2

/-- The units of a character encode it. -/
theorem utf16_units (c : Char) : Utf16 c (units c) := by
  have hlt := toNat_lt c
  unfold units
  by_cases h : c.toNat < 0x10000
  · rw [if_pos h]
    apply Utf16.unit
    rw [UInt16.toNat_ofNat', Nat.mod_eq_of_lt h]
  · rw [if_neg h]
    -- Ten bits go to the high surrogate and ten to the low one.
    have hhi : 0xD800 + (c.toNat - 0x10000) / 0x400 < 2 ^ 16 := by omega
    have hlo : 0xDC00 + (c.toNat - 0x10000) % 0x400 < 2 ^ 16 := by omega
    apply Utf16.pair
    all_goals simp only [UInt16.toNat_ofNat', Nat.mod_eq_of_lt hhi, Nat.mod_eq_of_lt hlo]
    all_goals omega

/-- A character that fits in fifteen bits has its code as its only unit. -/
theorem units_of_le {c : Char} (h : c.toNat ≤ 0x7FFF) : units c = [UInt16.ofNat c.toNat] := by
  unfold units
  rw [if_pos (by omega)]

/-- A character that does not fit in fifteen bits has a first unit that does not either. -/
theorem Utf16.wide {c : Char} {w : Word} {us : List Word} (h : Utf16 c (w :: us)) (hc : 0x7FFF < c.toNat) :
    32767 < w.toNat := by
  cases h with
  | unit hw => omega
  | pair hhi _ _ _ _ => omega

/-! ### Lines -/

theorem lineUnits_of_le {text : String} (h : ∀ c ∈ text.toList, c.toNat ≤ 0x7FFF) :
    lineUnits text = text.toList.map (fun c => UInt16.ofNat c.toNat) ++ [10] := by
  have hunits : text.toList.flatMap units = text.toList.flatMap (fun c => [UInt16.ofNat c.toNat]) :=
    List.flatMap_congr (fun c hc => units_of_le (h c hc))
  rw [lineUnits, hunits, List.map_eq_flatMap]

/-- The units of a line are its code points and a line feed. -/
theorem toNat_lineUnits {text : String} (h : ∀ c ∈ text.toList, c.toNat ≤ 0x7FFF) :
    (lineUnits text).map (·.toNat) = text.toList.map Char.toNat ++ [10] := by
  rw [lineUnits_of_le h, List.map_append, List.map_map]
  congr 1
  apply List.map_congr_left
  intro c hc
  have := h c hc
  simp only [Function.comp, UInt16.toNat_ofNat']
  omega

theorem scalar?_toNat (c : Char) : scalar? c.toNat = some c := by
  have hvalid : c.toNat.isValidChar := c.valid
  rw [scalar?, dif_pos hvalid]
  rfl

/-- A character that fits in fifteen bits prints as itself. -/
theorem printed_of_le {c : Char} (h : c.toNat ≤ 0x7FFF) : printed (UInt16.ofNat c.toNat) = c := by
  have hcode : (UInt16.ofNat c.toNat).toNat = c.toNat := by
    rw [UInt16.toNat_ofNat', Nat.mod_eq_of_lt (by omega)]
  rw [printed, hcode, scalar?_toNat, Option.getD_some]

/-- The units of a line print as the line. -/
theorem ofWords_lineUnits {text : String} (h : ∀ c ∈ text.toList, c.toNat ≤ 0x7FFF) :
    ofWords (lineUnits text) = text ++ "\n" := by
  have hprinted : (text.toList.map (fun c => UInt16.ofNat c.toNat)).map printed = text.toList := by
    rw [List.map_map]
    calc text.toList.map (printed ∘ fun c => UInt16.ofNat c.toNat)
        = text.toList.map id := List.map_congr_left (fun c hc => printed_of_le (h c hc))
      _ = text.toList := List.map_id _
  rw [lineUnits_of_le h, ofWords_append, ofWords, hprinted, String.ofList_toList]
  rfl

/-- A text with a character that does not fit in fifteen bits has a first one. -/
theorem exists_first_wide {text : String} (h : ¬ ∀ c ∈ text.toList, c.toNat ≤ 0x7FFF) :
    ∃ before c after, text.toList = before ++ c :: after ∧ (∀ b ∈ before, b.toNat ≤ 0x7FFF) ∧
      0x7FFF < c.toNat := by
  cases hfind : text.toList.find? (fun c => 0x7FFF < c.toNat) with
  | none =>
      refine absurd ?_ h
      simpa using hfind
  | some c =>
      obtain ⟨hc, before, after, htext, hbefore⟩ := List.find?_eq_some_iff_append.mp hfind
      refine ⟨before, c, after, htext, ?_, by simpa using hc⟩
      intro b hb
      simpa using hbefore b hb

/-- The first unit that does not fit in fifteen bits is the first unit of the first character that does not. -/
theorem lineUnits_of_wide {text : String} {before after : List Char} {c : Char}
    (htext : text.toList = before ++ c :: after) (hbefore : ∀ b ∈ before, b.toNat ≤ 0x7FFF)
    (hc : 0x7FFF < c.toNat) :
    ∃ w us first rest, Utf16 c (w :: us) ∧ lineUnits text = first ++ w :: rest ∧
      (∀ u ∈ first, u.toNat ≤ 32767) ∧ 32767 < w.toNat := by
  have hencodes := utf16_units c
  cases hunits : units c with
  | nil =>
      rw [hunits] at hencodes
      cases hencodes
  | cons w us =>
      rw [hunits] at hencodes
      refine ⟨w, us, before.flatMap units, us ++ after.flatMap units ++ [10], hencodes, ?_, ?_,
        hencodes.wide hc⟩
      · simp [lineUnits, htext, hunits]
      · intro u hu
        obtain ⟨b, hb, hunit⟩ := List.mem_flatMap.mp hu
        have hle := hbefore b hb
        rw [units_of_le hle, List.mem_singleton] at hunit
        rw [hunit, UInt16.toNat_ofNat']
        omega

end Text

/-! ### Refusals -/

/-- A batch is refused for the first of its words that does not fit in fifteen bits. -/
theorem Machine.queue_of_wide {m : Machine} (hm : m.mode ≠ .halted) {first rest : List Word} {w : Word}
    (hfirst : ∀ u ∈ first, u.toNat ≤ 32767) (hw : 32767 < w.toNat) :
    m.queue (first ++ w :: rest) = .error (.invalidInput w) := by
  have hfind : (first ++ w :: rest).find? (fun u => !u.isNarrow) = some w := by
    rw [List.find?_eq_some_iff_append]
    refine ⟨?_, first, rest, rfl, ?_⟩
    · rw [Word.isNarrow_eq_false_iff.mpr hw]
      rfl
    · intro u hu
      rw [Word.isNarrow_iff.mpr (hfirst u hu)]
      rfl
  unfold queue
  rw [if_neg hm, hfind]

theorem Machine.runWords_of_refused {m : Machine} {ws : List Word} {e : Error}
    (h : m.queue ws = .error e) (fuel : Nat) :
    m.runWords fuel ws = some (.error e, m) ∧ m.runWordsAttempts fuel ws = [] := by
  unfold runWords runWordsAttempts
  rw [h]
  exact ⟨rfl, rfl⟩

/-- How an operation that brings input is refused for a word. -/
def Operation.refusal? (w : Word) : Operation → Option Reply
  | .queue _ | .queueLine _ => some (.queued (.error (.invalidInput w)))
  | .runWords _ | .runLine _ => some (.ran (.error (.invalidInput w)))
  | _ => none

namespace Debugger

/-- `Refuses d op w`: the operation is refused for the word, whatever the fuel.  Nothing is executed, handed
out or brought in, and the debugger is left as it is. -/
def Refuses (d : Debugger) (op : Operation) (w : Word) : Prop :=
  ∃ r, op.refusal? w = some r ∧ ∀ fuel, op.call fuel d = some (⟨op, r, [], [], [], d⟩, d)

theorem refuses_of_queue {d : Debugger} {op : Operation} {w : Word} {r : Reply}
    (h : d.machine.queue op.batch = .error (.invalidInput w)) (hr : op.refusal? w = some r) :
    d.Refuses op w := by
  have haccepted : op.accepted d = [] := Machine.accepted_of_queue_error h
  refine ⟨r, hr, ?_⟩
  intro fuel
  cases op with
  | queue ws | queueLine text =>
      cases hr
      simp only [Operation.batch] at h
      have hsettle : d.settle .queued ((d.machine.queue _).map d.holding) =
          (.queued (.error (.invalidInput w)), d) := congrArg (fun x => d.settle .queued (x.map d.holding)) h
      refine Operation.call_eq_some_iff.mpr ⟨_, congrArg some hsettle, ?_⟩
      rw [haccepted]
      rfl
  | runWords ws | runLine text =>
      cases hr
      simp only [Operation.batch] at h
      obtain ⟨hrun, hattempts⟩ := Machine.runWords_of_refused h fuel
      refine Operation.call_eq_some_iff.mpr ⟨_, congrArg (Option.map d.afterRun) hrun, ?_⟩
      simp only [Operation.attempts, hattempts, haccepted]
      rfl
  | _ => cases hr

/-- **A line is accepted as a whole or refused.**  A machine that has not halted accepts a line exactly if
none of its characters is above `U+7FFF`.  Then the code points and a line feed are appended to the input, and
these words print as the line and a line feed.  Otherwise the line is refused for the first unit of the first
character above `U+7FFF`, also when a run was asked for, and a batch of words is refused for its first word
above `32767`.  A refusal leaves everything as it is. -/
theorem lines_are_taken_whole (d : Debugger) (hm : d.machine.mode ≠ .halted) :
    (∀ text : String,
      ((∃ m, d.machine.queueLine text = .ok m) ↔ ∀ c ∈ text.toList, c.toNat ≤ 0x7FFF) ∧
      ((∀ c ∈ text.toList, c.toNat ≤ 0x7FFF) → ∃ ws : List Word,
        d.machine.queueLine text = .ok { d.machine with input := d.machine.input ++ ws } ∧
        ws.map (·.toNat) = text.toList.map Char.toNat ++ [10] ∧ Text.ofWords ws = text ++ "\n")) ∧
    (∀ (text : String) (before : List Char) (c : Char) (after : List Char),
      text.toList = before ++ c :: after → (∀ b ∈ before, b.toNat ≤ 0x7FFF) → 0x7FFF < c.toNat →
      ∃ w us, Text.Utf16 c (w :: us) ∧ d.Refuses (.queueLine text) w ∧ d.Refuses (.runLine text) w) ∧
    ∀ (first : List Word) (w : Word) (rest : List Word),
      (∀ u ∈ first, u.toNat ≤ 32767) → 32767 < w.toNat →
      d.Refuses (.queue (first ++ w :: rest)) w ∧ d.Refuses (.runWords (first ++ w :: rest)) w := by
  have haccepts (text : String) (h : ∀ c ∈ text.toList, c.toNat ≤ 0x7FFF) :
      d.machine.queueLine text = .ok (d.machine.feed (Text.lineUnits text)) :=
    Machine.queue_of_narrow hm (Text.lineUnits_narrow h)
  have hrefuses (text : String) (before : List Char) (c : Char) (after : List Char)
      (htext : text.toList = before ++ c :: after) (hbefore : ∀ b ∈ before, b.toNat ≤ 0x7FFF)
      (hc : 0x7FFF < c.toNat) :
      ∃ w us, Text.Utf16 c (w :: us) ∧ d.machine.queueLine text = .error (.invalidInput w) := by
    obtain ⟨w, us, first, rest, hencodes, hunits, hfirst, hw⟩ :=
      Text.lineUnits_of_wide htext hbefore hc
    refine ⟨w, us, hencodes, ?_⟩
    rw [Machine.queueLine, hunits]
    exact Machine.queue_of_wide hm hfirst hw
  refine ⟨?_, ?_, ?_⟩
  · intro text
    refine ⟨⟨?_, fun h => ⟨_, haccepts text h⟩⟩, ?_⟩
    · rintro ⟨m, hqueue⟩
      -- A first character that is too wide would have refused the line.
      by_contra hwide
      obtain ⟨before, c, after, htext, hbefore, hc⟩ := Text.exists_first_wide hwide
      obtain ⟨w, us, _, herror⟩ := hrefuses text before c after htext hbefore hc
      rw [herror] at hqueue
      cases hqueue
    · intro h
      exact ⟨_, haccepts text h, Text.toNat_lineUnits h, Text.ofWords_lineUnits h⟩
  · intro text before c after htext hbefore hc
    obtain ⟨w, us, hencodes, herror⟩ := hrefuses text before c after htext hbefore hc
    exact ⟨w, us, hencodes, refuses_of_queue herror rfl, refuses_of_queue herror rfl⟩
  · intro first w rest hfirst hw
    have herror : d.machine.queue (first ++ w :: rest) = .error (.invalidInput w) :=
      Machine.queue_of_wide hm hfirst hw
    exact ⟨refuses_of_queue herror rfl, refuses_of_queue herror rfl⟩

/-- A line of two characters is accepted.  A line with a character of two units is refused for the high
surrogate, and a batch with two words that are too wide for the first of them. -/
theorem greeter_takes_and_refuses :
    greeter.machine.mode ≠ .halted ∧
    (∃ ws : List Word, greeter.machine.queueLine "hé" =
        .ok { greeter.machine with input := greeter.machine.input ++ ws } ∧
      ws.map (·.toNat) = [104, 233, 10] ∧ Text.ofWords ws = "hé\n") ∧
    greeter.Refuses (.runLine "a😀") 0xD83D ∧ greeter.Refuses (.runWords [1, 40000, 50000]) 40000 := by
  have hm : greeter.machine.mode ≠ .halted := by decide
  obtain ⟨haccepts, hlines, hbatches⟩ := lines_are_taken_whole greeter hm
  refine ⟨hm, (haccepts "hé").2 (by simp), ?_, (hbatches [1] 40000 [50000] (by simp) (by decide)).2⟩
  obtain ⟨w, us, hencodes, _, hrefuses⟩ := hlines "a😀" ['a'] '😀' [] rfl (by simp) (by decide)
  have hcode : '😀'.toNat = 0x1F600 := rfl
  have hw : w = 0xD83D := by
    apply UInt16.toNat_inj.mp
    show w.toNat = 0xD83D
    have hlt := w.toNat_lt
    cases hencodes with
    | unit hunit => omega
    | pair hhi hhi' hlo hlo' hpair => omega
  rw [← hw]
  exact hrefuses

end Debugger

end WordMachine
