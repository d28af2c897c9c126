import WordMachine.Proofs.Session

/-! # Dialogues

A machine in a dialogue reads lines of text, one whenever it waits for input, until it halts or
fails or there are no more lines.  A dialogue comes to its end if and only if a call does that brings
all lines at once; the machine writes the same words in both, and both end alike.

* `Dialogue` : what a machine writes, with the lines that it reads in between.
* `Machine.Converses` : the dialogue of a machine with a user who has given lines to offer.
* `Machine.Returns.converses`, `Machine.Converses.returns` : dialogues and calls with all lines. -/

namespace WordMachine

namespace Text

theorem ofWords_append (us ws : List Word) : ofWords (us ++ ws) = ofWords us ++ ofWords ws := by
  unfold ofWords
  rw [List.map_append, String.ofList_append]

theorem lineUnits_narrow {line : String} (h : ∀ c ∈ line.toList, c.toNat ≤ 0x7FFF) :
    ∀ w ∈ lineUnits line, w.toNat ≤ 32767 := by
  intro w hw
  rcases List.mem_append.mp hw with hw | hw
  · obtain ⟨c, hc, hunit⟩ := List.mem_flatMap.mp hw
    have hle := h c hc
    have hsmall : c.toNat < 0x10000 := by omega
    unfold units at hunit
    rw [if_pos hsmall] at hunit
    rw [List.mem_singleton.mp hunit, UInt16.toNat_ofNat']
    omega
  · rw [List.mem_singleton.mp hw]
    decide

theorem flatMap_lineUnits_narrow {lines : List String}
    (h : ∀ line ∈ lines, ∀ c ∈ line.toList, c.toNat ≤ 0x7FFF) :
    ∀ w ∈ lines.flatMap lineUnits, w.toNat ≤ 32767 := by
  intro w hw
  obtain ⟨line, hline, hmem⟩ := List.mem_flatMap.mp hw
  exact lineUnits_narrow (h line hline) w hmem

end Text

/-- What a machine writes before it reads a line, and every line with what it writes behind it. -/
structure Dialogue where
  opening : List Word
  turns : List (String × List Word)

namespace Dialogue

/-- The lines that are read. -/
def lines (d : Dialogue) : List String := d.turns.map Prod.fst

/-- The words that are written. -/
def words (d : Dialogue) : List Word := d.opening ++ d.turns.flatMap Prod.snd

/-- Everything in its order: the text that is written, and the lines with their ends. -/
def text (d : Dialogue) : String :=
  Text.ofWords d.opening ++ String.join (d.turns.map fun t => t.1 ++ "\n" ++ Text.ofWords t.2)

theorem text_nil (out : List Word) : text ⟨out, []⟩ = Text.ofWords out := by
  unfold text
  rw [List.map_nil, String.join_nil, String.append_empty]

theorem text_cons (out out' : List Word) (line : String) (turns : List (String × List Word)) :
    text ⟨out, (line, out') :: turns⟩ = Text.ofWords out ++ (line ++ "\n") ++ text ⟨out', turns⟩ := by
  unfold text
  rw [List.map_cons, String.join_cons]
  simp only [String.append_assoc]

theorem words_cons (out out' : List Word) (line : String) (turns : List (String × List Word)) :
    words ⟨out, (line, out') :: turns⟩ = out ++ words ⟨out', turns⟩ := rfl

/-- The text of the words is put together from the text of the pieces. -/
theorem ofWords_words (d : Dialogue) :
    Text.ofWords d.words =
      Text.ofWords d.opening ++ String.join (d.turns.map fun t => Text.ofWords t.2) := by
  obtain ⟨out, turns⟩ := d
  induction turns generalizing out with
  | nil => rw [words, List.flatMap_nil, List.append_nil, List.map_nil, String.join_nil,
      String.append_empty]
  | cons t turns ih =>
      rw [words_cons, Text.ofWords_append, ih, List.map_cons, String.join_cons]

end Dialogue

/-! ### The dialogue of a machine -/

namespace Machine

/-- The words that a call has written by its end: they are handed out if it succeeds, and left
uncollected if it fails. -/
def written : Except Error RunOutput → Machine → List Word
  | .ok out, _ => out.words
  | .error _, m => m.output.toList

/-- How a call ends: in which mode the machine is then, or with which error. -/
def ending (r : Except Error RunOutput) : Except Error Mode := r.map (·.mode)

theorem ending_eq_ok_iff {r : Except Error RunOutput} {mode : Mode} :
    ending r = .ok mode ↔ ∃ out, r = .ok out ∧ out.mode = mode := by
  cases r with
  | ok out => simp [ending, Except.map]
  | error e => simp [ending, Except.map]

/-- `Converses m ws lines d r m'`: after a call with the words `ws` the machine reads one line
after the other, as long as it waits and there are lines.  What it writes and reads is `d`; the last
call returns `r` and leaves `m'`. -/
inductive Converses :
    Machine → List Word → List String → Dialogue → Except Error RunOutput → Machine → Prop
  | stop {m m' : Machine} {ws : List Word} {lines : List String} {r : Except Error RunOutput} :
      m.Returns ws r m' → (ending r = .ok .awaitingInput → lines = []) →
      Converses m ws lines ⟨written r m', []⟩ r m'
  | turn {m m₁ m' : Machine} {ws : List Word} {line : String} {lines : List String}
      {out : RunOutput} {d : Dialogue} {r : Except Error RunOutput} :
      m.Returns ws (.ok out) m₁ → out.mode = .awaitingInput →
      Converses m₁ (Text.lineUnits line) lines d r m' →
      Converses m ws (line :: lines) ⟨out.words, (line, d.opening) :: d.turns⟩ r m'

theorem Converses.unique {m m₁ m₂ : Machine} {ws : List Word} {lines : List String}
    {d₁ d₂ : Dialogue} {r₁ r₂ : Except Error RunOutput} (h₁ : m.Converses ws lines d₁ r₁ m₁)
    (h₂ : m.Converses ws lines d₂ r₂ m₂) : d₁ = d₂ ∧ r₁ = r₂ ∧ m₁ = m₂ := by
  induction h₁ generalizing d₂ r₂ m₂ with
  | stop hcall hstop =>
      cases h₂ with
      | stop hcall' _ =>
          obtain ⟨rfl, rfl⟩ := hcall.unique hcall'
          exact ⟨rfl, rfl, rfl⟩
      | turn hcall' hwaits' _ =>
          obtain ⟨rfl, rfl⟩ := hcall.unique hcall'
          cases hstop (congrArg Except.ok hwaits')
  | turn hcall hwaits _ ih =>
      cases h₂ with
      | stop hcall' hstop' =>
          obtain ⟨rfl, rfl⟩ := hcall.unique hcall'
          cases hstop' (congrArg Except.ok hwaits)
      | turn hcall' _ hrest' =>
          obtain ⟨hout, rfl⟩ := hcall.unique hcall'
          cases hout
          obtain ⟨rfl, rfl, rfl⟩ := ih hrest'
          exact ⟨rfl, rfl, rfl⟩

/-- The lines are read from the first one on. -/
theorem Converses.lines_prefix {m m' : Machine} {ws : List Word} {lines : List String}
    {d : Dialogue} {r : Except Error RunOutput} (h : m.Converses ws lines d r m') :
    d.lines <+: lines := by
  induction h with
  | stop _ _ => exact List.nil_prefix
  | turn _ _ _ ih => exact List.prefix_cons_inj _ |>.mpr ih

/-- All lines are read if the machine waits at the end. -/
theorem Converses.lines_eq {m m' : Machine} {ws : List Word} {lines : List String}
    {d : Dialogue} {r : Except Error RunOutput} (h : m.Converses ws lines d r m')
    (hr : ending r = .ok .awaitingInput) : d.lines = lines := by
  induction h with
  | stop _ hstop => exact (hstop hr).symm
  | turn _ _ _ ih => exact congrArg _ (ih hr)

/-! ### Dialogues and calls -/

/-- A call without a limit ends with the machine waiting, halted or in front of a failing
instruction. -/
theorem Returns.ends {m m' : Machine} {ws : List Word} {r : Except Error RunOutput}
    (h : m.Returns ws r m') (hl : m.limit = none) (hw : ∀ w ∈ ws, w.toNat ≤ 32767) :
    ending r = .ok .awaitingInput ∨ (ending r = .ok .halted ∧ m'.mode = .halted) ∨
      ∃ f, ending r = .error (.fault f) ∧ m'.Stuck f := by
  cases r with
  | ok out =>
      obtain ⟨hmode, hwait | hhalt⟩ := h.mode hl hw
      · exact Or.inl (congrArg Except.ok (hmode.trans hwait))
      · exact Or.inr (Or.inl ⟨congrArg Except.ok (hmode.trans hhalt), hhalt⟩)
  | error e =>
      obtain ⟨f, rfl, hstuck⟩ := h.stuck hl hw
      exact Or.inr (Or.inr ⟨f, rfl, hstuck⟩)

/-- A call that is cut in two ends like its second part, and writes what the parts write. -/
theorem Agrees.second {m' m₀ : Machine} {out : RunOutput} {r r₀ : Except Error RunOutput}
    (h : Agrees r m' [.ok out, r₀] m₀) (hmode : ∀ o, r = .ok o → o.mode = m'.mode)
    (hmode₀ : ∀ o, r₀ = .ok o → o.mode = m₀.mode) :
    ending r₀ = ending r ∧ out.words ++ written r₀ m₀ = written r m' := by
  cases r with
  | ok o =>
      obtain ⟨⟨outs, houts, hwords⟩, hmachine, _, _⟩ := h
      obtain ⟨_, _, rfl, hfirst, hrest⟩ := List.map_eq_cons_iff.mp houts.symm
      obtain ⟨o₀, _, rfl, rfl, hnil⟩ := List.map_eq_cons_iff.mp hrest
      obtain rfl := List.map_eq_nil_iff.mp hnil
      cases hfirst
      refine ⟨?_, ?_⟩
      · show Except.ok o₀.mode = Except.ok o.mode
        rw [hmode o rfl, hmode₀ o₀ rfl, hmachine]
      · show out.words ++ o₀.words = o.words
        rw [← hwords, List.flatMap_cons, List.flatMap_singleton]
  | error e =>
      cases e with
      | fault f =>
          obtain ⟨⟨outs, k, hrs, hwords⟩, _⟩ := h
          rcases outs with _ | ⟨o, outs⟩
          · cases hrs
          obtain ⟨hfirst, hrest⟩ := List.cons.inj hrs
          cases hfirst
          rcases outs with _ | ⟨o, outs⟩
          · obtain ⟨rfl, _⟩ := List.cons.inj hrest
            refine ⟨rfl, ?_⟩
            show out.words ++ m₀.output.toList = m'.output.toList
            rw [← hwords, List.flatMap_singleton]
          · cases outs <;> cases hrest
      | _ => exact h.elim

/-- If a call with all lines returns, so does every call of the dialogue.  The dialogue ends like the
call, and all that is written is the same. -/
theorem Returns.converses {m m' : Machine} {ws : List Word} {lines : List String}
    {r : Except Error RunOutput} (h : m.Returns (ws ++ lines.flatMap Text.lineUnits) r m')
    (hl : m.limit = none) (hw : ∀ w ∈ ws, w.toNat ≤ 32767)
    (hlines : ∀ line ∈ lines, ∀ c ∈ line.toList, c.toNat ≤ 0x7FFF) :
    ∃ d r₁ m₁, m.Converses ws lines d r₁ m₁ ∧ ending r₁ = ending r ∧ d.words = written r m' := by
  induction lines generalizing m m' ws r with
  | nil =>
      rw [List.flatMap_nil, List.append_nil] at h
      exact ⟨_, _, _, .stop h (fun _ => rfl), rfl, List.append_nil _⟩
  | cons line lines ih =>
      obtain ⟨hline, hmore⟩ := List.forall_mem_cons.mp hlines
      have hall := Text.flatMap_lineUnits_narrow hlines
      rw [List.flatMap_cons] at h
      rcases h.cut hl hw hall with ⟨f, m₁, hcall, _, _, rfl, rfl⟩ |
        ⟨out, m₁, more, hcall, hhalt, rfl, rfl⟩ |
        ⟨out, m₁, r₀, m₀, hcall, hwait, hlim, hcall₀, hagrees⟩
      · refine ⟨_, _, _, .stop hcall ?_, rfl, List.append_nil _⟩
        intro hwait
        cases hwait
      · refine ⟨_, _, _, .stop hcall ?_, rfl, List.append_nil _⟩
        intro hwait
        have hmode : out.mode = .awaitingInput := Except.ok.inj hwait
        rw [(hcall.mode hl hw).1, hhalt] at hmode
        cases hmode
      · obtain ⟨d, r₁, m₂, hrest, hends, hwords⟩ := ih hcall₀ hlim (Text.lineUnits_narrow hline) hmore
        have hmode := (hcall.mode hl hw).1.trans hwait
        have hboth := hagrees [r₀] m₀ (hcall₀.agrees hlim hall)
        obtain ⟨hends₀, hwords₀⟩ := hboth.second
          (fun o ho => ((ho ▸ h).mode hl (List.forall_mem_append.mpr ⟨hw, hall⟩)).1)
          (fun o ho => ((ho ▸ hcall₀).mode hlim hall).1)
        refine ⟨_, r₁, m₂, .turn hcall hmode hrest, hends.trans hends₀, ?_⟩
        rw [Dialogue.words_cons, hwords, hwords₀]

/-- If every call of a dialogue returns, so does one call with all lines. -/
theorem Converses.returns {m m' : Machine} {ws : List Word} {lines : List String} {d : Dialogue}
    {r : Except Error RunOutput} (h : m.Converses ws lines d r m')
    (hl : m.limit = none) (hw : ∀ w ∈ ws, w.toNat ≤ 32767)
    (hlines : ∀ line ∈ lines, ∀ c ∈ line.toList, c.toNat ≤ 0x7FFF) :
    ∃ r' m'', m.Returns (ws ++ lines.flatMap Text.lineUnits) r' m'' := by
  induction h with
  | @stop m m' ws lines r hcall hstop =>
      have hall := Text.flatMap_lineUnits_narrow hlines
      -- Behind its end a dialogue reads nothing, and a call with more lines returns at once.
      rcases hcall.ends hl hw with hwait | ⟨_, hhalt⟩ | ⟨f, _, hstuck⟩
      · obtain rfl := hstop hwait
        rw [List.flatMap_nil, List.append_nil]
        exact ⟨r, m', hcall⟩
      · exact hcall.join (returns_of_halted hhalt _) hl hw hall
      · exact hcall.join (hstuck.returns (hcall.limit hl hw) hall) hl hw hall
  | @turn m m₁ m' ws line lines out d r hcall hwait hrest ih =>
      obtain ⟨hline, hmore⟩ := List.forall_mem_cons.mp hlines
      obtain ⟨r₂, m₂, hcall₂⟩ := ih (hcall.limit hl hw) (Text.lineUnits_narrow hline) hmore
      exact hcall.join hcall₂ hl hw (Text.flatMap_lineUnits_narrow hlines)

end Machine

end WordMachine
