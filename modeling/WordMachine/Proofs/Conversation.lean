import WordMachine.Program.Run
import WordMachine.Proofs.Dialogue

/-! # Conversations

The program that runs an image is the machine with an echo.  It prints the dialogue of the machine,
in which the lines that are read appear where they are read, and it succeeds or fails with the
machine (`program_is_machine_with_echo`).

* `Console.Plain` : a console that only passes lines on to the machine.
* `Console.talk` : a call and the conversation that goes on from it.
* `Console.converses_of_talk`, `Console.talk_of_converses` : dialogues and what the console prints. -/

namespace WordMachine

/-! ### Dialogues on the console -/

namespace Console

/-- The console with another machine. -/
def holding (c : Console) (m : Machine) : Console :=
  { c with debugger := { c.debugger with machine := m } }

/-- Lines are echoed and never taken for commands, and the machine has no instruction limit. -/
structure Plain (c : Console) : Prop where
  echo : c.echo = true
  commands : c.commands = false
  limit : c.debugger.machine.limit = none

theorem Plain.holding {c : Console} (h : c.Plain) {m : Machine} (hm : m.limit = none) :
    (c.holding m).Plain :=
  ⟨h.echo, h.commands, hm⟩

/-- A call behind a text that is printed first, and the conversation that goes on from it. -/
def talk (fuel : Nat) (c : Console) (printed : String) (ws : List Word) (lines : List String) :
    Option Turn := do
  let turn ← (c.debugger.machine.runWords fuel ws).map (c.afterRun printed)
  feed fuel (lines.map .text) turn

theorem after_afterRun (c : Console) (printed text : String)
    (x : Except Error RunOutput × Machine) :
    (c.afterRun printed x).after text = c.afterRun (text ++ printed) x := by
  rcases x with ⟨e | out, m⟩
  · rfl
  · simp only [afterRun, Turn.after, String.append_assoc]

/-- The conversation ends with a call that does not wait, or for want of lines. -/
theorem talk_of_stop {fuel : Nat} {c : Console} {printed : String} {ws : List Word}
    {lines : List String} {r : Except Error RunOutput} {m : Machine} (hc : c.Plain)
    (hw : ∀ w ∈ ws, w.toNat ≤ 32767) (h : c.debugger.machine.runWords fuel ws = some (r, m))
    (hstop : Machine.ending r = .ok .awaitingInput → lines = []) :
    c.talk fuel printed ws lines = some (c.afterRun printed (r, m)) := by
  unfold talk
  rw [h]
  show feed fuel (lines.map .text) (c.afterRun printed (r, m)) = _
  cases lines with
  | nil => rfl
  | cons line lines =>
      cases r with
      | error e => rfl
      | ok out =>
          have hcall : c.debugger.machine.Returns ws (.ok out) m := ⟨fuel, h⟩
          obtain ⟨words, mode⟩ := out
          obtain ⟨rfl, hwait | hhalt⟩ := hcall.mode hc.limit hw
          · cases hstop (congrArg Except.ok hwait)
          · simp only [List.map_cons, feed, afterRun, hhalt, statusOf]

theorem accept_of_plain {fuel : Nat} {c : Console} {line : String} (hc : c.Plain) :
    c.accept fuel (.text line) =
      (c.debugger.machine.runWords fuel (Text.lineUnits line)).map (c.afterRun (line ++ "\n")) := by
  have hnone : c.command? line = none := by
    unfold command?
    rw [hc.commands]
    split <;> rfl
  simp only [accept, hnone, hc.echo]
  rfl

/-- Behind a call that waits, the conversation goes on with the next line. -/
theorem talk_of_turn {fuel : Nat} {c : Console} {printed line : String} {ws : List Word}
    {lines : List String} {out : RunOutput} {m : Machine} (hc : (c.holding m).Plain)
    (h : c.debugger.machine.runWords fuel ws = some (.ok out, m))
    (hwaits : out.mode = .awaitingInput) :
    c.talk fuel printed ws (line :: lines) =
      (c.holding m).talk fuel (printed ++ out.text ++ (line ++ "\n")) (Text.lineUnits line) lines := by
  have hfeed : c.talk fuel printed ws (line :: lines) =
      ((c.holding m).accept fuel (.text line)).bind fun next =>
        feed fuel (lines.map .text) (next.after (printed ++ out.text)) := by
    unfold talk
    rw [h]
    obtain ⟨words, mode⟩ := out
    obtain rfl := hwaits
    rfl
  rw [hfeed, accept_of_plain hc]
  unfold talk
  rw [Option.bind_map]
  simp only [Function.comp_def, after_afterRun]
  exact (Option.bind_map ..).symm

theorem runWords_of_talk {fuel : Nat} {c : Console} {printed : String} {ws : List Word}
    {lines : List String} {t : Turn} (h : c.talk fuel printed ws lines = some t) :
    ∃ r m, c.debugger.machine.runWords fuel ws = some (r, m) := by
  obtain ⟨_, hmap, _⟩ := Option.bind_eq_some_iff.mp h
  obtain ⟨⟨r, m⟩, hrun, _⟩ := Option.map_eq_some_iff.mp hmap
  exact ⟨r, m, hrun⟩

/-- The console ends its conversation like a dialogue: it has printed the dialogue, and the program
succeeds or fails with the last call. -/
def Retells (d : Dialogue) (r : Except Error RunOutput) (printed : String) (t : Turn) : Prop :=
  (Run.finish t).output = printed ++ d.text ∧
    (Run.finish t).code = if (Machine.ending r).isOk then 0 else 1

theorem retells_afterRun (c : Console) (printed : String) (r : Except Error RunOutput)
    (m : Machine) : Retells ⟨Machine.written r m, []⟩ r printed (c.afterRun printed (r, m)) := by
  unfold Retells
  rw [Dialogue.text_nil]
  cases r with
  | error e => exact ⟨rfl, rfl⟩
  | ok out =>
      obtain ⟨ws, mode⟩ := out
      cases mode with
      | running | awaitingInput | halted => exact ⟨rfl, rfl⟩

theorem Retells.cons {d : Dialogue} {r : Except Error RunOutput} {printed line : String} {t : Turn}
    {out : RunOutput} (h : Retells d r (printed ++ out.text ++ (line ++ "\n")) t) :
    Retells ⟨out.words, (line, d.opening) :: d.turns⟩ r printed t := by
  refine ⟨?_, h.2⟩
  rw [h.1, Dialogue.text_cons]
  simp only [String.append_assoc]
  rfl

/-- Whatever the console prints is a dialogue of its machine. -/
theorem converses_of_talk {fuel : Nat} {c : Console} {printed : String} {ws : List Word}
    {lines : List String} {t : Turn} (hc : c.Plain) (hw : ∀ w ∈ ws, w.toNat ≤ 32767)
    (hlines : ∀ line ∈ lines, ∀ c ∈ line.toList, c.toNat ≤ 0x7FFF)
    (h : c.talk fuel printed ws lines = some t) :
    ∃ d r m', c.debugger.machine.Converses ws lines d r m' ∧ Retells d r printed t := by
  induction lines generalizing c printed ws with
  | nil =>
      obtain ⟨r, m, hrun⟩ := runWords_of_talk h
      rw [talk_of_stop hc hw hrun (fun _ => rfl)] at h
      cases h
      exact ⟨_, r, m, .stop ⟨fuel, hrun⟩ (fun _ => rfl), c.retells_afterRun printed r m⟩
  | cons line lines ih =>
      obtain ⟨r, m, hrun⟩ := runWords_of_talk h
      by_cases hwaits : Machine.ending r = .ok .awaitingInput
      · obtain ⟨out, rfl, hmode⟩ := Machine.ending_eq_ok_iff.mp hwaits
        have hcall : c.debugger.machine.Returns ws (.ok out) m := ⟨fuel, hrun⟩
        have hc' := hc.holding (hcall.limit hc.limit hw)
        rw [talk_of_turn hc' hrun hmode] at h
        obtain ⟨hline, hmore⟩ := List.forall_mem_cons.mp hlines
        obtain ⟨d, r, m', hrest, hretells⟩ := ih hc' (Text.lineUnits_narrow hline) hmore h
        exact ⟨_, r, m', .turn hcall hmode hrest, hretells.cons⟩
      · have hstop : Machine.ending r = .ok .awaitingInput → line :: lines = [] :=
          fun h => absurd h hwaits
        rw [talk_of_stop hc hw hrun hstop] at h
        cases h
        exact ⟨_, r, m, .stop ⟨fuel, hrun⟩ hstop, c.retells_afterRun printed r m⟩

/-- The console comes to the end of every dialogue of its machine. -/
theorem talk_of_converses {m m' : Machine} {ws : List Word} {lines : List String} {d : Dialogue}
    {r : Except Error RunOutput} (h : m.Converses ws lines d r m')
    (hw : ∀ w ∈ ws, w.toNat ≤ 32767)
    (hlines : ∀ line ∈ lines, ∀ c ∈ line.toList, c.toNat ≤ 0x7FFF) (c : Console) (hc : c.Plain)
    (hm : c.debugger.machine = m) (printed : String) :
    ∃ bound, ∀ fuel, bound ≤ fuel → ∃ t, c.talk fuel printed ws lines = some t := by
  induction h generalizing c printed with
  | stop hcall hstop =>
      obtain ⟨bound, hrun⟩ := hcall
      subst hm
      refine ⟨bound, ?_⟩
      intro fuel hfuel
      exact ⟨_, talk_of_stop hc hw (Machine.runWords_mono hrun hfuel) hstop⟩
  | @turn m m₁ m' ws line lines out d r hcall hmode _ ih =>
      subst hm
      have hc' := hc.holding (hcall.limit hc.limit hw)
      obtain ⟨bound, hrun⟩ := hcall
      obtain ⟨hline, hmore⟩ := List.forall_mem_cons.mp hlines
      obtain ⟨bound', hrest⟩ := ih (Text.lineUnits_narrow hline) hmore (c.holding m₁) hc' rfl
        (printed ++ out.text ++ (line ++ "\n"))
      refine ⟨max bound bound', ?_⟩
      intro fuel hfuel
      have hrun' := Machine.runWords_mono hrun (Nat.le_trans (Nat.le_max_left _ _) hfuel)
      rw [talk_of_turn hc' hrun' hmode]
      exact hrest fuel (Nat.le_trans (Nat.le_max_right _ _) hfuel)

/-- A conversation starts with a call that brings no input. -/
theorem converse_eq_talk {fuel : Nat} {c : Console} {lines : List String}
    (hrunning : c.debugger.machine.mode = .running) (hempty : c.debugger.machine.output = #[]) :
    c.converse fuel (lines.map .text) = c.talk fuel "" [] lines := by
  have hne : c.debugger.machine.mode ≠ .halted := by
    rw [hrunning]
    decide
  have hcall : c.debugger.machine.runWords fuel [] = c.debugger.machine.run fuel := by
    rw [Machine.runWords_of_queue (Machine.queue_of_narrow hne (List.forall_mem_nil _)),
      Machine.feed_nil]
  have hsame : { c.debugger.machine with output := #[] } = c.debugger.machine := by
    rw [← hempty]
  have htake : c.debugger.takeOutput = ("", c.debugger) := by
    unfold Debugger.takeOutput Machine.takeOutput
    rw [hsame, hempty]
    rfl
  unfold converse settle talk
  simp only [hrunning, htake, hcall]

end Console

/-! ### The program -/

namespace Run

/-- A program starts with a machine that has neither run nor written anything. -/
theorem fresh_of_start {w : World} {args : List String} {console : Console}
    (h : start w args = .ok console) :
    console.debugger.machine.mode = .running ∧ console.debugger.machine.output = #[] := by
  unfold start at h
  split at h
  · cases h
  split at h
  · cases h
  · cases h
  split at h
  · cases h
  next path _ =>
    split at h
    · cases h
    next settings _ =>
      cases hload : World.loadImage w (cannotOpen path) path with
      | error exit =>
          rw [hload] at h
          cases h
      | ok memory =>
          rw [hload] at h
          cases h
          show (Machine.ofSettings memory settings).mode = .running ∧
            (Machine.ofSettings memory settings).output = #[]
          unfold Machine.ofSettings
          split <;> exact ⟨rfl, rfl⟩

end Run

/-- **The program is the machine with an echo.**  Suppose lines are echoed and never taken for
commands, there is no instruction limit, and the characters of the lines can be queued.  Then the
program comes to its end if and only if one run of the machine does that has all lines queued.  It
prints a dialogue of the machine, with lines from the first one on, and with all of them if the run
ends waiting.  What the machine writes in the dialogue is what it writes in the run.  The program
succeeds if the run halts or waits, and fails if the run does. -/
theorem program_is_machine_with_echo (w : World) (args : List String) (console : Console)
    (lines : List String) (hstart : Run.start w args = .ok console) (hecho : console.echo = true)
    (hcommands : console.commands = false) (hlimit : console.debugger.machine.limit = none)
    (hlines : ∀ line ∈ lines, ∀ c ∈ line.toList, c.toNat ≤ 0x7FFF) :
    ((∃ fuel exit, runProgram fuel w args (lines.map .text) = some exit) ↔
      ∃ r m', console.debugger.machine.Returns (lines.flatMap Text.lineUnits) r m') ∧
    ∀ fuel exit r m', runProgram fuel w args (lines.map .text) = some exit →
      console.debugger.machine.Returns (lines.flatMap Text.lineUnits) r m' →
      (∃ d : Dialogue, (∃ r₁ m₁, console.debugger.machine.Converses [] lines d r₁ m₁) ∧
        d.lines <+: lines ∧ exit.output = d.text ∧ d.words = Machine.written r m' ∧
        Text.ofWords d.opening ++ String.join (d.turns.map fun t => Text.ofWords t.2) =
          Text.ofWords (Machine.written r m') ∧
        (Machine.ending r = .ok .awaitingInput → d.lines = lines)) ∧
      (exit.code = 0 ↔
        Machine.ending r = .ok .halted ∨ Machine.ending r = .ok .awaitingInput) ∧
      (exit.code = 1 ↔ ∃ f, Machine.ending r = .error (.fault f)) := by
  obtain ⟨hrunning, hempty⟩ := Run.fresh_of_start hstart
  have hplain : console.Plain := ⟨hecho, hcommands, hlimit⟩
  have hnil : ∀ w ∈ ([] : List Word), w.toNat ≤ 32767 := List.forall_mem_nil _
  have hall := Text.flatMap_lineUnits_narrow hlines
  have hprogram : ∀ fuel, runProgram fuel w args (lines.map .text) =
      (console.talk fuel "" [] lines).map Run.finish := by
    intro fuel
    unfold runProgram
    rw [hstart, ← Console.converse_eq_talk hrunning hempty]
  have hdialogue : ∀ r m',
      console.debugger.machine.Returns ([] ++ lines.flatMap Text.lineUnits) r m' →
      ∃ d r₁ m₁, console.debugger.machine.Converses [] lines d r₁ m₁ ∧
        Machine.ending r₁ = Machine.ending r ∧ d.words = Machine.written r m' :=
    fun r m' h => h.converses hlimit hnil hlines
  refine ⟨⟨?_, ?_⟩, ?_⟩
  · rintro ⟨fuel, exit, h⟩
    rw [hprogram] at h
    obtain ⟨t, htalk, _⟩ := Option.map_eq_some_iff.mp h
    obtain ⟨d, r, m', hconverses, _⟩ := Console.converses_of_talk hplain hnil hlines htalk
    exact hconverses.returns hlimit hnil hlines
  · rintro ⟨r, m', h⟩
    obtain ⟨d, r₁, m₁, hconverses, _, _⟩ := hdialogue r m' h
    obtain ⟨fuel, htalk⟩ := Console.talk_of_converses hconverses hnil hlines console hplain rfl ""
    obtain ⟨t, ht⟩ := htalk fuel (Nat.le_refl fuel)
    refine ⟨fuel, Run.finish t, ?_⟩
    rw [hprogram, ht]
    rfl
  · intro fuel exit r m' h hcall
    rw [hprogram] at h
    obtain ⟨t, htalk, rfl⟩ := Option.map_eq_some_iff.mp h
    obtain ⟨d, r₁, m₁, hconverses, houtput, hcode⟩ :=
      Console.converses_of_talk hplain hnil hlines htalk
    obtain ⟨d', r₁', m₁', hconverses', hends, hwords⟩ := hdialogue r m' hcall
    obtain ⟨rfl, rfl, rfl⟩ := hconverses.unique hconverses'
    rw [hends] at hcode
    refine ⟨⟨d, ⟨r₁, m₁, hconverses⟩, hconverses.lines_prefix, ?_, hwords, ?_, ?_⟩, ?_⟩
    · rw [houtput, String.empty_append]
    · rw [← hwords, Dialogue.ofWords_words]
    · intro hwaits
      exact hconverses.lines_eq (hends.trans hwaits)
    · rcases hcall.ends hlimit hall with hr | ⟨hr, _⟩ | ⟨f, hr, _⟩
      all_goals simp [hcode, hr, Except.isOk, Except.toBool]

/-- A system whose only file holds the program that echoes one word and then fails. -/
def brokenEchoWorld : World where
  programName := "echo"
  file _ := .ok (bytesOfWords [20, 32768, 19, 32768, 3, 32768])
  traceVariable := none
  limitVariable := none
  terminal := false
  readSettings _ := .error .malformed

theorem start_brokenEcho :
    Run.start brokenEchoWorld ["image"] = .ok ⟨Debugger.ofMachine Machine.brokenEcho, true, false⟩ := by
  have hload : Memory.ofWords [20, 32768, 19, 32768, 3, 32768] =
      .ok (Memory.holding [20, 32768, 19, 32768, 3, 32768] (by decide)) :=
    Memory.ofWords_of_le (by decide)
  have hwords : wordsOfBytes (bytesOfWords [20, 32768, 19, 32768, 3, 32768]) =
      [20, 32768, 19, 32768, 3, 32768] := by decide
  have himage : brokenEchoWorld.loadImage (Run.cannotOpen "image") "image" =
      .ok (Memory.holding [20, 32768, 19, 32768, 3, 32768] (by decide)) := by
    unfold World.loadImage Memory.ofBytes
    simp only [brokenEchoWorld, hwords, hload]
    rfl
  have hoptions : Run.readOptions {} ["image"] = .ok (some { image := some "image" }) := rfl
  unfold Run.start
  rw [if_neg (by decide), hoptions]
  show (do
    let memory ← brokenEchoWorld.loadImage (Run.cannotOpen "image") "image"
    return (⟨Debugger.ofMachine (Machine.ofSettings memory { echo := true }), true, false⟩ : Console)) = _
  rw [himage]
  rfl

/-- The program fails while it works on the first of two lines.  What it has written by then is
printed behind the echo of this line, and the second line is not read. -/
theorem brokenEcho_program : ∃ (exit : Exit) (m' : Machine) (d : Dialogue),
    runProgram 3 brokenEchoWorld ["image"] [.text "AB", .text "C"] = some exit ∧
    exit.code = 1 ∧ exit.output = "AB\nA" ∧
    Machine.brokenEcho.Returns [65, 66, 10, 67, 10] (.error (.fault (.stackUnderflow 4))) m' ∧
    d.lines <+: ["AB", "C"] ∧ exit.output = d.text ∧ d.words = [65] := by
  obtain ⟨t, ht, hprinted⟩ : ∃ t, (Console.mk (Debugger.ofMachine Machine.brokenEcho) true
      false).converse 3 [.text "AB", .text "C"] = some t ∧ (Run.finish t).output = "AB\nA" :=
    ⟨_, rfl, rfl⟩
  obtain ⟨m', hcall, hwritten⟩ : ∃ m', Machine.brokenEcho.runWords 3 [65, 66, 10, 67, 10] =
      some (.error (.fault (.stackUnderflow 4)), m') ∧ m'.output.toList = [65] := ⟨_, rfl, rfl⟩
  have hrun : runProgram 3 brokenEchoWorld ["image"] [.text "AB", .text "C"] =
      some (Run.finish t) := by
    unfold runProgram
    rw [start_brokenEcho]
    exact congrArg (Option.map Run.finish) ht
  have hlines : ∀ line ∈ ["AB", "C"], ∀ c ∈ line.toList, c.toNat ≤ 0x7FFF := by
    simp
  obtain ⟨⟨d, _, hread, hout, hwords, _, _⟩, _, hfails⟩ :=
    (program_is_machine_with_echo brokenEchoWorld ["image"] _ ["AB", "C"] start_brokenEcho rfl rfl rfl
      hlines).2 3 _ _ m' hrun ⟨3, hcall⟩
  exact ⟨_, m', d, hrun, hfails.mpr ⟨_, rfl⟩, hprinted, ⟨3, hcall⟩, hread, hout,
    hwords.trans hwritten⟩

end WordMachine
