import WordMachine.Proofs.Course

/-! # Output keeps its order

Words leave a machine through many doors: a run hands them out when it does not fail, they can be
collected as words or as text, and two commands show them.  In all transcripts the words that come
out are the values of the `out` instructions that were executed, each once and in this order.

* `Machine.nextOutput`, `Machine.Executes.output` : the words that a step and an execution write.
* `Call.Accounted` : the words that a call hands out are those in its reply.
* `Debugger.output_is_conserved` : the statement about transcripts. -/

namespace WordMachine

/-- An execution appends what its `out` instructions write. -/
theorem Machine.Executes.output {m m' : Machine} {ms : List Machine} (h : Executes m ms m') :
    m'.output.toList = m.output.toList ++ ms.flatMap nextOutput := by
  induction h with
  | nil m => simp
  | @cons m m' ms _ ih =>
      have hstep : m.next.output.toList = m.output.toList ++ m.nextOutput := m.output_step
      rw [ih, hstep, List.flatMap_cons, List.append_assoc]

/-! ### What is shown of the output -/

/-- A text shows the words that are handed out with it: they stand alone, behind a note on how steps
have ended and in front of the instruction at which the debugger now stands, or in front of the
reason for stopping.  A fault, and what other commands answer, hands out nothing. -/
inductive Operation.Shows (d' : Debugger) : Operation → List Word → String → Prop
  | takeText (ws : List Word) : Shows d' .takeText ws (Text.ofWords ws)
  | steps {line : String} {count : Nat} {p : Pause} {ws : List Word} :
      Command.read line = .ok (.step count) →
      Shows d' (.command line) ws (Debugger.pauseText p ++ Text.ofWords ws ++ d'.currentLine)
  | resume {line : String} {reason : StopReason} {ws : List Word} :
      Command.read line = .ok .resume →
      Shows d' (.command line) ws (Text.ofWords ws ++ Debugger.stopText reason)
  | fault {line : String} {f : Fault} : Shows d' (.command line) [] f.message
  | other {line text : String} : (∀ count, Command.read line ≠ .ok (.step count)) →
      Command.read line ≠ .ok .resume → Shows d' (.command line) [] text

namespace Operation

theorem shows_of_reported {bs : Breakpoints} {m : Machine} {d' : Debugger} {line text : String}
    {c : Command} {p : Pause} {ws : List Word} (hread : Command.read line = .ok c)
    (h : Debugger.Reported bs m c p text ws d') : (command line).Shows d' ws text := by
  cases h with
  | stepFault f | resumeFault f => exact .fault
  | steps _ _ => exact .steps hread
  | resume reason => exact .resume hread

theorem shows_of_command {fuel : Nat} {d d' : Debugger} {line text : String}
    (h : d.command fuel line = some (text, d')) :
    (command line).Shows d' ((command line).collected fuel d (.text text)) text := by
  unfold Debugger.command at h
  cases hread : Command.read line with
  | error e =>
      have hc : (command line).collected fuel d (.text text) = [] := by
        simp only [collected, hread]
      rw [hc]
      refine .other ?_ ?_
      · intro count hstep
        rw [hread] at hstep
        cases hstep
      · intro hresume
        rw [hread] at hresume
        cases hresume
  | ok c =>
      rw [hread] at h
      rw [collected_command hread]
      cases c with
      | step count =>
          rcases ha : d.machine.advance count with ⟨p, m⟩
          obtain ⟨ws, hshown, hreported⟩ :=
            Debugger.reported_of_stepText fuel ha (Option.some.inj h)
          rw [hshown]
          exact shows_of_reported hread hreported
      | resume =>
          rcases ha : Debugger.advanceTo d.breakpoints fuel d.machine with ⟨r, m⟩
          obtain ⟨ws, hshown, hreported⟩ := Debugger.reported_of_resumeText ha h
          rw [hshown]
          exact shows_of_reported hread hreported
      | _ =>
          refine .other ?_ ?_
          · intro count hstep
            rw [hread] at hstep
            cases hstep
          · intro hresume
            rw [hread] at hresume
            cases hresume

/-- Every text that an operation answers with shows the words that are handed out with it. -/
theorem shows {op : Operation} {fuel : Nat} {d d' : Debugger} {text : String}
    (h : op.apply fuel d = some (.text text, d')) :
    op.Shows d' (op.collected fuel d (.text text)) text := by
  cases op with
  | takeText =>
      cases h
      exact .takeText _
  | command line =>
      obtain ⟨⟨t, d₁⟩, hcommand, he⟩ := Option.map_eq_some_iff.mp h
      cases he
      exact shows_of_command hcommand
  | queue ws | queueLine line | setRegister index value | poke addr value =>
      obtain ⟨_, e, he⟩ := settle_eq h
      cases he
  | run | runWords ws | runLine line | resume limit =>
      obtain ⟨x, _, he⟩ := Option.map_eq_some_iff.mp h
      cases he
  | _ => cases h

/-! ### Failures hand out nothing -/

theorem collected_of_failed {op : Operation} {fuel : Nat} {d d' : Debugger} {r : Reply}
    (h : op.apply fuel d = some (r, d')) (hr : r.failed = true) : op.collected fuel d r = [] := by
  cases op with
  | queue ws | queueLine line | setRegister index value | poke addr value =>
      obtain ⟨_, e, rfl⟩ := settle_eq h
      rfl
  | run | runWords ws | runLine line =>
      obtain ⟨⟨x, m⟩, _, he⟩ := Option.map_eq_some_iff.mp h
      cases he
      cases x with
      | ok out => cases hr
      | error e => rfl
  | resume limit =>
      obtain ⟨x, _, he⟩ := Option.map_eq_some_iff.mp h
      cases he
      rfl
  | command line =>
      obtain ⟨x, _, he⟩ := Option.map_eq_some_iff.mp h
      cases he
      cases hr
  | step =>
      cases h
      rfl
  | _ =>
      cases h
      cases hr

end Operation

theorem Machine.handedOut_of_fault {m m' x : Machine} {fuel : Nat} {f : Fault}
    {r : Except Error RunOutput} (h : m.run fuel = some (r, m')) (hx : x ∈ m.runAttempts fuel)
    (hf : x.step.1 = .error f) : RunOutput.handedOut r = [] := by
  unfold runAttempts at hx
  rcases run_eq_some h with ⟨hm, _, _⟩ | ⟨hm, p, m₁, ha, hfinished⟩
  · rw [if_pos hm] at hx
    cases hx
  · rw [if_neg hm] at hx
    have hp := advance_of_mem_attempts hx hf
    rw [ha] at hp
    obtain rfl : p = .faulted f := hp
    cases hfinished
    rfl

theorem Machine.handedOut_of_fault_runWords {m m' x : Machine} {fuel : Nat} {ws : List Word}
    {f : Fault} {r : Except Error RunOutput} (h : m.runWords fuel ws = some (r, m'))
    (hx : x ∈ m.runWordsAttempts fuel ws) (hf : x.step.1 = .error f) :
    RunOutput.handedOut r = [] := by
  unfold runWords at h
  unfold runWordsAttempts at hx
  cases hq : m.queue ws with
  | ok m₁ =>
      rw [hq] at h hx
      exact handedOut_of_fault h hx hf
  | error e =>
      rw [hq] at hx
      cases hx

namespace Operation

theorem shown_of_fault {fuel : Nat} {d : Debugger} {line : String} {c : Command}
    (hread : Command.read line = .ok c) {x : Machine} {f : Fault}
    (hx : x ∈ (command line).attempts fuel d) (hf : x.step.1 = .error f) :
    (d.shown fuel c).2 = [] := by
  simp only [attempts, hread] at hx
  cases c with
  | step count =>
      have hp := Machine.advance_of_mem_attempts hx hf
      rcases ha : d.machine.advance count with ⟨p, m⟩
      rw [ha] at hp
      obtain rfl : p = .faulted f := hp
      simp only [Debugger.shown, ha]
  | resume =>
      have hr := Debugger.advanceTo_of_mem_attemptsTo hx hf
      rcases ha : Debugger.advanceTo d.breakpoints fuel d.machine with ⟨r, m⟩
      rw [ha] at hr
      obtain rfl : r = .error f := hr
      simp only [Debugger.shown, ha]
  | _ => rfl

/-- An operation with a step that fails hands out nothing. -/
theorem collected_of_fault {op : Operation} {fuel : Nat} {d d' : Debugger} {r : Reply}
    (h : op.apply fuel d = some (r, d')) {x : Machine} {f : Fault} (hx : x ∈ op.attempts fuel d)
    (hf : x.step.1 = .error f) : op.collected fuel d r = [] := by
  cases op with
  | run =>
      obtain ⟨⟨y, m⟩, hrun, he⟩ := Option.map_eq_some_iff.mp h
      cases he
      exact Machine.handedOut_of_fault hrun hx hf
  | runWords ws | runLine line =>
      obtain ⟨⟨y, m⟩, hrun, he⟩ := Option.map_eq_some_iff.mp h
      cases he
      exact Machine.handedOut_of_fault_runWords hrun hx hf
  | step =>
      cases h
      rfl
  | resume limit =>
      obtain ⟨y, _, he⟩ := Option.map_eq_some_iff.mp h
      cases he
      rfl
  | command line =>
      obtain ⟨⟨text, d₁⟩, _, he⟩ := Option.map_eq_some_iff.mp h
      cases he
      cases hread : Command.read line with
      | ok c =>
          rw [collected_command hread]
          exact shown_of_fault hread hx hf
      | error e => simp only [collected, hread]
  | _ => cases hx

/-- What comes out of an operation and what is left, against what was there and what its `out`
instructions write. -/
theorem collected_append_output {op : Operation} {fuel : Nat} {d d' : Debugger} {r : Reply}
    (h : op.apply fuel d = some (r, d')) :
    op.collected fuel d r ++ d'.machine.output.toList =
      d.machine.output.toList ++ (op.attempts fuel d).flatMap Machine.nextOutput := by
  obtain ⟨m, hready, hexec⟩ := course h
  have hout := hexec.output
  rw [Machine.output_owing, hready.output] at hout
  exact hout

end Operation

theorem Debugger.Transcript.output {d d' : Debugger} {cs : List Call} (h : Transcript d cs d') :
    cs.flatMap (·.collected) ++ d'.machine.output.toList =
      d.machine.output.toList ++ (cs.flatMap (·.attempts)).flatMap Machine.nextOutput := by
  induction h with
  | nil d => simp
  | @cons d d₁ d₂ op fuel c cs hcall _ ih =>
      obtain ⟨r, hr, rfl⟩ := Operation.call_eq_some_iff.mp hcall
      have hone := Operation.collected_append_output hr
      simp only [List.flatMap_cons, List.flatMap_append]
      rw [List.append_assoc, ih, ← List.append_assoc, hone, List.append_assoc]

/-! ### Nothing is lost, repeated or put out of order -/

/-- Whether a reply can show output. -/
def Reply.carries : Reply → Bool
  | .ran _ | .words _ | .text _ => true
  | _ => false

/-- A call fails: it answers with an error, or one of its steps does. -/
def Call.Fails (c : Call) : Prop :=
  c.reply.failed = true ∨ ∃ m ∈ c.attempts, ∃ f, m.step.1 = .error f

/-- The words that a call hands out are those in its reply.  Where the reply shows them as text, each of
them is one character, in the same order.  A call that fails hands out none. -/
structure Call.Accounted (c : Call) : Prop where
  run : ∀ out, c.reply = .ran (.ok out) → c.collected = out.words
  words : ∀ ws, c.reply = .words ws → c.collected = ws
  text : ∀ text, c.reply = .text text → c.operation.Shows c.after c.collected text
  characters : (Text.ofWords c.collected).toList = c.collected.map Text.printed
  silent : c.reply.carries = false → c.collected = []
  fails : c.Fails → c.collected = []

namespace Operation

theorem collected_of_silent {op : Operation} {fuel : Nat} {d d' : Debugger} {r : Reply}
    (h : op.apply fuel d = some (r, d')) (hr : r.carries = false) : op.collected fuel d r = [] := by
  cases op with
  | takeText =>
      cases h
      cases hr
  | command line =>
      obtain ⟨x, _, he⟩ := Option.map_eq_some_iff.mp h
      cases he
      cases hr
  | _ =>
      cases r with
      | ran x | words ws | text t => cases hr
      | done | queued x | stepped x | stopped x | edited x | answer yes => rfl

theorem accounted {op : Operation} {fuel : Nat} {d d' : Debugger} {c : Call}
    (h : op.call fuel d = some (c, d')) : c.Accounted := by
  obtain ⟨r, hr, rfl⟩ := call_eq_some_iff.mp h
  refine ⟨?_, ?_, ?_, Text.toList_ofWords _, collected_of_silent hr, ?_⟩
  · rintro out rfl
    unfold collected
    rfl
  · rintro ws rfl
    unfold collected
    rfl
  · rintro text rfl
    exact shows hr
  · rintro (hfailed | ⟨x, hx, f, hf⟩)
    · exact collected_of_failed hr hfailed
    · exact collected_of_fault hr hx hf

end Operation

namespace Debugger

/-- **Output is neither lost nor repeated nor put out of order.**  In every transcript the words
handed out by the calls, followed by those that are uncollected in the end, are the words that were
uncollected in the beginning, followed by the values of the `out` instructions that were executed,
in the order of execution.  What a call hands out is shown by its reply, and is nothing if the call
fails.  A run of a halted machine hands out nothing, and keeps what is uncollected. -/
theorem output_is_conserved :
    (∀ d cs d', Transcript d cs d' →
      cs.flatMap (·.collected) ++ d'.machine.output.toList =
        d.machine.output.toList ++ (cs.flatMap (·.attempts)).flatMap Machine.nextOutput ∧
      ∀ c ∈ cs, c.Accounted) ∧
    (∀ fuel d, d.machine.mode = .halted →
      Operation.run.call fuel d = some (⟨.run, .ran (.ok ⟨[], .halted⟩), [], [], [], d⟩, d)) := by
  constructor
  · intro d cs d' h
    exact ⟨h.output, h.forall_mem (fun _ _ _ _ _ => Operation.accounted)⟩
  · intro fuel d hm
    refine Operation.call_eq_some_iff.mpr ⟨.ran (.ok ⟨[], .halted⟩), ?_, ?_⟩
    · simp only [Operation.apply, Machine.run_of_halted hm]
      rfl
    · have ha : Operation.run.attempts fuel d = [] := if_pos hm
      have hb : Operation.run.accepted d = [] := d.machine.accepted_nil
      rw [ha, hb]
      rfl

/-- The program that prints two words is stepped once, then run under a limit that it reaches at
once, then continued by a command, which shows both words. -/
theorem greeter_in_pieces : ∃ cs d', Transcript greeter cs d' ∧
    cs.map (·.operation) = [.step, .setLimit (some 0), .run, .command "c", .takeWords] ∧
    cs.map (·.collected) = [[], [], [], [72, 105], []] ∧
    (cs.flatMap (·.attempts)).flatMap Machine.nextOutput = [72, 105] ∧
    ∀ c ∈ cs, c.Accounted := by
  obtain ⟨c₁, c₂, c₃, c₄, c₅, d₁, d₂, d₃, d₄, d₅, h₁, h₂, h₃, h₄, h₅, hops, hcollected, hleft⟩ :
      ∃ c₁ c₂ c₃ c₄ c₅ d₁ d₂ d₃ d₄ d₅,
      Operation.step.call 0 greeter = some (c₁, d₁) ∧
      (Operation.setLimit (some 0)).call 0 d₁ = some (c₂, d₂) ∧
      Operation.run.call 0 d₂ = some (c₃, d₃) ∧
      (Operation.command "c").call 2 d₃ = some (c₄, d₄) ∧
      Operation.takeWords.call 0 d₄ = some (c₅, d₅) ∧
      [c₁, c₂, c₃, c₄, c₅].map (·.operation) =
        [.step, .setLimit (some 0), .run, .command "c", .takeWords] ∧
      [c₁, c₂, c₃, c₄, c₅].map (·.collected) = [[], [], [], [72, 105], []] ∧
      d₅.machine.output.toList = [] :=
    ⟨_, _, _, _, _, _, _, _, _, _, rfl, rfl, rfl, rfl, rfl, rfl, rfl, rfl⟩
  have htranscript : Transcript greeter [c₁, c₂, c₃, c₄, c₅] d₅ :=
    .cons h₁ (.cons h₂ (.cons h₃ (.cons h₄ (.cons h₅ (.nil d₅)))))
  obtain ⟨hout, haccounted⟩ := output_is_conserved.1 _ _ _ htranscript
  refine ⟨_, _, htranscript, hops, hcollected, ?_, haccounted⟩
  have hflat : [c₁, c₂, c₃, c₄, c₅].flatMap (·.collected) = [72, 105] := by
    rw [List.flatMap_def, hcollected]
    rfl
  have hnone : greeter.machine.output.toList = [] := rfl
  rw [hflat, hleft, hnone] at hout
  exact hout.symm

end Debugger

end WordMachine
