import Mathlib.Logic.Function.Iterate
import WordMachine.Debugger.Command
import WordMachine.Proofs.Suspension

/-! # Driving schedules

A program can be driven in many ways: by runs with or without an instruction limit, by single
steps, by continuing in the debugger up to breakpoints or a number of steps, and by the debugger
commands for these.  Every one of them takes some number of plain steps and may hand out the
output collected by then (`Debugger.Drives.stretch`).  So a whole schedule of them is a number
of plain steps (`Debugger.Schedule.iterate`), and since a machine that has stopped is not
changed by further steps, all schedules that come to a stop end in the same machine.

* `Debugger.Drives` : one operation, how it reports the machine to have stopped, and the words
  that it hands out.
* `Debugger.Schedule` : a sequence of operations.
* `Debugger.Renders` : the text of a command shows the report and the words.
* `Debugger.Reported` : what a command that drives the machine makes of where it came to.
* `Debugger.schedules_agree` : the statement about schedules. -/

namespace WordMachine

namespace Machine

/-! ### Plain steps -/

/-- The machine after one step, however that ends. -/
def next (m : Machine) : Machine := m.step.2

theorem next_of_halted {m : Machine} (h : m.mode = .halted) : m.next = m :=
  congrArg Prod.snd (step_of_halted h)

theorem Steps.iterate_next {m m' : Machine} {n : Nat} (h : Steps m m' n) : next^[n] m = m' := by
  induction h with
  | refl m => rfl
  | @step m m₁ m₂ o n hs _ _ ih =>
      have hnext : m.next = m₁ := congrArg Prod.snd hs
      rw [Function.iterate_succ_apply, hnext, ih]

theorem limit_iterate_next (n : Nat) (m : Machine) : (next^[n] m).limit = m.limit := by
  induction n generalizing m with
  | zero => rfl
  | succ n ih =>
      rw [Function.iterate_succ_apply, ih]
      exact m.limit_step

/-- A stretch of execution is a number of plain steps. -/
theorem exists_iterate_next {m m' : Machine} {n : Nat} {p : Pause} (h : m.advance n = (p, m')) :
    ∃ k, next^[k] m = m' := by
  rcases advance_eq_iff.mp h with ⟨_, hsteps⟩ | ⟨k, mₖ, r, _, hsteps, hstep, _⟩
  · exact ⟨n, hsteps.iterate_next⟩
  · refine ⟨k + 1, ?_⟩
    rw [Function.iterate_succ_apply', hsteps.iterate_next]
    exact congrArg Prod.snd hstep

theorem limit_of_advance {m m' : Machine} {n : Nat} {p : Pause} (h : m.advance n = (p, m')) :
    m'.limit = m.limit := by
  obtain ⟨k, rfl⟩ := exists_iterate_next h
  exact limit_iterate_next k m

/-! ### Stopped machines -/

/-- A step that stops is repeated by the next one, which changes nothing. -/
theorem step_again {m m' : Machine} {r : Except Fault Outcome} {p : Pause}
    (h : m.step = (r, m')) (hp : p.result? = some r) : m'.step = (r, m') := by
  cases p with
  | spent => cases hp
  | awaitingInput =>
      cases hp
      obtain ⟨hm, rfl⟩ := eq_of_step_awaiting h
      rw [step_of_mode hm (by decide), h]
  | halted =>
      cases hp
      exact step_of_halted (mode_of_step_halted h)
  | faulted f =>
      cases hp
      exact (stuck_of_step h).step

/-- A stretch of execution that has stopped leaves a machine that is not changed by a step. -/
theorem step_of_advance {m m' : Machine} {n : Nat} {p : Pause} {r : Except Fault Outcome}
    (h : m.advance n = (p, m')) (hp : p.result? = some r) : m'.step = (r, m') := by
  rcases advance_eq_iff.mp h with ⟨rfl, _⟩ | ⟨k, mₖ, r', _, _, hstep, hp'⟩
  · cases hp
  · rw [hp] at hp'
    cases hp'
    exact step_again hstep hp

/-- Two numbers of steps that both lead to a machine that is not changed any more lead to the
same machine. -/
theorem iterate_next_unique {m m₁ m₂ : Machine} {n₁ n₂ : Nat} (h₁ : next^[n₁] m = m₁)
    (h₂ : next^[n₂] m = m₂) (hs₁ : m₁.next = m₁) (hs₂ : m₂.next = m₂) : m₁ = m₂ := by
  have e₁ : next^[n₂ + n₁] m = m₁ := by
    rw [Function.iterate_add_apply, h₁, Function.iterate_fixed hs₁]
  have e₂ : next^[n₁ + n₂] m = m₂ := by
    rw [Function.iterate_add_apply, h₂, Function.iterate_fixed hs₂]
  rw [← e₁, ← e₂, Nat.add_comm]

/-! ### What does not matter to a step -/

theorem unnoticed_setLimit (limit : Option Nat) : Unnoticed (fun m => m.setLimit limit) where
  after _ _ _ := rfl

theorem step_setLimit (m : Machine) (limit : Option Nat) :
    (m.setLimit limit).step = (m.step.1, m.step.2.setLimit limit) :=
  (unnoticed_setLimit limit).step m

/-- The machine that owes some words and is under another limit. -/
def restored (m : Machine) (limit : Option Nat) (out : List Word) : Machine :=
  (m.owing out).setLimit limit

theorem step_restored (m : Machine) (limit : Option Nat) (out : List Word) :
    (m.restored limit out).step = (m.step.1, m.step.2.restored limit out) := by
  unfold restored
  rw [step_setLimit, step_owing]

theorem iterate_next_restored (n : Nat) (m : Machine) (limit : Option Nat) (out : List Word) :
    next^[n] (m.restored limit out) = (next^[n] m).restored limit out := by
  have hcommute : Function.Commute next (fun x : Machine => x.restored limit out) :=
    fun x => congrArg Prod.snd (x.step_restored limit out)
  exact hcommute.iterate_left n m

theorem restored_restored (m : Machine) (l₁ l₂ : Option Nat) (out₁ out₂ : List Word) :
    (m.restored l₂ out₂).restored l₁ out₁ = m.restored l₁ (out₁ ++ out₂) := by
  have hout : out₁.toArray ++ (out₂.toArray ++ m.output) = (out₁ ++ out₂).toArray ++ m.output := by
    apply Array.toList_inj.mp
    simp
  simp only [restored, owing, setLimit, hout]

/-- The words have been handed out and the limit is the same. -/
theorem restored_of_owing {m m₁ m' : Machine} {out : List Word} (h : m₁.limit = m.limit)
    (hm' : m'.owing out = m₁) : m'.restored m.limit out = m₁ := by
  unfold restored
  rw [hm', ← h]
  rfl

/-- Nothing has been handed out and the limit is the same. -/
theorem restored_self {m m' : Machine} (h : m'.limit = m.limit) : m'.restored m.limit [] = m' :=
  restored_of_owing h m'.owing_nil

/-- Two machines agree in everything but their limit and their uncollected output. -/
structure SameExecution (m m' : Machine) : Prop where
  core : m.core = m'.core
  mode : m.mode = m'.mode
  input : m.input = m'.input
  executed : m.executed = m'.executed
  trace : m.trace = m'.trace

theorem sameExecution_restored (m : Machine) (limit : Option Nat) (out : List Word) :
    SameExecution m (m.restored limit out) :=
  ⟨rfl, rfl, rfl, rfl, rfl⟩

theorem output_restored (m : Machine) (limit : Option Nat) (out : List Word) :
    (m.restored limit out).output.toList = out ++ m.output.toList :=
  m.output_owing out

theorem SameExecution.of_restored {m₁ m₂ : Machine} {limit : Option Nat} {out₁ out₂ : List Word}
    (h : m₁.restored limit out₁ = m₂.restored limit out₂) : SameExecution m₁ m₂ where
  core := (congrArg Machine.core h :)
  mode := (congrArg Machine.mode h :)
  input := (congrArg Machine.input h :)
  executed := (congrArg Machine.executed h :)
  trace := (congrArg Machine.trace h :)

end Machine

/-! ### Reports -/

namespace Pause

theorem exists_result {p : Pause} (h : p ≠ .spent) : ∃ r, p.result? = some r := by
  cases p with
  | spent => exact absurd rfl h
  | awaitingInput | halted | faulted f => exact ⟨_, rfl⟩

/-- Different ways to stop are reported differently. -/
theorem result?_injective : Function.Injective result? := by
  intro p q h
  cases p <;> cases q <;> simp_all [result?]

/-- How a step reports the machine to have stopped; `spent` if it goes on. -/
def ofStep : Except Fault Outcome → Pause
  | .ok .halted => .halted
  | .ok .awaitingInput => .awaitingInput
  | .ok .advanced | .ok .jumped => .spent
  | .error f => .faulted f

/-- How a run reports the machine to have stopped; `spent` if it has reached its limit. -/
def ofRun : Except Error RunOutput → Pause
  | .ok ⟨_, .halted⟩ => .halted
  | .ok ⟨_, .awaitingInput⟩ => .awaitingInput
  | .error (.fault f) => .faulted f
  | _ => .spent

/-- How continuing reports the machine to have stopped; `spent` at a breakpoint or after the
last of the steps that were allowed. -/
def ofResume : Except Fault StopReason → Pause
  | .ok .halted => .halted
  | .ok .awaitingInput => .awaitingInput
  | .ok (.breakpoint _) | .ok .stepLimit => .spent
  | .error f => .faulted f

end Pause

/-- The words that a run hands out. -/
def RunOutput.handedOut : Except Error RunOutput → List Word
  | .ok out => out.words
  | .error _ => []

/-- Whether a command changes a register or a word of memory. -/
def Command.edits : Command → Bool
  | .setRegister _ _ | .poke _ _ => true
  | _ => false

namespace Debugger

/-- How a command reports the machine to have stopped, and the output that it shows. -/
def shown (fuel : Nat) (d : Debugger) : Command → Pause × List Word
  | .step count =>
    match d.machine.advance count with
    | (.faulted f, _) => (.faulted f, [])
    | (p, m) => (p, m.output.toList)
  | .resume =>
    match advanceTo d.breakpoints fuel d.machine with
    | (.error f, _) => (.faulted f, [])
    | (.ok reason, m) => (.ofResume (.ok reason), m.output.toList)
  | _ => (.spent, [])

/-- The text of a command that drives the machine gives the report and shows the words, or is the
wording of a fault. -/
def Renders (c : Command) (shown : Pause × List Word) (d' : Debugger) (text : String) : Prop :=
  match c, shown with
  | .step _, (.faulted f, _) => text = f.message
  | .step _, (p, ws) => text = pauseText p ++ Text.ofWords ws ++ d'.currentLine
  | .resume, (.faulted f, _) => text = f.message
  | .resume, (p, ws) => ∃ reason, .ofResume (.ok reason) = p ∧ text = Text.ofWords ws ++ stopText reason
  | _, _ => True

/-! ### One operation -/

/-- `Drives d p ws d'`: one operation leads from `d` to `d'`, reports that the machine has
stopped in the way `p`, and hands out the words `ws`.  Operations that queue input or edit the
machine are not among them. -/
inductive Drives : Debugger → Pause → List Word → Debugger → Prop
  | setLimit (d : Debugger) (limit : Option Nat) :
      Drives d .spent [] { d with machine := d.machine.setLimit limit }
  | run {d : Debugger} {fuel : Nat} {r : Except Error RunOutput} {m : Machine} :
      d.machine.run fuel = some (r, m) →
      Drives d (.ofRun r) (RunOutput.handedOut r) { d with machine := m }
  | step {d d' : Debugger} {r : Except Fault Outcome} :
      d.step = (r, d') → Drives d (.ofStep r) [] d'
  | resume {d d' : Debugger} {fuel : Nat} {limit : Option Nat} {r : Except Fault StopReason} :
      d.resume fuel limit = some (r, d') → Drives d (.ofResume r) [] d'
  | addBreakpoint (d : Debugger) (a : Word) : Drives d .spent [] (d.addBreakpoint a).2
  | removeBreakpoint (d : Debugger) (a : Word) : Drives d .spent [] (d.removeBreakpoint a).2
  | command {d d' : Debugger} {fuel : Nat} {line text : String} {c : Command} :
      Command.read line = .ok c → c.edits = false → d.command fuel line = some (text, d') →
      Drives d (d.shown fuel c).1 (d.shown fuel c).2 d'

/-- The operation takes a stretch of execution, and hands out output of its end. -/
def Stretch (d : Debugger) (p : Pause) (ws : List Word) (d' : Debugger) : Prop :=
  ∃ k, d.machine.advance k = (p, d'.machine.restored d.machine.limit ws)

theorem stretch_of_machine_eq {d d' : Debugger} (h : d'.machine = d.machine) :
    d.Stretch .spent [] d' := by
  refine ⟨0, ?_⟩
  rw [h, Machine.restored_self rfl]
  rfl

/-- A stretch of execution that hands out what is then owed no more. -/
theorem stretch_of_owing {d d' : Debugger} {k : Nat} {p : Pause} {m : Machine} {ws : List Word}
    (h : d.machine.advance k = (p, m)) (hd' : d'.machine.owing ws = m) : d.Stretch p ws d' := by
  refine ⟨k, ?_⟩
  rw [h, Machine.restored_of_owing (Machine.limit_of_advance h) hd']

/-- A stretch of execution that hands out nothing. -/
theorem stretch_of_advance {d : Debugger} {k : Nat} {p : Pause} {m : Machine} {bs : Breakpoints}
    (h : d.machine.advance k = (p, m)) : d.Stretch p [] ⟨m, bs⟩ :=
  stretch_of_owing h m.owing_nil

/-- A stretch of execution that hands out all its output. -/
theorem stretch_of_advance_take {d : Debugger} {k : Nat} {p : Pause} {m : Machine}
    {bs : Breakpoints} (h : d.machine.advance k = (p, m)) :
    d.Stretch p m.output.toList ⟨{ m with output := #[] }, bs⟩ :=
  stretch_of_owing h m.owing_output

theorem stretch_of_run {d : Debugger} {fuel : Nat} {r : Except Error RunOutput} {m : Machine}
    (h : d.machine.run fuel = some (r, m)) :
    d.Stretch (.ofRun r) (RunOutput.handedOut r) { d with machine := m } := by
  rcases Machine.run_eq_some h with ⟨hm, rfl, rfl⟩ | ⟨_, p, m₁, ha, hfinished⟩
  · have hone : d.machine.advance 1 = (.halted, d.machine) :=
      Machine.advance_succ_of_result (Machine.step_of_halted hm) rfl 0
    exact stretch_of_advance hone
  · cases hfinished with
    | spent l => exact stretch_of_advance ha
    | faulted f => exact stretch_of_advance ha
    | awaitingInput =>
        have hp : Pause.ofRun (.ok ⟨m₁.output.toList, m₁.mode⟩) = .awaitingInput := by
          rw [Machine.Stops.mode_of_awaiting ⟨by decide, _, ha⟩]
          rfl
        rw [hp]
        exact stretch_of_advance_take ha
    | halted =>
        have hp : Pause.ofRun (.ok ⟨m₁.output.toList, m₁.mode⟩) = .halted := by
          rw [Machine.Stops.mode_of_halted ⟨by decide, _, ha⟩]
          rfl
        rw [hp]
        exact stretch_of_advance_take ha

theorem stretch_of_step {d d' : Debugger} {r : Except Fault Outcome} (h : d.step = (r, d')) :
    d.Stretch (.ofStep r) [] d' := by
  cases h
  have hone : d.machine.advance 1 = (.ofStep d.machine.step.1, d.machine.step.2) := by
    rcases hs : d.machine.step with ⟨r, m₁⟩
    rw [Machine.advance, hs]
    cases r with
    | error f => rfl
    | ok o => cases o <;> rfl
  exact stretch_of_advance hone

theorem advanceTo_succ_of_goesOn {m m₁ : Machine} {o : Outcome} (h : m.step = (.ok o, m₁))
    (ho : o.GoesOn) (bs : Breakpoints) (n : Nat) :
    advanceTo bs (n + 1) m =
      if bs.contains m₁.core.pc then (.ok (.breakpoint m₁.core.pc), m₁) else advanceTo bs n m₁ := by
  rcases ho with rfl | rfl
  · rw [advanceTo, h]
  · rw [advanceTo, h]

theorem advanceTo_succ_of_result {m m₁ : Machine} {s : Except Fault Outcome} {p : Pause}
    (h : m.step = (s, m₁)) (hp : p.result? = some s) (bs : Breakpoints) (n : Nat) :
    ∃ r, advanceTo bs (n + 1) m = (r, m₁) ∧ .ofResume r = p := by
  cases p with
  | spent => cases hp
  | awaitingInput =>
      cases hp
      refine ⟨.ok .awaitingInput, ?_, rfl⟩
      rw [advanceTo, h]
  | halted =>
      cases hp
      refine ⟨.ok .halted, ?_, rfl⟩
      rw [advanceTo, h]
  | faulted f =>
      cases hp
      refine ⟨.error f, ?_, rfl⟩
      rw [advanceTo, h]

/-- Continuing is a stretch of execution, which a breakpoint may have cut short. -/
theorem exists_advance_of_advanceTo {bs : Breakpoints} {n : Nat} {m m' : Machine}
    {r : Except Fault StopReason} (h : advanceTo bs n m = (r, m')) :
    ∃ k, m.advance k = (.ofResume r, m') := by
  induction n generalizing m with
  | zero =>
      cases h
      exact ⟨0, rfl⟩
  | succ n ih =>
      rcases m.step_goesOn_or_pauses with ⟨o, m₁, hs, ho⟩ | ⟨p, s, m₁, hs, hp⟩
      · rw [advanceTo_succ_of_goesOn hs ho] at h
        split at h
        · cases h
          exact ⟨1, Machine.advance_succ_of_goesOn hs ho 0⟩
        · obtain ⟨k, hk⟩ := ih h
          exact ⟨k + 1, (Machine.advance_succ_of_goesOn hs ho k).trans hk⟩
      · obtain ⟨r', hr', hpause⟩ := advanceTo_succ_of_result hs hp bs n
        rw [hr'] at h
        cases h
        refine ⟨1, ?_⟩
        rw [hpause]
        exact Machine.advance_succ_of_result hs hp 0

/-- Continuing keeps the breakpoints, and stops for a limit only if there is one. -/
theorem resume_eq_some {d d' : Debugger} {fuel : Nat} {limit : Option Nat}
    {r : Except Fault StopReason} (h : d.resume fuel limit = some (r, d')) :
    advanceTo d.breakpoints (limit.getD fuel) d.machine = (r, d'.machine) ∧
      d'.breakpoints = d.breakpoints ∧ (limit = none → r ≠ .ok .stepLimit) := by
  unfold resume at h
  rcases ha : advanceTo d.breakpoints (limit.getD fuel) d.machine with ⟨s, m⟩
  simp only [ha] at h
  split at h
  next heq =>
    cases heq
    obtain ⟨l, hl, he⟩ := Option.map_eq_some_iff.mp h
    cases he
    exact ⟨rfl, rfl, fun hnone => by rw [hnone] at hl; cases hl⟩
  next hne heq =>
    cases heq
    cases h
    refine ⟨rfl, rfl, ?_⟩
    rintro _ rfl
    exact hne rfl

theorem stretch_of_resume {d d' : Debugger} {fuel : Nat} {limit : Option Nat}
    {r : Except Fault StopReason} (h : d.resume fuel limit = some (r, d')) :
    d.Stretch (.ofResume r) [] d' := by
  obtain ⟨ha, _, _⟩ := resume_eq_some h
  obtain ⟨k, hk⟩ := exists_advance_of_advanceTo ha
  exact stretch_of_advance hk

/-! ### Commands -/

/-- `Reported bs m c p text ws d'`: a command has driven the machine to `m`, where it paused in the way `p`.
It answers with the text, which shows the words, and leaves `d'`.  After a fault the output is kept. -/
inductive Reported (bs : Breakpoints) (m : Machine) :
    Command → Pause → String → List Word → Debugger → Prop
  | stepFault {count : Nat} (f : Fault) :
      Reported bs m (.step count) (.faulted f) f.message [] ⟨m, bs⟩
  | steps {count : Nat} {p : Pause} {d' : Debugger} : (∀ f, p ≠ .faulted f) →
      d' = ⟨{ m with output := #[] }, bs⟩ →
      Reported bs m (.step count) p
        (pauseText p ++ Text.ofWords m.output.toList ++ d'.currentLine) m.output.toList d'
  | resumeFault (f : Fault) : Reported bs m .resume (.faulted f) f.message [] ⟨m, bs⟩
  | resume (reason : StopReason) :
      Reported bs m .resume (.ofResume (.ok reason))
        (Text.ofWords m.output.toList ++ stopText reason) m.output.toList
        ⟨{ m with output := #[] }, bs⟩

namespace Reported

variable {bs : Breakpoints} {m : Machine} {c : Command} {p : Pause} {text : String} {ws : List Word}
  {d' : Debugger}

theorem owing (h : Reported bs m c p text ws d') : d'.machine.owing ws = m := by
  cases h with
  | stepFault f | resumeFault f => exact m.owing_nil
  | steps _ hd' =>
      subst hd'
      exact m.owing_output
  | resume reason => exact m.owing_output

theorem breakpoints (h : Reported bs m c p text ws d') : d'.breakpoints = bs := by
  cases h with
  | stepFault f | resumeFault f => rfl
  | steps _ hd' => rw [hd']
  | resume reason => rfl

theorem renders (h : Reported bs m c p text ws d') : Renders c (p, ws) d' text := by
  cases h with
  | stepFault f | resumeFault f => rfl
  | steps hp hd' =>
      cases p with
      | faulted f => exact absurd rfl (hp f)
      | spent | awaitingInput | halted => rfl
  | resume reason =>
      cases reason with
      | breakpoint pc | halted | awaitingInput | stepLimit => exact ⟨_, rfl, rfl⟩

end Reported

theorem reported_of_stepText {d d' : Debugger} {count : Nat} {p : Pause} {m : Machine} {text : String}
    (fuel : Nat) (ha : d.machine.advance count = (p, m)) (h : d.stepText count = (text, d')) :
    ∃ ws, d.shown fuel (.step count) = (p, ws) ∧
      Reported d.breakpoints m (.step count) p text ws d' := by
  unfold stepText at h
  unfold shown
  simp only [ha] at h ⊢
  cases p with
  | faulted f =>
      cases h
      exact ⟨_, rfl, .stepFault f⟩
  | spent | awaitingInput | halted =>
      cases h
      exact ⟨_, rfl, .steps (by simp) rfl⟩

theorem reported_of_resumeText {d d' : Debugger} {fuel : Nat} {r : Except Fault StopReason} {m : Machine}
    {text : String} (ha : advanceTo d.breakpoints fuel d.machine = (r, m))
    (h : d.resumeText fuel = some (text, d')) :
    ∃ ws, d.shown fuel .resume = (.ofResume r, ws) ∧
      Reported d.breakpoints m .resume (.ofResume r) text ws d' := by
  obtain ⟨⟨s, ⟨m₁, bs⟩⟩, hresume, heq⟩ := Option.map_eq_some_iff.mp h
  obtain ⟨hadvance, rfl, _⟩ := resume_eq_some hresume
  obtain ⟨rfl, rfl⟩ := Prod.mk.inj (hadvance.symm.trans ha)
  unfold shown
  simp only [ha]
  cases s with
  | error f =>
      cases heq
      exact ⟨_, rfl, .resumeFault f⟩
  | ok reason =>
      cases heq
      exact ⟨_, rfl, .resume reason⟩

theorem perform_eq {d d' : Debugger} {fuel : Nat} {c : Command} {text : String}
    (hc : c.edits = false) (h : d.perform fuel c = some (text, d')) :
    d.Stretch (d.shown fuel c).1 (d.shown fuel c).2 d' ∧
      Renders c (d.shown fuel c) d' text := by
  cases c with
  | step count =>
      rcases ha : d.machine.advance count with ⟨p, m⟩
      obtain ⟨ws, hshown, hreported⟩ := reported_of_stepText fuel ha (Option.some.inj h)
      rw [hshown]
      exact ⟨stretch_of_owing ha hreported.owing, hreported.renders⟩
  | resume =>
      rcases ha : advanceTo d.breakpoints fuel d.machine with ⟨r, m⟩
      obtain ⟨ws, hshown, hreported⟩ := reported_of_resumeText ha h
      obtain ⟨k, hk⟩ := exists_advance_of_advanceTo ha
      rw [hshown]
      exact ⟨stretch_of_owing hk hreported.owing, hreported.renders⟩
  | setRegister r v | poke a v => cases hc
  | report | history | list addr count | breakpoints | peek a | addBreakpoint a
  | removeBreakpoint a =>
      cases h
      exact ⟨stretch_of_machine_eq rfl, trivial⟩

/-- Every operation is a stretch of execution. -/
theorem Drives.stretch {d d' : Debugger} {p : Pause} {ws : List Word} (h : Drives d p ws d') :
    d.Stretch p ws d' := by
  cases h with
  | setLimit limit =>
      refine ⟨0, ?_⟩
      show _ = (_, d.machine.restored d.machine.limit [])
      rw [Machine.restored_self rfl]
      rfl
  | run hrun => exact stretch_of_run hrun
  | step hstep => exact stretch_of_step hstep
  | resume hresume => exact stretch_of_resume hresume
  | addBreakpoint a | removeBreakpoint a => exact stretch_of_machine_eq rfl
  | command hread hc hcmd =>
      unfold Debugger.command at hcmd
      rw [hread] at hcmd
      exact (perform_eq hc hcmd).1

/-! ### Schedules -/

/-- `Schedule d ps out d'`: operations lead from `d` to `d'`, one after the other.  They report
the machine to have stopped in the ways `ps`, and together hand out the words `out`. -/
inductive Schedule : Debugger → List Pause → List Word → Debugger → Prop
  | nil (d : Debugger) : Schedule d [] [] d
  | cons {d d₁ d₂ : Debugger} {p : Pause} {ps : List Pause} {ws out : List Word} :
      Drives d p ws d₁ → Schedule d₁ ps out d₂ → Schedule d (p :: ps) (ws ++ out) d₂

/-- A schedule takes a number of plain steps. -/
theorem Schedule.iterate {d d' : Debugger} {ps : List Pause} {out : List Word}
    (h : Schedule d ps out d') :
    ∃ n, Machine.next^[n] d.machine = d'.machine.restored d.machine.limit out := by
  induction h with
  | nil d => exact ⟨0, (Machine.restored_self rfl).symm⟩
  | @cons d d₁ d₂ p ps ws out hop _ ih =>
      obtain ⟨k, hk⟩ := hop.stretch
      obtain ⟨a, ha⟩ := Machine.exists_iterate_next hk
      obtain ⟨b, hb⟩ := ih
      refine ⟨b + a, ?_⟩
      rw [Function.iterate_add_apply, ha, Machine.iterate_next_restored, hb,
        Machine.restored_restored]

/-- When the last operation of a schedule has reported a stop, a further step would report the
same and change nothing. -/
theorem Schedule.step_of_getLast {d d' : Debugger} {ps : List Pause} {out : List Word}
    (h : Schedule d ps out d') {p : Pause} {r : Except Fault Outcome}
    (hlast : ps.getLast? = some p) (hp : p.result? = some r) :
    (d'.machine.restored d.machine.limit out).step =
      (r, d'.machine.restored d.machine.limit out) := by
  induction h with
  | nil d => cases hlast
  | @cons d d₁ d₂ q ps ws out hop hrest ih =>
      cases hrest with
      | nil =>
          cases hlast
          obtain ⟨k, hk⟩ := hop.stretch
          rw [List.append_nil]
          exact Machine.step_of_advance hk hp
      | cons hop' hrest' =>
          rw [List.getLast?_cons_cons] at hlast
          have hstep := ih hlast
          rw [← Machine.restored_restored _ _ d₁.machine.limit, Machine.step_restored, hstep]

/-- **It makes no difference how a program is driven.**  After any schedule the machine is the
one after some number of plain steps, and the words handed out, followed by those that are still
uncollected, are the output of these steps.  Two schedules whose last operations report stops
report the same stop, leave machines that agree in everything but limit and uncollected output,
and have the same output in all.  The texts of commands show the words that count as handed
out. -/
theorem schedules_agree (d : Debugger) :
    (∀ ps out d', Schedule d ps out d' → ∃ n,
      Machine.SameExecution d'.machine (Machine.next^[n] d.machine) ∧
      out ++ d'.machine.output.toList = (Machine.next^[n] d.machine).output.toList) ∧
    (∀ ps₁ ps₂ out₁ out₂ d₁ d₂ p₁ p₂, Schedule d ps₁ out₁ d₁ → Schedule d ps₂ out₂ d₂ →
      ps₁.getLast? = some p₁ → ps₂.getLast? = some p₂ → p₁ ≠ .spent → p₂ ≠ .spent →
      p₁ = p₂ ∧ Machine.SameExecution d₁.machine d₂.machine ∧
      out₁ ++ d₁.machine.output.toList = out₂ ++ d₂.machine.output.toList) ∧
    (∀ fuel line c text d', Command.read line = .ok c → c.edits = false →
      d.command fuel line = some (text, d') → Renders c (d.shown fuel c) d' text) := by
  refine ⟨?_, ?_, ?_⟩
  · intro ps out d' h
    obtain ⟨n, hn⟩ := h.iterate
    refine ⟨n, ?_, ?_⟩
    · rw [hn]
      exact d'.machine.sameExecution_restored _ _
    · rw [hn, Machine.output_restored]
  · intro ps₁ ps₂ out₁ out₂ d₁ d₂ p₁ p₂ h₁ h₂ hlast₁ hlast₂ hp₁ hp₂
    obtain ⟨r₁, hr₁⟩ := Pause.exists_result hp₁
    obtain ⟨r₂, hr₂⟩ := Pause.exists_result hp₂
    have hs₁ := h₁.step_of_getLast hlast₁ hr₁
    have hs₂ := h₂.step_of_getLast hlast₂ hr₂
    obtain ⟨n₁, hn₁⟩ := h₁.iterate
    obtain ⟨n₂, hn₂⟩ := h₂.iterate
    have hsame := Machine.iterate_next_unique hn₁ hn₂ (congrArg Prod.snd hs₁)
      (congrArg Prod.snd hs₂)
    refine ⟨?_, Machine.SameExecution.of_restored hsame, ?_⟩
    · rw [hsame, hs₂] at hs₁
      cases hs₁
      exact Pause.result?_injective (hr₁.trans hr₂.symm)
    · have hout := congrArg (fun m : Machine => m.output.toList) hsame
      simpa only [Machine.output_restored] using hout
  · intro fuel line c text d' hread hc h
    unfold command at h
    rw [hread] at h
    exact (perform_eq hc h).2

/-- A program that prints two words, and then waits for input. -/
def greeter : Debugger :=
  ofMachine (Machine.holding [19, 72, 19, 105, 20, 32768] (by decide))

/-- The program is run at once, and in pieces: under a limit of one instruction, then continued
by a command up to a breakpoint in front of the input, then continued without a limit. -/
theorem greeter_two_ways :
    ∃ d₁ d₂, Schedule greeter [.awaitingInput] [72, 105] d₁ ∧
      Schedule greeter [.spent, .spent, .spent, .spent, .spent, .awaitingInput] [72, 105] d₂ ∧
      Machine.SameExecution d₁.machine d₂.machine := by
  obtain ⟨m, hrun⟩ : ∃ m,
      greeter.machine.run 3 = some (.ok ⟨[72, 105], .awaitingInput⟩, m) := ⟨_, rfl⟩
  have hatOnce : Schedule greeter [.awaitingInput] [72, 105] ⟨m, []⟩ :=
    .cons (.run hrun) (.nil _)
  obtain ⟨m', d, d', hlimited, hcommand, hshown, hresume⟩ : ∃ m' d d',
      (greeter.machine.setLimit (some 1)).run 0 = some (.error (.instructionLimit 1), m') ∧
      (Debugger.mk m' [4]).command 1 "c" = some ("HiHit breakpoint at 00004", d) ∧
      (Debugger.mk m' [4]).shown 1 .resume = (.spent, [72, 105]) ∧
      (Debugger.mk (d.machine.setLimit none) d.breakpoints).resume 1 none =
        some (.ok .awaitingInput, d') :=
    ⟨_, _, _, rfl, rfl, rfl, rfl⟩
  have hlimit : Drives greeter .spent [] ⟨greeter.machine.setLimit (some 1), []⟩ :=
    .setLimit greeter (some 1)
  have hfirst := Drives.run (d := ⟨greeter.machine.setLimit (some 1), []⟩) hlimited
  have hbreak : Drives ⟨m', []⟩ .spent [] ⟨m', [4]⟩ := .addBreakpoint ⟨m', []⟩ 4
  have hcontinue : Drives ⟨m', [4]⟩ .spent [72, 105] d := by
    have h := Drives.command (c := .resume) rfl rfl hcommand
    rw [hshown] at h
    exact h
  have hfree : Drives d .spent [] ⟨d.machine.setLimit none, d.breakpoints⟩ := .setLimit d none
  have hlast : Drives ⟨d.machine.setLimit none, d.breakpoints⟩ .awaitingInput [] d' :=
    .resume hresume
  have hpieces : Schedule greeter [.spent, .spent, .spent, .spent, .spent, .awaitingInput]
      [72, 105] d' :=
    .cons hlimit (.cons hfirst (.cons hbreak (.cons hcontinue (.cons hfree (.cons hlast (.nil d'))))))
  obtain ⟨_, hsame, _⟩ := (schedules_agree greeter).2.1 _ _ _ _ _ _ _ _ hatOnce hpieces rfl rfl
    (by decide) (by decide)
  exact ⟨_, _, hatOnce, hpieces, hsame⟩

end Debugger
end WordMachine
