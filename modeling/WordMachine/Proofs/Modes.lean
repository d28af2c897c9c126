import WordMachine.Settings
import WordMachine.Proofs.CallReturn
import WordMachine.Proofs.Course

/-! # The modes of a machine

A machine that waits stands at an `in`, and a machine that has halted stands at a `halt` or at a
return with an empty stack: a step that waits or halts does not move, and nothing but an edit
changes what lies where the machine stands.  A machine that has halted stays as it is whatever
input it is brought and however often it is set going.

* `Machine.InPlace` : where a machine stands that waits or has halted.
* `Operation.whenHalted?` : how a machine that has halted answers.
* `Debugger.modes_in_place` : the two facts, for whole transcripts. -/

namespace WordMachine

namespace Machine

/-- A machine that waits stands at an `in`, and one that has halted where machines halt. -/
structure InPlace (m : Machine) : Prop where
  waits : m.mode = .awaitingInput → m.core.read m.core.pc = Opcode.toWord .input
  halts : m.HaltsInPlace

theorem InPlace.of_running {m : Machine} (h : m.mode = .running) : m.InPlace where
  waits := by
    intro hm
    rw [h] at hm
    cases hm
  halts := .of_running h

/-- Only the core and the mode matter. -/
theorem InPlace.congr {m m' : Machine} (h : m.InPlace) (hcore : m'.core = m.core)
    (hmode : m'.mode = m.mode) : m'.InPlace where
  waits := by
    rw [hcore, hmode]
    exact h.waits
  halts := by
    unfold HaltsInPlace
    rw [hcore, hmode]
    exact h.halts

theorem InPlace.ofSettings (memory : Memory) (s : Settings) : (ofSettings memory s).InPlace := by
  apply InPlace.of_running
  unfold Machine.ofSettings
  split <;> rfl

/-- An instruction that waits does not move. -/
theorem waits_after {m : Machine} {op : Opcode} (hop : m.core.read m.core.pc = op.toWord)
    (hmode : (m.after op (m.effect op)).mode = .awaitingInput) :
    (m.after op (m.effect op)).core.read (m.after op (m.effect op)).core.pc =
      Opcode.toWord .input := by
  have hout : (m.effect op).outcome = .awaitingInput := Action.mode_eq_awaitingInput_iff.mp hmode
  obtain ⟨rfl, _⟩ := effect_awaits_iff.mp hout
  rw [eq_await_of_outcome hout, after_await]
  exact hop

/-- A step leaves a machine in place, whether it succeeds or not. -/
theorem InPlace.next {m : Machine} (h : m.InPlace) : m.next.InPlace := by
  unfold Machine.next
  rcases m.step_cases with ⟨_, hs⟩ | ⟨_, f, _, hs⟩ | ⟨_, _, op, hop, _, hs⟩
  · rw [hs]
    exact h
  · -- A fault sets the mode back to running, also behind a wait.
    rw [hs]
    exact .of_running rfl
  · have hmoves : Moves m (m.after op (m.effect op)) := .step hs
    rw [hs]
    exact ⟨waits_after hop, hmoves.haltsInPlace h.halts⟩

theorem Executes.inPlace {m m' : Machine} {ms : List Machine} (h : Executes m ms m')
    (hm : m.InPlace) : m'.InPlace := by
  induction h with
  | nil m => exact hm
  | cons _ ih => exact ih hm.next

end Machine

/-- An operation that edits nothing leaves the machine in place. -/
theorem Operation.inPlace {op : Operation} {fuel : Nat} {d d' : Debugger} {r : Reply}
    (h : op.apply fuel d = some (r, d')) (he : op.edits = false) (hd : d.machine.InPlace) :
    d'.machine.InPlace := by
  obtain ⟨m, hready, hexec⟩ := course h
  have hm : m.InPlace := hd.congr (hready.core he) hready.mode
  exact (hexec.inPlace hm).congr rfl rfl

theorem Debugger.Transcript.inPlace {d d' : Debugger} {cs : List Call} (h : Transcript d cs d')
    (he : ∀ c ∈ cs, c.operation.edits = false) (hd : d.machine.InPlace) : d'.machine.InPlace := by
  induction h with
  | nil d => exact hd
  | cons hcall _ ih =>
      obtain ⟨r, hr, rfl⟩ := Operation.call_eq_some_iff.mp hcall
      obtain ⟨hhead, htail⟩ := List.forall_mem_cons.mp he
      exact ih htail (Operation.inPlace hr hhead hd)

/-! ### Machines that have halted -/

namespace Operation

/-- How a machine that has halted answers an operation that brings input or sets it going. -/
def whenHalted? : Operation → Option Reply
  | .queue _ | .queueLine _ => some (.queued (.ok ()))
  | .run | .runWords _ | .runLine _ => some (.ran (.ok ⟨[], .halted⟩))
  | .step => some (.stepped (.ok .halted))
  | _ => none

/-- A machine that has halted answers at once and stays as it is. -/
theorem apply_of_halted {op : Operation} {d : Debugger} {r : Reply}
    (hm : d.machine.mode = .halted) (hr : op.whenHalted? = some r) (fuel : Nat) :
    op.apply fuel d = some (r, d) := by
  have hqueue (ws : List Word) :
      d.settle .queued ((d.machine.queue ws).map d.holding) = (.queued (.ok ()), d) := by
    rw [Machine.queue_of_halted hm]
    rfl
  have hrun : (d.machine.run fuel).map d.afterRun = some (.ran (.ok ⟨[], .halted⟩), d) := by
    rw [Machine.run_of_halted hm]
    rfl
  have hrunWords (ws : List Word) :
      (d.machine.runWords fuel ws).map d.afterRun = some (.ran (.ok ⟨[], .halted⟩), d) := by
    unfold Machine.runWords
    rw [Machine.queue_of_halted hm]
    exact hrun
  have hstep : d.step = (.ok .halted, d) := by
    unfold Debugger.step
    rw [Machine.step_of_halted hm]
  cases op with
  | queue ws =>
      cases hr
      exact congrArg some (hqueue ws)
  | queueLine text =>
      cases hr
      exact congrArg some (hqueue (Text.lineUnits text))
  | run =>
      cases hr
      exact hrun
  | runWords ws =>
      cases hr
      exact hrunWords ws
  | runLine text =>
      cases hr
      exact hrunWords (Text.lineUnits text)
  | step =>
      cases hr
      simp only [apply, hstep]
  | _ => cases hr

end Operation

namespace Debugger

/-- A machine that has halted answers any number of operations, and stays as it is. -/
theorem exists_transcript_of_halted {d : Debugger} (hm : d.machine.mode = .halted)
    {ops : List Operation} {rs : List Reply} (h : ops.map Operation.whenHalted? = rs.map some) :
    ∃ cs, Transcript d cs d ∧ cs.map (·.operation) = ops ∧ cs.map (·.reply) = rs := by
  induction ops generalizing rs with
  | nil =>
      obtain rfl : rs = [] := List.map_eq_nil_iff.mp h.symm
      exact ⟨[], .nil d, rfl, rfl⟩
  | cons op ops ih =>
      cases rs with
      | nil => cases h
      | cons r rs =>
          obtain ⟨hr, hrest⟩ := List.cons.inj h
          obtain ⟨cs, hcs, rfl, rfl⟩ := ih hrest
          have hcall := Operation.call_eq_some_iff.mpr ⟨r, Operation.apply_of_halted hm hr 0, rfl⟩
          exact ⟨_, .cons hcall hcs, rfl, rfl⟩

/-- **What the modes say.**  However a machine has come from the start of a program without an edit,
if it waits then it stands at an `in`, and if it has halted then it stands at a `halt`, which is also
read where there is no memory, or at a return with an empty stack.  A machine that has halted answers
everything that brings it input or sets it going, never with an error and never with output, and
nothing about it changes any more. -/
theorem modes_in_place :
    (∀ memory s bs cs d', Transcript ⟨Machine.ofSettings memory s, bs⟩ cs d' →
      (∀ c ∈ cs, c.operation.edits = false) →
      (d'.machine.mode = .awaitingInput →
        d'.machine.core.read d'.machine.core.pc = Opcode.toWord .input) ∧
      (d'.machine.mode = .halted →
        d'.machine.core.read d'.machine.core.pc = Opcode.toWord .halt ∨
        (d'.machine.core.read d'.machine.core.pc = Opcode.toWord .ret ∧
          d'.machine.core.stack = []))) ∧
    (∀ d ops rs, d.machine.mode = .halted → ops.map Operation.whenHalted? = rs.map some →
      (∃ cs, Transcript d cs d ∧ cs.map (·.operation) = ops) ∧
      ∀ cs d', Transcript d cs d' → cs.map (·.operation) = ops →
        cs.map (·.reply) = rs ∧ d' = d) := by
  constructor
  · intro memory s bs cs d' h he
    have hplace := h.inPlace he (Machine.InPlace.ofSettings memory s)
    exact ⟨hplace.waits, hplace.halts⟩
  · intro d ops rs hm hops
    obtain ⟨cs, hcs, rfl, rfl⟩ := exists_transcript_of_halted hm hops
    refine ⟨⟨cs, hcs, rfl⟩, ?_⟩
    intro cs' d' h' hsame
    exact h'.unique hcs hsame

/-- A program that reads a word and returns. -/
def asker : Debugger :=
  ⟨Machine.ofSettings (Memory.holding [20, 32768, 18] (by decide)) {}, []⟩

/-- The program waits at the `in`; given a word it halts at the return, where a wide word, a step and
a run are answered and change nothing. -/
theorem asker_waits_and_halts : ∃ cs₁ d₁ cs₂ d₂,
    Transcript asker cs₁ d₁ ∧ cs₁.map (·.operation) = [.run] ∧
    d₁.machine.mode = .awaitingInput ∧
    d₁.machine.core.read d₁.machine.core.pc = Opcode.toWord .input ∧
    Transcript asker cs₂ d₂ ∧ cs₂.map (·.operation) = [.run, .runWords [65]] ∧
    d₂.machine.mode = .halted ∧
    (d₂.machine.core.read d₂.machine.core.pc = Opcode.toWord .halt ∨
      (d₂.machine.core.read d₂.machine.core.pc = Opcode.toWord .ret ∧
        d₂.machine.core.stack = [])) ∧
    ∃ cs, Transcript d₂ cs d₂ ∧ cs.map (·.operation) = [.queue [40000], .step, .run] ∧
      cs.map (·.reply) =
        [.queued (.ok ()), .stepped (.ok .halted), .ran (.ok ⟨[], .halted⟩)] := by
  obtain ⟨c₁, c₂, d₁, d₂, h₁, h₂, hop₁, hop₂, hwaits, hhalts⟩ : ∃ c₁ c₂ d₁ d₂,
      Operation.run.call 2 asker = some (c₁, d₁) ∧
      (Operation.runWords [65]).call 2 d₁ = some (c₂, d₂) ∧
      c₁.operation = .run ∧ c₂.operation = .runWords [65] ∧
      d₁.machine.mode = .awaitingInput ∧ d₂.machine.mode = .halted :=
    ⟨_, _, _, _, rfl, rfl, rfl, rfl, rfl, rfl⟩
  have hrun : Transcript asker [c₁] d₁ := .cons h₁ (.nil d₁)
  have hboth : Transcript asker [c₁, c₂] d₂ := .cons h₁ (.cons h₂ (.nil d₂))
  have hno₁ : c₁.operation.edits = false := by
    rw [hop₁]
    rfl
  have hno₂ : c₂.operation.edits = false := by
    rw [hop₂]
    rfl
  have hplace₁ := modes_in_place.1 _ _ _ _ _ hrun (by simpa using hno₁)
  have hplace₂ := modes_in_place.1 _ _ _ _ _ hboth (by simpa using ⟨hno₁, hno₂⟩)
  obtain ⟨⟨cs, hcs, hops⟩, hall⟩ := modes_in_place.2 d₂ [.queue [40000], .step, .run]
    [.queued (.ok ()), .stepped (.ok .halted), .ran (.ok ⟨[], .halted⟩)] hhalts rfl
  have hreplies := (hall cs d₂ hcs hops).1
  refine ⟨_, _, _, _, hrun, congrArg ([·]) hop₁, hwaits, hplace₁.1 hwaits, hboth, ?_, hhalts,
    hplace₂.2 hhalts, cs, hcs, hops, hreplies⟩
  simp only [List.map_cons, List.map_nil, hop₁, hop₂]

end Debugger

end WordMachine
