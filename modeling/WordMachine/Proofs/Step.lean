import WordMachine.Machine.Step
import WordMachine.Proofs.Plan

/-! # What a step does

A step of a machine that has not halted either fails for what stands in the way of the
instruction at the instruction pointer (`Core.fault?`) or completes that instruction.  Which
of the two it is depends on the core alone, so neither input nor output nor the trace can
make a difference to it.

* `Machine.step_of_fault`, `Machine.step_of_opcode` : the two cases, as equations.
* `Machine.step_cases` : every step is one of them, or that of a halted machine.
* `Machine.step_eq_error_iff`, `Machine.step_eq_ok_cases` : the same, from what a step reports.
* `Machine.complete_running` : a completed instruction, field by field.
* `Machine.Unnoticed.step` : a change that no instruction notices commutes with a step. -/

namespace WordMachine

namespace Core

/-- The words behind the instruction pointer, as many as an opcode has operands. -/
def operandWords (c : Core) (op : Opcode) : List Word :=
  (List.range op.arity).map (fun k => c.memory.read (c.pc.toNat + 1 + k))

@[simp] theorem length_operandWords (c : Core) (op : Opcode) :
    (c.operandWords op).length = op.arity := by
  simp [operandWords]

theorem fetch_of_unknown {c : Core} (h : 21 < (c.read c.pc).toNat) :
    c.fetch = .error (c.read c.pc) :=
  Instruction.decode_of_none (Opcode.ofWord?_eq_none_iff.mpr h)

theorem fetch_of_opcode {c : Core} {op : Opcode} (h : c.read c.pc = op.toWord) :
    c.fetch = .ok ⟨c.pc, op, c.operandWords op⟩ :=
  Instruction.decode_of_some (Opcode.ofWord?_eq_some_iff.mpr h)

/-- The word at the instruction pointer is an opcode, or none and too large. -/
theorem opcode_cases (c : Core) :
    21 < (c.read c.pc).toNat ∨ ∃ op : Opcode, c.read c.pc = op.toWord := by
  cases h : Opcode.ofWord? (c.read c.pc) with
  | none => exact Or.inl (Opcode.ofWord?_eq_none_iff.mp h)
  | some op => exact Or.inr ⟨op, Opcode.ofWord?_eq_some_iff.mp h⟩

theorem fetch_eq_ok_iff {c : Core} {i : Instruction} :
    c.fetch = .ok i ↔
      c.read c.pc = i.opcode.toWord ∧ i.addr = c.pc ∧ i.operands = c.operandWords i.opcode := by
  constructor
  · intro h
    rcases c.opcode_cases with hu | ⟨op, hop⟩
    · rw [fetch_of_unknown hu] at h
      cases h
    · rw [fetch_of_opcode hop] at h
      cases h
      exact ⟨hop, rfl, rfl⟩
  · rintro ⟨hop, ha, hw⟩
    rw [fetch_of_opcode hop, ← ha, ← hw]

/-- What the instruction at the instruction pointer fails for. -/
def fault? (c : Core) : Option Fault :=
  match c.fetch with
  | .error w => some (.unknownOpcode c.pc w)
  | .ok i => c.obstacle? i.opcode i.operands

theorem fault?_of_unknown {c : Core} (h : 21 < (c.read c.pc).toNat) :
    c.fault? = some (.unknownOpcode c.pc (c.read c.pc)) := by
  unfold fault?
  rw [fetch_of_unknown h]

theorem fault?_of_opcode {c : Core} {op : Opcode} (h : c.read c.pc = op.toWord) :
    c.fault? = c.obstacle? op (c.operandWords op) := by
  unfold fault?
  rw [fetch_of_opcode h]

theorem fault?_pc {c : Core} {f : Fault} (h : c.fault? = some f) : f.pc = c.pc := by
  rcases c.opcode_cases with hu | ⟨op, hop⟩
  · rw [fault?_of_unknown hu] at h
    cases h
    rfl
  · rw [fault?_of_opcode hop] at h
    exact obstacle?_pc h

/-- Without a fault there is an instruction, and nothing stands in its way. -/
theorem opcode_of_fault?_none {c : Core} (h : c.fault? = none) :
    ∃ op : Opcode, c.read c.pc = op.toWord ∧ c.obstacle? op (c.operandWords op) = none := by
  rcases c.opcode_cases with hu | ⟨op, hop⟩
  · rw [fault?_of_unknown hu] at h
    cases h
  · rw [fault?_of_opcode hop] at h
    exact ⟨op, hop, h⟩

/-- The core after an instruction that did not fail. -/
def after (c : Core) (op : Opcode) (a : Action) : Core :=
  if a.outcome = .advanced then
    { c.perform a with pc := c.pc + UInt16.ofNat (1 + op.arity) }
  else c.perform a

theorem memory_after (c : Core) (op : Opcode) (a : Action) :
    (c.after op a).memory = (c.perform a).memory := by
  unfold after
  split <;> rfl

theorem registers_after (c : Core) (op : Opcode) (a : Action) :
    (c.after op a).registers = (c.perform a).registers := by
  unfold after
  split <;> rfl

theorem stack_after (c : Core) (op : Opcode) (a : Action) :
    (c.after op a).stack = (c.perform a).stack := by
  unfold after
  split <;> rfl

theorem pc_perform {c : Core} {a : Action} (h : a.outcome ≠ .jumped) : (c.perform a).pc = c.pc := by
  cases a with
  | assign dst v | receive dst v => exact pc_store c dst v
  | pop dst v => exact pc_store _ dst v
  | jump target | call target | ret target => exact absurd rfl h
  | _ => rfl

end Core

namespace Action

/-- The words that an action appends to the output. -/
def emitted : Action → List Word
  | .emit v => [v]
  | _ => []

/-- The words that an action takes from the input. -/
def received : Action → List Word
  | .receive _ v => [v]
  | _ => []

/-- The mode that an action leaves the machine in. -/
def mode (a : Action) : Mode :=
  match a.outcome with
  | .halted => .halted
  | .awaitingInput => .awaitingInput
  | _ => .running

theorem mode_eq_halted_iff {a : Action} : a.mode = .halted ↔ a.outcome = .halted := by
  unfold mode
  cases a.outcome <;> simp

theorem mode_eq_awaitingInput_iff {a : Action} :
    a.mode = .awaitingInput ↔ a.outcome = .awaitingInput := by
  unfold mode
  cases a.outcome <;> simp

/-- Whether an action counts as an executed instruction. -/
def counts (a : Action) : Bool := a.outcome ≠ .awaitingInput

end Action

namespace Machine

/-- The machine after an instruction that did not fail, field by field. -/
def after (m : Machine) (op : Opcode) (a : Action) : Machine where
  core := m.core.after op a
  mode := a.mode
  input := m.input.drop a.received.length
  output := m.output ++ a.emitted.toArray
  trace :=
    if a.counts then m.trace.map (·.record (Trace.line m.core ⟨m.core.pc, op, m.core.operandWords op⟩))
    else m.trace
  executed := if a.counts then m.executed + 1 else m.executed
  limit := m.limit

theorem perform_eq (m : Machine) (a : Action) :
    m.perform a =
      { m with
        core := m.core.perform a
        input := m.input.drop a.received.length
        output := m.output ++ a.emitted.toArray } := by
  cases a <;> simp [perform, Action.received, Action.emitted]

theorem count_map_line (m : Machine) (c : Core) (i : Instruction) :
    m.count (m.trace.map (fun _ => Trace.line c i)) =
      { m with
        executed := m.executed + 1
        trace := m.trace.map (fun t => t.record (Trace.line c i)) } := by
  unfold count
  cases m.trace <;> rfl

theorem complete_running (m : Machine) (op : Opcode) (a : Action) :
    ({ m with mode := .running } : Machine).complete ⟨m.core.pc, op, m.core.operandWords op⟩ a =
      m.after op a := by
  have hsize : (⟨m.core.pc, op, m.core.operandWords op⟩ : Instruction).size = 1 + op.arity := by
    simp [Instruction.size]
  unfold complete
  simp only [hsize, perform_eq]
  cases ho : a.outcome with
  | advanced =>
      have hpc := Core.pc_perform (c := m.core) (a := a) (by rw [ho]; decide)
      simp only [moveOn, hpc]
      rw [count_map_line]
      simp [after, Core.after, Action.mode, Action.counts, ho]
  | jumped =>
      simp only
      rw [count_map_line]
      simp [after, Core.after, Action.mode, Action.counts, ho]
  | halted =>
      simp only
      rw [count_map_line]
      simp [after, Core.after, Action.mode, Action.counts, ho]
  | awaitingInput => simp [after, Core.after, Action.mode, Action.counts, ho]

/-! ### The three kinds of step -/

/-- What a machine is about to do if nothing stands in its way. -/
def effect (m : Machine) (op : Opcode) : Action :=
  m.core.effect m.input.head? op (m.core.operandWords op)

theorem step_of_halted {m : Machine} (h : m.mode = .halted) : m.step = (.ok .halted, m) := by
  unfold step
  rw [if_pos h]

theorem step_of_fault {m : Machine} {f : Fault} (hm : m.mode ≠ .halted)
    (hf : m.core.fault? = some f) : m.step = (.error f, { m with mode := .running }) := by
  unfold step
  rw [if_neg hm]
  rcases m.core.opcode_cases with hu | ⟨op, hop⟩
  · rw [Core.fault?_of_unknown hu] at hf
    cases hf
    simp only [Core.fetch_of_unknown hu]
  · rw [Core.fault?_of_opcode hop] at hf
    have hplan : m.core.plan m.input.head? op (m.core.operandWords op) = .error f := by
      rw [Core.plan_eq _ _ _ (Core.length_operandWords _ _), hf]
    simp only [Core.fetch_of_opcode hop, plan, hplan]

theorem step_of_opcode {m : Machine} {op : Opcode} (hm : m.mode ≠ .halted)
    (hop : m.core.read m.core.pc = op.toWord)
    (ho : m.core.obstacle? op (m.core.operandWords op) = none) :
    m.step = (.ok (m.effect op).outcome, m.after op (m.effect op)) := by
  unfold step
  rw [if_neg hm]
  have hplan : m.core.plan m.input.head? op (m.core.operandWords op) = .ok (m.effect op) := by
    rw [Core.plan_eq _ _ _ (Core.length_operandWords _ _), ho]
    rfl
  simp only [Core.fetch_of_opcode hop, plan, hplan, complete_running]

/-- Every step is that of a halted machine, fails, or completes an instruction. -/
theorem step_cases (m : Machine) :
    (m.mode = .halted ∧ m.step = (.ok .halted, m)) ∨
    (m.mode ≠ .halted ∧ ∃ f, m.core.fault? = some f ∧
      m.step = (.error f, { m with mode := .running })) ∨
    (m.mode ≠ .halted ∧ m.core.fault? = none ∧ ∃ op : Opcode,
      m.core.read m.core.pc = op.toWord ∧ m.core.obstacle? op (m.core.operandWords op) = none ∧
      m.step = (.ok (m.effect op).outcome, m.after op (m.effect op))) := by
  by_cases hm : m.mode = .halted
  · exact Or.inl ⟨hm, step_of_halted hm⟩
  · refine Or.inr ?_
    cases hf : m.core.fault? with
    | some f => exact Or.inl ⟨hm, f, rfl, step_of_fault hm hf⟩
    | none =>
        obtain ⟨op, hop, ho⟩ := Core.opcode_of_fault?_none hf
        exact Or.inr ⟨hm, rfl, op, hop, ho, step_of_opcode hm hop ho⟩

/-- A failing step changes nothing but the mode. -/
theorem step_eq_error_iff {m m' : Machine} {f : Fault} :
    m.step = (.error f, m') ↔
      m.mode ≠ .halted ∧ m.core.fault? = some f ∧ m' = { m with mode := .running } := by
  constructor
  · intro h
    rcases m.step_cases with ⟨_, hs⟩ | ⟨hm, g, hg, hs⟩ | ⟨_, _, _, _, _, hs⟩
    · rw [hs] at h
      cases h
    · rw [hs] at h
      cases h
      exact ⟨hm, hg, rfl⟩
    · rw [hs] at h
      cases h
  · rintro ⟨hm, hf, rfl⟩
    exact step_of_fault hm hf

/-- A step that does not fail is that of a halted machine or completes an instruction. -/
theorem step_eq_ok_cases {m m' : Machine} {o : Outcome} (h : m.step = (.ok o, m')) :
    (m.mode = .halted ∧ o = .halted ∧ m' = m) ∨
    (m.mode ≠ .halted ∧ ∃ op : Opcode, m.core.read m.core.pc = op.toWord ∧
      o = (m.effect op).outcome ∧ m' = m.after op (m.effect op)) := by
  rcases m.step_cases with ⟨hm, hs⟩ | ⟨_, f, _, hs⟩ | ⟨hm, _, op, hop, _, hs⟩
  · rw [hs] at h
    cases h
    exact Or.inl ⟨hm, rfl, rfl⟩
  · rw [hs] at h
    cases h
  · rw [hs] at h
    cases h
    exact Or.inr ⟨hm, op, hop, rfl, rfl⟩

/-! ### Changes that no instruction notices -/

/-- A change to machines that no instruction notices.  It leaves alone what decides on the next step, and it
does not matter whether it comes before or after an instruction. -/
structure Unnoticed (f : Machine → Machine) : Prop where
  mode : ∀ m, (f m).mode = m.mode := by intro m; rfl
  running : ∀ m, f { m with mode := .running } = { f m with mode := .running } := by intro m; rfl
  opcode : ∀ m, (f m).core.read (f m).core.pc = m.core.read m.core.pc := by intro m; rfl
  fault? : ∀ m, (f m).core.fault? = m.core.fault? := by intro m; rfl
  effect : ∀ m op, (f m).effect op = m.effect op := by intro m op; rfl
  after : ∀ m op a, (f m).after op a = f (m.after op a)

theorem Unnoticed.step {f : Machine → Machine} (hf : Unnoticed f) (m : Machine) :
    (f m).step = (m.step.1, f m.step.2) := by
  rcases m.step_cases with ⟨hm, hs⟩ | ⟨hm, g, hg, hs⟩ | ⟨hm, hnone, op, hop, _, hs⟩
  · rw [hs]
    exact step_of_halted ((hf.mode m).trans hm)
  · have hm' : (f m).mode ≠ .halted := by rwa [hf.mode]
    rw [hs, hf.running]
    exact step_of_fault hm' ((hf.fault? m).trans hg)
  · have hm' : (f m).mode ≠ .halted := by rwa [hf.mode]
    have hop' : (f m).core.read (f m).core.pc = op.toWord := (hf.opcode m).trans hop
    have ho' : (f m).core.obstacle? op ((f m).core.operandWords op) = none := by
      rw [← Core.fault?_of_opcode hop', hf.fault?, hnone]
    rw [hs, step_of_opcode hm' hop' ho', hf.effect, hf.after]

end Machine
end WordMachine
