import WordMachine.Proofs.Course
import WordMachine.Proofs.InstructionTable

/-! # Input keeps its order

Words come into a machine in batches that are accepted as a whole or not at all.  In all transcripts
the words that the `in` instructions received are those that came in, each once and in this order.

* `Machine.nextInput`, `Machine.Executes.input` : the words that a step and an execution take.
* `Operation.accepted_of_refuses` : a batch that is refused brings in nothing.
* `Debugger.input_is_consumed_in_order` : the statement about transcripts. -/

namespace WordMachine

/-! ### The input of an execution -/

namespace Machine

/-- The words that the next step takes from the input: the head of the queue, for an `in`. -/
def nextInput (m : Machine) : List Word :=
  if m.mode ≠ .halted ∧ m.core.read m.core.pc = Opcode.toWord .input then m.input.take 1 else []

/-- Nothing stands in the way of an `in`, whatever its destination is. -/
theorem obstacle?_input (c : Core) : c.obstacle? .input (c.operandWords .input) = none := by
  rw [Core.obstacle?_of_ne c (by decide) (by decide)]
  rfl

theorem nextInput_of_fault {m : Machine} {f : Fault} (hf : m.core.fault? = some f) :
    m.nextInput = [] := by
  unfold nextInput
  apply if_neg
  rintro ⟨_, hop⟩
  -- The instruction cannot be an `in`, which never fails.
  rw [Core.fault?_of_opcode hop, obstacle?_input] at hf
  cases hf

theorem nextInput_of_opcode {m : Machine} {op : Opcode} (hm : m.mode ≠ .halted)
    (hop : m.core.read m.core.pc = op.toWord) : m.nextInput = (m.effect op).received := by
  unfold nextInput
  by_cases hin : op = .input
  · subst hin
    rw [if_pos ⟨hm, hop⟩]
    unfold effect
    cases m.input <;> rfl
  · rw [if_neg]
    · cases he : m.effect op with
      | receive dst v => exact absurd he (Core.effect_ne_receive _ _ hin _ dst v)
      | _ => rfl
    · rintro ⟨_, h⟩
      exact hin (Opcode.toWord_inj.mp (hop.symm.trans h))

/-- A step takes its input from the front of the queue. -/
theorem input_step (m : Machine) : m.nextInput ++ m.step.2.input = m.input := by
  rcases m.step_cases with ⟨hm, hs⟩ | ⟨_, f, hf, hs⟩ | ⟨hm, _, op, hop, _, hs⟩
  · rw [hs]
    simp [nextInput, hm]
  · rw [hs, nextInput_of_fault hf]
    rfl
  · rw [hs, nextInput_of_opcode hm hop]
    exact List.prefix_iff_eq_append.mp (m.received_prefix op)

/-- An execution takes the input of its `in` instructions from the front of the queue. -/
theorem Executes.input {m m' : Machine} {ms : List Machine} (h : Executes m ms m') :
    ms.flatMap nextInput ++ m'.input = m.input := by
  induction h with
  | nil m => rfl
  | @cons m m' ms _ ih =>
      have hstep : m.nextInput ++ m.next.input = m.input := m.input_step
      rw [List.flatMap_cons, List.append_assoc, ih, hstep]

/-- An `in` with input delivers the head of the queue to its destination, and moves on. -/
theorem step_input {m : Machine} {v : Word} {rest : List Word} (hm : m.mode ≠ .halted)
    (hop : m.core.read m.core.pc = Opcode.toWord .input) (hin : m.input = v :: rest) :
    ∃ m', m.step = (.ok .advanced, m') ∧ m'.input = rest ∧
      m'.core = { m.core.store (m.operand 0) v with pc := m.core.pc + 2 } := by
  have heff : m.effect .input = .receive (m.operand 0) v := by
    unfold effect
    rw [hin]
    rfl
  have hstep := step_of_opcode hm hop (obstacle?_input m.core)
  rw [heff] at hstep
  refine ⟨_, hstep, ?_, rfl⟩
  show m.input.drop 1 = rest
  rw [hin]
  rfl

end Machine

theorem Core.store_of_ge (c : Core) {dst : Word} (h : 32776 ≤ dst.toNat) (v : Word) :
    c.store dst v = c := by
  unfold store Operand.ofWord?
  rw [if_neg (by omega), dif_neg (by omega)]

/-- What the `in` instructions of an operation take and what is left, against what was there and
what the operation brings in. -/
theorem Operation.received_append_input {op : Operation} {fuel : Nat} {d d' : Debugger} {r : Reply}
    (h : op.apply fuel d = some (r, d')) :
    (op.attempts fuel d).flatMap Machine.nextInput ++ d'.machine.input =
      d.machine.input ++ op.accepted d := by
  obtain ⟨m, hready, hexec⟩ := course h
  have hin : (op.attempts fuel d).flatMap Machine.nextInput ++ d'.machine.input = m.input :=
    hexec.input
  rw [hin, hready.input]

theorem Debugger.Transcript.input {d d' : Debugger} {cs : List Call} (h : Transcript d cs d') :
    (cs.flatMap (·.attempts)).flatMap Machine.nextInput ++ d'.machine.input =
      d.machine.input ++ cs.flatMap (·.accepted) := by
  induction h with
  | nil d => simp
  | @cons d d₁ d₂ op fuel c cs hcall _ ih =>
      obtain ⟨r, hr, rfl⟩ := Operation.call_eq_some_iff.mp hcall
      have hone := Operation.received_append_input hr
      simp only [List.flatMap_cons, List.flatMap_append]
      rw [List.append_assoc, ih, ← List.append_assoc, hone, List.append_assoc]

/-! ### Batches that are refused -/

/-- Whether a reply refuses a batch of input. -/
def Reply.refuses : Reply → Bool
  | .queued (.error _) | .ran (.error (.invalidInput _)) => true
  | _ => false

theorem Machine.refuses_of_run {m m' : Machine} {fuel : Nat} {r : Except Error RunOutput}
    (h : m.run fuel = some (r, m')) : (Reply.ran r).refuses = false := by
  rcases run_eq_some h with ⟨_, rfl, _⟩ | ⟨_, p, m₁, _, hfinished⟩
  · rfl
  · cases hfinished <;> rfl

namespace Operation

section

variable {op : Operation} {fuel : Nat} {d d' : Debugger}

theorem accepted_of_refused_queue {r : Reply} (hr : r.refuses = true)
    (h : some (d.settle .queued ((d.machine.queue op.batch).map d.holding)) = some (r, d')) :
    op.accepted d = [] := by
  cases hq : d.machine.queue op.batch with
  | ok m =>
      rw [hq] at h
      cases h
      cases hr
  | error e => exact Machine.accepted_of_queue_error hq

theorem accepted_of_refused_run {r : Except Error RunOutput} {m : Machine}
    (hr : (Reply.ran r).refuses = true) (h : d.machine.runWords fuel op.batch = some (r, m)) :
    op.accepted d = [] ∧ d.machine.runWordsAttempts fuel op.batch = [] := by
  unfold Machine.runWords at h
  unfold Machine.runWordsAttempts
  cases hq : d.machine.queue op.batch with
  | ok m₁ =>
      rw [hq] at h
      rw [Machine.refuses_of_run h] at hr
      cases hr
  | error e => exact ⟨Machine.accepted_of_queue_error hq, rfl⟩

end

/-- An operation whose batch is refused brings in nothing and takes no step. -/
theorem accepted_of_refuses {op : Operation} {fuel : Nat} {d d' : Debugger} {c : Call}
    (h : op.call fuel d = some (c, d')) (hc : c.reply.refuses = true) :
    c.accepted = [] ∧ c.attempts = [] := by
  obtain ⟨r, hr, rfl⟩ := call_eq_some_iff.mp h
  cases op with
  | queue ws | queueLine line => exact ⟨accepted_of_refused_queue hc hr, rfl⟩
  | runWords ws | runLine line =>
      obtain ⟨⟨x, m⟩, hrun, he⟩ := Option.map_eq_some_iff.mp hr
      cases he
      exact accepted_of_refused_run hc hrun
  | run =>
      obtain ⟨⟨x, m⟩, hrun, he⟩ := Option.map_eq_some_iff.mp hr
      cases he
      rw [Machine.refuses_of_run hrun] at hc
      cases hc
  | setRegister index value | poke addr value =>
      obtain ⟨_, e, rfl⟩ := settle_eq hr
      cases hc
  | resume limit | command line =>
      obtain ⟨x, _, he⟩ := Option.map_eq_some_iff.mp hr
      cases he
      cases hc
  | _ =>
      cases hr
      cases hc

end Operation

namespace Debugger

/-- **Input is consumed in the order in which it came, each word once.**  In every transcript the
words received by the `in` instructions that were executed, in the order of execution, followed by
those that are still queued, are the words that were queued in the beginning, followed by the
batches that were accepted.  A batch that is refused adds nothing.  An `in` with input takes one word
and stores it in its destination, which may be none.  A machine that has halted, another
instruction, an `in` that waits and an instruction that fails take nothing. -/
theorem input_is_consumed_in_order :
    (∀ d cs d', Transcript d cs d' →
      (cs.flatMap (·.attempts)).flatMap Machine.nextInput ++ d'.machine.input =
        d.machine.input ++ cs.flatMap (·.accepted) ∧
      ∀ c ∈ cs, c.reply.refuses = true → c.accepted = [] ∧ c.attempts = []) ∧
    (∀ (m : Machine) v rest, m.mode ≠ .halted → m.core.read m.core.pc = Opcode.toWord .input →
      m.input = v :: rest → m.nextInput = [v] ∧ ∃ m', m.step = (.ok .advanced, m') ∧
        m'.input = rest ∧ m'.core = { m.core.store (m.operand 0) v with pc := m.core.pc + 2 } ∧
        (32776 ≤ (m.operand 0).toNat → m'.core = { m.core with pc := m.core.pc + 2 })) ∧
    (∀ m : Machine, (m.mode = .halted ∨ m.core.read m.core.pc ≠ Opcode.toWord .input ∨
        m.input = [] ∨ ∃ f, m.step.1 = .error f) →
      m.nextInput = [] ∧ m.step.2.input = m.input) := by
  refine ⟨?_, ?_, ?_⟩
  · intro d cs d' h
    exact ⟨h.input, h.forall_mem (fun _ _ _ _ _ => Operation.accepted_of_refuses)⟩
  · intro m v rest hm hop hin
    obtain ⟨m', hstep, hrest, hcore⟩ := Machine.step_input hm hop hin
    refine ⟨?_, m', hstep, hrest, hcore, ?_⟩
    · unfold Machine.nextInput
      rw [if_pos ⟨hm, hop⟩, hin]
      rfl
    · intro hdst
      rw [hcore, Core.store_of_ge _ hdst]
  · intro m h
    have hnone : m.nextInput = [] := by
      rcases h with hm | hop | hin | ⟨f, hf⟩
      · exact if_neg (fun hc => hc.1 hm)
      · exact if_neg (fun hc => hop hc.2)
      · unfold Machine.nextInput
        rw [hin]
        exact ite_self _
      · have hstep : m.step = (.error f, m.step.2) := by rw [← hf]
        exact Machine.nextInput_of_fault (Machine.step_eq_error_iff.mp hstep).2.1
    refine ⟨hnone, ?_⟩
    have hall := m.input_step
    rw [hnone] at hall
    exact hall

/-- A program that reads a word into nowhere and a word into a register, and then halts. -/
def reader : Debugger :=
  ofMachine (Machine.holding [20, 32776, 20, 32768, 0] (by decide))

/-- A wide word is refused and a word after the halt ignored.  Of the words in between the first is dropped,
the second, which is the first of a line, is stored, and the end of the line stays queued. -/
theorem reader_takes_two_words : ∃ cs d', Transcript reader cs d' ∧
    cs.map (·.operation) =
      [.runWords [65, 40000], .queue [65], .run, .runLine "B", .queue [67]] ∧
    cs.map (·.accepted) = [[], [65], [], [66, 10], []] ∧
    (cs.flatMap (·.attempts)).flatMap Machine.nextInput = [65, 66] ∧
    d'.machine.input = [10] ∧ d'.machine.mode = .halted ∧
    d'.machine.core.registers.get 0 = 66 := by
  obtain ⟨c₁, c₂, c₃, c₄, c₅, d₁, d₂, d₃, d₄, d₅, h₁, h₂, h₃, h₄, h₅, hops, haccepted, hleft,
      hmode, hregister⟩ : ∃ c₁ c₂ c₃ c₄ c₅ d₁ d₂ d₃ d₄ d₅,
      (Operation.runWords [65, 40000]).call 0 reader = some (c₁, d₁) ∧
      (Operation.queue [65]).call 0 d₁ = some (c₂, d₂) ∧
      Operation.run.call 2 d₂ = some (c₃, d₃) ∧
      (Operation.runLine "B").call 2 d₃ = some (c₄, d₄) ∧
      (Operation.queue [67]).call 0 d₄ = some (c₅, d₅) ∧
      [c₁, c₂, c₃, c₄, c₅].map (·.operation) =
        [.runWords [65, 40000], .queue [65], .run, .runLine "B", .queue [67]] ∧
      [c₁, c₂, c₃, c₄, c₅].map (·.accepted) = [[], [65], [], [66, 10], []] ∧
      d₅.machine.input = [10] ∧ d₅.machine.mode = .halted ∧
      d₅.machine.core.registers.get 0 = 66 :=
    ⟨_, _, _, _, _, _, _, _, _, _, rfl, rfl, rfl, rfl, rfl, rfl, rfl, rfl, rfl, rfl⟩
  have htranscript : Transcript reader [c₁, c₂, c₃, c₄, c₅] d₅ :=
    .cons h₁ (.cons h₂ (.cons h₃ (.cons h₄ (.cons h₅ (.nil d₅)))))
  obtain ⟨hin, _⟩ := input_is_consumed_in_order.1 _ _ _ htranscript
  refine ⟨_, _, htranscript, hops, haccepted, ?_, hleft, hmode, hregister⟩
  have hflat : [c₁, c₂, c₃, c₄, c₅].flatMap (·.accepted) = [65, 66] ++ [10] := by
    rw [List.flatMap_def, haccepted]
    rfl
  have hnone : reader.machine.input = [] := rfl
  rw [hflat, hleft, hnone, List.nil_append] at hin
  exact List.append_cancel_right hin

end Debugger

end WordMachine
