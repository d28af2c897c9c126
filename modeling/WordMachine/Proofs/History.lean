import Mathlib.Data.List.Forall2
import WordMachine.Proofs.Course
import WordMachine.Proofs.TraceRing

/-! # The trace is the recent history

The machine counts the instructions that it executes to their end, and records one line for each of
them while it is traced.  The line is written from the core as it was before the instruction, though
it is recorded after it.  An `in` that waits, an instruction that fails and whatever is asked of a
machine that has halted are neither counted nor recorded.

* `Machine.completes`, `Machine.Logs` : the steps that count, and the line that belongs to one.
* `Machine.Executes.history`, `Debugger.Transcript.history` : what executions and transcripts add to
  count and trace.
* `Debugger.trace_is_recent_history` : the trace since it was started. -/

namespace WordMachine

namespace Machine

/-- Whether the next step executes an instruction to its end: it goes on, or it halts a machine that
has not halted before. -/
def completes (m : Machine) : Bool :=
  match m.step.1 with
  | .ok .advanced | .ok .jumped => true
  | .ok .halted => m.mode ≠ .halted
  | .ok .awaitingInput | .error _ => false

/-- The line is the trace line of the instruction at the instruction pointer. -/
def Logs (m : Machine) (line : String) : Prop :=
  ∃ i, m.core.fetch = .ok i ∧ line = Trace.line m.core i

/-! ### One step -/

theorem completes_of_halted {m : Machine} (h : m.mode = .halted) : m.completes = false := by
  unfold completes
  rw [step_of_halted h]
  simp [h]

theorem completes_of_awaiting {m : Machine} (h : m.step.1 = .ok .awaitingInput) :
    m.completes = false := by
  unfold completes
  rw [h]

theorem completes_of_error {m : Machine} {f : Fault} (h : m.step.1 = .error f) :
    m.completes = false := by
  unfold completes
  rw [h]

theorem completes_eq_counts {m m' : Machine} {a : Action} (hm : m.mode ≠ .halted)
    (hs : m.step = (.ok a.outcome, m')) : m.completes = a.counts := by
  unfold completes Action.counts
  rw [hs]
  cases a.outcome with
  | advanced | jumped | awaitingInput => rfl
  | halted => simp [hm]

/-- A step that executes no instruction to its end leaves count and trace as they are. -/
theorem next_of_not_completes {m : Machine} (h : m.completes = false) :
    m.next.executed = m.executed ∧ m.next.trace = m.trace := by
  unfold next
  rcases m.step_cases with ⟨_, hs⟩ | ⟨_, f, _, hs⟩ | ⟨hm, _, op, _, _, hs⟩
  · rw [hs]
    exact ⟨rfl, rfl⟩
  · rw [hs]
    exact ⟨rfl, rfl⟩
  · rw [completes_eq_counts hm hs] at h
    rw [hs]
    simp [after, h]

/-- A step that executes an instruction to its end counts it, and records its line in a trace. -/
theorem next_of_completes {m : Machine} (h : m.completes = true) :
    ∃ line, m.Logs line ∧ m.next.executed = m.executed + 1 ∧
      m.next.trace = m.trace.map (·.record line) := by
  unfold next
  rcases m.step_cases with ⟨hm, _⟩ | ⟨_, f, _, hs⟩ | ⟨hm, _, op, hop, _, hs⟩
  · rw [completes_of_halted hm] at h
    cases h
  · rw [completes_of_error (congrArg Prod.fst hs)] at h
    cases h
  · rw [completes_eq_counts hm hs] at h
    refine ⟨_, ⟨_, Core.fetch_of_opcode hop, rfl⟩, ?_, ?_⟩
    · rw [hs]
      simp [after, h]
    · rw [hs]
      simp [after, h]

/-! ### Executions -/

/-- A trace in which nothing is recorded stays as it is. -/
theorem map_recordAll_nil (t : Option Trace) : t.map (·.recordAll []) = t := by
  cases t <;> rfl

/-- The lines of the instructions that an execution executes to their end, in order: there is one for
each that is counted, and all are recorded if there is a trace. -/
theorem Executes.history {m m' : Machine} {ms : List Machine} (h : Executes m ms m') :
    ∃ lines, List.Forall₂ Logs (ms.filter completes) lines ∧
      m'.executed = m.executed + lines.length ∧ m'.trace = m.trace.map (·.recordAll lines) := by
  induction h with
  | nil m => exact ⟨[], .nil, rfl, (map_recordAll_nil m.trace).symm⟩
  | @cons m m' ms _ ih =>
      obtain ⟨lines, hlogs, hexecuted, htrace⟩ := ih
      cases hc : m.completes with
      | false =>
          obtain ⟨hsame, hsame'⟩ := next_of_not_completes hc
          rw [hsame] at hexecuted
          rw [hsame'] at htrace
          rw [List.filter_cons_of_neg (by simp [hc])]
          exact ⟨lines, hlogs, hexecuted, htrace⟩
      | true =>
          obtain ⟨line, hline, hone, hone'⟩ := next_of_completes hc
          rw [hone] at hexecuted
          rw [hone', Option.map_map] at htrace
          rw [List.filter_cons_of_pos hc]
          refine ⟨line :: lines, .cons hline hlogs, ?_, htrace⟩
          rw [hexecuted, List.length_cons]
          omega

/-- A machine that has halted stays as it is, however many steps are tried. -/
theorem Executes.of_halted {m m' : Machine} {ms : List Machine} (h : Executes m ms m')
    (hm : m.mode = .halted) : m' = m := by
  induction h with
  | nil m => rfl
  | @cons m m' ms _ ih =>
      rw [next_of_halted hm] at ih
      exact ih hm

end Machine

/-! ### Operations and transcripts -/

/-- What an operation adds to count and trace, if it does not itself start, stop or clear a trace. -/
theorem Operation.history {op : Operation} {fuel : Nat} {d d' : Debugger} {r : Reply}
    (h : op.apply fuel d = some (r, d')) (ht : op.isTracing = false) :
    ∃ lines, List.Forall₂ Machine.Logs ((op.attempts fuel d).filter Machine.completes) lines ∧
      d'.machine.executed = d.machine.executed + lines.length ∧
      d'.machine.trace = d.machine.trace.map (·.recordAll lines) := by
  obtain ⟨m, hready, hexec⟩ := course h
  obtain ⟨lines, hlogs, hexecuted, htrace⟩ := hexec.history
  rw [hready.executed] at hexecuted
  rw [hready.trace ht] at htrace
  exact ⟨lines, hlogs, hexecuted, htrace⟩

theorem Debugger.Transcript.history {d d' : Debugger} {cs : List Call} (h : Transcript d cs d')
    (ht : ∀ c ∈ cs, c.operation.isTracing = false) :
    ∃ lines,
      List.Forall₂ Machine.Logs ((cs.flatMap (·.attempts)).filter Machine.completes) lines ∧
      d'.machine.executed = d.machine.executed + lines.length ∧
      d'.machine.trace = d.machine.trace.map (·.recordAll lines) := by
  induction h with
  | nil d => exact ⟨[], .nil, rfl, (Machine.map_recordAll_nil d.machine.trace).symm⟩
  | cons hcall _ ih =>
      obtain ⟨r, hr, rfl⟩ := Operation.call_eq_some_iff.mp hcall
      obtain ⟨hhead, htail⟩ := List.forall_mem_cons.mp ht
      obtain ⟨lines₁, hlogs₁, hexecuted₁, htrace₁⟩ := Operation.history hr hhead
      obtain ⟨lines₂, hlogs₂, hexecuted₂, htrace₂⟩ := ih htail
      refine ⟨lines₁ ++ lines₂, ?_, ?_, ?_⟩
      · rw [List.flatMap_cons, List.filter_append]
        exact List.rel_append hlogs₁ hlogs₂
      · rw [hexecuted₂, hexecuted₁, List.length_append]
        omega
      · rw [htrace₂, htrace₁, Option.map_map]
        congr 1
        funext t
        exact (t.recordAll_append lines₁ lines₂).symm

/-- Whatever is asked of a machine that has halted is neither counted nor recorded. -/
theorem Operation.executed_of_halted {op : Operation} {fuel : Nat} {d d' : Debugger} {r : Reply}
    (h : op.apply fuel d = some (r, d')) (hd : d.machine.mode = .halted) :
    d'.machine.executed = d.machine.executed ∧
      (op.isTracing = false → d'.machine.trace = d.machine.trace) := by
  obtain ⟨m, hready, hexec⟩ := course h
  have hm : m.mode = .halted := hready.mode.trans hd
  obtain rfl := hexec.of_halted hm
  exact ⟨hready.executed, hready.trace⟩

namespace Debugger

/-- **The trace is exactly the recent history.**  Let a trace be started and then any operations
follow, none of which starts, stops or clears a trace.  The count of executed instructions has grown
by the number of steps that executed one to its end, and so many lines have been recorded.  The lines
kept are the last ones, up to the capacity, of the lines that belong to these instructions.  A step
that waits, fails or finds the machine halted is not counted and adds no line, and nor does anything
that is asked of a machine that has halted. -/
theorem trace_is_recent_history :
    (∀ (d : Debugger) capacity cs d', Transcript (d.holding (d.machine.enableTrace capacity)) cs d' →
      (∀ c ∈ cs, c.operation.isTracing = false) →
      let executed := (cs.flatMap (·.attempts)).filter Machine.completes
      d'.machine.executed = d.machine.executed + executed.length ∧
      ∃ t history, d'.machine.trace = some t ∧ t.total = executed.length ∧
        List.Forall₂ Machine.Logs executed history ∧
        t.lines.toList = history.rtake (max capacity 1) ∧
        t.lines.size = min executed.length (max capacity 1)) ∧
    (∀ m : Machine, (m.mode = .halted ∨ m.step.1 = .ok .awaitingInput ∨ ∃ f, m.step.1 = .error f) →
      m.completes = false ∧ m.step.2.executed = m.executed ∧ m.step.2.trace = m.trace) ∧
    (∀ (op : Operation) fuel d r d', op.apply fuel d = some (r, d') → d.machine.mode = .halted →
      d'.machine.executed = d.machine.executed ∧
      (op.isTracing = false → d'.machine.trace = d.machine.trace)) := by
  refine ⟨?_, ?_, ?_⟩
  · intro d capacity cs d' h ht executed
    obtain ⟨history, hlogs, hexecuted, htrace⟩ := h.history ht
    have hlength : executed.length = history.length := hlogs.length_eq
    have hkeeps := (Trace.keeps_ofCapacity capacity).recordAll history
    rw [List.nil_append] at hkeeps
    have hcap : ((Trace.ofCapacity capacity).recordAll history).capacity = max capacity 1 := by
      simp [Trace.ofCapacity]
    unfold Trace.Keeps at hkeeps
    rw [hcap] at hkeeps
    refine ⟨hlength ▸ hexecuted, _, history, htrace, ?_, hlogs, hkeeps, ?_⟩
    · rw [Trace.total_recordAll, hlength]
      simp [Trace.ofCapacity]
    · rw [← Array.length_toList, hkeeps, hlength]
      simp only [List.rtake, List.length_drop]
      omega
  · intro m h
    have hcompletes : m.completes = false := by
      rcases h with hm | hwaits | ⟨f, hf⟩
      · exact Machine.completes_of_halted hm
      · exact Machine.completes_of_awaiting hwaits
      · exact Machine.completes_of_error hf
    exact ⟨hcompletes, Machine.next_of_not_completes hcompletes⟩
  · intro op fuel d r d' h hd
    exact Operation.executed_of_halted h hd

/-- A program that prints two words, reads one and then pops from an empty stack. -/
def recorded : Debugger :=
  ofMachine (Machine.holding [19, 72, 19, 105, 20, 32768, 3, 32769] (by decide))

/-- A trace of two lines: the program waits, is given a word and goes on to the failing instruction,
which is tried twice.  Three instructions are counted, and the lines of the last two are kept. -/
theorem recorded_in_two_lines : ∃ cs d',
    Transcript (recorded.holding (recorded.machine.enableTrace 2)) cs d' ∧
    cs.map (·.operation) = [.run, .queue [65], .run, .step] ∧
    ((cs.flatMap (·.attempts)).filter Machine.completes).length = 3 ∧
    d'.machine.executed = 3 ∧
    ∃ t, d'.machine.trace = some t ∧ t.total = 3 ∧ t.lines.size = min 3 2 ∧
      t.lines.toList = ["00002: out 105 'i'", "00004: in r0"] := by
  obtain ⟨c₁, c₂, c₃, c₄, d₁, d₂, d₃, d₄, t, h₁, h₂, h₃, h₄, hops, hcount, htrace, hlines⟩ :
      ∃ c₁ c₂ c₃ c₄ d₁ d₂ d₃ d₄ t,
      Operation.run.call 3 (recorded.holding (recorded.machine.enableTrace 2)) = some (c₁, d₁) ∧
      (Operation.queue [65]).call 0 d₁ = some (c₂, d₂) ∧
      Operation.run.call 2 d₂ = some (c₃, d₃) ∧
      Operation.step.call 0 d₃ = some (c₄, d₄) ∧
      [c₁, c₂, c₃, c₄].map (·.operation) = [.run, .queue [65], .run, .step] ∧
      d₄.machine.executed = 3 ∧ d₄.machine.trace = some t ∧
      t.lines.toList = ["00002: out 105 'i'", "00004: in r0"] :=
    ⟨_, _, _, _, _, _, _, _, _, rfl, rfl, rfl, rfl, rfl, rfl, rfl, rfl⟩
  have htranscript : Transcript (recorded.holding (recorded.machine.enableTrace 2))
      [c₁, c₂, c₃, c₄] d₄ :=
    .cons h₁ (.cons h₂ (.cons h₃ (.cons h₄ (.nil d₄))))
  have htracing : ∀ op ∈ [c₁, c₂, c₃, c₄].map (·.operation), op.isTracing = false := by
    rw [hops]
    decide
  obtain ⟨hexecuted, t', history, htrace', htotal, _, _, hsize⟩ :=
    trace_is_recent_history.1 recorded 2 _ _ htranscript (List.forall_mem_map.mp htracing)
  obtain rfl : t = t' := Option.some.inj (htrace.symm.trans htrace')
  have hnone : recorded.machine.executed = 0 := rfl
  rw [hcount, hnone, Nat.zero_add] at hexecuted
  rw [← hexecuted] at htotal hsize
  exact ⟨_, _, htranscript, hops, hexecuted.symm, hcount, t, htrace, htotal, hsize, hlines⟩

end Debugger

end WordMachine
