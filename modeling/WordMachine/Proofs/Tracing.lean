import WordMachine.Proofs.Carried

/-! # Tracing does not interfere

A trace only listens.  Forgetting the trace is a change that execution carries along, so it commutes with
every operation that does not show it, and starting, stopping and clearing a trace change nothing else.  So
two debuggers that differ in their traces alone answer the same operations alike, wherever tracing is
changed in between.

* `Machine.carried_disableTrace` : forgetting the trace is carried along.
* `Debugger.untraced` : the debugger without the trace of its machine.
* `Operation.apply_untraced` : forgetting the trace commutes with an operation.
* `Debugger.tracing_does_not_interfere` : the same for whole transcripts. -/

namespace WordMachine

/-! ### Machines -/

namespace Machine

theorem after_disableTrace (m : Machine) (op : Opcode) (a : Action) :
    m.disableTrace.after op a = (m.after op a).disableTrace := by
  unfold after disableTrace
  simp only [Option.map_none, ite_self]

theorem unnoticed_disableTrace : Unnoticed disableTrace where
  after := after_disableTrace

/-- Forgetting the trace is carried along by execution. -/
theorem carried_disableTrace : Carried disableTrace where
  step := unnoticed_disableTrace.step
  mode _ := rfl
  limit _ := rfl
  output _ := rfl
  pc _ := rfl
  words _ := rfl
  emptied _ := rfl
  feed _ _ := rfl
  setLimit _ _ := rfl
  setRegister _ _ _ := rfl
  write _ _ _ := rfl

end Machine

/-! ### Operations -/

/-- The debugger without the trace of its machine. -/
def Debugger.untraced (d : Debugger) : Debugger := d.holding d.machine.disableTrace

namespace Operation

/-- Starting, stopping and clearing a trace change nothing else. -/
theorem apply_of_isTracing {op : Operation} (h : op.isTracing = true) (fuel : Nat) (d : Debugger) :
    ∃ d', op.apply fuel d = some (.done, d') ∧ d'.untraced = d.untraced := by
  cases op with
  | enableTrace capacity | disableTrace | clearTrace => exact ⟨_, rfl, rfl⟩
  | _ => cases h

/-- Forgetting the trace commutes with an operation that has nothing to do with it. -/
theorem apply_untraced {op : Operation} (ht : op.isTracing = false) (hs : op.showsTrace = false)
    (fuel : Nat) (d : Debugger) :
    op.apply fuel d.untraced = (op.apply fuel d).map (Prod.map id Debugger.untraced) :=
  apply_through Machine.carried_disableTrace ht hs fuel d

end Operation

/-! ### Transcripts -/

/-- The operations that do more than start, stop or clear a trace. -/
def Operation.apartFromTracing (ops : List Operation) : List Operation :=
  ops.filter (fun op => !op.isTracing)

/-- The replies to the operations that do more than start, stop or clear a trace. -/
def Call.repliesApartFromTracing (cs : List Call) : List Reply :=
  (cs.filter (fun c => !c.operation.isTracing)).map (·.reply)

theorem Operation.showsTrace_of_isTracing {op : Operation} (h : op.isTracing = true) :
    op.showsTrace = false := by
  cases op with
  | enableTrace capacity | disableTrace | clearTrace => rfl
  | _ => cases h

/-- What shows no trace shows none when tracing is changed in between. -/
theorem Operation.showsTrace_of_apartFromTracing {ops₁ ops₂ : List Operation}
    (h : ∀ op ∈ ops₁, op.showsTrace = false)
    (hops : apartFromTracing ops₁ = apartFromTracing ops₂) :
    ∀ op ∈ ops₂, op.showsTrace = false := by
  intro op hop
  cases ht : op.isTracing with
  | true => exact showsTrace_of_isTracing ht
  | false =>
      have hmem : op ∈ apartFromTracing ops₂ := List.mem_filter.mpr ⟨hop, by rw [ht]; rfl⟩
      rw [← hops] at hmem
      exact h op (List.mem_filter.mp hmem).1

namespace Debugger

/-- A transcript without its trace: the calls that change tracing drop out. -/
theorem Transcript.untraced {d d' : Debugger} {cs : List Call} (h : Transcript d cs d')
    (hs : ∀ c ∈ cs, c.operation.showsTrace = false) :
    ∃ cs₀, Transcript d.untraced cs₀ d'.untraced ∧
      cs₀.map (·.operation) = Operation.apartFromTracing (cs.map (·.operation)) ∧
      cs₀.map (·.reply) = Call.repliesApartFromTracing cs := by
  induction h with
  | nil d => exact ⟨[], .nil _, rfl, rfl⟩
  | @cons d d₁ d₂ op fuel c cs hcall _ ih =>
      obtain ⟨r, hr, rfl⟩ := Operation.call_eq_some_iff.mp hcall
      obtain ⟨hhead, htail⟩ := List.forall_mem_cons.mp hs
      obtain ⟨cs₀, hcs₀, hops, hreplies⟩ := ih htail
      cases ht : op.isTracing with
      | true =>
          obtain ⟨d₁', hd₁', hsame⟩ := Operation.apply_of_isTracing ht fuel d
          obtain rfl : d₁ = d₁' := (Prod.mk.inj (Option.some.inj (hr.symm.trans hd₁'))).2
          rw [hsame] at hcs₀
          refine ⟨cs₀, hcs₀, ?_, ?_⟩
          · simpa [Operation.apartFromTracing, ht] using hops
          · simpa [Call.repliesApartFromTracing, ht] using hreplies
      | false =>
          have hr₀ : op.apply fuel d.untraced = some (r, d₁.untraced) := by
            rw [Operation.apply_untraced ht hhead, hr]
            rfl
          have hcall₀ := Operation.call_eq_some_iff.mpr ⟨r, hr₀, rfl⟩
          refine ⟨_, .cons hcall₀ hcs₀, ?_, ?_⟩
          · simpa [Operation.apartFromTracing, ht] using hops
          · simpa [Call.repliesApartFromTracing, ht] using hreplies

/-- Operations that come to an end without a trace do so with one, wherever tracing is changed. -/
theorem exists_transcript_of_untraced {ops : List Operation}
    (hs : ∀ op ∈ ops, op.showsTrace = false) {d e : Debugger} {cs₀ : List Call}
    (h : Transcript d.untraced cs₀ e)
    (hops : cs₀.map (·.operation) = Operation.apartFromTracing ops) :
    ∃ cs d', Transcript d cs d' ∧ cs.map (·.operation) = ops := by
  -- The induction is on the operations, for the transcript lacks those that change tracing.
  induction ops generalizing d cs₀ with
  | nil => exact ⟨[], d, .nil d, rfl⟩
  | cons op ops ih =>
      obtain ⟨hhead, htail⟩ := List.forall_mem_cons.mp hs
      cases ht : op.isTracing with
      | true =>
          obtain ⟨d₁, hd₁, hsame⟩ := Operation.apply_of_isTracing ht 0 d
          have hcall := Operation.call_eq_some_iff.mpr ⟨_, hd₁, rfl⟩
          rw [← hsame] at h
          obtain ⟨cs, d', hcs, rfl⟩ := ih htail h (by simpa [Operation.apartFromTracing, ht] using hops)
          exact ⟨_, d', .cons hcall hcs, rfl⟩
      | false =>
          rw [Operation.apartFromTracing, List.filter_cons_of_pos (by rw [ht]; rfl)] at hops
          cases h with
          | nil => cases hops
          | cons hcall₀ hrest =>
              obtain ⟨r, hr₀, rfl⟩ := Operation.call_eq_some_iff.mp hcall₀
              obtain ⟨rfl, hops'⟩ := List.cons.inj hops
              rw [Operation.apply_untraced ht hhead] at hr₀
              obtain ⟨⟨r', d₁⟩, hr, he⟩ := Option.map_eq_some_iff.mp hr₀
              obtain ⟨_, rfl⟩ := Prod.mk.inj he
              have hcall := Operation.call_eq_some_iff.mpr ⟨_, hr, rfl⟩
              obtain ⟨cs, d', hcs, rfl⟩ := ih htail hrest hops'
              exact ⟨_, d', .cons hcall hcs, rfl⟩

/-- **Tracing does not interfere with execution.**  Let two debuggers agree in everything but the
trace of their machines, and let the operations asked of them agree in everything but those that
start, stop or clear a trace.  If all of the first one's operations come to an end, then so do the
second one's, the replies are the same, and the two debuggers still agree in everything but the
trace.  Reports of the machine and its history are not among the operations: they show the trace. -/
theorem tracing_does_not_interfere (d₁ d₂ d₁' : Debugger) (cs₁ : List Call) (ops₂ : List Operation)
    (hsame : d₁.untraced = d₂.untraced) (h₁ : Transcript d₁ cs₁ d₁')
    (hs : ∀ op ∈ cs₁.map (·.operation), op.showsTrace = false)
    (hops : Operation.apartFromTracing (cs₁.map (·.operation)) = Operation.apartFromTracing ops₂) :
    (∃ cs₂ d₂', Transcript d₂ cs₂ d₂' ∧ cs₂.map (·.operation) = ops₂) ∧
    ∀ cs₂ d₂', Transcript d₂ cs₂ d₂' → cs₂.map (·.operation) = ops₂ →
      Call.repliesApartFromTracing cs₁ = Call.repliesApartFromTracing cs₂ ∧
      d₁'.untraced = d₂'.untraced := by
  have hs₂ := Operation.showsTrace_of_apartFromTracing hs hops
  obtain ⟨cs₀, hcs₀, hops₀, hreplies₀⟩ := h₁.untraced (List.forall_mem_map.mp hs)
  -- Without their traces both debuggers are the same one.
  rw [hsame] at hcs₀
  constructor
  · exact exists_transcript_of_untraced hs₂ hcs₀ (hops₀.trans hops)
  · rintro cs₂ d₂' h₂ rfl
    obtain ⟨cs₀', hcs₀', hops₀', hreplies₀'⟩ := h₂.untraced (List.forall_mem_map.mp hs₂)
    have hagree : cs₀.map (·.operation) = cs₀'.map (·.operation) := by
      rw [hops₀, hops₀', hops]
    obtain ⟨hreplies, hend⟩ := hcs₀.unique hcs₀' hagree
    rw [hreplies₀, hreplies₀'] at hreplies
    exact ⟨hreplies, hend⟩

/-- A program prints two words and waits, once without a trace and once with one that is cleared,
replaced and stopped on the way. -/
theorem greeter_traced_and_untraced : ∃ cs₁ d₁',
    Transcript greeter cs₁ d₁' ∧ cs₁.map (·.operation) = [.step, .poke 3 105, .run] ∧
    (∃ cs₂ d₂', Transcript (greeter.holding (greeter.machine.enableTrace 1)) cs₂ d₂' ∧
      cs₂.map (·.operation) =
        [.step, .clearTrace, .poke 3 105, .enableTrace 8, .run, .disableTrace] ∧
      Call.repliesApartFromTracing cs₁ = Call.repliesApartFromTracing cs₂ ∧
      d₁'.untraced = d₂'.untraced) := by
  obtain ⟨c₁, c₂, c₃, d₁, d₂, d₃, h₁, h₂, h₃, hops⟩ : ∃ c₁ c₂ c₃ d₁ d₂ d₃,
      Operation.step.call 0 greeter = some (c₁, d₁) ∧
      (Operation.poke 3 105).call 0 d₁ = some (c₂, d₂) ∧
      Operation.run.call 3 d₂ = some (c₃, d₃) ∧
      [c₁, c₂, c₃].map (·.operation) = [.step, .poke 3 105, .run] :=
    ⟨_, _, _, _, _, _, rfl, rfl, rfl, rfl⟩
  have htranscript : Transcript greeter [c₁, c₂, c₃] d₃ :=
    .cons h₁ (.cons h₂ (.cons h₃ (.nil d₃)))
  have hs : ∀ op ∈ [c₁, c₂, c₃].map (·.operation), op.showsTrace = false := by
    rw [hops]
    decide
  obtain ⟨⟨cs₂, d₂', hcs₂, hops₂⟩, hall⟩ := tracing_does_not_interfere greeter
    (greeter.holding (greeter.machine.enableTrace 1)) d₃ [c₁, c₂, c₃]
    [.step, .clearTrace, .poke 3 105, .enableTrace 8, .run, .disableTrace] rfl htranscript hs (by rw [hops]; rfl)
  obtain ⟨hreplies, hend⟩ := hall cs₂ d₂' hcs₂ hops₂
  exact ⟨_, _, htranscript, hops, cs₂, d₂', hcs₂, hops₂, hreplies, hend⟩

end Debugger

end WordMachine
