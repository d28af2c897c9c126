import WordMachine.Proofs.CallReturn
import WordMachine.Proofs.History

/-! # The instruction pointer does not wrap around

Addresses are added modulo `2 ^ 16`, but no sum ever reaches that bound.  Behind the memory there are
only zeros, and zero encodes `halt`: an instruction that moves on stands in the memory, has at most
three operands and ends shortly behind the memory at the latest.  A machine that gets there halts, and
nothing is executed any more.

* `Machine.step_past_end` : behind the memory the machine halts.
* `Machine.pc_of_advanced` : moving on is addition of natural numbers.
* `Debugger.Transcript.loaded` : no operation changes how much was loaded.
* `Machine.StaysHalted` : a machine that has halted is halted at all later steps.
* `Debugger.pc_does_not_wrap` : these facts together, for steps and for transcripts. -/

namespace WordMachine

namespace Machine

/-! ### One step -/

theorem obstacle?_halt (c : Core) : c.obstacle? .halt (c.operandWords .halt) = none := by
  rw [Core.obstacle?_of_ne c (by decide) (by decide)]
  rfl

/-- The machine after a `halt`: nothing but mode, count and trace has changed. -/
theorem after_halt (m : Machine) :
    m.after .halt .halt =
      { m with
        mode := .halted
        executed := m.executed + 1
        trace := m.trace.map (·.record (Trace.line m.core ⟨m.core.pc, .halt, []⟩)) } := by
  have hout : m.output ++ #[] = m.output := Array.append_empty
  show Machine.mk _ _ _ (m.output ++ #[]) _ _ _ = _
  rw [hout]
  rfl

/-- Behind the memory the machine halts. -/
theorem step_past_end {m : Machine} (hm : m.mode ≠ .halted) (hpc : 32768 ≤ m.core.pc.toNat) :
    m.step = (.ok .halted,
      { m with
        mode := .halted
        executed := m.executed + 1
        trace := m.trace.map (·.record (Trace.line m.core ⟨m.core.pc, .halt, []⟩)) }) := by
  have hop : m.core.read m.core.pc = Opcode.toWord .halt := m.core.read_of_ge hpc
  have hstep := step_of_opcode hm hop (obstacle?_halt m.core)
  have heffect : m.effect .halt = .halt := rfl
  rw [heffect, after_halt] at hstep
  exact hstep

/-- An instruction that moves on stands in the memory, and moving on is addition of natural numbers:
the next instruction stands at most four words behind the last address. -/
theorem pc_of_advanced {m m' : Machine} (h : m.step = (.ok .advanced, m')) :
    ∃ i, m.core.fetch = .ok i ∧ m.core.pc.toNat ≤ 32767 ∧
      m'.core.pc.toNat = m.core.pc.toNat + i.size ∧ m'.core.pc.toNat ≤ 32771 := by
  rcases step_eq_ok_cases h with ⟨_, ho, _⟩ | ⟨_, op, hop, ho, rfl⟩
  · cases ho
  · have hne : op ≠ .halt := by
      rintro rfl
      cases ho
    have hlt := pc_lt_of_opcode hop hne
    have hpc : (m.after op (m.effect op)).core.pc.toNat = m.core.pc.toNat + op.arity + 1 :=
      pc_after_of_advanced hop hne ho.symm
    have harity := op.arity_le
    refine ⟨_, Core.fetch_of_opcode hop, by omega, ?_, by omega⟩
    simp only [Instruction.size, Core.length_operandWords]
    omega

/-- A call puts the second address after its own on the stack, as a natural number. -/
theorem pushed_by_call {m m' : Machine} {o : Outcome} (hm : m.mode ≠ .halted)
    (hcall : m.core.read m.core.pc = Opcode.toWord .call) (h : m.step = (.ok o, m')) :
    ∃ w, m'.core.stack = w :: m.core.stack ∧ w.toNat = m.core.pc.toNat + 2 ∧ w.toNat ≤ 32769 := by
  have hlt := pc_lt_of_opcode hcall (by decide)
  have haddress := toNat_return_address hcall
  exact ⟨_, (step_call hm hcall h).1, haddress, by omega⟩

/-! ### What was loaded -/

theorem loaded_perform (c : Core) (a : Action) :
    (c.perform a).memory.loaded = c.memory.loaded := by
  cases a with
  | assign dst v | receive dst v => exact c.loaded_store dst v
  | pop dst v => exact Core.loaded_store { c with stack := c.stack.tail } dst v
  | overwrite addr v => exact Memory.loaded_write _ _ _
  | _ => rfl

theorem loaded_next (m : Machine) : m.next.core.memory.loaded = m.core.memory.loaded := by
  unfold next
  rcases m.step_cases with ⟨_, hs⟩ | ⟨_, f, _, hs⟩ | ⟨_, _, op, _, _, hs⟩
  · rw [hs]
  · rw [hs]
  · have hmemory := m.core.memory_after op (m.effect op)
    rw [hs]
    show (m.core.after op (m.effect op)).memory.loaded = _
    rw [hmemory, loaded_perform]

theorem Executes.loaded {m m' : Machine} {ms : List Machine} (h : Executes m ms m') :
    m'.core.memory.loaded = m.core.memory.loaded := by
  induction h with
  | nil m => rfl
  | @cons m m' ms _ ih => exact ih.trans m.loaded_next

/-- An operation on its own does not change how much was loaded either. -/
theorem loaded_execute (m : Machine) (op : Opcode) (operands : List Word) :
    (m.execute op operands).2.core.memory.loaded = m.core.memory.loaded := by
  unfold execute
  cases m.plan op operands with
  | error f => rfl
  | ok a =>
      show (m.perform a).core.memory.loaded = _
      rw [perform_eq]
      exact loaded_perform m.core a

/-! ### Halting is final -/

/-- Steps are tried from the machines `ms`, between a machine of mode `μ` and one of mode `μ'`.  Once
a machine has halted, all that follow have. -/
structure StaysHalted (μ : Mode) (ms : List Machine) (μ' : Mode) : Prop where
  of_halted : μ = .halted → (∀ x ∈ ms, x.mode = .halted) ∧ μ' = .halted
  pairwise : ms.Pairwise (fun x y => x.next.mode = .halted → y.mode = .halted)
  halts : ∀ x ∈ ms, x.next.mode = .halted → μ' = .halted

theorem StaysHalted.nil (μ : Mode) : StaysHalted μ [] μ where
  of_halted := fun h => ⟨List.forall_mem_nil _, h⟩
  pairwise := .nil
  halts := List.forall_mem_nil _

theorem StaysHalted.append {μ₀ μ₁ μ₂ : Mode} {ms₁ ms₂ : List Machine}
    (h₁ : StaysHalted μ₀ ms₁ μ₁) (h₂ : StaysHalted μ₁ ms₂ μ₂) :
    StaysHalted μ₀ (ms₁ ++ ms₂) μ₂ where
  of_halted := by
    intro h
    obtain ⟨hall₁, hμ₁⟩ := h₁.of_halted h
    obtain ⟨hall₂, hμ₂⟩ := h₂.of_halted hμ₁
    exact ⟨List.forall_mem_append.mpr ⟨hall₁, hall₂⟩, hμ₂⟩
  pairwise := by
    refine List.pairwise_append.mpr ⟨h₁.pairwise, h₂.pairwise, ?_⟩
    intro x hx y hy hhalts
    exact (h₂.of_halted (h₁.halts x hx hhalts)).1 y hy
  halts := by
    refine List.forall_mem_append.mpr ⟨?_, h₂.halts⟩
    intro x hx hhalts
    exact (h₂.of_halted (h₁.halts x hx hhalts)).2

theorem staysHalted_next (m : Machine) : StaysHalted m.mode [m] m.next.mode where
  of_halted := by
    intro h
    rw [next_of_halted h]
    exact ⟨List.forall_mem_singleton.mpr h, h⟩
  pairwise := List.pairwise_singleton _ _
  halts := List.forall_mem_singleton.mpr id

theorem Executes.staysHalted {m m' : Machine} {ms : List Machine} (h : Executes m ms m') :
    StaysHalted m.mode ms m'.mode := by
  induction h with
  | nil m => exact .nil m.mode
  | @cons m m' ms _ ih => exact m.staysHalted_next.append ih

/-- An instruction executed behind the memory is the last one that is executed. -/
theorem StaysHalted.last_past_end {μ μ' : Mode} {ms : List Machine} (h : StaysHalted μ ms μ')
    {before after : List Machine} {m : Machine}
    (hms : ms.filter completes = before ++ m :: after) (hpc : 32768 ≤ m.core.pc.toNat) :
    after = [] := by
  have hmem : ∀ x ∈ before ++ m :: after, x.completes = true := by
    intro x hx
    rw [← hms] at hx
    exact (List.mem_filter.mp hx).2
  have hpairwise := h.pairwise.filter completes
  rw [hms] at hpairwise
  have hlater := (List.pairwise_cons.mp (List.pairwise_append.mp hpairwise).2.1).1
  have hm : m.mode ≠ .halted := by
    intro hhalted
    have hcompletes := hmem m (by simp)
    rw [completes_of_halted hhalted] at hcompletes
    cases hcompletes
  have hhalts : m.next.mode = .halted := by
    unfold next
    rw [step_past_end hm hpc]
  -- Whatever came later would have found the machine halted, and would not have been executed.
  refine List.eq_nil_iff_forall_not_mem.mpr ?_
  intro y hy
  have hcompletes := hmem y (by simp [hy])
  rw [completes_of_halted (hlater y hy hhalts)] at hcompletes
  cases hcompletes

end Machine

/-! ### Transcripts -/

namespace Debugger

theorem Transcript.loaded {d d' : Debugger} {cs : List Call} (h : Transcript d cs d') :
    d'.machine.core.memory.loaded = d.machine.core.memory.loaded := by
  induction h with
  | nil d => rfl
  | cons hcall _ ih =>
      obtain ⟨r, hr, rfl⟩ := Operation.call_eq_some_iff.mp hcall
      obtain ⟨m, hready, hexec⟩ := Operation.course hr
      exact ih.trans (hexec.loaded.trans hready.loaded)

theorem Transcript.staysHalted {d d' : Debugger} {cs : List Call} (h : Transcript d cs d') :
    Machine.StaysHalted d.machine.mode (cs.flatMap (·.attempts)) d'.machine.mode := by
  induction h with
  | nil d => exact .nil d.machine.mode
  | cons hcall _ ih =>
      obtain ⟨r, hr, rfl⟩ := Operation.call_eq_some_iff.mp hcall
      obtain ⟨m, hready, hexec⟩ := Operation.course hr
      have hone := hexec.staysHalted
      rw [hready.mode] at hone
      rw [List.flatMap_cons]
      exact hone.append ih

/-- **The instruction pointer does not wrap around, and running off the end halts.**  Behind the
memory a machine that has not halted does so, and nothing but its mode, count and trace changes.  A
step that moves on does so from an address of the memory, by the size of the instruction, and the
address that a call puts on the stack is the second one after its own, both as natural numbers.  No
operation changes the size of the memory or how much of it was loaded.  So of the instructions that
are executed in a transcript none but the last one stands behind the memory. -/
theorem pc_does_not_wrap :
    (∀ m : Machine, m.mode ≠ .halted → 32768 ≤ m.core.pc.toNat →
      m.step = (.ok .halted,
        { m with
          mode := .halted
          executed := m.executed + 1
          trace := m.trace.map (·.record (Trace.line m.core ⟨m.core.pc, .halt, []⟩)) })) ∧
    (∀ m m' : Machine, m.step = (.ok .advanced, m') →
      ∃ i, m.core.fetch = .ok i ∧ m.core.pc.toNat ≤ 32767 ∧
        m'.core.pc.toNat = m.core.pc.toNat + i.size ∧ m'.core.pc.toNat ≤ 32771) ∧
    (∀ (m m' : Machine) o, m.mode ≠ .halted → m.core.read m.core.pc = Opcode.toWord .call →
      m.step = (.ok o, m') →
      ∃ w, m'.core.stack = w :: m.core.stack ∧ w.toNat = m.core.pc.toNat + 2 ∧ w.toNat ≤ 32769) ∧
    (∀ (m : Machine) op operands,
      (m.execute op operands).2.core.memory.words.toArray.size = 32768 ∧
      (m.execute op operands).2.core.memory.loaded = m.core.memory.loaded) ∧
    (∀ d cs d', Transcript d cs d' →
      d'.machine.core.memory.words.toArray.size = 32768 ∧
      d'.machine.core.memory.loaded = d.machine.core.memory.loaded ∧
      ∀ before m after, (cs.flatMap (·.attempts)).filter Machine.completes = before ++ m :: after →
        32768 ≤ m.core.pc.toNat → after = []) := by
  refine ⟨?_, ?_, ?_, ?_, ?_⟩
  · intro m hm hpc
    exact Machine.step_past_end hm hpc
  · intro m m' h
    exact Machine.pc_of_advanced h
  · intro m m' o hm hcall h
    exact Machine.pushed_by_call hm hcall h
  · intro m op operands
    exact ⟨Vector.size_toArray _, m.loaded_execute op operands⟩
  · intro d cs d' h
    refine ⟨Vector.size_toArray _, h.loaded, ?_⟩
    intro before m after hms hpc
    exact h.staysHalted.last_past_end hms hpc

/-- A program that reads an address behind the memory and calls it. -/
def wanderer : Debugger :=
  ofMachine (Machine.holding [15, 32768, 5, 17, 32768, 40000] (by decide))

/-- The first instruction moves on by three words, the second one calls the address `40000` and puts
`5` on the stack, and the third one is the `halt` that is read there.  It is the last one. -/
theorem wanderer_halts_past_end : ∃ cs d' m₁ m₂ m₃,
    Transcript wanderer cs d' ∧ cs.map (·.operation) = [.step, .run, .run] ∧
    wanderer.machine.step = (.ok .advanced, m₁) ∧ m₁.core.pc.toNat ≤ 32771 ∧
    m₁.step = (.ok .jumped, m₂) ∧ (∃ w, m₂.core.stack = [w] ∧ w.toNat = 3 + 2) ∧
    m₂.core.pc.toNat = 40000 ∧ m₂.step = (.ok .halted, m₃) ∧ m₃.core = m₂.core ∧
    d'.machine.core.memory.loaded = 6 ∧
    ∃ before after, (cs.flatMap (·.attempts)).filter Machine.completes = before ++ m₂ :: after ∧
      after = [] := by
  obtain ⟨c₁, c₂, c₃, d₁, d₂, d₃, m₁, m₂, h₁, h₂, h₃, hops, hstep₁, hstep₂, hexecuted, hpc₁, hcall,
      hmode₁, hstack, hpc₂, hmode₂⟩ : ∃ c₁ c₂ c₃ d₁ d₂ d₃ m₁ m₂,
      Operation.step.call 0 wanderer = some (c₁, d₁) ∧
      Operation.run.call 2 d₁ = some (c₂, d₂) ∧
      Operation.run.call 0 d₂ = some (c₃, d₃) ∧
      [c₁, c₂, c₃].map (·.operation) = [.step, .run, .run] ∧
      wanderer.machine.step = (.ok .advanced, m₁) ∧ m₁.step = (.ok .jumped, m₂) ∧
      ([c₁, c₂, c₃].flatMap (·.attempts)).filter Machine.completes =
        [wanderer.machine, m₁] ++ m₂ :: [] ∧
      m₁.core.pc.toNat = 3 ∧ m₁.core.read m₁.core.pc = Opcode.toWord .call ∧
      m₁.mode = .running ∧ m₁.core.stack = [] ∧ m₂.core.pc.toNat = 40000 ∧ m₂.mode = .running :=
    ⟨_, _, _, _, _, _, _, _, rfl, rfl, rfl, rfl, rfl, rfl, rfl, rfl, rfl, rfl, rfl, rfl, rfl⟩
  have htranscript : Transcript wanderer [c₁, c₂, c₃] d₃ :=
    .cons h₁ (.cons h₂ (.cons h₃ (.nil d₃)))
  obtain ⟨hpast, hadvanced, hpushed, _, htranscripts⟩ := pc_does_not_wrap
  obtain ⟨_, _, _, _, hle⟩ := hadvanced _ _ hstep₁
  have hrunning₁ : m₁.mode ≠ .halted := by
    rw [hmode₁]
    decide
  obtain ⟨w, hw, hreturn, _⟩ := hpushed _ _ _ hrunning₁ hcall hstep₂
  rw [hstack] at hw
  rw [hpc₁] at hreturn
  have hrunning₂ : m₂.mode ≠ .halted := by
    rw [hmode₂]
    decide
  have hlast := hpast m₂ hrunning₂ (by omega)
  obtain ⟨_, hloaded, hnone⟩ := htranscripts _ _ _ htranscript
  exact ⟨_, _, m₁, m₂, _, htranscript, hops, hstep₁, hle, hstep₂, ⟨w, hw, hreturn⟩, hpc₂, hlast, rfl,
    hloaded, _, _, hexecuted, hnone _ _ _ hexecuted (by omega)⟩

end Debugger

end WordMachine
