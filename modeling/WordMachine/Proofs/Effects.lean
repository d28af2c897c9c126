import WordMachine.Machine.Effect
import WordMachine.Proofs.Step

/-! # Effects follow the plan

The programs of `Effect` change the machine while they read it, and a planned action changes it only
after all has been read.  On every machine the two have the same result and leave the same machine, also
where they fail: all that an instruction takes away before its last fault can arise, it has not taken away
when it fails.

* `Effect.on_executeIn`, `Effect.on_execute` : one operation.
* `Effect.on_step` : one step. -/

namespace WordMachine

namespace Effect

/-! ### Sequences -/

section

variable {α β : Type} {x : Effect α} {f : α → Effect β} {m m' : Machine}

theorem on_bind_of_ok {a : α} (h : x.on m = (.ok a, m')) : (x >>= f).on m = (f a).on m' := by
  have hrun : StateT.run (ExceptT.run x) m = (.ok a, m') := h
  unfold on
  rw [ExceptT.run_bind, StateT.run_bind, hrun]
  rfl

theorem on_bind_of_error {e : Fault} (h : x.on m = (.error e, m')) :
    (x >>= f).on m = (.error e, m') := by
  have hrun : StateT.run (ExceptT.run x) m = (.error e, m') := h
  unfold on
  rw [ExceptT.run_bind, StateT.run_bind, hrun]
  rfl

end

section

variable {m : Machine}

/-- A program and a plan that begin with the same result agree if they agree behind it. -/
theorem on_ofExcept_bind {α : Type} (r : Except Fault α) {f : α → Effect Outcome}
    {g : α → Except Fault Action} (h : ∀ a, (f a).on m = m.carryOut (g a)) :
    (ofExcept r >>= f).on m = m.carryOut (r >>= g) := by
  cases r with
  | ok a => exact h a
  | error e => rfl

/-- A program and a plan that begin with the same operand agree if they agree behind it. -/
theorem on_resolve_bind (w : Word) {f : Word → Effect Outcome} {g : Word → Except Fault Action}
    (h : ∀ v, (f v).on m = m.carryOut (g v)) :
    (resolve w >>= f).on m = m.carryOut (m.core.value w >>= g) :=
  on_ofExcept_bind (m.core.value w) h

theorem on_refuse (op : Opcode) : (refuse op).on m = m.carryOut (m.core.refuse op) := rfl

/-! ### Taking words away -/

theorem on_pop?_of_cons {v : Word} {rest : List Word} (h : m.core.stack = v :: rest) :
    pop?.on m = (.ok (some v), { m with core := { m.core with stack := rest } }) := by
  unfold pop?
  rw [on_bind_of_ok (rfl : core.on m = (.ok m.core, m)), h]
  rfl

theorem on_pop?_of_nil (h : m.core.stack = []) : pop?.on m = (.ok none, m) := by
  unfold pop?
  rw [on_bind_of_ok (rfl : core.on m = (.ok m.core, m)), h]
  rfl

theorem on_pop_of_cons {v : Word} {rest : List Word} (h : m.core.stack = v :: rest) :
    pop.on m = (.ok v, { m with core := { m.core with stack := rest } }) := by
  unfold pop
  rw [on_bind_of_ok (on_pop?_of_cons h)]
  rfl

theorem on_pop_of_nil (h : m.core.stack = []) :
    pop.on m = (.error (.stackUnderflow m.core.pc), m) := by
  unfold pop
  rw [on_bind_of_ok (on_pop?_of_nil h)]
  rfl

theorem on_nextInput?_of_cons {v : Word} {rest : List Word} (h : m.input = v :: rest) :
    nextInput?.on m = (.ok (some v), { m with input := rest }) := by
  unfold nextInput?
  rw [on_bind_of_ok (rfl : on get m = (.ok m, m)), h]
  rfl

theorem on_nextInput?_of_nil (h : m.input = []) : nextInput?.on m = (.ok none, m) := by
  unfold nextInput?
  rw [on_bind_of_ok (rfl : on get m = (.ok m, m)), h]
  rfl

end

/-! ### The four families -/

theorem on_memory (op : Opcode) (operands : List Word) (m : Machine) :
    (memory op operands).on m = m.carryOut (m.core.planMemory op operands) := by
  unfold memory
  split
  next dst src _ => exact on_resolve_bind src fun v => rfl
  next src _ => exact on_resolve_bind src fun v => rfl
  next dst _ =>
    simp only [Core.planMemory]
    cases hstack : m.core.stack with
    | nil => exact on_bind_of_error (on_pop_of_nil hstack)
    | cons v rest =>
        rw [on_bind_of_ok (on_pop_of_cons hstack)]
        simp only [Machine.carryOut, Machine.perform, Core.perform, hstack]
        rfl
  next dst src _ => exact on_resolve_bind src fun addr => rfl
  next dst src _ => exact on_resolve_bind dst fun addr => on_resolve_bind src fun v => rfl
  next => simp only [Core.planMemory, on_refuse]

theorem on_arithmetic (op : Opcode) (operands : List Word) (m : Machine) :
    (arithmetic op operands).on m = m.carryOut (m.core.planArithmetic op operands) := by
  unfold arithmetic
  split
  next dst src _ => exact on_resolve_bind src fun x => rfl
  next dst left right _ hnot =>
    simp only [Core.planArithmetic]
    exact on_resolve_bind left fun x => on_resolve_bind right fun y =>
      on_ofExcept_bind (m.core.compute op x y) fun v => rfl
  next => simp only [Core.planArithmetic, on_refuse]

theorem on_jumpIf {taken : Bool} {target : Word} {a : Action}
    (h : a = if taken then .jump target else .skip) (m : Machine) :
    (jumpIf taken target).on m = m.carryOut (.ok a) := by
  rw [h]
  cases taken <;> rfl

theorem on_flow (op : Opcode) (operands : List Word) (m : Machine) :
    (flow op operands).on m = m.carryOut (m.core.planFlow op operands) := by
  unfold flow
  split
  next dst _ => exact on_resolve_bind dst fun target => rfl
  next cond dst _ =>
    refine on_resolve_bind cond fun x => on_resolve_bind dst fun target => on_jumpIf ?_ m
    by_cases hx : x = 0 <;> simp [hx]
  next cond dst _ =>
    refine on_resolve_bind cond fun x => on_resolve_bind dst fun target => on_jumpIf ?_ m
    by_cases hx : x = 0 <;> simp [hx]
  next dst _ => exact on_resolve_bind dst fun target => rfl
  next =>
    simp only [Core.planFlow]
    cases hstack : m.core.stack with
    | nil =>
        rw [on_bind_of_ok (on_pop?_of_nil hstack)]
        rfl
    | cons target rest =>
        rw [on_bind_of_ok (on_pop?_of_cons hstack)]
        simp only [Machine.carryOut, Machine.perform, Core.perform, hstack]
        rfl
  next => simp only [Core.planFlow, on_refuse]

theorem on_channel (op : Opcode) (operands : List Word) (m : Machine) :
    (channel op operands).on m = m.carryOut (m.core.planChannel m.input.head? op operands) := by
  unfold channel
  split
  next src _ => exact on_resolve_bind src fun v => rfl
  next dst _ =>
    simp only [Core.planChannel]
    cases hinput : m.input with
    | nil =>
        rw [on_bind_of_ok (on_nextInput?_of_nil hinput)]
        rfl
    | cons v rest =>
        rw [on_bind_of_ok (on_nextInput?_of_cons hinput)]
        simp only [List.head?_cons, Machine.carryOut, Machine.perform, hinput]
        rfl
  next => simp only [Core.planChannel, on_refuse]

/-! ### Instructions -/

/-- An operation by the program of a family does what is planned by the planner of the family. -/
theorem on_executeIn (family : Family) (op : Opcode) (operands : List Word) (m : Machine) :
    (executeIn family op operands).on m = m.executeIn family op operands := by
  cases family with
  | memory => exact on_memory op operands m
  | arithmetic => exact on_arithmetic op operands m
  | flow => exact on_flow op operands m
  | channel => exact on_channel op operands m

theorem on_execute (op : Opcode) (operands : List Word) (m : Machine) :
    (execute op operands).on m = m.execute op operands := by
  unfold execute Machine.execute Machine.plan Core.plan
  cases hfamily : op.family? with
  | some family => exact on_executeIn family op operands m
  | none =>
      by_cases hop : op = .halt
      · simp only [if_pos hop]
        rfl
      · simp only [if_neg hop]
        rfl

theorem on_conclude (i : Instruction) (a : Action) (m : Machine) :
    (conclude m.core.pc i (m.trace.map fun _ => Trace.line m.core i) a.outcome).on (m.perform a) =
      (.ok a.outcome, m.complete i a) := by
  unfold conclude Machine.complete
  cases ho : a.outcome with
  | advanced =>
      -- The instruction did not move the pointer, so moving it on is setting it behind the instruction.
      have hpc : (m.perform a).core.pc = m.core.pc := by
        rw [Machine.perform_eq]
        exact Core.pc_perform (by rw [ho]; decide)
      simp only [Machine.moveOn, hpc]
      rfl
  | jumped | awaitingInput | halted => rfl

/-- A step behind its beginning, on the machine that runs. -/
theorem on_step_of_running (m : Machine) (i : Instruction) :
    (do
      let o ← execute i.opcode i.operands
      conclude m.core.pc i (m.trace.map fun _ => Trace.line m.core i) o : Effect Outcome).on m =
      match m.plan i.opcode i.operands with
      | .error f => (.error f, m)
      | .ok a => (.ok a.outcome, m.complete i a) := by
  have hexecute := on_execute i.opcode i.operands m
  unfold Machine.execute at hexecute
  cases hplan : m.plan i.opcode i.operands with
  | error f =>
      rw [hplan] at hexecute
      exact on_bind_of_error hexecute
  | ok a =>
      rw [hplan] at hexecute
      rw [on_bind_of_ok hexecute]
      exact on_conclude i a m

/-- A step effect by effect is a step. -/
theorem on_step (m : Machine) : step.on m = m.step := by
  unfold step
  rw [on_bind_of_ok (rfl : on get m = (.ok m, m))]
  by_cases hm : m.mode = .halted
  · rw [if_pos hm, Machine.step_of_halted hm]
    rfl
  · unfold Machine.step
    rw [if_neg hm, if_neg hm, on_bind_of_ok (rfl : on (modify _) m = (.ok (), { m with mode := .running })),
      on_bind_of_ok (rfl : core.on _ = (.ok m.core, { m with mode := .running }))]
    simp only
    cases hfetch : m.core.fetch with
    | error w => rfl
    | ok i => exact on_step_of_running { m with mode := .running } i

end Effect
end WordMachine
