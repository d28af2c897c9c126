import WordMachine.Proofs.Operation

/-! # Changes that execution carries along

Two machines can differ in something that no instruction looks at, such as a trace.  Let a change to
machines commute with a step, and let it touch nothing that decides how an operation goes or what it
answers.  Then it commutes with runs, with continuing, with commands and with all operations that neither
change nor show a trace.

* `Machine.Carried` : such a change.
* `Machine.Carried.run`, `Machine.Carried.runWords` : it commutes with runs.
* `Debugger.through` : the debugger whose machine is changed.
* `Operation.apply_through` : the change commutes with operations. -/

namespace WordMachine

/-! ### Machines -/

namespace Machine

/-- A change to machines that every step carries along.  It leaves alone what decides how an operation
goes, and it does not matter whether it comes before or after an edit from outside. -/
structure Carried (f : Machine → Machine) : Prop where
  step (m : Machine) : (f m).step = (m.step.1, f m.step.2)
  mode (m : Machine) : (f m).mode = m.mode
  limit (m : Machine) : (f m).limit = m.limit
  output (m : Machine) : (f m).output = m.output
  pc (m : Machine) : (f m).core.pc = m.core.pc
  words (m : Machine) : (f m).core.memory.words = m.core.memory.words
  emptied (m : Machine) : f { m with output := #[] } = { f m with output := #[] }
  feed (m : Machine) (ws : List Word) : f (m.feed ws) = (f m).feed ws
  setLimit (m : Machine) (limit : Option Nat) : f (m.setLimit limit) = (f m).setLimit limit
  setRegister (m : Machine) (r : Fin 8) (v : Word) :
    f { m with core := m.core.setRegister r v } = { f m with core := (f m).core.setRegister r v }
  write (m : Machine) (addr v : Word) :
    f { m with core := m.core.write addr v } = { f m with core := (f m).core.write addr v }

namespace Carried

variable {f : Machine → Machine} (hf : Carried f)

include hf

theorem read (m : Machine) (addr : Word) : (f m).core.read addr = m.core.read addr := by
  unfold Core.read Memory.read
  rw [hf.words]

theorem takeOutput (m : Machine) : (f m).takeOutput = Prod.map id f m.takeOutput := by
  simp only [Machine.takeOutput, hf.output, Prod.map, id, hf.emptied]

theorem finish (limit : Option Nat) (p : Pause) (m : Machine) :
    finish limit p (f m) = (Machine.finish limit p m).map (Prod.map id f) := by
  cases p with
  | spent => cases limit <;> rfl
  | faulted g => rfl
  | awaitingInput | halted => simp [Machine.finish, hf.output, hf.mode, hf.emptied]

/-- The change commutes with a run. -/
theorem run (fuel : Nat) (m : Machine) :
    (f m).run fuel = (m.run fuel).map (Prod.map id f) := by
  by_cases hm : m.mode = .halted
  · have hm' : (f m).mode = .halted := (hf.mode m).trans hm
    rw [run_of_halted hm, run_of_halted hm']
    rfl
  · have hm' : (f m).mode ≠ .halted := by rwa [hf.mode]
    rcases ha : m.advance (m.limit.getD fuel) with ⟨p, m₁⟩
    have ha' : (f m).advance ((f m).limit.getD fuel) = (p, f m₁) := by
      rw [hf.limit, advance_map hf.step, ha]
    rw [run_of_advance hm ha, run_of_advance hm' ha', hf.limit, hf.finish]

theorem queue (m : Machine) (ws : List Word) : (f m).queue ws = (m.queue ws).map f := by
  by_cases hm : m.mode = .halted
  · have hm' : (f m).mode = .halted := (hf.mode m).trans hm
    rw [queue_of_halted hm, queue_of_halted hm']
    rfl
  · have hm' : (f m).mode ≠ .halted := by rwa [hf.mode]
    unfold Machine.queue
    rw [if_neg hm, if_neg hm']
    cases ws.find? (fun w => !w.isNarrow) with
    | some w => rfl
    | none => exact congrArg Except.ok (hf.feed m ws).symm

/-- The change commutes with a run that brings input along. -/
theorem runWords (fuel : Nat) (m : Machine) (ws : List Word) :
    (f m).runWords fuel ws = (m.runWords fuel ws).map (Prod.map id f) := by
  unfold Machine.runWords
  rw [hf.queue]
  cases m.queue ws with
  | ok m₁ => exact hf.run fuel m₁
  | error e => rfl

end Carried

end Machine

/-! ### Debuggers -/

namespace Debugger

open Machine (Carried)

/-- The debugger whose machine is changed. -/
def through (f : Machine → Machine) (d : Debugger) : Debugger := d.holding (f d.machine)

variable {f : Machine → Machine} (hf : Carried f)

include hf

theorem advanceTo_carried (bs : Breakpoints) (n : Nat) (m : Machine) :
    advanceTo bs n (f m) = ((advanceTo bs n m).1, f (advanceTo bs n m).2) := by
  induction n generalizing m with
  | zero => rfl
  | succ n ih =>
      have hstep := hf.step m
      rcases m.step_goesOn_or_pauses with ⟨o, m₁, hs, ho⟩ | ⟨p, r, m₁, hs, hp⟩
      · rw [hs] at hstep
        rw [advanceTo_succ_of_goesOn hs ho, advanceTo_succ_of_goesOn hstep ho, hf.pc]
        split
        next => rfl
        next => exact ih m₁
      · rw [hs] at hstep
        rw [advanceTo, advanceTo, hs, hstep]
        cases p with
        | spent => cases hp
        | awaitingInput | halted | faulted g =>
            cases hp
            rfl

/-- The change commutes with continuing. -/
theorem resume_through (fuel : Nat) (d : Debugger) (limit : Option Nat) :
    (d.through f).resume fuel limit = (d.resume fuel limit).map (Prod.map id (through f)) := by
  have hadvance : advanceTo (d.through f).breakpoints (limit.getD fuel) (d.through f).machine = _ :=
    advanceTo_carried hf d.breakpoints (limit.getD fuel) d.machine
  unfold resume
  simp only [hadvance]
  rcases advanceTo d.breakpoints (limit.getD fuel) d.machine with ⟨r, m⟩
  cases r with
  | error g => rfl
  | ok reason =>
      cases reason with
      | stepLimit => cases limit <;> rfl
      | breakpoint pc | halted | awaitingInput => rfl

theorem takeOutput_through (d : Debugger) :
    (d.through f).takeOutput = Prod.map id (through f) d.takeOutput := by
  have h : (d.through f).machine.takeOutput = _ := hf.takeOutput d.machine
  simp only [takeOutput, h]
  rfl

theorem listingAt_through (d : Debugger) (addr : Word) (count : Nat) :
    (d.through f).listingAt addr count = d.listingAt addr count := by
  have hwords : (d.through f).machine.core.memory.words = d.machine.core.memory.words :=
    hf.words d.machine
  unfold listingAt
  rw [hwords]

theorem currentLine_through (d : Debugger) : (d.through f).currentLine = d.currentLine := by
  have hpc : (d.through f).machine.core.pc = d.machine.core.pc := hf.pc d.machine
  unfold currentLine nextLine?
  rw [hpc, listingAt_through hf]

theorem setRegister_through (d : Debugger) (index : Nat) (value : Word) :
    (d.through f).setRegister index value = (d.setRegister index value).map (through f) := by
  unfold setRegister
  split
  · rfl
  · split
    next h => exact congrArg (fun m => Except.ok (d.holding m)) (hf.setRegister d.machine ⟨index, h⟩ value).symm
    next => rfl

theorem poke_through (d : Debugger) (addr value : Word) :
    (d.through f).poke addr value = (d.poke addr value).map (through f) := by
  unfold poke
  split
  · rfl
  · exact congrArg (fun m => Except.ok (d.holding m)) (hf.write d.machine addr value).symm

omit hf in
theorem settle_through {ε : Type} (d : Debugger) (reply : Except ε Unit → Reply)
    (x : Except ε Debugger) :
    (d.through f).settle reply (x.map (through f)) = Prod.map id (through f) (d.settle reply x) := by
  cases x <;> rfl

omit hf in
theorem editText_through (d : Debugger) (done : String) (x : Except EditError Debugger) :
    (d.through f).editText done (x.map (through f)) = Prod.map id (through f) (d.editText done x) := by
  cases x <;> rfl

theorem stepText_through (d : Debugger) (count : Nat) :
    (d.through f).stepText count = Prod.map id (through f) (d.stepText count) := by
  have hadvance : (d.through f).machine.advance count = _ :=
    Machine.advance_map hf.step count d.machine
  unfold stepText
  rw [hadvance]
  rcases d.machine.advance count with ⟨p, m⟩
  have htake : takeOutput ⟨f m, (d.through f).breakpoints⟩ =
      Prod.map id (through f) (takeOutput ⟨m, d.breakpoints⟩) :=
    takeOutput_through hf ⟨m, d.breakpoints⟩
  cases p with
  | faulted g => rfl
  | spent | awaitingInput | halted =>
      simp only [htake, Prod.map_fst, Prod.map_snd, id, currentLine_through hf]
      rfl

theorem resumeText_through (fuel : Nat) (d : Debugger) :
    (d.through f).resumeText fuel = (d.resumeText fuel).map (Prod.map id (through f)) := by
  unfold resumeText
  rw [resume_through hf, Option.map_map, Option.map_map]
  congr 1
  funext x
  obtain ⟨r, d'⟩ := x
  cases r with
  | error g => rfl
  | ok reason =>
      simp only [Function.comp, Prod.map, id, takeOutput_through hf]

end Debugger

/-- Whether a command shows lines of the trace. -/
def Command.showsTrace : Command → Bool
  | .report | .history => true
  | _ => false

/-- The change commutes with a command that does not show the trace. -/
theorem Debugger.perform_through {f : Machine → Machine} (hf : Machine.Carried f) {c : Command}
    (hc : c.showsTrace = false) (fuel : Nat) (d : Debugger) :
    (d.through f).perform fuel c = (d.perform fuel c).map (Prod.map id (through f)) := by
  cases c with
  | step count => exact congrArg some (stepText_through hf d count)
  | resume => exact resumeText_through hf fuel d
  | report | history => cases hc
  | list addr count =>
      have hpc : (d.through f).machine.core.pc = d.machine.core.pc := hf.pc d.machine
      have hwords : (d.through f).machine.core.memory.words = d.machine.core.memory.words :=
        hf.words d.machine
      simp only [perform, listText_eq, hpc, hwords]
      rfl
  | peek a =>
      have hread : (d.through f).machine.core.read a = d.machine.core.read a := hf.read d.machine a
      simp only [perform, hread]
      rfl
  | setRegister r v =>
      simp only [perform, setRegister_through hf, editText_through, Option.map_some]
  | poke a v =>
      simp only [perform, poke_through hf, editText_through, Option.map_some]
  | addBreakpoint a | removeBreakpoint a | breakpoints => rfl

/-! ### Operations -/

namespace Operation

/-- Whether an operation shows lines of the trace. -/
def showsTrace : Operation → Bool
  | .command line =>
    match Command.read line with
    | .ok c => c.showsTrace
    | .error _ => false
  | _ => false

variable {f : Machine → Machine} (hf : Machine.Carried f)

include hf

theorem command_through {line : String} (h : (command line).showsTrace = false) (fuel : Nat)
    (d : Debugger) :
    (d.through f).command fuel line =
      (d.command fuel line).map (Prod.map id (Debugger.through f)) := by
  unfold showsTrace at h
  unfold Debugger.command
  cases hread : Command.read line with
  | error e => rfl
  | ok c =>
      simp only [hread] at h
      exact Debugger.perform_through hf h fuel d

theorem queue_through (d : Debugger) (ws : List Word) :
    ((d.through f).machine.queue ws).map (d.through f).holding =
      ((d.machine.queue ws).map d.holding).map (Debugger.through f) := by
  have h : (d.through f).machine.queue ws = _ := hf.queue d.machine ws
  rw [h]
  cases d.machine.queue ws <;> rfl

omit hf in
theorem afterRun_through (d : Debugger) (x : Option (Except Error RunOutput × Machine)) :
    (x.map (Prod.map id f)).map (d.through f).afterRun =
      (x.map d.afterRun).map (Prod.map id (Debugger.through f)) := by
  cases x <;> rfl

/-- The change commutes with an operation that neither changes nor shows a trace. -/
theorem apply_through {op : Operation} (ht : op.isTracing = false) (hs : op.showsTrace = false)
    (fuel : Nat) (d : Debugger) :
    op.apply fuel (d.through f) = (op.apply fuel d).map (Prod.map id (Debugger.through f)) := by
  cases op with
  | queue ws =>
      simp only [apply, queue_through hf, Debugger.settle_through, Option.map_some]
  | queueLine text =>
      have hfeed (d : Debugger) :
          d.feedLine text = (d.machine.queue (Text.lineUnits text)).map d.holding := rfl
      simp only [apply, hfeed, queue_through hf, Debugger.settle_through, Option.map_some]
  | run =>
      have h : (d.through f).machine.run fuel = _ := hf.run fuel d.machine
      simp only [apply, h, afterRun_through]
  | runWords ws =>
      have h : (d.through f).machine.runWords fuel ws = _ := hf.runWords fuel d.machine ws
      simp only [apply, h, afterRun_through]
  | runLine text =>
      have h : (d.through f).machine.runLine fuel text = _ :=
        hf.runWords fuel d.machine (Text.lineUnits text)
      simp only [apply, h]
      exact afterRun_through d _
  | step =>
      have h : (d.through f).machine.step = _ := hf.step d.machine
      simp only [apply, Debugger.step, h]
      rfl
  | resume limit =>
      simp only [apply, Debugger.resume_through hf]
      cases d.resume fuel limit <;> rfl
  | takeWords =>
      have h : (d.through f).machine.takeOutput = _ := hf.takeOutput d.machine
      simp only [apply, h]
      rfl
  | takeText =>
      simp only [apply, Debugger.takeOutput_through hf]
      rfl
  | command line =>
      simp only [apply, command_through hf hs]
      cases d.command fuel line <;> rfl
  | setLimit limit =>
      have h : (d.through f).machine.setLimit limit = _ := (hf.setLimit d.machine limit).symm
      simp only [apply, h]
      rfl
  | setRegister index value =>
      simp only [apply, Debugger.setRegister_through hf, Debugger.settle_through, Option.map_some]
  | poke addr value =>
      simp only [apply, Debugger.poke_through hf, Debugger.settle_through, Option.map_some]
  | enableTrace capacity | disableTrace | clearTrace => cases ht
  | addBreakpoint addr | removeBreakpoint addr => rfl

end Operation

end WordMachine
