import WordMachine.Proofs.Operation

/-! # The course of an operation

Whatever an operation is, it first readies the machine, then takes some steps, and at last may hand
out the output.  `Operation.course` says so once for all operations, and what holds of these three
parts holds of whole transcripts.

* `Machine.Executes` : steps, with the machines from which they are taken.
* `Operation.Readies` : what an operation does to the machine before it takes a step.
* `Operation.course` : the three parts of an operation.
* `Debugger.transcript_iff_inTurn` : a transcript is made by asking for its operations in turn. -/

namespace WordMachine

/-! ### Executions -/

namespace Machine

/-- `Executes m ms m'`: steps lead from `m` to `m'`, whether they go on or not, and `ms` are the
machines from which they are taken. -/
inductive Executes : Machine → List Machine → Machine → Prop
  | nil (m : Machine) : Executes m [] m
  | cons {m m' : Machine} {ms : List Machine} :
      Executes m.next ms m' → Executes m (m :: ms) m'

theorem attempts_succ_of_goesOn {m m₁ : Machine} {o : Outcome} (h : m.step = (.ok o, m₁))
    (ho : o.GoesOn) (n : Nat) : m.attempts (n + 1) = m :: m₁.attempts n := by
  rcases ho with rfl | rfl
  · simp only [attempts, h]
  · simp only [attempts, h]

theorem attempts_succ_of_result {m m₁ : Machine} {r : Except Fault Outcome} {p : Pause}
    (h : m.step = (r, m₁)) (hp : p.result? = some r) (n : Nat) : m.attempts (n + 1) = [m] := by
  cases p with
  | spent => cases hp
  | awaitingInput | halted | faulted f =>
      cases hp
      simp only [attempts, h]

theorem Executes.of_step {m m' : Machine} {r : Except Fault Outcome} (h : m.step = (r, m')) :
    Executes m [m] m' := by
  have hnext : m.next = m' := congrArg Prod.snd h
  exact .cons (hnext ▸ .nil m')

theorem Executes.cons_of_step {m m₁ m' : Machine} {ms : List Machine}
    {r : Except Fault Outcome} (h : m.step = (r, m₁)) (hrest : Executes m₁ ms m') :
    Executes m (m :: ms) m' := by
  have hnext : m.next = m₁ := congrArg Prod.snd h
  exact .cons (hnext ▸ hrest)

/-- A stretch of execution takes its steps from the machines that were said. -/
theorem executes_of_advance {m m' : Machine} {n : Nat} {p : Pause} (h : m.advance n = (p, m')) :
    Executes m (m.attempts n) m' := by
  induction n generalizing m with
  | zero =>
      cases h
      exact .nil _
  | succ n ih =>
      rcases m.step_goesOn_or_pauses with ⟨o, m₁, hs, ho⟩ | ⟨q, r, m₁, hs, hq⟩
      · rw [advance_succ_of_goesOn hs ho] at h
        rw [attempts_succ_of_goesOn hs ho]
        exact .cons_of_step hs (ih h)
      · rw [advance_succ_of_result hs hq] at h
        cases h
        rw [attempts_succ_of_result hs hq]
        exact .of_step hs

/-- A step that fails ends the stretch of execution. -/
theorem advance_of_mem_attempts {m x : Machine} {n : Nat} {f : Fault} (hx : x ∈ m.attempts n)
    (hf : x.step.1 = .error f) : (m.advance n).1 = .faulted f := by
  induction n generalizing m with
  | zero => cases hx
  | succ n ih =>
      rcases m.step_goesOn_or_pauses with ⟨o, m₁, hs, ho⟩ | ⟨q, r, m₁, hs, hq⟩
      · rw [attempts_succ_of_goesOn hs ho] at hx
        rw [advance_succ_of_goesOn hs ho]
        rcases List.mem_cons.mp hx with rfl | hrest
        · rw [hs] at hf
          cases hf
        · exact ih hrest
      · rw [attempts_succ_of_result hs hq] at hx
        rw [advance_succ_of_result hs hq]
        obtain rfl := List.mem_singleton.mp hx
        rw [hs] at hf
        obtain rfl : r = .error f := hf
        exact Pause.result?_injective hq

/-- A run takes its steps from the machines that were said. -/
theorem executes_of_run {m m' : Machine} {fuel : Nat} {r : Except Error RunOutput}
    (h : m.run fuel = some (r, m')) :
    Executes m (m.runAttempts fuel) (m'.owing (RunOutput.handedOut r)) := by
  unfold runAttempts
  rcases run_eq_some h with ⟨hm, rfl, rfl⟩ | ⟨hm, p, m₁, ha, hfinished⟩
  · rw [if_pos hm]
    show Executes m' [] (m'.owing [])
    rw [owing_nil]
    exact .nil m'
  · rw [if_neg hm]
    have hexec := executes_of_advance ha
    cases hfinished with
    | spent l => exact (owing_nil _).symm ▸ hexec
    | faulted f => exact (owing_nil _).symm ▸ hexec
    | awaitingInput | halted =>
        -- The steps end in the machine that still has the output which is handed out.
        exact m₁.owing_output.symm ▸ hexec

theorem accepted_of_narrow {m : Machine} {ws : List Word} (hm : m.mode ≠ .halted)
    (hw : ∀ w ∈ ws, w.toNat ≤ 32767) : m.accepted ws = ws :=
  if_pos ⟨hm, by simpa using hw⟩

theorem accepted_of_halted {m : Machine} (hm : m.mode = .halted) (ws : List Word) :
    m.accepted ws = [] :=
  if_neg (fun h => h.1 hm)

/-- A batch that is not refused is appended, or ignored by a machine that has halted. -/
theorem eq_feed_of_queue {m m' : Machine} {ws : List Word} (h : m.queue ws = .ok m') :
    m' = m.feed (m.accepted ws) := by
  rcases queue_eq_ok_iff.mp h with ⟨hm, rfl⟩ | ⟨hm, hw, rfl⟩
  · rw [accepted_of_halted hm, feed_nil]
  · rw [accepted_of_narrow hm hw]

theorem accepted_of_queue_error {m : Machine} {ws : List Word} {e : Error}
    (h : m.queue ws = .error e) : m.accepted ws = [] := by
  unfold accepted
  apply if_neg
  rintro ⟨hm, hw⟩
  rw [queue_of_narrow hm (by simpa using hw)] at h
  cases h

theorem accepted_nil (m : Machine) : m.accepted [] = [] := ite_self _

end Machine

namespace Debugger

theorem attemptsTo_succ_of_goesOn {m m₁ : Machine} {o : Outcome} (h : m.step = (.ok o, m₁))
    (ho : o.GoesOn) (bs : Breakpoints) (n : Nat) :
    attemptsTo bs (n + 1) m =
      m :: if bs.contains m₁.core.pc then [] else attemptsTo bs n m₁ := by
  rcases ho with rfl | rfl
  · rw [attemptsTo, h]
  · rw [attemptsTo, h]

theorem attemptsTo_succ_of_result {m m₁ : Machine} {r : Except Fault Outcome} {p : Pause}
    (h : m.step = (r, m₁)) (hp : p.result? = some r) (bs : Breakpoints) (n : Nat) :
    attemptsTo bs (n + 1) m = [m] := by
  cases p with
  | spent => cases hp
  | awaitingInput | halted | faulted f =>
      cases hp
      rw [attemptsTo, h]

/-- Continuing takes its steps from the machines that were said. -/
theorem executes_of_advanceTo {bs : Breakpoints} {n : Nat} {m m' : Machine}
    {r : Except Fault StopReason} (h : advanceTo bs n m = (r, m')) :
    Machine.Executes m (attemptsTo bs n m) m' := by
  induction n generalizing m with
  | zero =>
      cases h
      exact .nil _
  | succ n ih =>
      rcases m.step_goesOn_or_pauses with ⟨o, m₁, hs, ho⟩ | ⟨p, s, m₁, hs, hp⟩
      · rw [advanceTo_succ_of_goesOn hs ho] at h
        rw [attemptsTo_succ_of_goesOn hs ho]
        split at h
        next hb =>
          cases h
          rw [if_pos hb]
          exact .of_step hs
        next hb =>
          rw [if_neg hb]
          exact .cons_of_step hs (ih h)
      · obtain ⟨s', hs', _⟩ := advanceTo_succ_of_result hs hp bs n
        rw [hs'] at h
        cases h
        rw [attemptsTo_succ_of_result hs hp]
        exact .of_step hs

/-- A step that fails ends continuing. -/
theorem advanceTo_of_mem_attemptsTo {bs : Breakpoints} {n : Nat} {m x : Machine} {f : Fault}
    (hx : x ∈ attemptsTo bs n m) (hf : x.step.1 = .error f) : (advanceTo bs n m).1 = .error f := by
  induction n generalizing m with
  | zero => cases hx
  | succ n ih =>
      rcases m.step_goesOn_or_pauses with ⟨o, m₁, hs, ho⟩ | ⟨p, s, m₁, hs, hp⟩
      · rw [attemptsTo_succ_of_goesOn hs ho] at hx
        rw [advanceTo_succ_of_goesOn hs ho]
        rcases List.mem_cons.mp hx with rfl | hrest
        · rw [hs] at hf
          cases hf
        · split at hrest
          next => cases hrest
          next hb =>
            rw [if_neg hb]
            exact ih hrest
      · rw [attemptsTo_succ_of_result hs hp] at hx
        obtain rfl := List.mem_singleton.mp hx
        rw [hs] at hf
        obtain rfl : s = .error f := hf
        rw [advanceTo, hs]

end Debugger

/-! ### The course of an operation -/

namespace Operation

/-- What an operation does to the machine before it takes a step: it brings in input, changes
registers and words of memory only if it edits them, and changes the trace only if it is about
that. -/
structure Readies (op : Operation) (d : Debugger) (m : Machine) : Prop where
  input : m.input = d.machine.input ++ op.accepted d
  output : m.output = d.machine.output
  mode : m.mode = d.machine.mode
  executed : m.executed = d.machine.executed
  trace : op.isTracing = false → m.trace = d.machine.trace
  loaded : m.core.memory.loaded = d.machine.core.memory.loaded
  core : op.edits = false → m.core = d.machine.core

/-- An operation readies the machine, takes its steps, and hands out what it hands out. -/
def Course (fuel : Nat) (d : Debugger) (op : Operation) (r : Reply) (d' : Debugger) : Prop :=
  ∃ m, op.Readies d m ∧
    Machine.Executes m (op.attempts fuel d) (d'.machine.owing (op.collected fuel d r))

section

variable {op : Operation} {fuel : Nat} {d d' : Debugger} {r : Reply}

theorem readies_self (h : op.batch = []) : op.Readies d d.machine where
  input := by
    unfold accepted
    rw [h, Machine.accepted_nil, List.append_nil]
  output := rfl
  mode := rfl
  executed := rfl
  trace := fun _ => rfl
  loaded := rfl
  core := fun _ => rfl

/-- An operation that only readies the machine. -/
theorem course_of_readies (hr : op.Readies d d'.machine) (ha : op.attempts fuel d = [])
    (hc : op.collected fuel d r = []) : op.Course fuel d r d' := by
  refine ⟨_, hr, ?_⟩
  rw [ha, hc, Machine.owing_nil]
  exact .nil _

/-- An operation that brings no input and takes steps. -/
theorem course_of_executes {m : Machine} (hb : op.batch = [])
    (hm : Machine.Executes d.machine (op.attempts fuel d) m)
    (hc : d'.machine.owing (op.collected fuel d r) = m) : op.Course fuel d r d' :=
  ⟨_, readies_self hb, hc.symm ▸ hm⟩

theorem readies_of_queue {m : Machine} (h : d.machine.queue op.batch = .ok m) : op.Readies d m := by
  obtain rfl := Machine.eq_feed_of_queue h
  exact ⟨rfl, rfl, rfl, rfl, fun _ => rfl, rfl, fun _ => rfl⟩

theorem readies_of_refusal {e : Error} (h : d.machine.queue op.batch = .error e) :
    op.Readies d d.machine where
  input := by
    unfold accepted
    rw [Machine.accepted_of_queue_error h, List.append_nil]
  output := rfl
  mode := rfl
  executed := rfl
  trace := fun _ => rfl
  loaded := rfl
  core := fun _ => rfl

end

/-- Queueing only readies the machine. -/
theorem course_of_queue {op : Operation} {fuel : Nat} {d d' : Debugger} {r : Reply}
    (ha : op.attempts fuel d = []) (hc : ∀ e, op.collected fuel d (.queued e) = [])
    (h : some (d.settle .queued ((d.machine.queue op.batch).map d.holding)) = some (r, d')) :
    op.Course fuel d r d' := by
  cases hq : d.machine.queue op.batch with
  | ok m =>
      rw [hq] at h
      cases h
      exact course_of_readies (readies_of_queue hq) ha (hc _)
  | error e =>
      rw [hq] at h
      cases h
      exact course_of_readies (readies_of_refusal hq) ha (hc _)

/-- A run that brings input along readies the machine, and then takes its steps. -/
theorem course_of_runWords {op : Operation} {fuel : Nat} {d : Debugger}
    {r : Except Error RunOutput} {m : Machine}
    (ha : op.attempts fuel d = d.machine.runWordsAttempts fuel op.batch)
    (h : d.machine.runWords fuel op.batch = some (r, m)) :
    op.Course fuel d (.ran r) (d.holding m) := by
  have hc : op.collected fuel d (.ran r) = RunOutput.handedOut r := by
    unfold collected
    rfl
  unfold Machine.runWords at h
  unfold Machine.runWordsAttempts at ha
  cases hq : d.machine.queue op.batch with
  | ok m₁ =>
      rw [hq] at h ha
      refine ⟨m₁, readies_of_queue hq, ?_⟩
      rw [ha, hc]
      exact Machine.executes_of_run h
  | error e =>
      rw [hq] at h ha
      cases h
      exact course_of_readies (readies_of_refusal hq) ha hc

/-! ### Edits -/

/-- One machine differs from another in its core at most, and has as much loaded. -/
def Edited (m m' : Machine) : Prop :=
  ∃ c, m' = { m with core := c } ∧ c.memory.loaded = m.core.memory.loaded

theorem edited_of_setRegister {d d' : Debugger} {index : Nat} {value : Word}
    (h : d.setRegister index value = .ok d') : Edited d.machine d'.machine := by
  unfold Debugger.setRegister at h
  split at h
  · cases h
  · split at h
    · cases h
      exact ⟨_, rfl, rfl⟩
    · cases h

theorem edited_of_poke {d d' : Debugger} {addr value : Word}
    (h : d.poke addr value = .ok d') : Edited d.machine d'.machine := by
  unfold Debugger.poke at h
  split at h
  · cases h
  · cases h
    exact ⟨_, rfl, Memory.loaded_write _ _ _⟩

/-- An edit changes the core at most, and nothing if it is refused. -/
theorem readies_of_edit {op : Operation} {d d' : Debugger} {x : Except EditError Debugger}
    (hb : op.batch = []) (he : op.edits = true)
    (hx : ∀ d₁, x = .ok d₁ → Edited d.machine d₁.machine)
    (h : x = .ok d' ∨ d' = d) : op.Readies d d'.machine := by
  rcases h with hok | rfl
  · obtain ⟨c, hc, hloaded⟩ := hx d' hok
    rw [hc]
    refine ⟨(readies_self hb).input, rfl, rfl, rfl, fun _ => rfl, hloaded, ?_⟩
    intro hne
    rw [he] at hne
    cases hne
  · exact readies_self hb

theorem settle_eq {ε : Type} {d d' : Debugger} {reply : Except ε Unit → Reply}
    {x : Except ε Debugger} {r : Reply} (h : some (d.settle reply x) = some (r, d')) :
    (x = .ok d' ∨ d' = d) ∧ ∃ e, r = reply e := by
  cases x with
  | ok d₁ =>
      cases h
      exact ⟨Or.inl rfl, _, rfl⟩
  | error e =>
      cases h
      exact ⟨Or.inr rfl, _, rfl⟩

theorem editText_eq {d d' : Debugger} {x : Except EditError Debugger} {done text : String}
    (h : some (d.editText done x) = some (text, d')) : x = .ok d' ∨ d' = d := by
  cases x with
  | ok d₁ =>
      cases h
      exact Or.inl rfl
  | error e =>
      cases h
      exact Or.inr rfl

/-! ### Commands -/

section

variable {fuel : Nat} {d d' : Debugger} {line text : String}

theorem collected_command {c : Command} (hread : Command.read line = .ok c) (r : String) :
    (command line).collected fuel d (.text r) = (d.shown fuel c).2 := by
  simp only [collected, hread]

theorem edits_command {c : Command} (hread : Command.read line = .ok c) :
    (command line).edits = c.edits := by
  simp only [edits, hread]

theorem course_of_stepText {count : Nat} (hread : Command.read line = .ok (.step count))
    (h : d.stepText count = (text, d')) : (command line).Course fuel d (.text text) d' := by
  have ha : (command line).attempts fuel d = d.machine.attempts count := by
    simp only [attempts, hread]
  rcases hadv : d.machine.advance count with ⟨p, m⟩
  obtain ⟨ws, hshown, hreported⟩ := Debugger.reported_of_stepText fuel hadv h
  refine course_of_executes rfl (ha ▸ Machine.executes_of_advance hadv) ?_
  rw [collected_command hread, hshown]
  exact hreported.owing

theorem course_of_resumeText (hread : Command.read line = .ok .resume)
    (h : d.resumeText fuel = some (text, d')) :
    (command line).Course fuel d (.text text) d' := by
  have ha : (command line).attempts fuel d =
      Debugger.attemptsTo d.breakpoints fuel d.machine := by
    simp only [attempts, hread]
  rcases hadv : Debugger.advanceTo d.breakpoints fuel d.machine with ⟨r, m⟩
  obtain ⟨ws, hshown, hreported⟩ := Debugger.reported_of_resumeText hadv h
  refine course_of_executes rfl (ha ▸ Debugger.executes_of_advanceTo hadv) ?_
  rw [collected_command hread, hshown]
  exact hreported.owing

/-- A command that neither executes instructions nor edits leaves the machine as it is. -/
theorem course_of_still {c : Command} (hread : Command.read line = .ok c)
    (ha : (command line).attempts fuel d = []) (hc : (d.shown fuel c).2 = [])
    (hm : d'.machine = d.machine) : (command line).Course fuel d (.text text) d' := by
  refine course_of_readies ?_ ha ?_
  · rw [hm]
    exact readies_self rfl
  · rw [collected_command hread, hc]

theorem course_of_edit {c : Command} {x : Except EditError Debugger}
    (hread : Command.read line = .ok c) (he : c.edits = true)
    (ha : (command line).attempts fuel d = []) (hc : (d.shown fuel c).2 = [])
    (hx : ∀ d₁, x = .ok d₁ → Edited d.machine d₁.machine)
    (h : x = .ok d' ∨ d' = d) : (command line).Course fuel d (.text text) d' := by
  refine course_of_readies (readies_of_edit rfl ?_ hx h) ha ?_
  · rw [edits_command hread, he]
  · rw [collected_command hread, hc]

theorem course_of_command (h : d.command fuel line = some (text, d')) :
    (command line).Course fuel d (.text text) d' := by
  unfold Debugger.command at h
  cases hread : Command.read line with
  | error e =>
      rw [hread] at h
      cases h
      refine course_of_readies (readies_self rfl) ?_ ?_
      · simp only [attempts, hread]
      · simp only [collected, hread]
  | ok c =>
      rw [hread] at h
      cases c with
      | step count => exact course_of_stepText hread (Option.some.inj h)
      | resume => exact course_of_resumeText hread h
      | setRegister r v =>
          refine course_of_edit hread rfl ?_ rfl (fun _ => edited_of_setRegister) (editText_eq h)
          simp only [attempts, hread]
      | poke a v =>
          refine course_of_edit hread rfl ?_ rfl (fun _ => edited_of_poke) (editText_eq h)
          simp only [attempts, hread]
      | report | history | list addr count | breakpoints | peek a | addBreakpoint a
      | removeBreakpoint a =>
          cases h
          refine course_of_still hread ?_ rfl rfl
          simp only [attempts, hread]

end

/-- **What an operation does.**  It readies the machine, takes its steps, and hands out what it
hands out. -/
theorem course {op : Operation} {fuel : Nat} {d d' : Debugger} {r : Reply}
    (h : op.apply fuel d = some (r, d')) : op.Course fuel d r d' := by
  cases op with
  | queue ws | queueLine text => exact course_of_queue rfl (fun _ => rfl) h
  | run =>
      obtain ⟨⟨r, m⟩, hrun, he⟩ := Option.map_eq_some_iff.mp h
      cases he
      exact course_of_executes rfl (Machine.executes_of_run hrun) rfl
  | runWords ws | runLine text =>
      obtain ⟨⟨r, m⟩, hrun, he⟩ := Option.map_eq_some_iff.mp h
      cases he
      exact course_of_runWords rfl hrun
  | step =>
      cases h
      exact course_of_executes rfl (.of_step rfl) (Machine.owing_nil _)
  | resume limit =>
      obtain ⟨⟨r, d₁⟩, hresume, he⟩ := Option.map_eq_some_iff.mp h
      cases he
      have hexec := Debugger.executes_of_advanceTo (Debugger.resume_eq_some hresume).1
      exact course_of_executes rfl hexec (Machine.owing_nil _)
  | takeWords | takeText =>
      cases h
      exact course_of_executes rfl (.nil _) d.machine.owing_output
  | command line =>
      obtain ⟨⟨text, d₁⟩, hcommand, he⟩ := Option.map_eq_some_iff.mp h
      cases he
      exact course_of_command hcommand
  | setRegister index value =>
      obtain ⟨hd', e, rfl⟩ := settle_eq h
      exact course_of_readies (readies_of_edit rfl rfl (fun _ => edited_of_setRegister) hd') rfl rfl
  | poke addr value =>
      obtain ⟨hd', e, rfl⟩ := settle_eq h
      exact course_of_readies (readies_of_edit rfl rfl (fun _ => edited_of_poke) hd') rfl rfl
  | setLimit limit =>
      cases h
      exact course_of_readies
        ⟨(readies_self rfl).input, rfl, rfl, rfl, fun _ => rfl, rfl, fun _ => rfl⟩ rfl rfl
  | enableTrace capacity | disableTrace | clearTrace =>
      cases h
      refine course_of_readies
        ⟨(readies_self rfl).input, rfl, rfl, rfl, ?_, rfl, fun _ => rfl⟩ rfl rfl
      intro htracing
      cases htracing
  | addBreakpoint addr | removeBreakpoint addr =>
      cases h
      exact course_of_readies (readies_self rfl) rfl rfl

end Operation

/-! ### Calls and fuel -/

namespace Machine

/-- A stretch of execution that has come to a stop takes no further steps. -/
theorem attempts_mono {m m' : Machine} {n k : Nat} {p : Pause} (h : m.advance n = (p, m'))
    (hp : p ≠ .spent) (hk : n ≤ k) : m.attempts k = m.attempts n := by
  induction n generalizing m k with
  | zero =>
      cases h
      exact absurd rfl hp
  | succ n ih =>
      obtain ⟨j, rfl⟩ : ∃ j, k = j + 1 := ⟨k - 1, by omega⟩
      rcases m.step_goesOn_or_pauses with ⟨o, m₁, hs, ho⟩ | ⟨q, r, m₁, hs, hq⟩
      · rw [advance_succ_of_goesOn hs ho] at h
        rw [attempts_succ_of_goesOn hs ho, attempts_succ_of_goesOn hs ho, ih h (by omega)]
      · rw [attempts_succ_of_result hs hq, attempts_succ_of_result hs hq]

theorem runAttempts_mono {m : Machine} {fuel k : Nat} {x : Except Error RunOutput × Machine}
    (h : m.run fuel = some x) (hk : fuel ≤ k) : m.runAttempts k = m.runAttempts fuel := by
  obtain ⟨r, m'⟩ := x
  unfold runAttempts
  rcases run_eq_some h with ⟨hm, _⟩ | ⟨hm, p, m₁, ha, _⟩
  · rw [if_pos hm, if_pos hm]
  · rw [if_neg hm, if_neg hm]
    cases hl : m.limit with
    | some l => rfl
    | none =>
        rw [hl, Option.getD_none] at ha
        rw [run_of_unlimited hm hl ha] at h
        have hp : p ≠ .spent := by
          rintro rfl
          cases h
        exact attempts_mono ha hp hk

theorem runWordsAttempts_mono {m : Machine} {fuel k : Nat} {ws : List Word}
    {x : Except Error RunOutput × Machine} (h : m.runWords fuel ws = some x) (hk : fuel ≤ k) :
    m.runWordsAttempts k ws = m.runWordsAttempts fuel ws := by
  unfold runWords at h
  unfold runWordsAttempts
  cases hq : m.queue ws with
  | error e => rfl
  | ok m₁ =>
      rw [hq] at h
      exact runAttempts_mono h hk

end Machine

namespace Debugger

theorem attemptsTo_mono {bs : Breakpoints} {n k : Nat} {m m' : Machine} {r : Except Fault StopReason}
    (h : advanceTo bs n m = (r, m')) (hr : r ≠ .ok .stepLimit) (hk : n ≤ k) :
    attemptsTo bs k m = attemptsTo bs n m := by
  induction n generalizing m k with
  | zero =>
      cases h
      exact absurd rfl hr
  | succ n ih =>
      obtain ⟨j, rfl⟩ : ∃ j, k = j + 1 := ⟨k - 1, by omega⟩
      rcases m.step_goesOn_or_pauses with ⟨o, m₁, hs, ho⟩ | ⟨p, s, m₁, hs, hp⟩
      · rw [advanceTo_succ_of_goesOn hs ho] at h
        rw [attemptsTo_succ_of_goesOn hs ho, attemptsTo_succ_of_goesOn hs ho]
        split at h
        next hb => rw [if_pos hb, if_pos hb]
        next hb => rw [if_neg hb, if_neg hb, ih h (by omega)]
      · rw [attemptsTo_succ_of_result hs hp, attemptsTo_succ_of_result hs hp]

/-- Continuing without a bound ends by something other than the fuel. -/
theorem advanceTo_of_resumeText {fuel : Nat} {d : Debugger} {x : String × Debugger}
    (h : d.resumeText fuel = some x) :
    ∃ r m, advanceTo d.breakpoints fuel d.machine = (r, m) ∧ r ≠ .ok .stepLimit := by
  obtain ⟨⟨r, d'⟩, hresume, _⟩ := Option.map_eq_some_iff.mp h
  obtain ⟨ha, _, hr⟩ := resume_eq_some hresume
  exact ⟨r, d'.machine, ha, hr rfl⟩

end Debugger

namespace Operation

theorem attempts_mono {op : Operation} {fuel k : Nat} {d : Debugger} {x : Reply × Debugger}
    (h : op.apply fuel d = some x) (hk : fuel ≤ k) : op.attempts k d = op.attempts fuel d := by
  cases op with
  | run =>
      obtain ⟨y, hy, _⟩ := Option.map_eq_some_iff.mp h
      exact Machine.runAttempts_mono hy hk
  | runWords ws | runLine text =>
      obtain ⟨y, hy, _⟩ := Option.map_eq_some_iff.mp h
      exact Machine.runWordsAttempts_mono hy hk
  | resume limit =>
      obtain ⟨⟨r, d'⟩, hy, _⟩ := Option.map_eq_some_iff.mp h
      obtain ⟨ha, _, hr⟩ := Debugger.resume_eq_some hy
      cases limit with
      | some l => rfl
      | none => exact Debugger.attemptsTo_mono ha (hr rfl) hk
  | command line =>
      obtain ⟨y, hy, _⟩ := Option.map_eq_some_iff.mp h
      unfold Debugger.command at hy
      cases hread : Command.read line with
      | error e => simp only [attempts, hread]
      | ok c =>
          rw [hread] at hy
          cases c with
          | resume =>
              obtain ⟨r, m, ha, hr⟩ := Debugger.advanceTo_of_resumeText hy
              simp only [attempts, hread, Debugger.attemptsTo_mono ha hr hk]
          | _ => simp only [attempts, hread]
  | _ => rfl

theorem collected_mono {op : Operation} {fuel k : Nat} {d d' : Debugger} {r : Reply}
    (h : op.apply fuel d = some (r, d')) (hk : fuel ≤ k) :
    op.collected k d r = op.collected fuel d r := by
  cases op with
  | command line =>
      obtain ⟨⟨text, d₁⟩, hy, he⟩ := Option.map_eq_some_iff.mp h
      cases he
      unfold Debugger.command at hy
      cases hread : Command.read line with
      | error e => simp only [collected, hread]
      | ok c =>
          rw [hread] at hy
          rw [collected_command hread, collected_command hread]
          cases c with
          | resume =>
              obtain ⟨r, m, ha, hr⟩ := Debugger.advanceTo_of_resumeText hy
              simp only [Debugger.shown, ha, Debugger.advanceTo_mono ha hr hk]
          | _ => rfl
  | _ => cases r <;> rfl

/-- More fuel does not change a call. -/
theorem call_mono {op : Operation} {fuel k : Nat} {d : Debugger} {x : Call × Debugger}
    (h : op.call fuel d = some x) (hk : fuel ≤ k) : op.call k d = some x := by
  obtain ⟨c, d'⟩ := x
  obtain ⟨r, hr, rfl⟩ := call_eq_some_iff.mp h
  refine call_eq_some_iff.mpr ⟨r, apply_mono hr hk, ?_⟩
  rw [attempts_mono hr hk, collected_mono hr hk]

end Operation

/-- A transcript is made by asking for its operations in turn, with fuel that suffices for all of them. -/
theorem Debugger.transcript_iff_inTurn {d d' : Debugger} {cs : List Call} :
    Transcript d cs d' ↔
      ∃ fuel, inTurn (fun op d => op.call fuel d) (cs.map (·.operation)) d = some (cs, d') := by
  constructor
  · intro h
    induction h with
    | nil d => exact ⟨0, rfl⟩
    | @cons d d₁ d₂ op fuel c cs hcall _ ih =>
        obtain ⟨fuel', hrest⟩ := ih
        have hop : c.operation = op := by
          obtain ⟨r, _, rfl⟩ := Operation.call_eq_some_iff.mp hcall
          rfl
        refine ⟨max fuel fuel', inTurn_cons_eq_some_iff.mpr ⟨c, d₁, cs, ?_, ?_, rfl⟩⟩
        · subst hop
          exact Operation.call_mono hcall (Nat.le_max_left fuel fuel')
        · exact inTurn_mono (fun _ _ _ h => Operation.call_mono h (Nat.le_max_right fuel fuel')) hrest
  · rintro ⟨fuel, h⟩
    induction cs generalizing d with
    | nil =>
        cases h
        exact .nil _
    | cons c cs ih =>
        obtain ⟨y, d₁, zs, hcall, hrest, heq⟩ := inTurn_cons_eq_some_iff.mp h
        cases heq
        exact .cons hcall (ih hrest)

end WordMachine
