import WordMachine.Proofs.Effects
import WordMachine.Proofs.Operation

/-! # Faults leave no trace and stay

A step that fails leaves the machine in front of the failing instruction as if it had not been
tried, although the instruction may have taken words away before it fails.  Since the fault depends
on the core alone, every later attempt to go on fails in the same way, and changes nothing but the
input that it brings along.

* `Operation.Retries` : the operations that set the machine going again.
* `Machine.FailsForever` : all of them report a fault from now on.
* `Machine.faults_leave_no_trace` : the statement for instructions, single steps and runs. -/

namespace WordMachine

/-! ### Attempts to go on -/

/-- The error of the machine that a reply reports, if it does. -/
def Reply.error? : Reply → Option Error
  | .queued (.error e) | .ran (.error e) => some e
  | .stepped (.error f) | .stopped (.error f) => some (.fault f)
  | _ => none

theorem Machine.Stuck.resume {m : Machine} {f : Fault} (h : m.Stuck f) (bs : Breakpoints) {fuel : Nat}
    (hfuel : 0 < fuel) {limit : Option Nat} (hl : limit ≠ some 0) :
    (Debugger.mk m bs).resume fuel limit = some (.error f, ⟨m, bs⟩) := by
  obtain ⟨k, hk⟩ : ∃ k, limit.getD fuel = k + 1 := by
    cases limit with
    | none => exact ⟨fuel - 1, by simp only [Option.getD_none]; omega⟩
    | some l =>
        have hne : l ≠ 0 := fun hz => hl (congrArg some hz)
        exact ⟨l - 1, by simp only [Option.getD_some]; omega⟩
  simp [Debugger.resume, hk, Debugger.advanceTo, h.step]

namespace Operation

/-- An operation sets the machine going again and is not stopped by anything else: its input is
accepted, and it may take at least one step. -/
def Retries (m : Machine) (op : Operation) : Prop :=
  match op with
  | .step => True
  | .resume limit => limit ≠ some 0
  | .run | .runWords _ | .runLine _ => m.limit ≠ some 0 ∧ ∀ w ∈ op.batch, w.toNat ≤ 32767
  | _ => False

theorem apply_of_stuck {m : Machine} {f : Fault} (h : m.Stuck f) {op : Operation}
    (hop : op.Retries m) {fuel : Nat} (hfuel : 0 < fuel) (bs : Breakpoints) :
    ∃ r, op.apply fuel ⟨m, bs⟩ = some (r, ⟨m.feed op.batch, bs⟩) ∧ r.error? = some (.fault f) := by
  cases op with
  | step =>
      refine ⟨.stepped (.error f), ?_, rfl⟩
      simp only [apply, Debugger.step, h.step, batch, m.feed_nil]
  | resume limit =>
      refine ⟨.stopped (.error f), ?_, rfl⟩
      simp only [apply, h.resume bs hfuel hop, batch, m.feed_nil]
      rfl
  | run =>
      refine ⟨.ran (.error (.fault f)), ?_, rfl⟩
      simp only [apply, h.run hop.1 hfuel, batch, m.feed_nil]
      rfl
  | runWords ws =>
      have hrun : m.runWords fuel ws = _ := h.runWords hop.1 hop.2 hfuel
      refine ⟨.ran (.error (.fault f)), ?_, rfl⟩
      simp only [apply, hrun]
      rfl
  | runLine text =>
      have hrun : m.runLine fuel text = _ := h.runWords hop.1 hop.2 hfuel
      refine ⟨.ran (.error (.fault f)), ?_, rfl⟩
      simp only [apply, hrun]
      rfl
  | _ => exact hop.elim

end Operation

namespace Machine

/-- Whatever sets the machine going from now on reports a fault and leaves all but the input
unchanged. -/
def FailsForever (m : Machine) (f : Fault) : Prop :=
  ∀ fuel bs, 0 < fuel → ∀ ops : List Operation, (∀ op ∈ ops, op.Retries m) →
    ∃ replies, Operation.applyAll fuel ops ⟨m, bs⟩ =
        some (replies, ⟨m.feed (ops.flatMap Operation.batch), bs⟩) ∧
      replies.map Reply.error? = ops.map fun _ => some (.fault f)

theorem Stuck.failsForever {m : Machine} {f : Fault} (h : m.Stuck f) : m.FailsForever f := by
  intro fuel bs hfuel ops hops
  induction ops generalizing m with
  | nil => exact ⟨[], by rw [List.flatMap_nil, m.feed_nil]; rfl, rfl⟩
  | cons op ops ih =>
      obtain ⟨r, hfirst, hr⟩ := Operation.apply_of_stuck h (hops op List.mem_cons_self) hfuel bs
      -- Feeding changes neither the limit nor the core, so the rest is as good an attempt as before.
      have hrest : ∀ op' ∈ ops, op'.Retries (m.feed op.batch) :=
        fun op' hop' => hops op' (List.mem_cons_of_mem op hop')
      obtain ⟨rs, hlater, hrs⟩ := ih (h.feed op.batch) hrest
      refine ⟨r :: rs, Debugger.inTurn_cons_eq_some_iff.mpr ⟨r, _, rs, hfirst, ?_, rfl⟩, ?_⟩
      · rw [feed_feed] at hlater
        exact hlater
      · rw [List.map_cons, hr, hrs]
        rfl

/-- **Faults leave no trace and stay.**  The program of an instruction, which changes the machine
while it reads it, leaves the machine as it was if it fails, and a step of such programs is a step of
the machine.  A step that fails changes nothing but the mode, which is running, and reports the
address of its instruction.  A run that fails has taken some steps that went on, whose output is all
still there, and has stopped in front of the failing instruction.  In both cases every further attempt
fails in the same way. -/
theorem faults_leave_no_trace :
    (∀ family op operands (m m' : Machine) f,
      (Effect.executeIn family op operands).on m = (.error f, m') → m' = m) ∧
    (∀ m, Effect.step.on m = m.step) ∧
    (∀ (m m' : Machine) (f : Fault), m.step = (.error f, m') →
      m' = { m with mode := .running } ∧ (Error.fault f).pc? = some m.core.pc ∧
        m'.FailsForever f) ∧
    (∀ (fuel : Nat) (m m' : Machine) (f : Fault), m.run fuel = some (.error (.fault f), m') →
      ∃ n mₙ, Steps m mₙ n ∧ mₙ.step = (.error f, m') ∧ m' = { mₙ with mode := .running } ∧
        (0 < n → m' = mₙ) ∧ m'.output.toList = m.output.toList ++ m.nextOutputs n ∧
        m'.FailsForever f) := by
  refine ⟨?_, Effect.on_step, ?_, ?_⟩
  · intro family op operands m m' f h
    rw [Effect.on_executeIn] at h
    unfold executeIn at h
    cases hplan : m.core.planIn m.input.head? family op operands with
    | ok a =>
        rw [hplan] at h
        cases h
    | error g =>
        rw [hplan] at h
        cases h
        rfl
  · intro m m' f h
    obtain ⟨_, hf, hm'⟩ := step_eq_error_iff.mp h
    exact ⟨hm', congrArg some (Core.fault?_pc hf), (stuck_of_step h).failsForever⟩
  · intro fuel m m' f h
    obtain ⟨_, ha⟩ := advance_of_run_fault h
    rcases advance_eq_iff.mp ha with ⟨hp, _⟩ | ⟨n, mₙ, r, _, hsteps, hstep, hr⟩
    · cases hp
    · cases hr
      obtain ⟨_, _, hm'⟩ := step_eq_error_iff.mp hstep
      refine ⟨n, mₙ, hsteps, hstep, hm', ?_, ?_, (stuck_of_step hstep).failsForever⟩
      · intro hn
        rw [hm', ← hsteps.mode_eq_running hn]
      · rw [hm']
        exact hsteps.output

/-- Output in front of a `pop` from an empty stack. -/
theorem underflow_behind_output :
    let m := Machine.holding [19, 75, 3, 32768] (by decide)
    let f := Fault.stackUnderflow 2
    ∃ m', m.run 2 = some (.error (.fault f), m') ∧ m'.step = (.error f, m') ∧
      Effect.step.on m' = (.error f, m') ∧ m'.output.toList = [75] ∧ m'.core.pc = 2 ∧
      ∃ replies, Operation.applyAll 1
          [.step, .runWords [65], .resume none, .run, .runLine "B"] ⟨m', []⟩ =
          some (replies, ⟨m'.feed [65, 66, 10], []⟩) ∧
        replies.map Reply.error? =
          [some (.fault f), some (.fault f), some (.fault f), some (.fault f), some (.fault f)] := by
  intro m f
  have hrun : m.run 2 = some (.error (.fault f), (m.advance 2).2) := rfl
  obtain ⟨_, heffect, hsteps, hruns⟩ := faults_leave_no_trace
  obtain ⟨n, mₙ, _, hstep, _⟩ := hruns 2 m _ f hrun
  obtain ⟨_, _, hstay⟩ := hsteps mₙ _ f hstep
  have hagain := (stuck_of_step hstep).step
  refine ⟨_, hrun, hagain, (heffect _).trans hagain, rfl, rfl, ?_⟩
  refine hstay 1 [] (by decide) [.step, .runWords [65], .resume none, .run, .runLine "B"] ?_
  have hnone : (none : Option Nat) ≠ some 0 := Option.some_ne_none 0 ∘ Eq.symm
  have hl : (m.advance 2).2.limit ≠ some 0 := hnone
  have hline : (Operation.runLine "B").batch = [66, 10] := rfl
  intro op hop
  simp only [List.mem_cons, List.not_mem_nil, or_false] at hop
  rcases hop with rfl | rfl | rfl | rfl | rfl
  · trivial
  · exact ⟨hl, by simp [Operation.batch]⟩
  · exact hnone
  · exact ⟨hl, by simp [Operation.batch]⟩
  · exact ⟨hl, by rw [hline]; simp⟩

end Machine
end WordMachine
