import WordMachine.Proofs.Loading
import WordMachine.Proofs.Run

/-! # Suspension

A machine that waits for input stands in front of the instruction that waits, as if it had not
been tried.  What a step does otherwise does not depend on input that it does not take, nor on
output that nobody has collected.  Together this makes input that comes later as good as input
that is there from the start.

* `Machine.step_feed`, `Machine.step_owing` : more input behind, or more output in front, is
  carried along by a step.
* `Machine.Stops` : execution comes to a stop, after however many steps.
* `Machine.Stops.feed`, `Machine.Stops.resume_iff` : where execution stops once there is more
  input.  A halt or a fault stays, and a wait is followed by what comes next. -/

namespace WordMachine

namespace Machine

/-! ### More input -/

/-- Only `in` waits, and only on an empty queue. -/
theorem effect_awaits_iff {m : Machine} {op : Opcode} :
    (m.effect op).outcome = .awaitingInput ↔ op = .input ∧ m.input = [] := by
  unfold effect
  constructor
  · intro h
    cases op with
    | input =>
        cases hin : m.input with
        | nil => exact ⟨rfl, rfl⟩
        | cons v rest =>
            rw [hin] at h
            cases h
    | jt | jf | ret =>
        simp only [Core.effect] at h
        split at h <;> cases h
    | _ => cases h
  · rintro ⟨rfl, hin⟩
    rw [hin]
    rfl

/-- What an instruction takes from the input is what the queue has in front. -/
theorem received_prefix (m : Machine) (op : Opcode) : (m.effect op).received <+: m.input := by
  by_cases hop : op = .input
  · subst hop
    unfold effect
    cases m.input with
    | nil => exact List.nil_prefix
    | cons v rest => exact ⟨rest, rfl⟩
  · cases he : m.effect op with
    | receive dst v => exact absurd he (Core.effect_ne_receive _ _ hop _ dst v)
    | _ => exact List.nil_prefix

/-- An instruction that does not wait does the same when there is more input. -/
theorem effect_feed {m : Machine} {op : Opcode} (h : (m.effect op).outcome ≠ .awaitingInput)
    (ws : List Word) : (m.feed ws).effect op = m.effect op := by
  by_cases hop : op = .input
  · subst hop
    have hin : m.input ≠ [] := fun hnil => h (effect_awaits_iff.mpr ⟨rfl, hnil⟩)
    unfold effect feed
    rw [List.head?_append_of_ne_nil _ hin]
  · exact Core.effect_of_ne_input m.core hop _ _ _

theorem after_feed {m : Machine} {a : Action} (h : a.received <+: m.input) (op : Opcode)
    (ws : List Word) : (m.feed ws).after op a = (m.after op a).feed ws := by
  unfold after feed
  simp only [List.drop_append_of_le_length h.length_le]

/-- A step that does not wait carries additional input along. -/
theorem step_feed {m m₁ : Machine} {r : Except Fault Outcome} (h : m.step = (r, m₁))
    (hr : r ≠ .ok .awaitingInput) (ws : List Word) : (m.feed ws).step = (r, m₁.feed ws) := by
  rcases m.step_cases with ⟨hm, hs⟩ | ⟨hm, f, hf, hs⟩ | ⟨hm, _, op, hop, ho, hs⟩
  · rw [hs] at h
    cases h
    exact step_of_halted hm
  · rw [hs] at h
    cases h
    exact step_of_fault hm hf
  · rw [hs] at h
    cases h
    have heff := effect_feed (fun ha => hr (congrArg Except.ok ha)) ws
    have hstep : (m.feed ws).step = _ := step_of_opcode hm hop ho
    rw [hstep, heff, after_feed (m.received_prefix op)]

theorem eq_await_of_outcome {a : Action} (h : a.outcome = .awaitingInput) : a = .await := by
  cases a with
  | await => rfl
  | _ => cases h

theorem after_await (m : Machine) (op : Opcode) :
    m.after op .await = { m with mode := .awaitingInput } := by
  have hout : m.output ++ #[] = m.output := Array.append_empty
  show Machine.mk _ _ _ (m.output ++ #[]) _ _ _ = _
  rw [hout]
  rfl

/-- A step that waits changes nothing but the mode. -/
theorem eq_of_step_awaiting {m m₁ : Machine} (h : m.step = (.ok .awaitingInput, m₁)) :
    m.mode ≠ .halted ∧ m₁ = { m with mode := .awaitingInput } := by
  rcases step_eq_ok_cases h with ⟨_, ho, _⟩ | ⟨hm, op, _, ho, rfl⟩
  · cases ho
  · have hawait : m.effect op = .await := eq_await_of_outcome ho.symm
    rw [hawait, after_await]
    exact ⟨hm, rfl⟩

/-- A step does not depend on whether the machine runs or waits. -/
theorem step_of_mode {m : Machine} (hm : m.mode ≠ .halted) {μ : Mode} (hμ : μ ≠ .halted) :
    ({ m with mode := μ } : Machine).step = m.step := by
  unfold step
  rw [if_neg hm, if_neg hμ]

/-! ### Uncollected output -/

/-- The machine with words in front of its uncollected output. -/
def owing (m : Machine) (out : List Word) : Machine :=
  { m with output := out.toArray ++ m.output }

theorem output_owing (m : Machine) (out : List Word) :
    (m.owing out).output.toList = out ++ m.output.toList := by
  simp [owing]

theorem owing_nil (m : Machine) : m.owing [] = m := by
  simp [owing]

/-- Uncollected output is what a machine without it owes. -/
theorem owing_output (m : Machine) : ({ m with output := #[] } : Machine).owing m.output.toList = m := by
  simp [owing]

theorem after_owing (m : Machine) (op : Opcode) (a : Action) (out : List Word) :
    (m.owing out).after op a = (m.after op a).owing out := by
  unfold after owing
  simp only [Array.append_assoc]

theorem unnoticed_owing (out : List Word) : Unnoticed (fun m => m.owing out) where
  after m op a := m.after_owing op a out

theorem step_owing (m : Machine) (out : List Word) :
    (m.owing out).step = (m.step.1, m.step.2.owing out) :=
  (unnoticed_owing out).step m

theorem advance_owing (n : Nat) (m : Machine) (out : List Word) :
    (m.owing out).advance n = ((m.advance n).1, (m.advance n).2.owing out) :=
  advance_map (fun m => m.step_owing out) n m

/-! ### Where execution stops -/

/-- Execution comes to a stop in a given way. -/
def Stops (m : Machine) (p : Pause) (m' : Machine) : Prop :=
  p ≠ .spent ∧ ∃ n, m.advance n = (p, m')

theorem Stops.unique {m m₁ m₂ : Machine} {p q : Pause} (h₁ : m.Stops p m₁) (h₂ : m.Stops q m₂) :
    p = q ∧ m₁ = m₂ := by
  obtain ⟨hp, n, hn⟩ := h₁
  obtain ⟨hq, k, hk⟩ := h₂
  have e₁ := advance_mono hn hp (Nat.le_max_left n k)
  have e₂ := advance_mono hk hq (Nat.le_max_right n k)
  exact Prod.mk.inj (e₁.symm.trans e₂)

/-- Execution that stops has taken steps that went on, and then one that did not. -/
theorem Stops.steps {m m' : Machine} {p : Pause} (h : m.Stops p m') :
    ∃ n mₙ r, Steps m mₙ n ∧ mₙ.step = (r, m') ∧ p.result? = some r := by
  obtain ⟨hp, n, hn⟩ := h
  rcases advance_eq_iff.mp hn with ⟨hs, _⟩ | ⟨k, mₖ, r, _, hrest⟩
  · exact absurd hs hp
  · exact ⟨k, mₖ, r, hrest⟩

/-- Execution stops where it stops after a few steps that go on. -/
theorem Steps.stops_iff {m m₁ m' : Machine} {n : Nat} {p : Pause} (h : Steps m m₁ n) :
    m.Stops p m' ↔ m₁.Stops p m' := by
  constructor
  · rintro ⟨hp, k, hk⟩
    exact ⟨hp, k, (h.advance k).symm.trans (advance_mono hk hp (Nat.le_add_left k n))⟩
  · rintro ⟨hp, k, hk⟩
    exact ⟨hp, n + k, (h.advance k).trans hk⟩

theorem stops_of_step {m m' : Machine} {r : Except Fault Outcome} {p : Pause}
    (h : m.step = (r, m')) (hp : p.result? = some r) : m.Stops p m' := by
  refine ⟨?_, 1, advance_succ_of_result h hp 0⟩
  rintro rfl
  cases hp

/-- Where execution stops depends on what the first step does. -/
theorem Stops.congr {m₁ m₂ m' : Machine} {p : Pause} (hs : m₁.step = m₂.step)
    (h : m₁.Stops p m') : m₂.Stops p m' := by
  obtain ⟨hp, n, hn⟩ := h
  cases n with
  | zero =>
      cases hn
      exact absurd rfl hp
  | succ n =>
      refine ⟨hp, n + 1, ?_⟩
      rw [← hn]
      simp only [advance, hs]

theorem Steps.feed {m m' : Machine} {n : Nat} (h : Steps m m' n) (ws : List Word) :
    Steps (m.feed ws) (m'.feed ws) n := by
  induction h with
  | refl m => exact Steps.refl _
  | step hs ho _ ih =>
      refine Steps.step (step_feed hs ?_ ws) ho ih
      rintro ⟨⟩
      rcases ho with ho | ho <;> cases ho

/-- More input does not change how execution halts or fails. -/
theorem Stops.feed {m m' : Machine} {p : Pause} (h : m.Stops p m') (hp : p ≠ .awaitingInput)
    (ws : List Word) : (m.feed ws).Stops p (m'.feed ws) := by
  obtain ⟨n, mₙ, r, hsteps, hstep, hr⟩ := h.steps
  have hne : r ≠ .ok .awaitingInput := by
    rintro rfl
    cases p with
    | awaitingInput => exact hp rfl
    | spent | halted | faulted f => cases hr
  exact (hsteps.feed ws).stops_iff.mpr (stops_of_step (step_feed hstep hne ws) hr)

/-- Execution that waits goes on with more input as it would have done with this input there
from the start. -/
theorem Stops.feed_iff_of_awaiting {m m₁ m' : Machine} {p : Pause}
    (h : m.Stops .awaitingInput m₁) (ws : List Word) :
    (m.feed ws).Stops p m' ↔ (m₁.feed ws).Stops p m' := by
  obtain ⟨n, mₙ, r, hsteps, hstep, hr⟩ := h.steps
  cases hr
  obtain ⟨hm, rfl⟩ := eq_of_step_awaiting hstep
  -- The two machines in front of the waiting instruction differ in their mode only.
  have hsame : (({ mₙ with mode := .awaitingInput } : Machine).feed ws).step = (mₙ.feed ws).step := by
    have hawait : Mode.awaitingInput ≠ .halted := by decide
    exact step_of_mode (m := mₙ.feed ws) hm hawait
  rw [(hsteps.feed ws).stops_iff]
  exact ⟨Stops.congr hsame.symm, Stops.congr hsame⟩

/-- Execution that stops when there is more input has stopped before or at the end of its own. -/
theorem Stops.of_feed {m m' : Machine} {p : Pause} {ws : List Word} (h : (m.feed ws).Stops p m') :
    ∃ q m₁, m.Stops q m₁ := by
  obtain ⟨hp, n, hn⟩ := h
  rcases ha : m.advance n with ⟨q, m₁⟩
  refine ⟨q, m₁, ?_, n, ha⟩
  rintro rfl
  -- Otherwise all steps went on, and would have done so with more input.
  rcases advance_eq_iff.mp ha with ⟨_, hsteps⟩ | ⟨_, _, _, _, _, _, hr⟩
  · have hfed : (m.feed ws).advance n = (.spent, m₁.feed ws) := (hsteps.feed ws).advance 0
    rw [hfed] at hn
    cases hn
    exact hp rfl
  · cases hr

theorem stops_owing_iff {m m' : Machine} {p : Pause} {out : List Word} :
    (m.owing out).Stops p m' ↔ ∃ m₁, m.Stops p m₁ ∧ m' = m₁.owing out := by
  constructor
  · rintro ⟨hp, n, hn⟩
    rw [advance_owing] at hn
    cases hn
    exact ⟨_, ⟨hp, n, rfl⟩, rfl⟩
  · rintro ⟨m₁, ⟨hp, n, hn⟩, rfl⟩
    refine ⟨hp, n, ?_⟩
    rw [advance_owing, hn]

/-- Execution that waits goes on with more input, and still does when its output has been
collected: this output is then missing in front of what follows. -/
theorem Stops.resume_iff {m m₁ m' : Machine} {p : Pause} (h : m.Stops .awaitingInput m₁)
    (ws : List Word) :
    (m.feed ws).Stops p m' ↔
      ∃ m₂, (({ m₁ with output := #[] } : Machine).feed ws).Stops p m₂ ∧
        m' = m₂.owing m₁.output.toList := by
  have howing : m₁.feed ws =
      (({ m₁ with output := #[] } : Machine).feed ws).owing m₁.output.toList :=
    congrArg (fun x : Machine => x.feed ws) m₁.owing_output.symm
  rw [h.feed_iff_of_awaiting ws, howing]
  exact stops_owing_iff

/-! ### The machine at a stop -/

theorem limit_step (m : Machine) : m.step.2.limit = m.limit := by
  rcases m.step_cases with ⟨_, hs⟩ | ⟨_, f, _, hs⟩ | ⟨_, _, op, _, _, hs⟩
  · rw [hs]
  · rw [hs]
  · rw [hs]
    rfl

theorem Steps.limit {m m' : Machine} {n : Nat} (h : Steps m m' n) : m'.limit = m.limit := by
  induction h with
  | refl m => rfl
  | @step m m₁ m₂ o n hs _ _ ih =>
      have hone := m.limit_step
      rw [hs] at hone
      exact ih.trans hone

theorem Stops.limit {m m' : Machine} {p : Pause} (h : m.Stops p m') : m'.limit = m.limit := by
  obtain ⟨n, mₙ, r, hsteps, hstep, _⟩ := h.steps
  have hlast := mₙ.limit_step
  rw [hstep] at hlast
  exact hlast.trans hsteps.limit

theorem Stops.stuck {m m' : Machine} {f : Fault} (h : m.Stops (.faulted f) m') : m'.Stuck f := by
  obtain ⟨n, mₙ, r, _, hstep, hr⟩ := h.steps
  cases hr
  exact stuck_of_step hstep

theorem Stops.mode_of_awaiting {m m' : Machine} (h : m.Stops .awaitingInput m') :
    m'.mode = .awaitingInput := by
  obtain ⟨n, mₙ, r, _, hstep, hr⟩ := h.steps
  cases hr
  rw [(eq_of_step_awaiting hstep).2]

theorem Stops.mode_ne_halted {m m' : Machine} (h : m.Stops .awaitingInput m') :
    m'.mode ≠ .halted := by
  rw [h.mode_of_awaiting]
  nofun

theorem mode_of_step_halted {m m' : Machine} (h : m.step = (.ok .halted, m')) :
    m'.mode = .halted := by
  rcases step_eq_ok_cases h with ⟨hm, _, rfl⟩ | ⟨_, op, _, ho, rfl⟩
  · exact hm
  · exact Action.mode_eq_halted_iff.mpr ho.symm

theorem Stops.mode_of_halted {m m' : Machine} (h : m.Stops .halted m') : m'.mode = .halted := by
  obtain ⟨n, mₙ, r, _, hstep, hr⟩ := h.steps
  cases hr
  exact mode_of_step_halted hstep

end Machine
end WordMachine
