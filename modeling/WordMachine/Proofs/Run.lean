import WordMachine.Machine.Run
import WordMachine.Proofs.Step

/-! # Stretches of execution

`Steps m m' n` says that `m'` is reached from `m` by `n` steps that each go on.  Executing a
bounded number of steps either takes them all in this way or takes fewer and then one that
does not go on (`Machine.advance_eq_iff`).  A run is such a stretch followed by handing out the
output (`Machine.run_of_advance`, and `Machine.run_eq_some` from its result).  A machine in front of a
failing instruction is `Machine.Stuck`, and so is every stretch of execution from there. -/

namespace WordMachine

/-- The ways for a step to end with which execution goes on. -/
def Outcome.GoesOn (o : Outcome) : Prop := o = .advanced ∨ o = .jumped

/-- The result of a step with which a stretch of execution ends, if there is one. -/
def Pause.result? : Pause → Option (Except Fault Outcome)
  | .spent => none
  | .awaitingInput => some (.ok .awaitingInput)
  | .halted => some (.ok .halted)
  | .faulted f => some (.error f)

namespace Machine

/-- `Steps m m' n`: `m'` is reached from `m` by `n` steps that each go on. -/
inductive Steps : Machine → Machine → Nat → Prop
  | refl (m : Machine) : Steps m m 0
  | step {m m₁ m₂ : Machine} {o : Outcome} {n : Nat} :
      m.step = (.ok o, m₁) → o.GoesOn → Steps m₁ m₂ n → Steps m m₂ (n + 1)

theorem mode_of_goesOn {m m₁ : Machine} {o : Outcome} (h : m.step = (.ok o, m₁))
    (ho : o.GoesOn) : m₁.mode = .running := by
  rcases step_eq_ok_cases h with ⟨_, rfl, _⟩ | ⟨_, op, _, rfl, rfl⟩
  · rcases ho with ho | ho <;> cases ho
  · show (m.effect op).mode = .running
    unfold Action.mode
    rcases ho with ho | ho <;> rw [ho]

/-- After at least one step that goes on, the machine runs. -/
theorem Steps.mode_eq_running {m m' : Machine} {n : Nat} (h : Steps m m' n) (hn : 0 < n) :
    m'.mode = .running := by
  induction h with
  | refl m => omega
  | @step m m₁ m₂ o n hs ho hrest ih =>
      cases hrest with
      | refl => exact mode_of_goesOn hs ho
      | step => exact ih (Nat.succ_pos _)

/-! ### Bounded execution -/

theorem advance_succ_of_goesOn {m m₁ : Machine} {o : Outcome} (h : m.step = (.ok o, m₁))
    (ho : o.GoesOn) (n : Nat) : m.advance (n + 1) = m₁.advance n := by
  rcases ho with rfl | rfl
  · simp only [advance, h]
  · simp only [advance, h]

theorem advance_succ_of_result {m m₁ : Machine} {r : Except Fault Outcome} {p : Pause}
    (h : m.step = (r, m₁)) (hp : p.result? = some r) (n : Nat) : m.advance (n + 1) = (p, m₁) := by
  cases p with
  | spent => cases hp
  | awaitingInput | halted | faulted f =>
      cases hp
      simp only [advance, h]

/-- A step goes on, or pauses execution. -/
theorem step_goesOn_or_pauses (m : Machine) :
    (∃ o m₁, m.step = (.ok o, m₁) ∧ o.GoesOn) ∨
    (∃ p r m₁, m.step = (r, m₁) ∧ Pause.result? p = some r) := by
  rcases hs : m.step with ⟨r, m₁⟩
  cases r with
  | error f => exact Or.inr ⟨.faulted f, _, _, rfl, rfl⟩
  | ok o =>
      cases o with
      | advanced => exact Or.inl ⟨_, _, rfl, Or.inl rfl⟩
      | jumped => exact Or.inl ⟨_, _, rfl, Or.inr rfl⟩
      | awaitingInput => exact Or.inr ⟨.awaitingInput, _, _, rfl, rfl⟩
      | halted => exact Or.inr ⟨.halted, _, _, rfl, rfl⟩

theorem Steps.advance {m m' : Machine} {n : Nat} (h : Steps m m' n) (k : Nat) :
    m.advance (n + k) = m'.advance k := by
  induction h with
  | refl m => rw [Nat.zero_add]
  | @step m m₁ m₂ o n hs ho _ ih =>
      rw [Nat.succ_add, advance_succ_of_goesOn hs ho, ih]

/-- A bounded number of steps is taken in full, or fewer and then one that pauses. -/
theorem advance_eq_iff {m m' : Machine} {n : Nat} {p : Pause} :
    m.advance n = (p, m') ↔
      (p = .spent ∧ Steps m m' n) ∨
      (∃ k mₖ r, k < n ∧ Steps m mₖ k ∧ mₖ.step = (r, m') ∧ p.result? = some r) := by
  constructor
  · intro h
    -- A first step that goes on leaves the rest to the hypothesis; any other ends the stretch.
    induction n generalizing m with
    | zero =>
        cases h
        exact Or.inl ⟨rfl, Steps.refl _⟩
    | succ n ih =>
        rcases m.step_goesOn_or_pauses with ⟨o, m₁, hs, ho⟩ | ⟨q, r, m₁, hs, hq⟩
        · rw [advance_succ_of_goesOn hs ho] at h
          rcases ih h with ⟨hp, hn⟩ | ⟨k, mₖ, r, hk, hrun, hstep, hp⟩
          · exact Or.inl ⟨hp, Steps.step hs ho hn⟩
          · exact Or.inr ⟨k + 1, mₖ, r, by omega, Steps.step hs ho hrun, hstep, hp⟩
        · rw [advance_succ_of_result hs hq] at h
          cases h
          exact Or.inr ⟨0, m, r, by omega, Steps.refl m, hs, hq⟩
  · rintro (⟨rfl, hn⟩ | ⟨k, mₖ, r, hk, hrun, hstep, hp⟩)
    · exact hn.advance 0
    · obtain ⟨j, rfl⟩ : ∃ j, n = k + (j + 1) := ⟨n - k - 1, by omega⟩
      rw [hrun.advance, advance_succ_of_result hstep hp]

/-- More steps do not change how execution has paused. -/
theorem advance_mono {m m' : Machine} {n k : Nat} {p : Pause} (h : m.advance n = (p, m'))
    (hp : p ≠ .spent) (hk : n ≤ k) : m.advance k = (p, m') := by
  rcases advance_eq_iff.mp h with ⟨hs, _⟩ | ⟨j, mⱼ, r, hj, hrest⟩
  · exact absurd hs hp
  · exact advance_eq_iff.mpr (Or.inr ⟨j, mⱼ, r, by omega, hrest⟩)

/-- A change to a machine that every step carries along is carried along by a stretch of
execution. -/
theorem advance_map {f : Machine → Machine} (hf : ∀ m, (f m).step = (m.step.1, f m.step.2))
    (n : Nat) (m : Machine) : (f m).advance n = ((m.advance n).1, f (m.advance n).2) := by
  induction n generalizing m with
  | zero => rfl
  | succ n ih =>
      have hstep := hf m
      rcases m.step_goesOn_or_pauses with ⟨o, m₁, hs, ho⟩ | ⟨p, r, m₁, hs, hp⟩
      · rw [hs] at hstep
        rw [advance_succ_of_goesOn hs ho, advance_succ_of_goesOn hstep ho, ih]
      · rw [hs] at hstep
        rw [advance_succ_of_result hs hp, advance_succ_of_result hstep hp]

/-! ### Runs -/

/-- What a run makes of a stretch of execution that ended in a given way. -/
def finish (limit : Option Nat) : Pause → Machine → Option (Except Error RunOutput × Machine)
  | .spent, m => limit.map (fun l => (.error (.instructionLimit l), m))
  | .faulted f, m => some (.error (.fault f), m)
  | .awaitingInput, m | .halted, m => some (.ok ⟨m.output.toList, m.mode⟩, { m with output := #[] })

theorem run_of_halted {m : Machine} (h : m.mode = .halted) (fuel : Nat) :
    m.run fuel = some (.ok ⟨[], .halted⟩, m) := by
  unfold run
  rw [if_pos h]

theorem run_of_advance {m m' : Machine} {fuel : Nat} {p : Pause} (hm : m.mode ≠ .halted)
    (h : m.advance (m.limit.getD fuel) = (p, m')) : m.run fuel = finish m.limit p m' := by
  unfold run
  rw [if_neg hm]
  simp only [h]
  cases p <;> rfl

theorem run_of_unlimited {m m' : Machine} {fuel : Nat} {p : Pause} (hm : m.mode ≠ .halted)
    (hl : m.limit = none) (h : m.advance fuel = (p, m')) : m.run fuel = finish none p m' := by
  have hfuel : m.limit.getD fuel = fuel := by
    rw [hl]
    rfl
  rw [← hfuel] at h
  rw [run_of_advance hm h, hl]

/-- `Finished m₁ p r m'`: the run that came to `m₁` and paused there in the way `p` returns `r` and leaves
`m'`. -/
inductive Finished (m₁ : Machine) : Pause → Except Error RunOutput → Machine → Prop
  | spent (l : Nat) : Finished m₁ .spent (.error (.instructionLimit l)) m₁
  | faulted (f : Fault) : Finished m₁ (.faulted f) (.error (.fault f)) m₁
  | awaitingInput : Finished m₁ .awaitingInput (.ok ⟨m₁.output.toList, m₁.mode⟩) { m₁ with output := #[] }
  | halted : Finished m₁ .halted (.ok ⟨m₁.output.toList, m₁.mode⟩) { m₁ with output := #[] }

/-- A run that returns is that of a halted machine or a stretch of execution that it finishes. -/
theorem run_eq_some {m m' : Machine} {fuel : Nat} {r : Except Error RunOutput}
    (h : m.run fuel = some (r, m')) :
    (m.mode = .halted ∧ r = .ok ⟨[], .halted⟩ ∧ m' = m) ∨
    (m.mode ≠ .halted ∧ ∃ p m₁, m.advance (m.limit.getD fuel) = (p, m₁) ∧ Finished m₁ p r m') := by
  by_cases hm : m.mode = .halted
  · rw [run_of_halted hm] at h
    cases h
    exact Or.inl ⟨hm, rfl, rfl⟩
  · rcases ha : m.advance (m.limit.getD fuel) with ⟨p, m₁⟩
    refine Or.inr ⟨hm, p, m₁, rfl, ?_⟩
    rw [run_of_advance hm ha] at h
    cases p with
    | spent =>
        obtain ⟨l, _, he⟩ := Option.map_eq_some_iff.mp h
        cases he
        exact .spent l
    | faulted f =>
        cases h
        exact .faulted f
    | awaitingInput =>
        cases h
        exact .awaitingInput
    | halted =>
        cases h
        exact .halted

/-- A run that fails at an instruction stops in front of it. -/
theorem advance_of_run_fault {m m' : Machine} {fuel : Nat} {f : Fault}
    (h : m.run fuel = some (.error (.fault f), m')) :
    m.mode ≠ .halted ∧ m.advance (m.limit.getD fuel) = (.faulted f, m') := by
  rcases run_eq_some h with ⟨_, hr, _⟩ | ⟨hm, p, m₁, ha, hfinished⟩
  · cases hr
  · cases hfinished
    exact ⟨hm, ha⟩

/-- More fuel does not change what a run comes to. -/
theorem run_mono {m : Machine} {fuel k : Nat} {x : Except Error RunOutput × Machine}
    (h : m.run fuel = some x) (hk : fuel ≤ k) : m.run k = some x := by
  by_cases hm : m.mode = .halted
  · rw [run_of_halted hm] at h ⊢
    exact h
  · cases hl : m.limit with
    | some l =>
        unfold run at h ⊢
        rw [hl] at h ⊢
        exact h
    | none =>
        rcases ha : m.advance fuel with ⟨p, m₁⟩
        rw [run_of_unlimited hm hl ha] at h
        have hp : p ≠ .spent := by
          rintro rfl
          cases h
        rw [run_of_unlimited hm hl (advance_mono ha hp hk)]
        exact h

/-! ### Feeding -/

/-- The machine with words appended to its input. -/
def feed (m : Machine) (ws : List Word) : Machine := { m with input := m.input ++ ws }

theorem feed_nil (m : Machine) : m.feed [] = m := by
  unfold feed
  rw [List.append_nil]

theorem feed_feed (m : Machine) (us vs : List Word) : (m.feed us).feed vs = m.feed (us ++ vs) := by
  unfold feed
  simp only [List.append_assoc]

/-- No word of a batch is refused if and only if all of them have fifteen bits. -/
theorem find?_wide_eq_none_iff {ws : List Word} :
    ws.find? (fun w => !w.isNarrow) = none ↔ ∀ w ∈ ws, w.toNat ≤ 32767 := by
  simp [List.find?_eq_none, Word.isNarrow_iff]

/-- A machine that has not halted accepts words of fifteen bits. -/
theorem queue_of_narrow {m : Machine} (hm : m.mode ≠ .halted) {ws : List Word}
    (hw : ∀ w ∈ ws, w.toNat ≤ 32767) : m.queue ws = .ok (m.feed ws) := by
  unfold queue
  rw [if_neg hm, find?_wide_eq_none_iff.mpr hw]
  rfl

theorem queue_of_halted {m : Machine} (hm : m.mode = .halted) (ws : List Word) :
    m.queue ws = .ok m := by
  unfold queue
  rw [if_pos hm]

/-- A batch that is not refused is ignored by a machine that has halted, and appended otherwise. -/
theorem queue_eq_ok_iff {m m' : Machine} {ws : List Word} :
    m.queue ws = .ok m' ↔
      (m.mode = .halted ∧ m' = m) ∨
      (m.mode ≠ .halted ∧ (∀ w ∈ ws, w.toNat ≤ 32767) ∧ m' = m.feed ws) := by
  constructor
  · intro h
    by_cases hm : m.mode = .halted
    · rw [queue_of_halted hm] at h
      cases h
      exact Or.inl ⟨hm, rfl⟩
    · refine Or.inr ⟨hm, ?_⟩
      unfold queue at h
      rw [if_neg hm] at h
      split at h
      next => cases h
      next hfind =>
        cases h
        exact ⟨find?_wide_eq_none_iff.mp hfind, rfl⟩
  · rintro (⟨hm, rfl⟩ | ⟨hm, hw, rfl⟩)
    · exact queue_of_halted hm ws
    · exact queue_of_narrow hm hw

theorem runWords_of_queue {m m₁ : Machine} {ws : List Word} (h : m.queue ws = .ok m₁)
    (fuel : Nat) : m.runWords fuel ws = m₁.run fuel := by
  unfold runWords
  rw [h]

theorem runWords_mono {m : Machine} {ws : List Word} {fuel k : Nat}
    {x : Except Error RunOutput × Machine} (h : m.runWords fuel ws = some x) (hk : fuel ≤ k) :
    m.runWords k ws = some x := by
  unfold runWords at h ⊢
  cases hq : m.queue ws with
  | ok m₁ =>
      rw [hq] at h
      exact run_mono h hk
  | error e =>
      rw [hq] at h
      exact h

/-! ### Output -/

/-- The words that the next step appends to the output: the value of the operand of an `out`. -/
def nextOutput (m : Machine) : List Word :=
  let w := m.core.memory.read (m.core.pc.toNat + 1)
  if m.mode ≠ .halted ∧ m.core.read m.core.pc = Opcode.toWord .output ∧ w.toNat < 32776 then
    [m.core.sourceValue w]
  else []

/-- The words that the next `n` steps append to the output. -/
def nextOutputs : Nat → Machine → List Word
  | 0, _ => []
  | n + 1, m => m.nextOutput ++ nextOutputs n m.step.2

theorem obstacle?_output_eq_none_iff {c : Core} :
    c.obstacle? .output (c.operandWords .output) = none ↔
      (c.memory.read (c.pc.toNat + 1)).toNat < 32776 := by
  rw [Core.obstacle?_of_ne c (by decide) (by decide), Option.map_eq_none_iff,
    Core.firstInvalid?_eq_none_iff]
  exact List.forall_mem_singleton

theorem nextOutput_of_fault {m : Machine} {f : Fault} (hf : m.core.fault? = some f) :
    m.nextOutput = [] := by
  unfold nextOutput
  apply if_neg
  rintro ⟨_, hop, hw⟩
  rw [Core.fault?_of_opcode hop, obstacle?_output_eq_none_iff.mpr hw] at hf
  cases hf

theorem nextOutput_of_opcode {m : Machine} {op : Opcode} (hm : m.mode ≠ .halted)
    (hop : m.core.read m.core.pc = op.toWord)
    (ho : m.core.obstacle? op (m.core.operandWords op) = none) :
    m.nextOutput = (m.effect op).emitted := by
  unfold nextOutput
  by_cases hout : op = .output
  · subst hout
    rw [if_pos ⟨hm, hop, obstacle?_output_eq_none_iff.mp ho⟩]
    rfl
  · rw [if_neg]
    · cases he : m.effect op with
      | emit v => exact absurd he (Core.effect_ne_emit _ _ hout _ v)
      | _ => rfl
    · rintro ⟨_, h, _⟩
      exact hout (Opcode.toWord_inj.mp (hop.symm.trans h))

/-- A step appends its output behind what was there. -/
theorem output_step (m : Machine) :
    m.step.2.output.toList = m.output.toList ++ m.nextOutput := by
  rcases m.step_cases with ⟨hm, hs⟩ | ⟨_, f, hf, hs⟩ | ⟨hm, _, op, hop, ho, hs⟩
  · rw [hs]
    simp [nextOutput, hm]
  · rw [hs, nextOutput_of_fault hf]
    simp
  · rw [hs, nextOutput_of_opcode hm hop ho]
    simp [after]

theorem Steps.output {m m' : Machine} {n : Nat} (h : Steps m m' n) :
    m'.output.toList = m.output.toList ++ m.nextOutputs n := by
  induction h with
  | refl m => simp [nextOutputs]
  | @step m m₁ m₂ o n hs _ _ ih =>
      have hone := m.output_step
      rw [hs] at hone
      rw [ih, hone, nextOutputs, hs, List.append_assoc]

/-! ### In front of a failing instruction -/

/-- The machine runs and the instruction at the instruction pointer fails. -/
def Stuck (m : Machine) (f : Fault) : Prop := m.mode = .running ∧ m.core.fault? = some f

theorem Stuck.mode_ne_halted {m : Machine} {f : Fault} (h : m.Stuck f) : m.mode ≠ .halted := by
  rw [h.1]
  decide

theorem stuck_of_step {m m' : Machine} {f : Fault} (h : m.step = (.error f, m')) : m'.Stuck f := by
  obtain ⟨_, hf, rfl⟩ := step_eq_error_iff.mp h
  exact ⟨rfl, hf⟩

theorem Stuck.step {m : Machine} {f : Fault} (h : m.Stuck f) : m.step = (.error f, m) := by
  rw [step_of_fault h.mode_ne_halted h.2, ← h.1]

theorem Stuck.feed {m : Machine} {f : Fault} (h : m.Stuck f) (ws : List Word) :
    (m.feed ws).Stuck f := h

theorem Stuck.advance {m : Machine} {f : Fault} (h : m.Stuck f) {n : Nat} (hn : 0 < n) :
    m.advance n = (.faulted f, m) := by
  obtain ⟨k, rfl⟩ : ∃ k, n = k + 1 := ⟨n - 1, by omega⟩
  exact advance_succ_of_result h.step rfl k

theorem Stuck.run {m : Machine} {f : Fault} (h : m.Stuck f) (hl : m.limit ≠ some 0) {fuel : Nat}
    (hfuel : 0 < fuel) : m.run fuel = some (.error (.fault f), m) := by
  have hpos : 0 < m.limit.getD fuel := by
    cases hlim : m.limit with
    | none => exact hfuel
    | some l =>
        rw [hlim] at hl
        exact Nat.pos_of_ne_zero (fun hz => hl (congrArg some hz))
  exact run_of_advance h.mode_ne_halted (h.advance hpos)

theorem Stuck.runWords {m : Machine} {f : Fault} (h : m.Stuck f) (hl : m.limit ≠ some 0)
    {ws : List Word} (hw : ∀ w ∈ ws, w.toNat ≤ 32767) {fuel : Nat} (hfuel : 0 < fuel) :
    m.runWords fuel ws = some (.error (.fault f), m.feed ws) := by
  rw [runWords_of_queue (queue_of_narrow h.mode_ne_halted hw)]
  exact (h.feed ws).run hl hfuel

end Machine
end WordMachine
