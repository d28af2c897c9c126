import WordMachine.Proofs.Course

/-! # The instruction limit

A run under a limit takes as many steps as the limit allows, as long as each goes on.  If all of them
do, the run reports the limit and stops there, without handing out anything.  Otherwise one of them
waits, halts or fails, and the run ends as it would have done without a limit.  The limit is checked
before a step is taken, so what the step behind the last one would have done does not matter.

* `Machine.GoesOnFor` : the first steps from a machine all go on.
* `Machine.run_limited`, `Machine.run_unlimited` : both kinds of run, from the steps that are taken.
* `Machine.run_limit_iff` : when the limit is reported.
* `Debugger.transcript_limit_iff` : the limit is reported by several runs in a row.
* `Machine.limit_is_exact` : the meaning of the limit. -/

namespace WordMachine

namespace Machine

/-! ### Steps that go on -/

/-- The first `n` steps from a machine all go on. -/
def GoesOnFor (m : Machine) (n : Nat) : Prop :=
  ∀ k < n, ∃ o, (next^[k] m).step.1 = .ok o ∧ o.GoesOn

theorem goesOnFor_zero (m : Machine) : m.GoesOnFor 0 := fun _ hk => absurd hk (Nat.not_lt_zero _)

theorem goesOnFor_succ {m : Machine} {n : Nat} :
    m.GoesOnFor (n + 1) ↔ (∃ o, m.step.1 = .ok o ∧ o.GoesOn) ∧ m.next.GoesOnFor n := by
  constructor
  · intro h
    refine ⟨h 0 (by omega), ?_⟩
    intro k hk
    exact h (k + 1) (by omega)
  · rintro ⟨hfirst, hrest⟩ k hk
    cases k with
    | zero => exact hfirst
    | succ k => exact hrest k (by omega)

theorem goesOnFor_add {m : Machine} {a b : Nat} :
    m.GoesOnFor (a + b) ↔ m.GoesOnFor a ∧ (next^[a] m).GoesOnFor b := by
  induction a generalizing m with
  | zero =>
      rw [Nat.zero_add]
      exact ⟨fun h => ⟨m.goesOnFor_zero, h⟩, fun h => h.2⟩
  | succ a ih =>
      rw [Nat.succ_add, goesOnFor_succ, goesOnFor_succ, ih, and_assoc, Function.iterate_succ_apply]

theorem steps_iff {m m' : Machine} {n : Nat} :
    Steps m m' n ↔ m.GoesOnFor n ∧ m' = next^[n] m := by
  constructor
  · intro h
    refine ⟨?_, h.iterate_next.symm⟩
    induction h with
    | refl m => exact m.goesOnFor_zero
    | step hs ho _ ih =>
        have hnext : next _ = _ := congrArg Prod.snd hs
        exact goesOnFor_succ.mpr ⟨⟨_, congrArg Prod.fst hs, ho⟩, hnext ▸ ih⟩
  · rintro ⟨h, rfl⟩
    induction n generalizing m with
    | zero => exact Steps.refl m
    | succ n ih =>
        obtain ⟨⟨o, hs, ho⟩, hrest⟩ := goesOnFor_succ.mp h
        exact Steps.step (Prod.ext hs rfl) ho (ih hrest)

theorem advance_eq_spent_iff {m m' : Machine} {n : Nat} :
    m.advance n = (.spent, m') ↔ m.GoesOnFor n ∧ m' = next^[n] m := by
  rw [advance_eq_iff, ← steps_iff]
  constructor
  · rintro (⟨_, hsteps⟩ | ⟨_, _, _, _, _, _, hr⟩)
    · exact hsteps
    · cases hr
  · intro hsteps
    exact Or.inl ⟨rfl, hsteps⟩

/-- A machine that goes on for some steps has not halted by then. -/
theorem GoesOnFor.mode_ne_halted {m : Machine} {n : Nat} (h : m.GoesOnFor n)
    (hm : m.mode ≠ .halted) : (next^[n] m).mode ≠ .halted := by
  cases n with
  | zero => exact hm
  | succ n =>
      rw [(steps_iff.mpr ⟨h, rfl⟩).mode_eq_running (Nat.succ_pos n)]
      decide

/-! ### Runs with and without a limit -/

theorem advance_setLimit (n : Nat) (m : Machine) (limit : Option Nat) :
    (m.setLimit limit).advance n = ((m.advance n).1, (m.advance n).2.setLimit limit) :=
  advance_map (fun m => m.step_setLimit limit) n m

theorem length_attempts_le (n : Nat) (m : Machine) : (m.attempts n).length ≤ n := by
  induction n generalizing m with
  | zero => exact Nat.le_refl 0
  | succ n ih =>
      rcases m.step_goesOn_or_pauses with ⟨o, m₁, hs, ho⟩ | ⟨p, r, m₁, hs, hp⟩
      · have hrest := ih m₁
        rw [attempts_succ_of_goesOn hs ho, List.length_cons]
        omega
      · rw [attempts_succ_of_result hs hp, List.length_singleton]
        omega

/-- A run under a limit, from the steps that the limit allows. -/
theorem run_limited {m m₁ : Machine} {limit : Nat} {p : Pause} (hm : m.mode ≠ .halted)
    (h : m.advance limit = (p, m₁)) (fuel : Nat) :
    (m.setLimit (some limit)).run fuel = finish (some limit) p (m₁.setLimit (some limit)) := by
  have hadvance : (m.setLimit (some limit)).advance limit = (p, m₁.setLimit (some limit)) := by
    rw [advance_setLimit, h]
  exact run_of_advance (m := m.setLimit (some limit)) hm hadvance

/-- A run without a limit, from the steps that the fuel allows. -/
theorem run_unlimited {m m₁ : Machine} {fuel : Nat} {p : Pause} (hm : m.mode ≠ .halted)
    (h : m.advance fuel = (p, m₁)) :
    (m.setLimit none).run fuel = finish none p (m₁.setLimit none) := by
  have hadvance : (m.setLimit none).advance fuel = (p, m₁.setLimit none) := by
    rw [advance_setLimit, h]
  exact run_of_unlimited (m := m.setLimit none) hm rfl hadvance

/-- A run under a limit comes to an end. -/
theorem exists_run_limited {m : Machine} (hm : m.mode ≠ .halted) (limit fuel : Nat) :
    ∃ r m', (m.setLimit (some limit)).run fuel = some (r, m') := by
  rcases ha : m.advance limit with ⟨p, m₁⟩
  rw [run_limited hm ha]
  cases p with
  | spent | awaitingInput | halted | faulted f => exact ⟨_, _, rfl⟩

theorem length_runAttempts_le (m : Machine) (limit fuel : Nat) :
    ((m.setLimit (some limit)).runAttempts fuel).length ≤ limit := by
  unfold runAttempts
  split
  · exact Nat.zero_le limit
  · exact length_attempts_le limit _

/-- The limit is reported exactly if all steps that it allows go on. -/
theorem run_limit_iff {m m' : Machine} {fuel limit l : Nat} (hm : m.mode ≠ .halted) :
    (m.setLimit (some limit)).run fuel = some (.error (.instructionLimit l), m') ↔
      l = limit ∧ m.GoesOnFor limit ∧ m' = (next^[limit] m).setLimit (some limit) := by
  rcases ha : m.advance limit with ⟨p, m₁⟩
  rw [run_limited hm ha]
  constructor
  · intro h
    cases p with
    | spent =>
        cases h
        obtain ⟨hgoes, rfl⟩ := advance_eq_spent_iff.mp ha
        exact ⟨rfl, hgoes, rfl⟩
    | awaitingInput | halted | faulted f => cases h
  · rintro ⟨rfl, hgoes, rfl⟩
    rw [advance_eq_spent_iff.mpr ⟨hgoes, rfl⟩] at ha
    cases ha
    rfl

/-- If the steps that the limit allows do not all go on, the limit makes no difference. -/
theorem run_within_limit {m : Machine} {limit : Nat} (hm : m.mode ≠ .halted)
    (h : ¬ m.GoesOnFor limit) :
    ∃ r m', (∀ fuel, (m.setLimit (some limit)).run fuel = some (r, m'.setLimit (some limit))) ∧
      ∀ fuel, limit ≤ fuel → (m.setLimit none).run fuel = some (r, m') := by
  rcases ha : m.advance limit with ⟨p, m₁⟩
  have hp : p ≠ .spent := by
    rintro rfl
    exact h (advance_eq_spent_iff.mp ha).1
  -- More steps than the limit allows would not have been taken anyway.
  have hunlimited : ∀ fuel, limit ≤ fuel →
      (m.setLimit none).run fuel = finish none p (m₁.setLimit none) := by
    intro fuel hfuel
    exact run_unlimited hm (advance_mono ha hp hfuel)
  cases p with
  | spent => exact absurd rfl hp
  | faulted f => exact ⟨_, m₁.setLimit none, run_limited hm ha, hunlimited⟩
  | awaitingInput | halted =>
      exact ⟨_, { m₁.setLimit none with output := #[] }, run_limited hm ha, hunlimited⟩

end Machine

/-! ### Several runs in a row -/

namespace Debugger

/-- A run as the first call of a transcript. -/
theorem transcript_run_iff {d d' : Debugger} {r : Reply} {cs : List Call} :
    (∃ c, Transcript d (c :: cs) d' ∧ c.operation = .run ∧ c.reply = r) ↔
      ∃ fuel x m, d.machine.run fuel = some (x, m) ∧ r = .ran x ∧ Transcript (d.holding m) cs d' := by
  constructor
  · rintro ⟨c, hcs, hop, hreply⟩
    cases hcs with
    | cons hcall hrest =>
        obtain ⟨r, hr, rfl⟩ := Operation.call_eq_some_iff.mp hcall
        obtain rfl := hop
        obtain ⟨⟨x, m⟩, hrun, he⟩ := Option.map_eq_some_iff.mp hr
        obtain ⟨rfl, rfl⟩ := Prod.mk.inj he
        exact ⟨_, x, m, hrun, hreply.symm, hrest⟩
  · rintro ⟨fuel, x, m, hrun, rfl, hrest⟩
    have hr : Operation.run.apply fuel d = some (.ran x, d.holding m) :=
      Option.map_eq_some_iff.mpr ⟨_, hrun, rfl⟩
    exact ⟨_, .cons (Operation.call_eq_some_iff.mpr ⟨_, hr, rfl⟩) hrest, rfl, rfl⟩

/-- Runs that follow each other each have the whole limit for themselves. -/
theorem transcript_limit_iff {m : Machine} (hm : m.mode ≠ .halted) (limit : Nat) (bs : Breakpoints)
    (j : Nat) :
    m.GoesOnFor (j * limit) ↔ ∃ cs, Transcript ⟨m.setLimit (some limit), bs⟩ cs
        ⟨(Machine.next^[j * limit] m).setLimit (some limit), bs⟩ ∧
      cs.map (·.operation) = List.replicate j .run ∧
      cs.map (·.reply) = List.replicate j (.ran (.error (.instructionLimit limit))) := by
  induction j generalizing m with
  | zero =>
      rw [Nat.zero_mul]
      exact ⟨fun _ => ⟨[], .nil _, rfl, rfl⟩, fun _ => m.goesOnFor_zero⟩
  | succ j ih =>
      have hsum : (j + 1) * limit = limit + j * limit := by rw [Nat.succ_mul, Nat.add_comm]
      have hiterate : Machine.next^[(j + 1) * limit] m =
          Machine.next^[j * limit] (Machine.next^[limit] m) := by
        rw [Nat.succ_mul, Function.iterate_add_apply]
      rw [hiterate, hsum, Machine.goesOnFor_add]
      constructor
      · rintro ⟨hfirst, hrest⟩
        obtain ⟨cs, hcs, hops, hreplies⟩ := (ih (hfirst.mode_ne_halted hm)).mp hrest
        have hrun : (m.setLimit (some limit)).run 0 = some (.error (.instructionLimit limit),
            (Machine.next^[limit] m).setLimit (some limit)) :=
          (Machine.run_limit_iff hm).mpr ⟨rfl, hfirst, rfl⟩
        obtain ⟨c, hcall, hop, hreply⟩ :=
          (transcript_run_iff (d := ⟨m.setLimit (some limit), bs⟩)).mpr ⟨0, _, _, hrun, rfl, hcs⟩
        refine ⟨c :: cs, hcall, ?_, ?_⟩
        · rw [List.map_cons, hop, hops, List.replicate_succ]
        · rw [List.map_cons, hreply, hreplies, List.replicate_succ]
      · rintro ⟨cs, hcs, hops, hreplies⟩
        cases cs with
        | nil => cases hops
        | cons c cs =>
            obtain ⟨hop, hops'⟩ := List.cons.inj hops
            obtain ⟨hreply, hreplies'⟩ := List.cons.inj hreplies
            obtain ⟨fuel, x, m', hrun, he, hrest⟩ := transcript_run_iff.mp ⟨c, hcs, hop, hreply⟩
            cases he
            obtain ⟨_, hfirst, rfl⟩ := (Machine.run_limit_iff hm).mp hrun
            exact ⟨hfirst, (ih (hfirst.mode_ne_halted hm)).mpr ⟨cs, hrest, hops', hreplies'⟩⟩

end Debugger

/-! ### The meaning of the limit -/

namespace Machine

/-- **The limit is exact.**  A run under a limit comes to an end, after no more steps than the limit
allows.  It reports the limit exactly if all these steps go on; then it stops behind the last of them and
keeps the output.  Otherwise it is the run without a limit.  Each of several runs in a row has the whole
limit. -/
theorem limit_is_exact (m : Machine) (limit : Nat) (hm : m.mode ≠ .halted) :
    (∀ fuel, ∃ r m', (m.setLimit (some limit)).run fuel = some (r, m') ∧
      Executes (m.setLimit (some limit)) ((m.setLimit (some limit)).runAttempts fuel)
        (m'.owing (RunOutput.handedOut r)) ∧
      ((m.setLimit (some limit)).runAttempts fuel).length ≤ limit) ∧
    (∀ fuel l m', (m.setLimit (some limit)).run fuel = some (.error (.instructionLimit l), m') ↔
      l = limit ∧ m.GoesOnFor limit ∧ m' = (next^[limit] m).setLimit (some limit)) ∧
    (¬ m.GoesOnFor limit → ∃ r m',
      (∀ fuel, (m.setLimit (some limit)).run fuel = some (r, m'.setLimit (some limit))) ∧
      ∀ fuel, limit ≤ fuel → (m.setLimit none).run fuel = some (r, m')) ∧
    ∀ (bs : Breakpoints) (j : Nat), m.GoesOnFor (j * limit) ↔
      ∃ cs, Debugger.Transcript ⟨m.setLimit (some limit), bs⟩ cs
          ⟨(next^[j * limit] m).setLimit (some limit), bs⟩ ∧
        cs.map (·.operation) = List.replicate j .run ∧
        cs.map (·.reply) = List.replicate j (.ran (.error (.instructionLimit limit))) := by
  refine ⟨?_, ?_, run_within_limit hm, Debugger.transcript_limit_iff hm limit⟩
  · intro fuel
    obtain ⟨r, m', hrun⟩ := exists_run_limited hm limit fuel
    exact ⟨r, m', hrun, executes_of_run hrun, length_runAttempts_le m limit fuel⟩
  · intro fuel l m'
    exact run_limit_iff hm

/-- The greeter writes two words and then waits.  A limit of two stops it in front of the third
step with both words kept, by one run as well as by two runs of one step each; a limit of three lets
it wait. -/
theorem greeter_at_limit : Debugger.greeter.machine.mode ≠ .halted ∧
    (∃ m, (Debugger.greeter.machine.setLimit (some 2)).run 0 =
        some (.error (.instructionLimit 2), m) ∧ m.output = #[72, 105] ∧
      m = (next^[2] Debugger.greeter.machine).setLimit (some 2)) ∧
    (∃ cs d, Debugger.Transcript ⟨Debugger.greeter.machine.setLimit (some 1), []⟩ cs d ∧
      cs.map (·.operation) = [.run, .run] ∧
      cs.map (·.reply) = [.ran (.error (.instructionLimit 1)), .ran (.error (.instructionLimit 1))] ∧
      d.machine.output = #[72, 105]) ∧
    ¬ Debugger.greeter.machine.GoesOnFor 3 ∧
    ∃ m, (Debugger.greeter.machine.setLimit (some 3)).run 0 =
        some (.ok ⟨[72, 105], .awaitingInput⟩, m.setLimit (some 3)) ∧
      (Debugger.greeter.machine.setLimit none).run 7 =
        some (.ok ⟨[72, 105], .awaitingInput⟩, m) := by
  have hm : Debugger.greeter.machine.mode ≠ .halted := by decide
  obtain ⟨m₂, hrun₂, hout₂⟩ : ∃ m₂, (Debugger.greeter.machine.setLimit (some 2)).run 0 =
      some (.error (.instructionLimit 2), m₂) ∧ m₂.output = #[72, 105] := ⟨_, rfl, rfl⟩
  obtain ⟨m₃, hrun₃⟩ : ∃ m₃, (Debugger.greeter.machine.setLimit (some 3)).run 0 =
      some (.ok ⟨[72, 105], .awaitingInput⟩, m₃) := ⟨_, rfl⟩
  obtain ⟨_, hgoes, hm₂⟩ := ((limit_is_exact _ 2 hm).2.1 0 2 m₂).mp hrun₂
  have hstops : ¬ Debugger.greeter.machine.GoesOnFor 3 := by
    intro h
    have hreported := ((limit_is_exact _ 3 hm).2.1 0 3 _).mpr ⟨rfl, h, rfl⟩
    rw [hrun₃] at hreported
    cases hreported
  obtain ⟨cs, hcs, hops, hreplies⟩ := ((limit_is_exact _ 1 hm).2.2.2 [] 2).mp hgoes
  obtain ⟨r, m, hlimited, hunlimited⟩ := (limit_is_exact _ 3 hm).2.2.1 hstops
  have hsame := (hlimited 0).symm.trans hrun₃
  cases hsame
  exact ⟨hm, ⟨m₂, hrun₂, hout₂, hm₂⟩, ⟨cs, _, hcs, hops, hreplies, rfl⟩, hstops, m, hrun₃,
    hunlimited 7 (by decide)⟩

end Machine

end WordMachine
