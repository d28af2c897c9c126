import WordMachine.Proofs.InstructionLimit

/-! # Where continuing stops

Continuing takes steps until one of them halts, waits, fails or arrives at a breakpoint, or until as
many were taken as allowed.  A step is taken before anything is compared with the breakpoints, so the
address at which continuing starts does not count, and a breakpoint that is met with the last step
allowed is reported as such.

* `Debugger.ending?` : what continuing reports after one step, if it ends there.
* `Debugger.advanceTo_eq_iff` : continuing goes up to the first step after which it ends.
* `Debugger.resumes_iff` : the same under any limit, without fuel.
* `Debugger.continuing_stops_exactly` : the conditions for each report. -/

namespace WordMachine

namespace StopReason

/-- What continuing reports of a step that does not go on. -/
def ofStep? : Except Fault Outcome → Option (Except Fault StopReason)
  | .ok .advanced | .ok .jumped => none
  | .ok .awaitingInput => some (.ok .awaitingInput)
  | .ok .halted => some (.ok .halted)
  | .error f => some (.error f)

theorem ofStep?_eq_none_iff {s : Except Fault Outcome} :
    ofStep? s = none ↔ ∃ o, s = .ok o ∧ o.GoesOn := by
  constructor
  · intro h
    cases s with
    | error f => cases h
    | ok o =>
        cases o with
        | advanced => exact ⟨_, rfl, Or.inl rfl⟩
        | jumped => exact ⟨_, rfl, Or.inr rfl⟩
        | awaitingInput | halted => cases h
  · rintro ⟨o, rfl, rfl | rfl⟩
    · rfl
    · rfl

/-- The report of a step that does not go on tells how the step ended. -/
theorem ofStep?_eq_some_iff {s t : Except Fault Outcome} {r : Except Fault StopReason}
    (hs : ofStep? s = some r) : ofStep? t = some r ↔ t = s := by
  constructor
  · intro ht
    rcases s with f | ⟨_ | _ | _ | _⟩ <;> cases hs <;>
      rcases t with g | ⟨_ | _ | _ | _⟩ <;> cases ht <;> rfl
  · rintro rfl
    exact hs

/-- No step is reported as a breakpoint or as the last one allowed. -/
theorem ofStep?_ne_breakpoint (s : Except Fault Outcome) (p : Word) :
    ofStep? s ≠ some (.ok (.breakpoint p)) := by
  rcases s with f | ⟨_ | _ | _ | _⟩ <;> (intro h; cases h)

theorem ofStep?_ne_stepLimit (s : Except Fault Outcome) : ofStep? s ≠ some (.ok .stepLimit) := by
  rcases s with f | ⟨_ | _ | _ | _⟩ <;> (intro h; cases h)

end StopReason

namespace Debugger

open Machine (next)
open StopReason (ofStep?)

/-! ### One step -/

/-- What continuing reports after the next step, if it ends there. -/
def ending? (bs : Breakpoints) (m : Machine) : Option (Except Fault StopReason) :=
  match ofStep? m.step.1 with
  | some r => some r
  | none => if bs.contains m.next.core.pc then some (.ok (.breakpoint m.next.core.pc)) else none

theorem ending?_of_stop {bs : Breakpoints} {m : Machine} {r : Except Fault StopReason}
    (h : ofStep? m.step.1 = some r) : ending? bs m = some r := by
  unfold ending?
  rw [h]

theorem ending?_of_goesOn {bs : Breakpoints} {m : Machine} (h : ofStep? m.step.1 = none) :
    ending? bs m =
      if m.next.core.pc ∈ bs then some (.ok (.breakpoint m.next.core.pc)) else none := by
  unfold ending?
  rw [h]
  simp only [List.contains_iff_mem]

theorem ending?_eq_none_iff {bs : Breakpoints} {m : Machine} :
    ending? bs m = none ↔ (∃ o, m.step.1 = .ok o ∧ o.GoesOn) ∧ m.next.core.pc ∉ bs := by
  rw [← StopReason.ofStep?_eq_none_iff]
  cases hs : ofStep? m.step.1 with
  | some r => simp [ending?_of_stop hs]
  | none => simp [ending?_of_goesOn hs]

theorem ending?_eq_breakpoint_iff {bs : Breakpoints} {m : Machine} {p : Word} :
    ending? bs m = some (.ok (.breakpoint p)) ↔
      (∃ o, m.step.1 = .ok o ∧ o.GoesOn) ∧ m.next.core.pc = p ∧ p ∈ bs := by
  rw [← StopReason.ofStep?_eq_none_iff]
  cases hs : ofStep? m.step.1 with
  | some r =>
      have hne := StopReason.ofStep?_ne_breakpoint m.step.1 p
      rw [hs] at hne
      simp [ending?_of_stop hs, hne]
  | none =>
      rw [ending?_of_goesOn hs]
      constructor
      · intro h
        split at h
        next hmem =>
          cases h
          exact ⟨rfl, rfl, hmem⟩
        next => cases h
      · rintro ⟨_, rfl, hmem⟩
        rw [if_pos hmem]

/-- After a step that does not go on, continuing ends with its report whatever the breakpoints are. -/
theorem ending?_eq_stop_iff {bs : Breakpoints} {m : Machine} {s : Except Fault Outcome}
    {r : Except Fault StopReason} (hr : ofStep? s = some r) :
    ending? bs m = some r ↔ m.step.1 = s := by
  constructor
  · intro h
    cases hs : ofStep? m.step.1 with
    | some r' =>
        rw [ending?_of_stop hs] at h
        cases h
        exact (StopReason.ofStep?_eq_some_iff hr).mp hs
    | none =>
        rw [ending?_of_goesOn hs] at h
        split at h
        · cases h
          exact absurd hr (StopReason.ofStep?_ne_breakpoint s _)
        · cases h
  · rintro rfl
    exact ending?_of_stop hr

theorem ending?_ne_stepLimit (bs : Breakpoints) (m : Machine) :
    ending? bs m ≠ some (.ok .stepLimit) := by
  intro h
  cases hs : ofStep? m.step.1 with
  | some r =>
      rw [ending?_of_stop hs] at h
      cases h
      exact StopReason.ofStep?_ne_stepLimit _ hs
  | none =>
      rw [ending?_of_goesOn hs] at h
      split at h <;> cases h

/-! ### Steps up to an end -/

theorem advanceTo_succ (bs : Breakpoints) (n : Nat) (m : Machine) :
    advanceTo bs (n + 1) m =
      match ending? bs m with
      | some r => (r, m.next)
      | none => advanceTo bs n m.next := by
  unfold ending? next
  rw [advanceTo]
  rcases m.step with ⟨f | ⟨_ | _ | _ | _⟩, m₁⟩
  · rfl
  · simp only [ofStep?]
    split <;> rfl
  · simp only [ofStep?]
    split <;> rfl
  · rfl
  · rfl

/-- Continuing does not end after any of the first `n` steps. -/
def Passes (bs : Breakpoints) (m : Machine) (n : Nat) : Prop :=
  ∀ k < n, ending? bs (next^[k] m) = none

theorem passes_zero (bs : Breakpoints) (m : Machine) : Passes bs m 0 :=
  fun _ hk => absurd hk (Nat.not_lt_zero _)

theorem passes_succ {bs : Breakpoints} {m : Machine} {n : Nat} :
    Passes bs m (n + 1) ↔ ending? bs m = none ∧ Passes bs m.next n := by
  constructor
  · intro h
    exact ⟨h 0 (by omega), fun k hk => h (k + 1) (by omega)⟩
  · rintro ⟨hfirst, hrest⟩ k hk
    cases k with
    | zero => exact hfirst
    | succ k => exact hrest k (by omega)

/-- The steps before the `k`-th arrive at no breakpoint. -/
def ClearBefore (bs : Breakpoints) (m : Machine) (k : Nat) : Prop :=
  ∀ i, 1 ≤ i → i < k → (next^[i] m).core.pc ∉ bs

/-- Where continuing starts does not count. -/
theorem clearBefore_one (bs : Breakpoints) (m : Machine) : ClearBefore bs m 1 := by
  intro i hi hlt
  omega

/-- Steps are passed if they go on and arrive at no breakpoint. -/
theorem passes_iff {bs : Breakpoints} {m : Machine} {n : Nat} :
    Passes bs m n ↔ m.GoesOnFor n ∧ ClearBefore bs m (n + 1) := by
  unfold Passes Machine.GoesOnFor ClearBefore
  simp only [ending?_eq_none_iff, ← Function.iterate_succ_apply']
  constructor
  · intro h
    refine ⟨fun k hk => (h k hk).1, ?_⟩
    intro i hi hn
    obtain ⟨j, rfl⟩ : ∃ j, i = j + 1 := ⟨i - 1, by omega⟩
    exact (h j (by omega)).2
  · rintro ⟨hgoes, hclear⟩ k hk
    exact ⟨hgoes k hk, hclear (k + 1) (by omega) (by omega)⟩

/-- Either all of some steps are passed, or there is a first one after which continuing ends. -/
theorem passes_or_ends (bs : Breakpoints) (m : Machine) (n : Nat) :
    Passes bs m n ∨ ∃ k < n, Passes bs m k ∧ ∃ r, ending? bs (next^[k] m) = some r := by
  induction n with
  | zero => exact Or.inl (passes_zero bs m)
  | succ n ih =>
      rcases ih with hpass | ⟨k, hk, hend⟩
      · cases he : ending? bs (next^[n] m) with
        | some r => exact Or.inr ⟨n, by omega, hpass, r, he⟩
        | none =>
            refine Or.inl fun k hk => ?_
            rcases Nat.lt_succ_iff_lt_or_eq.mp hk with hlt | rfl
            · exact hpass k hlt
            · exact he
      · exact Or.inr ⟨k, by omega, hend⟩

/-- Continuing goes on behind steps that are passed. -/
theorem Passes.advanceTo {bs : Breakpoints} {m : Machine} {k : Nat} (h : Passes bs m k) (j : Nat) :
    Debugger.advanceTo bs (k + j) m = Debugger.advanceTo bs j (next^[k] m) := by
  induction k generalizing m with
  | zero => rw [Nat.zero_add, Function.iterate_zero_apply]
  | succ k ih =>
      obtain ⟨hfirst, hrest⟩ := passes_succ.mp h
      rw [Nat.succ_add, advanceTo_succ, hfirst, Function.iterate_succ_apply]
      exact ih hrest

theorem advanceTo_of_ending {bs : Breakpoints} {m : Machine} {k n : Nat}
    {r : Except Fault StopReason} (hk : k < n) (hpass : Passes bs m k)
    (hend : ending? bs (next^[k] m) = some r) : advanceTo bs n m = (r, next^[k + 1] m) := by
  obtain ⟨j, rfl⟩ : ∃ j, n = k + (j + 1) := ⟨n - k - 1, by omega⟩
  rw [hpass.advanceTo, advanceTo_succ, hend, Function.iterate_succ_apply']

/-- Continuing for at most `n` steps goes up to the first step after which it ends, or takes all of
them. -/
theorem advanceTo_eq_iff {bs : Breakpoints} {n : Nat} {m m' : Machine}
    {r : Except Fault StopReason} :
    advanceTo bs n m = (r, m') ↔
      (r = .ok .stepLimit ∧ Passes bs m n ∧ m' = next^[n] m) ∨
      ∃ k < n, Passes bs m k ∧ ending? bs (next^[k] m) = some r ∧ m' = next^[k + 1] m := by
  constructor
  · intro h
    rcases passes_or_ends bs m n with hpass | ⟨k, hk, hpass, r', hend⟩
    · have hall : advanceTo bs n m = (.ok .stepLimit, next^[n] m) := hpass.advanceTo 0
      rw [hall] at h
      cases h
      exact Or.inl ⟨rfl, hpass, rfl⟩
    · rw [advanceTo_of_ending hk hpass hend] at h
      cases h
      exact Or.inr ⟨k, hk, hpass, hend, rfl⟩
  · rintro (⟨rfl, hpass, rfl⟩ | ⟨k, hk, hpass, hend, rfl⟩)
    · exact hpass.advanceTo 0
    · exact advanceTo_of_ending hk hpass hend

/-! ### Continuing under a limit -/

/-- `Resumes d limit r d'`: continuing under the limit comes to an end, reports `r` and leaves `d'`. -/
def Resumes (d : Debugger) (limit : Option Nat) (r : Except Fault StopReason) (d' : Debugger) : Prop :=
  ∃ fuel, d.resume fuel limit = some (r, d')

theorem resume_eq_some_iff {d d' : Debugger} {fuel : Nat} {limit : Option Nat}
    {r : Except Fault StopReason} :
    d.resume fuel limit = some (r, d') ↔
      advanceTo d.breakpoints (limit.getD fuel) d.machine = (r, d'.machine) ∧
        d'.breakpoints = d.breakpoints ∧ (limit = none → r ≠ .ok .stepLimit) := by
  constructor
  · exact resume_eq_some
  · rintro ⟨ha, hbs, hr⟩
    unfold resume
    simp only [ha]
    split
    next heq =>
      cases heq
      cases limit with
      | none => exact absurd rfl (hr rfl)
      | some l =>
          rw [← hbs]
          rfl
    next heq =>
      cases heq
      rw [← hbs]

/-- Continuing ends with the first step after which it can, or reports that all steps allowed were
taken. -/
theorem resumes_iff {d d' : Debugger} {limit : Option Nat} {r : Except Fault StopReason} :
    d.Resumes limit r d' ↔
      (∃ l, limit = some l ∧ r = .ok .stepLimit ∧ Passes d.breakpoints d.machine l ∧
        d' = ⟨next^[l] d.machine, d.breakpoints⟩) ∨
      ∃ k, (∀ l, limit = some l → k < l) ∧ Passes d.breakpoints d.machine k ∧
        ending? d.breakpoints (next^[k] d.machine) = some r ∧
        d' = ⟨next^[k + 1] d.machine, d.breakpoints⟩ := by
  obtain ⟨m', bs'⟩ := d'
  unfold Resumes
  simp only [resume_eq_some_iff, advanceTo_eq_iff, Debugger.mk.injEq]
  constructor
  · rintro ⟨fuel, ⟨hr, hpass, hm⟩ | ⟨k, hk, hpass, hr, hm⟩, hbs, hne⟩
    · cases limit with
      | none => exact absurd hr (hne rfl)
      | some l => exact Or.inl ⟨l, rfl, hr, hpass, hm, hbs⟩
    · refine Or.inr ⟨k, ?_, hpass, hr, hm, hbs⟩
      rintro l rfl
      exact hk
  · rintro (⟨l, rfl, hr, hpass, hm, hbs⟩ | ⟨k, hk, hpass, hr, hm, hbs⟩)
    · exact ⟨0, Or.inl ⟨hr, hpass, hm⟩, hbs, by intro h; cases h⟩
    · refine ⟨k + 1, Or.inr ⟨k, ?_, hpass, hr, hm⟩, hbs, ?_⟩
      · cases limit with
        | none => exact Nat.lt_succ_self k
        | some l => exact hk l rfl
      · rintro _ rfl
        exact ending?_ne_stepLimit _ _ hr

/-- A report other than that of the last step allowed is that of the `k`-th step, for the first `k`
for which there is one. -/
theorem resumes_iff_of_ne {d d' : Debugger} {limit : Option Nat} {r : Except Fault StopReason}
    (hr : r ≠ .ok .stepLimit) :
    d.Resumes limit r d' ↔
      ∃ k, 1 ≤ k ∧ (∀ l, limit = some l → k ≤ l) ∧ d.machine.GoesOnFor (k - 1) ∧
        ending? d.breakpoints (next^[k - 1] d.machine) = some r ∧
        ClearBefore d.breakpoints d.machine k ∧ d' = ⟨next^[k] d.machine, d.breakpoints⟩ := by
  rw [resumes_iff]
  simp only [passes_iff]
  constructor
  · rintro (⟨_, _, hlimit, _⟩ | ⟨k, hk, ⟨hgoes, hclear⟩, hend, hd⟩)
    · exact absurd hlimit hr
    · exact ⟨k + 1, by omega, hk, hgoes, hend, hclear, hd⟩
  · rintro ⟨k, hpos, hk, hgoes, hend, hclear, hd⟩
    obtain ⟨j, rfl⟩ : ∃ j, k = j + 1 := ⟨k - 1, by omega⟩
    exact Or.inr ⟨j, hk, ⟨hgoes, hclear⟩, hend, hd⟩

theorem resumes_breakpoint_iff {d d' : Debugger} {limit : Option Nat} {p : Word} :
    d.Resumes limit (.ok (.breakpoint p)) d' ↔
      ∃ k, 1 ≤ k ∧ (∀ l, limit = some l → k ≤ l) ∧ d.machine.GoesOnFor k ∧
        (next^[k] d.machine).core.pc = p ∧ p ∈ d.breakpoints ∧
        ClearBefore d.breakpoints d.machine k ∧ d' = ⟨next^[k] d.machine, d.breakpoints⟩ := by
  rw [resumes_iff_of_ne (by intro h; cases h)]
  simp only [ending?_eq_breakpoint_iff, ← Function.iterate_succ_apply']
  -- The `k`-th step goes on like the ones before it.
  have hlast : ∀ j, d.machine.GoesOnFor (j + 1) ↔ d.machine.GoesOnFor j ∧
      ∃ o, (next^[j] d.machine).step.1 = .ok o ∧ o.GoesOn := by
    intro j
    rw [Machine.goesOnFor_add, Machine.goesOnFor_succ]
    exact ⟨fun h => ⟨h.1, h.2.1⟩, fun h => ⟨h.1, h.2, Machine.goesOnFor_zero _⟩⟩
  constructor
  · rintro ⟨k, hpos, hk, hgoes, ⟨hstep, hpc, hmem⟩, hclear, hd⟩
    obtain ⟨j, rfl⟩ : ∃ j, k = j + 1 := ⟨k - 1, by omega⟩
    exact ⟨j + 1, hpos, hk, (hlast j).mpr ⟨hgoes, hstep⟩, hpc, hmem, hclear, hd⟩
  · rintro ⟨k, hpos, hk, hgoes, hpc, hmem, hclear, hd⟩
    obtain ⟨j, rfl⟩ : ∃ j, k = j + 1 := ⟨k - 1, by omega⟩
    obtain ⟨hbefore, hstep⟩ := (hlast j).mp hgoes
    exact ⟨j + 1, hpos, hk, hbefore, ⟨hstep, hpc, hmem⟩, hclear, hd⟩

theorem resumes_stop_iff {d d' : Debugger} {limit : Option Nat} {s : Except Fault Outcome}
    {r : Except Fault StopReason} (hr : ofStep? s = some r) :
    d.Resumes limit r d' ↔
      ∃ k, 1 ≤ k ∧ (∀ l, limit = some l → k ≤ l) ∧ d.machine.GoesOnFor (k - 1) ∧
        (next^[k - 1] d.machine).step.1 = s ∧ ClearBefore d.breakpoints d.machine k ∧
        d' = ⟨next^[k] d.machine, d.breakpoints⟩ := by
  have hne : r ≠ .ok .stepLimit := by
    rintro rfl
    exact StopReason.ofStep?_ne_stepLimit s hr
  rw [resumes_iff_of_ne hne]
  simp only [ending?_eq_stop_iff hr]

theorem resumes_stepLimit_iff {d d' : Debugger} {limit : Option Nat} :
    d.Resumes limit (.ok .stepLimit) d' ↔
      ∃ l, limit = some l ∧ d.machine.GoesOnFor l ∧
        ClearBefore d.breakpoints d.machine (l + 1) ∧
        d' = ⟨next^[l] d.machine, d.breakpoints⟩ := by
  rw [resumes_iff]
  simp only [passes_iff]
  constructor
  · rintro (⟨l, hl, _, ⟨hgoes, hclear⟩, hd⟩ | ⟨k, _, _, hend, _⟩)
    · exact ⟨l, hl, hgoes, hclear, hd⟩
    · exact absurd hend (ending?_ne_stepLimit _ _)
  · rintro ⟨l, hl, hgoes, hclear, hd⟩
    exact Or.inl ⟨l, hl, trivial, ⟨hgoes, hclear⟩, hd⟩

/-- Continuing under a limit comes to an end. -/
theorem exists_resume_limited (d : Debugger) (l fuel : Nat) :
    ∃ r d', d.resume fuel (some l) = some (r, d') := by
  rcases ha : advanceTo d.breakpoints l d.machine with ⟨r, m⟩
  exact ⟨r, ⟨m, d.breakpoints⟩, resume_eq_some_iff.mpr ⟨ha, rfl, by intro h; cases h⟩⟩

/-- There is one report only. -/
theorem Resumes.unique {d d₁ d₂ : Debugger} {limit : Option Nat} {r₁ r₂ : Except Fault StopReason}
    (h₁ : d.Resumes limit r₁ d₁) (h₂ : d.Resumes limit r₂ d₂) : r₁ = r₂ ∧ d₁ = d₂ := by
  obtain ⟨fuel₁, h₁⟩ := h₁
  obtain ⟨fuel₂, h₂⟩ := h₂
  have hsame := (resume_mono h₁ (Nat.le_max_left fuel₁ fuel₂)).symm.trans
    (resume_mono h₂ (Nat.le_max_right fuel₁ fuel₂))
  exact Prod.mk.inj (Option.some.inj hsame)

/-- Unless no step is allowed, one is taken. -/
theorem Resumes.exists_steps {d d' : Debugger} {limit : Option Nat} {r : Except Fault StopReason}
    (h : d.Resumes limit r d') (hlimit : limit ≠ some 0) :
    ∃ k, 1 ≤ k ∧ d' = ⟨next^[k] d.machine, d.breakpoints⟩ := by
  rcases resumes_iff.mp h with ⟨l, rfl, _, _, hd⟩ | ⟨k, _, _, _, hd⟩
  · refine ⟨l, Nat.one_le_iff_ne_zero.mpr ?_, hd⟩
    rintro rfl
    exact hlimit rfl
  · exact ⟨k + 1, by omega, hd⟩

/-- **Where continuing stops.**  It reports a breakpoint exactly if a step arrives there, all steps up
to this one go on, and none before it arrives at a breakpoint.  It reports that the machine has halted,
waits or has failed exactly if a step does so, all steps before it go on, and none of them arrives at a
breakpoint.  It reports the limit exactly if all steps allowed go on and none arrives at a breakpoint.
In each case the machine is the one after these steps, and the breakpoints are the same as before.
There is at most one report, and under a limit there always is one.  Unless the limit is zero a step is
taken, also from a breakpoint. -/
theorem continuing_stops_exactly (d : Debugger) (limit : Option Nat) :
    (∀ p d', d.Resumes limit (.ok (.breakpoint p)) d' ↔
      ∃ k, 1 ≤ k ∧ (∀ l, limit = some l → k ≤ l) ∧ d.machine.GoesOnFor k ∧
        (next^[k] d.machine).core.pc = p ∧ p ∈ d.breakpoints ∧
        ClearBefore d.breakpoints d.machine k ∧ d' = ⟨next^[k] d.machine, d.breakpoints⟩) ∧
    (∀ s r d', ofStep? s = some r → (d.Resumes limit r d' ↔
      ∃ k, 1 ≤ k ∧ (∀ l, limit = some l → k ≤ l) ∧ d.machine.GoesOnFor (k - 1) ∧
        (next^[k - 1] d.machine).step.1 = s ∧ ClearBefore d.breakpoints d.machine k ∧
        d' = ⟨next^[k] d.machine, d.breakpoints⟩)) ∧
    (∀ d', d.Resumes limit (.ok .stepLimit) d' ↔
      ∃ l, limit = some l ∧ d.machine.GoesOnFor l ∧
        ClearBefore d.breakpoints d.machine (l + 1) ∧
        d' = ⟨next^[l] d.machine, d.breakpoints⟩) ∧
    (∀ r₁ r₂ d₁ d₂, d.Resumes limit r₁ d₁ → d.Resumes limit r₂ d₂ → r₁ = r₂ ∧ d₁ = d₂) ∧
    (∀ l fuel, limit = some l → ∃ r d', d.resume fuel limit = some (r, d')) ∧
    (limit ≠ some 0 → ∀ r d', d.Resumes limit r d' →
      ∃ k, 1 ≤ k ∧ d' = ⟨next^[k] d.machine, d.breakpoints⟩) := by
  refine ⟨?_, ?_, ?_, ?_, ?_, ?_⟩
  · intro p d'
    exact resumes_breakpoint_iff
  · intro s r d' hr
    exact resumes_stop_iff hr
  · intro d'
    exact resumes_stepLimit_iff
  · intro r₁ r₂ d₁ d₂ h₁ h₂
    exact h₁.unique h₂
  · rintro l fuel rfl
    exact d.exists_resume_limited l fuel
  · intro hlimit r d' h
    exact h.exists_steps hlimit

/-- A program that jumps to itself, from and to a breakpoint. -/
def spinner : Debugger := ⟨Machine.holding [6, 0] (by decide), [0]⟩

/-- A program that does nothing and then halts.  Both instructions are breakpoints. -/
def sleeper : Debugger := ⟨Machine.holding [21, 0] (by decide), [0, 1]⟩

/-- The jump is taken from the breakpoint and arrives there again; a limit of one step makes no
difference to this, while a limit of zero is reported.  The other program arrives at its second
breakpoint first.  Continued from there it halts, although it is at a breakpoint. -/
theorem spinner_and_sleeper :
    (∃ d, spinner.Resumes (some 1) (.ok (.breakpoint 0)) d ∧ d.machine = next^[1] spinner.machine) ∧
    spinner.Resumes (some 0) (.ok .stepLimit) spinner ∧
    ∃ d d', sleeper.Resumes none (.ok (.breakpoint 1)) d ∧ d.Resumes none (.ok .halted) d' ∧
      d'.machine = next^[2] sleeper.machine ∧ d'.breakpoints = [0, 1] := by
  obtain ⟨d₁, hspin⟩ : ∃ d₁, spinner.resume 0 (some 1) = some (.ok (.breakpoint 0), d₁) := ⟨_, rfl⟩
  obtain ⟨k, hpos, hle, _, _, _, _, rfl⟩ :=
    ((continuing_stops_exactly spinner (some 1)).1 0 d₁).mp ⟨0, hspin⟩
  obtain rfl : k = 1 := Nat.le_antisymm (hle 1 rfl) hpos
  have hnone : spinner.Resumes (some 0) (.ok .stepLimit) spinner :=
    ((continuing_stops_exactly spinner (some 0)).2.2.1 spinner).mpr
      ⟨0, rfl, Machine.goesOnFor_zero _, clearBefore_one _ _, rfl⟩
  have hunlimited : ∀ l, (none : Option Nat) = some l → 1 ≤ l := by
    intro l h
    cases h
  have hgoes : sleeper.machine.GoesOnFor 1 :=
    Machine.goesOnFor_succ.mpr ⟨⟨.advanced, rfl, Or.inl rfl⟩, Machine.goesOnFor_zero _⟩
  have hfirst : sleeper.Resumes none (.ok (.breakpoint 1)) ⟨next^[1] sleeper.machine, [0, 1]⟩ :=
    ((continuing_stops_exactly sleeper none).1 1 _).mpr
      ⟨1, Nat.le_refl 1, hunlimited, hgoes, rfl, by decide, clearBefore_one _ _, rfl⟩
  have hsecond : Resumes ⟨next^[1] sleeper.machine, [0, 1]⟩ none (.ok .halted)
      ⟨next^[2] sleeper.machine, [0, 1]⟩ :=
    ((continuing_stops_exactly ⟨next^[1] sleeper.machine, [0, 1]⟩ none).2.1 (.ok .halted) _ _
      rfl).mpr
      ⟨1, Nat.le_refl 1, hunlimited, Machine.goesOnFor_zero _, rfl, clearBefore_one _ _, rfl⟩
  exact ⟨⟨_, ⟨0, hspin⟩, rfl⟩, hnone, _, _, hfirst, hsecond, rfl, rfl⟩

end Debugger
end WordMachine
