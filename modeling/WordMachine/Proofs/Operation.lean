import WordMachine.Proofs.Schedule

/-! # Operations and transcripts

Everything that can be asked of a machine in a debugger, as data: bringing input, setting the
machine going, collecting output, executing a line of text as a command, and changing registers,
memory, limit, trace and breakpoints.  An operation may take steps of the machine and hand out
output.  Operations that come to an end, one after the other, make a transcript.

* `Operation`, `Reply`, `Operation.apply` : what is asked and what is answered.
* `Operation.attempts`, `Operation.collected`, `Operation.accepted` : the machines from which an
  operation takes a step, the output that it hands out and the input that it brings in.
* `Debugger.inTurn` : whatever is asked of a debugger, one thing after the other.
* `Call`, `Debugger.Transcript` : operations that come to an end, one after the other.
* `Debugger.Transcript.unique` : the same operations are always answered alike. -/

namespace WordMachine

/-- What can be asked of a machine in a debugger. -/
inductive Operation where
  | queue (ws : List Word)
  | queueLine (text : String)
  | run
  | runWords (ws : List Word)
  | runLine (text : String)
  | step
  /-- Continue up to a breakpoint, for at most a number of steps. -/
  | resume (limit : Option Nat)
  /-- Collect the output as words. -/
  | takeWords
  /-- Collect the output as text. -/
  | takeText
  /-- Read a line as a command and execute it. -/
  | command (line : String)
  | setLimit (limit : Option Nat)
  | enableTrace (capacity : Nat)
  | disableTrace
  | clearTrace
  | setRegister (index : Nat) (value : Word)
  | poke (addr value : Word)
  | addBreakpoint (addr : Word)
  | removeBreakpoint (addr : Word)
  deriving DecidableEq, Repr

/-- What an operation answers. -/
inductive Reply where
  | done
  | queued (r : Except Error Unit)
  | ran (r : Except Error RunOutput)
  | stepped (r : Except Fault Outcome)
  | stopped (r : Except Fault StopReason)
  | edited (r : Except EditError Unit)
  | words (ws : List Word)
  | text (text : String)
  | answer (yes : Bool)

/-- Whether a reply is an error. -/
def Reply.failed : Reply → Bool
  | .queued (.error _) | .ran (.error _) | .stepped (.error _) | .stopped (.error _)
  | .edited (.error _) => true
  | _ => false

namespace Debugger

/-- The debugger with another machine. -/
def holding (d : Debugger) (m : Machine) : Debugger := { d with machine := m }

/-- The reply to a change of the machine, and the debugger after it.  A change that is refused
leaves everything as it is. -/
def settle {ε : Type} (d : Debugger) (reply : Except ε Unit → Reply) :
    Except ε Debugger → Reply × Debugger
  | .ok d' => (reply (.ok ()), d')
  | .error e => (reply (.error e), d)

/-- The reply of a run, and the debugger after it. -/
def afterRun (d : Debugger) : Except Error RunOutput × Machine → Reply × Debugger
  | (r, m) => (.ran r, d.holding m)

end Debugger

namespace Operation

/-- The reply to an operation and the debugger after it; `none` if a run does not come to an end
within the fuel. -/
def apply (fuel : Nat) (d : Debugger) : Operation → Option (Reply × Debugger)
  | .queue ws => some (d.settle .queued ((d.machine.queue ws).map d.holding))
  | .queueLine text => some (d.settle .queued (d.feedLine text))
  | .run => (d.machine.run fuel).map d.afterRun
  | .runWords ws => (d.machine.runWords fuel ws).map d.afterRun
  | .runLine text => (d.machine.runLine fuel text).map d.afterRun
  | .step => some (.stepped d.step.1, d.step.2)
  | .resume limit => (d.resume fuel limit).map (fun (r, d') => (.stopped r, d'))
  | .takeWords => some (.words d.machine.takeOutput.1, d.holding d.machine.takeOutput.2)
  | .takeText => some (.text d.takeOutput.1, d.takeOutput.2)
  | .command line => (d.command fuel line).map (fun (text, d') => (.text text, d'))
  | .setLimit limit => some (.done, d.holding (d.machine.setLimit limit))
  | .enableTrace capacity => some (.done, d.holding (d.machine.enableTrace capacity))
  | .disableTrace => some (.done, d.holding d.machine.disableTrace)
  | .clearTrace => some (.done, d.holding d.machine.clearTrace)
  | .setRegister index value => some (d.settle .edited (d.setRegister index value))
  | .poke addr value => some (d.settle .edited (d.poke addr value))
  | .addBreakpoint addr => some (.answer (d.addBreakpoint addr).1, (d.addBreakpoint addr).2)
  | .removeBreakpoint addr =>
    some (.answer (d.removeBreakpoint addr).1, (d.removeBreakpoint addr).2)

/-- Whether an operation changes a register or a word of memory from outside. -/
def edits : Operation → Bool
  | .setRegister _ _ | .poke _ _ => true
  | .command line =>
    match Command.read line with
    | .ok c => c.edits
    | .error _ => false
  | _ => false

/-- Whether an operation starts, stops or clears a trace. -/
def isTracing : Operation → Bool
  | .enableTrace _ | .disableTrace | .clearTrace => true
  | _ => false

end Operation

/-! ### Steps that are taken -/

namespace Machine

/-- The machines from which at most `n` steps are taken, as long as each goes on. -/
def attempts : Nat → Machine → List Machine
  | 0, _ => []
  | n + 1, m =>
    m :: match m.step with
      | (.ok .advanced, m') => attempts n m'
      | (.ok .jumped, m') => attempts n m'
      | _ => []

/-- The machines from which a run takes a step. -/
def runAttempts (fuel : Nat) (m : Machine) : List Machine :=
  if m.mode = .halted then [] else m.attempts (m.limit.getD fuel)

/-- The machines from which a run takes a step that brings input along. -/
def runWordsAttempts (fuel : Nat) (m : Machine) (ws : List Word) : List Machine :=
  match m.queue ws with
  | .ok m => m.runAttempts fuel
  | .error _ => []

/-- The part of a batch of input that is accepted: all of it or nothing. -/
def accepted (m : Machine) (ws : List Word) : List Word :=
  if m.mode ≠ .halted ∧ ws.all (·.toNat ≤ 32767) then ws else []

end Machine

namespace Debugger

/-- The machines from which at most `n` steps are taken, up to one that stops or arrives at a
breakpoint. -/
def attemptsTo (bs : Breakpoints) : Nat → Machine → List Machine
  | 0, _ => []
  | n + 1, m =>
    m :: match m.step with
      | (.ok .advanced, m') => if bs.contains m'.core.pc then [] else attemptsTo bs n m'
      | (.ok .jumped, m') => if bs.contains m'.core.pc then [] else attemptsTo bs n m'
      | _ => []

end Debugger

namespace Operation

/-- The machines from which an operation takes a step, in order. -/
def attempts (fuel : Nat) (d : Debugger) : Operation → List Machine
  | .run => d.machine.runAttempts fuel
  | .runWords ws => d.machine.runWordsAttempts fuel ws
  | .runLine text => d.machine.runWordsAttempts fuel (Text.lineUnits text)
  | .step => [d.machine]
  | .resume limit => Debugger.attemptsTo d.breakpoints (limit.getD fuel) d.machine
  | .command line =>
    match Command.read line with
    | .ok (.step count) => d.machine.attempts count
    | .ok .resume => Debugger.attemptsTo d.breakpoints fuel d.machine
    | _ => []
  | _ => []

/-- The words of output that an operation hands out with its reply. -/
def collected (fuel : Nat) (d : Debugger) : Operation → Reply → List Word
  | _, .ran r => RunOutput.handedOut r
  | _, .words ws => ws
  | .takeText, _ => d.machine.output.toList
  | .command line, _ =>
    match Command.read line with
    | .ok c => (d.shown fuel c).2
    | .error _ => []
  | _, _ => []

/-- The words that an operation offers to the machine as input. -/
def batch : Operation → List Word
  | .queue ws | .runWords ws => ws
  | .queueLine text | .runLine text => Text.lineUnits text
  | _ => []

/-- The words of input that an operation brings in. -/
def accepted (d : Debugger) (op : Operation) : List Word := d.machine.accepted op.batch

end Operation

/-! ### One after the other -/

namespace Debugger

/-- The answers to a list of things that are asked one after the other, and the debugger after them;
`none` if one of them has no answer. -/
def inTurn {α β : Type} (ask : α → Debugger → Option (β × Debugger)) :
    List α → Debugger → Option (List β × Debugger)
  | [], d => some ([], d)
  | x :: xs, d =>
    match ask x d with
    | none => none
    | some (y, d₁) => (inTurn ask xs d₁).map (Prod.map (y :: ·) id)

section

variable {α β : Type} {ask : α → Debugger → Option (β × Debugger)} {d d' : Debugger}

/-- The first answer, and the answers behind it. -/
theorem inTurn_cons_eq_some_iff {x : α} {xs : List α} {ys : List β} :
    inTurn ask (x :: xs) d = some (ys, d') ↔
      ∃ y d₁ zs, ask x d = some (y, d₁) ∧ inTurn ask xs d₁ = some (zs, d') ∧ ys = y :: zs := by
  rw [inTurn]
  constructor
  · intro h
    split at h
    · cases h
    next y d₁ hx =>
      obtain ⟨⟨zs, d₂⟩, hrest, heq⟩ := Option.map_eq_some_iff.mp h
      cases heq
      exact ⟨y, d₁, zs, hx, hrest, rfl⟩
  · rintro ⟨y, d₁, zs, hx, hrest, rfl⟩
    simp only [hx, hrest]
    rfl

theorem inTurn_append {xs zs : List α} {ys : List β} (h : inTurn ask (xs ++ zs) d = some (ys, d')) :
    ∃ us d₁ vs, inTurn ask xs d = some (us, d₁) ∧ inTurn ask zs d₁ = some (vs, d') ∧
      ys = us ++ vs := by
  induction xs generalizing d ys with
  | nil => exact ⟨[], d, ys, rfl, h, rfl⟩
  | cons x xs ih =>
      obtain ⟨y, d₁, us, hx, hrest, rfl⟩ := inTurn_cons_eq_some_iff.mp h
      obtain ⟨us, d₂, vs, hfirst, hlast, rfl⟩ := ih hrest
      exact ⟨y :: us, d₂, vs, inTurn_cons_eq_some_iff.mpr ⟨y, d₁, us, hx, hfirst, rfl⟩, hlast, rfl⟩

theorem length_inTurn {xs : List α} {ys : List β} (h : inTurn ask xs d = some (ys, d')) :
    ys.length = xs.length := by
  induction xs generalizing d ys with
  | nil =>
      cases h
      rfl
  | cons x xs ih =>
      obtain ⟨y, d₁, us, _, hrest, rfl⟩ := inTurn_cons_eq_some_iff.mp h
      simp [ih hrest]

/-- A change of the debugger that commutes with everything asked commutes with all of it in turn. -/
theorem inTurn_map {g : Debugger → Debugger}
    (hg : ∀ x d, ask x (g d) = (ask x d).map (Prod.map id g)) (xs : List α) (d : Debugger) :
    inTurn ask xs (g d) = (inTurn ask xs d).map (Prod.map id g) := by
  induction xs generalizing d with
  | nil => rfl
  | cons x xs ih =>
      simp only [inTurn, hg]
      cases ask x d with
      | none => rfl
      | some y =>
          obtain ⟨y, d₁⟩ := y
          simp only [Option.map_some, Prod.map, id, ih]
          cases inTurn ask xs d₁ <;> rfl

/-- What answers more answers more in turn. -/
theorem inTurn_mono {more : α → Debugger → Option (β × Debugger)}
    (hmore : ∀ x d y, ask x d = some y → more x d = some y) {xs : List α} {ys : List β}
    (h : inTurn ask xs d = some (ys, d')) : inTurn more xs d = some (ys, d') := by
  induction xs generalizing d ys with
  | nil => exact h
  | cons x xs ih =>
      obtain ⟨y, d₁, us, hx, hrest, rfl⟩ := inTurn_cons_eq_some_iff.mp h
      exact inTurn_cons_eq_some_iff.mpr ⟨y, d₁, us, hmore x d _ hx, ih hrest, rfl⟩

end

end Debugger

/-- The replies to operations one after the other, and the debugger after them; `none` if one of them
does not come to an end within the fuel. -/
def Operation.applyAll (fuel : Nat) : List Operation → Debugger → Option (List Reply × Debugger) :=
  Debugger.inTurn fun op d => op.apply fuel d

/-! ### Transcripts -/

/-- An operation that has come to an end. -/
structure Call where
  operation : Operation
  reply : Reply
  /-- The machines from which it took a step, in order. -/
  attempts : List Machine
  /-- The words of output that it handed out. -/
  collected : List Word
  /-- The words of input that it brought in. -/
  accepted : List Word
  /-- The debugger after it. -/
  after : Debugger

/-- The call that an operation makes, and the debugger after it. -/
def Operation.call (fuel : Nat) (d : Debugger) (op : Operation) : Option (Call × Debugger) :=
  (op.apply fuel d).map fun (r, d') =>
    (⟨op, r, op.attempts fuel d, op.collected fuel d r, op.accepted d, d'⟩, d')

namespace Debugger

/-- `Transcript d cs d'`: the calls `cs`, one after the other, lead from `d` to `d'`.  Each of them
comes to an end, whatever fuel that takes. -/
inductive Transcript : Debugger → List Call → Debugger → Prop
  | nil (d : Debugger) : Transcript d [] d
  | cons {d d₁ d₂ : Debugger} {op : Operation} {fuel : Nat} {c : Call} {cs : List Call} :
      op.call fuel d = some (c, d₁) → Transcript d₁ cs d₂ → Transcript d (c :: cs) d₂

end Debugger

theorem Operation.call_eq_some_iff {op : Operation} {fuel : Nat} {d d' : Debugger} {c : Call} :
    op.call fuel d = some (c, d') ↔ ∃ r, op.apply fuel d = some (r, d') ∧
      c = ⟨op, r, op.attempts fuel d, op.collected fuel d r, op.accepted d, d'⟩ := by
  unfold call
  constructor
  · intro h
    obtain ⟨⟨r, d₁⟩, hr, he⟩ := Option.map_eq_some_iff.mp h
    obtain ⟨rfl, rfl⟩ := Prod.mk.inj he
    exact ⟨r, hr, rfl⟩
  · rintro ⟨r, hr, rfl⟩
    rw [hr]
    rfl

/-- What holds of every operation that comes to an end holds of every call of a transcript. -/
theorem Debugger.Transcript.forall_mem {P : Call → Prop} {d d' : Debugger} {cs : List Call}
    (h : Transcript d cs d')
    (hP : ∀ op fuel d c d', Operation.call fuel d op = some (c, d') → P c) : ∀ c ∈ cs, P c := by
  induction h with
  | nil d => exact List.forall_mem_nil _
  | cons hcall _ ih => exact List.forall_mem_cons.mpr ⟨hP _ _ _ _ _ hcall, ih⟩

/-! ### Fuel does not matter -/

namespace Debugger

/-- Continuing for more steps does not change where it stopped. -/
theorem advanceTo_mono {bs : Breakpoints} {n k : Nat} {m m' : Machine}
    {r : Except Fault StopReason} (h : advanceTo bs n m = (r, m')) (hr : r ≠ .ok .stepLimit)
    (hk : n ≤ k) : advanceTo bs k m = (r, m') := by
  induction n generalizing m k with
  | zero =>
      cases h
      exact absurd rfl hr
  | succ n ih =>
      obtain ⟨j, rfl⟩ : ∃ j, k = j + 1 := ⟨k - 1, by omega⟩
      rcases m.step_goesOn_or_pauses with ⟨o, m₁, hs, ho⟩ | ⟨p, s, m₁, hs, hp⟩
      · rw [advanceTo_succ_of_goesOn hs ho] at h ⊢
        split at h
        next hb =>
          rw [if_pos hb]
          exact h
        next hb =>
          rw [if_neg hb]
          exact ih h (by omega)
      · rw [advanceTo, hs] at h ⊢
        cases p with
        | spent => cases hp
        | awaitingInput | halted | faulted f =>
            cases hp
            exact h

theorem resume_mono {d : Debugger} {fuel k : Nat} {limit : Option Nat}
    {x : Except Fault StopReason × Debugger} (h : d.resume fuel limit = some x) (hk : fuel ≤ k) :
    d.resume k limit = some x := by
  cases limit with
  | some l => exact h
  | none =>
      obtain ⟨r, d'⟩ := x
      obtain ⟨ha, hbs, hr⟩ := resume_eq_some h
      have hmore := advanceTo_mono ha (hr rfl) hk
      unfold resume
      simp only [Option.getD_none, hmore]
      split
      next heq =>
        cases heq
        exact absurd rfl (hr rfl)
      next heq =>
        cases heq
        rw [← hbs]

theorem command_mono {d : Debugger} {fuel k : Nat} {line : String} {x : String × Debugger}
    (h : d.command fuel line = some x) (hk : fuel ≤ k) : d.command k line = some x := by
  unfold command at h ⊢
  cases hread : Command.read line with
  | error e =>
      rw [hread] at h
      exact h
  | ok c =>
      rw [hread] at h
      cases c with
      | resume =>
          obtain ⟨y, hy, hx⟩ := Option.map_eq_some_iff.mp h
          exact Option.map_eq_some_iff.mpr ⟨y, resume_mono hy hk, hx⟩
      | _ => exact h

end Debugger

theorem Operation.apply_mono {op : Operation} {fuel k : Nat} {d : Debugger}
    {x : Reply × Debugger} (h : op.apply fuel d = some x) (hk : fuel ≤ k) :
    op.apply k d = some x := by
  cases op with
  | run =>
      obtain ⟨y, hy, hx⟩ := Option.map_eq_some_iff.mp h
      exact Option.map_eq_some_iff.mpr ⟨y, Machine.run_mono hy hk, hx⟩
  | runWords ws | runLine text =>
      obtain ⟨y, hy, hx⟩ := Option.map_eq_some_iff.mp h
      exact Option.map_eq_some_iff.mpr ⟨y, Machine.runWords_mono hy hk, hx⟩
  | resume limit =>
      obtain ⟨y, hy, hx⟩ := Option.map_eq_some_iff.mp h
      exact Option.map_eq_some_iff.mpr ⟨y, Debugger.resume_mono hy hk, hx⟩
  | command line =>
      obtain ⟨y, hy, hx⟩ := Option.map_eq_some_iff.mp h
      exact Option.map_eq_some_iff.mpr ⟨y, Debugger.command_mono hy hk, hx⟩
  | _ => exact h

theorem Operation.apply_unique {op : Operation} {fuel₁ fuel₂ : Nat} {d d₁ d₂ : Debugger}
    {r₁ r₂ : Reply} (h₁ : op.apply fuel₁ d = some (r₁, d₁)) (h₂ : op.apply fuel₂ d = some (r₂, d₂)) :
    r₁ = r₂ ∧ d₁ = d₂ := by
  -- The larger amount of fuel serves both.
  have e₁ := apply_mono h₁ (Nat.le_max_left fuel₁ fuel₂)
  have e₂ := apply_mono h₂ (Nat.le_max_right fuel₁ fuel₂)
  exact Prod.mk.inj (Option.some.inj (e₁.symm.trans e₂))

/-- The same operations are answered alike and lead to the same debugger. -/
theorem Debugger.Transcript.unique {d d₁ d₂ : Debugger} {cs₁ cs₂ : List Call}
    (h₁ : Transcript d cs₁ d₁) (h₂ : Transcript d cs₂ d₂)
    (hops : cs₁.map (·.operation) = cs₂.map (·.operation)) :
    cs₁.map (·.reply) = cs₂.map (·.reply) ∧ d₁ = d₂ := by
  induction h₁ generalizing cs₂ with
  | nil d =>
      cases h₂ with
      | nil => exact ⟨rfl, rfl⟩
      | cons => cases hops
  | cons hcall _ ih =>
      cases h₂ with
      | nil => cases hops
      | cons hcall' hrest' =>
          obtain ⟨r, hr, rfl⟩ := Operation.call_eq_some_iff.mp hcall
          obtain ⟨r', hr', rfl⟩ := Operation.call_eq_some_iff.mp hcall'
          obtain ⟨hop, hops'⟩ := List.cons.inj hops
          obtain rfl := hop
          obtain ⟨rfl, rfl⟩ := Operation.apply_unique hr hr'
          obtain ⟨hreplies, rfl⟩ := ih hrest' hops'
          exact ⟨congrArg (r :: ·) hreplies, rfl⟩

end WordMachine
