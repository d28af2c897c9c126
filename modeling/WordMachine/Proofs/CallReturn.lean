import WordMachine.Proofs.InstructionTable
import WordMachine.Proofs.Suspension

/-! # Calls and returns

Calls keep their return addresses on the stack that the program also keeps its data on.  No
instruction reaches below the top of the stack: it leaves the stack as it is, puts one word on it
or takes one from it.  So what lies below some depth is not touched while the stack does not get
less deep than that, and a routine that has taken its own data off the stack finds the return
address there.

* `Machine.stack_step` : what a step can do to the stack.
* `Machine.Above` : execution of any length, with waits and new input in between, during which
  the stack is never less deep than some bound.
* `Machine.HaltsInPlace` : where a machine stands that has halted.
* `Machine.call_returns` : a return at the depth of a call goes on behind the call. -/

namespace WordMachine

theorem Core.stack_perform (c : Core) (a : Action) :
    (c.perform a).stack = c.stack ∨ (∃ v, (c.perform a).stack = v :: c.stack) ∨
      (c.perform a).stack = c.stack.tail := by
  cases a with
  | push v => exact Or.inr (Or.inl ⟨v, rfl⟩)
  | call target => exact Or.inr (Or.inl ⟨c.pc + 2, rfl⟩)
  | pop dst v => exact Or.inr (Or.inr (stack_store _ dst v))
  | ret target => exact Or.inr (Or.inr rfl)
  | assign dst v | receive dst v => exact Or.inl (stack_store c dst v)
  | halt | returnFromTop | skip | overwrite addr v | jump target | emit v | await =>
      exact Or.inl rfl

namespace Machine

/-! ### The stack below a depth -/

/-- A step leaves the stack as it is, puts one word on it or takes one from it. -/
theorem stack_step (m : Machine) :
    m.step.2.core.stack = m.core.stack ∨ (∃ v, m.step.2.core.stack = v :: m.core.stack) ∨
      m.step.2.core.stack = m.core.stack.tail := by
  rcases m.step_cases with ⟨_, hs⟩ | ⟨_, f, _, hs⟩ | ⟨_, _, op, _, _, hs⟩
  · rw [hs]
    exact Or.inl rfl
  · rw [hs]
    exact Or.inl rfl
  · have hafter : m.step.2.core.stack = (m.core.perform (m.effect op)).stack := by
      rw [hs]
      exact m.core.stack_after op (m.effect op)
    rw [hafter]
    exact m.core.stack_perform (m.effect op)

/-- What lies at the bottom of the stack stays there if the stack does not get less deep. -/
theorem suffix_step {m : Machine} {base : List Word} (h : base <:+ m.core.stack)
    (hd : base.length ≤ m.step.2.core.stack.length) : base <:+ m.step.2.core.stack := by
  rcases m.stack_step with hs | ⟨v, hs⟩ | hs
  · rw [hs]
    exact h
  · rw [hs]
    exact h.trans (List.suffix_cons v m.core.stack)
  · rw [hs] at hd ⊢
    obtain ⟨top, htop⟩ := h
    -- The word that was taken lies above the bottom, which would be too short otherwise.
    cases top with
    | nil =>
        rw [← htop, List.nil_append, List.length_tail] at hd
        have hnil : base = [] := List.eq_nil_of_length_eq_zero (by omega)
        rw [hnil]
        exact List.nil_suffix
    | cons v top =>
        rw [← htop]
        exact List.suffix_append top base

theorem core_mode_of_queue {m m' : Machine} {ws : List Word} (h : m.queue ws = .ok m') :
    m'.core = m.core ∧ m'.mode = m.mode := by
  rcases queue_eq_ok_iff.mp h with ⟨_, rfl⟩ | ⟨_, _, rfl⟩
  · exact ⟨rfl, rfl⟩
  · exact ⟨rfl, rfl⟩

/-! ### Execution above a depth -/

/-- One move of a machine: a step that does not fail, which may also wait or halt, or input that
is accepted. -/
inductive Moves : Machine → Machine → Prop
  | step {m m' : Machine} {o : Outcome} : m.step = (.ok o, m') → Moves m m'
  | queue {m m' : Machine} {ws : List Word} : m.queue ws = .ok m' → Moves m m'

/-- `Above depth m m'`: moves lead from `m` to `m'`, and the stack is at least `depth` deep in
all machines from `m` to `m'`. -/
inductive Above (depth : Nat) : Machine → Machine → Prop
  | refl {m : Machine} : depth ≤ m.core.stack.length → Above depth m m
  | move {m m₁ m₂ : Machine} :
      depth ≤ m.core.stack.length → Moves m m₁ → Above depth m₁ m₂ → Above depth m m₂

theorem Above.depth_le {depth : Nat} {m m' : Machine} (h : Above depth m m') :
    depth ≤ m.core.stack.length := by
  cases h with
  | refl hd => exact hd
  | move hd _ _ => exact hd

theorem Moves.suffix {m m' : Machine} {base : List Word} (h : Moves m m')
    (hb : base <:+ m.core.stack) (hd : base.length ≤ m'.core.stack.length) :
    base <:+ m'.core.stack := by
  cases h with
  | step hs =>
      have hm' : m.step.2 = m' := congrArg Prod.snd hs
      rw [← hm'] at hd ⊢
      exact suffix_step hb hd
  | queue hq =>
      rw [(core_mode_of_queue hq).1]
      exact hb

/-- Execution above a depth does not touch what lies below it. -/
theorem Above.suffix {m m' : Machine} {base : List Word} (h : Above base.length m m')
    (hb : base <:+ m.core.stack) : base <:+ m'.core.stack := by
  induction h with
  | refl _ => exact hb
  | move _ hmove hrest ih => exact ih (hmove.suffix hb hrest.depth_le)

/-! ### Where a machine halts -/

/-- Only `halt` stops the machine, and a return with an empty stack. -/
theorem effect_halts_iff {m : Machine} {op : Opcode} :
    (m.effect op).outcome = .halted ↔ op = .halt ∨ (op = .ret ∧ m.core.stack = []) := by
  unfold effect
  constructor
  · intro h
    cases op with
    | halt => exact Or.inl rfl
    | ret =>
        by_cases hs : m.core.stack = []
        · exact Or.inr ⟨rfl, hs⟩
        · simp only [Core.effect, if_neg hs] at h
          cases h
    | jt | jf | input =>
        simp only [Core.effect] at h
        split at h <;> cases h
    | _ => cases h
  · rintro (rfl | ⟨rfl, hs⟩)
    · rfl
    · simp only [Core.effect, if_pos hs]
      rfl

theorem core_after_of_halted {m : Machine} {op : Opcode} {a : Action} (h : a.outcome = .halted) :
    (m.after op a).core = m.core := by
  show m.core.after op a = m.core
  cases a with
  | halt | returnFromTop => rfl
  | _ => cases h

/-- A machine that has halted stands at a `halt`, or at a return with an empty stack. -/
def HaltsInPlace (m : Machine) : Prop :=
  m.mode = .halted → m.core.read m.core.pc = Opcode.toWord .halt ∨
    (m.core.read m.core.pc = Opcode.toWord .ret ∧ m.core.stack = [])

theorem HaltsInPlace.of_running {m : Machine} (h : m.mode = .running) : m.HaltsInPlace := by
  intro hm
  rw [h] at hm
  cases hm

theorem Moves.haltsInPlace {m m' : Machine} (h : Moves m m') (hm : m.HaltsInPlace) :
    m'.HaltsInPlace := by
  cases h with
  | step hs =>
      rcases step_eq_ok_cases hs with ⟨_, _, rfl⟩ | ⟨_, op, hop, _, rfl⟩
      · exact hm
      · intro hmode
        have hout : (m.effect op).outcome = .halted := Action.mode_eq_halted_iff.mp hmode
        rw [core_after_of_halted hout, hop]
        rcases effect_halts_iff.mp hout with rfl | ⟨rfl, hnil⟩
        · exact Or.inl rfl
        · exact Or.inr ⟨rfl, hnil⟩
  | queue hq =>
      obtain ⟨hcore, hmode⟩ := core_mode_of_queue hq
      unfold HaltsInPlace
      rw [hcore, hmode]
      exact hm

theorem Above.haltsInPlace {depth : Nat} {m m' : Machine} (h : Above depth m m')
    (hm : m.HaltsInPlace) : m'.HaltsInPlace := by
  induction h with
  | refl _ => exact hm
  | move _ hmove _ ih => exact ih (hmove.haltsInPlace hm)

/-! ### Calls and returns -/

theorem obstacle?_ret (c : Core) : c.obstacle? .ret (c.operandWords .ret) = none := by
  rw [Core.obstacle?_of_ne c (by decide) (by decide)]
  rfl

/-- A call puts the address behind itself on the stack. -/
theorem step_call {m m' : Machine} {o : Outcome} (hm : m.mode ≠ .halted)
    (hcall : m.core.read m.core.pc = Opcode.toWord .call) (h : m.step = (.ok o, m')) :
    m'.core.stack = (m.core.pc + 2) :: m.core.stack ∧ m'.mode = .running := by
  rcases step_eq_ok_cases h with ⟨hh, _, _⟩ | ⟨_, op, hop, _, rfl⟩
  · exact absurd hh hm
  · obtain rfl : op = .call := Opcode.toWord_inj.mp (hop.symm.trans hcall)
    exact ⟨rfl, rfl⟩

/-- The address behind a call is not past the largest word. -/
theorem toNat_return_address {c : Core} (hcall : c.read c.pc = Opcode.toWord .call) :
    (c.pc + 2).toNat = c.pc.toNat + 2 := by
  have hlt := pc_lt_of_opcode hcall (by decide)
  have htwo : (2 : Word).toNat = 2 := rfl
  rw [UInt16.toNat_add, htwo]
  omega

/-- A return takes the topmost word from the stack and goes on there. -/
theorem step_ret {m : Machine} {target : Word} {rest : List Word} (hm : m.mode ≠ .halted)
    (hret : m.core.read m.core.pc = Opcode.toWord .ret) (hs : m.core.stack = target :: rest) :
    ∃ m', m.step = (.ok .jumped, m') ∧ m'.core.pc = target ∧ m'.core.stack = rest := by
  have heff : m.effect .ret = .ret target := by
    unfold effect Core.effect
    simp [hs]
  have hstep := step_of_opcode hm hret (obstacle?_ret m.core)
  rw [heff] at hstep
  refine ⟨_, hstep, rfl, ?_⟩
  show m.core.stack.tail = rest
  rw [hs]
  rfl

/-- **A return at the depth of a call goes on behind the call.**  Whatever is executed after a
call, as long as the stack does not get less deep than the call has left it: a return that is
reached at this depth jumps to the second address after that of the call, and leaves the stack
as it was before the call. -/
theorem call_returns {m m₁ m₂ : Machine} {o : Outcome} (hm : m.mode ≠ .halted)
    (hcall : m.core.read m.core.pc = Opcode.toWord .call) (hstep : m.step = (.ok o, m₁))
    (hbody : Above (m.core.stack.length + 1) m₁ m₂)
    (hdepth : m₂.core.stack.length = m.core.stack.length + 1)
    (hret : m₂.core.read m₂.core.pc = Opcode.toWord .ret) :
    ∃ m₃, m₂.step = (.ok .jumped, m₃) ∧ m₃.core.pc.toNat = m.core.pc.toNat + 2 ∧
      m₃.core.stack = m.core.stack := by
  obtain ⟨hstack, hmode⟩ := step_call hm hcall hstep
  -- The return address and all below it are untouched, and nothing is left above them.
  have hsuffix : ((m.core.pc + 2) :: m.core.stack) <:+ m₂.core.stack := by
    apply Above.suffix (m := m₁)
    · rw [List.length_cons]
      exact hbody
    · exact hstack ▸ List.suffix_rfl
  have hsame : m₂.core.stack = (m.core.pc + 2) :: m.core.stack :=
    (hsuffix.eq_of_length (by rw [hdepth, List.length_cons])).symm
  have hrunning : m₂.mode ≠ .halted := by
    intro hh
    have hplace := hbody.haltsInPlace (HaltsInPlace.of_running hmode)
    rcases hplace hh with hhalt | ⟨_, hnil⟩
    · rw [hret] at hhalt
      cases hhalt
    · rw [hnil] at hsame
      cases hsame
  obtain ⟨m₃, hstep₃, hpc, hstack₃⟩ := step_ret hrunning hret hsame
  refine ⟨m₃, hstep₃, ?_, hstack₃⟩
  rw [hpc, toNat_return_address hcall]

/-- A program that calls a routine, which waits for a word of input before it returns. -/
def caller : Machine := Machine.holding [17, 3, 0, 20, 32768, 18] (by decide)

/-- The routine waits, is given a word of input, stores it and returns to the address behind
the call. -/
theorem waiting_routine_returns :
    ∃ m₁ m₂ m₃, caller.step = (.ok .jumped, m₁) ∧ Above 1 m₁ m₂ ∧
      m₂.core.registers.get 0 = 65 ∧ m₂.step = (.ok .jumped, m₃) ∧
      m₃.core.pc.toNat = 0 + 2 ∧ m₃.core.stack = [] := by
  let called := caller.after .call (.call 3)
  let waiting := called.after .input .await
  let fed := waiting.feed [65]
  let done := fed.after .input (.receive 32768 65)
  have hcall : caller.step = (.ok .jumped, called) := @step_of_opcode caller .call nofun rfl rfl
  have hwait : called.step = (.ok .awaitingInput, waiting) :=
    @step_of_opcode called .input nofun rfl rfl
  have hfeed : waiting.queue [65] = .ok fed := rfl
  have hread : fed.step = (.ok .advanced, done) := @step_of_opcode fed .input nofun rfl rfl
  have hdepth : called.core.stack.length = 1 := rfl
  have hdeep : 1 ≤ called.core.stack.length := Nat.le_of_eq hdepth.symm
  have hbody : Above 1 called done :=
    .move hdeep (.step hwait) (.move hdeep (.queue hfeed) (.move hdeep (.step hread) (.refl hdeep)))
  have hret : done.core.read done.core.pc = Opcode.toWord .ret := rfl
  obtain ⟨m₃, hstep, hpc, hstack⟩ :=
    call_returns (m := caller) (by decide) rfl hcall hbody hdepth hret
  exact ⟨called, done, m₃, hcall, hbody, rfl, hstep, hpc, hstack⟩

end Machine
end WordMachine
