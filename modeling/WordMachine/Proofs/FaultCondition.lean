import WordMachine.Proofs.Step
import WordMachine.Proofs.Loading

/-! # When a step fails

The exact conditions under which the step of a machine fails, and the fault that it then
reports.  A word that is no opcode is reported as such.  Otherwise the source operands of the
decoded instruction decide, then the stack for `pop` and the divisor for `mod`.  The table of
operand counts, the table of destinations, the choice of the planner and the operands that each
planner reads agree for every opcode, so that no planner ever refuses what it is given. -/

namespace WordMachine

/-- The operand words of an instruction that are read as values. -/
def Instruction.sources (i : Instruction) : List Word := i.opcode.sources i.operands

namespace Machine

/-- The conditions under which the step of a machine that has decoded an instruction fails. -/
structure FailsExactly (m : Machine) (i : Instruction) : Prop where
  /-- The first source that denotes nothing is reported. -/
  invalidOperand : ∀ pc v, m.step.1 = .error (.invalidOperand pc v) ↔
    pc = m.core.pc ∧ 32776 ≤ v.toNat ∧
      ∃ before after, i.sources = before ++ v :: after ∧ ∀ w ∈ before, w.toNat < 32776
  stackUnderflow : ∀ pc, m.step.1 = .error (.stackUnderflow pc) ↔
    pc = m.core.pc ∧ i.opcode = .pop ∧ m.core.stack = []
  divisionByZero : ∀ pc, m.step.1 = .error (.divisionByZero pc) ↔
    pc = m.core.pc ∧ i.opcode = .mod ∧
      ∃ dst x y, i.operands = [dst, x, y] ∧ x.toNat < 32776 ∧ m.core.value y = .ok 0
  /-- A destination plays no part in it. -/
  destination : i.opcode.storesResult = true → ∀ dst f,
    m.plan i.opcode (dst :: i.operands.tail) = .error f ↔ m.plan i.opcode i.operands = .error f
  /-- A conditional jump reads its target whether it is taken or not. -/
  target : i.opcode = .jt ∨ i.opcode = .jf → ∀ cond target, i.operands = [cond, target] →
    cond.toNat < 32776 → 32776 ≤ target.toNat →
    m.step.1 = .error (.invalidOperand m.core.pc target)
  /-- The planner accepts the opcode and finds the operands that it looks for. -/
  accepted : ∀ pc w, m.plan i.opcode i.operands ≠ .error (.unknownOpcode pc w)
  /-- The planner looks at no operand beyond those that were decoded. -/
  bounded : ∀ extra, m.plan i.opcode (i.operands ++ extra) = m.plan i.opcode i.operands

theorem step_fst_eq_error_iff {m : Machine} (hm : m.mode ≠ .halted) {f : Fault} :
    m.step.1 = .error f ↔ m.core.fault? = some f := by
  constructor
  · intro h
    exact (step_eq_error_iff.mp (Prod.ext h rfl : m.step = (.error f, m.step.2))).2.1
  · intro h
    rw [step_of_fault hm h]

section decoded

variable {m : Machine} {i : Instruction} (hm : m.mode ≠ .halted) (hi : m.core.fetch = .ok i)
include hi

theorem length_operands_of_fetch : i.operands.length = i.opcode.arity := by
  rw [(Core.fetch_eq_ok_iff.mp hi).2.2, Core.length_operandWords]

theorem plan_eq_error_iff_of_fetch {f : Fault} :
    m.plan i.opcode i.operands = .error f ↔ m.core.obstacle? i.opcode i.operands = some f := by
  unfold plan
  rw [Core.plan_eq _ _ _ (length_operands_of_fetch hi)]
  cases m.core.obstacle? i.opcode i.operands <;> simp

/-- Putting another word in the place of a destination does not change how planning fails. -/
theorem plan_destination_eq_error_iff (hs : i.opcode.storesResult = true) (dst : Word)
    (f : Fault) :
    m.plan i.opcode (dst :: i.operands.tail) = .error f ↔
      m.plan i.opcode i.operands = .error f := by
  rw [plan_eq_error_iff_of_fetch hi]
  have hlen := length_operands_of_fetch hi
  cases hw : i.operands with
  | nil =>
      rw [hw] at hlen
      cases hop : i.opcode <;> simp [hop, Opcode.storesResult, Opcode.arity] at hs hlen
  | cons a ws =>
      have hlen' : (dst :: ws).length = i.opcode.arity := by
        rw [← hlen, hw]
        rfl
      unfold plan
      rw [List.tail_cons, Core.plan_eq _ _ _ hlen', Core.obstacle?_destination _ hs dst a]
      cases m.core.obstacle? i.opcode (a :: ws) <;> simp

/-- No planner refuses an instruction that was decoded. -/
theorem plan_ne_unknownOpcode (pc w : Word) :
    m.plan i.opcode i.operands ≠ .error (.unknownOpcode pc w) := by
  rw [ne_eq, plan_eq_error_iff_of_fetch hi, Core.obstacle?_eq_some_iff]
  rintro (⟨_, _, he⟩ | ⟨_, _, _, he⟩ | ⟨_, _, _, he⟩) <;> cases he

include hm

theorem step_fst_eq_error_iff_of_fetch {f : Fault} :
    m.step.1 = .error f ↔ m.core.obstacle? i.opcode i.operands = some f := by
  rw [step_fst_eq_error_iff hm]
  unfold Core.fault?
  rw [hi]

theorem step_invalidOperand_iff (pc v : Word) :
    m.step.1 = .error (.invalidOperand pc v) ↔
      pc = m.core.pc ∧ 32776 ≤ v.toNat ∧
        ∃ before after, i.sources = before ++ v :: after ∧ ∀ w ∈ before, w.toNat < 32776 := by
  rw [step_fst_eq_error_iff_of_fetch hm hi, Core.obstacle?_eq_some_iff,
    ← Core.firstInvalid?_eq_some_iff]
  constructor
  · rintro (⟨u, hu, he⟩ | ⟨_, _, _, he⟩ | ⟨_, _, _, he⟩)
    · cases he
      exact ⟨rfl, hu⟩
    · cases he
    · cases he
  · rintro ⟨rfl, hv⟩
    exact Or.inl ⟨v, hv, rfl⟩

theorem step_stackUnderflow_iff (pc : Word) :
    m.step.1 = .error (.stackUnderflow pc) ↔
      pc = m.core.pc ∧ i.opcode = .pop ∧ m.core.stack = [] := by
  rw [step_fst_eq_error_iff_of_fetch hm hi, Core.obstacle?_eq_some_iff]
  constructor
  · rintro (⟨u, _, he⟩ | ⟨_, hp, hs, he⟩ | ⟨_, _, _, he⟩)
    · cases he
    · cases he
      exact ⟨rfl, hp, hs⟩
    · cases he
  · rintro ⟨rfl, hp, hs⟩
    -- The only operand of `pop` is its destination, so no source can be reported first.
    have hlen := length_operands_of_fetch hi
    rw [hp] at hlen
    obtain ⟨a, ha⟩ := List.length_eq_one_iff.mp hlen
    have hnone : Core.firstInvalid? (i.opcode.sources i.operands) = none := by
      rw [hp, ha]
      rfl
    exact Or.inr (Or.inl ⟨hnone, hp, hs, rfl⟩)

theorem step_divisionByZero_iff (pc : Word) :
    m.step.1 = .error (.divisionByZero pc) ↔
      pc = m.core.pc ∧ i.opcode = .mod ∧
        ∃ dst x y, i.operands = [dst, x, y] ∧ x.toNat < 32776 ∧ m.core.value y = .ok 0 := by
  rw [step_fst_eq_error_iff_of_fetch hm hi, Core.obstacle?_eq_some_iff]
  constructor
  · rintro (⟨u, _, he⟩ | ⟨_, _, _, he⟩ | ⟨hv, hop, hz, he⟩)
    · cases he
    · cases he
    · cases he
      have hlen := length_operands_of_fetch hi
      rw [hop] at hlen
      obtain ⟨dst, x, y, hw⟩ := List.length_eq_three.mp hlen
      rw [hop, hw] at hv
      rw [hw] at hz
      have hxy : ∀ w ∈ [x, y], w.toNat < 32776 := Core.firstInvalid?_eq_none_iff.mp hv
      refine ⟨rfl, hop, dst, x, y, hw, hxy x (by simp), ?_⟩
      rw [Core.value_of_lt _ (hxy y (by simp))]
      exact congrArg Except.ok hz
  · rintro ⟨rfl, hop, dst, x, y, hw, hx, hy⟩
    have hy' : y.toNat < 32776 := by
      by_contra hge
      rw [Core.value_of_ge _ (by omega)] at hy
      cases hy
    have hnone : Core.firstInvalid? (i.opcode.sources i.operands) = none := by
      rw [hop, hw]
      apply Core.firstInvalid?_eq_none_iff.mpr
      intro w hmem
      rcases List.mem_cons.mp hmem with rfl | hmem
      · exact hx
      · rw [List.mem_singleton.mp hmem]
        exact hy'
    rw [Core.value_of_lt _ hy'] at hy
    refine Or.inr (Or.inr ⟨hnone, hop, ?_, rfl⟩)
    rw [hw]
    exact Except.ok.inj hy

theorem step_of_bad_target (hj : i.opcode = .jt ∨ i.opcode = .jf) {cond target : Word}
    (hw : i.operands = [cond, target]) (hc : cond.toNat < 32776) (ht : 32776 ≤ target.toNat) :
    m.step.1 = .error (.invalidOperand m.core.pc target) := by
  rw [step_invalidOperand_iff hm hi]
  refine ⟨rfl, ht, [cond], [], ?_, ?_⟩
  · unfold Instruction.sources
    rcases hj with hj | hj
    · rw [hj, hw]
      rfl
    · rw [hj, hw]
      rfl
  · intro w hmem
    rw [List.mem_singleton.mp hmem]
    exact hc

end decoded

theorem step_unknownOpcode_iff {m : Machine} (hm : m.mode ≠ .halted) (pc w : Word) :
    m.step.1 = .error (.unknownOpcode pc w) ↔
      pc = m.core.pc ∧ w = m.core.memory.read m.core.pc.toNat ∧ 21 < w.toNat := by
  rw [step_fst_eq_error_iff hm]
  rcases m.core.opcode_cases with hu | ⟨op, hop⟩
  · rw [Core.fault?_of_unknown hu]
    constructor
    · intro h
      cases h
      exact ⟨rfl, rfl, hu⟩
    · rintro ⟨rfl, rfl, _⟩
      rfl
  · have hle := op.toWord_toNat_le
    rw [Core.fault?_of_opcode hop]
    constructor
    · intro h
      rcases Core.obstacle?_eq_some_iff.mp h with ⟨_, _, he⟩ | ⟨_, _, _, he⟩ | ⟨_, _, _, he⟩ <;>
        cases he
    · rintro ⟨_, rfl, hgt⟩
      have hread : m.core.memory.read m.core.pc.toNat = op.toWord := hop
      rw [hread] at hgt
      omega

theorem exists_fetch_eq_ok_iff (c : Core) :
    (∃ i, c.fetch = .ok i) ↔ (c.memory.read c.pc.toNat).toNat ≤ 21 := by
  constructor
  · rintro ⟨i, hi⟩
    have hop : c.memory.read c.pc.toNat = i.opcode.toWord := (Core.fetch_eq_ok_iff.mp hi).1
    rw [hop]
    exact i.opcode.toWord_toNat_le
  · intro h
    rcases c.opcode_cases with hu | ⟨op, hop⟩
    · exact absurd h (Nat.not_le.mpr hu)
    · exact ⟨_, Core.fetch_of_opcode hop⟩

/-- **When a step fails.**  Of a machine that has not halted, the step fails with an unknown
opcode exactly if the word at the instruction pointer is none, and otherwise for exactly the
reasons that the decoded instruction gives. -/
theorem step_fails_exactly (m : Machine) (hm : m.mode ≠ .halted) :
    (∀ pc w, m.step.1 = .error (.unknownOpcode pc w) ↔
      pc = m.core.pc ∧ w = m.core.memory.read m.core.pc.toNat ∧ 21 < w.toNat) ∧
    ((∃ i, m.core.fetch = .ok i) ↔ (m.core.memory.read m.core.pc.toNat).toNat ≤ 21) ∧
    (∀ i, m.core.fetch = .ok i → m.FailsExactly i) := by
  refine ⟨step_unknownOpcode_iff hm, exists_fetch_eq_ok_iff m.core, ?_⟩
  intro i hi
  exact {
    invalidOperand := step_invalidOperand_iff hm hi
    stackUnderflow := step_stackUnderflow_iff hm hi
    divisionByZero := step_divisionByZero_iff hm hi
    destination := plan_destination_eq_error_iff hi
    target := fun hj _ _ hw hc ht => step_of_bad_target hm hi hj hw hc ht
    accepted := plan_ne_unknownOpcode hi
    bounded := Core.plan_append m.core m.input.head? i.opcode (length_operands_of_fetch hi) }

/-- A conditional jump that is not taken and whose target denotes nothing. -/
theorem untaken_jump_fails :
    let m := Machine.holding [7, 0, 40000] (by decide)
    m.mode ≠ .halted ∧ m.core.fetch = .ok ⟨0, .jt, [0, 40000]⟩ ∧
      m.step.1 = .error (.invalidOperand 0 40000) := by
  intro m
  have hm : m.mode ≠ .halted := by decide
  have hi : m.core.fetch = .ok ⟨0, .jt, [0, 40000]⟩ := rfl
  have hfails := (step_fails_exactly m hm).2.2 _ hi
  exact ⟨hm, hi, hfails.target (Or.inl rfl) 0 40000 rfl (by decide) (by decide)⟩

end Machine
end WordMachine
