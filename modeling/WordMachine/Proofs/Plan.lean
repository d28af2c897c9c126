import Mathlib.Data.List.Basic
import WordMachine.Action
import WordMachine.Proofs.Operand

/-! # What is planned

The four planners read operands, stack and input in orders of their own.  `Core.plan_eq` says
what they have in common.  An operation is refused for the first of its sources that denotes
nothing, else for an empty stack (`pop`) or a zero divisor (`mod`): `Core.obstacle?`.  If
nothing stands in its way it does what its opcode says with the values of its sources:
`Core.effect`.  No planner refuses an opcode of its own family or misses an operand, and none
looks at more operands than its opcode has. -/

namespace WordMachine

/-- The operand words that are read as values: all of them, but for a destination in front. -/
def Opcode.sources (op : Opcode) (operands : List Word) : List Word :=
  if op.storesResult then operands.tail else operands

namespace Core

/-- The first of some source words that denotes nothing. -/
def firstInvalid? (ws : List Word) : Option Word := ws.find? (fun w => 32776 ≤ w.toNat)

/-- What stands in the way of an operation. -/
def obstacle? (c : Core) (op : Opcode) (operands : List Word) : Option Fault :=
  match firstInvalid? (op.sources operands) with
  | some w => some (.invalidOperand c.pc w)
  | none =>
    if op = .pop ∧ c.stack = [] then some (.stackUnderflow c.pc)
    else if op = .mod ∧ c.sourceValue (operands.getD 2 0) = 0 then some (.divisionByZero c.pc)
    else none

/-- What an operation does when nothing stands in its way. -/
def effect (c : Core) (next? : Option Word) (op : Opcode) (operands : List Word) : Action :=
  let dst := operands.getD 0 0
  let x := c.sourceValue (operands.getD 0 0)
  let y := c.sourceValue (operands.getD 1 0)
  let z := c.sourceValue (operands.getD 2 0)
  match op with
  | .halt => .halt
  | .set => .assign dst y
  | .push => .push x
  | .pop => .pop dst (c.stack.headD 0)
  | .eq => .assign dst (if y = z then 1 else 0)
  | .gt => .assign dst (if z < y then 1 else 0)
  | .jmp => .jump x
  | .jt => if x = 0 then .skip else .jump y
  | .jf => if x = 0 then .jump y else .skip
  | .add => .assign dst (Word.sum y z)
  | .mult => .assign dst (Word.product y z)
  | .mod => .assign dst (y % z)
  | .and => .assign dst (y &&& z)
  | .or => .assign dst (y ||| z)
  | .not => .assign dst (Word.complement y)
  | .rmem => .assign dst (c.read y)
  | .wmem => .overwrite x y
  | .call => .call x
  | .ret => if c.stack = [] then .returnFromTop else .ret (c.stack.headD 0)
  | .output => .emit x
  | .input => match next? with
    | some v => .receive dst v
    | none => .await
  | .noop => .skip

/-! ### The first invalid source -/

theorem firstInvalid?_nil : firstInvalid? [] = none := rfl

theorem firstInvalid?_cons (w : Word) (ws : List Word) :
    firstInvalid? (w :: ws) = if 32776 ≤ w.toNat then some w else firstInvalid? ws := by
  unfold firstInvalid?
  rw [List.find?_cons]
  by_cases h : 32776 ≤ w.toNat <;> simp [h]

theorem firstInvalid?_eq_none_iff {ws : List Word} :
    firstInvalid? ws = none ↔ ∀ w ∈ ws, w.toNat < 32776 := by
  simp [firstInvalid?, List.find?_eq_none]

theorem firstInvalid?_eq_some_iff {ws : List Word} {w : Word} :
    firstInvalid? ws = some w ↔
      32776 ≤ w.toNat ∧ ∃ before after, ws = before ++ w :: after ∧ ∀ x ∈ before, x.toNat < 32776 := by
  simp [firstInvalid?, List.find?_eq_some_iff_append]

/-! ### The planners -/

/-- Reading one source, then going on. -/
theorem value_bind_one (c : Core) (u : Word) (k : Word → Except Fault Action) :
    (c.value u >>= k) =
      match firstInvalid? [u] with
      | some w => .error (.invalidOperand c.pc w)
      | none => k (c.sourceValue u) := by
  rw [value_bind, firstInvalid?_cons]
  by_cases hu : 32776 ≤ u.toNat
  · rw [if_pos hu, if_pos hu]
  · rw [if_neg hu, if_neg hu, firstInvalid?_nil]

/-- Reading two sources in order, then going on. -/
theorem value_bind_two (c : Core) (u v : Word) (k : Word → Word → Except Fault Action) :
    (c.value u >>= fun x => c.value v >>= k x) =
      match firstInvalid? [u, v] with
      | some w => .error (.invalidOperand c.pc w)
      | none => k (c.sourceValue u) (c.sourceValue v) := by
  rw [value_bind, firstInvalid?_cons]
  by_cases hu : 32776 ≤ u.toNat
  · rw [if_pos hu, if_pos hu]
  · rw [if_neg hu, if_neg hu]
    exact value_bind_one c v (k (c.sourceValue u))

theorem plan_of_family (c : Core) (next? : Option Word) {op : Opcode} {family : Family}
    {operands : List Word} (h : op.family? = some family) :
    c.plan next? op operands = c.planIn next? family op operands := by
  unfold plan
  rw [h]

theorem planArithmetic_binary (c : Core) {op : Opcode} (hop : op ≠ .not) (dst u v : Word) :
    c.planArithmetic op [dst, u, v] =
      match firstInvalid? [u, v] with
      | some w => .error (.invalidOperand c.pc w)
      | none => (c.compute op (c.sourceValue u) (c.sourceValue v)).map (Action.assign dst) := by
  have hread := value_bind_two c u v (fun y z => (c.compute op y z).map (Action.assign dst))
  cases op with
  | not => exact absurd rfl hop
  | _ => exact hread

/-- Only `pop` and `mod` are ever refused for another reason than a source. -/
theorem obstacle?_of_ne (c : Core) {op : Opcode} (hp : op ≠ .pop) (hm : op ≠ .mod)
    (operands : List Word) :
    c.obstacle? op operands =
      (firstInvalid? (op.sources operands)).map (Fault.invalidOperand c.pc) := by
  unfold obstacle?
  cases firstInvalid? (op.sources operands) with
  | some w => rfl
  | none => simp [hp, hm]

/-- An operation that reads its sources in order and cannot fail otherwise. -/
theorem plan_eq_of_sources (c : Core) {next? : Option Word} {op : Opcode}
    {operands : List Word} (hp : op ≠ .pop) (hm : op ≠ .mod)
    (h : c.plan next? op operands =
      match firstInvalid? (op.sources operands) with
      | some w => .error (.invalidOperand c.pc w)
      | none => .ok (c.effect next? op operands)) :
    c.plan next? op operands =
      match c.obstacle? op operands with
      | some f => .error f
      | none => .ok (c.effect next? op operands) := by
  rw [h, obstacle?_of_ne c hp hm]
  cases firstInvalid? (op.sources operands) <;> rfl

/-- An operation fails for what stands in its way, and otherwise takes effect. -/
theorem plan_eq (c : Core) (next? : Option Word) (op : Opcode) {operands : List Word}
    (h : operands.length = op.arity) :
    c.plan next? op operands =
      match c.obstacle? op operands with
      | some f => .error f
      | none => .ok (c.effect next? op operands) := by
  cases op with
  | halt | noop =>
      obtain rfl := List.length_eq_zero_iff.mp h
      rfl
  | ret =>
      obtain rfl := List.length_eq_zero_iff.mp h
      apply plan_eq_of_sources c (by decide) (by decide)
      show c.planFlow .ret [] = .ok (c.effect next? .ret [])
      unfold planFlow effect
      cases c.stack <;> rfl
  | push =>
      obtain ⟨a, rfl⟩ := List.length_eq_one_iff.mp h
      apply plan_eq_of_sources c (by decide) (by decide)
      exact value_bind_one c a (fun x => .ok (.push x))
  | jmp =>
      obtain ⟨a, rfl⟩ := List.length_eq_one_iff.mp h
      apply plan_eq_of_sources c (by decide) (by decide)
      exact value_bind_one c a (fun x => .ok (.jump x))
  | call =>
      obtain ⟨a, rfl⟩ := List.length_eq_one_iff.mp h
      apply plan_eq_of_sources c (by decide) (by decide)
      exact value_bind_one c a (fun x => .ok (.call x))
  | output =>
      obtain ⟨a, rfl⟩ := List.length_eq_one_iff.mp h
      apply plan_eq_of_sources c (by decide) (by decide)
      exact value_bind_one c a (fun x => .ok (.emit x))
  | input =>
      obtain ⟨a, rfl⟩ := List.length_eq_one_iff.mp h
      cases next? <;> rfl
  | pop =>
      obtain ⟨a, rfl⟩ := List.length_eq_one_iff.mp h
      show c.planMemory .pop [a] = _
      unfold planMemory obstacle? effect
      cases c.stack <;> rfl
  | set =>
      obtain ⟨a, b, rfl⟩ := List.length_eq_two.mp h
      apply plan_eq_of_sources c (by decide) (by decide)
      exact value_bind_one c b (fun y => .ok (.assign a y))
  | not =>
      obtain ⟨a, b, rfl⟩ := List.length_eq_two.mp h
      apply plan_eq_of_sources c (by decide) (by decide)
      exact value_bind_one c b (fun y => .ok (.assign a (Word.complement y)))
  | rmem =>
      obtain ⟨a, b, rfl⟩ := List.length_eq_two.mp h
      apply plan_eq_of_sources c (by decide) (by decide)
      exact value_bind_one c b (fun y => .ok (.assign a (c.read y)))
  | wmem =>
      obtain ⟨a, b, rfl⟩ := List.length_eq_two.mp h
      apply plan_eq_of_sources c (by decide) (by decide)
      exact value_bind_two c a b (fun x y => .ok (.overwrite x y))
  | jt =>
      obtain ⟨a, b, rfl⟩ := List.length_eq_two.mp h
      apply plan_eq_of_sources c (by decide) (by decide)
      exact value_bind_two c a b (fun x y => .ok (if x = 0 then .skip else .jump y))
  | jf =>
      obtain ⟨a, b, rfl⟩ := List.length_eq_two.mp h
      apply plan_eq_of_sources c (by decide) (by decide)
      exact value_bind_two c a b (fun x y => .ok (if x = 0 then .jump y else .skip))
  | eq | gt | add | mult | and | or =>
      obtain ⟨a, b, d, rfl⟩ := List.length_eq_three.mp h
      apply plan_eq_of_sources c (by decide) (by decide)
      rw [plan_of_family c next? rfl, planIn, planArithmetic_binary c (by decide)]
      rfl
  | mod =>
      obtain ⟨a, b, d, rfl⟩ := List.length_eq_three.mp h
      rw [plan_of_family c next? rfl, planIn, planArithmetic_binary c (by decide)]
      have hs : Opcode.sources .mod [a, b, d] = [b, d] := rfl
      unfold obstacle?
      rw [hs]
      cases firstInvalid? [b, d] with
      | some w => rfl
      | none =>
          have hd : [a, b, d].getD 2 0 = d := rfl
          simp only [hd, true_and, reduceCtorEq, false_and, if_false]
          by_cases hz : c.sourceValue d = 0
          · rw [if_pos hz, compute, if_pos hz]
            rfl
          · rw [if_neg hz, compute, if_neg hz]
            rfl

/-- The reasons for which an operation is refused, each with its condition. -/
theorem obstacle?_eq_some_iff {c : Core} {op : Opcode} {operands : List Word} {f : Fault} :
    c.obstacle? op operands = some f ↔
      (∃ v, firstInvalid? (op.sources operands) = some v ∧ f = .invalidOperand c.pc v) ∨
      (firstInvalid? (op.sources operands) = none ∧ op = .pop ∧ c.stack = [] ∧
        f = .stackUnderflow c.pc) ∨
      (firstInvalid? (op.sources operands) = none ∧ op = .mod ∧
        c.sourceValue (operands.getD 2 0) = 0 ∧ f = .divisionByZero c.pc) := by
  unfold obstacle?
  cases firstInvalid? (op.sources operands) with
  | some v => simp [eq_comm]
  | none =>
      by_cases hp : op = .pop ∧ c.stack = []
      · simp [hp, eq_comm]
      · by_cases hm : op = .mod ∧ c.sourceValue (operands.getD 2 0) = 0
        · rw [if_neg hp, if_pos hm]
          obtain ⟨rfl, hz⟩ := hm
          simp only [hz, Option.some.injEq, reduceCtorEq, false_and, and_false, exists_false,
            false_or, true_and]
          exact eq_comm
        · simp only [if_neg hp, if_neg hm, reduceCtorEq, false_iff]
          rintro (⟨v, h, _⟩ | ⟨_, h₁, h₂, _⟩ | ⟨_, h₁, h₂, _⟩)
          · cases h
          · exact hp ⟨h₁, h₂⟩
          · exact hm ⟨h₁, h₂⟩

/-- What stands in the way of an operation carries the address of the operation. -/
theorem obstacle?_pc {c : Core} {op : Opcode} {operands : List Word} {f : Fault}
    (h : c.obstacle? op operands = some f) : f.pc = c.pc := by
  rcases obstacle?_eq_some_iff.mp h with ⟨v, _, rfl⟩ | ⟨_, _, _, rfl⟩ | ⟨_, _, _, rfl⟩ <;> rfl

/-- A destination does not stand in the way of an operation. -/
theorem obstacle?_destination (c : Core) {op : Opcode} (h : op.storesResult = true)
    (dst dst' : Word) (ws : List Word) :
    c.obstacle? op (dst :: ws) = c.obstacle? op (dst' :: ws) := by
  unfold obstacle? Opcode.sources
  rw [if_pos h, if_pos h]
  rfl

/-- Only `in` looks at the input. -/
theorem effect_of_ne_input (c : Core) {op : Opcode} (h : op ≠ .input) (next? next?' : Option Word)
    (operands : List Word) : c.effect next? op operands = c.effect next?' op operands := by
  cases op with
  | input => exact absurd rfl h
  | _ => rfl

/-- Only `out` writes output. -/
theorem effect_ne_emit (c : Core) (next? : Option Word) {op : Opcode} (h : op ≠ .output)
    (operands : List Word) (v : Word) : c.effect next? op operands ≠ .emit v := by
  cases op with
  | output => exact absurd rfl h
  | jt | jf | ret | input =>
      simp only [effect]
      split <;> nofun
  | _ => nofun

/-- Only `in` takes input. -/
theorem effect_ne_receive (c : Core) (next? : Option Word) {op : Opcode} (h : op ≠ .input)
    (operands : List Word) (dst v : Word) : c.effect next? op operands ≠ .receive dst v := by
  cases op with
  | input => exact absurd rfl h
  | jt | jf | ret =>
      simp only [effect]
      split <;> nofun
  | _ => nofun

/-- Operands beyond those that the opcode has are not looked at. -/
theorem plan_append (c : Core) (next? : Option Word) (op : Opcode) {operands : List Word}
    (h : operands.length = op.arity) (extra : List Word) :
    c.plan next? op (operands ++ extra) = c.plan next? op operands := by
  cases op with
  | halt | noop | ret =>
      obtain rfl := List.length_eq_zero_iff.mp h
      rfl
  | push | pop | jmp | call | output | input =>
      obtain ⟨a, rfl⟩ := List.length_eq_one_iff.mp h
      rfl
  | set | jt | jf | not | rmem | wmem =>
      obtain ⟨a, b, rfl⟩ := List.length_eq_two.mp h
      rfl
  | eq | gt | add | mult | mod | and | or =>
      obtain ⟨a, b, d, rfl⟩ := List.length_eq_three.mp h
      rfl

end Core
end WordMachine
