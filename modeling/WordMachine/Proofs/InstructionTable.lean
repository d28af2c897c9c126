import WordMachine.Proofs.Step
import WordMachine.Proofs.Loading

/-! # The instruction table

`Machine.row` is the instruction table: for every opcode, what its instruction changes,
written in terms of the words, values, stack top and input head that the machine has
*before* the instruction.  `Row.Makes` says of two machines that one is what a row makes of the
other, down to each word of memory and each register, so that what a row does not mention is
unchanged.  `Machine.step_follows_table` proves that every step that does not fail is the row of
the instruction that it decodes. -/

namespace WordMachine

/-! ### Cells

The words of memory and the registers have one numbering, that of destination words: the
memory first, then the eight registers. -/

/-- The content of a cell after a write, which may be none. -/
def written (write? : Option (Word × Word)) (cell : Nat) (old : Word) : Word :=
  match write? with
  | some (dst, v) => if dst.toNat = cell then v else old
  | none => old

/-- The memory and the registers of one core are those of another after a write. -/
structure Core.Writes (c : Core) (write? : Option (Word × Word)) (c' : Core) : Prop where
  memory : ∀ addr < 32768, c'.memory.read addr = written write? addr (c.memory.read addr)
  registers : ∀ k : Fin 8,
    c'.registers.get k = written write? (32768 + k.val) (c.registers.get k)
  loaded : c'.memory.loaded = c.memory.loaded

namespace Core.Writes

theorem none_of_eq {c c' : Core} (hm : c'.memory = c.memory) (hr : c'.registers = c.registers) :
    c.Writes none c' where
  memory := fun addr _ => by rw [hm]; rfl
  registers := fun k => by rw [hr]; rfl
  loaded := by rw [hm]

theorem store (c : Core) (dst v : Word) : c.Writes (some (dst, v)) (c.store dst v) where
  memory := by
    intro addr ha
    rw [read_store]
    simp [written, ha]
  registers := fun k => c.get_store dst v k
  loaded := c.loaded_store dst v

theorem write (c : Core) (addr v : Word) :
    c.Writes (if addr.toNat < 32768 then some (addr, v) else none) (c.write addr v) where
  memory := by
    intro a ha
    rw [read_write]
    by_cases h : addr.toNat < 32768
    · simp [written, ha, h]
    · rw [if_neg h, if_neg (by omega)]
      rfl
  registers := by
    intro k
    by_cases h : addr.toNat < 32768
    · rw [if_pos h]
      show c.registers.get k = if addr.toNat = 32768 + k.val then v else c.registers.get k
      rw [if_neg (by omega)]
    · rw [if_neg h]
      rfl
  loaded := Memory.loaded_write _ _ _

/-- What is written does not depend on stack and instruction pointer. -/
theorem congr {c c' d d' : Core} {write? : Option (Word × Word)} (h : c.Writes write? c')
    (hm : d.memory = c.memory) (hr : d.registers = c.registers)
    (hm' : d'.memory = c'.memory) (hr' : d'.registers = c'.registers) : d.Writes write? d' where
  memory := by rw [hm, hm']; exact h.memory
  registers := by rw [hr, hr']; exact h.registers
  loaded := by rw [hm, hm']; exact h.loaded

end Core.Writes

/-! ### Rows -/

/-- A row of the instruction table, filled in for a machine. -/
structure Row where
  outcome : Outcome
  /-- The cell that is written and what is written there.  A number that is no cell is
  dropped. -/
  write? : Option (Word × Word)
  stack : List Word
  pc : Nat
  input : List Word
  output : List Word

/-- One machine is what a row makes of another by the instruction that was decoded. -/
structure Row.Makes (r : Row) (i : Instruction) (m m' : Machine) : Prop where
  cells : m.core.Writes r.write? m'.core
  stack : m'.core.stack = r.stack
  pc : m'.core.pc.toNat = r.pc
  input : m'.input = r.input
  output : m'.output.toList = r.output
  mode : m'.mode = match r.outcome with
    | .halted => .halted
    | .awaitingInput => .awaitingInput
    | .advanced | .jumped => .running
  /-- An instruction that waits is not counted. -/
  executed : m'.executed = if r.outcome = .awaitingInput then m.executed else m.executed + 1
  trace : m'.trace =
    if r.outcome = .awaitingInput then m.trace
    else m.trace.map (fun t => t.record (Trace.line m.core i))
  limit : m'.limit = m.limit

theorem Memory.ext_read {m m' : Memory} (hr : ∀ addr < 32768, m.read addr = m'.read addr)
    (hl : m.loaded = m'.loaded) : m = m' := by
  obtain ⟨ws, n, hn⟩ := m
  obtain ⟨ws', n', hn'⟩ := m'
  have hws : ws = ws' := by
    apply Vector.ext
    intro addr ha
    simpa [Memory.read, ha] using hr addr ha
  obtain rfl : n = n' := hl
  rw [hws]

/-- A row leaves nothing open: it makes one machine of a machine. -/
theorem Row.Makes.unique {r : Row} {i : Instruction} {m m₁ m₂ : Machine} (h₁ : r.Makes i m m₁)
    (h₂ : r.Makes i m m₂) : m₁ = m₂ := by
  have hmem : m₁.core.memory = m₂.core.memory := by
    apply Memory.ext_read
    · intro addr ha
      rw [h₁.cells.memory addr ha, h₂.cells.memory addr ha]
    · rw [h₁.cells.loaded, h₂.cells.loaded]
  have hreg : m₁.core.registers = m₂.core.registers := by
    apply Vector.ext
    intro k hk
    exact (h₁.cells.registers ⟨k, hk⟩).trans (h₂.cells.registers ⟨k, hk⟩).symm
  have hstack := h₁.stack.trans h₂.stack.symm
  have hpc := UInt16.toNat_inj.mp (h₁.pc.trans h₂.pc.symm)
  have hcore : m₁.core = m₂.core := by
    cases hc₁ : m₁.core
    cases hc₂ : m₂.core
    simp_all
  have hout := Array.toList_inj.mp (h₁.output.trans h₂.output.symm)
  have hmode := h₁.mode.trans h₂.mode.symm
  have hin := h₁.input.trans h₂.input.symm
  have hexec := h₁.executed.trans h₂.executed.symm
  have htrace := h₁.trace.trans h₂.trace.symm
  have hlimit := h₁.limit.trans h₂.limit.symm
  cases m₁
  cases m₂
  simp_all

namespace Machine

/-- The operand word with a given number, zero outside the memory. -/
def operand (m : Machine) (k : Nat) : Word := m.core.memory.read (m.core.pc.toNat + 1 + k)

/-- The row of an instruction that changes nothing and ends at an address. -/
def plainRow (m : Machine) (outcome : Outcome) (pc : Nat) : Row where
  outcome := outcome
  write? := none
  stack := m.core.stack
  pc := pc
  input := m.input
  output := m.output.toList

/-- The instruction table. -/
def row (m : Machine) (op : Opcode) : Row :=
  let a := m.operand 0
  let b := m.operand 1
  let c := m.operand 2
  let val := m.core.sourceValue
  let next := m.plainRow .advanced (m.core.pc.toNat + op.arity + 1)
  let stop := m.plainRow .halted m.core.pc.toNat
  let goto (target : Word) := m.plainRow .jumped target.toNat
  match op with
  | .halt => stop
  | .set => { next with write? := some (a, val b) }
  | .push => { next with stack := val a :: m.core.stack }
  | .pop => { next with write? := some (a, m.core.stack.headD 0), stack := m.core.stack.tail }
  | .eq => { next with write? := some (a, if val b = val c then 1 else 0) }
  | .gt => { next with write? := some (a, if val c < val b then 1 else 0) }
  | .jmp => goto (val a)
  | .jt => if val a ≠ 0 then goto (val b) else next
  | .jf => if val a = 0 then goto (val b) else next
  | .add => { next with
      write? := some (a, UInt16.ofNat (((val b).toNat + (val c).toNat) % 32768)) }
  | .mult => { next with
      write? := some (a, UInt16.ofNat ((val b).toNat * (val c).toNat % 32768)) }
  | .mod => { next with write? := some (a, val b % val c) }
  | .and => { next with write? := some (a, val b &&& val c) }
  | .or => { next with write? := some (a, val b ||| val c) }
  | .not => { next with write? := some (a, UInt16.ofNat (32767 - (val b).toNat % 32768)) }
  | .rmem => { next with write? := some (a, m.core.memory.read (val b).toNat) }
  | .wmem => { next with
      write? := if (val a).toNat < 32768 then some (val a, val b) else none }
  | .call => { goto (val a) with
      stack := UInt16.ofNat (m.core.pc.toNat + 2) :: m.core.stack }
  | .ret => match m.core.stack with
    | target :: rest => { goto target with stack := rest }
    | [] => stop
  | .output => { next with output := m.output.toList ++ [val a] }
  | .input => match m.input with
    | v :: rest => { next with write? := some (a, v), input := rest }
    | [] => m.plainRow .awaitingInput m.core.pc.toNat
  | .noop => next

/-! ### Every instruction follows its row -/

/-- Outside the memory there are only zeros, which encode `halt`. -/
theorem pc_lt_of_opcode {c : Core} {op : Opcode} (h : c.read c.pc = op.toWord)
    (hop : op ≠ .halt) : c.pc.toNat < 32768 := by
  by_contra hge
  rw [c.read_of_ge (by omega)] at h
  cases op with
  | halt => exact hop rfl
  | _ => exact absurd h (by decide)

/-- Going on behind an instruction never wraps around. -/
theorem pc_after_of_advanced {c : Core} {op : Opcode} {a : Action}
    (h : c.read c.pc = op.toWord) (hop : op ≠ .halt) (ha : a.outcome = .advanced) :
    (c.after op a).pc.toNat = c.pc.toNat + op.arity + 1 := by
  have hlt := pc_lt_of_opcode h hop
  have har := op.arity_le
  unfold Core.after
  rw [if_pos ha, UInt16.toNat_add, UInt16.toNat_ofNat']
  omega

theorem complement_eq (w : Word) :
    Word.complement w = UInt16.ofNat (32767 - w.toNat % 32768) := by
  apply UInt16.toNat_inj.mp
  have hw := w.toNat_lt
  unfold Word.complement
  rw [UInt16.toNat_and, UInt16.toNat_not, UInt16.toNat_ofNat']
  have hmask : (0x7FFF : UInt16).toNat = 2 ^ 15 - 1 := rfl
  have hsize : UInt16.size = 65536 := rfl
  rw [hmask, Nat.and_two_pow_sub_one_eq_mod, hsize]
  omega

section rows

variable {m : Machine} {op : Opcode} {r : Row} {a : Action}

/-- A row whose cells, stack, channels and instruction pointer are those of an action. -/
theorem makes_after (ho : a.outcome = r.outcome) (hc : m.core.Writes r.write? (m.core.perform a))
    (hs : (m.core.perform a).stack = r.stack) (hpc : (m.core.after op a).pc.toNat = r.pc)
    (hin : m.input.drop a.received.length = r.input)
    (hout : m.output.toList ++ a.emitted = r.output) :
    r.Makes ⟨m.core.pc, op, m.core.operandWords op⟩ m (m.after op a) where
  cells := by
    apply hc.congr rfl rfl
    · exact m.core.memory_after op a
    · exact m.core.registers_after op a
  stack := (m.core.stack_after op a).trans hs
  pc := hpc
  input := hin
  output := by
    show (m.output ++ a.emitted.toArray).toList = _
    rw [Array.toList_append]
    exact hout
  mode := by
    show a.mode = _
    unfold Action.mode
    rw [ho]
    cases r.outcome <;> rfl
  executed := by
    show (if a.counts then _ else _) = _
    unfold Action.counts
    rw [ho]
    cases r.outcome <;> rfl
  trace := by
    show (if a.counts then _ else _) = _
    unfold Action.counts
    rw [ho]
    cases r.outcome <;> rfl
  limit := rfl

/-- An instruction that goes on behind itself and stores a value through its destination. -/
theorem makes_assign {dst v : Word} (h : m.core.read m.core.pc = op.toWord) (hop : op ≠ .halt)
    (ha : a = .assign dst v)
    (hr : r = { m.plainRow .advanced (m.core.pc.toNat + op.arity + 1) with
      write? := some (dst, v) }) :
    a.outcome = r.outcome ∧
      r.Makes ⟨m.core.pc, op, m.core.operandWords op⟩ m (m.after op a) := by
  subst ha hr
  refine ⟨rfl, makes_after rfl (Core.Writes.store m.core dst v) (Core.stack_store _ _ _) ?_ rfl ?_⟩
  · exact pc_after_of_advanced h hop rfl
  · exact List.append_nil _

/-- An instruction that goes on behind itself and changes no more than stack and output. -/
theorem makes_next (h : m.core.read m.core.pc = op.toWord) (hop : op ≠ .halt)
    (ha : a.outcome = .advanced) (hm : (m.core.perform a).memory = m.core.memory)
    (hg : (m.core.perform a).registers = m.core.registers) (hi : a.received = [])
    {out : List Word} (hout : m.output.toList ++ a.emitted = out)
    (hr : r = { m.plainRow .advanced (m.core.pc.toNat + op.arity + 1) with
      stack := (m.core.perform a).stack, output := out }) :
    a.outcome = r.outcome ∧
      r.Makes ⟨m.core.pc, op, m.core.operandWords op⟩ m (m.after op a) := by
  subst hr
  refine ⟨ha, makes_after ha (Core.Writes.none_of_eq hm hg) rfl ?_ ?_ hout⟩
  · exact pc_after_of_advanced h hop ha
  · rw [hi]
    rfl

/-- An instruction that does not go on behind itself and changes no more than the stack. -/
theorem makes_redirect (ha : a.outcome ≠ .advanced)
    (hm : (m.core.perform a).memory = m.core.memory)
    (hg : (m.core.perform a).registers = m.core.registers) (hi : a.received = [])
    (he : a.emitted = [])
    (hr : r = { m.plainRow a.outcome (m.core.perform a).pc.toNat with
      stack := (m.core.perform a).stack }) :
    a.outcome = r.outcome ∧
      r.Makes ⟨m.core.pc, op, m.core.operandWords op⟩ m (m.after op a) := by
  subst hr
  refine ⟨rfl, makes_after rfl (Core.Writes.none_of_eq hm hg) rfl ?_ ?_ ?_⟩
  · unfold Core.after
    rw [if_neg ha]
    rfl
  · rw [hi]
    rfl
  · rw [he]
    exact List.append_nil _

end rows

/-- What an instruction does when nothing stands in its way is what its row says. -/
theorem row_makes (m : Machine) {op : Opcode} (h : m.core.read m.core.pc = op.toWord) :
    (m.effect op).outcome = (m.row op).outcome ∧
      (m.row op).Makes ⟨m.core.pc, op, m.core.operandWords op⟩ m (m.after op (m.effect op)) := by
  cases op with
  | set | eq | gt | add | mult | mod | and | or | rmem => exact makes_assign h (by decide) rfl rfl
  | not =>
      have he : m.effect .not = .assign (m.operand 0)
          (UInt16.ofNat (32767 - (m.core.sourceValue (m.operand 1)).toNat % 32768)) :=
        congrArg (Action.assign (m.operand 0)) (complement_eq _)
      exact makes_assign h (by decide) he rfl
  | push | noop => exact makes_next h (by decide) rfl rfl rfl rfl (List.append_nil _) rfl
  | output => exact makes_next h (by decide) rfl rfl rfl rfl rfl rfl
  | halt | jmp => exact makes_redirect nofun rfl rfl rfl rfl rfl
  | call =>
      refine makes_redirect nofun rfl rfl rfl rfl ?_
      have hret : m.core.pc + 2 = UInt16.ofNat (m.core.pc.toNat + 2) := by
        apply UInt16.toNat_inj.mp
        rw [UInt16.toNat_add, UInt16.toNat_ofNat']
        rfl
      unfold row
      rw [← hret]
      rfl
  | jt =>
      by_cases hx : m.core.sourceValue (m.operand 0) = 0
      · have he : m.effect .jt = .skip := if_pos hx
        have hr : m.row .jt = m.plainRow .advanced (m.core.pc.toNat + Opcode.arity .jt + 1) :=
          if_neg (not_not_intro hx)
        rw [he, hr]
        exact makes_next h (by decide) rfl rfl rfl rfl (List.append_nil _) rfl
      · have he : m.effect .jt = .jump (m.core.sourceValue (m.operand 1)) := if_neg hx
        have hr : m.row .jt = m.plainRow .jumped (m.core.sourceValue (m.operand 1)).toNat :=
          if_pos hx
        rw [he, hr]
        exact makes_redirect nofun rfl rfl rfl rfl rfl
  | jf =>
      by_cases hx : m.core.sourceValue (m.operand 0) = 0
      · have he : m.effect .jf = .jump (m.core.sourceValue (m.operand 1)) := if_pos hx
        have hr : m.row .jf = m.plainRow .jumped (m.core.sourceValue (m.operand 1)).toNat :=
          if_pos hx
        rw [he, hr]
        exact makes_redirect nofun rfl rfl rfl rfl rfl
      · have he : m.effect .jf = .skip := if_neg hx
        have hr : m.row .jf = m.plainRow .advanced (m.core.pc.toNat + Opcode.arity .jf + 1) :=
          if_neg hx
        rw [he, hr]
        exact makes_next h (by decide) rfl rfl rfl rfl (List.append_nil _) rfl
  | ret =>
      cases hs : m.core.stack with
      | nil =>
          have he : m.effect .ret = .returnFromTop := if_pos hs
          have hr : m.row .ret = m.plainRow .halted m.core.pc.toNat := by
            unfold row
            simp only [hs]
          rw [he, hr]
          exact makes_redirect nofun rfl rfl rfl rfl rfl
      | cons target rest =>
          have he : m.effect .ret = .ret target := by
            unfold effect Core.effect
            simp [hs]
          have hr : m.row .ret = { m.plainRow .jumped target.toNat with stack := rest } := by
            unfold row
            simp only [hs]
          rw [he, hr]
          refine makes_redirect nofun rfl rfl rfl rfl ?_
          show _ = { m.plainRow .jumped target.toNat with stack := m.core.stack.tail }
          rw [hs]
          rfl
  | pop =>
      refine ⟨rfl, makes_after rfl ?_ (Core.stack_store _ _ _) ?_ rfl (List.append_nil _)⟩
      · exact (Core.Writes.store { m.core with stack := m.core.stack.tail } _ _).congr rfl rfl rfl rfl
      · exact pc_after_of_advanced h (by decide) rfl
  | wmem =>
      refine ⟨rfl, makes_after rfl (Core.Writes.write m.core _ _) rfl ?_ rfl (List.append_nil _)⟩
      exact pc_after_of_advanced h (by decide) rfl
  | input =>
      cases hi : m.input with
      | nil =>
          have he : m.effect .input = .await := by
            unfold effect Core.effect
            simp only [hi, List.head?_nil]
          have hr : m.row .input = m.plainRow .awaitingInput m.core.pc.toNat := by
            unfold row
            simp only [hi]
          rw [he, hr]
          exact makes_redirect nofun rfl rfl rfl rfl rfl
      | cons v rest =>
          have he : m.effect .input = .receive (m.operand 0) v := by
            unfold effect Core.effect
            simp only [hi, List.head?_cons]
            rfl
          have hr : m.row .input =
              { m.plainRow .advanced (m.core.pc.toNat + Opcode.arity .input + 1) with
                write? := some (m.operand 0, v), input := rest } := by
            unfold row
            simp only [hi]
          rw [he, hr]
          refine ⟨rfl, makes_after rfl (Core.Writes.store m.core _ _) (Core.stack_store _ _ _) ?_ ?_
            (List.append_nil _)⟩
          · exact pc_after_of_advanced h (by decide) rfl
          · rw [hi]
            rfl

/-- **The machine implements the instruction table.**  A step of a machine that has not halted
and that does not fail ends as the row of the decoded instruction says, and there is only one
machine that the row makes. -/
theorem step_follows_table {m m' : Machine} {o : Outcome} (hm : m.mode ≠ .halted)
    (h : m.step = (.ok o, m')) :
    ∃ i, m.core.fetch = .ok i ∧ m.core.memory.read m.core.pc.toNat = i.opcode.toWord ∧
      o = (m.row i.opcode).outcome ∧ (m.row i.opcode).Makes i m m' ∧
      ∀ m'', (m.row i.opcode).Makes i m m'' → m'' = m' := by
  rcases step_eq_ok_cases h with ⟨hh, _, _⟩ | ⟨_, op, hop, rfl, rfl⟩
  · exact absurd hh hm
  · obtain ⟨ho, hmakes⟩ := m.row_makes hop
    exact ⟨_, Core.fetch_of_opcode hop, hop, ho, hmakes, fun m'' h'' => h''.unique hmakes⟩

/-- An addition whose destination is its own first operand word. -/
theorem addition_over_itself :
    let m := Machine.holding [9, 1, 32768, 5] (by decide)
    ∃ m', m.mode ≠ .halted ∧ m.step = (.ok .advanced, m') ∧ m'.core.memory.read 1 = 5 ∧
      m'.core.memory.read 2 = 32768 ∧ m'.core.pc.toNat = 4 ∧ m'.executed = 1 := by
  intro m
  have hm : m.mode ≠ .halted := by decide
  have hs : m.step = (.ok .advanced, m.step.2) := rfl
  obtain ⟨i, hi, _, _, hmakes, _⟩ := step_follows_table hm hs
  obtain rfl : ⟨0, .add, [1, 32768, 5]⟩ = i := Except.ok.inj hi
  refine ⟨m.step.2, hm, hs, ?_, ?_, hmakes.pc, hmakes.executed⟩
  · rw [hmakes.cells.memory 1 (by decide)]
    decide
  · rw [hmakes.cells.memory 2 (by decide)]
    decide

end Machine
end WordMachine
