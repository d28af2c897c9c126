import WordMachine.Settings
import WordMachine.Proofs.Arithmetic
import WordMachine.Proofs.CallReturn
import WordMachine.Proofs.Course

/-! # Where words of more than fifteen bits come from

The words of a program image may have sixteen bits, but those that a program computes with have
fifteen: a machine is *narrow* when this holds of its registers, stack, input and output.  A new
machine is narrow, and what is done to it from outside keeps it so.  An instruction can make it
wide in two ways only: by reading a wide word of memory as data, and by a call at one of the last
two addresses, whose return address is wide.

* `Machine.Narrow`, `Machine.Widens` : narrow machines, and the two ways to lose this.
* `Machine.Narrow.step`, `Machine.Narrow.executes` : steps and executions of narrow machines.
* `Operation.narrow_of_call`, `Debugger.Transcript.narrow` : operations on narrow machines, whatever they are.
* `Debugger.words_stay_narrow` : the statement about all of them. -/

namespace WordMachine

/-- The words that an action puts into a register, the memory, the stack or the output. -/
def Action.stored (a : Action) (c : Core) : List Word :=
  match a with
  | .assign _ v | .push v | .pop _ v | .overwrite _ v | .emit v | .receive _ v => [v]
  | .call _ => [c.pc + 2]
  | .halt | .returnFromTop | .skip | .jump _ | .ret _ | .await => []

/-- A word that a write has changed is the word written. -/
theorem Word.le_of_changed {p : Prop} [Decidable p] {v old new : Word} (hv : v.toNat ≤ 32767)
    (hnew : new = if p then v else old) (hne : new ≠ old) : new.toNat ≤ 32767 := by
  by_cases hp : p
  · rw [hnew, if_pos hp]
    exact hv
  · rw [if_neg hp] at hnew
    exact absurd hnew hne

namespace Core

/-! ### Narrow words through an action -/

section

variable {c : Core} {a : Action}

theorem sourceValue_le (hc : ∀ r, (c.registers.get r).toNat ≤ 32767) (w : Word) :
    (c.sourceValue w).toNat ≤ 32767 := by
  unfold sourceValue
  split
  · omega
  · split
    · exact hc _
    · decide

theorem get_store_le (hc : ∀ r, (c.registers.get r).toNat ≤ 32767) (dst : Word) {v : Word}
    (hv : v.toNat ≤ 32767) (r : Fin 8) : ((c.store dst v).registers.get r).toNat ≤ 32767 := by
  rw [get_store]
  split
  · exact hv
  · exact hc r

theorem get_perform_le (hc : ∀ r, (c.registers.get r).toNat ≤ 32767)
    (ha : ∀ w ∈ a.stored c, w.toNat ≤ 32767) (r : Fin 8) :
    ((c.perform a).registers.get r).toNat ≤ 32767 := by
  cases a with
  | assign dst v | receive dst v => exact get_store_le hc dst (ha v List.mem_cons_self) r
  | pop dst v =>
      have hv := ha v List.mem_cons_self
      exact get_store_le (c := { c with stack := c.stack.tail }) hc dst hv r
  | _ => exact hc r

theorem mem_stack_perform_le (hc : ∀ w ∈ c.stack, w.toNat ≤ 32767)
    (ha : ∀ w ∈ a.stored c, w.toNat ≤ 32767) : ∀ w ∈ (c.perform a).stack, w.toNat ≤ 32767 := by
  have htail : ∀ w ∈ c.stack.tail, w.toNat ≤ 32767 := fun w hw => hc w (List.mem_of_mem_tail hw)
  cases a with
  | push v | call target => exact List.forall_mem_cons.mpr ⟨ha _ List.mem_cons_self, hc⟩
  | pop dst v =>
      have hs : (c.perform (.pop dst v)).stack = c.stack.tail := stack_store _ dst v
      rw [hs]
      exact htail
  | ret target => exact htail
  | assign dst v | receive dst v =>
      have hs : (c.store dst v).stack = c.stack := stack_store c dst v
      exact hs ▸ hc
  | _ => exact hc

/-- A word of memory that an action changes is one that it stores. -/
theorem read_perform_le (ha : ∀ w ∈ a.stored c, w.toNat ≤ 32767) (addr : Nat)
    (hne : (c.perform a).memory.read addr ≠ c.memory.read addr) :
    ((c.perform a).memory.read addr).toNat ≤ 32767 := by
  cases a with
  | assign dst v | receive dst v =>
      exact Word.le_of_changed (ha v List.mem_cons_self) (c.read_store dst v addr) hne
  | pop dst v =>
      have hread := read_store { c with stack := c.stack.tail } dst v addr
      exact Word.le_of_changed (ha v List.mem_cons_self) hread hne
  | overwrite target v =>
      exact Word.le_of_changed (ha v List.mem_cons_self) (c.read_write target v addr) hne
  | _ => exact absurd rfl hne

end

end Core

namespace Machine

/-! ### Narrow machines -/

/-- The words that a program computes with fit in fifteen bits. -/
structure Narrow (m : Machine) : Prop where
  registers : ∀ r, (m.core.registers.get r).toNat ≤ 32767
  stack : ∀ w ∈ m.core.stack, w.toNat ≤ 32767
  input : ∀ w ∈ m.input, w.toNat ≤ 32767
  output : ∀ w ∈ m.output.toList, w.toNat ≤ 32767

/-- The next instruction brings in a word of more than fifteen bits: it reads such a word from
memory, or it is a call whose return address is such a word. -/
def Widens (m : Machine) : Prop :=
  m.mode ≠ .halted ∧
    ((m.core.read m.core.pc = Opcode.toWord .rmem ∧
        ∃ addr, m.core.value (m.operand 1) = .ok addr ∧ 32767 < (m.core.read addr).toNat) ∨
      (m.core.read m.core.pc = Opcode.toWord .call ∧ (m.core.pc = 32766 ∨ m.core.pc = 32767) ∧
        ∃ target, m.core.value (m.operand 0) = .ok target))

theorem narrow_ofMemory (memory : Memory) : (ofMemory memory).Narrow := by
  refine ⟨?_, nofun, nofun, nofun⟩
  intro r
  have hzero : (Core.ofMemory memory).registers.get r = 0 := by
    simp [Core.ofMemory, Vector.get]
  show ((Core.ofMemory memory).registers.get r).toNat ≤ 32767
  rw [hzero]
  decide

/-- Trace, limit and mode do not matter. -/
theorem Narrow.congr {m m' : Machine} (h : m.Narrow) (hc : m'.core = m.core)
    (hi : m'.input = m.input) (ho : m'.output = m.output) : m'.Narrow where
  registers := hc ▸ h.registers
  stack := hc ▸ h.stack
  input := hi ▸ h.input
  output := ho ▸ h.output

theorem narrow_ofSettings (memory : Memory) (s : Settings) : (ofSettings memory s).Narrow := by
  unfold ofSettings
  split
  · exact (narrow_ofMemory memory).congr rfl rfl rfl
  · exact (narrow_ofMemory memory).congr rfl rfl rfl

/-! ### Steps of narrow machines -/

theorem Narrow.after {m : Machine} (hm : m.Narrow) (op : Opcode) {a : Action}
    (ha : ∀ w ∈ a.stored m.core, w.toNat ≤ 32767) : (m.after op a).Narrow where
  registers := by
    show ∀ r, ((m.core.after op a).registers.get r).toNat ≤ 32767
    rw [Core.registers_after]
    exact Core.get_perform_le hm.registers ha
  stack := by
    show ∀ w ∈ (m.core.after op a).stack, w.toNat ≤ 32767
    rw [Core.stack_after]
    exact Core.mem_stack_perform_le hm.stack ha
  input := fun w hw => hm.input w (List.mem_of_mem_drop hw)
  output := by
    have hemitted : ∀ w ∈ a.emitted, w.toNat ≤ 32767 := by
      cases a with
      | emit v => exact ha
      | _ => nofun
    intro w hw
    have happend : w ∈ m.output.toList ++ a.emitted := by
      simpa [Machine.after] using hw
    rcases List.mem_append.mp happend with hold | hnew
    · exact hm.output w hold
    · exact hemitted w hnew

/-- The sources of an operation that nothing stands in the way of have values. -/
theorem value_of_source {c : Core} {op : Opcode} {operands : List Word}
    (ho : c.obstacle? op operands = none) {w : Word} (hw : w ∈ op.sources operands) :
    c.value w = .ok (c.sourceValue w) := by
  apply c.value_of_lt
  unfold Core.obstacle? at ho
  split at ho
  next => cases ho
  next hvalid => exact Core.firstInvalid?_eq_none_iff.mp hvalid w hw

/-- Arithmetic on narrow words has narrow results: the operations that pass on the sixteenth bit
find none. -/
theorem Narrow.stored_arithmetic_le {m : Machine} (hm : m.Narrow) {op : Opcode}
    (hf : op.family? = some .arithmetic)
    (ho : m.core.obstacle? op (m.core.operandWords op) = none) :
    ∀ w ∈ (m.effect op).stored m.core, w.toNat ≤ 32767 := by
  obtain ⟨v, heff, hwide⟩ := m.core.effect_arithmetic m.input.head? hf ho
  have hsource : ∀ w, (m.core.sourceValue w).toNat ≤ 32767 := Core.sourceValue_le hm.registers
  have hv : v.toNat ≤ 32767 := by
    by_contra hgt
    exact op.not_passesWide (hsource _) (hsource _) (hwide.mp (by omega))
  unfold effect
  rw [heff]
  exact List.forall_mem_singleton.mpr hv

/-- What an instruction of a narrow machine stores is narrow, unless it widens. -/
theorem Narrow.stored_effect_le {m : Machine} (hm : m.Narrow) {op : Opcode}
    (hmode : m.mode ≠ .halted) (hop : m.core.read m.core.pc = op.toWord)
    (ho : m.core.obstacle? op (m.core.operandWords op) = none) (hw : ¬ m.Widens) :
    ∀ w ∈ (m.effect op).stored m.core, w.toNat ≤ 32767 := by
  have hsource : ∀ w, (m.core.sourceValue w).toNat ≤ 32767 := Core.sourceValue_le hm.registers
  cases op with
  | eq | gt | add | mult | mod | and | or | not => exact hm.stored_arithmetic_le rfl ho
  | set | push | wmem | output => exact List.forall_mem_singleton.mpr (hsource _)
  | pop =>
      have hv : (m.core.stack.headD 0).toNat ≤ 32767 := by
        cases hs : m.core.stack with
        | nil => decide
        | cons v rest => exact hm.stack v (by rw [hs]; exact List.mem_cons_self)
      exact List.forall_mem_singleton.mpr hv
  | rmem =>
      have hvalue : m.core.value (m.operand 1) = .ok (m.core.sourceValue (m.operand 1)) :=
        value_of_source ho List.mem_cons_self
      have hv : (m.core.read (m.core.sourceValue (m.operand 1))).toNat ≤ 32767 := by
        by_contra hgt
        exact hw ⟨hmode, Or.inl ⟨hop, _, hvalue, by omega⟩⟩
      exact List.forall_mem_singleton.mpr hv
  | call =>
      have hvalue : m.core.value (m.operand 0) = .ok (m.core.sourceValue (m.operand 0)) :=
        value_of_source ho List.mem_cons_self
      have hlt := pc_lt_of_opcode hop (by decide)
      have h₁ : m.core.pc.toNat ≠ 32766 := by
        intro h
        exact hw ⟨hmode, Or.inr ⟨hop, Or.inl (UInt16.toNat_inj.mp h), _, hvalue⟩⟩
      have h₂ : m.core.pc.toNat ≠ 32767 := by
        intro h
        exact hw ⟨hmode, Or.inr ⟨hop, Or.inr (UInt16.toNat_inj.mp h), _, hvalue⟩⟩
      have hv : (m.core.pc + 2).toNat ≤ 32767 := by
        rw [toNat_return_address hop]
        omega
      exact List.forall_mem_singleton.mpr hv
  | input =>
      unfold effect
      cases hi : m.input with
      | nil => exact List.forall_mem_nil _
      | cons v rest =>
          have hv : v.toNat ≤ 32767 := hm.input v (by rw [hi]; exact List.mem_cons_self)
          exact List.forall_mem_singleton.mpr hv
  | jt | jf | ret =>
      unfold effect
      simp only [Core.effect]
      split <;> exact List.forall_mem_nil _
  | halt | jmp | noop => exact List.forall_mem_nil _

/-- A step of a narrow machine leaves a narrow machine, and changes memory to narrow words only,
unless it widens. -/
theorem Narrow.step {m : Machine} (hm : m.Narrow) (hw : ¬ m.Widens) :
    m.step.2.Narrow ∧ ∀ addr, m.step.2.core.memory.read addr ≠ m.core.memory.read addr →
      (m.step.2.core.memory.read addr).toNat ≤ 32767 := by
  rcases m.step_cases with ⟨_, hs⟩ | ⟨_, f, _, hs⟩ | ⟨hmode, _, op, hop, ho, hs⟩
  · rw [hs]
    exact ⟨hm, fun addr hne => absurd rfl hne⟩
  · rw [hs]
    exact ⟨hm.congr rfl rfl rfl, fun addr hne => absurd rfl hne⟩
  · have hstored := hm.stored_effect_le hmode hop ho hw
    rw [hs]
    refine ⟨hm.after op hstored, ?_⟩
    show ∀ addr, (m.core.after op (m.effect op)).memory.read addr ≠ _ →
      ((m.core.after op (m.effect op)).memory.read addr).toNat ≤ 32767
    rw [Core.memory_after]
    exact Core.read_perform_le hstored

/-! ### Executions of narrow machines -/

/-- Steps lead from a narrow machine to a narrow machine, unless one of them widens. -/
theorem Narrow.executes {m m' : Machine} {ms : List Machine} (hm : m.Narrow)
    (hw : ∀ x ∈ ms, ¬ x.Widens) (h : Executes m ms m') : m'.Narrow := by
  induction h with
  | nil m => exact hm
  | @cons m m' ms _ ih =>
      obtain ⟨hfirst, hlater⟩ := List.forall_mem_cons.mp hw
      exact ih (hm.step hfirst).1 hlater

/-- What is accepted as input is narrow. -/
theorem accepted_le (m : Machine) (ws : List Word) : ∀ w ∈ m.accepted ws, w.toNat ≤ 32767 := by
  unfold accepted
  split
  next h => simpa using h.2
  next => exact List.forall_mem_nil _

/-- A machine is narrow with the output that it has handed out if and only if it is narrow without it
and that output is. -/
theorem narrow_owing_iff {m : Machine} {ws : List Word} :
    (m.owing ws).Narrow ↔ m.Narrow ∧ ∀ w ∈ ws, w.toNat ≤ 32767 := by
  constructor
  · intro h
    have hout := h.output
    rw [output_owing, List.forall_mem_append] at hout
    exact ⟨⟨h.registers, h.stack, h.input, hout.2⟩, hout.1⟩
  · rintro ⟨h, hws⟩
    refine ⟨h.registers, h.stack, h.input, ?_⟩
    rw [output_owing]
    exact List.forall_mem_append.mpr ⟨hws, h.output⟩

theorem not_widens_of_read {m : Machine} {op : Opcode} (h : m.core.read m.core.pc = op.toWord)
    (hr : op ≠ .rmem) (hc : op ≠ .call) : ¬ m.Widens := by
  rintro ⟨_, ⟨hop, _⟩ | ⟨hop, _⟩⟩
  · exact hr (Opcode.toWord_inj.mp (h.symm.trans hop))
  · exact hc (Opcode.toWord_inj.mp (h.symm.trans hop))

end Machine

/-! ### Operations on narrow machines -/

namespace Debugger

theorem narrow_of_setRegister {d d' : Debugger} {index : Nat} {value : Word}
    (h : d.setRegister index value = .ok d') (hd : d.machine.Narrow) : d'.machine.Narrow := by
  unfold setRegister at h
  split at h
  next => cases h
  next hvalue =>
    split at h
    next hindex =>
      cases h
      refine ⟨?_, hd.stack, hd.input, hd.output⟩
      intro r
      show ((d.machine.core.registers.set index value hindex)[r.val]).toNat ≤ 32767
      rw [Vector.getElem_set]
      split
      · exact Word.isNarrow_iff.mp (by simpa using hvalue)
      · exact hd.registers r
    next => cases h

theorem narrow_of_poke {d d' : Debugger} {addr value : Word} (h : d.poke addr value = .ok d')
    (hd : d.machine.Narrow) : d'.machine.Narrow := by
  unfold poke at h
  split at h
  next => cases h
  next =>
    cases h
    exact ⟨hd.registers, hd.stack, hd.input, hd.output⟩

/-- An edit that is made or refused. -/
theorem narrow_of_edit {d d' : Debugger} {x : Except EditError Debugger} (hd : d.machine.Narrow)
    (hx : ∀ d₁, x = .ok d₁ → d₁.machine.Narrow) (h : x = .ok d' ∨ d' = d) : d'.machine.Narrow := by
  rcases h with hok | rfl
  · exact hx d' hok
  · exact hd

end Debugger

namespace Operation

/-- What readies the machine without editing it keeps it narrow. -/
theorem Readies.narrow {op : Operation} {d : Debugger} {m : Machine} (h : op.Readies d m)
    (hop : op.edits = false) (hd : d.machine.Narrow) : m.Narrow := by
  have hcore := h.core hop
  refine ⟨hcore ▸ hd.registers, hcore ▸ hd.stack, ?_, h.output ▸ hd.output⟩
  rw [h.input]
  exact List.forall_mem_append.mpr ⟨hd.input, d.machine.accepted_le op.batch⟩

/-- An edit hands out nothing and keeps the machine narrow. -/
theorem narrow_of_edits {op : Operation} {fuel : Nat} {d d' : Debugger} {r : Reply}
    (h : op.apply fuel d = some (r, d')) (hop : op.edits = true) (hd : d.machine.Narrow) :
    d'.machine.Narrow ∧ op.collected fuel d r = [] := by
  cases op with
  | setRegister index value =>
      obtain ⟨hd', e, rfl⟩ := settle_eq h
      exact ⟨Debugger.narrow_of_edit hd (fun _ hx => Debugger.narrow_of_setRegister hx hd) hd', rfl⟩
  | poke addr value =>
      obtain ⟨hd', e, rfl⟩ := settle_eq h
      exact ⟨Debugger.narrow_of_edit hd (fun _ hx => Debugger.narrow_of_poke hx hd) hd', rfl⟩
  | command line =>
      obtain ⟨⟨text, d₁⟩, hcommand, he⟩ := Option.map_eq_some_iff.mp h
      cases he
      unfold Debugger.command at hcommand
      cases hread : Command.read line with
      | error e =>
          simp only [edits, hread] at hop
          cases hop
      | ok c =>
          rw [edits_command hread] at hop
          rw [hread] at hcommand
          rw [collected_command hread]
          cases c with
          | setRegister i v =>
              exact ⟨Debugger.narrow_of_edit hd (fun _ hx => Debugger.narrow_of_setRegister hx hd)
                (editText_eq hcommand), rfl⟩
          | poke a v =>
              exact ⟨Debugger.narrow_of_edit hd (fun _ hx => Debugger.narrow_of_poke hx hd)
                (editText_eq hcommand), rfl⟩
          | _ => cases hop
  | _ => cases hop

/-- An operation of a narrow machine hands out narrow words and leaves a narrow machine, unless one of
its steps widens. -/
theorem narrow_of_call {op : Operation} {fuel : Nat} {d d' : Debugger} {c : Call}
    (h : op.call fuel d = some (c, d')) (hw : ∀ m ∈ c.attempts, ¬ m.Widens) (hd : d.machine.Narrow) :
    d'.machine.Narrow ∧ ∀ w ∈ c.collected, w.toNat ≤ 32767 := by
  obtain ⟨r, hr, rfl⟩ := call_eq_some_iff.mp h
  cases hop : op.edits with
  | true =>
      obtain ⟨hd', hcollected⟩ := narrow_of_edits hr hop hd
      refine ⟨hd', ?_⟩
      rw [hcollected]
      exact List.forall_mem_nil _
  | false =>
      obtain ⟨m, hready, hexec⟩ := course hr
      exact Machine.narrow_owing_iff.mp ((hready.narrow hop hd).executes hw hexec)

end Operation

namespace Debugger

theorem Transcript.narrow {d d' : Debugger} {cs : List Call} (h : Transcript d cs d')
    (hw : ∀ c ∈ cs, ∀ m ∈ c.attempts, ¬ m.Widens) (hd : d.machine.Narrow) :
    d'.machine.Narrow ∧ ∀ c ∈ cs, ∀ w ∈ c.collected, w.toNat ≤ 32767 := by
  induction h with
  | nil d => exact ⟨hd, List.forall_mem_nil _⟩
  | cons hcall _ ih =>
      obtain ⟨hfirst, hlater⟩ := List.forall_mem_cons.mp hw
      obtain ⟨hd₁, hcollected⟩ := Operation.narrow_of_call hcall hfirst hd
      obtain ⟨hd', hmore⟩ := ih hlater hd₁
      exact ⟨hd', List.forall_mem_cons.mpr ⟨hcollected, hmore⟩⟩

/-- **Words stay narrow but for two events.**  A new machine is narrow.  Every operation, be it input,
an edit of registers or memory, collecting output or setting the machine going, keeps it so and hands
out narrow words only, unless one of its steps reads a wide word of memory as data or calls from one of
the last two addresses.  Any other step moreover changes memory to narrow words only.  In a transcript of
any length without these two events the machine is narrow at the end, and all words handed out are. -/
theorem words_stay_narrow :
    (∀ memory s, (Machine.ofMemory memory).Narrow ∧ (Machine.ofSettings memory s).Narrow) ∧
    (∀ (op : Operation) fuel d c d', op.call fuel d = some (c, d') →
      (∀ m ∈ c.attempts, ¬ m.Widens) → d.machine.Narrow →
      d'.machine.Narrow ∧ ∀ w ∈ c.collected, w.toNat ≤ 32767) ∧
    (∀ m : Machine, m.Narrow → ¬ m.Widens → m.step.2.Narrow ∧
      ∀ addr, m.step.2.core.memory.read addr ≠ m.core.memory.read addr →
        (m.step.2.core.memory.read addr).toNat ≤ 32767) ∧
    (∀ memory s bs cs d', Transcript ⟨Machine.ofSettings memory s, bs⟩ cs d' →
      (∀ c ∈ cs, ∀ m ∈ c.attempts, ¬ m.Widens) →
      d'.machine.Narrow ∧ ∀ c ∈ cs, ∀ w ∈ c.collected, w.toNat ≤ 32767) := by
  refine ⟨?_, ?_, ?_, ?_⟩
  · intro memory s
    exact ⟨Machine.narrow_ofMemory memory, Machine.narrow_ofSettings memory s⟩
  · intro op fuel d c d' h hw hd
    exact Operation.narrow_of_call h hw hd
  · intro m hm hw
    exact hm.step hw
  · intro memory s bs cs d' h hw
    exact h.narrow hw (Machine.narrow_ofSettings memory s)

/-- A program that copies one word from its input to its output. -/
def copier : Debugger :=
  ofMachine (Machine.ofSettings (Memory.holding [20, 32768, 19, 32768] (by decide)) {})

/-- The machine of this program with the largest narrow word as input. -/
def fedCopier : Machine := { copier.machine with input := [32767] }

/-- The program is given the largest narrow word, and run to its end. -/
theorem copier_hands_out_largest :
    ∃ cs d, Transcript copier cs d ∧ cs.map (·.operation) = [.queue [32767], .run] ∧
      cs.map (·.collected) = [[], [32767]] ∧ d.machine.mode = .halted ∧ d.machine.Narrow := by
  obtain ⟨c₁, c₂, d₁, d₂, h₁, h₂, hops, hcollected, hfirst, hattempts, hmode⟩ : ∃ c₁ c₂ d₁ d₂,
      (Operation.queue [32767]).call 0 copier = some (c₁, d₁) ∧
      Operation.run.call 3 d₁ = some (c₂, d₂) ∧
      [c₁, c₂].map (·.operation) = [.queue [32767], .run] ∧
      [c₁, c₂].map (·.collected) = [[], [32767]] ∧ c₁.attempts = [] ∧
      c₂.attempts = [fedCopier, fedCopier.next, fedCopier.next.next] ∧ d₂.machine.mode = .halted :=
    ⟨_, _, _, _, rfl, rfl, rfl, rfl, rfl, rfl, rfl⟩
  have hw : ∀ c ∈ [c₁, c₂], ∀ m ∈ c.attempts, ¬ m.Widens := by
    refine List.forall_mem_cons.mpr ⟨?_, List.forall_mem_singleton.mpr ?_⟩
    · rw [hfirst]
      exact List.forall_mem_nil _
    · rw [hattempts]
      refine List.forall_mem_cons.mpr ⟨?_, List.forall_mem_cons.mpr ⟨?_, List.forall_mem_singleton.mpr ?_⟩⟩
      · exact @Machine.not_widens_of_read _ .input rfl (by decide) (by decide)
      · exact @Machine.not_widens_of_read _ .output rfl (by decide) (by decide)
      · exact @Machine.not_widens_of_read _ .halt rfl (by decide) (by decide)
  have htranscript : Transcript copier [c₁, c₂] d₂ := .cons h₁ (.cons h₂ (.nil d₂))
  exact ⟨_, _, htranscript, hops, hcollected, hmode,
    (words_stay_narrow.2.2.2 _ _ _ _ _ htranscript hw).1⟩

end Debugger
end WordMachine
