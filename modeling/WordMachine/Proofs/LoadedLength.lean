import WordMachine.Settings
import WordMachine.Proofs.Carried
import WordMachine.Proofs.Encoding

/-! # The loaded length

A memory knows how many words its image supplied.  Only the events of writes over the program and the summary
of a core tell of it: no instruction, no operation and no direct access to the parts of a machine answers
differently or leaves anything else behind when the number is another one.  Two images that differ in zero
bytes at their ends therefore give machines that cannot be told apart.

* `Machine.carried_unloaded` : forgetting the number is carried along by execution.
* `Request`, `Request.answers` : everything that can be asked of a machine in a debugger, and the answers.
* `Request.answers_unloaded` : forgetting the number commutes with every list of requests.
* `loading_inverts_encoding` : the statement about images. -/

namespace WordMachine

/-! ### Memory and core -/

/-- The memory that counts no word as loaded. -/
def Memory.unloaded (memory : Memory) : Memory := ⟨memory.words, 0, Nat.zero_le _⟩

theorem Memory.write_unloaded (memory : Memory) (addr : Nat) (v : Word) :
    memory.unloaded.write addr v = (memory.write addr v).unloaded := by
  unfold write
  split <;> rfl

namespace Core

/-- The core whose memory counts no word as loaded. -/
def unloaded (c : Core) : Core := { c with memory := c.memory.unloaded }

theorem write_unloaded (c : Core) (addr v : Word) :
    c.unloaded.write addr v = (c.write addr v).unloaded := by
  have h : c.unloaded.memory.write addr.toNat v = _ := c.memory.write_unloaded addr.toNat v
  unfold write
  rw [h]
  rfl

theorem store_unloaded (c : Core) (dst v : Word) :
    c.unloaded.store dst v = (c.store dst v).unloaded := by
  unfold store
  split
  · exact c.write_unloaded _ v
  · rfl
  · rfl

theorem perform_unloaded (c : Core) (a : Action) :
    c.unloaded.perform a = (c.perform a).unloaded := by
  cases a with
  | assign dst v | receive dst v => exact c.store_unloaded dst v
  | pop dst v => exact store_unloaded { c with stack := c.stack.tail } dst v
  | overwrite addr v => exact c.write_unloaded addr v
  | _ => rfl

theorem after_unloaded (c : Core) (op : Opcode) (a : Action) :
    c.unloaded.after op a = (c.after op a).unloaded := by
  unfold after
  rw [perform_unloaded]
  split <;> rfl

end Core

/-! ### Machines -/

namespace Machine

/-- The machine whose memory counts no word as loaded. -/
def unloaded (m : Machine) : Machine := { m with core := m.core.unloaded }

theorem after_unloaded (m : Machine) (op : Opcode) (a : Action) :
    m.unloaded.after op a = (m.after op a).unloaded := by
  have h : m.unloaded.core.after op a = _ := m.core.after_unloaded op a
  unfold after
  rw [h]
  rfl

theorem unnoticed_unloaded : Unnoticed unloaded where
  after := after_unloaded

/-- Forgetting how much was loaded is carried along by execution. -/
theorem carried_unloaded : Carried unloaded where
  step := unnoticed_unloaded.step
  mode _ := rfl
  limit _ := rfl
  output _ := rfl
  pc _ := rfl
  words _ := rfl
  emptied _ := rfl
  feed _ _ := rfl
  setLimit _ _ := rfl
  setRegister _ _ _ := rfl
  write m addr v := congrArg (fun c => { m with core := c }) (m.core.write_unloaded addr v).symm

theorem carryOut_unloaded (m : Machine) (planned : Except Fault Action) :
    m.unloaded.carryOut planned = Prod.map id unloaded (m.carryOut planned) := by
  cases planned with
  | error f => rfl
  | ok a =>
      have h : m.unloaded.core.perform a = _ := m.core.perform_unloaded a
      simp only [carryOut, perform, h]
      cases a <;> rfl

end Machine

/-! ### Requests -/

/-- What can be asked of a machine in a debugger: the operations, and direct access to the parts of the
machine.  What is merely kept, such as stack or output, is part of the debugger and is not asked for. -/
inductive Request where
  | operation (op : Operation)
  /-- Execute an operation on its own, by the planner of its own family. -/
  | execute (op : Opcode) (operands : List Word)
  /-- Execute an operation on its own, by the planner of a given family. -/
  | executeIn (family : Family) (op : Opcode) (operands : List Word)
  | setPc (pc : Word)
  | push (value : Word)
  | pop
  | write (addr : Nat) (value : Word)
  /-- Store a value in the place that a destination word names. -/
  | store (dst value : Word)
  /-- Set a register to any word. -/
  | setRegister (index : Nat) (value : Word)
  | register (index : Nat)
  /-- The value that an operand word denotes. -/
  | value (w : Word)
  | read (addr : Nat)
  | peek (addr : Word) (count : Nat)
  | list (addr : Word) (count : Nat)
  /-- The trace line of the instruction at an address. -/
  | traceLine (addr : Word)
  | report
  deriving DecidableEq, Repr

/-- What a request is answered with. -/
inductive Answer where
  | reply (r : Reply)
  | word (r : Except Fault Word)
  | found (w : Option Word)
  | lines (ls : List String)
  /-- A trace line, or the word that is no opcode. -/
  | line (l : Except Word String)

namespace Debugger

/-- The debugger with another core in its machine. -/
def withCore (d : Debugger) (c : Core) : Debugger := d.holding { d.machine with core := c }

/-- The debugger whose memory counts no word as loaded. -/
def unloaded (d : Debugger) : Debugger := d.through Machine.unloaded

end Debugger

namespace Request

/-- The answer to a request and the debugger after it; `none` if a run does not come to an end within the
fuel, or there is no room for the words or lines that are asked for. -/
def answer (fuel : Nat) (d : Debugger) : Request → Option (Answer × Debugger)
  | .operation op => (op.apply fuel d).map (Prod.map .reply id)
  | .execute op operands =>
    let (r, m) := d.machine.execute op operands
    some (.reply (.stepped r), d.holding m)
  | .executeIn family op operands =>
    let (r, m) := d.machine.executeIn family op operands
    some (.reply (.stepped r), d.holding m)
  | .setPc pc => some (.reply .done, d.holding (d.machine.setPc pc))
  | .push v => some (.reply .done, d.withCore (d.machine.core.push v))
  | .pop =>
    match d.machine.core.pop with
    | .ok (v, c) => some (.word (.ok v), d.withCore c)
    | .error f => some (.word (.error f), d)
  | .write addr v =>
    let core := d.machine.core
    some (.reply (.answer (Memory.isWritable addr)),
      d.withCore { core with memory := core.memory.write addr v })
  | .store dst v => some (.reply .done, d.withCore (d.machine.core.store dst v))
  | .setRegister index v =>
    if h : index < 8 then
      some (.reply (.answer true), d.withCore (d.machine.core.setRegister ⟨index, h⟩ v))
    else some (.reply (.answer false), d)
  | .register index => some (.found (d.machine.core.register? index), d)
  | .value w => some (.word (d.machine.core.value w), d)
  | .read addr => some (.word (.ok (d.machine.core.memory.read addr)), d)
  | .peek addr count => (d.peek addr count).map fun ws => (.reply (.words ws), d)
  | .list addr count => (d.listingAt addr count).map fun ls => (.lines ls, d)
  | .traceLine addr =>
    let core := d.machine.core
    some (.line ((Instruction.decode core.memory.read addr).map (Trace.line core)), d)
  | .report => some (.reply (.text d.report), d)

/-- The answers to a list of requests, one after the other, and the debugger after them; `none` if one of
them has no answer. -/
def answers (fuel : Nat) : List Request → Debugger → Option (List Answer × Debugger) :=
  Debugger.inTurn fun r d => r.answer fuel d

end Request

/-! ### Requests do not tell how much was loaded -/

/-- Nor do the operations that change or show a trace. -/
theorem Operation.apply_unloaded (op : Operation) (fuel : Nat) (d : Debugger) :
    op.apply fuel d.unloaded = (op.apply fuel d).map (Prod.map id Debugger.unloaded) := by
  by_cases h : op.isTracing = false ∧ op.showsTrace = false
  · exact apply_through Machine.carried_unloaded h.1 h.2 fuel d
  · cases op with
    | enableTrace capacity | disableTrace | clearTrace => rfl
    | command line =>
        have hshows : (command line).showsTrace = true := by simpa [isTracing] using h
        unfold showsTrace at hshows
        simp only [apply, Debugger.command]
        cases hread : Command.read line with
        | error e => rfl
        | ok c =>
            simp only [hread] at hshows
            cases c with
            | report | history => rfl
            | _ => cases hshows
    | _ => exact absurd ⟨rfl, rfl⟩ h

namespace Request

theorem answer_unloaded (r : Request) (fuel : Nat) (d : Debugger) :
    r.answer fuel d.unloaded = (r.answer fuel d).map (Prod.map id Debugger.unloaded) := by
  cases r with
  | operation op =>
      simp only [answer, Operation.apply_unloaded]
      cases op.apply fuel d <;> rfl
  | execute op operands =>
      have hplan : d.unloaded.machine.plan op operands = d.machine.plan op operands := by
        cases op <;> rfl
      have h : d.unloaded.machine.carryOut (d.machine.plan op operands) = _ :=
        d.machine.carryOut_unloaded _
      simp only [answer, Machine.execute, hplan, h]
      rfl
  | executeIn family op operands =>
      have hplan : d.unloaded.machine.core.planIn d.unloaded.machine.input.head? family op operands =
          d.machine.core.planIn d.machine.input.head? family op operands := by
        cases family <;> rfl
      have h : d.unloaded.machine.carryOut
          (d.machine.core.planIn d.machine.input.head? family op operands) = _ :=
        d.machine.carryOut_unloaded _
      simp only [answer, Machine.executeIn, hplan, h]
      rfl
  | pop =>
      have hpop : d.unloaded.machine.core.pop = (d.machine.core.pop).map (Prod.map id Core.unloaded) := by
        have hstack : d.unloaded.machine.core.stack = d.machine.core.stack := rfl
        unfold Core.pop
        rw [hstack]
        cases d.machine.core.stack <;> rfl
      simp only [answer, hpop]
      cases d.machine.core.pop <;> rfl
  | write addr v =>
      have h : d.unloaded.machine.core.memory.write addr v = _ :=
        d.machine.core.memory.write_unloaded addr v
      simp only [answer, h]
      rfl
  | store dst v =>
      have h : d.unloaded.machine.core.store dst v = _ := d.machine.core.store_unloaded dst v
      simp only [answer, h]
      rfl
  | setRegister index v =>
      simp only [answer]
      split <;> rfl
  | peek addr count | list addr count =>
      simp only [answer, Option.map_map]
      rfl
  | setPc pc | push v | register index | value w | read addr | traceLine addr | report => rfl

/-- Forgetting how much was loaded commutes with every list of requests. -/
theorem answers_unloaded (rs : List Request) (fuel : Nat) (d : Debugger) :
    answers fuel rs d.unloaded = (answers fuel rs d).map (Prod.map id Debugger.unloaded) :=
  Debugger.inTurn_map (fun r d => r.answer_unloaded fuel d) rs d

end Request

/-! ### Images -/

namespace Debugger

/-- A debugger at the start of the program in a memory, with the given settings, whose machine is traced in
any case if `history`. -/
def start (memory : Memory) (s : Settings) (history : Bool) : Debugger :=
  if history then withHistory (Machine.ofSettings memory s) else ofMachine (Machine.ofSettings memory s)

theorem unloaded_withHistory (m : Machine) : (withHistory m).unloaded = withHistory m.unloaded := by
  have htrace : m.unloaded.trace = m.trace := rfl
  unfold withHistory
  rw [htrace]
  split <;> rfl

theorem unloaded_start (memory : Memory) (s : Settings) (history : Bool) :
    (start memory s history).unloaded = start memory.unloaded s history := by
  have hmachine : Machine.ofSettings memory.unloaded s = (Machine.ofSettings memory s).unloaded := by
    unfold Machine.ofSettings
    split <;> rfl
  unfold start
  rw [hmachine]
  cases history with
  | false => rfl
  | true => exact unloaded_withHistory _

end Debugger

/-- Machines whose memories hold the same words answer every list of requests alike, and stay alike. -/
theorem Request.answers_of_words {memory memory' : Memory} (h : memory.words = memory'.words)
    (s : Settings) (history : Bool) (fuel : Nat) (rs : List Request) :
    (answers fuel rs (.start memory s history)).map (Prod.map id Debugger.unloaded) =
      (answers fuel rs (.start memory' s history)).map (Prod.map id Debugger.unloaded) := by
  have hmemory : memory.unloaded = memory'.unloaded := by simp [Memory.unloaded, h]
  rw [← answers_unloaded, ← answers_unloaded, Debugger.unloaded_start, Debugger.unloaded_start, hmemory]

/-- **Loading an image is the inverse of encoding it.**  The bytes of a list of words load as the words.  A
list of bytes is loaded exactly if it has at most `2 ^ 15` words, half a word counted as one, and otherwise
refused with that number.  The memory then has `2 ^ 15` words, of which the loaded ones encode to the bytes,
with a zero byte behind an odd number of them, and the others are zero.  A stream of the bytes loads alike.
Images that differ in zero bytes at their ends give machines that answer every list of requests alike and
reach the same states, apart from the loaded length. -/
theorem loading_inverts_encoding :
    (∀ ws, Memory.ofBytes (bytesOfWords ws) = Memory.ofWords ws) ∧
    (∀ bs, ((∃ memory, Memory.ofBytes bs = .ok memory) ↔ (bs.length + 1) / 2 ≤ 32768) ∧
      (¬ (bs.length + 1) / 2 ≤ 32768 →
        Memory.ofBytes bs = .error (.imageTooLarge ((bs.length + 1) / 2))) ∧
      (∀ memory, Memory.ofBytes bs = .ok memory → memory.Encodes bs) ∧
      Memory.ofStream (.ok bs) = Memory.ofBytes bs) ∧
    ∀ bs j k memory₁ memory₂, Memory.ofBytes (bs ++ List.replicate j 0) = .ok memory₁ →
      Memory.ofBytes (bs ++ List.replicate k 0) = .ok memory₂ →
      ∀ s history fuel requests,
        (Request.answers fuel requests (.start memory₁ s history)).map (Prod.map id Debugger.unloaded) =
          (Request.answers fuel requests (.start memory₂ s history)).map
            (Prod.map id Debugger.unloaded) := by
  refine ⟨?_, ?_, ?_⟩
  · intro ws
    rw [Memory.ofBytes, wordsOfBytes_bytesOfWords]
  · intro bs
    refine ⟨?_, ?_, ?_, rfl⟩
    · constructor
      · rintro ⟨memory, h⟩
        exact (Memory.ofBytes_eq_ok h).1
      · intro h
        obtain ⟨hws, hload⟩ := Memory.ofBytes_of_le h
        exact ⟨_, hload⟩
    · intro h
      exact Memory.ofBytes_of_gt (by omega)
    · intro memory h
      exact Memory.encodes_of_ofBytes h
  · intro bs j k memory₁ memory₂ h₁ h₂ s history fuel requests
    exact Request.answers_of_words (Memory.words_of_trailing_zeros h₁ h₂) s history fuel requests

/-- A program that prints a letter and halts, once without the zeros at its end, where it breaks off in half
a word, and once with all of them.  The loaded lengths differ, and both debuggers answer and end alike. -/
theorem printer_with_and_without_zeros : ∃ memory₁ memory₂,
    Memory.ofBytes [19, 0, 65] = .ok memory₁ ∧ Memory.ofBytes [19, 0, 65, 0, 0, 0] = .ok memory₂ ∧
    memory₁.loaded = 2 ∧ memory₂.loaded = 3 ∧
    bytesOfWords (memory₁.words.toList.take memory₁.loaded) = [19, 0, 65, 0] ∧
    (∃ x, Request.answers 2 [.operation .run, .operation (.poke 1 66), .report]
        (.start memory₁ {} true) = some x ∧
      ∃ y, Request.answers 2 [.operation .run, .operation (.poke 1 66), .report]
        (.start memory₂ {} true) = some y ∧
      x.1 = y.1 ∧ x.2.unloaded = y.2.unloaded) := by
  obtain ⟨_, hload, hzeros⟩ := loading_inverts_encoding
  obtain ⟨memory₁, h₁⟩ := (hload [19, 0, 65]).1.mpr (by decide)
  obtain ⟨memory₂, h₂⟩ := (hload [19, 0, 65, 0, 0, 0]).1.mpr (by decide)
  have hencodes₁ := (hload [19, 0, 65]).2.2.1 memory₁ h₁
  have hencodes₂ := (hload [19, 0, 65, 0, 0, 0]).2.2.1 memory₂ h₂
  have halike := hzeros [19, 0, 65] 0 3 memory₁ memory₂ h₁ h₂ {} true 2
    [.operation .run, .operation (.poke 1 66), .report]
  obtain ⟨x, hx⟩ : ∃ x, Request.answers 2 [.operation .run, .operation (.poke 1 66), .report]
      (.start memory₁ {} true) = some x := by
    have hmemory : memory₁ = Memory.holding [19, 65] (by decide) := by
      have hloads : Memory.ofBytes [19, 0, 65] = .ok (Memory.holding [19, 65] (by decide)) :=
        Memory.ofWords_of_le (by decide)
      exact Except.ok.inj (h₁.symm.trans hloads)
    rw [hmemory]
    exact ⟨_, rfl⟩
  rw [hx] at halike
  obtain ⟨y, hy, hxy⟩ := Option.map_eq_some_iff.mp halike.symm
  refine ⟨memory₁, memory₂, h₁, h₂, hencodes₁.loaded, hencodes₂.loaded, hencodes₁.bytes, x, hx, y, hy, ?_⟩
  obtain ⟨hanswers, hends⟩ := Prod.mk.inj hxy
  exact ⟨hanswers.symm, hends.symm⟩

end WordMachine
