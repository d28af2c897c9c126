import WordMachine.Proofs.Continuing
import WordMachine.Proofs.Pieces
import WordMachine.Proofs.Spelling

/-! # What commands touch

A command touches only what it names.  Apart from the commands that let the machine run, one command
changes a word of memory, one changes a register and two change the breakpoints; every other line
leaves the debugger as it is, also when it is refused for its last argument.

* `Command.Effective` : the commands that may change a debugger.
* `Debugger.Undisturbed` : at most memory, registers and breakpoints differ.
* `Debugger.Touches` : what a line may do to a debugger if it does not let the machine run.
* `Debugger.commands_touch_what_they_name` : the effect of every line on every debugger. -/

namespace WordMachine
namespace Command

/-- The commands that may change a debugger. -/
inductive Effective : Command → Prop
  | step (n : Nat) : Effective (.step n)
  | resume : Effective .resume
  | addBreakpoint (a : Word) : Effective (.addBreakpoint a)
  | removeBreakpoint (a : Word) : Effective (.removeBreakpoint a)
  | setRegister {i : Fin 8} {v : Word} : v.toNat ≤ 32767 → Effective (.setRegister i v)
  | poke (a v : Word) : Effective (.poke a v)

/-- The line is blank or begins with a word for stepping or continuing. -/
def MayRun (line : String) : Prop :=
  (∀ c ∈ line.toList, Text.isBlank c = true) ∨
    ∃ w ∈ ["n", "next", "c", "continue"], (Text.words line).head? = some w

theorem mayRun_of_step {line : String} {n : Nat} (h : Spells (Text.words line) (.step n)) :
    MayRun line := by
  unfold MayRun
  rw [← Text.words_eq_nil_iff]
  generalize Text.words line = ws at h
  cases h with
  | blank => exact .inl rfl
  | step hw => exact .inr ⟨_, by rcases hw with rfl | rfl <;> simp, rfl⟩
  | steps hw _ => exact .inr ⟨_, by rcases hw with rfl | rfl <;> simp, rfl⟩

theorem mayRun_of_resume {line : String} (h : Spells (Text.words line) .resume) :
    MayRun line := by
  unfold MayRun
  generalize Text.words line = ws at h
  cases h with
  | resume hw => exact .inr ⟨_, by rcases hw with rfl | rfl <;> simp, rfl⟩

theorem Spells.address_le {ws : List String} {a v : Word} (h : Spells ws (.poke a v)) :
    a.toNat ≤ 32767 := by
  cases h with
  | poke ha _ => exact ha.2

end Command

namespace Debugger

open Command (Spells)

/-! ### Executing one command -/

/-- The debugger with another memory. -/
def withMemory (d : Debugger) (memory : Memory) : Debugger :=
  { d with machine := { d.machine with core := { d.machine.core with memory } } }

/-- The debugger with other registers. -/
def withRegisters (d : Debugger) (registers : Vector Word 8) : Debugger :=
  { d with machine := { d.machine with core := { d.machine.core with registers } } }

theorem perform_of_not_effective (fuel : Nat) (d : Debugger) {c : Command} (h : ¬c.Effective) :
    ∃ answer, d.perform fuel c = some (answer, d) := by
  cases c with
  | step n => exact absurd (.step n) h
  | resume => exact absurd .resume h
  | addBreakpoint a => exact absurd (.addBreakpoint a) h
  | removeBreakpoint a => exact absurd (.removeBreakpoint a) h
  | poke a v => exact absurd (.poke a v) h
  | setRegister i v =>
      have hv : ¬v.toNat ≤ 32767 := fun hv => h (.setRegister hv)
      have hwide : v.isNarrow = false := Word.isNarrow_eq_false_iff.mpr (by omega)
      refine ⟨(EditError.wideValue v).message, ?_⟩
      simp [perform, Debugger.setRegister, hwide, editText]
  | report | history | list addr count | breakpoints | peek a => exact ⟨_, rfl⟩

theorem perform_poke (fuel : Nat) (d : Debugger) {a : Word} (v : Word) (ha : a.toNat ≤ 32767) :
    d.perform fuel (.poke a v) =
      some ("[" ++ Text.decimal a.toNat ++ "] = " ++ Text.decimal v.toNat,
        d.withMemory (d.machine.core.memory.write a.toNat v)) := by
  simp [perform, poke, Word.isNarrow_iff.mpr ha, editText, withMemory, Core.write]

theorem perform_setRegister (fuel : Nat) (d : Debugger) (i : Fin 8) {v : Word}
    (hv : v.toNat ≤ 32767) :
    d.perform fuel (.setRegister i v) =
      some ("r" ++ Text.decimal i.val ++ " = " ++ Text.decimal v.toNat,
        d.withRegisters (d.machine.core.registers.set i v)) := by
  simp [perform, Debugger.setRegister, Word.isNarrow_iff.mpr hv, editText, withRegisters, Core.setRegister]

theorem breakpoints_of_stepText {d d' : Debugger} {count : Nat} {text : String}
    (h : d.stepText count = (text, d')) : d'.breakpoints = d.breakpoints := by
  rcases ha : d.machine.advance count with ⟨p, m⟩
  obtain ⟨_, _, hreported⟩ := reported_of_stepText 0 ha h
  exact hreported.breakpoints

theorem breakpoints_of_resumeText {d d' : Debugger} {fuel : Nat} {text : String}
    (h : d.resumeText fuel = some (text, d')) : d'.breakpoints = d.breakpoints := by
  rcases ha : advanceTo d.breakpoints fuel d.machine with ⟨r, m⟩
  obtain ⟨_, _, hreported⟩ := reported_of_resumeText ha h
  exact hreported.breakpoints

/-! ### Executing a line -/

theorem command_of_spells {line : String} {c : Command} (fuel : Nat) (d : Debugger)
    (h : Spells (Text.words line) c) : d.command fuel line = d.perform fuel c := by
  unfold command
  rw [Command.read_eq_ok_iff.mpr h]

/-- A line that spells no command with an effect changes nothing. -/
theorem command_of_not_effective {line : String} (fuel : Nat) (d : Debugger)
    (h : ∀ c, Spells (Text.words line) c → ¬c.Effective) :
    ∃ answer, d.command fuel line = some (answer, d) := by
  unfold command
  cases hread : Command.read line with
  | ok c => exact perform_of_not_effective fuel d (h c (Command.read_eq_ok_iff.mp hread))
  | error r => exact ⟨_, rfl⟩

/-- What the words of a line may do to a debugger if they do not let its machine run. -/
inductive Touches (ws : List String) (d : Debugger) : Debugger → Prop
  | nothing : Touches ws d d
  | word {a v : Word} : Spells ws (.poke a v) →
      Touches ws d (d.withMemory (d.machine.core.memory.write a.toNat v))
  | register {i : Fin 8} {v : Word} : Spells ws (.setRegister i v) → v.toNat ≤ 32767 →
      Touches ws d (d.withRegisters (d.machine.core.registers.set i v i.isLt))
  | breakpoints {a : Word} (bs : Breakpoints) :
      Spells ws (.addBreakpoint a) ∨ Spells ws (.removeBreakpoint a) →
      Touches ws d { d with breakpoints := bs }

theorem touches_of_command {line : String} (fuel : Nat) (d : Debugger)
    (hstep : ∀ n, ¬Spells (Text.words line) (.step n))
    (hresume : ¬Spells (Text.words line) .resume) :
    ∃ answer d', d.command fuel line = some (answer, d') ∧ Touches (Text.words line) d d' := by
  by_cases h : ∃ c, Spells (Text.words line) c ∧ c.Effective
  · obtain ⟨c, hspells, heffective⟩ := h
    rw [command_of_spells fuel d hspells]
    cases heffective with
    | step n => exact absurd hspells (hstep n)
    | resume => exact absurd hspells hresume
    | addBreakpoint a => exact ⟨_, _, rfl, .breakpoints _ (.inl hspells)⟩
    | removeBreakpoint a => exact ⟨_, _, rfl, .breakpoints _ (.inr hspells)⟩
    | setRegister hv => exact ⟨_, _, perform_setRegister fuel d _ hv, .register hspells hv⟩
    | poke a v => exact ⟨_, _, perform_poke fuel d v hspells.address_le, .word hspells⟩
  · obtain ⟨answer, hcommand⟩ := command_of_not_effective fuel d fun c hs he => h ⟨c, hs, he⟩
    exact ⟨answer, d, hcommand, .nothing⟩

/-- At most memory, registers and breakpoints differ. -/
structure Undisturbed (d d' : Debugger) : Prop where
  pc : d'.machine.core.pc = d.machine.core.pc
  stack : d'.machine.core.stack = d.machine.core.stack
  mode : d'.machine.mode = d.machine.mode
  input : d'.machine.input = d.machine.input
  output : d'.machine.output = d.machine.output
  executed : d'.machine.executed = d.machine.executed
  limit : d'.machine.limit = d.machine.limit
  trace : d'.machine.trace = d.machine.trace

namespace Touches

variable {ws : List String} {d d' : Debugger}

theorem undisturbed (h : Touches ws d d') : d.Undisturbed d' := by
  cases h <;> exact ⟨rfl, rfl, rfl, rfl, rfl, rfl, rfl, rfl⟩

theorem memory (h : Touches ws d d')
    (hne : d'.machine.core.memory ≠ d.machine.core.memory) : ∃ a v, Spells ws (.poke a v) := by
  cases h with
  | word hspells => exact ⟨_, _, hspells⟩
  | nothing | register _ _ | breakpoints _ _ => exact absurd rfl hne

theorem registers (h : Touches ws d d')
    (hne : d'.machine.core.registers ≠ d.machine.core.registers) :
    ∃ i v, Spells ws (.setRegister i v) ∧ v.toNat ≤ 32767 := by
  cases h with
  | register hspells hv => exact ⟨_, _, hspells, hv⟩
  | nothing | word _ | breakpoints _ _ => exact absurd rfl hne

theorem marks (h : Touches ws d d') (hne : d'.breakpoints ≠ d.breakpoints) :
    ∃ a, Spells ws (.addBreakpoint a) ∨ Spells ws (.removeBreakpoint a) := by
  cases h with
  | breakpoints bs hspells => exact ⟨_, hspells⟩
  | nothing | word _ | register _ _ => exact absurd rfl hne

end Touches

/-- Only two commands change the breakpoints, also among those that let the machine run. -/
theorem marks_of_command {line answer : String} {fuel : Nat} {d d' : Debugger}
    (h : d.command fuel line = some (answer, d')) (hne : d'.breakpoints ≠ d.breakpoints) :
    ∃ a, Spells (Text.words line) (.addBreakpoint a) ∨
      Spells (Text.words line) (.removeBreakpoint a) := by
  by_cases hstep : ∃ n, Spells (Text.words line) (.step n)
  · obtain ⟨n, hn⟩ := hstep
    rw [command_of_spells fuel d hn] at h
    exact absurd (breakpoints_of_stepText (Option.some.inj h)) hne
  · by_cases hresume : Spells (Text.words line) .resume
    · rw [command_of_spells fuel d hresume] at h
      exact absurd (breakpoints_of_resumeText h) hne
    · obtain ⟨_, _, hcommand, htouches⟩ := touches_of_command fuel d (not_exists.mp hstep) hresume
      cases hcommand.symm.trans h
      exact htouches.marks hne

/-- **Commands touch what they name.**  A line that is not blank and does not begin with a word for
stepping or continuing is always answered and disturbs nothing of the execution.  Memory changes only for
`poke` with an address and a word, which sets this word alone and says so, and registers only for `set`
with a register and a value of fifteen bits, which sets this register alone.  The breakpoints change only
for `b` and `rb` with an address, whatever the line.  A line that spells none of these and no command to
step or continue changes nothing at all. -/
theorem commands_touch_what_they_name (fuel : Nat) (d : Debugger) (line : String) :
    (¬Command.MayRun line → ∃ answer d', d.command fuel line = some (answer, d') ∧
      d.Undisturbed d' ∧
      (d'.machine.core.memory ≠ d.machine.core.memory →
        ∃ a v, Spells (Text.words line) (.poke a v)) ∧
      (d'.machine.core.registers ≠ d.machine.core.registers →
        ∃ i v, Spells (Text.words line) (.setRegister i v) ∧ v.toNat ≤ 32767)) ∧
    (∀ answer d', d.command fuel line = some (answer, d') → d'.breakpoints ≠ d.breakpoints →
      ∃ a, Spells (Text.words line) (.addBreakpoint a) ∨
        Spells (Text.words line) (.removeBreakpoint a)) ∧
    (∀ a v, Spells (Text.words line) (.poke a v) → ∃ memory,
      d.command fuel line =
        some ("[" ++ Text.decimal a.toNat ++ "] = " ++ Text.decimal v.toNat, d.withMemory memory) ∧
      memory.loaded = d.machine.core.memory.loaded ∧
      ∀ x, memory.read x = if x = a.toNat then v else d.machine.core.memory.read x) ∧
    (∀ i v, Spells (Text.words line) (.setRegister i v) → v.toNat ≤ 32767 → ∃ answer registers,
      d.command fuel line = some (answer, d.withRegisters registers) ∧
      ∀ j, registers.get j = if j = i then v else d.machine.core.registers.get j) ∧
    ((∀ c, Spells (Text.words line) c → ¬c.Effective) →
      ∃ answer, d.command fuel line = some (answer, d)) := by
  refine ⟨?_, ?_, ?_, ?_, command_of_not_effective fuel d⟩
  · intro hrun
    obtain ⟨answer, d', hcommand, htouches⟩ := touches_of_command fuel d
      (fun n hn => hrun (Command.mayRun_of_step hn)) (fun h => hrun (Command.mayRun_of_resume h))
    exact ⟨answer, d', hcommand, htouches.undisturbed, htouches.memory, htouches.registers⟩
  · intro answer d' h hne
    exact marks_of_command h hne
  · intro a v hspells
    have ha := hspells.address_le
    refine ⟨_, (command_of_spells fuel d hspells).trans (perform_poke fuel d v ha),
      Memory.loaded_write _ _ _, ?_⟩
    intro x
    rw [Memory.read_write]
    have hlt : a.toNat < 32768 := by omega
    simp [hlt, eq_comm]
  · intro i v hspells hv
    refine ⟨_, _, (command_of_spells fuel d hspells).trans (perform_setRegister fuel d i hv), ?_⟩
    intro j
    show (d.machine.core.registers.set i v)[j.val] = _
    have e : i.val = j.val ↔ j = i := by rw [Fin.ext_iff, eq_comm]
    rw [Vector.getElem_set]
    simp only [e]
    rfl

/-- The last address and the last register are set.  A line for a breakpoint disturbs nothing, and a
count that is one too large changes nothing although its line begins with a word for stepping. -/
theorem greeter_is_edited :
    (Spells (Text.words "poke 0x7FFF +65535") (.poke 32767 65535) ∧
      ∃ memory, greeter.command 0 "poke 0x7FFF +65535" =
          some ("[32767] = 65535", greeter.withMemory memory) ∧
        memory.loaded = greeter.machine.core.memory.loaded ∧
        ∀ x, memory.read x = if x = 32767 then 65535 else greeter.machine.core.memory.read x) ∧
    (Spells (Text.words "set r07 32767") (.setRegister 7 32767) ∧
      ∃ answer registers, greeter.command 0 "set r07 32767" =
          some (answer, greeter.withRegisters registers) ∧
        ∀ j, registers.get j = if j = 7 then 32767 else greeter.machine.core.registers.get j) ∧
    (¬Command.MayRun " b 4" ∧ ∃ answer d', greeter.command 0 " b 4" = some (answer, d') ∧
      greeter.Undisturbed d') ∧
    ((∀ c, Spells (Text.words "n 65536") c → ¬c.Effective) ∧
      ∃ answer, greeter.command 0 "n 65536" = some (answer, greeter)) := by
  obtain ⟨_, _, hpoke, _, _⟩ := commands_touch_what_they_name 0 greeter "poke 0x7FFF +65535"
  obtain ⟨_, _, _, hset, _⟩ := commands_touch_what_they_name 0 greeter "set r07 32767"
  obtain ⟨hframe, _⟩ := commands_touch_what_they_name 0 greeter " b 4"
  obtain ⟨_, _, _, _, hrest⟩ := commands_touch_what_they_name 0 greeter "n 65536"
  have hword : Spells (Text.words "poke 0x7FFF +65535") (.poke 32767 65535) :=
    Command.read_eq_ok_iff.mp rfl
  have hregister : Spells (Text.words "set r07 32767") (.setRegister 7 32767) :=
    Command.read_eq_ok_iff.mp rfl
  have hrun : ¬Command.MayRun " b 4" := by
    rintro (hblank | ⟨w, hw, hfirst⟩)
    · exact absurd (hblank 'b' (by simp)) (by decide)
    · have hb : (Text.words " b 4").head? = some "b" := rfl
      cases hb.symm.trans hfirst
      simp at hw
  have hcount : ∀ c, Spells (Text.words "n 65536") c → ¬c.Effective := by
    intro c hspells
    have hread : Command.read "n 65536" = .error (.badCount "65536") := rfl
    cases hread.symm.trans (Command.read_eq_ok_iff.mpr hspells)
  obtain ⟨answer, d', hcommand, hsame, _⟩ := hframe hrun
  exact ⟨⟨hword, hpoke 32767 65535 hword⟩, ⟨hregister, hset 7 32767 hregister (by decide)⟩,
    ⟨hrun, answer, d', hcommand, hsame⟩, hcount, hrest hcount⟩

end Debugger
end WordMachine
