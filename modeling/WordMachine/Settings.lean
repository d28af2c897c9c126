import WordMachine.Machine.Basic
import WordMachine.Text.Blank

/-! # Settings

Whether the console echoes its input, how many instructions a run may execute, and
whether and how far execution is traced.  Settings are given by a text, whose format is
left open here, and two variables of the environment override it. -/

namespace WordMachine

/-- Whether execution is traced, and how many lines are kept. -/
structure TraceSettings where
  enabled : Bool := false
  capacity : Nat := Trace.defaultCapacity
  deriving DecidableEq, Repr

/-- The settings of a machine and its console. -/
structure Settings where
  echo : Bool := false
  limit : Option Nat := none
  trace : TraceSettings := {}
  deriving DecidableEq, Repr

namespace Settings

/-- The values of a variable that switch tracing on. -/
def switchesOn (text : String) : Bool := ["1", "true", "yes", "on"].contains text

/-- The instruction limit that a variable sets. -/
def limit? (text : String) : Option Nat :=
  Text.unsigned? 10 (0xFFFFFFFFFFFFFFFF) (Text.trim text.toList)

/-- Settings overridden by the two variables of the environment. -/
def override (s : Settings) (trace limit : Option String) : Except SettingsError Settings :=
  let s := match trace with
    | some text => { s with trace := { s.trace with enabled := switchesOn text } }
    | none => s
  match limit with
  | none => .ok s
  | some text =>
    match limit? text with
    | some n => .ok { s with limit := some n }
    | none => .error (.badLimit text)

end Settings

/-- A machine at the start of a program, with the limit and the trace that settings ask for. -/
def Machine.ofSettings (memory : Memory) (s : Settings) : Machine :=
  let m := Machine.ofMemory memory
  let m := if s.trace.enabled then m.enableTrace s.trace.capacity else m
  m.setLimit s.limit

end WordMachine
