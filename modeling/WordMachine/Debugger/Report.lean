import WordMachine.Debugger.Basic

/-! # Reports

The texts in which the debugger shows a machine: the state report and the recent
history. -/

namespace WordMachine

namespace Mode

/-- The name of a mode. -/
def name : Mode → String
  | .running => "Running"
  | .awaitingInput => "AwaitingInput"
  | .halted => "Halted"

end Mode

namespace Debugger

/-- The registers with their names. -/
def registerText (c : Core) : String :=
  " ".intercalate (c.registers.toList.mapIdx
    (fun i w => "r" ++ Text.decimal i ++ "=" ++ Text.decimal w.toNat))

/-- The lines of a report: state, next instruction, registers, stack top and the newest
trace lines. -/
def reportLines (d : Debugger) : List String :=
  let m := d.machine
  let c := m.core
  let current := d.nextLine?.toList.map (fun l => "Current: " ++ l)
  let top := (c.stack.take 5).mapIdx
    (fun i w => "  [" ++ Text.decimal i ++ "] " ++ Text.decimal w.toNat)
  let recent := match m.trace with
    | some t => t.last 5
    | none => []
  let recent := if recent.isEmpty then []
    else "Recent instructions:" :: recent.map (fun l => "  " ++ l)
  ["=== VM State ===",
    "PC: " ++ Text.address c.pc.toNat ++ "  state: " ++ m.mode.name ++
      "  executed: " ++ Text.decimal m.executed] ++
    current ++
    ["Registers: " ++ registerText c, "Stack depth: " ++ Text.decimal c.stack.length] ++
    top ++ recent

/-- The state report. -/
def report (d : Debugger) : String :=
  String.join (d.reportLines.map (fun l => l ++ "\n"))

/-- The newest trace lines, or why there are none. -/
def history (d : Debugger) (count : Nat) : String :=
  match d.machine.trace with
  | some t =>
    if t.lines.isEmpty then "No instructions executed yet."
    else "\n".intercalate (t.last count)
  | none => "Tracing is off."

end Debugger
end WordMachine
