import WordMachine.Settings
import WordMachine.Toml.Document

/-! # Settings as a TOML document

Every key is optional, and no other key is allowed. -/

namespace WordMachine

open Toml (Value)

namespace TraceSettings

/-- Sets one key. -/
def set (s : TraceSettings) : String × Value → Option TraceSettings
  | ("enabled", .boolean b) => some { s with enabled := b }
  | ("capacity", .integer (.ofNat n)) => some { s with capacity := n }
  | _ => none

/-- Reads the trace settings.  An array gives the values of the keys in order; values
that it lacks keep their defaults and further ones are ignored. -/
def ofValue? : Value → Option TraceSettings
  | .table _ es => es.foldlM set {}
  | .array [] => some {}
  | .array [v] => set {} ("enabled", v)
  | .array (v :: w :: _) => do set (← set {} ("enabled", v)) ("capacity", w)
  | _ => none

end TraceSettings

namespace Settings

/-- Sets one key. -/
def set (s : Settings) : String × Value → Option Settings
  | ("echo", .boolean b) => some { s with echo := b }
  | ("max_instructions", .integer (.ofNat n)) => some { s with limit := some n }
  | ("trace", v) => (TraceSettings.ofValue? v).map (fun t => { s with trace := t })
  | _ => none

/-- Reads settings from a TOML document. -/
def ofToml (text : String) : Except SettingsError Settings :=
  match (Toml.read? text).bind (fun es => es.foldlM set {}) with
  | some s => .ok s
  | none => .error .malformed

end Settings

end WordMachine
