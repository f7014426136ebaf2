import SignedRecords.Text.Blank

/-!
# Log levels

How much is logged, and the texts that name it. Blanks around a name and its case do not matter;
capitals are made small one ASCII letter at a time, which is enough because no other character has
a small form among the letters of the names.
-/

namespace SignedRecords

/-- How much is logged. -/
inductive LogLevel where
  | off
  | error
  | warn
  | info
  | debug
  | trace
  deriving DecidableEq, Repr

namespace LogLevel

/-- The level as a number: higher logs more. -/
def verbosity : LogLevel → Nat
  | .off => 0
  | .error => 1
  | .warn => 2
  | .info => 3
  | .debug => 4
  | .trace => 5

/-- Whether lines of a level are shown when a limit is set. -/
def shows (limit level : LogLevel) : Bool := level.verbosity ≤ limit.verbosity

/-- The level that a text names. -/
def read? (text : String) : Option LogLevel :=
  match (Blank.trim text).map Char.toLower with
  | "off" => some .off
  | "error" => some .error
  | "warn" | "warning" => some .warn
  | "info" => some .info
  | "debug" => some .debug
  | "trace" => some .trace
  | _ => none

/-- What is said of a text that names no level. -/
def unknownMessage (text : String) : String := s!"Invalid log level: {text}"

end LogLevel

end SignedRecords
