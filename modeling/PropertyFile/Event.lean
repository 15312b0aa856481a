import PropertyFile.Text.Quotation
import PropertyFile.Variable

/-!
# Events

What is worth a line in a log: an entry or a whole property file that has been
read, a property that is handed out as it is, and the two ways in which a placeholder
can fail to get a value.
-/

namespace PropertyFile

open PropertyFile.Text

/-- How much an event matters. -/
inductive Level
  | trace
  | debug
  | warn
deriving DecidableEq, Repr

/-- The name of the level. -/
def Level.name : Level → String
  | .trace => "TRACE"
  | .debug => "DEBUG"
  | .warn => "WARN"

/-- Something worth a line in a log. -/
inductive Event
  /-- An entry has been read, which starts in the line with the number `line`. -/
  | entry (line : Nat) (key value : String)
  /-- A property file with `count` keys has been read. -/
  | parsed (count : Nat)
  /-- The property `key` is not expanded, since it is not in the scope. -/
  | outsideScope (key scope : String)
  /-- The placeholder `span` in `value` has a name that is not known. -/
  | unknownVariable (span value : String)
  /-- A variable has been expanded that has no value. -/
  | noValue (v : Variable)
deriving DecidableEq, Repr

namespace Event

/-- The level at which an event is logged. -/
def level : Event → Level
  | .entry _ _ _ => .trace
  | .parsed _ => .debug
  | .outsideScope _ _ => .trace
  | .unknownVariable _ _ => .warn
  | .noValue _ => .warn

/-- The event in words. The value of an entry is quoted, with the characters beyond ASCII
that are `visible` as they are. -/
def message (e : Event) (visible : Char → Bool := fun _ => true) : String :=
  match e with
  | .entry line key value =>
      "line " ++ toString line ++ ": " ++ key ++ " = " ++ quoted visible value
  | .parsed count => "Parsed " ++ toString count ++ " properties"
  | .outsideScope key scope => "'" ++ key ++ "' is outside namespace '" ++ scope ++ "'"
  | .unknownVariable span value =>
      "Unknown variable " ++ span ++ " in property value " ++ value
  | .noValue v =>
      "Variable " ++ v.name ++ " used for substitution not found in " ++ v.source.text ++
        ". Replaced with empty string."

end Event

end PropertyFile
