import PropertyFile.Overrides

/-!
# Commands

What a user can ask for: one property, a value expanded, all properties, or a
check of property files.
-/

namespace PropertyFile

/-- What a user asks for. -/
inductive Command
  /-- The value of the property `key`, or `default` if it is absent. -/
  | get (file key format : String) (default : Option String)
  /-- A value with its placeholders expanded. -/
  | process (value : String) (file : Option String)
  /-- All properties, expanded unless `raw`, shown or saved in the file `output`. -/
  | dump (file : String) (raw : Bool) (format : String) (output : Option String)
  /-- Are files well-formed, and are all variables in them known? -/
  | check (files : List String)
deriving DecidableEq, Repr

/-- The files that a command reads. -/
def Command.inputs : Command → List String
  | .get file _ _ _ => [file]
  | .process _ file => file.toList
  | .dump file _ _ _ => [file]
  | .check files => files

/-- A command with the definitions given for its run. -/
structure Invocation where
  command : Command
  overrides : Overrides := {}
  /-- How many times more log output was asked for. -/
  verbosity : Nat := 0
deriving DecidableEq, Repr

end PropertyFile
