import PropertyFile.Definition
import PropertyFile.Environment
import PropertyFile.Expander

/-!
# Overrides

Definitions given for one run, on top of a property file and of the environment.
A property that is defined replaces the one of the file; a variable that is
defined replaces the one of the environment. The home directory stands in for
the property `user.home` where neither the file nor a definition gives it.
-/

namespace PropertyFile

/-- The definitions given for one run, as they were written. -/
structure Overrides where
  /-- Definitions of properties. -/
  properties : List String := []
  /-- Definitions of environment variables. -/
  environment : List String := []
deriving DecidableEq, Repr

/-- The property that falls back to the home directory. -/
def homeProperty : String := "user.home"

/-- Puts definitions into a dictionary, one after the other; the first that is
not valid is the error. -/
def Dictionary.define (d : Dictionary) (entries : List String) : Except Diagnostic Dictionary :=
  (entries.mapM Definition.parse).map fun definitions =>
    d.insertMany (definitions.map Definition.pair)

namespace Overrides

/-- Gives `user.home` a value if it has none and the home directory is known. -/
def withHome (properties : Properties) : Option String → Properties
  | some home => properties.insertDefault homeProperty home
  | none => properties

/-- The expander for properties and replacements with the definitions on top. -/
def apply (o : Overrides) (properties : Properties) (replacements : Replacements)
    (home : Option String) : Except Diagnostic Expander := do
  let properties ← properties.define o.properties
  let replacements ← replacements.define o.environment
  pure { properties := withHome properties home, replacements }

end Overrides

end PropertyFile
