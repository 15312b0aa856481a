import PropertyFile.Replacements
import PropertyFile.Text.Utf8

/-!
# The environment of a run

The environment variables, whose values are bytes. A value that is not text
counts as absent where a text is asked for.
-/

namespace PropertyFile

open PropertyFile.Text

/-- Environment variables by name. -/
structure Environment where
  /-- The bytes of each variable that is set. -/
  values : List (String × ByteArray) := []

namespace Environment

/-- The value of a variable, if it is set. -/
def bytes? (e : Environment) (name : String) : Option ByteArray :=
  e.values.lookup name

/-- The value of a variable, if it is set and is text. -/
def text? (e : Environment) (name : String) : Option String :=
  (e.bytes? name).bind ofBytes?

/-- The replacements that the environment gives. -/
def replacements (e : Environment) : Replacements :=
  Replacements.ofLookup e.text?

end Environment

end PropertyFile
