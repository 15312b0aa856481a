import PropertyFile.Dictionary
import PropertyFile.Variable

/-!
# Replacements

The texts that stand for the environment's variables: a table under the names
that sources use, asked in the exact letter case.
-/

namespace PropertyFile

/-- The text for each environment variable. -/
abbrev Replacements := Dictionary

namespace Replacements

/-- The names that variables read from the environment, in order. -/
def wanted : List String :=
  Variable.all.filterMap fun v => v.source.environment?

/-- The table of the wanted names that a look-up knows. -/
def ofLookup (lookup : String → Option String) : Replacements :=
  Dictionary.ofList (wanted.filterMap fun name => (lookup name).map fun text => (name, text))

theorem wanted_eq : wanted = ["APPDIR", "APPDATA", "LOCALAPPDATA"] := rfl

end Replacements

end PropertyFile
