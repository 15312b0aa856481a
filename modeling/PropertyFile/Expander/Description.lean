import PropertyFile.Expander
import PropertyFile.Text.Quotation

/-!
# Describing an expander

A one-line description of an expander with all that it holds, for whoever has to
find out why a value came out as it did.
-/

namespace PropertyFile

open PropertyFile.Text

namespace Description

/-- The pairs of a dictionary, in order. -/
def pairs (visible : Char → Bool) (d : Dictionary) : String :=
  let items := d.entries.map fun entry =>
    quoted visible entry.1 ++ ": " ++ quoted visible entry.2
  "\x7b" ++ String.intercalate ", " items ++ "\x7d"

/-- A named collection of named parts. -/
def record (name : String) (parts : List (String × String)) : String :=
  let items := parts.map fun part => part.1 ++ ": " ++ part.2
  name ++ " \x7b " ++ String.intercalate ", " items ++ " \x7d"

end Description

open Description in
/-- An expander with all that it holds. -/
def Expander.describe (visible : Char → Bool) (x : Expander) : String :=
  record "PropertyProcessor"
    [("store", record "PropertyStore" [("entries", pairs visible x.properties)]),
      ("substitutions", record "Substitutions" [("values", pairs visible x.replacements)]),
      ("options", record "ProcessorOptions" [("namespace", quoted visible x.scope)]),
      ("hook", if x.watched then "Some(" ++ quoted visible "<fn>" ++ ")" else "None")]

end PropertyFile
