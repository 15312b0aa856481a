import PropertyFile.Json
import PropertyFile.Properties
import PropertyFile.Yaml.Document

/-!
# Output formats

The forms in which properties are shown: a whole file as a property file, as
JSON or as YAML, and one property as its bare value or as JSON. A format is given
by its name, in the exact letter case.
-/

namespace PropertyFile

/-- A name that stands for no format, and the names that would. -/
structure UnsupportedFormat where
  name : String
  choices : String
deriving DecidableEq, Repr

/-- The error in words. -/
def UnsupportedFormat.message (e : UnsupportedFormat) : String :=
  "Unsupported format: " ++ e.name ++ ". Use " ++ e.choices ++ "."

/-- The forms of a whole file. -/
inductive FileFormat
  | properties
  | json
  | yaml
deriving DecidableEq, Repr

/-- The form with a given name. -/
def FileFormat.ofName (name : String) : Except UnsupportedFormat FileFormat :=
  if name = "properties" then .ok .properties
  else if name = "json" then .ok .json
  else if name = "yaml" ∨ name = "yml" then .ok .yaml
  else .error ⟨name, "properties, json, or yaml"⟩

/-- Writes properties in a form. -/
def FileFormat.render (form : FileFormat) (p : Properties) : String :=
  match form with
  | .properties => p.render
  | .json => String.ofList (Json.object .pretty p.entries ++ ['\n'])
  | .yaml => String.ofList (Yaml.document p.entries)

/-- The forms of one property. -/
inductive EntryFormat
  | text
  | json
deriving DecidableEq, Repr

/-- The form with a given name. -/
def EntryFormat.ofName (name : String) : Except UnsupportedFormat EntryFormat :=
  if name = "text" then .ok .text
  else if name = "json" then .ok .json
  else .error ⟨name, "text or json"⟩

/-- Writes a property in a form. The text ends with a line end. -/
def EntryFormat.render (form : EntryFormat) (key value : String) : String :=
  match form with
  | .text => value ++ "\n"
  | .json => String.ofList (Json.object .compact [("key", key), ("value", value)] ++ ['\n'])

end PropertyFile
