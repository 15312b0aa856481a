import PropertyFile.Diagnostic
import PropertyFile.Text.WhiteSpace

/-!
# Definitions

A definition `NAME=VALUE`, as given on a command line. The first equals sign
separates; white space around the name is no part of it, and the value is taken
as it is. A definition needs a name.
-/

namespace PropertyFile

open PropertyFile.Text

/-- A name and the value given to it. -/
structure Definition where
  name : String
  value : String
deriving DecidableEq, Repr

namespace Definition

/-- Reads a definition. -/
def parse? (entry : String) : Option Definition :=
  match entry.toList.dropWhile (· != '=') with
  | [] => none
  | _ :: value =>
      match trim (entry.toList.takeWhile (· != '=')) with
      | [] => none
      | name => some ⟨String.ofList name, String.ofList value⟩

/-- Reads a definition, or says what is wrong with it. -/
def parse (entry : String) : Except Diagnostic Definition :=
  match parse? entry with
  | some d => .ok d
  | none => .error (Diagnostic.invalidEntry entry)

/-- The definition as a pair. -/
def pair (d : Definition) : String × String :=
  (d.name, d.value)

end Definition

end PropertyFile
