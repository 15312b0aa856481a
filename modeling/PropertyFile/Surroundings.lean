import PropertyFile.FileSystem
import PropertyFile.Overrides

/-!
# Surroundings

What a run can see of the world around it, and how it comes from the path of a
property file to an expander: the file is read and parsed first, then the
definitions are put on top.
-/

namespace PropertyFile

open PropertyFile.Text

/-- Reads the entry of a logical line and logs it. -/
def LogicalLine.entryLogged (l : LogicalLine) : ExceptT ReadError Traced (String × String) := do
  let entry ← l.entry
  Traced.note (.entry l.number entry.1 entry.2)
  return entry

/-- Reads the text of a property file. Each entry is logged as soon as it has been read,
and at the end the number of keys. -/
def Properties.parseLogged (text : String) : ExceptT ReadError Traced Properties := do
  let entries ← (LogicalLine.ofText text.toList).mapM LogicalLine.entryLogged
  let p := Dictionary.ofList entries
  Traced.note (.parsed p.size)
  return p

/-- What a run can see. -/
structure Surroundings where
  /-- The content of the file under a path. -/
  read : String → Except FileError ByteArray
  /-- The text of an environment variable. -/
  environment? : String → Option String
  /-- The home directory of the user. -/
  home? : Option String

namespace Surroundings

/-- Advice for whoever wrote a file that cannot be parsed. -/
def escapeHelp : String :=
  "Write backslashes as \\\\ and escapes as \\uXXXX (four hex digits)"

/-- The text of a file. -/
def readText (s : Surroundings) (path : String) : Except FileError String := do
  match ofBytes? (← s.read path) with
  | some text => .ok text
  | none => .error .notText

/-- Loads a property file. -/
def load (s : Surroundings) (path : String) : Traced (Except Diagnostic Properties) :=
  match s.readText path with
  | .error e => pure (.error (Diagnostic.io path e.message))
  | .ok text => do
      match ← (Properties.parseLogged text).run with
      | .error e => pure (.error ((e.diagnostic.inFile path).withHelp escapeHelp))
      | .ok p => pure (.ok p)

/-- The expander for properties, with the definitions of a run on top. -/
def expander (s : Surroundings) (o : Overrides) (p : Properties) : Except Diagnostic Expander :=
  o.apply p (Replacements.ofLookup s.environment?) s.home?

/-- The expander for a property file, or for no properties at all. -/
def loadExpander (s : Surroundings) (o : Overrides) (path : Option String) :
    Traced (Except Diagnostic Expander) :=
  match path with
  | none => pure (s.expander o ∅)
  | some path => do
      match ← s.load path with
      | .error d => pure (.error d)
      | .ok p => pure (s.expander o p)

end Surroundings

end PropertyFile
