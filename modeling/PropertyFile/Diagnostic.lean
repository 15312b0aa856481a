/-!
# Diagnostics

**What went wrong, told in several lines:** the kind of error, then the key, the
place, the cause and a piece of advice, each where it is known.
-/

namespace PropertyFile

/-- The kinds of error. -/
inductive ErrorKind
  /-- A property file that cannot be read as such. -/
  | parse
  /-- A definition `entry` that is not of the form `NAME=VALUE`. -/
  | invalidEntry (entry : String)
  /-- A file that cannot be read at all. -/
  | io
deriving DecidableEq, Repr

/-- The kind in words. -/
def ErrorKind.text : ErrorKind → String
  | .parse => "Parse error"
  | .invalidEntry entry => "Invalid entry: " ++ entry
  | .io => "I/O error"

/-- A place in a file. -/
structure Location where
  file : String
  /-- The number of the line, counted from one. -/
  line : Option Nat := none
deriving DecidableEq, Repr

/-- The place in words. -/
def Location.text (l : Location) : String :=
  l.file ++ match l.line with
    | some line => ":" ++ toString line
    | none => ""

/-- An error with all that is known about it. -/
structure Diagnostic where
  kind : ErrorKind
  /-- The property concerned. -/
  key : Option String := none
  location : Option Location := none
  /-- What the user can do. -/
  help : Option String := none
  /-- What lies behind the error. -/
  cause : Option String := none
deriving DecidableEq, Repr

namespace Diagnostic

/-- The name of a text that comes from no file. -/
def anonymousFile : String := "<input>"

/-- An error in a property file. -/
def parse (cause : String) : Diagnostic :=
  { kind := .parse, cause := some cause }

/-- An error in a given line of a text that comes from no file. -/
def parseAt (line : Nat) (cause : String) : Diagnostic :=
  { parse cause with location := some ⟨anonymousFile, some line⟩ }

/-- A definition that is not of the form `NAME=VALUE`. -/
def invalidEntry (entry : String) : Diagnostic :=
  { kind := .invalidEntry entry
    help := some "Use the form NAME=VALUE, e.g. user.home=/home/alice" }

/-- A file that cannot be read. -/
def io (file cause : String) : Diagnostic :=
  { kind := .io
    location := some ⟨file, none⟩
    help := some ("Check that '" ++ file ++ "' exists and is readable")
    cause := some cause }

/-- Names the property concerned. -/
def withKey (d : Diagnostic) (key : String) : Diagnostic :=
  { d with key := some key }

/-- Gives the place, instead of any place given before. -/
def withLocation (d : Diagnostic) (location : Location) : Diagnostic :=
  { d with location := some location }

/-- Names the file and keeps the line. -/
def inFile (d : Diagnostic) (file : String) : Diagnostic :=
  { d with location := some ⟨file, d.location.bind Location.line⟩ }

/-- Gives a piece of advice, instead of any given before. -/
def withHelp (d : Diagnostic) (help : String) : Diagnostic :=
  { d with help := some help }

/-- A further line of the text, if there is something to tell. -/
def detail (label : String) (content : Option String) : String :=
  match content with
  | some content => "\n  " ++ label ++ content
  | none => ""

/-- The diagnostic in words; the last line has no end. -/
def text (d : Diagnostic) : String :=
  d.kind.text ++ detail "Key: " d.key ++ detail "File: " (d.location.map Location.text) ++
    detail "" d.cause ++ detail "Help: " d.help

end Diagnostic

end PropertyFile
