import PropertyFile.Yaml.Style

/-!
# YAML documents

Writing a mapping of texts as a document: an entry for each pair, in order. A key
that is short and on one line is followed by a colon; any other key is written
after a question mark, and its value on a line of its own.
-/

namespace PropertyFile.Yaml

open PropertyFile.Text

/-- What stands in front of a further line of a scalar. -/
def indent : List Char := [' ', ' ']

/-- Writes the characters of a text, with an indent in front of the first
character of each line. -/
def indentLines (write : Char → List Char) (lineStart : Bool) : List Char → List Char
  | [] => []
  | c :: cs =>
      if isBreak c then c :: indentLines write true cs
      else (if lineStart then indent else []) ++ write c ++ indentLines write false cs

/-- A text in single quotes; a quote inside is doubled. -/
def singleQuoted (cs : List Char) : List Char :=
  let double (c : Char) : List Char := if c == '\x27' then ['\x27', '\x27'] else [c]
  let closing := if cs.getLast?.any isBreak then indent else []
  '\x27' :: indentLines double false cs ++ closing ++ ['\x27']

/-- One character in double quotes. -/
def escapeChar : Char → List Char
  | '"' => ['\\', '"']
  | '\\' => ['\\', '\\']
  | '\x00' => ['\\', '0']
  | '\x07' => ['\\', 'a']
  | '\x08' => ['\\', 'b']
  | '\t' => ['\\', 't']
  | '\n' => ['\\', 'n']
  | '\x0b' => ['\\', 'v']
  | '\x0c' => ['\\', 'f']
  | '\r' => ['\\', 'r']
  | '\x1b' => ['\\', 'e']
  | '\u0085' => ['\\', 'N']
  | '\u2028' => ['\\', 'L']
  | '\u2029' => ['\\', 'P']
  | c =>
      let n := c.toNat
      if isPrintable c then [c]
      else if n ≤ 0xFF then '\\' :: 'x' :: HexCase.upper.padded 2 n
      else if n ≤ 0xFFFF then '\\' :: 'u' :: HexCase.upper.padded 4 n
      else '\\' :: 'U' :: HexCase.upper.padded 8 n

/-- A text in double quotes. -/
def doubleQuoted (cs : List Char) : List Char :=
  '"' :: cs.flatMap escapeChar ++ ['"']

/-- What the head of a block says about line breaks at its end: `-` that there is
none, `+` that there is more than the one that any block has. -/
def chomping (cs : List Char) : List Char :=
  match cs.reverse with
  | [] => ['-']
  | c :: rest =>
      if !isBreak c then ['-']
      else if rest.head?.all isBreak then ['+']
      else []

/-- A text as a block of lines, after a head that says how to read it. -/
def literal (cs : List Char) : List Char :=
  let width := if cs.head?.any fun c => c == ' ' || isBreak c then ['2'] else []
  '|' :: width ++ chomping cs ++ '\n' :: indentLines (fun c => [c]) true cs

/-- A text in the style that it needs. -/
def scalar (cs : List Char) : List Char :=
  match Style.choose cs with
  | .plain => cs
  | .singleQuoted => singleQuoted cs
  | .doubleQuoted => doubleQuoted cs
  | .literal => literal cs

/-- A scalar and the end of its line, which a block may have by itself. -/
def scalarLine (cs : List Char) : List Char :=
  let written := scalar cs
  if written.getLast?.any isBreak then written else written ++ ['\n']

/-- The longest key, in bytes of UTF-8, that is written on a line with its value. -/
def maxSimpleKey : Nat := 128

/-- Is a key short and on one line? -/
def isSimpleKey (key : String) : Bool :=
  key.utf8ByteSize ≤ maxSimpleKey && !key.toList.any isBreak

/-- An entry of the mapping. -/
def entry (key value : String) : List Char :=
  if isSimpleKey key then scalar key.toList ++ ':' :: ' ' :: scalarLine value.toList
  else '?' :: ' ' :: scalarLine key.toList ++ ':' :: ' ' :: scalarLine value.toList

/-- The mapping as a document. -/
def document : List (String × String) → List Char
  | [] => ['\x7b', '\x7d', '\n']
  | entries => entries.flatMap fun pair => entry pair.1 pair.2

end PropertyFile.Yaml
