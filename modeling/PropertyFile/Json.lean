import PropertyFile.Text.Hex

/-!
# JSON

Writing objects whose members are texts. A quote, a backslash and the controls
below U+0020 are escaped; every other character is written as it is. Members
keep their order.
-/

namespace PropertyFile.Json

open PropertyFile.Text

/-- One character of a string. -/
def escapeChar : Char → List Char
  | '"' => ['\\', '"']
  | '\\' => ['\\', '\\']
  | '\x08' => ['\\', 'b']
  | '\x0c' => ['\\', 'f']
  | '\n' => ['\\', 'n']
  | '\r' => ['\\', 'r']
  | '\t' => ['\\', 't']
  | c => if c.toNat < 0x20 then ['\\', 'u'] ++ HexCase.lower.padded 4 c.toNat else [c]

/-- A string with its quotes. -/
def quote (text : String) : List Char :=
  '"' :: text.toList.flatMap escapeChar ++ ['"']

/-- How an object is laid out. -/
structure Layout where
  /-- Stands before each member. -/
  beforeMember : List Char
  /-- Stands between a key's colon and its value. -/
  afterColon : List Char
  /-- Stands after the last member. -/
  afterMembers : List Char

/-- Without any space. -/
def Layout.compact : Layout :=
  ⟨[], [], []⟩

/-- A line for each member, indented by two spaces. -/
def Layout.pretty : Layout :=
  ⟨['\n', ' ', ' '], [' '], ['\n']⟩

/-- A member of an object. -/
def member (layout : Layout) (entry : String × String) : List Char :=
  layout.beforeMember ++ quote entry.1 ++ ':' :: layout.afterColon ++ quote entry.2

/-- An object. Without members it is written as two braces in every layout. -/
def object (layout : Layout) : List (String × String) → List Char
  | [] => ['\x7b', '\x7d']
  | entry :: rest =>
      '\x7b' :: member layout entry ++
        (rest.flatMap fun other => ',' :: member layout other) ++
        layout.afterMembers ++ ['\x7d']

end PropertyFile.Json
