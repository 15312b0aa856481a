import PropertyFile.Text.Blank
import PropertyFile.Text.Line

/-!
# Logical lines

**One logical line holds one entry.** It is made of one physical line or of
several: a physical line that ends in an odd number of backslashes goes on in
the next one, and its last backslash is dropped. Blanks in front of a physical
line never count. Between logical lines, empty lines and comments are skipped; a
comment is a line that starts with `#` or `!`. What follows a continuation is
never skipped, be it empty or look like a comment.
-/

namespace PropertyFile

open PropertyFile.Text

/-- The text of one entry, and where it starts. -/
structure LogicalLine where
  /-- The number of its first physical line, counted from one. -/
  number : Nat
  /-- The joined text, without continuation marks and leading blanks. -/
  text : List Char
deriving DecidableEq, Repr

namespace LogicalLine

/-- Does a physical line go on in the next one? -/
def continues (cs : List Char) : Bool :=
  (cs.reverse.takeWhile (· == '\\')).length % 2 == 1

/-- Is a physical line, without its leading blanks, empty or a comment? -/
def isSkipped : List Char → Bool
  | [] => true
  | c :: _ => c == '#' || c == '!'

/-- Adds the text of a further physical line. -/
def append (l : LogicalLine) (cs : List Char) : LogicalLine :=
  { l with text := l.text ++ cs }

/-- The logical lines of physical lines counted from `number`, the first of
which continues `pending` if that is given. -/
def collect (number : Nat) (pending : Option LogicalLine) : List (List Char) → List LogicalLine
  | [] => pending.toList
  | physical :: rest =>
      let text := dropBlanks physical
      match if pending.isNone && !isSkipped text then some ⟨number, []⟩ else pending with
      | none => collect (number + 1) none rest
      | some line =>
          if continues text then collect (number + 1) (some (line.append text.dropLast)) rest
          else line.append text :: collect (number + 1) none rest

/-- The logical lines of a text. -/
def ofText (cs : List Char) : List LogicalLine :=
  collect 1 none (lines cs)

@[simp] theorem collect_nil (number : Nat) (pending : Option LogicalLine) :
    collect number pending [] = pending.toList := rfl

/-- A line that does not go on closes its entry. -/
theorem collect_closed {physical : List Char} (h : continues (dropBlanks physical) = false)
    (number : Nat) (line : LogicalLine) (rest : List (List Char)) :
    collect number (some line) (physical :: rest) =
      line.append (dropBlanks physical) :: collect (number + 1) none rest := by
  simp [collect, h]

/-- A line that is not skipped opens an entry that carries its number. -/
theorem collect_opened {physical : List Char} (h : isSkipped (dropBlanks physical) = false)
    (number : Nat) (rest : List (List Char)) :
    collect number none (physical :: rest) =
      collect number (some ⟨number, []⟩) (physical :: rest) := by
  simp [collect, h]

end LogicalLine

end PropertyFile
