import PropertyFile.Variable

/-!
# Placeholders

**Where a value refers to variables.** A placeholder is `@`, a brace, one or more
name characters (ASCII letters, digits, `_` and `*`) and a closing brace. Any
other character ends a name without a placeholder, so that nothing nests: in
`@{@{appdir}}` the only placeholder is the inner one.

A value is cut from left to right into `Piece`s, single characters and
placeholders; `ofPieces_pieces` says that cutting loses nothing. `find` gives the
placeholders with their places, counted in bytes of UTF-8.
-/

namespace PropertyFile

/-- A part of a value. -/
inductive Piece
  /-- A character outside all placeholders. -/
  | literal (c : Char)
  /-- A placeholder with the given name. -/
  | placeholder (name : List Char)
deriving DecidableEq, Repr

namespace Piece

/-- May the character stand in the name of a placeholder? -/
def isNameChar (c : Char) : Bool :=
  c.isAlphanum || c == '_' || c == '*'

/-- The placeholder with a given name, as it is written. -/
def spanText (name : List Char) : List Char :=
  '@' :: '\x7b' :: name ++ ['\x7d']

/-- The piece as it is written. -/
def text : Piece → List Char
  | .literal c => [c]
  | .placeholder name => spanText name

/-- The name of the placeholder that a text starts with, and what follows it. -/
def span? : List Char → Option (List Char × List Char)
  | '@' :: '\x7b' :: cs =>
      match cs.takeWhile isNameChar, cs.dropWhile isNameChar with
      | c :: name, '\x7d' :: rest => some (c :: name, rest)
      | _, _ => none
  | _ => none

/-- What starts with a placeholder is its text and the rest. -/
theorem eq_of_span? {cs name rest : List Char} (h : span? cs = some (name, rest)) :
    cs = spanText name ++ rest ∧ name ≠ [] ∧ ∀ c ∈ name, isNameChar c = true := by
  unfold span? at h
  split at h
  · next cs =>
      split at h
      · next c name' rest' htake hdrop =>
          obtain ⟨rfl, rfl⟩ := Prod.mk.inj (Option.some.inj h)
          have happ := List.takeWhile_append_dropWhile (p := isNameChar) (l := cs)
          rw [htake, hdrop] at happ
          refine ⟨by simp [spanText, ← happ], by simp, fun d hd => ?_⟩
          exact List.all_eq_true.mp List.all_takeWhile d (htake ▸ hd)
      · simp at h
  · simp at h

theorem span?_lt {cs name rest : List Char} (h : span? cs = some (name, rest)) :
    rest.length < cs.length := by
  have hlen := congrArg List.length (eq_of_span? h).1
  simp [spanText] at hlen
  omega

/-- Does a placeholder start anywhere in a text? -/
def hasSpan : List Char → Bool
  | [] => false
  | c :: cs => (span? (c :: cs)).isSome || hasSpan cs

/-- Cuts a value into pieces, from left to right. -/
def pieces : List Char → List Piece
  | [] => []
  | c :: cs =>
      match h : span? (c :: cs) with
      | some (name, rest) =>
          have := span?_lt h
          .placeholder name :: pieces rest
      | none => .literal c :: pieces cs
termination_by cs => cs.length
decreasing_by
  · exact this
  · simp

@[simp] theorem pieces_nil : pieces [] = [] := by simp [pieces]

/-- A placeholder in front is one piece. -/
theorem pieces_of_span? {cs name rest : List Char} (h : span? cs = some (name, rest)) :
    pieces cs = .placeholder name :: pieces rest := by
  cases cs with
  | nil => simp [span?] at h
  | cons c cs =>
      rw [pieces]
      split
      · next h' => simp_all
      · next h' => simp [h] at h'

/-- Without a placeholder in front, the first character is a piece. -/
theorem pieces_of_not_span? {c : Char} {cs : List Char} (h : span? (c :: cs) = none) :
    pieces (c :: cs) = .literal c :: pieces cs := by
  rw [pieces]
  split
  · next h' => simp [h] at h'
  · rfl

/-- The text of a list of pieces. -/
def ofPieces (ps : List Piece) : List Char :=
  ps.flatMap text

@[simp] theorem ofPieces_nil : ofPieces [] = [] := rfl

@[simp] theorem ofPieces_cons (piece : Piece) (ps : List Piece) :
    ofPieces (piece :: ps) = piece.text ++ ofPieces ps := rfl

/-- Cutting loses nothing. -/
theorem ofPieces_pieces (cs : List Char) : ofPieces (pieces cs) = cs := by
  fun_induction pieces cs with
  | case1 => rfl
  | case2 c cs name rest h _ ih =>
      rw [ofPieces_cons, ih, (eq_of_span? h).1, text]
  | case3 c cs h ih =>
      rw [ofPieces_cons, ih]
      rfl

end Piece

/-- A placeholder in a value. -/
structure Placeholder where
  /-- The byte at which the placeholder starts. -/
  start : Nat
  /-- The name between the braces. -/
  name : String
deriving DecidableEq, Repr

namespace Placeholder

/-- The placeholder as it is written. -/
def text (p : Placeholder) : String :=
  String.ofList (Piece.spanText p.name.toList)

/-- The byte after the placeholder. -/
def stop (p : Placeholder) : Nat :=
  p.start + p.text.utf8ByteSize

/-- The variable that the placeholder refers to, if its name is known. -/
def referent? (p : Placeholder) : Option Variable :=
  Variable.ofName? p.name

/-- The placeholders among pieces that start at a given byte. -/
def ofPieces (start : Nat) : List Piece → List Placeholder
  | [] => []
  | .literal c :: ps => ofPieces (start + c.utf8Size) ps
  | .placeholder name :: ps =>
      let p : Placeholder := ⟨start, String.ofList name⟩
      p :: ofPieces p.stop ps

/-- The placeholders of a value, from left to right. -/
def find (value : String) : List Placeholder :=
  ofPieces 0 (Piece.pieces value.toList)

/-- Does a value hold a placeholder? -/
def occursIn (value : String) : Bool :=
  Piece.hasSpan value.toList

end Placeholder

end PropertyFile
