import PropertyFile.Escape

/-!
# Reading JSON

**A reader for all of JSON.** A text stands for one value: a literal, a number, a string, an
array or an object, the latter two of values again. White space may stand before and after
each of these and around a comma, a colon or a bracket. Members keep their order, also those
with the same key, and a number is kept as it is written.

Nothing here knows of the writer. Each function takes a list of characters and gives what it
has read together with the characters behind it. How deep values may be nested is bounded by
the length of the text, which no nesting can exceed.
-/

namespace PropertyFile.Json

open PropertyFile.Text

/-- What a JSON text stands for. -/
inductive Value
  | null
  | bool (b : Bool)
  /-- A number, as it is written. -/
  | number (numeral : String)
  | string (text : String)
  | array (items : List Value)
  /-- The members, in order. -/
  | object (members : List (String × Value))

/-! ### White space -/

/-- The white space that means nothing outside a string. -/
def isSpace (c : Char) : Bool :=
  c == ' ' || c == '\t' || c == '\n' || c == '\r'

/-- The text from its first character that is not white space. -/
def skipSpace (cs : List Char) : List Char :=
  cs.dropWhile isSpace

/-! ### Strings -/

/-- What an escaped character other than `u` stands for. -/
def meaning? : Char → Option Char
  | '"' => some '"'
  | '\\' => some '\\'
  | '/' => some '/'
  | 'b' => some '\x08'
  | 'f' => some '\x0c'
  | 'n' => some '\n'
  | 'r' => some '\r'
  | 't' => some '\t'
  | _ => none

/-- Reads one character of a string. A quote, a backslash and the controls below U+0020 have
to be escaped; `\uXXXX` is a UTF-16 code unit, and surrogates come in pairs. -/
def char? : List Char → Option (Char × List Char)
  | [] => none
  | '\\' :: 'u' :: cs => (Escape.readUnicode cs).toOption
  | '\\' :: c :: cs => (meaning? c).map fun d => (d, cs)
  | c :: cs => if c = '"' ∨ c = '\\' ∨ c.toNat < 0x20 then none else some (c, cs)

/-- Reading a character leaves less to read. -/
theorem char?_lt {cs rest : List Char} {c : Char} (h : char? cs = some (c, rest)) :
    rest.length < cs.length := by
  unfold char? at h
  split at h
  · cases h
  · next cs =>
      cases hread : Escape.readUnicode cs with
      | error fault =>
          rw [hread] at h
          cases h
      | ok found =>
          rw [hread] at h
          obtain rfl := Option.some.inj h
          have hlt := Escape.readUnicode_lt hread
          simp only [List.length_cons]
          omega
  · obtain ⟨d, -, heq⟩ := Option.map_eq_some_iff.mp h
    obtain ⟨-, rfl⟩ := Prod.mk.inj heq
    simp only [List.length_cons]
    omega
  · split at h
    · cases h
    · obtain ⟨-, rfl⟩ := Prod.mk.inj (Option.some.inj h)
      exact Nat.lt_succ_self _

/-- Reads a string behind its opening quote, up to the closing one. -/
def chars? (cs : List Char) : Option (List Char × List Char) :=
  match h : char? cs with
  | none => if cs.head? = some '"' then some ([], cs.tail) else none
  | some (c, rest) =>
      have := char?_lt h
      (chars? rest).map fun found => (c :: found.1, found.2)
termination_by cs.length

theorem chars?_of_char? {cs rest : List Char} {c : Char} (h : char? cs = some (c, rest)) :
    chars? cs = (chars? rest).map fun found => (c :: found.1, found.2) := by
  rw [chars?]
  split
  · next h' => simp [h] at h'
  · next h' =>
      obtain ⟨rfl, rfl⟩ := Prod.mk.inj (Option.some.inj (h.symm.trans h'))
      rfl

/-- A closing quote ends the string. -/
theorem chars?_quote (rest : List Char) : chars? ('"' :: rest) = some ([], rest) := by
  have hquote : char? ('"' :: rest) = none := by simp [char?]
  rw [chars?]
  split
  · rfl
  · next h' => simp [hquote] at h'

/-! ### Literals and numbers -/

/-- Reads one or more decimal digits. -/
def digits? (cs : List Char) : Option (List Char × List Char) :=
  match cs.takeWhile Char.isDigit with
  | [] => none
  | ds => some (ds, cs.dropWhile Char.isDigit)

/-- Reads one of the given signs, if there is one. -/
def sign (signs : List Char) : List Char → List Char × List Char
  | [] => ([], [])
  | c :: cs => if c ∈ signs then ([c], cs) else ([], c :: cs)

/-- Reads the digits before the point: a zero, or digits that start with another one. -/
def whole? : List Char → Option (List Char × List Char)
  | '0' :: rest => some (['0'], rest)
  | cs => digits? cs

/-- Reads a point and the digits behind it, if there are any. -/
def fraction? : List Char → Option (List Char × List Char)
  | '.' :: cs => (digits? cs).map fun found => ('.' :: found.1, found.2)
  | cs => some ([], cs)

/-- Reads a power of ten, if there is one. -/
def power? : List Char → Option (List Char × List Char)
  | [] => some ([], [])
  | e :: cs =>
      if e = 'e' ∨ e = 'E' then
        let (s, cs) := sign ['+', '-'] cs
        (digits? cs).map fun found => (e :: s ++ found.1, found.2)
      else some ([], e :: cs)

/-- Reads a number. -/
def number? (cs : List Char) : Option (Value × List Char) := do
  let (s, cs) := sign ['-'] cs
  let (whole, cs) ← whole? cs
  let (fraction, cs) ← fraction? cs
  let (power, rest) ← power? cs
  some (.number (String.ofList (s ++ whole ++ fraction ++ power)), rest)

/-- Reads a literal or a number. -/
def scalar? : List Char → Option (Value × List Char)
  | 'n' :: 'u' :: 'l' :: 'l' :: rest => some (.null, rest)
  | 't' :: 'r' :: 'u' :: 'e' :: rest => some (.bool true, rest)
  | 'f' :: 'a' :: 'l' :: 's' :: 'e' :: rest => some (.bool false, rest)
  | cs => number? cs

/-! ### Arrays and objects -/

section Items

variable {α : Type} (item? : List Char → Option (α × List Char))

/-- Reads one or more items with commas between them, up to a closing mark. -/
def items? (close : Char) (cs : List Char) : Option (List α × List Char) :=
  match item? cs with
  | none => none
  | some (a, rest) =>
      match skipSpace rest with
      | [] => none
      | c :: rest =>
          if c = close then some ([a], rest)
          else if h : c = ',' ∧ rest.length < cs.length then
            have := h.2
            (items? close rest).map fun found => (a :: found.1, found.2)
          else none
termination_by cs.length

/-- Reads any number of items, up to a closing mark. -/
def sequence? (close : Char) (cs : List Char) : Option (List α × List Char) :=
  match skipSpace cs with
  | [] => none
  | c :: rest => if c = close then some ([], rest) else items? item? close cs

/-- Reads a key, a colon and an item. -/
def member? (cs : List Char) : Option ((String × α) × List Char) :=
  match skipSpace cs with
  | '"' :: cs =>
      match chars? cs with
      | none => none
      | some (key, rest) =>
          match skipSpace rest with
          | ':' :: rest => (item? rest).map fun found => ((String.ofList key, found.1), found.2)
          | _ => none
  | _ => none

end Items

/-- Reads a value in which no more than `depth` values stand in each other. -/
def value? : Nat → List Char → Option (Value × List Char)
  | 0, _ => none
  | depth + 1, cs =>
      match skipSpace cs with
      | '"' :: cs => (chars? cs).map fun found => (.string (String.ofList found.1), found.2)
      | '[' :: cs => (sequence? (value? depth) ']' cs).map fun found => (.array found.1, found.2)
      | '\x7b' :: cs =>
          (sequence? (member? (value? depth)) '\x7d' cs).map fun found =>
            (.object found.1, found.2)
      | cs => scalar? cs

/-- The value that a text stands for. -/
def read? (text : String) : Option Value :=
  match value? text.length text.toList with
  | none => none
  | some (v, rest) => if skipSpace rest = [] then some v else none

/-- All kinds of values, with white space in all places. -/
example :
    read? " \x7b \"\\u002F\\/\" : [ -1.50e+7,null , [ ],true ],\"\":\x7b \x7d \x7d\n" =
      some (.object [("//", .array [.number "-1.50e+7", .null, .array [], .bool true]),
        ("", .object [])]) := by
  cbv

/-- Two values are too much; so is a comma at the end, or a zero in front of other digits. -/
example : (read? "1 2").isNone ∧ (read? "[1,]").isNone ∧ (read? "01").isNone := by
  cbv

/-- A control has to be escaped, and a surrogate needs its partner. -/
example : (read? "\"\t\"").isNone ∧ (read? "\"\\ud83d\"").isNone := by
  cbv

end PropertyFile.Json
