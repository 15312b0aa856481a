import PropertyFile.Text.Blank

/-!
# Raw entries

The key and the value of a logical line, still escaped. The key ends before the
first `=`, `:` or blank that no backslash escapes. Between key and value stand
blanks and at most one `=` or `:`; a second one belongs to the value.
-/

namespace PropertyFile

open PropertyFile.Text

/-- Key and value as they are written. -/
structure RawEntry where
  key : List Char
  value : List Char
deriving DecidableEq, Repr

namespace RawEntry

/-- An equals sign or a colon. -/
def isSeparator (c : Char) : Bool :=
  c == '=' || c == ':'

/-- Cuts a line where its key ends; the second part starts with what ends the key. -/
def cutKey : List Char → List Char × List Char
  | [] => ([], [])
  | '\\' :: c :: cs =>
      let (key, rest) := cutKey cs
      ('\\' :: c :: key, rest)
  | c :: cs =>
      if isSeparator c || isBlank c then ([], c :: cs)
      else
        let (key, rest) := cutKey cs
        (c :: key, rest)

/-- Drops what separates a key from its value. -/
def dropSeparator (cs : List Char) : List Char :=
  match dropBlanks cs with
  | [] => []
  | c :: rest => if isSeparator c then dropBlanks rest else c :: rest

/-- The raw key and the raw value of a logical line. -/
def ofLine (cs : List Char) : RawEntry :=
  let (key, rest) := cutKey cs
  ⟨key, dropSeparator rest⟩

/-- Cutting loses nothing. -/
theorem cutKey_append (cs : List Char) : (cutKey cs).1 ++ (cutKey cs).2 = cs := by
  fun_induction cutKey cs with
  | case1 => rfl
  | case2 c cs key rest hcut ih => simpa [hcut] using ih
  | case3 => rfl
  | case4 c cs _ _ key rest hcut ih => simpa [hcut] using ih

end RawEntry

end PropertyFile
