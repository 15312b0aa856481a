/-!
# White space

The Unicode property `White_Space`, and trimming by it. It is wider than the
blanks of a property file: the name in a `NAME=VALUE` definition is trimmed of
every character listed here, and of no other.
-/

namespace PropertyFile.Text

/-- The code points with the Unicode property `White_Space`. The zero width
space and the byte order mark do not have it. -/
def isWhiteSpace (c : Char) : Bool :=
  let n := c.toNat
  (0x09 ≤ n && n ≤ 0x0D) || n == 0x20 || n == 0x85 || n == 0xA0 || n == 0x1680 ||
    (0x2000 ≤ n && n ≤ 0x200A) || n == 0x2028 || n == 0x2029 || n == 0x202F ||
    n == 0x205F || n == 0x3000

/-- Drops the white space at the end. -/
def trimEnd : List Char → List Char
  | [] => []
  | c :: cs =>
      match trimEnd cs with
      | [] => if isWhiteSpace c then [] else [c]
      | rest => c :: rest

/-- Drops the white space at both ends. -/
def trim (cs : List Char) : List Char :=
  trimEnd (cs.dropWhile isWhiteSpace)

@[simp] theorem trimEnd_nil : trimEnd [] = [] := rfl

/-- Trimming leaves nothing exactly of a text that is white space only. -/
theorem trimEnd_eq_nil_iff {cs : List Char} :
    trimEnd cs = [] ↔ ∀ c ∈ cs, isWhiteSpace c = true := by
  induction cs with
  | nil => simp
  | cons c cs ih =>
      cases h : trimEnd cs with
      | nil => cases hc : isWhiteSpace c <;> simp_all [trimEnd]
      | cons d rest =>
          have hcs : ¬ ∀ x ∈ cs, isWhiteSpace x = true := fun hall => by
            simp [ih.mpr hall] at h
          simp only [trimEnd, h, List.mem_cons, forall_eq_or_imp, reduceCtorEq, false_iff, not_and]
          exact fun _ => hcs

end PropertyFile.Text
