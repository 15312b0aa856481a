/-!
# Blanks

The three characters that separate and indent in a property file: space, tab
and form feed. A line end is never a blank.
-/

namespace PropertyFile.Text

/-- A space, a tab or a form feed. -/
def isBlank (c : Char) : Bool :=
  c == ' ' || c == '\t' || c == '\x0c'

/-- The text from its first character that is not a blank. -/
def dropBlanks (cs : List Char) : List Char :=
  cs.dropWhile isBlank

@[simp] theorem dropBlanks_nil : dropBlanks [] = [] := rfl

theorem dropBlanks_cons (c : Char) (cs : List Char) :
    dropBlanks (c :: cs) = if isBlank c then dropBlanks cs else c :: cs := by
  simp [dropBlanks, List.dropWhile_cons]

/-- Blanks in front do not matter. -/
theorem dropBlanks_append {bs : List Char} (h : ∀ c ∈ bs, isBlank c = true)
    (cs : List Char) : dropBlanks (bs ++ cs) = dropBlanks cs := by
  induction bs with
  | nil => rfl
  | cons b bs ih =>
      have hb := h b (by simp)
      have hbs := ih fun c hc => h c (by simp [hc])
      simpa [dropBlanks_cons, hb] using hbs

/-- What is dropped is blanks. -/
theorem exists_blanks (cs : List Char) :
    ∃ blanks, (∀ c ∈ blanks, isBlank c = true) ∧ cs = blanks ++ dropBlanks cs :=
  ⟨cs.takeWhile isBlank, List.all_eq_true.mp List.all_takeWhile,
    List.takeWhile_append_dropWhile.symm⟩

/-- A text that does not start with a blank stays as it is. -/
theorem dropBlanks_eq_self {cs : List Char} (h : ∀ c ∈ cs.head?, isBlank c = false) :
    dropBlanks cs = cs := by
  cases cs with
  | nil => rfl
  | cons c cs =>
      have hc : isBlank c = false := h c rfl
      rw [dropBlanks_cons, hc]
      rfl

/-- Blanks are dropped from the first of two texts, if the second does not start with
one. -/
theorem dropBlanks_append_of_head? {ds : List Char} (h : ∀ c ∈ ds.head?, isBlank c = false)
    (cs : List Char) : dropBlanks (cs ++ ds) = dropBlanks cs ++ ds := by
  induction cs with
  | nil => exact dropBlanks_eq_self h
  | cons c cs ih =>
      rw [List.cons_append, dropBlanks_cons, dropBlanks_cons]
      cases isBlank c with
      | true => exact ih
      | false => rfl

/-- What is left does not start with a blank. -/
theorem isBlank_of_dropBlanks {cs rest : List Char} {c : Char}
    (h : dropBlanks cs = c :: rest) : isBlank c = false := by
  induction cs with
  | nil => simp at h
  | cons d cs ih =>
      rw [dropBlanks_cons] at h
      split at h
      · exact ih h
      · next hd =>
          obtain ⟨rfl, -⟩ := List.cons.inj h
          simpa using hd

end PropertyFile.Text
