import PropertyFile.Proofs.LogicalLine.Layout

/-!
# The texts of logical lines

**What the joined text of a logical line can be like.** It is put together from the
parts of its physical lines, and none of these starts with a blank or ends in a
backslash that escapes nothing (`dropBlanks_eq`). So neither does the whole text.

A logical line can be empty all the same, although its first physical line is not:
each of its physical lines then holds nothing but blanks and the backslash by which it
goes on (`IsMadeOf.text_eq_nil_iff`).
-/

namespace PropertyFile.LogicalLine

open PropertyFile.Text PropertyFile.Escape

/-- Without its leading blanks, a physical line is its part and the backslash by which
it goes on, if it does. -/
theorem dropBlanks_eq (physical : List Char) :
    dangles (part physical) = false ∧
      dropBlanks physical =
        if continues physical then part physical ++ ['\\'] else part physical := by
  have hdangles : dangles (dropBlanks physical) = continues physical := by
    rw [← continues_eq_dangles, continues_dropBlanks]
  cases hgoes : continues physical with
  | false => simpa [part, hgoes] using hdangles.trans hgoes
  | true =>
      obtain ⟨ds, hds, hclosed⟩ := dangles_eq_true_iff.mp (hdangles.trans hgoes)
      simpa [part, hgoes, hds] using hclosed

theorem dangles_part (physical : List Char) : dangles (part physical) = false :=
  (dropBlanks_eq physical).1

theorem part_eq_nil_iff {physical : List Char} :
    part physical = [] ↔ dropBlanks physical = [] ∨ dropBlanks physical = ['\\'] := by
  obtain ⟨hclosed, hphysical⟩ := dropBlanks_eq physical
  rw [hphysical]
  cases continues physical with
  | true => simp
  | false =>
      have hback : part physical ≠ ['\\'] := by
        intro heq
        simp [heq] at hclosed
      simp [hback]

/-- The part of a line does not start with a blank. -/
theorem isBlank_of_part {physical rest : List Char} {c : Char}
    (h : part physical = c :: rest) : isBlank c = false := by
  obtain ⟨-, hphysical⟩ := dropBlanks_eq physical
  rw [h] at hphysical
  cases hgoes : continues physical with
  | true => exact isBlank_of_dropBlanks (by simpa [hgoes] using hphysical)
  | false => exact isBlank_of_dropBlanks (by simpa [hgoes] using hphysical)

/-! ### Joined parts -/

theorem dangles_flatMap_part (block : List (List Char)) :
    dangles (block.flatMap part) = false := by
  induction block with
  | nil => rfl
  | cons physical block ih => rw [List.flatMap_cons, dangles_append (dangles_part physical), ih]

theorem isBlank_of_flatMap_part {block : List (List Char)} {c : Char} {rest : List Char}
    (h : block.flatMap part = c :: rest) : isBlank c = false := by
  induction block with
  | nil => simp at h
  | cons physical block ih =>
      rw [List.flatMap_cons] at h
      cases hpart : part physical with
      | nil => exact ih (by simpa [hpart] using h)
      | cons d ds =>
          obtain rfl : d = c := by
            rw [hpart] at h
            exact (List.cons.inj h).1
          exact isBlank_of_part hpart

namespace IsMadeOf

variable {l : LogicalLine} {earlier block later : List (List Char)}

/-- The text does not end in a backslash that escapes nothing. -/
theorem dangles_text (h : IsMadeOf l earlier block later) : dangles l.text = false := by
  rw [h.text, dangles_flatMap_part]

/-- The text does not start with a blank. -/
theorem isBlank_of_text (h : IsMadeOf l earlier block later) {c : Char} {rest : List Char}
    (htext : l.text = c :: rest) : isBlank c = false :=
  isBlank_of_flatMap_part (h.text.symm.trans htext)

/-- A logical line is empty if its physical lines hold only blanks and backslashes by
which they go on. -/
theorem text_eq_nil_iff (h : IsMadeOf l earlier block later) :
    l.text = [] ↔
      ∀ physical ∈ block, dropBlanks physical = [] ∨ dropBlanks physical = ['\\'] := by
  simp only [h.text, List.flatMap_eq_nil_iff, part_eq_nil_iff]

end IsMadeOf

end PropertyFile.LogicalLine
