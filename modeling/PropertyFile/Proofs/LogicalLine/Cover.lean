import PropertyFile.Proofs.LogicalLine.Text

/-!
# What becomes of a physical line

**Every physical line is skipped or belongs to a logical line**:
`isSkipped_or_exists_isPartOf`. Skipped are empty lines and comments, and only those
between two entries.

A line that belongs to an entry gives it everything but the blanks in front and the
backslash by which it goes on (`exists_indent`).
-/

namespace PropertyFile.LogicalLine

open PropertyFile.Text PropertyFile.Escape

/-- The physical line that stands between `earlier` and `later` is one of those that the
logical line is made of. -/
def IsPartOf (earlier : List (List Char)) (physical : List Char) (later : List (List Char))
    (l : LogicalLine) : Prop :=
  ∃ before front back after, earlier = before ++ front ∧ later = back ++ after ∧
    IsMadeOf l before (front ++ physical :: back) after

/-- A logical line that a text ends in goes on where the text does. -/
theorem IsMadeOf.exists_isMadeOf_append {l : LogicalLine} {earlier block : List (List Char)}
    (h : IsMadeOf l earlier block []) (hgo : ∀ line ∈ block, continues line = true)
    (later : List (List Char)) :
    ∃ l' back after, later = back ++ after ∧ IsMadeOf l' earlier (block ++ back) after := by
  -- As long as lines go on, they move from `later` to the end of the block.
  induction later generalizing l block with
  | nil => exact ⟨l, [], [], rfl, by simpa using h⟩
  | cons physical later ih =>
      cases hgoes : continues physical with
      | false =>
          exact ⟨_, [physical], later, rfl, h.append hgo (Or.inr hgoes)⟩
      | true =>
          have hall : ∀ line ∈ block ++ [physical], continues line = true :=
            List.forall_mem_append.mpr ⟨hgo, by simpa using hgoes⟩
          obtain ⟨l', back, after, rfl, hmade⟩ := ih (h.append hgo (Or.inl rfl)) hall
          exact ⟨l', physical :: back, after, rfl, by simpa using hmade⟩

theorem isPending_advanceAll {before : List (List Char)} {pending : Option LogicalLine}
    (h : IsPending before pending) (physical : List (List Char)) :
    IsPending (before ++ physical) (advanceAll (before.length + 1) pending physical).2 := by
  induction physical generalizing before pending with
  | nil => simpa [advanceAll] using h
  | cons line physical ih =>
      have hnext := ih (isPending_advance h line).1
      simpa [advanceAll] using hnext

/-- **A physical line is skipped between entries, or it is part of one.** -/
theorem isSkipped_or_exists_isPartOf (earlier : List (List Char)) (physical : List Char)
    (later : List (List Char)) :
    (leavesOpen earlier = false ∧ isSkipped (dropBlanks physical) = true) ∨
      ∃ l, IsPartOf earlier physical later l := by
  have hpending : IsPending earlier (advanceAll 1 none earlier).2 := by
    have hnone : IsPending [] none := leavesOpen_nil
    simpa using isPending_advanceAll hnone earlier
  rcases advance_cases (earlier.length + 1) (advanceAll 1 none earlier).2 physical with
    ⟨hnone, hskip, -⟩ | ⟨line, hline, -⟩
  · rw [hnone] at hpending
    exact Or.inl ⟨hpending, hskip⟩
  -- The line belongs to an entry, which it closes or which later lines close.
  · right
    obtain ⟨before, front, rfl, hgo, hmade⟩ := exists_isMadeOf hpending hline
    cases hgoes : continues physical with
    | false => exact ⟨_, before, front, [], later, rfl, rfl, hmade later (Or.inr hgoes)⟩
    | true =>
        have hall : ∀ line ∈ front ++ [physical], continues line = true :=
          List.forall_mem_append.mpr ⟨hgo, by simpa using hgoes⟩
        obtain ⟨l, back, after, rfl, hmade⟩ :=
          (hmade [] (Or.inl rfl)).exists_isMadeOf_append hall later
        exact ⟨l, before, front, back, after, rfl, rfl, by simpa using hmade⟩

/-- A line that a logical line has as a part stands in the same physical lines. -/
theorem IsPartOf.standsIn {earlier later : List (List Char)} {physical : List Char}
    {l : LogicalLine} (h : IsPartOf earlier physical later l) :
    l.StandsIn (earlier ++ physical :: later) := by
  obtain ⟨before, front, back, after, rfl, rfl, hmade⟩ := h
  exact ⟨before, front ++ physical :: back, after, by simp, hmade⟩

/-- What a physical line does not give to its entry. -/
theorem exists_indent (physical : List Char) :
    ∃ indent, (∀ c ∈ indent, isBlank c = true) ∧
      physical = indent ++ part physical ++ if continues physical then ['\\'] else [] := by
  obtain ⟨indent, hindent, hphysical⟩ := exists_blanks physical
  refine ⟨indent, hindent, ?_⟩
  rw [(dropBlanks_eq physical).2] at hphysical
  cases hgoes : continues physical with
  | true => simpa [hgoes] using hphysical
  | false => simpa [hgoes] using hphysical

end PropertyFile.LogicalLine
