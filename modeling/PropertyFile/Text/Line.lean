/-!
# Physical lines

A line feed ends a line. A carriage return directly before that line feed
belongs to the line end; anywhere else it is an ordinary character, also at the
end of a last line that has no line feed. A line feed at the very end of the
text starts no further line.
-/

namespace PropertyFile.Text

/-- The physical lines of a text, without their ends. -/
def lines : List Char → List (List Char)
  | [] => []
  | '\n' :: rest => [] :: lines rest
  | '\r' :: '\n' :: rest => [] :: lines rest
  | c :: rest =>
      match lines rest with
      | [] => [[c]]
      | line :: more => (c :: line) :: more

@[simp] theorem lines_nil : lines [] = [] := by simp [lines]

@[simp] theorem lines_lineFeed (rest : List Char) : lines ('\n' :: rest) = [] :: lines rest := by
  simp [lines]

/-- A character that can be no part of a line end belongs to the first line. -/
theorem lines_cons {c : Char} (hn : c ≠ '\n') (hr : c ≠ '\r') (rest : List Char) :
    lines (c :: rest) =
      match lines rest with
      | [] => [[c]]
      | line :: more => (c :: line) :: more := by
  rw [lines]
  · exact hn
  · exact fun _ h _ => hr h

/-- A line feed closes what stands in front of it. -/
theorem lines_append_lineFeed {line : List Char} (hn : '\n' ∉ line) (hr : '\r' ∉ line)
    (rest : List Char) : lines (line ++ '\n' :: rest) = line :: lines rest := by
  induction line with
  | nil => exact lines_lineFeed rest
  | cons c line ih =>
      simp only [List.mem_cons, not_or] at hn hr
      rw [List.cons_append, lines_cons (Ne.symm hn.1) (Ne.symm hr.1), ih hn.2 hr.2]

/-- A text that is not empty has at least one line. -/
theorem lines_ne_nil {cs : List Char} (h : cs ≠ []) : lines cs ≠ [] := by
  fun_induction lines cs with
  | case1 => exact absurd rfl h
  | case2 => simp
  | case3 => simp
  | case4 => simp
  | case5 => simp

/-! ### Whole lines -/

/-- Is a text made of whole lines: is it empty, or does it end with a line feed? -/
def EndsLine (cs : List Char) : Prop :=
  cs = [] ∨ cs.getLast? = some '\n'

instance (cs : List Char) : Decidable (EndsLine cs) :=
  inferInstanceAs (Decidable (_ ∨ _))

theorem EndsLine.tail {c : Char} {cs : List Char} (h : EndsLine (c :: cs)) : EndsLine cs := by
  rcases h with h | h
  · simp at h
  · cases cs with
    | nil => exact Or.inl rfl
    | cons d cs => exact Or.inr (by simpa [List.getLast?_cons_cons] using h)

theorem EndsLine.eq_lineFeed {c : Char} (h : EndsLine [c]) : c = '\n' := by
  simpa [EndsLine] using h

/-- What follows whole lines starts on a line of its own. -/
theorem lines_append {cs : List Char} (h : EndsLine cs) (ds : List Char) :
    lines (cs ++ ds) = lines cs ++ lines ds := by
  fun_induction lines cs with
  | case1 => rfl
  | case2 rest ih => rw [List.cons_append, lines_lineFeed, ih h.tail, List.cons_append]
  | case3 rest ih =>
      have hrest := ih h.tail.tail
      simp only [List.cons_append, lines, hrest]
  | case4 c rest hc _ hrest ih =>
      cases rest with
      -- The last character of whole lines is a line feed.
      | nil => exact absurd h.eq_lineFeed hc
      | cons d rest => exact absurd hrest (lines_ne_nil (List.cons_ne_nil d rest))
  | case5 c rest hc hr line more hrest ih =>
      have happ : lines (rest ++ ds) = line :: (more ++ lines ds) := by
        rw [ih h.tail, hrest, List.cons_append]
      rw [List.cons_append, lines, happ]
      · rfl
      · exact hc
      · intro ds' hcr hds
        cases rest with
        | nil => simp at hrest
        | cons d rest =>
            obtain ⟨rfl, -⟩ := List.cons.inj hds
            exact hr rest hcr rfl

/-- Whole lines are as many as their line feeds. -/
theorem length_lines {cs : List Char} (h : EndsLine cs) :
    (lines cs).length = cs.count '\n' := by
  fun_induction lines cs with
  | case1 => rfl
  | case2 rest ih => simp [ih h.tail]
  | case3 rest ih => simp [ih h.tail.tail]
  | case4 c rest hc _ hrest ih =>
      cases rest with
      | nil => exact absurd h.eq_lineFeed hc
      | cons d rest => exact absurd hrest (lines_ne_nil (List.cons_ne_nil d rest))
  | case5 c rest hc _ line more hrest ih =>
      have hcount := ih h.tail
      rw [hrest] at hcount
      have hne : c ≠ '\n' := hc
      rw [List.count_cons_of_ne hne, ← hcount]
      rfl

end PropertyFile.Text
