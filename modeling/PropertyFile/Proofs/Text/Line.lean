import PropertyFile.Text.Line

/-!
# Physical lines in their text

**A line stands between whole lines and its line end.** `IsLine` says when a part of
a text is one of its physical lines, and `IsLine.lines_eq` that this is how the text
falls into lines: those before the part, the part itself, and those after it.
Nothing but line ends stands between lines (`exists_lineEnds`).

The line end matters for the part in front of it. A carriage return that stands there
is lost to the line feed, and at the end of a text no line feed is needed, but then an
empty part is no line at all.
-/

namespace PropertyFile.Text

/-- What closes a physical line. -/
inductive LineEnd
  /-- Nothing: the text ends with the line. -/
  | none
  | lineFeed
  /-- A carriage return and a line feed. -/
  | returnLineFeed
deriving DecidableEq, Repr

/-- The characters of a line end. -/
def LineEnd.text : LineEnd → List Char
  | .none => []
  | .lineFeed => ['\n']
  | .returnLineFeed => ['\r', '\n']

/-- In the text made of `before`, `line`, the line end and `later`, the second part is a
physical line. -/
structure IsLine (before line : List Char) (ending : LineEnd) (later : List Char) : Prop where
  whole_before : EndsLine before
  no_lineFeed : '\n' ∉ line
  /-- A carriage return in front of a line feed is part of the line end. -/
  no_return : ending = .lineFeed → line.getLast? ≠ some '\r'
  /-- A line without an end is the last one, and it is not empty. -/
  last : ending = .none → line ≠ [] ∧ later = []

/-! ### The first line -/

/-- A character joins the first of the lines after it, if that is not empty. -/
theorem lines_cons_of_lines {c d : Char} {rest line : List Char} {more : List (List Char)}
    (hn : c ≠ '\n') (h : lines rest = (d :: line) :: more) :
    lines (c :: rest) = (c :: d :: line) :: more := by
  rw [lines, h]
  · exact hn
  -- Were the text to go on with a line feed, its first line would be empty.
  · intro rest' _ hrest
    rw [hrest, lines_lineFeed] at h
    simp at h

/-- A line feed ends the line in front of it, which may hold other carriage returns. -/
theorem lines_lineFeed_of_getLast? {line : List Char} (hn : '\n' ∉ line)
    (hr : line.getLast? ≠ some '\r') (rest : List Char) :
    lines (line ++ '\n' :: rest) = line :: lines rest := by
  induction line with
  | nil => exact lines_lineFeed rest
  | cons c line ih =>
      cases line with
      | nil => exact lines_append_lineFeed hn (by simpa [eq_comm] using hr) rest
      | cons d line =>
          obtain ⟨hc, hline⟩ := List.ne_and_not_mem_of_not_mem_cons hn
          exact lines_cons_of_lines hc.symm
            (ih hline (by simpa [List.getLast?_cons_cons] using hr))

/-- So do a carriage return and a line feed. -/
theorem lines_returnLineFeed {line : List Char} (hn : '\n' ∉ line) (rest : List Char) :
    lines (line ++ '\r' :: '\n' :: rest) = line :: lines rest := by
  induction line with
  | nil => simp [lines]
  | cons c line ih =>
      obtain ⟨hc, hline⟩ := List.ne_and_not_mem_of_not_mem_cons hn
      cases line with
      | nil => simp [lines, hc.symm]
      | cons d line => exact lines_cons_of_lines hc.symm (ih hline)

/-- A text without a line feed is one line. -/
theorem lines_of_not_mem {line : List Char} (hn : '\n' ∉ line) (hne : line ≠ []) :
    lines line = [line] := by
  induction line with
  | nil => exact absurd rfl hne
  | cons c line ih =>
      obtain ⟨hc, hline⟩ := List.ne_and_not_mem_of_not_mem_cons hn
      cases line with
      | nil => simp [lines, hc.symm]
      | cons d line => exact lines_cons_of_lines hc.symm (ih hline (List.cons_ne_nil d line))

/-! ### Any line -/

theorem endsLine_lineFeed (cs : List Char) : EndsLine (cs ++ ['\n']) :=
  Or.inr List.getLast?_concat

namespace IsLine

variable {before line later : List Char} {ending : LineEnd}

/-- The text falls into the lines before, the line itself and the lines after it. -/
theorem lines_eq (h : IsLine before line ending later) :
    lines (before ++ line ++ ending.text ++ later) = lines before ++ line :: lines later := by
  rw [List.append_assoc, List.append_assoc, lines_append h.whole_before]
  congr 1
  cases ending with
  | none =>
      obtain ⟨hne, rfl⟩ := h.last rfl
      rw [LineEnd.text, List.append_nil, List.append_nil, lines_of_not_mem h.no_lineFeed hne,
        lines_nil]
  | lineFeed => exact lines_lineFeed_of_getLast? h.no_lineFeed (h.no_return rfl) later
  | returnLineFeed => exact lines_returnLineFeed h.no_lineFeed later

theorem lines_eq_cons (h : IsLine [] line ending later) :
    lines (line ++ ending.text ++ later) = line :: lines later := by
  simpa using h.lines_eq

/-- A text of one line. -/
theorem lines_eq_singleton (h : IsLine [] line ending []) :
    lines (line ++ ending.text) = [line] := by
  simpa using h.lines_eq_cons

end IsLine

/-! ### Every line -/

/-- The first line of a text and its end are what the text starts with. -/
theorem exists_isLine_nil {cs line : List Char} {more : List (List Char)}
    (h : lines cs = line :: more) :
    ∃ ending later, cs = line ++ ending.text ++ later ∧ IsLine [] line ending later ∧
      lines later = more := by
  fun_induction lines cs generalizing line more with
  | case1 => cases h
  | case2 rest _ =>
      obtain ⟨rfl, rfl⟩ := List.cons.inj h
      exact ⟨.lineFeed, rest, rfl, ⟨Or.inl rfl, by simp, by simp, by simp⟩, rfl⟩
  | case3 rest _ =>
      obtain ⟨rfl, rfl⟩ := List.cons.inj h
      exact ⟨.returnLineFeed, rest, rfl, ⟨Or.inl rfl, by simp, by simp, by simp⟩, rfl⟩
  | case4 c rest hc _ hrest _ =>
      obtain ⟨rfl, rfl⟩ := List.cons.inj h
      cases rest with
      | nil => exact ⟨.none, [], rfl, ⟨Or.inl rfl, by simpa [eq_comm] using hc, by simp, by simp⟩, rfl⟩
      | cons d rest => exact absurd hrest (lines_ne_nil (List.cons_ne_nil d rest))
  | case5 c rest hc hr line' more' hrest ih =>
      obtain ⟨rfl, rfl⟩ := List.cons.inj h
      obtain ⟨ending, later, rfl, hline, hlater⟩ := ih hrest
      refine ⟨ending, later, rfl, ?_, hlater⟩
      exact {
        whole_before := Or.inl rfl
        no_lineFeed := by
          intro hmem
          rcases List.mem_cons.mp hmem with heq | hmem
          · exact hc heq.symm
          · exact hline.no_lineFeed hmem
        no_return := by
          intro hending hlast
          cases line' with
          -- A carriage return directly before the line feed would be part of the line end.
          | nil =>
              rw [hending] at hr
              exact hr later (by simpa using hlast) rfl
          | cons d line' => exact hline.no_return hending (by simpa using hlast)
        last := fun hending => ⟨List.cons_ne_nil c line', (hline.last hending).2⟩ }

/-- Every physical line of a text stands somewhere in it. -/
theorem exists_isLine {cs line : List Char} {earlier more : List (List Char)}
    (h : lines cs = earlier ++ line :: more) :
    ∃ before ending later, cs = before ++ line ++ ending.text ++ later ∧
      IsLine before line ending later ∧ lines before = earlier ∧ lines later = more := by
  induction earlier generalizing cs with
  | nil =>
      obtain ⟨ending, later, hcs, hline, hlater⟩ := exists_isLine_nil h
      exact ⟨[], ending, later, hcs, hline, rfl, hlater⟩
  | cons first earlier ih =>
      obtain ⟨ending, rest, rfl, hfirst, hrest⟩ := exists_isLine_nil h
      obtain ⟨before, ending', later, rfl, hline, hbefore, hlater⟩ := ih hrest
      have hends : ending ≠ .none := by
        intro hnone
        rw [(hfirst.last hnone).2] at hrest
        simp at hrest
      have hfirst' : IsLine [] first ending before :=
        ⟨hfirst.whole_before, hfirst.no_lineFeed, hfirst.no_return, fun hnone => absurd hnone hends⟩
      refine ⟨first ++ ending.text ++ before, ending', later, by simp, ?_, ?_, hlater⟩
      · refine ⟨?_, hline.no_lineFeed, hline.no_return, hline.last⟩
        rcases hline.whole_before with hnil | hlast
        · rw [hnil, List.append_nil]
          cases ending with
          | none => exact absurd rfl hends
          | lineFeed => exact endsLine_lineFeed first
          | returnLineFeed =>
              have hends := endsLine_lineFeed (first ++ ['\r'])
              rwa [List.append_assoc] at hends
        · exact Or.inr (by rw [List.getLast?_append, hlast]; rfl)
      · rw [hfirst'.lines_eq_cons, hbefore]

/-- A text is its lines, each with its end. -/
theorem exists_lineEnds (cs : List Char) :
    ∃ ends : List LineEnd, ends.length = (lines cs).length ∧
      cs = (List.zipWith (fun line ending => line ++ LineEnd.text ending) (lines cs) ends).flatten := by
  induction hlines : lines cs generalizing cs with
  | nil =>
      have hnil : cs = [] := Classical.byContradiction fun hne => lines_ne_nil hne hlines
      exact ⟨[], rfl, hnil⟩
  | cons line more ih =>
      obtain ⟨ending, later, hcs, -, hlater⟩ := exists_isLine_nil hlines
      obtain ⟨ends, hlength, hends⟩ := ih later hlater
      refine ⟨ending :: ends, by simp [hlength], ?_⟩
      rw [List.zipWith_cons_cons, List.flatten_cons, ← hends, hcs]

end PropertyFile.Text
