import Mathlib.Control.Monad.Basic
import PropertyFile.Proofs.LogicalLine.Number
import PropertyFile.Proofs.Text.Line

/-!
# Broken lines

**A line can be broken anywhere**, by a backslash in front of the break: `parse_broken`.
The text is read as before, and only the lines after the break have other numbers. This
needs that the backslash is not itself escaped, and that the second part does not start
with a blank, as blanks in front of a physical line are lost.

An entry is open when the second part is read, so that part is not skipped, whatever it
looks like. What the two parts add to the entry is what the line adds (`part_append`),
and the second goes on if the line does. At the end of a text the second part can be no
line at all; the entry then ends with the text (`collect_lines_second`).
-/

namespace PropertyFile

open PropertyFile.Text

namespace LogicalLine

/-! ### A line in two parts -/

section

variable {first second indent : List Char}

/-- Blanks in front of the second part are lost. -/
theorem dropBlanks_second (hindent : ∀ b ∈ indent, isBlank b = true)
    (hsecond : ∀ c ∈ second.head?, isBlank c = false) :
    dropBlanks (indent ++ second) = second := by
  rw [dropBlanks_append hindent, dropBlanks_eq_self hsecond]

/-- The backslash that is put behind the first part is no blank. -/
theorem isBlank_of_mem_backslash : ∀ c ∈ ['\\'].head?, isBlank c = false := by
  intro c hc
  obtain rfl := Option.some.inj hc
  rfl

/-- The first part goes on by that backslash. -/
theorem continues_first (hfirst : continues first = false) :
    continues (first ++ ['\\']) = true :=
  (continues_append hfirst ['\\']).trans rfl

/-- Only blanks and the backslash are lost of the first part. -/
theorem part_first (hfirst : continues first = false) :
    part (first ++ ['\\']) = dropBlanks first := by
  have hdrop : dropBlanks (first ++ ['\\']) = dropBlanks first ++ ['\\'] :=
    dropBlanks_append_of_head? isBlank_of_mem_backslash first
  rw [part, if_pos (continues_first hfirst), hdrop, List.dropLast_concat]

/-- The second part goes on if the line does. -/
theorem continues_second (hfirst : continues first = false)
    (hindent : ∀ b ∈ indent, isBlank b = true)
    (hsecond : ∀ c ∈ second.head?, isBlank c = false) :
    continues (indent ++ second) = continues (first ++ second) := by
  rw [← continues_dropBlanks, dropBlanks_second hindent hsecond, continues_append hfirst]

/-- A line adds what its two parts add. -/
theorem part_append (hfirst : continues first = false)
    (hindent : ∀ b ∈ indent, isBlank b = true)
    (hsecond : ∀ c ∈ second.head?, isBlank c = false) :
    part (first ++ second) = dropBlanks first ++ part (indent ++ second) := by
  have hwhole := continues_append hfirst second
  rw [part, part, continues_second hfirst hindent hsecond, dropBlanks_second hindent hsecond,
    dropBlanks_append_of_head? hsecond, hwhole]
  cases hgoes : continues second with
  | false => rfl
  | true =>
      have hne : second ≠ [] := by
        intro heq
        rw [heq] at hgoes
        cases hgoes
      exact List.dropLast_append_of_ne_nil hne

/-- A line of an open entry can be read in its two parts. -/
theorem advance_second (hfirst : continues first = false)
    (hindent : ∀ b ∈ indent, isBlank b = true)
    (hsecond : ∀ c ∈ second.head?, isBlank c = false) (number : Nat) (line : LogicalLine) :
    advance (number + 1) (some (line.append (dropBlanks first))) (indent ++ second) =
      advance number (some line) (first ++ second) := by
  rw [advance_some, advance_some, continues_second hfirst hindent hsecond,
    part_append hfirst hindent hsecond]
  simp [append]

end

/-- At the end of a text, a line of blanks or no line at all ends the entry. -/
theorem collect_lines_second {second later : List Char} {ending : LineEnd}
    (hn : '\n' ∉ second) (hr : ending = .lineFeed → second.getLast? ≠ some '\r')
    (hlast : ending = .none → later = []) (number : Nat) (line : LogicalLine) :
    collect number (some line) (lines (second ++ ending.text ++ later)) =
      collect number (some line) (second :: lines later) := by
  by_cases hnothing : ending = .none ∧ second = []
  · obtain ⟨rfl, rfl⟩ := hnothing
    obtain rfl := hlast rfl
    have hempty : line.append [] = line := by simp [append]
    show [line] = [line.append []]
    rw [hempty]
  · have hisLine : IsLine [] second ending later := {
      whole_before := Or.inl rfl
      no_lineFeed := hn
      no_return := hr
      last := fun hnone => ⟨fun hnil => hnothing ⟨hnone, hnil⟩, hlast hnone⟩ }
    rw [hisLine.lines_eq_cons]

end LogicalLine

open LogicalLine

/-- A physical line that belongs to an entry, and a place in it where it can be broken. -/
structure Break where
  before : List Char
  /-- What stands in front of the break. -/
  first : List Char
  /-- What stands behind the break. -/
  second : List Char
  ending : LineEnd
  later : List Char
  /-- The blanks that the second part gets in front. -/
  indent : List Char
  is_line : IsLine before (first ++ second) ending later
  /-- The line goes on with an entry, or it opens one. -/
  in_entry : leavesOpen (lines before) = true ∨ isSkipped (dropBlanks (first ++ second)) = false
  /-- A backslash behind the first part escapes nothing. -/
  first_closed : continues first = false
  second_start : ∀ c ∈ second.head?, isBlank c = false
  indent_blank : ∀ b ∈ indent, isBlank b = true

namespace Break

/-- The text in which the line is whole. -/
def whole (b : Break) : List Char :=
  b.before ++ (b.first ++ b.second) ++ b.ending.text ++ b.later

/-- The text in which the line is broken. -/
def broken (b : Break) : List Char :=
  b.before ++ (b.first ++ ['\\', '\n'] ++ b.indent ++ b.second) ++ b.ending.text ++ b.later

/-- The number of the line. -/
def number (b : Break) : Nat :=
  (lines b.before).length + 1

/-- Lines after the break stand one line further down. -/
def moved (b : Break) (number : Nat) : Nat :=
  if number ≤ b.number then number else number + 1

/-- Every physical line that belongs to an entry can be broken, at every place that is
not behind an odd number of backslashes or in front of a blank. -/
theorem exists_whole_eq {text first second indent : List Char}
    {earlier more : List (List Char)} (hline : lines text = earlier ++ (first ++ second) :: more)
    (hentry : leavesOpen earlier = true ∨ isSkipped (dropBlanks (first ++ second)) = false)
    (hfirst : continues first = false) (hsecond : ∀ c ∈ second.head?, isBlank c = false)
    (hindent : ∀ b ∈ indent, isBlank b = true) :
    ∃ b : Break, b.whole = text ∧ lines b.before = earlier ∧ b.first = first ∧
      b.second = second ∧ b.indent = indent := by
  obtain ⟨before, ending, later, rfl, hisLine, hbefore, -⟩ := exists_isLine hline
  rw [← hbefore] at hentry
  exact ⟨⟨before, first, second, ending, later, indent, hisLine, hentry, hfirst, hsecond,
    hindent⟩, rfl, hbefore, rfl, rfl, rfl⟩

/-! ### The physical lines -/

theorem lines_whole (b : Break) :
    lines b.whole = lines b.before ++ (b.first ++ b.second) :: lines b.later :=
  b.is_line.lines_eq

/-- The backslash and the line feed end a line. -/
theorem lines_broken (b : Break) :
    lines b.broken = lines b.before ++
      (b.first ++ ['\\']) :: lines (b.indent ++ b.second ++ b.ending.text ++ b.later) := by
  have hisLine : IsLine b.before (b.first ++ ['\\']) .lineFeed
      (b.indent ++ b.second ++ b.ending.text ++ b.later) := {
    whole_before := b.is_line.whole_before
    no_lineFeed := by
      have hline := b.is_line.no_lineFeed
      simp only [List.mem_append, not_or] at hline
      simpa using hline.1
    no_return := by simp
    last := by simp }
  rw [← hisLine.lines_eq]
  simp [broken, LineEnd.text]

/-- The line that the second part becomes, with its blanks, has no other line end. -/
theorem collect_lines_second (b : Break) (number : Nat) (line : LogicalLine) :
    collect number (some line) (lines (b.indent ++ b.second ++ b.ending.text ++ b.later)) =
      collect number (some line) ((b.indent ++ b.second) :: lines b.later) := by
  apply LogicalLine.collect_lines_second
  · have hline := b.is_line.no_lineFeed
    simp only [List.mem_append, not_or] at hline ⊢
    refine ⟨fun hmem => ?_, hline.2⟩
    cases b.indent_blank _ hmem
  · intro hending hlast
    have hline := b.is_line.no_return hending
    cases hsecond : b.second with
    | nil =>
        rw [hsecond, List.append_nil] at hlast
        cases b.indent_blank _ (List.mem_of_getLast? hlast)
    | cons c second =>
        rw [hsecond, List.getLast?_append, List.getLast?_cons] at hline hlast
        exact hline hlast
  · exact fun hending => (b.is_line.last hending).2

/-! ### The logical lines -/

/-- The entry that the line belongs to is open when it is read, or it is opened there,
be the line whole or broken. -/
theorem exists_open (b : Break) {pending : Option LogicalLine}
    (hpending : pending.isSome = leavesOpen (lines b.before))
    (hearlier : ∀ l ∈ pending, l.number < b.number) :
    ∃ line, line.number ≤ b.number ∧
      (∀ more, collect b.number pending ((b.first ++ b.second) :: more) =
        collect b.number (some line) ((b.first ++ b.second) :: more)) ∧
      ∀ more, collect b.number pending ((b.first ++ ['\\']) :: more) =
        collect b.number (some line) ((b.first ++ ['\\']) :: more) := by
  cases pending with
  | some line => exact ⟨line, Nat.le_of_lt (hearlier line rfl), fun _ => rfl, fun _ => rfl⟩
  | none =>
      have hskip : isSkipped (dropBlanks (b.first ++ b.second)) = false := by
        rcases b.in_entry with hopen | hskip
        · rw [hopen] at hpending
          cases hpending
        · exact hskip
      refine ⟨⟨b.number, []⟩, Nat.le_refl _, fun _ => collect_opened hskip _ _,
        fun _ => collect_opened ?_ _ _⟩
      rw [dropBlanks_append_of_head? b.second_start] at hskip
      rw [dropBlanks_append_of_head? isBlank_of_mem_backslash]
      cases hfirst : dropBlanks b.first with
      | nil => rfl
      | cons c first =>
          rw [hfirst] at hskip
          exact hskip

/-! ### The numbers -/

theorem moved_of_lt (b : Break) {number : Nat} (h : b.number < number) :
    b.moved number = number + 1 :=
  if_neg (Nat.not_le_of_lt h)

/-- Lines that start before the break keep their numbers. -/
theorem renumber_moved (b : Break) {l : LogicalLine} (h : l.number ≤ b.number) :
    l.renumber b.moved = l := by
  have hnumber : b.moved l.number = l.number := if_pos h
  rw [renumber, hnumber]

theorem map_renumber_moved (b : Break) {ls : List LogicalLine}
    (h : ∀ l ∈ ls, l.number ≤ b.number) : ls.map (renumber b.moved) = ls := by
  rw [List.map_congr_left fun l hl => b.renumber_moved (h l hl)]
  exact List.map_id' ls

/-- Lines after the break are collected one number further on. -/
theorem collect_moved (b : Break) {pending : Option LogicalLine}
    (h : ∀ l ∈ pending, l.number ≤ b.number) (physical : List (List Char)) :
    collect (b.number + 1 + 1) pending physical =
      (collect (b.number + 1) pending physical).map (renumber b.moved) := by
  have hpending : pending.map (renumber b.moved) = pending := by
    cases pending with
    | none => rfl
    | some l => exact congrArg some (b.renumber_moved (h l rfl))
  have hmoved : ∀ k, b.moved (b.number + 1 + k) = b.number + 1 + k + 1 := by
    intro k
    exact b.moved_of_lt (by omega)
  rw [← collect_renumber hmoved, hpending]

/-- The logical lines of the broken text are those of the whole one, under the numbers
that they have there. -/
theorem ofText_broken (b : Break) :
    ofText b.broken = (ofText b.whole).map (renumber b.moved) := by
  -- What is read before the line is the same in both texts, and so is what the line does.
  let read := advanceAll 1 none (lines b.before)
  have hnumber : 1 + (lines b.before).length = b.number := Nat.add_comm _ _
  obtain ⟨hclosed, hpending⟩ :=
    @number_lt_of_advanceAll 1 none (by simp) (lines b.before)
  rw [hnumber] at hclosed hpending
  obtain ⟨line, hle, hwhole, hbroken⟩ := b.exists_open (isSome_advanceAll 1 none _) hpending
  let next := advance b.number (some line) (b.first ++ b.second)
  have hread : (∀ l ∈ next.1, l.number ≤ b.number) ∧ ∀ l ∈ next.2, l.number ≤ b.number :=
    number_le_of_advance (by simpa using hle) _
  have hfirst : advance b.number (some line) (b.first ++ ['\\']) =
      ([], some (line.append (dropBlanks b.first))) := by
    rw [advance_some, if_pos (continues_first b.first_closed), part_first b.first_closed]
  have hsecond : advance (b.number + 1) (some (line.append (dropBlanks b.first)))
      (b.indent ++ b.second) = next :=
    advance_second b.first_closed b.indent_blank b.second_start _ _
  calc ofText b.broken
      = read.1 ++ collect b.number (some line) ((b.first ++ ['\\']) ::
          lines (b.indent ++ b.second ++ b.ending.text ++ b.later)) := by
        rw [ofText, lines_broken, collect_advanceAll, hnumber, hbroken]
    _ = read.1 ++ (next.1 ++ collect (b.number + 1 + 1) next.2 (lines b.later)) := by
        rw [collect_cons, hfirst, List.nil_append, b.collect_lines_second, collect_cons, hsecond]
    _ = (read.1 ++ (next.1 ++ collect (b.number + 1) next.2 (lines b.later))).map
          (renumber b.moved) := by
        rw [List.map_append, List.map_append, b.collect_moved hread.2,
          b.map_renumber_moved hread.1,
          b.map_renumber_moved fun l hl => Nat.le_of_lt (hclosed l hl)]
    _ = (ofText b.whole).map (renumber b.moved) := by
        rw [ofText, lines_whole, collect_advanceAll, hnumber, hwhole, collect_cons]

end Break

namespace Properties

/-- **A break behind a backslash is not seen.** The broken text has the entries of the
whole one, or its error; the number of the line that is told grows by one if that line
starts after the break. -/
theorem parse_broken (b : Break) :
    parse (String.ofList b.broken) =
      (parse (String.ofList b.whole)).mapError (ReadError.renumber b.moved) := by
  rw [parse, parse, String.toList_ofList, String.toList_ofList, b.ofText_broken,
    mapM_entry_renumber]
  cases (ofText b.whole).mapM LogicalLine.entry <;> rfl

/-- A line that continues a value and looks like a comment is broken between two backslashes,
of which the first is escaped, and a last line is broken at its end. -/
theorem parse_broken_of_backslashes :
    ∃ b last : Break,
      String.ofList b.whole = "a = x\\\n  #y\\\\\\:\nd=\\uD800" ∧
      String.ofList b.broken = "a = x\\\n  #y\\\\\\\n\t\\:\nd=\\uD800" ∧
      parse (String.ofList b.whole) = .error ⟨3, some "d", .unpaired 0xD800⟩ ∧
      parse (String.ofList b.broken) = .error ⟨4, some "d", .unpaired 0xD800⟩ ∧
      String.ofList last.broken = "k=v\\\n" ∧
      parse (String.ofList last.broken) = .ok (Dictionary.ofList [("k", "v")]) := by
  let b : Break := {
    before := "a = x\\\n".toList
    first := "  #y\\\\".toList
    second := "\\:".toList
    ending := .lineFeed
    later := "d=\\uD800".toList
    indent := ['\t']
    is_line := ⟨by decide, by decide, by decide, by decide⟩
    in_entry := by decide
    first_closed := by decide
    second_start := by simp [isBlank]
    indent_blank := by simp [isBlank] }
  let last : Break := {
    before := []
    first := "k=v".toList
    second := []
    ending := .none
    later := []
    indent := []
    is_line := ⟨by decide, by decide, by decide, by decide⟩
    in_entry := by decide
    first_closed := by decide
    second_start := by simp [isBlank]
    indent_blank := by simp [isBlank] }
  have hwhole : parse (String.ofList b.whole) = .error ⟨3, some "d", .unpaired 0xD800⟩ := by
    decide +kernel
  have hlast : parse (String.ofList last.whole) = .ok (Dictionary.ofList [("k", "v")]) := by
    decide +kernel
  refine ⟨b, last, by decide, by decide, hwhole, ?_, by decide, ?_⟩
  · rw [parse_broken b, hwhole]
    rfl
  · rw [parse_broken last, hlast]
    rfl

end Properties

end PropertyFile
