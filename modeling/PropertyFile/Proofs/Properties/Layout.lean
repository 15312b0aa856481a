import Mathlib.Control.Monad.Basic
import PropertyFile.Properties
import PropertyFile.Proofs.LogicalLine.Layout
import PropertyFile.Proofs.RawEntry.Separator
import PropertyFile.Proofs.Text.Line

/-!
# The layout of an entry

**An entry is the same however it is laid out in its line**: `parse_layout`. The line can
be indented, its key and its value can be kept apart by blanks and by a separator in any
way that `Separates` allows, and it can end in a line feed, with or without a carriage
return, or with the text.

A text of one line has one logical line, if the line is not skipped and does not go on
(`parse_line`). What is then left is that the line is cut where it was put together.
-/

namespace PropertyFile

open PropertyFile.Text PropertyFile.RawEntry

/-! ### Texts of one line -/

namespace LogicalLine

/-- A line that is not skipped and does not go on is a logical line by itself. -/
theorem ofText_line {indent line : List Char} {ending : LineEnd}
    (hindent : ∀ b ∈ indent, isBlank b = true) (hline : ∀ c ∈ line, c ≠ '\n' ∧ c ≠ '\r')
    (hskip : isSkipped (dropBlanks line) = false) (hcloses : continues line = false) :
    ofText (indent ++ line ++ ending.text) = [⟨1, dropBlanks line⟩] := by
  have hchars : ∀ c ∈ indent ++ line, c ≠ '\n' ∧ c ≠ '\r' := by
    intro c hc
    rcases List.mem_append.mp hc with hc | hc
    · have hblank := hindent c hc
      refine ⟨fun heq => ?_, fun heq => ?_⟩ <;> simp [heq, isBlank] at hblank
    · exact hline c hc
  have hisLine : IsLine [] (indent ++ line) ending [] := {
    whole_before := Or.inl rfl
    no_lineFeed := fun hmem => (hchars _ hmem).1 rfl
    no_return := fun _ hlast => (hchars _ (List.mem_of_getLast? hlast)).2 rfl
    last := by
      intro _
      refine ⟨fun hnil => ?_, rfl⟩
      rw [(List.append_eq_nil_iff.mp hnil).2] at hskip
      cases hskip }
  have hdrop : dropBlanks (indent ++ line) = dropBlanks line := dropBlanks_append hindent line
  rw [ofText, hisLine.lines_eq_singleton, collect_opened (by rw [hdrop]; exact hskip),
    collect_closed (by rw [hdrop, continues_dropBlanks]; exact hcloses), hdrop]
  rfl

end LogicalLine

namespace Properties

/-- A text of one line has the one entry of that line, if it can be read. -/
theorem parse_line {indent line : List Char} {ending : LineEnd}
    (hindent : ∀ b ∈ indent, isBlank b = true) (hline : ∀ c ∈ line, c ≠ '\n' ∧ c ≠ '\r')
    (hskip : LogicalLine.isSkipped (dropBlanks line) = false)
    (hcloses : LogicalLine.continues line = false) :
    parse (String.ofList (indent ++ line ++ ending.text)) =
      (LogicalLine.entry ⟨1, dropBlanks line⟩).map fun entry => Dictionary.ofList [entry] := by
  rw [parse, String.toList_ofList, LogicalLine.ofText_line hindent hline hskip hcloses,
    List.mapM_cons, List.mapM_nil]
  cases LogicalLine.entry ⟨1, dropBlanks line⟩ <;> rfl

end Properties

/-! ### Entries in one line -/

/-- A raw key and a raw value as they can be written in one line. -/
structure RawEntry.IsWritten (raw : RawEntry) : Prop where
  one_line : ∀ c ∈ raw.key ++ raw.value, c ≠ '\n' ∧ c ≠ '\r'
  key_text : isKeyText raw.key = true
  /-- The key does not make the line a comment. -/
  key_start : ∀ c ∈ raw.key.head?, c ≠ '#' ∧ c ≠ '!'
  value_start : ∀ c ∈ raw.value.head?, isBlank c = false
  /-- The line does not go on. -/
  value_end : LogicalLine.continues raw.value = false

/-- A way to lay out a raw entry in one line. -/
structure Layout (raw : RawEntry) where
  indent : List Char
  separator : List Char
  ending : LineEnd
  indent_blank : ∀ b ∈ indent, isBlank b = true
  separates : Separates raw.key raw.value separator

namespace Layout

variable {raw : RawEntry}

/-- The line, from the key to the value. -/
def line (l : Layout raw) : List Char :=
  raw.key ++ l.separator ++ raw.value

/-- The text of an entry that is laid out in one line. -/
def text (l : Layout raw) : List Char :=
  l.indent ++ l.line ++ l.ending.text

/-! ### What a line is cut into -/

/-- The characters of a separator are no line ends and no backslashes. -/
theorem chars_separator (l : Layout raw) :
    ∀ c ∈ l.separator, (c ≠ '\n' ∧ c ≠ '\r') ∧ c ≠ '\\' := by
  intro c hc
  have hends := l.separates.chars c hc
  refine ⟨⟨fun heq => ?_, fun heq => ?_⟩, fun heq => ?_⟩ <;>
    simp [heq, isSeparator, isBlank] at hends

theorem dangles_separator (l : Layout raw) : Escape.dangles l.separator = false :=
  Escape.dangles_of_not_mem fun hmem => (l.chars_separator _ hmem).2 rfl

/-- No line end stands in the line. -/
theorem ne_lineEnd_of_mem_line (l : Layout raw) (h : raw.IsWritten) :
    ∀ c ∈ l.line, c ≠ '\n' ∧ c ≠ '\r' := by
  intro c hc
  simp only [line, List.mem_append] at hc
  rcases hc with (hc | hc) | hc
  · exact h.one_line c (List.mem_append_left _ hc)
  · exact (l.chars_separator c hc).1
  · exact h.one_line c (List.mem_append_right _ hc)

/-- The line closes its entry, as its value does. -/
theorem continues_line (l : Layout raw) (h : raw.IsWritten) :
    LogicalLine.continues l.line = false := by
  rw [line, List.append_assoc, LogicalLine.continues_eq_dangles,
    Escape.dangles_append (dangles_of_isKeyText h.key_text),
    Escape.dangles_append l.dangles_separator, ← LogicalLine.continues_eq_dangles]
  exact h.value_end

theorem isSkipped_line (l : Layout raw) (h : raw.IsWritten) :
    LogicalLine.isSkipped (dropBlanks l.line) = false := by
  obtain ⟨sep, hsep, heq⟩ := exists_dropBlanks_eq h.key_text l.separates
  rw [line, heq]
  cases hkey : raw.key with
  | cons c key =>
      have hstart := h.key_start c (by simp [hkey])
      simpa [LogicalLine.isSkipped] using hstart
  | nil =>
      obtain ⟨c, more, rfl⟩ := List.exists_cons_of_ne_nil hsep.ne_nil
      rw [hkey] at heq
      -- The first character is no blank, so it is a mark.
      have hmark : isSeparator c = true := by
        rcases hsep.chars c List.mem_cons_self with hmark | hblank
        · exact hmark
        · simp [isBlank_of_dropBlanks heq] at hblank
      simp only [isSeparator, Bool.or_eq_true, beq_iff_eq] at hmark
      rcases hmark with hc | hc
      · simp [LogicalLine.isSkipped, hc]
      · simp [LogicalLine.isSkipped, hc]

/-- The text has the one entry of the line. -/
theorem parse_text (l : Layout raw) (h : raw.IsWritten) :
    Properties.parse (String.ofList l.text) =
      (LogicalLine.entry ⟨1, dropBlanks l.line⟩).map fun entry => Dictionary.ofList [entry] :=
  Properties.parse_line l.indent_blank (l.ne_lineEnd_of_mem_line h) (l.isSkipped_line h)
    (l.continues_line h)

/-- The line is cut into the raw entry that was laid out. -/
theorem ofLine_line (l : Layout raw) (h : raw.IsWritten) : ofLine (dropBlanks l.line) = raw :=
  ofLine_dropBlanks h.key_text h.value_start l.separates

end Layout

namespace Properties

open Escape

/-- **The layout of an entry does not matter.** Its key and its value are read from the raw
entry alone, and an escape that is malformed is told in the same way. -/
theorem parse_layout {raw : RawEntry} (h : raw.IsWritten) (l : Layout raw) :
    parse (String.ofList l.text) =
      match decode raw.key with
      | .error fault => .error ⟨1, none, fault⟩
      | .ok key =>
          match decode raw.value with
          | .error fault => .error ⟨1, some (String.ofList key), fault⟩
          | .ok value => .ok (Dictionary.ofList [(String.ofList key, String.ofList value)]) := by
  rw [l.parse_text h, LogicalLine.entry, l.ofLine_line h]
  cases decode raw.key with
  | error fault => rfl
  | ok key => cases decode raw.value <;> rfl

/-- A key with an escaped equals sign, an escaped blank and an escaped backslash, kept apart
from its value by a colon or by a form feed alone. -/
theorem parse_layout_of_escaped_marks :
    let raw : RawEntry := ⟨"a\\=\\ \\\\".toList, "b=:\\u00e4 \\\\".toList⟩
    let p : Properties := Dictionary.ofList [("a= \\", "b=:ä \\")]
    raw.IsWritten ∧ ∃ marked spaced : Layout raw,
      String.ofList marked.text = " \ta\\=\\ \\\\ :\tb=:\\u00e4 \\\\\r\n" ∧
      String.ofList spaced.text = "a\\=\\ \\\\\x0cb=:\\u00e4 \\\\" ∧
      parse (String.ofList marked.text) = .ok p ∧ parse (String.ofList spaced.text) = .ok p := by
  intro raw p
  have hraw : raw.IsWritten := {
    one_line := by simp [raw]
    key_text := by decide
    key_start := by simp [raw]
    value_start := by simp [raw, isBlank]
    value_end := by decide }
  let marked : Layout raw := {
    indent := " \t".toList
    separator := " :\t".toList
    ending := .returnLineFeed
    indent_blank := by simp [isBlank]
    separates := .mark [' '] ':' ['\t'] (by simp [isBlank]) rfl (by simp [isBlank]) }
  let spaced : Layout raw := {
    indent := []
    separator := ['\x0c']
    ending := .none
    indent_blank := by simp
    separates := .blanks ['\x0c'] (by simp) (by simp [isBlank]) (by simp [raw])
      (by simp [raw, isSeparator]) }
  have hkey : decode raw.key = .ok "a= \\".toList := by decide +kernel
  have hvalue : decode raw.value = .ok "b=:ä \\".toList := by decide +kernel
  refine ⟨hraw, marked, spaced, by decide, by decide, ?_, ?_⟩
  · simp [parse_layout hraw marked, hkey, hvalue, p]
  · simp [parse_layout hraw spaced, hkey, hvalue, p]

end Properties

end PropertyFile
