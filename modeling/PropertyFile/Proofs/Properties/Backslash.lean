import PropertyFile.Properties
import PropertyFile.Proofs.Escape.Checked
import PropertyFile.Proofs.LogicalLine.Cover
import PropertyFile.Proofs.RawEntry.Separator
import PropertyFile.Proofs.Text.Line
import PropertyFile.Proofs.Traversal

/-!
# Backslashes in property files

**Reading a property file drops no backslash and meets no impossible value**:
`parse_raises_no_alarm`. A reader that checks everything (`parseChecked`) raises no alarm
but for the malformed escapes that make a text unreadable anyway.

That no backslash is dropped is a matter of all steps together. A physical line goes on
where its last backslash escapes nothing, also where the text ends, so what it adds to its
entry does not dangle. Nor do such parts when they are joined, and a logical line is cut
into key and value where nothing is escaped (`dangles_ofLine`). What is left of the
backslashes of an entry is then spelled out by its key and its value.
-/

namespace PropertyFile

open PropertyFile.Text PropertyFile.Escape

/-! ### Reading with every check -/

/-- Where and why a reader that checks everything stops. -/
structure Failure where
  /-- The number of the first physical line of the entry. -/
  line : Nat
  /-- The key of the entry, if it could be read. -/
  key : Option String
  alarm : Checked.Alarm
deriving DecidableEq, Repr

/-- What makes a text unreadable is found by the checks as well. -/
def ReadError.failure (e : ReadError) : Failure :=
  ⟨e.line, e.key, .fault e.fault⟩

namespace LogicalLine

/-- The key and the value that a logical line defines. -/
def checkedEntry (l : LogicalLine) : Except Failure (String × String) :=
  let raw := RawEntry.ofLine l.text
  match Checked.decode raw.key with
  | .error alarm => .error ⟨l.number, none, alarm⟩
  | .ok key =>
      match Checked.decode raw.value with
      | .error alarm => .error ⟨l.number, some (String.ofList key), alarm⟩
      | .ok value => .ok (String.ofList key, String.ofList value)

/-- Nothing in the text of a logical line is passed over but blanks and separators between
its raw key and its raw value, and these are spelled out to their ends. -/
structure IsKept (l : LogicalLine) : Prop where
  cut : ∃ separator, l.text = (RawEntry.ofLine l.text).key ++ separator ++
      (RawEntry.ofLine l.text).value ∧
    ∀ c ∈ separator, RawEntry.isSeparator c = true ∨ isBlank c = true
  key_closed : dangles (RawEntry.ofLine l.text).key = false
  value_closed : dangles (RawEntry.ofLine l.text).value = false
  spelled : ∀ key value, l.entry = .ok (key, value) →
    Spells (RawEntry.ofLine l.text).key key.toList ∧
      Spells (RawEntry.ofLine l.text).value value.toList

variable {l : LogicalLine}

/-- A line is kept if its last backslash escapes something. -/
theorem isKept_of_dangles (h : dangles l.text = false) : l.IsKept where
  cut := RawEntry.exists_separator l.text
  key_closed := (RawEntry.dangles_ofLine h).1
  value_closed := (RawEntry.dangles_ofLine h).2
  spelled := by
    intro key value hentry
    obtain ⟨hkey, hvalue⟩ := decode_of_entry hentry
    obtain ⟨hkeyClosed, hvalueClosed⟩ := RawEntry.dangles_ofLine h
    exact ⟨spells_iff.mpr ⟨hkey, hkeyClosed⟩, spells_iff.mpr ⟨hvalue, hvalueClosed⟩⟩

/-- No check but those for malformed escapes fails on a line that is kept. -/
theorem IsKept.checkedEntry_eq (h : l.IsKept) :
    l.checkedEntry = l.entry.mapError ReadError.failure := by
  rw [checkedEntry, Checked.decode_eq, Checked.decode_eq, h.key_closed, h.value_closed]
  cases hkey : decode (RawEntry.ofLine l.text).key with
  | error fault =>
      rw [entry_of_key_error hkey]
      rfl
  | ok key =>
      cases hvalue : decode (RawEntry.ofLine l.text).value with
      | error fault =>
          rw [entry_of_value_error hkey hvalue]
          rfl
      | ok value =>
          rw [entry_of_ok hkey hvalue]
          rfl

/-- Every logical line of a text is kept. -/
theorem isKept_of_mem_ofText {cs : List Char} (h : l ∈ ofText cs) : l.IsKept := by
  obtain ⟨earlier, block, later, -, hmade⟩ := mem_ofText_iff.mp h
  exact isKept_of_dangles hmade.dangles_text

end LogicalLine

namespace Properties

open LogicalLine

/-- Reads the text of a property file. -/
def parseChecked (text : String) : Except Failure Properties :=
  ((ofText text.toList).mapM checkedEntry).map Dictionary.ofList

/-- No alarm is raised but for what makes the text unreadable. -/
theorem parseChecked_eq (text : String) :
    parseChecked text = (parse text).mapError ReadError.failure := by
  have hentries := mapM_mapError fun l (hl : l ∈ ofText text.toList) =>
    (isKept_of_mem_ofText hl).checkedEntry_eq
  rw [parseChecked, parse, hentries]
  cases (ofText text.toList).mapM LogicalLine.entry <;> rfl

/-- **No silent or impossible branch of reading is ever taken.** A reader that stops at a
backslash without anything to escape, at four digits that are no number, at an overflow and
at a code point that is no character gives what reading gives, for every text.

The raw key and the raw value of a logical line never end in a backslash that escapes
nothing, and no backslash is lost. A text is its lines with their ends. A line that is not
skipped as empty or as a comment gives its entry all but the blanks in front and the
backslash by which it goes on. The entry is kept whole: a backslash in its raw key or raw
value is part of a spelling, where it marks an escape or is what is meant.

Of the texts that can be given to be unescaped, only those with a fault and those that
dangle raise an alarm, and two surrogates always make up a code point from U+10000 to
U+10FFFF. -/
theorem parse_raises_no_alarm (text : String) :
    parseChecked text = (parse text).mapError ReadError.failure ∧
    (∀ l ∈ ofText text.toList, l.IsKept) ∧
    (∃ ends : List LineEnd, ends.length = (lines text.toList).length ∧
      text.toList = (List.zipWith (fun line ending => line ++ LineEnd.text ending)
        (lines text.toList) ends).flatten) ∧
    (∀ earlier physical later, lines text.toList = earlier ++ physical :: later →
      (leavesOpen earlier = false ∧ isSkipped (dropBlanks physical) = true) ∨
      ∃ l ∈ ofText text.toList, IsPartOf earlier physical later l ∧
        ∃ indent, (∀ c ∈ indent, isBlank c = true) ∧
          physical = indent ++ part physical ++ if continues physical then ['\\'] else []) ∧
    (∀ (s : Spelling) (before after : List Char), s.text = before ++ '\\' :: after →
      after ≠ [] ∨ s.char = '\\') ∧
    (∀ cs, Checked.decode cs =
      match decode cs with
      | .error fault => .error (.fault fault)
      | .ok out => if dangles cs then .error .dropped else .ok out) ∧
    ∀ high low : UInt32, isHighSurrogate high.toNat = true → isLowSurrogate low.toNat = true →
      ∃ n, Word.combine? high low = some n ∧ n.toNat = pairCodePoint high.toNat low.toNat ∧
        0x10000 ≤ n.toNat ∧ n.toNat ≤ 0x10FFFF := by
  refine ⟨parseChecked_eq text, ?_, exists_lineEnds text.toList, ?_, ?_, ?_, ?_⟩
  · intro l hl
    exact isKept_of_mem_ofText hl
  · intro earlier physical later hlines
    rcases isSkipped_or_exists_isPartOf earlier physical later with hskipped | hpart
    · exact Or.inl hskipped
    · obtain ⟨l, hl⟩ := hpart
      have hmem : l ∈ ofText text.toList := mem_ofText_iff.mpr (hlines ▸ hl.standsIn)
      exact Or.inr ⟨l, hmem, hl, exists_indent physical⟩
  · intro s before after htext
    exact Spelling.eq_backslash_of_text_eq htext
  · intro cs
    rw [Checked.decode_eq]
    cases decode cs <;> rfl
  · intro high low hhigh hlow
    exact Word.exists_combine?_eq_some hhigh hlow

/-- Backslashes of all kinds: two that are meant, one of them at the end of a line, two by
which lines go on, the second where the text ends, one in a comment and one that marks the
code unit of a backslash. -/
theorem parse_raises_no_alarm_of_backslashes :
    let text := "a\\\\=b\\\n  c\\\\\n# \\\nk=\\u005C\\"
    let entry : LogicalLine := ⟨1, "a\\\\=bc\\\\".toList⟩
    parseChecked text = .ok (Dictionary.ofList [("a\\", "bc\\"), ("k", "\\")]) ∧
      entry ∈ ofText text.toList ∧ entry.IsKept ∧
      (∃ l ∈ ofText text.toList, IsPartOf [] "a\\\\=b\\".toList
        ["  c\\\\".toList, "# \\".toList, "k=\\u005C\\".toList] l) ∧
      (Spelling.escaped '\\' (by decide)).char = '\\' ∧
      ∃ n, Word.combine? 0xD83D 0xDE00 = some n ∧ n.toNat = 0x1F600 := by
  intro text entry
  obtain ⟨hchecked, hkept, -, hlines, hspelled, -, hpairs⟩ := parse_raises_no_alarm text
  have hparse : parse text = .ok (Dictionary.ofList [("a\\", "bc\\"), ("k", "\\")]) := by
    decide +kernel
  have hentry : entry ∈ ofText text.toList := by decide +kernel
  refine ⟨?_, hentry, hkept entry hentry, ?_, ?_, ?_⟩
  · rw [hchecked, hparse]
    rfl
  · have hfirst : lines text.toList = [] ++ "a\\\\=b\\".toList ::
        ["  c\\\\".toList, "# \\".toList, "k=\\u005C\\".toList] := by
      decide +kernel
    rcases hlines _ _ _ hfirst with hskipped | hpart
    · exact absurd hskipped.2 (by decide +kernel)
    · obtain ⟨l, hmem, hl, -⟩ := hpart
      exact ⟨l, hmem, hl⟩
  · exact (hspelled _ ['\\'] [] rfl).resolve_left (by simp)
  · obtain ⟨n, hn, hvalue, -⟩ := hpairs 0xD83D 0xDE00 (by decide) (by decide)
    exact ⟨n, hn, hvalue⟩

end Properties

end PropertyFile
