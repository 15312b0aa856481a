import PropertyFile.Proofs.Dictionary.Merge
import PropertyFile.Proofs.LogicalLine.Text
import PropertyFile.Proofs.Properties.Rejection

/-!
# The empty key

**Where the empty key comes from**: `contains_empty_key_iff`. A logical line defines it
if it starts with a separator, or if nothing at all is left of the line.

The second is not what one expects of a blank line. Only a physical line can be skipped
as blank, and one that holds a backslash by which it goes on is not: it opens an entry
even where nothing but blank lines follow (`blank_line_defines_empty_key`).
-/

namespace PropertyFile

open PropertyFile.Text PropertyFile.Escape

/-! ### Raw keys without any character -/

namespace RawEntry

/-- A key ends before it starts at the end of the line, at a separator or a blank. -/
theorem key_ofLine_eq_nil_iff {cs : List Char} :
    (ofLine cs).key = [] ↔
      cs = [] ∨ ∃ c rest, cs = c :: rest ∧ (isSeparator c = true ∨ isBlank c = true) := by
  show (cutKey cs).1 = [] ↔ _
  fun_cases cutKey cs with
  | case1 => simp
  | case2 c cs => simp [isSeparator, isBlank]
  | case3 c cs hpair hends => simpa using hends
  | case4 c cs hpair hgoes => simpa using hgoes

/-- A raw key that is a single backslash is the whole line. -/
theorem eq_of_key_ofLine_eq_backslash {cs : List Char} :
    (ofLine cs).key = ['\\'] → cs = ['\\'] := by
  show (cutKey cs).1 = ['\\'] → _
  fun_cases cutKey cs with
  | case1 => simp
  | case2 c cs => simp
  | case3 c cs hpair hends => simp
  | case4 c cs hpair hgoes key rest hcut =>
      intro h
      obtain ⟨rfl, -⟩ := List.cons.inj h
      cases cs with
      | nil => rfl
      | cons d ds => exact absurd rfl (hpair d ds rfl)

end RawEntry

/-- Only nothing, or a backslash that escapes nothing, is read as nothing. -/
theorem Escape.decode_eq_ok_nil_iff {cs : List Char} :
    decode cs = .ok [] ↔ cs = [] ∨ cs = ['\\'] := by
  have hmap (c : Char) (r : Except Fault (List Char)) : r.map (c :: ·) ≠ .ok [] := by
    cases r <;> simp [Except.map]
  fun_cases decode cs with
  | case1 => simp
  | case2 => simp
  | case3 cs fault hread => simp
  | case4 cs c rest hread => simp [hmap]
  | case5 c cs hc => simp [hmap]
  | case6 c cs hlast hunit hpair =>
      have hback : c :: cs ≠ ['\\'] := fun heq =>
        hlast (List.cons.inj heq).1 (List.cons.inj heq).2
      simp [hmap, hback]

namespace LogicalLine

/-- Where nothing is left of the line, or it starts with a separator, its key is empty. -/
theorem IsMadeOf.key_eq_empty_iff {l : LogicalLine} {earlier block later : List (List Char)}
    (hmade : IsMadeOf l earlier block later) {key value : String}
    (hentry : l.entry = .ok (key, value)) :
    key = "" ↔ l.text = [] ∨ ∃ c rest, l.text = c :: rest ∧ RawEntry.isSeparator c = true := by
  have hback : l.text ≠ ['\\'] := by
    intro htext
    have hclosed := hmade.dangles_text
    simp [htext] at hclosed
  have hstart : ∀ c rest, l.text = c :: rest → isBlank c = false :=
    fun c rest htext => hmade.isBlank_of_text htext
  have hempty : key = "" ↔ decode (RawEntry.ofLine l.text).key = .ok [] := by
    rw [(decode_of_entry hentry).1, Except.ok.injEq, String.toList_eq_nil_iff]
  rw [hempty, decode_eq_ok_nil_iff, RawEntry.key_ofLine_eq_nil_iff,
    or_iff_left fun h => hback (RawEntry.eq_of_key_ofLine_eq_backslash h)]
  refine or_congr_right ⟨?_, ?_⟩
  · rintro ⟨c, rest, htext, hc | hc⟩
    · exact ⟨c, rest, htext, hc⟩
    · exact absurd (hstart c rest htext) (by simp [hc])
  · rintro ⟨c, rest, htext, hc⟩
    exact ⟨c, rest, htext, Or.inl hc⟩

end LogicalLine

namespace Properties

open LogicalLine

variable {text : String} {p : Properties}

/-- The keys are those that the logical lines define. -/
theorem contains_iff_of_parse_eq_ok (h : parse text = .ok p) (key : String) :
    p.contains key = true ↔ ∃ l ∈ ofText text.toList, ∃ value, l.entry = .ok (key, value) := by
  obtain ⟨entries, hread, rfl⟩ := parse_eq_ok_iff.mp h
  rw [Dictionary.contains_iff, Dictionary.ofList, Dictionary.keys_insertMany,
    Dictionary.keys_empty, List.nil_append, List.mem_eraseDups, List.mem_map]
  constructor
  · rintro ⟨⟨key, value⟩, hmem, rfl⟩
    obtain ⟨l, hl, hentry⟩ := (mem_iff_of_mapM_eq_ok hread).mp hmem
    exact ⟨l, hl, value, hentry⟩
  · rintro ⟨l, hl, value, hentry⟩
    exact ⟨(key, value), (mem_iff_of_mapM_eq_ok hread).mpr ⟨l, hl, hentry⟩, rfl⟩

/-- **The empty key is defined by the lines that start with a separator, and by those of
which nothing is left.** A line of the second kind is made of physical lines that hold
nothing but blanks and backslashes by which they go on. -/
theorem contains_empty_key_iff (h : parse text = .ok p) :
    p.contains "" = true ↔
      ∃ l earlier block later, lines text.toList = earlier ++ block ++ later ∧
        IsMadeOf l earlier block later ∧
        ((∀ physical ∈ block, dropBlanks physical = [] ∨ dropBlanks physical = ['\\']) ∨
          ∃ c rest, l.text = c :: rest ∧ RawEntry.isSeparator c = true) := by
  rw [contains_iff_of_parse_eq_ok h]
  constructor
  · rintro ⟨l, hl, value, hentry⟩
    obtain ⟨earlier, block, later, hlines, hmade⟩ := mem_ofText_iff.mp hl
    refine ⟨l, earlier, block, later, hlines, hmade, ?_⟩
    rw [← hmade.text_eq_nil_iff, ← hmade.key_eq_empty_iff hentry]
  · rintro ⟨l, earlier, block, later, hlines, hmade, hempty⟩
    have hl : l.StandsIn (lines text.toList) := ⟨earlier, block, later, hlines, hmade⟩
    obtain ⟨⟨key, value⟩, hentry⟩ := entry_eq_ok_iff.mpr (not_isMalformed_of_parse_eq_ok h hl)
    rw [← hmade.text_eq_nil_iff, ← hmade.key_eq_empty_iff hentry] at hempty
    exact ⟨l, mem_ofText_iff.mpr hl, value, hempty ▸ hentry⟩

/-- A line of which only blanks are left stands at the end of a text as well. -/
theorem contains_empty_key_of_last_line :
    let p := Dictionary.ofList [("a", "1"), ("", "")]
    parse "a=1\n\t\\\n \\" = .ok p ∧
      ∃ l earlier block later, lines "a=1\n\t\\\n \\".toList = earlier ++ block ++ later ∧
        IsMadeOf l earlier block later ∧
        ((∀ physical ∈ block, dropBlanks physical = [] ∨ dropBlanks physical = ['\\']) ∨
          ∃ c rest, l.text = c :: rest ∧ RawEntry.isSeparator c = true) := by
  intro p
  have hparse : parse "a=1\n\t\\\n \\" = .ok p := by decide +kernel
  exact ⟨hparse, (contains_empty_key_iff hparse).mp (by decide +kernel)⟩

/-- A blank line behind a line that holds only a backslash makes up an entry, although
no logical line starts with a separator. -/
theorem blank_line_defines_empty_key :
    let text := "a=1\n  \\\n\nb=2\n"
    (∃ p, parse text = .ok p ∧ p.contains "" = true) ∧
      ∀ l : LogicalLine, l.StandsIn (lines text.toList) →
        ¬ ∃ c rest, l.text = c :: rest ∧ RawEntry.isSeparator c = true := by
  intro text
  have hparse : parse text = .ok (Dictionary.ofList [("a", "1"), ("", ""), ("b", "2")]) := by
    decide +kernel
  have htexts : (ofText text.toList).map LogicalLine.text =
      [['a', '=', '1'], [], ['b', '=', '2']] := by
    decide +kernel
  refine ⟨⟨_, hparse, by decide +kernel⟩, fun l hl => ?_⟩
  have hmem : l.text ∈ [['a', '=', '1'], [], ['b', '=', '2']] :=
    htexts ▸ List.mem_map_of_mem (mem_ofText_iff.mpr hl)
  rintro ⟨c, rest, htext, hc⟩
  rw [htext] at hmem
  simp only [List.mem_cons, List.cons.injEq, List.not_mem_nil, reduceCtorEq, or_false,
    false_or] at hmem
  rcases hmem with ⟨rfl, -⟩ | ⟨rfl, -⟩ <;> simp [RawEntry.isSeparator] at hc

end Properties

end PropertyFile
