import PropertyFile.Proofs.Escape.Dangling
import PropertyFile.Properties

/-!
# Writing and reading properties

**What is written is read back**: `parse_render` says that the text of any
properties is a property file with these entries, in this order.

A written entry passes through all stages of reading, and each stage has one
reason not to change it. No character of a line end is written as it is, so the
text falls into one physical line for each entry. A line starts with no blank
and no comment mark, and it does not dangle, so it is a logical line by itself.
In a key every separator and every blank is escaped, so the key ends at the `=`
that was written after it. What is then left is `decode_encodeKey` and
`decode_encodeValue`.
-/

namespace PropertyFile

open PropertyFile.Text

namespace Escape

/-! ### Written characters -/

/-- A character is written after a backslash or as it is, and what is written is
no line end. -/
theorem encodeChar_cases (marked : Char → Bool) (c : Char) :
    (∃ d, encodeChar marked c = ['\\', d] ∧ d ≠ '\n' ∧ d ≠ '\r') ∨
      (encodeChar marked c = [c] ∧ marked c = false ∧
        c ≠ '\\' ∧ c ≠ '\t' ∧ c ≠ '\n' ∧ c ≠ '\r' ∧ c ≠ '\x0c') := by
  unfold encodeChar
  split
  · exact Or.inl ⟨_, rfl, by decide, by decide⟩
  · exact Or.inl ⟨_, rfl, by decide, by decide⟩
  · exact Or.inl ⟨_, rfl, by decide, by decide⟩
  · exact Or.inl ⟨_, rfl, by decide, by decide⟩
  · exact Or.inl ⟨_, rfl, by decide, by decide⟩
  -- No character of a short escape, so only the mark decides.
  · next hback htab hline hreturn hform =>
      cases hm : marked c with
      | true => exact Or.inl ⟨c, by simp, hline, hreturn⟩
      | false => exact Or.inr ⟨by simp, rfl, hback, htab, hline, hreturn, hform⟩

theorem ne_lineEnd_of_mem_encodeChar {marked : Char → Bool} {c d : Char}
    (h : d ∈ encodeChar marked c) : d ≠ '\n' ∧ d ≠ '\r' := by
  rcases encodeChar_cases marked c with ⟨e, heq, hn, hr⟩ | ⟨heq, -, -, -, hn, hr, -⟩
  · rw [heq, List.mem_cons, List.mem_singleton] at h
    rcases h with rfl | rfl
    · exact ⟨by decide, by decide⟩
    · exact ⟨hn, hr⟩
  · rw [heq, List.mem_singleton] at h
    subst h
    exact ⟨hn, hr⟩

theorem dangles_encodeChar (marked : Char → Bool) (c : Char) :
    dangles (encodeChar marked c) = false := by
  rcases encodeChar_cases marked c with ⟨e, heq, -⟩ | ⟨heq, -, hback, -⟩
  · rw [heq, dangles_escaped, dangles_nil]
  · rw [heq, dangles_plain hback, dangles_nil]

theorem dangles_flatMap_encodeChar (marked : Char → Bool) (cs : List Char) :
    dangles (cs.flatMap (encodeChar marked)) = false := by
  induction cs with
  | nil => rfl
  | cons c cs ih =>
      rw [List.flatMap_cons, dangles_append (dangles_encodeChar marked c)]
      exact ih

/-! ### Written keys and values -/

/-- What is written for a key or a value comes from written characters. -/
theorem ne_lineEnd_of_mem_encodeKey {cs : List Char} {d : Char} (h : d ∈ encodeKey cs) :
    d ≠ '\n' ∧ d ≠ '\r' := by
  obtain ⟨c, -, hd⟩ := List.mem_flatMap.mp h
  exact ne_lineEnd_of_mem_encodeChar hd

theorem ne_lineEnd_of_mem_encodeValue {cs : List Char} {d : Char} (h : d ∈ encodeValue cs) :
    d ≠ '\n' ∧ d ≠ '\r' := by
  cases cs with
  | nil => simp [encodeValue] at h
  | cons c cs =>
      rcases List.mem_append.mp h with h | h
      · exact ne_lineEnd_of_mem_encodeChar h
      · obtain ⟨e, -, hd⟩ := List.mem_flatMap.mp h
        exact ne_lineEnd_of_mem_encodeChar hd

theorem dangles_encodeKey (cs : List Char) : dangles (encodeKey cs) = false :=
  dangles_flatMap_encodeChar isKeyMark cs

theorem dangles_encodeValue (cs : List Char) : dangles (encodeValue cs) = false := by
  cases cs with
  | nil => rfl
  | cons c cs =>
      rw [encodeValue, dangles_append (dangles_encodeChar _ c)]
      exact dangles_flatMap_encodeChar _ cs

theorem dropBlanks_encodeValue (cs : List Char) :
    dropBlanks (encodeValue cs) = encodeValue cs := by
  cases cs with
  | nil => rfl
  | cons c cs =>
      rcases encodeChar_cases (· == ' ') c with ⟨d, heq, -⟩ | ⟨heq, hspace, -, htab, -, -, hform⟩
      · rw [encodeValue, heq, List.cons_append, dropBlanks_cons, if_neg (by decide)]
      · have hblank : isBlank c = false := by
          simpa [isBlank, htab, hform] using hspace
        rw [encodeValue, heq, List.cons_append, dropBlanks_cons, hblank]
        rfl

end Escape

namespace RawEntry

open Escape

/-! ### Where a written key ends -/

/-- A written character of a key does not end the key. -/
theorem cutKey_encodeChar (c : Char) (rest : List Char) :
    cutKey (encodeChar isKeyMark c ++ rest) =
      (encodeChar isKeyMark c ++ (cutKey rest).1, (cutKey rest).2) := by
  rcases encodeChar_cases isKeyMark c with ⟨d, heq, -⟩ | ⟨heq, hmark, hback, htab, -, -, hform⟩
  -- `cutKey` passes over the backslash and the character after it in one step.
  · rw [heq]
    rfl
  · have hends : (isSeparator c || isBlank c) = false := by
      simp only [isKeyMark, Bool.or_eq_false_iff] at hmark
      simp [isSeparator, isBlank, hmark, htab, hform]
    rw [heq, List.singleton_append, cutKey, hends]
    · rfl
    · exact fun _ _ h _ => absurd h hback

theorem cutKey_encodeKey (key rest : List Char) :
    cutKey (encodeKey key ++ '=' :: rest) = (encodeKey key, '=' :: rest) := by
  induction key with
  | nil => rfl
  | cons c key ih =>
      have hcons : encodeKey (c :: key) = encodeChar isKeyMark c ++ encodeKey key := rfl
      rw [hcons, List.append_assoc, cutKey_encodeChar, ih]

/-- The line of an entry as it is written, without its end. -/
def writtenLine (key value : List Char) : List Char :=
  encodeKey key ++ '=' :: encodeValue value

theorem ofLine_writtenLine (key value : List Char) :
    ofLine (writtenLine key value) = ⟨encodeKey key, encodeValue value⟩ := by
  have hseparator : dropSeparator ('=' :: encodeValue value) = encodeValue value := by
    have hhead : dropBlanks ('=' :: encodeValue value) = '=' :: encodeValue value := rfl
    simp [dropSeparator, hhead, isSeparator, dropBlanks_encodeValue]
  simp [ofLine, writtenLine, cutKey_encodeKey, hseparator]

/-- A written line starts with no blank and with no comment mark. -/
theorem writtenLine_head (key value : List Char) :
    ∃ c rest, writtenLine key value = c :: rest ∧ isBlank c = false ∧ c ≠ '#' ∧ c ≠ '!' := by
  cases key with
  -- The line of the empty key starts with its separator.
  | nil => exact ⟨'=', encodeValue value, rfl, by decide, by decide, by decide⟩
  | cons c key =>
      have hcons : writtenLine (c :: key) value =
          encodeChar isKeyMark c ++ writtenLine key value := by
        simp [writtenLine, encodeKey]
      rcases encodeChar_cases isKeyMark c with ⟨d, heq, -⟩ | ⟨heq, hmark, -, htab, -, -, hform⟩
      · exact ⟨'\\', d :: writtenLine key value, by rw [hcons, heq]; rfl,
          by decide, by decide, by decide⟩
      · refine ⟨c, writtenLine key value, by rw [hcons, heq]; rfl, ?_⟩
        simp only [isKeyMark, Bool.or_eq_false_iff, beq_eq_false_iff_ne] at hmark
        obtain ⟨⟨⟨⟨hspace, -⟩, -⟩, hhash⟩, hbang⟩ := hmark
        exact ⟨by simp [isBlank, hspace, htab, hform], hhash, hbang⟩

theorem dropBlanks_writtenLine (key value : List Char) :
    dropBlanks (writtenLine key value) = writtenLine key value := by
  obtain ⟨c, rest, heq, hblank, -⟩ := writtenLine_head key value
  rw [heq, dropBlanks_cons, hblank]
  rfl

theorem isSkipped_writtenLine (key value : List Char) :
    LogicalLine.isSkipped (writtenLine key value) = false := by
  obtain ⟨c, rest, heq, -, hhash, hbang⟩ := writtenLine_head key value
  simp [heq, LogicalLine.isSkipped, hhash, hbang]

theorem continues_writtenLine (key value : List Char) :
    LogicalLine.continues (writtenLine key value) = false := by
  rw [LogicalLine.continues_eq_dangles, writtenLine, dangles_append (dangles_encodeKey key),
    dangles_plain (by decide)]
  exact dangles_encodeValue value

theorem ne_lineEnd_of_mem_writtenLine {key value : List Char} {c : Char}
    (h : c ∈ writtenLine key value) : c ≠ '\n' ∧ c ≠ '\r' := by
  rcases List.mem_append.mp h with h | h
  · exact ne_lineEnd_of_mem_encodeKey h
  · rcases List.mem_cons.mp h with rfl | h
    · exact ⟨by decide, by decide⟩
    · exact ne_lineEnd_of_mem_encodeValue h

end RawEntry

namespace Properties

open RawEntry

/-! ### From the lines back to the entries -/

/-- The line of an entry. -/
def entryLine (entry : String × String) : List Char :=
  writtenLine entry.1.toList entry.2.toList

/-- Each entry is a physical line of its own. -/
theorem lines_flatMap_renderEntry (entries : List (String × String)) :
    lines (entries.flatMap fun entry => renderEntry entry.1 entry.2) =
      entries.map entryLine := by
  induction entries with
  | nil => exact lines_nil
  | cons entry entries ih =>
      have hn : '\n' ∉ entryLine entry := fun h => (ne_lineEnd_of_mem_writtenLine h).1 rfl
      have hr : '\r' ∉ entryLine entry := fun h => (ne_lineEnd_of_mem_writtenLine h).2 rfl
      have hentry : renderEntry entry.1 entry.2 = entryLine entry ++ ['\n'] := rfl
      rw [List.flatMap_cons, hentry, List.append_assoc, List.singleton_append,
        lines_append_lineFeed hn hr, ih, List.map_cons]

/-- A line that was written for an entry is read as this entry, whatever its number. -/
theorem entry_entryLine (number : Nat) (entry : String × String) :
    LogicalLine.entry ⟨number, entryLine entry⟩ = .ok entry := by
  simp [LogicalLine.entry, entryLine, ofLine_writtenLine, Escape.decode_encodeKey,
    Escape.decode_encodeValue]

/-- The line of an entry is a logical line, and the next one starts after it. -/
theorem collect_entryLine (number : Nat) (entry : String × String) (rest : List (List Char)) :
    LogicalLine.collect number none (entryLine entry :: rest) =
      ⟨number, entryLine entry⟩ :: LogicalLine.collect (number + 1) none rest := by
  have hdrop : dropBlanks (entryLine entry) = entryLine entry := dropBlanks_writtenLine _ _
  rw [LogicalLine.collect_opened (by rw [hdrop]; exact isSkipped_writtenLine _ _),
    LogicalLine.collect_closed (by rw [hdrop]; exact continues_writtenLine _ _), hdrop]
  rfl

/-- The lines of entries are read as these entries, wherever they stand. -/
theorem mapM_entry_collect (number : Nat) (entries : List (String × String)) :
    (LogicalLine.collect number none (entries.map entryLine)).mapM LogicalLine.entry =
      .ok entries := by
  induction entries generalizing number with
  | nil => rfl
  | cons entry entries ih =>
      rw [List.map_cons, collect_entryLine, List.mapM_cons, entry_entryLine, ih]
      rfl

/-- Lines written for any list of entries are read as what the list builds up. -/
theorem parse_flatMap_renderEntry (entries : List (String × String)) :
    parse (String.ofList (entries.flatMap fun entry => renderEntry entry.1 entry.2)) =
      .ok (Dictionary.ofList entries) := by
  rw [parse, LogicalLine.ofText, String.toList_ofList, lines_flatMap_renderEntry,
    mapM_entry_collect]
  rfl

/-- **Reading undoes writing.** The text of any properties is a property file
with the same entries in the same order. -/
theorem parse_render (p : Properties) : parse p.render = .ok p := by
  have hlines : LogicalLine.ofText p.render.toList =
      LogicalLine.collect 1 none (p.entries.map entryLine) := by
    rw [LogicalLine.ofText, render, String.toList_ofList, lines_flatMap_renderEntry]
  calc parse p.render
      = (Except.ok p.entries).map Dictionary.ofList := by
        rw [parse, hlines, mapM_entry_collect]
    _ = .ok p := congrArg Except.ok (Dictionary.ofList_entries p)

end Properties

end PropertyFile
