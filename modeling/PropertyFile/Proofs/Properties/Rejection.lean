import PropertyFile.Properties
import PropertyFile.Proofs.Escape.Token
import PropertyFile.Proofs.LogicalLine.Layout
import PropertyFile.Proofs.Traversal

/-!
# Property files that cannot be read

**A text is rejected for its malformed escapes and for nothing else**, and the first
line that holds one is blamed: `parse_rejects_malformed`.

Reading goes line by line and stops at the first that fails (`mapM_eq_error_iff`).
A line fails if its key or its value cannot be decoded, and by `decode_eq_error_iff`
that depends on the tokens of the raw texts alone. The number in the error is that
of the line, and `StandsIn` says what this number counts.
-/

namespace PropertyFile

open PropertyFile.Text PropertyFile.Escape

namespace LogicalLine

/-- The key or the value of the line holds a malformed escape. -/
def IsMalformed (l : LogicalLine) : Prop :=
  Malformed (tokens (RawEntry.ofLine l.text).key) ∨
    Malformed (tokens (RawEntry.ofLine l.text).value)

/-- The error blames the line: it is told with the number of the line, without a key
where the key is malformed, and with the decoded key where only the value is. -/
structure IsBlamedBy (l : LogicalLine) (e : ReadError) : Prop where
  kind : e.diagnostic.kind = .parse
  location : e.diagnostic.location = some ⟨Diagnostic.anonymousFile, some l.number⟩
  key : (Malformed (tokens (RawEntry.ofLine l.text).key) ∧ e.diagnostic.key = none) ∨
    (¬ Malformed (tokens (RawEntry.ofLine l.text).key) ∧
      Malformed (tokens (RawEntry.ofLine l.text).value) ∧
      ∃ key, decode (RawEntry.ofLine l.text).key = .ok key ∧
        e.diagnostic.key = some (String.ofList key))

theorem entry_eq_ok_iff {l : LogicalLine} : (∃ entry, l.entry = .ok entry) ↔ ¬ l.IsMalformed := by
  unfold IsMalformed
  rw [← decode_eq_error_iff, ← decode_eq_error_iff]
  cases hkey : decode (RawEntry.ofLine l.text).key with
  | error fault => simp [entry_of_key_error hkey]
  | ok key =>
      cases hvalue : decode (RawEntry.ofLine l.text).value with
      | error fault => simp [entry_of_value_error hkey hvalue]
      | ok value => simp [entry_of_ok hkey hvalue]

/-- A line that cannot be read is malformed, and its error blames it. -/
theorem isBlamedBy_of_entry_eq_error {l : LogicalLine} {e : ReadError} (h : l.entry = .error e) :
    l.IsMalformed ∧ l.IsBlamedBy e := by
  cases hkey : decode (RawEntry.ofLine l.text).key with
  | error fault =>
      have hmalformed := (decode_eq_error_iff _).mp ⟨fault, hkey⟩
      obtain rfl : (⟨l.number, none, fault⟩ : ReadError) = e := by
        simpa [entry_of_key_error hkey] using h
      exact ⟨Or.inl hmalformed, rfl, rfl, Or.inl ⟨hmalformed, rfl⟩⟩
  | ok key =>
      have hwell : ¬ Malformed (tokens (RawEntry.ofLine l.text).key) := by
        rw [← decode_eq_error_iff]
        simp [hkey]
      cases hvalue : decode (RawEntry.ofLine l.text).value with
      | error fault =>
          have hmalformed := (decode_eq_error_iff _).mp ⟨fault, hvalue⟩
          obtain rfl : (⟨l.number, some (String.ofList key), fault⟩ : ReadError) = e := by
            simpa [entry_of_value_error hkey hvalue] using h
          exact ⟨Or.inr hmalformed, rfl, rfl, Or.inr ⟨hwell, hmalformed, key, hkey, rfl⟩⟩
      | ok value => simp [entry_of_ok hkey hvalue] at h

end LogicalLine

namespace Properties

open LogicalLine

/-- The line that is blamed is the first that is malformed. -/
theorem exists_isBlamedBy {text : String} {e : ReadError} (h : parse text = .error e) :
    ∃ l : LogicalLine, l.StandsIn (lines text.toList) ∧ l.IsMalformed ∧ l.IsBlamedBy e ∧
      ∀ k : LogicalLine, k.StandsIn (lines text.toList) → k.IsMalformed →
        l.number ≤ k.number := by
  obtain ⟨before, l, after, hlines, hbefore, hl⟩ :=
    mapM_eq_error_iff.mp (parse_eq_error_iff.mp h)
  obtain ⟨hmalformed, hblamed⟩ := isBlamedBy_of_entry_eq_error hl
  have hmem : l ∈ ofText text.toList := by
    rw [hlines]
    exact List.mem_append_right before List.mem_cons_self
  refine ⟨l, mem_ofText_iff.mp hmem, hmalformed, hblamed, fun k hk hkm => ?_⟩
  rw [← mem_ofText_iff, hlines, List.mem_append] at hk
  rcases hk with hk | hk
  -- The lines in front could be read.
  · exact absurd hkm (entry_eq_ok_iff.mp (hbefore k hk))
  · have hsorted := pairwise_ofText text.toList
    rw [hlines, List.pairwise_append, List.pairwise_cons] at hsorted
    rcases List.mem_cons.mp hk with rfl | hk
    · exact Nat.le_refl _
    · exact Nat.le_of_lt (hsorted.2.1.1 k hk)

theorem not_isMalformed_of_parse_eq_ok {text : String} {p : Properties} (h : parse text = .ok p)
    {l : LogicalLine} (hl : l.StandsIn (lines text.toList)) : ¬ l.IsMalformed := by
  obtain ⟨entries, hread, -⟩ := parse_eq_ok_iff.mp h
  exact entry_eq_ok_iff.mp (exists_mapM_eq_ok_iff.mp ⟨entries, hread⟩ l (mem_ofText_iff.mpr hl))

/-- **A text is rejected exactly for its malformed escapes.** The error blames the
first logical line that holds one: every other such line starts further down. -/
theorem parse_rejects_malformed (text : String) :
    ((∃ e, parse text = .error e) ↔
      ∃ l : LogicalLine, l.StandsIn (lines text.toList) ∧ l.IsMalformed) ∧
    ∀ e, parse text = .error e →
      ∃ l : LogicalLine, l.StandsIn (lines text.toList) ∧ l.IsMalformed ∧ l.IsBlamedBy e ∧
        ∀ k : LogicalLine, k.StandsIn (lines text.toList) → k.IsMalformed →
          l.number ≤ k.number := by
  refine ⟨⟨?_, ?_⟩, fun e he => exists_isBlamedBy he⟩
  · rintro ⟨e, he⟩
    obtain ⟨l, hl, hmalformed, -⟩ := exists_isBlamedBy he
    exact ⟨l, hl, hmalformed⟩
  · rintro ⟨l, hl, hmalformed⟩
    cases h : parse text with
    | error e => exact ⟨e, rfl⟩
    | ok p => exact absurd hmalformed (not_isMalformed_of_parse_eq_ok h hl)

/-- A file with two malformed values, of which the first stands in its third and
fourth physical lines. -/
def unreadable : String := "# note \\\n\n key \\\n  = \\uD83D\\u0041\nlast=\\u12"

theorem parse_unreadable :
    parse unreadable = .error ⟨3, some "key", .unpaired 0xD83D⟩ ∧
    ∃ l : LogicalLine, l.StandsIn (lines unreadable.toList) ∧ l.IsMalformed ∧
      l.IsBlamedBy ⟨3, some "key", .unpaired 0xD83D⟩ ∧
      ∀ k : LogicalLine, k.StandsIn (lines unreadable.toList) → k.IsMalformed →
        l.number ≤ k.number := by
  have h : parse unreadable = .error ⟨3, some "key", .unpaired 0xD83D⟩ := by decide +kernel
  exact ⟨h, (parse_rejects_malformed unreadable).2 _ h⟩

end Properties

end PropertyFile
