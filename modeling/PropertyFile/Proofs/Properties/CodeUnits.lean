import PropertyFile.Proofs.Escape.CodeUnit
import PropertyFile.Proofs.Properties.Layout

/-!
# Entries written as code units

**An entry can be written with nothing but escapes**: `escaped_units_are_utf16`. Its line
holds the code units of its key, an equals sign and those of its value. It is read exactly
if both sequences are UTF-16. No character that is written in this way acts on the line:
a separator, a blank or a line end among the units is part of the key or of the value.

Escapes are such that the line is cut at the equals sign (`isWritten_escapes`), so the key
and the value are read apart, and `decode_escapes` says what becomes of each. A high
surrogate at the end of the key does not find its partner at the start of the value.
-/

namespace PropertyFile

open PropertyFile.Text PropertyFile.Escape PropertyFile.RawEntry

/-- Characters that mean nothing to a line lengthen a raw key. -/
theorem RawEntry.isKeyText_append {cs : List Char}
    (h : ∀ c ∈ cs, c ≠ '\\' ∧ isSeparator c = false ∧ isBlank c = false) (rest : List Char) :
    isKeyText (cs ++ rest) = isKeyText rest := by
  induction cs with
  | nil => rfl
  | cons c cs ih =>
      obtain ⟨hback, hsep, hblank⟩ := h c List.mem_cons_self
      rw [List.cons_append, isKeyText_plain hback, hsep, hblank,
        ih fun d hd => h d (List.mem_cons_of_mem c hd)]
      rfl

theorem isKeyText_escapes (es : List UnitEscape) : isKeyText (escapes es) = true := by
  induction es with
  | nil => exact isKeyText_nil
  | cons e es ih =>
      show isKeyText ('\\' :: 'u' :: (e.digits ++ escapes es)) = true
      rw [isKeyText_escaped, isKeyText_append fun c hc =>
        have hplain := UnitEscape.plain_of_mem_digits hc
        ⟨hplain.1, hplain.2.1, hplain.2.2.1⟩]
      exact ih

theorem ne_lineEnd_of_mem_escapes {es : List UnitEscape} {c : Char} (h : c ∈ escapes es) :
    c ≠ '\n' ∧ c ≠ '\r' := by
  obtain ⟨e, -, hc⟩ := List.mem_flatMap.mp h
  simp only [UnitEscape.text, List.mem_cons] at hc
  rcases hc with rfl | rfl | hc
  · exact ⟨by decide, by decide⟩
  · exact ⟨by decide, by decide⟩
  · exact (UnitEscape.plain_of_mem_digits hc).2.2.2

/-- Escapes start with a backslash. -/
theorem eq_of_mem_head?_escapes {es : List UnitEscape} {c : Char}
    (h : c ∈ (escapes es).head?) : c = '\\' := by
  cases es with
  | nil => cases h
  | cons e es => exact (Option.some.inj h).symm

/-- Escapes can be a key, and they can be a value. -/
theorem isWritten_escapes (key value : List UnitEscape) :
    RawEntry.IsWritten ⟨escapes key, escapes value⟩ where
  one_line := by
    intro c hc
    rcases List.mem_append.mp hc with hc | hc
    · exact ne_lineEnd_of_mem_escapes hc
    · exact ne_lineEnd_of_mem_escapes hc
  key_text := isKeyText_escapes key
  key_start := by
    intro c hc
    rw [eq_of_mem_head?_escapes hc]
    decide
  value_start := by
    intro c hc
    rw [eq_of_mem_head?_escapes hc]
    rfl
  value_end := by
    rw [LogicalLine.continues_eq_dangles]
    exact dangles_of_isKeyText (isKeyText_escapes value)

namespace Properties

/-- The line of an entry whose key and value are written as code units. -/
def unitLine (key value : List UnitEscape) (ending : LineEnd) : String :=
  String.ofList (escapes key ++ '=' :: escapes value ++ ending.text)

/-- The key is read first, and then the value. -/
theorem parse_unitLine (key value : List UnitEscape) (ending : LineEnd) :
    parse (unitLine key value ending) =
      match readUtf16 (key.map UnitEscape.unit) with
      | .error unit => .error ⟨1, none, unpairedUnit unit⟩
      | .ok k =>
          match readUtf16 (value.map UnitEscape.unit) with
          | .error unit => .error ⟨1, some (String.ofList k), unpairedUnit unit⟩
          | .ok v => .ok (Dictionary.ofList [(String.ofList k, String.ofList v)]) := by
  let layout : Layout ⟨escapes key, escapes value⟩ := {
    indent := []
    separator := ['=']
    ending
    indent_blank := by simp
    separates := .mark [] '=' [] (by simp) rfl (by simp) }
  have hraw := isWritten_escapes key value
  have htext : unitLine key value ending = String.ofList layout.text := by
    simp [unitLine, Layout.text, Layout.line, layout]
  rw [htext, layout.parse_text hraw, LogicalLine.entry, layout.ofLine_line hraw]
  simp only [decode_escapes]
  cases readUtf16 (key.map UnitEscape.unit) with
  | error unit => rfl
  | ok k => cases readUtf16 (value.map UnitEscape.unit) <;> rfl

/-- What is told of a surrogate without its partner. -/
def unpairedText (unit : UInt16) : String :=
  "Unpaired surrogate " ++ String.ofList (UnitEscape.upper unit).text

theorem message_unpairedUnit (unit : UInt16) :
    (unpairedUnit unit).message = unpairedText unit := by
  have hjoin (ds : List Char) : "Unpaired surrogate \\u" ++ String.ofList ds =
      "Unpaired surrogate " ++ String.ofList ('\\' :: 'u' :: ds) := by
    apply String.toList_inj.mp
    simp
  calc (unpairedUnit unit).message
      = "Unpaired surrogate \\u" ++ String.ofList (HexCase.upper.padded 4 unit.toNat) := rfl
    _ = unpairedText unit := by
        rw [hjoin, ← UnitEscape.digits_upper]
        rfl

/-! ### Which lines are read -/

variable {key value : List UnitEscape} {ending : LineEnd}

theorem parse_unitLine_of_utf16 {k v : List Char} (hkey : key.map UnitEscape.unit = utf16 k)
    (hvalue : value.map UnitEscape.unit = utf16 v) :
    parse (unitLine key value ending) =
      .ok (Dictionary.ofList [(String.ofList k, String.ofList v)]) := by
  rw [parse_unitLine, hkey, hvalue, readUtf16_utf16, readUtf16_utf16]

/-- Where the key is not UTF-16, the value does not matter. -/
theorem parse_unitLine_of_not_key (h : ¬ IsUtf16 (key.map UnitEscape.unit)) :
    ∃ unit e, IsFirstUnpaired (key.map UnitEscape.unit) unit ∧
      parse (unitLine key value ending) = .error e ∧
      e.diagnostic.cause = some (unpairedText unit) := by
  obtain ⟨unit, hread, hfirst⟩ := exists_isFirstUnpaired h
  refine ⟨unit, ⟨1, none, unpairedUnit unit⟩, hfirst, ?_, ?_⟩
  · rw [parse_unitLine, hread]
  · exact congrArg some (message_unpairedUnit unit)

theorem parse_unitLine_of_not_value (hkey : IsUtf16 (key.map UnitEscape.unit))
    (h : ¬ IsUtf16 (value.map UnitEscape.unit)) :
    ∃ unit e, IsFirstUnpaired (value.map UnitEscape.unit) unit ∧
      parse (unitLine key value ending) = .error e ∧
      e.diagnostic.cause = some (unpairedText unit) := by
  obtain ⟨k, hk⟩ := hkey
  obtain ⟨unit, hread, hfirst⟩ := exists_isFirstUnpaired h
  refine ⟨unit, ⟨1, some (String.ofList k), unpairedUnit unit⟩, hfirst, ?_, ?_⟩
  · rw [parse_unitLine, hk, readUtf16_utf16, hread]
  · exact congrArg some (message_unpairedUnit unit)

/-- **Escaped code units are read as UTF-16, and as nothing else.** Where the key is not
UTF-16, its first surrogate without partner is told, and where only the value is not, the
first of the value. -/
theorem escaped_units_are_utf16 (key value : List UnitEscape) (ending : LineEnd) :
    let text := unitLine key value ending
    let keyUnits := key.map UnitEscape.unit
    let valueUnits := value.map UnitEscape.unit
    ((∃ p, parse text = .ok p) ↔ IsUtf16 keyUnits ∧ IsUtf16 valueUnits) ∧
    (∀ k v, keyUnits = utf16 k → valueUnits = utf16 v →
      parse text = .ok (Dictionary.ofList [(String.ofList k, String.ofList v)])) ∧
    (¬ IsUtf16 keyUnits → ∃ unit e, IsFirstUnpaired keyUnits unit ∧ parse text = .error e ∧
      e.diagnostic.cause = some (unpairedText unit)) ∧
    (IsUtf16 keyUnits → ¬ IsUtf16 valueUnits → ∃ unit e, IsFirstUnpaired valueUnits unit ∧
      parse text = .error e ∧ e.diagnostic.cause = some (unpairedText unit)) := by
  intro text keyUnits valueUnits
  refine ⟨⟨?_, ?_⟩, ?_, ?_, ?_⟩
  · intro hok
    obtain ⟨p, hp⟩ := hok
    have hkey : IsUtf16 keyUnits := by
      refine Classical.byContradiction fun hnot => ?_
      obtain ⟨unit, e, -, herror, -⟩ :=
        @parse_unitLine_of_not_key key value ending hnot
      cases hp.symm.trans herror
    refine ⟨hkey, ?_⟩
    refine Classical.byContradiction fun hnot => ?_
    obtain ⟨unit, e, -, herror, -⟩ := @parse_unitLine_of_not_value key value ending hkey hnot
    cases hp.symm.trans herror
  · intro hutf16
    obtain ⟨⟨k, hk⟩, v, hv⟩ := hutf16
    exact ⟨_, parse_unitLine_of_utf16 hk hv⟩
  · exact fun k v hk hv => parse_unitLine_of_utf16 hk hv
  · exact fun h => parse_unitLine_of_not_key h
  · exact fun hkey h => parse_unitLine_of_not_value hkey h

/-- The key `=😀` is read from its code units, in digits of both cases. A surrogate pair does
not reach over the equals sign. -/
theorem escaped_units_of_pair :
    let equals : UnitEscape := ⟨0x003D, fun _ => .lower⟩
    let high : UnitEscape := ⟨0xD83D, fun i => if i = 0 then .lower else .upper⟩
    let low : UnitEscape := ⟨0xDE00, fun _ => .lower⟩
    unitLine [equals, high, low] [] .none = "\\u003d\\ud83D\\ude00=" ∧
      parse (unitLine [equals, high, low] [] .none) = .ok (Dictionary.ofList [("=😀", "")]) ∧
      ∃ unit e, IsFirstUnpaired [0x003D, 0xD83D] unit ∧
        parse (unitLine [equals, high] [low] .none) = .error e ∧
        e.diagnostic.cause = some (unpairedText unit) := by
  intro equals high low
  refine ⟨by decide, ?_, ?_⟩
  · exact (escaped_units_are_utf16 [equals, high, low] [] .none).2.1 ['=', '😀'] [] (by decide) rfl
  · refine (escaped_units_are_utf16 [equals, high] [low] .none).2.2.1 fun hutf16 => ?_
    obtain ⟨text, htext⟩ := hutf16
    have hread := readUtf16_eq_ok_iff.mpr htext
    cases hread

end Properties

end PropertyFile
