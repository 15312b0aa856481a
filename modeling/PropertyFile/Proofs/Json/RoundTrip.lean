import PropertyFile.Format
import PropertyFile.Proofs.Escape.CodeUnit
import PropertyFile.Proofs.Json.Reader

/-!
# Reading back what is written as JSON

**JSON output loses nothing**: `json_loses_nothing`. A reader gets back all keys and values, in
their order, whatever characters they hold.

The proof goes up through the grammar, and each step takes any text behind what it reads: a
written character is read back (`char?_escapeChar`), so a string ends at its own closing quote
and at no other (`chars?_flatMap_escapeChar`), so a member ends where its value does, and the
members up to the closing brace are read one by one (`items?_membersThen`). The layout puts only
white space between them, which reading skips.
-/

namespace PropertyFile

open PropertyFile.Text

namespace Json

/-! ### Strings -/

/-- How a character is written: with a backslash and one more character, as a code unit, or
as it is. -/
theorem escapeChar_cases (c : Char) :
    (∃ d, escapeChar c = ['\\', d] ∧ d ≠ 'u' ∧ d ≠ '\n' ∧ meaning? d = some c) ∨
    (c.toNat < 0x20 ∧ escapeChar c = '\\' :: 'u' :: HexCase.lower.padded 4 c.toNat) ∨
    (c ≠ '"' ∧ c ≠ '\\' ∧ 0x20 ≤ c.toNat ∧ escapeChar c = [c]) := by
  unfold escapeChar
  split
  · exact Or.inl ⟨_, rfl, by decide, by decide, rfl⟩
  · exact Or.inl ⟨_, rfl, by decide, by decide, rfl⟩
  · exact Or.inl ⟨_, rfl, by decide, by decide, rfl⟩
  · exact Or.inl ⟨_, rfl, by decide, by decide, rfl⟩
  · exact Or.inl ⟨_, rfl, by decide, by decide, rfl⟩
  · exact Or.inl ⟨_, rfl, by decide, by decide, rfl⟩
  · exact Or.inl ⟨_, rfl, by decide, by decide, rfl⟩
  · next hquote hback _ _ _ _ _ =>
      split
      · next hlt => exact Or.inr (Or.inl ⟨hlt, rfl⟩)
      · next hge => exact Or.inr (Or.inr ⟨hquote, hback, Nat.le_of_not_lt hge, rfl⟩)

/-- A control is written as its code unit. -/
theorem padded_eq_digits {n : Nat} (h : n < 0x20) :
    HexCase.lower.padded 4 n = (⟨UInt16.ofNat n, fun _ => .lower⟩ : UnitEscape).digits := by
  rw [UnitEscape.digits_of_style, UInt16.toNat_ofNat_of_lt' (by rw [UInt16.size]; omega)]

/-- The digits of a control are read as its code unit. -/
theorem readUnicode_padded {n : Nat} (h : n < 0x20) (rest : List Char) :
    Escape.readUnicode (HexCase.lower.padded 4 n ++ rest) = .ok (Char.ofNat n, rest) := by
  have hunit : (UInt16.ofNat n).toNat = n :=
    UInt16.toNat_ofNat_of_lt' (by rw [UInt16.size]; omega)
  have hhigh : isHighSurrogate n = false := by
    simp [isHighSurrogate]
    omega
  have hlow : isLowSurrogate n = false := by
    simp [isLowSurrogate]
    omega
  rw [padded_eq_digits h]
  simpa only [hunit] using
    Escape.readUnicode_unit (e := ⟨UInt16.ofNat n, fun _ => .lower⟩) (by rwa [hunit])
      (by rwa [hunit]) rest

/-- A written character is read back, whatever follows it. -/
theorem char?_escapeChar (c : Char) (rest : List Char) :
    char? (escapeChar c ++ rest) = some (c, rest) := by
  rcases escapeChar_cases c with ⟨d, heq, hu, -, hd⟩ | ⟨hlt, heq⟩ | ⟨hquote, hback, hge, heq⟩
  · rw [heq, List.cons_append, List.cons_append, List.nil_append, char?, hd]
    · rfl
    · exact hu
  · rw [heq, List.cons_append, List.cons_append, char?, readUnicode_padded hlt, Char.ofNat_toNat]
    rfl
  · have hplain : ¬(c = '"' ∨ c = '\\' ∨ c.toNat < 0x20) := by
      simp only [hquote, hback, false_or]
      omega
    rw [heq, List.singleton_append, char?, if_neg hplain]
    · exact fun _ h => absurd h hback
    · exact fun _ _ h => absurd h hback

/-- A written text is read back up to its closing quote. -/
theorem chars?_flatMap_escapeChar (cs rest : List Char) :
    chars? (cs.flatMap escapeChar ++ '"' :: rest) = some (cs, rest) := by
  induction cs with
  | nil => exact chars?_quote rest
  | cons c cs ih =>
      rw [List.flatMap_cons, List.append_assoc, chars?_of_char? (char?_escapeChar c _), ih]
      rfl

/-- A written character starts no new line. -/
theorem lineFeed_not_mem_escapeChar (c : Char) : '\n' ∉ escapeChar c := by
  intro h
  rcases escapeChar_cases c with ⟨d, heq, -, hd, -⟩ | ⟨hlt, heq⟩ | ⟨-, -, hge, heq⟩
  · simp [heq, hd.symm] at h
  · simp only [heq, padded_eq_digits hlt, List.mem_cons] at h
    rcases h with h | h | h
    · exact absurd h (by decide)
    · exact absurd h (by decide)
    · exact (UnitEscape.plain_of_mem_digits h).2.2.2.1 rfl
  · rw [heq, List.mem_singleton] at h
    subst h
    exact absurd hge (by decide)

theorem lineFeed_not_mem_quote (text : String) : '\n' ∉ quote text := by
  simp [quote, lineFeed_not_mem_escapeChar]

theorem quote_append (text : String) (rest : List Char) :
    quote text ++ rest = '"' :: (text.toList.flatMap escapeChar ++ '"' :: rest) := by
  simp [quote]

/-! ### Layouts -/

/-- The layout adds only white space. -/
structure Layout.IsSpace (layout : Layout) : Prop where
  beforeMember : ∀ c ∈ layout.beforeMember, isSpace c = true
  afterColon : ∀ c ∈ layout.afterColon, isSpace c = true
  afterMembers : ∀ c ∈ layout.afterMembers, isSpace c = true

theorem Layout.isSpace_compact : Layout.compact.IsSpace :=
  ⟨by simp [compact], by simp [compact], by simp [compact]⟩

theorem Layout.isSpace_pretty : Layout.pretty.IsSpace :=
  ⟨by simp [pretty, isSpace], by simp [pretty, isSpace], by simp [pretty, isSpace]⟩

theorem skipSpace_cons {c : Char} (hc : isSpace c = false) (cs : List Char) :
    skipSpace (c :: cs) = c :: cs := by
  rw [skipSpace, List.dropWhile_cons_of_neg (by simp [hc])]

theorem skipSpace_append_cons {ws : List Char} (h : ∀ c ∈ ws, isSpace c = true) {c : Char}
    (hc : isSpace c = false) (cs : List Char) : skipSpace (ws ++ c :: cs) = c :: cs := by
  rw [skipSpace, List.dropWhile_append_of_pos h]
  exact skipSpace_cons hc cs

/-! ### Members -/

/-- The object whose members are texts. -/
def Value.ofEntries (entries : List (String × String)) : Value :=
  .object (entries.map fun entry => (entry.1, .string entry.2))

theorem Value.ofEntries_injective {entries others : List (String × String)}
    (h : ofEntries entries = ofEntries others) : entries = others := by
  injection h with h
  refine (List.map_inj_right fun entry other heq => ?_).mp h
  obtain ⟨hkey, hvalue⟩ := Prod.mk.inj heq
  injection hvalue with hvalue
  exact Prod.ext hkey hvalue

section Members

variable {layout : Layout} (hlayout : layout.IsSpace)

theorem member_append (layout : Layout) (entry : String × String) (rest : List Char) :
    member layout entry ++ rest = layout.beforeMember ++ '"' ::
      (entry.1.toList.flatMap escapeChar ++ '"' ::
        ':' :: (layout.afterColon ++ (quote entry.2 ++ rest))) := by
  simp [member, quote]

/-- One member and more, up to the closing brace, and the text behind it. -/
def membersThen (layout : Layout) (rest : List Char) :
    String × String → List (String × String) → List Char
  | entry, [] => member layout entry ++ (layout.afterMembers ++ '\x7d' :: rest)
  | entry, other :: others => member layout entry ++ ',' :: membersThen layout rest other others

theorem object_cons_append (layout : Layout) (entry : String × String)
    (others : List (String × String)) (rest : List Char) :
    object layout (entry :: others) ++ rest = '\x7b' :: membersThen layout rest entry others := by
  have hmembers : ∀ entry, membersThen layout rest entry others = member layout entry ++
      ((others.flatMap fun other => ',' :: member layout other) ++
        (layout.afterMembers ++ '\x7d' :: rest)) := by
    induction others with
    | nil => exact fun _ => rfl
    | cons other others ih => simp [membersThen, ih]
  rw [hmembers]
  simp [object]

include hlayout

/-- A value is read behind white space. -/
theorem value?_quote (depth : Nat) (text : String) (rest : List Char) :
    value? (depth + 1) (layout.afterColon ++ (quote text ++ rest)) =
      some (.string text, rest) := by
  rw [quote_append, value?, skipSpace_append_cons hlayout.afterColon (by decide)]
  simp [chars?_flatMap_escapeChar]

theorem member?_member (depth : Nat) (entry : String × String) (rest : List Char) :
    member? (value? (depth + 1)) (member layout entry ++ rest) =
      some ((entry.1, .string entry.2), rest) := by
  rw [member_append, member?, skipSpace_append_cons hlayout.beforeMember (by decide)]
  simp [chars?_flatMap_escapeChar, skipSpace_cons, isSpace, value?_quote hlayout]

/-- The members start with a quote, so the object is not read as an empty one. -/
theorem skipSpace_membersThen (rest : List Char) (entry : String × String)
    (others : List (String × String)) :
    ∃ cs, skipSpace (membersThen layout rest entry others) = '"' :: cs := by
  obtain ⟨tail, heq⟩ : ∃ tail,
      membersThen layout rest entry others = member layout entry ++ tail := by
    cases others with
    | nil => exact ⟨_, rfl⟩
    | cons other others => exact ⟨_, rfl⟩
  rw [heq, member_append]
  exact ⟨_, skipSpace_append_cons hlayout.beforeMember (by decide) _⟩

/-- The members up to the closing brace are read one by one. -/
theorem items?_membersThen (depth : Nat) (rest : List Char) (entry : String × String)
    (others : List (String × String)) :
    items? (member? (value? (depth + 1))) '\x7d' (membersThen layout rest entry others) =
      some ((entry :: others).map fun e => (e.1, .string e.2), rest) := by
  induction others generalizing entry with
  | nil =>
      rw [membersThen, items?, member?_member hlayout]
      simp [skipSpace_append_cons hlayout.afterMembers (c := '\x7d') (by decide)]
  | cons other others ih =>
      have hlt : (membersThen layout rest other others).length <
          (member layout entry ++ ',' :: membersThen layout rest other others).length := by
        simp only [List.length_append, List.length_cons]
        omega
      rw [membersThen, items?, member?_member hlayout]
      simp only [skipSpace_cons (c := ',') (by decide)]
      rw [if_neg (by decide), dif_pos ⟨trivial, hlt⟩, ih]
      rfl

/-- An object is read back with its members in their order. -/
theorem value?_object (depth : Nat) (entries : List (String × String)) (rest : List Char) :
    value? (depth + 2) (object layout entries ++ rest) =
      some (.ofEntries entries, rest) := by
  cases entries with
  | nil =>
      show value? (depth + 2) ('\x7b' :: '\x7d' :: rest) = _
      simp [value?, sequence?, skipSpace_cons, isSpace, Value.ofEntries]
  | cons entry others =>
      obtain ⟨cs, hopen⟩ := skipSpace_membersThen hlayout rest entry others
      rw [object_cons_append, value?, skipSpace_cons (by decide)]
      simp only [sequence?, hopen]
      rw [if_neg (by decide), items?_membersThen hlayout]
      rfl

/-- An object on its own line stands for its members. -/
theorem read?_object (entries : List (String × String)) :
    read? (String.ofList (object layout entries ++ ['\n'])) =
      some (.ofEntries entries) := by
  have hlen : 2 ≤ (object layout entries ++ ['\n']).length := by
    cases entries with
    | nil => exact Nat.le_add_left 2 1
    | cons entry others =>
        simp only [object, List.length_append, List.length_cons]
        omega
  obtain ⟨depth, hdepth⟩ := Nat.exists_eq_add_of_le' hlen
  rw [read?, String.length_ofList, String.toList_ofList, hdepth, value?_object hlayout]
  rfl

end Members

/-- Without any space, an object stands on one line. -/
theorem lineFeed_not_mem_object (entries : List (String × String)) :
    '\n' ∉ object .compact entries := by
  have hmember : ∀ entry, '\n' ∉ member .compact entry := fun entry => by
    simp [member, Layout.compact, lineFeed_not_mem_quote]
  have hafter : '\n' ∉ Layout.compact.afterMembers := List.not_mem_nil
  cases entries with
  | nil => decide
  | cons entry others => simp [object, hmember, hafter]

end Json

/-- **JSON output loses nothing.** From the JSON form of a whole file one reads its entries in
their order, so files with other entries have another form. The JSON form of one property
is a line, and one reads from it an object of the key and the value. -/
theorem json_loses_nothing :
    FileFormat.ofName "json" = .ok .json ∧ EntryFormat.ofName "json" = .ok .json ∧
    (∀ p : Properties,
      Json.read? (FileFormat.json.render p) = some (.ofEntries p.entries)) ∧
    (∀ p q : Properties,
      FileFormat.json.render p = FileFormat.json.render q ↔ p.entries = q.entries) ∧
    ∀ key value : String,
      (∃ line : String, EntryFormat.json.render key value = line ++ "\n" ∧ '\n' ∉ line.toList) ∧
      Json.read? (EntryFormat.json.render key value) =
        some (.ofEntries [("key", key), ("value", value)]) := by
  have hread : ∀ p : Properties,
      Json.read? (FileFormat.json.render p) = some (.ofEntries p.entries) := fun p =>
    Json.read?_object Json.Layout.isSpace_pretty p.entries
  refine ⟨rfl, rfl, hread, fun p q => ⟨fun h => ?_, fun h => ?_⟩,
    fun key value => ⟨⟨_, String.ofList_append, ?_⟩, ?_⟩⟩
  · have hsame := hread p
    rw [h, hread q] at hsame
    exact (Json.Value.ofEntries_injective (Option.some.inj hsame)).symm
  · rw [FileFormat.render, FileFormat.render, h]
  · rw [String.toList_ofList]
    exact Json.lineFeed_not_mem_object _
  · exact Json.read?_object Json.Layout.isSpace_compact _

/-- A key that looks like the end of an object stays a key. -/
example : EntryFormat.json.render "a\":\n\x7d" "\\n" =
    "\x7b\"key\":\"a\\\":\\n\x7d\",\"value\":\"\\\\n\"\x7d\n" := by
  cbv

end PropertyFile
