import PropertyFile.Definition

/-!
# The grammar of definitions

**A definition is read exactly from what is written as one**:
`Definition.parse?_eq_some_iff`. White space may stand on both sides of the name, then
come an equals sign and the value. Any text can be the value, since only the first
equals sign separates; a name holds none and neither starts nor ends with white space.

Nor can an entry be cut into these parts in two ways (`Written.text_injective`): reading it
settles the name and the value, and the name ends the white space in front of it. All this
comes together in `parse_exact`.
-/

namespace PropertyFile

open PropertyFile.Text

namespace Text

/-! ### Trimming -/

theorem trimEnd_eq_self {cs : List Char} (h : ∀ c ∈ cs.getLast?, isWhiteSpace c = false) :
    trimEnd cs = cs := by
  induction cs with
  | nil => rfl
  | cons c cs ih =>
      cases cs with
      | nil => simp [trimEnd, h c rfl]
      | cons d rest => rw [trimEnd, ih h]

theorem trimEnd_append {ws : List Char} (h : ∀ c ∈ ws, isWhiteSpace c = true) (cs : List Char) :
    trimEnd (cs ++ ws) = trimEnd cs := by
  induction cs with
  | nil => exact trimEnd_eq_nil_iff.mpr h
  | cons c cs ih => rw [List.cons_append, trimEnd, trimEnd, ih]

/-- What is dropped at the end is white space. -/
theorem exists_eq_trimEnd_append (cs : List Char) :
    ∃ ws, cs = trimEnd cs ++ ws ∧ ∀ c ∈ ws, isWhiteSpace c = true := by
  induction cs with
  | nil => exact ⟨[], rfl, by simp⟩
  | cons c cs ih =>
      obtain ⟨ws, heq, hws⟩ := ih
      rw [trimEnd]
      cases h : trimEnd cs with
      | nil =>
          rw [h, List.nil_append] at heq
          cases hc : isWhiteSpace c with
          | true => exact ⟨c :: cs, rfl, by simpa [hc, heq] using hws⟩
          | false => exact ⟨cs, rfl, by simpa [heq] using hws⟩
      | cons d rest => exact ⟨ws, by rw [List.cons_append, ← h, ← heq], hws⟩

theorem isWhiteSpace_of_mem_getLast?_trimEnd {cs : List Char} :
    ∀ c ∈ (trimEnd cs).getLast?, isWhiteSpace c = false := by
  induction cs with
  | nil => simp
  | cons c cs ih =>
      rw [trimEnd]
      cases h : trimEnd cs with
      | nil => cases hc : isWhiteSpace c <;> simp [hc]
      | cons d rest =>
          rw [h] at ih
          exact ih

/-- Trimming drops the white space around a text that neither starts nor ends with it. -/
theorem trim_append {before cs after : List Char} (hbefore : ∀ c ∈ before, isWhiteSpace c = true)
    (hafter : ∀ c ∈ after, isWhiteSpace c = true) (hne : cs ≠ [])
    (hhead : ∀ c ∈ cs.head?, isWhiteSpace c = false)
    (hlast : ∀ c ∈ cs.getLast?, isWhiteSpace c = false) : trim (before ++ cs ++ after) = cs := by
  obtain ⟨c, rest, rfl⟩ := List.exists_cons_of_ne_nil hne
  have hc : isWhiteSpace c = false := hhead c rfl
  have hdrop : (before ++ (c :: rest) ++ after).dropWhile isWhiteSpace = c :: rest ++ after := by
    rw [List.append_assoc, List.dropWhile_append_of_pos hbefore, List.cons_append,
      List.dropWhile_cons_of_neg (by simp [hc])]
  rw [trim, hdrop, trimEnd_append hafter, trimEnd_eq_self hlast]

/-- What is dropped is white space, and all that there is at both ends. -/
theorem exists_eq_append_trim (cs : List Char) :
    ∃ before after, cs = before ++ trim cs ++ after ∧
      (∀ c ∈ before, isWhiteSpace c = true) ∧ (∀ c ∈ after, isWhiteSpace c = true) ∧
      (∀ c ∈ (trim cs).head?, isWhiteSpace c = false) ∧
      ∀ c ∈ (trim cs).getLast?, isWhiteSpace c = false := by
  obtain ⟨after, heq, hafter⟩ := exists_eq_trimEnd_append (cs.dropWhile isWhiteSpace)
  have hsplit := List.takeWhile_append_dropWhile (p := isWhiteSpace) (l := cs)
  refine ⟨cs.takeWhile isWhiteSpace, after, ?_, ?_, hafter, ?_,
    isWhiteSpace_of_mem_getLast?_trimEnd⟩
  · rw [trim, List.append_assoc, ← heq, hsplit]
  · exact fun c hc => List.all_eq_true.mp List.all_takeWhile c hc
  · intro c hc
    -- The text that is left starts where dropping has stopped.
    have hhead : (trimEnd (cs.dropWhile isWhiteSpace)).head? = some c := hc
    have hstop := List.head?_dropWhile_not isWhiteSpace cs
    rw [heq, List.head?_append, hhead] at hstop
    simpa using hstop

end Text

namespace Definition

/-! ### Reading a definition -/

/-- A text that is a name just as it stands. -/
structure IsName (name : String) : Prop where
  ne_empty : name ≠ ""
  no_equals : '=' ∉ name.toList
  head : ∀ c ∈ name.toList.head?, isWhiteSpace c = false
  last : ∀ c ∈ name.toList.getLast?, isWhiteSpace c = false

/-- The entry is written as this definition: the name, with white space around it or
without, an equals sign and the value. -/
def IsWrittenAs (d : Definition) (entry : String) : Prop :=
  ∃ before after : String, entry = before ++ d.name ++ after ++ "=" ++ d.value ∧ IsName d.name ∧
    (∀ c ∈ before.toList, isWhiteSpace c = true) ∧ ∀ c ∈ after.toList, isWhiteSpace c = true

variable {d : Definition} {entry : String}

theorem ne_equals_of_isWhiteSpace {c : Char} (h : isWhiteSpace c = true) : c ≠ '=' := by
  rintro rfl
  exact absurd h (by decide)

theorem parse?_of_isWrittenAs (h : d.IsWrittenAs entry) : parse? entry = some d := by
  obtain ⟨before, after, rfl, hname, hbefore, hafter⟩ := h
  let front := before.toList ++ d.name.toList ++ after.toList
  have hentry : (before ++ d.name ++ after ++ "=" ++ d.value).toList =
      front ++ '=' :: d.value.toList := by
    simp [front]
  have hplain : ∀ c ∈ front, (c != '=') = true := by
    intro c hc
    rw [bne_iff_ne]
    rcases List.mem_append.mp hc with hc | hc
    · rcases List.mem_append.mp hc with hc | hc
      · exact ne_equals_of_isWhiteSpace (hbefore c hc)
      · exact fun heq => hname.no_equals (heq ▸ hc)
    · exact ne_equals_of_isWhiteSpace (hafter c hc)
  have hfront : (front ++ '=' :: d.value.toList).takeWhile (· != '=') = front := by
    rw [List.takeWhile_append_of_pos hplain]
    simp
  have hvalue : (front ++ '=' :: d.value.toList).dropWhile (· != '=') =
      '=' :: d.value.toList := by
    rw [List.dropWhile_append_of_pos hplain]
    simp
  have hnonempty : d.name.toList ≠ [] := by
    simpa using hname.ne_empty
  have htrim : trim front = d.name.toList :=
    trim_append hbefore hafter hnonempty hname.head hname.last
  rw [parse?, hentry, hfront, hvalue, htrim]
  obtain ⟨c, cs, hcs⟩ := List.exists_cons_of_ne_nil hnonempty
  simp only [hcs]
  rw [← hcs, String.ofList_toList, String.ofList_toList]

theorem isWrittenAs_of_parse? (h : parse? entry = some d) : d.IsWrittenAs entry := by
  have hsplit := List.takeWhile_append_dropWhile (p := (· != '=')) (l := entry.toList)
  have hstop := List.head?_dropWhile_not (· != '=') entry.toList
  have hplain : '=' ∉ entry.toList.takeWhile (· != '=') := fun hmem =>
    absurd (List.all_eq_true.mp List.all_takeWhile '=' hmem) (by decide)
  unfold parse? at h
  generalize entry.toList.takeWhile (· != '=') = front at h hsplit hplain
  obtain ⟨before, after, hfront, hbefore, hafter, hhead, hlast⟩ := exists_eq_append_trim front
  generalize trim front = name at h hfront hhead hlast
  split at h
  · cases h
  · next e value hdrop =>
      obtain rfl : e = '=' := by
        rw [hdrop] at hstop
        simpa using hstop
      split at h
      · cases h
      · next hne =>
          obtain rfl := Option.some.inj h
          have hentry : entry.toList = before ++ name ++ after ++ '=' :: value := by
            rw [← hsplit, hdrop, ← hfront]
          have hequals : '=' ∉ name := fun hmem => hplain <| by
            rw [hfront]
            exact List.mem_append_left _ (List.mem_append_right _ hmem)
          refine ⟨String.ofList before, String.ofList after, ?_, ⟨?_, ?_, ?_, ?_⟩, ?_, ?_⟩
          · rw [← String.toList_inj, hentry]
            simp
          · exact fun hnil => hne (by simpa using hnil)
          · simpa using hequals
          · simpa using hhead
          · simpa using hlast
          · simpa using hbefore
          · simpa using hafter

/-- **A definition is read from what is written as one, and from nothing else.** -/
theorem parse?_eq_some_iff : parse? entry = some d ↔ d.IsWrittenAs entry :=
  ⟨isWrittenAs_of_parse?, parse?_of_isWrittenAs⟩

theorem parse?_eq_none_iff : parse? entry = none ↔ ∀ d : Definition, ¬d.IsWrittenAs entry := by
  simp only [Option.eq_none_iff_forall_ne_some, ne_eq, parse?_eq_some_iff]

theorem parse_eq_ok_iff : parse entry = .ok d ↔ d.IsWrittenAs entry := by
  rw [← parse?_eq_some_iff, parse]
  cases parse? entry <;> simp

theorem parse_eq_error_iff {e : Diagnostic} :
    parse entry = .error e ↔
      e = Diagnostic.invalidEntry entry ∧ ∀ d : Definition, ¬d.IsWrittenAs entry := by
  rw [← parse?_eq_none_iff, parse]
  cases parse? entry <;> simp [eq_comm]

/-- A name and a value are read back from their definition. -/
theorem parse_of_isName {name : String} (h : IsName name) (value : String) :
    parse (name ++ "=" ++ value) = .ok ⟨name, value⟩ :=
  parse_eq_ok_iff.mpr ⟨"", "", by simp, h, by simp, by simp⟩

/-! ### The parts of an entry -/

/-- The parts that a definition is written with. -/
@[ext] structure Written where
  /-- The white space before the name. -/
  before : String
  name : String
  /-- The white space between the name and the equals sign. -/
  after : String
  value : String
  isName : IsName name
  isWhiteSpace_before : ∀ c ∈ before.toList, isWhiteSpace c = true
  isWhiteSpace_after : ∀ c ∈ after.toList, isWhiteSpace c = true

namespace Written

/-- The entry that has these parts. -/
def text (w : Written) : String :=
  w.before ++ w.name ++ w.after ++ "=" ++ w.value

/-- The definition without the white space. -/
def definition (w : Written) : Definition :=
  ⟨w.name, w.value⟩

theorem isWrittenAs_text (w : Written) : w.definition.IsWrittenAs w.text :=
  ⟨w.before, w.after, rfl, w.isName, w.isWhiteSpace_before, w.isWhiteSpace_after⟩

theorem isWrittenAs_iff :
    d.IsWrittenAs entry ↔ ∃ w : Written, w.text = entry ∧ w.definition = d := by
  constructor
  · rintro ⟨before, after, rfl, hname, hbefore, hafter⟩
    exact ⟨⟨before, d.name, after, d.value, hname, hbefore, hafter⟩, rfl, rfl⟩
  · rintro ⟨w, rfl, rfl⟩
    exact w.isWrittenAs_text

/-- The white space before the name is all that there is in front. -/
theorem takeWhile_front (w : Written) :
    (w.before ++ w.name ++ w.after).toList.takeWhile isWhiteSpace = w.before.toList := by
  have hne : w.name.toList ≠ [] := by simpa using w.isName.ne_empty
  obtain ⟨c, rest, hname⟩ := List.exists_cons_of_ne_nil hne
  have hc : isWhiteSpace c = false := w.isName.head c (by simp [hname])
  rw [String.toList_append, String.toList_append, List.append_assoc,
    List.takeWhile_append_of_pos w.isWhiteSpace_before, hname, List.cons_append,
    List.takeWhile_cons_of_neg (by simp [hc]), List.append_nil]

/-- An entry cannot be cut in two ways. -/
theorem text_injective : Function.Injective text := by
  intro w v h
  have hread : some w.definition = some v.definition := by
    rw [← parse?_of_isWrittenAs w.isWrittenAs_text, ← parse?_of_isWrittenAs v.isWrittenAs_text, h]
  obtain ⟨hname, hvalue⟩ := Definition.mk.inj (Option.some.inj hread)
  have hfront : w.before ++ w.name ++ w.after = v.before ++ v.name ++ v.after := by
    rw [text, text, hvalue, ← String.toList_inj] at h
    simp only [String.toList_append, List.append_cancel_right_eq] at h
    simpa [← String.toList_inj] using h
  have hbefore : w.before = v.before := by
    rw [← String.toList_inj, ← w.takeWhile_front, hfront, v.takeWhile_front]
  have hafter : w.after = v.after := by
    rw [hbefore, hname] at hfront
    simpa [← String.toList_inj] using hfront
  exact Written.ext hbefore hname hafter hvalue

end Written

/-- **Definitions have an exact grammar.** An entry is read as a name and a value exactly if
it has parts with them, and it has them in one way only. Any other entry is refused and told
as it was given. So a name and a value can always be written down to be read back. -/
theorem parse_exact (entry : String) :
    (∀ name value, parse entry = .ok ⟨name, value⟩ ↔
      ∃ w : Written, w.text = entry ∧ w.name = name ∧ w.value = value) ∧
    (∀ w v : Written, w.text = entry → v.text = entry → w = v) ∧
    (∀ e, parse entry = .error e ↔
      e = Diagnostic.invalidEntry entry ∧ ∀ w : Written, w.text ≠ entry) ∧
    (Diagnostic.invalidEntry entry).kind = .invalidEntry entry ∧
    ∀ name value, IsName name → parse (name ++ "=" ++ value) = .ok ⟨name, value⟩ := by
  refine ⟨fun name value => ?_, ?_, fun e => ?_, rfl, fun name value h => parse_of_isName h value⟩
  · rw [parse_eq_ok_iff, Written.isWrittenAs_iff]
    simp only [Written.definition, Definition.mk.injEq]
  · intro w v hw hv
    exact Written.text_injective (hw.trans hv.symm)
  · have hnone : (∀ d : Definition, ¬d.IsWrittenAs entry) ↔ ∀ w : Written, w.text ≠ entry := by
      simp only [Written.isWrittenAs_iff]
      exact ⟨fun h w hw => h w.definition ⟨w, hw, rfl⟩, fun h d ⟨w, hw, _⟩ => h w hw⟩
    rw [parse_eq_error_iff, hnone]

/-- White space beyond ASCII on both sides of a name with a space in it, and a value that
starts with a space and holds an equals sign. -/
theorem parse_exact_of_wide_margins :
    let entry := "\u2003a b\u00a0\t= x=y"
    parse entry = .ok ⟨"a b", " x=y"⟩ ∧
      (∃ w : Written, w.text = entry ∧ w.name = "a b" ∧ w.value = " x=y") ∧
      (∀ w v : Written, w.text = entry → v.text = entry → w = v) ∧
      IsName "a b" ∧ parse ("a b" ++ "=" ++ " x=y") = .ok ⟨"a b", " x=y"⟩ := by
  intro entry
  have hname : IsName "a b" :=
    ⟨by decide, by decide, by simp [isWhiteSpace], by simp [isWhiteSpace]⟩
  let w : Written :=
    ⟨"\u2003", "a b", "\u00a0\t", " x=y", hname, by simp [isWhiteSpace], by simp [isWhiteSpace]⟩
  have hparts : ∃ w : Written, w.text = entry ∧ w.name = "a b" ∧ w.value = " x=y" :=
    ⟨w, rfl, rfl, rfl⟩
  obtain ⟨hexact, hunique, -, -, hback⟩ := parse_exact entry
  exact ⟨(hexact _ _).mpr hparts, hparts, hunique, hname, hback _ _ hname⟩

end Definition

end PropertyFile
