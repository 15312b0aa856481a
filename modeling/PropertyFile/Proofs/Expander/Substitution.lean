import PropertyFile.Expander
import PropertyFile.Proofs.Placeholder.Occurrence

/-!
# Expansion as substitution

**An expanded value is the value with a text in the place of each placeholder.**
Expansion works on pieces and never looks at a place; here the value is cut at the
places that `Placeholder.find` gives, and every byte between them is kept.

What is put in depends on the name alone: `replacement` reads it off the table
`sources` of the four known names, and `warning?` gives the event that goes with
it. The text put in is never searched again, since the places are those of the
value itself.
-/

namespace PropertyFile

namespace Placeholder

/-! ### Substitution along the places -/

/-- The bytes of a value from byte `start` on, with the text `f p` in the place of
each placeholder `p` of a list. -/
def substituteFrom (f : Placeholder → String) (bytes : ByteArray) (start : Nat) :
    List Placeholder → ByteArray
  | [] => bytes.extract start bytes.size
  | p :: ps => bytes.extract start p.start ++ (f p).toUTF8 ++ substituteFrom f bytes p.stop ps

/-- The bytes of a value, with the text `f p` in the place of each placeholder `p`. -/
def substitute (f : Placeholder → String) (value : String) : ByteArray :=
  substituteFrom f value.toUTF8 0 (find value)

/-- The bytes between two places are those of the text between them. -/
theorem extract_middle (before t after : String) :
    (before ++ t ++ after).toUTF8.extract before.utf8ByteSize
      (before.utf8ByteSize + t.utf8ByteSize) = t.toUTF8 := by
  have hskip : (before ++ t ++ after).toUTF8.extract (before.utf8ByteSize + 0)
      (before.utf8ByteSize + t.utf8ByteSize) =
        (t.toUTF8 ++ after.toUTF8).extract 0 t.utf8ByteSize := by
    rw [String.append_assoc, String.toUTF8_eq_toByteArray, String.toByteArray_append,
      String.toByteArray_append]
    exact ByteArray.extract_append_size_add' rfl
  rw [Nat.add_zero] at hskip
  rw [hskip]
  exact ByteArray.extract_append_eq_left rfl

section Pieces

variable {f : Placeholder → String} {g : Piece → List Char}

/-- Substitution along the places is substitution piece by piece. The text `gap`
has been passed since the last placeholder and waits for the next one. -/
theorem substituteFrom_ofPieces (hliteral : ∀ c, g (.literal c) = [c])
    (hplaceholder : ∀ start name,
      f ⟨start, String.ofList name⟩ = String.ofList (g (.placeholder name)))
    (ps : List Piece) (before gap : String) :
    substituteFrom f (before ++ gap ++ String.ofList (Piece.ofPieces ps)).toUTF8
        before.utf8ByteSize (ofPieces (before.utf8ByteSize + gap.utf8ByteSize) ps) =
      (gap ++ String.ofList (ps.flatMap g)).toUTF8 := by
  induction ps generalizing before gap with
  | nil =>
      have hsize : (before ++ gap ++ "").toUTF8.size =
          before.utf8ByteSize + gap.utf8ByteSize := by
        simp [String.size_toByteArray]
      have hmiddle := extract_middle before gap ""
      simp only [ofPieces, substituteFrom, Piece.ofPieces, List.flatMap_nil, String.ofList_nil]
      rw [hsize, hmiddle, String.append_empty]
  | cons piece ps ih =>
      cases piece with
      | literal c =>
          -- The character joins the gap.
          have hpassed := ih before (gap ++ String.ofList [c])
          have hsize : (gap ++ String.ofList [c]).utf8ByteSize =
              gap.utf8ByteSize + c.utf8Size := by
            simp
          rw [hsize, ← Nat.add_assoc] at hpassed
          simp only [ofPieces, Piece.ofPieces_cons, Piece.text, List.flatMap_cons, hliteral,
            String.ofList_append, ← String.append_assoc] at hpassed ⊢
          exact hpassed
      | placeholder name =>
          let p : Placeholder := ⟨before.utf8ByteSize + gap.utf8ByteSize, String.ofList name⟩
          let rest := String.ofList (Piece.ofPieces ps)
          -- The gap is written out, and behind the placeholder none is waiting.
          have hpassed := ih (before ++ gap ++ p.text) ""
          have hstop : (before ++ gap ++ p.text).utf8ByteSize = p.stop := by
            simp only [String.utf8ByteSize_append, stop, p]
          have hgap := extract_middle before gap (p.text ++ rest)
          have hwritten : String.ofList (Piece.ofPieces (.placeholder name :: ps)) =
              p.text ++ rest := by
            rw [Piece.ofPieces_cons, String.ofList_append, Piece.text, text_mk]
          rw [hstop, String.append_empty, String.utf8ByteSize_empty, Nat.add_zero,
            String.append_assoc, String.empty_append] at hpassed
          rw [hwritten, ofPieces, substituteFrom, hgap, hpassed, hplaceholder, List.flatMap_cons,
            String.ofList_append]
          simp only [String.toUTF8_eq_toByteArray, String.toByteArray_append,
            ByteArray.append_assoc]

/-- A value with its placeholders replaced is put together from its pieces. -/
theorem substitute_eq_flatMap (hliteral : ∀ c, g (.literal c) = [c])
    (hplaceholder : ∀ start name,
      f ⟨start, String.ofList name⟩ = String.ofList (g (.placeholder name)))
    (value : String) :
    substitute f value = (String.ofList ((Piece.pieces value.toList).flatMap g)).toUTF8 := by
  have h := substituteFrom_ofPieces hliteral hplaceholder (Piece.pieces value.toList) "" ""
  rw [Piece.ofPieces_pieces, String.ofList_toList] at h
  simpa [substitute, find] using h

end Pieces

/-- The texts between the placeholders and the placeholders make up the value. -/
theorem substitute_text (value : String) : substitute text value = value.toUTF8 := by
  have hcut : (Piece.pieces value.toList).flatMap Piece.text = value.toList :=
    Piece.ofPieces_pieces value.toList
  rw [substitute_eq_flatMap (g := Piece.text) (fun _ => rfl) text_mk, hcut, String.ofList_toList]

/-- What stands at the place of a placeholder is its text. -/
theorem extract_of_mem_find {value : String} {p : Placeholder} (h : p ∈ find value) :
    value.toUTF8.extract p.start p.stop = p.text.toUTF8 := by
  obtain ⟨-, before, after, rfl, hstart⟩ := mem_find_iff.mp h
  rw [stop, hstart]
  exact extract_middle before p.text after

/-- What each placeholder of a value gives, each piece with a name gives. -/
theorem filterMap_ofPieces {α : Type} {h : Placeholder → Option α} {k : Piece → List α}
    (hliteral : ∀ c, k (.literal c) = [])
    (hplaceholder : ∀ start name,
      k (.placeholder name) = (h ⟨start, String.ofList name⟩).toList)
    (start : Nat) (ps : List Piece) : (ofPieces start ps).filterMap h = ps.flatMap k := by
  induction ps generalizing start with
  | nil => rfl
  | cons piece ps ih =>
      cases piece with
      | literal c =>
          rw [ofPieces, ih, List.flatMap_cons, hliteral, List.nil_append]
      | placeholder name =>
          rw [ofPieces, List.filterMap_cons, ih, List.flatMap_cons, hplaceholder start name]
          cases h ⟨start, String.ofList name⟩ <;> rfl

end Placeholder

namespace Expander

/-! ### What is put in for a placeholder -/

/-- The names that are known, and for each its variable and the text it has now. -/
def sources (x : Expander) : List (String × Variable × Option String) :=
  [("appdir", .appDir, x.replacements.get? "APPDIR"),
    ("appdata", .appData, x.replacements.get? "APPDATA"),
    ("localappdata", .localAppData, x.replacements.get? "LOCALAPPDATA"),
    ("userhome", .userHome, x.properties.get? "user.home")]

/-- The text for a placeholder: that of its source, nothing if the source has none,
and the placeholder itself if its name is not known. -/
def replacement (x : Expander) (p : Placeholder) : String :=
  match x.sources.lookup p.name.toLower with
  | some (_, some text) => text
  | some (_, none) => ""
  | none => p.text

/-- The warning for a placeholder of `value` that no text can be put in for. -/
def warning? (x : Expander) (value : String) (p : Placeholder) : Option Event :=
  match x.sources.lookup p.name.toLower with
  | some (_, some _) => none
  | some (v, none) => some (.noValue v)
  | none => some (.unknownVariable p.text value)

/-- A placeholder refers to a variable exactly if it has the variable's name, up to
the case of ASCII letters. -/
theorem referent?_eq_some_iff {p : Placeholder} {v : Variable} :
    p.referent? = some v ↔ p.name.toLower = v.name := by
  have hlower : p.name.toLower = p.name.map Char.toLower := rfl
  rw [Placeholder.referent?, Variable.ofName?_eq_some_iff, ← String.toList_inj, hlower,
    String.toList_map]

/-- The table holds the variables and nothing else. -/
theorem lookup_sources (x : Expander) (p : Placeholder) :
    x.sources.lookup p.name.toLower = p.referent?.map fun v => (v, x.lookup v.source) := by
  cases h : p.referent? with
  | none =>
      have hname : ∀ v : Variable, (p.name.toLower == v.name) = false := fun v => by
        rw [beq_eq_false_iff_ne]
        intro heq
        rw [referent?_eq_some_iff.mpr heq] at h
        simp at h
      have happDir := hname .appDir
      have happData := hname .appData
      have hlocalAppData := hname .localAppData
      have huserHome := hname .userHome
      simp only [Variable.name] at happDir happData hlocalAppData huserHome
      simp [sources, List.lookup_cons, happDir, happData, hlocalAppData, huserHome]
  | some v =>
      rw [referent?_eq_some_iff.mp h]
      cases v <;> rfl

theorem replacement_of_unknown {x : Expander} {p : Placeholder} (h : p.referent? = none) :
    x.replacement p = p.text := by
  simp [replacement, lookup_sources, h]

theorem replacement_of_known {x : Expander} {p : Placeholder} {v : Variable}
    (h : p.referent? = some v) : x.replacement p = (x.lookup v.source).getD "" := by
  cases hlookup : x.lookup v.source <;> simp [replacement, lookup_sources, h, hlookup]

theorem warning?_of_unknown {x : Expander} {p : Placeholder} (h : p.referent? = none)
    (value : String) : x.warning? value p = some (.unknownVariable p.text value) := by
  simp [warning?, lookup_sources, h]

theorem warning?_of_known {x : Expander} {p : Placeholder} {v : Variable}
    (h : p.referent? = some v) (value : String) :
    x.warning? value p = if (x.lookup v.source).isNone then some (.noValue v) else none := by
  cases hlookup : x.lookup v.source <;> simp [warning?, lookup_sources, h, hlookup]

/-- A variable resolves to its text, with a warning if it has none. -/
theorem resolve_eq (x : Expander) (v : Variable) :
    x.resolve v =
      { value := (x.lookup v.source).getD ""
        log := if (x.lookup v.source).isNone then [.noValue v] else [] } := by
  cases h : x.lookup v.source with
  | none => exact resolve_of_not_lookup h
  | some text => exact resolve_of_lookup h

theorem value_expandPiece (x : Expander) (value : String) (start : Nat) (name : List Char) :
    (x.expandPiece value (.placeholder name)).value =
      (x.replacement ⟨start, String.ofList name⟩).toList := by
  let p : Placeholder := ⟨start, String.ofList name⟩
  show _ = (x.replacement p).toList
  cases h : p.referent? with
  | none =>
      have hname : Variable.ofName? (String.ofList name) = none := h
      rw [replacement_of_unknown h, Placeholder.text_mk, String.toList_ofList]
      simp [expandPiece, hname]
  | some v =>
      have hname : Variable.ofName? (String.ofList name) = some v := h
      rw [replacement_of_known h]
      simp [expandPiece, hname, resolve_eq]

theorem log_expandPiece (x : Expander) (value : String) (start : Nat) (name : List Char) :
    (x.expandPiece value (.placeholder name)).log =
      (x.warning? value ⟨start, String.ofList name⟩).toList := by
  let p : Placeholder := ⟨start, String.ofList name⟩
  show _ = (x.warning? value p).toList
  cases h : p.referent? with
  | none =>
      have hname : Variable.ofName? (String.ofList name) = none := h
      rw [warning?_of_unknown h, Placeholder.text_mk]
      simp [expandPiece, hname]
  | some v =>
      have hname : Variable.ofName? (String.ofList name) = some v := h
      rw [warning?_of_known h]
      cases hlookup : x.lookup v.source <;> simp [expandPiece, hname, resolve_eq, hlookup]

/-- A value expands to itself with each placeholder replaced. -/
theorem value_expand_eq_substitute (x : Expander) (value : String) :
    (x.expand value).value.toUTF8 = Placeholder.substitute x.replacement value := by
  rw [value_expand]
  refine (Placeholder.substitute_eq_flatMap (fun _ => rfl) (fun start name => ?_) value).symm
  rw [value_expandPiece x value start, String.ofList_toList]

theorem log_expand_eq_filterMap (x : Expander) (value : String) :
    (x.expand value).log = (Placeholder.find value).filterMap (x.warning? value) := by
  rw [log_expand, Placeholder.find]
  exact (Placeholder.filterMap_ofPieces (fun _ => rfl) (log_expandPiece x value) 0 _).symm

theorem level_of_warning? {x : Expander} {value : String} {p : Placeholder} {e : Event}
    (h : x.warning? value p = some e) : e.level = .warn := by
  unfold warning? at h
  split at h
  · simp at h
  · obtain rfl := Option.some.inj h
    rfl
  · obtain rfl := Option.some.inj h
    rfl

/-- **Expansion is substitution along the places.** The placeholders that are found
cut a value into themselves and the texts between; the texts between are kept and
each placeholder is replaced. The log holds the warnings for the placeholders, in
their order, and nothing else, and an observer is shown the value once. -/
theorem expand_eq_substitute (x : Expander) (value : String) :
    Placeholder.substitute Placeholder.text value = value.toUTF8 ∧
    (∀ p ∈ Placeholder.find value, value.toUTF8.extract p.start p.stop = p.text.toUTF8) ∧
    (x.expand value).value.toUTF8 = Placeholder.substitute x.replacement value ∧
    (x.expand value).log = (Placeholder.find value).filterMap (x.warning? value) ∧
    (∀ e ∈ (x.expand value).log, e.level = .warn) ∧
    (x.expand value).observed = if x.watched then [value] else [] := by
  have hlevel : ∀ e ∈ (x.expand value).log, e.level = .warn := by
    intro e he
    rw [log_expand_eq_filterMap, List.mem_filterMap] at he
    obtain ⟨p, -, hwarning⟩ := he
    exact level_of_warning? hwarning
  exact ⟨Placeholder.substitute_text value, fun p => Placeholder.extract_of_mem_find,
    value_expand_eq_substitute x value, log_expand_eq_filterMap x value, hlevel,
    observed_expand x value⟩

end Expander

end PropertyFile
