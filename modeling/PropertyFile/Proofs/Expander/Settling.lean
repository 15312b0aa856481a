import PropertyFile.Proofs.Expander.Independence
import PropertyFile.Proofs.Properties.RoundTrip

/-!
# Expanding again

**Where the texts put in are inert, one expansion is enough**: `expand_settles`. An
inert text holds no character of the brackets and at least one that no name can have,
as every absolute path does. Without this a new placeholder can come about: an empty
text in `@@{appdata}{appdir}`, or a word in `@{@{appdir}}`.

The expanded value is cut by the same scanner as the value itself, and what has to be
shown is that the scanner finds the old pieces again, with an inert text as single
characters (`pieces_settle`). The danger is a placeholder that starts at a character of
the value and goes on into what has been put in; it would have to end in there or to
take all of it for a part of its name (`IsInert.not_prefix_append`).
-/

namespace PropertyFile

namespace Piece

/-! ### Texts that no placeholder can touch -/

/-- A text that is part of no placeholder, whatever stands around it. -/
structure IsInert (cs : List Char) : Prop where
  no_at : '@' ∉ cs
  no_open : '\x7b' ∉ cs
  no_close : '\x7d' ∉ cs
  foreign : ∃ c ∈ cs, ¬IsNameChar c

/-- The pieces that a piece gives way to, if `f` is put in for the names that it
knows. -/
def settle (f : List Char → Option (List Char)) : Piece → List Piece
  | .literal c => [.literal c]
  | .placeholder name =>
      match f name with
      | some cs => cs.map .literal
      | none => [.placeholder name]

variable {f : List Char → Option (List Char)}

theorem settle_of_some {name cs : List Char} (h : f name = some cs) :
    settle f (.placeholder name) = cs.map .literal := by
  simp only [settle, h]

theorem settle_of_none {name : List Char} (h : f name = none) :
    settle f (.placeholder name) = [.placeholder name] := by
  simp only [settle, h]

theorem ofPieces_append (ps qs : List Piece) :
    ofPieces (ps ++ qs) = ofPieces ps ++ ofPieces qs :=
  List.flatMap_append

@[simp] theorem ofPieces_map_literal (cs : List Char) : ofPieces (cs.map .literal) = cs := by
  induction cs with
  | nil => rfl
  | cons c cs ih => rw [List.map_cons, ofPieces_cons, ih, text, List.singleton_append]

/-- A text without `@` is cut into its characters. -/
theorem pieces_append_of_no_at {cs : List Char} (h : '@' ∉ cs) (rest : List Char) :
    pieces (cs ++ rest) = cs.map .literal ++ pieces rest := by
  induction cs with
  | nil => rfl
  | cons c cs ih =>
      rw [List.mem_cons, not_or] at h
      have hspan : span? (c :: (cs ++ rest)) = none := by
        rw [Option.eq_none_iff_forall_ne_some]
        rintro ⟨name, rest'⟩ hsome
        exact h.1 (List.cons.inj (span?_eq_some_iff.mp hsome).1).1.symm
      rw [List.cons_append, pieces_of_not_span? hspan, ih h.2, List.map_cons, List.cons_append]

/-- What a placeholder still lacks after a character: a part of its name, with or without
the opening bracket, and the closing one. -/
def IsEndOfSpan (t : List Char) : Prop :=
  ∀ c ∈ t, c = '\x7b' ∨ IsNameChar c

theorem IsEndOfSpan.tail {c : Char} {t : List Char} (h : IsEndOfSpan (c :: t)) : IsEndOfSpan t :=
  fun d hd => h d (List.mem_cons_of_mem c hd)

theorem IsEndOfSpan.no_at {t : List Char} (h : IsEndOfSpan t) : '@' ∉ t ++ ['\x7d'] := by
  intro hmem
  rcases List.mem_append.mp hmem with hmem | hmem
  · rcases h '@' hmem with heq | hname
    · exact absurd heq (by decide)
    · exact absurd (isNameChar_iff.mpr hname) (by decide)
  · simp at hmem

/-- No placeholder that starts before an inert text ends in it or goes beyond it. -/
theorem IsInert.not_prefix_append {cs t : List Char} (hcs : IsInert cs) (ht : IsEndOfSpan t)
    (rest : List Char) : ¬t ++ ['\x7d'] <+: cs ++ rest := by
  intro h
  rcases List.prefix_or_prefix_of_prefix h (List.prefix_append cs rest) with h | h
  -- Either the closing bracket is in the inert text,
  · exact hcs.no_close (h.subset (by simp))
  -- or the inert text is part of the name.
  · obtain ⟨c, hc, hforeign⟩ := hcs.foreign
    rcases List.mem_append.mp (h.subset hc) with hmem | hmem
    · rcases ht c hmem with rfl | hname
      · exact hcs.no_open hc
      · exact hforeign hname
    · obtain rfl := List.mem_singleton.mp hmem
      exact hcs.no_close hc

/-- What a placeholder still lacks is not made up by what has been put in: if it stands in
the settled text, it stood in the value. -/
theorem prefix_of_prefix_settle {ps : List Piece}
    (hinert : ∀ name, .placeholder name ∈ ps → ∀ cs ∈ f name, IsInert cs) {t : List Char}
    (ht : IsEndOfSpan t) (h : t ++ ['\x7d'] <+: ofPieces (ps.flatMap (settle f))) :
    t ++ ['\x7d'] <+: ofPieces ps := by
  induction ps generalizing t with
  | nil => simp at h
  | cons piece ps ih =>
      have hrest : ∀ name, .placeholder name ∈ ps → ∀ cs ∈ f name, IsInert cs :=
        fun name hname => hinert name (List.mem_cons_of_mem piece hname)
      rw [List.flatMap_cons, ofPieces_append] at h
      cases piece with
      | literal c =>
          cases t with
          | nil =>
              obtain ⟨rest, heq⟩ := h
              obtain rfl : '\x7d' = c := (List.cons.inj heq).1
              exact ⟨ofPieces ps, rfl⟩
          | cons d t =>
              obtain ⟨rfl, htail⟩ := List.cons_prefix_cons.mp h
              exact List.cons_prefix_cons.mpr ⟨rfl, ih hrest ht.tail htail⟩
      | placeholder name =>
          cases hname : f name with
          | none =>
              -- The text starts with the `@` of the placeholder that stays.
              rw [settle_of_none hname] at h
              obtain ⟨rest, heq⟩ := h
              refine absurd ?_ ht.no_at
              cases t with
              | nil => exact List.mem_of_mem_head? (congrArg List.head? heq)
              | cons d t => exact List.mem_of_mem_head? (congrArg List.head? heq)
          | some cs =>
              rw [settle_of_some hname, ofPieces_map_literal] at h
              exact absurd h ((hinert name List.mem_cons_self cs hname).not_prefix_append ht _)

/-- Where no placeholder starts in the value, none starts in the settled text. -/
theorem span?_cons_settle {c : Char} {cs : List Char}
    (hinert : ∀ name, .placeholder name ∈ pieces cs → ∀ t ∈ f name, IsInert t)
    (hspan : span? (c :: cs) = none) :
    span? (c :: ofPieces ((pieces cs).flatMap (settle f))) = none := by
  rw [Option.eq_none_iff_forall_ne_some]
  rintro ⟨name, rest⟩ hsome
  obtain ⟨heq, hname⟩ := span?_eq_some_iff.mp hsome
  obtain ⟨rfl, htail⟩ := List.cons.inj heq
  have hend : IsEndOfSpan ('\x7b' :: name) := by
    intro d hd
    rcases List.mem_cons.mp hd with rfl | hd
    · exact Or.inl rfl
    · exact Or.inr (hname.2 d hd)
  have hprefix : '\x7b' :: name ++ ['\x7d'] <+: ofPieces (pieces cs) :=
    prefix_of_prefix_settle hinert hend ⟨rest, htail.symm⟩
  rw [ofPieces_pieces] at hprefix
  obtain ⟨rest', rfl⟩ := hprefix
  have hbefore : span? ('@' :: ('\x7b' :: name ++ ['\x7d'] ++ rest')) = some (name, rest') :=
    span?_eq_some_iff.mpr ⟨rfl, hname⟩
  rw [hbefore] at hspan
  cases hspan

/-- With inert texts put in, the pieces of the value are found again. -/
theorem pieces_settle {cs : List Char}
    (hinert : ∀ name, .placeholder name ∈ pieces cs → ∀ t ∈ f name, IsInert t) :
    pieces (ofPieces ((pieces cs).flatMap (settle f))) = (pieces cs).flatMap (settle f) := by
  fun_induction pieces cs with
  | case1 => simp
  | case2 c cs name rest hspan _ ih =>
      have hrest := ih fun other hother => hinert other (List.mem_cons_of_mem _ hother)
      rw [List.flatMap_cons, ofPieces_append]
      cases hname : f name with
      | none =>
          have hagain : span? (spanText name ++ ofPieces ((pieces rest).flatMap (settle f))) =
              some (name, ofPieces ((pieces rest).flatMap (settle f))) :=
            span?_eq_some_iff.mpr ⟨rfl, (span?_eq_some_iff.mp hspan).2⟩
          rw [settle_of_none hname, ofPieces_cons, ofPieces_nil, List.append_nil, text,
            pieces_of_span? hagain, hrest]
          rfl
      | some t =>
          have ht := hinert name List.mem_cons_self t hname
          rw [settle_of_some hname, ofPieces_map_literal, pieces_append_of_no_at ht.no_at, hrest]
  | case3 c cs hspan ih =>
      have hlater : ∀ name, .placeholder name ∈ pieces cs → ∀ t ∈ f name, IsInert t :=
        fun name hname => hinert name (List.mem_cons_of_mem _ hname)
      rw [List.flatMap_cons, settle, List.singleton_append, ofPieces_cons, text,
        List.singleton_append, pieces_of_not_span? (span?_cons_settle hlater hspan), ih hlater]

/-- The placeholders among the pieces, as they are written. -/
def spans : Piece → List String
  | .literal _ => []
  | .placeholder name => [String.ofList (spanText name)]

end Piece

namespace Placeholder

variable {value : String}

theorem map_text_ofPieces (start : Nat) (ps : List Piece) :
    (ofPieces start ps).map text = ps.flatMap Piece.spans := by
  rw [← List.filterMap_eq_map]
  refine filterMap_ofPieces (fun _ => rfl) (fun start name => ?_) start ps
  show _ = [(⟨start, String.ofList name⟩ : Placeholder).text]
  rw [text_mk, Piece.spans]

theorem exists_mem_find_of_mem_pieces {name : List Char}
    (h : .placeholder name ∈ Piece.pieces value.toList) :
    ∃ p ∈ find value, p.name = String.ofList name := by
  obtain ⟨before, after, heq⟩ := List.append_of_mem h
  exact ⟨_, mem_ofPieces_iff.mpr ⟨before, name, after, heq, rfl⟩, rfl⟩

end Placeholder

namespace Expander

variable {x y : Expander} {value key : String}

/-! ### What is left after an expansion -/

/-- A value whose placeholders all have unknown names expands to itself. -/
theorem value_expand_of_unknown (h : ∀ p ∈ Placeholder.find value, p.referent? = none) :
    (x.expand value).value = value := by
  have hsame : ∀ p ∈ Placeholder.find value, x.replacement p = p.text :=
    fun p hp => replacement_of_unknown (h p hp)
  apply String.toByteArray_inj.mp
  show (x.expand value).value.toUTF8 = value.toUTF8
  rw [value_expand_eq_substitute, Placeholder.substitute_congr hsame,
    Placeholder.substitute_text]

/-- The text put in for a name that is known. -/
def filling (x : Expander) (name : List Char) : Option (List Char) :=
  (Variable.ofName? (String.ofList name)).map fun v => (x.resolve v).value.toList

theorem settle_of_known {name : List Char} {v : Variable}
    (h : Variable.ofName? (String.ofList name) = some v) :
    Piece.settle x.filling (.placeholder name) = (x.resolve v).value.toList.map .literal := by
  simp [Piece.settle, filling, h]

theorem settle_of_unknown {name : List Char} (h : Variable.ofName? (String.ofList name) = none) :
    Piece.settle x.filling (.placeholder name) = [.placeholder name] := by
  simp [Piece.settle, filling, h]

theorem value_expand_eq_settle (x : Expander) (value : String) :
    (x.expand value).value =
      String.ofList (Piece.ofPieces ((Piece.pieces value.toList).flatMap
        (Piece.settle x.filling))) := by
  have hpiece : ∀ piece : Piece, (x.expandPiece value piece).value =
      Piece.ofPieces (Piece.settle x.filling piece) := by
    intro piece
    cases piece with
    | literal c => rfl
    | placeholder name =>
        cases hname : Variable.ofName? (String.ofList name) with
        | none =>
            rw [settle_of_unknown hname]
            simp [expandPiece, hname, Piece.text]
        | some v =>
            rw [settle_of_known hname, Piece.ofPieces_map_literal]
            simp [expandPiece, hname]
  rw [value_expand, Piece.ofPieces, List.flatMap_assoc]
  exact congrArg String.ofList (List.flatMap_congr fun piece _ => hpiece piece)

/-- What is put in for the known placeholders of a value is inert. -/
def FillsInertly (x : Expander) (value : String) : Prop :=
  ∀ p ∈ Placeholder.find value, ∀ v, p.referent? = some v →
    Piece.IsInert (x.resolve v).value.toList

theorem pieces_value_expand (h : x.FillsInertly value) :
    Piece.pieces (x.expand value).value.toList =
      (Piece.pieces value.toList).flatMap (Piece.settle x.filling) := by
  rw [value_expand_eq_settle, String.toList_ofList]
  refine Piece.pieces_settle fun name hname cs hcs => ?_
  obtain ⟨p, hp, hpname⟩ := Placeholder.exists_mem_find_of_mem_pieces hname
  obtain ⟨v, hv, rfl⟩ := Option.map_eq_some_iff.mp hcs
  exact h p hp v (by rw [Placeholder.referent?, hpname, hv])

/-- The placeholders that are left are those with an unknown name. -/
theorem map_text_find_expand (h : x.FillsInertly value) :
    (Placeholder.find (x.expand value).value).map Placeholder.text =
      ((Placeholder.find value).filter fun p => p.referent?.isNone).map Placeholder.text := by
  have hchosen : ((Placeholder.find value).filter fun p => p.referent?.isNone).map
      Placeholder.text = (Placeholder.find value).filterMap fun p =>
        if p.referent?.isNone then some p.text else none := by
    rw [← List.filterMap_eq_map, List.filterMap_filter]
    rfl
  rw [hchosen, Placeholder.find, Placeholder.map_text_ofPieces, pieces_value_expand h,
    List.flatMap_assoc, Placeholder.find]
  refine (Placeholder.filterMap_ofPieces (fun _ => rfl) (fun start name => ?_) 0 _).symm
  have hreferent : (⟨start, String.ofList name⟩ : Placeholder).referent? =
      Variable.ofName? (String.ofList name) := rfl
  cases hname : Variable.ofName? (String.ofList name) with
  | none =>
      rw [settle_of_unknown hname]
      simp [hreferent, hname, Piece.spans]
  | some v =>
      rw [settle_of_known hname]
      simp [hreferent, hname, Piece.spans, List.flatMap_map]

theorem referent?_of_mem_find_expand (h : x.FillsInertly value) {p : Placeholder}
    (hp : p ∈ Placeholder.find (x.expand value).value) : p.referent? = none := by
  have hmem := List.mem_map_of_mem (f := Placeholder.text) hp
  rw [map_text_find_expand h] at hmem
  obtain ⟨q, hq, htext⟩ := List.mem_map.mp hmem
  have hnone : q.referent? = none := Option.isNone_iff_eq_none.mp (List.mem_filter.mp hq).2
  rw [Placeholder.referent?, ← Placeholder.text_inj htext]
  exact hnone

/-- Whoever expands the value again changes nothing. -/
theorem value_expand_expand (h : x.FillsInertly value) (y : Expander) :
    (y.expand (x.expand value).value).value = (x.expand value).value :=
  value_expand_of_unknown fun _ => referent?_of_mem_find_expand h

/-- A property that has been dumped and read back is read as before. -/
theorem value_get?_of_resolveAll (h : x.FillsInertly value)
    (hvalue : x.properties.get? key = some value) (hproperties : y.properties = x.resolveAll.value)
    (hscope : y.scope = x.scope) : (y.get? key).value = (x.get? key).value := by
  have hdumped : y.properties.get? key = some (x.read key value).value := by
    rw [hproperties, get?_resolveAll, hvalue, Option.map_some]
  rw [get?_of_some hdumped, get?_of_some hvalue, Traced.value_map, Traced.value_map]
  cases hkey : inScope x.scope key with
  | true =>
      rw [read_of_inScope hkey, read_of_inScope (hscope ▸ hkey), value_expand_expand h]
  | false =>
      rw [read_of_not_inScope hkey, read_of_not_inScope (hscope ▸ hkey)]

/-- **Expansion settles a value.** If the texts put in are inert, the placeholders that
are left are those with an unknown name, in order; to expand the value again changes
nothing, whichever expander does it; and a property with this value keeps what it is
read as when all properties are written out as they are read and read back. -/
theorem expand_settles (h : x.FillsInertly value) :
    (x.expand (x.expand value).value).value = (x.expand value).value ∧
    (Placeholder.find (x.expand value).value).map Placeholder.text =
      ((Placeholder.find value).filter fun p => p.referent?.isNone).map Placeholder.text ∧
    (∀ y : Expander, (y.expand (x.expand value).value).value = (x.expand value).value) ∧
    ∃ dumped, Properties.parse (Properties.render x.resolveAll.value) = .ok dumped ∧
      ∀ (key : String) (y : Expander), x.properties.get? key = some value →
        y.properties = dumped → y.scope = x.scope → (y.get? key).value = (x.get? key).value := by
  have hdumped : Properties.parse (Properties.render x.resolveAll.value) =
      .ok x.resolveAll.value := by
    rw [Properties.render, Properties.parse_flatMap_renderEntry, Dictionary.ofList_entries]
  exact ⟨value_expand_expand h x, map_text_find_expand h, value_expand_expand h,
    x.resolveAll.value, hdumped, fun _ _ hvalue hproperties hscope =>
      value_get?_of_resolveAll h hvalue hproperties hscope⟩

/-- Placeholders inside brackets and between them, and a variable without a text that is
not asked for. -/
theorem expand_settles_nested :
    let x : Expander := {
      properties := Dictionary.ofList [("user.home", "/home/u")]
      replacements := Dictionary.ofList [("APPDIR", "C:\\a b")] }
    let value := "@\x7b@\x7bAppDir\x7d\x7d@\x7bnope\x7d@@\x7buserhome\x7d\x7bappdata\x7d"
    let expanded := "@\x7bC:\\a b\x7d@\x7bnope\x7d@/home/u\x7bappdata\x7d"
    x.FillsInertly value ∧ (x.expand value).value = expanded ∧
      (x.expand expanded).value = expanded ∧
      (Placeholder.find expanded).map Placeholder.text = ["@\x7bnope\x7d"] := by
  intro x value expanded
  have hfills : x.FillsInertly value := by
    have hfind : Placeholder.find value = [⟨2, "AppDir"⟩, ⟨12, "nope"⟩, ⟨20, "userhome"⟩] := by
      decide +kernel
    have hcolon : ¬Piece.IsNameChar ':' := fun h => absurd (Piece.isNameChar_iff.mpr h) (by decide)
    have hslash : ¬Piece.IsNameChar '/' := fun h => absurd (Piece.isNameChar_iff.mpr h) (by decide)
    intro p hp v hv
    rw [hfind] at hp
    simp only [List.mem_cons, List.not_mem_nil, or_false] at hp
    rcases hp with rfl | rfl | rfl
    · obtain rfl : .appDir = v := Option.some.inj (Eq.trans (by decide) hv)
      exact ⟨by decide, by decide, by decide, ':', by decide, hcolon⟩
    · exact absurd hv (by cases v <;> decide)
    · obtain rfl : .userHome = v := Option.some.inj (Eq.trans (by decide) hv)
      exact ⟨by decide, by decide, by decide, '/', by decide, hslash⟩
  have hexpanded : (x.expand value).value = expanded := by decide +kernel
  obtain ⟨hagain, hleft, -⟩ := expand_settles hfills
  rw [hexpanded] at hagain hleft
  exact ⟨hfills, hexpanded, hagain, hleft.trans (by decide +kernel)⟩

/-- An empty text is not inert: here it lets a new placeholder come about. -/
example : (({ properties := ∅, replacements := ∅ } : Expander).expand
    "@@\x7bappdata\x7d\x7bappdir\x7d").value = "@\x7bappdir\x7d" := by
  decide +kernel

end Expander

end PropertyFile
