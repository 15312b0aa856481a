import PropertyFile.Overrides
import PropertyFile.Proofs.Definition.Grammar
import PropertyFile.Proofs.Dictionary.Merge
import PropertyFile.Proofs.Traversal

/-!
# Which source of a value wins

**The definitions of a run win over the file and the environment, the last one over the
earlier ones, and the home directory stands in last**: `Overrides.apply_layers`. An empty
value is a value like any other and wins as well.

Three kinds of writing meet here. A definition replaces what stands under its name, the
home directory only fills a gap, and the table of the environment is made before any
definition of a variable is put on top. Each is one lemma on the keys and one on the
values (`keys_withHome`, `get?_withHome`, `Replacements.get?_ofLookup`), and merging many
definitions is known from dictionaries.

All of it happens only if every definition is valid. Otherwise the first that is not is
told, where those of properties come before those of variables.
-/

namespace PropertyFile

open PropertyFile.Text

namespace Definition

/-! ### Lists of definitions -/

/-- Is the entry written as a definition at all? -/
def IsValid (entry : String) : Prop :=
  ∃ d : Definition, d.IsWrittenAs entry

/-- The entry is the first of a list that is not valid. -/
def IsFirstInvalid (entries : List String) (entry : String) : Prop :=
  ∃ before after, entries = before ++ entry :: after ∧ (∀ other ∈ before, IsValid other) ∧
    ¬IsValid entry

/-- The value that the last definition of a name gives. -/
def lastValue? (definitions : List Definition) (name : String) : Option String :=
  (definitions.map pair).reverse.lookup name

variable {entries : List String}

theorem isValid_iff {entry : String} : IsValid entry ↔ (parse? entry).isSome = true := by
  simp only [IsValid, Option.isSome_iff_exists, parse?_eq_some_iff]

theorem mapM_parse_eq_ok_iff_forall₂ {definitions : List Definition} :
    entries.mapM parse = .ok definitions ↔
      List.Forall₂ (fun entry d => d.IsWrittenAs entry) entries definitions := by
  simp only [mapM_eq_ok_iff, parse_eq_ok_iff]

theorem toOption_mapM_parse (entries : List String) :
    (entries.mapM parse).toOption = entries.mapM parse? := by
  rw [toOption_mapM]
  congr 1
  funext entry
  unfold parse
  cases parse? entry <;> rfl

theorem exists_mapM_parse_eq_ok_iff :
    (∃ definitions, entries.mapM parse = .ok definitions) ↔ ∀ entry ∈ entries, IsValid entry := by
  simp only [exists_mapM_eq_ok_iff, parse_eq_ok_iff, IsValid]

theorem isSome_mapM_parse?_iff :
    (entries.mapM parse?).isSome = true ↔ ∀ entry ∈ entries, (parse? entry).isSome = true := by
  rw [← toOption_mapM_parse, Option.isSome_iff_exists]
  simp only [toOption_eq_some_iff, exists_mapM_parse_eq_ok_iff, isValid_iff]

/-- The error tells the first entry that is not valid. -/
theorem mapM_parse_eq_error_iff {e : Diagnostic} :
    entries.mapM parse = .error e ↔
      ∃ entry, e = Diagnostic.invalidEntry entry ∧ IsFirstInvalid entries entry := by
  simp only [mapM_eq_error_iff, parse_eq_ok_iff, parse_eq_error_iff, ← not_exists, IsFirstInvalid,
    IsValid]
  constructor
  · rintro ⟨before, entry, after, rfl, hbefore, he, hentry⟩
    exact ⟨entry, he, before, after, rfl, hbefore, hentry⟩
  · rintro ⟨entry, he, before, after, rfl, hbefore, hentry⟩
    exact ⟨before, entry, after, rfl, hbefore, he, hentry⟩

end Definition

/-! ### The table of the environment -/

namespace Replacements

/-- The table knows what the look-up knows, of the names that it asks for. -/
theorem get?_ofLookup (lookup : String → Option String) (name : String) :
    (ofLookup lookup).get? name = if name ∈ wanted then lookup name else none := by
  have hasked : ∀ names : List String,
      (names.filterMap fun n => (lookup n).map fun text => (n, text)).reverse.lookup name =
        if name ∈ names then lookup name else none := by
    intro names
    induction names with
    | nil => rfl
    | cons n names ih =>
        cases hn : lookup n with
        | none =>
            rw [List.filterMap_cons_none (by rw [hn, Option.map_none]), ih]
            by_cases heq : name = n
            · simp [heq, hn]
            · simp [heq]
        | some text =>
            rw [List.filterMap_cons_some (by rw [hn, Option.map_some]), List.reverse_cons,
              List.lookup_append, List.lookup_singleton, ih]
            by_cases heq : name = n
            · by_cases hmem : n ∈ names <;> simp [heq, hn, hmem]
            · simp [heq]
  rw [ofLookup, Dictionary.ofList, Dictionary.get?_insertMany, hasked, Dictionary.get?_empty,
    Option.or_none]

end Replacements

namespace Environment

/-- A variable has a text if it is set and its bytes are one. -/
theorem text?_eq_some_iff {e : Environment} {name text : String} :
    e.text? name = some text ↔ e.bytes? name = some text.toUTF8 := by
  rw [text?, Option.bind_eq_some_iff]
  constructor
  · rintro ⟨bytes, hbytes, htext⟩
    rw [hbytes, eq_toUTF8_of_ofBytes? htext]
  · exact fun h => ⟨_, h, ofBytes?_toUTF8 text⟩

end Environment

namespace Overrides

/-! ### The home directory -/

theorem keys_withHome (p : Properties) (home : Option String) :
    (withHome p home).keys = (p.keys ++ (home.map fun _ => homeProperty).toList).eraseDups := by
  cases home with
  | none => simp [withHome]
  | some home =>
      rw [withHome, Dictionary.keys_insertDefault, Option.map_some, Option.toList_some,
        Dictionary.eraseDups_keys_concat]

theorem get?_withHome (p : Properties) (home : Option String) (key : String) :
    (withHome p home).get? key =
      (p.get? key).or (if key = homeProperty then home else none) := by
  cases home with
  | none => simp [withHome]
  | some home =>
      rw [withHome, Dictionary.get?_insertDefault]
      by_cases hkey : key = homeProperty
      · subst hkey
        cases p.get? homeProperty <;> simp
      · simp [hkey]

/-! ### Putting all of it together -/

/-- The properties with definitions on top, and the home directory for what is missing. -/
def layer (p : Properties) (definitions : List Definition) (home : Option String) : Properties :=
  withHome (p.insertMany (definitions.map Definition.pair)) home

theorem map_fst_map_pair (definitions : List Definition) :
    (definitions.map Definition.pair).map Prod.fst = definitions.map Definition.name := by
  rw [List.map_map]
  rfl

theorem keys_layer (p : Properties) (definitions : List Definition) (home : Option String) :
    (layer p definitions home).keys =
      (p.keys ++ definitions.map Definition.name ++
        (home.map fun _ => homeProperty).toList).eraseDups := by
  rw [layer, keys_withHome, Dictionary.eraseDups_keys_insertMany_append, map_fst_map_pair]

/-- A definition wins over the file, and the file over the home directory; of several
definitions the last one wins. -/
theorem get?_layer (p : Properties) (definitions : List Definition) (home : Option String)
    (key : String) :
    (layer p definitions home).get? key =
      ((Definition.lastValue? definitions key).or (p.get? key)).or
        (if key = homeProperty then home else none) := by
  rw [layer, get?_withHome, Dictionary.get?_insertMany, Definition.lastValue?]

/-- The definitions of properties are read before those of the environment, and all
have to be valid. -/
theorem apply_eq (o : Overrides) (p : Properties) (replacements : Replacements)
    (home : Option String) :
    o.apply p replacements home =
      (o.properties.mapM Definition.parse).bind fun properties =>
        (o.environment.mapM Definition.parse).map fun environment =>
          { properties := layer p properties home
            replacements := replacements.insertMany (environment.map Definition.pair) } := by
  rw [apply, Dictionary.define, Dictionary.define]
  cases o.properties.mapM Definition.parse with
  | error d => rfl
  | ok properties => cases o.environment.mapM Definition.parse <;> rfl

/-- The first entry that is not valid, where definitions of properties come before those
of variables. -/
def IsBlamed (o : Overrides) (entry : String) : Prop :=
  Definition.IsFirstInvalid o.properties entry ∨
    (∀ other ∈ o.properties, Definition.IsValid other) ∧
      Definition.IsFirstInvalid o.environment entry

theorem apply_eq_error_iff {o : Overrides} {p : Properties} {replacements : Replacements}
    {home : Option String} {d : Diagnostic} :
    o.apply p replacements home = .error d ↔
      ∃ entry, d = Diagnostic.invalidEntry entry ∧ o.IsBlamed entry := by
  rw [apply_eq]
  cases hproperties : o.properties.mapM Definition.parse with
  | error e =>
      have hinvalid : ¬∀ other ∈ o.properties, Definition.IsValid other := by
        rw [← Definition.exists_mapM_parse_eq_ok_iff, hproperties]
        simp
      simp only [IsBlamed, hinvalid, false_and, or_false, ← Definition.mapM_parse_eq_error_iff,
        hproperties]
      simp [Except.bind]
  | ok properties =>
      have hvalid := Definition.exists_mapM_parse_eq_ok_iff.mp ⟨properties, hproperties⟩
      have hnone : ∀ entry, ¬Definition.IsFirstInvalid o.properties entry := by
        intro entry hfirst
        rw [Definition.mapM_parse_eq_error_iff.mpr ⟨entry, rfl, hfirst⟩] at hproperties
        cases hproperties
      simp only [IsBlamed, hnone, false_or, eq_true hvalid, true_and,
        ← Definition.mapM_parse_eq_error_iff]
      cases o.environment.mapM Definition.parse <;> simp [Except.bind, Except.map]

theorem exists_apply_eq_ok_iff (o : Overrides) (p : Properties) (replacements : Replacements)
    (home : Option String) :
    (∃ x, o.apply p replacements home = .ok x) ↔
      ∀ entry ∈ o.properties ++ o.environment, Definition.IsValid entry := by
  rw [apply_eq, List.forall_mem_append, ← Definition.exists_mapM_parse_eq_ok_iff,
    ← Definition.exists_mapM_parse_eq_ok_iff]
  cases o.properties.mapM Definition.parse with
  | error e => simp [Except.bind]
  | ok properties =>
      cases o.environment.mapM Definition.parse <;> simp [Except.bind, Except.map]

/-- What an expander holds, given the definitions of a run, and below them the properties
of a file, the environment and the home directory. -/
structure IsLayered (properties environment : List Definition) (p : Properties) (e : Environment)
    (home : Option String) (x : Expander) : Prop where
  /-- A definition wins over the file, and the file over the home directory. -/
  property : ∀ key, x.properties.get? key =
    ((Definition.lastValue? properties key).or (p.get? key)).or
      (if key = "user.home" then home else none)
  /-- The keys of the file come first, then the new names, then the home directory's if
  it stands in. -/
  keys : x.properties.keys =
    p.keys ++ ((properties.map Definition.name).removeAll p.keys).eraseDups ++
      if home.isSome ∧ "user.home" ∉ p.keys ++ properties.map Definition.name then ["user.home"]
      else []
  /-- A definition wins over the environment. -/
  defined : ∀ name text, Definition.lastValue? environment name = some text →
    x.replacements.get? name = some text
  /-- Of the environment, three variables count, where they are set to a text. -/
  inherited : ∀ name, Definition.lastValue? environment name = none → ∀ text,
    x.replacements.get? name = some text ↔
      name ∈ ["APPDIR", "APPDATA", "LOCALAPPDATA"] ∧ e.bytes? name = some text.toUTF8
  scope : x.scope = "cryptomator."

theorem keys_layer_eq_append (p : Properties) (definitions : List Definition)
    (home : Option String) :
    (layer p definitions home).keys =
      p.keys ++ ((definitions.map Definition.name).removeAll p.keys).eraseDups ++
        if home.isSome ∧ homeProperty ∉ p.keys ++ definitions.map Definition.name then
          [homeProperty]
        else [] := by
  rw [keys_layer, List.eraseDups_append, List.eraseDups_append, Dictionary.eraseDups_keys]
  generalize p.keys ++ definitions.map Definition.name = names
  congr 1
  cases home with
  | none => simp [List.removeAll]
  | some home =>
      have hsingle : [homeProperty].eraseDups = [homeProperty] := rfl
      by_cases hmem : homeProperty ∈ names <;> simp [List.removeAll, hmem, hsingle]

theorem isLayered (properties environment : List Definition) (p : Properties) (e : Environment)
    (home : Option String) :
    IsLayered properties environment p e home {
      properties := layer p properties home
      replacements := e.replacements.insertMany (environment.map Definition.pair) } where
  property := get?_layer p properties home
  keys := keys_layer_eq_append p properties home
  defined := fun name text h => by
    have hlast : (environment.map Definition.pair).reverse.lookup name = some text := h
    rw [Dictionary.get?_insertMany, hlast, Option.some_or]
  inherited := fun name h text => by
    have hlast : (environment.map Definition.pair).reverse.lookup name = none := h
    rw [Dictionary.get?_insertMany, hlast, Option.none_or, Environment.replacements,
      Replacements.get?_ofLookup, Replacements.wanted_eq, ← Environment.text?_eq_some_iff,
      Option.ite_none_right_eq_some]
  scope := rfl

/-- **The definitions of a run are the top layer.** They fail with the first that is not
valid, and with nothing else. If all are valid, each of them counts: the last one of a
name wins over the file or the environment, and the home directory stands in for one
property that nothing else gives. -/
theorem apply_layers (o : Overrides) (p : Properties) (e : Environment) (home : Option String) :
    ((∃ d, o.apply p e.replacements home = .error d) ↔
      ∃ entry ∈ o.properties ++ o.environment, ¬Definition.IsValid entry) ∧
    (∀ d, o.apply p e.replacements home = .error d ↔
      ∃ entry, d = Diagnostic.invalidEntry entry ∧ o.IsBlamed entry) ∧
    ((∀ entry ∈ o.properties ++ o.environment, Definition.IsValid entry) →
      ∃ properties environment x,
        List.Forall₂ (fun entry d => d.IsWrittenAs entry) o.properties properties ∧
        List.Forall₂ (fun entry d => d.IsWrittenAs entry) o.environment environment ∧
        o.apply p e.replacements home = .ok x ∧
        IsLayered properties environment p e home x) := by
  refine ⟨?_, fun d => apply_eq_error_iff, fun hvalid => ?_⟩
  · have hok := exists_apply_eq_ok_iff o p e.replacements home
    cases happly : o.apply p e.replacements home with
    | error d =>
        rw [happly] at hok
        simpa using hok
    | ok x =>
        rw [happly] at hok
        simpa using hok
  · rw [List.forall_mem_append] at hvalid
    obtain ⟨properties, hproperties⟩ := Definition.exists_mapM_parse_eq_ok_iff.mpr hvalid.1
    obtain ⟨environment, henvironment⟩ := Definition.exists_mapM_parse_eq_ok_iff.mpr hvalid.2
    have happly := apply_eq o p e.replacements home
    rw [hproperties, henvironment] at happly
    exact ⟨properties, environment, _, Definition.mapM_parse_eq_ok_iff_forall₂.mp hproperties,
      Definition.mapM_parse_eq_ok_iff_forall₂.mp henvironment, happly,
      isLayered properties environment p e home⟩

/-- A name that is defined three times, once with white space around it, and in the end
as an empty text; a value with an equals sign; and the home directory, which stands in. -/
example :
    let o : Overrides := { properties := ["b=1", "a= x=y", " b\u00a0=2", "b="] }
    (o.apply (Dictionary.ofList [("a", ""), ("c", "3")]) ∅ (some "/h")).map
      (fun x => x.properties.entries) =
        .ok [("a", " x=y"), ("c", "3"), ("b", ""), ("user.home", "/h")] := by
  decide

end Overrides

end PropertyFile
