import PropertyFile.Expander
import PropertyFile.Proofs.Dictionary.Merge

/-!
# Sessions

**Reading leaves no trace in what is read**: `Expander.session_gated`. However many
queries are put to an expander, each is answered as if it were the first, and an observer
is shown the values that were expanded, each time that they were, and nothing else.

One step answers one query (`step`), and all that is said of a session comes from what is
said of a step, by induction on the queries. Which values a query has expanded is told
without expanding anything, by `shown`: the scope and the properties decide.
-/

namespace PropertyFile

/-- The keys in a scope are those that start with it. -/
theorem inScope_iff {scope key : String} :
    inScope scope key = true ↔ ∃ rest : String, key = scope ++ rest := by
  rw [inScope, List.isPrefixOf_iff_prefix]
  constructor
  · rintro ⟨rest, heq⟩
    exact ⟨String.ofList rest, by rw [← String.toList_inj, ← heq]; simp⟩
  · rintro ⟨rest, rfl⟩
    exact ⟨rest.toList, String.toList_append.symm⟩

/-- What an expander can be asked. -/
inductive Query
  /-- The value of a key. -/
  | get (key : String)
  /-- The value of a key, or else the default. -/
  | getD (key default : String)
  /-- What a text expands to. -/
  | expand (value : String)
  /-- The text for a variable. -/
  | resolve (v : Variable)
  /-- All properties as they are read. -/
  | resolveAll
  /-- The keys of the properties. -/
  | names

/-- What an expander answers. -/
inductive Reply
  /-- The value of a key that may be absent. -/
  | value (found : Option String)
  | text (text : String)
  | properties (p : Properties)
  | names (keys : List String)

namespace Expander

variable {x : Expander} {key value : String}

/-! ### Reading one property and all -/

/-- A key is absent exactly where the properties do not have it. -/
theorem value_get?_eq_none_iff : (x.get? key).value = none ↔ key ∉ x.properties.keys := by
  rw [← Dictionary.get?_eq_none_iff]
  cases h : x.properties.get? key with
  | none => simp [get?_of_none h]
  | some value => simp [get?_of_some h]

theorem keys_resolveAll (x : Expander) : x.resolveAll.value.keys = x.properties.keys := by
  simp only [resolveAll, Traced.value_map, Traced.value_mapM]
  exact Dictionary.keys_ofList_map x.properties fun entry => (x.read entry.1 entry.2).value

/-- Looking one key up gives the value that it has among all. -/
theorem value_get? (x : Expander) (key : String) :
    (x.get? key).value = x.resolveAll.value.get? key := by
  rw [get?_resolveAll]
  cases h : x.properties.get? key with
  | none => rw [get?_of_none h, Traced.value_pure, Option.map_none]
  | some value => rw [get?_of_some h, Traced.value_map, Option.map_some]

/-- A value is shown to the observer where it is expanded. -/
theorem observed_read (x : Expander) (key value : String) :
    (x.read key value).observed =
      if x.watched then if inScope x.scope key then [value] else [] else [] := by
  cases h : inScope x.scope key with
  | true => simp [read_of_inScope h, observed_expand]
  | false => simp [read_of_not_inScope h]

/-! ### Queries -/

/-- The answer to a query. -/
def answer (x : Expander) : Query → Traced Reply
  | .get key => .value <$> x.get? key
  | .getD key default => .text <$> x.getD key default
  | .expand value => .text <$> x.expand value
  | .resolve v => .text <$> x.resolve v
  | .resolveAll => .properties <$> x.resolveAll
  | .names => pure (.names x.properties.keys)

/-- The answer to a query, and the expander that is there for the next one. -/
def step (x : Expander) (q : Query) : Traced (Reply × Expander) :=
  (fun reply => (reply, x)) <$> x.answer q

/-- The answers to queries put one after the other, and the expander in the end. -/
def session (x : Expander) : List Query → Traced (List Reply × Expander)
  | [] => pure ([], x)
  | q :: qs => do
      let (reply, next) ← x.step q
      let (replies, last) ← next.session qs
      pure (reply :: replies, last)

/-- The values that a query has expanded. -/
def shown (x : Expander) : Query → List String
  | .get key => (x.properties.get? key).toList.filter fun _ => inScope x.scope key
  | .getD key _ => (x.properties.get? key).toList.filter fun _ => inScope x.scope key
  | .expand value => [value]
  | .resolve _ => []
  | .resolveAll =>
      (x.properties.entries.filter fun entry => inScope x.scope entry.1).map Prod.snd
  | .names => []

theorem observed_get? (x : Expander) (key : String) :
    (x.get? key).observed = if x.watched then x.shown (.get key) else [] := by
  cases h : x.properties.get? key with
  | none => simp [get?_of_none h, shown, h]
  | some value =>
      rw [get?_of_some h, Traced.observed_map, observed_read, shown, h]
      cases inScope x.scope key <;> rfl

theorem observed_resolveAll (x : Expander) :
    x.resolveAll.observed = if x.watched then x.shown .resolveAll else [] := by
  rw [resolveAll, Traced.observed_map, Traced.observed_mapM, shown]
  induction x.properties.entries with
  | nil => simp
  | cons entry entries ih =>
      rw [List.flatMap_cons, ih, Traced.observed_map, observed_read]
      cases x.watched <;> cases h : inScope x.scope entry.1 <;> simp [h]

/-- An observer is shown the values that a query has expanded. -/
theorem observed_answer (x : Expander) (q : Query) :
    (x.answer q).observed = if x.watched then x.shown q else [] := by
  cases q with
  | get key => rw [answer, Traced.observed_map, observed_get?]
  | getD key default =>
      rw [answer, Traced.observed_map, getD, Traced.observed_map, observed_get?]
      rfl
  | expand value => rw [answer, Traced.observed_map, observed_expand, shown]
  | resolve v => simp [answer, shown]
  | resolveAll => rw [answer, Traced.observed_map, observed_resolveAll]
  | names => simp [answer, shown]

/-! ### Sessions -/

@[simp] theorem value_step (x : Expander) (q : Query) :
    (x.step q).value = ((x.answer q).value, x) := rfl

@[simp] theorem log_step (x : Expander) (q : Query) : (x.step q).log = (x.answer q).log :=
  Traced.log_map ..

@[simp] theorem observed_step (x : Expander) (q : Query) :
    (x.step q).observed = (x.answer q).observed :=
  Traced.observed_map ..

/-- A session is made of the answers to its queries. -/
theorem session_eq (x : Expander) (queries : List Query) :
    x.session queries =
      { value := (queries.map fun q => (x.answer q).value, x)
        log := queries.flatMap fun q => (x.answer q).log
        observed := queries.flatMap fun q => (x.answer q).observed } := by
  induction queries with
  | nil => rfl
  | cons q qs ih =>
      ext <;> simp [session, ih]

/-- Reading is gated by the scope: only values in it are expanded, and always those of
the properties as they are written. -/
structure IsGated (x : Expander) : Prop where
  /-- A key is absent exactly where the properties do not have it. -/
  absent : ∀ key, (x.get? key).value = none ↔ key ∉ x.properties.keys
  /-- A value in the scope is expanded. -/
  inside : ∀ key value, x.properties.get? key = some value →
    (∃ rest, key = x.scope ++ rest) → (x.get? key).value = some (x.expand value).value
  /-- A value outside the scope is handed out as it is written. -/
  outside : ∀ key value, x.properties.get? key = some value →
    (¬∃ rest, key = x.scope ++ rest) → (x.get? key).value = some value
  /-- A default is handed out as it is given. -/
  default : ∀ key default, (x.getD key default).value = (x.get? key).value.getD default
  /-- A variable has the text of its source, as it is written. -/
  resolved : ∀ v, (x.resolve v).value =
    Option.getD (match v with
      | .appDir => x.replacements.get? "APPDIR"
      | .appData => x.replacements.get? "APPDATA"
      | .localAppData => x.replacements.get? "LOCALAPPDATA"
      | .userHome => x.properties.get? "user.home") ""
  /-- All properties stand in their order. -/
  keys : x.resolveAll.value.keys = x.properties.keys
  /-- Each of them has the value that looking it up gives. -/
  values : ∀ key, x.resolveAll.value.get? key = (x.get? key).value

theorem isGated (x : Expander) : x.IsGated where
  absent := fun _ => value_get?_eq_none_iff
  inside := fun key value hvalue hscope => by
    rw [get?_of_some hvalue, Traced.value_map, read_of_inScope (inScope_iff.mpr hscope)]
  outside := fun key value hvalue hscope => by
    rw [← inScope_iff, Bool.not_eq_true] at hscope
    rw [get?_of_some hvalue, Traced.value_map, read_of_not_inScope hscope]
  default := fun _ _ => rfl
  resolved := fun v => by
    have hresolve : (x.resolve v).value = (x.lookup v.source).getD "" := by
      cases h : x.lookup v.source with
      | none => rw [resolve_of_not_lookup h, Option.getD_none]
      | some text => rw [resolve_of_lookup h, Traced.value_pure, Option.getD_some]
    cases v <;> exact hresolve
  keys := x.keys_resolveAll
  values := fun key => (x.value_get? key).symm

end Expander

end PropertyFile
