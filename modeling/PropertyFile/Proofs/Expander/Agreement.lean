import Mathlib.Data.List.Forall2
import PropertyFile.Expander.Audit
import PropertyFile.Proofs.Expander.Substitution

/-!
# The audit and the expansion agree

**What the audit finds is what the log of an expansion complains about.** The two
never meet: the audit searches the values of the properties, and the expansion
rewrites them and leaves its warnings behind.

Both are read off one list, the `occurrences` of placeholders in the values that
are expanded: the findings are chosen from it (`select_eq`), and each warning is
left by one element of it (`warnings_resolveAll`). That the two choices agree is
checked for one placeholder at a time (`forall₂_filter_select`).
-/

namespace PropertyFile

namespace Event

/-- Does the event tell of a placeholder with an unknown name? -/
def isUnknownVariable : Event → Bool
  | .unknownVariable _ _ => true
  | _ => false

/-- Does the event tell of a variable without a value? -/
def isNoValue : Event → Bool
  | .noValue _ => true
  | _ => false

end Event

/-- A placeholder in the value of a property. -/
structure Occurrence where
  key : String
  /-- The value, as it is written. -/
  value : String
  placeholder : Placeholder

/-- What an audit says of an occurrence. -/
def Occurrence.finding (o : Occurrence) : Finding :=
  ⟨o.key, o.placeholder.text⟩

private theorem flatMap_filter_of_eq_nil {α β : Type} {b : α → Bool} {g : α → List β}
    (h : ∀ a, b a = false → g a = []) (as : List α) :
    (as.filter b).flatMap g = as.flatMap g := by
  induction as with
  | nil => rfl
  | cons a as ih =>
      rw [List.filter_cons, List.flatMap_cons, ← ih]
      cases hb : b a with
      | false => simp [h a hb]
      | true => simp

/-- Two ways to choose from a list agree if they agree on each element. -/
private theorem forall₂_filterMap_filter {α β γ : Type} {R : β → γ → Prop} {f : α → Option β}
    {q : α → Bool} {g : α → γ} {as : List α}
    (hnone : ∀ a ∈ as, q a = false → f a = none)
    (hsome : ∀ a ∈ as, q a = true → ∃ b, f a = some b ∧ R b (g a)) :
    List.Forall₂ R (as.filterMap f) ((as.filter q).map g) := by
  induction as with
  | nil => exact List.Forall₂.nil
  | cons a as ih =>
      have hrest := ih (fun a' ha' => hnone a' (List.mem_cons_of_mem a ha'))
        (fun a' ha' => hsome a' (List.mem_cons_of_mem a ha'))
      cases hq : q a with
      | false =>
          rw [List.filterMap_cons_none (hnone a List.mem_cons_self hq),
            List.filter_cons_of_neg (by simp [hq])]
          exact hrest
      | true =>
          obtain ⟨b, hb, hR⟩ := hsome a List.mem_cons_self hq
          rw [List.filterMap_cons_some hb, List.filter_cons_of_pos hq]
          exact List.Forall₂.cons hR hrest

namespace Expander

/-! ### The placeholders that are expanded -/

/-- The placeholders in the values that are expanded, in order. -/
def occurrences (x : Expander) : List Occurrence :=
  (x.properties.entries.filter fun entry => inScope x.scope entry.1).flatMap fun entry =>
    (Placeholder.find entry.2).map fun p => ⟨entry.1, entry.2, p⟩

theorem mem_occurrences_iff {x : Expander} {o : Occurrence} :
    o ∈ x.occurrences ↔
      x.properties.get? o.key = some o.value ∧ inScope x.scope o.key = true ∧
        o.placeholder ∈ Placeholder.find o.value := by
  rw [← Dictionary.mem_entries_iff]
  simp only [occurrences, List.mem_flatMap, List.mem_filter, List.mem_map]
  constructor
  · rintro ⟨entry, ⟨hentry, hscope⟩, p, hp, rfl⟩
    exact ⟨hentry, hscope, hp⟩
  · rintro ⟨hentry, hscope, hp⟩
    exact ⟨(o.key, o.value), ⟨hentry, hscope⟩, o.placeholder, hp, rfl⟩

/-- The findings of an audit in the scope are some of the occurrences. -/
theorem select_eq (x : Expander) (q : Placeholder → Bool) :
    Audit.select x.scope q x.properties =
      (x.occurrences.filter fun o => q o.placeholder).map Occurrence.finding := by
  have hexamined : (x.properties.entries.filter fun entry =>
      inScope x.scope entry.1 && Placeholder.occursIn entry.2) =
        (x.properties.entries.filter fun entry => inScope x.scope entry.1).filter
          fun entry => Placeholder.occursIn entry.2 := by
    simp only [List.filter_filter, Bool.and_comm]
  rw [Audit.select, hexamined, flatMap_filter_of_eq_nil, occurrences, List.filter_flatMap,
    List.map_flatMap]
  · simp only [List.filter_map, List.map_map]
    rfl
  -- The values that the audit passes over hold no placeholder anyway.
  · intro entry hnone
    have hfind : Placeholder.find entry.2 = [] := by
      by_contra hne
      rw [Placeholder.occursIn_iff.mpr hne] at hnone
      exact Bool.noConfusion hnone
    rw [hfind]
    rfl

theorem mem_select_iff {x : Expander} {q : Placeholder → Bool} {f : Finding} :
    f ∈ Audit.select x.scope q x.properties ↔
      ∃ o ∈ x.occurrences, q o.placeholder = true ∧ o.finding = f := by
  simp only [select_eq, List.mem_map, List.mem_filter, and_assoc]

theorem warnings_read_of_inScope {x : Expander} {key : String} (h : inScope x.scope key = true)
    (value : String) :
    (x.read key value).log.filter (fun e => e.level == .warn) =
      (Placeholder.find value).filterMap (x.warning? value) := by
  rw [read_of_inScope h, log_expand_eq_filterMap, List.filter_eq_self]
  intro e he
  obtain ⟨p, -, hwarning⟩ := List.mem_filterMap.mp he
  exact beq_iff_eq.mpr (level_of_warning? hwarning)

/-- The warnings left by reading all properties are those for the occurrences, in
order. Properties outside the scope leave no warning. -/
theorem warnings_resolveAll (x : Expander) :
    x.resolveAll.log.filter (fun e => e.level == .warn) =
      x.occurrences.filterMap fun o => x.warning? o.value o.placeholder := by
  have houtside : ∀ entry : String × String, inScope x.scope entry.1 = false →
      (x.read entry.1 entry.2).log.filter (fun e => e.level == .warn) = [] := by
    intro entry h
    rw [read_of_not_inScope h]
    rfl
  rw [log_resolveAll, List.filter_flatMap, ← flatMap_filter_of_eq_nil houtside, occurrences,
    List.filterMap_flatMap]
  refine List.flatMap_congr fun entry hentry => ?_
  rw [warnings_read_of_inScope (List.mem_filter.mp hentry).2, List.filterMap_map]
  rfl

/-! ### Warnings and findings -/

/-- If the audit for `q` chooses the occurrences that leave a warning of one kind,
then warnings and findings come in pairs. -/
theorem forall₂_filter_select {x : Expander} {kind : Event → Bool} {q : Placeholder → Bool}
    {R : Event → Finding → Prop} (hkind : ∀ e, kind e = true → e.level = .warn)
    (hnone : ∀ o ∈ x.occurrences, q o.placeholder = false →
      (x.warning? o.value o.placeholder).filter kind = none)
    (hsome : ∀ o ∈ x.occurrences, q o.placeholder = true →
      ∃ e, (x.warning? o.value o.placeholder).filter kind = some e ∧ R e o.finding) :
    List.Forall₂ R (x.resolveAll.log.filter kind) (Audit.select x.scope q x.properties) := by
  have hwarn : x.resolveAll.log.filter kind =
      (x.resolveAll.log.filter fun e => e.level == .warn).filter kind := by
    rw [List.filter_filter]
    refine List.filter_congr fun e _ => ?_
    -- Only warnings are of the kind.
    cases h : kind e with
    | false => rfl
    | true => simp [hkind e h]
  rw [hwarn, warnings_resolveAll, List.filter_filterMap, select_eq]
  exact forall₂_filterMap_filter hnone hsome

end Expander

namespace Audit

/-- The warning names the placeholder that was found, and the value it stands in. -/
def TellsUnknown (x : Expander) (e : Event) (f : Finding) : Prop :=
  ∃ value p, x.properties.get? f.key = some value ∧ p ∈ Placeholder.find value ∧
    p.text = f.span ∧ e = .unknownVariable f.span value ∧
    e.message = "Unknown variable " ++ f.span ++ " in property value " ++ value

/-- The warning names the variable of the placeholder that was found, and its source. -/
def TellsUnresolved (x : Expander) (e : Event) (f : Finding) : Prop :=
  ∃ value p v, x.properties.get? f.key = some value ∧ p ∈ Placeholder.find value ∧
    p.text = f.span ∧ p.name.toLower = v.name ∧ e = .noValue v ∧
    e.message = "Variable " ++ v.name ++ " used for substitution not found in " ++
      v.source.text ++ ". Replaced with empty string."

theorem forall₂_unknown {x : Expander} (h : x.scope = defaultScope) :
    List.Forall₂ (TellsUnknown x) (x.resolveAll.log.filter Event.isUnknownVariable)
      (unknown x.properties) := by
  rw [unknown, ← h]
  refine Expander.forall₂_filter_select ?_ ?_ ?_
  · intro e he
    cases e with
    | unknownVariable span value => rfl
    | _ => simp [Event.isUnknownVariable] at he
  · intro o _ hq
    cases hv : o.placeholder.referent? with
    | none => simp [hv] at hq
    | some v =>
        rw [Expander.warning?_of_known hv]
        split <;> rfl
  · intro o ho hq
    obtain ⟨hvalue, -, hp⟩ := Expander.mem_occurrences_iff.mp ho
    have hv : o.placeholder.referent? = none := by simpa using hq
    rw [Expander.warning?_of_unknown hv]
    exact ⟨_, rfl, o.value, o.placeholder, hvalue, hp, rfl, rfl, rfl⟩

theorem forall₂_unresolved (x : Expander) :
    List.Forall₂ (TellsUnresolved x) (x.resolveAll.log.filter Event.isNoValue)
      (unresolved x) := by
  refine Expander.forall₂_filter_select ?_ ?_ ?_
  · intro e he
    cases e with
    | noValue v => rfl
    | _ => simp [Event.isNoValue] at he
  · intro o _ hq
    cases hv : o.placeholder.referent? with
    | none =>
        rw [Expander.warning?_of_unknown hv]
        rfl
    | some v =>
        simp only [lacksValue, hv] at hq
        rw [Expander.warning?_of_known hv, hq]
        rfl
  · intro o ho hq
    obtain ⟨hvalue, -, hp⟩ := Expander.mem_occurrences_iff.mp ho
    cases hv : o.placeholder.referent? with
    | none => simp [lacksValue, hv] at hq
    | some v =>
        simp only [lacksValue, hv] at hq
        rw [Expander.warning?_of_known hv, hq]
        exact ⟨_, rfl, o.value, o.placeholder, v, hvalue, hp, rfl,
          Expander.referent?_eq_some_iff.mp hv, rfl, rfl⟩

/-- No placeholder both has an unknown name and lacks a value. -/
theorem not_mem_unresolved_of_mem_unknown {x : Expander} (h : x.scope = defaultScope)
    {f : Finding} (hf : f ∈ unknown x.properties) : f ∉ unresolved x := by
  intro hf'
  rw [unknown, ← h] at hf
  obtain ⟨o, -, hunknown, rfl⟩ := Expander.mem_select_iff.mp hf
  obtain ⟨o', -, hlacks, hfinding⟩ := Expander.mem_select_iff.mp hf'
  -- The two may stand at different places, but they have one name.
  have hname : o'.placeholder.name = o.placeholder.name :=
    Placeholder.text_inj (congrArg Finding.span hfinding)
  have hnone : o'.placeholder.referent? = none := by
    rw [Placeholder.referent?, hname]
    exact Option.isNone_iff_eq_none.mp hunknown
  simp [lacksValue, hnone] at hlacks

/-- A placeholder that is not found has a variable with a value. -/
theorem exists_lookup_of_not_mem {x : Expander} (h : x.scope = defaultScope) {o : Occurrence}
    (ho : o ∈ x.occurrences) (hunknown : o.finding ∉ unknown x.properties)
    (hunresolved : o.finding ∉ unresolved x) :
    ∃ (v : Variable) (text : String), o.placeholder.name.toLower = v.name ∧
      x.lookup v.source = some text ∧ x.replacement o.placeholder = text := by
  rw [unknown, ← h, Expander.mem_select_iff] at hunknown
  rw [unresolved, Expander.mem_select_iff] at hunresolved
  cases hv : o.placeholder.referent? with
  | none => exact absurd ⟨o, ho, by simp [hv], rfl⟩ hunknown
  | some v =>
      cases htext : x.lookup v.source with
      | none => exact absurd ⟨o, ho, by simp [lacksValue, hv, htext], rfl⟩ hunresolved
      | some text =>
          refine ⟨v, text, Expander.referent?_eq_some_iff.mp hv, htext, ?_⟩
          rw [Expander.replacement_of_known hv, htext]
          rfl

/-- What an audit of `x` says, expansion does. -/
structure Agrees (x : Expander) : Prop where
  /-- The placeholders with an unknown name are those that the log tells of, in order. -/
  unknown : List.Forall₂ (TellsUnknown x) (x.resolveAll.log.filter Event.isUnknownVariable)
    (Audit.unknown x.properties)
  /-- So are the placeholders without a value. -/
  unresolved : List.Forall₂ (TellsUnresolved x) (x.resolveAll.log.filter Event.isNoValue)
    (Audit.unresolved x)
  /-- No placeholder is on both lists. -/
  disjoint : ∀ f ∈ Audit.unknown x.properties, f ∉ Audit.unresolved x
  /-- In the scope, each placeholder of a value gives way to its replacement. -/
  expanded : ∀ key value, x.properties.get? key = some value → inScope x.scope key = true →
    (x.resolveAll.value.get? key).map String.toUTF8 =
      some (Placeholder.substitute x.replacement value)
  /-- Where it is on neither list, this is the text that its source has. -/
  replaced : ∀ key value, x.properties.get? key = some value → inScope x.scope key = true →
    ∀ p ∈ Placeholder.find value, ⟨key, p.text⟩ ∉ Audit.unknown x.properties →
      ⟨key, p.text⟩ ∉ Audit.unresolved x →
        ∃ (v : Variable) (text : String), p.name.toLower = v.name ∧
          x.lookup v.source = some text ∧ x.replacement p = text

/-- **The audit tells what expansion does.** In the default scope, findings and
warnings come in pairs, and what is not found is replaced by a value. -/
theorem agrees_of_default_scope (x : Expander) (h : x.scope = defaultScope) : Agrees x where
  unknown := forall₂_unknown h
  unresolved := forall₂_unresolved x
  disjoint := fun _ hf => not_mem_unresolved_of_mem_unknown h hf
  expanded := fun key value hvalue hscope => by
    rw [Expander.get?_resolveAll, hvalue, Option.map_some, Option.map_some,
      Expander.read_of_inScope hscope, Expander.value_expand_eq_substitute]
  replaced := fun key value hvalue hscope p hp hunknown hunresolved => by
    let o : Occurrence := ⟨key, value, p⟩
    have ho : o ∈ x.occurrences := Expander.mem_occurrences_iff.mpr ⟨hvalue, hscope, hp⟩
    exact exists_lookup_of_not_mem h ho hunknown hunresolved

/-- An expander with placeholders of each kind in one value. -/
def mixed : Expander where
  properties := Dictionary.ofList
    [("cryptomator.logDir", "@\x7bnope\x7d/@\x7bUserHome\x7d/@\x7bappdata\x7d"),
      ("user.home", "/home/u"), ("other", "@\x7bnope\x7d")]
  replacements := ∅

theorem agrees_mixed :
    mixed.scope = defaultScope ∧
    unknown mixed.properties = [⟨"cryptomator.logDir", "@\x7bnope\x7d"⟩] ∧
    unresolved mixed = [⟨"cryptomator.logDir", "@\x7bappdata\x7d"⟩] ∧
    Agrees mixed := by
  refine ⟨rfl, ?_, ?_, agrees_of_default_scope mixed rfl⟩
  · decide +kernel
  · decide +kernel

end Audit

end PropertyFile
