import Mathlib.Data.List.Basic
import PropertyFile.Proofs.Dictionary.Merge
import PropertyFile.Proofs.Expander.Substitution

/-!
# What an expansion depends on

**Expansion reads only what the placeholders of a value refer to**:
`Expander.expand_congr`. Two expanders that agree on these texts (`AgreeOn`) expand
the value alike, whatever else their properties and replacements hold.

So a property depends on its own value and on a few texts besides
(`get?_depends_on_referents`). To see that something else cannot matter, it is enough to
see that no variable reads it: the three lemmas `agreeOn_…` do this for other properties,
for other entries of the table and for the order of both.
-/

namespace PropertyFile

namespace Placeholder

variable {f g : Placeholder → String}

theorem substituteFrom_congr {ps : List Placeholder} (h : ∀ p ∈ ps, f p = g p)
    (bytes : ByteArray) (start : Nat) :
    substituteFrom f bytes start ps = substituteFrom g bytes start ps := by
  induction ps generalizing start with
  | nil => rfl
  | cons p ps ih =>
      rw [substituteFrom, substituteFrom, h p List.mem_cons_self,
        ih fun q hq => h q (List.mem_cons_of_mem p hq)]

/-- Substitution asks only for the texts of the placeholders that are found. -/
theorem substitute_congr {value : String} (h : ∀ p ∈ find value, f p = g p) :
    substitute f value = substitute g value :=
  substituteFrom_congr h value.toUTF8 0

end Placeholder

namespace Expander

variable {x y : Expander} {key value : String} {p : Placeholder}

/-- The expanders agree on what the placeholders of a value refer to: in each of them
a variable has the same text, or has none. -/
def AgreeOn (x y : Expander) (value : String) : Prop :=
  ∀ p ∈ Placeholder.find value, ∀ v, p.referent? = some v →
    x.lookup v.source = y.lookup v.source

theorem replacement_congr
    (h : ∀ v, p.referent? = some v → x.lookup v.source = y.lookup v.source) :
    x.replacement p = y.replacement p := by
  cases hv : p.referent? with
  | none => rw [replacement_of_unknown hv, replacement_of_unknown hv]
  | some v => rw [replacement_of_known hv, replacement_of_known hv, h v hv]

theorem warning?_congr
    (h : ∀ v, p.referent? = some v → x.lookup v.source = y.lookup v.source) :
    x.warning? value p = y.warning? value p := by
  cases hv : p.referent? with
  | none => rw [warning?_of_unknown hv, warning?_of_unknown hv]
  | some v => rw [warning?_of_known hv, warning?_of_known hv, h v hv]

theorem value_expand_congr (h : x.AgreeOn y value) :
    (x.expand value).value = (y.expand value).value := by
  have hreplacement : ∀ p ∈ Placeholder.find value, x.replacement p = y.replacement p :=
    fun p hp => replacement_congr (h p hp)
  have hbytes : (x.expand value).value.toUTF8 = (y.expand value).value.toUTF8 := by
    rw [value_expand_eq_substitute, value_expand_eq_substitute,
      Placeholder.substitute_congr hreplacement]
  exact String.toByteArray_inj.mp hbytes

theorem log_expand_congr (h : x.AgreeOn y value) : (x.expand value).log = (y.expand value).log := by
  rw [log_expand_eq_filterMap, log_expand_eq_filterMap]
  exact List.filterMap_congr fun p hp => warning?_congr (h p hp)

/-- **Expansion reads only what the placeholders of the value refer to.** -/
theorem expand_congr (hwatched : x.watched = y.watched) (h : x.AgreeOn y value) :
    x.expand value = y.expand value := by
  apply Traced.ext
  · exact value_expand_congr h
  · exact log_expand_congr h
  · rw [observed_expand, observed_expand, hwatched]

/-! ### Reading a property -/

/-- The property is read alike by both: it has the same value, the same is logged, and
where both or none of them are watched, the same is shown. -/
structure ReadAlike (x y : Expander) (key : String) : Prop where
  value : (x.get? key).value = (y.get? key).value
  log : (x.get? key).log = (y.get? key).log
  observed : x.watched = y.watched → (x.get? key).observed = (y.get? key).observed

/-- Two that have the same value for a key and agree on what its placeholders refer to
read it alike. -/
theorem readAlike_of_agreeOn (hscope : x.scope = y.scope)
    (hvalue : x.properties.get? key = y.properties.get? key)
    (h : ∀ value, x.properties.get? key = some value → x.AgreeOn y value) :
    ReadAlike x y key := by
  cases hx : x.properties.get? key with
  | none =>
      have hsame : x.get? key = y.get? key := by
        rw [get?_of_none hx, get?_of_none (hvalue ▸ hx)]
      exact ⟨by rw [hsame], by rw [hsame], fun _ => by rw [hsame]⟩
  | some value =>
      have hagree := h value hx
      rw [hx] at hvalue
      cases hkey : inScope x.scope key with
      | true =>
          have hexpandx : x.get? key = some <$> x.expand value := by
            rw [get?_of_some hx, read_of_inScope hkey]
          have hexpandy : y.get? key = some <$> y.expand value := by
            rw [get?_of_some hvalue.symm, read_of_inScope (hscope ▸ hkey)]
          refine ⟨?_, ?_, fun hwatched => ?_⟩
          · rw [hexpandx, hexpandy, Traced.value_map, Traced.value_map, value_expand_congr hagree]
          · rw [hexpandx, hexpandy, Traced.log_map, Traced.log_map, log_expand_congr hagree]
          · rw [hexpandx, hexpandy, expand_congr hwatched hagree]
      | false =>
          have hsame : x.get? key = y.get? key := by
            rw [get?_of_some hx, get?_of_some hvalue.symm, read_of_not_inScope hkey,
              read_of_not_inScope (hscope ▸ hkey), hscope]
          exact ⟨by rw [hsame], by rw [hsame], fun _ => by rw [hsame]⟩

/-- Only one property is read by variables. -/
theorem agreeOn_insert_property (x : Expander) {other : String} (h : other ≠ "user.home")
    (text value : String) :
    x.AgreeOn { x with properties := x.properties.insert other text } value := by
  intro p _ v _
  cases v with
  | userHome => exact ((x.properties.get?_insert other text "user.home").trans (if_neg h.symm)).symm
  | _ => rfl

/-- Only three entries of the table are read by variables. -/
theorem agreeOn_insert_replacement (x : Expander) {name : String} (h : name ∉ Replacements.wanted)
    (text value : String) :
    x.AgreeOn { x with replacements := x.replacements.insert name text } value := by
  intro p _ v _
  have hname : ∀ wanted ∈ Replacements.wanted,
      x.replacements.get? wanted = (x.replacements.insert name text).get? wanted := by
    intro wanted hwanted
    have hne : wanted ≠ name := fun heq => h (heq ▸ hwanted)
    rw [Dictionary.get?_insert, if_neg hne]
  cases v with
  | userHome => rfl
  | _ => exact hname _ (by decide)

/-- The order of entries does not matter. -/
theorem agreeOn_of_perm {p : Properties} {r : Replacements}
    (hp : p.entries.Perm x.properties.entries) (hr : r.entries.Perm x.replacements.entries)
    (value : String) : x.AgreeOn { x with properties := p, replacements := r } value := by
  intro _ _ v _
  cases v with
  | userHome => exact (Dictionary.get?_eq_of_perm hp "user.home").symm
  | _ => exact (Dictionary.get?_eq_of_perm hr _).symm

/-- **A property depends on its own value and on what its placeholders refer to, and on
nothing else**: on no other property that is not read by a variable, on no other entry of
the table, whatever its letter case, and on the order of neither. -/
theorem get?_depends_on_referents (x : Expander) (key : String) :
    (∀ y : Expander, x.scope = y.scope → x.properties.get? key = y.properties.get? key →
      (∀ value, x.properties.get? key = some value → x.AgreeOn y value) → ReadAlike x y key) ∧
    (∀ other text, other ≠ key → other ≠ "user.home" →
      ReadAlike x { x with properties := x.properties.insert other text } key) ∧
    (∀ name text, name ∉ ["APPDIR", "APPDATA", "LOCALAPPDATA"] →
      ReadAlike x { x with replacements := x.replacements.insert name text } key) ∧
    (∀ (p : Properties) (r : Replacements), p.entries.Perm x.properties.entries →
      r.entries.Perm x.replacements.entries →
        ReadAlike x { x with properties := p, replacements := r } key) := by
  refine ⟨fun y => readAlike_of_agreeOn, ?_, ?_, ?_⟩
  · intro other text hkey hother
    refine readAlike_of_agreeOn rfl ?_ fun value _ => agreeOn_insert_property x hother text value
    rw [Dictionary.get?_insert, if_neg hkey.symm]
  · intro name text hname
    exact readAlike_of_agreeOn rfl rfl fun value _ => agreeOn_insert_replacement x hname text value
  · intro p r hp hr
    exact readAlike_of_agreeOn rfl (Dictionary.get?_eq_of_perm hp key).symm
      fun value _ => agreeOn_of_perm hp hr value

end Expander

end PropertyFile
