import PropertyFile.Expander

/-!
# What expansion will complain about

The placeholders of properties that no value can be put in for, found without
expanding anything: those with an unknown name, and those whose variable has no
value.
-/

namespace PropertyFile

/-- A placeholder of a property. -/
structure Finding where
  key : String
  /-- The placeholder as it is written. -/
  span : String
deriving DecidableEq, Repr

namespace Audit

/-- The placeholders of the properties in a scope that `p` holds of, in order. -/
def select (scope : String) (p : Placeholder → Bool) (properties : Properties) : List Finding :=
  let examined := properties.entries.filter fun entry =>
    inScope scope entry.1 && Placeholder.occursIn entry.2
  examined.flatMap fun entry =>
    ((Placeholder.find entry.2).filter p).map fun placeholder => ⟨entry.1, placeholder.text⟩

/-- The placeholders in the default scope whose name is not known. -/
def unknown (properties : Properties) : List Finding :=
  select defaultScope (fun placeholder => placeholder.referent?.isNone) properties

/-- Does the placeholder name a variable that has no value? -/
def lacksValue (x : Expander) (placeholder : Placeholder) : Bool :=
  match placeholder.referent? with
  | some v => (x.lookup v.source).isNone
  | none => false

/-- The placeholders in the scope of `x` that expand to nothing. -/
def unresolved (x : Expander) : List Finding :=
  select x.scope (lacksValue x) x.properties

end Audit

end PropertyFile
