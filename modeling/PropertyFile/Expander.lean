import PropertyFile.Placeholder
import PropertyFile.Properties
import PropertyFile.Replacements
import PropertyFile.Traced

/-!
# Expansion on reading

**Properties whose placeholders are expanded when they are read.** Only keys
that start with the scope are expanded; all others are handed out as they are
written. Expansion never fails: a placeholder with an unknown name stays, and
one whose variable has no value becomes nothing, both with a warning. What is put
in for a placeholder is not searched for placeholders again, and a variable that
reads a property reads it as it is written.
-/

namespace PropertyFile

/-- The start of the keys that are expanded unless another scope is given. -/
def defaultScope : String := "cryptomator."

/-- Is a key in a scope? Letter case matters. -/
def inScope (scope key : String) : Bool :=
  scope.toList.isPrefixOf key.toList

/-- Properties, read through the expansion of placeholders. -/
structure Expander where
  /-- The properties as they are written. -/
  properties : Properties
  /-- The texts for variables of the environment. -/
  replacements : Replacements
  /-- The start of the keys whose values are expanded. -/
  scope : String := defaultScope
  /-- Is an observer shown each value before it is expanded? -/
  watched : Bool := false

namespace Expander

/-- The text that a source gives, if it has one. -/
def lookup (x : Expander) : Source → Option String
  | .environment name => x.replacements.get? name
  | .property name => x.properties.get? name

/-- The text for a variable, with a warning if there is none. -/
def resolve (x : Expander) (v : Variable) : Traced String :=
  match x.lookup v.source with
  | some text => pure text
  | none => do
      Traced.note (.noValue v)
      pure ""

/-- What a piece of `value` expands to. -/
def expandPiece (x : Expander) (value : String) : Piece → Traced (List Char)
  | .literal c => pure [c]
  | .placeholder name =>
      match Variable.ofName? (String.ofList name) with
      | some v => String.toList <$> x.resolve v
      | none => do
          Traced.note (.unknownVariable (String.ofList (Piece.spanText name)) value)
          pure (Piece.spanText name)

/-- Expands all placeholders of a value, from left to right. -/
def expand (x : Expander) (value : String) : Traced String := do
  if x.watched then Traced.observe value
  let parts ← (Piece.pieces value.toList).mapM (x.expandPiece value)
  pure (String.ofList parts.flatten)

/-- The value of a key, given how it is written. -/
def read (x : Expander) (key value : String) : Traced String :=
  if inScope x.scope key then x.expand value
  else do
    Traced.note (.outsideScope key x.scope)
    pure value

/-- The value of a key. For a key that is absent, nothing happens. -/
def get? (x : Expander) (key : String) : Traced (Option String) :=
  match x.properties.get? key with
  | some value => some <$> x.read key value
  | none => pure none

/-- The value of a key, or else `default`, which is not expanded. -/
def getD (x : Expander) (key default : String) : Traced String :=
  (fun value => value.getD default) <$> x.get? key

/-- All properties, each read from the properties as they are written. -/
def resolveAll (x : Expander) : Traced Properties :=
  Dictionary.ofList <$> x.properties.entries.mapM fun entry =>
    (fun value => (entry.1, value)) <$> x.read entry.1 entry.2

/-! ### What each operation gives and leaves behind -/

theorem resolve_of_lookup {x : Expander} {v : Variable} {text : String}
    (h : x.lookup v.source = some text) : x.resolve v = pure text := by
  simp [resolve, h]

/-- A variable without a value gives the empty text and one warning. -/
theorem resolve_of_not_lookup {x : Expander} {v : Variable} (h : x.lookup v.source = none) :
    x.resolve v = { value := "", log := [.noValue v] } := by
  simp only [resolve, h]
  rfl

@[simp] theorem observed_resolve (x : Expander) (v : Variable) : (x.resolve v).observed = [] := by
  cases h : x.lookup v.source with
  | none => rw [resolve_of_not_lookup h]
  | some text => rw [resolve_of_lookup h, Traced.observed_pure]

@[simp] theorem observed_expandPiece (x : Expander) (value : String) (piece : Piece) :
    (x.expandPiece value piece).observed = [] := by
  cases piece with
  | literal c => rfl
  | placeholder name =>
      cases h : Variable.ofName? (String.ofList name) <;> simp [expandPiece, h]

/-- An expanded value is put together from its expanded pieces. -/
theorem value_expand (x : Expander) (value : String) :
    (x.expand value).value =
      String.ofList ((Piece.pieces value.toList).flatMap fun piece =>
        (x.expandPiece value piece).value) := by
  cases h : x.watched <;> simp [expand, h, List.flatMap]

/-- The events of an expansion are those of its pieces, in order. -/
theorem log_expand (x : Expander) (value : String) :
    (x.expand value).log =
      (Piece.pieces value.toList).flatMap fun piece => (x.expandPiece value piece).log := by
  cases h : x.watched <;> simp [expand, h]

/-- An observer is shown a value once, as it is written. -/
theorem observed_expand (x : Expander) (value : String) :
    (x.expand value).observed = if x.watched then [value] else [] := by
  cases h : x.watched <;> simp [expand, h]

/-- In the scope, a value is expanded. -/
theorem read_of_inScope {x : Expander} {key : String} (h : inScope x.scope key = true)
    (value : String) : x.read key value = x.expand value := by
  simp [read, h]

/-- Outside the scope, a value is handed out as it is written. -/
theorem read_of_not_inScope {x : Expander} {key : String} (h : inScope x.scope key = false)
    (value : String) :
    x.read key value = { value, log := [.outsideScope key x.scope] } := by
  simp only [read, h]
  rfl

theorem get?_of_some {x : Expander} {key value : String}
    (h : x.properties.get? key = some value) : x.get? key = some <$> x.read key value := by
  simp [get?, h]

/-- For an absent key nothing happens. -/
theorem get?_of_none {x : Expander} {key : String} (h : x.properties.get? key = none) :
    x.get? key = pure none := by
  simp [get?, h]

/-- What is read of all properties is what is read of each. -/
theorem get?_resolveAll (x : Expander) (key : String) :
    x.resolveAll.value.get? key =
      (x.properties.get? key).map fun value => (x.read key value).value := by
  simp only [resolveAll, Traced.value_map, Traced.value_mapM]
  exact Dictionary.get?_ofList_map x.properties (fun key value => (x.read key value).value) key

/-- The events of reading all properties are those of each, in order. -/
theorem log_resolveAll (x : Expander) :
    x.resolveAll.log = x.properties.entries.flatMap fun entry => (x.read entry.1 entry.2).log := by
  simp [resolveAll]

end Expander

end PropertyFile
