import PropertyFile.FileTree
import PropertyFile.Proofs.Command.Loading
import PropertyFile.Proofs.Definition.Grammar
import PropertyFile.Proofs.Expander.Independence

/-!
# A value as a property

**To process a value is to define it as a property and get that**:
`get_of_defined_eq_process`. Any name in the scope will do. The definition comes last,
so it replaces what the file or another definition gives to the name, and its value is
expanded like the value given to `process`: no variable reads a property in the scope,
so the definition is seen by no placeholder.
-/

namespace PropertyFile

open PropertyFile.Text

/-! ### One more definition -/

/-- The overrides with one more definition of a property, after all others. -/
def Overrides.define (o : Overrides) (entry : String) : Overrides :=
  { o with properties := o.properties ++ [entry] }

namespace Loaded

variable {d : Definition}

/-- What has been read, with one more definition of a property. -/
def define (l : Loaded) (d : Definition) : Loaded :=
  { l with properties := l.properties ++ [d] }

/-- The last definition gives the value of its name and of no other. -/
theorem get?_store_define (l : Loaded) (d : Definition) (home : Option String) (key : String) :
    ((l.define d).store home).get? key =
      if key = d.name then some d.value else (l.store home).get? key := by
  rw [get?_store, get?_store, define, List.map_append, List.reverse_append, List.lookup_append]
  by_cases hkey : key = d.name
  · subst hkey
    simp [Definition.pair]
  · simp [Definition.pair, List.lookup_cons, hkey, beq_eq_false_iff_ne.mpr hkey]

/-- A property in the scope is read by no variable. -/
theorem agreeOn_expander_define (l : Loaded) (s : Surroundings)
    (hscope : inScope defaultScope d.name = true) (value : String) :
    ((l.define d).expander s).AgreeOn (l.expander s) value := by
  have hhome : homeProperty ≠ d.name := by
    rintro hname
    rw [← hname] at hscope
    exact absurd hscope (by decide)
  intro p _ v _
  cases v with
  | userHome => exact (l.get?_store_define d s.home? homeProperty).trans (if_neg hhome)
  | _ => rfl

theorem get?_expander_define (l : Loaded) (s : Surroundings)
    (hscope : inScope defaultScope d.name = true) :
    ((l.define d).expander s).get? d.name = some <$> (l.expander s).expand d.value := by
  have hvalue : ((l.define d).expander s).properties.get? d.name = some d.value := by
    rw [properties_expander, get?_store_define, if_pos rfl]
  have hexpand : ((l.define d).expander s).expand d.value = (l.expander s).expand d.value :=
    Expander.expand_congr rfl (agreeOn_expander_define l s hscope d.value)
  rw [Expander.get?_of_some hvalue, Expander.read_of_inScope hscope, hexpand]

end Loaded

/-! ### Two ways to one answer -/

namespace Surroundings

variable {s : Surroundings} {o : Overrides} {d : Definition} {entry : String}

/-- A valid definition after all others does not change which of them fails. -/
theorem expander_define (hentry : Definition.parse entry = .ok d) (p : Properties) :
    s.expander (o.define entry) p =
      (o.properties.mapM Definition.parse).bind fun properties =>
        (o.environment.mapM Definition.parse).map fun environment =>
          (Loaded.define ⟨p, properties, environment⟩ d).expander s := by
  have hlast : [entry].mapM Definition.parse = .ok [d] := by
    rw [List.mapM_cons, hentry]
    rfl
  rw [expander_eq, Overrides.define, List.mapM_append, hlast]
  cases o.properties.mapM Definition.parse <;> rfl

/-- Where the properties have been read, getting the last definition is processing its
value. -/
theorem get?_define_eq_expand (hentry : Definition.parse entry = .ok d)
    (hscope : inScope defaultScope d.name = true) (p : Properties) :
    (∃ e, s.expander (o.define entry) p = .error e ∧ s.expander o p = .error e) ∨
      ∃ x y, s.expander (o.define entry) p = .ok x ∧ s.expander o p = .ok y ∧
        x.get? d.name = some <$> y.expand d.value := by
  rw [expander_define hentry, expander_eq]
  cases o.properties.mapM Definition.parse with
  | error e => exact Or.inl ⟨e, rfl, rfl⟩
  | ok properties =>
      cases o.environment.mapM Definition.parse with
      | error e => exact Or.inl ⟨e, rfl, rfl⟩
      | ok environment =>
          exact Or.inr ⟨_, _, rfl, rfl, Loaded.get?_expander_define _ s hscope⟩

theorem answerGet_define (hentry : Definition.parse entry = .ok d)
    (hscope : inScope defaultScope d.name = true) (file : String) (default : Option String) :
    s.answerGet (o.define entry) file d.name "text" default =
      s.answerProcess o d.value (some file) := by
  simp only [answerGet, answerProcess, loadExpander, bind_assoc]
  congr 1
  funext loaded
  cases loaded with
  | error e => rfl
  | ok p =>
      rcases get?_define_eq_expand (s := s) (o := o) hentry hscope p with ⟨e, hx, hy⟩ | ⟨x, y, hx, hy, hget⟩
      · simp [hx, hy]
      · simp only [pure_bind, hx, hy, hget, bind_map_left, Option.some_or]
        rfl

end Surroundings

namespace Invocation

/-- **To process a value is to define it as a property and get that.** The runs have
the same outcome in all: exit code, output, error output, files and log. -/
theorem get_of_defined_eq_process {F : Type} [FileSystem F] {name : String} (hscope : inScope defaultScope name = true)
    (hequals : '=' ∉ name.toList) (hlast : ∀ c ∈ name.toList.getLast?, isWhiteSpace c = false)
    (host : Host F) (sink : Sink) (o : Overrides) (verbosity : Nat) (value file : String)
    (default : Option String) :
    let defined := { o with properties := o.properties ++ [name ++ "=" ++ value] }
    (⟨.get file name "text" default, defined, verbosity⟩ : Invocation).run host sink =
      (⟨.process value (some file), o, verbosity⟩ : Invocation).run host sink := by
  intro defined
  obtain ⟨rest, hname⟩ := List.isPrefixOf_iff_prefix.mp hscope
  have hisName : Definition.IsName name := by
    refine ⟨?_, hequals, ?_, hlast⟩
    · rintro rfl
      exact absurd hscope (by decide)
    · rw [← hname]
      intro c hc
      obtain rfl : 'c' = c := Option.some.inj hc
      rfl
  have hanswer := Surroundings.answerGet_define (s := host.surroundings) (o := o)
    (Definition.parse_of_isName hisName value) hscope file default
  have hsame : (⟨.get file name "text" default, defined, verbosity⟩ : Invocation).answer
      host.surroundings =
        (⟨.process value (some file), o, verbosity⟩ : Invocation).answer host.surroundings :=
    hanswer
  simp only [run, hsame]

/-- A name that the file and another definition have as well, and a value with an equals
sign, a line end and placeholders. -/
theorem get_of_redefined_eq_process :
    let host : Host FileTree := {
      files := FileTree.ofList [] [("f", "cryptomator.p = 1".toUTF8)]
      environment := ⟨[("APPDIR", "/a".toUTF8)]⟩ }
    let o : Overrides := { properties := ["cryptomator.p=2"] }
    let name := "cryptomator.p"
    let value := "x=@\x7bappdir\x7d\n@\x7bappdata\x7d@\x7bnone\x7d"
    let get : Invocation := ⟨.get "f" name "text" none,
      { o with properties := o.properties ++ [name ++ "=" ++ value] }, 0⟩
    (inScope defaultScope name = true ∧ '=' ∉ name.toList ∧
      ∀ c ∈ name.toList.getLast?, isWhiteSpace c = false) ∧
      get.run host {} = (⟨.process value (some "f"), o, 0⟩ : Invocation).run host {} ∧
      (get.run host {}).result = (.success, "x=/a\n@\x7bnone\x7d\n") := by
  intro host o name value get
  have hscope : inScope defaultScope name = true := by decide
  have hequals : '=' ∉ name.toList := by decide
  have hlast : ∀ c ∈ name.toList.getLast?, isWhiteSpace c = false := by simp [name, isWhiteSpace]
  exact ⟨⟨hscope, hequals, hlast⟩,
    get_of_defined_eq_process hscope hequals hlast host {} o 0 value "f" none,
    by decide +kernel⟩

end Invocation

end PropertyFile
