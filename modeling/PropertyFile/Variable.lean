/-!
# Variables

The names that a placeholder can use, and where each takes its value from: an
environment variable, or a property of the file itself. Letter case does not
matter in a name, as far as ASCII letters go.
-/

namespace PropertyFile

/-- Where a value comes from. -/
inductive Source
  /-- The table of replacements, under the name of an environment variable. -/
  | environment (name : String)
  /-- A property, as it is written. -/
  | property (name : String)
deriving DecidableEq, Repr

/-- The bare name of the source. -/
def Source.name : Source → String
  | .environment name => name
  | .property name => name

/-- The source in words. -/
def Source.text : Source → String
  | .environment name => "environment variable " ++ name
  | .property name => "property " ++ name

/-- The name under which an environment source is kept. -/
def Source.environment? : Source → Option String
  | .environment name => some name
  | .property _ => none

/-- What a placeholder can stand for. -/
inductive Variable
  /-- The directory of the application. -/
  | appDir
  /-- The directory of the application's data. -/
  | appData
  /-- The same, for data that stay on the machine. -/
  | localAppData
  /-- The home directory of the user. -/
  | userHome
deriving DecidableEq, Repr

namespace Variable

/-- All variables. -/
def all : List Variable :=
  [.appDir, .appData, .localAppData, .userHome]

/-- The name of the variable in a placeholder, in lower case. -/
def name : Variable → String
  | .appDir => "appdir"
  | .appData => "appdata"
  | .localAppData => "localappdata"
  | .userHome => "userhome"

/-- Where the value of the variable comes from. -/
def source : Variable → Source
  | .appDir => .environment "APPDIR"
  | .appData => .environment "APPDATA"
  | .localAppData => .environment "LOCALAPPDATA"
  | .userHome => .property "user.home"

/-- The variable of a name, in whatever letter case. -/
def ofName? (text : String) : Option Variable :=
  all.find? fun v => v.name.toList == text.toList.map Char.toLower

/-- No variable is left out. -/
theorem mem_all (v : Variable) : v ∈ all := by
  cases v <;> decide

/-- A name stands for a variable exactly when it is the variable's in lower case. -/
theorem ofName?_eq_some_iff {text : String} {v : Variable} :
    ofName? text = some v ↔ text.toList.map Char.toLower = v.name.toList := by
  have inj : ∀ u w : Variable, u.name.toList = w.name.toList → u = w := by
    intro u w
    cases u <;> cases w <;> decide
  constructor
  · intro h
    have hname := List.find?_some h
    exact (beq_iff_eq.mp hname).symm
  · intro h
    unfold ofName?
    cases hf : all.find? fun v => v.name.toList == text.toList.map Char.toLower with
    | none =>
        have hnone := List.find?_eq_none.mp hf v (mem_all v)
        exact absurd (beq_iff_eq.mpr h.symm) hnone
    | some u =>
        have hname := List.find?_some hf
        rw [inj u v ((beq_iff_eq.mp hname).trans h)]

end Variable

end PropertyFile
