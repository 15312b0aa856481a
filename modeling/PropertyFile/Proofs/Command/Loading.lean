import PropertyFile.Command.Run
import PropertyFile.Proofs.Overrides.Precedence
import PropertyFile.Proofs.Properties.Log

/-!
# What a run works on, and what comes of it

**A run either has all it needs or fails.** It needs the properties of a file and
the definitions on top of them: `Surroundings.loaded?` says when all of these can
be had, by the bytes of the file and the definitions as they are written. By
`value_loadExpander_of_loaded?` and `value_loadExpander_of_not_loaded?` nothing else
decides whether a command goes on.

The keys that a command then works on are those of the file, those defined, and
the home directory's, each where it first comes (`Loaded.keys_store`).

The last part tells what is seen of a run when its answer is known: one lemma for
each way in which an answer is delivered.
-/

namespace PropertyFile

open PropertyFile.Text

/-- What has been read for a run. -/
structure Loaded where
  /-- The properties of the file. -/
  file : Properties
  /-- The properties defined for the run. -/
  properties : List Definition
  /-- The environment variables defined for the run. -/
  environment : List Definition

namespace Loaded

/-- The properties that the commands work on, given the home directory. -/
def store (l : Loaded) (home : Option String) : Properties :=
  Overrides.withHome (l.file.insertMany (l.properties.map Definition.pair)) home

/-- The names of the properties: first those of the file, then those defined, then
the one that the home directory stands in for. -/
def names (l : Loaded) (home : Option String) : List String :=
  (l.file.keys ++ l.properties.map Definition.name ++
    (home.map fun _ => homeProperty).toList).eraseDups

/-- The expander that the commands work with. -/
def expander (l : Loaded) (s : Surroundings) : Expander where
  properties := l.store s.home?
  replacements :=
    (Replacements.ofLookup s.environment?).insertMany (l.environment.map Definition.pair)

@[simp] theorem properties_expander (l : Loaded) (s : Surroundings) :
    (l.expander s).properties = l.store s.home? := rfl

end Loaded

namespace Surroundings

/-- The properties in a file, if its bytes are a text and the text is a property file. -/
def properties? (s : Surroundings) (path : String) : Option Properties := do
  let bytes ← (s.read path).toOption
  let text ← ofBytes? bytes
  (Properties.parse text).toOption

/-- The properties that a run starts from: those of its file, or none at all. -/
def source? (s : Surroundings) : Option String → Option Properties
  | some path => s.properties? path
  | none => some ∅

/-- What a run has, if its file can be read, should it have one, and every definition
is valid. -/
def loaded? (s : Surroundings) (o : Overrides) (file : Option String) : Option Loaded := do
  let p ← s.source? file
  let properties ← o.properties.mapM Definition.parse?
  let environment ← o.environment.mapM Definition.parse?
  return { file := p, properties, environment }

end Surroundings

/-! ### The properties -/

theorem Loaded.keys_store (l : Loaded) (home : Option String) :
    (l.store home).keys = l.names home :=
  Overrides.keys_layer l.file l.properties home

/-- A definition wins over the file, and the file over the home directory; of several
definitions the last one wins. -/
theorem Loaded.get?_store (l : Loaded) (home : Option String) (key : String) :
    (l.store home).get? key =
      (((l.properties.map Definition.pair).reverse.lookup key).or (l.file.get? key)).or
        (if key = homeProperty then home else none) :=
  Overrides.get?_layer l.file l.properties home key

/-! ### Loading -/

namespace Surroundings

variable {s : Surroundings} {o : Overrides} {file : Option String} {l : Loaded}

theorem toOption_readText (s : Surroundings) (path : String) :
    (s.readText path).toOption = (s.read path).toOption.bind ofBytes? := by
  rw [readText]
  cases s.read path with
  | error e => rfl
  | ok bytes =>
      simp only [bind, Except.bind]
      cases htext : ofBytes? bytes with
      | none => exact htext.symm
      | some text => exact htext.symm

/-- A file is loaded if its bytes are a text and the text is a property file. -/
theorem toOption_value_load (s : Surroundings) (path : String) :
    (s.load path).value.toOption = s.properties? path := by
  have hproperties : s.properties? path =
      (s.readText path).toOption.bind fun text => (Properties.parse text).toOption := by
    rw [toOption_readText, Option.bind_assoc]
    rfl
  rw [hproperties, load]
  cases s.readText path with
  | error e => rfl
  | ok text =>
      simp only [Traced.value_bind, Properties.run_parseLogged]
      change _ = (Properties.parse text).toOption
      cases Properties.parse text <;> rfl

/-- The definitions of properties are read before those of the environment, and all
have to be valid. -/
theorem expander_eq (s : Surroundings) (o : Overrides) (p : Properties) :
    s.expander o p =
      (o.properties.mapM Definition.parse).bind fun properties =>
        (o.environment.mapM Definition.parse).map fun environment =>
          Loaded.expander ⟨p, properties, environment⟩ s :=
  o.apply_eq p (Replacements.ofLookup s.environment?) s.home?

theorem toOption_expander (s : Surroundings) (o : Overrides) (p : Properties) :
    (s.expander o p).toOption =
      (o.properties.mapM Definition.parse?).bind fun properties =>
        (o.environment.mapM Definition.parse?).map fun environment =>
          Loaded.expander ⟨p, properties, environment⟩ s := by
  rw [expander_eq, ← Definition.toOption_mapM_parse, ← Definition.toOption_mapM_parse]
  cases o.properties.mapM Definition.parse with
  | error d => rfl
  | ok properties => cases o.environment.mapM Definition.parse <;> rfl

theorem loaded?_eq_some_iff :
    s.loaded? o file = some l ↔
      s.source? file = some l.file ∧ o.properties.mapM Definition.parse? = some l.properties ∧
        o.environment.mapM Definition.parse? = some l.environment := by
  simp only [loaded?, Option.bind_eq_bind, Option.bind_eq_some_iff, Option.pure_def,
    Option.some.injEq]
  constructor
  · rintro ⟨p, hfile, properties, hproperties, environment, henvironment, rfl⟩
    exact ⟨hfile, hproperties, henvironment⟩
  · rintro ⟨hfile, hproperties, henvironment⟩
    exact ⟨_, hfile, _, hproperties, _, henvironment, rfl⟩

/-- The expander of a run is that of what it has, if it has all it needs. -/
theorem toOption_value_loadExpander (s : Surroundings) (o : Overrides) (file : Option String) :
    (s.loadExpander o file).value.toOption = (s.loaded? o file).map fun l => l.expander s := by
  have hload : (s.loadExpander o file).value.toOption =
      (s.source? file).bind fun p => (s.expander o p).toOption := by
    cases file with
    | none => rfl
    | some path =>
        rw [loadExpander, Traced.value_bind, source?, ← toOption_value_load]
        cases (s.load path).value <;> rfl
  rw [hload, loaded?]
  cases s.source? file with
  | none => rfl
  | some p =>
      rw [Option.bind_some, toOption_expander]
      cases o.properties.mapM Definition.parse? with
      | none => rfl
      | some properties => cases o.environment.mapM Definition.parse? <;> rfl

theorem value_loadExpander_of_loaded? (h : s.loaded? o file = some l) :
    (s.loadExpander o file).value = .ok (l.expander s) := by
  have hload := toOption_value_loadExpander s o file
  rw [h, Option.map_some] at hload
  cases hvalue : (s.loadExpander o file).value with
  | error d => simp [hvalue, Except.toOption] at hload
  | ok x =>
      rw [hvalue] at hload
      exact congrArg Except.ok (Option.some.inj hload)

theorem value_loadExpander_of_not_loaded? (h : s.loaded? o file = none) :
    ∃ d, (s.loadExpander o file).value = .error d := by
  have hload := toOption_value_loadExpander s o file
  rw [h, Option.map_none] at hload
  cases hvalue : (s.loadExpander o file).value with
  | error d => exact ⟨d, rfl⟩
  | ok x => simp [hvalue, Except.toOption] at hload

/-! ### What the commands answer -/

variable {path : String}

theorem value_answerGet (h : s.loaded? o (some path) = some l) (key format : String)
    (default : Option String) :
    (s.answerGet o path key format default).value =
      match ((l.expander s).get? key).value.or default with
      | none => .refused ("Property '" ++ key ++ "' not found")
      | some value =>
          match EntryFormat.ofName format with
          | .error e => .refused e.message
          | .ok form => { delivery := .print (form.render key value) } := by
  rw [answerGet, Traced.value_bind, value_loadExpander_of_loaded? h, Traced.value_bind]
  cases ((l.expander s).get? key).value.or default with
  | none => rfl
  | some value => cases EntryFormat.ofName format <;> rfl

theorem value_answerGet_of_not_loaded? (h : s.loaded? o (some path) = none)
    (key format : String) (default : Option String) :
    ∃ d : Diagnostic, (s.answerGet o path key format default).value = .failed d.text := by
  obtain ⟨d, hd⟩ := value_loadExpander_of_not_loaded? h
  exact ⟨d, by rw [answerGet, Traced.value_bind, hd]; rfl⟩

theorem value_answerProcess (h : s.loaded? o file = some l) (value : String) :
    (s.answerProcess o value file).value =
      { delivery := .print (((l.expander s).expand value).value ++ "\n") } := by
  rw [answerProcess, Traced.value_bind, value_loadExpander_of_loaded? h]
  rfl

theorem value_answerProcess_of_not_loaded? (h : s.loaded? o file = none) (value : String) :
    ∃ d : Diagnostic, (s.answerProcess o value file).value = .failed d.text := by
  obtain ⟨d, hd⟩ := value_loadExpander_of_not_loaded? h
  exact ⟨d, by rw [answerProcess, Traced.value_bind, hd]; rfl⟩

theorem value_answerDump (h : s.loaded? o (some path) = some l) (raw : Bool)
    (format : String) (output : Option String) :
    (s.answerDump o path raw format output).value =
      match FileFormat.ofName format with
      | .error e => .refused e.message
      | .ok form =>
          let text := form.render <|
            if raw then l.store s.home? else (l.expander s).resolveAll.value
          match output with
          | some path => { delivery := .save path text }
          | none => { delivery := .print text } := by
  rw [answerDump, Traced.value_bind, value_loadExpander_of_loaded? h]
  cases raw <;> cases FileFormat.ofName format <;> cases output <;> rfl

theorem value_answerDump_of_not_loaded? (h : s.loaded? o (some path) = none) (raw : Bool)
    (format : String) (output : Option String) :
    ∃ d : Diagnostic, (s.answerDump o path raw format output).value = .failed d.text := by
  obtain ⟨d, hd⟩ := value_loadExpander_of_not_loaded? h
  exact ⟨d, by rw [answerDump, Traced.value_bind, hd]; rfl⟩

end Surroundings

/-! ### What is seen of a run -/

section

variable {F : Type}

/-- How the run ends and what has come out. -/
def Outcome.result (outcome : Outcome F) : ExitCode × String :=
  (outcome.code, outcome.out)

/-- The same with the files that the run leaves behind. -/
def Outcome.effect (outcome : Outcome F) : (ExitCode × String) × F :=
  (outcome.result, outcome.files)

theorem Outcome.effect_eq_iff {outcome : Outcome F} {code : ExitCode} {out : String}
    {files : F} :
    outcome.effect = ((code, out), files) ↔
      outcome.code = code ∧ outcome.out = out ∧ outcome.files = files := by
  simp only [effect, result, Prod.mk.injEq, and_assoc]

theorem Sink.accept_default (text : String) : ({} : Sink).accept text = .ok () := by
  unfold accept
  cases text.isEmpty <;> rfl

namespace Invocation

variable [FileSystem F] {i : Invocation} {host : Host F} {sink : Sink} {notes : List String}
  {text path : String} {code : ExitCode}

/-- Where nothing is to be delivered, nothing comes out and nothing can go wrong. -/
theorem effect_run_of_nothing
    (h : (i.answer host.surroundings).value = ⟨notes, .nothing, code⟩) :
    (i.run host sink).effect = ((code, ""), host.files) := by
  simp [run, h, Outcome.effect, Outcome.result, Answer.conclude]

theorem effect_run_of_print
    (h : (i.answer host.surroundings).value = ⟨notes, .print text, code⟩)
    (haccept : sink.accept text = .ok ()) :
    (i.run host sink).effect = ((code, text), host.files) := by
  simp [run, h, haccept, Outcome.effect, Outcome.result, Answer.conclude]

/-- An output that fails decides how the run ends. -/
theorem effect_run_of_not_accept {e : String}
    (h : (i.answer host.surroundings).value = ⟨notes, .print text, code⟩)
    (haccept : sink.accept text = .error e) :
    (i.run host sink).effect = ((.failure, ""), host.files) := by
  simp [run, h, haccept, Outcome.effect, Outcome.result, Answer.conclude]

/-- A text that is saved does not come out, and the files are as writing leaves them. -/
theorem effect_run_of_save
    (h : (i.answer host.surroundings).value = ⟨notes, .save path text, code⟩) :
    (i.run host sink).effect =
      match FileSystem.write host.files path text.toUTF8 with
      | (.ok (), files) => ((code, ""), files)
      | (.error _, files) => ((.failure, ""), files) := by
  simp only [run, h]
  generalize FileSystem.write host.files path text.toUTF8 = delivered
  obtain ⟨_ | _, files⟩ := delivered <;> rfl

theorem result_run_of_nothing
    (h : (i.answer host.surroundings).value = ⟨notes, .nothing, code⟩) :
    (i.run host sink).result = (code, "") :=
  congrArg Prod.fst (effect_run_of_nothing h)

theorem result_run_of_print
    (h : (i.answer host.surroundings).value = ⟨notes, .print text, code⟩)
    (haccept : sink.accept text = .ok ()) :
    (i.run host sink).result = (code, text) :=
  congrArg Prod.fst (effect_run_of_print h haccept)

theorem result_run_of_not_accept {e : String}
    (h : (i.answer host.surroundings).value = ⟨notes, .print text, code⟩)
    (haccept : sink.accept text = .error e) :
    (i.run host sink).result = (.failure, "") :=
  congrArg Prod.fst (effect_run_of_not_accept h haccept)

end Invocation

end

end PropertyFile
