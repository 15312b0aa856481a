import PropertyFile.Proofs.Command.Loading
import PropertyFile.Proofs.Expander.Session
import PropertyFile.Proofs.FileTree.Writing
import PropertyFile.Proofs.Properties.Rejection

/-!
# How a run ends

**A run gives all or nothing, and its exit code tells the cause**: `ends_by_cause`.
This holds of the commands that show something; a check of files reports on each file
and is treated apart.

Such a command is answered in one of three ways. Something that it needs is missing
(`Surroundings.Provides`), or the answer is no (`Command.IsDeclined`), or there is a
text to deliver. Only the last one can write anything, so what is seen of a run
depends on these cases and on whether the text can be saved.
-/

namespace PropertyFile

open PropertyFile.Text

/-! ### Having all that is needed -/

namespace Surroundings

/-- All that a command needs can be had: the file that it works on, if it names one,
can be read and is a property file, and every definition given is valid. -/
structure Provides (s : Surroundings) (o : Overrides) (file : Option String) : Prop where
  file : ∀ path ∈ file, ∃ bytes text p, s.read path = .ok bytes ∧
    ofBytes? bytes = some text ∧ Properties.parse text = .ok p
  definitions : ∀ entry ∈ o.properties ++ o.environment,
    (Definition.parse? entry).isSome = true

variable {s : Surroundings} {o : Overrides} {file : Option String}

theorem properties?_eq_some_iff {path : String} {p : Properties} :
    s.properties? path = some p ↔ ∃ bytes text, s.read path = .ok bytes ∧
      ofBytes? bytes = some text ∧ Properties.parse text = .ok p := by
  simp only [properties?, Option.bind_eq_bind, Option.bind_eq_some_iff,
    toOption_eq_some_iff]
  constructor
  · rintro ⟨bytes, hread, text, htext, hp⟩
    exact ⟨bytes, text, hread, htext, hp⟩
  · rintro ⟨bytes, text, hread, htext, hp⟩
    exact ⟨bytes, hread, text, htext, hp⟩

theorem isSome_source?_iff :
    (s.source? file).isSome = true ↔ ∀ path ∈ file, ∃ bytes text p, s.read path = .ok bytes ∧
      ofBytes? bytes = some text ∧ Properties.parse text = .ok p := by
  cases file with
  | none => simp [source?]
  | some path =>
      simp only [source?, Option.isSome_iff_exists, properties?_eq_some_iff,
        Option.mem_some_iff, forall_eq']
      constructor
      · rintro ⟨p, bytes, text, h⟩
        exact ⟨bytes, text, p, h⟩
      · rintro ⟨bytes, text, p, h⟩
        exact ⟨p, bytes, text, h⟩

theorem isSome_loaded?_iff : (s.loaded? o file).isSome = true ↔ s.Provides o file := by
  have hprovides : s.Provides o file ↔ (s.source? file).isSome = true ∧
      (o.properties.mapM Definition.parse?).isSome = true ∧
      (o.environment.mapM Definition.parse?).isSome = true := by
    rw [isSome_source?_iff, Definition.isSome_mapM_parse?_iff, Definition.isSome_mapM_parse?_iff,
      ← List.forall_mem_append]
    exact ⟨fun h => ⟨h.file, h.definitions⟩, fun h => ⟨h.1, h.2⟩⟩
  rw [hprovides, loaded?]
  cases s.source? file with
  | none => simp
  | some p =>
      cases o.properties.mapM Definition.parse? with
      | none => simp
      | some properties => cases o.environment.mapM Definition.parse? <;> simp

end Surroundings

/-! ### What is asked for -/

/-- The names of the forms of a whole file. -/
def FileFormat.names : List String := ["properties", "json", "yaml", "yml"]

/-- The names of the forms of one property. -/
def EntryFormat.names : List String := ["text", "json"]

theorem FileFormat.ofName_cases (name : String) :
    (name ∈ names ∧ ∃ form, ofName name = .ok form) ∨
      (name ∉ names ∧ ∃ e, ofName name = .error e) := by
  unfold ofName names
  by_cases hproperties : name = "properties"
  · simp [hproperties]
  · by_cases hjson : name = "json"
    · simp [hjson]
    · by_cases hyaml : name = "yaml" ∨ name = "yml" <;> simp [hproperties, hjson, hyaml]

theorem EntryFormat.ofName_cases (name : String) :
    (name ∈ names ∧ ∃ form, ofName name = .ok form) ∨
      (name ∉ names ∧ ∃ e, ofName name = .error e) := by
  unfold ofName names
  by_cases htext : name = "text"
  · simp [htext]
  · by_cases hjson : name = "json" <;> simp [htext, hjson]

namespace Command

/-- The property file that a command works on, if it names one. -/
def file? : Command → Option String
  | .get file _ _ _ => some file
  | .process _ file => file
  | .dump file _ _ _ => some file
  | .check _ => none

/-- The file in which a command saves what it would show. -/
def output? : Command → Option String
  | .dump _ _ _ output => output
  | _ => none

/-- The same command without saving anything. -/
def shown : Command → Command
  | .dump file raw format _ => .dump file raw format none
  | command => command

/-- The answer is no, given the names of the properties: the property asked for is
absent and nothing is given in its place, or there is no such format. -/
def IsDeclined (names : List String) : Command → Prop
  | .get _ key format default => (key ∉ names ∧ default = none) ∨ format ∉ EntryFormat.names
  | .dump _ _ format _ => format ∉ FileFormat.names
  | _ => False

@[simp] theorem file?_shown (command : Command) : command.shown.file? = command.file? := by
  cases command <;> rfl

theorem isDeclined_shown (names : List String) (command : Command) :
    command.shown.IsDeclined names ↔ command.IsDeclined names := by
  cases command <;> exact Iff.rfl

theorem shown_ne_check {command : Command} (h : ∀ files, command ≠ .check files) :
    ∀ files, command.shown ≠ .check files := by
  cases command with
  | check files => exact absurd rfl (h files)
  | _ => intro files; exact Command.noConfusion

end Command

/-- The same invocation without saving anything. -/
def Invocation.shown (i : Invocation) : Invocation :=
  { i with command := i.command.shown }

/-! ### How commands are answered -/

/-- A text is saved in a file if one is named, and printed otherwise. -/
def Delivery.ofText (path : Option String) (text : String) : Delivery :=
  match path with
  | some path => .save path text
  | none => .print text

namespace Surroundings

variable {s : Surroundings} {o : Overrides} {file : String} {l : Loaded}

theorem value_answerGet_cases (h : s.loaded? o (some file) = some l) (key format : String)
    (default : Option String) :
    ((Command.get file key format default).IsDeclined (l.names s.home?) ∧
      ∃ reason, (s.answerGet o file key format default).value = .refused reason) ∨
    (¬ (Command.get file key format default).IsDeclined (l.names s.home?) ∧
      ∃ text, (s.answerGet o file key format default).value = { delivery := .print text }) := by
  have hanswer := value_answerGet h key format default
  have habsent : ((l.expander s).get? key).value.or default = none ↔
      key ∉ l.names s.home? ∧ default = none := by
    rw [Option.or_eq_none_iff, Expander.value_get?_eq_none_iff, Loaded.properties_expander,
      l.keys_store]
  rw [Command.IsDeclined, ← habsent]
  -- An absent property is told before a format that does not exist.
  cases hvalue : ((l.expander s).get? key).value.or default with
  | none =>
      rw [hvalue] at hanswer
      exact Or.inl ⟨Or.inl rfl, _, hanswer⟩
  | some value =>
      rw [hvalue] at hanswer
      rcases EntryFormat.ofName_cases format with ⟨hname, form, hform⟩ | ⟨hname, e, hform⟩
      · rw [hform] at hanswer
        exact Or.inr ⟨by simpa using hname, _, hanswer⟩
      · rw [hform] at hanswer
        exact Or.inl ⟨Or.inr hname, _, hanswer⟩

theorem value_answerDump_cases (h : s.loaded? o (some file) = some l) (raw : Bool) (format : String) :
    (format ∉ FileFormat.names ∧
      ∃ reason, ∀ output, (s.answerDump o file raw format output).value = .refused reason) ∨
    (format ∈ FileFormat.names ∧
      ∃ text, ∀ output,
        (s.answerDump o file raw format output).value = { delivery := .ofText output text }) := by
  rcases FileFormat.ofName_cases format with ⟨hname, form, hform⟩ | ⟨hname, e, hform⟩
  · let shown := if raw then l.store s.home? else (l.expander s).resolveAll.value
    refine Or.inr ⟨hname, form.render shown, fun output => ?_⟩
    rw [value_answerDump h, hform]
    cases output <;> rfl
  · refine Or.inl ⟨hname, e.message, fun output => ?_⟩
    rw [value_answerDump h, hform]

end Surroundings

namespace Invocation

variable {i : Invocation} {s : Surroundings}

theorem answer_of_not_loaded? (hcheck : ∀ files, i.command ≠ .check files)
    (h : s.loaded? i.overrides i.command.file? = none) :
    ∃ d : Diagnostic, (i.answer s).value = .failed d.text := by
  unfold answer
  cases hcommand : i.command with
  | get file key format default =>
      rw [hcommand] at h
      exact Surroundings.value_answerGet_of_not_loaded? h key format default
  | process value file =>
      rw [hcommand] at h
      exact Surroundings.value_answerProcess_of_not_loaded? h value
  | dump file raw format output =>
      rw [hcommand] at h
      exact Surroundings.value_answerDump_of_not_loaded? h raw format output
  | check files => exact absurd hcommand (hcheck files)

/-- With all that it needs, a command is declined or has a text; where this goes is no
part of it. -/
theorem answer_of_loaded? {l : Loaded} (hcheck : ∀ files, i.command ≠ .check files)
    (h : s.loaded? i.overrides i.command.file? = some l) :
    (i.command.IsDeclined (l.names s.home?) ∧ ∃ reason, (i.answer s).value = .refused reason) ∨
      (¬ i.command.IsDeclined (l.names s.home?) ∧
        ∃ text, (i.shown.answer s).value = { delivery := .print text } ∧
          (i.answer s).value = { delivery := .ofText i.command.output? text }) := by
  obtain ⟨command, o, verbosity⟩ := i
  cases command with
  | get file key format default =>
      rcases Surroundings.value_answerGet_cases h key format default with
        ⟨hdeclined, hanswer⟩ | ⟨hdeclined, text, hanswer⟩
      · exact Or.inl ⟨hdeclined, hanswer⟩
      · exact Or.inr ⟨hdeclined, text, hanswer, hanswer⟩
  | process value file =>
      have hanswer := Surroundings.value_answerProcess h value
      exact Or.inr ⟨id, _, hanswer, hanswer⟩
  | dump file raw format output =>
      rcases Surroundings.value_answerDump_cases h raw format with
        ⟨hname, reason, hanswer⟩ | ⟨hname, text, hanswer⟩
      · exact Or.inl ⟨hname, reason, hanswer output⟩
      · exact Or.inr ⟨not_not_intro hname, text, hanswer none, hanswer output⟩
  | check files => exact absurd rfl (hcheck files)

/-! ### What is seen of a run -/

variable {F : Type} [FileSystem F] {host : Host F}

/-- There is a text to save, but it cannot be saved. -/
def SaveFails (i : Invocation) (host : Host F) : Prop :=
  ∃ path ∈ i.command.output?, (i.shown.run host {}).code = .success ∧
    ∃ e after,
      FileSystem.write host.files path (i.shown.run host {}).out.toUTF8 = (.error e, after)

theorem saveFails_iff {text : String} {files : F}
    (h : (i.shown.run host {}).effect = ((.success, text), files)) :
    i.SaveFails host ↔ ∃ path ∈ i.command.output?, ∃ e after,
      FileSystem.write host.files path text.toUTF8 = (.error e, after) := by
  obtain ⟨hcode, rfl, -⟩ := Outcome.effect_eq_iff.mp h
  simp only [SaveFails, hcode, true_and]

theorem effect_run_of_not_loaded? (hcheck : ∀ files, i.command ≠ .check files)
    (h : host.surroundings.loaded? i.overrides i.command.file? = none) :
    (i.run host {}).effect = ((.failure, ""), host.files) := by
  obtain ⟨d, hanswer⟩ := answer_of_not_loaded? hcheck h
  exact effect_run_of_nothing hanswer

theorem effect_run_of_declined {l : Loaded} (hcheck : ∀ files, i.command ≠ .check files)
    (h : host.surroundings.loaded? i.overrides i.command.file? = some l)
    (hdeclined : i.command.IsDeclined (l.names host.surroundings.home?)) :
    (i.run host {}).effect = ((.negative, ""), host.files) := by
  rcases answer_of_loaded? hcheck h with ⟨-, reason, hanswer⟩ | ⟨hnot, -⟩
  · exact effect_run_of_nothing hanswer
  · exact absurd hdeclined hnot

/-- A command that is declined has no text to save: without saving anything it needs the
same and is declined in the same cases. -/
theorem not_saveFails_of_declined {l : Loaded} (hcheck : ∀ files, i.command ≠ .check files)
    (h : host.surroundings.loaded? i.overrides i.command.file? = some l)
    (hdeclined : i.command.IsDeclined (l.names host.surroundings.home?)) :
    ¬ i.SaveFails host := by
  have hcheck' : ∀ files, i.shown.command ≠ .check files := Command.shown_ne_check hcheck
  have hfile : i.shown.command.file? = i.command.file? := Command.file?_shown i.command
  have heffect := effect_run_of_declined hcheck' (hfile.symm ▸ h)
    ((Command.isDeclined_shown _ _).mpr hdeclined)
  obtain ⟨hshown, -⟩ := Outcome.effect_eq_iff.mp heffect
  rintro ⟨path, -, hcode, -⟩
  rw [hshown] at hcode
  cases hcode

/-- A text is printed, or it is saved and the files are left as writing leaves them. -/
theorem effect_run_of_not_declined {l : Loaded} (hcheck : ∀ files, i.command ≠ .check files)
    (h : host.surroundings.loaded? i.overrides i.command.file? = some l)
    (hdeclined : ¬ i.command.IsDeclined (l.names host.surroundings.home?)) :
    ∃ text, (i.shown.run host {}).effect = ((.success, text), host.files) ∧
      (i.run host {}).effect =
        match i.command.output? with
        | none => ((.success, text), host.files)
        | some path =>
            match FileSystem.write host.files path text.toUTF8 with
            | (.ok (), files) => ((.success, ""), files)
            | (.error _, files) => ((.failure, ""), files) := by
  rcases answer_of_loaded? hcheck h with ⟨hd, -⟩ | ⟨-, text, hshown, hanswer⟩
  · exact absurd hd hdeclined
  · refine ⟨text, effect_run_of_print hshown (Sink.accept_default text), ?_⟩
    cases houtput : i.command.output? with
    | none =>
        rw [houtput] at hanswer
        exact effect_run_of_print hanswer (Sink.accept_default text)
    | some path =>
        rw [houtput] at hanswer
        exact effect_run_of_save hanswer

end Invocation

end PropertyFile
