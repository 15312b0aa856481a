import PropertyFile.FileTree
import PropertyFile.Proofs.Command.Loading
import PropertyFile.Proofs.Expander.Session
import PropertyFile.Proofs.Properties.RoundTrip

/-!
# One property and all properties

**What is shown of one property is what is shown of it among all**:
`get_agrees_with_dump`. The two take different ways. `get` looks one value up,
expands it and prints it as it is; `dump` expands all values, escapes them and
prints a property file, which has to be read again to see what it says.

In between stands `Expander.resolveAll`: reading undoes the writing of any
properties, whatever expansion has put into them, and each value in it is the one
that looking up the key gives (`Expander.value_get?`).
-/

namespace PropertyFile

/-- Properties that are written for others to read can be read. -/
theorem FileFormat.parse_render_properties (p : Properties) :
    Properties.parse (FileFormat.properties.render p) = .ok p := by
  rw [render, Properties.render, Properties.parse_flatMap_renderEntry, Dictionary.ofList_entries]

namespace Surroundings

variable {s : Surroundings} {o : Overrides} {file : String} {l : Loaded}

/-- Showing one property as text ends well exactly where the key is there. -/
theorem value_answerGet_text (h : s.loaded? o (some file) = some l) (key : String) :
    (s.answerGet o file key "text" none).value =
      match (l.expander s).resolveAll.value.get? key with
      | none => .refused ("Property '" ++ key ++ "' not found")
      | some value => { delivery := .print (value ++ "\n") } := by
  rw [value_answerGet h, Option.or_none, Expander.value_get?]
  cases (l.expander s).resolveAll.value.get? key <;> rfl

theorem value_answerDump_properties (h : s.loaded? o (some file) = some l) :
    (s.answerDump o file false "properties" none).value =
      { delivery := .print (FileFormat.properties.render (l.expander s).resolveAll.value) } := by
  rw [value_answerDump h]
  rfl

end Surroundings

namespace Invocation

/-- **Showing one property and showing all of them agree.** Where the file and the
definitions can be read, `dump` prints a property file with the keys of the file,
those defined and the home directory's, and `get` prints the value that a key has
in it. Where they cannot be read, both fail. -/
theorem get_agrees_with_dump {F : Type} [FileSystem F] (host : Host F) (o : Overrides)
    (verbosity : Nat) (file : String) :
    let result (command : Command) := ((⟨command, o, verbosity⟩ : Invocation).run host {}).result
    match host.surroundings.loaded? o (some file) with
    | some l =>
        ∃ text shown, result (.dump file false "properties" none) = (.success, text) ∧
          Properties.parse text = .ok shown ∧
          shown.keys = l.names host.surroundings.home? ∧
          ∀ key, result (.get file key "text" none) =
            match shown.get? key with
            | some value => (.success, value ++ "\n")
            | none => (.negative, "")
    | none =>
        result (.dump file false "properties" none) = (.failure, "") ∧
          ∀ key, result (.get file key "text" none) = (.failure, "") := by
  intro result
  cases h : host.surroundings.loaded? o (some file) with
  | none =>
      obtain ⟨d, hdump⟩ := Surroundings.value_answerDump_of_not_loaded? h false "properties" none
      refine ⟨result_run_of_nothing hdump, fun key => ?_⟩
      obtain ⟨d, hget⟩ := Surroundings.value_answerGet_of_not_loaded? h key "text" none
      exact result_run_of_nothing hget
  | some l =>
      let shown := (l.expander host.surroundings).resolveAll.value
      have hkeys : shown.keys = l.names host.surroundings.home? := by
        rw [Expander.keys_resolveAll, Loaded.properties_expander, l.keys_store]
      have hdump := Surroundings.value_answerDump_properties h
      refine ⟨FileFormat.properties.render shown, shown,
        result_run_of_print hdump (Sink.accept_default _),
        FileFormat.parse_render_properties shown, hkeys, fun key => ?_⟩
      have hget := Surroundings.value_answerGet_text h key
      cases hvalue : shown.get? key with
      | none =>
          rw [hvalue] at hget
          exact result_run_of_nothing hget
      | some value =>
          rw [hvalue] at hget
          exact result_run_of_print hget (Sink.accept_default _)

/-- What the environment puts into a value need not fit on a line. -/
example :
    let host : Host FileTree := {
      files := FileTree.ofList [] [("f", "cryptomator.a=<@\x7bAppDir\x7d>".toUTF8)]
      environment := ⟨[("APPDIR", " \\\n".toUTF8)]⟩ }
    let result (command : Command) := ((⟨command, {}, 0⟩ : Invocation).run host {}).result
    result (.dump "f" false "properties" none) = (.success, "cryptomator.a=< \\\\\\n>\n") ∧
      result (.get "f" "cryptomator.a" "text" none) = (.success, "< \\\n>\n") := by
  decide +kernel

end Invocation

end PropertyFile
