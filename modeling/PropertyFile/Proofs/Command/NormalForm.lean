import PropertyFile.Proofs.Command.Ending
import PropertyFile.Proofs.Command.Listing

/-!
# A normal form

**What is dumped as it is written can be dumped again and stays as it is**:
`raw_dump_is_normal_form`. The definitions of a run are put on top of the file each
time, and the home directory stands in each time, so the second dump starts from
properties that have been through all of this before.

Doing it again changes nothing. Where a name is defined several times, the second
round writes the older values once more, but the last one wins in the end and no key
has to move (`Dictionary.insertMany_eq_self`); and the home directory can only stand
in where nothing stands yet (`Loaded.store_store`).
-/

namespace PropertyFile

open PropertyFile.Text

namespace Overrides

/-- Once the home directory has stood in, it need not do so again. -/
theorem withHome_withHome (p : Properties) (home : Option String) :
    withHome (withHome p home) home = withHome p home := by
  cases home with
  | none => rfl
  | some home =>
      have hmem : homeProperty ∈ (withHome p (some home)).keys := by
        rw [← Dictionary.isSome_get?_iff, get?_withHome]
        cases p.get? homeProperty <;> simp
      rw [withHome, Dictionary.insertDefault, if_pos (Dictionary.contains_iff.mpr hmem)]

end Overrides

namespace Loaded

/-- The same definitions on top of what they have led to lead nowhere else. -/
theorem store_store (l : Loaded) (home : Option String) :
    ({ l with file := l.store home } : Loaded).store home = l.store home := by
  have hsame : (l.store home).insertMany (l.properties.map Definition.pair) = l.store home :=
    Dictionary.insertMany_eq_self fun key value hlookup => by
      rw [get?_store, hlookup, Option.some_or, Option.some_or]
  rw [store, hsame]
  exact Overrides.withHome_withHome _ home

theorem expander_store (l : Loaded) (s : Surroundings) :
    ({ l with file := l.store s.home? } : Loaded).expander s = l.expander s := by
  rw [expander, l.store_store]
  rfl

end Loaded

namespace Surroundings

variable {s : Surroundings} {o : Overrides} {file path : String} {l : Loaded}

/-- The definitions are the same for every file. -/
theorem loaded?_of_properties? {p : Properties} (h : s.loaded? o (some file) = some l)
    {other : Surroundings} (hp : other.properties? path = some p) :
    other.loaded? o (some path) = some { l with file := p } := by
  obtain ⟨-, hproperties, henvironment⟩ := loaded?_eq_some_iff.mp h
  exact loaded?_eq_some_iff.mpr ⟨hp, hproperties, henvironment⟩

end Surroundings

namespace Invocation

variable {F : Type} [FileSystem F] {host : Host F} {o : Overrides} {file : String}

theorem result_run_of_raw_dump {l : Loaded}
    (h : host.surroundings.loaded? o (some file) = some l) (verbosity : Nat) :
    ((⟨.dump file true "properties" none, o, verbosity⟩ : Invocation).run host {}).result =
      (.success, FileFormat.properties.render (l.store host.surroundings.home?)) :=
  result_run_of_print (Surroundings.value_answerDump h true "properties" none)
    (Sink.accept_default _)

/-- **What is dumped as it is written is a normal form.** A file with the content of the
dump loads as the very properties that the first run worked on. With the same
definitions, environment and home directory, a run on it works with the same expander,
and its dump is the same text again. -/
theorem raw_dump_is_normal_form (h : host.surroundings.Provides o (some file))
    (verbosity : Nat) :
    let dump (path : String) : Invocation := ⟨.dump path true "properties" none, o, verbosity⟩
    ∃ x text, (host.surroundings.loadExpander o (some file)).value = .ok x ∧
      ((dump file).run host {}).result = (.success, text) ∧
      ∀ files path, FileSystem.read files path = .ok text.toUTF8 →
        let other : Host F := { host with files }
        (other.surroundings.load path).value = .ok x.properties ∧
          (other.surroundings.loadExpander o (some path)).value = .ok x ∧
          ((dump path).run other {}).result = (.success, text) := by
  intro dump
  obtain ⟨l, hl⟩ := Option.isSome_iff_exists.mp (Surroundings.isSome_loaded?_iff.mpr h)
  let store := l.store host.surroundings.home?
  let text := FileFormat.properties.render store
  refine ⟨l.expander host.surroundings, text,
    Surroundings.value_loadExpander_of_loaded? hl, result_run_of_raw_dump hl verbosity, ?_⟩
  intro files path hread other
  have hproperties : other.surroundings.properties? path = some store :=
    Surroundings.properties?_eq_some_iff.mpr
      ⟨_, text, hread, ofBytes?_toUTF8 text, FileFormat.parse_render_properties store⟩
  have hagain := Surroundings.loaded?_of_properties? hl hproperties
  refine ⟨?_, ?_, ?_⟩
  · rw [← toOption_eq_some_iff, Surroundings.toOption_value_load]
    exact hproperties
  · rw [Surroundings.value_loadExpander_of_loaded? hagain]
    exact congrArg Except.ok (l.expander_store host.surroundings)
  · have hdump := result_run_of_raw_dump hagain verbosity
    have hhome : other.surroundings.home? = host.surroundings.home? := rfl
    rwa [hhome, l.store_store host.surroundings.home?] at hdump

/-- A file with everything that a dump does away with, on which a name is defined
twice. -/
theorem raw_dump_of_redefined_is_normal_form :
    let host : Host FileTree := {
      files := FileTree.ofList [] [("/f", "# x\n\n b : 1\\\n  2\nc=\\u00e9\nb 3\n".toUTF8)]
      home := some "/h".toUTF8 }
    let o : Overrides := { properties := ["d=1", "c=", " d =2"] }
    let dump (path : String) : Invocation := ⟨.dump path true "properties" none, o, 0⟩
    let text := "b=3\nc=\nd=2\nuser.home=/h\n"
    host.surroundings.Provides o (some "/f") ∧
      ((dump "/f").run host {}).result = (.success, text) ∧
      ∀ (files : FileTree) path, FileSystem.read files path = .ok text.toUTF8 →
        ((dump path).run { host with files } {}).result = (.success, text) := by
  intro host o dump text
  have hprovides : host.surroundings.Provides o (some "/f") :=
    Surroundings.isSome_loaded?_iff.mp (by decide +kernel)
  have hdump : ((dump "/f").run host {}).result = (.success, text) := by decide +kernel
  obtain ⟨x, text', -, hdump', hagain⟩ := raw_dump_is_normal_form hprovides 0
  obtain rfl : text' = text := congrArg Prod.snd (hdump'.symm.trans hdump)
  exact ⟨hprovides, hdump, fun files path hread => (hagain files path hread).2.2⟩

end Invocation

end PropertyFile
