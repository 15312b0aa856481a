import PropertyFile.FileTree
import PropertyFile.Proofs.Command.Loading
import PropertyFile.Proofs.Placeholder.Occurrence

/-!
# Checking files

**A check of files is a check of each file**: `check_pointwise`. Which line a file
gets does not depend on the other files, and all is well when each has got one.

`Surroundings.confirmation?` says this line without an audit: there has to be all
that a run needs, and in the scope no placeholder may have an unknown name. Whether
a known one has a value is not asked. That the audit finds nothing in just these
cases is `Audit.unknown_eq_nil_iff`; the rest is the walk through the files.
-/

namespace PropertyFile

/-- Every placeholder in the default scope has a known name. -/
def Properties.NamesKnown (p : Properties) : Prop :=
  ∀ entry ∈ p.entries, inScope defaultScope entry.1 = true →
    ∀ placeholder ∈ Placeholder.find entry.2, placeholder.referent?.isSome = true

instance (p : Properties) : Decidable p.NamesKnown :=
  inferInstanceAs (Decidable (∀ entry ∈ p.entries, inScope defaultScope entry.1 = true →
    ∀ placeholder ∈ Placeholder.find entry.2, placeholder.referent?.isSome = true))

theorem Audit.unknown_eq_nil_iff (p : Properties) : unknown p = [] ↔ p.NamesKnown := by
  unfold unknown select Properties.NamesKnown
  simp only [List.flatMap_eq_nil_iff, List.mem_filter, Bool.and_eq_true, List.map_eq_nil_iff,
    List.filter_eq_nil_iff, Bool.not_eq_true, Option.isNone_eq_false_iff]
  constructor
  · intro h entry hentry hscope placeholder hplaceholder
    -- The audit leaves out values without placeholders, but this one has one.
    have hoccurs : Placeholder.occursIn entry.2 = true :=
      Placeholder.occursIn_iff.mpr (List.ne_nil_of_mem hplaceholder)
    exact h entry ⟨hentry, hscope, hoccurs⟩ placeholder hplaceholder
  · intro h entry hentry placeholder hplaceholder
    exact h entry hentry.1 hentry.2.1 placeholder hplaceholder

namespace Surroundings

/-- The line that says that a file is in order, if it is. It counts the keys of the
file, those defined, and the one that the home directory stands in for. -/
def confirmation? (s : Surroundings) (o : Overrides) (file : String) : Option String :=
  match s.loaded? o (some file) with
  | none => none
  | some l =>
      if (l.store s.home?).NamesKnown then
        some ("✓ " ++ file ++ ": " ++ toString (l.names s.home?).length ++ " properties\n")
      else none

/-- The check of one file reports the line. -/
theorem report_checkFile (s : Surroundings) (o : Overrides) (file : String) :
    (s.checkFile o file).value.report = s.confirmation? o file := by
  rw [checkFile, Traced.value_bind, confirmation?]
  cases h : s.loaded? o (some file) with
  | none =>
      obtain ⟨d, hd⟩ := value_loadExpander_of_not_loaded? h
      rw [hd]
      rfl
  | some l =>
      have hsize : (l.store s.home?).size = (l.names s.home?).length := by
        rw [← l.keys_store, Dictionary.length_keys]
      rw [value_loadExpander_of_loaded? h]
      simp only [Traced.value_pure, Loaded.properties_expander, hsize, List.isEmpty_map,
        List.isEmpty_iff, Audit.unknown_eq_nil_iff]

/-- The check of several files reports their lines. -/
theorem value_answerCheck (s : Surroundings) (o : Overrides) (files : List String) :
    ∃ notes, (s.answerCheck o files).value =
      ⟨notes, .print (String.join (files.filterMap (s.confirmation? o))),
        if ∀ file ∈ files, (s.confirmation? o file).isSome then .success else .negative⟩ := by
  let verdicts := files.map fun file => (s.checkFile o file).value
  have hlines : verdicts.filterMap Verdict.report = files.filterMap (s.confirmation? o) := by
    simp only [verdicts, List.filterMap_map, Function.comp_def, report_checkFile]
  have hall : (verdicts.all fun verdict => verdict.report.isSome) = true ↔
      ∀ file ∈ files, (s.confirmation? o file).isSome := by
    simp only [verdicts, List.all_map, List.all_eq_true, Function.comp_apply, report_checkFile]
  refine ⟨verdicts.flatMap Verdict.notes, ?_⟩
  rw [answerCheck, Traced.value_bind, Traced.value_mapM, ← hlines]
  exact congrArg (Answer.mk _ _) (ite_congr (propext hall) (fun _ => rfl) (fun _ => rfl))

end Surroundings

namespace Invocation

variable {F : Type} [FileSystem F] (host : Host F) (o : Overrides) (verbosity : Nat)

theorem result_check_of_accept (files : List String) {sink : Sink}
    (h : sink.accept (String.join (files.filterMap (host.surroundings.confirmation? o))) =
      .ok ()) :
    ((⟨.check files, o, verbosity⟩ : Invocation).run host sink).result =
      (if ∀ file ∈ files, (host.surroundings.confirmation? o file).isSome then .success
        else .negative,
        String.join (files.filterMap (host.surroundings.confirmation? o))) := by
  obtain ⟨notes, hanswer⟩ := host.surroundings.value_answerCheck o files
  exact result_run_of_print hanswer h

theorem result_check_of_not_accept (files : List String) {sink : Sink} {e : String}
    (h : sink.accept (String.join (files.filterMap (host.surroundings.confirmation? o))) =
      .error e) :
    ((⟨.check files, o, verbosity⟩ : Invocation).run host sink).result = (.failure, "") := by
  obtain ⟨notes, hanswer⟩ := host.surroundings.value_answerCheck o files
  exact result_run_of_not_accept hanswer h

/-- A file with an unknown name and one that is missing stand between two others. -/
example :
    let host : Host FileTree := {
      files := FileTree.ofList []
        [("/a", "x=@\x7bnope\x7d".toUTF8), ("b", "cryptomator.x=@\x7bnope\x7d".toUTF8)]
      home := some "/h".toUTF8 }
    let check (files : List String) : Invocation := ⟨.check files, { properties := ["y=1"] }, 0⟩
    ((check ["/a", "b", "c", "a"]).run host {}).result =
      (.negative, "✓ /a: 3 properties\n✓ a: 3 properties\n") := by
  decide +kernel

end Invocation

end PropertyFile
