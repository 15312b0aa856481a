import PropertyFile.Command
import PropertyFile.Expander.Audit
import PropertyFile.Format
import PropertyFile.Surroundings

/-!
# Answers

**What a command has to say, before anything is written.** An answer holds the
notes for the error output, the text to deliver and where to, and the exit code.
Only when the answer is complete is the text delivered, so that a command that
fails delivers nothing; `Answer.conclude` then says how the run ends.
-/

namespace PropertyFile

/-- How a run ends. -/
inductive ExitCode
  /-- All is well. -/
  | success
  /-- The question has been understood and the answer is no. -/
  | negative
  /-- Something could not be read or written. -/
  | failure
deriving DecidableEq, Repr

/-- The number of an exit code. -/
def ExitCode.toNat : ExitCode → Nat
  | .success => 0
  | .negative => 1
  | .failure => 2

/-- What is to be done with the text of an answer. -/
inductive Delivery
  | nothing
  /-- The text goes to the output. -/
  | print (text : String)
  /-- The text becomes the content of a file. -/
  | save (path text : String)
deriving DecidableEq, Repr

/-- What a command has to say. -/
structure Answer where
  /-- Lines for the error output. -/
  notes : List String := []
  delivery : Delivery := .nothing
  /-- How the run ends if the delivery succeeds. -/
  code : ExitCode := .success
deriving DecidableEq, Repr

namespace Answer

/-- The answer when something could not be read. -/
def failed (note : String) : Answer :=
  { notes := [note], code := .failure }

/-- The answer to a question that has none. -/
def refused (reason : String) : Answer :=
  { notes := ["Error: " ++ reason], code := .negative }

/-- The exit code and all notes, given whether the delivery succeeded. -/
def conclude (a : Answer) (delivered : Except String Unit) : ExitCode × List String :=
  match a.delivery, delivered with
  | .nothing, _ => (a.code, a.notes)
  | .print _, .ok () => (a.code, a.notes)
  | .print _, .error e => (.failure, a.notes ++ ["Error writing output: " ++ e])
  | .save path _, .ok () => (a.code, a.notes ++ ["✓ Wrote to " ++ path])
  | .save _ _, .error e => (.failure, a.notes ++ ["Error writing file: " ++ e])

end Answer

/-! ### The commands -/

/-- What the check of one file finds. -/
structure Verdict where
  /-- Lines for the error output. -/
  notes : List String := []
  /-- The line for the report, if the file is in order. -/
  report : Option String := none
deriving DecidableEq, Repr

namespace Surroundings

/-- The value of one property. -/
def answerGet (s : Surroundings) (o : Overrides) (file key format : String)
    (default : Option String) : Traced Answer := do
  match ← s.loadExpander o (some file) with
  | .error d => pure (.failed d.text)
  | .ok x =>
      match (← x.get? key).or default with
      | none => pure (.refused ("Property '" ++ key ++ "' not found"))
      | some value =>
          match EntryFormat.ofName format with
          | .error e => pure (.refused e.message)
          | .ok form => pure { delivery := .print (form.render key value) }

/-- A value with its placeholders expanded. -/
def answerProcess (s : Surroundings) (o : Overrides) (value : String) (file : Option String) :
    Traced Answer := do
  match ← s.loadExpander o file with
  | .error d => pure (.failed d.text)
  | .ok x =>
      let expanded ← x.expand value
      pure { delivery := .print (expanded ++ "\n") }

/-- All properties. -/
def answerDump (s : Surroundings) (o : Overrides) (file : String) (raw : Bool)
    (format : String) (output : Option String) : Traced Answer := do
  match ← s.loadExpander o (some file) with
  | .error d => pure (.failed d.text)
  | .ok x =>
      let shown ← if raw then pure x.properties else x.resolveAll
      match FileFormat.ofName format with
      | .error e => pure (.refused e.message)
      | .ok form =>
          match output with
          | some path => pure { delivery := .save path (form.render shown) }
          | none => pure { delivery := .print (form.render shown) }

/-- The check of one file. -/
def checkFile (s : Surroundings) (o : Overrides) (file : String) : Traced Verdict := do
  match ← s.loadExpander o (some file) with
  | .error d => pure { notes := ["✗ " ++ file ++ ": " ++ d.text] }
  | .ok x =>
      let warnings := (Audit.unresolved x).map fun finding =>
        "! " ++ file ++ ": " ++ finding.key ++ " uses " ++ finding.span ++
          " which has no value and expands to an empty string"
      let errors := (Audit.unknown x.properties).map fun finding =>
        "✗ " ++ file ++ ": " ++ finding.key ++ " uses unknown placeholder " ++ finding.span
      pure
        { notes := warnings ++ errors
          report := if errors.isEmpty then
              some ("✓ " ++ file ++ ": " ++ toString x.properties.size ++ " properties\n")
            else none }

/-- The check of several files. Each file is checked, whatever the others hold. -/
def answerCheck (s : Surroundings) (o : Overrides) (files : List String) : Traced Answer := do
  let verdicts ← files.mapM (s.checkFile o)
  pure
    { notes := verdicts.flatMap Verdict.notes
      delivery := .print (String.join (verdicts.filterMap Verdict.report))
      code := if verdicts.all fun verdict => verdict.report.isSome then .success else .negative }

end Surroundings

/-- What an invocation has to say. -/
def Invocation.answer (i : Invocation) (s : Surroundings) : Traced Answer :=
  match i.command with
  | .get file key format default => s.answerGet i.overrides file key format default
  | .process value file => s.answerProcess i.overrides value file
  | .dump file raw format output => s.answerDump i.overrides file raw format output
  | .check files => s.answerCheck i.overrides files

end PropertyFile
