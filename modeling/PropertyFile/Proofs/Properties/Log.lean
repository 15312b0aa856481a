import PropertyFile.Proofs.Traversal
import PropertyFile.Surroundings

/-!
# What reading a property file logs

**Reading with a log is reading, and the log tells how far it has come**:
`run_parseLogged`. Each entry is told as soon as it has been read, so those in front of an
entry that cannot be read are in the log as well; the number of keys is only told where
all entries could be read.
-/

namespace PropertyFile

namespace LogicalLine

variable {l : LogicalLine}

/-- The event that a line leaves in the log, if its entry can be read. -/
def event? (l : LogicalLine) : Option Event :=
  l.entry.toOption.map fun entry => .entry l.number entry.1 entry.2

/-- The events of the lines in front of the first that cannot be read. -/
def events (ls : List LogicalLine) : List Event :=
  (ls.takeWhile fun l => l.event?.isSome).filterMap event?

theorem event?_of_ok {key value : String} (h : l.entry = .ok (key, value)) :
    l.event? = some (.entry l.number key value) := by
  rw [event?, h]
  rfl

theorem event?_of_error {e : ReadError} (h : l.entry = .error e) : l.event? = none := by
  rw [event?, h]
  rfl

theorem run_entryLogged_of_ok {key value : String} (h : l.entry = .ok (key, value)) :
    l.entryLogged.run = { value := .ok (key, value), log := [.entry l.number key value] } := by
  rw [entryLogged, h]
  rfl

theorem run_entryLogged_of_error {e : ReadError} (h : l.entry = .error e) :
    l.entryLogged.run = { value := .error e } := by
  rw [entryLogged, h]
  rfl

/-- Lines are read as they would be without a log. -/
theorem run_mapM_entryLogged (ls : List LogicalLine) :
    (ls.mapM entryLogged).run = { value := ls.mapM entry, log := events ls } := by
  induction ls with
  | nil => rfl
  | cons l ls ih =>
      rw [List.mapM_cons, ExceptT.run_bind]
      cases h : l.entry with
      | error e =>
          rw [run_entryLogged_of_error h, mapM_cons_of_error h, events,
            List.takeWhile_cons_of_neg (by simp [event?_of_error h])]
          rfl
      | ok entry =>
          have hevents : events (l :: ls) = .entry l.number entry.1 entry.2 :: events ls := by
            rw [events, List.takeWhile_cons_of_pos (by simp [event?_of_ok h]),
              List.filterMap_cons_some (event?_of_ok h), events]
          rw [run_entryLogged_of_ok h, mapM_cons_of_ok h, hevents]
          cases hls : ls.mapM LogicalLine.entry <;> ext <;> simp [ih, hls, Except.map]

end LogicalLine

namespace Properties

/-- **Reading with a log is reading, and the log tells how far it has come.** -/
theorem run_parseLogged (text : String) :
    (parseLogged text).run =
      { value := parse text
        log := LogicalLine.events (LogicalLine.ofText text.toList) ++
          match parse text with
          | .ok p => [.parsed p.size]
          | .error _ => [] } := by
  rw [parseLogged, ExceptT.run_bind, LogicalLine.run_mapM_entryLogged, parse]
  cases (LogicalLine.ofText text.toList).mapM LogicalLine.entry with
  | error e => rfl
  | ok entries => rfl

/-- The entry in front of one that cannot be read is logged with its line. -/
example : (parseLogged "# note\nb \\\n = 1\nc=\\u1\nd=2").run.log = [.entry 2 "b" "1"] := by
  decide +kernel

end Properties

end PropertyFile
