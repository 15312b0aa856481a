import PropertyFile.Diagnostic
import PropertyFile.Dictionary
import PropertyFile.Escape
import PropertyFile.LogicalLine
import PropertyFile.RawEntry

/-!
# Properties

**The content of a property file,** read from its text and written back. Reading
takes the logical lines one by one; the first that cannot be read makes the
whole text unreadable. Of two entries with one key, the later gives the value
and the earlier the place. Writing gives every entry a line `key=value` of its
own.
-/

namespace PropertyFile

open PropertyFile.Text

/-- The properties of a file, by key and in order. -/
abbrev Properties := Dictionary

/-- Why a text is no property file. -/
structure ReadError where
  /-- The number of the first physical line of the entry. -/
  line : Nat
  /-- The key of the entry, if it is the value that cannot be read. -/
  key : Option String
  fault : Escape.Fault
deriving DecidableEq, Repr

/-- The error as it is told to the user. -/
def ReadError.diagnostic (e : ReadError) : Diagnostic :=
  { Diagnostic.parseAt e.line e.fault.message with key := e.key }

/-- The key and the value that a logical line defines. -/
def LogicalLine.entry (l : LogicalLine) : Except ReadError (String × String) :=
  let raw := RawEntry.ofLine l.text
  match Escape.decode raw.key with
  | .error fault => .error ⟨l.number, none, fault⟩
  | .ok key =>
      match Escape.decode raw.value with
      | .error fault => .error ⟨l.number, some (String.ofList key), fault⟩
      | .ok value => .ok (String.ofList key, String.ofList value)

namespace LogicalLine

variable {l : LogicalLine} {fault : Escape.Fault} {key value : List Char}

/-- A key that cannot be read is no key to tell. -/
theorem entry_of_key_error (h : Escape.decode (RawEntry.ofLine l.text).key = .error fault) :
    l.entry = .error ⟨l.number, none, fault⟩ := by
  simp [entry, h]

/-- Where only the value cannot be read, the error tells the key. -/
theorem entry_of_value_error (hkey : Escape.decode (RawEntry.ofLine l.text).key = .ok key)
    (hvalue : Escape.decode (RawEntry.ofLine l.text).value = .error fault) :
    l.entry = .error ⟨l.number, some (String.ofList key), fault⟩ := by
  simp [entry, hkey, hvalue]

theorem entry_of_ok (hkey : Escape.decode (RawEntry.ofLine l.text).key = .ok key)
    (hvalue : Escape.decode (RawEntry.ofLine l.text).value = .ok value) :
    l.entry = .ok (String.ofList key, String.ofList value) := by
  simp [entry, hkey, hvalue]

/-- An entry is what its raw key and its raw value are read as. -/
theorem decode_of_entry {key value : String} (h : l.entry = .ok (key, value)) :
    Escape.decode (RawEntry.ofLine l.text).key = .ok key.toList ∧
      Escape.decode (RawEntry.ofLine l.text).value = .ok value.toList := by
  cases hkey : Escape.decode (RawEntry.ofLine l.text).key with
  | error fault => cases (entry_of_key_error hkey).symm.trans h
  | ok cs =>
      cases hvalue : Escape.decode (RawEntry.ofLine l.text).value with
      | error fault => cases (entry_of_value_error hkey hvalue).symm.trans h
      | ok ds =>
          have hentry := (entry_of_ok hkey hvalue).symm.trans h
          obtain ⟨rfl, rfl⟩ := Prod.mk.inj (Except.ok.inj hentry)
          rw [String.toList_ofList, String.toList_ofList]
          exact ⟨rfl, rfl⟩

end LogicalLine

namespace Properties

/-- Reads the text of a property file. -/
def parse (text : String) : Except ReadError Properties :=
  ((LogicalLine.ofText text.toList).mapM LogicalLine.entry).map Dictionary.ofList

/-- A text is read if all its entries are. -/
theorem parse_eq_ok_iff {text : String} {p : Properties} :
    parse text = .ok p ↔
      ∃ entries, (LogicalLine.ofText text.toList).mapM LogicalLine.entry = .ok entries ∧
        Dictionary.ofList entries = p := by
  unfold parse
  cases (LogicalLine.ofText text.toList).mapM LogicalLine.entry <;> simp [Except.map]

theorem parse_eq_error_iff {text : String} {e : ReadError} :
    parse text = .error e ↔
      (LogicalLine.ofText text.toList).mapM LogicalLine.entry = .error e := by
  unfold parse
  cases (LogicalLine.ofText text.toList).mapM LogicalLine.entry <;> simp [Except.map]

/-- Writes one entry as a line. -/
def renderEntry (key value : String) : List Char :=
  Escape.encodeKey key.toList ++ '=' :: Escape.encodeValue value.toList ++ ['\n']

/-- Writes the text of a property file. -/
def render (p : Properties) : String :=
  String.ofList (p.entries.flatMap fun entry => renderEntry entry.1 entry.2)

end Properties

end PropertyFile
