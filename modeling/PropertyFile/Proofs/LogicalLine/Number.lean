import PropertyFile.Properties
import PropertyFile.Proofs.LogicalLine.Layout

/-!
# The numbers of logical lines

**The number of a line shows in an error and nowhere else.** Where the physical lines of
a text move, its logical lines get other numbers and stay the same otherwise
(`collect_renumber`). They are then read as before, and an error is told under the number
that its line now has (`mapM_entry_renumber`). A text that is put behind another one is
the case in which all numbers grow by the same amount (`shift`).
-/

namespace PropertyFile

open PropertyFile.Text

/-- The same error in a line of another number. -/
def ReadError.renumber (f : Nat → Nat) (e : ReadError) : ReadError :=
  { e with line := f e.line }

/-- The same error in a line that stands further down. -/
def ReadError.shift (count : Nat) (e : ReadError) : ReadError :=
  { e with line := e.line + count }

namespace LogicalLine

/-- The same line under another number. -/
def renumber (f : Nat → Nat) (l : LogicalLine) : LogicalLine :=
  { l with number := f l.number }

/-- The same line, counted from a later start. -/
def shift (count : Nat) (l : LogicalLine) : LogicalLine :=
  { l with number := l.number + count }

/-! ### Lines under other numbers -/

theorem advance_renumber {f : Nat → Nat} {number count : Nat} (h : f number = number + count)
    (pending : Option LogicalLine) (physical : List Char) :
    advance (number + count) (pending.map (renumber f)) physical =
      ((advance number pending physical).1.map (renumber f),
        (advance number pending physical).2.map (renumber f)) := by
  unfold advance
  cases pending with
  | some line => cases continues physical <;> rfl
  | none =>
      cases isSkipped (dropBlanks physical) with
      | true => rfl
      | false => cases continues physical <;> simp [renumber, append, h]

/-- Lines that are counted on by the same amount are collected as before. The numbers of
earlier lines can change in any way. -/
theorem collect_renumber {f : Nat → Nat} {number count : Nat}
    (h : ∀ k, f (number + k) = number + k + count) (pending : Option LogicalLine)
    (physical : List (List Char)) :
    collect (number + count) (pending.map (renumber f)) physical =
      (collect number pending physical).map (renumber f) := by
  induction physical generalizing number pending with
  | nil => cases pending <;> rfl
  | cons line physical ih =>
      have hline : f number = number + count := h 0
      have hnext : ∀ k, f (number + 1 + k) = number + 1 + k + count := by
        intro k
        rw [Nat.add_assoc, h]
      rw [collect_cons, collect_cons, advance_renumber hline, List.map_append,
        Nat.add_right_comm, ih hnext]

/-- Counting from a later start changes the numbers and nothing else. -/
theorem collect_shift (count number : Nat) (pending : Option LogicalLine)
    (physical : List (List Char)) :
    collect (number + count) (pending.map (shift count)) physical =
      (collect number pending physical).map (shift count) :=
  @collect_renumber (· + count) number count (fun _ => rfl) pending physical

/-! ### What lines say -/

/-- What a line says does not depend on where it stands. -/
theorem entry_renumber (f : Nat → Nat) (l : LogicalLine) :
    (l.renumber f).entry = l.entry.mapError (ReadError.renumber f) := by
  have htext : (l.renumber f).text = l.text := rfl
  cases hkey : Escape.decode (RawEntry.ofLine l.text).key with
  | error fault =>
      rw [entry_of_key_error hkey, entry_of_key_error (htext ▸ hkey)]
      rfl
  | ok key =>
      cases hvalue : Escape.decode (RawEntry.ofLine l.text).value with
      | error fault =>
          rw [entry_of_value_error hkey hvalue,
            entry_of_value_error (htext ▸ hkey) (htext ▸ hvalue)]
          rfl
      | ok value =>
          rw [entry_of_ok hkey hvalue, entry_of_ok (htext ▸ hkey) (htext ▸ hvalue)]
          rfl

theorem mapM_entry_renumber (f : Nat → Nat) (ls : List LogicalLine) :
    (ls.map (renumber f)).mapM entry = (ls.mapM entry).mapError (ReadError.renumber f) := by
  induction ls with
  | nil => rfl
  | cons l ls ih =>
      rw [List.map_cons, List.mapM_cons, List.mapM_cons, entry_renumber, ih]
      cases l.entry with
      | error e => rfl
      | ok entry => cases ls.mapM LogicalLine.entry <;> rfl

theorem mapM_entry_shift (count : Nat) (ls : List LogicalLine) :
    (ls.map (shift count)).mapM entry = (ls.mapM entry).mapError (ReadError.shift count) :=
  mapM_entry_renumber (· + count) ls

end LogicalLine

end PropertyFile
