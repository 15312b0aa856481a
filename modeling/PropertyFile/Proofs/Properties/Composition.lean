import Mathlib.Control.Monad.Basic
import PropertyFile.Proofs.Dictionary.Merge
import PropertyFile.Proofs.LogicalLine.Number

/-!
# Property files one after the other

**Two texts that are joined are read as the two texts**, the second on top of the
first: `parse_append`. This needs that the first text ends between two entries,
which `EndsClosed` reads off its last physical line. The law has three parts.

* Whole physical lines can be cut apart (`lines_append`), and where no entry is
  open the logical lines can be cut apart (`collect_append`).
* The logical lines of the second text are those that it has alone, with other
  numbers. Nothing but an error shows the number of a line (`mapM_entry_shift`).
* Entries of the second text that repeat a key end up where they would have stood
  in one text (`Dictionary.ofList_append`).
-/

namespace PropertyFile

open PropertyFile.Text

namespace LogicalLine

/-! ### Texts that end between two entries -/

/-- A text ends between two entries: it is made of whole lines, and the last of
them does not go on, or it is a comment that continues no earlier line. -/
def EndsClosed (cs : List Char) : Prop :=
  EndsLine cs ∧ ∀ earlier last, lines cs = earlier ++ [last] →
    continues last = false ∨ (isComment last = true ∧ leavesOpen earlier = false)

theorem staysOpen_eq_false_iff {isOpen : Bool} {physical : List Char} :
    staysOpen isOpen physical = false ↔
      continues physical = false ∨ (isComment physical = true ∧ isOpen = false) := by
  cases isOpen <;> cases h : continues physical <;> simp [staysOpen, h]

theorem endsClosed_iff {cs : List Char} :
    EndsClosed cs ↔ EndsLine cs ∧ leavesOpen (lines cs) = false := by
  refine and_congr_right fun _ => ?_
  constructor
  · intro h
    rcases List.eq_nil_or_concat (lines cs) with hnil | ⟨earlier, last, hlines⟩
    · rw [hnil, leavesOpen_nil]
    · rw [List.concat_eq_append] at hlines
      rw [hlines, leavesOpen_concat, staysOpen_eq_false_iff]
      exact h earlier last hlines
  · intro h earlier last hlines
    rwa [hlines, leavesOpen_concat, staysOpen_eq_false_iff] at h

instance (cs : List Char) : Decidable (EndsClosed cs) :=
  decidable_of_iff _ endsClosed_iff.symm

/-- The logical lines of the second text are its own, counted on. -/
theorem ofText_append {cs : List Char} (h : EndsClosed cs) (ds : List Char) :
    ofText (cs ++ ds) = ofText cs ++ (ofText ds).map (shift (cs.count '\n')) := by
  obtain ⟨hends, hclosed⟩ := endsClosed_iff.mp h
  calc ofText (cs ++ ds)
      = collect 1 none (lines cs ++ lines ds) := by rw [ofText, lines_append hends]
    _ = ofText cs ++ collect (1 + cs.count '\n') none (lines ds) := by
        rw [@collect_append none _ hclosed, length_lines hends]
        rfl
    _ = ofText cs ++ (ofText ds).map (shift (cs.count '\n')) := by
        have hshift := collect_shift (cs.count '\n') 1 none (lines ds)
        rw [Option.map_none] at hshift
        rw [hshift]
        rfl

end LogicalLine

namespace Properties

open LogicalLine

/-- **Joined texts are read one after the other.** An error in the first text comes
first. An error in the second is the one that the text has alone, in a line that is
counted on. Otherwise the entries of the second text are put on top of those of the
first. -/
theorem parse_append (t u : String) (h : EndsClosed t.toList) :
    parse (t ++ u) =
      match parse t, parse u with
      | .error e, _ => .error e
      | .ok _, .error e => .error { e with line := e.line + t.toList.count '\n' }
      | .ok p, .ok q => .ok (p.insertMany q.entries) := by
  unfold parse
  rw [String.toList_append, ofText_append h, List.mapM_append, mapM_entry_shift]
  cases (ofText t.toList).mapM LogicalLine.entry with
  | error e => rfl
  | ok entries =>
      cases (ofText u.toList).mapM LogicalLine.entry with
      | error e => rfl
      | ok more => exact congrArg Except.ok (Dictionary.ofList_append entries more)

/-- A file whose last line is a comment that ends in a backslash. -/
def commented : String := "a=1\r\n\\\n  b = 2\n# note \\\n"

theorem parse_commented_append :
    EndsClosed commented.toList ∧
    parse (commented ++ "c=3\na=\\u00e4") =
      .ok (Dictionary.ofList [("a", "ä"), ("b", "2"), ("c", "3")]) ∧
    parse (commented ++ "c=3\nd=\\uD800") = .error ⟨6, some "d", .unpaired 0xD800⟩ := by
  have hcommented : EndsClosed commented.toList := by decide
  refine ⟨hcommented, ?_, ?_⟩
  · rw [parse_append commented _ hcommented]
    decide +kernel
  · rw [parse_append commented _ hcommented]
    decide +kernel

end Properties

end PropertyFile
