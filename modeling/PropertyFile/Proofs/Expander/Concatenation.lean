import PropertyFile.Expander
import PropertyFile.Proofs.Placeholder.Occurrence

/-!
# Expanding two texts one after the other

**Where no placeholder reaches from one text into the next, each is expanded as if it stood
alone**: `Expander.expand_append`. It does not matter how the first text ends. It may stop in
the middle of what could become a placeholder, such as `@` or the start of a name, as long as
the second text does not complete it.

The meeting point is a place, counted in bytes, while the scanner cuts lists of characters.
`not_straddles` takes the condition from the one to the other; that a scanner may start afresh
at such a point is `Piece.pieces_append`.
-/

namespace PropertyFile

namespace Placeholder

variable {a b : String}

/-! ### The condition on the meeting point -/

/-- No placeholder of `a ++ b` starts in `a` and ends in `b`. -/
def MeetBetween (a b : String) : Prop :=
  ∀ p ∈ find (a ++ b), ¬(p.start < a.utf8ByteSize ∧ a.utf8ByteSize < p.stop)

/-- Of two texts that start alike, the one with fewer characters has fewer bytes. -/
theorem utf8ByteSize_lt_of_prefix {front back whole rest : List Char}
    (heq : front ++ back = whole ++ rest) (hlt : front.length < whole.length) :
    (String.ofList front).utf8ByteSize < (String.ofList whole).utf8ByteSize := by
  obtain ⟨more, rfl⟩ : front <+: whole :=
    List.prefix_of_prefix_length_le ⟨back, heq⟩ ⟨rest, rfl⟩ (Nat.le_of_lt hlt)
  have hmore : (String.ofList more).utf8ByteSize ≠ 0 := by
    intro hzero
    obtain rfl : more = [] := by simpa using String.utf8ByteSize_eq_zero_iff.mp hzero
    simp at hlt
  rw [String.ofList_append, String.utf8ByteSize_append]
  omega

/-- Where the places are told in bytes, the characters follow. -/
theorem MeetBetween.not_straddles (h : MeetBetween a b) : ¬Piece.Straddles a.toList b.toList := by
  rintro ⟨front, name, back, heq, hname, hstart, hstop⟩
  let p : Placeholder := ⟨(String.ofList front).utf8ByteSize, String.ofList name⟩
  have hwhole : a ++ b = String.ofList front ++ p.text ++ String.ofList back := by
    rw [text_mk, ← String.ofList_append, ← String.ofList_append, ← heq, ← String.toList_append,
      String.ofList_toList]
  have hp : p ∈ find (a ++ b) :=
    mem_find_iff.mpr ⟨by simpa [p] using hname, _, _, hwhole, rfl⟩
  refine h p hp ⟨?_, ?_⟩
  · rw [List.append_assoc] at heq
    simpa [p] using utf8ByteSize_lt_of_prefix heq.symm hstart
  · have hlt := utf8ByteSize_lt_of_prefix heq hstop
    rwa [String.ofList_toList, String.ofList_append, String.utf8ByteSize_append,
      ← text_mk (String.ofList front).utf8ByteSize] at hlt

/-! ### Finding placeholders -/

/-- The placeholder, with `n` bytes more in front of it. -/
def shift (n : Nat) (p : Placeholder) : Placeholder :=
  { p with start := n + p.start }

theorem ofPieces_add (n start : Nat) (ps : List Piece) :
    ofPieces (n + start) ps = (ofPieces start ps).map (shift n) := by
  induction ps generalizing start with
  | nil => rfl
  | cons piece ps ih =>
      cases piece with
      | literal c => rw [ofPieces, ofPieces, Nat.add_assoc, ih]
      | placeholder name =>
          simp only [ofPieces, List.map_cons, stop, text_mk, Nat.add_assoc, ih]
          rfl

/-- The placeholders of the second text come after those of the first, further on by the
bytes of the first. -/
theorem find_append (h : MeetBetween a b) :
    find (a ++ b) = find a ++ (find b).map (shift a.utf8ByteSize) := by
  have hwidth : width (Piece.pieces a.toList) = a.utf8ByteSize := by
    rw [width, Piece.ofPieces_pieces, String.ofList_toList]
  rw [find, String.toList_append, Piece.pieces_append h.not_straddles, ofPieces_append, hwidth,
    Nat.zero_add, ← Nat.add_zero a.utf8ByteSize, ofPieces_add, Nat.add_zero]
  rfl

end Placeholder

namespace Expander

/-! ### Expanding -/

/-- What is put in for a piece does not depend on the value around it. -/
theorem value_expandPiece_eq (x : Expander) (value other : String) (piece : Piece) :
    (x.expandPiece value piece).value = (x.expandPiece other piece).value := by
  cases piece with
  | literal c => rfl
  | placeholder name => cases h : Variable.ofName? (String.ofList name) <;> simp [expandPiece, h]

theorem value_expand_append (x : Expander) {a b : String} (h : Placeholder.MeetBetween a b) :
    (x.expand (a ++ b)).value = (x.expand a).value ++ (x.expand b).value := by
  simp only [value_expand, ← String.ofList_append, String.toList_append,
    Piece.pieces_append h.not_straddles, List.flatMap_append]
  simp only [value_expandPiece_eq x (a ++ b) a, value_expandPiece_eq x b a]

/-- **Expansion goes text by text.** Where no placeholder starts in `a` and ends in `b`, both
are expanded as if they stood alone, and the placeholders of `a ++ b` are those of `a` and
those of `b`, the latter further on by the bytes of `a`. -/
theorem expand_append (x : Expander) {a b : String}
    (h : ∀ p ∈ Placeholder.find (a ++ b),
      ¬(p.start < a.utf8ByteSize ∧ a.utf8ByteSize < p.stop)) :
    (x.expand (a ++ b)).value = (x.expand a).value ++ (x.expand b).value ∧
    Placeholder.find (a ++ b) =
      Placeholder.find a ++
        (Placeholder.find b).map fun p => { p with start := a.utf8ByteSize + p.start } :=
  ⟨value_expand_append x h, Placeholder.find_append h⟩

/-- The first text stops in the middle of a name, the second goes on with what would complete
the name, and yet no placeholder comes about, since another one starts before the bracket. -/
theorem expand_append_within_name :
    let x : Expander := {
      properties := Dictionary.ofList [("user.home", "/h")]
      replacements := Dictionary.ofList [("APPDIR", "é")] }
    let a := "é@\x7bappdir\x7d@\x7buser"
    let b := "home@\x7buserHome\x7d\x7d"
    (∀ p ∈ Placeholder.find (a ++ b), ¬(p.start < a.utf8ByteSize ∧ a.utf8ByteSize < p.stop)) ∧
      (x.expand (a ++ b)).value = "éé@\x7buser" ++ "home/h\x7d" ∧
      Placeholder.find (a ++ b) = [⟨2, "appdir"⟩, ⟨21, "userHome"⟩] := by
  intro x a b
  have hmeet : ∀ p ∈ Placeholder.find (a ++ b),
      ¬(p.start < a.utf8ByteSize ∧ a.utf8ByteSize < p.stop) := by
    decide +kernel
  obtain ⟨hvalue, hfind⟩ := expand_append x hmeet
  exact ⟨hmeet, hvalue.trans (by decide +kernel), hfind.trans (by decide +kernel)⟩

/-- A placeholder that only the two texts together hold is expanded in neither of them. -/
example :
    let x : Expander := { properties := ∅, replacements := Dictionary.ofList [("APPDIR", "é")] }
    (x.expand ("@\x7bapp" ++ "dir\x7d")).value = "é" ∧
      (x.expand "@\x7bapp").value ++ (x.expand "dir\x7d").value = "@\x7bappdir\x7d" := by
  decide +kernel

end Expander

end PropertyFile
