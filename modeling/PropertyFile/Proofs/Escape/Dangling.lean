import PropertyFile.Escape
import PropertyFile.LogicalLine

/-!
# Dangling backslashes

Read from left to right, a backslash takes the next character with it. A text
**dangles** if its last backslash finds no character to take. This is the reading
that escapes have; `LogicalLine.continues` counts backslashes from the end
instead. `continues_eq_dangles` says that the two agree, so that a line goes on
exactly when its last backslash escapes nothing.
-/

namespace PropertyFile.Escape

open PropertyFile.Text

/-- Does a text end in a backslash that escapes nothing? -/
def dangles : List Char → Bool
  | [] => false
  | ['\\'] => true
  | '\\' :: _ :: cs => dangles cs
  | _ :: cs => dangles cs

@[simp] theorem dangles_nil : dangles [] = false := by simp [dangles]

@[simp] theorem dangles_backslash : dangles ['\\'] = true := by simp [dangles]

/-- An escaped character does not matter. -/
@[simp] theorem dangles_escaped (c : Char) (cs : List Char) :
    dangles ('\\' :: c :: cs) = dangles cs := by
  simp [dangles]

/-- A character other than a backslash does not matter. -/
theorem dangles_plain {c : Char} (hc : c ≠ '\\') (cs : List Char) :
    dangles (c :: cs) = dangles cs := by
  rw [dangles]
  · exact fun h _ => absurd h hc
  · exact fun _ _ h _ => absurd h hc

/-- A text without backslashes does not dangle. -/
theorem dangles_of_not_mem {cs : List Char} (h : '\\' ∉ cs) : dangles cs = false := by
  induction cs with
  | nil => rfl
  | cons c cs ih =>
      obtain ⟨hc, hcs⟩ := List.ne_and_not_mem_of_not_mem_cons h
      rw [dangles_plain hc.symm, ih hcs]

/-- What follows a text that does not dangle is read from its own start. -/
theorem dangles_append {cs : List Char} (h : dangles cs = false) (ds : List Char) :
    dangles (cs ++ ds) = dangles ds := by
  fun_induction dangles cs with
  | case1 => rfl
  | case2 => simp at h
  | case3 c cs ih => simpa using ih h
  | case4 c cs hlast hpair ih =>
      have hc := ne_backslash hlast hpair
      rw [List.cons_append, dangles_plain hc]
      exact ih h

/-- Blanks in front escape nothing and are not escaped. -/
theorem dangles_dropBlanks (cs : List Char) : dangles (dropBlanks cs) = dangles cs := by
  induction cs with
  | nil => rfl
  | cons c cs ih =>
      rw [dropBlanks_cons]
      split
      · next hblank =>
          have hback : c ≠ '\\' := by
            intro hc
            rw [hc] at hblank
            exact absurd hblank (by decide)
          rw [ih, dangles_plain hback]
      · rfl

/-- A text dangles by one backslash at its end; the text before it does not. -/
theorem dangles_eq_true_iff {cs : List Char} :
    dangles cs = true ↔ ∃ ds, cs = ds ++ ['\\'] ∧ dangles ds = false := by
  constructor
  · intro h
    fun_induction dangles cs with
    | case1 => simp at h
    | case2 => exact ⟨[], rfl, dangles_nil⟩
    | case3 c cs ih =>
        obtain ⟨ds, rfl, hds⟩ := ih h
        exact ⟨'\\' :: c :: ds, rfl, by rw [dangles_escaped, hds]⟩
    | case4 c cs hlast hpair ih =>
        have hc := ne_backslash hlast hpair
        obtain ⟨ds, rfl, hds⟩ := ih h
        exact ⟨c :: ds, rfl, by rw [dangles_plain hc, hds]⟩
  · rintro ⟨ds, rfl, hds⟩
    rw [dangles_append hds, dangles_backslash]

end PropertyFile.Escape

namespace PropertyFile.LogicalLine

open PropertyFile.Escape

/-- Text in front of a line does not matter if it does not go on by itself: its
run of backslashes is even, and only such a run can be lengthened. -/
theorem continues_append {cs : List Char} (h : continues cs = false) (ds : List Char) :
    continues (cs ++ ds) = continues ds := by
  unfold continues at h ⊢
  rw [List.reverse_append, List.takeWhile_append]
  split
  · next hall =>
      simp only [beq_eq_false_iff_ne, ne_eq] at h
      rw [List.length_append, hall]
      have hparity : ∀ n m : Nat, ¬m % 2 = 1 → (n + m) % 2 = n % 2 := by omega
      rw [hparity _ _ h]
  · rfl

/-- A line goes on exactly when its last backslash escapes nothing. -/
theorem continues_eq_dangles (cs : List Char) : continues cs = dangles cs := by
  fun_induction dangles cs with
  | case1 => rfl
  | case2 => rfl
  | case3 c cs ih =>
      have hpair : continues ['\\', c] = false := by
        by_cases hc : c = '\\' <;> simp [continues, hc]
      rw [← ih]
      exact continues_append hpair cs
  | case4 c cs hlast hpair ih =>
      have hc := ne_backslash hlast hpair
      have hone : continues [c] = false := by
        simp [continues, hc]
      rw [← ih]
      exact continues_append hone cs

end PropertyFile.LogicalLine
