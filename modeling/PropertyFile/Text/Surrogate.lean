/-!
# Surrogate pairs

UTF-16 writes a character beyond U+FFFF as two code units, a high surrogate and
a low one. The facts here say that a code unit below `2 ^ 16` that is no
surrogate, and every pair of surrogates, stand for a character.
-/

namespace PropertyFile.Text

/-- A code unit that opens a surrogate pair. -/
def isHighSurrogate (unit : Nat) : Bool :=
  0xD800 ≤ unit && unit ≤ 0xDBFF

/-- A code unit that closes a surrogate pair. -/
def isLowSurrogate (unit : Nat) : Bool :=
  0xDC00 ≤ unit && unit ≤ 0xDFFF

/-- The code point that a surrogate pair stands for. -/
def pairCodePoint (high low : Nat) : Nat :=
  0x10000 + (high - 0xD800) * 0x400 + (low - 0xDC00)

/-- A surrogate pair never leaves the range of characters. -/
theorem isValidChar_pairCodePoint {high low : Nat} (hh : isHighSurrogate high = true)
    (hl : isLowSurrogate low = true) : (pairCodePoint high low).isValidChar := by
  simp only [isHighSurrogate, isLowSurrogate, Bool.and_eq_true, decide_eq_true_eq] at hh hl
  unfold pairCodePoint
  exact Or.inr ⟨by omega, by omega⟩

/-- A code unit that is no surrogate is a character by itself. -/
theorem isValidChar_of_not_surrogate {unit : Nat} (hlt : unit < 0x10000)
    (hh : isHighSurrogate unit = false) (hl : isLowSurrogate unit = false) :
    unit.isValidChar := by
  simp only [isHighSurrogate, isLowSurrogate, Bool.and_eq_false_iff,
    decide_eq_false_iff_not] at hh hl
  rcases Nat.lt_or_ge unit 0xD800 with h | h
  · exact Or.inl h
  · exact Or.inr ⟨by omega, by omega⟩

end PropertyFile.Text
