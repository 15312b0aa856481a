import PropertyFile.Proofs.Escape.CodeUnit
import PropertyFile.Proofs.Escape.Dangling
import PropertyFile.Proofs.Escape.Token

/-!
# Spellings

**What is read is spelled out in the text, character by character.** A `Spelling` is one
way to write one character: as itself, after a backslash, or as one or two code units. A
text that does not dangle is read exactly if it is a row of spellings, and each of them
gives its character, in order (`spells_iff`). Only a backslash at the very end, which
escapes nothing, can be left over (`exists_spellings_of_decode`).

So no backslash of a spelling is passed over. It marks an escape, and more of the spelling
follows, or it is the character that is meant (`Spelling.eq_backslash_of_text_eq`).

Facts about reading follow by `reading_induction`, one spelling after the other.
-/

namespace PropertyFile

open PropertyFile.Text

namespace Escape

/-- The digits of a code unit are read where they stand. -/
theorem exists_digits_of_readUnit {cs rest : List Char} {n : Nat}
    (h : readUnit cs = .ok (n, rest)) :
    ∃ e : UnitEscape, e.unit.toNat = n ∧ cs = e.digits ++ rest := by
  obtain ⟨hunit, rfl⟩ := unitAt?_of_readUnit h
  unfold unitAt? at hunit
  split at hunit
  · next hfour =>
      match cs, hfour.1 with
      | c0 :: c1 :: c2 :: c3 :: rest, _ =>
          obtain ⟨e, hvalue, hdigits⟩ := UnitEscape.exists_digits_eq hunit
          exact ⟨e, hvalue, by rw [hdigits]; rfl⟩
  · cases hunit

/-! ### Spellings -/

/-- A character as it is written. -/
inductive Spelling
  /-- A character that stands for itself. -/
  | plain (c : Char) (hplain : c ≠ '\\')
  /-- A character after a backslash. -/
  | escaped (c : Char) (hescaped : c ≠ 'u')
  /-- A code unit that is a character. -/
  | unit (e : UnitEscape) (hhigh : isHighSurrogate e.unit.toNat = false)
      (hlow : isLowSurrogate e.unit.toNat = false)
  /-- Two code units that are a character together. -/
  | pair (high low : UnitEscape) (hhigh : isHighSurrogate high.unit.toNat = true)
      (hlow : isLowSurrogate low.unit.toNat = true)

/-- What is written. -/
def Spelling.text : Spelling → List Char
  | .plain c _ => [c]
  | .escaped c _ => ['\\', c]
  | .unit e _ _ => e.text
  | .pair high low _ _ => high.text ++ low.text

/-- The character that is meant. -/
def Spelling.char : Spelling → Char
  | .plain c _ => c
  | .escaped c _ => meaning c
  | .unit e _ _ => Char.ofNat e.unit.toNat
  | .pair high low _ _ => Char.ofNat (pairCodePoint high.unit.toNat low.unit.toNat)

/-- A raw text spells out a text: it is made of one spelling for each character. -/
def Spells (raw text : List Char) : Prop :=
  ∃ ss : List Spelling, raw = ss.flatMap Spelling.text ∧ text = ss.map Spelling.char

/-! ### Backslashes in a spelling -/

theorem dangles_text_unit (e : UnitEscape) : dangles e.text = false := by
  show dangles ('\\' :: 'u' :: e.digits) = false
  rw [dangles_escaped]
  refine dangles_of_not_mem fun hmem => ?_
  exact (UnitEscape.plain_of_mem_digits hmem).1 rfl

/-- The escape of a code unit ends with a digit. -/
theorem getLast?_append_unit_ne (cs : List Char) (e : UnitEscape) :
    (cs ++ e.text).getLast? ≠ some '\\' := by
  have hlast : (cs ++ e.text).getLast? = some ((e.style 3).digit (e.unit.toNat % 16)) := by
    simp [UnitEscape.text, UnitEscape.digits]
  rw [hlast, ne_eq, Option.some.injEq]
  exact (UnitEscape.plain_of_mem_digits (e := e) (by simp [UnitEscape.digits])).1

namespace Spelling

/-- The last backslash of a spelling escapes a character of this spelling. -/
theorem dangles_text (s : Spelling) : dangles s.text = false := by
  cases s with
  | plain c hplain => exact (dangles_plain hplain []).trans dangles_nil
  | escaped c hescaped => exact (dangles_escaped c []).trans dangles_nil
  | unit e hhigh hlow => exact dangles_text_unit e
  | pair high low hhigh hlow =>
      show dangles (high.text ++ low.text) = false
      rw [dangles_append (dangles_text_unit high), dangles_text_unit low]

/-- A backslash marks an escape, and then more of the spelling follows, or it is what is
meant. -/
theorem eq_backslash_of_text_eq {s : Spelling} {before after : List Char}
    (h : s.text = before ++ '\\' :: after) : after ≠ [] ∨ s.char = '\\' := by
  by_cases hafter : after = []
  · right
    have hlast : s.text.getLast? = some '\\' := by simp [h, hafter]
    cases s with
    | plain c hplain => exact Option.some.inj hlast
    | escaped c hescaped =>
        obtain rfl : c = '\\' := by simpa [text] using hlast
        rfl
    | unit e hhigh hlow => exact absurd hlast (getLast?_append_unit_ne [] e)
    | pair high low hhigh hlow => exact absurd hlast (getLast?_append_unit_ne high.text low)
  · exact Or.inl hafter

/-! ### Reading spellings -/

theorem decode_text_append (s : Spelling) (rest : List Char) :
    decode (s.text ++ rest) = (decode rest).map (s.char :: ·) := by
  cases s with
  | plain c hplain => exact decode_plain hplain rest
  | escaped c hescaped => exact decode_escaped hescaped rest
  | unit e hhigh hlow => exact decode_of_readUnicode (readUnicode_unit hhigh hlow rest)
  | pair high low hhigh hlow =>
      show decode (high.text ++ low.text ++ rest) = _
      rw [List.append_assoc]
      exact decode_of_readUnicode (readUnicode_pair hhigh hlow rest)

end Spelling

/-- What is read after `\u` is spelled out by one code unit or by two. -/
theorem exists_spelling_of_readUnicode {cs rest : List Char} {c : Char}
    (h : readUnicode cs = .ok (c, rest)) :
    ∃ s : Spelling, '\\' :: 'u' :: cs = s.text ++ rest := by
  unfold readUnicode at h
  split at h
  · cases h
  · next n more hunit =>
      obtain ⟨e, rfl, rfl⟩ := exists_digits_of_readUnit hunit
      split at h
      · next hhigh =>
          split at h
          · next more =>
              split at h
              · cases h
              · next low rest' hlowUnit =>
                  obtain ⟨f, rfl, rfl⟩ := exists_digits_of_readUnit hlowUnit
                  split at h
                  · next hlow =>
                      obtain ⟨-, rfl⟩ := Prod.mk.inj (Except.ok.inj h)
                      exact ⟨.pair e f hhigh hlow, by simp [Spelling.text, UnitEscape.text]⟩
                  · cases h
          · cases h
      · next hhigh =>
          split at h
          · cases h
          · next hlow =>
              obtain ⟨-, rfl⟩ := Prod.mk.inj (Except.ok.inj h)
              exact ⟨.unit e (by simpa using hhigh) (by simpa using hlow), rfl⟩

/-- A text is read to its end, to a last backslash or to a fault; in front of that stand
spellings. -/
theorem reading_induction {motive : List Char → Prop} (nil : motive [])
    (backslash : motive ['\\'])
    (spelled : ∀ (s : Spelling) (rest : List Char), motive rest → motive (s.text ++ rest))
    (fault : ∀ (cs : List Char) (fault : Fault), readUnicode cs = .error fault →
      motive ('\\' :: 'u' :: cs)) (cs : List Char) : motive cs := by
  fun_induction decode cs with
  | case1 => exact nil
  | case2 => exact backslash
  | case3 cs f hread => exact fault cs f hread
  | case4 cs c rest hread _ ih =>
      obtain ⟨s, hs⟩ := exists_spelling_of_readUnicode hread
      rw [hs]
      exact spelled s rest ih
  | case5 c cs hu ih => exact spelled (.escaped c hu) cs ih
  | case6 c cs hlast _ hpair ih => exact spelled (.plain c (ne_backslash hlast hpair)) cs ih

/-- What is read is spelled out, but for a backslash that escapes nothing. -/
theorem exists_spellings_of_decode {cs out : List Char} (h : decode cs = .ok out) :
    ∃ ss : List Spelling, cs = ss.flatMap Spelling.text ++ (if dangles cs then ['\\'] else []) ∧
      out = ss.map Spelling.char := by
  induction cs using reading_induction generalizing out with
  | nil =>
      obtain rfl : [] = out := by simpa using h
      exact ⟨[], by simp, rfl⟩
  | backslash =>
      obtain rfl : [] = out := by simpa [decode] using h
      exact ⟨[], by simp, rfl⟩
  | spelled s rest ih =>
      rw [s.decode_text_append] at h
      cases hrest : decode rest with
      | error fault =>
          rw [hrest] at h
          cases h
      | ok out' =>
          rw [hrest] at h
          obtain rfl := Except.ok.inj h
          obtain ⟨ss, hss, rfl⟩ := ih hrest
          refine ⟨s :: ss, ?_, rfl⟩
          rw [dangles_append s.dangles_text, List.flatMap_cons, List.append_assoc, ← hss]
  | fault cs fault hread =>
      rw [decode_of_readUnicode_error hread] at h
      cases h

theorem dangles_flatMap_text (ss : List Spelling) : dangles (ss.flatMap Spelling.text) = false := by
  induction ss with
  | nil => exact dangles_nil
  | cons s ss ih => rw [List.flatMap_cons, dangles_append s.dangles_text, ih]

theorem decode_flatMap_text (ss : List Spelling) :
    decode (ss.flatMap Spelling.text) = .ok (ss.map Spelling.char) := by
  induction ss with
  | nil => exact decode_nil
  | cons s ss ih =>
      rw [List.flatMap_cons, s.decode_text_append, ih]
      rfl

/-- **What is read is spelled out**, where no backslash is left over at the end. -/
theorem spells_iff {cs out : List Char} :
    Spells cs out ↔ decode cs = .ok out ∧ dangles cs = false := by
  constructor
  · intro hspells
    obtain ⟨ss, rfl, rfl⟩ := hspells
    exact ⟨decode_flatMap_text ss, dangles_flatMap_text ss⟩
  · intro hread
    obtain ⟨hdecode, hclosed⟩ := hread
    obtain ⟨ss, hcs, hout⟩ := exists_spellings_of_decode hdecode
    exact ⟨ss, by simpa [hclosed] using hcs, hout⟩

end Escape

end PropertyFile
