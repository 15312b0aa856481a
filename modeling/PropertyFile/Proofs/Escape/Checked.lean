import PropertyFile.Proofs.Escape.Spelling
import PropertyFile.Proofs.Text.Word

/-!
# Reading with every check

**Reading takes for granted only what is true.** It counts on four digits to be a number,
on what two surrogates are combined to, and on every code point to be a character; and a
backslash at the end it drops without a word. `Checked.decode` takes none of this for
granted: it computes in 32-bit words, tests every result, and raises an `Alarm` where a
test fails and where a backslash would be dropped.

`Checked.decode_eq` says which alarms are ever raised: faults of the text, for which
`decode` fails as well, and the backslash that escapes nothing.
-/

namespace PropertyFile.Escape.Checked

open PropertyFile.Text

/-- Why a reader that checks everything stops. -/
inductive Alarm
  /-- What the text is refused for in any case. -/
  | fault (fault : Fault)
  /-- Four digits that are no number. -/
  | noNumber (digits : List Char)
  /-- Two surrogates whose code point does not fit a word. -/
  | overflow (high low : UInt32)
  /-- A code point that is no character. -/
  | noCharacter (codePoint : UInt32)
  /-- A backslash that escapes nothing. -/
  | dropped
deriving DecidableEq, Repr

/-- The character whose code point is `n`. -/
def readCodePoint (n : UInt32) : Except Alarm Char :=
  match Word.char? n with
  | some c => .ok c
  | none => .error (.noCharacter n)

/-- Reads the four digits of a code unit, which are counted in bytes. -/
def readUnit (cs : List Char) : Except Alarm (UInt32 × List Char) :=
  let digits := cs.take 4
  if (String.ofList digits).utf8ByteSize = 4 ∧ digits.all Char.isHexDigit then
    match Word.word? digits with
    | some unit => .ok (unit, cs.drop 4)
    | none => .error (.noNumber digits)
  else .error (.fault (.malformed digits))

/-- The character that two surrogates stand for. -/
def readPair (high low : UInt32) : Except Alarm Char :=
  match Word.combine? high low with
  | some n => readCodePoint n
  | none => .error (.overflow high low)

/-- What a `\u` at the start of a text is followed by. -/
def afterEscape? : List Char → Option (List Char)
  | '\\' :: 'u' :: cs => some cs
  | _ => none

/-- Reads the character that starts after a `\u`. -/
def readUnicode (cs : List Char) : Except Alarm (Char × List Char) :=
  match readUnit cs with
  | .error alarm => .error alarm
  | .ok (unit, rest) =>
      if isHighSurrogate unit.toNat then
        match afterEscape? rest with
        | some more =>
            match readUnit more with
            | .error alarm => .error alarm
            | .ok (low, rest) =>
                if isLowSurrogate low.toNat then (readPair unit low).map (·, rest)
                else .error (.fault (.unpaired unit.toNat))
        | none => .error (.fault (.unpaired unit.toNat))
      else if isLowSurrogate unit.toNat then .error (.fault (.unpaired unit.toNat))
      else (readCodePoint unit).map (·, rest)

/-! ### Code units -/

/-- A hexadecimal digit takes one byte. -/
theorem utf8Size_of_isHexDigit {c : Char} (h : c.isHexDigit = true) : c.utf8Size = 1 := by
  rw [← isSome_hexDigit?] at h
  obtain ⟨d, hd⟩ := Option.isSome_iff_exists.mp h
  obtain ⟨style, hlt, rfl⟩ := exists_eq_digit hd
  have hall : ∀ d < 16, (style.digit d).utf8Size = 1 := by
    cases style <;> decide
  exact hall d hlt

theorem utf8ByteSize_of_isHexDigit {cs : List Char} (h : cs.all Char.isHexDigit = true) :
    (String.ofList cs).utf8ByteSize = cs.length := by
  induction cs with
  | nil => rfl
  | cons c cs ih =>
      rw [List.all_cons, Bool.and_eq_true] at h
      rw [String.ofList_cons, String.utf8ByteSize_append, String.utf8ByteSize_singleton,
        utf8Size_of_isHexDigit h.1, ih h.2, List.length_cons, Nat.add_comm]

/-- Digits that are four bytes are four characters, and they are always a number. -/
theorem readUnit_eq (cs : List Char) :
    readUnit cs =
      match Escape.readUnit cs with
      | .ok (n, rest) => .ok (UInt32.ofNat n, rest)
      | .error fault => .error (.fault fault) := by
  have hfour : (String.ofList (cs.take 4)).utf8ByteSize = 4 ∧ (cs.take 4).all Char.isHexDigit ↔
      4 ≤ cs.length ∧ (cs.take 4).all Char.isHexDigit := by
    refine and_congr_left fun hall => ?_
    rw [utf8ByteSize_of_isHexDigit hall, List.length_take]
    omega
  rw [Escape.readUnit_eq, unitAt?, readUnit]
  simp only [hfour]
  split
  · next hdigits =>
      have hsome := isSome_hexFrom? 0 (cs.take 4)
      rw [hdigits.2] at hsome
      obtain ⟨n, hn⟩ := Option.isSome_iff_exists.mp hsome
      have hex : hex? (cs.take 4) = some n := hn
      have hlength : (cs.take 4).length = 4 := by
        rw [List.length_take]
        omega
      have hword := Word.word?_eq_some hex (List.ne_nil_of_length_pos (by omega)) (by omega)
      rw [hex, hword]
  · rfl

/-! ### Characters -/

theorem readCodePoint_ofNat {n : Nat} (h : n.isValidChar) :
    readCodePoint (UInt32.ofNat n) = .ok (Char.ofNat n) := by
  rw [readCodePoint, Word.char?_ofNat h]

/-- Two surrogates are always a character. -/
theorem readPair_eq {high low : UInt32} (hh : isHighSurrogate high.toNat = true)
    (hl : isLowSurrogate low.toNat = true) :
    readPair high low = .ok (Char.ofNat (pairCodePoint high.toNat low.toNat)) := by
  simp only [readPair, Word.combine?_eq_some hh hl]
  exact readCodePoint_ofNat (isValidChar_pairCodePoint hh hl)

/-- What follows a high surrogate decides. -/
theorem readUnicode_of_high {cs rest : List Char} {unit : Nat}
    (h : Escape.readUnit cs = .ok (unit, rest)) (hhigh : isHighSurrogate unit = true) :
    Escape.readUnicode cs =
      match afterEscape? rest with
      | some more =>
          match Escape.readUnit more with
          | .error fault => .error fault
          | .ok (low, rest) =>
              if isLowSurrogate low then .ok (Char.ofNat (pairCodePoint unit low), rest)
              else .error (.unpaired unit)
      | none => .error (.unpaired unit) := by
  simp only [Escape.readUnicode, h, hhigh, if_true]
  fun_cases afterEscape? rest with
  | case1 more => rfl
  | case2 hrest =>
      split
      · next more hrest => exact absurd rfl (hrest more)
      · rfl

/-- A character after `\u` is read alike with and without the checks. -/
theorem readUnicode_eq (cs : List Char) :
    readUnicode cs = (Escape.readUnicode cs).mapError .fault := by
  -- A code unit has sixteen bits, so its word is the number that is read without checks.
  have htoNat {cs rest : List Char} {n : Nat} (h : Escape.readUnit cs = .ok (n, rest)) :
      (UInt32.ofNat n).toNat = n :=
    UInt32.toNat_ofNat_of_lt' (Nat.lt_of_lt_of_le (readUnit_lt h).2 (by decide))
  rw [readUnicode, readUnit_eq]
  cases hunit : Escape.readUnit cs with
  | error fault =>
      rw [Escape.readUnicode, hunit]
      rfl
  | ok read =>
      obtain ⟨n, rest⟩ := read
      simp only [htoNat hunit]
      split
      · next hhigh =>
          rw [readUnicode_of_high hunit hhigh]
          cases afterEscape? rest with
          | none => rfl
          | some more =>
              dsimp only
              rw [readUnit_eq]
              cases hlowUnit : Escape.readUnit more with
              | error fault => rfl
              | ok read =>
                  obtain ⟨low, rest⟩ := read
                  simp only [htoNat hlowUnit]
                  split
                  · next hlow =>
                      rw [← htoNat hunit] at hhigh
                      rw [← htoNat hlowUnit] at hlow
                      rw [readPair_eq hhigh hlow, htoNat hunit, htoNat hlowUnit]
                      rfl
                  · rfl
      · next hhigh =>
          simp only [Escape.readUnicode, hunit, hhigh]
          split
          · rfl
          · next hlow =>
              have hvalid : n.isValidChar :=
                isValidChar_of_not_surrogate (readUnit_lt hunit).2 (by simpa using hhigh)
                  (by simpa using hlow)
              rw [readCodePoint_ofNat hvalid]
              rfl

/-! ### Texts -/

theorem readUnicode_lt {cs rest : List Char} {c : Char} (h : readUnicode cs = .ok (c, rest)) :
    rest.length < cs.length := by
  rw [readUnicode_eq] at h
  cases hread : Escape.readUnicode cs with
  | error fault =>
      rw [hread] at h
      cases h
  | ok read =>
      rw [hread] at h
      obtain rfl := Except.ok.inj h
      exact Escape.readUnicode_lt hread

/-- Reads an escaped text. -/
def decode : List Char → Except Alarm (List Char)
  | [] => .ok []
  | ['\\'] => .error .dropped
  | '\\' :: 'u' :: cs =>
      match h : readUnicode cs with
      | .error alarm => .error alarm
      | .ok (c, rest) =>
          have := readUnicode_lt h
          (decode rest).map (c :: ·)
  | '\\' :: c :: cs => (decode cs).map (meaning c :: ·)
  | c :: cs => (decode cs).map (c :: ·)
termination_by cs => cs.length

theorem decode_unicode (cs : List Char) :
    decode ('\\' :: 'u' :: cs) =
      match Escape.readUnicode cs with
      | .error fault => .error (.fault fault)
      | .ok (c, rest) => (decode rest).map (c :: ·) := by
  have hread := readUnicode_eq cs
  rw [decode]
  cases hplain : Escape.readUnicode cs with
  | error fault =>
      rw [hplain] at hread
      split
      · next alarm halarm => rw [Except.error.inj (halarm.symm.trans hread)]
      · next c rest hok => cases hread.symm.trans hok
  | ok read =>
      rw [hplain] at hread
      split
      · next alarm halarm => cases hread.symm.trans halarm
      · next c rest hok =>
          obtain rfl := Except.ok.inj (hread.symm.trans hok)
          rfl

/-- What a reading is told as where a backslash that is left over raises an alarm. -/
def alarmed (leftOver : Bool) : Except Fault (List Char) → Except Alarm (List Char)
  | .error fault => .error (.fault fault)
  | .ok out => if leftOver then .error .dropped else .ok out

theorem map_alarmed (leftOver : Bool) (c : Char) (r : Except Fault (List Char)) :
    (alarmed leftOver r).map (c :: ·) = alarmed leftOver (r.map (c :: ·)) := by
  cases r with
  | error fault => rfl
  | ok out => cases leftOver <;> rfl

/-- **The alarms that are raised** are those of the text itself. Where it has a fault, this
is told, and otherwise a backslash at its end that escapes nothing. -/
theorem decode_eq (cs : List Char) : decode cs = alarmed (dangles cs) (Escape.decode cs) := by
  fun_induction Escape.decode cs with
  | case1 => simp [decode, alarmed]
  | case2 => simp [decode, alarmed]
  | case3 cs fault hread =>
      rw [decode_unicode, hread]
      rfl
  | case4 cs c rest hread _ ih =>
      obtain ⟨s, hs⟩ := exists_spelling_of_readUnicode hread
      rw [hs, dangles_append s.dangles_text, ← hs, decode_unicode, hread, ← map_alarmed, ← ih]
  | case5 c cs hu ih =>
      rw [decode, ih, map_alarmed, dangles_escaped]
      exact hu
  | case6 c cs hlast _ hpair ih =>
      rw [decode, ih, map_alarmed, dangles_plain (ne_backslash hlast hpair)]
      · exact hlast
      · exact fun cs hc => hpair 'u' cs hc
      · exact hpair

end PropertyFile.Escape.Checked
