import PropertyFile.Text.Hex
import PropertyFile.Text.Surrogate

/-!
# Escapes

**How keys and values are written so that any text can stand in a property
file.** A backslash gives the next character another meaning: `\t`, `\n`, `\r`
and `\f` are control characters, `\uXXXX` is a UTF-16 code unit, and any other
escaped character stands for itself. Two code units that form a surrogate pair
stand for one character.

`decode` reads this notation and `encodeKey` and `encodeValue` write it; the main
statements, `decode_encodeKey` and `decode_encodeValue`, say that reading undoes
writing. Writing needs no code units: a character that is not special is written
as it is.
-/

namespace PropertyFile.Escape

open PropertyFile.Text

/-! ### Reading -/

/-- Why an escaped text cannot be read. -/
inductive Fault
  /-- `\u` is followed by `digits`, up to four characters, and these are not four
  hexadecimal digits. -/
  | malformed (digits : List Char)
  /-- A surrogate without its partner. -/
  | unpaired (unit : Nat)
deriving DecidableEq, Repr

/-- The fault in words. -/
def Fault.message : Fault → String
  | .malformed digits => "Malformed \\uXXXX encoding: \\u" ++ String.ofList digits
  | .unpaired unit => "Unpaired surrogate \\u" ++ String.ofList (HexCase.upper.padded 4 unit)

/-- Reads the four digits of a code unit, and gives what follows them. -/
def readUnit (cs : List Char) : Except Fault (Nat × List Char) :=
  match if (cs.take 4).length = 4 then hex? (cs.take 4) else none with
  | some unit => .ok (unit, cs.drop 4)
  | none => .error (.malformed (cs.take 4))

/-- Reads the character that starts after a `\u`: one code unit, or a high
surrogate with the low surrogate that has to follow as an escape of its own. -/
def readUnicode (cs : List Char) : Except Fault (Char × List Char) :=
  match readUnit cs with
  | .error fault => .error fault
  | .ok (unit, rest) =>
      if isHighSurrogate unit then
        match rest with
        | '\\' :: 'u' :: more =>
            match readUnit more with
            | .error fault => .error fault
            | .ok (low, rest) =>
                if isLowSurrogate low then .ok (Char.ofNat (pairCodePoint unit low), rest)
                else .error (.unpaired unit)
        | _ => .error (.unpaired unit)
      else if isLowSurrogate unit then .error (.unpaired unit)
      else .ok (Char.ofNat unit, rest)

theorem readUnit_lt {cs rest : List Char} {unit : Nat} (h : readUnit cs = .ok (unit, rest)) :
    rest.length < cs.length ∧ unit < 0x10000 := by
  unfold readUnit at h
  split at h
  · next n hn =>
      obtain ⟨rfl, rfl⟩ := Prod.mk.inj (Except.ok.inj h)
      split at hn
      · next hlen =>
          have hlt := hex?_lt hn
          rw [hlen] at hlt
          rw [List.length_take] at hlen
          exact ⟨by rw [List.length_drop]; omega, by omega⟩
      · simp at hn
  · simp at h

/-- Reading a character leaves less to read. -/
theorem readUnicode_lt {cs rest : List Char} {c : Char} (h : readUnicode cs = .ok (c, rest)) :
    rest.length < cs.length := by
  unfold readUnicode at h
  split at h
  · simp at h
  · next unit rest₁ hunit =>
      have hlt := (readUnit_lt hunit).1
      split at h
      · split at h
        · next more =>
            split at h
            · simp at h
            · next low rest₂ hlow =>
                have hlt₂ := (readUnit_lt hlow).1
                simp only [List.length_cons] at hlt
                split at h
                · obtain ⟨-, rfl⟩ := Prod.mk.inj (Except.ok.inj h)
                  omega
                · simp at h
        · simp at h
      · split at h
        · simp at h
        · obtain ⟨-, rfl⟩ := Prod.mk.inj (Except.ok.inj h)
          exact hlt

/-- What an escaped character other than `u` stands for. -/
def meaning : Char → Char
  | 't' => '\t'
  | 'n' => '\n'
  | 'r' => '\r'
  | 'f' => '\x0c'
  | c => c

/-- Reads an escaped text. A backslash at the very end stands for nothing. -/
def decode : List Char → Except Fault (List Char)
  | [] => .ok []
  | ['\\'] => .ok []
  | '\\' :: 'u' :: cs =>
      match h : readUnicode cs with
      | .error fault => .error fault
      | .ok (c, rest) =>
          have := readUnicode_lt h
          (decode rest).map (c :: ·)
  | '\\' :: c :: cs => (decode cs).map (meaning c :: ·)
  | c :: cs => (decode cs).map (c :: ·)
termination_by cs => cs.length

@[simp] theorem decode_nil : decode [] = .ok [] := by simp [decode]

/-- An escaped character other than `u` is read as its meaning. -/
theorem decode_escaped {c : Char} (hc : c ≠ 'u') (cs : List Char) :
    decode ('\\' :: c :: cs) = (decode cs).map (meaning c :: ·) := by
  rw [decode]
  exact hc

/-- A character other than a backslash is read as itself. -/
theorem decode_plain {c : Char} (hc : c ≠ '\\') (cs : List Char) :
    decode (c :: cs) = (decode cs).map (c :: ·) := by
  rw [decode]
  · exact fun h => absurd h hc
  · exact fun _ h => absurd h hc
  · exact fun _ _ h => absurd h hc

/-- What is left when neither a last backslash nor an escaped character is in front. -/
theorem ne_backslash {c : Char} {cs : List Char}
    (hlast : c = '\\' → cs = [] → False)
    (hpair : ∀ d ds, c = '\\' → cs = d :: ds → False) : c ≠ '\\' := by
  intro hc
  cases cs with
  | nil => exact hlast hc rfl
  | cons d ds => exact hpair d ds hc rfl

/-! ### Writing -/

/-- Writes one character; those that `marked` holds of get a backslash. -/
def encodeChar (marked : Char → Bool) : Char → List Char
  | '\\' => ['\\', '\\']
  | '\t' => ['\\', 't']
  | '\n' => ['\\', 'n']
  | '\r' => ['\\', 'r']
  | '\x0c' => ['\\', 'f']
  | c => if marked c then ['\\', c] else [c]

/-- The characters that would end a key or start a comment. -/
def isKeyMark (c : Char) : Bool :=
  c == ' ' || c == '=' || c == ':' || c == '#' || c == '!'

/-- Writes a key. -/
def encodeKey (cs : List Char) : List Char :=
  cs.flatMap (encodeChar isKeyMark)

/-- Writes a value. Only a space in front has to be marked, since blanks before a
value are no part of it. -/
def encodeValue : List Char → List Char
  | [] => []
  | c :: cs => encodeChar (· == ' ') c ++ cs.flatMap (encodeChar fun _ => false)

/-- One written character is read back, whatever follows it. -/
theorem decode_encodeChar {marked : Char → Bool} (hu : marked 'u' = false)
    (ht : ∀ c, marked c = true → meaning c = c) (c : Char) (cs : List Char) :
    decode (encodeChar marked c ++ cs) = (decode cs).map (c :: ·) := by
  unfold encodeChar
  split
  · exact decode_escaped (by decide) cs
  · exact decode_escaped (by decide) cs
  · exact decode_escaped (by decide) cs
  · exact decode_escaped (by decide) cs
  · exact decode_escaped (by decide) cs
  · next hback _ _ _ _ =>
      split
      · next hm =>
          have hne : c ≠ 'u' := fun h => by simp [h, hu] at hm
          simpa [ht c hm] using decode_escaped hne cs
      · exact decode_plain (fun h => hback h) cs

theorem decode_flatMap_encodeChar {marked : Char → Bool} (hu : marked 'u' = false)
    (ht : ∀ c, marked c = true → meaning c = c) (cs rest : List Char) :
    decode (cs.flatMap (encodeChar marked) ++ rest) = (decode rest).map (cs ++ ·) := by
  induction cs with
  | nil => cases h : decode rest <;> simp [h, Except.map]
  | cons c cs ih =>
      rw [List.flatMap_cons, List.append_assoc, decode_encodeChar hu ht, ih]
      cases h : decode rest <;> simp [Except.map]

private theorem meaning_of_isKeyMark (c : Char) (h : isKeyMark c = true) : meaning c = c := by
  simp only [isKeyMark, Bool.or_eq_true, beq_iff_eq] at h
  rcases h with (((rfl | rfl) | rfl) | rfl) | rfl <;> rfl

/-- A written key is read back. -/
theorem decode_encodeKey (cs : List Char) : decode (encodeKey cs) = .ok cs := by
  have h := @decode_flatMap_encodeChar isKeyMark rfl meaning_of_isKeyMark cs []
  simpa [encodeKey, Except.map] using h

/-- A written value is read back. -/
theorem decode_encodeValue (cs : List Char) : decode (encodeValue cs) = .ok cs := by
  cases cs with
  | nil => exact decode_nil
  | cons c cs =>
      have hrest := @decode_flatMap_encodeChar (fun _ => false) rfl (by simp) cs []
      rw [encodeValue, decode_encodeChar (by decide) (by simp [meaning])]
      simp only [List.append_nil, decode_nil] at hrest
      rw [hrest]
      simp [Except.map]

end PropertyFile.Escape
