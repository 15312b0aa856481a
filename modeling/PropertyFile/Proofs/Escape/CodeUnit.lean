import PropertyFile.Escape
import PropertyFile.Proofs.RawEntry.Separator
import PropertyFile.Proofs.Text.Utf16

/-!
# Texts written as code units

**Escaped code units are read as UTF-16**: `decode_escapes`. Any text can be written with
nothing but `\uXXXX`, one escape for each of its code units; each digit can be in lower or
in upper case. Such a text is read as the text that the units stand for, and if they stand
for none, the first surrogate without its partner is the fault.
-/

namespace PropertyFile

open PropertyFile.Text

/-- A code unit to be written as an escape. -/
structure UnitEscape where
  unit : UInt16
  /-- The case of each of its four digits. -/
  style : Fin 4 → HexCase

namespace UnitEscape

/-- The four digits. -/
def digits (e : UnitEscape) : List Char :=
  [(e.style 0).digit (e.unit.toNat / 0x1000), (e.style 1).digit (e.unit.toNat / 0x100 % 16),
    (e.style 2).digit (e.unit.toNat / 0x10 % 16), (e.style 3).digit (e.unit.toNat % 16)]

/-- The escape. -/
def text (e : UnitEscape) : List Char :=
  '\\' :: 'u' :: e.digits

/-- The escape of a code unit with all digits in upper case. -/
def upper (unit : UInt16) : UnitEscape :=
  ⟨unit, fun _ => .upper⟩

end UnitEscape

/-- Several code units as escapes. -/
def escapes (es : List UnitEscape) : List Char :=
  es.flatMap UnitEscape.text

/-! ### Digits -/

namespace Text

/-- A digit of either case is read back. -/
theorem hexDigit?_digit (style : HexCase) {d : Nat} (h : d < 16) :
    hexDigit? (style.digit d) = some d := by
  have hall : ∀ d : Fin 16, hexDigit? (style.digit d) = some d.val := by
    cases style <;> decide
  exact hall ⟨d, h⟩

/-- A hexadecimal digit is the digit of its value, in one case or the other. -/
theorem exists_eq_digit {c : Char} {d : Nat} (h : hexDigit? c = some d) :
    ∃ style : HexCase, d < 16 ∧ c = style.digit d := by
  have hlt := hexDigit?_lt h
  have hle (a b : Char) : a ≤ b ↔ a.toNat ≤ b.toNat := Iff.rfl
  have heq {n : Nat} (hn : n = c.toNat) : c = Char.ofNat n := by rw [hn, Char.ofNat_toNat]
  unfold hexDigit? at h
  simp only [Bool.and_eq_true, decide_eq_true_eq, hle] at h
  split at h
  · next hc =>
      obtain rfl := Option.some.inj h
      have hnine : '9'.toNat = '0'.toNat + 9 := rfl
      refine ⟨.lower, hlt, ?_⟩
      rw [HexCase.digit, if_pos (by omega)]
      exact heq (by omega)
  · split at h
    · next hc =>
        obtain rfl := Option.some.inj h
        refine ⟨.lower, hlt, ?_⟩
        rw [HexCase.digit, if_neg (by omega)]
        exact heq (by omega)
    · split at h
      · next hc =>
          obtain rfl := Option.some.inj h
          refine ⟨.upper, hlt, ?_⟩
          rw [HexCase.digit, if_neg (by omega)]
          exact heq (by omega)
      · cases h

/-- One more place puts a digit behind the others. -/
theorem HexCase.padded_succ (style : HexCase) {width : Nat} (hwidth : 0 < width) (n : Nat) :
    style.padded (width + 1) n = style.padded width (n / 16) ++ [style.digit (n % 16)] := by
  by_cases h : n < 16
  · have hzero : n / 16 = 0 := Nat.div_eq_of_lt h
    have hzeros : style.padded width 0 = List.replicate width '0' := by
      obtain ⟨k, rfl⟩ : ∃ k, width = k + 1 := ⟨width - 1, by omega⟩
      have hdigit : style.digit 0 = '0' := by cases style <;> decide
      simp [padded, digits, hdigit, List.replicate_succ']
    rw [hzero, hzeros, Nat.mod_eq_of_lt h, padded, digits, if_pos h]
    simp
  · rw [padded, digits, if_neg h]
    simp [padded]

end Text

namespace UnitEscape

/-- In one case, the digits are those that the code unit has in four places. -/
theorem digits_of_style (unit : UInt16) (style : HexCase) :
    (⟨unit, fun _ => style⟩ : UnitEscape).digits = style.padded 4 unit.toNat := by
  have hlt : unit.toNat / 16 / 16 / 16 < 16 := by
    have hunit : unit.toNat < 0x10000 := unit.toNat_lt
    omega
  have hfirst : style.padded 1 (unit.toNat / 16 / 16 / 16) =
      [style.digit (unit.toNat / 16 / 16 / 16)] := by
    rw [HexCase.padded, HexCase.digits, if_pos hlt]
    rfl
  rw [HexCase.padded_succ _ (by decide), HexCase.padded_succ _ (by decide),
    HexCase.padded_succ _ (by decide), hfirst]
  simp [digits, Nat.div_div_eq_div_mul]

/-- Four digits are those of the code unit that they are read as. -/
theorem exists_digits_eq {c0 c1 c2 c3 : Char} {n : Nat} (h : hex? [c0, c1, c2, c3] = some n) :
    ∃ e : UnitEscape, e.unit.toNat = n ∧ e.digits = [c0, c1, c2, c3] := by
  obtain ⟨d0, h0, h⟩ := Option.bind_eq_some_iff.mp h
  obtain ⟨d1, h1, h⟩ := Option.bind_eq_some_iff.mp h
  obtain ⟨d2, h2, h⟩ := Option.bind_eq_some_iff.mp h
  obtain ⟨d3, h3, h⟩ := Option.bind_eq_some_iff.mp h
  obtain rfl := Option.some.inj h
  obtain ⟨s0, hlt0, rfl⟩ := exists_eq_digit h0
  obtain ⟨s1, hlt1, rfl⟩ := exists_eq_digit h1
  obtain ⟨s2, hlt2, rfl⟩ := exists_eq_digit h2
  obtain ⟨s3, hlt3, rfl⟩ := exists_eq_digit h3
  let unit := 16 * (16 * (16 * (16 * 0 + d0) + d1) + d2) + d3
  have htoNat : (UInt16.ofNat unit).toNat = unit :=
    UInt16.toNat_ofNat_of_lt' (show unit < 65536 by omega)
  refine ⟨⟨UInt16.ofNat unit, fun | 0 => s0 | 1 => s1 | 2 => s2 | 3 => s3⟩, htoNat, ?_⟩
  have hq0 : unit / 0x1000 = d0 := by omega
  have hq1 : unit / 0x100 % 16 = d1 := by omega
  have hq2 : unit / 0x10 % 16 = d2 := by omega
  have hq3 : unit % 16 = d3 := by omega
  simp [digits, htoNat, hq0, hq1, hq2, hq3]

theorem digits_upper (unit : UInt16) : (upper unit).digits = HexCase.upper.padded 4 unit.toNat :=
  digits_of_style unit .upper

theorem exists_digit_of_mem {e : UnitEscape} {c : Char} (h : c ∈ e.digits) :
    ∃ (style : HexCase) (d : Nat), d < 16 ∧ c = style.digit d := by
  have hlt : e.unit.toNat < 0x10000 := e.unit.toNat_lt
  simp only [digits, List.mem_cons, List.not_mem_nil, or_false] at h
  rcases h with h | h | h | h
  · exact ⟨_, _, by omega, h⟩
  · exact ⟨_, _, by omega, h⟩
  · exact ⟨_, _, by omega, h⟩
  · exact ⟨_, _, by omega, h⟩

/-- The characters of an escape, other than its backslash and its letter, mean nothing to
a line. -/
theorem plain_of_mem_digits {e : UnitEscape} {c : Char} (h : c ∈ e.digits) :
    c ≠ '\\' ∧ RawEntry.isSeparator c = false ∧ isBlank c = false ∧ c ≠ '\n' ∧ c ≠ '\r' := by
  have hall : ∀ (style : HexCase) (d : Nat), d < 16 →
      style.digit d ≠ '\\' ∧ RawEntry.isSeparator (style.digit d) = false ∧
        isBlank (style.digit d) = false ∧ style.digit d ≠ '\n' ∧ style.digit d ≠ '\r' := by
    intro style
    cases style <;> decide
  obtain ⟨style, d, hd, rfl⟩ := exists_digit_of_mem h
  exact hall style d hd

end UnitEscape

namespace Escape

variable (e f : UnitEscape)

theorem hex?_digits : hex? e.digits = some e.unit.toNat := by
  have hlt : e.unit.toNat < 0x10000 := e.unit.toNat_lt
  have h0 := hexDigit?_digit (e.style 0) (d := e.unit.toNat / 0x1000) (by omega)
  have h1 := hexDigit?_digit (e.style 1) (d := e.unit.toNat / 0x100 % 16) (by omega)
  have h2 := hexDigit?_digit (e.style 2) (d := e.unit.toNat / 0x10 % 16) (by omega)
  have h3 := hexDigit?_digit (e.style 3) (d := e.unit.toNat % 16) (by omega)
  simp only [hex?, UnitEscape.digits, hexFrom?, h0, h1, h2, h3, Option.bind_some]
  congr 1
  omega

theorem readUnit_digits (rest : List Char) :
    readUnit (e.digits ++ rest) = .ok (e.unit.toNat, rest) := by
  have htake : (e.digits ++ rest).take 4 = e.digits := rfl
  rw [readUnit, htake, hex?_digits]
  rfl

/-! ### Reading escapes -/

variable {e f}

/-- A unit that is no surrogate is read as a character. -/
theorem readUnicode_unit (hh : isHighSurrogate e.unit.toNat = false)
    (hl : isLowSurrogate e.unit.toNat = false) (rest : List Char) :
    readUnicode (e.digits ++ rest) = .ok (Char.ofNat e.unit.toNat, rest) := by
  simp [readUnicode, readUnit_digits, hh, hl]

theorem readUnicode_pair (hh : isHighSurrogate e.unit.toNat = true)
    (hl : isLowSurrogate f.unit.toNat = true) (rest : List Char) :
    readUnicode (e.digits ++ (f.text ++ rest)) =
      .ok (Char.ofNat (pairCodePoint e.unit.toNat f.unit.toNat), rest) := by
  simp [readUnicode, readUnit_digits, UnitEscape.text, hh, hl]

/-- A high surrogate needs a low one in the next escape. -/
theorem readUnicode_high (hh : isHighSurrogate e.unit.toNat = true)
    (hl : isLowSurrogate f.unit.toNat = false) (rest : List Char) :
    readUnicode (e.digits ++ (f.text ++ rest)) = .error (.unpaired e.unit.toNat) := by
  simp [readUnicode, readUnit_digits, UnitEscape.text, hh, hl]

theorem readUnicode_last_high (hh : isHighSurrogate e.unit.toNat = true) :
    readUnicode (e.digits ++ []) = .error (.unpaired e.unit.toNat) := by
  simp only [readUnicode, readUnit_digits, hh, if_true]

theorem readUnicode_low (hh : isHighSurrogate e.unit.toNat = false)
    (hl : isLowSurrogate e.unit.toNat = true) (rest : List Char) :
    readUnicode (e.digits ++ rest) = .error (.unpaired e.unit.toNat) := by
  simp [readUnicode, readUnit_digits, hh, hl]

theorem decode_of_readUnicode {cs rest : List Char} {c : Char}
    (h : readUnicode cs = .ok (c, rest)) :
    decode ('\\' :: 'u' :: cs) = (decode rest).map (c :: ·) := by
  rw [decode]
  split
  · next fault hread => simp [h] at hread
  · next d more hread =>
      obtain ⟨rfl, rfl⟩ := Prod.mk.inj (Except.ok.inj (h.symm.trans hread))
      rfl

theorem decode_of_readUnicode_error {cs : List Char} {fault : Fault}
    (h : readUnicode cs = .error fault) : decode ('\\' :: 'u' :: cs) = .error fault := by
  rw [decode]
  split
  · next other hread => rw [Except.error.inj (hread.symm.trans h)]
  · next d more hread => simp [h] at hread

/-- The fault that a surrogate without its partner is. -/
def unpairedUnit (unit : UInt16) : Fault :=
  .unpaired unit.toNat

theorem mapError_map_cons (c : Char) (r : Except UInt16 (List Char)) :
    (r.map (c :: ·)).mapError unpairedUnit = (r.mapError unpairedUnit).map (c :: ·) := by
  cases r <;> rfl

/-- **Escaped code units are read as UTF-16.** -/
theorem decode_escapes : ∀ es : List UnitEscape,
    decode (escapes es) = (readUtf16 (es.map UnitEscape.unit)).mapError unpairedUnit
  | [] => decode_nil
  | e :: es => by
      show decode ('\\' :: 'u' :: (e.digits ++ escapes es)) = _
      rw [List.map_cons]
      by_cases hh : isHighSurrogate e.unit.toNat = true
      -- What becomes of a high surrogate depends on the escape after it.
      · match es with
        | [] =>
            show decode ('\\' :: 'u' :: (e.digits ++ [])) = _
            rw [decode_of_readUnicode_error (readUnicode_last_high hh), List.map_nil,
              readUtf16_last_high hh]
            rfl
        | f :: es =>
            show decode ('\\' :: 'u' :: (e.digits ++ (f.text ++ escapes es))) = _
            rw [List.map_cons]
            by_cases hl : isLowSurrogate f.unit.toNat = true
            · rw [decode_of_readUnicode (readUnicode_pair hh hl _), readUtf16_pair hh hl,
                mapError_map_cons, decode_escapes es]
            · rw [Bool.not_eq_true] at hl
              rw [decode_of_readUnicode_error (readUnicode_high hh hl _), readUtf16_high hh hl]
              rfl
      · rw [Bool.not_eq_true] at hh
        by_cases hl : isLowSurrogate e.unit.toNat = true
        · rw [decode_of_readUnicode_error (readUnicode_low hh hl _), readUtf16_low hh hl]
          rfl
        · rw [Bool.not_eq_true] at hl
          rw [decode_of_readUnicode (readUnicode_unit hh hl _), readUtf16_unit hh hl,
            mapError_map_cons, decode_escapes es]
termination_by es => es.length

end Escape

end PropertyFile
