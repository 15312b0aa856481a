import PropertyFile.Text.Surrogate

/-!
# UTF-16

**Code units and the texts that they stand for.** `utf16` writes a text as code units;
units that are no text hold a surrogate without its partner, and `IsFirstUnpaired` tells
which is the first. `readUtf16` reads units from left to right. It gives a text back from
the units of this text and of no other (`readUtf16_eq_ok_iff`), and it fails at the first
surrogate without partner (`isFirstUnpaired_of_readUtf16`).
-/

namespace PropertyFile.Text

/-! ### Writing -/

/-- The code units of a character: one, or a surrogate pair beyond U+FFFF. -/
def utf16Char (c : Char) : List UInt16 :=
  if c.toNat < 0x10000 then [UInt16.ofNat c.toNat]
  else
    [UInt16.ofNat (0xD800 + (c.toNat - 0x10000) / 0x400),
      UInt16.ofNat (0xDC00 + (c.toNat - 0x10000) % 0x400)]

/-- The code units of a text. -/
def utf16 (text : List Char) : List UInt16 :=
  text.flatMap utf16Char

/-- Code units that are those of a text. -/
def IsUtf16 (units : List UInt16) : Prop :=
  ∃ text, units = utf16 text

/-- The code unit in a given place is a surrogate without its partner. -/
inductive IsUnpaired (units : List UInt16) (i : Nat) (unit : UInt16) : Prop
  /-- A high surrogate that no low surrogate follows at once. -/
  | high (hunit : units[i]? = some unit) (hhigh : isHighSurrogate unit.toNat = true)
      (hnext : ∀ low, units[i + 1]? = some low → isLowSurrogate low.toNat = false)
  /-- A low surrogate that does not follow a high surrogate at once. -/
  | low (hunit : units[i]? = some unit) (hlow : isLowSurrogate unit.toNat = true)
      (hprevious : ∀ j high, i = j + 1 → units[j]? = some high →
        isHighSurrogate high.toNat = false)

/-- The first surrogate without its partner. -/
def IsFirstUnpaired (units : List UInt16) (unit : UInt16) : Prop :=
  ∃ i, IsUnpaired units i unit ∧ ∀ j < i, ∀ other, ¬ IsUnpaired units j other

/-! ### Reading -/

/-- Reads the text that code units stand for, or finds the first surrogate without its
partner. -/
def readUtf16 : List UInt16 → Except UInt16 (List Char)
  | [] => .ok []
  | unit :: rest =>
      if isHighSurrogate unit.toNat then
        match rest with
        | [] => .error unit
        | low :: rest =>
            if isLowSurrogate low.toNat then
              (readUtf16 rest).map (Char.ofNat (pairCodePoint unit.toNat low.toNat) :: ·)
            else .error unit
      else if isLowSurrogate unit.toNat then .error unit
      else (readUtf16 rest).map (Char.ofNat unit.toNat :: ·)

/-- A code unit that is no surrogate is read as a character. -/
theorem readUtf16_unit {unit : UInt16} (hh : isHighSurrogate unit.toNat = false)
    (hl : isLowSurrogate unit.toNat = false) (rest : List UInt16) :
    readUtf16 (unit :: rest) = (readUtf16 rest).map (Char.ofNat unit.toNat :: ·) := by
  rw [readUtf16.eq_def]
  simp [hh, hl]

/-- So is a surrogate pair. -/
theorem readUtf16_pair {high low : UInt16} (hh : isHighSurrogate high.toNat = true)
    (hl : isLowSurrogate low.toNat = true) (rest : List UInt16) :
    readUtf16 (high :: low :: rest) =
      (readUtf16 rest).map (Char.ofNat (pairCodePoint high.toNat low.toNat) :: ·) := by
  simp [readUtf16, hh, hl]

theorem readUtf16_high {high next : UInt16} (hh : isHighSurrogate high.toNat = true)
    (hl : isLowSurrogate next.toNat = false) (rest : List UInt16) :
    readUtf16 (high :: next :: rest) = .error high := by
  simp [readUtf16, hh, hl]

theorem readUtf16_last_high {high : UInt16} (hh : isHighSurrogate high.toNat = true) :
    readUtf16 [high] = .error high := by
  simp [readUtf16, hh]

theorem readUtf16_low {low : UInt16} (hh : isHighSurrogate low.toNat = false)
    (hl : isLowSurrogate low.toNat = true) (rest : List UInt16) :
    readUtf16 (low :: rest) = .error low := by
  rw [readUtf16.eq_def]
  simp [hh, hl]

/-! ### The units of a text -/

theorem toNat_ofNat_of_isValidChar {n : Nat} (h : n.isValidChar) : (Char.ofNat n).toNat = n := by
  rw [Char.ofNat, dif_pos h]
  rfl

/-- The form of the character that a code unit is read as is this unit. -/
theorem utf16Char_unit {unit : UInt16} (hh : isHighSurrogate unit.toNat = false)
    (hl : isLowSurrogate unit.toNat = false) : utf16Char (Char.ofNat unit.toNat) = [unit] := by
  have hlt : unit.toNat < 0x10000 := unit.toNat_lt
  rw [utf16Char, toNat_ofNat_of_isValidChar (isValidChar_of_not_surrogate hlt hh hl), if_pos hlt,
    UInt16.ofNat_toNat]

theorem utf16Char_pair {high low : UInt16} (hh : isHighSurrogate high.toNat = true)
    (hl : isLowSurrogate low.toNat = true) :
    utf16Char (Char.ofNat (pairCodePoint high.toNat low.toNat)) = [high, low] := by
  rw [utf16Char, toNat_ofNat_of_isValidChar (isValidChar_pairCodePoint hh hl)]
  simp only [isHighSurrogate, isLowSurrogate, Bool.and_eq_true, decide_eq_true_eq] at hh hl
  have hbeyond : ¬ pairCodePoint high.toNat low.toNat < 0x10000 := by
    unfold pairCodePoint
    omega
  have hhigh : 0xD800 + (pairCodePoint high.toNat low.toNat - 0x10000) / 0x400 = high.toNat := by
    unfold pairCodePoint
    omega
  have hlow : 0xDC00 + (pairCodePoint high.toNat low.toNat - 0x10000) % 0x400 = low.toNat := by
    unfold pairCodePoint
    omega
  rw [if_neg hbeyond, hhigh, hlow, UInt16.ofNat_toNat, UInt16.ofNat_toNat]

/-- A character has one code unit, which is no surrogate, or a surrogate pair. -/
theorem utf16Char_cases (c : Char) :
    (∃ unit, utf16Char c = [unit] ∧ isHighSurrogate unit.toNat = false ∧
      isLowSurrogate unit.toNat = false ∧ unit.toNat = c.toNat) ∨
    ∃ high low, utf16Char c = [high, low] ∧ isHighSurrogate high.toNat = true ∧
      isLowSurrogate low.toNat = true ∧ pairCodePoint high.toNat low.toNat = c.toNat := by
  have hvalid : c.toNat < 0xD800 ∨ (0xDFFF < c.toNat ∧ c.toNat < 0x110000) := c.valid
  have hunit : ∀ n : Nat, n < 0x10000 → (UInt16.ofNat n).toNat = n :=
    fun n hn => UInt16.toNat_ofNat_of_lt' hn
  by_cases hc : c.toNat < 0x10000
  · have hh : isHighSurrogate c.toNat = false := by
      simp only [isHighSurrogate, Bool.and_eq_false_iff, decide_eq_false_iff_not]
      omega
    have hl : isLowSurrogate c.toNat = false := by
      simp only [isLowSurrogate, Bool.and_eq_false_iff, decide_eq_false_iff_not]
      omega
    refine Or.inl ⟨UInt16.ofNat c.toNat, by rw [utf16Char, if_pos hc], ?_⟩
    rw [hunit c.toNat hc]
    exact ⟨hh, hl, rfl⟩
  · have hhigh := hunit (0xD800 + (c.toNat - 0x10000) / 0x400) (by omega)
    have hlow := hunit (0xDC00 + (c.toNat - 0x10000) % 0x400) (by omega)
    refine Or.inr ⟨UInt16.ofNat (0xD800 + (c.toNat - 0x10000) / 0x400),
      UInt16.ofNat (0xDC00 + (c.toNat - 0x10000) % 0x400), ?_, ?_, ?_, ?_⟩
    · rw [utf16Char, if_neg hc]
    · rw [hhigh]
      simp only [isHighSurrogate, Bool.and_eq_true, decide_eq_true_eq]
      omega
    · rw [hlow]
      simp only [isLowSurrogate, Bool.and_eq_true, decide_eq_true_eq]
      omega
    · rw [hhigh, hlow]
      unfold pairCodePoint
      omega

/-- The form of a character is read back, whatever follows it. -/
theorem readUtf16_utf16Char (c : Char) (rest : List UInt16) :
    readUtf16 (utf16Char c ++ rest) = (readUtf16 rest).map (c :: ·) := by
  rcases utf16Char_cases c with ⟨unit, heq, hh, hl, hc⟩ | ⟨high, low, heq, hh, hl, hc⟩
  · rw [heq, List.singleton_append, readUtf16_unit hh hl, hc, Char.ofNat_toNat]
  · rw [heq, List.cons_append, List.singleton_append, readUtf16_pair hh hl, hc, Char.ofNat_toNat]

theorem readUtf16_utf16 (text : List Char) : readUtf16 (utf16 text) = .ok text := by
  induction text with
  | nil => rfl
  | cons c text ih =>
      show readUtf16 (utf16Char c ++ utf16 text) = .ok (c :: text)
      rw [readUtf16_utf16Char, ih]
      rfl

/-- A character in front is read apart from the rest. -/
theorem map_cons_eq_ok_iff {c : Char} {r : Except UInt16 (List Char)} {text : List Char} :
    r.map (c :: ·) = .ok text ↔ ∃ more, r = .ok more ∧ c :: more = text := by
  cases r <;> simp [Except.map]

theorem map_cons_eq_error_iff {c : Char} {r : Except UInt16 (List Char)} {unit : UInt16} :
    r.map (c :: ·) = .error unit ↔ r = .error unit := by
  cases r <;> simp [Except.map]

theorem eq_utf16_of_readUtf16 {units : List UInt16} {text : List Char}
    (h : readUtf16 units = .ok text) : units = utf16 text := by
  fun_induction readUtf16 units generalizing text with
  | case1 =>
      obtain rfl := Except.ok.inj h
      rfl
  | case2 => cases h
  | case3 high hhigh low rest hlow ih =>
      obtain ⟨more, hmore, rfl⟩ := map_cons_eq_ok_iff.mp h
      show _ = utf16Char _ ++ utf16 more
      rw [utf16Char_pair hhigh hlow, ← ih hmore]
      rfl
  | case4 => cases h
  | case5 => cases h
  | case6 unit rest hhigh hlow ih =>
      obtain ⟨more, hmore, rfl⟩ := map_cons_eq_ok_iff.mp h
      show _ = utf16Char _ ++ utf16 more
      rw [utf16Char_unit (by simpa using hhigh) (by simpa using hlow), ← ih hmore]
      rfl

/-- Code units are read as the text that they are the form of. -/
theorem readUtf16_eq_ok_iff {units : List UInt16} {text : List Char} :
    readUtf16 units = .ok text ↔ units = utf16 text := by
  constructor
  · exact eq_utf16_of_readUtf16
  · intro h
    rw [h, readUtf16_utf16]

/-! ### Surrogates without their partner -/

/-- A low surrogate is no high one. -/
theorem isHighSurrogate_eq_false {n : Nat} (h : isLowSurrogate n = true) :
    isHighSurrogate n = false := by
  simp only [isHighSurrogate, isLowSurrogate, Bool.and_eq_true, decide_eq_true_eq,
    Bool.and_eq_false_iff, decide_eq_false_iff_not] at h ⊢
  omega

/-- A unit in front does not matter further on, if it is not the partner of the next. -/
theorem isUnpaired_cons_iff {first : UInt16} {units : List UInt16} {i : Nat} {unit : UInt16}
    (h : i = 0 → isHighSurrogate first.toNat = false) :
    IsUnpaired (first :: units) (i + 1) unit ↔ IsUnpaired units i unit := by
  constructor
  · intro hunpaired
    cases hunpaired with
    | high hunit hhigh hnext => exact .high hunit hhigh hnext
    | low hunit hlow hprevious =>
        refine .low hunit hlow fun j high hj hhigh => ?_
        exact hprevious (j + 1) high (by omega) hhigh
  · intro hunpaired
    cases hunpaired with
    | high hunit hhigh hnext => exact .high hunit hhigh hnext
    | low hunit hlow hprevious =>
        refine .low hunit hlow fun j high hj hhigh => ?_
        cases j with
        | zero =>
            obtain rfl : first = high := by simpa using hhigh
            exact h (by omega)
        | succ j => exact hprevious j high (by omega) hhigh

theorem not_isUnpaired_unit {first : UInt16} {units : List UInt16}
    (hh : isHighSurrogate first.toNat = false) (hl : isLowSurrogate first.toNat = false)
    (unit : UInt16) : ¬ IsUnpaired (first :: units) 0 unit := by
  intro hunpaired
  cases hunpaired with
  | high hunit hhigh hnext =>
      obtain rfl : first = unit := by simpa using hunit
      simp [hh] at hhigh
  | low hunit hlow hprevious =>
      obtain rfl : first = unit := by simpa using hunit
      simp [hl] at hlow

/-- Neither surrogate of a pair is without its partner. -/
theorem not_isUnpaired_pair {high low : UInt16} {units : List UInt16}
    (hh : isHighSurrogate high.toNat = true) (hl : isLowSurrogate low.toNat = true) {j : Nat}
    (hj : j < 2) (unit : UInt16) : ¬ IsUnpaired (high :: low :: units) j unit := by
  intro hunpaired
  match j with
  | 0 =>
      cases hunpaired with
      | high hunit hhigh hnext => simp [hnext low rfl] at hl
      | low hunit hlow hprevious =>
          obtain rfl : high = unit := by simpa using hunit
          simp [isHighSurrogate_eq_false hlow] at hh
  | 1 =>
      cases hunpaired with
      | high hunit hhigh hnext =>
          obtain rfl : low = unit := by simpa using hunit
          simp [isHighSurrogate_eq_false hl] at hhigh
      | low hunit hlow hprevious => simp [hprevious 0 high rfl rfl] at hh

/-- Reading fails at the first surrogate without its partner. -/
theorem isFirstUnpaired_of_readUtf16 {units : List UInt16} {unit : UInt16}
    (h : readUtf16 units = .error unit) : IsFirstUnpaired units unit := by
  fun_induction readUtf16 units with
  | case1 => cases h
  | case2 high hhigh =>
      obtain rfl := Except.error.inj h
      exact ⟨0, .high rfl hhigh (by simp), by simp⟩
  | case3 high hhigh low rest hlow ih =>
      obtain ⟨i, hunpaired, hfirst⟩ := ih (map_cons_eq_error_iff.mp h)
      -- The places after a pair are those of the rest, moved by two.
      have hmoved : ∀ {j : Nat} {other : UInt16},
          IsUnpaired (high :: low :: rest) (j + 2) other ↔ IsUnpaired rest j other := by
        intro j other
        rw [isUnpaired_cons_iff (by simp),
          isUnpaired_cons_iff fun _ => isHighSurrogate_eq_false hlow]
      refine ⟨i + 2, hmoved.mpr hunpaired, fun j hj other => ?_⟩
      match j with
      | 0 => exact not_isUnpaired_pair hhigh hlow (by decide) other
      | 1 => exact not_isUnpaired_pair hhigh hlow (by decide) other
      | j + 2 => exact fun hother => hfirst j (by omega) other (hmoved.mp hother)
  | case4 high hhigh low rest hlow =>
      obtain rfl := Except.error.inj h
      exact ⟨0, .high rfl hhigh (by simpa using hlow), by simp⟩
  | case5 low rest hhigh hlow =>
      obtain rfl := Except.error.inj h
      exact ⟨0, .low rfl hlow (by simp), by simp⟩
  | case6 first rest hhigh hlow ih =>
      obtain ⟨i, hunpaired, hfirst⟩ := ih (map_cons_eq_error_iff.mp h)
      have hmoved : ∀ {j : Nat} {other : UInt16},
          IsUnpaired (first :: rest) (j + 1) other ↔ IsUnpaired rest j other :=
        isUnpaired_cons_iff fun _ => by simpa using hhigh
      refine ⟨i + 1, hmoved.mpr hunpaired, fun j hj other => ?_⟩
      cases j with
      | zero => exact not_isUnpaired_unit (by simpa using hhigh) (by simpa using hlow) other
      | succ j => exact fun hother => hfirst j (by omega) other (hmoved.mp hother)

/-- Units that are no text have such a surrogate, and reading finds it. -/
theorem exists_isFirstUnpaired {units : List UInt16} (h : ¬ IsUtf16 units) :
    ∃ unit, readUtf16 units = .error unit ∧ IsFirstUnpaired units unit := by
  cases hread : readUtf16 units with
  | error unit => exact ⟨unit, rfl, isFirstUnpaired_of_readUtf16 hread⟩
  | ok text => exact absurd ⟨text, readUtf16_eq_ok_iff.mp hread⟩ h

end PropertyFile.Text
