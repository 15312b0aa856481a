import PropertyFile.Escape

/-!
# Which escapes cannot be read

**Reading fails exactly on malformed escapes.** `tokens` reads an escaped text from
left to right, where each backslash takes the next character with it, and says for
every `\u` whether four digits follow. It makes nothing of the code units and never
fails. `Malformed` then says on the tokens alone what is wrong: digits that are
missing, and surrogates without their partner. The main statement,
`decode_eq_error_iff`, says that `decode` fails for these reasons and no others.
-/

namespace PropertyFile.Escape

open PropertyFile.Text

/-! ### Tokens -/

/-- What an escaped text is made of. -/
inductive Token
  /-- A character, as it is or after a backslash. -/
  | char (c : Char)
  /-- `\u` and the four digits of a code unit. -/
  | unit (n : Nat)
  /-- `\u` that four digits do not follow. -/
  | broken
deriving DecidableEq, Repr

/-- The code unit whose four ASCII digits a text starts with. -/
def unitAt? (cs : List Char) : Option Nat :=
  if 4 ≤ cs.length ∧ (cs.take 4).all Char.isHexDigit then hex? (cs.take 4) else none

/-- The tokens of an escaped text, from left to right. -/
def tokens : List Char → List Token
  | [] => []
  | ['\\'] => []
  | '\\' :: 'u' :: cs =>
      match unitAt? cs with
      | some n => .unit n :: tokens (cs.drop 4)
      | none => .broken :: tokens cs
  | '\\' :: c :: cs => .char (meaning c) :: tokens cs
  | c :: cs => .char c :: tokens cs
termination_by cs => cs.length
decreasing_by all_goals simp <;> omega

@[simp] theorem tokens_nil : tokens [] = [] := by simp [tokens]

@[simp] theorem tokens_backslash : tokens ['\\'] = [] := by simp [tokens]

theorem tokens_unit {cs : List Char} {n : Nat} (h : unitAt? cs = some n) :
    tokens ('\\' :: 'u' :: cs) = .unit n :: tokens (cs.drop 4) := by
  simp [tokens, h]

theorem tokens_broken {cs : List Char} (h : unitAt? cs = none) :
    tokens ('\\' :: 'u' :: cs) = .broken :: tokens cs := by
  simp [tokens, h]

theorem tokens_escaped {c : Char} (hc : c ≠ 'u') (cs : List Char) :
    tokens ('\\' :: c :: cs) = .char (meaning c) :: tokens cs := by
  rw [tokens]
  exact hc

theorem tokens_plain {c : Char} (hc : c ≠ '\\') (cs : List Char) :
    tokens (c :: cs) = .char c :: tokens cs := by
  rw [tokens]
  · exact fun h => absurd h hc
  · exact fun _ h => absurd h hc
  · exact fun _ _ h => absurd h hc

/-- Only an escape gives a code unit. -/
theorem exists_of_head?_tokens {cs : List Char} {n : Nat}
    (h : (tokens cs).head? = some (.unit n)) :
    ∃ more, cs = '\\' :: 'u' :: more ∧ unitAt? more = some n := by
  fun_cases tokens cs with
  | case1 => simp at h
  | case2 => simp at h
  | case3 more m hm =>
      rw [tokens_unit hm] at h
      obtain rfl : m = n := by simpa using h
      exact ⟨more, rfl, hm⟩
  | case4 more hm =>
      rw [tokens_broken hm] at h
      simp at h
  | case5 c more hu =>
      rw [tokens_escaped hu] at h
      simp at h
  | case6 c more hlast _ hpair =>
      rw [tokens_plain (ne_backslash hlast hpair)] at h
      simp at h

/-! ### Digits -/

theorem isSome_hexDigit? (c : Char) : (hexDigit? c).isSome = c.isHexDigit := by
  have hdigit : (decide ('0' ≤ c) && decide (c ≤ '9')) = c.isDigit := rfl
  have hlower : (decide ('a' ≤ c) && decide (c ≤ 'f')) =
      (decide (c.val ≥ 'a'.val) && decide (c.val ≤ 'f'.val)) := rfl
  have hupper : (decide ('A' ≤ c) && decide (c ≤ 'F')) =
      (decide (c.val ≥ 'A'.val) && decide (c.val ≤ 'F'.val)) := rfl
  rw [hexDigit?, Char.isHexDigit, hdigit, hlower, hupper]
  cases c.isDigit with
  | true => rfl
  | false =>
      cases (decide (c.val ≥ 'a'.val) && decide (c.val ≤ 'f'.val)) with
      | true => rfl
      | false => cases (decide (c.val ≥ 'A'.val) && decide (c.val ≤ 'F'.val)) <;> rfl

theorem isSome_hexFrom? (acc : Nat) (cs : List Char) :
    (hexFrom? acc cs).isSome = cs.all Char.isHexDigit := by
  induction cs generalizing acc with
  | nil => rfl
  | cons c cs ih =>
      rw [hexFrom?, List.all_cons, ← isSome_hexDigit?]
      cases hexDigit? c with
      | none => rfl
      | some d => simpa using ih (16 * acc + d)

/-- The digits of a code unit are read where four of them stand. -/
theorem readUnit_eq (cs : List Char) :
    readUnit cs = match unitAt? cs with
      | some n => .ok (n, cs.drop 4)
      | none => .error (.malformed (cs.take 4)) := by
  have hunit : (if (cs.take 4).length = 4 then hex? (cs.take 4) else none) = unitAt? cs := by
    have hlength : (cs.take 4).length = 4 ↔ 4 ≤ cs.length := by
      rw [List.length_take]
      omega
    have hdigits := isSome_hexFrom? 0 (cs.take 4)
    unfold unitAt?
    by_cases hlen : 4 ≤ cs.length
    · rw [if_pos (hlength.mpr hlen)]
      cases hall : (cs.take 4).all Char.isHexDigit with
      | true => simp [hlen]
      | false =>
          rw [hall, Option.isSome_eq_false_iff, Option.isNone_iff_eq_none] at hdigits
          have hnone : hex? (cs.take 4) = none := hdigits
          rw [hnone, ite_self]
    · rw [if_neg fun h => hlen (hlength.mp h), if_neg fun h => hlen h.1]
  rw [← hunit]
  rfl

theorem readUnit_of_unitAt? {cs : List Char} {n : Nat} (h : unitAt? cs = some n) :
    readUnit cs = .ok (n, cs.drop 4) := by
  simp [readUnit_eq, h]

theorem unitAt?_of_readUnit {cs rest : List Char} {n : Nat} (h : readUnit cs = .ok (n, rest)) :
    unitAt? cs = some n ∧ rest = cs.drop 4 := by
  rw [readUnit_eq] at h
  cases hunit : unitAt? cs with
  | none => simp [hunit] at h
  | some m => simpa [hunit, eq_comm] using h

/-! ### What is wrong with a text -/

/-- Something among the tokens cannot be read. -/
inductive Malformed (ts : List Token) : Prop
  /-- A `\u` that four digits do not follow. -/
  | digits (h : .broken ∈ ts)
  /-- A high surrogate that no low surrogate follows at once. -/
  | high (i n : Nat) (hunit : ts[i]? = some (.unit n)) (hhigh : isHighSurrogate n = true)
      (hnext : ∀ low, ts[i + 1]? = some (.unit low) → isLowSurrogate low = false)
  /-- A low surrogate that does not follow a high surrogate at once. -/
  | low (i n : Nat) (hunit : ts[i]? = some (.unit n)) (hlow : isLowSurrogate n = true)
      (hprevious : ∀ j high, i = j + 1 → ts[j]? = some (.unit high) →
        isHighSurrogate high = false)

/-- A token that is no part of a surrogate pair and can be read. -/
def Token.StandsAlone : Token → Prop
  | .char _ => True
  | .unit n => isHighSurrogate n = false ∧ isLowSurrogate n = false
  | .broken => False

theorem Token.standsAlone_char (c : Char) : (Token.char c).StandsAlone := trivial

theorem not_malformed_nil : ¬ Malformed [] := by
  rintro (h | ⟨i, n, hunit⟩ | ⟨i, n, hunit⟩) <;> simp_all

/-- A surrogate is never both. -/
theorem isLowSurrogate_of_isHighSurrogate {n : Nat} (h : isHighSurrogate n = true) :
    isLowSurrogate n = false := by
  simp only [isHighSurrogate, isLowSurrogate, Bool.and_eq_true, decide_eq_true_eq,
    Bool.and_eq_false_iff, decide_eq_false_iff_not] at h ⊢
  omega

/-- A token that stands alone can be taken away. -/
theorem malformed_cons_iff {t : Token} (ht : t.StandsAlone) (ts : List Token) :
    Malformed (t :: ts) ↔ Malformed ts := by
  -- All places move by one, and at the first place stands no surrogate.
  constructor
  · rintro (h | ⟨i, n, hunit, hhigh, hnext⟩ | ⟨i, n, hunit, hlow, hprevious⟩)
    · rcases List.mem_cons.mp h with rfl | h
      · exact ht.elim
      · exact .digits h
    · cases i with
      | zero =>
          obtain rfl : t = .unit n := by simpa using hunit
          simp [ht.1] at hhigh
      | succ i => exact .high i n hunit hhigh hnext
    · cases i with
      | zero =>
          obtain rfl : t = .unit n := by simpa using hunit
          simp [ht.2] at hlow
      | succ i =>
          refine .low i n hunit hlow fun j high hj hhigh => ?_
          exact hprevious (j + 1) high (by omega) hhigh
  · rintro (h | ⟨i, n, hunit, hhigh, hnext⟩ | ⟨i, n, hunit, hlow, hprevious⟩)
    · exact .digits (List.mem_cons_of_mem t h)
    · exact .high (i + 1) n hunit hhigh hnext
    · refine .low (i + 1) n hunit hlow fun j high hj hhigh => ?_
      cases j with
      | zero =>
          obtain rfl : t = .unit high := by simpa using hhigh
          exact ht.1
      | succ j => exact hprevious j high (by omega) hhigh

/-- So can a surrogate pair. -/
theorem malformed_pair_iff {high low : Nat} (hh : isHighSurrogate high = true)
    (hl : isLowSurrogate low = true) (ts : List Token) :
    Malformed (.unit high :: .unit low :: ts) ↔ Malformed ts := by
  -- All places move by two; the two surrogates in front are in order because of each other.
  constructor
  · rintro (h | ⟨i, n, hunit, hhigh, hnext⟩ | ⟨i, n, hunit, hlow, hprevious⟩)
    · exact .digits (by simpa using h)
    · match i with
      | 0 => simp [hnext low rfl] at hl
      | 1 =>
          obtain rfl : low = n := by simpa using hunit
          simp [isLowSurrogate_of_isHighSurrogate hhigh] at hl
      | i + 2 => exact .high i n hunit hhigh hnext
    · match i with
      | 0 =>
          obtain rfl : high = n := by simpa using hunit
          simp [isLowSurrogate_of_isHighSurrogate hh] at hlow
      | 1 => simp [hprevious 0 high rfl rfl] at hh
      | i + 2 =>
          refine .low i n hunit hlow fun j high' hj hhigh => ?_
          exact hprevious (j + 2) high' (by omega) hhigh
  · rintro (h | ⟨i, n, hunit, hhigh, hnext⟩ | ⟨i, n, hunit, hlow, hprevious⟩)
    · exact .digits (by simp [h])
    · exact .high (i + 2) n hunit hhigh hnext
    · refine .low (i + 2) n hunit hlow fun j high' hj hhigh => ?_
      match j with
      | 0 => omega
      | 1 =>
          obtain rfl : low = high' := by simpa using hhigh
          refine Bool.eq_false_iff.mpr fun hboth => ?_
          simp [isLowSurrogate_of_isHighSurrogate hboth] at hl
      | j + 2 => exact hprevious j high' (by omega) hhigh

/-! ### Reading fails on what is malformed -/

/-- A character is read from a code unit that stands alone, or from a pair. -/
theorem tokens_of_readUnicode {cs rest : List Char} {c : Char}
    (h : readUnicode cs = .ok (c, rest)) :
    (∃ n, (Token.unit n).StandsAlone ∧ tokens ('\\' :: 'u' :: cs) = .unit n :: tokens rest) ∨
    ∃ high low, isHighSurrogate high = true ∧ isLowSurrogate low = true ∧
      tokens ('\\' :: 'u' :: cs) = .unit high :: .unit low :: tokens rest := by
  unfold readUnicode at h
  split at h
  · simp at h
  · next n more hunit =>
      obtain ⟨hn, rfl⟩ := unitAt?_of_readUnit hunit
      rw [tokens_unit hn]
      split at h
      · next hhigh =>
          split at h
          · next more hmore =>
              split at h
              · simp at h
              · next low rest' hlowUnit =>
                  obtain ⟨hlowAt, rfl⟩ := unitAt?_of_readUnit hlowUnit
                  split at h
                  · next hlow =>
                      obtain ⟨-, rfl⟩ := Prod.mk.inj (Except.ok.inj h)
                      exact Or.inr ⟨n, low, hhigh, hlow, by rw [hmore, tokens_unit hlowAt]⟩
                  · simp at h
          · simp at h
      · next hhigh =>
          split at h
          · simp at h
          · next hlow =>
              obtain ⟨-, rfl⟩ := Prod.mk.inj (Except.ok.inj h)
              exact Or.inl ⟨n, ⟨by simpa using hhigh, by simpa using hlow⟩, rfl⟩

theorem malformed_of_readUnicode_error {cs : List Char} {fault : Fault}
    (h : readUnicode cs = .error fault) : Malformed (tokens ('\\' :: 'u' :: cs)) := by
  cases hunit : unitAt? cs with
  | none =>
      rw [tokens_broken hunit]
      exact .digits List.mem_cons_self
  | some n =>
      rw [tokens_unit hunit]
      rw [readUnicode, readUnit_of_unitAt? hunit] at h
      dsimp only at h
      split at h
      · next hhigh =>
          refine .high 0 n rfl hhigh fun low hnext => ?_
          have hhead : (tokens (cs.drop 4)).head? = some (.unit low) := by
            simpa [List.head?_eq_getElem?] using hnext
          obtain ⟨more, hmore, hlowAt⟩ := exists_of_head?_tokens hhead
          rw [hmore] at h
          simp only [readUnit_of_unitAt? hlowAt] at h
          split at h
          · simp at h
          · next hlow => simpa using hlow
      · next hhigh =>
          split at h
          · next hlow => exact .low 0 n rfl hlow fun j high hj => by omega
          · simp at h

/-- **Reading fails exactly on malformed escapes.** -/
theorem decode_eq_error_iff (cs : List Char) :
    (∃ fault, decode cs = .error fault) ↔ Malformed (tokens cs) := by
  -- A character in front that can be read changes neither side.
  have hcons : ∀ {rest : List Char} {c : Char},
      (∃ fault, (decode rest).map (c :: ·) = .error fault) ↔
        ∃ fault, decode rest = .error fault := by
    intro rest c
    cases decode rest <;> simp [Except.map]
  fun_induction decode cs with
  | case1 => simp [not_malformed_nil]
  | case2 => simp [not_malformed_nil]
  | case3 cs fault h => simpa using malformed_of_readUnicode_error h
  | case4 cs c rest h _ ih =>
      rw [hcons]
      refine ih.trans ?_
      rcases tokens_of_readUnicode h with ⟨n, hn, heq⟩ | ⟨high, low, hhigh, hlow, heq⟩
      · rw [heq, malformed_cons_iff hn]
      · rw [heq, malformed_pair_iff hhigh hlow]
  | case5 c cs hu ih =>
      rw [hcons, tokens_escaped hu, malformed_cons_iff (Token.standsAlone_char _)]
      exact ih
  | case6 c cs hlast _ hpair ih =>
      rw [hcons, tokens_plain (ne_backslash hlast hpair),
        malformed_cons_iff (Token.standsAlone_char _)]
      exact ih

end PropertyFile.Escape
