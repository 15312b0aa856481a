import PropertyFile.Proofs.Escape.Dangling
import PropertyFile.RawEntry

/-!
# What stands between a key and its value

**A line is cut where it was put together**: `ofLine_dropBlanks`. Blanks, a separator
and more blanks may stand between a raw key and a raw value, or blanks alone, if no
separator comes after them. Whatever it is, the key and the value are read back.

The key can be any text in which every separator and every blank is escaped
(`isKeyText`): cutting passes over it to what follows (`cutKey_append_of_isKeyText`).

Of any other line the same is true in part. It is cut into a raw key, blanks and separators,
and a raw value (`exists_separator`), and never behind a backslash that would take the next
character with it (`dangles_ofLine`).
-/

namespace PropertyFile

open PropertyFile.Text

namespace RawEntry

/-! ### Raw keys -/

/-- Read from left to right, where each backslash takes the next character with it, does
a text hold separators and blanks only after a backslash, and does its last backslash
take a character? -/
def isKeyText : List Char → Bool
  | [] => true
  | ['\\'] => false
  | '\\' :: _ :: cs => isKeyText cs
  | c :: cs => !isSeparator c && !isBlank c && isKeyText cs

@[simp] theorem isKeyText_nil : isKeyText [] = true := by simp [isKeyText]

@[simp] theorem isKeyText_escaped (c : Char) (cs : List Char) :
    isKeyText ('\\' :: c :: cs) = isKeyText cs := by
  simp [isKeyText]

theorem isKeyText_plain {c : Char} (hc : c ≠ '\\') (cs : List Char) :
    isKeyText (c :: cs) = (!isSeparator c && !isBlank c && isKeyText cs) := by
  rw [isKeyText]
  · exact fun h _ => absurd h hc
  · exact fun _ _ h _ => absurd h hc

theorem cutKey_plain {c : Char} (hc : c ≠ '\\') (hsep : isSeparator c = false)
    (hblank : isBlank c = false) (cs : List Char) :
    cutKey (c :: cs) = (c :: (cutKey cs).1, (cutKey cs).2) := by
  rw [cutKey]
  · simp [hsep, hblank]
  · exact fun _ _ h _ => absurd h hc

/-- A key ends before a separator and before a blank. -/
theorem cutKey_of_ends {c : Char} (hends : isSeparator c = true ∨ isBlank c = true)
    (cs : List Char) : cutKey (c :: cs) = ([], c :: cs) := by
  have hback : c ≠ '\\' := by
    intro hc
    rw [hc] at hends
    simp [isSeparator, isBlank] at hends
  rw [cutKey]
  · simp [hends]
  · exact fun _ _ h _ => absurd h hback

/-- Cutting passes over a raw key. -/
theorem cutKey_append_of_isKeyText {key : List Char} (h : isKeyText key = true)
    (rest : List Char) :
    cutKey (key ++ rest) = (key ++ (cutKey rest).1, (cutKey rest).2) := by
  fun_induction isKeyText key with
  | case1 => rfl
  | case2 => simp at h
  | case3 c cs ih => simp [cutKey, ih h]
  | case4 c cs hlast hpair ih =>
      simp only [Bool.and_eq_true, Bool.not_eq_true'] at h
      obtain ⟨⟨hsep, hblank⟩, hcs⟩ := h
      rw [List.cons_append, cutKey_plain (Escape.ne_backslash hlast hpair) hsep hblank, ih hcs,
        List.cons_append]

theorem dangles_of_isKeyText {key : List Char} (h : isKeyText key = true) :
    Escape.dangles key = false := by
  fun_induction isKeyText key with
  | case1 => rfl
  | case2 => simp at h
  | case3 c cs ih => simpa using ih h
  | case4 c cs hlast hpair ih =>
      simp only [Bool.and_eq_true] at h
      rw [Escape.dangles_plain (Escape.ne_backslash hlast hpair)]
      exact ih h.2

/-- A raw key does not start with a blank. -/
theorem isBlank_head_of_isKeyText {c : Char} {cs : List Char} (h : isKeyText (c :: cs) = true) :
    isBlank c = false := by
  by_cases hc : c = '\\'
  · rw [hc]
    rfl
  · simp only [isKeyText_plain hc, Bool.and_eq_true, Bool.not_eq_true'] at h
    exact h.1.2

/-! ### Separators -/

/-- A text that can stand between a raw key and a raw value. -/
inductive Separates (key value : List Char) : List Char → Prop
  /-- A separator, with blanks on either side. -/
  | mark (before : List Char) (c : Char) (after : List Char)
      (hbefore : ∀ b ∈ before, isBlank b = true) (hmark : isSeparator c = true)
      (hafter : ∀ b ∈ after, isBlank b = true) : Separates key value (before ++ c :: after)
  /-- Blanks alone, which need a key in front of them and no separator after them. -/
  | blanks (bs : List Char) (hne : bs ≠ []) (hbs : ∀ b ∈ bs, isBlank b = true)
      (hkey : key ≠ []) (hvalue : ∀ c ∈ value.head?, isSeparator c = false) :
      Separates key value bs

variable {key value separator : List Char}

/-- Dropping blanks stops at a separator. -/
theorem dropBlanks_before_separator {before : List Char} {c : Char}
    (hbefore : ∀ b ∈ before, isBlank b = true) (hmark : isSeparator c = true)
    (rest : List Char) : dropBlanks (before ++ c :: rest) = c :: rest := by
  have hblank : isBlank c = false := by
    simp only [isSeparator, Bool.or_eq_true, beq_iff_eq] at hmark
    rcases hmark with hc | hc
    · rw [hc]
      rfl
    · rw [hc]
      rfl
  rw [dropBlanks_append hbefore]
  exact dropBlanks_eq_self (by simpa using hblank)

/-- What starts with a separator or a blank is no part of the key. -/
theorem Separates.cutKey_append (h : Separates key value separator) (rest : List Char) :
    cutKey (separator ++ rest) = ([], separator ++ rest) := by
  cases h with
  | mark before c after hbefore hmark hafter =>
      cases before with
      | nil => exact cutKey_of_ends (Or.inl hmark) _
      | cons b before => exact cutKey_of_ends (Or.inr (hbefore b List.mem_cons_self)) _
  | blanks bs hne hbs hkey hvalue =>
      obtain ⟨b, more, rfl⟩ := List.exists_cons_of_ne_nil hne
      exact cutKey_of_ends (Or.inr (hbs b List.mem_cons_self)) _

/-- At most one separator is dropped: a value that starts with another keeps it. -/
theorem Separates.dropSeparator_append (h : Separates key value separator)
    (hvalue : ∀ c ∈ value.head?, isBlank c = false) :
    dropSeparator (separator ++ value) = value := by
  cases h with
  | mark before c after hbefore hmark hafter =>
      rw [dropSeparator, List.append_assoc, List.cons_append,
        dropBlanks_before_separator hbefore hmark]
      simp only [hmark, if_true]
      rw [dropBlanks_append hafter, dropBlanks_eq_self hvalue]
  | blanks bs hne hbs hkey hstart =>
      rw [dropSeparator, dropBlanks_append hbs, dropBlanks_eq_self hvalue]
      cases value with
      | nil => rfl
      | cons c value => simp [hstart c rfl]

/-- A separator is made of marks and blanks. -/
theorem Separates.chars (h : Separates key value separator) :
    ∀ c ∈ separator, isSeparator c = true ∨ isBlank c = true := by
  intro c hc
  cases h with
  | mark before d after hbefore hmark hafter =>
      rcases List.mem_append.mp hc with hc | hc
      · exact Or.inr (hbefore c hc)
      · rcases List.mem_cons.mp hc with hc | hc
        · exact Or.inl (hc ▸ hmark)
        · exact Or.inr (hafter c hc)
  | blanks bs hne hbs hkey hvalue => exact Or.inr (hbs c hc)

theorem Separates.ne_nil (h : Separates key value separator) : separator ≠ [] := by
  cases h with
  | mark before c after hbefore hmark hafter => simp
  | blanks bs hne hbs hkey hvalue => exact hne

/-! ### Any line -/

/-- Only blanks and separators are dropped in front of a value. -/
theorem exists_dropped (cs : List Char) :
    ∃ dropped, cs = dropped ++ dropSeparator cs ∧
      ∀ c ∈ dropped, isSeparator c = true ∨ isBlank c = true := by
  obtain ⟨before, hbefore, hcs⟩ := exists_blanks cs
  unfold dropSeparator
  split
  · next hnil =>
      rw [hnil] at hcs
      exact ⟨before, hcs, fun c hc => Or.inr (hbefore c hc)⟩
  · next c rest hrest =>
      rw [hrest] at hcs
      split
      · next hmark =>
          obtain ⟨after, hblank, hafter⟩ := exists_blanks rest
          refine ⟨before ++ c :: after, ?_, fun d hd => ?_⟩
          · rw [List.append_assoc, List.cons_append, ← hafter, ← hcs]
          · rcases List.mem_append.mp hd with hd | hd
            · exact Or.inr (hbefore d hd)
            · rcases List.mem_cons.mp hd with rfl | hd
              · exact Or.inl hmark
              · exact Or.inr (hblank d hd)
      · exact ⟨before, hcs, fun c hc => Or.inr (hbefore c hc)⟩

/-- A line is its raw key, blanks and separators, and its raw value. -/
theorem exists_separator (cs : List Char) :
    ∃ separator, cs = (ofLine cs).key ++ separator ++ (ofLine cs).value ∧
      ∀ c ∈ separator, isSeparator c = true ∨ isBlank c = true := by
  obtain ⟨dropped, hrest, hdropped⟩ := exists_dropped (cutKey cs).2
  refine ⟨dropped, ?_, hdropped⟩
  calc cs
      = (cutKey cs).1 ++ (cutKey cs).2 := (cutKey_append cs).symm
    _ = (cutKey cs).1 ++ (dropped ++ dropSeparator (cutKey cs).2) := by rw [← hrest]
    _ = (ofLine cs).key ++ dropped ++ (ofLine cs).value := (List.append_assoc _ _ _).symm

/-- A line is cut where no backslash stands in front that escapes nothing. -/
theorem dangles_cutKey {cs : List Char} (h : Escape.dangles cs = false) :
    Escape.dangles (cutKey cs).1 = false ∧ Escape.dangles (cutKey cs).2 = false := by
  fun_induction cutKey cs with
  | case1 => exact ⟨rfl, rfl⟩
  | case2 c cs key rest hcut ih =>
      rw [hcut] at ih
      simpa using ih (by simpa using h)
  | case3 c cs hpair hends => exact ⟨rfl, h⟩
  | case4 c cs hpair hgoes key rest hcut ih =>
      have hback : c ≠ '\\' := by
        -- Were it a backslash, it would be the last character and escape nothing.
        intro hc
        cases cs with
        | nil => simp [hc] at h
        | cons d cs => exact hpair d cs hc rfl
      rw [hcut] at ih
      rw [Escape.dangles_plain hback] at h ⊢
      exact ih h

theorem dangles_dropSeparator (cs : List Char) :
    Escape.dangles (dropSeparator cs) = Escape.dangles cs := by
  rw [← Escape.dangles_dropBlanks cs]
  unfold dropSeparator
  cases dropBlanks cs with
  | nil => rfl
  | cons c rest =>
      dsimp only
      split
      · next hmark =>
          have hback : c ≠ '\\' := by
            intro hc
            rw [hc] at hmark
            exact absurd hmark (by decide)
          rw [Escape.dangles_dropBlanks, Escape.dangles_plain hback]
      · rfl

/-- Where the last backslash of a line escapes something, so do those of its raw key and
its raw value. -/
theorem dangles_ofLine {cs : List Char} (h : Escape.dangles cs = false) :
    Escape.dangles (ofLine cs).key = false ∧ Escape.dangles (ofLine cs).value = false := by
  obtain ⟨hkey, hrest⟩ := dangles_cutKey h
  exact ⟨hkey, (dangles_dropSeparator _).trans hrest⟩

/-! ### Cutting a line -/

theorem ofLine_append (hkey : isKeyText key = true)
    (hvalue : ∀ c ∈ value.head?, isBlank c = false) (hsep : Separates key value separator) :
    ofLine (key ++ separator ++ value) = ⟨key, value⟩ := by
  simp [ofLine, cutKey_append_of_isKeyText hkey, hsep.cutKey_append,
    hsep.dropSeparator_append hvalue]

/-- Blanks in front of a line do not count. Where the key is empty, these are the blanks in
front of its separator, and what is left of that still separates. -/
theorem exists_dropBlanks_eq (hkey : isKeyText key = true) (hsep : Separates key value separator) :
    ∃ sep, Separates key value sep ∧
      dropBlanks (key ++ separator ++ value) = key ++ sep ++ value := by
  cases key with
  | cons c key =>
      refine ⟨separator, hsep, dropBlanks_eq_self fun d hd => ?_⟩
      obtain rfl : c = d := by simpa using hd
      exact isBlank_head_of_isKeyText hkey
  | nil =>
      cases hsep with
      | blanks bs hne hbs hnil => exact absurd rfl hnil
      | mark before c after hbefore hmark hafter =>
          refine ⟨c :: after, .mark [] c after (by simp) hmark hafter, ?_⟩
          rw [List.nil_append, List.append_assoc, List.cons_append,
            dropBlanks_before_separator hbefore hmark]
          rfl

/-- **A line is cut where it was put together.** -/
theorem ofLine_dropBlanks (hkey : isKeyText key = true)
    (hvalue : ∀ c ∈ value.head?, isBlank c = false) (hsep : Separates key value separator) :
    ofLine (dropBlanks (key ++ separator ++ value)) = ⟨key, value⟩ := by
  obtain ⟨sep, hsep', heq⟩ := exists_dropBlanks_eq hkey hsep
  rw [heq, ofLine_append hkey hvalue hsep']

end RawEntry

end PropertyFile
