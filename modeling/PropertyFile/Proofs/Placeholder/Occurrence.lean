import PropertyFile.Placeholder

/-!
# The placeholders that are found

**Cutting a value from left to right finds every placeholder of it, and nothing
else.** The grammar is stated here without the scanner, as `IsWritten`.

That nothing is missed rests on one fact: inside a placeholder, after its first
character, no `@` can stand. So no placeholder straddles the start of another one
(`not_straddles_at`), and cutting can be split at every such place
(`pieces_append`).
-/

namespace PropertyFile

namespace Piece

/-! ### The grammar and the scanner -/

/-- The characters of names: ASCII letters and digits, `_` and `*`. -/
def IsNameChar (c : Char) : Prop :=
  ('A' ≤ c ∧ c ≤ 'Z') ∨ ('a' ≤ c ∧ c ≤ 'z') ∨ ('0' ≤ c ∧ c ≤ '9') ∨ c = '_' ∨ c = '*'

theorem isNameChar_iff {c : Char} : isNameChar c = true ↔ IsNameChar c := by
  have halphanum : c.isAlphanum =
      (decide ('A' ≤ c ∧ c ≤ 'Z') || (decide ('a' ≤ c) && decide (c ≤ 'z')) ||
        (decide ('0' ≤ c) && decide (c ≤ '9'))) := rfl
  simp only [isNameChar, halphanum, Bool.or_eq_true, Bool.and_eq_true, decide_eq_true_eq,
    beq_iff_eq, IsNameChar, or_assoc]

/-- The names that a placeholder can have. -/
def IsName (name : List Char) : Prop :=
  name ≠ [] ∧ ∀ c ∈ name, IsNameChar c

/-- The scanner takes a placeholder in front, whatever follows it, and nothing else. -/
theorem span?_eq_some_iff {cs name rest : List Char} :
    span? cs = some (name, rest) ↔ cs = spanText name ++ rest ∧ IsName name := by
  constructor
  · intro h
    obtain ⟨heq, hne, hall⟩ := eq_of_span? h
    exact ⟨heq, hne, fun c hc => isNameChar_iff.mp (hall c hc)⟩
  · rintro ⟨rfl, hne, hall⟩
    have hname : ∀ c ∈ name, isNameChar c = true := fun c hc => isNameChar_iff.mpr (hall c hc)
    have htake : (name ++ '\x7d' :: rest).takeWhile isNameChar = name := by
      rw [List.takeWhile_append_of_pos hname, List.takeWhile_cons_of_neg (by decide),
        List.append_nil]
    have hdrop : (name ++ '\x7d' :: rest).dropWhile isNameChar = '\x7d' :: rest := by
      rw [List.dropWhile_append_of_pos hname, List.dropWhile_cons_of_neg (by decide)]
    obtain ⟨c, name, rfl⟩ := List.exists_cons_of_ne_nil hne
    have hspan : spanText (c :: name) ++ rest = '@' :: '\x7b' :: (c :: name ++ '\x7d' :: rest) := by
      simp [spanText]
    rw [hspan, span?, htake, hdrop]
    rfl

/-- After its first character, a placeholder holds no `@`. -/
theorem eq_zero_of_getElem?_spanText {name : List Char} (hname : IsName name) {k : Nat}
    (h : (spanText name)[k]? = some '@') : k = 0 := by
  cases k with
  | zero => rfl
  | succ k =>
      have hmem : '@' ∈ '\x7b' :: (name ++ ['\x7d']) := List.mem_of_getElem? h
      simp only [List.mem_cons, List.mem_append, List.not_mem_nil, or_false] at hmem
      rcases hmem with hbrace | hmem | hbrace
      · exact absurd hbrace (by decide)
      · have hchar := isNameChar_iff.mpr (hname.2 '@' hmem)
        exact absurd hchar (by decide)
      · exact absurd hbrace (by decide)

/-! ### Cutting two texts one after the other -/

/-- Does a placeholder of `a ++ b` start in `a` and end in `b`? -/
def Straddles (a b : List Char) : Prop :=
  ∃ front name back, a ++ b = front ++ spanText name ++ back ∧ IsName name ∧
    front.length < a.length ∧ a.length < (front ++ spanText name).length

/-- A placeholder that straddles stays one when more text comes in front. -/
theorem Straddles.append_left {a b : List Char} (h : Straddles a b) (front : List Char) :
    Straddles (front ++ a) b := by
  obtain ⟨front', name, back, heq, hname, hstart, hstop⟩ := h
  refine ⟨front ++ front', name, back, ?_, hname, ?_, ?_⟩
  · rw [List.append_assoc, heq]
    simp only [List.append_assoc]
  · simp only [List.length_append]
    omega
  · simp only [List.length_append] at hstop ⊢
    omega

/-- If no placeholder straddles, one in front of `a ++ b` lies in `a`. -/
theorem span?_append {a b : List Char} (ha : a ≠ []) (h : ¬Straddles a b) :
    span? (a ++ b) = (span? a).map fun found => (found.1, found.2 ++ b) := by
  cases hshort : span? a with
  | some found =>
      obtain ⟨name, rest⟩ := found
      obtain ⟨rfl, hname⟩ := span?_eq_some_iff.mp hshort
      exact span?_eq_some_iff.mpr ⟨List.append_assoc .., hname⟩
  | none =>
      cases hlong : span? (a ++ b) with
      | none => rfl
      | some found =>
          obtain ⟨name, rest⟩ := found
          obtain ⟨heq, hname⟩ := span?_eq_some_iff.mp hlong
          -- A placeholder in front that did not end in `a` would straddle.
          have hlength : (spanText name).length ≤ a.length := by
            refine Nat.le_of_not_lt fun hlt => h ⟨[], name, rest, heq, hname, ?_, hlt⟩
            exact List.length_pos_iff.mpr ha
          obtain ⟨rest', rfl⟩ : spanText name <+: a :=
            List.prefix_of_prefix_length_le ⟨rest, heq.symm⟩ ⟨b, rfl⟩ hlength
          rw [span?_eq_some_iff.mpr ⟨rfl, hname⟩] at hshort
          simp at hshort

/-- Where no placeholder straddles, each part is cut as if it stood alone. -/
theorem pieces_append {a b : List Char} (h : ¬Straddles a b) :
    pieces (a ++ b) = pieces a ++ pieces b := by
  fun_induction pieces a with
  | case1 => rfl
  | case2 c cs name rest hspan _ ih =>
      have hlong : span? (c :: cs ++ b) = some (name, rest ++ b) := by
        rw [span?_append (List.cons_ne_nil c cs) h, hspan]
        rfl
      have hrest : ¬Straddles rest b := fun hstraddles => by
        rw [(span?_eq_some_iff.mp hspan).1] at h
        exact h (hstraddles.append_left _)
      rw [pieces_of_span? hlong, ih hrest, List.cons_append]
  | case3 c cs hspan ih =>
      have hlong : span? (c :: (cs ++ b)) = none := by
        rw [← List.cons_append, span?_append (List.cons_ne_nil c cs) h, hspan]
        rfl
      have hrest : ¬Straddles cs b := fun hstraddles => h (hstraddles.append_left [c])
      rw [List.cons_append, pieces_of_not_span? hlong, ih hrest, List.cons_append]

/-- The start of a placeholder is straddled by no other one. -/
theorem not_straddles_at (a b : List Char) : ¬Straddles a ('@' :: b) := by
  rintro ⟨front, name, back, heq, hname, hstart, hstop⟩
  have hat : (a ++ '@' :: b)[a.length]? = some '@' := by simp
  rw [heq, List.getElem?_append_left hstop, List.getElem?_append_right (Nat.le_of_lt hstart)] at hat
  have hzero := eq_zero_of_getElem?_spanText hname hat
  omega

/-- A placeholder is a piece wherever it stands. -/
theorem pieces_spanText {name : List Char} (hname : IsName name) (a b : List Char) :
    pieces (a ++ spanText name ++ b) = pieces a ++ .placeholder name :: pieces b := by
  have hspan : span? (spanText name ++ b) = some (name, b) :=
    span?_eq_some_iff.mpr ⟨rfl, hname⟩
  have hstart : ¬Straddles a (spanText name ++ b) := not_straddles_at a _
  rw [List.append_assoc, pieces_append hstart, pieces_of_span? hspan]

theorem isName_of_mem_pieces {cs name : List Char} (h : .placeholder name ∈ pieces cs) :
    IsName name := by
  fun_induction pieces cs with
  | case1 => simp at h
  | case2 c cs name' rest hspan _ ih =>
      rcases List.mem_cons.mp h with heq | h
      · obtain rfl := Piece.placeholder.inj heq
        exact (span?_eq_some_iff.mp hspan).2
      · exact ih h
  | case3 c cs hspan ih =>
      rcases List.mem_cons.mp h with heq | h
      · simp at heq
      · exact ih h

theorem eq_of_pieces_eq {cs name : List Char} {before after : List Piece}
    (h : pieces cs = before ++ .placeholder name :: after) :
    cs = ofPieces before ++ spanText name ++ ofPieces after := by
  rw [← ofPieces_pieces cs, h]
  simp [ofPieces, text]

/-- A search for the first placeholder misses none. -/
theorem hasSpan_iff {cs : List Char} :
    hasSpan cs = true ↔ ∃ name, IsName name ∧ ∃ a b, cs = a ++ spanText name ++ b := by
  induction cs with
  | nil =>
      simp only [hasSpan, Bool.false_eq_true, false_iff]
      rintro ⟨name, -, a, b, heq⟩
      simp [spanText] at heq
  | cons c cs ih =>
      rw [hasSpan, Bool.or_eq_true, ih, Option.isSome_iff_exists]
      constructor
      · rintro (⟨⟨name, rest⟩, hspan⟩ | ⟨name, hname, a, b, rfl⟩)
        · obtain ⟨heq, hname⟩ := span?_eq_some_iff.mp hspan
          exact ⟨name, hname, [], rest, heq⟩
        · exact ⟨name, hname, c :: a, b, rfl⟩
      · rintro ⟨name, hname, a, b, heq⟩
        cases a with
        | nil => exact Or.inl ⟨(name, b), span?_eq_some_iff.mpr ⟨heq, hname⟩⟩
        | cons d a => exact Or.inr ⟨name, hname, a, b, (List.cons.inj heq).2⟩

end Piece

namespace Placeholder

/-! ### Places -/

/-- The number of bytes of a list of pieces, as they are written. -/
def width (ps : List Piece) : Nat :=
  (String.ofList (Piece.ofPieces ps)).utf8ByteSize

@[simp] theorem width_nil : width [] = 0 := rfl

theorem width_cons (piece : Piece) (ps : List Piece) :
    width (piece :: ps) = (String.ofList piece.text).utf8ByteSize + width ps := by
  rw [width, Piece.ofPieces_cons, String.ofList_append, String.utf8ByteSize_append, width]

@[simp] theorem width_literal (c : Char) (ps : List Piece) :
    width (.literal c :: ps) = c.utf8Size + width ps := by
  simp [width_cons, Piece.text]

@[simp] theorem text_mk (start : Nat) (name : List Char) :
    (⟨start, String.ofList name⟩ : Placeholder).text = String.ofList (Piece.spanText name) := by
  simp [text]

/-- The places of the later pieces are counted on from those of the earlier ones. -/
theorem ofPieces_append (start : Nat) (ps qs : List Piece) :
    ofPieces start (ps ++ qs) = ofPieces start ps ++ ofPieces (start + width ps) qs := by
  induction ps generalizing start with
  | nil => rfl
  | cons piece ps ih =>
      cases piece with
      | literal c =>
          rw [List.cons_append, ofPieces, ih, ofPieces, width_literal, Nat.add_assoc]
      | placeholder name =>
          simp only [List.cons_append, ofPieces, ih, stop, text_mk, width_cons, Piece.text,
            Nat.add_assoc]

/-- A placeholder comes from a piece, and its place is what stands before. -/
theorem mem_ofPieces_iff {start : Nat} {ps : List Piece} {p : Placeholder} :
    p ∈ ofPieces start ps ↔
      ∃ before name after, ps = before ++ .placeholder name :: after ∧
        p = ⟨start + width before, String.ofList name⟩ := by
  constructor
  · intro h
    induction ps generalizing start with
    | nil => simp [ofPieces] at h
    | cons piece ps ih =>
        cases piece with
        | literal c =>
            obtain ⟨before, name, after, rfl, rfl⟩ := ih h
            exact ⟨.literal c :: before, name, after, rfl, by simp [Nat.add_assoc]⟩
        | placeholder name =>
            rcases List.mem_cons.mp h with rfl | h
            · exact ⟨[], name, ps, rfl, rfl⟩
            · obtain ⟨before, name', after, rfl, rfl⟩ := ih h
              refine ⟨.placeholder name :: before, name', after, rfl, ?_⟩
              simp [stop, width_cons, Piece.text, Nat.add_assoc]
  · rintro ⟨before, name, after, rfl, rfl⟩
    rw [ofPieces_append]
    simp [ofPieces]

/-- Each placeholder ends before the next one starts. -/
theorem pairwise_ofPieces (start : Nat) (ps : List Piece) :
    (ofPieces start ps).Pairwise fun p q => p.stop ≤ q.start := by
  induction ps generalizing start with
  | nil => exact List.Pairwise.nil
  | cons piece ps ih =>
      cases piece with
      | literal c => exact ih _
      | placeholder name =>
          refine List.Pairwise.cons (fun q hq => ?_) (ih _)
          obtain ⟨before, name', after, -, rfl⟩ := mem_ofPieces_iff.mp hq
          exact Nat.le_add_right ..

theorem text_ne_empty (p : Placeholder) : p.text ≠ "" := by
  simp [text, Piece.spanText]

theorem start_lt_stop (p : Placeholder) : p.start < p.stop := by
  have hsize : p.text.utf8ByteSize ≠ 0 :=
    fun hzero => p.text_ne_empty (String.utf8ByteSize_eq_zero_iff.mp hzero)
  exact Nat.lt_add_of_pos_right (Nat.pos_of_ne_zero hsize)

/-- The text of a placeholder gives its name away. -/
theorem text_inj {p q : Placeholder} (h : p.text = q.text) : p.name = q.name := by
  have hspan : Piece.spanText p.name.toList = Piece.spanText q.name.toList :=
    String.ofList_injective h
  rw [← String.toList_inj]
  simpa [Piece.spanText] using hspan

/-! ### What is found -/

/-- A value holds a placeholder at a place exactly if the text there is one. -/
theorem mem_find_iff {value : String} {p : Placeholder} :
    p ∈ find value ↔
      Piece.IsName p.name.toList ∧
        ∃ before after : String, value = before ++ p.text ++ after ∧
          p.start = before.utf8ByteSize := by
  rw [find, mem_ofPieces_iff]
  constructor
  · rintro ⟨before, name, after, hpieces, rfl⟩
    have hmem : .placeholder name ∈ Piece.pieces value.toList := by simp [hpieces]
    refine ⟨by simpa using Piece.isName_of_mem_pieces hmem, String.ofList (Piece.ofPieces before),
      String.ofList (Piece.ofPieces after), ?_, Nat.zero_add _⟩
    rw [text_mk, ← String.ofList_append, ← String.ofList_append, ← Piece.eq_of_pieces_eq hpieces,
      String.ofList_toList]
  · rintro ⟨hname, before, after, rfl, hstart⟩
    refine ⟨Piece.pieces before.toList, p.name.toList, Piece.pieces after.toList, ?_, ?_⟩
    · have htext : p.text.toList = Piece.spanText p.name.toList := by simp [text]
      rw [String.toList_append, String.toList_append, htext, Piece.pieces_spanText hname]
    · rw [Nat.zero_add, width, Piece.ofPieces_pieces, String.ofList_toList, ← hstart,
        String.ofList_toList]

theorem occursIn_iff {value : String} : occursIn value = true ↔ find value ≠ [] := by
  rw [occursIn, Piece.hasSpan_iff]
  constructor
  · rintro ⟨name, hname, a, b, heq⟩
    have hmem : ⟨(String.ofList a).utf8ByteSize, String.ofList name⟩ ∈ find value := by
      refine mem_find_iff.mpr ⟨by simpa using hname, String.ofList a, String.ofList b, ?_, rfl⟩
      rw [text_mk, ← String.ofList_append, ← String.ofList_append, ← heq, String.ofList_toList]
    exact List.ne_nil_of_mem hmem
  · intro hne
    obtain ⟨p, hp⟩ := List.exists_mem_of_ne_nil _ hne
    obtain ⟨hname, before, after, heq, -⟩ := mem_find_iff.mp hp
    refine ⟨p.name.toList, hname, before.toList, after.toList, ?_⟩
    rw [heq, String.toList_append, String.toList_append, text, String.toList_ofList]

/-- The text from one place to another is `t` exactly if `t` stands there. -/
theorem extract_eq_iff {value : String} {i j : value.Pos} {t : String} (ht : t ≠ "") :
    String.extract i j = t ↔
      ∃ before after : String, value = before ++ t ++ after ∧
        i.offset.byteIdx = before.utf8ByteSize ∧ j.offset.byteIdx = (before ++ t).utf8ByteSize := by
  constructor
  · intro h
    by_cases hle : i ≤ j
    · rw [String.extract_eq_copy_slice i j hle] at h
      obtain ⟨before, after, hi, hj⟩ := String.copy_slice_eq_iff_splits.mp ⟨hle, h⟩
      exact ⟨before, after, hj.eq_append, congrArg String.Pos.Raw.byteIdx hi.offset_eq_rawEndPos,
        congrArg String.Pos.Raw.byteIdx hj.offset_eq_rawEndPos⟩
    -- Places out of order have no text between them.
    · refine absurd ?_ ht
      simp only [String.Pos.le_iff, String.Pos.Raw.le_iff, Nat.not_le] at hle
      have hempty := ByteArray.extract_eq_empty_iff (b := value.toByteArray)
        (i := i.offset.byteIdx) (j := j.offset.byteIdx)
      rw [← h, ← String.toByteArray_inj, String.toByteArray_extract, hempty.mpr (by omega)]
      rfl
  · rintro ⟨before, after, heq, hi, hj⟩
    have hisplits : i.Splits before (t ++ after) :=
      ⟨by rw [heq, String.append_assoc], String.Pos.Raw.ext hi⟩
    have hjsplits : j.Splits (before ++ t) after := ⟨heq, String.Pos.Raw.ext hj⟩
    obtain ⟨hle, hcopy⟩ := String.copy_slice_eq_iff_splits.mpr ⟨before, after, hisplits, hjsplits⟩
    rw [String.extract_eq_copy_slice i j hle, hcopy]

/-- The grammar of placeholders: `@`, a brace, a name and a closing brace. -/
def IsWritten (text name : String) : Prop :=
  text = "@\x7b" ++ name ++ "\x7d" ∧ Piece.IsName name.toList

theorem isWritten_iff {t : String} {p : Placeholder} :
    IsWritten t p.name ↔ t = p.text ∧ Piece.IsName p.name.toList := by
  have htext : "@\x7b" ++ p.name ++ "\x7d" = p.text := by
    rw [← String.toList_inj]
    simp [text, Piece.spanText]
  rw [IsWritten, htext]

/-- The places of a placeholder that is found are places of the value. -/
theorem exists_pos_of_mem_find {value : String} {p : Placeholder} (h : p ∈ find value) :
    ∃ i j : value.Pos, i < j ∧ p.start = i.offset.byteIdx ∧ p.stop = j.offset.byteIdx := by
  obtain ⟨-, before, after, heq, hstart⟩ := mem_find_iff.mp h
  have hi : (⟨p.start⟩ : String.Pos.Raw).IsValid value :=
    String.Pos.Raw.isValid_iff_exists_append.mpr
      ⟨before, p.text ++ after, by rw [heq, String.append_assoc], String.Pos.Raw.ext hstart⟩
  have hj : (⟨p.stop⟩ : String.Pos.Raw).IsValid value := by
    refine String.Pos.Raw.isValid_iff_exists_append.mpr
      ⟨before ++ p.text, after, heq, String.Pos.Raw.ext ?_⟩
    rw [String.byteIdx_rawEndPos, String.utf8ByteSize_append, ← hstart, stop]
  exact ⟨⟨_, hi⟩, ⟨_, hj⟩, p.start_lt_stop, rfl, rfl⟩

theorem exists_mem_find_iff {value : String} {i j : value.Pos} {name : String} :
    (∃ p ∈ find value,
      p.start = i.offset.byteIdx ∧ p.stop = j.offset.byteIdx ∧ p.name = name) ↔
        IsWritten (String.extract i j) name := by
  constructor
  · rintro ⟨p, hp, hi, hj, rfl⟩
    obtain ⟨hname, before, after, heq, hstart⟩ := mem_find_iff.mp hp
    have hstop : p.stop = (before ++ p.text).utf8ByteSize := by
      rw [String.utf8ByteSize_append, ← hstart, stop]
    have htext : String.extract i j = p.text :=
      (extract_eq_iff p.text_ne_empty).mpr
        ⟨before, after, heq, hi.symm.trans hstart, hj.symm.trans hstop⟩
    exact isWritten_iff.mpr ⟨htext, hname⟩
  · intro hwritten
    let p : Placeholder := ⟨i.offset.byteIdx, name⟩
    obtain ⟨htext, hname⟩ := isWritten_iff (p := p).mp hwritten
    obtain ⟨before, after, heq, hi, hj⟩ := (extract_eq_iff p.text_ne_empty).mp htext
    have hstop : p.stop = j.offset.byteIdx := by
      rw [hj, String.utf8ByteSize_append, ← hi, stop]
    exact ⟨p, mem_find_iff.mpr ⟨hname, before, after, heq, hi⟩, rfl, hstop, rfl⟩

/-- **Nothing is missed and nothing is made up.** Between two places of a value a
placeholder is found exactly if the text there is one, and then under its name.
All that is found lies between places of the value; the placeholders come in
order, apart from each other and each once; and the test for a placeholder
succeeds exactly if one is found. -/
theorem find_exact (value : String) :
    (∀ (i j : value.Pos) (name : String),
      (∃ p ∈ find value,
        p.start = i.offset.byteIdx ∧ p.stop = j.offset.byteIdx ∧ p.name = name) ↔
          IsWritten (String.extract i j) name) ∧
    (∀ p ∈ find value, ∃ i j : value.Pos, i < j ∧
      p.start = i.offset.byteIdx ∧ p.stop = j.offset.byteIdx) ∧
    (find value).Pairwise (fun p q => p.start < q.start ∧ p.stop ≤ q.start) ∧
    (find value).Nodup ∧
    (occursIn value = true ↔ find value ≠ []) := by
  have hordered : (find value).Pairwise fun p q => p.start < q.start ∧ p.stop ≤ q.start :=
    (pairwise_ofPieces 0 _).imp fun {p q} hpq =>
      ⟨Nat.lt_of_lt_of_le p.start_lt_stop hpq, hpq⟩
  have hnodup : (find value).Nodup := by
    refine hordered.imp fun {p q} hpq heq => ?_
    rw [heq] at hpq
    exact Nat.lt_irrefl _ hpq.1
  exact ⟨fun _ _ _ => exists_mem_find_iff, fun _ => exists_pos_of_mem_find, hordered, hnodup,
    occursIn_iff⟩

end Placeholder

end PropertyFile
