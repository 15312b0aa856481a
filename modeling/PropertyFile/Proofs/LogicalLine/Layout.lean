import PropertyFile.Proofs.Escape.Dangling

/-!
# How physical lines make up logical lines

**Where a logical line stands in a text.** The lines of a text are read one after
the other, and between two of them all that counts is the entry that is still
open. `advance` is what one physical line does to it, and `advance_cases` says
all that can happen; what holds of a whole text follows by induction on its
lines.

* `leavesOpen` tells from the physical lines alone whether an entry is open after
  them. If none is, what follows is read as a text of its own (`collect_append`).
* `StandsIn` says of which physical lines a logical line is made, and that its
  number is that of the first of them. The logical lines of a text are those of
  which this holds (`mem_ofText_iff`), in the order of their numbers.
-/

namespace PropertyFile.LogicalLine

open PropertyFile.Text PropertyFile.Escape

/-! ### Open entries -/

/-- Is a physical line a comment, by its first character that is not a blank? -/
def isComment (physical : List Char) : Bool :=
  match dropBlanks physical with
  | [] => false
  | c :: _ => c == '#' || c == '!'

/-- Is an entry open after a physical line? The line has to go on; a comment opens
none, it can only go on where one was open before. -/
def staysOpen (isOpen : Bool) (physical : List Char) : Bool :=
  continues physical && (isOpen || !isComment physical)

/-- Is an entry open after the last of some physical lines? -/
def leavesOpen (physical : List (List Char)) : Bool :=
  physical.foldl staysOpen false

@[simp] theorem leavesOpen_nil : leavesOpen [] = false := rfl

/-- The last line decides, given whether an entry was open before it. -/
theorem leavesOpen_concat (earlier : List (List Char)) (last : List Char) :
    leavesOpen (earlier ++ [last]) = staysOpen (leavesOpen earlier) last := by
  simp [leavesOpen]

/-- Blanks in front of a line do not make it go on. -/
theorem continues_dropBlanks (physical : List Char) :
    continues (dropBlanks physical) = continues physical := by
  rw [continues_eq_dangles, continues_eq_dangles, dangles_dropBlanks]

/-- Between entries, a line that is skipped leaves none open. -/
theorem staysOpen_of_isSkipped {physical : List Char}
    (h : isSkipped (dropBlanks physical) = true) : staysOpen false physical = false := by
  unfold staysOpen isComment
  cases hd : dropBlanks physical with
  | nil =>
      have hcontinues : continues physical = false := by
        rw [← continues_dropBlanks, hd]
        rfl
      rw [hcontinues, Bool.false_and]
  | cons c cs =>
      have hmark : (c == '#' || c == '!') = true := by simpa [hd, isSkipped] using h
      simp [hmark]

/-- Between entries, a line that is not skipped is no comment. -/
theorem isComment_of_not_isSkipped {physical : List Char}
    (h : isSkipped (dropBlanks physical) = false) : isComment physical = false := by
  unfold isComment
  cases hd : dropBlanks physical with
  | nil => rfl
  | cons c cs => simpa [hd, isSkipped] using h

/-! ### One physical line -/

/-- What a physical line adds to its entry: blanks in front do not count, nor does
the backslash by which it goes on. -/
def part (physical : List Char) : List Char :=
  if continues physical then (dropBlanks physical).dropLast else dropBlanks physical

/-- What a physical line does: the entries that it closes, and the one that it
leaves open. -/
def advance (number : Nat) (pending : Option LogicalLine) (physical : List Char) :
    List LogicalLine × Option LogicalLine :=
  match if pending.isNone && !isSkipped (dropBlanks physical) then some ⟨number, []⟩
    else pending with
  | none => ([], none)
  | some line =>
      if continues physical then ([], some (line.append (part physical)))
      else ([line.append (part physical)], none)

theorem advance_some (number : Nat) (line : LogicalLine) (physical : List Char) :
    advance number (some line) physical =
      if continues physical then ([], some (line.append (part physical)))
      else ([line.append (part physical)], none) := rfl

/-- The logical lines are those closed line by line. -/
theorem collect_cons (number : Nat) (pending : Option LogicalLine) (physical : List Char)
    (rest : List (List Char)) :
    collect number pending (physical :: rest) =
      (advance number pending physical).1 ++
        collect (number + 1) (advance number pending physical).2 rest := by
  have hgoes := continues_dropBlanks physical
  cases pending with
  | some line => cases h : continues physical <;> simp [collect, advance, part, hgoes, h]
  | none =>
      cases hskip : isSkipped (dropBlanks physical) with
      | true => simp [collect, advance, hskip]
      | false => cases h : continues physical <;> simp [collect, advance, part, hskip, hgoes, h]

/-- A line is skipped between entries, or it belongs to one: to the one that is
open or to one that it opens. It leaves its entry open or closes it. -/
theorem advance_cases (number : Nat) (pending : Option LogicalLine) (physical : List Char) :
    (pending = none ∧ isSkipped (dropBlanks physical) = true ∧
      advance number pending physical = ([], none)) ∨
    ∃ line,
      (pending = some line ∨
        (pending = none ∧ isSkipped (dropBlanks physical) = false ∧ line = ⟨number, []⟩)) ∧
      ((continues physical = true ∧
          advance number pending physical = ([], some (line.append (part physical)))) ∨
        (continues physical = false ∧
          advance number pending physical = ([line.append (part physical)], none))) := by
  cases pending with
  | some line =>
      refine Or.inr ⟨line, Or.inl rfl, ?_⟩
      rw [advance_some]
      cases h : continues physical <;> simp
  | none =>
      cases hskip : isSkipped (dropBlanks physical) with
      | true => exact Or.inl ⟨rfl, rfl, by simp [advance, hskip]⟩
      | false =>
          have hopens : advance number none physical =
              advance number (some ⟨number, []⟩) physical := by
            simp [advance, hskip]
          refine Or.inr ⟨⟨number, []⟩, Or.inr ⟨rfl, rfl, rfl⟩, ?_⟩
          rw [hopens, advance_some]
          cases h : continues physical <;> simp

theorem isSome_advance (number : Nat) (pending : Option LogicalLine) (physical : List Char) :
    (advance number pending physical).2.isSome = staysOpen pending.isSome physical := by
  rcases advance_cases number pending physical with
    ⟨rfl, hskip, heq⟩ | ⟨line, hline, ⟨hgoes, heq⟩ | ⟨hgoes, heq⟩⟩
  · rw [heq, Option.isSome_none, staysOpen_of_isSkipped hskip]
  · rw [heq, Option.isSome_some, staysOpen, hgoes]
    rcases hline with rfl | ⟨rfl, hskip, -⟩
    · rfl
    · rw [isComment_of_not_isSkipped hskip]
      rfl
  · rw [heq, Option.isSome_none, staysOpen, hgoes, Bool.false_and]

/-! ### Texts one after the other -/

/-- What some physical lines do: the entries that they close, and the one that they
leave open. -/
def advanceAll (number : Nat) (pending : Option LogicalLine) :
    List (List Char) → List LogicalLine × Option LogicalLine
  | [] => ([], pending)
  | physical :: rest =>
      let next := advance number pending physical
      let last := advanceAll (number + 1) next.2 rest
      (next.1 ++ last.1, last.2)

theorem isSome_advanceAll (number : Nat) (pending : Option LogicalLine)
    (physical : List (List Char)) :
    (advanceAll number pending physical).2.isSome =
      physical.foldl staysOpen pending.isSome := by
  induction physical generalizing number pending with
  | nil => rfl
  | cons line physical ih =>
      rw [List.foldl_cons, ← isSome_advance number]
      exact ih (number + 1) (advance number pending line).2

/-- A text can be read in two parts. All that the second needs to know of the first is
the entry that is open between them. -/
theorem collect_advanceAll (number : Nat) (pending : Option LogicalLine)
    (physical more : List (List Char)) :
    collect number pending (physical ++ more) =
      (advanceAll number pending physical).1 ++
        collect (number + physical.length) (advanceAll number pending physical).2 more := by
  induction physical generalizing number pending with
  | nil => rfl
  | cons line physical ih =>
      rw [List.cons_append, collect_cons, ih, ← List.append_assoc, List.length_cons,
        Nat.add_assoc, Nat.add_comm 1]
      rfl

/-- Where no entry is open, reading starts anew; only the number of the line counts
on. -/
theorem collect_append {pending : Option LogicalLine} {physical : List (List Char)}
    (h : physical.foldl staysOpen pending.isSome = false) (number : Nat)
    (more : List (List Char)) :
    collect number pending (physical ++ more) =
      collect number pending physical ++ collect (number + physical.length) none more := by
  have hnone : (advanceAll number pending physical).2 = none := by
    rw [← Option.isNone_iff_eq_none, ← Option.isSome_eq_false_iff, isSome_advanceAll, h]
  have hfirst := collect_advanceAll number pending physical []
  rw [List.append_nil, hnone, collect_nil, Option.toList_none, List.append_nil] at hfirst
  rw [collect_advanceAll, hnone, hfirst]

/-- A line opens no entry with a number beyond its own. -/
theorem number_le_of_advance {number : Nat} {pending : Option LogicalLine}
    (h : ∀ l ∈ pending, l.number ≤ number) (physical : List Char) :
    (∀ l ∈ (advance number pending physical).1, l.number ≤ number) ∧
      ∀ l ∈ (advance number pending physical).2, l.number ≤ number := by
  rcases advance_cases number pending physical with ⟨-, -, heq⟩ | ⟨line, hline, hgoes⟩
  · rw [heq]
    exact ⟨by simp, by simp⟩
  · have hle : line.number ≤ number := by
      rcases hline with rfl | ⟨-, -, rfl⟩
      · exact h line rfl
      · exact Nat.le_refl _
    rcases hgoes with ⟨-, heq⟩ | ⟨-, heq⟩
    · rw [heq]
      exact ⟨by simp, by simpa [append] using hle⟩
    · rw [heq]
      exact ⟨by simpa [append] using hle, by simp⟩

theorem number_lt_of_advanceAll {number : Nat} {pending : Option LogicalLine}
    (h : ∀ l ∈ pending, l.number < number) (physical : List (List Char)) :
    (∀ l ∈ (advanceAll number pending physical).1, l.number < number + physical.length) ∧
      ∀ l ∈ (advanceAll number pending physical).2, l.number < number + physical.length := by
  induction physical generalizing number pending with
  | nil => exact ⟨by simp [advanceAll], h⟩
  | cons line physical ih =>
      obtain ⟨hclosed, hopen⟩ := number_le_of_advance (fun l hl => Nat.le_of_lt (h l hl)) line
      obtain ⟨hlater, hlast⟩ := @ih (number + 1) (advance number pending line).2
        fun l hl => Nat.lt_succ_of_le (hopen l hl)
      rw [Nat.add_right_comm] at hlater hlast
      refine ⟨fun l hl => ?_, hlast⟩
      rcases List.mem_append.mp hl with hl | hl
      · exact Nat.lt_of_le_of_lt (hclosed l hl) (by simp)
      · exact hlater l hl

/-! ### Where a logical line stands -/

/-- The logical line is made of the physical lines `block`. It has the number of the
first of them, which is neither empty nor a comment and continues no entry; each of
them but the last goes on, and so does the last only at the end of the text. -/
structure IsMadeOf (l : LogicalLine) (earlier block later : List (List Char)) : Prop where
  closed_before : leavesOpen earlier = false
  ne_nil : block ≠ []
  not_skipped : ∀ first ∈ block.head?, isSkipped (dropBlanks first) = false
  continued : ∀ line ∈ block.dropLast, continues line = true
  closed_after : later = [] ∨ ∀ last ∈ block.getLast?, continues last = false
  number : l.number = earlier.length + 1
  text : l.text = block.flatMap part

/-- A logical line stands in a list of physical lines. -/
def StandsIn (l : LogicalLine) (physical : List (List Char)) : Prop :=
  ∃ earlier block later, physical = earlier ++ block ++ later ∧ IsMadeOf l earlier block later

/-- After the physical lines `before`, the entry `pending` is open: it is made of the
last of them, and all of these go on. -/
def IsPending (before : List (List Char)) : Option LogicalLine → Prop
  | none => leavesOpen before = false
  | some l => ∃ earlier block, before = earlier ++ block ∧ IsMadeOf l earlier block [] ∧
      ∀ line ∈ block, continues line = true

/-- A logical line whose physical lines all go on takes the next one. -/
theorem IsMadeOf.append {l : LogicalLine} {earlier block later : List (List Char)}
    {physical : List Char} (h : IsMadeOf l earlier block [])
    (hgo : ∀ line ∈ block, continues line = true)
    (hafter : later = [] ∨ continues physical = false) :
    IsMadeOf (l.append (part physical)) earlier (block ++ [physical]) later where
  closed_before := h.closed_before
  ne_nil := by simp
  not_skipped := by
    intro first hfirst
    obtain ⟨head, more, hblock⟩ := List.exists_cons_of_ne_nil h.ne_nil
    exact h.not_skipped first (by simpa [hblock] using hfirst)
  continued := by simpa using hgo
  closed_after := by simpa using hafter
  number := h.number
  text := by simp [LogicalLine.append, h.text]

/-- The entry that a physical line belongs to is made of that line and of those that
were read for it before. -/
theorem exists_isMadeOf {before : List (List Char)} {pending : Option LogicalLine}
    (h : IsPending before pending) {physical : List Char} {line : LogicalLine}
    (hline : pending = some line ∨
      (pending = none ∧ isSkipped (dropBlanks physical) = false ∧
        line = ⟨before.length + 1, []⟩)) :
    ∃ earlier block, before = earlier ++ block ∧ (∀ l ∈ block, continues l = true) ∧
      ∀ later, (later = [] ∨ continues physical = false) →
        IsMadeOf (line.append (part physical)) earlier (block ++ [physical]) later := by
  rcases hline with rfl | ⟨rfl, hskip, rfl⟩
  · obtain ⟨earlier, block, hbefore, hmade, hgo⟩ := h
    exact ⟨earlier, block, hbefore, hgo, fun later hafter => hmade.append hgo hafter⟩
  · refine ⟨before, [], by simp, by simp, fun later hafter => ?_⟩
    exact {
      closed_before := h
      ne_nil := by simp
      not_skipped := by simpa using hskip
      continued := by simp
      closed_after := by simpa using hafter
      number := rfl
      text := by simp [append] }

/-- One physical line keeps track of the open entry, and an entry that it closes
stands where it was read. -/
theorem isPending_advance {before : List (List Char)} {pending : Option LogicalLine}
    (h : IsPending before pending) (physical : List Char) :
    IsPending (before ++ [physical]) (advance (before.length + 1) pending physical).2 ∧
      ∀ l ∈ (advance (before.length + 1) pending physical).1, ∀ later,
        StandsIn l (before ++ physical :: later) := by
  rcases advance_cases (before.length + 1) pending physical with
    ⟨rfl, hskip, heq⟩ | ⟨line, hline, hgoes⟩
  · rw [heq]
    refine ⟨?_, by simp⟩
    have hclosed : leavesOpen before = false := h
    rw [IsPending, leavesOpen_concat, hclosed, staysOpen_of_isSkipped hskip]
  · obtain ⟨earlier, block, rfl, hgo, hmade⟩ := exists_isMadeOf h hline
    rcases hgoes with ⟨hgoes, heq⟩ | ⟨hgoes, heq⟩
    · rw [heq]
      refine ⟨⟨earlier, block ++ [physical], by simp, hmade [] (Or.inl rfl), ?_⟩, by simp⟩
      intro l hl
      rcases List.mem_append.mp hl with hl | hl
      · exact hgo l hl
      · rw [List.mem_singleton.mp hl, hgoes]
    · rw [heq]
      refine ⟨?_, fun l hl later => ?_⟩
      · rw [IsPending, leavesOpen_concat, staysOpen, hgoes, Bool.false_and]
      · rw [List.mem_singleton.mp hl]
        exact ⟨earlier, block ++ [physical], later, by simp, hmade later (Or.inr hgoes)⟩

theorem standsIn_of_mem_collect {before rest : List (List Char)} {pending : Option LogicalLine}
    (h : IsPending before pending) {l : LogicalLine}
    (hl : l ∈ collect (before.length + 1) pending rest) : StandsIn l (before ++ rest) := by
  -- Lines move from `rest` to `before`; what is open between the two is always pending.
  induction rest generalizing before pending with
  | nil =>
      obtain rfl : pending = some l := by simpa using hl
      obtain ⟨earlier, block, rfl, hmade, -⟩ := h
      exact ⟨earlier, block, [], rfl, hmade⟩
  | cons physical rest ih =>
      obtain ⟨hnext, hclosed⟩ := isPending_advance h physical
      rw [collect_cons, List.mem_append] at hl
      rcases hl with hl | hl
      · exact hclosed l hl rest
      · have hstands := ih hnext (by simpa using hl)
        simpa using hstands

/-- An open entry takes the physical lines that go on, and the one after them. -/
theorem exists_collect_block {block later : List (List Char)} (hne : block ≠ [])
    (hgo : ∀ line ∈ block.dropLast, continues line = true)
    (hafter : later = [] ∨ ∀ last ∈ block.getLast?, continues last = false)
    (number : Nat) (l : LogicalLine) :
    ∃ rest, collect number (some l) (block ++ later) = l.append (block.flatMap part) :: rest := by
  induction block generalizing number l with
  | nil => exact absurd rfl hne
  | cons line block ih =>
      rw [List.cons_append, collect_cons, advance_some]
      cases block with
      | nil =>
          cases hline : continues line with
          | false => exact ⟨collect (number + 1) none later, by simp [append]⟩
          -- The last line of a block goes on only where the text ends.
          | true =>
              rcases hafter with rfl | hlast
              · exact ⟨[], by simp [append]⟩
              · simp [hlast line rfl] at hline
      | cons next block =>
          obtain ⟨hline, hgo⟩ := List.forall_mem_cons.mp hgo
          obtain ⟨rest, hrest⟩ := ih (List.cons_ne_nil next block) hgo
            (by simpa using hafter) (number + 1) (l.append (part line))
          refine ⟨rest, ?_⟩
          rw [if_pos hline, List.nil_append, hrest]
          simp [append]

theorem mem_collect_of_standsIn {physical : List (List Char)} {l : LogicalLine}
    (h : StandsIn l physical) : l ∈ collect 1 none physical := by
  obtain ⟨earlier, block, later, rfl, hmade⟩ := h
  obtain ⟨first, more, hblock⟩ := List.exists_cons_of_ne_nil hmade.ne_nil
  have hskip : isSkipped (dropBlanks first) = false := hmade.not_skipped first (by simp [hblock])
  obtain ⟨rest, hrest⟩ := exists_collect_block hmade.ne_nil hmade.continued hmade.closed_after
    (1 + earlier.length) ⟨1 + earlier.length, []⟩
  have hopened : collect (1 + earlier.length) none (block ++ later) =
      collect (1 + earlier.length) (some ⟨1 + earlier.length, []⟩) (block ++ later) := by
    rw [hblock, List.cons_append]
    exact collect_opened hskip _ _
  have hl : l = append ⟨1 + earlier.length, []⟩ (block.flatMap part) := by
    cases l
    simp only [append, List.nil_append, LogicalLine.mk.injEq]
    exact ⟨hmade.number.trans (Nat.add_comm _ _), hmade.text⟩
  rw [List.append_assoc, @collect_append none _ hmade.closed_before, hopened, hrest, hl]
  exact List.mem_append_right _ List.mem_cons_self

/-- The logical lines of a text are those that stand in its physical lines. -/
theorem mem_ofText_iff {cs : List Char} {l : LogicalLine} :
    l ∈ ofText cs ↔ l.StandsIn (lines cs) := by
  have hnone : IsPending [] none := leavesOpen_nil
  exact ⟨standsIn_of_mem_collect hnone, mem_collect_of_standsIn⟩

/-! ### The order of logical lines -/

/-- The number of the entry that the next physical line belongs to, if it is not
skipped. -/
def startOf (number : Nat) : Option LogicalLine → Nat
  | none => number
  | some l => l.number

/-- The open entry comes first, if there is one, and the numbers grow. -/
theorem pairwise_collect {number : Nat} {pending : Option LogicalLine}
    (h : startOf number pending ≤ number) (physical : List (List Char)) :
    (collect number pending physical).Pairwise (fun k l => k.number < l.number) ∧
      ∀ l ∈ collect number pending physical, startOf number pending ≤ l.number := by
  -- The bound from below is what puts an entry that is closed in front of all later ones.
  induction physical generalizing number pending with
  | nil =>
      cases pending with
      | none => simp
      | some l => simp [startOf]
  | cons line physical ih =>
      rw [collect_cons]
      rcases advance_cases number pending line with
        ⟨rfl, -, heq⟩ | ⟨entry, hentry, hgoes⟩
      · obtain ⟨hpairs, hlater⟩ := @ih (number + 1) none (Nat.le_refl _)
        rw [heq]
        exact ⟨hpairs, fun l hl => Nat.le_of_succ_le (hlater l hl)⟩
      · have hstart : entry.number = startOf number pending := by
          rcases hentry with rfl | ⟨rfl, -, rfl⟩ <;> rfl
        have hle : entry.number ≤ number := hstart ▸ h
        rcases hgoes with ⟨-, heq⟩ | ⟨-, heq⟩
        · have hnext := @ih (number + 1) (some (entry.append (part line))) (Nat.le_succ_of_le hle)
          rw [heq, ← hstart]
          exact hnext
        · obtain ⟨hpairs, hlater⟩ := @ih (number + 1) none (Nat.le_refl _)
          rw [heq, ← hstart]
          refine ⟨List.pairwise_cons.mpr ⟨fun l hl => ?_, hpairs⟩, fun l hl => ?_⟩
          · exact Nat.lt_of_le_of_lt hle (hlater l hl)
          · rcases List.mem_cons.mp hl with rfl | hl
            · exact Nat.le_refl _
            · exact Nat.le_trans hle (Nat.le_of_succ_le (hlater l hl))

theorem pairwise_ofText (cs : List Char) :
    (ofText cs).Pairwise fun k l => k.number < l.number :=
  (@pairwise_collect 1 none (Nat.le_refl _) (lines cs)).1

end PropertyFile.LogicalLine
