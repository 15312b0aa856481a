import Mathlib.Data.Finset.Card
import PropertyFile.Proofs.Dictionary.Merge

/-!
# Histories of a dictionary

**A dictionary is told by the changes that it has seen**: `history_tells`. Its keys are all
that were ever named, each where it was first named, and the value of a key is that of the
last pair that counted. A pair that is put counts always, a default only where its key has
not been named before.

So the pairs that count can be listed without a dictionary (`counted`), and each change puts
the pairs of it that count (`change_snd`). A whole history then puts one list of pairs
(`changes_snd`), and what that leaves is known from merging.
-/

namespace PropertyFile.Dictionary

/-- A change to a dictionary. -/
inductive Change
  /-- Puts a value under a key. -/
  | insert (key value : String)
  /-- Puts a value under a key that has none yet. -/
  | insertDefault (key value : String)
  /-- Puts every pair of a list. -/
  | extend (pairs : List (String × String))
deriving DecidableEq, Repr

/-- What a change gives back. -/
inductive Reply
  | nothing
  /-- The value that stood under the key, if there was one. -/
  | replaced (old : Option String)
deriving DecidableEq, Repr

/-- Makes a change. -/
def change (d : Dictionary) : Change → Reply × Dictionary
  | .insert key value =>
      let (old, d) := d.getThenInsert key value
      (.replaced old, d)
  | .insertDefault key value => (.nothing, d.insertDefault key value)
  | .extend pairs => (.nothing, d.insertMany pairs)

/-- Makes changes one after the other. -/
def changes (d : Dictionary) : List Change → List Reply × Dictionary
  | [] => ([], d)
  | c :: history =>
      let (reply, d) := d.change c
      let (replies, d) := d.changes history
      (reply :: replies, d)

/-! ### What a history says -/

namespace Change

/-- The keys that a change names. -/
def names : Change → List String
  | .insert key _ => [key]
  | .insertDefault key _ => [key]
  | .extend pairs => pairs.map Prod.fst

/-- The pairs of a change that count, where the keys `present` have been named before. -/
def pairs (present : List String) : Change → List (String × String)
  | .insert key value => [(key, value)]
  | .insertDefault key value => if key ∈ present then [] else [(key, value)]
  | .extend pairs => pairs

end Change

/-- The pairs of a history that count, where the keys `present` have been named before. -/
def counted (present : List String) : List Change → List (String × String)
  | [] => []
  | c :: history => c.pairs present ++ counted (present ++ c.names) history

/-- All keys that are named by pairs, to begin with, and by a history. -/
def allNames (start : List (String × String)) (history : List Change) : List String :=
  start.map Prod.fst ++ history.flatMap Change.names

/-- The value that a key was given last. -/
def lastGiven? (start : List (String × String)) (history : List Change) (key : String) :
    Option String :=
  (start ++ counted (start.map Prod.fst) history).reverse.lookup key

/-! ### One change -/

variable {d : Dictionary}

theorem keys_change (d : Dictionary) (c : Change) :
    (d.change c).2.keys = (d.keys ++ c.names).eraseDups := by
  cases c with
  | insert key value =>
      rw [Change.names, eraseDups_keys_concat]
      exact keys_insert d key value
  | insertDefault key value =>
      rw [Change.names, eraseDups_keys_concat]
      exact keys_insertDefault d key value
  | extend pairs => exact keys_insertMany d pairs

/-- A change puts those of its pairs that count. -/
theorem change_snd {present : List String} (h : ∀ key, key ∈ present ↔ key ∈ d.keys)
    (c : Change) : (d.change c).2 = d.insertMany (c.pairs present) := by
  cases c with
  | insert key value => rfl
  | insertDefault key value =>
      show d.insertDefault key value = _
      rw [insertDefault, Change.pairs]
      by_cases hkey : key ∈ present
      · rw [if_pos (contains_iff.mpr ((h key).mp hkey)), if_pos hkey, insertMany_nil]
      · rw [if_neg fun hcontains => hkey ((h key).mpr (contains_iff.mp hcontains)), if_neg hkey]
        rfl
  | extend pairs => rfl

/-! ### Many changes -/

theorem keys_changes (d : Dictionary) (history : List Change) :
    (d.changes history).2.keys = (d.keys ++ history.flatMap Change.names).eraseDups := by
  induction history generalizing d with
  | nil => simp [changes]
  | cons c history ih =>
      show ((d.change c).2.changes history).2.keys = _
      rw [ih, eraseDups_keys_append (keys_change d c), List.append_assoc, List.flatMap_cons]

/-- A history puts the pairs that count, one after the other. -/
theorem changes_snd {present : List String} (h : ∀ key, key ∈ present ↔ key ∈ d.keys)
    (history : List Change) : (d.changes history).2 = d.insertMany (counted present history) := by
  induction history generalizing d present with
  | nil => rfl
  | cons c history ih =>
      have hpresent : ∀ key, key ∈ present ++ c.names ↔ key ∈ (d.change c).2.keys := by
        intro key
        rw [keys_change, List.mem_eraseDups, List.mem_append, List.mem_append, h]
      show ((d.change c).2.changes history).2 = _
      rw [ih hpresent, change_snd h, counted, insertMany_append]

/-- What a history leaves is what its pairs that count leave in an empty dictionary. -/
theorem changes_ofList (start : List (String × String)) (history : List Change) :
    ((ofList start).changes history).2 =
      ofList (start ++ counted (start.map Prod.fst) history) := by
  have hpresent : ∀ key, key ∈ start.map Prod.fst ↔ key ∈ (ofList start).keys := by
    intro key
    rw [ofList, keys_insertMany, keys_empty, List.nil_append, List.mem_eraseDups]
  rw [changes_snd hpresent, ofList, ofList, insertMany_append]

/-- The replies to the first part of a history do not depend on the rest. -/
theorem changes_append (d : Dictionary) (before after : List Change) :
    (d.changes (before ++ after)).1 =
      (d.changes before).1 ++ ((d.changes before).2.changes after).1 := by
  induction before generalizing d with
  | nil => rfl
  | cons c before ih =>
      show (d.change c).1 :: ((d.change c).2.changes (before ++ after)).1 = _
      rw [ih]
      rfl

/-- Each change has one reply. -/
theorem length_changes (d : Dictionary) (history : List Change) :
    (d.changes history).1.length = history.length := by
  induction history generalizing d with
  | nil => rfl
  | cons c history ih => exact congrArg (· + 1) (ih (d.change c).2)

/-- Putting a value gives back what could be read just before. -/
theorem reply_insert (d : Dictionary) {history : List Change} {i : Nat} {key value : String}
    (h : history[i]? = some (.insert key value)) :
    (d.changes history).1[i]? =
      some (.replaced ((d.changes (history.take i)).2.get? key)) := by
  obtain ⟨hi, hget⟩ := List.getElem?_eq_some_iff.mp h
  have hlength : (d.changes (history.take i)).1.length = i := by
    rw [length_changes, List.length_take, Nat.min_eq_left (Nat.le_of_lt hi)]
  have hreply : ((d.changes (history.take i)).2.change (.insert key value)).1 =
      .replaced ((d.changes (history.take i)).2.get? key) :=
    congrArg Reply.replaced (getThenInsert_fst _ key value)
  have hsplit := changes_append d (history.take i) (history.drop i)
  rw [List.take_append_drop] at hsplit
  rw [hsplit, List.getElem?_append_right (Nat.le_of_eq hlength), hlength, Nat.sub_self,
    List.drop_eq_getElem_cons hi, hget, ← hreply]
  rfl

/-! ### What a history leaves -/

theorem get?_ofList (pairs : List (String × String)) (key : String) :
    (ofList pairs).get? key = pairs.reverse.lookup key := by
  rw [ofList, get?_insertMany, get?_empty, Option.or_none]

/-- All that a dictionary shows, told by the pairs it began with and its history. -/
structure IsLeftBy (start : List (String × String)) (history : List Change) (d : Dictionary) :
    Prop where
  /-- No key stands twice. -/
  nodup : d.keys.Nodup
  /-- The keys stand in the order in which they were first named. -/
  keys : d.keys = (allNames start history).eraseDups
  /-- A key has the value that it was given last. -/
  value : ∀ key, d.get? key = lastGiven? start history key
  contains : ∀ key, d.contains key = true ↔ key ∈ allNames start history
  /-- The size is the number of different keys. -/
  size : d.size = (allNames start history).toFinset.card
  isEmpty : d.isEmpty = true ↔ allNames start history = []
  /-- The entries are the keys, in order, with their values. -/
  entries : d.entries.map Prod.fst = d.keys ∧
    ∀ key value, (key, value) ∈ d.entries ↔ lastGiven? start history key = some value

theorem isLeftBy (start : List (String × String)) (history : List Change) :
    IsLeftBy start history ((ofList start).changes history).2 := by
  generalize hleft : ((ofList start).changes history).2 = d
  have hkeys : d.keys = (allNames start history).eraseDups := by
    rw [← hleft, keys_changes, ofList, eraseDups_keys_append (keys_insertMany ∅ start)]
    rfl
  have hvalue : ∀ key, d.get? key = lastGiven? start history key := by
    intro key
    rw [← hleft, changes_ofList, get?_ofList, lastGiven?]
  have hmem : ∀ key, key ∈ d.keys ↔ key ∈ allNames start history := by
    intro key
    rw [hkeys, List.mem_eraseDups]
  refine ⟨d.nodup_keys, hkeys, hvalue, fun key => contains_iff.trans (hmem key), ?_, ?_, rfl, ?_⟩
  · have hnames : d.keys.toFinset = (allNames start history).toFinset := by
      ext key
      rw [List.mem_toFinset, List.mem_toFinset, hmem]
    have hcard : d.keys.toFinset.card = d.keys.length := List.toFinset_card_of_nodup d.nodup_keys
    rw [← hnames, hcard, length_keys]
  · rw [isEmpty, List.isEmpty_iff, ← List.map_eq_nil_iff (f := Prod.fst)]
    show d.keys = [] ↔ _
    simp only [List.eq_nil_iff_forall_not_mem, hmem]
  · intro key value
    rw [mem_entries_iff, hvalue]

/-- **A history tells all of a dictionary.** Whatever pairs it is made of at first, if any,
and whatever changes it sees, its keys stand in the order in which they were first named and
have the values that they were given last; and each time that a value is put, what comes back
is what could be read just before. -/
theorem history_tells (start : List (String × String)) (history : List Change) :
    ofList [] = ∅ ∧
    IsLeftBy start history ((ofList start).changes history).2 ∧
    ∀ (i : Nat) (key value : String), history[i]? = some (.insert key value) →
      ((ofList start).changes history).1[i]? =
        some (.replaced (((ofList start).changes (history.take i)).2.get? key)) :=
  ⟨rfl, isLeftBy start history, fun _ _ _ => reply_insert (ofList start)⟩

/-- A key that comes twice among the pairs at first, a default for a key that is there and for
one that is not, and a value that replaces a default. -/
theorem history_tells_of_defaults :
    let start := [("a", "1"), ("b", "2"), ("a", "0")]
    let history : List Change :=
      [.insertDefault "b" "x", .insertDefault "c" "", .extend [("d", "4"), ("a", "5")],
        .insert "c" "3"]
    let left := ((ofList start).changes history).2
    left.entries = [("a", "5"), ("b", "2"), ("c", "3"), ("d", "4")] ∧
      left.keys = (allNames start history).eraseDups ∧
      left.get? "b" = lastGiven? start history "b" ∧
      history[3]? = some (.insert "c" "3") ∧
      ((ofList start).changes history).1[3]? = some (.replaced (some "")) := by
  intro start history left
  have hput : history[3]? = some (.insert "c" "3") := rfl
  obtain ⟨-, hleft, hreply⟩ := history_tells start history
  exact ⟨by decide, hleft.keys, hleft.value "b", hput, (hreply 3 "c" "3" hput).trans (by decide)⟩

end PropertyFile.Dictionary
