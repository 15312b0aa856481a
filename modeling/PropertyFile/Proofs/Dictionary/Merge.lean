import PropertyFile.Dictionary

/-!
# Putting many entries

**What a dictionary holds after a list of pairs has been put into it.** Its keys
are all keys there were, each where it first came (`keys_insertMany`); the value
of a key is that of the last pair with it, or else the old one
(`get?_insertMany`).

Keys and values together make up a dictionary (`ext_get?`), and so one merge can
be compared with another: `insertMany_entries_ofList` says that a list of pairs
may be put into a dictionary of its own first.
-/

namespace PropertyFile.Dictionary

/-! ### Keys and values make up a dictionary -/

theorem entries_eq_map (d : Dictionary) :
    d.entries = d.keys.map fun key => (key, (d.get? key).getD "") := by
  rw [keys, List.map_map]
  refine (List.map_id _).symm.trans (List.map_congr_left fun entry hentry => ?_)
  have hvalue : d.get? entry.1 = some entry.2 := get?_of_mem hentry
  simp [hvalue]

/-- Two dictionaries with the same keys, in the same order, and the same values
are equal. -/
theorem ext_get? {d e : Dictionary} (hkeys : d.keys = e.keys)
    (hvalues : ∀ key, d.get? key = e.get? key) : d = e := by
  apply ext_entries
  rw [entries_eq_map d, entries_eq_map e, hkeys]
  simp only [hvalues]

/-- The values do not depend on the order of the entries. -/
theorem get?_eq_of_perm {d e : Dictionary} (h : d.entries.Perm e.entries) (key : String) :
    d.get? key = e.get? key := by
  apply Option.ext
  intro value
  rw [← mem_entries_iff, ← mem_entries_iff, h.mem_iff]

/-! ### Lists without repetition -/

private theorem eraseDups_of_nodup {as : List String} (h : as.Nodup) : as.eraseDups = as := by
  induction as with
  | nil => rfl
  | cons a as ih =>
      rw [List.nodup_cons] at h
      have hothers : (as.filter fun b => !b == a) = as := by
        rw [List.filter_eq_self]
        intro b hb
        simpa using fun heq : b = a => h.1 (heq ▸ hb)
      rw [List.eraseDups_cons, hothers, ih h.2]

/-- What came before does not come again. -/
private theorem eraseDups_append_cons_of_mem {as : List String} {b : String} (h : b ∈ as)
    (bs : List String) : (as ++ b :: bs).eraseDups = (as ++ bs).eraseDups := by
  simp [List.eraseDups_append, List.removeAll, h]

private theorem eraseDups_append_of_not_mem {as : List String} {b : String} (h : b ∉ as) :
    (as ++ [b]).eraseDups = as.eraseDups ++ [b] := by
  simp [List.eraseDups_append, List.removeAll, List.eraseDups_cons, h]

/-! ### Putting many entries -/

@[simp] theorem eraseDups_keys (d : Dictionary) : d.keys.eraseDups = d.keys :=
  eraseDups_of_nodup d.nodup_keys

theorem eraseDups_keys_concat (d : Dictionary) (key : String) :
    (d.keys ++ [key]).eraseDups = if key ∈ d.keys then d.keys else d.keys ++ [key] := by
  split
  · next hmem => rw [eraseDups_append_cons_of_mem hmem, List.append_nil, eraseDups_keys]
  · next hnew => rw [eraseDups_append_of_not_mem hnew, eraseDups_keys]

/-- The keys are those that were there and those put in, each where it first came. -/
theorem keys_insertMany (d : Dictionary) (pairs : List (String × String)) :
    (d.insertMany pairs).keys = (d.keys ++ pairs.map Prod.fst).eraseDups := by
  induction pairs generalizing d with
  | nil => simp
  | cons pair pairs ih =>
      rw [insertMany_cons, ih, keys_insert, List.map_cons]
      split
      · next hmem => rw [eraseDups_append_cons_of_mem hmem]
      · rw [List.append_assoc, List.singleton_append]

/-- Names that come after the keys may as well come after the names that the keys come from. -/
theorem eraseDups_keys_append {d : Dictionary} {names : List String}
    (h : d.keys = names.eraseDups) (more : List String) :
    (d.keys ++ more).eraseDups = (names ++ more).eraseDups := by
  have hremove : more.removeAll d.keys = more.removeAll names := by
    simp only [List.removeAll, h, List.elem_eq_mem, List.mem_eraseDups]
  rw [List.eraseDups_append, eraseDups_keys, hremove, h, ← List.eraseDups_append]

/-- Names that come after the keys may as well come after all that was put in. -/
theorem eraseDups_keys_insertMany_append (d : Dictionary) (pairs : List (String × String))
    (names : List String) :
    ((d.insertMany pairs).keys ++ names).eraseDups =
      (d.keys ++ pairs.map Prod.fst ++ names).eraseDups :=
  eraseDups_keys_append (keys_insertMany d pairs) names

/-- The last pair with a key gives its value. -/
theorem get?_insertMany (d : Dictionary) (pairs : List (String × String)) (key : String) :
    (d.insertMany pairs).get? key = (pairs.reverse.lookup key).or (d.get? key) := by
  induction pairs generalizing d with
  | nil => rfl
  | cons pair pairs ih =>
      obtain ⟨other, value⟩ := pair
      rw [insertMany_cons, ih, get?_insert, List.reverse_cons, List.lookup_append,
        List.lookup_singleton, Option.or_assoc]
      by_cases h : key = other <;> simp [h]

/-- Pairs whose values are all there already change nothing. -/
theorem insertMany_eq_self {d : Dictionary} {pairs : List (String × String)}
    (h : ∀ key value, pairs.reverse.lookup key = some value → d.get? key = some value) :
    d.insertMany pairs = d := by
  have hvalues : ∀ key, (d.insertMany pairs).get? key = d.get? key := by
    intro key
    rw [get?_insertMany]
    cases hlookup : pairs.reverse.lookup key with
    | none => rfl
    | some value => exact (h key value hlookup).symm
  refine ext_get? ?_ hvalues
  -- With the values, all the keys are there already.
  have hmem : ∀ key ∈ pairs.map Prod.fst, key ∈ d.keys := by
    intro key hkey
    rw [← isSome_get?_iff, ← hvalues, isSome_get?_iff, keys_insertMany, List.mem_eraseDups]
    exact List.mem_append_right _ hkey
  have hnothing : (pairs.map Prod.fst).removeAll d.keys = [] := by
    simpa [List.removeAll, List.filter_eq_nil_iff] using hmem
  rw [keys_insertMany, List.eraseDups_append, hnothing, eraseDups_keys]
  simp

theorem keys_insertMany_entries (d e : Dictionary) :
    (d.insertMany e.entries).keys = (d.keys ++ e.keys).eraseDups :=
  keys_insertMany d e.entries

/-- Where a dictionary is put on top of another, its values win. -/
theorem get?_insertMany_entries (d e : Dictionary) (key : String) :
    (d.insertMany e.entries).get? key = (e.get? key).or (d.get? key) := by
  have halone := get?_insertMany ∅ e.entries key
  rw [← ofList, ofList_entries, get?_empty, Option.or_none] at halone
  rw [get?_insertMany, ← halone]

/-- One more entry on top of `e` is one more entry on top of all. -/
theorem insertMany_entries_insert (d e : Dictionary) (key value : String) :
    d.insertMany (e.insert key value).entries = (d.insertMany e.entries).insert key value := by
  apply ext_get?
  -- The key keeps its place in `d` or in `e`, or it is new on both sides.
  · rw [keys_insertMany_entries, keys_insert, keys_insert, keys_insertMany_entries]
    by_cases he : key ∈ e.keys
    · simp [he]
    · by_cases hd : key ∈ d.keys
      · have hmem : key ∈ d.keys ++ e.keys := List.mem_append_left _ hd
        have hagain := eraseDups_append_cons_of_mem hmem []
        rw [if_neg he, if_pos (List.mem_eraseDups.mpr hmem), ← List.append_assoc, hagain,
          List.append_nil]
      · have hnew : key ∉ d.keys ++ e.keys := by simp [hd, he]
        rw [if_neg he, if_neg fun h => hnew (List.mem_eraseDups.mp h), ← List.append_assoc,
          eraseDups_append_of_not_mem hnew]
  · intro other
    rw [get?_insertMany_entries, get?_insert, get?_insert, get?_insertMany_entries]
    split <;> simp

theorem insertMany_entries_insertMany (d e : Dictionary) (pairs : List (String × String)) :
    d.insertMany (e.insertMany pairs).entries = (d.insertMany e.entries).insertMany pairs := by
  induction pairs generalizing e with
  | nil => rfl
  | cons pair pairs ih => rw [insertMany_cons, ih, insertMany_entries_insert, insertMany_cons]

/-- Pairs may be put into a dictionary of their own first: repeated keys end up in
the same place and with the same value. -/
theorem insertMany_entries_ofList (d : Dictionary) (pairs : List (String × String)) :
    d.insertMany (ofList pairs).entries = d.insertMany pairs :=
  insertMany_entries_insertMany d ∅ pairs

/-- Lists of pairs build up dictionaries that can be put on top of each other. -/
theorem ofList_append (pairs more : List (String × String)) :
    ofList (pairs ++ more) = (ofList pairs).insertMany (ofList more).entries := by
  rw [insertMany_entries_ofList]
  exact insertMany_append ∅ pairs more

/-- When each entry gets a new value, the keys stay as they are. -/
theorem keys_ofList_map (d : Dictionary) (f : String × String → String) :
    (ofList (d.entries.map fun entry => (entry.1, f entry))).keys = d.keys := by
  have hfst : (d.entries.map fun entry => (entry.1, f entry)).map Prod.fst = d.keys := by
    simp [keys]
  rw [ofList, keys_insertMany, hfst, keys_empty, List.nil_append, eraseDups_keys]

end PropertyFile.Dictionary
