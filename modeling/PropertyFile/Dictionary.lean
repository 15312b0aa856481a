/-!
# Dictionaries

**Texts by key, in the order in which the keys first came.** Writing a key that
is present replaces its value and leaves it where it stands; a new key goes to
the end. No key stands twice, which the type itself records.

The view of a dictionary is `get?` together with `keys`: each operation comes
with one lemma on either.
-/

namespace PropertyFile

/-- Texts by key, in the order in which the keys first came. -/
structure Dictionary where
  /-- The pairs of key and value, in order. -/
  entries : List (String × String)
  /-- No key stands twice. -/
  nodup_keys : (entries.map Prod.fst).Nodup
deriving DecidableEq

namespace Dictionary

/-! ### Reading -/

/-- The dictionary without entries. -/
def empty : Dictionary :=
  ⟨[], by simp⟩

instance : EmptyCollection Dictionary := ⟨empty⟩

instance : Inhabited Dictionary := ⟨empty⟩

/-- The value of a key. -/
def get? (d : Dictionary) (key : String) : Option String :=
  d.entries.lookup key

/-- The keys, in order. -/
def keys (d : Dictionary) : List String :=
  d.entries.map Prod.fst

/-- Does the key stand in the dictionary? -/
def contains (d : Dictionary) (key : String) : Bool :=
  (d.get? key).isSome

/-- The number of keys. -/
def size (d : Dictionary) : Nat :=
  d.entries.length

/-- Is there no entry? -/
def isEmpty (d : Dictionary) : Bool :=
  d.entries.isEmpty

/-- Do two dictionaries give every key the same value, in whatever order? -/
def sameEntries (d e : Dictionary) : Bool :=
  d.size == e.size && d.entries.all fun entry => e.get? entry.1 == some entry.2

theorem ext_entries {d e : Dictionary} (h : d.entries = e.entries) : d = e := by
  cases d
  cases e
  simpa using h

@[simp] theorem entries_empty : (∅ : Dictionary).entries = [] := rfl

@[simp] theorem keys_empty : (∅ : Dictionary).keys = [] := rfl

@[simp] theorem get?_empty (key : String) : (∅ : Dictionary).get? key = none := rfl

@[simp] theorem length_keys (d : Dictionary) : d.keys.length = d.size := by
  simp [keys, size]

private theorem lookup_cons_eq (entry : String × String) (rest : List (String × String))
    (key : String) :
    (entry :: rest).lookup key = if key = entry.1 then some entry.2 else rest.lookup key := by
  cases entry with
  | mk k v => by_cases h : key = k <;> simp [List.lookup_cons, h, beq_eq_false_iff_ne.mpr]

private theorem lookup_eq_none {entries : List (String × String)} {key : String} :
    entries.lookup key = none ↔ key ∉ entries.map Prod.fst := by
  induction entries with
  | nil => simp
  | cons entry rest ih =>
      rw [lookup_cons_eq]
      by_cases h : key = entry.1 <;> simp [h, ih]

/-- A key has a value exactly when it is among the keys. -/
theorem isSome_get?_iff {d : Dictionary} {key : String} :
    (d.get? key).isSome ↔ key ∈ d.keys := by
  rw [Option.isSome_iff_ne_none, get?, keys, ne_eq, lookup_eq_none, Decidable.not_not]

theorem contains_iff {d : Dictionary} {key : String} : d.contains key = true ↔ key ∈ d.keys :=
  isSome_get?_iff

theorem get?_eq_none_iff {d : Dictionary} {key : String} : d.get? key = none ↔ key ∉ d.keys :=
  lookup_eq_none

private theorem lookup_of_mem {entries : List (String × String)} {key value : String}
    (hnd : (entries.map Prod.fst).Nodup) (h : (key, value) ∈ entries) :
    entries.lookup key = some value := by
  induction entries with
  | nil => simp at h
  | cons entry rest ih =>
      rw [List.map_cons, List.nodup_cons] at hnd
      rw [lookup_cons_eq]
      rcases List.mem_cons.mp h with rfl | h
      · simp
      · have hne : key ≠ entry.1 := fun heq =>
          hnd.1 (List.mem_map.mpr ⟨(key, value), h, heq⟩)
        rw [if_neg hne, ih hnd.2 h]

/-- Each entry is found under its key. -/
theorem get?_of_mem {d : Dictionary} {key value : String} (h : (key, value) ∈ d.entries) :
    d.get? key = some value :=
  lookup_of_mem d.nodup_keys h

/-- The entries are the keys with their values. -/
theorem mem_entries_iff {d : Dictionary} {key value : String} :
    (key, value) ∈ d.entries ↔ d.get? key = some value := by
  constructor
  · exact get?_of_mem
  · intro h
    obtain ⟨before, after, heq, -⟩ := List.lookup_eq_some_iff.mp h
    rw [heq]
    exact List.mem_append_right before List.mem_cons_self

/-! ### Writing -/

/-- Puts a value under a key of a list of entries, in place or at the end, and
gives the value that stood there. -/
def put (key value : String) : List (String × String) → Option String × List (String × String)
  | [] => (none, [(key, value)])
  | entry :: rest =>
      if key = entry.1 then (some entry.2, (key, value) :: rest)
      else
        let (old, rest) := put key value rest
        (old, entry :: rest)

private theorem put_fst (key value : String) (entries : List (String × String)) :
    (put key value entries).1 = entries.lookup key := by
  induction entries with
  | nil => rfl
  | cons entry rest ih =>
      rw [put, lookup_cons_eq]
      by_cases h : key = entry.1 <;> simp [h, ih]

private theorem map_fst_put (key value : String) (entries : List (String × String)) :
    (put key value entries).2.map Prod.fst =
      if key ∈ entries.map Prod.fst then entries.map Prod.fst
      else entries.map Prod.fst ++ [key] := by
  induction entries with
  | nil => simp [put]
  | cons entry rest ih =>
      rw [put]
      by_cases h : key = entry.1
      · simp [h]
      · simp only [h, if_false, List.map_cons, ih, List.mem_cons, false_or]
        split <;> simp

private theorem lookup_put (key value other : String) (entries : List (String × String)) :
    (put key value entries).2.lookup other =
      if other = key then some value else entries.lookup other := by
  induction entries with
  | nil => simp [put]
  | cons entry rest ih =>
      rw [put]
      by_cases h : key = entry.1
      · simp only [h, if_true, lookup_cons_eq]
        by_cases ho : other = entry.1 <;> simp [ho]
      · simp only [h, if_false, lookup_cons_eq, ih]
        by_cases ho : other = entry.1
        · simp [ho, show entry.1 ≠ key from fun heq => h heq.symm]
        · simp [ho]

private theorem nodup_put (key value : String) {entries : List (String × String)}
    (hnd : (entries.map Prod.fst).Nodup) : ((put key value entries).2.map Prod.fst).Nodup := by
  rw [map_fst_put]
  split
  · exact hnd
  · next h =>
      rw [List.nodup_append]
      exact ⟨hnd, by simp, fun a ha b hb heq => h (by simp_all)⟩

/-- Puts a value under a key and gives the value that stood there. -/
def getThenInsert (d : Dictionary) (key value : String) : Option String × Dictionary :=
  ((put key value d.entries).1, ⟨(put key value d.entries).2, nodup_put key value d.nodup_keys⟩)

/-- Puts a value under a key. -/
def insert (d : Dictionary) (key value : String) : Dictionary :=
  (d.getThenInsert key value).2

/-- Puts a value under a key that has none yet. -/
def insertDefault (d : Dictionary) (key value : String) : Dictionary :=
  if d.contains key then d else d.insert key value

/-- Puts every pair of a list, one after the other. -/
def insertMany (d : Dictionary) (pairs : List (String × String)) : Dictionary :=
  pairs.foldl (fun d pair => d.insert pair.1 pair.2) d

/-- The dictionary that a list of pairs builds up; of two pairs with one key the
later gives the value and the earlier the place. -/
def ofList (pairs : List (String × String)) : Dictionary :=
  (∅ : Dictionary).insertMany pairs

/-- The value given back is the one that a look-up would have found. -/
@[simp] theorem getThenInsert_fst (d : Dictionary) (key value : String) :
    (d.getThenInsert key value).1 = d.get? key :=
  put_fst key value d.entries

@[simp] theorem getThenInsert_snd (d : Dictionary) (key value : String) :
    (d.getThenInsert key value).2 = d.insert key value := rfl

theorem get?_insert (d : Dictionary) (key value other : String) :
    (d.insert key value).get? other = if other = key then some value else d.get? other :=
  lookup_put key value other d.entries

theorem keys_insert (d : Dictionary) (key value : String) :
    (d.insert key value).keys = if key ∈ d.keys then d.keys else d.keys ++ [key] :=
  map_fst_put key value d.entries

theorem get?_insertDefault (d : Dictionary) (key value other : String) :
    (d.insertDefault key value).get? other =
      if other = key then some ((d.get? key).getD value) else d.get? other := by
  unfold insertDefault contains
  cases h : d.get? key with
  | none => simp [get?_insert]
  | some old =>
      by_cases ho : other = key
      · simp [ho, h]
      · simp [ho]

theorem keys_insertDefault (d : Dictionary) (key value : String) :
    (d.insertDefault key value).keys = if key ∈ d.keys then d.keys else d.keys ++ [key] := by
  unfold insertDefault
  by_cases h : key ∈ d.keys
  · simp [contains_iff.mpr h, h]
  · rw [if_neg fun hc => h (contains_iff.mp hc), keys_insert]

@[simp] theorem insertMany_nil (d : Dictionary) : d.insertMany [] = d := rfl

@[simp] theorem insertMany_cons (d : Dictionary) (pair : String × String)
    (pairs : List (String × String)) :
    d.insertMany (pair :: pairs) = (d.insert pair.1 pair.2).insertMany pairs := rfl

theorem insertMany_append (d : Dictionary) (pairs more : List (String × String)) :
    d.insertMany (pairs ++ more) = (d.insertMany pairs).insertMany more :=
  List.foldl_append ..

/-- A new key goes to the end. -/
theorem entries_insert_of_not_mem {d : Dictionary} {key : String} (h : key ∉ d.keys)
    (value : String) : (d.insert key value).entries = d.entries ++ [(key, value)] := by
  have put_of_not_mem : ∀ entries : List (String × String), key ∉ entries.map Prod.fst →
      (put key value entries).2 = entries ++ [(key, value)] := by
    intro entries
    induction entries with
    | nil => intro _; rfl
    | cons entry rest ih =>
        intro hnot
        simp only [List.map_cons, List.mem_cons, not_or] at hnot
        rw [put, if_neg hnot.1]
        simp [ih hnot.2]
  exact put_of_not_mem d.entries h

/-- Putting the entries of a dictionary into an empty one gives it back. -/
theorem ofList_entries (d : Dictionary) : ofList d.entries = d := by
  have grow : ∀ (pairs : List (String × String)) (e : Dictionary),
      ((e.entries ++ pairs).map Prod.fst).Nodup →
      (e.insertMany pairs).entries = e.entries ++ pairs := by
    intro pairs
    induction pairs with
    | nil => intro e _; simp
    | cons pair pairs ih =>
        intro e hnd
        have hnew : pair.1 ∉ e.keys := by
          simp only [List.map_append, List.map_cons, List.nodup_append, List.mem_cons] at hnd
          exact fun hmem => hnd.2.2 pair.1 hmem pair.1 (Or.inl rfl) rfl
        have hentries := entries_insert_of_not_mem hnew pair.2
        rw [insertMany_cons, ih (e.insert pair.1 pair.2)]
        · simp [hentries]
        · simpa [hentries] using hnd
  exact ext_entries (grow d.entries ∅ (by simpa using d.nodup_keys))

/-- When each entry gets a new value, each key has its new value. -/
theorem get?_ofList_map (d : Dictionary) (f : String → String → String) (key : String) :
    (ofList (d.entries.map fun entry => (entry.1, f entry.1 entry.2))).get? key =
      (d.get? key).map (f key) := by
  let e : Dictionary := ⟨d.entries.map fun entry => (entry.1, f entry.1 entry.2), by
    simpa [Function.comp_def] using d.nodup_keys⟩
  have hentries : ofList (d.entries.map fun entry => (entry.1, f entry.1 entry.2)) = e :=
    ofList_entries e
  rw [hentries]
  cases h : d.get? key with
  | none =>
      rw [get?_eq_none_iff] at h
      refine get?_eq_none_iff.mpr fun hmem => h ?_
      simpa [keys, e] using hmem
  | some value =>
      have hmem : (key, value) ∈ d.entries := mem_entries_iff.mpr h
      exact get?_of_mem (List.mem_map.mpr ⟨(key, value), hmem, rfl⟩)

end Dictionary

end PropertyFile
