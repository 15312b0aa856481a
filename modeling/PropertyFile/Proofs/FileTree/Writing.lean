import Mathlib.Data.List.DropRight
import PropertyFile.FileTree

/-!
# Reading what was written

**A file that has been written is read back under the same path**: `retains`. Writing
changes one node, and the path has to lead there both before and after. It does, because
the node that is changed was no directory: a walk only passes through directories, and
those are left as they are (`step_put`).

`write_eq_ok` says all that a successful write does, so that nothing else here
looks at how it is done.
-/

namespace PropertyFile.FileTree

variable {t : FileTree} {place : List String}

/-! ### Walking after a write -/

/-- Where no directory stood, a file takes none away. -/
theorem node?_put_of_directory (hplace : place ≠ []) (hfile : t.node? place ≠ some .directory)
    (content : ByteArray) {other : List String} (h : t.node? other = some .directory) :
    (t.put place (.file content)).node? other = some .directory := by
  have hother : other ≠ place := by
    rintro rfl
    exact hfile h
  rw [node?_put t hplace, if_neg hother]
  exact h

/-- What can be found is still found after a file has been put. -/
theorem isSome_node?_put (hplace : place ≠ []) (node : Node) {other : List String}
    (h : (t.node? other).isSome = true) : ((t.put place node).node? other).isSome = true := by
  rw [node?_put t hplace]
  split
  · rfl
  · exact h

/-- A step only leads on from a directory. -/
theorem node?_of_step {directory next : List String} {name : String}
    (h : t.step directory name = .ok next) : t.node? directory = some .directory := by
  unfold step at h
  cases hnode : t.node? directory with
  | none => simp [hnode] at h
  | some node =>
      cases node with
      | file content => simp [hnode] at h
      | directory => rfl

theorem step_of_directory {directory : List String} (h : t.node? directory = some .directory)
    (name : String) :
    t.step directory name =
      if name = "" ∨ name = "." then .ok directory
      else if name = ".." then .ok directory.dropLast
      else t.child directory name := by
  rw [step, h]

/-- A name leads on if it is short enough and something stands under it. -/
theorem child_eq_ok_iff {directory next : List String} {name : String} :
    t.child directory name = .ok next ↔
      ¬ maxName < name.utf8ByteSize ∧ (t.node? (directory ++ [name])).isSome = true ∧
        next = directory ++ [name] := by
  by_cases hlong : maxName < name.utf8ByteSize
  · simp [child, hlong]
  · cases hfound : t.node? (directory ++ [name]) with
    | none => simp [child, hlong, hfound]
    | some node => simpa [child, hlong, hfound] using eq_comm

/-- A step that was possible is possible after a write, and leads to the same place. -/
theorem step_put (hplace : place ≠ []) (hfile : t.node? place ≠ some .directory)
    (content : ByteArray) {directory next : List String} {name : String}
    (h : t.step directory name = .ok next) :
    (t.put place (.file content)).step directory name = .ok next := by
  have hdirectory := node?_of_step h
  rw [step_of_directory hdirectory] at h
  rw [step_of_directory (node?_put_of_directory hplace hfile content hdirectory)]
  by_cases hstays : name = "" ∨ name = "."
  · rwa [if_pos hstays] at h ⊢
  · rw [if_neg hstays] at h ⊢
    by_cases hup : name = ".."
    · rwa [if_pos hup] at h ⊢
    · rw [if_neg hup] at h ⊢
      obtain ⟨hshort, hfound, hnext⟩ := child_eq_ok_iff.mp h
      exact child_eq_ok_iff.mpr ⟨hshort, isSome_node?_put hplace _ hfound, hnext⟩

theorem walk_put (hplace : place ≠ []) (hfile : t.node? place ≠ some .directory)
    (content : ByteArray) {path directory next : List String}
    (h : path.foldlM t.step directory = .ok next) :
    path.foldlM (t.put place (.file content)).step directory = .ok next := by
  induction path generalizing directory with
  | nil => exact h
  | cons name path ih =>
      rw [List.foldlM_cons] at h ⊢
      cases hstep : t.step directory name with
      | error e => simp [hstep, bind, Except.bind] at h
      | ok further =>
          rw [hstep] at h
          rw [step_put hplace hfile content hstep]
          exact ih h

/-! ### What a write does -/

/-- Where no empty name is dropped from the end, the last name is not empty. -/
theorem eq_concat_of_not_dropped {path : List String} {name : String}
    (hlast : (path.rdropWhile (· == "")).getLast? = some name)
    (hlength : ¬ (path.rdropWhile (· == "")).length < path.length) :
    path = (path.rdropWhile (· == "")).dropLast ++ [name] ∧ name ≠ "" := by
  have hkept : path.rdropWhile (· == "") = path :=
    (List.rdropWhile_prefix _ path).eq_of_length_le (Nat.le_of_not_lt hlength)
  rw [hkept] at hlast ⊢
  obtain ⟨above, rfl⟩ := List.getLast?_eq_some_iff.mp hlast
  have hname := List.rdropWhile_eq_self_iff.mp hkept (by simp)
  exact ⟨by simp, by simpa using hname⟩

/-- A write that succeeds puts a file under the last name of the path, in the
directory that the other names lead to. -/
theorem write_eq_ok {t' : FileTree} {path : String} {content : ByteArray}
    (h : t.write path content = .ok t') :
    ∃ above name directory, checkPath path = .ok () ∧ split path = above ++ [name] ∧
      above.foldlM t.step (t.start path) = .ok directory ∧
      t.node? directory = some .directory ∧
      (name ≠ "" ∧ name ≠ "." ∧ name ≠ "..") ∧ ¬ maxName < name.utf8ByteSize ∧
      t.node? (directory ++ [name]) ≠ some .directory ∧
      t' = t.put (directory ++ [name]) (.file content) := by
  unfold write at h
  simp only [bind, Except.bind] at h
  -- All that stands in the way of a write would be an error: first on the way to the
  -- directory, then at the last name.
  split at h
  · cases h
  rename_i hpath
  split at h
  · cases h
  rename_i directory hwalk
  split at h
  · cases h
  · cases h
  · cases h
  rename_i name hlast hdirectory
  split at h
  · cases h
  rename_i hname
  split at h
  · cases h
  rename_i hshort
  split at h
  · cases h
  rename_i hfile
  simp only [not_or] at hname
  obtain ⟨hsplit, hempty⟩ := eq_concat_of_not_dropped hlast hname.1
  exact ⟨_, name, directory, hpath, hsplit, hwalk, hdirectory, ⟨hempty, hname.2⟩, hshort, hfile,
    (Except.ok.inj h).symm⟩

/-- What was written is read back. -/
theorem read_of_write {t' : FileTree} {path : String} {content : ByteArray}
    (h : t.write path content = .ok t') : t'.read path = .ok content := by
  obtain ⟨above, name, directory, hpath, hsplit, hwalk, hdirectory, ⟨hempty, hdot, hup⟩, hshort,
    hfile, ht'⟩ := write_eq_ok h
  have hplace : directory ++ [name] ≠ [] := by simp
  have hnode : t'.node? (directory ++ [name]) = some (.file content) := by
    rw [ht', node?_put t hplace, if_pos rfl]
  have habove : above.foldlM t'.step (t'.start path) = .ok directory := by
    rw [ht', start_put]
    exact walk_put hplace hfile content hwalk
  have hlast : t'.step directory name = .ok (directory ++ [name]) := by
    have hstands : t'.node? directory = some .directory := by
      rw [ht']
      exact node?_put_of_directory hplace hfile content hdirectory
    rw [step_of_directory hstands, if_neg (by simp [hempty, hdot]), if_neg hup]
    exact child_eq_ok_iff.mpr ⟨hshort, by rw [hnode]; rfl, rfl⟩
  have hresolve : t'.resolve path = .ok (directory ++ [name]) := by
    calc t'.resolve path
        = (above ++ [name]).foldlM t'.step (t'.start path) := by
          rw [resolve, hpath, hsplit]
          rfl
      _ = [name].foldlM t'.step directory := by
          rw [List.foldlM_append, habove]
          rfl
      _ = .ok (directory ++ [name]) := by
          rw [List.foldlM_cons, hlast]
          rfl
  rw [read, hresolve]
  simp only [bind, Except.bind, hnode]

/-- **A file tree keeps what is written to it**, under every path. -/
theorem retains (t : FileTree) (path : String) : FileSystem.Retains t path := by
  intro content after h
  rw [FileSystem.write, instFileSystem] at h
  cases hwrite : t.write path content with
  | error e => simp [hwrite] at h
  | ok t' =>
      simp only [hwrite, Prod.mk.injEq, true_and] at h
      rw [← h]
      exact read_of_write hwrite

end PropertyFile.FileTree
