import PropertyFile.FileSystem

/-!
# File trees

**A file system that is a value:** the files and directories below a root, one of which
is the working directory, where paths without a leading slash start. A path is walked
from left to right, one name at a time: every name but the last has to lead into a
directory. Everything in a tree may be read and written.
-/

namespace PropertyFile

/-- What stands under a name. -/
inductive Node
  | file (content : ByteArray)
  | directory

instance : DecidableEq Node
  | .file a, .file b =>
      match ByteArray.instDecidableEq a b with
      | isTrue h => isTrue (congrArg Node.file h)
      | isFalse h => isFalse fun heq => h (Node.file.inj heq)
  | .directory, .directory => isTrue rfl
  | .file _, .directory => isFalse nofun
  | .directory, .file _ => isFalse nofun

/-- The files and directories below a root. -/
structure FileTree where
  /-- What stands at each place. A place is given by the names that lead to it from the
  root; one that is listed twice counts as it is listed first. -/
  nodes : List (List String × Node) := []
  /-- The place of the working directory. -/
  workingDirectory : List String := []
deriving DecidableEq

namespace FileTree

/-- The most bytes of UTF-8 that one name can have. -/
def maxName : Nat := 255

/-- The most bytes of UTF-8 that a path can have. -/
def maxPath : Nat := 4095

/-- What stands at a place. The root has no names. -/
def node? (t : FileTree) (place : List String) : Option Node :=
  if place.isEmpty then some .directory else t.nodes.lookup place

/-- The place under a name in a directory. -/
def child (t : FileTree) (directory : List String) (name : String) :
    Except FileError (List String) :=
  if maxName < name.utf8ByteSize then .error .nameTooLong
  else if (t.node? (directory ++ [name])).isSome then .ok (directory ++ [name])
  else .error .notFound

/-- Goes one name further. An empty name and a dot stay where they are, but only in
a directory; above the root is the root. -/
def step (t : FileTree) (place : List String) (name : String) :
    Except FileError (List String) :=
  match t.node? place with
  | none => .error .notFound
  | some (.file _) => .error .notDirectory
  | some .directory =>
      if name = "" ∨ name = "." then .ok place
      else if name = ".." then .ok place.dropLast
      else t.child place name

/-- The names in a path. -/
def split (path : String) : List String :=
  (path.toList.splitOn '/').map String.ofList

/-- The place where a path starts. -/
def start (t : FileTree) (path : String) : List String :=
  if path.toList.head? = some '/' then [] else t.workingDirectory

/-- Can the path be used at all? -/
def checkPath (path : String) : Except FileError Unit :=
  if '\x00' ∈ path.toList then .error .nulInPath
  else if path.isEmpty then .error .notFound
  else if maxPath < path.utf8ByteSize then .error .nameTooLong
  else .ok ()

/-- Walks a path. -/
def resolve (t : FileTree) (path : String) : Except FileError (List String) := do
  checkPath path
  (split path).foldlM t.step (t.start path)

/-- The content of a file. -/
def read (t : FileTree) (path : String) : Except FileError ByteArray := do
  match t.node? (← t.resolve path) with
  | some (.file content) => .ok content
  | some .directory => .error .isDirectory
  | none => .error .notFound

/-- Puts a node at a place, instead of what stood there. -/
def put (t : FileTree) (place : List String) (node : Node) : FileTree :=
  { t with nodes := (place, node) :: t.nodes.filter fun entry => entry.1 != place }

private theorem lookup_filter_ne {nodes : List (List String × Node)} {names other : List String}
    (h : other ≠ names) :
    (nodes.filter fun entry => entry.1 != names).lookup other = nodes.lookup other := by
  induction nodes with
  | nil => rfl
  | cons entry rest ih =>
      obtain ⟨k, v⟩ := entry
      by_cases hk : k = names
      · have hother : (other == k) = false := beq_eq_false_iff_ne.mpr (hk ▸ h)
        simpa [hk, List.lookup_cons, hk ▸ hother] using ih
      · by_cases ho : other = k <;> simp [hk, ho, List.lookup_cons, beq_eq_false_iff_ne.mpr, ih]

/-- A node is found where it was put, and nothing else has changed. -/
theorem node?_put (t : FileTree) {place : List String} (h : place ≠ []) (node : Node)
    (other : List String) :
    (t.put place node).node? other = if other = place then some node else t.node? other := by
  unfold node? put
  by_cases ho : other = place
  · simp [ho, h]
  · rw [if_neg ho]
    split
    · rfl
    · rw [List.lookup_cons, beq_eq_false_iff_ne.mpr ho]
      exact lookup_filter_ne ho

@[simp] theorem start_put (t : FileTree) (place : List String) (node : Node) (path : String) :
    (t.put place node).start path = t.start path := rfl

/-- Writes a file: creates it, or replaces its content. A directory cannot be
written, and a path that ends in a slash or a dot can only mean a directory. -/
def write (t : FileTree) (path : String) (content : ByteArray) : Except FileError FileTree := do
  checkPath path
  let names := split path
  let trimmed := (names.reverse.dropWhile (· == "")).reverse
  let directory ← trimmed.dropLast.foldlM t.step (t.start path)
  match trimmed.getLast?, t.node? directory with
  | none, _ => .error .isDirectory
  | some _, none => .error .notFound
  | some _, some (.file _) => .error .notDirectory
  | some name, some .directory =>
      if trimmed.length < names.length ∨ name = "." ∨ name = ".." then .error .isDirectory
      else if maxName < name.utf8ByteSize then .error .nameTooLong
      else
        match t.node? (directory ++ [name]) with
        | some .directory => .error .isDirectory
        | _ => .ok (t.put (directory ++ [name]) (.file content))

/-- A write that fails changes nothing. -/
instance : FileSystem FileTree where
  read := read
  write t path content :=
    match t.write path content with
    | .ok after => (.ok (), after)
    | .error e => (.error e, t)

/-! ### Building and comparing -/

/-- The place that a path without dots leads to. -/
def place (t : FileTree) (path : String) : List String :=
  t.start path ++ (split path).filter (· != "")

/-- Makes the directory at a place and all directories above it. -/
def addDirectory (t : FileTree) (place : List String) : FileTree :=
  (List.range place.length).foldl (fun t n => t.put (place.take (n + 1)) .directory) t

/-- Puts a file at a place and makes all directories above it. -/
def addFile (t : FileTree) (place : List String) (content : ByteArray) : FileTree :=
  (t.addDirectory place.dropLast).put place (.file content)

/-- The tree with the given directories and files, in the working directory unless their
paths say otherwise. -/
def ofList (directories : List String) (files : List (String × ByteArray))
    (workingDirectory : List String := []) : FileTree :=
  let empty := ({ workingDirectory } : FileTree).addDirectory workingDirectory
  files.foldl (fun t file => t.addFile (t.place file.1) file.2)
    (directories.foldl (fun t path => t.addDirectory (t.place path)) empty)

/-- The path of a place, as short as it can be said in the working directory. -/
def pathOf (t : FileTree) (place : List String) : String :=
  match t.workingDirectory.isPrefixOf? place with
  | some names => String.intercalate "/" names
  | none => "/" ++ String.intercalate "/" place

/-- The files of `after` that `before` does not have with the same content. -/
def changes (before after : FileTree) : List (String × ByteArray) :=
  after.nodes.filterMap fun entry =>
    match entry.2 with
    | .directory => none
    | .file content =>
        if before.node? entry.1 = some (.file content) then none
        else some (after.pathOf entry.1, content)

end FileTree

end PropertyFile
