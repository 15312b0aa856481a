/-!
# File systems

**What a run asks of files:** their content under a path, and to have some content put
under a path. Any way of keeping files will do. Which paths lead where, who may read and
write them and what goes wrong is left open.
-/

namespace PropertyFile

/-- Why a file cannot be read or written. -/
inductive FileError
  | notFound
  | notDirectory
  | isDirectory
  | nameTooLong
  /-- The path holds a NUL character. -/
  | nulInPath
  /-- The content is not text. -/
  | notText
  /-- Any other refusal, in the words of the operating system. -/
  | other (message : String)
deriving DecidableEq, Repr

/-- The error in words. -/
def FileError.message : FileError → String
  | .notFound => "No such file or directory (os error 2)"
  | .notDirectory => "Not a directory (os error 20)"
  | .isDirectory => "Is a directory (os error 21)"
  | .nameTooLong => "File name too long (os error 36)"
  | .nulInPath => "file name contained an unexpected NUL byte"
  | .notText => "stream did not contain valid UTF-8"
  | .other message => message

/-- Files that are read and written by path. -/
class FileSystem (F : Type) where
  /-- The content of the file under a path. -/
  read : F → String → Except FileError ByteArray
  /-- Makes a file with the given content, or replaces the content of the file. With
  the files as they are afterwards: a write that fails may have done part of its work. -/
  write : F → String → ByteArray → Except FileError Unit × F

/-- What is written under the path is read back there, as it is where the path leads to
a file and not to a device. -/
def FileSystem.Retains {F : Type} [FileSystem F] (files : F) (path : String) : Prop :=
  ∀ content after, write files path content = (.ok (), after) → read after path = .ok content

end PropertyFile
