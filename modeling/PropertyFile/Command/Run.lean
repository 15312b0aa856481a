import PropertyFile.Command.Answer
import PropertyFile.Command.Arguments

/-!
# Runs

**A run from the arguments to the exit code,** on files, environment variables, a home
directory and an output that are values. It delivers the answer of a command and records
everything that the run leaves behind.
-/

namespace PropertyFile

open PropertyFile.Text

/-- Where a run takes place, with files that are kept in an `F`. -/
structure Host (F : Type) where
  files : F
  environment : Environment := {}
  /-- The path of the user's home directory, if there is one. -/
  home : Option ByteArray := none

/-- What a run can see of its host. The path of the home directory need not be text: its
bytes are read leniently. -/
def Host.surroundings {F : Type} [FileSystem F] (host : Host F) : Surroundings :=
  { read := FileSystem.read host.files
    environment? := host.environment.text?
    home? := host.home.map ofBytesLenient }

/-- An output, which may fail. -/
structure Sink where
  /-- Why text cannot be written. -/
  writeError : Option String := none
  /-- Why written text cannot be passed on. -/
  flushError : Option String := none
deriving DecidableEq, Repr

/-- Writes a text and passes it on. Nothing is written for an empty text. -/
def Sink.accept (sink : Sink) (text : String) : Except String Unit :=
  match if text.isEmpty then none else sink.writeError, sink.flushError with
  | some e, _ => .error e
  | none, some e => .error e
  | none, none => .ok ()

/-- What a run leaves behind. -/
structure Outcome (F : Type) where
  code : ExitCode
  /-- What has come out. -/
  out : String
  /-- The lines of the error output. -/
  notes : List String
  /-- The files after the run. -/
  files : F
  log : List Event

/-- The error output of a run. -/
def Outcome.err {F : Type} (o : Outcome F) : String :=
  String.join (o.notes.map (· ++ "\n"))

/-- Runs a command. -/
def Invocation.run {F : Type} [FileSystem F] (i : Invocation) (host : Host F) (sink : Sink) :
    Outcome F :=
  let answered := i.answer host.surroundings
  let answer := answered.value
  let finish (delivered : Except String Unit) (out : String) (files : F) : Outcome F :=
    let (code, notes) := answer.conclude delivered
    { code, out, notes, files, log := answered.log }
  match answer.delivery with
  | .nothing => finish (.ok ()) "" host.files
  | .print text =>
      match sink.accept text with
      | .ok () => finish (.ok ()) text host.files
      | .error e => finish (.error e) "" host.files
  | .save path text =>
      let (written, files) := FileSystem.write host.files path text.toUTF8
      finish (written.mapError FileError.message) "" files

end PropertyFile
