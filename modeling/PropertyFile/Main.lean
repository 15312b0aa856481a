import PropertyFile.Command.Answer
import PropertyFile.Command.Arguments

/-!
# The program

Reads the arguments, lets the command answer, and delivers the answer to the real
output and the real files.
-/

namespace PropertyFile

/-- The text that tells how the program is used. -/
def usage : String :=
  String.intercalate "\n"
    ["Usage: COMMAND [OPTIONS]",
      "",
      "  get FILE KEY [-f text|json] [-d DEFAULT]",
      "  process VALUE [--file FILE]",
      "  dump FILE [--raw] [-f properties|json|yaml] [-o OUTPUT]",
      "  check FILE...",
      "",
      "  -D KEY=VALUE   define or override a property",
      "  -e NAME=VALUE  override an environment variable",
      "  -v             tell more",
      ""]

/-- The number of an error of the operating system, which may come negated. -/
def systemErrorNumber (code : UInt32) : Nat :=
  if code < 0x80000000 then code.toNat else (0 - code).toNat

/-- An error of the operating system in its own words, with its number. -/
def systemErrorText : IO.Error → String
  | .alreadyExists _ code details
  | .interrupted _ code details
  | .noFileOrDirectory _ code details
  | .invalidArgument _ code details
  | .permissionDenied _ code details
  | .resourceExhausted _ code details
  | .inappropriateType _ code details
  | .noSuchThing _ code details
  | .otherError code details
  | .resourceBusy code details
  | .resourceVanished code details
  | .unsupportedOperation code details
  | .hardwareFault code details
  | .unsatisfiedConstraints code details
  | .illegalOperation code details
  | .protocolError code details
  | .timeExpired code details =>
      details.capitalize ++ " (os error " ++ toString (systemErrorNumber code) ++ ")"
  | e => toString e

/-- Reads a file. -/
def readInput (path : String) : IO (Except FileError ByteArray) := do
  try
    return .ok (← IO.FS.readBinFile path)
  catch e =>
    return .error (.other (systemErrorText e))

/-- What a run can see of the real world, once its input files have been read. The home
directory is known where the environment tells it: the table of users is out of reach. -/
def realSurroundings (inputs : List String) : IO Surroundings := do
  let contents ← inputs.mapM fun path => do pure (path, ← readInput path)
  let texts ← Replacements.wanted.mapM fun name => do pure (name, ← IO.getEnv name)
  let home ← IO.getEnv "HOME"
  return {
    read := fun path => (contents.lookup path).getD (.error .notFound)
    environment? := fun name => (texts.lookup name).join
    home? := home.filter fun home => !home.isEmpty }

/-- Delivers the text of an answer. -/
def deliver : Delivery → IO (Except String Unit)
  | .nothing => return .ok ()
  | .print text => do
      try
        let output ← IO.getStdout
        output.putStr text
        output.flush
        return .ok ()
      catch e =>
        return .error (systemErrorText e)
  | .save path text => do
      try
        IO.FS.writeBinFile path text.toUTF8
        return .ok ()
      catch e =>
        return .error (systemErrorText e)

/-- The events that are shown, given how often more output was asked for. -/
def Event.isShown (verbosity : Nat) (e : Event) : Bool :=
  match e.level with
  | .warn => true
  | .debug => 2 ≤ verbosity
  | .trace => 3 ≤ verbosity

/-- Runs a command on the real files. -/
def runReal (i : Invocation) : IO UInt32 := do
  let answered := i.answer (← realSurroundings i.command.inputs)
  for e in answered.log do
    if e.isShown i.verbosity then IO.eprintln (e.level.name ++ " " ++ e.message)
  let (code, notes) := answered.value.conclude (← deliver answered.value.delivery)
  for note in notes do
    IO.eprintln note
  return UInt32.ofNat code.toNat

end PropertyFile

open PropertyFile in
def main (args : List String) : IO UInt32 :=
  match Request.ofArguments args with
  | .run invocation => runReal invocation
  | .information => do
      IO.print usage
      return 0
  | .refused => do
      IO.eprint usage
      return 2
