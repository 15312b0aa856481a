/-!
# Switches

The names of the commands, the switches that each of them takes, and what its
operands are: the vocabulary of a command line.
-/

namespace PropertyFile

/-- The switches of all commands. -/
inductive Switch
  | define
  | env
  | verbose
  | format
  | default
  | file
  | raw
  | output
  | help
  | version
deriving DecidableEq, Repr

namespace Switch

/-- The long name, which follows two dashes. -/
def long : Switch → String
  | .define => "define"
  | .env => "env"
  | .verbose => "verbose"
  | .format => "format"
  | .default => "default"
  | .file => "file"
  | .raw => "raw"
  | .output => "output"
  | .help => "help"
  | .version => "version"

/-- The letter, which follows one dash. -/
def letter? : Switch → Option Char
  | .define => some 'D'
  | .env => some 'e'
  | .verbose => some 'v'
  | .format => some 'f'
  | .default => some 'd'
  | .file => none
  | .raw => none
  | .output => some 'o'
  | .help => some 'h'
  | .version => some 'V'

/-- Does a value belong to the switch? -/
def takesValue : Switch → Bool
  | .define | .env | .format | .default | .file | .output => true
  | .verbose | .raw | .help | .version => false

/-- Is the value the path of a file, which cannot be empty? -/
def takesPath : Switch → Bool
  | .file | .output => true
  | _ => false

/-- May the switch be given more than once? -/
def isRepeatable : Switch → Bool
  | .define | .env | .verbose => true
  | _ => false

/-- Does the switch ask for information instead of a command? -/
def isInformation : Switch → Bool
  | .help | .version => true
  | _ => false

/-- The switches that may stand before and after the name of the command. -/
def shared : List Switch := [.define, .env, .verbose]

end Switch

/-- The commands by name alone. -/
inductive Verb
  | get
  | process
  | dump
  | check
deriving DecidableEq, Repr

namespace Verb

/-- All commands. -/
def all : List Verb := [.get, .process, .dump, .check]

/-- The name of the command. -/
def name : Verb → String
  | .get => "get"
  | .process => "process"
  | .dump => "dump"
  | .check => "check"

/-- The command with a given name. -/
def ofName? (name : String) : Option Verb :=
  all.find? fun verb => verb.name == name

/-- The switches that may stand after the name of the command. -/
def switches : Verb → List Switch
  | .get => Switch.shared ++ [.format, .default, .help]
  | .process => Switch.shared ++ [.file, .help]
  | .dump => Switch.shared ++ [.raw, .format, .output, .help]
  | .check => Switch.shared ++ [.help]

/-- Can the command take one more operand, given that it has `count`? -/
def hasRoom (verb : Verb) (count : Nat) : Bool :=
  match verb with
  | .get => count < 2
  | .process => count < 1
  | .dump => count < 1
  | .check => true

/-- Is the operand after `count` others the path of a file? -/
def isPathAt (verb : Verb) (count : Nat) : Bool :=
  match verb with
  | .get => count == 0
  | .process => false
  | .dump => true
  | .check => true

end Verb

end PropertyFile
