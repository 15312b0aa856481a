import PropertyFile.Command
import PropertyFile.Command.Switch

/-!
# Command lines

**Reading a list of arguments as a command.** Arguments are taken from left to
right. Switches for definitions and for verbosity may stand before and after the
name of the command; of each of them, the values after the name count if there
are any, and otherwise those before it. All other switches belong to one command.

A value may be attached to its switch (`--format=json`, `-fjson`, `-f=json`) or
be the next argument, which then must not look like a switch. Switches of one
letter can share one dash, up to the first that takes a value. After `--` nothing
is a switch any more.
-/

namespace PropertyFile

/-- What a list of arguments asks for. -/
inductive Request
  /-- To run a command. -/
  | run (invocation : Invocation)
  /-- To be told how the program is used, or its version. -/
  | information
  /-- Nothing that can be made sense of. -/
  | refused
deriving DecidableEq, Repr

namespace Arguments

/-- Why reading ends before the last argument. -/
inductive Stop
  | information
  | refused
deriving DecidableEq, Repr

/-- The switches and operands given so far. -/
structure Given where
  /-- The switches without values, in order. -/
  flags : List Switch := []
  /-- The switches with their values, in order. -/
  values : List (Switch × String) := []
  operands : List String := []
deriving DecidableEq, Repr

namespace Given

/-- All values of a switch, in order. -/
def valuesOf (g : Given) (s : Switch) : List String :=
  g.values.filterMap fun entry => if entry.1 = s then some entry.2 else none

/-- The value of a switch that takes one. -/
def value? (g : Given) (s : Switch) : Option String :=
  (g.valuesOf s).head?

/-- How often a switch without a value is given. -/
def count (g : Given) (s : Switch) : Nat :=
  g.flags.count s

/-- Adds a switch without a value. -/
def addFlag (g : Given) (s : Switch) : Except Stop Given :=
  if s.isInformation then .error .information
  else if !s.isRepeatable && 0 < g.count s then .error .refused
  else .ok { g with flags := g.flags ++ [s] }

/-- Adds a switch with its value. -/
def addValue (g : Given) (s : Switch) (value : String) : Except Stop Given :=
  if !s.isRepeatable && (g.value? s).isSome then .error .refused
  else if s.takesPath && value.isEmpty then .error .refused
  else .ok { g with values := g.values ++ [(s, value)] }

/-- Adds an operand of a command. -/
def addOperand (g : Given) (verb : Verb) (operand : String) : Except Stop Given :=
  let count := g.operands.length
  if !verb.hasRoom count || (verb.isPathAt count && operand.isEmpty) then .error .refused
  else .ok { g with operands := g.operands ++ [operand] }

/-- Adds the switches that share one dash; the last may still need its value. -/
def addCluster (switches : List Switch) (g : Given) :
    List Char → Except Stop (Given × Option Switch)
  | [] => .ok (g, none)
  | c :: cs =>
      match switches.find? fun s => s.letter? == some c with
      | none => .error .refused
      | some s =>
          if s.takesValue then
            match cs with
            | [] => .ok (g, some s)
            | '=' :: value => (g.addValue s (String.ofList value)).map (·, none)
            | value => (g.addValue s (String.ofList value)).map (·, none)
          else
            match g.addFlag s with
            | .ok g => addCluster switches g cs
            | .error stop => .error stop

/-- Adds a switch given by its long name; it may still need its value. -/
def addLong (switches : List Switch) (g : Given) (name : List Char)
    (attached : Option (List Char)) : Except Stop (Given × Option Switch) :=
  match switches.find? fun s => s.long.toList == name with
  | none => .error .refused
  | some s =>
      match s.takesValue, attached with
      | true, some value => (g.addValue s (String.ofList value)).map (·, none)
      | true, none => .ok (g, some s)
      | false, some _ => .error .refused
      | false, none => (g.addFlag s).map (·, none)

end Given

/-- How an argument looks. -/
inductive Shape
  /-- Two dashes, which end the switches. -/
  | terminator
  /-- A switch by its long name, perhaps with an attached value. -/
  | long (name : List Char) (attached : Option (List Char))
  /-- Switches by their letters. -/
  | cluster (letters : List Char)
  /-- Anything else, among it a single dash. -/
  | word
deriving DecidableEq, Repr

/-- The look of an argument. -/
def Shape.ofArgument (arg : String) : Shape :=
  match arg.toList with
  | ['-', '-'] => .terminator
  | '-' :: '-' :: cs =>
      match cs.dropWhile (· != '=') with
      | [] => .long cs none
      | _ :: value => .long (cs.takeWhile (· != '=')) (some value)
  | '-' :: c :: cs => .cluster (c :: cs)
  | _ => .word

/-- Takes the next argument as the value of a switch that needs one. -/
def awaitValue (g : Given) : Option Switch → List String → Except Stop (Given × List String)
  | none, args => .ok (g, args)
  | some _, [] => .error .refused
  | some s, value :: args =>
      match Shape.ofArgument value with
      | .word => (g.addValue s value).map (·, args)
      | _ => .error .refused

theorem awaitValue_le {g g' : Given} {s : Option Switch} {args rest : List String}
    (h : awaitValue g s args = .ok (g', rest)) : rest.length ≤ args.length := by
  unfold awaitValue at h
  split at h
  · simp_all
  · simp at h
  · next s value args =>
      split at h
      · cases hv : g.addValue s value with
        | error stop => simp [hv, Except.map] at h
        | ok g₁ =>
            simp only [hv, Except.map, Except.ok.injEq, Prod.mk.injEq] at h
            obtain ⟨-, rfl⟩ := h
            simp
      · simp at h

/-- Takes the switches in front of the first argument that is none. -/
def takeSwitches (switches : List Switch) (g : Given) (args : List String) :
    Except Stop (Given × List String) :=
  match args with
  | [] => .ok (g, [])
  | arg :: args =>
      let added := match Shape.ofArgument arg with
        | .long name attached => some (g.addLong switches name attached)
        | .cluster letters => some (g.addCluster switches letters)
        | .terminator => none
        | .word => none
      match added with
      | none => .ok (g, arg :: args)
      | some (.error stop) => .error stop
      | some (.ok (g, pending)) =>
          match h : awaitValue g pending args with
          | .error stop => .error stop
          | .ok (g, rest) =>
              have := awaitValue_le h
              takeSwitches switches g rest
termination_by args.length

/-- Adds operands, whatever they look like. -/
def takeOperands (verb : Verb) (g : Given) (args : List String) : Except Stop Given :=
  args.foldlM (fun g arg => g.addOperand verb arg) g

theorem takeSwitches_le {switches : List Switch} {g g' : Given} {args rest : List String}
    (h : takeSwitches switches g args = .ok (g', rest)) : rest.length ≤ args.length := by
  fun_induction takeSwitches switches g args generalizing g' rest with
  | case1 => simp_all
  | case2 => simp_all
  | case3 => simp at h
  | case4 => simp at h
  | case5 =>
      rename_i hle ih
      have := ih h
      simp only [List.length_cons]
      omega

/-- Takes all arguments after the name of a command. -/
def takeAll (verb : Verb) (g : Given) (args : List String) : Except Stop Given :=
  match h : takeSwitches verb.switches g args with
  | .error stop => .error stop
  | .ok (g, []) => .ok g
  | .ok (g, arg :: rest) =>
      if Shape.ofArgument arg = .terminator then takeOperands verb g rest
      else
        match g.addOperand verb arg with
        | .error stop => .error stop
        | .ok g =>
            have := takeSwitches_le h
            takeAll verb g rest
termination_by args.length
decreasing_by
  simp only [List.length_cons] at this
  omega

/-- Taking all arguments goes on behind each operand as it started. -/
theorem takeAll_eq (verb : Verb) (g : Given) (args : List String) :
    takeAll verb g args =
      match takeSwitches verb.switches g args with
      | .error stop => .error stop
      | .ok (g, []) => .ok g
      | .ok (g, arg :: rest) =>
          if Shape.ofArgument arg = .terminator then takeOperands verb g rest
          else
            match g.addOperand verb arg with
            | .error stop => .error stop
            | .ok g => takeAll verb g rest := by
  rw [takeAll]
  split
  · next h => simp only [h]
  · next h => simp only [h]
  · next h => simp only [h]

/-- The command that switches and operands make up. -/
def Given.command? (verb : Verb) (g : Given) : Option Command :=
  match verb, g.operands with
  | .get, [file, key] =>
      some (.get file key ((g.value? .format).getD "text") (g.value? .default))
  | .process, [value] => some (.process value (g.value? .file))
  | .dump, [file] =>
      some (.dump file (0 < g.count .raw) ((g.value? .format).getD "properties")
        (g.value? .output))
  | .check, file :: files => some (.check (file :: files))
  | _, _ => none

/-- The values of a shared switch: those after the name of the command if there are
any, otherwise those before it. -/
def sharedValues (before after : Given) (s : Switch) : List String :=
  if (after.valuesOf s).isEmpty then before.valuesOf s else after.valuesOf s

/-- The invocation that the switches before the name of a command and everything
after it make up. -/
def invocation? (verb : Verb) (before after : Given) : Option Invocation :=
  (after.command? verb).map fun command =>
    { command
      overrides :=
        { properties := sharedValues before after .define
          environment := sharedValues before after .env }
      verbosity := if after.count .verbose = 0 then before.count .verbose
        else after.count .verbose }

/-- What the arguments after the word `help` ask for: at most the name of one
command, or the word itself. -/
def helpRequest : List String → Request
  | [] => .information
  | [name] =>
      if (Verb.ofName? name).isSome || name == "help" then .information else .refused
  | _ => .refused

/-- The switches that may stand before the name of the command. -/
def leadingSwitches : List Switch :=
  Switch.shared ++ [.help, .version]

/-- The request that ends the reading of arguments early. -/
def Stop.request : Stop → Request
  | .information => .information
  | .refused => .refused

end Arguments

open Arguments in
/-- Reads a list of arguments, without the name of the program. -/
def Request.ofArguments (args : List String) : Request :=
  match takeSwitches leadingSwitches {} args with
  | .error stop => stop.request
  | .ok (_, []) => .refused
  | .ok (before, name :: rest) =>
      match Verb.ofName? name with
      | none => if name = "help" then helpRequest rest else .refused
      | some verb =>
          match takeAll verb {} rest with
          | .error stop => stop.request
          | .ok after =>
              match invocation? verb before after with
              | some invocation => .run invocation
              | none => .refused

end PropertyFile
