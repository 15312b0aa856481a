import PropertyFile.FileTree
import PropertyFile.Proofs.Command.Given
import PropertyFile.Proofs.Command.Loading

/-!
# Where overrides stand in a command line

**A definition counts in front of the name of a command as it does behind it**, unless its
switch is given behind the name as well: `ofArguments_in_front`. Then it is lost, also where
the two define different things (`definition_in_front_is_lost`).

An `Occurrence` is a definition as it is written; whichever of the ways is taken, reading it
adds its value (`Occurrence.takeSwitches_arguments`). In front of the name the values are
all that is read, and behind it they come before those of the other arguments
(`Occurrence.takeAll_flatMap`). Which of the two count is up to `sharedValues`.
-/

namespace PropertyFile.Arguments

/-! ### Overrides as they are written -/

/-- The ways to write a switch and its value. -/
inductive Spelling
  /-- The value behind the letter, as in `-Dk=v`. -/
  | attached
  /-- The value behind the letter and an equals sign. -/
  | letterEquals
  /-- The letter, and the value as the next argument. -/
  | letter
  /-- The value behind the long name and an equals sign. -/
  | longEquals
  /-- The long name, and the value as the next argument. -/
  | long
deriving DecidableEq, Repr

/-- Can a value be written in this way? An argument of its own must not look like a switch,
and an equals sign behind a letter is no part of the value. -/
def Spelling.Allows (value : String) : Spelling → Prop
  | .attached => value ≠ "" ∧ value.toList.head? ≠ some '='
  | .letter | .long => Shape.ofArgument value = .word
  | .letterEquals | .longEquals => True

/-- A definition of a property or of a variable, as it is written in a command line. -/
structure Occurrence where
  switch : Switch
  value : String
  spelling : Spelling
  overrides : switch.overrides = true
  allowed : spelling.Allows value

namespace Occurrence

/-- The switch with its value. -/
def entry (o : Occurrence) : Switch × String :=
  (o.switch, o.value)

/-- The arguments that are written. -/
def arguments (o : Occurrence) : List String :=
  let short := '-' :: o.switch.letter?.toList
  let long := '-' :: '-' :: o.switch.long.toList
  match o.spelling with
  | .attached => [String.ofList (short ++ o.value.toList)]
  | .letterEquals => [String.ofList (short ++ '=' :: o.value.toList)]
  | .letter => [String.ofList short, o.value]
  | .longEquals => [String.ofList (long ++ '=' :: o.value.toList)]
  | .long => [String.ofList long, o.value]

end Occurrence

/-! ### Reading what is written -/

/-- The same switches and operands, and one more value behind all others. -/
def Given.put (g : Given) (s : Switch) (value : String) : Given :=
  { g with values := g.values ++ [(s, value)] }

section

variable {s : Switch} (hs : s.overrides = true)

include hs

/-- A value is added, whatever has been given before. -/
theorem addValue_of_overrides (g : Given) (value : String) :
    g.addValue s value = .ok (g.put s value) := by
  rcases Switch.eq_of_overrides hs with rfl | rfl
  · rfl
  · rfl

/-- All commands have the switch. -/
theorem addSwitches_short (more : List Switch) (g : Given) (cs : List Char) :
    addSwitches (Switch.shared ++ more) g
        (String.ofList ('-' :: s.letter?.toList ++ cs)) =
      some (match cs with
        | [] => .ok (g, some s)
        | '=' :: value => .ok (g.put s (String.ofList value), none)
        | value => .ok (g.put s (String.ofList value), none)) := by
  unfold addSwitches Shape.ofArgument
  rw [String.toList_ofList]
  rcases Switch.eq_of_overrides hs with rfl | rfl
  · rfl
  · rfl

theorem addSwitches_attached (more : List Switch) (g : Given) {value : String}
    (hne : value ≠ "") (hequals : value.toList.head? ≠ some '=') :
    addSwitches (Switch.shared ++ more) g
        (String.ofList ('-' :: s.letter?.toList ++ value.toList)) =
      some (.ok (g.put s value, none)) := by
  rw [addSwitches_short hs]
  cases hvalue : value.toList with
  | nil => exact absurd (String.toList_eq_nil_iff.mp hvalue) hne
  | cons c cs =>
      have hc : c ≠ '=' := by
        intro heq
        rw [hvalue, heq] at hequals
        exact hequals rfl
      have hcs : String.ofList (c :: cs) = value := by rw [← hvalue, String.ofList_toList]
      split
      · next heq => cases heq
      · next heq => exact absurd (List.cons.inj heq).1 hc
      · rw [hcs]

theorem addSwitches_letterEquals (more : List Switch) (g : Given) (value : String) :
    addSwitches (Switch.shared ++ more) g
        (String.ofList ('-' :: s.letter?.toList ++ '=' :: value.toList)) =
      some (.ok (g.put s value, none)) := by
  rw [addSwitches_short hs]
  show some (Except.ok (g.put s (String.ofList value.toList), none)) = _
  rw [String.ofList_toList]

theorem addSwitches_letter (more : List Switch) (g : Given) :
    addSwitches (Switch.shared ++ more) g (String.ofList ('-' :: s.letter?.toList)) =
      some (.ok (g, some s)) := by
  have hshort := addSwitches_short hs more g []
  rwa [List.append_nil] at hshort

theorem addSwitches_longEquals (more : List Switch) (g : Given) (value : String) :
    addSwitches (Switch.shared ++ more) g
        (String.ofList ('-' :: '-' :: s.long.toList ++ '=' :: value.toList)) =
      some (.ok (g.put s value, none)) := by
  unfold addSwitches Shape.ofArgument
  rw [String.toList_ofList, ← String.ofList_toList (s := value), String.toList_ofList]
  rcases Switch.eq_of_overrides hs with rfl | rfl
  · rfl
  · rfl

theorem addSwitches_long (more : List Switch) (g : Given) :
    addSwitches (Switch.shared ++ more) g (String.ofList ('-' :: '-' :: s.long.toList)) =
      some (.ok (g, some s)) := by
  unfold addSwitches Shape.ofArgument
  rw [String.toList_ofList]
  rcases Switch.eq_of_overrides hs with rfl | rfl
  · rfl
  · rfl

end

section

variable {switches : List Switch} {g added : Given} {arg : String}

theorem takeSwitches_of_added (h : addSwitches switches g arg = some (.ok (added, none)))
    (args : List String) :
    takeSwitches switches g (arg :: args) = takeSwitches switches added args := by
  rw [takeSwitches_cons, h]
  rfl

/-- The next argument is the value of a switch that needs one. -/
theorem takeSwitches_of_pending {s : Switch} (hs : s.overrides = true)
    (h : addSwitches switches g arg = some (.ok (g, some s))) {value : String}
    (hvalue : Shape.ofArgument value = .word) (args : List String) :
    takeSwitches switches g (arg :: value :: args) =
      takeSwitches switches (g.put s value) args := by
  have hawait : awaitValue g (some s) (value :: args) = .ok (g.put s value, args) := by
    rw [awaitValue, hvalue, addValue_of_overrides hs]
    rfl
  rw [takeSwitches_cons, h]
  dsimp only
  rw [hawait]

end

namespace Occurrence

/-- Reading an occurrence adds its value, in whatever way it is written. -/
theorem takeSwitches_arguments (o : Occurrence) (more : List Switch) (g : Given)
    (args : List String) :
    takeSwitches (Switch.shared ++ more) g (o.arguments ++ args) =
      takeSwitches (Switch.shared ++ more) (g.put o.switch o.value) args := by
  obtain ⟨s, value, spelling, hs, hallowed⟩ := o
  cases spelling with
  | attached =>
      obtain ⟨hne, hequals⟩ := hallowed
      exact takeSwitches_of_added (addSwitches_attached hs more g hne hequals) args
  | letterEquals => exact takeSwitches_of_added (addSwitches_letterEquals hs more g value) args
  | letter => exact takeSwitches_of_pending hs (addSwitches_letter hs more g) hallowed args
  | longEquals => exact takeSwitches_of_added (addSwitches_longEquals hs more g value) args
  | long => exact takeSwitches_of_pending hs (addSwitches_long hs more g) hallowed args

theorem takeSwitches_flatMap (os : List Occurrence) (more : List Switch) (g : Given)
    (args : List String) :
    takeSwitches (Switch.shared ++ more) g (os.flatMap arguments ++ args) =
      takeSwitches (Switch.shared ++ more) { g with values := g.values ++ os.map entry } args := by
  induction os generalizing g with
  | nil => simp
  | cons o os ih =>
      rw [List.flatMap_cons, List.append_assoc, o.takeSwitches_arguments, ih]
      simp [Given.put, entry]

theorem overrides_of_mem_entries {os : List Occurrence} {v : Switch × String}
    (h : v ∈ os.map entry) : v.1.overrides = true := by
  obtain ⟨o, -, rfl⟩ := List.mem_map.mp h
  exact o.overrides

/-- Behind the name of a command, occurrences put their values in front of all others. -/
theorem takeAll_flatMap (os : List Occurrence) (verb : Verb) (args : List String) :
    takeAll verb {} (os.flatMap arguments ++ args) =
      (takeAll verb {} args).map (Given.under (os.map entry)) := by
  obtain ⟨more, hmore⟩ : ∃ more, verb.switches = Switch.shared ++ more := by
    cases verb with
    | get => exact ⟨_, rfl⟩
    | process => exact ⟨_, rfl⟩
    | dump => exact ⟨_, rfl⟩
    | check => exact ⟨_, rfl⟩
  have hunder : ({} : Given).under (os.map entry) = { values := os.map entry } := by
    simp [Given.under]
  have htake : takeSwitches verb.switches {} (os.flatMap arguments ++ args) =
      takeSwitches verb.switches { values := os.map entry } args := by
    rw [hmore]
    exact takeSwitches_flatMap os more {} args
  rw [← takeAll_under fun _ => overrides_of_mem_entries, takeAll_eq, takeAll_eq, hunder, htake]

/-- The values of a switch among occurrences of which only those of some switches are
kept. -/
theorem valuesOf_filter (kept : Switch → Bool) (os : List Occurrence) (s : Switch) :
    ({ values := (os.filter fun o => kept o.switch).map entry } : Given).valuesOf s =
      if kept s then ({ values := os.map entry } : Given).valuesOf s else [] := by
  unfold Given.valuesOf
  rw [List.filterMap_map, List.filterMap_map, List.filterMap_filter]
  cases hkept : kept s with
  | true =>
      congr 1
      funext o
      by_cases heq : o.switch = s
      · simp [entry, heq, hkept]
      · simp [entry, heq]
  | false =>
      refine List.filterMap_eq_nil_iff.mpr fun o _ => ?_
      by_cases heq : o.switch = s
      · simp [heq, hkept]
      · simp [entry, heq]

end Occurrence

/-! ### The command behind its overrides -/

/-- Do the arguments behind the name of a command give a value to a switch? -/
def givesValue (verb : Verb) (args : List String) (s : Switch) : Bool :=
  match takeAll verb {} args with
  | .ok g => !(g.valuesOf s).isEmpty
  | .error _ => false

/-- The request that is made by values in front of the name of a command and by all that
stands behind it. -/
def requestOf (verb : Verb) (values : List (Switch × String)) : Except Stop Given → Request
  | .error stop => stop.request
  | .ok after =>
      match invocation? verb { values } after with
      | some invocation => .run invocation
      | none => .refused

theorem ofArguments_flatMap (first : List Occurrence) (verb : Verb) (args : List String) :
    Request.ofArguments (first.flatMap Occurrence.arguments ++ verb.name :: args) =
      requestOf verb (first.map Occurrence.entry) (takeAll verb {} args) := by
  have hname : Verb.ofName? verb.name = some verb := by cases verb <;> rfl
  have hword (g : Given) : takeSwitches leadingSwitches g (verb.name :: args) =
      .ok (g, verb.name :: args) := by
    rw [takeSwitches_cons]
    cases verb <;> rfl
  have htake : takeSwitches leadingSwitches {}
      (first.flatMap Occurrence.arguments ++ verb.name :: args) =
        .ok ({ values := first.map Occurrence.entry }, verb.name :: args) :=
    (Occurrence.takeSwitches_flatMap first [.help, .version] {} (verb.name :: args)).trans
      (hword _)
  rw [Request.ofArguments, htake]
  simp only [hname]
  cases takeAll verb {} args <;> rfl

/-- The values of the first occurrences count unless others of their switch stand behind the
name of the command. -/
theorem sharedValues_under {verb : Verb} {args : List String} {after : Given}
    (h : takeAll verb {} args = .ok after) (first : List Occurrence) (s : Switch) :
    sharedValues { values := first.map Occurrence.entry } after s =
      sharedValues {} (after.under
        ((first.filter fun o => !givesValue verb args o.switch).map Occurrence.entry)) s := by
  have hgives : givesValue verb args s = !(after.valuesOf s).isEmpty := by
    rw [givesValue, h]
  have hkept := Occurrence.valuesOf_filter (fun s => !givesValue verb args s) first s
  rw [sharedValues, sharedValues, Given.valuesOf_under, hkept, hgives]
  cases after.valuesOf s with
  | cons value values => rfl
  | nil =>
      show ({ values := first.map Occurrence.entry } : Given).valuesOf s =
        if (({ values := first.map Occurrence.entry } : Given).valuesOf s ++ []).isEmpty then []
        else ({ values := first.map Occurrence.entry } : Given).valuesOf s ++ []
      rw [List.append_nil]
      split
      · next hnone => exact List.isEmpty_iff.mp hnone
      · rfl

/-- **Entries in front of the name of a command count as if they stood behind it**, but for
those of a switch that is given behind the name as well: these are lost. -/
theorem ofArguments_in_front (first : List Occurrence) (verb : Verb) (args : List String) :
    Request.ofArguments (first.flatMap Occurrence.arguments ++ verb.name :: args) =
      Request.ofArguments (verb.name ::
        ((first.filter fun o => !givesValue verb args o.switch).flatMap Occurrence.arguments ++
          args)) := by
  have hbehind := ofArguments_flatMap [] verb
    ((first.filter fun o => !givesValue verb args o.switch).flatMap Occurrence.arguments ++ args)
  rw [List.flatMap_nil, List.nil_append, Occurrence.takeAll_flatMap] at hbehind
  rw [ofArguments_flatMap, hbehind]
  cases htake : takeAll verb {} args with
  | error stop => rfl
  | ok after =>
      have hinvocation : invocation? verb { values := first.map Occurrence.entry } after =
          invocation? verb {} (after.under
            ((first.filter fun o => !givesValue verb args o.switch).map Occurrence.entry)) := by
        rw [invocation?, invocation?, command?_under fun _ => Occurrence.overrides_of_mem_entries,
          sharedValues_under htake, sharedValues_under htake]
        rfl
      show requestOf verb _ (.ok after) = requestOf verb [] (.ok (after.under _))
      rw [requestOf, requestOf, hinvocation]

/-- A home directory that is defined in front of the command is lost to another definition
behind it. -/
theorem definition_in_front_is_lost :
    let host : Host FileTree := { files := {}, home := some "/home/me".toUTF8 }
    let home : Occurrence := ⟨.define, "user.home=/h", .letter, rfl, rfl⟩
    let other : Occurrence := ⟨.define, "x=1", .letter, rfl, rfl⟩
    let value := "@\x7buserhome\x7d"
    ∃ lost kept : Invocation,
      Request.ofArguments (home.arguments ++ "process" :: value :: other.arguments) = .run lost ∧
      Request.ofArguments ("process" :: value :: (home.arguments ++ other.arguments)) =
        .run kept ∧
      (lost.run host {}).result = (.success, "/home/me\n") ∧
      (kept.run host {}).result = (.success, "/h\n") := by
  intro host home other value
  refine ⟨⟨.process value none, { properties := ["x=1"] }, 0⟩,
    ⟨.process value none, { properties := ["user.home=/h", "x=1"] }, 0⟩, ?_, ?_, ?_, ?_⟩
  · decide +kernel
  · decide +kernel
  · decide +kernel
  · decide +kernel

end PropertyFile.Arguments
