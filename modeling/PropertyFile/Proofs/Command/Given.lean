import PropertyFile.Command.Arguments

/-!
# Arguments behind further values

**What overrides a property or a variable stands by itself in a command line**: the values
of the switches for it can be any number and anything, so with further ones in front the
other arguments are read as they are without (`takeAll_under`), and they make the same
command (`command?_under`).

Reading goes through a line of arguments in steps. `takeSwitches_cons` and `takeAll_eq` say
what one step is, and all that it calls adds to what has been given or refuses; that the
values in front take no part in this is shown for each of these in turn.
-/

namespace PropertyFile

/-- Does a switch define a property or override a variable? -/
def Switch.overrides : Switch → Bool
  | .define | .env => true
  | _ => false

theorem Switch.eq_of_overrides {s : Switch} (h : s.overrides = true) :
    s = .define ∨ s = .env := by
  cases s with
  | define => exact Or.inl rfl
  | env => exact Or.inr rfl
  | _ => cases h

namespace Arguments

/-! ### Reading, one argument after the other -/

/-- What an argument adds if it is made of switches, and the one that still needs its
value. -/
def addSwitches (switches : List Switch) (g : Given) (arg : String) :
    Option (Except Stop (Given × Option Switch)) :=
  match Shape.ofArgument arg with
  | .long name attached => some (g.addLong switches name attached)
  | .cluster letters => some (g.addCluster switches letters)
  | .terminator => none
  | .word => none

theorem takeSwitches_nil (switches : List Switch) (g : Given) :
    takeSwitches switches g [] = .ok (g, []) := by
  rw [takeSwitches]

theorem takeSwitches_cons (switches : List Switch) (g : Given) (arg : String)
    (args : List String) :
    takeSwitches switches g (arg :: args) =
      match addSwitches switches g arg with
      | none => .ok (g, arg :: args)
      | some (.error stop) => .error stop
      | some (.ok (added, pending)) =>
          match awaitValue added pending args with
          | .error stop => .error stop
          | .ok (next, rest) => takeSwitches switches next rest := by
  rw [takeSwitches]
  dsimp only
  split
  · next hnone =>
      have hadded : addSwitches switches g arg = none := hnone
      rw [hadded]
  · next stop hstop =>
      have hadded : addSwitches switches g arg = some (.error stop) := hstop
      rw [hadded]
  · next added pending hsome =>
      have hadded : addSwitches switches g arg = some (.ok (added, pending)) := hsome
      rw [hadded]
      dsimp only
      split
      · next hawait => simp only [hawait]
      · next hawait => simp only [hawait]

namespace Given

/-- The same switches and operands, behind further values. -/
def under (vs : List (Switch × String)) (g : Given) : Given :=
  { g with values := vs ++ g.values }

theorem valuesOf_under (vs : List (Switch × String)) (g : Given) (s : Switch) :
    (g.under vs).valuesOf s = ({ values := vs } : Given).valuesOf s ++ g.valuesOf s :=
  List.filterMap_append

end Given

section

variable {vs : List (Switch × String)} (hvs : ∀ v ∈ vs, v.1.overrides = true)

include hvs

/-- The other switches have no value among them. -/
theorem valuesOf_eq_nil {s : Switch} (hs : s.overrides = false) :
    ({ values := vs } : Given).valuesOf s = [] := by
  refine List.filterMap_eq_nil_iff.mpr fun v hv => if_neg ?_
  intro heq
  rw [heq.symm, hvs v hv] at hs
  cases hs

theorem value?_under {s : Switch} (hs : s.overrides = false) (g : Given) :
    (g.under vs).value? s = g.value? s := by
  rw [Given.value?, Given.valuesOf_under, valuesOf_eq_nil hvs hs]
  rfl

omit hvs in
theorem addFlag_under (g : Given) (s : Switch) :
    (g.under vs).addFlag s = (g.addFlag s).map (Given.under vs) := by
  unfold Given.addFlag
  show (if s.isInformation then _ else if !s.isRepeatable && 0 < g.count s then _ else _) = _
  split
  · rfl
  · split <;> rfl

theorem addValue_under (g : Given) (s : Switch) (value : String) :
    (g.under vs).addValue s value = (g.addValue s value).map (Given.under vs) := by
  have hrefused : (!s.isRepeatable && ((g.under vs).value? s).isSome) =
      (!s.isRepeatable && (g.value? s).isSome) := by
    cases hs : s.overrides with
    | false => rw [value?_under hvs hs]
    | true =>
        rcases Switch.eq_of_overrides hs with rfl | rfl
        · rfl
        · rfl
  unfold Given.addValue
  rw [hrefused]
  split
  · rfl
  · split
    · rfl
    · simp [Given.under, Except.map]

theorem addValue_pair_under {α : Type} (g : Given) (s : Switch) (value : String) (a : α) :
    ((g.under vs).addValue s value).map (·, a) =
      ((g.addValue s value).map (·, a)).map (Prod.map (Given.under vs) id) := by
  rw [addValue_under hvs]
  cases g.addValue s value <;> rfl

omit hvs in
theorem addOperand_under (g : Given) (verb : Verb) (operand : String) :
    (g.under vs).addOperand verb operand = (g.addOperand verb operand).map (Given.under vs) := by
  show (if !verb.hasRoom g.operands.length ||
    (verb.isPathAt g.operands.length && operand.isEmpty) then _ else _) = _
  unfold Given.addOperand
  dsimp only
  split <;> rfl

theorem addCluster_under (switches : List Switch) (g : Given) (letters : List Char) :
    (g.under vs).addCluster switches letters =
      (g.addCluster switches letters).map (Prod.map (Given.under vs) id) := by
  induction letters generalizing g with
  | nil => rfl
  | cons c letters ih =>
      unfold Given.addCluster
      cases switches.find? fun s => s.letter? == some c with
      | none => rfl
      | some s =>
          dsimp only
          by_cases hvalue : s.takesValue = true
          · rw [if_pos hvalue, if_pos hvalue]
            split
            · rfl
            · exact addValue_pair_under hvs g s _ none
            · exact addValue_pair_under hvs g s _ none
          · rw [if_neg hvalue, if_neg hvalue, addFlag_under]
            cases g.addFlag s with
            | error stop => rfl
            | ok g => exact ih g

theorem addLong_under (switches : List Switch) (g : Given) (name : List Char)
    (attached : Option (List Char)) :
    (g.under vs).addLong switches name attached =
      (g.addLong switches name attached).map (Prod.map (Given.under vs) id) := by
  unfold Given.addLong
  cases switches.find? fun s => s.long.toList == name with
  | none => rfl
  | some s =>
      dsimp only
      split
      · exact addValue_pair_under hvs g s _ none
      · rfl
      · rfl
      · rw [addFlag_under]
        cases g.addFlag s <;> rfl

theorem addSwitches_under (switches : List Switch) (g : Given) (arg : String) :
    addSwitches switches (g.under vs) arg =
      (addSwitches switches g arg).map (·.map (Prod.map (Given.under vs) id)) := by
  unfold addSwitches
  cases Shape.ofArgument arg with
  | long name attached => exact congrArg some (addLong_under hvs switches g name attached)
  | cluster letters => exact congrArg some (addCluster_under hvs switches g letters)
  | terminator => rfl
  | word => rfl

theorem awaitValue_under (g : Given) (pending : Option Switch) (args : List String) :
    awaitValue (g.under vs) pending args =
      (awaitValue g pending args).map (Prod.map (Given.under vs) id) := by
  unfold awaitValue
  split
  · rfl
  · rfl
  · next s value args =>
      split
      · exact addValue_pair_under hvs g s value args
      · rfl

theorem takeSwitches_under (switches : List Switch) (g : Given) (args : List String) :
    takeSwitches switches (g.under vs) args =
      (takeSwitches switches g args).map (Prod.map (Given.under vs) id) := by
  -- The value of a switch can be an argument too, so the arguments can shrink by two.
  induction hlength : args.length using Nat.strongRecOn generalizing g args with
  | _ n ih =>
  cases args with
  | nil =>
      rw [takeSwitches_nil, takeSwitches_nil]
      rfl
  | cons arg args =>
      rw [takeSwitches_cons, takeSwitches_cons, addSwitches_under hvs]
      cases addSwitches switches g arg with
      | none => rfl
      | some added =>
          cases added with
          | error stop => rfl
          | ok added =>
              obtain ⟨g, pending⟩ := added
              simp only [Option.map_some, Except.map, Prod.map_apply, id_eq, awaitValue_under hvs]
              cases hawait : awaitValue g pending args with
              | error stop => rfl
              | ok next =>
                  have hle := awaitValue_le hawait
                  exact ih next.2.length (by simp at hlength; omega) next.1 next.2 rfl

omit hvs in
theorem takeOperands_under (verb : Verb) (g : Given) (args : List String) :
    takeOperands verb (g.under vs) args = (takeOperands verb g args).map (Given.under vs) := by
  unfold takeOperands
  induction args generalizing g with
  | nil => rfl
  | cons arg args ih =>
      rw [List.foldlM_cons, List.foldlM_cons, addOperand_under]
      cases g.addOperand verb arg with
      | error stop => rfl
      | ok g => exact ih g

theorem takeAll_under (verb : Verb) (g : Given) (args : List String) :
    takeAll verb (g.under vs) args = (takeAll verb g args).map (Given.under vs) := by
  induction hlength : args.length using Nat.strongRecOn generalizing g args with
  | _ n ih =>
  rw [takeAll_eq, takeAll_eq, takeSwitches_under hvs]
  cases htake : takeSwitches verb.switches g args with
  | error stop => rfl
  | ok taken =>
      obtain ⟨g, rest⟩ := taken
      cases rest with
      | nil => rfl
      | cons arg rest =>
          have hle := takeSwitches_le htake
          simp only [Except.map, Prod.map_apply, id_eq]
          by_cases hend : Shape.ofArgument arg = .terminator
          · rw [if_pos hend, if_pos hend]
            exact takeOperands_under verb g rest
          · rw [if_neg hend, if_neg hend, addOperand_under]
            cases g.addOperand verb arg with
            | error stop => rfl
            | ok g => exact ih rest.length (by simp at hle; omega) g rest rfl

/-- Further values of other switches do not make another command. -/
theorem command?_under (verb : Verb) (g : Given) : (g.under vs).command? verb = g.command? verb := by
  unfold Given.command?
  rw [value?_under hvs (s := .format) rfl, value?_under hvs (s := .default) rfl,
    value?_under hvs (s := .file) rfl, value?_under hvs (s := .output) rfl]
  rfl

end

end Arguments

end PropertyFile
