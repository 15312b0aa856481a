import PropertyFile.Event

/-!
# Traced computations

A value together with what happened on the way to it: the events for the log,
and the texts that an observer of expansions was shown, both in order. Joining
two computations joins their traces.
-/

namespace PropertyFile

/-- A value and the trace that it left. -/
structure Traced (α : Type) where
  value : α
  /-- The events, in order. -/
  log : List Event := []
  /-- The texts shown to the observer, in order. -/
  observed : List String := []

namespace Traced

variable {α β : Type}

/-- A value reached without any trace. -/
def ofValue (a : α) : Traced α :=
  { value := a }

/-- Goes on with the value of a computation. -/
def andThen (x : Traced α) (f : α → Traced β) : Traced β :=
  { value := (f x.value).value
    log := x.log ++ (f x.value).log
    observed := x.observed ++ (f x.value).observed }

instance : Monad Traced where
  pure := ofValue
  bind := andThen

/-- Logs an event. -/
def note (e : Event) : Traced Unit :=
  { value := (), log := [e] }

/-- Shows a text to the observer. -/
def observe (text : String) : Traced Unit :=
  { value := (), observed := [text] }

@[ext] theorem ext {x y : Traced α} (hv : x.value = y.value) (hl : x.log = y.log)
    (ho : x.observed = y.observed) : x = y := by
  cases x
  cases y
  simp_all

@[simp] theorem value_pure (a : α) : (pure a : Traced α).value = a := rfl

@[simp] theorem log_pure (a : α) : (pure a : Traced α).log = [] := rfl

@[simp] theorem observed_pure (a : α) : (pure a : Traced α).observed = [] := rfl

@[simp] theorem value_bind (x : Traced α) (f : α → Traced β) :
    (x >>= f).value = (f x.value).value := rfl

@[simp] theorem log_bind (x : Traced α) (f : α → Traced β) :
    (x >>= f).log = x.log ++ (f x.value).log := rfl

@[simp] theorem observed_bind (x : Traced α) (f : α → Traced β) :
    (x >>= f).observed = x.observed ++ (f x.value).observed := rfl

@[simp] theorem value_map (f : α → β) (x : Traced α) : (f <$> x).value = f x.value := rfl

@[simp] theorem log_map (f : α → β) (x : Traced α) : (f <$> x).log = x.log :=
  List.append_nil _

@[simp] theorem observed_map (f : α → β) (x : Traced α) : (f <$> x).observed = x.observed :=
  List.append_nil _

@[simp] theorem log_note (e : Event) : (note e).log = [e] := rfl

@[simp] theorem observed_note (e : Event) : (note e).observed = [] := rfl

@[simp] theorem log_observe (text : String) : (observe text).log = [] := rfl

@[simp] theorem observed_observe (text : String) : (observe text).observed = [text] := rfl

instance : LawfulMonad Traced :=
  LawfulMonad.mk' Traced
    (fun x => by ext <;> simp)
    (fun a f => by ext <;> simp)
    (fun x f g => by ext <;> simp)

/-! ### Running a computation for each element of a list -/

@[simp] theorem value_mapM (f : α → Traced β) (as : List α) :
    (as.mapM f).value = as.map fun a => (f a).value := by
  induction as with
  | nil => rfl
  | cons a as ih => simp [ih]

@[simp] theorem log_mapM (f : α → Traced β) (as : List α) :
    (as.mapM f).log = as.flatMap fun a => (f a).log := by
  induction as with
  | nil => rfl
  | cons a as ih => simp [ih]

@[simp] theorem observed_mapM (f : α → Traced β) (as : List α) :
    (as.mapM f).observed = as.flatMap fun a => (f a).observed := by
  induction as with
  | nil => rfl
  | cons a as ih => simp [ih]

end Traced

end PropertyFile
