import Mathlib.Data.List.Forall2

/-!
# Working through a list

What comes of a list when each element is read and reading may fail: either all of them
can be read, and the results stand in their order (`mapM_eq_ok_iff`), or the first that
cannot decides (`mapM_eq_error_iff`).
-/

namespace PropertyFile

variable {ε α β : Type} {f : α → Except ε β}

theorem mapM_cons_of_ok {a : α} {b : β} (h : f a = .ok b) (as : List α) :
    (a :: as).mapM f = (as.mapM f).map (b :: ·) := by
  rw [List.mapM_cons, h]
  cases as.mapM f <;> rfl

theorem mapM_cons_of_error {a : α} {e : ε} (h : f a = .error e) (as : List α) :
    (a :: as).mapM f = .error e := by
  rw [List.mapM_cons, h]
  rfl

/-- The results stand in the order of the elements. -/
theorem mapM_eq_ok_iff {as : List α} {bs : List β} :
    as.mapM f = .ok bs ↔ List.Forall₂ (fun a b => f a = .ok b) as bs := by
  induction as generalizing bs with
  | nil =>
      constructor
      · intro h
        obtain rfl := Except.ok.inj h
        exact List.Forall₂.nil
      · intro h
        cases h
        rfl
  | cons a as ih =>
      constructor
      · intro h
        cases ha : f a with
        | error e =>
            rw [mapM_cons_of_error ha] at h
            cases h
        | ok b =>
            rw [mapM_cons_of_ok ha] at h
            cases has : as.mapM f with
            | error e =>
                rw [has] at h
                cases h
            | ok bs' =>
                rw [has] at h
                obtain rfl := Except.ok.inj h
                exact List.Forall₂.cons ha (ih.mp has)
      · intro h
        cases h with
        | cons ha has =>
            rw [mapM_cons_of_ok ha, ih.mpr has]
            rfl

/-- The first element that cannot be read decides. -/
theorem mapM_eq_error_iff {as : List α} {e : ε} :
    as.mapM f = .error e ↔
      ∃ before a after, as = before ++ a :: after ∧ (∀ b ∈ before, ∃ y, f b = .ok y) ∧
        f a = .error e := by
  constructor
  · intro h
    induction as with
    | nil => cases h
    | cons a as ih =>
        cases ha : f a with
        | error e' =>
            rw [mapM_cons_of_error ha] at h
            obtain rfl := Except.error.inj h
            exact ⟨[], a, as, rfl, by simp, ha⟩
        | ok b =>
            rw [mapM_cons_of_ok ha] at h
            have hlater : as.mapM f = .error e := by
              cases has : as.mapM f with
              | error e' =>
                  rw [has] at h
                  exact h
              | ok bs =>
                  rw [has] at h
                  cases h
            obtain ⟨before, c, after, rfl, hbefore, hc⟩ := ih hlater
            refine ⟨a :: before, c, after, rfl, ?_, hc⟩
            intro d hd
            rcases List.mem_cons.mp hd with rfl | hd
            · exact ⟨b, ha⟩
            · exact hbefore d hd
  · rintro ⟨before, a, after, rfl, hbefore, ha⟩
    induction before with
    | nil => exact mapM_cons_of_error ha after
    | cons b before ih =>
        obtain ⟨y, hy⟩ := hbefore b List.mem_cons_self
        rw [List.cons_append, mapM_cons_of_ok hy,
          ih fun c hc => hbefore c (List.mem_cons_of_mem b hc)]
        rfl

/-- All can be read if each of them can. -/
theorem exists_mapM_eq_ok_iff {as : List α} :
    (∃ bs, as.mapM f = .ok bs) ↔ ∀ a ∈ as, ∃ b, f a = .ok b := by
  constructor
  · rintro ⟨bs, h⟩
    induction mapM_eq_ok_iff.mp h with
    | nil => simp
    | cons ha has ih =>
        exact List.forall_mem_cons.mpr ⟨⟨_, ha⟩, ih (mapM_eq_ok_iff.mpr has)⟩
  · intro h
    cases hread : as.mapM f with
    | ok bs => exact ⟨bs, rfl⟩
    | error e =>
        obtain ⟨before, a, after, rfl, -, ha⟩ := mapM_eq_error_iff.mp hread
        obtain ⟨b, hb⟩ := h a (by simp)
        rw [ha] at hb
        cases hb

/-- The results are those of the elements. -/
theorem mem_iff_of_mapM_eq_ok {as : List α} {bs : List β} (h : as.mapM f = .ok bs) {b : β} :
    b ∈ bs ↔ ∃ a ∈ as, f a = .ok b := by
  induction mapM_eq_ok_iff.mp h with
  | nil => simp
  | cons ha has ih => simp [ih (mapM_eq_ok_iff.mpr has), ha, eq_comm]

theorem toOption_eq_some_iff {x : Except ε α} {a : α} : x.toOption = some a ↔ x = .ok a := by
  cases x <;> simp [Except.toOption]

/-- Whether all can be read, and as what, is no matter of how an error is told. -/
theorem toOption_mapM (f : α → Except ε β) (as : List α) :
    (as.mapM f).toOption = as.mapM fun a => (f a).toOption := by
  induction as with
  | nil => rfl
  | cons a as ih =>
      cases ha : f a with
      | error e =>
          rw [mapM_cons_of_error ha, List.mapM_cons, ha]
          rfl
      | ok b =>
          rw [mapM_cons_of_ok ha, List.mapM_cons, ha, ← ih]
          cases as.mapM f <;> rfl

/-- Where each element is read alike but for how its error is told, so are all. -/
theorem mapM_mapError {ε' : Type} {g : α → Except ε' β} {tell : ε → ε'} {as : List α}
    (h : ∀ a ∈ as, g a = (f a).mapError tell) : as.mapM g = (as.mapM f).mapError tell := by
  induction as with
  | nil => rfl
  | cons a as ih =>
      have hhead := h a List.mem_cons_self
      have htail := ih fun b hb => h b (List.mem_cons_of_mem a hb)
      cases ha : f a with
      | error e =>
          rw [ha] at hhead
          rw [mapM_cons_of_error ha, mapM_cons_of_error hhead]
          rfl
      | ok b =>
          rw [ha] at hhead
          rw [mapM_cons_of_ok ha, mapM_cons_of_ok hhead, htail]
          cases as.mapM f <;> rfl

end PropertyFile
