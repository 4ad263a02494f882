import LensoFlags.Store

/-!
# Agreement of two computations

Two computations agree when they give related values, the same domain failure, or errors that are
both outside the domain (a backend's texts are its own).
-/

namespace LensoFlags

variable {α β γ δ : Type}

inductive Agree (R : α → β → Prop) : Except StorageError α → Except StorageError β → Prop
  | ok {a : α} {b : β} : R a b → Agree R (.ok a) (.ok b)
  | domain (failure : DomainFailure) : Agree R (.error (.domain failure)) (.error (.domain failure))
  | other {e e' : StorageError} : e.isDomain = false → e'.isDomain = false →
      Agree R (.error e) (.error e')

variable {R : α → β → Prop} {S : γ → δ → Prop} {x : Except StorageError α}
  {y : Except StorageError β}

theorem Agree.bind {f : α → Except StorageError γ} {g : β → Except StorageError δ}
    (h : Agree R x y) (hfg : ∀ a b, R a b → Agree S (f a) (g b)) : Agree S (x >>= f) (y >>= g) := by
  cases h with
  | ok hab => exact hfg _ _ hab
  | domain failure => exact .domain failure
  | other he he' => exact .other he he'

theorem Agree.mono {R' : α → β → Prop} (h : Agree R x y) (hR : ∀ a b, R a b → R' a b) :
    Agree R' x y := by
  cases h with
  | ok hab => exact .ok (hR _ _ hab)
  | domain failure => exact .domain failure
  | other he he' => exact .other he he'

/-- Agreeing values are values of the two computations. -/
theorem Agree.values (h : Agree R x y) : Agree (fun a b => R a b ∧ x = .ok a ∧ y = .ok b) x y := by
  cases h with
  | ok hab => exact .ok ⟨hab, rfl, rfl⟩
  | domain failure => exact .domain failure
  | other he he' => exact .other he he'

theorem Agree.refl (x : Except StorageError α) : Agree (· = ·) x x := by
  cases x with
  | ok a => exact .ok rfl
  | error e =>
    cases e with
    | domain failure => exact .domain failure
    | backend _ => exact .other rfl rfl
    | json => exact .other rfl rfl
    | time => exact .other rfl rfl

theorem Agree.symm (h : Agree R x y) : Agree (fun b a => R a b) y x := by
  cases h with
  | ok hab => exact .ok hab
  | domain failure => exact .domain failure
  | other he he' => exact .other he' he

theorem Agree.okOr {o : Option α} {o' : Option β} (failure : DomainFailure) (h : Option.Rel R o o') :
    Agree R (okOr failure o) (okOr failure o') := by
  cases h with
  | some hab => exact .ok hab
  | none => exact .domain failure

theorem rel_map_right {f : β → γ} {S : α → γ → Prop} {o : Option α} {o' : Option β}
    (h : Option.Rel R o o') (hR : ∀ a b, R a b → S a (f b)) : Option.Rel S o (o'.map f) := by
  cases h with
  | some hab => exact .some (hR _ _ hab)
  | none => exact .none

/-- What the second computation gives when the first gives a value. -/
theorem Agree.of_ok {a : α} (h : Agree R (.ok a) y) : ∃ b, y = .ok b ∧ R a b := by
  cases h with
  | ok hab => exact ⟨_, rfl, hab⟩

/-- A computation that agrees exactly with a value gives it. -/
theorem Agree.eq_ok {x : Except StorageError α} {a : α} (h : Agree (· = ·) x (.ok a)) :
    x = .ok a := by
  cases h with
  | ok heq => rw [heq]

theorem Agree.of_domain {failure : DomainFailure} (h : Agree R (.error (.domain failure)) y) :
    y = .error (.domain failure) := by
  cases h with
  | domain => rfl
  | other he => cases he

theorem validateRuleset_isDomain {rt : Runtime} {valueType : String}
    {definition : RulesetDefinition} {e : StorageError}
    (h : validateRuleset rt valueType definition = .error e) : e.isDomain = true := by
  simp only [validateRuleset] at h
  split at h
  · cases h; rfl
  · split at h
    · cases h; rfl
    · split at h
      · cases h; rfl
      · split at h
        · cases h; rfl
        · cases h

end LensoFlags
