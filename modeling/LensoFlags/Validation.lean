import LensoFlags.Requests
import Mathlib.Algebra.Order.BigOperators.Group.List
import Mathlib.Algebra.Order.Ring.Int

/-!
# What the validator accepts

`WellFormed` says what a ruleset is to be; `validate_ruleset` decides it but for the total of the
basis points, a 64-bit sum that is taken before the single numbers are checked.

1. `validateRuleset_eq_ok`: what the code accepts.
2. `accepted_iff_wellFormed`: where that is what it should accept, with and without overflow checks.
-/

namespace LensoFlags

/-! ## Well-formed rulesets -/

def RulesetDefinition.variantKeys (definition : RulesetDefinition) : List String :=
  definition.variants.map (·.variantKey)

/-- The operators, with the number of values each compares to. -/
def TargetingRuleRecord.Arity (rule : TargetingRuleRecord) : Prop :=
  (rule.operator ∈ ["equals", "not_equals", "contains"] ∧ rule.comparisonValues.length = 1) ∨
    (rule.operator = "one_of" ∧ 1 ≤ rule.comparisonValues.length)

structure WellFormedVariants (rt : Runtime) (valueType : String)
    (definition : RulesetDefinition) : Prop where
  nonempty : definition.variants ≠ []
  distinct : definition.variantKeys.Nodup
  default : definition.fallthroughVariant ∈ definition.variantKeys
  typed : ∀ variant ∈ definition.variants, validValue rt valueType variant.value

structure WellFormedRules (definition : RulesetDefinition) : Prop where
  distinct : (definition.targetingRules.map (·.ruleId)).Nodup
  known : ∀ rule ∈ definition.targetingRules, rule.variantKey ∈ definition.variantKeys
  arity : ∀ rule ∈ definition.targetingRules, rule.Arity

/-- A rollout but for its total. -/
structure WellFormedRollout (definition : RulesetDefinition) : Prop where
  distinct : (definition.percentageRollout.map (·.variantKey)).Nodup
  known : ∀ item ∈ definition.percentageRollout, item.variantKey ∈ definition.variantKeys
  positive : ∀ item ∈ definition.percentageRollout, 1 ≤ item.basisPoints.toInt

/-- The sum of the basis points as integers. -/
def exactTotal (rollout : List RolloutRecord) : ℤ := (rollout.map (·.basisPoints.toInt)).sum

structure WellFormed (rt : Runtime) (valueType : String) (definition : RulesetDefinition) :
    Prop where
  variants : WellFormedVariants rt valueType definition
  rules : WellFormedRules definition
  rollout : WellFormedRollout definition
  total : exactTotal definition.percentageRollout ≤ 10000

/-! ## The parts of the validator -/

theorem keySet_length_eq {keys : List String} : (keySet keys).length = keys.length ↔ keys.Nodup := by
  unfold keySet
  constructor
  · intro h
    rw [← (List.dedup_sublist keys).eq_of_length h]
    exact List.nodup_dedup keys
  · intro h
    rw [h.dedup]

theorem mem_keySet {keys : List String} {key : String} : key ∈ keySet keys ↔ key ∈ keys :=
  List.mem_dedup

theorem validArity_iff {rule : TargetingRuleRecord} : validArity rule ↔ rule.Arity := by
  unfold validArity TargetingRuleRecord.Arity
  split <;> simp_all [List.length_pos_iff, Nat.succ_le_iff]

theorem variants_checked {rt : Runtime} {valueType : String} {definition : RulesetDefinition} :
    ¬(definition.variants.isEmpty
        || (keySet definition.variantKeys).length != definition.variants.length
        || !(keySet definition.variantKeys).contains definition.fallthroughVariant) ∧
      definition.variants.all (fun variant => validValue rt valueType variant.value) ↔
    WellFormedVariants rt valueType definition := by
  have hlength : definition.variants.length = definition.variantKeys.length :=
    List.length_map _ |>.symm
  simp only [Bool.or_eq_true, List.isEmpty_iff, bne_iff_ne, Bool.not_eq_true', ne_eq, hlength,
    List.contains_eq_mem, decide_eq_false_iff_not, mem_keySet, keySet_length_eq, List.all_eq_true,
    not_or, not_not]
  constructor
  · rintro ⟨⟨⟨hne, hnd⟩, hdefault⟩, htyped⟩
    exact ⟨hne, hnd, hdefault, htyped⟩
  · intro h
    exact ⟨⟨⟨h.nonempty, h.distinct⟩, h.default⟩, h.typed⟩

theorem rules_checked {definition : RulesetDefinition} :
    ¬((keySet (definition.targetingRules.map (·.ruleId))).length != definition.targetingRules.length
        || !definition.targetingRules.all (fun rule =>
          (keySet definition.variantKeys).contains rule.variantKey && validArity rule)) ↔
    WellFormedRules definition := by
  have hlength : definition.targetingRules.length =
      (definition.targetingRules.map (·.ruleId)).length := List.length_map _ |>.symm
  simp only [Bool.or_eq_true, bne_iff_ne, Bool.not_eq_true', ne_eq, hlength, not_or, not_not,
    keySet_length_eq, Bool.not_eq_false, List.all_eq_true, Bool.and_eq_true,
    List.contains_eq_mem, decide_eq_true_eq, mem_keySet, validArity_iff]
  constructor
  · rintro ⟨hnd, hrules⟩
    exact ⟨hnd, fun rule hrule => (hrules rule hrule).1, fun rule hrule => (hrules rule hrule).2⟩
  · intro h
    exact ⟨h.distinct, fun rule hrule => ⟨h.known rule hrule, h.arity rule hrule⟩⟩

theorem Int64.not_le_zero_iff {n : Int64} : ¬n ≤ 0 ↔ 1 ≤ n.toInt := by
  rw [Int64.le_iff_toInt_le, Int64.toInt_zero]
  omega

theorem rollout_checked {definition : RulesetDefinition} {total : Int64} :
    ¬((keySet (definition.percentageRollout.map (·.variantKey))).length
          != definition.percentageRollout.length
        || total > 10000
        || definition.percentageRollout.any (fun item =>
          item.basisPoints ≤ 0 || !(keySet definition.variantKeys).contains item.variantKey)) ↔
    WellFormedRollout definition ∧ total ≤ 10000 := by
  have hlength : definition.percentageRollout.length =
      (definition.percentageRollout.map (·.variantKey)).length := List.length_map _ |>.symm
  simp only [Bool.or_eq_true, bne_iff_ne, ne_eq, hlength, not_or, not_not, keySet_length_eq,
    decide_eq_true_eq, gt_iff_lt, List.any_eq_true, not_exists, not_and, Bool.not_eq_true',
    List.contains_eq_mem, decide_eq_false_iff_not, mem_keySet, Int64.not_le_zero_iff,
    Int64.not_lt]
  constructor
  · rintro ⟨⟨hnd, htotal⟩, hitems⟩
    exact ⟨⟨hnd, fun item hitem => (hitems item hitem).2,
      fun item hitem => (hitems item hitem).1⟩, htotal⟩
  · rintro ⟨h, htotal⟩
    exact ⟨⟨h.distinct, htotal⟩, fun item hitem => ⟨h.positive item hitem, h.known item hitem⟩⟩

theorem ite_error_eq_ok {α : Type} {c : Prop} [Decidable c] {e : StorageError}
    {x : Except StorageError α} {a : α} :
    (if c then .error e else x) = .ok a ↔ ¬c ∧ x = .ok a := by
  by_cases h : c <;> simp [h]

/-- What the code accepts: the total it looks at is the wrapped one. -/
theorem validateRuleset_eq_ok {rt : Runtime} {valueType : String} {definition : RulesetDefinition} :
    validateRuleset rt valueType definition = .ok () ↔
      WellFormedVariants rt valueType definition ∧ WellFormedRules definition ∧
        WellFormedRollout definition ∧ rolloutTotal definition.percentageRollout ≤ 10000 := by
  rw [← variants_checked, ← rules_checked, ← rollout_checked]
  unfold validateRuleset RulesetDefinition.variantKeys
  simp only [ite_error_eq_ok, and_assoc, and_true, Bool.not_eq_true', Bool.not_eq_false]

/-! ## The total -/

/-- The sum of a release build is the exact one modulo `2 ^ 64`. -/
theorem rolloutTotal_toInt (rollout : List RolloutRecord) :
    (rolloutTotal rollout).toInt = (exactTotal rollout).bmod (2 ^ 64) := by
  have hfold : ∀ (points : List Int64) (acc : Int64),
      (points.foldl (· + ·) acc).toInt = (acc.toInt + (points.map Int64.toInt).sum).bmod (2 ^ 64) := by
    intro points
    induction points with
    | nil =>
      intro acc
      simp [Int64.toInt_bmod]
    | cons point points ih =>
      intro acc
      rw [List.foldl_cons, ih, Int64.toInt_add, List.map_cons, List.sum_cons,
        Int.bmod_add_bmod, Int.add_assoc]
  unfold rolloutTotal exactTotal
  rw [hfold, Int64.toInt_zero, Int.zero_add, List.map_map]
  rfl

/-- The exact total is too large, and modulo `2 ^ 64` it is a small or a negative `i64`. -/
def WrapsBack (rollout : List RolloutRecord) : Prop :=
  10000 < exactTotal rollout ∧
    (exactTotal rollout % 2 ^ 64 ≤ 10000 ∨ 2 ^ 63 ≤ exactTotal rollout % 2 ^ 64)

theorem exactTotal_nonneg {rollout : List RolloutRecord}
    (hpositive : ∀ item ∈ rollout, 1 ≤ item.basisPoints.toInt) : 0 ≤ exactTotal rollout := by
  refine List.sum_nonneg fun n hn => ?_
  obtain ⟨item, hitem, rfl⟩ := List.mem_map.mp hn
  exact Int.le_trans (by decide) (hpositive item hitem)

theorem rolloutTotal_le_iff {rollout : List RolloutRecord}
    (hpositive : ∀ item ∈ rollout, 1 ≤ item.basisPoints.toInt) :
    rolloutTotal rollout ≤ 10000 ↔ exactTotal rollout ≤ 10000 ∨ WrapsBack rollout := by
  have hnonneg := exactTotal_nonneg hpositive
  rw [Int64.le_iff_toInt_le, rolloutTotal_toInt, show (10000 : Int64).toInt = 10000 from rfl]
  rw [Int.bmod_def]
  unfold WrapsBack
  omega

/-! ## Overflow checks -/

/-- `+` on `i64` in a build with overflow checks: `none` for the panic. -/
def checkedAdd (a b : Int64) : Option Int64 :=
  if Decimal.InI64 (a.toInt + b.toInt) then some (a + b) else none

/-- The sum of the same build. -/
def checkedTotal (rollout : List RolloutRecord) : Option Int64 :=
  (rollout.map (·.basisPoints)).foldlM checkedAdd 0

/-- `validate_ruleset` in a build with overflow checks: the sum is taken once the variants and the
rules have passed, and before the rollout is looked at. -/
def validateRulesetChecked (rt : Runtime) (valueType : String) (definition : RulesetDefinition) :
    Option (Except StorageError Unit) :=
  let variantKeys := keySet (definition.variants.map (·.variantKey))
  if definition.variants.isEmpty
      || variantKeys.length != definition.variants.length
      || !variantKeys.contains definition.fallthroughVariant then
    some (.error (.domain .invalidRuleset))
  else if !definition.variants.all (fun variant => validValue rt valueType variant.value) then
    some (.error (.domain .typeMismatch))
  else
    let ruleIds := keySet (definition.targetingRules.map (·.ruleId))
    if ruleIds.length != definition.targetingRules.length
        || !definition.targetingRules.all (fun rule =>
          variantKeys.contains rule.variantKey && validArity rule) then
      some (.error (.domain .invalidRuleset))
    else
      let rolloutKeys := keySet (definition.percentageRollout.map (·.variantKey))
      (checkedTotal definition.percentageRollout).map fun total =>
        if rolloutKeys.length != definition.percentageRollout.length
            || total > 10000
            || definition.percentageRollout.any (fun item =>
              item.basisPoints ≤ 0 || !variantKeys.contains item.variantKey) then
          .error (.domain .invalidRuleset)
        else .ok ()

/-- Every total on the way to the last one is an `i64`. -/
def NeverOverflows (rollout : List RolloutRecord) : Prop :=
  ∀ first, first <+: rollout → Decimal.InI64 (exactTotal first)

theorem checkedAdd_eq_some {a b c : Int64} :
    checkedAdd a b = some c ↔ Decimal.InI64 (a.toInt + b.toInt) ∧ c = a + b := by
  unfold checkedAdd
  split
  · simp [*, eq_comm]
  · simp [*]

theorem exactTotal_cons (item : RolloutRecord) (rest : List RolloutRecord) :
    exactTotal (item :: rest) = item.basisPoints.toInt + exactTotal rest := List.sum_cons

theorem toInt_add_of_inI64 {a b : Int64} (h : Decimal.InI64 (a.toInt + b.toInt)) :
    (a + b).toInt = a.toInt + b.toInt := by
  rw [Int64.toInt_add]
  exact Int.bmod_eq_of_le h.1 (Int.lt_add_one_of_le h.2)

/-- The checked sum is there exactly if no total on the way leaves `i64`, and is then the sum. -/
theorem checkedTotal_eq_some {rollout : List RolloutRecord} {total : Int64} :
    checkedTotal rollout = some total ↔ NeverOverflows rollout ∧ total = rolloutTotal rollout := by
  have hfold : ∀ (rest : List RolloutRecord) (acc : Int64),
      (rest.map (·.basisPoints)).foldlM checkedAdd acc = some total ↔
        (∀ first, first <+: rest → Decimal.InI64 (acc.toInt + exactTotal first)) ∧
          total = (rest.map (·.basisPoints)).foldl (· + ·) acc := by
    intro rest
    induction rest with
    | nil =>
      intro acc
      have hacc : Decimal.InI64 acc.toInt := ⟨acc.le_toInt, Int.le_of_lt_add_one acc.toInt_lt⟩
      simp [exactTotal, hacc, eq_comm]
    | cons item rest ih =>
      intro acc
      rw [List.map_cons, List.foldlM_cons, Option.bind_eq_bind, Option.bind_eq_some_iff]
      constructor
      · rintro ⟨sum, hsum, htail⟩
        obtain ⟨hin, rfl⟩ := checkedAdd_eq_some.mp hsum
        obtain ⟨hprefixes, htotal⟩ := (ih _).mp htail
        refine ⟨fun first hfirst => ?_, htotal⟩
        cases first with
        | nil => simpa [exactTotal] using ⟨acc.le_toInt, Int.le_of_lt_add_one acc.toInt_lt⟩
        | cons head first =>
          obtain ⟨rfl, hrest⟩ := List.cons_prefix_cons.mp hfirst
          have := hprefixes first hrest
          rwa [toInt_add_of_inI64 hin, Int.add_assoc, ← exactTotal_cons] at this
      · rintro ⟨hprefixes, htotal⟩
        have hin : Decimal.InI64 (acc.toInt + item.basisPoints.toInt) := by
          simpa [exactTotal] using hprefixes [item] ⟨rest, rfl⟩
        refine ⟨_, checkedAdd_eq_some.mpr ⟨hin, rfl⟩, (ih _).mpr ⟨fun first hfirst => ?_, htotal⟩⟩
        rw [toInt_add_of_inI64 hin, Int.add_assoc, ← exactTotal_cons]
        exact hprefixes _ (List.cons_prefix_cons.mpr ⟨rfl, hfirst⟩)
  rw [checkedTotal, hfold, rolloutTotal, Int64.toInt_zero]
  simp only [Int.zero_add, NeverOverflows]

theorem exactTotal_of_neverOverflows {rollout : List RolloutRecord} (h : NeverOverflows rollout) :
    (rolloutTotal rollout).toInt = exactTotal rollout := by
  rw [rolloutTotal_toInt]
  have hin := h rollout (List.prefix_refl _)
  exact Int.bmod_eq_of_le hin.1 (Int.lt_add_one_of_le hin.2)

theorem ite_some_eq_none {α : Type} {c : Prop} [Decidable c] {a : α} {x : Option α} :
    (if c then some a else x) = none ↔ ¬c ∧ x = none := by
  by_cases h : c <;> simp [h]

/-- The panic: the sum is reached and overflows. -/
theorem validateRulesetChecked_eq_none {rt : Runtime} {valueType : String}
    {definition : RulesetDefinition} :
    validateRulesetChecked rt valueType definition = none ↔
      WellFormedVariants rt valueType definition ∧ WellFormedRules definition ∧
        ¬NeverOverflows definition.percentageRollout := by
  have htotal : checkedTotal definition.percentageRollout = none ↔
      ¬NeverOverflows definition.percentageRollout := by
    simp [Option.eq_none_iff_forall_not_mem, checkedTotal_eq_some]
  rw [← variants_checked, ← rules_checked, ← htotal]
  unfold validateRulesetChecked RulesetDefinition.variantKeys
  simp only [ite_some_eq_none, and_assoc, Option.map_eq_none_iff, Bool.not_eq_true',
    Bool.not_eq_false]

/-- Without the panic, the two builds agree. -/
theorem validateRulesetChecked_eq_some {rt : Runtime} {valueType : String}
    {definition : RulesetDefinition} {result : Except StorageError Unit}
    (h : validateRulesetChecked rt valueType definition = some result) :
    result = validateRuleset rt valueType definition := by
  unfold validateRulesetChecked at h
  unfold validateRuleset
  dsimp only at h ⊢
  split at h
  · rename_i hvariants
    rw [if_pos hvariants]
    exact (Option.some.inj h).symm
  rename_i hvariants
  rw [if_neg hvariants]
  split at h
  · rename_i htyped
    rw [if_pos htyped]
    exact (Option.some.inj h).symm
  rename_i htyped
  rw [if_neg htyped]
  split at h
  · rename_i hrules
    rw [if_pos hrules]
    exact (Option.some.inj h).symm
  rename_i hrules
  rw [if_neg hrules]
  obtain ⟨total, htotal, hresult⟩ := Option.map_eq_some_iff.mp h
  rw [(checkedTotal_eq_some.mp htotal).2] at hresult
  exact hresult.symm

/-! ## Where the validator is exact -/

/-- A release build decides well-formedness but for a ruleset that is otherwise well-formed and
whose total wraps back; a build with overflow checks decides it unless the sum is reached and
overflows. -/
theorem accepted_iff_wellFormed (rt : Runtime) (valueType : String)
    (definition : RulesetDefinition) :
    ((validateRuleset rt valueType definition = .ok () ↔ WellFormed rt valueType definition) ↔
      (WellFormedVariants rt valueType definition → WellFormedRules definition →
        WellFormedRollout definition → ¬WrapsBack definition.percentageRollout)) ∧
    ((∃ result, validateRulesetChecked rt valueType definition = some result ∧
        (result = .ok () ↔ WellFormed rt valueType definition)) ↔
      (WellFormedVariants rt valueType definition → WellFormedRules definition →
        NeverOverflows definition.percentageRollout)) := by
  constructor
  · rw [validateRuleset_eq_ok]
    constructor
    · intro hiff hvariants hrules hrollout hwraps
      -- A total that wraps back passes the check, but is over the bound.
      have hok := hiff.mp ⟨hvariants, hrules, hrollout,
        (rolloutTotal_le_iff hrollout.positive).mpr (.inr hwraps)⟩
      exact absurd hok.total (Int.not_le.mpr hwraps.1)
    · intro hwraps
      constructor
      · rintro ⟨hvariants, hrules, hrollout, htotal⟩
        refine ⟨hvariants, hrules, hrollout, ?_⟩
        exact ((rolloutTotal_le_iff hrollout.positive).mp htotal).resolve_right
          (hwraps hvariants hrules hrollout)
      · intro h
        exact ⟨h.variants, h.rules, h.rollout,
          (rolloutTotal_le_iff h.rollout.positive).mpr (.inl h.total)⟩
  · constructor
    · rintro ⟨result, hresult, -⟩ hvariants hrules
      by_contra hover
      rw [validateRulesetChecked_eq_none.mpr ⟨hvariants, hrules, hover⟩] at hresult
      cases hresult
    · intro hnever
      cases hresult : validateRulesetChecked rt valueType definition with
      | none =>
        obtain ⟨hvariants, hrules, hover⟩ := validateRulesetChecked_eq_none.mp hresult
        exact absurd (hnever hvariants hrules) hover
      | some result =>
        refine ⟨result, rfl, ?_⟩
        rw [validateRulesetChecked_eq_some hresult, validateRuleset_eq_ok]
        have hexact : ∀ (_ : WellFormedVariants rt valueType definition)
            (_ : WellFormedRules definition),
            rolloutTotal definition.percentageRollout ≤ 10000 ↔
              exactTotal definition.percentageRollout ≤ 10000 := by
          intro hvariants hrules
          rw [Int64.le_iff_toInt_le, exactTotal_of_neverOverflows (hnever hvariants hrules)]
          rfl
        constructor
        · rintro ⟨hvariants, hrules, hrollout, htotal⟩
          exact ⟨hvariants, hrules, hrollout, (hexact hvariants hrules).mp htotal⟩
        · intro h
          exact ⟨h.variants, h.rules, h.rollout, (hexact h.variants h.rules).mpr h.total⟩

/-- Four variants, each rolled out with `2 ^ 62` basis points. -/
def overflowingRequest : PublishRulesetRequest :=
  { environmentKey := "prod"
    expectedEnvironmentRevision := "1"
    expectedFlagRevision := "1"
    fallthroughVariant := "a"
    flagKey := "flag"
    idempotencyKey := "key"
    organizationId := "org"
    percentageRollout := ["a", "b", "c", "d"].map (⟨4611686018427387904, ·⟩)
    targetingRules := []
    variants := ["a", "b", "c", "d"].map (⟨⟨some true, none, none, none, none, .boolean⟩, ·⟩) }

def overflowingRuleset : RulesetDefinition :=
  { variants := ["a", "b", "c", "d"].map (⟨·, ⟨"boolean", some true, none, none, none, none⟩⟩)
    targetingRules := []
    percentageRollout := ["a", "b", "c", "d"].map (⟨·, 4611686018427387904⟩)
    fallthroughVariant := "a" }

/-- The total of `2 ^ 64` is zero in a release build and a panic in a build with overflow checks. -/
theorem overflowing_accepted :
    rulesetDefinition overflowingRequest = some overflowingRuleset ∧
      validateRuleset (Runtime.atEpoch []) "boolean" overflowingRuleset = .ok () ∧
      validateRulesetChecked (Runtime.atEpoch []) "boolean" overflowingRuleset = none ∧
      ¬WellFormed (Runtime.atEpoch []) "boolean" overflowingRuleset :=
  ⟨rfl, rfl, rfl, fun h => absurd h.total (by decide)⟩

end LensoFlags
