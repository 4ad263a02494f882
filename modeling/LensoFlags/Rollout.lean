import LensoFlags.Validation
import LensoFlags.Lib.Weighted

/-!
# The choice of a variant

1. `chooseRollout_eq`: the rollout loop is a choice by weight.
2. `chooseVariant_safe`: it answers on every ruleset the validator accepts.
3. `rollout_partition`: which buckets and how many select each entry.
4. `rampUp_stable`: who is moved when the basis points of one entry are raised.
-/

namespace LensoFlags

open Weighted (pick bound)

/-! ## Lookups -/

theorem variant_eq_ok {definition : RulesetDefinition} {key : String}
    (h : key ∈ definition.variantKeys) :
    ∃ v, variant definition key = .ok v ∧ v ∈ definition.variants ∧ v.variantKey = key := by
  unfold variant
  cases hfind : definition.variants.find? (fun v => v.variantKey == key) with
  | none =>
    obtain ⟨v, hv, hkey⟩ := List.mem_map.mp h
    exact absurd (List.find?_eq_none.mp hfind v hv) (by simp [hkey])
  | some v =>
    exact ⟨v, rfl, List.mem_of_find?_eq_some hfind, by simpa using List.find?_some hfind⟩

/-- With distinct keys, a variant is the only one with its key. -/
theorem filter_variantKey {variants : List VariantRecord}
    (hdistinct : (variants.map (·.variantKey)).Nodup) {v : VariantRecord} (hv : v ∈ variants) :
    variants.filter (fun w => w.variantKey == v.variantKey) = [v] := by
  induction variants with
  | nil => cases hv
  | cons w rest ih =>
    obtain ⟨hfresh, hrest⟩ := List.nodup_cons.mp hdistinct
    rcases List.mem_cons.mp hv with rfl | hv
    · rw [List.filter_cons, if_pos (beq_self_eq_true _)]
      have hnone : rest.filter (fun w => w.variantKey == v.variantKey) = [] :=
        List.filter_eq_nil_iff.mpr fun w hw heq =>
          hfresh (List.mem_map.mpr ⟨w, hw, beq_iff_eq.mp heq⟩)
      rw [hnone]
    · have hother : w.variantKey ≠ v.variantKey := fun heq =>
        hfresh (List.mem_map.mpr ⟨v, hv, heq.symm⟩)
      rw [List.filter_cons, if_neg fun heq => hother (beq_iff_eq.mp heq)]
      exact ih hrest hv

/-! ## The rollout loop -/

/-- The numbers the loop adds up. -/
def weights (rollout : List RolloutRecord) : List ℕ :=
  rollout.map (·.basisPoints.toInt.toNat)

theorem length_weights (rollout : List RolloutRecord) : (weights rollout).length = rollout.length :=
  List.length_map _

theorem pick_weights_le (rollout : List RolloutRecord) (point : ℕ) :
    pick (weights rollout) point ≤ rollout.length :=
  length_weights rollout ▸ Weighted.pick_le_length ..

theorem deterministicBucket_lt (rt : Runtime) (org environmentKey flagKey targetingKey : String) :
    (deterministicBucket rt org environmentKey flagKey targetingKey).toNat < 10000 := by
  unfold deterministicBucket
  rw [UInt64.toNat_mod]
  exact Nat.mod_lt _ (by decide)

theorem u64TryFrom_of_pos {n : Int64} (h : 1 ≤ n.toInt) :
    ∃ points, u64TryFrom n = .ok points ∧ points.toNat = n.toInt.toNat ∧ points.toNat < 2 ^ 63 := by
  have hle : 0 ≤ n := by
    rw [Int64.le_iff_toInt_le, Int64.toInt_zero]
    omega
  have hnat : n.toUInt64.toNat = n.toInt.toNat := Int64.toNat_toUInt64_of_le hle
  have hlt := n.toInt_lt
  exact ⟨n.toUInt64, if_neg (Int64.not_lt.mpr hle), hnat, by omega⟩

/-- What the loop answers at a position of the rollout, the fallthrough beyond the last. -/
def chosen (definition : RulesetDefinition) (rollout : List RolloutRecord) (position : ℕ) :
    Except StorageError (VariantRecord × String) :=
  match rollout[position]? with
  | some item => (variant definition item.variantKey).map (·, "percentage_rollout")
  | none => (variant definition definition.fallthroughVariant).map (·, "fallthrough")

theorem chosen_of_some {definition : RulesetDefinition} {rollout : List RolloutRecord}
    {position : ℕ} {item : RolloutRecord} (h : rollout[position]? = some item) :
    chosen definition rollout position =
      (variant definition item.variantKey).map (·, "percentage_rollout") := by
  unfold chosen
  rw [h]

theorem chosen_of_none {definition : RulesetDefinition} {rollout : List RolloutRecord}
    {position : ℕ} (h : rollout[position]? = none) :
    chosen definition rollout position =
      (variant definition definition.fallthroughVariant).map (·, "fallthrough") := by
  unfold chosen
  rw [h]

/-- The running bound stays at or below the bucket until the loop ends, so that it never wraps:
the loop is a choice by weight, whatever the total of the weights. -/
theorem chooseRollout_eq {definition : RulesetDefinition} {bucket : UInt64}
    (hbucket : bucket.toNat < 10000) {rollout : List RolloutRecord} {upper : UInt64}
    (hpositive : ∀ item ∈ rollout, 1 ≤ item.basisPoints.toInt)
    (hupper : upper.toNat ≤ bucket.toNat) :
    chooseRollout definition bucket rollout upper =
      chosen definition rollout (pick (weights rollout) (bucket.toNat - upper.toNat)) := by
  induction rollout generalizing upper with
  | nil => rfl
  | cons item rest ih =>
    obtain ⟨points, hpoints, hnat, hsmall⟩ := u64TryFrom_of_pos (hpositive item List.mem_cons_self)
    have hadd : (upper + points).toNat = upper.toNat + points.toNat := by
      rw [UInt64.toNat_add]
      exact Nat.mod_eq_of_lt (by omega)
    have hweights : weights (item :: rest) = points.toNat :: weights rest := by
      rw [weights, List.map_cons, hnat]
      rfl
    rw [chooseRollout, hpoints, hweights]
    change (if bucket < upper + points then _ else _) = _
    rcases Nat.lt_or_ge (bucket.toNat - upper.toNat) points.toNat with hlt | hge
    · have hend : bucket < upper + points := by
        rw [UInt64.lt_iff_toNat_lt, hadd]
        omega
      rw [if_pos hend, Weighted.pick_cons_of_lt hlt]
      rfl
    · have hon : ¬bucket < upper + points := by
        rw [UInt64.lt_iff_toNat_lt, hadd]
        omega
      rw [if_neg hon, Weighted.pick_cons_of_le hge,
        ih (fun i hi => hpositive i (List.mem_cons_of_mem _ hi)) (by omega), hadd, Nat.sub_add_eq]
      rfl

/-! ## Safety -/

/-- The states the loop goes through on a bucket: the entries left and the running bound. -/
inductive LoopState (definition : RulesetDefinition) (bucket : UInt64) :
    List RolloutRecord → UInt64 → Prop
  | start : LoopState definition bucket definition.percentageRollout 0
  | next {item : RolloutRecord} {rest : List RolloutRecord} {upper points : UInt64} :
      LoopState definition bucket (item :: rest) upper →
      u64TryFrom item.basisPoints = .ok points → ¬bucket < upper + points →
      LoopState definition bucket rest (upper + points)

theorem LoopState.bounded {definition : RulesetDefinition} {bucket : UInt64}
    {rest : List RolloutRecord} {upper : UInt64} (h : LoopState definition bucket rest upper) :
    (∀ item ∈ rest, item ∈ definition.percentageRollout) ∧ upper ≤ bucket := by
  induction h with
  | start => exact ⟨fun _ h => h, UInt64.zero_le⟩
  | next _ _ hon ih =>
    exact ⟨fun item hitem => ih.1 item (List.mem_cons_of_mem _ hitem), UInt64.not_lt.mp hon⟩

/-- The loop comes from each of them to what it comes to from the start. -/
theorem LoopState.resumes {definition : RulesetDefinition} {bucket : UInt64}
    {rest : List RolloutRecord} {upper : UInt64} (h : LoopState definition bucket rest upper) :
    chooseRollout definition bucket definition.percentageRollout 0 =
      chooseRollout definition bucket rest upper := by
  induction h with
  | start => rfl
  | next _ hpoints hon ih =>
    rw [ih, chooseRollout, hpoints]
    exact if_neg hon

/-- The key at each position of the rollout, and the default, is the key of a variant. -/
theorem chosen_eq_ok {definition : RulesetDefinition}
    (hknown : ∀ item ∈ definition.percentageRollout, item.variantKey ∈ definition.variantKeys)
    (hdefault : definition.fallthroughVariant ∈ definition.variantKeys) (position : ℕ) :
    ∃ v reason, chosen definition definition.percentageRollout position = .ok (v, reason) ∧
      v ∈ definition.variants := by
  cases hitem : definition.percentageRollout[position]? with
  | none =>
    obtain ⟨v, hv, hmem, -⟩ := variant_eq_ok hdefault
    rw [chosen_of_none hitem, hv]
    exact ⟨v, _, rfl, hmem⟩
  | some item =>
    obtain ⟨v, hv, hmem, -⟩ := variant_eq_ok (hknown item (List.mem_of_getElem? hitem))
    rw [chosen_of_some hitem, hv]
    exact ⟨v, _, rfl, hmem⟩

theorem variant_of_map {definition : RulesetDefinition} {key reason reason' : String}
    {v : VariantRecord} (h : (variant definition key).map (·, reason) = .ok (v, reason')) :
    v ∈ definition.variants ∧ reason' = reason := by
  unfold variant at h
  split at h
  · next hfind =>
    cases h
    exact ⟨List.mem_of_find?_eq_some hfind, rfl⟩
  · cases h

theorem chooseRollout_chosen {definition : RulesetDefinition} {bucket upper : UInt64}
    {rollout : List RolloutRecord} {v : VariantRecord} {reason : String}
    (h : chooseRollout definition bucket rollout upper = .ok (v, reason)) :
    v ∈ definition.variants ∧ reason ∈ ["target_match", "percentage_rollout", "fallthrough"] := by
  induction rollout generalizing upper with
  | nil =>
    obtain ⟨hv, rfl⟩ := variant_of_map h
    exact ⟨hv, by simp⟩
  | cons item rest ih =>
    unfold chooseRollout at h
    cases hpoints : u64TryFrom item.basisPoints with
    | error e =>
      rw [hpoints] at h
      cases h
    | ok points =>
      rw [hpoints] at h
      change (if bucket < upper + points then _ else _) = _ at h
      split at h
      · obtain ⟨hv, rfl⟩ := variant_of_map h
        exact ⟨hv, by simp⟩
      · exact ih h

variable {rt : Runtime} {valueType : String} {definition : RulesetDefinition}
  {org environmentKey flagKey targetingKey : String} {attributes : List (String × Json)}

/-- The attribute of the rule is present and matches. -/
def Applies (rt : Runtime) (attributes : List (String × Json)) (rule : TargetingRuleRecord) : Bool :=
  (attributes.lookup rule.ruleAttribute).any fun value => ruleMatches rt value rule

theorem chooseVariant_of_rule {rule : TargetingRuleRecord}
    (hfirst : definition.targetingRules.find? (Applies rt attributes) = some rule) :
    chooseVariant rt org environmentKey flagKey targetingKey attributes definition =
      (variant definition rule.variantKey).map (·, "target_match") := by
  unfold chooseVariant
  split
  · rename_i heq
    rw [Option.some.inj (heq.symm.trans hfirst)]
  · rename_i heq
    exact absurd (heq.symm.trans hfirst) (Option.some_ne_none rule).symm

theorem chooseVariant_of_none (h : WellFormedRollout definition)
    (hnone : definition.targetingRules.find? (Applies rt attributes) = none) :
    chooseVariant rt org environmentKey flagKey targetingKey attributes definition =
      chosen definition definition.percentageRollout (pick (weights definition.percentageRollout)
        (deterministicBucket rt org environmentKey flagKey targetingKey).toNat) := by
  unfold chooseVariant
  split
  · rename_i heq
    exact absurd (heq.symm.trans hnone) (Option.some_ne_none _)
  · exact chooseRollout_eq (deterministicBucket_lt ..) h.positive (Nat.zero_le _)

/-- An accepted ruleset answers every context, with a variant of its own. -/
theorem chooseVariant_eq_ok (hvariants : WellFormedVariants rt valueType definition)
    (hrules : WellFormedRules definition) (hrollout : WellFormedRollout definition) :
    ∃ v reason,
      chooseVariant rt org environmentKey flagKey targetingKey attributes definition =
        .ok (v, reason) ∧ v ∈ definition.variants := by
  cases hfind : definition.targetingRules.find? (Applies rt attributes) with
  | none =>
    rw [chooseVariant_of_none hrollout hfind]
    exact chosen_eq_ok hrollout.known hvariants.default _
  | some rule =>
    obtain ⟨v, hv, hmem, -⟩ := variant_eq_ok (hrules.known rule (List.mem_of_find?_eq_some hfind))
    rw [chooseVariant_of_rule hfind, hv]
    exact ⟨v, _, rfl, hmem⟩

/-- What is chosen is a variant of the ruleset, for one of three reasons. -/
theorem chooseVariant_chosen {v : VariantRecord} {reason : String}
    (h : chooseVariant rt org environmentKey flagKey targetingKey attributes definition =
      .ok (v, reason)) :
    v ∈ definition.variants ∧ reason ∈ ["target_match", "percentage_rollout", "fallthrough"] := by
  unfold chooseVariant at h
  split at h
  · obtain ⟨hv, rfl⟩ := variant_of_map h
    exact ⟨hv, List.mem_cons_self⟩
  · exact chooseRollout_chosen h

theorem chooseVariant_of_valid (hvalid : validateRuleset rt valueType definition = .ok ())
    (org environmentKey flagKey targetingKey : String) (attributes : List (String × Json)) :
    ∃ v reason,
      chooseVariant rt org environmentKey flagKey targetingKey attributes definition =
        .ok (v, reason) ∧ v ∈ definition.variants := by
  obtain ⟨hvariants, hrules, hrollout, -⟩ := validateRuleset_eq_ok.mp hvalid
  exact chooseVariant_eq_ok hvariants hrules hrollout

/-- Nothing the validator lets through fails in the chooser. -/
theorem chooseVariant_safe (rt : Runtime) (valueType : String) (definition : RulesetDefinition)
    (hvalid : validateRuleset rt valueType definition = .ok ())
    (org environmentKey flagKey targetingKey : String) (attributes : List (String × Json)) :
    (∀ item rest upper,
      LoopState definition (deterministicBucket rt org environmentKey flagKey targetingKey)
          (item :: rest) upper →
        ∃ points, u64TryFrom item.basisPoints = .ok points ∧
          upper.toNat + points.toNat < 2 ^ 64) ∧
    (∀ key, key = definition.fallthroughVariant ∨
        (∃ rule ∈ definition.targetingRules, rule.variantKey = key) ∨
        (∃ item ∈ definition.percentageRollout, item.variantKey = key) →
      ∃ v, variant definition key = .ok v) ∧
    ∃ v reason,
      chooseVariant rt org environmentKey flagKey targetingKey attributes definition =
          .ok (v, reason) ∧
        v ∈ definition.variants ∧ validValue rt valueType v.value ∧
        definition.variants.filter (fun w => w.variantKey == v.variantKey) = [v] := by
  obtain ⟨hvariants, hrules, hrollout, -⟩ := validateRuleset_eq_ok.mp hvalid
  refine ⟨fun item rest upper hstate => ?_, fun key hkey => ?_, ?_⟩
  · obtain ⟨hitems, hupper⟩ := hstate.bounded
    obtain ⟨points, hpoints, -, hsmall⟩ :=
      u64TryFrom_of_pos (hrollout.positive item (hitems item List.mem_cons_self))
    have hbucket := deterministicBucket_lt rt org environmentKey flagKey targetingKey
    have hle := UInt64.le_iff_toNat_le.mp hupper
    exact ⟨points, hpoints, by omega⟩
  · have hknown : key ∈ definition.variantKeys := by
      rcases hkey with rfl | ⟨rule, hrule, rfl⟩ | ⟨item, hitem, rfl⟩
      · exact hvariants.default
      · exact hrules.known rule hrule
      · exact hrollout.known item hitem
    obtain ⟨v, hv, -⟩ := variant_eq_ok hknown
    exact ⟨v, hv⟩
  · obtain ⟨v, reason, hchoice, hmem⟩ := chooseVariant_eq_ok hvariants hrules hrollout
    exact ⟨v, reason, hchoice, hmem, hvariants.typed v hmem,
      filter_variantKey hvariants.distinct hmem⟩

/-- One rule, a quarter of the buckets and a fallthrough. -/
def gradualRuleset : RulesetDefinition :=
  { variants := [⟨"on", ⟨"boolean", some true, none, none, none, none⟩⟩,
      ⟨"off", ⟨"boolean", some false, none, none, none, none⟩⟩]
    targetingRules := [⟨"beta", "plan", "equals", ["beta"], "on"⟩]
    percentageRollout := [⟨"on", 2500⟩]
    fallthroughVariant := "off" }

theorem chooseVariant_safe_gradual :
    ∃ v reason, chooseVariant (Runtime.atEpoch []) "org" "prod" "flag" "user-1"
        [("plan", .string "beta")] gradualRuleset = .ok (v, reason) ∧
      v ∈ gradualRuleset.variants ∧ validValue (Runtime.atEpoch []) "boolean" v.value ∧
      gradualRuleset.variants.filter (fun w => w.variantKey == v.variantKey) = [v] :=
  (chooseVariant_safe (Runtime.atEpoch []) "boolean" gradualRuleset rfl "org" "prod" "flag"
    "user-1" [("plan", .string "beta")]).2.2

/-! ## The entry that answers -/

/-- The answer is the one of an entry of the rollout, by its position. The fallthrough counts as
the position after the last entry. -/
inductive Answers (definition : RulesetDefinition)
    (answer : Except StorageError (VariantRecord × String)) : ℕ → Prop
  | entry {position : ℕ} {item : RolloutRecord} {v : VariantRecord} :
      definition.percentageRollout[position]? = some item → v ∈ definition.variants →
      v.variantKey = item.variantKey → answer = .ok (v, "percentage_rollout") →
      Answers definition answer position
  | default {v : VariantRecord} :
      v ∈ definition.variants → v.variantKey = definition.fallthroughVariant →
      answer = .ok (v, "fallthrough") →
      Answers definition answer definition.percentageRollout.length

theorem answers_chosen (hvariants : WellFormedVariants rt valueType definition)
    (hrollout : WellFormedRollout definition) {position : ℕ}
    (hposition : position ≤ definition.percentageRollout.length) :
    Answers definition (chosen definition definition.percentageRollout position) position := by
  rcases Nat.lt_or_eq_of_le hposition with hlt | rfl
  · have hitem := List.getElem?_eq_getElem hlt
    obtain ⟨v, hv, hmem, hkey⟩ := variant_eq_ok (hrollout.known _ (List.getElem_mem hlt))
    refine .entry hitem hmem hkey ?_
    rw [chosen_of_some hitem, hv]
    rfl
  · obtain ⟨v, hv, hmem, hkey⟩ := variant_eq_ok hvariants.default
    refine .default hmem hkey ?_
    rw [chosen_of_none (List.getElem?_eq_none (Nat.le_refl _)), hv]
    rfl

/-- Rollout keys are distinct, so that an answer is the one of at most one position. -/
theorem Answers.unique (hrollout : WellFormedRollout definition)
    {answer : Except StorageError (VariantRecord × String)} {i j : ℕ}
    (hi : Answers definition answer i) (hj : Answers definition answer j) : i = j := by
  cases hi with
  | entry hitem hv hkey hanswer =>
    cases hj with
    | entry hitem' hv' hkey' hanswer' =>
      rw [hanswer] at hanswer'
      cases hanswer'
      have hkeys : (definition.percentageRollout.map (·.variantKey))[i]? =
          (definition.percentageRollout.map (·.variantKey))[j]? := by
        rw [List.getElem?_map, List.getElem?_map, hitem, hitem', Option.map_some, Option.map_some,
          ← hkey, hkey']
      refine (List.getElem?_inj ?_ hrollout.distinct).mp hkeys
      rw [List.length_map]
      exact (List.getElem?_eq_some_iff.mp hitem).1
    | default hv' hkey' hanswer' =>
      rw [hanswer] at hanswer'
      exact absurd (Prod.mk.inj (Except.ok.inj hanswer')).2 (by decide)
  | default hv hkey hanswer =>
    cases hj with
    | entry hitem' hv' hkey' hanswer' =>
      rw [hanswer] at hanswer'
      exact absurd (Prod.mk.inj (Except.ok.inj hanswer')).2 (by decide)
    | default hv' hkey' hanswer' => rfl

theorem Answers.reason_ne {answer : Except StorageError (VariantRecord × String)} {i : ℕ}
    (h : Answers definition answer i) (v : VariantRecord) : answer ≠ .ok (v, "target_match") := by
  intro htarget
  cases h with
  | entry _ _ _ hanswer =>
    exact absurd (Prod.mk.inj (Except.ok.inj (hanswer.symm.trans htarget))).2 (by decide)
  | default _ _ hanswer =>
    exact absurd (Prod.mk.inj (Except.ok.inj (hanswer.symm.trans htarget))).2 (by decide)

theorem answers_chosen_iff (hvariants : WellFormedVariants rt valueType definition)
    (hrollout : WellFormedRollout definition) {position i : ℕ}
    (hposition : position ≤ definition.percentageRollout.length) :
    Answers definition (chosen definition definition.percentageRollout position) i ↔
      position = i := by
  have hanswers := answers_chosen hvariants hrollout hposition
  exact ⟨fun h => hanswers.unique hrollout h, fun h => h ▸ hanswers⟩

theorem answers_chooseRollout_iff (hvariants : WellFormedVariants rt valueType definition)
    (hrollout : WellFormedRollout definition) {b : ℕ} (hb : b < 10000) (i : ℕ) :
    Answers definition
        (chooseRollout definition (UInt64.ofNat b) definition.percentageRollout 0) i ↔
      pick (weights definition.percentageRollout) b = i := by
  have hofNat : (UInt64.ofNat b).toNat = b :=
    UInt64.toNat_ofNat_of_lt' (Nat.lt_trans hb (by decide))
  have hchosen := @chooseRollout_eq definition (UInt64.ofNat b) (hofNat.symm ▸ hb)
    definition.percentageRollout 0 hrollout.positive (Nat.zero_le _)
  rw [hchosen, hofNat]
  exact answers_chosen_iff hvariants hrollout (pick_weights_le ..)

/-! ## The partition of the buckets -/

/-- The bounds of the published request schema. -/
structure WithinSchema (definition : RulesetDefinition) : Prop where
  length : definition.percentageRollout.length ≤ 32
  points : ∀ item ∈ definition.percentageRollout,
    1 ≤ item.basisPoints.toInt ∧ item.basisPoints.toInt ≤ 10000

theorem sum_weights {rollout : List RolloutRecord}
    (hpositive : ∀ item ∈ rollout, 1 ≤ item.basisPoints.toInt) :
    ((weights rollout).sum : ℤ) = exactTotal rollout := by
  induction rollout with
  | nil => rfl
  | cons item rest ih =>
    have hitem := hpositive item List.mem_cons_self
    have hrest := ih fun i hi => hpositive i (List.mem_cons_of_mem _ hi)
    rw [exactTotal_cons, ← hrest, weights, List.map_cons, List.sum_cons, Int.natCast_add,
      Int.toNat_of_nonneg (by omega)]
    rfl

theorem exactTotal_le {rollout : List RolloutRecord}
    (hpoints : ∀ item ∈ rollout, item.basisPoints.toInt ≤ 10000) :
    exactTotal rollout ≤ 10000 * rollout.length := by
  induction rollout with
  | nil => exact Int.le_refl 0
  | cons item rest ih =>
    have hitem := hpoints item List.mem_cons_self
    have hrest := ih fun i hi => hpoints i (List.mem_cons_of_mem _ hi)
    rw [exactTotal_cons, List.length_cons, Int.natCast_add]
    omega

/-- Within the bounds of the schema the total of an accepted rollout has not wrapped. -/
theorem sum_weights_le (hrollout : WellFormedRollout definition)
    (htotal : rolloutTotal definition.percentageRollout ≤ 10000)
    (hschema : WithinSchema definition) : (weights definition.percentageRollout).sum ≤ 10000 := by
  have hsum := sum_weights hrollout.positive
  have hle := exactTotal_le fun item hitem => (hschema.points item hitem).2
  have hlength := hschema.length
  rcases (rolloutTotal_le_iff hrollout.positive).mp htotal with h | ⟨-, hwraps⟩
  · omega
  · omega

open scoped Classical in
/-- The buckets are divided between the entries by the sums of their basis points, what is left
goes to the fallthrough; a matching rule comes before any bucket. -/
theorem rollout_partition (rt : Runtime) (valueType : String) (definition : RulesetDefinition)
    (hvalid : validateRuleset rt valueType definition = .ok ())
    (hschema : WithinSchema definition)
    (org environmentKey flagKey targetingKey : String) (attributes : List (String × Json)) :
    let rollout := definition.percentageRollout
    let S := bound (weights rollout)
    let bucket := (deterministicBucket rt org environmentKey flagKey targetingKey).toNat
    let answer := chooseVariant rt org environmentKey flagKey targetingKey attributes definition
    let byBucket := fun b => chooseRollout definition (UInt64.ofNat b) rollout 0
    ((∀ rule ∈ definition.targetingRules, ¬Applies rt attributes rule) →
      (∀ i < rollout.length, Answers definition answer i ↔ S i ≤ bucket ∧ bucket < S (i + 1)) ∧
      (Answers definition answer rollout.length ↔ S rollout.length ≤ bucket)) ∧
    (∀ b < 10000, ∃! i, i ≤ rollout.length ∧ S i ≤ b ∧ (i < rollout.length → b < S (i + 1))) ∧
    (bucket < 10000 ∧ S rollout.length ≤ 10000) ∧
    (∀ i (hi : i < rollout.length),
      (((Finset.range 10000).filter fun b => Answers definition (byBucket b) i).card : ℤ) =
        rollout[i].basisPoints.toInt) ∧
    ((Finset.range 10000).filter fun b => Answers definition (byBucket b) rollout.length).card =
      10000 - S rollout.length ∧
    (∀ before rule after, definition.targetingRules = before ++ rule :: after →
      (∀ earlier ∈ before, ¬Applies rt attributes earlier) → Applies rt attributes rule →
      ∃ v ∈ definition.variants, v.variantKey = rule.variantKey ∧
        answer = .ok (v, "target_match")) := by
  obtain ⟨hvariants, hrules, hrollout, htotal⟩ := validateRuleset_eq_ok.mp hvalid
  intro rollout S bucket answer byBucket
  have hlength := length_weights rollout
  have hsum := sum_weights_le hrollout htotal hschema
  have hend : S rollout.length = (weights rollout).sum := by
    rw [← hlength]
    exact Weighted.bound_length _
  have hcount : ∀ i, ((Finset.range 10000).filter fun b => Answers definition (byBucket b) i) =
      (Finset.range 10000).filter fun b => pick (weights rollout) b = i := fun i =>
    Finset.filter_congr fun b hb =>
      answers_chooseRollout_iff hvariants hrollout (Finset.mem_range.mp hb) i
  refine ⟨fun hnone => ?_, fun b hb => ?_, ⟨deterministicBucket_lt .., hend ▸ hsum⟩,
    fun i hi => ?_, ?_, ?_⟩
  -- No rule applies: the bucket picks the position.
  · have hanswer : answer = chosen definition rollout (pick (weights rollout) bucket) :=
      chooseVariant_of_none hrollout (List.find?_eq_none.mpr hnone)
    rw [hanswer]
    refine ⟨fun i hi => ?_, ?_⟩
    · rw [answers_chosen_iff hvariants hrollout (pick_weights_le ..)]
      exact Weighted.pick_eq_iff (hlength.symm ▸ hi)
    · rw [answers_chosen_iff hvariants hrollout (pick_weights_le ..), hend, ← hlength]
      exact Weighted.pick_eq_length_iff
  · have := Weighted.existsUnique_position (weights rollout) b
    rwa [hlength] at this
  · have hi' : i < (weights rollout).length := hlength.symm ▸ hi
    have hpositive := hrollout.positive _ (List.getElem_mem hi)
    have hweight : (weights rollout)[i] = rollout[i].basisPoints.toInt.toNat := by
      simp [weights]
    rw [hcount, Weighted.card_pick hi' hsum, hweight]
    exact Int.toNat_of_nonneg (by omega)
  · rw [hcount, hend, ← hlength]
    exact Weighted.card_pick_length
  · intro before rule after hsplit hbefore hrule
    -- The first rule that applies answers before the bucket is looked at.
    have hfind : definition.targetingRules.find? (Applies rt attributes) = some rule := by
      rw [hsplit, List.find?_append, List.find?_eq_none.mpr hbefore, Option.none_or,
        List.find?_cons_of_pos hrule]
    have hmem : rule ∈ definition.targetingRules := List.mem_of_find?_eq_some hfind
    obtain ⟨v, hv, hvmem, hkey⟩ := variant_eq_ok (hrules.known rule hmem)
    refine ⟨v, hvmem, hkey, ?_⟩
    change chooseVariant .. = _
    rw [chooseVariant_of_rule hfind, hv]
    rfl

open scoped Classical in
theorem rollout_partition_gradual :
    (((Finset.range 10000).filter fun b => Answers gradualRuleset
      (chooseRollout gradualRuleset (UInt64.ofNat b) gradualRuleset.percentageRollout 0) 0).card :
        ℤ) = 2500 :=
  (rollout_partition (Runtime.atEpoch []) "boolean" gradualRuleset rfl
    ⟨by decide, by decide⟩ "org" "prod" "flag" "user-1" []).2.2.2.1 0 (by decide)

/-! ## Ramping up -/

/-- The same ruleset with other basis points at one position of the rollout. -/
def RulesetDefinition.withBasisPoints (definition : RulesetDefinition) (position : ℕ)
    (basisPoints : Int64) : RulesetDefinition :=
  { definition with
    percentageRollout :=
      definition.percentageRollout.modify position fun item => { item with basisPoints } }

theorem weights_withBasisPoints {position : ℕ} {basisPoints : Int64} :
    weights (definition.withBasisPoints position basisPoints).percentageRollout =
      (weights definition.percentageRollout).set position basisPoints.toInt.toNat := by
  change weights (definition.percentageRollout.modify ..) = _
  unfold weights
  refine List.ext_getElem? fun i => ?_
  rw [List.getElem?_map, List.getElem?_modify, List.getElem?_set, List.getElem?_map,
    List.length_map]
  by_cases hi : position = i
  · subst hi
    cases h : definition.percentageRollout[position]? with
    | none => simpa using List.getElem?_eq_none_iff.mp h
    | some item => simp [(List.getElem?_eq_some_iff.mp h).1]
  · simp [hi]

/-- Positions keep their keys, so that both rulesets look up the same variants. -/
theorem chosen_withBasisPoints {position i : ℕ} {basisPoints : Int64} :
    chosen (definition.withBasisPoints position basisPoints)
        (definition.withBasisPoints position basisPoints).percentageRollout i =
      chosen definition definition.percentageRollout i := by
  have hitem : (definition.withBasisPoints position basisPoints).percentageRollout[i]? =
      definition.percentageRollout[i]?.map fun item =>
        if position = i then { item with basisPoints } else item := by
    change (definition.percentageRollout.modify ..)[i]? = _
    rw [List.getElem?_modify]
    split <;> simp
  cases h : definition.percentageRollout[i]? with
  | none =>
    rw [chosen_of_none h, chosen_of_none (by rw [hitem, h]; rfl)]
    rfl
  | some item =>
    rw [chosen_of_some h, chosen_of_some (by rw [hitem, h]; rfl)]
    split <;> rfl

/-- Raising the basis points of entry `k`: a context that matches a rule, or that falls to an entry
up to `k`, keeps its answer; another moves to an entry from `k` up to the one it had. -/
theorem rampUp_stable (rt : Runtime) (valueType valueType' : String)
    (definition : RulesetDefinition) (k : ℕ) (basisPoints : Int64)
    (hvalid : validateRuleset rt valueType definition = .ok ())
    (hvalid' : validateRuleset rt valueType' (definition.withBasisPoints k basisPoints) = .ok ())
    (hk : k < definition.percentageRollout.length)
    (hraised : definition.percentageRollout[k].basisPoints ≤ basisPoints)
    (org environmentKey flagKey targetingKey : String) (attributes : List (String × Json)) :
    let raised := definition.withBasisPoints k basisPoints
    let answer := chooseVariant rt org environmentKey flagKey targetingKey attributes definition
    let answer' := chooseVariant rt org environmentKey flagKey targetingKey attributes raised
    (∀ v, answer = .ok (v, "target_match") → answer' = .ok (v, "target_match")) ∧
    (∀ j ≤ k, Answers definition answer j → answer' = answer ∧ Answers raised answer' j) ∧
    (∀ j, k < j → Answers definition answer j → ∃ j', k ≤ j' ∧ j' ≤ j ∧ Answers raised answer' j') := by
  obtain ⟨hvariants, hrules, hrollout, -⟩ := validateRuleset_eq_ok.mp hvalid
  obtain ⟨hvariants', -, hrollout', -⟩ := validateRuleset_eq_ok.mp hvalid'
  intro raised answer answer'
  cases hfind : definition.targetingRules.find? (Applies rt attributes) with
  | some rule =>
    -- The rules are those of both, and no position answers with a match.
    have hanswer : answer = (variant definition rule.variantKey).map (·, "target_match") :=
      chooseVariant_of_rule hfind
    have hanswer' : answer' = answer := by
      rw [hanswer]
      exact @chooseVariant_of_rule rt raised org environmentKey flagKey targetingKey attributes
        rule hfind
    obtain ⟨v, hv, -⟩ := variant_eq_ok (hrules.known rule (List.mem_of_find?_eq_some hfind))
    have htarget : answer = .ok (v, "target_match") := by
      rw [hanswer, hv]
      rfl
    exact ⟨fun w hw => hanswer'.trans hw, fun j _ hj => absurd htarget (hj.reason_ne v),
      fun j _ hj => absurd htarget (hj.reason_ne v)⟩
  | none =>
    let bucket := (deterministicBucket rt org environmentKey flagKey targetingKey).toNat
    let position := pick (weights definition.percentageRollout) bucket
    let position' := pick (weights raised.percentageRollout) bucket
    have hanswer : answer = chosen definition definition.percentageRollout position :=
      chooseVariant_of_none hrollout hfind
    have hanswer' : answer' = chosen raised raised.percentageRollout position' :=
      chooseVariant_of_none hrollout' hfind
    have hanswers : Answers definition answer position :=
      hanswer ▸ answers_chosen hvariants hrollout (pick_weights_le ..)
    have hanswers' : Answers raised answer' position' :=
      hanswer' ▸ answers_chosen hvariants' hrollout' (pick_weights_le ..)
    have hk' : k < (weights definition.percentageRollout).length := by
      rwa [weights, List.length_map]
    have hweight : (weights definition.percentageRollout)[k] ≤ basisPoints.toInt.toNat := by
      have hle := Int64.le_iff_toInt_le.mp hraised
      simp only [weights, List.getElem_map]
      omega
    refine ⟨fun v hv => absurd hv (hanswers.reason_ne v), fun j hj h => ?_, fun j hj h => ?_⟩
    · obtain rfl := hanswers.unique hrollout h
      have hsame : position' = position := by
        change pick (weights (definition.withBasisPoints k basisPoints).percentageRollout) _ = _
        rw [weights_withBasisPoints]
        exact Weighted.pick_set_of_le hk' hweight hj
      refine ⟨?_, hsame ▸ hanswers'⟩
      rw [hanswer, hanswer', hsame]
      exact chosen_withBasisPoints
    · obtain rfl := hanswers.unique hrollout h
      have hmoved : k ≤ position' ∧ position' ≤ position := by
        change k ≤ pick (weights (definition.withBasisPoints k basisPoints).percentageRollout) _ ∧
          pick (weights (definition.withBasisPoints k basisPoints).percentageRollout) _ ≤ _
        rw [weights_withBasisPoints]
        exact Weighted.pick_set_of_lt hk' hweight hj
      exact ⟨position', hmoved.1, hmoved.2, hanswers'⟩

theorem rampUp_stable_gradual :
    chooseVariant (Runtime.atEpoch []) "org" "prod" "flag" "user-1" []
        (gradualRuleset.withBasisPoints 0 5000) =
      chooseVariant (Runtime.atEpoch []) "org" "prod" "flag" "user-1" [] gradualRuleset :=
  ((rampUp_stable (Runtime.atEpoch []) "boolean" "boolean" gradualRuleset 0 5000 rfl rfl
    (by decide) (by decide) "org" "prod" "flag" "user-1" []).2.1 0 (Nat.le_refl 0)
    (.entry rfl List.mem_cons_self rfl rfl)).1

end LensoFlags
