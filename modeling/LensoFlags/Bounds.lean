import LensoFlags.Configured
import LensoFlags.Ordered

/-!
# Bounds on what the stores hold

The checks of a request and the validated configuration bound every call that has an effect.

Results:
1. `Call.bounded_of_granted`: a write that is granted and passes the checks of its request is bounded.
2. `effects_bounded`: over every run of a deployment with a validated configuration, so are the
   effects in the store.
-/

namespace LensoFlags

/-! ## Bounds -/

structure TargetingRuleRecord.Bounded (rule : TargetingRuleRecord) : Prop where
  ruleId : validKey rule.ruleId 128 = true
  ruleAttribute : validKey rule.ruleAttribute 128 = true
  variantKey : validKey rule.variantKey 128 = true
  comparisonValues : rule.comparisonValues.length ≤ maxComparisonValues ∧
    ∀ value ∈ rule.comparisonValues, validBoundedValue value 512 = true

structure RulesetDefinition.Bounded (definition : RulesetDefinition) : Prop where
  variants : 1 ≤ definition.variants.length ∧ definition.variants.length ≤ maxVariants
  targetingRules : definition.targetingRules.length ≤ maxTargetingRules
  percentageRollout : definition.percentageRollout.length ≤ maxVariants
  variantKeys : ∀ variant ∈ definition.variants, validKey variant.variantKey 128 = true
  rules : ∀ rule ∈ definition.targetingRules, rule.Bounded
  rolloutKeys : ∀ item ∈ definition.percentageRollout, validKey item.variantKey 128 = true
  fallthroughVariant : validKey definition.fallthroughVariant 128 = true

/-- The upper ends of the ranges of the configuration. -/
structure ContextBounded (rt : Runtime) (targetingKey : String)
    (attributes : List (String × Json)) : Prop where
  targetingKey : validOpaqueId targetingKey = true
  count : attributes.length ≤ 64
  keys : ∀ field ∈ attributes, validKey field.1 128 = true
  size : ((Json.object attributes).render rt).utf8ByteSize ≤ 65536

def TextsBounded (name : String) (description : Option String) : Prop :=
  validText name 240 = true ∧ validOptionalText description 4000 = true

def Operation.Bounded (rt : Runtime) : Operation → Prop
  | .createFlag _ flagKey name description _ =>
      validKey flagKey 128 = true ∧ TextsBounded name description
  | .updateFlag _ flagKey _ name description =>
      validKey flagKey 128 = true ∧ TextsBounded name description
  | .archiveFlag _ flagKey _ => validKey flagKey 128 = true
  | .putEnvironment _ environmentKey name _ =>
      validKey environmentKey 128 = true ∧ validText name 240 = true
  | .publishRuleset _ flagKey environmentKey _ _ definition =>
      validKey flagKey 128 = true ∧ validKey environmentKey 128 = true ∧ definition.Bounded
  | .evaluate _ environmentKey flagKey targetingKey attributes _ =>
      validKey environmentKey 128 = true ∧ validKey flagKey 128 = true ∧
        ContextBounded rt targetingKey attributes
  | .evaluateBatch _ environmentKey flagKeys targetingKey attributes _ =>
      validKey environmentKey 128 = true ∧
        (flagKeys.length ≤ 100 ∧ ∀ flagKey ∈ flagKeys, validKey flagKey 128 = true) ∧
        ContextBounded rt targetingKey attributes

structure Call.Bounded (rt : Runtime) (call : Call) : Prop where
  organization : validOpaqueId call.operation.organizationId = true
  caller : validId call.command.caller = true
  actor : validOpaqueId call.command.actor = true
  key : validKey call.command.key 200 = true
  operation : call.operation.Bounded rt

/-! ## Rulesets -/

theorem targetingRule_bounded {rule : PublishedRule} {record : TargetingRuleRecord}
    (h : targetingRuleRecord rule = some record) : record.Bounded := by
  unfold targetingRuleRecord at h
  obtain ⟨ruleId, hid, h⟩ := Option.bind_eq_some_iff.mp h
  obtain ⟨ruleAttribute, hattribute, h⟩ := Option.bind_eq_some_iff.mp h
  dsimp only at h
  split at h
  · next hchecked =>
    obtain ⟨values, hvalues, h⟩ := Option.bind_eq_some_iff.mp h
    obtain ⟨variantKey, hvariant, h⟩ := Option.bind_eq_some_iff.mp h
    cases hvalues
    cases h
    rw [Bool.and_eq_true, decide_eq_true_eq, List.all_eq_true] at hchecked
    exact ⟨validKey_of_checkedKey hid, validKey_of_checkedKey hattribute,
      validKey_of_checkedKey hvariant, hchecked⟩
  · cases h

/-- The lists that are checked before they are read. -/
theorem rulesetDefinition_lengths {request : PublishRulesetRequest}
    {definition : RulesetDefinition} (h : rulesetDefinition request = some definition) :
    (1 ≤ request.variants.length ∧ request.variants.length ≤ maxVariants) ∧
      request.targetingRules.length ≤ maxTargetingRules ∧
      request.percentageRollout.length ≤ maxVariants := by
  unfold rulesetDefinition at h
  split at h
  · cases h
  · next hchecked =>
    simp only [Bool.or_eq_true, not_or, Bool.not_eq_true', Bool.not_eq_false, Bool.and_eq_true,
      decide_eq_true_eq, Nat.not_lt] at hchecked
    obtain ⟨⟨⟨hvariants, hrules⟩, hrollout⟩, -⟩ := hchecked
    exact ⟨hvariants, hrules, hrollout⟩

theorem rulesetDefinition_bounded {request : PublishRulesetRequest} {definition : RulesetDefinition}
    (h : rulesetDefinition request = some definition) : definition.Bounded := by
  obtain ⟨hvariantsOf, hrulesOf, hrolloutOf, hfallthrough⟩ := rulesetDefinition_eq_some h
  obtain ⟨hvariants, hrules, hrollout⟩ := rulesetDefinition_lengths h
  rw [hvariantsOf.length_eq] at hvariants
  rw [hrulesOf.length_eq] at hrules
  rw [hrolloutOf.length_eq] at hrollout
  refine ⟨hvariants, hrules, hrollout, fun record hmem => ?_, fun record hmem => ?_,
    fun record hmem => ?_, hfallthrough⟩
  · obtain ⟨item, -, hrecord⟩ := Table.exists_of_mem_right hvariantsOf hmem
    obtain ⟨key, hkey, hrecord⟩ := Option.bind_eq_some_iff.mp hrecord
    cases hrecord
    exact validKey_of_checkedKey hkey
  · obtain ⟨rule, -, hrecord⟩ := Table.exists_of_mem_right hrulesOf hmem
    exact targetingRule_bounded hrecord
  · obtain ⟨item, -, hrecord⟩ := Table.exists_of_mem_right hrolloutOf hmem
    obtain ⟨key, hkey, hrecord⟩ := Option.bind_eq_some_iff.mp hrecord
    cases hrecord
    exact validKey_of_checkedKey hkey

/-! ## Calls -/

section Calls

open Locking.Program

variable {rt : Runtime} {config : PolicyConfig} {kit : Kit} {issuer publicKey : String}

theorem context_bounded {context : EvaluationContext} (hattributes : config.maxAttributes ≤ 64)
    (hbytes : config.maxContextBytes ≤ 65536) (h : validContext rt config context = true) :
    ContextBounded rt context.targetingKey context.attributes := by
  unfold validContext at h
  simp only [Bool.and_eq_true, decide_eq_true_eq, List.all_eq_true] at h
  obtain ⟨⟨⟨htargeting, hcount⟩, hkeys⟩, hsize⟩ := h
  exact ⟨htargeting, hcount.trans hattributes, hkeys, hsize.trans hbytes⟩

theorem validMutation_keys {key resource value : String} {revision : Int}
    (h : validMutation key resource value = some revision) :
    validKey key 200 = true ∧ validKey resource 128 = true := by
  unfold validMutation at h
  split at h
  · next hkeys => exact Bool.and_eq_true_iff.mp hkeys
  · cases h

/-- What passes the checks under a validated configuration is bounded. -/
theorem Request.call_bounded (hconfig : config.validate kit issuer publicKey = .ok ())
    {request : Request} {auth : Authorized} {call : Call}
    (h : request.call rt config auth = some (.write call)) :
    validKey call.command.key 200 = true ∧ call.operation.Bounded rt := by
  obtain ⟨-, -, -, -, ⟨-, hbytes⟩, ⟨-, hattributes⟩, -, hbatch⟩ :=
    PolicyConfig.validate_eq_ok.mp hconfig
  cases request with
  | evaluate request =>
    obtain ⟨hchecked, hcall⟩ := passed_eq_some.mp h
    cases hcall
    simp only [Bool.and_eq_true] at hchecked
    obtain ⟨⟨⟨hkey, henvironment⟩, hflag⟩, hcontext⟩ := hchecked
    exact ⟨hkey, henvironment, hflag, context_bounded hattributes hbytes hcontext⟩
  | evaluateBatch request =>
    obtain ⟨hchecked, hcall⟩ := passed_eq_some.mp h
    cases hcall
    simp only [Bool.and_eq_true, decide_eq_true_eq, List.all_eq_true] at hchecked
    obtain ⟨⟨⟨⟨⟨⟨hkey, henvironment⟩, -⟩, hlength⟩, -⟩, hflags⟩, hcontext⟩ := hchecked
    exact ⟨hkey, henvironment, ⟨hlength.trans hbatch, hflags⟩,
      context_bounded hattributes hbytes hcontext⟩
  | createFlag request =>
    obtain ⟨hchecked, hcall⟩ := passed_eq_some.mp h
    cases hcall
    simp only [Bool.and_eq_true] at hchecked
    obtain ⟨⟨⟨hkey, hflag⟩, hname⟩, hdescription⟩ := hchecked
    exact ⟨hkey, hflag, hname, hdescription⟩
  | updateFlag request =>
    obtain ⟨revision, hrevision, hwrite⟩ := Option.bind_eq_some_iff.mp h
    obtain ⟨htexts, hcall⟩ := passed_eq_some.mp hwrite
    cases hcall
    obtain ⟨hkey, hflag⟩ := validMutation_keys hrevision
    exact ⟨hkey, hflag, Bool.and_eq_true_iff.mp htexts⟩
  | archiveFlag request =>
    obtain ⟨revision, hrevision, hcall⟩ := Option.map_eq_some_iff.mp h
    cases hcall
    exact validMutation_keys hrevision
  | putEnvironment request =>
    obtain ⟨environmentKey, expectedRevision, idempotencyKey, name, organizationId⟩ := request
    cases expectedRevision with
    | none =>
      obtain ⟨hchecked, hcall⟩ := passed_eq_some.mp h
      cases hcall
      simp only [Bool.and_eq_true] at hchecked
      obtain ⟨⟨⟨hkey, henvironment⟩, hname⟩, -⟩ := hchecked
      exact ⟨hkey, henvironment, hname⟩
    | some value =>
      obtain ⟨revision, -, hwrite⟩ := Option.bind_eq_some_iff.mp h
      obtain ⟨hchecked, hcall⟩ := passed_eq_some.mp hwrite
      cases hcall
      simp only [Bool.and_eq_true] at hchecked
      obtain ⟨⟨⟨hkey, henvironment⟩, hname⟩, -⟩ := hchecked
      exact ⟨hkey, henvironment, hname⟩
  | publishRuleset request =>
    obtain ⟨flagRevision, hflag, hwrite⟩ := Option.bind_eq_some_iff.mp h
    obtain ⟨environmentRevision, henvironment, hwrite⟩ := Option.bind_eq_some_iff.mp hwrite
    obtain ⟨definition, hdefinition, hcall⟩ := Option.map_eq_some_iff.mp hwrite
    cases hcall
    obtain ⟨hkey, hflagKey⟩ := validMutation_keys hflag
    obtain ⟨-, henvironmentKey⟩ := Option.filter_eq_some_iff.mp henvironment
    exact ⟨hkey, hflagKey, henvironmentKey, rulesetDefinition_bounded hdefinition⟩
  | getFlag request =>
    obtain ⟨-, hcall⟩ := passed_eq_some.mp h
    cases hcall
  | listFlags request =>
    obtain ⟨after, -, hlist⟩ := Option.bind_eq_some_iff.mp h
    obtain ⟨-, hcall⟩ := passed_eq_some.mp hlist
    cases hcall
  | listEvaluationReceipts request =>
    obtain ⟨after, -, hlist⟩ := Option.bind_eq_some_iff.mp h
    obtain ⟨-, hcall⟩ := passed_eq_some.mp hlist
    cases hcall

/-- A caller is listed in the configuration, so that it is a key as well. -/
theorem caller_valid (hconfig : config.validate kit issuer publicKey = .ok ()) {context : Ctx}
    {request : Request} {auth : Authorized} {exchanges : List (Exchange Ask.Reply)}
    (h : request.Granted config context auth exchanges) : validId auth.caller = true := by
  obtain ⟨-, -, hevaluation, hadmin, -⟩ := PolicyConfig.validate_eq_ok.mp hconfig
  obtain ⟨-, hlisted⟩ := h.caller
  unfold Request.callers at hlisted
  split at hlisted
  · exact (validCallers_iff.mp hevaluation).2 _ hlisted
  · exact (validCallers_iff.mp hadmin).2 _ hlisted

theorem Call.bounded_of_granted (hconfig : config.validate kit issuer publicKey = .ok ())
    {context : Ctx} {request : Request} {auth : Authorized} {exchanges : List (Exchange Ask.Reply)}
    {call : Call} (hgranted : request.Granted config context auth exchanges)
    (hcomes : request.call rt config auth = some (.write call)) : call.Bounded rt := by
  have hcarried := Request.call_carried hcomes
  obtain ⟨horganization, hactor⟩ := hgranted.identified
  obtain ⟨hkey, hoperation⟩ := Request.call_bounded hconfig hcomes
  refine ⟨?_, ?_, ?_, hkey, hoperation⟩
  · rw [hcarried.organizationId]
    exact horganization
  · rw [hcarried.caller]
    exact caller_valid hconfig hgranted
  · rw [hcarried.actor]
    exact hactor

end Calls

/-! ## Deployments -/

section Guarantees

open Deployment Locking.Program

variable {codec : Codec} {platform : Platform} {rt : Runtime} {config : PolicyConfig} {kit : Kit}
  {issuer publicKey : String} (plugin : Plugin)

/-- Whatever has an effect in a store is bounded, over every run. -/
theorem effects_bounded (hconfig : config.validate kit issuer publicKey = .ok ())
    {s : State (plugin.backend codec rt)}
    (h : Reachable (plugin.backend codec rt) platform rt config s) :
    ∀ e ∈ (plugin.backend codec rt).log s.store, e.call.Bounded rt := by
  intro e he
  have hB : (plugin.backend codec rt).Accountable codec rt := plugin.accountable
  have hi := Inv.reachable hB.lawful h
  obtain ⟨f, auth, -, hgranted, hcomes⟩ := hi.origin (hB.called s.store hi.store e he)
  exact Call.bounded_of_granted hconfig hgranted hcomes

/-- The publication of the tour has an effect. -/
theorem effects_bounded_tour : ∃ s : State Tour.store,
    Reachable Tour.store consolePlatform .undigested tourConfig s ∧
      tourConfig.validate ⟨fun _ => true, fun _ _ => true⟩ "auth" "key" = .ok () ∧
      ∃ e ∈ Tour.store.log s.store, e.call.command.key = "key-3" ∧ e.call.Bounded .undigested := by
  obtain ⟨s, s', h⟩ := Tour.exists_toured
  have hconfig : tourConfig.validate ⟨fun _ => true, fun _ _ => true⟩ "auth" "key" = .ok () := by
    decide
  obtain ⟨call, original, hcomes, ⟨e, ⟨he, hkey, -⟩, -⟩, -⟩ :=
    h.published.once Plugin.d1.accountable h.reachable
  have hcall : call.command.key = "key-3" :=
    (Option.some.inj (Request.call_carried hcomes).key).symm
  refine ⟨s, h.reachable, hconfig, e, he, ?_,
    effects_bounded .d1 hconfig h.reachable e he⟩
  rw [← hcall]
  exact (CommandKey.mk.inj hkey).2.2.2

end Guarantees

end LensoFlags
