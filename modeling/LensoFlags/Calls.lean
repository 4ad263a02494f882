import LensoFlags.Authorization
import LensoFlags.Abstract.Effect
import LensoFlags.Validation

/-!
# The calls of the service

Behind its authorization a request comes to one call of the store, if its arguments pass the checks.

Results:
1. `serve_calls`: the service makes no other calls.
2. `Request.call_lawful`: what their arguments satisfy.
-/

namespace LensoFlags

open Locking.Program

/-- The call of a request, once its arguments have passed. -/
def passed (condition : Bool) (call : StoreCall) : Option StoreCall :=
  if condition then some call else none

/-- The call of the store that a request comes to. -/
def Request.call (rt : Runtime) (config : PolicyConfig) (auth : Authorized) :
    Request → Option StoreCall
  | .evaluate request =>
      passed (validKey request.evaluationId 200 && validKey request.environmentKey 128
          && validKey request.flagKey 128 && validContext rt config request.context)
        (.write ⟨command auth request.evaluationId (requestHash rt request.toJson),
          .evaluate request.organizationId request.environmentKey request.flagKey
            request.context.targetingKey request.context.attributes
            (contextHash rt request.context)⟩)
  | .evaluateBatch request =>
      passed (validKey request.batchId 200 && validKey request.environmentKey 128
          && !request.flagKeys.isEmpty && request.flagKeys.length ≤ config.maxBatchSize
          && (keySet request.flagKeys).length == request.flagKeys.length
          && request.flagKeys.all (validKey · 128) && validContext rt config request.context)
        (.write ⟨command auth request.batchId (requestHash rt request.toJson),
          .evaluateBatch request.organizationId request.environmentKey request.flagKeys
            request.context.targetingKey request.context.attributes
            (contextHash rt request.context)⟩)
  | .createFlag request =>
      passed (validKey request.idempotencyKey 200 && validKey request.flagKey 128
          && validText request.name 240 && validOptionalText request.description 4000)
        (.write ⟨command auth request.idempotencyKey (requestHash rt request.toJson),
          .createFlag request.organizationId request.flagKey request.name request.description
            request.valueType.wireName⟩)
  | .getFlag request =>
      passed (validKey request.flagKey 128) (.getFlag request.organizationId request.flagKey)
  | .listFlags request =>
      (parseCursor request.after).bind fun after =>
        passed (1 ≤ request.limit && request.limit ≤ 200)
          (.listFlags request.organizationId request.includeArchived after
            (request.limit + 1).toInt)
  | .updateFlag request =>
      (validMutation request.idempotencyKey request.flagKey request.expectedRevision).bind
        fun revision =>
          passed (validText request.name 240 && validOptionalText request.description 4000)
            (.write ⟨command auth request.idempotencyKey (requestHash rt request.toJson),
              .updateFlag request.organizationId request.flagKey revision request.name
                request.description⟩)
  | .archiveFlag request =>
      (validMutation request.idempotencyKey request.flagKey request.expectedRevision).map
        fun revision =>
          .write ⟨command auth request.idempotencyKey (requestHash rt request.toJson),
            .archiveFlag request.organizationId request.flagKey revision⟩
  | .putEnvironment request =>
      let write (revision : Option Int) :=
        passed (validKey request.idempotencyKey 200 && validKey request.environmentKey 128
            && validText request.name 240
            && request.expectedRevision.isSome == revision.isSome)
          (.write ⟨command auth request.idempotencyKey (requestHash rt request.toJson),
            .putEnvironment request.organizationId request.environmentKey request.name revision⟩)
      match request.expectedRevision with
      | none => write none
      | some value => (parseRevision value).bind fun revision => write (some revision)
  | .publishRuleset request =>
      (validMutation request.idempotencyKey request.flagKey request.expectedFlagRevision).bind
        fun flagRevision =>
          ((parseRevision request.expectedEnvironmentRevision).filter fun _ =>
              validKey request.environmentKey 128).bind fun environmentRevision =>
            (rulesetDefinition request).map fun definition =>
              .write ⟨command auth request.idempotencyKey (requestHash rt request.toJson),
                .publishRuleset request.organizationId request.flagKey request.environmentKey
                  flagRevision environmentRevision definition⟩
  | .listEvaluationReceipts request =>
      (parseCursor request.after).bind fun after =>
        passed (1 ≤ request.limit && request.limit ≤ 200
            && request.flagKey.all (validKey · 128) && request.environmentKey.all (validKey · 128))
          (.listReceipts request.organizationId request.flagKey request.environmentKey after
            (request.limit + 1).toInt)

section Calls

variable {platform : Platform} {rt : Runtime} {config : PolicyConfig} {context : Ctx}
  {callers : List String} {capability operation organizationId permission : String} {E α : Type}

theorem passed_eq_some {condition : Bool} {call call' : StoreCall} :
    passed condition call = some call' ↔ condition = true ∧ call = call' := by
  unfold passed
  split <;> simp_all

/-- A call of an operation comes behind its authorization. -/
theorem gated_runs {f : AuthorizationFailure → E} {wrap : E → ServiceError}
    {respond : α → ServiceResponse} {rest : Authorized → Service E α}
    {trace : List (Exchange Ask.Reply)} {result : Except ServiceError ServiceResponse}
    (h : Runs (respond <$> ((FeatureFlags.authorize platform context callers capability operation
      organizationId permission).mapError f >>= rest).mapError wrap) trace result)
    {exchange : Exchange Ask.Reply} (hmem : exchange ∈ trace) (hstore : exchange.1.IsStore) :
    ∃ auth first second inner,
      Runs (FeatureFlags.authorize platform context callers capability operation organizationId
        permission) first (.ok auth) ∧
      Runs (rest auth) second inner ∧ exchange ∈ second := by
  obtain ⟨inner, hinner, -⟩ := runs_endpoint h
  rcases runs_bind.mp hinner with ⟨e, -, hfailed⟩ | ⟨first, second, auth, rfl, hfirst, hsecond⟩
  · obtain ⟨_, hauthorize, -⟩ := runs_mapError.mp hfailed
    exact absurd hstore (authorize_never.runs hauthorize exchange hmem)
  · obtain ⟨authorized, hauthorize, hauth⟩ := runs_mapError.mp hfirst
    cases authorized with
    | error failure => cases hauth
    | ok =>
      cases hauth
      refine ⟨auth, first, second, _, hauthorize, hsecond, ?_⟩
      exact (List.mem_append.mp hmem).resolve_left fun hmem =>
        authorize_never.runs hauthorize exchange hmem hstore

/-- The calls of an operation are those behind its authorization. -/
theorem gated_calls {P : Authorized → Ask → Prop} {f : AuthorizationFailure → E}
    {wrap : E → ServiceError} {respond : α → ServiceResponse} {rest : Authorized → Service E α}
    (hrest : ∀ auth, Asks (P auth) (rest auth)) {trace : List (Exchange Ask.Reply)}
    {result : Except ServiceError ServiceResponse}
    (h : Runs (respond <$> ((FeatureFlags.authorize platform context callers capability operation
      organizationId permission).mapError f >>= rest).mapError wrap) trace result) :
    ∀ exchange ∈ trace, exchange.1.IsStore → ∃ auth, P auth exchange.1 := by
  intro exchange hmem hstore
  obtain ⟨auth, first, second, inner, -, hsecond, hmem⟩ := gated_runs h hmem hstore
  rcases (hrest auth).runs hsecond with rfl | ⟨s, reply, rfl, hs⟩
  · exact absurd hmem List.not_mem_nil
  · rw [List.mem_singleton.mp hmem]
    exact ⟨auth, hs⟩

/-- The question is the call of the request. -/
def Request.Comes (rt : Runtime) (config : PolicyConfig) (request : Request) (auth : Authorized)
    (question : Ask) : Prop :=
  ∀ call, question = .store call → request.call rt config auth = some call

theorem comes_store {request : Request} {auth : Authorized} {call : StoreCall}
    (h : request.call rt config auth = some call) : request.Comes rt config auth (.store call) := by
  intro call' heq
  cases heq
  exact h

/-- Every call of the store that serving a request makes is the call of the request. -/
theorem serve_calls (request : Request) {trace : List (Exchange Ask.Reply)}
    {result : Except ServiceError ServiceResponse}
    (h : Runs (serve platform rt config context request) trace result) :
    ∀ call reply, ⟨.store call, reply⟩ ∈ trace →
      ∃ auth, request.call rt config auth = some call := by
  -- The checks in front of the one call are silent: what they passed is what `Request.call` checks.
  suffices hasked : ∀ exchange ∈ trace, exchange.1.IsStore →
      ∃ auth, request.Comes rt config auth exchange.1 by
    intro call reply hmem
    obtain ⟨auth, hcomes⟩ := hasked _ hmem trivial
    exact ⟨auth, hcomes call rfl⟩
  cases request with
  | evaluate request =>
    refine gated_calls (fun auth => ?_) h
    refine .bind_ret silent_ensure fun _ hchecked => ?_
    refine asks_store (comes_store ?_) fun _ => silent_mapStorage.bind fun _ => silent_wireCast
    exact passed_eq_some.mpr ⟨ensure_eq_ret hchecked, rfl⟩
  | evaluateBatch request =>
    refine gated_calls (fun auth => ?_) h
    refine .bind_ret silent_ensure fun _ hchecked => ?_
    refine asks_store (comes_store ?_) fun _ => silent_mapStorage.bind fun _ => silent_wireCast
    exact passed_eq_some.mpr ⟨ensure_eq_ret hchecked, rfl⟩
  | createFlag request =>
    refine gated_calls (fun auth => ?_) h
    refine .bind_ret silent_ensure fun _ hchecked => ?_
    refine asks_store (comes_store ?_) fun _ => silent_mapStorage.bind fun _ => silent_wireCast
    exact passed_eq_some.mpr ⟨ensure_eq_ret hchecked, rfl⟩
  | getFlag request =>
    refine gated_calls (fun auth => ?_) h
    refine .bind_ret silent_ensure fun _ hchecked => ?_
    refine asks_store (comes_store ?_) fun _ => silent_mapStorage.bind fun _ => silent_wireCast
    exact passed_eq_some.mpr ⟨ensure_eq_ret hchecked, rfl⟩
  | listFlags request =>
    refine gated_calls (fun auth => ?_) h
    refine .bind_ret silent_orFail fun after hafter => ?_
    refine .bind_ret silent_ensure fun _ hchecked => ?_
    refine asks_store (comes_store ?_) fun _ => silent_mapStorage.bind fun _ =>
      silent_wireCast.bind fun _ => trivial
    exact Option.bind_eq_some_iff.mpr
      ⟨after, orFail_eq_ret hafter, passed_eq_some.mpr ⟨ensure_eq_ret hchecked, rfl⟩⟩
  | updateFlag request =>
    refine gated_calls (fun auth => ?_) h
    refine .bind_ret silent_orFail fun revision hrevision => ?_
    refine .bind_ret silent_ensure fun _ hchecked => ?_
    refine asks_store (comes_store ?_) fun _ => silent_mapStorage.bind fun _ => silent_wireCast
    exact Option.bind_eq_some_iff.mpr
      ⟨revision, orFail_eq_ret hrevision, passed_eq_some.mpr ⟨ensure_eq_ret hchecked, rfl⟩⟩
  | archiveFlag request =>
    refine gated_calls (fun auth => ?_) h
    refine .bind_ret silent_orFail fun revision hrevision => ?_
    refine asks_store (comes_store ?_) fun _ => silent_mapStorage.bind fun _ => silent_wireCast
    exact Option.map_eq_some_iff.mpr ⟨revision, orFail_eq_ret hrevision, rfl⟩
  | putEnvironment request =>
    refine gated_calls (fun auth => ?_) h
    obtain ⟨environmentKey, expectedRevision, idempotencyKey, name, organizationId⟩ := request
    cases expectedRevision with
    | none =>
      refine .bind_ret trivial fun _ hnone => ?_
      cases hnone
      refine .bind_ret silent_ensure fun _ hchecked => ?_
      refine asks_store (comes_store ?_) fun _ => silent_mapStorage.bind fun _ => silent_wireCast
      exact passed_eq_some.mpr ⟨ensure_eq_ret hchecked, rfl⟩
    | some value =>
      refine .bind_ret (silent_orFail.bind fun _ => trivial) fun _ hsome => ?_
      cases hrevision : parseRevision value with
      | none =>
        rw [hrevision] at hsome
        cases hsome
      | some revision =>
        rw [hrevision] at hsome
        cases hsome
        refine .bind_ret silent_ensure fun _ hchecked => ?_
        refine asks_store (comes_store ?_) fun _ => silent_mapStorage.bind fun _ => silent_wireCast
        exact Option.bind_eq_some_iff.mpr
          ⟨revision, hrevision, passed_eq_some.mpr ⟨ensure_eq_ret hchecked, rfl⟩⟩
  | publishRuleset request =>
    refine gated_calls (fun auth => ?_) h
    refine .bind_ret silent_orFail fun flagRevision hflag => ?_
    refine .bind_ret silent_orFail fun environmentRevision henvironment => ?_
    refine .bind_ret silent_orFail fun definition hdefinition => ?_
    refine asks_store (comes_store ?_) fun _ => silent_mapStorage.bind fun _ => silent_wireCast
    exact Option.bind_eq_some_iff.mpr ⟨flagRevision, orFail_eq_ret hflag,
      Option.bind_eq_some_iff.mpr ⟨environmentRevision, orFail_eq_ret henvironment,
        Option.map_eq_some_iff.mpr ⟨definition, orFail_eq_ret hdefinition, rfl⟩⟩⟩
  | listEvaluationReceipts request =>
    refine gated_calls (fun auth => ?_) h
    refine .bind_ret silent_orFail fun after hafter => ?_
    refine .bind_ret silent_ensure fun _ hchecked => ?_
    refine asks_store (comes_store ?_) fun _ => silent_mapStorage.bind fun _ =>
      silent_wireCast.bind fun _ => trivial
    exact Option.bind_eq_some_iff.mpr
      ⟨after, orFail_eq_ret hafter, passed_eq_some.mpr ⟨ensure_eq_ret hchecked, rfl⟩⟩

/-! ## Arguments -/

theorem validKey_of_checkedKey {value key : String} (h : checkedKey value = some key) :
    validKey key 128 = true := by
  unfold checkedKey at h
  split at h
  · next hvalid =>
    cases h
    exact hvalid
  · cases h

/-- The parts of the definition of a request. -/
theorem rulesetDefinition_eq_some {request : PublishRulesetRequest}
    {definition : RulesetDefinition} (h : rulesetDefinition request = some definition) :
    List.Forall₂ (fun item record => variantRecord item = some record) request.variants
        definition.variants ∧
      List.Forall₂ (fun rule record => targetingRuleRecord rule = some record)
        request.targetingRules definition.targetingRules ∧
      List.Forall₂ (fun item record => rolloutRecord item = some record)
        request.percentageRollout definition.percentageRollout ∧
      validKey definition.fallthroughVariant 128 = true := by
  unfold rulesetDefinition at h
  split at h
  · cases h
  · next hchecked =>
    simp only [Bool.or_eq_true, not_or, Bool.not_eq_true', Bool.not_eq_false] at hchecked
    obtain ⟨variants, hvariants, h⟩ := Option.bind_eq_some_iff.mp h
    obtain ⟨rules, hrules, h⟩ := Option.bind_eq_some_iff.mp h
    obtain ⟨rollout, hrollout, h⟩ := Option.bind_eq_some_iff.mp h
    cases h
    exact ⟨optionAll_eq_some.mp hvariants, optionAll_eq_some.mp hrules,
      optionAll_eq_some.mp hrollout, hchecked.2⟩

/-- What the arguments of a write satisfy. -/
def Operation.Lawful (rt : Runtime) : Operation → Prop
  | .createFlag _ _ _ _ valueType => ∃ known : ValueType, valueType = known.wireName
  | .updateFlag _ _ expected _ _ => 0 < expected
  | .archiveFlag _ _ expected => 0 < expected
  | .putEnvironment _ _ _ expected => ∀ revision, expected = some revision → 0 < revision
  | .publishRuleset _ _ _ expectedFlag expectedEnvironment _ =>
      0 < expectedFlag ∧ 0 < expectedEnvironment
  | .evaluate _ _ _ targetingKey attributes hash =>
      hash = contextHash rt ⟨attributes, targetingKey⟩
  | .evaluateBatch _ _ flagKeys targetingKey attributes hash =>
      hash = contextHash rt ⟨attributes, targetingKey⟩ ∧ flagKeys ≠ [] ∧ flagKeys.Nodup

/-- A page has at least one row and one more to look at. -/
def StoreCall.Lawful (rt : Runtime) : StoreCall → Prop
  | .write call => call.operation.Lawful rt
  | .getFlag _ _ => True
  | .listFlags _ _ after limit => (∀ cursor, after = some cursor → 0 < cursor) ∧ 2 ≤ limit
  | .listReceipts _ _ _ after limit => (∀ cursor, after = some cursor → 0 < cursor) ∧ 2 ≤ limit

theorem parseRevision_pos {value : String} {revision : Int}
    (h : parseRevision value = some revision) : 0 < revision := by
  obtain ⟨-, hpos⟩ := Option.filter_eq_some_iff.mp h
  exact of_decide_eq_true hpos

theorem validMutation_pos {key resource value : String} {revision : Int}
    (h : validMutation key resource value = some revision) : 0 < revision := by
  unfold validMutation at h
  split at h
  · exact parseRevision_pos h
  · cases h

theorem parseCursor_pos {value : Option String} {after : Option Int}
    (h : parseCursor value = some after) : ∀ cursor, after = some cursor → 0 < cursor := by
  rintro cursor rfl
  cases value with
  | none => cases h
  | some value =>
    obtain ⟨revision, hrevision, heq⟩ := Option.map_eq_some_iff.mp h
    cases heq
    exact parseRevision_pos hrevision

/-- One row more than a lawful limit can be asked for. -/
theorem limit_toInt {limit : Int64} (h : (1 ≤ limit && limit ≤ 200) = true) :
    1 ≤ limit.toInt ∧ (limit + 1).toInt = limit.toInt + 1 := by
  rw [Bool.and_eq_true, decide_eq_true_eq, decide_eq_true_eq, Int64.le_iff_toInt_le,
    Int64.le_iff_toInt_le] at h
  obtain ⟨hlow, hhigh⟩ := h
  have hone : (1 : Int64).toInt = 1 := rfl
  have hmax : (200 : Int64).toInt = 200 := rfl
  rw [hone] at hlow
  rw [hmax] at hhigh
  refine ⟨hlow, ?_⟩
  rw [Int64.toInt_add, hone, Int.bmod_eq_of_le (by omega) (by omega)]

theorem limit_range {limit : Int64} (h : (1 ≤ limit && limit ≤ 200) = true) :
    2 ≤ (limit + 1).toInt := by
  obtain ⟨hlow, hnext⟩ := limit_toInt h
  omega

/-- What passes the checks is lawful. -/
theorem Request.call_lawful {request : Request} {auth : Authorized} {call : StoreCall}
    (h : request.call rt config auth = some call) : call.Lawful rt := by
  cases request with
  | evaluate request =>
    obtain ⟨-, rfl⟩ := passed_eq_some.mp h
    rfl
  | evaluateBatch request =>
    obtain ⟨hchecked, rfl⟩ := passed_eq_some.mp h
    simp only [Bool.and_eq_true] at hchecked
    obtain ⟨⟨⟨⟨⟨-, hnonempty⟩, -⟩, hdistinct⟩, -⟩, -⟩ := hchecked
    refine ⟨rfl, ?_, keySet_length_eq.mp (beq_iff_eq.mp hdistinct)⟩
    intro hnil
    rw [hnil] at hnonempty
    cases hnonempty
  | createFlag request =>
    obtain ⟨-, rfl⟩ := passed_eq_some.mp h
    exact ⟨request.valueType, rfl⟩
  | getFlag request =>
    obtain ⟨-, rfl⟩ := passed_eq_some.mp h
    trivial
  | listFlags request =>
    obtain ⟨after, hafter, hlist⟩ := Option.bind_eq_some_iff.mp h
    obtain ⟨hlimit, rfl⟩ := passed_eq_some.mp hlist
    exact ⟨parseCursor_pos hafter, limit_range hlimit⟩
  | updateFlag request =>
    obtain ⟨revision, hrevision, hwrite⟩ := Option.bind_eq_some_iff.mp h
    obtain ⟨-, rfl⟩ := passed_eq_some.mp hwrite
    exact validMutation_pos hrevision
  | archiveFlag request =>
    obtain ⟨revision, hrevision, rfl⟩ := Option.map_eq_some_iff.mp h
    exact validMutation_pos hrevision
  | putEnvironment request =>
    obtain ⟨environmentKey, expectedRevision, idempotencyKey, name, organizationId⟩ := request
    cases expectedRevision with
    | none =>
      obtain ⟨-, rfl⟩ := passed_eq_some.mp h
      intro revision hnone
      cases hnone
    | some value =>
      obtain ⟨revision, hrevision, hwrite⟩ := Option.bind_eq_some_iff.mp h
      obtain ⟨-, rfl⟩ := passed_eq_some.mp hwrite
      intro expected hsome
      cases hsome
      exact parseRevision_pos hrevision
  | publishRuleset request =>
    obtain ⟨flagRevision, hflag, hwrite⟩ := Option.bind_eq_some_iff.mp h
    obtain ⟨environmentRevision, henvironment, hwrite⟩ := Option.bind_eq_some_iff.mp hwrite
    obtain ⟨definition, -, rfl⟩ := Option.map_eq_some_iff.mp hwrite
    obtain ⟨hparsed, -⟩ := Option.filter_eq_some_iff.mp henvironment
    exact ⟨validMutation_pos hflag, parseRevision_pos hparsed⟩
  | listEvaluationReceipts request =>
    obtain ⟨after, hafter, hlist⟩ := Option.bind_eq_some_iff.mp h
    obtain ⟨hchecked, rfl⟩ := passed_eq_some.mp hlist
    simp only [Bool.and_eq_true] at hchecked
    obtain ⟨⟨⟨hlow, hhigh⟩, -⟩, -⟩ := hchecked
    exact ⟨parseCursor_pos hafter, limit_range (Bool.and_eq_true_iff.mpr ⟨hlow, hhigh⟩)⟩

/-- An evaluation carries the hash of its context. -/
theorem Operation.Lawful.carries {operation : Operation} (h : operation.Lawful rt)
    {subject : Abstract.Subject} {flagKeys : List String}
    (hop : Abstract.evaluates operation = some (subject, flagKeys)) :
    subject.contextHash = contextHash rt ⟨subject.attributes, subject.targetingKey⟩ := by
  cases operation with
  | evaluate =>
    cases hop
    exact h
  | evaluateBatch =>
    cases hop
    exact h.1
  | _ => cases hop

end Calls

end LensoFlags
