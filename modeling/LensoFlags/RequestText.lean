import LensoFlags.JsonText
import LensoFlags.Calls

/-!
# What the hash of a request stands for

A command keeps the digest of the text of its request, an evaluation the digest of the text of its
context. Either text is of one request and of one context only.

1. `EvaluateRequest.toJson_inj` and its siblings: the JSON value of a request determines it.
2. `Request.text_inj`: so does its text.
3. `Request.hash_inj`: so does its hash, where the digest tells the two texts apart.
-/

namespace LensoFlags

/-! ## Parts of requests -/

theorem Json.option_inj {α : Type} {f : α → Json} (hf : ∀ a b, f a = f b → a = b)
    (hnull : ∀ a, f a ≠ .null) {o o' : Option α} (h : Json.option f o = Json.option f o') :
    o = o' := by
  cases o with
  | none =>
    cases o' with
    | none => rfl
    | some a => exact absurd h.symm (hnull a)
  | some a =>
    cases o' with
    | none => exact absurd h (hnull a)
    | some b => exact congrArg some (hf a b h)

theorem Json.optionString_inj {o o' : Option String}
    (h : Json.option .string o = Json.option .string o') : o = o' :=
  Json.option_inj (fun _ _ h => Json.string.inj h) (fun _ h => nomatch h) h

theorem Json.map_inj {α : Type} {f : α → Json} (hf : ∀ a b, f a = f b → a = b) {as bs : List α}
    (h : Json.array (as.map f) = .array (bs.map f)) : as = bs :=
  List.map_injective_iff.mpr (fun a b => hf a b) (Json.array.inj h)

theorem Json.strings_inj {as bs : List String} (h : Json.strings as = Json.strings bs) : as = bs :=
  Json.map_inj (fun _ _ h => Json.string.inj h) h

theorem Json.i64_inj {m n : Int64} (h : Json.i64 m = Json.i64 n) : m = n := by
  simp only [Json.i64, Json.number.injEq] at h
  split at h <;> split at h
  · exact Number.negInt.inj h
  · cases h
  · cases h
  · exact congrArg Int64.ofUInt64 (Number.posInt.inj h)

theorem ValueType.wireName_inj {a b : ValueType} (h : a.wireName = b.wireName) : a = b := by
  cases a <;> cases b <;> first | rfl | exact absurd h (by decide)

theorem Operator.wireName_inj {a b : Operator} (h : a.wireName = b.wireName) : a = b := by
  cases a <;> cases b <;> first | rfl | exact absurd h (by decide)

theorem EvaluationContext.toJson_inj {a b : EvaluationContext} (h : a.toJson = b.toJson) :
    a = b := by
  cases a
  cases b
  simp only [EvaluationContext.toJson, Json.object.injEq, List.cons.injEq, Prod.mk.injEq,
    Json.string.injEq] at h
  obtain ⟨⟨-, rfl⟩, ⟨-, rfl⟩, -⟩ := h
  rfl

theorem PublishedValue.toJson_inj {a b : PublishedValue} (h : a.toJson = b.toJson) : a = b := by
  cases a
  cases b
  simp only [PublishedValue.toJson, Json.object.injEq, List.cons.injEq, Prod.mk.injEq,
    Json.string.injEq] at h
  obtain ⟨⟨-, hboolean⟩, ⟨-, hdouble⟩, ⟨-, hinteger⟩, ⟨-, hjson⟩, ⟨-, hstring⟩, ⟨-, htype⟩, -⟩ := h
  have hdoubles : ∀ x y : F64, (Json.number ∘ Number.float) x = (Json.number ∘ Number.float) y →
      x = y := fun x y h => Number.float.inj (Json.number.inj h)
  rw [Json.option_inj (fun _ _ h => Json.bool.inj h) (fun _ h => nomatch h) hboolean,
    Json.option_inj hdoubles (fun _ h => nomatch h) hdouble, Json.optionString_inj hinteger,
    Json.option_inj (fun _ _ h => Json.object.inj h) (fun _ h => nomatch h) hjson,
    Json.optionString_inj hstring, ValueType.wireName_inj htype]

theorem PublishedVariant.toJson_inj {a b : PublishedVariant} (h : a.toJson = b.toJson) : a = b := by
  cases a
  cases b
  simp only [PublishedVariant.toJson, Json.object.injEq, List.cons.injEq, Prod.mk.injEq,
    Json.string.injEq] at h
  obtain ⟨⟨-, hvalue⟩, ⟨-, rfl⟩, -⟩ := h
  rw [PublishedValue.toJson_inj hvalue]

theorem PublishedRule.toJson_inj {a b : PublishedRule} (h : a.toJson = b.toJson) : a = b := by
  cases a
  cases b
  simp only [PublishedRule.toJson, Json.object.injEq, List.cons.injEq, Prod.mk.injEq,
    Json.string.injEq] at h
  obtain ⟨⟨-, rfl⟩, ⟨-, hvalues⟩, ⟨-, hoperator⟩, ⟨-, rfl⟩, ⟨-, rfl⟩, -⟩ := h
  rw [Json.strings_inj hvalues, Operator.wireName_inj hoperator]

theorem PublishedRollout.toJson_inj {a b : PublishedRollout} (h : a.toJson = b.toJson) : a = b := by
  cases a
  cases b
  simp only [PublishedRollout.toJson, Json.object.injEq, List.cons.injEq, Prod.mk.injEq,
    Json.string.injEq] at h
  obtain ⟨⟨-, hpoints⟩, ⟨-, rfl⟩, -⟩ := h
  rw [Json.i64_inj hpoints]

/-! ## Requests -/

/-- The value a request is hashed as; a request that only reads is not hashed. -/
def Request.json : Request → Option Json
  | .evaluate request => some request.toJson
  | .evaluateBatch request => some request.toJson
  | .createFlag request => some request.toJson
  | .updateFlag request => some request.toJson
  | .archiveFlag request => some request.toJson
  | .putEnvironment request => some request.toJson
  | .publishRuleset request => some request.toJson
  | _ => none

/-- The idempotency key of a request that writes. -/
def Request.key : Request → Option String
  | .evaluate request => some request.evaluationId
  | .evaluateBatch request => some request.batchId
  | .createFlag request => some request.idempotencyKey
  | .updateFlag request => some request.idempotencyKey
  | .archiveFlag request => some request.idempotencyKey
  | .putEnvironment request => some request.idempotencyKey
  | .publishRuleset request => some request.idempotencyKey
  | _ => none

theorem EvaluateRequest.toJson_inj {a b : EvaluateRequest} (h : a.toJson = b.toJson) : a = b := by
  cases a
  cases b
  simp only [EvaluateRequest.toJson, Json.object.injEq, List.cons.injEq, Prod.mk.injEq,
    Json.string.injEq] at h
  obtain ⟨⟨-, hcontext⟩, ⟨-, rfl⟩, ⟨-, rfl⟩, ⟨-, rfl⟩, ⟨-, rfl⟩, -⟩ := h
  rw [EvaluationContext.toJson_inj hcontext]

theorem EvaluateBatchRequest.toJson_inj {a b : EvaluateBatchRequest} (h : a.toJson = b.toJson) :
    a = b := by
  cases a
  cases b
  simp only [EvaluateBatchRequest.toJson, Json.object.injEq, List.cons.injEq, Prod.mk.injEq,
    Json.string.injEq] at h
  obtain ⟨⟨-, rfl⟩, ⟨-, hcontext⟩, ⟨-, rfl⟩, ⟨-, hkeys⟩, ⟨-, rfl⟩, -⟩ := h
  rw [EvaluationContext.toJson_inj hcontext, Json.strings_inj hkeys]

theorem CreateFlagRequest.toJson_inj {a b : CreateFlagRequest} (h : a.toJson = b.toJson) :
    a = b := by
  cases a
  cases b
  simp only [CreateFlagRequest.toJson, Json.object.injEq, List.cons.injEq, Prod.mk.injEq,
    Json.string.injEq] at h
  obtain ⟨⟨-, hdescription⟩, ⟨-, rfl⟩, ⟨-, rfl⟩, ⟨-, rfl⟩, ⟨-, rfl⟩, ⟨-, htype⟩, -⟩ := h
  rw [Json.optionString_inj hdescription, ValueType.wireName_inj htype]

theorem UpdateFlagRequest.toJson_inj {a b : UpdateFlagRequest} (h : a.toJson = b.toJson) :
    a = b := by
  cases a
  cases b
  simp only [UpdateFlagRequest.toJson, Json.object.injEq, List.cons.injEq, Prod.mk.injEq,
    Json.string.injEq] at h
  obtain ⟨⟨-, hdescription⟩, ⟨-, rfl⟩, ⟨-, rfl⟩, ⟨-, rfl⟩, ⟨-, rfl⟩, ⟨-, rfl⟩, -⟩ := h
  rw [Json.optionString_inj hdescription]

theorem ArchiveFlagRequest.toJson_inj {a b : ArchiveFlagRequest} (h : a.toJson = b.toJson) :
    a = b := by
  cases a
  cases b
  simp only [ArchiveFlagRequest.toJson, Json.object.injEq, List.cons.injEq, Prod.mk.injEq,
    Json.string.injEq] at h
  obtain ⟨⟨-, rfl⟩, ⟨-, rfl⟩, ⟨-, rfl⟩, ⟨-, rfl⟩, -⟩ := h
  rfl

theorem PutEnvironmentRequest.toJson_inj {a b : PutEnvironmentRequest} (h : a.toJson = b.toJson) :
    a = b := by
  cases a
  cases b
  simp only [PutEnvironmentRequest.toJson, Json.object.injEq, List.cons.injEq, Prod.mk.injEq,
    Json.string.injEq] at h
  obtain ⟨⟨-, rfl⟩, ⟨-, hexpected⟩, ⟨-, rfl⟩, ⟨-, rfl⟩, ⟨-, rfl⟩, -⟩ := h
  rw [Json.optionString_inj hexpected]

theorem PublishRulesetRequest.toJson_inj {a b : PublishRulesetRequest} (h : a.toJson = b.toJson) :
    a = b := by
  cases a
  cases b
  simp only [PublishRulesetRequest.toJson, Json.object.injEq, List.cons.injEq, Prod.mk.injEq,
    Json.string.injEq] at h
  obtain ⟨⟨-, rfl⟩, ⟨-, rfl⟩, ⟨-, rfl⟩, ⟨-, rfl⟩, ⟨-, rfl⟩, ⟨-, rfl⟩, ⟨-, rfl⟩, ⟨-, hrollout⟩,
    ⟨-, hrules⟩, ⟨-, hvariants⟩, -⟩ := h
  rw [Json.map_inj (fun _ _ => PublishedRollout.toJson_inj) hrollout,
    Json.map_inj (fun _ _ => PublishedRule.toJson_inj) hrules,
    Json.map_inj (fun _ _ => PublishedVariant.toJson_inj) hvariants]

theorem Request.json_inj {request request' : Request} {value : Json}
    (hoperation : request.operation = request'.operation) (h : request.json = some value)
    (h' : request'.json = some value) : request = request' := by
  have heq := h.trans h'.symm
  cases request <;> cases request' <;>
    first | (simp [operation] at hoperation; done) | skip
  case evaluate.evaluate => rw [EvaluateRequest.toJson_inj (Option.some.inj heq)]
  case evaluateBatch.evaluateBatch => rw [EvaluateBatchRequest.toJson_inj (Option.some.inj heq)]
  case createFlag.createFlag => rw [CreateFlagRequest.toJson_inj (Option.some.inj heq)]
  case updateFlag.updateFlag => rw [UpdateFlagRequest.toJson_inj (Option.some.inj heq)]
  case archiveFlag.archiveFlag => rw [ArchiveFlagRequest.toJson_inj (Option.some.inj heq)]
  case putEnvironment.putEnvironment => rw [PutEnvironmentRequest.toJson_inj (Option.some.inj heq)]
  case publishRuleset.publishRuleset => rw [PublishRulesetRequest.toJson_inj (Option.some.inj heq)]
  all_goals cases h

/-! ## Canonical requests -/

/-- The numbers of the value are canonical: its double is finite. -/
def PublishedValue.Canonical (value : PublishedValue) : Prop :=
  (∀ x, value.doubleValue = some x → x.isFinite) ∧
    ∀ fields, value.jsonValue = some fields → Json.CanonicalFields fields

/-- The numbers of a request are canonical, as those of any that came as JSON. -/
def Request.Canonical : Request → Prop
  | .evaluate request => Json.CanonicalFields request.context.attributes
  | .evaluateBatch request => Json.CanonicalFields request.context.attributes
  | .publishRuleset request => ∀ item ∈ request.variants, item.value.Canonical
  | _ => True

theorem canonical_option {α : Type} {f : α → Json} {o : Option α}
    (h : ∀ a, o = some a → (f a).Canonical) : (Json.option f o).Canonical := by
  cases o with
  | none => trivial
  | some a => exact h a rfl

theorem canonical_map {α : Type} {f : α → Json} {as : List α} (h : ∀ a ∈ as, (f a).Canonical) :
    (Json.array (as.map f)).Canonical :=
  canonicalElements_iff.mpr fun _ hv => by
    obtain ⟨a, ha, rfl⟩ := List.mem_map.mp hv
    exact h a ha

theorem canonical_strings (values : List String) : (Json.strings values).Canonical :=
  canonical_map fun _ _ => trivial

theorem canonical_i64 (n : Int64) : (Json.i64 n).Canonical := by
  unfold Json.i64
  split
  · next h => exact h
  · trivial

theorem EvaluationContext.canonical {context : EvaluationContext}
    (h : Json.CanonicalFields context.attributes) : context.toJson.Canonical :=
  ⟨h, trivial, trivial⟩

theorem PublishedValue.Canonical.toJson {value : PublishedValue} (h : value.Canonical) :
    value.toJson.Canonical :=
  ⟨canonical_option fun _ _ => trivial, canonical_option h.1, canonical_option fun _ _ => trivial,
    canonical_option h.2, canonical_option fun _ _ => trivial, trivial, trivial⟩

theorem PublishedRule.canonical (rule : PublishedRule) : rule.toJson.Canonical :=
  ⟨trivial, canonical_strings _, trivial, trivial, trivial, trivial⟩

theorem PublishedRollout.canonical (item : PublishedRollout) : item.toJson.Canonical :=
  ⟨canonical_i64 _, trivial, trivial⟩

theorem Request.Canonical.json {request : Request} {value : Json} (h : request.Canonical)
    (hvalue : request.json = some value) : value.Canonical := by
  have hstring : ∀ o : Option String, (Json.option .string o).Canonical :=
    fun o => canonical_option fun _ _ => trivial
  cases request with
  | evaluate request =>
    cases hvalue
    exact ⟨EvaluationContext.canonical h, trivial, trivial, trivial, trivial, trivial⟩
  | evaluateBatch request =>
    cases hvalue
    exact ⟨trivial, EvaluationContext.canonical h, trivial, canonical_strings _, trivial, trivial⟩
  | createFlag request =>
    cases hvalue
    exact ⟨hstring _, trivial, trivial, trivial, trivial, trivial, trivial⟩
  | updateFlag request =>
    cases hvalue
    exact ⟨hstring _, trivial, trivial, trivial, trivial, trivial, trivial⟩
  | archiveFlag request =>
    cases hvalue
    exact ⟨trivial, trivial, trivial, trivial, trivial⟩
  | putEnvironment request =>
    cases hvalue
    exact ⟨trivial, hstring _, trivial, trivial, trivial, trivial⟩
  | publishRuleset request =>
    cases hvalue
    exact ⟨trivial, trivial, trivial, trivial, trivial, trivial, trivial,
      canonical_map fun item _ => item.canonical, canonical_map fun rule _ => rule.canonical,
      canonical_map fun item hitem => ⟨(h item hitem).toJson, trivial, trivial⟩, trivial⟩
  | _ => cases hvalue

/-! ## Hashes -/

section Hashes

variable {rt : Runtime} {config config' : PolicyConfig} {request request' : Request}
  {auth auth' : Authorized} {call call' : Call}

/-- The text of a request determines it, among the requests of one operation. -/
theorem Request.text_inj (hprinted : Printed rt) {value value' : Json}
    (hoperation : request.operation = request'.operation) (hcanonical : request.Canonical)
    (hcanonical' : request'.Canonical) (hvalue : request.json = some value)
    (hvalue' : request'.json = some value') (htext : value.render rt = value'.render rt) :
    request = request' := by
  obtain rfl :=
    Json.render_inj hprinted (hcanonical.json hvalue) (hcanonical'.json hvalue') htext
  exact Request.json_inj hoperation hvalue hvalue'

/-- What a write carries of its request. -/
structure Request.Carried (rt : Runtime) (request : Request) (auth : Authorized) (call : Call) :
    Prop where
  caller : call.command.caller = auth.caller
  actor : call.command.actor = auth.actor
  operation : call.operation.name = request.operation
  organizationId : call.operation.organizationId = request.organizationId
  key : request.key = some call.command.key
  hash : ∃ value, request.json = some value ∧ call.command.hash = requestHash rt value

theorem Request.call_carried (h : request.call rt config auth = some (.write call)) :
    request.Carried rt auth call := by
  cases request with
  | evaluate request =>
    obtain ⟨-, hcall⟩ := passed_eq_some.mp h
    cases hcall
    exact ⟨rfl, rfl, rfl, rfl, rfl, _, rfl, rfl⟩
  | evaluateBatch request =>
    obtain ⟨-, hcall⟩ := passed_eq_some.mp h
    cases hcall
    exact ⟨rfl, rfl, rfl, rfl, rfl, _, rfl, rfl⟩
  | createFlag request =>
    obtain ⟨-, hcall⟩ := passed_eq_some.mp h
    cases hcall
    exact ⟨rfl, rfl, rfl, rfl, rfl, _, rfl, rfl⟩
  | getFlag request => cases (passed_eq_some.mp h).2
  | listFlags request =>
    obtain ⟨_, -, h⟩ := Option.bind_eq_some_iff.mp h
    cases (passed_eq_some.mp h).2
  | updateFlag request =>
    obtain ⟨_, -, h⟩ := Option.bind_eq_some_iff.mp h
    obtain ⟨-, hcall⟩ := passed_eq_some.mp h
    cases hcall
    exact ⟨rfl, rfl, rfl, rfl, rfl, _, rfl, rfl⟩
  | archiveFlag request =>
    obtain ⟨_, -, hcall⟩ := Option.map_eq_some_iff.mp h
    cases hcall
    exact ⟨rfl, rfl, rfl, rfl, rfl, _, rfl, rfl⟩
  | putEnvironment request =>
    obtain ⟨environmentKey, expectedRevision, idempotencyKey, name, organizationId⟩ := request
    cases expectedRevision with
    | none =>
      obtain ⟨-, hcall⟩ := passed_eq_some.mp h
      cases hcall
      exact ⟨rfl, rfl, rfl, rfl, rfl, _, rfl, rfl⟩
    | some value =>
      obtain ⟨_, -, h⟩ := Option.bind_eq_some_iff.mp h
      obtain ⟨-, hcall⟩ := passed_eq_some.mp h
      cases hcall
      exact ⟨rfl, rfl, rfl, rfl, rfl, _, rfl, rfl⟩
  | publishRuleset request =>
    obtain ⟨_, -, h⟩ := Option.bind_eq_some_iff.mp h
    obtain ⟨_, -, h⟩ := Option.bind_eq_some_iff.mp h
    obtain ⟨_, -, hcall⟩ := Option.map_eq_some_iff.mp h
    cases hcall
    exact ⟨rfl, rfl, rfl, rfl, rfl, _, rfl, rfl⟩
  | listEvaluationReceipts request =>
    obtain ⟨_, -, h⟩ := Option.bind_eq_some_iff.mp h
    cases (passed_eq_some.mp h).2

/-- The digest tells the texts of the two requests apart. -/
def Request.Distinguished (rt : Runtime) (request request' : Request) : Prop :=
  ∀ value value', request.json = some value → request'.json = some value' →
    requestHash rt value = requestHash rt value' →
      bytesOf (value.render rt) = bytesOf (value'.render rt)

/-- Writes of one operation with one hash are of one request. -/
theorem Request.hash_inj (hprinted : Printed rt) (hcanonical : request.Canonical)
    (hcanonical' : request'.Canonical) (hdistinguished : request.Distinguished rt request')
    (h : request.call rt config auth = some (.write call))
    (h' : request'.call rt config' auth' = some (.write call'))
    (hoperation : call.operation.name = call'.operation.name)
    (hhash : call.command.hash = call'.command.hash) : request = request' := by
  obtain ⟨-, -, hname, -, -, value, hvalue, hrequest⟩ := Request.call_carried h
  obtain ⟨-, -, hname', -, -, value', hvalue', hrequest'⟩ := Request.call_carried h'
  rw [hname, hname'] at hoperation
  rw [hrequest, hrequest'] at hhash
  exact Request.text_inj hprinted hoperation hcanonical hcanonical' hvalue hvalue'
    (Bytes.data_inj (hdistinguished value value' hvalue hvalue' hhash))

end Hashes

end LensoFlags
