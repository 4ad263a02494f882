import LensoFlags.Documents
import LensoFlags.RequestText

/-!
# Requests on the wire

How the derived impls of `generated.rs` read the request types from a document, the numbers of which
were read. A request is written with the fields in the order of its type, and read from any order.

1. `Request.decode_value`: what of the order of fields a request tells.
2. `Request.decode_toJson_of_normal`: a request is read from the document that is written for it.
3. `Request.canonical_of_decode`: a request that came as JSON has canonical numbers.
-/

namespace LensoFlags

/-! ## The requests that are not hashed -/

def GetFlagRequest.toJson (request : GetFlagRequest) : Json :=
  .object [("flag_key", .string request.flagKey),
    ("organization_id", .string request.organizationId)]

def ListFlagsRequest.toJson (request : ListFlagsRequest) : Json :=
  .object [("after", .option .string request.after),
    ("include_archived", .bool request.includeArchived), ("limit", .i64 request.limit),
    ("organization_id", .string request.organizationId)]

def ListEvaluationReceiptsRequest.toJson (request : ListEvaluationReceiptsRequest) : Json :=
  .object [("after", .option .string request.after),
    ("environment_key", .option .string request.environmentKey),
    ("flag_key", .option .string request.flagKey), ("limit", .i64 request.limit),
    ("organization_id", .string request.organizationId)]

def Request.toJson : Request → Json
  | .evaluate request => request.toJson
  | .evaluateBatch request => request.toJson
  | .createFlag request => request.toJson
  | .getFlag request => request.toJson
  | .listFlags request => request.toJson
  | .updateFlag request => request.toJson
  | .archiveFlag request => request.toJson
  | .putEnvironment request => request.toJson
  | .publishRuleset request => request.toJson
  | .listEvaluationReceipts request => request.toJson

/-! ## Reading -/

def Operator.ofWire : String → Option Operator
  | "equals" => some .equals
  | "not_equals" => some .notEquals
  | "contains" => some .contains
  | "one_of" => some .oneOf
  | _ => none

def ValueType.ofJson (doc : Json) : Option ValueType := doc.asVariant.bind ValueType.ofWire

def Operator.ofJson (doc : Json) : Option Operator := doc.asVariant.bind Operator.ofWire

def EvaluationContext.ofJson (doc : Json) : Option EvaluationContext := do
  let fields ← structFields ["attributes", "targeting_key"] doc
  let attributes ← fieldValue Json.asMap "attributes" fields
  let targetingKey ← fieldValue Json.asString "targeting_key" fields
  return { attributes, targetingKey }

def EvaluateRequest.ofJson (doc : Json) : Option EvaluateRequest := do
  let fields ← structFields
    ["context", "environment_key", "evaluation_id", "flag_key", "organization_id"] doc
  let context ← fieldValue EvaluationContext.ofJson "context" fields
  let environmentKey ← fieldValue Json.asString "environment_key" fields
  let evaluationId ← fieldValue Json.asString "evaluation_id" fields
  let flagKey ← fieldValue Json.asString "flag_key" fields
  let organizationId ← fieldValue Json.asString "organization_id" fields
  return { context, environmentKey, evaluationId, flagKey, organizationId }

def EvaluateBatchRequest.ofJson (doc : Json) : Option EvaluateBatchRequest := do
  let fields ← structFields
    ["batch_id", "context", "environment_key", "flag_keys", "organization_id"] doc
  let batchId ← fieldValue Json.asString "batch_id" fields
  let context ← fieldValue EvaluationContext.ofJson "context" fields
  let environmentKey ← fieldValue Json.asString "environment_key" fields
  let flagKeys ← fieldValue (Json.asList Json.asString) "flag_keys" fields
  let organizationId ← fieldValue Json.asString "organization_id" fields
  return { batchId, context, environmentKey, flagKeys, organizationId }

def CreateFlagRequest.ofJson (doc : Json) : Option CreateFlagRequest := do
  let fields ← structFields
    ["description", "flag_key", "idempotency_key", "name", "organization_id", "value_type"] doc
  let description ← fieldValue (Json.asOption Json.asString) "description" fields
  let flagKey ← fieldValue Json.asString "flag_key" fields
  let idempotencyKey ← fieldValue Json.asString "idempotency_key" fields
  let name ← fieldValue Json.asString "name" fields
  let organizationId ← fieldValue Json.asString "organization_id" fields
  let valueType ← fieldValue ValueType.ofJson "value_type" fields
  return { description, flagKey, idempotencyKey, name, organizationId, valueType }

def GetFlagRequest.ofJson (doc : Json) : Option GetFlagRequest := do
  let fields ← structFields ["flag_key", "organization_id"] doc
  let flagKey ← fieldValue Json.asString "flag_key" fields
  let organizationId ← fieldValue Json.asString "organization_id" fields
  return { flagKey, organizationId }

def ListFlagsRequest.ofJson (doc : Json) : Option ListFlagsRequest := do
  let fields ← structFields ["after", "include_archived", "limit", "organization_id"] doc
  let after ← fieldValue (Json.asOption Json.asString) "after" fields
  let includeArchived ← fieldValue Json.asBool "include_archived" fields
  let limit ← fieldValue Json.asI64 "limit" fields
  let organizationId ← fieldValue Json.asString "organization_id" fields
  return { after, includeArchived, limit, organizationId }

def UpdateFlagRequest.ofJson (doc : Json) : Option UpdateFlagRequest := do
  let fields ← structFields ["description", "expected_revision", "flag_key", "idempotency_key",
    "name", "organization_id"] doc
  let description ← fieldValue (Json.asOption Json.asString) "description" fields
  let expectedRevision ← fieldValue Json.asString "expected_revision" fields
  let flagKey ← fieldValue Json.asString "flag_key" fields
  let idempotencyKey ← fieldValue Json.asString "idempotency_key" fields
  let name ← fieldValue Json.asString "name" fields
  let organizationId ← fieldValue Json.asString "organization_id" fields
  return { description, expectedRevision, flagKey, idempotencyKey, name, organizationId }

def ArchiveFlagRequest.ofJson (doc : Json) : Option ArchiveFlagRequest := do
  let fields ← structFields
    ["expected_revision", "flag_key", "idempotency_key", "organization_id"] doc
  let expectedRevision ← fieldValue Json.asString "expected_revision" fields
  let flagKey ← fieldValue Json.asString "flag_key" fields
  let idempotencyKey ← fieldValue Json.asString "idempotency_key" fields
  let organizationId ← fieldValue Json.asString "organization_id" fields
  return { expectedRevision, flagKey, idempotencyKey, organizationId }

def PutEnvironmentRequest.ofJson (doc : Json) : Option PutEnvironmentRequest := do
  let fields ← structFields
    ["environment_key", "expected_revision", "idempotency_key", "name", "organization_id"] doc
  let environmentKey ← fieldValue Json.asString "environment_key" fields
  let expectedRevision ← fieldValue (Json.asOption Json.asString) "expected_revision" fields
  let idempotencyKey ← fieldValue Json.asString "idempotency_key" fields
  let name ← fieldValue Json.asString "name" fields
  let organizationId ← fieldValue Json.asString "organization_id" fields
  return { environmentKey, expectedRevision, idempotencyKey, name, organizationId }

def PublishedRule.ofJson (doc : Json) : Option PublishedRule := do
  let fields ← structFields
    ["attribute", "comparison_values", "operator", "rule_id", "variant_key"] doc
  let ruleAttribute ← fieldValue Json.asString "attribute" fields
  let comparisonValues ← fieldValue (Json.asList Json.asString) "comparison_values" fields
  let operator ← fieldValue Operator.ofJson "operator" fields
  let ruleId ← fieldValue Json.asString "rule_id" fields
  let variantKey ← fieldValue Json.asString "variant_key" fields
  return { ruleAttribute, comparisonValues, operator, ruleId, variantKey }

def PublishedRollout.ofJson (doc : Json) : Option PublishedRollout := do
  let fields ← structFields ["basis_points", "variant_key"] doc
  let basisPoints ← fieldValue Json.asI64 "basis_points" fields
  let variantKey ← fieldValue Json.asString "variant_key" fields
  return { basisPoints, variantKey }

def ListEvaluationReceiptsRequest.ofJson (doc : Json) : Option ListEvaluationReceiptsRequest := do
  let fields ← structFields ["after", "environment_key", "flag_key", "limit", "organization_id"] doc
  let after ← fieldValue (Json.asOption Json.asString) "after" fields
  let environmentKey ← fieldValue (Json.asOption Json.asString) "environment_key" fields
  let flagKey ← fieldValue (Json.asOption Json.asString) "flag_key" fields
  let limit ← fieldValue Json.asI64 "limit" fields
  let organizationId ← fieldValue Json.asString "organization_id" fields
  return { after, environmentKey, flagKey, limit, organizationId }

section Doubles

variable (ofInteger : Int → F64)

def PublishedValue.ofJson (doc : Json) : Option PublishedValue := do
  let fields ← structFields ["boolean_value", "double_value", "integer_value", "json_value",
    "string_value", "value_type"] doc
  let booleanValue ← fieldValue (Json.asOption Json.asBool) "boolean_value" fields
  let doubleValue ← fieldValue (Json.asOption (Json.asDouble ofInteger)) "double_value" fields
  let integerValue ← fieldValue (Json.asOption Json.asString) "integer_value" fields
  let jsonValue ← fieldValue (Json.asOption Json.asMap) "json_value" fields
  let stringValue ← fieldValue (Json.asOption Json.asString) "string_value" fields
  let valueType ← fieldValue ValueType.ofJson "value_type" fields
  return { booleanValue, doubleValue, integerValue, jsonValue, stringValue, valueType }

def PublishedVariant.ofJson (doc : Json) : Option PublishedVariant := do
  let fields ← structFields ["value", "variant_key"] doc
  let value ← fieldValue (PublishedValue.ofJson ofInteger) "value" fields
  let variantKey ← fieldValue Json.asString "variant_key" fields
  return { value, variantKey }

def PublishRulesetRequest.ofJson (doc : Json) : Option PublishRulesetRequest := do
  let fields ← structFields ["environment_key", "expected_environment_revision",
    "expected_flag_revision", "fallthrough_variant", "flag_key", "idempotency_key",
    "organization_id", "percentage_rollout", "targeting_rules", "variants"] doc
  let environmentKey ← fieldValue Json.asString "environment_key" fields
  let expectedEnvironmentRevision ←
    fieldValue Json.asString "expected_environment_revision" fields
  let expectedFlagRevision ← fieldValue Json.asString "expected_flag_revision" fields
  let fallthroughVariant ← fieldValue Json.asString "fallthrough_variant" fields
  let flagKey ← fieldValue Json.asString "flag_key" fields
  let idempotencyKey ← fieldValue Json.asString "idempotency_key" fields
  let organizationId ← fieldValue Json.asString "organization_id" fields
  let percentageRollout ←
    fieldValue (Json.asList PublishedRollout.ofJson) "percentage_rollout" fields
  let targetingRules ← fieldValue (Json.asList PublishedRule.ofJson) "targeting_rules" fields
  let variants ← fieldValue (Json.asList (PublishedVariant.ofJson ofInteger)) "variants" fields
  return { environmentKey, expectedEnvironmentRevision, expectedFlagRevision, fallthroughVariant,
           flagKey, idempotencyKey, organizationId, percentageRollout, targetingRules, variants }

/-- A request by the name of its operation. -/
def Request.decode (operation : String) (doc : Json) : Option Request :=
  match operation with
  | "evaluate" => (EvaluateRequest.ofJson doc).map .evaluate
  | "evaluate_batch" => (EvaluateBatchRequest.ofJson doc).map .evaluateBatch
  | "create_flag" => (CreateFlagRequest.ofJson doc).map .createFlag
  | "get_flag" => (GetFlagRequest.ofJson doc).map .getFlag
  | "list_flags" => (ListFlagsRequest.ofJson doc).map .listFlags
  | "update_flag" => (UpdateFlagRequest.ofJson doc).map .updateFlag
  | "archive_flag" => (ArchiveFlagRequest.ofJson doc).map .archiveFlag
  | "put_environment" => (PutEnvironmentRequest.ofJson doc).map .putEnvironment
  | "publish_ruleset" => (PublishRulesetRequest.ofJson ofInteger doc).map .publishRuleset
  | "list_evaluation_receipts" =>
      (ListEvaluationReceiptsRequest.ofJson doc).map .listEvaluationReceipts
  | _ => none

end Doubles

/-! ## Arranged requests -/

section Arrange

variable (m : List (String × Json) → List (String × Json))

def EvaluationContext.arranged (context : EvaluationContext) : EvaluationContext :=
  { context with attributes := arrangeMap m context.attributes }

def EvaluateRequest.arranged (request : EvaluateRequest) : EvaluateRequest :=
  { request with context := request.context.arranged m }

def EvaluateBatchRequest.arranged (request : EvaluateBatchRequest) : EvaluateBatchRequest :=
  { request with context := request.context.arranged m }

def PublishedValue.arranged (value : PublishedValue) : PublishedValue :=
  { value with jsonValue := value.jsonValue.map (arrangeMap m) }

def PublishedVariant.arranged (item : PublishedVariant) : PublishedVariant :=
  { item with value := item.value.arranged m }

def PublishRulesetRequest.arranged (request : PublishRulesetRequest) : PublishRulesetRequest :=
  { request with variants := request.variants.map (PublishedVariant.arranged m) }

/-- The request with its JSON values arranged, those in its maps. -/
def Request.arranged : Request → Request
  | .evaluate request => .evaluate (request.arranged m)
  | .evaluateBatch request => .evaluateBatch (request.arranged m)
  | .publishRuleset request => .publishRuleset (request.arranged m)
  | request => request

end Arrange

/-- The request without the order of fields inside of its JSON values. -/
def Request.sorted : Request → Request := Request.arranged Entries.ofList

section Stable

variable {m : List (String × Json) → List (String × Json)} (hm : Arrangement m)

include hm

theorem stable_valueType : Stable m ValueType.ofJson := (stable_asVariant hm).bind _

theorem stable_operator : Stable m Operator.ofJson := (stable_asVariant hm).bind _

theorem commutes_context : Commutes m EvaluationContext.ofJson (EvaluationContext.arranged m) :=
  .struct hm <| .field (commutes_asMap hm) fun _ => .field stable_asString fun _ => .done rfl

theorem commutes_evaluate : Commutes m EvaluateRequest.ofJson (EvaluateRequest.arranged m) :=
  .struct hm <| .field (commutes_context hm) fun _ => .field stable_asString fun _ =>
    .field stable_asString fun _ => .field stable_asString fun _ => .field stable_asString fun _ =>
    .done rfl

theorem commutes_evaluateBatch :
    Commutes m EvaluateBatchRequest.ofJson (EvaluateBatchRequest.arranged m) :=
  .struct hm <| .field stable_asString fun _ => .field (commutes_context hm) fun _ =>
    .field stable_asString fun _ => .field stable_asString.asList fun _ =>
    .field stable_asString fun _ => .done rfl

theorem stable_createFlag : Stable m CreateFlagRequest.ofJson :=
  .struct hm <| .field stable_asString.asOption fun _ => .field stable_asString fun _ =>
    .field stable_asString fun _ => .field stable_asString fun _ => .field stable_asString fun _ =>
    .field (stable_valueType hm) fun _ => .done rfl

theorem stable_getFlag : Stable m GetFlagRequest.ofJson :=
  .struct hm <| .field stable_asString fun _ => .field stable_asString fun _ => .done rfl

theorem stable_listFlags : Stable m ListFlagsRequest.ofJson :=
  .struct hm <| .field stable_asString.asOption fun _ => .field stable_asBool fun _ =>
    .field stable_asI64 fun _ => .field stable_asString fun _ => .done rfl

theorem stable_updateFlag : Stable m UpdateFlagRequest.ofJson :=
  .struct hm <| .field stable_asString.asOption fun _ => .field stable_asString fun _ =>
    .field stable_asString fun _ => .field stable_asString fun _ => .field stable_asString fun _ =>
    .field stable_asString fun _ => .done rfl

theorem stable_archiveFlag : Stable m ArchiveFlagRequest.ofJson :=
  .struct hm <| .field stable_asString fun _ => .field stable_asString fun _ =>
    .field stable_asString fun _ => .field stable_asString fun _ => .done rfl

theorem stable_putEnvironment : Stable m PutEnvironmentRequest.ofJson :=
  .struct hm <| .field stable_asString fun _ => .field stable_asString.asOption fun _ =>
    .field stable_asString fun _ => .field stable_asString fun _ => .field stable_asString fun _ =>
    .done rfl

theorem stable_rule : Stable m PublishedRule.ofJson :=
  .struct hm <| .field stable_asString fun _ => .field stable_asString.asList fun _ =>
    .field (stable_operator hm) fun _ => .field stable_asString fun _ =>
    .field stable_asString fun _ => .done rfl

theorem stable_rollout : Stable m PublishedRollout.ofJson :=
  .struct hm <| .field stable_asI64 fun _ => .field stable_asString fun _ => .done rfl

theorem stable_listEvaluationReceipts : Stable m ListEvaluationReceiptsRequest.ofJson :=
  .struct hm <| .field stable_asString.asOption fun _ => .field stable_asString.asOption fun _ =>
    .field stable_asString.asOption fun _ => .field stable_asI64 fun _ =>
    .field stable_asString fun _ => .done rfl

variable {ofInteger : Int → F64}

theorem commutes_publishedValue :
    Commutes m (PublishedValue.ofJson ofInteger) (PublishedValue.arranged m) :=
  .struct hm <| .field stable_asBool.asOption fun _ =>
    .field (stable_asDouble ofInteger).asOption fun _ => .field stable_asString.asOption fun _ =>
    .field (commutes_asMap hm).asOption fun _ => .field stable_asString.asOption fun _ =>
    .field (stable_valueType hm) fun _ => .done rfl

theorem commutes_variant :
    Commutes m (PublishedVariant.ofJson ofInteger) (PublishedVariant.arranged m) :=
  .struct hm <| .field (commutes_publishedValue hm) fun _ => .field stable_asString fun _ => .done rfl

theorem commutes_publishRuleset :
    Commutes m (PublishRulesetRequest.ofJson ofInteger) (PublishRulesetRequest.arranged m) :=
  .struct hm <| .field stable_asString fun _ => .field stable_asString fun _ =>
    .field stable_asString fun _ => .field stable_asString fun _ => .field stable_asString fun _ =>
    .field stable_asString fun _ => .field stable_asString fun _ =>
    .field (stable_rollout hm).asList fun _ => .field (stable_rule hm).asList fun _ =>
    .field (commutes_variant hm).asList fun _ => .done rfl

/-- The arranged document is read as the arranged request. -/
theorem commutes_decode (operation : String) :
    Commutes m (Request.decode ofInteger operation) (Request.arranged m) := by
  unfold Request.decode
  split
  · exact (commutes_evaluate hm).map fun _ => rfl
  · exact (commutes_evaluateBatch hm).map fun _ => rfl
  · exact (stable_createFlag hm).commutes.map fun _ => rfl
  · exact (stable_getFlag hm).commutes.map fun _ => rfl
  · exact (stable_listFlags hm).commutes.map fun _ => rfl
  · exact (stable_updateFlag hm).commutes.map fun _ => rfl
  · exact (stable_archiveFlag hm).commutes.map fun _ => rfl
  · exact (stable_putEnvironment hm).commutes.map fun _ => rfl
  · exact (commutes_publishRuleset hm).map fun _ => rfl
  · exact (stable_listEvaluationReceipts hm).commutes.map fun _ => rfl
  · exact fun _ _ h => nomatch h

end Stable

/-! ## Written and read again -/

/-- The fields are a sorted map of values. -/
structure NormalFields (fields : List (String × Json)) : Prop where
  sorted : Entries.Sorted fields
  values : ∀ field ∈ fields, field.2.value = field.2

theorem asMap_of_normal {fields : List (String × Json)} (h : NormalFields fields) :
    (Json.object fields).asMap = some fields := by
  change some (Entries.ofList (fields.map (Prod.map id Json.value))) = _
  rw [map_eq_self_iff.mpr h.values, Entries.ofList_of_sorted h.sorted]

theorem normal_of_asMap {v : Json} {fields : List (String × Json)} (h : v.asMap = some fields) :
    NormalFields fields := by
  cases v with
  | object entries =>
    cases h
    refine ⟨Entries.sorted_ofList _, fun field hfield => ?_⟩
    obtain ⟨entry, -, rfl⟩ := List.mem_map.mp (Entries.mem_of_mem_ofList hfield)
    exact entry.2.value_value
  | _ => cases h

def PublishedValue.Normal (value : PublishedValue) : Prop :=
  ∀ fields, value.jsonValue = some fields → NormalFields fields

/-- The maps of a request are sorted maps of values. -/
def Request.Normal : Request → Prop
  | .evaluate request => NormalFields request.context.attributes
  | .evaluateBatch request => NormalFields request.context.attributes
  | .publishRuleset request => ∀ item ∈ request.variants, item.value.Normal
  | _ => True

theorem ofJson_valueType (valueType : ValueType) :
    ValueType.ofJson (.string valueType.wireName) = some valueType := by
  cases valueType <;> rfl

theorem ofJson_operator (operator : Operator) :
    Operator.ofJson (.string operator.wireName) = some operator := by
  cases operator <;> rfl

theorem asOption_string (o : Option String) :
    (Json.option .string o).asOption Json.asString = some o :=
  asOption_option fun _ _ => ⟨nofun, rfl⟩

theorem asList_strings (values : List String) :
    (Json.strings values).asList Json.asString = some values :=
  asList_map fun _ _ => rfl

theorem EvaluationContext.ofJson_toJson {context : EvaluationContext}
    (h : NormalFields context.attributes) :
    EvaluationContext.ofJson context.toJson = some context := by
  simp only [EvaluationContext.ofJson, Option.bind_eq_bind, Option.bind_eq_some_iff]
  exact ⟨_, rfl, _, asMap_of_normal h, _, rfl, rfl⟩

theorem EvaluateRequest.ofJson_toJson {request : EvaluateRequest}
    (h : NormalFields request.context.attributes) :
    EvaluateRequest.ofJson request.toJson = some request := by
  simp only [EvaluateRequest.ofJson, Option.bind_eq_bind, Option.bind_eq_some_iff]
  exact ⟨_, rfl, _, EvaluationContext.ofJson_toJson h, _, rfl, _, rfl, _, rfl, _, rfl, rfl⟩

theorem EvaluateBatchRequest.ofJson_toJson {request : EvaluateBatchRequest}
    (h : NormalFields request.context.attributes) :
    EvaluateBatchRequest.ofJson request.toJson = some request := by
  simp only [EvaluateBatchRequest.ofJson, Option.bind_eq_bind, Option.bind_eq_some_iff]
  exact ⟨_, rfl, _, rfl, _, EvaluationContext.ofJson_toJson h, _, rfl, _,
    asList_strings request.flagKeys, _, rfl, rfl⟩

theorem CreateFlagRequest.ofJson_toJson (request : CreateFlagRequest) :
    CreateFlagRequest.ofJson request.toJson = some request := by
  simp only [CreateFlagRequest.ofJson, Option.bind_eq_bind, Option.bind_eq_some_iff]
  exact ⟨_, rfl, _, asOption_string request.description, _, rfl, _, rfl, _, rfl, _, rfl, _,
    ofJson_valueType request.valueType, rfl⟩

theorem GetFlagRequest.ofJson_toJson (request : GetFlagRequest) :
    GetFlagRequest.ofJson request.toJson = some request := rfl

theorem ListFlagsRequest.ofJson_toJson (request : ListFlagsRequest) :
    ListFlagsRequest.ofJson request.toJson = some request := by
  simp only [ListFlagsRequest.ofJson, Option.bind_eq_bind, Option.bind_eq_some_iff]
  exact ⟨_, rfl, _, asOption_string request.after, _, rfl, _, asI64_i64 request.limit, _, rfl, rfl⟩

theorem UpdateFlagRequest.ofJson_toJson (request : UpdateFlagRequest) :
    UpdateFlagRequest.ofJson request.toJson = some request := by
  simp only [UpdateFlagRequest.ofJson, Option.bind_eq_bind, Option.bind_eq_some_iff]
  exact ⟨_, rfl, _, asOption_string request.description, _, rfl, _, rfl, _, rfl, _, rfl, _, rfl,
    rfl⟩

theorem ArchiveFlagRequest.ofJson_toJson (request : ArchiveFlagRequest) :
    ArchiveFlagRequest.ofJson request.toJson = some request := rfl

theorem PutEnvironmentRequest.ofJson_toJson (request : PutEnvironmentRequest) :
    PutEnvironmentRequest.ofJson request.toJson = some request := by
  simp only [PutEnvironmentRequest.ofJson, Option.bind_eq_bind, Option.bind_eq_some_iff]
  exact ⟨_, rfl, _, rfl, _, asOption_string request.expectedRevision, _, rfl, _, rfl, _, rfl, rfl⟩

theorem PublishedRule.ofJson_toJson (rule : PublishedRule) :
    PublishedRule.ofJson rule.toJson = some rule := by
  simp only [PublishedRule.ofJson, Option.bind_eq_bind, Option.bind_eq_some_iff]
  exact ⟨_, rfl, _, rfl, _, asList_strings rule.comparisonValues, _, ofJson_operator rule.operator,
    _, rfl, _, rfl, rfl⟩

theorem PublishedRollout.ofJson_toJson (item : PublishedRollout) :
    PublishedRollout.ofJson item.toJson = some item := by
  simp only [PublishedRollout.ofJson, Option.bind_eq_bind, Option.bind_eq_some_iff]
  exact ⟨_, rfl, _, asI64_i64 item.basisPoints, _, rfl, rfl⟩

theorem ListEvaluationReceiptsRequest.ofJson_toJson (request : ListEvaluationReceiptsRequest) :
    ListEvaluationReceiptsRequest.ofJson request.toJson = some request := by
  simp only [ListEvaluationReceiptsRequest.ofJson, Option.bind_eq_bind, Option.bind_eq_some_iff]
  exact ⟨_, rfl, _, asOption_string request.after, _, asOption_string request.environmentKey, _,
    asOption_string request.flagKey, _, asI64_i64 request.limit, _, rfl, rfl⟩

section Doubles

variable {ofInteger : Int → F64}

theorem PublishedValue.ofJson_toJson {value : PublishedValue} (h : value.Normal) :
    PublishedValue.ofJson ofInteger value.toJson = some value := by
  have hboolean : (Json.option .bool value.booleanValue).asOption Json.asBool =
      some value.booleanValue := asOption_option fun _ _ => ⟨nofun, rfl⟩
  have hdouble : (Json.option (.number ∘ .float) value.doubleValue).asOption
      (Json.asDouble ofInteger) = some value.doubleValue :=
    asOption_option fun _ _ => ⟨nofun, rfl⟩
  have hjson : (Json.option .object value.jsonValue).asOption Json.asMap = some value.jsonValue :=
    asOption_option fun fields hfields => ⟨nofun, asMap_of_normal (h fields hfields)⟩
  simp only [PublishedValue.ofJson, Option.bind_eq_bind, Option.bind_eq_some_iff]
  exact ⟨_, rfl, _, hboolean, _, hdouble, _, asOption_string value.integerValue, _, hjson, _,
    asOption_string value.stringValue, _, ofJson_valueType value.valueType, rfl⟩

theorem PublishedVariant.ofJson_toJson {item : PublishedVariant} (h : item.value.Normal) :
    PublishedVariant.ofJson ofInteger item.toJson = some item := by
  simp only [PublishedVariant.ofJson, Option.bind_eq_bind, Option.bind_eq_some_iff]
  exact ⟨_, rfl, _, PublishedValue.ofJson_toJson h, _, rfl, rfl⟩

theorem PublishRulesetRequest.ofJson_toJson {request : PublishRulesetRequest}
    (h : ∀ item ∈ request.variants, item.value.Normal) :
    PublishRulesetRequest.ofJson ofInteger request.toJson = some request := by
  simp only [PublishRulesetRequest.ofJson, Option.bind_eq_bind, Option.bind_eq_some_iff]
  exact ⟨_, rfl, _, rfl, _, rfl, _, rfl, _, rfl, _, rfl, _, rfl, _, rfl, _,
    asList_map fun item _ => item.ofJson_toJson, _, asList_map fun rule _ => rule.ofJson_toJson, _,
    asList_map fun item hitem => PublishedVariant.ofJson_toJson (h item hitem), rfl⟩

theorem normal_of_context {v : Json} {context : EvaluationContext}
    (h : EvaluationContext.ofJson v = some context) : NormalFields context.attributes := by
  simp only [EvaluationContext.ofJson, Option.bind_eq_bind, Option.bind_eq_some_iff] at h
  obtain ⟨fields, -, attributes, hattributes, targetingKey, -, h⟩ := h
  cases h
  obtain ⟨w, -, hw⟩ := Option.bind_eq_some_iff.mp hattributes
  exact normal_of_asMap hw

theorem normal_of_publishedValue {v : Json} {value : PublishedValue}
    (h : PublishedValue.ofJson ofInteger v = some value) : value.Normal := by
  simp only [PublishedValue.ofJson, Option.bind_eq_bind, Option.bind_eq_some_iff] at h
  obtain ⟨fields, -, _, -, _, -, _, -, jsonValue, hjsonValue, _, -, _, -, h⟩ := h
  cases h
  intro fields hfields
  obtain ⟨w, -, hw⟩ := Option.bind_eq_some_iff.mp hjsonValue
  by_cases hnull : w = .null
  · subst hnull
    cases hw
    cases hfields
  · rw [asOption_of_ne hnull, Option.map_eq_some_iff] at hw
    obtain ⟨found, hfound, rfl⟩ := hw
    cases hfields
    exact normal_of_asMap hfound

theorem normal_of_variant {v : Json} {item : PublishedVariant}
    (h : PublishedVariant.ofJson ofInteger v = some item) : item.value.Normal := by
  simp only [PublishedVariant.ofJson, Option.bind_eq_bind, Option.bind_eq_some_iff] at h
  obtain ⟨fields, -, value, hvalue, variantKey, -, h⟩ := h
  cases h
  obtain ⟨w, -, hw⟩ := Option.bind_eq_some_iff.mp hvalue
  exact normal_of_publishedValue hw

/-- A request is read under the name of its operation, with maps of values. -/
theorem Request.decode_sound {operation : String} {doc : Json} {request : Request}
    (h : Request.decode ofInteger operation doc = some request) :
    request.operation = operation ∧ request.Normal := by
  unfold Request.decode at h
  split at h
  case h_11 => cases h
  all_goals obtain ⟨request, hread, rfl⟩ := Option.map_eq_some_iff.mp h
  case h_1 =>
    simp only [EvaluateRequest.ofJson, Option.bind_eq_bind, Option.bind_eq_some_iff] at hread
    obtain ⟨fields, -, context, hcontext, _, -, _, -, _, -, _, -, hread⟩ := hread
    cases hread
    obtain ⟨w, -, hw⟩ := Option.bind_eq_some_iff.mp hcontext
    exact ⟨rfl, normal_of_context hw⟩
  case h_2 =>
    simp only [EvaluateBatchRequest.ofJson, Option.bind_eq_bind, Option.bind_eq_some_iff] at hread
    obtain ⟨fields, -, _, -, context, hcontext, _, -, _, -, _, -, hread⟩ := hread
    cases hread
    obtain ⟨w, -, hw⟩ := Option.bind_eq_some_iff.mp hcontext
    exact ⟨rfl, normal_of_context hw⟩
  case h_9 =>
    simp only [PublishRulesetRequest.ofJson, Option.bind_eq_bind, Option.bind_eq_some_iff] at hread
    obtain ⟨fields, -, _, -, _, -, _, -, _, -, _, -, _, -, _, -, _, -, _, -, variants, hvariants,
      hread⟩ := hread
    cases hread
    refine ⟨rfl, fun item hitem => ?_⟩
    obtain ⟨w, -, hw⟩ := Option.bind_eq_some_iff.mp hvariants
    obtain ⟨-, -, v, -, hv⟩ := exists_of_asList hw hitem
    exact normal_of_variant hv
  all_goals exact ⟨rfl, trivial⟩

end Doubles

/-! ## Canonical documents -/

mutual

/-- The value of what came as text has canonical numbers. -/
theorem Json.Canonical.value : ∀ {v : Json}, v.Canonical → v.value.Canonical
  | .array _, h => Json.CanonicalElements.value h
  | .object _, h => canonicalFields_iff.mpr fun f hf =>
      canonicalFields_iff.mp (Json.CanonicalFields.value h) f (Entries.mem_of_mem_inOrder hf)
  | .null, _ => trivial
  | .bool _, _ => trivial
  | .number _, h => h
  | .string _, _ => trivial

theorem Json.CanonicalElements.value : ∀ {vs : List Json}, Json.CanonicalElements vs →
    Json.CanonicalElements (Json.arrangeElements Entries.inOrder vs)
  | [], _ => trivial
  | _ :: _, h => ⟨h.1.value, Json.CanonicalElements.value h.2⟩

theorem Json.CanonicalFields.value : ∀ {fs : List (String × Json)}, Json.CanonicalFields fs →
    Json.CanonicalFields (Json.arrangeFields Entries.inOrder fs)
  | [], _ => trivial
  | _ :: _, h => ⟨h.1.value, Json.CanonicalFields.value h.2⟩

end

theorem canonical_of_asMap {v : Json} {fields : List (String × Json)} (hv : v.Canonical)
    (h : v.asMap = some fields) : Json.CanonicalFields fields := by
  cases v with
  | object entries =>
    cases h
    refine canonicalFields_iff.mpr fun field hfield => ?_
    obtain ⟨entry, hentry, rfl⟩ := List.mem_map.mp (Entries.mem_of_mem_ofList hfield)
    exact (canonicalFields_iff.mp hv entry hentry).value
  | _ => cases h

/-- A field of a canonical document is canonical. -/
theorem canonical_of_field {names : List String} {doc v : Json} {fields : List (String × Json)}
    {name : String} (hdoc : doc.Canonical) (hfields : structFields names doc = some fields)
    (hlookup : fields.lookup name = some v) : v.Canonical := by
  obtain ⟨before, after, rfl, -⟩ := List.lookup_eq_some_iff.mp hlookup
  have hmem : (name, v) ∈ before ++ (name, v) :: after :=
    List.mem_append_right _ List.mem_cons_self
  cases doc with
  | object entries =>
    obtain ⟨k, -, hk⟩ := Table.exists_of_mem_right (optionAll_eq_some.mp hfields) hmem
    unfold onlyField at hk
    split at hk
    · next heq =>
      have hfound := List.mem_of_mem_filter (heq ▸ List.mem_singleton_self _)
      rw [Option.some.inj hk] at hfound
      exact canonicalFields_iff.mp hdoc _ hfound
    · cases hk
  | array elements =>
    change (if elements.length = names.length then _ else _) = _ at hfields
    split at hfields
    · rw [← Option.some.inj hfields] at hmem
      exact canonicalElements_iff.mp hdoc v (List.of_mem_zip hmem).2
    · cases hfields
  | _ => cases hfields

theorem canonical_of_context {v : Json} {context : EvaluationContext} (hv : v.Canonical)
    (h : EvaluationContext.ofJson v = some context) : Json.CanonicalFields context.attributes := by
  simp only [EvaluationContext.ofJson, Option.bind_eq_bind, Option.bind_eq_some_iff] at h
  obtain ⟨fields, hfields, attributes, hattributes, targetingKey, -, h⟩ := h
  cases h
  obtain ⟨w, hlookup, hw⟩ := Option.bind_eq_some_iff.mp hattributes
  exact canonical_of_asMap (canonical_of_field hv hfields hlookup) hw

section Doubles

variable {ofInteger : Int → F64}

theorem canonical_of_publishedValue (hofInteger : ∀ n : Int, n.natAbs < 2 ^ 64 → (ofInteger n).isFinite) {v : Json}
    {value : PublishedValue} (hv : v.Canonical)
    (h : PublishedValue.ofJson ofInteger v = some value) : value.Canonical := by
  simp only [PublishedValue.ofJson, Option.bind_eq_bind, Option.bind_eq_some_iff] at h
  obtain ⟨fields, hfields, _, -, doubleValue, hdouble, _, -, jsonValue, hjson, _, -, _, -, h⟩ := h
  cases h
  refine ⟨fun x hx => ?_, fun entries hentries => ?_⟩
  · obtain ⟨w, hlookup, hw⟩ := Option.bind_eq_some_iff.mp hdouble
    have hwc := canonical_of_field hv hfields hlookup
    cases w with
    | number n =>
      cases hw
      cases hx
      cases n with
      | posInt n => exact hofInteger _ n.toNat_lt
      | negInt n =>
        have hle := n.le_toInt
        have hlt := n.toInt_lt
        exact hofInteger _ (by omega)
      | float x => exact hwc
    | null =>
      cases hw
      cases hx
    | _ => cases hw
  · obtain ⟨w, hlookup, hw⟩ := Option.bind_eq_some_iff.mp hjson
    have hwc := canonical_of_field hv hfields hlookup
    by_cases hnull : w = .null
    · subst hnull
      cases hw
      cases hentries
    · rw [asOption_of_ne hnull, Option.map_eq_some_iff] at hw
      obtain ⟨found, hfound, rfl⟩ := hw
      cases hentries
      exact canonical_of_asMap hwc hfound

theorem canonical_of_variant (hofInteger : ∀ n : Int, n.natAbs < 2 ^ 64 → (ofInteger n).isFinite) {v : Json}
    {item : PublishedVariant} (hv : v.Canonical)
    (h : PublishedVariant.ofJson ofInteger v = some item) : item.value.Canonical := by
  simp only [PublishedVariant.ofJson, Option.bind_eq_bind, Option.bind_eq_some_iff] at h
  obtain ⟨fields, hfields, value, hvalue, variantKey, -, h⟩ := h
  cases h
  obtain ⟨w, hlookup, hw⟩ := Option.bind_eq_some_iff.mp hvalue
  exact canonical_of_publishedValue hofInteger (canonical_of_field hv hfields hlookup) hw

/-- What came as JSON has canonical numbers. -/
theorem Request.canonical_of_decode (hofInteger : ∀ n : Int, n.natAbs < 2 ^ 64 → (ofInteger n).isFinite) {operation : String}
    {doc : Json} {request : Request} (hdoc : doc.Canonical)
    (h : Request.decode ofInteger operation doc = some request) : request.Canonical := by
  unfold Request.decode at h
  split at h
  case h_11 => cases h
  all_goals obtain ⟨request, hread, rfl⟩ := Option.map_eq_some_iff.mp h
  case h_1 =>
    simp only [EvaluateRequest.ofJson, Option.bind_eq_bind, Option.bind_eq_some_iff] at hread
    obtain ⟨fields, hfields, context, hcontext, _, -, _, -, _, -, _, -, hread⟩ := hread
    cases hread
    obtain ⟨w, hlookup, hw⟩ := Option.bind_eq_some_iff.mp hcontext
    exact canonical_of_context (canonical_of_field hdoc hfields hlookup) hw
  case h_2 =>
    simp only [EvaluateBatchRequest.ofJson, Option.bind_eq_bind, Option.bind_eq_some_iff] at hread
    obtain ⟨fields, hfields, _, -, context, hcontext, _, -, _, -, _, -, hread⟩ := hread
    cases hread
    obtain ⟨w, hlookup, hw⟩ := Option.bind_eq_some_iff.mp hcontext
    exact canonical_of_context (canonical_of_field hdoc hfields hlookup) hw
  case h_9 =>
    simp only [PublishRulesetRequest.ofJson, Option.bind_eq_bind, Option.bind_eq_some_iff] at hread
    obtain ⟨fields, hfields, _, -, _, -, _, -, _, -, _, -, _, -, _, -, _, -, _, -, variants,
      hvariants, hread⟩ := hread
    cases hread
    intro item hitem
    obtain ⟨w, hlookup, hw⟩ := Option.bind_eq_some_iff.mp hvariants
    obtain ⟨elements, rfl, v, hmem, hv⟩ := exists_of_asList hw hitem
    have hw := canonical_of_field hdoc hfields hlookup
    exact canonical_of_variant hofInteger (canonicalElements_iff.mp hw v hmem) hv
  all_goals trivial

end Doubles

/-! ## The order of fields -/

section Order

variable {m : List (String × Json) → List (String × Json)}

/-- A request is told by the value of a document. -/
theorem Request.Normal.arranged {request : Request} (h : request.Normal) :
    request.arranged Entries.inOrder = request := by
  have hmap : ∀ {fields}, NormalFields fields → arrangeMap Entries.inOrder fields = fields :=
    fun h => map_eq_self_iff.mpr h.values
  cases request with
  | evaluate request =>
    exact congrArg (fun attributes => Request.evaluate
      { request with context := { request.context with attributes } }) (hmap h)
  | evaluateBatch request =>
    exact congrArg (fun attributes => Request.evaluateBatch
      { request with context := { request.context with attributes } }) (hmap h)
  | publishRuleset request =>
    have hvalue : ∀ value : PublishedValue, value.Normal →
        value.arranged Entries.inOrder = value := by
      rintro ⟨b, x, i, _ | fields, s, valueType⟩ hvalue
      · rfl
      · exact congrArg (fun fields => PublishedValue.mk b x i (some fields) s valueType)
          (hmap (hvalue fields rfl))
    have hvariants : request.variants.map (PublishedVariant.arranged Entries.inOrder) =
        request.variants := by
      refine (List.map_congr_left fun item hitem => ?_).trans (List.map_id request.variants)
      exact congrArg (fun value => { item with value }) (hvalue item.value (h item hitem))
    exact congrArg (fun variants => Request.publishRuleset { request with variants }) hvariants
  | _ => rfl

mutual

/-- No object stands in the value. -/
def Json.Flat : Json → Prop
  | .array elements => Json.FlatElements elements
  | .object _ => False
  | _ => True

def Json.FlatElements : List Json → Prop
  | [] => True
  | v :: vs => v.Flat ∧ Json.FlatElements vs

end

def PublishedValue.Flat (value : PublishedValue) : Prop :=
  ∀ fields, value.jsonValue = some fields → ∀ field ∈ fields, field.2.Flat

/-- No object stands in the values of the maps of a request. -/
def Request.Flat : Request → Prop
  | .evaluate request => ∀ field ∈ request.context.attributes, field.2.Flat
  | .evaluateBatch request => ∀ field ∈ request.context.attributes, field.2.Flat
  | .publishRuleset request => ∀ item ∈ request.variants, item.value.Flat
  | _ => True

mutual

/-- There is nothing to arrange in a flat value, and arranging makes none flat. -/
theorem Json.arrange_of_flat : ∀ {v : Json}, (v.arrange m).Flat → v.arrange m = v
  | .array _, h => congrArg Json.array (Json.arrangeElements_of_flat h)
  | .object _, h => h.elim
  | .null, _ => rfl
  | .bool _, _ => rfl
  | .number _, _ => rfl
  | .string _, _ => rfl

theorem Json.arrangeElements_of_flat : ∀ {vs : List Json},
    Json.FlatElements (Json.arrangeElements m vs) → Json.arrangeElements m vs = vs
  | [], _ => rfl
  | _ :: _, h => congrArg₂ List.cons (Json.arrange_of_flat h.1) (Json.arrangeElements_of_flat h.2)

end

mutual

theorem Json.Flat.arrange : ∀ {v : Json}, v.Flat → (v.arrange m).Flat
  | .array _, h => Json.FlatElements.arrange h
  | .object _, h => h.elim
  | .null, _ => trivial
  | .bool _, _ => trivial
  | .number _, _ => trivial
  | .string _, _ => trivial

theorem Json.FlatElements.arrange : ∀ {vs : List Json}, Json.FlatElements vs →
    Json.FlatElements (Json.arrangeElements m vs)
  | [], _ => trivial
  | _ :: _, h => ⟨h.1.arrange, Json.FlatElements.arrange h.2⟩

end

theorem arrangeMap_of_flat {fields : List (String × Json)}
    (h : ∀ field ∈ arrangeMap m fields, field.2.Flat) : arrangeMap m fields = fields :=
  map_eq_self_iff.mpr fun _ hfield =>
    Json.arrange_of_flat (h _ (List.mem_map_of_mem hfield))

theorem flat_arrangeMap {fields : List (String × Json)} (h : ∀ field ∈ fields, field.2.Flat) :
    ∀ field ∈ arrangeMap m fields, field.2.Flat := by
  intro field hfield
  obtain ⟨entry, hentry, rfl⟩ := List.mem_map.mp hfield
  exact (h entry hentry).arrange

theorem PublishedValue.arranged_of_flat {value : PublishedValue} (h : (value.arranged m).Flat) :
    value.arranged m = value := by
  obtain ⟨b, x, i, _ | fields, s, valueType⟩ := value
  · rfl
  · exact congrArg (fun fields => PublishedValue.mk b x i (some fields) s valueType)
      (arrangeMap_of_flat (h _ rfl))

theorem PublishedValue.Flat.arranged {value : PublishedValue} (h : value.Flat) :
    (value.arranged m).Flat := by
  intro fields hfields
  obtain ⟨entries, hentries, rfl⟩ := Option.map_eq_some_iff.mp hfields
  exact flat_arrangeMap (h entries hentries)

theorem Request.arranged_of_flat {request : Request} (h : (request.arranged m).Flat) :
    request.arranged m = request := by
  cases request with
  | evaluate request =>
    exact congrArg (fun attributes => Request.evaluate
      { request with context := { request.context with attributes } }) (arrangeMap_of_flat h)
  | evaluateBatch request =>
    exact congrArg (fun attributes => Request.evaluateBatch
      { request with context := { request.context with attributes } }) (arrangeMap_of_flat h)
  | publishRuleset request =>
    have hvariants : request.variants.map (PublishedVariant.arranged m) = request.variants := by
      refine (List.map_congr_left fun item hitem => ?_).trans (List.map_id request.variants)
      exact congrArg (fun value => { item with value })
        (PublishedValue.arranged_of_flat (h _ (List.mem_map_of_mem hitem)))
    exact congrArg (fun variants => Request.publishRuleset { request with variants }) hvariants
  | _ => rfl

theorem Request.Flat.arranged {request : Request} (h : request.Flat) :
    (request.arranged m).Flat := by
  cases request with
  | evaluate request => exact flat_arrangeMap h
  | evaluateBatch request => exact flat_arrangeMap h
  | publishRuleset request =>
    intro item hitem
    obtain ⟨variant, hvariant, rfl⟩ := List.mem_map.mp hitem
    exact PublishedValue.Flat.arranged (h variant hvariant)
  | _ => trivial

/-- The documents differ in nothing a request tells: they have one value, or but for the order of
their fields, which the request does not tell without an object among its values. -/
def Request.Restated (request : Request) (doc doc' : Json) : Prop :=
  doc.value = doc'.value ∨ doc.sorted = doc'.sorted ∧ request.Flat

variable {ofInteger : Int → F64} {operation : String} {doc doc' : Json} {request request' : Request}

theorem Request.sorted_of_sorted (h : Request.decode ofInteger operation doc = some request)
    (h' : Request.decode ofInteger operation doc' = some request')
    (hsorted : doc.sorted = doc'.sorted) : request.sorted = request'.sorted := by
  have hread := commutes_decode arrangement_sorted operation doc request h
  have hread' := commutes_decode arrangement_sorted operation doc' request' h'
  exact Option.some.inj (hread.symm.trans ((congrArg _ hsorted).trans hread'))

theorem Request.eq_of_restated (h : Request.decode ofInteger operation doc = some request)
    (h' : Request.decode ofInteger operation doc' = some request')
    (hrestated : request.Restated doc doc') : request = request' := by
  rcases hrestated with hvalue | ⟨hsorted, hflat⟩
  · have hread := commutes_decode arrangement_value operation doc request h
    have hread' := commutes_decode arrangement_value operation doc' request' h'
    rw [(Request.decode_sound h).2.arranged] at hread
    rw [(Request.decode_sound h').2.arranged] at hread'
    exact Option.some.inj (hread.symm.trans ((congrArg _ hvalue).trans hread'))
  · have hsame := Request.sorted_of_sorted h h' hsorted
    have hflat' : request.sorted.Flat := hflat.arranged
    have hflat'' : request'.sorted.Flat := by rwa [← hsame]
    calc request = request.sorted := (Request.arranged_of_flat hflat').symm
      _ = request'.sorted := hsame
      _ = request' := Request.arranged_of_flat hflat''

/-- A request does not tell the order of the fields of a document, except of those inside of the
values of its maps. -/
theorem Request.decode_value (h : Request.decode ofInteger operation doc = some request)
    (h' : Request.decode ofInteger operation doc' = some request') :
    (request.Restated doc doc' → request = request') ∧
      (doc.sorted = doc'.sorted → request.sorted = request'.sorted) :=
  ⟨Request.eq_of_restated h h', Request.sorted_of_sorted h h'⟩

end Order

def checkoutRequest (attributes : List (String × Json)) : Request :=
  .evaluate
    { context := { attributes, targetingKey := "user-1" }
      environmentKey := "live"
      evaluationId := "evaluation-1"
      flagKey := "checkout"
      organizationId := "org" }

/-- A request with its fields in an order of their own. -/
def checkoutDocument (attributes : List (String × Json)) : Json :=
  .object [("organization_id", .string "org"), ("flag_key", .string "checkout"),
    ("environment_key", .string "live"), ("evaluation_id", .string "evaluation-1"),
    ("context", .object [("targeting_key", .string "user-1"), ("attributes", .object attributes)])]

/-- An attribute that is written twice, and one whose fields come in two orders. -/
theorem Request.decode_value_checkout :
    (∀ request, Request.decode (fun _ => ⟨0⟩) "evaluate"
        (checkoutDocument [("tier", .string "basic"), ("tier", .string "gold"), ("age", .null)]) =
          some request →
      request = checkoutRequest [("age", .null), ("tier", .string "gold")]) ∧
    ∀ request request',
      Request.decode (fun _ => ⟨0⟩) "evaluate" (checkoutDocument
        [("plan", .object [("name", .null), ("age", .null)])]) = some request →
      Request.decode (fun _ => ⟨0⟩) "evaluate" (checkoutDocument
        [("plan", .object [("age", .null), ("name", .null)])]) = some request' →
      request ≠ request' ∧ request.sorted = request'.sorted := by
  have h : Request.decode (fun _ => ⟨0⟩) "evaluate"
      (checkoutRequest [("age", .null), ("tier", .string "gold")]).toJson = some _ := rfl
  have hflat : (checkoutRequest [("age", .null), ("tier", .string "gold")]).Flat := by
    intro field hfield
    simp only [List.mem_cons, List.not_mem_nil, or_false] at hfield
    rcases hfield with rfl | rfl <;> trivial
  refine ⟨fun request hread => ?_, fun request request' hread hread' => ⟨?_, ?_⟩⟩
  · exact ((Request.decode_value h hread).1 (.inr ⟨rfl, hflat⟩)).symm
  · rintro rfl
    have hsame : checkoutRequest [("plan", .object [("name", .null), ("age", .null)])] =
        checkoutRequest [("plan", .object [("age", .null), ("name", .null)])] :=
      Option.some.inj (hread.trans hread'.symm)
    simp [checkoutRequest] at hsame
  · exact (Request.decode_value hread hread').2 rfl

end LensoFlags
