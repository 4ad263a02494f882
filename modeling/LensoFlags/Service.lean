import LensoFlags.Requests
import LensoFlags.Lib.Dialogue

/-!
# The service

`FeatureFlags` of `lib.rs`: `authorize` and the ten operations. An operation is the program of what
it asks its surroundings: the assertion verifier, the membership and the access-control provider,
and the store.
-/

namespace LensoFlags

open Locking (Program)

/-! ## Surroundings -/

/-- The failures of the kernel. `reported` stands for those the providers hand on. -/
inductive RuntimeFailure
  | invalidResolvedPlan (detail : String)
  | protocolViolation (capability : String)
  | pluginFailure (detail : String)
  | internal (detail : String)
  | reported (detail : String)
  deriving DecidableEq

/-- What the service takes from the crates it links: the names of the providers' capabilities, the
texts of foreign errors and the check of a timestamp on the wire. -/
structure Platform where
  membershipCapability : String
  accessCapability : String
  jsonError : String
  timeError : String
  isTimestamp : String → Bool

/-- The invocation context. What else it carries is for the verifier and the providers. -/
structure Ctx where
  callerInstance : Option String

structure PolicyConfig where
  evaluationCallers : List String
  adminCallers : List String
  maxContextBytes : ℕ
  maxAttributes : ℕ
  maxBatchSize : ℕ

/-- The methods of the trait `Store` with their arguments. -/
inductive StoreCall
  | write (call : Call)
  | getFlag (organizationId flagKey : String)
  | listFlags (organizationId : String) (includeArchived : Bool) (after : Option Int) (limit : Int)
  | listReceipts (organizationId : String) (flagKey environmentKey : Option String)
      (after : Option Int) (limit : Int)

namespace StoreCall

def organizationId : StoreCall → String
  | write call => call.operation.organizationId
  | getFlag org _ => org
  | listFlags org .. => org
  | listReceipts org .. => org

def command : StoreCall → Option Command
  | write call => some call.command
  | _ => none

end StoreCall

/-- The records of a kind of response. -/
def Kind.Record : Kind → Type
  | .flag => FlagRecord
  | .environment => EnvironmentRecord
  | .publish => PublishRecord
  | .evaluation => EvaluationRecord
  | .evaluations => List EvaluationRecord

def StoreCall.Record : StoreCall → Type
  | .write call => call.operation.kind.Record
  | .getFlag .. => FlagRecord
  | .listFlags .. => List FlagRecord
  | .listReceipts .. => List ReceiptRecord

/-- An error of a provider: a failure of the kernel, or a domain error it is not to give. -/
inductive ProviderError
  | runtime (failure : RuntimeFailure)
  | domain

/-- What the service asks. -/
inductive Ask
  | verifier
  | projectContext (capability operation : String)
  | checkMembership (organizationId subject : String)
  | checkPermission (subject scopeKind scopeId permission : String)
  | store (call : StoreCall)

/-- The key of the verifier parses; the subject of the projected assertion; the membership is
active; the permission is allowed; the result of the store. -/
def Ask.Reply : Ask → Type
  | .verifier => Bool
  | .projectContext .. => Option String
  | .checkMembership .. => Except ProviderError Bool
  | .checkPermission .. => Except ProviderError Bool
  | .store call => Except StorageError call.Record

abbrev Service (E α : Type) := Program Ask Ask.Reply E α

def ask {E : Type} (a : Ask) : Service E a.Reply := Program.perform a

/-- An early return unless the condition holds. -/
def ensure {E : Type} (condition : Bool) (e : E) : Service E Unit :=
  if condition then .ret () else .fail e

/-- `Option::ok_or` with `?`. -/
def orFail {E α : Type} (e : E) : Option α → Service E α
  | some a => .ret a
  | none => .fail e

/-! ## Authorization -/

def featureEvaluate : String := "feature-flags.evaluate"
def featureAdmin : String := "feature-flags.admin"

def evaluationCapability : String := "lenso.feature-evaluation@1"
def adminCapability : String := "lenso.feature-flag-admin@1"

structure Authorized where
  caller : String
  actor : String

inductive AuthorizationFailure
  | unauthenticated
  | forbidden
  | runtime (failure : RuntimeFailure)

/-- The reply of a provider, a domain error as a violation of its protocol. -/
def orProvider {α : Type} (capability : String) :
    Except ProviderError α → Service AuthorizationFailure α
  | .ok a => .ret a
  | .error (.runtime failure) => .fail (.runtime failure)
  | .error .domain => .fail (.runtime (.protocolViolation capability))

section Operations

variable (platform : Platform) (rt : Runtime) (config : PolicyConfig) (context : Ctx)

def FeatureFlags.authorize (callers : List String)
    (capability operation organizationId permission : String) :
    Service AuthorizationFailure Authorized := do
  let caller ← orFail .forbidden
    (context.callerInstance.filter fun caller => callers.any fun allowed => allowed == caller)
  ensure (← ask .verifier)
    (.runtime (.invalidResolvedPlan "Feature Flag Auth verification key is invalid"))
  let actor ← orFail .unauthenticated (← ask (.projectContext capability operation))
  ensure (validOpaqueId organizationId && validOpaqueId actor) .forbidden
  let active ← orProvider platform.membershipCapability
    (← ask (.checkMembership organizationId actor))
  ensure active .forbidden
  let allowed ← orProvider platform.accessCapability
    (← ask (.checkPermission actor "organization" organizationId permission))
  ensure allowed .forbidden
  return { caller, actor }

/-! ## Errors -/

inductive EvaluationError
  | archived
  | environmentNotFound
  | flagNotFound
  | forbidden
  | idempotencyConflict
  | invalidRequest
  | noPublishedRuleset
  | operationInProgress
  | typeMismatch
  | unauthenticated
  deriving DecidableEq

inductive AdminError
  | alreadyExists
  | archived
  | forbidden
  | idempotencyConflict
  | invalidRequest
  | invalidRuleset
  | notFound
  | operationInProgress
  | revisionConflict
  | typeMismatch
  | unauthenticated
  deriving DecidableEq

inductive PluginError (E : Type)
  | domain (error : E)
  | runtime (failure : RuntimeFailure)

def authEvaluation : AuthorizationFailure → PluginError EvaluationError
  | .unauthenticated => .domain .unauthenticated
  | .forbidden => .domain .forbidden
  | .runtime failure => .runtime failure

def authAdmin : AuthorizationFailure → PluginError AdminError
  | .unauthenticated => .domain .unauthenticated
  | .forbidden => .domain .forbidden
  | .runtime failure => .runtime failure

def evaluationError : DomainFailure → EvaluationError
  | .flagNotFound => .flagNotFound
  | .environmentNotFound => .environmentNotFound
  | .noPublishedRuleset => .noPublishedRuleset
  | .archived => .archived
  | .typeMismatch => .typeMismatch
  | .idempotencyConflict => .idempotencyConflict
  | .operationInProgress => .operationInProgress
  | _ => .invalidRequest

def adminError : DomainFailure → AdminError
  | .notFound | .flagNotFound | .environmentNotFound => .notFound
  | .archived => .archived
  | .revisionConflict => .revisionConflict
  | .idempotencyConflict => .idempotencyConflict
  | .operationInProgress => .operationInProgress
  | .alreadyExists => .alreadyExists
  | .typeMismatch => .typeMismatch
  | .invalidRuleset => .invalidRuleset
  | _ => .invalidRequest

/-- A domain failure by its name on the wire, any other error as a failure of the plugin. -/
def mapStorage {E α : Type} (map : DomainFailure → E) :
    Except StorageError α → Service (PluginError E) α
  | .ok value => .ret value
  | .error (.domain failure) => .fail (.domain (map failure))
  | .error (.backend detail) => .fail (.runtime (.pluginFailure ("storage failure: " ++ detail)))
  | .error .json => .fail (.runtime (.pluginFailure
      ("failed to encode or decode persisted JSON: " ++ platform.jsonError)))
  | .error .time => .fail (.runtime (.pluginFailure
      ("failed to format a timestamp: " ++ platform.timeError)))

/-! ## Hashes -/

def bytesOf (text : String) : List UInt8 := text.toUTF8.data.toList

/-- The text of an `i64`. -/
def Json.i64 (n : Int64) : Json :=
  .number (if n < 0 then .negInt n else .posInt n.toUInt64)

def Json.option {α : Type} (f : α → Json) : Option α → Json
  | some a => f a
  | none => .null

def Json.strings (values : List String) : Json := .array (values.map .string)

def EvaluationContext.toJson (context : EvaluationContext) : Json :=
  .object [("attributes", .object context.attributes),
    ("targeting_key", .string context.targetingKey)]

def EvaluateRequest.toJson (request : EvaluateRequest) : Json :=
  .object [("context", request.context.toJson),
    ("environment_key", .string request.environmentKey),
    ("evaluation_id", .string request.evaluationId), ("flag_key", .string request.flagKey),
    ("organization_id", .string request.organizationId)]

def EvaluateBatchRequest.toJson (request : EvaluateBatchRequest) : Json :=
  .object [("batch_id", .string request.batchId), ("context", request.context.toJson),
    ("environment_key", .string request.environmentKey),
    ("flag_keys", .strings request.flagKeys),
    ("organization_id", .string request.organizationId)]

def CreateFlagRequest.toJson (request : CreateFlagRequest) : Json :=
  .object [("description", .option .string request.description),
    ("flag_key", .string request.flagKey), ("idempotency_key", .string request.idempotencyKey),
    ("name", .string request.name), ("organization_id", .string request.organizationId),
    ("value_type", .string request.valueType.wireName)]

def UpdateFlagRequest.toJson (request : UpdateFlagRequest) : Json :=
  .object [("description", .option .string request.description),
    ("expected_revision", .string request.expectedRevision),
    ("flag_key", .string request.flagKey), ("idempotency_key", .string request.idempotencyKey),
    ("name", .string request.name), ("organization_id", .string request.organizationId)]

def ArchiveFlagRequest.toJson (request : ArchiveFlagRequest) : Json :=
  .object [("expected_revision", .string request.expectedRevision),
    ("flag_key", .string request.flagKey), ("idempotency_key", .string request.idempotencyKey),
    ("organization_id", .string request.organizationId)]

def PutEnvironmentRequest.toJson (request : PutEnvironmentRequest) : Json :=
  .object [("environment_key", .string request.environmentKey),
    ("expected_revision", .option .string request.expectedRevision),
    ("idempotency_key", .string request.idempotencyKey), ("name", .string request.name),
    ("organization_id", .string request.organizationId)]

def PublishedValue.toJson (value : PublishedValue) : Json :=
  .object [("boolean_value", .option .bool value.booleanValue),
    ("double_value", .option (.number ∘ .float) value.doubleValue),
    ("integer_value", .option .string value.integerValue),
    ("json_value", .option .object value.jsonValue),
    ("string_value", .option .string value.stringValue),
    ("value_type", .string value.valueType.wireName)]

def PublishedVariant.toJson (item : PublishedVariant) : Json :=
  .object [("value", item.value.toJson), ("variant_key", .string item.variantKey)]

def PublishedRule.toJson (rule : PublishedRule) : Json :=
  .object [("attribute", .string rule.ruleAttribute),
    ("comparison_values", .strings rule.comparisonValues),
    ("operator", .string rule.operator.wireName), ("rule_id", .string rule.ruleId),
    ("variant_key", .string rule.variantKey)]

def PublishedRollout.toJson (item : PublishedRollout) : Json :=
  .object [("basis_points", .i64 item.basisPoints), ("variant_key", .string item.variantKey)]

def PublishRulesetRequest.toJson (request : PublishRulesetRequest) : Json :=
  .object [("environment_key", .string request.environmentKey),
    ("expected_environment_revision", .string request.expectedEnvironmentRevision),
    ("expected_flag_revision", .string request.expectedFlagRevision),
    ("fallthrough_variant", .string request.fallthroughVariant),
    ("flag_key", .string request.flagKey), ("idempotency_key", .string request.idempotencyKey),
    ("organization_id", .string request.organizationId),
    ("percentage_rollout", .array (request.percentageRollout.map PublishedRollout.toJson)),
    ("targeting_rules", .array (request.targetingRules.map PublishedRule.toJson)),
    ("variants", .array (request.variants.map PublishedVariant.toJson))]

/-- The SHA-256 of the request as `serde_json` writes it. -/
def requestHash (request : Json) : List UInt8 := rt.sha256 (bytesOf (request.render rt))

/-- The same of the context, in lower-case hexadecimal. -/
def contextHash (context : EvaluationContext) : String :=
  String.ofList ((rt.sha256 (bytesOf (context.toJson.render rt))).flatMap fun byte =>
    [hexDigit (byte.toNat / 16), hexDigit (byte.toNat % 16)])

def command (auth : Authorized) (key : String) (hash : List UInt8) : Command :=
  { caller := auth.caller, actor := auth.actor, key, hash }

def validContext (context : EvaluationContext) : Bool :=
  validOpaqueId context.targetingKey
    && context.attributes.length ≤ config.maxAttributes
    && context.attributes.all (fun field => validKey field.1 128)
    && ((Json.object context.attributes).render rt).utf8ByteSize ≤ config.maxContextBytes

/-! ## Responses -/

structure FlagResponse where
  archived : Bool
  archivedAt : Option String
  createdAt : String
  description : Option String
  flagKey : String
  name : String
  organizationId : String
  revision : String
  updatedAt : String
  valueType : ValueType

structure EnvironmentResponse where
  createdAt : String
  environmentKey : String
  name : String
  organizationId : String
  revision : String
  updatedAt : String

structure PublishRulesetResponse where
  environmentKey : String
  environmentRevision : String
  flagKey : String
  flagRevision : String
  organizationId : String
  publishedAt : String
  publishedBy : String
  rulesetRevision : String

inductive Reason
  | targetMatch
  | percentageRollout
  | fallthrough
  deriving DecidableEq

structure EvaluationResponse where
  environmentKey : String
  evaluatedAt : String
  flagKey : String
  reason : Reason
  receiptId : String
  rulesetRevision : String
  value : PublishedValue
  variantKey : String

structure ReceiptResponse where
  contextHash : String
  environmentKey : String
  evaluatedAt : String
  evaluationId : String
  flagKey : String
  reason : Reason
  receiptId : String
  rulesetRevision : String
  variantKey : String

structure ListFlagsResponse where
  flags : List FlagResponse
  nextCursor : Option String

structure ListEvaluationReceiptsResponse where
  receipts : List ReceiptResponse
  nextCursor : Option String

def ValueType.ofWire : String → Option ValueType
  | "boolean" => some .boolean
  | "string" => some .string
  | "integer" => some .integer
  | "double" => some .double
  | "json" => some .json
  | _ => none

def Reason.ofWire : String → Option Reason
  | "target_match" => some .targetMatch
  | "percentage_rollout" => some .percentageRollout
  | "fallthrough" => some .fallthrough
  | _ => none

/-- A timestamp on the wire. -/
def timestamp (text : String) : Option String :=
  if platform.isTimestamp text then some text else none

/-- `wire_cast` to the response of a flag: the row number is left out. -/
def castFlag (record : FlagRecord) : Option FlagResponse := do
  let archivedAt ← match record.archivedAt with
    | some text => (timestamp platform text).map some
    | none => some none
  let createdAt ← timestamp platform record.createdAt
  let updatedAt ← timestamp platform record.updatedAt
  let valueType ← ValueType.ofWire record.valueType
  return { archived := record.archived, archivedAt, createdAt, description := record.description,
           flagKey := record.flagKey, name := record.name,
           organizationId := record.organizationId, revision := record.revision, updatedAt,
           valueType }

def castEnvironment (record : EnvironmentRecord) : Option EnvironmentResponse := do
  let createdAt ← timestamp platform record.createdAt
  let updatedAt ← timestamp platform record.updatedAt
  return { createdAt, environmentKey := record.environmentKey, name := record.name,
           organizationId := record.organizationId, revision := record.revision, updatedAt }

def castPublish (record : PublishRecord) : Option PublishRulesetResponse := do
  let publishedAt ← timestamp platform record.publishedAt
  return { environmentKey := record.environmentKey,
           environmentRevision := record.environmentRevision, flagKey := record.flagKey,
           flagRevision := record.flagRevision, organizationId := record.organizationId,
           publishedAt, publishedBy := record.publishedBy,
           rulesetRevision := record.rulesetRevision }

/-- A double that is not finite is `null` on the way, and no value after it. -/
def castValue (value : ValueRecord) : Option PublishedValue := do
  let valueType ← ValueType.ofWire value.valueType
  return { booleanValue := value.booleanValue,
           doubleValue := value.doubleValue.filter F64.isFinite,
           integerValue := value.integerValue, jsonValue := value.jsonValue,
           stringValue := value.stringValue, valueType }

def castEvaluation (record : EvaluationRecord) : Option EvaluationResponse := do
  let evaluatedAt ← timestamp platform record.evaluatedAt
  let reason ← Reason.ofWire record.reason
  let value ← castValue record.value
  return { environmentKey := record.environmentKey, evaluatedAt, flagKey := record.flagKey, reason,
           receiptId := record.receiptId, rulesetRevision := record.rulesetRevision, value,
           variantKey := record.variantKey }

def castReceipt (record : ReceiptRecord) : Option ReceiptResponse := do
  let evaluatedAt ← timestamp platform record.evaluatedAt
  let reason ← Reason.ofWire record.reason
  return { contextHash := record.contextHash, environmentKey := record.environmentKey, evaluatedAt,
           evaluationId := record.evaluationId, flagKey := record.flagKey, reason,
           receiptId := record.receiptId, rulesetRevision := record.rulesetRevision,
           variantKey := record.variantKey }

def serializationRuntime {E : Type} : PluginError E :=
  .runtime (.internal ("Feature Flag wire serialization failed: " ++ platform.jsonError))

def wireCast {E α : Type} (response : Option α) : Service (PluginError E) α :=
  orFail (serializationRuntime platform) response

/-! ## Operations -/

namespace FeatureFlags

def evaluate (request : EvaluateRequest) :
    Service (PluginError EvaluationError) EvaluationResponse := do
  let auth ← (authorize platform context config.evaluationCallers evaluationCapability "evaluate"
    request.organizationId featureEvaluate).mapError authEvaluation
  ensure (validKey request.evaluationId 200 && validKey request.environmentKey 128
    && validKey request.flagKey 128 && validContext rt config request.context)
    (.domain .invalidRequest)
  let record ← mapStorage platform evaluationError (← ask (.store (.write
    ⟨command auth request.evaluationId (requestHash rt request.toJson),
      .evaluate request.organizationId request.environmentKey request.flagKey
        request.context.targetingKey request.context.attributes
        (contextHash rt request.context)⟩)))
  wireCast platform (castEvaluation platform record)

def evaluateBatch (request : EvaluateBatchRequest) :
    Service (PluginError EvaluationError) (List EvaluationResponse) := do
  let auth ← (authorize platform context config.evaluationCallers evaluationCapability
    "evaluate_batch" request.organizationId featureEvaluate).mapError authEvaluation
  ensure (validKey request.batchId 200 && validKey request.environmentKey 128
    && !request.flagKeys.isEmpty && request.flagKeys.length ≤ config.maxBatchSize
    && (keySet request.flagKeys).length == request.flagKeys.length
    && request.flagKeys.all (validKey · 128) && validContext rt config request.context)
    (.domain .invalidRequest)
  let records ← mapStorage platform evaluationError (← ask (.store (.write
    ⟨command auth request.batchId (requestHash rt request.toJson),
      .evaluateBatch request.organizationId request.environmentKey request.flagKeys
        request.context.targetingKey request.context.attributes
        (contextHash rt request.context)⟩)))
  wireCast platform (optionAll (castEvaluation platform) records)

def createFlag (request : CreateFlagRequest) : Service (PluginError AdminError) FlagResponse := do
  let auth ← (authorize platform context config.adminCallers adminCapability "create_flag"
    request.organizationId featureAdmin).mapError authAdmin
  ensure (validKey request.idempotencyKey 200 && validKey request.flagKey 128
    && validText request.name 240 && validOptionalText request.description 4000)
    (.domain .invalidRequest)
  let record ← mapStorage platform adminError (← ask (.store (.write
    ⟨command auth request.idempotencyKey (requestHash rt request.toJson),
      .createFlag request.organizationId request.flagKey request.name request.description
        request.valueType.wireName⟩)))
  wireCast platform (castFlag platform record)

def getFlag (request : GetFlagRequest) : Service (PluginError AdminError) FlagResponse := do
  let _ ← (authorize platform context config.adminCallers adminCapability "get_flag"
    request.organizationId featureAdmin).mapError authAdmin
  ensure (validKey request.flagKey 128) (.domain .invalidRequest)
  let record ← mapStorage platform adminError
    (← ask (.store (.getFlag request.organizationId request.flagKey)))
  wireCast platform (castFlag platform record)

/-- One record more than asked for tells that there are more; the cursor is the number of the last
record of the page. -/
def page {α : Type} (limit : Int64) (rowSeq : α → Int) (records : List α) :
    List α × Option String :=
  if limit.toInt.toNat < records.length then
    (records.dropLast, records.dropLast.getLast?.map fun record => toString (rowSeq record))
  else (records, none)

/-- A cursor is the number of a record that was read. -/
theorem mem_of_page {α : Type} {limit : Int64} {rowSeq : α → Int} {records : List α}
    {cursor : String} (h : (page limit rowSeq records).2 = some cursor) :
    ∃ record ∈ records, cursor = toString (rowSeq record) := by
  unfold page at h
  split at h
  · obtain ⟨record, hrecord, heq⟩ := Option.map_eq_some_iff.mp h
    have hmem : record ∈ records.dropLast := List.mem_of_getLast? hrecord
    exact ⟨record, List.dropLast_subset records hmem, heq.symm⟩
  · cases h

def listFlags (request : ListFlagsRequest) :
    Service (PluginError AdminError) ListFlagsResponse := do
  let _ ← (authorize platform context config.adminCallers adminCapability "list_flags"
    request.organizationId featureAdmin).mapError authAdmin
  let after ← orFail (.domain .invalidRequest) (parseCursor request.after)
  ensure (1 ≤ request.limit && request.limit ≤ 200) (.domain .invalidRequest)
  let records ← mapStorage platform adminError (← ask (.store
    (.listFlags request.organizationId request.includeArchived after
      (request.limit + 1).toInt)))
  let (records, nextCursor) := page request.limit (·.rowSeq) records
  let flags ← wireCast platform (optionAll (castFlag platform) records)
  return { flags, nextCursor }

def updateFlag (request : UpdateFlagRequest) : Service (PluginError AdminError) FlagResponse := do
  let auth ← (authorize platform context config.adminCallers adminCapability "update_flag"
    request.organizationId featureAdmin).mapError authAdmin
  let revision ← orFail (.domain .invalidRequest)
    (validMutation request.idempotencyKey request.flagKey request.expectedRevision)
  ensure (validText request.name 240 && validOptionalText request.description 4000)
    (.domain .invalidRequest)
  let record ← mapStorage platform adminError (← ask (.store (.write
    ⟨command auth request.idempotencyKey (requestHash rt request.toJson),
      .updateFlag request.organizationId request.flagKey revision request.name
        request.description⟩)))
  wireCast platform (castFlag platform record)

def archiveFlag (request : ArchiveFlagRequest) :
    Service (PluginError AdminError) FlagResponse := do
  let auth ← (authorize platform context config.adminCallers adminCapability "archive_flag"
    request.organizationId featureAdmin).mapError authAdmin
  let revision ← orFail (.domain .invalidRequest)
    (validMutation request.idempotencyKey request.flagKey request.expectedRevision)
  let record ← mapStorage platform adminError (← ask (.store (.write
    ⟨command auth request.idempotencyKey (requestHash rt request.toJson),
      .archiveFlag request.organizationId request.flagKey revision⟩)))
  wireCast platform (castFlag platform record)

def putEnvironment (request : PutEnvironmentRequest) :
    Service (PluginError AdminError) EnvironmentResponse := do
  let auth ← (authorize platform context config.adminCallers adminCapability "put_environment"
    request.organizationId featureAdmin).mapError authAdmin
  let revision ← match request.expectedRevision with
    | none => pure none
    | some value => some <$> orFail (.domain .invalidRequest) (parseRevision value)
  ensure (validKey request.idempotencyKey 200 && validKey request.environmentKey 128
    && validText request.name 240
    && request.expectedRevision.isSome == revision.isSome) (.domain .invalidRequest)
  let record ← mapStorage platform adminError (← ask (.store (.write
    ⟨command auth request.idempotencyKey (requestHash rt request.toJson),
      .putEnvironment request.organizationId request.environmentKey request.name revision⟩)))
  wireCast platform (castEnvironment platform record)

def publishRuleset (request : PublishRulesetRequest) :
    Service (PluginError AdminError) PublishRulesetResponse := do
  let auth ← (authorize platform context config.adminCallers adminCapability "publish_ruleset"
    request.organizationId featureAdmin).mapError authAdmin
  let flagRevision ← orFail (.domain .invalidRequest)
    (validMutation request.idempotencyKey request.flagKey request.expectedFlagRevision)
  let environmentRevision ← orFail (.domain .invalidRequest)
    ((parseRevision request.expectedEnvironmentRevision).filter fun _ =>
      validKey request.environmentKey 128)
  let definition ← orFail (.domain .invalidRuleset) (rulesetDefinition request)
  let record ← mapStorage platform adminError (← ask (.store (.write
    ⟨command auth request.idempotencyKey (requestHash rt request.toJson),
      .publishRuleset request.organizationId request.flagKey request.environmentKey flagRevision
        environmentRevision definition⟩)))
  wireCast platform (castPublish platform record)

def listEvaluationReceipts (request : ListEvaluationReceiptsRequest) :
    Service (PluginError AdminError) ListEvaluationReceiptsResponse := do
  let _ ← (authorize platform context config.adminCallers adminCapability
    "list_evaluation_receipts" request.organizationId featureAdmin).mapError authAdmin
  let after ← orFail (.domain .invalidRequest) (parseCursor request.after)
  ensure (1 ≤ request.limit && request.limit ≤ 200
    && request.flagKey.all (validKey · 128) && request.environmentKey.all (validKey · 128))
    (.domain .invalidRequest)
  let records ← mapStorage platform adminError (← ask (.store
    (.listReceipts request.organizationId request.flagKey request.environmentKey after
      (request.limit + 1).toInt)))
  let (records, nextCursor) := page request.limit (·.rowSeq) records
  let receipts ← wireCast platform (optionAll (castReceipt platform) records)
  return { receipts, nextCursor }

end FeatureFlags

/-! ## Dispatch -/

inductive Request
  | evaluate (request : EvaluateRequest)
  | evaluateBatch (request : EvaluateBatchRequest)
  | createFlag (request : CreateFlagRequest)
  | getFlag (request : GetFlagRequest)
  | listFlags (request : ListFlagsRequest)
  | updateFlag (request : UpdateFlagRequest)
  | archiveFlag (request : ArchiveFlagRequest)
  | putEnvironment (request : PutEnvironmentRequest)
  | publishRuleset (request : PublishRulesetRequest)
  | listEvaluationReceipts (request : ListEvaluationReceiptsRequest)

inductive ServiceResponse
  | flag (response : FlagResponse)
  | environment (response : EnvironmentResponse)
  | publish (response : PublishRulesetResponse)
  | evaluation (response : EvaluationResponse)
  | evaluations (results : List EvaluationResponse)
  | flags (response : ListFlagsResponse)
  | receipts (response : ListEvaluationReceiptsResponse)

inductive ServiceError
  | evaluation (error : PluginError EvaluationError)
  | admin (error : PluginError AdminError)

/-- The two endpoints: each operation by its name. -/
def serve : Request → Service ServiceError ServiceResponse
  | .evaluate request =>
      .evaluation <$>
        (FeatureFlags.evaluate platform rt config context request).mapError .evaluation
  | .evaluateBatch request =>
      .evaluations <$>
        (FeatureFlags.evaluateBatch platform rt config context request).mapError .evaluation
  | .createFlag request =>
      .flag <$> (FeatureFlags.createFlag platform rt config context request).mapError .admin
  | .getFlag request =>
      .flag <$> (FeatureFlags.getFlag platform config context request).mapError .admin
  | .listFlags request =>
      .flags <$> (FeatureFlags.listFlags platform config context request).mapError .admin
  | .updateFlag request =>
      .flag <$> (FeatureFlags.updateFlag platform rt config context request).mapError .admin
  | .archiveFlag request =>
      .flag <$> (FeatureFlags.archiveFlag platform rt config context request).mapError .admin
  | .putEnvironment request =>
      .environment <$>
        (FeatureFlags.putEnvironment platform rt config context request).mapError .admin
  | .publishRuleset request =>
      .publish <$> (FeatureFlags.publishRuleset platform rt config context request).mapError .admin
  | .listEvaluationReceipts request =>
      .receipts <$>
        (FeatureFlags.listEvaluationReceipts platform config context request).mapError .admin

end Operations

end LensoFlags
