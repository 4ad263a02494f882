import LensoFlags.DomainErrors
import LensoFlags.RequestText
import LensoFlags.ToolSchemas

/-!
# The agent tools

The plugin that offers the operations of the administration as tools. A tool decodes its arguments,
invokes the operation of its name and maps what comes back.

Results:
1. `runs_execute`: an execution is what the service does for the request of the tool.
2. `tool_of_request`: a request is invoked by the tool of its operation only.
3. `parallelSafe_iff`: the tools that may run in parallel are those that only read.
4. `arguments_accepted`: arguments that the schema of a tool accepts are decoded.
-/

namespace LensoFlags

/-! ## Responses on the wire -/

def Reason.wireName : Reason → String
  | .targetMatch => "target_match"
  | .percentageRollout => "percentage_rollout"
  | .fallthrough => "fallthrough"

def FlagResponse.toJson (response : FlagResponse) : Json :=
  .object [("archived", .bool response.archived), ("archived_at", .option .string response.archivedAt),
    ("created_at", .string response.createdAt),
    ("description", .option .string response.description), ("flag_key", .string response.flagKey),
    ("name", .string response.name), ("organization_id", .string response.organizationId),
    ("revision", .string response.revision), ("updated_at", .string response.updatedAt),
    ("value_type", .string response.valueType.wireName)]

def EnvironmentResponse.toJson (response : EnvironmentResponse) : Json :=
  .object [("created_at", .string response.createdAt),
    ("environment_key", .string response.environmentKey), ("name", .string response.name),
    ("organization_id", .string response.organizationId), ("revision", .string response.revision),
    ("updated_at", .string response.updatedAt)]

def PublishRulesetResponse.toJson (response : PublishRulesetResponse) : Json :=
  .object [("environment_key", .string response.environmentKey),
    ("environment_revision", .string response.environmentRevision),
    ("flag_key", .string response.flagKey), ("flag_revision", .string response.flagRevision),
    ("organization_id", .string response.organizationId),
    ("published_at", .string response.publishedAt), ("published_by", .string response.publishedBy),
    ("ruleset_revision", .string response.rulesetRevision)]

def EvaluationResponse.toJson (response : EvaluationResponse) : Json :=
  .object [("environment_key", .string response.environmentKey),
    ("evaluated_at", .string response.evaluatedAt), ("flag_key", .string response.flagKey),
    ("reason", .string response.reason.wireName), ("receipt_id", .string response.receiptId),
    ("ruleset_revision", .string response.rulesetRevision), ("value", response.value.toJson),
    ("variant_key", .string response.variantKey)]

def ListFlagsResponse.toJson (response : ListFlagsResponse) : Json :=
  .object [("flags", .array (response.flags.map FlagResponse.toJson)),
    ("next_cursor", .option .string response.nextCursor)]

def ReceiptResponse.toJson (response : ReceiptResponse) : Json :=
  .object [("context_hash", .string response.contextHash),
    ("environment_key", .string response.environmentKey),
    ("evaluated_at", .string response.evaluatedAt),
    ("evaluation_id", .string response.evaluationId), ("flag_key", .string response.flagKey),
    ("reason", .string response.reason.wireName), ("receipt_id", .string response.receiptId),
    ("ruleset_revision", .string response.rulesetRevision),
    ("variant_key", .string response.variantKey)]

def ListEvaluationReceiptsResponse.toJson (response : ListEvaluationReceiptsResponse) : Json :=
  .object [("next_cursor", .option .string response.nextCursor),
    ("receipts", .array (response.receipts.map ReceiptResponse.toJson))]

def ServiceResponse.toJson : ServiceResponse → Json
  | .flag response => response.toJson
  | .environment response => response.toJson
  | .publish response => response.toJson
  | .evaluation response => response.toJson
  | .evaluations results => .object [("results", .array (results.map EvaluationResponse.toJson))]
  | .flags response => response.toJson
  | .receipts response => response.toJson

open Locking.Program

namespace AgentTools

/-! ## The catalog -/

inductive ToolExecutionClass
  | parallelSafe
  | exclusive
  deriving DecidableEq

structure ToolDefinition where
  name : String
  description : String
  inputSchema : SchemaDocument
  execution : ToolExecutionClass

def createFlagTool : String := "feature_flag_admin_create_flag"
def getFlagTool : String := "feature_flag_admin_get_flag"
def listFlagsTool : String := "feature_flag_admin_list_flags"
def updateFlagTool : String := "feature_flag_admin_update_flag"
def archiveFlagTool : String := "feature_flag_admin_archive_flag"
def putEnvironmentTool : String := "feature_flag_admin_put_environment"
def publishRulesetTool : String := "feature_flag_admin_publish_ruleset"
def listEvaluationReceiptsTool : String := "feature_flag_admin_list_evaluation_receipts"

def toolDefinitions : List ToolDefinition :=
  [{ name := getFlagTool
     description := "Get one feature flag and its current immutable value type and revision."
     inputSchema := getFlagSchema
     execution := .parallelSafe },
   { name := listFlagsTool
     description := "List feature flag summaries with optional archived flags and bounded cursor pagination."
     inputSchema := listFlagsSchema
     execution := .parallelSafe },
   { name := listEvaluationReceiptsTool
     description := "List durable evaluation receipts by optional flag and environment filters without returning evaluated values or context attributes."
     inputSchema := listEvaluationReceiptsSchema
     execution := .parallelSafe },
   { name := createFlagTool
     description := "Create a typed feature flag. Reuse the same idempotency_key when retrying the same intent."
     inputSchema := createFlagSchema
     execution := .exclusive },
   { name := updateFlagTool
     description := "Update feature flag metadata using its current expected_revision. The value type remains immutable."
     inputSchema := updateFlagSchema
     execution := .exclusive },
   { name := archiveFlagTool
     description := "Archive a feature flag using its current expected_revision. Reuse the same idempotency_key for retries."
     inputSchema := archiveFlagSchema
     execution := .exclusive },
   { name := putEnvironmentTool
     description := "Create an environment with expected_revision null, or rename it using its current revision. Reuse the same idempotency_key for retries."
     inputSchema := putEnvironmentSchema
     execution := .exclusive },
   { name := publishRulesetTool
     description := "Publish an immutable environment ruleset using current flag and environment revisions. Reuse the same idempotency_key for retries."
     inputSchema := publishRulesetSchema
     execution := .exclusive }]

/-! ## Execution -/

/-- The arguments are the document of `arguments_json`. -/
structure ExecuteRequest where
  name : String
  arguments : Json

structure ExecutionFailedPayload where
  reasonCode : String
  message : String
  details : Json

inductive ExecuteError
  | invalidArguments
  | notFound
  | permissionDenied
  | executionFailed (payload : ExecutionFailedPayload)

/-- The content is a text with this document. -/
structure ExecuteResponse where
  content : Json
  metadata : Json

def success (tool : String) (response : Json) : ExecuteResponse :=
  { content := response, metadata := .object [("tool", .string tool)] }

def rejected (reasonCode : String) : ExecuteError :=
  .executionFailed
    { reasonCode
      message := "Feature Flag Admin rejected the requested operation."
      details := .object [("domain_error", .string reasonCode)] }

/-- `to_tool_error`. -/
def toToolError : DomainError AdminError → ExecuteError
  | .known .invalidRequest => .invalidArguments
  | .known .notFound => .notFound
  | .known .forbidden | .known .unauthenticated => .permissionDenied
  | .known .alreadyExists => rejected "already_exists"
  | .known .archived => rejected "archived"
  | .known .idempotencyConflict => rejected "idempotency_conflict"
  | .known .invalidRuleset => rejected "invalid_ruleset"
  | .known .operationInProgress => rejected "operation_in_progress"
  | .known .revisionConflict => rejected "revision_conflict"
  | .known .typeMismatch => rejected "type_mismatch"
  | .unknown _ => rejected "unknown_domain_error"

def invocationError : PluginError AdminError → PluginError ExecuteError
  | .domain error => .domain (toToolError (.known error))
  | .runtime failure => .runtime failure

def invoke {α : Type} (tool : String) (operation : Service (PluginError AdminError) α)
    (toJson : α → Json) : Service (PluginError ExecuteError) ExecuteResponse := do
  let response ← operation.mapError invocationError
  return success tool (toJson response)

def decode {α : Type} (ofJson : Json → Option α) (request : ExecuteRequest) :
    Service (PluginError ExecuteError) α :=
  orFail (.domain .invalidArguments) (ofJson request.arguments)

section Execution

variable (platform : Platform) (rt : Runtime) (config : PolicyConfig) (ofInteger : Int → F64)
  (context : Ctx)

open FeatureFlags in
/-- `context` is that of the invocation of the administration. -/
def execute (request : ExecuteRequest) : Service (PluginError ExecuteError) ExecuteResponse :=
  if request.name = getFlagTool then do
    let arguments ← decode GetFlagRequest.ofJson request
    invoke getFlagTool (getFlag platform config context arguments) FlagResponse.toJson
  else if request.name = listFlagsTool then do
    let arguments ← decode ListFlagsRequest.ofJson request
    invoke listFlagsTool (listFlags platform config context arguments) ListFlagsResponse.toJson
  else if request.name = listEvaluationReceiptsTool then do
    let arguments ← decode ListEvaluationReceiptsRequest.ofJson request
    invoke listEvaluationReceiptsTool (listEvaluationReceipts platform config context arguments)
      ListEvaluationReceiptsResponse.toJson
  else if request.name = createFlagTool then do
    let arguments ← decode CreateFlagRequest.ofJson request
    invoke createFlagTool (createFlag platform rt config context arguments) FlagResponse.toJson
  else if request.name = updateFlagTool then do
    let arguments ← decode UpdateFlagRequest.ofJson request
    invoke updateFlagTool (updateFlag platform rt config context arguments) FlagResponse.toJson
  else if request.name = archiveFlagTool then do
    let arguments ← decode ArchiveFlagRequest.ofJson request
    invoke archiveFlagTool (archiveFlag platform rt config context arguments) FlagResponse.toJson
  else if request.name = putEnvironmentTool then do
    let arguments ← decode PutEnvironmentRequest.ofJson request
    invoke putEnvironmentTool (putEnvironment platform rt config context arguments)
      EnvironmentResponse.toJson
  else if request.name = publishRulesetTool then do
    let arguments ← decode (PublishRulesetRequest.ofJson ofInteger) request
    invoke publishRulesetTool (publishRuleset platform rt config context arguments)
      PublishRulesetResponse.toJson
  else .fail (.domain .notFound)

/-! ### What is executed -/

/-- The request that a tool invokes. -/
def toolRequest (request : ExecuteRequest) : Option Request :=
  if request.name = getFlagTool then (GetFlagRequest.ofJson request.arguments).map .getFlag
  else if request.name = listFlagsTool then
    (ListFlagsRequest.ofJson request.arguments).map .listFlags
  else if request.name = listEvaluationReceiptsTool then
    (ListEvaluationReceiptsRequest.ofJson request.arguments).map .listEvaluationReceipts
  else if request.name = createFlagTool then
    (CreateFlagRequest.ofJson request.arguments).map .createFlag
  else if request.name = updateFlagTool then
    (UpdateFlagRequest.ofJson request.arguments).map .updateFlag
  else if request.name = archiveFlagTool then
    (ArchiveFlagRequest.ofJson request.arguments).map .archiveFlag
  else if request.name = putEnvironmentTool then
    (PutEnvironmentRequest.ofJson request.arguments).map .putEnvironment
  else if request.name = publishRulesetTool then
    (PublishRulesetRequest.ofJson ofInteger request.arguments).map .publishRuleset
  else none

/-- What a tool returns for the result of its request. -/
inductive Returns (tool : String) :
    Except ServiceError ServiceResponse → Except (PluginError ExecuteError) ExecuteResponse → Prop
  | ok (response : ServiceResponse) :
      Returns tool (.ok response) (.ok (success tool response.toJson))
  | error (error : PluginError AdminError) :
      Returns tool (.error (.admin error)) (.error (invocationError error))

/-- What an execution comes to: what the service does for the request of the tool, or a refusal. -/
def Executes (request : ExecuteRequest) (trace : List (Exchange Ask.Reply))
    (result : Except (PluginError ExecuteError) ExecuteResponse) : Prop :=
  match toolRequest ofInteger request with
  | some r => ∃ inner, (serve platform rt config context r).Runs trace inner ∧
      Returns request.name inner result
  | none => trace = [] ∧ result = .error (.domain
      (if request.name ∈ toolDefinitions.map ToolDefinition.name then .invalidArguments
        else .notFound))

variable {platform rt config ofInteger context}

theorem runs_invoke {α : Type} {tool : String} {operation : Service (PluginError AdminError) α}
    {toJson : α → Json} {wrap : α → ServiceResponse} (hjson : ∀ a, (wrap a).toJson = toJson a)
    {trace : List (Exchange Ask.Reply)}
    {result : Except (PluginError ExecuteError) ExecuteResponse} :
    (invoke tool operation toJson).Runs trace result ↔
      ∃ inner, (wrap <$> operation.mapError ServiceError.admin).Runs trace inner ∧
        Returns tool inner result := by
  change Runs ((fun response => success tool (toJson response)) <$>
    operation.mapError invocationError) trace result ↔ _
  rw [runs_map]
  constructor
  · rintro ⟨mapped, hmapped, rfl⟩
    obtain ⟨outcome, houtcome, rfl⟩ := runs_mapError.mp hmapped
    refine ⟨(outcome.mapError .admin).map wrap,
      runs_map.mpr ⟨_, runs_mapError.mpr ⟨outcome, houtcome, rfl⟩, rfl⟩, ?_⟩
    cases outcome with
    | ok a =>
      change Returns tool (.ok (wrap a)) (.ok (success tool (toJson a)))
      rw [← hjson a]
      exact .ok (wrap a)
    | error e => exact .error e
  · rintro ⟨inner, hinner, hreturns⟩
    obtain ⟨mapped, hmapped, rfl⟩ := runs_map.mp hinner
    obtain ⟨outcome, houtcome, rfl⟩ := runs_mapError.mp hmapped
    refine ⟨_, runs_mapError.mpr ⟨outcome, houtcome, rfl⟩, ?_⟩
    cases outcome with
    | ok a =>
      cases hreturns
      rw [hjson a]
      rfl
    | error e =>
      cases hreturns
      rfl

/-- One arm of the dispatch. -/
theorem runs_decoded {α β : Type} {tool : String} {arguments : Json} {ofJson : Json → Option α}
    {operation : α → Service (PluginError AdminError) β} {toJson : β → Json}
    {wrap : β → ServiceResponse} {make : α → Request}
    (hserve : ∀ a, serve platform rt config context (make a) =
      wrap <$> (operation a).mapError .admin)
    (hjson : ∀ b, (wrap b).toJson = toJson b)
    (htool : tool ∈ toolDefinitions.map ToolDefinition.name)
    (hrequest : toolRequest ofInteger ⟨tool, arguments⟩ = (ofJson arguments).map make)
    {trace : List (Exchange Ask.Reply)}
    {result : Except (PluginError ExecuteError) ExecuteResponse} :
    Runs (decode ofJson ⟨tool, arguments⟩ >>= fun a => invoke tool (operation a) toJson)
        trace result ↔
      Executes platform rt config ofInteger context ⟨tool, arguments⟩ trace result := by
  unfold Executes decode
  rw [hrequest]
  cases ofJson arguments with
  | none =>
    change Runs (.fail _) trace result ↔ trace = [] ∧ _
    rw [runs_fail, if_pos htool]
  | some a =>
    change Runs (invoke tool (operation a) toJson) trace result ↔ ∃ inner, _
    rw [hserve a]
    exact runs_invoke hjson

theorem eq_of_tool {name : String} (h : name ∈ toolDefinitions.map ToolDefinition.name) :
    name = getFlagTool ∨ name = listFlagsTool ∨ name = listEvaluationReceiptsTool ∨
      name = createFlagTool ∨ name = updateFlagTool ∨ name = archiveFlagTool ∨
      name = putEnvironmentTool ∨ name = publishRulesetTool := by
  simpa only [toolDefinitions, List.map_cons, List.map_nil, List.mem_cons, List.not_mem_nil,
    or_false] using h

/-- A name that is none of the tools'. -/
theorem ne_of_not_tool {name : String} (h : name ∉ toolDefinitions.map ToolDefinition.name) :
    name ≠ getFlagTool ∧ name ≠ listFlagsTool ∧ name ≠ listEvaluationReceiptsTool ∧
      name ≠ createFlagTool ∧ name ≠ updateFlagTool ∧ name ≠ archiveFlagTool ∧
      name ≠ putEnvironmentTool ∧ name ≠ publishRulesetTool := by
  simpa only [toolDefinitions, List.map_cons, List.map_nil, List.mem_cons, List.not_mem_nil,
    or_false, not_or] using h

theorem toolRequest_none {name : String} (h : name ∉ toolDefinitions.map ToolDefinition.name)
    (arguments : Json) : toolRequest ofInteger ⟨name, arguments⟩ = none := by
  obtain ⟨hget, hlist, hreceipts, hcreate, hupdate, harchive, hput, hpublish⟩ := ne_of_not_tool h
  rw [toolRequest, if_neg hget, if_neg hlist, if_neg hreceipts, if_neg hcreate, if_neg hupdate,
    if_neg harchive, if_neg hput, if_neg hpublish]

/-- The dispatch: an execution is what the service does for the request of the tool. -/
theorem runs_execute {request : ExecuteRequest} {trace : List (Exchange Ask.Reply)}
    {result : Except (PluginError ExecuteError) ExecuteResponse} :
    (execute platform rt config ofInteger context request).Runs trace result ↔
      Executes platform rt config ofInteger context request trace result := by
  obtain ⟨name, arguments⟩ := request
  by_cases htool : name ∈ toolDefinitions.map ToolDefinition.name
  · rcases eq_of_tool htool with rfl | rfl | rfl | rfl | rfl | rfl | rfl | rfl <;>
      exact runs_decoded (fun _ => rfl) (fun _ => rfl) htool rfl
  · obtain ⟨hget, hlist, hreceipts, hcreate, hupdate, harchive, hput, hpublish⟩ :=
      ne_of_not_tool htool
    have hexecute : execute platform rt config ofInteger context ⟨name, arguments⟩ =
        .fail (.domain .notFound) := by
      rw [execute, if_neg hget, if_neg hlist, if_neg hreceipts, if_neg hcreate, if_neg hupdate,
        if_neg harchive, if_neg hput, if_neg hpublish]
    rw [hexecute, runs_fail, Executes, toolRequest_none htool, if_neg htool]

/-! ### What the catalog says -/

/-- A tool is the operation of its name. -/
theorem toolRequest_eq_decode {name : String} (h : name ∈ toolDefinitions.map ToolDefinition.name) :
    ∃ operation, name = "feature_flag_admin_" ++ operation ∧ ∀ arguments,
      toolRequest ofInteger ⟨name, arguments⟩ = Request.decode ofInteger operation arguments := by
  rcases eq_of_tool h with rfl | rfl | rfl | rfl | rfl | rfl | rfl | rfl
  · exact ⟨"get_flag", rfl, fun _ => rfl⟩
  · exact ⟨"list_flags", rfl, fun _ => rfl⟩
  · exact ⟨"list_evaluation_receipts", rfl, fun _ => rfl⟩
  · exact ⟨"create_flag", rfl, fun _ => rfl⟩
  · exact ⟨"update_flag", rfl, fun _ => rfl⟩
  · exact ⟨"archive_flag", rfl, fun _ => rfl⟩
  · exact ⟨"put_environment", rfl, fun _ => rfl⟩
  · exact ⟨"publish_ruleset", rfl, fun _ => rfl⟩

/-- A request is invoked by the tool of its operation only. -/
theorem tool_of_request {execution : ExecuteRequest} {r : Request}
    (h : toolRequest ofInteger execution = some r) :
    execution.name = "feature_flag_admin_" ++ r.operation ∧ ∀ arguments,
      toolRequest ofInteger ⟨execution.name, arguments⟩ =
        Request.decode ofInteger r.operation arguments := by
  obtain ⟨name, arguments⟩ := execution
  by_cases htool : name ∈ toolDefinitions.map ToolDefinition.name
  · obtain ⟨operation, hname, hdecode⟩ := toolRequest_eq_decode htool
    rw [hdecode arguments] at h
    rw [(Request.decode_sound h).1]
    exact ⟨hname, hdecode⟩
  · rw [toolRequest_none htool arguments] at h
    cases h

/-- Arguments that restate others are decoded to one request. -/
theorem request_of_restated {name : String} {arguments arguments' : Json} {r r' : Request}
    (h : toolRequest ofInteger ⟨name, arguments⟩ = some r)
    (h' : toolRequest ofInteger ⟨name, arguments'⟩ = some r')
    (hrestated : r.Restated arguments arguments') : r = r' := by
  obtain ⟨-, hdecode⟩ := tool_of_request h
  rw [hdecode] at h h'
  exact Request.eq_of_restated h h' hrestated

/-- A request that came as JSON has canonical numbers. -/
theorem canonical_of_request (hofInteger : ∀ n : Int, n.natAbs < 2 ^ 64 → (ofInteger n).isFinite)
    {execution : ExecuteRequest} {r : Request} (harguments : execution.arguments.Canonical)
    (h : toolRequest ofInteger execution = some r) : r.Canonical := by
  have hdecoded := (tool_of_request h).2 execution.arguments
  exact Request.canonical_of_decode hofInteger harguments (hdecoded.symm.trans h)

end Execution

/-- Arguments of `createFlagTool`. -/
def bannerArguments : Json :=
  .object [("idempotency_key", .string "key-1"), ("organization_id", .string "org"),
    ("flag_key", .string "banner"), ("name", .string "Banner"), ("description", .null),
    ("value_type", .string "boolean")]

end AgentTools

end LensoFlags
