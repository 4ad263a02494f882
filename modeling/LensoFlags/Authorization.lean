import LensoFlags.Service

/-!
# Authorization before access

What each operation is to be authorized for is a table (`Request.callers` and the functions after
it); the ten operations of the service wire it by hand.

1. `authorize_runs`: an authorization that succeeds has asked for all of it.
2. `access_authorized`: the store is reached only after that, for the organization, the caller and
   the actor that were checked; every other run is denied.
-/

namespace LensoFlags

open Locking (Program)
open Locking.Program

/-! ## What an operation needs -/

namespace Request

def organizationId : Request → String
  | .evaluate request => request.organizationId
  | .evaluateBatch request => request.organizationId
  | .createFlag request => request.organizationId
  | .getFlag request => request.organizationId
  | .listFlags request => request.organizationId
  | .updateFlag request => request.organizationId
  | .archiveFlag request => request.organizationId
  | .putEnvironment request => request.organizationId
  | .publishRuleset request => request.organizationId
  | .listEvaluationReceipts request => request.organizationId

def operation : Request → String
  | .evaluate _ => "evaluate"
  | .evaluateBatch _ => "evaluate_batch"
  | .createFlag _ => "create_flag"
  | .getFlag _ => "get_flag"
  | .listFlags _ => "list_flags"
  | .updateFlag _ => "update_flag"
  | .archiveFlag _ => "archive_flag"
  | .putEnvironment _ => "put_environment"
  | .publishRuleset _ => "publish_ruleset"
  | .listEvaluationReceipts _ => "list_evaluation_receipts"

/-- The request is one of the evaluation capability, not of the administration. -/
def isEvaluation : Request → Bool
  | .evaluate _ | .evaluateBatch _ => true
  | _ => false

def capability (request : Request) : String :=
  if request.isEvaluation then "lenso.feature-evaluation@1" else "lenso.feature-flag-admin@1"

def permission (request : Request) : String :=
  if request.isEvaluation then "feature-flags.evaluate" else "feature-flags.admin"

def callers (config : PolicyConfig) (request : Request) : List String :=
  if request.isEvaluation then config.evaluationCallers else config.adminCallers

end Request

/-- The caller is listed, the organization and the actor are ids, and the four answers an operation
needs are among the exchanges. -/
structure Granted (context : Ctx) (callers : List String)
    (capability operation organizationId permission : String) (auth : Authorized)
    (exchanges : List (Exchange Ask.Reply)) : Prop where
  caller : context.callerInstance = some auth.caller ∧ auth.caller ∈ callers
  identified : validOpaqueId organizationId = true ∧ validOpaqueId auth.actor = true
  projected : ⟨.projectContext capability operation, some auth.actor⟩ ∈ exchanges
  member : ⟨.checkMembership organizationId auth.actor, .ok true⟩ ∈ exchanges
  allowed : ⟨.checkPermission auth.actor "organization" organizationId permission, .ok true⟩ ∈
    exchanges

/-- All that the operation of the request needs. -/
def Request.Granted (config : PolicyConfig) (context : Ctx) (request : Request) (auth : Authorized)
    (exchanges : List (Exchange Ask.Reply)) : Prop :=
  LensoFlags.Granted context (request.callers config) request.capability request.operation
    request.organizationId request.permission auth exchanges

/-- The call is about the organization, and its command names the caller and the actor. -/
def Uses (organizationId : String) (auth : Authorized) (call : StoreCall) : Prop :=
  call.organizationId = organizationId ∧
    ∀ command, call.command = some command →
      command.caller = auth.caller ∧ command.actor = auth.actor

/-- The question goes to the store. -/
def Ask.IsStore : Ask → Prop
  | .store _ => True
  | _ => False

/-- The question is such a call to the store. -/
def Ask.UsesStore (organizationId : String) (auth : Authorized) : Ask → Prop
  | .store call => Uses organizationId auth call
  | _ => False

/-- The refusals of the authorization, as the two capabilities name them. -/
inductive Denied : Except ServiceError ServiceResponse → Prop
  | evaluationForbidden : Denied (.error (.evaluation (.domain .forbidden)))
  | evaluationUnauthenticated : Denied (.error (.evaluation (.domain .unauthenticated)))
  | evaluationRuntime (failure : RuntimeFailure) : Denied (.error (.evaluation (.runtime failure)))
  | adminForbidden : Denied (.error (.admin (.domain .forbidden)))
  | adminUnauthenticated : Denied (.error (.admin (.domain .unauthenticated)))
  | adminRuntime (failure : RuntimeFailure) : Denied (.error (.admin (.runtime failure)))

/-! ## The steps of an operation -/

section Steps

variable {E α β : Type}

theorem silent_ensure {condition : Bool} {e : E} :
    Silent (ensure condition e : Service E Unit) := by
  unfold ensure
  split <;> trivial

theorem silent_orFail {e : E} {o : Option α} : Silent (orFail e o : Service E α) := by
  cases o <;> trivial

theorem silent_wireCast {platform : Platform} {response : Option α} :
    Silent (wireCast platform response : Service (PluginError E) α) :=
  silent_orFail

theorem silent_mapStorage {platform : Platform} {map : DomainFailure → E}
    {x : Except StorageError α} : Silent (mapStorage platform map x) := by
  cases x with
  | ok value => trivial
  | error e => cases e <;> trivial

theorem runs_ask {a : Ask} {f : a.Reply → Service E β} {trace : List (Exchange Ask.Reply)}
    {result : Except E β} (h : Runs (ask a >>= f) trace result) :
    ∃ reply rest, trace = ⟨a, reply⟩ :: rest ∧ Runs (f reply) rest result :=
  runs_step.mp h

theorem asks_store {P : Ask → Prop} {call : StoreCall} {f : (Ask.store call).Reply → Service E β}
    (hcall : P (.store call)) (hrest : ∀ reply, Silent (f reply)) :
    Asks P (ask (.store call) >>= f) :=
  ⟨hcall, hrest⟩

theorem silent_orProvider {capability : String} {x : Except ProviderError α} :
    Silent (orProvider capability x) := by
  cases x with
  | ok value => trivial
  | error e => cases e <;> trivial

theorem ensure_eq_ret {condition : Bool} {e : E} {a : Unit}
    (h : (ensure condition e : Service E Unit) = .ret a) : condition = true := by
  cases condition with
  | true => rfl
  | false => cases h

theorem orFail_eq_ret {o : Option α} {e : E} {a : α} (h : (orFail e o : Service E α) = .ret a) :
    o = some a := by
  cases o with
  | some a => exact congrArg some (Program.ret.inj h)
  | none => cases h

theorem orProvider_eq_ret {capability : String} {x : Except ProviderError α} {a : α}
    (h : orProvider capability x = .ret a) : x = .ok a := by
  cases x with
  | ok value => exact congrArg Except.ok (Program.ret.inj h)
  | error e => cases e <;> cases h

end Steps

/-! ## Authorization -/

section Authorize

variable {platform : Platform} {config : PolicyConfig} {context : Ctx} {callers : List String}
  {capability operation organizationId permission : String} {E α : Type}

theorem authorize_never : Never Ask.IsStore
    (FeatureFlags.authorize platform context callers capability operation organizationId
      permission) := by
  unfold FeatureFlags.authorize
  refine silent_orFail.never.bind fun caller => ⟨id, fun _ => ?_⟩
  refine silent_ensure.never.bind fun _ => ⟨id, fun _ => ?_⟩
  refine silent_orFail.never.bind fun actor => silent_ensure.never.bind fun _ => ⟨id, fun _ => ?_⟩
  refine silent_orProvider.never.bind fun _ => silent_ensure.never.bind fun _ => ⟨id, fun _ => ?_⟩
  exact silent_orProvider.never.bind fun _ => silent_ensure.never.bind fun _ => trivial

theorem authorize_runs {trace : List (Exchange Ask.Reply)} {auth : Authorized}
    (h : Runs (FeatureFlags.authorize platform context callers capability operation organizationId
      permission) trace (.ok auth)) :
    Granted context callers capability operation organizationId permission auth trace := by
  unfold FeatureFlags.authorize at h
  obtain ⟨caller, hcaller, h₁⟩ := silent_orFail.runs_bind_ok h
  obtain ⟨_, _, rfl, h₂⟩ := runs_ask h₁
  obtain ⟨_, -, h₃⟩ := silent_ensure.runs_bind_ok h₂
  obtain ⟨subject, _, rfl, h₄⟩ := runs_ask h₃
  obtain ⟨actor, hactor, h₅⟩ := silent_orFail.runs_bind_ok h₄
  obtain ⟨_, hids, h₆⟩ := silent_ensure.runs_bind_ok h₅
  obtain ⟨membership, _, rfl, h₇⟩ := runs_ask h₆
  obtain ⟨active, hmembership, h₈⟩ := silent_orProvider.runs_bind_ok h₇
  obtain ⟨_, hactive, h₉⟩ := silent_ensure.runs_bind_ok h₈
  obtain ⟨decision, _, rfl, h₁₀⟩ := runs_ask h₉
  obtain ⟨allowed, hdecision, h₁₁⟩ := silent_orProvider.runs_bind_ok h₁₀
  obtain ⟨_, hallowed, h₁₂⟩ := silent_ensure.runs_bind_ok h₁₁
  obtain ⟨rfl, hauth⟩ := runs_ret.mp h₁₂
  cases hauth
  -- Each answer is the one that let the program go on.
  obtain rfl := orFail_eq_ret hactor
  obtain rfl := orProvider_eq_ret hmembership
  obtain rfl := ensure_eq_ret hactive
  obtain rfl := orProvider_eq_ret hdecision
  obtain rfl := ensure_eq_ret hallowed
  obtain ⟨hinstance, hlisted⟩ := Option.filter_eq_some_iff.mp (orFail_eq_ret hcaller)
  obtain ⟨entry, hentry, heq⟩ := List.any_eq_true.mp hlisted
  refine ⟨⟨hinstance, beq_iff_eq.mp heq ▸ hentry⟩, Bool.and_eq_true_iff.mp (ensure_eq_ret hids), ?_,
    ?_, ?_⟩
  · simp
  · simp
  · simp

/-- The runs of an operation: the authorization failed without asking the store, or it was granted
and what follows asks the store at most once. -/
theorem gated {f : AuthorizationFailure → E} {rest : Authorized → Service E α}
    (hrest : ∀ auth, Asks (Ask.UsesStore organizationId auth) (rest auth))
    {trace : List (Exchange Ask.Reply)} {result : Except E α}
    (h : Runs ((FeatureFlags.authorize platform context callers capability operation organizationId
      permission).mapError f >>= rest) trace result) :
    (∃ failure, result = .error (f failure) ∧ ∀ exchange ∈ trace, ¬exchange.1.IsStore) ∨
      ∃ auth first,
        Granted context callers capability operation organizationId permission auth first ∧
          (∀ exchange ∈ first, ¬exchange.1.IsStore) ∧
          (trace = first ∨ ∃ call reply, trace = first ++ [⟨.store call, reply⟩] ∧
            Uses organizationId auth call) := by
  rcases runs_bind.mp h with ⟨e, rfl, hfailed⟩ | ⟨first, second, auth, rfl, hfirst, hsecond⟩
  · obtain ⟨inner, hinner, he⟩ := runs_mapError.mp hfailed
    cases inner with
    | ok auth => cases he
    | error failure =>
      cases he
      exact .inl ⟨failure, rfl, authorize_never.runs hinner⟩
  · obtain ⟨inner, hinner, hauth⟩ := runs_mapError.mp hfirst
    cases inner with
    | error failure => cases hauth
    | ok granted =>
      obtain rfl := Except.ok.inj hauth
      refine .inr ⟨auth, first, authorize_runs hinner, authorize_never.runs hinner, ?_⟩
      rcases (hrest auth).runs hsecond with rfl | ⟨s, reply, rfl, huses⟩
      · exact .inl (List.append_nil first)
      · cases s with
        | store call => exact .inr ⟨call, reply, rfl, huses⟩
        | _ => exact huses.elim

end Authorize

/-! ## The ten operations -/

section Operations

variable {platform : Platform} {rt : Runtime} {config : PolicyConfig} {context : Ctx}

/-- A run of an operation behind its endpoint. -/
theorem runs_endpoint {E α : Type} {wrap : E → ServiceError} {respond : α → ServiceResponse}
    {p : Service E α} {trace : List (Exchange Ask.Reply)}
    {result : Except ServiceError ServiceResponse}
    (h : Runs (respond <$> p.mapError wrap) trace result) :
    ∃ inner, Runs p trace inner ∧ result = (inner.mapError wrap).map respond := by
  rcases runs_bind.mp h with ⟨e, rfl, hfailed⟩ | ⟨first, second, a, rfl, hfirst, hsecond⟩
  · obtain ⟨inner, hinner, he⟩ := runs_mapError.mp hfailed
    refine ⟨inner, hinner, ?_⟩
    rw [← he]
    rfl
  · obtain ⟨rfl, rfl⟩ := runs_ret.mp hsecond
    obtain ⟨inner, hinner, ha⟩ := runs_mapError.mp hfirst
    refine ⟨inner, ?_, ?_⟩
    · rw [List.append_nil]
      exact hinner
    · rw [← ha]
      rfl

theorem denied_evaluation {α : Type} {respond : α → ServiceResponse}
    (failure : AuthorizationFailure) :
    Denied (((.error (authEvaluation failure) : Except _ α).mapError .evaluation).map respond) := by
  cases failure with
  | unauthenticated => exact .evaluationUnauthenticated
  | forbidden => exact .evaluationForbidden
  | runtime failure => exact .evaluationRuntime failure

theorem denied_admin {α : Type} {respond : α → ServiceResponse} (failure : AuthorizationFailure) :
    Denied (((.error (authAdmin failure) : Except _ α).mapError .admin).map respond) := by
  cases failure with
  | unauthenticated => exact .adminUnauthenticated
  | forbidden => exact .adminForbidden
  | runtime failure => exact .adminRuntime failure

/-- The runs of a request: a denial, or the checks and at most one call of the store after them. -/
def Served (config : PolicyConfig) (context : Ctx) (request : Request)
    (trace : List (Exchange Ask.Reply)) (result : Except ServiceError ServiceResponse) : Prop :=
  (Denied result ∧ ∀ exchange ∈ trace, ¬exchange.1.IsStore) ∨
    ∃ auth first, request.Granted config context auth first ∧
      (∀ exchange ∈ first, ¬exchange.1.IsStore) ∧
      (trace = first ∨ ∃ call reply, trace = first ++ [⟨.store call, reply⟩] ∧
        Uses request.organizationId auth call)

theorem served_evaluation {request : Request} (hkind : request.isEvaluation = true) {α : Type}
    {respond : α → ServiceResponse}
    {rest : Authorized → Service (PluginError EvaluationError) α}
    (hrest : ∀ auth, Asks (Ask.UsesStore request.organizationId auth) (rest auth))
    {trace : List (Exchange Ask.Reply)} {result : Except ServiceError ServiceResponse}
    (h : Runs (respond <$> ((FeatureFlags.authorize platform context config.evaluationCallers
      evaluationCapability request.operation request.organizationId featureEvaluate).mapError
        authEvaluation >>= rest).mapError .evaluation) trace result) :
    Served config context request trace result := by
  obtain ⟨inner, hinner, rfl⟩ := runs_endpoint h
  rcases gated hrest hinner with ⟨failure, rfl, hnone⟩ | ⟨auth, first, hgranted, hrun⟩
  · exact .inl ⟨denied_evaluation failure, hnone⟩
  · refine .inr ⟨auth, first, ?_, hrun⟩
    unfold Request.Granted Request.callers Request.capability Request.permission
    rw [hkind]
    exact hgranted

theorem served_admin {request : Request} (hkind : request.isEvaluation = false) {α : Type}
    {respond : α → ServiceResponse} {rest : Authorized → Service (PluginError AdminError) α}
    (hrest : ∀ auth, Asks (Ask.UsesStore request.organizationId auth) (rest auth))
    {trace : List (Exchange Ask.Reply)} {result : Except ServiceError ServiceResponse}
    (h : Runs (respond <$> ((FeatureFlags.authorize platform context config.adminCallers
      adminCapability request.operation request.organizationId featureAdmin).mapError
        authAdmin >>= rest).mapError .admin) trace result) :
    Served config context request trace result := by
  obtain ⟨inner, hinner, rfl⟩ := runs_endpoint h
  rcases gated hrest hinner with ⟨failure, rfl, hnone⟩ | ⟨auth, first, hgranted, hrun⟩
  · exact .inl ⟨denied_admin failure, hnone⟩
  · refine .inr ⟨auth, first, ?_, hrun⟩
    unfold Request.Granted Request.callers Request.capability Request.permission
    rw [hkind]
    exact hgranted

theorem uses_write {auth : Authorized} {key : String} {hash : List UInt8} {operation : Operation} :
    Uses operation.organizationId auth (.write ⟨command auth key hash, operation⟩) := by
  refine ⟨rfl, fun command hcommand => ?_⟩
  cases hcommand
  exact ⟨rfl, rfl⟩

theorem uses_read {auth : Authorized} {call : StoreCall} (h : call.command = none := by rfl) :
    Uses call.organizationId auth call :=
  ⟨rfl, fun command hcommand => absurd (h.symm.trans hcommand) (Option.some_ne_none command).symm⟩

theorem serve_served (request : Request) {trace : List (Exchange Ask.Reply)}
    {result : Except ServiceError ServiceResponse}
    (h : Runs (serve platform rt config context request) trace result) :
    Served config context request trace result := by
  cases request with
  | evaluate request =>
    refine served_evaluation rfl (fun auth => ?_) h
    exact .bind_silent silent_ensure fun _ => asks_store uses_write fun _ =>
      silent_mapStorage.bind fun _ => silent_wireCast
  | evaluateBatch request =>
    refine served_evaluation rfl (fun auth => ?_) h
    exact .bind_silent silent_ensure fun _ => asks_store uses_write fun _ =>
      silent_mapStorage.bind fun _ => silent_wireCast
  | createFlag request =>
    refine served_admin rfl (fun auth => ?_) h
    exact .bind_silent silent_ensure fun _ => asks_store uses_write fun _ =>
      silent_mapStorage.bind fun _ => silent_wireCast
  | getFlag request =>
    refine served_admin rfl (fun auth => ?_) h
    exact .bind_silent silent_ensure fun _ => asks_store uses_read fun _ =>
      silent_mapStorage.bind fun _ => silent_wireCast
  | listFlags request =>
    refine served_admin rfl (fun auth => ?_) h
    exact .bind_silent silent_orFail fun _ => .bind_silent silent_ensure fun _ =>
      asks_store uses_read fun _ => silent_mapStorage.bind fun _ => silent_wireCast.bind fun _ =>
        trivial
  | updateFlag request =>
    refine served_admin rfl (fun auth => ?_) h
    exact .bind_silent silent_orFail fun _ => .bind_silent silent_ensure fun _ =>
      asks_store uses_write fun _ => silent_mapStorage.bind fun _ => silent_wireCast
  | archiveFlag request =>
    refine served_admin rfl (fun auth => ?_) h
    exact .bind_silent silent_orFail fun _ => asks_store uses_write fun _ =>
      silent_mapStorage.bind fun _ => silent_wireCast
  | putEnvironment request =>
    refine served_admin rfl (fun auth => ?_) h
    dsimp only
    -- Only a given revision is parsed.
    cases request.expectedRevision with
    | none =>
      exact .bind_silent trivial fun _ => .bind_silent silent_ensure fun _ =>
        asks_store uses_write fun _ => silent_mapStorage.bind fun _ => silent_wireCast
    | some value =>
      exact .bind_silent (silent_orFail.bind fun _ => trivial) fun _ =>
        .bind_silent silent_ensure fun _ => asks_store uses_write fun _ =>
          silent_mapStorage.bind fun _ => silent_wireCast
  | publishRuleset request =>
    refine served_admin rfl (fun auth => ?_) h
    exact .bind_silent silent_orFail fun _ => .bind_silent silent_orFail fun _ =>
      .bind_silent silent_orFail fun _ => asks_store uses_write fun _ =>
        silent_mapStorage.bind fun _ => silent_wireCast
  | listEvaluationReceipts request =>
    refine served_admin rfl (fun auth => ?_) h
    exact .bind_silent silent_orFail fun _ => .bind_silent silent_ensure fun _ =>
      asks_store uses_read fun _ => silent_mapStorage.bind fun _ => silent_wireCast.bind fun _ =>
        trivial

/-- What comes before the only element that satisfies `p`. -/
theorem eq_of_append_singleton {α : Type} {p : α → Prop} {first before after : List α} {x y : α}
    (hfirst : ∀ a ∈ first, ¬p a) (hx : p x) (h : first ++ [y] = before ++ x :: after) :
    before = first ∧ x = y ∧ after = [] := by
  induction first generalizing before with
  | nil =>
    cases before with
    | nil =>
      obtain ⟨rfl, rfl⟩ := List.cons.inj h
      exact ⟨rfl, rfl, rfl⟩
    | cons b before => exact absurd (List.cons.inj h).2.symm (by simp)
  | cons a first ih =>
    cases before with
    | nil =>
      obtain ⟨rfl, -⟩ := List.cons.inj h
      exact absurd hx (hfirst a List.mem_cons_self)
    | cons b before =>
      obtain ⟨rfl, hrest⟩ := List.cons.inj h
      obtain ⟨rfl, hxy, hafter⟩ := ih (fun c hc => hfirst c (List.mem_cons_of_mem _ hc)) hrest
      exact ⟨rfl, hxy, hafter⟩

/-- Whatever the verifier, the providers and the store answer: a call of the store comes after all
that its operation needs, is the only one, and is about what was checked; a run without all of it
is denied and leaves the store alone. -/
theorem access_authorized (platform : Platform) (rt : Runtime) (config : PolicyConfig)
    (context : Ctx) (request : Request) {trace : List (Exchange Ask.Reply)}
    {result : Except ServiceError ServiceResponse}
    (h : Runs (serve platform rt config context request) trace result) :
    (∀ before call reply after, trace = before ++ ⟨.store call, reply⟩ :: after →
      ∃ auth, request.Granted config context auth before ∧
        Uses request.organizationId auth call ∧
        ∀ exchange ∈ before ++ after, ¬exchange.1.IsStore) ∧
    ((¬∃ auth, request.Granted config context auth trace) →
      Denied result ∧ ∀ exchange ∈ trace, ¬exchange.1.IsStore) := by
  rcases serve_served request h with ⟨hdenied, hnone⟩ | ⟨auth, first, hgranted, hfirst, hrun⟩
  · refine ⟨fun before call reply after heq => ?_, fun _ => ⟨hdenied, hnone⟩⟩
    have hmem : (⟨.store call, reply⟩ : Exchange Ask.Reply) ∈ trace :=
      heq ▸ List.mem_append_right _ List.mem_cons_self
    exact absurd trivial (hnone _ hmem)
  · have hsub : ∀ exchange ∈ first, exchange ∈ trace := by
      intro exchange hmem
      rcases hrun with rfl | ⟨call, reply, rfl, -⟩
      · exact hmem
      · exact List.mem_append_left _ hmem
    refine ⟨fun before call reply after heq => ?_, fun hnot => absurd ⟨auth, ?_⟩ hnot⟩
    · rcases hrun with rfl | ⟨call', reply', htrace, huses⟩
      · have hmem : (⟨.store call, reply⟩ : Exchange Ask.Reply) ∈ trace :=
          heq ▸ List.mem_append_right _ List.mem_cons_self
        exact absurd trivial (hfirst _ hmem)
      · obtain ⟨rfl, hcall, rfl⟩ := eq_of_append_singleton (x := ⟨.store call, reply⟩)
          (p := fun exchange : Exchange Ask.Reply => exchange.1.IsStore) hfirst trivial
          (htrace.symm.trans heq)
        obtain rfl := Ask.store.inj (congrArg Sigma.fst hcall)
        exact ⟨auth, hgranted, huses, by rwa [List.append_nil]⟩
    · exact ⟨hgranted.caller, hgranted.identified, hsub _ hgranted.projected,
        hsub _ hgranted.member, hsub _ hgranted.allowed⟩

/-- The exchanges that let an administrator archive a flag. -/
def grantedExchanges : List (Exchange Ask.Reply) :=
  [⟨.verifier, true⟩, ⟨.projectContext "lenso.feature-flag-admin@1" "archive_flag", some "admin-1"⟩,
    ⟨.checkMembership "org" "admin-1", .ok true⟩,
    ⟨.checkPermission "admin-1" "organization" "org" "feature-flags.admin", .ok true⟩]

def archivingRequest : ArchiveFlagRequest :=
  { expectedRevision := "1", flagKey := "flag", idempotencyKey := "key-1", organizationId := "org" }

/-- The call of the store that the administrator comes to. -/
def archiveCall : Call :=
  ⟨⟨"console", "admin-1", "key-1", requestHash (Runtime.atEpoch []) archivingRequest.toJson⟩,
    .archiveFlag "org" "flag" 1⟩

theorem grantedExchanges_run :
    Runs (serve ⟨"", "", "", "", fun _ => true⟩ (Runtime.atEpoch [])
        ⟨[], ["console"], 256, 1, 1⟩ ⟨some "console"⟩ (.archiveFlag archivingRequest))
      (grantedExchanges ++ [⟨.store (.write archiveCall), .error (.domain .flagNotFound)⟩])
      (.error (.admin (.domain .notFound))) := by
  unfold grantedExchanges
  refine .step ?_
  refine .step ?_
  refine .step ?_
  refine .step ?_
  refine .step ?_
  exact .fail

theorem access_authorized_archiveFlag :
    ∃ auth,
      (Request.archiveFlag archivingRequest).Granted ⟨[], ["console"], 256, 1, 1⟩ ⟨some "console"⟩
          auth grantedExchanges ∧
        Uses "org" auth (.write archiveCall) ∧
        ∀ exchange ∈ grantedExchanges ++ [], ¬exchange.1.IsStore :=
  (access_authorized _ _ _ _ _ grantedExchanges_run).1 _ _ _ [] rfl

end Operations

end LensoFlags
