import LensoFlags.RequestText

/-!
# What the service answers

Behind its checks an operation hands on what the store replied: a record as the response it is on
the wire, a domain failure by its name.

1. `serve_writes`: a request that writes and is answered has the record the store replied.
2. `serve_asks`: a request that passes its checks and is granted reaches the store.
3. `serve_refused`: a request that is refused by name got a domain failure of the store, or did not
   reach it.
4. `serve_delivers`: a request that got a record from the store is answered, if the record passes
   `wire_cast`.
-/

namespace LensoFlags

open Locking.Program

/-- A record as a response of the service, unless it does not pass `wire_cast`. -/
def Kind.respond (platform : Platform) : (kind : Kind) → kind.Record → Option ServiceResponse
  | .flag, record => (castFlag platform record).map .flag
  | .environment, record => (castEnvironment platform record).map .environment
  | .publish, record => (castPublish platform record).map .publish
  | .evaluation, record => (castEvaluation platform record).map .evaluation
  | .evaluations, records => (optionAll (castEvaluation platform) records).map .evaluations

/-- The record of a response of the kind. -/
def Response.record : Response → (kind : Kind) → Option kind.Record
  | .flag record, .flag => some record
  | .environment record, .environment => some record
  | .publish record, .publish => some record
  | .evaluation record, .evaluation => some record
  | .evaluations records, .evaluations => some records
  | _, _ => none

/-- A domain failure of the store by its name on the wire. -/
def Request.refusal : Request → DomainFailure → ServiceError
  | .evaluate _, failure => .evaluation (.domain (evaluationError failure))
  | .evaluateBatch _, failure => .evaluation (.domain (evaluationError failure))
  | _, failure => .admin (.domain (adminError failure))

/-- A failure at run time. -/
def Request.failed : Request → RuntimeFailure → ServiceError
  | .evaluate _, failure => .evaluation (.runtime failure)
  | .evaluateBatch _, failure => .evaluation (.runtime failure)
  | _, failure => .admin (.runtime failure)

/-- The request is refused by the name of an error, not by a failure at run time. -/
def ServiceError.IsDomain : ServiceError → Prop
  | .evaluation (.domain _) => True
  | .admin (.domain _) => True
  | _ => False

section Answers

variable {platform : Platform} {rt : Runtime} {config : PolicyConfig} {context : Ctx}
  {callers : List String} {capability operation organizationId permission : String} {E α : Type}
  {trace : List (Exchange Ask.Reply)}

/-- An answer comes from behind the authorization. -/
theorem gated_ok {f : AuthorizationFailure → E} {wrap : E → ServiceError}
    {respond : α → ServiceResponse} {rest : Authorized → Service E α} {response : ServiceResponse}
    (h : Runs (respond <$> ((FeatureFlags.authorize platform context callers capability operation
      organizationId permission).mapError f >>= rest).mapError wrap) trace (.ok response)) :
    ∃ auth first second a, trace = first ++ second ∧ Runs (rest auth) second (.ok a) ∧
      response = respond a := by
  obtain ⟨inner, hinner, hresult⟩ := runs_endpoint h
  cases inner with
  | error e => cases hresult
  | ok a =>
    cases hresult
    rcases runs_bind.mp hinner with ⟨e, he, -⟩ | ⟨first, second, auth, rfl, -, hsecond⟩
    · cases he
    · exact ⟨auth, first, second, a, rfl, hsecond, rfl⟩

/-- A program that hands on what the store replied. -/
theorem runs_stored {call : StoreCall} {map : DomainFailure → E} {cast : call.Record → Option α}
    {response : α}
    (h : Runs (ask (.store call) >>= fun reply => mapStorage platform map reply >>=
      fun record => wireCast platform (cast record)) trace (.ok response)) :
    ∃ record, trace = [⟨.store call, .ok record⟩] ∧ cast record = some response := by
  obtain ⟨reply, others, rfl, hrest⟩ := runs_ask h
  obtain ⟨record, hrecord, hcast⟩ := silent_mapStorage.runs_bind_ok hrest
  rw [silent_wireCast.runs hcast]
  rw [wireCast] at hcast
  have hreply : reply = .ok record := by
    cases reply with
    | ok found => exact congrArg Except.ok (Locking.Program.ret.inj hrecord)
    | error e => cases e <;> cases hrecord
  refine ⟨record, by rw [hreply], ?_⟩
  cases hsome : cast record with
  | none =>
    rw [hsome] at hcast
    cases hcast
  | some item =>
    rw [hsome] at hcast
    obtain ⟨-, hitem⟩ := runs_ret.mp hcast
    exact congrArg some (Except.ok.inj hitem).symm

/-- A write is answered with the record the store replied. -/
theorem serve_writes (request : Request) {response : ServiceResponse}
    (hwrites : request.json.isSome)
    (h : Runs (serve platform rt config context request) trace (.ok response)) :
    ∃ call record, ⟨.store (.write call), .ok record⟩ ∈ trace ∧
      call.operation.kind.respond platform record = some response := by
  cases request with
  | evaluate request =>
    obtain ⟨auth, first, second, a, rfl, hrest, rfl⟩ := gated_ok h
    obtain ⟨_, -, hrest⟩ := silent_ensure.runs_bind_ok hrest
    obtain ⟨record, rfl, hcast⟩ := runs_stored hrest
    exact ⟨_, record, by simp, congrArg (Option.map ServiceResponse.evaluation) hcast⟩
  | evaluateBatch request =>
    obtain ⟨auth, first, second, a, rfl, hrest, rfl⟩ := gated_ok h
    obtain ⟨_, -, hrest⟩ := silent_ensure.runs_bind_ok hrest
    obtain ⟨records, rfl, hcast⟩ := runs_stored hrest
    exact ⟨_, records, by simp, congrArg (Option.map ServiceResponse.evaluations) hcast⟩
  | createFlag request =>
    obtain ⟨auth, first, second, a, rfl, hrest, rfl⟩ := gated_ok h
    obtain ⟨_, -, hrest⟩ := silent_ensure.runs_bind_ok hrest
    obtain ⟨record, rfl, hcast⟩ := runs_stored hrest
    exact ⟨_, record, by simp, congrArg (Option.map ServiceResponse.flag) hcast⟩
  | updateFlag request =>
    obtain ⟨auth, first, second, a, rfl, hrest, rfl⟩ := gated_ok h
    obtain ⟨_, -, hrest⟩ := silent_orFail.runs_bind_ok hrest
    obtain ⟨_, -, hrest⟩ := silent_ensure.runs_bind_ok hrest
    obtain ⟨record, rfl, hcast⟩ := runs_stored hrest
    exact ⟨_, record, by simp, congrArg (Option.map ServiceResponse.flag) hcast⟩
  | archiveFlag request =>
    obtain ⟨auth, first, second, a, rfl, hrest, rfl⟩ := gated_ok h
    obtain ⟨_, -, hrest⟩ := silent_orFail.runs_bind_ok hrest
    obtain ⟨record, rfl, hcast⟩ := runs_stored hrest
    exact ⟨_, record, by simp, congrArg (Option.map ServiceResponse.flag) hcast⟩
  | putEnvironment request =>
    obtain ⟨auth, first, second, a, rfl, hrest, rfl⟩ := gated_ok h
    obtain ⟨environmentKey, expectedRevision, idempotencyKey, name, organizationId⟩ := request
    -- Only a given revision is parsed.
    cases expectedRevision with
    | none =>
      obtain ⟨_, -, hrest⟩ := Silent.runs_bind_ok (p := .ret none) trivial hrest
      obtain ⟨_, -, hrest⟩ := silent_ensure.runs_bind_ok hrest
      obtain ⟨record, rfl, hcast⟩ := runs_stored hrest
      exact ⟨_, record, by simp, congrArg (Option.map ServiceResponse.environment) hcast⟩
    | some value =>
      have hparsed : Silent (some <$> orFail (PluginError.domain AdminError.invalidRequest)
          (parseRevision value) : Service (PluginError AdminError) (Option Int)) :=
        silent_orFail.bind fun _ => trivial
      obtain ⟨_, -, hrest⟩ := hparsed.runs_bind_ok hrest
      obtain ⟨_, -, hrest⟩ := silent_ensure.runs_bind_ok hrest
      obtain ⟨record, rfl, hcast⟩ := runs_stored hrest
      exact ⟨_, record, by simp, congrArg (Option.map ServiceResponse.environment) hcast⟩
  | publishRuleset request =>
    obtain ⟨auth, first, second, a, rfl, hrest, rfl⟩ := gated_ok h
    obtain ⟨_, -, hrest⟩ := silent_orFail.runs_bind_ok hrest
    obtain ⟨_, -, hrest⟩ := silent_orFail.runs_bind_ok hrest
    obtain ⟨_, -, hrest⟩ := silent_orFail.runs_bind_ok hrest
    obtain ⟨record, rfl, hcast⟩ := runs_stored hrest
    exact ⟨_, record, by simp, congrArg (Option.map ServiceResponse.publish) hcast⟩
  | _ => cases hwrites

/-- A call of the store comes last, after all that its request needs. -/
theorem asked_store (request : Request) {result : Except ServiceError ServiceResponse}
    (h : Runs (serve platform rt config context request) trace result) (call : StoreCall)
    (reply : (Ask.store call).Reply) (hmem : ⟨.store call, reply⟩ ∈ trace) :
    ∃ auth first, trace = first ++ [⟨.store call, reply⟩] ∧
      request.Granted config context auth first ∧ Uses request.organizationId auth call ∧
      ∀ exchange ∈ first, ¬exchange.1.IsStore := by
  rcases serve_served request h with ⟨-, hnone⟩ | ⟨auth, first, hgranted, hfirst, hrun⟩
  · exact absurd trivial (hnone _ hmem)
  · rcases hrun with rfl | ⟨call', reply', rfl, huses⟩
    · exact absurd trivial (hfirst _ hmem)
    · rcases List.mem_append.mp hmem with hmem | hmem
      · exact absurd trivial (hfirst _ hmem)
      · cases List.mem_singleton.mp hmem
        exact ⟨auth, first, rfl, hgranted, huses, hfirst⟩

/-! ## Granted requests -/

/-- The answers that grant a request to an actor. -/
def Request.grants (request : Request) (actor : String) : List (Exchange Ask.Reply) :=
  [⟨.verifier, true⟩, ⟨.projectContext request.capability request.operation, some actor⟩,
    ⟨.checkMembership request.organizationId actor, .ok true⟩,
    ⟨.checkPermission actor "organization" request.organizationId request.permission, .ok true⟩]

theorem grants_not_store (request : Request) (actor : String) :
    ∀ exchange ∈ request.grants actor, ¬exchange.1.IsStore := by
  intro exchange hmem
  simp only [Request.grants, List.mem_cons, List.not_mem_nil, or_false] at hmem
  rcases hmem with rfl | rfl | rfl | rfl <;> exact id

/-- The caller may ask for the request, and the ids are ones the providers are asked about. -/
structure Request.Grantable (config : PolicyConfig) (context : Ctx) (request : Request)
    (auth : Authorized) : Prop where
  caller : context.callerInstance = some auth.caller
  listed : auth.caller ∈ request.callers config
  organizationId : validOpaqueId request.organizationId
  actor : validOpaqueId auth.actor

theorem authorize_follows {auth : Authorized} (hcaller : context.callerInstance = some auth.caller)
    (hlisted : auth.caller ∈ callers) (horganization : validOpaqueId organizationId)
    (hactor : validOpaqueId auth.actor) :
    Follows (FeatureFlags.authorize platform context callers capability operation organizationId
        permission)
      [⟨.verifier, true⟩, ⟨.projectContext capability operation, some auth.actor⟩,
        ⟨.checkMembership organizationId auth.actor, .ok true⟩,
        ⟨.checkPermission auth.actor "organization" organizationId permission, .ok true⟩]
      (.ret auth) := by
  have hfilter : (context.callerInstance.filter fun caller => callers.any fun allowed =>
      allowed == caller) = some auth.caller := by
    rw [hcaller, Option.filter_eq_some_iff]
    exact ⟨rfl, List.any_eq_true.mpr ⟨auth.caller, hlisted, beq_self_eq_true _⟩⟩
  have hids : (validOpaqueId organizationId && validOpaqueId auth.actor) = true := by
    rw [horganization, hactor]
    rfl
  unfold FeatureFlags.authorize
  rw [hfilter]
  refine .step (.step ?_)
  change Follows (ensure (validOpaqueId organizationId && validOpaqueId auth.actor) _ >>= _) _ _
  rw [hids]
  exact .step (.step .refl)

/-- A granted operation whose checks have passed asks for its write, and answers with the record. -/
theorem gated_asks {auth : Authorized} {f : AuthorizationFailure → PluginError E}
    {wrap : PluginError E → ServiceError} {respond : α → ServiceResponse}
    {rest : Authorized → Service (PluginError E) α} {call : Call}
    {cast : call.operation.kind.Record → Option α} (map : DomainFailure → E)
    (hcaller : context.callerInstance = some auth.caller) (hlisted : auth.caller ∈ callers)
    (horganization : validOpaqueId organizationId) (hactor : validOpaqueId auth.actor)
    (hrest : rest auth = ask (.store (.write call)) >>= fun reply =>
      mapStorage platform map reply >>= fun record => wireCast platform (cast record))
    (hcast : ∀ record, call.operation.kind.respond platform record = (cast record).map respond) :
    ∃ k, Follows (respond <$> ((FeatureFlags.authorize platform context callers capability
        operation organizationId permission).mapError f >>= rest).mapError wrap)
      [⟨.verifier, true⟩, ⟨.projectContext capability operation, some auth.actor⟩,
        ⟨.checkMembership organizationId auth.actor, .ok true⟩,
        ⟨.checkPermission auth.actor "organization" organizationId permission, .ok true⟩]
      (.step (.store (.write call)) k) ∧
      (∀ record response, call.operation.kind.respond platform record = some response →
        k (.ok record) = .ret response) ∧
      (∀ failure, k (.error (.domain failure)) = .fail (wrap (.domain (map failure)))) ∧
      ∀ e, e.isDomain = false → ∃ failure, k (.error e) = .fail (wrap (.runtime failure)) := by
  have hauthorized : Follows (FeatureFlags.authorize platform context callers capability operation
      organizationId permission) _ (.ret auth) :=
    authorize_follows hcaller hlisted horganization hactor
  have hfollows := ((hauthorized.mapError f).bind rest).mapError wrap |>.bind fun a =>
    pure (respond a)
  change Follows _ _ ((rest auth).mapError wrap >>= fun a => pure (respond a)) at hfollows
  rw [hrest] at hfollows
  refine ⟨_, hfollows, fun record response hresponse => ?_, fun failure => rfl, fun e he => ?_⟩
  · rw [hcast, Option.map_eq_some_iff] at hresponse
    obtain ⟨a, ha, rfl⟩ := hresponse
    change (wireCast platform (cast record)).mapError wrap >>= (fun a => pure (respond a)) = _
    rw [ha]
    rfl
  · cases e with
    | domain failure => cases he
    | _ => exact ⟨_, rfl⟩

theorem ensure_true {condition : Bool} (h : condition = true) (e : E) :
    (ensure condition e : Service E Unit) = .ret () := by
  rw [h]
  rfl

theorem orFail_some {o : Option α} {a : α} (h : o = some a) (e : E) :
    (orFail e o : Service E α) = .ret a := by
  rw [h]
  rfl

variable (platform) in
/-- A request that is granted and passes its checks reaches the store, and is answered what it
replies. -/
theorem serve_asks {request : Request} {auth : Authorized} {call : Call}
    (hgrantable : request.Grantable config context auth)
    (hcall : request.call rt config auth = some (.write call)) :
    ∃ k, Follows (serve platform rt config context request) (request.grants auth.actor)
        (.step (.store (.write call)) k) ∧
      (∀ record response, call.operation.kind.respond platform record = some response →
        k (.ok record) = .ret response) ∧
      (∀ failure, k (.error (.domain failure)) = .fail (request.refusal failure)) ∧
      ∀ e, e.isDomain = false → ∃ failure, k (.error e) = .fail (request.failed failure) := by
  obtain ⟨hcaller, hlisted, horganization, hactor⟩ := hgrantable
  cases request with
  | evaluate request =>
    obtain ⟨hchecked, heq⟩ := passed_eq_some.mp hcall
    cases heq
    refine gated_asks evaluationError hcaller hlisted horganization hactor ?_ fun _ => rfl
    rw [ensure_true hchecked]
    rfl
  | evaluateBatch request =>
    obtain ⟨hchecked, heq⟩ := passed_eq_some.mp hcall
    cases heq
    refine gated_asks evaluationError hcaller hlisted horganization hactor ?_ fun _ => rfl
    rw [ensure_true hchecked]
    rfl
  | createFlag request =>
    obtain ⟨hchecked, heq⟩ := passed_eq_some.mp hcall
    cases heq
    refine gated_asks adminError hcaller hlisted horganization hactor ?_ fun _ => rfl
    rw [ensure_true hchecked]
    rfl
  | updateFlag request =>
    obtain ⟨revision, hrevision, hcall⟩ := Option.bind_eq_some_iff.mp hcall
    obtain ⟨hchecked, heq⟩ := passed_eq_some.mp hcall
    cases heq
    refine gated_asks adminError hcaller hlisted horganization hactor ?_ fun _ => rfl
    rw [orFail_some hrevision, ensure_true hchecked]
    rfl
  | archiveFlag request =>
    obtain ⟨revision, hrevision, heq⟩ := Option.map_eq_some_iff.mp hcall
    cases heq
    refine gated_asks adminError hcaller hlisted horganization hactor ?_ fun _ => rfl
    rw [orFail_some hrevision]
    rfl
  | putEnvironment request =>
    obtain ⟨environmentKey, expectedRevision, idempotencyKey, name, organizationId⟩ := request
    cases expectedRevision with
    | none =>
      obtain ⟨hchecked, heq⟩ := passed_eq_some.mp hcall
      cases heq
      refine gated_asks adminError hcaller hlisted horganization hactor ?_ fun _ => rfl
      change (ensure _ _ >>= _) = _
      rw [ensure_true hchecked]
      rfl
    | some value =>
      obtain ⟨revision, hrevision, hcall⟩ := Option.bind_eq_some_iff.mp hcall
      obtain ⟨hchecked, heq⟩ := passed_eq_some.mp hcall
      cases heq
      refine gated_asks adminError hcaller hlisted horganization hactor ?_ fun _ => rfl
      change (some <$> orFail _ (parseRevision value) >>= _) = _
      rw [orFail_some hrevision]
      change (ensure _ _ >>= _) = _
      rw [ensure_true hchecked]
      rfl
  | publishRuleset request =>
    obtain ⟨flagRevision, hflag, hcall⟩ := Option.bind_eq_some_iff.mp hcall
    obtain ⟨environmentRevision, henvironment, hcall⟩ := Option.bind_eq_some_iff.mp hcall
    obtain ⟨definition, hdefinition, heq⟩ := Option.map_eq_some_iff.mp hcall
    cases heq
    refine gated_asks adminError hcaller hlisted horganization hactor ?_ fun _ => rfl
    rw [orFail_some hflag, orFail_some henvironment, orFail_some hdefinition]
    rfl
  | getFlag request => cases (passed_eq_some.mp hcall).2
  | listFlags request =>
    obtain ⟨_, -, hcall⟩ := Option.bind_eq_some_iff.mp hcall
    cases (passed_eq_some.mp hcall).2
  | listEvaluationReceipts request =>
    obtain ⟨_, -, hcall⟩ := Option.bind_eq_some_iff.mp hcall
    cases (passed_eq_some.mp hcall).2

/-! ## Refusals -/

/-- A program that fails with such an error asked for no write, or got a domain failure. -/
def Careful (IsDomain : E → Prop) (p : Service E α) : Prop :=
  ∀ trace e, Runs p trace (.error e) → IsDomain e → ∀ call reply,
    ⟨.store (.write call), reply⟩ ∈ trace → ∃ failure, reply = .error (.domain failure)

theorem Silent.careful {IsDomain : E → Prop} {p : Service E α} (h : Silent p) :
    Careful IsDomain p := by
  intro trace e hruns _ call reply hmem
  rw [h.runs hruns] at hmem
  exact absurd hmem List.not_mem_nil

theorem Careful.bind_silent {β : Type} {IsDomain : E → Prop} {p : Service E α}
    {f : α → Service E β} (h : Silent p) (hf : ∀ a, Careful IsDomain (f a)) :
    Careful IsDomain (p >>= f) := by
  cases p with
  | ret a => exact hf a
  | fail e => exact Silent.careful (p := .fail e) trivial
  | step s k => exact h.elim

/-- The error of a plugin is one by name. -/
def PluginError.IsDomain : PluginError E → Prop
  | .domain _ => True
  | .runtime _ => False

theorem careful_write {call : Call} {map : DomainFailure → E}
    {cast : call.operation.kind.Record → Option α} :
    Careful PluginError.IsDomain (ask (.store (.write call)) >>= fun reply =>
      mapStorage platform map reply >>= fun record => wireCast platform (cast record)) := by
  intro trace e hruns he call' reply' hmem
  obtain ⟨reply, others, rfl, hrest⟩ := runs_ask hruns
  have hsilent : Silent (mapStorage platform map reply >>= fun record =>
      wireCast platform (cast record)) := silent_mapStorage.bind fun _ => silent_wireCast
  rw [hsilent.runs hrest] at hmem hrest
  cases List.mem_singleton.mp hmem
  cases reply with
  | ok record =>
    change Runs (wireCast platform (cast record)) [] (.error e) at hrest
    cases hcast : cast record <;> rw [hcast] at hrest <;> cases hrest
    exact he.elim
  | error failure =>
    cases failure with
    | domain failure => exact ⟨failure, rfl⟩
    | _ =>
      cases hrest
      exact he.elim

theorem careful_read {call : StoreCall} {IsDomain : E → Prop}
    {f : (Ask.store call).Reply → Service E α} (hcall : call.command = none)
    (hf : ∀ reply, Silent (f reply)) : Careful IsDomain (ask (.store call) >>= f) := by
  intro trace e hruns _ call' reply' hmem
  obtain ⟨reply, others, rfl, hrest⟩ := runs_ask hruns
  rw [(hf reply).runs hrest] at hmem
  cases List.mem_singleton.mp hmem
  cases hcall

theorem careful_gated {f : AuthorizationFailure → E} {wrap : E → ServiceError}
    {respond : α → ServiceResponse} {rest : Authorized → Service E α} {IsDomain : E → Prop}
    (hwrap : ∀ e, (wrap e).IsDomain → IsDomain e) (hrest : ∀ auth, Careful IsDomain (rest auth)) :
    Careful ServiceError.IsDomain (respond <$> ((FeatureFlags.authorize platform context callers
      capability operation organizationId permission).mapError f >>= rest).mapError wrap) := by
  intro trace e hruns he call reply hmem
  obtain ⟨inner, hinner, hresult⟩ := runs_endpoint hruns
  cases inner with
  | ok a => cases hresult
  | error inner =>
    cases hresult
    rcases runs_bind.mp hinner with ⟨_, -, hfailed⟩ | ⟨first, second, auth, rfl, hfirst, hsecond⟩
    · obtain ⟨_, hauthorize, -⟩ := runs_mapError.mp hfailed
      exact absurd trivial (authorize_never.runs hauthorize _ hmem)
    · obtain ⟨_, hauthorize, -⟩ := runs_mapError.mp hfirst
      rcases List.mem_append.mp hmem with hmem | hmem
      · exact absurd trivial (authorize_never.runs hauthorize _ hmem)
      · exact hrest auth second inner hsecond (hwrap inner he) call reply hmem

theorem isDomain_evaluation (e : PluginError EvaluationError)
    (h : (ServiceError.evaluation e).IsDomain) : e.IsDomain := by
  cases e with
  | domain => trivial
  | runtime => exact h.elim

theorem isDomain_admin (e : PluginError AdminError) (h : (ServiceError.admin e).IsDomain) :
    e.IsDomain := by
  cases e with
  | domain => trivial
  | runtime => exact h.elim

/-- A request refused by name got a domain failure of the store, if it asked it for a write. -/
theorem serve_refused (request : Request) :
    Careful ServiceError.IsDomain (serve platform rt config context request) := by
  cases request with
  | evaluate request =>
    exact careful_gated isDomain_evaluation fun auth => .bind_silent silent_ensure fun _ =>
      careful_write
  | evaluateBatch request =>
    exact careful_gated isDomain_evaluation fun auth => .bind_silent silent_ensure fun _ =>
      careful_write
  | createFlag request =>
    exact careful_gated isDomain_admin fun auth => .bind_silent silent_ensure fun _ =>
      careful_write
  | getFlag request =>
    exact careful_gated isDomain_admin fun auth => .bind_silent silent_ensure fun _ =>
      careful_read rfl fun _ => silent_mapStorage.bind fun _ => silent_wireCast
  | listFlags request =>
    exact careful_gated isDomain_admin fun auth => .bind_silent silent_orFail fun _ =>
      .bind_silent silent_ensure fun _ => careful_read rfl fun _ =>
        silent_mapStorage.bind fun _ => silent_wireCast.bind fun _ => trivial
  | updateFlag request =>
    exact careful_gated isDomain_admin fun auth => .bind_silent silent_orFail fun _ =>
      .bind_silent silent_ensure fun _ => careful_write
  | archiveFlag request =>
    exact careful_gated isDomain_admin fun auth => .bind_silent silent_orFail fun _ =>
      careful_write
  | putEnvironment request =>
    refine careful_gated isDomain_admin fun auth => ?_
    obtain ⟨environmentKey, expectedRevision, idempotencyKey, name, organizationId⟩ := request
    cases expectedRevision with
    | none =>
      exact .bind_silent (p := .ret none) trivial fun _ => .bind_silent silent_ensure fun _ =>
        careful_write
    | some value =>
      exact .bind_silent (silent_orFail.bind fun _ => trivial) fun _ =>
        .bind_silent silent_ensure fun _ => careful_write
  | publishRuleset request =>
    exact careful_gated isDomain_admin fun auth => .bind_silent silent_orFail fun _ =>
      .bind_silent silent_orFail fun _ => .bind_silent silent_orFail fun _ => careful_write
  | listEvaluationReceipts request =>
    exact careful_gated isDomain_admin fun auth => .bind_silent silent_orFail fun _ =>
      .bind_silent silent_ensure fun _ => careful_read rfl fun _ =>
        silent_mapStorage.bind fun _ => silent_wireCast.bind fun _ => trivial

/-! ## Replies -/

variable (platform) in
/-- What the store replies passes `wire_cast`. -/
def StoreCall.Passes : (call : StoreCall) → call.Record → Prop
  | .write call, record => ∃ response, call.operation.kind.respond platform record = some response
  | .getFlag .., record => ∃ item, castFlag platform record = some item
  | .listFlags .., (records : List FlagRecord) =>
      ∀ record ∈ records, ∃ item, castFlag platform record = some item
  | .listReceipts .., (records : List ReceiptRecord) =>
      ∀ record ∈ records, ∃ item, castReceipt platform record = some item

variable (platform) in
/-- A program that got a record from the store answers, if the record passes. -/
def Delivers (p : Service E α) : Prop :=
  ∀ trace result, Runs p trace result → ∀ (call : StoreCall) (record : call.Record),
    ⟨.store call, .ok record⟩ ∈ trace → call.Passes platform record → ∃ a, result = .ok a

theorem Silent.delivers {p : Service E α} (h : Silent p) : Delivers platform p := by
  intro trace result hruns call record hmem
  rw [h.runs hruns] at hmem
  exact absurd hmem List.not_mem_nil

theorem Delivers.bind_silent {β : Type} {p : Service E α} {f : α → Service E β} (h : Silent p)
    (hf : ∀ a, Delivers platform (f a)) : Delivers platform (p >>= f) := by
  cases p with
  | ret a => exact hf a
  | fail e => exact Silent.delivers (p := .fail e) trivial
  | step s k => exact h.elim

/-- The one question of the program is to the store, and what passes is cast. -/
theorem delivers_ask {call : StoreCall} {f : (Ask.store call).Reply → Service E α}
    (hsilent : ∀ reply, Silent (f reply))
    (hok : ∀ record, call.Passes platform record → ∃ a, f (.ok record) = .ret a) :
    Delivers platform (ask (.store call) >>= f) := by
  intro trace result hruns call' record hmem hpasses
  obtain ⟨reply, others, rfl, hrest⟩ := runs_ask hruns
  rw [(hsilent reply).runs hrest] at hmem hrest
  cases List.mem_singleton.mp hmem
  obtain ⟨a, ha⟩ := hok record hpasses
  rw [ha] at hrest
  exact ⟨a, (runs_ret.mp hrest).2⟩

theorem delivers_write {call : Call} {map : DomainFailure → E}
    {cast : call.operation.kind.Record → Option α}
    (hcast : ∀ record response, call.operation.kind.respond platform record = some response →
      ∃ a, cast record = some a) :
    Delivers platform (ask (.store (.write call)) >>= fun reply =>
      mapStorage platform map reply >>= fun record => wireCast platform (cast record)) := by
  refine delivers_ask (fun reply => silent_mapStorage.bind fun _ => silent_wireCast) ?_
  rintro record ⟨response, hresponse⟩
  obtain ⟨a, ha⟩ := hcast record response hresponse
  refine ⟨a, ?_⟩
  change wireCast platform (cast record) = _
  rw [ha]
  rfl

theorem delivers_gated {f : AuthorizationFailure → E} {wrap : E → ServiceError}
    {respond : α → ServiceResponse} {rest : Authorized → Service E α}
    (hrest : ∀ auth, Delivers platform (rest auth)) :
    Delivers platform (respond <$> ((FeatureFlags.authorize platform context callers
      capability operation organizationId permission).mapError f >>= rest).mapError wrap) := by
  intro trace result hruns call record hmem hpasses
  obtain ⟨inner, hinner, hresult⟩ := runs_endpoint hruns
  rcases runs_bind.mp hinner with ⟨_, -, hfailed⟩ | ⟨first, second, auth, rfl, hfirst, hsecond⟩
  · obtain ⟨_, hauthorize, -⟩ := runs_mapError.mp hfailed
    exact absurd trivial (authorize_never.runs hauthorize _ hmem)
  · obtain ⟨_, hauthorize, -⟩ := runs_mapError.mp hfirst
    rcases List.mem_append.mp hmem with hmem | hmem
    · exact absurd trivial (authorize_never.runs hauthorize _ hmem)
    · obtain ⟨a, rfl⟩ := hrest auth second inner hsecond call record hmem hpasses
      exact ⟨_, hresult⟩

theorem exists_of_map {α β : Type} {f : α → β} {o : Option α} {b : β} (h : o.map f = some b) :
    ∃ a, o = some a := by
  obtain ⟨a, ha, -⟩ := Option.map_eq_some_iff.mp h
  exact ⟨a, ha⟩

/-- The records of a page are among those fetched. -/
theorem mem_of_mem_page {Record : Type} {limit : Int64} {rowSeq : Record → Int}
    {records : List Record} {record : Record}
    (h : record ∈ (FeatureFlags.page limit rowSeq records).1) : record ∈ records := by
  unfold FeatureFlags.page at h
  split at h
  · exact List.dropLast_subset records h
  · exact h

/-- A request that got a record from the store is answered, if the record passes. -/
theorem serve_delivers (request : Request) :
    Delivers platform (serve platform rt config context request) := by
  cases request with
  | evaluate request =>
    exact delivers_gated fun auth => .bind_silent silent_ensure fun _ =>
      delivers_write fun _ _ h => exists_of_map h
  | evaluateBatch request =>
    exact delivers_gated fun auth => .bind_silent silent_ensure fun _ =>
      delivers_write fun _ _ h => exists_of_map h
  | createFlag request =>
    exact delivers_gated fun auth => .bind_silent silent_ensure fun _ =>
      delivers_write fun _ _ h => exists_of_map h
  | getFlag request =>
    refine delivers_gated fun auth => .bind_silent silent_ensure fun _ =>
      delivers_ask (fun _ => silent_mapStorage.bind fun _ => silent_wireCast) ?_
    rintro record ⟨item, hitem⟩
    refine ⟨item, ?_⟩
    change wireCast platform (castFlag platform record) = _
    rw [hitem]
    rfl
  | listFlags request =>
    refine delivers_gated fun auth => .bind_silent silent_orFail fun _ =>
      .bind_silent silent_ensure fun _ => delivers_ask (fun _ =>
        silent_mapStorage.bind fun _ => silent_wireCast.bind fun _ => trivial) ?_
    intro (records : List FlagRecord) hrecords
    obtain ⟨items, hitems⟩ : ∃ items, optionAll (castFlag platform)
        (FeatureFlags.page request.limit (·.rowSeq) records).1 = some items :=
      exists_optionAll fun record hmem => hrecords record (mem_of_mem_page hmem)
    refine ⟨⟨items, (FeatureFlags.page request.limit (·.rowSeq) records).2⟩, ?_⟩
    change (wireCast platform (optionAll (castFlag platform)
      (FeatureFlags.page request.limit (·.rowSeq) records).1) >>= _) = _
    rw [hitems]
    rfl
  | updateFlag request =>
    exact delivers_gated fun auth => .bind_silent silent_orFail fun _ =>
      .bind_silent silent_ensure fun _ => delivers_write fun _ _ h => exists_of_map h
  | archiveFlag request =>
    exact delivers_gated fun auth => .bind_silent silent_orFail fun _ =>
      delivers_write fun _ _ h => exists_of_map h
  | putEnvironment request =>
    refine delivers_gated fun auth => ?_
    obtain ⟨environmentKey, expectedRevision, idempotencyKey, name, organizationId⟩ := request
    cases expectedRevision with
    | none =>
      exact .bind_silent (p := .ret none) trivial fun _ => .bind_silent silent_ensure fun _ =>
        delivers_write fun _ _ h => exists_of_map h
    | some value =>
      exact .bind_silent (silent_orFail.bind fun _ => trivial) fun _ =>
        .bind_silent silent_ensure fun _ => delivers_write fun _ _ h => exists_of_map h
  | publishRuleset request =>
    exact delivers_gated fun auth => .bind_silent silent_orFail fun _ =>
      .bind_silent silent_orFail fun _ => .bind_silent silent_orFail fun _ =>
        delivers_write fun _ _ h => exists_of_map h
  | listEvaluationReceipts request =>
    refine delivers_gated fun auth => .bind_silent silent_orFail fun _ =>
      .bind_silent silent_ensure fun _ => delivers_ask (fun _ =>
        silent_mapStorage.bind fun _ => silent_wireCast.bind fun _ => trivial) ?_
    intro (records : List ReceiptRecord) hrecords
    obtain ⟨items, hitems⟩ : ∃ items, optionAll (castReceipt platform)
        (FeatureFlags.page request.limit (·.rowSeq) records).1 = some items :=
      exists_optionAll fun record hmem => hrecords record (mem_of_mem_page hmem)
    refine ⟨⟨items, (FeatureFlags.page request.limit (·.rowSeq) records).2⟩, ?_⟩
    change (wireCast platform (optionAll (castReceipt platform)
      (FeatureFlags.page request.limit (·.rowSeq) records).1) >>= _) = _
    rw [hitems]
    rfl

end Answers

end LensoFlags
