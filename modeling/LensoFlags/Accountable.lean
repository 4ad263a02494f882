import LensoFlags.Agree
import LensoFlags.Conveyed
import LensoFlags.Deployment
import LensoFlags.Abstract.Presented

/-!
# Accountable stores

What a store answers for, and what a deployment over such a store answers for.

1. `Wrote.effect`: an answered write tells the response of the call that took effect under its key.
2. `Wrote.once`: one call took effect under the key of an answered write.
3. `Wrote.agree`: the answers under one key are of one request, and say the same.
4. `Inv.delivered`: a request the store gave a record does not fail.
5. `served`: what a request comes to whose call runs alone.
-/

namespace LensoFlags

/-- A read may fail for want of an answer. -/
def Lost {α : Type} (reply : Except StorageError α) : Prop :=
  ∃ e, e.isDomain = false ∧ reply = .error e

/-- What a store answers for: an `Ok` tells the response of a call that took effect under the same
key for the same hash, a domain failure is of a call that took none. -/
structure Backend.Accountable (B : Backend) (codec : Codec) (rt : Runtime) : Prop where
  lawful : B.Lawful
  logged : ∀ s, B.Reachable s → ∃ c : Abstract.Store codec, Abstract.Logged rt (B.log s) c
  called : ∀ s, B.Reachable s → ∀ e ∈ B.log s, B.call s e.session = some e.call
  answered : ∀ s, B.Reachable s → ∀ i call answer, B.call s i = some call →
    B.result s i = some (.ok answer) →
      ∃ e ∈ B.log s, ∃ original, e.value = .fresh original ∧
        Retold codec original answer.response ∧ e.call.commandKey = call.commandKey ∧
        e.call.command.hash = call.command.hash
  refused : ∀ s, B.Reachable s → ∀ i failure, B.result s i = some (.error (.domain failure)) →
    ∀ e ∈ B.log s, e.session ≠ i
  /-- After lawful calls, what they made and what is read passes `wire_cast`. -/
  shown : ∀ platform : Platform, (∀ instant, platform.isTimestamp (rt.formatTimestamp instant)) →
    ∀ s, B.Reachable s → (∀ e ∈ B.log s, e.call.operation.Lawful rt) →
      (∀ e ∈ B.log s, ∀ response, e.value = .fresh response → Abstract.Passes platform response) ∧
        ∀ call record, B.Tells s call (.ok record) → call.Passes platform record

variable {codec : Codec} {rt : Runtime}

variable (codec rt) in
/-- The result is what the call gets from the abstract store the log leads to. -/
def Settles (log : List (Serial.Entry Call Draws Answer)) (call : Call) (result : Result) : Prop :=
  ∃ (c : Abstract.Store codec) (σ : Abstract.Stamp), Abstract.Logged rt log c ∧ σ.Fresh c ∧
    Agree (· = ·) result (Abstract.exec rt σ c call).1

/-! ## What is answered -/

/-- The primary key of the command row of a request that writes. -/
def Request.commandKey (request : Request) (auth : Authorized) : Option CommandKey :=
  request.key.map fun key => ⟨auth.caller, auth.actor, request.operation, key⟩

namespace Deployment

variable {B : Backend} {codec : Codec} {platform : Platform} {rt : Runtime}
  {config : PolicyConfig} {s s' : State B} {i j : ℕ}

variable (rt config) in
/-- Request `i` wrote for a caller and an actor it was granted to, and got the response. -/
structure Wrote (s : State B) (i : ℕ) (request : Request) (auth : Authorized)
    (response : ServiceResponse) : Prop where
  writes : request.json.isSome
  answered : ∃ f, s.requests i = some f ∧ f.request = request ∧ f.rest = .ret response ∧
    request.Granted config f.context auth f.trace
  called : ∃ call, B.call s.store i = some call ∧ request.call rt config auth = some (.write call)

/-- What a call of the store comes from is lawful. -/
theorem Inv.lawful (hi : Inv platform rt config s) {call : Call}
    (hcall : B.call s.store i = some call) : call.operation.Lawful rt := by
  obtain ⟨f, auth, -, horigin⟩ := hi.origin hcall
  exact Request.call_lawful horigin.comes

/-- What the store told passes `wire_cast`, at whatever moment it was. -/
theorem Inv.passes (hB : B.Accountable codec rt) (hsteady : codec.Steady)
    (hi : Inv platform rt config s)
    (htime : ∀ instant, platform.isTimestamp (rt.formatTimestamp instant)) {f : InFlight}
    (hf : s.requests i = some f) (call : StoreCall) (record : call.Record)
    (hmem : ⟨.store call, .ok record⟩ ∈ f.trace) : call.Passes platform record := by
  by_cases hread : call.command = none
  · obtain ⟨store, hreachable, hsteps, htells⟩ := hi.told i f hf call _ hread hmem
    refine (hB.shown platform htime store hreachable fun e he => ?_).2 call record htells
    exact hi.lawful (call_steps hB.lawful hsteps (hB.called store hreachable e he))
  · cases call with
    | write call =>
      obtain ⟨hcall, result, hresult, hreplies⟩ := hi.replied i f hf call _ hmem
      cases result with
      | error e => cases hreplies
      | ok answer =>
        obtain ⟨record', hrecord, heq⟩ := hreplies
        cases heq
        obtain ⟨e, he, original, hvalue, hretold, -⟩ :=
          hB.answered s.store hi.store i call answer hcall hresult
        have hpasses := (hB.shown platform htime s.store hi.store fun e he =>
          hi.lawful (hB.called s.store hi.store e he)).1 e he original hvalue
        exact hpasses.retold hretold hsteady _ _ hrecord
    | _ => exact absurd rfl hread

/-- A request the store gave a record does not fail. -/
theorem Inv.delivered (hB : B.Accountable codec rt) (hsteady : codec.Steady)
    (hi : Inv platform rt config s)
    (htime : ∀ instant, platform.isTimestamp (rt.formatTimestamp instant)) {f : InFlight}
    (hf : s.requests i = some f) (call : StoreCall) (record : call.Record)
    (hmem : ⟨.store call, .ok record⟩ ∈ f.trace) (e : ServiceError) : f.rest ≠ .fail e := by
  intro hrest
  have hfollows := hi.follows i f hf
  rw [hrest] at hfollows
  have hruns := hfollows.runs .fail
  rw [List.append_nil] at hruns
  obtain ⟨a, ha⟩ := serve_delivers f.request _ _ hruns call record hmem
    (hi.passes hB hsteady htime hf call record hmem)
  cases ha

/-- Every write that was answered was answered for someone. -/
theorem Inv.wrote (hi : Inv platform rt config s) {f : InFlight} {response : ServiceResponse}
    (hf : s.requests i = some f) (hrest : f.rest = .ret response)
    (hwrites : f.request.json.isSome) : ∃ auth, Wrote rt config s i f.request auth response := by
  obtain ⟨call, _, _, hcall, -⟩ := hi.ok hf hrest hwrites
  obtain ⟨g, auth, hg, horigin⟩ := hi.origin hcall
  rw [hf] at hg
  cases hg
  exact ⟨auth, hwrites, ⟨f, hf, rfl, hrest, horigin.granted⟩, call, hcall, horigin.comes⟩

theorem commandKey_of_call {request : Request} {auth : Authorized} {call : Call}
    (h : request.call rt config auth = some (.write call)) :
    request.commandKey auth = some call.commandKey := by
  have hcarried := Request.call_carried h
  rw [Request.commandKey, hcarried.key, Option.map_some, ← hcarried.caller, ← hcarried.actor,
    ← hcarried.operation]
  rfl

/-- The answer conveys the response of the call that took effect under the key. -/
theorem Wrote.effect (hB : B.Accountable codec rt) (h : Reachable B platform rt config s)
    {request : Request} {auth : Authorized} {response : ServiceResponse}
    (hwrote : Wrote rt config s i request auth response) :
    ∃ call e original, request.call rt config auth = some (.write call) ∧ e ∈ B.log s.store ∧
      e.call.commandKey = call.commandKey ∧ e.call.command.hash = call.command.hash ∧
      e.value = .fresh original ∧ original.kind = call.operation.kind ∧
      Conveys codec platform original response := by
  have hi := Inv.reachable hB.lawful h
  obtain ⟨hwrites, ⟨f, hf, rfl, hrest, -⟩, call, hcall, hcomes⟩ := hwrote
  obtain ⟨call', answer, record, hcall', hresult, hrecord, hrespond⟩ := hi.ok hf hrest hwrites
  rw [hcall] at hcall'
  cases hcall'
  obtain ⟨e, he, original, hvalue, hretold, hkey, hhash⟩ :=
    hB.answered s.store hi.store i call answer hcall hresult
  rw [respond_of_record hrecord] at hrespond
  exact ⟨call, e, original, hcomes, he, hkey, hhash, hvalue,
    hretold.kind.symm.trans (kind_of_record hrecord), answer.response, hretold, hrespond⟩

/-- One call took effect under the key of an answered write. -/
theorem Wrote.once (hB : B.Accountable codec rt) (h : Reachable B platform rt config s)
    {request : Request} {auth : Authorized} {response : ServiceResponse}
    (hwrote : Wrote rt config s i request auth response) :
    ∃ call : Call, ∃ original, request.call rt config auth = some (.write call) ∧
      (∃! e, e ∈ B.log s.store ∧ e.call.commandKey = call.commandKey ∧
        e.call.command.hash = call.command.hash ∧ e.value = .fresh original) ∧
      original.kind = call.operation.kind ∧ Conveys codec platform original response := by
  obtain ⟨c, hlogged⟩ := hB.logged s.store (Inv.reachable hB.lawful h).store
  obtain ⟨call, e, original, hcomes, he, hkey, hhash, hvalue, hkind, hconveys⟩ := hwrote.effect hB h
  refine ⟨call, original, hcomes, ⟨e, ⟨he, hkey, hhash, hvalue⟩, ?_⟩, hkind, hconveys⟩
  rintro e' ⟨he', hkey', -, hvalue'⟩
  exact hlogged.commits.once he' he hvalue' hvalue (hkey'.trans hkey.symm)

variable (codec platform) in
/-- The two answers tell one response, of the call that took effect under the key. -/
structure Agreed (s : State B) (request : Request) (auth : Authorized)
    (response response' : ServiceResponse) : Prop where
  original : ∃ e ∈ B.log s.store, ∃ original, request.commandKey auth = some e.call.commandKey ∧
    e.value = .fresh original ∧ Conveys codec platform original response ∧
    Conveys codec platform original response' ∧ (original.Kept codec → response = response')
  plain : request.asked = none → response = response'
  outline : codec.Steady → response.outline = response'.outline

/-- A request is answered alike whenever it is answered. -/
theorem Wrote.same (hB : B.Accountable codec rt) (h : Reachable B platform rt config s)
    {request : Request} {auth : Authorized} {response response' : ServiceResponse}
    (hwrote : Wrote rt config s i request auth response)
    (hwrote' : Wrote rt config s j request auth response') :
    Agreed codec platform s request auth response response' := by
  obtain ⟨c, hlogged⟩ := hB.logged s.store (Inv.reachable hB.lawful h).store
  obtain ⟨call, e, original, hcomes, he, hkey, -, hvalue, hkind, hconveys⟩ := hwrote.effect hB h
  obtain ⟨call', e', original', hcomes', he', hkey', -, hvalue', -, hconveys'⟩ :=
    hwrote'.effect hB h
  rw [hcomes] at hcomes'
  cases hcomes'
  have hsame : e = e' := hlogged.commits.once he he' hvalue hvalue' (hkey.trans hkey'.symm)
  subst hsame
  rw [hvalue] at hvalue'
  cases hvalue'
  refine ⟨⟨e, he, original, ?_, hvalue, hconveys, hconveys', hconveys.eq hconveys'⟩,
    fun hasked => hconveys.eq hconveys' ?_, hconveys.outline hconveys'⟩
  · rw [commandKey_of_call hcomes, hkey]
  · exact (restored_of_plain (hkind ▸ Request.call_plain hcomes hasked)).kept

/-- Answers under one key are of one request, and say the same. -/
theorem Wrote.agree (hB : B.Accountable codec rt) (hprinted : Printed rt)
    (h : Reachable B platform rt config s) {request request' : Request} {auth auth' : Authorized}
    {response response' : ServiceResponse} (hwrote : Wrote rt config s i request auth response)
    (hwrote' : Wrote rt config s j request' auth' response')
    (hkey : request.commandKey auth = request'.commandKey auth')
    (hcanonical : request.Canonical) (hcanonical' : request'.Canonical)
    (hdistinguished : request.Distinguished rt request') :
    request = request' ∧ Agreed codec platform s request auth response response' := by
  obtain ⟨c, hlogged⟩ := hB.logged s.store (Inv.reachable hB.lawful h).store
  obtain ⟨call, e, _, hcomes, he, hkeys, hhash, hvalue, -⟩ := hwrote.effect hB h
  obtain ⟨call', e', _, hcomes', he', hkeys', hhash', hvalue', -⟩ := hwrote'.effect hB h
  rw [commandKey_of_call hcomes, commandKey_of_call hcomes', Option.some.injEq] at hkey
  -- One call took effect under the key, with the hash of both requests.
  have hsame : e = e' :=
    hlogged.commits.once he he' hvalue hvalue' (hkeys.trans (hkey.trans hkeys'.symm))
  subst hsame
  obtain ⟨hcaller, hactor, hoperation, -⟩ := CommandKey.mk.inj hkey
  have hrequest : request = request' := Request.hash_inj hprinted hcanonical hcanonical'
    hdistinguished hcomes hcomes' hoperation (hhash.symm.trans hhash')
  subst hrequest
  have hcarried := Request.call_carried hcomes
  have hcarried' := Request.call_carried hcomes'
  have hauth : auth = auth' := by
    cases auth
    cases auth'
    rw [Authorized.mk.injEq]
    exact ⟨hcarried.caller.symm.trans (hcaller.trans hcarried'.caller),
      hcarried.actor.symm.trans (hactor.trans hcarried'.actor)⟩
  subst hauth
  exact ⟨rfl, hwrote.same hB h hwrote'⟩

/-- What a request comes to, by the result of its call. -/
def Outcome (platform : Platform) (request : Request) (call : Call)
    (rest : Service ServiceError ServiceResponse) : Result → Prop
  | .ok answer => ∃ record response, answer.response.record call.operation.kind = some record ∧
      call.operation.kind.respond platform record = some response ∧ rest = .ret response
  | .error (.domain failure) => rest = .fail (request.refusal failure)
  | .error _ => ∃ failure, rest = .fail (request.failed failure)

variable (codec platform) in
/-- The retry is answered from the response that the first answer conveys. -/
structure Again (s : State B) (request : Request) (auth : Authorized) (response : ServiceResponse)
    (rest : Service ServiceError ServiceResponse) : Prop where
  original : ∃ e ∈ B.log s.store, ∃ original, request.commandKey auth = some e.call.commandKey ∧
    e.value = .fresh original ∧ Conveys codec platform original response ∧
    ((∃ response', Conveys codec platform original response' ∧ rest = .ret response') ∨
      ∃ failure, rest = .fail (request.failed failure)) ∧
    (original.Restored codec → rest = .ret response)
  plain : request.asked = none → rest = .ret response

/-- A retry gets what the request was answered before, as far as that can be read back. -/
theorem Wrote.retried (hB : B.Accountable codec rt) (h : Reachable B platform rt config s)
    {request : Request} {auth : Authorized} {response : ServiceResponse}
    (hwrote : Wrote rt config s i request auth response) {call : Call}
    (hcall : request.call rt config auth = some (.write call)) {result : Result}
    (hsettles : Settles codec rt (B.log s.store) call result)
    {rest : Service ServiceError ServiceResponse}
    (houtcome : Outcome platform request call rest result) :
    Again codec platform s request auth response rest := by
  obtain ⟨call', e, original, hcomes, he, hkey, hhash, hvalue, hkind, hconveys⟩ :=
    hwrote.effect hB h
  rw [hcall] at hcomes
  cases hcomes
  obtain ⟨c, σ, hlogged, -, hagree⟩ := hsettles
  obtain ⟨stored, hstored, hexec⟩ := hlogged.commits.replays he hvalue hkey hhash σ
  rw [hexec] at hagree
  have hcommand : request.commandKey auth = some e.call.commandKey := by
    rw [commandKey_of_call hcall, hkey]
  have hplain : request.asked = none → original.Restored codec := fun hasked =>
    restored_of_plain (hkind ▸ Request.call_plain hcall hasked)
  cases hdecode : decodeResponse codec original.kind stored with
  | none =>
    have hnot : ¬original.Restored codec := fun hrestored => by
      rw [hrestored stored hstored] at hdecode
      cases hdecode
    rw [hdecode] at hagree
    cases hagree with
    | @other e' _ he' _ =>
      have hfails : ∃ failure, rest = .fail (request.failed failure) := by
        cases e' with
        | domain => cases he'
        | _ => exact houtcome
      exact ⟨⟨e, he, original, hcommand, hvalue, hconveys, .inr hfails,
        fun hrestored => absurd hrestored hnot⟩, fun hasked => absurd (hplain hasked) hnot⟩
  | some told =>
    rw [hdecode] at hagree
    cases hagree with
    | ok hanswer =>
      subst hanswer
      obtain ⟨record, response', hrecord, hrespond, hrest⟩ := houtcome
      rw [respond_of_record hrecord] at hrespond
      have hconveys' : Conveys codec platform original response' :=
        ⟨told, .read hstored hdecode, hrespond⟩
      have hsame : original.Restored codec → rest = .ret response := fun hrestored => by
        rw [hrest, hconveys.eq hconveys' hrestored.kept]
      exact ⟨⟨e, he, original, hcommand, hvalue, hconveys, .inl ⟨response', hconveys', hrest⟩,
        hsame⟩, fun hasked => hsame (hplain hasked)⟩

theorem granted_grants {request : Request} {context : Ctx} {auth : Authorized}
    (h : request.Grantable config context auth) :
    request.Granted config context auth (request.grants auth.actor) := by
  refine ⟨⟨h.caller, h.listed⟩, ⟨h.organizationId, h.actor⟩, ?_, ?_, ?_⟩ <;> simp [Request.grants]

/-- A request whose call runs alone. -/
theorem served (hB : B.Accountable codec rt) (hsteady : codec.Steady)
    (h : Reachable B platform rt config s)
    (htime : ∀ instant, platform.isTimestamp (rt.formatTimestamp instant))
    (hnone : s.requests i = none) {request : Request} {context : Ctx} {auth : Authorized}
    {call : Call} (hgrantable : request.Grantable config context auth)
    (hcall : request.call rt config auth = some (.write call)) {store' : B.State}
    {result : Result} (halone : Backend.Alone s.store i call store' result) :
    ∃ s' f, Steps B platform rt config s s' ∧ s'.store = store' ∧ s'.requests i = some f ∧
      f.request = request ∧ f.context = context ∧
      request.Granted config context auth f.trace ∧
      (∀ j, j ≠ i → s'.requests j = s.requests j) ∧
      Outcome platform request call f.rest result := by
  obtain ⟨k, hfollows, hok, hdomain, hother⟩ := serve_asks platform hgrantable hcall
  have hreaches : ∀ reply : (Ask.store (.write call)).Reply, Replies call result reply →
      Steps B platform rt config s (State.set { s with store := store' } i
        ⟨request, context, request.grants auth.actor ++ [⟨.store (.write call), reply⟩],
          k reply⟩) :=
    fun _ hreplies => Steps.served hB.lawful hnone hfollows (grants_not_store _ _) halone hreplies
  have hgranted : ∀ exchange, request.Granted config context auth
      (request.grants auth.actor ++ [exchange]) := fun exchange =>
    Granted.mono (granted_grants hgrantable) fun _ hmem => List.mem_append_left _ hmem
  cases result with
  | ok answer =>
    have hstore := (Inv.reachable hB.lawful h).store.trans halone.steps
    obtain ⟨e, he, original, hvalue, hretold, hkey, -⟩ :=
      hB.answered store' hstore i call answer halone.called halone.result
    obtain ⟨c, hlogged⟩ := hB.logged store' hstore
    have hkind : answer.response.kind = call.operation.kind :=
      (hretold.kind.trans (hlogged.commits.kind he hvalue)).trans
        (Operation.kind_eq_of_name (CommandKey.mk.inj hkey).2.2.1)
    obtain ⟨record, hrecord⟩ := exists_record hkind
    have hsteps := hreaches (.ok record) ⟨record, hrecord, rfl⟩
    have hself := set_self { s with store := store' } i ⟨request, context,
      request.grants auth.actor ++ [⟨.store (.write call), .ok record⟩], k (.ok record)⟩
    obtain ⟨response, hresponse⟩ := (Inv.reachable hB.lawful (h.trans hsteps)).passes hB hsteady
      htime hself (.write call) record (List.mem_append_right _ (List.mem_singleton_self _))
    exact ⟨_, _, hsteps, rfl, hself, rfl, rfl, hgranted _, fun j hj => set_of_ne _ _ hj, record,
      response, hrecord, hresponse, hok record response hresponse⟩
  | error e =>
    have hsteps := hreaches (.error e) rfl
    refine ⟨_, _, hsteps, rfl, set_self .., rfl, rfl, hgranted _, fun j hj => set_of_ne _ _ hj, ?_⟩
    cases e with
    | domain failure => exact hdomain failure
    | backend detail => exact hother _ rfl
    | json => exact hother _ rfl
    | time => exact hother _ rfl

end Deployment

end LensoFlags
