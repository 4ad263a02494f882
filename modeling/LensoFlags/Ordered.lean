import LensoFlags.Abstract.Publications
import LensoFlags.Deployed
import LensoFlags.Shown

/-!
# The order of answers

What an answer tells is not older than what was told before its request arrived. Answers here are
those of any requests of a deployment, over either plugin.

Results:
1. `versions_agree`: answers that show one revision of a flag show the same.
2. `answers_follow`: no read shows an older version than was shown before it arrived.
3. `evaluations_follow`: no evaluation is from an older ruleset than was published before.
4. `archival_final`: nothing is done with a flag after it was shown archived.
5. `updates_contend`: of the writes that expect one revision, one is answered.
-/

namespace LensoFlags

/-- The evaluations an answer tells. -/
def ServiceResponse.evaluationsShown : ServiceResponse → List EvaluationResponse
  | .evaluation item => [item]
  | .evaluations results => results
  | _ => []

theorem castFlag_archived {platform : Platform} {record : FlagRecord} {item : FlagResponse}
    (h : castFlag platform record = some item) : item.archived = record.archived := by
  unfold castFlag at h
  split at h
  all_goals
    simp only [Option.bind_eq_bind, Option.bind_eq_some_iff] at h
    obtain ⟨_, -, _, -, _, -, _, -, h⟩ := h
    cases h
    rfl

theorem StoreCall.Shows.not_publish {platform : Platform} {call : StoreCall} {record : call.Record}
    {item : PublishRulesetResponse} : ¬call.Shows platform record (.publish item) := by
  cases call with
  | write => exact id
  | getFlag =>
    rintro ⟨_, -, h⟩
    cases h
  | _ =>
    rintro ⟨_, h, -⟩
    cases h

theorem castPublish_fields {platform : Platform} {record : PublishRecord}
    {item : PublishRulesetResponse} (h : castPublish platform record = some item) :
    item.organizationId = record.organizationId ∧ item.flagKey = record.flagKey ∧
      item.environmentKey = record.environmentKey ∧
      item.rulesetRevision = record.rulesetRevision := by
  simp only [castPublish, Option.bind_eq_bind, Option.bind_eq_some_iff] at h
  obtain ⟨_, -, h⟩ := h
  cases h
  exact ⟨rfl, rfl, rfl, rfl⟩

theorem castEvaluation_fields {platform : Platform} {record : EvaluationRecord}
    {item : EvaluationResponse} (h : castEvaluation platform record = some item) :
    item.flagKey = record.flagKey ∧ item.environmentKey = record.environmentKey ∧
      item.rulesetRevision = record.rulesetRevision := by
  simp only [castEvaluation, Option.bind_eq_bind, Option.bind_eq_some_iff] at h
  obtain ⟨_, -, _, -, _, -, h⟩ := h
  cases h
  exact ⟨rfl, rfl, rfl⟩

/-- What an answer tells of evaluations: those of its records, in their order. -/
theorem evaluations_of_respond {platform : Platform} {told : Response} {response : ServiceResponse}
    (h : told.respond platform = some response) :
    List.Forall₂ (fun record item => castEvaluation platform record = some item) told.records
      response.evaluationsShown := by
  cases told with
  | evaluation record =>
    obtain ⟨found, hcast, rfl⟩ := Option.map_eq_some_iff.mp h
    exact .cons hcast .nil
  | evaluations records =>
    obtain ⟨found, hcast, rfl⟩ := Option.map_eq_some_iff.mp h
    exact optionAll_eq_some.mp hcast
  | _ =>
    obtain ⟨found, -, rfl⟩ := Option.map_eq_some_iff.mp h
    exact .nil

/-- Only evaluations have records. -/
theorem evaluates_of_mem {operation : Operation} {response : Response}
    (hkind : response.kind = operation.kind) {record : EvaluationRecord}
    (hrecord : record ∈ response.records) :
    ∃ subject flagKeys, Abstract.evaluates operation = some (subject, flagKeys) := by
  cases operation with
  | evaluate => exact ⟨_, _, rfl⟩
  | evaluateBatch => exact ⟨_, _, rfl⟩
  | _ => cases response <;> first | (cases hkind; done) | exact absurd hrecord List.not_mem_nil

/-- What an answer tells of evaluations are the records of the response that it conveys. -/
theorem Conveys.evaluations {codec : Codec} {platform : Platform} {original : Response}
    {response : ServiceResponse} (h : Conveys codec platform original response) :
    List.Forall₂ (fun record item => ∃ told, record.Retold codec told ∧
      castEvaluation platform told = some item) original.records response.evaluationsShown := by
  obtain ⟨told, hretold, hrespond⟩ := h
  exact Table.forall₂_trans (fun _ told _ hrecord hcast => ⟨told, hrecord, hcast⟩) hretold.records
    (evaluations_of_respond hrespond)

namespace Deployment

variable {B : Backend} {codec : Codec} {platform : Platform} {rt : Runtime}
  {config : PolicyConfig} {Holds : B.State → Abstract.Store codec → Prop} {s s' : State B}
  {i j : ℕ} {f g : InFlight} {request request' : Request} {auth auth' : Authorized}
  {response response' : ServiceResponse}

/-- No call has taken effect under the key of the request. -/
def Unspent (s : State B) (request : Request) (auth : Authorized) : Prop :=
  ∀ e ∈ B.log s.store, request.commandKey auth ≠ some e.call.commandKey

/-- The request is a read, or a write under a key that is unspent for whom it is granted to. -/
def New (config : PolicyConfig) (s : State B) (f : InFlight) : Prop :=
  f.request.json.isSome → ∀ auth, f.request.Granted config f.context auth f.trace →
    Unspent s f.request auth

theorem new_initial (hm : B.Mirrors codec rt Holds) (f : InFlight) :
    New config (State.initial B) f := by
  intro _ auth _ e he
  rw [State.initial, hm.initial] at he
  exact absurd he List.not_mem_nil

/-- A request that was answered stays as it is. -/
theorem Steps.returned (h : Steps B platform rt config s s') (hf : s.requests i = some f)
    (hrest : f.rest = .ret response) : s'.requests i = some f := by
  obtain ⟨f', hf', hgoes⟩ := h.goes hf
  have hsame : f' = f := hgoes.ended fun asked k hk => by
    rw [hrest] at hk
    cases hk
  rw [hf', hsame]

theorem Wrote.steps (hB : B.Lawful) (hwrote : Wrote rt config s i request auth response)
    (h : Steps B platform rt config s s') : Wrote rt config s' i request auth response := by
  obtain ⟨f, hf, hrequest, hrest, hgranted⟩ := hwrote.answered
  obtain ⟨call, hcalled, hcall⟩ := hwrote.called
  exact ⟨hwrote.writes, ⟨f, h.returned hf hrest, hrequest, hrest, hgranted⟩, call,
    call_steps hB h.store_steps hcalled, hcall⟩

/-- An answer shows flags of the moments since its request arrived. -/
theorem displayed (hB : B.Accountable codec rt) (hm : B.Mirrors codec rt Holds)
    (h : Reachable B platform rt config s) (hsteps : Steps B platform rt config s s')
    {moments : List B.State} (hsince : Since rt Holds s s' moments) (hnone : s.requests i = none)
    (hf : s'.requests i = some f) (hnew : New config s f) (hrest : f.rest = .ret response) :
    ∀ item ∈ response.flagsShown, ∃ m ∈ moments, Displays platform Holds m item := by
  have hstore := (Inv.reachable hB.lawful h).store
  have h' : Reachable B platform rt config s' := h.trans hsteps
  by_cases hreads : f.request.json = none
  · exact read_displayed hB hm h' hsince hstore hnone hf hrest hreads
  · have hwrites := Option.isSome_iff_ne_none.mpr hreads
    obtain ⟨auth, hwrote⟩ := (Inv.reachable hB.lawful h').wrote hf hrest hwrites
    obtain ⟨g, hg, -, -, hgranted⟩ := hwrote.answered
    rw [hf] at hg
    cases hg
    exact hwrote.displayed hB h' hsince (hnew hwrites auth hgranted)

/-- Two versions of a flag that are shown are one, or differ in their revision. -/
theorem shown_agree (hB : B.Accountable codec rt) (hm : B.Mirrors codec rt Holds)
    (h : Reachable B platform rt config s) (hf : s.requests i = some f) (hg : s.requests j = some g)
    (hrest : f.rest = .ret response) (hrest' : g.rest = .ret response')
    {item item' : FlagResponse} (hitem : item ∈ response.flagsShown)
    (hitem' : item' ∈ response'.flagsShown)
    (horganization : item.organizationId = item'.organizationId)
    (hkey : item.flagKey = item'.flagKey) (hrevision : item.revision = item'.revision) :
    item = item' := by
  have hinitial : Reachable B platform rt config (State.initial B) := .refl
  obtain ⟨moments, hsince⟩ := exists_since hB.lawful hm hinitial h
  obtain ⟨m, hmem, hshown⟩ := displayed hB hm hinitial h hsince rfl hf (new_initial hm _)
    hrest item hitem
  obtain ⟨m', hmem', hshown'⟩ := displayed hB hm hinitial h hsince rfl hg (new_initial hm _)
    hrest' item' hitem'
  have hsame : ∀ {a b : FlagResponse}, a.revision = b.revision →
      (∃ revision revision' : Int, a.revision = toString revision ∧
        b.revision = toString revision' ∧ (b = a ∨ revision < revision')) → b = a := by
    rintro a b hab ⟨revision, revision', ha, hb, hor⟩
    rw [ha, hb] at hab
    rw [Decimal.toString_inj hab] at hor
    exact hor.resolve_right (lt_irrefl _)
  have hreachable : ∀ m ∈ moments, B.Reachable m := fun m hm => hsince.after m hm
  rcases hsince.comparable hmem hmem' with hsteps | hsteps
  · exact (hsame hrevision (hshown.version hm hshown' (hreachable m hmem) hsteps
      horganization.symm hkey.symm)).symm
  · exact hsame hrevision.symm (hshown'.version hm hshown (hreachable m' hmem') hsteps
      horganization hkey)

/-- What is shown to a request is not older than what was shown before it arrived. -/
theorem shown_follows (hB : B.Accountable codec rt) (hm : B.Mirrors codec rt Holds)
    (h : Reachable B platform rt config s) (hsteps : Steps B platform rt config s s')
    (hf : s.requests i = some f) (hrest : f.rest = .ret response) (hnone : s.requests j = none)
    (hg : s'.requests j = some g) (hnew : New config s g) (hrest' : g.rest = .ret response')
    {item item' : FlagResponse}
    (hitem : item ∈ response.flagsShown) (hitem' : item' ∈ response'.flagsShown)
    (horganization : item'.organizationId = item.organizationId)
    (hkey : item'.flagKey = item.flagKey) :
    ∃ revision revision' : Int, item.revision = toString revision ∧
      item'.revision = toString revision' ∧ (item' = item ∨ revision < revision') := by
  have hinitial : Reachable B platform rt config (State.initial B) := .refl
  obtain ⟨moments, hsince⟩ := exists_since hB.lawful hm hinitial h
  obtain ⟨m, hmem, hshown⟩ := displayed hB hm hinitial h hsince rfl hf (new_initial hm _)
    hrest item hitem
  obtain ⟨moments', hsince'⟩ := exists_since hB.lawful hm h hsteps
  obtain ⟨m', hmem', hshown'⟩ := displayed hB hm h hsteps hsince' hnone hg hnew hrest' item'
    hitem'
  exact hshown.version hm hshown' (hsince.after m hmem)
    ((hsince.before m hmem).trans (hsince'.after m' hmem')) horganization hkey

/-! ## Effects -/

/-- The requests are told apart by their hashes, and their documents have one text each. -/
structure Digested (rt : Runtime) (s : State B) : Prop where
  canonical : ∀ i f, s.requests i = some f → f.request.Canonical
  distinguished : ∀ i j f g, s.requests i = some f → s.requests j = some g →
    f.request.Distinguished rt g.request

/-- Under the key of an answered write it is the call of the request that took effect. -/
theorem Wrote.took (hB : B.Accountable codec rt) (hprinted : Printed rt)
    (h : Reachable B platform rt config s) (hdigested : Digested rt s)
    (hwrote : Wrote rt config s i request auth response) :
    ∃ e original, request.call rt config auth = some (.write e.call) ∧ e ∈ B.log s.store ∧
      e.value = .fresh original ∧ original.kind = e.call.operation.kind ∧
      Conveys codec platform original response := by
  have hi := Inv.reachable hB.lawful h
  obtain ⟨call, e, original, hcomes, he, hkey, hhash, hvalue, hkind, hconveys⟩ := hwrote.effect hB h
  obtain ⟨f, hf, rfl, -⟩ := hwrote.answered
  obtain ⟨g, auth', hg, -, hcomes'⟩ := hi.origin (hB.called s.store hi.store e he)
  obtain ⟨hcaller, hactor, hoperation, -⟩ := CommandKey.mk.inj hkey
  have hrequest : g.request = f.request := Request.hash_inj hprinted
    (hdigested.canonical _ g hg) (hdigested.canonical _ f hf)
    (hdigested.distinguished _ _ g f hg hf) hcomes' hcomes hoperation hhash
  have hcarried := Request.call_carried hcomes
  have hcarried' := Request.call_carried hcomes'
  have hauth : auth' = auth := by
    cases auth
    cases auth'
    rw [Authorized.mk.injEq]
    exact ⟨hcarried'.caller.symm.trans (hcaller.trans hcarried.caller),
      hcarried'.actor.symm.trans (hactor.trans hcarried.actor)⟩
  rw [hrequest, hauth, hcomes] at hcomes'
  cases hcomes'
  exact ⟨e, original, hcomes, he, hvalue, hkind, hconveys⟩

/-- An evaluation expects no revision. -/
theorem asked_of_contend {call call' : Call}
    (hcall : request.call rt config auth = some (.write call))
    (h : Abstract.Contend call.operation call'.operation) : request.asked = none := by
  have hname := (Request.call_carried hcall).operation
  cases hoperation : call.operation with
  | evaluate =>
    rw [hoperation] at h
    rcases h with ⟨_, h, -⟩ | ⟨_, h, -⟩ <;> cases h
  | evaluateBatch =>
    rw [hoperation] at h
    rcases h with ⟨_, h, -⟩ | ⟨_, h, -⟩ <;> cases h
  | _ =>
    rw [hoperation] at hname
    cases request <;> first | rfl | simp [Operation.name, Request.operation] at hname

/-- Answered writes that expected the same revision of a flag or an environment are one request. -/
theorem Wrote.contend (hB : B.Accountable codec rt) (hprinted : Printed rt)
    (h : Reachable B platform rt config s) (hdigested : Digested rt s)
    (hwrote : Wrote rt config s i request auth response)
    (hwrote' : Wrote rt config s j request' auth' response') {call call' : Call}
    (hcall : request.call rt config auth = some (.write call))
    (hcall' : request'.call rt config auth' = some (.write call'))
    (hcontend : Abstract.Contend call.operation call'.operation) :
    request = request' ∧ response = response' := by
  obtain ⟨c, hlogged⟩ := hB.logged s.store (Inv.reachable hB.lawful h).store
  obtain ⟨e, original, hcomes, he, hvalue, -⟩ := hwrote.took hB hprinted h hdigested
  obtain ⟨e', original', hcomes', he', hvalue', -⟩ := hwrote'.took hB hprinted h hdigested
  rw [hcall] at hcomes
  cases hcomes
  rw [hcall'] at hcomes'
  cases hcomes'
  have hsame := hlogged.commits.contend he he' hvalue hvalue' hcontend
  have hkey : request.commandKey auth = request'.commandKey auth' := by
    rw [commandKey_of_call hcall, commandKey_of_call hcall', hsame]
  obtain ⟨f, hf, rfl, -⟩ := hwrote.answered
  obtain ⟨g, hg, rfl, -⟩ := hwrote'.answered
  obtain ⟨hsame, hagreed⟩ := hwrote.agree hB hprinted h hwrote' hkey (hdigested.canonical _ f hf)
    (hdigested.canonical _ g hg) (hdigested.distinguished _ _ f g hf hg)
  exact ⟨hsame, hagreed.plain (asked_of_contend hcall hcontend)⟩

/-! ## Publications and evaluations -/

/-- The number of the newest ruleset at the moment. -/
def Numbers (Holds : B.State → Abstract.Store codec → Prop) (m : B.State)
    (org flagKey environmentKey : String) (n : ℕ) : Prop :=
  ∃ c, Holds m c ∧ (c.rulesetsOf org flagKey environmentKey).length = n

theorem Numbers.mono (hm : B.Mirrors codec rt Holds) {m m' : B.State} (hreachable : B.Reachable m)
    (hsteps : B.Steps m m') {org flagKey environmentKey : String} {n n' : ℕ}
    (h : Numbers Holds m org flagKey environmentKey n)
    (h' : Numbers Holds m' org flagKey environmentKey n') : n ≤ n' := by
  obtain ⟨c, hc, rfl⟩ := h
  obtain ⟨c', hc', rfl⟩ := h'
  exact ((hm.later hreachable hsteps hc hc').rulesets org flagKey environmentKey).length_le

/-- A publication tells the number of the newest ruleset at a moment. -/
theorem published (hB : B.Accountable codec rt) (hm : B.Mirrors codec rt Holds)
    (h : Reachable B platform rt config s) {moments : List B.State}
    (hsince : Since rt Holds (State.initial B) s moments) (hf : s.requests i = some f)
    {item : PublishRulesetResponse} (hrest : f.rest = .ret (.publish item)) :
    ∃ m ∈ moments, ∃ n : ℕ, item.rulesetRevision = toString (n : Int) ∧
      Numbers Holds m item.organizationId item.flagKey item.environmentKey n := by
  have hi := Inv.reachable hB.lawful h
  have hwrites : f.request.json.isSome := by
    rw [Option.isSome_iff_ne_none]
    intro hreads
    have hfollows := hi.follows i f hf
    rw [hrest] at hfollows
    obtain ⟨call, record, -, -, hshows⟩ := serve_reads f.request hreads hfollows.result
    exact hshows.not_publish
  obtain ⟨auth, hwrote⟩ := hi.wrote hf hrest hwrites
  obtain ⟨call, e, original, -, he, -, -, hvalue, -, told, hretold, hrespond⟩ := hwrote.effect hB h
  rcases hsince.committed e he with hold | ⟨m₀, hm₀, m, hmem, c₀, c, hc₀, hc, hstep⟩
  · rw [State.initial, hm.initial] at hold
    exact absurd hold List.not_mem_nil
  · have hs := (hm.logged (hsince.after m₀ hm₀) hc₀).run.sound
    cases told with
    | publish record =>
      obtain ⟨found, hcast, heq⟩ := Option.map_eq_some_iff.mp hrespond
      cases heq
      cases hretold.eq_of_plain rfl
      have hnumber := hstep.publishes hs hvalue
      obtain ⟨horg, hflag, henvironment, hrevision⟩ := castPublish_fields hcast
      rw [← horg, ← hflag, ← henvironment, ← hrevision] at hnumber
      exact ⟨m, hmem, _, hnumber, c, hc, rfl⟩
    | _ =>
      obtain ⟨found, -, heq⟩ := Option.map_eq_some_iff.mp hrespond
      cases heq

/-- A fresh evaluation tells the number of the newest ruleset at a moment since it arrived. -/
theorem evaluated (hB : B.Accountable codec rt) (hm : B.Mirrors codec rt Holds)
    (hsteady : codec.Steady) (hprinted : Printed rt) (h : Reachable B platform rt config s')
    (hreachable : B.Reachable s.store) (hdigested : Digested rt s') {moments : List B.State}
    (hsince : Since rt Holds s s' moments) (hunspent : Unspent s request auth)
    (hwrote : Wrote rt config s' j request auth response) :
    ∀ item ∈ response.evaluationsShown, ∃ m ∈ moments, ∃ n : ℕ,
      item.rulesetRevision = toString (n : Int) ∧
        Numbers Holds m request.organizationId item.flagKey item.environmentKey n := by
  obtain ⟨e, original, hcomes, he, hvalue, hkind, hconveys⟩ := hwrote.took hB hprinted h hdigested
  rcases hsince.committed e he with hold | ⟨m₀, hm₀, m, hmem, c₀, c, hc₀, hc, hstep⟩
  · exact absurd (commandKey_of_call hcomes) (hunspent e hold)
  · have hs := (hm.logged (hreachable.trans (hsince.after m₀ hm₀)) hc₀).run.sound
    have horganization := (Request.call_carried hcomes).organizationId
    intro item hitem
    obtain ⟨record, hrecord, told, hretold, hcast⟩ :=
      Table.exists_of_mem_right hconveys.evaluations hitem
    obtain ⟨subject, flagKeys, hop⟩ := evaluates_of_mem hkind hrecord
    obtain ⟨-, henvironment, hrevision⟩ := hstep.evaluates hs hvalue hop record hrecord
    obtain ⟨hflag', henvironment', hrevision'⟩ := castEvaluation_fields hcast
    obtain ⟨hflagSame, henvironmentSame, hrevisionSame, -⟩ :=
      EvaluationRecord.outline_fields (hretold.outline hsteady)
    rw [Abstract.evaluates_organizationId hop] at horganization
    rw [hrevision', hflag', henvironment', hrevisionSame, hflagSame, henvironmentSame, henvironment,
      ← horganization]
    exact ⟨m, hmem, _, hrevision, c, hc, rfl⟩

/-- An evaluation under a new key is not from an older ruleset than was told to be published before
it arrived. -/
theorem evaluation_follows (hB : B.Accountable codec rt) (hm : B.Mirrors codec rt Holds)
    (hsteady : codec.Steady) (hprinted : Printed rt) (h : Reachable B platform rt config s)
    (hsteps : Steps B platform rt config s s') (hdigested : Digested rt s')
    (hf : s.requests i = some f) {published : PublishRulesetResponse}
    (hrest : f.rest = .ret (.publish published)) (hunspent : Unspent s request auth)
    (hwrote : Wrote rt config s' j request auth response)
    (horganization : request.organizationId = published.organizationId)
    {item : EvaluationResponse} (hitem : item ∈ response.evaluationsShown)
    (hflag : item.flagKey = published.flagKey)
    (henvironment : item.environmentKey = published.environmentKey) :
    ∃ n n' : ℕ, published.rulesetRevision = toString (n : Int) ∧
      item.rulesetRevision = toString (n' : Int) ∧ n ≤ n' := by
  have hinitial : Reachable B platform rt config (State.initial B) := .refl
  obtain ⟨moments, hsince⟩ := exists_since hB.lawful hm hinitial h
  obtain ⟨m, hmem, n, hn, hnumbers⟩ := Deployment.published hB hm h hsince hf hrest
  obtain ⟨moments', hsince'⟩ := exists_since hB.lawful hm h hsteps
  obtain ⟨m', hmem', n', hn', hnumbers'⟩ := evaluated hB hm hsteady hprinted (h.trans hsteps)
    (Inv.reachable hB.lawful h).store hdigested hsince' hunspent hwrote item hitem
  rw [horganization, hflag, henvironment] at hnumbers'
  exact ⟨n, n', hn, hn', hnumbers.mono hm (hsince.after m hmem)
    ((hsince.before m hmem).trans (hsince'.after m' hmem')) hnumbers'⟩

/-- Nothing is done under a new key with a flag that was shown to be archived before. -/
theorem archived_final (hB : B.Accountable codec rt) (hm : B.Mirrors codec rt Holds)
    (hprinted : Printed rt) (h : Reachable B platform rt config s)
    (hsteps : Steps B platform rt config s s') (hdigested : Digested rt s')
    (hf : s.requests i = some f) (hrest : f.rest = .ret response) {item : FlagResponse}
    (hitem : item ∈ response.flagsShown) (harchived : item.archived = true)
    (hunspent : Unspent s request auth) (hwrote : Wrote rt config s' j request auth response')
    {call : Call} (hcall : request.call rt config auth = some (.write call)) :
    ¬Abstract.concerns item.organizationId item.flagKey call.operation := by
  have hinitial : Reachable B platform rt config (State.initial B) := .refl
  obtain ⟨moments, hsince⟩ := exists_since hB.lawful hm hinitial h
  obtain ⟨m, hmem, c, hc, flag, hflag, hcast⟩ := displayed hB hm hinitial h hsince rfl hf
    (new_initial hm _) hrest item hitem
  obtain ⟨moments', hsince'⟩ := exists_since hB.lawful hm h hsteps
  obtain ⟨e, original, hcomes, he, hvalue, -⟩ := hwrote.took hB hprinted (h.trans hsteps) hdigested
  rw [hcall] at hcomes
  cases hcomes
  rcases hsince'.committed e he with hold | ⟨m₀, hm₀, -, -, c₀, c', hc₀, -, hstep⟩
  · exact absurd (commandKey_of_call hcall) (hunspent e hold)
  · have hreachable : B.Reachable m := hsince.after m hmem
    have hs := (hm.logged hreachable hc).run.sound
    have hended : flag.archived = true := (castFlag_archived hcast).symm.trans harchived
    have hfound := (hm.later hreachable ((hsince.before m hmem).trans (hsince'.after m₀ hm₀)) hc
      hc₀).archived (Table.lookup_of_mem hs.flagKeys hflag) hended
    obtain ⟨horg, hkey⟩ := castFlag_key hcast
    obtain ⟨σ, c₁, rows, heffect, -⟩ := hstep.fresh hvalue
    rw [horg, hkey]
    exact (heffect.archived_frozen hfound hended).2.2

end Deployment

/-! ## Both plugins -/

namespace Plugin

variable {codec : Codec} {rt : Runtime}

/-- What the tables of the plugin hold. -/
def Holds : (plugin : Plugin) → (plugin.backend codec rt).State → Abstract.Store codec → Prop
  | .d1 => fun (s : D1.State codec) c => D1.Represents s.tables c
  | .postgres describe => fun (s : Postgres.State codec describe rt) c =>
      Postgres.Represents rt s.store c

theorem mirrors (plugin : Plugin) : (plugin.backend codec rt).Mirrors codec rt plugin.Holds := by
  cases plugin with
  | d1 => exact D1.mirrors
  | postgres describe => exact Postgres.mirrors

end Plugin

section Guarantees

open Deployment

variable {codec : Codec} {platform : Platform} {rt : Runtime} {config : PolicyConfig}
  (plugin : Plugin)

/-- A revision of a flag is one version of it: any two answers that show it show the same. -/
theorem versions_agree {s : State (plugin.backend codec rt)}
    (h : Reachable (plugin.backend codec rt) platform rt config s) {i j : ℕ} {f g : InFlight}
    {response response' : ServiceResponse} (hf : s.requests i = some f)
    (hg : s.requests j = some g) (hrest : f.rest = .ret response) (hrest' : g.rest = .ret response')
    {item item' : FlagResponse} (hitem : item ∈ response.flagsShown)
    (hitem' : item' ∈ response'.flagsShown)
    (horganization : item.organizationId = item'.organizationId)
    (hkey : item.flagKey = item'.flagKey) (hrevision : item.revision = item'.revision) :
    item = item' :=
  shown_agree plugin.accountable plugin.mirrors h hf hg hrest hrest' hitem hitem'
    horganization hkey hrevision

/-- Once an answer has shown a flag, no read that arrives later shows an older version of it, nor
does a write under a new key. -/
theorem answers_follow {s s' : State (plugin.backend codec rt)}
    (h : Reachable (plugin.backend codec rt) platform rt config s)
    (hsteps : Steps (plugin.backend codec rt) platform rt config s s') {i j : ℕ} {f g : InFlight}
    {response response' : ServiceResponse} (hf : s.requests i = some f)
    (hrest : f.rest = .ret response) (hnone : s.requests j = none) (hg : s'.requests j = some g)
    (hnew : New config s g) (hrest' : g.rest = .ret response')
    {item item' : FlagResponse} (hitem : item ∈ response.flagsShown)
    (hitem' : item' ∈ response'.flagsShown)
    (horganization : item'.organizationId = item.organizationId)
    (hkey : item'.flagKey = item.flagKey) :
    ∃ revision revision' : Int, item.revision = toString revision ∧
      item'.revision = toString revision' ∧ (item' = item ∨ revision < revision') :=
  shown_follows plugin.accountable plugin.mirrors h hsteps hf hrest hnone hg
    hnew hrest' hitem hitem' horganization hkey

/-- Once a publication was answered, no evaluation that arrives later under a new key is from an
older ruleset of the flag in the environment. -/
theorem evaluations_follow (hsteady : codec.Steady) (hprinted : Printed rt)
    {s s' : State (plugin.backend codec rt)}
    (h : Reachable (plugin.backend codec rt) platform rt config s)
    (hsteps : Steps (plugin.backend codec rt) platform rt config s s') (hdigested : Digested rt s')
    {i j : ℕ} {f : InFlight} {published : PublishRulesetResponse} {request : Request}
    {auth : Authorized} {response : ServiceResponse} (hf : s.requests i = some f)
    (hrest : f.rest = .ret (.publish published))
    (hwrote : Wrote rt config s' j request auth response) (hunspent : Unspent s request auth)
    (horganization : request.organizationId = published.organizationId)
    {item : EvaluationResponse} (hitem : item ∈ response.evaluationsShown)
    (hflag : item.flagKey = published.flagKey)
    (henvironment : item.environmentKey = published.environmentKey) :
    ∃ n n' : ℕ, published.rulesetRevision = toString (n : Int) ∧
      item.rulesetRevision = toString (n' : Int) ∧ n ≤ n' :=
  evaluation_follows plugin.accountable plugin.mirrors hsteady hprinted h hsteps hdigested hf hrest
    hunspent hwrote horganization hitem hflag henvironment

/-- Once an answer has shown a flag archived, no write under a new key that changes or evaluates the
flag is answered. -/
theorem archival_final (hprinted : Printed rt) {s s' : State (plugin.backend codec rt)}
    (h : Reachable (plugin.backend codec rt) platform rt config s)
    (hsteps : Steps (plugin.backend codec rt) platform rt config s s') (hdigested : Digested rt s')
    {i j : ℕ} {f : InFlight} {response : ServiceResponse} (hf : s.requests i = some f)
    (hrest : f.rest = .ret response) {item : FlagResponse} (hitem : item ∈ response.flagsShown)
    (harchived : item.archived = true) {request : Request} {auth : Authorized} {call : Call}
    (hcall : request.call rt config auth = some (.write call)) (hunspent : Unspent s request auth)
    (hconcerns : Abstract.concerns item.organizationId item.flagKey call.operation)
    (response' : ServiceResponse) : ¬Wrote rt config s' j request auth response' := fun hwrote =>
  archived_final plugin.accountable plugin.mirrors hprinted h hsteps hdigested hf hrest hitem
    harchived hunspent hwrote hcall hconcerns

/-- No update is lost: answered writes that expected the same revision of a flag or an environment
are one request. -/
theorem updates_contend (hprinted : Printed rt) {s : State (plugin.backend codec rt)}
    (h : Reachable (plugin.backend codec rt) platform rt config s) (hdigested : Digested rt s)
    {i j : ℕ} {request request' : Request} {auth auth' : Authorized}
    {response response' : ServiceResponse} (hwrote : Wrote rt config s i request auth response)
    (hwrote' : Wrote rt config s j request' auth' response') {call call' : Call}
    (hcall : request.call rt config auth = some (.write call))
    (hcall' : request'.call rt config auth' = some (.write call'))
    (hcontend : Abstract.Contend call.operation call'.operation) :
    request = request' ∧ response = response' :=
  hwrote.contend plugin.accountable hprinted h hdigested hwrote' hcall hcall' hcontend

end Guarantees

/-! ## A tour -/

/-- A runtime that does not digest its input. -/
def Runtime.undigested : Runtime := { Runtime.byBits with sha256 := id }

theorem printed_undigested : Printed .undigested :=
  ⟨printed_byBits.number, printed_byBits.marked, printed_byBits.distinct⟩

def tourConfig : PolicyConfig := ⟨["console"], ["console"], 256, 1, 1⟩

namespace Tour

open Deployment

abbrev store : Backend := Plugin.d1.backend Codec.verbatim .undigested

def administrator : Authorized := ⟨"console", "admin-1"⟩

def environmentRequest : Request :=
  .putEnvironment
    { environmentKey := "prod"
      expectedRevision := none
      idempotencyKey := "key-2"
      name := "Production"
      organizationId := "org" }

def off : PublishedVariant :=
  { value :=
      { booleanValue := some false
        doubleValue := none
        integerValue := none
        jsonValue := none
        stringValue := none
        valueType := .boolean }
    variantKey := "off" }

def rulesetRequest : Request :=
  .publishRuleset
    { environmentKey := "prod"
      expectedEnvironmentRevision := "1"
      expectedFlagRevision := "1"
      fallthroughVariant := "off"
      flagKey := "banner"
      idempotencyKey := "key-3"
      organizationId := "org"
      percentageRollout := []
      targetingRules := []
      variants := [off] }

def evaluateRequest : Request :=
  .evaluate
    { context := ⟨[], "user-1"⟩
      environmentKey := "prod"
      evaluationId := "key-4"
      flagKey := "banner"
      organizationId := "org" }

def archiveRequest : Request :=
  .archiveFlag
    { expectedRevision := "2"
      flagKey := "banner"
      idempotencyKey := "key-5"
      organizationId := "org" }

def updateRequest : Request :=
  .updateFlag
    { description := none
      expectedRevision := "3"
      flagKey := "banner"
      idempotencyKey := "key-6"
      name := "Banner"
      organizationId := "org" }

def setUp : List Request := [bannerRequest, environmentRequest, rulesetRequest]

def goOn : List Request := [evaluateRequest, archiveRequest, archiveRequest]

/-- The answer to a request that is served alone, with the tables after it. -/
def reply (n : ℕ) (t : D1.Tables Codec.verbatim) (request : Request) :
    Option (ServiceResponse × D1.Tables Codec.verbatim) :=
  match request.call .undigested tourConfig administrator with
  | some (.write call) =>
      match D1.call .undigested (Draws.numbered n) t call with
      | (.ok answer, t') => do
          let record ← answer.response.record call.operation.kind
          let response ← call.operation.kind.respond consolePlatform record
          return (response, t')
      | (.error _, _) => none
  | _ => none

/-- The answers to requests that are served one after another. -/
def replies : ℕ → D1.Tables Codec.verbatim → List Request →
    Option (List ServiceResponse × D1.Tables Codec.verbatim)
  | _, t, [] => some ([], t)
  | n, t, request :: requests =>
      if t.epoch < Decimal.i64Max then do
        let (response, t') ← reply n t request
        let (responses, t'') ← replies (n + 1) t' requests
        return (response :: responses, t'')
      else none

theorem reply_eq_some {n : ℕ} {t t' : D1.Tables Codec.verbatim} {request : Request}
    {response : ServiceResponse} (h : reply n t request = some (response, t')) :
    ∃ call answer, ∃ record : call.operation.kind.Record,
      request.call .undigested tourConfig administrator = some (.write call) ∧
      D1.call .undigested (Draws.numbered n) t call = (.ok answer, t') ∧
      answer.response.record call.operation.kind = some record ∧
      call.operation.kind.respond consolePlatform record = some response := by
  unfold reply at h
  split at h
  · next call hcall =>
    split at h
    · next answer t₁ hresult =>
      simp only [Option.bind_eq_bind, Option.bind_eq_some_iff, Option.pure_def,
        Option.some.injEq, Prod.mk.injEq] at h
      obtain ⟨record, hrecord, response', hrespond, rfl, rfl⟩ := h
      exact ⟨call, answer, record, hcall, hresult, hrecord, hrespond⟩
    · cases h
  · cases h

/-- The requests have been served one after another. -/
structure Stage (s : State store) (requests : List Request) (t : D1.Tables Codec.verbatim) :
    Prop where
  reachable : Reachable store consolePlatform .undigested tourConfig s
  tables : D1.State.tables s.store = t
  free : ∀ i, requests.length ≤ i → s.requests i = none
  unused : ∀ i, requests.length ≤ i →
    @D1.Unused Codec.verbatim s.store (Draws.numbered i)
  served : ∀ i f, s.requests i = some f → f.request ∈ requests

theorem stage_initial : Stage (State.initial store) [] .empty where
  reachable := .refl
  tables := rfl
  free := fun _ _ => rfl
  unused := fun i _ => Plugin.d1.initial_unused i
  served := fun _ _ hf => nomatch hf

/-- The next request is served. -/
theorem Stage.next {s : State store} {requests : List Request} {t t' : D1.Tables Codec.verbatim}
    (h : Stage s requests t) (hroom : t.epoch + 1 ≤ Decimal.i64Max) {request : Request}
    {response : ServiceResponse}
    (hgrantable : request.Grantable tourConfig ⟨some "console"⟩ administrator)
    (hreply : reply requests.length t request = some (response, t')) :
    ∃ s', Steps store consolePlatform .undigested tourConfig s s' ∧
      Stage s' (requests ++ [request]) t' ∧
      Wrote .undigested tourConfig s' requests.length request administrator response := by
  have hB : store.Accountable Codec.verbatim .undigested := Plugin.d1.accountable
  have hi := Inv.reachable hB.lawful h.reachable
  obtain ⟨call, answer, record, hcall, hresult, hrecord, hrespond⟩ := reply_eq_some hreply
  have hfree := h.free _ (le_refl requests.length)
  have hnone : (s.store : D1.State Codec.verbatim).attempts requests.length = none := by
    cases ha : (s.store : D1.State Codec.verbatim).attempts requests.length with
    | none => rfl
    | some a =>
      obtain ⟨f, hf, -⟩ := hi.called _ a.call (congrArg (Option.map D1.Attempt.call) ha)
      rw [hfree] at hf
      cases hf
  have hquiet : D1.Quiet (s.store : D1.State Codec.verbatim) (0 + 1) := by
    unfold D1.Quiet
    rw [h.tables]
    exact hroom
  obtain ⟨store', halone, htables, -, hunused⟩ := D1.alone_call (D1.backend_steps hi.store) call
    hnone (h.unused _ (le_refl _)) hquiet
  rw [h.tables, hresult] at halone htables
  obtain ⟨s', f, hsteps, rfl, hf, hrequest, hcontext, hgranted, hothers, houtcome⟩ :=
    Deployment.served hB Codec.verbatim_steady h.reachable (fun _ => rfl) hfree hgrantable
      hcall halone
  obtain ⟨record', response', hrecord', hrespond', hrest⟩ := houtcome
  rw [show answer.response.record _ = some record' from hrecord', Option.some.injEq] at hrecord
  rw [← hrecord, hrespond', Option.some.injEq] at hrespond
  refine ⟨s', hsteps, ⟨h.reachable.trans hsteps, htables, fun i hi => ?_, fun i hi => ?_,
    fun i g hg => ?_⟩, by rw [Request.call_carried hcall |>.hash.choose_spec.1]; rfl,
    ⟨f, hf, hrequest, hrespond ▸ hrest, hcontext ▸ hgranted⟩, call, halone.called, hcall⟩
  · rw [List.length_append] at hi
    rw [hothers i (Nat.ne_of_gt hi)]
    exact h.free i (Nat.le_of_succ_le hi)
  · rw [List.length_append] at hi
    exact hunused _ (h.unused i (Nat.le_of_succ_le hi)) (Draws.numbered_disjoint (Nat.ne_of_gt hi))
  · by_cases hnew : i = requests.length
    · subst hnew
      rw [hf] at hg
      cases hg
      exact List.mem_append_right _ (hrequest ▸ List.mem_singleton_self _)
    · rw [hothers i hnew] at hg
      exact List.mem_append_left _ (h.served i g hg)

/-- All the requests are served. -/
theorem Stage.go {requests : List Request}
    (hgrantable : ∀ request ∈ requests,
      request.Grantable tourConfig ⟨some "console"⟩ administrator) :
    ∀ {s : State store} {before : List Request} {t t' : D1.Tables Codec.verbatim}
      {responses : List ServiceResponse}, Stage s before t →
      replies before.length t requests = some (responses, t') →
      ∃ s', Steps store consolePlatform .undigested tourConfig s s' ∧
        Stage s' (before ++ requests) t' ∧
        ∀ k request response, requests[k]? = some request → responses[k]? = some response →
          Wrote .undigested tourConfig s' (before.length + k) request administrator response := by
  have hB : store.Accountable Codec.verbatim .undigested := Plugin.d1.accountable
  induction requests with
  | nil =>
    intro s before t t' responses h hreplies
    cases hreplies
    rw [List.append_nil]
    exact ⟨s, .refl, h, fun k request response hk => nomatch hk⟩
  | cons request requests ih =>
    intro s before t t' responses h hreplies
    unfold replies at hreplies
    split at hreplies
    · next hroom =>
      simp only [Option.bind_eq_bind, Option.bind_eq_some_iff, Option.pure_def,
        Option.some.injEq, Prod.mk.injEq, Prod.exists] at hreplies
      obtain ⟨response, t₁, hreply, rest, t₂, hrest, rfl, rfl⟩ := hreplies
      obtain ⟨s₁, hsteps₁, hstage₁, hwrote₁⟩ :=
        h.next hroom (hgrantable request List.mem_cons_self) hreply
      have hlength : (before ++ [request]).length = before.length + 1 := List.length_append
      rw [← hlength] at hrest
      obtain ⟨s₂, hsteps₂, hstage₂, hwrote₂⟩ :=
        ih (fun r hr => hgrantable r (List.mem_cons_of_mem _ hr)) hstage₁ hrest
      rw [List.append_assoc] at hstage₂
      refine ⟨s₂, hsteps₁.trans hsteps₂, hstage₂, fun k r response' hr hresponse => ?_⟩
      cases k with
      | zero =>
        cases hr
        cases hresponse
        exact hwrote₁.steps hB.lawful hsteps₂
      | succ k =>
        have hwrote := hwrote₂ k r response' hr hresponse
        rw [hlength, Nat.add_assoc, Nat.add_comm 1 k] at hwrote
        exact hwrote
    · cases hreplies

theorem Stage.digested {s : State store} {requests : List Request} {t : D1.Tables Codec.verbatim}
    (h : Stage s requests t) (hcanonical : ∀ request ∈ requests, request.Canonical) :
    Digested .undigested s :=
  ⟨fun i f hf => hcanonical _ (h.served i f hf), fun _ _ _ _ _ _ _ _ _ _ hhash => hhash⟩

theorem Stage.unspent {s : State store} {requests : List Request} {t : D1.Tables Codec.verbatim}
    (h : Stage s requests t) {request : Request} (auth : Authorized)
    (hkeys : ∀ r ∈ requests, r.key ≠ request.key) : Unspent s request auth := by
  have hB : store.Accountable Codec.verbatim .undigested := Plugin.d1.accountable
  have hi := Inv.reachable hB.lawful h.reachable
  intro e he hkey
  obtain ⟨f, auth', hf, -, hcomes⟩ := hi.origin (hB.called s.store hi.store e he)
  obtain ⟨key, hkey, hcommand⟩ := Option.map_eq_some_iff.mp hkey
  obtain ⟨key', hkey', hcommand'⟩ := Option.map_eq_some_iff.mp (commandKey_of_call hcomes)
  rw [← hcommand'] at hcommand
  refine hkeys f.request (h.served _ f hf) ?_
  rw [hkey, hkey', (CommandKey.mk.inj hcommand).2.2.2]

def epoch : String := "1970-01-01T00:00:00Z"

def createdFlag : FlagResponse :=
  { archived := false
    archivedAt := none
    createdAt := epoch
    description := none
    flagKey := "banner"
    name := "Banner"
    organizationId := "org"
    revision := "1"
    updatedAt := epoch
    valueType := .boolean }

def publishedRuleset : PublishRulesetResponse :=
  { environmentKey := "prod"
    environmentRevision := "2"
    flagKey := "banner"
    flagRevision := "2"
    organizationId := "org"
    publishedAt := epoch
    publishedBy := "admin-1"
    rulesetRevision := "1" }

def servedVariant : EvaluationResponse :=
  { environmentKey := "prod"
    evaluatedAt := epoch
    flagKey := "banner"
    reason := .fallthrough
    receiptId := "3:0"
    rulesetRevision := "1"
    value := off.value
    variantKey := "off" }

def archivedFlag : FlagResponse :=
  { createdFlag with
    archived := true
    archivedAt := some epoch
    revision := "3" }

/-- The set-up is served in `s`, the rest as well in `s'`. -/
structure Toured (s s' : State store) : Prop where
  reachable : Reachable store consolePlatform .undigested tourConfig s
  steps : Steps store consolePlatform .undigested tourConfig s s'
  digested : Digested .undigested s'
  arrives : s.requests 4 = none
  evaluation : Unspent s evaluateRequest administrator
  archival : ∀ auth, Unspent s archiveRequest auth
  update : Unspent s' updateRequest administrator
  created : Wrote .undigested tourConfig s 0 bannerRequest administrator (.flag createdFlag)
  published :
    Wrote .undigested tourConfig s 2 rulesetRequest administrator (.publish publishedRuleset)
  evaluated :
    Wrote .undigested tourConfig s' 3 evaluateRequest administrator (.evaluation servedVariant)
  archived : Wrote .undigested tourConfig s' 4 archiveRequest administrator (.flag archivedFlag)
  again : Wrote .undigested tourConfig s' 5 archiveRequest administrator (.flag archivedFlag)

theorem exists_replies : ∃ environment t t',
    replies 0 .empty setUp =
      some ([.flag createdFlag, .environment environment, .publish publishedRuleset], t) ∧
    replies 3 t goOn =
      some ([.evaluation servedVariant, .flag archivedFlag, .flag archivedFlag], t') :=
  ⟨_, _, _, rfl, rfl⟩

/-- The request is granted to the administrator, and its document is canonical. -/
def Ready (request : Request) : Prop :=
  request.Grantable tourConfig ⟨some "console"⟩ administrator ∧ request.Canonical

theorem ready_setUp : ∀ request ∈ setUp, Ready request := by
  intro request hmem
  simp only [setUp, List.mem_cons, List.not_mem_nil, or_false] at hmem
  rcases hmem with rfl | rfl | rfl
  all_goals refine ⟨⟨rfl, List.mem_singleton_self _, by decide, by decide⟩, ?_⟩
  · trivial
  · trivial
  · intro item hitem
    rw [List.mem_singleton.mp hitem]
    exact ⟨fun _ h => (nomatch h), fun _ h => (nomatch h)⟩

theorem ready_goOn : ∀ request ∈ goOn, Ready request := by
  intro request hmem
  simp only [goOn, List.mem_cons, List.not_mem_nil, or_false] at hmem
  rcases hmem with rfl | rfl | rfl
  all_goals exact ⟨⟨rfl, List.mem_singleton_self _, by decide, by decide⟩, trivial⟩

theorem exists_toured : ∃ s s', Toured s s' := by
  obtain ⟨environment, t, t', hsetUp, hgoOn⟩ := exists_replies
  obtain ⟨s, hsteps, hstage, hwrote⟩ := stage_initial.go
    (fun r hr => (ready_setUp r hr).1) hsetUp
  obtain ⟨s', hsteps', hstage', hwrote'⟩ := hstage.go
    (fun r hr => (ready_goOn r hr).1) hgoOn
  exact ⟨s, s',
    { reachable := hsteps
      steps := hsteps'
      digested := hstage'.digested fun r hr =>
        (List.mem_append.mp hr).elim (fun hr => (ready_setUp r hr).2) fun hr => (ready_goOn r hr).2
      arrives := hstage.free 4 (by decide)
      evaluation := hstage.unspent _ (by decide)
      archival := fun auth => hstage.unspent auth (by decide)
      update := hstage'.unspent _ (by decide)
      created := hwrote 0 _ _ rfl rfl
      published := hwrote 2 _ _ rfl rfl
      evaluated := hwrote' 0 _ _ rfl rfl
      archived := hwrote' 1 _ _ rfl rfl
      again := hwrote' 2 _ _ rfl rfl }⟩

end Tour

section Witnesses

open Deployment Tour

/-- The answers to an archival and to its retry show one version. -/
theorem versions_agree_tour : ∃ s : State store,
    Reachable store consolePlatform .undigested tourConfig s ∧ ∃ f g item item',
      s.requests 4 = some f ∧ s.requests 5 = some g ∧ f.rest = .ret (.flag item) ∧
      g.rest = .ret (.flag item') ∧ item = item' := by
  obtain ⟨s, s', h⟩ := exists_toured
  have hreachable := h.reachable.trans h.steps
  obtain ⟨f, hf, -, hrest, -⟩ := h.archived.answered
  obtain ⟨g, hg, -, hrest', -⟩ := h.again.answered
  exact ⟨s', hreachable, f, g, _, _, hf, hg, hrest, hrest',
    versions_agree .d1 hreachable hf hg hrest hrest'
      (List.mem_singleton_self _) (List.mem_singleton_self _) rfl rfl rfl⟩

/-- The archival arrives after the flag was created, and shows a later version. -/
theorem answers_follow_tour : ∃ s s' : State store,
    Steps store consolePlatform .undigested tourConfig s s' ∧ s.requests 4 = none ∧
      ∃ f g item item', s.requests 0 = some f ∧ s'.requests 4 = some g ∧
      f.rest = .ret (.flag item) ∧ g.rest = .ret (.flag item') ∧
      ∃ revision revision' : Int, item.revision = toString revision ∧
        item'.revision = toString revision' ∧ (item' = item ∨ revision < revision') := by
  obtain ⟨s, s', h⟩ := exists_toured
  obtain ⟨f, hf, -, hrest, -⟩ := h.created.answered
  obtain ⟨g, hg, hrequest, hrest', -⟩ := h.archived.answered
  exact ⟨s, s', h.steps, h.arrives, f, g, _, _, hf, hg, hrest, hrest',
    answers_follow .d1 h.reachable h.steps hf hrest h.arrives hg
      (fun _ auth _ => hrequest ▸ h.archival auth) hrest' (List.mem_singleton_self _)
      (List.mem_singleton_self _) rfl rfl⟩

/-- The evaluation arrives after the ruleset was published. -/
theorem evaluations_follow_tour : ∃ s s' : State store,
    Steps store consolePlatform .undigested tourConfig s s' ∧
      Wrote .undigested tourConfig s 2 rulesetRequest administrator (.publish publishedRuleset) ∧
      Wrote .undigested tourConfig s' 3 evaluateRequest administrator (.evaluation servedVariant) ∧
      ∃ n n' : ℕ, publishedRuleset.rulesetRevision = toString (n : Int) ∧
        servedVariant.rulesetRevision = toString (n' : Int) ∧ n ≤ n' := by
  obtain ⟨s, s', h⟩ := exists_toured
  obtain ⟨f, hf, -, hrest, -⟩ := h.published.answered
  exact ⟨s, s', h.steps, h.published, h.evaluated,
    evaluations_follow .d1 Codec.verbatim_steady printed_undigested h.reachable h.steps
      h.digested hf hrest h.evaluated h.evaluation rfl (List.mem_singleton_self _) rfl rfl⟩

/-- The archived flag is not renamed. -/
theorem archival_final_tour : ∃ s : State store,
    Reachable store consolePlatform .undigested tourConfig s ∧
      Wrote .undigested tourConfig s 4 archiveRequest administrator (.flag archivedFlag) ∧
      ∀ j response, ¬Wrote .undigested tourConfig s j updateRequest administrator response := by
  obtain ⟨s, s', h⟩ := exists_toured
  have hreachable := h.reachable.trans h.steps
  obtain ⟨f, hf, -, hrest, -⟩ := h.archived.answered
  exact ⟨s', hreachable, h.archived, fun j response =>
    archival_final .d1 printed_undigested hreachable .refl h.digested hf hrest
      (List.mem_singleton_self _) rfl rfl h.update (.inl (by decide)) response⟩

/-- The archival and its retry expect the same revision. -/
theorem updates_contend_tour : ∃ s : State store,
    Reachable store consolePlatform .undigested tourConfig s ∧ ∃ response response',
      Wrote .undigested tourConfig s 4 archiveRequest administrator response ∧
      Wrote .undigested tourConfig s 5 archiveRequest administrator response' ∧
      response = response' := by
  obtain ⟨s, s', h⟩ := exists_toured
  have hreachable := h.reachable.trans h.steps
  exact ⟨s', hreachable, _, _, h.archived, h.again,
    (updates_contend .d1 printed_undigested hreachable h.digested h.archived
      h.again rfl rfl (.inl ⟨_, rfl, rfl⟩)).2⟩

end Witnesses

end LensoFlags
