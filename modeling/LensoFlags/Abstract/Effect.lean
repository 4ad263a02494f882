import LensoFlags.Abstract.Store
import LensoFlags.Rollout
import Mathlib.Data.List.Forall2

/-!
# What a write operation can do

One case for each way an operation succeeds, with what it found before (`Effect`). Later invariants
split on these cases and never unfold an operation.

Results: `perform_effect`: what an operation does is one of them. `fresh_effect`: a call whose
command is new does that and records its response. `Effect.formed`: what the records of a response
have in common.
-/

namespace LensoFlags.Abstract

variable {codec : Codec} {rt : Runtime} {σ : Stamp} {c c' : Store codec} {call : Call}
  {response : Response}

/-! ## Checks -/

theorem requireRevision_eq_ok {flag : Flag} {expected : Int} :
    requireRevision flag expected = .ok () ↔ flag.archived = false ∧ flag.revision = expected := by
  unfold requireRevision
  cases flag.archived <;> simp

theorem requireRoom_eq_ok {revision : Int} :
    requireRoom revision = .ok () ↔ revision + 1 ≤ Decimal.i64Max := by
  unfold requireRoom
  split <;> simp_all

/-! ## Evaluations in order -/

/-- The result belongs to the flag and the position. -/
def Evaluated (rt : Runtime) (σ : Stamp) (c : Store codec) (command : Command) (operation : String)
    (subject : Subject) (at_ : String × ℕ) (result : EvaluationRecord × Receipt) : Prop :=
  evaluateOne rt σ c command operation subject at_.2 at_.1 = .ok result

theorem evaluateFrom_eq_ok {command : Command} {operation : String} {subject : Subject} {n : ℕ}
    {flagKeys : List String} {results : List (EvaluationRecord × Receipt)} :
    evaluateFrom rt σ c command operation subject n flagKeys = .ok results ↔
      List.Forall₂ (Evaluated rt σ c command operation subject) (flagKeys.zipIdx n) results := by
  induction flagKeys generalizing n results with
  | nil =>
    rw [List.zipIdx_nil, List.forall₂_nil_left_iff]
    exact ⟨fun h => by cases h; rfl, fun h => by rw [h]; rfl⟩
  | cons flagKey flagKeys ih =>
    simp only [evaluateFrom, bind_eq_ok, List.zipIdx_cons, List.forall₂_cons_left_iff]
    constructor
    · rintro ⟨first, hfirst, rest, hrest, h⟩
      cases h
      exact ⟨first, rest, hfirst, ih.mp hrest, rfl⟩
    · rintro ⟨first, rest, hfirst, hrest, rfl⟩
      exact ⟨first, hfirst, rest, ih.mpr hrest, rfl⟩

/-- An evaluation is the record and the receipt of a choice. -/
theorem Evaluated.choice {command : Command} {operation : String} {subject : Subject}
    {at_ : String × ℕ} {result : EvaluationRecord × Receipt}
    (h : Evaluated rt σ c command operation subject at_ result) :
    ∃ variant reason revision, choose rt c subject at_.1 = .ok (variant, reason, revision) ∧
      result = evaluation (σ.evaluation at_.2) command operation
        (evaluationId operation command.key at_.2) subject at_.1 variant reason revision := by
  simp only [Evaluated, evaluateOne, bind_eq_ok] at h
  obtain ⟨⟨variant, reason, revision⟩, hchoose, h⟩ := h
  cases h
  exact ⟨variant, reason, revision, hchoose, rfl⟩

theorem choose_eq_ok {subject : Subject} {flagKey : String} {variant : VariantRecord}
    {reason : String} {revision : Int}
    (h : choose rt c subject flagKey = .ok (variant, reason, revision)) :
    ∃ flag ruleset definition, c.flag subject.organizationId flagKey = some flag ∧
      flag.archived = false ∧
      c.latest subject.organizationId flagKey subject.environmentKey = some ruleset ∧
      codec.decodeDefinition ruleset.definition = some definition ∧
      validateRuleset rt flag.valueType definition = .ok () ∧
      chooseVariant rt subject.organizationId subject.environmentKey flagKey subject.targetingKey
        subject.attributes definition = .ok (variant, reason) ∧ revision = ruleset.revision := by
  simp only [choose, bind_eq_ok, okOr_eq_ok] at h
  obtain ⟨flag, hflag, h⟩ := h
  split at h
  · cases h
  · next harchived =>
    simp only [bind_eq_ok, okOr_eq_ok, orJson_eq_ok] at h
    obtain ⟨-, -, ruleset, hruleset, definition, hdecode, _, hvalid, ⟨variant', reason'⟩, hchoose,
      h⟩ := h
    cases h
    exact ⟨flag, ruleset, definition, hflag, by simpa using harchived, hruleset, hdecode, hvalid,
      hchoose, rfl⟩

/-- The record of a choice has a valid value, one of the reasons and a number for its revision. -/
theorem evaluation_formed {subject : Subject} {flagKey reason : String} {variant : VariantRecord}
    {revision : Int} (h : choose rt c subject flagKey = .ok (variant, reason, revision))
    (σ : EvaluationStamp) (command : Command) (operation evaluationId : String) :
    (evaluation σ command operation evaluationId subject flagKey variant reason
      revision).1.Formed rt := by
  obtain ⟨flag, _, _, -, -, -, -, hvalid, hvariant, -⟩ := choose_eq_ok h
  obtain ⟨hmem, hreason⟩ := chooseVariant_chosen hvariant
  obtain ⟨hvariants, -⟩ := validateRuleset_eq_ok.mp hvalid
  exact ⟨⟨flag.valueType, hvariants.typed _ hmem⟩, hreason, revision, rfl⟩

/-! ## Effects -/

/-- The subject and the flags of an evaluation. -/
def evaluates : Operation → Option (Subject × List String)
  | .evaluate org environmentKey flagKey targetingKey attributes contextHash =>
      some (⟨org, environmentKey, targetingKey, attributes, contextHash⟩, [flagKey])
  | .evaluateBatch org environmentKey flagKeys targetingKey attributes contextHash =>
      some (⟨org, environmentKey, targetingKey, attributes, contextHash⟩, flagKeys)
  | _ => none

inductive Effect (rt : Runtime) (σ : Stamp) (c : Store codec) (call : Call) :
    Response → Store codec → Prop
  | created {org flagKey name valueType : String} {description : Option String} :
      call.operation = .createFlag org flagKey name description valueType →
      c.flag org flagKey = none →
      Effect rt σ c call (.flag (newFlag σ org flagKey name description valueType).record)
        { c with flags := newFlag σ org flagKey name description valueType :: c.flags }
  | updated {org flagKey name : String} {expected : Int} {description : Option String}
      {flag : Flag} :
      call.operation = .updateFlag org flagKey expected name description →
      c.flag org flagKey = some flag → flag.archived = false → flag.revision = expected →
      flag.revision + 1 ≤ Decimal.i64Max →
      Effect rt σ c call (.flag (flag.update σ name description).record)
        (c.putFlag (flag.update σ name description))
  | archived {org flagKey : String} {expected : Int} {flag : Flag} :
      call.operation = .archiveFlag org flagKey expected →
      c.flag org flagKey = some flag → flag.archived = false → flag.revision = expected →
      flag.revision + 1 ≤ Decimal.i64Max →
      Effect rt σ c call (.flag (flag.archive σ).record) (c.putFlag (flag.archive σ))
  | environmentCreated {org environmentKey name : String} :
      call.operation = .putEnvironment org environmentKey name none →
      c.environment org environmentKey = none →
      Effect rt σ c call (.environment (newEnvironment σ org environmentKey name).record)
        { c with environments := newEnvironment σ org environmentKey name :: c.environments }
  | environmentRenamed {org environmentKey name : String} {expected : Int}
      {environment : Environment} :
      call.operation = .putEnvironment org environmentKey name (some expected) →
      c.environment org environmentKey = some environment → environment.revision = expected →
      environment.revision + 1 ≤ Decimal.i64Max →
      Effect rt σ c call (.environment (environment.rename σ name).record)
        (c.putEnvironment (environment.rename σ name))
  | published {org flagKey environmentKey : String} {expectedFlag expectedEnvironment : Int}
      {definition : RulesetDefinition} {flag : Flag} {environment : Environment}
      {document : codec.Definition} :
      call.operation = .publishRuleset org flagKey environmentKey expectedFlag expectedEnvironment
        definition →
      c.flag org flagKey = some flag → flag.archived = false → flag.revision = expectedFlag →
      flag.revision + 1 ≤ Decimal.i64Max →
      validateRuleset rt flag.valueType definition = .ok () →
      c.environment org environmentKey = some environment →
      environment.revision = expectedEnvironment →
      environment.revision + 1 ≤ Decimal.i64Max →
      c.published org flagKey environmentKey + 1 ≤ Decimal.i64Max →
      codec.encodeDefinition definition = some document →
      Effect rt σ c call
        (.publish
          { organizationId := org
            flagKey := flagKey
            environmentKey := environmentKey
            rulesetRevision := toString (c.published org flagKey environmentKey + 1)
            flagRevision := toString (flag.revision + 1)
            environmentRevision := toString (environment.revision + 1)
            publishedBy := call.command.actor
            publishedAt := σ.publishedAt })
        { (c.putFlag (flag.bump σ)).putEnvironment (environment.bump σ) with
          rulesets := ⟨org, flagKey, environmentKey, c.published org flagKey environmentKey + 1,
            document⟩ :: c.rulesets }
  | evaluated {subject : Subject} {flagKeys : List String}
      {results : List (EvaluationRecord × Receipt)} {response : Response} :
      evaluates call.operation = some (subject, flagKeys) →
      evaluateFrom rt σ c call.command call.operation.name subject 0 flagKeys = .ok results →
      response.kind = call.operation.kind → response.records = results.map (·.1) →
      Effect rt σ c call response (c.addReceipts (results.map (·.2)))

/-- So have the records of a response. -/
theorem Effect.formed (h : Effect rt σ c call response c') :
    ∀ record ∈ response.records, record.Formed rt := by
  cases h with
  | @evaluated _ _ results _ _ hresults _ hrecords =>
    rw [hrecords]
    intro record hrecord
    obtain ⟨result, hresult, rfl⟩ := List.mem_map.mp hrecord
    obtain ⟨_, -, heval⟩ := Table.exists_of_mem_right (evaluateFrom_eq_ok.mp hresults) hresult
    obtain ⟨_, _, _, hchoose, rfl⟩ := Evaluated.choice heval
    exact evaluation_formed hchoose ..
  | _ => exact fun _ h => absurd h List.not_mem_nil

theorem perform_effect (h : perform rt σ c call = .ok (response, c')) :
    Effect rt σ c call response c' := by
  -- The guards that an operation passes are the premises of its effect.
  cases hop : call.operation with
  | createFlag org flagKey name description valueType =>
    simp only [perform, hop, createFlag] at h
    split at h
    · cases h
    · next hnone =>
      cases h
      exact .created hop (by simpa using hnone)
  | updateFlag org flagKey expected name description =>
    simp only [perform, hop, updateFlag, bind_eq_ok, okOr_eq_ok] at h
    obtain ⟨flag, hflag, _, hrev, _, hroom, h⟩ := h
    obtain ⟨harchived, hexpected⟩ := requireRevision_eq_ok.mp hrev
    cases h
    exact .updated hop hflag harchived hexpected (requireRoom_eq_ok.mp hroom)
  | archiveFlag org flagKey expected =>
    simp only [perform, hop, archiveFlag, bind_eq_ok, okOr_eq_ok] at h
    obtain ⟨flag, hflag, _, hrev, _, hroom, h⟩ := h
    obtain ⟨harchived, hexpected⟩ := requireRevision_eq_ok.mp hrev
    cases h
    exact .archived hop hflag harchived hexpected (requireRoom_eq_ok.mp hroom)
  | putEnvironment org environmentKey name expected =>
    simp only [perform, hop, putEnvironment] at h
    split at h
    · next hnone =>
      cases h
      exact .environmentCreated hop hnone
    · next environment expected' hsome =>
      split at h
      · cases h
      · next hrev =>
        simp only [bind_eq_ok] at h
        obtain ⟨_, hroom, h⟩ := h
        cases h
        exact .environmentRenamed hop hsome (not_not.mp hrev) (requireRoom_eq_ok.mp hroom)
    · cases h
    · cases h
  | publishRuleset org flagKey environmentKey expectedFlag expectedEnvironment definition =>
    simp only [perform, hop, publishRuleset, bind_eq_ok, okOr_eq_ok] at h
    obtain ⟨flag, hflag, _, hrev, _, hvalid, environment, henv, h⟩ := h
    obtain ⟨harchived, hexpected⟩ := requireRevision_eq_ok.mp hrev
    split at h
    · cases h
    · next henvrev =>
      simp only [bind_eq_ok, orJson_eq_ok] at h
      obtain ⟨_, hroom, _, henvroom, _, hnext, document, hdocument, h⟩ := h
      cases h
      exact .published hop hflag harchived hexpected (requireRoom_eq_ok.mp hroom) hvalid henv
        (not_not.mp henvrev) (requireRoom_eq_ok.mp henvroom) (requireRoom_eq_ok.mp hnext) hdocument
  | evaluate org environmentKey flagKey targetingKey attributes contextHash =>
    simp only [perform, hop, evaluate, bind_eq_ok] at h
    obtain ⟨result, hresult, h⟩ := h
    cases h
    refine @Effect.evaluated codec rt σ c call _ [flagKey] [result] _ (by rw [hop]; rfl) ?_
      (by rw [hop]; rfl) rfl
    rw [hop]
    exact evaluateFrom_eq_ok.mpr (.cons hresult .nil)
  | evaluateBatch org environmentKey flagKeys targetingKey attributes contextHash =>
    simp only [perform, hop, evaluateBatch, bind_eq_ok] at h
    obtain ⟨results, hresults, h⟩ := h
    cases h
    exact .evaluated (by rw [hop]; rfl) (by rw [hop]; exact hresults) (by rw [hop]; rfl) rfl

/-- A new call performs its operation and records the response. -/
theorem attempt_of_new (hnew : c.command call.commandKey = none) :
    attempt rt σ c call = (do
      let (response, c₁) ← perform rt σ c call
      let c' ← record c₁ call response
      .ok (.fresh response, c')) := by
  have hreplay : replay c call = .ok none := by rw [replay, hnew]
  unfold attempt fresh
  rw [hreplay]
  cases perform rt σ c call with
  | error e => rfl
  | ok p =>
    change ((record p.2 call p.1 >>= fun c' => .ok (p.1, c')) >>= _) = record p.2 call p.1 >>= _
    cases record p.2 call p.1 <;> rfl

theorem fresh_effect (h : fresh rt σ c call = .ok (response, c')) :
    ∃ c₁ stored, Effect rt σ c call response c₁ ∧ encodeResponse codec response = some stored ∧
      c' = { c₁ with commands := ⟨call.commandKey, call.command.hash, stored⟩ :: c₁.commands } := by
  simp only [fresh, record, bind_eq_ok, orJson_eq_ok] at h
  obtain ⟨⟨response', c₁⟩, hperform, c₂, ⟨stored, hstored, hc₂⟩, h⟩ := h
  cases hc₂
  cases h
  exact ⟨c₁, stored, perform_effect hperform, hstored, rfl⟩

end LensoFlags.Abstract
