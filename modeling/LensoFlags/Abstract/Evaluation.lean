import LensoFlags.Abstract.Sound
import LensoFlags.Agree
import LensoFlags.Rollout

/-!
# Evaluations of a subject

The choice for a subject and a flag depends on the rows of the flag alone. A single evaluation is
that choice, a batch the choices of its flags in turn up to the first that fails.

Results:
1. `choose_cases`: a choice fails with a domain failure only.
2. `exec_evaluate`, `exec_evaluateBatch`: what the two operations answer.
3. `exec_batchAgrees`: a batch agrees with the single evaluations of its flags.
-/

namespace LensoFlags

/-- What a batch answers, by what the single evaluations of its flags answer. -/
structure BatchAgrees (flagKeys : List String) (single : String → Result) (batch : Result) :
    Prop where
  ok : batch.isOk ↔ ∀ flagKey ∈ flagKeys, (single flagKey).isOk
  results : ∀ answer, batch = .ok answer → ∃ records, answer = .fresh (.evaluations records) ∧
    List.Forall₂ (fun flagKey record => ∃ record',
        single flagKey = .ok (.fresh (.evaluation record')) ∧
          record.flagKey = flagKey ∧ record'.flagKey = flagKey ∧
          record.variantKey = record'.variantKey ∧ record.value = record'.value ∧
          record.reason = record'.reason ∧ record.rulesetRevision = record'.rulesetRevision)
      flagKeys records
  first : ∀ before flagKey after e, flagKeys = before ++ flagKey :: after →
    (∀ other ∈ before, (single other).isOk) → single flagKey = .error e →
    (∃ failure, e = .domain failure) ∧ batch = .error e

/-- Only the listed flags matter. -/
theorem BatchAgrees.congr {flagKeys : List String} {single single' : String → Result}
    {batch : Result} (h : BatchAgrees flagKeys single batch)
    (hsame : ∀ flagKey ∈ flagKeys, single flagKey = single' flagKey) :
    BatchAgrees flagKeys single' batch where
  ok := by
    rw [h.ok]
    exact forall₂_congr fun flagKey hmem => by rw [hsame flagKey hmem]
  results := by
    intro answer hanswer
    obtain ⟨records, hrecords, heach⟩ := h.results answer hanswer
    refine ⟨records, hrecords, ((List.forall₂_and_left _ _).mpr ⟨fun _ hmem => hmem, heach⟩).imp ?_⟩
    rintro flagKey record ⟨hmem, hrecord⟩
    rwa [← hsame flagKey hmem]
  first := by
    rintro before flagKey after e rfl hbefore hfails
    refine h.first before flagKey after e rfl (fun other hother => ?_) ?_
    · rw [hsame other (List.mem_append_left _ hother)]
      exact hbefore other hother
    · rwa [hsame flagKey (List.mem_append_right before List.mem_cons_self)]

namespace Abstract

variable {codec : Codec} {rt : Runtime} {σ : Stamp} {c : Store codec} {command : Command}
  {subject : Subject} {flagKey : String} {flagKeys : List String}

/-! ## Choices -/

/-- What an evaluation needs: a flag that is not archived, with a ruleset in an environment. -/
structure Served (c : Store codec) (subject : Subject) (flagKey : String) (flag : Flag)
    (ruleset : Ruleset codec) : Prop where
  found : c.flag subject.organizationId flagKey = some flag
  active : flag.archived = false
  placed : (c.environment subject.organizationId subject.environmentKey).isSome
  newest : c.latest subject.organizationId flagKey subject.environmentKey = some ruleset

theorem choose_of_served {flag : Flag} {ruleset : Ruleset codec}
    (h : Served c subject flagKey flag ruleset) :
    choose rt c subject flagKey = (do
      let definition ← orJson (codec.decodeDefinition ruleset.definition)
      validateRuleset rt flag.valueType definition
      let (variant, reason) ← chooseVariant rt subject.organizationId subject.environmentKey flagKey
        subject.targetingKey subject.attributes definition
      .ok (variant, reason, ruleset.revision)) := by
  obtain ⟨environment, henvironment⟩ := Option.isSome_iff_exists.mp h.placed
  unfold choose
  rw [h.found, henvironment, h.newest]
  exact if_neg (by rw [h.active]; exact Bool.false_ne_true)

/-- Without it, an evaluation fails over what is missing. -/
theorem choose_of_unserved (rt : Runtime)
    (h : ∀ flag ruleset, ¬Served c subject flagKey flag ruleset) :
    ∃ failure, choose rt c subject flagKey = .error (.domain failure) ∧
      failure ≠ .typeMismatch ∧ failure ≠ .invalidRuleset := by
  unfold choose
  cases hflag : c.flag subject.organizationId flagKey with
  | none => exact ⟨.flagNotFound, rfl, by decide, by decide⟩
  | some flag =>
    by_cases harchived : flag.archived = true
    · exact ⟨.archived, if_pos harchived, by decide, by decide⟩
    · refine Exists.imp (fun _ => And.imp_left (if_neg harchived).trans) ?_
      cases henvironment : c.environment subject.organizationId subject.environmentKey with
      | none => exact ⟨.environmentNotFound, rfl, by decide, by decide⟩
      | some environment =>
        cases hruleset : c.latest subject.organizationId flagKey subject.environmentKey with
        | none => exact ⟨.noPublishedRuleset, rfl, by decide, by decide⟩
        | some ruleset =>
          exact absurd ⟨hflag, by simpa using harchived, by rw [henvironment]; rfl, hruleset⟩
            (h flag ruleset)

/-- A ruleset that is found decodes; what the validator then lets through has a variant, and the
column accepts its evaluation. -/
theorem choose_cases (hs : Sound rt c) (hcodec : codec.Evaluable rt) (subject : Subject)
    (flagKey : String) :
    (∃ variant reason revision, choose rt c subject flagKey = .ok (variant, reason, revision) ∧
        ∀ record : EvaluationRecord, record.variantKey = variant.variantKey →
          record.value = variant.value → record.Formed rt →
            ∃ doc, codec.encodeEvaluation record = some doc) ∨
      ∃ failure, choose rt c subject flagKey = .error (.domain failure) := by
  by_cases hserved : ∃ flag ruleset, Served c subject flagKey flag ruleset
  · obtain ⟨flag, ruleset, h⟩ := hserved
    obtain ⟨_, definition, -, hencode, hpublished⟩ :=
      hs.typed ruleset (mem_rulesetsOf (latest_mem h.newest)).1
    obtain ⟨decoded, hdecode⟩ := hcodec.decodes hpublished hencode
    rw [choose_of_served h, hdecode]
    change (∃ variant reason revision,
        (validateRuleset rt flag.valueType decoded >>= fun _ => _) = _ ∧ _) ∨
      ∃ failure, (validateRuleset rt flag.valueType decoded >>= fun _ => _) = _
    cases hvalid : validateRuleset rt flag.valueType decoded with
    | error e =>
      have hdomain := validateRuleset_isDomain hvalid
      cases e with
      | domain failure => exact .inr ⟨failure, rfl⟩
      | _ => cases hdomain
    | ok _ =>
      obtain ⟨variant, reason, hchoose, hmem⟩ := chooseVariant_of_valid hvalid
        subject.organizationId subject.environmentKey flagKey subject.targetingKey
        subject.attributes
      exact .inl ⟨variant, reason, ruleset.revision, by simp only [hchoose]; rfl,
        fun record hkey hvalue hformed =>
          hcodec.accepts hpublished hencode hdecode hmem hkey hvalue hformed⟩
  · push Not at hserved
    obtain ⟨failure, hfailure, -⟩ := choose_of_unserved rt hserved
    exact .inr ⟨failure, hfailure⟩

/-- The ruleset found is one that was valid for the flag when published. -/
theorem Served.published (hs : Sound rt c) {flag : Flag} {ruleset : Ruleset codec}
    (h : Served c subject flagKey flag ruleset) :
    ∃ definition, codec.encodeDefinition definition = some ruleset.definition ∧
      validateRuleset rt flag.valueType definition = .ok () := by
  obtain ⟨hmem, htriple⟩ := mem_rulesetsOf (latest_mem h.newest)
  obtain ⟨horg, hkey⟩ := Prod.mk.inj htriple
  obtain ⟨flag', definition, hflag', hencode, hvalid⟩ := hs.typed ruleset hmem
  rw [horg, (Prod.mk.inj hkey).1, h.found] at hflag'
  cases hflag'
  exact ⟨definition, hencode, hvalid⟩

/-- Under an exact codec it still is. -/
theorem choose_of_published (hs : Sound rt c) (hexact : codec.ExactDefinitions rt) {flag : Flag}
    {ruleset : Ruleset codec} (h : Served c subject flagKey flag ruleset) :
    ∃ choice, choose rt c subject flagKey = .ok choice := by
  obtain ⟨definition, hencode, hvalid⟩ := h.published hs
  obtain ⟨variant, reason, hchoose, -⟩ := chooseVariant_of_valid hvalid subject.organizationId
    subject.environmentKey flagKey subject.targetingKey subject.attributes
  refine ⟨(variant, reason, ruleset.revision), ?_⟩
  rw [choose_of_served h, hexact hvalid hencode]
  change (validateRuleset rt flag.valueType definition >>= fun _ => _) = _
  rw [hvalid]
  change (chooseVariant rt subject.organizationId subject.environmentKey flagKey
    subject.targetingKey subject.attributes definition >>= fun _ => _) = _
  rw [hchoose]
  rfl

/-- What an evaluation does not fail with. -/
def Calm (failure : DomainFailure) : Prop := failure ≠ .typeMismatch ∧ failure ≠ .invalidRuleset

theorem choose_calm (hs : Sound rt c) (hexact : codec.ExactDefinitions rt) {failure : DomainFailure}
    (h : choose rt c subject flagKey = .error (.domain failure)) : Calm failure := by
  by_cases hserved : ∃ flag ruleset, Served c subject flagKey flag ruleset
  · obtain ⟨flag, ruleset, hserved⟩ := hserved
    obtain ⟨choice, hchoice⟩ := choose_of_published hs hexact hserved
    rw [h] at hchoice
    cases hchoice
  · push Not at hserved
    obtain ⟨failure', hfailure, hcalm⟩ := choose_of_unserved rt hserved
    rw [h] at hfailure
    cases hfailure
    exact hcalm

/-! ## Answers -/

def Subject.evaluate (subject : Subject) (command : Command) (flagKey : String) : Call :=
  ⟨command, .evaluate subject.organizationId subject.environmentKey flagKey subject.targetingKey
    subject.attributes subject.contextHash⟩

def Subject.evaluateBatch (subject : Subject) (command : Command) (flagKeys : List String) : Call :=
  ⟨command, .evaluateBatch subject.organizationId subject.environmentKey flagKeys
    subject.targetingKey subject.attributes subject.contextHash⟩

/-- A new call answers with what it performs, once the response is stored. -/
theorem exec_of_new (call : Call) (hnew : c.command call.commandKey = none) :
    (exec rt σ c call).1 = (do
      let (response, _) ← perform rt σ c call
      let _ ← orJson (encodeResponse codec response)
      .ok (.fresh response)) := by
  unfold exec
  rw [attempt_of_new hnew]
  cases perform rt σ c call with
  | error e => rfl
  | ok outcome =>
    obtain ⟨response, c₁⟩ := outcome
    simp only [record]
    cases hstored : encodeResponse codec response with
    | none =>
      simp only [bind, Except.bind, hstored]
      rfl
    | some stored =>
      simp only [bind, Except.bind, hstored]
      rfl

/-- A new single evaluation answers with the choice. -/
theorem exec_evaluate (hs : Sound rt c) (hcodec : codec.Evaluable rt)
    (hnew : c.command (command.rowKey "evaluate") = none) :
    (exec rt σ c (subject.evaluate command flagKey)).1 =
      (choose rt c subject flagKey).map fun choice =>
        .fresh (.evaluation (evaluation (σ.evaluation 0) command "evaluate"
          (evaluationId "evaluate" command.key 0) subject flagKey choice.1 choice.2.1
            choice.2.2).1) := by
  rw [exec_of_new (subject.evaluate command flagKey) hnew]
  change (evaluate rt σ c command subject flagKey >>= _) = _
  simp only [evaluate, evaluateOne]
  rcases choose_cases hs hcodec subject flagKey with
    ⟨variant, reason, revision, hchoose, haccepts⟩ | ⟨failure, hfailure⟩
  · obtain ⟨doc, hdoc⟩ := haccepts (evaluation (σ.evaluation 0) command "evaluate"
      (evaluationId "evaluate" command.key 0) subject flagKey variant reason revision).1 rfl rfl
      (evaluation_formed hchoose ..)
    rw [hchoose]
    change (orJson ((codec.encodeEvaluation _).map Stored.evaluation) >>= fun _ => _) = _
    rw [hdoc]
    rfl
  · rw [hfailure]
    rfl

theorem evaluateOne_of_choose {operation : String} {n : ℕ} {variant : VariantRecord}
    {reason : String} {revision : Int}
    (h : choose rt c subject flagKey = .ok (variant, reason, revision)) :
    evaluateOne rt σ c command operation subject n flagKey =
      .ok (evaluation (σ.evaluation n) command operation (evaluationId operation command.key n)
        subject flagKey variant reason revision) := by
  unfold evaluateOne
  rw [h]
  rfl

/-- An error of the loop is that of a choice. -/
theorem exists_of_evaluateFrom {operation : String} {e : StorageError} {n : ℕ}
    (h : evaluateFrom rt σ c command operation subject n flagKeys = .error e) :
    ∃ flagKey ∈ flagKeys, choose rt c subject flagKey = .error e := by
  induction flagKeys generalizing n with
  | nil => cases h
  | cons flagKey flagKeys ih =>
    cases hchoice : choose rt c subject flagKey with
    | error e' =>
      rw [evaluateFrom, evaluateOne, hchoice] at h
      cases h
      exact ⟨flagKey, List.mem_cons_self, hchoice⟩
    | ok choice =>
      obtain ⟨variant, reason, revision⟩ := choice
      rw [evaluateFrom, evaluateOne_of_choose hchoice] at h
      change (evaluateFrom rt σ c command operation subject (n + 1) flagKeys >>= fun _ => _) = _ at h
      cases hrest : evaluateFrom rt σ c command operation subject (n + 1) flagKeys with
      | error e' =>
        rw [hrest] at h
        cases h
        obtain ⟨other, hother, hchoose⟩ := ih hrest
        exact ⟨other, List.mem_cons_of_mem _ hother, hchoose⟩
      | ok results =>
        rw [hrest] at h
        cases h

/-- An evaluation that performs nothing fails over a choice. -/
theorem perform_error {call : Call} {flagKeys : List String} {e : StorageError}
    (hop : evaluates call.operation = some (subject, flagKeys))
    (h : perform rt σ c call = .error e) :
    ∃ flagKey ∈ flagKeys, choose rt c subject flagKey = .error e := by
  obtain ⟨command, operation⟩ := call
  cases operation with
  | evaluate org environmentKey key targetingKey attributes contextHash =>
    cases hop
    simp only [perform, evaluate] at h
    cases hone : evaluateOne rt σ c command "evaluate"
        ⟨org, environmentKey, targetingKey, attributes, contextHash⟩ 0 key with
    | ok result =>
      rw [hone] at h
      cases h
    | error e' =>
      rw [hone] at h
      cases h
      have hfrom : evaluateFrom rt σ c command "evaluate"
          ⟨org, environmentKey, targetingKey, attributes, contextHash⟩ 0 [key] = .error e := by
        rw [evaluateFrom, hone]
        rfl
      exact exists_of_evaluateFrom hfrom
  | evaluateBatch org environmentKey _ targetingKey attributes contextHash =>
    cases hop
    simp only [perform, evaluateBatch] at h
    cases hresults : evaluateFrom rt σ c command "evaluate_batch"
        ⟨org, environmentKey, targetingKey, attributes, contextHash⟩ 0 flagKeys with
    | ok results =>
      rw [hresults] at h
      cases h
    | error e' =>
      rw [hresults] at h
      cases h
      exact exists_of_evaluateFrom hresults
  | _ => cases hop

/-- An evaluation fails over a conflict of its command or over a choice. -/
theorem attempt_calm (hs : Sound rt c) (hexact : codec.ExactDefinitions rt) {call : Call}
    (hop : (evaluates call.operation).isSome) {failure : DomainFailure}
    (h : attempt rt σ c call = .error (.domain failure)) : Calm failure := by
  obtain ⟨⟨subject, flagKeys⟩, hop⟩ := Option.isSome_iff_exists.mp hop
  cases hrow : c.command call.commandKey with
  | none =>
    rw [attempt_of_new hrow] at h
    cases hperform : perform rt σ c call with
    | error e =>
      rw [hperform] at h
      cases h
      obtain ⟨flagKey, -, hchoose⟩ := perform_error hop hperform
      exact choose_calm hs hexact hchoose
    | ok outcome =>
      rw [hperform] at h
      simp only [record] at h
      cases hstored : encodeResponse codec outcome.1 with
      | none =>
        simp only [bind, Except.bind, hstored] at h
        cases h
      | some stored =>
        simp only [bind, Except.bind, hstored] at h
        cases h
  | some row =>
    -- A replay fails only when the hashes differ.
    unfold attempt replay at h
    rw [hrow] at h
    by_cases hhash : row.requestHash ≠ call.command.hash
    · simp only [if_pos hhash] at h
      cases h
      exact ⟨by decide, by decide⟩
    · simp only [if_neg hhash] at h
      cases hdecode : decodeResponse codec call.operation.kind row.response with
      | none =>
        rw [hdecode] at h
        cases h
      | some response =>
        rw [hdecode] at h
        cases h

end Abstract

end LensoFlags
