import LensoFlags.Ordered
import LensoFlags.Reproducible
import LensoFlags.Values

/-!
# What is behind an evaluation

An evaluation is answered from a publication: the deployment has the request that published the
ruleset, and its rules choose the variant in the context that was asked with.

Results:
1. `evaluations_explained`: every evaluation has such a publication.
2. `evaluations_consistent`: evaluations from one ruleset in contexts that are alike are the same.
3. `values_typed`: values have the type that answers show for the flag.
-/

namespace LensoFlags

/-! ## Choices -/

theorem variant_outline (definition : RulesetDefinition) (key : String) :
    variant definition.outline key = (variant definition key).map VariantRecord.outline := by
  have hfind : definition.outline.variants.find? (fun v => v.variantKey == key) =
      (definition.variants.find? fun v => v.variantKey == key).map VariantRecord.outline :=
    List.find?_map ..
  unfold variant
  rw [hfind]
  cases definition.variants.find? fun v => v.variantKey == key <;> rfl

/-- A choice without the doubles and the JSON of its value. -/
def outlineChoice (choice : VariantRecord × String) : VariantRecord × String :=
  (choice.1.outline, choice.2)

theorem variant_outline_map (definition : RulesetDefinition) (key reason : String) :
    (variant definition.outline key).map (·, reason) =
      ((variant definition key).map (·, reason)).map outlineChoice := by
  rw [variant_outline]
  cases variant definition key <;> rfl

theorem chooseRollout_outline (definition : RulesetDefinition) (bucket upper : UInt64)
    (rollout : List RolloutRecord) :
    chooseRollout definition.outline bucket rollout upper =
      (chooseRollout definition bucket rollout upper).map outlineChoice := by
  induction rollout generalizing upper with
  | nil => exact variant_outline_map ..
  | cons item rest ih =>
    unfold chooseRollout
    cases hpoints : u64TryFrom item.basisPoints with
    | error e => rfl
    | ok points =>
      change (if _ then _ else _) = (if _ then _ else _ : Except _ _).map _
      split
      · exact variant_outline_map ..
      · exact ih _

/-- Which variant is chosen does not depend on the doubles and the JSON of values. -/
theorem chooseVariant_outline (rt : Runtime) (org environmentKey flagKey targetingKey : String)
    (attributes : List (String × Json)) (definition : RulesetDefinition) :
    chooseVariant rt org environmentKey flagKey targetingKey attributes definition.outline =
      (chooseVariant rt org environmentKey flagKey targetingKey attributes definition).map
        outlineChoice := by
  unfold chooseVariant
  rw [show definition.outline.targetingRules = definition.targetingRules from rfl]
  cases definition.targetingRules.find? (fun rule =>
      (attributes.lookup rule.ruleAttribute).any fun value => ruleMatches rt value rule) with
  | some rule => exact variant_outline_map ..
  | none => exact chooseRollout_outline ..

/-- Definitions that are the same but for doubles and JSON choose the same variant. -/
theorem chooseVariant_alike_of_outline {rt : Runtime} {definition decoded : RulesetDefinition}
    {org environmentKey flagKey targetingKey : String} {attributes : List (String × Json)}
    {v : VariantRecord} {reason : String} (houtline : decoded.outline = definition.outline)
    (h : chooseVariant rt org environmentKey flagKey targetingKey attributes decoded =
      .ok (v, reason)) :
    ∃ v', chooseVariant rt org environmentKey flagKey targetingKey attributes definition =
      .ok (v', reason) ∧ v'.outline = v.outline := by
  have hsame := chooseVariant_outline rt org environmentKey flagKey targetingKey attributes decoded
  rw [houtline, chooseVariant_outline, h] at hsame
  cases hchoice : chooseVariant rt org environmentKey flagKey targetingKey attributes definition with
  | error e =>
    rw [hchoice] at hsame
    cases hsame
  | ok choice =>
    obtain ⟨v', reason'⟩ := choice
    rw [hchoice] at hsame
    obtain ⟨hv, rfl⟩ := Prod.mk.inj (Except.ok.inj hsame)
    exact ⟨v', rfl, hv⟩

/-! ## On the wire -/

theorem castEvaluation_choice {platform : Platform} {record : EvaluationRecord}
    {item : EvaluationResponse} (h : castEvaluation platform record = some item) :
    item.variantKey = record.variantKey ∧ castValue record.value = some item.value ∧
      Reason.ofWire record.reason = some item.reason := by
  simp only [castEvaluation, Option.bind_eq_bind, Option.bind_eq_some_iff] at h
  obtain ⟨_, -, reason, hreason, value, hvalue, h⟩ := h
  cases h
  exact ⟨rfl, hvalue, hreason⟩

theorem ValueType.ofWire_wireName (valueType : ValueType) :
    ValueType.ofWire valueType.wireName = some valueType := by
  cases valueType <;> rfl

theorem castValue_of_outline {value : ValueRecord} {value' : PublishedValue} {item : PublishedValue}
    (houtline : value.outline = (valueRecord value').outline) (h : castValue value = some item) :
    item.outline = value'.outline := by
  have hcast := castValue_outline value
  rw [h, houtline, castValue_outline] at hcast
  obtain ⟨b, x, i, j, s, valueType⟩ := value'
  simp only [castValue, valueRecord, ValueType.ofWire_wireName] at hcast
  exact (Option.some.inj hcast).symm

/-- A value gets back on the wire as it was published. -/
theorem castValue_valueRecord {value : PublishedValue} (h : value.Canonical) :
    castValue (valueRecord value) = some value := by
  obtain ⟨b, x, i, j, s, valueType⟩ := value
  have hfinite : x.filter F64.isFinite = x := by
    cases x with
    | none => rfl
    | some x => exact Option.filter_some_pos (h.1 x rfl)
  simp only [castValue, valueRecord, ValueType.ofWire_wireName, hfinite]
  rfl

theorem castFlag_valueType {platform : Platform} {record : FlagRecord} {item : FlagResponse}
    (h : castFlag platform record = some item) :
    ValueType.ofWire record.valueType = some item.valueType := by
  unfold castFlag at h
  split at h
  all_goals
    simp only [Option.bind_eq_bind, Option.bind_eq_some_iff] at h
    obtain ⟨_, -, _, -, _, -, _, htype, h⟩ := h
    cases h
    exact htype

/-! ## Requests -/

section Calls

variable {rt : Runtime} {config : PolicyConfig} {auth : Authorized} {request : Request} {call : Call}

/-- The call of an evaluation asks what its request asks. -/
theorem Request.call_asked (h : request.call rt config auth = some (.write call))
    {context : EvaluationContext} {environmentKey : String} {flagKeys : List String}
    (hasked : request.asked = some (context, environmentKey, flagKeys)) :
    ∃ subject, Abstract.evaluates call.operation = some (subject, flagKeys) ∧
      subject.organizationId = request.organizationId ∧
      subject.environmentKey = environmentKey ∧ subject.context = context := by
  cases request with
  | evaluate request =>
    cases hasked
    obtain ⟨-, hcall⟩ := passed_eq_some.mp h
    cases hcall
    exact ⟨_, rfl, rfl, rfl, rfl⟩
  | evaluateBatch request =>
    cases hasked
    obtain ⟨-, hcall⟩ := passed_eq_some.mp h
    cases hcall
    exact ⟨_, rfl, rfl, rfl, rfl⟩
  | _ => cases hasked

/-- What a call evaluates is what its request asked for. -/
theorem Request.call_evaluates (h : request.call rt config auth = some (.write call))
    {subject : Abstract.Subject} {flagKeys : List String}
    (hop : Abstract.evaluates call.operation = some (subject, flagKeys)) :
    request.asked = some (subject.context, subject.environmentKey, flagKeys) ∧
      subject.contextHash = contextHash rt subject.context := by
  have hname := (Request.call_carried h).operation
  have hevaluates : call.operation.name = "evaluate" ∨ call.operation.name = "evaluate_batch" := by
    cases hoperation : call.operation with
    | evaluate => exact .inl rfl
    | evaluateBatch => exact .inr rfl
    | _ =>
      rw [hoperation] at hop
      cases hop
  rw [hname] at hevaluates
  cases request with
  | evaluate request =>
    obtain ⟨-, hcall⟩ := passed_eq_some.mp h
    cases hcall
    cases hop
    exact ⟨rfl, rfl⟩
  | evaluateBatch request =>
    obtain ⟨-, hcall⟩ := passed_eq_some.mp h
    cases hcall
    cases hop
    exact ⟨rfl, rfl⟩
  | _ => simp [Request.operation] at hevaluates

/-- The call that publishes a definition is of the request that has it. -/
theorem Request.call_publication (h : request.call rt config auth = some (.write call))
    {org flagKey environmentKey : String} {definition : RulesetDefinition}
    (hpublication : Abstract.publication org flagKey environmentKey call.operation =
      some definition) :
    ∃ publish, request = .publishRuleset publish ∧ publish.organizationId = org ∧
      publish.flagKey = flagKey ∧ publish.environmentKey = environmentKey ∧
      rulesetDefinition publish = some definition := by
  have hname := (Request.call_carried h).operation
  cases hoperation : call.operation with
  | publishRuleset =>
    rw [hoperation] at hname hpublication
    cases request with
    | publishRuleset publish =>
      obtain ⟨_, -, h⟩ := Option.bind_eq_some_iff.mp h
      obtain ⟨_, -, h⟩ := Option.bind_eq_some_iff.mp h
      obtain ⟨found, hfound, hcall⟩ := Option.map_eq_some_iff.mp h
      cases hcall
      cases hoperation
      obtain ⟨htriple, heq⟩ := Option.ite_none_right_eq_some.mp hpublication
      cases htriple
      cases heq
      exact ⟨publish, rfl, rfl, rfl, rfl, hfound⟩
    | _ => simp [Operation.name, Request.operation] at hname
  | _ =>
    rw [hoperation] at hpublication
    cases hpublication

end Calls

/-- The columns keep the ruleset that the request publishes. -/
def PublishRulesetRequest.Lossless (codec : Codec) (publish : PublishRulesetRequest) : Prop :=
  ∀ definition, rulesetDefinition publish = some definition → definition.Lossless codec

/-- In the context the rules of the publication choose the variant, which has the value it was
published with. -/
def PublishRulesetRequest.Chooses (rt : Runtime) (publish : PublishRulesetRequest)
    (context : EvaluationContext) (variantKey : String) (value : PublishedValue) (reason : Reason) :
    Prop :=
  ∃ definition record text, rulesetDefinition publish = some definition ∧
    chooseVariant rt publish.organizationId publish.environmentKey publish.flagKey
      context.targetingKey context.attributes definition = .ok (record, text) ∧
    Reason.ofWire text = some reason ∧ variantRecord ⟨value, variantKey⟩ = some record ∧
    ⟨value, variantKey⟩ ∈ publish.variants

theorem variantRecord_eq_some {item : PublishedVariant} {record : VariantRecord}
    (h : variantRecord item = some record) :
    record.variantKey = item.variantKey ∧ record.value = valueRecord item.value := by
  obtain ⟨key, hkey, heq⟩ := Option.bind_eq_some_iff.mp h
  cases heq
  unfold checkedKey at hkey
  obtain ⟨-, heq⟩ := Option.ite_none_right_eq_some.mp hkey
  exact ⟨(Option.some.inj heq).symm, rfl⟩

theorem valueRecord_inj {value value' : PublishedValue} (h : valueRecord value = valueRecord value') :
    value = value' := by
  obtain ⟨b, x, i, j, s, valueType⟩ := value
  obtain ⟨b', x', i', j', s', valueType'⟩ := value'
  simp only [valueRecord, ValueRecord.mk.injEq] at h
  obtain ⟨htype, rfl, rfl, rfl, rfl, rfl⟩ := h
  rw [ValueType.wireName_inj htype]

/-- A publication has one answer for contexts that are alike. -/
theorem PublishRulesetRequest.Chooses.agree {rt : Runtime} {publish : PublishRulesetRequest}
    {context context' : EvaluationContext} {variantKey variantKey' : String}
    {value value' : PublishedValue} {reason reason' : Reason}
    (h : publish.Chooses rt context variantKey value reason)
    (h' : publish.Chooses rt context' variantKey' value' reason')
    (halike : context.Alike rt context') :
    variantKey = variantKey' ∧ value = value' ∧ reason = reason' := by
  obtain ⟨definition, record, text, hdefinition, hchoose, hreason, hrecord, -⟩ := h
  obtain ⟨_, record', text', hdefinition', hchoose', hreason', hrecord', -⟩ := h'
  rw [hdefinition, Option.some.injEq] at hdefinition'
  rw [chooseVariant_alike halike, hdefinition', hchoose'] at hchoose
  cases hchoose
  rw [hreason, Option.some.injEq] at hreason'
  obtain ⟨hkey, hvalue⟩ := variantRecord_eq_some hrecord
  obtain ⟨hkey', hvalue'⟩ := variantRecord_eq_some hrecord'
  exact ⟨hkey.symm.trans hkey', valueRecord_inj (hvalue.symm.trans hvalue'), hreason'⟩

namespace Deployment

variable {B : Backend} {codec : Codec} {platform : Platform} {rt : Runtime}
  {config : PolicyConfig} {s : State B} {i j : ℕ} {request request' : Request}
  {auth auth' : Authorized} {response response' : ServiceResponse}

/-! ## Publications -/

variable (config) in
/-- Request `j` was granted, and its publication took effect as the ruleset of the revision. -/
structure Published (s : State B) (j : ℕ) (publish : PublishRulesetRequest) (revision : String) :
    Prop where
  granted : ∃ f auth, s.requests j = some f ∧ f.request = .publishRuleset publish ∧
    f.request.Granted config f.context auth f.trace
  effect : ∃ e ∈ B.log s.store, e.session = j ∧ ∃ record, e.value = .fresh (.publish record) ∧
    record.triple = (publish.organizationId, publish.flagKey, publish.environmentKey) ∧
    record.rulesetRevision = revision

/-- A revision of a ruleset is of one publication. -/
theorem Published.once (hB : B.Accountable codec rt) (h : Reachable B platform rt config s)
    {publish publish' : PublishRulesetRequest} {revision : String}
    (hp : Published config s i publish revision) (hp' : Published config s j publish' revision)
    (horganization : publish.organizationId = publish'.organizationId)
    (hflag : publish.flagKey = publish'.flagKey)
    (henvironment : publish.environmentKey = publish'.environmentKey) : publish = publish' := by
  obtain ⟨c, hlogged⟩ := hB.logged s.store (Inv.reachable hB.lawful h).store
  obtain ⟨⟨f, _, hf, hrequest, -⟩, e, he, rfl, record, hvalue, htriple, hrevision⟩ := hp
  obtain ⟨⟨g, _, hg, hrequest', -⟩, e', he', rfl, record', hvalue', htriple', hrevision'⟩ := hp'
  have hsame : e = e' := by
    refine hlogged.commits.numbered_once he he' hvalue hvalue' ?_ (hrevision.trans hrevision'.symm)
    rw [htriple, htriple', horganization, hflag, henvironment]
  rw [hsame, hg, Option.some.injEq] at hf
  rw [← hf, hrequest'] at hrequest
  exact (Request.publishRuleset.inj hrequest).symm

/-- The newest publication of a part of the log. -/
theorem exists_published (hB : B.Accountable codec rt) (h : Reachable B platform rt config s)
    {older newer : List (Serial.Entry Call Draws Answer)} (hlog : B.log s.store = newer ++ older)
    {c : Abstract.Store codec} (hold : Abstract.Commits rt older c)
    {org flagKey environmentKey : String} {definition : RulesetDefinition}
    (hhead : (Abstract.publications org flagKey environmentKey (history older)).head? =
      some definition) :
    ∃ j publish, Published config s j publish (toString
        ((Abstract.publications org flagKey environmentKey (history older)).length : Int)) ∧
      publish.organizationId = org ∧ publish.flagKey = flagKey ∧
      publish.environmentKey = environmentKey ∧ rulesetDefinition publish = some definition := by
  have hi := Inv.reachable hB.lawful h
  obtain ⟨call, record, hmem, hpublication, htriple, hrevision⟩ := hold.run.newest hhead
  obtain ⟨e, holder, rfl, hvalue⟩ := Abstract.exists_of_mem_history hmem
  have he : e ∈ B.log s.store := by
    rw [hlog]
    exact List.mem_append_right _ holder
  obtain ⟨f, auth, hf, hgranted, hcomes⟩ := hi.origin (hB.called s.store hi.store e he)
  obtain ⟨publish, hrequest, rfl, rfl, rfl, hdefinition⟩ :=
    Request.call_publication hcomes hpublication
  exact ⟨e.session, publish, ⟨⟨f, auth, hf, hrequest, hgranted⟩, e, he, rfl, record, hvalue, htriple,
    hrevision⟩, rfl, rfl, rfl, hdefinition⟩

/-! ## Evaluations -/

variable (codec rt config) in
/-- The item is what the publication of its revision has for the flag in the context. The numbers of
its value can have changed in the columns it went through. -/
structure Explained (s : State B) (org environmentKey : String) (context : EvaluationContext)
    (flagKey : String) (item : EvaluationResponse) : Prop where
  flag : item.flagKey = flagKey
  environment : item.environmentKey = environmentKey
  published : ∃ j publish value, Published config s j publish item.rulesetRevision ∧
    publish.organizationId = org ∧ publish.flagKey = flagKey ∧
    publish.environmentKey = environmentKey ∧
    publish.Chooses rt context item.variantKey value item.reason ∧
    item.value.outline = value.outline ∧ (publish.Lossless codec → item.value = value)

variable (codec config) in
/-- The two evaluations tell one choice: the variant, the reason and the value, whose numbers are the
same at least if the columns keep what is published as the ruleset. -/
structure SameChoice (s : State B) (org : String) (item item' : EvaluationResponse) : Prop where
  variant : item.variantKey = item'.variantKey
  reason : item.reason = item'.reason
  outline : item.value.outline = item'.value.outline
  value : ∀ j publish, Published config s j publish item.rulesetRevision →
    publish.organizationId = org → publish.flagKey = item.flagKey →
    publish.environmentKey = item.environmentKey → publish.Lossless codec → item.value = item'.value

/-- Behind an evaluation on the store of a part of the log is the newest publication there. -/
theorem chosen_of_evaluated (hB : B.Accountable codec rt) (hsteady : codec.Steady)
    (h : Reachable B platform rt config s) (hdigested : Digested rt s)
    {older newer : List (Serial.Entry Call Draws Answer)} (hlog : B.log s.store = newer ++ older)
    {c : Abstract.Store codec} (hold : Abstract.Commits rt older c) {σ : Abstract.Stamp}
    {command : Command} {operation : String} {subject : Abstract.Subject} {at_ : String × ℕ}
    {result : EvaluationRecord × Abstract.Receipt}
    (heval : Abstract.Evaluated rt σ c command operation subject at_ result) {reason : Reason}
    (hreason : Reason.ofWire result.1.reason = some reason) :
    ∃ j publish value, Published config s j publish result.1.rulesetRevision ∧
      publish.organizationId = subject.organizationId ∧ publish.flagKey = at_.1 ∧
      publish.environmentKey = subject.environmentKey ∧ value.Canonical ∧
      publish.Chooses rt subject.context result.1.variantKey value reason ∧
      result.1.value.outline = (valueRecord value).outline ∧
      (publish.Lossless codec →
        ∀ told, result.1.Retold codec told → told.value = valueRecord value) := by
  obtain ⟨definition, document, decoded, variant, hhead, hencode, hdecode, hrevision, hchoose, hkey,
    hvalue⟩ := hold.run.uses heval
  obtain ⟨j, publish, hpublished, horg, hflag, henvironment, hdefinition⟩ :=
    exists_published hB h hlog hold hhead
  obtain ⟨variant', hchoose', houtline⟩ :=
    chooseVariant_alike_of_outline (hsteady.definition hencode hdecode) hchoose
  obtain ⟨listed, hlisted, hrecord⟩ := Table.exists_of_mem_right
    (rulesetDefinition_eq_some hdefinition).1 ((chooseVariant_chosen hchoose').1)
  obtain ⟨hlistedKey, hlistedValue⟩ := variantRecord_eq_some hrecord
  have hkey' : result.1.variantKey = listed.variantKey := by
    rw [hkey, ← hlistedKey]
    exact (congrArg VariantRecord.variantKey houtline).symm
  -- A request as it came has finite doubles, which get back as they are.
  have hcanonical : listed.value.Canonical := by
    obtain ⟨f, -, hf, hrequest, -⟩ := hpublished.granted
    have hall := hdigested.canonical j f hf
    rw [hrequest] at hall
    exact hall listed hlisted
  rw [← hrevision] at hpublished
  rw [← horg, ← hflag, ← henvironment] at hchoose'
  refine ⟨j, publish, listed.value, hpublished, horg, hflag, henvironment, hcanonical,
    ⟨definition, variant', _, hdefinition, hchoose', hreason, ?_, ?_⟩, ?_,
    fun hlossless told hretold => ?_⟩
  · rw [hkey']
    exact hrecord
  · rw [hkey']
    exact hlisted
  · rw [hvalue, ← hlistedValue]
    exact (congrArg VariantRecord.value houtline).symm
  · -- The variant is the one of the definition itself, whose value is told as it is.
    obtain ⟨hdecoded, hvalues⟩ := hlossless definition hdefinition
    cases hdecoded document decoded hencode hdecode
    rw [← horg, ← hflag, ← henvironment, hchoose'] at hchoose
    cases hchoose
    rw [← hlistedValue]
    exact hvalues _ ((chooseVariant_chosen hchoose').1) _ told hvalue hretold

/-- What an answer tells of an evaluation on the store of a part of the log. -/
theorem explained_of_evaluated (hB : B.Accountable codec rt) (hsteady : codec.Steady)
    (h : Reachable B platform rt config s) (hdigested : Digested rt s)
    {older newer : List (Serial.Entry Call Draws Answer)} (hlog : B.log s.store = newer ++ older)
    {c : Abstract.Store codec} (hold : Abstract.Commits rt older c) {σ : Abstract.Stamp}
    {command : Command} {operation : String} {subject : Abstract.Subject} {at_ : String × ℕ}
    {result : EvaluationRecord × Abstract.Receipt}
    (heval : Abstract.Evaluated rt σ c command operation subject at_ result)
    {told : EvaluationRecord} (hretold : result.1.Retold codec told)
    {item : EvaluationResponse} (hcast : castEvaluation platform told = some item) :
    Explained codec rt config s subject.organizationId subject.environmentKey subject.context at_.1
      item := by
  obtain ⟨hflag, henvironment, hrevision⟩ := castEvaluation_fields hcast
  obtain ⟨hkey, hvalue, hreason⟩ := castEvaluation_choice hcast
  obtain ⟨htoldFlag, htoldEnvironment, htoldRevision, htoldKey, htoldReason, -, htoldValue⟩ :=
    EvaluationRecord.outline_fields (hretold.outline hsteady)
  rw [htoldReason] at hreason
  obtain ⟨j, publish, value, hpublished, horg, hflag', henvironment', hcanonical, hchooses, houtline,
    hlossless⟩ := chosen_of_evaluated hB hsteady h hdigested hlog hold heval hreason
  obtain ⟨_, _, _, -, hresult⟩ := heval.choice
  refine ⟨hflag.trans (htoldFlag.trans ?_), henvironment.trans (htoldEnvironment.trans ?_), j,
    publish, value, ?_, horg, hflag', henvironment', ?_, ?_, fun hpublish => ?_⟩
  · rw [hresult]
    rfl
  · rw [hresult]
    rfl
  · rw [hrevision, htoldRevision]
    exact hpublished
  · rw [hkey, htoldKey]
    exact hchooses
  · exact castValue_of_outline (htoldValue.trans houtline) hvalue
  · rw [hlossless hpublish told hretold, castValue_valueRecord hcanonical] at hvalue
    exact (Option.some.inj hvalue).symm

/-- Every evaluation is explained, in the order of the request. -/
theorem Wrote.explained (hB : B.Accountable codec rt) (hsteady : codec.Steady) (hprinted : Printed rt)
    (h : Reachable B platform rt config s) (hdigested : Digested rt s)
    (hwrote : Wrote rt config s i request auth response) {context : EvaluationContext}
    {environmentKey : String} {flagKeys : List String}
    (hasked : request.asked = some (context, environmentKey, flagKeys)) :
    List.Forall₂ (Explained codec rt config s request.organizationId environmentKey context) flagKeys
      response.evaluationsShown := by
  obtain ⟨c, hlogged⟩ := hB.logged s.store (Inv.reachable hB.lawful h).store
  obtain ⟨e, original, hcomes, he, hvalue, -, hconveys⟩ := hwrote.took hB hprinted h hdigested
  obtain ⟨subject, hop, horganization, rfl, rfl⟩ := Request.call_asked hcomes hasked
  obtain ⟨older, newer, c₀, σ, results, hlog, hold, hresults, hrecords⟩ :=
    hlogged.commits.evaluated he hvalue hop
  have hlog' : B.log s.store = (newer ++ [e]) ++ older := by
    rw [hlog, List.append_assoc]
    rfl
  have hshown := hconveys.evaluations
  rw [hrecords, List.forall₂_map_left_iff] at hshown
  have hkeys : flagKeys.zipIdx.map Prod.fst = flagKeys := List.zipIdx_map_fst ..
  rw [← horganization, ← hkeys, List.forall₂_map_left_iff]
  refine Table.forall₂_trans ?_ hresults hshown
  rintro at_ result item heval ⟨told, hretold, hcast⟩
  exact explained_of_evaluated hB hsteady h hdigested hlog' hold heval hretold hcast

/-- Evaluations from one ruleset in contexts that are alike are the same, but for the numbers of
values that can have changed in the columns. -/
theorem Explained.agree (hB : B.Accountable codec rt) (h : Reachable B platform rt config s)
    {org environmentKey flagKey : String} {context context' : EvaluationContext}
    {item item' : EvaluationResponse}
    (hitem : Explained codec rt config s org environmentKey context flagKey item)
    (hitem' : Explained codec rt config s org environmentKey context' flagKey item')
    (hrevision : item.rulesetRevision = item'.rulesetRevision)
    (halike : context.Alike rt context') : SameChoice codec config s org item item' := by
  obtain ⟨i, publish, value, hp, rfl, rfl, rfl, hchooses, houtline, hlossless⟩ := hitem.published
  obtain ⟨j, publish', value', hp', horg, hflag, henvironment, hchooses', houtline', hlossless'⟩ :=
    hitem'.published
  have hsame : publish = publish' :=
    hp.once hB h (hrevision ▸ hp') horg.symm hflag.symm henvironment.symm
  subst hsame
  obtain ⟨hkey, rfl, hreason⟩ := hchooses.agree hchooses' halike
  refine ⟨hkey, hreason, houtline.trans houtline'.symm, fun k other hother horg' hflag' henvironment'
    hpublish => ?_⟩
  cases hp.once hB h hother horg'.symm (hitem.flag.symm.trans hflag'.symm)
    (hitem.environment.symm.trans henvironment'.symm)
  rw [hlossless hpublish, hlossless' hpublish]

/-! ## Types -/

/-- The definition of a publication is one of its triple. -/
theorem Published.mem (hB : B.Accountable codec rt) (h : Reachable B platform rt config s)
    {publish : PublishRulesetRequest} {revision : String}
    (hp : Published config s j publish revision) :
    ∃ definition, rulesetDefinition publish = some definition ∧
      definition ∈ Abstract.publications publish.organizationId publish.flagKey
        publish.environmentKey (history (B.log s.store)) := by
  have hi := Inv.reachable hB.lawful h
  obtain ⟨⟨f, _, hf, hrequest, -⟩, e, he, rfl, record, hvalue, -⟩ := hp
  obtain ⟨g, auth, hg, -, hcomes⟩ := hi.origin (hB.called s.store hi.store e he)
  rw [hf] at hg
  cases hg
  rw [hrequest] at hcomes
  obtain ⟨_, -, hcomes⟩ := Option.bind_eq_some_iff.mp hcomes
  obtain ⟨_, -, hcomes⟩ := Option.bind_eq_some_iff.mp hcomes
  obtain ⟨definition, hdefinition, hcall⟩ := Option.map_eq_some_iff.mp hcomes
  refine ⟨definition, hdefinition, List.mem_filterMap.mpr ⟨_, Abstract.mem_history he hvalue, ?_⟩⟩
  rw [← StoreCall.write.inj hcall]
  exact if_pos rfl

variable {Holds : B.State → Abstract.Store codec → Prop}

/-- The values that are published for a flag have the type that answers show for it. -/
theorem Published.typed (hB : B.Accountable codec rt) (hm : B.Mirrors codec rt Holds)
    (h : Reachable B platform rt config s) {publish : PublishRulesetRequest}
    {revision : String} (hp : Published config s j publish revision) {f : InFlight}
    (hf : s.requests i = some f) (hrest : f.rest = .ret response) {shown : FlagResponse}
    (hshown : shown ∈ response.flagsShown) (horganization : shown.organizationId = publish.organizationId)
    (hflag : shown.flagKey = publish.flagKey) :
    ∀ variant ∈ publish.variants, variant.value.valueType = shown.valueType := by
  have hi := Inv.reachable hB.lawful h
  have hinitial : Reachable B platform rt config (State.initial B) := .refl
  obtain ⟨moments, hsince⟩ := exists_since hB.lawful hm hinitial h
  obtain ⟨m, hmem, c, hc, flag, hfound, hcast⟩ := displayed hB hm hinitial h hsince rfl hf
    (new_initial hm _) hrest shown hshown
  have hreachable : B.Reachable m := hsince.after m hmem
  obtain ⟨c', hc', hlogged⟩ := hm.held s.store hi.store
  obtain ⟨horg, hkey⟩ := castFlag_key hcast
  obtain ⟨flag', hflag', htype, -⟩ := (hm.later hreachable (hsince.before m hmem) hc hc').persists
    (Table.lookup_of_mem (hm.logged hreachable hc).run.sound.flagKeys hfound)
  obtain ⟨definition, hdefinition, hpublished⟩ := hp.mem hB h
  obtain ⟨found, hfound', hvalid⟩ := hlogged.run.valid hpublished
  have hsame : found = flag' := by
    rw [← horganization, ← hflag, horg, hkey] at hfound'
    exact Option.some.inj (hfound'.symm.trans hflag')
  intro variant hvariant
  obtain ⟨record, hrecord, hlisted⟩ := Table.exists_of_mem_right
    (rulesetDefinition_eq_some hdefinition).1.flip hvariant
  have hvalue := valueType_of_valid ((validateRuleset_eq_ok.mp hvalid).1.typed record hrecord)
  rw [(variantRecord_eq_some hlisted).2, hsame, htype] at hvalue
  have hwire := castFlag_valueType hcast
  change ValueType.ofWire flag.valueType = _ at hwire
  rw [← hvalue] at hwire
  exact Option.some.inj ((ValueType.ofWire_wireName _).symm.trans hwire)

end Deployment

section Guarantees

open Deployment

variable {codec : Codec} {platform : Platform} {rt : Runtime} {config : PolicyConfig}
  (plugin : Plugin)

/-- Behind every evaluation that is answered is a publication of the deployment, granted and
effective as the ruleset the evaluation names. Its rules choose the variant in the context that was
asked with, and the value is the one it was published with, as far as the columns keep it. -/
theorem evaluations_explained (hsteady : codec.Steady) (hprinted : Printed rt)
    {s : State (plugin.backend codec rt)}
    (h : Reachable (plugin.backend codec rt) platform rt config s) (hdigested : Digested rt s)
    {i : ℕ} {request : Request} {auth : Authorized} {response : ServiceResponse}
    (hwrote : Wrote rt config s i request auth response) {context : EvaluationContext}
    {environmentKey : String} {flagKeys : List String}
    (hasked : request.asked = some (context, environmentKey, flagKeys)) :
    List.Forall₂ (Explained codec rt config s request.organizationId environmentKey context) flagKeys
      response.evaluationsShown :=
  hwrote.explained plugin.accountable hsteady hprinted h hdigested hasked

/-- Evaluations of a flag from one ruleset tell one choice, by whomever and in whatever batch, if
their contexts are alike. -/
theorem evaluations_consistent (hsteady : codec.Steady) (hprinted : Printed rt)
    {s : State (plugin.backend codec rt)}
    (h : Reachable (plugin.backend codec rt) platform rt config s) (hdigested : Digested rt s)
    {i j : ℕ} {request request' : Request} {auth auth' : Authorized}
    {response response' : ServiceResponse} (hwrote : Wrote rt config s i request auth response)
    (hwrote' : Wrote rt config s j request' auth' response') {context context' : EvaluationContext}
    {environmentKey environmentKey' : String} {flagKeys flagKeys' : List String}
    (hasked : request.asked = some (context, environmentKey, flagKeys))
    (hasked' : request'.asked = some (context', environmentKey', flagKeys'))
    (halike : context.Alike rt context') {item item' : EvaluationResponse}
    (hitem : item ∈ response.evaluationsShown) (hitem' : item' ∈ response'.evaluationsShown)
    (horganization : request.organizationId = request'.organizationId)
    (hflag : item.flagKey = item'.flagKey) (henvironment : item.environmentKey = item'.environmentKey)
    (hrevision : item.rulesetRevision = item'.rulesetRevision) :
    SameChoice codec config s request.organizationId item item' := by
  have hB : (plugin.backend codec rt).Accountable codec rt := plugin.accountable
  obtain ⟨flagKey, -, hexplained⟩ := Table.exists_of_mem_right
    (hwrote.explained hB hsteady hprinted h hdigested hasked) hitem
  obtain ⟨flagKey', -, hexplained'⟩ := Table.exists_of_mem_right
    (hwrote'.explained hB hsteady hprinted h hdigested hasked') hitem'
  rw [← horganization, ← hexplained'.flag, ← hexplained'.environment, ← hflag, ← henvironment,
    hexplained.flag, hexplained.environment] at hexplained'
  exact hexplained.agree hB h hexplained' hrevision halike

/-- The value of an evaluation has the type that every answer shows for the flag. -/
theorem values_typed (hsteady : codec.Steady) (hprinted : Printed rt)
    {s : State (plugin.backend codec rt)}
    (h : Reachable (plugin.backend codec rt) platform rt config s) (hdigested : Digested rt s)
    {i j : ℕ} {request : Request} {auth : Authorized} {response response' : ServiceResponse}
    (hwrote : Wrote rt config s i request auth response) {context : EvaluationContext}
    {environmentKey : String} {flagKeys : List String}
    (hasked : request.asked = some (context, environmentKey, flagKeys)) {item : EvaluationResponse}
    (hitem : item ∈ response.evaluationsShown) {f : InFlight} (hf : s.requests j = some f)
    (hrest : f.rest = .ret response') {shown : FlagResponse} (hshown : shown ∈ response'.flagsShown)
    (horganization : shown.organizationId = request.organizationId)
    (hflag : shown.flagKey = item.flagKey) : item.value.valueType = shown.valueType := by
  have hB : (plugin.backend codec rt).Accountable codec rt := plugin.accountable
  obtain ⟨flagKey, -, hexplained⟩ := Table.exists_of_mem_right
    (hwrote.explained hB hsteady hprinted h hdigested hasked) hitem
  obtain ⟨k, publish, value, hpublished, horg, hkey, -, hchooses, houtline, -⟩ :=
    hexplained.published
  obtain ⟨_, _, _, -, -, -, -, hvariant⟩ := hchooses
  have htype := congrArg PublishedValue.valueType houtline
  rw [show item.value.valueType = value.valueType from htype]
  exact hpublished.typed hB plugin.mirrors h hf hrest hshown (horganization.trans horg.symm)
    (hflag.trans (hexplained.flag.trans hkey.symm)) _ hvariant

end Guarantees

/-! ## Asked twice -/

namespace Tour

open Deployment

def evaluateBatchRequest : Request :=
  .evaluateBatch
    { batchId := "key-7"
      context := ⟨[], "user-1"⟩
      environmentKey := "prod"
      flagKeys := ["banner"]
      organizationId := "org" }

/-- The flag was evaluated alone and in a batch. -/
structure AskedTwice (s : State store) : Prop where
  reachable : Reachable store consolePlatform .undigested tourConfig s
  numbered : (D1.State.tables s.store).receiptSeq ≤ Decimal.i64Max
  listed : ∃ records, D1.listReceipts (D1.State.tables s.store) "org" none none none 201 =
    .ok records ∧ records.length = 2
  digested : Digested .undigested s
  created : Wrote .undigested tourConfig s 0 bannerRequest administrator (.flag createdFlag)
  evaluated :
    Wrote .undigested tourConfig s 3 evaluateRequest administrator (.evaluation servedVariant)
  batch : Wrote .undigested tourConfig s 4 evaluateBatchRequest administrator
    (.evaluations [{ servedVariant with receiptId := "4:0" }])

theorem exists_askedTwice : ∃ s, AskedTwice s := by
  have hreplies : ∃ environment t,
      replies 0 .empty (setUp ++ [evaluateRequest, evaluateBatchRequest]) =
        some ([.flag createdFlag, .environment environment, .publish publishedRuleset,
          .evaluation servedVariant, .evaluations [{ servedVariant with receiptId := "4:0" }]], t) ∧
        t.receiptSeq ≤ Decimal.i64Max ∧ ∃ records,
          D1.listReceipts t "org" none none none 201 = .ok records ∧ records.length = 2 :=
    ⟨_, _, rfl, by decide, _, rfl, rfl⟩
  have hready : ∀ request ∈ setUp ++ [evaluateRequest, evaluateBatchRequest], Ready request := by
    intro request hmem
    rcases List.mem_append.mp hmem with hmem | hmem
    · exact ready_setUp request hmem
    · simp only [List.mem_cons, List.not_mem_nil, or_false] at hmem
      rcases hmem with rfl | rfl
      all_goals exact ⟨⟨rfl, List.mem_singleton_self _, by decide, by decide⟩, trivial⟩
  obtain ⟨environment, t, hreplies, hnumbered, hlisted⟩ := hreplies
  obtain ⟨s, hsteps, hstage, hwrote⟩ := stage_initial.go (fun r hr => (hready r hr).1) hreplies
  exact ⟨s, hsteps, hstage.tables ▸ hnumbered, hstage.tables ▸ hlisted,
    hstage.digested fun r hr => (hready r hr).2, hwrote 0 _ _ rfl rfl,
    hwrote 3 _ _ rfl rfl, hwrote 4 _ _ rfl rfl⟩

end Tour

section Witnesses

open Deployment Tour

theorem evaluations_explained_twice : ∃ s : State store,
    Reachable store consolePlatform .undigested tourConfig s ∧
      Wrote .undigested tourConfig s 3 evaluateRequest administrator (.evaluation servedVariant) ∧
      List.Forall₂ (Explained Codec.verbatim .undigested tourConfig s "org" "prod" ⟨[], "user-1"⟩)
        ["banner"] [servedVariant] := by
  obtain ⟨s, h⟩ := exists_askedTwice
  exact ⟨s, h.reachable, h.evaluated, evaluations_explained .d1 Codec.verbatim_steady
    printed_undigested h.reachable h.digested h.evaluated rfl⟩

/-- The batch tells what the flag told alone. -/
theorem evaluations_consistent_twice : ∃ s : State store,
    Reachable store consolePlatform .undigested tourConfig s ∧ ∃ item item',
      Wrote .undigested tourConfig s 3 evaluateRequest administrator (.evaluation item) ∧
      Wrote .undigested tourConfig s 4 evaluateBatchRequest administrator (.evaluations [item']) ∧
      item.receiptId ≠ item'.receiptId ∧ item.variantKey = item'.variantKey ∧
      item.value = item'.value ∧ item.reason = item'.reason := by
  obtain ⟨s, h⟩ := exists_askedTwice
  have hsame := evaluations_consistent .d1 Codec.verbatim_steady printed_undigested h.reachable
    h.digested h.evaluated h.batch rfl rfl ⟨rfl, fun _ => rfl⟩ (List.mem_singleton_self _)
    (List.mem_singleton_self _) rfl rfl rfl rfl
  have hexplained := h.evaluated.explained Plugin.d1.accountable Codec.verbatim_steady
    printed_undigested h.reachable h.digested rfl
  obtain ⟨hitem, -⟩ := List.forall₂_cons.mp hexplained
  obtain ⟨k, publish, value, hp, horg, hflag, henvironment, -⟩ := hitem.published
  exact ⟨s, h.reachable, _, _, h.evaluated, h.batch, by decide, hsame.variant,
    hsame.value k publish hp horg hflag henvironment fun _ _ => Codec.verbatim_lossless _,
    hsame.reason⟩

theorem values_typed_twice : ∃ s : State store,
    Reachable store consolePlatform .undigested tourConfig s ∧
      Wrote .undigested tourConfig s 3 evaluateRequest administrator (.evaluation servedVariant) ∧
      Wrote .undigested tourConfig s 0 bannerRequest administrator (.flag createdFlag) ∧
      servedVariant.value.valueType = createdFlag.valueType := by
  obtain ⟨s, h⟩ := exists_askedTwice
  obtain ⟨f, hf, -, hrest, -⟩ := h.created.answered
  exact ⟨s, h.reachable, h.evaluated, h.created,
    values_typed .d1 Codec.verbatim_steady printed_undigested h.reachable h.digested
      h.evaluated rfl (List.mem_singleton_self _) hf hrest (List.mem_singleton_self _) rfl rfl⟩

end Witnesses

end LensoFlags
