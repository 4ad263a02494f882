import LensoFlags.Abstract.Sound
import LensoFlags.Agree
import LensoFlags.Renaming

/-!
# Two abstract stores

Two abstract stores over codecs of their own whose rows are alike, row by row.

Results:
1. `perform_alike`: an operation does alike on both.
2. `replay_alike`: a stored response is replayed alike.
-/

namespace LensoFlags.Abstract

variable {codec codec' : Codec} {rt : Runtime} {ρ ρ' : Renaming} {σ σ' : Stamp}
  {c : Store codec} {c' : Store codec'} {call : Call}

/-! ## Rows -/

structure Flag.Alike (ρ : Renaming) (flag flag' : Flag) : Prop where
  createdAt : ρ.time flag.createdAt flag'.createdAt
  updatedAt : ρ.time flag.updatedAt flag'.updatedAt
  archivedAt : Option.Rel ρ.time flag.archivedAt flag'.archivedAt
  rowSeq : ρ.flagSeq flag.rowSeq flag'.rowSeq
  rest : { flag with
    createdAt := flag'.createdAt, updatedAt := flag'.updatedAt, archivedAt := flag'.archivedAt,
    rowSeq := flag'.rowSeq } = flag'

structure Environment.Alike (ρ : Renaming) (environment environment' : Environment) : Prop where
  createdAt : ρ.time environment.createdAt environment'.createdAt
  updatedAt : ρ.time environment.updatedAt environment'.updatedAt
  rest : { environment with
    createdAt := environment'.createdAt, updatedAt := environment'.updatedAt } = environment'

structure Receipt.Alike (ρ : Renaming) (receipt receipt' : Receipt) : Prop where
  receiptId : ρ.receiptId receipt.receiptId receipt'.receiptId
  evaluatedAt : ρ.time receipt.evaluatedAt receipt'.evaluatedAt
  rowSeq : ρ.receiptSeq receipt.rowSeq receipt'.rowSeq
  rest : { receipt with
    receiptId := receipt'.receiptId, evaluatedAt := receipt'.evaluatedAt,
    rowSeq := receipt'.rowSeq } = receipt'

/-- The documents decode to one definition. -/
structure Ruleset.Alike (ruleset : Ruleset codec) (ruleset' : Ruleset codec') : Prop where
  triple : ruleset.triple = ruleset'.triple
  revision : ruleset.revision = ruleset'.revision
  definition : ∃ definition, codec.decodeDefinition ruleset.definition = some definition ∧
    codec'.decodeDefinition ruleset'.definition = some definition

/-- The stored responses are documents of responses that are alike, and decode to these. -/
structure CommandRow.Alike (ρ : Renaming) (row : CommandRow codec) (row' : CommandRow codec') :
    Prop where
  key : row.key = row'.key
  requestHash : row.requestHash = row'.requestHash
  response : ∃ operation response response', row.key.operation = Operation.name operation ∧
    Response.kind response = operation.kind ∧ response.Alike ρ response' ∧
    encodeResponse codec response = some row.response ∧
    encodeResponse codec' response' = some row'.response ∧
    decodeResponse codec response.kind row.response = some response ∧
    decodeResponse codec' response'.kind row'.response = some response'

structure Store.Alike (ρ : Renaming) (c : Store codec) (c' : Store codec') : Prop where
  flags : List.Forall₂ (Flag.Alike ρ) c.flags c'.flags
  environments : List.Forall₂ (Environment.Alike ρ) c.environments c'.environments
  rulesets : List.Forall₂ Ruleset.Alike c.rulesets c'.rulesets
  receipts : List.Forall₂ (Receipt.Alike ρ) c.receipts c'.receipts
  commands : List.Forall₂ (CommandRow.Alike ρ) c.commands c'.commands

/-- The stamps give what stands for each other, as far as the operation uses them. -/
structure Stamp.Alike (ρ : Renaming) (operation : Operation) (σ σ' : Stamp) : Prop where
  createdAt : ρ.time σ.createdAt σ'.createdAt
  updatedAt : ρ.time σ.updatedAt σ'.updatedAt
  archivedAt : ρ.time σ.archivedAt σ'.archivedAt
  publishedAt : ρ.time σ.publishedAt σ'.publishedAt
  environmentUpdatedAt : ρ.time σ.environmentUpdatedAt σ'.environmentUpdatedAt
  answeredAt : ∀ i, ρ.time (σ.evaluation i).answeredAt (σ'.evaluation i).answeredAt
  recordedAt : ∀ i, ρ.time (σ.evaluation i).recordedAt (σ'.evaluation i).recordedAt
  rowSeq : ∀ org flagKey name description valueType,
    operation = .createFlag org flagKey name description valueType →
      ρ.flagSeq σ.rowSeq σ'.rowSeq
  evaluation : ∀ subject flagKeys, evaluates operation = some (subject, flagKeys) →
    ∀ i < flagKeys.length, ρ.receiptId (σ.evaluation i).receiptId (σ'.evaluation i).receiptId ∧
      ρ.receiptSeq (σ.evaluation i).rowSeq (σ'.evaluation i).rowSeq

theorem Flag.Alike.key {flag flag' : Flag} (h : flag.Alike ρ flag') : flag.key = flag'.key := by
  have hkey := congrArg Flag.key h.rest
  exact hkey

theorem Environment.Alike.key {environment environment' : Environment}
    (h : environment.Alike ρ environment') : environment.key = environment'.key := by
  have hkey := congrArg Environment.key h.rest
  exact hkey

theorem Flag.Alike.revision {flag flag' : Flag} (h : flag.Alike ρ flag') :
    flag.revision = flag'.revision := by
  have hrevision := congrArg Flag.revision h.rest
  exact hrevision

theorem Flag.Alike.valueType {flag flag' : Flag} (h : flag.Alike ρ flag') :
    flag.valueType = flag'.valueType := by
  have htype := congrArg Flag.valueType h.rest
  exact htype

theorem Flag.Alike.archived {flag flag' : Flag} (h : flag.Alike ρ flag') :
    flag.archived = flag'.archived := by
  have harchived := congrArg Flag.archived h.rest
  exact harchived

theorem Flag.Alike.requireRevision {flag flag' : Flag} (h : flag.Alike ρ flag') (expected : Int) :
    requireRevision flag expected = requireRevision flag' expected := by
  unfold Abstract.requireRevision
  rw [h.archived, h.revision]

theorem Environment.Alike.revision {environment environment' : Environment}
    (h : environment.Alike ρ environment') : environment.revision = environment'.revision := by
  have hrevision := congrArg Environment.revision h.rest
  exact hrevision

theorem Flag.Alike.record {flag flag' : Flag} (h : flag.Alike ρ flag') :
    flag.record.Alike ρ flag'.record :=
  ⟨h.createdAt, h.updatedAt, h.archivedAt, h.rowSeq, congrArg Flag.record h.rest⟩

theorem Environment.Alike.record {environment environment' : Environment}
    (h : environment.Alike ρ environment') : environment.record.Alike ρ environment'.record :=
  ⟨h.createdAt, h.updatedAt, congrArg Environment.record h.rest⟩

theorem Receipt.Alike.record {receipt receipt' : Receipt} (h : receipt.Alike ρ receipt') :
    receipt.record.Alike ρ receipt'.record :=
  ⟨h.receiptId, h.evaluatedAt, h.rowSeq, congrArg Receipt.record h.rest⟩

section Mono

variable (hρ : ρ.Le ρ')

include hρ

theorem Flag.Alike.mono {flag flag' : Flag} (h : flag.Alike ρ flag') : flag.Alike ρ' flag' :=
  ⟨hρ.time _ _ h.createdAt, hρ.time _ _ h.updatedAt, rel_mono h.archivedAt hρ.time,
    hρ.flagSeq _ _ h.rowSeq, h.rest⟩

theorem Environment.Alike.mono {environment environment' : Environment}
    (h : environment.Alike ρ environment') : environment.Alike ρ' environment' :=
  ⟨hρ.time _ _ h.createdAt, hρ.time _ _ h.updatedAt, h.rest⟩

theorem Receipt.Alike.mono {receipt receipt' : Receipt} (h : receipt.Alike ρ receipt') :
    receipt.Alike ρ' receipt' :=
  ⟨hρ.receiptId _ _ h.receiptId, hρ.time _ _ h.evaluatedAt, hρ.receiptSeq _ _ h.rowSeq, h.rest⟩

theorem CommandRow.Alike.mono {row : CommandRow codec} {row' : CommandRow codec'}
    (h : row.Alike ρ row') : row.Alike ρ' row' := by
  obtain ⟨operation, response, response', hname, hkind, halike, hdocuments⟩ := h.response
  exact ⟨h.key, h.requestHash, operation, response, response', hname, hkind, halike.mono hρ,
    hdocuments⟩

theorem Store.Alike.mono (h : c.Alike ρ c') : c.Alike ρ' c' :=
  ⟨h.flags.imp fun _ _ h => h.mono hρ, h.environments.imp fun _ _ h => h.mono hρ, h.rulesets,
    h.receipts.imp fun _ _ h => h.mono hρ, h.commands.imp fun _ _ h => h.mono hρ⟩

end Mono

/-! ## Lookups -/

section Lookups

variable (h : c.Alike ρ c')

include h

theorem Store.Alike.flag (org key : String) :
    Option.Rel (Flag.Alike ρ) (c.flag org key) (c'.flag org key) :=
  Table.lookup_forall₂ (fun _ _ h => h.key) _ h.flags

theorem Store.Alike.environment (org key : String) :
    Option.Rel (Environment.Alike ρ) (c.environment org key) (c'.environment org key) :=
  Table.lookup_forall₂ (fun _ _ h => h.key) _ h.environments

theorem Store.Alike.command (key : CommandKey) :
    Option.Rel (CommandRow.Alike ρ) (c.command key) (c'.command key) :=
  Table.lookup_forall₂ (fun _ _ h => h.key) _ h.commands

theorem Store.Alike.latest (org flagKey environmentKey : String) :
    Option.Rel Ruleset.Alike (c.latest org flagKey environmentKey)
      (c'.latest org flagKey environmentKey) :=
  Table.head_forall₂ (List.rel_filter (fun _ _ h => by simp [h.triple]) h.rulesets)

theorem Store.Alike.published (org flagKey environmentKey : String) :
    c.published org flagKey environmentKey = c'.published org flagKey environmentKey := by
  have hlatest := h.latest org flagKey environmentKey
  unfold Store.published
  generalize c.latest org flagKey environmentKey = newest at hlatest
  generalize c'.latest org flagKey environmentKey = newest' at hlatest
  cases hlatest with
  | none => rfl
  | some hab => exact hab.revision

theorem Store.Alike.putFlag {flag flag' : Flag} (hflag : flag.Alike ρ flag') :
    (c.putFlag flag).Alike ρ (c'.putFlag flag') :=
  { h with flags := Table.replace_forall₂ (fun _ _ h => h.key) hflag h.flags }

theorem Store.Alike.putEnvironment {environment environment' : Environment}
    (henvironment : environment.Alike ρ environment') :
    (c.putEnvironment environment).Alike ρ (c'.putEnvironment environment') :=
  { h with
    environments := Table.replace_forall₂ (fun _ _ h => h.key) henvironment h.environments }

theorem Store.Alike.addReceipts {receipts receipts' : List Receipt}
    (hreceipts : List.Forall₂ (Receipt.Alike ρ) receipts receipts') :
    (c.addReceipts receipts).Alike ρ (c'.addReceipts receipts') :=
  { h with receipts := List.rel_append (List.rel_reverse hreceipts) h.receipts }

end Lookups

/-! ## Operations -/

/-- What an operation has come to on both stores. -/
structure Outcome (ρ : Renaming) (x : Response × Store codec) (x' : Response × Store codec') :
    Prop where
  response : x.1.Alike ρ x'.1
  store : x.2.Alike ρ x'.2

section Operations

variable (h : c.Alike ρ c')

include h

theorem createFlag_alike {org flagKey name valueType : String} {description : Option String}
    (hσ : σ.Alike ρ (.createFlag org flagKey name description valueType) σ') :
    Agree (Outcome ρ) (createFlag σ c org flagKey name description valueType)
      (createFlag σ' c' org flagKey name description valueType) := by
  have hflag := h.flag org flagKey
  have hnew : (newFlag σ org flagKey name description valueType).Alike ρ
      (newFlag σ' org flagKey name description valueType) :=
    ⟨hσ.createdAt, hσ.updatedAt, .none, hσ.rowSeq _ _ _ _ _ rfl, rfl⟩
  unfold createFlag
  generalize c.flag org flagKey = found at hflag
  generalize c'.flag org flagKey = found' at hflag
  cases hflag with
  | some => exact .domain .alreadyExists
  | none => exact .ok ⟨.flag hnew.record, { h with flags := .cons hnew h.flags }⟩

theorem updateFlag_alike {org flagKey name : String} {expected : Int} {description : Option String}
    (hσ : σ.Alike ρ (.updateFlag org flagKey expected name description) σ') :
    Agree (Outcome ρ) (updateFlag σ c org flagKey expected name description)
      (updateFlag σ' c' org flagKey expected name description) := by
  unfold updateFlag
  refine (Agree.okOr .notFound (h.flag org flagKey)).bind fun flag flag' hflag => ?_
  have hupdated : (flag.update σ name description).Alike ρ (flag'.update σ' name description) :=
    ⟨hflag.createdAt, hσ.updatedAt, hflag.archivedAt, hflag.rowSeq,
      congrArg (fun flag => Flag.update flag σ' name description) hflag.rest⟩
  rw [← hflag.requireRevision, ← hflag.revision]
  refine (Agree.refl _).bind fun _ _ _ => (Agree.refl _).bind fun _ _ _ => ?_
  exact .ok ⟨.flag hupdated.record, h.putFlag hupdated⟩

theorem archiveFlag_alike {org flagKey : String} {expected : Int}
    (hσ : σ.Alike ρ (.archiveFlag org flagKey expected) σ') :
    Agree (Outcome ρ) (archiveFlag σ c org flagKey expected)
      (archiveFlag σ' c' org flagKey expected) := by
  unfold archiveFlag
  refine (Agree.okOr .notFound (h.flag org flagKey)).bind fun flag flag' hflag => ?_
  have harchived : (flag.archive σ).Alike ρ (flag'.archive σ') :=
    ⟨hflag.createdAt, hσ.updatedAt, .some hσ.archivedAt, hflag.rowSeq,
      congrArg (fun flag => Flag.archive flag σ') hflag.rest⟩
  rw [← hflag.requireRevision, ← hflag.revision]
  refine (Agree.refl _).bind fun _ _ _ => (Agree.refl _).bind fun _ _ _ => ?_
  exact .ok ⟨.flag harchived.record, h.putFlag harchived⟩

theorem putEnvironment_alike {org environmentKey name : String} {expected : Option Int}
    (hσ : σ.Alike ρ (.putEnvironment org environmentKey name expected) σ') :
    Agree (Outcome ρ) (putEnvironment σ c org environmentKey name expected)
      (putEnvironment σ' c' org environmentKey name expected) := by
  have henvironment := h.environment org environmentKey
  unfold putEnvironment
  generalize c.environment org environmentKey = found at henvironment
  generalize c'.environment org environmentKey = found' at henvironment
  cases henvironment with
  | none =>
    cases expected with
    | none =>
      have hnew : (newEnvironment σ org environmentKey name).Alike ρ
          (newEnvironment σ' org environmentKey name) := ⟨hσ.createdAt, hσ.updatedAt, rfl⟩
      exact .ok ⟨.environment hnew.record,
        { h with environments := .cons hnew h.environments }⟩
    | some expected => exact .domain .notFound
  | @some environment environment' hfound =>
    cases expected with
    | none => exact .domain .alreadyExists
    | some expected =>
      have hrenamed : (environment.rename σ name).Alike ρ (environment'.rename σ' name) :=
        ⟨hfound.createdAt, hσ.updatedAt,
          congrArg (fun environment => Environment.rename environment σ' name) hfound.rest⟩
      have hrevision := hfound.revision
      simp only [← hrevision]
      split
      · exact .domain .revisionConflict
      · refine (Agree.refl _).bind fun _ _ _ => ?_
        exact .ok ⟨.environment hrenamed.record, h.putEnvironment hrenamed⟩

theorem publishRuleset_alike {actor org flagKey environmentKey : String}
    {expectedFlag expectedEnvironment : Int} {definition : RulesetDefinition}
    (hdefinition : ∃ document document', codec.encodeDefinition definition = some document ∧
      codec'.encodeDefinition definition = some document' ∧
      ∀ valueType, validateRuleset rt valueType definition = .ok () →
        codec.decodeDefinition document = some definition ∧
          codec'.decodeDefinition document' = some definition)
    (hσ : σ.Alike ρ (.publishRuleset org flagKey environmentKey expectedFlag expectedEnvironment
      definition) σ') :
    Agree (Outcome ρ)
      (publishRuleset rt σ c actor org flagKey environmentKey expectedFlag expectedEnvironment
        definition)
      (publishRuleset rt σ' c' actor org flagKey environmentKey expectedFlag expectedEnvironment
        definition) := by
  obtain ⟨document, document', hencode, hencode', hdecodes⟩ := hdefinition
  unfold publishRuleset
  refine (Agree.okOr .notFound (h.flag org flagKey)).bind fun flag flag' hflag => ?_
  rw [← hflag.requireRevision, ← hflag.valueType, ← hflag.revision]
  refine (Agree.refl _).bind fun _ _ _ => (Agree.refl _).values.bind fun _ _ hvalid => ?_
  obtain ⟨hdecode, hdecode'⟩ := hdecodes _ hvalid.2.1
  refine (Agree.okOr .notFound (h.environment org environmentKey)).bind
    fun environment environment' henvironment => ?_
  have hbumped : (flag.bump σ).Alike ρ (flag'.bump σ') :=
    ⟨hflag.createdAt, hσ.updatedAt, hflag.archivedAt, hflag.rowSeq,
      congrArg (fun flag => Flag.bump flag σ') hflag.rest⟩
  have hbumped' : (environment.bump σ).Alike ρ (environment'.bump σ') :=
    ⟨henvironment.createdAt, hσ.environmentUpdatedAt,
      congrArg (fun environment => Environment.bump environment σ') henvironment.rest⟩
  rw [← henvironment.revision, ← h.published, hencode, hencode']
  split
  · exact .domain .revisionConflict
  · refine (Agree.refl _).bind fun _ _ _ => (Agree.refl _).bind fun _ _ _ =>
      (Agree.refl _).bind fun _ _ _ => ?_
    have hput := (h.putFlag hbumped).putEnvironment hbumped'
    exact .ok ⟨.publish ⟨hσ.publishedAt, rfl⟩,
      { hput with rulesets := .cons ⟨rfl, rfl, definition, hdecode, hdecode'⟩ hput.rulesets }⟩

theorem choose_alike (subject : Subject) (flagKey : String) :
    Agree (· = ·) (choose rt c subject flagKey) (choose rt c' subject flagKey) := by
  unfold choose
  refine (Agree.okOr .flagNotFound (h.flag _ _)).bind fun flag flag' hflag => ?_
  rw [← hflag.archived, ← hflag.valueType]
  split
  · exact .domain .archived
  · refine (Agree.okOr .environmentNotFound (h.environment _ _)).bind fun _ _ _ => ?_
    refine (Agree.okOr .noPublishedRuleset (h.latest _ _ _)).bind fun ruleset ruleset' hruleset => ?_
    obtain ⟨definition, hdecode, hdecode'⟩ := hruleset.definition
    rw [hdecode, hdecode', ← hruleset.revision]
    exact Agree.refl _

theorem evaluateOne_alike {command : Command} {operation flagKey : String} {subject : Subject}
    {index : ℕ} (hanswered : ρ.time (σ.evaluation index).answeredAt (σ'.evaluation index).answeredAt)
    (hrecorded : ρ.time (σ.evaluation index).recordedAt (σ'.evaluation index).recordedAt)
    (hid : ρ.receiptId (σ.evaluation index).receiptId (σ'.evaluation index).receiptId)
    (hseq : ρ.receiptSeq (σ.evaluation index).rowSeq (σ'.evaluation index).rowSeq) :
    Agree (fun x x' => x.1.Alike ρ x'.1 ∧ x.2.Alike ρ x'.2)
      (evaluateOne rt σ c command operation subject index flagKey)
      (evaluateOne rt σ' c' command operation subject index flagKey) := by
  unfold evaluateOne
  refine (choose_alike h subject flagKey).bind ?_
  rintro ⟨variant, reason, revision⟩ _ rfl
  exact .ok ⟨⟨hid, hanswered, rfl⟩, ⟨hid, hrecorded, hseq, rfl⟩⟩

theorem evaluateFrom_alike {command : Command} {operation : String} {subject : Subject}
    {flagKeys : List String} {index : ℕ}
    (hanswered : ∀ i, ρ.time (σ.evaluation i).answeredAt (σ'.evaluation i).answeredAt)
    (hrecorded : ∀ i, ρ.time (σ.evaluation i).recordedAt (σ'.evaluation i).recordedAt)
    (hids : ∀ i < index + flagKeys.length,
      ρ.receiptId (σ.evaluation i).receiptId (σ'.evaluation i).receiptId ∧
        ρ.receiptSeq (σ.evaluation i).rowSeq (σ'.evaluation i).rowSeq) :
    Agree (List.Forall₂ fun x x' => x.1.Alike ρ x'.1 ∧ x.2.Alike ρ x'.2)
      (evaluateFrom rt σ c command operation subject index flagKeys)
      (evaluateFrom rt σ' c' command operation subject index flagKeys) := by
  induction flagKeys generalizing index with
  | nil => exact .ok .nil
  | cons flagKey flagKeys ih =>
    rw [List.length_cons] at hids
    obtain ⟨hid, hseq⟩ := hids index (by omega)
    unfold evaluateFrom
    refine (evaluateOne_alike h (hanswered _) (hrecorded _) hid hseq).bind fun _ _ hfirst => ?_
    refine (ih fun i hi => hids i (by omega)).bind fun _ _ hrest => ?_
    exact .ok (.cons hfirst hrest)

theorem evaluate_alike {command : Command} {org environmentKey flagKey targetingKey : String}
    {attributes : List (String × Json)} {contextHash : String}
    (hσ : σ.Alike ρ (.evaluate org environmentKey flagKey targetingKey attributes contextHash) σ') :
    Agree (Outcome ρ)
      (evaluate rt σ c command ⟨org, environmentKey, targetingKey, attributes, contextHash⟩ flagKey)
      (evaluate rt σ' c' command ⟨org, environmentKey, targetingKey, attributes, contextHash⟩
        flagKey) := by
  obtain ⟨hid, hseq⟩ := hσ.evaluation _ _ rfl 0 Nat.zero_lt_one
  unfold evaluate
  refine (evaluateOne_alike h (hσ.answeredAt 0) (hσ.recordedAt 0) hid hseq).bind ?_
  rintro ⟨record, receipt⟩ ⟨record', receipt'⟩ ⟨hrecord, hreceipt⟩
  exact .ok ⟨.evaluation hrecord, h.addReceipts (.cons hreceipt .nil)⟩

theorem evaluateBatch_alike {command : Command} {org environmentKey targetingKey : String}
    {flagKeys : List String} {attributes : List (String × Json)} {contextHash : String}
    (hσ : σ.Alike ρ
      (.evaluateBatch org environmentKey flagKeys targetingKey attributes contextHash) σ') :
    Agree (Outcome ρ)
      (evaluateBatch rt σ c command ⟨org, environmentKey, targetingKey, attributes, contextHash⟩
        flagKeys)
      (evaluateBatch rt σ' c' command ⟨org, environmentKey, targetingKey, attributes, contextHash⟩
        flagKeys) := by
  unfold evaluateBatch
  refine (evaluateFrom_alike h hσ.answeredAt hσ.recordedAt fun i hi =>
    hσ.evaluation _ _ rfl i (by omega)).bind fun results results' hresults => ?_
  refine .ok ⟨.evaluations ?_, h.addReceipts ?_⟩
  · exact List.rel_map (fun _ _ hresult => hresult.1) hresults
  · exact List.rel_map (fun _ _ hresult => hresult.2) hresults

end Operations

/-! ## Calls -/

/-- The codec accepts every document, and what is stored is read back. -/
structure Faithful (codec : Codec) (rt : Runtime) : Prop where
  exact : codec.Exact rt
  total : codec.Total

theorem Faithful.encodes (h : Faithful codec rt) (response : Response) :
    ∃ stored, encodeResponse codec response = some stored := by
  cases response with
  | flag r => exact ⟨_, rfl⟩
  | environment r => exact ⟨_, rfl⟩
  | publish r => exact ⟨_, rfl⟩
  | evaluation r =>
    obtain ⟨document, hdocument⟩ := h.total.evaluation r
    exact ⟨.evaluation document, by rw [encodeResponse, hdocument]; rfl⟩
  | evaluations rs =>
    obtain ⟨documents, hdocuments⟩ := @exists_optionAll _ _ _ rs fun r _ =>
      h.total.evaluation r
    exact ⟨.evaluations documents, by rw [encodeResponse, hdocuments]; rfl⟩

theorem perform_alike (hcodec : Faithful codec rt) (hcodec' : Faithful codec' rt) (h : c.Alike ρ c')
    (hσ : σ.Alike ρ call.operation σ') :
    Agree (Outcome ρ) (perform rt σ c call) (perform rt σ' c' call) := by
  unfold perform
  split
  · next hop =>
    rw [hop] at hσ
    exact createFlag_alike h hσ
  · next hop =>
    rw [hop] at hσ
    exact updateFlag_alike h hσ
  · next hop =>
    rw [hop] at hσ
    exact archiveFlag_alike h hσ
  · next hop =>
    rw [hop] at hσ
    exact putEnvironment_alike h hσ
  · next definition hop =>
    rw [hop] at hσ
    obtain ⟨document, hencode⟩ := hcodec.total.definition definition
    obtain ⟨document', hencode'⟩ := hcodec'.total.definition definition
    exact publishRuleset_alike h ⟨document, document', hencode, hencode', fun _ hvalid =>
      ⟨hcodec.exact.definitions hvalid hencode, hcodec'.exact.definitions hvalid hencode'⟩⟩ hσ
  · next hop =>
    rw [hop] at hσ
    exact evaluate_alike h hσ
  · next hop =>
    rw [hop] at hσ
    exact evaluateBatch_alike h hσ

theorem replay_alike (h : c.Alike ρ c') :
    Agree (Option.Rel (Response.Alike ρ)) (replay c call) (replay c' call) := by
  have hcommand := h.command call.commandKey
  unfold replay
  cases hrow : c.command call.commandKey with
  | none =>
    rw [hrow] at hcommand
    generalize c'.command call.commandKey = found' at hcommand
    cases hcommand
    exact .ok .none
  | some row =>
    rw [hrow] at hcommand
    have hkey := Table.key_of_lookup hrow
    generalize c'.command call.commandKey = found' at hcommand
    cases hcommand with
    | @some _ row' hrows =>
      obtain ⟨operation, response, response', hname, hkind, halike, -, -, hdecode, hdecode'⟩ :=
        hrows.response
      have hkinds : call.operation.kind = response.kind := by
        rw [hkind]
        rw [hkey] at hname
        exact Operation.kind_eq_of_name hname
      simp only [← hrows.requestHash]
      split
      · exact .domain .idempotencyConflict
      · rw [hkinds, hdecode, halike.kind, hdecode']
        exact .ok (.some halike)

/-! ## Reads -/

section Reads

variable (h : c.Alike ρ c')

include h

theorem getFlag_alike (org flagKey : String) :
    Agree (FlagRecord.Alike ρ) (getFlag c org flagKey) (getFlag c' org flagKey) := by
  have hflag := h.flag org flagKey
  unfold getFlag
  generalize c.flag org flagKey = found at hflag
  generalize c'.flag org flagKey = found' at hflag
  cases hflag with
  | none => exact .domain .notFound
  | some hfound => exact .ok hfound.record

theorem listFlags_alike (hρ : ρ.OrderPreserving) (org : String) (includeArchived : Bool)
    {after after' : Option Int} (hcuts : Cuts ρ.flagSeq after after') (limit : ℕ) :
    List.Forall₂ (FlagRecord.Alike ρ) (listFlags c org includeArchived after limit)
      (listFlags c' org includeArchived after' limit) := by
  unfold listFlags
  refine List.rel_map (fun _ _ hflag => Flag.Alike.record hflag) (List.forall₂_take limit ?_)
  refine Table.orderBy_forall₂ ?_ (List.rel_filter ?_ h.flags)
  · intro flag flag' other other' hflag hother
    exact hρ.flagSeq _ _ _ _ hflag.rowSeq hother.rowSeq
  · intro flag flag' hflag
    have horg : flag.organizationId = flag'.organizationId := congrArg Prod.fst hflag.key
    have hcut := hcuts _ _ hflag.rowSeq
    simp only [horg, hflag.archived, hcut]

theorem listReceipts_alike (hρ : ρ.OrderPreserving) (org : String)
    (flagKey environmentKey : Option String) {after after' : Option Int}
    (hcuts : Cuts ρ.receiptSeq after after') (limit : ℕ) :
    List.Forall₂ (ReceiptRecord.Alike ρ)
      (listReceipts c org flagKey environmentKey after limit)
      (listReceipts c' org flagKey environmentKey after' limit) := by
  unfold listReceipts
  refine List.rel_map (fun _ _ hreceipt => Receipt.Alike.record hreceipt)
    (List.forall₂_take limit ?_)
  refine Table.orderBy_forall₂ ?_ (List.rel_filter ?_ h.receipts)
  · intro receipt receipt' other other' hreceipt hother
    exact hρ.receiptSeq _ _ _ _ hreceipt.rowSeq hother.rowSeq
  · intro receipt receipt' hreceipt
    have hcut := hcuts _ _ hreceipt.rowSeq
    rw [← hreceipt.rest]
    simp only [hcut]

end Reads

end LensoFlags.Abstract
