import LensoFlags.Conveyed
import LensoFlags.Abstract.Commands
import LensoFlags.Abstract.Evaluation

/-!
# Records fit for the wire

Every record a store answers passes `wire_cast`: its timestamps are timestamps, its value type and
its reason have a name on the wire.

Results:
1. `Effect.presented`: an operation that succeeds keeps this, and its response passes.
2. `Presented.reads`: so does what is read.
-/

namespace LensoFlags

variable {platform : Platform}

/-! ## What passes -/

theorem timestamp_eq {text : String} (h : platform.isTimestamp text) :
    timestamp platform text = some text :=
  if_pos h

variable (platform) in
/-- What `wire_cast` asks of a flag. -/
structure FlagRecord.Presented (record : FlagRecord) : Prop where
  archivedAt : ∀ text, record.archivedAt = some text → platform.isTimestamp text
  createdAt : platform.isTimestamp record.createdAt
  updatedAt : platform.isTimestamp record.updatedAt
  valueType : (ValueType.ofWire record.valueType).isSome

theorem FlagRecord.Presented.cast {record : FlagRecord} (h : record.Presented platform) :
    ∃ item, castFlag platform record = some item := by
  obtain ⟨valueType, hvalueType⟩ := Option.isSome_iff_exists.mp h.valueType
  unfold castFlag
  rw [timestamp_eq h.createdAt, timestamp_eq h.updatedAt, hvalueType]
  cases hat : record.archivedAt with
  | none => exact ⟨_, rfl⟩
  | some text =>
    simp only [timestamp_eq (h.archivedAt text hat)]
    exact ⟨_, rfl⟩

theorem castEnvironment_of {record : EnvironmentRecord}
    (hcreated : platform.isTimestamp record.createdAt)
    (hupdated : platform.isTimestamp record.updatedAt) :
    ∃ item, castEnvironment platform record = some item := by
  unfold castEnvironment
  rw [timestamp_eq hcreated, timestamp_eq hupdated]
  exact ⟨_, rfl⟩

theorem castPublish_of {record : PublishRecord}
    (hpublished : platform.isTimestamp record.publishedAt) :
    ∃ item, castPublish platform record = some item := by
  unfold castPublish
  rw [timestamp_eq hpublished]
  exact ⟨_, rfl⟩

theorem castEvaluation_of {record : EvaluationRecord}
    (hevaluated : platform.isTimestamp record.evaluatedAt)
    (hreason : (Reason.ofWire record.reason).isSome)
    (hvalue : (ValueType.ofWire record.value.valueType).isSome) :
    ∃ item, castEvaluation platform record = some item := by
  obtain ⟨reason, hreason⟩ := Option.isSome_iff_exists.mp hreason
  obtain ⟨valueType, hvalueType⟩ := Option.isSome_iff_exists.mp hvalue
  unfold castEvaluation castValue
  rw [timestamp_eq hevaluated, hreason, hvalueType]
  exact ⟨_, rfl⟩

theorem castReceipt_of {record : ReceiptRecord}
    (hevaluated : platform.isTimestamp record.evaluatedAt)
    (hreason : (Reason.ofWire record.reason).isSome) :
    ∃ item, castReceipt platform record = some item := by
  obtain ⟨reason, hreason⟩ := Option.isSome_iff_exists.mp hreason
  unfold castReceipt
  rw [timestamp_eq hevaluated, hreason]
  exact ⟨_, rfl⟩

/-! ## Choices -/

theorem ofWire_wireName (valueType : ValueType) :
    (ValueType.ofWire valueType.wireName).isSome := by
  cases valueType <;> rfl

theorem valueType_of_valid {rt : Runtime} {valueType : String} {value : ValueRecord}
    (h : validValue rt valueType value = true) : value.valueType = valueType := by
  unfold validValue at h
  simp only [Bool.and_eq_true, beq_iff_eq] at h
  exact h.1.2

theorem chooseVariant_reason {rt : Runtime} {definition : RulesetDefinition}
    {org environmentKey flagKey targetingKey : String} {attributes : List (String × Json)}
    {v : VariantRecord} {reason : String}
    (h : chooseVariant rt org environmentKey flagKey targetingKey attributes definition =
      .ok (v, reason)) : (Reason.ofWire reason).isSome := by
  have hreason := (chooseVariant_chosen h).2
  simp only [List.mem_cons, List.not_mem_nil, or_false] at hreason
  rcases hreason with rfl | rfl | rfl <;> rfl

namespace Abstract

variable {codec : Codec} {rt : Runtime} {σ : Stamp} {c c' : Store codec} {call : Call}
  {response : Response}

variable (platform) in
/-- The texts of the stamp are timestamps. -/
structure Stamp.Timed (σ : Stamp) : Prop where
  createdAt : platform.isTimestamp σ.createdAt
  updatedAt : platform.isTimestamp σ.updatedAt
  archivedAt : platform.isTimestamp σ.archivedAt
  publishedAt : platform.isTimestamp σ.publishedAt
  environmentUpdatedAt : platform.isTimestamp σ.environmentUpdatedAt
  evaluation : ∀ i, platform.isTimestamp (σ.evaluation i).answeredAt ∧
    platform.isTimestamp (σ.evaluation i).recordedAt

variable (platform) in
structure Presented (c : Store codec) : Prop where
  flags : ∀ flag ∈ c.flags, flag.record.Presented platform
  environments : ∀ environment ∈ c.environments,
    platform.isTimestamp environment.createdAt ∧ platform.isTimestamp environment.updatedAt
  receipts : ∀ receipt ∈ c.receipts,
    platform.isTimestamp receipt.evaluatedAt ∧ (Reason.ofWire receipt.reason).isSome

variable (platform) in
/-- The response passes `wire_cast`, as a record of its kind. -/
def Passes (response : Response) : Prop :=
  ∀ kind record, response.record kind = some record →
    ∃ item, kind.respond platform record = some item

theorem Presented.empty : Presented platform (Store.empty : Store codec) :=
  ⟨fun _ h => absurd h List.not_mem_nil, fun _ h => absurd h List.not_mem_nil,
    fun _ h => absurd h List.not_mem_nil⟩

theorem Passes.flag {record : FlagRecord} (h : record.Presented platform) :
    Passes platform (.flag record) := by
  intro kind record' hrecord
  cases kind <;> cases hrecord
  obtain ⟨item, hitem⟩ := h.cast
  exact ⟨_, congrArg (Option.map ServiceResponse.flag) hitem⟩

theorem Passes.environment {record : EnvironmentRecord}
    (hcreated : platform.isTimestamp record.createdAt)
    (hupdated : platform.isTimestamp record.updatedAt) :
    Passes platform (.environment record) := by
  intro kind record' hrecord
  cases kind <;> cases hrecord
  obtain ⟨item, hitem⟩ := castEnvironment_of hcreated hupdated
  exact ⟨_, congrArg (Option.map ServiceResponse.environment) hitem⟩

theorem Passes.publish {record : PublishRecord}
    (hpublished : platform.isTimestamp record.publishedAt) :
    Passes platform (.publish record) := by
  intro kind record' hrecord
  cases kind <;> cases hrecord
  obtain ⟨item, hitem⟩ := castPublish_of hpublished
  exact ⟨_, congrArg (Option.map ServiceResponse.publish) hitem⟩

theorem passes_evaluations
    (h : ∀ record ∈ response.records, ∃ item, castEvaluation platform record = some item)
    {operation : Operation} (hevaluates : (evaluates operation).isSome)
    (hkind : response.kind = operation.kind) : Passes platform response := by
  intro kind record hrecord
  cases response with
  | evaluation found =>
    cases kind <;> cases hrecord
    obtain ⟨item, hitem⟩ := h found (List.mem_singleton_self _)
    exact ⟨_, congrArg (Option.map ServiceResponse.evaluation) hitem⟩
  | evaluations found =>
    cases kind <;> cases hrecord
    obtain ⟨items, hitems⟩ := exists_optionAll h
    exact ⟨_, congrArg (Option.map ServiceResponse.evaluations) hitems⟩
  | _ => cases operation <;> first | (cases hevaluates; done) | cases hkind

/-! ## Effects -/

theorem Presented.putFlag {flag : Flag} (hc : Presented platform c)
    (hflag : flag.record.Presented platform) : Presented platform (c.putFlag flag) :=
  ⟨fun other hother => by
      rcases Table.mem_replace hother with rfl | ⟨hother, -⟩
      · exact hflag
      · exact hc.flags other hother,
    hc.environments, hc.receipts⟩

theorem Presented.putEnvironment {environment : Environment} (hc : Presented platform c)
    (hcreated : platform.isTimestamp environment.createdAt)
    (hupdated : platform.isTimestamp environment.updatedAt) :
    Presented platform (c.putEnvironment environment) :=
  ⟨hc.flags, fun other hother => by
      rcases Table.mem_replace hother with rfl | ⟨hother, -⟩
      · exact ⟨hcreated, hupdated⟩
      · exact hc.environments other hother,
    hc.receipts⟩

/-- A choice for a flag of the store has a reason and a value with names on the wire. -/
theorem Presented.choice (hc : Presented platform c) {subject : Subject} {flagKey reason : String}
    {variant : VariantRecord} {revision : Int}
    (h : choose rt c subject flagKey = .ok (variant, reason, revision)) :
    (Reason.ofWire reason).isSome ∧ (ValueType.ofWire variant.value.valueType).isSome := by
  unfold choose at h
  obtain ⟨flag, hflag, h⟩ := bind_eq_ok.mp h
  split at h
  · cases h
  · obtain ⟨_, -, h⟩ := bind_eq_ok.mp h
    obtain ⟨ruleset, -, h⟩ := bind_eq_ok.mp h
    obtain ⟨definition, -, h⟩ := bind_eq_ok.mp h
    obtain ⟨_, hvalid, h⟩ := bind_eq_ok.mp h
    obtain ⟨⟨variant', reason'⟩, hchoice, h⟩ := bind_eq_ok.mp h
    cases h
    refine ⟨chooseVariant_reason hchoice, ?_⟩
    -- The variant is one of the ruleset's, and each has the value type of the flag.
    obtain ⟨v, _, hsame, hmem⟩ := chooseVariant_of_valid hvalid subject.organizationId
      subject.environmentKey flagKey subject.targetingKey subject.attributes
    rw [hchoice] at hsame
    cases hsame
    obtain ⟨hvariants, -⟩ := validateRuleset_eq_ok.mp hvalid
    rw [valueType_of_valid (hvariants.typed _ hmem)]
    exact (hc.flags flag (Table.mem_of_lookup (okOr_eq_ok.mp hflag))).valueType

theorem Evaluated.presented (hc : Presented platform c) (hσ : σ.Timed platform)
    {command : Command} {operation : String} {subject : Subject} {at_ : String × ℕ}
    {result : EvaluationRecord × Receipt}
    (h : Evaluated rt σ c command operation subject at_ result) :
    (∃ item, castEvaluation platform result.1 = some item) ∧
      platform.isTimestamp result.2.evaluatedAt ∧ (Reason.ofWire result.2.reason).isSome := by
  obtain ⟨variant, reason, revision, hchoose, rfl⟩ := h.choice
  obtain ⟨hreason, hvalue⟩ := hc.choice hchoose
  obtain ⟨hanswered, hrecorded⟩ := hσ.evaluation at_.2
  exact ⟨castEvaluation_of hanswered hreason hvalue, hrecorded, hreason⟩

/-- An effect keeps every record presentable, and its response is. -/
theorem Effect.presented (h : Effect rt σ c call response c') (hc : Presented platform c)
    (hσ : σ.Timed platform) (hlawful : call.operation.Lawful rt) :
    Presented platform c' ∧ Passes platform response := by
  cases h with
  | @created org flagKey name valueType description hop hnone =>
    rw [hop] at hlawful
    obtain ⟨known, rfl⟩ := hlawful
    have hflag : (newFlag σ org flagKey name description known.wireName).record.Presented
        platform := by
      refine ⟨fun text htext => ?_, hσ.createdAt, hσ.updatedAt, ofWire_wireName known⟩
      cases htext
    exact ⟨⟨List.forall_mem_cons.mpr ⟨hflag, hc.flags⟩, hc.environments, hc.receipts⟩,
      .flag hflag⟩
  | @updated org flagKey name expected description flag hop hfound =>
    have hold := hc.flags flag (Table.mem_of_lookup hfound)
    have hflag : (flag.update σ name description).record.Presented platform :=
      ⟨hold.archivedAt, hold.createdAt, hσ.updatedAt, hold.valueType⟩
    exact ⟨hc.putFlag hflag, .flag hflag⟩
  | @archived org flagKey expected flag hop hfound =>
    have hold := hc.flags flag (Table.mem_of_lookup hfound)
    have hflag : (flag.archive σ).record.Presented platform := by
      refine ⟨fun text htext => ?_, hold.createdAt, hσ.updatedAt, hold.valueType⟩
      cases htext
      exact hσ.archivedAt
    exact ⟨hc.putFlag hflag, .flag hflag⟩
  | environmentCreated hop hnone =>
    exact ⟨⟨hc.flags, List.forall_mem_cons.mpr ⟨⟨hσ.createdAt, hσ.updatedAt⟩, hc.environments⟩,
      hc.receipts⟩, .environment hσ.createdAt hσ.updatedAt⟩
  | @environmentRenamed org environmentKey name expected environment hop hfound =>
    have hcreated := (hc.environments environment (Table.mem_of_lookup hfound)).1
    exact ⟨hc.putEnvironment hcreated hσ.updatedAt, .environment hcreated hσ.updatedAt⟩
  | @published org flagKey environmentKey _ _ definition flag environment document hop hfound
      _ _ _ _ hplaced =>
    have hold := hc.flags flag (Table.mem_of_lookup hfound)
    have hflag : (flag.bump σ).record.Presented platform :=
      ⟨hold.archivedAt, hold.createdAt, hσ.updatedAt, hold.valueType⟩
    have hput : Presented platform ((c.putFlag (flag.bump σ)).putEnvironment (environment.bump σ)) :=
      (hc.putFlag hflag).putEnvironment
        (hc.environments environment (Table.mem_of_lookup hplaced)).1 hσ.environmentUpdatedAt
    exact ⟨⟨hput.flags, hput.environments, hput.receipts⟩, .publish hσ.publishedAt⟩
  | @evaluated subject flagKeys results response hop hresults hkind hrecords =>
    have hall : ∀ result ∈ results, (∃ item, castEvaluation platform result.1 = some item) ∧
        platform.isTimestamp result.2.evaluatedAt ∧ (Reason.ofWire result.2.reason).isSome := by
      intro result hresult
      obtain ⟨at_, -, heval⟩ := Table.exists_of_mem_right (evaluateFrom_eq_ok.mp hresults) hresult
      exact heval.presented hc hσ
    refine ⟨⟨hc.flags, hc.environments, fun receipt hreceipt => ?_⟩,
      passes_evaluations (fun record hrecord => ?_) (by rw [hop]; rfl) hkind⟩
    · rcases List.mem_append.mp hreceipt with hnew | hold
      · obtain ⟨result, hresult, rfl⟩ := List.mem_map.mp (List.mem_reverse.mp hnew)
        exact (hall result hresult).2
      · exact hc.receipts receipt hold
    · rw [hrecords] at hrecord
      obtain ⟨result, hresult, rfl⟩ := List.mem_map.mp hrecord
      exact (hall result hresult).1

/-- An attempt keeps every record presentable, and what it answers afresh is. -/
theorem Presented.attempt {answer : Answer} (hc : Presented platform c) (hσ : σ.Timed platform)
    (hlawful : call.operation.Lawful rt) (h : Abstract.attempt rt σ c call = .ok (answer, c')) :
    Presented platform c' ∧ ∀ response, answer = .fresh response → Passes platform response := by
  rcases attempt_eq_ok h with ⟨response, rfl, rfl, -⟩ | ⟨response, rfl, -, hnew⟩
  · exact ⟨hc, fun _ hfresh => by cases hfresh⟩
  · obtain ⟨c₁, stored, heffect, -, rfl⟩ := fresh_effect hnew
    obtain ⟨hc₁, hpasses⟩ := heffect.presented hc hσ hlawful
    refine ⟨⟨hc₁.flags, hc₁.environments, hc₁.receipts⟩, fun other hother => ?_⟩
    cases hother
    exact hpasses

variable (platform) in
/-- After lawful calls every record passes, stored or answered by the call that made it. -/
def Shown (rt : Runtime) (log : List (Serial.Entry Call Draws Answer)) (c : Store codec) : Prop :=
  (∀ e ∈ log, e.call.operation.Lawful rt) →
    Presented platform c ∧ ∀ e ∈ log, ∀ response, e.value = .fresh response →
      Passes platform response

theorem Shown.empty : Shown platform rt [] (Store.empty : Store codec) :=
  fun _ => ⟨.empty, fun _ he => absurd he List.not_mem_nil⟩

theorem Shown.cons {log : List (Serial.Entry Call Draws Answer)}
    {e : Serial.Entry Call Draws Answer} (h : Shown platform rt log c) (hσ : σ.Timed platform)
    (hattempt : attempt rt σ c e.call = .ok (e.value, c')) : Shown platform rt (e :: log) c' := by
  intro hlawful
  obtain ⟨hfirst, hrest⟩ := List.forall_mem_cons.mp hlawful
  obtain ⟨hstore, hlog⟩ := h hrest
  obtain ⟨hstore', hpasses⟩ := hstore.attempt hσ hfirst hattempt
  exact ⟨hstore', List.forall_mem_cons.mpr ⟨hpasses, hlog⟩⟩

/-- What is read back of a response passes as the response does. -/
theorem Passes.retold {original told : Response} (h : Passes platform original)
    (hretold : Retold codec original told) (hsteady : codec.Steady) : Passes platform told := by
  intro kind record htold
  obtain ⟨record', hrecord'⟩ := exists_record (hretold.kind.symm.trans (kind_of_record htold))
  obtain ⟨response, hresponse⟩ := h kind record' hrecord'
  rw [respond_of_record hrecord'] at hresponse
  rw [respond_of_record htold]
  exact hretold.passes hsteady hresponse

/-! ## Reads -/

/-- The records are those of rows of the store, of the organization that is asked about. -/
def Reads (c : Store codec) : (call : StoreCall) → call.Record → Prop
  | .getFlag org flagKey, record => ∃ flag, c.flag org flagKey = some flag ∧ flag.record = record
  | .listFlags org .., (records : List FlagRecord) =>
      ∀ record ∈ records, ∃ flag ∈ c.flags, flag.organizationId = org ∧ flag.record = record
  | .listReceipts org .., (records : List ReceiptRecord) =>
      ∀ record ∈ records, ∃ receipt ∈ c.receipts, receipt.organizationId = org ∧
        receipt.record = record
  | .write _, _ => False

theorem reads_getFlag {org flagKey : String} {record : FlagRecord}
    (h : getFlag c org flagKey = .ok record) : Reads c (.getFlag org flagKey) record := by
  unfold getFlag at h
  cases hflag : c.flag org flagKey with
  | none =>
    rw [hflag] at h
    cases h
  | some flag =>
    rw [hflag] at h
    cases h
    exact ⟨flag, hflag, rfl⟩

theorem reads_listFlags {org : String} {includeArchived : Bool} {after : Option Int} {limit : Int}
    {n : ℕ} : Reads c (.listFlags org includeArchived after limit)
      (listFlags c org includeArchived after n) := by
  intro record hrecord
  obtain ⟨flag, hflag, rfl⟩ := List.mem_map.mp hrecord
  obtain ⟨hmem, hselected⟩ := List.mem_filter.mp (Table.mem_orderBy.mp (List.mem_of_mem_take hflag))
  simp only [Bool.and_eq_true, decide_eq_true_eq] at hselected
  exact ⟨flag, hmem, hselected.1.1, rfl⟩

theorem reads_listReceipts {org : String} {flagKey environmentKey : Option String}
    {after : Option Int} {limit : Int} {n : ℕ} :
    Reads c (.listReceipts org flagKey environmentKey after limit)
      (listReceipts c org flagKey environmentKey after n) := by
  intro record hrecord
  obtain ⟨receipt, hreceipt, rfl⟩ := List.mem_map.mp hrecord
  obtain ⟨hmem, hselected⟩ :=
    List.mem_filter.mp (Table.mem_orderBy.mp (List.mem_of_mem_take hreceipt))
  simp only [Bool.and_eq_true, decide_eq_true_eq] at hselected
  exact ⟨receipt, hmem, hselected.1.1.1, rfl⟩

theorem Presented.reads (hc : Presented platform c) {call : StoreCall} {record : call.Record}
    (h : Reads c call record) : call.Passes platform record := by
  cases call with
  | write call => exact h.elim
  | getFlag org flagKey =>
    obtain ⟨flag, hflag, rfl⟩ := h
    exact (hc.flags flag (Table.mem_of_lookup hflag)).cast
  | listFlags org includeArchived after limit =>
    intro found hfound
    obtain ⟨flag, hflag, -, rfl⟩ := h found hfound
    exact (hc.flags flag hflag).cast
  | listReceipts org flagKey environmentKey after limit =>
    intro found hfound
    obtain ⟨receipt, hreceipt, -, rfl⟩ := h found hfound
    obtain ⟨hevaluated, hreason⟩ := hc.receipts receipt hreceipt
    exact castReceipt_of hevaluated hreason

end Abstract

end LensoFlags
