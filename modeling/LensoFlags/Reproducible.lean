import LensoFlags.Abstract.History
import LensoFlags.D1.Delivery
import LensoFlags.Postgres.Serializable
import LensoFlags.Calls

/-!
# Evaluations from their receipts

A receipt keeps the revision of the ruleset that answered and the hash of the context it was asked
with. Rulesets stay as they are published, and the choice reads nothing else, so the receipt fixes
the answer.

Results:
1. `chooseVariant_alike`: what the choice reads of a context.
2. `Abstract.Commits.chosen`: the evaluation behind a receipt.
3. `evaluations_reproducible`: equal receipts have equal answers.
-/

namespace LensoFlags

/-! ## Contexts -/

/-- What the choice reads of a context. -/
structure EvaluationContext.Alike (rt : Runtime) (context context' : EvaluationContext) : Prop where
  targetingKey : context.targetingKey = context'.targetingKey
  rendered : ∀ name, (context.attributes.lookup name).map (rendered rt) =
    (context'.attributes.lookup name).map (rendered rt)

theorem ruleMatches_rendered {rt : Runtime} {value value' : Json} (rule : TargetingRuleRecord)
    (h : rendered rt value = rendered rt value') :
    ruleMatches rt value rule = ruleMatches rt value' rule := by
  unfold ruleMatches
  rw [h]

theorem chooseVariant_alike {rt : Runtime} {context context' : EvaluationContext}
    (h : context.Alike rt context') (org environmentKey flagKey : String)
    (definition : RulesetDefinition) :
    chooseVariant rt org environmentKey flagKey context.targetingKey context.attributes definition =
      chooseVariant rt org environmentKey flagKey context'.targetingKey context'.attributes
        definition := by
  have happlies : ∀ rule : TargetingRuleRecord,
      ((context.attributes.lookup rule.ruleAttribute).any fun value => ruleMatches rt value rule) =
        (context'.attributes.lookup rule.ruleAttribute).any fun value =>
          ruleMatches rt value rule := by
    intro rule
    have hrendered := h.rendered rule.ruleAttribute
    cases hvalue : context.attributes.lookup rule.ruleAttribute with
    | none =>
      rw [hvalue, Option.map_none, eq_comm, Option.map_eq_none_iff] at hrendered
      rw [hrendered]
    | some value =>
      rw [hvalue, Option.map_some, eq_comm, Option.map_eq_some_iff] at hrendered
      obtain ⟨value', hvalue', hsame⟩ := hrendered
      rw [hvalue']
      exact ruleMatches_rendered rule hsame.symm
  unfold chooseVariant
  rw [h.targetingKey, funext happlies]

/-! ## The hash of a context -/

theorem hexDigit_inj : ∀ m < 16, ∀ n < 16, hexDigit m = hexDigit n → m = n := by decide

theorem hexDigits_inj {xs ys : List UInt8}
    (h : (xs.flatMap fun byte => [hexDigit (byte.toNat / 16), hexDigit (byte.toNat % 16)]) =
      ys.flatMap fun byte => [hexDigit (byte.toNat / 16), hexDigit (byte.toNat % 16)]) :
    xs = ys := by
  induction xs generalizing ys with
  | nil =>
    cases ys with
    | nil => rfl
    | cons y ys => cases h
  | cons x xs ih =>
    cases ys with
    | nil => cases h
    | cons y ys =>
      simp only [List.flatMap_cons, List.cons_append, List.nil_append, List.cons.injEq] at h
      obtain ⟨hhigh, hlow, hrest⟩ := h
      have hx := x.toNat_lt
      have hy := y.toNat_lt
      have hdiv := hexDigit_inj _ (by omega) _ (by omega) hhigh
      have hmod := hexDigit_inj _ (by omega) _ (by omega) hlow
      have hbyte : x = y := UInt8.toNat_inj.mp (by omega)
      rw [hbyte, ih hrest]

/-- The bytes that are hashed for a context. -/
def EvaluationContext.wire (rt : Runtime) (context : EvaluationContext) : List UInt8 :=
  bytesOf (context.toJson.render rt)

theorem contextHash_inj {rt : Runtime} {context context' : EvaluationContext}
    (h : contextHash rt context = contextHash rt context') :
    rt.sha256 (context.wire rt) = rt.sha256 (context'.wire rt) :=
  hexDigits_inj (String.ofList_inj.mp h)

def Abstract.Subject.context (subject : Abstract.Subject) : EvaluationContext :=
  ⟨subject.attributes, subject.targetingKey⟩

/-- A context that an evaluation of the log was asked with. -/
def Asked (log : List (Serial.Entry Call Draws Answer)) (context : EvaluationContext) : Prop :=
  ∃ e ∈ log, ∃ subject flagKeys, Abstract.evaluates e.call.operation = some (subject, flagKeys) ∧
    context = subject.context

/-- The evaluations of the log carry the hashes of their contexts, as those of the service do
(`Operation.Lawful`). The hashes tell the contexts apart as far as the choice does: the digest fixes
the text, and the text what is rendered of it. -/
structure Hashed (rt : Runtime) (log : List (Serial.Entry Call Draws Answer)) : Prop where
  carried : ∀ e ∈ log, ∀ subject flagKeys,
    Abstract.evaluates e.call.operation = some (subject, flagKeys) →
      subject.contextHash = contextHash rt subject.context
  collisionFree : ∀ context context', Asked log context → Asked log context' →
    rt.sha256 (context.wire rt) = rt.sha256 (context'.wire rt) →
      context.wire rt = context'.wire rt
  determined : ∀ context context', Asked log context → Asked log context' →
    context.toJson.render rt = context'.toJson.render rt → context.Alike rt context'

/-! ## The evaluation behind a receipt -/

namespace Abstract

variable {codec : Codec} {rt : Runtime} {σ : Stamp} {c c' : Store codec} {call : Call}
  {response : Response} {history : List (Call × Response)}

/-- What a receipt says was asked. -/
def Receipt.question (receipt : Receipt) : String × String × String × Int × String :=
  (receipt.organizationId, receipt.environmentKey, receipt.flagKey, receipt.rulesetRevision,
    receipt.contextHash)

def Receipt.outcome (receipt : Receipt) : String × String := (receipt.variantKey, receipt.reason)

/-- The call evaluated the record, on the publications of the history, and the receipt is of it. -/
structure Chosen (rt : Runtime) (codec : Codec) (history : List (Call × Response)) (call : Call)
    (subject : Subject) (record : EvaluationRecord) (receipt : Receipt) : Prop where
  evaluates : ∃ flagKeys, Abstract.evaluates call.operation = some (subject, flagKeys)
  organizationId : receipt.organizationId = subject.organizationId
  environmentKey : receipt.environmentKey = subject.environmentKey
  contextHash : receipt.contextHash = subject.contextHash
  receiptId : receipt.receiptId = record.receiptId
  variantKey : receipt.variantKey = record.variantKey
  reason : receipt.reason = record.reason
  rulesetRevision : toString receipt.rulesetRevision = record.rulesetRevision
  uses : Uses rt codec history subject receipt.flagKey record

/-- An evaluation answers with records, and adds a receipt of each. -/
theorem Effect.chosen (hrun : Run rt history c) (h : Effect rt σ c call response c') :
    ∃ receipts, c'.receipts = receipts.reverse ++ c.receipts ∧
      List.Forall₂ (fun record receipt => ∃ subject, Chosen rt codec history call subject record
        receipt) response.records receipts := by
  cases h with
  | @evaluated subject flagKeys results _ hop hresults _ hrecords =>
    refine ⟨results.map (·.2), rfl, ?_⟩
    rw [hrecords, List.forall₂_map_left_iff, List.forall₂_map_right_iff, List.forall₂_same]
    intro result hresult
    obtain ⟨at_, -, heval⟩ := Table.exists_of_mem_right (evaluateFrom_eq_ok.mp hresults) hresult
    have huses := hrun.uses heval
    obtain ⟨variant, reason, revision, -, rfl⟩ := Evaluated.choice heval
    exact ⟨subject, ⟨flagKeys, hop⟩, rfl, rfl, rfl, rfl, rfl, rfl, rfl, huses⟩
  | _ => exact ⟨[], rfl, .nil⟩

/-- The log has the evaluation of the record and the receipt. -/
def Traced (rt : Runtime) (codec : Codec) (log : List (Serial.Entry Call Draws Answer))
    (record : EvaluationRecord) (receipt : Receipt) : Prop :=
  ∃ older newer e subject, log = newer ++ e :: older ∧
    Chosen rt codec (LensoFlags.history older) e.call subject record receipt

theorem Traced.cons {log : List (Serial.Entry Call Draws Answer)} {record : EvaluationRecord}
    {receipt : Receipt} (h : Traced rt codec log record receipt)
    (e : Serial.Entry Call Draws Answer) : Traced rt codec (e :: log) record receipt := by
  obtain ⟨older, newer, e', subject, rfl, hchosen⟩ := h
  exact ⟨older, e :: newer, e', subject, rfl, hchosen⟩

/-- Every receipt is traced, and every record of an answer has a traced receipt. -/
theorem Commits.traced {log : List (Serial.Entry Call Draws Answer)} (h : Commits rt log c) :
    (∀ receipt ∈ c.receipts, ∃ record, Traced rt codec log record receipt) ∧
      ∀ e ∈ log, ∀ response, e.value = .fresh response → ∀ record ∈ response.records,
        ∃ receipt ∈ c.receipts, Traced rt codec log record receipt := by
  induction h with
  | nil => exact ⟨fun _ h => absurd h List.not_mem_nil, fun _ h => absurd h List.not_mem_nil⟩
  | @cons log e c c' σ hold hσ hattempt ih =>
    obtain ⟨ihreceipts, ihrecords⟩ := ih
    rcases attempt_eq_ok hattempt with ⟨_, hreplayed, rfl, -⟩ | ⟨response, hvalue, -, hfresh⟩
    · refine ⟨fun receipt hm => ?_, fun e' he' response hvalue record hm => ?_⟩
      · obtain ⟨record, htraced⟩ := ihreceipts receipt hm
        exact ⟨record, htraced.cons e⟩
      · rcases List.mem_cons.mp he' with rfl | he'
        · rw [hreplayed] at hvalue
          cases hvalue
        · obtain ⟨receipt, hreceipt, htraced⟩ := ihrecords e' he' response hvalue record hm
          exact ⟨receipt, hreceipt, htraced.cons e⟩
    · obtain ⟨c₁, stored, heffect, -, rfl⟩ := fresh_effect hfresh
      obtain ⟨receipts, hreceipts, hchosen⟩ := heffect.chosen hold.run
      refine ⟨fun receipt hm => ?_, fun e' he' response' hvalue' record hm => ?_⟩
      · change receipt ∈ c₁.receipts at hm
        rw [hreceipts] at hm
        rcases List.mem_append.mp hm with hm | hm
        · obtain ⟨record, -, subject, hrecord⟩ :=
            Table.exists_of_mem_right hchosen (List.mem_reverse.mp hm)
          exact ⟨record, log, [], e, subject, rfl, hrecord⟩
        · obtain ⟨record, htraced⟩ := ihreceipts receipt hm
          exact ⟨record, htraced.cons e⟩
      · change ∃ receipt ∈ c₁.receipts, _
        rw [hreceipts]
        rcases List.mem_cons.mp he' with rfl | he'
        · rw [hvalue] at hvalue'
          cases hvalue'
          obtain ⟨receipt, hreceipt, subject, hrecord⟩ := Table.exists_of_mem_right hchosen.flip hm
          exact ⟨receipt, List.mem_append_left _ (List.mem_reverse.mpr hreceipt), log, [], e',
            subject, rfl, hrecord⟩
        · obtain ⟨receipt, hreceipt, htraced⟩ := ihrecords e' he' response' hvalue' record hm
          exact ⟨receipt, List.mem_append_right _ hreceipt, htraced.cons e⟩

/-- Suffixes of one length are the same. -/
theorem suffix_eq {α : Type} {xs ys zs : List α} (hx : xs <:+ zs) (hy : ys <:+ zs)
    (hlength : xs.length = ys.length) : xs = ys :=
  (List.suffix_of_suffix_length_le hx hy hlength.le).eq_of_length hlength

theorem publications_suffix {older log : List (Serial.Entry Call Draws Answer)}
    (h : older <:+ log) (org flagKey environmentKey : String) :
    publications org flagKey environmentKey (LensoFlags.history older) <:+
      publications org flagKey environmentKey (LensoFlags.history log) :=
  (h.filterMap _).filterMap _

/-- The evaluations behind two receipts that say the same was asked have the same outcome. -/
theorem Traced.same {log : List (Serial.Entry Call Draws Answer)} (hhashed : Hashed rt log)
    {record record' : EvaluationRecord} {receipt receipt' : Receipt}
    (h : Traced rt codec log record receipt) (h' : Traced rt codec log record' receipt')
    (hquestion : receipt.question = receipt'.question) :
    record.variantKey = record'.variantKey ∧ record.reason = record'.reason ∧
      record.value = record'.value := by
  obtain ⟨older, newer, e, subject, hlog, hchosen⟩ := h
  obtain ⟨older', newer', e', subject', hlog', hchosen'⟩ := h'
  simp only [Receipt.question, Prod.mk.injEq] at hquestion
  obtain ⟨horg, henvironment, hflag, hrevision, hcontext⟩ := hquestion
  obtain ⟨flagKeys, hop⟩ := hchosen.evaluates
  obtain ⟨flagKeys', hop'⟩ := hchosen'.evaluates
  have he : e ∈ log := by
    rw [hlog]
    exact List.mem_append_right _ List.mem_cons_self
  have he' : e' ∈ log := by
    rw [hlog']
    exact List.mem_append_right _ List.mem_cons_self
  -- The receipts carry the hash of their contexts.
  have halike : subject.context.Alike rt subject'.context := by
    rw [hchosen.contextHash, hchosen'.contextHash, hhashed.carried e he _ _ hop,
      hhashed.carried e' he' _ _ hop'] at hcontext
    have hasked : Asked log subject.context := ⟨e, he, subject, flagKeys, hop, rfl⟩
    have hasked' : Asked log subject'.context := ⟨e', he', subject', flagKeys', hop', rfl⟩
    have hwire := hhashed.collisionFree _ _ hasked hasked' (contextHash_inj hcontext)
    exact hhashed.determined _ _ hasked hasked' (Bytes.data_inj hwire)
  -- They carry the number of publications there were, so both used the same one.
  have horg' : subject.organizationId = subject'.organizationId := by
    rw [← hchosen.organizationId, ← hchosen'.organizationId, horg]
  have henvironment' : subject.environmentKey = subject'.environmentKey := by
    rw [← hchosen.environmentKey, ← hchosen'.environmentKey, henvironment]
  obtain ⟨definition, document, decoded, variant, hhead, hencode, hdecode, hlength, hchoose, hkey,
    hvalue⟩ := hchosen.uses
  obtain ⟨definition', document', decoded', variant', hhead', hencode', hdecode', hlength',
    hchoose', hkey', hvalue'⟩ := hchosen'.uses
  rw [← horg', ← henvironment', ← hflag] at hhead' hlength'
  have hrevisions : ((publications subject.organizationId receipt.flagKey subject.environmentKey
      (LensoFlags.history older)).length : Int) = (publications subject.organizationId
        receipt.flagKey subject.environmentKey (LensoFlags.history older')).length := by
    apply Decimal.toString_inj
    rw [← hlength, ← hlength', ← hchosen.rulesetRevision, ← hchosen'.rulesetRevision, hrevision]
  have holder : older <:+ log := ⟨newer ++ [e], by rw [hlog, List.append_assoc]; rfl⟩
  have holder' : older' <:+ log := ⟨newer' ++ [e'], by rw [hlog', List.append_assoc]; rfl⟩
  have hsame := suffix_eq (publications_suffix holder _ _ _) (publications_suffix holder' _ _ _)
    (Int.ofNat_inj.mp hrevisions)
  rw [hsame, hhead', Option.some.injEq] at hhead
  subst hhead
  cases hencode.symm.trans hencode'
  cases hdecode.symm.trans hdecode'
  have hchoices := chooseVariant_alike halike subject.organizationId subject.environmentKey
    receipt.flagKey decoded
  change chooseVariant rt _ _ _ subject.targetingKey subject.attributes _ =
    chooseVariant rt _ _ _ subject'.targetingKey subject'.attributes _ at hchoices
  rw [← horg', ← henvironment', ← hflag] at hchoose'
  rw [hchoose, hchoose'] at hchoices
  obtain ⟨rfl, hreason⟩ := Prod.mk.inj (Except.ok.inj hchoices)
  exact ⟨by rw [hkey, hkey'], hreason, by rw [hvalue, hvalue']⟩

/-! ## Answers -/

/-- The command rows hold the responses of the calls that took effect. -/
theorem Commits.commands {log : List (Serial.Entry Call Draws Answer)} (h : Commits rt log c)
    {row : CommandRow codec} (hrow : row ∈ c.commands) :
    ∃ e ∈ log, ∃ response, e.value = .fresh response ∧ e.call.commandKey = row.key ∧
      response.kind = e.call.operation.kind ∧ encodeResponse codec response = some row.response := by
  induction h with
  | nil => exact absurd hrow List.not_mem_nil
  | @cons log e c c' σ hold hσ hattempt ih =>
    have hold' : row ∈ c.commands → ∃ e' ∈ e :: log, ∃ response, e'.value = .fresh response ∧
        e'.call.commandKey = row.key ∧ response.kind = e'.call.operation.kind ∧
        encodeResponse codec response = some row.response := by
      intro hrow
      obtain ⟨e', he', hrest⟩ := ih hrow
      exact ⟨e', List.mem_cons_of_mem _ he', hrest⟩
    rcases attempt_eq_ok hattempt with ⟨_, -, rfl, -⟩ | ⟨response, hvalue, -, hfresh⟩
    · exact hold' hrow
    · obtain ⟨c₁, stored, heffect, hstored, rfl⟩ := fresh_effect hfresh
      rcases List.mem_cons.mp hrow with rfl | hrow
      · exact ⟨e, List.mem_cons_self, response, hvalue, rfl, heffect.kind, hstored⟩
      · rw [heffect.commands] at hrow
        exact hold' hrow

theorem Commits.formed {log : List (Serial.Entry Call Draws Answer)} (h : Commits rt log c)
    {e : Serial.Entry Call Draws Answer} (he : e ∈ log) {response : Response}
    (hvalue : e.value = .fresh response) : ∀ record ∈ response.records, record.Formed rt := by
  obtain ⟨older, newer, c₀, c₁, σ, -, -, -, hattempt⟩ := h.of_mem he
  rw [hvalue] at hattempt
  rcases attempt_eq_ok hattempt with ⟨_, hreplayed, -, -⟩ | ⟨_, hresponse, -, hfresh⟩
  · cases hreplayed
  · cases hresponse
    obtain ⟨c₂, stored, heffect, -, -⟩ := fresh_effect hfresh
    exact heffect.formed

/-- Under an exact codec, every answer is the response of a call that took effect. -/
theorem Commits.answers {log : List (Serial.Entry Call Draws Answer)} (h : Commits rt log c)
    (hexact : codec.ExactEvaluations rt) {e : Serial.Entry Call Draws Answer} (he : e ∈ log) :
    ∃ e' ∈ log, e'.value = .fresh e.value.response := by
  obtain ⟨older, newer, c₀, c₁, σ, hlog, hold, -, hattempt⟩ := h.of_mem he
  rcases attempt_eq_ok hattempt with ⟨response, hvalue, -, hreplay⟩ | ⟨response, hvalue, -, -⟩
  · unfold replay at hreplay
    cases hrow : c₀.command e.call.commandKey with
    | none =>
      rw [hrow] at hreplay
      cases hreplay
    | some row =>
      rw [hrow] at hreplay
      obtain ⟨e', he', response', hvalue', hkey, hkind, hstored⟩ :=
        hold.commands (Table.mem_of_lookup hrow)
      have hname : e'.call.operation.name = e.call.operation.name := by
        have hkeys : e'.call.commandKey = e.call.commandKey := hkey.trans (Table.key_of_lookup hrow)
        exact (CommandKey.mk.inj hkeys).2.2.1
      have hdecode := hexact.decodeResponse (hold.formed he' hvalue') hstored
      rw [hkind, Operation.kind_eq_of_name hname] at hdecode
      simp only [hdecode] at hreplay
      split at hreplay
      · cases hreplay
      · cases hreplay
        refine ⟨e', ?_, by rw [hvalue', hvalue]; rfl⟩
        rw [hlog]
        exact List.mem_append_right _ (List.mem_cons_of_mem _ he')
  · exact ⟨e, he, by rw [hvalue]; rfl⟩

end Abstract

/-- Receipts that say the same was asked have the same outcome, and so have the records of them in
the answers. -/
def Reproducible {Row Question : Type} (question : Row → Question) (outcome : Row → String × String)
    (receiptId : Row → String) (rows : List Row) (answered : Answer → Prop) : Prop :=
  ∀ row ∈ rows, ∀ row' ∈ rows, question row = question row' →
    outcome row = outcome row' ∧
      ∀ answer answer', answered answer → answered answer' →
        ∀ record ∈ answer.response.records, ∀ record' ∈ answer'.response.records,
          record.receiptId = receiptId row → record'.receiptId = receiptId row' →
            record.value = record'.value

theorem Abstract.Commits.reproducible {codec : Codec} {rt : Runtime} {c : Abstract.Store codec}
    {log : List (Serial.Entry Call Draws Answer)} (h : Abstract.Commits rt log c)
    (hhashed : Hashed rt log) {answered : Answer → Prop}
    (hanswered : ∀ answer, answered answer → ∃ e ∈ log, e.value = .fresh answer.response) :
    Reproducible Abstract.Receipt.question Abstract.Receipt.outcome Abstract.Receipt.receiptId
      c.receipts answered := by
  obtain ⟨hreceipts, hrecords⟩ := h.traced
  have htraced : ∀ answer, answered answer → ∀ record ∈ answer.response.records,
      ∀ receipt ∈ c.receipts, record.receiptId = receipt.receiptId →
        Abstract.Traced rt codec log record receipt := by
    intro answer hanswer record hrecord receipt hreceipt hid
    obtain ⟨e, he, hvalue⟩ := hanswered answer hanswer
    obtain ⟨receipt', hreceipt', hchosen⟩ := hrecords e he _ hvalue record hrecord
    have hid' : receipt'.receiptId = receipt.receiptId := by
      obtain ⟨_, _, _, _, -, hrow⟩ := hchosen
      rw [hrow.receiptId, hid]
    rwa [List.inj_on_of_nodup_map h.run.sound.receiptIds hreceipt' hreceipt hid'] at hchosen
  intro receipt hm receipt' hm' hquestion
  constructor
  · obtain ⟨record, hrecord⟩ := hreceipts receipt hm
    obtain ⟨record', hrecord'⟩ := hreceipts receipt' hm'
    obtain ⟨hkey, hreason, -⟩ := hrecord.same hhashed hrecord' hquestion
    obtain ⟨_, _, _, _, -, hrow⟩ := hrecord
    obtain ⟨_, _, _, _, -, hrow'⟩ := hrecord'
    unfold Abstract.Receipt.outcome
    rw [hrow.variantKey, hrow'.variantKey, hrow.reason, hrow'.reason, hkey, hreason]
  · intro answer answer' hanswer hanswer' record hrecord record' hrecord' hid hid'
    exact ((htraced answer hanswer record hrecord receipt hm hid).same hhashed
      (htraced answer' hanswer' record' hrecord' receipt' hm' hid') hquestion).2.2

/-- Rows that stand for reproducible ones are reproducible. -/
theorem Reproducible.transfer {Row Row' Question Question' : Type} {question : Row → Question}
    {question' : Row' → Question'} {outcome : Row → String × String}
    {outcome' : Row' → String × String} {receiptId : Row → String} {receiptId' : Row' → String}
    {rows : List Row} {rows' : List Row'} {answered : Answer → Prop} {R : Row' → Row → Prop}
    (h : Reproducible question outcome receiptId rows answered)
    (hrows : ∀ row' ∈ rows', ∃ row ∈ rows, R row' row)
    (hquestion : ∀ a' b' a b, R a' a → R b' b → question' a' = question' b' →
      question a = question b)
    (houtcome : ∀ a' a, R a' a → outcome' a' = outcome a)
    (hid : ∀ a' a, R a' a → receiptId' a' = receiptId a) :
    Reproducible question' outcome' receiptId' rows' answered := by
  intro a' ha' b' hb' hsame
  obtain ⟨a, ha, hR⟩ := hrows a' ha'
  obtain ⟨b, hb, hS⟩ := hrows b' hb'
  rw [houtcome a' a hR, houtcome b' b hS, hid a' a hR, hid b' b hS]
  exact h a ha b hb (hquestion a' b' a b hR hS hsame)

/-! ## Both backends -/

def D1.ReceiptRow.question (row : D1.ReceiptRow) : String × String × String × String × String :=
  (row.organizationId, row.environmentKey, row.flagKey, row.record.rulesetRevision,
    row.record.contextHash)

def D1.ReceiptRow.outcome (row : D1.ReceiptRow) : String × String :=
  (row.record.variantKey, row.record.reason)

def Postgres.ReceiptRow.question (row : Postgres.ReceiptRow) :
    String × String × String × Int × String :=
  (row.organizationId, row.environmentKey, row.flagKey, row.rulesetRevision, row.contextHash)

def Postgres.ReceiptRow.outcome (row : Postgres.ReceiptRow) : String × String :=
  (row.variantKey, row.reason)

variable {codec : Codec} {describe : Postgres.DbError → String} {rt : Runtime}

/-- A caller got the answer. -/
def D1.State.Answered (s : D1.State codec) (answer : Answer) : Prop :=
  ∃ i a, s.attempts i = some a ∧ a.phase = .returned (.ok answer)

def Postgres.State.Answered (s : Postgres.State codec describe rt) (answer : Answer) : Prop :=
  ∃ i t, s.sessions i = some t ∧ t.outcome = some (.ok answer)

/-- The answer does not depend on how the response column reads back: the call took effect, or the
codec is exact. -/
def Answer.Direct (codec : Codec) (rt : Runtime) (answer : Answer) : Prop :=
  ∀ response, answer = .replayed response → codec.ExactEvaluations rt

theorem D1.Reachable.reproducible {s : D1.State codec} (h : D1.Reachable rt s)
    (hhashed : Hashed rt s.log) :
    Reproducible D1.ReceiptRow.question D1.ReceiptRow.outcome D1.ReceiptRow.receiptId
      s.tables.receipts fun answer => s.Answered answer ∧ answer.Direct codec rt := by
  have hi := D1.Inv.reachable h
  obtain ⟨c, hr, hlogged⟩ := hi.represented
  have hanswered : ∀ answer, s.Answered answer ∧ answer.Direct codec rt →
      ∃ e ∈ s.log, e.value = .fresh answer.response := by
    rintro answer ⟨⟨i, a, ha, hphase⟩, hdirect⟩
    cases answer with
    | fresh response => exact ⟨_, hi.fresh_logged ha hphase, rfl⟩
    | replayed response =>
      have hexact := hdirect response rfl
      obtain ⟨e, he, -, -, -, -, -, -, hsame⟩ := hi.ok_logged ha hphase
      obtain ⟨e', he', hvalue⟩ := hlogged.commits.answers hexact he
      rw [hsame (hexact.kept (hlogged.commits.formed he' hvalue))]
      exact ⟨e', he', hvalue⟩
  refine (hlogged.commits.reproducible hhashed hanswered).transfer
    (R := fun row receipt => row = D1.ReceiptRow.of receipt) ?_ ?_ ?_ ?_
  · intro row hrow
    rw [hr.receipts] at hrow
    obtain ⟨receipt, hreceipt, rfl⟩ := List.mem_map.mp hrow
    exact ⟨receipt, hreceipt, rfl⟩
  · -- D1 keeps the revision as text, which determines the number.
    rintro _ _ a b rfl rfl hquestion
    simp only [D1.ReceiptRow.question, D1.ReceiptRow.of, D1.ReceiptFields.of,
      Prod.mk.injEq] at hquestion
    obtain ⟨horg, henvironment, hflag, hrevision, hcontext⟩ := hquestion
    rw [Abstract.Receipt.question, Abstract.Receipt.question, horg, henvironment, hflag,
      Decimal.toString_inj hrevision, hcontext]
  · rintro _ receipt rfl
    rfl
  · rintro _ receipt rfl
    rfl

theorem Postgres.Reachable.reproducible {s : Postgres.State codec describe rt}
    (h : Postgres.Reachable s) (hhashed : Hashed rt s.log) :
    Reproducible Postgres.ReceiptRow.question Postgres.ReceiptRow.outcome
      Postgres.ReceiptRow.receiptId s.store.receipts
      fun answer => s.Answered answer ∧ answer.Direct codec rt := by
  have hi := Postgres.Inv.reachable h
  obtain ⟨c, hc⟩ := hi.content
  have hanswered : ∀ answer, s.Answered answer ∧ answer.Direct codec rt →
      ∃ e ∈ s.log, e.value = .fresh answer.response := by
    rintro answer ⟨⟨i, t, ht, hout⟩, hdirect⟩
    have he := hi.locking.returned i t answer ht hout
    cases answer with
    | fresh response => exact ⟨_, he, rfl⟩
    | replayed response => exact hc.logged.commits.answers (hdirect response rfl) he
  refine (hc.logged.commits.reproducible hhashed hanswered).transfer
    (R := fun row receipt => receipt = Postgres.ReceiptRow.receipt rt row) ?_ ?_ ?_ ?_
  · intro row hrow
    refine ⟨_, ?_, rfl⟩
    rw [← hc.represents.rows.receipts]
    exact List.mem_map_of_mem hrow
  · rintro a b _ _ rfl rfl hquestion
    exact hquestion
  · rintro row _ rfl
    rfl
  · rintro row _ rfl
    rfl

/-- In every reachable state of either backend, two receipts with one organization, environment,
flag, ruleset revision and context hash have one variant and one reason, and the answers that hold
their evaluations have one value, whichever calls made them and whatever was done in between; a
replay, which is what its row reads back as, if stored JSON decodes to what was encoded. -/
theorem evaluations_reproducible :
    (∀ s : D1.State codec, D1.Reachable rt s → Hashed rt s.log →
      Reproducible D1.ReceiptRow.question D1.ReceiptRow.outcome D1.ReceiptRow.receiptId
        s.tables.receipts fun answer => s.Answered answer ∧ answer.Direct codec rt) ∧
    ∀ s : Postgres.State codec describe rt, Postgres.Reachable s → Hashed rt s.log →
      Reproducible Postgres.ReceiptRow.question Postgres.ReceiptRow.outcome
        Postgres.ReceiptRow.receiptId s.store.receipts
        fun answer => s.Answered answer ∧ answer.Direct codec rt :=
  ⟨fun _ h hhashed => h.reproducible hhashed, fun _ h hhashed => h.reproducible hhashed⟩

/-- A flag that is evaluated twice for one context, by different callers, the second time in a
batch. -/
def repeatedCalls : List Call :=
  [⟨⟨"caller", "actor", "key-1", [1]⟩, .createFlag "org" "flag" "Flag" none "boolean"⟩,
    ⟨⟨"caller", "actor", "key-2", [2]⟩, .putEnvironment "org" "prod" "Production" none⟩,
    ⟨⟨"caller", "actor", "key-3", [3]⟩, .publishRuleset "org" "flag" "prod" 1 1
      ⟨[⟨"on", ⟨"boolean", some true, none, none, none, none⟩⟩], [], [], "on"⟩⟩,
    ⟨⟨"caller", "actor", "key-4", [4]⟩, .evaluate "org" "prod" "flag" "user-1" []
      (contextHash (.atEpoch []) ⟨[], "user-1"⟩)⟩,
    ⟨⟨"console", "admin", "key-5", [5]⟩, .evaluateBatch "org" "prod" ["flag"] "user-1" []
      (contextHash (.atEpoch []) ⟨[], "user-1"⟩)⟩]

theorem repeatedCalls_hashed {log : List (Serial.Entry Call Draws Answer)}
    (h : ∀ e ∈ log, e.call ∈ repeatedCalls) : Hashed (.atEpoch []) log := by
  have hlawful : ∀ call ∈ repeatedCalls, call.operation.Lawful (.atEpoch []) := by
    simp only [repeatedCalls, List.forall_mem_cons]
    exact ⟨⟨.boolean, rfl⟩, fun _ h => absurd h.symm (Option.some_ne_none _), ⟨by decide, by decide⟩,
      rfl, ⟨rfl, by decide, by decide⟩, fun _ h => absurd h List.not_mem_nil⟩
  have hcontext : ∀ context, Asked log context → context = ⟨[], "user-1"⟩ := by
    rintro _ ⟨e, he, subject, flagKeys, hop, rfl⟩
    have hcalls : ∀ call ∈ repeatedCalls, Abstract.evaluates call.operation =
        some (subject, flagKeys) → subject.context = ⟨[], "user-1"⟩ := by
      simp only [repeatedCalls, List.forall_mem_cons]
      refine ⟨?_, ?_, ?_, ?_, ?_, fun _ h => absurd h List.not_mem_nil⟩ <;> intro h <;> cases h
      · rfl
      · rfl
    exact hcalls _ (h e he) hop
  refine ⟨fun e he _ _ hop => (hlawful _ (h e he)).carries hop, ?_, ?_⟩
  · intro context context' hasked hasked' _
    rw [hcontext _ hasked, hcontext _ hasked']
  · intro context context' hasked hasked' _
    rw [hcontext _ hasked, hcontext _ hasked']
    exact ⟨rfl, fun _ => rfl⟩

theorem evaluations_reproducible_repeated :
    (∃ s : D1.State Codec.verbatim, D1.Reachable (.atEpoch []) s ∧
      (∃ question, s.tables.receipts.map D1.ReceiptRow.question = [question, question]) ∧
      Reproducible D1.ReceiptRow.question D1.ReceiptRow.outcome D1.ReceiptRow.receiptId
        s.tables.receipts
        fun answer => s.Answered answer ∧ answer.Direct Codec.verbatim (.atEpoch [])) ∧
    ∃ s : Postgres.State Codec.verbatim (fun _ => "") (.atEpoch []), Postgres.Reachable s ∧
      (∃ question, s.store.receipts.map Postgres.ReceiptRow.question = [question, question]) ∧
      Reproducible Postgres.ReceiptRow.question Postgres.ReceiptRow.outcome
        Postgres.ReceiptRow.receiptId s.store.receipts
        fun answer => s.Answered answer ∧ answer.Direct Codec.verbatim (.atEpoch []) := by
  obtain ⟨s, hs, htables, hcalls⟩ :=
    @D1.exists_calls Codec.verbatim (.atEpoch []) repeatedCalls (by decide)
  obtain ⟨t, ht, hstore, hcalls'⟩ :=
    @Postgres.exists_calls Codec.verbatim (fun _ => "") (.atEpoch []) repeatedCalls
  obtain ⟨hd1, hpostgres⟩ := @evaluations_reproducible Codec.verbatim (fun _ => "") (.atEpoch [])
  exact ⟨⟨s, hs, ⟨_, by rw [htables]; rfl⟩, hd1 s hs (repeatedCalls_hashed hcalls)⟩,
    t, ht, ⟨_, by rw [hstore]; rfl⟩, hpostgres t ht (repeatedCalls_hashed hcalls')⟩

end LensoFlags
