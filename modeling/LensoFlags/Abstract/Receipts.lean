import LensoFlags.Abstract.Sound

/-!
# Receipts and responses

An evaluation answers with records and keeps a receipt of each. The records are filed in the stored
response of the command, at their positions.

Results:
1. `Run.receipted`: the receipts after a history are those of the filed records, in their order.
2. `Run.paired`: each filed record has one receipt, and each receipt is of one filed record.
-/

namespace LensoFlags

/-- The evaluation documents of a stored response, by position. -/
def Stored.documents {codec : Codec} : Stored codec → List codec.Evaluation
  | .evaluation document => [document]
  | .evaluations documents => documents
  | _ => []

/-- The documents of a response are those of its records. -/
theorem encodeResponse_records {codec : Codec} {response : Response} {stored : Stored codec}
    (h : encodeResponse codec response = some stored) :
    List.Forall₂ (fun record document => codec.encodeEvaluation record = some document)
      response.records stored.documents := by
  cases response with
  | flag => cases h; exact .nil
  | environment => cases h; exact .nil
  | publish => cases h; exact .nil
  | evaluation record =>
    obtain ⟨document, hdocument, rfl⟩ := Option.map_eq_some_iff.mp h
    exact .cons hdocument .nil
  | evaluations records =>
    obtain ⟨documents, hdocuments, rfl⟩ := Option.map_eq_some_iff.mp h
    exact optionAll_eq_some.mp hdocuments

namespace Abstract

variable {codec : Codec} {rt : Runtime} {σ : Stamp} {c c' : Store codec} {call : Call}
  {response : Response}

/-! ## Filed records -/

/-- A document at its position in the response of a command. -/
structure Filed (codec : Codec) where
  key : CommandKey
  index : ℕ
  document : codec.Evaluation

/-- The documents of a command row, the last position first. -/
def CommandRow.filed (row : CommandRow codec) : List (Filed codec) :=
  (row.response.documents.zipIdx.map fun entry => ⟨row.key, entry.2, entry.1⟩).reverse

def Store.filed (c : Store codec) : List (Filed codec) := c.commands.flatMap CommandRow.filed

/-- The receipt is the one of the record in the document. -/
structure Filed.Describes (filed : Filed codec) (record : EvaluationRecord) (receipt : Receipt) :
    Prop where
  document : codec.encodeEvaluation record = some filed.document
  receiptId : receipt.receiptId = record.receiptId
  caller : receipt.caller = filed.key.caller
  actor : receipt.actor = filed.key.actor
  operation : receipt.operation = filed.key.operation
  evaluationId : receipt.evaluationId =
    evaluationId filed.key.operation filed.key.key filed.index
  flagKey : receipt.flagKey = record.flagKey
  environmentKey : receipt.environmentKey = record.environmentKey
  variantKey : receipt.variantKey = record.variantKey
  reason : receipt.reason = record.reason
  rulesetRevision : toString receipt.rulesetRevision = record.rulesetRevision

def Filed.Receipted (filed : Filed codec) (receipt : Receipt) : Prop :=
  ∃ record, filed.Describes record receipt

/-- The columns that tell evaluations apart. -/
def Receipt.evaluation (receipt : Receipt) : String × String × String × String :=
  (receipt.caller, receipt.actor, receipt.operation, receipt.evaluationId)

def Filed.evaluation (filed : Filed codec) : String × String × String × String :=
  (filed.key.caller, filed.key.actor, filed.key.operation,
    evaluationId filed.key.operation filed.key.key filed.index)

theorem Filed.Receipted.evaluation {filed : Filed codec} {receipt : Receipt}
    (h : filed.Receipted receipt) : filed.evaluation = receipt.evaluation := by
  obtain ⟨record, h⟩ := h
  rw [Filed.evaluation, Receipt.evaluation, h.caller, h.actor, h.operation, h.evaluationId]

theorem Filed.evaluation_inj {filed filed' : Filed codec}
    (h : filed.evaluation = filed'.evaluation) :
    filed.key = filed'.key ∧ (filed.key.operation ≠ "evaluate" → filed.index = filed'.index) := by
  simp only [Filed.evaluation, Prod.mk.injEq] at h
  obtain ⟨hcaller, hactor, hoperation, hid⟩ := h
  rw [hoperation] at hid ⊢
  obtain ⟨hkey, hindex⟩ := evaluationId_inj hid
  exact ⟨CommandKey.ext hcaller hactor hoperation hkey, hindex⟩

theorem mem_filed {row : CommandRow codec} {filed : Filed codec} (h : filed ∈ row.filed) :
    filed.key = row.key ∧ filed.index < row.response.documents.length := by
  rw [CommandRow.filed, List.mem_reverse, List.mem_map] at h
  obtain ⟨⟨document, i⟩, hi, rfl⟩ := h
  exact ⟨rfl, by simpa using (List.mem_zipIdx hi).2.1⟩

/-! ## Receipts of a history -/

/-- The receipts an evaluation adds. -/
theorem receipted_of_evaluated {key : CommandKey} {subject : Subject} {command : Command} {n : ℕ}
    {flagKeys : List String} {results : List (EvaluationRecord × Receipt)}
    {documents : List codec.Evaluation}
    (hresults : List.Forall₂ (Evaluated rt σ c command key.operation subject) (flagKeys.zipIdx n)
      results)
    (hdocuments : List.Forall₂
      (fun record document => codec.encodeEvaluation record = some document) (results.map (·.1))
      documents)
    (hkey : key = command.rowKey key.operation) :
    List.Forall₂ (fun entry result => Filed.Receipted ⟨key, entry.2, entry.1⟩ result.2)
      (documents.zipIdx n) results := by
  induction flagKeys generalizing n results documents with
  | nil =>
    rw [List.zipIdx_nil, List.forall₂_nil_left_iff] at hresults
    subst hresults
    rw [List.map_nil, List.forall₂_nil_left_iff] at hdocuments
    rw [hdocuments]
    exact .nil
  | cons flagKey flagKeys ih =>
    rw [List.zipIdx_cons, List.forall₂_cons_left_iff] at hresults
    obtain ⟨result, results, heval, hresults, rfl⟩ := hresults
    rw [List.map_cons, List.forall₂_cons_left_iff] at hdocuments
    obtain ⟨document, documents, hdocument, hdocuments, rfl⟩ := hdocuments
    refine .cons ⟨result.1, ?_⟩ (ih hresults hdocuments)
    obtain ⟨variant, reason, revision, -, rfl⟩ := heval.choice
    rw [hkey]
    exact ⟨hdocument, rfl, rfl, rfl, rfl, rfl, rfl, rfl, rfl, rfl, rfl⟩

/-- An effect adds the receipts of its response. -/
theorem Effect.receipted (h : Effect rt σ c call response c') {stored : Stored codec}
    (hstored : encodeResponse codec response = some stored) (hash : List UInt8) :
    ∃ receipts, c'.receipts = receipts ++ c.receipts ∧
      List.Forall₂ Filed.Receipted (CommandRow.filed ⟨call.commandKey, hash, stored⟩) receipts := by
  have hdocuments := encodeResponse_records hstored
  -- Other operations answer without records.
  have hnone : response.records = [] →
      List.Forall₂ Filed.Receipted (CommandRow.filed ⟨call.commandKey, hash, stored⟩) [] := by
    intro hrecords
    rw [hrecords, List.forall₂_nil_left_iff] at hdocuments
    rw [CommandRow.filed, hdocuments]
    exact .nil
  cases h with
  | evaluated _ hresults _ hrecords =>
    refine ⟨_, rfl, ?_⟩
    rw [CommandRow.filed, List.forall₂_reverse_iff, List.forall₂_map_left_iff,
      List.forall₂_map_right_iff]
    rw [hrecords] at hdocuments
    exact receipted_of_evaluated (evaluateFrom_eq_ok.mp hresults) hdocuments rfl
  | _ => exact ⟨[], rfl, hnone rfl⟩

theorem Run.receipted {history : List (Call × Response)} (h : Run rt history c) :
    List.Forall₂ Filed.Receipted c.filed c.receipts := by
  induction h with
  | nil => exact .nil
  | cons _ _ _ hfresh ih =>
    obtain ⟨c₁, stored, heffect, hstored, rfl⟩ := fresh_effect hfresh
    obtain ⟨receipts, hreceipts, hnew⟩ := heffect.receipted hstored _
    rw [Store.filed, List.flatMap_cons, heffect.commands, hreceipts]
    exact List.rel_append hnew ih

/-! ## One to one -/

/-- A single evaluation has one document. -/
theorem Sound.documents_le (hs : Sound rt c) {row : CommandRow codec} (hrow : row ∈ c.commands)
    (hname : row.key.operation = "evaluate") : row.response.documents.length ≤ 1 := by
  obtain ⟨operation, response, hop, hkind, hstored⟩ := hs.answered row hrow
  rw [hop] at hname
  have hevaluation : response.kind = .evaluation :=
    hkind.trans (@Operation.kind_eq_of_name operation (.evaluate "" "" "" "" [] "") hname)
  have hlength := (encodeResponse_records hstored).length_eq
  cases response with
  | evaluation record => exact hlength.symm.le
  | _ => cases hevaluation

/-- Documents are those of evaluations. -/
theorem Sound.documents_operation (hs : Sound rt c) {row : CommandRow codec}
    (hrow : row ∈ c.commands) (hne : row.response.documents ≠ []) :
    row.key.operation = "evaluate" ∨ row.key.operation = "evaluate_batch" := by
  obtain ⟨operation, response, hop, hkind, hstored⟩ := hs.answered row hrow
  rw [hop]
  have hrecords : response.records ≠ [] := by
    intro hnil
    have hdocuments := encodeResponse_records hstored
    rw [hnil, List.forall₂_nil_left_iff] at hdocuments
    exact hne hdocuments
  cases operation with
  | evaluate => exact .inl rfl
  | evaluateBatch => exact .inr rfl
  | _ =>
    cases response with
    | evaluation => cases hkind
    | evaluations => cases hkind
    | _ => exact absurd rfl hrecords

/-- No two positions have the same evaluation. -/
theorem Sound.filed_nodup (hs : Sound rt c) : (c.filed.map Filed.evaluation).Nodup := by
  rw [Store.filed, List.map_flatMap, List.nodup_flatMap]
  constructor
  · intro row hrow
    have hmap : row.filed.map Filed.evaluation =
        ((List.range' 0 row.response.documents.length).map fun i => (row.key.caller, row.key.actor,
          row.key.operation, evaluationId row.key.operation row.key.key i)).reverse := by
      rw [CommandRow.filed, List.map_reverse, List.map_map, ← List.zipIdx_map_snd 0, List.map_map]
      rfl
    rw [hmap, List.nodup_reverse]
    refine List.Nodup.map_on (fun i hi j hj heq => ?_) List.nodup_range'
    have hid : evaluationId row.key.operation row.key.key i =
        evaluationId row.key.operation row.key.key j :=
      (Prod.mk.inj (Prod.mk.inj (Prod.mk.inj heq).2).2).2
    by_cases hname : row.key.operation = "evaluate"
    · have hle := hs.documents_le hrow hname
      rw [List.mem_range'_1] at hi hj
      omega
    · exact (evaluationId_inj hid).2 hname
  · refine (List.pairwise_map.mp hs.commandKeys).imp fun {row row'} hne => ?_
    intro key hkey hkey'
    obtain ⟨filed, hfiled, rfl⟩ := List.mem_map.mp hkey
    obtain ⟨filed', hfiled', heq⟩ := List.mem_map.mp hkey'
    rw [← (mem_filed hfiled).1, ← (mem_filed hfiled').1] at hne
    exact hne (Filed.evaluation_inj heq).1.symm

/-- The receipts and the filed records correspond one to one. -/
structure Paired (c : Store codec) : Prop where
  receipt : ∀ filed ∈ c.filed, ∃! receipt, receipt ∈ c.receipts ∧ filed.Receipted receipt
  filed : ∀ receipt ∈ c.receipts, ∃! filed, filed ∈ c.filed ∧ filed.Receipted receipt
  operation : ∀ filed ∈ c.filed,
    filed.key.operation = "evaluate" ∨ filed.key.operation = "evaluate_batch"

theorem Run.paired {history : List (Call × Response)} (h : Run rt history c) : Paired c := by
  obtain ⟨hreceipt, hfiled⟩ := Table.existsUnique_of_forall₂ h.receipted
    (fun _ _ hreceipted => hreceipted.evaluation) h.sound.filed_nodup
  refine ⟨hreceipt, hfiled, fun filed hm => ?_⟩
  obtain ⟨row, hrow, hm⟩ := List.mem_flatMap.mp hm
  obtain ⟨hkey, hindex⟩ := mem_filed hm
  rw [hkey]
  refine h.sound.documents_operation hrow fun hnil => ?_
  rw [hnil] at hindex
  exact absurd hindex (Nat.not_lt_zero _)

end Abstract

end LensoFlags
