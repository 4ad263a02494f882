import LensoFlags.Store

/-!
# What is read back

A retry is answered with what the response column reads back as. The numbers of a value can come back
as others, the rest of a response comes back as it was written.

Results:
1. `Retold.kind`, `Retold.eq`: what is read back is of the same kind, and the same if it is kept.
2. `restored_of_plain`: responses without values come back as they are.
3. `Retold.records`, `Retold.outline`: evaluations come back one by one, and over a steady codec they
   are the same but for the numbers of their values.
-/

namespace LensoFlags

/-! ## Outlines -/

/-- A value without its double and its JSON. -/
def ValueRecord.outline (value : ValueRecord) : ValueRecord :=
  { value with doubleValue := none, jsonValue := none }

def VariantRecord.outline (variant : VariantRecord) : VariantRecord :=
  { variant with value := variant.value.outline }

def RulesetDefinition.outline (definition : RulesetDefinition) : RulesetDefinition :=
  { definition with variants := definition.variants.map VariantRecord.outline }

def EvaluationRecord.outline (record : EvaluationRecord) : EvaluationRecord :=
  { record with value := record.value.outline }

theorem EvaluationRecord.outline_fields {record record' : EvaluationRecord}
    (h : record.outline = record'.outline) :
    record.flagKey = record'.flagKey ∧ record.environmentKey = record'.environmentKey ∧
      record.rulesetRevision = record'.rulesetRevision ∧ record.variantKey = record'.variantKey ∧
      record.reason = record'.reason ∧ record.receiptId = record'.receiptId ∧
      record.value.outline = record'.value.outline := by
  simp only [outline, EvaluationRecord.mk.injEq] at h
  obtain ⟨hflag, henvironment, hvariant, hvalue, hreason, hrevision, hreceipt, -⟩ := h
  exact ⟨hflag, henvironment, hrevision, hvariant, hreason, hreceipt, hvalue⟩

def Response.outline : Response → Response
  | .evaluation record => .evaluation record.outline
  | .evaluations records => .evaluations (records.map EvaluationRecord.outline)
  | response => response

/-- What the columns are read back as is what was written, but for doubles and JSON. -/
structure Codec.Steady (codec : Codec) : Prop where
  definition : ∀ {d d' doc}, codec.encodeDefinition d = some doc →
    codec.decodeDefinition doc = some d' → d'.outline = d.outline
  evaluation : ∀ {r r' doc}, codec.encodeEvaluation r = some doc →
    codec.decodeEvaluation doc = some r' → r'.outline = r.outline

theorem Codec.verbatim_steady : Codec.verbatim.Steady where
  definition hencode hdecode := by
    rw [Option.some.inj (hencode.trans hdecode)]
  evaluation hencode hdecode := by
    rw [Option.some.inj (hencode.trans hdecode)]

/-! ## Responses -/

variable {codec : Codec} {original told : Response}

/-- The response as it was made, or as its stored form is read back. -/
inductive Retold (codec : Codec) (original : Response) : Response → Prop
  | made : Retold codec original original
  | read {stored : Stored codec} {told : Response} :
      encodeResponse codec original = some stored →
      decodeResponse codec original.kind stored = some told → Retold codec original told

/-- The response is read back as it was made. -/
def Response.Restored (codec : Codec) (response : Response) : Prop :=
  ∀ stored, encodeResponse codec response = some stored →
    decodeResponse codec response.kind stored = some response

theorem Response.Restored.kept (h : original.Restored codec) : original.Kept codec := by
  intro stored told hstored htold
  rw [h stored hstored] at htold
  exact (Option.some.inj htold).symm

/-- The responses of other operations than evaluations. -/
def Kind.plain : Kind → Bool
  | .evaluation => false
  | .evaluations => false
  | _ => true

theorem restored_of_plain (h : original.kind.plain = true) : original.Restored codec := by
  intro stored hstored
  cases original with
  | evaluation => cases h
  | evaluations => cases h
  | _ =>
    cases hstored
    rfl

theorem Retold.eq (h : Retold codec original told) (hkept : original.Kept codec) :
    told = original := by
  cases h with
  | made => rfl
  | read hstored htold => exact hkept _ _ hstored htold

theorem decodeResponse_kind {kind : Kind} {stored : Stored codec}
    (h : decodeResponse codec kind stored = some told) : told.kind = kind := by
  cases kind <;> cases stored <;> try (cases h; done)
  · cases h
    rfl
  · cases h
    rfl
  · cases h
    rfl
  · obtain ⟨_, -, rfl⟩ := Option.map_eq_some_iff.mp h
    rfl
  · obtain ⟨_, -, rfl⟩ := Option.map_eq_some_iff.mp h
    rfl

theorem Retold.kind (h : Retold codec original told) : told.kind = original.kind := by
  cases h with
  | made => rfl
  | read _ htold => exact decodeResponse_kind htold

/-- Other responses than evaluations are read back as they were made. -/
theorem Retold.eq_of_plain (h : Retold codec original told) (hplain : told.kind.plain = true) :
    told = original :=
  h.eq (restored_of_plain (h.kind ▸ hplain)).kept

/-! ## Evaluations -/

/-- The record as it was made, or as its stored form is read back. -/
def EvaluationRecord.Retold (codec : Codec) (record told : EvaluationRecord) : Prop :=
  told = record ∨ ∃ document, codec.encodeEvaluation record = some document ∧
    codec.decodeEvaluation document = some told

theorem EvaluationRecord.Retold.outline {record told : EvaluationRecord}
    (h : record.Retold codec told) (hsteady : codec.Steady) : told.outline = record.outline := by
  rcases h with rfl | ⟨_, hencode, hdecode⟩
  · rfl
  · exact hsteady.evaluation hencode hdecode

/-- The records of a response are read back one by one. -/
theorem Retold.records (h : Retold codec original told) :
    List.Forall₂ (EvaluationRecord.Retold codec) original.records told.records := by
  cases h with
  | made => exact List.forall₂_same.mpr fun _ _ => .inl rfl
  | read hstored htold =>
    cases original with
    | evaluation record =>
      obtain ⟨document, hdocument, rfl⟩ := Option.map_eq_some_iff.mp hstored
      obtain ⟨record', hrecord, rfl⟩ := Option.map_eq_some_iff.mp htold
      exact .cons (.inr ⟨document, hdocument, hrecord⟩) .nil
    | evaluations records =>
      obtain ⟨documents, hdocuments, rfl⟩ := Option.map_eq_some_iff.mp hstored
      obtain ⟨records', hrecords, rfl⟩ := Option.map_eq_some_iff.mp htold
      have hread := optionAll_eq_some.mp hdocuments
      have hread' := optionAll_eq_some.mp hrecords
      change List.Forall₂ _ records records'
      clear hdocuments hrecords hstored htold
      induction hread generalizing records' with
      | nil =>
        cases hread'
        exact .nil
      | cons hdocument _ ih =>
        cases hread' with
        | cons hrecord hrest => exact .cons (.inr ⟨_, hdocument, hrecord⟩) (ih _ hrest)
    | _ =>
      cases hstored
      cases htold
      exact .nil

/-- What is read back is what was written, but for the doubles and the JSON of values. -/
theorem Retold.outline (h : Retold codec original told) (hsteady : codec.Steady) :
    told.outline = original.outline := by
  by_cases hplain : told.kind.plain = true
  · rw [h.eq_of_plain hplain]
  · have hrecords := h.records
    have hkind := h.kind
    cases told with
    | evaluation record' =>
      cases original with
      | evaluation record =>
        cases hrecords with
        | cons hrecord _ => exact congrArg Response.evaluation (hrecord.outline hsteady)
      | _ => cases hkind
    | evaluations records' =>
      cases original with
      | evaluations records =>
        refine congrArg Response.evaluations ?_
        rw [← List.forall₂_eq_eq_eq, List.forall₂_map_left_iff, List.forall₂_map_right_iff]
        exact hrecords.flip.imp fun _ _ hrecord =>
          EvaluationRecord.Retold.outline hrecord hsteady
      | _ => cases hkind
    | _ => exact absurd rfl hplain

/-- What is read back of the definition is the definition, and what is read back of the values of its
variants are these values. -/
structure RulesetDefinition.Lossless (codec : Codec) (definition : RulesetDefinition) : Prop where
  decoded : ∀ document decoded, codec.encodeDefinition definition = some document →
    codec.decodeDefinition document = some decoded → decoded = definition
  values : ∀ variant ∈ definition.variants, ∀ record told : EvaluationRecord,
    record.value = variant.value → record.Retold codec told → told.value = variant.value

theorem Codec.verbatim_lossless (definition : RulesetDefinition) :
    definition.Lossless Codec.verbatim where
  decoded _ _ hencode hdecode := (Option.some.inj (hencode.trans hdecode)).symm
  values _ _ record told hvalue hretold := by
    rcases hretold with rfl | ⟨_, hencode, hdecode⟩
    · exact hvalue
    · rw [← Option.some.inj (hencode.trans hdecode), hvalue]

end LensoFlags
