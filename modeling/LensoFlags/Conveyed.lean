import LensoFlags.Answers
import LensoFlags.Retold

/-!
# What answers convey

The response of a call that took effect, and what an answer says of it on the wire. A retry says
what the stored form of the response reads back as.

Results:
1. `respond_outline`: responses that are the same but for doubles and JSON are so on the wire.
2. `Conveys.outline`: answers that convey one response agree but for the doubles and the JSON.
3. `Conveys.eq`: they are the same, if the response is kept by its column.
-/

namespace LensoFlags

/-! ## Outlines on the wire -/

/-- A value without its double and its JSON. -/
def PublishedValue.outline (value : PublishedValue) : PublishedValue :=
  { value with doubleValue := none, jsonValue := none }

def EvaluationResponse.outline (item : EvaluationResponse) : EvaluationResponse :=
  { item with value := item.value.outline }

def ServiceResponse.outline : ServiceResponse → ServiceResponse
  | .evaluation item => .evaluation item.outline
  | .evaluations items => .evaluations (items.map EvaluationResponse.outline)
  | response => response

/-- The response on the wire, unless a record of it does not pass `wire_cast`. -/
def Response.respond (platform : Platform) : Response → Option ServiceResponse
  | .flag record => (castFlag platform record).map .flag
  | .environment record => (castEnvironment platform record).map .environment
  | .publish record => (castPublish platform record).map .publish
  | .evaluation record => (castEvaluation platform record).map .evaluation
  | .evaluations records => (optionAll (castEvaluation platform) records).map .evaluations

variable {codec : Codec} {platform : Platform} {kind : Kind} {original told : Response}
  {response response' : ServiceResponse}

theorem kind_of_record {record : kind.Record} (h : original.record kind = some record) :
    original.kind = kind := by
  cases original <;> cases kind <;> first | rfl | cases h

theorem exists_record (h : original.kind = kind) : ∃ record, original.record kind = some record := by
  subst h
  cases original <;> exact ⟨_, rfl⟩

theorem respond_of_record {record : kind.Record} (h : original.record kind = some record) :
    kind.respond platform record = original.respond platform := by
  cases original <;> cases kind <;> cases h <;> rfl

theorem castValue_outline (value : ValueRecord) :
    castValue value.outline = (castValue value).map PublishedValue.outline := by
  unfold castValue ValueRecord.outline
  cases ValueType.ofWire value.valueType <;> rfl

theorem castEvaluation_outline (record : EvaluationRecord) :
    castEvaluation platform record.outline =
      (castEvaluation platform record).map EvaluationResponse.outline := by
  unfold castEvaluation
  rw [show record.outline.value = record.value.outline from rfl, castValue_outline]
  change (timestamp platform record.evaluatedAt).bind _ = _
  cases timestamp platform record.evaluatedAt with
  | none => rfl
  | some evaluatedAt =>
    change (Reason.ofWire record.reason).bind _ = Option.map _ ((Reason.ofWire record.reason).bind _)
    cases Reason.ofWire record.reason with
    | none => rfl
    | some reason => cases castValue record.value <;> rfl

theorem castEvaluations_outline (records : List EvaluationRecord) :
    optionAll (castEvaluation platform) (records.map EvaluationRecord.outline) =
      (optionAll (castEvaluation platform) records).map
        (List.map EvaluationResponse.outline) := by
  induction records with
  | nil => rfl
  | cons record rest ih =>
    rw [List.map_cons, optionAll, optionAll, castEvaluation_outline, ih]
    cases castEvaluation platform record <;> cases optionAll (castEvaluation platform) rest <;> rfl

/-- On the wire a response has the outline of its records. -/
theorem respond_outline (original : Response) :
    original.outline.respond platform =
      (original.respond platform).map ServiceResponse.outline := by
  cases original with
  | flag record =>
    change (castFlag platform record).map _ = ((castFlag platform record).map _).map _
    rw [Option.map_map]
    rfl
  | environment record =>
    change (castEnvironment platform record).map _ = ((castEnvironment platform record).map _).map _
    rw [Option.map_map]
    rfl
  | publish record =>
    change (castPublish platform record).map _ = ((castPublish platform record).map _).map _
    rw [Option.map_map]
    rfl
  | evaluation record =>
    change (castEvaluation platform record.outline).map _ =
      ((castEvaluation platform record).map _).map _
    rw [castEvaluation_outline, Option.map_map, Option.map_map]
    rfl
  | evaluations records =>
    change (optionAll (castEvaluation platform) (records.map EvaluationRecord.outline)).map _ =
      ((optionAll (castEvaluation platform) records).map _).map _
    rw [castEvaluations_outline, Option.map_map, Option.map_map]
    rfl

/-! ## Answers -/

variable (codec platform) in
/-- The answer is the original on the wire, as it was made or as its stored form is read back. -/
def Conveys (original : Response) (response : ServiceResponse) : Prop :=
  ∃ told, Retold codec original told ∧ told.respond platform = some response

/-- The answer is what the call that took effect was to be answered. -/
theorem Conveys.made (h : Conveys codec platform original response)
    (hkept : original.Kept codec) : original.respond platform = some response := by
  obtain ⟨told, hretold, hrespond⟩ := h
  rwa [hretold.eq hkept] at hrespond

theorem Conveys.eq (h : Conveys codec platform original response)
    (h' : Conveys codec platform original response') (hkept : original.Kept codec) :
    response = response' :=
  Option.some.inj ((h.made hkept).symm.trans (h'.made hkept))

/-- Answers that convey one response are the same, but for the doubles and the JSON of values. -/
theorem Conveys.outline (h : Conveys codec platform original response)
    (h' : Conveys codec platform original response') (hsteady : codec.Steady) :
    response.outline = response'.outline := by
  obtain ⟨told, hretold, hrespond⟩ := h
  obtain ⟨told', hretold', hrespond'⟩ := h'
  have houtline := @respond_outline platform told
  rw [hretold.outline hsteady, ← hretold'.outline hsteady, respond_outline, hrespond,
    hrespond'] at houtline
  exact (Option.some.inj houtline).symm

/-- What is read back of a response passes `wire_cast` as the response does. -/
theorem Retold.passes (h : Retold codec original told) (hsteady : codec.Steady)
    (hrespond : original.respond platform = some response) :
    ∃ response', told.respond platform = some response' := by
  have houtline := @respond_outline platform told
  rw [h.outline hsteady, respond_outline, hrespond] at houtline
  obtain ⟨response', hrespond', -⟩ := Option.map_eq_some_iff.mp houtline.symm
  exact ⟨response', hrespond'⟩

/-! ## Requests -/

/-- The context, the environment and the flags that an evaluation asks for. -/
def Request.asked : Request → Option (EvaluationContext × String × List String)
  | .evaluate request => some (request.context, request.environmentKey, [request.flagKey])
  | .evaluateBatch request => some (request.context, request.environmentKey, request.flagKeys)
  | _ => none

section Calls

variable {rt : Runtime} {config : PolicyConfig} {auth : Authorized} {request : Request} {call : Call}

/-- The calls of other requests than evaluations have plain responses. -/
theorem Request.call_plain (h : request.call rt config auth = some (.write call))
    (hasked : request.asked = none) : call.operation.kind.plain = true := by
  have hname := (Request.call_carried h).operation
  cases hoperation : call.operation with
  | evaluate =>
    rw [hoperation] at hname
    cases request <;> first | (cases hasked; done) | simp [Operation.name, Request.operation] at hname
  | evaluateBatch =>
    rw [hoperation] at hname
    cases request <;> first | (cases hasked; done) | simp [Operation.name, Request.operation] at hname
  | _ => rfl

end Calls

end LensoFlags
