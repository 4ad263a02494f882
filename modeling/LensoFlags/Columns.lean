import LensoFlags.Documents
import LensoFlags.Literals
import LensoFlags.Retold

/-!
# JSON columns

A ruleset and a response are written into a column as text, and read from it as a value of their
type. What a column may change are numbers: it can keep their value in other digits, and the digits
are read as the double `serde_json` makes of them.

1. `json_stored`: the value that is read back, number by number.
2. `decode_definition`, `decode_evaluation`: the definition and the response that are read back.
3. `steady_column`, `lossless_of_reread`: all but the numbers of values comes back, and these do if they
   are read as they were written.
4. `isSome_reread`, `decodes_text`: what comes back at all.
-/

namespace LensoFlags

/-! ## Columns -/

/-- How a column keeps a number of a text, and which strings it takes. -/
structure Column where
  keep : Literal → Literal
  takes : String → Bool
  keep_ofInt : ∀ n, keep (.ofInt n) = .ofInt n

/-- A `TEXT` column. -/
def Column.text : Column := ⟨id, fun _ => true, fun _ => rfl⟩

mutual

/-- The column takes a text. -/
def Document.stored (column : Column) : Document → Option Document
  | .null => some .null
  | .bool b => some (.bool b)
  | .number l => some (.number (column.keep l))
  | .string s => if column.takes s then some (.string s) else none
  | .array elements => (Document.storedElements column elements).map .array
  | .object fields => (Document.storedFields column fields).map .object

def Document.storedElements (column : Column) : List Document → Option (List Document)
  | [] => some []
  | d :: ds => (d.stored column).bind fun d => (Document.storedElements column ds).map (d :: ·)

/-- The fields are left in their order, also where a `jsonb` sorts them by name: a struct is read from
any order, and no size depends on it. Only the values of a map tell the order. -/
def Document.storedFields (column : Column) :
    List (String × Document) → Option (List (String × Document))
  | [] => some []
  | (k, d) :: fs =>
      if column.takes k then
        (d.stored column).bind fun d => (Document.storedFields column fs).map ((k, d) :: ·)
      else none

end

section Reread

variable {rt : Runtime} (doubles : Doubles rt) (column : Column)

/-- A number over the column. A double that is not finite is written `null`. -/
def Number.reread (n : Number) : Option Json :=
  match n.literal doubles with
  | none => some .null
  | some l => ((column.keep l).number doubles).map .number

mutual

/-- A value over the column. -/
def Json.reread : Json → Option Json
  | .number n => n.reread doubles column
  | .array elements => (Json.rereadElements elements).map .array
  | .object fields => (Json.rereadFields fields).map .object
  | v => some v

def Json.rereadElements : List Json → Option (List Json)
  | [] => some []
  | v :: vs => v.reread.bind fun v => (Json.rereadElements vs).map (v :: ·)

def Json.rereadFields : List (String × Json) → Option (List (String × Json))
  | [] => some []
  | (k, v) :: fs => v.reread.bind fun v => (Json.rereadFields fs).map ((k, v) :: ·)

end

variable {doubles} {column}

theorem json_number {n : Number} {d : Document}
    (h : ((n.literal doubles).elim .null Document.number).stored column = some d) :
    d.json doubles = n.reread doubles column := by
  unfold Number.reread
  cases hl : n.literal doubles with
  | none =>
    rw [hl] at h
    cases h
    rfl
  | some l =>
    rw [hl] at h
    cases h
    rfl

theorem takes_string {s : String} {d : Document}
    (h : (Document.string s).stored column = some d) : d = .string s := by
  unfold Document.stored at h
  split at h
  · exact (Option.some.inj h).symm
  · cases h

mutual

/-- What is read from the text of a column. -/
theorem json_stored (v : Json) {d : Document} (h : (v.document doubles).stored column = some d) :
    d.json doubles = v.reread doubles column := by
  cases v with
  | null => cases h; rfl
  | bool => cases h; rfl
  | number n => exact json_number h
  | string s =>
    rw [takes_string h]
    rfl
  | array elements =>
    obtain ⟨ds, hds, rfl⟩ := Option.map_eq_some_iff.mp h
    exact congrArg (Option.map Json.array) (json_storedElements elements hds)
  | object fields =>
    obtain ⟨ds, hds, rfl⟩ := Option.map_eq_some_iff.mp h
    exact congrArg (Option.map Json.object) (json_storedFields fields hds)

theorem json_storedElements (vs : List Json) {ds : List Document}
    (h : Document.storedElements column (Json.documentElements doubles vs) = some ds) :
    Document.jsonElements doubles ds = Json.rereadElements doubles column vs := by
  cases vs with
  | nil => cases h; rfl
  | cons v vs =>
    obtain ⟨d, hd, h⟩ := Option.bind_eq_some_iff.mp h
    obtain ⟨ds, hds, rfl⟩ := Option.map_eq_some_iff.mp h
    rw [Document.jsonElements, json_stored v hd, json_storedElements vs hds]
    rfl

theorem json_storedFields (fs : List (String × Json)) {ds : List (String × Document)}
    (h : Document.storedFields column (Json.documentFields doubles fs) = some ds) :
    Document.jsonFields doubles ds = Json.rereadFields doubles column fs := by
  cases fs with
  | nil => cases h; rfl
  | cons f fs =>
    obtain ⟨k, v⟩ := f
    simp only [Json.documentFields, Document.storedFields] at h
    split at h
    · obtain ⟨d, hd, h⟩ := Option.bind_eq_some_iff.mp h
      obtain ⟨ds, hds, rfl⟩ := Option.map_eq_some_iff.mp h
      rw [Document.jsonFields, json_stored v hd, json_storedFields fs hds]
      rfl
    · cases h

end

/-! ### Integers -/

theorem reread_posInt (n : UInt64) :
    Number.reread doubles column (.posInt n) = some (.number (.posInt n)) := by
  unfold Number.reread Number.literal
  simp only [column.keep_ofInt, number_ofInt_of_nonneg n.toNat_lt, UInt64.ofNat_toNat]
  rfl

theorem reread_negInt {n : Int64} (h : n < 0) :
    Number.reread doubles column (.negInt n) = some (.number (.negInt n)) := by
  have hneg : n.toInt < 0 := by simpa using Int64.lt_iff_toInt_lt.mp h
  unfold Number.reread Number.literal
  simp only [column.keep_ofInt, number_ofInt_of_neg hneg n.le_toInt, Int64.ofInt_toInt]
  rfl

/-- What is not negative has no sign to lose. -/
theorem reread_negInt_of_le {n : Int64} (h : ¬n < 0) :
    Number.reread doubles column (.negInt n) = some (.number (.posInt n.toUInt64)) := by
  have hle : 0 ≤ n.toInt := by simpa using Int64.le_iff_toInt_le.mp (Int64.not_lt.mp h)
  have hlt : n.toInt < 2 ^ 63 := n.toInt_lt
  have hnat : (n.toUInt64.toNat : Int) = n.toInt := by
    rw [Int64.toNat_toUInt64_of_le (Int64.not_lt.mp h), Int64.toNatClampNeg]
    omega
  unfold Number.reread Number.literal
  simp only [column.keep_ofInt, ← hnat, number_ofInt_of_nonneg n.toUInt64.toNat_lt,
    UInt64.ofNat_toNat]
  rfl

end Reread

/-! ## Records as values -/

/-- `serde_json::to_value`. The fields of a struct are listed by name. -/
def toValue {α : Type} (f : α → Json) : Option α → Json
  | none => .null
  | some a => f a

def i64Value (n : Int64) : Json :=
  .number (if n < 0 then .negInt n else .posInt n.toUInt64)

def f64Value (x : F64) : Json := if x.isFinite then .number (.float x) else .null

def ValueRecord.toValue (value : ValueRecord) : Json :=
  .object [("boolean_value", LensoFlags.toValue .bool value.booleanValue),
    ("double_value", LensoFlags.toValue f64Value value.doubleValue),
    ("integer_value", LensoFlags.toValue .string value.integerValue),
    ("json_value", LensoFlags.toValue .object value.jsonValue),
    ("string_value", LensoFlags.toValue .string value.stringValue),
    ("value_type", .string value.valueType)]

def VariantRecord.toValue (variant : VariantRecord) : Json :=
  .object [("value", variant.value.toValue), ("variant_key", .string variant.variantKey)]

def TargetingRuleRecord.toValue (rule : TargetingRuleRecord) : Json :=
  .object [("attribute", .string rule.ruleAttribute),
    ("comparison_values", .array (rule.comparisonValues.map .string)),
    ("operator", .string rule.operator),
    ("rule_id", .string rule.ruleId),
    ("variant_key", .string rule.variantKey)]

def RolloutRecord.toValue (item : RolloutRecord) : Json :=
  .object [("basis_points", i64Value item.basisPoints), ("variant_key", .string item.variantKey)]

def RulesetDefinition.toValue (definition : RulesetDefinition) : Json :=
  .object [("fallthrough_variant", .string definition.fallthroughVariant),
    ("percentage_rollout", .array (definition.percentageRollout.map RolloutRecord.toValue)),
    ("targeting_rules", .array (definition.targetingRules.map TargetingRuleRecord.toValue)),
    ("variants", .array (definition.variants.map VariantRecord.toValue))]

def EvaluationRecord.toValue (record : EvaluationRecord) : Json :=
  .object [("environment_key", .string record.environmentKey),
    ("evaluated_at", .string record.evaluatedAt),
    ("flag_key", .string record.flagKey),
    ("reason", .string record.reason),
    ("receipt_id", .string record.receiptId),
    ("ruleset_revision", .string record.rulesetRevision),
    ("value", record.value.toValue),
    ("variant_key", .string record.variantKey)]

/-! ## Records from values -/

/-- A field that may be missing or null. -/
def optionalValue {α : Type} (f : Json → Option α) (name : String) (fields : List (String × Json)) :
    Option (Option α) :=
  match fields.lookup name with
  | none | some .null => some none
  | some v => (f v).map some

section Doubles

variable {rt : Runtime} (doubles : Doubles rt)

def ValueRecord.fromValue (value : Json) : Option ValueRecord := do
  let fields ← value.asObject
  let booleanValue ← optionalValue Json.asBool "boolean_value" fields
  let doubleValue ← optionalValue (Json.asDouble doubles.ofInteger) "double_value" fields
  let integerValue ← optionalValue Json.asString "integer_value" fields
  let jsonValue ← optionalValue Json.asObject "json_value" fields
  let stringValue ← optionalValue Json.asString "string_value" fields
  let valueType ← fieldValue Json.asString "value_type" fields
  return { valueType, booleanValue, stringValue, integerValue, doubleValue, jsonValue }

def VariantRecord.fromValue (value : Json) : Option VariantRecord := do
  let fields ← value.asObject
  let record ← fieldValue (ValueRecord.fromValue doubles) "value" fields
  let variantKey ← fieldValue Json.asString "variant_key" fields
  return { variantKey, value := record }

def TargetingRuleRecord.fromValue (value : Json) : Option TargetingRuleRecord := do
  let fields ← value.asObject
  let ruleAttribute ← fieldValue Json.asString "attribute" fields
  let comparisonValues ← fieldValue (Json.asList Json.asString) "comparison_values" fields
  let operator ← fieldValue Json.asString "operator" fields
  let ruleId ← fieldValue Json.asString "rule_id" fields
  let variantKey ← fieldValue Json.asString "variant_key" fields
  return { ruleId, ruleAttribute, operator, comparisonValues, variantKey }

def RolloutRecord.fromValue (value : Json) : Option RolloutRecord := do
  let fields ← value.asObject
  let basisPoints ← fieldValue Json.asI64 "basis_points" fields
  let variantKey ← fieldValue Json.asString "variant_key" fields
  return { variantKey, basisPoints }

/-- `serde_json::from_value`. -/
def RulesetDefinition.fromValue (value : Json) : Option RulesetDefinition := do
  let fields ← value.asObject
  let fallthroughVariant ← fieldValue Json.asString "fallthrough_variant" fields
  let percentageRollout ←
    fieldValue (Json.asList RolloutRecord.fromValue) "percentage_rollout" fields
  let targetingRules ←
    fieldValue (Json.asList TargetingRuleRecord.fromValue) "targeting_rules" fields
  let variants ← fieldValue (Json.asList (VariantRecord.fromValue doubles)) "variants" fields
  return { variants, targetingRules, percentageRollout, fallthroughVariant }

def EvaluationRecord.fromValue (value : Json) : Option EvaluationRecord := do
  let fields ← value.asObject
  let environmentKey ← fieldValue Json.asString "environment_key" fields
  let evaluatedAt ← fieldValue Json.asString "evaluated_at" fields
  let flagKey ← fieldValue Json.asString "flag_key" fields
  let reason ← fieldValue Json.asString "reason" fields
  let receiptId ← fieldValue Json.asString "receipt_id" fields
  let rulesetRevision ← fieldValue Json.asString "ruleset_revision" fields
  let record ← fieldValue (ValueRecord.fromValue doubles) "value" fields
  let variantKey ← fieldValue Json.asString "variant_key" fields
  return { flagKey, environmentKey, variantKey, value := record, reason, rulesetRevision, receiptId,
           evaluatedAt }

/-- The JSON columns of a backend. -/
def Codec.column (column : Column) : Codec :=
  { Definition := Document
    Evaluation := Document
    encodeDefinition := fun definition => (definition.toValue.document doubles).stored column
    decodeDefinition := fun document =>
      (document.json doubles).bind (RulesetDefinition.fromValue doubles)
    encodeEvaluation := fun record => (record.toValue.document doubles).stored column
    decodeEvaluation := fun document =>
      (document.json doubles).bind (EvaluationRecord.fromValue doubles) }

/-! ## What is read back -/

variable (column : Column)

/-- A double over the column. -/
def F64.reread (x : F64) : Option (Option Number) :=
  if x.isFinite then ((column.keep (doubles.literal x)).number doubles).map some else some none

def ValueRecord.reread (value : ValueRecord) : Option ValueRecord := do
  let doubleValue ← (value.doubleValue.map (F64.reread doubles column)).getD (some none)
  let jsonValue ← (value.jsonValue.map fun fields =>
    (Json.rereadFields doubles column fields).map some).getD (some none)
  return { value with doubleValue := doubleValue.map (Number.toF64 doubles.ofInteger), jsonValue }

def VariantRecord.reread (variant : VariantRecord) : Option VariantRecord :=
  (variant.value.reread doubles column).map fun value => { variant with value }

/-- A definition over the column: its values change, and its doubles can be out of range. -/
def RulesetDefinition.reread (definition : RulesetDefinition) : Option RulesetDefinition :=
  (optionAll (VariantRecord.reread doubles column) definition.variants).map fun variants =>
    { definition with variants }

def EvaluationRecord.reread (record : EvaluationRecord) : Option EvaluationRecord :=
  (record.value.reread doubles column).map fun value => { record with value }

variable {doubles} {column}

theorem reread_string (s : String) :
    (Json.string s).reread doubles column = some (.string s) := rfl

theorem reread_option {α : Type} {f : α → Json} {o : Option α}
    (h : ∀ a, (f a).reread doubles column = some (f a)) :
    (toValue f o).reread doubles column = some (toValue f o) := by
  cases o with
  | none => rfl
  | some a => exact h a

theorem reread_double (o : Option F64) :
    (toValue f64Value o).reread doubles column =
      ((o.map (F64.reread doubles column)).getD (some none)).map (toValue .number) := by
  cases o with
  | none => rfl
  | some x =>
    unfold toValue f64Value F64.reread
    by_cases h : x.isFinite = true
    · simp only [if_pos h, Option.map_some, Option.getD_some, Json.reread, Number.reread,
        Number.literal, Option.map_map]
      rfl
    · simp only [if_neg h, Option.map_some, Option.getD_some, Json.reread]

theorem reread_object (o : Option (List (String × Json))) :
    (toValue .object o).reread doubles column =
      ((o.map fun fields => (Json.rereadFields doubles column fields).map some).getD
        (some none)).map (toValue .object) := by
  cases o with
  | none => rfl
  | some fields =>
    simp only [toValue, Json.reread, Option.map_some, Option.getD_some, Option.map_map]
    rfl

theorem optionalValue_toValue {α β : Type} {f : α → Json} {read : Json → Option β} {g : α → β}
    {name : String} {fields : List (String × Json)} {o : Option α}
    (h : fields.lookup name = some (toValue f o)) (hnull : ∀ a, f a ≠ .null)
    (hread : ∀ a, read (f a) = some (g a)) :
    optionalValue read name fields = some (o.map g) := by
  unfold optionalValue
  rw [h]
  cases o with
  | none => rfl
  | some a =>
    have hne := hnull a
    have hsome := hread a
    change (match some (f a) with | none | some .null => _ | some v => (read v).map some) = _
    generalize f a = v at hne hsome
    cases v with
    | null => exact absurd rfl hne
    | _ => exact congrArg (Option.map some) hsome

/-- A record is read from its fields. -/
theorem fromValue_fields (valueType : String) (booleanValue : Option Bool)
    (stringValue integerValue : Option String) (number : Option Number)
    (jsonValue : Option (List (String × Json))) :
    ValueRecord.fromValue doubles (.object [("boolean_value", toValue .bool booleanValue),
        ("double_value", toValue .number number), ("integer_value", toValue .string integerValue),
        ("json_value", toValue .object jsonValue), ("string_value", toValue .string stringValue),
        ("value_type", .string valueType)]) =
      some { valueType, booleanValue, stringValue, integerValue
             doubleValue := number.map (Number.toF64 doubles.ofInteger), jsonValue } := by
  obtain ⟨fields, hfields⟩ : ∃ fields : List (String × Json), fields =
      [("boolean_value", toValue .bool booleanValue), ("double_value", toValue .number number),
        ("integer_value", toValue .string integerValue), ("json_value", toValue .object jsonValue),
        ("string_value", toValue .string stringValue), ("value_type", .string valueType)] :=
    ⟨_, rfl⟩
  -- The fields stay closed, so that each is looked up by name once.
  have hlookup : ∀ name, fields.lookup name = _ := fun name => by rw [hfields]
  have hbool : optionalValue Json.asBool "boolean_value" fields = some (booleanValue.map id) :=
    optionalValue_toValue (hlookup _) nofun fun _ => rfl
  have hdouble : optionalValue (Json.asDouble doubles.ofInteger) "double_value" fields =
      some (number.map (Number.toF64 doubles.ofInteger)) :=
    optionalValue_toValue (hlookup _) nofun fun _ => rfl
  have hinteger : optionalValue Json.asString "integer_value" fields = some (integerValue.map id) :=
    optionalValue_toValue (hlookup _) nofun fun _ => rfl
  have hjson : optionalValue Json.asObject "json_value" fields = some (jsonValue.map id) :=
    optionalValue_toValue (hlookup _) nofun fun _ => rfl
  have hstring : optionalValue Json.asString "string_value" fields = some (stringValue.map id) :=
    optionalValue_toValue (hlookup _) nofun fun _ => rfl
  have htype : fieldValue Json.asString "value_type" fields = some valueType := by
    unfold fieldValue
    rw [hlookup]
    rfl
  rw [← hfields]
  unfold ValueRecord.fromValue
  simp only [Json.asObject, Option.bind_some, Option.bind_eq_bind, hbool, hdouble, hinteger,
    hjson, hstring, htype, Option.map_id, id]
  rfl

theorem decode_valueRecord (value : ValueRecord) :
    (value.toValue.reread doubles column).bind (ValueRecord.fromValue doubles) =
      value.reread doubles column := by
  have hbool : ∀ o : Option Bool, (toValue .bool o).reread doubles column = some (toValue .bool o) :=
    fun o => reread_option fun _ => rfl
  have hstring : ∀ o : Option String, (toValue .string o).reread doubles column =
      some (toValue .string o) := fun o => reread_option fun _ => rfl
  simp only [ValueRecord.toValue, Json.reread, Json.rereadFields, hbool, hstring, reread_double,
    reread_object, Option.bind_some, Option.map_some, ValueRecord.reread, Option.bind_eq_bind]
  cases (value.doubleValue.map (F64.reread doubles column)).getD (some none) with
  | none => rfl
  | some number =>
    cases (value.jsonValue.map fun fields =>
      (Json.rereadFields doubles column fields).map some).getD (some none) with
    | none => rfl
    | some fields => exact fromValue_fields ..

theorem decode_variant (variant : VariantRecord) :
    (variant.toValue.reread doubles column).bind (VariantRecord.fromValue doubles) =
      variant.reread doubles column := by
  rw [VariantRecord.reread, ← decode_valueRecord]
  simp only [VariantRecord.toValue, Json.reread, Json.rereadFields, Option.bind_some,
    Option.map_some]
  cases variant.value.toValue.reread doubles column with
  | none => rfl
  | some v =>
    change (ValueRecord.fromValue doubles v).bind (fun record => _) =
      (ValueRecord.fromValue doubles v).map _
    cases ValueRecord.fromValue doubles v <;> rfl

theorem reread_i64Value (n : Int64) : (i64Value n).reread doubles column = some (i64Value n) := by
  unfold i64Value
  split
  · next h => rw [Json.reread, reread_negInt h]
  · rw [Json.reread, reread_posInt]

theorem asI64_i64Value (n : Int64) : (i64Value n).asI64 = some n := by
  unfold i64Value
  split
  · rfl
  · next h =>
    have hlt : n.toInt < 2 ^ 63 := n.toInt_lt
    have hnat : n.toUInt64.toNat < 2 ^ 63 := by
      rw [Int64.toNat_toUInt64_of_le (Int64.not_lt.mp h), Int64.toNatClampNeg]
      omega
    exact if_pos hnat

theorem rereadElements_map {α : Type} (f : α → Json) (as : List α) :
    Json.rereadElements doubles column (as.map f) =
      optionAll (fun a => (f a).reread doubles column) as := by
  induction as with
  | nil => rfl
  | cons a as ih => rw [List.map_cons, Json.rereadElements, ih, optionAll]

theorem optionAll_some {α β : Type} (f : α → β) (as : List α) :
    optionAll (fun a => some (f a)) as = some (as.map f) := by
  induction as with
  | nil => rfl
  | cons a as ih => rw [optionAll, ih]; rfl

/-- The elements of an array that reads back as it is. -/
theorem reread_array {α : Type} {f : α → Json}
    (h : ∀ a, (f a).reread doubles column = some (f a)) (as : List α) :
    (Json.array (as.map f)).reread doubles column = some (.array (as.map f)) := by
  rw [Json.reread, rereadElements_map, funext h, optionAll_some]
  rfl

theorem optionAll_bind {α β γ : Type} {f : α → Option β} {g : β → Option γ} {h : α → Option γ}
    (hfg : ∀ a, (f a).bind g = h a) (as : List α) :
    (optionAll f as).bind (optionAll g) = optionAll h as := by
  induction as with
  | nil => rfl
  | cons a as ih =>
    rw [optionAll, optionAll, ← hfg, ← ih]
    cases f a with
    | none => rfl
    | some b =>
      cases optionAll f as with
      | none => cases hg : g b <;> simp [hg]
      | some bs => rfl

theorem asList_toValue {α : Type} {f : α → Json} {read : Json → Option α}
    (h : ∀ a, read (f a) = some a) (as : List α) :
    (Json.array (as.map f)).asList read = some as :=
  asList_map fun a _ => h a

theorem reread_rule (rule : TargetingRuleRecord) :
    rule.toValue.reread doubles column = some rule.toValue := by
  have hvalues := @reread_array rt doubles column String .string reread_string rule.comparisonValues
  simp only [TargetingRuleRecord.toValue, Json.reread, Json.rereadFields, Option.bind_some,
    Option.map_some] at hvalues ⊢
  rw [hvalues]
  rfl

theorem fromValue_rule (rule : TargetingRuleRecord) :
    TargetingRuleRecord.fromValue rule.toValue = some rule := by
  have hvalues := @asList_toValue String .string Json.asString (fun _ => rfl) rule.comparisonValues
  change ((Json.array (rule.comparisonValues.map .string)).asList Json.asString).bind
    (fun comparisonValues => _) = _
  rw [hvalues]
  rfl

theorem reread_rollout (item : RolloutRecord) :
    item.toValue.reread doubles column = some item.toValue := by
  simp only [RolloutRecord.toValue, Json.reread, Json.rereadFields, reread_i64Value,
    Option.bind_some, Option.map_some]

theorem fromValue_rollout (item : RolloutRecord) :
    RolloutRecord.fromValue item.toValue = some item := by
  change (i64Value item.basisPoints).asI64.bind (fun basisPoints => _) = _
  rw [asI64_i64Value]
  rfl

theorem decode_toValue (definition : RulesetDefinition) :
    (definition.toValue.reread doubles column).bind (RulesetDefinition.fromValue doubles) =
      definition.reread doubles column := by
  have hrollout := @reread_array rt doubles column _ _ reread_rollout definition.percentageRollout
  have hrules := @reread_array rt doubles column _ _ reread_rule definition.targetingRules
  have hvariants := optionAll_bind (@decode_variant rt doubles column) definition.variants
  rw [RulesetDefinition.reread, ← hvariants]
  simp only [RulesetDefinition.toValue, Json.reread, Json.rereadFields, rereadElements_map,
    Option.bind_some, Option.map_some] at hrollout hrules ⊢
  rw [hrollout, hrules]
  cases optionAll (fun variant => (VariantRecord.toValue variant).reread doubles column)
    definition.variants with
  | none => rfl
  | some variants =>
    change ((Json.array (definition.percentageRollout.map RolloutRecord.toValue)).asList
      RolloutRecord.fromValue).bind (fun percentageRollout => _) = _
    rw [asList_toValue fromValue_rollout]
    change ((Json.array (definition.targetingRules.map TargetingRuleRecord.toValue)).asList
      TargetingRuleRecord.fromValue).bind (fun targetingRules => _) = _
    rw [asList_toValue fromValue_rule]
    change (optionAll (VariantRecord.fromValue doubles) variants).bind (fun variants => _) =
      (optionAll (VariantRecord.fromValue doubles) variants).map _
    cases optionAll (VariantRecord.fromValue doubles) variants <;> rfl

/-- The definition that is read back from its column. -/
theorem decode_definition {definition : RulesetDefinition} {document : Document}
    (h : (Codec.column doubles column).encodeDefinition definition = some document) :
    (Codec.column doubles column).decodeDefinition document = definition.reread doubles column := by
  change (document.json doubles).bind (RulesetDefinition.fromValue doubles) = _
  rw [json_stored _ h]
  exact decode_toValue definition

/-- The record that is read back from the response column. -/
theorem decode_evaluation {record : EvaluationRecord} {document : Document}
    (h : (Codec.column doubles column).encodeEvaluation record = some document) :
    (Codec.column doubles column).decodeEvaluation document = record.reread doubles column := by
  change (document.json doubles).bind (EvaluationRecord.fromValue doubles) = _
  rw [json_stored _ h, EvaluationRecord.reread, ← decode_valueRecord]
  simp only [EvaluationRecord.toValue, Json.reread, Json.rereadFields, Option.bind_some,
    Option.map_some]
  cases record.value.toValue.reread doubles column with
  | none => rfl
  | some v =>
    change (ValueRecord.fromValue doubles v).bind (fun record => _) =
      (ValueRecord.fromValue doubles v).map _
    cases ValueRecord.fromValue doubles v <;> rfl

theorem outline_rereadValue {value value' : ValueRecord}
    (h : value.reread doubles column = some value') : value'.outline = value.outline := by
  obtain ⟨number, -, h⟩ := Option.bind_eq_some_iff.mp h
  obtain ⟨fields, -, h⟩ := Option.bind_eq_some_iff.mp h
  cases h
  rfl

theorem outline_rereadVariants {variants variants' : List VariantRecord}
    (h : optionAll (VariantRecord.reread doubles column) variants = some variants') :
    variants'.map VariantRecord.outline = variants.map VariantRecord.outline := by
  rw [← List.forall₂_eq_eq_eq, List.forall₂_map_left_iff, List.forall₂_map_right_iff]
  refine (optionAll_eq_some.mp h).flip.imp fun variant' variant hvariant => ?_
  obtain ⟨value', hvalue, rfl⟩ := Option.map_eq_some_iff.mp hvariant
  exact congrArg (fun value => { variant with value }) (outline_rereadValue hvalue)

/-- A column keeps all but the numbers of values. -/
theorem steady_column : (Codec.column doubles column).Steady where
  definition {d _ _} hencode hdecode := by
    rw [decode_definition hencode] at hdecode
    obtain ⟨variants, hvariants, rfl⟩ := Option.map_eq_some_iff.mp hdecode
    exact congrArg (fun variants => { d with variants }) (outline_rereadVariants hvariants)
  evaluation {r _ _} hencode hdecode := by
    rw [decode_evaluation hencode] at hdecode
    obtain ⟨value', hvalue, rfl⟩ := Option.map_eq_some_iff.mp hdecode
    exact congrArg (fun value => { r with value }) (outline_rereadValue hvalue)

/-- Values that are read as they were written are kept. -/
theorem lossless_of_reread {definition : RulesetDefinition}
    (h : ∀ variant ∈ definition.variants, variant.value.reread doubles column = some variant.value) :
    definition.Lossless (Codec.column doubles column) where
  decoded document decoded hencode hdecode := by
    rw [decode_definition hencode] at hdecode
    obtain ⟨variants, hvariants, rfl⟩ := Option.map_eq_some_iff.mp hdecode
    have hsame : optionAll (VariantRecord.reread doubles column) definition.variants =
        some definition.variants := by
      refine optionAll_eq_some.mpr (List.forall₂_same.mpr fun variant hvariant => ?_)
      exact Option.map_eq_some_iff.mpr ⟨variant.value, h variant hvariant, rfl⟩
    rw [hsame] at hvariants
    cases hvariants
    rfl
  values variant hvariant record told hvalue hretold := by
    rcases hretold with rfl | ⟨_, hencode, hdecode⟩
    · exact hvalue
    · rw [decode_evaluation hencode] at hdecode
      obtain ⟨value', hreread, rfl⟩ := Option.map_eq_some_iff.mp hdecode
      rw [hvalue, h variant hvariant] at hreread
      exact (Option.some.inj hreread).symm

end Doubles

/-! ## Numbers in range -/

section InRange

variable {rt : Runtime} (doubles : Doubles rt) (column : Column)

/-- What the column keeps of a double is in the range of the parser. -/
def F64.inRange (x : F64) : Bool :=
  !x.isFinite || (column.keep (doubles.literal x)).isInteger ||
    (doubles.read (column.keep (doubles.literal x))).isSome

def Number.inRange : Number → Bool
  | .float x => x.inRange doubles column
  | _ => true

mutual

/-- Every number of the value is. -/
def Json.inRange : Json → Bool
  | .number n => n.inRange doubles column
  | .array elements => Json.inRangeElements elements
  | .object fields => Json.inRangeFields fields
  | _ => true

def Json.inRangeElements : List Json → Bool
  | [] => true
  | v :: vs => v.inRange && Json.inRangeElements vs

def Json.inRangeFields : List (String × Json) → Bool
  | [] => true
  | (_, v) :: fs => v.inRange && Json.inRangeFields fs

end

/-- The numbers of a value are in range over the column. -/
def ValueRecord.inRange (value : ValueRecord) : Bool :=
  value.doubleValue.all (F64.inRange doubles column)
    && value.jsonValue.all (Json.inRangeFields doubles column)

def RulesetDefinition.inRange (definition : RulesetDefinition) : Bool :=
  definition.variants.all fun variant => variant.value.inRange doubles column

variable {doubles} {column}

theorem isSome_number {l : Literal} :
    (l.number doubles).isSome = (l.isInteger || (doubles.read l).isSome) := by
  unfold Literal.number
  split
  · next h => rw [h]; rfl
  · next h => rw [Bool.eq_false_iff.mpr h, Option.isSome_map]; rfl

theorem isSome_rereadF64 (x : F64) :
    (x.reread doubles column).isSome = x.inRange doubles column := by
  unfold F64.reread F64.inRange
  by_cases h : x.isFinite = true
  · rw [if_pos h, Option.isSome_map, isSome_number, h]
    rfl
  · rw [if_neg h, Bool.eq_false_iff.mpr h]
    rfl

theorem isSome_rereadNumber (n : Number) :
    (n.reread doubles column).isSome = n.inRange doubles column := by
  cases n with
  | posInt n => rw [reread_posInt]; rfl
  | negInt n =>
    by_cases h : n < 0
    · rw [reread_negInt h]; rfl
    · rw [reread_negInt_of_le h]; rfl
  | float x =>
    unfold Number.reread Number.literal Number.inRange F64.inRange
    by_cases h : x.isFinite = true
    · simp only [if_pos h, Option.isSome_map, isSome_number]
      rw [h, Bool.not_true, Bool.false_or]
    · simp only [if_neg h, Option.isSome_some]
      rw [Bool.eq_false_iff.mpr h, Bool.not_false, Bool.true_or, Bool.true_or]

theorem isSome_bind_map {α β γ : Type} (o : Option α) (p : Option β) (f : α → β → γ) :
    (o.bind fun a => p.map (f a)).isSome = (o.isSome && p.isSome) := by
  cases o <;> cases p <;> rfl

mutual

/-- A value comes back exactly if its numbers are in range. -/
theorem isSome_reread (v : Json) : (v.reread doubles column).isSome = v.inRange doubles column := by
  cases v with
  | null => rfl
  | bool => rfl
  | string => rfl
  | number n => exact isSome_rereadNumber n
  | array elements => exact (Option.isSome_map ..).trans (isSome_rereadElements elements)
  | object fields => exact (Option.isSome_map ..).trans (isSome_rereadFields fields)

theorem isSome_rereadElements (vs : List Json) :
    (Json.rereadElements doubles column vs).isSome = Json.inRangeElements doubles column vs := by
  cases vs with
  | nil => rfl
  | cons v vs =>
    rw [Json.rereadElements, isSome_bind_map, isSome_reread v, isSome_rereadElements vs]
    rfl

theorem isSome_rereadFields (fs : List (String × Json)) :
    (Json.rereadFields doubles column fs).isSome = Json.inRangeFields doubles column fs := by
  cases fs with
  | nil => rfl
  | cons f fs =>
    obtain ⟨k, v⟩ := f
    rw [Json.rereadFields, isSome_bind_map, isSome_reread v, isSome_rereadFields fs]
    rfl

end

theorem isSome_rereadValue (value : ValueRecord) :
    (value.reread doubles column).isSome = value.inRange doubles column := by
  obtain ⟨valueType, b, s, i, x, j⟩ := value
  have hdouble : ((x.map (F64.reread doubles column)).getD (some none)).isSome =
      x.all (F64.inRange doubles column) := by
    cases x with
    | none => rfl
    | some x => exact isSome_rereadF64 x
  have hjson : ((j.map fun fields =>
      (Json.rereadFields doubles column fields).map some).getD (some none)).isSome =
      j.all (Json.inRangeFields doubles column) := by
    cases j with
    | none => rfl
    | some fields => exact (Option.isSome_map ..).trans (isSome_rereadFields fields)
  unfold ValueRecord.inRange ValueRecord.reread
  rw [← hdouble, ← hjson, ← isSome_bind_map _ _ fun number jsonValue => (number, jsonValue)]
  cases (x.map (F64.reread doubles column)).getD (some none) with
  | none => rfl
  | some number =>
    cases (j.map fun fields => (Json.rereadFields doubles column fields).map some).getD (some none)
      <;> rfl

theorem isSome_rereadVariant (variant : VariantRecord) :
    (variant.reread doubles column).isSome = variant.value.inRange doubles column :=
  (Option.isSome_map ..).trans (isSome_rereadValue variant.value)

theorem isSome_optionAll {α β : Type} (f : α → Option β) (as : List α) :
    (optionAll f as).isSome = as.all fun a => (f a).isSome := by
  induction as with
  | nil => rfl
  | cons a as ih => rw [optionAll, isSome_bind_map, ih, List.all_cons]

/-- A definition comes back exactly if its numbers are in range. -/
theorem isSome_rereadDefinition {definition : RulesetDefinition} :
    (definition.reread doubles column).isSome = definition.inRange doubles column := by
  rw [RulesetDefinition.reread, Option.isSome_map, isSome_optionAll, funext isSome_rereadVariant]
  rfl

/-! ### Text -/

theorem F64.inRange_text (x : F64) : x.inRange doubles .text = true := by
  unfold F64.inRange
  by_cases h : x.isFinite = true
  · obtain ⟨y, hy⟩ := doubles.readable x h
    rw [show Column.text.keep (doubles.literal x) = doubles.literal x from rfl, hy]
    exact Bool.or_true _
  · rw [Bool.eq_false_iff.mpr h]
    rfl

mutual

/-- What `serde_json` wrote is in range. -/
theorem Json.inRange_text (v : Json) : v.inRange doubles .text = true := by
  cases v with
  | null => rfl
  | bool => rfl
  | string => rfl
  | number n =>
    cases n with
    | float x => exact x.inRange_text
    | _ => rfl
  | array elements => exact Json.inRangeElements_text elements
  | object fields => exact Json.inRangeFields_text fields

theorem Json.inRangeElements_text (vs : List Json) :
    Json.inRangeElements doubles .text vs = true := by
  cases vs with
  | nil => rfl
  | cons v vs => rw [Json.inRangeElements, v.inRange_text, Json.inRangeElements_text vs]; rfl

theorem Json.inRangeFields_text (fs : List (String × Json)) :
    Json.inRangeFields doubles .text fs = true := by
  cases fs with
  | nil => rfl
  | cons f fs =>
    obtain ⟨k, v⟩ := f
    rw [Json.inRangeFields, v.inRange_text, Json.inRangeFields_text fs]
    rfl

end

theorem ValueRecord.inRange_text (value : ValueRecord) : value.inRange doubles .text = true := by
  unfold ValueRecord.inRange
  rw [Bool.and_eq_true, Option.all_eq_true, Option.all_eq_true]
  exact ⟨fun x _ => x.inRange_text, fun fields _ => Json.inRangeFields_text fields⟩

/-- A stored definition decodes from a `TEXT` column. -/
theorem decodes_text {definition : RulesetDefinition} {document : Document}
    (h : (Codec.column doubles .text).encodeDefinition definition = some document) :
    ∃ decoded, (Codec.column doubles .text).decodeDefinition document = some decoded := by
  rw [decode_definition h]
  refine Option.isSome_iff_exists.mp ?_
  rw [isSome_rereadDefinition, RulesetDefinition.inRange, List.all_eq_true]
  exact fun variant _ => variant.value.inRange_text

end InRange

end LensoFlags
