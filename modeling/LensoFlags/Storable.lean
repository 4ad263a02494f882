import LensoFlags.Bounds
import LensoFlags.Postgres.Persisted
import LensoFlags.Values

/-!
# Rulesets that a column can hold

The checks of the service keep `U+0000` out of every text that is stored, but for the string values
and JSON values of a ruleset. D1 keeps a ruleset as text, PostgreSQL as `jsonb`, which has no such
character.

Results:
1. `nulFree_accepted`: the strings of an accepted ruleset that are open.
2. `Postgres.publish_iff`, `D1.publish_ok`: which accepted rulesets the backends take.
3. `ruleset_storable_iff`: both, and the other texts.
-/

namespace LensoFlags

/-! ## Texts of a ruleset -/

mutual

/-- The keys and the strings at every depth. -/
def Json.nulFree : Json → Bool
  | .string s => LensoFlags.nulFree s
  | .array elements => Json.nulFreeElements elements
  | .object fields => Json.nulFreeFields fields
  | _ => true

def Json.nulFreeElements : List Json → Bool
  | [] => true
  | v :: vs => v.nulFree && Json.nulFreeElements vs

def Json.nulFreeFields : List (String × Json) → Bool
  | [] => true
  | (k, v) :: fs => LensoFlags.nulFree k && v.nulFree && Json.nulFreeFields fs

end

def ValueRecord.nulFree (value : ValueRecord) : Bool :=
  LensoFlags.nulFree value.valueType && value.stringValue.all LensoFlags.nulFree
    && value.integerValue.all LensoFlags.nulFree && value.jsonValue.all Json.nulFreeFields

def VariantRecord.nulFree (variant : VariantRecord) : Bool :=
  LensoFlags.nulFree variant.variantKey && variant.value.nulFree

def TargetingRuleRecord.nulFree (rule : TargetingRuleRecord) : Bool :=
  LensoFlags.nulFree rule.ruleId && LensoFlags.nulFree rule.ruleAttribute
    && LensoFlags.nulFree rule.operator && rule.comparisonValues.all LensoFlags.nulFree
    && LensoFlags.nulFree rule.variantKey

def RolloutRecord.nulFree (item : RolloutRecord) : Bool := LensoFlags.nulFree item.variantKey

/-- Every string of a definition. -/
def RulesetDefinition.nulFree (definition : RulesetDefinition) : Bool :=
  definition.variants.all VariantRecord.nulFree
    && definition.targetingRules.all TargetingRuleRecord.nulFree
    && definition.percentageRollout.all RolloutRecord.nulFree
    && LensoFlags.nulFree definition.fallthroughVariant

/-- The texts of a published value that no check of the service looks into. -/
def PublishedValue.nulFree (value : PublishedValue) : Bool :=
  value.stringValue.all LensoFlags.nulFree && value.jsonValue.all Json.nulFreeFields

/-! ### The columns -/

section Column

variable {rt : Runtime} {doubles : Doubles rt}

mutual

/-- A `TEXT` column takes every text. -/
theorem stored_text (d : Document) : ∃ stored, d.stored .text = some stored := by
  cases d with
  | null => exact ⟨_, rfl⟩
  | bool => exact ⟨_, rfl⟩
  | number => exact ⟨_, rfl⟩
  | string => exact ⟨_, rfl⟩
  | array elements =>
    obtain ⟨stored, h⟩ := storedElements_text elements
    exact ⟨_, congrArg (Option.map Document.array) h⟩
  | object fields =>
    obtain ⟨stored, h⟩ := storedFields_text fields
    exact ⟨_, congrArg (Option.map Document.object) h⟩

theorem storedElements_text (ds : List Document) :
    ∃ stored, Document.storedElements .text ds = some stored := by
  cases ds with
  | nil => exact ⟨_, rfl⟩
  | cons d ds =>
    obtain ⟨first, hfirst⟩ := stored_text d
    obtain ⟨rest, hrest⟩ := storedElements_text ds
    exact ⟨first :: rest, by rw [Document.storedElements, hfirst, hrest]; rfl⟩

theorem storedFields_text (fs : List (String × Document)) :
    ∃ stored, Document.storedFields .text fs = some stored := by
  cases fs with
  | nil => exact ⟨_, rfl⟩
  | cons f fs =>
    obtain ⟨k, d⟩ := f
    obtain ⟨first, hfirst⟩ := stored_text d
    obtain ⟨rest, hrest⟩ := storedFields_text fs
    exact ⟨(k, first) :: rest, by rw [Document.storedFields, hfirst, hrest]; rfl⟩

end

mutual

/-- A `jsonb` column takes a value exactly if none of its strings has the character. -/
theorem isSome_stored (v : Json) : ((v.document doubles).stored .jsonb).isSome = v.nulFree := by
  cases v with
  | null => rfl
  | bool => rfl
  | number n =>
    change ((n.literal doubles).elim Document.null Document.number |>.stored .jsonb).isSome = true
    cases n.literal doubles <;> rfl
  | string s =>
    change (if nulFree s then _ else none : Option Document).isSome = nulFree s
    cases nulFree s <;> rfl
  | array elements => exact (Option.isSome_map ..).trans (isSome_storedElements elements)
  | object fields => exact (Option.isSome_map ..).trans (isSome_storedFields fields)

theorem isSome_storedElements (vs : List Json) :
    (Document.storedElements .jsonb (Json.documentElements doubles vs)).isSome =
      Json.nulFreeElements vs := by
  cases vs with
  | nil => rfl
  | cons v vs =>
    rw [Json.documentElements, Document.storedElements, isSome_bind_map, isSome_stored v,
      isSome_storedElements vs]
    rfl

theorem isSome_storedFields (fs : List (String × Json)) :
    (Document.storedFields .jsonb (Json.documentFields doubles fs)).isSome =
      Json.nulFreeFields fs := by
  cases fs with
  | nil => rfl
  | cons f fs =>
    obtain ⟨k, v⟩ := f
    change (if nulFree k then ((v.document doubles).stored .jsonb).bind fun d =>
      (Document.storedFields .jsonb (Json.documentFields doubles fs)).map ((k, d) :: ·)
      else none).isSome = (nulFree k && v.nulFree && Json.nulFreeFields fs)
    cases nulFree k with
    | false => rfl
    | true =>
      rw [if_pos rfl, isSome_bind_map, isSome_stored v, isSome_storedFields fs]
      rfl

end

theorem nulFreeElements_map {α : Type} (f : α → Json) (as : List α) :
    Json.nulFreeElements (as.map f) = as.all fun a => (f a).nulFree := by
  induction as with
  | nil => rfl
  | cons a as ih => rw [List.map_cons, Json.nulFreeElements, ih, List.all_cons]

theorem nulFree_option {α : Type} (f : α → Json) (o : Option α) :
    (toValue f o).nulFree = o.all fun a => (f a).nulFree := by
  cases o <;> rfl

theorem nulFree_valueRecord (value : ValueRecord) : value.toValue.nulFree = value.nulFree := by
  have hbool : (toValue .bool value.booleanValue).nulFree = true := by
    cases value.booleanValue <;> rfl
  have hdouble : (toValue f64Value value.doubleValue).nulFree = true := by
    cases value.doubleValue with
    | none => rfl
    | some x =>
      change (f64Value x).nulFree = true
      unfold f64Value
      split <;> rfl
  simp only [ValueRecord.toValue, Json.nulFree, Json.nulFreeFields, hbool, hdouble, nulFree_option,
    ValueRecord.nulFree, show nulFree "boolean_value" = true from rfl,
    show nulFree "double_value" = true from rfl, show nulFree "integer_value" = true from rfl,
    show nulFree "json_value" = true from rfl, show nulFree "string_value" = true from rfl,
    show nulFree "value_type" = true from rfl, Bool.true_and, Bool.and_true]
  ac_rfl

theorem nulFree_variant (variant : VariantRecord) : variant.toValue.nulFree = variant.nulFree := by
  simp only [VariantRecord.toValue, Json.nulFree, Json.nulFreeFields, nulFree_valueRecord,
    VariantRecord.nulFree, show nulFree "value" = true from rfl,
    show nulFree "variant_key" = true from rfl, Bool.true_and, Bool.and_true]
  ac_rfl

theorem nulFree_rule (rule : TargetingRuleRecord) : rule.toValue.nulFree = rule.nulFree := by
  simp only [TargetingRuleRecord.toValue, Json.nulFree, Json.nulFreeFields, nulFreeElements_map,
    TargetingRuleRecord.nulFree, show nulFree "attribute" = true from rfl,
    show nulFree "comparison_values" = true from rfl, show nulFree "operator" = true from rfl,
    show nulFree "rule_id" = true from rfl, show nulFree "variant_key" = true from rfl,
    Bool.true_and, Bool.and_true]
  ac_rfl

theorem nulFree_rollout (item : RolloutRecord) : item.toValue.nulFree = item.nulFree := by
  simp only [RolloutRecord.toValue, i64Value, Json.nulFree, Json.nulFreeFields,
    RolloutRecord.nulFree, show nulFree "basis_points" = true from rfl,
    show nulFree "variant_key" = true from rfl, Bool.true_and, Bool.and_true]

theorem nulFree_definition (definition : RulesetDefinition) :
    definition.toValue.nulFree = definition.nulFree := by
  simp only [RulesetDefinition.toValue, Json.nulFree, Json.nulFreeFields, nulFreeElements_map,
    nulFree_variant, nulFree_rule, nulFree_rollout, RulesetDefinition.nulFree,
    show nulFree "fallthrough_variant" = true from rfl,
    show nulFree "percentage_rollout" = true from rfl,
    show nulFree "targeting_rules" = true from rfl, show nulFree "variants" = true from rfl,
    Bool.true_and, Bool.and_true]
  ac_rfl

/-- The column can hold a definition exactly if none of its strings has the character. -/
theorem isSome_encodeDefinition (definition : RulesetDefinition) :
    ((Codec.jsonb doubles).encodeDefinition definition).isSome = definition.nulFree :=
  (isSome_stored definition.toValue).trans (nulFree_definition definition)

end Column

/-! ### The checks of the service -/

theorem nulFree_iff {s : String} : nulFree s = true ↔ '\x00' ∉ s.toList := by
  unfold nulFree
  rw [Bool.not_eq_true', List.contains_eq_mem, decide_eq_false_iff_not]

theorem nulFree_of_validKey {value : String} {max : ℕ} (h : validKey value max = true) :
    nulFree value = true :=
  nulFree_iff.mpr (zero_notMem_of_validKey h)

theorem nulFree_of_bounded {value : String} {max : ℕ} (h : validBoundedValue value max = true) :
    nulFree value = true :=
  (Bool.and_eq_true_iff.mp (Bool.and_eq_true_iff.mp h).1).2

theorem checkedKey_eq_some {value key : String} (h : checkedKey value = some key) :
    nulFree key = true :=
  nulFree_of_validKey (validKey_of_checkedKey h)

/-- The characters of a number. -/
theorem nulFree_of_parseI64 {s : String} {n : Int} (h : Decimal.parseI64 s = some n) :
    nulFree s = true := by
  have hdigits : ∀ {cs : List Char} {m : ℕ}, Decimal.digits? cs = some m → '\x00' ∉ cs := by
    intro cs m hm hmem
    exact absurd (List.all_eq_true.mp (Decimal.digits?_eq_some.mp hm).2.1 _ hmem) (by decide)
  rw [nulFree_iff]
  obtain ⟨-, ⟨cs, m, hs, hm, -⟩ | ⟨cs, m, hs, hm, -⟩ | ⟨m, hm, -⟩⟩ := Decimal.parseI64_eq_some.mp h
  · rw [hs, List.mem_cons, not_or]
    exact ⟨by decide, hdigits hm⟩
  · rw [hs, List.mem_cons, not_or]
    exact ⟨by decide, hdigits hm⟩
  · exact hdigits hm

theorem nulFree_rule_of_request {rule : PublishedRule} {record : TargetingRuleRecord}
    (h : targetingRuleRecord rule = some record) : record.nulFree = true := by
  unfold targetingRuleRecord at h
  obtain ⟨ruleId, hid, h⟩ := Option.bind_eq_some_iff.mp h
  obtain ⟨ruleAttribute, hattribute, h⟩ := Option.bind_eq_some_iff.mp h
  have hoperator : nulFree rule.operator.wireName = true := by
    cases rule.operator <;> rfl
  dsimp only at h
  split at h
  · next hchecked =>
    have hvalues : rule.comparisonValues.all nulFree = true :=
      List.all_eq_true.mpr fun value hvalue => nulFree_of_bounded
        (List.all_eq_true.mp (Bool.and_eq_true_iff.mp hchecked).2 value hvalue)
    obtain ⟨comparisonValues, heq, h⟩ := Option.bind_eq_some_iff.mp h
    cases heq
    obtain ⟨variantKey, hkey, h⟩ := Option.bind_eq_some_iff.mp h
    cases h
    simp only [TargetingRuleRecord.nulFree, checkedKey_eq_some hid, checkedKey_eq_some hattribute,
      hoperator, hvalues, checkedKey_eq_some hkey, Bool.and_true]
  · cases h

theorem nulFree_rollout_of_request {item : PublishedRollout} {record : RolloutRecord}
    (h : rolloutRecord item = some record) : record.nulFree = true := by
  unfold rolloutRecord at h
  obtain ⟨variantKey, hkey, h⟩ := Option.bind_eq_some_iff.mp h
  cases h
  exact checkedKey_eq_some hkey

theorem nulFree_variant_of_request {item : PublishedVariant} {record : VariantRecord}
    (h : variantRecord item = some record) :
    record.nulFree = (valueRecord item.value).nulFree := by
  unfold variantRecord at h
  obtain ⟨variantKey, hkey, h⟩ := Option.bind_eq_some_iff.mp h
  cases h
  rw [VariantRecord.nulFree, checkedKey_eq_some hkey, Bool.true_and]

theorem nulFree_typed {rt : Runtime} {t : ValueType} {value : PublishedValue}
    (h : Typed rt t (valueRecord value)) : (valueRecord value).nulFree = value.nulFree := by
  obtain ⟨b, x, i, j, s, valueType⟩ := value
  have hinteger : i.all nulFree = true := by
    cases i with
    | none => rfl
    | some text =>
      generalize hrecord : valueRecord _ = record at h
      cases h with
      | integer s n hn =>
        cases congrArg ValueRecord.integerValue hrecord
        exact nulFree_of_parseI64 hn
      | _ => cases congrArg ValueRecord.integerValue hrecord
  have htype : nulFree valueType.wireName = true := by
    cases valueType <;> rfl
  simp only [ValueRecord.nulFree, valueRecord, PublishedValue.nulFree, hinteger, htype,
    Bool.true_and, Bool.and_true]

/-- Of the strings of an accepted definition, only those of its values are open. -/
theorem nulFree_accepted {rt : Runtime} {request : PublishRulesetRequest} {valueType : String}
    {definition : RulesetDefinition} (h : rulesetDefinition request = some definition)
    (hvalid : validateRuleset rt valueType definition = .ok ()) :
    definition.nulFree = true ↔ ∀ item ∈ request.variants, item.value.nulFree = true := by
  obtain ⟨hvariants, hrules, hrollout, hfallthrough⟩ := rulesetDefinition_eq_some h
  have htyped := (validateRuleset_eq_ok.mp hvalid).1.typed
  have hsame : ∀ item record, variantRecord item = some record → record ∈ definition.variants →
      record.nulFree = item.value.nulFree := by
    intro item record hrecord hmem
    obtain ⟨t, -, ht⟩ := validValue_iff.mp (htyped record hmem)
    have hvalue : record.value = valueRecord item.value := by
      obtain ⟨key, -, heq⟩ := Option.bind_eq_some_iff.mp hrecord
      cases heq
      rfl
    rw [nulFree_variant_of_request hrecord, nulFree_typed (hvalue ▸ ht)]
  -- The rules and the rollout name only keys, which the checks keep free of the zero byte.
  have hrules' : definition.targetingRules.all TargetingRuleRecord.nulFree = true := by
    refine List.all_eq_true.mpr fun record hmem => ?_
    obtain ⟨rule, -, hrecord⟩ := Table.exists_of_mem_right hrules hmem
    exact nulFree_rule_of_request hrecord
  have hrollout' : definition.percentageRollout.all RolloutRecord.nulFree = true := by
    refine List.all_eq_true.mpr fun record hmem => ?_
    obtain ⟨item, -, hrecord⟩ := Table.exists_of_mem_right hrollout hmem
    exact nulFree_rollout_of_request hrecord
  rw [RulesetDefinition.nulFree, hrules', hrollout', nulFree_of_validKey hfallthrough,
    Bool.and_true, Bool.and_true, Bool.and_true, List.all_eq_true]
  constructor
  · intro hall item hitem
    obtain ⟨record, hmem, hrecord⟩ := Table.exists_of_mem_right hvariants.flip hitem
    exact hsame item record hrecord hmem ▸ hall record hmem
  · intro hall record hmem
    obtain ⟨item, hitem, hrecord⟩ := Table.exists_of_mem_right hvariants hmem
    exact (hsame item record hrecord hmem).trans (hall item hitem)

/-! ## Publications -/

section Publications

variable {codec : Codec} {rt : Runtime} {command : Command} {δ : Draws}
  {org flagKey environmentKey valueType : String} {flagRevision environmentRevision : Int}
  {definition : RulesetDefinition}

namespace Abstract

variable {c : Store codec} {σ : Stamp}

/-- What a publication finds when nothing but its definition is left to check. -/
structure Publishes (c : Store codec) (org flagKey environmentKey valueType : String)
    (flagRevision environmentRevision : Int) : Prop where
  flag : ∃ flag, c.flag org flagKey = some flag ∧ flag.archived = false ∧
    flag.valueType = valueType ∧ flag.revision = flagRevision
  environment : ∃ environment, c.environment org environmentKey = some environment ∧
    environment.revision = environmentRevision
  room : flagRevision < Decimal.i64Max ∧ environmentRevision < Decimal.i64Max ∧
    c.published org flagKey environmentKey < Decimal.i64Max

theorem requireRoom_ok {revision : Int} (h : revision < Decimal.i64Max) :
    requireRoom revision = .ok () := if_pos (by omega)

/-- A publication fails over its document, or not at all. -/
theorem exec_publish
    (h : Publishes c org flagKey environmentKey valueType flagRevision environmentRevision)
    (hnew : c.command (command.rowKey "publish_ruleset") = none)
    (hvalid : validateRuleset rt valueType definition = .ok ()) :
    (∀ document, codec.encodeDefinition definition = some document →
      ∃ response, (exec rt σ c ⟨command, .publishRuleset org flagKey environmentKey flagRevision
        environmentRevision definition⟩).1 = .ok (.fresh response)) ∧
    (codec.encodeDefinition definition = none →
      (exec rt σ c ⟨command, .publishRuleset org flagKey environmentKey flagRevision
        environmentRevision definition⟩).1 = .error .json) := by
  obtain ⟨flag, hflag, hactive, rfl, rfl⟩ := h.flag
  obtain ⟨environment, henvironment, rfl⟩ := h.environment
  obtain ⟨hroom, hroom', hroom''⟩ := h.room
  have hchecked : requireRevision flag flag.revision = .ok () := by
    unfold requireRevision
    rw [hactive, if_neg (by decide), if_neg (not_not_intro rfl)]
  rw [exec_of_new ⟨command, .publishRuleset org flagKey environmentKey flag.revision
    environment.revision definition⟩ hnew]
  constructor
  · intro document hdocument
    unfold perform publishRuleset
    simp only [hflag, henvironment, okOr, bind, Except.bind, hchecked, hvalid, ne_eq,
      not_true_eq_false, if_false, requireRoom_ok hroom, requireRoom_ok hroom',
      requireRoom_ok hroom'', hdocument]
    exact ⟨_, rfl⟩
  · intro hnone
    unfold perform publishRuleset
    simp only [hflag, henvironment, okOr, bind, Except.bind, hchecked, hvalid, ne_eq,
      not_true_eq_false, if_false, requireRoom_ok hroom, requireRoom_ok hroom',
      requireRoom_ok hroom'', hnone]
    rfl

end Abstract

/-- The same of the rows of a backend, whose records show a revision as its text. -/
structure D1.Publishes (t : D1.Tables codec) (org flagKey environmentKey valueType : String)
    (flagRevision environmentRevision : Int) : Prop where
  flag : ∃ row, t.flag org flagKey = some row ∧ row.record.archived = false ∧
    row.record.valueType = valueType ∧ row.record.revision = toString flagRevision
  environment : ∃ row, t.environment org environmentKey = some row ∧
    row.record.revision = toString environmentRevision
  room : flagRevision < Decimal.i64Max ∧ environmentRevision < Decimal.i64Max ∧
    ∀ row ∈ t.rulesetsOf org flagKey environmentKey, row.revision < Decimal.i64Max

structure Postgres.Publishes (t : Postgres.Tables codec)
    (org flagKey environmentKey valueType : String) (flagRevision environmentRevision : Int) :
    Prop where
  flag : ∃ row, t.flag org flagKey = some row ∧ row.archived = false ∧
    row.valueType = valueType ∧ row.revision = flagRevision
  environment : ∃ row, t.environment org environmentKey = some row ∧
    row.revision = environmentRevision
  room : flagRevision < Decimal.i64Max ∧ environmentRevision < Decimal.i64Max ∧
    ∀ row ∈ t.rulesetsOf org flagKey environmentKey, row.rulesetRevision < Decimal.i64Max

theorem Abstract.published_lt {c : Abstract.Store codec}
    (h : ∀ ruleset ∈ c.rulesetsOf org flagKey environmentKey, ruleset.revision < Decimal.i64Max) :
    c.published org flagKey environmentKey < Decimal.i64Max := by
  unfold Abstract.Store.published Abstract.Store.latest
  cases hrulesets : c.rulesetsOf org flagKey environmentKey with
  | nil =>
    show (0 : Int) < Decimal.i64Max
    decide
  | cons ruleset rulesets => exact h ruleset (hrulesets ▸ List.mem_cons_self)

theorem D1.Publishes.abstract {t : D1.Tables codec} {c : Abstract.Store codec}
    (hr : D1.Represents t c)
    (h : D1.Publishes t org flagKey environmentKey valueType flagRevision environmentRevision) :
    Abstract.Publishes c org flagKey environmentKey valueType flagRevision environmentRevision := by
  obtain ⟨row, hrow, hactive, htype, hrevision⟩ := h.flag
  obtain ⟨row', hrow', hrevision'⟩ := h.environment
  rw [hr.flag] at hrow
  rw [hr.environment] at hrow'
  obtain ⟨flag, hflag, rfl⟩ := Option.map_eq_some_iff.mp hrow
  obtain ⟨environment, henvironment, rfl⟩ := Option.map_eq_some_iff.mp hrow'
  refine ⟨⟨flag, hflag, hactive, htype, Decimal.toString_inj hrevision⟩,
    ⟨environment, henvironment, Decimal.toString_inj hrevision'⟩, h.room.1, h.room.2.1,
    Abstract.published_lt fun ruleset hmem => ?_⟩
  rw [hr.rulesetsOf] at hmem
  obtain ⟨row, hrow, rfl⟩ := List.mem_map.mp hmem
  exact h.room.2.2 row hrow

theorem Postgres.Publishes.abstract {t : Postgres.Tables codec} {c : Abstract.Store codec}
    (hr : Postgres.Rows rt t c)
    (h : Postgres.Publishes t org flagKey environmentKey valueType flagRevision
      environmentRevision) :
    Abstract.Publishes c org flagKey environmentKey valueType flagRevision environmentRevision := by
  obtain ⟨row, hrow, hactive, htype, hrevision⟩ := h.flag
  obtain ⟨row', hrow', hrevision'⟩ := h.environment
  refine ⟨⟨row.flag rt, by rw [hr.flag, hrow]; rfl, hactive, htype, hrevision⟩,
    ⟨row'.environment rt, by rw [hr.environment, hrow']; rfl, hrevision'⟩, h.room.1, h.room.2.1,
    Abstract.published_lt fun ruleset hmem => ?_⟩
  rw [hr.rulesetsOf] at hmem
  obtain ⟨row, hrow, rfl⟩ := List.mem_map.mp hmem
  exact h.room.2.2 row hrow

/-- PostgreSQL takes an accepted definition exactly if its column does, and fails outside the domain
otherwise. -/
theorem Postgres.publish_iff {describe : Postgres.DbError → String}
    {s : Postgres.State codec describe rt} (h : Postgres.Reachable s)
    (hpublishes : Postgres.Publishes s.store org flagKey environmentKey valueType flagRevision
      environmentRevision)
    (hnew : s.store.command (command.rowKey "publish_ruleset") = none) (hδ : Postgres.Unused s δ)
    (hvalid : validateRuleset rt valueType definition = .ok ()) {result : Result}
    (hresult : ((Postgres.store codec describe rt).alone δ s.store
      ⟨command, .publishRuleset org flagKey environmentKey flagRevision environmentRevision
        definition⟩).1 = result) :
    ((∃ response, result = .ok (.fresh response)) ↔
        ∃ document, codec.encodeDefinition definition = some document) ∧
      (codec.encodeDefinition definition = none →
        ∃ e, result = .error e ∧ e.isDomain = false) := by
  have hi := Postgres.Inv.reachable h
  obtain ⟨c, hc⟩ := hi.content
  obtain ⟨hstored, hunstored⟩ := @Abstract.exec_publish codec rt command org flagKey environmentKey
    valueType flagRevision environmentRevision definition c (Postgres.stamp rt δ
      (.publishRuleset org flagKey environmentKey flagRevision environmentRevision definition))
    (hpublishes.abstract hc.represents.rows) (hc.represents.new hnew) hvalid
  have hfresh : (Postgres.stamp rt δ (Call.operation ⟨command, .publishRuleset org flagKey
      environmentKey flagRevision environmentRevision definition⟩)).Fresh c :=
    hi.unused_fresh hc hδ _
  rcases Postgres.alone_cases describe hc.represents hc.sound hfresh with
    ⟨hagree, -⟩ | ⟨_, _, _, _, _, _, hcreate, -⟩
  · rw [hresult] at hagree
    cases hencode : codec.encodeDefinition definition with
    | some document =>
      obtain ⟨response, hok⟩ := hstored document hencode
      rw [hok] at hagree
      exact ⟨iff_of_true ⟨response, hagree.eq_ok⟩ ⟨document, rfl⟩, nofun⟩
    | none =>
      rw [hunstored hencode] at hagree
      cases hagree with
      | other hother => exact ⟨iff_of_false nofun nofun, fun _ => ⟨_, rfl, hother⟩⟩
  · cases hcreate

/-- D1 takes every definition that its column takes. -/
theorem D1.publish_ok {s : D1.State codec} (h : D1.Reachable rt s)
    (hdecodes : ∀ {d doc}, codec.encodeDefinition d = some doc →
      ∃ decoded, codec.decodeDefinition doc = some decoded)
    (hpublishes : D1.Publishes s.tables org flagKey environmentKey valueType flagRevision
      environmentRevision)
    (hnew : s.tables.command (command.rowKey "publish_ruleset") = none) (hδ : D1.Unused s δ)
    (hvalid : validateRuleset rt valueType definition = .ok ())
    {document : codec.Definition} (hdocument : codec.encodeDefinition definition = some document) :
    ∃ response, (D1.call rt δ s.tables ⟨command, .publishRuleset org flagKey environmentKey
      flagRevision environmentRevision definition⟩).1 = .ok (.fresh response) := by
  have hi := D1.Inv.reachable h
  obtain ⟨c, hr, hlogged⟩ := hi.represented
  obtain ⟨hstored, -⟩ := @Abstract.exec_publish codec rt command org flagKey environmentKey
    valueType flagRevision environmentRevision definition c (D1.stamp rt δ s.tables)
    (hpublishes.abstract hr) (hr.new hnew) hvalid
  obtain ⟨response, hok⟩ := hstored document hdocument
  refine ⟨response, ?_⟩
  rcases D1.call_cases hr hlogged.run.sound (hi.unused_fresh hlogged hr hδ) hi.range
      ⟨command, .publishRuleset org flagKey environmentKey flagRevision environmentRevision
        definition⟩ with ⟨hagree, -⟩ | ⟨-, ruleset, hruleset, hnone⟩
  · rw [hok] at hagree
    exact hagree.eq_ok
  · obtain ⟨-, _, -, hencode, -⟩ := hlogged.run.sound.typed ruleset hruleset
    obtain ⟨decoded, hdecode⟩ := hdecodes hencode
    rw [hnone] at hdecode
    cases hdecode

end Publications

/-! ## The other texts -/

section Texts

open Locking.Program

variable {platform : Platform} {rt : Runtime} {config : PolicyConfig}

/-- The texts that a write leaves in the tables, but for those of a definition. -/
def Operation.texts : Operation → List String
  | .createFlag org flagKey name description valueType =>
      [org, flagKey, name, valueType] ++ description.toList
  | .updateFlag org flagKey _ name description => [org, flagKey, name] ++ description.toList
  | .archiveFlag org flagKey _ => [org, flagKey]
  | .putEnvironment org environmentKey name _ => [org, environmentKey, name]
  | .publishRuleset org flagKey environmentKey _ _ _ => [org, flagKey, environmentKey]
  | .evaluate org environmentKey flagKey _ _ hash => [org, environmentKey, flagKey, hash]
  | .evaluateBatch org environmentKey flagKeys _ _ hash => [org, environmentKey, hash] ++ flagKeys

def Call.texts (call : Call) : List String :=
  [call.command.caller, call.command.actor, call.command.key, call.operation.name]
    ++ call.operation.texts

theorem nulFree_of_validOpaqueId {value : String} (h : validOpaqueId value = true) :
    nulFree value = true :=
  nulFree_iff.mpr (zero_notMem_of_validOpaqueId h)

theorem nulFree_of_validText {value : String} {max : ℕ} (h : validText value max = true) :
    nulFree value = true :=
  (Bool.and_eq_true_iff.mp h).2

theorem nulFree_of_validOptionalText {value : Option String} {max : ℕ}
    (h : validOptionalText value max = true) : ∀ text ∈ value.toList, nulFree text = true := by
  cases value with
  | none => exact fun _ hmem => absurd hmem List.not_mem_nil
  | some text =>
    intro text' hmem
    obtain rfl := List.mem_singleton.mp hmem
    exact nulFree_of_validText h

theorem hexDigit_ne_zero : ∀ n < 16, hexDigit n ≠ '\x00' := by decide

theorem nulFree_name (operation : Operation) : nulFree operation.name = true := by
  cases operation <;> dsimp only [Operation.name] <;> rfl

theorem nulFree_contextHash (context : EvaluationContext) :
    nulFree (contextHash rt context) = true := by
  rw [nulFree_iff, contextHash, String.toList_ofList, List.mem_flatMap]
  rintro ⟨byte, -, hmem⟩
  have hlt := byte.toNat_lt
  rcases List.mem_pair.mp hmem with hdigit | hdigit
  · exact hexDigit_ne_zero _ (by omega) hdigit.symm
  · exact hexDigit_ne_zero _ (by omega) hdigit.symm

/-- What the bounds say of the texts. -/
theorem nulFree_of_bounded_call {call : Call} (h : call.Bounded rt)
    (hlawful : call.operation.Lawful rt) : ∀ text ∈ call.texts, nulFree text = true := by
  obtain ⟨⟨caller, actor, key, hash⟩, operation⟩ := call
  obtain ⟨horganization, hcaller, hactor, hkey, hoperation⟩ := h
  have horg := nulFree_of_validOpaqueId horganization
  simp only [Call.texts, List.forall_mem_append, List.forall_mem_cons]
  refine ⟨⟨nulFree_of_validKey hcaller, nulFree_of_validOpaqueId hactor, nulFree_of_validKey hkey,
    nulFree_name _, List.forall_mem_nil _⟩, ?_⟩
  cases operation with
  | createFlag =>
    obtain ⟨hflag, hname, hdescription⟩ := hoperation
    obtain ⟨known, rfl⟩ := hlawful
    simp only [Operation.texts, List.forall_mem_append, List.forall_mem_cons]
    exact ⟨⟨horg, nulFree_of_validKey hflag, nulFree_of_validText hname, by cases known <;> rfl,
      List.forall_mem_nil _⟩, nulFree_of_validOptionalText hdescription⟩
  | updateFlag =>
    obtain ⟨hflag, hname, hdescription⟩ := hoperation
    simp only [Operation.texts, List.forall_mem_append, List.forall_mem_cons]
    exact ⟨⟨horg, nulFree_of_validKey hflag, nulFree_of_validText hname, List.forall_mem_nil _⟩,
      nulFree_of_validOptionalText hdescription⟩
  | archiveFlag =>
    simp only [Operation.texts, List.forall_mem_cons]
    exact ⟨horg, nulFree_of_validKey hoperation, List.forall_mem_nil _⟩
  | putEnvironment =>
    simp only [Operation.texts, List.forall_mem_cons]
    exact ⟨horg, nulFree_of_validKey hoperation.1, nulFree_of_validText hoperation.2,
      List.forall_mem_nil _⟩
  | publishRuleset =>
    obtain ⟨hflag, henvironment, -⟩ := hoperation
    simp only [Operation.texts, List.forall_mem_cons]
    exact ⟨horg, nulFree_of_validKey hflag, nulFree_of_validKey henvironment,
      List.forall_mem_nil _⟩
  | evaluate =>
    obtain ⟨henvironment, hflag, -⟩ := hoperation
    obtain rfl := hlawful
    simp only [Operation.texts, List.forall_mem_cons]
    exact ⟨horg, nulFree_of_validKey henvironment, nulFree_of_validKey hflag,
      nulFree_contextHash _, List.forall_mem_nil _⟩
  | evaluateBatch =>
    obtain ⟨henvironment, ⟨-, hflags⟩, -⟩ := hoperation
    obtain ⟨rfl, -⟩ := hlawful
    simp only [Operation.texts, List.forall_mem_append, List.forall_mem_cons]
    exact ⟨⟨horg, nulFree_of_validKey henvironment, nulFree_contextHash _, List.forall_mem_nil _⟩,
      fun flagKey hmem => nulFree_of_validKey (hflags flagKey hmem)⟩

/-- What the service hands to the store has passed its checks. -/
theorem serve_nulFree {kit : Kit} {issuer publicKey : String}
    (hconfig : config.validate kit issuer publicKey = .ok ()) {context : Ctx} {request : Request}
    {trace : List (Exchange Ask.Reply)} {result : Except ServiceError ServiceResponse}
    (h : Runs (serve platform rt config context request) trace result) {call : Call}
    {reply : (Ask.store (.write call)).Reply} (hmem : ⟨.store (.write call), reply⟩ ∈ trace) :
    ∀ text ∈ call.texts, nulFree text = true := by
  obtain ⟨before, after, rfl⟩ := List.append_of_mem hmem
  obtain ⟨auth, hgranted, hcomes⟩ := Deployment.granted_of_runs h
  exact nulFree_of_bounded_call (Call.bounded_of_granted hconfig hgranted hcomes)
    (Request.call_lawful hcomes)

end Texts

/-! ## Accepted rulesets -/

/-- No string of an accepted ruleset has `U+0000`, and PostgreSQL takes its publication, exactly if
none of the values of the request has it; otherwise PostgreSQL fails outside the domain. D1 takes
every one. The other checks exclude the character, so that no other text of a write has it. -/
theorem ruleset_storable_iff {rt : Runtime} (doubles : Doubles rt)
    (describe : Postgres.DbError → String) :
    (∀ request valueType definition, rulesetDefinition request = some definition →
      validateRuleset rt valueType definition = .ok () →
      (definition.nulFree = true ↔ ∀ item ∈ request.variants, item.value.nulFree = true) ∧
      (∀ s : Postgres.State (Codec.jsonb doubles) describe rt, Postgres.Reachable s →
        ∀ org flagKey environmentKey flagRevision environmentRevision command δ,
          Postgres.Publishes s.store org flagKey environmentKey valueType flagRevision
            environmentRevision →
          s.store.command (command.rowKey "publish_ruleset") = none → Postgres.Unused s δ →
          ∀ result, ((Postgres.store (Codec.jsonb doubles) describe rt).alone δ s.store
              ⟨command, .publishRuleset org flagKey environmentKey flagRevision environmentRevision
                definition⟩).1 = result →
            ((∃ response, result = .ok (.fresh response)) ↔
              ∀ item ∈ request.variants, item.value.nulFree = true) ∧
            ((∃ item ∈ request.variants, item.value.nulFree = false) →
              ∃ e, result = .error e ∧ e.isDomain = false)) ∧
      ∀ s : D1.State (Codec.column doubles .text), D1.Reachable rt s →
        ∀ org flagKey environmentKey flagRevision environmentRevision command δ,
          D1.Publishes s.tables org flagKey environmentKey valueType flagRevision
            environmentRevision →
          s.tables.command (command.rowKey "publish_ruleset") = none → D1.Unused s δ →
          ∃ response, (D1.call rt δ s.tables ⟨command, .publishRuleset org flagKey environmentKey
            flagRevision environmentRevision definition⟩).1 = .ok (.fresh response)) ∧
    (∀ value max, validKey value max = true ∨ validOpaqueId value = true ∨
        validText value max = true ∨ validBoundedValue value max = true → nulFree value = true) ∧
    ∀ platform config kit issuer publicKey, config.validate kit issuer publicKey = .ok () →
      ∀ context request trace result,
        Locking.Program.Runs (serve platform rt config context request) trace result →
        ∀ call reply, ⟨.store (.write call), reply⟩ ∈ trace →
          ∀ text ∈ call.texts, nulFree text = true := by
  refine ⟨fun request valueType definition hdefinition hvalid => ?_, ?_, ?_⟩
  · have haccepted := nulFree_accepted hdefinition hvalid
    refine ⟨haccepted, fun s h org flagKey environmentKey _ _ command δ hpublishes hnew hδ result
      hresult => ?_, fun s h org flagKey environmentKey _ _ command δ hpublishes hnew hδ => ?_⟩
    · obtain ⟨hstored, herror⟩ := Postgres.publish_iff h hpublishes hnew hδ hvalid hresult
      have hsome : ((Codec.jsonb doubles).encodeDefinition definition).isSome = _ :=
        isSome_encodeDefinition definition
      refine ⟨?_, fun ⟨item, hitem, hvalue⟩ => herror ?_⟩
      · rw [← haccepted, ← hsome, Option.isSome_iff_exists]
        exact hstored
      · rw [← Option.not_isSome_iff_eq_none, hsome, haccepted]
        intro hall
        rw [hall item hitem] at hvalue
        cases hvalue
    · obtain ⟨document, hdocument⟩ := stored_text (definition.toValue.document doubles)
      exact D1.publish_ok h decodes_text hpublishes hnew hδ hvalid hdocument
  · rintro value max (h | h | h | h)
    · exact nulFree_of_validKey h
    · exact nulFree_of_validOpaqueId h
    · exact nulFree_of_validText h
    · exact nulFree_of_bounded h
  · intro platform config kit issuer publicKey hconfig context request trace result h call reply
    exact serve_nulFree hconfig h

/-- A publish request of one string variant. -/
def stringRequest (text : String) : PublishRulesetRequest :=
  { environmentKey := "prod"
    expectedEnvironmentRevision := "1"
    expectedFlagRevision := "1"
    fallthroughVariant := "on"
    flagKey := "flag"
    idempotencyKey := "key-3"
    organizationId := "org"
    percentageRollout := []
    targetingRules := []
    variants := [⟨⟨none, none, none, none, some text, .string⟩, "on"⟩] }

def stringRuleset (text : String) : RulesetDefinition :=
  { variants := [⟨"on", ⟨"string", none, some text, none, none, none⟩⟩]
    targetingRules := []
    percentageRollout := []
    fallthroughVariant := "on" }

def stringCommand : Command := ⟨"caller", "actor", "key-3", [3]⟩

/-- A flag for strings and an environment, made by two calls. -/
def preparingCalls : List Call :=
  [⟨⟨"caller", "actor", "key-1", [1]⟩, .createFlag "org" "flag" "Flag" none "string"⟩,
    ⟨⟨"caller", "actor", "key-2", [2]⟩, .putEnvironment "org" "prod" "Production" none⟩]

theorem Postgres.exists_publishes : ∃ s : Postgres.State (Codec.jsonb Doubles.sample) (fun _ => "")
    Runtime.sample, Postgres.Reachable s ∧
      Postgres.Publishes s.store "org" "flag" "prod" "string" 1 1 ∧
      s.store.command (stringCommand.rowKey "publish_ruleset") = none ∧
      Postgres.Unused s (Draws.numbered 2) := by
  obtain ⟨s, h, hstore, hunused⟩ := @Postgres.exists_unused (Codec.jsonb Doubles.sample)
    (fun _ => "") Runtime.sample preparingCalls
  refine ⟨s, h, ⟨?_, ?_, ?_⟩, ?_, hunused 2 le_rfl⟩
  · rw [hstore]
    exact ⟨_, rfl, rfl, rfl, rfl⟩
  · rw [hstore]
    exact ⟨_, rfl, rfl⟩
  · rw [hstore]
    exact ⟨by decide, by decide, fun row hrow => nomatch hrow⟩
  · rw [hstore]
    rfl

theorem D1.exists_publishes : ∃ s : D1.State (Codec.column Doubles.sample .text),
    D1.Reachable Runtime.sample s ∧ D1.Publishes s.tables "org" "flag" "prod" "string" 1 1 ∧
      s.tables.command (stringCommand.rowKey "publish_ruleset") = none ∧
      D1.Unused s (Draws.numbered 2) := by
  obtain ⟨s, h, htables, hunused⟩ := @D1.exists_unused (Codec.column Doubles.sample .text)
    Runtime.sample preparingCalls (by decide)
  refine ⟨s, h, ⟨?_, ?_, ?_⟩, ?_, hunused 2 le_rfl⟩
  · rw [htables]
    exact ⟨_, rfl, rfl, rfl, rfl⟩
  · rw [htables]
    exact ⟨_, rfl, rfl⟩
  · rw [htables]
    exact ⟨by decide, by decide, fun row hrow => nomatch hrow⟩
  · rw [htables]
    rfl

/-- Both backends take a plain string. -/
theorem ruleset_storable_plain :
    (∃ s : Postgres.State (Codec.jsonb Doubles.sample) (fun _ => "") Runtime.sample,
      Postgres.Reachable s ∧ ∃ response,
        ((Postgres.store (Codec.jsonb Doubles.sample) (fun _ => "") Runtime.sample).alone
          (Draws.numbered 2) s.store ⟨stringCommand, .publishRuleset "org" "flag" "prod" 1 1
            (stringRuleset "on")⟩).1 = .ok (.fresh response)) ∧
    ∃ s : D1.State (Codec.column Doubles.sample .text), D1.Reachable Runtime.sample s ∧
      ∃ response, (D1.call Runtime.sample (Draws.numbered 2) s.tables ⟨stringCommand,
        .publishRuleset "org" "flag" "prod" 1 1 (stringRuleset "on")⟩).1 =
          .ok (.fresh response) := by
  obtain ⟨-, hpostgres, hd1⟩ := (ruleset_storable_iff Doubles.sample fun _ => "").1
    (stringRequest "on") "string" (stringRuleset "on") rfl rfl
  obtain ⟨s, h, hpublishes, hnew, hunused⟩ := Postgres.exists_publishes
  obtain ⟨s', h', hpublishes', hnew', hunused'⟩ := D1.exists_publishes
  exact ⟨⟨s, h, (hpostgres s h _ _ _ _ _ _ _ hpublishes hnew hunused _ rfl).1.mpr (by decide)⟩,
    s', h', hd1 s' h' _ _ _ _ _ _ _ hpublishes' hnew' hunused'⟩

/-- A string value of one zero character passes every check; D1 takes it, PostgreSQL fails. -/
theorem zeroString_unstorable :
    rulesetDefinition (stringRequest "\x00") = some (stringRuleset "\x00") ∧
      validateRuleset Runtime.sample "string" (stringRuleset "\x00") = .ok () ∧
      (stringRuleset "\x00").nulFree = false ∧
      (∃ s : Postgres.State (Codec.jsonb Doubles.sample) (fun _ => "") Runtime.sample,
        Postgres.Reachable s ∧ Postgres.Publishes s.store "org" "flag" "prod" "string" 1 1 ∧
        ∃ e, ((Postgres.store (Codec.jsonb Doubles.sample) (fun _ => "") Runtime.sample).alone
          (Draws.numbered 2) s.store ⟨stringCommand, .publishRuleset "org" "flag" "prod" 1 1
            (stringRuleset "\x00")⟩).1 = .error e ∧ e.isDomain = false) ∧
      ∃ s : D1.State (Codec.column Doubles.sample .text), D1.Reachable Runtime.sample s ∧
        ∃ response, (D1.call Runtime.sample (Draws.numbered 2) s.tables ⟨stringCommand,
          .publishRuleset "org" "flag" "prod" 1 1 (stringRuleset "\x00")⟩).1 =
            .ok (.fresh response) := by
  refine ⟨rfl, rfl, rfl, ?_, ?_⟩
  · obtain ⟨s, h, hpublishes, hnew, hunused⟩ := Postgres.exists_publishes
    have hvalid : validateRuleset Runtime.sample "string" (stringRuleset "\x00") = .ok () := rfl
    exact ⟨s, h, hpublishes, (Postgres.publish_iff h hpublishes hnew hunused hvalid rfl).2 rfl⟩
  · obtain ⟨s, h, hpublishes, hnew, hunused⟩ := D1.exists_publishes
    obtain ⟨document, hdocument⟩ :=
      stored_text ((stringRuleset "\x00").toValue.document Doubles.sample)
    exact ⟨s, h, D1.publish_ok h decodes_text hpublishes hnew hunused rfl hdocument⟩

end LensoFlags
