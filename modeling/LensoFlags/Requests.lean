import LensoFlags.Store
import LensoFlags.Lib.Bytes

/-!
# Requests and their checks

The request types of the two capabilities (`generated.rs`), the checks of `lib.rs` on their fields,
and `ruleset_definition`. The fields of a request stand in the order `serde_json` writes them.
-/

namespace LensoFlags

def maxIdBytes : ℕ := 512
def maxVariants : ℕ := 32
def maxTargetingRules : ℕ := 100
def maxComparisonValues : ℕ := 32

/-! ## Checks -/

/-- `is_ascii_alphanumeric` or one of `.`, `_`, `-`, `:`. -/
def isKeyByte (byte : UInt8) : Bool :=
  (48 ≤ byte && byte ≤ 57) || (65 ≤ byte && byte ≤ 90) || (97 ≤ byte && byte ≤ 122)
    || byte == 46 || byte == 95 || byte == 45 || byte == 58

/-- `char::is_control`: the general category Cc. -/
def isControl (c : Char) : Bool := c.toNat < 32 || (127 ≤ c.toNat && c.toNat < 160)

/-- `char::is_whitespace`: the property White_Space, as `trim` uses it. -/
def isWhitespace (c : Char) : Bool :=
  (9 ≤ c.toNat && c.toNat ≤ 13) || c.toNat == 0x20 || c.toNat == 0x85 || c.toNat == 0xA0
    || c.toNat == 0x1680 || (0x2000 ≤ c.toNat && c.toNat ≤ 0x200A) || c.toNat == 0x2028
    || c.toNat == 0x2029 || c.toNat == 0x202F || c.toNat == 0x205F || c.toNat == 0x3000

def validKey (value : String) (max : ℕ) : Bool :=
  !value.isEmpty && value.utf8ByteSize ≤ max && value.toUTF8.data.toList.all isKeyByte

def validOpaqueId (value : String) : Bool :=
  !value.isEmpty && value.utf8ByteSize ≤ maxIdBytes && !value.toList.contains '\x00'
    && !value.toList.any isControl

def validText (value : String) (max : ℕ) : Bool :=
  !value.toList.all isWhitespace && value.utf8ByteSize ≤ max && !value.toList.contains '\x00'

def validOptionalText (value : Option String) (max : ℕ) : Bool :=
  value.all fun value => validText value max

def validBoundedValue (value : String) (max : ℕ) : Bool :=
  value.utf8ByteSize ≤ max && !value.toList.contains '\x00' && !value.toList.any isControl

/-- No byte of a key is zero. -/
theorem zero_notMem_of_validKey {value : String} {max : ℕ} (h : validKey value max = true) :
    '\x00' ∉ value.toList := by
  intro hmem
  have hbyte := (Bytes.mem_bytes (by decide)).mpr hmem
  exact absurd (List.all_eq_true.mp (Bool.and_eq_true_iff.mp h).2 _ hbyte) (by decide)

theorem zero_notMem_of_validOpaqueId {value : String} (h : validOpaqueId value = true) :
    '\x00' ∉ value.toList := by
  have hzero := (Bool.and_eq_true_iff.mp (Bool.and_eq_true_iff.mp h).1).2
  simpa using hzero

/-- A revision on the wire is a positive `i64`. -/
def parseRevision (value : String) : Option Int :=
  (Decimal.parseI64 value).filter fun revision => 0 < revision

/-- The outer `none` is a cursor that does not parse. -/
def parseCursor : Option String → Option (Option Int)
  | none => some none
  | some value => (parseRevision value).map some

def validMutation (key resource revision : String) : Option Int :=
  if validKey key 200 && validKey resource 128 then parseRevision revision else none

/-! ## Request types -/

inductive ValueType
  | boolean
  | string
  | integer
  | double
  | json
  deriving DecidableEq

/-- `enum_string`: the name the wire has for it. -/
def ValueType.wireName : ValueType → String
  | .boolean => "boolean"
  | .string => "string"
  | .integer => "integer"
  | .double => "double"
  | .json => "json"

inductive Operator
  | equals
  | notEquals
  | contains
  | oneOf
  deriving DecidableEq

def Operator.wireName : Operator → String
  | .equals => "equals"
  | .notEquals => "not_equals"
  | .contains => "contains"
  | .oneOf => "one_of"

/-- The context of both evaluation requests. -/
structure EvaluationContext where
  attributes : List (String × Json)
  targetingKey : String

structure EvaluateRequest where
  context : EvaluationContext
  environmentKey : String
  evaluationId : String
  flagKey : String
  organizationId : String

structure EvaluateBatchRequest where
  batchId : String
  context : EvaluationContext
  environmentKey : String
  flagKeys : List String
  organizationId : String

structure CreateFlagRequest where
  description : Option String
  flagKey : String
  idempotencyKey : String
  name : String
  organizationId : String
  valueType : ValueType

structure GetFlagRequest where
  flagKey : String
  organizationId : String

structure ListFlagsRequest where
  after : Option String
  includeArchived : Bool
  limit : Int64
  organizationId : String

structure UpdateFlagRequest where
  description : Option String
  expectedRevision : String
  flagKey : String
  idempotencyKey : String
  name : String
  organizationId : String

structure ArchiveFlagRequest where
  expectedRevision : String
  flagKey : String
  idempotencyKey : String
  organizationId : String

structure PutEnvironmentRequest where
  environmentKey : String
  expectedRevision : Option String
  idempotencyKey : String
  name : String
  organizationId : String

structure PublishedValue where
  booleanValue : Option Bool
  doubleValue : Option F64
  integerValue : Option String
  jsonValue : Option (List (String × Json))
  stringValue : Option String
  valueType : ValueType

structure PublishedVariant where
  value : PublishedValue
  variantKey : String

structure PublishedRule where
  ruleAttribute : String
  comparisonValues : List String
  operator : Operator
  ruleId : String
  variantKey : String

structure PublishedRollout where
  basisPoints : Int64
  variantKey : String

structure PublishRulesetRequest where
  environmentKey : String
  expectedEnvironmentRevision : String
  expectedFlagRevision : String
  fallthroughVariant : String
  flagKey : String
  idempotencyKey : String
  organizationId : String
  percentageRollout : List PublishedRollout
  targetingRules : List PublishedRule
  variants : List PublishedVariant

structure ListEvaluationReceiptsRequest where
  after : Option String
  environmentKey : Option String
  flagKey : Option String
  limit : Int64
  organizationId : String

/-! ## The definition of a publish request -/

/-- A key that passes the check, by itself. -/
def checkedKey (value : String) : Option String := if validKey value 128 then some value else none

def valueRecord (value : PublishedValue) : ValueRecord :=
  { valueType := value.valueType.wireName
    booleanValue := value.booleanValue
    stringValue := value.stringValue
    integerValue := value.integerValue
    doubleValue := value.doubleValue
    jsonValue := value.jsonValue }

def variantRecord (item : PublishedVariant) : Option VariantRecord := do
  let variantKey ← checkedKey item.variantKey
  return { variantKey, value := valueRecord item.value }

def targetingRuleRecord (rule : PublishedRule) : Option TargetingRuleRecord := do
  let ruleId ← checkedKey rule.ruleId
  let ruleAttribute ← checkedKey rule.ruleAttribute
  let comparisonValues ←
    if rule.comparisonValues.length ≤ maxComparisonValues
        && rule.comparisonValues.all (validBoundedValue · 512) then
      some rule.comparisonValues
    else none
  let variantKey ← checkedKey rule.variantKey
  return { ruleId, ruleAttribute, operator := rule.operator.wireName, comparisonValues, variantKey }

def rolloutRecord (item : PublishedRollout) : Option RolloutRecord := do
  let variantKey ← checkedKey item.variantKey
  return { variantKey, basisPoints := item.basisPoints }

/-- The lists are bounded, the basis points are not. -/
def rulesetDefinition (request : PublishRulesetRequest) : Option RulesetDefinition :=
  if !(1 ≤ request.variants.length && request.variants.length ≤ maxVariants)
      || maxTargetingRules < request.targetingRules.length
      || maxVariants < request.percentageRollout.length
      || !validKey request.fallthroughVariant 128 then none
  else do
    let variants ← optionAll variantRecord request.variants
    let targetingRules ← optionAll targetingRuleRecord request.targetingRules
    let percentageRollout ← optionAll rolloutRecord request.percentageRollout
    return { variants, targetingRules, percentageRollout,
             fallthroughVariant := request.fallthroughVariant }

end LensoFlags
