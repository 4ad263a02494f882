import LensoFlags.Domain
import Mathlib.Data.List.Dedup

/-!
# Rulesets: validation and choice

`validate_ruleset`, `valid_value`, `choose_variant` and `deterministic_bucket` of `domain.rs`.
-/

namespace LensoFlags

/-- The keys collected into a `BTreeSet`. -/
def keySet (keys : List String) : List String := keys.dedup

/-- The `i64` sum of the basis points, wrapping as a release build does. -/
def rolloutTotal (rollout : List RolloutRecord) : Int64 :=
  (rollout.map (·.basisPoints)).foldl (· + ·) 0

def validValue (rt : Runtime) (expectedType : String) (value : ValueRecord) : Bool :=
  let present := value.booleanValue.isSome.toNat + value.stringValue.isSome.toNat
    + value.integerValue.isSome.toNat + value.doubleValue.isSome.toNat
    + value.jsonValue.isSome.toNat
  present == 1
    && value.valueType == expectedType
    && match expectedType with
      | "boolean" => value.booleanValue.isSome
      | "string" => value.stringValue.any fun s => s.utf8ByteSize ≤ 4000
      | "integer" => value.integerValue.any fun s => (Decimal.parseI64 s).isSome
      | "double" => value.doubleValue.any F64.isFinite
      | "json" => value.jsonValue.any fun fields =>
          (Json.render rt (.object fields)).utf8ByteSize ≤ 16384
      | _ => false

/-- The number of comparison values an operator takes. -/
def validArity (rule : TargetingRuleRecord) : Bool :=
  match rule.operator with
  | "equals" | "not_equals" | "contains" => rule.comparisonValues.length == 1
  | "one_of" => !rule.comparisonValues.isEmpty
  | _ => false

def validateRuleset (rt : Runtime) (valueType : String) (definition : RulesetDefinition) :
    Except StorageError Unit :=
  let variantKeys := keySet (definition.variants.map (·.variantKey))
  if definition.variants.isEmpty
      || variantKeys.length != definition.variants.length
      || !variantKeys.contains definition.fallthroughVariant then
    .error (.domain .invalidRuleset)
  else if !definition.variants.all (fun variant => validValue rt valueType variant.value) then
    .error (.domain .typeMismatch)
  else
    let ruleIds := keySet (definition.targetingRules.map (·.ruleId))
    if ruleIds.length != definition.targetingRules.length
        || !definition.targetingRules.all (fun rule =>
          variantKeys.contains rule.variantKey && validArity rule) then
      .error (.domain .invalidRuleset)
    else
      let rolloutKeys := keySet (definition.percentageRollout.map (·.variantKey))
      let total := rolloutTotal definition.percentageRollout
      if rolloutKeys.length != definition.percentageRollout.length
          || total > 10000
          || definition.percentageRollout.any (fun item =>
            item.basisPoints ≤ 0 || !variantKeys.contains item.variantKey) then
        .error (.domain .invalidRuleset)
      else .ok ()

def variant (definition : RulesetDefinition) (key : String) : Except StorageError VariantRecord :=
  match definition.variants.find? (fun variant => variant.variantKey == key) with
  | some variant => .ok variant
  | none => .error (.domain .invalidRuleset)

/-- The text a context attribute is compared by. -/
def rendered (rt : Runtime) : Json → String
  | .string value => value
  | other => other.render rt

def ruleMatches (rt : Runtime) (value : Json) (rule : TargetingRuleRecord) : Bool :=
  let text := rendered rt value
  match rule.operator with
  | "equals" => rule.comparisonValues.head? == some text
  | "not_equals" => rule.comparisonValues.head? != some text
  | "contains" => rule.comparisonValues.head?.any fun needle =>
      decide (needle.toList <:+: text.toList)
  | "one_of" => rule.comparisonValues.contains text
  | _ => false

/-- The first eight bytes of the digest as a big-endian `u64`, modulo 10000. -/
def deterministicBucket (rt : Runtime)
    (organizationId environmentKey flagKey targetingKey : String) : UInt64 :=
  let input := [organizationId, environmentKey, flagKey, targetingKey].flatMap fun part =>
    part.toUTF8.toList ++ [0]
  ((rt.sha256 input).take 8).foldl (fun acc byte => acc * 256 + byte.toUInt64) 0 % 10000

/-- `u64::try_from`. -/
def u64TryFrom (n : Int64) : Except StorageError UInt64 :=
  if n < 0 then .error (.domain .invalidRuleset) else .ok n.toUInt64

/-- The rollout loop: `upper` is the running bound. -/
def chooseRollout (definition : RulesetDefinition) (bucket : UInt64) :
    List RolloutRecord → UInt64 → Except StorageError (VariantRecord × String)
  | [], _ => (variant definition definition.fallthroughVariant).map (·, "fallthrough")
  | rollout :: rest, upper => do
      let points ← u64TryFrom rollout.basisPoints
      let upper := upper + points
      if bucket < upper then
        (variant definition rollout.variantKey).map (·, "percentage_rollout")
      else chooseRollout definition bucket rest upper

/-- The rule loop looks for the first rule whose attribute is present and matches. -/
def chooseVariant (rt : Runtime)
    (organizationId environmentKey flagKey targetingKey : String)
    (attributes : List (String × Json)) (definition : RulesetDefinition) :
    Except StorageError (VariantRecord × String) :=
  match definition.targetingRules.find? (fun rule =>
    (attributes.lookup rule.ruleAttribute).any fun value => ruleMatches rt value rule) with
  | some rule => (variant definition rule.variantKey).map (·, "target_match")
  | none =>
      chooseRollout definition
        (deterministicBucket rt organizationId environmentKey flagKey targetingKey)
        definition.percentageRollout 0

end LensoFlags
