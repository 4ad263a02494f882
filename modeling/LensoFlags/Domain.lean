import LensoFlags.Json
import LensoFlags.Lib.Decimal

/-!
# Records, failures and commands

The data of `domain.rs`. Field names follow the source. A `BTreeMap<String, Value>` is the list of
its entries in key order.
-/

namespace LensoFlags

structure ValueRecord where
  valueType : String
  booleanValue : Option Bool
  stringValue : Option String
  integerValue : Option String
  doubleValue : Option F64
  jsonValue : Option (List (String × Json))

structure VariantRecord where
  variantKey : String
  value : ValueRecord

structure TargetingRuleRecord where
  ruleId : String
  ruleAttribute : String
  operator : String
  comparisonValues : List String
  variantKey : String
  deriving DecidableEq

structure RolloutRecord where
  variantKey : String
  basisPoints : Int64
  deriving DecidableEq

structure RulesetDefinition where
  variants : List VariantRecord
  targetingRules : List TargetingRuleRecord
  percentageRollout : List RolloutRecord
  fallthroughVariant : String

structure FlagRecord where
  organizationId : String
  flagKey : String
  name : String
  description : Option String
  valueType : String
  archived : Bool
  revision : String
  createdAt : String
  updatedAt : String
  archivedAt : Option String
  rowSeq : Int
  deriving DecidableEq

structure EnvironmentRecord where
  organizationId : String
  environmentKey : String
  name : String
  revision : String
  createdAt : String
  updatedAt : String
  deriving DecidableEq

structure PublishRecord where
  organizationId : String
  flagKey : String
  environmentKey : String
  rulesetRevision : String
  flagRevision : String
  environmentRevision : String
  publishedBy : String
  publishedAt : String
  deriving DecidableEq

structure EvaluationRecord where
  flagKey : String
  environmentKey : String
  variantKey : String
  value : ValueRecord
  reason : String
  rulesetRevision : String
  receiptId : String
  evaluatedAt : String

structure ReceiptRecord where
  receiptId : String
  evaluationId : String
  flagKey : String
  environmentKey : String
  variantKey : String
  reason : String
  rulesetRevision : String
  contextHash : String
  evaluatedAt : String
  rowSeq : Int
  deriving DecidableEq

/-- The idempotency scope of one write: caller instance, actor, key and the hash of the request. -/
structure Command where
  caller : String
  actor : String
  key : String
  hash : List UInt8
  deriving DecidableEq

inductive DomainFailure
  | notFound
  | flagNotFound
  | environmentNotFound
  | noPublishedRuleset
  | archived
  | revisionConflict
  | idempotencyConflict
  | operationInProgress
  | alreadyExists
  | typeMismatch
  | invalidRuleset
  deriving DecidableEq, Repr

inductive StorageError
  | domain (failure : DomainFailure)
  | backend (detail : String)
  | json
  | time
  deriving DecidableEq

/-- `impl From<DomainFailure> for StorageError`, as `?` and `.into()` use it. -/
instance : Coe DomainFailure StorageError := ⟨.domain⟩

/-- The error is a domain failure. -/
def StorageError.isDomain : StorageError → Bool
  | .domain _ => true
  | _ => false

end LensoFlags
