import LensoFlags.Store
import LensoFlags.Lib.Table

/-!
# The D1 tables and the statements of a commit batch

`migrations/001_feature_flags.sql` and the statements that `storage.rs` submits. A statement gives
`none` when it violates a constraint; a batch is one transaction, so one violation leaves nothing.
The counter behind `AUTOINCREMENT` is unbounded here.
-/

namespace LensoFlags.D1

/-! ## Rows -/

structure FlagRow where
  organizationId : String
  flagKey : String
  rowSeq : Int
  record : FlagRecord

structure EnvironmentRow where
  organizationId : String
  environmentKey : String
  record : EnvironmentRecord

structure RulesetRow (codec : Codec) where
  organizationId : String
  flagKey : String
  environmentKey : String
  revision : Int
  definition : codec.Definition
  publication : PublishRecord

structure CommandRow (codec : Codec) where
  key : CommandKey
  requestHash : List UInt8
  response : Stored codec

/-- The JSON object of a receipt: the `record` column, from which the other columns are extracted. -/
structure ReceiptFields where
  receiptId : String
  evaluationId : String
  flagKey : String
  environmentKey : String
  variantKey : String
  reason : String
  rulesetRevision : String
  contextHash : String
  evaluatedAt : String
  deriving DecidableEq

structure ReceiptRow where
  rowSeq : Int
  receiptId : String
  organizationId : String
  flagKey : String
  environmentKey : String
  caller : String
  actor : String
  operation : String
  evaluationId : String
  record : ReceiptFields

def FlagRow.key (row : FlagRow) : String × String := (row.organizationId, row.flagKey)

def EnvironmentRow.key (row : EnvironmentRow) : String × String :=
  (row.organizationId, row.environmentKey)

/-- The columns of `UNIQUE(caller,actor,operation,evaluation_id,flag_key)`. -/
def ReceiptRow.evaluationKey (row : ReceiptRow) : EvaluationKey :=
  ⟨row.caller, row.actor, row.operation, row.evaluationId, row.flagKey⟩

def RulesetRow.triple {codec : Codec} (row : RulesetRow codec) : String × String × String :=
  (row.organizationId, row.flagKey, row.environmentKey)

structure Tables (codec : Codec) where
  epoch : Int
  guard : List Int
  flags : List FlagRow
  environments : List EnvironmentRow
  rulesets : List (RulesetRow codec)
  commands : List (CommandRow codec)
  receipts : List ReceiptRow
  receiptSeq : Int

variable {codec : Codec}

/-- The state after the migration. -/
def Tables.empty : Tables codec :=
  { epoch := 1, guard := [], flags := [], environments := [], rulesets := [], commands := [],
    receipts := [], receiptSeq := 0 }

namespace Tables

def flag (t : Tables codec) (org key : String) : Option FlagRow :=
  Table.lookup FlagRow.key (org, key) t.flags

def environment (t : Tables codec) (org key : String) : Option EnvironmentRow :=
  Table.lookup EnvironmentRow.key (org, key) t.environments

def command (t : Tables codec) (key : CommandKey) : Option (CommandRow codec) :=
  Table.lookup CommandRow.key key t.commands

/-- The rulesets of one flag in one environment, newest first. -/
def rulesetsOf (t : Tables codec) (org flagKey environmentKey : String) :
    List (RulesetRow codec) :=
  t.rulesets.filter fun row => row.triple = (org, flagKey, environmentKey)

/-- The flag's row with another record. -/
def setFlag (t : Tables codec) (org flagKey : String) (record : FlagRecord) : Tables codec :=
  { t with
    flags := t.flags.map fun row =>
      if row.key = (org, flagKey) then { row with record := record } else row }

def setEnvironment (t : Tables codec) (row : EnvironmentRow) : Tables codec :=
  { t with environments := Table.replace EnvironmentRow.key row t.environments }

end Tables

/-! ## Statements -/

inductive Statement (codec : Codec)
  | guardEpoch (epoch : String)
  | insertCommand (row : CommandRow codec)
  | insertFlag (row : FlagRow)
  | updateFlag (organizationId flagKey : String) (record : FlagRecord)
  | upsertEnvironment (row : EnvironmentRow)
  | insertRuleset (organizationId flagKey environmentKey revision : String)
      (definition : codec.Definition) (publication : PublishRecord)
  | insertReceipts (organizationId caller actor operation : String)
      (receipts : List ReceiptFields)
  | bumpEpoch
  | clearGuard

/-- One row of `INSERT .. SELECT .. FROM json_each`. -/
def receiptRow (organizationId caller actor operation : String) (rowSeq : Int)
    (fields : ReceiptFields) : ReceiptRow :=
  { rowSeq := rowSeq
    receiptId := fields.receiptId
    organizationId := organizationId
    flagKey := fields.flagKey
    environmentKey := fields.environmentKey
    caller := caller
    actor := actor
    operation := operation
    evaluationId := fields.evaluationId
    record := fields }

def insertReceipt (t : Tables codec) (row : ReceiptRow) : Option (Tables codec) :=
  if (Table.lookup ReceiptRow.receiptId row.receiptId t.receipts).isSome
      || (Table.lookup ReceiptRow.evaluationKey row.evaluationKey t.receipts).isSome then none
  else some { t with receipts := row :: t.receipts, receiptSeq := row.rowSeq }

def insertReceiptRows (organizationId caller actor operation : String) :
    Tables codec → List ReceiptFields → Option (Tables codec)
  | t, [] => some t
  | t, fields :: rest =>
      (insertReceipt t
        (receiptRow organizationId caller actor operation (t.receiptSeq + 1) fields)).bind fun t =>
        insertReceiptRows organizationId caller actor operation t rest

def Statement.exec (t : Tables codec) : Statement codec → Option (Tables codec)
  | .guardEpoch epoch =>
      let value : Int := if toString t.epoch = epoch then 1 else 0
      if value = 1 then some { t with guard := value :: t.guard } else none
  | .insertCommand row =>
      if (t.command row.key).isSome then none else some { t with commands := row :: t.commands }
  | .insertFlag row =>
      if (t.flag row.organizationId row.flagKey).isSome
          || t.flags.any (fun other => other.rowSeq = row.rowSeq) then none
      else some { t with flags := row :: t.flags }
  | .updateFlag org flagKey record => some (t.setFlag org flagKey record)
  | .upsertEnvironment row =>
      if (t.environment row.organizationId row.environmentKey).isSome then
        some (t.setEnvironment row)
      else some { t with environments := row :: t.environments }
  | .insertRuleset org flagKey environmentKey revision definition publication =>
      -- The text parameter takes the integer affinity of the column.
      match Decimal.parseI64 revision with
      | none => none
      | some n =>
          if n ≤ 0 || (t.rulesetsOf org flagKey environmentKey).any (fun row => row.revision = n)
              || (t.flag org flagKey).isNone || (t.environment org environmentKey).isNone then none
          else
            some { t with
              rulesets := ⟨org, flagKey, environmentKey, n, definition, publication⟩ :: t.rulesets }
  | .insertReceipts org caller actor operation receipts =>
      insertReceiptRows org caller actor operation t receipts
  | .bumpEpoch => some { t with epoch := t.epoch + 1 }
  | .clearGuard => some { t with guard := [] }

def runStatements : Tables codec → List (Statement codec) → Option (Tables codec)
  | t, [] => some t
  | t, statement :: rest => (statement.exec t).bind fun t => runStatements t rest

/-- `D1Store::batch`: at most 128 statements (none of the above has more than nine parameters), all
or nothing. -/
def batch (t : Tables codec) (statements : List (Statement codec)) : Option (Tables codec) :=
  if statements.length = 0 ∨ 128 < statements.length then none else runStatements t statements

end LensoFlags.D1
