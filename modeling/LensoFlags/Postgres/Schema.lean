import LensoFlags.Store
import LensoFlags.Lib.Table

/-!
# The PostgreSQL tables and statements

`migrations/001_create_feature_flags.sql` and the SQL of `storage.rs`, one constructor of
`Statement` for each text. `execute` gives a statement's reply and its writes on the rows it sees.

The sequences behind `bigserial` never give a number twice, so the `UNIQUE` constraints on `row_seq`
are not checked. `timestamptz` keeps microseconds.
-/

namespace LensoFlags.Postgres

/-! ## Rows -/

structure FlagRow where
  organizationId : String
  flagKey : String
  name : String
  description : Option String
  valueType : String
  archived : Bool
  revision : Int
  createdAt : Int
  updatedAt : Int
  archivedAt : Option Int
  rowSeq : Int
  deriving DecidableEq

structure EnvironmentRow where
  organizationId : String
  environmentKey : String
  name : String
  revision : Int
  createdAt : Int
  updatedAt : Int
  deriving DecidableEq

structure RulesetRow (codec : Codec) where
  organizationId : String
  flagKey : String
  environmentKey : String
  rulesetRevision : Int
  ruleset : codec.Definition
  publishedBy : String
  publishedAt : Int

structure ReceiptRow where
  receiptId : String
  callerInstance : String
  actorSubject : String
  operation : String
  evaluationId : String
  organizationId : String
  flagKey : String
  environmentKey : String
  variantKey : String
  reason : String
  rulesetRevision : Int
  contextHash : String
  evaluatedAt : Int
  rowSeq : Int
  deriving DecidableEq

/-- `response` is null until the command has finished. -/
structure CommandRow (codec : Codec) where
  key : CommandKey
  requestHash : List UInt8
  response : Option (Stored codec)

variable {codec : Codec}

def FlagRow.key (row : FlagRow) : String × String := (row.organizationId, row.flagKey)

def EnvironmentRow.key (row : EnvironmentRow) : String × String :=
  (row.organizationId, row.environmentKey)

def RulesetRow.triple (row : RulesetRow codec) : String × String × String :=
  (row.organizationId, row.flagKey, row.environmentKey)

def ReceiptRow.evaluationKey (row : ReceiptRow) : EvaluationKey :=
  ⟨row.callerInstance, row.actorSubject, row.operation, row.evaluationId, row.flagKey⟩

structure Tables (codec : Codec) where
  flags : List FlagRow
  environments : List EnvironmentRow
  rulesets : List (RulesetRow codec)
  receipts : List ReceiptRow
  commands : List (CommandRow codec)

/-- The state after the migration. -/
def Tables.empty : Tables codec :=
  { flags := [], environments := [], rulesets := [], receipts := [], commands := [] }

namespace Tables

def flag (t : Tables codec) (org key : String) : Option FlagRow :=
  Table.lookup FlagRow.key (org, key) t.flags

def environment (t : Tables codec) (org key : String) : Option EnvironmentRow :=
  Table.lookup EnvironmentRow.key (org, key) t.environments

def command (t : Tables codec) (key : CommandKey) : Option (CommandRow codec) :=
  Table.lookup CommandRow.key key t.commands

/-- The rulesets of one flag, newest first. -/
def rulesetsOfFlag (t : Tables codec) (org flagKey : String) : List (RulesetRow codec) :=
  t.rulesets.filter fun row => row.organizationId = org ∧ row.flagKey = flagKey

def rulesetsOf (t : Tables codec) (org flagKey environmentKey : String) :
    List (RulesetRow codec) :=
  (t.rulesetsOfFlag org flagKey).filter fun row => row.environmentKey = environmentKey

end Tables

/-! ## Writes -/

inductive Write (codec : Codec)
  | insertFlag (row : FlagRow)
  | updateFlag (row : FlagRow)
  | insertEnvironment (row : EnvironmentRow)
  | updateEnvironment (row : EnvironmentRow)
  | insertRuleset (row : RulesetRow codec)
  | insertReceipt (row : ReceiptRow)
  | insertCommand (row : CommandRow codec)
  | updateCommand (row : CommandRow codec)

def Write.apply (t : Tables codec) : Write codec → Tables codec
  | .insertFlag row => { t with flags := row :: t.flags }
  | .updateFlag row => { t with flags := Table.replace FlagRow.key row t.flags }
  | .insertEnvironment row => { t with environments := row :: t.environments }
  | .updateEnvironment row =>
      { t with environments := Table.replace EnvironmentRow.key row t.environments }
  | .insertRuleset row => { t with rulesets := row :: t.rulesets }
  | .insertReceipt row => { t with receipts := row :: t.receipts }
  | .insertCommand row => { t with commands := row :: t.commands }
  | .updateCommand row => { t with commands := Table.replace CommandRow.key row t.commands }

/-! ## Statements -/

/-- The errors a statement of a healthy connection can end in. -/
inductive DbError
  | uniqueViolation
  | checkViolation
  | foreignKeyViolation
  | numericValueOutOfRange
  | invalidJson
  | invalidRowCountInLimitClause
  | rowNotFound
  deriving DecidableEq

/-- What `lock_flag` decodes. -/
structure LockedFlag where
  revision : Int
  archived : Bool
  valueType : String
  deriving DecidableEq

inductive Statement (codec : Codec)
  /-- `SELECT request_hash,response_json .. FOR UPDATE` -/
  | selectCommand (key : CommandKey)
  | insertCommand (key : CommandKey) (requestHash : List UInt8)
  | updateCommand (key : CommandKey) (response : Response)
  | insertFlag (organizationId flagKey name : String) (description : Option String)
      (valueType : String)
  | selectFlag (organizationId flagKey : String)
  /-- `SELECT revision,archived,value_type .. FOR UPDATE` -/
  | lockFlag (organizationId flagKey : String)
  /-- `SELECT value_type,archived .. FOR SHARE` -/
  | shareFlag (organizationId flagKey : String)
  | updateFlag (organizationId flagKey name : String) (description : Option String)
  | archiveFlag (organizationId flagKey : String)
  | bumpFlag (organizationId flagKey : String)
  /-- `SELECT revision .. FOR UPDATE` -/
  | lockEnvironment (organizationId environmentKey : String)
  | insertEnvironment (organizationId environmentKey name : String)
  | updateEnvironment (organizationId environmentKey name : String)
  | bumpEnvironment (organizationId environmentKey : String)
  | selectEnvironment (organizationId environmentKey : String)
  /-- `SELECT 1 FROM feature_environments` -/
  | existsEnvironment (organizationId environmentKey : String)
  /-- `SELECT COALESCE(MAX(ruleset_revision),0)+1` -/
  | nextRuleset (organizationId flagKey environmentKey : String)
  /-- `INSERT .. RETURNING published_at` -/
  | insertRuleset (organizationId flagKey environmentKey : String) (rulesetRevision : Int)
      (definition : RulesetDefinition) (publishedBy : String)
  /-- `SELECT ruleset_revision,ruleset_json .. ORDER BY ruleset_revision DESC LIMIT 1` -/
  | latestRuleset (organizationId flagKey environmentKey : String)
  /-- `Uuid::new_v4` and `OffsetDateTime::now_utc`, in the client. -/
  | generate
  | insertReceipt (receiptId : String) (command : Command) (operation evaluationId organizationId
      flagKey environmentKey variantKey reason : String) (rulesetRevision : Int)
      (contextHash : String) (evaluatedAt : Int)

def Statement.Reply : Statement codec → Type
  | .selectCommand _ => Option (List UInt8 × Option (Stored codec))
  | .insertCommand .. => Except DbError Unit
  | .updateCommand .. => Except DbError Unit
  | .insertFlag .. => Except DbError Unit
  | .selectFlag .. => Option FlagRow
  | .lockFlag .. => Option LockedFlag
  | .shareFlag .. => Option (String × Bool)
  | .updateFlag .. => Except DbError Unit
  | .archiveFlag .. => Except DbError Unit
  | .bumpFlag .. => Except DbError Int
  | .lockEnvironment .. => Option Int
  | .insertEnvironment .. => Except DbError Unit
  | .updateEnvironment .. => Except DbError Unit
  | .bumpEnvironment .. => Except DbError Int
  | .selectEnvironment .. => Option EnvironmentRow
  | .existsEnvironment .. => Bool
  | .nextRuleset .. => Except DbError Int
  | .insertRuleset .. => Except DbError Int
  | .latestRuleset .. => Option (Int × codec.Definition)
  | .generate => String × Int
  | .insertReceipt .. => Except DbError Unit

/-- 2000-01-01T00:00:00Z in nanoseconds. -/
def pgEpoch : Int := 946684800000000000

/-- An instant as `timestamptz` keeps it: whole microseconds from `pgEpoch`. -/
def micros (instant : Int) : Int := (instant - pgEpoch).tdiv 1000 * 1000 + pgEpoch

def valueTypes : List String := ["boolean", "string", "integer", "double", "json"]

def reasons : List String := ["target_match", "percentage_rollout", "fallthrough"]

/-- `revision+1` in a `bigint`. -/
def nextBigint (n : Int) : Except DbError Int :=
  if n + 1 ≤ Decimal.i64Max then .ok (n + 1) else .error .numericValueOutOfRange

/-- An `UPDATE` of one flag with the next revision; no row is no error. -/
def changeFlag (t : Tables codec) (org flagKey : String) (change : FlagRow → Int → FlagRow) :
    Except DbError (Option FlagRow) :=
  match t.flag org flagKey with
  | none => .ok none
  | some row =>
      match nextBigint row.revision with
      | .error e => .error e
      | .ok revision => .ok (some (change row revision))

def changeEnvironment (t : Tables codec) (org environmentKey : String)
    (change : EnvironmentRow → Int → EnvironmentRow) : Except DbError (Option EnvironmentRow) :=
  match t.environment org environmentKey with
  | none => .ok none
  | some row =>
      match nextBigint row.revision with
      | .error e => .error e
      | .ok revision => .ok (some (change row revision))

/-- An `UPDATE` of the row that was found. -/
def changed {Row : Type} (revision : Row → Int) (change : Row → Int → Row) :
    Option Row → Except DbError (Option Row)
  | none => .ok none
  | some row => (nextBigint (revision row)).map fun next => some (change row next)

theorem changeFlag_eq (t : Tables codec) (org flagKey : String) (change : FlagRow → Int → FlagRow) :
    changeFlag t org flagKey change = changed (·.revision) change (t.flag org flagKey) := by
  cases hrow : t.flag org flagKey with
  | none =>
    rw [changeFlag, hrow]
    rfl
  | some row =>
    simp only [changeFlag, changed, hrow]
    cases nextBigint row.revision with
    | error e => rfl
    | ok next => rfl

theorem changeEnvironment_eq (t : Tables codec) (org environmentKey : String)
    (change : EnvironmentRow → Int → EnvironmentRow) :
    changeEnvironment t org environmentKey change =
      changed (·.revision) change (t.environment org environmentKey) := by
  cases hrow : t.environment org environmentKey with
  | none =>
    rw [changeEnvironment, hrow]
    rfl
  | some row =>
    simp only [changeEnvironment, changed, hrow]
    cases nextBigint row.revision with
    | error e => rfl
    | ok next => rfl

theorem changed_eq_some {Row : Type} {revision : Row → Int} {change : Row → Int → Row}
    {found : Option Row} {row' : Row} (h : changed revision change found = .ok (some row')) :
    ∃ row next, found = some row ∧ row' = change row next := by
  cases found with
  | none => cases h
  | some row =>
    rw [changed] at h
    cases hnext : nextBigint (revision row) with
    | error e =>
      rw [hnext] at h
      cases h
    | ok next =>
      rw [hnext] at h
      cases h
      exact ⟨row, next, rfl, rfl⟩

/-- The reply and the write of an `UPDATE`. -/
def updated {α Row : Type} (write : Row → Write codec) (reply : Option Row → Except DbError α) :
    Except DbError (Option Row) → Except DbError α × List (Write codec)
  | .error e => (.error e, [])
  | .ok row => (reply row, (row.map write).toList)

/-- `RETURNING revision`, fetched as one row. -/
def returning {Row : Type} (revision : Row → Int) : Option Row → Except DbError Int
  | none => .error .rowNotFound
  | some row => .ok (revision row)

/-- `ORDER BY ruleset_revision DESC LIMIT 1`. -/
def newestRuleset (t : Tables codec) (org flagKey environmentKey : String) :
    Option (RulesetRow codec) :=
  (Table.orderBy (fun row => -row.rulesetRevision)
    (t.rulesetsOf org flagKey environmentKey)).head?

/-- The greatest revision, 0 without one. -/
def maxRuleset (t : Tables codec) (org flagKey environmentKey : String) : Int :=
  ((t.rulesetsOf org flagKey environmentKey).map (·.rulesetRevision)).foldl max 0

/-- A statement's reply and writes on the rows it sees. -/
def Statement.execute (draw : Draw) :
    (s : Statement codec) → Tables codec → s.Reply × List (Write codec)
  | .selectCommand key, t =>
      ((t.command key).map fun row => (row.requestHash, row.response), [])
  | .insertCommand key requestHash, t =>
      if (t.command key).isSome then (.error .uniqueViolation, [])
      else (.ok (), [.insertCommand ⟨key, requestHash, none⟩])
  | .updateCommand key response, t =>
      match encodeResponse codec response with
      | none => (.error .invalidJson, [])
      | some stored =>
          (.ok (), ((t.command key).map fun row =>
            Write.updateCommand { row with response := some stored }).toList)
  | .insertFlag org flagKey name description valueType, t =>
      if valueType ∉ valueTypes then (.error .checkViolation, [])
      else if (t.flag org flagKey).isSome then (.error .uniqueViolation, [])
      else
        (.ok (), [.insertFlag
          { organizationId := org
            flagKey := flagKey
            name := name
            description := description
            valueType := valueType
            archived := false
            revision := 1
            createdAt := micros draw.now
            updatedAt := micros draw.later
            archivedAt := none
            rowSeq := draw.flagSeq }])
  | .selectFlag org flagKey, t => (t.flag org flagKey, [])
  | .lockFlag org flagKey, t =>
      ((t.flag org flagKey).map fun row => ⟨row.revision, row.archived, row.valueType⟩, [])
  | .shareFlag org flagKey, t =>
      ((t.flag org flagKey).map fun row => (row.valueType, row.archived), [])
  | .updateFlag org flagKey name description, t =>
      updated .updateFlag (fun _ => .ok ()) (changeFlag t org flagKey fun row revision =>
        { row with
          name := name, description := description, revision := revision,
          updatedAt := micros draw.later })
  | .archiveFlag org flagKey, t =>
      updated .updateFlag (fun _ => .ok ()) (changeFlag t org flagKey fun row revision =>
        { row with
          archived := true, archivedAt := some (micros draw.now), revision := revision,
          updatedAt := micros draw.later })
  | .bumpFlag org flagKey, t =>
      updated .updateFlag (returning (·.revision)) (changeFlag t org flagKey fun row revision =>
        { row with revision := revision, updatedAt := micros draw.later })
  | .lockEnvironment org environmentKey, t =>
      ((t.environment org environmentKey).map (·.revision), [])
  | .insertEnvironment org environmentKey name, t =>
      if (t.environment org environmentKey).isSome then (.error .uniqueViolation, [])
      else
        (.ok (), [.insertEnvironment
          { organizationId := org
            environmentKey := environmentKey
            name := name
            revision := 1
            createdAt := micros draw.now
            updatedAt := micros draw.later }])
  | .updateEnvironment org environmentKey name, t =>
      updated .updateEnvironment (fun _ => .ok ())
        (changeEnvironment t org environmentKey fun row revision =>
          { row with name := name, revision := revision, updatedAt := micros draw.later })
  | .bumpEnvironment org environmentKey, t =>
      updated .updateEnvironment (returning (·.revision))
        (changeEnvironment t org environmentKey fun row revision =>
          { row with revision := revision, updatedAt := micros draw.later })
  | .selectEnvironment org environmentKey, t => (t.environment org environmentKey, [])
  | .existsEnvironment org environmentKey, t => ((t.environment org environmentKey).isSome, [])
  | .nextRuleset org flagKey environmentKey, t =>
      (nextBigint (maxRuleset t org flagKey environmentKey), [])
  | .insertRuleset org flagKey environmentKey rulesetRevision definition publishedBy, t =>
      match codec.encodeDefinition definition with
      | none => (.error .invalidJson, [])
      | some document =>
          if rulesetRevision ≤ 0 then (.error .checkViolation, [])
          else if (t.rulesetsOf org flagKey environmentKey).any
              (fun row => row.rulesetRevision = rulesetRevision) then
            (.error .uniqueViolation, [])
          else if (t.flag org flagKey).isNone || (t.environment org environmentKey).isNone then
            (.error .foreignKeyViolation, [])
          else
            (.ok (micros draw.now), [.insertRuleset
              ⟨org, flagKey, environmentKey, rulesetRevision, document, publishedBy,
                micros draw.now⟩])
  | .latestRuleset org flagKey environmentKey, t =>
      ((newestRuleset t org flagKey environmentKey).map fun row =>
        (row.rulesetRevision, row.ruleset), [])
  | .generate, _ => ((draw.uuid, draw.now), [])
  | .insertReceipt receiptId command operation evaluationId org flagKey environmentKey variantKey
      reason rulesetRevision contextHash evaluatedAt, t =>
      if rulesetRevision ≤ 0 || reason ∉ reasons then (.error .checkViolation, [])
      else
        let row : ReceiptRow :=
          { receiptId := receiptId
            callerInstance := command.caller
            actorSubject := command.actor
            operation := operation
            evaluationId := evaluationId
            organizationId := org
            flagKey := flagKey
            environmentKey := environmentKey
            variantKey := variantKey
            reason := reason
            rulesetRevision := rulesetRevision
            contextHash := contextHash
            evaluatedAt := micros evaluatedAt
            rowSeq := draw.receiptSeq }
        if (Table.lookup ReceiptRow.receiptId receiptId t.receipts).isSome
            || (Table.lookup ReceiptRow.evaluationKey row.evaluationKey t.receipts).isSome then
          (.error .uniqueViolation, [])
        else (.ok (), [.insertReceipt row])

end LensoFlags.Postgres
