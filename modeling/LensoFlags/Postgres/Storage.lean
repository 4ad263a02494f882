import LensoFlags.Postgres.Schema
import LensoFlags.Lib.Locking

/-!
# The PostgreSQL store

`storage.rs` of the PostgreSQL plugin. A write operation is one transaction, written as the program
of its statements; `begin` and `commit` are those of the transaction.
-/

namespace LensoFlags.Postgres

open Locking (Program)

variable {codec : Codec}

abbrev Transaction (codec : Codec) := Program (Statement codec) Statement.Reply StorageError

/-- One statement, with its reply. -/
def query (s : Statement codec) : Transaction codec s.Reply := Program.perform s

section Programs

-- The text of a database error, as the driver renders it.
variable (describe : DbError → String)

def database (operation : String) (source : DbError) : StorageError :=
  .backend ("database failure during " ++ operation ++ ": " ++ describe source)

/-- `map_err(|source| database(operation, source))?`. -/
def orDatabase {α : Type} (operation : String) : Except DbError α → Transaction codec α
  | .ok a => .ret a
  | .error e => .fail (database describe operation e)

/-- The same, with a failure of its own for a unique violation. -/
def orUnique (failure : DomainFailure) (operation : String) :
    Except DbError Unit → Transaction codec Unit
  | .ok () => .ret ()
  | .error .uniqueViolation => .fail (.domain failure)
  | .error e => .fail (database describe operation e)

/-- `?` of a pure step. -/
def lift {α : Type} : Except StorageError α → Transaction codec α
  | .ok a => .ret a
  | .error e => .fail e

/-! ## Commands -/

def admitCommand (kind : Kind) (command : Command) (operation : String) :
    Transaction codec (Option Response) := do
  match ← query (.selectCommand (command.rowKey operation)) with
  | some (requestHash, response) =>
      if requestHash ≠ command.hash then .fail (.domain .idempotencyConflict)
      else
        match response with
        | none => .fail (.domain .operationInProgress)
        | some response => do
            let replay ← lift (orJson (decodeResponse codec kind response))
            return some replay
  | none => do
      orUnique describe .operationInProgress "insert command receipt"
        (← query (.insertCommand (command.rowKey operation) command.hash))
      return none

def finishCommand (command : Command) (operation : String) (response : Response) :
    Transaction codec Unit := do
  orDatabase describe "finish command receipt"
    (← query (.updateCommand (command.rowKey operation) response))

/-- The shape of every write operation: a replay, or the operation's own statements and the
response recorded. -/
def transaction (call : Call) (fresh : Transaction codec Response) : Transaction codec Answer := do
  match ← admitCommand describe call.operation.kind call.command call.operation.name with
  | some replay => return .replayed replay
  | none => do
      let response ← fresh
      finishCommand describe call.command call.operation.name response
      return .fresh response

/-! ## Rows -/

variable (rt : Runtime)

def flagFromRow (row : FlagRow) : FlagRecord :=
  { organizationId := row.organizationId
    flagKey := row.flagKey
    name := row.name
    description := row.description
    valueType := row.valueType
    archived := row.archived
    revision := toString row.revision
    createdAt := rt.formatTimestamp row.createdAt
    updatedAt := rt.formatTimestamp row.updatedAt
    archivedAt := row.archivedAt.map rt.formatTimestamp
    rowSeq := row.rowSeq }

def environmentFromRow (row : EnvironmentRow) : EnvironmentRecord :=
  { organizationId := row.organizationId
    environmentKey := row.environmentKey
    name := row.name
    revision := toString row.revision
    createdAt := rt.formatTimestamp row.createdAt
    updatedAt := rt.formatTimestamp row.updatedAt }

def receiptFromRow (row : ReceiptRow) : ReceiptRecord :=
  { receiptId := row.receiptId
    evaluationId := row.evaluationId
    flagKey := row.flagKey
    environmentKey := row.environmentKey
    variantKey := row.variantKey
    reason := row.reason
    rulesetRevision := toString row.rulesetRevision
    contextHash := row.contextHash
    evaluatedAt := rt.formatTimestamp row.evaluatedAt
    rowSeq := row.rowSeq }

def readFlagTx (organizationId flagKey : String) : Transaction codec FlagRecord := do
  let row ← lift (okOr .notFound (← query (.selectFlag organizationId flagKey)))
  return flagFromRow rt row

def readEnvironmentTx (organizationId environmentKey : String) :
    Transaction codec EnvironmentRecord := do
  let row ← lift (okOr .notFound (← query (.selectEnvironment organizationId environmentKey)))
  return environmentFromRow rt row

def lockFlag (organizationId flagKey : String) : Transaction codec LockedFlag := do
  lift (okOr .notFound (← query (.lockFlag organizationId flagKey)))

def requireFlagRevision (flag : LockedFlag) (expected : Int) : Except StorageError Unit :=
  if flag.archived then .error (.domain .archived)
  else if flag.revision ≠ expected then .error (.domain .revisionConflict)
  else .ok ()

def bumpFlag (organizationId flagKey : String) : Transaction codec Int := do
  orDatabase describe "bump flag" (← query (.bumpFlag organizationId flagKey))

def bumpEnvironment (organizationId environmentKey : String) : Transaction codec Int := do
  orDatabase describe "bump environment" (← query (.bumpEnvironment organizationId environmentKey))

/-! ## Operations -/

def createFlag (organizationId flagKey name : String) (description : Option String)
    (valueType : String) : Transaction codec Response := do
  orUnique describe .alreadyExists "insert flag"
    (← query (.insertFlag organizationId flagKey name description valueType))
  return .flag (← readFlagTx rt organizationId flagKey)

def updateFlag (organizationId flagKey : String) (expectedRevision : Int) (name : String)
    (description : Option String) : Transaction codec Response := do
  let current ← lockFlag organizationId flagKey
  lift (requireFlagRevision current expectedRevision)
  orDatabase describe "update flag"
    (← query (.updateFlag organizationId flagKey name description))
  return .flag (← readFlagTx rt organizationId flagKey)

def archiveFlag (organizationId flagKey : String) (expectedRevision : Int) :
    Transaction codec Response := do
  let current ← lockFlag organizationId flagKey
  lift (requireFlagRevision current expectedRevision)
  orDatabase describe "archive flag" (← query (.archiveFlag organizationId flagKey))
  return .flag (← readFlagTx rt organizationId flagKey)

def putEnvironment (organizationId environmentKey name : String) (expectedRevision : Option Int) :
    Transaction codec Response := do
  let existing ← query (.lockEnvironment organizationId environmentKey)
  match existing, expectedRevision with
  | none, none =>
      orUnique describe .alreadyExists "insert environment"
        (← query (.insertEnvironment organizationId environmentKey name))
  | some revision, some expected =>
      if revision ≠ expected then .fail (.domain .revisionConflict)
      else
        orDatabase describe "update environment"
          (← query (.updateEnvironment organizationId environmentKey name))
  | some _, none => .fail (.domain .alreadyExists)
  | none, some _ => .fail (.domain .notFound)
  return .environment (← readEnvironmentTx rt organizationId environmentKey)

def publishRuleset (command : Command) (organizationId flagKey environmentKey : String)
    (expectedFlagRevision expectedEnvironmentRevision : Int) (definition : RulesetDefinition) :
    Transaction codec Response := do
  let flag ← lockFlag organizationId flagKey
  lift (requireFlagRevision flag expectedFlagRevision)
  lift (validateRuleset rt flag.valueType definition)
  let environmentRevision ←
    lift (okOr .notFound (← query (.lockEnvironment organizationId environmentKey)))
  if environmentRevision ≠ expectedEnvironmentRevision then .fail (.domain .revisionConflict)
  else do
    let nextRevision ← orDatabase describe "allocate ruleset revision"
      (← query (.nextRuleset organizationId flagKey environmentKey))
    let publishedAt ← orDatabase describe "insert ruleset"
      (← query (.insertRuleset organizationId flagKey environmentKey nextRevision definition
        command.actor))
    let flagRevision ← bumpFlag describe organizationId flagKey
    let environmentRevision ← bumpEnvironment describe organizationId environmentKey
    return .publish
      { organizationId := organizationId
        flagKey := flagKey
        environmentKey := environmentKey
        rulesetRevision := toString nextRevision
        flagRevision := toString flagRevision
        environmentRevision := toString environmentRevision
        publishedBy := command.actor
        publishedAt := rt.formatTimestamp publishedAt }

def evaluateOne (command : Command) (operation organizationId environmentKey flagKey evaluationId
    targetingKey : String) (attributes : List (String × Json)) (contextHash : String) :
    Transaction codec EvaluationRecord := do
  let (valueType, archived) ←
    lift (okOr .flagNotFound (← query (.shareFlag organizationId flagKey)))
  if archived then .fail (.domain .archived)
  else do
    let environment : Bool ← query (.existsEnvironment organizationId environmentKey)
    if environment = false then .fail (.domain .environmentNotFound)
    else do
      let (rulesetRevision, ruleset) ← lift (okOr .noPublishedRuleset
        (← query (.latestRuleset organizationId flagKey environmentKey)))
      let definition ← lift (orJson (codec.decodeDefinition ruleset))
      lift (validateRuleset rt valueType definition)
      let (variant, reason) ← lift (chooseVariant rt organizationId environmentKey flagKey
        targetingKey attributes definition)
      let (receiptId, evaluatedAt) ← query .generate
      orDatabase describe "insert evaluation receipt"
        (← query (.insertReceipt receiptId command operation evaluationId organizationId flagKey
          environmentKey variant.variantKey reason rulesetRevision contextHash evaluatedAt))
      return {
        flagKey := flagKey
        environmentKey := environmentKey
        variantKey := variant.variantKey
        value := variant.value
        reason := reason
        rulesetRevision := toString rulesetRevision
        receiptId := receiptId
        evaluatedAt := rt.formatTimestamp evaluatedAt }

/-- The loop of `evaluate_batch` from position `index` on. -/
def evaluateFrom (command : Command) (organizationId environmentKey targetingKey : String)
    (attributes : List (String × Json)) (contextHash : String) :
    ℕ → List String → Transaction codec (List EvaluationRecord)
  | _, [] => return []
  | index, flagKey :: flagKeys => do
      let record ← evaluateOne describe rt command "evaluate_batch" organizationId environmentKey
        flagKey (Decimal.tag command.key index) targetingKey attributes contextHash
      let records ← evaluateFrom command organizationId environmentKey targetingKey attributes
        contextHash (index + 1) flagKeys
      return record :: records

/-- A write operation behind its replay. -/
def fresh (call : Call) : Transaction codec Response :=
  match call.operation with
  | .createFlag org flagKey name description valueType =>
      createFlag describe rt org flagKey name description valueType
  | .updateFlag org flagKey expected name description =>
      updateFlag describe rt org flagKey expected name description
  | .archiveFlag org flagKey expected => archiveFlag describe rt org flagKey expected
  | .putEnvironment org environmentKey name expected =>
      putEnvironment describe rt org environmentKey name expected
  | .publishRuleset org flagKey environmentKey expectedFlag expectedEnvironment definition =>
      publishRuleset describe rt call.command org flagKey environmentKey expectedFlag
        expectedEnvironment definition
  | .evaluate org environmentKey flagKey targetingKey attributes contextHash => do
      return .evaluation (← evaluateOne describe rt call.command "evaluate" org environmentKey
        flagKey call.command.key targetingKey attributes contextHash)
  | .evaluateBatch org environmentKey flagKeys targetingKey attributes contextHash => do
      return .evaluations (← evaluateFrom describe rt call.command org environmentKey targetingKey
        attributes contextHash 0 flagKeys)

/-! ## Reads -/

def getFlag (t : Tables codec) (org flagKey : String) : Except StorageError FlagRecord :=
  (okOr .notFound (t.flag org flagKey)).map (flagFromRow rt)

/-- `LIMIT`, an error when negative. -/
def page {Row : Type} (operation : String) (limit : Int) (rows : List Row) :
    Except StorageError (List Row) :=
  if limit < 0 then .error (database describe operation .invalidRowCountInLimitClause)
  else .ok (rows.take limit.toNat)

def listFlags (t : Tables codec) (org : String) (includeArchived : Bool) (after : Option Int)
    (limit : Int) : Except StorageError (List FlagRecord) := do
  let rows ← page describe "list flags" limit (Table.orderBy FlagRow.rowSeq
    (t.flags.filter fun row => row.organizationId = org && (includeArchived || !row.archived)
      && decide (after.getD 0 < row.rowSeq)))
  .ok (rows.map (flagFromRow rt))

def listReceipts (t : Tables codec) (org : String) (flagKey environmentKey : Option String)
    (after : Option Int) (limit : Int) : Except StorageError (List ReceiptRecord) := do
  let rows ← page describe "list evaluation receipts" limit (Table.orderBy ReceiptRow.rowSeq
    (t.receipts.filter fun row => row.organizationId = org && flagKey.all (· == row.flagKey)
      && environmentKey.all (· == row.environmentKey) && decide (after.getD 0 < row.rowSeq)))
  .ok (rows.map (receiptFromRow rt))

/-! ## The database -/

/-- What is locked: a flag with its rulesets, an environment, a command row, and the unique keys of
receipts. -/
inductive Resource
  | flag (organizationId flagKey : String)
  | environment (organizationId environmentKey : String)
  | command (key : CommandKey)
  | receiptId (id : String)
  | evaluation (key : EvaluationKey)
  deriving DecidableEq

/-- The lock of an `INSERT` that violates nothing: the duplicate of an uncommitted row waits. -/
def whenOk {α : Type} (locks : List (Resource × Locking.Mode)) :
    Except DbError α → List (Resource × Locking.Mode)
  | .ok _ => locks
  | .error _ => []

/-- The lock of a `SELECT .. FOR ..` that finds its row. -/
def whenFound {α : Type} (lock : Resource × Locking.Mode) :
    Option α → List (Resource × Locking.Mode)
  | some _ => [lock]
  | none => []

/-- The locks of a statement that gives the reply. -/
def Statement.locks : (s : Statement codec) → s.Reply → List (Resource × Locking.Mode)
  | .selectCommand key, reply => whenFound (.command key, .exclusive) reply
  | .insertCommand key _, reply => whenOk [(.command key, .exclusive)] reply
  | .updateCommand key _, reply => whenOk [(.command key, .exclusive)] reply
  | .insertFlag org flagKey .., reply => whenOk [(.flag org flagKey, .exclusive)] reply
  | .selectFlag .., _ => []
  | .lockFlag org flagKey, reply => whenFound (.flag org flagKey, .exclusive) reply
  | .shareFlag org flagKey, reply => whenFound (.flag org flagKey, .shared) reply
  | .updateFlag org flagKey .., reply => whenOk [(.flag org flagKey, .exclusive)] reply
  | .archiveFlag org flagKey, reply => whenOk [(.flag org flagKey, .exclusive)] reply
  | .bumpFlag org flagKey, reply => whenOk [(.flag org flagKey, .exclusive)] reply
  | .lockEnvironment org environmentKey, reply =>
      whenFound (.environment org environmentKey, .exclusive) reply
  | .insertEnvironment org environmentKey _, reply =>
      whenOk [(.environment org environmentKey, .exclusive)] reply
  | .updateEnvironment org environmentKey _, reply =>
      whenOk [(.environment org environmentKey, .exclusive)] reply
  | .bumpEnvironment org environmentKey, reply =>
      whenOk [(.environment org environmentKey, .exclusive)] reply
  | .selectEnvironment .., _ => []
  | .existsEnvironment .., _ => []
  | .nextRuleset .., _ => []
  | .insertRuleset org flagKey environmentKey .., reply =>
      -- The foreign keys lock the referenced rows against changes of their keys.
      whenOk [(.flag org flagKey, .shared), (.environment org environmentKey, .shared)] reply
  | .latestRuleset .., _ => []
  | .generate, _ => []
  | .insertReceipt receiptId command operation evaluationId _ flagKey .., reply =>
      whenOk [(.receiptId receiptId, .exclusive),
        (.evaluation ⟨command.caller, command.actor, operation, evaluationId, flagKey⟩,
          .exclusive)] reply

variable (codec) in
/-- The plugin's transactions on its tables. -/
abbrev store : Locking.Database :=
  { Stmt := Statement codec
    Reply := Statement.Reply
    Draw := Draw
    Store := Tables codec
    Write := Write codec
    Res := Resource
    Err := StorageError
    Value := Answer
    Call := Call
    exec := fun draw s t => s.execute draw t
    apply := fun w t => w.apply t
    locks := Statement.locks
    body := fun call => transaction describe call (fresh describe rt call)
    interrupts := fun e => ∃ detail, e = .backend detail }

end Programs

end LensoFlags.Postgres
