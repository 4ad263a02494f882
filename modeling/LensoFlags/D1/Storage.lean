import LensoFlags.D1.Schema

/-!
# The D1 store

`storage.rs` of the D1 plugin. A write operation reads one snapshot batch, decides on it, and
submits one commit batch; `prepare` is what it does up to the submission and `D1.call` is the whole
operation run alone.
-/

namespace LensoFlags.D1

variable {codec : Codec}

structure Snapshot (codec : Codec) where
  epoch : Int
  command : List (CommandRow codec)
  flags : List (String × FlagRecord)
  environment : Option EnvironmentRecord
  rulesets : List (String × String × RulesetDefinition)

def failure : StorageError :=
  .backend "D1 operation failed; a submitted write may have committed; retry only with the same idempotency key"

def replay (kind : Kind) (rows : List (CommandRow codec)) (command : Command) :
    Except StorageError (Option Response) :=
  match rows with
  | [] => .ok none
  | [row] =>
      if row.requestHash ≠ command.hash then .error (.domain .idempotencyConflict)
      else (orJson (decodeResponse codec kind row.response)).map some
  | _ => .error failure

def now (rt : Runtime) (draw : Draw) : String := rt.formatTimestamp draw.now

def revision (value : String) : Except StorageError Int :=
  match Decimal.parseI64 value with
  | some v => if 0 < v then .ok v else .error failure
  | none => .error failure

def bump (value : String) : Except StorageError String := do
  let v ← revision value
  if v + 1 ≤ Decimal.i64Max then .ok (toString (v + 1)) else .error failure

def requireFlag (flag : FlagRecord) (expected : Int) : Except StorageError Unit := do
  if flag.archived then .error (.domain .archived)
  else
    let current ← revision flag.revision
    if current ≠ expected then .error (.domain .revisionConflict) else .ok ()

def flagWrite (flag : FlagRecord) (create : Bool) : Statement codec :=
  if create then .insertFlag ⟨flag.organizationId, flag.flagKey, flag.rowSeq, flag⟩
  else .updateFlag flag.organizationId flag.flagKey flag

def environmentWrite (environment : EnvironmentRecord) : Statement codec :=
  .upsertEnvironment ⟨environment.organizationId, environment.environmentKey, environment⟩

/-! ## The snapshot -/

/-- `SELECT .. revision=(SELECT MAX(revision) ..)` for the listed flags. -/
def latestRulesets (t : Tables codec) (org : String) (flags : List String) (environment : String) :
    List (RulesetRow codec) :=
  t.rulesets.filter fun row =>
    row.organizationId = org && row.environmentKey = environment && flags.contains row.flagKey
      && (t.rulesetsOf row.organizationId row.flagKey row.environmentKey).all
        (fun other => other.revision ≤ row.revision)

/-- The rulesets decoded in turn; the first that does not decode fails the snapshot. -/
def decodeRulesets : List (RulesetRow codec) →
    Except StorageError (List (String × String × RulesetDefinition))
  | [] => .ok []
  | row :: rows => do
      let definition ← orJson (codec.decodeDefinition row.definition)
      let rest ← decodeRulesets rows
      .ok ((row.flagKey, toString row.revision, definition) :: rest)

def snapshot (t : Tables codec) (command : Command) (operation org : String) (flags : List String)
    (environment : String) : Except StorageError (Snapshot codec) := do
  let epoch ← revision (toString t.epoch)
  let rulesets ← decodeRulesets (latestRulesets t org flags environment)
  .ok {
    epoch := epoch
    command := t.commands.filter fun row => row.key = command.rowKey operation
    flags := (t.flags.filter fun row => row.organizationId = org && flags.contains row.flagKey).map
      fun row => (row.record.flagKey, row.record)
    environment := (t.environment org environment).map (·.record)
    rulesets := rulesets }

/-! ## Decisions -/

/-- What an operation has come to before its commit batch: an answer, or a batch to submit. -/
inductive Planned (codec : Codec)
  | answered (response : Response)
  | commit (statements : List (Statement codec)) (response : Response)

/-- The commit batch of `D1Store::commit`. -/
def commit (snapshot : Snapshot codec) (command : Command) (operation : String)
    (writes : List (Statement codec)) (response : Response) :
    Except StorageError (Planned codec) := do
  let stored ← orJson (encodeResponse codec response)
  .ok (.commit
    ([.guardEpoch (toString snapshot.epoch),
      .insertCommand ⟨command.rowKey operation, command.hash, stored⟩]
      ++ writes ++ [.bumpEpoch, .clearGuard])
    response)

/-- The replay that opens every write operation; `fresh` goes on without a stored response. -/
def unlessReplayed (kind : Kind) (snapshot : Snapshot codec) (command : Command)
    (fresh : Except StorageError (Planned codec)) : Except StorageError (Planned codec) := do
  match ← replay kind snapshot.command command with
  | some response => .ok (.answered response)
  | none => fresh

def createFlag (rt : Runtime) (δ : Draws) (snapshot : Snapshot codec) (command : Command)
    (organizationId flagKey name : String) (description : Option String) (valueType : String) :
    Except StorageError (Planned codec) :=
  unlessReplayed .flag snapshot command do
    if (snapshot.flags.lookup flagKey).isSome then .error (.domain .alreadyExists)
    else
      let now := now rt (δ 0)
      let record : FlagRecord :=
        { organizationId := organizationId
          flagKey := flagKey
          name := name
          description := description
          valueType := valueType
          archived := false
          revision := "1"
          createdAt := now
          updatedAt := now
          archivedAt := none
          rowSeq := snapshot.epoch }
      commit snapshot command "create_flag" [flagWrite record true] (.flag record)

def updateFlag (rt : Runtime) (δ : Draws) (snapshot : Snapshot codec) (command : Command)
    (flagKey : String) (expectedRevision : Int) (name : String) (description : Option String) :
    Except StorageError (Planned codec) :=
  unlessReplayed .flag snapshot command do
    let record ← okOr .notFound (snapshot.flags.lookup flagKey)
    requireFlag record expectedRevision
    let bumped ← bump record.revision
    let record : FlagRecord :=
      { record with
        name := name, description := description, revision := bumped, updatedAt := now rt (δ 0) }
    commit snapshot command "update_flag" [flagWrite record false] (.flag record)

def archiveFlag (rt : Runtime) (δ : Draws) (snapshot : Snapshot codec) (command : Command)
    (flagKey : String) (expectedRevision : Int) : Except StorageError (Planned codec) :=
  unlessReplayed .flag snapshot command do
    let record ← okOr .notFound (snapshot.flags.lookup flagKey)
    requireFlag record expectedRevision
    let bumped ← bump record.revision
    let now := now rt (δ 0)
    let record : FlagRecord :=
      { record with
        revision := bumped, updatedAt := now, archived := true, archivedAt := some now }
    commit snapshot command "archive_flag" [flagWrite record false] (.flag record)

def putEnvironment (rt : Runtime) (δ : Draws) (snapshot : Snapshot codec) (command : Command)
    (organizationId environmentKey name : String) (expectedRevision : Option Int) :
    Except StorageError (Planned codec) :=
  unlessReplayed .environment snapshot command do
    let now := now rt (δ 0)
    match snapshot.environment, expectedRevision with
    | none, none =>
        let record : EnvironmentRecord :=
          { organizationId := organizationId
            environmentKey := environmentKey
            name := name
            revision := "1"
            createdAt := now
            updatedAt := now }
        commit snapshot command "put_environment" [environmentWrite record] (.environment record)
    | some current, some expected => do
        let actual ← revision current.revision
        if actual ≠ expected then .error (.domain .revisionConflict)
        else
          let bumped ← bump current.revision
          let record : EnvironmentRecord :=
            { current with name := name, revision := bumped, updatedAt := now }
          commit snapshot command "put_environment" [environmentWrite record] (.environment record)
    | none, some _ => .error (.domain .notFound)
    | some _, none => .error (.domain .alreadyExists)

/-- `map_or(Ok("1".into()), |(rev, _)| bump(rev))`. -/
def nextRevision (entry : Option (String × RulesetDefinition)) : Except StorageError String :=
  match entry with
  | none => .ok "1"
  | some (rev, _) => bump rev

def publishRuleset (rt : Runtime) (δ : Draws) (snapshot : Snapshot codec) (command : Command)
    (organizationId flagKey environmentKey : String)
    (expectedFlagRevision expectedEnvironmentRevision : Int) (definition : RulesetDefinition) :
    Except StorageError (Planned codec) :=
  unlessReplayed .publish snapshot command do
    let flag ← okOr .notFound (snapshot.flags.lookup flagKey)
    requireFlag flag expectedFlagRevision
    validateRuleset rt flag.valueType definition
    let environment ← okOr .notFound snapshot.environment
    let actual ← revision environment.revision
    if actual ≠ expectedEnvironmentRevision then .error (.domain .revisionConflict)
    else
      let flagRevision ← bump flag.revision
      let environmentRevision ← bump environment.revision
      let now := now rt (δ 0)
      let flag : FlagRecord := { flag with revision := flagRevision, updatedAt := now }
      let environment : EnvironmentRecord :=
        { environment with revision := environmentRevision, updatedAt := now }
      let next ← nextRevision (snapshot.rulesets.lookup flagKey)
      let record : PublishRecord :=
        { organizationId := organizationId
          flagKey := flagKey
          environmentKey := environmentKey
          rulesetRevision := next
          flagRevision := flag.revision
          environmentRevision := environment.revision
          publishedBy := command.actor
          publishedAt := flag.updatedAt }
      let document ← orJson (codec.encodeDefinition definition)
      commit snapshot command "publish_ruleset"
        [flagWrite flag false, environmentWrite environment,
          .insertRuleset organizationId flagKey environmentKey record.rulesetRevision document
            record]
        (.publish record)

/-! ## Evaluations -/

/-- The body of the loop over the flags, at position `index`. -/
def evaluationAt (rt : Runtime) (snapshot : Snapshot codec) (command : Command)
    (operation org environment targetingKey : String) (attributes : List (String × Json))
    (contextHash : String) (draw : Draw) (index : ℕ) (key : String) :
    Except StorageError (EvaluationRecord × ReceiptFields) := do
  let flag ← okOr .flagNotFound (snapshot.flags.lookup key)
  if flag.archived then .error (.domain .archived)
  else
    let _ ← okOr .environmentNotFound snapshot.environment
    let (rulesetRevision, definition) ←
      okOr .noPublishedRuleset (snapshot.rulesets.lookup key)
    validateRuleset rt flag.valueType definition
    let (variant, reason) ←
      chooseVariant rt org environment key targetingKey attributes definition
    let record : EvaluationRecord :=
      { flagKey := key
        environmentKey := environment
        variantKey := variant.variantKey
        value := variant.value
        reason := reason
        rulesetRevision := rulesetRevision
        receiptId := draw.uuid
        evaluatedAt := now rt draw }
    let evaluationId :=
      if operation = "evaluate" then command.key else Decimal.tag command.key index
    .ok (record,
      { receiptId := record.receiptId
        evaluationId := evaluationId
        flagKey := key
        environmentKey := environment
        variantKey := record.variantKey
        reason := reason
        rulesetRevision := rulesetRevision
        contextHash := contextHash
        evaluatedAt := record.evaluatedAt })

/-- The loop over the flags from position `index` on. -/
def evaluationsFrom (rt : Runtime) (δ : Draws) (snapshot : Snapshot codec) (command : Command)
    (operation org environment targetingKey : String) (attributes : List (String × Json))
    (contextHash : String) :
    ℕ → List String → Except StorageError (List (EvaluationRecord × ReceiptFields))
  | _, [] => .ok []
  | index, key :: keys => do
      let first ← evaluationAt rt snapshot command operation org environment targetingKey attributes
        contextHash (δ index) index key
      let rest ← evaluationsFrom rt δ snapshot command operation org environment targetingKey
        attributes contextHash (index + 1) keys
      .ok (first :: rest)

/-- `D1Store::evaluations`. -/
def evaluations (rt : Runtime) (δ : Draws) (snapshot : Snapshot codec) (command : Command)
    (operation org environment : String) (flags : List String) (targetingKey : String)
    (attributes : List (String × Json)) (contextHash : String) :
    Except StorageError (Planned codec) :=
  unlessReplayed (if operation = "evaluate" then .evaluation else .evaluations) snapshot command do
    let results ← evaluationsFrom rt δ snapshot command operation org environment targetingKey
      attributes contextHash 0 flags
    let records := results.map (·.1)
    let writes := [.insertReceipts org command.caller command.actor operation (results.map (·.2))]
    if operation = "evaluate" then
      match records.getLast? with
      | some record => commit snapshot command operation writes (.evaluation record)
      | none => .error failure
    else commit snapshot command operation writes (.evaluations records)

/-! ## Calls -/

/-- The flags and the environment whose rows the snapshot reads. -/
def scope : Operation → List String × String
  | .createFlag _ flagKey .. => ([flagKey], "")
  | .updateFlag _ flagKey .. => ([flagKey], "")
  | .archiveFlag _ flagKey .. => ([flagKey], "")
  | .putEnvironment _ environmentKey .. => ([], environmentKey)
  | .publishRuleset _ flagKey environmentKey .. => ([flagKey], environmentKey)
  | .evaluate _ environmentKey flagKey .. => ([flagKey], environmentKey)
  | .evaluateBatch _ environmentKey flagKeys .. => (flagKeys, environmentKey)

def plan (rt : Runtime) (δ : Draws) (snapshot : Snapshot codec) (call : Call) :
    Except StorageError (Planned codec) :=
  let command := call.command
  match call.operation with
  | .createFlag org flagKey name description valueType =>
      createFlag rt δ snapshot command org flagKey name description valueType
  | .updateFlag _ flagKey expected name description =>
      updateFlag rt δ snapshot command flagKey expected name description
  | .archiveFlag _ flagKey expected => archiveFlag rt δ snapshot command flagKey expected
  | .putEnvironment org environmentKey name expected =>
      putEnvironment rt δ snapshot command org environmentKey name expected
  | .publishRuleset org flagKey environmentKey expectedFlag expectedEnvironment definition =>
      publishRuleset rt δ snapshot command org flagKey environmentKey expectedFlag
        expectedEnvironment definition
  | .evaluate org environmentKey flagKey targetingKey attributes contextHash =>
      evaluations rt δ snapshot command "evaluate" org environmentKey [flagKey] targetingKey
        attributes contextHash
  | .evaluateBatch org environmentKey flagKeys targetingKey attributes contextHash =>
      evaluations rt δ snapshot command "evaluate_batch" org environmentKey flagKeys targetingKey
        attributes contextHash

/-- The operation up to the submission of its commit batch. -/
def prepare (rt : Runtime) (δ : Draws) (t : Tables codec) (call : Call) :
    Except StorageError (Planned codec) := do
  let (flags, environment) := scope call.operation
  let snapshot ← snapshot t call.command call.operation.name call.operation.organizationId flags
    environment
  plan rt δ snapshot call

/-- The read after a failed commit batch: a stored response answers the call, otherwise the caller
has to retry. -/
def reconcile (t : Tables codec) (call : Call) : Result := do
  let rows := t.commands.filter fun row => row.key = call.commandKey
  match ← replay call.operation.kind rows call.command with
  | some stored => .ok (.replayed stored)
  | none => .error failure

/-- A write operation run alone over a transport that does not fail. -/
def call (rt : Runtime) (δ : Draws) (t : Tables codec) (call : Call) : Result × Tables codec :=
  match prepare rt δ t call with
  | .error e => (.error e, t)
  | .ok (.answered response) => (.ok (.replayed response), t)
  | .ok (.commit statements response) =>
      match batch t statements with
      | some t' => (.ok (.fresh response), t')
      | none => (reconcile t call, t)

/-! ## Reads -/

/-- `LIMIT`: no limit when negative. -/
def page {α : Type} (limit : Int) (rows : List α) : List α :=
  if limit < 0 then rows else rows.take limit.toNat

def getFlag (t : Tables codec) (org flagKey : String) : Except StorageError FlagRecord :=
  okOr .notFound ((t.flag org flagKey).map (·.record))

def listFlags (t : Tables codec) (org : String) (includeArchived : Bool) (after : Option Int)
    (limit : Int) : List FlagRecord :=
  (page limit (Table.orderBy FlagRow.rowSeq (t.flags.filter fun row =>
    row.organizationId = org && (includeArchived || !row.record.archived)
      && decide (after.getD 0 < row.rowSeq)))).map (·.record)

def receiptRecord (row : ReceiptRow) : Except StorageError ReceiptRecord := do
  let rowSeq ← revision (toString row.rowSeq)
  .ok {
    receiptId := row.record.receiptId
    evaluationId := row.record.evaluationId
    flagKey := row.record.flagKey
    environmentKey := row.record.environmentKey
    variantKey := row.record.variantKey
    reason := row.record.reason
    rulesetRevision := row.record.rulesetRevision
    contextHash := row.record.contextHash
    evaluatedAt := row.record.evaluatedAt
    rowSeq := rowSeq }

def receiptRecords : List ReceiptRow → Except StorageError (List ReceiptRecord)
  | [] => .ok []
  | row :: rows => do
      let first ← receiptRecord row
      let rest ← receiptRecords rows
      .ok (first :: rest)

def listReceipts (t : Tables codec) (org : String) (flagKey environmentKey : Option String)
    (after : Option Int) (limit : Int) : Except StorageError (List ReceiptRecord) :=
  receiptRecords (page limit (Table.orderBy ReceiptRow.rowSeq (t.receipts.filter fun row =>
    row.organizationId = org && flagKey.all (· == row.flagKey)
      && environmentKey.all (· == row.environmentKey)
      && decide (after.getD 0 < row.rowSeq))))

end LensoFlags.D1
