import LensoFlags.Store
import LensoFlags.Lib.Table

/-!
# The abstract store

What both backends implement: typed rows, one function for each operation, every check in the order
its failure wins. Timestamps, receipt ids and row numbers are those of a `Stamp`; how a backend
comes by them is its own affair.
-/

namespace LensoFlags.Abstract

/-! ## Rows -/

structure Flag where
  organizationId : String
  flagKey : String
  name : String
  description : Option String
  valueType : String
  archived : Bool
  revision : Int
  createdAt : String
  updatedAt : String
  archivedAt : Option String
  rowSeq : Int

structure Environment where
  organizationId : String
  environmentKey : String
  name : String
  revision : Int
  createdAt : String
  updatedAt : String

structure Ruleset (codec : Codec) where
  organizationId : String
  flagKey : String
  environmentKey : String
  revision : Int
  definition : codec.Definition

structure CommandRow (codec : Codec) where
  key : CommandKey
  requestHash : List UInt8
  response : Stored codec

structure Receipt where
  receiptId : String
  caller : String
  actor : String
  operation : String
  evaluationId : String
  organizationId : String
  flagKey : String
  environmentKey : String
  variantKey : String
  reason : String
  rulesetRevision : Int
  contextHash : String
  evaluatedAt : String
  rowSeq : Int

def Flag.key (flag : Flag) : String × String := (flag.organizationId, flag.flagKey)

def Environment.key (environment : Environment) : String × String :=
  (environment.organizationId, environment.environmentKey)

def Ruleset.triple {codec : Codec} (ruleset : Ruleset codec) : String × String × String :=
  (ruleset.organizationId, ruleset.flagKey, ruleset.environmentKey)

def Receipt.evaluationKey (receipt : Receipt) : EvaluationKey :=
  ⟨receipt.caller, receipt.actor, receipt.operation, receipt.evaluationId, receipt.flagKey⟩

/-- The record answered for a flag. -/
def Flag.record (flag : Flag) : FlagRecord :=
  { organizationId := flag.organizationId
    flagKey := flag.flagKey
    name := flag.name
    description := flag.description
    valueType := flag.valueType
    archived := flag.archived
    revision := toString flag.revision
    createdAt := flag.createdAt
    updatedAt := flag.updatedAt
    archivedAt := flag.archivedAt
    rowSeq := flag.rowSeq }

def Environment.record (environment : Environment) : EnvironmentRecord :=
  { organizationId := environment.organizationId
    environmentKey := environment.environmentKey
    name := environment.name
    revision := toString environment.revision
    createdAt := environment.createdAt
    updatedAt := environment.updatedAt }

def Receipt.record (receipt : Receipt) : ReceiptRecord :=
  { receiptId := receipt.receiptId
    evaluationId := receipt.evaluationId
    flagKey := receipt.flagKey
    environmentKey := receipt.environmentKey
    variantKey := receipt.variantKey
    reason := receipt.reason
    rulesetRevision := toString receipt.rulesetRevision
    contextHash := receipt.contextHash
    evaluatedAt := receipt.evaluatedAt
    rowSeq := receipt.rowSeq }

structure Store (codec : Codec) where
  flags : List Flag
  environments : List Environment
  rulesets : List (Ruleset codec)
  receipts : List Receipt
  commands : List (CommandRow codec)

variable {codec : Codec}

namespace Store

def empty : Store codec :=
  { flags := [], environments := [], rulesets := [], receipts := [], commands := [] }

def flag (c : Store codec) (org key : String) : Option Flag :=
  Table.lookup Flag.key (org, key) c.flags

def environment (c : Store codec) (org key : String) : Option Environment :=
  Table.lookup Environment.key (org, key) c.environments

def command (c : Store codec) (key : CommandKey) : Option (CommandRow codec) :=
  Table.lookup CommandRow.key key c.commands

/-- The rulesets of a flag in an environment, newest first. -/
def rulesetsOf (c : Store codec) (org flagKey environmentKey : String) : List (Ruleset codec) :=
  c.rulesets.filter fun ruleset => ruleset.triple = (org, flagKey, environmentKey)

def latest (c : Store codec) (org flagKey environmentKey : String) : Option (Ruleset codec) :=
  (c.rulesetsOf org flagKey environmentKey).head?

def putFlag (c : Store codec) (flag : Flag) : Store codec :=
  { c with flags := Table.replace Flag.key flag c.flags }

def putEnvironment (c : Store codec) (environment : Environment) : Store codec :=
  { c with environments := Table.replace Environment.key environment c.environments }

end Store

/-! ## Stamps -/

structure EvaluationStamp where
  receiptId : String
  answeredAt : String
  recordedAt : String
  rowSeq : Int

/-- What a backend adds to the rows a call writes; `evaluation` is by position in a batch. -/
structure Stamp where
  createdAt : String
  updatedAt : String
  archivedAt : String
  publishedAt : String
  environmentUpdatedAt : String
  rowSeq : Int
  evaluation : ℕ → EvaluationStamp

/-! ## Operations -/

/-- The stored response of a command that was made before. -/
def replay (c : Store codec) (call : Call) : Except StorageError (Option Response) :=
  match c.command call.commandKey with
  | none => .ok none
  | some row =>
      if row.requestHash ≠ call.command.hash then .error (.domain .idempotencyConflict)
      else (orJson (decodeResponse codec call.operation.kind row.response)).map some

/-- Revisions are 64-bit integers: there is a next one. -/
def requireRoom (revision : Int) : Except StorageError Unit :=
  if revision + 1 ≤ Decimal.i64Max then .ok () else .error (.backend "revision")

def requireRevision (flag : Flag) (expected : Int) : Except StorageError Unit :=
  if flag.archived then .error (.domain .archived)
  else if flag.revision ≠ expected then .error (.domain .revisionConflict)
  else .ok ()

def newFlag (σ : Stamp) (org flagKey name : String) (description : Option String)
    (valueType : String) : Flag :=
  { organizationId := org
    flagKey := flagKey
    name := name
    description := description
    valueType := valueType
    archived := false
    revision := 1
    createdAt := σ.createdAt
    updatedAt := σ.updatedAt
    archivedAt := none
    rowSeq := σ.rowSeq }

def Flag.update (flag : Flag) (σ : Stamp) (name : String) (description : Option String) : Flag :=
  { flag with
    name := name, description := description, revision := flag.revision + 1,
    updatedAt := σ.updatedAt }

def Flag.archive (flag : Flag) (σ : Stamp) : Flag :=
  { flag with
    archived := true, archivedAt := some σ.archivedAt, revision := flag.revision + 1,
    updatedAt := σ.updatedAt }

def Flag.bump (flag : Flag) (σ : Stamp) : Flag :=
  { flag with revision := flag.revision + 1, updatedAt := σ.updatedAt }

def newEnvironment (σ : Stamp) (org environmentKey name : String) : Environment :=
  { organizationId := org
    environmentKey := environmentKey
    name := name
    revision := 1
    createdAt := σ.createdAt
    updatedAt := σ.updatedAt }

def Environment.rename (environment : Environment) (σ : Stamp) (name : String) : Environment :=
  { environment with
    name := name, revision := environment.revision + 1, updatedAt := σ.updatedAt }

def Environment.bump (environment : Environment) (σ : Stamp) : Environment :=
  { environment with
    revision := environment.revision + 1, updatedAt := σ.environmentUpdatedAt }

def createFlag (σ : Stamp) (c : Store codec) (org flagKey name : String)
    (description : Option String) (valueType : String) :
    Except StorageError (Response × Store codec) :=
  if (c.flag org flagKey).isSome then .error (.domain .alreadyExists)
  else
    let flag := newFlag σ org flagKey name description valueType
    .ok (.flag flag.record, { c with flags := flag :: c.flags })

def updateFlag (σ : Stamp) (c : Store codec) (org flagKey : String) (expected : Int)
    (name : String) (description : Option String) : Except StorageError (Response × Store codec) := do
  let flag ← okOr .notFound (c.flag org flagKey)
  requireRevision flag expected
  requireRoom flag.revision
  let flag := flag.update σ name description
  .ok (.flag flag.record, c.putFlag flag)

def archiveFlag (σ : Stamp) (c : Store codec) (org flagKey : String) (expected : Int) :
    Except StorageError (Response × Store codec) := do
  let flag ← okOr .notFound (c.flag org flagKey)
  requireRevision flag expected
  requireRoom flag.revision
  let flag := flag.archive σ
  .ok (.flag flag.record, c.putFlag flag)

def putEnvironment (σ : Stamp) (c : Store codec) (org environmentKey name : String)
    (expected : Option Int) : Except StorageError (Response × Store codec) :=
  match c.environment org environmentKey, expected with
  | none, none =>
      let environment := newEnvironment σ org environmentKey name
      .ok (.environment environment.record,
        { c with environments := environment :: c.environments })
  | some environment, some expected =>
      if environment.revision ≠ expected then .error (.domain .revisionConflict)
      else do
        requireRoom environment.revision
        let environment := environment.rename σ name
        .ok (.environment environment.record, c.putEnvironment environment)
  | some _, none => .error (.domain .alreadyExists)
  | none, some _ => .error (.domain .notFound)

/-- The revision of the newest ruleset, 0 before the first. -/
def Store.published (c : Store codec) (org flagKey environmentKey : String) : Int :=
  ((c.latest org flagKey environmentKey).map (·.revision)).getD 0

def publishRuleset (rt : Runtime) (σ : Stamp) (c : Store codec) (actor org flagKey
    environmentKey : String) (expectedFlag expectedEnvironment : Int)
    (definition : RulesetDefinition) : Except StorageError (Response × Store codec) := do
  let flag ← okOr .notFound (c.flag org flagKey)
  requireRevision flag expectedFlag
  validateRuleset rt flag.valueType definition
  let environment ← okOr .notFound (c.environment org environmentKey)
  if environment.revision ≠ expectedEnvironment then .error (.domain .revisionConflict)
  else
    requireRoom flag.revision
    requireRoom environment.revision
    requireRoom (c.published org flagKey environmentKey)
    let document ← orJson (codec.encodeDefinition definition)
    let next := c.published org flagKey environmentKey + 1
    let ruleset : Ruleset codec := ⟨org, flagKey, environmentKey, next, document⟩
    let c := (c.putFlag (flag.bump σ)).putEnvironment (environment.bump σ)
    .ok (.publish
      { organizationId := org
        flagKey := flagKey
        environmentKey := environmentKey
        rulesetRevision := toString next
        flagRevision := toString (flag.revision + 1)
        environmentRevision := toString (environment.revision + 1)
        publishedBy := actor
        publishedAt := σ.publishedAt },
      { c with rulesets := ruleset :: c.rulesets })

/-! ## Evaluation -/

/-- Whom an evaluation is for, and where. -/
structure Subject where
  organizationId : String
  environmentKey : String
  targetingKey : String
  attributes : List (String × Json)
  contextHash : String

/-- The variant a subject gets, why, and from which ruleset. -/
def choose (rt : Runtime) (c : Store codec) (subject : Subject) (flagKey : String) :
    Except StorageError (VariantRecord × String × Int) := do
  let flag ← okOr .flagNotFound (c.flag subject.organizationId flagKey)
  if flag.archived then .error (.domain .archived)
  else
    let _ ← okOr .environmentNotFound (c.environment subject.organizationId subject.environmentKey)
    let ruleset ← okOr .noPublishedRuleset
      (c.latest subject.organizationId flagKey subject.environmentKey)
    let definition ← orJson (codec.decodeDefinition ruleset.definition)
    validateRuleset rt flag.valueType definition
    let (variant, reason) ← chooseVariant rt subject.organizationId subject.environmentKey flagKey
      subject.targetingKey subject.attributes definition
    .ok (variant, reason, ruleset.revision)

/-- The record answered for one flag and the receipt kept of it. -/
def evaluation (σ : EvaluationStamp) (command : Command) (operation evaluationId : String)
    (subject : Subject) (flagKey : String) (variant : VariantRecord) (reason : String)
    (revision : Int) : EvaluationRecord × Receipt :=
  ({ flagKey := flagKey
     environmentKey := subject.environmentKey
     variantKey := variant.variantKey
     value := variant.value
     reason := reason
     rulesetRevision := toString revision
     receiptId := σ.receiptId
     evaluatedAt := σ.answeredAt },
   { receiptId := σ.receiptId
     caller := command.caller
     actor := command.actor
     operation := operation
     evaluationId := evaluationId
     organizationId := subject.organizationId
     flagKey := flagKey
     environmentKey := subject.environmentKey
     variantKey := variant.variantKey
     reason := reason
     rulesetRevision := revision
     contextHash := subject.contextHash
     evaluatedAt := σ.recordedAt
     rowSeq := σ.rowSeq })

/-- The identifier of an evaluation: the command's key, in a batch with the position. -/
def evaluationId (operation key : String) (index : ℕ) : String :=
  if operation = "evaluate" then key else Decimal.tag key index

/-- The evaluation of one flag, at position `index` of its command. -/
def evaluateOne (rt : Runtime) (σ : Stamp) (c : Store codec) (command : Command)
    (operation : String) (subject : Subject) (index : ℕ) (flagKey : String) :
    Except StorageError (EvaluationRecord × Receipt) := do
  let (variant, reason, revision) ← choose rt c subject flagKey
  .ok (evaluation (σ.evaluation index) command operation
    (evaluationId operation command.key index) subject flagKey variant reason revision)

/-- The evaluations of the listed flags from position `index` on. -/
def evaluateFrom (rt : Runtime) (σ : Stamp) (c : Store codec) (command : Command)
    (operation : String) (subject : Subject) :
    ℕ → List String → Except StorageError (List (EvaluationRecord × Receipt))
  | _, [] => .ok []
  | index, flagKey :: flagKeys => do
      let first ← evaluateOne rt σ c command operation subject index flagKey
      let rest ← evaluateFrom rt σ c command operation subject (index + 1) flagKeys
      .ok (first :: rest)

/-- The receipts of an evaluation join the table in its order. -/
def Store.addReceipts (c : Store codec) (receipts : List Receipt) : Store codec :=
  { c with receipts := receipts.reverse ++ c.receipts }

def evaluate (rt : Runtime) (σ : Stamp) (c : Store codec) (command : Command) (subject : Subject)
    (flagKey : String) : Except StorageError (Response × Store codec) := do
  let (record, receipt) ← evaluateOne rt σ c command "evaluate" subject 0 flagKey
  .ok (.evaluation record, c.addReceipts [receipt])

def evaluateBatch (rt : Runtime) (σ : Stamp) (c : Store codec) (command : Command)
    (subject : Subject) (flagKeys : List String) : Except StorageError (Response × Store codec) := do
  let results ← evaluateFrom rt σ c command "evaluate_batch" subject 0 flagKeys
  .ok (.evaluations (results.map (·.1)), c.addReceipts (results.map (·.2)))

/-! ## Calls -/

def perform (rt : Runtime) (σ : Stamp) (c : Store codec) (call : Call) :
    Except StorageError (Response × Store codec) :=
  match call.operation with
  | .createFlag org flagKey name description valueType =>
      createFlag σ c org flagKey name description valueType
  | .updateFlag org flagKey expected name description =>
      updateFlag σ c org flagKey expected name description
  | .archiveFlag org flagKey expected => archiveFlag σ c org flagKey expected
  | .putEnvironment org environmentKey name expected =>
      putEnvironment σ c org environmentKey name expected
  | .publishRuleset org flagKey environmentKey expectedFlag expectedEnvironment definition =>
      publishRuleset rt σ c call.command.actor org flagKey environmentKey expectedFlag
        expectedEnvironment definition
  | .evaluate org environmentKey flagKey targetingKey attributes contextHash =>
      evaluate rt σ c call.command ⟨org, environmentKey, targetingKey, attributes, contextHash⟩
        flagKey
  | .evaluateBatch org environmentKey flagKeys targetingKey attributes contextHash =>
      evaluateBatch rt σ c call.command ⟨org, environmentKey, targetingKey, attributes, contextHash⟩
        flagKeys

/-- The command row joins the table with the response. -/
def record (c : Store codec) (call : Call) (response : Response) :
    Except StorageError (Store codec) := do
  let stored ← orJson (encodeResponse codec response)
  .ok { c with commands := ⟨call.commandKey, call.command.hash, stored⟩ :: c.commands }

/-- A call whose command was not made before. -/
def fresh (rt : Runtime) (σ : Stamp) (c : Store codec) (call : Call) :
    Except StorageError (Response × Store codec) := do
  let (response, c') ← perform rt σ c call
  let c' ← record c' call response
  .ok (response, c')

/-- A write operation up to its commit. -/
def attempt (rt : Runtime) (σ : Stamp) (c : Store codec) (call : Call) :
    Except StorageError (Answer × Store codec) := do
  match ← replay c call with
  | some response => .ok (.replayed response, c)
  | none =>
      let (response, c') ← fresh rt σ c call
      .ok (.fresh response, c')

/-- A write operation; a failure changes nothing. -/
def exec (rt : Runtime) (σ : Stamp) (c : Store codec) (call : Call) : Result × Store codec :=
  match attempt rt σ c call with
  | .error e => (.error e, c)
  | .ok (answer, c') => (.ok answer, c')

/-! ## Reads -/

def getFlag (c : Store codec) (org flagKey : String) : Except StorageError FlagRecord :=
  (okOr .notFound (c.flag org flagKey)).map Flag.record

def listFlags (c : Store codec) (org : String) (includeArchived : Bool) (after : Option Int)
    (limit : ℕ) : List FlagRecord :=
  ((Table.orderBy Flag.rowSeq (c.flags.filter fun flag =>
    flag.organizationId = org && (includeArchived || !flag.archived)
      && decide (after.getD 0 < flag.rowSeq))).take limit).map Flag.record

def listReceipts (c : Store codec) (org : String) (flagKey environmentKey : Option String)
    (after : Option Int) (limit : ℕ) : List ReceiptRecord :=
  ((Table.orderBy Receipt.rowSeq (c.receipts.filter fun receipt =>
    receipt.organizationId = org && flagKey.all (· == receipt.flagKey)
      && environmentKey.all (· == receipt.environmentKey)
      && decide (after.getD 0 < receipt.rowSeq))).take limit).map Receipt.record

end LensoFlags.Abstract
