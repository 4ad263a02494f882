import LensoFlags.Postgres.Storage
import LensoFlags.Abstract.Sound
import LensoFlags.Agree

/-!
# The content of the PostgreSQL tables

`Represents` relates the tables between transactions to the abstract store they hold, `Working` the
rows a transaction sees after it has admitted its command.
-/

namespace LensoFlags.Postgres

variable {codec : Codec} {rt : Runtime} {t : Tables codec} {c : Abstract.Store codec} {call : Call}

/-! ## Rows -/

def FlagRow.flag (rt : Runtime) (row : FlagRow) : Abstract.Flag :=
  { organizationId := row.organizationId
    flagKey := row.flagKey
    name := row.name
    description := row.description
    valueType := row.valueType
    archived := row.archived
    revision := row.revision
    createdAt := rt.formatTimestamp row.createdAt
    updatedAt := rt.formatTimestamp row.updatedAt
    archivedAt := row.archivedAt.map rt.formatTimestamp
    rowSeq := row.rowSeq }

def EnvironmentRow.environment (rt : Runtime) (row : EnvironmentRow) : Abstract.Environment :=
  { organizationId := row.organizationId
    environmentKey := row.environmentKey
    name := row.name
    revision := row.revision
    createdAt := rt.formatTimestamp row.createdAt
    updatedAt := rt.formatTimestamp row.updatedAt }

def RulesetRow.of (row : RulesetRow codec) : Abstract.Ruleset codec :=
  ⟨row.organizationId, row.flagKey, row.environmentKey, row.rulesetRevision, row.ruleset⟩

def ReceiptRow.receipt (rt : Runtime) (row : ReceiptRow) : Abstract.Receipt :=
  { receiptId := row.receiptId
    caller := row.callerInstance
    actor := row.actorSubject
    operation := row.operation
    evaluationId := row.evaluationId
    organizationId := row.organizationId
    flagKey := row.flagKey
    environmentKey := row.environmentKey
    variantKey := row.variantKey
    reason := row.reason
    rulesetRevision := row.rulesetRevision
    contextHash := row.contextHash
    evaluatedAt := rt.formatTimestamp row.evaluatedAt
    rowSeq := row.rowSeq }

/-- A finished command. -/
def CommandRow.of (row : Abstract.CommandRow codec) : CommandRow codec :=
  ⟨row.key, row.requestHash, some row.response⟩

theorem FlagRow.record_flag (row : FlagRow) : (row.flag rt).record = flagFromRow rt row := rfl

/-- The tables but for the commands. -/
structure Rows (rt : Runtime) (t : Tables codec) (c : Abstract.Store codec) : Prop where
  flags : t.flags.map (FlagRow.flag rt) = c.flags
  environments : t.environments.map (EnvironmentRow.environment rt) = c.environments
  rulesets : t.rulesets.map RulesetRow.of = c.rulesets
  receipts : t.receipts.map (ReceiptRow.receipt rt) = c.receipts

/-- Every command has finished. -/
structure Represents (rt : Runtime) (t : Tables codec) (c : Abstract.Store codec) : Prop where
  rows : Rows rt t c
  commands : t.commands = c.commands.map CommandRow.of

/-- The command is admitted and has not finished. -/
structure Working (rt : Runtime) (call : Call) (t : Tables codec) (c : Abstract.Store codec) :
    Prop where
  rows : Rows rt t c
  commands : t.commands =
    ⟨call.commandKey, call.command.hash, none⟩ :: c.commands.map CommandRow.of
  new : c.command call.commandKey = none

theorem Represents.empty : Represents rt (Tables.empty : Tables codec) Abstract.Store.empty :=
  ⟨⟨rfl, rfl, rfl, rfl⟩, rfl⟩

theorem Represents.command (hr : Represents rt t c) (key : CommandKey) :
    t.command key = (c.command key).map CommandRow.of := by
  rw [Tables.command, hr.commands]
  exact Table.lookup_map CommandRow.of (fun _ => rfl) _ _

/-- A receipt more on both sides. -/
theorem Rows.addReceipt (hr : Rows rt t c) (row : ReceiptRow) :
    Rows rt { t with receipts := row :: t.receipts } (c.addReceipts [row.receipt rt]) :=
  { hr with receipts := by rw [List.map_cons, hr.receipts]; rfl }

theorem Represents.addReceipt (hr : Represents rt t c) (row : ReceiptRow) :
    Represents rt { t with receipts := row :: t.receipts } (c.addReceipts [row.receipt rt]) :=
  ⟨hr.rows.addReceipt row, hr.commands⟩

section Rows

variable (hr : Rows rt t c)

include hr

theorem Rows.flag (org key : String) : c.flag org key = (t.flag org key).map (FlagRow.flag rt) := by
  rw [Abstract.Store.flag, ← hr.flags]
  exact Table.lookup_map (FlagRow.flag rt) (fun _ => rfl) _ _

theorem Rows.environment (org key : String) :
    c.environment org key = (t.environment org key).map (EnvironmentRow.environment rt) := by
  rw [Abstract.Store.environment, ← hr.environments]
  exact Table.lookup_map (EnvironmentRow.environment rt) (fun _ => rfl) _ _

theorem Rows.rulesetsOf (org flagKey environmentKey : String) :
    c.rulesetsOf org flagKey environmentKey =
      (t.rulesetsOf org flagKey environmentKey).map RulesetRow.of := by
  rw [Abstract.Store.rulesetsOf, ← hr.rulesets, List.filter_map, Tables.rulesetsOf,
    Tables.rulesetsOfFlag, List.filter_filter]
  congr 2
  funext row
  simp only [Function.comp, Abstract.Ruleset.triple, RulesetRow.of, Prod.mk.injEq,
    Bool.decide_and]
  rw [Bool.and_comm (decide (row.environmentKey = environmentKey)), Bool.and_assoc]

/-- Newest first, the revisions of a triple count down to 1. -/
theorem Rows.revisions (hn : Abstract.Numbered c.rulesets)
    (org flagKey environmentKey : String) :
    (t.rulesetsOf org flagKey environmentKey).map (·.rulesetRevision) =
      Abstract.countdown (t.rulesetsOf org flagKey environmentKey).length := by
  have h := hn (org, flagKey, environmentKey)
  change (c.rulesetsOf org flagKey environmentKey).map _ =
    Abstract.countdown (c.rulesetsOf org flagKey environmentKey).length at h
  rw [hr.rulesetsOf, List.map_map, List.length_map] at h
  exact h

theorem Rows.newestRuleset (hn : Abstract.Numbered c.rulesets)
    (org flagKey environmentKey : String) :
    newestRuleset t org flagKey environmentKey =
      (t.rulesetsOf org flagKey environmentKey).head? := by
  have h := hr.revisions hn org flagKey environmentKey
  rw [Postgres.newestRuleset, Table.orderBy]
  congr 1
  apply List.Pairwise.insertionSort_eq
  have hpairwise := Abstract.countdown_pairwise (t.rulesetsOf org flagKey environmentKey).length
  rw [← h, List.pairwise_map] at hpairwise
  refine hpairwise.imp fun hlt => ?_
  omega

theorem Rows.maxRuleset (hn : Abstract.Numbered c.rulesets)
    (org flagKey environmentKey : String) :
    maxRuleset t org flagKey environmentKey = c.published org flagKey environmentKey := by
  have h := hr.revisions hn org flagKey environmentKey
  rw [Postgres.maxRuleset, h, Abstract.published_eq_length hn, hr.rulesetsOf,
    List.length_map]
  rcases Abstract.countdown_max (t.rulesetsOf org flagKey environmentKey).length 0 with hmax | hzero
  · rw [hmax]
    omega
  · rw [hzero]
    rfl

/-! ## Reads -/

theorem Rows.getFlag (org flagKey : String) :
    getFlag rt t org flagKey = Abstract.getFlag c org flagKey := by
  rw [Abstract.getFlag, hr.flag, Postgres.getFlag]
  cases t.flag org flagKey <;> rfl

theorem Rows.listFlags (describe : DbError → String) (org : String) (includeArchived : Bool)
    (after : Option Int) {limit : Int} (hlimit : 0 ≤ limit) :
    listFlags describe rt t org includeArchived after limit =
      .ok (Abstract.listFlags c org includeArchived after limit.toNat) := by
  rw [Abstract.listFlags, ← hr.flags, List.filter_map, Table.orderBy_map, ← List.map_take,
    List.map_map, Postgres.listFlags, page, if_neg (by omega)]
  rfl

theorem Rows.listReceipts (describe : DbError → String) (org : String)
    (flagKey environmentKey : Option String) (after : Option Int) {limit : Int}
    (hlimit : 0 ≤ limit) :
    listReceipts describe rt t org flagKey environmentKey after limit =
      .ok (Abstract.listReceipts c org flagKey environmentKey after limit.toNat) := by
  rw [Abstract.listReceipts, ← hr.receipts, List.filter_map, Table.orderBy_map, ← List.map_take,
    List.map_map, Postgres.listReceipts, page, if_neg (by omega)]
  rfl

end Rows

end LensoFlags.Postgres
