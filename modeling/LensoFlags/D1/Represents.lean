import LensoFlags.D1.Storage
import LensoFlags.Abstract.Sound
import LensoFlags.Agree

/-!
# The content of the D1 tables

`Represents` relates the tables to the abstract store they hold. A snapshot reads the abstract
store's rows (`Reads`, `snapshot_reads`).
-/

namespace LensoFlags.D1

variable {codec : Codec} {rt : Runtime} {t : Tables codec} {c : Abstract.Store codec}

/-! ## Rows -/

def FlagRow.of (flag : Abstract.Flag) : FlagRow :=
  ⟨flag.organizationId, flag.flagKey, flag.rowSeq, flag.record⟩

def EnvironmentRow.of (environment : Abstract.Environment) : EnvironmentRow :=
  ⟨environment.organizationId, environment.environmentKey, environment.record⟩

def RulesetRow.ruleset (row : RulesetRow codec) : Abstract.Ruleset codec :=
  ⟨row.organizationId, row.flagKey, row.environmentKey, row.revision, row.definition⟩

def CommandRow.row (row : CommandRow codec) : Abstract.CommandRow codec :=
  ⟨row.key, row.requestHash, row.response⟩

def ReceiptFields.of (receipt : Abstract.Receipt) : ReceiptFields :=
  { receiptId := receipt.receiptId
    evaluationId := receipt.evaluationId
    flagKey := receipt.flagKey
    environmentKey := receipt.environmentKey
    variantKey := receipt.variantKey
    reason := receipt.reason
    rulesetRevision := toString receipt.rulesetRevision
    contextHash := receipt.contextHash
    evaluatedAt := receipt.evaluatedAt }

def ReceiptRow.of (receipt : Abstract.Receipt) : ReceiptRow :=
  { rowSeq := receipt.rowSeq
    receiptId := receipt.receiptId
    organizationId := receipt.organizationId
    flagKey := receipt.flagKey
    environmentKey := receipt.environmentKey
    caller := receipt.caller
    actor := receipt.actor
    operation := receipt.operation
    evaluationId := receipt.evaluationId
    record := ReceiptFields.of receipt }

/-- The tables hold the rows of the abstract store; the row numbers given out lie below the
counters. -/
structure Represents (t : Tables codec) (c : Abstract.Store codec) : Prop where
  guard : t.guard = []
  epoch : 0 < t.epoch
  flags : t.flags = c.flags.map FlagRow.of
  environments : t.environments = c.environments.map EnvironmentRow.of
  rulesets : t.rulesets.map RulesetRow.ruleset = c.rulesets
  commands : t.commands.map CommandRow.row = c.commands
  receipts : t.receipts = c.receipts.map ReceiptRow.of
  rowSeqs : ∀ flag ∈ c.flags, 0 < flag.rowSeq ∧ flag.rowSeq < t.epoch
  receiptSeqs : ∀ receipt ∈ c.receipts, 0 < receipt.rowSeq ∧ receipt.rowSeq ≤ t.receiptSeq
  receiptSeq : 0 ≤ t.receiptSeq

theorem Represents.empty : Represents (Tables.empty : Tables codec) Abstract.Store.empty where
  guard := rfl
  epoch := Int.zero_lt_one
  flags := rfl
  environments := rfl
  rulesets := rfl
  commands := rfl
  receipts := rfl
  rowSeqs := nofun
  receiptSeqs := nofun
  receiptSeq := le_rfl

section Lookups

variable (hr : Represents t c)

include hr

theorem Represents.flag (org key : String) : t.flag org key = (c.flag org key).map FlagRow.of := by
  rw [Tables.flag, hr.flags]
  exact Table.lookup_map FlagRow.of (fun _ => rfl) _ _

theorem Represents.environment (org key : String) :
    t.environment org key = (c.environment org key).map EnvironmentRow.of := by
  rw [Tables.environment, hr.environments]
  exact Table.lookup_map EnvironmentRow.of (fun _ => rfl) _ _

theorem Represents.command (key : CommandKey) :
    c.command key = (t.command key).map CommandRow.row := by
  rw [Abstract.Store.command, ← hr.commands]
  exact Table.lookup_map CommandRow.row (fun _ => rfl) _ _

theorem Represents.rulesetsOf (org flagKey environmentKey : String) :
    c.rulesetsOf org flagKey environmentKey =
      (t.rulesetsOf org flagKey environmentKey).map RulesetRow.ruleset := by
  rw [Abstract.Store.rulesetsOf, ← hr.rulesets, List.filter_map]
  rfl

theorem Represents.commandKeys (hs : Abstract.Sound rt c) :
    (t.commands.map CommandRow.key).Nodup := by
  have h := hs.commandKeys
  rw [← hr.commands, List.map_map] at h
  exact h

end Lookups

/-! ## Snapshots -/

/-- The snapshot holds the abstract rows of the listed flags and of the environment. -/
structure Reads (t : Tables codec) (c : Abstract.Store codec) (key : CommandKey) (org : String)
    (flagKeys : List String) (environmentKey : String) (snapshot : Snapshot codec) : Prop where
  epoch : snapshot.epoch = t.epoch
  command : snapshot.command = (t.command key).toList
  flags : ∀ flagKey ∈ flagKeys,
    snapshot.flags.lookup flagKey = (c.flag org flagKey).map (·.record)
  environment : snapshot.environment = (c.environment org environmentKey).map (·.record)
  rulesets : ∀ flagKey ∈ flagKeys,
    Option.Rel (fun entry (ruleset : Abstract.Ruleset codec) =>
        entry.1 = toString ruleset.revision ∧
          codec.decodeDefinition ruleset.definition = some entry.2)
      (snapshot.rulesets.lookup flagKey) (c.latest org flagKey environmentKey)

theorem revision_toString {n : Int} (h0 : 0 < n) (h1 : n ≤ Decimal.i64Max) :
    revision (toString n) = .ok n := by
  rw [revision, Decimal.parseI64_toString h0.le h1]
  exact if_pos h0

theorem decodeRulesets_eq_ok {rows : List (RulesetRow codec)}
    {entries : List (String × String × RulesetDefinition)}
    (h : decodeRulesets rows = .ok entries) (key : String) :
    Option.Rel (fun entry (row : RulesetRow codec) =>
        entry.1 = toString row.revision ∧ codec.decodeDefinition row.definition = some entry.2)
      (entries.lookup key) (rows.find? fun row => row.flagKey = key) := by
  induction rows generalizing entries with
  | nil =>
    cases h
    exact .none
  | cons row rows ih =>
    simp only [decodeRulesets, bind_eq_ok, orJson_eq_ok] at h
    obtain ⟨definition, hdecode, rest, hrest, h⟩ := h
    cases h
    rw [List.lookup_cons, List.find?_cons]
    by_cases hk : row.flagKey = key
    · rw [hk, beq_self_eq_true, decide_eq_true rfl]
      exact .some ⟨rfl, hdecode⟩
    · rw [beq_eq_false_iff_ne.mpr (Ne.symm hk), decide_eq_false hk]
      exact ih hrest

/-- A document that does not decode is a JSON error. -/
theorem decodeRulesets_eq_error {rows : List (RulesetRow codec)} {e : StorageError}
    (h : decodeRulesets rows = .error e) :
    e = .json ∧ ∃ row ∈ rows, codec.decodeDefinition row.definition = none := by
  induction rows with
  | nil => cases h
  | cons row rows ih =>
    rw [decodeRulesets] at h
    cases hdecode : codec.decodeDefinition row.definition with
    | none =>
      rw [hdecode] at h
      cases h
      exact ⟨rfl, row, List.mem_cons_self, hdecode⟩
    | some definition =>
      rw [hdecode] at h
      cases hrest : decodeRulesets rows with
      | error e' =>
        rw [hrest] at h
        cases h
        obtain ⟨rfl, row', hmem, hnone⟩ := ih hrest
        exact ⟨rfl, row', List.mem_cons_of_mem _ hmem, hnone⟩
      | ok entries =>
        rw [hrest] at h
        cases h

/-- The rows of a triple that no row of it exceeds: the newest one. -/
theorem find_latest (hr : Represents t c) (hs : Abstract.Sound rt c) {org environment key : String}
    {flags : List String} (hkey : key ∈ flags) :
    ((latestRulesets t org flags environment).find? fun row => row.flagKey = key) =
      (t.rulesetsOf org key environment).head? := by
  have hfind : ((latestRulesets t org flags environment).find? fun row => row.flagKey = key) =
      (t.rulesetsOf org key environment).find? fun row =>
        (t.rulesetsOf org key environment).all fun other => other.revision ≤ row.revision := by
    rw [latestRulesets, Tables.rulesetsOf, List.find?_filter, List.find?_filter]
    congr 1
    funext row
    by_cases hk : row.flagKey = key
    · subst hk
      by_cases ho : row.organizationId = org
      · by_cases he : row.environmentKey = environment
        · simp [RulesetRow.triple, Tables.rulesetsOf, ho, he, hkey]
        · simp [RulesetRow.triple, he]
      · simp [RulesetRow.triple, ho]
    · simp [RulesetRow.triple, hk]
  -- The revisions count down from the newest, so the first row is the one that bounds the others.
  have hnum : ((t.rulesetsOf org key environment).map (·.revision)) =
      Abstract.countdown (t.rulesetsOf org key environment).length := by
    have h := hs.numbered (org, key, environment)
    change (c.rulesetsOf org key environment).map _ =
      Abstract.countdown (c.rulesetsOf org key environment).length at h
    rw [hr.rulesetsOf, List.map_map, List.length_map] at h
    exact h
  rw [hfind]
  cases hl : t.rulesetsOf org key environment with
  | nil => rfl
  | cons row rest =>
    rw [hl, List.map_cons, List.length_cons, Abstract.countdown] at hnum
    obtain ⟨hhead, htail⟩ := List.cons.inj hnum
    rw [List.head?_cons, List.find?_cons_of_pos]
    refine List.all_eq_true.mpr fun other hother => ?_
    rcases List.mem_cons.mp hother with rfl | hother
    · simp
    · have hmem : other.revision ∈ Abstract.countdown rest.length := by
        rw [← htail]
        exact List.mem_map_of_mem hother
      have := (Abstract.mem_countdown hmem).2
      simp only [decide_eq_true_eq]
      omega

theorem snapshot_eq (hr : Represents t c) (hepoch : t.epoch ≤ Decimal.i64Max) (command : Command)
    (operation org : String) (flagKeys : List String) (environmentKey : String) :
    snapshot t command operation org flagKeys environmentKey = (do
      let rulesets ← decodeRulesets (latestRulesets t org flagKeys environmentKey)
      .ok {
        epoch := t.epoch
        command := t.commands.filter fun row => row.key = command.rowKey operation
        flags := (t.flags.filter fun row =>
          row.organizationId = org && flagKeys.contains row.flagKey).map
            fun row => (row.record.flagKey, row.record)
        environment := (t.environment org environmentKey).map (·.record)
        rulesets := rulesets }) := by
  rw [snapshot, revision_toString hr.epoch hepoch]
  rfl

/-- A snapshot fails only over a document that does not decode. -/
theorem snapshot_eq_error (hr : Represents t c) (hepoch : t.epoch ≤ Decimal.i64Max)
    {command : Command} {operation org environmentKey : String} {flagKeys : List String}
    {e : StorageError}
    (h : snapshot t command operation org flagKeys environmentKey = .error e) :
    e = .json ∧ ∃ ruleset ∈ c.rulesets, codec.decodeDefinition ruleset.definition = none := by
  rw [snapshot_eq hr hepoch] at h
  cases hrulesets : decodeRulesets (latestRulesets t org flagKeys environmentKey) with
  | ok rulesets =>
    rw [hrulesets] at h
    cases h
  | error e' =>
    rw [hrulesets] at h
    cases h
    obtain ⟨rfl, row, hrow, hnone⟩ := decodeRulesets_eq_error hrulesets
    refine ⟨rfl, row.ruleset, ?_, hnone⟩
    rw [← hr.rulesets]
    exact List.mem_map_of_mem (List.mem_filter.mp hrow).1

theorem snapshot_reads (hr : Represents t c) (hs : Abstract.Sound rt c)
    (hepoch : t.epoch ≤ Decimal.i64Max) {command : Command} {operation org environmentKey : String}
    {flagKeys : List String} {snap : Snapshot codec}
    (h : snapshot t command operation org flagKeys environmentKey = .ok snap) :
    Reads t c (command.rowKey operation) org flagKeys environmentKey snap := by
  rw [snapshot_eq hr hepoch, bind_eq_ok] at h
  obtain ⟨rulesets, hrulesets, h⟩ := h
  cases h
  refine ⟨rfl, Table.filter_key (hr.commandKeys hs) _, ?_, ?_, ?_⟩
  · intro flagKey hkey
    rw [show (c.flag org flagKey).map (·.record) =
      (t.flag org flagKey).map (·.record) by rw [hr.flag, Option.map_map]; rfl]
    refine Table.lookup_assoc fun row hrow => ?_
    rw [hr.flags] at hrow
    obtain ⟨flag, -, rfl⟩ := List.mem_map.mp hrow
    constructor
    · intro hk
      obtain ⟨horg, hflag⟩ := Prod.mk.inj hk
      exact ⟨by simp [horg, hflag, hkey], hflag⟩
    · rintro ⟨hp, hname⟩
      simp only [Bool.and_eq_true, decide_eq_true_eq] at hp
      exact Prod.ext hp.1 hname
  · rw [hr.environment, Option.map_map]
    rfl
  · intro flagKey hkey
    have h := decodeRulesets_eq_ok hrulesets flagKey
    rw [find_latest hr hs hkey] at h
    rw [Abstract.Store.latest, hr.rulesetsOf, List.head?_map]
    exact rel_map_right h fun _ _ hrow => hrow

/-! ## Reads -/

theorem Represents.getFlag (hr : Represents t c) (org flagKey : String) :
    getFlag t org flagKey = Abstract.getFlag c org flagKey := by
  rw [D1.getFlag, hr.flag, Abstract.getFlag]
  cases c.flag org flagKey <;> rfl

theorem Represents.listFlags (hr : Represents t c) (org : String) (includeArchived : Bool)
    (after : Option Int) {limit : Int} (hlimit : 0 ≤ limit) :
    listFlags t org includeArchived after limit =
      Abstract.listFlags c org includeArchived after limit.toNat := by
  rw [D1.listFlags, page, if_neg (by omega), hr.flags, List.filter_map, Table.orderBy_map,
    ← List.map_take, List.map_map, Abstract.listFlags]
  rfl

theorem receiptRecords_eq {receipts : List Abstract.Receipt}
    (h : ∀ receipt ∈ receipts, 0 < receipt.rowSeq ∧ receipt.rowSeq ≤ Decimal.i64Max) :
    receiptRecords (receipts.map ReceiptRow.of) = .ok (receipts.map Abstract.Receipt.record) := by
  induction receipts with
  | nil => rfl
  | cons receipt receipts ih =>
    obtain ⟨⟨hpos, hmax⟩, hrest⟩ := List.forall_mem_cons.mp h
    rw [List.map_cons, receiptRecords, ih hrest, receiptRecord, ReceiptRow.of,
      revision_toString hpos hmax]
    rfl

/-- The numbers of the receipts are read back as 64-bit integers. -/
theorem Represents.listReceipts (hr : Represents t c)
    (hfits : ∀ receipt ∈ c.receipts, receipt.rowSeq ≤ Decimal.i64Max) (org : String)
    (flagKey environmentKey : Option String) (after : Option Int) {limit : Int}
    (hlimit : 0 ≤ limit) :
    listReceipts t org flagKey environmentKey after limit =
      .ok (Abstract.listReceipts c org flagKey environmentKey after limit.toNat) := by
  rw [D1.listReceipts, page, if_neg (by omega), hr.receipts, List.filter_map, Table.orderBy_map,
    ← List.map_take, receiptRecords_eq]
  · rfl
  · intro receipt hreceipt
    have hmem := (List.mem_filter.mp (Table.mem_orderBy.mp (List.mem_of_mem_take hreceipt))).1
    exact ⟨(hr.receiptSeqs receipt hmem).1, hfits receipt hmem⟩

end LensoFlags.D1
