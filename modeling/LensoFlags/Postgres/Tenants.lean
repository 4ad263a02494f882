import LensoFlags.Abstract.Alike
import LensoFlags.Lib.Paging
import LensoFlags.Postgres.Listings
import LensoFlags.Tenants

/-!
# The PostgreSQL transactions of one organization

A call of an organization, run alone on two databases that hold the same rows of the organization,
takes the same statements on both (`Beside`): the replies tell of its rows only, and so do the
writes.

Results:
1. `Seen.apply`: writes that are alike keep what the organization sees.
2. `transaction_beside`: a transaction on the two databases.
-/

namespace LensoFlags.Postgres

variable {codec : Codec} {describe : DbError → String} {rt : Runtime} {ρ : Renaming}
  {org flagKey environmentKey : String}

/-! ## Rows -/

/-- Equal but for what stands for each other. -/
def FlagRow.Alike (rt : Runtime) (ρ : Renaming) (row row' : FlagRow) : Prop :=
  (row.flag rt).Alike ρ (row'.flag rt)

def EnvironmentRow.Alike (rt : Runtime) (ρ : Renaming) (row row' : EnvironmentRow) : Prop :=
  (row.environment rt).Alike ρ (row'.environment rt)

structure RulesetRow.Alike (rt : Runtime) (ρ : Renaming) (row row' : RulesetRow codec) : Prop where
  publishedAt : ρ.time (rt.formatTimestamp row.publishedAt) (rt.formatTimestamp row'.publishedAt)
  rest : { row with publishedAt := row'.publishedAt } = row'

def ReceiptRow.Alike (rt : Runtime) (ρ : Renaming) (row row' : ReceiptRow) : Prop :=
  (row.receipt rt).Alike ρ (row'.receipt rt)

/-- The same rows of the organization. -/
structure Tables.Agree (org : String) (t t' : Tables codec) : Prop where
  flags : ∀ row : FlagRow, row.organizationId = org → (row ∈ t.flags ↔ row ∈ t'.flags)
  environments : ∀ row : EnvironmentRow, row.organizationId = org →
    (row ∈ t.environments ↔ row ∈ t'.environments)
  rulesets : ∀ row : RulesetRow codec, row.organizationId = org →
    (row ∈ t.rulesets ↔ row ∈ t'.rulesets)
  receipts : ∀ row : ReceiptRow, row.organizationId = org →
    (row ∈ t.receipts ↔ row ∈ t'.receipts)

/-- Rows of the organization that are alike. -/
structure Tables.Alike (rt : Runtime) (ρ : Renaming) (org : String) (t t' : Tables codec) :
    Prop where
  flags : Table.Matched (fun row : FlagRow => row.organizationId = org) (FlagRow.Alike rt ρ)
    t.flags t'.flags
  environments : Table.Matched (fun row : EnvironmentRow => row.organizationId = org)
    (EnvironmentRow.Alike rt ρ) t.environments t'.environments
  rulesets : Table.Matched (fun row : RulesetRow codec => row.organizationId = org)
    (RulesetRow.Alike rt ρ) t.rulesets t'.rulesets
  receipts : Table.Matched (fun row : ReceiptRow => row.organizationId = org)
    (ReceiptRow.Alike rt ρ) t.receipts t'.receipts

/-- The rows of every other organization are as they were. -/
structure Tables.Elsewhere (org : String) (t t' : Tables codec) : Prop where
  flags : t'.flags.filter (fun row => row.organizationId ≠ org) =
    t.flags.filter fun row => row.organizationId ≠ org
  environments : t'.environments.filter (fun row => row.organizationId ≠ org) =
    t.environments.filter fun row => row.organizationId ≠ org
  rulesets : t'.rulesets.filter (fun row => row.organizationId ≠ org) =
    t.rulesets.filter fun row => row.organizationId ≠ org
  receipts : t'.receipts.filter (fun row => row.organizationId ≠ org) =
    t.receipts.filter fun row => row.organizationId ≠ org

theorem Tables.Elsewhere.refl (org : String) (t : Tables codec) : t.Elsewhere org t :=
  ⟨rfl, rfl, rfl, rfl⟩

/-- Another organization sees the same rows. -/
theorem Tables.Elsewhere.agree {other : String} {t t' : Tables codec} (h : t.Elsewhere other t')
    (hne : org ≠ other) : t.Agree org t' := by
  have houtside : ∀ {o : String}, o = org → decide (o ≠ other) = true :=
    fun horg => decide_eq_true (horg ▸ hne)
  exact ⟨fun _ horg => Table.mem_congr_of_filter h.flags (houtside horg),
    fun _ horg => Table.mem_congr_of_filter h.environments (houtside horg),
    fun _ horg => Table.mem_congr_of_filter h.rulesets (houtside horg),
    fun _ horg => Table.mem_congr_of_filter h.receipts (houtside horg)⟩

theorem FlagRow.Alike.key {row row' : FlagRow} (h : row.Alike rt ρ row') : row.key = row'.key :=
  Abstract.Flag.Alike.key h

theorem FlagRow.Alike.revision {row row' : FlagRow} (h : row.Alike rt ρ row') :
    row.revision = row'.revision :=
  Abstract.Flag.Alike.revision h

theorem FlagRow.Alike.archived {row row' : FlagRow} (h : row.Alike rt ρ row') :
    row.archived = row'.archived :=
  Abstract.Flag.Alike.archived h

theorem FlagRow.Alike.valueType {row row' : FlagRow} (h : row.Alike rt ρ row') :
    row.valueType = row'.valueType :=
  Abstract.Flag.Alike.valueType h

theorem EnvironmentRow.Alike.key {row row' : EnvironmentRow} (h : row.Alike rt ρ row') :
    row.key = row'.key :=
  Abstract.Environment.Alike.key h

theorem EnvironmentRow.Alike.revision {row row' : EnvironmentRow} (h : row.Alike rt ρ row') :
    row.revision = row'.revision :=
  Abstract.Environment.Alike.revision h

theorem RulesetRow.Alike.triple {row row' : RulesetRow codec} (h : row.Alike rt ρ row') :
    row.triple = row'.triple := by
  have htriple := congrArg RulesetRow.triple h.rest
  exact htriple

theorem ReceiptRow.Alike.organizationId {row row' : ReceiptRow} (h : row.Alike rt ρ row') :
    row.organizationId = row'.organizationId := by
  have horg := congrArg Abstract.Receipt.organizationId h.rest
  exact horg

/-! ## Writes -/

/-- The row is the organization's, or a command's. -/
def Write.Owned (org : String) : Write codec → Prop
  | .insertFlag row => row.organizationId = org
  | .updateFlag row => row.organizationId = org
  | .insertEnvironment row => row.organizationId = org
  | .updateEnvironment row => row.organizationId = org
  | .insertRuleset row => row.organizationId = org
  | .insertReceipt row => row.organizationId = org
  | .insertCommand _ => True
  | .updateCommand _ => True

/-- The same change of rows of the organization. -/
inductive Write.Alike (rt : Runtime) (ρ : Renaming) (org : String) :
    Write codec → Write codec → Prop
  | insertFlag {row row' : FlagRow} : row.organizationId = org → row.Alike rt ρ row' →
      Alike rt ρ org (.insertFlag row) (.insertFlag row')
  | updateFlag {row row' : FlagRow} : row.organizationId = org → row.Alike rt ρ row' →
      Alike rt ρ org (.updateFlag row) (.updateFlag row')
  | insertEnvironment {row row' : EnvironmentRow} : row.organizationId = org →
      row.Alike rt ρ row' → Alike rt ρ org (.insertEnvironment row) (.insertEnvironment row')
  | updateEnvironment {row row' : EnvironmentRow} : row.organizationId = org →
      row.Alike rt ρ row' → Alike rt ρ org (.updateEnvironment row) (.updateEnvironment row')
  | insertRuleset {row row' : RulesetRow codec} : row.organizationId = org →
      row.Alike rt ρ row' → Alike rt ρ org (.insertRuleset row) (.insertRuleset row')
  | insertReceipt {row row' : ReceiptRow} : row.organizationId = org → row.Alike rt ρ row' →
      Alike rt ρ org (.insertReceipt row) (.insertReceipt row')

/-- What the organization sees of two databases is alike, and both are as they were elsewhere. -/
structure Seen (rt : Runtime) (ρ : Renaming) (org : String) (t₀ t₀' t t' : Tables codec) :
    Prop where
  flag : ∀ key, Option.Rel (FlagRow.Alike rt ρ) (t.flag org key) (t'.flag org key)
  environment : ∀ key,
    Option.Rel (EnvironmentRow.Alike rt ρ) (t.environment org key) (t'.environment org key)
  rulesets : ∀ flagKey environmentKey, List.Forall₂ (RulesetRow.Alike rt ρ)
    (t.rulesetsOf org flagKey environmentKey) (t'.rulesetsOf org flagKey environmentKey)
  receipts : Table.Matched (fun row : ReceiptRow => row.organizationId = org)
    (ReceiptRow.Alike rt ρ) t.receipts t'.receipts
  kept : t₀.Elsewhere org t
  kept' : t₀'.Elsewhere org t'

section Writes

variable {t₀ t₀' t t' : Tables codec}

theorem outside {o : String} (h : o = org) : decide (o ≠ org) = false :=
  decide_eq_false (not_not_intro h)

/-- A write of the organization leaves the rows of the others. -/
theorem Tables.Elsewhere.apply (h : t₀.Elsewhere org t) {w : Write codec} (hw : w.Owned org) :
    t₀.Elsewhere org (w.apply t) := by
  -- A row in front of a table, and a row put for one of its key, are the organization's.
  have hcons : ∀ {Row : Type} {organization : Row → String} {row : Row} {rows : List Row},
      organization row = org → (row :: rows).filter (fun row => organization row ≠ org) =
        rows.filter fun row => organization row ≠ org :=
    fun horg => List.filter_cons_of_neg (ne_true_of_eq_false (outside horg))
  cases w with
  | insertFlag row => exact { h with flags := (hcons hw).trans h.flags }
  | updateFlag row =>
    refine { h with flags := (Table.filter_replace_of_neg (fun a b hab => ?_) ?_).trans h.flags }
    · rw [show a.organizationId = b.organizationId from congrArg Prod.fst hab]
    · exact outside hw
  | insertEnvironment row => exact { h with environments := (hcons hw).trans h.environments }
  | updateEnvironment row =>
    refine { h with
      environments := (Table.filter_replace_of_neg (fun a b hab => ?_) ?_).trans h.environments }
    · rw [show a.organizationId = b.organizationId from congrArg Prod.fst hab]
    · exact outside hw
  | insertRuleset row => exact { h with rulesets := (hcons hw).trans h.rulesets }
  | insertReceipt row => exact { h with receipts := (hcons hw).trans h.receipts }
  | insertCommand => exact { h with }
  | updateCommand => exact { h with }

theorem Write.Alike.owned {w w' : Write codec} (h : Write.Alike rt ρ org w w') :
    w.Owned org ∧ w'.Owned org := by
  cases h with
  | insertFlag horg hrow => exact ⟨horg, (congrArg Prod.fst hrow.key).symm.trans horg⟩
  | updateFlag horg hrow => exact ⟨horg, (congrArg Prod.fst hrow.key).symm.trans horg⟩
  | insertEnvironment horg hrow => exact ⟨horg, (congrArg Prod.fst hrow.key).symm.trans horg⟩
  | updateEnvironment horg hrow => exact ⟨horg, (congrArg Prod.fst hrow.key).symm.trans horg⟩
  | insertRuleset horg hrow => exact ⟨horg, (congrArg Prod.fst hrow.triple).symm.trans horg⟩
  | insertReceipt horg hrow => exact ⟨horg, hrow.organizationId.symm.trans horg⟩

theorem Seen.apply (h : Seen rt ρ org t₀ t₀' t t') {w w' : Write codec}
    (hw : Write.Alike rt ρ org w w') : Seen rt ρ org t₀ t₀' (w.apply t) (w'.apply t') := by
  have hkept := h.kept.apply hw.owned.1
  have hkept' := h.kept'.apply hw.owned.2
  obtain ⟨hflag, henvironment, hrulesets, hreceipts, -, -⟩ := h
  cases hw with
  | insertFlag _ hrow =>
    exact ⟨fun key => Table.rel_lookup_cons (hflag key) hrow.key hrow, henvironment, hrulesets,
      hreceipts, hkept, hkept'⟩
  | updateFlag _ hrow =>
    exact ⟨fun key => Table.rel_lookup_replace (hflag key) hrow.key hrow, henvironment, hrulesets,
      hreceipts, hkept, hkept'⟩
  | insertEnvironment _ hrow =>
    exact ⟨hflag, fun key => Table.rel_lookup_cons (henvironment key) hrow.key hrow, hrulesets,
      hreceipts, hkept, hkept'⟩
  | updateEnvironment _ hrow =>
    exact ⟨hflag, fun key => Table.rel_lookup_replace (henvironment key) hrow.key hrow, hrulesets,
      hreceipts, hkept, hkept'⟩
  | @insertRuleset row row' _ hrow =>
    refine ⟨hflag, henvironment, fun flagKey environmentKey => ?_, hreceipts, hkept, hkept'⟩
    obtain ⟨horg, hpair⟩ := Prod.mk.inj hrow.triple
    obtain ⟨hflagKey, henvironmentKey⟩ := Prod.mk.inj hpair
    have hrest := hrulesets flagKey environmentKey
    simp only [Tables.rulesetsOf, Tables.rulesetsOfFlag, Write.apply, List.filter_cons] at hrest ⊢
    rw [← horg, ← hflagKey]
    split
    · rw [List.filter_cons, List.filter_cons, ← henvironmentKey]
      split
      · exact .cons hrow hrest
      · exact hrest
    · exact hrest
  | insertReceipt _ hrow =>
    exact ⟨hflag, henvironment, hrulesets, hreceipts.cons hrow, hkept, hkept'⟩

/-- The commands are not seen. -/
theorem Seen.commands (h : Seen rt ρ org t₀ t₀' t t') (commands commands' : List (CommandRow codec)) :
    Seen rt ρ org t₀ t₀' { t with commands := commands } { t' with commands := commands' } :=
  ⟨h.flag, h.environment, h.rulesets, h.receipts, { h.kept with }, { h.kept' with }⟩

end Writes

/-! ## Statements -/

/-- Related replies, and writes that are alike. -/
structure Answered (rt : Runtime) (ρ : Renaming) (org : String) {α β : Type} (R : α → β → Prop)
    (x : α × List (Write codec)) (x' : β × List (Write codec)) : Prop where
  reply : R x.1 x'.1
  writes : List.Forall₂ (Write.Alike rt ρ org) x.2 x'.2

/-- What the calls draw stands for each other. -/
structure Stand (ρ : Renaming) (δ δ' : Draws) : Prop where
  time : ∀ a b, ρ.time a b
  receiptId : ∀ i, ρ.receiptId (δ i).uuid (δ' i).uuid
  flagSeq : ∀ i, ρ.flagSeq (δ i).flagSeq (δ' i).flagSeq
  receiptSeq : ∀ i, ρ.receiptSeq (δ i).receiptSeq (δ' i).receiptSeq

section Statements

variable {t₀ t₀' t t' : Tables codec} {δ δ' : Draws} {n : ℕ}
  (h : Seen rt ρ org t₀ t₀' t t') (hρ : Stand ρ δ δ')

include h

theorem Seen.applyAll {ws ws' : List (Write codec)}
    (hws : List.Forall₂ (Write.Alike rt ρ org) ws ws') :
    Seen rt ρ org t₀ t₀' (ws.foldl (fun t w => w.apply t) t)
      (ws'.foldl (fun t w => w.apply t) t') := by
  induction hws generalizing t t' with
  | nil => exact h
  | cons hw _ ih => exact ih (h.apply hw)

theorem Seen.lockFlag :
    (t.flag org flagKey).map (fun row => LockedFlag.mk row.revision row.archived row.valueType) =
      (t'.flag org flagKey).map fun row => ⟨row.revision, row.archived, row.valueType⟩ :=
  Table.map_eq_of_rel (h.flag flagKey) fun _ _ hrow => by
    rw [hrow.revision, hrow.archived, hrow.valueType]

theorem Seen.shareFlag :
    (t.flag org flagKey).map (fun row => (row.valueType, row.archived)) =
      (t'.flag org flagKey).map fun row => (row.valueType, row.archived) :=
  Table.map_eq_of_rel (h.flag flagKey) fun _ _ hrow => by rw [hrow.archived, hrow.valueType]

theorem Seen.lockEnvironment :
    (t.environment org environmentKey).map (·.revision) =
      (t'.environment org environmentKey).map (·.revision) :=
  Table.map_eq_of_rel (h.environment environmentKey) fun _ _ hrow => hrow.revision

theorem Seen.flag_isSome : (t.flag org flagKey).isSome = (t'.flag org flagKey).isSome :=
  Table.isSome_eq_of_rel (h.flag flagKey)

theorem Seen.environment_isSome :
    (t.environment org environmentKey).isSome = (t'.environment org environmentKey).isSome :=
  Table.isSome_eq_of_rel (h.environment environmentKey)

theorem Seen.revisions :
    (t.rulesetsOf org flagKey environmentKey).map (·.rulesetRevision) =
      (t'.rulesetsOf org flagKey environmentKey).map (·.rulesetRevision) := by
  rw [← List.forall₂_eq_eq_eq, List.forall₂_map_left_iff, List.forall₂_map_right_iff]
  refine (h.rulesets flagKey environmentKey).imp fun row row' hrow => ?_
  have hrevision := congrArg RulesetRow.rulesetRevision hrow.rest
  exact hrevision

/-- The newest ruleset of a triple is the same. -/
theorem Seen.latestRuleset :
    (newestRuleset t org flagKey environmentKey).map
        (fun row => (row.rulesetRevision, row.ruleset)) =
      (newestRuleset t' org flagKey environmentKey).map
        fun row => (row.rulesetRevision, row.ruleset) := by
  have hrest : ∀ row row' : RulesetRow codec, row.Alike rt ρ row' →
      row.rulesetRevision = row'.rulesetRevision ∧ row.ruleset = row'.ruleset := by
    intro row row' hrow
    have hrevision := congrArg RulesetRow.rulesetRevision hrow.rest
    have hruleset := congrArg RulesetRow.ruleset hrow.rest
    exact ⟨hrevision, hruleset⟩
  have hnewest : Option.Rel (RulesetRow.Alike rt ρ) (newestRuleset t org flagKey environmentKey)
      (newestRuleset t' org flagKey environmentKey) := by
    refine Table.head_forall₂ (Table.orderBy_forall₂ (fun a a' b b' ha hb => ?_)
      (h.rulesets flagKey environmentKey))
    rw [(hrest a a' ha).1, (hrest b b' hb).1]
  exact Table.map_eq_of_rel hnewest fun row row' hrow =>
    Prod.ext (hrest row row' hrow).1 (hrest row row' hrow).2

theorem Seen.maxRuleset :
    maxRuleset t org flagKey environmentKey = maxRuleset t' org flagKey environmentKey := by
  rw [Postgres.maxRuleset, Postgres.maxRuleset, h.revisions]

omit h in
theorem changed_tally {Row : Type} {RowR : Row → Row → Prop} {revision : Row → Int}
    {change change' : Row → Int → Row} {found found' : Option Row}
    (hfound : Option.Rel RowR found found') (hrevision : ∀ row row', RowR row row' →
      revision row = revision row')
    (hchange : ∀ row row' next, RowR row row' → RowR (change row next) (change' row' next)) :
    Tally (Option.Rel RowR) (changed revision change found) (changed revision change' found') := by
  cases hfound with
  | none => exact .ok .none
  | @some row row' hrow =>
    rw [changed, changed, ← hrevision row row' hrow]
    cases nextBigint (revision row) with
    | error e => exact .error e
    | ok next => exact .ok (.some (hchange row row' next hrow))

omit h in
/-- The reply and the write of an `UPDATE` on both sides. -/
theorem answered_updated {Row α : Type} {RowR : Row → Row → Prop} {write : Row → Write codec}
    {reply : Option Row → Except DbError α} {R : α → α → Prop}
    {found found' : Except DbError (Option Row)} (hfound : Tally (Option.Rel RowR) found found')
    (hreply : ∀ row row', Option.Rel RowR row row' → Tally R (reply row) (reply row'))
    (hwrite : ∀ row row', found = .ok (some row) → RowR row row' →
      Write.Alike rt ρ org (write row) (write row')) :
    Answered rt ρ org (Tally R) (updated write reply found) (updated write reply found') := by
  cases hfound with
  | error e => exact ⟨.error e, .nil⟩
  | ok hrow =>
    cases hrow with
    | none => exact ⟨hreply _ _ .none, .nil⟩
    | some hrow => exact ⟨hreply _ _ (.some hrow), .cons (hwrite _ _ rfl hrow) .nil⟩

/-- An `UPDATE` of a flag. -/
theorem Seen.changeFlag {α : Type} {change change' : FlagRow → Int → FlagRow}
    {reply : Option FlagRow → Except DbError α} {R : α → α → Prop}
    (hreply : ∀ found found', Option.Rel (FlagRow.Alike rt ρ) found found' →
      Tally R (reply found) (reply found'))
    (hkey : ∀ row revision, (change row revision).key = row.key)
    (hchange : ∀ row row' revision, row.Alike rt ρ row' →
      (change row revision).Alike rt ρ (change' row' revision)) :
    Answered rt ρ org (Tally R)
      (updated (@Write.updateFlag codec) reply (changeFlag t org flagKey change))
      (updated (@Write.updateFlag codec) reply (changeFlag t' org flagKey change')) := by
  rw [changeFlag_eq, changeFlag_eq]
  refine answered_updated (changed_tally (h.flag flagKey) (fun _ _ hrow => hrow.revision) hchange)
    hreply fun row row' hrow halike => .updateFlag ?_ halike
  obtain ⟨old, next, hold, rfl⟩ := changed_eq_some hrow
  exact congrArg Prod.fst ((hkey old next).trans (Table.key_of_lookup hold))

/-- An `UPDATE` of an environment. -/
theorem Seen.changeEnvironment {α : Type} {change change' : EnvironmentRow → Int → EnvironmentRow}
    {reply : Option EnvironmentRow → Except DbError α} {R : α → α → Prop}
    (hreply : ∀ found found', Option.Rel (EnvironmentRow.Alike rt ρ) found found' →
      Tally R (reply found) (reply found'))
    (hkey : ∀ row revision, (change row revision).key = row.key)
    (hchange : ∀ row row' revision, row.Alike rt ρ row' →
      (change row revision).Alike rt ρ (change' row' revision)) :
    Answered rt ρ org (Tally R)
      (updated (@Write.updateEnvironment codec) reply
        (changeEnvironment t org environmentKey change))
      (updated (@Write.updateEnvironment codec) reply
        (changeEnvironment t' org environmentKey change')) := by
  rw [changeEnvironment_eq, changeEnvironment_eq]
  refine answered_updated (changed_tally (h.environment environmentKey)
    (fun _ _ hrow => hrow.revision) hchange) hreply fun row row' hrow halike =>
      .updateEnvironment ?_ halike
  obtain ⟨old, next, hold, rfl⟩ := changed_eq_some hrow
  exact congrArg Prod.fst ((hkey old next).trans (Table.key_of_lookup hold))

include hρ

theorem Seen.insertFlag {name valueType : String} {description : Option String} :
    Answered rt ρ org (Tally fun _ _ => True)
      ((@Statement.insertFlag codec org flagKey name description valueType).execute (δ n) t)
      ((@Statement.insertFlag codec org flagKey name description valueType).execute (δ' n) t') := by
  simp only [Statement.execute, h.flag_isSome]
  split
  · exact ⟨.error _, .nil⟩
  · split
    · exact ⟨.error _, .nil⟩
    · exact ⟨.ok trivial, .cons (.insertFlag rfl
        ⟨hρ.time _ _, hρ.time _ _, .none, hρ.flagSeq n, rfl⟩) .nil⟩

theorem Seen.updateFlag {name : String} {description : Option String} :
    Answered rt ρ org (Tally fun _ _ => True)
      ((@Statement.updateFlag codec org flagKey name description).execute (δ n) t)
      ((@Statement.updateFlag codec org flagKey name description).execute (δ' n) t') := by
  refine h.changeFlag (fun _ _ _ => .ok trivial) (fun _ _ => rfl) fun row row' revision hrow => ?_
  exact ⟨hrow.createdAt, hρ.time _ _, hrow.archivedAt, hrow.rowSeq,
    congrArg (fun flag : Abstract.Flag => { flag with
      name := name, description := description, revision := revision,
      updatedAt := rt.formatTimestamp (micros (δ' n).later) }) hrow.rest⟩

theorem Seen.archiveFlag :
    Answered rt ρ org (Tally fun _ _ => True)
      ((@Statement.archiveFlag codec org flagKey).execute (δ n) t)
      ((@Statement.archiveFlag codec org flagKey).execute (δ' n) t') := by
  refine h.changeFlag (fun _ _ _ => .ok trivial) (fun _ _ => rfl) fun row row' revision hrow => ?_
  exact ⟨hrow.createdAt, hρ.time _ _, .some (hρ.time _ _), hrow.rowSeq,
    congrArg (fun flag : Abstract.Flag => { flag with
      archived := true, archivedAt := some (rt.formatTimestamp (micros (δ' n).now)),
      revision := revision, updatedAt := rt.formatTimestamp (micros (δ' n).later) }) hrow.rest⟩

theorem Seen.bumpFlag :
    Answered rt ρ org (Tally (· = ·))
      ((@Statement.bumpFlag codec org flagKey).execute (δ n) t)
      ((@Statement.bumpFlag codec org flagKey).execute (δ' n) t') := by
  refine h.changeFlag (fun found found' hfound => ?_) (fun _ _ => rfl) fun row row' revision hrow => ?_
  · cases hfound with
    | none => exact .error _
    | some hrow => exact .ok hrow.revision
  · exact ⟨hrow.createdAt, hρ.time _ _, hrow.archivedAt, hrow.rowSeq,
      congrArg (fun flag : Abstract.Flag => { flag with
        revision := revision, updatedAt := rt.formatTimestamp (micros (δ' n).later) }) hrow.rest⟩

theorem Seen.insertEnvironment {name : String} :
    Answered rt ρ org (Tally fun _ _ => True)
      ((@Statement.insertEnvironment codec org environmentKey name).execute (δ n) t)
      ((@Statement.insertEnvironment codec org environmentKey name).execute (δ' n) t') := by
  simp only [Statement.execute, h.environment_isSome]
  split
  · exact ⟨.error _, .nil⟩
  · exact ⟨.ok trivial, .cons (.insertEnvironment rfl ⟨hρ.time _ _, hρ.time _ _, rfl⟩) .nil⟩

theorem Seen.updateEnvironment {name : String} :
    Answered rt ρ org (Tally fun _ _ => True)
      ((@Statement.updateEnvironment codec org environmentKey name).execute (δ n) t)
      ((@Statement.updateEnvironment codec org environmentKey name).execute (δ' n) t') := by
  refine h.changeEnvironment (fun _ _ _ => .ok trivial) (fun _ _ => rfl)
    fun row row' revision hrow => ?_
  exact ⟨hrow.createdAt, hρ.time _ _,
    congrArg (fun environment : Abstract.Environment => { environment with
      name := name, revision := revision,
      updatedAt := rt.formatTimestamp (micros (δ' n).later) }) hrow.rest⟩

theorem Seen.bumpEnvironment :
    Answered rt ρ org (Tally (· = ·))
      ((@Statement.bumpEnvironment codec org environmentKey).execute (δ n) t)
      ((@Statement.bumpEnvironment codec org environmentKey).execute (δ' n) t') := by
  refine h.changeEnvironment (fun found found' hfound => ?_) (fun _ _ => rfl)
    fun row row' revision hrow => ?_
  · cases hfound with
    | none => exact .error _
    | some hrow => exact .ok hrow.revision
  · exact ⟨hrow.createdAt, hρ.time _ _,
      congrArg (fun environment : Abstract.Environment => { environment with
        revision := revision,
        updatedAt := rt.formatTimestamp (micros (δ' n).later) }) hrow.rest⟩

theorem Seen.insertRuleset {revision : Int} {definition : RulesetDefinition}
    {publishedBy : String} :
    Answered rt ρ org (Tally fun _ _ => True)
      ((@Statement.insertRuleset codec org flagKey environmentKey revision definition
        publishedBy).execute (δ n) t)
      ((@Statement.insertRuleset codec org flagKey environmentKey revision definition
        publishedBy).execute (δ' n) t') := by
  have hany : (t.rulesetsOf org flagKey environmentKey).any
        (fun row => row.rulesetRevision = revision) =
      (t'.rulesetsOf org flagKey environmentKey).any fun row => row.rulesetRevision = revision := by
    have hmap := congrArg (List.any · fun n => decide (n = revision))
      (@Seen.revisions codec rt ρ org flagKey environmentKey _ _ _ _ h)
    rw [List.any_map, List.any_map] at hmap
    exact hmap
  simp only [Statement.execute]
  cases codec.encodeDefinition definition with
  | none => exact ⟨.error _, .nil⟩
  | some document =>
    simp only [hany, ← Option.not_isSome, h.flag_isSome, h.environment_isSome]
    split
    · exact ⟨.error _, .nil⟩
    · split
      · exact ⟨.error _, .nil⟩
      · split
        · exact ⟨.error _, .nil⟩
        · exact ⟨.ok trivial, .cons (.insertRuleset rfl ⟨hρ.time _ _, rfl⟩) .nil⟩

end Statements

/-! ## Programs -/

variable (describe rt) in
/-- The programs, run alone from their statement `n` on, each on tables of its own. -/
abbrev Beside {α β : Type} (δ δ' : Draws) (Q : α → β → Tables codec → Tables codec → Prop) (n : ℕ)
    (p : Transaction codec α) (p' : Transaction codec β) (t t' : Tables codec) : Prop :=
  (store codec describe rt).Beside δ δ' Q n p p' t t'

section Programs

variable {α β γ ζ : Type} {δ δ' : Draws} {Q : γ → ζ → Tables codec → Tables codec → Prop} {n : ℕ}
  {t₀ t₀' t t' : Tables codec} {R : α → β → Prop} {f : α → Transaction codec γ}
  {f' : β → Transaction codec ζ}

/-- One statement on both sides, with the replies and the writes. -/
theorem beside_step {s s' : Statement codec} {k : s.Reply → Transaction codec γ}
    {k' : s'.Reply → Transaction codec ζ} {reply : s.Reply} {reply' : s'.Reply}
    {ws ws' : List (Write codec)} (hs : s.execute (δ n) t = (reply, ws))
    (hs' : s'.execute (δ' n) t' = (reply', ws'))
    (hk : Beside describe rt δ δ' Q (n + 1) (k reply) (k' reply')
      (ws.foldl (fun t w => w.apply t) t) (ws'.foldl (fun t w => w.apply t) t')) :
    Beside describe rt δ δ' Q n (query s >>= k) (query s' >>= k') t t' := by
  refine .step ?_
  change Beside describe rt δ δ' Q (n + 1) (k (s.execute (δ n) t).1) (k' (s'.execute (δ' n) t').1)
    ((s.execute (δ n) t).2.foldl (fun t w => w.apply t) t)
    ((s'.execute (δ' n) t').2.foldl (fun t w => w.apply t) t')
  rw [hs, hs']
  exact hk

/-- A statement that writes nothing. -/
theorem beside_read {s : Statement codec} {k : s.Reply → Transaction codec γ}
    {k' : s.Reply → Transaction codec ζ} (reply reply' : s.Reply)
    (hs : s.execute (δ n) t = (reply, [])) (hs' : s.execute (δ' n) t' = (reply', []))
    (hk : Beside describe rt δ δ' Q (n + 1) (k reply) (k' reply') t t') :
    Beside describe rt δ δ' Q n (query s >>= k) (query s >>= k') t t' :=
  beside_step hs hs' hk

theorem beside_write {s s' : Statement codec} {k : s.Reply → Transaction codec γ}
    {k' : s'.Reply → Transaction codec ζ} {R : s.Reply → s'.Reply → Prop}
    (h : Seen rt ρ org t₀ t₀' t t')
    (hs : Answered rt ρ org R (s.execute (δ n) t) (s'.execute (δ' n) t'))
    (hk : ∀ a a' t t', R a a' → Seen rt ρ org t₀ t₀' t t' →
      Beside describe rt δ δ' Q (n + 1) (k a) (k' a') t t') :
    Beside describe rt δ δ' Q n (query s >>= k) (query s' >>= k') t t' :=
  .step (hk _ _ _ _ hs.reply (h.applyAll hs.writes))

theorem beside_lift {x : Except StorageError α} {x' : Except StorageError β} (hx : Tally R x x')
    (hf : ∀ a b, R a b → x = .ok a → Beside describe rt δ δ' Q n (f a) (f' b) t t') :
    Beside describe rt δ δ' Q n (lift x >>= f) (lift x' >>= f') t t' := by
  cases hx with
  | ok hab => exact hf _ _ hab rfl
  | error e => exact .fail _

/-- One computation on both sides. -/
theorem beside_lift_same {x : Except StorageError α} {f : α → Transaction codec γ}
    {f' : α → Transaction codec ζ}
    (hf : ∀ a, x = .ok a → Beside describe rt δ δ' Q n (f a) (f' a) t t') :
    Beside describe rt δ δ' Q n (lift x >>= f) (lift x >>= f') t t' := by
  refine beside_lift (.refl x) fun a b hab ha => ?_
  subst hab
  exact hf a ha

theorem beside_orDatabase {x : Except DbError α} {x' : Except DbError β} {operation : String}
    (hx : Tally R x x') (hf : ∀ a b, R a b → Beside describe rt δ δ' Q n (f a) (f' b) t t') :
    Beside describe rt δ δ' Q n (orDatabase describe operation x >>= f)
      (orDatabase describe operation x' >>= f') t t' := by
  cases hx with
  | ok hab => exact hf _ _ hab
  | error e => exact .fail _

theorem beside_orUnique {x x' : Except DbError Unit} {failure : DomainFailure} {operation : String}
    {f : Unit → Transaction codec γ} {f' : Unit → Transaction codec ζ}
    (hx : Tally (fun _ _ => True) x x') (hf : Beside describe rt δ δ' Q n (f ()) (f' ()) t t') :
    Beside describe rt δ δ' Q n (orUnique describe failure operation x >>= f)
      (orUnique describe failure operation x' >>= f') t t' := by
  cases hx with
  | ok => exact hf
  | error e => cases e <;> exact .fail _

variable (h : Seen rt ρ org t₀ t₀' t t') (hρ : Stand ρ δ δ')

include h

theorem beside_lockFlag {f : LockedFlag → Transaction codec γ} {f' : LockedFlag → Transaction codec ζ}
    (hf : ∀ flag, Beside describe rt δ δ' Q (n + 1) (f flag) (f' flag) t t') :
    Beside describe rt δ δ' Q n (lockFlag org flagKey >>= f) (lockFlag org flagKey >>= f') t t' := by
  simp only [lockFlag, bind_assoc]
  refine beside_read _ _ rfl (congrArg (·, []) h.lockFlag.symm) ?_
  exact beside_lift_same fun flag _ => hf flag

theorem beside_readFlagTx {f : FlagRecord → Transaction codec γ}
    {f' : FlagRecord → Transaction codec ζ}
    (hf : ∀ record record', record.Alike ρ record' →
      Beside describe rt δ δ' Q (n + 1) (f record) (f' record') t t') :
    Beside describe rt δ δ' Q n (readFlagTx rt org flagKey >>= f)
      (readFlagTx rt org flagKey >>= f') t t' := by
  simp only [readFlagTx, bind_assoc]
  refine beside_read _ _ rfl rfl ?_
  have hflag := h.flag flagKey
  generalize t.flag org flagKey = found at hflag
  generalize t'.flag org flagKey = found' at hflag
  cases hflag with
  | none => exact .fail _
  | some hrow => exact hf _ _ hrow.record

theorem beside_readEnvironmentTx {f : EnvironmentRecord → Transaction codec γ}
    {f' : EnvironmentRecord → Transaction codec ζ}
    (hf : ∀ record record', record.Alike ρ record' →
      Beside describe rt δ δ' Q (n + 1) (f record) (f' record') t t') :
    Beside describe rt δ δ' Q n (readEnvironmentTx rt org environmentKey >>= f)
      (readEnvironmentTx rt org environmentKey >>= f') t t' := by
  simp only [readEnvironmentTx, bind_assoc]
  refine beside_read _ _ rfl rfl ?_
  have henvironment := h.environment environmentKey
  generalize t.environment org environmentKey = found at henvironment
  generalize t'.environment org environmentKey = found' at henvironment
  cases henvironment with
  | none => exact .fail _
  | some hrow => exact hf _ _ hrow.record

include hρ

/-! ## Operations -/

variable {response : Response} {f : Response → Transaction codec γ}
  {f' : Response → Transaction codec ζ}

/-- The continuations run side by side from responses that are alike. -/
def Continues (describe : DbError → String) (rt : Runtime) (ρ : Renaming) (org : String)
    (δ δ' : Draws) (Q : γ → ζ → Tables codec → Tables codec → Prop) (t₀ t₀' : Tables codec)
    (f : Response → Transaction codec γ) (f' : Response → Transaction codec ζ) : Prop :=
  ∀ response response' m t t', response.Likewise codec ρ response' →
    Seen rt ρ org t₀ t₀' t t' → Beside describe rt δ δ' Q m (f response) (f' response') t t'

theorem beside_createFlag {name valueType : String} {description : Option String}
    (hf : Continues describe rt ρ org δ δ' Q t₀ t₀' f f') :
    Beside describe rt δ δ' Q n
      (createFlag describe rt org flagKey name description valueType >>= f)
      (createFlag describe rt org flagKey name description valueType >>= f') t t' := by
  simp only [createFlag, bind_assoc]
  refine beside_write h (h.insertFlag hρ) fun a a' t t' ha h => beside_orUnique ha ?_
  exact beside_readFlagTx h fun record record' hrecord => hf _ _ _ _ _ (likewise_flag hrecord) h

theorem beside_updateFlag {expected : Int} {name : String} {description : Option String}
    (hf : Continues describe rt ρ org δ δ' Q t₀ t₀' f f') :
    Beside describe rt δ δ' Q n
      (updateFlag describe rt org flagKey expected name description >>= f)
      (updateFlag describe rt org flagKey expected name description >>= f') t t' := by
  simp only [updateFlag, bind_assoc]
  refine beside_lockFlag h fun flag => beside_lift_same fun _ _ => ?_
  refine beside_write h (h.updateFlag hρ) fun a a' t t' ha h => beside_orDatabase ha fun _ _ _ => ?_
  exact beside_readFlagTx h fun record record' hrecord => hf _ _ _ _ _ (likewise_flag hrecord) h

theorem beside_archiveFlag {expected : Int}
    (hf : Continues describe rt ρ org δ δ' Q t₀ t₀' f f') :
    Beside describe rt δ δ' Q n (archiveFlag describe rt org flagKey expected >>= f)
      (archiveFlag describe rt org flagKey expected >>= f') t t' := by
  simp only [archiveFlag, bind_assoc]
  refine beside_lockFlag h fun flag => beside_lift_same fun _ _ => ?_
  refine beside_write h (h.archiveFlag hρ) fun a a' t t' ha h =>
    beside_orDatabase ha fun _ _ _ => ?_
  exact beside_readFlagTx h fun record record' hrecord => hf _ _ _ _ _ (likewise_flag hrecord) h

theorem beside_putEnvironment {name : String} {expected : Option Int}
    (hf : Continues describe rt ρ org δ δ' Q t₀ t₀' f f') :
    Beside describe rt δ δ' Q n
      (putEnvironment describe rt org environmentKey name expected >>= f)
      (putEnvironment describe rt org environmentKey name expected >>= f') t t' := by
  have hread : ∀ {m t t'}, Seen rt ρ org t₀ t₀' t t' →
      Beside describe rt δ δ' Q m
        (readEnvironmentTx rt org environmentKey >>= fun record => f (.environment record))
        (readEnvironmentTx rt org environmentKey >>= fun record => f' (.environment record)) t t' :=
    fun h => beside_readEnvironmentTx h fun record record' hrecord =>
      hf _ _ _ _ _ (likewise_environment hrecord) h
  simp only [putEnvironment, bind_assoc]
  refine beside_read _ _ rfl (congrArg (·, []) h.lockEnvironment.symm) ?_
  cases (t.environment org environmentKey).map (·.revision) with
  | none =>
    cases expected with
    | some => exact .fail _
    | none =>
      simp only [bind_assoc]
      exact beside_write h (h.insertEnvironment hρ) fun a a' t t' ha h =>
        beside_orUnique ha (hread h)
  | some revision =>
    cases expected with
    | none => exact .fail _
    | some expected =>
      change Beside describe rt δ δ' Q (n + 1) ((if revision ≠ expected then _ else _) >>= f)
        ((if revision ≠ expected then _ else _) >>= f') t t'
      split
      · exact .fail _
      · simp only [bind_assoc]
        exact beside_write h (h.updateEnvironment hρ) fun a a' t t' ha h =>
          beside_orDatabase ha fun _ _ _ => hread h

theorem beside_publishRuleset {command : Command} {expectedFlag expectedEnvironment : Int}
    {definition : RulesetDefinition} (hf : Continues describe rt ρ org δ δ' Q t₀ t₀' f f') :
    Beside describe rt δ δ' Q n
      (publishRuleset describe rt command org flagKey environmentKey expectedFlag
        expectedEnvironment definition >>= f)
      (publishRuleset describe rt command org flagKey environmentKey expectedFlag
        expectedEnvironment definition >>= f') t t' := by
  simp only [publishRuleset, bind_assoc]
  refine beside_lockFlag h fun flag => beside_lift_same fun _ _ =>
    beside_lift_same fun _ _ => ?_
  refine beside_read _ _ rfl (congrArg (·, []) h.lockEnvironment.symm) ?_
  refine beside_lift_same fun revision _ => ?_
  split
  · exact .fail _
  · simp only [bind_assoc]
    refine beside_read _ _ rfl (congrArg (nextBigint ·, []) h.maxRuleset.symm) ?_
    refine beside_orDatabase (.refl _) fun next _ heq => ?_
    subst heq
    refine beside_write h (h.insertRuleset hρ) fun a a' t t' ha h => ?_
    refine beside_orDatabase ha fun at_ at_' _ => ?_
    simp only [bumpFlag, bumpEnvironment]
    refine beside_write h (h.bumpFlag hρ) fun a a' t t' ha h => ?_
    refine beside_orDatabase ha fun flagRevision _ heq => ?_
    subst heq
    refine beside_write h (h.bumpEnvironment hρ) fun a a' t t' ha h => ?_
    refine beside_orDatabase ha fun environmentRevision _ heq => ?_
    subst heq
    exact hf _ _ _ _ _ (likewise_publish ⟨hρ.time _ _, rfl⟩) h

end Programs

/-! ## Evaluations -/

/-- No receipt has an id still to be drawn, or an identifier among `ids` under the command. -/
structure Untaken (δ : Draws) (n : ℕ) (command : Command) (operation : String) (ids : String → Prop)
    (t : Tables codec) : Prop where
  receiptIds : ∀ row ∈ t.receipts, ∀ i, n ≤ i → row.receiptId ≠ (δ i).uuid
  evaluationIds : ∀ row ∈ t.receipts, row.callerInstance = command.caller →
    row.actorSubject = command.actor → row.operation = operation → ¬ids row.evaluationId

section Evaluations

variable {γ ζ : Type} {δ δ' : Draws} {Q : γ → ζ → Tables codec → Tables codec → Prop} {n : ℕ}
  {t₀ t₀' t t' : Tables codec} {command : Command}
  {operation evaluationId targetingKey variantKey reason contextHash : String}
  {attributes : List (String × Json)} {ids : String → Prop} {revision evaluatedAt : Int} {draw : Draw}

/-- A receipt that is not taken passes the unique constraints. -/
theorem Untaken.execute (h : Untaken δ n command operation ids t) (hid : ids evaluationId) :
    (@Statement.insertReceipt codec (δ n).uuid command operation evaluationId org flagKey
        environmentKey variantKey reason revision contextHash evaluatedAt).execute draw t =
      if revision ≤ 0 || reason ∉ reasons then (.error .checkViolation, [])
      else (.ok (), [.insertReceipt (receiptRow draw (δ n).uuid command operation evaluationId org
        flagKey environmentKey variantKey reason revision contextHash evaluatedAt)]) := by
  have hreceiptId : Table.lookup ReceiptRow.receiptId (δ n).uuid t.receipts = none :=
    Table.lookup_eq_none.mpr fun row hrow => h.receiptIds row hrow n le_rfl
  have hkey : Table.lookup ReceiptRow.evaluationKey
      ⟨command.caller, command.actor, operation, evaluationId, flagKey⟩ t.receipts = none := by
    refine Table.lookup_eq_none.mpr fun row hrow heq => ?_
    simp only [ReceiptRow.evaluationKey, EvaluationKey.mk.injEq] at heq
    obtain ⟨hcaller, hactor, hoperation, hevaluation, -⟩ := heq
    exact h.evaluationIds row hrow hcaller hactor hoperation (hevaluation ▸ hid)
  simp only [Statement.execute, ReceiptRow.evaluationKey, hreceiptId, hkey]
  rfl

/-- The identifier and the id of a stored receipt are used up. -/
theorem Untaken.next (h : Untaken δ n command operation ids t) (hδ : δ.Distinct)
    {rest : String → Prop} (hrest : ∀ id, rest id → ids id ∧ id ≠ evaluationId) :
    Untaken δ (n + 2) command operation rest { t with
      receipts := receiptRow draw (δ n).uuid command operation evaluationId org flagKey
        environmentKey variantKey reason revision contextHash evaluatedAt :: t.receipts } := by
  constructor
  · intro row hrow i hi
    rcases List.mem_cons.mp hrow with rfl | hrow
    · intro heq
      have hsame := hδ _ _ heq
      omega
    · exact h.receiptIds row hrow i (by omega)
  · intro row hrow hcaller hactor hoperation hid
    rcases List.mem_cons.mp hrow with rfl | hrow
    · exact (hrest _ hid).2 rfl
    · exact h.evaluationIds row hrow hcaller hactor hoperation (hrest _ hid).1

theorem Untaken.later (h : Untaken δ n command operation ids t) {m : ℕ} (hm : n ≤ m) :
    Untaken δ m command operation ids t :=
  ⟨fun row hrow i hi => h.receiptIds row hrow i (hm.trans hi), h.evaluationIds⟩

theorem Untaken.mono (h : Untaken δ n command operation ids t) {rest : String → Prop}
    (hrest : ∀ id, rest id → ids id) : Untaken δ n command operation rest t :=
  ⟨h.receiptIds, fun row hrow hcaller hactor hoperation hid =>
    h.evaluationIds row hrow hcaller hactor hoperation (hrest _ hid)⟩

variable (hρ : Stand ρ δ δ') (hcodec : codec.Blind rt δ δ') (hδ : δ.Distinct) (hδ' : δ'.Distinct)

include hρ hcodec hδ hδ'

theorem beside_evaluateOne {rest : String → Prop} {f : EvaluationRecord → Transaction codec γ}
    {f' : EvaluationRecord → Transaction codec ζ} (h : Seen rt ρ org t₀ t₀' t t')
    (hu : Untaken δ n command operation ids t) (hu' : Untaken δ' n command operation ids t')
    (hid : ids evaluationId) (hrest : ∀ id, rest id → ids id ∧ id ≠ evaluationId)
    (hf : ∀ record record' t t', record.Likewise codec ρ record' → Seen rt ρ org t₀ t₀' t t' →
      Untaken δ (n + 5) command operation rest t → Untaken δ' (n + 5) command operation rest t' →
      Beside describe rt δ δ' Q (n + 5) (f record) (f' record') t t') :
    Beside describe rt δ δ' Q n
      (evaluateOne describe rt command operation org environmentKey flagKey evaluationId
        targetingKey attributes contextHash >>= f)
      (evaluateOne describe rt command operation org environmentKey flagKey evaluationId
        targetingKey attributes contextHash >>= f') t t' := by
  simp only [evaluateOne, bind_assoc]
  refine beside_read _ _ rfl (congrArg (·, []) h.shareFlag.symm) ?_
  refine beside_lift_same fun flag _ => ?_
  obtain ⟨valueType, archived⟩ := flag
  change Beside describe rt δ δ' Q (n + 1) ((if archived = true then _ else _) >>= f)
    ((if archived = true then _ else _) >>= f') t t'
  split
  · exact .fail _
  refine beside_read _ _ rfl (congrArg (·, []) h.environment_isSome.symm) ?_
  change Beside describe rt δ δ' Q (n + 2)
    ((if (t.environment org environmentKey).isSome = false then _ else _) >>= f)
    ((if (t.environment org environmentKey).isSome = false then _ else _) >>= f') t t'
  split
  · exact .fail _
  simp only [bind_assoc]
  refine beside_read _ _ rfl (congrArg (·, []) h.latestRuleset.symm) ?_
  refine beside_lift_same fun row _ => ?_
  obtain ⟨revision, ruleset⟩ := row
  refine beside_lift_same fun definition _ => ?_
  refine beside_lift_same fun _ _ => beside_lift_same fun choice _ => ?_
  obtain ⟨variant, reason⟩ := choice
  refine beside_read ((δ (n + 3)).uuid, (δ (n + 3)).now) ((δ' (n + 3)).uuid, (δ' (n + 3)).now)
    rfl rfl ?_
  -- From here on both sides insert the row, or its check refuses it on both.
  have hu := hu.later (Nat.le_add_right n 3)
  have hu' := hu'.later (Nat.le_add_right n 3)
  by_cases hcheck : (revision ≤ 0 || reason ∉ reasons) = true
  · refine beside_step ((hu.execute hid).trans (if_pos hcheck))
      ((hu'.execute hid).trans (if_pos hcheck)) ?_
    exact .fail _
  · refine beside_step ((hu.execute hid).trans (if_neg hcheck))
      ((hu'.execute hid).trans (if_neg hcheck)) ?_
    have hrow : (receiptRow (δ (n + 4)) (δ (n + 3)).uuid command operation evaluationId org flagKey
          environmentKey variant.variantKey reason revision contextHash (δ (n + 3)).now).Alike rt ρ
        (receiptRow (δ' (n + 4)) (δ' (n + 3)).uuid command operation evaluationId org flagKey
          environmentKey variant.variantKey reason revision contextHash (δ' (n + 3)).now) :=
      ⟨hρ.receiptId _, hρ.time _ _, hρ.receiptSeq _, rfl⟩
    refine hf _ _ _ _ ⟨⟨hρ.receiptId _, hρ.time _ _, rfl⟩, both_of_isSome ?_⟩
      (h.apply (.insertReceipt rfl hrow)) (hu.next hδ hrest) (hu'.next hδ' hrest)
    exact hcodec (EvaluationRecord.mk flagKey environmentKey variant.variantKey variant.value reason
      (toString revision) "" "") (n + 3)

/-- From position `index` of a batch on. -/
theorem beside_evaluateFrom {flagKeys : List String} {index : ℕ}
    {f : List EvaluationRecord → Transaction codec γ}
    {f' : List EvaluationRecord → Transaction codec ζ} (h : Seen rt ρ org t₀ t₀' t t')
    (hu : Untaken δ n command "evaluate_batch"
      (fun id => ∃ i, index ≤ i ∧ id = Decimal.tag command.key i) t)
    (hu' : Untaken δ' n command "evaluate_batch"
      (fun id => ∃ i, index ≤ i ∧ id = Decimal.tag command.key i) t')
    (hf : ∀ records records' m t t',
      List.Forall₂ (EvaluationRecord.Likewise codec ρ) records records' →
      Seen rt ρ org t₀ t₀' t t' → Beside describe rt δ δ' Q m (f records) (f' records') t t') :
    Beside describe rt δ δ' Q n
      (evaluateFrom describe rt command org environmentKey targetingKey attributes contextHash index
        flagKeys >>= f)
      (evaluateFrom describe rt command org environmentKey targetingKey attributes contextHash index
        flagKeys >>= f') t t' := by
  induction flagKeys generalizing index n t t' f f' with
  | nil => exact hf _ _ _ _ _ .nil h
  | cons flagKey flagKeys ih =>
    simp only [evaluateFrom, bind_assoc]
    -- The identifiers of the later positions are not taken by this one.
    have hrest : ∀ id, (∃ i, index + 1 ≤ i ∧ id = Decimal.tag command.key i) →
        (∃ i, index ≤ i ∧ id = Decimal.tag command.key i) ∧
          id ≠ Decimal.tag command.key index := by
      rintro id ⟨i, hi, rfl⟩
      refine ⟨⟨i, by omega, rfl⟩, fun heq => ?_⟩
      have hindex := (Decimal.tag_inj heq).2
      omega
    refine beside_evaluateOne hρ hcodec hδ hδ' h hu hu' ⟨index, le_rfl, rfl⟩ hrest
      fun record record' t t' hrecord h hu hu' => ?_
    exact ih h hu hu' fun records records' m t t' hrecords h =>
      hf _ _ _ _ _ (.cons hrecord hrecords) h

/-! ## Transactions -/

variable {call : Call}

theorem beside_fresh {f : Response → Transaction codec γ} {f' : Response → Transaction codec ζ}
    (h : Seen rt ρ call.operation.organizationId t₀ t₀' t t')
    (hu : Untaken δ n call.command call.operation.name
      (fun id => ∃ i, id = Abstract.evaluationId call.operation.name call.command.key i) t)
    (hu' : Untaken δ' n call.command call.operation.name
      (fun id => ∃ i, id = Abstract.evaluationId call.operation.name call.command.key i) t')
    (hf : Continues describe rt ρ call.operation.organizationId δ δ' Q t₀ t₀' f f') :
    Beside describe rt δ δ' Q n (fresh describe rt call >>= f) (fresh describe rt call >>= f')
      t t' := by
  obtain ⟨command, operation⟩ := call
  cases operation with
  | createFlag => exact beside_createFlag h hρ hf
  | updateFlag => exact beside_updateFlag h hρ hf
  | archiveFlag => exact beside_archiveFlag h hρ hf
  | putEnvironment => exact beside_putEnvironment h hρ hf
  | publishRuleset => exact beside_publishRuleset h hρ hf
  | evaluate =>
    simp only [fresh, bind_assoc]
    refine beside_evaluateOne hρ hcodec hδ hδ' h hu hu' ⟨0, rfl⟩ (fun _ h => False.elim h)
      fun record record' t t' hrecord h _ _ => hf _ _ _ _ _ (likewise_evaluation hrecord) h
  | evaluateBatch =>
    simp only [fresh, bind_assoc]
    have hissued : ∀ id, (∃ i, 0 ≤ i ∧
        id = Abstract.evaluationId "evaluate_batch" command.key i) →
        ∃ i, id = Abstract.evaluationId "evaluate_batch" command.key i :=
      fun _ h => h.imp fun _ hid => hid.2
    exact beside_evaluateFrom hρ hcodec hδ hδ' h (hu.mono hissued) (hu'.mono hissued)
      fun records records' m t t' hrecords h => hf _ _ _ _ _ (likewise_evaluations hrecords) h

omit hρ hcodec hδ hδ' in
/-- The response of a command, recorded. -/
theorem execute_updateCommand {key : CommandKey} {response : Response} {stored : Stored codec}
    (t : Tables codec) (h : encodeResponse codec response = some stored) :
    ∃ ws, (Statement.updateCommand key response).execute draw t = (.ok (), ws) ∧
      ∃ commands, ws.foldl (fun t w => w.apply t) t = { t with commands := commands } := by
  refine ⟨((t.command key).map fun row =>
    Write.updateCommand { row with response := some stored }).toList, ?_, ?_⟩
  · simp only [Statement.execute, h]
  · cases t.command key with
    | none => exact ⟨_, rfl⟩
    | some row => exact ⟨_, rfl⟩

omit hρ hcodec hδ hδ' in
theorem beside_finishCommand {response response' : Response} {f : Unit → Transaction codec γ}
    {f' : Unit → Transaction codec ζ} (h : Seen rt ρ org t₀ t₀' t t')
    (hresponse : response.Likewise codec ρ response')
    (hf : ∀ t t', Seen rt ρ org t₀ t₀' t t' → Beside describe rt δ δ' Q (n + 1) (f ()) (f' ()) t t') :
    Beside describe rt δ δ' Q n (finishCommand describe command operation response >>= f)
      (finishCommand describe command operation response' >>= f') t t' := by
  have hrejected : ∀ {draw : Draw} {response : Response} {t : Tables codec},
      encodeResponse codec response = none →
      (Statement.updateCommand (command.rowKey operation) response).execute draw t =
        (.error .invalidJson, []) := by
    intro _ _ _ hnone
    simp only [Statement.execute, hnone]
  have haccepted := hresponse.accepted
  simp only [finishCommand, bind_assoc]
  cases hstored : encodeResponse codec response with
  | none =>
    rw [hstored] at haccepted
    generalize hstored' : encodeResponse codec response' = stored' at haccepted
    cases haccepted
    refine beside_step (hrejected hstored) (hrejected hstored') ?_
    exact .fail _
  | some stored =>
    rw [hstored] at haccepted
    generalize hstored' : encodeResponse codec response' = stored' at haccepted
    cases haccepted
    obtain ⟨ws, hws, commands, hcommands⟩ := execute_updateCommand t hstored
    obtain ⟨ws', hws', commands', hcommands'⟩ := execute_updateCommand t' hstored'
    refine beside_step hws hws' ?_
    rw [hcommands, hcommands']
    exact hf _ _ (h.commands commands commands')

/-- A transaction on the two databases. -/
theorem transaction_beside (hrefl : ρ.Refl)
    (h : Seen rt ρ call.operation.organizationId t₀ t₀' t t')
    (hcommand : t.command call.commandKey = t'.command call.commandKey)
    (hu : t.command call.commandKey = none → Untaken δ 2 call.command call.operation.name
      (fun id => ∃ i, id = Abstract.evaluationId call.operation.name call.command.key i) t)
    (hu' : t'.command call.commandKey = none → Untaken δ' 2 call.command call.operation.name
      (fun id => ∃ i, id = Abstract.evaluationId call.operation.name call.command.key i) t') :
    Beside describe rt δ δ'
      (fun answer answer' t t' => answer.Alike ρ answer' ∧
        Seen rt ρ call.operation.organizationId t₀ t₀' t t')
      0 (transaction describe call (fresh describe rt call))
      (transaction describe call (fresh describe rt call)) t t' := by
  simp only [transaction, admitCommand, bind_assoc]
  refine beside_read ((t.command call.commandKey).map fun row => (row.requestHash, row.response))
    ((t.command call.commandKey).map fun row => (row.requestHash, row.response)) rfl
    (congrArg (·.map fun row => (row.requestHash, row.response), []) hcommand.symm) ?_
  cases hrow : t.command call.commandKey with
  | some row =>
    obtain ⟨key, requestHash, response⟩ := row
    change Beside describe rt δ δ' _ 1 ((if requestHash ≠ call.command.hash then _ else _) >>= _)
      ((if requestHash ≠ call.command.hash then _ else _) >>= _) t t'
    split
    · exact .fail _
    · cases response with
      | none => exact .fail _
      | some stored =>
        simp only [bind_assoc]
        refine beside_lift (.refl _) fun response _ heq _ => ?_
        subst heq
        exact .ret ⟨.replayed (hrefl.response response), h⟩
  | none =>
    have hadmitted : ∀ {draw : Draw} {t : Tables codec}, t.command call.commandKey = none →
        (Statement.insertCommand call.commandKey call.command.hash).execute draw t =
          (.ok (), [.insertCommand ⟨call.commandKey, call.command.hash, none⟩]) := by
      intro draw t hnone
      simp only [Statement.execute, hnone]
      rfl
    rw [Option.map_none]
    refine beside_step (hadmitted hrow) (hadmitted (hcommand.symm.trans hrow)) ?_
    obtain ⟨hids, hkeys⟩ := hu hrow
    obtain ⟨hids', hkeys'⟩ := hu' (hcommand.symm.trans hrow)
    refine beside_fresh hρ hcodec hδ hδ' (h.commands _ _) ⟨hids, hkeys⟩ ⟨hids', hkeys'⟩
      fun response response' m t t' hresponse h => ?_
    refine beside_finishCommand h hresponse fun t t' h => ?_
    exact .ret ⟨.fresh hresponse.alike, h⟩

end Evaluations

/-! ## Databases -/

/-- Keys are unique, and the rulesets of a triple are newest first. -/
structure KeyedRows (t : Tables codec) : Prop where
  flags : (t.flags.map FlagRow.key).Nodup
  environments : (t.environments.map EnvironmentRow.key).Nodup
  revisions : ∀ org flagKey environmentKey,
    ((t.rulesetsOf org flagKey environmentKey).map fun row => -row.rulesetRevision).Pairwise (· < ·)

section Databases

variable {t₀ t₀' t t' : Tables codec} {c c' : Abstract.Store codec} {δ δ' : Draws} {call : Call}

theorem KeyedRows.of_represents (hr : Represents rt t c) (hs : Abstract.Sound rt c) : KeyedRows t := by
  have hflags := hs.flagKeys
  have henvironments := hs.environmentKeys
  rw [← hr.rows.flags, List.map_map] at hflags
  rw [← hr.rows.environments, List.map_map] at henvironments
  refine ⟨hflags, henvironments, fun org flagKey environmentKey => ?_⟩
  have hdescending := Abstract.countdown_pairwise (t.rulesetsOf org flagKey environmentKey).length
  rw [← hr.rows.revisions hs.numbered, List.pairwise_map] at hdescending
  rw [List.pairwise_map]
  exact hdescending.imp fun h => Int.neg_lt_neg h

theorem mem_rulesetsOf {row : RulesetRow codec} : row ∈ t.rulesetsOf org flagKey environmentKey ↔
    row ∈ t.rulesets ∧ row.triple = (org, flagKey, environmentKey) := by
  simp only [Tables.rulesetsOf, Tables.rulesetsOfFlag, List.mem_filter, decide_eq_true_eq,
    RulesetRow.triple, Prod.mk.injEq, and_assoc]

theorem flag_agree (hk : KeyedRows t) (h : t.Agree org t') (flagKey : String) :
    t.flag org flagKey = t'.flag org flagKey :=
  Table.lookup_congr hk.flags fun row hrow => h.flags row (congrArg Prod.fst hrow)

theorem environment_agree (hk : KeyedRows t) (h : t.Agree org t') (environmentKey : String) :
    t.environment org environmentKey = t'.environment org environmentKey :=
  Table.lookup_congr hk.environments fun row hrow => h.environments row (congrArg Prod.fst hrow)

theorem rulesetsOf_agree (hk : KeyedRows t) (hk' : KeyedRows t') (h : t.Agree org t')
    (flagKey environmentKey : String) :
    t.rulesetsOf org flagKey environmentKey = t'.rulesetsOf org flagKey environmentKey := by
  refine Feed.eq_of_ascending (hk.revisions ..) (hk'.revisions ..) fun row => ?_
  rw [mem_rulesetsOf, mem_rulesetsOf]
  exact and_congr_left fun hrow => h.rulesets row (congrArg Prod.fst hrow)

/-- The organization sees the same of two databases that hold the same rows of it. -/
theorem Seen.of_agree (hρ : ρ.Refl) (hk : KeyedRows t) (hk' : KeyedRows t') (h : t.Agree org t') :
    Seen rt ρ org t t' t t' := by
  refine ⟨fun key => ?_, fun key => ?_, fun flagKey environmentKey => ?_, ⟨?_, ?_⟩, .refl _ _,
    .refl _ _⟩
  · rw [← flag_agree hk h]
    cases t.flag org key with
    | none => exact .none
    | some row => exact .some ⟨hρ.time _, hρ.time _, hρ.times _, hρ.flagSeq _, rfl⟩
  · rw [← environment_agree hk h]
    cases t.environment org key with
    | none => exact .none
    | some row => exact .some ⟨hρ.time _, hρ.time _, rfl⟩
  · rw [← rulesetsOf_agree hk hk' h]
    exact List.forall₂_same.mpr fun row _ => ⟨hρ.time _, rfl⟩
  · exact fun row hrow horg => ⟨row, (h.receipts row horg).mp hrow, hρ.receiptId _, hρ.time _,
      hρ.receiptSeq _, rfl⟩
  · exact fun row hrow horg => ⟨row, (h.receipts row horg).mpr hrow, hρ.receiptId _, hρ.time _,
      hρ.receiptSeq _, rfl⟩

/-- The rows of the organization are alike when what it sees is. -/
theorem Seen.alike (h : Seen rt ρ org t₀ t₀' t t') (hk : KeyedRows t) (hk' : KeyedRows t') :
    t.Alike rt ρ org t' := by
  refine ⟨Table.matched_of_lookup hk.flags hk'.flags fun row hrow => ?_,
    Table.matched_of_lookup hk.environments hk'.environments fun row hrow => ?_, ?_, h.receipts⟩
  · have hflag := h.flag row.flagKey
    rwa [← hrow] at hflag
  · have henvironment := h.environment row.environmentKey
    rwa [← hrow] at henvironment
  · have hpart : ∀ (t : Tables codec) (row : RulesetRow codec),
        t.rulesetsOf row.organizationId row.flagKey row.environmentKey ⊆ t.rulesets ∧
          (row ∈ t.rulesets →
            row ∈ t.rulesetsOf row.organizationId row.flagKey row.environmentKey) :=
      fun _ _ => ⟨fun _ hmem => (mem_rulesetsOf.mp hmem).1, fun hrow => mem_rulesetsOf.mpr ⟨hrow, rfl⟩⟩
    refine Table.matched_of_forall₂ (hpart t) (hpart t') fun row hrow => ?_
    have hrulesets := h.rulesets row.flagKey row.environmentKey
    rwa [← hrow] at hrulesets

/-- No receipt of the tables belongs to a new command, or has an id still to be drawn. -/
theorem Untaken.of_represents (hr : Represents rt t c) (hs : Abstract.Sound rt c)
    (hδ : ∀ row ∈ t.receipts, ∀ i, row.receiptId ≠ (δ i).uuid)
    (hnew : t.command call.commandKey = none) (n : ℕ) :
    Untaken δ n call.command call.operation.name
      (fun id => ∃ i, id = Abstract.evaluationId call.operation.name call.command.key i) t := by
  refine ⟨fun row hrow i _ => hδ row hrow i, ?_⟩
  rintro row hrow hcaller hactor hoperation ⟨i, hid⟩
  rw [hr.command, Option.map_eq_none_iff] at hnew
  have hreceipt : row.receipt rt ∈ c.receipts := by
    rw [← hr.rows.receipts]
    exact List.mem_map_of_mem hrow
  refine hs.unclaimed hnew hreceipt i row.flagKey ?_
  change EvaluationKey.mk row.callerInstance row.actorSubject row.operation row.evaluationId
    row.flagKey = _
  rw [hcaller, hactor, hoperation, hid]
  rfl

/-- A call run alone on two databases with the same rows of its organization. -/
theorem alone_beside (hcodec : codec.Blind rt δ δ') (hρ : Stand ρ δ δ') (hrefl : ρ.Refl)
    (hδ : δ.Distinct) (hδ' : δ'.Distinct) (hr : Represents rt t c) (hs : Abstract.Sound rt c)
    (hr' : Represents rt t' c') (hs' : Abstract.Sound rt c')
    (hunused : ∀ row ∈ t.receipts, ∀ i, row.receiptId ≠ (δ i).uuid)
    (hunused' : ∀ row ∈ t'.receipts, ∀ i, row.receiptId ≠ (δ' i).uuid)
    (h : t.Agree call.operation.organizationId t')
    (hcommand : t.command call.commandKey = t'.command call.commandKey) :
    Tally (fun answer answer' => answer.Alike ρ answer' ∧
        Seen rt ρ call.operation.organizationId t t'
          ((store codec describe rt).alone δ t call).2 ((store codec describe rt).alone δ' t' call).2)
      ((store codec describe rt).alone δ t call).1 ((store codec describe rt).alone δ' t' call).1 ∧
    ∀ e, ((store codec describe rt).alone δ t call).1 = .error e →
      ((store codec describe rt).alone δ t call).2 = t ∧
        ((store codec describe rt).alone δ' t' call).2 = t' := by
  have hseen : Seen rt ρ call.operation.organizationId t t' t t' :=
    .of_agree hrefl (.of_represents hr hs) (.of_represents hr' hs') h
  exact (transaction_beside hρ hcodec hδ hδ' hrefl hseen hcommand
    (fun hnew => .of_represents hr hs hunused hnew 2)
    (fun hnew => .of_represents hr' hs' hunused' hnew 2)).alone

/-! ## Reads -/

theorem getFlag_agree (hk : KeyedRows t) (h : t.Agree org t') (flagKey : String) :
    getFlag rt t org flagKey = getFlag rt t' org flagKey := by
  rw [getFlag, getFlag, flag_agree hk h]

theorem listFlags_agree (hu : Unique t) (hu' : Unique t') (h : t.Agree org t')
    (includeArchived : Bool) (after : Option Int) (limit : Int) :
    listFlags describe rt t org includeArchived after limit =
      listFlags describe rt t' org includeArchived after limit := by
  have habove := Feed.above_congr hu.flagSeqs hu'.flagSeqs
    (q := fun row => decide (row.organizationId = org) && (includeArchived || !row.archived))
    (fun row hq => h.flags row (of_decide_eq_true (Bool.and_elim_left hq))) (after.getD 0)
  exact congrArg (fun rows => page describe "list flags" limit rows >>= fun rows =>
    Except.ok (rows.map (flagFromRow rt))) habove

theorem listReceipts_agree (hu : Unique t) (hu' : Unique t') (h : t.Agree org t')
    (flagKey environmentKey : Option String) (after : Option Int) (limit : Int) :
    listReceipts describe rt t org flagKey environmentKey after limit =
      listReceipts describe rt t' org flagKey environmentKey after limit := by
  have habove := Feed.above_congr hu.receiptSeqs hu'.receiptSeqs
    (q := fun row => decide (row.organizationId = org) && flagKey.all (· == row.flagKey)
      && environmentKey.all (· == row.environmentKey))
    (fun row hq => h.receipts row
      (of_decide_eq_true (Bool.and_elim_left (Bool.and_elim_left hq)))) (after.getD 0)
  exact congrArg (fun rows => page describe "list evaluation receipts" limit rows >>= fun rows =>
    Except.ok (rows.map (receiptFromRow rt))) habove

end Databases

end LensoFlags.Postgres
