import LensoFlags.D1.Listings
import LensoFlags.Lib.Paging
import LensoFlags.Tenants

/-!
# The D1 calls of one organization

A call of an organization, run alone on two databases that hold the same rows of the organization,
reads alike snapshots, so it plans alike batches; each batch succeeds on its database.

Results:
1. `snapshot_tally`, `plan_tally`: the snapshots and the plans.
2. `Seen.exec`: statements that are alike keep what the organization sees.
3. `call_beside`: a call on the two databases.
-/

namespace LensoFlags.D1

variable {codec : Codec} {rt : Runtime} {ρ : Renaming} {org flagKey environmentKey : String}

/-! ## Rows -/

/-- Equal but for what stands for each other. -/
structure FlagRow.Alike (ρ : Renaming) (row row' : FlagRow) : Prop where
  key : row.key = row'.key
  rowSeq : ρ.flagSeq row.rowSeq row'.rowSeq
  record : row.record.Alike ρ row'.record

structure EnvironmentRow.Alike (ρ : Renaming) (row row' : EnvironmentRow) : Prop where
  key : row.key = row'.key
  record : row.record.Alike ρ row'.record

structure RulesetRow.Alike (ρ : Renaming) (row row' : RulesetRow codec) : Prop where
  publication : row.publication.Alike ρ row'.publication
  rest : { row with publication := row'.publication } = row'

structure ReceiptFields.Alike (ρ : Renaming) (fields fields' : ReceiptFields) : Prop where
  receiptId : ρ.receiptId fields.receiptId fields'.receiptId
  evaluatedAt : ρ.time fields.evaluatedAt fields'.evaluatedAt
  rest : { fields with
    receiptId := fields'.receiptId, evaluatedAt := fields'.evaluatedAt } = fields'

structure ReceiptRow.Alike (ρ : Renaming) (row row' : ReceiptRow) : Prop where
  rowSeq : ρ.receiptSeq row.rowSeq row'.rowSeq
  receiptId : ρ.receiptId row.receiptId row'.receiptId
  record : row.record.Alike ρ row'.record
  rest : { row with
    rowSeq := row'.rowSeq, receiptId := row'.receiptId, record := row'.record } = row'

/-- The same rows of the organization. -/
structure Tables.Agree (org : String) (t t' : Tables codec) : Prop where
  flags : ∀ row : FlagRow, row.organizationId = org → (row ∈ t.flags ↔ row ∈ t'.flags)
  environments : ∀ row : EnvironmentRow, row.organizationId = org →
    (row ∈ t.environments ↔ row ∈ t'.environments)
  rulesets : ∀ row : RulesetRow codec, row.organizationId = org →
    (row ∈ t.rulesets ↔ row ∈ t'.rulesets)
  receipts : ∀ row : ReceiptRow, row.organizationId = org →
    (row ∈ t.receipts ↔ row ∈ t'.receipts)

/-- Rows of the organization that are alike. -/
structure Tables.Alike (ρ : Renaming) (org : String) (t t' : Tables codec) : Prop where
  flags : Table.Matched (fun row : FlagRow => row.organizationId = org) (FlagRow.Alike ρ)
    t.flags t'.flags
  environments : Table.Matched (fun row : EnvironmentRow => row.organizationId = org)
    (EnvironmentRow.Alike ρ) t.environments t'.environments
  rulesets : Table.Matched (fun row : RulesetRow codec => row.organizationId = org)
    (RulesetRow.Alike ρ) t.rulesets t'.rulesets
  receipts : Table.Matched (fun row : ReceiptRow => row.organizationId = org)
    (ReceiptRow.Alike ρ) t.receipts t'.receipts

/-- The rows of every other organization are as they were. -/
structure Tables.Elsewhere (org : String) (t t' : Tables codec) : Prop where
  flags : t'.flags.filter (fun row => row.organizationId ≠ org) =
    t.flags.filter fun row => row.organizationId ≠ org
  environments : t'.environments.filter (fun row => row.organizationId ≠ org) =
    t.environments.filter fun row => row.organizationId ≠ org
  rulesets : t'.rulesets.filter (fun row => row.organizationId ≠ org) =
    t.rulesets.filter fun row => row.organizationId ≠ org
  receipts : t'.receipts.filter (fun row => row.organizationId ≠ org) =
    t.receipts.filter fun row => row.organizationId ≠ org

theorem Tables.Elsewhere.refl (org : String) (t : Tables codec) : t.Elsewhere org t :=
  ⟨rfl, rfl, rfl, rfl⟩

/-- Another organization sees the same rows. -/
theorem Tables.Elsewhere.agree {other : String} {t t' : Tables codec} (h : t.Elsewhere other t')
    (hne : org ≠ other) : t.Agree org t' := by
  have houtside : ∀ {o : String}, o = org → decide (o ≠ other) = true :=
    fun horg => decide_eq_true (horg ▸ hne)
  exact ⟨fun _ horg => Table.mem_congr_of_filter h.flags (houtside horg),
    fun _ horg => Table.mem_congr_of_filter h.environments (houtside horg),
    fun _ horg => Table.mem_congr_of_filter h.rulesets (houtside horg),
    fun _ horg => Table.mem_congr_of_filter h.receipts (houtside horg)⟩

theorem RulesetRow.Alike.triple {row row' : RulesetRow codec} (h : row.Alike ρ row') :
    row.triple = row'.triple := by
  have htriple := congrArg RulesetRow.triple h.rest
  exact htriple

/-! ## Statements -/

/-- The same change of rows of the organization; the other tables are not looked at. -/
inductive Statement.Alike (ρ : Renaming) (org : String) : Statement codec → Statement codec → Prop
  | guardEpoch (epoch epoch' : String) : Alike ρ org (.guardEpoch epoch) (.guardEpoch epoch')
  | insertCommand (row row' : CommandRow codec) :
      Alike ρ org (.insertCommand row) (.insertCommand row')
  | insertFlag {row row' : FlagRow} : row.organizationId = org → row.Alike ρ row' →
      Alike ρ org (.insertFlag row) (.insertFlag row')
  | updateFlag {organizationId : String} (flagKey : String) {record record' : FlagRecord} :
      organizationId = org → record.Alike ρ record' →
      Alike ρ org (.updateFlag organizationId flagKey record)
        (.updateFlag organizationId flagKey record')
  | upsertEnvironment {row row' : EnvironmentRow} : row.organizationId = org → row.Alike ρ row' →
      Alike ρ org (.upsertEnvironment row) (.upsertEnvironment row')
  | insertRuleset (flagKey environmentKey revision : String) (definition : codec.Definition)
      {publication publication' : PublishRecord} : publication.Alike ρ publication' →
      Alike ρ org (.insertRuleset org flagKey environmentKey revision definition publication)
        (.insertRuleset org flagKey environmentKey revision definition publication')
  | insertReceipts (caller actor operation : String) {receipts receipts' : List ReceiptFields} :
      List.Forall₂ (ReceiptFields.Alike ρ) receipts receipts' →
      Alike ρ org (.insertReceipts org caller actor operation receipts)
        (.insertReceipts org caller actor operation receipts')
  | bumpEpoch : Alike ρ org .bumpEpoch .bumpEpoch
  | clearGuard : Alike ρ org .clearGuard .clearGuard

/-- What the organization sees of two databases is alike, both are as they were elsewhere, and the
next numbers of receipts stand for each other. -/
structure Seen (ρ : Renaming) (org : String) (t₀ t₀' t t' : Tables codec) : Prop where
  flag : ∀ key, Option.Rel (FlagRow.Alike ρ) (t.flag org key) (t'.flag org key)
  environment : ∀ key,
    Option.Rel (EnvironmentRow.Alike ρ) (t.environment org key) (t'.environment org key)
  rulesets : ∀ flagKey environmentKey, List.Forall₂ (RulesetRow.Alike ρ)
    (t.rulesetsOf org flagKey environmentKey) (t'.rulesetsOf org flagKey environmentKey)
  receipts : Table.Matched (fun row : ReceiptRow => row.organizationId = org) (ReceiptRow.Alike ρ)
    t.receipts t'.receipts
  receiptSeq : ∀ i : ℕ, ρ.receiptSeq (t.receiptSeq + 1 + i) (t'.receiptSeq + 1 + i)
  kept : t₀.Elsewhere org t
  kept' : t₀'.Elsewhere org t'

section Statements

variable {t₀ t₀' t t' u u' : Tables codec}

theorem elsewhere_cons {Row : Type} {organization : Row → String} {row : Row} {rows : List Row}
    (horg : organization row = org) :
    (row :: rows).filter (fun row => organization row ≠ org) =
      rows.filter fun row => organization row ≠ org :=
  List.filter_cons_of_neg (by simp [horg])

theorem flag_setFlag (t : Tables codec) (record : FlagRecord) (key : String) :
    (t.setFlag org flagKey record).flag org key = (t.flag org key).map fun row =>
      if row.key = (org, flagKey) then { row with record := record } else row := by
  refine Table.lookup_map _ (fun row => ?_) _ _
  split
  · rfl
  · rfl

theorem Seen.setFlag (h : Seen ρ org t₀ t₀' t t') {record record' : FlagRecord}
    (hrecord : record.Alike ρ record') :
    Seen ρ org t₀ t₀' (t.setFlag org flagKey record) (t'.setFlag org flagKey record') := by
  have helsewhere : ∀ (t : Tables codec) (record : FlagRecord),
      (t.setFlag org flagKey record).flags.filter (fun row => row.organizationId ≠ org) =
        t.flags.filter fun row => row.organizationId ≠ org := by
    refine fun t record => Table.filter_map_of_fixed (fun row => ?_) (fun row hrow => ?_) _
    · split
      · rfl
      · rfl
    · refine if_neg fun hkey => ?_
      exact of_decide_eq_true hrow (congrArg Prod.fst hkey)
  refine ⟨fun key => ?_, h.environment, h.rulesets, h.receipts, h.receiptSeq,
    { h.kept with flags := (helsewhere t record).trans h.kept.flags },
    { h.kept' with flags := (helsewhere t' record').trans h.kept'.flags }⟩
  have hflag := h.flag key
  rw [flag_setFlag, flag_setFlag]
  generalize t.flag org key = found at hflag
  generalize t'.flag org key = found' at hflag
  cases hflag with
  | none => exact .none
  | @some row row' hrow =>
    rw [Option.map_some, Option.map_some, ← hrow.key]
    split
    · exact .some ⟨hrow.key, hrow.rowSeq, hrecord⟩
    · exact .some hrow

theorem Seen.insertReceiptRows {caller actor operation : String}
    {receipts receipts' : List ReceiptFields} (h : Seen ρ org t₀ t₀' t t')
    (hreceipts : List.Forall₂ (ReceiptFields.Alike ρ) receipts receipts')
    (hu : insertReceiptRows org caller actor operation t receipts = some u)
    (hu' : D1.insertReceiptRows org caller actor operation t' receipts' = some u') :
    Seen ρ org t₀ t₀' u u' := by
  induction hreceipts generalizing t t' with
  | nil =>
    cases hu
    cases hu'
    exact h
  | @cons fields fields' receipts receipts' hfields _ ih =>
    rw [D1.insertReceiptRows, Option.bind_eq_some_iff] at hu hu'
    obtain ⟨t₁, ht₁, hu⟩ := hu
    obtain ⟨t₁', ht₁', hu'⟩ := hu'
    refine ih ?_ hu hu'
    unfold insertReceipt at ht₁ ht₁'
    split at ht₁
    · cases ht₁
    · split at ht₁'
      · cases ht₁'
      · cases ht₁
        cases ht₁'
        -- The counters have gone up in step: the next numbers stand for each other.
        have hseq := h.receiptSeq 0
        rw [Int.natCast_zero, Int.add_zero, Int.add_zero] at hseq
        have hrow : (receiptRow org caller actor operation (t.receiptSeq + 1) fields).Alike ρ
            (receiptRow org caller actor operation (t'.receiptSeq + 1) fields') :=
          ⟨hseq, hfields.receiptId, hfields, congrArg (fun columns : ReceiptFields =>
            { receiptRow org caller actor operation (t'.receiptSeq + 1) columns with
              receiptId := fields'.receiptId, record := fields' }) hfields.rest⟩
        have hnext : ∀ (n : Int) (i : ℕ), n + 1 + 1 + i = n + 1 + ((i + 1 : ℕ) : Int) := by omega
        refine { h with
          receipts := h.receipts.cons hrow
          receiptSeq := fun i => ?_
          kept := { h.kept with receipts := (elsewhere_cons rfl).trans h.kept.receipts }
          kept' := { h.kept' with receipts := (elsewhere_cons rfl).trans h.kept'.receipts } }
        change ρ.receiptSeq (t.receiptSeq + 1 + 1 + i) (t'.receiptSeq + 1 + 1 + i)
        rw [hnext, hnext]
        exact h.receiptSeq (i + 1)

/-- The environment's row, or a new one. -/
theorem Seen.upsertEnvironment {row row' : EnvironmentRow} (h : Seen ρ org t₀ t₀' t t')
    (horg : row.organizationId = org) (hrow : row.Alike ρ row')
    (hu : (Statement.upsertEnvironment row).exec t = some u)
    (hu' : (Statement.upsertEnvironment row').exec t' = some u') : Seen ρ org t₀ t₀' u u' := by
  have hkey : ∀ a b : EnvironmentRow, a.key = b.key → a.organizationId = b.organizationId :=
    fun _ _ hab => congrArg Prod.fst hab
  have horg' : row'.organizationId = org := (hkey _ _ hrow.key).symm.trans horg
  have hreplace : ∀ {row : EnvironmentRow} {rows : List EnvironmentRow}, row.organizationId = org →
      (Table.replace EnvironmentRow.key row rows).filter (fun row => row.organizationId ≠ org) =
        rows.filter fun row => row.organizationId ≠ org := by
    intro row rows horg
    refine Table.filter_replace_of_neg (fun a b hab => ?_) (by simp [horg])
    rw [hkey a b hab]
  have hfound := h.environment row.environmentKey
  have hsome : (t.environment row.organizationId row.environmentKey).isSome =
      (t'.environment row'.organizationId row'.environmentKey).isSome := by
    obtain ⟨-, hname⟩ := Prod.mk.inj hrow.key
    rw [horg, horg', ← hname]
    exact Table.isSome_eq_of_rel hfound
  simp only [Statement.exec, ← hsome] at hu hu'
  by_cases hexists : (t.environment row.organizationId row.environmentKey).isSome = true
  · rw [if_pos hexists] at hu hu'
    cases hu
    cases hu'
    exact { h with
      environment := fun key => Table.rel_lookup_replace (h.environment key) hrow.key hrow
      kept := { h.kept with environments := (hreplace horg).trans h.kept.environments }
      kept' := { h.kept' with environments := (hreplace horg').trans h.kept'.environments } }
  · rw [if_neg hexists] at hu hu'
    cases hu
    cases hu'
    exact { h with
      environment := fun key => Table.rel_lookup_cons (h.environment key) hrow.key hrow
      kept := { h.kept with environments := (elsewhere_cons horg).trans h.kept.environments }
      kept' := { h.kept' with environments := (elsewhere_cons horg').trans h.kept'.environments } }

/-- A ruleset more of the organization. -/
theorem Seen.addRuleset {row row' : RulesetRow codec} (h : Seen ρ org t₀ t₀' t t')
    (horg : row.organizationId = org) (hrow : row.Alike ρ row') :
    Seen ρ org t₀ t₀' { t with rulesets := row :: t.rulesets }
      { t' with rulesets := row' :: t'.rulesets } := by
  have horg' : row'.organizationId = org := (congrArg Prod.fst hrow.triple).symm.trans horg
  refine { h with
    rulesets := fun flagKey environmentKey => ?_
    kept := { h.kept with rulesets := (elsewhere_cons horg).trans h.kept.rulesets }
    kept' := { h.kept' with rulesets := (elsewhere_cons horg').trans h.kept'.rulesets } }
  have hrest := h.rulesets flagKey environmentKey
  simp only [Tables.rulesetsOf, List.filter_cons, ← hrow.triple] at hrest ⊢
  split
  · exact .cons hrow hrest
  · exact hrest

/-- Neither the fence nor the commands are seen. -/
theorem Seen.unseen (h : Seen ρ org t₀ t₀' t t') (epoch epoch' : Int) (guard guard' : List Int)
    (commands commands' : List (CommandRow codec)) :
    Seen ρ org t₀ t₀' { t with epoch := epoch, guard := guard, commands := commands }
      { t' with epoch := epoch', guard := guard', commands := commands' } :=
  { h with
    kept := { h.kept with }
    kept' := { h.kept' with } }

/-- Statements that are alike keep what the organization sees. -/
theorem Seen.exec (h : Seen ρ org t₀ t₀' t t') {w w' : Statement codec} (hw : w.Alike ρ org w')
    (hu : w.exec t = some u) (hu' : w'.exec t' = some u') : Seen ρ org t₀ t₀' u u' := by
  -- What a conditional change that succeeds comes to.
  have hsome : ∀ {p : Prop} [Decidable p] {t u : Tables codec},
      (if p then none else some t) = some u → u = t := by
    intro p _ t u heq
    split at heq
    · cases heq
    · exact (Option.some.inj heq).symm
  cases hw with
  | guardEpoch epoch epoch' =>
    have hguard : ∀ {t u : Tables codec} {epoch : String},
        (Statement.guardEpoch epoch).exec t = some u → ∃ guard, u = { t with guard := guard } := by
      intro t u epoch heq
      simp only [Statement.exec] at heq
      split at heq
      · exact ⟨_, (Option.some.inj heq).symm⟩
      · cases heq
    obtain ⟨guard, rfl⟩ := hguard hu
    obtain ⟨guard', rfl⟩ := hguard hu'
    exact h.unseen _ _ _ _ _ _
  | insertCommand row row' =>
    cases hsome hu
    cases hsome hu'
    exact h.unseen _ _ _ _ _ _
  | @insertFlag row row' horg hrow =>
    cases hsome hu
    cases hsome hu'
    have horg' : row'.organizationId = org := (congrArg Prod.fst hrow.key).symm.trans horg
    exact { h with
      flag := fun key => Table.rel_lookup_cons (h.flag key) hrow.key hrow
      kept := { h.kept with flags := (elsewhere_cons horg).trans h.kept.flags }
      kept' := { h.kept' with flags := (elsewhere_cons horg').trans h.kept'.flags } }
  | updateFlag flagKey horg hrecord =>
    cases hu
    cases hu'
    subst horg
    exact h.setFlag hrecord
  | upsertEnvironment horg hrow => exact h.upsertEnvironment horg hrow hu hu'
  | insertRuleset flagKey environmentKey revision definition hpublication =>
    simp only [Statement.exec] at hu hu'
    cases hparse : Decimal.parseI64 revision with
    | none =>
      rw [hparse] at hu
      cases hu
    | some n =>
      rw [hparse] at hu hu'
      cases hsome hu
      cases hsome hu'
      exact h.addRuleset rfl ⟨hpublication, rfl⟩
  | insertReceipts caller actor operation hreceipts => exact h.insertReceiptRows hreceipts hu hu'
  | bumpEpoch =>
    cases hu
    cases hu'
    exact h.unseen _ _ _ _ _ _
  | clearGuard =>
    cases hu
    cases hu'
    exact h.unseen _ _ _ _ _ _

theorem Seen.runStatements (h : Seen ρ org t₀ t₀' t t') {ws ws' : List (Statement codec)}
    (hws : List.Forall₂ (Statement.Alike ρ org) ws ws') (hu : runStatements t ws = some u)
    (hu' : D1.runStatements t' ws' = some u') : Seen ρ org t₀ t₀' u u' := by
  induction hws generalizing t t' with
  | nil =>
    cases hu
    cases hu'
    exact h
  | cons hw _ ih =>
    rw [D1.runStatements, Option.bind_eq_some_iff] at hu hu'
    obtain ⟨t₁, ht₁, hu⟩ := hu
    obtain ⟨t₁', ht₁', hu'⟩ := hu'
    exact ih (h.exec hw ht₁ ht₁') hu hu'

end Statements

/-! ## Agreement -/

/-- Keys are unique, and the rulesets of a triple are newest first. -/
structure KeyedRows (t : Tables codec) : Prop where
  flags : (t.flags.map FlagRow.key).Nodup
  environments : (t.environments.map EnvironmentRow.key).Nodup
  revisions : ∀ org flagKey environmentKey,
    ((t.rulesetsOf org flagKey environmentKey).map fun row => -row.revision).Pairwise (· < ·)

section Agreement

variable {t₀ t₀' t t' : Tables codec} {c c' : Abstract.Store codec}

theorem KeyedRows.of_represents (hr : Represents t c) (hs : Abstract.Sound rt c) : KeyedRows t := by
  have hflags := hs.flagKeys
  have henvironments := hs.environmentKeys
  refine ⟨?_, ?_, fun org flagKey environmentKey => ?_⟩
  · rw [hr.flags, List.map_map]
    exact hflags
  · rw [hr.environments, List.map_map]
    exact henvironments
  · have hnumbered := hs.numbered (org, flagKey, environmentKey)
    change (c.rulesetsOf org flagKey environmentKey).map _ =
      Abstract.countdown (c.rulesetsOf org flagKey environmentKey).length at hnumbered
    rw [hr.rulesetsOf, List.map_map] at hnumbered
    have hdescending := Abstract.countdown_pairwise
      ((t.rulesetsOf org flagKey environmentKey).map RulesetRow.ruleset).length
    rw [← hnumbered, List.pairwise_map] at hdescending
    rw [List.pairwise_map]
    exact hdescending.imp fun h => Int.neg_lt_neg h

theorem mem_rulesetsOf {row : RulesetRow codec} : row ∈ t.rulesetsOf org flagKey environmentKey ↔
    row ∈ t.rulesets ∧ row.triple = (org, flagKey, environmentKey) := by
  rw [Tables.rulesetsOf, List.mem_filter, decide_eq_true_eq]

theorem flag_agree (hk : KeyedRows t) (h : t.Agree org t') (flagKey : String) :
    t.flag org flagKey = t'.flag org flagKey :=
  Table.lookup_congr hk.flags fun row hrow => h.flags row (congrArg Prod.fst hrow)

theorem environment_agree (hk : KeyedRows t) (h : t.Agree org t') (environmentKey : String) :
    t.environment org environmentKey = t'.environment org environmentKey :=
  Table.lookup_congr hk.environments fun row hrow => h.environments row (congrArg Prod.fst hrow)

theorem rulesetsOf_agree (hk : KeyedRows t) (hk' : KeyedRows t') (h : t.Agree org t')
    (flagKey environmentKey : String) :
    t.rulesetsOf org flagKey environmentKey = t'.rulesetsOf org flagKey environmentKey := by
  refine Feed.eq_of_ascending (hk.revisions ..) (hk'.revisions ..) fun row => ?_
  rw [mem_rulesetsOf, mem_rulesetsOf]
  exact and_congr_left fun hrow => h.rulesets row (congrArg Prod.fst hrow)

/-- The organization sees the same of two databases that hold the same rows of it. -/
theorem Seen.of_agree (hρ : ρ.Refl) (hk : KeyedRows t) (hk' : KeyedRows t') (h : t.Agree org t')
    (hseq : ∀ i : ℕ, ρ.receiptSeq (t.receiptSeq + 1 + i) (t'.receiptSeq + 1 + i)) :
    Seen ρ org t t' t t' := by
  refine ⟨fun key => ?_, fun key => ?_, fun flagKey environmentKey => ?_, ⟨?_, ?_⟩, hseq,
    .refl _ _, .refl _ _⟩
  · rw [← flag_agree hk h]
    cases t.flag org key with
    | none => exact .none
    | some row => exact .some ⟨rfl, hρ.flagSeq _, hρ.flag _⟩
  · rw [← environment_agree hk h]
    cases t.environment org key with
    | none => exact .none
    | some row => exact .some ⟨rfl, hρ.time _, hρ.time _, rfl⟩
  · rw [← rulesetsOf_agree hk hk' h]
    exact List.forall₂_same.mpr fun row _ => ⟨⟨hρ.time _, rfl⟩, rfl⟩
  · exact fun row hrow horg => ⟨row, (h.receipts row horg).mp hrow, hρ.receiptSeq _,
      hρ.receiptId _, ⟨hρ.receiptId _, hρ.time _, rfl⟩, rfl⟩
  · exact fun row hrow horg => ⟨row, (h.receipts row horg).mpr hrow, hρ.receiptSeq _,
      hρ.receiptId _, ⟨hρ.receiptId _, hρ.time _, rfl⟩, rfl⟩

/-- The rows of the organization are alike when what it sees is. -/
theorem Seen.alike (h : Seen ρ org t₀ t₀' t t') (hk : KeyedRows t) (hk' : KeyedRows t') :
    t.Alike ρ org t' := by
  refine ⟨Table.matched_of_lookup hk.flags hk'.flags fun row hrow => ?_,
    Table.matched_of_lookup hk.environments hk'.environments fun row hrow => ?_, ?_, h.receipts⟩
  · have hflag := h.flag row.flagKey
    rwa [← hrow] at hflag
  · have henvironment := h.environment row.environmentKey
    rwa [← hrow] at henvironment
  · have hpart : ∀ (t : Tables codec) (row : RulesetRow codec),
        t.rulesetsOf row.organizationId row.flagKey row.environmentKey ⊆ t.rulesets ∧
          (row ∈ t.rulesets →
            row ∈ t.rulesetsOf row.organizationId row.flagKey row.environmentKey) :=
      fun _ _ => ⟨fun _ hmem => (mem_rulesetsOf.mp hmem).1, fun hrow => mem_rulesetsOf.mpr ⟨hrow, rfl⟩⟩
    refine Table.matched_of_forall₂ (hpart t) (hpart t') fun row hrow => ?_
    have hrulesets := h.rulesets row.flagKey row.environmentKey
    rwa [← hrow] at hrulesets

end Agreement

/-! ## Snapshots -/

/-- The same rows of the organization, and epochs that stand for each other. -/
structure Snapshot.Alike (ρ : Renaming) (org : String) (flagKeys : List String)
    (snap snap' : Snapshot codec) : Prop where
  epoch : ρ.flagSeq snap.epoch snap'.epoch
  command : snap.command = snap'.command
  flags : ∀ flagKey ∈ flagKeys, snap.flags.lookup flagKey = snap'.flags.lookup flagKey
  environment : snap.environment = snap'.environment
  rulesets : ∀ flagKey ∈ flagKeys, snap.rulesets.lookup flagKey = snap'.rulesets.lookup flagKey
  flagOwner : ∀ flagKey ∈ flagKeys, ∀ record, snap.flags.lookup flagKey = some record →
    record.organizationId = org
  environmentOwner : ∀ record, snap.environment = some record → record.organizationId = org

section Snapshots

variable {t t' : Tables codec} {c c' : Abstract.Store codec} {flagKeys : List String}

theorem decodes_of_decodeRulesets {rows : List (RulesetRow codec)}
    {entries : List (String × String × RulesetDefinition)} (h : decodeRulesets rows = .ok entries) :
    ∀ row ∈ rows, codec.decodeDefinition row.definition ≠ none := by
  induction rows generalizing entries with
  | nil => exact List.forall_mem_nil _
  | cons row rows ih =>
    simp only [decodeRulesets, bind_eq_ok, orJson_eq_ok] at h
    obtain ⟨definition, hdecode, rest, hrest, -⟩ := h
    refine List.forall_mem_cons.mpr ⟨?_, ih hrest⟩
    rw [hdecode]
    exact Option.some_ne_none _

/-- The same rows decode in any order. -/
theorem decodeRulesets_tally {rows rows' : List (RulesetRow codec)}
    (h : ∀ row, row ∈ rows ↔ row ∈ rows') :
    Tally (fun _ _ => True) (decodeRulesets rows) (decodeRulesets rows') := by
  cases hentries : decodeRulesets rows with
  | ok entries =>
    cases hentries' : decodeRulesets rows' with
    | ok entries' => exact .ok trivial
    | error e' =>
      obtain ⟨-, row, hrow, hnone⟩ := decodeRulesets_eq_error hentries'
      exact absurd hnone (decodes_of_decodeRulesets hentries row ((h row).mpr hrow))
  | error e =>
    obtain ⟨rfl, row, hrow, hnone⟩ := decodeRulesets_eq_error hentries
    cases hentries' : decodeRulesets rows' with
    | ok entries' =>
      exact absurd hnone (decodes_of_decodeRulesets hentries' row ((h row).mp hrow))
    | error e' =>
      obtain ⟨rfl, -⟩ := decodeRulesets_eq_error hentries'
      exact .error _

theorem latestRulesets_agree (hk : KeyedRows t) (hk' : KeyedRows t') (h : t.Agree org t')
    (environmentKey : String) (row : RulesetRow codec) :
    row ∈ latestRulesets t org flagKeys environmentKey ↔
      row ∈ latestRulesets t' org flagKeys environmentKey := by
  simp only [latestRulesets, List.mem_filter, Bool.and_eq_true, decide_eq_true_eq]
  constructor
  · rintro ⟨hrow, ⟨⟨horg, henvironment⟩, hflag⟩, hall⟩
    subst horg
    rw [rulesetsOf_agree hk hk' h] at hall
    exact ⟨(h.rulesets row rfl).mp hrow, ⟨⟨rfl, henvironment⟩, hflag⟩, hall⟩
  · rintro ⟨hrow, ⟨⟨horg, henvironment⟩, hflag⟩, hall⟩
    subst horg
    rw [← rulesetsOf_agree hk hk' h] at hall
    exact ⟨(h.rulesets row rfl).mpr hrow, ⟨⟨rfl, henvironment⟩, hflag⟩, hall⟩

theorem rel_functional {α β : Type} {R : α → β → Prop} {o o' : Option α} {p : Option β}
    (h : Option.Rel R o p) (h' : Option.Rel R o' p) (hR : ∀ a a' b, R a b → R a' b → a = a') :
    o = o' := by
  cases h with
  | none =>
    cases h'
    rfl
  | some hab =>
    cases h' with
    | some hab' => rw [hR _ _ _ hab hab']

/-- The snapshots of two databases that hold the same rows of the organization. -/
theorem snapshot_tally (hr : Represents t c) (hs : Abstract.Sound rt c)
    (hepoch : t.epoch ≤ Decimal.i64Max) (hr' : Represents t' c') (hs' : Abstract.Sound rt c')
    (hepoch' : t'.epoch ≤ Decimal.i64Max) (h : t.Agree org t') {command : Command}
    {operation : String}
    (hcommand : t.command (command.rowKey operation) = t'.command (command.rowKey operation))
    (hseq : ρ.flagSeq t.epoch t'.epoch) :
    Tally (Snapshot.Alike ρ org flagKeys)
      (snapshot t command operation org flagKeys environmentKey)
      (snapshot t' command operation org flagKeys environmentKey) := by
  have hk : KeyedRows t := .of_represents hr hs
  have hk' : KeyedRows t' := .of_represents hr' hs'
  have hboth : Tally (fun _ _ => True) (snapshot t command operation org flagKeys environmentKey)
      (snapshot t' command operation org flagKeys environmentKey) := by
    rw [snapshot_eq hr hepoch, snapshot_eq hr' hepoch']
    exact (decodeRulesets_tally (latestRulesets_agree hk hk' h environmentKey)).bind
      fun _ _ _ _ => .ok trivial
  cases hsnap : snapshot t command operation org flagKeys environmentKey with
  | error e =>
    rw [hsnap] at hboth
    generalize snapshot t' command operation org flagKeys environmentKey = x at hboth ⊢
    cases hboth
    exact .error e
  | ok snap =>
    rw [hsnap] at hboth
    cases hsnap' : snapshot t' command operation org flagKeys environmentKey with
    | error e =>
      rw [hsnap'] at hboth
      cases hboth
    | ok snap' =>
      -- Each snapshot reads its own abstract store; the agreement of the tables carries over.
      have hread := snapshot_reads hr hs hepoch hsnap
      have hread' := snapshot_reads hr' hs' hepoch' hsnap'
      have hflag : ∀ flagKey, (c.flag org flagKey).map (·.record) =
          (c'.flag org flagKey).map (·.record) := by
        intro flagKey
        have hrow := congrArg (Option.map FlagRow.record) (flag_agree hk h flagKey)
        rw [hr.flag, hr'.flag, Option.map_map, Option.map_map] at hrow
        exact hrow
      have henvironment : (c.environment org environmentKey).map (·.record) =
          (c'.environment org environmentKey).map (·.record) := by
        have hrow := congrArg (Option.map EnvironmentRow.record)
          (environment_agree hk h environmentKey)
        rw [hr.environment, hr'.environment, Option.map_map, Option.map_map] at hrow
        exact hrow
      refine .ok ⟨?_, ?_, fun flagKey hkey => ?_, ?_, fun flagKey hkey => ?_,
        fun flagKey hkey record hrecord => ?_, fun record hrecord => ?_⟩
      · rw [hread.epoch, hread'.epoch]
        exact hseq
      · rw [hread.command, hread'.command, hcommand]
      · rw [hread.flags flagKey hkey, hread'.flags flagKey hkey, hflag]
      · rw [hread.environment, hread'.environment, henvironment]
      · have hlatest : c.latest org flagKey environmentKey = c'.latest org flagKey environmentKey := by
          rw [Abstract.Store.latest, Abstract.Store.latest, hr.rulesetsOf, hr'.rulesetsOf,
            rulesetsOf_agree hk hk' h]
        have hentry := hread.rulesets flagKey hkey
        have hentry' := hread'.rulesets flagKey hkey
        rw [← hlatest] at hentry'
        exact rel_functional hentry hentry' fun _ _ _ hab hab' =>
          Prod.ext (hab.1.trans hab'.1.symm) (Option.some.inj (hab.2.symm.trans hab'.2))
      · rw [hread.flags flagKey hkey, Option.map_eq_some_iff] at hrecord
        obtain ⟨flag, hflag, rfl⟩ := hrecord
        exact Abstract.flag_organizationId hflag
      · rw [hread.environment, Option.map_eq_some_iff] at hrecord
        obtain ⟨environment, henvironment, rfl⟩ := hrecord
        exact Abstract.environment_organizationId henvironment

end Snapshots

/-! ## Plans -/

/-- A replay of one response, or commit batches that are alike. -/
inductive Planned.Alike (ρ : Renaming) (org : String) : Planned codec → Planned codec → Prop
  | answered (response : Response) : Alike ρ org (.answered response) (.answered response)
  | commit {statements statements' : List (Statement codec)} {response response' : Response} :
      List.Forall₂ (Statement.Alike ρ org) statements statements' → response.Alike ρ response' →
      Alike ρ org (.commit statements response) (.commit statements' response')

section Plans

variable {snap snap' : Snapshot codec} {flagKeys : List String} {command : Command} {δ δ' : Draws}

theorem commit_tally {operation : String} {writes writes' : List (Statement codec)}
    {response response' : Response} (hwrites : List.Forall₂ (Statement.Alike ρ org) writes writes')
    (hresponse : response.Likewise codec ρ response') :
    Tally (Planned.Alike ρ org) (commit snap command operation writes response)
      (commit snap' command operation writes' response') := by
  have haccepted := hresponse.accepted
  unfold commit
  generalize encodeResponse codec response = stored at haccepted
  generalize encodeResponse codec response' = stored' at haccepted
  cases haccepted with
  | none => exact .error _
  | some =>
    refine .ok (.commit ?_ hresponse.alike)
    exact .cons (.guardEpoch _ _) (.cons (.insertCommand _ _)
      (List.rel_append hwrites (.cons .bumpEpoch (.cons .clearGuard .nil))))

theorem unlessReplayed_tally {kind : Kind} {fresh fresh' : Except StorageError (Planned codec)}
    (hcommand : snap.command = snap'.command) (hfresh : Tally (Planned.Alike ρ org) fresh fresh') :
    Tally (Planned.Alike ρ org) (unlessReplayed kind snap command fresh)
      (unlessReplayed kind snap' command fresh') := by
  unfold unlessReplayed
  rw [← hcommand]
  refine .bind_same fun found _ => ?_
  cases found with
  | none => exact hfresh
  | some response => exact .ok (.answered response)

variable (h : snap.Alike ρ org flagKeys snap') (htime : ∀ a b, ρ.time a b) (hrefl : ρ.Refl)

include h htime hrefl

omit hrefl in
theorem createFlag_tally {name valueType : String} {description : Option String}
    (hkey : flagKey ∈ flagKeys) :
    Tally (Planned.Alike ρ org)
      (createFlag rt δ snap command org flagKey name description valueType)
      (createFlag rt δ' snap' command org flagKey name description valueType) := by
  refine unlessReplayed_tally h.command ?_
  rw [← h.flags flagKey hkey]
  split
  · exact .error _
  · have hrecord : FlagRecord.Alike ρ
        (.mk org flagKey name description valueType false "1" (now rt (δ 0)) (now rt (δ 0)) none
          snap.epoch)
        (.mk org flagKey name description valueType false "1" (now rt (δ' 0)) (now rt (δ' 0)) none
          snap'.epoch) :=
      ⟨htime _ _, htime _ _, .none, h.epoch, rfl⟩
    exact commit_tally (.cons (.insertFlag rfl ⟨rfl, h.epoch, hrecord⟩) .nil)
      (likewise_flag hrecord)

theorem updateFlag_tally {name : String} {expected : Int} {description : Option String}
    (hkey : flagKey ∈ flagKeys) :
    Tally (Planned.Alike ρ org) (updateFlag rt δ snap command flagKey expected name description)
      (updateFlag rt δ' snap' command flagKey expected name description) := by
  refine unlessReplayed_tally h.command ?_
  rw [← h.flags flagKey hkey]
  refine .bind_same fun record hrecord => ?_
  have horg := h.flagOwner flagKey hkey record (okOr_eq_ok.mp hrecord)
  refine .bind_same fun _ _ => .bind_same fun bumped _ => ?_
  have halike : FlagRecord.Alike ρ
      { record with
        name := name, description := description, revision := bumped, updatedAt := now rt (δ 0) }
      { record with
        name := name, description := description, revision := bumped, updatedAt := now rt (δ' 0) } :=
    ⟨hrefl.time _, htime _ _, hrefl.times _, hrefl.flagSeq _, rfl⟩
  exact commit_tally (.cons (.updateFlag _ horg halike) .nil) (likewise_flag halike)

theorem archiveFlag_tally {expected : Int} (hkey : flagKey ∈ flagKeys) :
    Tally (Planned.Alike ρ org) (archiveFlag rt δ snap command flagKey expected)
      (archiveFlag rt δ' snap' command flagKey expected) := by
  refine unlessReplayed_tally h.command ?_
  rw [← h.flags flagKey hkey]
  refine .bind_same fun record hrecord => ?_
  have horg := h.flagOwner flagKey hkey record (okOr_eq_ok.mp hrecord)
  refine .bind_same fun _ _ => .bind_same fun bumped _ => ?_
  have halike : FlagRecord.Alike ρ
      { record with
        revision := bumped, updatedAt := now rt (δ 0), archived := true,
        archivedAt := some (now rt (δ 0)) }
      { record with
        revision := bumped, updatedAt := now rt (δ' 0), archived := true,
        archivedAt := some (now rt (δ' 0)) } :=
    ⟨hrefl.time _, htime _ _, .some (htime _ _), hrefl.flagSeq _, rfl⟩
  exact commit_tally (.cons (.updateFlag _ horg halike) .nil) (likewise_flag halike)

theorem putEnvironment_tally {name : String} {expected : Option Int} :
    Tally (Planned.Alike ρ org)
      (putEnvironment rt δ snap command org environmentKey name expected)
      (putEnvironment rt δ' snap' command org environmentKey name expected) := by
  refine unlessReplayed_tally h.command ?_
  rw [← h.environment]
  cases henvironment : snap.environment with
  | none =>
    cases expected with
    | some expected => exact .error _
    | none =>
      have halike : EnvironmentRecord.Alike ρ
          (.mk org environmentKey name "1" (now rt (δ 0)) (now rt (δ 0)))
          (.mk org environmentKey name "1" (now rt (δ' 0)) (now rt (δ' 0))) :=
        ⟨htime _ _, htime _ _, rfl⟩
      exact commit_tally (.cons (.upsertEnvironment rfl ⟨rfl, halike⟩) .nil)
        (likewise_environment halike)
  | some current =>
    cases expected with
    | none => exact .error _
    | some expected =>
      have horg := h.environmentOwner current henvironment
      refine .bind_same fun actual _ => ?_
      split
      · exact .error _
      · refine .bind_same fun bumped _ => ?_
        have halike : EnvironmentRecord.Alike ρ
            { current with name := name, revision := bumped, updatedAt := now rt (δ 0) }
            { current with name := name, revision := bumped, updatedAt := now rt (δ' 0) } :=
          ⟨hrefl.time _, htime _ _, rfl⟩
        exact commit_tally (.cons (.upsertEnvironment horg ⟨rfl, halike⟩) .nil)
          (likewise_environment halike)

theorem publishRuleset_tally {expectedFlag expectedEnvironment : Int}
    {definition : RulesetDefinition} (hkey : flagKey ∈ flagKeys) :
    Tally (Planned.Alike ρ org)
      (publishRuleset rt δ snap command org flagKey environmentKey expectedFlag expectedEnvironment
        definition)
      (publishRuleset rt δ' snap' command org flagKey environmentKey expectedFlag
        expectedEnvironment definition) := by
  refine unlessReplayed_tally h.command ?_
  rw [← h.flags flagKey hkey, ← h.environment, ← h.rulesets flagKey hkey]
  refine .bind_same fun flag hflag => ?_
  have horg := h.flagOwner flagKey hkey flag (okOr_eq_ok.mp hflag)
  refine .bind_same fun _ _ => .bind_same fun _ _ => ?_
  refine .bind_same fun environment henvironment => ?_
  have horg' := h.environmentOwner environment (okOr_eq_ok.mp henvironment)
  refine .bind_same fun actual _ => ?_
  split
  · exact .error _
  · refine .bind_same fun flagRevision _ => ?_
    refine .bind_same fun environmentRevision _ => ?_
    refine .bind_same fun next _ => ?_
    refine .bind_same fun document _ => ?_
    have halike : FlagRecord.Alike ρ
        { flag with revision := flagRevision, updatedAt := now rt (δ 0) }
        { flag with revision := flagRevision, updatedAt := now rt (δ' 0) } :=
      ⟨hrefl.time _, htime _ _, hrefl.times _, hrefl.flagSeq _, rfl⟩
    have halike' : EnvironmentRecord.Alike ρ
        { environment with revision := environmentRevision, updatedAt := now rt (δ 0) }
        { environment with revision := environmentRevision, updatedAt := now rt (δ' 0) } :=
      ⟨hrefl.time _, htime _ _, rfl⟩
    have hpublication : PublishRecord.Alike ρ
        (.mk org flagKey environmentKey next flagRevision environmentRevision command.actor
          (now rt (δ 0)))
        (.mk org flagKey environmentKey next flagRevision environmentRevision command.actor
          (now rt (δ' 0))) :=
      ⟨htime _ _, rfl⟩
    exact commit_tally (.cons (.updateFlag _ horg halike)
      (.cons (.upsertEnvironment horg' ⟨rfl, halike'⟩)
        (.cons (.insertRuleset _ _ _ _ hpublication) .nil))) (likewise_publish hpublication)

end Plans

/-! ## Evaluations -/

section Evaluations

variable {snap snap' : Snapshot codec} {flagKeys : List String} {command : Command} {δ δ' : Draws}
  {operation targetingKey contextHash : String} {attributes : List (String × Json)}

/-- A record and its receipt, with what the response column makes of the record. -/
structure Evaluated (codec : Codec) (ρ : Renaming)
    (result result' : EvaluationRecord × ReceiptFields) : Prop where
  record : result.1.Likewise codec ρ result'.1
  receipt : result.2.Alike ρ result'.2

variable (h : snap.Alike ρ org flagKeys snap') (htime : ∀ a b, ρ.time a b)
  (hid : ∀ i, ρ.receiptId (δ i).uuid (δ' i).uuid) (hcodec : codec.Blind rt δ δ')

include h htime hid hcodec

theorem evaluationAt_tally {index : ℕ} (hkey : flagKey ∈ flagKeys) :
    Tally (Evaluated codec ρ)
      (evaluationAt rt snap command operation org environmentKey targetingKey attributes contextHash
        (δ index) index flagKey)
      (evaluationAt rt snap' command operation org environmentKey targetingKey attributes
        contextHash (δ' index) index flagKey) := by
  unfold evaluationAt
  rw [← h.flags flagKey hkey, ← h.environment, ← h.rulesets flagKey hkey]
  refine .bind_same fun flag _ => ?_
  split
  · exact .error _
  · refine .bind_same fun _ _ => .bind_same fun entry _ => ?_
    obtain ⟨revision, definition⟩ := entry
    refine .bind_same fun _ _ => .bind_same fun choice _ => ?_
    obtain ⟨variant, reason⟩ := choice
    refine .ok ⟨⟨⟨hid index, htime _ _, rfl⟩, both_of_isSome ?_⟩, hid index, htime _ _, rfl⟩
    exact hcodec (EvaluationRecord.mk flagKey environmentKey variant.variantKey variant.value reason
      revision "" "") index

theorem evaluationsFrom_tally {keys : List String} {index : ℕ} (hkeys : keys ⊆ flagKeys) :
    Tally (List.Forall₂ (Evaluated codec ρ))
      (evaluationsFrom rt δ snap command operation org environmentKey targetingKey attributes
        contextHash index keys)
      (evaluationsFrom rt δ' snap' command operation org environmentKey targetingKey attributes
        contextHash index keys) := by
  induction keys generalizing index with
  | nil => exact .ok .nil
  | cons key keys ih =>
    obtain ⟨hkey, hrest⟩ := List.cons_subset.mp hkeys
    exact (evaluationAt_tally h htime hid hcodec hkey).bind fun _ _ _ hfirst =>
      (ih hrest).bind fun _ _ _ hresults => .ok (.cons hfirst hresults)

theorem evaluations_tally :
    Tally (Planned.Alike ρ org)
      (evaluations rt δ snap command operation org environmentKey flagKeys targetingKey attributes
        contextHash)
      (evaluations rt δ' snap' command operation org environmentKey flagKeys targetingKey attributes
        contextHash) := by
  refine unlessReplayed_tally h.command ?_
  refine (evaluationsFrom_tally h htime hid hcodec (List.Subset.refl _)).bind
    fun results results' _ hresults => ?_
  have hrecords : List.Forall₂ (EvaluationRecord.Likewise codec ρ) (results.map (·.1))
      (results'.map (·.1)) :=
    List.rel_map (fun _ _ hresult => hresult.record) hresults
  have hwrites : List.Forall₂ (@Statement.Alike codec ρ org)
      [.insertReceipts org command.caller command.actor operation (results.map (·.2))]
      [.insertReceipts org command.caller command.actor operation (results'.map (·.2))] :=
    .cons (.insertReceipts _ _ _ (List.rel_map (fun _ _ hresult => hresult.receipt) hresults)) .nil
  dsimp only
  split
  · have hlast := Table.head_forall₂ (List.rel_reverse hrecords)
    rw [List.head?_reverse, List.head?_reverse] at hlast
    generalize (results.map (·.1)).getLast? = last at hlast
    generalize (results'.map (·.1)).getLast? = last' at hlast
    cases hlast with
    | none => exact .error _
    | some hrecord => exact commit_tally hwrites (likewise_evaluation hrecord)
  · exact commit_tally hwrites (likewise_evaluations hrecords)

end Evaluations

/-! ## Calls -/

/-- What the two calls draw and take from the counters stands for each other. -/
structure Stand (ρ : Renaming) (δ δ' : Draws) (t t' : Tables codec) : Prop where
  time : ∀ a b, ρ.time a b
  receiptId : ∀ i, ρ.receiptId (δ i).uuid (δ' i).uuid
  flagSeq : ρ.flagSeq t.epoch t'.epoch
  receiptSeq : ∀ i : ℕ, ρ.receiptSeq (t.receiptSeq + 1 + i) (t'.receiptSeq + 1 + i)

section Calls

variable {t t' : Tables codec} {c c' : Abstract.Store codec} {δ δ' : Draws} {call : Call}

theorem plan_tally {snap snap' : Snapshot codec} (hcodec : codec.Blind rt δ δ')
    (hρ : Stand ρ δ δ' t t') (hrefl : ρ.Refl)
    (h : snap.Alike ρ call.operation.organizationId (scope call.operation).1 snap') :
    Tally (Planned.Alike ρ call.operation.organizationId) (plan rt δ snap call)
      (plan rt δ' snap' call) := by
  obtain ⟨command, operation⟩ := call
  cases operation with
  | createFlag => exact createFlag_tally h hρ.time List.mem_cons_self
  | updateFlag => exact updateFlag_tally h hρ.time hrefl List.mem_cons_self
  | archiveFlag => exact archiveFlag_tally h hρ.time hrefl List.mem_cons_self
  | putEnvironment => exact putEnvironment_tally h hρ.time hrefl
  | publishRuleset => exact publishRuleset_tally h hρ.time hrefl List.mem_cons_self
  | evaluate => exact evaluations_tally h hρ.time hρ.receiptId hcodec
  | evaluateBatch => exact evaluations_tally h hρ.time hρ.receiptId hcodec

/-- A planned batch succeeds. -/
theorem exists_batch (hr : Represents t c) (hs : Abstract.Sound rt c) (hσ : (stamp rt δ t).Fresh c)
    (hepoch : t.epoch ≤ Decimal.i64Max) {statements : List (Statement codec)} {response : Response}
    (hprepare : prepare rt δ t call = .ok (.commit statements response)) :
    ∃ u, batch t statements = some u ∧ runStatements t statements = some u := by
  rcases prepare_cases hr hs hσ hepoch call with hagree | ⟨herror, -⟩
  · rw [hprepare] at hagree
    generalize Abstract.attempt rt (stamp rt δ t) c call = outcome at hagree
    cases hagree with
    | ok hplans =>
      cases hplans with
      | commit _ _ _ hbatch _ _ =>
        refine ⟨_, hbatch, ?_⟩
        unfold batch at hbatch
        split at hbatch
        · cases hbatch
        · exact hbatch
  · rw [hprepare] at herror
    cases herror

/-- A call run alone on two databases with the same rows of its organization. -/
theorem call_beside (hcodec : codec.Blind rt δ δ') (hρ : Stand ρ δ δ' t t') (hrefl : ρ.Refl)
    (hr : Represents t c) (hs : Abstract.Sound rt c) (hσ : (stamp rt δ t).Fresh c)
    (hepoch : t.epoch ≤ Decimal.i64Max) (hr' : Represents t' c') (hs' : Abstract.Sound rt c')
    (hσ' : (stamp rt δ' t').Fresh c') (hepoch' : t'.epoch ≤ Decimal.i64Max)
    (h : t.Agree call.operation.organizationId t')
    (hcommand : t.command call.commandKey = t'.command call.commandKey) :
    Tally (fun answer answer' => answer.Alike ρ answer' ∧
        Seen ρ call.operation.organizationId t t' (D1.call rt δ t call).2 (D1.call rt δ' t' call).2)
      (D1.call rt δ t call).1 (D1.call rt δ' t' call).1 ∧
    ∀ e, (D1.call rt δ t call).1 = .error e →
      (D1.call rt δ t call).2 = t ∧ (D1.call rt δ' t' call).2 = t' := by
  have hseen : Seen ρ call.operation.organizationId t t' t t' :=
    .of_agree hrefl (.of_represents hr hs) (.of_represents hr' hs') h hρ.receiptSeq
  have hprepare : Tally (Planned.Alike ρ call.operation.organizationId) (prepare rt δ t call)
      (prepare rt δ' t' call) :=
    (snapshot_tally hr hs hepoch hr' hs' hepoch' h hcommand hρ.flagSeq).bind
      fun _ _ _ hsnap => plan_tally hcodec hρ hrefl hsnap
  -- Each batch succeeds on its own database, so the plans alone decide the answers.
  have hbatch := @exists_batch codec rt t c δ call hr hs hσ hepoch
  have hbatch' := @exists_batch codec rt t' c' δ' call hr' hs' hσ' hepoch'
  unfold D1.call
  generalize prepare rt δ t call = planned at hprepare hbatch
  generalize prepare rt δ' t' call = planned' at hprepare hbatch'
  cases hprepare with
  | error e => exact ⟨.error e, fun _ _ => ⟨rfl, rfl⟩⟩
  | ok hplanned =>
    cases hplanned with
    | answered response =>
      exact ⟨.ok ⟨.replayed (hrefl.response response), hseen⟩, fun _ _ => ⟨rfl, rfl⟩⟩
    | commit hstatements hresponse =>
      obtain ⟨u, hu, hrun⟩ := hbatch rfl
      obtain ⟨u', hu', hrun'⟩ := hbatch' rfl
      simp only [hu, hu']
      exact ⟨.ok ⟨.fresh hresponse, hseen.runStatements hstatements hrun hrun'⟩, nofun⟩

end Calls

/-! ## Reads -/

section Reads

variable {t t' : Tables codec}

theorem getFlag_agree (hk : KeyedRows t) (h : t.Agree org t') (flagKey : String) :
    getFlag t org flagKey = getFlag t' org flagKey := by
  rw [getFlag, getFlag, flag_agree hk h]

theorem listFlags_agree (hn : (t.flags.map FlagRow.rowSeq).Nodup)
    (hn' : (t'.flags.map FlagRow.rowSeq).Nodup) (h : t.Agree org t') (includeArchived : Bool)
    (after : Option Int) (limit : Int) :
    listFlags t org includeArchived after limit = listFlags t' org includeArchived after limit := by
  have habove := Feed.above_congr hn hn'
    (q := fun row => decide (row.organizationId = org) && (includeArchived || !row.record.archived))
    (fun row hq => h.flags row (of_decide_eq_true (Bool.and_elim_left hq))) (after.getD 0)
  exact congrArg (fun rows => (page limit rows).map (·.record)) habove

theorem listReceipts_agree (hn : (t.receipts.map ReceiptRow.rowSeq).Nodup)
    (hn' : (t'.receipts.map ReceiptRow.rowSeq).Nodup) (h : t.Agree org t')
    (flagKey environmentKey : Option String) (after : Option Int) (limit : Int) :
    listReceipts t org flagKey environmentKey after limit =
      listReceipts t' org flagKey environmentKey after limit := by
  have habove := Feed.above_congr hn hn'
    (q := fun row => decide (row.organizationId = org) && flagKey.all (· == row.flagKey)
      && environmentKey.all (· == row.environmentKey))
    (fun row hq => h.receipts row
      (of_decide_eq_true (Bool.and_elim_left (Bool.and_elim_left hq)))) (after.getD 0)
  exact congrArg (fun rows => receiptRecords (page limit rows)) habove

end Reads

end LensoFlags.D1
