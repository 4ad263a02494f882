import LensoFlags.D1.Refinement

/-!
# Plans

Results:
1. `plan_agree`: on the snapshot of a represented store, a plan agrees with `Abstract.attempt`; a
   planned commit batch succeeds on those tables and leads to the abstract outcome.
2. `call_agree`: a call run alone agrees with `Abstract.exec`.
-/

namespace LensoFlags.D1

open Abstract (Sound)

variable {codec : Codec} {rt : Runtime} {δ : Draws} {t : Tables codec} {c : Abstract.Store codec}

/-- What a D1 call adds to its rows: one clock reading, the epoch as row number of a flag, the
`AUTOINCREMENT` numbers of receipts. -/
def stamp (rt : Runtime) (δ : Draws) (t : Tables codec) : Abstract.Stamp :=
  { createdAt := now rt (δ 0)
    updatedAt := now rt (δ 0)
    archivedAt := now rt (δ 0)
    publishedAt := now rt (δ 0)
    environmentUpdatedAt := now rt (δ 0)
    rowSeq := t.epoch
    evaluation := fun i => ⟨(δ i).uuid, now rt (δ i), now rt (δ i), t.receiptSeq + 1 + i⟩ }

/-- The counters lie above the row numbers given out. -/
theorem Represents.freshSeqs (hr : Represents t c) (rt : Runtime) (δ : Draws) :
    (stamp rt δ t).FreshSeqs c where
  flagSeq := ⟨hr.epoch, fun flag hflag => (hr.rowSeqs flag hflag).2.ne⟩
  receiptSeq := by
    intro i
    have h0 := hr.receiptSeq
    refine ⟨show 0 < t.receiptSeq + 1 + i by omega, fun receipt hreceipt => ?_⟩
    have hle := (hr.receiptSeqs receipt hreceipt).2
    change receipt.rowSeq ≠ t.receiptSeq + 1 + i
    omega
  receiptSeqs := by
    intro i j h
    change t.receiptSeq + 1 + i = t.receiptSeq + 1 + j at h
    omega

/-- A plan for an abstract outcome: an answer from the store, or a batch that leads there. -/
inductive Plans (t : Tables codec) (c : Abstract.Store codec) (call : Call) :
    Planned codec → Answer × Abstract.Store codec → Prop
  | answered (response : Response) :
      Plans t c call (.answered response) (.replayed response, c)
  | commit {row : CommandRow codec} {rest : List (Statement codec)} {response : Response}
      {t' : Tables codec} {c' : Abstract.Store codec} :
      row.key = call.commandKey → row.requestHash = call.command.hash →
      encodeResponse codec response = some row.response →
      batch t (.guardEpoch (toString t.epoch) :: .insertCommand row :: rest) = some t' →
      t'.epoch = t.epoch + 1 → Represents t' c' →
      Plans t c call
        (.commit (.guardEpoch (toString t.epoch) :: .insertCommand row :: rest) response)
        (.fresh response, c')

variable {call : Call} {snap : Snapshot codec} {response : Response}

theorem commit_agree {writes : List (Statement codec)} {c₁ : Abstract.Store codec}
    (hguard : t.guard = []) (hepoch : snap.epoch = t.epoch)
    (hnew : t.command call.commandKey = none) (t₂ : Tables codec) (hlen : writes.length ≤ 124)
    (hwrites : ∀ row : CommandRow codec, row.key = call.commandKey →
      encodeResponse codec response = some row.response →
      runStatements { t with guard := [1], commands := row :: t.commands } writes =
        some { t₂ with guard := [1], commands := row :: t₂.commands })
    (ht₂ : t₂.epoch = t.epoch) (hr₂ : Represents { t₂ with epoch := t₂.epoch + 1 } c₁) :
    Agree (Plans t c call) (commit snap call.command call.operation.name writes response)
      (Abstract.record c₁ call response >>= fun c' => .ok (.fresh response, c')) := by
  unfold commit Abstract.record
  cases hstored : encodeResponse codec response with
  | none => exact .other rfl rfl
  | some stored =>
    refine .ok ?_
    have hbatch := batch_commit ⟨call.commandKey, call.command.hash, stored⟩ hguard hnew
      hlen (hwrites _ rfl hstored)
    rw [hepoch]
    refine .commit rfl rfl hstored hbatch (by rw [← ht₂]) ?_
    exact { hr₂.addCommand ⟨call.commandKey, call.command.hash, stored⟩ with guard := rfl }

/-- The replay of a snapshot is the abstract one; a new call goes on to its own effect. -/
theorem unlessReplayed_agree (hr : Represents t c) {σ : Abstract.Stamp}
    (hcommand : snap.command = (t.command call.commandKey).toList)
    {fresh : Except StorageError (Planned codec)}
    (hfresh : t.command call.commandKey = none →
      Agree (Plans t c call) fresh (do
        let (response, c₁) ← Abstract.perform rt σ c call
        let c' ← Abstract.record c₁ call response
        .ok (.fresh response, c'))) :
    Agree (Plans t c call) (unlessReplayed call.operation.kind snap call.command fresh)
      (Abstract.attempt rt σ c call) := by
  have hc := hr.command call.commandKey
  cases hrow : t.command call.commandKey with
  | none =>
    rw [hrow] at hcommand hc
    rw [Abstract.attempt_of_new hc, unlessReplayed, hcommand]
    exact hfresh hrow
  | some row =>
    rw [hrow] at hcommand hc
    have hreplay : Abstract.replay c call =
        if row.requestHash ≠ call.command.hash then .error (.domain .idempotencyConflict)
        else (orJson (decodeResponse codec call.operation.kind row.response)).map some := by
      rw [Abstract.replay, hc]
      rfl
    rw [Abstract.attempt, unlessReplayed, hcommand, hreplay]
    change Agree _ ((if row.requestHash ≠ call.command.hash then _ else _) >>= _) _
    split
    · exact .domain _
    · cases decodeResponse codec call.operation.kind row.response with
      | none => exact .other rfl rfl
      | some response => exact .ok (.answered response)

/-! ## Checks -/

theorem bump_toString {n : Int} (h0 : 0 < n) (h1 : n ≤ Decimal.i64Max) :
    bump (toString n) = if n + 1 ≤ Decimal.i64Max then .ok (toString (n + 1)) else .error failure := by
  rw [bump, revision_toString h0 h1]
  rfl

theorem bump_agree {n : Int} (h0 : 0 < n) (h1 : n ≤ Decimal.i64Max) :
    Agree (fun s _ => s = toString (n + 1) ∧ n + 1 ≤ Decimal.i64Max) (bump (toString n))
      (Abstract.requireRoom n) := by
  rw [bump_toString h0 h1, Abstract.requireRoom]
  split
  · next hroom => exact .ok ⟨rfl, hroom⟩
  · exact .other rfl rfl

theorem requireFlag_agree {flag : Abstract.Flag} (h0 : 0 < flag.revision)
    (h1 : flag.revision ≤ Decimal.i64Max) (expected : Int) :
    Agree (fun _ _ => True) (requireFlag flag.record expected)
      (Abstract.requireRevision flag expected) := by
  rw [requireFlag, Abstract.requireRevision,
    show flag.record.revision = toString flag.revision from rfl, revision_toString h0 h1]
  change Agree _ (if flag.archived = true then _ else if flag.revision ≠ expected then _ else _) _
  split
  · exact .domain _
  · split
    · exact .domain _
    · exact .ok trivial

/-- A row the snapshot has or misses exactly as the store does. -/
theorem okOr_map_agree {α β : Type} (failure : DomainFailure) (f : α → β) (o : Option α) :
    Agree (fun b a => b = f a ∧ o = some a) (okOr failure (o.map f)) (okOr failure o) := by
  cases o with
  | none => exact .domain failure
  | some a => exact .ok ⟨rfl, rfl⟩

theorem next_agree {org flagKey environmentKey : String}
    {entry : Option (String × RulesetDefinition)} (hs : Sound rt c)
    (hrel : Option.Rel (fun entry (ruleset : Abstract.Ruleset codec) =>
        entry.1 = toString ruleset.revision ∧
          codec.decodeDefinition ruleset.definition = some entry.2)
      entry (c.latest org flagKey environmentKey)) :
    Agree (fun s _ => s = toString (c.published org flagKey environmentKey + 1) ∧
        c.published org flagKey environmentKey + 1 ≤ Decimal.i64Max)
      (nextRevision entry) (Abstract.requireRoom (c.published org flagKey environmentKey)) := by
  unfold Abstract.Store.published
  cases hlatest : c.latest org flagKey environmentKey with
  | none =>
    rw [hlatest] at hrel
    cases hrel
    exact .ok ⟨rfl, show (0 : Int) + 1 ≤ Decimal.i64Max by decide⟩
  | some ruleset =>
    rw [hlatest] at hrel
    have hrange := hs.latest_range hlatest
    cases hrel with
    | @some entry _ hentry =>
      change Agree _ (bump entry.1) _
      rw [hentry.1]
      exact bump_agree hrange.1 hrange.2

/-! ## Operations -/

section Operations

variable {command : Command} {org flagKey environmentKey name : String}
  {description : Option String} {expected : Int}

theorem createFlag_agree {valueType : String} (hr : Represents t c)
    (hread : Reads t c (command.rowKey "create_flag") org [flagKey] "" snap) :
    Agree (Plans t c ⟨command, .createFlag org flagKey name description valueType⟩)
      (createFlag rt δ snap command org flagKey name description valueType)
      (Abstract.attempt rt (stamp rt δ t) c
        ⟨command, .createFlag org flagKey name description valueType⟩) := by
  refine unlessReplayed_agree hr hread.command fun hnew => ?_
  rw [hread.flags flagKey List.mem_cons_self]
  simp only [Abstract.perform, Abstract.createFlag]
  cases hflag : c.flag org flagKey with
  | some flag => exact .domain .alreadyExists
  | none =>
    rw [hread.epoch]
    refine commit_agree hr.guard hread.epoch hnew
      { t with
        flags := FlagRow.of
          (Abstract.newFlag (stamp rt δ t) org flagKey name description valueType) :: t.flags }
      (by simp) (fun row _ _ => ?_) rfl (hr.addFlag rfl)
    rw [runStatements, flagWrite, if_pos rfl, exec_insertFlag]
    · rfl
    · change t.flag org flagKey = none
      rw [hr.flag, hflag]
      rfl
    · -- Every row number given out is below the epoch.
      intro other hother
      change other ∈ t.flags at hother
      rw [hr.flags] at hother
      obtain ⟨flag, hflag, rfl⟩ := List.mem_map.mp hother
      exact ((hr.rowSeqs flag hflag).2).ne

theorem updateFlag_agree (hr : Represents t c) (hs : Sound rt c)
    (hread : Reads t c (command.rowKey "update_flag") org [flagKey] "" snap) :
    Agree (Plans t c ⟨command, .updateFlag org flagKey expected name description⟩)
      (updateFlag rt δ snap command flagKey expected name description)
      (Abstract.attempt rt (stamp rt δ t) c
        ⟨command, .updateFlag org flagKey expected name description⟩) := by
  refine unlessReplayed_agree hr hread.command fun hnew => ?_
  rw [hread.flags flagKey List.mem_cons_self]
  simp only [Abstract.perform, Abstract.updateFlag, bind_assoc]
  refine (okOr_map_agree _ _ _).bind ?_
  rintro _ flag ⟨rfl, hflag⟩
  have hrange := hs.flagRange flag (Table.mem_of_lookup hflag)
  refine (requireFlag_agree hrange.1 hrange.2 expected).bind fun _ _ _ => ?_
  refine (bump_agree hrange.1 hrange.2).bind ?_
  rintro _ _ ⟨rfl, -⟩
  let flag' := flag.update (stamp rt δ t) name description
  exact commit_agree hr.guard hread.epoch hnew
    (t.setFlag flag'.organizationId flag'.flagKey flag'.record) (by simp) (fun row _ _ => rfl) rfl
    (hr.putFlag hs flag' hflag rfl rfl).bumpEpoch

theorem archiveFlag_agree (hr : Represents t c) (hs : Sound rt c)
    (hread : Reads t c (command.rowKey "archive_flag") org [flagKey] "" snap) :
    Agree (Plans t c ⟨command, .archiveFlag org flagKey expected⟩)
      (archiveFlag rt δ snap command flagKey expected)
      (Abstract.attempt rt (stamp rt δ t) c ⟨command, .archiveFlag org flagKey expected⟩) := by
  refine unlessReplayed_agree hr hread.command fun hnew => ?_
  rw [hread.flags flagKey List.mem_cons_self]
  simp only [Abstract.perform, Abstract.archiveFlag, bind_assoc]
  refine (okOr_map_agree _ _ _).bind ?_
  rintro _ flag ⟨rfl, hflag⟩
  have hrange := hs.flagRange flag (Table.mem_of_lookup hflag)
  refine (requireFlag_agree hrange.1 hrange.2 expected).bind fun _ _ _ => ?_
  refine (bump_agree hrange.1 hrange.2).bind ?_
  rintro _ _ ⟨rfl, -⟩
  let flag' := flag.archive (stamp rt δ t)
  exact commit_agree hr.guard hread.epoch hnew
    (t.setFlag flag'.organizationId flag'.flagKey flag'.record) (by simp) (fun row _ _ => rfl) rfl
    (hr.putFlag hs flag' hflag rfl rfl).bumpEpoch

theorem putEnvironment_agree {expected : Option Int} (hr : Represents t c) (hs : Sound rt c)
    (hread : Reads t c (command.rowKey "put_environment") org [] environmentKey snap) :
    Agree (Plans t c ⟨command, .putEnvironment org environmentKey name expected⟩)
      (putEnvironment rt δ snap command org environmentKey name expected)
      (Abstract.attempt rt (stamp rt δ t) c
        ⟨command, .putEnvironment org environmentKey name expected⟩) := by
  refine unlessReplayed_agree hr hread.command fun hnew => ?_
  rw [hread.environment]
  simp only [Abstract.perform, Abstract.putEnvironment]
  cases henv : c.environment org environmentKey with
  | none =>
    cases expected with
    | none =>
      let environment := Abstract.newEnvironment (stamp rt δ t) org environmentKey name
      refine commit_agree hr.guard hread.epoch hnew
        { t with environments := EnvironmentRow.of environment :: t.environments } (by simp)
        (fun row _ _ => ?_) rfl (hr.addEnvironment environment).bumpEpoch
      have hnone : t.environment org environmentKey = none := by
        rw [hr.environment, henv]
        rfl
      exact congrArg (Option.bind · _) (if_neg (by
        change ¬(t.environment org environmentKey).isSome = true
        rw [hnone]
        exact Bool.false_ne_true))
    | some expected => exact .domain .notFound
  | some environment =>
    cases expected with
    | none => exact .domain .alreadyExists
    | some expected =>
      have hrange := hs.environmentRange environment (Table.mem_of_lookup henv)
      simp only [Option.map_some,
        show environment.record.revision = toString environment.revision from rfl,
        revision_toString hrange.1 hrange.2]
      change Agree _ (if environment.revision ≠ expected then _ else _) _
      split
      · exact .domain .revisionConflict
      · simp only [bind_assoc]
        refine (bump_agree hrange.1 hrange.2).bind ?_
        rintro _ _ ⟨rfl, -⟩
        let environment' := environment.rename (stamp rt δ t) name
        refine commit_agree hr.guard hread.epoch hnew
          (t.setEnvironment (EnvironmentRow.of environment')) (by simp) (fun row _ _ => ?_) rfl
          (hr.putEnvironment environment').bumpEpoch
        have hsome : (t.environment environment.organizationId
            environment.environmentKey).isSome = true := by
          rw [hr.environment, Abstract.environment_organizationId henv,
            Abstract.environment_environmentKey henv, henv]
          rfl
        exact congrArg (Option.bind · _) (if_pos hsome)

/-- The tables with the next revisions of the flag and the environment, before the ruleset. -/
def bumped (t : Tables codec) (σ : Abstract.Stamp) (flag : Abstract.Flag)
    (environment : Abstract.Environment) : Tables codec :=
  (t.setFlag flag.organizationId flag.flagKey (flag.bump σ).record).setEnvironment
    (EnvironmentRow.of (environment.bump σ))

theorem bumped_represents {σ : Abstract.Stamp} {flag : Abstract.Flag}
    {environment : Abstract.Environment} (hr : Represents t c) (hs : Sound rt c)
    (hflag : c.flag org flagKey = some flag) :
    Represents (bumped t σ flag environment)
      ((c.putFlag (flag.bump σ)).putEnvironment (environment.bump σ)) :=
  (hr.putFlag hs (flag.bump σ) hflag rfl rfl).putEnvironment (environment.bump σ)

/-- The writes of a publication, inside its commit batch. -/
theorem publish_writes {flag : Abstract.Flag} {environment : Abstract.Environment}
    (σ : Abstract.Stamp) (document : codec.Definition) (publication : PublishRecord)
    (hr : Represents t c) (hs : Sound rt c) (hflag : c.flag org flagKey = some flag)
    (henv : c.environment org environmentKey = some environment)
    (hroom : c.published org flagKey environmentKey + 1 ≤ Decimal.i64Max) (guard : List Int)
    (commands : List (CommandRow codec)) :
    runStatements { t with guard := guard, commands := commands }
        [flagWrite (flag.bump σ).record false, environmentWrite (environment.bump σ).record,
          .insertRuleset org flagKey environmentKey
            (toString (c.published org flagKey environmentKey + 1)) document publication] =
      some { bumped t σ flag environment with
        guard := guard
        commands := commands
        rulesets := ⟨org, flagKey, environmentKey, c.published org flagKey environmentKey + 1,
          document, publication⟩ :: t.rulesets } := by
  have hr' : Represents (bumped t σ flag environment) _ := bumped_represents hr hs hflag
  -- The three statements in turn: the flag is set, the environment is there to be replaced.
  have hsome : (t.environment environment.organizationId environment.environmentKey).isSome =
      true := by
    rw [hr.environment, Abstract.environment_organizationId henv,
      Abstract.environment_environmentKey henv, henv]
    rfl
  have hupsert : Statement.exec
      { t.setFlag flag.organizationId flag.flagKey (flag.bump σ).record with
        guard := guard, commands := commands }
      (.upsertEnvironment (EnvironmentRow.of (environment.bump σ))) =
      some { bumped t σ flag environment with guard := guard, commands := commands } :=
    if_pos hsome
  have hinsert : Statement.exec
      { bumped t σ flag environment with guard := guard, commands := commands }
      (.insertRuleset org flagKey environmentKey
        (toString (c.published org flagKey environmentKey + 1)) document publication) =
      some { bumped t σ flag environment with
        guard := guard
        commands := commands
        rulesets := ⟨org, flagKey, environmentKey, c.published org flagKey environmentKey + 1,
          document, publication⟩ :: t.rulesets } := by
    refine exec_insertRuleset ?_ hroom ?_ ?_ ?_
    · rw [Abstract.published_eq_length hs.numbered]
      omega
    · -- The newest revision bounds the others.
      intro row hrow
      have hmem : row.ruleset ∈ c.rulesetsOf org flagKey environmentKey := by
        rw [hr.rulesetsOf]
        exact List.mem_map_of_mem hrow
      exact (Int.lt_add_one_of_le (hs.numbered.revision_le hmem).2).ne
    · change ((bumped t σ flag environment).flag org flagKey).isSome = true
      rw [hr'.flag]
      change (((c.putFlag (flag.bump σ)).flag org flagKey).map FlagRow.of).isSome = true
      rw [Abstract.flag_putFlag hflag (show (flag.bump σ).key = flag.key from rfl)]
      rfl
    · change ((bumped t σ flag environment).environment org environmentKey).isSome = true
      rw [hr'.environment]
      change (((c.putEnvironment (environment.bump σ)).environment org environmentKey).map
        EnvironmentRow.of).isSome = true
      rw [Abstract.environment_putEnvironment henv
        (show (environment.bump σ).key = environment.key from rfl)]
      rfl
  rw [runStatements]
  change (runStatements { t.setFlag flag.organizationId flag.flagKey (flag.bump σ).record with
    guard := guard, commands := commands } _) = _
  rw [runStatements, environmentWrite]
  change (Statement.exec _ (.upsertEnvironment (EnvironmentRow.of (environment.bump σ)))).bind _ = _
  rw [hupsert, Option.bind_some, runStatements, hinsert]
  rfl

theorem publishRuleset_agree {expectedFlag expectedEnvironment : Int}
    {definition : RulesetDefinition} (hr : Represents t c) (hs : Sound rt c)
    (hread : Reads t c (command.rowKey "publish_ruleset") org [flagKey] environmentKey snap) :
    Agree
      (Plans t c ⟨command,
        .publishRuleset org flagKey environmentKey expectedFlag expectedEnvironment definition⟩)
      (publishRuleset rt δ snap command org flagKey environmentKey expectedFlag expectedEnvironment
        definition)
      (Abstract.attempt rt (stamp rt δ t) c ⟨command,
        .publishRuleset org flagKey environmentKey expectedFlag expectedEnvironment definition⟩) := by
  refine unlessReplayed_agree hr hread.command fun hnew => ?_
  rw [hread.flags flagKey List.mem_cons_self, hread.environment]
  simp only [Abstract.perform, Abstract.publishRuleset, bind_assoc]
  -- The checks stand in the order of the plan: the flag, its revision, the ruleset, the environment.
  refine (okOr_map_agree _ _ _).bind ?_
  rintro _ flag ⟨rfl, hflag⟩
  have hrange := hs.flagRange flag (Table.mem_of_lookup hflag)
  refine (requireFlag_agree hrange.1 hrange.2 expectedFlag).bind fun _ _ _ => ?_
  refine (Agree.refl (validateRuleset rt flag.valueType definition)).bind fun _ _ _ => ?_
  refine (okOr_map_agree _ _ _).bind ?_
  rintro _ environment ⟨rfl, henv⟩
  have henvRange := hs.environmentRange environment (Table.mem_of_lookup henv)
  rw [show environment.record.revision = toString environment.revision from rfl,
    revision_toString henvRange.1 henvRange.2]
  change Agree _ (if environment.revision ≠ expectedEnvironment then _ else _) _
  split
  · exact .domain .revisionConflict
  · simp only [bind_assoc]
    refine (bump_agree hrange.1 hrange.2).bind ?_
    rintro _ _ ⟨rfl, -⟩
    refine (bump_agree henvRange.1 henvRange.2).bind ?_
    rintro _ _ ⟨rfl, -⟩
    refine (next_agree hs (hread.rulesets flagKey List.mem_cons_self)).bind ?_
    rintro _ _ ⟨rfl, hroom⟩
    refine (Agree.refl (orJson (codec.encodeDefinition definition))).bind ?_
    rintro document _ rfl
    let ruleset : RulesetRow codec :=
      ⟨org, flagKey, environmentKey, c.published org flagKey environmentKey + 1, document,
        { organizationId := org
          flagKey := flagKey
          environmentKey := environmentKey
          rulesetRevision := toString (c.published org flagKey environmentKey + 1)
          flagRevision := toString (flag.revision + 1)
          environmentRevision := toString (environment.revision + 1)
          publishedBy := command.actor
          publishedAt := now rt (δ 0) }⟩
    exact commit_agree hr.guard hread.epoch hnew
      { bumped t (stamp rt δ t) flag environment with rulesets := ruleset :: t.rulesets } (by simp)
      (fun row _ _ => publish_writes (stamp rt δ t) document ruleset.publication hr hs hflag henv
        hroom [1] (row :: t.commands)) rfl
      ((bumped_represents hr hs hflag).addRuleset ruleset).bumpEpoch

end Operations

/-! ## Evaluations -/

section Evaluations

variable {command : Command} {key : CommandKey} {operation org environmentKey targetingKey : String}
  {attributes : List (String × Json)} {contextHash : String} {flagKeys : List String}

theorem evaluationAt_agree (hread : Reads t c key org flagKeys environmentKey snap) {i : ℕ}
    {flagKey : String} (hmem : flagKey ∈ flagKeys) :
    Agree (fun result result' => result = (result'.1, ReceiptFields.of result'.2))
      (evaluationAt rt snap command operation org environmentKey targetingKey attributes contextHash
        (δ i) i flagKey)
      (Abstract.evaluateOne rt (stamp rt δ t) c command operation
        ⟨org, environmentKey, targetingKey, attributes, contextHash⟩ i flagKey) := by
  rw [evaluationAt, hread.flags flagKey hmem, hread.environment]
  simp only [Abstract.evaluateOne, Abstract.choose, bind_assoc]
  refine (okOr_map_agree _ _ _).bind ?_
  rintro _ flag ⟨rfl, -⟩
  change Agree _ (if flag.archived = true then _ else _) _
  split
  · exact .domain .archived
  · simp only [bind_assoc]
    refine (okOr_map_agree _ _ _).bind fun _ _ _ => ?_
    refine (Agree.okOr _ (hread.rulesets flagKey hmem)).bind ?_
    rintro ⟨rev, definition⟩ ruleset ⟨rfl, hdecode⟩
    simp only [hdecode]
    refine (Agree.refl (validateRuleset rt flag.valueType definition)).bind fun _ _ _ => ?_
    refine (Agree.refl (chooseVariant rt org environmentKey flagKey targetingKey attributes
      definition)).bind ?_
    rintro ⟨variant, reason⟩ _ rfl
    exact .ok rfl

theorem evaluationsFrom_agree (hread : Reads t c key org flagKeys environmentKey snap) {n : ℕ}
    {keys : List String} (hsub : ∀ flagKey ∈ keys, flagKey ∈ flagKeys) :
    Agree (fun results results' =>
        results = results'.map fun result => (result.1, ReceiptFields.of result.2))
      (evaluationsFrom rt δ snap command operation org environmentKey targetingKey attributes
        contextHash n keys)
      (Abstract.evaluateFrom rt (stamp rt δ t) c command operation
        ⟨org, environmentKey, targetingKey, attributes, contextHash⟩ n keys) := by
  induction keys generalizing n with
  | nil => exact .ok rfl
  | cons flagKey keys ih =>
    refine (evaluationAt_agree hread (hsub flagKey List.mem_cons_self)).bind ?_
    rintro _ first rfl
    refine (ih fun flagKey hmem => hsub flagKey (List.mem_cons_of_mem _ hmem)).bind ?_
    rintro _ rest rfl
    exact .ok rfl

theorem evaluationsFrom_single {flagKey : String}
    (hread : Reads t c key org [flagKey] environmentKey snap) :
    Agree (fun results result => results = [(result.1, ReceiptFields.of result.2)])
      (evaluationsFrom rt δ snap command operation org environmentKey targetingKey attributes
        contextHash 0 [flagKey])
      (Abstract.evaluateOne rt (stamp rt δ t) c command operation
        ⟨org, environmentKey, targetingKey, attributes, contextHash⟩ 0 flagKey) := by
  rw [evaluationsFrom, ← bind_pure (Abstract.evaluateOne ..)]
  refine (evaluationAt_agree hread List.mem_cons_self).bind ?_
  rintro _ result rfl
  exact .ok rfl

/-- The new receipts are numbered by their position. -/
theorem receipts_numbered {σ : Abstract.Stamp} {subject : Abstract.Subject} {n : Int}
    {results : List (EvaluationRecord × Abstract.Receipt)} {receipts : List Abstract.Receipt}
    (hσ : ∀ i, (σ.evaluation i).rowSeq = n + 1 + i)
    (hresults : List.Forall₂ (Abstract.Evaluated rt σ c command operation subject)
      (flagKeys.zipIdx 0) results)
    (hreceipts : results.map (·.2) = receipts) (i : ℕ) (hi : i < receipts.length) :
    receipts[i].rowSeq = n + 1 + i := by
  subst hreceipts
  have hi' : i < results.length := by simpa using hi
  have hi₀ : i < (flagKeys.zipIdx 0).length := by rw [hresults.length_eq]; exact hi'
  obtain ⟨variant, reason, revision, -, heq⟩ := (hresults.get hi₀ hi').choice
  rw [List.get_eq_getElem] at heq
  rw [List.getElem_map, heq, ← hσ i]
  simp [Abstract.evaluation]

/-- The writes of an evaluation, inside its commit batch: no id and no identifier is taken, since
the store after the call is sound. -/
theorem evaluation_writes (hr : Represents t c) {σ : Abstract.Stamp} {subject : Abstract.Subject}
    {results : List (EvaluationRecord × Abstract.Receipt)}
    (hσ : ∀ i, (σ.evaluation i).rowSeq = t.receiptSeq + 1 + i)
    (hresults : List.Forall₂ (Abstract.Evaluated rt σ c command operation subject)
      (flagKeys.zipIdx 0) results)
    (hids : (((results.map (·.2)).reverse ++ c.receipts).map Abstract.Receipt.receiptId).Nodup)
    (hkeys : (((results.map (·.2)).reverse ++ c.receipts).map
      Abstract.Receipt.evaluationKey).Nodup)
    (guard : List Int) (commands : List (CommandRow codec)) :
    runStatements { t with guard := guard, commands := commands }
        [.insertReceipts subject.organizationId command.caller command.actor operation
          ((results.map (·.2)).map ReceiptFields.of)] =
      some { t with
        guard := guard
        commands := commands
        receipts := ((results.map (·.2)).reverse ++ c.receipts).map ReceiptRow.of
        receiptSeq := t.receiptSeq + (results.map (·.2)).length } := by
  have howner : ∀ receipt ∈ results.map (·.2), receipt.organizationId = subject.organizationId ∧
      receipt.caller = command.caller ∧ receipt.actor = command.actor ∧
      receipt.operation = operation := by
    intro receipt hreceipt
    obtain ⟨result, hresult, rfl⟩ := List.mem_map.mp hreceipt
    obtain ⟨at_, -, heval⟩ := Table.exists_of_mem_right hresults hresult
    obtain ⟨variant, reason, revision, -, rfl⟩ := heval.choice
    exact ⟨rfl, rfl, rfl, rfl⟩
  have hinsert := insertReceiptRows_eq (t := { t with guard := guard, commands := commands })
    hr.receipts howner (receipts_numbered hσ hresults rfl) hids hkeys
  rw [runStatements]
  change (insertReceiptRows _ _ _ _ _ _).bind _ = _
  rw [hinsert]
  rfl

/-- The commit batch of an evaluation. -/
theorem evaluations_commit (answer : Response) (hr : Represents t c) (hs : Sound rt c)
    (hσ : (stamp rt δ t).Fresh c) (hepoch : snap.epoch = t.epoch)
    (hnew : t.command call.commandKey = none) {subject : Abstract.Subject}
    {results : List (EvaluationRecord × Abstract.Receipt)}
    (hop : Abstract.evaluates call.operation = some (subject, flagKeys))
    (hresults : Abstract.evaluateFrom rt (stamp rt δ t) c call.command call.operation.name subject 0
      flagKeys = .ok results)
    (hkind : answer.kind = call.operation.kind) (hrecords : answer.records = results.map (·.1)) :
    Agree (Plans t c call)
      (commit snap call.command call.operation.name
        [.insertReceipts subject.organizationId call.command.caller call.command.actor
          call.operation.name ((results.map (·.2)).map ReceiptFields.of)] answer)
      (Abstract.record (c.addReceipts (results.map (·.2))) call answer >>= fun c' =>
        .ok (.fresh answer, c')) := by
  have hforall := Abstract.evaluateFrom_eq_ok.mp hresults
  have hc : c.command call.commandKey = none := by rw [hr.command, hnew]; rfl
  refine commit_agree hr.guard hepoch hnew
    { t with
      receipts := ((results.map (·.2)).reverse ++ c.receipts).map ReceiptRow.of
      receiptSeq := t.receiptSeq + (results.map (·.2)).length }
    (by simp) (fun row _ hstored => ?_) rfl
    (hr.addReceipts (receipts_numbered (fun _ => rfl) hforall rfl)).bumpEpoch
  have hs' := hs.effect hσ hc (.evaluated hop hresults hkind hrecords) hstored
  exact evaluation_writes hr (fun _ => rfl) hforall hs'.receiptIds hs'.evaluationKeys [1]
    (row :: t.commands)

theorem evaluate_agree {flagKey : String} (hr : Represents t c) (hs : Sound rt c)
    (hσ : (stamp rt δ t).Fresh c)
    (hread : Reads t c (command.rowKey "evaluate") org [flagKey] environmentKey snap) :
    Agree
      (Plans t c ⟨command,
        .evaluate org environmentKey flagKey targetingKey attributes contextHash⟩)
      (evaluations rt δ snap command "evaluate" org environmentKey [flagKey] targetingKey attributes
        contextHash)
      (Abstract.attempt rt (stamp rt δ t) c ⟨command,
        .evaluate org environmentKey flagKey targetingKey attributes contextHash⟩) := by
  rw [evaluations, if_pos rfl]
  refine unlessReplayed_agree hr hread.command fun hnew => ?_
  simp only [Abstract.perform, Abstract.evaluate, bind_assoc]
  refine (evaluationsFrom_single hread).values.bind ?_
  rintro _ result ⟨rfl, -, hresult⟩
  exact evaluations_commit (.evaluation result.1) hr hs hσ hread.epoch hnew rfl
    (Abstract.evaluateFrom_eq_ok.mpr (.cons hresult .nil)) rfl rfl

theorem evaluateBatch_agree (hr : Represents t c) (hs : Sound rt c)
    (hσ : (stamp rt δ t).Fresh c)
    (hread : Reads t c (command.rowKey "evaluate_batch") org flagKeys environmentKey snap) :
    Agree
      (Plans t c ⟨command,
        .evaluateBatch org environmentKey flagKeys targetingKey attributes contextHash⟩)
      (evaluations rt δ snap command "evaluate_batch" org environmentKey flagKeys targetingKey
        attributes contextHash)
      (Abstract.attempt rt (stamp rt δ t) c ⟨command,
        .evaluateBatch org environmentKey flagKeys targetingKey attributes contextHash⟩) := by
  rw [evaluations, if_neg (by decide)]
  refine unlessReplayed_agree hr hread.command fun hnew => ?_
  simp only [Abstract.perform, Abstract.evaluateBatch, bind_assoc]
  refine (evaluationsFrom_agree hread fun _ h => h).values.bind ?_
  rintro _ results ⟨rfl, -, hresults⟩
  rw [if_neg (by decide), List.map_map, List.map_map]
  have hcommit := evaluations_commit (.evaluations (results.map (·.1))) hr hs hσ hread.epoch hnew
    rfl hresults rfl rfl
  rw [List.map_map] at hcommit
  exact hcommit

end Evaluations

/-! ## Calls -/

/-- A plan on a snapshot agrees with the abstract operation. -/
theorem plan_agree (hr : Represents t c) (hs : Sound rt c) (hσ : (stamp rt δ t).Fresh c)
    (hread : Reads t c call.commandKey call.operation.organizationId (scope call.operation).1
      (scope call.operation).2 snap) :
    Agree (Plans t c call) (plan rt δ snap call) (Abstract.attempt rt (stamp rt δ t) c call) := by
  obtain ⟨command, operation⟩ := call
  cases operation with
  | createFlag => exact createFlag_agree hr hread
  | updateFlag => exact updateFlag_agree hr hs hread
  | archiveFlag => exact archiveFlag_agree hr hs hread
  | putEnvironment => exact putEnvironment_agree hr hs hread
  | publishRuleset => exact publishRuleset_agree hr hs hread
  | evaluate => exact evaluate_agree hr hs hσ hread
  | evaluateBatch => exact evaluateBatch_agree hr hs hσ hread

/-- A call agrees with the abstract operation, unless its snapshot meets a document that does not
decode. -/
theorem prepare_cases (hr : Represents t c) (hs : Sound rt c) (hσ : (stamp rt δ t).Fresh c)
    (hepoch : t.epoch ≤ Decimal.i64Max) (call : Call) :
    Agree (Plans t c call) (prepare rt δ t call) (Abstract.attempt rt (stamp rt δ t) c call) ∨
      prepare rt δ t call = .error .json ∧
        ∃ ruleset ∈ c.rulesets, codec.decodeDefinition ruleset.definition = none := by
  rw [show prepare rt δ t call = snapshot t call.command call.operation.name
    call.operation.organizationId (scope call.operation).1 (scope call.operation).2 >>= fun snap =>
      plan rt δ snap call from rfl]
  cases hsnap : snapshot t call.command call.operation.name call.operation.organizationId
      (scope call.operation).1 (scope call.operation).2 with
  | error e =>
    obtain ⟨rfl, hnone⟩ := snapshot_eq_error hr hepoch hsnap
    exact .inr ⟨rfl, hnone⟩
  | ok snap => exact .inl (plan_agree hr hs hσ (snapshot_reads hr hs hepoch hsnap))

/-- A call run alone refines the abstract operation. -/
theorem call_cases (hr : Represents t c) (hs : Sound rt c) (hσ : (stamp rt δ t).Fresh c)
    (hepoch : t.epoch ≤ Decimal.i64Max) (call : Call) :
    (Agree (· = ·) (D1.call rt δ t call).1 (Abstract.exec rt (stamp rt δ t) c call).1 ∧
        Represents (D1.call rt δ t call).2 (Abstract.exec rt (stamp rt δ t) c call).2) ∨
      D1.call rt δ t call = (.error .json, t) ∧
        ∃ ruleset ∈ c.rulesets, codec.decodeDefinition ruleset.definition = none := by
  rcases prepare_cases hr hs hσ hepoch call with hagree | ⟨herror, hnone⟩
  · refine .inl ?_
    unfold D1.call Abstract.exec
    generalize prepare rt δ t call = planned at hagree
    generalize Abstract.attempt rt (stamp rt δ t) c call = outcome at hagree
    cases hagree with
    | domain failure => exact ⟨.domain failure, hr⟩
    | other he he' => exact ⟨.other he he', hr⟩
    | ok hplans =>
      cases hplans with
      | answered response => exact ⟨.ok rfl, hr⟩
      | commit _ _ _ hbatch _ hr' =>
        simp only [hbatch]
        exact ⟨.ok rfl, hr'⟩
  · refine .inr ⟨?_, hnone⟩
    rw [D1.call, herror]

end LensoFlags.D1
