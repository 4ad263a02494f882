import LensoFlags.Postgres.Represents

/-!
# The PostgreSQL store refines the abstract store

A transaction run alone does what the abstract store does with the call (`alone_cases`). The proofs
follow the statements; `Ends` compares what is left of the transaction with what is left of the
abstract operation.
-/

namespace LensoFlags.Postgres

open Abstract (Sound)

variable {codec : Codec} {describe : DbError → String} {rt : Runtime} {δ : Draws} {n : ℕ}
  {call : Call} {t : Tables codec} {c : Abstract.Store codec}

/-! ## Stamps -/

/-- The statement that writes the flag or the environment of an operation. -/
def writtenAt : Operation → ℕ
  | .createFlag .. => 2
  | .publishRuleset .. => 6
  | _ => 3

/-- What a transaction adds to its rows: clock readings of the server, rounded, and of the client
in evaluations, and numbers of the sequences. -/
def stamp (rt : Runtime) (δ : Draws) (operation : Operation) : Abstract.Stamp :=
  { createdAt := rt.formatTimestamp (micros (δ (writtenAt operation)).now)
    updatedAt := rt.formatTimestamp (micros (δ (writtenAt operation)).later)
    archivedAt := rt.formatTimestamp (micros (δ (writtenAt operation)).now)
    publishedAt := rt.formatTimestamp (micros (δ 5).now)
    environmentUpdatedAt := rt.formatTimestamp (micros (δ 7).later)
    rowSeq := (δ (writtenAt operation)).flagSeq
    evaluation := fun i =>
      { receiptId := (δ (5 * i + 5)).uuid
        answeredAt := rt.formatTimestamp (δ (5 * i + 5)).now
        recordedAt := rt.formatTimestamp (micros (δ (5 * i + 5)).now)
        rowSeq := (δ (5 * i + 6)).receiptSeq } }

theorem stamp_drawnFrom (rt : Runtime) (δ : Draws) (operation : Operation) :
    (stamp rt δ operation).DrawnFrom δ :=
  ⟨fun i => 5 * i + 5, fun i j h => by simp only at h; omega, fun _ => rfl⟩

/-! ## Runs -/

variable (describe rt) in
/-- What is left of a transaction, run alone from its statement `n` on. -/
abbrev run {α : Type} (δ : Draws) (n : ℕ) (p : Transaction codec α) (t : Tables codec) :
    Except StorageError α × Tables codec :=
  (store codec describe rt).runOn δ n p t

variable (rt) in
/-- The transaction ends as the abstract operation does. -/
def Ends (x : Except StorageError Answer × Tables codec)
    (y : Except StorageError (Answer × Abstract.Store codec)) : Prop :=
  Agree (fun answer outcome => answer = outcome.1 ∧ Represents rt x.2 outcome.2) x.1 y

theorem run_query {α : Type} (s : Statement codec) (k : s.Reply → Transaction codec α) :
    run describe rt δ n (query s >>= k) t =
      run describe rt δ (n + 1) (k (s.execute (δ n) t).1)
        ((s.execute (δ n) t).2.foldl (fun t w => w.apply t) t) := rfl

/-- A failure of the backend on both sides. -/
theorem ends_other {e e' : StorageError} (he : e.isDomain = false) (he' : e'.isDomain = false) :
    Ends rt (.error e, t) (.error e') :=
  .other he he'

/-- A pure step on both sides. -/
theorem ends_lift {α β : Type} {R : α → β → Prop} {x : Except StorageError α}
    {y : Except StorageError β} {f : α → Transaction codec Answer}
    {g : β → Except StorageError (Answer × Abstract.Store codec)} (h : Agree R x y)
    (hfg : ∀ a b, R a b → Ends rt (run describe rt δ n (f a) t) (g b)) :
    Ends rt (run describe rt δ n (lift x >>= f) t) (y >>= g) := by
  cases h with
  | ok hab => exact hfg _ _ hab
  | domain failure => exact .domain failure
  | other he he' => exact .other he he'

/-! ## Writes on both sides -/

section Writes

variable (h : Working rt call t c)

include h

theorem Working.addFlag (row : FlagRow) :
    Working rt call { t with flags := row :: t.flags } { c with flags := row.flag rt :: c.flags } :=
  { h with rows := { h.rows with flags := by rw [List.map_cons, h.rows.flags] } }

theorem Working.putFlag (row : FlagRow) :
    Working rt call { t with flags := Table.replace FlagRow.key row t.flags }
      (c.putFlag (row.flag rt)) :=
  { h with
    rows := { h.rows with
      flags := (Table.replace_map (FlagRow.flag rt) (fun _ => rfl) row t.flags).trans
        (congrArg (Table.replace Abstract.Flag.key (row.flag rt)) h.rows.flags) } }

theorem Working.addEnvironment (row : EnvironmentRow) :
    Working rt call { t with environments := row :: t.environments }
      { c with environments := row.environment rt :: c.environments } :=
  { h with rows := { h.rows with environments := by rw [List.map_cons, h.rows.environments] } }

theorem Working.putEnvironment (row : EnvironmentRow) :
    Working rt call { t with environments := Table.replace EnvironmentRow.key row t.environments }
      (c.putEnvironment (row.environment rt)) :=
  { h with
    rows := { h.rows with
      environments :=
        (Table.replace_map (EnvironmentRow.environment rt) (fun _ => rfl) row t.environments).trans
          (congrArg (Table.replace Abstract.Environment.key (row.environment rt))
            h.rows.environments) } }

theorem Working.addRuleset (row : RulesetRow codec) :
    Working rt call { t with rulesets := row :: t.rulesets }
      { c with rulesets := row.of :: c.rulesets } :=
  { h with rows := { h.rows with rulesets := by rw [List.map_cons, h.rows.rulesets] } }

theorem Working.addReceipt (row : ReceiptRow) :
    Working rt call { t with receipts := row :: t.receipts }
      (c.addReceipts [row.receipt rt]) :=
  { h with rows := h.rows.addReceipt row }

end Writes

/-! ## Commands -/

variable (describe) in
/-- The end of a transaction with its response. -/
def finish (call : Call) (response : Response) : Transaction codec Answer := do
  finishCommand describe call.command call.operation.name response
  return .fresh response

/-- The abstract operation's end with its response. -/
def settle (call : Call) (outcome : Response × Abstract.Store codec) :
    Except StorageError (Answer × Abstract.Store codec) := do
  let c' ← Abstract.record outcome.2 call outcome.1
  .ok (.fresh outcome.1, c')

theorem finish_ends (h : Working rt call t c) (response : Response) :
    Ends rt (run describe rt δ n (finish describe call response) t) (settle call (response, c)) := by
  have hrow : t.command call.commandKey = some ⟨call.commandKey, call.command.hash, none⟩ := by
    rw [Tables.command, h.commands]
    exact Table.lookup_cons_self ..
  change Ends rt (run describe rt δ (n + 1) (orDatabase describe "finish command receipt"
    (Statement.execute (δ n) (.updateCommand call.commandKey response) t).1 >>= fun _ =>
      pure (.fresh response))
    ((store codec describe rt).applyAll
      (Statement.execute (δ n) (.updateCommand call.commandKey response) t).2 t)) _
  simp only [Statement.execute, hrow]
  unfold settle Abstract.record
  cases encodeResponse codec response with
  | none => exact ends_other rfl rfl
  | some stored =>
    refine .ok ⟨rfl, ⟨h.rows.flags, h.rows.environments, h.rows.rulesets, h.rows.receipts⟩, ?_⟩
    -- The row admitted first is the one that is updated; no other row has its key.
    change Table.replace CommandRow.key ⟨call.commandKey, call.command.hash, some stored⟩
      t.commands = _
    have hnone : Table.lookup CommandRow.key call.commandKey
        (c.commands.map CommandRow.of) = none := by
      have hlookup := Table.lookup_map CommandRow.of
        (fun row : Abstract.CommandRow codec => (rfl : (CommandRow.of row).key = row.key))
        call.commandKey c.commands
      exact hlookup.trans (congrArg _ h.new)
    rw [h.commands, Table.replace_cons, if_pos rfl, Table.replace_eq_self hnone]
    rfl

/-! ## Flags -/

section Flags

variable {org flagKey : String} {row : FlagRow}

theorem updated_changeFlag {α : Type} (write : FlagRow → Write codec)
    (reply : Option FlagRow → Except DbError α) (change : FlagRow → Int → FlagRow)
    (hrow : t.flag org flagKey = some row) :
    updated write reply (changeFlag t org flagKey change) =
      if row.revision + 1 ≤ Decimal.i64Max then
        (reply (some (change row (row.revision + 1))), [write (change row (row.revision + 1))])
      else (.error .numericValueOutOfRange, []) := by
  by_cases hroom : row.revision + 1 ≤ Decimal.i64Max
  · simp only [changeFlag, hrow, nextBigint, if_pos hroom]
    rfl
  · simp only [changeFlag, hrow, nextBigint, if_neg hroom]
    rfl

/-- An `UPDATE` of a flag against the room for its next revision. -/
theorem ends_changeFlag {operation : String} {change : FlagRow → Int → FlagRow}
    {f : Unit → Transaction codec Answer}
    {g : Unit → Except StorageError (Answer × Abstract.Store codec)}
    (hrow : t.flag org flagKey = some row)
    (hfg : Ends rt (run describe rt δ n (f ())
      { t with flags := Table.replace FlagRow.key (change row (row.revision + 1)) t.flags }) (g ())) :
    Ends rt
      (run describe rt δ n
        (orDatabase describe operation
          (@updated codec Unit _ .updateFlag (fun _ => .ok ()) (changeFlag t org flagKey change)).1 >>=
            f)
        ((@updated codec Unit _ .updateFlag (fun _ => .ok ())
          (changeFlag t org flagKey change)).2.foldl (fun t w => w.apply t) t))
      (Abstract.requireRoom row.revision >>= g) := by
  rw [updated_changeFlag _ _ _ hrow, Abstract.requireRoom]
  split
  · exact hfg
  · exact ends_other rfl rfl

theorem run_readFlagTx {f : FlagRecord → Transaction codec Answer}
    (hrow : t.flag org flagKey = some row) :
    run describe rt δ n (readFlagTx rt org flagKey >>= f) t =
      run describe rt δ (n + 1) (f (flagFromRow rt row)) t := by
  rw [readFlagTx, bind_assoc, run_query]
  simp only [Statement.execute, hrow]
  rfl

theorem flag_replace {row' : FlagRow} (hrow : t.flag org flagKey = some row)
    (hkey : row'.key = row.key) :
    ({ t with flags := Table.replace FlagRow.key row' t.flags } : Tables codec).flag org flagKey =
      some row' := by
  have hk : row'.key = (org, flagKey) := hkey.trans (Table.key_of_lookup hrow)
  rw [Tables.flag, ← hk] at hrow ⊢
  exact Table.lookup_replace_self hrow

/-- The row of a locked flag on both sides. -/
theorem locked_agree (hr : Rows rt t c) (failure : DomainFailure) {α : Type} (f : FlagRow → α) :
    Agree (fun a (flag : Abstract.Flag) => ∃ row, t.flag org flagKey = some row ∧ a = f row ∧
        flag = row.flag rt)
      (okOr failure ((t.flag org flagKey).map f)) (okOr failure (c.flag org flagKey)) := by
  rw [hr.flag]
  cases t.flag org flagKey with
  | none => exact .domain failure
  | some row => exact .ok ⟨row, rfl, rfl, rfl⟩

theorem requireFlagRevision_agree (row : FlagRow) (expected : Int) :
    Agree (fun _ _ => True)
      (requireFlagRevision ⟨row.revision, row.archived, row.valueType⟩ expected)
      (Abstract.requireRevision (row.flag rt) expected) :=
  (Agree.refl _).mono fun _ _ _ => trivial

theorem createFlag_ends {name valueType : String} {description : Option String}
    (h : Working rt call t c) (htype : valueType ∈ valueTypes) :
    Ends rt
      (run describe rt δ 2
        (createFlag describe rt org flagKey name description valueType >>= finish describe call) t)
      (Abstract.createFlag (stamp rt δ (.createFlag org flagKey name description valueType)) c org
        flagKey name description valueType >>= settle call) := by
  simp only [createFlag, bind_assoc]
  rw [run_query, Statement.execute, if_neg (not_not.mpr htype), Abstract.createFlag, h.rows.flag,
    Option.isSome_map]
  split
  · exact .domain .alreadyExists
  · let row : FlagRow :=
      { organizationId := org
        flagKey := flagKey
        name := name
        description := description
        valueType := valueType
        archived := false
        revision := 1
        createdAt := micros (δ 2).now
        updatedAt := micros (δ 2).later
        archivedAt := none
        rowSeq := (δ 2).flagSeq }
    have hrow : ({ t with flags := row :: t.flags } : Tables codec).flag org flagKey = some row :=
      Table.lookup_cons_self row t.flags
    change Ends rt (run describe rt δ 3 (readFlagTx rt org flagKey >>= _)
      { t with flags := row :: t.flags }) _
    rw [run_readFlagTx hrow]
    exact finish_ends (h.addFlag row) _

theorem updateFlag_ends {name : String} {expected : Int} {description : Option String}
    (h : Working rt call t c) :
    Ends rt
      (run describe rt δ 2
        (updateFlag describe rt org flagKey expected name description >>= finish describe call) t)
      (Abstract.updateFlag (stamp rt δ (.updateFlag org flagKey expected name description)) c org
        flagKey expected name description >>= settle call) := by
  simp only [updateFlag, lockFlag, Abstract.updateFlag, bind_assoc]
  change Ends rt (run describe rt δ 3 (lift (okOr .notFound ((t.flag org flagKey).map _)) >>= _) t) _
  refine ends_lift (locked_agree h.rows .notFound _) ?_
  rintro _ _ ⟨row, hrow, rfl, rfl⟩
  refine ends_lift (requireFlagRevision_agree row expected) fun _ _ _ => ?_
  refine ends_changeFlag hrow ?_
  let row' : FlagRow :=
    { row with
      name := name, description := description, revision := row.revision + 1,
      updatedAt := micros (δ 3).later }
  have hrow' : _ = some row' := flag_replace hrow (show row'.key = row.key from rfl)
  rw [run_readFlagTx hrow']
  exact finish_ends (h.putFlag row') _

theorem archiveFlag_ends {expected : Int} (h : Working rt call t c) :
    Ends rt
      (run describe rt δ 2
        (archiveFlag describe rt org flagKey expected >>= finish describe call) t)
      (Abstract.archiveFlag (stamp rt δ (.archiveFlag org flagKey expected)) c org flagKey
        expected >>= settle call) := by
  simp only [archiveFlag, lockFlag, Abstract.archiveFlag, bind_assoc]
  change Ends rt (run describe rt δ 3 (lift (okOr .notFound ((t.flag org flagKey).map _)) >>= _) t) _
  refine ends_lift (locked_agree h.rows .notFound _) ?_
  rintro _ _ ⟨row, hrow, rfl, rfl⟩
  refine ends_lift (requireFlagRevision_agree row expected) fun _ _ _ => ?_
  refine ends_changeFlag hrow ?_
  let row' : FlagRow :=
    { row with
      archived := true, archivedAt := some (micros (δ 3).now), revision := row.revision + 1,
      updatedAt := micros (δ 3).later }
  have hrow' : _ = some row' := flag_replace hrow (show row'.key = row.key from rfl)
  rw [run_readFlagTx hrow']
  exact finish_ends (h.putFlag row') _

end Flags

/-! ## Environments -/

section Environments

variable {org environmentKey : String} {row : EnvironmentRow}

theorem updated_changeEnvironment {α : Type} (write : EnvironmentRow → Write codec)
    (reply : Option EnvironmentRow → Except DbError α)
    (change : EnvironmentRow → Int → EnvironmentRow)
    (hrow : t.environment org environmentKey = some row) :
    updated write reply (changeEnvironment t org environmentKey change) =
      if row.revision + 1 ≤ Decimal.i64Max then
        (reply (some (change row (row.revision + 1))), [write (change row (row.revision + 1))])
      else (.error .numericValueOutOfRange, []) := by
  by_cases hroom : row.revision + 1 ≤ Decimal.i64Max
  · simp only [changeEnvironment, hrow, nextBigint, if_pos hroom]
    rfl
  · simp only [changeEnvironment, hrow, nextBigint, if_neg hroom]
    rfl

theorem run_readEnvironmentTx {f : EnvironmentRecord → Transaction codec Answer}
    (hrow : t.environment org environmentKey = some row) :
    run describe rt δ n (readEnvironmentTx rt org environmentKey >>= f) t =
      run describe rt δ (n + 1) (f (environmentFromRow rt row)) t := by
  rw [readEnvironmentTx, bind_assoc, run_query]
  simp only [Statement.execute, hrow]
  rfl

theorem environment_replace {row' : EnvironmentRow}
    (hrow : t.environment org environmentKey = some row) (hkey : row'.key = row.key) :
    ({ t with environments := Table.replace EnvironmentRow.key row' t.environments } :
      Tables codec).environment org environmentKey = some row' := by
  have hk : row'.key = (org, environmentKey) := hkey.trans (Table.key_of_lookup hrow)
  rw [Tables.environment, ← hk] at hrow ⊢
  exact Table.lookup_replace_self hrow

theorem putEnvironment_ends {name : String} {expected : Option Int} (h : Working rt call t c) :
    Ends rt
      (run describe rt δ 2
        (putEnvironment describe rt org environmentKey name expected >>= finish describe call) t)
      (Abstract.putEnvironment (stamp rt δ (.putEnvironment org environmentKey name expected)) c org
        environmentKey name expected >>= settle call) := by
  unfold putEnvironment Abstract.putEnvironment
  rw [bind_assoc, run_query, h.rows.environment]
  simp only [Statement.execute]
  cases hrow : t.environment org environmentKey with
  | none =>
    cases expected with
    | some expected => exact .domain .notFound
    | none =>
      let row : EnvironmentRow :=
        { organizationId := org
          environmentKey := environmentKey
          name := name
          revision := 1
          createdAt := micros (δ 3).now
          updatedAt := micros (δ 3).later }
      have hrow' : ({ t with environments := row :: t.environments } : Tables codec).environment org
          environmentKey = some row := Table.lookup_cons_self row t.environments
      simp only [Option.map_none, bind_assoc]
      change Ends rt (run describe rt δ 3 (query (.insertEnvironment org environmentKey name) >>= _)
        t) _
      rw [run_query, Statement.execute, hrow]
      change Ends rt (run describe rt δ 4 (readEnvironmentTx rt org environmentKey >>= _)
        { t with environments := row :: t.environments }) _
      rw [run_readEnvironmentTx hrow']
      exact finish_ends (h.addEnvironment row) _
  | some row =>
    cases expected with
    | none => exact .domain .alreadyExists
    | some expected =>
      simp only [Option.map_some]
      change Ends rt (run describe rt δ 3 ((if row.revision ≠ expected then _ else _) >>= _) t)
        ((if row.revision ≠ expected then _ else _) >>= _)
      split
      · exact .domain .revisionConflict
      · simp only [bind_assoc]
        rw [run_query, Statement.execute, updated_changeEnvironment _ _ _ hrow,
          Abstract.requireRoom]
        change Ends rt _ ((if row.revision + 1 ≤ Decimal.i64Max then _ else _) >>= _)
        split
        · let row' : EnvironmentRow :=
            { row with
              name := name, revision := row.revision + 1, updatedAt := micros (δ 3).later }
          have hrow' : _ = some row' := environment_replace hrow (show row'.key = row.key from rfl)
          change Ends rt (run describe rt δ 4 (readEnvironmentTx rt org environmentKey >>= _)
            { t with environments := Table.replace EnvironmentRow.key row' t.environments }) _
          rw [run_readEnvironmentTx hrow']
          exact finish_ends (h.putEnvironment row') _
        · exact ends_other rfl rfl

end Environments

/-! ## Publications -/

section Publications

variable {org flagKey environmentKey : String}

/-- A missing next revision or a rejected document fails a publication outside the domain. -/
theorem rooms_error {α β : Type} {r₁ r₂ r₃ : Int} {o : Option α} {g : α → Except StorageError β}
    (h : ¬(r₁ + 1 ≤ Decimal.i64Max ∧ r₂ + 1 ≤ Decimal.i64Max ∧ r₃ + 1 ≤ Decimal.i64Max ∧
      o.isSome)) :
    ∃ e, e.isDomain = false ∧ (do
      Abstract.requireRoom r₁
      Abstract.requireRoom r₂
      Abstract.requireRoom r₃
      let a ← orJson o
      g a) = .error e := by
  unfold Abstract.requireRoom
  by_cases h₁ : r₁ + 1 ≤ Decimal.i64Max
  · by_cases h₂ : r₂ + 1 ≤ Decimal.i64Max
    · by_cases h₃ : r₃ + 1 ≤ Decimal.i64Max
      · cases o with
        | none =>
          rw [if_pos h₁, if_pos h₂, if_pos h₃]
          exact ⟨.json, rfl, rfl⟩
        | some a => exact absurd ⟨h₁, h₂, h₃, rfl⟩ h
      · rw [if_pos h₁, if_pos h₂, if_neg h₃]
        exact ⟨_, rfl, rfl⟩
    · rw [if_pos h₁, if_neg h₂]
      exact ⟨_, rfl, rfl⟩
  · rw [if_neg h₁]
    exact ⟨_, rfl, rfl⟩

theorem execute_insertRuleset {draw : Draw} {revision : Int} {definition : RulesetDefinition}
    {document : codec.Definition} {publishedBy : String}
    (hdocument : codec.encodeDefinition definition = some document) (hpos : 0 < revision)
    (hunique : ∀ row ∈ t.rulesetsOf org flagKey environmentKey, row.rulesetRevision ≠ revision)
    (hflag : (t.flag org flagKey).isSome) (henv : (t.environment org environmentKey).isSome) :
    Statement.execute draw
        (.insertRuleset org flagKey environmentKey revision definition publishedBy) t =
      (.ok (micros draw.now), [.insertRuleset ⟨org, flagKey, environmentKey, revision, document,
        publishedBy, micros draw.now⟩]) := by
  have hany : ((t.rulesetsOf org flagKey environmentKey).any fun row =>
      row.rulesetRevision = revision) = false := by
    rw [List.any_eq_false]
    exact fun row hrow => by simpa using hunique row hrow
  obtain ⟨flag, hflag⟩ := Option.isSome_iff_exists.mp hflag
  obtain ⟨environment, henv⟩ := Option.isSome_iff_exists.mp henv
  have hle : ¬revision ≤ 0 := by omega
  simp [Statement.execute, hdocument, hle, hany, hflag, henv]

/-- The statements of a publication behind its checks. -/
theorem publish_ends {flag : FlagRow} {environment : EnvironmentRow}
    {expectedFlag expectedEnvironment : Int} {definition : RulesetDefinition}
    (h : Working rt call t c) (hs : Sound rt c) (hflag : t.flag org flagKey = some flag)
    (henv : t.environment org environmentKey = some environment) {σ : Abstract.Stamp}
    (hσ : σ = stamp rt δ (.publishRuleset org flagKey environmentKey expectedFlag
      expectedEnvironment definition)) :
    Ends rt
      (run describe rt δ 4 (do
        let nextRevision ← orDatabase describe "allocate ruleset revision"
          (← query (.nextRuleset org flagKey environmentKey))
        let publishedAt ← orDatabase describe "insert ruleset"
          (← query (.insertRuleset org flagKey environmentKey nextRevision definition
            call.command.actor))
        let flagRevision ← bumpFlag describe org flagKey
        let environmentRevision ← bumpEnvironment describe org environmentKey
        finish describe call (.publish
          { organizationId := org
            flagKey := flagKey
            environmentKey := environmentKey
            rulesetRevision := toString nextRevision
            flagRevision := toString flagRevision
            environmentRevision := toString environmentRevision
            publishedBy := call.command.actor
            publishedAt := rt.formatTimestamp publishedAt })) t)
      (do
        Abstract.requireRoom flag.revision
        Abstract.requireRoom environment.revision
        Abstract.requireRoom (c.published org flagKey environmentKey)
        let document ← orJson (codec.encodeDefinition definition)
        settle call
          (.publish
            { organizationId := org
              flagKey := flagKey
              environmentKey := environmentKey
              rulesetRevision := toString (c.published org flagKey environmentKey + 1)
              flagRevision := toString (flag.revision + 1)
              environmentRevision := toString (environment.revision + 1)
              publishedBy := call.command.actor
              publishedAt := σ.publishedAt },
            { (c.putFlag ((flag.flag rt).bump σ)).putEnvironment
                ((environment.environment rt).bump σ) with
              rulesets := ⟨org, flagKey, environmentKey,
                c.published org flagKey environmentKey + 1, document⟩ :: c.rulesets })) := by
  have hmax := h.rows.maxRuleset hs.numbered org flagKey environmentKey
  rw [run_query, Statement.execute, hmax, nextBigint]
  -- The three numbers and the document are tried in another order than in the abstract store; all
  -- four failures lie outside the domain.
  by_cases hpublished : c.published org flagKey environmentKey + 1 ≤ Decimal.i64Max
  case neg =>
    obtain ⟨e, he, habstract⟩ := rooms_error (g := _) fun hall => hpublished hall.2.2.1
    rw [if_neg hpublished, habstract]
    exact ends_other rfl he
  rw [if_pos hpublished]
  change Ends rt (run describe rt δ 5 (query (.insertRuleset org flagKey environmentKey
    (c.published org flagKey environmentKey + 1) definition call.command.actor) >>= _) t) _
  rw [run_query]
  cases hdocument : codec.encodeDefinition definition with
  | none =>
    obtain ⟨e, he, habstract⟩ := rooms_error (o := none) (g := _) fun hall =>
      Bool.false_ne_true hall.2.2.2
    rw [habstract]
    simp only [Statement.execute, hdocument]
    exact ends_other rfl he
  | some document =>
    -- The number is above those of the triple, so the primary key admits the row.
    have hunique : ∀ row ∈ t.rulesetsOf org flagKey environmentKey,
        row.rulesetRevision ≠ c.published org flagKey environmentKey + 1 := by
      intro row hrow
      have hmem : row.of ∈ c.rulesetsOf org flagKey environmentKey := by
        rw [h.rows.rulesetsOf]
        exact List.mem_map_of_mem hrow
      exact (Int.lt_add_one_of_le (hs.numbered.revision_le hmem).2).ne
    have hpos : 0 < c.published org flagKey environmentKey + 1 := by
      rw [Abstract.published_eq_length hs.numbered]
      omega
    rw [execute_insertRuleset hdocument hpos hunique (by rw [hflag]; rfl) (by rw [henv]; rfl)]
    let ruleset : RulesetRow codec := ⟨org, flagKey, environmentKey,
      c.published org flagKey environmentKey + 1, document, call.command.actor, micros (δ 5).now⟩
    have hflag' : ({ t with rulesets := ruleset :: t.rulesets } : Tables codec).flag org flagKey =
      some flag := hflag
    change Ends rt (run describe rt δ 6 (bumpFlag describe org flagKey >>= _)
      { t with rulesets := ruleset :: t.rulesets }) _
    rw [bumpFlag, bind_assoc, run_query, Statement.execute, updated_changeFlag _ _ _ hflag']
    by_cases hroom : flag.revision + 1 ≤ Decimal.i64Max
    case neg =>
      obtain ⟨e, he, habstract⟩ := rooms_error (g := _) fun hall => hroom hall.1
      rw [if_neg hroom, habstract]
      exact ends_other rfl he
    rw [if_pos hroom]
    let flag' : FlagRow :=
      { flag with revision := flag.revision + 1, updatedAt := micros (δ 6).later }
    let t' : Tables codec :=
      { t with
        rulesets := ruleset :: t.rulesets
        flags := Table.replace FlagRow.key flag' t.flags }
    have henv' : t'.environment org environmentKey = some environment := henv
    change Ends rt (run describe rt δ 7 (bumpEnvironment describe org environmentKey >>= _) t') _
    rw [bumpEnvironment, bind_assoc, run_query, Statement.execute,
      updated_changeEnvironment _ _ _ henv']
    by_cases henvRoom : environment.revision + 1 ≤ Decimal.i64Max
    case neg =>
      obtain ⟨e, he, habstract⟩ := rooms_error (g := _) fun hall => henvRoom hall.2.1
      rw [if_neg henvRoom, habstract]
      exact ends_other rfl he
    rw [if_pos henvRoom]
    simp only [Abstract.requireRoom, if_pos hroom, if_pos henvRoom, if_pos hpublished]
    subst hσ
    let environment' : EnvironmentRow :=
      { environment with
        revision := environment.revision + 1, updatedAt := micros (δ 7).later }
    exact finish_ends (((h.addRuleset ruleset).putFlag flag').putEnvironment environment') _

theorem publishRuleset_ends {expectedFlag expectedEnvironment : Int}
    {definition : RulesetDefinition} (h : Working rt call t c) (hs : Sound rt c) :
    Ends rt
      (run describe rt δ 2 (publishRuleset describe rt call.command org flagKey environmentKey
        expectedFlag expectedEnvironment definition >>= finish describe call) t)
      (Abstract.publishRuleset rt (stamp rt δ (.publishRuleset org flagKey environmentKey
        expectedFlag expectedEnvironment definition)) c call.command.actor org flagKey
        environmentKey expectedFlag expectedEnvironment definition >>= settle call) := by
  simp only [publishRuleset, lockFlag, Abstract.publishRuleset, bind_assoc]
  change Ends rt (run describe rt δ 3 (lift (okOr .notFound ((t.flag org flagKey).map _)) >>= _) t) _
  refine ends_lift (locked_agree h.rows .notFound _) ?_
  rintro _ _ ⟨flag, hflag, rfl, rfl⟩
  refine ends_lift (requireFlagRevision_agree flag expectedFlag) fun _ _ _ => ?_
  refine ends_lift (Agree.refl (validateRuleset rt flag.valueType definition)) fun _ _ _ => ?_
  change Ends rt (run describe rt δ 4
    (lift (okOr .notFound ((t.environment org environmentKey).map _)) >>= _) t) _
  rw [h.rows.environment]
  cases henv : t.environment org environmentKey with
  | none => exact .domain .notFound
  | some environment =>
    change Ends rt
      (run describe rt δ 4 ((if environment.revision ≠ expectedEnvironment then _ else _) >>= _) t)
      ((if environment.revision ≠ expectedEnvironment then _ else _) >>= _)
    split
    · exact .domain .revisionConflict
    · simp only [bind_assoc]
      exact publish_ends h hs hflag henv rfl

end Publications

/-! ## Evaluations -/

section Evaluations

variable {command : Command} {operation org environmentKey flagKey targetingKey contextHash : String}
  {attributes : List (String × Json)}

/-- No receipt has the id or the identifier of a position from `i` on. -/
structure Vacant (σ : Abstract.Stamp) (c : Abstract.Store codec) (command : Command)
    (operation : String) (i : ℕ) : Prop where
  ids : ∀ j, i ≤ j → ∀ receipt ∈ c.receipts, receipt.receiptId ≠ (σ.evaluation j).receiptId
  keys : ∀ j, i ≤ j → ∀ flagKey, ∀ receipt ∈ c.receipts, receipt.evaluationKey ≠
    ⟨command.caller, command.actor, operation, Abstract.evaluationId operation command.key j,
      flagKey⟩

theorem chooseVariant_reason {definition : RulesetDefinition} {variant : VariantRecord}
    {reason : String} (h : chooseVariant rt org environmentKey flagKey targetingKey attributes
      definition = .ok (variant, reason)) : reason ∈ reasons := by
  have hmap : ∀ {x : Except StorageError VariantRecord} {r : String},
      x.map (·, r) = .ok (variant, reason) → reason = r := by
    intro x r hx
    cases x with
    | ok v =>
      cases hx
      rfl
    | error e => cases hx
  have hrollout : ∀ (rollouts : List RolloutRecord) (bucket upper : UInt64),
      chooseRollout definition bucket rollouts upper = .ok (variant, reason) →
        reason ∈ reasons := by
    intro rollouts bucket
    induction rollouts with
    | nil =>
      intro upper hchoose
      rw [hmap hchoose]
      decide
    | cons rollout rollouts ih =>
      intro upper hchoose
      obtain ⟨points, -, hchoose⟩ := bind_eq_ok.mp hchoose
      change (if bucket < upper + points then _ else _) = _ at hchoose
      split at hchoose
      · rw [hmap hchoose]
        decide
      · exact ih _ hchoose
  unfold chooseVariant at h
  split at h
  · rw [hmap h]
    decide
  · exact hrollout _ _ _ h

/-- The row of an evaluation. -/
def receiptRow (draw : Draw) (receiptId : String) (command : Command) (operation evaluationId org
    flagKey environmentKey variantKey reason : String) (rulesetRevision : Int)
    (contextHash : String) (evaluatedAt : Int) : ReceiptRow :=
  { receiptId := receiptId
    callerInstance := command.caller
    actorSubject := command.actor
    operation := operation
    evaluationId := evaluationId
    organizationId := org
    flagKey := flagKey
    environmentKey := environmentKey
    variantKey := variantKey
    reason := reason
    rulesetRevision := rulesetRevision
    contextHash := contextHash
    evaluatedAt := micros evaluatedAt
    rowSeq := draw.receiptSeq }

theorem execute_insertReceipt {draw : Draw} {receiptId evaluationId variantKey reason : String}
    {revision evaluatedAt : Int} (hpos : 0 < revision) (hreason : reason ∈ reasons)
    (hid : Table.lookup ReceiptRow.receiptId receiptId t.receipts = none)
    (hkey : Table.lookup ReceiptRow.evaluationKey
      ⟨command.caller, command.actor, operation, evaluationId, flagKey⟩ t.receipts = none) :
    Statement.execute draw (.insertReceipt receiptId command operation evaluationId org flagKey
        environmentKey variantKey reason revision contextHash evaluatedAt) t =
      (.ok (), [.insertReceipt (receiptRow draw receiptId command operation evaluationId org flagKey
        environmentKey variantKey reason revision contextHash evaluatedAt)]) := by
  have hle : ¬revision ≤ 0 := by omega
  simp [Statement.execute, ReceiptRow.evaluationKey, hle, hreason, hid, hkey, receiptRow]

/-- At a vacant position nothing rejects the receipt. -/
theorem Vacant.execute_insertReceipt {σ : Abstract.Stamp} {i : ℕ} {draw : Draw}
    {receiptId variantKey reason : String} {revision evaluatedAt : Int}
    (hvacant : Vacant σ c command operation i) (h : Rows rt t c)
    (hid : (σ.evaluation i).receiptId = receiptId) (hpos : 0 < revision)
    (hreason : reason ∈ reasons) :
    Statement.execute draw (.insertReceipt receiptId command operation
        (Abstract.evaluationId operation command.key i) org flagKey environmentKey variantKey reason
        revision contextHash evaluatedAt) t =
      (.ok (), [.insertReceipt (receiptRow draw receiptId command operation
        (Abstract.evaluationId operation command.key i) org flagKey environmentKey variantKey reason
        revision contextHash evaluatedAt)]) := by
  have hmem : ∀ {row : ReceiptRow}, row ∈ t.receipts → row.receipt rt ∈ c.receipts := by
    intro row hrow
    rw [← h.receipts]
    exact List.mem_map_of_mem hrow
  refine Postgres.execute_insertReceipt hpos hreason ?_ ?_ <;> rw [Table.lookup_eq_none]
  · intro row hrow
    rw [← hid]
    exact hvacant.ids i le_rfl (row.receipt rt) (hmem hrow)
  · intro row hrow
    exact hvacant.keys i le_rfl flagKey (row.receipt rt) (hmem hrow)

/-- One evaluation of a transaction, at position `i`. -/
theorem evaluateOne_ends (operation : String) {σ : Abstract.Stamp} {i : ℕ}
    {f : EvaluationRecord → Transaction codec Answer}
    {g : EvaluationRecord × Abstract.Receipt → Except StorageError (Answer × Abstract.Store codec)}
    (h : Rows rt t c) (hn : Abstract.Numbered c.rulesets)
    (hvacant : Vacant σ c command operation i)
    (hσ : σ.evaluation i = ⟨(δ (n + 3)).uuid, rt.formatTimestamp (δ (n + 3)).now,
      rt.formatTimestamp (micros (δ (n + 3)).now), (δ (n + 4)).receiptSeq⟩)
    (hfg : ∀ variant reason revision row,
      (Abstract.evaluation (σ.evaluation i) command operation
        (Abstract.evaluationId operation command.key i)
        ⟨org, environmentKey, targetingKey, attributes, contextHash⟩ flagKey variant reason
        revision).2 = ReceiptRow.receipt rt row →
      Ends rt
        (run describe rt δ (n + 5)
          (f (Abstract.evaluation (σ.evaluation i) command operation
            (Abstract.evaluationId operation command.key i)
            ⟨org, environmentKey, targetingKey, attributes, contextHash⟩ flagKey variant reason
            revision).1) { t with receipts := row :: t.receipts })
        (g (Abstract.evaluation (σ.evaluation i) command operation
          (Abstract.evaluationId operation command.key i)
          ⟨org, environmentKey, targetingKey, attributes, contextHash⟩ flagKey variant reason
          revision))) :
    Ends rt
      (run describe rt δ n (evaluateOne describe rt command operation org environmentKey flagKey
        (Abstract.evaluationId operation command.key i) targetingKey attributes contextHash >>= f) t)
      (Abstract.evaluateOne rt σ c command operation
        ⟨org, environmentKey, targetingKey, attributes, contextHash⟩ i flagKey >>= g) := by
  unfold evaluateOne Abstract.evaluateOne Abstract.choose
  simp only [bind_assoc]
  change Ends rt (run describe rt δ (n + 1)
    (lift (okOr .flagNotFound ((t.flag org flagKey).map _)) >>= _) t) _
  -- The reads are those of the abstract choice, in the same order.
  refine ends_lift (locked_agree h .flagNotFound _) ?_
  rintro _ _ ⟨flag, hflag, rfl, rfl⟩
  change Ends rt (run describe rt δ (n + 1) ((if flag.archived = true then _ else _) >>= f) t)
    ((if flag.archived = true then _ else _) >>= _)
  split
  · exact .domain .archived
  change Ends rt (run describe rt δ (n + 2)
    ((if (t.environment org environmentKey).isSome = false then _ else _) >>= f) t) _
  simp only [bind_assoc]
  rw [h.environment]
  cases henv : t.environment org environmentKey with
  | none => exact .domain .environmentNotFound
  | some environment =>
    change Ends rt (run describe rt δ (n + 2)
      ((query (.latestRuleset org flagKey environmentKey) >>= fun row => _) >>= f) t)
      (okOr .noPublishedRuleset _ >>= _)
    rw [bind_assoc, run_query, Statement.execute, h.newestRuleset hn, Abstract.Store.latest,
      h.rulesetsOf, List.head?_map]
    cases hruleset : (t.rulesetsOf org flagKey environmentKey).head? with
    | none => exact .domain .noPublishedRuleset
    | some ruleset =>
      -- The check of the receipt's revision holds of every published ruleset.
      have hpos : 0 < ruleset.rulesetRevision := by
        have hmem : ruleset.of ∈ c.rulesetsOf org flagKey environmentKey := by
          rw [h.rulesetsOf]
          exact List.mem_map_of_mem (List.mem_of_head? hruleset)
        exact (hn.revision_le hmem).1
      change Ends rt (run describe rt δ (n + 3)
        ((lift (orJson (codec.decodeDefinition ruleset.ruleset)) >>= fun definition => _) >>= f) t)
        (orJson (codec.decodeDefinition ruleset.ruleset) >>= _)
      simp only [bind_assoc]
      refine ends_lift (Agree.refl _) ?_
      rintro definition _ rfl
      refine ends_lift (Agree.refl (validateRuleset rt flag.valueType definition)) fun _ _ _ => ?_
      refine ends_lift (Agree.refl (chooseVariant rt org environmentKey flagKey targetingKey
        attributes definition)).values ?_
      rintro ⟨variant, reason⟩ _ ⟨rfl, hchoose, -⟩
      change Ends rt (run describe rt δ (n + 4) ((query (.insertReceipt (δ (n + 3)).uuid command
        operation (Abstract.evaluationId operation command.key i) org flagKey environmentKey
        variant.variantKey reason ruleset.rulesetRevision contextHash (δ (n + 3)).now) >>=
          fun ρ => _) >>= f) t) _
      rw [bind_assoc, run_query, hvacant.execute_insertReceipt h (by rw [hσ]) hpos
        (chooseVariant_reason hchoose)]
      have hrest := hfg variant reason ruleset.rulesetRevision (receiptRow (δ (n + 4))
        (δ (n + 3)).uuid command operation (Abstract.evaluationId operation command.key i) org
        flagKey environmentKey variant.variantKey reason ruleset.rulesetRevision contextHash
        (δ (n + 3)).now) (by rw [hσ]; rfl)
      rw [hσ] at hrest ⊢
      exact hrest

/-- A command that was not made before has no receipts yet. -/
theorem Vacant.initial (call : Call) {σ : Abstract.Stamp} (hs : Sound rt c) (hσ : σ.Fresh c)
    (hnew : c.command call.commandKey = none) :
    Vacant σ c call.command call.operation.name 0 :=
  ⟨fun j _ => hσ.unused j, fun j _ flagKey _ hreceipt =>
    hs.unclaimed hnew hreceipt j flagKey⟩

/-- An evaluation in a batch leaves the later positions vacant. -/
theorem Vacant.next {σ : Abstract.Stamp} {i : ℕ} {subject : Abstract.Subject}
    {variant : VariantRecord} {reason : String} {revision : Int}
    (hdistinct : ∀ i j, (σ.evaluation i).receiptId = (σ.evaluation j).receiptId → i = j)
    (hbatch : operation ≠ "evaluate") (h : Vacant σ c command operation i) :
    Vacant σ (c.addReceipts [(Abstract.evaluation (σ.evaluation i) command operation
      (Abstract.evaluationId operation command.key i) subject flagKey variant reason revision).2])
      command operation (i + 1) := by
  refine ⟨fun j hj receipt hreceipt heq => ?_, fun j hj key receipt hreceipt heq => ?_⟩
  · rcases List.mem_cons.mp hreceipt with rfl | hreceipt
    · have := hdistinct i j heq
      omega
    · exact h.ids j (by omega) receipt hreceipt heq
  · rcases List.mem_cons.mp hreceipt with rfl | hreceipt
    · have := (Abstract.evaluationId_inj (EvaluationKey.mk.inj heq).2.2.2.1).2 hbatch
      omega
    · exact h.keys j (by omega) key receipt hreceipt heq

theorem evaluateFrom_addReceipts {σ : Abstract.Stamp} {subject : Abstract.Subject}
    (receipts : List Abstract.Receipt) (i : ℕ) (flagKeys : List String) :
    Abstract.evaluateFrom rt σ (c.addReceipts receipts) command operation subject i flagKeys =
      Abstract.evaluateFrom rt σ c command operation subject i flagKeys := by
  induction flagKeys generalizing i with
  | nil => rfl
  | cons flagKey flagKeys ih =>
    rw [Abstract.evaluateFrom, Abstract.evaluateFrom]
    simp only [ih]
    rfl

/-- The evaluations of a batch from position `i` on. -/
theorem evaluateFrom_ends {σ : Abstract.Stamp} {i : ℕ} {flagKeys : List String}
    {f : List EvaluationRecord → Transaction codec Answer}
    {g : List (EvaluationRecord × Abstract.Receipt) →
      Except StorageError (Answer × Abstract.Store codec)}
    (h : Working rt call t c) (hn : Abstract.Numbered c.rulesets)
    (hvacant : Vacant σ c command "evaluate_batch" i)
    (hdistinct : ∀ i j, (σ.evaluation i).receiptId = (σ.evaluation j).receiptId → i = j)
    (hσ : ∀ j, σ.evaluation j = ⟨(δ (5 * j + 5)).uuid, rt.formatTimestamp (δ (5 * j + 5)).now,
      rt.formatTimestamp (micros (δ (5 * j + 5)).now), (δ (5 * j + 6)).receiptSeq⟩)
    (hfg : ∀ m results t', Working rt call t' (c.addReceipts (results.map (·.2))) →
      Ends rt (run describe rt δ m (f (results.map (·.1))) t') (g results)) :
    Ends rt
      (run describe rt δ (5 * i + 2) (evaluateFrom describe rt command org environmentKey
        targetingKey attributes contextHash i flagKeys >>= f) t)
      (Abstract.evaluateFrom rt σ c command "evaluate_batch"
        ⟨org, environmentKey, targetingKey, attributes, contextHash⟩ i flagKeys >>= g) := by
  induction flagKeys generalizing t c i f g with
  | nil => exact hfg _ [] t h
  | cons flagKey flagKeys ih =>
    simp only [evaluateFrom, Abstract.evaluateFrom, bind_assoc]
    refine evaluateOne_ends "evaluate_batch" h.rows hn hvacant (hσ i)
      fun variant reason revision row hrow => ?_
    have h' := h.addReceipt row
    rw [← hrow] at h'
    rw [← evaluateFrom_addReceipts [_] (i + 1) flagKeys]
    refine ih h' hn (hvacant.next hdistinct (by decide)) fun m results t' hw => ?_
    refine hfg m (_ :: results) t' ?_
    have hadd : ∀ (receipt : Abstract.Receipt) (receipts : List Abstract.Receipt),
        (c.addReceipts [receipt]).addReceipts receipts = c.addReceipts (receipt :: receipts) := by
      intro receipt receipts
      simp [Abstract.Store.addReceipts]
    rw [hadd] at hw
    exact hw

end Evaluations

/-! ## Transactions -/

/-- The operation of an admitted command. -/
theorem fresh_ends (h : Working rt call t c) (hs : Sound rt c)
    (hσ : (stamp rt δ call.operation).Fresh c)
    (htype : ∀ org flagKey name description valueType,
      call.operation = .createFlag org flagKey name description valueType →
        valueType ∈ valueTypes) :
    Ends rt (run describe rt δ 2 (fresh describe rt call >>= finish describe call) t)
      (Abstract.perform rt (stamp rt δ call.operation) c call >>= settle call) := by
  have hvacant := Vacant.initial call hs hσ h.new
  obtain ⟨command, operation⟩ := call
  cases operation with
  | createFlag org flagKey name description valueType =>
    exact createFlag_ends h (htype _ _ _ _ _ rfl)
  | updateFlag => exact updateFlag_ends h
  | archiveFlag => exact archiveFlag_ends h
  | putEnvironment => exact putEnvironment_ends h
  | publishRuleset => exact publishRuleset_ends h hs
  | evaluate org environmentKey flagKey targetingKey attributes contextHash =>
    simp only [fresh, Abstract.perform, Abstract.evaluate, bind_assoc]
    refine evaluateOne_ends "evaluate" (i := 0) h.rows hs.numbered hvacant rfl
      fun variant reason revision row hrow => ?_
    have h' := h.addReceipt row
    rw [← hrow] at h'
    exact finish_ends h' _
  | evaluateBatch org environmentKey flagKeys targetingKey attributes contextHash =>
    simp only [fresh, Abstract.perform, Abstract.evaluateBatch, bind_assoc]
    exact evaluateFrom_ends (i := 0) h hs.numbered hvacant hσ.distinct (fun _ => rfl)
      fun m results t' hw => finish_ends hw _

/-- The tables with the admitted command. -/
def admitted (t : Tables codec) (call : Call) : Tables codec :=
  { t with commands := ⟨call.commandKey, call.command.hash, none⟩ :: t.commands }

theorem Represents.admitted (hr : Represents rt t c) (hnew : c.command call.commandKey = none) :
    Working rt call (admitted t call) c :=
  ⟨⟨hr.rows.flags, hr.rows.environments, hr.rows.rulesets, hr.rows.receipts⟩,
    congrArg (List.cons _) hr.commands, hnew⟩

theorem execute_selectCommand (hr : Represents rt t c) (draw : Draw) (key : CommandKey) :
    Statement.execute draw (.selectCommand key) t =
      ((c.command key).map fun row => (row.requestHash, some row.response), []) := by
  change ((t.command key).map _, _) = _
  rw [hr.command, Option.map_map]
  rfl

theorem execute_insertCommand (hr : Represents rt t c) (draw : Draw) {key : CommandKey}
    (hnew : c.command key = none) (hash : List UInt8) :
    Statement.execute draw (.insertCommand key hash) t =
      (.ok (), [.insertCommand ⟨key, hash, none⟩]) := by
  change (if (t.command key).isSome then _ else _) = _
  rw [hr.command, hnew]
  rfl

variable (describe δ) in
/-- A transaction replays as the abstract store does, or goes on with an admitted command. -/
theorem transaction_cases (hr : Represents rt t c) (σ : Abstract.Stamp) :
    (c.command call.commandKey = none ∧
        run describe rt δ 0 (transaction describe call (fresh describe rt call)) t =
          run describe rt δ 2 (fresh describe rt call >>= finish describe call) (admitted t call)) ∨
      Ends rt (run describe rt δ 0 (transaction describe call (fresh describe rt call)) t)
        (Abstract.attempt rt σ c call) := by
  unfold transaction admitCommand Abstract.attempt Abstract.replay
  simp only [bind_assoc, run_query, execute_selectCommand hr, Call.commandKey]
  cases hc : c.command (call.command.rowKey call.operation.name) with
  | none =>
    refine .inl ⟨rfl, ?_⟩
    change run describe rt δ 1 ((query (.insertCommand (call.command.rowKey call.operation.name)
      call.command.hash) >>= fun ρ => _) >>= _) t = _
    rw [bind_assoc, run_query, execute_insertCommand hr _ hc]
    rfl
  | some row =>
    refine .inr ?_
    simp only [Option.map_some, ne_eq]
    split
    · exact .domain .idempotencyConflict
    · simp only [bind_assoc]
      cases hdecode : decodeResponse codec call.operation.kind row.response with
      | none => exact ends_other rfl rfl
      | some response => exact .ok ⟨rfl, hr⟩

theorem Ends.alone {σ : Abstract.Stamp} (hr : Represents rt t c)
    (h : Ends rt (run describe rt δ 0 (transaction describe call (fresh describe rt call)) t)
      (Abstract.attempt rt σ c call)) :
    Agree (· = ·) ((store codec describe rt).alone δ t call).1 (Abstract.exec rt σ c call).1 ∧
      Represents rt ((store codec describe rt).alone δ t call).2
        (Abstract.exec rt σ c call).2 := by
  change Ends rt ((store codec describe rt).runOn δ 0 ((store codec describe rt).body call) t) _ at h
  unfold Locking.Database.alone Abstract.exec
  generalize (store codec describe rt).runOn δ 0 ((store codec describe rt).body call) t = x at h
  generalize Abstract.attempt rt σ c call = y at h
  obtain ⟨x, t'⟩ := x
  unfold Ends at h
  cases h with
  | @ok answer outcome hvalue =>
    obtain ⟨rfl, hr'⟩ := hvalue
    exact ⟨.ok rfl, hr'⟩
  | domain failure => exact ⟨.domain failure, hr⟩
  | other he he' => exact ⟨.other he he', hr⟩

variable (describe) in
/-- A transaction run alone does what the abstract store does with the call. Only a value type that
the service does not accept makes a difference: the column's check reports it, as a failure of the
backend. -/
theorem alone_cases (hr : Represents rt t c) (hs : Sound rt c)
    (hσ : (stamp rt δ call.operation).Fresh c) :
    (Agree (· = ·) ((store codec describe rt).alone δ t call).1
        (Abstract.exec rt (stamp rt δ call.operation) c call).1 ∧
      Represents rt ((store codec describe rt).alone δ t call).2
        (Abstract.exec rt (stamp rt δ call.operation) c call).2) ∨
    ∃ org flagKey name description valueType e,
      call.operation = .createFlag org flagKey name description valueType ∧
        valueType ∉ valueTypes ∧ e.isDomain = false ∧
        (store codec describe rt).alone δ t call = (.error e, t) := by
  rcases transaction_cases describe δ hr (stamp rt δ call.operation) with
    ⟨hnew, hrun⟩ | hends
  · by_cases htype : ∀ org flagKey name description valueType,
        call.operation = .createFlag org flagKey name description valueType →
          valueType ∈ valueTypes
    · refine .inl (Ends.alone hr ?_)
      rw [hrun, Abstract.attempt_of_new hnew]
      exact fresh_ends (hr.admitted hnew) hs hσ htype
    · right
      push Not at htype
      obtain ⟨org, flagKey, name, description, valueType, hop, htype⟩ := htype
      refine ⟨org, flagKey, name, description, valueType,
        database describe "insert flag" .checkViolation, hop, htype, rfl, ?_⟩
      have hbody : (store codec describe rt).runOn δ 0 ((store codec describe rt).body call) t =
          (.error (database describe "insert flag" .checkViolation), admitted t call) := by
        refine hrun.trans ?_
        rw [fresh, hop]
        change run describe rt δ 2 ((createFlag describe rt org flagKey name description valueType) >>=
          finish describe call) (admitted t call) = _
        unfold createFlag
        rw [bind_assoc, run_query, Statement.execute, if_pos htype]
        rfl
      rw [Locking.Database.alone, hbody]
  · exact .inl (hends.alone hr)

end LensoFlags.Postgres
