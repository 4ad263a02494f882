import LensoFlags.Abstract.Effect

/-!
# What a write operation changes, table by table

An `Effect` seen from one table: the flags and environments of the call's organization keep their
rows, gain a first revision or move one row to the next; rulesets and receipts only grow.
-/

namespace LensoFlags.Abstract

variable {codec : Codec} {rt : Runtime} {σ : Stamp} {c c' : Store codec} {call : Call}
  {response : Response}

inductive FlagChange (σ : Stamp) (org : String) (flags : List Flag) : List Flag → Prop
  | same : FlagChange σ org flags flags
  | added {flag : Flag} :
      flag.organizationId = org → Table.lookup Flag.key flag.key flags = none →
      flag.revision = 1 → flag.archived = false → flag.archivedAt = none →
      flag.rowSeq = σ.rowSeq →
      FlagChange σ org flags (flag :: flags)
  | bumped {flag flag' : Flag} :
      flag.organizationId = org → Table.lookup Flag.key flag.key flags = some flag →
      flag.archived = false → flag'.key = flag.key → flag'.revision = flag.revision + 1 →
      flag.revision + 1 ≤ Decimal.i64Max → flag'.valueType = flag.valueType →
      flag'.rowSeq = flag.rowSeq →
      (flag.archivedAt.isSome = flag.archived → flag'.archivedAt.isSome = flag'.archived) →
      FlagChange σ org flags (Table.replace Flag.key flag' flags)

inductive EnvironmentChange (org : String) (environments : List Environment) :
    List Environment → Prop
  | same : EnvironmentChange org environments environments
  | added {environment : Environment} :
      environment.organizationId = org →
      Table.lookup Environment.key environment.key environments = none →
      environment.revision = 1 →
      EnvironmentChange org environments (environment :: environments)
  | bumped {environment environment' : Environment} :
      environment.organizationId = org →
      Table.lookup Environment.key environment.key environments = some environment →
      environment'.key = environment.key →
      environment'.revision = environment.revision + 1 →
      environment.revision + 1 ≤ Decimal.i64Max →
      EnvironmentChange org environments (Table.replace Environment.key environment' environments)

inductive RulesetChange (rt : Runtime) (org : String) (c : Store codec) :
    List (Ruleset codec) → Prop
  | same : RulesetChange rt org c c.rulesets
  | added {ruleset : Ruleset codec} {definition : RulesetDefinition} {flag : Flag} :
      ruleset.organizationId = org →
      c.flag org ruleset.flagKey = some flag →
      (c.environment org ruleset.environmentKey).isSome →
      ruleset.revision = c.published org ruleset.flagKey ruleset.environmentKey + 1 →
      ruleset.revision ≤ Decimal.i64Max →
      codec.encodeDefinition definition = some ruleset.definition →
      validateRuleset rt flag.valueType definition = .ok () →
      RulesetChange rt org c (ruleset :: c.rulesets)

inductive ReceiptChange (rt : Runtime) (σ : Stamp) (call : Call) (c : Store codec) :
    List Receipt → Prop
  | same : ReceiptChange rt σ call c c.receipts
  | added {subject : Subject} {flagKeys : List String}
      {results : List (EvaluationRecord × Receipt)} :
      evaluates call.operation = some (subject, flagKeys) →
      List.Forall₂ (Evaluated rt σ c call.command call.operation.name subject)
        (flagKeys.zipIdx 0) results →
      ReceiptChange rt σ call c ((results.map (·.2)).reverse ++ c.receipts)

/-! ## Lookups -/

theorem flag_key {org key : String} {flag : Flag} (h : c.flag org key = some flag) :
    flag.key = (org, key) :=
  Table.key_of_lookup h

theorem flag_organizationId {org key : String} {flag : Flag} (h : c.flag org key = some flag) :
    flag.organizationId = org :=
  congrArg Prod.fst (flag_key h)

theorem flag_lookup {org key : String} {flag : Flag} (h : c.flag org key = some flag) :
    Table.lookup Flag.key flag.key c.flags = some flag := by
  rw [flag_key h]
  exact h

theorem environment_key {org key : String} {environment : Environment}
    (h : c.environment org key = some environment) : environment.key = (org, key) :=
  Table.key_of_lookup h

theorem environment_organizationId {org key : String} {environment : Environment}
    (h : c.environment org key = some environment) : environment.organizationId = org :=
  congrArg Prod.fst (environment_key h)

theorem environment_environmentKey {org key : String} {environment : Environment}
    (h : c.environment org key = some environment) : environment.environmentKey = key :=
  congrArg Prod.snd (environment_key h)

theorem environment_lookup {org key : String} {environment : Environment}
    (h : c.environment org key = some environment) :
    Table.lookup Environment.key environment.key c.environments = some environment := by
  rw [environment_key h]
  exact h

theorem flag_putFlag {org key : String} {flag flag' : Flag} (h : c.flag org key = some flag)
    (hkey : flag'.key = flag.key) : (c.putFlag flag').flag org key = some flag' := by
  have hk : flag'.key = (org, key) := hkey.trans (flag_key h)
  rw [Store.flag, ← hk] at h ⊢
  exact Table.lookup_replace_self h

theorem environment_putEnvironment {org key : String} {environment environment' : Environment}
    (h : c.environment org key = some environment) (hkey : environment'.key = environment.key) :
    (c.putEnvironment environment').environment org key = some environment' := by
  have hk : environment'.key = (org, key) := hkey.trans (environment_key h)
  rw [Store.environment, ← hk] at h ⊢
  exact Table.lookup_replace_self h

/-! ## The changes of an effect -/

theorem evaluates_organizationId {operation : Operation} {subject : Subject}
    {flagKeys : List String} (h : evaluates operation = some (subject, flagKeys)) :
    operation.organizationId = subject.organizationId := by
  cases operation <;> cases h <;> rfl

theorem Effect.flagChange (h : Effect rt σ c call response c') :
    FlagChange σ call.operation.organizationId c.flags c'.flags := by
  cases h with
  | created hop hnone => exact .added (by rw [hop]; rfl) hnone rfl rfl rfl rfl
  | updated hop hflag harchived _ hroom =>
    exact .bumped (by rw [hop]; exact flag_organizationId hflag) (flag_lookup hflag) harchived rfl
      rfl hroom rfl rfl id
  | archived hop hflag harchived _ hroom =>
    exact .bumped (by rw [hop]; exact flag_organizationId hflag) (flag_lookup hflag) harchived rfl
      rfl hroom rfl rfl fun _ => rfl
  | environmentCreated => exact .same
  | environmentRenamed => exact .same
  | published hop hflag harchived _ hroom =>
    exact .bumped (by rw [hop]; exact flag_organizationId hflag) (flag_lookup hflag) harchived rfl
      rfl hroom rfl rfl id
  | evaluated => exact .same

theorem Effect.environmentChange (h : Effect rt σ c call response c') :
    EnvironmentChange call.operation.organizationId c.environments c'.environments := by
  cases h with
  | created => exact .same
  | updated => exact .same
  | archived => exact .same
  | environmentCreated hop hnone => exact .added (by rw [hop]; rfl) hnone rfl
  | environmentRenamed hop henv _ hroom =>
    exact .bumped (by rw [hop]; exact environment_organizationId henv) (environment_lookup henv) rfl
      rfl hroom
  | published hop _ _ _ _ _ henv _ hroom =>
    exact .bumped (by rw [hop]; exact environment_organizationId henv) (environment_lookup henv) rfl
      rfl hroom
  | evaluated => exact .same

theorem Effect.rulesetChange (h : Effect rt σ c call response c') :
    RulesetChange rt call.operation.organizationId c c'.rulesets := by
  cases h with
  | created => exact .same
  | updated => exact .same
  | archived => exact .same
  | environmentCreated => exact .same
  | environmentRenamed => exact .same
  | published hop hflag _ _ _ hvalid henv _ _ hroom hdocument =>
    rw [hop]
    exact .added rfl hflag (by rw [Operation.organizationId, henv]; rfl) rfl hroom hdocument hvalid
  | evaluated => exact .same

theorem Effect.receiptChange (h : Effect rt σ c call response c') :
    ReceiptChange rt σ call c c'.receipts := by
  cases h with
  | created => exact .same
  | updated => exact .same
  | archived => exact .same
  | environmentCreated => exact .same
  | environmentRenamed => exact .same
  | published => exact .same
  | evaluated hop hresults => exact .added hop (evaluateFrom_eq_ok.mp hresults)

/-- Each evaluation of a request is answered with a record and kept as a receipt. -/
theorem Effect.answers (h : Effect rt σ c call response c') :
    (evaluates call.operation = none ∧ response.records = [] ∧ c'.receipts = c.receipts) ∨
      ∃ (subject : Subject) (flagKeys : List String) (results : List (EvaluationRecord × Receipt)),
        evaluates call.operation = some (subject, flagKeys) ∧
        response.records = results.map (·.1) ∧
        c'.receipts = (results.map (·.2)).reverse ++ c.receipts ∧
        List.Forall₂ (Evaluated rt σ c call.command call.operation.name subject)
          (flagKeys.zipIdx 0) results := by
  cases h with
  | evaluated hop hresults _ hrecords =>
    exact .inr ⟨_, _, _, hop, hrecords, rfl, evaluateFrom_eq_ok.mp hresults⟩
  | _ hop => exact .inl ⟨by rw [hop]; rfl, rfl, rfl⟩

theorem Effect.kind (h : Effect rt σ c call response c') :
    response.kind = call.operation.kind := by
  cases h with
  | evaluated _ _ hkind => exact hkind
  | _ hop => rw [hop]; rfl

/-- The command rows are the call's own affair. -/
theorem Effect.commands (h : Effect rt σ c call response c') : c'.commands = c.commands := by
  cases h <;> rfl

end LensoFlags.Abstract
