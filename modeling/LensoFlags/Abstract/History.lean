import LensoFlags.Abstract.Sound

/-!
# What a history accounts for

Each table against the history of committed calls: a flag's or an environment's revision counts the
calls that changed it, the rulesets of a triple are its publications.

Results:
1. `Effect.flagMove`, `Effect.environmentMove`, `Effect.rulesetMove`: what one effect does to one
   flag, one environment, the rulesets of one triple.
2. `Run.flag_revision`, `Run.environment_revision`, `Run.publications`: what a history has done.
3. `Run.not_contend`: no two calls of a history expected the same revision.
-/

namespace LensoFlags.Abstract

variable {codec : Codec} {rt : Runtime} {σ : Stamp} {c c' : Store codec} {call : Call}
  {response : Response} {history : List (Call × Response)}

/-! ## Expected revisions -/

/-- The flag an operation takes to its next revision, and the revision it expects. -/
def flagExpected : Operation → Option ((String × String) × Int)
  | .updateFlag org flagKey expected .. => some ((org, flagKey), expected)
  | .archiveFlag org flagKey expected => some ((org, flagKey), expected)
  | .publishRuleset org flagKey _ expected .. => some ((org, flagKey), expected)
  | _ => none

/-- The environment an operation takes to its next revision, and the revision it expects. -/
def environmentExpected : Operation → Option ((String × String) × Int)
  | .putEnvironment org environmentKey _ (some expected) => some ((org, environmentKey), expected)
  | .publishRuleset org _ environmentKey _ expected _ => some ((org, environmentKey), expected)
  | _ => none

/-- The definition an operation publishes for the triple. -/
def publication (org flagKey environmentKey : String) : Operation → Option RulesetDefinition
  | .publishRuleset org' flagKey' environmentKey' _ _ definition =>
      if (org', flagKey', environmentKey') = (org, flagKey, environmentKey) then some definition
      else none
  | _ => none

def changesFlag (key : String × String) (operation : Operation) : Bool :=
  (flagExpected operation).any fun expected => expected.1 = key

def changesEnvironment (key : String × String) (operation : Operation) : Bool :=
  (environmentExpected operation).any fun expected => expected.1 = key

/-! ## One effect -/

/-- What an operation does to a flag. -/
inductive FlagMove (operation : Operation) (key : String × String) :
    Option Flag → Option Flag → Prop
  | kept {flag : Option Flag} :
      changesFlag key operation = false → FlagMove operation key flag flag
  | created {flag : Flag} :
      changesFlag key operation = false → flag.revision = 1 →
      FlagMove operation key none (some flag)
  | raised {flag flag' : Flag} :
      flagExpected operation = some (key, flag.revision) → flag.archived = false →
      flag'.revision = flag.revision + 1 → FlagMove operation key (some flag) (some flag')

theorem changesFlag_of_ne {key other : String × String} {operation : Operation} {expected : Int}
    (h : flagExpected operation = some (other, expected)) (hne : other ≠ key) :
    changesFlag key operation = false := by
  simp [changesFlag, h, hne]

theorem changesEnvironment_of_ne {key other : String × String} {operation : Operation}
    {expected : Int} (h : environmentExpected operation = some (other, expected))
    (hne : other ≠ key) : changesEnvironment key operation = false := by
  simp [changesEnvironment, h, hne]

/-- The next revision of one flag, seen from any flag. -/
theorem flagMove_putFlag {key : String × String} {operation : Operation} {flag flag' : Flag}
    (hflag : Table.lookup Flag.key flag.key c.flags = some flag)
    (hexpected : flagExpected operation = some (flag.key, flag.revision))
    (harchived : flag.archived = false) (hkey : flag'.key = flag.key)
    (hrevision : flag'.revision = flag.revision + 1) :
    FlagMove operation key (Table.lookup Flag.key key c.flags)
      (Table.lookup Flag.key key (c.putFlag flag').flags) := by
  by_cases hk : flag.key = key
  · subst hk
    have hput : Table.lookup Flag.key flag.key (c.putFlag flag').flags = some flag' := by
      rw [← hkey] at hflag ⊢
      exact Table.lookup_replace_self hflag
    rw [hflag, hput]
    exact .raised hexpected harchived hrevision
  · rw [Store.putFlag, Table.lookup_replace_of_ne _ (hkey ▸ hk)]
    exact .kept (changesFlag_of_ne hexpected hk)

theorem Effect.flagMove (h : Effect rt σ c call response c') (org flagKey : String) :
    FlagMove call.operation (org, flagKey) (c.flag org flagKey) (c'.flag org flagKey) := by
  cases h with
  | @created org' flagKey' name valueType description hop hnone =>
    have hkept : changesFlag (org, flagKey) call.operation = false := by rw [hop]; rfl
    let flag := newFlag σ org' flagKey' name description valueType
    -- The new flag is the one looked at, or another.
    by_cases hk : (org', flagKey') = (org, flagKey)
    · obtain ⟨rfl, rfl⟩ := Prod.mk.inj hk
      rw [hnone, show Store.flag { c with flags := flag :: c.flags } org' flagKey' = some flag from
        Table.lookup_cons_self flag c.flags]
      exact .created hkept rfl
    · rw [show Store.flag { c with flags := flag :: c.flags } org flagKey = c.flag org flagKey from
        Table.lookup_cons_of_ne c.flags hk]
      exact .kept hkept
  | updated hop hflag harchived hrevision =>
    refine flagMove_putFlag (flag_lookup hflag) ?_ harchived rfl rfl
    rw [hop, flag_key hflag, hrevision]
    rfl
  | archived hop hflag harchived hrevision =>
    refine flagMove_putFlag (flag_lookup hflag) ?_ harchived rfl rfl
    rw [hop, flag_key hflag, hrevision]
    rfl
  | environmentCreated hop => exact .kept (by rw [hop]; rfl)
  | environmentRenamed hop => exact .kept (by rw [hop]; rfl)
  | published hop hflag harchived hrevision =>
    refine flagMove_putFlag (flag_lookup hflag) ?_ harchived rfl rfl
    rw [hop, flag_key hflag, hrevision]
    rfl
  | evaluated hop =>
    refine .kept ?_
    cases hoperation : call.operation with
    | evaluate => rfl
    | evaluateBatch => rfl
    | _ =>
      rw [hoperation] at hop
      cases hop

/-- What an operation does to an environment. -/
inductive EnvironmentMove (operation : Operation) (key : String × String) :
    Option Environment → Option Environment → Prop
  | kept {environment : Option Environment} :
      changesEnvironment key operation = false →
      EnvironmentMove operation key environment environment
  | created {environment : Environment} :
      changesEnvironment key operation = false → environment.revision = 1 →
      EnvironmentMove operation key none (some environment)
  | raised {environment environment' : Environment} :
      environmentExpected operation = some (key, environment.revision) →
      environment'.revision = environment.revision + 1 →
      EnvironmentMove operation key (some environment) (some environment')

theorem environmentMove_putEnvironment {key : String × String} {operation : Operation}
    {environment environment' : Environment}
    (henv : Table.lookup Environment.key environment.key c.environments = some environment)
    (hexpected : environmentExpected operation = some (environment.key, environment.revision))
    (hkey : environment'.key = environment.key)
    (hrevision : environment'.revision = environment.revision + 1) :
    EnvironmentMove operation key (Table.lookup Environment.key key c.environments)
      (Table.lookup Environment.key key (c.putEnvironment environment').environments) := by
  by_cases hk : environment.key = key
  · subst hk
    have hput : Table.lookup Environment.key environment.key
        (c.putEnvironment environment').environments = some environment' := by
      rw [← hkey] at henv ⊢
      exact Table.lookup_replace_self henv
    rw [henv, hput]
    exact .raised hexpected hrevision
  · rw [Store.putEnvironment, Table.lookup_replace_of_ne _ (hkey ▸ hk)]
    exact .kept (changesEnvironment_of_ne hexpected hk)

theorem Effect.environmentMove (h : Effect rt σ c call response c') (org environmentKey : String) :
    EnvironmentMove call.operation (org, environmentKey) (c.environment org environmentKey)
      (c'.environment org environmentKey) := by
  cases h with
  | created hop => exact .kept (by rw [hop]; rfl)
  | updated hop => exact .kept (by rw [hop]; rfl)
  | archived hop => exact .kept (by rw [hop]; rfl)
  | @environmentCreated org' environmentKey' name hop hnone =>
    have hkept : changesEnvironment (org, environmentKey) call.operation = false := by
      rw [hop]
      rfl
    let environment := newEnvironment σ org' environmentKey' name
    -- The new environment is the one looked at, or another.
    by_cases hk : (org', environmentKey') = (org, environmentKey)
    · obtain ⟨rfl, rfl⟩ := Prod.mk.inj hk
      rw [hnone, show Store.environment { c with environments := environment :: c.environments }
        org' environmentKey' = some environment from
          Table.lookup_cons_self environment c.environments]
      exact .created hkept rfl
    · rw [show Store.environment { c with environments := environment :: c.environments } org
        environmentKey = c.environment org environmentKey from
          Table.lookup_cons_of_ne c.environments hk]
      exact .kept hkept
  | environmentRenamed hop henv hrevision =>
    refine environmentMove_putEnvironment (environment_lookup henv) ?_ rfl rfl
    rw [hop, environment_key henv, hrevision]
    rfl
  | published hop _ _ _ _ _ henv hrevision =>
    refine environmentMove_putEnvironment (environment_lookup henv) ?_ rfl rfl
    rw [hop, environment_key henv, hrevision]
    rfl
  | evaluated hop =>
    refine .kept ?_
    cases hoperation : call.operation with
    | evaluate => rfl
    | evaluateBatch => rfl
    | _ =>
      rw [hoperation] at hop
      cases hop

/-- What an operation does to the rulesets of a triple. -/
theorem Effect.rulesetMove (h : Effect rt σ c call response c')
    (org flagKey environmentKey : String) :
    (publication org flagKey environmentKey call.operation = none ∧
        c'.rulesetsOf org flagKey environmentKey = c.rulesetsOf org flagKey environmentKey) ∨
      ∃ definition ruleset, publication org flagKey environmentKey call.operation =
          some definition ∧ codec.encodeDefinition definition = some ruleset.definition ∧
        (∃ flag, c.flag org flagKey = some flag ∧ flag.archived = false ∧
          validateRuleset rt flag.valueType definition = .ok ()) ∧
        c'.rulesetsOf org flagKey environmentKey =
          ruleset :: c.rulesetsOf org flagKey environmentKey := by
  cases h with
  | created hop => exact .inl ⟨by rw [hop]; rfl, rfl⟩
  | updated hop => exact .inl ⟨by rw [hop]; rfl, rfl⟩
  | archived hop => exact .inl ⟨by rw [hop]; rfl, rfl⟩
  | environmentCreated hop => exact .inl ⟨by rw [hop]; rfl, rfl⟩
  | environmentRenamed hop => exact .inl ⟨by rw [hop]; rfl, rfl⟩
  | @published org' flagKey' environmentKey' _ _ definition flag _ document hop hflag harchived _ _
      hvalid _ _ _ _ hdocument =>
    -- Only a publication adds a row, and it adds it to its own triple.
    by_cases ht : (org', flagKey', environmentKey') = (org, flagKey, environmentKey)
    · obtain ⟨rfl, rfl, rfl⟩ : org' = org ∧ flagKey' = flagKey ∧
        environmentKey' = environmentKey := by simpa using ht
      refine .inr ⟨definition, ⟨org', flagKey', environmentKey',
        c.published org' flagKey' environmentKey' + 1, document⟩, ?_, hdocument,
        ⟨flag, hflag, harchived, hvalid⟩, List.filter_cons_of_pos (by simp [Ruleset.triple])⟩
      rw [hop]
      exact if_pos rfl
    · refine .inl ⟨?_, List.filter_cons_of_neg (by simpa [Ruleset.triple] using ht)⟩
      rw [hop]
      exact if_neg ht
  | evaluated hop =>
    refine .inl ⟨?_, rfl⟩
    cases hoperation : call.operation with
    | evaluate => rfl
    | evaluateBatch => rfl
    | _ =>
      rw [hoperation] at hop
      cases hop

/-! ## Histories -/

/-- The number of committed calls that took the flag to its next revision. -/
def flagChanges (org flagKey : String) (history : List (Call × Response)) : ℕ :=
  history.countP fun entry => changesFlag (org, flagKey) entry.1.operation

/-- The number of committed calls that took the environment to its next revision. -/
def environmentChanges (org environmentKey : String) (history : List (Call × Response)) : ℕ :=
  history.countP fun entry => changesEnvironment (org, environmentKey) entry.1.operation

/-- The definitions published for the triple, newest first. -/
def publications (org flagKey environmentKey : String) (history : List (Call × Response)) :
    List RulesetDefinition :=
  history.filterMap fun entry => publication org flagKey environmentKey entry.1.operation

theorem changesFlag_of_expected {key : String × String} {operation : Operation} {expected : Int}
    (h : flagExpected operation = some (key, expected)) : changesFlag key operation = true := by
  simp [changesFlag, h]

theorem changesEnvironment_of_expected {key : String × String} {operation : Operation}
    {expected : Int} (h : environmentExpected operation = some (key, expected)) :
    changesEnvironment key operation = true := by
  simp [changesEnvironment, h]

/-- A flag's revision is 1 and one for each call that changed it; one that is not there was never
changed. -/
theorem Run.flag_revision (h : Run rt history c) (org flagKey : String) :
    (c.flag org flagKey = none → flagChanges org flagKey history = 0) ∧
      ∀ flag, c.flag org flagKey = some flag →
        flag.revision = 1 + flagChanges org flagKey history := by
  induction h with
  | nil => exact ⟨fun _ => rfl, nofun⟩
  | @cons history c c' σ call response _ _ _ hfresh ih =>
    obtain ⟨c₁, stored, heffect, -, rfl⟩ := fresh_effect hfresh
    have hmove := heffect.flagMove org flagKey
    change (c₁.flag org flagKey = none → _) ∧ ∀ flag, c₁.flag org flagKey = some flag → _
    simp only [flagChanges, List.countP_cons] at ih ⊢
    generalize c₁.flag org flagKey = after at hmove
    generalize c.flag org flagKey = before at hmove ih
    cases hmove with
    | kept hkept => simpa [hkept] using ih
    | created hkept hone =>
      refine ⟨nofun, fun flag hflag => ?_⟩
      cases hflag
      rw [hone, ih.1 rfl, hkept]
      rfl
    | raised hexpected _ hrevision =>
      refine ⟨nofun, fun flag hflag => ?_⟩
      cases hflag
      rw [hrevision, ih.2 _ rfl, changesFlag_of_expected hexpected, if_pos rfl]
      omega

theorem Run.environment_revision (h : Run rt history c) (org environmentKey : String) :
    (c.environment org environmentKey = none →
        environmentChanges org environmentKey history = 0) ∧
      ∀ environment, c.environment org environmentKey = some environment →
        environment.revision = 1 + environmentChanges org environmentKey history := by
  induction h with
  | nil => exact ⟨fun _ => rfl, nofun⟩
  | @cons history c c' σ call response _ _ _ hfresh ih =>
    obtain ⟨c₁, stored, heffect, -, rfl⟩ := fresh_effect hfresh
    have hmove := heffect.environmentMove org environmentKey
    change (c₁.environment org environmentKey = none → _) ∧
      ∀ environment, c₁.environment org environmentKey = some environment → _
    simp only [environmentChanges, List.countP_cons] at ih ⊢
    generalize c₁.environment org environmentKey = after at hmove
    generalize c.environment org environmentKey = before at hmove ih
    cases hmove with
    | kept hkept => simpa [hkept] using ih
    | created hkept hone =>
      refine ⟨nofun, fun environment henv => ?_⟩
      cases henv
      rw [hone, ih.1 rfl, hkept]
      rfl
    | raised hexpected hrevision =>
      refine ⟨nofun, fun environment henv => ?_⟩
      cases henv
      rw [hrevision, ih.2 _ rfl, changesEnvironment_of_expected hexpected, if_pos rfl]
      omega

/-- The rulesets of a triple are the documents of its publications. -/
theorem Run.publications (h : Run rt history c) (org flagKey environmentKey : String) :
    List.Forall₂ (fun ruleset definition =>
        codec.encodeDefinition definition = some ruleset.definition)
      (c.rulesetsOf org flagKey environmentKey)
      (publications org flagKey environmentKey history) := by
  induction h with
  | nil => exact .nil
  | @cons history c c' σ call response _ _ _ hfresh ih =>
    obtain ⟨c₁, stored, heffect, -, rfl⟩ := fresh_effect hfresh
    change List.Forall₂ _ (c₁.rulesetsOf org flagKey environmentKey) _
    rw [Abstract.publications, List.filterMap_cons]
    rcases heffect.rulesetMove org flagKey environmentKey with
      ⟨hnone, hsame⟩ | ⟨definition, ruleset, hsome, hencode, -, hadded⟩
    · rw [hnone, hsame]
      exact ih
    · rw [hsome, hadded]
      exact .cons hencode ih

/-- What was published was valid for the flag. -/
theorem Run.publications_valid (h : Run rt history c) {org flagKey environmentKey : String}
    {definition : RulesetDefinition}
    (hmem : definition ∈ Abstract.publications org flagKey environmentKey history) :
    ∃ valueType, validateRuleset rt valueType definition = .ok () := by
  induction h with
  | nil => cases hmem
  | @cons history c c' σ call response _ _ _ hfresh ih =>
    obtain ⟨c₁, stored, heffect, -, rfl⟩ := fresh_effect hfresh
    rw [Abstract.publications, List.filterMap_cons] at hmem
    rcases heffect.rulesetMove org flagKey environmentKey with
      ⟨hnone, -⟩ | ⟨_, _, hsome, -, ⟨flag, -, -, hvalid⟩, -⟩
    · rw [hnone] at hmem
      exact ih hmem
    · rw [hsome] at hmem
      rcases List.mem_cons.mp hmem with rfl | hmem
      · exact ⟨flag.valueType, hvalid⟩
      · exact ih hmem

/-! ## Expected revisions of a history -/

/-- A call that expects a revision raises it. -/
theorem FlagMove.of_expected {key : String × String} {operation : Operation}
    {before after : Option Flag} {expected : Int} (h : FlagMove operation key before after)
    (hexpected : flagExpected operation = some (key, expected)) :
    ∃ flag flag', before = some flag ∧ after = some flag' ∧ flag.revision = expected ∧
      flag'.revision = expected + 1 := by
  have hchanges := changesFlag_of_expected hexpected
  cases h with
  | kept hkept =>
    rw [hkept] at hchanges
    cases hchanges
  | created hkept =>
    rw [hkept] at hchanges
    cases hchanges
  | raised hexpected' _ hrevision =>
    rw [hexpected] at hexpected'
    cases hexpected'
    exact ⟨_, _, rfl, rfl, rfl, hrevision⟩

theorem EnvironmentMove.of_expected {key : String × String} {operation : Operation}
    {before after : Option Environment} {expected : Int}
    (h : EnvironmentMove operation key before after)
    (hexpected : environmentExpected operation = some (key, expected)) :
    ∃ environment environment', before = some environment ∧ after = some environment' ∧
      environment.revision = expected ∧ environment'.revision = expected + 1 := by
  have hchanges := changesEnvironment_of_expected hexpected
  cases h with
  | kept hkept =>
    rw [hkept] at hchanges
    cases hchanges
  | created hkept =>
    rw [hkept] at hchanges
    cases hchanges
  | raised hexpected' hrevision =>
    rw [hexpected] at hexpected'
    cases hexpected'
    exact ⟨_, _, rfl, rfl, rfl, hrevision⟩

/-- A flag has passed the revision that a committed call expected. -/
theorem Run.flag_passed (h : Run rt history c) {entry : Call × Response} (hentry : entry ∈ history)
    {org flagKey : String} {expected : Int}
    (hexpected : flagExpected entry.1.operation = some ((org, flagKey), expected)) :
    ∃ flag, c.flag org flagKey = some flag ∧ expected < flag.revision := by
  induction h with
  | nil => cases hentry
  | @cons history c c' σ call response hrun _ _ hfresh ih =>
    obtain ⟨c₁, stored, heffect, -, rfl⟩ := fresh_effect hfresh
    change ∃ flag, c₁.flag org flagKey = some flag ∧ _
    rcases List.mem_cons.mp hentry with rfl | hentry
    · obtain ⟨-, flag, -, hflag, -, hrevision⟩ :=
        (heffect.flagMove org flagKey).of_expected hexpected
      exact ⟨flag, hflag, by omega⟩
    · -- An older call: revisions do not go down.
      obtain ⟨flag, hflag, hlt⟩ := ih hentry
      obtain ⟨flag', hflag', -, -, hle⟩ := heffect.flagChange.persists hflag
      exact ⟨flag', hflag', by omega⟩

theorem Run.environment_passed (h : Run rt history c) {entry : Call × Response}
    (hentry : entry ∈ history) {org environmentKey : String} {expected : Int}
    (hexpected : environmentExpected entry.1.operation = some ((org, environmentKey), expected)) :
    ∃ environment, c.environment org environmentKey = some environment ∧
      expected < environment.revision := by
  induction h with
  | nil => cases hentry
  | @cons history c c' σ call response hrun _ _ hfresh ih =>
    obtain ⟨c₁, stored, heffect, -, rfl⟩ := fresh_effect hfresh
    change ∃ environment, c₁.environment org environmentKey = some environment ∧ _
    rcases List.mem_cons.mp hentry with rfl | hentry
    · obtain ⟨-, environment, -, henv, -, hrevision⟩ :=
        (heffect.environmentMove org environmentKey).of_expected hexpected
      exact ⟨environment, henv, by omega⟩
    · obtain ⟨environment, henv, hlt⟩ := ih hentry
      obtain ⟨environment', henv', hle⟩ := heffect.environmentChange.persists henv
      exact ⟨environment', henv', by omega⟩

/-- No two calls of a history expected the same revision of a flag. -/
theorem Run.flag_expected (h : Run rt history c) :
    history.Pairwise fun entry older => ∀ expected, flagExpected entry.1.operation = some expected →
      flagExpected older.1.operation ≠ some expected := by
  induction h with
  | nil => exact .nil
  | @cons history c c' σ call response hrun _ _ hfresh ih =>
    refine .cons (fun older holder => ?_) ih
    rintro ⟨⟨org, flagKey⟩, expected⟩ hexpected hexpected'
    obtain ⟨flag, hflag, hlt⟩ := hrun.flag_passed holder hexpected'
    obtain ⟨c₁, stored, heffect, -, -⟩ := fresh_effect hfresh
    -- The older call has left the flag above the revision that both expect.
    obtain ⟨before, -, hbefore, -, hrevision, -⟩ :=
      (heffect.flagMove org flagKey).of_expected hexpected
    rw [hflag] at hbefore
    cases hbefore
    omega

theorem Run.environment_expected (h : Run rt history c) :
    history.Pairwise fun entry older => ∀ expected,
      environmentExpected entry.1.operation = some expected →
        environmentExpected older.1.operation ≠ some expected := by
  induction h with
  | nil => exact .nil
  | @cons history c c' σ call response hrun _ _ hfresh ih =>
    refine .cons (fun older holder => ?_) ih
    rintro ⟨⟨org, environmentKey⟩, expected⟩ hexpected hexpected'
    obtain ⟨environment, henv, hlt⟩ := hrun.environment_passed holder hexpected'
    obtain ⟨c₁, stored, heffect, -, -⟩ := fresh_effect hfresh
    obtain ⟨before, -, hbefore, -, hrevision, -⟩ :=
      (heffect.environmentMove org environmentKey).of_expected hexpected
    rw [henv] at hbefore
    cases hbefore
    omega

/-! ## Evaluations of a history -/

/-- The evaluation answers from the newest publication of its triple. -/
def Uses (rt : Runtime) (codec : Codec) (history : List (Call × Response)) (subject : Subject)
    (flagKey : String) (record : EvaluationRecord) : Prop :=
  let published := publications subject.organizationId flagKey subject.environmentKey history
  ∃ definition document decoded variant, published.head? = some definition ∧
    codec.encodeDefinition definition = some document ∧
    codec.decodeDefinition document = some decoded ∧
    record.rulesetRevision = toString (published.length : Int) ∧
    chooseVariant rt subject.organizationId subject.environmentKey flagKey subject.targetingKey
      subject.attributes decoded = .ok (variant, record.reason) ∧
    record.variantKey = variant.variantKey ∧ record.value = variant.value

/-- Under an exact codec it answers from the definition that was published last, as its revision
says. -/
theorem Uses.published (hrun : Run rt history c) (hexact : codec.ExactDefinitions rt)
    {subject : Subject} {flagKey : String} {record : EvaluationRecord}
    (h : Uses rt codec history subject flagKey record) :
    let published := publications subject.organizationId flagKey subject.environmentKey history
    ∃ definition variant, published.head? = some definition ∧
      record.rulesetRevision = toString (published.length : Int) ∧
      chooseVariant rt subject.organizationId subject.environmentKey flagKey subject.targetingKey
        subject.attributes definition = .ok (variant, record.reason) ∧
      record.variantKey = variant.variantKey ∧ record.value = variant.value := by
  obtain ⟨definition, document, decoded, variant, hhead, hencode, hdecode, hrest⟩ := h
  obtain ⟨valueType, hvalid⟩ := hrun.publications_valid (List.mem_of_head? hhead)
  rw [hexact hvalid hencode] at hdecode
  cases hdecode
  exact ⟨definition, variant, hhead, hrest⟩

/-- An evaluation on the store of a history. -/
theorem Run.uses (h : Run rt history c) {command : Command} {operation : String}
    {subject : Subject} {at_ : String × ℕ} {result : EvaluationRecord × Receipt}
    (heval : Evaluated rt σ c command operation subject at_ result) :
    Uses rt codec history subject at_.1 result.1 := by
  obtain ⟨variant, reason, revision, hchoose, rfl⟩ := heval.choice
  obtain ⟨flag, ruleset, decoded, -, -, hlatest, hdecode, -, hvariant, rfl⟩ := choose_eq_ok hchoose
  have hpublished := h.publications subject.organizationId at_.1 subject.environmentKey
  have hlength := published_eq_length h.sound.numbered subject.organizationId at_.1
    subject.environmentKey
  rw [Store.published, hlatest] at hlength
  rw [Store.latest] at hlatest
  unfold Uses
  generalize Abstract.publications subject.organizationId at_.1 subject.environmentKey history =
    published at hpublished
  generalize c.rulesetsOf subject.organizationId at_.1 subject.environmentKey = rulesets
    at hpublished hlatest hlength
  have hsame := hpublished.length_eq
  cases hpublished with
  | nil => cases hlatest
  | @cons _ definition _ rest hencode _ =>
    cases hlatest
    refine ⟨definition, ruleset.definition, decoded, variant, rfl, hencode, hdecode, ?_, hvariant,
      rfl, rfl⟩
    change toString ruleset.revision = _
    rw [show ruleset.revision = _ from hlength, hsame]

/-- The evaluations of a committed call, on the store it found. -/
theorem Commits.evaluated {log : List (Serial.Entry Call Draws Answer)} (h : Commits rt log c)
    {e : Serial.Entry Call Draws Answer} (he : e ∈ log) {response : Response}
    (hvalue : e.value = .fresh response) {subject : Subject} {flagKeys : List String}
    (hop : evaluates e.call.operation = some (subject, flagKeys)) :
    ∃ (older newer : List (Serial.Entry Call Draws Answer)) (c₀ : Store codec) (σ : Stamp)
      (results : List (EvaluationRecord × Receipt)),
      log = newer ++ e :: older ∧ Commits rt older c₀ ∧
        List.Forall₂ (Evaluated rt σ c₀ e.call.command e.call.operation.name subject)
          flagKeys.zipIdx results ∧ response.records = results.map (·.1) := by
  obtain ⟨older, newer, c₀, c₁, σ, hlog, hold, -, hattempt⟩ := h.of_mem he
  rw [hvalue] at hattempt
  rcases attempt_eq_ok hattempt with ⟨_, hreplayed, -, -⟩ | ⟨_, hresponse, -, hfresh⟩
  · cases hreplayed
  cases hresponse
  obtain ⟨c₂, stored, heffect, -, rfl⟩ := fresh_effect hfresh
  cases heffect with
  | @evaluated subject' flagKeys' results _ hop' hresults _ hrecords =>
    rw [hop] at hop'
    cases hop'
    exact ⟨older, newer, c₀, σ, results, hlog, hold, evaluateFrom_eq_ok.mp hresults, hrecords⟩
  | _ hop' =>
    rw [hop'] at hop
    cases hop

/-! ## Accounts -/

/-- What a store and its log have to do with each other. -/
structure Accounts (rt : Runtime) (c : Store codec)
    (log : List (Serial.Entry Call Draws Answer)) : Prop where
  flag : ∀ org flagKey flag, c.flag org flagKey = some flag →
    flag.revision = 1 + flagChanges org flagKey (LensoFlags.history log)
  environment : ∀ org environmentKey environment,
    c.environment org environmentKey = some environment →
      environment.revision = 1 + environmentChanges org environmentKey (LensoFlags.history log)
  /-- Newest first, the revisions are `n, …, 1` for `n` publications. -/
  revisions : ∀ org flagKey environmentKey,
    (c.rulesetsOf org flagKey environmentKey).map (·.revision) =
      countdown (publications org flagKey environmentKey (LensoFlags.history log)).length
  definitions : ∀ org flagKey environmentKey,
    List.Forall₂ (fun ruleset definition =>
        codec.encodeDefinition definition = some ruleset.definition)
      (c.rulesetsOf org flagKey environmentKey)
      (publications org flagKey environmentKey (LensoFlags.history log))
  evaluated : ∀ e ∈ log, ∀ response subject flagKeys, e.value = .fresh response →
    evaluates e.call.operation = some (subject, flagKeys) →
      ∃ older newer, log = newer ++ e :: older ∧
        List.Forall₂ (Uses rt codec (LensoFlags.history older) subject) flagKeys response.records
  lifecycle : ∀ flag ∈ c.flags, flag.archived = flag.archivedAt.isSome

theorem Commits.accounts {log : List (Serial.Entry Call Draws Answer)} (h : Commits rt log c) :
    Accounts rt c log where
  flag := fun org flagKey => (h.run.flag_revision org flagKey).2
  environment := fun org environmentKey => (h.run.environment_revision org environmentKey).2
  revisions := by
    intro org flagKey environmentKey
    rw [← (h.run.publications org flagKey environmentKey).length_eq]
    exact h.run.sound.numbered (org, flagKey, environmentKey)
  definitions := h.run.publications
  evaluated := by
    intro e he response subject flagKeys hvalue hop
    obtain ⟨older, newer, c₀, σ, results, hlog, hold, hresults, hrecords⟩ :=
      h.evaluated he hvalue hop
    refine ⟨older, newer, hlog, ?_⟩
    rw [hrecords, List.forall₂_map_right_iff]
    have hall := hresults.imp fun at_ result heval => hold.run.uses heval
    have hkeys : (flagKeys.zipIdx).map Prod.fst = flagKeys := List.zipIdx_map_fst ..
    rw [← hkeys, List.forall₂_map_left_iff]
    exact hall
  lifecycle := fun flag hflag => (h.run.sound.lifecycle flag hflag).symm

/-! ## Archived flags -/

/-- What an operation works on: the flags it changes or evaluates. -/
def concerns (org flagKey : String) (operation : Operation) : Prop :=
  changesFlag (org, flagKey) operation = true ∨ ∃ subject flagKeys,
    evaluates operation = some (subject, flagKeys) ∧ subject.organizationId = org ∧
      flagKey ∈ flagKeys

/-- Nothing concerns an archived flag any more. -/
theorem Effect.archived_frozen (h : Effect rt σ c call response c') {org flagKey : String}
    {flag : Flag} (hflag : c.flag org flagKey = some flag) (harchived : flag.archived = true) :
    c'.flag org flagKey = some flag ∧
      (∀ environmentKey, c'.rulesetsOf org flagKey environmentKey =
        c.rulesetsOf org flagKey environmentKey) ∧ ¬concerns org flagKey call.operation := by
  have hmove := h.flagMove org flagKey
  have hkept : changesFlag (org, flagKey) call.operation = false ∧
      c'.flag org flagKey = some flag := by
    rw [hflag] at hmove
    generalize c'.flag org flagKey = after at hmove
    cases hmove with
    | kept hkept => exact ⟨hkept, rfl⟩
    | raised _ hnot =>
      rw [harchived] at hnot
      cases hnot
  refine ⟨hkept.2, fun environmentKey => ?_, ?_⟩
  · rcases h.rulesetMove org flagKey environmentKey with
      ⟨-, hsame⟩ | ⟨_, _, -, -, ⟨flag', hflag', hnot, -⟩, -⟩
    · exact hsame
    · rw [hflag] at hflag'
      cases hflag'
      rw [harchived] at hnot
      cases hnot
  · rintro (hchanges | ⟨subject, flagKeys, hop, rfl, hmem⟩)
    · rw [hkept.1] at hchanges
      cases hchanges
    · cases h with
      | evaluated hop' hresults =>
        rw [hop] at hop'
        cases hop'
        -- An evaluation of the flag would have chosen a variant of it, which needs it not archived.
        have hforall := evaluateFrom_eq_ok.mp hresults
        rw [← List.zipIdx_map_fst 0 flagKeys] at hmem
        obtain ⟨at_, hat, rfl⟩ := List.mem_map.mp hmem
        obtain ⟨result, -, heval⟩ := Table.exists_of_mem_right hforall.flip hat
        obtain ⟨variant, reason, revision, hchoose, -⟩ := Evaluated.choice heval
        obtain ⟨flag', -, -, hflag', hnot, -⟩ := choose_eq_ok hchoose
        rw [hflag] at hflag'
        cases hflag'
        rw [harchived] at hnot
        cases hnot
      | _ hop' =>
        rw [hop'] at hop
        cases hop

/-- The operations expect the same revision of one flag or environment. -/
def Contend (operation operation' : Operation) : Prop :=
  (∃ expected, flagExpected operation = some expected ∧
      flagExpected operation' = some expected) ∨
    ∃ expected, environmentExpected operation = some expected ∧
      environmentExpected operation' = some expected

theorem Contend.symm {operation operation' : Operation} (h : Contend operation operation') :
    Contend operation' operation :=
  h.imp (fun ⟨expected, hl, hr⟩ => ⟨expected, hr, hl⟩) fun ⟨expected, hl, hr⟩ => ⟨expected, hr, hl⟩

theorem Run.not_contend (h : Run rt history c) :
    history.Pairwise fun entry older => ¬Contend entry.1.operation older.1.operation := by
  refine (h.flag_expected.and h.environment_expected).imp ?_
  rintro entry older ⟨hflag, henv⟩ (⟨expected, hl, hr⟩ | ⟨expected, hl, hr⟩)
  · exact hflag expected hl hr
  · exact henv expected hl hr

end LensoFlags.Abstract
