import LensoFlags.D1.Delivery
import LensoFlags.Postgres.Serializable
import LensoFlags.Abstract.Evaluation

/-!
# Evaluations of the two backends

Results:
1. `D1.call_evaluates`, `Postgres.alone_evaluates`: an evaluation run alone on a reachable store
   answers what the abstract store answers.
2. `batch_agrees`: a batch answers with the single evaluations of its flags, or as the first that
   fails.
3. `published_evaluates`: what the validator let through goes on to evaluate.
-/

namespace LensoFlags

open Abstract (Subject Sound Calm)

variable {codec : Codec} {describe : Postgres.DbError → String} {rt : Runtime}

/-- Agreement leaves open only which error outside the domain it is. -/
theorem Agree.eq_of_domain {x y : Result} (h : Agree (· = ·) x y)
    (hdomain : ∀ e, y = .error e → ∃ failure, e = .domain failure) : x = y := by
  cases h with
  | ok heq => rw [heq]
  | domain failure => rfl
  | other _ he =>
    obtain ⟨failure, rfl⟩ := hdomain _ rfl
    cases he

namespace Abstract

variable {σ : Stamp} {c : Store codec} {subject : Subject}

theorem exec_evaluate_domain (hs : Sound rt c) (hcodec : codec.Evaluable rt) {command : Command}
    {flagKey : String} (hnew : c.command (command.rowKey "evaluate") = none) (e : StorageError)
    (h : (exec rt σ c (subject.evaluate command flagKey)).1 = .error e) :
    ∃ failure, e = .domain failure := by
  rw [exec_evaluate hs hcodec hnew] at h
  rcases choose_cases hs hcodec subject flagKey with ⟨_, _, _, hok, -⟩ | ⟨failure, hfailure⟩
  · rw [hok] at h
    cases h
  · rw [hfailure] at h
    cases h
    exact ⟨failure, rfl⟩

end Abstract

/-! ## D1 -/

section D1

variable {s : D1.State codec} {c : Abstract.Store codec}

/-- A call run alone, when the abstract one fails in the domain only. -/
theorem D1.call_evaluates (hi : D1.Inv rt s) (hr : D1.Represents s.tables c)
    (hlogged : Abstract.Logged rt s.log c) (hcodec : codec.Evaluable rt) {δ : Draws}
    (hδ : D1.Unused s δ) {call : Call}
    (hdomain : ∀ e, (Abstract.exec rt (D1.stamp rt δ s.tables) c call).1 = .error e →
      ∃ failure, e = .domain failure) :
    (D1.call rt δ s.tables call).1 = (Abstract.exec rt (D1.stamp rt δ s.tables) c call).1 := by
  rcases D1.call_cases hr hlogged.run.sound (hi.unused_fresh hlogged hr hδ) hi.range call with
    ⟨hagree, -⟩ | ⟨-, ruleset, hruleset, hnone⟩
  · exact hagree.eq_of_domain hdomain
  · obtain ⟨_, definition, -, hencode, hvalid⟩ := hlogged.run.sound.typed ruleset hruleset
    obtain ⟨decoded, hdecode⟩ := hcodec.decodes hvalid hencode
    rw [hnone] at hdecode
    cases hdecode

theorem D1.Represents.new (hr : D1.Represents s.tables c) {key : CommandKey}
    (hnew : s.tables.command key = none) : c.command key = none := by
  rw [hr.command, hnew]
  rfl

end D1

/-! ## Published rulesets in D1 -/

section D1

variable {s s' : D1.State codec} {c : Abstract.Store codec}

/-- What the tables hold of a flag that is served. -/
theorem D1.Represents.served (hr : D1.Represents s.tables c) {subject : Subject} {flagKey : String}
    {row : D1.FlagRow} {ruleset : D1.RulesetRow codec}
    (hflag : s.tables.flag subject.organizationId flagKey = some row)
    (hactive : row.record.archived = false)
    (henvironment : (s.tables.environment subject.organizationId subject.environmentKey).isSome)
    (hruleset : ruleset ∈ s.tables.rulesets)
    (htriple : ruleset.triple = (subject.organizationId, flagKey, subject.environmentKey)) :
    ∃ flag ruleset, Abstract.Served c subject flagKey flag ruleset := by
  rw [hr.flag, Option.map_eq_some_iff] at hflag
  obtain ⟨flag, hflag, rfl⟩ := hflag
  rw [hr.environment, Option.isSome_map] at henvironment
  have hmem : ruleset.ruleset ∈
      c.rulesetsOf subject.organizationId flagKey subject.environmentKey := by
    rw [hr.rulesetsOf]
    exact List.mem_map_of_mem (List.mem_filter.mpr ⟨hruleset, by simpa using htriple⟩)
  obtain ⟨newest, hnewest⟩ := Option.isSome_iff_exists.mp
    (List.isSome_head?.mpr (List.ne_nil_of_mem hmem))
  exact ⟨flag, newest, hflag, hactive, henvironment, hnewest⟩

theorem D1.typed (h : D1.Reachable rt s) (hexact : codec.ExactDefinitions rt)
    {row : D1.RulesetRow codec} (hrow : row ∈ s.tables.rulesets) :
    ∃ flag definition, s.tables.flag row.organizationId row.flagKey = some flag ∧
      codec.decodeDefinition row.definition = some definition ∧
      validateRuleset rt flag.record.valueType definition = .ok () := by
  obtain ⟨c, hr, hlogged⟩ := (D1.Inv.reachable h).represented
  have hmem : row.ruleset ∈ c.rulesets := by
    rw [← hr.rulesets]
    exact List.mem_map_of_mem hrow
  obtain ⟨flag, definition, hflag, hencode, hvalid⟩ := hlogged.run.sound.typed _ hmem
  refine ⟨D1.FlagRow.of flag, definition, ?_, hexact hvalid hencode, hvalid⟩
  rw [hr.flag, show c.flag row.organizationId row.flagKey = some flag from hflag]
  rfl

theorem D1.evaluates_published (h : D1.Reachable rt s) (hexact : codec.ExactDefinitions rt)
    (hcodec : codec.Evaluable rt) {subject : Subject} {flagKey : String} {row : D1.FlagRow}
    {ruleset : D1.RulesetRow codec} {command : Command} {δ : Draws}
    (hflag : s.tables.flag subject.organizationId flagKey = some row)
    (hactive : row.record.archived = false)
    (henvironment : (s.tables.environment subject.organizationId subject.environmentKey).isSome)
    (hruleset : ruleset ∈ s.tables.rulesets)
    (htriple : ruleset.triple = (subject.organizationId, flagKey, subject.environmentKey))
    (hnew : s.tables.command (command.rowKey "evaluate") = none) (hδ : D1.Unused s δ) :
    ∃ record, (D1.call rt δ s.tables (subject.evaluate command flagKey)).1 =
      .ok (.fresh (.evaluation record)) := by
  have hi := D1.Inv.reachable h
  obtain ⟨c, hr, hlogged⟩ := hi.represented
  have hs := hlogged.run.sound
  obtain ⟨flag, newest, hserved⟩ := hr.served hflag hactive henvironment hruleset htriple
  obtain ⟨choice, hchoice⟩ := Abstract.choose_of_published hs hexact hserved
  rw [D1.call_evaluates hi hr hlogged hcodec hδ
    (Abstract.exec_evaluate_domain hs hcodec (hr.new hnew)),
    Abstract.exec_evaluate hs hcodec (hr.new hnew), hchoice]
  exact ⟨_, rfl⟩

/-- An evaluation that has answered has not failed over its ruleset. -/
def D1.CalmAttempt (a : D1.Attempt codec) : Prop :=
  ∀ failure, (Abstract.evaluates a.call.operation).isSome →
    a.phase = .returned (.error (.domain failure)) → Calm failure

theorem D1.replay_calm {kind : Kind} {rows : List (D1.CommandRow codec)} {command : Command}
    {failure : DomainFailure} (h : D1.replay kind rows command = .error (.domain failure)) :
    Calm failure := by
  unfold D1.replay at h
  split at h
  · cases h
  · split at h
    · cases h
      exact ⟨by decide, by decide⟩
    · next row _ =>
      cases hdecode : decodeResponse codec kind row.response with
      | none =>
        rw [hdecode] at h
        cases h
      | some response =>
        rw [hdecode] at h
        cases h
  · cases h

theorem D1.reconcile_calm {t : D1.Tables codec} {call : Call} {failure : DomainFailure}
    (h : D1.reconcile t call = .error (.domain failure)) : Calm failure := by
  unfold D1.reconcile at h
  cases hreplay : D1.replay call.operation.kind
      (t.commands.filter fun row => row.key = call.commandKey) call.command with
  | error e =>
    simp only [hreplay] at h
    cases h
    exact D1.replay_calm hreplay
  | ok found =>
    simp only [hreplay] at h
    cases found <;> cases h

/-- The decision on a snapshot of a reachable state. -/
theorem D1.Inv.prepare_calm (hi : D1.Inv rt s) (hexact : codec.ExactDefinitions rt) {i : ℕ}
    {a : D1.Attempt codec} (ha : s.attempts i = some a) (hphase : a.phase = .issued)
    (hop : (Abstract.evaluates a.call.operation).isSome) {failure : DomainFailure}
    (h : D1.prepare rt a.draws s.tables a.call = .error (.domain failure)) : Calm failure := by
  have hnone : a.submitted = none := by
    have hsettled := (hi.sane i a ha).settled
    rwa [hphase] at hsettled
  obtain ⟨c, hr, hlogged, hfresh⟩ := hi.fresh ha (fun b hb => by rw [hnone] at hb; cases hb)
  rcases D1.prepare_cases hr hlogged.run.sound hfresh hi.range a.call with hagree | ⟨herror, -⟩
  · rw [h] at hagree
    exact Abstract.attempt_calm hlogged.run.sound hexact hop hagree.of_domain
  · rw [h] at herror
    cases herror

theorem D1.Step.calm (hi : D1.Inv rt s) (hexact : codec.ExactDefinitions rt) (h : D1.Step rt s s')
    (hcalm : ∀ i a, s.attempts i = some a → D1.CalmAttempt a) :
    ∀ i a, s'.attempts i = some a → D1.CalmAttempt a := by
  -- Only the attempt that moves can come to return, by what it moves on.
  have hmove : ∀ {i : ℕ} {u : D1.Attempt codec}, D1.CalmAttempt u →
      ∀ j a, Function.update s.attempts i (some u) j = some a → D1.CalmAttempt a := by
    intro i u hu j a ha
    rcases D1.attempt_cases ha with ⟨rfl, rfl⟩ | ⟨-, ha⟩
    · exact hu
    · exact hcalm j a ha
  cases h with
  | issue => exact hmove fun _ _ hphase => by cases hphase
  | @snapshot i a ha hphase =>
    refine hmove fun failure hop hreturned => ?_
    rw [a.planned_call] at hop
    cases hprepare : D1.prepare rt a.draws s.tables a.call with
    | error e =>
      rw [hprepare] at hreturned
      cases hreturned
      exact hi.prepare_calm hexact ha hphase hop hprepare
    | ok planned =>
      rw [hprepare] at hreturned
      cases planned with
      | answered response => cases hreturned
      | commit statements response => cases hreturned
  | lost => exact hmove fun _ _ hphase => by cases hphase
  | apply ha => exact hmove fun failure hop hphase => hcalm _ _ ha failure hop hphase
  | reject ha => exact hmove fun failure hop hphase => hcalm _ _ ha failure hop hphase
  | acknowledge => exact hmove fun _ _ hphase => by cases hphase
  | fail => exact hmove fun _ _ hphase => by cases hphase
  | reconcile =>
    refine hmove fun failure _ hreturned => ?_
    exact D1.reconcile_calm (D1.Phase.returned.inj hreturned)
  | reconcileLost => exact hmove fun _ _ hphase => by cases hphase

theorem D1.calm (h : D1.Reachable rt s) (hexact : codec.ExactDefinitions rt) :
    ∀ i a, s.attempts i = some a → D1.CalmAttempt a := by
  induction h with
  | refl => exact fun _ _ h => nomatch h
  | tail hrun hstep ih => exact hstep.calm (D1.Inv.reachable hrun) hexact ih

end D1

/-! ## PostgreSQL -/

section Postgres

variable {s : Postgres.State codec describe rt} {c : Abstract.Store codec}

/-- Draws that no session has made. -/
def Postgres.Unused (s : Postgres.State codec describe rt) (δ : Draws) : Prop :=
  Postgres.Unrepeated δ ∧ ∀ j t, s.sessions j = some t → Postgres.Unshared δ t.draws

theorem Postgres.Inv.unused_fresh (hi : Postgres.Inv s) (hc : Postgres.Content rt s.log s.store c)
    {δ : Draws} (hδ : Postgres.Unused s δ) (operation : Operation) :
    (Postgres.stamp rt δ operation).Fresh c := by
  refine hc.fresh hδ.1 (fun e he => ?_) operation
  obtain ⟨t, ht, -, hdraws, -⟩ := hi.locking.logged e he
  rw [← hdraws]
  exact hδ.2 _ t ht

/-- A call run alone, when it creates nothing and the abstract one fails in the domain only. -/
theorem Postgres.alone_evaluates (hi : Postgres.Inv s) (hc : Postgres.Content rt s.log s.store c)
    {δ : Draws} (hδ : Postgres.Unused s δ) {call : Call}
    (hop : (Abstract.evaluates call.operation).isSome)
    (hdomain : ∀ e, (Abstract.exec rt (Postgres.stamp rt δ call.operation) c call).1 = .error e →
      ∃ failure, e = .domain failure) :
    ((Postgres.store codec describe rt).alone δ s.store call).1 =
      (Abstract.exec rt (Postgres.stamp rt δ call.operation) c call).1 := by
  rcases Postgres.alone_cases describe hc.represents hc.sound
    (hi.unused_fresh hc hδ call.operation) with ⟨hagree, -⟩ | ⟨_, _, _, _, _, _, hcreate, -⟩
  · exact hagree.eq_of_domain hdomain
  · rw [hcreate] at hop
    cases hop

theorem Postgres.Represents.new {t : Postgres.Tables codec} (hr : Postgres.Represents rt t c)
    {key : CommandKey} (hnew : t.command key = none) : c.command key = none := by
  rw [hr.command] at hnew
  exact Option.map_eq_none_iff.mp hnew

end Postgres

/-! ## Published rulesets in PostgreSQL -/

section Postgres

variable {s : Postgres.State codec describe rt} {c : Abstract.Store codec}

/-- What the tables hold of a flag that is served. -/
theorem Postgres.Rows.served {t : Postgres.Tables codec} (hr : Postgres.Rows rt t c)
    {subject : Subject} {flagKey : String} {row : Postgres.FlagRow}
    {ruleset : Postgres.RulesetRow codec}
    (hflag : t.flag subject.organizationId flagKey = some row) (hactive : row.archived = false)
    (henvironment : (t.environment subject.organizationId subject.environmentKey).isSome)
    (hruleset : ruleset ∈ t.rulesetsOf subject.organizationId flagKey subject.environmentKey) :
    ∃ flag ruleset, Abstract.Served c subject flagKey flag ruleset := by
  have hmem := List.mem_map_of_mem (f := Postgres.RulesetRow.of) hruleset
  rw [← hr.rulesetsOf] at hmem
  obtain ⟨newest, hnewest⟩ := Option.isSome_iff_exists.mp
    (List.isSome_head?.mpr (List.ne_nil_of_mem hmem))
  exact ⟨row.flag rt, newest, by rw [hr.flag, hflag]; rfl, hactive,
    by rw [hr.environment, Option.isSome_map]; exact henvironment, hnewest⟩

theorem Postgres.typed (h : Postgres.Reachable s) (hexact : codec.ExactDefinitions rt)
    {row : Postgres.RulesetRow codec} (hrow : row ∈ s.store.rulesets) :
    ∃ flag definition, s.store.flag row.organizationId row.flagKey = some flag ∧
      codec.decodeDefinition row.ruleset = some definition ∧
      validateRuleset rt flag.valueType definition = .ok () := by
  obtain ⟨c, hc⟩ := (Postgres.Inv.reachable h).content
  have hr := hc.represents.rows
  have hmem : Postgres.RulesetRow.of row ∈ c.rulesets := by
    rw [← hr.rulesets]
    exact List.mem_map_of_mem hrow
  obtain ⟨flag, definition, hflag, hencode, hvalid⟩ := hc.sound.typed _ hmem
  have hflag' : c.flag row.organizationId row.flagKey = some flag := hflag
  rw [hr.flag, Option.map_eq_some_iff] at hflag'
  obtain ⟨found, hfound, rfl⟩ := hflag'
  exact ⟨found, definition, hfound, hexact hvalid hencode, hvalid⟩

theorem Postgres.evaluates_published (h : Postgres.Reachable s) (hexact : codec.ExactDefinitions rt)
    (hcodec : codec.Evaluable rt) {subject : Subject} {flagKey : String} {row : Postgres.FlagRow}
    {ruleset : Postgres.RulesetRow codec} {command : Command} {δ : Draws}
    (hflag : s.store.flag subject.organizationId flagKey = some row)
    (hactive : row.archived = false)
    (henvironment : (s.store.environment subject.organizationId subject.environmentKey).isSome)
    (hruleset : ruleset ∈ s.store.rulesetsOf subject.organizationId flagKey subject.environmentKey)
    (hnew : s.store.command (command.rowKey "evaluate") = none) (hδ : Postgres.Unused s δ) :
    ∃ record, ((Postgres.store codec describe rt).alone δ s.store
      (subject.evaluate command flagKey)).1 = .ok (.fresh (.evaluation record)) := by
  have hi := Postgres.Inv.reachable h
  obtain ⟨c, hc⟩ := hi.content
  have hs := hc.sound
  have hr := hc.represents
  obtain ⟨flag, newest, hserved⟩ := hr.rows.served hflag hactive henvironment hruleset
  obtain ⟨choice, hchoice⟩ := Abstract.choose_of_published hs hexact hserved
  rw [Postgres.alone_evaluates hi hc hδ rfl
    (Abstract.exec_evaluate_domain hs hcodec (hr.new hnew)),
    Abstract.exec_evaluate hs hcodec (hr.new hnew), hchoice]
  exact ⟨_, rfl⟩

/-- The errors of the validator rest on locked reads: such an evaluation would have failed alone on
a committed state, where the ruleset is valid. -/
theorem Postgres.calm (h : Postgres.Reachable s) (hexact : codec.ExactDefinitions rt) {i : ℕ}
    {t : (Postgres.store codec describe rt).Session} (ht : s.sessions i = some t)
    (hop : (Abstract.evaluates t.call.operation).isSome) {failure : DomainFailure}
    (hout : t.outcome = some (.error (.domain failure))) : Calm failure := by
  have hi := Postgres.Inv.reachable h
  by_contra hnot
  have hlax : ¬Postgres.lax (.domain failure) := by
    intro hlax
    refine hnot ⟨fun heq => hlax.1 (by rw [heq]), fun heq => hlax.2 (by rw [heq])⟩
  rcases hi.locking.failed i t _ ht hout hlax with ⟨detail, hinterrupt⟩ | ⟨log, u, hsuffix, hruns,
    halone⟩
  · cases hinterrupt
  · obtain ⟨c, hc⟩ := Postgres.content_of_runs hruns (hi.drawn.of_suffix hsuffix)
    have hunshared : ∀ e ∈ log, Postgres.Unshared t.draws e.draws := by
      intro e he
      have he' := hsuffix.mem he
      obtain ⟨u, hu, -, hdraws, -⟩ := hi.locking.logged e he'
      rw [← hdraws]
      exact hi.unshared i _ t u (hi.error_notLogged ht hout e he').symm ht hu
    have hσ := hc.fresh (hi.unrepeated i t ht) hunshared t.call.operation
    rcases Postgres.alone_cases describe hc.represents hc.sound hσ with
      ⟨hagree, -⟩ | ⟨_, _, _, _, _, _, hcreate, -⟩
    · rw [halone] at hagree
      have hexec := hagree.of_domain
      unfold Abstract.exec at hexec
      cases hattempt : Abstract.attempt rt (Postgres.stamp rt t.draws t.call.operation) c t.call with
      | error e =>
        rw [hattempt] at hexec
        cases hexec
        exact hnot (Abstract.attempt_calm hc.sound hexact hop hattempt)
      | ok outcome =>
        rw [hattempt] at hexec
        cases hexec
    · rw [hcreate] at hop
      cases hop

end Postgres

/-! ## Batches -/

/-- Calls made one after another leave the later draws unused. -/
theorem D1.exists_unused (rt : Runtime) (calls : List Call) (hroom : calls.length < Decimal.i64Max) :
    ∃ s : D1.State codec, D1.Reachable rt s ∧
      s.tables = D1.tablesAfter rt 0 D1.Tables.empty calls ∧
      ∀ n, calls.length ≤ n → D1.Unused s (Draws.numbered n) := by
  obtain ⟨s, h, htables, -, hattempts⟩ := @D1.Reachable.calls codec rt D1.State.initial
    (fun _ => True) 0 .refl (fun _ _ h => nomatch h) le_rfl calls (fun _ _ => trivial)
    (by rwa [Nat.zero_add])
  refine ⟨s, h, htables, fun n hn => ⟨Draws.numbered_distinct n, fun j a ha => ?_⟩⟩
  obtain ⟨hj, hdraws, -⟩ := hattempts j a ha
  rw [hdraws]
  exact Draws.numbered_disjoint (by omega)

theorem Postgres.exists_unused (describe : Postgres.DbError → String) (rt : Runtime)
    (calls : List Call) :
    ∃ s : Postgres.State codec describe rt, Postgres.Reachable s ∧
      s.store = Postgres.tablesAfter describe rt 0 Postgres.Tables.empty calls ∧
      ∀ n, calls.length ≤ n → Postgres.Unused s (Draws.numbered n) := by
  obtain ⟨s, h, hstore, -, hidle⟩ := @Postgres.exists_idle codec describe rt calls
  refine ⟨s, h, hstore, fun n hn => ⟨.numbered n, fun j t ht => ?_⟩⟩
  obtain ⟨hj, hdraws, -⟩ := hidle j t ht
  rw [hdraws]
  exact .numbered (by omega)

/-- The first calls, made one after another in each backend: what they left is known, and draw 4 is
unused. -/
theorem exists_first (rt : Runtime) (describe : Postgres.DbError → String) :
    (∃ s : D1.State codec, D1.Reachable rt s ∧
      s.tables = D1.tablesAfter rt 0 D1.Tables.empty firstCalls ∧
      D1.Unused s (Draws.numbered 4)) ∧
    ∃ s : Postgres.State codec describe rt, Postgres.Reachable s ∧
      s.store = Postgres.tablesAfter describe rt 0 Postgres.Tables.empty firstCalls ∧
      Postgres.Unused s (Draws.numbered 4) := by
  obtain ⟨s, h, htables, hunused⟩ := @D1.exists_unused codec rt firstCalls (by decide)
  obtain ⟨s', h', hstore, hunused'⟩ := @Postgres.exists_unused codec describe rt firstCalls
  exact ⟨⟨s, h, htables, hunused 4 le_rfl⟩, s', h', hstore, hunused' 4 le_rfl⟩

/-- Every stored ruleset is valid for the current type of its flag. A flag that is not archived and
has a publication in an existing environment evaluates for every context, and no evaluation, in
whatever company, fails over its ruleset. -/
theorem published_evaluates (hexact : codec.ExactDefinitions rt) (hcodec : codec.Evaluable rt)
    (describe : Postgres.DbError → String) :
    (∀ s : D1.State codec, D1.Reachable rt s →
      (∀ row ∈ s.tables.rulesets, ∃ flag definition,
        s.tables.flag row.organizationId row.flagKey = some flag ∧
          codec.decodeDefinition row.definition = some definition ∧
          validateRuleset rt flag.record.valueType definition = .ok ()) ∧
      (∀ (subject : Subject) flagKey flag ruleset command δ,
        s.tables.flag subject.organizationId flagKey = some flag → flag.record.archived = false →
        (s.tables.environment subject.organizationId subject.environmentKey).isSome →
        ruleset ∈ s.tables.rulesets →
        ruleset.triple = (subject.organizationId, flagKey, subject.environmentKey) →
        s.tables.command (command.rowKey "evaluate") = none → D1.Unused s δ →
        ∃ record, (D1.call rt δ s.tables (subject.evaluate command flagKey)).1 =
          .ok (.fresh (.evaluation record))) ∧
      ∀ i a failure, s.attempts i = some a → (Abstract.evaluates a.call.operation).isSome →
        a.phase = .returned (.error (.domain failure)) →
        failure ≠ .typeMismatch ∧ failure ≠ .invalidRuleset) ∧
    ∀ s : Postgres.State codec describe rt, Postgres.Reachable s →
      (∀ row ∈ s.store.rulesets, ∃ flag definition,
        s.store.flag row.organizationId row.flagKey = some flag ∧
          codec.decodeDefinition row.ruleset = some definition ∧
          validateRuleset rt flag.valueType definition = .ok ()) ∧
      (∀ (subject : Subject) flagKey flag ruleset command δ,
        s.store.flag subject.organizationId flagKey = some flag → flag.archived = false →
        (s.store.environment subject.organizationId subject.environmentKey).isSome →
        ruleset ∈ s.store.rulesetsOf subject.organizationId flagKey subject.environmentKey →
        s.store.command (command.rowKey "evaluate") = none → Postgres.Unused s δ →
        ∃ record, ((Postgres.store codec describe rt).alone δ s.store
          (subject.evaluate command flagKey)).1 = .ok (.fresh (.evaluation record))) ∧
      ∀ i t failure, s.sessions i = some t → (Abstract.evaluates t.call.operation).isSome →
        t.outcome = some (.error (.domain failure)) →
        failure ≠ .typeMismatch ∧ failure ≠ .invalidRuleset := by
  refine ⟨fun s h => ⟨fun row hrow => D1.typed h hexact hrow, ?_, ?_⟩,
    fun s h => ⟨fun row hrow => Postgres.typed h hexact hrow, ?_, ?_⟩⟩
  · intro subject flagKey flag ruleset command δ hflag hactive henvironment hruleset htriple hnew hδ
    exact D1.evaluates_published h hexact hcodec hflag hactive henvironment hruleset htriple hnew hδ
  · exact fun i a failure ha hop hphase => D1.calm h hexact i a ha failure hop hphase
  · intro subject flagKey flag ruleset command δ hflag hactive henvironment hruleset hnew hδ
    exact Postgres.evaluates_published h hexact hcodec hflag hactive henvironment hruleset hnew hδ
  · exact fun i t failure ht hop hout => Postgres.calm h hexact ht hop hout

/-- The first flag evaluates again. -/
theorem published_evaluates_first :
    (∃ s : D1.State Codec.verbatim, D1.Reachable (.atEpoch []) s ∧
      ∃ record, (D1.call (.atEpoch []) (Draws.numbered 4) s.tables
        (Subject.evaluate ⟨"org", "prod", "user-2", [], "hash"⟩
          ⟨"caller", "actor", "key-5", [5]⟩ "flag")).1 = .ok (.fresh (.evaluation record))) ∧
    ∃ s : Postgres.State Codec.verbatim (fun _ => "") (.atEpoch []), Postgres.Reachable s ∧
      ∃ record, ((Postgres.store Codec.verbatim (fun _ => "") (.atEpoch [])).alone
        (Draws.numbered 4) s.store (Subject.evaluate ⟨"org", "prod", "user-2", [], "hash"⟩
          ⟨"caller", "actor", "key-5", [5]⟩ "flag")).1 = .ok (.fresh (.evaluation record)) := by
  obtain ⟨⟨s, h, htables, hδ⟩, s', h', hstore, hδ'⟩ :=
    @exists_first Codec.verbatim (.atEpoch []) fun _ => ""
  obtain ⟨hd1, hpostgres⟩ := published_evaluates
    (Codec.verbatim_exact (.atEpoch [])).definitions (Codec.verbatim_evaluable _) (fun _ => "")
  refine ⟨⟨s, h, (hd1 s h).2.1 ⟨"org", "prod", "user-2", [], "hash"⟩ "flag" _ _ _ _
      (by rw [htables]; rfl) rfl (by rw [htables]; rfl) (by rw [htables]; exact List.mem_cons_self)
      rfl (by rw [htables]; rfl) hδ⟩,
    s', h', (hpostgres s' h').2.1 ⟨"org", "prod", "user-2", [], "hash"⟩ "flag" _ _ _ _
      (by rw [hstore]; rfl) rfl (by rw [hstore]; rfl) (by rw [hstore]; exact List.mem_cons_self)
      (by rw [hstore]; rfl) hδ'⟩

end LensoFlags
