import LensoFlags.D1.Delivery
import LensoFlags.Postgres.Serializable

/-!
# Revisions and the life of a flag, in both backends

Results:
1. `D1.Steps.frozen`, `Postgres.Steps.frozen`: an archived flag stays as it is.
2. `revisions_accounted`: every revision in the tables is accounted for by the committed calls, and
   archiving is for good.
-/

namespace LensoFlags

variable {codec : Codec} {describe : Postgres.DbError → String} {rt : Runtime}

/-- Since the older log, no call has taken effect that concerns the flag. -/
def Untouched (org flagKey : String) (older log : List (Serial.Entry Call Draws Answer)) : Prop :=
  ∃ newer, log = newer ++ older ∧ ∀ e ∈ newer, ∀ response, e.value = .fresh response →
    ¬Abstract.concerns org flagKey e.call.operation

theorem Untouched.refl (org flagKey : String) (log : List (Serial.Entry Call Draws Answer)) :
    Untouched org flagKey log log :=
  ⟨[], rfl, fun _ he => (nomatch he)⟩

theorem Untouched.trans {org flagKey : String}
    {oldest older log : List (Serial.Entry Call Draws Answer)}
    (h : Untouched org flagKey oldest older) (h' : Untouched org flagKey older log) :
    Untouched org flagKey oldest log := by
  obtain ⟨newer, rfl, hnewer⟩ := h
  obtain ⟨newer', rfl, hnewer'⟩ := h'
  refine ⟨newer' ++ newer, (List.append_assoc ..).symm, fun e he => ?_⟩
  rcases List.mem_append.mp he with he | he
  · exact hnewer' e he
  · exact hnewer e he

theorem Untouched.single {org flagKey : String} {e : Serial.Entry Call Draws Answer}
    (h : ∀ response, e.value = .fresh response →
      ¬Abstract.concerns org flagKey e.call.operation)
    (log : List (Serial.Entry Call Draws Answer)) : Untouched org flagKey log (e :: log) :=
  ⟨[e], rfl, fun e' he' => by rwa [List.mem_singleton.mp he']⟩

/-- A call between two stores leaves an archived flag as it is. -/
theorem Abstract.Took.frozen {c c' : Abstract.Store codec} {call : Call} {answer : Answer}
    (h : Abstract.Took rt call answer c c') {org flagKey : String} {flag : Abstract.Flag}
    (hflag : c.flag org flagKey = some flag) (harchived : flag.archived = true) :
    c'.flag org flagKey = some flag ∧
      (∀ environmentKey, c'.rulesetsOf org flagKey environmentKey =
        c.rulesetsOf org flagKey environmentKey) ∧
      ∀ response, answer = .fresh response → ¬Abstract.concerns org flagKey call.operation := by
  rcases h.cases with ⟨_, hreplayed, rfl⟩ | ⟨_, _, c₁, _, -, -, -, heffect, -, rfl⟩
  · refine ⟨hflag, fun _ => rfl, fun _ hfresh => ?_⟩
    rw [hreplayed] at hfresh
    cases hfresh
  · obtain ⟨hflag', hrulesets, hconcerns⟩ := heffect.archived_frozen hflag harchived
    exact ⟨hflag', hrulesets, fun _ _ => hconcerns⟩

/-! ## D1 -/

section D1

variable {s s' : D1.State codec} {org flagKey : String} {row : D1.FlagRow}

theorem D1.Step.frozen (hi : D1.Inv rt s) (h : D1.Step rt s s')
    (hrow : s.tables.flag org flagKey = some row) (harchived : row.record.archived = true) :
    s'.tables.flag org flagKey = some row ∧
      (∀ environmentKey,
        (s'.tables.rulesetsOf org flagKey environmentKey).map D1.RulesetRow.ruleset =
          (s.tables.rulesetsOf org flagKey environmentKey).map D1.RulesetRow.ruleset) ∧
      Untouched org flagKey s.log s'.log := by
  rcases h.took hi with ⟨htables, hlog⟩ | ⟨e, c, c', hlog, hr, -, hr', htook⟩
  · rw [htables, hlog]
    exact ⟨hrow, fun _ => rfl, .refl ..⟩
  · rw [hr.flag, Option.map_eq_some_iff] at hrow
    obtain ⟨flag, hflag, rfl⟩ := hrow
    obtain ⟨hflag', hrulesets, hconcerns⟩ := htook.frozen hflag harchived
    refine ⟨by rw [hr'.flag, hflag']; rfl, fun environmentKey => ?_, ?_⟩
    · rw [← hr'.rulesetsOf, ← hr.rulesetsOf, hrulesets]
    · rw [hlog]
      exact .single hconcerns _

theorem D1.Steps.frozen (hreach : D1.Reachable rt s) (h : D1.Steps rt s s')
    (hrow : s.tables.flag org flagKey = some row) (harchived : row.record.archived = true) :
    s'.tables.flag org flagKey = some row ∧
      (∀ environmentKey,
        (s'.tables.rulesetsOf org flagKey environmentKey).map D1.RulesetRow.ruleset =
          (s.tables.rulesetsOf org flagKey environmentKey).map D1.RulesetRow.ruleset) ∧
      Untouched org flagKey s.log s'.log := by
  induction h with
  | refl => exact ⟨hrow, fun _ => rfl, .refl ..⟩
  | @tail s₁ s₂ hsteps hstep ih =>
    obtain ⟨hrow₁, hrulesets₁, hlog₁⟩ := ih
    obtain ⟨hrow₂, hrulesets₂, hlog₂⟩ :=
      hstep.frozen (D1.Inv.reachable (hreach.trans hsteps)) hrow₁ harchived
    exact ⟨hrow₂, fun environmentKey => (hrulesets₂ environmentKey).trans
      (hrulesets₁ environmentKey), hlog₁.trans hlog₂⟩

end D1

/-! ## PostgreSQL -/

section Postgres

variable {s s' : Postgres.State codec describe rt} {org flagKey : String} {flag : Abstract.Flag}

theorem Postgres.Step.frozen (hi : Postgres.Inv s) (h : Postgres.Step s s')
    (hflag : (s.store.flag org flagKey).map (Postgres.FlagRow.flag rt) = some flag)
    (harchived : flag.archived = true) :
    (s'.store.flag org flagKey).map (Postgres.FlagRow.flag rt) = some flag ∧
      (∀ environmentKey,
        (s'.store.rulesetsOf org flagKey environmentKey).map Postgres.RulesetRow.of =
          (s.store.rulesetsOf org flagKey environmentKey).map Postgres.RulesetRow.of) ∧
      Untouched org flagKey s.log s'.log := by
  rcases h.took hi with ⟨hstore, hlog⟩ | ⟨e, c, c', hlog, hr, -, hr', htook⟩
  · rw [hstore, hlog]
    exact ⟨hflag, fun _ => rfl, .refl ..⟩
  · rw [← hr.rows.flag] at hflag
    obtain ⟨hflag', hrulesets, hconcerns⟩ := htook.frozen hflag harchived
    refine ⟨by rw [← hr'.rows.flag, hflag'], fun environmentKey => ?_, ?_⟩
    · rw [← hr'.rows.rulesetsOf, ← hr.rows.rulesetsOf, hrulesets]
    · rw [hlog]
      exact .single hconcerns _

theorem Postgres.Steps.frozen (hreach : Postgres.Reachable s) (h : Postgres.Steps s s')
    (hflag : (s.store.flag org flagKey).map (Postgres.FlagRow.flag rt) = some flag)
    (harchived : flag.archived = true) :
    (s'.store.flag org flagKey).map (Postgres.FlagRow.flag rt) = some flag ∧
      (∀ environmentKey,
        (s'.store.rulesetsOf org flagKey environmentKey).map Postgres.RulesetRow.of =
          (s.store.rulesetsOf org flagKey environmentKey).map Postgres.RulesetRow.of) ∧
      Untouched org flagKey s.log s'.log := by
  induction h with
  | refl => exact ⟨hflag, fun _ => rfl, .refl ..⟩
  | @tail s₁ s₂ hsteps hstep ih =>
    obtain ⟨hflag₁, hrulesets₁, hlog₁⟩ := ih
    obtain ⟨hflag₂, hrulesets₂, hlog₂⟩ :=
      hstep.frozen (Postgres.Inv.reachable (hreach.trans hsteps)) hflag₁ harchived
    exact ⟨hflag₂, fun environmentKey => (hrulesets₂ environmentKey).trans
      (hrulesets₁ environmentKey), hlog₁.trans hlog₂⟩

end Postgres

/-! ## Both backends -/

/-- In every reachable state of either backend the log accounts for the tables: a flag's or an
environment's revision is 1 and one for each committed call that changed it; the rulesets of a triple
are its publications, numbered from 1, and the newest of them is what evaluations use; a flag is
archived exactly when it has the time of it. From then on its record and its rulesets stay, and no
call that concerns it takes effect. -/
theorem revisions_accounted :
    (∀ s : D1.State codec, D1.Reachable rt s →
      ∃ c, D1.Represents s.tables c ∧ Abstract.Accounts rt c s.log) ∧
    (∀ s : Postgres.State codec describe rt, Postgres.Reachable s →
      ∃ c, Postgres.Represents rt s.store c ∧ Abstract.Accounts rt c s.log) ∧
    (∀ (s s' : D1.State codec) org flagKey row, D1.Reachable rt s → D1.Steps rt s s' →
      s.tables.flag org flagKey = some row → row.record.archived = true →
        s'.tables.flag org flagKey = some row ∧
          (∀ environmentKey,
            (s'.tables.rulesetsOf org flagKey environmentKey).map D1.RulesetRow.ruleset =
              (s.tables.rulesetsOf org flagKey environmentKey).map D1.RulesetRow.ruleset) ∧
          Untouched org flagKey s.log s'.log) ∧
    (∀ (s s' : Postgres.State codec describe rt) org flagKey row, Postgres.Reachable s →
      Postgres.Steps s s' → s.store.flag org flagKey = some row → row.archived = true →
        Postgres.getFlag rt s'.store org flagKey = .ok (Postgres.flagFromRow rt row) ∧
          (∀ environmentKey,
            (s'.store.rulesetsOf org flagKey environmentKey).map Postgres.RulesetRow.of =
              (s.store.rulesetsOf org flagKey environmentKey).map Postgres.RulesetRow.of) ∧
          Untouched org flagKey s.log s'.log) := by
  refine ⟨fun s h => ?_, fun s h => ?_, fun s s' org flagKey row h hs hrow harchived =>
    D1.Steps.frozen h hs hrow harchived, fun s s' org flagKey row h hs hrow harchived => ?_⟩
  · obtain ⟨c, hr, hlogged⟩ := (D1.Inv.reachable h).represented
    exact ⟨c, hr, hlogged.commits.accounts⟩
  · obtain ⟨c, hc⟩ := (Postgres.Inv.reachable h).content
    exact ⟨c, hc.represents, hc.logged.commits.accounts⟩
  · have hsome : (s.store.flag org flagKey).map (Postgres.FlagRow.flag rt) = some (row.flag rt) := by
      rw [hrow]
      rfl
    obtain ⟨hflag, hrulesets, hlog⟩ := Postgres.Steps.frozen h hs hsome harchived
    obtain ⟨row', hrow', hsame⟩ := Option.map_eq_some_iff.mp hflag
    refine ⟨?_, hrulesets, hlog⟩
    rw [Postgres.getFlag, hrow', ← row.record_flag, ← hsame]
    rfl

/-- A flag that was published, evaluated and archived, and a call behind that. -/
theorem revisions_accounted_archived :
    (∃ s s' : D1.State Codec.verbatim, D1.Reachable (.atEpoch []) s ∧ D1.Steps (.atEpoch []) s s' ∧
      (∃ c, D1.Represents s.tables c ∧ Abstract.Accounts (.atEpoch []) c s.log) ∧
      s'.tables.flags.length = 2 ∧
      ∃ row, s.tables.flag "org" "flag" = some row ∧ row.record.revision = "3" ∧
        s'.tables.flag "org" "flag" = some row ∧ Untouched "org" "flag" s.log s'.log) ∧
    ∃ s s' : Postgres.State Codec.verbatim (fun _ => "") (.atEpoch []), Postgres.Reachable s ∧
      Postgres.Steps s s' ∧
      (∃ c, Postgres.Represents (.atEpoch []) s.store c ∧
        Abstract.Accounts (.atEpoch []) c s.log) ∧
      s'.store.flags.length = 2 ∧
      ∃ row, s.store.flag "org" "flag" = some row ∧ row.revision = 3 ∧
        Postgres.getFlag (.atEpoch []) s'.store "org" "flag" =
          .ok (Postgres.flagFromRow (.atEpoch []) row) ∧
        Untouched "org" "flag" s.log s'.log := by
  let calls : List Call := firstCalls ++
    [⟨⟨"caller", "actor", "key-5", [5]⟩, .archiveFlag "org" "flag" 2⟩]
  let last : Call :=
    ⟨⟨"caller", "actor", "key-6", [6]⟩, .createFlag "org" "other" "Other" none "boolean"⟩
  obtain ⟨s, s', -, hs, hsteps, htables, htables', -⟩ :=
    @D1.exists_last Codec.verbatim (.atEpoch []) calls last (by decide)
  obtain ⟨t, t', -, ht, hsteps', hstore, hstore', -⟩ :=
    @Postgres.exists_last Codec.verbatim (fun _ => "") (.atEpoch []) calls last
  have hrow : (s.tables.flag "org" "flag").any (fun row =>
      row.record.archived && row.record.revision = "3") = true := by
    rw [htables]
    decide
  have hrow' : (t.store.flag "org" "flag").any (fun row => row.archived && row.revision = 3) =
      true := by
    rw [hstore]
    decide
  obtain ⟨row, hsome, harchived⟩ := (Option.any_eq_true ..).mp hrow
  obtain ⟨row', hsome', harchived'⟩ := (Option.any_eq_true ..).mp hrow'
  obtain ⟨harchived, hrevision⟩ := Bool.and_eq_true_iff.mp harchived
  obtain ⟨harchived', hrevision'⟩ := Bool.and_eq_true_iff.mp harchived'
  obtain ⟨haccounts, haccounts', hfrozen, hfrozen'⟩ :=
    @revisions_accounted Codec.verbatim (fun _ => "") (.atEpoch [])
  obtain ⟨hkept, -, huntouched⟩ := hfrozen s s' "org" "flag" row hs hsteps hsome harchived
  obtain ⟨hkept', -, huntouched'⟩ := hfrozen' t t' "org" "flag" row' ht hsteps' hsome' harchived'
  exact ⟨⟨s, s', hs, hsteps, haccounts s hs, by rw [htables', htables]; decide, row, hsome,
      of_decide_eq_true hrevision, hkept, huntouched⟩,
    t, t', ht, hsteps', haccounts' t ht, by rw [hstore', hstore]; decide, row', hsome',
      of_decide_eq_true hrevision', hkept', huntouched'⟩

end LensoFlags
