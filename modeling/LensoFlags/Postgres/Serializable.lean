import LensoFlags.Postgres.Sessions
import LensoFlags.Abstract.History
import LensoFlags.Lib.Waiting
import Mathlib.Data.List.Pairwise

/-!
# Commit order

Results:
1. `commit_order`: the tables and the answers are those of the committed calls run one at a time in
   the order of their commits; one call takes effect for each expected revision; a batch answers for
   one state.
2. `racing_retries`: two concurrent calls can both return `Ok` for one expected revision, when one
   replays the response of the other.
3. `Steps.alone`: a call that nothing disturbs is the call run alone.
-/

namespace LensoFlags.Postgres

variable {codec : Codec} {describe : DbError → String} {rt : Runtime}
  {s : State codec describe rt}

/-! ## Undisturbed calls -/

/-- A session that has begun is the call run alone when no other holds a lock. -/
theorem Steps.finish {i : ℕ} {call : Call} {δ : Draws}
    (ht : s.sessions i = some (Locking.Database.Session.begin (store codec describe rt) call δ))
    (hidle : ∀ j t, j ≠ i → s.sessions j = some t → t.held = []) :
    ∃ s' t, Steps s s' ∧ s'.store = ((store codec describe rt).alone δ s.store call).2 ∧
      s'.sessions = Function.update s.sessions i (some t) ∧ t.call = call ∧ t.draws = δ ∧
      t.held = [] ∧ t.outcome = some ((store codec describe rt).alone δ s.store call).1 := by
  obtain ⟨s', t, hsteps, hrest⟩ := Locking.Database.exists_alone ht fun j u hj hu r m m' _ hm' => by
    rw [hidle j u hj hu] at hm'
    cases hm'
  exact ⟨s', t, Steps.of_continues hsteps, hrest⟩

/-- A new session is the call run alone when it takes none of the locks the others hold. -/
theorem Steps.apart {i : ℕ} (call : Call) {δ : Draws} (hnone : s.sessions i = none)
    (hδ : Unrepeated δ) (hother : ∀ j t, s.sessions j = some t → Unshared δ t.draws)
    (hapart : ∀ j t, s.sessions j = some t →
      ∀ lock ∈ Locking.Database.runLocks δ 0 ((store codec describe rt).body call) s.store,
        ∀ held ∈ t.held, lock.1 ≠ held.1) :
    ∃ s' t, Steps s s' ∧ s'.store = ((store codec describe rt).alone δ s.store call).2 ∧
      s'.sessions = Function.update s.sessions i (some t) ∧ t.call = call ∧ t.draws = δ ∧
      t.held = [] ∧ t.outcome = some ((store codec describe rt).alone δ s.store call).1 := by
  let s₁ : State codec describe rt := { s with
    sessions := Function.update s.sessions i
      (some (Locking.Database.Session.begin (store codec describe rt) call δ)) }
  have hbegin : Steps s s₁ := Steps.begin call hnone hδ hother
  have ht : s₁.sessions i = some (Locking.Database.Session.begin _ call δ) :=
    Function.update_self ..
  obtain ⟨s', t, hsteps, hstore, hsessions, hrest⟩ :=
    Locking.Database.exists_alone ht fun j u hj hu r m m' hm hm' =>
      absurd rfl (hapart j u ((Function.update_of_ne hj ..).symm.trans hu) (r, m) hm (r, m') hm')
  refine ⟨s', t, hbegin.trans (Steps.of_continues hsteps), hstore, ?_, hrest⟩
  rw [hsessions, Function.update_idem]

theorem Steps.alone {i : ℕ} (call : Call) {δ : Draws} (hnone : s.sessions i = none)
    (hδ : Unrepeated δ) (hother : ∀ j t, s.sessions j = some t → Unshared δ t.draws)
    (hidle : ∀ j t, s.sessions j = some t → t.held = []) :
    ∃ s' t, Steps s s' ∧ s'.store = ((store codec describe rt).alone δ s.store call).2 ∧
      s'.sessions = Function.update s.sessions i (some t) ∧ t.call = call ∧ t.draws = δ ∧
      t.held = [] ∧ t.outcome = some ((store codec describe rt).alone δ s.store call).1 := by
  refine Steps.apart call hnone hδ hother fun j t ht lock _ held hheld => ?_
  rw [hidle j t ht] at hheld
  cases hheld

/-- A new session runs its first statements when it takes none of the locks the others hold. -/
theorem Steps.begin_run {i : ℕ} (call : Call) {δ : Draws} (n : ℕ) (hnone : s.sessions i = none)
    (hδ : Unrepeated δ) (hother : ∀ j t, s.sessions j = some t → Unshared δ t.draws)
    (hapart : ∀ j t, s.sessions j = some t →
      ∀ lock ∈ ((Locking.Database.Session.begin (store codec describe rt) call δ).run s.store n).held,
        ∀ held ∈ t.held, lock.1 ≠ held.1) :
    Steps s { s with
      sessions := Function.update s.sessions i
        (some ((Locking.Database.Session.begin _ call δ).run s.store n)) } := by
  let s₁ : State codec describe rt := { s with
    sessions := Function.update s.sessions i
      (some (Locking.Database.Session.begin (store codec describe rt) call δ)) }
  have hbegin : Steps s s₁ := Steps.begin call hnone hδ hother
  have ht : s₁.sessions i = some (Locking.Database.Session.begin _ call δ) :=
    Function.update_self ..
  have hrun := Locking.Database.Continues.run n ht rfl fun j u hj hu =>
    hapart j u ((Function.update_of_ne hj ..).symm.trans hu)
  have hsteps := hbegin.trans (Steps.of_continues hrun)
  rwa [show Function.update s₁.sessions i _ = Function.update s.sessions i _ from
    Function.update_idem ..] at hsteps

/-- The tables after calls made one after another from call number `n` on. -/
def tablesAfter (describe : DbError → String) (rt : Runtime) :
    ℕ → Tables codec → List Call → Tables codec
  | _, t, [] => t
  | n, t, call :: calls =>
      tablesAfter describe rt (n + 1)
        ((store codec describe rt).alone (Draws.numbered n) t call).2 calls

theorem tablesAfter_append (describe : DbError → String) (rt : Runtime) (n : ℕ) (t : Tables codec)
    (calls : List Call) (call : Call) : tablesAfter describe rt n t (calls ++ [call]) =
      ((store codec describe rt).alone (Draws.numbered (n + calls.length))
        (tablesAfter describe rt n t calls) call).2 := by
  induction calls generalizing n t with
  | nil => rfl
  | cons first calls ih =>
    rw [List.cons_append, tablesAfter, ih, tablesAfter, List.length_cons, Nat.add_right_comm,
      Nat.add_assoc]

/-- Calls made one after another are a run. -/
theorem Reachable.calls {P : Call → Prop} {n : ℕ} (h : Reachable s)
    (hsessions : ∀ j t, s.sessions j = some t →
      j < n ∧ t.draws = Draws.numbered j ∧ t.held = [] ∧ P t.call) (calls : List Call)
    (hcalls : ∀ call ∈ calls, P call) :
    ∃ s' : State codec describe rt, Reachable s' ∧
      s'.store = tablesAfter describe rt n s.store calls ∧
      ∀ j t, s'.sessions j = some t →
        j < n + calls.length ∧ t.draws = Draws.numbered j ∧ t.held = [] ∧ P t.call := by
  induction calls generalizing n s with
  | nil => exact ⟨s, h, rfl, hsessions⟩
  | cons call calls ih =>
    have hnone : s.sessions n = none := by
      cases ht : s.sessions n with
      | none => rfl
      | some t => exact absurd (hsessions n t ht).1 (lt_irrefl n)
    obtain ⟨s₁, t, hsteps, hstore, hset, hcall, hdraws, hheld, -⟩ :=
      Steps.alone call hnone (.numbered n)
        (fun j u hu => by
          obtain ⟨hj, hu', -⟩ := hsessions j u hu
          rw [hu']
          exact .numbered (Nat.ne_of_gt hj))
        (fun j u hu => (hsessions j u hu).2.2.1)
    obtain ⟨s', h', hstore', hsessions'⟩ := ih (n := n + 1) (h.trans hsteps)
      (fun j u hu => by
        rw [hset] at hu
        rcases Locking.Footprint.session_cases hu with ⟨rfl, rfl⟩ | ⟨-, hu⟩
        · exact ⟨Nat.lt_succ_self _, hdraws, hheld, hcall ▸ hcalls call List.mem_cons_self⟩
        · exact ⟨Nat.lt_succ_of_lt (hsessions j u hu).1, (hsessions j u hu).2⟩)
      fun call' hmem => hcalls call' (List.mem_cons_of_mem _ hmem)
    refine ⟨s', h', ?_, fun j u hu => ?_⟩
    · rw [hstore', hstore]
      rfl
    · obtain ⟨hj, hrest⟩ := hsessions' j u hu
      exact ⟨by rw [List.length_cons]; omega, hrest⟩

/-- Calls made one after another from the empty tables. -/
theorem exists_calls (describe : DbError → String) (rt : Runtime) (calls : List Call) :
    ∃ s : State codec describe rt, Reachable s ∧
      s.store = tablesAfter describe rt 0 Tables.empty calls ∧ ∀ e ∈ s.log, e.call ∈ calls := by
  obtain ⟨s, h, hstore, hsessions⟩ := Reachable.calls (s := State.initial) (n := 0)
    (P := (· ∈ calls)) .refl (fun j t ht => nomatch ht) calls fun _ hmem => hmem
  refine ⟨s, h, hstore, fun e he => ?_⟩
  obtain ⟨t, ht, hcall, -⟩ := (Inv.reachable h).locking.logged e he
  rw [← hcall]
  exact (hsessions _ t ht).2.2.2

/-- Calls made one after another leave no lock behind. -/
theorem exists_idle (describe : DbError → String) (rt : Runtime) (calls : List Call) :
    ∃ s : State codec describe rt, Reachable s ∧
      s.store = tablesAfter describe rt 0 Tables.empty calls ∧
      (∀ i, calls.length ≤ i → s.sessions i = none) ∧
      ∀ j t, s.sessions j = some t →
        j < calls.length ∧ t.draws = Draws.numbered j ∧ t.held = [] := by
  obtain ⟨s, h, hstore, hsessions⟩ := Reachable.calls (s := State.initial) (n := 0)
    (P := fun _ => True) .refl (fun j t ht => nomatch ht) calls fun _ _ => trivial
  rw [Nat.zero_add] at hsessions
  refine ⟨s, h, hstore, fun i hi => ?_, fun j t ht => ?_⟩
  · cases ht : s.sessions i with
    | none => rfl
    | some t => exact absurd (hsessions i t ht).1 (Nat.not_lt.mpr hi)
  · obtain ⟨hj, hdraws, hheld, -⟩ := hsessions j t ht
    exact ⟨hj, hdraws, hheld⟩

/-- Calls made one after another, and one more behind them. -/
theorem exists_last (describe : DbError → String) (rt : Runtime) (calls : List Call) (call : Call) :
    ∃ (s s' : State codec describe rt) (t : (store codec describe rt).Session),
      Reachable s ∧ Steps s s' ∧ s.store = tablesAfter describe rt 0 Tables.empty calls ∧
      s'.store =
        ((store codec describe rt).alone (Draws.numbered calls.length) s.store call).2 ∧
      s'.sessions calls.length = some t ∧ t.call = call ∧
      t.outcome =
        some ((store codec describe rt).alone (Draws.numbered calls.length) s.store call).1 := by
  obtain ⟨s, h, hstore, hnone, hidle⟩ := @exists_idle codec describe rt calls
  obtain ⟨s', t, hsteps, hstore', hset, hcall, -, -, hout⟩ :=
    Steps.alone call (hnone _ (Nat.le_refl _)) (.numbered calls.length)
      (fun j u hu => by
        obtain ⟨hj, hdraws, -⟩ := hidle j u hu
        rw [hdraws]
        exact .numbered (Nat.ne_of_gt hj))
      (fun j u hu => (hidle j u hu).2.2)
  exact ⟨s, s', t, h, hsteps, hstore, hstore', by rw [hset, Function.update_self], hcall, hout⟩

/-! ## Effects -/

/-- The answer is the response of the call's own effect. -/
def tookEffect (e : Serial.Entry Call Draws Answer) : Prop :=
  ∃ response, e.value = .fresh response

/-- Calls that took effect are entries of the history. -/
theorem eq_of_history {R : Call → Call → Prop} (hsymm : ∀ call call', R call call' → R call' call)
    {log : List (Serial.Entry Call Draws Answer)}
    (h : (history log).Pairwise fun entry older => ¬R entry.1 older.1)
    {e e' : Serial.Entry Call Draws Answer} (he : e ∈ log) (he' : e' ∈ log) (heffect : tookEffect e)
    (heffect' : tookEffect e') (hR : R e.call e'.call) : e = e' := by
  rw [history, List.pairwise_filterMap] at h
  have : Std.Symm fun e older : Serial.Entry Call Draws Answer =>
      ¬(tookEffect e ∧ tookEffect older ∧ R e.call older.call) :=
    ⟨fun a b hab hba => hab ⟨hba.2.1, hba.1, hsymm _ _ hba.2.2⟩⟩
  have hpairwise : log.Pairwise fun e older =>
      ¬(tookEffect e ∧ tookEffect older ∧ R e.call older.call) := by
    refine h.imp fun {e older} hnone => ?_
    rintro ⟨⟨response, hvalue⟩, ⟨response', hvalue'⟩, hR⟩
    exact hnone (e.call, response) (by rw [hvalue]) (older.call, response') (by rw [hvalue']) hR
  by_contra hne
  exact hpairwise.forall he he' hne ⟨heffect, heffect', hR⟩

/-! ## Batches -/

section Batches

variable {log : List (Serial.Entry Call Draws Answer)} {t : Tables codec}
  {c : Abstract.Store codec} {δ : Draws} {command : Command}
  {org environmentKey targetingKey contextHash : String} {attributes : List (String × Json)}
  {flagKeys : List String}

/-- The evaluation of one flag, run alone on the tables that a batch found. -/
theorem evaluateOne_alone {i : ℕ} {flagKey : String}
    {result : EvaluationRecord × Abstract.Receipt} (h : Content rt log t c)
    (hnew : c.command (command.rowKey "evaluate_batch") = none)
    (hσ : (stamp rt δ (.evaluateBatch org environmentKey flagKeys targetingKey attributes
      contextHash)).Fresh c)
    (heval : Abstract.evaluateOne rt (stamp rt δ (.evaluateBatch org environmentKey flagKeys
      targetingKey attributes contextHash)) c command "evaluate_batch"
      ⟨org, environmentKey, targetingKey, attributes, contextHash⟩ i flagKey = .ok result) :
    (run describe rt δ (5 * i + 2) (evaluateOne describe rt command "evaluate_batch" org
      environmentKey flagKey (Decimal.tag command.key i) targetingKey attributes contextHash) t).1 =
        .ok result.1 := by
  have hvacant := Vacant.initial ⟨command, .evaluateBatch org environmentKey flagKeys
    targetingKey attributes contextHash⟩ h.sound hσ hnew
  have hends : Ends rt
      (run describe rt δ (5 * i + 2) (evaluateOne describe rt command "evaluate_batch" org
        environmentKey flagKey (Abstract.evaluationId "evaluate_batch" command.key i) targetingKey
        attributes contextHash >>= fun record => pure (Answer.fresh (.evaluation record))) t)
      (Abstract.evaluateOne rt (stamp rt δ (.evaluateBatch org environmentKey flagKeys targetingKey
        attributes contextHash)) c command "evaluate_batch"
        ⟨org, environmentKey, targetingKey, attributes, contextHash⟩ i flagKey >>= fun result =>
          .ok (.fresh (.evaluation result.1), c.addReceipts [result.2])) := by
    refine evaluateOne_ends "evaluate_batch" h.represents.rows h.sound.numbered
      ⟨fun j _ => hvacant.ids j (Nat.zero_le j), fun j _ => hvacant.keys j (Nat.zero_le j)⟩ rfl
      fun variant reason revision row hrow => .ok ⟨rfl, ?_⟩
    rw [hrow]
    exact h.represents.addReceipt row
  rw [heval, run, Locking.Database.runOn_map] at hends
  obtain ⟨outcome, houtcome, hvalue, -⟩ := Agree.symm hends |>.of_ok
  change Except.map _ (run describe rt δ (5 * i + 2) (evaluateOne describe rt command
    "evaluate_batch" org environmentKey flagKey (Decimal.tag command.key i) targetingKey attributes
    contextHash) t).1 = _ at houtcome
  revert houtcome
  generalize (run describe rt δ (5 * i + 2) (evaluateOne describe rt command "evaluate_batch" org
    environmentKey flagKey (Decimal.tag command.key i) targetingKey attributes contextHash) t).1 = x
  intro houtcome
  cases x with
  | error e => cases houtcome
  | ok record =>
    cases houtcome
    cases hvalue
    rfl

/-- The records of a batch that took effect, each as its evaluation gives it. -/
theorem Inv.batch_records (hi : Inv s) {e : Serial.Entry Call Draws Answer} {response : Response}
    (he : e ∈ s.log)
    (hop : e.call.operation =
      .evaluateBatch org environmentKey flagKeys targetingKey attributes contextHash)
    (hvalue : e.value = .fresh response) :
    ∃ older newer t records, s.log = newer ++ e :: older ∧
      Serial.Runs (store codec describe rt).alone Tables.empty older t ∧
      response = .evaluations records ∧
      List.Forall₂ (fun flagKey record =>
        (run describe rt e.draws (5 * flagKey.2 + 2) (evaluateOne describe rt e.call.command
          "evaluate_batch" org environmentKey flagKey.1 (Decimal.tag e.call.command.key flagKey.2)
          targetingKey attributes contextHash) t).1 = .ok record) flagKeys.zipIdx records := by
  obtain ⟨older, newer, t, c, c', hlog, hruns, hc, hσ, hattempt⟩ := hi.commit_point he
  rw [hvalue] at hattempt
  obtain ⟨⟨command, operation⟩, hcall⟩ : ∃ call, e.call = call := ⟨_, rfl⟩
  rw [hcall] at hattempt hσ hop ⊢
  cases hop
  rcases Abstract.attempt_eq_ok hattempt with ⟨_, hreplayed, -, -⟩ | ⟨_, hresponse, hnew, hfresh⟩
  · cases hreplayed
  cases hresponse
  simp only [Abstract.fresh, Abstract.perform, Abstract.evaluateBatch, bind_eq_ok] at hfresh
  obtain ⟨⟨_, c₁⟩, ⟨results, hresults, hperform⟩, c₂, -, hfresh⟩ := hfresh
  cases hperform
  cases hfresh
  refine ⟨older, newer, t, results.map (·.1), hlog, hruns, rfl, ?_⟩
  rw [List.forall₂_map_right_iff]
  exact (Abstract.evaluateFrom_eq_ok.mp hresults).imp fun _ _ heval =>
    evaluateOne_alone hc hnew hσ heval

end Batches

/-! ## Guarantees -/

/-- The tables and the answers are those of the calls that returned `Ok`, run one at a time in the
order of their commits, each with the clock readings, UUIDs and numbers it drew. For one expected
revision of a flag or an environment one call takes effect. The records of a batch are those that
each evaluation gives on the tables at the batch's place in that order. -/
theorem commit_order (h : Reachable s) :
    Serial.Runs (store codec describe rt).alone Tables.empty s.log s.store ∧
      (∀ e, e ∈ s.log ↔ ∃ t, s.sessions e.session = some t ∧ t.call = e.call ∧
        t.draws = e.draws ∧ t.outcome = some (.ok e.value)) ∧
      (s.log.map Serial.Entry.session).Nodup ∧
      (∀ e ∈ s.log, ∀ e' ∈ s.log, tookEffect e → tookEffect e' →
        Abstract.Contend e.call.operation e'.call.operation → e = e') ∧
      ∀ e ∈ s.log, ∀ response org environmentKey flagKeys targetingKey attributes contextHash,
        e.call.operation =
          .evaluateBatch org environmentKey flagKeys targetingKey attributes contextHash →
        e.value = .fresh response →
        ∃ older newer t records, s.log = newer ++ e :: older ∧
          Serial.Runs (store codec describe rt).alone Tables.empty older t ∧
          response = .evaluations records ∧
          List.Forall₂ (fun flagKey record =>
            (run describe rt e.draws (5 * flagKey.2 + 2) (evaluateOne describe rt e.call.command
              "evaluate_batch" org environmentKey flagKey.1
              (Decimal.tag e.call.command.key flagKey.2) targetingKey attributes contextHash) t).1 =
                .ok record) flagKeys.zipIdx records := by
  have hi := Inv.reachable h
  obtain ⟨c, hc⟩ := hi.content
  refine ⟨hi.locking.serial, fun e => ⟨hi.locking.logged e, ?_⟩, hi.locking.once, ?_,
    fun e he response org environmentKey flagKeys targetingKey attributes contextHash hop hvalue =>
      hi.batch_records he hop hvalue⟩
  · rintro ⟨t, ht, hcall, hdraws, hout⟩
    have hlogged := hi.locking.returned _ t _ ht hout
    rwa [hcall, hdraws] at hlogged
  · intro e he e' he' heffect heffect'
    exact eq_of_history (R := fun call call' => Abstract.Contend call.operation call'.operation)
      (fun _ _ h => h.symm) hc.logged.run.not_contend he he' heffect heffect'

/-- Two updates of one flag at a time: the second waits for the row that the first has locked, and
takes effect after it. -/
theorem commit_order_created : ∃ s s' : State Codec.verbatim (fun _ => "") (.atEpoch []),
    Reachable s ∧ Steps s s' ∧ Locking.Database.Waits s 2 1 ∧
      s'.store.flags.map (fun row => (row.name, row.revision)) = [("Second", 3)] ∧
      (∀ i ∈ [1, 2], ∃ e ∈ s'.log, e.session = i) ∧
      Serial.Runs (store Codec.verbatim (fun _ => "") (.atEpoch [])).alone Tables.empty s'.log
        s'.store := by
  let db := store Codec.verbatim (fun _ => "") (.atEpoch [])
  let create : Call :=
    ⟨⟨"caller", "actor", "key-1", [1]⟩, .createFlag "org" "flag" "Flag" none "boolean"⟩
  let update : ℕ → String → Call := fun expected name =>
    ⟨⟨"caller", "actor", name, [2]⟩, .updateFlag "org" "flag" expected name none⟩
  let begun := fun n call => Locking.Database.Session.begin db call (Draws.numbered n)
  obtain ⟨s₀, h₀, hstore₀, hnone₀, hidle₀⟩ :=
    @exists_idle Codec.verbatim (fun _ => "") (.atEpoch []) [create]
  let created : Tables Codec.verbatim := tablesAfter (fun _ => "") (.atEpoch []) 0 .empty [create]
  have hapart : ∀ {t : db.Session} {locks : List (Resource × Locking.Mode)}, t.held = [] →
      ∀ lock ∈ locks, ∀ held ∈ t.held, lock.1 ≠ held.1 := by
    intro t locks ht lock _ held hheld
    rw [ht] at hheld
    cases hheld
  -- The first has run all its statements, the second stops at the row of the flag.
  obtain ⟨first, hfirst⟩ : ∃ t : db.Session, t = (begun 1 (update 1 "First")).run created 20 :=
    ⟨_, rfl⟩
  obtain ⟨second, hsecond⟩ : ∃ t : db.Session, t = (begun 2 (update 2 "Second")).run created 2 :=
    ⟨_, rfl⟩
  have hdraws₁ : first.draws = Draws.numbered 1 := by
    rw [hfirst, Locking.Database.Session.run_draws]
    rfl
  have hout₁ : first.outcome = none := by
    rw [hfirst, Locking.Database.Session.run_outcome]
    rfl
  have hout₂ : second.outcome = none := by
    rw [hsecond, Locking.Database.Session.run_outcome]
    rfl
  have hheld : ∀ lock ∈ second.held, ∀ held ∈ first.held, lock.1 ≠ held.1 := by
    rw [hfirst, hsecond]
    decide
  obtain ⟨s₁, h₁, hstore₁, hsessions₁⟩ : ∃ s₁ : State Codec.verbatim (fun _ => "") (.atEpoch []),
      Steps s₀ s₁ ∧ s₁.store = created ∧
        s₁.sessions = Function.update s₀.sessions 1 (some first) := by
    have h := Steps.begin_run (update 1 "First") 20 (hnone₀ 1 (by decide)) (.numbered 1)
      (fun j t ht => by
        obtain ⟨hj, hdraws, -⟩ := hidle₀ j t ht
        rw [hdraws]
        exact .numbered (Nat.ne_of_gt hj))
      (fun j t ht => hapart (hidle₀ j t ht).2.2)
    exact ⟨_, h, hstore₀, by rw [hstore₀, hfirst]⟩
  obtain ⟨s₂, h₂, hstore₂, hsessions₂⟩ : ∃ s₂ : State Codec.verbatim (fun _ => "") (.atEpoch []),
      Steps s₁ s₂ ∧ s₂.store = created ∧
        s₂.sessions = Function.update s₁.sessions 2 (some second) := by
    have hnone₁ : s₁.sessions 2 = none := by
      rw [hsessions₁, Function.update_of_ne (by decide), hnone₀ 2 (by decide)]
    have h := Steps.begin_run (update 2 "Second") 2 hnone₁ (.numbered 2)
      (fun j t ht => by
        rw [hsessions₁] at ht
        rcases Locking.Footprint.session_cases ht with ⟨-, ht⟩ | ⟨-, ht⟩
        · rw [ht, hdraws₁]
          exact .numbered (by decide)
        · obtain ⟨hj, hdraws, -⟩ := hidle₀ j t ht
          rw [hdraws]
          exact .numbered (Nat.ne_of_gt (Nat.lt_succ_of_lt hj)))
      (fun j t ht => by
        rw [hsessions₁] at ht
        rcases Locking.Footprint.session_cases ht with ⟨-, ht⟩ | ⟨-, ht⟩
        · rw [ht, hstore₁]
          rw [hsecond] at hheld
          exact hheld
        · exact hapart (hidle₀ j t ht).2.2)
    exact ⟨_, h, hstore₁, by rw [hstore₁, hsecond]⟩
  have hsession₁ : s₂.sessions 1 = some first := by
    rw [hsessions₂, Function.update_of_ne (by decide), hsessions₁, Function.update_self]
  have hsession₂ : s₂.sessions 2 = some second := by
    rw [hsessions₂, Function.update_self]
  have hwaits : Locking.Database.Waits s₂ 2 1 := by
    have hnext : (Resource.flag "org" "flag", Locking.Mode.exclusive) ∈
        second.nextLocks s₂.store := by
      rw [hstore₂, hsecond]
      decide
    have hlocked : (Resource.flag "org" "flag", Locking.Mode.exclusive) ∈ first.held := by
      rw [hfirst]
      decide
    exact .of_nextLocks (by decide) hsession₂ hout₂ hnext hsession₁ hlocked rfl
  -- Now the first commits, and the second finds the row at the next revision.
  have hok : ∀ {x : Except db.Err db.Value}, x.isOk = true → ∃ answer, x = .ok answer := by
    intro x hx
    cases x with
    | ok answer => exact ⟨answer, rfl⟩
    | error e => cases hx
  have hlocks : ∀ lock ∈ Locking.Database.runLocks first.draws first.pos first.rest
      (first.view s₂.store), ∀ held ∈ second.held, lock.1 ≠ held.1 := by
    rw [hstore₂, hfirst, hsecond]
    decide
  obtain ⟨answer, hanswer⟩ := hok (x := (db.runOn first.draws first.pos first.rest
      (first.view s₂.store)).1) (by rw [hstore₂, hfirst]; decide)
  obtain ⟨s₃, t₃, h₃, hstore₃, hsessions₃, hheld₃, hout₃⟩ :=
    Locking.Database.exists_committed hsession₁ hout₁ hanswer fun j t hj ht r m m' hm hm' => by
      rw [hsessions₂] at ht
      rcases Locking.Footprint.session_cases ht with ⟨-, ht⟩ | ⟨-, ht⟩
      · rw [ht] at hm'
        exact absurd rfl (hlocks (r, m) hm (r, m') hm')
      · rw [hsessions₁, Function.update_of_ne hj] at ht
        exact absurd rfl (hapart (hidle₀ j t ht).2.2 (r, m) hm (r, m') hm')
  have hsession₃ : s₃.sessions 2 = some second := by
    rw [hsessions₃, Function.update_of_ne (by decide), hsession₂]
  obtain ⟨answer', hanswer'⟩ := hok (x := (db.runOn second.draws second.pos second.rest
      (second.view s₃.store)).1) (by rw [hstore₃, hstore₂, hfirst, hsecond]; decide)
  obtain ⟨s₄, t₄, h₄, hstore₄, hsessions₄, -, hout₄⟩ :=
    Locking.Database.exists_committed hsession₃ hout₂ hanswer' fun j t hj ht r m m' hm hm' => by
      rw [hsessions₃] at ht
      rcases Locking.Footprint.session_cases ht with ⟨-, rfl⟩ | ⟨hj', ht⟩
      · exact absurd rfl (hapart hheld₃ (r, m) hm (r, m') hm')
      · rw [hsessions₂, Function.update_of_ne hj, hsessions₁, Function.update_of_ne hj'] at ht
        exact absurd rfl (hapart (hidle₀ j t ht).2.2 (r, m) hm (r, m') hm')
  have hsteps : Steps s₂ s₄ := (Steps.of_continues h₃).trans (Steps.of_continues h₄)
  obtain ⟨hserial, hlogged, -⟩ := commit_order (h₀.trans (h₁.trans (h₂.trans hsteps)))
  refine ⟨s₂, s₄, h₀.trans (h₁.trans h₂), hsteps, hwaits, ?_, ?_, hserial⟩
  · rw [hstore₄, hstore₃, hstore₂, hfirst, hsecond]
    decide
  · simp only [List.forall_mem_cons]
    refine ⟨?_, ?_, nofun⟩
    · exact ⟨⟨1, t₃.call, t₃.draws, answer⟩, (hlogged _).mpr ⟨t₃, by
        rw [hsessions₄, Function.update_of_ne (show 1 ≠ 2 by decide), hsessions₃,
          Function.update_self], rfl, rfl, hout₃⟩, rfl⟩
    · exact ⟨⟨2, t₄.call, t₄.draws, answer'⟩, (hlogged _).mpr ⟨t₄, by
        rw [hsessions₄, Function.update_self], rfl, rfl, hout₄⟩, rfl⟩

/-- Two calls with one command and one expected revision, both on their way, both come to return
`Ok`: the second replays the response of the first. -/
theorem racing_retries : ∃ s s' : State Codec.verbatim (fun _ => "") (.atEpoch []),
    Reachable s ∧ Steps s s' ∧
      ∃ call, call.operation = .updateFlag "org" "flag" 1 "Renamed" none ∧
        ∀ i ∈ [1, 2], ∃ t t', s.sessions i = some t ∧ t.call = call ∧ t.outcome = none ∧
          s'.sessions i = some t' ∧ t'.call = call ∧ ∃ answer, t'.outcome = some (.ok answer) := by
  let db := store Codec.verbatim (fun _ => "") (.atEpoch [])
  let create : Call :=
    ⟨⟨"caller", "actor", "key-1", [1]⟩, .createFlag "org" "flag" "Flag" none "boolean"⟩
  let update : Call :=
    ⟨⟨"caller", "actor", "key-2", [2]⟩, .updateFlag "org" "flag" 1 "Renamed" none⟩
  obtain ⟨s₀, h₀, hstore₀, hnone₀, hidle₀⟩ :=
    @exists_idle Codec.verbatim (fun _ => "") (.atEpoch []) [create]
  -- Both retries begin before either of them ends.
  let begun := fun n => Locking.Database.Session.begin db update (Draws.numbered n)
  let s₁ : State Codec.verbatim (fun _ => "") (.atEpoch []) :=
    { s₀ with sessions := Function.update s₀.sessions 1 (some (begun 1)) }
  have hcases₁ : ∀ j t, s₁.sessions j = some t → (j = 1 ∧ t = begun 1) ∨
      (j < 1 ∧ t.draws = Draws.numbered j ∧ t.held = []) :=
    fun j t ht => (Locking.Footprint.session_cases ht).imp_right fun h => hidle₀ j t h.2
  have h₁ : Steps s₀ s₁ := Steps.begin update (hnone₀ 1 (by decide)) (.numbered 1) fun j t ht => by
    obtain ⟨hj, hdraws, -⟩ := hidle₀ j t ht
    rw [hdraws]
    exact .numbered (Nat.ne_of_gt hj)
  let s₂ : State Codec.verbatim (fun _ => "") (.atEpoch []) :=
    { s₁ with sessions := Function.update s₁.sessions 2 (some (begun 2)) }
  have hcases₂ : ∀ j t, s₂.sessions j = some t →
      (j = 2 ∧ t = begun 2) ∨ (j = 1 ∧ t = begun 1) ∨
        (j < 1 ∧ t.draws = Draws.numbered j ∧ t.held = []) :=
    fun j t ht => (Locking.Footprint.session_cases ht).imp_right fun h => hcases₁ j t h.2
  have h₂ : Steps s₁ s₂ := by
    have hnone₂ : s₁.sessions 2 = none :=
      (Function.update_of_ne (show 2 ≠ 1 by decide) (some (begun 1)) s₀.sessions).trans
        (hnone₀ 2 (by decide))
    refine Steps.begin update hnone₂ (.numbered 2) fun j t ht => ?_
    rcases hcases₁ j t ht with ⟨-, rfl⟩ | ⟨hj, hdraws, -⟩
    · exact .numbered (m := 1) (by decide)
    · rw [hdraws]
      exact .numbered (by omega)
  have hself₂ : s₂.sessions 2 = some (begun 2) := by
    change Function.update s₁.sessions 2 (some (begun 2)) 2 = _
    rw [Function.update_self]
  have hself₁ : s₂.sessions 1 = some (begun 1) := by
    change Function.update (Function.update s₀.sessions 1 (some (begun 1))) 2 (some (begun 2)) 1 = _
    rw [Function.update_of_ne (by decide), Function.update_self]
  obtain ⟨s₃, t₁, h₃, hstore₃, hsessions₃, hcall₁, -, hheld₁, hout₁⟩ :=
    Steps.finish hself₁ fun j t hj ht => by
      rcases hcases₂ j t ht with ⟨-, rfl⟩ | ⟨rfl, -⟩ | ⟨-, -, hheld⟩
      · rfl
      · exact absurd rfl hj
      · exact hheld
  have hself₃ : s₃.sessions 2 = some (begun 2) := by
    rw [hsessions₃, Function.update_of_ne (by decide), hself₂]
  obtain ⟨s₄, t₂, h₄, -, hsessions₄, hcall₂, -, -, hout₂⟩ :=
    Steps.finish hself₃ fun j t hj ht => by
      rw [hsessions₃] at ht
      rcases Locking.Footprint.session_cases ht with ⟨-, rfl⟩ | ⟨-, ht⟩
      · exact hheld₁
      · rcases hcases₂ j t ht with ⟨rfl, -⟩ | ⟨-, rfl⟩ | ⟨-, -, hheld⟩
        · exact absurd rfl hj
        · rfl
        · exact hheld
  have hok : ∀ {x : Result}, x.isOk = true → ∃ answer, some x = some (.ok answer) := by
    intro x hx
    cases x with
    | ok answer => exact ⟨answer, rfl⟩
    | error e => cases hx
  have hstore₂ : s₂.store = (db.alone (Draws.numbered 0) Tables.empty create).2 := hstore₀
  refine ⟨s₂, s₄, h₀.trans (h₁.trans h₂), h₃.trans h₄, update, rfl, ?_⟩
  simp only [List.forall_mem_cons]
  refine ⟨⟨_, t₁, hself₁, rfl, rfl, ?_, hcall₁, ?_⟩, ⟨_, t₂, hself₂, rfl, rfl, ?_, hcall₂, ?_⟩, nofun⟩
  · rw [hsessions₄, Function.update_of_ne (by decide), hsessions₃, Function.update_self]
  · rw [hout₁, hstore₂]
    exact hok (by decide)
  · rw [hsessions₄, Function.update_self]
  · rw [hout₂, hstore₃, hstore₂]
    exact hok (by decide)

end LensoFlags.Postgres
