import LensoFlags.D1.Delivery
import LensoFlags.Postgres.Serializable

/-!
# Failed calls

Results:
1. `D1.call_error`, `Postgres.alone_error`: a call that fails leaves the tables as they are.
2. `failed_traceless`: a call that got a domain error might as well not have been made.
-/

namespace LensoFlags

variable {codec : Codec} {describe : Postgres.DbError → String} {rt : Runtime}

/-! ## D1 -/

section D1

variable {s : D1.State codec} {i : ℕ} {a : D1.Attempt codec} {failure : DomainFailure}

theorem D1.call_error {δ : Draws} {t : D1.Tables codec} {call : Call} {e : StorageError}
    (h : (D1.call rt δ t call).1 = .error e) : (D1.call rt δ t call).2 = t := by
  rw [D1.call] at h ⊢
  split at h
  · rfl
  · cases h
  · split at h
    · cases h
    · rfl

/-- Attempt `i` has changed nothing and never will: the state without it, with the same tables, is
reachable, all that can happen from here can happen without it, and a call made next, with whatever
key and payload, gets the same answer and leaves the same tables without it. -/
structure D1.Traceless (rt : Runtime) (s : D1.State codec) (i : ℕ) : Prop where
  unlogged : ∀ s', D1.Steps rt s s' → ∀ e ∈ s'.log, e.session ≠ i
  serial : ∀ s', D1.Steps rt s s' →
    Serial.Runs (D1.call rt) D1.Tables.empty s'.log s'.tables
  absent : D1.Reachable rt (s.erase i)
  later : ∀ s', D1.Steps rt s s' → D1.Steps rt (s.erase i) (s'.erase i)
  next : ∀ j call δ, s.attempts j = none → Draws.Distinct δ →
    (∀ k u, s.attempts k = some u → δ.Disjoint u.draws) → s.tables.epoch < Decimal.i64Max →
      ∃ s' a, D1.Steps rt s s' ∧ D1.Steps rt (s.erase i) (s'.erase i) ∧
        (s'.erase i).attempts j = some a ∧ a.call = call ∧
        a.phase = .returned (D1.call rt δ (s.erase i).tables call).1 ∧
        (s'.erase i).tables = (D1.call rt δ (s.erase i).tables call).2

theorem D1.traceless (h : D1.Reachable rt s) (ha : s.attempts i = some a)
    (hphase : a.phase = .returned (.error (.domain failure))) : D1.Traceless rt s i := by
  have hunlogged : ∀ s', D1.Steps rt s s' → ∀ e ∈ s'.log, e.session ≠ i := by
    intro s' hs
    obtain ⟨a', ha', -, hphase'⟩ := hs.returned ha hphase
    exact (D1.Inv.reachable (h.trans hs)).domain_notLogged ha' hphase'
  refine ⟨hunlogged, fun s' hs => (D1.Inv.reachable (h.trans hs)).serial,
    h.erase (hunlogged s .refl), fun s' hs => hs.erase (hunlogged s' hs),
    fun j call δ hnone hdistinct hdisjoint hroom => ?_⟩
  obtain ⟨s', a', hs, htables, hset, hcall, -, hreturned, -⟩ :=
    @D1.Steps.alone codec rt s j call δ hnone hdistinct hdisjoint hroom
  have hj : j ≠ i := by
    intro hj
    rw [hj, ha] at hnone
    cases hnone
  refine ⟨s', a', hs, hs.erase (hunlogged s' hs), ?_, hcall, hreturned, htables⟩
  rw [s'.erase_of_ne hj, hset, Function.update_self]

end D1

/-! ## PostgreSQL -/

section Postgres

variable {s : Postgres.State codec describe rt} {i : ℕ}
  {t : (Postgres.store codec describe rt).Session}

theorem Postgres.alone_error {δ : Draws} {t : Postgres.Tables codec} {call : Call}
    {e : StorageError} (h : ((Postgres.store codec describe rt).alone δ t call).1 = .error e) :
    ((Postgres.store codec describe rt).alone δ t call).2 = t := by
  rw [Locking.Database.alone] at h ⊢
  split at h
  · cases h
  · rfl

/-- As `D1.Traceless`; the call made next finds no lock held. -/
structure Postgres.Traceless (s : Postgres.State codec describe rt) (i : ℕ) : Prop where
  unlogged : ∀ s', Postgres.Steps s s' → ∀ e ∈ s'.log, e.session ≠ i
  serial : ∀ s', Postgres.Steps s s' →
    Serial.Runs (Postgres.store codec describe rt).alone Postgres.Tables.empty s'.log s'.store
  absent : Postgres.Reachable (s.erase i)
  later : ∀ s', Postgres.Steps s s' → Postgres.Steps (s.erase i) (s'.erase i)
  next : ∀ j call δ, s.sessions j = none → Postgres.Unrepeated δ →
    (∀ k u, s.sessions k = some u → Postgres.Unshared δ u.draws) →
    (∀ k u, s.sessions k = some u → u.held = []) →
      ∃ s' t, Postgres.Steps s s' ∧ Postgres.Steps (s.erase i) (s'.erase i) ∧
        (s'.erase i).sessions j = some t ∧ t.call = call ∧
        t.outcome =
          some ((Postgres.store codec describe rt).alone δ (s.erase i).store call).1 ∧
        (s'.erase i).store = ((Postgres.store codec describe rt).alone δ (s.erase i).store call).2

theorem Postgres.traceless (h : Postgres.Reachable s) (ht : s.sessions i = some t)
    {e : StorageError} (hout : t.outcome = some (.error e)) : Postgres.Traceless s i := by
  have hunlogged : ∀ s', Postgres.Steps s s' → ∀ e ∈ s'.log, e.session ≠ i := fun s' hs =>
    (Postgres.Inv.reachable (h.trans hs)).error_notLogged (hs.returned ht hout) hout
  refine ⟨hunlogged, fun s' hs => (Postgres.Inv.reachable (h.trans hs)).locking.serial,
    h.erase (hunlogged s .refl), fun s' hs => hs.erase (hunlogged s' hs),
    fun j call δ hnone hδ hother hidle => ?_⟩
  obtain ⟨s', t', hs, hstore, hset, hcall, -, -, hout'⟩ :=
    Postgres.Steps.alone call hnone hδ hother hidle
  have hj : j ≠ i := by
    intro hj
    rw [hj, ht] at hnone
    cases hnone
  refine ⟨s', t', hs, hs.erase (hunlogged s' hs), ?_, hcall, hout', hstore⟩
  rw [s'.erase_of_ne hj, hset, Function.update_self]

end Postgres

/-! ## Both backends -/

/-- A call that got a domain error leaves no trace: interleaved with others it has changed nothing
and never will, and it might as well not have been made; run alone it leaves the tables as they
are. -/
theorem failed_traceless :
    (∀ (s : D1.State codec) i a failure, D1.Reachable rt s → s.attempts i = some a →
      a.phase = .returned (.error (.domain failure)) → D1.Traceless rt s i) ∧
    (∀ (s : Postgres.State codec describe rt) i t failure, Postgres.Reachable s →
      s.sessions i = some t → t.outcome = some (.error (.domain failure)) →
        Postgres.Traceless s i) ∧
    (∀ δ (t : D1.Tables codec) call failure,
      (D1.call rt δ t call).1 = .error (.domain failure) → (D1.call rt δ t call).2 = t) ∧
    ∀ δ (t : Postgres.Tables codec) call failure,
      ((Postgres.store codec describe rt).alone δ t call).1 = .error (.domain failure) →
        ((Postgres.store codec describe rt).alone δ t call).2 = t :=
  ⟨fun _ _ _ _ h ha hphase => D1.traceless h ha hphase,
    fun _ _ _ _ h ht hout => Postgres.traceless h ht hout,
    fun _ _ _ _ h => D1.call_error h, fun _ _ _ _ h => Postgres.alone_error h⟩

/-- A batch whose second flag is not there, and a publication that expects an older revision. -/
theorem failed_traceless_missing :
    (∃ (s : D1.State Codec.verbatim) (a : D1.Attempt Codec.verbatim) (i : ℕ),
      s.attempts i = some a ∧ a.call.operation =
          .evaluateBatch "org" "prod" ["flag", "missing"] "user-1" [] "hash" ∧
        a.phase = .returned (.error (.domain .flagNotFound)) ∧
        s.tables.receipts.length = 1 ∧ D1.Traceless (.atEpoch []) s i) ∧
    ∃ (s : Postgres.State Codec.verbatim (fun _ => "") (.atEpoch []))
      (t : (Postgres.store Codec.verbatim (fun _ => "") (.atEpoch [])).Session) (i : ℕ),
      s.sessions i = some t ∧ t.call.operation = .publishRuleset "org" "flag" "prod" 2 1
          ⟨[⟨"on", ⟨"boolean", some true, none, none, none, none⟩⟩], [], [], "on"⟩ ∧
        t.outcome = some (.error (.domain .revisionConflict)) ∧
        s.store.rulesets.length = 1 ∧ Postgres.Traceless s i := by
  let batch : Call := ⟨⟨"caller", "actor", "key-5", [5]⟩,
    .evaluateBatch "org" "prod" ["flag", "missing"] "user-1" [] "hash"⟩
  let publish : Call := ⟨⟨"caller", "actor", "key-5", [5]⟩,
    .publishRuleset "org" "flag" "prod" 2 1
      ⟨[⟨"on", ⟨"boolean", some true, none, none, none, none⟩⟩], [], [], "on"⟩⟩
  obtain ⟨hd1, hpostgres, -⟩ := @failed_traceless Codec.verbatim (fun _ => "") (.atEpoch [])
  obtain ⟨s, s', a, hs, hsteps, htables, htables', ha, hcall, hphase⟩ :=
    @D1.exists_last Codec.verbatim (.atEpoch []) firstCalls batch (by decide)
  obtain ⟨t, t', b, ht, hsteps', hstore, hstore', hb, hcall', hout⟩ :=
    @Postgres.exists_last Codec.verbatim (fun _ => "") (.atEpoch []) firstCalls publish
  rw [htables] at hphase htables'
  rw [hstore] at hout hstore'
  exact ⟨⟨s', a, 4, ha, by rw [hcall], hphase, by rw [htables']; decide,
      hd1 s' 4 a .flagNotFound (hs.trans hsteps) ha hphase⟩,
    t', b, 4, hb, by rw [hcall'], hout, by rw [hstore']; decide,
    hpostgres t' 4 b .revisionConflict (ht.trans hsteps') hb hout⟩

end LensoFlags
