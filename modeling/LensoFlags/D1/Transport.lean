import LensoFlags.D1.Plan
import Mathlib.Logic.Function.Basic
import Mathlib.Logic.Relation

/-!
# Concurrent calls over an unreliable transport

Any number of calls run at once. A call reads its snapshot in one atomic batch, decides, and submits
one commit batch. The transport applies a submitted batch now, later or never, each application one
transaction; it reports success only of a batch that was applied, and failure whenever it likes. A
failed commit is reconciled by one read.

`since` and `log` are ghosts: the number of batches that had taken effect at a call's snapshot, and
the batches that took effect.

Results:
1. `Inv.step`, `Inv.reachable`: the invariant of every reachable state.
2. `Inv.represented`: the tables represent the abstract store of the log.
-/

namespace LensoFlags.D1

variable {codec : Codec} {rt : Runtime}

/-! ## States -/

inductive Fate
  | inFlight
  | applied
  | rejected
  deriving DecidableEq

/-- A submitted commit batch. -/
structure Submitted (codec : Codec) where
  statements : List (Statement codec)
  response : Response
  since : ℕ
  fate : Fate

inductive Phase
  | issued
  | awaiting
  | reconciling
  | returned (result : Result)

structure Attempt (codec : Codec) where
  call : Call
  draws : Draws
  phase : Phase
  submitted : Option (Submitted codec)

structure State (codec : Codec) where
  tables : Tables codec
  attempts : ℕ → Option (Attempt codec)
  /-- The batches that took effect, newest first. -/
  log : List (Serial.Entry Call Draws Answer)

def State.initial : State codec :=
  { tables := Tables.empty, attempts := fun _ => none, log := [] }

/-- The call after its decision: it has answered, or its commit batch is on the way. -/
def Attempt.planned (a : Attempt codec) (since : ℕ) :
    Except StorageError (Planned codec) → Attempt codec
  | .error e => { a with phase := .returned (.error e) }
  | .ok (.answered response) => { a with phase := .returned (.ok (.replayed response)) }
  | .ok (.commit statements response) =>
      { a with phase := .awaiting, submitted := some ⟨statements, response, since, .inFlight⟩ }

theorem Attempt.planned_call (a : Attempt codec) (since : ℕ)
    (planned : Except StorageError (Planned codec)) : (a.planned since planned).call = a.call := by
  rcases planned with e | response | ⟨statements, response⟩ <;> rfl

theorem Attempt.planned_draws (a : Attempt codec) (since : ℕ)
    (planned : Except StorageError (Planned codec)) :
    (a.planned since planned).draws = a.draws := by
  rcases planned with e | response | ⟨statements, response⟩ <;> rfl

/-- The state with another attempt `i`. -/
def State.set (s : State codec) (i : ℕ) (a : Attempt codec) : State codec :=
  { s with attempts := Function.update s.attempts i (some a) }

inductive Step (rt : Runtime) : State codec → State codec → Prop
  | issue {s : State codec} {i : ℕ} {call : Call} {δ : Draws} :
      s.attempts i = none → δ.Distinct →
      (∀ j a, s.attempts j = some a → δ.Disjoint a.draws) →
      Step rt s (s.set i ⟨call, δ, .issued, none⟩)
  | snapshot {s : State codec} {i : ℕ} {a : Attempt codec} :
      s.attempts i = some a → a.phase = .issued →
      Step rt s (s.set i (a.planned s.log.length (prepare rt a.draws s.tables a.call)))
  /-- The snapshot batch or its answer is lost. -/
  | lost {s : State codec} {i : ℕ} {a : Attempt codec} :
      s.attempts i = some a → a.phase = .issued →
      Step rt s (s.set i { a with phase := .returned (.error failure) })
  /-- The batch takes effect, possibly after the call has returned. The 64-bit epoch has room: 2^63
  batches are out of reach. -/
  | apply {s : State codec} {i : ℕ} {a : Attempt codec} {b : Submitted codec}
      {t' : Tables codec} :
      s.attempts i = some a → a.submitted = some b → b.fate = .inFlight →
      s.tables.epoch < Decimal.i64Max → batch s.tables b.statements = some t' →
      Step rt s
        { tables := t'
          attempts := Function.update s.attempts i
            (some { a with submitted := some { b with fate := .applied } })
          log := ⟨i, a.call, a.draws, .fresh b.response⟩ :: s.log }
  /-- A constraint fails and the batch is rolled back. -/
  | reject {s : State codec} {i : ℕ} {a : Attempt codec} {b : Submitted codec} :
      s.attempts i = some a → a.submitted = some b → b.fate = .inFlight →
      batch s.tables b.statements = none →
      Step rt s (s.set i { a with submitted := some { b with fate := .rejected } })
  | acknowledge {s : State codec} {i : ℕ} {a : Attempt codec} {b : Submitted codec} :
      s.attempts i = some a → a.phase = .awaiting → a.submitted = some b → b.fate = .applied →
      Step rt s (s.set i { a with phase := .returned (.ok (.fresh b.response)) })
  /-- Failure is reported, whatever became of the batch. -/
  | fail {s : State codec} {i : ℕ} {a : Attempt codec} :
      s.attempts i = some a → a.phase = .awaiting →
      Step rt s (s.set i { a with phase := .reconciling })
  | reconcile {s : State codec} {i : ℕ} {a : Attempt codec} :
      s.attempts i = some a → a.phase = .reconciling →
      Step rt s (s.set i { a with phase := .returned (reconcile s.tables a.call) })
  | reconcileLost {s : State codec} {i : ℕ} {a : Attempt codec} :
      s.attempts i = some a → a.phase = .reconciling →
      Step rt s (s.set i { a with phase := .returned (.error failure) })

def Steps (rt : Runtime) : State codec → State codec → Prop := Relation.ReflTransGen (Step rt)

def Reachable (rt : Runtime) (s : State codec) : Prop := Steps rt State.initial s

/-! ## The invariant of one attempt -/

/-- The command row of the key, with the call's hash and the response it was made with. -/
def Holds (t : Tables codec) (call : Call) (response : Response) : Prop :=
  ∃ row, t.command call.commandKey = some row ∧ row.requestHash = call.command.hash ∧
    encodeResponse codec response = some row.response

/-- A submitted batch opens with the guard on its snapshot's epoch and the command row of its call;
while nothing has taken effect since the snapshot, it is still what the call would plan. -/
structure Submission (rt : Runtime) (t : Tables codec)
    (log : List (Serial.Entry Call Draws Answer)) (i : ℕ) (call : Call) (δ : Draws)
    (b : Submitted codec) : Prop where
  shape : ∃ row rest, b.statements =
      .guardEpoch (toString ((b.since : Int) + 1)) :: .insertCommand row :: rest ∧
    row.key = call.commandKey
  since : b.since ≤ log.length
  current : b.fate = .inFlight → b.since = log.length →
    prepare rt δ t call = .ok (.commit b.statements b.response)
  logged : b.fate = .applied → ⟨i, call, δ, .fresh b.response⟩ ∈ log

/-- What a phase says about the tables. -/
def Settled (t : Tables codec) (a : Attempt codec) : Phase → Prop
  | .issued => a.submitted = none
  | .awaiting => True
  | .reconciling => True
  | .returned (.ok (.fresh response)) =>
      ∃ b, a.submitted = some b ∧ b.fate = .applied ∧ b.response = response
  | .returned (.ok (.replayed response)) =>
      ∃ row, t.command a.call.commandKey = some row ∧
        row.requestHash = a.call.command.hash ∧
        decodeResponse codec a.call.operation.kind row.response = some response
  | .returned (.error (.domain _)) =>
      a.submitted = none ∨ ∃ row, t.command a.call.commandKey = some row ∧
        row.requestHash ≠ a.call.command.hash
  | .returned (.error _) => True

structure Sane (rt : Runtime) (t : Tables codec) (log : List (Serial.Entry Call Draws Answer))
    (i : ℕ) (a : Attempt codec) : Prop where
  distinct : a.draws.Distinct
  submission : ∀ b, a.submitted = some b → Submission rt t log i a.call a.draws b
  settled : Settled t a a.phase

structure Inv (rt : Runtime) (s : State codec) : Prop where
  serial : Serial.Runs (D1.call rt) Tables.empty s.log s.tables
  represented : ∃ c, Represents s.tables c ∧ Abstract.Logged rt s.log c
  epoch : s.tables.epoch = s.log.length + 1
  range : s.tables.epoch ≤ Decimal.i64Max
  sane : ∀ i a, s.attempts i = some a → Sane rt s.tables s.log i a
  disjoint : ∀ i j a a', i ≠ j → s.attempts i = some a → s.attempts j = some a' →
    a.draws.Disjoint a'.draws
  /-- Every effect is that of an attempt, and its command row is in the tables. -/
  logged : ∀ e ∈ s.log, ∃ a b, s.attempts e.session = some a ∧ a.submitted = some b ∧
    b.fate = .applied ∧ e = ⟨e.session, a.call, a.draws, .fresh b.response⟩
  held : ∀ e ∈ s.log, Holds s.tables e.call e.value.response ∧
    e.value.response.kind = e.call.operation.kind

/-! ## Command rows stay -/

theorem insertReceiptRows_command {org caller actor operation : String} {fields : List ReceiptFields}
    {t t' : Tables codec} (h : insertReceiptRows org caller actor operation t fields = some t') :
    t'.commands = t.commands := by
  induction fields generalizing t with
  | nil =>
    cases h
    rfl
  | cons field fields ih =>
    obtain ⟨t₁, hinsert, hrest⟩ := Option.bind_eq_some_iff.mp h
    rw [ih hrest]
    unfold insertReceipt at hinsert
    split at hinsert
    · cases hinsert
    · cases hinsert
      rfl

theorem exec_command {statement : Statement codec} {t t' : Tables codec}
    (h : statement.exec t = some t') {key : CommandKey} {row : CommandRow codec}
    (hrow : t.command key = some row) : t'.command key = some row := by
  cases statement with
  | guardEpoch epoch =>
    simp only [Statement.exec] at h
    split at h
    · cases h; exact hrow
    · cases h
  | insertCommand new =>
    simp only [Statement.exec] at h
    split at h
    · cases h
    · next hnone =>
      cases h
      have hne : new.key ≠ key := by
        rintro rfl
        rw [hrow] at hnone
        exact hnone rfl
      exact (Table.lookup_cons_of_ne _ hne).trans hrow
  | insertFlag new =>
    simp only [Statement.exec] at h
    split at h
    · cases h
    · cases h; exact hrow
  | updateFlag => cases h; exact hrow
  | upsertEnvironment new =>
    simp only [Statement.exec] at h
    split at h <;> (cases h; exact hrow)
  | insertRuleset =>
    simp only [Statement.exec] at h
    split at h
    · cases h
    · split at h
      · cases h
      · cases h; exact hrow
  | insertReceipts =>
    rw [Tables.command, insertReceiptRows_command h]
    exact hrow
  | bumpEpoch => cases h; exact hrow
  | clearGuard => cases h; exact hrow

theorem runStatements_command {statements : List (Statement codec)} {t t' : Tables codec}
    (h : runStatements t statements = some t') {key : CommandKey} {row : CommandRow codec}
    (hrow : t.command key = some row) : t'.command key = some row := by
  induction statements generalizing t with
  | nil => cases h; exact hrow
  | cons statement statements ih =>
    obtain ⟨t₁, hexec, hrest⟩ := Option.bind_eq_some_iff.mp h
    exact ih hrest (exec_command hexec hrow)

/-- A batch that takes effect keeps every command row. -/
theorem batch_command {statements : List (Statement codec)} {t t' : Tables codec}
    (h : batch t statements = some t') {key : CommandKey} {row : CommandRow codec}
    (hrow : t.command key = some row) : t'.command key = some row := by
  unfold batch at h
  split at h
  · cases h
  · exact runStatements_command h hrow

/-! ## Reads -/

/-- Rows persist from one version of the tables to the next. -/
theorem Settled.persist {t t' : Tables codec} {a : Attempt codec} {phase : Phase}
    (hrows : ∀ key row, t.command key = some row → t'.command key = some row)
    (h : Settled t a phase) : Settled t' a phase := by
  cases phase with
  | returned result =>
    cases result with
    | ok answer =>
      cases answer with
      | fresh response => exact h
      | replayed response =>
        obtain ⟨row, hrow, hrest⟩ := h
        exact ⟨row, hrows _ _ hrow, hrest⟩
    | error e =>
      cases e with
      | domain failure =>
        refine Or.imp id ?_ h
        rintro ⟨row, hrow, hne⟩
        exact ⟨row, hrows _ _ hrow, hne⟩
      | _ => trivial
  | _ => exact h

/-- What is settled while the batch is on its way does not hang on what becomes of it. -/
theorem Settled.landed {t : Tables codec} {a : Attempt codec} {phase : Phase}
    {b : Submitted codec} (hb : a.submitted = some b) (hfate : b.fate = .inFlight)
    (b' : Submitted codec) (h : Settled t a phase) :
    Settled t { a with submitted := some b' } phase := by
  cases phase with
  | issued =>
    rw [Settled, hb] at h
    cases h
  | returned result =>
    cases result with
    | ok answer =>
      cases answer with
      | fresh response =>
        obtain ⟨b₁, hb₁, happlied, -⟩ := h
        rw [hb] at hb₁
        cases hb₁
        rw [hfate] at happlied
        cases happlied
      | replayed response => exact h
    | error e =>
      cases e with
      | domain failure =>
        rcases h with hnone | hrow
        · rw [hb] at hnone
          cases hnone
        · exact .inr hrow
      | _ => trivial
  | _ => trivial

theorem reconcile_settled {t : Tables codec} {c : Abstract.Store codec} {a : Attempt codec}
    (hr : Represents t c) (hs : Abstract.Sound rt c) :
    Settled t a (.returned (reconcile t a.call)) := by
  unfold reconcile
  rw [Table.filter_key (hr.commandKeys hs)]
  cases hrow : Table.lookup CommandRow.key a.call.commandKey t.commands with
  | none => trivial
  | some row =>
    change Settled t a (.returned ((if row.requestHash ≠ a.call.command.hash then _ else _) >>= _))
    by_cases hhash : row.requestHash = a.call.command.hash
    · rw [if_neg (not_not.mpr hhash)]
      cases hdecode : decodeResponse codec a.call.operation.kind row.response with
      | none => trivial
      | some response => exact ⟨row, hrow, hhash, hdecode⟩
    · rw [if_pos hhash]
      exact .inr ⟨row, hrow, hhash⟩

/-! ## Steps -/

section Steps

variable {s s' : State codec} {i : ℕ} {a : Attempt codec}

theorem Inv.initial : Inv rt (State.initial : State codec) where
  serial := .nil
  represented := ⟨_, .empty, .empty⟩
  epoch := rfl
  range := show (1 : Int) ≤ Decimal.i64Max by decide
  sane := fun _ _ h => nomatch h
  disjoint := fun _ _ _ _ _ h => nomatch h
  logged := fun _ h => nomatch h
  held := fun _ h => nomatch h

/-- What an attempt other than the updated one is. -/
theorem attempt_cases {attempts : ℕ → Option (Attempt codec)} {j : ℕ} {a' u : Attempt codec}
    (h : Function.update attempts i (some a') j = some u) :
    (j = i ∧ u = a') ∨ (j ≠ i ∧ attempts j = some u) := by
  by_cases hj : j = i
  · subst hj
    rw [Function.update_self] at h
    exact .inl ⟨rfl, (Option.some.inj h).symm⟩
  · rw [Function.update_of_ne hj] at h
    exact .inr ⟨hj, h⟩

/-- An attempt moves on without an effect. -/
theorem Inv.set (hi : Inv rt s) (ha : s.attempts i = some a) {a' : Attempt codec}
    (hcall : a'.call = a.call) (hdraws : a'.draws = a.draws)
    (happlied : ∀ b, a.submitted = some b → b.fate = .applied → a'.submitted = some b)
    (hsane : Sane rt s.tables s.log i a') : Inv rt (s.set i a') where
  serial := hi.serial
  represented := hi.represented
  epoch := hi.epoch
  range := hi.range
  sane := by
    intro j u hu
    rcases attempt_cases hu with ⟨rfl, rfl⟩ | ⟨-, hu⟩
    · exact hsane
    · exact hi.sane j u hu
  disjoint := by
    intro j k u v hjk hu hv
    rcases attempt_cases hu with ⟨rfl, rfl⟩ | ⟨-, hu'⟩
    · rcases attempt_cases hv with ⟨rfl, rfl⟩ | ⟨-, hv'⟩
      · exact absurd rfl hjk
      · rw [hdraws]
        exact hi.disjoint _ _ _ _ hjk ha hv'
    · rcases attempt_cases hv with ⟨rfl, rfl⟩ | ⟨-, hv'⟩
      · rw [hdraws]
        exact hi.disjoint _ _ _ _ hjk hu' ha
      · exact hi.disjoint _ _ _ _ hjk hu' hv'
  logged := by
    intro e he
    obtain ⟨u, b, hu, hb, hfate, heq⟩ := hi.logged e he
    by_cases hj : e.session = i
    · rw [hj, ha] at hu
      cases hu
      exact ⟨a', b, by rw [hj]; exact Function.update_self .., happlied b hb hfate, hfate,
        by rw [hcall, hdraws]; exact heq⟩
    · exact ⟨u, b, (Function.update_of_ne hj ..).trans hu, hb, hfate, heq⟩
  held := hi.held

/-- An attempt without an applied batch is in no entry of the log. -/
theorem Inv.notLogged (hi : Inv rt s) (ha : s.attempts i = some a)
    (hnone : ∀ b, a.submitted = some b → b.fate ≠ .applied) : ∀ e ∈ s.log, e.session ≠ i := by
  rintro e he rfl
  obtain ⟨u, b, hu, hb, hfate, -⟩ := hi.logged e he
  rw [ha] at hu
  cases hu
  exact hnone b hb hfate

theorem stamp_drawnFrom (rt : Runtime) (δ : Draws) (t : Tables codec) :
    (stamp rt δ t).DrawnFrom δ :=
  ⟨id, fun _ _ h => h, fun _ => rfl⟩

/-- The represented store, for which the draws of an attempt outside the log are fresh. -/
theorem Inv.fresh (hi : Inv rt s) (ha : s.attempts i = some a)
    (hnone : ∀ b, a.submitted = some b → b.fate ≠ .applied) :
    ∃ c, Represents s.tables c ∧ Abstract.Logged rt s.log c ∧
      (stamp rt a.draws s.tables).Fresh c := by
  obtain ⟨c, hr, hlogged⟩ := hi.represented
  refine ⟨c, hr, hlogged, hlogged.freshIds (stamp_drawnFrom rt a.draws s.tables)
    (hi.sane i a ha).distinct ?_, hr.freshSeqs rt a.draws⟩
  intro e he
  obtain ⟨u, b, hu, -, -, heq⟩ := hi.logged e he
  rw [heq]
  exact hi.disjoint _ _ _ _ (Ne.symm (hi.notLogged ha hnone e he)) ha hu

/-- A replay finds the row of its key, with its hash. -/
theorem replay_eq_some {t : Tables codec} {c : Abstract.Store codec} {call : Call}
    {response : Response} (hr : Represents t c)
    (h : Abstract.replay c call = .ok (some response)) :
    ∃ row, t.command call.commandKey = some row ∧ row.requestHash = call.command.hash ∧
      decodeResponse codec call.operation.kind row.response = some response := by
  rw [Abstract.replay, hr.command] at h
  cases hrow : t.command call.commandKey with
  | none =>
    rw [hrow] at h
    cases h
  | some row =>
    rw [hrow] at h
    change (if row.requestHash ≠ call.command.hash then _ else _) = _ at h
    split at h
    · cases h
    · next hhash =>
      change (orJson (decodeResponse codec call.operation.kind row.response)).map some = _ at h
      cases hdecode : decodeResponse codec call.operation.kind row.response with
      | none =>
        rw [hdecode] at h
        cases h
      | some response' =>
        rw [hdecode] at h
        cases h
        exact ⟨row, rfl, not_not.mp hhash, hdecode⟩

/-- What a call plans on the current tables is what the abstract store does with it. -/
theorem Inv.plans (hi : Inv rt s) (ha : s.attempts i = some a)
    (hnone : ∀ b, a.submitted = some b → b.fate ≠ .applied) {planned : Planned codec}
    (hprepare : prepare rt a.draws s.tables a.call = .ok planned) :
    ∃ c answer c', Represents s.tables c ∧ Abstract.Logged rt s.log c ∧
      (stamp rt a.draws s.tables).Fresh c ∧
      Abstract.attempt rt (stamp rt a.draws s.tables) c a.call = .ok (answer, c') ∧
      Plans s.tables c a.call planned (answer, c') := by
  obtain ⟨c, hr, hlogged, hfresh⟩ := hi.fresh ha hnone
  rcases prepare_cases hr hlogged.run.sound hfresh hi.range a.call with hagree | ⟨herror, -⟩
  · rw [hprepare] at hagree
    obtain ⟨⟨answer, c'⟩, hattempt, hplans⟩ := hagree.of_ok
    exact ⟨c, answer, c', hr, hlogged, hfresh, hattempt, hplans⟩
  · rw [hprepare] at herror
    cases herror

/-- The decision on a snapshot. -/
theorem Inv.sane_planned (hi : Inv rt s) (ha : s.attempts i = some a) (hphase : a.phase = .issued) :
    Sane rt s.tables s.log i
      (a.planned s.log.length (prepare rt a.draws s.tables a.call)) := by
  have hsane := hi.sane i a ha
  have hnone : a.submitted = none := by
    have h := hsane.settled
    rwa [hphase] at h
  have hunapplied : ∀ b, a.submitted = some b → b.fate ≠ .applied := by
    intro b hb
    rw [hnone] at hb
    cases hb
  cases hprepare : prepare rt a.draws s.tables a.call with
  | error e =>
    refine ⟨hsane.distinct, hsane.submission, ?_⟩
    cases e with
    | domain failure => exact .inl hnone
    | _ => trivial
  | ok planned =>
    obtain ⟨c, answer, c', hr, -, -, hattempt, hplans⟩ := hi.plans ha hunapplied hprepare
    cases hplans with
    | answered response =>
      refine ⟨hsane.distinct, hsane.submission, ?_⟩
      rcases Abstract.attempt_eq_ok hattempt with ⟨_, heq, -, hreplay⟩ | ⟨_, heq, -, -⟩
      · cases heq
        exact replay_eq_some hr hreplay
      · cases heq
    | @commit row rest response t' _ hkey =>
      refine ⟨hsane.distinct, fun b hb => ?_, trivial⟩
      cases hb
      exact
        { shape := ⟨row, rest, by rw [hi.epoch], hkey⟩
          since := le_rfl
          current := fun _ _ => hprepare
          logged := nofun }

/-- A batch in flight has not taken effect. -/
theorem unapplied_of_inFlight {b : Submitted codec} (hb : a.submitted = some b)
    (hfate : b.fate = .inFlight) : ∀ b', a.submitted = some b' → b'.fate ≠ .applied := by
  intro b' hb'
  rw [hb] at hb'
  cases hb'
  rw [hfate]
  exact Fate.noConfusion

/-- What a batch in flight does when it takes effect: the call, on the store of that moment. -/
theorem Inv.took {b : Submitted codec} {t' : Tables codec} (hi : Inv rt s)
    (ha : s.attempts i = some a) (hb : a.submitted = some b) (hfate : b.fate = .inFlight)
    (hbatch : batch s.tables b.statements = some t') :
    ∃ c c', Represents s.tables c ∧ Abstract.Logged rt s.log c ∧
      (stamp rt a.draws s.tables).Fresh c ∧
      Abstract.attempt rt (stamp rt a.draws s.tables) c a.call = .ok (.fresh b.response, c') ∧
      Represents t' c' ∧ t'.epoch = s.tables.epoch + 1 ∧
      D1.call rt a.draws s.tables a.call = (.ok (.fresh b.response), t') := by
  have hsub := (hi.sane i a ha).submission b hb
  have hunapplied := unapplied_of_inFlight hb hfate
  -- The guard has passed, so nothing has taken effect since the snapshot.
  have hsince : b.since = s.log.length := by
    obtain ⟨row, rest, hstatements, -⟩ := hsub.shape
    by_contra hne
    have hepoch : s.tables.epoch ≠ (b.since : Int) + 1 := by
      have := hi.epoch
      omega
    rw [hstatements, batch_stale hepoch] at hbatch
    cases hbatch
  have hprepare := hsub.current hfate hsince
  obtain ⟨c, answer, c', hr, hlogged, hfresh, hattempt, hplans⟩ := hi.plans ha hunapplied hprepare
  generalize b.statements = statements at hplans hprepare hbatch
  generalize b.response = response at hplans hprepare ⊢
  cases hplans with
  | @commit row rest _ t'' _ hkey hhash hstored hbatch' hepoch hr' =>
    rw [hbatch'] at hbatch
    cases hbatch
    refine ⟨c, c', hr, hlogged, hfresh, hattempt, hr', hepoch, ?_⟩
    rw [D1.call, hprepare]
    simp only [hbatch']

/-- What a call that was not a replay leaves behind for its retries. -/
theorem holds_of_fresh {σ : Abstract.Stamp} {c c' : Abstract.Store codec} {response : Response}
    {call : Call} (hr : Represents t c') (h : Abstract.fresh rt σ c call = .ok (response, c')) :
    Holds t call response ∧ response.kind = call.operation.kind := by
  obtain ⟨stored, hstored, hcommands⟩ := Abstract.fresh_commands h
  have hrow : c'.command call.commandKey = some ⟨call.commandKey, call.command.hash, stored⟩ := by
    rw [Abstract.Store.command, hcommands]
    exact Table.lookup_cons_self ..
  rw [hr.command] at hrow
  obtain ⟨row, hrow, heq⟩ := Option.map_eq_some_iff.mp hrow
  obtain ⟨-, hhash, hresponse⟩ := Abstract.CommandRow.mk.inj heq
  obtain ⟨_, _, heffect, -⟩ := Abstract.fresh_effect h
  exact ⟨⟨row, hrow, hhash, by rw [hresponse, hstored]⟩, heffect.kind⟩

/-- A batch takes effect. -/
theorem Inv.apply {b : Submitted codec} {t' : Tables codec} (hi : Inv rt s)
    (ha : s.attempts i = some a) (hb : a.submitted = some b) (hfate : b.fate = .inFlight)
    (hroom : s.tables.epoch < Decimal.i64Max) (hbatch : batch s.tables b.statements = some t') :
    Inv rt
      { tables := t'
        attempts := Function.update s.attempts i
          (some { a with submitted := some { b with fate := .applied } })
        log := ⟨i, a.call, a.draws, .fresh b.response⟩ :: s.log } := by
  have hsane := hi.sane i a ha
  have hunapplied := unapplied_of_inFlight hb hfate
  obtain ⟨c, c', hr, hlogged, hfresh, hattempt, hr', hepoch, hcall⟩ := hi.took ha hb hfate hbatch
  have hrows : ∀ key row, s.tables.command key = some row → t'.command key = some row :=
    fun _ _ hrow => batch_command hbatch hrow
  obtain ⟨_, heq, -, heffect⟩ : ∃ response, Answer.fresh b.response = .fresh response ∧
      c.command a.call.commandKey = none ∧
      Abstract.fresh rt (stamp rt a.draws s.tables) c a.call = .ok (response, c') := by
    rcases Abstract.attempt_eq_ok hattempt with ⟨_, heq, -, -⟩ | hnew
    · cases heq
    · exact hnew
  cases heq
  obtain ⟨hheld, hkind⟩ := holds_of_fresh hr' heffect
  refine
    { serial := .cons hi.serial hcall
      represented := ⟨c', hr', hlogged.cons (stamp_drawnFrom rt _ _) hfresh hattempt⟩
      epoch := by rw [hepoch, hi.epoch, List.length_cons]; rfl
      range := by rw [hepoch]; exact hroom
      sane := ?sane
      disjoint := ?disjoint
      logged := ?logged
      held := ?held }
  case sane =>
    intro j u hu
    rcases attempt_cases hu with ⟨rfl, rfl⟩ | ⟨-, hu⟩
    -- The batch that took effect is in the log from now on.
    · have hsub := hsane.submission b hb
      refine ⟨hsane.distinct, fun b' hb' => ?_, (hsane.settled.persist hrows).landed hb hfate _⟩
      cases hb'
      exact
        { shape := hsub.shape
          since := hsub.since.trans (Nat.le_succ _)
          current := fun h => Fate.noConfusion h
          logged := fun _ => List.mem_cons_self }
    · -- A batch of another attempt that is still in flight is now stale.
      have hold := hi.sane j u hu
      refine ⟨hold.distinct, fun b' hb' => ?_, hold.settled.persist hrows⟩
      have hsub' := hold.submission b' hb'
      exact
        { shape := hsub'.shape
          since := hsub'.since.trans (Nat.le_succ _)
          current := fun _ heq => absurd hsub'.since (by rw [heq]; exact Nat.not_succ_le_self _)
          logged := fun happlied => List.mem_cons_of_mem _ (hsub'.logged happlied) }
  case disjoint =>
    intro j k u v hjk hu hv
    rcases attempt_cases hu with ⟨rfl, rfl⟩ | ⟨-, hu'⟩
    · rcases attempt_cases hv with ⟨rfl, rfl⟩ | ⟨-, hv'⟩
      · exact absurd rfl hjk
      · exact hi.disjoint j k a v hjk ha hv'
    · rcases attempt_cases hv with ⟨rfl, rfl⟩ | ⟨-, hv'⟩
      · exact hi.disjoint j k u a hjk hu' ha
      · exact hi.disjoint j k u v hjk hu' hv'
  case logged =>
    intro e he
    rcases List.mem_cons.mp he with rfl | he
    · exact ⟨_, _, Function.update_self .., rfl, rfl, rfl⟩
    · obtain ⟨u, b', hu, hrest⟩ := hi.logged e he
      exact ⟨u, b', (Function.update_of_ne (hi.notLogged ha hunapplied e he) ..).trans hu, hrest⟩
  case held =>
    intro e he
    rcases List.mem_cons.mp he with rfl | he
    · exact ⟨hheld, hkind⟩
    · obtain ⟨⟨row, hrow, hrest⟩, hkind⟩ := hi.held e he
      exact ⟨⟨row, hrows _ _ hrow, hrest⟩, hkind⟩

/-- The tables change when a batch takes effect, and then as its call changes the store. -/
theorem Step.took (hi : Inv rt s) (h : Step rt s s') :
    (s'.tables = s.tables ∧ s'.log = s.log) ∨
      ∃ e c c', s'.log = e :: s.log ∧ Represents s.tables c ∧ Abstract.Sound rt c ∧
        Represents s'.tables c' ∧ Abstract.Took rt e.call e.value c c' := by
  cases h with
  | apply ha hb hfate _ hbatch =>
    obtain ⟨c, c', hr, hlogged, hfresh, hattempt, hr', -⟩ := hi.took ha hb hfate hbatch
    exact .inr ⟨_, c, c', rfl, hr, hlogged.run.sound, hr', _, hfresh, hattempt⟩
  | _ => exact .inl ⟨rfl, rfl⟩

/-- One step of any attempt keeps the invariant. -/
theorem Inv.step (hi : Inv rt s) (h : Step rt s s') : Inv rt s' := by
  cases h with
  | @issue i call δ hnone hdistinct hdisjoint =>
    exact
      { serial := hi.serial
        represented := hi.represented
        epoch := hi.epoch
        range := hi.range
        sane := by
          intro j u hu
          rcases attempt_cases hu with ⟨rfl, rfl⟩ | ⟨-, hu⟩
          · exact ⟨hdistinct, fun _ hb => (nomatch hb), rfl⟩
          · exact hi.sane j u hu
        disjoint := by
          intro j k u v hjk hu hv
          rcases attempt_cases hu with ⟨rfl, rfl⟩ | ⟨-, hu'⟩
          · rcases attempt_cases hv with ⟨rfl, rfl⟩ | ⟨-, hv'⟩
            · exact absurd rfl hjk
            · exact hdisjoint k v hv'
          · rcases attempt_cases hv with ⟨rfl, rfl⟩ | ⟨-, hv'⟩
            · exact fun m n => (hdisjoint j u hu' n m).symm
            · exact hi.disjoint j k u v hjk hu' hv'
        logged := by
          intro e he
          obtain ⟨u, b, hu, hrest⟩ := hi.logged e he
          have hne : e.session ≠ i := by
            rintro rfl
            rw [hnone] at hu
            cases hu
          exact ⟨u, b, (Function.update_of_ne hne ..).trans hu, hrest⟩
        held := hi.held }
  | @snapshot i a ha hphase =>
    have hnone : a.submitted = none := by
      have hsettled := (hi.sane i a ha).settled
      rwa [hphase] at hsettled
    refine hi.set ha (a.planned_call ..) (a.planned_draws ..) (fun b hb _ => ?_)
      (hi.sane_planned ha hphase)
    -- Nothing was submitted before the plan.
    rw [hnone] at hb
    cases hb
  | @lost i a ha hphase =>
    have hsane := hi.sane i a ha
    exact hi.set ha rfl rfl (fun _ hb _ => hb) ⟨hsane.distinct, hsane.submission, trivial⟩
  | apply ha hb hfate hroom hbatch => exact hi.apply ha hb hfate hroom hbatch
  | @reject i a b ha hb hfate hbatch =>
    have hsane := hi.sane i a ha
    have hsub := hsane.submission b hb
    refine hi.set ha rfl rfl (fun b' hb' happlied => ?_)
      ⟨hsane.distinct, fun b' hb' => ?_, hsane.settled.landed hb hfate _⟩
    · rw [hb] at hb'
      cases hb'
      rw [hfate] at happlied
      cases happlied
    · cases hb'
      exact { shape := hsub.shape, since := hsub.since, current := nofun, logged := nofun }
  | @acknowledge i a b ha hphase hb hfate =>
    have hsane := hi.sane i a ha
    exact hi.set ha rfl rfl (fun _ hb _ => hb)
      ⟨hsane.distinct, hsane.submission, b, hb, hfate, rfl⟩
  | @fail i a ha hphase =>
    have hsane := hi.sane i a ha
    exact hi.set ha rfl rfl (fun _ hb _ => hb) ⟨hsane.distinct, hsane.submission, trivial⟩
  | @reconcile i a ha hphase =>
    have hsane := hi.sane i a ha
    obtain ⟨c, hr, hlogged⟩ := hi.represented
    refine hi.set ha rfl rfl (fun _ hb _ => hb) ⟨hsane.distinct, hsane.submission, ?_⟩
    exact reconcile_settled (a := { a with phase := .returned (reconcile s.tables a.call) }) hr
      hlogged.run.sound
  | @reconcileLost i a ha hphase =>
    have hsane := hi.sane i a ha
    exact hi.set ha rfl rfl (fun _ hb _ => hb) ⟨hsane.distinct, hsane.submission, trivial⟩

theorem Inv.reachable (h : Reachable rt s) : Inv rt s := by
  induction h with
  | refl => exact .initial
  | tail _ hstep ih => exact ih.step hstep

end Steps

end LensoFlags.D1
