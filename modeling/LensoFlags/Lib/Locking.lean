import Mathlib.Data.List.Basic
import Mathlib.Logic.Function.Basic
import Mathlib.Logic.Relation
import LensoFlags.Lib.Serial

/-!
# Transactions that lock what they read

A transaction is a `Program` of statements. Statements of several transactions interleave; each
sees the committed store under the transaction's own writes, takes the locks its reply calls for
and holds them to the end. `Database` fixes the meaning of the statements, `Step` the interleaved
execution.

A statement whose reads are not all locked is harmless in three cases, which `Guarded` allows: its
reply cannot change as the store grows (`stable`), it is followed by a failure (`lax`), or the next
statement locks what it read and fails unless the reply still holds (`Revalidates`).

Results:
1. `reachable_serial`: if every body is guarded, the committed store of a reachable state and every
   committed value are those of running the committed transactions alone, in commit order.
2. `Inv.returned`, `Inv.logged`, `Inv.once`: a transaction returned a value exactly when it
   committed, and it committed once.
3. `Inv.failed`: a transaction that failed over what it had locked failed as it would have alone.
4. `Step.erase`: a transaction that does not commit leaves the others' steps as they are without it.
-/

namespace Locking

/-! ## Programs -/

inductive Mode
  | shared
  | exclusive
  deriving DecidableEq

/-- Two owners can hold the modes on one resource at once. -/
def Mode.compatible : Mode → Mode → Bool
  | .shared, .shared => true
  | _, _ => false

theorem Mode.compatible_comm (m m' : Mode) : m.compatible m' = m'.compatible m := by
  cases m <;> cases m' <;> rfl

inductive Program (Stmt : Type) (Reply : Stmt → Type) (Err α : Type)
  | ret (a : α)
  | fail (e : Err)
  | step (s : Stmt) (k : Reply s → Program Stmt Reply Err α)

namespace Program

variable {Stmt : Type} {Reply : Stmt → Type} {Err α β : Type}

protected def bind :
    Program Stmt Reply Err α → (α → Program Stmt Reply Err β) → Program Stmt Reply Err β
  | ret a, f => f a
  | fail e, _ => fail e
  | step s k, f => step s fun r => (k r).bind f

instance : Monad (Program Stmt Reply Err) where
  pure := ret
  bind := Program.bind

/-- One statement, with its reply as the value. -/
def perform (s : Stmt) : Program Stmt Reply Err (Reply s) := step s ret

@[simp] theorem pure_eq (a : α) : (pure a : Program Stmt Reply Err α) = ret a := rfl

@[simp] theorem ret_bind (a : α) (f : α → Program Stmt Reply Err β) : (ret a >>= f) = f a := rfl

@[simp] theorem fail_bind (e : Err) (f : α → Program Stmt Reply Err β) :
    (fail e >>= f) = fail e := rfl

@[simp] theorem step_bind (s : Stmt) (k : Reply s → Program Stmt Reply Err α)
    (f : α → Program Stmt Reply Err β) : (step s k >>= f) = step s fun r => k r >>= f := rfl

theorem bind_ret (p : Program Stmt Reply Err α) : p.bind ret = p := by
  induction p with
  | ret a => rfl
  | fail e => rfl
  | step s k ih => exact congrArg (step s) (funext ih)

theorem bind_bind {γ : Type} (p : Program Stmt Reply Err α) (f : α → Program Stmt Reply Err β)
    (g : β → Program Stmt Reply Err γ) : (p.bind f).bind g = p.bind fun a => (f a).bind g := by
  induction p with
  | ret a => rfl
  | fail e => rfl
  | step s k ih => exact congrArg (step s) (funext ih)

instance : LawfulMonad (Program Stmt Reply Err) :=
  LawfulMonad.mk' _ bind_ret (fun _ _ => rfl) bind_bind

@[simp] theorem perform_bind (s : Stmt) (f : Reply s → Program Stmt Reply Err β) :
    (perform s >>= f) = step s f := rfl

end Program

/-! ## Databases -/

/-- What the statements of a database do, and the programs its calls run. -/
structure Database where
  Stmt : Type
  Reply : Stmt → Type
  Draw : Type
  Store : Type
  Write : Type
  Res : Type
  Err : Type
  Value : Type
  Call : Type
  exec : Draw → (s : Stmt) → Store → Reply s × List Write
  apply : Write → Store → Store
  /-- The locks a statement takes when it gives the reply; it waits while they are not free. -/
  locks : (s : Stmt) → Reply s → List (Res × Mode)
  body : Call → Program Stmt Reply Err Value
  /-- An error a transaction can end with at any time: a lost connection, a cancelled statement. -/
  interrupts : Err → Prop

namespace Database

variable (db : Database)

abbrev Body := Program db.Stmt db.Reply db.Err db.Value

def applyAll (ws : List db.Write) (c : db.Store) : db.Store :=
  ws.foldl (fun c w => db.apply w c) c

@[simp] theorem applyAll_nil (c : db.Store) : db.applyAll [] c = c := rfl

@[simp] theorem applyAll_cons (w : db.Write) (ws : List db.Write) (c : db.Store) :
    db.applyAll (w :: ws) c = db.applyAll ws (db.apply w c) := rfl

theorem applyAll_append (ws ws' : List db.Write) (c : db.Store) :
    db.applyAll (ws ++ ws') c = db.applyAll ws' (db.applyAll ws c) :=
  List.foldl_append

/-- The statements of a program one after another on a private copy of the store. -/
def runOn {α : Type} (δ : ℕ → db.Draw) :
    ℕ → Program db.Stmt db.Reply db.Err α → db.Store → Except db.Err α × db.Store
  | _, .ret a, c => (.ok a, c)
  | _, .fail e, c => (.error e, c)
  | n, .step s k, c =>
      runOn δ (n + 1) (k (db.exec (δ n) s c).1) (db.applyAll (db.exec (δ n) s c).2 c)

theorem runOn_map {α β : Type} (δ : ℕ → db.Draw) (f : α → β)
    (p : Program db.Stmt db.Reply db.Err α) (n : ℕ) (c : db.Store) :
    db.runOn δ n (p >>= fun a => pure (f a)) c =
      ((db.runOn δ n p c).1.map f, (db.runOn δ n p c).2) := by
  induction p generalizing n c with
  | ret a => rfl
  | fail e => rfl
  | step s k ih => exact ih _ _ _

/-- A transaction run alone: its writes are kept when it returns a value. -/
def alone (δ : ℕ → db.Draw) (c : db.Store) (call : db.Call) : Except db.Err db.Value × db.Store :=
  match db.runOn δ 0 (db.body call) c with
  | (.ok v, c') => (.ok v, c')
  | (.error e, _) => (.error e, c)

/-! ## Interleaved execution -/

structure Session where
  call : db.Call
  draws : ℕ → db.Draw
  pos : ℕ
  rest : db.Body
  writes : List db.Write
  held : List (db.Res × Mode)
  outcome : Option (Except db.Err db.Value)

/-- A session before its first statement. -/
def Session.begin (call : db.Call) (δ : ℕ → db.Draw) : db.Session :=
  { call := call, draws := δ, pos := 0, rest := db.body call, writes := [], held := [],
    outcome := none }

/-- A committed transaction. -/
abbrev Entry := Serial.Entry db.Call (ℕ → db.Draw) db.Value

structure State where
  store : db.Store
  sessions : ℕ → Option db.Session
  /-- The committed transactions, newest first. -/
  log : List db.Entry

variable {db}

/-- What a session's statements see: the committed store under its own writes. -/
def Session.view (t : db.Session) (c : db.Store) : db.Store := db.applyAll t.writes c

/-- The reply and the writes of the session's next statement. -/
def Session.next (t : db.Session) (c : db.Store) (s : db.Stmt) : db.Reply s × List db.Write :=
  db.exec (t.draws t.pos) s (t.view c)

/-- The session after its next statement. -/
def Session.advance (t : db.Session) (c : db.Store) (s : db.Stmt)
    (k : db.Reply s → db.Body) : db.Session :=
  { t with
    pos := t.pos + 1
    rest := k (t.next c s).1
    writes := t.writes ++ (t.next c s).2
    held := t.held ++ db.locks s (t.next c s).1 }

/-- The session after its transaction has ended; the locks are released. -/
def Session.ended (t : db.Session) (result : Except db.Err db.Value) : db.Session :=
  { t with writes := [], held := [], outcome := some result }

/-- No other session holds a lock in conflict with one of `locks`. -/
def State.Free (s : db.State) (i : ℕ) (locks : List (db.Res × Mode)) : Prop :=
  ∀ j u, j ≠ i → s.sessions j = some u → ∀ r m m', (r, m) ∈ locks → (r, m') ∈ u.held →
    m.compatible m' = true

variable (db) in
inductive Step : db.State → db.State → Prop
  | begin {s : db.State} {i : ℕ} {call : db.Call} {δ : ℕ → db.Draw} :
      s.sessions i = none →
      Step s { s with sessions := Function.update s.sessions i (some (Session.begin db call δ)) }
  | statement {s : db.State} {i : ℕ} {t : db.Session} {st : db.Stmt}
      {k : db.Reply st → db.Body} :
      s.sessions i = some t → t.outcome = none → t.rest = .step st k →
      s.Free i (db.locks st (t.next s.store st).1) →
      Step s { s with
        sessions := Function.update s.sessions i (some (t.advance s.store st k)) }
  | commit {s : db.State} {i : ℕ} {t : db.Session} {v : db.Value} :
      s.sessions i = some t → t.outcome = none → t.rest = .ret v →
      Step s
        { store := t.view s.store
          sessions := Function.update s.sessions i (some (t.ended (.ok v)))
          log := ⟨i, t.call, t.draws, v⟩ :: s.log }
  | rollback {s : db.State} {i : ℕ} {t : db.Session} {e : db.Err} :
      s.sessions i = some t → t.outcome = none → t.rest = .fail e ∨ db.interrupts e →
      Step s { s with sessions := Function.update s.sessions i (some (t.ended (.error e))) }

variable (db) in
/-- No session has begun. -/
def State.initial (c : db.Store) : db.State := { store := c, sessions := fun _ => none, log := [] }

variable (db) in
def Reachable (c₀ : db.Store) (s : db.State) : Prop :=
  Relation.ReflTransGen (Step db) (State.initial db c₀) s

/-! ## Erasure -/

/-- The state without session `i`. -/
def State.erase (s : db.State) (i : ℕ) : db.State :=
  { s with sessions := Function.update s.sessions i none }

theorem State.erase_self (s : db.State) (i : ℕ) : (s.erase i).sessions i = none :=
  Function.update_self ..

theorem State.erase_of_ne (s : db.State) {i j : ℕ} (h : j ≠ i) :
    (s.erase i).sessions j = s.sessions j :=
  Function.update_of_ne h ..

theorem State.Free.erase {s : db.State} {j : ℕ} {locks : List (db.Res × Mode)}
    (h : s.Free j locks) (i : ℕ) : (s.erase i).Free j locks := by
  intro k u hk hu
  by_cases hki : k = i
  · subst hki
    rw [State.erase_self] at hu
    cases hu
  · rw [State.erase_of_ne _ hki] at hu
    exact h k u hk hu

/-- What another session does, it also does when session `i` is not there. -/
theorem Step.erase {s s' : db.State} (i : ℕ) (h : Step db s s') :
    s'.erase i = s.erase i ∨ Step db (s.erase i) (s'.erase i) ∨ ∃ e ∈ s'.log, e.session = i := by
  -- The session of a step that is not `i` stays where it was.
  have hother : ∀ {j : ℕ} {o : Option db.Session}, j ≠ i → s.sessions j = o →
      (s.erase i).sessions j = o := fun hj ho => (s.erase_of_ne hj).trans ho
  have hcomm : ∀ {j : ℕ} (o : Option db.Session), j ≠ i →
      Function.update (Function.update s.sessions j o) i none =
        Function.update (s.erase i).sessions j o := fun o hj => Function.update_comm hj ..
  cases h with
  | @begin j call δ hnone =>
    by_cases hj : j = i
    · exact .inl (by simp [State.erase, hj])
    · refine .inr (.inl ?_)
      have hstep := @Step.begin db _ j call δ (hother hj hnone)
      rwa [← hcomm _ hj] at hstep
  | @statement j t st k ht hout hrest hfree =>
    by_cases hj : j = i
    · exact .inl (by simp [State.erase, hj])
    · refine .inr (.inl ?_)
      have hstep := Step.statement (hother hj ht) hout hrest (hfree.erase i)
      rwa [← hcomm _ hj] at hstep
  | @commit j t v ht hout hrest =>
    by_cases hj : j = i
    · exact .inr (.inr ⟨_, List.mem_cons_self, hj⟩)
    · refine .inr (.inl ?_)
      have hstep := Step.commit (hother hj ht) hout hrest
      rwa [← hcomm _ hj] at hstep
  | @rollback j t e ht hout hrest =>
    by_cases hj : j = i
    · exact .inl (by simp [State.erase, hj])
    · refine .inr (.inl ?_)
      have hstep := Step.rollback (hother hj ht) hout hrest
      rwa [← hcomm _ hj] at hstep

theorem Step.log_subset {s s' : db.State} (h : Step db s s') : s.log ⊆ s'.log := by
  cases h <;> simp

/-- A session keeps its call and its draws. -/
theorem Step.session {s s' : db.State} (h : Step db s s') {i : ℕ} {t : db.Session}
    (ht : s.sessions i = some t) :
    ∃ t', s'.sessions i = some t' ∧ t'.call = t.call ∧ t'.draws = t.draws ∧
      ∀ result, t.outcome = some result → t' = t := by
  have hset : ∀ {j : ℕ} {u u' : db.Session}, s.sessions j = some u → u.outcome = none →
      u'.call = u.call → u'.draws = u.draws →
      ∃ t', Function.update s.sessions j (some u') i = some t' ∧ t'.call = t.call ∧
        t'.draws = t.draws ∧ ∀ result, t.outcome = some result → t' = t := by
    intro j u u' hu hout hcall hdraws
    by_cases hj : i = j
    · subst hj
      rw [ht] at hu
      cases hu
      exact ⟨u', Function.update_self .., hcall, hdraws, fun _ h => by rw [hout] at h; cases h⟩
    · exact ⟨t, (Function.update_of_ne hj ..).trans ht, rfl, rfl, fun _ _ => rfl⟩
  cases h with
  | @begin j call δ hnone =>
    have hj : i ≠ j := by
      rintro rfl
      rw [ht] at hnone
      cases hnone
    exact ⟨t, (Function.update_of_ne hj ..).trans ht, rfl, rfl, fun _ _ => rfl⟩
  | statement hu hout => exact hset hu hout rfl rfl
  | commit hu hout => exact hset hu hout rfl rfl
  | rollback hu hout => exact hset hu hout rfl rfl

/-! ## Undisturbed transactions -/

/-- The locks a run takes. -/
def runLocks (δ : ℕ → db.Draw) :
    ℕ → Program db.Stmt db.Reply db.Err db.Value → db.Store → List (db.Res × Mode)
  | n, .step s k, c =>
      db.locks s (db.exec (δ n) s c).1 ++
        runLocks δ (n + 1) (k (db.exec (δ n) s c).1) (db.applyAll (db.exec (δ n) s c).2 c)
  | _, .ret _, _ => []
  | _, .fail _, _ => []

variable (db) in
/-- A step in which no session begins. -/
def Continues (s s' : db.State) : Prop :=
  Step db s s' ∧ ∀ i, s.sessions i = none → s'.sessions i = none

theorem Step.continues {s s' : db.State} {i : ℕ} {t t' : db.Session} (h : Step db s s')
    (ht : s.sessions i = some t) (hs' : s'.sessions = Function.update s.sessions i (some t')) :
    Continues db s s' := by
  refine ⟨h, fun j hj => ?_⟩
  have hne : j ≠ i := by
    rintro rfl
    rw [ht] at hj
    cases hj
  rw [hs', Function.update_of_ne hne, hj]

/-- What a session comes to when its locks are free. -/
inductive Session.Arrived (t : db.Session) (c : db.Store) :
    Except db.Err db.Value × db.Store → Prop
  | returned {v : db.Value} : t.rest = .ret v → Session.Arrived t c (.ok v, t.view c)
  | failed {e : db.Err} : t.rest = .fail e → Session.Arrived t c (.error e, t.view c)

/-- A session whose locks are free runs to its end. -/
theorem exists_arrived (p : db.Body) {s : db.State} {i : ℕ} {t : db.Session}
    (ht : s.sessions i = some t) (hout : t.outcome = none) (hrest : t.rest = p)
    (hfree : s.Free i (runLocks t.draws t.pos p (t.view s.store))) :
    ∃ t', Relation.ReflTransGen (Continues db) s
        { s with sessions := Function.update s.sessions i (some t') } ∧
      t'.call = t.call ∧ t'.draws = t.draws ∧ t'.outcome = none ∧
      t'.Arrived s.store (db.runOn t.draws t.pos p (t.view s.store)) := by
  induction p generalizing s t with
  | ret v =>
    refine ⟨t, ?_, rfl, rfl, hout, .returned hrest⟩
    rw [← ht, Function.update_eq_self]
  | fail e =>
    refine ⟨t, ?_, rfl, rfl, hout, .failed hrest⟩
    rw [← ht, Function.update_eq_self]
  | step st k ih =>
    have hview : (t.advance s.store st k).view s.store =
        db.applyAll (db.exec (t.draws t.pos) st (t.view s.store)).2 (t.view s.store) :=
      db.applyAll_append ..
    have hstep := Step.statement ht hout hrest fun j u hj hu r m m' hm =>
      hfree j u hj hu r m m' (List.mem_append_left _ hm)
    obtain ⟨t', hsteps, hcall, hdraws, hout', harrived⟩ :=
      ih _ (s := { s with
        sessions := Function.update s.sessions i (some (t.advance s.store st k)) })
        (t := t.advance s.store st k) (Function.update_self ..) hout rfl (by
          intro j u hj hu r m m' hm
          rw [hview] at hm
          exact hfree j u hj ((Function.update_of_ne hj ..).symm.trans hu) r m m'
            (List.mem_append_right _ hm))
    refine ⟨t', ?_, hcall, hdraws, hout', ?_⟩
    · rw [Function.update_idem] at hsteps
      exact .head (hstep.continues ht rfl) hsteps
    · rw [hview] at harrived
      exact harrived

/-- A session that has begun and whose locks are free is the transaction run alone. -/
theorem exists_alone {s : db.State} {i : ℕ} {call : db.Call} {δ : ℕ → db.Draw}
    (ht : s.sessions i = some (Session.begin db call δ))
    (hfree : s.Free i (runLocks δ 0 (db.body call) s.store)) :
    ∃ s' t', Relation.ReflTransGen (Continues db) s s' ∧ s'.store = (db.alone δ s.store call).2 ∧
      s'.sessions = Function.update s.sessions i (some t') ∧ t'.call = call ∧ t'.draws = δ ∧
      t'.held = [] ∧ t'.outcome = some (db.alone δ s.store call).1 := by
  obtain ⟨t, hsteps, hcall, hdraws, hout, harrived⟩ := exists_arrived _ ht rfl rfl hfree
  let s₁ : db.State := { s with sessions := Function.update s.sessions i (some t) }
  have hself : s₁.sessions i = some t := Function.update_self ..
  change t.Arrived s.store (db.runOn δ 0 (db.body call) s.store) at harrived
  unfold alone
  generalize db.runOn δ 0 (db.body call) s.store = x at harrived
  cases harrived with
  | returned hrest =>
    have hstep := Step.commit hself hout hrest
    exact ⟨_, _, hsteps.tail (hstep.continues hself rfl), rfl, Function.update_idem .., hcall, hdraws,
      rfl, rfl⟩
  | failed hrest =>
    have hstep := Step.rollback hself hout (.inl hrest)
    exact ⟨_, _, hsteps.tail (hstep.continues hself rfl), rfl, Function.update_idem .., hcall, hdraws,
      rfl, rfl⟩

/-- A session that returns a value commits, when its locks are free. -/
theorem exists_committed {s : db.State} {i : ℕ} {t : db.Session} {v : db.Value}
    (ht : s.sessions i = some t) (hout : t.outcome = none)
    (hok : (db.runOn t.draws t.pos t.rest (t.view s.store)).1 = .ok v)
    (hfree : s.Free i (runLocks t.draws t.pos t.rest (t.view s.store))) :
    ∃ s' t', Relation.ReflTransGen (Continues db) s s' ∧
      s'.store = (db.runOn t.draws t.pos t.rest (t.view s.store)).2 ∧
      s'.sessions = Function.update s.sessions i (some t') ∧ t'.held = [] ∧
      t'.outcome = some (.ok v) := by
  obtain ⟨t', hsteps, -, -, hout', harrived⟩ := exists_arrived _ ht hout rfl hfree
  let s₁ : db.State := { s with sessions := Function.update s.sessions i (some t') }
  have hself : s₁.sessions i = some t' := Function.update_self ..
  generalize db.runOn t.draws t.pos t.rest (t.view s.store) = x at harrived hok ⊢
  cases harrived with
  | returned hrest =>
    cases hok
    have hstep := Step.commit hself hout' hrest
    exact ⟨_, _, hsteps.tail (hstep.continues hself rfl), rfl, Function.update_idem .., rfl, rfl⟩
  | failed => cases hok

/-- The session after its next `n` statements. -/
def Session.run (c : db.Store) : ℕ → db.Session → db.Session
  | 0, t => t
  | n + 1, t =>
      match t.rest with
      | .step st k => Session.run c n (t.advance c st k)
      | .ret _ => t
      | .fail _ => t

@[simp] theorem Session.run_draws (c : db.Store) (n : ℕ) (t : db.Session) :
    (t.run c n).draws = t.draws := by
  induction n generalizing t with
  | zero => rfl
  | succ n ih =>
    unfold Session.run
    split
    · exact ih _
    · rfl
    · rfl

@[simp] theorem Session.run_outcome (c : db.Store) (n : ℕ) (t : db.Session) :
    (t.run c n).outcome = t.outcome := by
  induction n generalizing t with
  | zero => rfl
  | succ n ih =>
    unfold Session.run
    split
    · exact ih _
    · rfl
    · rfl

theorem Session.held_subset_run (c : db.Store) (n : ℕ) (t : db.Session) :
    t.held ⊆ (t.run c n).held := by
  induction n generalizing t with
  | zero => exact List.Subset.refl _
  | succ n ih =>
    unfold Session.run
    split
    · next st k _ =>
      have hsub : t.held ⊆ (t.advance c st k).held := List.subset_append_left ..
      exact List.Subset.trans hsub (ih _)
    · exact List.Subset.refl _
    · exact List.Subset.refl _

/-- A session runs some statements when it takes none of the locks the others hold. -/
theorem Continues.run (n : ℕ) {s : db.State} {i : ℕ} {t : db.Session} (ht : s.sessions i = some t)
    (hout : t.outcome = none) (hapart : ∀ j u, j ≠ i → s.sessions j = some u →
      ∀ lock ∈ (t.run s.store n).held, ∀ held ∈ u.held, lock.1 ≠ held.1) :
    Relation.ReflTransGen (Continues db) s
      { s with sessions := Function.update s.sessions i (some (t.run s.store n)) } := by
  induction n generalizing s t with
  | zero =>
    change Relation.ReflTransGen (Continues db) s
      { s with sessions := Function.update s.sessions i (some t) }
    rw [← ht, Function.update_eq_self]
  | succ n ih =>
    unfold Session.run at hapart ⊢
    split at hapart
    · next st k hrest =>
      have hlocks : db.locks st (t.next s.store st).1 ⊆ (t.advance s.store st k).held :=
        List.subset_append_right ..
      have hsub := List.Subset.trans hlocks (Session.held_subset_run s.store n _)
      have hstep := Step.statement ht hout hrest fun j u hj hu r m m' hm hm' =>
        absurd rfl (hapart j u hj hu (r, m) (hsub hm) (r, m') hm')
      have hsteps := ih (s := { s with
        sessions := Function.update s.sessions i (some (t.advance s.store st k)) })
        (t := t.advance s.store st k) (Function.update_self ..) hout
        fun j u hj hu => hapart j u hj ((Function.update_of_ne hj ..).symm.trans hu)
      rw [Function.update_idem] at hsteps
      exact .head (hstep.continues ht rfl) hsteps
    · rw [← ht, Function.update_eq_self]
    · rw [← ht, Function.update_eq_self]

end Database

/-! ## Footprints -/

/-- What the statements of a database depend on and what its writes change. -/
structure Footprint (db : Database) where
  /-- The two stores have the same content at the resource. -/
  agree : db.Res → db.Store → db.Store → Prop
  reads : db.Stmt → List db.Res
  touches : db.Write → List db.Res
  /-- What a statement's writes touch when it gives the reply. -/
  touched : (s : db.Stmt) → db.Reply s → List db.Res
  /-- The second store has grown from the first. -/
  le : db.Store → db.Store → Prop
  /-- The reply stays the same as the store grows. -/
  stable : (s : db.Stmt) → db.Reply s → Prop
  /-- The errors that may rest on a read without a lock. -/
  lax : db.Err → Prop
  agree_refl : ∀ r c, agree r c c
  agree_trans : ∀ {r a b c}, agree r a b → agree r b c → agree r a c
  agree_apply : ∀ {r c c'} (w : db.Write), agree r c c' → agree r (db.apply w c) (db.apply w c')
  agree_of_untouched : ∀ {r c} {w : db.Write}, r ∉ touches w → agree r c (db.apply w c)
  exec_congr : ∀ {d s c c'}, (∀ r ∈ reads s, agree r c c') → db.exec d s c' = db.exec d s c
  touches_exec : ∀ {d s c} {w : db.Write} {r}, w ∈ (db.exec d s c).2 → r ∈ touches w →
    r ∈ touched s (db.exec d s c).1
  le_refl : ∀ c, le c c
  le_trans : ∀ {a b c}, le a b → le b c → le a c
  le_grow : ∀ (w : db.Write) (c : db.Store), le c (db.apply w c)
  le_apply : ∀ {c c'} (w : db.Write), le c c' → le (db.apply w c) (db.apply w c')
  stable_exec : ∀ {d s c c'}, stable s (db.exec d s c).1 → le c c' → db.exec d s c' = db.exec d s c

namespace Footprint

open Database

variable {db : Database} (fp : Footprint db)

def Covered (held : List (db.Res × Mode)) (rs : List db.Res) : Prop :=
  ∀ r ∈ rs, ∃ m, (r, m) ∈ held

/-- After `s` gave `ρ` without writing, the program `p` next performs a statement that fails the
transaction unless it locks what `s` read and finds a store where `s` gives `ρ`. -/
def Revalidates (s : db.Stmt) (ρ : db.Reply s) (p : db.Body) : Prop :=
  fp.reads s ≠ [] ∧ db.locks s ρ = [] ∧ (∀ d c, (db.exec d s c).1 = ρ → (db.exec d s c).2 = []) ∧
  ∃ s' k', p = .step s' k' ∧ ∀ ρ', (∃ e, fp.lax e ∧ k' ρ' = .fail e) ∨
    (Covered (db.locks s' ρ') (fp.reads s) ∧
      ∀ d d' c, (db.exec d' s' c).1 = ρ' → db.exec d s c = (ρ, []))

/-- A program that holds `held`, writes only where it holds exclusive locks and reads only what
cannot change before it commits. -/
def Guarded : List (db.Res × Mode) → db.Body → Prop
  | _, .ret _ => True
  | _, .fail _ => True
  | held, .step s k => ∀ ρ : db.Reply s,
      (∀ r ∈ fp.touched s ρ, (r, Mode.exclusive) ∈ held ++ db.locks s ρ) ∧
      (Covered (held ++ db.locks s ρ) (fp.reads s) ∨ fp.stable s ρ ∨
        (∃ e, fp.lax e ∧ k ρ = .fail e) ∨ fp.Revalidates s ρ (k ρ)) ∧
      Guarded (held ++ db.locks s ρ) (k ρ)

theorem agree_applyAll {r : db.Res} {c c' : db.Store} (ws : List db.Write)
    (h : fp.agree r c c') : fp.agree r (db.applyAll ws c) (db.applyAll ws c') := by
  induction ws generalizing c c' with
  | nil => exact h
  | cons w ws ih => exact ih (fp.agree_apply w h)

theorem agree_of_untouched_all {r : db.Res} {c : db.Store} {ws : List db.Write}
    (h : ∀ w ∈ ws, r ∉ fp.touches w) : fp.agree r c (db.applyAll ws c) := by
  induction ws generalizing c with
  | nil => exact fp.agree_refl r c
  | cons w ws ih =>
    exact fp.agree_trans (fp.agree_of_untouched (h w List.mem_cons_self))
      (ih fun w' hw' => h w' (List.mem_cons_of_mem _ hw'))

theorem le_applyAll {c c' : db.Store} (ws : List db.Write) (h : fp.le c c') :
    fp.le (db.applyAll ws c) (db.applyAll ws c') := by
  induction ws generalizing c c' with
  | nil => exact h
  | cons w ws ih => exact ih (fp.le_apply w h)

theorem le_grow_all (ws : List db.Write) (c : db.Store) : fp.le c (db.applyAll ws c) := by
  induction ws generalizing c with
  | nil => exact fp.le_refl c
  | cons w ws ih => exact fp.le_trans (fp.le_grow w c) (ih (db.apply w c))

/-! ## Traces -/

/-- The first `n` statements of `p₀`, run alone on `c`, lead to the program and the writes; what
they read is covered by `held` or stable. -/
inductive Trace (held : List (db.Res × Mode)) (δ : ℕ → db.Draw) (c : db.Store) (p₀ : db.Body) :
    ℕ → db.Body → List db.Write → Prop
  | start : Trace held δ c p₀ 0 p₀ []
  | next {n : ℕ} {s : db.Stmt} {k : db.Reply s → db.Body} {ws : List db.Write} :
      Trace held δ c p₀ n (.step s k) ws →
      (Covered held (fp.reads s) ∨ fp.stable s (db.exec (δ n) s (db.applyAll ws c)).1) →
      Trace held δ c p₀ (n + 1) (k (db.exec (δ n) s (db.applyAll ws c)).1)
        (ws ++ (db.exec (δ n) s (db.applyAll ws c)).2)

variable {fp} {held held' : List (db.Res × Mode)} {δ : ℕ → db.Draw} {c c' : db.Store}
  {p₀ p : db.Body} {n : ℕ} {ws : List db.Write}

theorem Covered.mono {rs : List db.Res} (hsub : ∀ l ∈ held, l ∈ held') (h : Covered held rs) :
    Covered held' rs :=
  fun r hr => let ⟨m, hm⟩ := h r hr; ⟨m, hsub _ hm⟩

theorem Trace.mono (hsub : ∀ l ∈ held, l ∈ held') (h : fp.Trace held δ c p₀ n p ws) :
    fp.Trace held' δ c p₀ n p ws := by
  induction h with
  | start => exact .start
  | next _ hc ih => exact .next ih (hc.imp (Covered.mono hsub) id)

/-- A trace only depends on the resources it holds and on the store not shrinking. -/
theorem Trace.transfer (hagree : ∀ r m, (r, m) ∈ held → fp.agree r c c') (hle : fp.le c c')
    (h : fp.Trace held δ c p₀ n p ws) : fp.Trace held δ c' p₀ n p ws := by
  induction h with
  | start => exact .start
  | @next n s k ws _ hc ih =>
    have hexec : db.exec (δ n) s (db.applyAll ws c') = db.exec (δ n) s (db.applyAll ws c) := by
      rcases hc with hcov | hst
      · refine fp.exec_congr fun r hr => ?_
        obtain ⟨m, hm⟩ := hcov r hr
        exact fp.agree_applyAll ws (hagree r m hm)
      · exact fp.stable_exec hst (fp.le_applyAll ws hle)
    rw [← hexec] at hc ⊢
    exact .next ih hc

theorem Trace.runOn (h : fp.Trace held δ c p₀ n p ws) :
    db.runOn δ 0 p₀ c = db.runOn δ n p (db.applyAll ws c) := by
  induction h with
  | start => rfl
  | next _ _ ih => rw [ih, applyAll_append]; rfl

/-! ## The invariant of one session -/

variable (fp) in
/-- Where a session stands relative to the committed store. -/
inductive Sound (c : db.Store) (t : db.Session) : Prop
  /-- It is about to fail, over a read without a lock. -/
  | failing (e : db.Err) : fp.lax e → t.rest = .fail e → Sound c t
  /-- Its statements so far replay on the store. -/
  | settled : fp.Trace t.held t.draws c (db.body t.call) t.pos t.rest t.writes →
      fp.Guarded t.held t.rest → Sound c t
  /-- All but the last replay; the next one revalidates it. -/
  | hanging {n : ℕ} {s : db.Stmt} {k : db.Reply s → db.Body} {ρ : db.Reply s} :
      fp.Trace t.held t.draws c (db.body t.call) n (.step s k) t.writes →
      t.pos = n + 1 → t.rest = k ρ → fp.Revalidates s ρ (k ρ) → fp.Guarded t.held t.rest →
      Sound c t

theorem Sound.begin {call : db.Call} (hg : fp.Guarded [] (db.body call)) :
    fp.Sound c (Session.begin db call δ) :=
  .settled .start hg

/-- The store changes outside what the session holds. -/
theorem Sound.transfer {t : db.Session} (hagree : ∀ r m, (r, m) ∈ t.held → fp.agree r c c')
    (hle : fp.le c c') (h : fp.Sound c t) : fp.Sound c' t := by
  cases h with
  | failing e hlax he => exact .failing e hlax he
  | settled htr hg => exact .settled (htr.transfer hagree hle) hg
  | hanging htr hpos hrest hrev hg => exact .hanging (htr.transfer hagree hle) hpos hrest hrev hg

/-- One statement whose reply is not going to fail extends a trace that is settled before it. -/
theorem sound_of_trace {t : db.Session} {s : db.Stmt} {k : db.Reply s → db.Body}
    (htr : fp.Trace t.held t.draws c (db.body t.call) t.pos (.step s k) t.writes)
    (hg : fp.Guarded t.held (.step s k)) : fp.Sound c (t.advance c s k) := by
  obtain ⟨-, hread, hg'⟩ := hg (t.next c s).1
  have hsub : ∀ l ∈ t.held, l ∈ (t.advance c s k).held := fun l hl => List.mem_append_left _ hl
  rcases hread with hcov | hst | ⟨e, hlax, he⟩ | hrev
  · exact .settled (.next (htr.mono hsub) (.inl hcov)) hg'
  · exact .settled (.next (htr.mono hsub) (.inr hst)) hg'
  · exact .failing e hlax he
  · have hnil : (t.next c s).2 = [] := hrev.2.2.1 _ _ rfl
    refine .hanging (n := t.pos) (s := s) (k := k) (ρ := (t.next c s).1) ?_ rfl rfl hrev hg'
    have hws : (t.advance c s k).writes = t.writes := by simp [Session.advance, hnil]
    rw [hws]
    exact htr.mono hsub

theorem Sound.advance {t : db.Session} {s : db.Stmt} {k : db.Reply s → db.Body}
    (hrest : t.rest = .step s k) (h : fp.Sound c t) : fp.Sound c (t.advance c s k) := by
  cases h with
  | failing e _ he => rw [hrest] at he; cases he
  | settled htr hg =>
    rw [hrest] at htr hg
    exact sound_of_trace htr hg
  | @hanging n s₁ k₁ ρ₁ htr hpos hrest₁ hrev hg =>
    obtain ⟨-, -, -, s', k', hp, hk'⟩ := hrev
    rw [hrest₁] at hrest
    rw [hp] at hrest
    cases hrest
    rcases hk' (t.next c s).1 with ⟨e, hlax, he⟩ | ⟨hcov, hagain⟩
    · exact .failing e hlax he
    · -- The revalidated statement now replays, covered by the locks just taken.
      have hagain₁ : db.exec (t.draws n) s₁ (db.applyAll t.writes c) = (ρ₁, []) :=
        hagain _ _ _ rfl
      have hsub : ∀ l ∈ t.held, l ∈ (t.advance c s k).held :=
        fun l hl => List.mem_append_left _ hl
      have htr₁ : fp.Trace (t.advance c s k).held t.draws c (db.body t.call) (n + 1)
          (.step s k) t.writes := by
        have hnext := Trace.next (htr.mono hsub)
          (.inl (hcov.mono fun l hl => List.mem_append_right t.held hl))
        rw [hagain₁, List.append_nil] at hnext
        rwa [hp] at hnext
      rw [hrest₁, hp] at hg
      obtain ⟨-, hread, hg'⟩ := hg (t.next c s).1
      rw [← hpos] at htr₁
      rcases hread with hcov' | hst | ⟨e, hlax, he⟩ | hrev'
      · exact .settled (.next htr₁ (.inl hcov')) hg'
      · exact .settled (.next htr₁ (.inr hst)) hg'
      · exact .failing e hlax he
      · have hnil : (t.next c s).2 = [] := hrev'.2.2.1 _ _ rfl
        refine .hanging (n := t.pos) (s := s) (k := k) (ρ := (t.next c s).1) ?_ rfl rfl hrev' hg'
        have hws : (t.advance c s k).writes = t.writes := by simp [Session.advance, hnil]
        rw [hws]
        exact htr₁

/-- A session that is about to return a value has replayed all its statements. -/
theorem Sound.alone {t : db.Session} {v : db.Value} (hrest : t.rest = .ret v)
    (h : fp.Sound c t) : db.alone t.draws c t.call = (.ok v, t.view c) := by
  cases h with
  | failing e _ he => rw [hrest] at he; cases he
  | settled htr _ =>
    have hrun := htr.runOn
    rw [hrest] at hrun
    simp [Database.alone, hrun, Database.runOn, Session.view]
  | hanging htr hpos hrest₁ hrev _ =>
    obtain ⟨-, -, -, s', k', hp, -⟩ := hrev
    rw [hrest₁, hp] at hrest
    cases hrest

/-- A session that is about to fail over locked reads fails alone. -/
theorem Sound.failed {t : db.Session} {e : db.Err} (hrest : t.rest = .fail e) (hlax : ¬fp.lax e)
    (h : fp.Sound c t) : db.alone t.draws c t.call = (.error e, c) := by
  cases h with
  | failing e' hlax' he =>
    rw [hrest] at he
    cases he
    exact absurd hlax' hlax
  | settled htr _ =>
    have hrun := htr.runOn
    rw [hrest] at hrun
    simp [Database.alone, hrun, Database.runOn]
  | hanging htr hpos hrest₁ hrev _ =>
    obtain ⟨-, -, -, s', k', hp, -⟩ := hrev
    rw [hrest₁, hp] at hrest
    cases hrest

/-- A sound session is guarded, or about to fail. -/
theorem Sound.guarded {t : db.Session} {s : db.Stmt} {k : db.Reply s → db.Body}
    (hrest : t.rest = .step s k) (h : fp.Sound c t) : fp.Guarded t.held (.step s k) := by
  cases h with
  | failing e _ he => rw [hrest] at he; cases he
  | settled _ hg => rwa [hrest] at hg
  | hanging _ _ _ _ hg => rwa [hrest] at hg

/-! ## Every statement of a transaction -/

variable (fp) in
/-- Every statement of the run alone satisfies `P`, and so does, on any store, one that revalidates
a reply. -/
def Always (P : db.Draw → db.Stmt → db.Store → Prop) (δ : ℕ → db.Draw) :
    ℕ → db.Body → db.Store → Prop
  | _, .ret _, _ => True
  | _, .fail _, _ => True
  | n, .step s k, c =>
      P (δ n) s c ∧
      (∀ ρ s' k', fp.Revalidates s ρ (k ρ) → k ρ = .step s' k' → ∀ d c, P d s' c) ∧
      Always P δ (n + 1) (k (db.exec (δ n) s c).1) (db.applyAll (db.exec (δ n) s c).2 c)

theorem Trace.always {P : db.Draw → db.Stmt → db.Store → Prop}
    (h : fp.Trace held δ c p₀ n p ws) (halways : fp.Always P δ 0 p₀ c) :
    fp.Always P δ n p (db.applyAll ws c) := by
  induction h with
  | start => exact halways
  | next _ _ ih =>
    rw [applyAll_append]
    exact ih.2.2

/-- What holds of every statement alone holds of a session's next statement. -/
theorem Sound.always {P : db.Draw → db.Stmt → db.Store → Prop} {t : db.Session} {s : db.Stmt}
    {k : db.Reply s → db.Body} (hrest : t.rest = .step s k) (h : fp.Sound c t)
    (halways : fp.Always P t.draws 0 (db.body t.call) c) : P (t.draws t.pos) s (t.view c) := by
  cases h with
  | failing e _ he => rw [hrest] at he; cases he
  | settled htr _ =>
    rw [hrest] at htr
    exact (htr.always halways).1
  | hanging htr _ hrest₁ hrev _ =>
    exact (htr.always halways).2.1 _ s k hrev (hrest₁ ▸ hrest) _ _

/-! ## The invariant of a state -/

variable (fp) in
structure Inv (c₀ : db.Store) (s : db.State) : Prop where
  serial : Serial.Runs db.alone c₀ s.log s.store
  sound : ∀ i t, s.sessions i = some t → t.outcome = none → fp.Sound s.store t
  /-- A session writes only where it holds exclusive locks. -/
  locked : ∀ i t, s.sessions i = some t → ∀ w ∈ t.writes, ∀ r ∈ fp.touches w,
    (r, Mode.exclusive) ∈ t.held
  compatible : ∀ i j t u, i ≠ j → s.sessions i = some t → s.sessions j = some u →
    ∀ r m m', (r, m) ∈ t.held → (r, m') ∈ u.held → m.compatible m' = true
  returned : ∀ i t v, s.sessions i = some t → t.outcome = some (.ok v) →
    ⟨i, t.call, t.draws, v⟩ ∈ s.log
  logged : ∀ e ∈ s.log, ∃ t, s.sessions e.session = some t ∧ t.call = e.call ∧
    t.draws = e.draws ∧ t.outcome = some (.ok e.value)
  once : (s.log.map Serial.Entry.session).Nodup
  /-- A transaction that failed over locked reads failed as it would have alone. -/
  failed : ∀ i t e, s.sessions i = some t → t.outcome = some (.error e) → ¬fp.lax e →
    db.interrupts e ∨ ∃ log c, log <:+ s.log ∧ Serial.Runs db.alone c₀ log c ∧
      db.alone t.draws c t.call = (.error e, c)

theorem Inv.init (c₀ : db.Store) : fp.Inv c₀ (State.initial db c₀) where
  serial := .nil
  sound := fun _ _ h => by cases h
  locked := fun _ _ h => by cases h
  compatible := fun _ _ _ _ _ h => by cases h
  returned := fun _ _ _ h => by cases h
  logged := fun _ h => by cases h
  once := List.nodup_nil
  failed := fun _ _ _ h => by cases h

section Updates

variable {s : db.State} {i j : ℕ} {t t' u : db.Session}

/-- What a session other than the updated one is. -/
theorem session_cases (h : Function.update s.sessions i (some t') j = some u) :
    (j = i ∧ u = t') ∨ (j ≠ i ∧ s.sessions j = some u) := by
  by_cases hj : j = i
  · subst hj
    rw [Function.update_self] at h
    exact .inl ⟨rfl, (Option.some.inj h).symm⟩
  · rw [Function.update_of_ne hj] at h
    exact .inr ⟨hj, h⟩

/-- The lock table stays consistent when one session changes to one whose locks are free. -/
theorem compatible_update (hfree : s.Free i t'.held)
    (h : ∀ i j t u, i ≠ j → s.sessions i = some t → s.sessions j = some u →
      ∀ r m m', (r, m) ∈ t.held → (r, m') ∈ u.held → m.compatible m' = true) :
    ∀ a b x y, a ≠ b → Function.update s.sessions i (some t') a = some x →
      Function.update s.sessions i (some t') b = some y →
      ∀ r m m', (r, m) ∈ x.held → (r, m') ∈ y.held → m.compatible m' = true := by
  intro a b x y hab hx hy r m m' hm hm'
  rcases session_cases hx with ⟨rfl, rfl⟩ | ⟨ha, hx'⟩
  · rcases session_cases hy with ⟨rfl, rfl⟩ | ⟨hb, hy'⟩
    · exact absurd rfl hab
    · exact hfree b y hb hy' r m m' hm hm'
  · rcases session_cases hy with ⟨rfl, rfl⟩ | ⟨-, hy'⟩
    · rw [Mode.compatible_comm]
      exact hfree a x ha hx' r m' m hm' hm
    · exact h a b x y hab hx' hy' r m m' hm hm'

/-- The committed entries keep their sessions when another session changes. -/
theorem logged_update (hi : ∀ e ∈ s.log, e.session ≠ i)
    (h : ∀ e ∈ s.log, ∃ t, s.sessions e.session = some t ∧ t.call = e.call ∧
      t.draws = e.draws ∧ t.outcome = some (.ok e.value)) :
    ∀ e ∈ s.log, ∃ u, Function.update s.sessions i (some t') e.session = some u ∧
      u.call = e.call ∧ u.draws = e.draws ∧ u.outcome = some (.ok e.value) := by
  intro e he
  obtain ⟨u, hu, hrest⟩ := h e he
  exact ⟨u, (Function.update_of_ne (hi e he) ..).trans hu, hrest⟩

end Updates

/-- A session without an outcome has not committed. -/
theorem Inv.unlogged {c₀ : db.Store} {s : db.State} {i : ℕ} {t : db.Session} (hi : fp.Inv c₀ s)
    (ht : s.sessions i = some t) (hout : t.outcome = none) : ∀ e ∈ s.log, e.session ≠ i := by
  rintro e he rfl
  obtain ⟨u, hu, -, -, hout'⟩ := hi.logged e he
  rw [ht] at hu
  cases hu
  rw [hout] at hout'
  cases hout'

/-- A session changes and nothing is committed. -/
theorem Inv.update {c₀ : db.Store} {s : db.State} {i : ℕ} {t : db.Session} (hi : fp.Inv c₀ s)
    (hunlogged : ∀ e ∈ s.log, e.session ≠ i)
    (hsound : t.outcome = none → fp.Sound s.store t)
    (hlocked : ∀ w ∈ t.writes, ∀ r ∈ fp.touches w, (r, Mode.exclusive) ∈ t.held)
    (hfree : s.Free i t.held) (hreturned : ∀ v, t.outcome ≠ some (.ok v))
    (hfailed : ∀ e, t.outcome = some (.error e) → ¬fp.lax e →
      db.interrupts e ∨ db.alone t.draws s.store t.call = (.error e, s.store)) :
    fp.Inv c₀ { s with sessions := Function.update s.sessions i (some t) } := by
  refine ⟨hi.serial, ?_, ?_, compatible_update hfree hi.compatible, ?_,
    logged_update hunlogged hi.logged, hi.once, ?_⟩
  · intro j u hu
    rcases session_cases hu with ⟨rfl, rfl⟩ | ⟨-, hu⟩
    · exact hsound
    · exact hi.sound j u hu
  · intro j u hu
    rcases session_cases hu with ⟨rfl, rfl⟩ | ⟨-, hu⟩
    · exact hlocked
    · exact hi.locked j u hu
  · intro j u v hu hout
    rcases session_cases hu with ⟨rfl, rfl⟩ | ⟨-, hu⟩
    · exact absurd hout (hreturned v)
    · exact hi.returned j u v hu hout
  · intro j u e hu hout hlax
    rcases session_cases hu with ⟨rfl, rfl⟩ | ⟨-, hu⟩
    · exact (hfailed e hout hlax).imp_right fun halone =>
        ⟨s.log, s.store, List.suffix_refl _, hi.serial, halone⟩
    · exact hi.failed j u e hu hout hlax

/-- A commit: the others hold no lock on what the session writes. -/
theorem Inv.commit {c₀ : db.Store} {s : db.State} {i : ℕ} {t : db.Session} {v : db.Value}
    (hi : fp.Inv c₀ s) (ht : s.sessions i = some t) (hout : t.outcome = none)
    (hrest : t.rest = .ret v) :
    fp.Inv c₀
      { store := t.view s.store
        sessions := Function.update s.sessions i (some (t.ended (.ok v)))
        log := ⟨i, t.call, t.draws, v⟩ :: s.log } := by
  have halone := (hi.sound i t ht hout).alone hrest
  have hunlogged := hi.unlogged ht hout
  refine ⟨.cons hi.serial halone, ?_, ?_, ?_, ?_, ?_, ?_, ?_⟩
  · intro j u hu hout'
    rcases session_cases hu with ⟨rfl, rfl⟩ | ⟨hj, hu⟩
    · cases hout'
    · refine (hi.sound j u hu hout').transfer (fun r m hm => ?_) (fp.le_grow_all _ _)
      refine fp.agree_of_untouched_all fun w hw hr => ?_
      -- A lock on what is written would be in conflict with the writer's.
      have hx := hi.locked i t ht w hw r hr
      have hcomp := hi.compatible i j t u (Ne.symm hj) ht hu r _ m hx hm
      cases m <;> cases hcomp
  · intro j u hu
    rcases session_cases hu with ⟨rfl, rfl⟩ | ⟨-, hu⟩
    · intro w hw
      cases hw
    · exact hi.locked j u hu
  · exact compatible_update (fun _ _ _ _ _ _ _ hm => by cases hm) hi.compatible
  · intro j u v' hu hout'
    rcases session_cases hu with ⟨rfl, rfl⟩ | ⟨-, hu⟩
    · cases hout'
      exact List.mem_cons_self
    · exact List.mem_cons_of_mem _ (hi.returned j u v' hu hout')
  · intro e he
    rcases List.mem_cons.mp he with rfl | he
    · exact ⟨t.ended (.ok v), Function.update_self .., rfl, rfl, rfl⟩
    · exact logged_update hunlogged hi.logged e he
  · rw [List.map_cons, List.nodup_cons]
    refine ⟨fun hm => ?_, hi.once⟩
    obtain ⟨e, he, hsession⟩ := List.mem_map.mp hm
    exact hunlogged e he hsession
  · intro j u e hu hout'
    rcases session_cases hu with ⟨rfl, rfl⟩ | ⟨-, hu⟩
    · cases hout'
    · intro hlax
      refine (hi.failed j u e hu hout' hlax).imp_right ?_
      rintro ⟨log, c, hlog, hruns, hfailed⟩
      exact ⟨log, c, hlog.trans (List.suffix_cons ..), hruns, hfailed⟩

/-- One step of any session keeps the invariant. -/
theorem Inv.step (hbody : ∀ call, fp.Guarded [] (db.body call)) {c₀ : db.Store}
    {s s' : db.State} (hi : fp.Inv c₀ s) (h : Step db s s') : fp.Inv c₀ s' := by
  cases h with
  | @begin i call δ hnone =>
    refine hi.update (fun e he heq => ?_) (fun _ => .begin (hbody call)) (fun w hw => ?_)
      (fun _ _ _ _ _ _ _ hm => ?_) (fun v hout => ?_) fun e hout => ?_
    · obtain ⟨u, hu, -⟩ := hi.logged e he
      rw [heq, hnone] at hu
      cases hu
    · cases hw
    · cases hm
    · cases hout
    · cases hout
  | @statement i t st k ht hout hrest hfree =>
    have hsound := hi.sound i t ht hout
    have hunfinished : (t.advance s.store st k).outcome = none := hout
    refine hi.update (hi.unlogged ht hout) (fun _ => hsound.advance hrest) (fun w hw r hr => ?_)
      (fun j u hj hu r m m' hm hm' => ?_) (fun v hout' => ?_) fun e hout' => ?_
    · -- The new writes are of what the statement touches, which it has just locked.
      rcases List.mem_append.mp hw with hold | hnew
      · exact List.mem_append_left _ (hi.locked i t ht w hold r hr)
      · exact (hsound.guarded hrest (t.next s.store st).1).1 r (fp.touches_exec hnew hr)
    · rcases List.mem_append.mp hm with hold | hnew
      · exact hi.compatible i j t u (Ne.symm hj) ht hu r m m' hold hm'
      · exact hfree j u hj hu r m m' hnew hm'
    · rw [hunfinished] at hout'
      cases hout'
    · rw [hunfinished] at hout'
      cases hout'
  | @commit i t v ht hout hrest => exact hi.commit ht hout hrest
  | @rollback i t e ht hout hrest =>
    refine hi.update (hi.unlogged ht hout) (fun hout' => ?_) (fun w hw => ?_)
      (fun _ _ _ _ _ _ _ hm => ?_) (fun v hout' => ?_) fun e' hout' hlax => ?_
    · cases hout'
    · cases hw
    · cases hm
    · cases hout'
    · cases hout'
      -- The body failed by itself, or the database stopped it.
      rcases hrest with hrest | hinterrupts
      · have halone := (hi.sound i t ht hout).failed hrest hlax
        exact .inr halone
      · exact .inl hinterrupts

theorem Inv.reachable (hbody : ∀ call, fp.Guarded [] (db.body call)) {c₀ : db.Store}
    {s : db.State} (h : Reachable db c₀ s) : fp.Inv c₀ s := by
  induction h with
  | refl => exact .init c₀
  | tail _ hstep ih => exact ih.step hbody hstep

/-- Reachable states are serializable in commit order. -/
theorem reachable_serial (hbody : ∀ call, fp.Guarded [] (db.body call)) {c₀ : db.Store}
    {s : db.State} (h : Reachable db c₀ s) : Serial.Runs db.alone c₀ s.log s.store :=
  (Inv.reachable hbody h).serial

end Footprint

end Locking
