import LensoFlags.Lib.Locking

/-!
# Waiting transactions

A transaction waits for those that hold a lock in conflict with one that its next statement takes.
`Ranking` orders the requests: a transaction only waits with a request above every request that the
locks it holds can block. Requests for some resources are `apart`: no two transactions make them, and
they are left out of the order.

Results:
1. `Ordered.step`: an ordered program stays ordered, statement by statement.
2. `Ranking.ascends`: along two edges of the wait-for graph the requests go up.
3. `Ranking.acyclic`: the graph has no cycle.
-/

namespace Locking

namespace Database

variable {db : Database}

/-! ## The wait-for graph -/

/-- Session `i` waits for session `j` over the lock. -/
structure WaitsOver (s : db.State) (i j : ℕ) (lock : db.Res × Mode) : Prop where
  ne : j ≠ i
  waiting : ∃ t st k, s.sessions i = some t ∧ t.outcome = none ∧ t.rest = .step st k ∧
    lock ∈ db.locks st (t.next s.store st).1
  holding : ∃ u m, s.sessions j = some u ∧ (lock.1, m) ∈ u.held ∧ lock.2.compatible m = false

/-- Session `i` waits for session `j`. -/
def Waits (s : db.State) (i j : ℕ) : Prop := ∃ lock, WaitsOver s i j lock

/-- The locks that the next statement of a session takes. -/
def Session.nextLocks (t : db.Session) (c : db.Store) : List (db.Res × Mode) :=
  match t.rest with
  | .step st _ => db.locks st (t.next c st).1
  | .ret _ => []
  | .fail _ => []

theorem Waits.of_nextLocks {s : db.State} {i j : ℕ} {t u : db.Session} {r : db.Res} {m m' : Mode}
    (hne : j ≠ i) (ht : s.sessions i = some t) (hout : t.outcome = none)
    (hlock : (r, m) ∈ t.nextLocks s.store) (hu : s.sessions j = some u) (hheld : (r, m') ∈ u.held)
    (hconflict : m.compatible m' = false) : Waits s i j := by
  refine ⟨(r, m), hne, ?_, u, m', hu, hheld, hconflict⟩
  unfold Session.nextLocks at hlock
  split at hlock
  · next st k hrest => exact ⟨t, st, k, ht, hout, hrest, hlock⟩
  · cases hlock
  · cases hlock

end Database

/-! ## Rankings -/

open Database

/-- An order of the requests for locks. -/
structure Ranking (db : Database) where
  rank : db.Res × Mode → ℕ
  /-- The resources that no two transactions ask for. -/
  apart : db.Res → Prop
  /-- A transaction that holds the locks may ask for the resource, and no other may. -/
  mine : db.Call → (ℕ → db.Draw) → List (db.Res × Mode) → db.Res → Prop
  mine_mono : ∀ {call δ held held' r}, held ⊆ held' → mine call δ held r → mine call δ held' r

namespace Ranking

variable {db : Database} (R : Ranking db)

/-- The locks only block requests below the rank. -/
def Below (held : List (db.Res × Mode)) (n : ℕ) : Prop :=
  ∀ lock ∈ held, ¬R.apart lock.1 → ∀ m : Mode, m.compatible lock.2 = false → R.rank (lock.1, m) < n

/-- A request that a transaction with these locks may make. -/
structure Asks (call : db.Call) (δ : ℕ → db.Draw) (held : List (db.Res × Mode))
    (lock : db.Res × Mode) : Prop where
  mine : R.apart lock.1 → R.mine call δ held lock.1
  /-- The transaction has the resource for itself, or the request is above its locks. -/
  above : ¬R.apart lock.1 → (lock.1, Mode.exclusive) ∈ held ∨ R.Below held (R.rank lock)

/-- Every request of the program is one it may make. -/
def Ordered (call : db.Call) (δ : ℕ → db.Draw) : ℕ → List (db.Res × Mode) → db.Body → Prop
  | _, _, .ret _ => True
  | _, _, .fail _ => True
  | n, held, .step st k => ∀ c,
      (∀ lock ∈ db.locks st (db.exec (δ n) st c).1, R.Asks call δ held lock) ∧
        Ordered call δ (n + 1) (held ++ db.locks st (db.exec (δ n) st c).1)
          (k (db.exec (δ n) st c).1)

/-- A session between two statements. -/
structure Keeps (t : db.Session) : Prop where
  ordered : t.outcome = none → R.Ordered t.call t.draws t.pos t.held t.rest
  held : ∀ lock ∈ t.held, R.apart lock.1 → R.mine t.call t.draws t.held lock.1

variable {R} {s s' : db.State}

theorem Below.mono {held : List (db.Res × Mode)} {n m : ℕ} (h : R.Below held n) (hle : n ≤ m) :
    R.Below held m :=
  fun lock hlock hapart mode hconflict =>
    Nat.lt_of_lt_of_le (h lock hlock hapart mode hconflict) hle

theorem below_append {held held' : List (db.Res × Mode)} {n : ℕ} :
    R.Below (held ++ held') n ↔ R.Below held n ∧ R.Below held' n :=
  List.forall_mem_append

theorem Keeps.begin {call : db.Call} {δ : ℕ → db.Draw}
    (hbody : R.Ordered call δ 0 [] (db.body call)) : R.Keeps (Session.begin db call δ) :=
  ⟨fun _ => hbody, fun _ hlock => absurd hlock List.not_mem_nil⟩

/-- The next statement keeps the order. -/
theorem Keeps.advance {t : db.Session} {st : db.Stmt} {k : db.Reply st → db.Body} {c : db.Store}
    (h : R.Keeps t) (hout : t.outcome = none) (hrest : t.rest = .step st k) :
    R.Keeps (t.advance c st k) := by
  have hordered := h.ordered hout
  rw [hrest] at hordered
  obtain ⟨hasks, hnext⟩ := hordered (t.view c)
  refine ⟨fun _ => hnext, fun lock hlock hapart => ?_⟩
  rcases List.mem_append.mp hlock with hold | hnew
  · exact R.mine_mono (List.subset_append_left ..) (h.held lock hold hapart)
  · exact R.mine_mono (List.subset_append_left ..) ((hasks lock hnew).mine hapart)

theorem Keeps.ended (t : db.Session) (result : Except db.Err db.Value) : R.Keeps (t.ended result) :=
  ⟨fun hout => absurd hout (Option.some_ne_none result), fun _ hlock => absurd hlock List.not_mem_nil⟩

/-- Every session keeps the order, from its begin on. -/
theorem Keeps.step (hbody : ∀ call δ, R.Ordered call δ 0 [] (db.body call))
    (hi : ∀ i t, s.sessions i = some t → R.Keeps t) (h : Step db s s') :
    ∀ i t, s'.sessions i = some t → R.Keeps t := by
  intro i t ht
  cases h with
  | begin =>
    rcases Footprint.session_cases ht with ⟨-, rfl⟩ | ⟨-, ht⟩
    · exact .begin (hbody _ _)
    · exact hi i t ht
  | statement hu hout hrest =>
    rcases Footprint.session_cases ht with ⟨-, rfl⟩ | ⟨-, ht⟩
    · exact (hi _ _ hu).advance hout hrest
    · exact hi i t ht
  | commit =>
    rcases Footprint.session_cases ht with ⟨-, rfl⟩ | ⟨-, ht⟩
    · exact .ended _ _
    · exact hi i t ht
  | rollback =>
    rcases Footprint.session_cases ht with ⟨-, rfl⟩ | ⟨-, ht⟩
    · exact .ended _ _
    · exact hi i t ht

/-! ## No cycle -/

variable (R) in
/-- What the order rests on in a state. -/
structure Governs (s : db.State) : Prop where
  keeps : ∀ i t, s.sessions i = some t → R.Keeps t
  compatible : ∀ i j t u, i ≠ j → s.sessions i = some t → s.sessions j = some u →
    ∀ r m m', (r, m) ∈ t.held → (r, m') ∈ u.held → m.compatible m' = true
  mine : ∀ i j t u r, i ≠ j → s.sessions i = some t → s.sessions j = some u →
    R.mine t.call t.draws t.held r → ¬R.mine u.call u.draws u.held r

/-- A session waits with a request above its locks, for a resource that others ask for too. -/
theorem Governs.waiting (h : R.Governs s) {i j : ℕ} {lock : db.Res × Mode}
    (hwaits : WaitsOver s i j lock) {t : db.Session} (ht : s.sessions i = some t) :
    ¬R.apart lock.1 ∧ R.Below t.held (R.rank lock) := by
  obtain ⟨hne, ⟨t', st, k, ht', hout, hrest, hlock⟩, u, m, hu, hm, hconflict⟩ := hwaits
  rw [ht] at ht'
  cases ht'
  have hordered := (h.keeps i t ht).ordered hout
  rw [hrest] at hordered
  have hasks := (hordered (t.view s.store)).1 lock hlock
  have hapart : ¬R.apart lock.1 := fun hapart =>
    h.mine i j t u lock.1 (Ne.symm hne) ht hu (hasks.mine hapart)
      ((h.keeps j u hu).held (lock.1, m) hm hapart)
  refine ⟨hapart, (hasks.above hapart).resolve_left fun hown => ?_⟩
  have hexclusive := h.compatible i j t u (Ne.symm hne) ht hu lock.1 _ m hown hm
  cases m <;> cases hexclusive

/-- Along two edges of the wait-for graph the requests go up. -/
theorem Governs.ascends (h : R.Governs s) {i j l : ℕ} {lock lock' : db.Res × Mode}
    (hwaits : WaitsOver s i j lock) (hwaits' : WaitsOver s j l lock') :
    R.rank lock < R.rank lock' := by
  obtain ⟨t, -, -, ht, -⟩ := hwaits.waiting
  obtain ⟨u, m, hu, hm, hconflict⟩ := hwaits.holding
  exact (h.waiting hwaits' hu).2 (lock.1, m) hm (h.waiting hwaits ht).1 lock.2 hconflict

/-- The wait-for graph has no cycle. -/
theorem Governs.acyclic (h : R.Governs s) (i : ℕ) : ¬Relation.TransGen (Waits s) i i := by
  -- Along a path, the last request is at or above the first.
  have hpath : ∀ {j}, Relation.TransGen (Waits s) i j → ∃ x y lock lock', WaitsOver s i x lock ∧
      WaitsOver s y j lock' ∧ R.rank lock ≤ R.rank lock' := by
    intro j hj
    induction hj with
    | single hedge =>
      obtain ⟨lock, hlock⟩ := hedge
      exact ⟨_, _, lock, lock, hlock, hlock, Nat.le_refl _⟩
    | tail _ hedge ih =>
      obtain ⟨x, y, lock, lock', hfirst, hlast, hle⟩ := ih
      obtain ⟨lock'', hlock''⟩ := hedge
      exact ⟨x, _, lock, lock'', hfirst, hlock'',
        Nat.le_trans hle (Nat.le_of_lt (h.ascends hlast hlock''))⟩
  intro hcycle
  obtain ⟨x, y, lock, lock', hfirst, hlast, hle⟩ := hpath hcycle
  exact absurd (h.ascends hlast hfirst) (Nat.not_lt.mpr hle)

end Ranking

end Locking
