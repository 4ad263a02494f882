import LensoFlags.Postgres.Serializable
import LensoFlags.Lib.Waiting

/-!
# No deadlock

A transaction locks its command first, then flags, then an environment. One that holds a flag
exclusively asks for no other flag, and one that holds an environment asks for nothing that others
hold. A batch holds its flags shared while it asks for the next, so a shared request ranks above an
exclusive one. Nobody waits for the keys of a receipt: an id is drawn once, and the identifier of an
evaluation carries the key of its command.

Results:
1. `transaction_ordered`: every transaction makes its requests in this order.
2. `deadlock_free`: the wait-for graph of a reachable state has no cycle.
-/

namespace LensoFlags.Postgres

open Locking (Mode)

variable {codec : Codec} {describe : DbError → String} {rt : Runtime} {call : Call} {δ : Draws}
  {n : ℕ} {held : List (Resource × Mode)}

/-! ## The order -/

/-- The unique keys of a receipt. -/
def Resource.OfReceipt : Resource → Prop
  | .receiptId _ | .evaluation _ => True
  | _ => False

def Resource.rank : Resource × Mode → ℕ
  | (.command _, _) => 0
  | (.flag .., .exclusive) => 1
  | (.flag .., .shared) => 2
  | (.environment .., _) => 3
  | (.receiptId _, _) | (.evaluation _, _) => 0

/-- The keys of the receipts that a call inserts, once it has its command. -/
def Resource.Mine (call : Call) (δ : Draws) (held : List (Resource × Mode)) : Resource → Prop
  | .receiptId id => ∃ n, id = (δ n).uuid
  | .evaluation key => (.command call.commandKey, .exclusive) ∈ held ∧ ∃ i flagKey,
      key = ⟨call.command.caller, call.command.actor, call.operation.name,
        Abstract.evaluationId call.operation.name call.command.key i, flagKey⟩
  | _ => False

theorem Resource.Mine.mono {held' : List (Resource × Mode)} {r : Resource} (hsub : held ⊆ held')
    (h : r.Mine call δ held) : r.Mine call δ held' := by
  cases r with
  | receiptId => exact h
  | evaluation => exact ⟨hsub h.1, h.2⟩
  | _ => exact h

variable (codec describe rt) in
def ranking : Locking.Ranking (store codec describe rt) where
  rank := Resource.rank
  apart := Resource.OfReceipt
  mine := fun call δ held r => r.Mine call δ held
  mine_mono := Resource.Mine.mono

variable (describe rt call δ) in
abbrev Ordered (n : ℕ) (held : List (Resource × Mode)) (p : Transaction codec Answer) : Prop :=
  (ranking codec describe rt).Ordered call δ n held p

variable (codec describe rt) in
abbrev Below (held : List (Resource × Mode)) (n : ℕ) : Prop :=
  (ranking codec describe rt).Below held n

/-! ## Statements -/

theorem mem_whenOk {α : Type} {locks : List (Resource × Mode)} {ρ : Except DbError α}
    {lock : Resource × Mode} (h : lock ∈ whenOk locks ρ) : lock ∈ locks := by
  cases ρ with
  | ok => exact h
  | error => exact absurd h List.not_mem_nil

theorem mem_whenFound {α : Type} {lock lock' : Resource × Mode} {ρ : Option α}
    (h : lock' ∈ whenFound lock ρ) : lock' = lock := by
  cases ρ with
  | some => exact List.mem_singleton.mp h
  | none => exact absurd h List.not_mem_nil

/-- A statement that makes its requests in order, whatever it replies. -/
theorem ordered_query {s : Statement codec} {k : s.Reply → Transaction codec Answer}
    (hasks : ∀ ρ, ∀ lock ∈ s.locks ρ, (ranking codec describe rt).Asks call δ held lock)
    (hrest : ∀ ρ, Ordered describe rt call δ (n + 1) (held ++ s.locks ρ) (k ρ)) :
    Ordered describe rt call δ n held (query s >>= k) :=
  fun _ => ⟨hasks _, hrest _⟩

/-- A request for what the transaction has for itself. -/
theorem asks_owned {lock : Resource × Mode} (hr : ¬lock.1.OfReceipt)
    (hheld : (lock.1, Mode.exclusive) ∈ held) :
    (ranking codec describe rt).Asks call δ held lock :=
  ⟨fun h => absurd h hr, fun _ => .inl hheld⟩

/-- A request above every lock. -/
theorem asks_above {lock : Resource × Mode} (hr : ¬lock.1.OfReceipt)
    (hbelow : Below codec describe rt held (Resource.rank lock)) :
    (ranking codec describe rt).Asks call δ held lock :=
  ⟨fun h => absurd h hr, fun _ => .inr hbelow⟩

/-- A statement on one resource that the transaction has for itself. -/
theorem ordered_owned {s : Statement codec} {k : s.Reply → Transaction codec Answer} {r : Resource}
    (hlocks : ∀ ρ, s.locks ρ ⊆ [(r, .exclusive)]) (hr : ¬r.OfReceipt)
    (hheld : (r, Mode.exclusive) ∈ held)
    (hrest : ∀ ρ held', held ⊆ held' → Ordered describe rt call δ (n + 1) held' (k ρ)) :
    Ordered describe rt call δ n held (query s >>= k) := by
  refine ordered_query (fun ρ lock hlock => ?_) fun ρ => hrest ρ _ (List.subset_append_left ..)
  rw [List.mem_singleton.mp (hlocks ρ hlock)]
  exact asks_owned hr hheld

/-- A statement without locks. -/
theorem ordered_read {s : Statement codec} {k : s.Reply → Transaction codec Answer}
    (hlocks : ∀ ρ, s.locks ρ = [])
    (hrest : ∀ ρ, Ordered describe rt call δ (n + 1) held (k ρ)) :
    Ordered describe rt call δ n held (query s >>= k) := by
  refine ordered_query (fun ρ lock hlock => ?_) fun ρ => ?_
  · rw [hlocks ρ] at hlock
    exact absurd hlock List.not_mem_nil
  · rw [hlocks ρ, List.append_nil]
    exact hrest ρ

/-- The id of a receipt is one that the call draws. -/
theorem ordered_generate {k : String × Int → Transaction codec Answer}
    (hrest : ∀ evaluatedAt, Ordered describe rt call δ (n + 1) held (k ((δ n).uuid, evaluatedAt))) :
    Ordered describe rt call δ n held (query .generate >>= k) := by
  refine fun _ => ⟨fun lock hlock => absurd hlock List.not_mem_nil, ?_⟩
  change Ordered describe rt call δ (n + 1) (held ++ []) (k ((δ n).uuid, (δ n).now))
  rw [List.append_nil]
  exact hrest _

/-! ## Pure steps -/

theorem ordered_lift {α : Type} {x : Except StorageError α} {f : α → Transaction codec Answer}
    (h : ∀ a, Ordered describe rt call δ n held (f a)) :
    Ordered describe rt call δ n held (lift x >>= f) := by
  cases x with
  | ok a => exact h a
  | error e => trivial

theorem ordered_orDatabase {α : Type} {x : Except DbError α} {operation : String}
    {f : α → Transaction codec Answer} (h : ∀ a, Ordered describe rt call δ n held (f a)) :
    Ordered describe rt call δ n held (orDatabase describe operation x >>= f) := by
  cases x with
  | ok a => exact h a
  | error e => trivial

/-- An insertion that can violate a unique key, with a request above every lock. -/
theorem ordered_insert {failure : DomainFailure} {operation : String}
    {f : Unit → Transaction codec Answer} (s : Statement codec) (r : Resource)
    (reply : s.Reply → Except DbError Unit)
    (hlocks : ∀ ρ, s.locks ρ = whenOk [(r, .exclusive)] (reply ρ)) (hr : ¬r.OfReceipt)
    (hbelow : Below codec describe rt held (Resource.rank (r, .exclusive)))
    (hrest : Ordered describe rt call δ (n + 1) (held ++ [(r, .exclusive)]) (f ())) :
    Ordered describe rt call δ n held
      (query s >>= fun ρ => orUnique describe failure operation (reply ρ) >>= f) := by
  refine ordered_query (fun ρ lock hlock => ?_) fun ρ => ?_
  · rw [hlocks ρ] at hlock
    rw [List.mem_singleton.mp (mem_whenOk hlock)]
    exact asks_above hr hbelow
  · rw [hlocks ρ]
    cases reply ρ with
    | ok => exact hrest
    | error e => cases e <;> trivial

/-! ## Locks -/

section Locks

variable {org flagKey environmentKey : String}

/-- A flag held exclusively blocks no request for an environment. -/
theorem below_flag {m : Mode} : Below codec describe rt [(.flag org flagKey, m)] 3 := by
  intro lock hlock _ m' _
  rw [List.mem_singleton.mp hlock]
  cases m' with
  | shared => exact Nat.lt_succ_self 2
  | exclusive => exact Nat.lt_succ_of_lt (Nat.lt_succ_self 1)

/-- A flag held shared blocks no shared request. -/
theorem below_shared : Below codec describe rt [(.flag org flagKey, .shared)] 2 := by
  intro lock hlock _ m' hconflict
  rw [List.mem_singleton.mp hlock] at hconflict ⊢
  cases m' with
  | shared => cases hconflict
  | exclusive => exact Nat.lt_succ_self 1

theorem ordered_lockFlag {f : LockedFlag → Transaction codec Answer}
    (hbelow : Below codec describe rt held 1)
    (hrest : ∀ flag held', held ⊆ held' → (Resource.flag org flagKey, Mode.exclusive) ∈ held' →
      Below codec describe rt held' 3 → Ordered describe rt call δ (n + 1) held' (f flag)) :
    Ordered describe rt call δ n held (lockFlag org flagKey >>= f) := by
  rw [lockFlag, bind_assoc]
  refine ordered_query (fun ρ lock hlock => ?_) fun ρ => ?_
  · rw [mem_whenFound hlock]
    exact asks_above id hbelow
  · cases ρ with
    | none => trivial
    | some flag =>
      exact hrest flag _ (List.subset_append_left ..) (List.mem_append_right _ List.mem_cons_self)
        (Locking.Ranking.below_append.mpr ⟨hbelow.mono (by decide), below_flag⟩)

theorem ordered_readFlagTx {f : FlagRecord → Transaction codec Answer}
    (hrest : ∀ record, Ordered describe rt call δ (n + 1) held (f record)) :
    Ordered describe rt call δ n held (readFlagTx rt org flagKey >>= f) := by
  rw [readFlagTx, bind_assoc]
  refine ordered_read (fun _ => rfl) fun ρ => ?_
  cases ρ with
  | none => trivial
  | some row => exact hrest _

theorem ordered_readEnvironmentTx {f : EnvironmentRecord → Transaction codec Answer}
    (hrest : ∀ record, Ordered describe rt call δ (n + 1) held (f record)) :
    Ordered describe rt call δ n held (readEnvironmentTx rt org environmentKey >>= f) := by
  rw [readEnvironmentTx, bind_assoc]
  refine ordered_read (fun _ => rfl) fun ρ => ?_
  cases ρ with
  | none => trivial
  | some row => exact hrest _

end Locks

/-! ## Operations -/

section Operations

variable {f : Response → Transaction codec Answer}

theorem ordered_createFlag {org flagKey name valueType : String} {description : Option String}
    (hbelow : Below codec describe rt held 1)
    (hrest : ∀ response n held', held ⊆ held' →
      Ordered describe rt call δ n held' (f response)) :
    Ordered describe rt call δ n held
      (createFlag describe rt org flagKey name description valueType >>= f) := by
  simp only [createFlag, bind_assoc]
  refine ordered_insert (.insertFlag org flagKey name description valueType) (.flag org flagKey)
    (fun ρ => ρ) (fun _ => rfl) id hbelow ?_
  exact ordered_readFlagTx fun record => hrest _ _ _ (List.subset_append_left ..)

theorem ordered_updateFlag {org flagKey name : String} {expected : Int}
    {description : Option String} (hbelow : Below codec describe rt held 1)
    (hrest : ∀ response n held', held ⊆ held' →
      Ordered describe rt call δ n held' (f response)) :
    Ordered describe rt call δ n held
      (updateFlag describe rt org flagKey expected name description >>= f) := by
  simp only [updateFlag, bind_assoc]
  refine ordered_lockFlag hbelow fun flag held₁ hsub₁ hflag _ => ordered_lift fun _ => ?_
  refine ordered_owned (fun _ _ => mem_whenOk) id hflag fun ρ held₂ hsub₂ =>
    ordered_orDatabase fun _ => ?_
  exact ordered_readFlagTx fun record => hrest _ _ _ (List.Subset.trans hsub₁ hsub₂)

theorem ordered_archiveFlag {org flagKey : String} {expected : Int}
    (hbelow : Below codec describe rt held 1)
    (hrest : ∀ response n held', held ⊆ held' →
      Ordered describe rt call δ n held' (f response)) :
    Ordered describe rt call δ n held (archiveFlag describe rt org flagKey expected >>= f) := by
  simp only [archiveFlag, bind_assoc]
  refine ordered_lockFlag hbelow fun flag held₁ hsub₁ hflag _ => ordered_lift fun _ => ?_
  refine ordered_owned (fun _ _ => mem_whenOk) id hflag fun ρ held₂ hsub₂ =>
    ordered_orDatabase fun _ => ?_
  exact ordered_readFlagTx fun record => hrest _ _ _ (List.Subset.trans hsub₁ hsub₂)

theorem ordered_putEnvironment {org environmentKey name : String} {expected : Option Int}
    (hbelow : Below codec describe rt held 1)
    (hrest : ∀ response n held', held ⊆ held' →
      Ordered describe rt call δ n held' (f response)) :
    Ordered describe rt call δ n held
      (putEnvironment describe rt org environmentKey name expected >>= f) := by
  have habove : Below codec describe rt held 3 := hbelow.mono (by decide)
  simp only [putEnvironment, bind_assoc]
  refine ordered_query (fun ρ lock hlock => ?_) fun ρ => ?_
  · rw [mem_whenFound hlock]
    exact asks_above id habove
  · cases ρ with
    | some revision =>
      cases expected with
      | none => trivial
      | some expected =>
        change Ordered describe rt call δ (n + 1) _
          ((if revision ≠ expected then _ else _) >>= _)
        split
        · trivial
        · simp only [bind_assoc]
          refine ordered_owned (fun _ _ => mem_whenOk) id
            (List.mem_append_right _ List.mem_cons_self) fun ρ held₁ hsub₁ =>
              ordered_orDatabase fun _ => ?_
          exact ordered_readEnvironmentTx fun record =>
            hrest _ _ _ (List.Subset.trans (List.subset_append_left ..) hsub₁)
    | none =>
      cases expected with
      | some expected => trivial
      | none =>
        change Ordered describe rt call δ (n + 1) (held ++ []) _
        rw [List.append_nil]
        simp only [bind_assoc]
        refine ordered_insert (.insertEnvironment org environmentKey name)
          (.environment org environmentKey) (fun ρ => ρ) (fun _ => rfl) id habove ?_
        exact ordered_readEnvironmentTx fun record => hrest _ _ _ (List.subset_append_left ..)

theorem ordered_publishRuleset {command : Command} {org flagKey environmentKey : String}
    {expectedFlag expectedEnvironment : Int} {definition : RulesetDefinition}
    (hbelow : Below codec describe rt held 1)
    (hrest : ∀ response n held', held ⊆ held' →
      Ordered describe rt call δ n held' (f response)) :
    Ordered describe rt call δ n held (publishRuleset describe rt command org flagKey environmentKey
      expectedFlag expectedEnvironment definition >>= f) := by
  simp only [publishRuleset, bind_assoc]
  refine ordered_lockFlag hbelow fun flag held₁ hsub₁ hflag habove => ordered_lift fun _ =>
    ordered_lift fun _ => ?_
  -- The flag is held, and the environment ranks above it.
  refine ordered_query (fun ρ lock hlock => ?_) fun ρ => ?_
  · rw [mem_whenFound hlock]
    exact asks_above id habove
  cases ρ with
  | none => trivial
  | some revision =>
    have hsub₂ : held₁ ⊆ held₁ ++ [(Resource.environment org environmentKey, Mode.exclusive)] :=
      List.subset_append_left ..
    have henv : (Resource.environment org environmentKey, Mode.exclusive) ∈
        held₁ ++ [(Resource.environment org environmentKey, Mode.exclusive)] :=
      List.mem_append_right _ List.mem_cons_self
    change Ordered describe rt call δ _ (held₁ ++ [_])
      ((if revision ≠ expectedEnvironment then _ else _) >>= f)
    split
    · trivial
    · simp only [bind_assoc]
      refine ordered_read (fun _ => rfl) fun ρ => ordered_orDatabase fun next => ?_
      refine ordered_query (fun ρ lock hlock => ?_) fun ρ => ordered_orDatabase fun at_ => ?_
      · rcases List.mem_cons.mp (mem_whenOk hlock) with rfl | hlock
        · exact asks_owned id (hsub₂ hflag)
        · rw [List.mem_singleton.mp hlock]
          exact asks_owned id henv
      have hsub₃ : held₁ ++ [(Resource.environment org environmentKey, Mode.exclusive)] ⊆
          held₁ ++ [(Resource.environment org environmentKey, Mode.exclusive)] ++
            Statement.locks (.insertRuleset org flagKey environmentKey next definition
              command.actor) ρ :=
        List.subset_append_left ..
      rw [bumpFlag, bind_assoc]
      refine ordered_owned (fun _ _ => mem_whenOk) id (hsub₃ (hsub₂ hflag)) fun ρ held₄ hsub₄ =>
        ordered_orDatabase fun _ => ?_
      rw [bumpEnvironment, bind_assoc]
      refine ordered_owned (fun _ _ => mem_whenOk) id (hsub₄ (hsub₃ henv)) fun ρ held₅ hsub₅ =>
        ordered_orDatabase fun _ => ?_
      exact hrest _ _ held₅ fun lock hlock => hsub₅ (hsub₄ (hsub₃ (hsub₂ (hsub₁ hlock))))

end Operations

/-! ## Evaluations -/

section Evaluations

variable {org environmentKey targetingKey contextHash : String} {attributes : List (String × Json)}

/-- One evaluation of a transaction that has its command and holds flags shared. -/
theorem ordered_evaluateOne {flagKey : String} {i : ℕ}
    {f : EvaluationRecord → Transaction codec Answer}
    (hcommand : (Resource.command call.commandKey, Mode.exclusive) ∈ held)
    (hbelow : Below codec describe rt held 2)
    (hrest : ∀ record n held', held ⊆ held' → Below codec describe rt held' 2 →
      Ordered describe rt call δ n held' (f record)) :
    Ordered describe rt call δ n held (evaluateOne describe rt call.command call.operation.name org
      environmentKey flagKey (Abstract.evaluationId call.operation.name call.command.key i)
      targetingKey attributes contextHash >>= f) := by
  simp only [evaluateOne, bind_assoc]
  refine ordered_query (fun ρ lock hlock => ?_) fun ρ => ?_
  · rw [mem_whenFound hlock]
    exact asks_above id hbelow
  cases ρ with
  | none => trivial
  | some flag =>
    obtain ⟨valueType, archived⟩ := flag
    have hsub₁ : held ⊆ held ++ [(Resource.flag org flagKey, Mode.shared)] :=
      List.subset_append_left ..
    have hbelow₁ : Below codec describe rt (held ++ [(.flag org flagKey, .shared)]) 2 :=
      Locking.Ranking.below_append.mpr ⟨hbelow, below_shared⟩
    change Ordered describe rt call δ _ (held ++ [_]) ((if archived = true then _ else _) >>= f)
    split
    · trivial
    change Ordered describe rt call δ _ _
      ((query (.existsEnvironment org environmentKey) >>= fun found => _) >>= f)
    rw [bind_assoc]
    refine ordered_read (fun _ => rfl) fun (found : Bool) => ?_
    cases found with
    | false => trivial
    | true =>
      change Ordered describe rt call δ _ _
        ((query (.latestRuleset org flagKey environmentKey) >>= fun row => _) >>= f)
      simp only [bind_assoc]
      refine ordered_read (fun _ => rfl) fun row => ordered_lift fun row => ordered_lift fun _ =>
        ordered_lift fun _ => ordered_lift fun choice => ordered_generate fun evaluatedAt => ?_
      simp only [bind_assoc]
      refine ordered_query (fun ρ lock hlock => ?_) fun ρ => ordered_orDatabase fun _ =>
        hrest _ _ _ (List.Subset.trans hsub₁ (List.subset_append_left ..))
          (Locking.Ranking.below_append.mpr ⟨hbelow₁, fun lock hlock hr => ?_⟩)
      · rcases List.mem_cons.mp (mem_whenOk hlock) with rfl | hlock
        · exact ⟨fun _ => ⟨_, rfl⟩, fun h => absurd trivial h⟩
        · rw [List.mem_singleton.mp hlock]
          exact ⟨fun _ => ⟨hsub₁ hcommand, i, flagKey, rfl⟩, fun h => absurd trivial h⟩
      · rcases List.mem_cons.mp (mem_whenOk hlock) with rfl | hlock
        · exact absurd trivial hr
        · rw [List.mem_singleton.mp hlock] at hr
          exact absurd trivial hr

theorem ordered_evaluateFrom {flagKeys : List String} {i : ℕ}
    {f : List EvaluationRecord → Transaction codec Answer}
    (hop : call.operation.name = "evaluate_batch")
    (hcommand : (Resource.command call.commandKey, Mode.exclusive) ∈ held)
    (hbelow : Below codec describe rt held 2)
    (hrest : ∀ records n held', held ⊆ held' → Ordered describe rt call δ n held' (f records)) :
    Ordered describe rt call δ n held (evaluateFrom describe rt call.command org environmentKey
      targetingKey attributes contextHash i flagKeys >>= f) := by
  induction flagKeys generalizing n held i f with
  | nil => exact hrest [] n held (List.Subset.refl held)
  | cons flagKey flagKeys ih =>
    have hone := @ordered_evaluateOne codec describe rt call δ n held org environmentKey targetingKey
      contextHash attributes flagKey i
    simp only [hop] at hone
    simp only [evaluateFrom, bind_assoc]
    refine hone hcommand hbelow fun record n held₁ hsub₁ hbelow₁ => ?_
    exact ih (hsub₁ hcommand) hbelow₁ fun records n held₂ hsub₂ =>
      hrest _ n held₂ (List.Subset.trans hsub₁ hsub₂)

end Evaluations

/-! ## Transactions -/

theorem ordered_fresh {f : Response → Transaction codec Answer}
    (hcommand : (Resource.command call.commandKey, Mode.exclusive) ∈ held)
    (hbelow : Below codec describe rt held 1)
    (hrest : ∀ response n held', held ⊆ held' → Ordered describe rt call δ n held' (f response)) :
    Ordered describe rt call δ n held (fresh describe rt call >>= f) := by
  have hbelow₂ : Below codec describe rt held 2 := hbelow.mono (by decide)
  obtain ⟨command, operation⟩ := call
  cases operation with
  | createFlag => exact ordered_createFlag hbelow hrest
  | updateFlag => exact ordered_updateFlag hbelow hrest
  | archiveFlag => exact ordered_archiveFlag hbelow hrest
  | putEnvironment => exact ordered_putEnvironment hbelow hrest
  | publishRuleset => exact ordered_publishRuleset hbelow hrest
  | evaluate =>
    simp only [fresh, bind_assoc]
    exact ordered_evaluateOne (i := 0) hcommand hbelow₂ fun record n held' hsub _ =>
      hrest _ n held' hsub
  | evaluateBatch =>
    simp only [fresh, bind_assoc]
    exact ordered_evaluateFrom rfl hcommand hbelow₂ fun records n held' hsub =>
      hrest _ n held' hsub

theorem ordered_admitCommand {kind : Kind} {command : Command} {operation : String}
    {f : Option Response → Transaction codec Answer}
    (hreplay : ∀ replay n held', Ordered describe rt call δ n held' (f (some replay)))
    (hnew : Ordered describe rt call δ (n + 2)
      [(.command (command.rowKey operation), .exclusive)] (f none)) :
    Ordered describe rt call δ n [] (admitCommand describe kind command operation >>= f) := by
  have hnone : ∀ m, Below codec describe rt [] m := fun _ _ hlock => absurd hlock List.not_mem_nil
  simp only [admitCommand, bind_assoc]
  refine ordered_query (fun ρ lock hlock => ?_) fun ρ => ?_
  · rw [mem_whenFound hlock]
    exact asks_above id (hnone _)
  cases ρ with
  | some row =>
    obtain ⟨requestHash, response⟩ := row
    change Ordered describe rt call δ _ _ ((if requestHash ≠ command.hash then _ else _) >>= f)
    split
    · trivial
    · cases response with
      | none => trivial
      | some response =>
        change Ordered describe rt call δ _ _
          ((lift (orJson (decodeResponse codec kind response)) >>= fun _ => _) >>= f)
        rw [bind_assoc]
        exact ordered_lift fun replay => hreplay replay _ _
  | none =>
    change Ordered describe rt call δ _ [] _
    simp only [bind_assoc]
    exact ordered_insert (.insertCommand (command.rowKey operation) command.hash)
      (.command (command.rowKey operation)) (fun ρ => ρ) (fun _ => rfl) id (hnone _) hnew

theorem ordered_finishCommand {response : Response} {f : Unit → Transaction codec Answer}
    (hcommand : (Resource.command call.commandKey, Mode.exclusive) ∈ held)
    (hrest : ∀ held', Ordered describe rt call δ (n + 1) held' (f ())) :
    Ordered describe rt call δ n held
      (finishCommand describe call.command call.operation.name response >>= f) := by
  rw [finishCommand, bind_assoc]
  exact ordered_owned (fun _ _ => mem_whenOk) id hcommand fun ρ held' _ =>
    ordered_orDatabase fun _ => hrest held'

/-- Every transaction makes its requests in order. -/
theorem transaction_ordered (call : Call) (δ : Draws) :
    (ranking codec describe rt).Ordered call δ 0 [] ((store codec describe rt).body call) := by
  refine ordered_admitCommand (fun _ _ _ => trivial) ?_
  have hbelow : Below codec describe rt [(.command call.commandKey, .exclusive)] 1 := by
    intro lock hlock _ m _
    rw [List.mem_singleton.mp hlock]
    exact Nat.zero_lt_one
  refine ordered_fresh List.mem_cons_self hbelow fun response n held' hsub => ?_
  exact ordered_finishCommand (hsub List.mem_cons_self) fun _ => trivial

/-! ## Sessions -/

variable {s s' : State codec describe rt}

/-- Every session makes its requests in order. -/
theorem Reachable.keeps (h : Reachable s) :
    ∀ i t, s.sessions i = some t → (ranking codec describe rt).Keeps t := by
  induction h with
  | refl =>
    intro i t ht
    rw [State.initial_sessions] at ht
    cases ht
  | tail _ hstep ih => exact Locking.Ranking.Keeps.step transaction_ordered ih hstep.step

/-- No two sessions may ask for the key of one receipt. -/
theorem Inv.mine (hi : Inv s) {i j : ℕ} {t u : (store codec describe rt).Session} {r : Resource}
    (hij : i ≠ j) (ht : s.sessions i = some t) (hu : s.sessions j = some u)
    (hmine : r.Mine t.call t.draws t.held) : ¬r.Mine u.call u.draws u.held := by
  intro hmine'
  cases r with
  | receiptId =>
    obtain ⟨n, rfl⟩ := hmine
    obtain ⟨m, hm⟩ := hmine'
    exact (hi.unshared i j t u hij ht hu).1 n m hm
  | evaluation =>
    obtain ⟨hheld, a, flagKey, rfl⟩ := hmine
    obtain ⟨hheld', b, flagKey', heq⟩ := hmine'
    obtain ⟨hcaller, hactor, hoperation, hid, -⟩ := EvaluationKey.mk.inj heq
    rw [hoperation] at hid
    -- One evaluation identifier comes from one command, which both would hold.
    have hcommand : t.call.commandKey = u.call.commandKey := by
      unfold Call.commandKey Command.rowKey
      rw [hcaller, hactor, hoperation, (Abstract.evaluationId_inj hid).1]
    rw [hcommand] at hheld
    cases hi.locking.compatible i j t u hij ht hu _ _ _ hheld hheld'
  | _ => exact hmine

theorem Reachable.governs (h : Reachable s) : (ranking codec describe rt).Governs s where
  keeps := h.keeps
  compatible := (Inv.reachable h).locking.compatible
  mine := fun _ _ _ _ _ hij ht hu hmine => (Inv.reachable h).mine hij ht hu hmine

/-- No deadlock: in a reachable state no session waits for itself, over any number of others. -/
theorem deadlock_free (h : Reachable s) (i : ℕ) :
    ¬Relation.TransGen (Locking.Database.Waits s) i i :=
  h.governs.acyclic i

/-- A flag that two transactions create at once: the second waits for the first. -/
theorem deadlock_free_waiting : ∃ s : State Codec.verbatim (fun _ => "") (.atEpoch []),
    Reachable s ∧ Locking.Database.Waits s 1 0 ∧
      ∀ i, ¬Relation.TransGen (Locking.Database.Waits s) i i := by
  let db := store Codec.verbatim (fun _ => "") (.atEpoch [])
  let create : String → Call := fun key =>
    ⟨⟨"caller", "actor", key, [1]⟩, .createFlag "org" "flag" "Flag" none "boolean"⟩
  let first : db.Session :=
    (Locking.Database.Session.begin db (create "key-1") (Draws.numbered 0)).run
      (Tables.empty : Tables Codec.verbatim) 3
  let second : db.Session :=
    (Locking.Database.Session.begin db (create "key-2") (Draws.numbered 1)).run
      (Tables.empty : Tables Codec.verbatim) 2
  let s₁ : State Codec.verbatim (fun _ => "") (.atEpoch []) :=
    { State.initial with sessions := Function.update State.initial.sessions 0 (some first) }
  have h₁ : Reachable s₁ := Steps.begin_run (create "key-1") 3 rfl (.numbered 0)
    (fun j t ht => nomatch ht) (fun j t ht => nomatch ht)
  have hcases : ∀ j t, s₁.sessions j = some t → t = first := by
    intro j t ht
    rcases Locking.Footprint.session_cases ht with ⟨-, rfl⟩ | ⟨-, hnone⟩
    · rfl
    · cases hnone
  let s₂ : State Codec.verbatim (fun _ => "") (.atEpoch []) :=
    { s₁ with sessions := Function.update s₁.sessions 1 (some second) }
  have h₂ : Steps s₁ s₂ := Steps.begin_run (create "key-2") 2 rfl (.numbered 1)
    (fun j t ht => by
      rw [hcases j t ht]
      exact .numbered (m := 0) (by decide))
    (fun j t ht => by
      rw [hcases j t ht]
      decide)
  have hsecond : s₂.sessions 1 = some second := by
    change Function.update s₁.sessions 1 (some second) 1 = _
    rw [Function.update_self]
  refine ⟨s₂, h₁.trans h₂, ⟨(.flag "org" "flag", .exclusive), by decide, ?_, ?_⟩,
    deadlock_free (h₁.trans h₂)⟩
  · exact ⟨second, _, _, hsecond, rfl, rfl, List.mem_cons_self⟩
  · exact ⟨first, .exclusive, rfl, by decide, rfl⟩

end LensoFlags.Postgres
