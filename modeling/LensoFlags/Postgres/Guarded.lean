import LensoFlags.Postgres.Footprint

/-!
# Every transaction is guarded

An operation writes only what it has locked, and what it reads without a lock cannot change before it
commits: the environment of an evaluation stays once it is there, and the rulesets of a flag change
only under the flag's exclusive lock. The two reads that find nothing, of a command row and of an
environment, are settled by the insertion behind them.

Result: `transaction_guarded`.
-/

namespace LensoFlags.Postgres

open Locking (Footprint Mode)
open Locking.Footprint (Covered)

variable {codec : Codec} {describe : DbError → String} {rt : Runtime}
  {held : List (Resource × Mode)}

/-- The programs of the database, as the library sees them. -/
abbrev Guarded (describe : DbError → String) (rt : Runtime) (held : List (Resource × Mode))
    (p : Transaction codec Answer) : Prop :=
  (footprint codec describe rt).Guarded held p

/-! ## Statements -/

theorem Statement.touched_subset (s : Statement codec) (ρ : s.Reply) : s.touched ρ ⊆ s.reads := by
  have hok : ∀ {α : Type} (rs : List Resource) (ρ : Except DbError α), ifOk rs ρ ⊆ rs := by
    intro α rs ρ
    cases ρ with
    | ok => exact List.Subset.refl rs
    | error => exact List.nil_subset rs
  cases s with
  | insertCommand => exact hok _ ρ
  | updateCommand => exact hok _ ρ
  | insertFlag => exact hok _ ρ
  | updateFlag => exact hok _ ρ
  | archiveFlag => exact hok _ ρ
  | bumpFlag => exact hok _ ρ
  | insertEnvironment => exact hok _ ρ
  | updateEnvironment => exact hok _ ρ
  | bumpEnvironment => exact hok _ ρ
  | insertRuleset => exact List.Subset.trans (hok _ ρ) (List.cons_subset_cons _ (List.nil_subset _))
  | insertReceipt => exact hok _ ρ
  | _ => exact List.nil_subset _

theorem covered_of_mem {rs : List Resource} {m : Mode} (h : ∀ r ∈ rs, (r, m) ∈ held) :
    @Covered (store codec describe rt) held rs :=
  fun r hr => ⟨m, h r hr⟩

/-- The lock that a statement takes, over what was held. -/
theorem mem_taken {r : Resource} {m : Mode} : (r, m) ∈ held ++ [(r, m)] :=
  List.mem_append_right _ List.mem_cons_self

theorem covered_taken {r : Resource} {m : Mode} :
    @Covered (store codec describe rt) (held ++ [(r, m)]) [r] :=
  covered_of_mem (List.forall_mem_singleton.mpr mem_taken)

/-- A statement on resources that are locked exclusively. -/
theorem guarded_owned {s : Statement codec} {k : s.Reply → Transaction codec Answer}
    (hown : ∀ r ∈ s.reads, (r, Mode.exclusive) ∈ held)
    (hrest : ∀ ρ held', held ⊆ held' → Guarded describe rt held' (k ρ)) :
    Guarded describe rt held (.step s k) := by
  intro ρ
  refine ⟨fun r hr => List.mem_append_left _ (hown r (s.touched_subset ρ hr)), .inl ?_,
    hrest ρ _ (List.subset_append_left ..)⟩
  exact covered_of_mem fun r hr => List.mem_append_left _ (hown r hr)

/-- A statement on one locked resource. -/
theorem guarded_locked {s : Statement codec} {k : s.Reply → Transaction codec Answer} {r : Resource}
    (hreads : s.reads = [r]) (hheld : (r, Mode.exclusive) ∈ held)
    (hrest : ∀ ρ held', held ⊆ held' → Guarded describe rt held' (k ρ)) :
    Guarded describe rt held (.step s k) := by
  refine guarded_owned ?_ hrest
  rw [hreads]
  exact List.forall_mem_singleton.mpr hheld

/-- A statement that writes nothing, on a resource that is locked. -/
theorem guarded_read {s : Statement codec} {k : s.Reply → Transaction codec Answer} {m : Mode}
    (hheld : ∀ r ∈ s.reads, (r, m) ∈ held) (hnone : ∀ ρ, s.touched ρ = [])
    (hrest : ∀ ρ held', held ⊆ held' → Guarded describe rt held' (k ρ)) :
    Guarded describe rt held (.step s k) := by
  intro ρ
  refine ⟨fun r hr => ?_, .inl ?_, hrest ρ _ (List.subset_append_left ..)⟩
  · rw [show (footprint codec describe rt).touched s ρ = [] from hnone ρ] at hr
    cases hr
  · exact covered_of_mem fun r hr => List.mem_append_left _ (hheld r hr)

theorem lax_domain {failure : DomainFailure} (htype : failure ≠ .typeMismatch)
    (hruleset : failure ≠ .invalidRuleset) : lax (.domain failure) :=
  ⟨fun h => htype (StorageError.domain.inj h), fun h => hruleset (StorageError.domain.inj h)⟩

theorem lax_backend (detail : String) : lax (.backend detail) := by
  constructor <;> intro h <;> cases h

/-- A failure that may rest on a read without a lock. -/
theorem fails {p : Transaction codec Answer} {e : StorageError} (h : p = .fail e) (hlax : lax e) :
    ∃ e, lax e ∧ p = .fail e :=
  ⟨e, hlax, h⟩

/-! ## Pure steps -/

theorem guarded_lift {α : Type} {x : Except StorageError α} {f : α → Transaction codec Answer}
    (h : ∀ a, x = .ok a → Guarded describe rt held (f a)) :
    Guarded describe rt held (lift x >>= f) := by
  cases x with
  | ok a => exact h a rfl
  | error e => trivial

theorem guarded_orDatabase {α : Type} {x : Except DbError α} {operation : String}
    {f : α → Transaction codec Answer} (h : ∀ a, Guarded describe rt held (f a)) :
    Guarded describe rt held (orDatabase describe operation x >>= f) := by
  cases x with
  | ok a => exact h a
  | error e => trivial

/-! ## Commands -/

theorem guarded_admitCommand {kind : Kind} {command : Command} {operation : String}
    {f : Option Response → Transaction codec Answer}
    (hreplay : ∀ replay held', Guarded describe rt held' (f (some replay)))
    (hnew : ∀ held', (Resource.command (command.rowKey operation), Mode.exclusive) ∈ held' →
      Guarded describe rt held' (f none)) :
    Guarded describe rt held (admitCommand describe kind command operation >>= f) := by
  intro ρ
  cases ρ with
  | some row =>
    obtain ⟨requestHash, response⟩ := row
    refine ⟨fun _ hr => absurd hr List.not_mem_nil, .inl covered_taken, ?_⟩
    change Guarded describe rt _ ((if requestHash ≠ command.hash then _ else _) >>= f)
    split
    · trivial
    · cases response with
      | none => trivial
      | some response =>
        change Guarded describe rt _ ((lift (orJson (decodeResponse codec kind response)) >>=
          fun replay => pure (some replay)) >>= f)
        cases decodeResponse codec kind response with
        | none => trivial
        | some replay => exact hreplay replay _
  | none =>
    refine ⟨fun _ hr => absurd hr List.not_mem_nil,
      .inr (.inr (.inr ⟨List.cons_ne_nil _ _, rfl, fun _ _ _ => rfl,
      .insertCommand _ _, _, rfl, ?_⟩)), ?_⟩
    · intro ρ
      cases ρ with
      | error e =>
        left
        cases e with
        | uniqueViolation => exact fails rfl (lax_domain (by decide) (by decide))
        | _ => exact fails rfl (lax_backend _)
      | ok =>
        refine .inr ⟨@covered_taken codec describe rt [] _ _, fun d d' t hok => ?_⟩
        -- The insertion violated nothing, so the row is not there.
        change (Statement.execute d' (.insertCommand _ _) t).1 = _ at hok
        simp only [Statement.execute] at hok
        split at hok
        · cases hok
        · next hnone =>
          change ((t.command _).map _, _) = _
          rw [Option.not_isSome_iff_eq_none.mp hnone]
          rfl
    · intro ρ
      cases ρ with
      | error e =>
        refine ⟨fun _ hr => absurd hr List.not_mem_nil, .inr (.inr (.inl ?_)), ?_⟩
        · cases e with
          | uniqueViolation => exact fails rfl (lax_domain (by decide) (by decide))
          | _ => exact fails rfl (lax_backend _)
        · cases e <;> trivial
      | ok => exact ⟨List.forall_mem_singleton.mpr mem_taken, .inl covered_taken, hnew _ mem_taken⟩

theorem guarded_finishCommand {command : Command} {operation : String} {response : Response}
    {f : Unit → Transaction codec Answer}
    (hheld : (Resource.command (command.rowKey operation), Mode.exclusive) ∈ held)
    (hrest : ∀ held', Guarded describe rt held' (f ())) :
    Guarded describe rt held (finishCommand describe command operation response >>= f) := by
  rw [finishCommand, bind_assoc]
  exact guarded_locked rfl hheld fun ρ held' _ => guarded_orDatabase fun _ => hrest held'

/-! ## Flags -/

section Flags

variable {org flagKey : String}

theorem guarded_lockFlag {f : LockedFlag → Transaction codec Answer}
    (hrest : ∀ flag held', held ⊆ held' → (Resource.flag org flagKey, Mode.exclusive) ∈ held' →
      Guarded describe rt held' (f flag)) :
    Guarded describe rt held (lockFlag org flagKey >>= f) := by
  rw [lockFlag, bind_assoc]
  intro ρ
  cases ρ with
  | none =>
    exact ⟨nofun, .inr (.inr (.inl (fails rfl (lax_domain (by decide) (by decide))))), trivial⟩
  | some flag =>
    exact ⟨nofun, .inl covered_taken, hrest flag _ (List.subset_append_left ..) mem_taken⟩

theorem guarded_readFlagTx {f : FlagRecord → Transaction codec Answer}
    (hheld : (Resource.flag org flagKey, Mode.exclusive) ∈ held)
    (hrest : ∀ record held', held ⊆ held' → Guarded describe rt held' (f record)) :
    Guarded describe rt held (readFlagTx rt org flagKey >>= f) := by
  rw [readFlagTx, bind_assoc]
  refine guarded_locked rfl hheld fun ρ held' hsub => ?_
  cases ρ with
  | none => trivial
  | some row => exact hrest _ held' hsub

theorem guarded_insertFlag {name valueType : String} {description : Option String}
    {operation : String} {f : Unit → Transaction codec Answer}
    (hrest : ∀ held', held ⊆ held' → (Resource.flag org flagKey, Mode.exclusive) ∈ held' →
      Guarded describe rt held' (f ())) :
    Guarded describe rt held (query (.insertFlag org flagKey name description valueType) >>=
      fun ρ => orUnique describe .alreadyExists operation ρ >>= f) := by
  intro ρ
  cases ρ with
  | error e =>
    refine ⟨nofun, .inr (.inr (.inl ?_)), ?_⟩
    · cases e with
      | uniqueViolation => exact fails rfl (lax_domain (by decide) (by decide))
      | _ => exact fails rfl (lax_backend _)
    · cases e <;> trivial
  | ok =>
    exact ⟨List.forall_mem_singleton.mpr mem_taken, .inl covered_taken,
      hrest _ (List.subset_append_left ..) mem_taken⟩

end Flags

/-! ## Environments -/

section Environments

variable {org environmentKey : String}

theorem guarded_readEnvironmentTx {f : EnvironmentRecord → Transaction codec Answer}
    (hheld : (Resource.environment org environmentKey, Mode.exclusive) ∈ held)
    (hrest : ∀ record held', held ⊆ held' → Guarded describe rt held' (f record)) :
    Guarded describe rt held (readEnvironmentTx rt org environmentKey >>= f) := by
  rw [readEnvironmentTx, bind_assoc]
  refine guarded_locked rfl hheld fun ρ held' hsub => ?_
  cases ρ with
  | none => trivial
  | some row => exact hrest _ held' hsub

end Environments

/-! ## Operations -/

section Operations

variable {f : Response → Transaction codec Answer}

theorem guarded_createFlag {org flagKey name valueType : String} {description : Option String}
    (hrest : ∀ response held', held ⊆ held' → Guarded describe rt held' (f response)) :
    Guarded describe rt held
      (createFlag describe rt org flagKey name description valueType >>= f) := by
  simp only [createFlag, bind_assoc]
  refine guarded_insertFlag fun held₁ hsub₁ hflag => ?_
  exact guarded_readFlagTx hflag fun record held₂ hsub₂ =>
    hrest _ held₂ (List.Subset.trans hsub₁ hsub₂)

theorem guarded_updateFlag {org flagKey name : String} {expected : Int}
    {description : Option String}
    (hrest : ∀ response held', held ⊆ held' → Guarded describe rt held' (f response)) :
    Guarded describe rt held
      (updateFlag describe rt org flagKey expected name description >>= f) := by
  simp only [updateFlag, bind_assoc]
  refine guarded_lockFlag fun flag held₁ hsub₁ hflag => guarded_lift fun _ _ => ?_
  refine guarded_locked rfl hflag fun ρ held₂ hsub₂ => guarded_orDatabase fun _ => ?_
  exact guarded_readFlagTx (hsub₂ hflag) fun record held₃ hsub₃ =>
    hrest _ held₃ (List.Subset.trans hsub₁ (List.Subset.trans hsub₂ hsub₃))

theorem guarded_archiveFlag {org flagKey : String} {expected : Int}
    (hrest : ∀ response held', held ⊆ held' → Guarded describe rt held' (f response)) :
    Guarded describe rt held (archiveFlag describe rt org flagKey expected >>= f) := by
  simp only [archiveFlag, bind_assoc]
  refine guarded_lockFlag fun flag held₁ hsub₁ hflag => guarded_lift fun _ _ => ?_
  refine guarded_locked rfl hflag fun ρ held₂ hsub₂ => guarded_orDatabase fun _ => ?_
  exact guarded_readFlagTx (hsub₂ hflag) fun record held₃ hsub₃ =>
    hrest _ held₃ (List.Subset.trans hsub₁ (List.Subset.trans hsub₂ hsub₃))

theorem guarded_putEnvironment {org environmentKey name : String} {expected : Option Int}
    (hrest : ∀ response held', held ⊆ held' → Guarded describe rt held' (f response)) :
    Guarded describe rt held
      (putEnvironment describe rt org environmentKey name expected >>= f) := by
  have hread : ∀ held', held ⊆ held' →
      (Resource.environment org environmentKey, Mode.exclusive) ∈ held' →
      Guarded describe rt held' (readEnvironmentTx rt org environmentKey >>= fun record =>
        f (.environment record)) := by
    intro held₁ hsub₁ henv
    exact guarded_readEnvironmentTx henv fun record held₂ hsub₂ =>
      hrest _ held₂ (List.Subset.trans hsub₁ hsub₂)
  intro ρ
  cases ρ with
  | some revision =>
    refine ⟨fun _ hr => absurd hr List.not_mem_nil, .inl covered_taken, ?_⟩
    cases expected with
    | none => trivial
    | some expected =>
      change Guarded describe rt _ ((if revision ≠ expected then _ else _) >>= f)
      split
      · trivial
      · simp only [bind_assoc]
        refine guarded_locked rfl mem_taken fun ρ held₁ hsub₁ => guarded_orDatabase fun _ => ?_
        exact hread held₁ (List.Subset.trans (List.subset_append_left ..) hsub₁) (hsub₁ mem_taken)
  | none =>
    cases expected with
    | some expected =>
      exact ⟨fun _ hr => absurd hr List.not_mem_nil,
        .inr (.inr (.inl (fails rfl (lax_domain (by decide) (by decide))))), trivial⟩
    | none =>
      -- The missing row is read without a lock; the insert that follows fails if it is there by now.
      refine ⟨fun _ hr => absurd hr List.not_mem_nil,
        .inr (.inr (.inr ⟨List.cons_ne_nil _ _, rfl, fun _ _ _ => rfl,
        .insertEnvironment _ _ _, _, rfl, ?_⟩)), ?_⟩
      · intro ρ
        cases ρ with
        | error e =>
          left
          cases e with
          | uniqueViolation => exact fails rfl (lax_domain (by decide) (by decide))
          | _ => exact fails rfl (lax_backend _)
        | ok =>
          refine .inr ⟨@covered_taken codec describe rt [] _ _, fun d d' t hok => ?_⟩
          change (Statement.execute d' (.insertEnvironment _ _ _) t).1 = _ at hok
          simp only [Statement.execute] at hok
          split at hok
          · cases hok
          · next hnone =>
            change ((t.environment _ _).map _, _) = _
            rw [Option.not_isSome_iff_eq_none.mp hnone]
            rfl
      · intro ρ
        cases ρ with
        | error e =>
          refine ⟨fun _ hr => absurd hr List.not_mem_nil, .inr (.inr (.inl ?_)), ?_⟩
          · cases e with
            | uniqueViolation => exact fails rfl (lax_domain (by decide) (by decide))
            | _ => exact fails rfl (lax_backend _)
          · cases e <;> trivial
        | ok =>
          refine ⟨List.forall_mem_singleton.mpr mem_taken, .inl covered_taken, ?_⟩
          change Guarded describe rt _ ((readEnvironmentTx rt org environmentKey >>= fun record =>
            pure (Response.environment record)) >>= f)
          rw [bind_assoc]
          exact hread _ (List.Subset.trans (List.subset_append_left ..)
            (List.subset_append_left ..)) mem_taken

theorem guarded_publishRuleset {command : Command} {org flagKey environmentKey : String}
    {expectedFlag expectedEnvironment : Int} {definition : RulesetDefinition}
    (hrest : ∀ response held', held ⊆ held' → Guarded describe rt held' (f response)) :
    Guarded describe rt held (publishRuleset describe rt command org flagKey environmentKey
      expectedFlag expectedEnvironment definition >>= f) := by
  simp only [publishRuleset, bind_assoc]
  refine guarded_lockFlag fun flag held₁ hsub₁ hflag => guarded_lift fun _ _ =>
    guarded_lift fun _ _ => ?_
  intro ρ
  cases ρ with
  | none =>
    exact ⟨nofun, .inr (.inr (.inl (fails rfl (lax_domain (by decide) (by decide))))), trivial⟩
  | some revision =>
    refine ⟨nofun, .inl covered_taken, ?_⟩
    have hsub₂ : held₁ ⊆ held₁ ++ [(Resource.environment org environmentKey, Mode.exclusive)] :=
      List.subset_append_left ..
    have henv : (Resource.environment org environmentKey, Mode.exclusive) ∈
        held₁ ++ [(Resource.environment org environmentKey, Mode.exclusive)] := mem_taken
    change Guarded describe rt (held₁ ++ [_])
      ((if revision ≠ expectedEnvironment then _ else _) >>= f)
    split
    · trivial
    · simp only [bind_assoc]
      refine guarded_locked rfl (hsub₂ hflag) fun ρ held₃ hsub₃ =>
        guarded_orDatabase fun next => ?_
      refine guarded_owned (fun r hr => ?_) fun ρ held₄ hsub₄ => guarded_orDatabase fun at_ => ?_
      · rcases List.mem_cons.mp hr with rfl | hr
        · exact hsub₃ (hsub₂ hflag)
        · rw [List.mem_singleton.mp hr]
          exact hsub₃ henv
      rw [bumpFlag, bind_assoc]
      refine guarded_locked rfl (hsub₄ (hsub₃ (hsub₂ hflag))) fun ρ held₅ hsub₅ =>
        guarded_orDatabase fun _ => ?_
      rw [bumpEnvironment, bind_assoc]
      refine guarded_locked rfl (hsub₅ (hsub₄ (hsub₃ henv))) fun ρ held₆ hsub₆ =>
        guarded_orDatabase fun _ => ?_
      exact hrest _ held₆ fun l hl => hsub₆ (hsub₅ (hsub₄ (hsub₃ (hsub₂ (hsub₁ hl)))))

end Operations

/-! ## Evaluations -/

theorem guarded_evaluateOne {command : Command} {operation org environmentKey flagKey evaluationId
    targetingKey contextHash : String} {attributes : List (String × Json)}
    {f : EvaluationRecord → Transaction codec Answer}
    (hrest : ∀ record held', held ⊆ held' → Guarded describe rt held' (f record)) :
    Guarded describe rt held (evaluateOne describe rt command operation org environmentKey flagKey
      evaluationId targetingKey attributes contextHash >>= f) := by
  simp only [evaluateOne, bind_assoc]
  intro ρ
  cases ρ with
  | none =>
    exact ⟨nofun, .inr (.inr (.inl (fails rfl (lax_domain (by decide) (by decide))))), trivial⟩
  | some flag =>
    obtain ⟨valueType, archived⟩ := flag
    refine ⟨nofun, .inl covered_taken, ?_⟩
    have hsub₁ : held ⊆ held ++ [(Resource.flag org flagKey, Mode.shared)] :=
      List.subset_append_left ..
    have hflag : (Resource.flag org flagKey, Mode.shared) ∈
        held ++ [(Resource.flag org flagKey, Mode.shared)] := mem_taken
    change Guarded describe rt (held ++ [_]) ((if archived = true then _ else _) >>= f)
    split
    · trivial
    · -- The environment is read without a lock: once there, it stays.
      intro found
      cases found with
      | false =>
        exact ⟨nofun, .inr (.inr (.inl (fails rfl (lax_domain (by decide) (by decide))))), trivial⟩
      | true =>
        refine ⟨nofun, .inr (.inl rfl), ?_⟩
        change Guarded describe rt _
          ((query (.latestRuleset org flagKey environmentKey) >>= fun row => _) >>= f)
        simp only [bind_assoc]
        refine guarded_read (m := .shared) (fun r hr => ?_) (fun _ => rfl) fun ρ held₂ hsub₂ =>
          guarded_lift fun row _ => guarded_lift fun definition _ => guarded_lift fun _ _ =>
          guarded_lift fun choice _ => ?_
        · rw [List.mem_singleton.mp hr]
          exact List.mem_append_left _ hflag
        refine guarded_owned nofun fun generated held₃ hsub₃ => ?_
        obtain ⟨receiptId, evaluatedAt⟩ := generated
        intro ρ
        cases ρ with
        | error e => exact ⟨nofun, .inr (.inr (.inl (fails rfl (lax_backend _)))), trivial⟩
        | ok =>
          refine ⟨fun r hr => List.mem_append_right _ ?_,
            .inl (covered_of_mem (m := .exclusive) fun r hr => List.mem_append_right _ ?_), ?_⟩
          · rcases List.mem_cons.mp hr with rfl | hr
            · exact List.mem_cons_self
            · rw [List.mem_singleton.mp hr]
              exact List.mem_cons_of_mem _ List.mem_cons_self
          · rcases List.mem_cons.mp hr with rfl | hr
            · exact List.mem_cons_self
            · rw [List.mem_singleton.mp hr]
              exact List.mem_cons_of_mem _ List.mem_cons_self
          · exact hrest _ _ fun l hl =>
              List.mem_append_left _ (hsub₃ (hsub₂ (List.mem_append_left _ (hsub₁ hl))))

theorem guarded_evaluateFrom {command : Command} {org environmentKey targetingKey contextHash : String}
    {attributes : List (String × Json)} {flagKeys : List String} {index : ℕ}
    {f : List EvaluationRecord → Transaction codec Answer}
    (hrest : ∀ records held', held ⊆ held' → Guarded describe rt held' (f records)) :
    Guarded describe rt held (evaluateFrom describe rt command org environmentKey targetingKey
      attributes contextHash index flagKeys >>= f) := by
  induction flagKeys generalizing held index f with
  | nil => exact hrest [] held (List.Subset.refl held)
  | cons flagKey flagKeys ih =>
    simp only [evaluateFrom, bind_assoc]
    refine guarded_evaluateOne fun record held₁ hsub₁ => ?_
    exact ih fun records held₂ hsub₂ => hrest _ held₂ (List.Subset.trans hsub₁ hsub₂)

/-! ## Transactions -/

theorem guarded_fresh (call : Call) {f : Response → Transaction codec Answer}
    (hrest : ∀ response held', held ⊆ held' → Guarded describe rt held' (f response)) :
    Guarded describe rt held (fresh describe rt call >>= f) := by
  unfold fresh
  split
  · exact guarded_createFlag hrest
  · exact guarded_updateFlag hrest
  · exact guarded_archiveFlag hrest
  · exact guarded_putEnvironment hrest
  · exact guarded_publishRuleset hrest
  · rw [bind_assoc]
    exact guarded_evaluateOne fun record held' hsub => hrest _ held' hsub
  · rw [bind_assoc]
    exact guarded_evaluateFrom fun records held' hsub => hrest _ held' hsub

theorem transaction_guarded (call : Call) :
    (footprint codec describe rt).Guarded []
      ((store codec describe rt).body call) := by
  refine guarded_admitCommand (fun _ _ => trivial) fun held hcommand => ?_
  refine guarded_fresh call fun response held' hsub => ?_
  exact guarded_finishCommand (hsub hcommand) fun _ => trivial

end LensoFlags.Postgres
