import LensoFlags.Postgres.Sessions

/-!
# The unique constraints of the receipts

No receipt of an evaluation meets one with its id or its identifier, whatever other transactions do:
the identifier of an evaluation carries the key of its command, and the command is new.

Result: `Inv.unrejected`.
-/

namespace LensoFlags.Postgres

open Abstract (Sound)

variable {codec : Codec} {describe : DbError → String} {rt : Runtime} {δ : Draws} {n : ℕ}
  {call : Call} {t : Tables codec} {c : Abstract.Store codec}

/-- A unique constraint of the receipts rejects the statement. -/
def Statement.Rejected : (s : Statement codec) → s.Reply → Prop
  | .insertReceipt .., reply => reply = .error .uniqueViolation
  | _, _ => False

/-- The statement is not about receipts. -/
def Statement.Plain (s : Statement codec) : Prop := ∀ ρ, ¬s.Rejected ρ

variable (describe rt) in
/-- No statement of the program, run alone from its statement `n` on, is rejected. -/
abbrev Accepted (δ : Draws) (n : ℕ) (p : Transaction codec Answer) (t : Tables codec) : Prop :=
  (footprint codec describe rt).Always (fun draw s t => ¬s.Rejected (s.execute draw t).1) δ n p t

/-- The program does not begin with a receipt. -/
def Leads (p : Transaction codec Answer) : Prop := ∀ s k, p = .step s k → s.Plain

/-! ## Programs -/

theorem leads_fail {α : Type} (e : StorageError) (f : α → Transaction codec Answer) :
    Leads (Locking.Program.fail e >>= f) := by
  intro s k h
  cases h

theorem leads_query {α : Type} {s : Statement codec} {k : s.Reply → Transaction codec α}
    {f : α → Transaction codec Answer} (h : s.Plain) : Leads ((query s >>= k) >>= f) := by
  intro s' k' heq
  cases heq
  exact h

theorem leads_lift {α : Type} {x : Except StorageError α} {f : α → Transaction codec Answer}
    (h : ∀ a, Leads (f a)) : Leads (lift x >>= f) := by
  cases x with
  | ok a => exact h a
  | error e => exact leads_fail _ _

theorem accepted_lift {α : Type} {x : Except StorageError α} {f : α → Transaction codec Answer}
    (h : ∀ a, x = .ok a → Accepted describe rt δ n (f a) t) :
    Accepted describe rt δ n (lift x >>= f) t := by
  cases x with
  | ok a => exact h a rfl
  | error e => trivial

/-- A statement with its reply and its writes, before one that is not about receipts. -/
theorem accepted_step {s : Statement codec} {k : s.Reply → Transaction codec Answer} {ρ : s.Reply}
    {ws : List (Write codec)} (hexecute : s.execute (δ n) t = (ρ, ws)) (hρ : ¬s.Rejected ρ)
    (hk : ∀ ρ, Leads (k ρ))
    (hnext : Accepted describe rt δ (n + 1) (k ρ) (ws.foldl (fun t w => w.apply t) t)) :
    Accepted describe rt δ n (query s >>= k) t := by
  refine ⟨?_, fun ρ s' k' _ hstep _ _ => hk ρ s' k' hstep _, ?_⟩
  · change ¬s.Rejected (s.execute (δ n) t).1
    rwa [hexecute]
  · change Accepted describe rt δ (n + 1) (k (s.execute (δ n) t).1)
      ((s.execute (δ n) t).2.foldl (fun t w => w.apply t) t)
    rwa [hexecute]

theorem accepted_query {s : Statement codec} {k : s.Reply → Transaction codec Answer}
    (hs : s.Plain) (hk : ∀ ρ, Leads (k ρ))
    (hnext : Accepted describe rt δ (n + 1) (k (s.execute (δ n) t).1)
      ((s.execute (δ n) t).2.foldl (fun t w => w.apply t) t)) :
    Accepted describe rt δ n (query s >>= k) t :=
  accepted_step rfl (hs _) hk hnext

/-! ## Evaluations -/

section Evaluations

variable {command : Command} {operation org environmentKey flagKey targetingKey contextHash : String}
  {attributes : List (String × Json)} {σ : Abstract.Stamp} {i : ℕ}

/-- One evaluation of a transaction, at a vacant position. -/
theorem accepted_evaluateOne {f : EvaluationRecord → Transaction codec Answer}
    (h : Rows rt t c) (hn : Abstract.Numbered c.rulesets)
    (hvacant : Vacant σ c command operation i)
    (hσ : σ.evaluation i = ⟨(δ (n + 3)).uuid, rt.formatTimestamp (δ (n + 3)).now,
      rt.formatTimestamp (micros (δ (n + 3)).now), (δ (n + 4)).receiptSeq⟩)
    (hleads : ∀ record, Leads (f record))
    (hf : ∀ record variant reason revision row,
      (Abstract.evaluation (σ.evaluation i) command operation
        (Abstract.evaluationId operation command.key i)
        ⟨org, environmentKey, targetingKey, attributes, contextHash⟩ flagKey variant reason
        revision).2 = ReceiptRow.receipt rt row →
      Accepted describe rt δ (n + 5) (f record) { t with receipts := row :: t.receipts }) :
    Accepted describe rt δ n (evaluateOne describe rt command operation org environmentKey flagKey
      (Abstract.evaluationId operation command.key i) targetingKey attributes contextHash >>= f)
      t := by
  unfold evaluateOne
  rw [bind_assoc]
  refine accepted_query (fun _ => id) (fun flag => ?_) ?_
  · rw [bind_assoc]
    refine leads_lift fun flag => ?_
    change Leads ((if flag.2 = true then _ else _) >>= f)
    split
    · exact leads_fail _ _
    · exact leads_query fun _ => id
  rw [bind_assoc]
  refine accepted_lift fun flag _ => ?_
  change Accepted describe rt δ (n + 1) ((if flag.2 = true then _ else _) >>= f) t
  split
  · trivial
  change Accepted describe rt δ (n + 1)
    ((query (.existsEnvironment org environmentKey) >>= fun found => _) >>= f) t
  rw [bind_assoc]
  refine accepted_query (fun _ => id) (fun (found : Bool) => ?_) ?_
  · split
    · exact leads_fail _ _
    · exact leads_query fun _ => id
  change Accepted describe rt δ (n + 2)
    ((if (t.environment org environmentKey).isSome = false then _ else _) >>= f) t
  split
  · trivial
  simp only [bind_assoc]
  refine accepted_query (fun _ => id) (fun row => ?_) ?_
  · refine leads_lift fun row => leads_lift fun definition => leads_lift fun _ =>
      leads_lift fun choice => ?_
    exact leads_query (k := pure) fun _ => id
  rw [Statement.execute, h.newestRuleset hn]
  cases hruleset : (t.rulesetsOf org flagKey environmentKey).head? with
  | none => trivial
  | some ruleset =>
    have hpos : 0 < ruleset.rulesetRevision := by
      have hmem : ruleset.of ∈ c.rulesetsOf org flagKey environmentKey := by
        rw [h.rulesetsOf]
        exact List.mem_map_of_mem (List.mem_of_head? hruleset)
      exact (hn.revision_le hmem).1
    change Accepted describe rt δ (n + 3)
      (lift (orJson (codec.decodeDefinition ruleset.ruleset)) >>= fun definition => _) t
    refine accepted_lift fun definition _ => accepted_lift fun _ _ =>
      accepted_lift fun choice hchoose => ?_
    -- The receipt follows the draw of its id, which reads nothing.
    refine ⟨id, fun ρ s' k' hrev => absurd rfl hrev.1, ?_⟩
    refine accepted_step (hvacant.execute_insertReceipt h (by rw [hσ]) hpos
      (chooseVariant_reason hchoose)) ?_ (fun ρ => ?_) (hf _ choice.1 choice.2
        ruleset.rulesetRevision _ ?_)
    · intro h
      cases h
    · cases ρ with
      | error e => exact leads_fail _ _
      | ok => exact hleads _
    · rw [hσ]
      rfl

theorem leads_evaluateFrom {flagKeys : List String}
    {f : List EvaluationRecord → Transaction codec Answer}
    (hleads : ∀ records, Leads (f records)) :
    Leads (evaluateFrom describe rt command org environmentKey targetingKey attributes contextHash i
      flagKeys >>= f) := by
  cases flagKeys with
  | nil => exact hleads []
  | cons flagKey flagKeys =>
    rw [evaluateFrom, bind_assoc, evaluateOne]
    exact leads_query fun _ => id

/-- The evaluations of a batch from position `i` on. -/
theorem accepted_evaluateFrom {flagKeys : List String}
    {f : List EvaluationRecord → Transaction codec Answer}
    (h : Rows rt t c) (hn : Abstract.Numbered c.rulesets)
    (hvacant : Vacant σ c command "evaluate_batch" i)
    (hdistinct : ∀ i j, (σ.evaluation i).receiptId = (σ.evaluation j).receiptId → i = j)
    (hσ : ∀ j, σ.evaluation j = ⟨(δ (5 * j + 5)).uuid, rt.formatTimestamp (δ (5 * j + 5)).now,
      rt.formatTimestamp (micros (δ (5 * j + 5)).now), (δ (5 * j + 6)).receiptSeq⟩)
    (hleads : ∀ records, Leads (f records))
    (hf : ∀ records m t, Accepted describe rt δ m (f records) t) :
    Accepted describe rt δ (5 * i + 2) (evaluateFrom describe rt command org environmentKey
      targetingKey attributes contextHash i flagKeys >>= f) t := by
  induction flagKeys generalizing t c i f with
  | nil => exact hf [] _ t
  | cons flagKey flagKeys ih =>
    simp only [evaluateFrom, bind_assoc]
    refine accepted_evaluateOne h hn hvacant (hσ i) (fun record => ?_)
      fun record variant reason revision row hrow => ?_
    · exact leads_evaluateFrom fun records => hleads _
    · have h' := h.addReceipt row
      rw [← hrow] at h'
      exact ih h' hn (hvacant.next hdistinct (by decide)) (fun records => hleads _)
        fun records => hf _

end Evaluations

/-! ## Transactions -/

theorem leads_finish (response : Response) :
    Leads (finish describe call response : Transaction codec Answer) :=
  leads_query fun _ => id

theorem accepted_finish (response : Response) (n : ℕ) (t : Tables codec) :
    Accepted describe rt δ n (finish describe call response) t := by
  unfold finish finishCommand
  rw [bind_assoc]
  refine accepted_query (fun _ => id) (fun (ρ : Except DbError Unit) s k h => ?_) ?_
  · cases ρ <;> cases h
  generalize (Statement.execute (δ n) (.updateCommand _ _) t).1 = ρ
  cases ρ with
  | ok => trivial
  | error e => trivial

/-- The operation of an evaluation. -/
theorem accepted_fresh {subject : Abstract.Subject} {flagKeys : List String}
    (heval : Abstract.evaluates call.operation = some (subject, flagKeys)) (h : Rows rt t c)
    (hs : Sound rt c) (hσ : (stamp rt δ call.operation).Fresh c)
    (hnew : c.command call.commandKey = none) :
    Leads (fresh describe rt call >>= finish describe call : Transaction codec Answer) ∧
      Accepted describe rt δ 2 (fresh describe rt call >>= finish describe call) t := by
  have hvacant := Vacant.initial call hs hσ hnew
  obtain ⟨command, operation⟩ := call
  cases operation with
  | evaluate org environmentKey flagKey targetingKey attributes contextHash =>
    simp only [fresh, bind_assoc]
    refine ⟨?_, accepted_evaluateOne (i := 0) h hs.numbered hvacant rfl
      (fun record => leads_finish _) fun record _ _ _ row _ => accepted_finish _ _ _⟩
    rw [evaluateOne]
    exact leads_query fun _ => id
  | evaluateBatch org environmentKey flagKeys targetingKey attributes contextHash =>
    simp only [fresh, bind_assoc]
    exact ⟨leads_evaluateFrom fun records => leads_finish _,
      accepted_evaluateFrom (i := 0) h hs.numbered hvacant hσ.distinct (fun _ => rfl)
        (fun records => leads_finish _) fun records => accepted_finish _⟩
  | _ => cases heval

/-- A stored command ends the transaction. -/
theorem replay_ends {kind : Kind} {command : Command} {hash : List UInt8}
    {response : Option (Stored codec)} {f : Option Response → Transaction codec Answer}
    (hf : ∀ replay, ∃ answer, f (some replay) = .ret answer) {s : Statement codec}
    {k : s.Reply → Transaction codec Answer} :
    ((if hash ≠ command.hash then .fail (.domain .idempotencyConflict)
      else
        match response with
        | none => .fail (.domain .operationInProgress)
        | some response => do
            let replay ← lift (orJson (decodeResponse codec kind response))
            return some replay) >>= f) ≠ .step s k := by
  intro h
  split at h
  · cases h
  · cases response with
    | none => cases h
    | some response =>
      change ((lift (orJson (decodeResponse codec kind response)) >>= fun replay =>
        pure (some replay)) >>= f) = _ at h
      cases hdecode : decodeResponse codec kind response with
      | none =>
        rw [hdecode] at h
        cases h
      | some replay =>
        obtain ⟨answer, hanswer⟩ := hf replay
        rw [hdecode] at h
        change f (some replay) = _ at h
        rw [hanswer] at h
        cases h

theorem accepted_transaction {subject : Abstract.Subject} {flagKeys : List String}
    (heval : Abstract.evaluates call.operation = some (subject, flagKeys)) (hr : Represents rt t c)
    (hs : Sound rt c) (hσ : (stamp rt δ call.operation).Fresh c) :
    Accepted describe rt δ 0 (transaction describe call (fresh describe rt call)) t := by
  unfold transaction admitCommand
  simp only [bind_assoc]
  refine accepted_step (execute_selectCommand hr _ _) id (fun row => ?_) ?_
  · cases row with
    | some row => exact fun s k h => absurd h (replay_ends fun replay => ⟨.replayed replay, rfl⟩)
    | none => exact leads_query fun _ => id
  cases hc : c.command (call.command.rowKey call.operation.name) with
  | some row =>
    change Accepted describe rt δ 1 ((if row.requestHash ≠ call.command.hash then _ else _) >>= _) t
    generalize hp : ((if row.requestHash ≠ call.command.hash then _ else _) >>= _ :
      Transaction codec Answer) = p
    cases p with
    | ret => trivial
    | fail => trivial
    | step s k =>
      exact absurd hp (@replay_ends codec call.operation.kind call.command row.requestHash
        (some row.response) _ (fun replay => ⟨.replayed replay, rfl⟩) s k)
  | none =>
    obtain ⟨hleads, haccepted⟩ :=
      @accepted_fresh codec describe rt δ call _ c subject flagKeys heval (hr.admitted hc).rows hs hσ hc
    change Accepted describe rt δ 1 ((query (.insertCommand (call.command.rowKey call.operation.name)
      call.command.hash) >>= fun ρ => _) >>= _) t
    rw [bind_assoc]
    refine accepted_step (execute_insertCommand hr _ hc _) id (fun (ρ : Except DbError Unit) => ?_)
      haccepted
    cases ρ with
    | ok => exact hleads
    | error e => cases e <;> exact leads_fail _ _

/-! ## Sessions -/

/-- Whatever other transactions do, the next statement of an evaluation is not rejected. -/
theorem Inv.unrejected {s : State codec describe rt} (hi : Inv s) {i : ℕ}
    {t : (store codec describe rt).Session} (ht : s.sessions i = some t) (hout : t.outcome = none)
    {subject : Abstract.Subject} {flagKeys : List String}
    (heval : Abstract.evaluates t.call.operation = some (subject, flagKeys))
    {st : Statement codec} {k : st.Reply → Transaction codec Answer} (hrest : t.rest = .step st k) :
    ¬st.Rejected (t.next s.store st).1 := by
  obtain ⟨c, hc⟩ := hi.content
  refine (hi.locking.sound i t ht hout).always hrest
    (accepted_transaction heval hc.represents hc.sound ?_)
  refine hc.fresh (hi.unrepeated i t ht) (fun e he => ?_) _
  obtain ⟨u, hu, -, hdraws, hcommitted⟩ := hi.locking.logged e he
  rw [← hdraws]
  refine hi.unshared i e.session t u (fun heq => ?_) ht hu
  rw [← heq, ht] at hu
  cases hu
  rw [hout] at hcommitted
  cases hcommitted

end LensoFlags.Postgres
