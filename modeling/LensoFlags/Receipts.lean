import LensoFlags.Abstract.Receipts
import LensoFlags.D1.Delivery
import LensoFlags.Postgres.Constraint
import LensoFlags.Postgres.Serializable

/-!
# Receipts, in both backends

Result: `receipts_paired`: the stored receipts and the evaluation records in the stored responses
correspond one to one, and no unique constraint stands in the way of a new command.
-/

namespace LensoFlags

variable {codec : Codec} {describe : Postgres.DbError → String} {rt : Runtime}

/-- The step is not the commit of a call's own effect. -/
def NoEffect (log log' : List (Serial.Entry Call Draws Answer)) : Prop :=
  ∀ e response, log' = e :: log → e.value ≠ .fresh response

theorem Abstract.Took.noEffect {c c' : Abstract.Store codec}
    {e : Serial.Entry Call Draws Answer} {log : List (Serial.Entry Call Draws Answer)}
    (h : Abstract.Took rt e.call e.value c c') (hno : NoEffect log (e :: log)) : c' = c := by
  rcases h.cases with ⟨_, -, hsame⟩ | ⟨response, _, _, _, hfresh, -⟩
  · exact hsame
  · exact absurd hfresh (hno e response rfl)

theorem D1.Step.receipts_eq {s s' : D1.State codec} (hi : D1.Inv rt s) (h : D1.Step rt s s')
    (hno : NoEffect s.log s'.log) : s'.tables.receipts = s.tables.receipts := by
  rcases h.took hi with ⟨htables, -⟩ | ⟨e, c, c', hlog, hr, -, hr', htook⟩
  · rw [htables]
  · rw [hlog] at hno
    rw [hr'.receipts, hr.receipts, htook.noEffect hno]

theorem Postgres.Step.receipts_eq {s s' : Postgres.State codec describe rt} (hi : Postgres.Inv s)
    (h : Postgres.Step s s') (hno : NoEffect s.log s'.log) :
    s'.store.receipts.map (Postgres.ReceiptRow.receipt rt) =
      s.store.receipts.map (Postgres.ReceiptRow.receipt rt) := by
  rcases h.took hi with ⟨hstore, -⟩ | ⟨e, c, c', hlog, hr, -, hr', htook⟩
  · rw [hstore]
  · rw [hlog] at hno
    rw [hr'.rows.receipts, hr.rows.receipts, htook.noEffect hno]

/-- In every reachable state of either backend the receipts and the evaluation records in the stored
responses correspond one to one, and a step that is not the commit of a new command, a replay for
one, adds no receipt. The constraints of the receipts reject no new command: a D1 commit batch passes
when its guard does, and no `INSERT` of an evaluation meets a receipt with its id or its identifier. -/
theorem receipts_paired :
    (∀ s : D1.State codec, D1.Reachable rt s →
      (∃ c, D1.Represents s.tables c ∧ Abstract.Paired c) ∧
      (∀ s', D1.Step rt s s' → NoEffect s.log s'.log → s'.tables.receipts = s.tables.receipts) ∧
      ∀ i a b, s.attempts i = some a → a.submitted = some b → b.fate = .inFlight →
        b.since = s.log.length → (D1.batch s.tables b.statements).isSome) ∧
    (∀ s : Postgres.State codec describe rt, Postgres.Reachable s →
      (∃ c, Postgres.Represents rt s.store c ∧ Abstract.Paired c) ∧
      (∀ s', Postgres.Step s s' → NoEffect s.log s'.log →
        s'.store.receipts.map (Postgres.ReceiptRow.receipt rt) =
          s.store.receipts.map (Postgres.ReceiptRow.receipt rt)) ∧
      ∀ i t subject flagKeys statement k, s.sessions i = some t → t.outcome = none →
        Abstract.evaluates t.call.operation = some (subject, flagKeys) →
        t.rest = .step statement k → ¬statement.Rejected (t.next s.store statement).1) := by
  refine ⟨fun s h => ?_, fun s h => ?_⟩
  · have hi := D1.Inv.reachable h
    obtain ⟨c, hr, hlogged⟩ := hi.represented
    exact ⟨⟨c, hr, hlogged.run.paired⟩, fun s' hstep hno => hstep.receipts_eq hi hno,
      fun i a b ha hb hfate hsince => (hi.guard ha hb hfate).mpr hsince⟩
  · have hi := Postgres.Inv.reachable h
    obtain ⟨c, hc⟩ := hi.content
    exact ⟨⟨c, hc.represents, hc.logged.run.paired⟩, fun s' hstep hno => hstep.receipts_eq hi hno,
      fun i t subject flagKeys statement k ht hout heval hrest =>
        hi.unrejected ht hout heval hrest⟩

/-- One evaluation in each backend. -/
theorem receipts_paired_evaluated :
    (∃ s : D1.State Codec.verbatim, D1.Reachable (.atEpoch []) s ∧
      s.tables.receipts.length = 1 ∧ ∃ c, D1.Represents s.tables c ∧ Abstract.Paired c) ∧
    ∃ s : Postgres.State Codec.verbatim (fun _ => "") (.atEpoch []), Postgres.Reachable s ∧
      s.store.receipts.length = 1 ∧
      ∃ c, Postgres.Represents (.atEpoch []) s.store c ∧ Abstract.Paired c := by
  obtain ⟨s, hs, htables, -⟩ := @D1.exists_calls Codec.verbatim (.atEpoch []) firstCalls (by decide)
  obtain ⟨t, ht, hstore, -⟩ :=
    @Postgres.exists_calls Codec.verbatim (fun _ => "") (.atEpoch []) firstCalls
  obtain ⟨hd1, hpostgres⟩ := @receipts_paired Codec.verbatim (fun _ => "") (.atEpoch [])
  exact ⟨⟨s, hs, by rw [htables]; decide, (hd1 s hs).1⟩,
    t, ht, by rw [hstore]; decide, (hpostgres t ht).1⟩

end LensoFlags
