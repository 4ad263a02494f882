import LensoFlags.Abstract.Alike
import LensoFlags.Abstract.Evaluation

/-!
# Failures in the domain

Over a faithful codec, and while every revision has a next one, the abstract store fails in the
domain only.
-/

namespace LensoFlags

/-- The computation fails in the domain only. -/
def InDomain {α : Type} (x : Except StorageError α) : Prop :=
  ∀ e, x = .error e → e.isDomain = true

section InDomain

variable {α β : Type}

theorem InDomain.ok (a : α) : InDomain (.ok a) := fun _ h => by cases h

theorem InDomain.domain (failure : DomainFailure) :
    InDomain (.error (.domain failure) : Except StorageError α) := by
  intro e h
  cases h
  rfl

theorem InDomain.bind {x : Except StorageError α} {f : α → Except StorageError β}
    (h : InDomain x) (hf : ∀ a, x = .ok a → InDomain (f a)) : InDomain (x >>= f) := by
  cases x with
  | error e =>
    intro e' he
    cases he
    exact h e rfl
  | ok a => exact hf a rfl

theorem InDomain.okOr (failure : DomainFailure) (o : Option α) : InDomain (okOr failure o) := by
  cases o with
  | none => exact .domain failure
  | some a => exact .ok a

theorem InDomain.orJson {o : Option α} (h : ∃ a, o = some a) : InDomain (orJson o) := by
  obtain ⟨a, rfl⟩ := h
  exact .ok a

end InDomain

namespace Abstract

variable {codec : Codec} {rt : Runtime} {σ : Stamp} {c : Store codec} {call : Call}

/-- Every revision has a next one. -/
structure Room (c : Store codec) : Prop where
  flags : ∀ flag ∈ c.flags, flag.revision < Decimal.i64Max
  environments : ∀ environment ∈ c.environments, environment.revision < Decimal.i64Max
  rulesets : ∀ ruleset ∈ c.rulesets, ruleset.revision < Decimal.i64Max

theorem requireRevision_inDomain (flag : Flag) (expected : Int) :
    InDomain (requireRevision flag expected) := by
  unfold requireRevision
  split
  · exact .domain .archived
  · split
    · exact .domain .revisionConflict
    · exact .ok ()

theorem requireRoom_inDomain {revision : Int} (h : revision < Decimal.i64Max) :
    InDomain (requireRoom revision) := by
  unfold requireRoom
  rw [if_pos (by omega)]
  exact .ok ()

theorem Room.published (h : Room c) (org flagKey environmentKey : String) :
    c.published org flagKey environmentKey < Decimal.i64Max := by
  unfold Store.published
  cases hlatest : c.latest org flagKey environmentKey with
  | none =>
    show (0 : Int) < Decimal.i64Max
    decide
  | some ruleset => exact h.rulesets ruleset (mem_rulesetsOf (latest_mem hlatest)).1

theorem Faithful.evaluable (h : Faithful codec rt) : codec.Evaluable rt :=
  ⟨fun hvalid hencode => ⟨_, h.exact.definitions hvalid hencode⟩,
    fun _ _ _ _ _ _ _ => h.total.evaluation _⟩

/-- The stored responses can be read back. -/
def Replayable (c : Store codec) : Prop :=
  ∀ row ∈ c.commands, ∃ operation, row.key.operation = Operation.name operation ∧
    (decodeResponse codec operation.kind row.response).isSome

theorem Store.Alike.replayable {codec' : Codec} {c' : Store codec'} {ρ : Renaming}
    (h : c.Alike ρ c') : Replayable c := by
  intro row hrow
  obtain ⟨row', -, hrows⟩ := Table.exists_of_mem_right h.commands.flip hrow
  obtain ⟨operation, response, _, hname, hkind, -, -, -, hdecode, -⟩ := hrows.response
  rw [hkind] at hdecode
  exact ⟨operation, hname, Option.isSome_iff_exists.mpr ⟨response, hdecode⟩⟩

theorem replay_inDomain (h : Replayable c) : InDomain (replay c call) := by
  unfold replay
  split
  · exact .ok none
  · next row hrow =>
    split
    · exact .domain .idempotencyConflict
    · obtain ⟨operation, hname, hdecodes⟩ := h row (Table.mem_of_lookup hrow)
      obtain ⟨response, hdecode⟩ := Option.isSome_iff_exists.mp hdecodes
      have hkinds : call.operation.kind = operation.kind := by
        have hkey : row.key = call.commandKey := Table.key_of_lookup hrow
        rw [hkey] at hname
        exact Operation.kind_eq_of_name hname
      rw [hkinds, hdecode]
      exact .ok _

section Calls

variable (hcodec : Faithful codec rt) (hs : Sound rt c) (hroom : Room c)

include hcodec hs

theorem choose_inDomain (subject : Subject) (flagKey : String) :
    InDomain (choose rt c subject flagKey) := by
  rcases choose_cases hs hcodec.evaluable subject flagKey with
    ⟨variant, reason, revision, hchoose, -⟩ | ⟨failure, hfailure⟩
  · rw [hchoose]
    exact .ok _
  · rw [hfailure]
    exact .domain failure

theorem evaluateFrom_inDomain {command : Command} {operation : String} {subject : Subject}
    {flagKeys : List String} {index : ℕ} :
    InDomain (evaluateFrom rt σ c command operation subject index flagKeys) := by
  induction flagKeys generalizing index with
  | nil => exact .ok []
  | cons flagKey flagKeys ih =>
    unfold evaluateFrom evaluateOne
    refine .bind (.bind (choose_inDomain hcodec hs subject flagKey) ?_) fun _ _ => ?_
    · rintro ⟨variant, reason, revision⟩ _
      exact .ok _
    · exact ih.bind fun _ _ => .ok _

include hroom

theorem perform_inDomain : InDomain (perform rt σ c call) := by
  unfold perform
  split
  · unfold createFlag
    split
    · exact .domain .alreadyExists
    · exact .ok _
  · unfold updateFlag
    refine (InDomain.okOr _ _).bind fun flag hflag => ?_
    refine (requireRevision_inDomain _ _).bind fun _ _ => ?_
    have hmem := Table.mem_of_lookup (okOr_eq_ok.mp hflag)
    exact (requireRoom_inDomain (hroom.flags flag hmem)).bind fun _ _ => .ok _
  · unfold archiveFlag
    refine (InDomain.okOr _ _).bind fun flag hflag => ?_
    refine (requireRevision_inDomain _ _).bind fun _ _ => ?_
    have hmem := Table.mem_of_lookup (okOr_eq_ok.mp hflag)
    exact (requireRoom_inDomain (hroom.flags flag hmem)).bind fun _ _ => .ok _
  · unfold putEnvironment
    split
    · exact .ok _
    · next environment expected henvironment _ =>
      have hmem := Table.mem_of_lookup henvironment
      split
      · exact .domain .revisionConflict
      · exact (requireRoom_inDomain (hroom.environments environment hmem)).bind fun _ _ => .ok _
    · exact .domain .alreadyExists
    · exact .domain .notFound
  · next definition _ =>
    unfold publishRuleset
    refine (InDomain.okOr _ _).bind fun flag hflag => ?_
    refine (requireRevision_inDomain _ _).bind fun _ _ => ?_
    refine .bind (fun e he => validateRuleset_isDomain he) fun _ _ => ?_
    refine (InDomain.okOr _ _).bind fun environment henvironment => ?_
    have hflagmem := Table.mem_of_lookup (okOr_eq_ok.mp hflag)
    have hmem := Table.mem_of_lookup (okOr_eq_ok.mp henvironment)
    split
    · exact .domain .revisionConflict
    -- Three revisions are raised, each with room left.
    · refine (requireRoom_inDomain (hroom.flags flag hflagmem)).bind fun _ _ => ?_
      refine (requireRoom_inDomain (hroom.environments environment hmem)).bind fun _ _ => ?_
      refine (requireRoom_inDomain (hroom.published _ _ _)).bind fun _ _ => ?_
      exact (InDomain.orJson (hcodec.total.definition definition)).bind fun _ _ => .ok _
  · unfold evaluate evaluateOne
    refine .bind (.bind (choose_inDomain hcodec hs _ _) ?_) ?_
    · rintro ⟨variant, reason, revision⟩ _
      exact .ok _
    · rintro ⟨record, receipt⟩ _
      exact .ok _
  · unfold evaluateBatch
    exact (evaluateFrom_inDomain hcodec hs).bind fun _ _ => .ok _

theorem attempt_inDomain (hreplayable : Replayable c) : InDomain (attempt rt σ c call) := by
  unfold attempt
  refine (replay_inDomain hreplayable).bind fun found _ => ?_
  cases found with
  | some response => exact .ok _
  | none =>
    unfold fresh
    refine InDomain.bind ((perform_inDomain hcodec hs hroom).bind ?_) fun _ _ => .ok _
    rintro ⟨response, c₁⟩ _
    unfold record
    exact InDomain.bind ((InDomain.orJson (hcodec.encodes response)).bind fun _ _ => .ok _)
      fun _ _ => .ok _

end Calls

end Abstract

end LensoFlags
