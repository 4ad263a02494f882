import LensoFlags.Abstract.Advance

/-!
# Publications of a history

A publication is told the number of its ruleset. The number is new to its triple, and the newest
publication has the number of them all.

1. `Run.newest`: what the newest publication was told.
2. `Commits.numbered_once`: a number of a triple is told of one publication.
3. `Run.valid`: what is published is valid for the flag it is published for.
-/

namespace LensoFlags

/-- The triple of the ruleset the record is of. -/
def PublishRecord.triple (record : PublishRecord) : String × String × String :=
  (record.organizationId, record.flagKey, record.environmentKey)

namespace Abstract

variable {codec : Codec} {rt : Runtime} {σ : Stamp} {c c' : Store codec} {call : Call}
  {response : Response} {history : List (Call × Response)} {org flagKey environmentKey : String}

/-! ## One publication -/

/-- What a publication is told: the number of the newest ruleset it leaves. -/
theorem Effect.tells (h : Effect rt σ c call response c') (hs : Sound rt c)
    {definition : RulesetDefinition}
    (hpublication : publication org flagKey environmentKey call.operation = some definition) :
    ∃ record, response = .publish record ∧
      record.triple = (org, flagKey, environmentKey) ∧
      record.rulesetRevision =
        toString ((c.rulesetsOf org flagKey environmentKey).length + 1 : Int) := by
  cases h with
  | @published org' flagKey' environmentKey' _ _ _ _ _ _ hop =>
    rw [hop] at hpublication
    obtain ⟨htriple, -⟩ := Option.ite_none_right_eq_some.mp hpublication
    refine ⟨_, rfl, htriple, ?_⟩
    cases htriple
    exact congrArg (fun n => toString (n + 1)) (published_eq_length hs.numbered _ _ _)
  | evaluated hop =>
    cases hoperation : call.operation <;> rw [hoperation] at hop hpublication <;> cases hop <;>
      cases hpublication
  | _ hop =>
    rw [hop] at hpublication
    cases hpublication

/-- Only a publication is told one. -/
theorem Effect.told (h : Effect rt σ c call response c') {record : PublishRecord}
    (hresponse : response = .publish record) :
    ∃ definition, publication record.organizationId record.flagKey record.environmentKey
      call.operation = some definition := by
  cases h with
  | published hop =>
    cases hresponse
    rw [hop]
    exact ⟨_, if_pos rfl⟩
  | evaluated hop _ hkind =>
    rw [hresponse] at hkind
    cases hoperation : call.operation <;> rw [hoperation] at hop hkind <;> cases hop <;> cases hkind
  | _ => cases hresponse

/-- The ruleset of a publication is the newest of the store the call leaves. -/
theorem Step.publishes {e : Serial.Entry Call Draws Answer} (h : Step rt e c c') (hs : Sound rt c)
    {record : PublishRecord} (hvalue : e.value = .fresh (.publish record)) :
    record.rulesetRevision = toString ((c'.rulesetsOf record.organizationId record.flagKey
      record.environmentKey).length : Int) := by
  obtain ⟨σ, c₁, rows, heffect, rfl⟩ := h.fresh hvalue
  obtain ⟨definition, hpublication⟩ := heffect.told rfl
  obtain ⟨_, heq, -, hrevision⟩ := heffect.tells hs hpublication
  cases heq
  change _ = toString ((c₁.rulesetsOf _ _ _).length : Int)
  rcases heffect.rulesetMove record.organizationId record.flagKey record.environmentKey with
    ⟨hnone, -⟩ | ⟨_, _, -, -, -, hadded⟩
  · rw [hpublication] at hnone
    cases hnone
  · rw [hrevision, hadded]
    rfl

/-! ## Histories -/

theorem publications_cons {definition : RulesetDefinition}
    (h : publication org flagKey environmentKey call.operation = some definition)
    (response : Response) (history : List (Call × Response)) :
    publications org flagKey environmentKey ((call, response) :: history) =
      definition :: publications org flagKey environmentKey history :=
  List.filterMap_cons_some h

theorem publications_cons_of_none
    (h : publication org flagKey environmentKey call.operation = none)
    (response : Response) (history : List (Call × Response)) :
    publications org flagKey environmentKey ((call, response) :: history) =
      publications org flagKey environmentKey history :=
  List.filterMap_cons_none h

theorem Run.length_rulesets (h : Run rt history c) (org flagKey environmentKey : String) :
    (c.rulesetsOf org flagKey environmentKey).length =
      (Abstract.publications org flagKey environmentKey history).length :=
  (h.publications org flagKey environmentKey).length_eq

theorem exists_of_mem_history {log : List (Serial.Entry Call Draws Answer)}
    (h : (call, response) ∈ LensoFlags.history log) :
    ∃ e ∈ log, e.call = call ∧ e.value = .fresh response := by
  obtain ⟨e, he, heq⟩ := List.mem_filterMap.mp h
  cases hvalue : e.value with
  | fresh =>
    rw [hvalue] at heq
    cases heq
    exact ⟨e, he, rfl, hvalue⟩
  | replayed =>
    rw [hvalue] at heq
    cases heq

/-- The newest publication of a triple was told how many there are. -/
theorem Run.newest (h : Run rt history c) {definition : RulesetDefinition}
    (hhead : (Abstract.publications org flagKey environmentKey history).head? = some definition) :
    ∃ call record, (call, .publish record) ∈ history ∧
      publication org flagKey environmentKey call.operation = some definition ∧
      record.triple = (org, flagKey, environmentKey) ∧
      record.rulesetRevision =
        toString ((Abstract.publications org flagKey environmentKey history).length : Int) := by
  induction h with
  | nil => cases hhead
  | @cons history c c' σ call response hrun _ _ hfresh ih =>
    obtain ⟨c₁, stored, heffect, -, rfl⟩ := fresh_effect hfresh
    cases hpublication : publication org flagKey environmentKey call.operation with
    | none =>
      rw [publications_cons_of_none hpublication] at hhead ⊢
      obtain ⟨call', record, hmem, hrest⟩ := ih hhead
      exact ⟨call', record, List.mem_cons_of_mem _ hmem, hrest⟩
    | some found =>
      rw [publications_cons hpublication] at hhead ⊢
      cases hhead
      obtain ⟨record, rfl, htriple, hrevision⟩ := heffect.tells hrun.sound hpublication
      refine ⟨call, record, List.mem_cons_self, hpublication, htriple, ?_⟩
      rw [hrevision, hrun.length_rulesets]
      rfl

/-- A publication of the history has the number of one of the rulesets. -/
theorem Run.numbered_le (h : Run rt history c) {record : PublishRecord}
    (hmem : (call, .publish record) ∈ history) :
    ∃ n : ℕ, record.rulesetRevision = toString (n : Int) ∧
      n ≤ (Abstract.publications record.organizationId record.flagKey record.environmentKey
        history).length := by
  induction h with
  | nil => cases hmem
  | @cons history c c' σ call' response hrun _ _ hfresh ih =>
    obtain ⟨c₁, stored, heffect, -, rfl⟩ := fresh_effect hfresh
    rcases List.mem_cons.mp hmem with heq | hmem
    · cases heq
      obtain ⟨definition, hpublication⟩ := heffect.told rfl
      obtain ⟨_, heq, -, hrevision⟩ := heffect.tells hrun.sound hpublication
      cases heq
      refine ⟨_, hrevision, ?_⟩
      rw [hrun.length_rulesets, publications_cons hpublication]
      exact le_refl _
    · obtain ⟨n, hn, hle⟩ := ih hmem
      exact ⟨n, hn, hle.trans (((List.suffix_cons ..).filterMap _).length_le)⟩

/-- The numbers told to publications of one triple differ. -/
theorem Run.numbered_apart (h : Run rt history c) :
    history.Pairwise fun entry older => ∀ record record', entry.2 = .publish record →
      older.2 = .publish record' → record.triple = record'.triple →
        record.rulesetRevision ≠ record'.rulesetRevision := by
  induction h with
  | nil => exact .nil
  | @cons history c c' σ call response hrun _ _ hfresh ih =>
    obtain ⟨c₁, stored, heffect, -, rfl⟩ := fresh_effect hfresh
    refine List.pairwise_cons.mpr ⟨?_, ih⟩
    rintro ⟨call', _⟩ hmem record record' rfl rfl htriple heq
    obtain ⟨definition, hpublication⟩ := heffect.told rfl
    obtain ⟨_, hsame, -, hrevision⟩ := heffect.tells hrun.sound hpublication
    cases hsame
    obtain ⟨n, hn, hle⟩ := hrun.numbered_le hmem
    simp only [PublishRecord.triple, Prod.mk.injEq] at htriple
    obtain ⟨horg, hflag, henvironment⟩ := htriple
    rw [← horg, ← hflag, ← henvironment, ← hrun.length_rulesets] at hle
    rw [hrevision, hn] at heq
    exact absurd (Decimal.toString_inj heq) (by omega)

/-- A number is told of one publication of a triple. -/
theorem Commits.numbered_once {log : List (Serial.Entry Call Draws Answer)} (h : Commits rt log c)
    {e e' : Serial.Entry Call Draws Answer} {record record' : PublishRecord} (he : e ∈ log)
    (he' : e' ∈ log) (hvalue : e.value = .fresh (.publish record))
    (hvalue' : e'.value = .fresh (.publish record')) (htriple : record.triple = record'.triple)
    (hrevision : record.rulesetRevision = record'.rulesetRevision) : e = e' := by
  have hsymm : Std.Symm fun entry older : Call × Response => ∀ record record',
      entry.2 = .publish record → older.2 = .publish record' → record.triple = record'.triple →
        record.rulesetRevision ≠ record'.rulesetRevision :=
    ⟨fun _ _ hnot _ _ h h' htriple heq => hnot _ _ h' h htriple.symm heq.symm⟩
  by_contra hne
  refine h.run.numbered_apart.forall (mem_history he hvalue) (mem_history he' hvalue') ?_ _ _ rfl rfl
    htriple hrevision
  intro heq
  exact hne (h.once he he' hvalue hvalue' (congrArg (fun entry => entry.1.commandKey) heq))

/-- What is published is valid for its flag. -/
theorem Effect.valid (h : Effect rt σ c call response c') {definition : RulesetDefinition}
    (hpublication : publication org flagKey environmentKey call.operation = some definition) :
    ∃ flag, c.flag org flagKey = some flag ∧
      validateRuleset rt flag.valueType definition = .ok () := by
  cases h with
  | @published _ _ _ _ _ _ flag _ _ hop hflag _ _ _ hvalid =>
    rw [hop] at hpublication
    obtain ⟨htriple, heq⟩ := Option.ite_none_right_eq_some.mp hpublication
    cases htriple
    cases heq
    exact ⟨flag, hflag, hvalid⟩
  | evaluated hop =>
    cases hoperation : call.operation <;> rw [hoperation] at hop hpublication <;> cases hop <;>
      cases hpublication
  | _ hop =>
    rw [hop] at hpublication
    cases hpublication

/-- What was published is valid for the flag. -/
theorem Run.valid (h : Run rt history c) {definition : RulesetDefinition}
    (hmem : definition ∈ Abstract.publications org flagKey environmentKey history) :
    ∃ flag, c.flag org flagKey = some flag ∧ validateRuleset rt flag.valueType definition = .ok () := by
  induction h with
  | nil => cases hmem
  | @cons history c c' σ call response hrun _ _ hfresh ih =>
    obtain ⟨c₁, stored, heffect, -, rfl⟩ := fresh_effect hfresh
    -- The type of a flag does not change.
    have hkept : ∀ flag, c.flag org flagKey = some flag →
        validateRuleset rt flag.valueType definition = .ok () →
        ∃ flag', c₁.flag org flagKey = some flag' ∧
          validateRuleset rt flag'.valueType definition = .ok () := by
      intro flag hflag hvalid
      obtain ⟨flag', hflag', htype, -⟩ := heffect.flagChange.persists hflag
      exact ⟨flag', hflag', htype ▸ hvalid⟩
    cases hpublication : publication org flagKey environmentKey call.operation with
    | none =>
      rw [publications_cons_of_none hpublication] at hmem
      obtain ⟨flag, hflag, hvalid⟩ := ih hmem
      exact hkept flag hflag hvalid
    | some found =>
      rw [publications_cons hpublication] at hmem
      rcases List.mem_cons.mp hmem with rfl | hmem
      · obtain ⟨flag, hflag, hvalid⟩ := heffect.valid hpublication
        exact hkept flag hflag hvalid
      · obtain ⟨flag, hflag, hvalid⟩ := ih hmem
        exact hkept flag hflag hvalid

end Abstract

end LensoFlags
