import LensoFlags.Columns
import LensoFlags.D1.Transport

/-!
# What callers can rely on

Results:
1. `epoch_fence`: a commit batch takes effect exactly when no other has since its snapshot, and the
   tables and answers are those of a serial run in commit order.
2. `effect_once`: lost and late answers and retries leave one effect for each command key, and one
   response if the document it is stored as decodes to it.
3. `evaluation_drifts`: an evaluation whose document does not.
4. `Steps.alone`: a call that nothing disturbs is a call run alone.
5. `Reachable.erase`: a call without an effect might as well not have been made.
-/

namespace LensoFlags.D1

variable {codec : Codec} {rt : Runtime} {s s' : State codec} {i : ℕ} {a : Attempt codec}

/-! ## Effects and answers -/

theorem Inv.guard (hi : Inv rt s) (ha : s.attempts i = some a) {b : Submitted codec}
    (hb : a.submitted = some b) (hfate : b.fate = .inFlight) :
    (batch s.tables b.statements).isSome ↔ b.since = s.log.length := by
  have hsub := (hi.sane i a ha).submission b hb
  constructor
  · intro hsome
    obtain ⟨row, rest, hstatements, -⟩ := hsub.shape
    by_contra hne
    have hepoch : s.tables.epoch ≠ (b.since : Int) + 1 := by
      have := hi.epoch
      omega
    rw [hstatements, batch_stale hepoch] at hsome
    cases hsome
  · intro hsince
    have hunapplied : ∀ b, a.submitted = some b → b.fate ≠ .applied := by
      intro b' hb'
      rw [hb] at hb'
      cases hb'
      rw [hfate]
      nofun
    have hprepare := hsub.current hfate hsince
    obtain ⟨c, answer, c', -, -, -, -, hplans⟩ := hi.plans ha hunapplied hprepare
    generalize b.statements = statements at hplans
    cases hplans with
    | commit _ _ _ hbatch =>
      rw [hbatch]
      rfl

/-- A call that answered from its own commit took effect. -/
theorem Inv.fresh_logged (hi : Inv rt s) (ha : s.attempts i = some a) {response : Response}
    (hphase : a.phase = .returned (.ok (.fresh response))) :
    ⟨i, a.call, a.draws, .fresh response⟩ ∈ s.log := by
  have hsane := hi.sane i a ha
  have hsettled := hsane.settled
  rw [hphase] at hsettled
  obtain ⟨b, hb, hfate, rfl⟩ := hsettled
  exact (hsane.submission b hb).logged hfate

/-- Every entry of the log is an effect. -/
theorem Inv.history (hi : Inv rt s) :
    history s.log = s.log.map fun e => (e.call, e.value.response) := by
  rw [LensoFlags.history, ← List.filterMap_eq_map]
  refine List.filterMap_congr fun e he => ?_
  obtain ⟨a, b, -, -, -, heq⟩ := hi.logged e he
  rw [heq]
  rfl

/-- A command takes effect once. -/
theorem Inv.keys_nodup (hi : Inv rt s) : (s.log.map fun e => e.call.commandKey).Nodup := by
  obtain ⟨c, -, hlogged⟩ := hi.represented
  have hkeys := hlogged.run.commandKeys
  rw [hi.history, List.map_map] at hkeys
  exact hkeys ▸ hlogged.run.sound.commandKeys

/-- The effect behind a command row. -/
theorem Inv.exists_entry (hi : Inv rt s) {key : CommandKey} {row : CommandRow codec}
    (hrow : s.tables.command key = some row) :
    ∃ e ∈ s.log, e.call.commandKey = key ∧ e.call.command.hash = row.requestHash ∧
      encodeResponse codec e.value.response = some row.response ∧
      e.value.response.kind = e.call.operation.kind := by
  obtain ⟨c, hr, hlogged⟩ := hi.represented
  have hkeys := hlogged.run.commandKeys
  rw [hi.history, List.map_map, ← hr.commands, List.map_map] at hkeys
  have hmem : row.key ∈ s.log.map fun e => e.call.commandKey := by
    rw [show (s.log.map fun e => e.call.commandKey) = s.tables.commands.map CommandRow.key from
      hkeys.symm]
    exact List.mem_map_of_mem (Table.mem_of_lookup hrow)
  obtain ⟨e, he, hkey⟩ := List.mem_map.mp hmem
  have hkey' : e.call.commandKey = key := hkey.trans (Table.key_of_lookup hrow)
  obtain ⟨⟨row', hrow', hhash, hresponse⟩, hkind⟩ := hi.held e he
  rw [hkey', hrow] at hrow'
  cases hrow'
  exact ⟨e, he, hkey', hhash.symm, hresponse, hkind⟩

/-- An `Ok` is the response of an effect, as it was made or as its row decodes. -/
theorem Inv.ok_logged (hi : Inv rt s) (ha : s.attempts i = some a) {answer : Answer}
    (hphase : a.phase = .returned (.ok answer)) :
    ∃ e ∈ s.log, ∃ row, s.tables.command a.call.commandKey = some row ∧
      e.call.commandKey = a.call.commandKey ∧ row.requestHash = a.call.command.hash ∧
      encodeResponse codec e.value.response = some row.response ∧
      (answer.response = e.value.response ∨
        decodeResponse codec a.call.operation.kind row.response = some answer.response) ∧
      (e.value.response.Kept codec → answer.response = e.value.response) := by
  cases answer with
  | fresh response =>
    have he := hi.fresh_logged ha hphase
    obtain ⟨⟨row, hrow, hhash, hstored⟩, -⟩ := hi.held _ he
    exact ⟨_, he, row, hrow, rfl, hhash, hstored, .inl rfl, fun _ => rfl⟩
  | replayed response =>
    have hsettled := (hi.sane i a ha).settled
    rw [hphase] at hsettled
    obtain ⟨row, hrow, hhash, hdecode⟩ := hsettled
    obtain ⟨e, he, hkey, -, hstored, hkind⟩ := hi.exists_entry hrow
    refine ⟨e, he, row, hrow, hkey, hhash, hstored, .inr hdecode, fun hkept => ?_⟩
    have hname : e.call.operation.name = a.call.operation.name :=
      (CommandKey.mk.inj hkey).2.2.1
    refine hkept _ _ hstored ?_
    rw [hkind, Operation.kind_eq_of_name hname]
    exact hdecode

/-- A domain error and an effect exclude each other. -/
theorem Inv.domain_notLogged (hi : Inv rt s) (ha : s.attempts i = some a) {failure : DomainFailure}
    (hphase : a.phase = .returned (.error (.domain failure))) : ∀ e ∈ s.log, e.session ≠ i := by
  refine hi.notLogged ha fun b hb hfate => ?_
  have hsane := hi.sane i a ha
  have hsettled := hsane.settled
  rw [hphase] at hsettled
  rcases hsettled with hnone | ⟨row, hrow, hne⟩
  · rw [hb] at hnone
    cases hnone
  · obtain ⟨⟨row', hrow', hhash, -⟩, -⟩ := hi.held _ ((hsane.submission b hb).logged hfate)
    rw [show s.tables.command a.call.commandKey = some row from hrow] at hrow'
    cases hrow'
    exact hne hhash

/-! ## Later states -/

/-- A call that has returned has returned for good. -/
theorem Step.returned (h : Step rt s s') (ha : s.attempts i = some a) {result : Result}
    (hphase : a.phase = .returned result) :
    ∃ a', s'.attempts i = some a' ∧ a'.call = a.call ∧ a'.phase = .returned result := by
  -- The step is of another attempt, or of this one with its phase as it is.
  have hset : ∀ {j : ℕ} {u u' : Attempt codec}, s.attempts j = some u →
      (u.phase = .returned result → u'.call = u.call ∧ u'.phase = .returned result) →
      ∃ a', Function.update s.attempts j (some u') i = some a' ∧ a'.call = a.call ∧
        a'.phase = .returned result := by
    intro j u u' hu hkeep
    by_cases hj : i = j
    · subst hj
      rw [ha] at hu
      cases hu
      exact ⟨u', Function.update_self .., hkeep hphase⟩
    · exact ⟨a, (Function.update_of_ne hj ..).trans ha, rfl, hphase⟩
  cases h with
  | @issue j call δ hnone =>
    have hj : i ≠ j := by
      rintro rfl
      rw [ha] at hnone
      cases hnone
    exact ⟨a, (Function.update_of_ne hj ..).trans ha, rfl, hphase⟩
  | snapshot hu hp => exact hset hu fun h => by rw [hp] at h; cases h
  | lost hu hp => exact hset hu fun h => by rw [hp] at h; cases h
  | apply hu => exact hset hu fun h => ⟨rfl, h⟩
  | reject hu => exact hset hu fun h => ⟨rfl, h⟩
  | acknowledge hu hp => exact hset hu fun h => by rw [hp] at h; cases h
  | fail hu hp => exact hset hu fun h => by rw [hp] at h; cases h
  | reconcile hu hp => exact hset hu fun h => by rw [hp] at h; cases h
  | reconcileLost hu hp => exact hset hu fun h => by rw [hp] at h; cases h

theorem Steps.returned (h : Steps rt s s') (ha : s.attempts i = some a) {result : Result}
    (hphase : a.phase = .returned result) :
    ∃ a', s'.attempts i = some a' ∧ a'.call = a.call ∧ a'.phase = .returned result := by
  induction h with
  | refl => exact ⟨a, ha, rfl, hphase⟩
  | tail _ hstep ih =>
    obtain ⟨a₁, ha₁, hcall, hphase₁⟩ := ih
    obtain ⟨a₂, ha₂, hcall₂, hphase₂⟩ := hstep.returned ha₁ hphase₁
    exact ⟨a₂, ha₂, hcall₂.trans hcall, hphase₂⟩

theorem Step.log_subset (h : Step rt s s') : s.log ⊆ s'.log := by
  cases h <;> simp [State.set]

theorem Steps.log_subset (h : Steps rt s s') : s.log ⊆ s'.log := by
  induction h with
  | refl => exact fun _ he => he
  | tail _ hstep ih => exact fun e he => hstep.log_subset (ih he)

/-! ## Erasure -/

/-- The state without attempt `i`. -/
def State.erase (s : State codec) (i : ℕ) : State codec :=
  { s with attempts := Function.update s.attempts i none }

theorem State.erase_of_ne (s : State codec) {i j : ℕ} (h : j ≠ i) :
    (s.erase i).attempts j = s.attempts j :=
  Function.update_of_ne h ..

theorem State.erase_set (s : State codec) (i : ℕ) (a : Attempt codec) :
    (s.set i a).erase i = s.erase i := by
  simp [State.erase, State.set]

theorem State.erase_set_of_ne (s : State codec) {i j : ℕ} (h : j ≠ i) (a : Attempt codec) :
    (s.set j a).erase i = (s.erase i).set j a := by
  simp [State.erase, State.set, Function.update_comm h]

/-- What another attempt does, it also does when attempt `i` is not there. -/
theorem Step.erase (i : ℕ) (h : Step rt s s') :
    s'.erase i = s.erase i ∨ Step rt (s.erase i) (s'.erase i) ∨ ∃ e ∈ s'.log, e.session = i := by
  have hother : ∀ {j : ℕ} {o : Option (Attempt codec)}, j ≠ i → s.attempts j = o →
      (s.erase i).attempts j = o := fun hj ho => (s.erase_of_ne hj).trans ho
  have hset : ∀ {j : ℕ} {u : Attempt codec},
      (j ≠ i → Step rt (s.erase i) ((s.erase i).set j u)) →
      (s.set j u).erase i = s.erase i ∨ Step rt (s.erase i) ((s.set j u).erase i) ∨
        ∃ e ∈ (s.set j u).log, e.session = i := by
    intro j u hstep
    by_cases hj : j = i
    · subst hj
      exact .inl (s.erase_set ..)
    · rw [s.erase_set_of_ne hj]
      exact .inr (.inl (hstep hj))
  cases h with
  | issue hnone hdistinct hdisjoint =>
    refine hset fun hj => .issue (hother hj hnone) hdistinct fun k u hu => ?_
    by_cases hk : k = i
    · rw [hk, State.erase] at hu
      simp at hu
    · exact hdisjoint k u ((s.erase_of_ne hk).symm.trans hu)
  | snapshot hu hp => exact hset fun hj => .snapshot (hother hj hu) hp
  | lost hu hp => exact hset fun hj => .lost (hother hj hu) hp
  | @apply j u b t' hu hb hfate hroom hbatch =>
    by_cases hj : j = i
    · exact .inr (.inr ⟨_, List.mem_cons_self, hj⟩)
    · refine .inr (.inl ?_)
      have hstep := @Step.apply codec rt _ j u b t' (hother hj hu) hb hfate hroom hbatch
      rwa [State.erase, Function.update_comm (Ne.symm hj)] at hstep
  | reject hu hb hfate hbatch => exact hset fun hj => .reject (hother hj hu) hb hfate hbatch
  | acknowledge hu hp hb hfate => exact hset fun hj => .acknowledge (hother hj hu) hp hb hfate
  | fail hu hp => exact hset fun hj => .fail (hother hj hu) hp
  | reconcile hu hp => exact hset fun hj => .reconcile (hother hj hu) hp
  | reconcileLost hu hp => exact hset fun hj => .reconcileLost (hother hj hu) hp

/-- A call without an effect can be taken out of the run. -/
theorem Steps.erase (h : Steps rt s s') (hlog : ∀ e ∈ s'.log, e.session ≠ i) :
    Steps rt (s.erase i) (s'.erase i) := by
  induction h with
  | refl => exact .refl
  | tail _ hstep ih =>
    have hold := ih fun e he => hlog e (hstep.log_subset he)
    rcases hstep.erase i with heq | hstep' | ⟨e, he, hsession⟩
    · rw [heq]
      exact hold
    · exact hold.tail hstep'
    · exact absurd hsession (hlog e he)

theorem Reachable.erase (h : Reachable rt s) (hlog : ∀ e ∈ s.log, e.session ≠ i) :
    Reachable rt (s.erase i) := by
  have hempty : (State.initial : State codec).erase i = State.initial := by
    simp [State.erase, State.initial]
  have herase := Steps.erase h hlog
  rwa [hempty] at herase

/-! ## Undisturbed calls -/

/-- Draws that no attempt has made. -/
def Unused (s : State codec) (δ : Draws) : Prop :=
  δ.Distinct ∧ ∀ j a, s.attempts j = some a → δ.Disjoint a.draws

theorem Inv.unused_fresh (hi : Inv rt s) {c : Abstract.Store codec}
    (hlogged : Abstract.Logged rt s.log c)
    (hr : Represents s.tables c) {δ : Draws} (hδ : Unused s δ) :
    (stamp rt δ s.tables).Fresh c := by
  refine ⟨hlogged.freshIds (stamp_drawnFrom rt δ s.tables) hδ.1 fun e he => ?_,
    hr.freshSeqs rt δ⟩
  obtain ⟨a, b, ha, -, -, heq⟩ := hi.logged e he
  rw [heq]
  exact hδ.2 _ a ha

/-- A call whose commit batch is on the way. -/
theorem Steps.submit {call : Call} {δ : Draws} (hnone : s.attempts i = none) (hδ : Unused s δ)
    {statements : List (Statement codec)} {response : Response}
    (hprepare : prepare rt δ s.tables call = .ok (.commit statements response)) :
    Steps rt s (s.set i
      ⟨call, δ, .awaiting, some ⟨statements, response, s.log.length, .inFlight⟩⟩) := by
  let a₀ : Attempt codec := ⟨call, δ, .issued, none⟩
  have h₁ : Steps rt s (s.set i a₀) := .single (.issue hnone hδ.1 hδ.2)
  have h₂ := h₁.tail (.snapshot (Function.update_self ..) rfl)
  rw [show a₀.draws = δ from rfl, show a₀.call = call from rfl] at h₂
  change Steps rt s ((s.set i a₀).set i (a₀.planned s.log.length (prepare rt δ s.tables call))) at h₂
  rw [hprepare] at h₂
  simpa [State.set, Attempt.planned, a₀] using h₂

/-- A call that nothing disturbs is the call run alone. -/
theorem Steps.alone (call : Call) {δ : Draws}
    (hnone : s.attempts i = none) (hdistinct : δ.Distinct)
    (hdisjoint : ∀ j a, s.attempts j = some a → δ.Disjoint a.draws)
    (hroom : s.tables.epoch < Decimal.i64Max) :
    ∃ s' a, Steps rt s s' ∧ s'.tables = (D1.call rt δ s.tables call).2 ∧
      s'.attempts = Function.update s.attempts i (some a) ∧ a.call = call ∧ a.draws = δ ∧
      a.phase = .returned (D1.call rt δ s.tables call).1 ∧
      s'.log.length ≤ s.log.length + 1 := by
  let a₀ : Attempt codec := ⟨call, δ, .issued, none⟩
  let s₁ := s.set i a₀
  have h₁ : Steps rt s s₁ := .single (.issue hnone hdistinct hdisjoint)
  have ha₁ : s₁.attempts i = some a₀ := Function.update_self ..
  let a₂ := a₀.planned s.log.length (prepare rt δ s.tables call)
  let s₂ := s₁.set i a₂
  have h₂ : Steps rt s s₂ := h₁.tail (.snapshot ha₁ rfl)
  have ha₂ : s₂.attempts i = some a₂ := Function.update_self ..
  have hcall : a₂.call = call := a₀.planned_call ..
  have hdraws : a₂.draws = δ := a₀.planned_draws ..
  have hset : ∀ u, Function.update (Function.update s.attempts i (some a₀)) i u =
      Function.update s.attempts i u := fun u => Function.update_idem ..
  rw [D1.call]
  cases hprepare : prepare rt δ s.tables call with
  | error e =>
    exact ⟨s₂, a₂, h₂, rfl, hset _, hcall, hdraws, by simp only [a₂, hprepare]; rfl,
      Nat.le_succ _⟩
  | ok planned =>
    cases planned with
    | answered response =>
      exact ⟨s₂, a₂, h₂, rfl, hset _, hcall, hdraws, by simp only [a₂, hprepare]; rfl,
        Nat.le_succ _⟩
    | commit statements response =>
      let b : Submitted codec := ⟨statements, response, s.log.length, .inFlight⟩
      have hb : a₂.submitted = some b := by simp only [a₂, hprepare]; rfl
      have hphase : a₂.phase = .awaiting := by simp only [a₂, hprepare]; rfl
      cases hbatch : batch s.tables statements with
      | some t' =>
        -- The batch takes effect and its answer arrives.
        have h₃ := h₂.tail (.apply ha₂ hb rfl hroom hbatch)
        have h₄ := h₃.tail (.acknowledge (Function.update_self ..) hphase rfl rfl)
        refine ⟨_, { a₂ with
          phase := .returned (.ok (.fresh response))
          submitted := some { b with fate := .applied } }, h₄, ?_, ?_, hcall, hdraws, ?_, le_rfl⟩
        · simp only [hbatch]
          rfl
        · simp [s₂, s₁, State.set, b]
        · simp only [hbatch]
      | none =>
        -- The batch is refused, and reconciliation reads the command's row.
        have h₃ := h₂.tail (.fail ha₂ hphase)
        have h₄ := h₃.tail (.reconcile (Function.update_self ..) rfl)
        refine ⟨_, { a₂ with phase := .returned (reconcile s.tables call) }, h₄, ?_, ?_, hcall,
          hdraws, ?_, Nat.le_succ _⟩
        · simp only [hbatch]
          rfl
        · rw [← hcall]
          simp [s₂, s₁, State.set]
        · simp only [hbatch]

/-! ## Retries -/

/-- A retry whose snapshot decodes is answered from the stored document. -/
theorem Inv.prepare_retry (hi : Inv rt s) {δ : Draws} (hδ : Unused s δ)
    (hdecodes : ∀ row ∈ s.tables.rulesets, (codec.decodeDefinition row.definition).isSome)
    {call : Call} {row : CommandRow codec} (hrow : s.tables.command call.commandKey = some row)
    (hhash : row.requestHash = call.command.hash) {told : Response}
    (htold : decodeResponse codec call.operation.kind row.response = some told) :
    prepare rt δ s.tables call = .ok (.answered told) := by
  obtain ⟨c, hr, hlogged⟩ := hi.represented
  have hcommand := hr.command call.commandKey
  rw [hrow] at hcommand
  have hreplay : Abstract.replay c call = .ok (some told) := by
    rw [Abstract.replay, hcommand]
    change (if row.requestHash ≠ call.command.hash then _ else
      (orJson (decodeResponse codec call.operation.kind row.response)).map some) = _
    rw [if_neg (not_not_intro hhash), htold]
    rfl
  rcases prepare_cases hr hlogged.run.sound (hi.unused_fresh hlogged hr hδ) hi.range call with
    hagree | ⟨-, ruleset, hruleset, hnone⟩
  · rw [Abstract.attempt, hreplay] at hagree
    change Agree _ _ (.ok (Answer.replayed told, c)) at hagree
    generalize prepare rt δ s.tables call = planned at hagree
    cases hagree with
    | ok hplans =>
      cases hplans
      rfl
  · rw [← hr.rulesets] at hruleset
    obtain ⟨row', hmem, rfl⟩ := List.mem_map.mp hruleset
    have hsome := hdecodes row' hmem
    rw [show codec.decodeDefinition row'.definition = none from hnone] at hsome
    cases hsome

theorem Steps.retry (hi : Inv rt s) (hnone : s.attempts i = none) {δ : Draws} (hδ : Unused s δ)
    (hdecodes : ∀ row ∈ s.tables.rulesets, (codec.decodeDefinition row.definition).isSome)
    {call : Call} {row : CommandRow codec} (hrow : s.tables.command call.commandKey = some row)
    (hhash : row.requestHash = call.command.hash) {told : Response}
    (htold : decodeResponse codec call.operation.kind row.response = some told) :
    ∃ s' a, Steps rt s s' ∧ s'.attempts i = some a ∧ a.call = call ∧
      a.phase = .returned (.ok (.replayed told)) := by
  let a₀ : Attempt codec := ⟨call, δ, .issued, none⟩
  have h₁ : Steps rt s (s.set i a₀) := .single (.issue hnone hδ.1 hδ.2)
  have ha₁ : (s.set i a₀).attempts i = some a₀ := Function.update_self ..
  refine ⟨_, _, h₁.tail (.snapshot ha₁ rfl), Function.update_self .., a₀.planned_call .., ?_⟩
  change (a₀.planned s.log.length (prepare rt δ s.tables call)).phase = _
  rw [hi.prepare_retry hδ hdecodes hrow hhash htold]
  rfl

/-- The answers to a key are the response of its effect exactly if that response is kept. -/
theorem Inv.kept_iff (h : Reachable rt s)
    (hdecodes : ∀ row ∈ s.tables.rulesets, (codec.decodeDefinition row.definition).isSome)
    (hnone : s.attempts i = none) {δ : Draws} (hδ : Unused s δ)
    {e : Serial.Entry Call Draws Answer} (he : e ∈ s.log) :
    e.value.response.Kept codec ↔
      ∀ s', Steps rt s s' → ∀ j a answer, s'.attempts j = some a →
        a.call.commandKey = e.call.commandKey → a.phase = .returned (.ok answer) →
        answer.response = e.value.response := by
  have hi := Inv.reachable h
  constructor
  · intro hkept s' hs j a answer ha hkey hphase
    have hi' := Inv.reachable (h.trans hs)
    obtain ⟨e', he', -, -, hkey', -, -, -, hsame⟩ := hi'.ok_logged ha hphase
    obtain rfl : e' = e := List.inj_on_of_nodup_map hi'.keys_nodup he' (hs.log_subset he)
      (hkey'.trans hkey)
    exact hsame hkept
  · intro hall stored told hstored htold
    obtain ⟨⟨row, hrow, hhash, hresponse⟩, hkind⟩ := hi.held e he
    rw [hstored] at hresponse
    cases hresponse
    rw [hkind] at htold
    obtain ⟨s', a, hs, ha, hcall, hphase⟩ := Steps.retry hi hnone hδ hdecodes hrow hhash htold
    exact hall s' hs i a _ ha (congrArg Call.commandKey hcall) hphase

/-- The tables after calls made one after another from call number `n` on. -/
def tablesAfter (rt : Runtime) : ℕ → Tables codec → List Call → Tables codec
  | _, t, [] => t
  | n, t, call :: calls =>
      tablesAfter rt (n + 1) (D1.call rt (Draws.numbered n) t call).2 calls

theorem tablesAfter_append (rt : Runtime) (n : ℕ) (t : Tables codec) (calls : List Call)
    (call : Call) : tablesAfter rt n t (calls ++ [call]) =
      (D1.call rt (Draws.numbered (n + calls.length)) (tablesAfter rt n t calls) call).2 := by
  induction calls generalizing n t with
  | nil => rfl
  | cons first calls ih =>
    rw [List.cons_append, tablesAfter, ih, tablesAfter, List.length_cons, Nat.add_right_comm,
      Nat.add_assoc]

/-- Calls made one after another are a run. -/
theorem Reachable.calls {P : Call → Prop} {n : ℕ} (h : Reachable rt s)
    (hattempts : ∀ j a, s.attempts j = some a → j < n ∧ a.draws = Draws.numbered j ∧ P a.call)
    (hlog : s.log.length ≤ n) (calls : List Call) (hcalls : ∀ call ∈ calls, P call)
    (hroom : (n + calls.length : ℕ) < Decimal.i64Max) :
    ∃ s', Reachable rt s' ∧ s'.tables = tablesAfter rt n s.tables calls ∧
      s'.log.length ≤ n + calls.length ∧
      ∀ j a, s'.attempts j = some a →
        j < n + calls.length ∧ a.draws = Draws.numbered j ∧ P a.call := by
  induction calls generalizing n s with
  | nil => exact ⟨s, h, rfl, hlog, hattempts⟩
  | cons call calls ih =>
    have hnone : s.attempts n = none := by
      cases ha : s.attempts n with
      | none => rfl
      | some a => exact absurd (hattempts n a ha).1 (lt_irrefl n)
    have hepoch := (Inv.reachable h).epoch
    rw [List.length_cons] at hroom
    obtain ⟨s₁, a, hsteps, htables, hset, hcall, hdraws, -, hlog₁⟩ :=
      @Steps.alone codec rt s n call _ hnone (Draws.numbered_distinct n)
        (fun j u hu => by
          obtain ⟨hj, hu', -⟩ := hattempts j u hu
          rw [hu']
          exact Draws.numbered_disjoint (by omega)) (by omega)
    obtain ⟨s', h', htables', hlog', hattempts'⟩ := ih (n := n + 1) (h.trans hsteps)
      (fun j u hu => by
        rw [hset] at hu
        rcases attempt_cases hu with ⟨rfl, rfl⟩ | ⟨-, hu⟩
        · exact ⟨Nat.lt_succ_self _, hdraws, hcall ▸ hcalls call List.mem_cons_self⟩
        · exact ⟨Nat.lt_succ_of_lt (hattempts j u hu).1, (hattempts j u hu).2⟩)
      (by omega) (fun call' hmem => hcalls call' (List.mem_cons_of_mem _ hmem)) (by omega)
    refine ⟨s', h', ?_, by rw [List.length_cons]; omega, ?_⟩
    · rw [htables', htables]
      rfl
    · intro j u hu
      obtain ⟨hj, hu'⟩ := hattempts' j u hu
      exact ⟨by rw [List.length_cons]; omega, hu'⟩

/-- Calls made one after another from the empty tables. -/
theorem exists_calls (rt : Runtime) (calls : List Call)
    (hroom : (calls.length : Int) < Decimal.i64Max) :
    ∃ s : State codec, Reachable rt s ∧ s.tables = tablesAfter rt 0 Tables.empty calls ∧
      ∀ e ∈ s.log, e.call ∈ calls := by
  obtain ⟨s, h, htables, -, hattempts⟩ := @Reachable.calls codec rt State.initial (· ∈ calls) 0
    .refl (fun _ _ h => nomatch h) le_rfl calls (fun _ hmem => hmem) (by rwa [Nat.zero_add])
  refine ⟨s, h, htables, fun e he => ?_⟩
  obtain ⟨a, b, ha, -, -, hentry⟩ := (Inv.reachable h).logged e he
  rw [hentry]
  exact (hattempts _ a ha).2.2

/-- Calls made one after another, and one more behind them. -/
theorem exists_last (rt : Runtime) (calls : List Call) (call : Call)
    (hroom : (calls.length + 1 : Int) < Decimal.i64Max) :
    ∃ (s s' : State codec) (a : Attempt codec), Reachable rt s ∧ Steps rt s s' ∧
      s.tables = tablesAfter rt 0 Tables.empty calls ∧
      s'.tables = (D1.call rt (Draws.numbered calls.length) s.tables call).2 ∧
      s'.attempts calls.length = some a ∧ a.call = call ∧
      a.phase = .returned (D1.call rt (Draws.numbered calls.length) s.tables call).1 := by
  obtain ⟨s, h, htables, hlog, hattempts⟩ := @Reachable.calls codec rt State.initial (· ∈ calls) 0
    .refl (fun _ _ h => nomatch h) le_rfl calls (fun _ hmem => hmem) (by omega)
  rw [Nat.zero_add] at hlog hattempts
  have hnone : s.attempts calls.length = none := by
    cases ha : s.attempts calls.length with
    | none => rfl
    | some a => exact absurd (hattempts _ a ha).1 (lt_irrefl _)
  have hepoch := (Inv.reachable h).epoch
  obtain ⟨s', a, hsteps, htables', hset, hcall, -, hphase, -⟩ :=
    @Steps.alone codec rt s calls.length call _ hnone (Draws.numbered_distinct calls.length)
      (fun j u hu => by
        obtain ⟨hj, hu', -⟩ := hattempts j u hu
        rw [hu']
        exact Draws.numbered_disjoint (by omega)) (by omega)
  exact ⟨s, s', a, h, hsteps, htables, htables', by rw [hset, Function.update_self], hcall, hphase⟩

/-! ## Guarantees -/

/-- The commit batch of a call takes effect exactly when no other has since the call's snapshot: the
guard decides, and no statement behind it violates a constraint. The tables and the answers are those
of the committed calls run one at a time. -/
theorem epoch_fence (h : Reachable rt s) :
    (∀ i a b, s.attempts i = some a → a.submitted = some b → b.fate = .inFlight →
      ((batch s.tables b.statements).isSome ↔ b.since = s.log.length) ∧
        ∃ epoch : Int, b.statements.head? = some (.guardEpoch (toString epoch)) ∧
          ((batch s.tables b.statements).isSome ↔ s.tables.epoch = epoch)) ∧
      Serial.Runs (D1.call rt) Tables.empty s.log s.tables ∧
      (∀ i a response, s.attempts i = some a → a.phase = .returned (.ok (.fresh response)) →
        ⟨i, a.call, a.draws, .fresh response⟩ ∈ s.log) ∧
      (∀ i a response, s.attempts i = some a → a.phase = .returned (.ok (.replayed response)) →
        ∃ e ∈ s.log, e.call.commandKey = a.call.commandKey ∧
          e.call.command.hash = a.call.command.hash ∧
          ∃ stored, encodeResponse codec e.value.response = some stored ∧
            decodeResponse codec a.call.operation.kind stored = some response) := by
  have hi := Inv.reachable h
  refine ⟨fun i a b ha hb hfate => ?_, hi.serial, fun i a response ha hphase => ?_,
    fun i a response ha hphase => ?_⟩
  · have hguard := hi.guard ha hb hfate
    obtain ⟨row, rest, hstatements, -⟩ := ((hi.sane i a ha).submission b hb).shape
    refine ⟨hguard, (b.since : Int) + 1, by rw [hstatements]; rfl, hguard.trans ?_⟩
    have := hi.epoch
    omega
  · exact hi.fresh_logged ha hphase
  · have hsettled := (hi.sane i a ha).settled
    rw [hphase] at hsettled
    obtain ⟨row, hrow, hhash, hdecode⟩ := hsettled
    obtain ⟨e, he, hkey, hhash', hstored, -⟩ := hi.exists_entry hrow
    exact ⟨e, he, hkey, hhash'.trans hhash, row.response, hstored, hdecode⟩

/-- A call that creates a flag. -/
def creating (flagKey key : String) : Call :=
  ⟨⟨"caller", "actor", key, [1]⟩, .createFlag "org" flagKey "Flag" none "boolean"⟩

theorem creating_commits (n : ℕ) (flagKey key : String) : ∃ statements response,
    prepare (.atEpoch []) (Draws.numbered n) (Tables.empty : Tables Codec.verbatim)
      (creating flagKey key) = .ok (.commit statements response) :=
  ⟨_, _, rfl⟩

/-- Two calls with one snapshot: the batch of the first takes effect, that of the second is fenced
off. -/
theorem epoch_fence_created : ∃ (s : State Codec.verbatim) (a : Attempt Codec.verbatim)
    (b : Submitted Codec.verbatim), Reachable (.atEpoch []) s ∧ s.attempts 1 = some a ∧
      a.call = creating "other" "key-2" ∧ a.submitted = some b ∧ b.fate = .inFlight ∧
      s.log.map (·.call) = [creating "flag" "key-1"] ∧
      (batch s.tables b.statements).isSome = false ∧
      Serial.Runs (D1.call (.atEpoch [])) Tables.empty s.log s.tables := by
  obtain ⟨first, response, hfirst⟩ := creating_commits 0 "flag" "key-1"
  obtain ⟨second, response', hsecond⟩ := creating_commits 1 "other" "key-2"
  obtain ⟨t, ht⟩ : ∃ t, batch (Tables.empty : Tables Codec.verbatim) first = some t := by
    have hfirst' := hfirst
    cases hfirst'
    exact ⟨_, rfl⟩
  have h₁ : Reachable (.atEpoch []) _ := Steps.submit (i := 0) (s := State.initial) rfl
    ⟨Draws.numbered_distinct 0, fun _ _ h => nomatch h⟩ hfirst
  -- The second call takes its snapshot before the first batch arrives.
  have h₂ := h₁.trans (Steps.submit (i := 1) rfl
    ⟨Draws.numbered_distinct 1, fun j u hu => by
      rcases attempt_cases hu with ⟨-, rfl⟩ | ⟨-, hu⟩
      · exact Draws.numbered_disjoint (by decide)
      · cases hu⟩ hsecond)
  have hroom : (1 : Int) < Decimal.i64Max := by decide
  have h₃ := h₂.tail (.apply (i := 0) rfl rfl rfl hroom ht)
  obtain ⟨hfence, hserial, -⟩ := epoch_fence h₃
  refine ⟨_, _, _, h₃, rfl, rfl, rfl, rfl, rfl, ?_, hserial⟩
  have hguard := (hfence 1 _ _ rfl rfl rfl).1
  rw [Bool.eq_false_iff, ne_eq, hguard]
  exact Nat.zero_ne_one

/-- Whatever is lost, late or retried, the command of a key takes effect at most once, and a call that
got a domain error has no effect, now or later. An `Ok` goes only to a call with the hash of the
command row; it is the response of the effect, whose encoding is the stored document, or what that
document decodes to. So it is the one stored response if that response is kept, and only then if the
call is retried over rulesets that decode. -/
theorem effect_once (h : Reachable rt s) (hs : Steps rt s s') :
    (s'.log.map fun e => e.call.commandKey).Nodup ∧
      (∀ i a answer, s'.attempts i = some a → a.phase = .returned (.ok answer) →
        ∃ e ∈ s'.log, ∃ row, s'.tables.command a.call.commandKey = some row ∧
          e.call.commandKey = a.call.commandKey ∧ row.requestHash = a.call.command.hash ∧
          encodeResponse codec e.value.response = some row.response ∧
          (answer.response = e.value.response ∨
            decodeResponse codec a.call.operation.kind row.response = some answer.response) ∧
          (e.value.response.Kept codec → answer.response = e.value.response)) ∧
      (∀ i a failure, s.attempts i = some a →
        a.phase = .returned (.error (.domain failure)) → ∀ e ∈ s'.log, e.session ≠ i) ∧
      ∀ i δ, s'.attempts i = none → Unused s' δ →
        (∀ row ∈ s'.tables.rulesets, (codec.decodeDefinition row.definition).isSome) →
        ∀ e ∈ s'.log, e.value.response.Kept codec ↔
          ∀ later, Steps rt s' later → ∀ j a answer, later.attempts j = some a →
            a.call.commandKey = e.call.commandKey → a.phase = .returned (.ok answer) →
            answer.response = e.value.response := by
  have hi := Inv.reachable (h.trans hs)
  refine ⟨hi.keys_nodup, fun i a answer ha hphase => hi.ok_logged ha hphase,
    fun i a failure ha hphase => ?_, fun i δ hnone hδ hdecodes e he => ?_⟩
  · obtain ⟨a', ha', -, hphase'⟩ := hs.returned ha hphase
    exact hi.domain_notLogged ha' hphase'
  · exact Inv.kept_iff (h.trans hs) hdecodes hnone hδ he

/-- A call made twice, after calls made one after another. -/
theorem exists_twice (rt : Runtime) (calls : List Call) (call : Call)
    (hroom : ((calls.length + 2 : ℕ) : Int) < Decimal.i64Max) :
    ∃ (s s' : State codec) (a a' : Attempt codec), Reachable rt s ∧ Steps rt s s' ∧
      s'.attempts calls.length = some a ∧ s'.attempts (calls.length + 1) = some a' ∧
      a.call = call ∧ a'.call = call ∧
      a.phase = .returned (D1.call rt (Draws.numbered calls.length)
        (tablesAfter rt 0 (Tables.empty : Tables codec) calls) call).1 ∧
      a'.phase = .returned (D1.call rt (Draws.numbered (calls.length + 1))
        (D1.call rt (Draws.numbered calls.length)
          (tablesAfter rt 0 (Tables.empty : Tables codec) calls) call).2 call).1 := by
  obtain ⟨s₀, h₀, htables₀, hlog₀, hattempts₀⟩ := @Reachable.calls codec rt State.initial (fun _ => True) 0
    .refl (fun _ _ h => nomatch h) le_rfl calls (fun _ _ => trivial) (by omega)
  have hnone : ∀ n, calls.length ≤ n → s₀.attempts n = none := by
    intro n hn
    cases ha : s₀.attempts n with
    | none => rfl
    | some a =>
      have := (hattempts₀ n a ha).1
      omega
  have hunused : ∀ n, calls.length ≤ n → ∀ j u, s₀.attempts j = some u →
      (Draws.numbered n).Disjoint u.draws := by
    intro n hn j u hu
    obtain ⟨hj, hdraws, -⟩ := hattempts₀ j u hu
    rw [hdraws]
    exact Draws.numbered_disjoint (by omega)
  have hepoch₀ := (Inv.reachable h₀).epoch
  obtain ⟨s₁, a, hsteps₁, htables₁, hattempts₁, hcall, hdraws, hphase, hlog₁⟩ :=
    @Steps.alone codec rt s₀ calls.length call _ (hnone _ le_rfl) (Draws.numbered_distinct _)
      (hunused _ le_rfl) (by omega)
  have hepoch₁ := (Inv.reachable (h₀.trans hsteps₁)).epoch
  obtain ⟨s₂, a', hsteps₂, -, hattempts₂, hcall', -, hphase', -⟩ :=
    @Steps.alone codec rt s₁ (calls.length + 1) call _
      (by
        rw [hattempts₁, Function.update_of_ne (by omega)]
        exact hnone _ (Nat.le_succ _))
      (Draws.numbered_distinct (calls.length + 1))
      (fun j u hu => by
        rw [hattempts₁] at hu
        rcases attempt_cases hu with ⟨-, rfl⟩ | ⟨-, hu⟩
        · rw [hdraws]
          exact Draws.numbered_disjoint (Nat.succ_ne_self _)
        · exact hunused _ (Nat.le_succ _) j u hu) (by omega)
  refine ⟨s₁, s₂, a, a', h₀.trans hsteps₁, hsteps₂, ?_, ?_, hcall, hcall', ?_, ?_⟩
  · rw [hattempts₂, Function.update_of_ne (by omega), hattempts₁]
    exact Function.update_self ..
  · rw [hattempts₂]
    exact Function.update_self ..
  · rw [hphase, htables₀]
    rfl
  · rw [hphase', htables₁, htables₀]
    rfl

/-- A flag created, and the call retried. -/
theorem effect_once_retried : ∃ s : State Codec.verbatim, Reachable (.atEpoch []) s ∧
    ∃ a response, s.attempts 1 = some a ∧ a.phase = .returned (.ok (.replayed response)) ∧
      ∃ e ∈ s.log, response = e.value.response := by
  obtain ⟨s, s', -, a, h, hs, -, ha, -, -, -, hphase⟩ := @exists_twice Codec.verbatim (.atEpoch []) []
    ⟨⟨"caller", "actor", "key-1", [1]⟩, .createFlag "org" "flag" "Flag" none "boolean"⟩ (by decide)
  obtain ⟨e, he, -, -, -, -, -, -, hsame⟩ := (effect_once h hs).2.1 1 a _ ha hphase
  exact ⟨s', h.trans hs, a, _, ha, hphase, e, he, hsame (Codec.verbatim_kept _)⟩

/-- A flag of doubles with a published ruleset. -/
def driftingCalls : List Call :=
  [⟨⟨"caller", "actor", "key-1", [1]⟩, .createFlag "org" "flag" "Flag" none "double"⟩,
    ⟨⟨"caller", "actor", "key-2", [2]⟩, .putEnvironment "org" "prod" "Production" none⟩,
    ⟨⟨"caller", "actor", "key-3", [3]⟩, .publishRuleset "org" "flag" "prod" 1 1
      ⟨[⟨"on", ⟨"double", none, none, none, some drifting, none⟩⟩], [], [], "on"⟩⟩]

/-- The double of an evaluation that was answered. -/
def doubleOf : Result → Option F64
  | .ok answer =>
      match answer.response with
      | .evaluation record => record.value.doubleValue
      | _ => none
  | .error _ => none

theorem exists_answer {result : Result} {x : F64} (h : doubleOf result = some x) :
    ∃ answer, result = .ok answer := by
  cases result with
  | ok answer => exact ⟨answer, rfl⟩
  | error e => cases h

/-- A double that is read as the one above it, both from the ruleset and from the stored response. -/
theorem evaluation_drifts : ∃ s : State (Codec.column Doubles.sample .text),
    Reachable Runtime.sample s ∧ ∃ a a' answer answer', s.attempts 3 = some a ∧
      s.attempts 4 = some a' ∧ a.call = a'.call ∧ a.phase = .returned (.ok answer) ∧
      a'.phase = .returned (.ok answer') ∧ doubleOf (.ok answer) = some drifted ∧
      doubleOf (.ok answer') = some driftedTwice ∧ answer.response ≠ answer'.response := by
  obtain ⟨s, s', a, a', h, hs, ha, ha', hcall, hcall', hphase, hphase'⟩ :=
    @exists_twice (Codec.column Doubles.sample .text) Runtime.sample driftingCalls
      ⟨⟨"caller", "actor", "key-4", [4]⟩, .evaluate "org" "prod" "flag" "user-1" [] "hash"⟩
      (by decide)
  generalize hfirst : (D1.call Runtime.sample (Draws.numbered driftingCalls.length)
    (tablesAfter Runtime.sample 0 Tables.empty driftingCalls) _).1 = first at hphase
  generalize hsecond : (D1.call Runtime.sample (Draws.numbered (driftingCalls.length + 1)) _ _).1 =
    second at hphase'
  have hdouble : doubleOf first = some drifted := by
    rw [← hfirst]
    decide +kernel
  have hdouble' : doubleOf second = some driftedTwice := by
    rw [← hsecond]
    decide +kernel
  obtain ⟨answer, rfl⟩ := exists_answer hdouble
  obtain ⟨answer', rfl⟩ := exists_answer hdouble'
  refine ⟨s', h.trans hs, a, a', answer, answer', ha, ha', hcall.trans hcall'.symm, hphase, hphase',
    hdouble, hdouble', fun hsame => ?_⟩
  rw [doubleOf, hsame] at hdouble
  exact absurd (hdouble.symm.trans hdouble') (by decide)

end LensoFlags.D1
