import LensoFlags.Abstract.Commands
import LensoFlags.Abstract.History
import Mathlib.Data.List.Pairwise
import Mathlib.Logic.Relation

/-!
# Later stores

What further calls leave of a store, and what the call that took effect last has left in it.

1. `Later.flag`: a flag stays as it is or goes to a higher revision.
2. `Later.archived`: an archived flag stays as it is.
3. `Later.rulesets`, `Later.receipts`: rulesets and receipts are only added.
4. `Step.shows`, `Step.evaluates`: the response of a call and the store it leaves.
-/

namespace LensoFlags.Abstract

variable {codec : Codec} {rt : Runtime} {c c' c'' : Store codec}
  {e : Serial.Entry Call Draws Answer} {response : Response} {org flagKey environmentKey : String}

/-- The call takes effect, or is answered from its command row. -/
def Step (rt : Runtime) (e : Serial.Entry Call Draws Answer) (c c' : Store codec) : Prop :=
  ∃ σ : Stamp, attempt rt σ c e.call = .ok (e.value, c')

def Later (rt : Runtime) : Store codec → Store codec → Prop :=
  Relation.ReflTransGen fun c c' => ∃ e, Step rt e c c'

/-- The tables but for the commands are as the effect leaves them. -/
theorem Step.effect (h : Step rt e c c') :
    c' = c ∨ ∃ σ response c₁ rows, e.value = .fresh response ∧ Effect rt σ c e.call response c₁ ∧
      c' = { c₁ with commands := rows } := by
  obtain ⟨σ, hattempt⟩ := h
  rcases attempt_eq_ok hattempt with ⟨_, -, rfl, -⟩ | ⟨response, hvalue, -, hfresh⟩
  · exact .inl rfl
  · obtain ⟨c₁, stored, heffect, -, rfl⟩ := fresh_effect hfresh
    exact .inr ⟨σ, response, c₁, _, hvalue, heffect, rfl⟩

theorem Step.fresh (h : Step rt e c c') (hvalue : e.value = .fresh response) :
    ∃ σ c₁ rows, Effect rt σ c e.call response c₁ ∧ c' = { c₁ with commands := rows } := by
  obtain ⟨σ, hattempt⟩ := h
  rcases attempt_eq_ok hattempt with ⟨_, hreplayed, -⟩ | ⟨response', hfresh', -, hfresh⟩
  · rw [hvalue] at hreplayed
    cases hreplayed
  · rw [hvalue] at hfresh'
    cases hfresh'
    obtain ⟨c₁, stored, heffect, -, rfl⟩ := fresh_effect hfresh
    exact ⟨σ, c₁, _, heffect, rfl⟩

/-- A call of the log took effect, or was answered, between two stores of its run. -/
theorem Commits.landed {log : List (Serial.Entry Call Draws Answer)} (h : Commits rt log c)
    (he : e ∈ log) :
    ∃ older newer c₀ c₁, log = newer ++ e :: older ∧ Commits rt older c₀ ∧ Step rt e c₀ c₁ ∧
      Later rt c₁ c := by
  induction h with
  | nil => cases he
  | @cons older newest c c' σ hold hσ hattempt ih =>
    rcases List.mem_cons.mp he with rfl | he
    · exact ⟨older, [], c, c', rfl, hold, ⟨σ, hattempt⟩, .refl⟩
    · obtain ⟨older', newer, c₀, c₁, rfl, hold', hstep, hlater⟩ := ih he
      exact ⟨older', newest :: newer, c₀, c₁, rfl, hold', hstep,
        hlater.tail ⟨newest, σ, hattempt⟩⟩

/-! ## What stays -/

theorem Step.flag (h : Step rt e c c') {flag : Flag} (hflag : c.flag org flagKey = some flag) :
    ∃ flag', c'.flag org flagKey = some flag' ∧
      (flag' = flag ∨ flag.revision < flag'.revision) := by
  rcases h.effect with rfl | ⟨σ, response, c₁, rows, -, heffect, rfl⟩
  · exact ⟨flag, hflag, .inl rfl⟩
  · have hmove := heffect.flagMove org flagKey
    rw [hflag] at hmove
    change ∃ flag', c₁.flag org flagKey = some flag' ∧ _
    generalize c₁.flag org flagKey = after at hmove
    cases hmove with
    | kept => exact ⟨flag, rfl, .inl rfl⟩
    | raised _ _ hrevision => exact ⟨_, rfl, .inr (hrevision ▸ Int.lt_add_one_of_le (le_refl _))⟩

theorem Later.flag (h : Later rt c c') {flag : Flag} (hflag : c.flag org flagKey = some flag) :
    ∃ flag', c'.flag org flagKey = some flag' ∧
      (flag' = flag ∨ flag.revision < flag'.revision) := by
  induction h with
  | refl => exact ⟨flag, hflag, .inl rfl⟩
  | tail _ hstep ih =>
    obtain ⟨e, hstep⟩ := hstep
    obtain ⟨flag₁, hflag₁, hbefore⟩ := ih
    obtain ⟨flag', hflag', hafter⟩ := hstep.flag hflag₁
    refine ⟨flag', hflag', ?_⟩
    rcases hafter with rfl | hafter
    · exact hbefore
    · rcases hbefore with rfl | hbefore
      · exact .inr hafter
      · exact .inr (hbefore.trans hafter)

/-- Two versions of a flag, one after the other: they are equal, or the revision is higher. -/
theorem Later.version (h : Later rt c c') (hs : Sound rt c) (hs' : Sound rt c') {flag flag' : Flag}
    (hflag : flag ∈ c.flags) (hflag' : flag' ∈ c'.flags) (hkey : flag'.key = flag.key) :
    flag' = flag ∨ flag.revision < flag'.revision := by
  obtain ⟨found, hfound, hadvanced⟩ := h.flag (Table.lookup_of_mem hs.flagKeys hflag)
  have hsame := Table.lookup_of_mem hs'.flagKeys hflag'
  rw [hkey, show Table.lookup Flag.key flag.key c'.flags = some found from hfound,
    Option.some.injEq] at hsame
  rw [← hsame]
  exact hadvanced

theorem Later.archived (h : Later rt c c') {flag : Flag} (hflag : c.flag org flagKey = some flag)
    (harchived : flag.archived = true) : c'.flag org flagKey = some flag := by
  induction h with
  | refl => exact hflag
  | tail _ hstep ih =>
    obtain ⟨e, hstep⟩ := hstep
    rcases hstep.effect with rfl | ⟨σ, response, c₁, rows, -, heffect, rfl⟩
    · exact ih
    · exact (heffect.archived_frozen ih harchived).1

/-- The type of a flag and its row number stay. -/
theorem Later.persists (h : Later rt c c') {flag : Flag} (hflag : c.flag org flagKey = some flag) :
    ∃ flag', c'.flag org flagKey = some flag' ∧ flag'.valueType = flag.valueType ∧
      flag'.rowSeq = flag.rowSeq := by
  induction h with
  | refl => exact ⟨flag, hflag, rfl, rfl⟩
  | tail _ hstep ih =>
    obtain ⟨e, hstep⟩ := hstep
    obtain ⟨flag₁, hflag₁, htype, hseq⟩ := ih
    rcases hstep.effect with rfl | ⟨σ, response, c₁, rows, -, heffect, rfl⟩
    · exact ⟨flag₁, hflag₁, htype, hseq⟩
    · obtain ⟨flag', hflag', htype', hseq', -⟩ := heffect.flagChange.persists hflag₁
      exact ⟨flag', hflag', htype'.trans htype, hseq'.trans hseq⟩

theorem Later.rulesets (h : Later rt c c') (org flagKey environmentKey : String) :
    c.rulesetsOf org flagKey environmentKey <:+ c'.rulesetsOf org flagKey environmentKey := by
  induction h with
  | refl => exact List.suffix_refl _
  | @tail c₀ c' _ hstep ih =>
    obtain ⟨e, hstep⟩ := hstep
    refine ih.trans ?_
    rcases hstep.effect with rfl | ⟨σ, response, c₁, rows, -, heffect, rfl⟩
    · exact List.suffix_refl _
    · change _ <:+ c₁.rulesetsOf org flagKey environmentKey
      rcases heffect.rulesetMove org flagKey environmentKey with ⟨-, hsame⟩ | ⟨_, _, -, -, -, hmore⟩
      · rw [hsame]
      · rw [hmore]
        exact List.suffix_cons ..

theorem Later.receipts (h : Later rt c c') : c.receipts <:+ c'.receipts := by
  induction h with
  | refl => exact List.suffix_refl _
  | @tail c₀ c' _ hstep ih =>
    obtain ⟨e, hstep⟩ := hstep
    refine ih.trans ?_
    rcases hstep.effect with rfl | ⟨σ, response, c₁, rows, -, heffect, rfl⟩
    · exact List.suffix_refl _
    · have hreceipts := heffect.receiptChange
      change _ <:+ c₁.receipts
      generalize c₁.receipts = receipts at hreceipts
      cases hreceipts with
      | same => exact List.suffix_refl _
      | added => exact List.suffix_append ..

/-! ## What two calls expected -/

/-- Calls that took effect and expected the same revision are one call. -/
theorem Commits.contend {log : List (Serial.Entry Call Draws Answer)} (h : Commits rt log c)
    {e' : Serial.Entry Call Draws Answer} {response' : Response} (he : e ∈ log) (he' : e' ∈ log)
    (hvalue : e.value = .fresh response) (hvalue' : e'.value = .fresh response')
    (hcontend : Contend e.call.operation e'.call.operation) : e.call = e'.call := by
  have hsymm : Std.Symm fun entry older : Call × Response =>
      ¬Contend entry.1.operation older.1.operation := ⟨fun _ _ hnot h => hnot h.symm⟩
  by_contra hne
  exact h.run.not_contend.forall (mem_history he hvalue) (mem_history he' hvalue')
    (fun heq => hne (congrArg Prod.fst heq)) hcontend

/-! ## What a response tells -/

/-- The flag of a response is in the store the call leaves. -/
theorem Step.shows (h : Step rt e c c') {record : FlagRecord}
    (hvalue : e.value = .fresh (.flag record)) :
    ∃ flag ∈ c'.flags, flag.record = record := by
  obtain ⟨σ, c₁, rows, heffect, rfl⟩ := h.fresh hvalue
  change ∃ flag ∈ c₁.flags, flag.record = record
  cases heffect with
  | created => exact ⟨_, List.mem_cons_self, rfl⟩
  | updated _ hflag => exact ⟨_, Table.mem_of_lookup (flag_putFlag hflag rfl), rfl⟩
  | archived _ hflag => exact ⟨_, Table.mem_of_lookup (flag_putFlag hflag rfl), rfl⟩
  | evaluated hop _ hkind =>
    cases hoperation : e.call.operation <;> rw [hoperation] at hop hkind <;> cases hop <;>
      cases hkind

/-- An evaluation is from the newest ruleset. -/
theorem Step.evaluates (h : Step rt e c c') (hs : Sound rt c) (hvalue : e.value = .fresh response)
    {subject : Subject} {flagKeys : List String}
    (hop : Abstract.evaluates e.call.operation = some (subject, flagKeys)) :
    ∀ record ∈ response.records, record.flagKey ∈ flagKeys ∧
      record.environmentKey = subject.environmentKey ∧
      record.rulesetRevision = toString
        ((c'.rulesetsOf subject.organizationId record.flagKey subject.environmentKey).length : Int) := by
  intro record hrecord
  obtain ⟨σ, c₁, rows, heffect, rfl⟩ := h.fresh hvalue
  cases heffect with
  | @evaluated subject' flagKeys' results _ hop' hresults _ hrecords =>
    rw [hop] at hop'
    cases hop'
    rw [hrecords] at hrecord
    obtain ⟨result, hresult, rfl⟩ := List.mem_map.mp hrecord
    obtain ⟨at_, hat, heval⟩ := Table.exists_of_mem_right (evaluateFrom_eq_ok.mp hresults) hresult
    obtain ⟨variant, reason, revision, hchoose, rfl⟩ := heval.choice
    obtain ⟨_, ruleset, _, -, -, hlatest, -, -, -, rfl⟩ := choose_eq_ok hchoose
    have hmem : at_.1 ∈ flagKeys := by
      rw [← List.zipIdx_map_fst 0 flagKeys]
      exact List.mem_map_of_mem hat
    refine ⟨hmem, rfl, ?_⟩
    have hlength := published_eq_length hs.numbered subject.organizationId at_.1
      subject.environmentKey
    rw [Store.published, hlatest] at hlength
    exact congrArg toString hlength
  | _ hop' =>
    rw [hop'] at hop
    cases hop

/-! ## Receipts -/

/-- The receipts of an evaluation stay. -/
theorem Commits.evaluations {log : List (Serial.Entry Call Draws Answer)} (h : Commits rt log c)
    (he : e ∈ log) (hvalue : e.value = .fresh response) {subject : Subject}
    {flagKeys : List String}
    (hop : Abstract.evaluates e.call.operation = some (subject, flagKeys)) :
    ∃ older newer, ∃ c₀ : Store codec, ∃ σ results, log = newer ++ e :: older ∧
      Commits rt older c₀ ∧
      List.Forall₂ (Evaluated rt σ c₀ e.call.command e.call.operation.name subject)
        flagKeys.zipIdx results ∧
      response.records = results.map (·.1) ∧ ∀ result ∈ results, result.2 ∈ c.receipts := by
  obtain ⟨older, newer, c₀, c₁, hlog, hold, hstep, hlater⟩ := h.landed he
  obtain ⟨σ, c₂, rows, heffect, rfl⟩ := hstep.fresh hvalue
  cases heffect with
  | @evaluated subject' flagKeys' results _ hop' hresults _ hrecords =>
    rw [hop] at hop'
    cases hop'
    refine ⟨older, newer, c₀, σ, results, hlog, hold, evaluateFrom_eq_ok.mp hresults, hrecords,
      fun result hresult => hlater.receipts.mem ?_⟩
    exact List.mem_append_left _ (List.mem_reverse.mpr (List.mem_map_of_mem hresult))
  | _ hop' =>
    rw [hop'] at hop
    cases hop

/-- The receipt is of an evaluation of the log, at its position. -/
def Sourced (rt : Runtime) (codec : Codec) (log : List (Serial.Entry Call Draws Answer))
    (receipt : Receipt) : Prop :=
  ∃ older newer, ∃ e : Serial.Entry Call Draws Answer, ∃ c : Store codec, ∃ σ subject flagKeys at_
    record, log = newer ++ e :: older ∧ Commits rt older c ∧
    Abstract.evaluates e.call.operation = some (subject, flagKeys) ∧ at_ ∈ flagKeys.zipIdx ∧
    Evaluated rt σ c e.call.command e.call.operation.name subject at_ (record, receipt)

theorem Sourced.append {log : List (Serial.Entry Call Draws Answer)} {receipt : Receipt}
    (h : Sourced rt codec log receipt) (more : List (Serial.Entry Call Draws Answer)) :
    Sourced rt codec (more ++ log) receipt := by
  obtain ⟨older, newer, e, c, σ, subject, flagKeys, at_, record, rfl, hrest⟩ := h
  exact ⟨older, more ++ newer, e, c, σ, subject, flagKeys, at_, record,
    (List.append_assoc ..).symm, hrest⟩

/-- A call adds receipts of its evaluations. -/
theorem Commits.source {log : List (Serial.Entry Call Draws Answer)} (h : Commits rt log c)
    (hstep : Step rt e c c') {receipt : Receipt} (hreceipt : receipt ∈ c'.receipts) :
    receipt ∈ c.receipts ∨ Sourced rt codec (e :: log) receipt := by
  rcases hstep.effect with rfl | ⟨σ, response, c₁, rows, -, heffect, rfl⟩
  · exact .inl hreceipt
  · change receipt ∈ c₁.receipts at hreceipt
    cases heffect with
    | @evaluated subject flagKeys results _ hop hresults =>
      rcases List.mem_append.mp hreceipt with hnew | hold
      · obtain ⟨⟨record, _⟩, hresult, rfl⟩ := List.mem_map.mp (List.mem_reverse.mp hnew)
        obtain ⟨at_, hat, heval⟩ :=
          Table.exists_of_mem_right (evaluateFrom_eq_ok.mp hresults) hresult
        exact .inr ⟨log, [], e, c, σ, subject, flagKeys, at_, record, rfl, h, hop, hat, heval⟩
      · exact .inl hold
    | _ => exact .inl hreceipt

theorem Commits.sourced {log : List (Serial.Entry Call Draws Answer)} (h : Commits rt log c) :
    ∀ receipt ∈ c.receipts, Sourced rt codec log receipt := by
  induction h with
  | nil => exact fun _ hreceipt => absurd hreceipt List.not_mem_nil
  | @cons log e c c' σ hold _ hattempt ih =>
    intro receipt hreceipt
    rcases hold.source ⟨σ, hattempt⟩ hreceipt with hbefore | hsourced
    · exact (ih receipt hbefore).append [e]
    · exact hsourced

end LensoFlags.Abstract
