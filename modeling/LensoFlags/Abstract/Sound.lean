import LensoFlags.Abstract.Change

/-!
# Runs of the abstract store

The invariant that every effect keeps (`Sound`) and the stores that a history of effects leads to
(`Run`).

Results:
1. `FlagChange.persists`, `EnvironmentChange.persists`: rows are never removed, and what identifies
   them never changes.
2. `Sound.effect`: one effect keeps the invariant.
3. `Run.sound`: so does a history.
-/

namespace LensoFlags.Abstract

variable {codec : Codec} {rt : Runtime} {σ : Stamp} {c c' : Store codec} {call : Call}
  {response : Response} {org : String}

/-! ## Rows over a change -/

section Flags

variable {flags flags' : List Flag}

theorem FlagChange.persists (h : FlagChange σ org flags flags') {k : String × String} {flag : Flag}
    (hk : Table.lookup Flag.key k flags = some flag) :
    ∃ flag', Table.lookup Flag.key k flags' = some flag' ∧ flag'.valueType = flag.valueType ∧
      flag'.rowSeq = flag.rowSeq ∧ flag.revision ≤ flag'.revision := by
  cases h with
  | same => exact ⟨flag, hk, rfl, rfl, le_rfl⟩
  | @added new _ hnone =>
    have hne : new.key ≠ k := by
      rintro rfl
      rw [hnone] at hk
      cases hk
    exact ⟨flag, (Table.lookup_cons_of_ne _ hne).trans hk, rfl, rfl, le_rfl⟩
  | @bumped old new _ hold _ hkey hrev _ htype hseq _ =>
    by_cases hne : new.key = k
    · subst hne
      rw [← hkey] at hold
      rw [hold] at hk
      cases hk
      exact ⟨new, Table.lookup_replace_self hold, htype, hseq, by omega⟩
    · exact ⟨flag, (Table.lookup_replace_of_ne _ hne).trans hk, rfl, rfl, le_rfl⟩

/-- The row numbers stay unique. -/
theorem FlagChange.seqs_nodup (h : FlagChange σ org flags flags') (hn : (flags.map Flag.key).Nodup)
    (hseqs : (flags.map Flag.rowSeq).Nodup) (hσ : ∀ flag ∈ flags, flag.rowSeq ≠ σ.rowSeq) :
    (flags'.map Flag.rowSeq).Nodup := by
  cases h with
  | same => exact hseqs
  | added _ _ _ _ _ hseq =>
    rw [List.map_cons, List.nodup_cons]
    refine ⟨fun hm => ?_, hseqs⟩
    obtain ⟨flag, hflag, heq⟩ := List.mem_map.mp hm
    exact hσ flag hflag (heq.trans hseq)
  | bumped _ hold _ hkey _ _ _ hseq _ =>
    rwa [Table.map_replace hn (hkey ▸ hold) hseq]

theorem FlagChange.nodup (h : FlagChange σ org flags flags') (hn : (flags.map Flag.key).Nodup) :
    (flags'.map Flag.key).Nodup := by
  cases h with
  | same => exact hn
  | added _ hnone => exact Table.nodup_cons_of_lookup hn hnone
  | bumped => rwa [Table.keys_replace]

/-- What holds of a first revision and is kept by the next one holds of every flag. -/
theorem FlagChange.forall {P : Flag → Prop} (h : FlagChange σ org flags flags')
    (hadded : ∀ flag : Flag, flag.revision = 1 → flag.archived = false → flag.archivedAt = none →
      flag.rowSeq = σ.rowSeq → P flag)
    (hbumped : ∀ flag flag' : Flag, P flag → flag'.revision = flag.revision + 1 →
      flag.revision + 1 ≤ Decimal.i64Max → flag'.rowSeq = flag.rowSeq →
      (flag.archivedAt.isSome = flag.archived → flag'.archivedAt.isSome = flag'.archived) → P flag')
    (hall : ∀ flag ∈ flags, P flag) : ∀ flag ∈ flags', P flag := by
  intro flag hflag
  cases h with
  | same => exact hall flag hflag
  | added _ _ hrev harchived hat hseq =>
    rcases List.mem_cons.mp hflag with rfl | hflag
    · exact hadded flag hrev harchived hat hseq
    · exact hall flag hflag
  | @bumped old new _ hold _ _ hrev hroom _ hseq hlife =>
    rcases Table.mem_replace hflag with rfl | ⟨hflag, -⟩
    · exact hbumped old _ (hall old (Table.mem_of_lookup hold)) hrev hroom hseq hlife
    · exact hall flag hflag

end Flags

section Environments

variable {environments environments' : List Environment}

theorem EnvironmentChange.persists (h : EnvironmentChange org environments environments')
    {k : String × String} {environment : Environment}
    (hk : Table.lookup Environment.key k environments = some environment) :
    ∃ environment', Table.lookup Environment.key k environments' = some environment' ∧
      environment.revision ≤ environment'.revision := by
  cases h with
  | same => exact ⟨environment, hk, le_rfl⟩
  | @added new _ hnone =>
    have hne : new.key ≠ k := by
      rintro rfl
      rw [hnone] at hk
      cases hk
    exact ⟨environment, (Table.lookup_cons_of_ne _ hne).trans hk, le_rfl⟩
  | @bumped old new _ hold hkey hrev _ =>
    by_cases hne : new.key = k
    · subst hne
      rw [← hkey] at hold
      rw [hold] at hk
      cases hk
      exact ⟨new, Table.lookup_replace_self hold, by omega⟩
    · exact ⟨environment, (Table.lookup_replace_of_ne _ hne).trans hk, le_rfl⟩

theorem EnvironmentChange.nodup (h : EnvironmentChange org environments environments')
    (hn : (environments.map Environment.key).Nodup) :
    (environments'.map Environment.key).Nodup := by
  cases h with
  | same => exact hn
  | added _ hnone => exact Table.nodup_cons_of_lookup hn hnone
  | bumped => rwa [Table.keys_replace]

theorem EnvironmentChange.forall {P : Environment → Prop}
    (h : EnvironmentChange org environments environments')
    (hadded : ∀ environment : Environment, environment.revision = 1 → P environment)
    (hbumped : ∀ environment environment' : Environment, P environment →
      environment'.revision = environment.revision + 1 →
      environment.revision + 1 ≤ Decimal.i64Max → P environment')
    (hall : ∀ environment ∈ environments, P environment) :
    ∀ environment ∈ environments', P environment := by
  intro environment henv
  cases h with
  | same => exact hall environment henv
  | added _ _ hrev =>
    rcases List.mem_cons.mp henv with rfl | henv
    · exact hadded environment hrev
    · exact hall environment henv
  | @bumped old new _ hold _ hrev hroom =>
    rcases Table.mem_replace henv with rfl | ⟨henv, -⟩
    · exact hbumped old _ (hall old (Table.mem_of_lookup hold)) hrev hroom
    · exact hall environment henv

end Environments

/-! ## Ruleset revisions -/

/-- The revisions `n, …, 1`. -/
def countdown : ℕ → List Int
  | 0 => []
  | n + 1 => (n + 1 : Int) :: countdown n

/-- Newest first, the rulesets of a triple have the revisions `n, …, 1`. -/
def Numbered (rulesets : List (Ruleset codec)) : Prop :=
  ∀ triple, ((rulesets.filter fun ruleset => ruleset.triple = triple).map (·.revision)) =
    countdown (rulesets.filter fun ruleset => ruleset.triple = triple).length

theorem published_eq_length (h : Numbered c.rulesets) (org flagKey environmentKey : String) :
    c.published org flagKey environmentKey = (c.rulesetsOf org flagKey environmentKey).length := by
  have hnum : (c.rulesetsOf org flagKey environmentKey).map (·.revision) =
      countdown (c.rulesetsOf org flagKey environmentKey).length := h (org, flagKey, environmentKey)
  rw [Store.published, Store.latest]
  cases hl : c.rulesetsOf org flagKey environmentKey with
  | nil => rfl
  | cons ruleset rest =>
    rw [hl, List.map_cons, List.length_cons, countdown] at hnum
    simp [(List.cons.inj hnum).1]

theorem mem_countdown {n : ℕ} {r : Int} (h : r ∈ countdown n) : 0 < r ∧ r ≤ n := by
  induction n with
  | zero => cases h
  | succ n ih =>
    rcases List.mem_cons.mp h with rfl | h
    · omega
    · have := ih h
      omega

theorem countdown_pairwise (n : ℕ) : (countdown n).Pairwise fun a b => b < a := by
  induction n with
  | zero => exact .nil
  | succ n ih =>
    refine .cons (fun r hr => ?_) ih
    have := (mem_countdown hr).2
    omega

theorem countdown_max (n : ℕ) (a : Int) : (countdown n).foldl max a = max a n ∨ n = 0 := by
  induction n generalizing a with
  | zero => exact .inr rfl
  | succ n ih =>
    left
    rw [countdown, List.foldl_cons]
    rcases ih (max a (n + 1)) with h | rfl
    · rw [h]
      push_cast
      omega
    · rfl

theorem RulesetChange.numbered {rulesets' : List (Ruleset codec)}
    (h : RulesetChange rt org c rulesets') (hn : Numbered c.rulesets) : Numbered rulesets' := by
  cases h with
  | same => exact hn
  | @added ruleset _ _ horg _ _ hrev =>
    intro triple
    by_cases ht : ruleset.triple = triple
    · rw [List.filter_cons_of_pos (by simpa using ht), List.map_cons, List.length_cons, countdown,
        hn triple, hrev, published_eq_length hn, Store.rulesetsOf, ← ht, ← horg]
      rfl
    · rw [List.filter_cons_of_neg (by simpa using ht)]
      exact hn triple

/-! ## Stamps -/

/-- The receipt ids of the stamp are new, and one for each position. -/
structure Stamp.FreshIds (σ : Stamp) (c : Store codec) : Prop where
  unused : ∀ i, ∀ receipt ∈ c.receipts, receipt.receiptId ≠ (σ.evaluation i).receiptId
  distinct : ∀ i j, (σ.evaluation i).receiptId = (σ.evaluation j).receiptId → i = j

/-- So are its row numbers, which are positive. -/
structure Stamp.FreshSeqs (σ : Stamp) (c : Store codec) : Prop where
  flagSeq : 0 < σ.rowSeq ∧ ∀ flag ∈ c.flags, flag.rowSeq ≠ σ.rowSeq
  receiptSeq : ∀ i, 0 < (σ.evaluation i).rowSeq ∧
    ∀ receipt ∈ c.receipts, receipt.rowSeq ≠ (σ.evaluation i).rowSeq
  receiptSeqs : ∀ i j, (σ.evaluation i).rowSeq = (σ.evaluation j).rowSeq → i = j

structure Stamp.Fresh (σ : Stamp) (c : Store codec) : Prop extends σ.FreshIds c, σ.FreshSeqs c

/-! ## Evaluation identifiers -/

theorem evaluationId_inj {operation key key' : String} {i j : ℕ}
    (h : evaluationId operation key i = evaluationId operation key' j) :
    key = key' ∧ (operation ≠ "evaluate" → i = j) := by
  unfold evaluationId at h
  by_cases hop : operation = "evaluate"
  · rw [if_pos hop, if_pos hop] at h
    exact ⟨h, fun hne => absurd hop hne⟩
  · rw [if_neg hop, if_neg hop] at h
    obtain ⟨hkey, hindex⟩ := Decimal.tag_inj h
    exact ⟨hkey, fun _ => hindex⟩

/-- A single evaluation has one flag. -/
theorem evaluates_single {operation : Operation} {subject : Subject} {flagKeys : List String}
    (h : evaluates operation = some (subject, flagKeys)) (hname : operation.name = "evaluate") :
    flagKeys.length = 1 := by
  cases operation with
  | evaluate => cases h; rfl
  | evaluateBatch => exact absurd hname (show "evaluate_batch" ≠ "evaluate" by decide)
  | _ => cases h

/-- The receipt belongs to a command row, at some position. -/
def Admitted (commands : List (CommandRow codec)) (receipt : Receipt) : Prop :=
  ∃ row ∈ commands, ∃ i, row.key.caller = receipt.caller ∧ row.key.actor = receipt.actor ∧
    row.key.operation = receipt.operation ∧
    receipt.evaluationId = evaluationId receipt.operation row.key.key i

/-! ## The invariant -/

structure Sound (rt : Runtime) (c : Store codec) : Prop where
  flagKeys : (c.flags.map Flag.key).Nodup
  environmentKeys : (c.environments.map Environment.key).Nodup
  commandKeys : (c.commands.map CommandRow.key).Nodup
  receiptIds : (c.receipts.map Receipt.receiptId).Nodup
  evaluationKeys : (c.receipts.map Receipt.evaluationKey).Nodup
  flagSeqs : (c.flags.map Flag.rowSeq).Nodup
  receiptSeqs : (c.receipts.map Receipt.rowSeq).Nodup
  flagPositive : ∀ flag ∈ c.flags, 0 < flag.rowSeq
  receiptPositive : ∀ receipt ∈ c.receipts, 0 < receipt.rowSeq
  flagRange : ∀ flag ∈ c.flags, 0 < flag.revision ∧ flag.revision ≤ Decimal.i64Max
  environmentRange : ∀ environment ∈ c.environments,
    0 < environment.revision ∧ environment.revision ≤ Decimal.i64Max
  rulesetRange : ∀ ruleset ∈ c.rulesets, ruleset.revision ≤ Decimal.i64Max
  numbered : Numbered c.rulesets
  /-- A flag is archived exactly when it carries the time of it. -/
  lifecycle : ∀ flag ∈ c.flags, flag.archivedAt.isSome = flag.archived
  /-- A stored ruleset is the document of a definition valid for its flag. -/
  typed : ∀ ruleset ∈ c.rulesets, ∃ flag definition,
    c.flag ruleset.organizationId ruleset.flagKey = some flag ∧
      codec.encodeDefinition definition = some ruleset.definition ∧
      validateRuleset rt flag.valueType definition = .ok ()
  placed : ∀ ruleset ∈ c.rulesets,
    (c.environment ruleset.organizationId ruleset.environmentKey).isSome
  admitted : ∀ receipt ∈ c.receipts, Admitted c.commands receipt
  /-- A stored response is the document of a response of its operation. -/
  answered : ∀ row ∈ c.commands, ∃ operation response, row.key.operation = Operation.name operation ∧
    Response.kind response = operation.kind ∧ encodeResponse codec response = some row.response

theorem Sound.empty : Sound rt (Store.empty : Store codec) where
  flagKeys := List.nodup_nil
  environmentKeys := List.nodup_nil
  commandKeys := List.nodup_nil
  receiptIds := List.nodup_nil
  evaluationKeys := List.nodup_nil
  flagSeqs := List.nodup_nil
  receiptSeqs := List.nodup_nil
  flagPositive := nofun
  receiptPositive := nofun
  flagRange := nofun
  environmentRange := nofun
  rulesetRange := nofun
  numbered := fun _ => rfl
  lifecycle := nofun
  typed := nofun
  placed := nofun
  admitted := nofun
  answered := nofun

theorem mem_rulesetsOf {org flagKey environmentKey : String} {ruleset : Ruleset codec}
    (h : ruleset ∈ c.rulesetsOf org flagKey environmentKey) :
    ruleset ∈ c.rulesets ∧ ruleset.triple = (org, flagKey, environmentKey) := by
  simpa [Store.rulesetsOf] using h

/-- The revisions of a triple lie between 1 and the newest one. -/
theorem Numbered.revision_le (hn : Numbered c.rulesets) {org flagKey environmentKey : String}
    {ruleset : Ruleset codec} (h : ruleset ∈ c.rulesetsOf org flagKey environmentKey) :
    0 < ruleset.revision ∧ ruleset.revision ≤ c.published org flagKey environmentKey := by
  have hmem := List.mem_map_of_mem (f := fun r : Ruleset codec => r.revision) h
  rw [Store.rulesetsOf, hn (org, flagKey, environmentKey)] at hmem
  rw [published_eq_length hn]
  exact mem_countdown hmem

theorem latest_mem {org flagKey environmentKey : String} {ruleset : Ruleset codec}
    (h : c.latest org flagKey environmentKey = some ruleset) :
    ruleset ∈ c.rulesetsOf org flagKey environmentKey :=
  List.mem_of_head? h

theorem Sound.latest_range (hs : Sound rt c) {org flagKey environmentKey : String}
    {ruleset : Ruleset codec} (h : c.latest org flagKey environmentKey = some ruleset) :
    0 < ruleset.revision ∧ ruleset.revision ≤ Decimal.i64Max :=
  ⟨(hs.numbered.revision_le (latest_mem h)).1,
    hs.rulesetRange ruleset (mem_rulesetsOf (latest_mem h)).1⟩

/-- A command that was not made before has no receipts. -/
theorem Sound.unclaimed (hs : Sound rt c) {key : CommandKey} (hnew : c.command key = none)
    {receipt : Receipt} (hreceipt : receipt ∈ c.receipts) (i : ℕ) (flagKey : String) :
    receipt.evaluationKey ≠ ⟨key.caller, key.actor, key.operation,
      evaluationId key.operation key.key i, flagKey⟩ := by
  intro heq
  obtain ⟨row, hrow, j, hcaller, hactor, hoperation, hid⟩ := hs.admitted receipt hreceipt
  obtain ⟨hcaller', hactor', hoperation', hid', -⟩ := EvaluationKey.mk.inj heq
  rw [hid, hoperation'] at hid'
  refine Table.lookup_eq_none.mp hnew row hrow (CommandKey.ext ?_ ?_ ?_ (evaluationId_inj hid').1)
  · exact hcaller.trans hcaller'
  · exact hactor.trans hactor'
  · exact hoperation.trans hoperation'

/-! ## New receipts -/

/-- The receipt of an evaluation at position `i`. -/
theorem Evaluated.receipt {command : Command} {operation : String} {subject : Subject}
    {at_ : String × ℕ} {result : EvaluationRecord × Receipt}
    (h : Evaluated rt σ c command operation subject at_ result) :
    result.2.receiptId = (σ.evaluation at_.2).receiptId ∧
      result.2.rowSeq = (σ.evaluation at_.2).rowSeq ∧
      result.2.evaluationKey = ⟨command.caller, command.actor, operation,
        evaluationId operation command.key at_.2, at_.1⟩ := by
  obtain ⟨variant, reason, revision, -, rfl⟩ := h.choice
  exact ⟨rfl, rfl, rfl⟩

section Receipts

variable {command : Command} {operation : String} {subject : Subject} {n : ℕ}
  {flagKeys : List String} {results : List (EvaluationRecord × Receipt)}

/-- Every new receipt has a position of its own. -/
theorem mem_receipts (h : List.Forall₂ (Evaluated rt σ c command operation subject)
    (flagKeys.zipIdx n) results) {receipt : Receipt} (hm : receipt ∈ results.map (·.2)) :
    ∃ flagKey i, n ≤ i ∧ i < n + flagKeys.length ∧
      receipt.receiptId = (σ.evaluation i).receiptId ∧
      receipt.rowSeq = (σ.evaluation i).rowSeq ∧
      receipt.evaluationKey = ⟨command.caller, command.actor, operation,
        evaluationId operation command.key i, flagKey⟩ := by
  obtain ⟨result, hresult, rfl⟩ := List.mem_map.mp hm
  obtain ⟨⟨flagKey, i⟩, hi, heval⟩ := Table.exists_of_mem_right h hresult
  obtain ⟨hle, hlt, -⟩ := List.mem_zipIdx hi
  exact ⟨flagKey, i, hle, by omega, heval.receipt⟩

/-- The positions go up. -/
theorem positions_ascend (flagKeys : List String) (n : ℕ) :
    (flagKeys.zipIdx n).Pairwise fun a b => a.2 < b.2 := by
  rw [← List.pairwise_map, List.zipIdx_map_snd]
  exact List.pairwise_lt_range'

/-- A column that comes from the positions is unique. -/
theorem positions_nodup {α : Type} (column : Receipt → α) (stamped : EvaluationStamp → α)
    (h : List.Forall₂ (Evaluated rt σ c command operation subject) (flagKeys.zipIdx n) results)
    (hcolumn : ∀ {at_ : String × ℕ} {result : EvaluationRecord × Receipt},
      Evaluated rt σ c command operation subject at_ result →
        column result.2 = stamped (σ.evaluation at_.2))
    (hinj : ∀ i j, stamped (σ.evaluation i) = stamped (σ.evaluation j) → i = j) :
    ((results.map (·.2)).map column).Nodup := by
  rw [List.map_map, List.Nodup, List.pairwise_map]
  refine Table.pairwise_of_forall₂ h (positions_ascend flagKeys n)
    fun a a' b b' hlt hb hb' heq => ?_
  rw [Function.comp_apply, Function.comp_apply, hcolumn hb, hcolumn hb'] at heq
  exact hlt.ne (hinj _ _ heq)

theorem evaluationKeys_nodup (h : List.Forall₂ (Evaluated rt σ c command operation subject)
    (flagKeys.zipIdx n) results) (hone : operation = "evaluate" → flagKeys.length ≤ 1) :
    ((results.map (·.2)).map Receipt.evaluationKey).Nodup := by
  -- The identifiers of a batch carry their position; a single evaluation has one receipt.
  have hbatch : (flagKeys.zipIdx n).Pairwise fun a b => a.2 < b.2 ∧ operation ≠ "evaluate" := by
    by_cases hop : operation = "evaluate"
    · rcases flagKeys with _ | ⟨flagKey, _ | ⟨flagKey', rest⟩⟩
      · exact .nil
      · exact List.pairwise_singleton ..
      · have hlength := hone hop
        simp at hlength
    · exact (positions_ascend flagKeys n).imp fun hlt => ⟨hlt, hop⟩
  rw [List.map_map, List.Nodup, List.pairwise_map]
  refine Table.pairwise_of_forall₂ h hbatch fun a a' b b' hab hb hb' heq => ?_
  rw [Function.comp_apply, Function.comp_apply, hb.receipt.2.2, hb'.receipt.2.2] at heq
  obtain ⟨-, hpos⟩ := evaluationId_inj (EvaluationKey.mk.inj heq).2.2.2.1
  exact hab.1.ne (hpos hab.2)

end Receipts

/-! ## One effect -/

theorem Sound.effect (hs : Sound rt c) (hσ : σ.Fresh c) (hnew : c.command call.commandKey = none)
    (h : Effect rt σ c call response c') {stored : Stored codec}
    (hstored : encodeResponse codec response = some stored) :
    Sound rt { c' with
      commands := ⟨call.commandKey, call.command.hash, stored⟩ :: c'.commands } := by
  have hflags := h.flagChange
  have henvs := h.environmentChange
  have hrulesets := h.rulesetChange
  refine
    { flagKeys := hflags.nodup hs.flagKeys
      environmentKeys := henvs.nodup hs.environmentKeys
      commandKeys := ?commandKeys
      receiptIds := ?receiptIds
      evaluationKeys := ?evaluationKeys
      flagSeqs := hflags.seqs_nodup hs.flagKeys hs.flagSeqs hσ.flagSeq.2
      receiptSeqs := ?receiptSeqs
      flagPositive := ?flagPositive
      receiptPositive := ?receiptPositive
      flagRange := ?flagRange
      environmentRange := ?environmentRange
      rulesetRange := ?rulesetRange
      numbered := hrulesets.numbered hs.numbered
      lifecycle := ?lifecycle
      typed := ?typed
      placed := ?placed
      admitted := ?admitted
      answered := ?answered }
  case commandKeys =>
    rw [h.commands]
    exact Table.nodup_cons_of_lookup hs.commandKeys hnew
  case flagRange =>
    exact hflags.forall (fun flag hrev _ _ _ => by rw [hrev]; decide)
      (fun flag flag' hflag hrev hroom _ _ => by omega) hs.flagRange
  case environmentRange =>
    exact henvs.forall (fun environment hrev => by rw [hrev]; decide)
      (fun environment environment' henv hrev hroom => by omega) hs.environmentRange
  case flagPositive =>
    exact hflags.forall (fun flag _ _ _ hseq => by rw [hseq]; exact hσ.flagSeq.1)
      (fun flag flag' hflag _ _ hseq _ => by rw [hseq]; exact hflag) hs.flagPositive
  case receiptPositive =>
    have hreceipts := h.receiptChange
    intro receipt hm
    generalize c'.receipts = receipts' at hreceipts hm
    cases hreceipts with
    | same => exact hs.receiptPositive receipt hm
    | added _ hresults =>
      rcases List.mem_append.mp hm with hm | hm
      · obtain ⟨-, i, -, -, -, hi, -⟩ := mem_receipts hresults (List.mem_reverse.mp hm)
        rw [hi]
        exact (hσ.receiptSeq i).1
      · exact hs.receiptPositive receipt hm
  case receiptSeqs =>
    have hreceipts := h.receiptChange
    generalize c'.receipts = receipts' at hreceipts
    cases hreceipts with
    | same => exact hs.receiptSeqs
    | added _ hresults =>
      rw [List.map_append, List.map_reverse, List.nodup_append]
      refine ⟨List.nodup_reverse.mpr (positions_nodup Receipt.rowSeq EvaluationStamp.rowSeq hresults
        (fun heval => heval.receipt.2.1) hσ.receiptSeqs), hs.receiptSeqs, ?_⟩
      rintro _ hnew _ hold rfl
      obtain ⟨receipt, hreceipt, hseq⟩ := List.mem_map.mp (List.mem_reverse.mp hnew)
      obtain ⟨receipt', hreceipt', hseq'⟩ := List.mem_map.mp hold
      obtain ⟨-, i, -, -, -, hi, -⟩ := mem_receipts hresults hreceipt
      exact (hσ.receiptSeq i).2 receipt' hreceipt' (by rw [hseq', ← hseq, hi])
  case lifecycle =>
    exact hflags.forall (fun flag _ harchived hat _ => by rw [harchived, hat]; rfl)
      (fun flag flag' hflag _ _ _ hlife => hlife hflag) hs.lifecycle
  case rulesetRange =>
    intro ruleset hm
    generalize c'.rulesets = rulesets' at hrulesets hm
    cases hrulesets with
    | same => exact hs.rulesetRange ruleset hm
    | added _ _ _ _ hroom =>
      rcases List.mem_cons.mp hm with rfl | hm
      · exact hroom
      · exact hs.rulesetRange ruleset hm
  case typed =>
    intro ruleset hm
    have hold : ∀ ruleset ∈ c.rulesets, ∃ flag definition,
        c'.flag ruleset.organizationId ruleset.flagKey = some flag ∧
          codec.encodeDefinition definition = some ruleset.definition ∧
          validateRuleset rt flag.valueType definition = .ok () := by
      intro ruleset hm
      obtain ⟨flag, definition, hflag, hdoc, hvalid⟩ := hs.typed ruleset hm
      obtain ⟨flag', hflag', htype, -, -⟩ := hflags.persists hflag
      exact ⟨flag', definition, hflag', hdoc, by rw [htype]; exact hvalid⟩
    generalize c'.rulesets = rulesets' at hrulesets hm
    cases hrulesets with
    | same => exact hold ruleset hm
    | added horg hflag _ _ _ hdoc hvalid =>
      rcases List.mem_cons.mp hm with rfl | hm
      · obtain ⟨flag', hflag', htype, -, -⟩ := hflags.persists hflag
        exact ⟨flag', _, by rw [horg]; exact hflag', hdoc, by rw [htype]; exact hvalid⟩
      · exact hold ruleset hm
  case placed =>
    intro ruleset hm
    have hold : ∀ {org key : String}, (c.environment org key).isSome →
        (c'.environment org key).isSome := by
      intro org key hsome
      obtain ⟨environment, henv⟩ := Option.isSome_iff_exists.mp hsome
      obtain ⟨environment', henv', -⟩ := henvs.persists henv
      exact Option.isSome_iff_exists.mpr ⟨environment', henv'⟩
    generalize c'.rulesets = rulesets' at hrulesets hm
    cases hrulesets with
    | same => exact hold (hs.placed ruleset hm)
    | added horg _ henv =>
      rcases List.mem_cons.mp hm with rfl | hm
      · exact hold (by rw [horg]; exact henv)
      · exact hold (hs.placed ruleset hm)
  case answered =>
    intro row hm
    rw [h.commands] at hm
    rcases List.mem_cons.mp hm with rfl | hm
    · exact ⟨call.operation, response, rfl, h.kind, hstored⟩
    · exact hs.answered row hm
  case admitted =>
    have hreceipts := h.receiptChange
    rw [h.commands]
    have hold : ∀ receipt ∈ c.receipts,
        Admitted (⟨call.commandKey, call.command.hash, stored⟩ :: c.commands) receipt := by
      intro receipt hm
      obtain ⟨row, hrow, hrest⟩ := hs.admitted receipt hm
      exact ⟨row, List.mem_cons_of_mem _ hrow, hrest⟩
    intro receipt hm
    generalize c'.receipts = receipts' at hreceipts hm
    cases hreceipts with
    | same => exact hold receipt hm
    | added _ hresults =>
      rcases List.mem_append.mp hm with hm | hm
      · obtain ⟨flagKey, i, -, -, -, -, hkey⟩ := mem_receipts hresults (List.mem_reverse.mp hm)
        obtain ⟨hcaller, hactor, hop, hid, -⟩ := EvaluationKey.mk.inj hkey
        exact ⟨_, List.mem_cons_self, i, hcaller.symm, hactor.symm, hop.symm, by rw [hid, hop]; rfl⟩
      · exact hold receipt hm
  case receiptIds =>
    have hreceipts := h.receiptChange
    generalize c'.receipts = receipts' at hreceipts
    cases hreceipts with
    | same => exact hs.receiptIds
    | added _ hresults =>
      rw [List.map_append, List.map_reverse, List.nodup_append]
      refine ⟨List.nodup_reverse.mpr (positions_nodup Receipt.receiptId EvaluationStamp.receiptId
        hresults (fun heval => heval.receipt.1) hσ.distinct), hs.receiptIds, ?_⟩
      rintro _ hnew _ hold rfl
      obtain ⟨receipt, hreceipt, hid⟩ := List.mem_map.mp (List.mem_reverse.mp hnew)
      obtain ⟨receipt', hreceipt', hid'⟩ := List.mem_map.mp hold
      obtain ⟨-, i, -, -, hi, -⟩ := mem_receipts hresults hreceipt
      exact hσ.unused i receipt' hreceipt' (by rw [hid', ← hid, hi])
  case evaluationKeys =>
    have hreceipts := h.receiptChange
    generalize c'.receipts = receipts' at hreceipts
    cases hreceipts with
    | same => exact hs.evaluationKeys
    | @added subject flagKeys results hop hresults =>
      rw [List.map_append, List.map_reverse, List.nodup_append]
      refine ⟨List.nodup_reverse.mpr (evaluationKeys_nodup hresults fun hname =>
        (evaluates_single hop hname).le), hs.evaluationKeys, ?_⟩
      -- An older receipt with the same identifier would belong to a row of this very command.
      rintro _ hnewKey _ holdKey rfl
      obtain ⟨receipt, hreceipt, hkey⟩ := List.mem_map.mp (List.mem_reverse.mp hnewKey)
      obtain ⟨receipt', hreceipt', hkey'⟩ := List.mem_map.mp holdKey
      obtain ⟨flagKey, i, -, -, -, -, hi⟩ := mem_receipts hresults hreceipt
      exact hs.unclaimed hnew hreceipt' i flagKey (by rw [hkey', ← hkey, hi]; rfl)

/-! ## Runs -/

/-- The stores a history leads to: each call (newest first) was new and took effect with its
response. -/
inductive Run (rt : Runtime) : List (Call × Response) → Store codec → Prop
  | nil : Run rt [] Store.empty
  | cons {history : List (Call × Response)} {c c' : Store codec} {σ : Stamp} {call : Call}
      {response : Response} :
      Run rt history c → σ.Fresh c → c.command call.commandKey = none →
      fresh rt σ c call = .ok (response, c') → Run rt ((call, response) :: history) c'

theorem Run.sound {history : List (Call × Response)} (h : Run rt history c) : Sound rt c := by
  induction h with
  | nil => exact .empty
  | cons _ hσ hnew hfresh ih =>
    obtain ⟨c₁, stored, heffect, hstored, rfl⟩ := fresh_effect hfresh
    exact ih.effect hσ hnew heffect hstored

theorem fresh_commands (h : fresh rt σ c call = .ok (response, c')) :
    ∃ stored, encodeResponse codec response = some stored ∧
      c'.commands = ⟨call.commandKey, call.command.hash, stored⟩ :: c.commands := by
  obtain ⟨c₁, stored, heffect, hstored, rfl⟩ := fresh_effect h
  exact ⟨stored, hstored, by rw [heffect.commands]⟩

/-- The command rows are those of the history. -/
theorem Run.commandKeys {history : List (Call × Response)} (h : Run rt history c) :
    c.commands.map CommandRow.key = history.map fun entry => entry.1.commandKey := by
  induction h with
  | nil => rfl
  | cons _ _ _ hfresh ih =>
    obtain ⟨stored, -, hcommands⟩ := fresh_commands hfresh
    rw [hcommands, List.map_cons, List.map_cons, ih]

/-! ## Logs -/

/-- An attempt that returns either found the response or took effect as a new call. -/
theorem attempt_eq_ok {answer : Answer} (h : attempt rt σ c call = .ok (answer, c')) :
    (∃ response, answer = .replayed response ∧ c' = c ∧ replay c call = .ok (some response)) ∨
      ∃ response, answer = .fresh response ∧ c.command call.commandKey = none ∧
        fresh rt σ c call = .ok (response, c') := by
  simp only [attempt, bind_eq_ok] at h
  obtain ⟨found, hreplay, h⟩ := h
  cases found with
  | some response =>
    cases h
    exact .inl ⟨response, rfl, rfl, hreplay⟩
  | none =>
    obtain ⟨⟨response, c₁⟩, hfresh, h⟩ := bind_eq_ok.mp h
    cases h
    refine .inr ⟨response, rfl, ?_, hfresh⟩
    cases hrow : c.command call.commandKey with
    | none => rfl
    | some row =>
      simp only [replay, hrow] at hreplay
      split at hreplay
      · cases hreplay
      · cases hdecode : decodeResponse codec call.operation.kind row.response with
        | none => rw [hdecode] at hreplay; cases hreplay
        | some response => rw [hdecode] at hreplay; cases hreplay

/-- A call returned the answer between the two stores. -/
def Took (rt : Runtime) (call : Call) (answer : Answer) (c c' : Store codec) : Prop :=
  ∃ σ : Stamp, σ.Fresh c ∧ attempt rt σ c call = .ok (answer, c')

theorem Took.cases {answer : Answer} (h : Took rt call answer c c') :
    (∃ response, answer = .replayed response ∧ c' = c) ∨
      ∃ (response : Response) (σ : Stamp) (c₁ : Store codec) (stored : Stored codec),
        answer = .fresh response ∧ σ.Fresh c ∧ c.command call.commandKey = none ∧
        Effect rt σ c call response c₁ ∧ encodeResponse codec response = some stored ∧
        c' = { c₁ with
          commands := ⟨call.commandKey, call.command.hash, stored⟩ :: c₁.commands } := by
  obtain ⟨σ, hσ, hattempt⟩ := h
  rcases attempt_eq_ok hattempt with ⟨response, hvalue, hsame, -⟩ | ⟨response, hvalue, hnew, hfresh⟩
  · exact .inl ⟨response, hvalue, hsame⟩
  · obtain ⟨c₁, stored, heffect, hstored, hc'⟩ := fresh_effect hfresh
    exact .inr ⟨response, σ, c₁, stored, hvalue, hσ, hnew, heffect, hstored, hc'⟩

/-- The stores a log leads to: each call (newest first) returned its value there. -/
inductive Commits (rt : Runtime) : List (Serial.Entry Call Draws Answer) → Store codec → Prop
  | nil : Commits rt [] Store.empty
  | cons {log : List (Serial.Entry Call Draws Answer)} {e : Serial.Entry Call Draws Answer}
      {c c' : Store codec} {σ : Stamp} :
      Commits rt log c → σ.Fresh c → attempt rt σ c e.call = .ok (e.value, c') →
      Commits rt (e :: log) c'

theorem history_cons_replayed {e : Serial.Entry Call Draws Answer} {response : Response}
    (h : e.value = .replayed response) (log : List (Serial.Entry Call Draws Answer)) :
    LensoFlags.history (e :: log) = LensoFlags.history log := by
  simp [LensoFlags.history, h]

theorem history_cons_fresh {e : Serial.Entry Call Draws Answer} {response : Response}
    (h : e.value = .fresh response) (log : List (Serial.Entry Call Draws Answer)) :
    LensoFlags.history (e :: log) = (e.call, response) :: LensoFlags.history log := by
  simp [LensoFlags.history, h]

/-- The calls of a log that were new are a history. -/
theorem Commits.run {log : List (Serial.Entry Call Draws Answer)} (h : Commits rt log c) :
    Run rt (LensoFlags.history log) c := by
  induction h with
  | nil => exact .nil
  | cons _ hσ hattempt ih =>
    rcases attempt_eq_ok hattempt with ⟨response, hvalue, rfl, -⟩ | ⟨response, hvalue, hnew, heff⟩
    · rwa [history_cons_replayed hvalue]
    · rw [history_cons_fresh hvalue]
      exact .cons ih hσ hnew heff

/-- The store a committed call found. -/
theorem Commits.of_mem {log : List (Serial.Entry Call Draws Answer)} (h : Commits rt log c)
    {e : Serial.Entry Call Draws Answer} (he : e ∈ log) :
    ∃ (older newer : List (Serial.Entry Call Draws Answer)) (c₀ c₁ : Store codec) (σ : Stamp),
      log = newer ++ e :: older ∧ Commits rt older c₀ ∧ σ.Fresh c₀ ∧
        attempt rt σ c₀ e.call = .ok (e.value, c₁) := by
  induction h with
  | nil => cases he
  | @cons older newest c c' σ hold hσ hattempt ih =>
    rcases List.mem_cons.mp he with rfl | he
    · exact ⟨older, [], c, c', σ, rfl, hold, hσ, hattempt⟩
    · obtain ⟨older', newer, c₀, c₁, σ', rfl, hrest⟩ := ih he
      exact ⟨older', newest :: newer, c₀, c₁, σ', rfl, hrest⟩

/-- The receipt ids of the stamp are UUIDs of the draws, one draw for each position. -/
def Stamp.DrawnFrom (σ : Stamp) (δ : Draws) : Prop :=
  ∃ f : ℕ → ℕ, (∀ i j, f i = f j → i = j) ∧ ∀ i, (σ.evaluation i).receiptId = (δ (f i)).uuid

/-- The store a log leads to, with receipt ids from its draws. -/
structure Logged (rt : Runtime) (log : List (Serial.Entry Call Draws Answer)) (c : Store codec) :
    Prop where
  commits : Commits rt log c
  ids : ∀ receipt ∈ c.receipts, ∃ e ∈ log, ∃ n, receipt.receiptId = (e.draws n).uuid

theorem Logged.empty : Logged rt [] (Store.empty : Store codec) := ⟨.nil, nofun⟩

section Logged

variable {log : List (Serial.Entry Call Draws Answer)}

theorem Logged.run (h : Logged rt log c) : Run rt (history log) c := h.commits.run

/-- Draws that differ from those of the log make fresh receipt ids. -/
theorem Logged.freshIds {δ : Draws} (h : Logged rt log c) (hσ : σ.DrawnFrom δ)
    (hδ : δ.Distinct) (hlog : ∀ e ∈ log, δ.Disjoint e.draws) : σ.FreshIds c := by
  obtain ⟨f, hf, hid⟩ := hσ
  constructor
  · intro i receipt hreceipt heq
    obtain ⟨e, he, n, hn⟩ := h.ids receipt hreceipt
    exact hlog e he (f i) n (by rw [← hid, ← heq, hn])
  · intro i j heq
    rw [hid, hid] at heq
    exact hf i j (hδ _ _ heq)

/-- A new receipt takes its id and its number from the stamp. -/
theorem Effect.stamped (h : Effect rt σ c call response c') {receipt : Receipt}
    (hm : receipt ∈ c'.receipts) :
    receipt ∈ c.receipts ∨ ∃ i, receipt.receiptId = (σ.evaluation i).receiptId ∧
      receipt.rowSeq = (σ.evaluation i).rowSeq := by
  have hreceipts := h.receiptChange
  generalize c'.receipts = receipts' at hreceipts hm
  cases hreceipts with
  | same => exact .inl hm
  | added _ hresults =>
    rcases List.mem_append.mp hm with hm | hm
    · obtain ⟨-, i, -, -, hid, hseq, -⟩ := mem_receipts hresults (List.mem_reverse.mp hm)
      exact .inr ⟨i, hid, hseq⟩
    · exact .inl hm

/-- One more call. -/
theorem Logged.cons {e : Serial.Entry Call Draws Answer} (h : Logged rt log c)
    (hσ : σ.DrawnFrom e.draws) (hfresh : σ.Fresh c)
    (hattempt : attempt rt σ c e.call = .ok (e.value, c')) : Logged rt (e :: log) c' := by
  refine ⟨.cons h.commits hfresh hattempt, fun receipt hm => ?_⟩
  have hold : receipt ∈ c.receipts → ∃ e' ∈ e :: log, ∃ n, receipt.receiptId = (e'.draws n).uuid := by
    intro hm
    obtain ⟨e', he', hn⟩ := h.ids receipt hm
    exact ⟨e', List.mem_cons_of_mem _ he', hn⟩
  rcases attempt_eq_ok hattempt with ⟨response, -, rfl, -⟩ | ⟨response, -, -, heff⟩
  · exact hold hm
  · obtain ⟨c₁, stored, heffect, -, rfl⟩ := fresh_effect heff
    rcases heffect.stamped hm with hm | ⟨i, hi, -⟩
    · exact hold hm
    · obtain ⟨f, -, hid⟩ := hσ
      exact ⟨e, List.mem_cons_self, f i, by rw [hi, hid]⟩

end Logged

end LensoFlags.Abstract
