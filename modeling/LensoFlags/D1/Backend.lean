import LensoFlags.D1.Delivery
import LensoFlags.D1.Listings
import LensoFlags.Evaluations
import LensoFlags.Moments

/-!
# D1 as the store of a deployment

Results: `accountable`: the store answers for what it says. `exists_alone`: an undisturbed call is
answered as the abstract store answers it.
-/

namespace LensoFlags.D1

variable {codec : Codec} {rt : Runtime} {s s' : State codec} {i : ℕ} {a : Attempt codec}

/-- The reads of the store. -/
def Tells (t : Tables codec) : (call : StoreCall) → Except StorageError call.Record → Prop
  | .getFlag org flagKey, reply => reply = getFlag t org flagKey ∨ Lost reply
  | .listFlags org includeArchived after limit, reply =>
      reply = .ok (listFlags t org includeArchived after limit) ∨ Lost reply
  | .listReceipts org flagKey environmentKey after limit, reply =>
      reply = listReceipts t org flagKey environmentKey after limit ∨ Lost reply
  | .write _, _ => False

def Phase.result : Phase → Option Result
  | .returned result => some result
  | _ => none

variable (codec rt) in
def backend : Backend where
  State := State codec
  initial := .initial
  Begins := fun i call s s' => s.attempts i = none ∧ ∃ δ : Draws, δ.Distinct ∧
    (∀ j a, s.attempts j = some a → δ.Disjoint a.draws) ∧ s' = s.set i ⟨call, δ, .issued, none⟩
  Moves := fun s s' => Step rt s s' ∧ ∀ i, s.attempts i = none → s'.attempts i = none
  call := fun s i => (s.attempts i).map Attempt.call
  result := fun s i => (s.attempts i).bind fun a => a.phase.result
  Tells := fun s => Tells s.tables
  log := State.log

theorem result_eq_some {result : Result} (h : (backend codec rt).result s i = some result) :
    ∃ a, s.attempts i = some a ∧ a.phase = .returned result := by
  obtain ⟨a, ha, hphase⟩ := Option.bind_eq_some_iff.mp h
  refine ⟨a, ha, ?_⟩
  cases hp : a.phase with
  | returned found =>
    rw [hp] at hphase
    cases hphase
    rfl
  | _ =>
    rw [hp] at hphase
    cases hphase

/-- An attempt keeps its call. -/
theorem Step.attempt (h : Step rt s s') (ha : s.attempts i = some a) :
    ∃ a', s'.attempts i = some a' ∧ a'.call = a.call := by
  have hset : ∀ {j : ℕ} {u u' : Attempt codec}, s.attempts j = some u → u'.call = u.call →
      ∃ a', Function.update s.attempts j (some u') i = some a' ∧ a'.call = a.call := by
    intro j u u' hu hcall
    by_cases hj : i = j
    · subst hj
      rw [ha] at hu
      cases hu
      exact ⟨u', Function.update_self .., hcall⟩
    · exact ⟨a, (Function.update_of_ne hj ..).trans ha, rfl⟩
  cases h with
  | @issue j call δ hnone =>
    have hj : i ≠ j := by
      rintro rfl
      rw [ha] at hnone
      cases hnone
    exact ⟨a, (Function.update_of_ne hj ..).trans ha, rfl⟩
  | snapshot hu => exact hset hu (Attempt.planned_call ..)
  | _ hu => exact hset hu rfl

theorem backend_lawful : (backend codec rt).Lawful where
  initial := fun _ => rfl
  begins := by
    rintro i call s s' ⟨hnone, δ, -, -, rfl⟩
    refine ⟨?_, ?_, fun j hj => ?_, fun j => ?_⟩
    · change (s.attempts i).map Attempt.call = none
      rw [hnone]
      rfl
    · change (Function.update s.attempts i _ i).map Attempt.call = some call
      rw [Function.update_self]
      rfl
    · change (Function.update s.attempts i _ j).map Attempt.call = _
      rw [Function.update_of_ne hj]
      rfl
    · change (Function.update s.attempts i _ j).bind _ = (s.attempts j).bind _
      by_cases hj : j = i
      · subst hj
        rw [Function.update_self, hnone]
        rfl
      · rw [Function.update_of_ne hj]
  moves := by
    rintro s s' ⟨hstep, hnone⟩
    refine ⟨fun j => ?_, fun j result hresult => ?_⟩
    · change (s'.attempts j).map Attempt.call = (s.attempts j).map Attempt.call
      cases ha : s.attempts j with
      | none => rw [hnone j ha]
      | some a =>
        obtain ⟨a', ha', hcall⟩ := hstep.attempt ha
        rw [ha', Option.map_some, Option.map_some, hcall]
    · obtain ⟨a, ha, hphase⟩ := result_eq_some hresult
      obtain ⟨a', ha', -, hphase'⟩ := hstep.returned ha hphase
      change (s'.attempts j).bind _ = some result
      rw [ha', Option.bind_some, hphase']
      rfl

/-- An attempt that goes on leaves the others out of being. -/
theorem set_none {u : Attempt codec} {j : ℕ} (ha : s.attempts i = some a)
    (hj : s.attempts j = none) : Function.update s.attempts i (some u) j = none := by
  have hne : j ≠ i := by
    rintro rfl
    rw [ha] at hj
    cases hj
  exact (Function.update_of_ne hne ..).trans hj

theorem backend_steps (h : (backend codec rt).Steps s s') : Steps rt s s' := by
  induction h with
  | refl => exact .refl
  | tail _ hstep ih =>
    rcases hstep with ⟨hstep, -⟩ | ⟨i, call, hnone, δ, hdistinct, hdisjoint, rfl⟩
    · exact ih.tail hstep
    · exact ih.tail (.issue hnone hdistinct hdisjoint)

theorem steps_backend (h : Steps rt s s') : (backend codec rt).Steps s s' := by
  induction h with
  | refl => exact .refl
  | @tail s₁ s₂ _ hstep ih =>
    refine ih.tail ?_
    cases hstep with
    | issue hnone hdistinct hdisjoint => exact .inr ⟨_, _, hnone, _, hdistinct, hdisjoint, rfl⟩
    | snapshot ha hphase => exact .inl ⟨.snapshot ha hphase, fun j hj => set_none ha hj⟩
    | lost ha hphase => exact .inl ⟨.lost ha hphase, fun j hj => set_none ha hj⟩
    | apply ha hb hfate hroom hbatch =>
      exact .inl ⟨.apply ha hb hfate hroom hbatch, fun j hj => set_none ha hj⟩
    | reject ha hb hfate hbatch =>
      exact .inl ⟨.reject ha hb hfate hbatch, fun j hj => set_none ha hj⟩
    | acknowledge ha hphase hb hfate =>
      exact .inl ⟨.acknowledge ha hphase hb hfate, fun j hj => set_none ha hj⟩
    | fail ha hphase => exact .inl ⟨.fail ha hphase, fun j hj => set_none ha hj⟩
    | reconcile ha hphase => exact .inl ⟨.reconcile ha hphase, fun j hj => set_none ha hj⟩
    | reconcileLost ha hphase => exact .inl ⟨.reconcileLost ha hphase, fun j hj => set_none ha hj⟩

/-! ## Records -/

theorem FlagRow.of_injective : Function.Injective FlagRow.of := by
  intro flag flag' h
  cases flag
  cases flag'
  simp only [FlagRow.of, Abstract.Flag.record, FlagRow.mk.injEq, FlagRecord.mk.injEq] at h
  obtain ⟨rfl, rfl, rfl, -, -, rfl, rfl, rfl, rfl, hrevision, rfl, rfl, rfl, -⟩ := h
  rw [Decimal.toString_inj hrevision]

theorem EnvironmentRow.of_injective : Function.Injective EnvironmentRow.of := by
  intro environment environment' h
  cases environment
  cases environment'
  simp only [EnvironmentRow.of, Abstract.Environment.record, EnvironmentRow.mk.injEq,
    EnvironmentRecord.mk.injEq] at h
  obtain ⟨rfl, rfl, -, -, rfl, hrevision, rfl, rfl⟩ := h
  rw [Decimal.toString_inj hrevision]

theorem ReceiptRow.of_injective : Function.Injective ReceiptRow.of := by
  intro receipt receipt' h
  cases receipt
  cases receipt'
  simp only [ReceiptRow.of, ReceiptFields.of, ReceiptRow.mk.injEq, ReceiptFields.mk.injEq] at h
  obtain ⟨rfl, rfl, rfl, rfl, rfl, rfl, rfl, rfl, rfl, -, -, -, -, rfl, rfl, hrevision, rfl,
    rfl⟩ := h
  rw [Decimal.toString_inj hrevision]

/-- The tables determine the store they represent. -/
theorem Represents.unique {t : Tables codec} {c c' : Abstract.Store codec} (hr : Represents t c)
    (hr' : Represents t c') : c = c' := by
  obtain ⟨flags, environments, rulesets, receipts, commands⟩ := c
  obtain ⟨flags', environments', rulesets', receipts', commands'⟩ := c'
  have hflags : flags = flags' :=
    List.map_injective_iff.mpr FlagRow.of_injective (hr.flags.symm.trans hr'.flags)
  have henvironments : environments = environments' :=
    List.map_injective_iff.mpr EnvironmentRow.of_injective
      (hr.environments.symm.trans hr'.environments)
  have hreceipts : receipts = receipts' :=
    List.map_injective_iff.mpr ReceiptRow.of_injective (hr.receipts.symm.trans hr'.receipts)
  have hrulesets : rulesets = rulesets' := hr.rulesets.symm.trans hr'.rulesets
  have hcommands : commands = commands' := hr.commands.symm.trans hr'.commands
  rw [hflags, henvironments, hrulesets, hreceipts, hcommands]

/-- What holds of the empty store and is kept by every batch that takes effect holds in every
reachable state. -/
theorem reachable_induct {P : List (Serial.Entry Call Draws Answer) → Abstract.Store codec → Prop}
    (hempty : P [] Abstract.Store.empty)
    (hcons : ∀ {log t c e c'}, Abstract.Logged rt log c → (stamp rt e.draws t).Fresh c →
      Abstract.attempt rt (stamp rt e.draws (t : Tables codec)) c e.call = .ok (e.value, c') →
      P log c → P (e :: log) c')
    (h : Reachable rt s) :
    ∃ c, Represents s.tables c ∧ Abstract.Logged rt s.log c ∧ P s.log c := by
  induction h with
  | refl => exact ⟨_, .empty, .empty, hempty⟩
  | @tail s s' hs hstep ih =>
    obtain ⟨c, hr, hlogged, hP⟩ := ih
    have hkeep : s'.tables = s.tables → s'.log = s.log →
        ∃ c, Represents s'.tables c ∧ Abstract.Logged rt s'.log c ∧ P s'.log c := by
      intro htables hlog
      rw [htables, hlog]
      exact ⟨c, hr, hlogged, hP⟩
    cases hstep with
    | apply ha hb hfate _ hbatch =>
      obtain ⟨c₁, c', hr₁, -, hfresh, hattempt, hr', -⟩ :=
        (Inv.reachable hs).took ha hb hfate hbatch
      cases hr₁.unique hr
      exact ⟨c', hr', hlogged.cons (stamp_drawnFrom ..) hfresh hattempt,
        hcons hlogged hfresh hattempt hP⟩
    | _ => exact hkeep rfl rfl

theorem stamp_timed {platform : Platform}
    (htime : ∀ instant, platform.isTimestamp (rt.formatTimestamp instant)) (δ : Draws)
    (t : Tables codec) : (stamp rt δ t).Timed platform :=
  ⟨htime _, htime _, htime _, htime _, htime _, fun _ => ⟨htime _, htime _⟩⟩

theorem shown {platform : Platform}
    (htime : ∀ instant, platform.isTimestamp (rt.formatTimestamp instant)) (h : Reachable rt s) :
    ∃ c, Represents s.tables c ∧ Abstract.Shown platform rt s.log c := by
  obtain ⟨c, hr, -, hshown⟩ := reachable_induct (P := fun log c => Abstract.Shown platform rt log c)
    .empty
    (fun _ _ hattempt hshown => hshown.cons (stamp_timed htime _ _) hattempt) h
  exact ⟨c, hr, hshown⟩

/-- The number of a receipt is read back from its text. -/
theorem receiptRecord_of {receipt : Abstract.Receipt} (hpos : 0 < receipt.rowSeq)
    {record : ReceiptRecord} (h : receiptRecord (ReceiptRow.of receipt) = .ok record) :
    receipt.record = record := by
  simp only [receiptRecord, bind_eq_ok] at h
  obtain ⟨n, hn, h⟩ := h
  cases h
  unfold revision at hn
  split at hn
  · next v hv =>
    split at hn
    · cases hn
      rw [Decimal.eq_of_parseI64_toString hpos.le hv]
      rfl
    · cases hn
  · cases hn

theorem tells_reads {t : Tables codec} {c : Abstract.Store codec} (hr : Represents t c)
    (call : StoreCall) {record : call.Record} (h : Tells t call (.ok record)) : Abstract.Reads c call record := by
  cases call with
  | write call => exact h.elim
  | getFlag org flagKey =>
    rcases h with h | ⟨e, -, h⟩
    · rw [hr.getFlag] at h
      exact Abstract.reads_getFlag h.symm
    · cases h
  | listFlags org includeArchived after limit =>
    rcases h with h | ⟨e, -, h⟩
    · cases h
      intro record hrecord
      obtain ⟨row, hrow, rfl⟩ := List.mem_map.mp hrecord
      obtain ⟨hmem, hselected⟩ :=
        List.mem_filter.mp (Table.mem_orderBy.mp (mem_of_mem_page hrow))
      rw [hr.flags] at hmem
      obtain ⟨flag, hflag, rfl⟩ := List.mem_map.mp hmem
      simp only [Bool.and_eq_true, decide_eq_true_eq] at hselected
      exact ⟨flag, hflag, hselected.1.1, rfl⟩
    · cases h
  | listReceipts org flagKey environmentKey after limit =>
    rcases h with h | ⟨e, -, h⟩
    · intro (found : ReceiptRecord) hfound
      obtain ⟨row, hrow, hread⟩ := receiptRecords_mem h.symm hfound
      obtain ⟨hmem, hselected⟩ :=
        List.mem_filter.mp (Table.mem_orderBy.mp (mem_of_mem_page hrow))
      rw [hr.receipts] at hmem
      obtain ⟨receipt, hreceipt, rfl⟩ := List.mem_map.mp hmem
      simp only [Bool.and_eq_true, decide_eq_true_eq] at hselected
      exact ⟨receipt, hreceipt, hselected.1.1.1,
        receiptRecord_of (hr.receiptSeqs receipt hreceipt).1 hread⟩
    · cases h

theorem accountable : (backend codec rt).Accountable codec rt where
  lawful := backend_lawful
  logged := fun s h =>
    (Inv.reachable (backend_steps h)).represented.imp fun _ hrepresented => hrepresented.2
  called := by
    intro s h e he
    obtain ⟨a, b, ha, -, -, heq⟩ := (Inv.reachable (backend_steps h)).logged e he
    change (s.attempts e.session).map Attempt.call = some e.call
    rw [ha, heq]
    rfl
  answered := by
    intro s h i call answer hcall hresult
    have hi := Inv.reachable (backend_steps h)
    obtain ⟨a, ha, hphase⟩ := result_eq_some hresult
    change (s.attempts i).map Attempt.call = some call at hcall
    rw [ha, Option.map_some, Option.some.injEq] at hcall
    subst hcall
    obtain ⟨e, he, row, hrow, hkey, hhash, hstored, hor, -⟩ := hi.ok_logged ha hphase
    obtain ⟨_, b, -, -, -, hentry⟩ := hi.logged e he
    obtain ⟨⟨row', hrow', hhash', -⟩, -⟩ := hi.held e he
    obtain ⟨c, -, hlogged⟩ := hi.represented
    rw [hkey, hrow] at hrow'
    cases hrow'
    have hvalue : e.value = .fresh e.value.response := by
      rw [hentry]
      rfl
    refine ⟨e, he, _, hvalue, ?_, hkey, hhash'.symm.trans hhash⟩
    rcases hor with hsame | hdecode
    · rw [hsame]
      exact .made
    · rw [← Operation.kind_eq_of_name (CommandKey.mk.inj hkey).2.2.1,
        ← hlogged.commits.kind he hvalue] at hdecode
      exact .read hstored hdecode
  refused := by
    intro s h i failure hresult
    obtain ⟨a, ha, hphase⟩ := result_eq_some hresult
    exact (Inv.reachable (backend_steps h)).domain_notLogged ha hphase
  shown := by
    intro platform htime s h hlawful
    obtain ⟨c, hr, hshown⟩ := D1.shown htime (backend_steps h)
    obtain ⟨hc, hlog⟩ := hshown hlawful
    exact ⟨hlog, fun call record htells => hc.reads (tells_reads hr call htells)⟩

theorem mirrors : (backend codec rt).Mirrors codec rt fun s c => Represents s.tables c where
  initial := rfl
  held := fun s h => (Inv.reachable (backend_steps h)).represented
  unique := fun s c c' hr hr' => hr.unique hr'
  step := by
    rintro s s' h (⟨hstep, -⟩ | ⟨i, call, -, δ, -, -, rfl⟩) c hr
    · cases hstep with
      | apply ha hb hfate _ hbatch =>
        obtain ⟨c₁, c', hr₁, -, -, hattempt, hr', -⟩ :=
          (Inv.reachable (backend_steps h)).took ha hb hfate hbatch
        cases hr₁.unique hr
        exact .inr ⟨_, c', rfl, hr', _, hattempt⟩
      | _ => exact .inl ⟨rfl, hr⟩
    · exact .inl ⟨rfl, hr⟩
  reads := fun s _ c hr call _ htells => tells_reads hr call htells

/-! ## Undisturbed calls -/

/-- Nothing holds up a new call, and the epoch has room for `n` batches. -/
def Quiet (s : State codec) (n : ℕ) : Prop := s.tables.epoch + n ≤ Decimal.i64Max

/-- A call that nothing disturbs. -/
theorem alone_call (h : Reachable rt s) (call : Call) {δ : Draws} {n : ℕ}
    (hnone : s.attempts i = none) (hδ : Unused s δ) (hquiet : Quiet s (n + 1)) :
    ∃ s' : State codec,
      Backend.Alone (B := backend codec rt) s i call s' (D1.call rt δ s.tables call).1 ∧
      s'.tables = (D1.call rt δ s.tables call).2 ∧ Quiet s' n ∧
      ∀ δ', Unused s δ' → δ'.Disjoint δ → Unused s' δ' := by
  unfold Quiet at hquiet
  obtain ⟨s', a, hsteps, htables, hattempts, rfl, rfl, hphase, hlog⟩ :=
    @Steps.alone codec rt s i call δ hnone hδ.1 hδ.2 (by omega)
  refine ⟨s', ⟨steps_backend hsteps, ?_, ?_, fun j hj => ?_⟩, htables, ?_,
    fun δ' hδ' hdisjoint => ?_⟩
  · change (s'.attempts i).map Attempt.call = some a.call
    rw [hattempts, Function.update_self, Option.map_some]
  · change (s'.attempts i).bind _ = some _
    rw [hattempts, Function.update_self, Option.bind_some, hphase]
    rfl
  · change (s'.attempts j).map Attempt.call = _
    rw [hattempts, Function.update_of_ne hj]
    rfl
  · have hepoch := (Inv.reachable h).epoch
    have hepoch' := (Inv.reachable (h.trans hsteps)).epoch
    unfold Quiet
    omega
  · refine ⟨hδ'.1, fun j u hu => ?_⟩
    rw [hattempts] at hu
    rcases attempt_cases hu with ⟨rfl, rfl⟩ | ⟨-, hu⟩
    · exact hdisjoint
    · exact hδ'.2 j u hu

/-- Every ruleset of the tables can be read back, as a snapshot reads them. -/
def Readable (s : State codec) : Prop :=
  ∀ row ∈ s.tables.rulesets, (codec.decodeDefinition row.definition).isSome

theorem readable_of_exact (h : Reachable rt s) (hexact : codec.ExactDefinitions rt) : Readable s := by
  intro row hrow
  obtain ⟨c, hr, hlogged⟩ := (Inv.reachable h).represented
  have hruleset : RulesetRow.ruleset row ∈ c.rulesets := hr.rulesets ▸ List.mem_map_of_mem hrow
  obtain ⟨_, _, -, hencode, hvalid⟩ := hlogged.run.sound.typed _ hruleset
  exact Option.isSome_iff_exists.mpr ⟨_, hexact hvalid hencode⟩

/-- It is answered as the abstract store answers it. -/
theorem exists_alone (h : Reachable rt s) (hreadable : Readable s) (call : Call) {δ : Draws} {n : ℕ}
    (hnone : s.attempts i = none) (hδ : Unused s δ) (hquiet : Quiet s (n + 1)) :
    ∃ s' result, Backend.Alone (B := backend codec rt) s i call s' result ∧
      Settles codec rt s.log call result ∧ Quiet s' n ∧
      ∀ δ', Unused s δ' → δ'.Disjoint δ → Unused s' δ' := by
  obtain ⟨s', halone, -, hquiet', hunused⟩ := alone_call h call hnone hδ hquiet
  refine ⟨s', _, halone, ?_, hquiet', hunused⟩
  have hi := Inv.reachable h
  obtain ⟨c, hr, hlogged⟩ := hi.represented
  have hfresh := hi.unused_fresh hlogged hr hδ
  refine ⟨c, _, hlogged, hfresh, ?_⟩
  rcases call_cases hr hlogged.run.sound hfresh hi.range call with
    ⟨hagree, -⟩ | ⟨-, ruleset, hruleset, hdecode⟩
  · exact hagree
  · rw [← hr.rulesets] at hruleset
    obtain ⟨row, hrow, rfl⟩ := List.mem_map.mp hruleset
    have hsome := hreadable row hrow
    rw [show codec.decodeDefinition row.definition = none from hdecode] at hsome
    cases hsome

end LensoFlags.D1
