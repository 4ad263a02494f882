import LensoFlags.Postgres.Serializable

/-!
# The time of an evaluation

`evaluate_one` reads the clock once. The record it returns tells the reading; the receipt tells what
the `timestamptz` column has kept of it.

Results:
1. `told`: the times of every record that was returned, and of its receipt.
2. `evaluatedAt_told_iff`: the receipt tells the time of the record exactly when the reading is of
   whole microseconds.
-/

namespace LensoFlags.Postgres

open Abstract (Subject Evaluated Effect)

variable {codec : Codec} {describe : DbError → String} {rt : Runtime} {s : State codec describe rt}

/-! ## Microseconds -/

theorem micros_eq_iff {instant : Int} : micros instant = instant ↔ instant % 1000 = 0 := by
  have hepoch : pgEpoch % 1000 = 0 := rfl
  have hdiv := Int.tmod_add_mul_tdiv (instant - pgEpoch) 1000
  have hmod : (instant - pgEpoch).tmod 1000 = 0 ↔ (instant - pgEpoch) % 1000 = 0 :=
    Int.dvd_iff_tmod_eq_zero.symm.trans Int.dvd_iff_emod_eq_zero
  unfold micros
  omega

/-! ## Records and receipts -/

/-- The reading of the clock for the flag at position `n` of an evaluation. -/
def evaluatedNow (δ : Draws) (n : ℕ) : Int := (δ (5 * n + 5)).now

/-- The response is stored. Its records tell the readings of the clock and their receipts what the
column keeps of them. -/
structure Told (rt : Runtime) (c : Abstract.Store codec) (δ : Draws) (call : Call)
    (response : Response) : Prop where
  stored : ∃ row, c.command call.commandKey = some row ∧
    encodeResponse codec response = some row.response
  records : ∀ n record, response.records[n]? = some record →
    record.evaluatedAt = rt.formatTimestamp (evaluatedNow δ n) ∧
      ∃ receipt ∈ c.receipts, receipt.receiptId = record.receiptId ∧
        receipt.evaluatedAt = rt.formatTimestamp (micros (evaluatedNow δ n))

section Told

variable {c c' : Abstract.Store codec} {δ : Draws} {call : Call} {response : Response}

/-- Rows that came later change nothing in what was told. -/
theorem Told.mono (h : Told rt c δ call response)
    (hcommand : ∀ row, c.command call.commandKey = some row →
      c'.command call.commandKey = some row)
    (hreceipts : ∀ receipt ∈ c.receipts, receipt ∈ c'.receipts) : Told rt c' δ call response := by
  obtain ⟨⟨row, hrow, hstored⟩, hrecords⟩ := h
  refine ⟨⟨row, hcommand row hrow, hstored⟩, fun n record hrecord => ?_⟩
  obtain ⟨htime, receipt, hm, hreceipt⟩ := hrecords n record hrecord
  exact ⟨htime, receipt, hreceipts receipt hm, hreceipt⟩

/-- An evaluation tells its readings of the clock. -/
theorem told_of_fresh
    (h : Abstract.fresh rt (stamp rt δ call.operation) c call = .ok (response, c')) :
    Told rt c' δ call response := by
  obtain ⟨c₁, stored, heffect, hstored, rfl⟩ := Abstract.fresh_effect h
  refine ⟨⟨_, Table.lookup_cons_self .., hstored⟩, fun n record hrecord => ?_⟩
  rcases heffect.answers with ⟨-, hnone, -⟩ | ⟨subject, flagKeys, results, -, hrecords, hreceipts, hall⟩
  · rw [hnone] at hrecord
    cases hrecord
  · rw [hrecords, List.getElem?_map, Option.map_eq_some_iff] at hrecord
    obtain ⟨result, hresult, rfl⟩ := hrecord
    obtain ⟨hlength, hall⟩ := List.forall₂_iff_get.mp hall
    obtain ⟨hn, rfl⟩ := List.getElem?_eq_some_iff.mp hresult
    have hevaluated := hall n (hlength ▸ hn) hn
    rw [List.get_eq_getElem, List.get_eq_getElem, List.getElem_zipIdx, Nat.zero_add] at hevaluated
    obtain ⟨variant, reason, revision, -, hresult⟩ := hevaluated.choice
    refine ⟨by rw [hresult]; rfl, results[n].2, ?_, by rw [hresult]; rfl, by rw [hresult]; rfl⟩
    rw [hreceipts]
    exact List.mem_append_left _ (List.mem_reverse.mpr (List.mem_map_of_mem (List.getElem_mem hn)))

/-- A call that commits leaves what was told. -/
theorem Told.attempt {e : Serial.Entry Call Draws Answer} {σ : Abstract.Stamp}
    (h : Told rt c δ call response)
    (hattempt : Abstract.attempt rt σ c e.call = .ok (e.value, c')) :
    Told rt c' δ call response := by
  rcases Abstract.attempt_eq_ok hattempt with ⟨-, -, rfl, -⟩ | ⟨response', -, hnew, hfresh⟩
  · exact h
  · obtain ⟨c₁, stored, heffect, hstored, rfl⟩ := Abstract.fresh_effect hfresh
    refine h.mono (fun row hrow => ?_) fun receipt hm => ?_
    · have hne : (⟨e.call.commandKey, e.call.command.hash, stored⟩ :
          Abstract.CommandRow codec).key ≠ call.commandKey := by
        intro heq
        rw [show e.call.commandKey = call.commandKey from heq, hrow] at hnew
        cases hnew
      rw [Abstract.Store.command, Table.lookup_cons_of_ne _ hne, heffect.commands]
      exact hrow
    · change receipt ∈ c₁.receipts
      rcases heffect.answers with ⟨-, -, hsame⟩ | ⟨_, _, _, -, -, hreceipts, -⟩
      · rwa [hsame]
      · rw [hreceipts]
        exact List.mem_append_right _ hm

end Told

/-- What the committed calls told holds of the committed tables. -/
theorem Inv.told (hi : Inv s) : ∃ c, Content rt s.log s.store c ∧
    ∀ e ∈ s.log, ∀ response, e.value = .fresh response → Told rt c e.draws e.call response := by
  refine runs_induct (P := fun log c => ∀ e ∈ log, ∀ response, e.value = .fresh response →
      Told rt c e.draws e.call response)
    (fun e he => absurd he List.not_mem_nil) (fun {log t c e c'} _ _ hattempt htold => ?_)
    hi.locking.serial hi.drawn
  intro e' he' response hvalue
  rcases List.mem_cons.mp he' with rfl | he'
  · rcases Abstract.attempt_eq_ok hattempt with
      ⟨_, hreplayed, -, -⟩ | ⟨response', hvalue', -, hfresh⟩
    · rw [hvalue] at hreplayed
      cases hreplayed
    · rw [hvalue] at hvalue'
      cases hvalue'
      exact told_of_fresh hfresh
  · exact (htold e' he' response hvalue).attempt hattempt

/-! ## What clients see -/

theorem mem_listReceipts {t : Tables codec} {org : String} {flagKey environmentKey : Option String}
    {after : Option Int} {limit : Int} {receipts : List ReceiptRecord} {listed : ReceiptRecord}
    (hpage : listReceipts describe rt t org flagKey environmentKey after limit = .ok receipts)
    (hm : listed ∈ receipts) : ∃ row ∈ t.receipts, listed = receiptFromRow rt row := by
  simp only [listReceipts, bind_eq_ok, page] at hpage
  obtain ⟨fetched, hfetched, hpage⟩ := hpage
  cases hpage
  split at hfetched
  · cases hfetched
  · cases hfetched
    obtain ⟨row, hrow, rfl⟩ := List.mem_map.mp hm
    exact ⟨row, List.mem_of_mem_filter (Table.mem_orderBy.mp (List.mem_of_mem_take hrow)), rfl⟩

/-- A page that is long enough has every receipt of the organization. -/
theorem exists_listed (describe : DbError → String) (rt : Runtime) {t : Tables codec}
    {row : ReceiptRow} (hrow : row ∈ t.receipts) (hpos : 0 < row.rowSeq) :
    ∃ limit receipts,
      listReceipts describe rt t row.organizationId none none none limit = .ok receipts ∧
        receiptFromRow rt row ∈ receipts := by
  refine ⟨t.receipts.length, _, rfl, List.mem_map_of_mem ?_⟩
  rw [Int.toNat_natCast, List.take_of_length_le]
  · exact Table.mem_orderBy.mpr (List.mem_filter.mpr ⟨hrow, by simpa using hpos⟩)
  · rw [Table.orderBy, List.length_insertionSort]
    exact List.length_filter_le ..

/-- A record that an evaluation has returned is stored, and the receipts list it. What they tell is
the time of the record exactly if the clock was read at a whole microsecond. -/
theorem evaluatedAt_told_iff (hformat : Function.Injective rt.formatTimestamp) (h : Reachable s)
    {i : ℕ} {t : (store codec describe rt).Session} (ht : s.sessions i = some t)
    {response : Response} (hout : t.outcome = some (.ok (.fresh response))) {n : ℕ}
    {record : EvaluationRecord} (hrecord : response.records[n]? = some record) :
    (∃ row stored, s.store.command t.call.commandKey = some row ∧ row.response = some stored ∧
      encodeResponse codec response = some stored) ∧
    record.evaluatedAt = rt.formatTimestamp (evaluatedNow t.draws n) ∧
    (∃ org limit receipts listed,
      listReceipts describe rt s.store org none none none limit = .ok receipts ∧
        listed ∈ receipts ∧ listed.receiptId = record.receiptId) ∧
    ∀ org flagKey environmentKey after limit receipts listed,
      listReceipts describe rt s.store org flagKey environmentKey after limit = .ok receipts →
      listed ∈ receipts → listed.receiptId = record.receiptId →
      (listed.evaluatedAt = record.evaluatedAt ↔ evaluatedNow t.draws n % 1000 = 0) := by
  have hi := Inv.reachable h
  obtain ⟨c, hc, htold⟩ := hi.told
  obtain ⟨⟨row, hrow, hstored⟩, hrecords⟩ :=
    htold _ (hi.locking.returned i t _ ht hout) response rfl
  obtain ⟨htime, receipt, hreceipt, hid, hkept⟩ := hrecords n record hrecord
  have hsound := hc.sound
  refine ⟨⟨_, _, by rw [hc.represents.command, hrow]; rfl, rfl, hstored⟩, htime, ?_, ?_⟩
  · have hpos := hsound.receiptPositive receipt hreceipt
    rw [← hc.represents.rows.receipts] at hreceipt
    obtain ⟨stored, hm, rfl⟩ := List.mem_map.mp hreceipt
    obtain ⟨limit, receipts, hpage, hlisted⟩ := exists_listed describe rt hm hpos
    exact ⟨_, limit, receipts, _, hpage, hlisted, hid⟩
  · intro org flagKey environmentKey after limit receipts listed hpage hm hlisted
    obtain ⟨stored, hstored, rfl⟩ := mem_listReceipts hpage hm
    -- An id has one receipt.
    have hmem : stored.receipt rt ∈ c.receipts := by
      rw [← hc.represents.rows.receipts]
      exact List.mem_map_of_mem hstored
    have hsame : stored.receipt rt = receipt :=
      List.inj_on_of_nodup_map hsound.receiptIds hmem hreceipt (hlisted.trans hid.symm)
    have hevaluatedAt : (receiptFromRow rt stored).evaluatedAt = receipt.evaluatedAt := by
      rw [← hsame]
      rfl
    rw [hevaluatedAt, hkept, htime, hformat.eq_iff]
    exact micros_eq_iff

/-! ## One nanosecond -/

theorem injective_update {α β : Type} [DecidableEq α] {f : α → β} (hf : Function.Injective f)
    {a : α} {b : β} (hb : ∀ x, f x ≠ b) : Function.Injective (Function.update f a b) := by
  intro x y h
  by_cases hx : x = a
  · by_cases hy : y = a
    · exact hx.trans hy.symm
    · rw [hx, Function.update_self, Function.update_of_ne hy] at h
      exact absurd h.symm (hb y)
  · by_cases hy : y = a
    · rw [hy, Function.update_self, Function.update_of_ne hx] at h
      exact absurd h (hb x)
    · rw [Function.update_of_ne hx, Function.update_of_ne hy] at h
      exact hf h

theorem ne_update {α β : Type} [DecidableEq α] {f : α → β} {a : α} {b c : β} (hf : ∀ x, f x ≠ c)
    (hb : b ≠ c) (x : α) : Function.update f a b x ≠ c := by
  by_cases hx : x = a
  · rwa [hx, Function.update_self]
  · rw [Function.update_of_ne hx]
    exact hf x

/-- The texts of the Unix epoch, of the epoch of PostgreSQL and of the nanosecond after it; other
instants have texts of their own. -/
def nanosecondFormat : Int → String :=
  Function.update (Function.update (Function.update (fun instant => "@" ++ toString instant)
    0 "1970-01-01T00:00:00Z") pgEpoch "2000-01-01T00:00:00Z")
    (pgEpoch + 1) "2000-01-01T00:00:00.000000001Z"

theorem nanosecondFormat_injective : Function.Injective nanosecondFormat := by
  have hne : ∀ {text : String}, text.toList.head? ≠ some '@' → ∀ instant : Int,
      "@" ++ toString instant ≠ text := by
    rintro text htext instant rfl
    exact htext (by rw [String.toList_append]; rfl)
  refine injective_update (injective_update (injective_update (fun a b h => ?_) ?_) ?_) ?_
  · exact Decimal.toString_inj (String.append_right_inj _ |>.mp h)
  · exact hne (by decide)
  · exact ne_update (hne (by decide)) (by decide)
  · exact ne_update (ne_update (hne (by decide)) (by decide)) (by decide)

def nanosecondRuntime : Runtime :=
  { Runtime.atEpoch [] with formatTimestamp := nanosecondFormat }

/-- The draws of call 3, with the clock at the instant. -/
def drawnAt (instant : Int) : Draws :=
  fun i => { Draws.numbered 3 i with now := instant }

/-- The first evaluation, alone on what the calls before it left. -/
def evaluatedAlone (instant : Int) : Result × Tables Codec.verbatim :=
  (store Codec.verbatim (fun _ => "") nanosecondRuntime).alone (drawnAt instant)
    (tablesAfter (fun _ => "") nanosecondRuntime 0 Tables.empty (firstCalls.take 3))
    ⟨⟨"caller", "actor", "key-4", [4]⟩, .evaluate "org" "prod" "flag" "user-1" [] "hash"⟩

theorem exists_evaluated (instant : Int) :
    ∃ (s : State Codec.verbatim (fun _ => "") nanosecondRuntime) (i : ℕ)
      (t : (store Codec.verbatim (fun _ => "") nanosecondRuntime).Session), Reachable s ∧
      s.store = (evaluatedAlone instant).2 ∧ s.sessions i = some t ∧ t.draws = drawnAt instant ∧
      t.outcome = some (evaluatedAlone instant).1 := by
  obtain ⟨s, h, hstore, hnone, hidle⟩ :=
    @exists_idle Codec.verbatim (fun _ => "") nanosecondRuntime (firstCalls.take 3)
  have hsequenced := Draws.numbered_sequenced 3
  obtain ⟨s', t, hsteps, hstore', hset, -, hdraws, -, hout⟩ := @Steps.alone _ _ _ s 3
    ⟨⟨"caller", "actor", "key-4", [4]⟩, .evaluate "org" "prod" "flag" "user-1" [] "hash"⟩
    (drawnAt instant) (hnone 3 (Nat.le_refl 3))
    ⟨Draws.numbered_distinct 3, hsequenced.positive, hsequenced.flag, hsequenced.receipt⟩
    (fun j u hu => by
      obtain ⟨hj, hdraws, -⟩ := hidle j u hu
      rw [hdraws]
      exact Unshared.numbered (Nat.ne_of_gt hj))
    fun j u hu => (hidle j u hu).2.2
  rw [hstore] at hstore' hout
  exact ⟨s', 3, t, h.trans hsteps, hstore', by rw [hset, Function.update_self], hdraws, hout⟩

/-- The record of the first evaluation. -/
def firstRecord (evaluatedAt : String) : EvaluationRecord :=
  { flagKey := "flag"
    environmentKey := "prod"
    variantKey := "on"
    value := ⟨"boolean", some true, none, none, none, none⟩
    reason := "fallthrough"
    rulesetRevision := "1"
    receiptId := Decimal.tag "3" 5
    evaluatedAt := evaluatedAt }

/-- An evaluation at the epoch of PostgreSQL. -/
theorem evaluatedAt_told_epoch :
    ∃ s : State Codec.verbatim (fun _ => "") nanosecondRuntime, Reachable s ∧
      ∀ receipts listed,
        listReceipts (fun _ => "") nanosecondRuntime s.store "org" none none none 201 =
          .ok receipts →
        listed ∈ receipts → listed.receiptId = Decimal.tag "3" 5 →
        listed.evaluatedAt = "2000-01-01T00:00:00Z" := by
  obtain ⟨s, i, t, h, -, ht, hdraws, hout⟩ := exists_evaluated pgEpoch
  refine ⟨s, h, fun receipts listed hpage hm hid => ?_⟩
  refine ((@evaluatedAt_told_iff _ _ _ s nanosecondFormat_injective h i t ht
    (.evaluation (firstRecord "2000-01-01T00:00:00Z")) hout 0 _ rfl).2.2.2
    "org" none none none 201 receipts listed hpage hm hid).mpr ?_
  rw [hdraws]
  rfl

/-- The receipt of the first evaluation. -/
def firstReceipt (evaluatedAt : String) : ReceiptRecord :=
  { receiptId := Decimal.tag "3" 5
    evaluationId := "key-4"
    flagKey := "flag"
    environmentKey := "prod"
    variantKey := "on"
    reason := "fallthrough"
    rulesetRevision := "1"
    contextHash := "hash"
    evaluatedAt := evaluatedAt
    rowSeq := Nat.pair 3 6 + 1 }

/-- A reading one nanosecond later is told with its nanosecond, and listed without it. -/
theorem nanosecond_lost :
    ∃ (s : State Codec.verbatim (fun _ => "") nanosecondRuntime) (i : ℕ)
      (t : (store Codec.verbatim (fun _ => "") nanosecondRuntime).Session), Reachable s ∧
      s.sessions i = some t ∧ evaluatedNow t.draws 0 = pgEpoch + 1 ∧
      t.outcome =
        some (.ok (.fresh (.evaluation (firstRecord "2000-01-01T00:00:00.000000001Z")))) ∧
      listReceipts (fun _ => "") nanosecondRuntime s.store "org" none none none 201 =
        .ok [firstReceipt "2000-01-01T00:00:00Z"] := by
  obtain ⟨s, i, t, h, hstore, ht, hdraws, hout⟩ := exists_evaluated (pgEpoch + 1)
  refine ⟨s, i, t, h, ht, by rw [hdraws]; rfl, hout, ?_⟩
  rw [hstore]
  rfl

end LensoFlags.Postgres
