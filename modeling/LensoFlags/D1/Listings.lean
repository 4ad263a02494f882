import LensoFlags.D1.Delivery
import LensoFlags.Service
import LensoFlags.Lib.Feed

/-!
# Listings

`list_flags` and `list_evaluation_receipts` page through the rows in the order of `row_seq`. A flag
takes the epoch of its snapshot as number, a receipt the next `AUTOINCREMENT` number, and no write
changes a number: the fence makes both tables feeds.

Results:
1. `Step.grows`, `Steps.grows`: the flags and the receipts grow.
2. `Inv.numbered`: receipts are numbered in the order of the log, in a batch in that of the request.
3. `listings_append_only`: with what follows for the cursors of the two listings.
-/

namespace LensoFlags.D1

variable {codec : Codec} {rt : Runtime} {s s' : State codec}

/-! ## What a batch adds -/

/-- A batch that takes effect is that of its own snapshot, and does what the call does on it. -/
theorem Step.landed (hi : Inv rt s) (h : Step rt s s') :
    (s'.tables = s.tables ∧ s'.log = s.log) ∨
      ∃ i a b c c', s.attempts i = some a ∧ a.submitted = some b ∧
        s'.log = ⟨i, a.call, a.draws, .fresh b.response⟩ :: s.log ∧
        b.statements.head? = some (.guardEpoch (toString s.tables.epoch)) ∧
        Represents s.tables c ∧ Abstract.Sound rt c ∧ Represents s'.tables c' ∧
        ∃ c₁ commands, Abstract.Effect rt (stamp rt a.draws s.tables) c a.call b.response c₁ ∧
          c' = { c₁ with commands := commands } := by
  cases h with
  | @apply i a b t' ha hb hfate _ hbatch =>
    right
    obtain ⟨c, c', hr, hlogged, -, hattempt, hr', -⟩ := hi.took ha hb hfate hbatch
    have hsince := (hi.guard ha hb hfate).mp (by rw [hbatch]; rfl)
    obtain ⟨row, rest, hstatements, -⟩ := ((hi.sane i a ha).submission b hb).shape
    rcases Abstract.attempt_eq_ok hattempt with ⟨_, heq, -, -⟩ | ⟨response, heq, -, hfresh⟩
    · cases heq
    · cases heq
      obtain ⟨c₁, stored, heffect, -, hc'⟩ := Abstract.fresh_effect hfresh
      refine ⟨i, a, b, c, c', ha, hb, rfl, ?_, hr, hlogged.run.sound, hr', c₁, _, heffect, hc'⟩
      rw [hstatements, hsince, hi.epoch]
      rfl
  | _ => exact .inl ⟨rfl, rfl⟩

/-- A new flag takes a number above all; an update keeps the number. -/
theorem flags_grow {σ : Abstract.Stamp} {t : Tables codec} {c : Abstract.Store codec}
    {org : String} {flags : List Abstract.Flag} (hr : Represents t c) (hs : Abstract.Sound rt c)
    (hseq : σ.rowSeq = t.epoch) (h : Abstract.FlagChange σ org c.flags flags) :
    Feed.Grows Abstract.Flag.key Abstract.Flag.rowSeq c.flags flags := by
  cases h with
  | same => exact .refl _ _ _
  | @added flag _ _ _ _ _ hnumber =>
    refine @Feed.Grows.append _ _ _ _ Abstract.Flag.key [flag] fun row hrow old hold => ?_
    rw [List.mem_singleton.mp hrow, hnumber, hseq]
    exact (hr.rowSeqs old hold).2
  | bumped _ hflag _ hkey _ _ _ hnumber =>
    exact .replace hs.flagKeys (by rw [hkey]; exact hflag) hnumber

/-- New receipts take the numbers from the counter on. -/
theorem receipts_descend {δ : Draws} {t : Tables codec} {c c' : Abstract.Store codec} {call : Call}
    {response : Response} (hr : Represents t c)
    (h : Abstract.Effect rt (stamp rt δ t) c call response c')
    (hold : (c.receipts.map Abstract.Receipt.rowSeq).Pairwise (· > ·)) :
    (c'.receipts.map Abstract.Receipt.rowSeq).Pairwise (· > ·) ∧
      ∃ new, c'.receipts = new ++ c.receipts ∧
        ∀ receipt ∈ new, ∀ old ∈ c.receipts, old.rowSeq < receipt.rowSeq := by
  rcases h.answers with ⟨-, -, hsame⟩ | ⟨subject, flagKeys, results, -, -, hadd, hresults⟩
  · rw [hsame]
    exact ⟨hold, [], rfl, fun _ h => absurd h List.not_mem_nil⟩
  · have hnumbers := receipts_numbered (σ := stamp rt δ t) (n := t.receiptSeq) (fun _ => rfl)
      hresults rfl
    have habove : ∀ receipt ∈ (results.map (·.2)).reverse, ∀ old ∈ c.receipts,
        old.rowSeq < receipt.rowSeq := by
      intro receipt hreceipt old hold
      obtain ⟨i, hi, rfl⟩ := List.mem_iff_getElem.mp (List.mem_reverse.mp hreceipt)
      have hle := (hr.receiptSeqs old hold).2
      rw [hnumbers i hi]
      omega
    rw [hadd]
    refine ⟨?_, _, rfl, habove⟩
    rw [List.map_append, List.pairwise_append]
    refine ⟨?_, hold, ?_⟩
    · rw [List.map_reverse, List.pairwise_reverse, List.pairwise_iff_getElem]
      intro i j hi hj hij
      rw [List.length_map] at hi hj
      have hni := hnumbers i hi
      have hnj := hnumbers j hj
      simp only [List.getElem_map] at hni hnj ⊢
      omega
    · rintro n hn m hm
      obtain ⟨receipt, hreceipt, rfl⟩ := List.mem_map.mp hn
      obtain ⟨old, hold, rfl⟩ := List.mem_map.mp hm
      exact habove receipt hreceipt old hold

/-! ## The two feeds -/

/-- The receipts, newest first, are numbered downwards and are those of the answered records, commit
by commit and in the order of each request. -/
structure Numbered (s : State codec) : Prop where
  descending : (s.tables.receipts.map ReceiptRow.rowSeq).Pairwise (· > ·)
  logged : (s.tables.receipts.map fun row => (row.receiptId, row.flagKey)) =
    s.log.flatMap fun e =>
      (e.value.response.records.map fun record => (record.receiptId, record.flagKey)).reverse
  requested : ∀ e ∈ s.log, ∀ subject flagKeys,
    Abstract.evaluates e.call.operation = some (subject, flagKeys) →
      e.value.response.records.map (·.flagKey) = flagKeys

theorem Numbered.initial : Numbered (State.initial : State codec) :=
  ⟨.nil, rfl, fun _ h => absurd h List.not_mem_nil⟩

theorem receipts_rowSeq {t : Tables codec} {c : Abstract.Store codec} (hr : Represents t c) :
    t.receipts.map ReceiptRow.rowSeq = c.receipts.map Abstract.Receipt.rowSeq := by
  rw [hr.receipts, List.map_map]
  rfl

/-- The records name the flags of the request, in its order. -/
theorem flagKeys_answered {σ : Abstract.Stamp} {c : Abstract.Store codec} {command : Command}
    {operation : String} {subject : Abstract.Subject} {flagKeys : List String}
    {results : List (EvaluationRecord × Abstract.Receipt)}
    (h : List.Forall₂ (Abstract.Evaluated rt σ c command operation subject) (flagKeys.zipIdx 0)
      results) : results.map (fun result => result.1.flagKey) = flagKeys := by
  have hsame : (flagKeys.zipIdx 0).map Prod.fst = results.map fun result => result.1.flagKey := by
    rw [← List.forall₂_eq_eq_eq, List.forall₂_map_left_iff, List.forall₂_map_right_iff]
    refine h.imp fun at_ result heval => ?_
    obtain ⟨variant, reason, revision, -, rfl⟩ := heval.choice
    rfl
  rw [← hsame, List.zipIdx_map_fst]

theorem Numbered.step (hi : Inv rt s) (hn : Numbered s) (h : Step rt s s') : Numbered s' := by
  rcases h.landed hi with ⟨htables, hlog⟩ | ⟨i, a, b, c, c', -, -, hlog, -, hr, -, hr', c₁, commands,
    heffect, hc'⟩
  · exact ⟨by rw [htables]; exact hn.descending, by rw [htables, hlog]; exact hn.logged,
      by rw [hlog]; exact hn.requested⟩
  · have hdescending := hn.descending
    rw [receipts_rowSeq hr] at hdescending
    have hreceipts : c'.receipts = c₁.receipts := by rw [hc']
    refine ⟨?_, ?_, ?_⟩
    · rw [receipts_rowSeq hr', hreceipts]
      exact (receipts_descend hr heffect hdescending).1
    · have hold := hn.logged
      rw [hr.receipts, List.map_map] at hold
      rw [hlog, List.flatMap_cons, ← hold, hr'.receipts, List.map_map, hreceipts]
      rcases heffect.answers with ⟨-, hrecords, hsame⟩ | ⟨subject, flagKeys, results, -, hrecords,
        hadd, hresults⟩
      · rw [hsame]
        change _ = (b.response.records.map _).reverse ++ _
        rw [hrecords]
        rfl
      · rw [hadd, List.map_append]
        congr 1
        change _ = (b.response.records.map _).reverse
        rw [hrecords, List.map_reverse, List.map_map, List.map_map]
        congr 1
        refine List.map_congr_left fun result hresult => ?_
        obtain ⟨at_, -, heval⟩ := Table.exists_of_mem_right hresults hresult
        obtain ⟨variant, reason, revision, -, rfl⟩ := heval.choice
        rfl
    · rw [hlog]
      intro e he subject flagKeys hop
      rcases List.mem_cons.mp he with rfl | he
      · rcases heffect.answers with ⟨hnone, -⟩ | ⟨subject', flagKeys', results, hsome, hrecords, -,
          hresults⟩
        · rw [hnone] at hop
          cases hop
        · rw [hsome] at hop
          cases hop
          change b.response.records.map _ = _
          rw [hrecords, List.map_map]
          exact flagKeys_answered hresults
      · exact hn.requested e he subject flagKeys hop

theorem Inv.numbered (h : Reachable rt s) : Numbered s := by
  induction h with
  | refl => exact .initial
  | tail hrun hstep ih => exact ih.step (Inv.reachable hrun) hstep

/-- From one version of the tables to a later one. -/
structure Later (t t' : Tables codec) : Prop where
  flags : Feed.Grows FlagRow.key FlagRow.rowSeq t.flags t'.flags
  receipts : Feed.Grows ReceiptRow.receiptId ReceiptRow.rowSeq t.receipts t'.receipts
  kept : ∃ new, t'.receipts = new ++ t.receipts

theorem Later.refl (t : Tables codec) : Later t t :=
  ⟨.refl _ _ _, .refl _ _ _, [], rfl⟩

theorem Later.trans {t t' t'' : Tables codec} (h : Later t t') (h' : Later t' t'') :
    Later t t'' := by
  obtain ⟨new, hnew⟩ := h.kept
  obtain ⟨new', hnew'⟩ := h'.kept
  exact ⟨h.flags.trans h'.flags, h.receipts.trans h'.receipts, new' ++ new,
    by rw [hnew', hnew, List.append_assoc]⟩

theorem Step.grows (hi : Inv rt s) (hn : Numbered s) (h : Step rt s s') :
    Later s.tables s'.tables := by
  rcases h.landed hi with ⟨htables, -⟩ | ⟨i, a, b, c, c', -, -, -, -, hr, hs, hr', c₁, commands,
    heffect, rfl⟩
  · rw [htables]
    exact .refl _
  · have hdescending := hn.descending
    rw [receipts_rowSeq hr] at hdescending
    obtain ⟨-, new, hnew, habove⟩ := receipts_descend hr heffect hdescending
    have hflags := flags_grow hr hs rfl heffect.flagChange
    have hreceipts := Feed.Grows.append Abstract.Receipt.receiptId habove
    refine ⟨?_, ?_, new.map ReceiptRow.of, ?_⟩
    · rw [hr.flags, hr'.flags]
      exact hflags.map (fun _ _ hkey => hkey) fun _ => rfl
    · rw [hr.receipts, hr'.receipts, hnew]
      exact hreceipts.map (fun _ _ hkey => hkey) fun _ => rfl
    · rw [hr.receipts, hr'.receipts, hnew, List.map_append]

theorem Steps.grows (h : Reachable rt s) (hs : Steps rt s s') : Later s.tables s'.tables := by
  induction hs with
  | refl => exact .refl _
  | tail hrun hstep ih =>
    have hreach := h.trans hrun
    exact ih.trans (hstep.grows (Inv.reachable hreach) (Inv.numbered hreach))

/-! ## Cursors -/

theorem mem_of_mem_page {α : Type} {limit : Int} {rows : List α} {row : α}
    (h : row ∈ page limit rows) : row ∈ rows := by
  unfold page at h
  split at h
  · exact h
  · exact List.mem_of_mem_take h

/-- A listed flag is a row of the table, with the number of the row. -/
theorem mem_listFlags {t : Tables codec} {c : Abstract.Store codec} (hr : Represents t c)
    {org : String} {includeArchived : Bool} {after : Option Int} {limit : Int}
    {record : FlagRecord} (h : record ∈ listFlags t org includeArchived after limit) :
    ∃ row ∈ t.flags, record.rowSeq = row.rowSeq := by
  obtain ⟨row, hrow, rfl⟩ := List.mem_map.mp h
  have hmem := (List.mem_filter.mp (Table.mem_orderBy.mp (mem_of_mem_page hrow))).1
  refine ⟨row, hmem, ?_⟩
  rw [hr.flags] at hmem
  obtain ⟨flag, -, rfl⟩ := List.mem_map.mp hmem
  rfl

theorem receiptRecords_mem {rows : List ReceiptRow} {records : List ReceiptRecord}
    (h : receiptRecords rows = .ok records) {record : ReceiptRecord} (hmem : record ∈ records) :
    ∃ row ∈ rows, receiptRecord row = .ok record := by
  induction rows generalizing records with
  | nil =>
    cases h
    exact absurd hmem List.not_mem_nil
  | cons row rows ih =>
    simp only [receiptRecords, bind_eq_ok] at h
    obtain ⟨first, hfirst, rest, hrest, h⟩ := h
    cases h
    rcases List.mem_cons.mp hmem with rfl | hmem
    · exact ⟨row, List.mem_cons_self, hfirst⟩
    · obtain ⟨row', hrow', hrecord⟩ := ih hrest hmem
      exact ⟨row', List.mem_cons_of_mem _ hrow', hrecord⟩

/-- A listed receipt is a row of the table, with the number of the row. -/
theorem mem_listReceipts {t : Tables codec} {c : Abstract.Store codec} (hr : Represents t c)
    {org : String} {flagKey environmentKey : Option String} {after : Option Int} {limit : Int}
    {records : List ReceiptRecord}
    (h : listReceipts t org flagKey environmentKey after limit = .ok records)
    {record : ReceiptRecord} (hmem : record ∈ records) :
    ∃ row ∈ t.receipts, record.rowSeq = row.rowSeq := by
  obtain ⟨row, hrow, hrecord⟩ := receiptRecords_mem h hmem
  have hmem := (List.mem_filter.mp (Table.mem_orderBy.mp (mem_of_mem_page hrow))).1
  refine ⟨row, hmem, ?_⟩
  rw [hr.receipts] at hmem
  obtain ⟨receipt, hreceipt, rfl⟩ := List.mem_map.mp hmem
  have hpos := (hr.receiptSeqs receipt hreceipt).1
  simp only [receiptRecord, bind_eq_ok] at hrecord
  obtain ⟨n, hn, hrecord⟩ := hrecord
  cases hrecord
  unfold revision at hn
  split at hn
  · next v hv =>
    split at hn
    · cases hn
      exact Decimal.eq_of_parseI64_toString hpos.le hv
    · cases hn
  · cases hn

/-- A created flag takes the epoch of its snapshot, above every number given out. -/
theorem Step.created (hi : Inv rt s) (h : Step rt s s')
    {e : Serial.Entry Call Draws Answer} (hlog : s'.log = e :: s.log)
    {org flagKey name valueType : String} {description : Option String}
    (hop : e.call.operation = .createFlag org flagKey name description valueType) :
    ∃ a b row, s.attempts e.session = some a ∧ a.submitted = some b ∧
      s'.tables.flags = row :: s.tables.flags ∧ row.key = (org, flagKey) ∧
      e.value = .fresh (.flag row.record) ∧
      b.statements.head? = some (.guardEpoch (toString row.rowSeq)) ∧
      ∀ old ∈ s.tables.flags, old.rowSeq < row.rowSeq := by
  rcases h.landed hi with ⟨-, hsame⟩ | ⟨i, a, b, c, c', ha, hb, hnew, hguard, hr, -, hr', c₁,
    commands, heffect, rfl⟩
  · rw [hsame] at hlog
    exact absurd hlog.symm (List.cons_ne_self _ _)
  · rw [hnew] at hlog
    obtain ⟨rfl, -⟩ := List.cons.inj hlog
    change a.call.operation = _ at hop
    refine ⟨a, b, ?_⟩
    generalize b.response = response at heffect ⊢
    cases heffect with
    | created hop' hnone =>
      rw [hop] at hop'
      cases hop'
      refine ⟨FlagRow.of (Abstract.newFlag (stamp rt a.draws s.tables) org flagKey name description
        valueType), ha, hb, by rw [hr'.flags, hr.flags, List.map_cons], rfl, rfl, hguard, ?_⟩
      intro old hold
      rw [hr.flags] at hold
      obtain ⟨flag, hflag, rfl⟩ := List.mem_map.mp hold
      exact (hr.rowSeqs flag hflag).2
    | _ hop' =>
      rw [hop] at hop'
      cases hop'

/-! ## The listings -/

/-- Listings are append-only. A new flag is numbered with the epoch of its snapshot, above every
flag; receipts are numbered in the order of the commits and of each request; numbers stay, and the
record of a flag repeats its number. No row appears behind a cursor that a listing has given. -/
theorem listings_append_only (h : Reachable rt s) :
    (∀ s' e org flagKey name description valueType, Step rt s s' → s'.log = e :: s.log →
      e.call.operation = .createFlag org flagKey name description valueType →
      ∃ a b row, s.attempts e.session = some a ∧ a.submitted = some b ∧
        s'.tables.flags = row :: s.tables.flags ∧ row.key = (org, flagKey) ∧
        e.value = .fresh (.flag row.record) ∧
        b.statements.head? = some (.guardEpoch (toString row.rowSeq)) ∧
        ∀ old ∈ s.tables.flags, old.rowSeq < row.rowSeq) ∧
      ((s.tables.receipts.map ReceiptRow.rowSeq).Pairwise (· > ·) ∧
        (s.tables.receipts.map fun row => (row.receiptId, row.flagKey)) =
          (s.log.flatMap fun e =>
            (e.value.response.records.map fun record =>
              (record.receiptId, record.flagKey)).reverse) ∧
        ∀ e ∈ s.log, ∀ subject flagKeys,
          Abstract.evaluates e.call.operation = some (subject, flagKeys) →
            e.value.response.records.map (·.flagKey) = flagKeys) ∧
      (∀ row ∈ s.tables.flags, row.record.rowSeq = row.rowSeq) ∧
      ∀ s', Steps rt s s' →
        (∀ row ∈ s.tables.flags, ∃ row' ∈ s'.tables.flags,
          row'.key = row.key ∧ row'.rowSeq = row.rowSeq) ∧
        (∃ new, s'.tables.receipts = new ++ s.tables.receipts) ∧
        (∀ org includeArchived after limit cursor,
          (FeatureFlags.page limit (·.rowSeq)
            (listFlags s.tables org includeArchived after (limit + 1).toInt)).2 =
              some (toString cursor) →
          ∀ row' ∈ s'.tables.flags, row'.rowSeq ≤ cursor →
            ∃ row ∈ s.tables.flags, row.key = row'.key ∧ row.rowSeq = row'.rowSeq) ∧
        ∀ org flagKey environmentKey after limit records cursor,
          listReceipts s.tables org flagKey environmentKey after (limit + 1).toInt = .ok records →
          (FeatureFlags.page limit (·.rowSeq) records).2 = some (toString cursor) →
          ∀ row' ∈ s'.tables.receipts, row'.rowSeq ≤ cursor → row' ∈ s.tables.receipts := by
  have hi := Inv.reachable h
  have hn := Inv.numbered h
  obtain ⟨c, hr, -⟩ := hi.represented
  refine ⟨fun s' e _ _ _ _ _ hstep hlog hop => hstep.created hi hlog hop,
    ⟨hn.descending, hn.logged, hn.requested⟩, fun row hrow => ?_, fun s' hs => ?_⟩
  · rw [hr.flags] at hrow
    obtain ⟨flag, -, rfl⟩ := List.mem_map.mp hrow
    rfl
  · have hlater := Steps.grows h hs
    obtain ⟨new, hnew⟩ := hlater.kept
    refine ⟨hlater.flags.kept, ⟨new, hnew⟩, fun org includeArchived after limit cursor hpage row'
      hrow' hle => ?_, fun org flagKey environmentKey after limit records cursor hrecords hpage row'
      hrow' hle => ?_⟩
    · obtain ⟨record, hrecord, hcursor⟩ := FeatureFlags.mem_of_page hpage
      obtain ⟨row, hrow, hseq⟩ := mem_listFlags hr hrecord
      refine hlater.flags.behind hrow hrow' ?_
      rw [← hseq, ← Decimal.toString_inj hcursor]
      exact hle
    · obtain ⟨record, hrecord, hcursor⟩ := FeatureFlags.mem_of_page hpage
      obtain ⟨row, hrow, hseq⟩ := mem_listReceipts hr hrecords hrecord
      -- A row with an old number is an old row: later numbers only go up.
      have hlow : row'.rowSeq ≤ row.rowSeq := by
        rw [← hseq, ← Decimal.toString_inj hcursor]
        exact hle
      rw [hnew] at hrow'
      rcases List.mem_append.mp hrow' with hadded | hold
      · have hdescending := (Inv.numbered (h.trans hs)).descending
        rw [hnew, List.map_append, List.pairwise_append] at hdescending
        have habove := hdescending.2.2 _ (List.mem_map_of_mem hadded) _ (List.mem_map_of_mem hrow)
        exact absurd habove (not_lt.mpr hlow)
      · exact hold

/-- After the cursor of the first of two flags, nothing appears at or below its number. -/
theorem listings_append_only_cursor : ∃ s : State Codec.verbatim, Reachable (.atEpoch []) s ∧
    (FeatureFlags.page 1 (·.rowSeq) (listFlags s.tables "org" true none 2)).2 =
      some (toString (1 : Int)) ∧
    ∀ s', Steps (.atEpoch []) s s' → ∀ row' ∈ s'.tables.flags, row'.rowSeq ≤ 1 →
      ∃ row ∈ s.tables.flags, row.key = row'.key ∧ row.rowSeq = row'.rowSeq := by
  obtain ⟨s, h, htables, -⟩ := @exists_calls Codec.verbatim (.atEpoch [])
    [⟨⟨"caller", "actor", "key-1", [1]⟩, .createFlag "org" "a" "A" none "boolean"⟩,
      ⟨⟨"caller", "actor", "key-2", [2]⟩, .createFlag "org" "b" "B" none "boolean"⟩] (by decide)
  have hpage : (FeatureFlags.page 1 (·.rowSeq) (listFlags s.tables "org" true none 2)).2 =
      some (toString (1 : Int)) := by
    rw [htables]
    decide
  refine ⟨s, h, hpage, fun s' hs row' hrow' hle => ?_⟩
  exact ((listings_append_only h).2.2.2 s' hs).2.2.1 "org" true none 1 1 hpage row' hrow' hle

end LensoFlags.D1
