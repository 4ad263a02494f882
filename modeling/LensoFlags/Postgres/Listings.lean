import LensoFlags.Postgres.Serializable
import LensoFlags.Service
import LensoFlags.Lib.Feed

/-!
# Listings

`list_flags` and `list_evaluation_receipts` page through the committed rows in the order of
`row_seq`. A row takes its number from the sequence when it is inserted and becomes visible when its
transaction commits, so a number below a cursor can become visible behind it.

Results:
1. `overtaken`: it does, when a transaction commits after two that inserted after it.
2. `cursor_follows_iff`: it does not while every transaction commits in the order of its numbers, and
   each commit out of this order passes a page by.
-/

namespace LensoFlags.Postgres

variable {codec : Codec} {describe : DbError → String} {rt : Runtime}
  {s s' : State codec describe rt}

/-! ## Commits in order -/

/-- Of two committed rows of its organization, a row that the session has inserted is numbered above
the lower one. -/
structure InOrder (s : State codec describe rt) (t : (store codec describe rt).Session) : Prop where
  flags : Feed.InOrder FlagRow.organizationId FlagRow.key FlagRow.rowSeq s.store.flags
    (t.view s.store).flags
  receipts : Feed.InOrder ReceiptRow.organizationId id ReceiptRow.rowSeq s.store.receipts
    (t.view s.store).receipts

/-- The session commits in the step. -/
def Commits (s s' : State codec describe rt) (t : (store codec describe rt).Session) : Prop :=
  ∃ i t' v, s.sessions i = some t ∧ t.outcome = none ∧ s'.sessions i = some t' ∧
    t'.outcome = some (.ok v)

/-- A step, in order if it is a commit. -/
structure OrderlyStep (s s' : State codec describe rt) : Prop where
  step : Step s s'
  inOrder : ∀ t, Commits s s' t → InOrder s t

def OrderlySteps : State codec describe rt → State codec describe rt → Prop :=
  Relation.ReflTransGen OrderlyStep

theorem OrderlySteps.steps (h : OrderlySteps s s') : Steps s s' :=
  Relation.ReflTransGen.mono (fun _ _ h => h.step) _ _ h

theorem not_commits {i : ℕ} {u : (store codec describe rt).Session}
    (hs' : s'.sessions = Function.update s.sessions i (some u))
    (hu : ∀ v, u.outcome ≠ some (.ok v)) (t : (store codec describe rt).Session) :
    ¬Commits s s' t := by
  rintro ⟨j, t', v, ht, hout, ht', hok⟩
  rw [hs'] at ht'
  rcases Locking.Footprint.session_cases ht' with ⟨-, rfl⟩ | ⟨-, ht''⟩
  · exact hu v hok
  · rw [ht] at ht''
    cases ht''
    rw [hout] at hok
    cases hok

/-- The committed tables change when a session commits, to what it sees. -/
theorem Step.commits_cases (h : Step s s') :
    (s'.store = s.store ∧ ∀ t, ¬Commits s s' t) ∨
      ∃ t, s'.store = t.view s.store ∧ Commits s s' t ∧ ∀ u, Commits s s' u → u = t := by
  cases h.step with
  | begin => exact .inl ⟨rfl, not_commits rfl fun v hok => by cases hok⟩
  | statement _ hout =>
    refine .inl ⟨rfl, not_commits rfl fun v hok => ?_⟩
    cases hout.symm.trans hok
  | @commit i t v ht hout =>
    refine .inr ⟨t, rfl, ⟨i, _, v, ht, hout, Function.update_self .., rfl⟩, ?_⟩
    rintro u ⟨j, u', w, hu, hout', hu', hok⟩
    rcases Locking.Footprint.session_cases hu' with ⟨rfl, -⟩ | ⟨-, hu''⟩
    · rw [ht] at hu
      exact (Option.some.inj hu).symm
    · rw [hu] at hu''
      cases hu''
      rw [hout'] at hok
      cases hok
  | rollback => exact .inl ⟨rfl, not_commits rfl fun v hok => by cases hok⟩

/-! ## The two feeds -/

/-- The rows of each organization, as feeds. A receipt never changes and is its own key. -/
structure Follows (t t' : Tables codec) : Prop where
  flags : ∀ org, Feed.Follows (fun row : FlagRow => row.organizationId = org) FlagRow.key
    FlagRow.rowSeq t.flags t'.flags
  receipts : ∀ org, Feed.Follows (fun row : ReceiptRow => row.organizationId = org) id
    ReceiptRow.rowSeq t.receipts t'.receipts

theorem Follows.refl (t : Tables codec) : Follows t t :=
  ⟨fun _ => .refl _ _ _ _, fun _ => .refl _ _ _ _⟩

theorem Follows.trans {t t' t'' : Tables codec} (h : Follows t t') (h' : Follows t' t'') :
    Follows t t'' where
  flags := fun org => (h.flags org).trans
    (fun _ _ hkey hgroup => (congrArg Prod.fst hkey).symm.trans hgroup) (h'.flags org)
  receipts := fun org => (h.receipts org).trans
    (fun _ _ hkey hgroup => (congrArg ReceiptRow.organizationId hkey).symm.trans hgroup)
    (h'.receipts org)

/-- Row numbers and keys are unique. -/
structure Unique (t : Tables codec) : Prop where
  flagKeys : (t.flags.map FlagRow.key).Nodup
  flagSeqs : (t.flags.map FlagRow.rowSeq).Nodup
  receiptIds : (t.receipts.map ReceiptRow.receiptId).Nodup
  receiptSeqs : (t.receipts.map ReceiptRow.rowSeq).Nodup

theorem Unique.of_represents {t : Tables codec} {c : Abstract.Store codec} (hr : Represents rt t c)
    (hs : Abstract.Sound rt c) : Unique t := by
  have hflagKeys := hs.flagKeys
  have hflagSeqs := hs.flagSeqs
  have hreceiptIds := hs.receiptIds
  have hreceiptSeqs := hs.receiptSeqs
  rw [← hr.rows.flags, List.map_map] at hflagKeys hflagSeqs
  rw [← hr.rows.receipts, List.map_map] at hreceiptIds hreceiptSeqs
  exact ⟨hflagKeys, hflagSeqs, hreceiptIds, hreceiptSeqs⟩

theorem Inv.unique (hi : Inv s) : Unique s.store := by
  obtain ⟨c, hc⟩ := hi.content
  exact .of_represents hc.represents hc.sound

/-- Rows stay, with their keys and numbers, and receipts as they are. -/
structure Kept (t t' : Tables codec) : Prop where
  flags : ∀ row ∈ t.flags, ∃ row' ∈ t'.flags, row'.key = row.key ∧ row'.rowSeq = row.rowSeq
  receipts : ∀ row ∈ t.receipts, row ∈ t'.receipts

theorem mem_receipts_applyAll (ws : List (Write codec)) {t : Tables codec} {row : ReceiptRow}
    (h : row ∈ t.receipts) : row ∈ ((store codec describe rt).applyAll ws t).receipts := by
  induction ws generalizing t with
  | nil => exact h
  | cons w ws ih =>
    refine ih (t := w.apply t) ?_
    cases w with
    | insertReceipt => exact List.mem_cons_of_mem _ h
    | _ => exact h

theorem Step.kept (hi : Inv s) (h : Step s s') : Kept s.store s'.store := by
  constructor
  · intro row hrow
    rcases h.took hi with ⟨hsame, -⟩ | ⟨e, c, c', -, hr, hs, hr', htook⟩
    · rw [hsame]
      exact ⟨row, hrow, rfl, rfl⟩
    have hmem : row.flag rt ∈ c.flags := by
      rw [← hr.rows.flags]
      exact List.mem_map_of_mem hrow
    -- The flag is there afterwards, and it is that of a row.
    obtain ⟨flag', hflag', hkey, hseq⟩ : ∃ flag' ∈ c'.flags,
        flag'.key = row.key ∧ flag'.rowSeq = row.rowSeq := by
      rcases htook.cases with ⟨-, -, rfl⟩ | ⟨_, _, c₁, _, -, -, -, heffect, -, rfl⟩
      · exact ⟨_, hmem, rfl, rfl⟩
      · obtain ⟨flag', hflag', -, hseq, -⟩ :=
          heffect.flagChange.persists (Table.lookup_of_mem hs.flagKeys hmem)
        exact ⟨flag', Table.mem_of_lookup hflag', Table.key_of_lookup hflag', hseq⟩
    rw [← hr'.rows.flags] at hflag'
    obtain ⟨row', hrow', rfl⟩ := List.mem_map.mp hflag'
    exact ⟨row', hrow', hkey, hseq⟩
  · intro row hrow
    rcases h.commits_cases with ⟨hsame, -⟩ | ⟨t, hview, -⟩
    · rwa [hsame]
    · rw [hview]
      exact mem_receipts_applyAll t.writes hrow

theorem Kept.trans {t t' t'' : Tables codec} (h : Kept t t') (h' : Kept t' t'') : Kept t t'' where
  flags := by
    intro row hrow
    obtain ⟨row', hrow', hkey, hseq⟩ := h.flags row hrow
    obtain ⟨row'', hrow'', hkey', hseq'⟩ := h'.flags row' hrow'
    exact ⟨row'', hrow'', hkey'.trans hkey, hseq'.trans hseq⟩
  receipts := fun row hrow => h'.receipts row (h.receipts row hrow)

theorem Steps.kept (h : Reachable s) (hs : Steps s s') : Kept s.store s'.store := by
  induction hs with
  | refl => exact ⟨fun row hrow => ⟨row, hrow, rfl, rfl⟩, fun _ hrow => hrow⟩
  | tail hrun hstep ih => exact ih.trans (hstep.kept (Inv.reachable (h.trans hrun)))

/-- Nothing passes a cursor by in a step exactly when the step is in order. -/
theorem Step.follows_iff (hi : Inv s) (h : Step s s') :
    Follows s.store s'.store ↔ OrderlyStep s s' := by
  have hkept := h.kept hi
  have hunique := (hi.step h).unique
  have hflags := @Feed.follows_iff _ _ FlagRow.key FlagRow.rowSeq _ _ _ FlagRow.organizationId
    hkept.flags hunique.flagKeys
  have hreceipts := @Feed.follows_iff _ _ id ReceiptRow.rowSeq _ _ _ ReceiptRow.organizationId
    (fun row hrow => ⟨row, hkept.receipts row hrow, rfl, rfl⟩)
    (by rw [List.map_id]; exact hunique.receiptIds.of_map _)
  rcases h.commits_cases with ⟨hsame, hnone⟩ | ⟨t, hview, hcommits, honly⟩
  · rw [hsame]
    exact ⟨fun _ => ⟨h, fun t ht => absurd ht (hnone t)⟩, fun _ => .refl _⟩
  · rw [hview] at hflags hreceipts ⊢
    constructor
    · refine fun hfollows => ⟨h, fun u hu => ?_⟩
      rw [honly u hu]
      exact ⟨hflags.mp hfollows.flags, hreceipts.mp hfollows.receipts⟩
    · intro horderly
      have horder := horderly.inOrder t hcommits
      exact ⟨hflags.mpr horder.flags, hreceipts.mpr horder.receipts⟩

theorem OrderlySteps.follows (h : Reachable s) (hs : OrderlySteps s s') :
    Follows s.store s'.store := by
  induction hs with
  | refl => exact .refl _
  | tail hrun hstep ih =>
    have hi := Inv.reachable (h.trans (OrderlySteps.steps hrun))
    exact ih.trans ((hstep.step.follows_iff hi).mpr hstep)

/-! ## Pages -/

/-- The rows that a listing fetches. -/
theorem page_eq_ok {Row : Type} {operation : String} {limit : Int} {rows fetched : List Row}
    (h : page describe operation limit rows = .ok fetched) : fetched = rows.take limit.toNat := by
  unfold page at h
  split at h
  · cases h
  · cases h
    rfl

/-- The cursor of a page is the number of the last row on it. -/
theorem cursor_eq {Row α : Type} {limit : Int64} {rowSeq : α → Int} (seq : Row → Int)
    (record : Row → α) (hseq : ∀ row, rowSeq (record row) = seq row) {fetched : List Row}
    {cursor : Int}
    (h : (FeatureFlags.page limit rowSeq (fetched.map record)).2 = some (toString cursor)) :
    (FeatureFlags.page limit rowSeq (fetched.map record)).1 = fetched.dropLast.map record ∧
      ∃ row, fetched.dropLast.getLast? = some row ∧ seq row = cursor := by
  unfold FeatureFlags.page at h ⊢
  split at h
  · next hlt =>
    rw [if_pos hlt]
    rw [← List.map_dropLast, List.getLast?_map, Option.map_map] at h
    obtain ⟨row, hrow, hcursor⟩ := Option.map_eq_some_iff.mp h
    exact ⟨List.map_dropLast.symm, row, hrow, (hseq row).symm.trans (Decimal.toString_inj hcursor)⟩
  · cases h

/-- A page of `list_flags` with archived flags, and its cursor. -/
def FlagPage (describe : DbError → String) (rt : Runtime) (t : Tables codec) (org : String)
    (after : Option Int) (limit : Int64) (flags : List FlagRecord) (cursor : Int) : Prop :=
  ∃ records, listFlags describe rt t org true after (limit + 1).toInt = .ok records ∧
    FeatureFlags.page limit (·.rowSeq) records = (flags, some (toString cursor))

/-- A page of `list_evaluation_receipts`, and its cursor. -/
def ReceiptPage (describe : DbError → String) (rt : Runtime) (t : Tables codec) (org : String)
    (flagKey environmentKey : Option String) (after : Option Int) (limit : Int64)
    (receipts : List ReceiptRecord) (cursor : Int) : Prop :=
  ∃ records,
    listReceipts describe rt t org flagKey environmentKey after (limit + 1).toInt = .ok records ∧
      FeatureFlags.page limit (·.rowSeq) records = (receipts, some (toString cursor))

section Pages

variable {t : Tables codec} {org : String} {flagKey environmentKey : Option String}
  {after : Option Int} {limit : Int64} {cursor : Int}

theorem flagPage_of_cursor
    (h : ((listFlags describe rt t org true after (limit + 1).toInt).toOption.bind fun records =>
      (FeatureFlags.page limit (·.rowSeq) records).2) = some (toString cursor)) :
    ∃ flags, FlagPage describe rt t org after limit flags cursor := by
  obtain ⟨records, hrecords, hcursor⟩ := Option.bind_eq_some_iff.mp h
  cases hlist : listFlags describe rt t org true after (limit + 1).toInt with
  | error e =>
    rw [hlist] at hrecords
    cases hrecords
  | ok found =>
    rw [hlist] at hrecords
    cases hrecords
    exact ⟨_, records, hlist, Prod.ext rfl hcursor⟩

/-- A flag behind the cursor is on the page, if it is not before its start. -/
theorem FlagPage.reached {flags : List FlagRecord} (hu : Unique t)
    (h : FlagPage describe rt t org after limit flags cursor) :
    Feed.Reached (fun row : FlagRow => row.organizationId = org) FlagRow.rowSeq t.flags cursor ∧
      ∀ row ∈ t.flags, row.organizationId = org → after.getD 0 < row.rowSeq →
        row.rowSeq ≤ cursor → flagFromRow rt row ∈ flags := by
  obtain ⟨records, hrecords, hpage⟩ := h
  simp only [listFlags, bind_eq_ok] at hrecords
  obtain ⟨fetched, hfetched, hrecords⟩ := hrecords
  cases hrecords
  obtain ⟨hflags, last, hlast, rfl⟩ :=
    cursor_eq FlagRow.rowSeq (flagFromRow rt) (fun _ => rfl) (congrArg Prod.snd hpage)
  rw [hpage] at hflags
  have hflags' : flags = fetched.dropLast.map (flagFromRow rt) := hflags
  rw [page_eq_ok hfetched] at hlast hflags'
  refine ⟨Feed.reached_of_page hu.flagSeqs (fun row hq => ?_) hlast,
    fun row hrow horg hafter hle => ?_⟩
  · simp only [Bool.and_eq_true, decide_eq_true_eq] at hq
    exact hq.1.1
  · rw [hflags']
    exact List.mem_map_of_mem
      (Feed.mem_of_page hu.flagSeqs hlast hrow (by simp [horg, hafter]) hle)

/-- A receipt behind the cursor is on the page, if it is not before its start. -/
theorem ReceiptPage.reached {receipts : List ReceiptRecord} (hu : Unique t)
    (h : ReceiptPage describe rt t org flagKey environmentKey after limit receipts cursor) :
    Feed.Reached (fun row : ReceiptRow => row.organizationId = org) ReceiptRow.rowSeq t.receipts
        cursor ∧
      ∀ row ∈ t.receipts, row.organizationId = org → flagKey.all (· == row.flagKey) = true →
        environmentKey.all (· == row.environmentKey) = true → after.getD 0 < row.rowSeq →
        row.rowSeq ≤ cursor → receiptFromRow rt row ∈ receipts := by
  obtain ⟨records, hrecords, hpage⟩ := h
  simp only [listReceipts, bind_eq_ok] at hrecords
  obtain ⟨fetched, hfetched, hrecords⟩ := hrecords
  cases hrecords
  obtain ⟨hreceipts, last, hlast, rfl⟩ :=
    cursor_eq ReceiptRow.rowSeq (receiptFromRow rt) (fun _ => rfl) (congrArg Prod.snd hpage)
  rw [hpage] at hreceipts
  have hreceipts' : receipts = fetched.dropLast.map (receiptFromRow rt) := hreceipts
  rw [page_eq_ok hfetched] at hlast hreceipts'
  refine ⟨Feed.reached_of_page hu.receiptSeqs (fun row hq => ?_) hlast,
    fun row hrow horg hflag henvironment hafter hle => ?_⟩
  · simp only [Bool.and_eq_true, decide_eq_true_eq] at hq
    exact hq.1.1.1
  · rw [hreceipts']
    exact List.mem_map_of_mem (Feed.mem_of_page hu.receiptSeqs hlast hrow
      (by simp [horg, hflag, henvironment, hafter]) hle)

/-- A cursor is that of a page of one flag. -/
theorem exists_flagPage (describe : DbError → String) (rt : Runtime)
    (h : Feed.Reached (fun row : FlagRow => row.organizationId = org) FlagRow.rowSeq t.flags
      cursor) : ∃ flags, FlagPage describe rt t org (some (cursor - 1)) 1 flags cursor := by
  obtain ⟨row, next, rfl, htake⟩ := @Feed.page_of_reached FlagRow FlagRow.rowSeq t.flags
    (fun row => row.organizationId = org && (true || !row.archived)) cursor (by simpa using h)
  refine ⟨[flagFromRow rt row], [row, next].map (flagFromRow rt), ?_, rfl⟩
  rw [← htake]
  rfl

/-- A cursor is that of a page of one receipt. -/
theorem exists_receiptPage (describe : DbError → String) (rt : Runtime)
    (h : Feed.Reached (fun row : ReceiptRow => row.organizationId = org) ReceiptRow.rowSeq
      t.receipts cursor) :
    ∃ receipts, ReceiptPage describe rt t org none none (some (cursor - 1)) 1 receipts cursor := by
  obtain ⟨row, next, rfl, htake⟩ := @Feed.page_of_reached ReceiptRow ReceiptRow.rowSeq t.receipts
    (fun row => row.organizationId = org && true && true) cursor (by simpa using h)
  refine ⟨[receiptFromRow rt row], [row, next].map (receiptFromRow rt), ?_, rfl⟩
  rw [← htake]
  rfl

end Pages

/-! ## The law of the cursor -/

/-- While transactions commit in order, a flag behind a cursor was there, and is on the page if it
is not before its start. -/
theorem OrderlySteps.flagPage (h : Reachable s) (hs : OrderlySteps s s') {org : String}
    {after : Option Int} {limit : Int64} {flags : List FlagRecord} {cursor : Int}
    (hpage : FlagPage describe rt s.store org after limit flags cursor) {row' : FlagRow}
    (hrow' : row' ∈ s'.store.flags) (horg : row'.organizationId = org)
    (hle : row'.rowSeq ≤ cursor) :
    (∃ row ∈ s.store.flags, row.key = row'.key ∧ row.rowSeq = row'.rowSeq) ∧
      (after.getD 0 < row'.rowSeq → ∃ record ∈ flags,
        record.flagKey = row'.flagKey ∧ record.rowSeq = row'.rowSeq) := by
  obtain ⟨hreached, hon⟩ := hpage.reached (Inv.reachable h).unique
  obtain ⟨row, hrow, hkey, hseq⟩ :=
    ((hs.follows h).flags org).behind cursor hreached row' hrow' horg hle
  obtain ⟨horg', hflagKey⟩ := Prod.mk.inj hkey
  refine ⟨⟨row, hrow, hkey, hseq⟩, fun hafter => ⟨_, hon row hrow (horg'.trans horg) ?_ ?_, hflagKey,
    hseq⟩⟩
  · rwa [hseq]
  · rwa [hseq]

theorem OrderlySteps.receiptPage (h : Reachable s) (hs : OrderlySteps s s') {org : String}
    {flagKey environmentKey : Option String} {after : Option Int} {limit : Int64}
    {receipts : List ReceiptRecord} {cursor : Int}
    (hpage : ReceiptPage describe rt s.store org flagKey environmentKey after limit receipts cursor)
    {row' : ReceiptRow} (hrow' : row' ∈ s'.store.receipts) (horg : row'.organizationId = org)
    (hflag : flagKey.all (· == row'.flagKey) = true)
    (henvironment : environmentKey.all (· == row'.environmentKey) = true)
    (hle : row'.rowSeq ≤ cursor) :
    row' ∈ s.store.receipts ∧
      (after.getD 0 < row'.rowSeq → receiptFromRow rt row' ∈ receipts) := by
  obtain ⟨hreached, hon⟩ := hpage.reached (Inv.reachable h).unique
  obtain ⟨row, hrow, rfl, -⟩ :=
    ((hs.follows h).receipts org).behind cursor hreached row' hrow' horg hle
  exact ⟨hrow, fun hafter => hon row hrow horg hflag henvironment hafter hle⟩

/-- A commit out of order passes a page by. -/
theorem Step.passes (hi : Inv s) (h : Step s s') (hnot : ¬OrderlyStep s s') :
    (∃ org after flags cursor, FlagPage describe rt s.store org after 1 flags cursor ∧
      ∃ row' ∈ s'.store.flags, row'.organizationId = org ∧ row'.rowSeq ≤ cursor ∧
        ∀ row ∈ s.store.flags, row.key ≠ row'.key) ∨
      ∃ org after receipts cursor,
        ReceiptPage describe rt s.store org none none after 1 receipts cursor ∧
          ∃ row' ∈ s'.store.receipts, row'.organizationId = org ∧ row'.rowSeq ≤ cursor ∧
            row' ∉ s.store.receipts := by
  have hkept := h.kept hi
  have hunique := (hi.step h).unique
  by_contra hnone
  push Not at hnone
  obtain ⟨hflags, hreceipts⟩ := hnone
  refine hnot ((h.follows_iff hi).mp ⟨fun org => ⟨hkept.flags, fun n hn row' hrow' horg hle => ?_⟩,
    fun org => ⟨fun row hrow => ⟨row, hkept.receipts row hrow, rfl, rfl⟩,
      fun n hn row' hrow' horg hle => ?_⟩⟩)
  · obtain ⟨flags, hpage⟩ := exists_flagPage describe rt hn
    obtain ⟨row, hrow, hkey⟩ := hflags org _ flags n hpage row' hrow' horg hle
    -- A row with an old key is the old row, with its number.
    obtain ⟨same, hsame, hkey', hseq⟩ := hkept.flags row hrow
    cases List.inj_on_of_nodup_map hunique.flagKeys hsame hrow' (hkey'.trans hkey)
    exact ⟨row, hrow, hkey, hseq.symm⟩
  · obtain ⟨receipts, hpage⟩ := exists_receiptPage describe rt hn
    exact ⟨row', hreceipts org _ receipts n hpage row' hrow' horg hle, rfl, rfl⟩

/-- While every transaction commits in the order of its numbers, no flag or receipt appears behind a
cursor, and a page has every one from its start to its cursor. A commit out of this order passes a
page by. -/
theorem cursor_follows_iff (h : Reachable s) :
    (∀ s', OrderlySteps s s' →
      (∀ org after limit flags cursor,
        FlagPage describe rt s.store org after limit flags cursor →
        ∀ row' ∈ s'.store.flags, row'.organizationId = org → row'.rowSeq ≤ cursor →
          (∃ row ∈ s.store.flags, row.key = row'.key ∧ row.rowSeq = row'.rowSeq) ∧
            (after.getD 0 < row'.rowSeq → ∃ record ∈ flags,
              record.flagKey = row'.flagKey ∧ record.rowSeq = row'.rowSeq)) ∧
        ∀ org flagKey environmentKey after limit receipts cursor,
          ReceiptPage describe rt s.store org flagKey environmentKey after limit receipts cursor →
          ∀ row' ∈ s'.store.receipts, row'.organizationId = org →
            flagKey.all (· == row'.flagKey) = true →
            environmentKey.all (· == row'.environmentKey) = true → row'.rowSeq ≤ cursor →
            row' ∈ s.store.receipts ∧
              (after.getD 0 < row'.rowSeq → receiptFromRow rt row' ∈ receipts)) ∧
      ∀ s', Step s s' → ¬OrderlyStep s s' →
        (∃ org after flags cursor, FlagPage describe rt s.store org after 1 flags cursor ∧
          ∃ row' ∈ s'.store.flags, row'.organizationId = org ∧ row'.rowSeq ≤ cursor ∧
            ∀ row ∈ s.store.flags, row.key ≠ row'.key) ∨
          ∃ org after receipts cursor,
            ReceiptPage describe rt s.store org none none after 1 receipts cursor ∧
              ∃ row' ∈ s'.store.receipts, row'.organizationId = org ∧ row'.rowSeq ≤ cursor ∧
                row' ∉ s.store.receipts :=
  ⟨fun _ hs =>
    ⟨fun _ _ _ _ _ hpage _ hrow' horg hle => hs.flagPage h hpage hrow' horg hle,
      fun _ _ _ _ _ _ _ hpage _ hrow' horg hflag henvironment hle =>
        hs.receiptPage h hpage hrow' horg hflag henvironment hle⟩,
    fun _ hstep hnot => hstep.passes (Inv.reachable h) hnot⟩

/-- Two flags made one after the other, and the cursor of the first. -/
theorem cursor_follows_first :
    ∃ s : State Codec.verbatim (fun _ => "") (.atEpoch []), Reachable s ∧
      (∃ flags, FlagPage (fun _ => "") (.atEpoch []) s.store "org" none 1 flags 5) ∧
      ∀ s', OrderlySteps s s' → ∀ row' ∈ s'.store.flags, row'.organizationId = "org" →
        row'.rowSeq ≤ 5 → ∃ row ∈ s.store.flags, row.key = row'.key ∧ row.rowSeq = row'.rowSeq := by
  obtain ⟨s, h, hstore, -⟩ := @exists_calls Codec.verbatim (fun _ => "") (.atEpoch [])
    [⟨⟨"caller", "actor", "key-1", [1]⟩, .createFlag "org" "a" "A" none "boolean"⟩,
      ⟨⟨"caller", "actor", "key-2", [2]⟩, .createFlag "org" "b" "B" none "boolean"⟩]
  obtain ⟨flags, hpage⟩ : ∃ flags,
      FlagPage (fun _ => "") (.atEpoch []) s.store "org" none 1 flags 5 := by
    rw [hstore]
    exact flagPage_of_cursor (by decide)
  exact ⟨s, h, ⟨flags, hpage⟩, fun s' hs row' hrow' horg hle =>
    (((cursor_follows_iff h).1 s' hs).1 "org" none 1 flags 5 hpage row' hrow' horg hle).1⟩

/-- A transaction that inserted a flag before two others and commits after them. A reader that has
followed the cursor of the second flag never sees the first. -/
theorem overtaken :
    ∃ s s' : State Codec.verbatim (fun _ => "") (.atEpoch []), Reachable s ∧ Steps s s' ∧
      (∃ flags, FlagPage (fun _ => "") (.atEpoch []) s.store "org" none 1 flags 6) ∧
      (∀ row ∈ s.store.flags, row.key ≠ ("org", "a")) ∧
      ∃ row' ∈ s'.store.flags, row'.key = ("org", "a") ∧ row'.rowSeq = 5 := by
  let db := store Codec.verbatim (fun _ => "") (.atEpoch [])
  let create : ℕ → String → Call := fun n flagKey =>
    ⟨⟨"caller", "actor", toString n, [n.toUInt8]⟩, .createFlag "org" flagKey "Flag" none "boolean"⟩
  let begun := Locking.Database.Session.begin db (create 0 "a") (Draws.numbered 0)
  -- The first transaction inserts its flag, and stops there.
  let waiting : db.Session := begun.run (Tables.empty : Tables Codec.verbatim) 3
  obtain ⟨s₁, h₁, hstore₁, hsession₁, hcases₁⟩ :
      ∃ s₁ : State Codec.verbatim (fun _ => "") (.atEpoch []), Reachable s₁ ∧
        s₁.store = Tables.empty ∧ s₁.sessions 0 = some waiting ∧
        ∀ j t, s₁.sessions j = some t → j = 0 ∧ t = waiting := by
    refine ⟨_, Steps.begin_run (create 0 "a") 3 rfl (.numbered 0) (fun j t ht => nomatch ht)
      (fun j t ht => nomatch ht), rfl, Function.update_self .., fun j t ht => ?_⟩
    rcases Locking.Footprint.session_cases ht with hself | ⟨-, hnone⟩
    · exact hself
    · cases hnone
  have hnone₁ : ∀ j, j ≠ 0 → s₁.sessions j = none := by
    intro j hj
    cases ht : s₁.sessions j with
    | none => rfl
    | some t => exact absurd (hcases₁ j t ht).1 hj
  -- Two more come and go.
  obtain ⟨s₂, t₂, h₂, hstore₂, hsessions₂, -, hdraws₂, hheld₂, -⟩ :=
    Steps.apart (create 1 "b") (hnone₁ 1 (by decide)) (.numbered 1)
      (fun j t ht => by
        rw [(hcases₁ j t ht).2]
        exact .numbered (m := 0) (by decide))
      (fun j t ht => by
        rw [(hcases₁ j t ht).2, hstore₁]
        decide)
  obtain ⟨s₃, t₃, h₃, hstore₃, hsessions₃, -, hdraws₃, hheld₃, -⟩ :=
    Steps.apart (s := s₂) (create 2 "c") (i := 2)
      (by rw [hsessions₂, Function.update_of_ne (by decide), hnone₁ 2 (by decide)]) (.numbered 2)
      (fun j t ht => by
        rw [hsessions₂] at ht
        rcases Locking.Footprint.session_cases ht with ⟨-, rfl⟩ | ⟨-, ht⟩
        · rw [hdraws₂]
          exact .numbered (by decide)
        · rw [(hcases₁ j t ht).2]
          exact .numbered (m := 0) (by decide))
      (fun j t ht => by
        rw [hsessions₂] at ht
        rcases Locking.Footprint.session_cases ht with ⟨-, rfl⟩ | ⟨-, ht⟩
        · rw [hheld₂]
          exact fun _ _ _ hm => absurd hm List.not_mem_nil
        · rw [(hcases₁ j t ht).2, hstore₂, hstore₁]
          decide)
  have hsession₃ : s₃.sessions 0 = some waiting := by
    rw [hsessions₃, Function.update_of_ne (by decide), hsessions₂,
      Function.update_of_ne (by decide), hsession₁]
  have hidle₃ : ∀ j t, j ≠ 0 → s₃.sessions j = some t → t.held = [] := by
    intro j t hj ht
    rw [hsessions₃] at ht
    rcases Locking.Footprint.session_cases ht with ⟨-, rfl⟩ | ⟨-, ht⟩
    · exact hheld₃
    · rw [hsessions₂] at ht
      rcases Locking.Footprint.session_cases ht with ⟨-, rfl⟩ | ⟨-, ht⟩
      · exact hheld₂
      · exact absurd (hcases₁ j t ht).1 hj
  have hstore : s₃.store = (db.alone (Draws.numbered 2)
      (db.alone (Draws.numbered 1) (Tables.empty : Tables Codec.verbatim) (create 1 "b")).2
      (create 2 "c")).2 := by
    rw [hstore₃, hstore₂, hstore₁]
  -- Now the first commits.
  obtain ⟨answer, hok⟩ : ∃ answer,
      (db.runOn waiting.draws waiting.pos waiting.rest (waiting.view s₃.store)).1 = .ok answer := by
    have hisOk : (db.runOn waiting.draws waiting.pos waiting.rest
        (waiting.view s₃.store)).1.isOk = true := by
      rw [hstore]
      decide
    revert hisOk
    generalize (db.runOn waiting.draws waiting.pos waiting.rest (waiting.view s₃.store)).1 = x
    intro hisOk
    cases x with
    | ok answer => exact ⟨answer, rfl⟩
    | error e => cases hisOk
  obtain ⟨s₄, t₄, h₄, hstore₄, -⟩ := Locking.Database.exists_committed hsession₃ rfl hok
    fun j t hj ht r m m' _ hm' => by
      rw [hidle₃ j t hj ht] at hm'
      cases hm'
  refine ⟨s₃, s₄, h₁.trans (h₂.trans h₃), Steps.of_continues h₄, ?_, ?_, ?_⟩
  · rw [hstore]
    exact flagPage_of_cursor (by decide)
  · rw [hstore]
    decide
  · rw [hstore₄, hstore]
    decide

end LensoFlags.Postgres
