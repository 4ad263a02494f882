import LensoFlags.Pages
import LensoFlags.Shown

/-!
# Traversals

A client of a deployment that goes through a listing asks for page after page while others write. Its
pages are read from later and later abstract stores, so what is lawful of the listing of such a store
holds of the client's pages.

Results:
1. `flagListing_lawful`, `receiptListing_lawful`: the listings of the abstract store are lawful.
2. `Traversal.reading`: a traversal reads the listing of later and later stores.
3. `Traversal.once`: what was there before the traversal comes once in it.
4. `Query.exists_traversal`: a client that is granted a listing can go through it to its end.
-/

namespace LensoFlags

open Locking Locking.Program
open Decimal (i64Max)

/-! ## Listings of the abstract store -/

namespace Abstract

variable {codec : Codec} {rt : Runtime} {platform : Platform} {org : String}

/-- A page of fetched records is answered. -/
structure Answers {Record Item : Type} (rowSeq : Record → Int) (cast : Record → Option Item)
    (fetch : Option Int → ℕ → List Record) (after : Option String) (items : List Item)
    (next : Option String) (start : Option Int) (limit : Int64) : Prop where
  parsed : parseCursor after = some start
  bounded : (1 ≤ limit && limit ≤ 200) = true
  items : optionAll cast
    (FeatureFlags.page limit rowSeq (fetch start (limit + 1).toInt.toNat)).1 = some items
  next : next = (FeatureFlags.page limit rowSeq (fetch start (limit + 1).toInt.toNat)).2

variable (codec platform org) in
/-- `list_flags` of one organization. -/
def flagListing (includeArchived : Bool) :
    Listing (Store codec) Flag FlagResponse (String × String) where
  rows c := c.flags
  seq := Flag.rowSeq
  key := Flag.key
  selects flag := flag.organizationId = org && (includeArchived || !flag.archived)
  cast flag := castFlag platform flag.record
  itemKey item := (item.organizationId, item.flagKey)
  serves c after limit items next := ∃ start, Answers FlagRecord.rowSeq (castFlag platform)
    (listFlags c org includeArchived) after items next start limit

variable (codec platform org) in
/-- `list_evaluation_receipts` of one organization. -/
def receiptListing (flagKey environmentKey : Option String) :
    Listing (Store codec) Receipt ReceiptResponse String where
  rows c := c.receipts
  seq := Receipt.rowSeq
  key := Receipt.receiptId
  selects receipt := receipt.organizationId = org && flagKey.all (· == receipt.flagKey)
    && environmentKey.all (· == receipt.environmentKey)
  cast receipt := castReceipt platform receipt.record
  itemKey := ReceiptResponse.receiptId
  serves c after limit items next := ∃ start, Answers ReceiptRecord.rowSeq (castReceipt platform)
    (listReceipts c org flagKey environmentKey) after items next start limit

/-- A store of a history. -/
def Reached (rt : Runtime) (c : Store codec) : Prop := ∃ history, Run rt history c

theorem Reached.sound {c : Store codec} (h : Reached rt c) : Sound rt c := by
  obtain ⟨history, hrun⟩ := h
  exact hrun.sound

theorem flagListing_lawful {includeArchived : Bool} :
    (flagListing codec platform org includeArchived).Lawful (Reached rt)
      (fun c c' => Later rt c c' ∧ Reached rt c') fun _ => False where
  steps := fun _ hlater => hlater.2
  seqs := fun h => h.sound.flagSeqs
  keys := fun h => h.sound.flagKeys
  positive := fun h => h.sound.flagPositive
  kept := by
    rintro c c' h ⟨hlater, -⟩ flag hflag
    obtain ⟨flag', hflag', -, hseq⟩ :=
      hlater.persists (Table.lookup_of_mem h.sound.flagKeys hflag)
    exact ⟨flag', Table.mem_of_lookup hflag', Table.key_of_lookup hflag', hseq⟩
  named := by
    intro c _ flag _ item hitem
    obtain ⟨horg, hkey⟩ := castFlag_key hitem
    exact Prod.ext horg hkey
  serves := by
    rintro c after limit items next - ⟨start, hanswers⟩
    obtain ⟨kept, n, hserves, -⟩ := @Listing.serves_of_page _ _ _ _ _
      (flagListing codec platform org includeArchived) c _ _ _ _ _ Flag.record _ _
      (fun _ _ => rfl) (fun _ => rfl) hanswers.parsed hanswers.bounded _ rfl hanswers.items
      hanswers.next
    exact ⟨start, kept, n, hserves, False.elim⟩

theorem receiptListing_lawful {flagKey environmentKey : Option String} :
    (receiptListing codec platform org flagKey environmentKey).Lawful (Reached rt)
      (fun c c' => Later rt c c' ∧ Reached rt c') fun _ => False where
  steps := fun _ hlater => hlater.2
  seqs := fun h => h.sound.receiptSeqs
  keys := fun h => h.sound.receiptIds
  positive := fun h => h.sound.receiptPositive
  kept := fun _ hlater receipt hreceipt => ⟨receipt, hlater.1.receipts.mem hreceipt, rfl, rfl⟩
  named := fun _ _ _ _ hitem => castReceipt_key hitem
  serves := by
    rintro c after limit items next - ⟨start, hanswers⟩
    obtain ⟨kept, n, hserves, -⟩ := @Listing.serves_of_page _ _ _ _ _
      (receiptListing codec platform org flagKey environmentKey) c _ _ _ _ _ Receipt.record _ _
      (fun _ _ => rfl) (fun _ => rfl) hanswers.parsed hanswers.bounded _ rfl hanswers.items
      hanswers.next
    exact ⟨start, kept, n, hserves, False.elim⟩

end Abstract

/-- The store tells the pages of the abstract store it holds, if the numbers fit an `i64`. -/
structure Backend.Lists (B : Backend) (codec : Codec)
    (Holds : B.State → Abstract.Store codec → Prop) : Prop where
  flags : ∀ s, B.Reachable s → ∀ c, Holds s c → ∀ org includeArchived after (limit : Int)
    (records : List FlagRecord), 0 ≤ limit →
      B.Tells s (.listFlags org includeArchived after limit) (.ok records) →
        records = Abstract.listFlags c org includeArchived after limit.toNat
  receipts : ∀ s, B.Reachable s → ∀ c, Holds s c → ∀ org flagKey environmentKey after (limit : Int)
    (records : List ReceiptRecord), 0 ≤ limit →
      B.Tells s (.listReceipts org flagKey environmentKey after limit) (.ok records) →
        records = Abstract.listReceipts c org flagKey environmentKey after limit.toNat
  tellsFlags : ∀ s c, Holds s c → ∀ org includeArchived after (limit : Int), 0 ≤ limit →
    B.Tells s (.listFlags org includeArchived after limit)
      (.ok (Abstract.listFlags c org includeArchived after limit.toNat))
  tellsReceipts : ∀ s c, Holds s c → (∀ receipt ∈ c.receipts, receipt.rowSeq ≤ i64Max) →
    ∀ org flagKey environmentKey after (limit : Int), 0 ≤ limit →
      B.Tells s (.listReceipts org flagKey environmentKey after limit)
        (.ok (Abstract.listReceipts c org flagKey environmentKey after limit.toNat))

theorem D1.lists {codec : Codec} {rt : Runtime} :
    (D1.backend codec rt).Lists codec fun s c => D1.Represents s.tables c where
  flags := by
    rintro s - c hr org includeArchived after limit records hlimit (htells | ⟨_, -, htells⟩)
    · rw [hr.listFlags org includeArchived after hlimit] at htells
      exact Except.ok.inj htells
    · cases htells
  receipts := by
    rintro s - c hr org flagKey environmentKey after limit records hlimit (htells | ⟨_, -, htells⟩)
    · rw [D1.listReceipts, D1.page, if_neg (by omega), hr.receipts, List.filter_map,
        Table.orderBy_map, ← List.map_take] at htells
      -- What is read back is what was written, as far as it fits an `i64`.
      have hread := D1.receiptRecords_eq_listed (fun row hrow => by
        obtain ⟨receipt, hreceipt, rfl⟩ := List.mem_map.mp hrow
        exact (hr.receiptSeqs receipt (List.mem_of_mem_filter
          (Table.mem_orderBy.mp (List.mem_of_mem_take hreceipt)))).1) htells.symm
      exact hread.1.trans List.map_map
    · cases htells
  tellsFlags := fun s c hr org includeArchived after limit hlimit =>
    .inl (congrArg Except.ok (hr.listFlags org includeArchived after hlimit).symm)
  tellsReceipts := fun s c hr hfits org flagKey environmentKey after limit hlimit =>
    .inl (hr.listReceipts hfits org flagKey environmentKey after hlimit).symm

theorem Postgres.lists {codec : Codec} {describe : Postgres.DbError → String} {rt : Runtime} :
    (Postgres.backend codec describe rt).Lists codec fun s c =>
      Postgres.Represents rt s.store c where
  flags := by
    rintro s - c hr org includeArchived after limit records hlimit (htells | ⟨_, -, htells⟩)
    · rw [hr.rows.listFlags describe org includeArchived after hlimit] at htells
      exact Except.ok.inj htells
    · cases htells
  receipts := by
    rintro s - c hr org flagKey environmentKey after limit records hlimit (htells | ⟨_, -, htells⟩)
    · rw [hr.rows.listReceipts describe org flagKey environmentKey after hlimit] at htells
      exact Except.ok.inj htells
    · cases htells
  tellsFlags := fun s c hr org includeArchived after limit hlimit =>
    .inl (hr.rows.listFlags describe org includeArchived after hlimit).symm
  tellsReceipts := fun s c hr _ org flagKey environmentKey after limit hlimit =>
    .inl (hr.rows.listReceipts describe org flagKey environmentKey after hlimit).symm

namespace Deployment

variable {B : Backend} {codec : Codec} {platform : Platform} {rt : Runtime}
  {config : PolicyConfig} {Holds : B.State → Abstract.Store codec → Prop} {s s₁ s' : State B}
  {after next : Option String} {org : String}

/-! ## Pages of a deployment -/

/-- The requests for the pages of a listing, and the answers to them. -/
structure Query (Item : Type) where
  request : Option String → Int64 → Request
  respond : List Item → Option String → ServiceResponse

def flagQuery (org : String) (includeArchived : Bool) : Query FlagResponse where
  request after limit := .listFlags ⟨after, includeArchived, limit, org⟩
  respond flags next := .flags ⟨flags, next⟩

def receiptQuery (org : String) (flagKey environmentKey : Option String) : Query ReceiptResponse where
  request after limit := .listEvaluationReceipts ⟨after, environmentKey, flagKey, limit, org⟩
  respond receipts next := .receipts ⟨receipts, next⟩

variable (platform rt config) in
/-- Somebody asks for the page behind the cursor, and gets it. -/
def Query.Asked {Item : Type} (query : Query Item) (s s' : State B) (after : Option String)
    (items : List Item) (next : Option String) : Prop :=
  Steps B platform rt config s s' ∧ ∃ i f limit, s.requests i = none ∧ s'.requests i = some f ∧
    f.request = query.request after limit ∧ f.rest = .ret (query.respond items next)

variable (platform rt config) in
/-- Page after page is asked for, each with the cursor that the one before was answered with, until
there is none. -/
inductive Query.Traversal {Item : Type} (query : Query Item) :
    State B → Option String → List (List Item) → State B → Prop
  | last {s s' : State B} {after : Option String} {items : List Item} :
      query.Asked platform rt config s s' after items none → Traversal query s after [items] s'
  | more {s s₁ s' : State B} {after : Option String} {items : List Item} {cursor : String}
      {pages : List (List Item)} :
      query.Asked platform rt config s s₁ after items (some cursor) →
      Traversal query s₁ (some cursor) pages s' → Traversal query s after (items :: pages) s'

variable (platform rt config Holds) in
/-- The pages of the query are pages of the listing of a store that is held meanwhile. -/
def Query.Reads {Row Item Key : Type} (query : Query Item)
    (L : Listing (Abstract.Store codec) Row Item Key) : Prop :=
  ∀ (s s' : State B) after items next, Reachable B platform rt config s →
    query.Asked platform rt config s s' after items next →
      ∃ m c limit, B.Steps s.store m ∧ B.Steps m s'.store ∧ Holds m c ∧
        L.serves c after limit items next

/-- What a request was told since it arrived, it was told at a moment on the way. -/
theorem exists_told (hB : B.Lawful) (hm : B.Mirrors codec rt Holds)
    (h : Reachable B platform rt config s) (hsteps : Steps B platform rt config s s') {i : ℕ}
    {f : InFlight} (hnone : s.requests i = none) (hf : s'.requests i = some f) {call : StoreCall}
    {reply : (Ask.store call).Reply} (hread : call.command = none)
    (hmem : ⟨.store call, reply⟩ ∈ f.trace) :
    ∃ m c, B.Steps s.store m ∧ B.Steps m s'.store ∧ B.Reachable m ∧ Holds m c ∧
      B.Tells m call reply := by
  obtain ⟨moments, hsince⟩ := exists_since hB hm h hsteps
  obtain ⟨m, hmoment, htells⟩ := hsince.told i f hnone hf call reply hread hmem
  have hreachable := (Inv.reachable hB h).store.trans (hsince.after m hmoment)
  obtain ⟨c, hc, -⟩ := hm.held m hreachable
  exact ⟨m, c, hsince.after m hmoment, hsince.before m hmoment, hreachable, hc, htells⟩

/-- An answered listing of flags was told the records of its page. -/
theorem Inv.flags (hi : Inv platform rt config s) {i : ℕ} {f : InFlight}
    (hf : s.requests i = some f) {listing : ListFlagsRequest} {page : ListFlagsResponse}
    (hrequest : f.request = .listFlags listing) (hrest : f.rest = .ret (.flags page)) :
    ∃ start records, parseCursor listing.after = some start ∧
      (1 ≤ listing.limit && listing.limit ≤ 200) = true ∧
      ⟨.store (.listFlags listing.organizationId listing.includeArchived start
        (listing.limit + 1).toInt), .ok records⟩ ∈ f.trace ∧
      optionAll (castFlag platform) (FeatureFlags.page listing.limit (·.rowSeq) records).1 =
        some page.flags ∧
      page.nextCursor = (FeatureFlags.page listing.limit (·.rowSeq) records).2 := by
  have hfollows := hi.follows i f hf
  rw [hrest, hrequest] at hfollows
  obtain ⟨inner, hinner, hresult⟩ := runs_endpoint hfollows.result
  cases inner with
  | error e => cases hresult
  | ok found =>
    cases hresult
    exact listFlags_runs hinner

/-- An answered listing of receipts was told the records of its page. -/
theorem Inv.receipts (hi : Inv platform rt config s) {i : ℕ} {f : InFlight}
    (hf : s.requests i = some f) {listing : ListEvaluationReceiptsRequest}
    {page : ListEvaluationReceiptsResponse}
    (hrequest : f.request = .listEvaluationReceipts listing)
    (hrest : f.rest = .ret (.receipts page)) :
    ∃ start records, parseCursor listing.after = some start ∧
      (1 ≤ listing.limit && listing.limit ≤ 200) = true ∧
      ⟨.store (.listReceipts listing.organizationId listing.flagKey listing.environmentKey start
        (listing.limit + 1).toInt), .ok records⟩ ∈ f.trace ∧
      optionAll (castReceipt platform) (FeatureFlags.page listing.limit (·.rowSeq) records).1 =
        some page.receipts ∧
      page.nextCursor = (FeatureFlags.page listing.limit (·.rowSeq) records).2 := by
  have hfollows := hi.follows i f hf
  rw [hrest, hrequest] at hfollows
  obtain ⟨inner, hinner, hresult⟩ := runs_endpoint hfollows.result
  cases inner with
  | error e => cases hresult
  | ok found =>
    cases hresult
    exact listEvaluationReceipts_runs hinner

theorem flagQuery_reads (hB : B.Lawful) (hm : B.Mirrors codec rt Holds) (hlists : B.Lists codec Holds)
    {includeArchived : Bool} :
    (flagQuery org includeArchived).Reads platform rt config Holds
      (Abstract.flagListing codec platform org includeArchived) := by
  rintro s s' after items next h ⟨hsteps, i, f, limit, hnone, hf, hrequest, hrest⟩
  obtain ⟨start, records, hstart, hlimit, hmem, hitems, hnext⟩ :=
    (Inv.reachable hB (h.trans hsteps)).flags hf hrequest hrest
  obtain ⟨m, c, hafter, hbefore, hreachable, hc, htells⟩ :=
    exists_told hB hm h hsteps hnone hf rfl hmem
  have hpos := limit_range hlimit
  cases hlists.flags m hreachable c hc _ _ _ _ _ (by omega) htells
  exact ⟨m, c, limit, hafter, hbefore, hc, start, hstart, hlimit, hitems, hnext⟩

theorem receiptQuery_reads (hB : B.Lawful) (hm : B.Mirrors codec rt Holds)
    (hlists : B.Lists codec Holds) {flagKey environmentKey : Option String} :
    (receiptQuery org flagKey environmentKey).Reads platform rt config Holds
      (Abstract.receiptListing codec platform org flagKey environmentKey) := by
  rintro s s' after items next h ⟨hsteps, i, f, limit, hnone, hf, hrequest, hrest⟩
  obtain ⟨start, records, hstart, hlimit, hmem, hitems, hnext⟩ :=
    (Inv.reachable hB (h.trans hsteps)).receipts hf hrequest hrest
  obtain ⟨m, c, hafter, hbefore, hreachable, hc, htells⟩ :=
    exists_told hB hm h hsteps hnone hf rfl hmem
  have hpos := limit_range hlimit
  cases hlists.receipts m hreachable c hc _ _ _ _ _ _ (by omega) htells
  exact ⟨m, c, limit, hafter, hbefore, hc, start, hstart, hlimit, hitems, hnext⟩

/-! ## Traversals -/

section Traversals

variable {Row Item Key : Type} {query : Query Item}
  {L : Listing (Abstract.Store codec) Row Item Key}

/-- A traversal reads the listing of later and later stores, to its end. -/
theorem Query.Traversal.reading (hB : B.Lawful) (hm : B.Mirrors codec rt Holds)
    (hreads : query.Reads platform rt config Holds L) {pages : List (List Item)}
    (h : Reachable B platform rt config s)
    (htraversal : query.Traversal platform rt config s after pages s') {c : Abstract.Store codec}
    (hc : Holds s.store c) :
    ∃ page read, L.Reading (fun c c' => Abstract.Later rt c c' ∧ Abstract.Reached rt c') after
        (page :: read) ∧ (page :: read).map Page.items = pages ∧
      (page :: read).getLast?.bind Page.next = none ∧ Abstract.Later rt c page.state ∧
      Abstract.Reached rt page.state := by
  have hserved : ∀ {s s' : State B} {c : Abstract.Store codec} {after items next},
      Reachable B platform rt config s → Holds s.store c →
      query.Asked platform rt config s s' after items next →
      ∃ c₁ limit, L.serves c₁ after limit items next ∧ Abstract.Later rt c c₁ ∧
        Abstract.Reached rt c₁ ∧ ∀ c', Holds s'.store c' → Abstract.Later rt c₁ c' := by
    intro s s' c after items next h hc hasked
    obtain ⟨m, c₁, limit, hbefore, hafter, hc₁, hserves⟩ := hreads s s' after items next h hasked
    have hstore := (Inv.reachable hB h).store
    have hreachable := hstore.trans hbefore
    exact ⟨c₁, limit, hserves, hm.later hstore hbefore hc hc₁,
      ⟨_, (hm.logged hreachable hc₁).run⟩, fun c' hc' => hm.later hreachable hafter hc₁ hc'⟩
  induction htraversal generalizing c with
  | @last s s' after items hasked =>
    obtain ⟨c₁, limit, hserves, hlater, hreached, -⟩ := hserved h hc hasked
    exact ⟨⟨c₁, limit, items, none⟩, [], .last hserves, rfl, rfl, hlater, hreached⟩
  | @more s s₁ s' after items cursor pages hasked _ ih =>
    obtain ⟨c₁, limit, hserves, hlater, hreached, hrest⟩ := hserved h hc hasked
    have h₁ := h.trans hasked.1
    obtain ⟨c₂, hc₂, -⟩ := hm.held s₁.store (Inv.reachable hB h₁).store
    obtain ⟨page, read, hreading, hpages, hlast, hlater', hreached'⟩ := ih h₁ hc₂
    refine ⟨⟨c₁, limit, items, some cursor⟩, page :: read, .more hserves rfl
      ⟨(hrest c₂ hc₂).trans hlater', hreached'⟩ hreading, ?_, ?_, hlater, hreached⟩
    · rw [List.map_cons, hpages]
    · rwa [List.getLast?_cons_cons]

theorem Query.Traversal.asked {pages : List (List Item)}
    (htraversal : query.Traversal platform rt config s after pages s') :
    ∀ items ∈ pages, ∃ s₁ s₂ start next, Steps B platform rt config s s₁ ∧
      query.Asked platform rt config s₁ s₂ start items next := by
  induction htraversal with
  | last hasked =>
    intro items hitems
    rw [List.mem_singleton.mp hitems]
    exact ⟨_, _, _, _, .refl, hasked⟩
  | more hasked _ ih =>
    intro items hitems
    rcases List.mem_cons.mp hitems with rfl | hitems
    · exact ⟨_, _, _, _, .refl, hasked⟩
    · obtain ⟨s₁, s₂, start, next, hsteps, hrest⟩ := ih items hitems
      exact ⟨s₁, s₂, start, next, hasked.1.trans hsteps, hrest⟩

/-- What a traversal shows is of a later store. -/
theorem Query.Traversal.shown (hB : B.Lawful) (hm : B.Mirrors codec rt Holds)
    (hreads : query.Reads platform rt config Holds L) {Fits : Abstract.Store codec → Prop}
    (hlawful : L.Lawful (Abstract.Reached rt)
      (fun c c' => Abstract.Later rt c c' ∧ Abstract.Reached rt c') Fits)
    {pages : List (List Item)} (h : Reachable B platform rt config s)
    (htraversal : query.Traversal platform rt config s after pages s') {c : Abstract.Store codec}
    (hc : Holds s.store c) :
    ∀ item ∈ pages.flatten, ∃ c', Abstract.Later rt c c' ∧ Abstract.Reached rt c' ∧
      ∃ row ∈ L.rows c', L.cast row = some item := by
  intro item hitem
  obtain ⟨items, hpage, hitem⟩ := List.mem_flatten.mp hitem
  obtain ⟨s₁, s₂, start, next, hsteps, hasked⟩ := htraversal.asked items hpage
  obtain ⟨m, c', _, hbefore, -, hc', hserves⟩ := hreads s₁ s₂ start items next (h.trans hsteps) hasked
  have hstore := (Inv.reachable hB h).store
  have hbetween := hsteps.store_steps.trans hbefore
  have hreached : Abstract.Reached rt c' := ⟨_, (hm.logged (hstore.trans hbetween) hc').run⟩
  obtain ⟨_, kept, _, hserved, -⟩ := hlawful.serves hreached hserves
  have hcast : some item ∈ kept.map L.cast := by
    rw [hserved.items]
    exact List.mem_map_of_mem hitem
  obtain ⟨row, hrow, hcast⟩ := List.mem_map.mp hcast
  exact ⟨c', hm.later hstore hbetween hc hc', hreached, row, hserved.mem_rows hrow, hcast⟩

/-- The stores of a reading are later than that of its first page. -/
theorem later_of_reading {page : Page (Abstract.Store codec) Item}
    {pages : List (Page (Abstract.Store codec) Item)}
    (hreading : L.Reading (fun c c' => Abstract.Later rt c c' ∧ Abstract.Reached rt c') after
      (page :: pages)) (hreached : Abstract.Reached rt page.state) :
    ∀ other ∈ page :: pages,
      Abstract.Later rt page.state other.state ∧ Abstract.Reached rt other.state := by
  induction pages generalizing after page with
  | nil =>
    intro other hother
    rw [List.mem_singleton.mp hother]
    exact ⟨.refl, hreached⟩
  | cons page' pages ih =>
    intro other hother
    cases hreading with
    | more _ _ hlater hrest =>
      rcases List.mem_cons.mp hother with rfl | hother
      · exact ⟨.refl, hreached⟩
      · obtain ⟨hrest, hreached'⟩ := ih hrest hlater.2 other hother
        exact ⟨hlater.1.trans hrest, hreached'⟩

/-- What was there before the traversal, and is selected as long as it is there, comes once in it. -/
theorem Query.Traversal.once [DecidableEq Key] (hB : B.Lawful) (hm : B.Mirrors codec rt Holds)
    (hreads : query.Reads platform rt config Holds L) {Fits : Abstract.Store codec → Prop}
    (hlawful : L.Lawful (Abstract.Reached rt)
      (fun c c' => Abstract.Later rt c c' ∧ Abstract.Reached rt c') Fits)
    {pages : List (List Item)} (h : Reachable B platform rt config s)
    (htraversal : query.Traversal platform rt config s none pages s') {c : Abstract.Store codec}
    (hc : Holds s.store c) {row : Row} (hrow : row ∈ L.rows c)
    (hselects : ∀ c', Abstract.Later rt c c' → Abstract.Reached rt c' → ∀ row' ∈ L.rows c',
      L.key row' = L.key row → L.selects row' = true) :
    (pages.flatten.map L.itemKey).count (L.key row) = 1 := by
  obtain ⟨page, read, hreading, rfl, hlast, hlater, hreached⟩ := htraversal.reading hB hm hreads h hc
  have hstart : Abstract.Reached rt c :=
    ⟨_, (hm.logged (Inv.reachable hB h).store hc).run⟩
  obtain ⟨row₁, hrow₁, hkey₁, -⟩ := hlawful.kept hstart ⟨hlater, hreached⟩ row hrow
  have hthroughout : ∀ other ∈ page :: read, ∃ row' ∈ L.rows other.state,
      L.key row' = L.key row₁ ∧ L.selects row' = true := by
    intro other hother
    obtain ⟨hlater', hreached'⟩ := later_of_reading hreading hreached other hother
    obtain ⟨row₂, hrow₂, hkey₂, -⟩ := hlawful.kept hreached ⟨hlater', hreached'⟩ row₁ hrow₁
    exact ⟨row₂, hrow₂, hkey₂, hselects other.state (hlater.trans hlater') hreached' row₂ hrow₂
      (hkey₂.trans hkey₁)⟩
  have honce := hlawful.complete.once page read hreached hreading hlast row₁ hrow₁ hthroughout
  rw [hkey₁, List.flatMap_def] at honce
  exact honce

end Traversals

/-! ## A page at once -/

section Served

variable {i : ℕ} {context : Ctx} {auth : Authorized}

theorem set_free {f : InFlight} {n : ℕ} (hn : ∀ j, n ≤ j → s.requests j = none) :
    ∀ j, max n (i + 1) ≤ j → (s.set i f).requests j = none := by
  intro j hj
  obtain ⟨hle, hlt⟩ := Nat.max_le.mp hj
  rw [set_of_ne s f (Nat.ne_of_gt hlt)]
  exact hn j hle

/-- There is a number that no request has. -/
theorem exists_free (h : Reachable B platform rt config s) :
    ∃ n, ∀ i, n ≤ i → s.requests i = none := by
  induction h with
  | refl => exact ⟨0, fun _ _ => rfl⟩
  | tail _ hstep ih =>
    obtain ⟨n, hn⟩ := ih
    cases hstep with
    | begin => exact ⟨n, hn⟩
    | store => exact ⟨n, hn⟩
    | _ => exact ⟨_, set_free hn⟩

/-- A read that nothing disturbs: it arrives, is granted, and gets the reply. -/
theorem Steps.read (hnone : s.requests i = none) {request : Request}
    {exchanges : List (Exchange Ask.Reply)} {call : StoreCall}
    {k : (Ask.store call).Reply → Service ServiceError ServiceResponse}
    (hfollows : Follows (serve platform rt config context request) exchanges
      (.step (.store call) k)) (hnot : ∀ exchange ∈ exchanges, ¬exchange.1.IsStore)
    (hread : call.command = none) {reply : (Ask.store call).Reply}
    (htells : B.Tells s.store call reply) :
    Steps B platform rt config s
      (s.set i ⟨request, context, exchanges ++ [⟨.store call, reply⟩], k reply⟩) := by
  have harrive : Steps B platform rt config s
      (s.set i ⟨request, context, [], serve platform rt config context request⟩) :=
    .single (.arrive hnone)
  have hgranted := harrive.trans (Steps.answers (set_self s i _) hfollows hnot)
  rw [set_set] at hgranted
  have hdone := hgranted.tail (.read (set_self s i _) rfl hread htells)
  exact (congrArg (Steps B platform rt config s) (set_set s i _ _)).mp hdone

variable (platform rt config) in
/-- The store has the records that the request for a page fetches, and they pass `wire_cast`. -/
structure Query.Fetches {Item Record : Type} (query : Query Item) (s : State B) (context : Ctx)
    (auth : Authorized) (after : Option String) (limit : Int64) (rowSeq : Record → Int)
    (cast : Record → Option Item) (fetched : List Record) : Prop where
  asks : ∃ call k reply, Follows
    (serve platform rt config context (query.request after limit))
    ((query.request after limit).grants auth.actor) (.step (.store call) k) ∧ call.command = none ∧
    B.Tells s.store call reply ∧
    ∀ items, optionAll cast (FeatureFlags.page limit rowSeq fetched).1 = some items →
      k reply = .ret (query.respond items (FeatureFlags.page limit rowSeq fetched).2)
  passes : ∀ record ∈ fetched, ∃ item, cast record = some item
  bounded : fetched.length ≤ limit.toInt.toNat + 1

variable {Item Record : Type} {query : Query Item} {limit : Int64} {rowSeq : Record → Int}
  {cast : Record → Option Item} {fetched : List Record}

/-- The request for the page is answered. -/
theorem Query.Fetches.answered (h : Reachable B platform rt config s)
    (hfetches : query.Fetches platform rt config s context auth after limit rowSeq cast fetched) :
    ∃ s' items, query.Asked platform rt config s s' after items
        (FeatureFlags.page limit rowSeq fetched).2 ∧ s'.store = s.store ∧
      optionAll cast (FeatureFlags.page limit rowSeq fetched).1 = some items ∧
      items.length ≤ limit.toInt.toNat ∧ ∀ j g, s'.requests j = some g →
        s.requests j = some g ∨ g.request = query.request after limit := by
  obtain ⟨call, k, reply, hfollows, hread, htells, hanswer⟩ := hfetches.asks
  obtain ⟨items, hitems⟩ := exists_optionAll fun record (hrecord : record ∈
    (FeatureFlags.page limit rowSeq fetched).1) => hfetches.passes record (mem_of_mem_page hrecord)
  obtain ⟨n, hfree⟩ := exists_free h
  have hnone := hfree n (le_refl n)
  have hlength := (optionAll_eq_some.mp hitems).length_eq
  refine ⟨_, items, ⟨Steps.read hnone hfollows (grants_not_store _ _) hread htells, n, _, limit,
    hnone, set_self .., rfl, hanswer items hitems⟩, rfl, hitems, ?_, fun j g hg => ?_⟩
  · rw [← hlength]
    exact page_length hfetches.bounded
  · rcases set_cases hg with ⟨-, rfl⟩ | ⟨-, hg⟩
    · exact .inr rfl
    · exact .inl hg

variable {c : Abstract.Store codec} {start : Option Int}

/-- The request for a page of flags reaches the store. -/
theorem flagQuery_asks {includeArchived : Bool}
    (hgrantable : ((flagQuery org includeArchived).request after limit).Grantable config context auth)
    (hlimit : (1 ≤ limit && limit ≤ 200) = true) (hstart : parseCursor after = some start) :
    ∃ k, Follows (serve platform rt config context
        ((flagQuery org includeArchived).request after limit))
        (((flagQuery org includeArchived).request after limit).grants auth.actor)
        (.step (.store (.listFlags org includeArchived start (limit + 1).toInt)) k) ∧
      ∀ reply page, paged platform limit FlagRecord.rowSeq (castFlag platform) ListFlagsResponse.mk
        reply = .ret page → k reply = .ret (.flags page) := by
  have hfollows := ((listFlags_asks platform hgrantable hlimit hstart).mapError ServiceError.admin).bind
    fun page => pure (ServiceResponse.flags page)
  refine ⟨_, hfollows, fun reply page hpage => ?_⟩
  change (paged platform limit FlagRecord.rowSeq (castFlag platform) ListFlagsResponse.mk
    reply).mapError ServiceError.admin >>= _ = _
  rw [hpage]
  rfl

/-- The request for a page of receipts reaches the store. -/
theorem receiptQuery_asks {flagKey environmentKey : Option String}
    (hgrantable : ((receiptQuery org flagKey environmentKey).request after limit).Grantable config
      context auth)
    (hchecked : (1 ≤ limit && limit ≤ 200 && flagKey.all (validKey · 128)
      && environmentKey.all (validKey · 128)) = true) (hstart : parseCursor after = some start) :
    ∃ k, Follows (serve platform rt config context
        ((receiptQuery org flagKey environmentKey).request after limit))
        (((receiptQuery org flagKey environmentKey).request after limit).grants auth.actor)
        (.step (.store (.listReceipts org flagKey environmentKey start (limit + 1).toInt)) k) ∧
      ∀ reply page, paged platform limit ReceiptRecord.rowSeq (castReceipt platform)
        ListEvaluationReceiptsResponse.mk reply = .ret page → k reply = .ret (.receipts page) := by
  have hfollows := ((listEvaluationReceipts_asks platform hgrantable hchecked
    hstart).mapError ServiceError.admin).bind fun page => pure (ServiceResponse.receipts page)
  refine ⟨_, hfollows, fun reply page hpage => ?_⟩
  change (paged platform limit ReceiptRecord.rowSeq (castReceipt platform)
    ListEvaluationReceiptsResponse.mk reply).mapError ServiceError.admin >>= _ = _
  rw [hpage]
  rfl

/-- What the store tells passes `wire_cast`. -/
theorem tells_passes (hB : B.Accountable codec rt)
    (htime : ∀ instant, platform.isTimestamp (rt.formatTimestamp instant))
    (h : Reachable B platform rt config s) {call : StoreCall} {record : call.Record}
    (htells : B.Tells s.store call (.ok record)) : call.Passes platform record := by
  have hi := Inv.reachable hB.lawful h
  exact (hB.shown platform htime s.store hi.store fun e he =>
    hi.lawful (hB.called s.store hi.store e he)).2 call record htells

theorem flagQuery_fetches (hB : B.Accountable codec rt) (hlists : B.Lists codec Holds)
    (htime : ∀ instant, platform.isTimestamp (rt.formatTimestamp instant))
    (h : Reachable B platform rt config s) (hc : Holds s.store c) {includeArchived : Bool}
    (hgrantable : ((flagQuery org includeArchived).request after limit).Grantable config context auth)
    (hlimit : (1 ≤ limit && limit ≤ 200) = true) (hstart : parseCursor after = some start) :
    (flagQuery org includeArchived).Fetches platform rt config s context auth after limit
      FlagRecord.rowSeq (castFlag platform)
      (Abstract.listFlags c org includeArchived start (limit + 1).toInt.toNat) := by
  have hpos := limit_range hlimit
  have htells := hlists.tellsFlags s.store c hc org includeArchived start (limit + 1).toInt (by omega)
  obtain ⟨k, hfollows, hanswer⟩ := flagQuery_asks hgrantable hlimit hstart
  refine ⟨⟨_, k, _, hfollows, rfl, htells, fun items hitems => hanswer _ _ (paged_ok hitems)⟩, ?_, ?_⟩
  · exact tells_passes hB htime h htells
  · rw [Abstract.listFlags, List.length_map]
    exact fetched_length _ hlimit

theorem receiptQuery_fetches (hB : B.Accountable codec rt) (hlists : B.Lists codec Holds)
    (htime : ∀ instant, platform.isTimestamp (rt.formatTimestamp instant))
    (h : Reachable B platform rt config s) (hc : Holds s.store c)
    (hfits : ∀ receipt ∈ c.receipts, receipt.rowSeq ≤ i64Max)
    {flagKey environmentKey : Option String}
    (hgrantable : ((receiptQuery org flagKey environmentKey).request after limit).Grantable config
      context auth)
    (hchecked : (1 ≤ limit && limit ≤ 200 && flagKey.all (validKey · 128)
      && environmentKey.all (validKey · 128)) = true) (hstart : parseCursor after = some start) :
    (receiptQuery org flagKey environmentKey).Fetches platform rt config s context auth after limit
      ReceiptRecord.rowSeq (castReceipt platform)
      (Abstract.listReceipts c org flagKey environmentKey start (limit + 1).toInt.toNat) := by
  have hlimit : (1 ≤ limit && limit ≤ 200) = true := Bool.and_elim_left (Bool.and_elim_left hchecked)
  have hpos := limit_range hlimit
  have htells := hlists.tellsReceipts s.store c hc hfits org flagKey environmentKey start
    (limit + 1).toInt (by omega)
  obtain ⟨k, hfollows, hanswer⟩ := receiptQuery_asks hgrantable hchecked hstart
  refine ⟨⟨_, k, _, hfollows, rfl, htells, fun items hitems => hanswer _ _ (paged_ok hitems)⟩, ?_, ?_⟩
  · exact tells_passes hB htime h htells
  · rw [Abstract.listReceipts, List.length_map]
    exact fetched_length _ hlimit

end Served

/-! ## To the end -/

section Ends

variable {Row Item Key : Type} {query : Query Item} {c : Abstract.Store codec}
  {L : Listing (Abstract.Store codec) Row Item Key} {size : ℕ}

variable (platform rt config Holds) in
/-- As long as the store is held, the page behind any cursor can be had at once. -/
def Query.Open (query : Query Item) (L : Listing (Abstract.Store codec) Row Item Key)
    (c : Abstract.Store codec) (size : ℕ) : Prop :=
  ∀ s, Reachable B platform rt config s → Holds s.store c → ∀ after start,
    parseCursor after = some start → ∃ s' limit items next,
      query.Asked platform rt config s s' after items next ∧ s'.store = s.store ∧
      L.serves c after limit items next ∧ items.length ≤ size

/-- A client that nothing disturbs goes through what is behind its cursor, to the end. -/
theorem Query.exists_traversal {Fits : Abstract.Store codec → Prop}
    (hlawful : L.Lawful (Abstract.Reached rt)
      (fun c c' => Abstract.Later rt c c' ∧ Abstract.Reached rt c') Fits)
    (hopen : query.Open platform rt config Holds L c size) (hreached : Abstract.Reached rt c)
    (hfits : ∀ row ∈ L.rows c, L.seq row ≤ i64Max) {n : Int} (hn : Listing.Tells after n)
    (hle : n ≤ i64Max) (h : Reachable B platform rt config s) (hc : Holds s.store c) :
    ∃ pages s', query.Traversal platform rt config s after pages s' ∧ s'.store = s.store ∧
      pages.flatten.map some = (Feed.above L.seq L.selects (L.rows c) n).map L.cast ∧
      ∀ items ∈ pages, items.length ≤ size := by
  generalize hm : (Feed.above L.seq L.selects (L.rows c) n).length = m
  induction m using Nat.strong_induction_on generalizing s after n with
  | _ m ih =>
    obtain ⟨start, hstart⟩ := hn.parsed hle
    obtain ⟨s₁, _, items, next, hasked, hstore, hserves, hsize⟩ := hopen s h hc after start hstart
    obtain ⟨_, kept, k, hserved, -⟩ := hlawful.serves hreached hserves
    have hpage := hserved.page
    rw [hn.start hserved.parsed] at hpage
    cases k with
    | none =>
      have hnone : next = none := hserved.next
      subst hnone
      refine ⟨[items], s₁, .last hasked, hstore, ?_, ?_⟩
      · rw [List.flatten_singleton, ← hserved.items, hpage.last rfl]
      · intro other hother
        rwa [List.mem_singleton.mp hother]
    | some k =>
      have hsome : next = some (toString k) := hserved.next
      subst hsome
      obtain ⟨-, hsplit⟩ := hpage.split (hlawful.seqs hreached)
      obtain ⟨-, row, hrow, rfl⟩ := hpage.more k rfl
      have hkept := List.mem_of_getLast? hrow
      have hmem := hserved.mem_rows hkept
      -- The page has a row, so that less is left behind it.
      have hfewer : (Feed.above L.seq L.selects (L.rows c) (L.seq row)).length < m := by
        rw [← hm, hsplit, List.length_append]
        exact Nat.lt_add_of_pos_left (List.length_pos_of_mem hkept)
      obtain ⟨pages, s', htraversal, hstore', hflat, hsizes⟩ := ih _ hfewer
        (.goesOn (hlawful.positive hreached row hmem)) (hfits row hmem) (h.trans hasked.1)
        (hstore ▸ hc) rfl
      refine ⟨items :: pages, s', .more hasked htraversal, hstore'.trans hstore, ?_,
        List.forall_mem_cons.mpr ⟨hsize, hsizes⟩⟩
      rw [List.flatten_cons, List.map_append, hflat, ← hserved.items, hsplit, List.map_append]

/-- From the start it gets all that is to be listed. -/
theorem Query.Open.traversed (hB : B.Accountable codec rt) (hm : B.Mirrors codec rt Holds)
    {Fits : Abstract.Store codec → Prop}
    (hlawful : L.Lawful (Abstract.Reached rt)
      (fun c c' => Abstract.Later rt c c' ∧ Abstract.Reached rt c') Fits)
    (hopen : query.Open platform rt config Holds L c size)
    (hfits : ∀ row ∈ L.rows c, L.seq row ≤ i64Max) (h : Reachable B platform rt config s)
    (hc : Holds s.store c) :
    ∃ pages s', query.Traversal platform rt config s none pages s' ∧ s'.store = s.store ∧
      (∀ items ∈ pages, items.length ≤ size) ∧ pages.flatten.map some = (L.all c).map L.cast := by
  have hreached : Abstract.Reached rt c :=
    ⟨_, (hm.logged (Inv.reachable hB.lawful h).store hc).run⟩
  obtain ⟨pages, s', htraversal, hstore, hall, hsize⟩ :=
    Query.exists_traversal hlawful hopen hreached hfits .begins (by decide) h hc
  rw [hlawful.above_eq hreached] at hall
  exact ⟨pages, s', htraversal, hstore, hsize, hall⟩

theorem flagQuery_open (hB : B.Accountable codec rt) (hlists : B.Lists codec Holds)
    (htime : ∀ instant, platform.isTimestamp (rt.formatTimestamp instant)) {includeArchived : Bool}
    {context : Ctx} {auth : Authorized} {limit : Int64}
    (hgrantable : ((flagQuery org includeArchived).request none limit).Grantable config context auth)
    (hlimit : (1 ≤ limit && limit ≤ 200) = true) :
    (flagQuery org includeArchived).Open platform rt config Holds
      (Abstract.flagListing codec platform org includeArchived) c limit.toInt.toNat := by
  intro s h hc after start hstart
  -- The grant does not depend on the cursor.
  have hpage : ((flagQuery org includeArchived).request after limit).Grantable config context auth :=
    ⟨hgrantable.caller, hgrantable.listed, hgrantable.organizationId, hgrantable.actor⟩
  obtain ⟨s', items, hasked, hstore, hitems, hsize, -⟩ :=
    (flagQuery_fetches hB hlists htime h hc hpage hlimit hstart).answered h
  exact ⟨s', limit, items, _, hasked, hstore, ⟨start, hstart, hlimit, hitems, rfl⟩, hsize⟩

end Ends

end Deployment

end LensoFlags
