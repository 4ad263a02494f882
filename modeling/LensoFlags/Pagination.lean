import LensoFlags.Calls
import LensoFlags.Revisions
import LensoFlags.D1.Listings
import LensoFlags.Postgres.Listings
import LensoFlags.Lib.Paging

/-!
# Pagination

`list_flags` and `list_evaluation_receipts` fetch one row more than a page holds. If it is there it
is left out, and the number of the last row of the page is the cursor of the next one.

Results:
1. `listFlags_runs`, `listEvaluationReceipts_runs`: what a run that answers has read.
2. `Listing.Lawful.complete`: what a listing has to meet so that its pages are complete.
3. `flagListing_lawful`, `receiptListing_lawful`: the listings of the two backends meet it.
-/

namespace LensoFlags

open Locking Locking.Program
open Decimal (i64Max)

/-! ## The runs of a listing -/

section Runs

variable {platform : Platform} {config : PolicyConfig} {context : Ctx}
  {callers : List String} {capability operation organizationId permission : String} {E α : Type}
  {trace : List (Exchange Ask.Reply)}

/-- Behind the authorization and the checks, the reply of the store is all that counts. -/
theorem runs_listing {f : AuthorizationFailure → E} {after : Option String} {checked : Bool}
    {e e' : E} {call : Option Int → StoreCall}
    {rest : ∀ after, (Ask.store (call after)).Reply → Service E α} {response : α}
    (h : Runs ((FeatureFlags.authorize platform context callers capability operation organizationId
        permission).mapError f >>= fun _ => orFail e (parseCursor after) >>= fun after =>
      ensure checked e' >>= fun _ => ask (.store (call after)) >>= rest after) trace
      (.ok response)) :
    ∃ start reply others, parseCursor after = some start ∧ checked = true ∧
      ⟨.store (call start), reply⟩ ∈ trace ∧ Runs (rest start reply) others (.ok response) := by
  rcases runs_bind.mp h with ⟨_, herror, -⟩ | ⟨first, second, _, rfl, -, hsecond⟩
  · cases herror
  · obtain ⟨start, hstart, h₁⟩ := silent_orFail.runs_bind_ok hsecond
    obtain ⟨_, hchecked, h₂⟩ := silent_ensure.runs_bind_ok h₁
    obtain ⟨reply, others, rfl, h₃⟩ := runs_ask h₂
    exact ⟨start, reply, others, orFail_eq_ret hstart, ensure_eq_ret hchecked, by simp, h₃⟩

/-- A reply that is answered is a list of records, and the answer their page on the wire. -/
theorem runs_answer {Record Item : Type} {limit : Int64} {rowSeq : Record → Int}
    {cast : Record → Option Item} {respond : List Item → Option String → α}
    {reply : Except StorageError (List Record)} {response : α}
    (h : Runs (mapStorage platform adminError reply >>= fun records =>
      wireCast platform (optionAll cast (FeatureFlags.page limit rowSeq records).1) >>= fun items =>
        (.ret (respond items (FeatureFlags.page limit rowSeq records).2) :
          Service (PluginError AdminError) α)) trace (.ok response)) :
    ∃ records items, reply = .ok records ∧
      optionAll cast (FeatureFlags.page limit rowSeq records).1 = some items ∧
      response = respond items (FeatureFlags.page limit rowSeq records).2 := by
  obtain ⟨records, hrecords, h₁⟩ := silent_mapStorage.runs_bind_ok h
  obtain ⟨items, hitems, h₂⟩ := silent_wireCast.runs_bind_ok h₁
  obtain ⟨-, hresponse⟩ := runs_ret.mp h₂
  refine ⟨records, items, ?_, orFail_eq_ret hitems, Except.ok.inj hresponse⟩
  cases reply with
  | ok found => exact congrArg Except.ok (Program.ret.inj hrecords)
  | error e => cases e <;> cases hrecords

theorem listFlags_runs {request : ListFlagsRequest} {response : ListFlagsResponse}
    (h : Runs (FeatureFlags.listFlags platform config context request) trace (.ok response)) :
    ∃ after records, parseCursor request.after = some after ∧
      (1 ≤ request.limit && request.limit ≤ 200) = true ∧
      ⟨.store (.listFlags request.organizationId request.includeArchived after
        (request.limit + 1).toInt), .ok records⟩ ∈ trace ∧
      optionAll (castFlag platform) (FeatureFlags.page request.limit (·.rowSeq) records).1 =
        some response.flags ∧
      response.nextCursor = (FeatureFlags.page request.limit (·.rowSeq) records).2 := by
  obtain ⟨after, reply, others, hafter, hlimit, hmem, hrest⟩ := runs_listing h
  obtain ⟨records, items, rfl, hitems, rfl⟩ := runs_answer hrest
  exact ⟨after, records, hafter, hlimit, hmem, hitems, rfl⟩

theorem listEvaluationReceipts_runs {request : ListEvaluationReceiptsRequest}
    {response : ListEvaluationReceiptsResponse}
    (h : Runs (FeatureFlags.listEvaluationReceipts platform config context request) trace
      (.ok response)) :
    ∃ after records, parseCursor request.after = some after ∧
      (1 ≤ request.limit && request.limit ≤ 200) = true ∧
      ⟨.store (.listReceipts request.organizationId request.flagKey request.environmentKey after
        (request.limit + 1).toInt), .ok records⟩ ∈ trace ∧
      optionAll (castReceipt platform) (FeatureFlags.page request.limit (·.rowSeq) records).1 =
        some response.receipts ∧
      response.nextCursor = (FeatureFlags.page request.limit (·.rowSeq) records).2 := by
  obtain ⟨after, reply, others, hafter, hchecked, hmem, hrest⟩ := runs_listing h
  obtain ⟨records, items, rfl, hitems, rfl⟩ := runs_answer hrest
  simp only [Bool.and_eq_true] at hchecked ⊢
  exact ⟨after, records, hafter, hchecked.1.1, hmem, hitems, rfl⟩

end Runs

/-! ## Complete listings -/

/-- A page as a client asks for it and gets it, and the state it was read in. -/
structure Page (State Item : Type) where
  state : State
  limit : Int64
  items : List Item
  next : Option String

structure Listing (State Row Item Key : Type) where
  rows : State → List Row
  seq : Row → Int
  key : Row → Key
  /-- The organization and the filter of the requests. -/
  selects : Row → Bool
  cast : Row → Option Item
  itemKey : Item → Key
  /-- A request with the cursor and the limit is answered with the items and the next cursor. -/
  serves : State → Option String → Int64 → List Item → Option String → Prop

namespace Listing

variable {State Row Item Key : Type} (L : Listing State Row Item Key)

/-- What is to be listed, in the order of the row numbers. -/
def all (s : State) : List Row := Table.orderBy L.seq ((L.rows s).filter L.selects)

/-- A client asks for page after page, each time with the cursor it was given. -/
inductive Reading (Steps : State → State → Prop) : Option String → List (Page State Item) → Prop
  | last {after : Option String} {page : Page State Item} :
      L.serves page.state after page.limit page.items page.next → Reading Steps after [page]
  | more {after : Option String} {cursor : String} {page page' : Page State Item}
      {pages : List (Page State Item)} :
      L.serves page.state after page.limit page.items page.next → page.next = some cursor →
      Steps page.state page'.state → Reading Steps (some cursor) (page' :: pages) →
      Reading Steps after (page :: page' :: pages)

structure Complete [DecidableEq Key] (Reachable : State → Prop) (Steps : State → State → Prop)
    (Fits : State → Prop) : Prop where
  ascending : ∀ s, Reachable s → ((L.all s).map L.seq).Pairwise (· < ·)
  /-- As long as the rows stay as they are, the pages are what is to be listed. The cursor is null
  exactly on the page that exhausts it. -/
  exhausts : ∀ page pages, Reachable page.state → L.Reading Steps none (page :: pages) →
    (∀ other ∈ pages, L.rows other.state = L.rows page.state) →
      ((page :: pages).flatMap Page.items).map some <+: (L.all page.state).map L.cast ∧
      ((page :: pages).getLast?.bind Page.next = none ↔
        ((page :: pages).flatMap Page.items).map some = (L.all page.state).map L.cast) ∧
      (page :: pages).length ≤ (L.all page.state).length + 1
  /-- Whatever else happens, a row that is there at the first page and matches at every page has
  come once when the cursor is null. -/
  once : ∀ page pages, Reachable page.state → L.Reading Steps none (page :: pages) →
    (page :: pages).getLast?.bind Page.next = none → ∀ row ∈ L.rows page.state,
    (∀ other ∈ page :: pages, ∃ row' ∈ L.rows other.state,
      L.key row' = L.key row ∧ L.selects row' = true) →
    (((page :: pages).flatMap Page.items).map L.itemKey).count (L.key row) = 1
  accepted : ∀ s after limit items cursor, Reachable s → Fits s →
    L.serves s after limit items (some cursor) → ∃ n, parseCursor (some cursor) = some (some n)

/-- The page of the rows above the number that the cursor tells. -/
structure Serves (s : State) (after : Option String) (items : List Item) (next : Option String)
    (start : Option Int) (kept : List Row) (n : Option Int) : Prop where
  parsed : parseCursor after = some start
  page : Feed.IsPage L.seq L.selects (L.rows s) (start.getD 0) kept n
  items : kept.map L.cast = items.map some
  next : next = n.map toString

structure Lawful (Reachable : State → Prop) (Steps : State → State → Prop) (Fits : State → Prop) :
    Prop where
  steps : ∀ {s s'}, Reachable s → Steps s s' → Reachable s'
  seqs : ∀ {s}, Reachable s → ((L.rows s).map L.seq).Nodup
  keys : ∀ {s}, Reachable s → ((L.rows s).map L.key).Nodup
  positive : ∀ {s}, Reachable s → ∀ row ∈ L.rows s, 0 < L.seq row
  kept : ∀ {s s'}, Reachable s → Steps s s' → ∀ row ∈ L.rows s, ∃ row' ∈ L.rows s',
    L.key row' = L.key row ∧ L.seq row' = L.seq row
  named : ∀ {s}, Reachable s → ∀ row ∈ L.rows s, ∀ item, L.cast row = some item →
    L.itemKey item = L.key row
  serves : ∀ {s after limit items next}, Reachable s → L.serves s after limit items next →
    ∃ start kept n, L.Serves s after items next start kept n ∧
      (Fits s → ∀ m, n = some m → m ≤ i64Max)

variable {L} {Reachable : State → Prop} {Steps : State → State → Prop} {Fits : State → Prop}

/-- The number that a cursor tells: a client begins without one and goes on with those it is
given. -/
inductive Tells : Option String → Int → Prop
  | begins : Tells none 0
  | goesOn {n : Int} : 0 < n → Tells (some (toString n)) n

theorem Tells.start {after : Option String} {n : Int} (h : Tells after n) {start : Option Int}
    (hstart : parseCursor after = some start) : start.getD 0 = n := by
  cases h with
  | begins =>
    cases hstart
    rfl
  | goesOn hpos =>
    obtain ⟨m, hm, rfl⟩ := Option.map_eq_some_iff.mp hstart
    rw [parseRevision_toString_eq hpos hm]
    rfl

theorem parseCursor_toString {n : Int} (hpos : 0 < n) (hle : n ≤ i64Max) :
    parseCursor (some (toString n)) = some (some n) := by
  rw [parseCursor, parseRevision_eq_some.mpr]
  · rfl
  · exact ⟨⟨hpos, hle⟩, false, 0, (toString_eq_iff hpos.le).mp rfl⟩

/-- Every page is read in a later state, which has the rows of the first. -/
theorem Lawful.later (h : L.Lawful Reachable Steps Fits) {after : Option String}
    {page : Page State Item} {pages : List (Page State Item)} (hreach : Reachable page.state)
    (hreading : L.Reading Steps after (page :: pages)) :
    ∀ other ∈ page :: pages, Reachable other.state ∧ ∀ row ∈ L.rows page.state,
      ∃ row' ∈ L.rows other.state, L.key row' = L.key row ∧ L.seq row' = L.seq row := by
  induction pages generalizing after page with
  | nil =>
    intro other hother
    rw [List.mem_singleton.mp hother]
    exact ⟨hreach, fun row hrow => ⟨row, hrow, rfl, rfl⟩⟩
  | cons next pages ih =>
    intro other hother
    rcases List.mem_cons.mp hother with rfl | hother
    · exact ⟨hreach, fun row hrow => ⟨row, hrow, rfl, rfl⟩⟩
    · cases hreading with
      | more _ _ hsteps hrest =>
        obtain ⟨hreach', hkept⟩ := ih (h.steps hreach hsteps) hrest other hother
        refine ⟨hreach', fun row hrow => ?_⟩
        obtain ⟨row', hrow', hkey, hseq⟩ := h.kept hreach hsteps row hrow
        obtain ⟨row'', hrow'', hkey', hseq'⟩ := hkept row' hrow'
        exact ⟨row'', hrow'', hkey'.trans hkey, hseq'.trans hseq⟩

variable (L) in
/-- The page on the wire is the page of the rows. -/
structure Wire (page : Page State Item) (turn : Feed.Turn Row) : Prop where
  rows : turn.rows = L.rows page.state
  items : turn.kept.map L.cast = page.items.map some
  keys : page.items.map L.itemKey = turn.kept.map L.key
  next : page.next = turn.next.map toString

/-- The keys on the wire are those of the rows. -/
theorem Lawful.keys_eq (h : L.Lawful Reachable Steps Fits) {s : State} (hs : Reachable s)
    {kept : List Row} (hkept : ∀ row ∈ kept, row ∈ L.rows s) {items : List Item}
    (hitems : kept.map L.cast = items.map some) : items.map L.itemKey = kept.map L.key := by
  induction kept generalizing items with
  | nil =>
    rw [List.map_nil, eq_comm, List.map_eq_nil_iff] at hitems
    rw [hitems]
    rfl
  | cons row kept ih =>
    obtain ⟨hrow, hkept⟩ := List.forall_mem_cons.mp hkept
    cases items with
    | nil => cases hitems
    | cons item items =>
      obtain ⟨hitem, hrest⟩ := List.cons.inj hitems
      rw [List.map_cons, List.map_cons, h.named hs row hrow item hitem, ih hkept hrest]

theorem Lawful.paging (h : L.Lawful Reachable Steps Fits) {after : Option String}
    {pages : List (Page State Item)} (hreading : L.Reading Steps after pages) {n : Int}
    (hn : Tells after n) (hreach : ∀ page ∈ pages, Reachable page.state) :
    ∃ turns, Feed.Paging L.seq L.selects n turns ∧ List.Forall₂ L.Wire pages turns := by
  -- Each page on the wire is a page of the rows above the number.
  have hserved : ∀ {after n} {page : Page State Item}, Tells after n → Reachable page.state →
      L.serves page.state after page.limit page.items page.next → ∃ turn : Feed.Turn Row,
        Feed.IsPage L.seq L.selects turn.rows n turn.kept turn.next ∧ L.Wire page turn := by
    intro after n page hn hs hserves
    obtain ⟨start, kept, m, hserved, -⟩ := h.serves hs hserves
    have hpage := hserved.page
    rw [hn.start hserved.parsed] at hpage
    refine ⟨⟨L.rows page.state, kept, m⟩, hpage, rfl, hserved.items, ?_, hserved.next⟩
    exact h.keys_eq hs (fun row hrow => (Feed.mem_above.mp (hpage.first.subset hrow)).1)
      hserved.items
  induction hreading generalizing n with
  | last hserves =>
    obtain ⟨turn, hpage, hwire⟩ := hserved hn (hreach _ List.mem_cons_self) hserves
    exact ⟨[turn], .last hpage, .cons hwire .nil⟩
  | more hserves hnext _ _ ih =>
    obtain ⟨turn, hpage, hwire⟩ := hserved hn (hreach _ List.mem_cons_self) hserves
    obtain ⟨k, hk, rfl⟩ := Option.map_eq_some_iff.mp (hwire.next.symm.trans hnext)
    -- The cursor is the number of a row.
    obtain ⟨-, row, hrow, rfl⟩ := hpage.more k hk
    have hmem := (Feed.mem_above.mp (hpage.first.subset (List.mem_of_getLast? hrow))).1
    rw [hwire.rows] at hmem
    obtain ⟨turns, hturns, hwires⟩ :=
      ih (.goesOn (h.positive (hreach _ List.mem_cons_self) row hmem))
        fun other hother => hreach other (List.mem_cons_of_mem _ hother)
    exact ⟨turn :: turns, .more hpage hk hturns, .cons hwire hwires⟩

/-- What the client got is what the pages of the rows hold. -/
theorem Wire.flatMap {pages : List (Page State Item)} {turns : List (Feed.Turn Row)}
    (h : List.Forall₂ L.Wire pages turns) :
    (turns.flatMap Feed.Turn.kept).map L.cast = (pages.flatMap Page.items).map some ∧
      (pages.flatMap Page.items).map L.itemKey = (turns.flatMap Feed.Turn.kept).map L.key := by
  induction h with
  | nil => exact ⟨rfl, rfl⟩
  | cons hwire _ ih =>
    simp only [List.flatMap_cons, List.map_append]
    rw [hwire.items, hwire.keys, ih.1, ih.2]
    exact ⟨rfl, rfl⟩

theorem Wire.getLast {pages : List (Page State Item)} {turns : List (Feed.Turn Row)}
    (h : List.Forall₂ L.Wire pages turns) :
    pages.getLast?.bind Page.next = none ↔ turns.getLast?.bind Feed.Turn.next = none := by
  induction h with
  | nil => simp
  | cons hwire htail ih =>
    cases htail with
    | nil =>
      rw [List.getLast?_singleton, List.getLast?_singleton, Option.bind_some, Option.bind_some,
        hwire.next, Option.map_eq_none_iff]
    | cons => rwa [List.getLast?_cons_cons, List.getLast?_cons_cons]

theorem Lawful.above_eq (h : L.Lawful Reachable Steps Fits) {s : State} (hs : Reachable s) :
    Feed.above L.seq L.selects (L.rows s) 0 = L.all s := by
  rw [Feed.above, all]
  congr 1
  refine List.filter_congr fun row hrow => ?_
  simp [h.positive hs row hrow]

/-- A lawful listing is complete. -/
theorem Lawful.complete [DecidableEq Key] (h : L.Lawful Reachable Steps Fits) :
    L.Complete Reachable Steps Fits where
  ascending := by
    intro s hs
    rw [← h.above_eq hs]
    exact Feed.ascending_above (h.seqs hs) 0
  exhausts := by
    intro page pages hs hreading hrows
    have hlater := h.later hs hreading
    obtain ⟨turns, hturns, hwire⟩ := h.paging hreading .begins fun other hm => (hlater other hm).1
    obtain ⟨hstarts, hlast, hlength⟩ := hturns.exhausts (h.seqs hs) fun turn hm => by
      obtain ⟨other, hother, hw⟩ := Table.exists_of_mem_right hwire hm
      rcases List.mem_cons.mp hother with rfl | hother
      · exact hw.rows
      · exact hw.rows.trans (hrows other hother)
    rw [h.above_eq hs] at hstarts hlast hlength
    rw [← (Wire.flatMap hwire).1, Wire.getLast hwire, hlast, hwire.length_eq]
    refine ⟨hstarts.map L.cast, ⟨fun heq => by rw [heq], fun heq => ?_⟩, hlength⟩
    exact hstarts.eq_of_length (by simpa using congrArg List.length heq)
  once := by
    intro page pages hs hreading hnull row hrow hthroughout
    have hlater := h.later hs hreading
    obtain ⟨turns, hturns, hwire⟩ := h.paging hreading .begins fun other hm => (hlater other hm).1
    rw [(Wire.flatMap hwire).2, hturns.once (n := L.seq row) (fun turn hm => ?_)
      (fun turn hm => ?_) ((Wire.getLast hwire).mp hnull), if_pos (h.positive hs row hrow)]
    · obtain ⟨other, hother, hw⟩ := Table.exists_of_mem_right hwire hm
      rw [hw.rows]
      exact ⟨h.seqs (hlater other hother).1, h.keys (hlater other hother).1⟩
    · obtain ⟨other, hother, hw⟩ := Table.exists_of_mem_right hwire hm
      obtain ⟨hreach, hkept⟩ := hlater other hother
      obtain ⟨row', hrow', hkey, hseq⟩ := hkept row hrow
      -- The row that matches on a later page is the row that was kept, by its key.
      obtain ⟨same, hsame, hkey', hselects⟩ := hthroughout other hother
      rw [List.inj_on_of_nodup_map (h.keys hreach) hsame hrow' (hkey'.trans hkey.symm)] at hselects
      rw [hw.rows]
      exact ⟨row', hrow', hkey, hseq, hselects⟩
  accepted := by
    intro s after limit items cursor hs hfits hserves
    obtain ⟨start, kept, n, hserved, hbound⟩ := h.serves hs hserves
    obtain ⟨k, rfl, rfl⟩ := Option.map_eq_some_iff.mp hserved.next.symm
    obtain ⟨-, row, hrow, rfl⟩ := hserved.page.more k rfl
    have hmem := (Feed.mem_above.mp (hserved.page.first.subset (List.mem_of_getLast? hrow))).1
    have hpos := h.positive hs row hmem
    exact ⟨L.seq row, parseCursor_toString hpos (hbound hfits _ rfl)⟩

end Listing

/-! ## Pages of a table -/

section Tables

variable {State Row Record Item Key : Type} {L : Listing State Row Item Key} {s : State}
  {after next : Option String} {items : List Item} {start : Option Int} {limit : Int64}

/-- A page of the fetched records is a page of the rows. -/
theorem Listing.serves_of_page (record : Row → Record) {rowSeq : Record → Int}
    {cast : Record → Option Item} (hseq : ∀ row ∈ L.rows s, rowSeq (record row) = L.seq row)
    (hcast : ∀ row, L.cast row = cast (record row)) (hstart : parseCursor after = some start)
    (hlimit : (1 ≤ limit && limit ≤ 200) = true) {fetched : List Row}
    (hfetched : fetched =
      (Feed.above L.seq L.selects (L.rows s) (start.getD 0)).take (limit + 1).toInt.toNat)
    (hitems : optionAll cast (FeatureFlags.page limit rowSeq (fetched.map record)).1 = some items)
    (hnext : next = (FeatureFlags.page limit rowSeq (fetched.map record)).2) :
    ∃ kept n, L.Serves s after items next start kept n ∧ ∀ row ∈ kept, row ∈ fetched := by
  obtain ⟨hlow, hplus⟩ := limit_toInt hlimit
  have hprobe := @Feed.isPage_probe _ L.seq L.selects (L.rows s) (start.getD 0) limit.toInt.toNat
    (by omega) fetched (by rw [hfetched, hplus]; congr 1; omega)
  have hmem : ∀ row ∈ fetched, row ∈ L.rows s := by
    intro row hrow
    rw [hfetched] at hrow
    exact (Feed.mem_above.mp (List.mem_of_mem_take hrow)).1
  have hitem : ∀ {kept : List Row}, optionAll cast (kept.map record) = some items →
      kept.map L.cast = items.map some := by
    intro kept hall
    have hrecords := optionAll_eq_some.mp hall
    rw [List.forall₂_map_left_iff] at hrecords
    rw [← List.forall₂_eq_eq_eq, List.forall₂_map_left_iff, List.forall₂_map_right_iff]
    exact hrecords.imp fun row item h => (hcast row).trans h
  unfold FeatureFlags.page at hitems hnext
  rw [List.length_map] at hitems hnext
  split at hprobe
  · next hmore =>
    rw [if_pos hmore, ← List.map_dropLast] at hitems hnext
    refine ⟨fetched.dropLast, _, ⟨hstart, hprobe, hitem hitems, ?_⟩,
      fun row hrow => List.dropLast_subset _ hrow⟩
    rw [hnext, List.getLast?_map, Option.map_map, Option.map_map]
    refine Option.map_congr fun row hrow => ?_
    exact congrArg toString (hseq row (hmem row (List.dropLast_subset _
      (List.mem_of_getLast? hrow))))
  · next hmore =>
    rw [if_neg hmore] at hitems hnext
    exact ⟨fetched, none, ⟨hstart, hprobe, hitem hitems, hnext⟩, fun _ hrow => hrow⟩

/-- The cursor is the number of a row of the page. -/
theorem Listing.Serves.bounded {kept : List Row} {n : Option Int}
    (h : L.Serves s after items next start kept n) {bound : Int}
    (hbound : ∀ row ∈ kept, L.seq row ≤ bound) : ∀ m, n = some m → m ≤ bound := by
  intro m hm
  obtain ⟨-, row, hrow, rfl⟩ := h.page.more m hm
  exact hbound row (List.mem_of_getLast? hrow)

theorem Listing.Serves.mem_rows {kept : List Row} {n : Option Int}
    (h : L.Serves s after items next start kept n) {row : Row} (hrow : row ∈ kept) :
    row ∈ L.rows s :=
  (Feed.mem_above.mp (h.page.first.subset hrow)).1

end Tables

/-- Somebody's request for a page of flags is answered, and the store replied as `Lists` says. -/
def ServesFlags (Lists : Exchange Ask.Reply → Prop) (platform : Platform) (config : PolicyConfig)
    (org : String) (includeArchived : Bool) (after : Option String) (limit : Int64)
    (flags : List FlagResponse) (next : Option String) : Prop :=
  ∃ context trace,
    Runs (FeatureFlags.listFlags platform config context ⟨after, includeArchived, limit, org⟩) trace
      (.ok ⟨flags, next⟩) ∧ ∀ exchange ∈ trace, Lists exchange

def ServesReceipts (Lists : Exchange Ask.Reply → Prop) (platform : Platform)
    (config : PolicyConfig) (org : String) (flagKey environmentKey : Option String)
    (after : Option String) (limit : Int64) (receipts : List ReceiptResponse)
    (next : Option String) : Prop :=
  ∃ context trace,
    Runs (FeatureFlags.listEvaluationReceipts platform config context
      ⟨after, environmentKey, flagKey, limit, org⟩) trace (.ok ⟨receipts, next⟩) ∧
      ∀ exchange ∈ trace, Lists exchange

theorem castFlag_key {platform : Platform} {record : FlagRecord} {item : FlagResponse}
    (h : castFlag platform record = some item) :
    item.organizationId = record.organizationId ∧ item.flagKey = record.flagKey := by
  unfold castFlag at h
  split at h
  all_goals
    simp only [Option.bind_eq_bind, Option.bind_eq_some_iff] at h
    obtain ⟨_, -, _, -, _, -, _, -, h⟩ := h
    cases h
    exact ⟨rfl, rfl⟩

theorem castReceipt_key {platform : Platform} {record : ReceiptRecord} {item : ReceiptResponse}
    (h : castReceipt platform record = some item) : item.receiptId = record.receiptId := by
  simp only [castReceipt, Option.bind_eq_bind, Option.bind_eq_some_iff] at h
  obtain ⟨_, -, _, -, h⟩ := h
  cases h
  rfl

/-! ## PostgreSQL -/

namespace Postgres

variable {codec : Codec} (describe : DbError → String) (rt : Runtime) (platform : Platform)
  (config : PolicyConfig) (org : String)

/-- The replies about listings are read from the tables. -/
def Lists (t : Tables codec) : Exchange Ask.Reply → Prop
  | ⟨.store (.listFlags org includeArchived after limit), reply⟩ =>
      reply = listFlags describe rt t org includeArchived after limit
  | ⟨.store (.listReceipts org flagKey environmentKey after limit), reply⟩ =>
      reply = listReceipts describe rt t org flagKey environmentKey after limit
  | _ => True

/-- `list_flags` of one organization. -/
def flagListing (includeArchived : Bool) :
    Listing (State codec describe rt) FlagRow FlagResponse (String × String) where
  rows s := s.store.flags
  seq := FlagRow.rowSeq
  key := FlagRow.key
  selects row := row.organizationId = org && (includeArchived || !row.archived)
  cast row := castFlag platform (flagFromRow rt row)
  itemKey item := (item.organizationId, item.flagKey)
  serves s := ServesFlags (Lists describe rt s.store) platform config org includeArchived

/-- `list_evaluation_receipts` of one organization. -/
def receiptListing (flagKey environmentKey : Option String) :
    Listing (State codec describe rt) ReceiptRow ReceiptResponse String where
  rows s := s.store.receipts
  seq := ReceiptRow.rowSeq
  key := ReceiptRow.receiptId
  selects row := row.organizationId = org && flagKey.all (· == row.flagKey)
    && environmentKey.all (· == row.environmentKey)
  cast row := castReceipt platform (receiptFromRow rt row)
  itemKey := ReceiptResponse.receiptId
  serves s := ServesReceipts (Lists describe rt s.store) platform config org flagKey environmentKey

/-- `row_seq` is a `BIGSERIAL` column. -/
structure Bigserial (t : Tables codec) : Prop where
  flags : ∀ row ∈ t.flags, row.rowSeq ≤ i64Max
  receipts : ∀ row ∈ t.receipts, row.rowSeq ≤ i64Max

variable {describe rt platform config org}

theorem Inv.positive {s : State codec describe rt} (hi : Inv s) :
    (∀ row ∈ s.store.flags, 0 < row.rowSeq) ∧ ∀ row ∈ s.store.receipts, 0 < row.rowSeq := by
  obtain ⟨c, hc⟩ := hi.content
  have hs := hc.sound
  refine ⟨fun row hrow => hs.flagPositive (row.flag rt) ?_,
    fun row hrow => hs.receiptPositive (row.receipt rt) ?_⟩
  · rw [← hc.represents.rows.flags]
    exact List.mem_map_of_mem hrow
  · rw [← hc.represents.rows.receipts]
    exact List.mem_map_of_mem hrow

theorem flagListing_lawful {includeArchived : Bool} :
    (@flagListing codec describe rt platform config org includeArchived).Lawful
      Reachable Steps fun s => Bigserial s.store where
  steps := fun h hs => h.trans hs
  seqs := fun h => (Inv.reachable h).unique.flagSeqs
  keys := fun h => (Inv.reachable h).unique.flagKeys
  positive := fun h => (Inv.reachable h).positive.1
  kept := fun h hs => (Steps.kept h hs).flags
  named := by
    intro s _ row _ item hitem
    obtain ⟨horg, hkey⟩ := castFlag_key hitem
    exact Prod.ext horg hkey
  serves := by
    rintro s after limit items next - ⟨context, trace, hruns, hlists⟩
    obtain ⟨start, records, hstart, hlimit, hmem, hitems, hnext⟩ := listFlags_runs hruns
    have hreply : listFlags describe rt s.store org includeArchived start (limit + 1).toInt =
        .ok records := (hlists _ hmem).symm
    simp only [listFlags, bind_eq_ok] at hreply
    obtain ⟨fetched, hfetched, hrecords⟩ := hreply
    cases hrecords
    obtain ⟨kept, n, hserves, -⟩ := @Listing.serves_of_page _ _ _ _ _
      (flagListing describe rt platform config org includeArchived) s _ _ _ _ _
      (flagFromRow rt) _ _ (fun _ _ => rfl) (fun _ => rfl) hstart hlimit _
      (page_eq_ok hfetched) hitems hnext
    exact ⟨start, kept, n, hserves, fun hfits => hserves.bounded fun row hrow =>
      hfits.flags row (hserves.mem_rows hrow)⟩

theorem receiptListing_lawful {flagKey environmentKey : Option String} :
    (@receiptListing codec describe rt platform config org flagKey environmentKey).Lawful
      Reachable Steps fun s => Bigserial s.store where
  steps := fun h hs => h.trans hs
  seqs := fun h => (Inv.reachable h).unique.receiptSeqs
  keys := fun h => (Inv.reachable h).unique.receiptIds
  positive := fun h => (Inv.reachable h).positive.2
  kept := fun h hs row hrow => ⟨row, (Steps.kept h hs).receipts row hrow, rfl, rfl⟩
  named := fun _ _ _ _ hitem => castReceipt_key hitem
  serves := by
    rintro s after limit items next - ⟨context, trace, hruns, hlists⟩
    obtain ⟨start, records, hstart, hlimit, hmem, hitems, hnext⟩ := listEvaluationReceipts_runs hruns
    have hreply : listReceipts describe rt s.store org flagKey environmentKey start
        (limit + 1).toInt = .ok records := (hlists _ hmem).symm
    simp only [listReceipts, bind_eq_ok] at hreply
    obtain ⟨fetched, hfetched, hrecords⟩ := hreply
    cases hrecords
    obtain ⟨kept, n, hserves, -⟩ := @Listing.serves_of_page _ _ _ _ _
      (receiptListing describe rt platform config org flagKey environmentKey) s _ _ _ _ _
      (receiptFromRow rt) _ _ (fun _ _ => rfl) (fun _ => rfl) hstart hlimit _
      (page_eq_ok hfetched) hitems hnext
    exact ⟨start, kept, n, hserves, fun hfits => hserves.bounded fun row hrow =>
      hfits.receipts row (hserves.mem_rows hrow)⟩

end Postgres

/-! ## D1 -/

namespace D1

variable {codec : Codec} (rt : Runtime) (platform : Platform) (config : PolicyConfig) (org : String)

def Lists (t : Tables codec) : Exchange Ask.Reply → Prop
  | ⟨.store (.listFlags org includeArchived after limit), reply⟩ =>
      reply = .ok (listFlags t org includeArchived after limit)
  | ⟨.store (.listReceipts org flagKey environmentKey after limit), reply⟩ =>
      reply = listReceipts t org flagKey environmentKey after limit
  | _ => True

def flagListing (includeArchived : Bool) :
    Listing (State codec) FlagRow FlagResponse (String × String) where
  rows s := s.tables.flags
  seq := FlagRow.rowSeq
  key := FlagRow.key
  selects row := row.organizationId = org && (includeArchived || !row.record.archived)
  cast row := castFlag platform row.record
  itemKey item := (item.organizationId, item.flagKey)
  serves s := ServesFlags (Lists s.tables) platform config org includeArchived

/-- A receipt as it is listed. -/
def ReceiptRow.listed (row : ReceiptRow) : ReceiptRecord :=
  { receiptId := row.record.receiptId
    evaluationId := row.record.evaluationId
    flagKey := row.record.flagKey
    environmentKey := row.record.environmentKey
    variantKey := row.record.variantKey
    reason := row.record.reason
    rulesetRevision := row.record.rulesetRevision
    contextHash := row.record.contextHash
    evaluatedAt := row.record.evaluatedAt
    rowSeq := row.rowSeq }

def receiptListing (flagKey environmentKey : Option String) :
    Listing (State codec) ReceiptRow ReceiptResponse String where
  rows s := s.tables.receipts
  seq := ReceiptRow.rowSeq
  key := ReceiptRow.receiptId
  selects row := row.organizationId = org && flagKey.all (· == row.flagKey)
    && environmentKey.all (· == row.environmentKey)
  cast row := castReceipt platform row.listed
  itemKey := ReceiptResponse.receiptId
  serves s := ServesReceipts (Lists s.tables) platform config org flagKey environmentKey

variable {rt platform config org}

theorem revision_eq_ok {value : String} {n : Int} (h : revision value = .ok n) :
    parseRevision value = some n := by
  unfold revision at h
  split at h
  · next v hv =>
    split at h
    · next hpos =>
      cases h
      exact Option.filter_eq_some_iff.mpr ⟨hv, decide_eq_true hpos⟩
    · cases h
  · cases h

/-- The receipts of a page are read back with their numbers. -/
theorem receiptRecords_eq_listed {rows : List ReceiptRow} {records : List ReceiptRecord}
    (hpos : ∀ row ∈ rows, 0 < row.rowSeq) (h : receiptRecords rows = .ok records) :
    records = rows.map ReceiptRow.listed ∧ ∀ row ∈ rows, row.rowSeq ≤ i64Max := by
  induction rows generalizing records with
  | nil =>
    cases h
    exact ⟨rfl, fun _ hrow => absurd hrow List.not_mem_nil⟩
  | cons row rows ih =>
    obtain ⟨hrow, hrows⟩ := List.forall_mem_cons.mp hpos
    simp only [receiptRecords, receiptRecord, bind_eq_ok] at h
    obtain ⟨first, ⟨n, hn, hfirst⟩, rest, hrest, h⟩ := h
    cases h
    cases hfirst
    obtain ⟨rfl, hle⟩ := ih hrows hrest
    have hparsed := revision_eq_ok hn
    obtain rfl := parseRevision_toString_eq hrow hparsed
    exact ⟨rfl, List.forall_mem_cons.mpr ⟨(parseRevision_eq_some.mp hparsed).1.2, hle⟩⟩

variable {s s' : State codec}

/-- What the counters and keys say of the rows of a reachable state. -/
structure Keyed (t : Tables codec) : Prop where
  flagKeys : (t.flags.map FlagRow.key).Nodup
  flagSeqs : (t.flags.map FlagRow.rowSeq).Nodup
  flagRange : ∀ row ∈ t.flags, 0 < row.rowSeq ∧ row.rowSeq ≤ i64Max
  flagRecord : ∀ row ∈ t.flags, row.record.organizationId = row.organizationId ∧
    row.record.flagKey = row.flagKey ∧ row.record.rowSeq = row.rowSeq
  receiptIds : (t.receipts.map ReceiptRow.receiptId).Nodup
  receiptSeqs : (t.receipts.map ReceiptRow.rowSeq).Nodup
  receiptPositive : ∀ row ∈ t.receipts, 0 < row.rowSeq
  receiptRecord : ∀ row ∈ t.receipts, row.record.receiptId = row.receiptId

theorem Inv.keyed (hi : Inv rt s) : Keyed s.tables := by
  obtain ⟨c, hr, hlogged⟩ := hi.represented
  have hs := hlogged.run.sound
  have hrange := hi.range
  refine ⟨?_, ?_, ?_, ?_, ?_, ?_, ?_, ?_⟩
  · rw [hr.flags, List.map_map]
    exact hs.flagKeys
  · rw [hr.flags, List.map_map]
    exact hs.flagSeqs
  · rw [hr.flags, List.forall_mem_map]
    intro flag hflag
    obtain ⟨hpos, hlt⟩ := hr.rowSeqs flag hflag
    exact ⟨hpos, hlt.le.trans hrange⟩
  · rw [hr.flags, List.forall_mem_map]
    exact fun _ _ => ⟨rfl, rfl, rfl⟩
  · rw [hr.receipts, List.map_map]
    exact hs.receiptIds
  · rw [hr.receipts, List.map_map]
    exact hs.receiptSeqs
  · rw [hr.receipts, List.forall_mem_map]
    exact fun receipt hreceipt => (hr.receiptSeqs receipt hreceipt).1
  · rw [hr.receipts, List.forall_mem_map]
    exact fun _ _ => rfl

theorem Reachable.keyed (h : Reachable rt s) : Keyed s.tables := (Inv.reachable h).keyed

theorem page_eq_take {limit : Int64} (hlimit : (1 ≤ limit && limit ≤ 200) = true) {Row : Type}
    (rows : List Row) : page (limit + 1).toInt rows = rows.take (limit + 1).toInt.toNat := by
  have hpos := limit_range hlimit
  exact if_neg (by omega)

theorem flagListing_lawful {includeArchived : Bool} :
    (@flagListing codec platform config org includeArchived).Lawful
      (Reachable rt) (Steps rt) fun _ => True where
  steps := fun h hs => h.trans hs
  seqs := fun h => h.keyed.flagSeqs
  keys := fun h => h.keyed.flagKeys
  positive := fun h row hrow => (h.keyed.flagRange row hrow).1
  kept := fun h hs => (Steps.grows h hs).flags.kept
  named := by
    intro s h row hrow item hitem
    obtain ⟨horg, hkey, -⟩ := h.keyed.flagRecord row hrow
    obtain ⟨horg', hkey'⟩ := castFlag_key hitem
    exact Prod.ext (horg'.trans horg) (hkey'.trans hkey)
  serves := by
    rintro s after limit items next h ⟨context, trace, hruns, hlists⟩
    obtain ⟨start, records, hstart, hlimit, hmem, hitems, hnext⟩ := listFlags_runs hruns
    cases (hlists _ hmem : .ok records = Except.ok _)
    obtain ⟨kept, n, hserves, -⟩ := @Listing.serves_of_page _ _ _ _ _
      (flagListing platform config org includeArchived) s _ _ _ _ _
      (fun row => row.record) _ _ (fun row hrow => (h.keyed.flagRecord row hrow).2.2)
      (fun _ => rfl) hstart hlimit _ (page_eq_take hlimit _) hitems hnext
    exact ⟨start, kept, n, hserves, fun _ => hserves.bounded fun row hrow =>
      (h.keyed.flagRange row (hserves.mem_rows hrow)).2⟩

theorem receiptListing_lawful {flagKey environmentKey : Option String} :
    (@receiptListing codec platform config org flagKey environmentKey).Lawful
      (Reachable rt) (Steps rt) fun _ => True where
  steps := fun h hs => h.trans hs
  seqs := fun h => h.keyed.receiptSeqs
  keys := fun h => h.keyed.receiptIds
  positive := fun h => h.keyed.receiptPositive
  kept := fun h hs => (Steps.grows h hs).receipts.kept
  named := fun h row hrow _ hitem => (castReceipt_key hitem).trans (h.keyed.receiptRecord row hrow)
  serves := by
    rintro s after limit items next h ⟨context, trace, hruns, hlists⟩
    obtain ⟨start, records, hstart, hlimit, hmem, hitems, hnext⟩ := listEvaluationReceipts_runs hruns
    have hreply : listReceipts s.tables org flagKey environmentKey start (limit + 1).toInt =
        .ok records := (hlists _ hmem).symm
    rw [listReceipts, page_eq_take hlimit] at hreply
    obtain ⟨rfl, hle⟩ := receiptRecords_eq_listed (fun row hrow => h.keyed.receiptPositive row
      (List.mem_of_mem_filter (Table.mem_orderBy.mp (List.mem_of_mem_take hrow)))) hreply
    obtain ⟨kept, n, hserves, hkept⟩ := @Listing.serves_of_page _ _ _ _ _
      (receiptListing platform config org flagKey environmentKey) s _ _ _ _ _
      ReceiptRow.listed _ _ (fun _ _ => rfl) (fun _ => rfl) hstart hlimit _ rfl
      hitems hnext
    exact ⟨start, kept, n, hserves, fun _ => hserves.bounded fun row hrow =>
      hle row (hkept row hrow)⟩

end D1

end LensoFlags
