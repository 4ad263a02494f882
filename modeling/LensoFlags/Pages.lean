import LensoFlags.Pagination
import LensoFlags.D1.Backend
import LensoFlags.Postgres.Backend

/-!
# Pages

Whoever is granted a listing gets the page it asks for, so that it can go through the listing with
pages of any sizes.

Results:
1. `Listing.Lawful.total`: a listing that answers every cursor can be gone through to its end.
2. `flags_given`, `receipts_given`: the requests that are granted are answered.
3. `pagination_complete`: the four listings of the two backends are complete, and end.
-/

namespace LensoFlags

open Locking Locking.Program
open Decimal (i64Max)

/-! ## Listings that answer -/

/-- A listing as those have it who are granted it. -/
structure Audience (State Item : Type) where
  granted : Ctx → Authorized → Prop
  /-- The request of the caller is answered with the items and the next cursor. -/
  gives : Ctx → Authorized → State → Option String → Int64 → List Item → Option String → Prop

namespace Listing

variable {State Row Item Key : Type} (L : Listing State Row Item Key)

/-- The pages of a state behind a cursor, of the sizes that are asked for, to the end. -/
structure Traversed (Steps : State → State → Prop)
    (gives : Option String → Int64 → List Item → Option String → Prop) (limits : ℕ → Int64)
    (s : State) (after : Option String) (rows : List Row) (pages : List (Page State Item)) :
    Prop where
  reading : L.Reading Steps after pages
  given : ∀ page ∈ pages, page.state = s ∧ ∃ after, gives after page.limit page.items page.next
  limits : pages.map Page.limit = (List.range pages.length).map limits
  ends : pages.getLast?.bind Page.next = none
  items : (pages.flatMap Page.items).map some = rows.map L.cast

structure Total (A : Audience State Item) (Reachable : State → Prop) (Steps : State → State → Prop)
    (Ready : State → Prop) : Prop where
  served : ∀ {context auth s after limit items next},
    A.gives context auth s after limit items next → L.serves s after limit items next
  /-- Whoever is granted the listing is answered, from the start and behind every cursor that
  `parse_cursor` takes. -/
  answered : ∀ s, Reachable s → Ready s → ∀ context auth, A.granted context auth →
    ∀ after limit start, (1 ≤ limit && limit ≤ 200) = true → parseCursor after = some start →
    ∃ items next, A.gives context auth s after limit items next ∧ items.length ≤ limit.toInt.toNat
  /-- With any limits, the paging ends, and all that is to be listed has come. -/
  traversed : ∀ s, Reachable s → Ready s → ∀ context auth, A.granted context auth →
    ∀ limits : ℕ → Int64, (∀ n, (1 ≤ limits n && limits n ≤ 200) = true) →
    ∃ pages, L.Traversed Steps (A.gives context auth s) limits s none (L.all s) pages

variable {L} {Reachable : State → Prop} {Steps : State → State → Prop} {Fits : State → Prop}
  {s : State} {gives : Option String → Int64 → List Item → Option String → Prop}

theorem Tells.parsed {after : Option String} {n : Int} (h : Tells after n) (hle : n ≤ i64Max) :
    ∃ start, parseCursor after = some start := by
  cases h with
  | begins => exact ⟨none, rfl⟩
  | goesOn hpos => exact ⟨some n, parseCursor_toString hpos hle⟩

/-- A page before the others. -/
theorem Traversed.cons {page : Page State Item} {cursor : String} {after : Option String}
    {kept rows : List Row} {limits : ℕ → Int64} {pages : List (Page State Item)}
    (hrefl : Steps s s) (hstate : page.state = s)
    (hserves : L.serves page.state after page.limit page.items page.next)
    (hgives : gives after page.limit page.items page.next) (hlimit : page.limit = limits 0)
    (hnext : page.next = some cursor) (hitems : kept.map L.cast = page.items.map some)
    (h : L.Traversed Steps gives (fun n => limits (n + 1)) s (some cursor) rows pages) :
    L.Traversed Steps gives limits s after (kept ++ rows) (page :: pages) := by
  obtain ⟨hreading, hgiven, hlimits, hends, hrest⟩ := h
  cases pages with
  | nil => cases hreading
  | cons page' pages =>
    refine ⟨.more hserves hnext ?_ hreading, List.forall_mem_cons.mpr ⟨⟨hstate, _, hgives⟩, hgiven⟩,
      ?_, ?_, ?_⟩
    · rw [hstate, (hgiven page' List.mem_cons_self).1]
      exact hrefl
    · change page.limit :: (page' :: pages).map Page.limit =
        (List.range ((page' :: pages).length + 1)).map limits
      rw [hlimits, hlimit, List.range_succ_eq_map, List.map_cons, List.map_map]
      rfl
    · rwa [List.getLast?_cons_cons]
    · rw [List.flatMap_cons, List.map_append, hrest, ← hitems, List.map_append]

/-- Page after page is given, until there is nothing left behind the cursor. -/
theorem Lawful.exists_traversed (h : L.Lawful Reachable Steps Fits) (hs : Reachable s)
    (hfits : Fits s) (hrefl : Steps s s)
    (hserved : ∀ {after limit items next}, gives after limit items next →
      L.serves s after limit items next)
    (hgives : ∀ after limit start, (1 ≤ limit && limit ≤ 200) = true →
      parseCursor after = some start → ∃ items next, gives after limit items next)
    {limits : ℕ → Int64} (hlimits : ∀ n, (1 ≤ limits n && limits n ≤ 200) = true)
    {after : Option String} {n : Int} (hn : Tells after n) (hle : n ≤ i64Max) :
    ∃ pages, L.Traversed Steps gives limits s after
      (Feed.above L.seq L.selects (L.rows s) n) pages := by
  -- Induction on the number of the rows that are left.
  generalize hm : (Feed.above L.seq L.selects (L.rows s) n).length = m
  induction m using Nat.strong_induction_on generalizing limits after n with
  | _ m ih =>
    obtain ⟨start, hstart⟩ := hn.parsed hle
    obtain ⟨items, next, hgiven⟩ := hgives after (limits 0) start (hlimits 0) hstart
    obtain ⟨_, kept, k, hserves, hbound⟩ := h.serves hs (hserved hgiven)
    have hpage := hserves.page
    rw [hn.start hserves.parsed] at hpage
    cases k with
    | none =>
      have hnone : next = none := hserves.next
      subst hnone
      refine ⟨[⟨s, limits 0, items, none⟩], .last (hserved hgiven), ?_, rfl, rfl, ?_⟩
      · intro page hpage
        rw [List.mem_singleton.mp hpage]
        exact ⟨rfl, after, hgiven⟩
      · rw [← hpage.last rfl, hserves.items, List.flatMap_singleton]
    | some k =>
      have hsome : next = some (toString k) := hserves.next
      subst hsome
      obtain ⟨-, hsplit⟩ := hpage.split (h.seqs hs)
      obtain ⟨-, row, hrow, rfl⟩ := hpage.more k rfl
      have hkept := List.mem_of_getLast? hrow
      have hmem := (Feed.mem_above.mp (hpage.first.subset hkept)).1
      have hfewer : (Feed.above L.seq L.selects (L.rows s) (L.seq row)).length < m := by
        rw [← hm, hsplit, List.length_append]
        exact Nat.lt_add_of_pos_left (List.length_pos_of_mem hkept)
      obtain ⟨pages, hpages⟩ := ih _ hfewer (fun n => hlimits (n + 1))
        (.goesOn (h.positive hs row hmem)) (hbound hfits _ rfl) rfl
      rw [hsplit]
      exact ⟨⟨s, limits 0, items, _⟩ :: pages,
        .cons hrefl rfl (hserved hgiven) hgiven rfl rfl hserves.items hpages⟩

/-- A listing that answers can be gone through. -/
theorem Lawful.total (h : L.Lawful Reachable Steps Fits) {A : Audience State Item}
    {Ready : State → Prop} (hrefl : ∀ s, Steps s s) (hfits : ∀ s, Ready s → Fits s)
    (hserved : ∀ {context auth s after limit items next},
      A.gives context auth s after limit items next → L.serves s after limit items next)
    (hanswered : ∀ s, Reachable s → Ready s → ∀ context auth, A.granted context auth →
      ∀ after limit start, (1 ≤ limit && limit ≤ 200) = true → parseCursor after = some start →
      ∃ items next, A.gives context auth s after limit items next ∧
        items.length ≤ limit.toInt.toNat) :
    L.Total A Reachable Steps Ready where
  served := hserved
  answered := hanswered
  traversed := by
    intro s hs hready context auth hgranted limits hlimits
    rw [← h.above_eq hs]
    refine h.exists_traversed hs (hfits s hready) (hrefl s) hserved ?_ hlimits .begins (by decide)
    intro after limit start hlimit hstart
    obtain ⟨items, next, hgiven, -⟩ :=
      hanswered s hs hready context auth hgranted after limit start hlimit hstart
    exact ⟨items, next, hgiven⟩

end Listing

/-! ## Answers to granted requests -/

section Granted

variable {platform : Platform} {config : PolicyConfig} {context : Ctx} {auth : Authorized}

/-- What a listing makes of the reply: a page of the records, on the wire. -/
def paged (platform : Platform) {Record Item α : Type} (limit : Int64) (rowSeq : Record → Int)
    (cast : Record → Option Item) (respond : List Item → Option String → α)
    (reply : Except StorageError (List Record)) : Service (PluginError AdminError) α :=
  mapStorage platform adminError reply >>= fun records =>
    wireCast platform (optionAll cast (FeatureFlags.page limit rowSeq records).1) >>= fun items =>
      .ret (respond items (FeatureFlags.page limit rowSeq records).2)

/-- Behind a granted authorization the rest of the operation goes on. -/
theorem authorized_follows {callers : List String}
    {capability operation organizationId permission : String} {E α : Type}
    {f : AuthorizationFailure → E} {rest : Authorized → Service E α} {p : Service E α}
    (hcaller : context.callerInstance = some auth.caller) (hlisted : auth.caller ∈ callers)
    (horganization : validOpaqueId organizationId) (hactor : validOpaqueId auth.actor)
    (hrest : rest auth = p) :
    Follows ((FeatureFlags.authorize platform context callers capability operation organizationId
        permission).mapError f >>= rest)
      [⟨.verifier, true⟩, ⟨.projectContext capability operation, some auth.actor⟩,
        ⟨.checkMembership organizationId auth.actor, .ok true⟩,
        ⟨.checkPermission auth.actor "organization" organizationId permission, .ok true⟩] p := by
  have hauthorized : Follows (FeatureFlags.authorize platform context callers capability operation
      organizationId permission) _ (.ret auth) :=
    authorize_follows hcaller hlisted horganization hactor
  rw [← hrest]
  exact (hauthorized.mapError f).bind rest

variable (platform) in
/-- A granted request for a page of flags asks the store for it. -/
theorem listFlags_asks {request : ListFlagsRequest} {start : Option Int}
    (hgrantable : (Request.listFlags request).Grantable config context auth)
    (hlimit : (1 ≤ request.limit && request.limit ≤ 200) = true)
    (hstart : parseCursor request.after = some start) :
    Follows (FeatureFlags.listFlags platform config context request)
      ((Request.listFlags request).grants auth.actor)
      (.step (.store (.listFlags request.organizationId request.includeArchived start
          (request.limit + 1).toInt))
        (paged platform request.limit FlagRecord.rowSeq (castFlag platform)
          ListFlagsResponse.mk)) := by
  refine authorized_follows hgrantable.caller hgrantable.listed hgrantable.organizationId
    hgrantable.actor ?_
  rw [hstart]
  change ensure (1 ≤ request.limit && request.limit ≤ 200) _ >>= _ = _
  rw [ensure_true hlimit]
  rfl

variable (platform) in
/-- A granted request for a page of receipts asks the store for it. -/
theorem listEvaluationReceipts_asks {request : ListEvaluationReceiptsRequest} {start : Option Int}
    (hgrantable : (Request.listEvaluationReceipts request).Grantable config context auth)
    (hchecked : (1 ≤ request.limit && request.limit ≤ 200
      && request.flagKey.all (validKey · 128) && request.environmentKey.all (validKey · 128)) = true)
    (hstart : parseCursor request.after = some start) :
    Follows (FeatureFlags.listEvaluationReceipts platform config context request)
      ((Request.listEvaluationReceipts request).grants auth.actor)
      (.step (.store (.listReceipts request.organizationId request.flagKey request.environmentKey
          start (request.limit + 1).toInt))
        (paged platform request.limit ReceiptRecord.rowSeq (castReceipt platform)
          ListEvaluationReceiptsResponse.mk)) := by
  refine authorized_follows hgrantable.caller hgrantable.listed hgrantable.organizationId
    hgrantable.actor ?_
  rw [hstart]
  change ensure (1 ≤ request.limit && request.limit ≤ 200
    && request.flagKey.all (validKey · 128) && request.environmentKey.all (validKey · 128)) _ >>=
      _ = _
  rw [ensure_true hchecked]
  rfl

section Paged

variable {Record Item α : Type} {limit : Int64} {rowSeq : Record → Int}
  {cast : Record → Option Item} {respond : List Item → Option String → α} {records : List Record}

theorem paged_ok {items : List Item}
    (h : optionAll cast (FeatureFlags.page limit rowSeq records).1 = some items) :
    paged platform limit rowSeq cast respond (.ok records) =
      .ret (respond items (FeatureFlags.page limit rowSeq records).2) := by
  change wireCast platform (optionAll cast (FeatureFlags.page limit rowSeq records).1) >>= _ = _
  rw [h]
  rfl

theorem page_length (hbound : records.length ≤ limit.toInt.toNat + 1) :
    (FeatureFlags.page limit rowSeq records).1.length ≤ limit.toInt.toNat := by
  unfold FeatureFlags.page
  split
  · rw [List.length_dropLast]
    omega
  · next hmore => exact Nat.le_of_not_lt hmore

/-- One row more than the page holds is fetched. -/
theorem fetched_length {β : Type} (rows : List β) (hlimit : (1 ≤ limit && limit ≤ 200) = true) :
    (rows.take (limit + 1).toInt.toNat).length ≤ limit.toInt.toNat + 1 := by
  obtain ⟨hlow, hplus⟩ := limit_toInt hlimit
  rw [List.length_take, hplus]
  omega

/-- A reply whose records pass `wire_cast` is answered. -/
theorem paged_answered (hpasses : ∀ record ∈ records, ∃ item, cast record = some item)
    (hbound : records.length ≤ limit.toInt.toNat + 1) :
    ∃ items : List Item, items.length ≤ limit.toInt.toNat ∧
      Runs (paged platform limit rowSeq cast respond (.ok records)) []
        (.ok (respond items (FeatureFlags.page limit rowSeq records).2)) := by
  obtain ⟨items, hitems⟩ := exists_optionAll fun record (hrecord : record ∈
    (FeatureFlags.page limit rowSeq records).1) => hpasses record (mem_of_mem_page hrecord)
  rw [paged_ok hitems]
  refine ⟨items, ?_, .ret⟩
  rw [← (optionAll_eq_some.mp hitems).length_eq]
  exact page_length hbound

end Paged

/-- The caller is granted the page of flags, and the store replied as `Lists` says. -/
def GivesFlags (Lists : Exchange Ask.Reply → Prop) (platform : Platform) (config : PolicyConfig)
    (org : String) (includeArchived : Bool) (context : Ctx) (auth : Authorized)
    (after : Option String) (limit : Int64) (flags : List FlagResponse) (next : Option String) :
    Prop :=
  ∃ exchange, Lists exchange ∧
    Runs (FeatureFlags.listFlags platform config context ⟨after, includeArchived, limit, org⟩)
      ((Request.listFlags ⟨after, includeArchived, limit, org⟩).grants auth.actor ++ [exchange])
      (.ok ⟨flags, next⟩)

def GivesReceipts (Lists : Exchange Ask.Reply → Prop) (platform : Platform)
    (config : PolicyConfig) (org : String) (flagKey environmentKey : Option String) (context : Ctx)
    (auth : Authorized) (after : Option String) (limit : Int64) (receipts : List ReceiptResponse)
    (next : Option String) : Prop :=
  ∃ exchange, Lists exchange ∧
    Runs (FeatureFlags.listEvaluationReceipts platform config context
        ⟨after, environmentKey, flagKey, limit, org⟩)
      ((Request.listEvaluationReceipts ⟨after, environmentKey, flagKey, limit, org⟩).grants
        auth.actor ++ [exchange]) (.ok ⟨receipts, next⟩)

/-- Those who may list the flags of an organization. -/
def flagAudience {State : Type} (Lists : State → Exchange Ask.Reply → Prop) (platform : Platform)
    (config : PolicyConfig) (org : String) (includeArchived : Bool) :
    Audience State FlagResponse where
  granted context auth := ∀ after limit,
    (Request.listFlags ⟨after, includeArchived, limit, org⟩).Grantable config context auth
  gives context auth s := GivesFlags (Lists s) platform config org includeArchived context auth

/-- Those who may list the receipts of an organization, with a filter of valid keys. -/
def receiptAudience {State : Type} (Lists : State → Exchange Ask.Reply → Prop)
    (platform : Platform) (config : PolicyConfig) (org : String)
    (flagKey environmentKey : Option String) : Audience State ReceiptResponse where
  granted context auth := (flagKey.all (validKey · 128) && environmentKey.all (validKey · 128)) ∧
    ∀ after limit, (Request.listEvaluationReceipts
      ⟨after, environmentKey, flagKey, limit, org⟩).Grantable config context auth
  gives context auth s :=
    GivesReceipts (Lists s) platform config org flagKey environmentKey context auth

variable {codec : Codec} {c : Abstract.Store codec} {Lists : Exchange Ask.Reply → Prop}
  {org : String} {after : Option String} {start : Option Int} {limit : Int64}

/-- The page that a store holds is given, if the records pass `wire_cast`. -/
theorem flags_given {includeArchived : Bool} (hc : Abstract.Presented platform c)
    (hgrantable : (Request.listFlags ⟨after, includeArchived, limit, org⟩).Grantable config context
      auth) (hlimit : (1 ≤ limit && limit ≤ 200) = true) (hstart : parseCursor after = some start)
    (hlists : Lists ⟨.store (.listFlags org includeArchived start (limit + 1).toInt),
      .ok (Abstract.listFlags c org includeArchived start (limit + 1).toInt.toNat)⟩) :
    ∃ flags next, GivesFlags Lists platform config org includeArchived context auth after limit flags
      next ∧ flags.length ≤ limit.toInt.toNat := by
  have hpasses : StoreCall.Passes platform
      (.listFlags org includeArchived start (limit + 1).toInt)
      (Abstract.listFlags c org includeArchived start (limit + 1).toInt.toNat) :=
    hc.reads Abstract.reads_listFlags
  have hbound : (Abstract.listFlags c org includeArchived start (limit + 1).toInt.toNat).length ≤
      limit.toInt.toNat + 1 := by
    rw [Abstract.listFlags, List.length_map]
    exact fetched_length _ hlimit
  obtain ⟨flags, hlength, hpage⟩ := @paged_answered platform _ _ _ limit FlagRecord.rowSeq _
    ListFlagsResponse.mk _ hpasses hbound
  exact ⟨flags, _, ⟨_, hlists, (listFlags_asks platform hgrantable hlimit hstart).runs (.step hpage)⟩,
    hlength⟩

theorem receipts_given {flagKey environmentKey : Option String} (hc : Abstract.Presented platform c)
    (hgrantable : (Request.listEvaluationReceipts
      ⟨after, environmentKey, flagKey, limit, org⟩).Grantable config context auth)
    (hlimit : (1 ≤ limit && limit ≤ 200) = true)
    (hkeys : (flagKey.all (validKey · 128) && environmentKey.all (validKey · 128)) = true)
    (hstart : parseCursor after = some start)
    (hlists : Lists ⟨.store (.listReceipts org flagKey environmentKey start (limit + 1).toInt),
      .ok (Abstract.listReceipts c org flagKey environmentKey start (limit + 1).toInt.toNat)⟩) :
    ∃ receipts next, GivesReceipts Lists platform config org flagKey environmentKey context auth
      after limit receipts next ∧ receipts.length ≤ limit.toInt.toNat := by
  have hpasses : StoreCall.Passes platform
      (.listReceipts org flagKey environmentKey start (limit + 1).toInt)
      (Abstract.listReceipts c org flagKey environmentKey start (limit + 1).toInt.toNat) :=
    hc.reads Abstract.reads_listReceipts
  have hbound : (Abstract.listReceipts c org flagKey environmentKey start
      (limit + 1).toInt.toNat).length ≤ limit.toInt.toNat + 1 := by
    rw [Abstract.listReceipts, List.length_map]
    exact fetched_length _ hlimit
  have hchecked : (1 ≤ limit && limit ≤ 200 && flagKey.all (validKey · 128)
      && environmentKey.all (validKey · 128)) = true := by
    rw [Bool.and_assoc _ (flagKey.all _), hlimit, hkeys]
    rfl
  obtain ⟨receipts, hlength, hpage⟩ := @paged_answered platform _ _ _ limit ReceiptRecord.rowSeq
    _ ListEvaluationReceiptsResponse.mk _ hpasses hbound
  exact ⟨receipts, _, ⟨_, hlists,
    (listEvaluationReceipts_asks platform hgrantable hchecked hstart).runs (.step hpage)⟩, hlength⟩

/-- The exchanges of the authorization say nothing about the store. -/
theorem lists_granted {Lists : Exchange Ask.Reply → Prop} (request : Request) {actor : String}
    (hother : ∀ exchange, ¬exchange.1.IsStore → Lists exchange) {exchange : Exchange Ask.Reply}
    (hlists : Lists exchange) : ∀ other ∈ request.grants actor ++ [exchange], Lists other := by
  intro other hother'
  rcases List.mem_append.mp hother' with hmem | hmem
  · exact hother other (grants_not_store request actor other hmem)
  · rwa [List.mem_singleton.mp hmem]

end Granted

/-! ## The listings of the two backends -/

/-- The platform takes the timestamps that are written, and the calls came through `serve`. -/
structure Presents (platform : Platform) (rt : Runtime)
    (log : List (Serial.Entry Call Draws Answer)) : Prop where
  timestamps : ∀ instant, platform.isTimestamp (rt.formatTimestamp instant)
  lawful : ∀ e ∈ log, e.call.operation.Lawful rt

section Backends

variable {codec : Codec} {describe : Postgres.DbError → String} {rt : Runtime} {platform : Platform}
  {config : PolicyConfig} {org : String}

theorem Postgres.presented {s : Postgres.State codec describe rt} (h : Postgres.Reachable s)
    (hready : Presents platform rt s.log) :
    ∃ c, Postgres.Represents rt s.store c ∧ Abstract.Presented platform c := by
  obtain ⟨c, hr, hshown⟩ := Postgres.shown hready.timestamps h
  exact ⟨c, hr, (hshown hready.lawful).1⟩

theorem D1.presented {s : D1.State codec} (h : D1.Reachable rt s)
    (hready : Presents platform rt s.log) :
    ∃ c, D1.Represents s.tables c ∧ Abstract.Presented platform c := by
  obtain ⟨c, hr, hshown⟩ := D1.shown hready.timestamps h
  exact ⟨c, hr, (hshown hready.lawful).1⟩

theorem Postgres.lists_other {t : Postgres.Tables codec} {exchange : Exchange Ask.Reply}
    (h : ¬exchange.1.IsStore) : Postgres.Lists describe rt t exchange := by
  obtain ⟨asked, reply⟩ := exchange
  cases asked with
  | store call => exact absurd trivial h
  | _ => trivial

theorem D1.lists_other {t : D1.Tables codec} {exchange : Exchange Ask.Reply}
    (h : ¬exchange.1.IsStore) : D1.Lists t exchange := by
  obtain ⟨asked, reply⟩ := exchange
  cases asked with
  | store call => exact absurd trivial h
  | _ => trivial

theorem Postgres.flagListing_total {includeArchived : Bool} :
    (@Postgres.flagListing codec describe rt platform config org includeArchived).Total
      (flagAudience (fun s => Postgres.Lists describe rt s.store) platform config org includeArchived)
      Postgres.Reachable Postgres.Steps
      fun s => Presents platform rt s.log ∧ Postgres.Bigserial s.store := by
  refine Postgres.flagListing_lawful.total (fun _ => .refl) (fun _ h => h.2) ?_ ?_
  · rintro context auth s after limit items next ⟨exchange, hlists, hruns⟩
    exact ⟨context, _, hruns, lists_granted _ (fun _ => Postgres.lists_other) hlists⟩
  · rintro s hs ⟨hready, -⟩ context auth hgranted after limit start hlimit hstart
    obtain ⟨c, hr, hc⟩ := Postgres.presented hs hready
    have hpos := limit_range hlimit
    exact flags_given hc (hgranted after limit) hlimit hstart
      (hr.rows.listFlags describe org includeArchived start (by omega)).symm

theorem Postgres.receiptListing_total {flagKey environmentKey : Option String} :
    (@Postgres.receiptListing codec describe rt platform config org flagKey environmentKey).Total
      (receiptAudience (fun s => Postgres.Lists describe rt s.store) platform config org flagKey
        environmentKey) Postgres.Reachable Postgres.Steps
      fun s => Presents platform rt s.log ∧ Postgres.Bigserial s.store := by
  refine Postgres.receiptListing_lawful.total (fun _ => .refl) (fun _ h => h.2) ?_ ?_
  · rintro context auth s after limit items next ⟨exchange, hlists, hruns⟩
    exact ⟨context, _, hruns, lists_granted _ (fun _ => Postgres.lists_other) hlists⟩
  · rintro s hs ⟨hready, -⟩ context auth ⟨hkeys, hgranted⟩ after limit start hlimit hstart
    obtain ⟨c, hr, hc⟩ := Postgres.presented hs hready
    have hpos := limit_range hlimit
    exact receipts_given hc (hgranted after limit) hlimit hkeys hstart
      (hr.rows.listReceipts describe org flagKey environmentKey start (by omega)).symm

theorem D1.flagListing_total {includeArchived : Bool} :
    (@D1.flagListing codec platform config org includeArchived).Total
      (flagAudience (fun s => D1.Lists s.tables) platform config org includeArchived)
      (D1.Reachable rt) (D1.Steps rt) fun s => Presents platform rt s.log := by
  refine D1.flagListing_lawful.total (fun _ => .refl) (fun _ _ => trivial) ?_ ?_
  · rintro context auth s after limit items next ⟨exchange, hlists, hruns⟩
    exact ⟨context, _, hruns, lists_granted _ (fun _ => D1.lists_other) hlists⟩
  · intro s hs hready context auth hgranted after limit start hlimit hstart
    obtain ⟨c, hr, hc⟩ := D1.presented hs hready
    have hpos := limit_range hlimit
    exact flags_given hc (hgranted after limit) hlimit hstart
      (congrArg Except.ok (hr.listFlags org includeArchived start (by omega)).symm)

theorem D1.receiptListing_total {flagKey environmentKey : Option String} :
    (@D1.receiptListing codec platform config org flagKey environmentKey).Total
      (receiptAudience (fun s => D1.Lists s.tables) platform config org flagKey environmentKey)
      (D1.Reachable rt) (D1.Steps rt) fun s =>
        Presents platform rt s.log ∧ ∀ row ∈ s.tables.receipts, row.rowSeq ≤ i64Max := by
  refine D1.receiptListing_lawful.total (fun _ => .refl) (fun _ _ => trivial) ?_ ?_
  · rintro context auth s after limit items next ⟨exchange, hlists, hruns⟩
    exact ⟨context, _, hruns, lists_granted _ (fun _ => D1.lists_other) hlists⟩
  · rintro s hs ⟨hready, hfits⟩ context auth ⟨hkeys, hgranted⟩ after limit start hlimit hstart
    obtain ⟨c, hr, hc⟩ := D1.presented hs hready
    have hpos := limit_range hlimit
    rw [hr.receipts, List.forall_mem_map] at hfits
    exact receipts_given hc (hgranted after limit) hlimit hkeys hstart
      (hr.listReceipts hfits org flagKey environmentKey start (by omega)).symm

end Backends

/-- In both backends a client that follows the cursors gets every matching flag and receipt once, and
whoever is granted the listing gets to its end. -/
theorem pagination_complete (codec : Codec) (describe : Postgres.DbError → String) (rt : Runtime)
    (platform : Platform) (config : PolicyConfig) (org : String) (includeArchived : Bool)
    (flagKey environmentKey : Option String) :
    (((@Postgres.flagListing codec describe rt platform config org
          includeArchived).Complete Postgres.Reachable Postgres.Steps
          (fun s => Postgres.Bigserial s.store) ∧
        (@Postgres.receiptListing codec describe rt platform config org flagKey
          environmentKey).Complete Postgres.Reachable Postgres.Steps
          fun s => Postgres.Bigserial s.store) ∧
      (@D1.flagListing codec platform config org includeArchived).Complete
        (D1.Reachable rt) (D1.Steps rt) (fun _ => True) ∧
      (@D1.receiptListing codec platform config org flagKey environmentKey).Complete
        (D1.Reachable rt) (D1.Steps rt) fun _ => True) ∧
    ((@Postgres.flagListing codec describe rt platform config org includeArchived).Total
        (flagAudience (fun s => Postgres.Lists describe rt s.store) platform config org
          includeArchived) Postgres.Reachable Postgres.Steps
        (fun s => Presents platform rt s.log ∧ Postgres.Bigserial s.store) ∧
      (@Postgres.receiptListing codec describe rt platform config org flagKey environmentKey).Total
        (receiptAudience (fun s => Postgres.Lists describe rt s.store) platform config org flagKey
          environmentKey) Postgres.Reachable Postgres.Steps
        fun s => Presents platform rt s.log ∧ Postgres.Bigserial s.store) ∧
    (@D1.flagListing codec platform config org includeArchived).Total
      (flagAudience (fun s => D1.Lists s.tables) platform config org includeArchived)
      (D1.Reachable rt) (D1.Steps rt) (fun s => Presents platform rt s.log) ∧
    (@D1.receiptListing codec platform config org flagKey environmentKey).Total
      (receiptAudience (fun s => D1.Lists s.tables) platform config org flagKey environmentKey)
      (D1.Reachable rt) (D1.Steps rt) fun s =>
        Presents platform rt s.log ∧ ∀ row ∈ s.tables.receipts, row.rowSeq ≤ i64Max :=
  ⟨⟨⟨Postgres.flagListing_lawful.complete, Postgres.receiptListing_lawful.complete⟩,
      D1.flagListing_lawful.complete, D1.receiptListing_lawful.complete⟩,
    ⟨Postgres.flagListing_total, Postgres.receiptListing_total⟩, D1.flagListing_total,
    D1.receiptListing_total⟩

/-! ## Two pages -/

def consolePlatform : Platform := ⟨"", "", "", "", fun _ => true⟩

def consoleConfig : PolicyConfig := ⟨[], ["console"], 256, 1, 1⟩

/-- Two flags, and two receipts of the first. -/
def listedCalls : List Call :=
  [⟨⟨"caller", "actor", "key-1", [1]⟩, .createFlag "org" "flag" "Flag" none "boolean"⟩,
    ⟨⟨"caller", "actor", "key-2", [2]⟩, .createFlag "org" "other" "Other" none "boolean"⟩,
    ⟨⟨"caller", "actor", "key-3", [3]⟩, .putEnvironment "org" "prod" "Production" none⟩,
    ⟨⟨"caller", "actor", "key-4", [4]⟩, .publishRuleset "org" "flag" "prod" 1 1
      ⟨[⟨"on", ⟨"boolean", some true, none, none, none, none⟩⟩], [], [], "on"⟩⟩,
    ⟨⟨"caller", "actor", "key-5", [5]⟩, .evaluate "org" "prod" "flag" "user-1" []
      (contextHash (.atEpoch []) ⟨[], "user-1"⟩)⟩,
    ⟨⟨"caller", "actor", "key-6", [6]⟩, .evaluate "org" "prod" "flag" "user-1" []
      (contextHash (.atEpoch []) ⟨[], "user-1"⟩)⟩]

theorem listedCalls_presents {log : List (Serial.Entry Call Draws Answer)}
    (h : ∀ e ∈ log, e.call ∈ listedCalls) : Presents consolePlatform (.atEpoch []) log := by
  have hlawful : ∀ call ∈ listedCalls, call.operation.Lawful (.atEpoch []) := by
    simp only [listedCalls, List.forall_mem_cons]
    exact ⟨⟨.boolean, rfl⟩, ⟨.boolean, rfl⟩, fun _ h => absurd h.symm (Option.some_ne_none _),
      ⟨by decide, by decide⟩, rfl, rfl, fun _ h => absurd h List.not_mem_nil⟩
  exact ⟨fun _ => rfl, fun e he => hlawful _ (h e he)⟩

theorem flags_granted_console {State : Type} {Lists : State → Exchange Ask.Reply → Prop} :
    (flagAudience Lists consolePlatform consoleConfig "org" true).granted ⟨some "console"⟩
      ⟨"console", "admin-1"⟩ :=
  have horg : validOpaqueId "org" = true := by decide
  fun _ _ => ⟨rfl, List.mem_singleton_self _, horg, by decide⟩

theorem receipts_granted_console {State : Type} {Lists : State → Exchange Ask.Reply → Prop} :
    (receiptAudience Lists consolePlatform consoleConfig "org" (some "flag") none).granted
      ⟨some "console"⟩ ⟨"console", "admin-1"⟩ :=
  have horg : validOpaqueId "org" = true := by decide
  ⟨by decide, fun _ _ => ⟨rfl, List.mem_singleton_self _, horg, by decide⟩⟩

/-- Two flags and two receipts in each backend, on pages of one. -/
theorem pagination_complete_two :
    (∃ s : D1.State Codec.verbatim, D1.Reachable (.atEpoch []) s ∧
      (∃ pages, (D1.flagListing consolePlatform consoleConfig "org" true).Traversed
        (D1.Steps (.atEpoch [])) ((flagAudience (fun s => D1.Lists s.tables) consolePlatform
          consoleConfig "org" true).gives ⟨some "console"⟩ ⟨"console", "admin-1"⟩ s) (fun _ => 1) s
        none ((D1.flagListing consolePlatform consoleConfig "org" true).all s) pages ∧
        (pages.flatMap Page.items).length = 2) ∧
      ∃ pages, (D1.receiptListing consolePlatform consoleConfig "org" (some "flag") none).Traversed
        (D1.Steps (.atEpoch [])) ((receiptAudience (fun s => D1.Lists s.tables) consolePlatform
          consoleConfig "org" (some "flag") none).gives ⟨some "console"⟩ ⟨"console", "admin-1"⟩ s)
        (fun _ => 1) s none
        ((D1.receiptListing consolePlatform consoleConfig "org" (some "flag") none).all s) pages ∧
        (pages.flatMap Page.items).length = 2) ∧
    ∃ s : Postgres.State Codec.verbatim (fun _ => "") (.atEpoch []), Postgres.Reachable s ∧
      (∃ pages, (Postgres.flagListing (fun _ => "") (.atEpoch []) consolePlatform consoleConfig "org"
          true).Traversed Postgres.Steps
        ((flagAudience (fun s => Postgres.Lists (fun _ => "") (.atEpoch []) s.store) consolePlatform
          consoleConfig "org" true).gives ⟨some "console"⟩ ⟨"console", "admin-1"⟩ s) (fun _ => 1) s
        none ((Postgres.flagListing (fun _ => "") (.atEpoch []) consolePlatform consoleConfig "org"
          true).all s) pages ∧
        (pages.flatMap Page.items).length = 2) ∧
      ∃ pages, (Postgres.receiptListing (fun _ => "") (.atEpoch []) consolePlatform consoleConfig
          "org" (some "flag") none).Traversed Postgres.Steps
        ((receiptAudience (fun s => Postgres.Lists (fun _ => "") (.atEpoch []) s.store)
          consolePlatform consoleConfig "org" (some "flag") none).gives ⟨some "console"⟩
          ⟨"console", "admin-1"⟩ s) (fun _ => 1) s none
        ((Postgres.receiptListing (fun _ => "") (.atEpoch []) consolePlatform consoleConfig "org"
          (some "flag") none).all s) pages ∧
        (pages.flatMap Page.items).length = 2 := by
  obtain ⟨s, hs, htables, hcalls⟩ :=
    @D1.exists_calls Codec.verbatim (.atEpoch []) listedCalls (by decide)
  obtain ⟨t, ht, hstore, hcalls'⟩ :=
    @Postgres.exists_calls Codec.verbatim (fun _ => "") (.atEpoch []) listedCalls
  obtain ⟨-, ⟨hflags', hreceipts'⟩, hflags, hreceipts⟩ := pagination_complete Codec.verbatim
    (fun _ => "") (.atEpoch []) consolePlatform consoleConfig "org" true (some "flag") none
  have hlength : ∀ {α β : Type} {items : List α} {rows : List β} {f : β → Option α},
      items.map some = rows.map f → rows.length = 2 → items.length = 2 := by
    intro α β items rows f heq htwo
    rw [← List.length_map, heq, List.length_map, htwo]
  have hfits : ∀ row ∈ s.tables.receipts, row.rowSeq ≤ i64Max := by
    rw [htables]
    decide
  have hserial : Postgres.Bigserial t.store := by
    rw [hstore]
    exact ⟨by decide, by decide⟩
  obtain ⟨flags, hflags⟩ := hflags.traversed s hs (listedCalls_presents hcalls) _ _
    flags_granted_console (fun _ => 1) fun _ => rfl
  obtain ⟨receipts, hreceipts⟩ := hreceipts.traversed s hs ⟨listedCalls_presents hcalls, hfits⟩ _ _
    receipts_granted_console (fun _ => 1) fun _ => rfl
  obtain ⟨flags', hflags'⟩ := hflags'.traversed t ht ⟨listedCalls_presents hcalls', hserial⟩ _ _
    flags_granted_console (fun _ => 1) fun _ => rfl
  obtain ⟨receipts', hreceipts'⟩ := hreceipts'.traversed t ht
    ⟨listedCalls_presents hcalls', hserial⟩ _ _ receipts_granted_console (fun _ => 1) fun _ => rfl
  refine ⟨⟨s, hs, ⟨flags, hflags, hlength hflags.items ?_⟩, receipts, hreceipts,
    hlength hreceipts.items ?_⟩, t, ht, ⟨flags', hflags', hlength hflags'.items ?_⟩, receipts',
    hreceipts', hlength hreceipts'.items ?_⟩
  · change (Table.orderBy _ (List.filter _ s.tables.flags)).length = 2
    rw [htables]
    rfl
  · change (Table.orderBy _ (List.filter _ s.tables.receipts)).length = 2
    rw [htables]
    rfl
  · change (Table.orderBy _ (List.filter _ t.store.flags)).length = 2
    rw [hstore]
    rfl
  · change (Table.orderBy _ (List.filter _ t.store.receipts)).length = 2
    rw [hstore]
    rfl

end LensoFlags
