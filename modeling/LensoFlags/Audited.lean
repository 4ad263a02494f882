import LensoFlags.Explained
import LensoFlags.Traversed

/-!
# Audits

What a client finds who goes through the receipts, or the flags, of an organization while others
write.

Results:
1. `receipts_found`: the receipts of an evaluation that was answered before are found, once each.
2. `receipts_accounted`: every receipt that is shown is of an evaluation that was granted.
3. `flags_found`: every flag that was shown before is found, once.
4. `listings_traversed`: a client can go through the listings to their end at any time.
-/

namespace LensoFlags

theorem castReceipt_fields {platform : Platform} {record : ReceiptRecord} {item : ReceiptResponse}
    (h : castReceipt platform record = some item) :
    item.contextHash = record.contextHash ∧ item.environmentKey = record.environmentKey ∧
      item.evaluationId = record.evaluationId ∧ item.flagKey = record.flagKey ∧
      item.rulesetRevision = record.rulesetRevision ∧ item.variantKey = record.variantKey ∧
      Reason.ofWire record.reason = some item.reason := by
  simp only [castReceipt, Option.bind_eq_bind, Option.bind_eq_some_iff] at h
  obtain ⟨_, -, reason, hreason, h⟩ := h
  cases h
  exact ⟨rfl, rfl, rfl, rfl, rfl, rfl, hreason⟩

theorem castEvaluation_key {platform : Platform} {record : EvaluationRecord}
    {item : EvaluationResponse} (h : castEvaluation platform record = some item) :
    item.receiptId = record.receiptId := by
  simp only [castEvaluation, Option.bind_eq_bind, Option.bind_eq_some_iff] at h
  obtain ⟨_, -, _, -, _, -, h⟩ := h
  cases h
  rfl

/-- One of the items has the key. -/
theorem exists_of_count {Item Key : Type} [DecidableEq Key] {itemKey : Item → Key} {k : Key}
    {items : List Item} (h : (items.map itemKey).count k = 1) :
    ∃ item ∈ items, itemKey item = k ∧ items.filter (fun other => itemKey other = k) = [item] := by
  have hlength : (items.filter fun other => itemKey other = k).length = 1 := by
    rw [← h, List.count_eq_countP, List.countP_map, List.countP_eq_length_filter]
    congr 1
  obtain ⟨item, hitem⟩ := List.length_eq_one_iff.mp hlength
  have hmem : item ∈ items.filter fun other => itemKey other = k := by
    rw [hitem]
    exact List.mem_singleton_self _
  exact ⟨item, (List.mem_filter.mp hmem).1, of_decide_eq_true (List.mem_filter.mp hmem).2, hitem⟩

/-- The receipt says of the evaluation what its answer said. -/
structure ReceiptResponse.Of (receipt : ReceiptResponse) (item : EvaluationResponse) : Prop where
  flag : receipt.flagKey = item.flagKey
  environment : receipt.environmentKey = item.environmentKey
  variant : receipt.variantKey = item.variantKey
  reason : receipt.reason = item.reason
  rulesetRevision : receipt.rulesetRevision = item.rulesetRevision

/-- The receipt is of the evaluation of a flag that the request asked for. -/
structure ReceiptResponse.Answers (rt : Runtime) (receipt : ReceiptResponse) (request : Request)
    (context : EvaluationContext) : Prop where
  asked : ∃ flagKeys key n, request.asked = some (context, receipt.environmentKey, flagKeys) ∧
    request.key = some key ∧ flagKeys[n]? = some receipt.flagKey ∧
    receipt.evaluationId = Abstract.evaluationId request.operation key n
  contextHash : receipt.contextHash = LensoFlags.contextHash rt context

namespace Deployment

variable {B : Backend} {codec : Codec} {platform : Platform} {rt : Runtime}
  {config : PolicyConfig} {Holds : B.State → Abstract.Store codec → Prop} {s s' : State B} {i : ℕ}
  {request : Request} {auth : Authorized} {response : ServiceResponse}

/-! ## Receipts that are found -/

/-- The receipt of an evaluation that was answered is found. -/
theorem Wrote.found (hB : B.Accountable codec rt) (hm : B.Mirrors codec rt Holds)
    (hlists : B.Lists codec Holds) (hsteady : codec.Steady) (hprinted : Printed rt)
    (h : Reachable B platform rt config s) (hdigested : Digested rt s)
    (hwrote : Wrote rt config s i request auth response) {item : EvaluationResponse}
    (hitem : item ∈ response.evaluationsShown) {flagKey environmentKey : Option String}
    (hflag : flagKey.all (· == item.flagKey) = true)
    (henvironment : environmentKey.all (· == item.environmentKey) = true)
    {pages : List (List ReceiptResponse)}
    (htraversal : (receiptQuery request.organizationId flagKey environmentKey).Traversal platform rt
      config s none pages s') :
    ∃ receipt, pages.flatten.filter (fun other => other.receiptId = item.receiptId) = [receipt] ∧
      receipt.Of item := by
  obtain ⟨c, hc, hlogged⟩ := hm.held s.store (Inv.reachable hB.lawful h).store
  obtain ⟨e, original, hcomes, he, hvalue, hkind, hconveys⟩ := hwrote.took hB hprinted h hdigested
  have horganization := (Request.call_carried hcomes).organizationId
  obtain ⟨record, hrecord, told, hretold, hcast⟩ :=
    Table.exists_of_mem_right hconveys.evaluations hitem
  obtain ⟨subject, flagKeys, hop⟩ := evaluates_of_mem hkind hrecord
  rw [Abstract.evaluates_organizationId hop] at horganization
  obtain ⟨-, -, c₀, σ, results, -, -, hresults, hrecords, hreceipts⟩ :=
    hlogged.commits.evaluations he hvalue hop
  rw [hrecords] at hrecord
  obtain ⟨result, hresult, rfl⟩ := List.mem_map.mp hrecord
  obtain ⟨at_, -, heval⟩ := Table.exists_of_mem_right hresults hresult
  have hrow := hreceipts result hresult
  obtain ⟨hflag', henvironment', hrevision⟩ := castEvaluation_fields hcast
  obtain ⟨hvariant, -, hreason⟩ := castEvaluation_choice hcast
  have hkey := castEvaluation_key hcast
  -- The numbers of the value are all that can have changed.
  obtain ⟨htoldFlag, htoldEnvironment, htoldRevision, htoldVariant, htoldReason, htoldKey, -⟩ :=
    EvaluationRecord.outline_fields (hretold.outline hsteady)
  rw [htoldFlag] at hflag'
  rw [htoldEnvironment] at henvironment'
  rw [htoldRevision] at hrevision
  rw [htoldVariant] at hvariant
  rw [htoldReason] at hreason
  rw [htoldKey] at hkey
  obtain ⟨variant, reason, revision, -, rfl⟩ := heval.choice
  have hreads : (receiptQuery request.organizationId flagKey environmentKey).Reads platform rt config
      Holds (Abstract.receiptListing codec platform request.organizationId flagKey
        environmentKey) := receiptQuery_reads hB.lawful hm hlists
  -- In every later store the row is the one with its id.
  have hsame : ∀ c' : Abstract.Store codec, Abstract.Later rt c c' → Abstract.Reached rt c' →
      ∀ row ∈ c'.receipts, row.receiptId = (σ.evaluation at_.2).receiptId → row = _ :=
    fun c' hlater hreached row hmem hid =>
      List.inj_on_of_nodup_map hreached.sound.receiptIds hmem (hlater.receipts.mem hrow) hid
  have hselects : ∀ c' : Abstract.Store codec, Abstract.Later rt c c' → Abstract.Reached rt c' →
      ∀ row ∈ c'.receipts, row.receiptId = (σ.evaluation at_.2).receiptId →
        (decide (row.organizationId = request.organizationId) &&
          flagKey.all (· == row.flagKey) && environmentKey.all (· == row.environmentKey)) = true := by
    intro c' hlater hreached row hmem hid
    rw [hflag'] at hflag
    rw [henvironment'] at henvironment
    rw [hsame c' hlater hreached row hmem hid, Bool.and_eq_true, Bool.and_eq_true]
    exact ⟨⟨decide_eq_true horganization, hflag⟩, henvironment⟩
  obtain ⟨receipt, hmem, hid, hfilter⟩ := exists_of_count (htraversal.once hB.lawful hm hreads
    Abstract.receiptListing_lawful h hc hrow hselects)
  obtain ⟨c', hlater, hreached, row, hrow', hshown⟩ :=
    htraversal.shown hB.lawful hm hreads Abstract.receiptListing_lawful h hc receipt hmem
  cases hsame c' hlater hreached row hrow' ((castReceipt_key hshown).symm.trans hid)
  obtain ⟨-, henvironment₁, -, hflag₁, hrevision₁, hvariant₁, hreason₁⟩ := castReceipt_fields hshown
  refine ⟨receipt, ?_, hflag₁.trans hflag'.symm, henvironment₁.trans henvironment'.symm,
    hvariant₁.trans hvariant.symm, Option.some.inj (hreason₁.symm.trans hreason),
    hrevision₁.trans hrevision.symm⟩
  rw [hkey]
  exact hfilter

/-! ## Receipts that are shown -/

variable (rt config) in
/-- The receipt is of an evaluation that was granted, and tells what the publication of its revision
has for the flag in the context that was asked with. -/
structure Accounted (s : State B) (org : String) (receipt : ReceiptResponse) : Prop where
  evaluated : ∃ j f auth context, s.requests j = some f ∧
    f.request.Granted config f.context auth f.trace ∧ f.request.organizationId = org ∧
    receipt.Answers rt f.request context ∧
    ∃ k publish value, Published config s k publish receipt.rulesetRevision ∧
      publish.organizationId = org ∧ publish.flagKey = receipt.flagKey ∧
      publish.environmentKey = receipt.environmentKey ∧
      publish.Chooses rt context receipt.variantKey value receipt.reason

/-- A row of the receipts of a moment is accounted for ever after. -/
theorem accounted_of_row (hB : B.Accountable codec rt) (hm : B.Mirrors codec rt Holds)
    (hsteady : codec.Steady) (h : Reachable B platform rt config s) (hdigested : Digested rt s)
    {m : B.State} (hreachable : B.Reachable m) (hsteps : B.Steps m s.store)
    {c : Abstract.Store codec} (hc : Holds m c) {row : Abstract.Receipt} (hrow : row ∈ c.receipts)
    {receipt : ReceiptResponse} (hcast : castReceipt platform row.record = some receipt) :
    Accounted rt config s row.organizationId receipt := by
  have hi := Inv.reachable hB.lawful h
  obtain ⟨older, newer, e, c₀, σ, subject, flagKeys, at_, record, hlog, hold, hop, hat, heval⟩ :=
    (hm.logged hreachable hc).commits.sourced row hrow
  obtain ⟨more, hmore⟩ := hm.log_suffix hreachable hsteps
  have hlog' : B.log s.store = (more ++ newer ++ [e]) ++ older := by
    rw [← hmore, hlog]
    simp
  have he : e ∈ B.log s.store := by
    rw [hlog']
    simp
  obtain ⟨f, auth, hf, hgranted, hcomes⟩ := hi.origin (hB.called s.store hi.store e he)
  obtain ⟨hasked, hhash⟩ := Request.call_evaluates hcomes hop
  have hcarried := Request.call_carried hcomes
  have horganization := hcarried.organizationId
  rw [Abstract.evaluates_organizationId hop] at horganization
  obtain ⟨hcontext, henvironment, hid, hflag, hrevision, hvariant, hreason⟩ :=
    castReceipt_fields hcast
  obtain ⟨variant, reason, revision, -, hresult⟩ := heval.choice
  obtain ⟨rfl, rfl⟩ := Prod.mk.inj hresult
  obtain ⟨k, publish, value, hpublished, horg, hkey, henvironment', -, hchooses, -⟩ :=
    chosen_of_evaluated hB hsteady h hdigested hlog' hold heval hreason
  refine ⟨e.session, f, auth, subject.context, hf, hgranted, horganization.symm, ⟨?_, ?_⟩, k, publish,
    value, ?_, horg, hkey.trans hflag.symm, henvironment'.trans henvironment.symm, ?_⟩
  · refine ⟨flagKeys, _, at_.2, ?_, hcarried.key, ?_, ?_⟩
    · rw [henvironment]
      exact hasked
    · rw [hflag]
      exact List.mem_zipIdx_iff_getElem?.mp hat
    · rw [hid, ← hcarried.operation]
      rfl
  · rw [hcontext, ← hhash]
    rfl
  · rw [hrevision]
    exact hpublished
  · rw [hvariant]
    exact hchooses

/-- The receipts a listing shows are accounted for. -/
theorem accounted (hB : B.Accountable codec rt) (hm : B.Mirrors codec rt Holds)
    (hsteady : codec.Steady) (h : Reachable B platform rt config s) (hdigested : Digested rt s)
    {f : InFlight} (hf : s.requests i = some f) {listing : ListEvaluationReceiptsRequest}
    (hrequest : f.request = .listEvaluationReceipts listing)
    {page : ListEvaluationReceiptsResponse} (hrest : f.rest = .ret (.receipts page)) :
    ∀ receipt ∈ page.receipts, Accounted rt config s listing.organizationId receipt := by
  have hi := Inv.reachable hB.lawful h
  obtain ⟨start, records, -, -, hmem, hitems, -⟩ := hi.receipts hf hrequest hrest
  obtain ⟨m, hreachable, hsteps, htells⟩ := hi.told i f hf _ _ rfl hmem
  obtain ⟨c, hc, -⟩ := hm.held m hreachable
  intro receipt hreceipt
  obtain ⟨record, hrecord, hcast⟩ := mem_of_cast hitems receipt hreceipt
  obtain ⟨row, hrow, horg, rfl⟩ := hm.reads m hreachable c hc _ _ htells record hrecord
  rw [← horg]
  exact accounted_of_row hB hm hsteady h hdigested hreachable hsteps hc hrow hcast

/-! ## Flags that are found -/

/-- A flag that was shown is found, at the version that was shown or a later one. -/
theorem flag_found (hB : B.Accountable codec rt) (hm : B.Mirrors codec rt Holds)
    (hlists : B.Lists codec Holds) (h : Reachable B platform rt config s) {f : InFlight}
    (hf : s.requests i = some f) (hrest : f.rest = .ret response) {item : FlagResponse}
    (hitem : item ∈ response.flagsShown) {pages : List (List FlagResponse)}
    (htraversal : (flagQuery item.organizationId true).Traversal platform rt config s none pages s') :
    ∃ flag, pages.flatten.filter (fun other =>
        (other.organizationId, other.flagKey) = (item.organizationId, item.flagKey)) = [flag] ∧
      ∃ revision revision' : Int, item.revision = toString revision ∧
        flag.revision = toString revision' ∧ (flag = item ∨ revision < revision') := by
  have hinitial : Reachable B platform rt config (State.initial B) := .refl
  obtain ⟨moments, hsince⟩ := exists_since hB.lawful hm hinitial h
  obtain ⟨m, hmem, c₀, hc₀, old, hold, hcast⟩ := displayed hB hm hinitial h hsince rfl hf
    (new_initial hm _) hrest item hitem
  have hreachable : B.Reachable m := hsince.after m hmem
  have hs₀ := (hm.logged hreachable hc₀).run.sound
  obtain ⟨horg, hkey⟩ := castFlag_key hcast
  have hkeys : old.key = (item.organizationId, item.flagKey) := Prod.ext horg.symm hkey.symm
  obtain ⟨c, hc, -⟩ := hm.held s.store (Inv.reachable hB.lawful h).store
  have hlater := hm.later hreachable (hsince.before m hmem) hc₀ hc
  obtain ⟨kept, hkept, -⟩ := hlater.persists (Table.lookup_of_mem hs₀.flagKeys hold)
  have hkeptKey : kept.key = (item.organizationId, item.flagKey) :=
    (Table.key_of_lookup hkept).trans hkeys
  have hreads : (flagQuery item.organizationId true).Reads platform rt config Holds
      (Abstract.flagListing codec platform item.organizationId true) :=
    flagQuery_reads hB.lawful hm hlists
  have honce := htraversal.once hB.lawful hm hreads Abstract.flagListing_lawful h hc
    (Table.mem_of_lookup hkept) fun c' _ _ row _ hrow => by
      have hrowOrg := congrArg Prod.fst (hrow.trans hkeptKey)
      exact Bool.and_eq_true _ _ |>.mpr ⟨decide_eq_true hrowOrg, rfl⟩
  obtain ⟨flag, hflag, hflagKey, hfilter⟩ := exists_of_count honce
  rw [show (Abstract.flagListing codec platform item.organizationId true).key kept = _ from hkeptKey]
    at hflagKey hfilter
  obtain ⟨c', hlater', hreached, row, hrow, hshown⟩ :=
    htraversal.shown hB.lawful hm hreads Abstract.flagListing_lawful h hc flag hflag
  obtain ⟨horg', hkey'⟩ := castFlag_key hshown
  have hsame : row.key = old.key :=
    (Prod.ext horg'.symm hkey'.symm : row.key = (flag.organizationId, flag.flagKey)).trans
      (hflagKey.trans hkeys.symm)
  refine ⟨flag, hfilter, old.revision, row.revision, castFlag_revision hcast,
    castFlag_revision hshown, ?_⟩
  have hwhole : Abstract.Later rt c₀ c' := hlater.trans hlater'
  refine (hwhole.version hs₀ hreached.sound hold hrow hsame).imp ?_ id
  rintro rfl
  exact Option.some.inj (hshown.symm.trans hcast)

/-! ## Listings to the end -/

section Ends

open Decimal (i64Max)

variable {c : Abstract.Store codec} {context : Ctx} {org : String} {limit : Int64}

theorem flags_traversed (hB : B.Accountable codec rt) (hm : B.Mirrors codec rt Holds)
    (hlists : B.Lists codec Holds)
    (htime : ∀ instant, platform.isTimestamp (rt.formatTimestamp instant))
    (h : Reachable B platform rt config s) (hc : Holds s.store c)
    (hfits : ∀ flag ∈ c.flags, flag.rowSeq ≤ i64Max) {includeArchived : Bool}
    (hgrantable : ((flagQuery org includeArchived).request none limit).Grantable config context auth)
    (hlimit : (1 ≤ limit && limit ≤ 200) = true) :
    ∃ pages s', (flagQuery org includeArchived).Traversal platform rt config s none pages s' ∧
      s'.store = s.store ∧ (∀ items ∈ pages, items.length ≤ limit.toInt.toNat) ∧
      pages.flatten.map some = ((Abstract.flagListing codec platform org includeArchived).all c).map
        (Abstract.flagListing codec platform org includeArchived).cast := by
  have hopen : (flagQuery org includeArchived).Open platform rt config Holds
      (Abstract.flagListing codec platform org includeArchived) c limit.toInt.toNat :=
    flagQuery_open hB hlists htime hgrantable hlimit
  exact hopen.traversed hB hm Abstract.flagListing_lawful hfits h hc

end Ends

end Deployment

theorem Plugin.lists {codec : Codec} {rt : Runtime} (plugin : Plugin) :
    (plugin.backend codec rt).Lists codec plugin.Holds := by
  cases plugin with
  | d1 => exact D1.lists
  | postgres describe => exact Postgres.lists

section Guarantees

open Deployment
open Decimal (i64Max)

variable {codec : Codec} {platform : Platform} {rt : Runtime} {config : PolicyConfig}
  (plugin : Plugin)

/-- Whoever goes through the receipts of an organization after an evaluation was answered, finds the
receipt that the answer names once, with what the answer told, whatever is written meanwhile. -/
theorem receipts_found (hsteady : codec.Steady) (hprinted : Printed rt)
    {s s' : State (plugin.backend codec rt)}
    (h : Reachable (plugin.backend codec rt) platform rt config s) (hdigested : Digested rt s)
    {i : ℕ} {request : Request} {auth : Authorized} {response : ServiceResponse}
    (hwrote : Wrote rt config s i request auth response) {item : EvaluationResponse}
    (hitem : item ∈ response.evaluationsShown) {flagKey environmentKey : Option String}
    (hflag : flagKey.all (· == item.flagKey) = true)
    (henvironment : environmentKey.all (· == item.environmentKey) = true)
    {pages : List (List ReceiptResponse)}
    (htraversal : (receiptQuery request.organizationId flagKey environmentKey).Traversal platform rt
      config s none pages s') :
    ∃ receipt, pages.flatten.filter (fun other => other.receiptId = item.receiptId) = [receipt] ∧
      receipt.Of item :=
  hwrote.found plugin.accountable plugin.mirrors plugin.lists hsteady hprinted h hdigested hitem hflag
    henvironment htraversal

/-- Every receipt that is shown is of an evaluation that was asked for and granted, and tells what
the publication of its revision has for the flag in the context that was asked with. -/
theorem receipts_accounted (hsteady : codec.Steady) {s : State (plugin.backend codec rt)}
    (h : Reachable (plugin.backend codec rt) platform rt config s) (hdigested : Digested rt s)
    {i : ℕ} {f : InFlight} (hf : s.requests i = some f) {listing : ListEvaluationReceiptsRequest}
    (hrequest : f.request = .listEvaluationReceipts listing)
    {page : ListEvaluationReceiptsResponse} (hrest : f.rest = .ret (.receipts page)) :
    ∀ receipt ∈ page.receipts, Accounted rt config s listing.organizationId receipt :=
  accounted plugin.accountable plugin.mirrors hsteady h hdigested hf hrequest hrest

/-- Whoever goes through the flags of an organization, the archived ones included, finds every flag
that was shown before once, at the version that was shown or a later one. -/
theorem flags_found {s s' : State (plugin.backend codec rt)}
    (h : Reachable (plugin.backend codec rt) platform rt config s) {i : ℕ} {f : InFlight}
    {response : ServiceResponse} (hf : s.requests i = some f) (hrest : f.rest = .ret response)
    {item : FlagResponse} (hitem : item ∈ response.flagsShown) {pages : List (List FlagResponse)}
    (htraversal : (flagQuery item.organizationId true).Traversal platform rt config s none pages s') :
    ∃ flag, pages.flatten.filter (fun other =>
        (other.organizationId, other.flagKey) = (item.organizationId, item.flagKey)) = [flag] ∧
      ∃ revision revision' : Int, item.revision = toString revision ∧
        flag.revision = toString revision' ∧ (flag = item ∨ revision < revision') :=
  flag_found plugin.accountable plugin.mirrors plugin.lists h hf hrest hitem htraversal

end Guarantees

/-! ## Gone through -/

namespace Tour

open Deployment
open Decimal (i64Max)

/-- The numbers of the rows fit after the two evaluations. -/
theorem exists_numbered : ∃ s, AskedTwice s ∧ ∃ c : Abstract.Store Codec.verbatim,
    Plugin.d1.Holds s.store c ∧ (∀ flag ∈ c.flags, flag.rowSeq ≤ i64Max) ∧
      ∀ receipt ∈ c.receipts, receipt.rowSeq ≤ i64Max := by
  obtain ⟨s, hs⟩ := exists_askedTwice
  have hB : store.Accountable Codec.verbatim .undigested := Plugin.d1.accountable
  have hstore := (Inv.reachable hB.lawful hs.reachable).store
  obtain ⟨c, hc, -⟩ := Plugin.d1.mirrors.held s.store hstore
  have hr : D1.Represents (D1.State.tables s.store) c := hc
  have hrange := (D1.Inv.reachable (D1.backend_steps hstore)).range
  exact ⟨s, hs, c, hc, fun flag hflag => (hr.rowSeqs flag hflag).2.le.trans hrange,
    fun receipt hreceipt => (hr.receiptSeqs receipt hreceipt).2.trans hs.numbered⟩

/-- A page of the receipts is read after the two evaluations. -/
structure Looked (s s' : State store) (page : List ReceiptResponse) : Prop where
  steps : Steps store consolePlatform .undigested tourConfig s s'
  digested : Digested .undigested s'
  answered : ∃ i f listing, s'.requests i = some f ∧ f.request = .listEvaluationReceipts listing ∧
    listing.organizationId = "org" ∧ f.rest = .ret (.receipts ⟨page, none⟩)
  traversal : (receiptQuery "org" none none).Traversal consolePlatform .undigested tourConfig s none
    [page] s'
  length : page.length = 2

theorem exists_looked : ∃ s s' page, AskedTwice s ∧ Looked s s' page := by
  obtain ⟨s, hs, c, hc, -, hfits⟩ := exists_numbered
  have hB : store.Accountable Codec.verbatim .undigested := Plugin.d1.accountable
  have hgrantable : ((receiptQuery "org" none none).request none 200).Grantable tourConfig
      ⟨some "console"⟩ administrator :=
    ⟨rfl, List.mem_singleton_self _, by decide, by decide⟩
  have hstore := (Inv.reachable hB.lawful hs.reachable).store
  obtain ⟨records, hlisted, hlength⟩ := hs.listed
  have hrecords : records = Abstract.listReceipts c "org" none none none 201 :=
    Plugin.d1.lists.receipts s.store hstore c hc "org" none none none 201 records (by decide)
      (.inl hlisted.symm)
  have hfetches : (receiptQuery "org" none none).Fetches consolePlatform .undigested tourConfig s
      ⟨some "console"⟩ administrator none 200 ReceiptRecord.rowSeq (castReceipt consolePlatform)
      (Abstract.listReceipts c "org" none none none 201) :=
    receiptQuery_fetches hB Plugin.d1.lists (fun _ => rfl) hs.reachable hc hfits hgrantable
      (by decide) rfl
  rw [← hrecords] at hfetches
  obtain ⟨s', items, hasked, -, hitems, -, hrequests⟩ := hfetches.answered hs.reachable
  have hpage : FeatureFlags.page 200 ReceiptRecord.rowSeq records = (records, none) := by
    rw [FeatureFlags.page, hlength]
    rfl
  rw [hpage] at hasked hitems
  obtain ⟨i, f, limit, -, hf, hrequest, hrest⟩ := hasked.2
  refine ⟨s, s', items, hs, hasked.1, ⟨fun j g hg => ?_, fun _ _ _ _ _ _ _ _ _ _ hhash => hhash⟩,
    ⟨i, f, _, hf, hrequest, rfl, hrest⟩, .last hasked,
    (optionAll_eq_some.mp hitems).length_eq.symm.trans hlength⟩
  rcases hrequests j g hg with hold | hnew
  · exact hs.digested.canonical j g hold
  · rw [hnew]
    trivial

end Tour

section Witnesses

open Deployment Tour
open Decimal (i64Max)

theorem flags_found_twice : ∃ s s' : State store,
    Reachable store consolePlatform .undigested tourConfig s ∧ ∃ pages,
      (flagQuery "org" true).Traversal consolePlatform .undigested tourConfig s none pages s' ∧
      ∃ flag, pages.flatten.filter (fun other =>
        (other.organizationId, other.flagKey) = ("org", "banner")) = [flag] := by
  obtain ⟨s, hs, c, hc, hflags, -⟩ := exists_numbered
  obtain ⟨f, hf, -, hrest, -⟩ := hs.created.answered
  have hB : store.Accountable Codec.verbatim .undigested := Plugin.d1.accountable
  have hgrantable : ((flagQuery "org" true).request none 1).Grantable tourConfig ⟨some "console"⟩
      administrator :=
    ⟨rfl, List.mem_singleton_self _, by decide, by decide⟩
  obtain ⟨pages, s', htraversal, -⟩ := Deployment.flags_traversed hB Plugin.d1.mirrors
    Plugin.d1.lists (fun _ => rfl) hs.reachable hc hflags hgrantable (by decide)
  obtain ⟨flag, hfilter, -⟩ := flags_found .d1 hs.reachable hf hrest
    (List.mem_singleton_self _) htraversal
  exact ⟨s, s', hs.reachable, pages, htraversal, flag, hfilter⟩

theorem receipts_found_twice : ∃ s s' : State store,
    Reachable store consolePlatform .undigested tourConfig s ∧
      Wrote .undigested tourConfig s 3 evaluateRequest administrator (.evaluation servedVariant) ∧
      ∃ page, (receiptQuery "org" none none).Traversal consolePlatform .undigested tourConfig s none
        [page] s' ∧
      ∃ receipt, page.filter (fun other => other.receiptId = "3:0") = [receipt] ∧
        receipt.Of servedVariant := by
  obtain ⟨s, s', page, hs, hlooked⟩ := exists_looked
  obtain ⟨receipt, hfilter, hof⟩ := receipts_found .d1 Codec.verbatim_steady printed_undigested
    hs.reachable hs.digested hs.evaluated (List.mem_singleton_self _) rfl rfl hlooked.traversal
  rw [List.flatten_singleton] at hfilter
  exact ⟨s, s', hs.reachable, hs.evaluated, page, hlooked.traversal, receipt, hfilter, hof⟩

/-- Two receipts are shown, and both are accounted for. -/
theorem receipts_accounted_twice : ∃ s : State store,
    Reachable store consolePlatform .undigested tourConfig s ∧ ∃ i f page,
      s.requests i = some f ∧ f.rest = .ret (.receipts ⟨page, none⟩) ∧ page.length = 2 ∧
      ∀ receipt ∈ page, Accounted .undigested tourConfig s "org" receipt := by
  obtain ⟨s, s', page, hs, hlooked⟩ := exists_looked
  have hreachable := hs.reachable.trans hlooked.steps
  obtain ⟨i, f, listing, hf, hrequest, horg, hrest⟩ := hlooked.answered
  refine ⟨s', hreachable, i, f, page, hf, hrest, hlooked.length, ?_⟩
  rw [← horg]
  exact receipts_accounted .d1 Codec.verbatim_steady hreachable hlooked.digested hf
    hrequest hrest

end Witnesses

end LensoFlags
